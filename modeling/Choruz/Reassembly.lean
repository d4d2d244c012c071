import Mathlib

/-!
# Cutting a list into chunks and putting it together again

`chunks n xs` is `xs` in pieces of `n`, the last one possibly shorter.  A receiver keeps one slot
a piece; slots that hold nothing but pieces in their place are the whole list once all are filled.
-/

namespace Reassembly

section Chunks

variable {α : Type*} {n : ℕ}

def chunks (n : ℕ) (xs : List α) : List (List α) :=
  (List.range (xs.length ⌈/⌉ n)).map fun i => (xs.drop (n * i)).take n

@[simp] theorem length_chunks (n : ℕ) (xs : List α) : (chunks n xs).length = xs.length ⌈/⌉ n := by
  simp [chunks]

theorem length_le_of_mem_chunks {xs c : List α} (h : c ∈ chunks n xs) : c.length ≤ n := by
  obtain ⟨i, -, rfl⟩ := List.mem_map.1 h
  exact List.length_take_le n _

theorem flatten_windows (n : ℕ) (xs : List α) (k : ℕ) :
    ((List.range k).map fun i => (xs.drop (n * i)).take n).flatten = xs.take (n * k) := by
  induction k with
  | zero => simp
  | succ k ih =>
    rw [List.range_succ, List.map_append, List.flatten_append, ih, Nat.mul_succ, List.take_add]
    simp

theorem flatten_chunks (hn : 0 < n) (xs : List α) : (chunks n xs).flatten = xs := by
  unfold chunks
  rw [flatten_windows]
  exact List.take_of_length_le (le_smul_ceilDiv hn)

end Chunks

section Slots

variable {β : Type*} {pieces : List β} {slots : List (Option β)} {k : ℕ} {i : ℕ}

def filled (slots : List (Option β)) : ℕ := slots.countP Option.isSome

/-- One slot a piece, each empty or holding its piece. -/
structure Holds (pieces : List β) (slots : List (Option β)) : Prop where
  length : slots.length = pieces.length
  piece : ∀ (i : ℕ) (b : β), slots[i]? = some (some b) → pieces[i]? = some b

theorem holds_replicate (pieces : List β) : Holds pieces (List.replicate pieces.length none) where
  length := by simp
  piece i b h := by
    rw [List.getElem?_replicate] at h
    split_ifs at h
    cases h

@[simp] theorem filled_replicate (n : ℕ) : filled (List.replicate n (none : Option β)) = 0 := by
  simp [filled, List.countP_replicate]

theorem Holds.set (h : Holds pieces slots) {b : β} (hb : pieces[i]? = some b) :
    Holds pieces (slots.set i (some b)) where
  length := by simpa using h.length
  piece k c hk := by
    rw [List.getElem?_set] at hk
    split_ifs at hk with hi
    · subst hi
      cases hk
      exact hb
    · exact h.piece k c hk

theorem filled_set (hi : i < slots.length) (b : β) : filled (slots.set i (some b)) =
      filled slots + if (slots[i]?.bind id).isNone then 1 else 0 := by
  unfold filled
  rw [List.countP_set hi]
  have hle : (if slots[i].isSome then 1 else 0) ≤ slots.countP Option.isSome := by
    split_ifs with hso
    · exact List.countP_pos_iff.2 ⟨slots[i], List.getElem_mem hi, hso⟩
    · exact Nat.zero_le _
  rw [List.getElem?_eq_getElem hi]
  rcases hs : slots[i] with _ | c
  · simp
  simp only [hs, Option.isSome_some, if_true] at hle
  simp [id]
  omega

theorem Holds.eq_of_filled (h : Holds pieces slots) (hf : filled slots = slots.length) :
    slots = pieces.map some := by
  have ha : ∀ s ∈ slots, s.isSome := List.countP_eq_length.1 hf
  refine List.ext_getElem? fun i => ?_
  rcases hi : slots[i]? with _ | s
  · rw [List.getElem?_eq_none_iff, h.length] at hi
    simp [List.getElem?_eq_none hi]
  · obtain ⟨b, rfl⟩ := Option.isSome_iff_exists.1 (ha s (List.mem_of_getElem? hi))
    simp [h.piece i b hi]

/-- `slots.into_iter().flatten()`. -/
def taken (slots : List (Option β)) : List β := slots.filterMap id

theorem taken_map_some (pieces : List β) : taken (pieces.map some) = pieces := by
  simp [taken]

theorem Holds.taken_eq (h : Holds pieces slots) (hf : filled slots = slots.length) :
    taken slots = pieces := by
  rw [h.eq_of_filled hf, taken_map_some]

def firstSlots (pieces : List β) (k : ℕ) : List (Option β) :=
  (pieces.take k).map some ++ List.replicate (pieces.length - k) none

theorem firstSlots_zero (pieces : List β) :
    firstSlots pieces 0 = List.replicate pieces.length none := by
  simp [firstSlots]

theorem length_firstSlots (hk : k ≤ pieces.length) :
    (firstSlots pieces k).length = pieces.length := by
  simp [firstSlots]
  omega

theorem getElem?_firstSlots (hk : k < pieces.length) : (firstSlots pieces k)[k]? = some none := by
  have hl : ((pieces.take k).map some).length = k := by simp; omega
  rw [firstSlots, List.getElem?_append_right hl.le, hl, Nat.sub_self,
    List.getElem?_replicate, if_pos (by omega)]

theorem set_firstSlots {b : β} (hb : pieces[k]? = some b) :
    (firstSlots pieces k).set k (some b) = firstSlots pieces (k + 1) := by
  obtain ⟨hk, -⟩ := List.getElem?_eq_some_iff.1 hb
  have hl : ((pieces.take k).map some).length = k := by simp; omega
  have hr : pieces.length - k = pieces.length - (k + 1) + 1 := by omega
  rw [firstSlots, List.set_append_right _ _ hl.le, hl, Nat.sub_self, hr,
    List.replicate_succ, List.set_cons_zero, firstSlots, List.take_add_one, hb]
  simp

theorem taken_firstSlots (pieces : List β) : taken (firstSlots pieces pieces.length) = pieces := by
  rw [firstSlots, Nat.sub_self, List.take_length]
  simpa using taken_map_some pieces

end Slots

end Reassembly
