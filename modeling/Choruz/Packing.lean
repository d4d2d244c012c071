import Mathlib

/-!
# Packing items into batches

Items go into batches in order.  A batch is closed when it has `maxLen` items or the next item
would take its cost beyond `maxCost`; an item that alone costs more goes into none.
-/

namespace Packing

variable {α : Type*} (cost : α → ℕ) (maxLen maxCost : ℕ)

/-- The batches from an open batch of a cost on. -/
def pack (current : List α) (used : ℕ) : List α → List (List α)
  | [] => if current.isEmpty then [] else [current]
  | a :: as =>
    if cost a > maxCost then pack current used as
    else if current.length ≥ maxLen || (!current.isEmpty && used + cost a > maxCost) then
      current :: pack [a] (cost a) as
    else pack (current ++ [a]) (used + cost a) as

variable {cost maxLen maxCost}

theorem flatten_pack : ∀ {as current : List α} {used : ℕ},
    (pack cost maxLen maxCost current used as).flatten =
      current ++ as.filter fun a => cost a ≤ maxCost
  | [], current, used => by
    unfold pack
    split_ifs with he
    · simpa using he
    · simp
  | a :: as, current, used => by
    unfold pack
    split_ifs with hc hf
    · rw [flatten_pack, List.filter_cons_of_neg (by simpa using hc)]
    · rw [List.flatten_cons, flatten_pack, List.filter_cons_of_pos (by simpa using hc)]
      rfl
    · rw [flatten_pack, List.filter_cons_of_pos (by simpa using hc)]
      simp

/-- A batch is within both limits and is not empty. -/
structure Within (cost : α → ℕ) (maxLen maxCost : ℕ) (batch : List α) : Prop where
  len : batch.length ≤ maxLen
  total : (batch.map cost).sum ≤ maxCost
  nonempty : batch ≠ []

theorem within_of_mem_pack (hl : 0 < maxLen) : ∀ {as current batch : List α},
    current.length ≤ maxLen → (current.map cost).sum ≤ maxCost →
    batch ∈ pack cost maxLen maxCost current (current.map cost).sum as →
      Within cost maxLen maxCost batch
  | [], current, batch, hc, ht, h => by
    unfold pack at h
    split_ifs at h with he
    · cases h
    · obtain rfl := List.mem_singleton.1 h
      exact ⟨hc, ht, fun hn => he (List.isEmpty_iff.2 hn)⟩
  | a :: as, current, batch, hc, ht, h => by
    unfold pack at h
    split_ifs at h with hco hf
    · exact within_of_mem_pack hl hc ht h
    · rcases List.mem_cons.1 h with rfl | h
      · refine ⟨hc, ht, fun hn => ?_⟩
        -- an empty batch is not full
        subst hn
        simp at hf
        omega
      · have hs : ([a].map cost).sum = cost a := by simp
        exact within_of_mem_pack hl (by simpa using Nat.succ_le_of_lt hl) (by simpa using hco) h
    · have hs : ((current ++ [a]).map cost).sum = (current.map cost).sum + cost a := by simp
      simp only [Bool.or_eq_true, Bool.and_eq_true, decide_eq_true_eq, not_or] at hf
      rw [← hs] at h
      refine within_of_mem_pack hl ?_ ?_ h
      · rw [List.length_append, List.length_singleton]
        omega
      · rw [hs]
        rcases hcu : current with _ | ⟨b, bs⟩
        · simpa using hco
        subst hcu
        have hlt : ¬ ((b :: bs).map cost).sum + cost a > maxCost := fun hgt => hf.2 ⟨rfl, hgt⟩
        omega

theorem within_of_mem (hl : 0 < maxLen) {as batch : List α}
    (h : batch ∈ pack cost maxLen maxCost [] 0 as) : Within cost maxLen maxCost batch := by
  have hs : batch ∈ pack cost maxLen maxCost [] (([] : List α).map cost).sum as := h
  exact within_of_mem_pack hl (by simp) (by simp) hs

end Packing
