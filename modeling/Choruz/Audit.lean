import Choruz.Slots
import Mathlib.Data.List.Basic
import Mathlib.Data.Nat.Notation

/-!
# Audit trails

A record is saved again and again, each time under the next version, and beside it a log gathers
entries, some of which name the version they lead to.  The log is a trail of the saves where every
version after the first has exactly one entry, which tells the saves before and after.
-/

namespace Relational

variable {ρ ε : Type*}

theorem filter_eq_getElem?_toList {version : ρ → ℕ} :
    ∀ {saves : List ρ} {s : ℕ} (i : ℕ), saves.map version = List.range' s saves.length →
      saves.filter (version · = s + i) = saves[i]?.toList
  | [], _, i, _ => by simp
  | a :: saves, s, i, h => by
    rw [map_cons, List.length_cons, List.range'_succ, List.cons.injEq] at h
    obtain ⟨ha, h⟩ := h
    cases i with
    | zero =>
      -- the versions further on are larger
      have hr : saves.filter (version · = s) = [] := by
        refine List.filter_eq_nil_iff.2 fun b hb => ?_
        have hm := mem_map_of_mem (f := version) hb
        rw [h, List.mem_range'_1] at hm
        simp
        omega
      simp [ha, hr]
    | succ i =>
      have hne : ¬ version a = s + (i + 1) := by omega
      have ih := filter_eq_getElem?_toList i h
      rw [List.filter_cons_of_neg (by simpa using hne), List.getElem?_cons_succ, ← ih]
      rw [Nat.add_right_comm, Nat.add_assoc]

variable (version : ρ → ℕ) (resulting : ε → Option ℕ) (tells : ε → ρ → ρ → Prop)

structure Trail (saves : List ρ) (entries : List ε) : Prop where
  numbered : saves.map version = List.range' 1 saves.length
  bounded : ∀ e ∈ entries, ∀ v ∈ resulting e, v ≤ saves.length
  told : ∀ i before after, saves[i]? = some before → saves[i + 1]? = some after →
    ∃ e, entries.filter (resulting · = some (i + 2)) = [e] ∧ tells e before after

namespace Trail

variable {version resulting tells} {saves : List ρ} {entries : List ε} {a b : ρ} {e : ε}

theorem nil : Trail version resulting tells [] [] where
  numbered := rfl
  bounded := by simp
  told := by simp

theorem first (ha : version a = 1) (he : ∀ e ∈ entries, ∀ v ∈ resulting e, v ≤ 1) :
    Trail version resulting tells [a] entries where
  numbered := by simp [ha]
  bounded := he
  told := by simp

section

variable (h : Trail version resulting tells saves entries)
include h

theorem note (he : resulting e = none) : Trail version resulting tells saves (entries ++ [e]) where
  numbered := h.numbered
  bounded := by
    intro x hx v hv
    rcases mem_append.1 hx with hx | hx
    · exact h.bounded x hx v hv
    · rw [mem_singleton.1 hx, he] at hv
      cases hv
  told := by
    intro i before after hb ha
    obtain ⟨x, hx, ht⟩ := h.told i before after hb ha
    refine ⟨x, ?_, ht⟩
    simp [hx, he]

theorem version_eq_length (hl : saves.getLast? = some b) : version b = saves.length := by
  rw [List.getLast?_eq_getElem?] at hl
  have hm : (saves.map version)[saves.length - 1]? = some (version b) := by
    rw [List.getElem?_map, hl, Option.map_some]
  obtain ⟨hlt, -⟩ := List.getElem?_eq_some_iff.1 hl
  rw [h.numbered, List.getElem?_range' hlt, Option.some.injEq] at hm
  omega

/-- A save under the next version, with an entry that names it and tells the change. -/
theorem save (hl : saves.getLast? = some b)
    (ha : version a = version b + 1) (he : resulting e = some (version a)) (ht : tells e b a) :
    Trail version resulting tells (saves ++ [a]) (entries ++ [e]) where
  numbered := by
    rw [h.version_eq_length hl] at ha
    rw [List.map_append, h.numbered, List.length_append, List.length_singleton,
      List.range'_1_concat, List.map_singleton, ha, Nat.add_comm]
  bounded := by
    have hb := h.version_eq_length hl
    intro x hx v hv
    rw [List.length_append, List.length_singleton]
    rcases mem_append.1 hx with hx | hx
    · exact Nat.le_succ_of_le (h.bounded x hx v hv)
    · rw [mem_singleton.1 hx, he, Option.mem_some_iff] at hv
      omega
  told := by
    have hb := h.version_eq_length hl
    intro i before after hbe haf
    obtain ⟨hlt, -⟩ := List.getElem?_eq_some_iff.1 haf
    rw [List.length_append, List.length_singleton] at hlt
    rw [List.getElem?_append_left (by omega)] at hbe
    rcases Nat.lt_or_ge (i + 1) saves.length with hi | hi
    · -- an older version, which the new entry does not name
      rw [List.getElem?_append_left hi] at haf
      obtain ⟨x, hx, hto⟩ := h.told i before after hbe haf
      refine ⟨x, ?_, hto⟩
      have hne : ¬ version a = i + 2 := by omega
      simp [hx, he, hne]
    · -- the new version, which no older entry names
      have hlen : i + 1 = saves.length := by omega
      rw [List.getElem?_append_right hi, hlen, Nat.sub_self, List.getElem?_cons_zero,
        Option.some.injEq] at haf
      rw [List.getLast?_eq_getElem?, ← hlen, Nat.add_sub_cancel, hbe, Option.some.injEq] at hl
      subst haf hl
      refine ⟨e, ?_, ht⟩
      have hn : entries.filter (resulting · = some (i + 2)) = [] := by
        refine List.filter_eq_nil_iff.2 fun x hx => ?_
        simp
        intro hv
        have := h.bounded x hx _ hv
        omega
      have hv : version a = i + 2 := by omega
      simp [hn, he, hv]

/-- Every version after the first was saved once, over one save of the version before it, and has
one entry, which tells the two. -/
theorem exact {v : ℕ} (hv : 1 < v) (hle : v ≤ saves.length) :
    ∃ before after e, saves.filter (version · = v - 1) = [before]
      ∧ saves.filter (version · = v) = [after]
      ∧ entries.filter (resulting · = some v) = [e] ∧ tells e before after := by
  obtain ⟨i, rfl⟩ : ∃ i, v = i + 2 := ⟨v - 2, by omega⟩
  have hb : saves[i]? = some saves[i] := List.getElem?_eq_getElem (by omega)
  have ha : saves[i + 1]? = some saves[i + 1] := List.getElem?_eq_getElem (by omega)
  obtain ⟨e, he, ht⟩ := h.told i _ _ hb ha
  have ho := filter_eq_getElem?_toList i h.numbered
  have htwo := filter_eq_getElem?_toList (i + 1) h.numbered
  rw [hb, Nat.add_comm] at ho
  rw [ha, Nat.add_comm] at htwo
  exact ⟨_, _, e, ho, htwo, he, ht⟩

end

end Trail

end Relational
