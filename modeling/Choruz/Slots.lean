import Mathlib.Data.List.Nodup

/-!
# Lists of concurrent calls

Each call has its place in a list; a step changes the entry at one place, or adds a call at the
end.
-/

namespace Relational

export List (mem_singleton mem_append mem_map mem_cons_self mem_cons_of_mem mem_cons
  mem_of_getElem? mem_filter any_eq_true not_mem_nil mem_append_right mem_append_left all_eq_true
  mem_filterMap find?_some mem_of_find?_eq_some mem_map_of_mem find?_eq_none nodup_cons nodup_nil
  mem_flatMap append_nil map_cons getElem?_eq_getElem mem_or_eq_of_mem_set
  mem_of_mem_filter inj_on_of_nodup_map filter_eq_nil_iff mem_singleton_self
  contains_iff_mem map_append filter_append length_append pairwise_singleton nil_subset map_map
  map_congr_left append_assoc)
export Option (map_eq_some_iff bind_eq_some_iff isSome_iff_exists all_some mem_toList
  filter_eq_some_iff isNone_iff_eq_none)
export Bool (and_eq_true or_eq_true eq_false_iff and_eq_true_iff)

variable {α : Type*} {l : List α} {i j : ℕ} {a c : α}

theorem getElem?_set_cases (h : (l.set i a)[j]? = some c) :
    (j = i ∧ c = a) ∨ (j ≠ i ∧ l[j]? = some c) := by
  by_cases hi : i = j
  · subst hi
    rw [List.getElem?_set, if_pos rfl] at h
    split_ifs at h
    exact .inl ⟨rfl, (Option.some.inj h).symm⟩
  · exact .inr ⟨Ne.symm hi, (List.getElem?_set_ne hi).symm.trans h⟩

theorem mem_snoc : c ∈ l ++ [a] ↔ c ∈ l ∨ c = a := by
  rw [mem_append, mem_singleton]

theorem forall_mem_snoc {P : α → Prop} (h : ∀ c ∈ l, P c) (ha : P a) : ∀ c ∈ l ++ [a], P c := by
  intro c hc
  rcases mem_snoc.1 hc with hc | rfl
  · exact h c hc
  · exact ha

theorem forall_mem_set {P : α → Prop} (h : ∀ c ∈ l, P c) (ha : P a) : ∀ c ∈ l.set i a, P c := by
  intro c hc
  rcases mem_or_eq_of_mem_set hc with hc | rfl
  · exact h c hc
  · exact ha

theorem getElem?_snoc_cases (h : (l ++ [a])[j]? = some c) : l[j]? = some c ∨ c = a := by
  rw [List.getElem?_append] at h
  split_ifs at h
  · exact .inl h
  · exact .inr (mem_singleton.1 (mem_of_getElem? h))

theorem getElem?_set_of_some {b : α} (h : l[i]? = some b) : (l.set i a)[i]? = some a :=
  List.getElem?_set_self (List.getElem?_eq_some_iff.1 h).1

theorem nodup_map_snoc {β : Type*} {f : α → β} (h : (l.map f).Nodup)
    (hn : ∀ b ∈ l, f b ≠ f a) : ((l ++ [a]).map f).Nodup := by
  rw [List.map_append, List.nodup_append]
  refine ⟨h, List.nodup_singleton _, fun x hx y hy => ?_⟩
  obtain ⟨b, hb, rfl⟩ := mem_map.1 hx
  rw [List.map_singleton, mem_singleton] at hy
  rw [hy]
  exact hn b hb

theorem mem_mapM {α β : Type} {f : α → Option β} {b : β} : ∀ {as : List α} {bs : List β},
    as.mapM f = some bs → (b ∈ bs ↔ ∃ a ∈ as, f a = some b)
  | [], _, h => by
    cases h
    simp
  | a :: as, bs, h => by
    rw [List.mapM_cons] at h
    obtain ⟨c, hc, h⟩ := bind_eq_some_iff.1 h
    obtain ⟨cs, hcs, h⟩ := bind_eq_some_iff.1 h
    cases h
    simp [mem_mapM hcs, hc, eq_comm]

end Relational
