import Choruz.Slots
import Mathlib.Data.List.Sort

/-!
# Keyed tables

A table is its list of rows, no two with the same primary key.  `updateWhere` is
`UPDATE … SET … WHERE …` for assignments that leave the key alone, `lookup` is a read by primary
key, and `insert?` fails where the key is taken.
-/

namespace Relational

structure Table {α κ : Type*} (key : α → κ) where
  rows : List α
  nodup : (rows.map key).Nodup

namespace Table

variable {α κ : Type*} {key : α → κ} {p : α → Bool} {a : α} {f : α → α}
  {hf : ∀ a, key (f a) = key a} {b : α}

instance : Membership α (Table key) := ⟨fun t a => a ∈ t.rows⟩

variable {t : Table key}

theorem mem_def : a ∈ t ↔ a ∈ t.rows := Iff.rfl

instance {P : α → Prop} [DecidablePred P] : Decidable (∀ a ∈ t, P a) :=
  inferInstanceAs (Decidable (∀ a ∈ t.rows, P a))

instance {P : α → Prop} [DecidablePred P] : Decidable (∃ a ∈ t, P a) :=
  inferInstanceAs (Decidable (∃ a ∈ t.rows, P a))

def empty : Table key := ⟨[], by simp⟩

theorem not_mem_empty (a : α) : a ∉ (empty : Table key) := not_mem_nil

theorem eq_of_key_eq {a b : α} (ha : a ∈ t) (hb : b ∈ t) (h : key a = key b) : a = b :=
  List.inj_on_of_nodup_map t.nodup ha hb h

def updateWhere (t : Table key) (p : α → Bool) (f : α → α) (hf : ∀ a, key (f a) = key a) :
    Table key where
  rows := t.rows.map fun a => if p a then f a else a
  nodup := by
    have h : (t.rows.map fun a => if p a then f a else a).map key = t.rows.map key := by
      rw [List.map_map]
      refine List.map_congr_left fun a _ => ?_
      simp
      split_ifs
      · exact hf a
      · rfl
    rw [h]
    exact t.nodup

theorem mem_updateWhere : b ∈ t.updateWhere p f hf ↔ ∃ a ∈ t, (if p a then f a else a) = b := by
  simp [mem_def, updateWhere]

theorem updateWhere_of_forall (h : ∀ a ∈ t, p a = false) : t.updateWhere p f hf = t := by
  have hr : (t.updateWhere p f hf).rows = t.rows := by
    conv_rhs => rw [← List.map_id t.rows]
    exact List.map_congr_left fun a ha => by simp [h a ha]
  rcases t with ⟨rows, nodup⟩
  simpa [updateWhere] using hr

def deleteWhere (t : Table key) (p : α → Bool) : Table key where
  rows := t.rows.filter fun a => !p a
  nodup := t.nodup.sublist (List.filter_sublist.map key)

theorem source_of_mem_updateWhere (hf : ∀ a, key (f a) = key a) (h : b ∈ t.updateWhere p f hf) :
    ∃ a ∈ t, (p a ∧ b = f a) ∨ (p a = false ∧ b = a) := by
  obtain ⟨a, ha, rfl⟩ := mem_updateWhere.1 h
  refine ⟨a, ha, ?_⟩
  rcases hp : p a with _ | _
  · exact .inr ⟨rfl, by simp⟩
  · exact .inl ⟨rfl, by simp⟩

theorem mem_updateWhere_of_mem (ha : a ∈ t) : (if p a then f a else a) ∈ t.updateWhere p f hf :=
  mem_updateWhere.2 ⟨a, ha, rfl⟩

/-- Row by row, `u` is `t` with each row changed as `R` allows. -/
def Evolves (R : α → α → Prop) (t u : Table key) : Prop :=
  ∃ g : α → α, u.rows = t.rows.map g ∧ ∀ a ∈ t, R a (g a)

section Evolves

variable {R S Q : α → α → Prop} {t u v : Table key}

theorem Evolves.exists_source (h : Evolves R t u) (hb : b ∈ u) : ∃ a ∈ t, R a b := by
  obtain ⟨g, hg, hR⟩ := h
  rw [mem_def, hg, mem_map] at hb
  obtain ⟨a, ha, rfl⟩ := hb
  exact ⟨a, ha, hR a ha⟩

theorem Evolves.exists_target (h : Evolves R t u) (ha : a ∈ t) : ∃ b ∈ u, R a b := by
  obtain ⟨g, hg, hR⟩ := h
  refine ⟨g a, ?_, hR a ha⟩
  rw [mem_def, hg]
  exact mem_map_of_mem ha

theorem Evolves.refl (h : ∀ a ∈ t, R a a) : Evolves R t t := ⟨id, by simp, h⟩

theorem Evolves.mono (h : Evolves R t u) (hRS : ∀ a b, a ∈ t → b ∈ u → R a b → S a b) :
    Evolves S t u := by
  obtain ⟨g, hg, hR⟩ := h
  refine ⟨g, hg, fun a ha => hRS a (g a) ha ?_ (hR a ha)⟩
  rw [mem_def, hg]
  exact mem_map_of_mem ha

theorem Evolves.comp (h : Evolves R t u) (h' : Evolves S u v)
    (hQ : ∀ a b c, a ∈ t → b ∈ u → R a b → S b c → Q a c) : Evolves Q t v := by
  obtain ⟨g, hg, hR⟩ := h
  obtain ⟨g', hg', hS⟩ := h'
  refine ⟨g' ∘ g, by rw [hg', hg, List.map_map], fun a ha => ?_⟩
  have hb : g a ∈ u := by
    rw [mem_def, hg]
    exact mem_map_of_mem ha
  exact hQ a (g a) _ ha hb (hR a ha) (hS _ hb)

theorem evolves_updateWhere (hp : ∀ a ∈ t, p a → R a (f a)) (hn : ∀ a ∈ t, p a = false → R a a) :
    Evolves R t (t.updateWhere p f hf) := by
  refine ⟨fun a => if p a then f a else a, rfl, fun a ha => ?_⟩
  rcases h : p a with _ | _
  · simpa [h] using hn a ha h
  · simpa [h] using hp a ha h

end Evolves

section Lookup

variable [DecidableEq κ] {t u : Table key} {k : κ}

def lookup (t : Table key) (k : κ) : Option α := t.rows.find? fun a => key a = k

variable {t : Table key}

theorem lookup_eq_some : t.lookup k = some a ↔ a ∈ t ∧ key a = k := by
  constructor
  · intro h
    refine ⟨mem_of_find?_eq_some h, ?_⟩
    simpa using find?_some h
  · rintro ⟨ha, rfl⟩
    rcases hl : t.lookup (key a) with _ | b
    · have := find?_eq_none.1 hl a ha
      simp at this
    · have hb : key b = key a := by simpa using find?_some hl
      rw [eq_of_key_eq (mem_of_find?_eq_some hl) ha hb]

theorem mem_of_lookup (h : t.lookup k = some a) : a ∈ t := (lookup_eq_some.1 h).1

theorem key_of_lookup (h : t.lookup k = some a) : key a = k := (lookup_eq_some.1 h).2

theorem lookup_of_mem (h : a ∈ t) : t.lookup (key a) = some a := lookup_eq_some.2 ⟨h, rfl⟩

theorem lookup_eq_none : t.lookup k = none ↔ ∀ a ∈ t, key a ≠ k := by
  simp [lookup, mem_def]

/-- `INSERT`, refused where the key is taken. -/
def insert? (t : Table key) (a : α) : Option (Table key) :=
  if h : key a ∈ t.rows.map key then none
  else some ⟨t.rows ++ [a], by
    rw [List.map_append, List.nodup_append]
    refine ⟨t.nodup, by simp, ?_⟩
    intro x hx y hy
    simp at hy
    subst hy
    rintro rfl
    exact h hx⟩

theorem exists_insert? (h : t.lookup (key a) = none) : ∃ u, t.insert? a = some u := by
  have hk : key a ∉ t.rows.map key := by
    rw [mem_map]
    rintro ⟨b, hb, heq⟩
    exact lookup_eq_none.1 h b hb heq
  exact ⟨_, dif_neg hk⟩

theorem rows_insert? (h : t.insert? a = some u) : u.rows = t.rows ++ [a] := by
  unfold insert? at h
  split_ifs at h
  simp at h
  rw [← h]

theorem mem_insert? {a b : α} (h : t.insert? a = some u) : b ∈ u ↔ b ∈ t ∨ b = a := by
  unfold insert? at h
  split_ifs at h
  simp at h
  subst h
  simp [mem_def]

theorem not_mem_key_of_insert? (h : t.insert? a = some u) : ∀ b ∈ t, key b ≠ key a := by
  unfold insert? at h
  split_ifs at h with hk
  intro b hb heq
  exact hk (mem_map.2 ⟨b, hb, heq⟩)

theorem lookup_insert? (h : t.insert? a = some u) (k : κ) :
    u.lookup k = if key a = k then some a else t.lookup k := by
  have hn : key a = k → t.lookup k = none := by
    rintro rfl
    exact lookup_eq_none.2 (not_mem_key_of_insert? h)
  unfold lookup at hn ⊢
  rw [rows_insert? h]
  split_ifs with hk
  · simp [hn hk, hk]
  · simp [hk]

theorem lookup_updateWhere (hf : ∀ a, key (f a) = key a) (k : κ) :
    (t.updateWhere p f hf).lookup k = (t.lookup k).map fun a => if p a then f a else a := by
  unfold lookup updateWhere
  rw [List.find?_map]
  have hs : ((fun a => decide (key a = k)) ∘ fun a => if p a = true then f a else a) =
      fun a => decide (key a = k) := by
    funext a
    simp
    split_ifs <;> simp [hf]
  rw [hs]

theorem lookup_updateWhere_key {k0 : κ} (hf : ∀ a, key (f a) = key a) (k : κ) :
    (t.updateWhere (key · = k0) f hf).lookup k =
      if k = k0 then (t.lookup k).map f else t.lookup k := by
  rw [lookup_updateWhere]
  rcases hfi : t.lookup k with _ | a
  · simp
  · simp [key_of_lookup hfi]
    split_ifs <;> rfl

theorem lookup_deleteWhere (q : κ → Bool) (k : κ) :
    (t.deleteWhere fun a => q (key a)).lookup k = if q k then none else t.lookup k := by
  unfold lookup deleteWhere
  rw [List.find?_filter]
  split_ifs with hk
  · refine find?_eq_none.2 fun a _ => ?_
    by_cases ha : key a = k <;> simp [ha, hk]
  · congr 1
    funext a
    by_cases ha : key a = k <;> simp [ha, hk]

theorem lookup_deleteWhere_key (k0 k : κ) :
    (t.deleteWhere (key · = k0)).lookup k = if k = k0 then none else t.lookup k := by
  simpa using lookup_deleteWhere (t := t) (fun j => j = k0) k

/-- A map's `insert`: the row takes the place of one with its key. -/
def put (t : Table key) (a : α) : Table key where
  rows := (t.deleteWhere (key · = key a)).rows ++ [a]
  nodup := by
    rw [List.map_append, List.nodup_append]
    refine ⟨(t.deleteWhere _).nodup, by simp, ?_⟩
    rintro x hx y hy rfl
    obtain ⟨b, hb, rfl⟩ := mem_map.1 hx
    simp at hy
    simp [deleteWhere, hy] at hb

theorem lookup_put (t : Table key) (a : α) (k : κ) :
    (t.put a).lookup k = if k = key a then some a else t.lookup k := by
  have ho := lookup_deleteWhere_key (t := t) (key a) k
  unfold lookup at ho ⊢
  rw [put, List.find?_append, ho]
  split_ifs with hk
  · simp [hk]
  · simp [Ne.symm hk]

theorem lookup_put_self (t : Table key) (h : key a = k) : (t.put a).lookup k = some a := by
  rw [lookup_put, if_pos h.symm]

theorem mem_put {a b : α} (h : b ∈ t.put a) : b = a ∨ b ∈ t ∧ key b ≠ key a := by
  have hl := lookup_of_mem h
  rw [lookup_put] at hl
  split_ifs at hl with hk
  · exact .inl (Option.some.inj hl).symm
  · exact .inr ⟨mem_of_lookup hl, hk⟩

theorem filter_key_eq_find?_toList : ∀ {rows : List α}, (rows.map key).Nodup →
    rows.filter (key · = k) = (rows.find? fun a => key a = k).toList
  | [], _ => rfl
  | a :: rows, h => by
    rw [map_cons, nodup_cons] at h
    by_cases hk : key a = k
    · have hr : rows.filter (key · = k) = [] := by
        refine List.filter_eq_nil_iff.2 fun b hb hbk => h.1 ?_
        rw [hk, ← of_decide_eq_true hbk]
        exact mem_map_of_mem hb
      simp [hk, hr]
    · simpa [hk] using filter_key_eq_find?_toList h.2

theorem filter_key_eq_toList (t : Table key) (k : κ) :
    t.rows.filter (key · = k) = (t.lookup k).toList := filter_key_eq_find?_toList t.nodup

end Lookup

theorem filter_length_le_one {t : Table key}
    (h : ∀ a ∈ t, ∀ b ∈ t, p a → p b → a = b) : (t.rows.filter p).length ≤ 1 := by
  have hn : (t.rows.filter p).Nodup := (List.Nodup.of_map key t.nodup).filter p
  have hm : ∀ a ∈ t.rows.filter p, a ∈ t ∧ p a := fun a ha => mem_filter.1 ha
  rcases hl : t.rows.filter p with _ | ⟨a, _ | ⟨b, l⟩⟩
  · exact Nat.zero_le 1
  · exact le_rfl
  · rw [hl] at hn hm
    have ha := hm a mem_cons_self
    have hb := hm b (mem_cons_of_mem _ mem_cons_self)
    obtain rfl := h a ha.1 b hb.1 ha.2 hb.2
    simp at hn

end Table

export Table (mem_insert? key_of_lookup mem_of_lookup eq_of_key_eq evolves_updateWhere lookup_of_mem
  mem_def source_of_mem_updateWhere lookup_put lookup_put_self not_mem_key_of_insert? not_mem_empty
  lookup_insert? lookup_eq_none mem_updateWhere lookup_eq_some mem_put mem_updateWhere_of_mem
  lookup_updateWhere rows_insert?)

end Relational
