import Mathlib

/-!
# Connected components by merging

Elements come one by one.  A new element takes in the first group it is related to, then the first
group that what it has become is related to, and so on; the rest of the groups stay as they are.
-/

namespace Components

variable {α β : Type*} (rel : α → α → Bool) (order : List α → List α)

def meets (merged g : List α) : Bool := g.any fun a => merged.any fun b => rel a b

def absorb : ℕ → List α → List (List α) → List α × List (List α)
  | 0, merged, groups => (merged, groups)
  | n + 1, merged, groups =>
    match groups.findIdx? (meets rel merged) with
    | none => (merged, groups)
    | some i => absorb n (merged ++ groups.getD i []) (groups.eraseIdx i)

def add (groups : List (List α)) (a : α) : List (List α) :=
  let result := absorb rel groups.length [a] groups
  result.2 ++ [order result.1]

def components (l : List α) : List (List α) := l.foldl (add rel order) []

/-- A chain of related elements of the list leads from one to the other. -/
def Joined (l : List α) : α → α → Prop :=
  Relation.ReflTransGen fun a b => a ∈ l ∧ b ∈ l ∧ rel a b

variable {rel order}

theorem meets_eq_false {merged g : List α} :
    meets rel merged g = false ↔ ∀ a ∈ g, ∀ b ∈ merged, rel a b = false := by
  simp [meets]

variable (rel) in
theorem absorb_perm : ∀ (n : ℕ) (merged : List α) (groups : List (List α)),
    ((absorb rel n merged groups).1 ++ (absorb rel n merged groups).2.flatten).Perm
      (merged ++ groups.flatten)
  | 0, merged, groups => .refl _
  | n + 1, merged, groups => by
    unfold absorb
    split
    · exact .refl _
    rename_i i hf
    obtain ⟨hlt, -⟩ := List.findIdx?_eq_some_iff_getElem.1 hf
    refine (absorb_perm n _ _).trans ?_
    rw [List.getD_eq_getElem _ _ hlt, List.append_assoc]
    exact (List.flatten_cons ▸ (List.getElem_cons_eraseIdx_perm hlt).flatten).append_left merged

theorem absorb_sublist : ∀ (n : ℕ) (merged : List α) (groups : List (List α)),
    (absorb rel n merged groups).2.Sublist groups
  | 0, merged, groups => .refl _
  | n + 1, merged, groups => by
    unfold absorb
    split
    · exact .refl _
    · exact (absorb_sublist n _ _).trans (List.eraseIdx_sublist _ _)

theorem absorb_apart : ∀ (n : ℕ) (merged : List α) (groups : List (List α)), groups.length ≤ n →
    ∀ g ∈ (absorb rel n merged groups).2, meets rel (absorb rel n merged groups).1 g = false
  | 0, merged, groups, hl, g, hg => by
    rw [List.length_eq_zero_iff.1 (Nat.le_zero.1 hl)] at hg
    cases hg
  | n + 1, merged, groups, hl, g, hg => by
    unfold absorb at hg ⊢
    rcases hf : groups.findIdx? (meets rel merged) with _ | i <;> simp [hf] at hg ⊢
    · exact List.findIdx?_eq_none_iff.1 hf g hg
    · obtain ⟨hlt, -⟩ := List.findIdx?_eq_some_iff_getElem.1 hf
      refine absorb_apart n _ _ ?_ g hg
      rw [List.length_eraseIdx_of_lt hlt]
      omega

/-- A value that related elements share is one value over the whole group. -/
def Shares (f : α → β) (g : List α) : Prop := ∀ a ∈ g, ∀ b ∈ g, f a = f b

theorem Shares.append {f : α → β} {g g' : List α} (h : Shares f g) (h' : Shares f g')
    {a b : α} (ha : a ∈ g) (hb : b ∈ g') (hab : f a = f b) : Shares f (g ++ g') := by
  have hg : ∀ c ∈ g ++ g', f c = f a := by
    intro c hc
    rcases List.mem_append.1 hc with hc | hc
    · exact h c hc a ha
    · exact (h' c hc b hb).trans hab.symm
  exact fun c hc d hd => (hg c hc).trans (hg d hd).symm

theorem absorb_shares {f : α → β} : ∀ (n : ℕ) (merged : List α) (groups : List (List α)),
    (∀ g ∈ groups, ∀ a ∈ g, ∀ b ∈ merged ++ groups.flatten, rel a b → f a = f b) →
    Shares f merged → (∀ g ∈ groups, Shares f g) → Shares f (absorb rel n merged groups).1
  | 0, merged, groups, _, hme, _ => hme
  | n + 1, merged, groups, hr, hme, hgr => by
    unfold absorb
    split
    · exact hme
    rename_i i hfi
    obtain ⟨hlt, hmt, -⟩ := List.findIdx?_eq_some_iff_getElem.1 hfi
    have hm : groups[i] ∈ groups := List.getElem_mem hlt
    rw [List.getD_eq_getElem _ _ hlt]
    obtain ⟨a, ha, hany⟩ := List.any_eq_true.1 hmt
    obtain ⟨b, hb, hab⟩ := List.any_eq_true.1 hany
    have hf : f b = f a := (hr _ hm a ha b (List.mem_append_left _ hb) hab).symm
    refine absorb_shares n _ _ (fun g hg a ha b hb => ?_) (hme.append (hgr _ hm) hb ha hf)
      fun g hg => hgr g (List.mem_of_mem_eraseIdx hg)
    refine hr g (List.mem_of_mem_eraseIdx hg) a ha b ?_
    simp only [List.mem_append, List.mem_flatten] at hb ⊢
    rcases hb with (hb | hb) | ⟨g', hg', hb⟩
    · exact .inl hb
    · exact .inr ⟨_, hm, hb⟩
    · exact .inr ⟨g', List.mem_of_mem_eraseIdx hg', hb⟩

section

variable (horder : ∀ l, (order l).Perm l)
include horder

theorem add_perm (groups : List (List α)) (a : α) :
    (add rel order groups a).flatten.Perm (a :: groups.flatten) := by
  unfold add
  refine .trans ?_ (absorb_perm rel groups.length [a] groups)
  rw [List.flatten_append, List.flatten_singleton]
  exact List.perm_append_comm.trans ((horder _).append_right _)

variable (rel) in
theorem foldl_add_perm : ∀ (l : List α) (groups : List (List α)),
    (l.foldl (add rel order) groups).flatten.Perm (l ++ groups.flatten)
  | [], groups => .refl _
  | a :: l, groups => by
    refine (foldl_add_perm l _).trans ((add_perm horder groups a).append_left l |>.trans ?_)
    exact List.perm_middle

variable (rel) in
theorem components_perm (l : List α) : (components rel order l).flatten.Perm l := by
  have h := foldl_add_perm rel horder l []
  rwa [List.flatten_nil, List.append_nil] at h

theorem mem_components {l : List α} {a : α} : (∃ g ∈ components rel order l, a ∈ g) ↔ a ∈ l := by
  rw [← List.mem_flatten, (components_perm rel horder l).mem_iff]

theorem add_shares {f : α → β} {groups : List (List α)} {a : α}
    (hr : ∀ b ∈ groups.flatten, ∀ c ∈ a :: groups.flatten, rel b c → f b = f c)
    (hgr : ∀ g ∈ groups, Shares f g) : ∀ g ∈ add rel order groups a, Shares f g := by
  intro g hg
  rcases List.mem_append.1 hg with hg | hg
  · exact hgr g ((absorb_sublist _ _ _).subset hg)
  obtain rfl := List.mem_singleton.1 hg
  have hm := absorb_shares groups.length [a] groups
    (fun g hg b hb c hc => hr b (List.mem_flatten.2 ⟨g, hg, hb⟩) c hc)
    (fun b hb c hc => by rw [List.mem_singleton.1 hb, List.mem_singleton.1 hc]) hgr
  exact fun b hb c hc => hm b ((horder _).mem_iff.1 hb) c ((horder _).mem_iff.1 hc)

/-- A value that related elements of the list share is one value over each component. -/
theorem components_shares {f : α → β} {l : List α} (hr : ∀ a ∈ l, ∀ b ∈ l, rel a b → f a = f b) :
    ∀ g ∈ components rel order l, Shares f g := by
  suffices ∀ (rest : List α) (groups : List (List α)), (∀ a ∈ rest ++ groups.flatten, a ∈ l) →
      (∀ g ∈ groups, Shares f g) → ∀ g ∈ rest.foldl (add rel order) groups, Shares f g from
    this l [] (by simp) fun _ hg => nomatch hg
  intro rest
  induction rest with
  | nil => exact fun _ _ hgr => hgr
  | cons a rest ih =>
    intro groups hs hgr
    have hm : ∀ b ∈ a :: groups.flatten, b ∈ l := by
      intro b hb
      refine hs b ?_
      rcases List.mem_cons.1 hb with rfl | hb
      · exact List.mem_append_left _ List.mem_cons_self
      · exact List.mem_append_right _ hb
    refine ih _ (fun b hb => ?_) (add_shares horder (fun b hb c hc =>
      hr b (hm b (List.mem_cons_of_mem _ hb)) c (hm c hc)) hgr)
    rcases List.mem_append.1 hb with hb | hb
    · exact hs b (List.mem_append_left _ (List.mem_cons_of_mem _ hb))
    · exact hm b ((add_perm horder groups a).mem_iff.1 hb)

theorem components_apart (l : List α) :
    (components rel order l).Pairwise fun g g' => ∀ a ∈ g, ∀ b ∈ g', rel a b = false := by
  suffices ∀ (rest : List α) (groups : List (List α)),
      (groups.Pairwise fun g g' => ∀ a ∈ g, ∀ b ∈ g', rel a b = false) →
      (rest.foldl (add rel order) groups).Pairwise
        fun g g' => ∀ a ∈ g, ∀ b ∈ g', rel a b = false from this l [] .nil
  intro rest
  induction rest with
  | nil => exact fun _ h => h
  | cons a rest ih =>
    intro groups h
    refine ih _ ?_
    refine List.pairwise_append.2
      ⟨h.sublist (absorb_sublist _ _ _), List.pairwise_singleton _ _, ?_⟩
    rintro g hg g' hg' b hb c hc
    obtain rfl := List.mem_singleton.1 hg'
    have ha := absorb_apart groups.length [a] groups (Nat.le_refl _) g hg
    exact meets_eq_false.1 ha b hb c ((horder _).mem_iff.1 hc)

theorem mem_of_rel (hs : ∀ a b, rel a b = rel b a) {l g : List α} {a b : α}
    (hg : g ∈ components rel order l) (ha : a ∈ g) (hb : b ∈ l) (hab : rel a b) : b ∈ g := by
  obtain ⟨g', hg', hb'⟩ := (mem_components horder).2 hb
  have : Std.Symm fun g g' : List α => ∀ a ∈ g, ∀ b ∈ g', rel a b = false :=
    ⟨fun _ _ h a ha b hb => (hs a b).trans (h b hb a ha)⟩
  by_contra hn
  have hne : g ≠ g' := fun h => hn (h ▸ hb')
  have hap := (components_apart horder l).forall hg hg' hne a ha b hb'
  rw [hab] at hap
  cases hap

theorem mem_iff_joined (hsy : ∀ a b, rel a b = rel b a) {l g : List α} {a b : α}
    (hg : g ∈ components rel order l) (ha : a ∈ g) : b ∈ g ↔ Joined rel l a b := by
  constructor
  · intro hb
    -- what is joined to an element is a value that related elements share
    have hsh : Shares (fun c => {d | Joined rel l c d}) g := by
      refine components_shares horder (fun c hc d hd hr => Set.ext fun x => ?_) g hg
      exact ⟨.head ⟨hd, hc, (hsy d c).trans hr⟩, .head ⟨hc, hd, hr⟩⟩
    exact (Set.ext_iff.1 (hsh a ha b hb) b).2 .refl
  · intro hj
    induction hj with
    | refl => exact ha
    | tail _ hs ih => exact mem_of_rel horder hsy hg ih hs.2.1 hs.2.2

theorem eq_of_mem_components {l g g' : List α} (hn : l.Nodup) {a : α}
    (hg : g ∈ components rel order l) (hg' : g' ∈ components rel order l) (ha : a ∈ g)
    (ha' : a ∈ g') : g = g' := by
  have hf := (components_perm rel horder l).nodup_iff.2 hn
  have : Std.Symm (List.Disjoint : List α → List α → Prop) := ⟨fun _ _ h _ ha hb => h hb ha⟩
  by_contra hne
  exact (List.nodup_flatten.1 hf).2.forall hg hg' hne ha ha'

end

end Components
