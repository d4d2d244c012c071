import Choruz.Search
import Mathlib

/-!
# Orders and batches of a search

A shuffle only reorders the training cases, so a batch always has its full size, and the frontier
of the measured candidates is never empty.
-/

namespace Choruz

namespace EvaluationSuite

variable {suite : EvaluationSuite} {split : EvaluationSplit} {k : ℕ}

theorem mem_casesOf : k ∈ suite.casesOf split ↔ ∃ c, suite.cases[k]? = some c ∧ c.split = split := by
  constructor
  · intro h
    obtain ⟨⟨c, i⟩, hm, rfl⟩ := List.mem_map.1 h
    obtain ⟨hi, hs⟩ := List.mem_filter.1 hm
    exact ⟨c, List.mem_zipIdx_iff_getElem?.1 hi, of_decide_eq_true hs⟩
  · rintro ⟨c, hc, hs⟩
    refine List.mem_map.2 ⟨(c, k), List.mem_filter.2 ⟨?_, decide_eq_true hs⟩, rfl⟩
    exact List.mem_zipIdx_iff_getElem?.2 hc

theorem nodup_casesOf : (suite.casesOf split).Nodup := by
  have hn : (suite.cases.zipIdx.map Prod.snd).Nodup := by
    rw [List.zipIdx_map_snd]
    exact List.nodup_range'
  exact hn.sublist (List.filter_sublist.map _)

end EvaluationSuite

namespace Optimization

variable {F : Type} {ops : ScoreOps F} {suite : EvaluationSuite} {s s' s'' : Optimization F}
  {a : ℕ × List F} {n : ℕ} {batch : List ℕ}

structure Reordered (s s' : Optimization F) : Prop where
  eq : s' = { s with
    rng := s'.rng, trainOrder := s'.trainOrder, trainCursor := s'.trainCursor }
  perm : s'.trainOrder.toList.Perm s.trainOrder.toList

theorem Reordered.refl (s : Optimization F) : Reordered s s := ⟨rfl, .refl _⟩

theorem Reordered.trans (h : Reordered s s') (h' : Reordered s' s'') : Reordered s s'' := by
  refine ⟨?_, h'.perm.trans h.perm⟩
  rw [h'.eq, h.eq]

theorem Reordered.config (h : Reordered s s') : s'.config = s.config := by
  rw [h.eq]

theorem Reordered.size (h : Reordered s s') : s'.trainOrder.size = s.trainOrder.size := by
  simpa using h.perm.length_eq

theorem reordered_random : Reordered s s.random.2 := ⟨rfl, .refl _⟩

theorem swapIfInBounds_perm (xs : Array ℕ) (i j : ℕ) :
    (xs.swapIfInBounds i j).toList.Perm xs.toList := by
  by_cases hi : i < xs.size
  · by_cases hj : j < xs.size
    · rw [Array.swapIfInBounds_def, dif_pos hi, dif_pos hj]
      exact (Array.swap_perm hi hj).toList
    · rw [Array.swapIfInBounds_def, dif_pos hi, dif_neg hj]
  · rw [Array.swapIfInBounds_def, dif_neg hi]

theorem reordered_exchanges : ∀ (is : List ℕ) (s : Optimization F), Reordered s (is.foldl exchange s)
  | [], s => .refl s
  | _ :: is, _ => .trans ⟨rfl, swapIfInBounds_perm _ _ _⟩ (reordered_exchanges is _)

theorem reordered_shuffle : Reordered s s.shuffle := by
  have h := reordered_exchanges (List.range' 1 (s.trainOrder.size - 1)).reverse s
  refine ⟨?_, h.perm⟩
  unfold shuffle
  rw [h.eq]

structure BatchOf (s : Optimization F) (batch : List ℕ) : Prop where
  nodup : batch.Nodup
  subset : ∀ k ∈ batch, k ∈ s.trainOrder.toList
  length : batch.length ≤ s.config.minibatchSize

theorem BatchOf.of_reordered (h : BatchOf s batch) (hs : Reordered s s') : BatchOf s' batch :=
  ⟨h.nodup, fun k hk => hs.perm.mem_iff.2 (h.subset k hk), hs.config ▸ h.length⟩

theorem BatchOf.add {case : ℕ} (h : BatchOf s batch)
    (hca : case ∈ s.trainOrder.toList) (hlt : batch.length < s.config.minibatchSize) :
    BatchOf s (if batch.contains case then batch else batch ++ [case]) := by
  split_ifs with hm
  · exact h
  have hn : case ∉ batch := fun hc => hm (List.contains_iff_mem.2 hc)
  refine ⟨?_, fun k hk => ?_, ?_⟩
  · refine List.nodup_append.2 ⟨h.nodup, List.nodup_singleton _, fun a ha b hb => ?_⟩
    rw [List.mem_singleton.1 hb]
    exact fun heq => hn (heq ▸ ha)
  · rcases List.mem_append.1 hk with hk | hk
    · exact h.subset k hk
    · exact List.mem_singleton.1 hk ▸ hca
  · rw [List.length_append, List.length_singleton]
    omega

theorem reordered_refill : Reordered s s.refill := by
  unfold refill
  split_ifs
  · exact reordered_shuffle
  · exact .refl s

theorem refill_cursor (h : s.trainCursor ≤ s.trainOrder.size) (hp : 0 < s.trainOrder.size) :
    s.refill.trainCursor < s.refill.trainOrder.size := by
  rw [reordered_refill.size, refill]
  split_ifs with hc
  · exact hp
  · omega

theorem Reordered.step (h : Reordered s s') : Reordered s { s' with trainCursor := n } := by
  refine ⟨?_, h.perm⟩
  rw [h.eq]

/-- What the loop returns holds cases of the order, and the order is a reordering. -/
theorem fillBatch_batchOf : ∀ (fuel : ℕ) {batch : List ℕ} {s : Optimization F}, BatchOf s batch →
    s.trainCursor ≤ s.trainOrder.size →
    BatchOf s (fillBatch fuel batch s).1 ∧ Reordered s (fillBatch fuel batch s).2
      ∧ (fillBatch fuel batch s).2.trainCursor ≤ s.trainOrder.size
  | 0, _, s, h, hc => ⟨h, .refl s, hc⟩
  | fuel + 1, batch, s, h, hc => by
    unfold fillBatch
    split_ifs with hl
    · have hr : Reordered s s.refill := reordered_refill
      split
      next hn =>
        refine ⟨h, hr, ?_⟩
        by_cases hp : 0 < s.trainOrder.size
        · rw [← hr.size]
          exact (refill_cursor hc hp).le
        · unfold refill
          split_ifs
          · exact Nat.zero_le _
          · exact hc
      next case hcase =>
        obtain ⟨hlt, hg⟩ := Array.getElem?_eq_some_iff.1 hcase
        have hm : case ∈ s.refill.trainOrder.toList := by
          rw [← hg]
          exact Array.mem_toList_iff.2 (Array.getElem_mem hlt)
        have ha := (h.of_reordered hr).add hm (hr.config ▸ hl)
        have hs : Reordered s { s.refill with trainCursor := s.refill.trainCursor + 1 } := hr.step
        obtain ⟨hb, hre, hbo⟩ := fillBatch_batchOf fuel
          (s := { s.refill with trainCursor := s.refill.trainCursor + 1 })
          ⟨ha.nodup, ha.subset, ha.length⟩ hlt
        refine ⟨?_, hs.trans hre, hs.size ▸ hbo⟩
        exact ⟨hb.nodup, fun k hk => hs.perm.mem_iff.1 (hb.subset k hk), hs.config ▸ hb.length⟩
    · exact ⟨h, .refl s, hc⟩

/-- After a shuffle one pass is enough: what is behind the cursor is in the batch. -/
theorem fillBatch_length_of_behind : ∀ (fuel : ℕ) {batch : List ℕ} {s : Optimization F},
    BatchOf s batch → s.trainOrder.toList.Nodup → s.trainCursor ≤ s.trainOrder.size →
    s.config.minibatchSize ≤ s.trainOrder.size →
    (∀ k ∈ s.trainOrder.toList.take s.trainCursor, k ∈ batch) →
    s.trainOrder.size ≤ s.trainCursor + fuel →
      (fillBatch fuel batch s).1.length = s.config.minibatchSize
  | fuel, batch, s, h, hn, hcur, hs, hb, hfu => by
    have hf : s.trainCursor = s.trainOrder.size → s.config.minibatchSize ≤ batch.length := by
      intro heq
      rw [heq, ← Array.length_toList, List.take_length] at hb
      have hle := hn.length_le_of_subset hb
      rw [Array.length_toList] at hle
      omega
    have hl := h.length
    cases fuel with
    | zero =>
      have hle := hf (by omega)
      exact le_antisymm hl hle
    | succ fuel =>
      unfold fillBatch
      split_ifs with hlen
      · have hne : s.trainCursor ≠ s.trainOrder.size := fun heq => by
          omega
        have hr : s.refill = s := if_neg hne
        rw [hr]
        have hlt : s.trainCursor < s.trainOrder.size := lt_of_le_of_ne hcur hne
        rw [Array.getElem?_eq_getElem hlt]
        have hm : s.trainOrder[s.trainCursor] ∈ s.trainOrder.toList :=
          Array.mem_toList_iff.2 (Array.getElem_mem hlt)
        have ha := h.add hm hlen
        refine fillBatch_length_of_behind fuel
          ⟨ha.nodup, ha.subset, ha.length⟩ hn hlt hs (fun k hk => ?_) (by
            change s.trainOrder.size ≤ s.trainCursor + 1 + fuel
            omega)
        rw [List.take_add_one, List.mem_append] at hk
        rcases hk with hk | hk
        · have ho := hb k hk
          split_ifs
          · exact ho
          · exact List.mem_append_left _ ho
        · have hkey : k = s.trainOrder[s.trainCursor] := by
            simpa [hlt] using hk
          rw [hkey]
          split_ifs with hc
          · exact List.contains_iff_mem.1 hc
          · exact List.mem_append_right _ (List.mem_singleton_self _)
      · exact le_antisymm hl (not_lt.1 hlen)

theorem fillBatch_length : ∀ (fuel : ℕ) {batch : List ℕ} {s : Optimization F},
    BatchOf s batch → s.trainOrder.toList.Nodup → s.trainCursor ≤ s.trainOrder.size →
    s.config.minibatchSize ≤ s.trainOrder.size → 2 * s.trainOrder.size ≤ s.trainCursor + fuel →
      (fillBatch fuel batch s).1.length = s.config.minibatchSize
  | 0, batch, s, h, hn, hc, hsi, hf => by
    have hl := h.length
    have hz : s.config.minibatchSize = 0 := by omega
    rw [hz] at hl ⊢
    exact Nat.le_zero.1 hl
  | fuel + 1, batch, s, h, hn, hc, hsi, hf => by
    by_cases hlen : batch.length < s.config.minibatchSize
    swap
    · rw [fillBatch, if_neg hlen]
      exact le_antisymm h.length (not_lt.1 hlen)
    by_cases he : s.trainCursor = s.trainOrder.size
    · have hs : Reordered s s.shuffle := reordered_shuffle
      have hfr : s.shuffle.refill = s.shuffle := by
        refine if_neg fun hz => ?_
        rw [hs.size] at hz
        change 0 = s.trainOrder.size at hz
        omega
      have hr : s.refill = s.shuffle := if_pos he
      have hsa : fillBatch (fuel + 1) batch s = fillBatch (fuel + 1) batch s.shuffle := by
        rw [fillBatch, fillBatch, hs.config, hfr, hr, if_pos hlen, if_pos hlen]
      rw [hsa, ← hs.config]
      refine fillBatch_length_of_behind _ (h.of_reordered hs)
        (hs.perm.nodup_iff.2 hn) (Nat.zero_le _) ?_ ?_ ?_
      · rw [hs.config, hs.size]
        exact hsi
      · intro k hk
        cases hk
      · rw [hs.size]
        omega
    · have hr : s.refill = s := if_neg he
      have hlt : s.trainCursor < s.trainOrder.size := lt_of_le_of_ne hc he
      rw [fillBatch, if_pos hlen, hr, Array.getElem?_eq_getElem hlt]
      have ha := h.add (Array.mem_toList_iff.2 (Array.getElem_mem hlt)) hlen
      refine fillBatch_length fuel (s := { s with trainCursor := s.trainCursor + 1 })
        ⟨ha.nodup, ha.subset, ha.length⟩ hn hlt hsi ?_
      change 2 * s.trainOrder.size ≤ s.trainCursor + 1 + fuel
      omega

theorem batch_spec (hp : s.trainOrder.toList.Perm (suite.casesOf .train))
    (hc : s.trainCursor ≤ s.trainOrder.size)
    (hs : s.config.minibatchSize ≤ (suite.casesOf .train).length) :
    s.batch.1.length = s.config.minibatchSize ∧ s.batch.1.Nodup
      ∧ (∀ k ∈ s.batch.1, k ∈ suite.casesOf .train)
      ∧ Reordered s s.batch.2 ∧ s.batch.2.trainCursor ≤ s.trainOrder.size := by
  have he : BatchOf s [] := ⟨List.nodup_nil, by simp, Nat.zero_le _⟩
  obtain ⟨hb, hr, hbo⟩ := fillBatch_batchOf (2 * s.trainOrder.size) he hc
  have hl := hp.length_eq
  rw [Array.length_toList] at hl
  refine ⟨?_, hb.nodup, fun k hk => hp.mem_iff.1 (hb.subset k hk), hr, hbo⟩
  exact fillBatch_length _ he (hp.nodup_iff.2 EvaluationSuite.nodup_casesOf) hc (hl ▸ hs) (by omega)

structure Comparable (ops : ScoreOps F) (n : ℕ) (a : ℕ × List F) : Prop where
  length : a.2.length = n
  inRange : ∀ x ∈ a.2, ops.inRange x

def AtMost (ops : ScoreOps F) (xs ys : List F) : Prop :=
  List.Forall₂ (fun x y => ops.le x y) xs ys

theorem AtMost.trans {xs ys zs : List F} (h : AtMost ops xs ys) (h' : AtMost ops ys zs)
    (hx : ∀ x ∈ xs, ops.inRange x) (hy : ∀ y ∈ ys, ops.inRange y)
    (hz : ∀ z ∈ zs, ops.inRange z) : AtMost ops xs zs := by
  induction h generalizing zs with
  | nil =>
    cases h'
    exact .nil
  | cons hxy _ ih =>
    cases h' with
    | cons hyz hr =>
      refine .cons ?_ (ih hr (fun x h => hx x (List.mem_cons_of_mem _ h))
        (fun y h => hy y (List.mem_cons_of_mem _ h)) fun z h => hz z (List.mem_cons_of_mem _ h))
      exact ops.le_trans _ _ _ (hx _ List.mem_cons_self) (hy _ List.mem_cons_self)
        (hz _ List.mem_cons_self) hxy hyz

theorem all_zip_iff {α : Type} {p : α × α → Bool} {xs ys : List α} (hl : xs.length = ys.length) :
    (xs.zip ys).all p ↔ List.Forall₂ (fun x y => p (x, y)) xs ys := by
  rw [List.forall₂_iff_zip, List.all_eq_true]
  exact ⟨fun h => ⟨hl, fun hm => h _ hm⟩, fun h x hx => h.2 hx⟩

/-- To dominate is to be at least as good, and earlier where it is no better. -/
theorem dominates_iff {a b : ℕ × List F} (ha : Comparable ops n a)
    (hb : Comparable ops n b) : dominates ops a b ↔
      a.1 ≠ b.1 ∧ AtMost ops b.2 a.2 ∧ (AtMost ops a.2 b.2 → a.1 < b.1) := by
  have hlen : a.2.length = b.2.length := ha.length.trans hb.length.symm
  have hr : ∀ p ∈ a.2.zip b.2, ops.inRange p.1 ∧ ops.inRange p.2 := fun p hp =>
    ⟨ha.inRange _ (List.of_mem_zip hp).1, hb.inRange _ (List.of_mem_zip hp).2⟩
  have hge : ((a.2.zip b.2).all fun p => ops.le p.2 p.1) ↔ AtMost ops b.2 a.2 :=
    (all_zip_iff hlen).trans ⟨List.Forall₂.flip, List.Forall₂.flip⟩
  have hle : ((a.2.zip b.2).all fun p => ops.le p.1 p.2) ↔ AtMost ops a.2 b.2 := all_zip_iff hlen
  have hgt : ((a.2.zip b.2).any fun p => ops.lt p.2 p.1) ↔ ¬ AtMost ops a.2 b.2 := by
    rw [← hle, List.any_eq_true, List.all_eq_true]
    push Not
    refine exists_congr fun p => and_congr_right fun hp => ?_
    rw [ops.lt_iff _ _ (hr p hp).2 (hr p hp).1, ne_eq, Bool.not_eq_true]
  have heq : ((a.2.zip b.2).all fun p => ops.beq p.1 p.2) ↔
      AtMost ops a.2 b.2 ∧ AtMost ops b.2 a.2 := by
    rw [← hle, ← hge, List.all_eq_true, List.all_eq_true, List.all_eq_true, ← forall₂_and]
    refine forall₂_congr fun p hp => ?_
    exact ops.beq_iff _ _ (hr p hp).1 (hr p hp).2
  simp [dominates, hge, hgt, heq, hlen]
  constructor
  · rintro ⟨⟨hne, hl⟩, hg | ⟨⟨-, -⟩, hlt⟩⟩
    · exact ⟨hne, hl, fun h => absurd h hg⟩
    · exact ⟨hne, hl, fun _ => hlt⟩
  · rintro ⟨hne, hl, hlt⟩
    by_cases hm : AtMost ops a.2 b.2
    · exact ⟨⟨hne, hl⟩, .inr ⟨⟨hm, hl⟩, hlt hm⟩⟩
    · exact ⟨⟨hne, hl⟩, .inl hm⟩

theorem dominates_trans {a b c : ℕ × List F} (ha : Comparable ops n a)
    (hb : Comparable ops n b) (hc : Comparable ops n c) (hac : a.1 = c.1 → a = c)
    (hab : dominates ops a b) (hbc : dominates ops b c) :
    dominates ops a c := by
  obtain ⟨-, hba, ha'⟩ := (dominates_iff ha hb).1 hab
  obtain ⟨-, hcb, hb'⟩ := (dominates_iff hb hc).1 hbc
  refine (dominates_iff ha hc).2 ⟨fun heq => ?_, hcb.trans hba hc.inRange hb.inRange ha.inRange,
    fun hm => ?_⟩
  · cases hac heq
    have hlt := ha' hcb
    have hgt := hb' hba
    omega
  · exact (ha' (hm.trans hcb ha.inRange hc.inRange hb.inRange)).trans
      (hb' (hba.trans hm hb.inRange ha.inRange hc.inRange))

theorem scores_spec {cand : ℕ} : ∀ {cases : List ℕ} {xs : List F},
    s.scores cand cases = some xs → xs.length = cases.length
      ∧ ∀ x ∈ xs, ∃ o ∈ s.observations, o.score = x
  | [], xs, h => by
    cases h
    simp
  | k :: cases, xs, h => by
    unfold scores at h
    rw [List.mapM_cons] at h
    obtain ⟨x, hx, h⟩ := Option.bind_eq_some_iff.1 h
    obtain ⟨xs', hxs, h⟩ := Option.bind_eq_some_iff.1 h
    cases h
    obtain ⟨hl, hm⟩ := scores_spec hxs
    refine ⟨by rw [List.length_cons, List.length_cons, hl], fun y hy => ?_⟩
    rcases List.mem_cons.1 hy with rfl | hy
    · obtain ⟨o, ho, rfl⟩ := Option.map_eq_some_iff.1 hx
      exact ⟨o, List.mem_reverse.1 (List.mem_of_find?_eq_some ho), rfl⟩
    · exact hm y hy

theorem mem_measured : a ∈ s.measured suite ↔
    a.1 < s.candidates.length ∧ s.scores a.1 (suite.casesOf .validation) = some a.2 := by
  unfold measured
  rw [List.mem_filterMap]
  constructor
  · rintro ⟨i, hi, h⟩
    obtain ⟨xs, hx, rfl⟩ := Option.map_eq_some_iff.1 h
    exact ⟨List.mem_range.1 hi, hx⟩
  · rintro ⟨hi, h⟩
    exact ⟨a.1, List.mem_range.2 hi, by rw [h]; rfl⟩

theorem comparable_of_measured (hs : ∀ o ∈ s.observations, ops.inRange o.score)
    (ha : a ∈ s.measured suite) : Comparable ops (suite.casesOf .validation).length a := by
  obtain ⟨hl, hm⟩ := scores_spec (mem_measured.1 ha).2
  refine ⟨hl, fun x hx => ?_⟩
  obtain ⟨o, ho, rfl⟩ := hm x hx
  exact hs o ho

theorem eq_of_measured {a b : ℕ × List F} (ha : a ∈ s.measured suite) (hb : b ∈ s.measured suite)
    (heq : a.1 = b.1) : a = b := by
  have hs := (mem_measured.1 ha).2
  rw [heq, (mem_measured.1 hb).2] at hs
  exact Prod.ext heq (Option.some.inj hs).symm

theorem mem_frontier {i : ℕ} : i ∈ s.frontier ops suite ↔ ∃ a ∈ s.measured suite, a.1 = i
    ∧ ∀ b ∈ s.measured suite, dominates ops b a = false := by
  simp [frontier]

theorem exists_frontier (hs : ∀ o ∈ s.observations, ops.inRange o.score)
    (ha : a ∈ s.measured suite) : ∃ b ∈ s.measured suite,
      b.1 ∈ s.frontier ops suite ∧ (b = a ∨ dominates ops b a) := by
  let above (b c : { b // b ∈ s.measured suite }) : Prop := dominates ops b.1 c.1
  have hf : Finite { b // b ∈ s.measured suite } := (List.finite_toSet _).to_subtype
  have hcmp := fun b : { b // b ∈ s.measured suite } => comparable_of_measured hs b.2
  have ht : IsTrans { b // b ∈ s.measured suite } above := ⟨fun b c d hbc hcd =>
    dominates_trans (hcmp b) (hcmp c) (hcmp d) (eq_of_measured b.2 d.2) hbc hcd⟩
  have hi : Std.Irrefl above := ⟨fun b hb =>
    ((dominates_iff (hcmp b) (hcmp b)).1 hb).1 rfl⟩
  obtain ⟨b, hab, hb⟩ := (Finite.wellFounded_of_trans_of_irrefl above).has_min
    { b | b = ⟨a, ha⟩ ∨ above b ⟨a, ha⟩ } ⟨⟨a, ha⟩, .inl rfl⟩
  refine ⟨b, b.2, mem_frontier.2 ⟨b, b.2, rfl, fun c hc => ?_⟩, hab.imp_left (congrArg _)⟩
  refine Bool.eq_false_iff.2 fun hcb => hb ⟨c, hc⟩ ?_ hcb
  rcases hab with rfl | hab
  · exact .inr hcb
  · exact .inr (ht.trans ⟨c, hc⟩ b _ hcb hab)

end Optimization

end Choruz
