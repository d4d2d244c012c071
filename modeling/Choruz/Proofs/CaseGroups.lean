import Choruz.Pipeline
import Choruz.Proofs.TraceCases

/-!
# The groups of a corpus

The groups are the connected components of the related cases, whatever the order they come in.
-/

namespace Choruz

open Relational Components TraceCase

variable {prims : DatasetPrims} {c d : TraceCase} {cases cases' group : List TraceCase}

theorem mem_byEpisode_iff : d ∈ byEpisode cases ↔ findCase cases.reverse d.episodeRef = some d := by
  induction cases using List.reverseRecOn with
  | nil => simp [byEpisode, findCase]
  | append_singleton cases c ih =>
    have hi : byEpisode (cases ++ [c]) = insertCase c (byEpisode cases) := by
      simp [byEpisode]
    rw [hi, mem_insertCase, ih]
    simp only [findCase, List.reverse_append, List.reverse_singleton, List.singleton_append,
      List.find?_cons]
    by_cases heq : c.episodeRef = d.episodeRef
    · simp [heq, eq_comm]
    · simp only [heq, Ne.symm heq, ne_eq, not_false_eq_true, and_true]
      exact or_iff_right fun h => heq (by rw [h])

instance : Std.Total fun a b : TraceCase => a.episodeRef ≤ b.episodeRef :=
  ⟨fun a b => String.le_total a.episodeRef b.episodeRef⟩

instance : IsTrans TraceCase fun a b => a.episodeRef ≤ b.episodeRef :=
  ⟨fun _ _ _ => String.le_trans⟩

theorem pairwise_byEpisode (cases : List TraceCase) :
    (byEpisode cases).Pairwise (·.episodeRef ≤ ·.episodeRef) := by
  induction cases using List.reverseRecOn with
  | nil => exact .nil
  | append_singleton cases c ih =>
    rw [byEpisode, List.foldl_append]
    exact (ih.sublist List.filter_sublist).orderedInsert c _

theorem byEpisode_perm (hdi : Distinct cases) (hp : cases.Perm cases') :
    byEpisode cases = byEpisode cases' := by
  have hd' : Distinct cases' := (hp.map _).nodup_iff.1 hdi
  have hm : ∀ d, d ∈ byEpisode cases ↔ d ∈ byEpisode cases' := fun d => by
    rw [mem_byEpisode hdi, mem_byEpisode hd', hp.mem_iff]
  have hd := distinct_byEpisode cases'
  refine List.Perm.eq_of_pairwise (fun a b ha hb hab hba => ?_) (pairwise_byEpisode cases)
    (pairwise_byEpisode cases')
    ((List.perm_ext_iff_of_nodup (distinct_byEpisode cases).nodup hd.nodup).2 hm)
  exact hd.eq ((hm a).1 ha) hb (String.le_antisymm hab hba)

/-- The groups are the connected components of the last cases of the episodes, and do not depend
on the order of cases with distinct episodes. -/
theorem groups_are_components (cases : List TraceCase) :
    ((caseGroups cases).flatten.map (·.episodeRef)).Nodup
    ∧ (∀ c, (∃ group ∈ caseGroups cases, c ∈ group) ↔ findCase cases.reverse c.episodeRef = some c)
    ∧ (∀ group ∈ caseGroups cases, ∀ a ∈ group, ∀ b, b ∈ group ↔
      Joined related (byEpisode cases) a b)
    ∧ ∀ cases', cases.Perm cases' → (cases.map (·.episodeRef)).Nodup →
      caseGroups cases' = caseGroups cases := by
  refine ⟨?_, fun c => ?_, fun group hgrp a ha b => ?_, fun cases' hp hn => ?_⟩
  · have hp := components_perm related sortCases_perm (byEpisode cases)
    exact (hp.map _).nodup_iff.2 (distinct_byEpisode cases)
  · exact (mem_components sortCases_perm).trans mem_byEpisode_iff
  · exact mem_iff_joined sortCases_perm related_comm hgrp ha
  · rw [caseGroups, caseGroups, byEpisode_perm hn hp]

section Curation

variable {previous changes : List TraceCase}

/-- The previous corpus overwritten by what curation returns. -/
def curatedCorpus (prims : DatasetPrims) (previous changes : List TraceCase) : List TraceCase :=
  byEpisode (previous ++ curateChanges prims previous changes)

theorem curatedCorpus_cases (hd : d ∈ curatedCorpus prims previous changes) :
    d ∈ curateChanges prims previous changes ∨ d ∈ byEpisode previous
      ∧ ∀ c ∈ curateChanges prims previous changes, c.episodeRef ≠ d.episodeRef := by
  rw [curatedCorpus, mem_byEpisode_iff, List.reverse_append, findCase_append] at hd
  rcases hf : findCase (curateChanges prims previous changes).reverse d.episodeRef with _ | c
  · rw [hf] at hd
    exact .inr ⟨mem_byEpisode_iff.2 hd, by simpa using findCase_eq_none.1 hf⟩
  · rw [hf] at hd
    cases hd
    exact .inl (List.mem_reverse.1 (mem_of_findCase hf).1)

section

variable (hprev : Distinct previous)
include hprev

/-- A case of the curated corpus is one of the changed corpus under the anchor of its group. -/
theorem curatedCorpus_anchored (hd : d ∈ curatedCorpus prims previous changes) :
    ∃ group ∈ caseGroups (applyChanges previous changes), ∃ b ∈ group,
      d = withAnchor b (groupAnchor prims group) := by
  rcases curatedCorpus_cases hd with hr | ⟨ho, hnot⟩
  · obtain ⟨group, hgrp, b, hb, heq, -⟩ := mem_curateChanges.1 hr
    exact ⟨group, hgrp, b, hb, heq⟩
  · have ha := applied_applyChanges previous changes
    obtain ⟨b, hb, hbd⟩ := ha.covers d (List.mem_append_left _ ho)
    obtain ⟨group, hgrp, hb⟩ := (mem_caseGroups ha.distinct).2 hb
    refine ⟨group, hgrp, b, hb, ?_⟩
    rcases hn : isNews previous changes (withAnchor b (groupAnchor prims group)) with _ | _
    · have hf := mem_of_findCase (isNews_eq_false.1 hn).2
      exact hprev.eq ((mem_byEpisode hprev).1 ho) hf.1 hbd.symm
    · have hm : withAnchor b (groupAnchor prims group) ∈ curateChanges prims previous changes :=
        mem_curateChanges.2 ⟨group, hgrp, b, hb, rfl, hn⟩
      exact (hnot _ hm hbd).elim

section

variable (hgrp : group ∈ caseGroups (curatedCorpus prims previous changes))
include hgrp

/-- Related cases of the curated corpus have one anchor: a link was one before, and the cases it
joins were in one group. -/
theorem curatedCorpus_shares : Shares (·.groupRef) group := by
  refine caseGroups_shares (distinct_byEpisode _) (fun a ha b hb hrel => ?_) hgrp
  have hdi := (applied_applyChanges previous changes).distinct
  obtain ⟨group, hgrp, c, hc, rfl⟩ := curatedCorpus_anchored hprev ha
  obtain ⟨group', hg', d, hd, rfl⟩ := curatedCorpus_anchored hprev hb
  rcases Bool.or_eq_true_iff.1 hrel with hs | hl
  · obtain ⟨r, hr, hr'⟩ := sameGroupRef_iff.1 hs
    exact hr.trans hr'.symm
  · have hrel : c.related d := Bool.or_eq_true_iff.2 (.inr hl)
    have hm := mem_group_of_related hdi hgrp hc (mem_of_mem_caseGroups hdi hg' hd) hrel
    rw [caseGroups_unique hdi hgrp hg' hm hd rfl]
    rfl

theorem curatedCorpus_groupAnchor (hd : d ∈ group) : groupAnchor prims group = d.groupRef := by
  have ha : ∀ c ∈ group, ∃ g, c.groupRef = some g ∧ prims.refKey g ≤ prims.refKey c.episodeRef :=
    fun c hc => by
      obtain ⟨group', -, b, hb, rfl⟩ :=
        curatedCorpus_anchored hprev (mem_of_mem_caseGroups (distinct_byEpisode _) hgrp hc)
      obtain ⟨g, hg, -, hle⟩ := groupAnchor_spec prims hb
      exact ⟨g, hg, hle b hb b.episodeRef List.mem_cons_self⟩
  obtain ⟨g, hg, -⟩ := ha d hd
  obtain ⟨r, hr, ⟨c, hc, hm⟩, hle⟩ := groupAnchor_spec prims hd
  have hs := curatedCorpus_shares hprev hgrp
  rw [hr, hg]
  refine congrArg some (congrArg (·.2) (toLex.injective (le_antisymm (hle d hd g ?_) ?_)))
  · simp [anchorRefs, hg]
  · obtain ⟨g', hg', hle'⟩ := ha c hc
    obtain rfl : g' = g := Option.some.inj (hg'.symm.trans ((hs c hc d hd).trans hg))
    rcases List.mem_cons.1 hm with rfl | hm
    · exact hle'
    · simp [hg'] at hm
      rw [hm]

end

theorem curateChanges_fixpoint :
    curateChanges prims (curatedCorpus prims previous changes) [] = [] := by
  refine List.eq_nil_iff_forall_not_mem.2 fun d hd => ?_
  have hdi : Distinct (curatedCorpus prims previous changes) := distinct_byEpisode _
  obtain ⟨group, hgrp, c, hc, rfl, hn⟩ := mem_curateChanges.1 hd
  have hp := (List.perm_ext_iff_of_nodup hdi.nodup (distinct_byEpisode _).nodup).2
    fun d => (mem_byEpisode hdi).symm
  have hgrp : group ∈ caseGroups (curatedCorpus prims previous changes) := by
    rw [caseGroups, byEpisode_perm hdi hp]
    exact hgrp
  have hk : withAnchor c (groupAnchor prims group) = c := by
    rw [curatedCorpus_groupAnchor hprev hgrp hc]
    rfl
  have ho : isNews (curatedCorpus prims previous changes) [] c = false :=
    isNews_eq_false.2 ⟨by simp, (findCase_eq_some hdi).2 ⟨mem_of_mem_caseGroups hdi hgrp hc, rfl⟩⟩
  rw [hk, ho] at hn
  cases hn

end

/-- Curating once is enough: nothing is left to change, the members of a group have one anchor, no
anchor comes from a change, and what is not returned is as it was. -/
theorem curation_settles (hprev : (previous.map (·.episodeRef)).Nodup) :
    curateChanges prims (curatedCorpus prims previous changes) [] = []
    ∧ (∀ group ∈ caseGroups (curatedCorpus prims previous changes), ∃ g, ∀ c ∈ group,
      c.groupRef = some g) ∧ (∀ f : TraceCase → Option String, curateChanges prims previous
      (changes.map fun c => { c with groupRef := f c }) = curateChanges prims previous changes)
    ∧ ∀ c ∈ curatedCorpus prims previous changes, c ∉ curateChanges prims previous changes →
      c ∈ previous := by
  refine ⟨curateChanges_fixpoint hprev, fun group hgrp => ?_, fun f => ?_, fun c hc hnot => ?_⟩
  · rcases group with _ | ⟨c, group⟩
    · exact ⟨"", fun _ hc => nomatch hc⟩
    · obtain ⟨g, hg, -⟩ := groupAnchor_spec prims (List.mem_cons_self (a := c) (l := group))
      refine ⟨g, fun d hd => ?_⟩
      rw [← curatedCorpus_groupAnchor hprev hgrp hd, hg]
  · have ha : applyChanges previous (changes.map fun c => { c with groupRef := f c })
        = applyChanges previous changes := List.foldl_map
    have hn : isNews previous (changes.map fun c => { c with groupRef := f c })
        = isNews previous changes := by
      funext c
      simp [isNews, Function.comp_def]
    rw [curateChanges, ha, hn]
    rfl
  · exact (mem_byEpisode hprev).1 ((curatedCorpus_cases hc).resolve_left hnot).1

def storedRelative : TraceCase := { objective "r" [] with groupRef := some "r" }

theorem curation_settles_linked : ([storedRelative].map (·.episodeRef)).Nodup
    ∧ curateChanges lettered [storedRelative] [objective "v" ["r"]] ≠ []
    ∧ curateChanges lettered
      (curatedCorpus lettered [storedRelative] [objective "v" ["r"]]) [] = [] :=
  ⟨by decide, by decide +kernel, (curation_settles (by decide)).1⟩

end Curation

section Suite

variable {budget : ℕ} {difficulty : String → Option String} {suite : EvaluationSuite}
  {k k' : EvaluationCase}

theorem validateCases_eq_ok {prims : EvalPrims} : ∀ {ids inputs : List String}
    {cases : List EvaluationCase}, EvaluationSuite.validateCases prims ids inputs cases = .ok () →
    (cases.map (·.id)).Nodup ∧ ∀ k ∈ cases, k.id ∉ ids ∧ trim k.input ≠ ""
  | _, _, [], _ => ⟨nodup_nil, fun _ hk => nomatch hk⟩
  | ids, inputs, c :: cases, h => by
    obtain ⟨-, -, h⟩ := bind_eq_ok.1 h
    split_ifs at h with hc
    obtain ⟨hn, hr⟩ := validateCases_eq_ok h
    simp at hc
    refine ⟨nodup_cons.2 ⟨fun hm => ?_, hn⟩, List.forall_mem_cons.2 ⟨?_, fun k hk => ?_⟩⟩
    · obtain ⟨k, hk, heq⟩ := mem_map.1 hm
      exact (hr k hk).1 (by simp [heq])
    · tauto
    · exact ⟨fun hm => (hr k hk).1 (mem_cons_of_mem _ hm), (hr k hk).2⟩

section

variable (h : measuredTraceSuite prims cases budget difficulty = some suite)
include h

theorem measuredTraceSuite_validated :
    (suite.cases.map (·.id)).Nodup ∧ ∀ k ∈ suite.cases, trim k.input ≠ "" := by
  obtain ⟨drawn, -, h⟩ := bind_eq_some_iff.1 h
  dsimp only at h
  split_ifs at h with hok
  cases h
  rcases hv : EvaluationSuite.validate prims.toEvalPrims _ with e | _ <;> rw [hv] at hok
  · cases hok
  unfold EvaluationSuite.validate at hv
  split at hv
  · cases hv
  obtain ⟨_, hc, -⟩ := bind_eq_ok.1 hv
  obtain ⟨hn, hr⟩ := validateCases_eq_ok hc
  exact ⟨hn, fun k hk => (hr k hk).2⟩

theorem eq_of_source {group : List TraceCase}
    (hgrp : group ∈ caseGroups cases) (hk : k ∈ suite.cases) (hsrc : ∃ c ∈ group, k.source = some c) :
    (sample prims difficulty group).bind (·.toCase prims) = some k := by
  obtain ⟨group', hg', s, -, hs, hca⟩ := exists_sample h hk
  obtain ⟨c, hc, hsrc⟩ := hsrc
  obtain ⟨check, -, rfl⟩ := map_eq_some_iff.1 hca
  cases hsrc
  obtain rfl := eq_of_mem_components sortCases_perm (distinct_byEpisode cases).nodup hgrp hg' hc
    (sample_spec hs).1
  rw [hs]
  exact hca

end

/-- No variant that the suite trains on reads like an input it holds out. -/
def VariantsApart (prims : DatasetPrims) (cases : List TraceCase) (budget : ℕ)
    (difficulty : String → Option String) : Prop :=
  ∀ s ∈ drawnSamples prims cases budget difficulty, s.bucket = 0 → ∀ v ∈ s.case.variant,
    ∀ s' ∈ drawnSamples prims cases budget difficulty, s'.bucket ≠ 0 →
      normalized v ≠ normalized s'.case.input

theorem ofBucket_eq_train : ∀ {b : ℕ}, EvaluationSplit.ofBucket b = .train ↔ b = 0
  | 0 => by simp [EvaluationSplit.ofBucket]
  | 1 => by simp [EvaluationSplit.ofBucket]
  | _ + 2 => by simp [EvaluationSplit.ofBucket]

theorem normalized_ne_of_samples {group group' : List TraceCase} {s s' : Sample}
    (hgrp : group ∈ caseGroups cases) (hg' : group' ∈ caseGroups cases)
    (hs : sample prims difficulty group = some s)
    (hs' : sample prims difficulty group' = some s') (hz : s.bucket = 0)
    (hp : s'.bucket ≠ 0) (ht : trim s.case.input ≠ "") :
    normalized s.case.input ≠ normalized s'.case.input := by
  intro heq
  have hm := (sample_spec hs).1
  have hm' := (sample_spec hs').1
  have hr : s.case.related s'.case := by simp [related, linked, ht, heq]
  have hj := mem_of_rel sortCases_perm related_comm hgrp hm
    ((mem_components sortCases_perm).1 ⟨group', hg', hm'⟩) hr
  obtain rfl := eq_of_mem_components sortCases_perm (distinct_byEpisode cases).nodup hgrp hg' hj hm'
  cases hs.symm.trans hs'
  exact hp hz

theorem inputs_apart (hvar : VariantsApart prims cases budget difficulty)
    (h : measuredTraceSuite prims cases budget difficulty = some suite) (hk : k ∈ suite.cases)
    (hk' : k' ∈ suite.cases) (hsp : k.split = .train) (hsp' : k'.split ≠ .train) :
    normalized k.input ≠ normalized k'.input := by
  have ht := (measuredTraceSuite_validated h).2 k hk
  obtain ⟨group, hgrp, s, hs, hsa, hc⟩ := exists_sample h hk
  obtain ⟨group', hg', s', hs', hsa', hc'⟩ := exists_sample h hk'
  obtain ⟨_, -, rfl⟩ := map_eq_some_iff.1 hc
  obtain ⟨_, -, rfl⟩ := map_eq_some_iff.1 hc'
  have hz : s.bucket = 0 := ofBucket_eq_train.1 hsp
  have hp : s'.bucket ≠ 0 := mt ofBucket_eq_train.2 hsp'
  simp only [hz, hp, if_true, if_false] at ht ⊢
  rcases hv : s.case.variant with _ | v <;> rw [hv] at ht
  · exact normalized_ne_of_samples hgrp hg' hsa hsa' hz hp ht
  · exact hvar s hs hz v hv s' hs' hp

theorem exists_case {s : Sample} (h : measuredTraceSuite prims cases budget difficulty = some suite)
    (hs : s ∈ drawnSamples prims cases budget difficulty) :
    ∃ k ∈ suite.cases, s.toCase prims = some k := by
  obtain ⟨group, -, hsa⟩ := mem_filterMap.1 (mem_of_mem_ordered (mem_of_mem_draw hs))
  obtain ⟨check, hch⟩ := isSome_iff_exists.1 (sample_spec hsa).2.2
  obtain ⟨drawn, hd, h⟩ := bind_eq_some_iff.1 h
  dsimp only at h
  split_ifs at h
  cases h
  obtain ⟨k, hc⟩ : ∃ k, s.toCase prims = some k := ⟨_, map_eq_some_iff.2 ⟨check, hch, rfl⟩⟩
  exact ⟨k, (mem_mapM hd).2 ⟨s, hs, hc⟩, hc⟩

theorem variantsApart_of_inputs_apart
    (h : measuredTraceSuite prims cases budget difficulty = some suite)
    (ha : ∀ k ∈ suite.cases, ∀ k' ∈ suite.cases, k.split = .train → k'.split ≠ .train →
      normalized k.input ≠ normalized k'.input) : VariantsApart prims cases budget difficulty := by
  intro s hs hz v hv s' hs' hp
  obtain ⟨k, hk, hc⟩ := exists_case h hs
  obtain ⟨k', hk', hc'⟩ := exists_case h hs'
  obtain ⟨_, -, rfl⟩ := map_eq_some_iff.1 hc
  obtain ⟨_, -, rfl⟩ := map_eq_some_iff.1 hc'
  have hne := ha _ hk _ hk' (ofBucket_eq_train.2 hz) (mt ofBucket_eq_train.1 hp)
  rw [Option.mem_def] at hv
  simpa [hz, hp, hv] using hne

/-- A suite has at most one case of a group and none of a group whose checks conflict; no training
input reads like one that is held out exactly where no drawn variant does. -/
theorem suites_do_not_leak (h : measuredTraceSuite prims cases budget difficulty = some suite) :
    ((∀ k ∈ suite.cases, ∀ k' ∈ suite.cases, k.split = .train → k'.split ≠ .train →
      normalized k.input ≠ normalized k'.input) ↔ VariantsApart prims cases budget difficulty)
    ∧ suite.cases.Nodup ∧ (∀ group ∈ caseGroups cases, ∀ k ∈ suite.cases, ∀ k' ∈ suite.cases,
      (∃ c ∈ group, k.source = some c) → (∃ c ∈ group, k'.source = some c) → k = k')
    ∧ ∀ group ∈ caseGroups cases, conflicting prims group → ∀ k ∈ suite.cases,
      ¬ ∃ c ∈ group, k.source = some c := by
  refine ⟨⟨variantsApart_of_inputs_apart h, fun hv k hk k' hk' => inputs_apart hv h hk hk'⟩,
    (measuredTraceSuite_validated h).1.of_map _, fun group hgrp k hk k' hk' hs hs' => ?_,
    fun group hgrp hco k hk hs => ?_⟩
  · exact Option.some.inj ((eq_of_source h hgrp hk hs).symm.trans (eq_of_source h hgrp hk' hs'))
  · have hc := eq_of_source h hgrp hk hs
    simp [sample, hco] at hc

def rewordedVariant : List TraceCase :=
  [{ objective "r" [] with variant := some "r again" }, objective "v" [], objective "t" []]

theorem suites_do_not_leak_reworded : ∃ suite,
    measuredTraceSuite lettered rewordedVariant 4 (fun _ => none) = some suite
    ∧ (∃ k ∈ suite.cases, k.split = .train ∧ k.input = "r again")
    ∧ ∀ k ∈ suite.cases, ∀ k' ∈ suite.cases, k.split = .train → k'.split ≠ .train →
      normalized k.input ≠ normalized k'.input := by
  have hu : ((measuredTraceSuite lettered rewordedVariant 4 fun _ => none).any fun suite =>
      ∃ k ∈ suite.cases, k.split = .train ∧ k.input = "r again") := by
    decide +kernel
  obtain ⟨suite, hs, hc⟩ := (Option.any_eq_true _ _).1 hu
  refine ⟨suite, hs, of_decide_eq_true hc, (suites_do_not_leak hs).1.2 ?_⟩
  unfold VariantsApart
  decide +kernel

def spacedVariant : List TraceCase :=
  [{ objective "r" [] with variant := some "v  x" }, { objective "v" [] with input := "v x" },
    objective "t" []]

/-- The suite compares its inputs trimmed, not collapsed, and the groups no variants. -/
theorem variant_leaks : ∃ suite,
    measuredTraceSuite lettered spacedVariant 4 (fun _ => none) = some suite
    ∧ ∃ k ∈ suite.cases, ∃ k' ∈ suite.cases, k.split = .train ∧ k'.split = .validation
      ∧ normalized k.input = normalized k'.input := by
  have hl : ((measuredTraceSuite lettered spacedVariant 4 fun _ => none).any fun suite =>
      ∃ k ∈ suite.cases, ∃ k' ∈ suite.cases, k.split = .train ∧ k'.split = .validation
        ∧ normalized k.input = normalized k'.input) := by
    decide +kernel
  obtain ⟨suite, hs, hc⟩ := (Option.any_eq_true _ _).1 hl
  exact ⟨suite, hs, of_decide_eq_true hc⟩

end Suite

end Choruz
