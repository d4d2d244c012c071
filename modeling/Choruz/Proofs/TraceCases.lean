import Choruz.Dataset

/-!
# What curation keeps

A curated case differs from the case it is made of by its anchor only, a reference of its objective
in the lowest bucket that the episodes and the anchors of the objective have.  The members of an
objective carry the same one.  So an episode of a training objective is stored with a training
anchor, and keeps one as long as its changes are made on what is stored.
-/

namespace Choruz

open Components

variable {prims : DatasetPrims} {c d : TraceCase} {m cases group : List TraceCase}

variable {e : String} {previous changes : List TraceCase} {s : Sample}
  {difficulty : String → Option String}

theorem mem_insertCase : d ∈ insertCase c m ↔ d = c ∨ d ∈ m ∧ d.episodeRef ≠ c.episodeRef := by
  simp [insertCase]

def Distinct (m : List TraceCase) : Prop := (m.map (·.episodeRef)).Nodup

theorem Distinct.eq (h : Distinct m) (hc : c ∈ m) (hd : d ∈ m) (heq : c.episodeRef = d.episodeRef) :
    c = d := List.inj_on_of_nodup_map h hc hd heq

theorem Distinct.nodup (h : Distinct m) : m.Nodup := List.Nodup.of_map _ h

theorem Distinct.insertCase (h : Distinct m) (c : TraceCase) : Distinct (insertCase c m) := by
  have hp := List.perm_orderedInsert (fun a b : TraceCase => a.episodeRef ≤ b.episodeRef) c
    (m.filter (·.episodeRef ≠ c.episodeRef))
  refine ((hp.map (·.episodeRef)).nodup_iff).2 (List.nodup_cons.2 ⟨?_, ?_⟩)
  · simp
  · exact h.sublist (List.filter_sublist.map _)

theorem distinct_foldl_insertCase : ∀ (cases m : List TraceCase), Distinct m →
    Distinct (cases.foldl (fun m c => insertCase c m) m)
  | [], _, h => h
  | c :: cases, _, h => distinct_foldl_insertCase cases _ (h.insertCase c)

theorem distinct_byEpisode (cases : List TraceCase) : Distinct (byEpisode cases) :=
  distinct_foldl_insertCase cases [] List.nodup_nil

theorem mem_of_mem_foldl_insertCase : ∀ (cases m : List TraceCase),
    d ∈ cases.foldl (fun m c => insertCase c m) m → d ∈ cases ∨ d ∈ m
  | [], _, h => .inr h
  | c :: cases, m, h => by
    rcases mem_of_mem_foldl_insertCase cases _ h with h | h
    · exact .inl (List.mem_cons_of_mem _ h)
    rcases mem_insertCase.1 h with rfl | ⟨h, -⟩
    · exact .inl List.mem_cons_self
    · exact .inr h

theorem mem_foldl_insertCase : ∀ (cases m : List TraceCase), Distinct cases →
    (d ∈ cases ∨ d ∈ m ∧ ∀ c ∈ cases, d.episodeRef ≠ c.episodeRef) →
    d ∈ cases.foldl (fun m c => insertCase c m) m
  | [], _, _, h => h.elim (fun h => nomatch h) (·.1)
  | c :: cases, m, hd, h => by
    obtain ⟨hn, hd⟩ := List.nodup_cons.1 hd
    refine mem_foldl_insertCase cases _ hd ?_
    rcases h with h | ⟨hm, hne⟩
    · rcases List.mem_cons.1 h with rfl | h
      · exact .inr ⟨mem_insertCase.2 (.inl rfl), fun c hc heq =>
          hn (List.mem_map.2 ⟨c, hc, heq.symm⟩)⟩
      · exact .inl h
    · exact .inr ⟨mem_insertCase.2 (.inr ⟨hm, hne c List.mem_cons_self⟩), fun c' hc' =>
        hne c' (List.mem_cons_of_mem _ hc')⟩

theorem mem_byEpisode (h : Distinct cases) : d ∈ byEpisode cases ↔ d ∈ cases :=
  ⟨fun hd => (mem_of_mem_foldl_insertCase cases [] hd).elim id (fun h => nomatch h),
    fun hd => mem_foldl_insertCase cases [] h (.inl hd)⟩

theorem mem_of_findCase (h : findCase m e = some c) : c ∈ m ∧ c.episodeRef = e :=
  ⟨List.mem_of_find?_eq_some h, by simpa using List.find?_some h⟩

theorem findCase_eq_some (h : Distinct m) : findCase m e = some c ↔ c ∈ m ∧ c.episodeRef = e := by
  refine ⟨mem_of_findCase, fun ⟨hc, he⟩ => ?_⟩
  rcases hf : findCase m e with _ | d
  · exact absurd he (by simpa using List.find?_eq_none.1 hf c hc)
  · obtain ⟨hd, hde⟩ := mem_of_findCase hf
    rw [h.eq hd hc (hde.trans he.symm)]

theorem findCase_eq_none : findCase m e = none ↔ ∀ c ∈ m, c.episodeRef ≠ e := by
  simp [findCase]

theorem findCase_append (m m' : List TraceCase) (e : String) :
    findCase (m ++ m') e = (findCase m e).or (findCase m' e) := List.find?_append

def storedAnchor (m : List TraceCase) (e : String) : Option String :=
  (findCase m e).bind (·.groupRef)

theorem storedAnchor_of_mem (h : Distinct m) (hc : c ∈ m) :
    storedAnchor m c.episodeRef = c.groupRef := by
  rw [storedAnchor, (findCase_eq_some h).2 ⟨hc, rfl⟩, Option.bind_some]

/-- A case as `curate_changes` puts it into the corpus. -/
def withAnchor (c : TraceCase) (anchor : Option String) : TraceCase := { c with groupRef := anchor }

theorem findCase_insertCase_of_ne (h : Distinct m) (hne : c.episodeRef ≠ e) :
    findCase (insertCase c m) e = findCase m e := by
  rcases hf : findCase m e with _ | d
  · refine findCase_eq_none.2 fun d hd => ?_
    rcases mem_insertCase.1 hd with rfl | ⟨hd, -⟩
    · exact hne
    · exact findCase_eq_none.1 hf d hd
  · obtain ⟨hd, rfl⟩ := mem_of_findCase hf
    exact (findCase_eq_some (h.insertCase _)).2 ⟨mem_insertCase.2 (.inr ⟨hd, hne.symm⟩), rfl⟩

theorem storedAnchor_insertCase (h : Distinct m) (c : TraceCase) (e : String) :
    storedAnchor (insertCase (withAnchor c (storedAnchor m c.episodeRef)) m) e
      = storedAnchor m e := by
  by_cases heq : c.episodeRef = e
  · subst heq
    exact storedAnchor_of_mem (h.insertCase _) (mem_insertCase.2 (.inl rfl))
  · exact congrArg (Option.bind · _) (findCase_insertCase_of_ne h heq)

def applyFrom (m changes : List TraceCase) : List TraceCase :=
  changes.foldl (fun current c =>
    insertCase (withAnchor c (storedAnchor current c.episodeRef)) current) m

/-- The corpus with the changes: what it has of a change and of what was there before. -/
structure Applied (m changes current : List TraceCase) : Prop where
  distinct : Distinct current
  anchors : ∀ e, storedAnchor current e = storedAnchor m e
  mem : ∀ d ∈ current, (d ∈ m ∧ ∀ c ∈ changes, c.episodeRef ≠ d.episodeRef)
    ∨ ∃ c ∈ changes, d = withAnchor c (storedAnchor m c.episodeRef)
  covers : ∀ c ∈ m ++ changes, ∃ d ∈ current, d.episodeRef = c.episodeRef

theorem applied_applyFrom : ∀ (chgs m : List TraceCase), Distinct m →
    Applied m chgs (applyFrom m chgs)
  | [], m, h => ⟨h, fun _ => rfl, fun d hd => .inl ⟨hd, fun _ hc => nomatch hc⟩,
      fun c hc => ⟨c, by simpa [applyFrom] using hc, rfl⟩⟩
  | c :: chgs, m, h => by
    have ih := applied_applyFrom chgs _ (h.insertCase (withAnchor c (storedAnchor m c.episodeRef)))
    have ha := storedAnchor_insertCase h c
    refine ⟨ih.distinct, fun e => (ih.anchors e).trans (ha e), fun d hd => ?_, fun b hb => ?_⟩
    · rcases ih.mem d hd with ⟨hd, ho⟩ | ⟨b, hb, rfl⟩
      · rcases mem_insertCase.1 hd with rfl | ⟨hd, hne⟩
        · exact .inr ⟨c, List.mem_cons_self, rfl⟩
        · exact .inl ⟨hd, List.forall_mem_cons.2 ⟨hne.symm, ho⟩⟩
      · exact .inr ⟨b, List.mem_cons_of_mem _ hb, by rw [ha]⟩
    · have hi : ∃ d ∈ insertCase (withAnchor c (storedAnchor m c.episodeRef)) m ++ chgs,
          d.episodeRef = b.episodeRef := by
        by_cases heq : b.episodeRef = c.episodeRef
        · exact ⟨_, List.mem_append_left _ (mem_insertCase.2 (.inl rfl)), heq.symm⟩
        refine ⟨b, ?_, rfl⟩
        rcases List.mem_append.1 hb with hb | hb
        · exact List.mem_append_left _ (mem_insertCase.2 (.inr ⟨hb, heq⟩))
        rcases List.mem_cons.1 hb with rfl | hb
        · exact absurd rfl heq
        · exact List.mem_append_right _ hb
      obtain ⟨d, hd, hdb⟩ := hi
      obtain ⟨d', hd', hdd'⟩ := ih.covers d hd
      exact ⟨d', hd', hdd'.trans hdb⟩

theorem applied_applyChanges (prev chgs : List TraceCase) :
    Applied (byEpisode prev) chgs (applyChanges prev chgs) :=
  applied_applyFrom chgs _ (distinct_byEpisode prev)

theorem normalized_eq_nil {s : String} : normalized s = [] ↔ trim s = "" := by
  rw [← splitWhitespace_eq_nil]
  unfold normalized
  refine ⟨fun h => ?_, fun h => by rw [h]; rfl⟩
  rcases hwo : splitWhitespace s with _ | ⟨w, ws⟩
  · rfl
  have hw : w ≠ [] := by
    have hm : w ∈ splitWhitespace s := hwo ▸ List.mem_cons_self
    simpa using (List.mem_filter.1 hm).2
  rw [hwo] at h
  cases ws with
  | nil | cons w' ws => simp [hw] at h

theorem any_contains_comm (l l' : List String) : l.any l'.contains = l'.any l.contains := by
  rw [Bool.eq_iff_iff]
  simp
  exact ⟨fun ⟨r, h, h'⟩ => ⟨r, h', h⟩, fun ⟨r, h, h'⟩ => ⟨r, h', h⟩⟩

namespace TraceCase

theorem linked_comm (a b : TraceCase) : a.linked b = b.linked a := by
  have hi : (trim a.input ≠ "" && normalized a.input = normalized b.input)
      = (trim b.input ≠ "" && normalized b.input = normalized a.input) := by
    simp [← normalized_eq_nil]
    by_cases h : normalized a.input = normalized b.input
    · rw [h]
    · simp [h, Ne.symm h]
  unfold linked
  rw [hi, any_contains_comm a.evidence, any_contains_comm a.relatedRefs,
    Bool.or_right_comm _ (a.relatedRefs.contains b.episodeRef)]

theorem sameGroupRef_iff {a b : TraceCase} :
    a.sameGroupRef b ↔ ∃ r, a.groupRef = some r ∧ b.groupRef = some r := by
  unfold sameGroupRef
  split
  next r r' ha hb =>
    simp [ha, hb, eq_comm]
  next hn =>
    exact ⟨fun h => absurd h Bool.false_ne_true, fun ⟨r, ha, hb⟩ => (hn r r ha hb).elim⟩

theorem related_comm (a b : TraceCase) : a.related b = b.related a := by
  unfold related
  rw [linked_comm]
  congr 1
  rw [Bool.eq_iff_iff, sameGroupRef_iff, sameGroupRef_iff]
  exact ⟨fun ⟨r, ha, hb⟩ => ⟨r, hb, ha⟩, fun ⟨r, ha, hb⟩ => ⟨r, hb, ha⟩⟩

theorem related_of_mem_relatedRefs {a b : TraceCase} (h : b.episodeRef ∈ a.relatedRefs) :
    a.related b := by
  simp [related, linked, h]

end TraceCase

theorem sortCases_perm (cases : List TraceCase) : (sortCases cases).Perm cases :=
  List.perm_insertionSort _ _

section

variable (h : Distinct cases)
include h

theorem mem_caseGroups : (∃ group ∈ caseGroups cases, d ∈ group) ↔ d ∈ cases :=
  (mem_components sortCases_perm).trans (mem_byEpisode h)

section

variable (hgrp : group ∈ caseGroups cases)
include hgrp

theorem mem_of_mem_caseGroups (hd : d ∈ group) : d ∈ cases := (mem_caseGroups h).1 ⟨group, hgrp, hd⟩

theorem caseGroups_unique {group' : List TraceCase} (hg' : group' ∈ caseGroups cases) (hc : c ∈ group)
    (hd : d ∈ group') (heq : c.episodeRef = d.episodeRef) : group = group' := by
  obtain rfl := h.eq (mem_of_mem_caseGroups h hgrp hc) (mem_of_mem_caseGroups h hg' hd) heq
  exact eq_of_mem_components sortCases_perm (distinct_byEpisode cases).nodup hgrp hg' hc hd

theorem mem_group_of_related (hc : c ∈ group) (hd : d ∈ cases) (hr : c.related d) : d ∈ group :=
  mem_of_rel sortCases_perm TraceCase.related_comm hgrp hc ((mem_byEpisode h).2 hd) hr

end

theorem caseGroups_shares {β : Type} {f : TraceCase → β}
    (hf : ∀ a ∈ cases, ∀ b ∈ cases, a.related b → f a = f b)
    (hgrp : group ∈ caseGroups cases) : Components.Shares f group := by
  refine components_shares sortCases_perm (fun a ha b hb => ?_) group hgrp
  exact hf a ((mem_byEpisode h).1 ha) b ((mem_byEpisode h).1 hb)

end

theorem groupBucket_le (prims : DatasetPrims) {r : String} (hc : c ∈ group) (hr : r ∈ c.refs) :
    groupBucket prims group ≤ prims.refBucket r := by
  unfold groupBucket
  have hm : prims.refBucket r ∈ (group.flatMap (·.refs)).map prims.refBucket :=
    List.mem_map_of_mem (List.mem_flatMap.2 ⟨c, hc, hr⟩)
  rcases hmin : ((group.flatMap (·.refs)).map prims.refBucket).min? with _ | n
  · rw [List.min?_eq_none_iff.1 hmin] at hm
    cases hm
  · rw [hmin]
    exact (List.min?_eq_some_iff.1 hmin).2 _ hm

theorem exists_of_groupBucket (prims : DatasetPrims) (hc : c ∈ group) :
    ∃ d ∈ group, ∃ r ∈ d.refs, prims.refBucket r = groupBucket prims group := by
  unfold groupBucket
  rcases hmin : ((group.flatMap (·.refs)).map prims.refBucket).min? with _ | n
  · have hm : prims.refBucket c.episodeRef ∈ (group.flatMap (·.refs)).map prims.refBucket :=
      List.mem_map_of_mem (List.mem_flatMap.2 ⟨c, hc, List.mem_cons_self⟩)
    rw [List.min?_eq_none_iff.1 hmin] at hm
    cases hm
  · obtain ⟨r, hr, hn⟩ := List.mem_map.1 (List.min?_eq_some_iff.1 hmin).1
    obtain ⟨d, hd, hr⟩ := List.mem_flatMap.1 hr
    exact ⟨d, hd, r, hr, by rw [hmin]; exact hn⟩

/-- The key of `min_by_key` on references. -/
def DatasetPrims.refKey (prims : DatasetPrims) (r : String) : ℕ ×ₗ String :=
  toLex (prims.refBucket r, r)

theorem lowest_spec : ∀ {rs : List String}, rs ≠ [] →
    ∃ r ∈ rs, lowest prims rs = some r ∧ ∀ r' ∈ rs, prims.refKey r ≤ prims.refKey r'
  | [], h => absurd rfl h
  | r :: rs, _ => by
    unfold lowest
    by_cases hr : rs = []
    · subst hr
      exact ⟨r, List.mem_cons_self, rfl, by simp⟩
    · obtain ⟨r', hm, hr', hle⟩ := lowest_spec hr
      have hkey : (prims.refBucket r' < prims.refBucket r
          || (prims.refBucket r' = prims.refBucket r && r' < r)) ↔
          prims.refKey r' < prims.refKey r := by
        simp only [Bool.or_eq_true, Bool.and_eq_true, decide_eq_true_eq, DatasetPrims.refKey,
          Prod.Lex.toLex_lt_toLex]
      simp only [hr', hkey]
      split_ifs with hl
      · exact ⟨r', List.mem_cons_of_mem _ hm, rfl, List.forall_mem_cons.2 ⟨hl.le, hle⟩⟩
      · exact ⟨r, List.mem_cons_self, rfl, List.forall_mem_cons.2
          ⟨le_rfl, fun q hq => (not_lt.1 hl).trans (hle q hq)⟩⟩

def groupAnchor (prims : DatasetPrims) (group : List TraceCase) : Option String :=
  lowest prims (group.flatMap (·.anchorRefs))

theorem groupAnchor_spec (prims : DatasetPrims) (hc : c ∈ group) :
    ∃ g, groupAnchor prims group = some g ∧ (∃ d ∈ group, g ∈ d.anchorRefs)
      ∧ ∀ d ∈ group, ∀ r ∈ d.anchorRefs, prims.refKey g ≤ prims.refKey r := by
  have hne : group.flatMap (·.anchorRefs) ≠ [] := by
    intro hn
    have hm : c.episodeRef ∈ group.flatMap (·.anchorRefs) :=
      List.mem_flatMap.2 ⟨c, hc, List.mem_cons_self⟩
    rw [hn] at hm
    cases hm
  obtain ⟨g, hm, hg, hle⟩ := lowest_spec hne
  exact ⟨g, hg, List.mem_flatMap.1 hm, fun d hd r hr =>
    hle r (List.mem_flatMap.2 ⟨d, hd, hr⟩)⟩

theorem mem_curateChanges : d ∈ curateChanges prims previous changes ↔
      ∃ group ∈ caseGroups (applyChanges previous changes), ∃ c ∈ group,
        d = withAnchor c (groupAnchor prims group) ∧ isNews previous changes d := by
  unfold curateChanges anchored
  simp
  constructor
  · rintro ⟨group, hgrp, ⟨c, hc, rfl⟩, hn⟩
    exact ⟨group, hgrp, c, hc, rfl, hn⟩
  · rintro ⟨group, hgrp, c, hc, rfl, hn⟩
    exact ⟨group, hgrp, ⟨c, hc, rfl⟩, hn⟩

theorem isNews_eq_false : isNews previous changes d = false ↔
      (∀ c ∈ changes, c.episodeRef ≠ d.episodeRef) ∧ findCase previous d.episodeRef = some d := by
  unfold isNews
  rw [Bool.or_eq_false_iff]
  split
  next old ho =>
    rw [ho]
    simp
  next hn =>
    rw [hn]
    simp

theorem mem_of_mem_draw {perSplit : ℕ} : ∀ {samples : List Sample} {taken : List ℕ},
    s ∈ draw perSplit taken samples → s ∈ samples
  | [], _, h => h
  | t :: samples, taken, h => by
    unfold draw at h
    split_ifs at h
    · exact List.mem_cons_of_mem _ (mem_of_mem_draw h)
    rcases List.mem_cons.1 h with rfl | h
    · exact List.mem_cons_self
    · exact List.mem_cons_of_mem _ (mem_of_mem_draw h)

theorem mem_of_mem_ordered {samples : List Sample} (h : s ∈ ordered (categories samples)) :
    s ∈ samples := by
  obtain ⟨index, -, h⟩ := List.mem_flatMap.1 h
  obtain ⟨category, hc, h⟩ := List.mem_filterMap.1 h
  obtain ⟨key, -, rfl⟩ := List.mem_map.1 hc
  exact (List.mem_filter.1 (List.mem_of_getElem? h)).1

theorem sample_spec (h : sample prims difficulty group = some s) :
    s.case ∈ group ∧ s.bucket = groupBucket prims group ∧ s.case.check.isSome := by
  unfold sample at h
  split_ifs at h
  split at h <;> cases h
  rename_i c hf
  have hc := List.find?_some hf
  rw [Bool.and_eq_true] at hc
  exact ⟨List.mem_of_find?_eq_some hf, rfl, hc.1⟩

variable {budget : ℕ} {suite : EvaluationSuite} {k : EvaluationCase}

section

variable (h : measuredTraceSuite prims cases budget difficulty = some suite) (hk : k ∈ suite.cases)
include h hk

theorem exists_sample : ∃ group ∈ caseGroups cases, ∃ s ∈ drawnSamples prims cases budget difficulty,
      sample prims difficulty group = some s ∧ s.toCase prims = some k := by
  obtain ⟨drawn, hd, h⟩ := Option.bind_eq_some_iff.1 h
  dsimp only at h
  split_ifs at h
  cases h
  obtain ⟨s, hs, hc⟩ := (Relational.mem_mapM hd).1 hk
  obtain ⟨group, hgrp, hsa⟩ := List.mem_filterMap.1 (mem_of_mem_ordered (mem_of_mem_draw hs))
  exact ⟨group, hgrp, s, hs, hsa, hc⟩

theorem mem_measuredTraceSuite : ∃ group ∈ caseGroups cases, ∃ c ∈ group, k.source = some c
      ∧ k.split = .ofBucket (groupBucket prims group) := by
  obtain ⟨group, hgrp, s, -, hs, hc⟩ := exists_sample h hk
  obtain ⟨hm, hb, -⟩ := sample_spec hs
  obtain ⟨check, -, rfl⟩ := Option.map_eq_some_iff.1 hc
  exact ⟨group, hgrp, s.case, hm, rfl, by rw [← hb]⟩

end

open Relational

variable {prims : DatasetPrims} {history history' : CaseHistory} {changes : List TraceCase}
  {c d : TraceCase} {e : String}

theorem Reading.distinct_foldl : ∀ (cases : List TraceCase) (r : Reading), Distinct r.latest →
    Distinct (cases.foldl (readCase prims) r).latest
  | [], _, h => h
  | c :: cases, r, h => by
    refine Reading.distinct_foldl cases _ ?_
    unfold readCase
    dsimp only
    split_ifs
    · exact h
    · exact h
    · exact h.insertCase c

theorem distinct_readTraceCases (prims : DatasetPrims) (hi : CaseHistory) :
    Distinct (readTraceCases prims hi) := Reading.distinct_foldl _ _ nodup_nil

theorem mem_byEpisode_read :
    c ∈ byEpisode (readTraceCases prims history) ↔ c ∈ readTraceCases prims history :=
  mem_byEpisode (distinct_readTraceCases prims history)

/-- What is read of an episode is its first version in the list. -/
theorem Reading.mem_foldl : ∀ (cases : List TraceCase) (r : Reading),
    c ∈ (cases.foldl (readCase prims) r).latest →
      c ∈ r.latest ∨ c.episodeRef ∉ r.seen ∧ findCase cases c.episodeRef = some c
  | [], _, h => .inl h
  | d :: cases, r, h => by
    rcases Reading.mem_foldl cases _ h with h | ⟨hs, hf⟩
    · unfold readCase at h
      dsimp only at h
      split_ifs at h with hs
      · exact .inl h
      · exact .inl h
      · rcases mem_insertCase.1 h with rfl | ⟨h, -⟩
        · exact .inr ⟨by simpa using hs, by simp [findCase]⟩
        · exact .inl h
    · have hke : d.episodeRef ≠ c.episodeRef ∧ c.episodeRef ∉ r.seen := by
        unfold readCase at hs
        dsimp only at hs
        split_ifs at hs with hd
        · exact ⟨fun heq => hs (heq ▸ by simpa using hd), hs⟩
        all_goals
          obtain ⟨hne, hs⟩ := not_or.1 (mt mem_cons.2 hs)
          exact ⟨Ne.symm hne, hs⟩
      refine .inr ⟨hke.2, ?_⟩
      rw [findCase, List.find?_cons_of_neg (by simpa using hke.1)]
      exact hf

theorem latestOf_of_mem_read (h : c ∈ readTraceCases prims history) :
    latestOf history c.episodeRef = some c := by
  rcases Reading.mem_foldl _ _ h with h | ⟨-, hf⟩
  · cases h
  unfold latestOf
  rw [← List.take_append_drop 100 history, List.flatten_append, findCase_append, hf]
  rfl

theorem latestOf_pushCases (row : List TraceCase) (hi : CaseHistory) (e : String) :
    latestOf (pushCases row hi) e = (findCase row e).or (latestOf hi e) := by
  unfold pushCases
  split_ifs with he
  · rw [List.isEmpty_iff.1 he]
    rfl
  · unfold latestOf
    rw [List.flatten_cons, findCase_append]

/-- The case is stored with an anchor in the training bucket. -/
def TraceCase.Trained (prims : DatasetPrims) (c : TraceCase) : Prop :=
  ∃ g, c.groupRef = some g ∧ prims.refBucket g = 0

theorem TraceCase.Trained.exists_ref (h : c.Trained prims) :
    ∃ r ∈ c.anchorRefs, prims.refBucket r = 0 := by
  obtain ⟨g, hg, hb⟩ := h
  exact ⟨g, by simp [TraceCase.anchorRefs, hg], hb⟩

theorem trained_of_group {group : List TraceCase} (hc : c ∈ group) (hd : d ∈ group)
    (href : ∃ r ∈ d.anchorRefs, prims.refBucket r = 0) :
    (withAnchor c (groupAnchor prims group)).Trained prims := by
  obtain ⟨r, hr, hb⟩ := href
  obtain ⟨g, hg, -, hle⟩ := groupAnchor_spec prims hc
  exact ⟨g, hg, Nat.le_zero.1 (hb ▸ Prod.Lex.monotone_fst _ _ (hle d hd r hr))⟩

def changedCorpus (prims : DatasetPrims) (history : CaseHistory) (changes : List TraceCase) :
    List TraceCase :=
  applyChanges (readTraceCases prims history) changes

theorem applied (prims : DatasetPrims) (hi : CaseHistory) (chgs : List TraceCase) :
    Applied (byEpisode (readTraceCases prims hi)) chgs (changedCorpus prims hi chgs) :=
  applied_applyChanges _ chgs

theorem exists_of_named (h : e ∈ episodes (readTraceCases prims history) ∨ e ∈ episodes changes) :
    ∃ d ∈ changedCorpus prims history changes, d.episodeRef = e := by
  have hn : ∃ d ∈ byEpisode (readTraceCases prims history) ++ changes, d.episodeRef = e := by
    rcases h with h | h <;> obtain ⟨d, hd, hde⟩ := mem_map.1 h
    · exact ⟨d, mem_append_left _ (mem_byEpisode_read.2 hd), hde⟩
    · exact ⟨d, mem_append_right _ hd, hde⟩
  obtain ⟨d, hd, hde⟩ := hn
  obtain ⟨d', hd', heq⟩ := (applied prims history changes).covers d hd
  exact ⟨d', hd', heq.trans hde⟩

/-- The case is what curation makes of a case of the changed corpus. -/
def Curated (prims : DatasetPrims) (history : CaseHistory) (changes : List TraceCase)
    (c : TraceCase) : Prop :=
  ∃ group ∈ caseGroups (changedCorpus prims history changes), ∃ b ∈ group,
    c = withAnchor b (groupAnchor prims group)

theorem latestOf_curate (hc : curate prims history changes = some history')
    (h : latestOf history' e = some c) : Curated prims history changes c ∧ c.episodeRef = e
      ∨ (∀ d ∈ changedCorpus prims history changes, d.episodeRef ≠ e)
        ∧ latestOf history e = some c := by
  cases hc
  rw [latestOf_pushCases] at h
  rcases hrow : findCase (curateChanges prims (readTraceCases prims history) changes) e with _ | b
  · rw [hrow] at h
    by_cases hi : ∃ d ∈ changedCorpus prims history changes, d.episodeRef = e
    · obtain ⟨d, hd, rfl⟩ := hi
      obtain ⟨group, hgrp, hm⟩ := (mem_caseGroups (applied prims history changes).distinct).2 hd
      refine .inl ⟨⟨group, hgrp, d, hm, ?_⟩, (mem_of_findCase h).2⟩
      have hn : isNews (readTraceCases prims history) changes
          (withAnchor d (groupAnchor prims group)) = false := by
        refine eq_false_iff.2 fun hn => ?_
        exact findCase_eq_none.1 hrow _ (mem_curateChanges.2 ⟨group, hgrp, d, hm, rfl, hn⟩) rfl
      have hr := latestOf_of_mem_read (mem_of_findCase (isNews_eq_false.1 hn).2).1
      exact Option.some.inj (h.symm.trans hr)
    · exact .inr ⟨fun d hd heq => hi ⟨d, hd, heq⟩, h⟩
  · rw [hrow] at h
    cases h
    obtain ⟨hb, hbe⟩ := mem_of_findCase hrow
    obtain ⟨group, hgrp, b', hb', rfl, -⟩ := mem_curateChanges.1 hb
    exact .inl ⟨⟨group, hgrp, b', hb', rfl⟩, hbe⟩

/-- Every stored case with a training reference has a training anchor, and the members of an
objective of the corpus have the same anchor. -/
structure Anchored (prims : DatasetPrims) (history : CaseHistory) : Prop where
  rooted : ∀ e c, latestOf history e = some c →
    (∃ r ∈ c.refs, prims.refBucket r = 0) → c.Trained prims
  shared : ∀ group ∈ caseGroups (readTraceCases prims history), Components.Shares (·.groupRef) group

theorem anchored_nil : Anchored prims [] := ⟨fun _ _ h => (nomatch h), fun _ h => (nomatch h)⟩

theorem Anchored.rooted_curated (h : Anchored prims history)
    (hkp : KeepsAnchors prims history changes) (hc : Curated prims history changes c)
    (href : ∃ r ∈ c.refs, prims.refBucket r = 0) : c.Trained prims := by
  obtain ⟨group, hgrp, b, hb, rfl⟩ := hc
  have ha := applied prims history changes
  obtain ⟨r, hr, hbkt⟩ := href
  rcases mem_append.1 hr with hr | hr
  · rcases mem_cons.1 hr with rfl | hr
    · exact trained_of_group hb hb ⟨_, mem_cons_self, hbkt⟩
    · exact ⟨r, by simpa using hr, hbkt⟩
  · rcases ha.mem b (mem_of_mem_caseGroups ha.distinct hgrp hb) with
      ⟨ho, -⟩ | ⟨change, hch, rfl⟩
    · have ht := h.rooted _ b (latestOf_of_mem_read (mem_byEpisode_read.1 ho))
        ⟨r, mem_append_right _ hr, hbkt⟩
      exact trained_of_group hb hb ht.exists_ref
    · obtain ⟨d, hd, rfl⟩ := exists_of_named (hkp.1 change hch r hr hbkt)
      have hm := mem_group_of_related ha.distinct hgrp hb hd
        (TraceCase.related_of_mem_relatedRefs hr)
      exact trained_of_group hb hm ⟨d.episodeRef, mem_cons_self, hbkt⟩

theorem curated_of_read (hkp : KeepsAnchors prims history changes)
    (hcu : curate prims history changes = some history')
    (hc : c ∈ readTraceCases prims history') : Curated prims history changes c := by
  rcases latestOf_curate hcu (latestOf_of_mem_read hc) with ⟨hcr, -⟩ | ⟨ho, -⟩
  · exact hcr
  cases hcu
  obtain ⟨d, hd, heq⟩ := exists_of_named (hkp.2.2 c hc)
  exact absurd heq (ho d hd)

theorem Curated.groupRef_eq (hc : Curated prims history changes c)
    (hd : Curated prims history changes d) (hrel : c.related d) : c.groupRef = d.groupRef := by
  obtain ⟨group, hgrp, b, hb, rfl⟩ := hc
  obtain ⟨group', hg', b', hb', rfl⟩ := hd
  rcases Bool.or_eq_true_iff.1 hrel with hs | hl
  · obtain ⟨r, hr, hr'⟩ := TraceCase.sameGroupRef_iff.1 hs
    exact hr.trans hr'.symm
  · have ha := applied prims history changes
    have hm : b' ∈ group := mem_group_of_related ha.distinct hgrp hb
      (mem_of_mem_caseGroups ha.distinct hg' hb') (Bool.or_eq_true_iff.2 (.inr hl))
    obtain rfl := caseGroups_unique ha.distinct hgrp hg' hm hb' rfl
    rfl

theorem Anchored.curate (h : Anchored prims history) (hkp : KeepsAnchors prims history changes)
    (hc : curate prims history changes = some history') : Anchored prims history' := by
  refine ⟨fun e c hl hr => ?_, fun group hgrp => ?_⟩
  · rcases latestOf_curate hc hl with ⟨hcu, -⟩ | ⟨-, ho⟩
    · exact h.rooted_curated hkp hcu hr
    · exact h.rooted e c ho hr
  · refine caseGroups_shares (distinct_readTraceCases prims history') (fun a ha b hb hrel => ?_) hgrp
    exact (curated_of_read hkp hc ha).groupRef_eq (curated_of_read hkp hc hb) hrel

def TrainedEpisode (prims : DatasetPrims) (history : CaseHistory) (e : String) : Prop :=
  ∃ c, latestOf history e = some c ∧ c.Trained prims

theorem Anchored.trained_of_exposed (h : Anchored prims history)
    (he : Exposed prims history e) : TrainedEpisode prims history e := by
  obtain ⟨group, hgrp, ⟨c, hc, rfl⟩, hb⟩ := he
  have hdi := distinct_readTraceCases prims history
  obtain ⟨d, hd, r, hr, hr0⟩ := exists_of_groupBucket prims hc
  have hl := latestOf_of_mem_read (mem_of_mem_caseGroups hdi hgrp hd)
  obtain ⟨g, hg, hg0⟩ := h.rooted _ d hl ⟨r, hr, hr0.trans hb⟩
  exact ⟨c, latestOf_of_mem_read (mem_of_mem_caseGroups hdi hgrp hc), g,
    (h.shared group hgrp c hc d hd).trans hg, hg0⟩

theorem TrainedEpisode.curate (h : TrainedEpisode prims history e)
    (hkp : KeepsAnchors prims history changes)
    (hcu : curate prims history changes = some history') : TrainedEpisode prims history' e := by
  obtain ⟨c, hc, ht⟩ := h
  obtain ⟨c', hc'⟩ : ∃ c', latestOf history' e = some c' := by
    cases hcu
    rw [latestOf_pushCases, hc]
    rcases findCase (curateChanges prims (readTraceCases prims history) changes) e with _ | b
    · exact ⟨c, rfl⟩
    · exact ⟨b, rfl⟩
  refine ⟨c', hc', ?_⟩
  rcases latestOf_curate hcu hc' with ⟨⟨group, hgrp, b, hb, rfl⟩, he⟩ | ⟨-, ho⟩
  · have happ := applied prims history changes
    have hbm := mem_of_mem_caseGroups happ.distinct hgrp hb
    have han : b.groupRef = storedAnchor (byEpisode (readTraceCases prims history)) e := by
      rw [← he]
      exact (storedAnchor_of_mem happ.distinct hbm).symm.trans (happ.anchors _)
    suffices b.Trained prims from trained_of_group hb hb this.exists_ref
    by_cases hi : ∃ a ∈ readTraceCases prims history, a.episodeRef = e
    · obtain ⟨a, ha, rfl⟩ := hi
      cases hc.symm.trans (latestOf_of_mem_read ha)
      rw [storedAnchor_of_mem (distinct_byEpisode _) (mem_byEpisode_read.2 ha)] at han
      obtain ⟨g, hg, hg0⟩ := ht
      exact ⟨g, han.trans hg, hg0⟩
    · rcases happ.mem b hbm with ⟨ho, -⟩ | ⟨change, hch, rfl⟩
      · exact absurd ⟨b, mem_byEpisode_read.1 ho, he⟩ hi
      · obtain ⟨g, hg, hg0⟩ := ht
        have hout : change.episodeRef ∉ episodes (readTraceCases prims history) := fun hm => by
          obtain ⟨a, ha, hae⟩ := mem_map.1 hm
          exact hi ⟨a, ha, hae.trans he⟩
        have hs := hkp.2.1 change hch hout
        rw [show change.episodeRef = e from he, hc, Option.bind_some, hg] at hs
        simp [hg0] at hs
  · cases hc.symm.trans ho
    exact ht

/-- An episode of a training objective never belongs to an objective that is held out, in the
corpora after any analyses that keep the anchors. -/
theorem exposed_never_held_out {start : CaseHistory} (hs : Anchored prims start)
    (hb : Steps (restrict (curate prims) (KeepsAnchors prims)) start history)
    (hex : Exposed prims history e)
    (ha : Steps (restrict (curate prims) (KeepsAnchors prims)) history history') :
    (∀ group ∈ caseGroups (readTraceCases prims history'), (∃ c ∈ group, c.episodeRef = e) →
      groupBucket prims group = 0) ∧ ¬ HeldOut prims history' e := by
  have han : Anchored prims history := hb.keeps Anchored.curate hs
  have ht : TrainedEpisode prims history' e := ha.keeps (I := (TrainedEpisode prims · e))
    (·.curate) (han.trained_of_exposed hex)
  have hbkt : ∀ group ∈ caseGroups (readTraceCases prims history'),
      (∃ c ∈ group, c.episodeRef = e) → groupBucket prims group = 0 := by
    rintro group hgrp ⟨c, hc, rfl⟩
    obtain ⟨d, hd, ht⟩ := ht
    have hm := mem_of_mem_caseGroups (distinct_readTraceCases prims history') hgrp hc
    cases hd.symm.trans (latestOf_of_mem_read hm)
    obtain ⟨r, hr, hr0⟩ := ht.exists_ref
    have hle := groupBucket_le prims hc (mem_append_left _ hr)
    omega
  refine ⟨hbkt, ?_⟩
  rintro ⟨budget, difficulty, suite, hsu, k, hk, hsp, source, hsrc, group, hgrp, hm, he⟩
  obtain ⟨group', hg', c, hc, hck, hks⟩ := mem_measuredTraceSuite hsu hk
  cases hsrc.symm.trans hck
  obtain rfl := caseGroups_unique (distinct_readTraceCases prims history') hgrp hg' hm hc rfl
  rw [hbkt group hgrp he] at hks
  exact hsp hks

/-- How many bytes `serde_json` writes for a character of a string. -/
def jsonCharSize (c : Char) : ℕ :=
  if c = '"' || c = '\\' || [8, 9, 10, 12, 13].contains c.toNat then 2
  else if c.toNat < 32 then 6
  else c.utf8Size

def jsonStringSize (s : String) : ℕ := 2 + (s.toList.map jsonCharSize).sum

def jsonListSize (sizes : List ℕ) : ℕ := 2 + sizes.sum + (sizes.length - 1)

def jsonObjectSize (fields : List (String × ℕ)) : ℕ :=
  jsonListSize (fields.map fun field => jsonStringSize field.1 + 1 + field.2)

def CaseClassification.jsonSize (c : CaseClassification) : ℕ :=
  jsonObjectSize [("task_type", jsonStringSize c.taskType),
    ("capability", jsonStringSize c.capability), ("structure", jsonStringSize c.structure_),
    ("outcome", jsonStringSize c.outcome),
    ("related_refs", jsonListSize (c.relatedRefs.map jsonStringSize))]

def TraceCase.jsonSize (prims : EvalPrims) (c : TraceCase) : ℕ :=
  jsonObjectSize ((c.variant.toList.map fun v => ("variant", jsonStringSize v))
    ++ (c.groupRef.toList.map fun r => ("group_ref", jsonStringSize r))
    ++ (c.classification.toList.map fun k => ("classification", k.jsonSize))
    ++ [("episode_ref", jsonStringSize c.episodeRef),
      ("evidence", jsonListSize (c.evidence.map jsonStringSize)),
      ("input", jsonStringSize c.input),
      ("check", (prims.serializeCheck c.check).utf8ByteSize),
      ("reason", jsonStringSize c.reason)])

/-- References of training start with `r`, of validation with `v`, of test with `t`. -/
def lettered : DatasetPrims where
  serializeCheck := fun _ => "null"
  firstByte := fun r => match r.toList with
    | 'v' :: _ => 1
    | 't' :: _ => 2
    | _ => 0
  hexDigest := id
  checkJson := fun _ => ""
  corpusJson := fun _ => ""
  caseSize := TraceCase.jsonSize ⟨fun _ => "null"⟩

def objective (episode : String) (relatedRefs : List String) : TraceCase where
  classification := some ⟨"coding", "reasoning", "single_step", "direct", relatedRefs⟩
  episodeRef := episode
  evidence := [episode]
  input := episode
  check := some (.exact "4")
  reason := "reviewed"

theorem exposed_never_held_out_unlinked :
    ∃ history history', Steps (restrict (curate lettered) (KeepsAnchors lettered)) [] history
      ∧ Exposed lettered history "v"
      ∧ Steps (restrict (curate lettered) (KeepsAnchors lettered)) history history'
      ∧ (∃ c ∈ readTraceCases lettered history', c.episodeRef = "v" ∧ c.relatedRefs = [])
      ∧ ¬ HeldOut lettered history' "v" := by
  have hrun : ((run (restrict (curate lettered) (KeepsAnchors lettered)) []
      [[objective "v" ["r"], objective "r" []]]).any fun history =>
        (∃ group ∈ caseGroups (readTraceCases lettered history),
          (∃ c ∈ group, c.episodeRef = "v") ∧ groupBucket lettered group = 0)
        ∧ ((run (restrict (curate lettered) (KeepsAnchors lettered)) history
          [[objective "v" []]]).any fun history' =>
            ∃ c ∈ readTraceCases lettered history', c.episodeRef = "v" ∧ c.relatedRefs = []))
      := by
    decide +kernel
  obtain ⟨history, hb, he, hr'⟩ := exists_steps_of_run hrun
  obtain ⟨history', ha, hr⟩ := exists_steps_of_run hr'
  exact ⟨history, history', hb, he, ha, hr, (exposed_never_held_out anchored_nil hb he ha).2⟩

/-- An episode of training falls out of the hundred revisions that are read.  When it is changed
again it gets a new anchor and is held out. -/
theorem exposed_held_out_later :
    ∃ history history', Steps (curate lettered) [] history ∧ Exposed lettered history "v"
      ∧ Steps (curate lettered) history history' ∧ HeldOut lettered history' "v" := by
  have hr : ((run (curate lettered) [] [[objective "v" ["r"], objective "r" []]]).any fun history =>
        (∃ group ∈ caseGroups (readTraceCases lettered history),
          (∃ c ∈ group, c.episodeRef = "v") ∧ groupBucket lettered group = 0)
        ∧ ((run (curate lettered) history (List.replicate 100 [objective "t" []]
            ++ [[objective "v" [], objective "rest" []]])).any fun history' =>
          ((measuredTraceSuite lettered (readTraceCases lettered history') 4 fun _ => none).any
            fun suite => ∃ k ∈ suite.cases, k.split ≠ .train ∧ (k.source.any fun source =>
              ∃ group ∈ caseGroups (readTraceCases lettered history'), source ∈ group
                ∧ ∃ c ∈ group, c.episodeRef = "v")) = true)) := by
    decide +kernel
  obtain ⟨history, hb, he, hr'⟩ := exists_steps_of_run hr
  obtain ⟨history', ha, hsu⟩ := exists_steps_of_run hr'
  obtain ⟨suite, hsu, hc⟩ := (Option.any_eq_true _ _).1 hsu
  obtain ⟨k, hk, hsp, hs⟩ := of_decide_eq_true hc
  obtain ⟨source, hs, hgrp⟩ := (Option.any_eq_true _ _).1 hs
  exact ⟨history, history', hb, he, ha, 4, _, suite, hsu, k, hk, hsp, source,
    hs, of_decide_eq_true hgrp⟩

end Choruz
