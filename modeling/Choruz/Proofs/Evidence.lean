import Choruz.Proofs.Experience
import Choruz.Proofs.Search

/-!
# Pending evaluations and validated trials are on the newest evidence

Queueing compares with all that is stored, while a save invalidates by the difference of two bounded
corpora.  So the evidence stays the newest as long as every case that a save changes is in the
corpus read before the save or in the one read after it.
-/

namespace Choruz

open Relational Optimization

variable {F : Type} {prims : DatasetPrims} {ops : ScoreOps F} {w w' : ExperienceWorld F}
  {history history' : CaseHistory} {e : String} {c : TraceCase}

theorem exists_contextOf {cases : List TraceCase} (h : Distinct cases)
    (hc : c ∈ cases) : ∃ group ∈ caseGroups cases, c ∈ group
      ∧ contextOf cases c.episodeRef = some group := by
  obtain ⟨group, hg, hm⟩ := (mem_caseGroups h).2 hc
  refine ⟨group, hg, hm, ?_⟩
  rcases hf : contextOf cases c.episodeRef with _ | group'
  · have hn := find?_eq_none.1 hf group hg
    exact absurd (any_eq_true.2 ⟨c, hm, decide_eq_true rfl⟩) hn
  · unfold contextOf at hf
    have ha := find?_some hf
    obtain ⟨d, hd, hde⟩ := any_eq_true.1 ha
    rw [caseGroups_unique h hg (mem_of_find?_eq_some hf) hm hd (of_decide_eq_true hde).symm]

/-- What is read with the same context in two corpora is the same version of the episode. -/
theorem latestOf_eq_of_contextOf_eq (hco : contextOf (readTraceCases prims history) e
      = contextOf (readTraceCases prims history') e)
    (hr : e ∈ episodes (readTraceCases prims history)) :
    latestOf history e = latestOf history' e := by
  obtain ⟨c, hc, rfl⟩ := mem_map.1 hr
  obtain ⟨group, -, hm, hf⟩ := exists_contextOf (distinct_readTraceCases prims history) hc
  have hg' := mem_of_find?_eq_some (hco ▸ hf)
  have hc' := mem_of_mem_caseGroups (distinct_readTraceCases prims history') hg' hm
  rw [latestOf_of_mem_read hc, latestOf_of_mem_read hc']

theorem mem_changedCaseContexts (hr : e ∈ episodes (readTraceCases prims history)
      ∨ e ∈ episodes (readTraceCases prims history'))
    (hne : latestOf history e ≠ latestOf history' e) :
    e ∈ changedCaseContexts (readTraceCases prims history) (readTraceCases prims history') := by
  refine mem_filter.2 ⟨?_, decide_eq_true fun hc => hne ?_⟩
  · rw [List.mem_insertionSort, List.mem_dedup, map_append]
    exact mem_append.2 hr
  · rcases hr with hr | hr
    · exact latestOf_eq_of_contextOf_eq hc hr
    · exact (latestOf_eq_of_contextOf_eq hc.symm hr).symm

section

variable {β : Type} [DecidableEq β] (view : TraceCase → β)

/-- The view of each case that is drawn from a trace is that of the newest version. -/
def sourcesSeen (history : CaseHistory) (suite : EvaluationSuite) : Bool :=
  suite.cases.all fun c => c.source.all fun source =>
    (latestOf history source.episodeRef).map view = some (view source)

namespace ExperienceWorld

/-- What a save stores for a report. -/
def storedCases (prims : DatasetPrims) (w : ExperienceWorld F) (report : ExperienceReport) :
    List TraceCase :=
  (report.validation.evaluationCases.map
    (curateChanges prims (readTraceCases prims w.history))).getD []

/-- Each case that an accepted save changes is in the corpus before or after it, and a validated
trial comes with the cases it was validated on; a final review hands on no case that has changed
since. -/
def sighted (prims : DatasetPrims) (w : ExperienceWorld F) : ExperienceAction F → Bool
  | .save token _ report _ =>
    let stored := w.storedCases prims report
    let after := pushCases stored w.history
    !w.acceptsReport token report
      || (stored.all fun c => latestOf w.history c.episodeRef = some c
          || (episodes (readTraceCases prims w.history)).contains c.episodeRef
          || (episodes (readTraceCases prims after)).contains c.episodeRef)
        && report.validation.programTrial.all fun trial =>
          trial.status ≠ .validated || sourcesSeen view after trial.suite
  | .finish i _ _ _ _ _ =>
    w.claims[i]?.all fun claim => (w.evaluations.lookup claim.id).all fun e =>
      (w.revisions.find? (·.id = e.revisionId)).all fun seed => !claim.finalReview
        || (seed.validation.evaluationCases.getD []).all fun c =>
          latestOf w.history c.episodeRef = some c
  | _ => true

/-- Every pending evaluation and every validated trial is on the newest version of its cases. -/
structure FreshEvidence (w : ExperienceWorld F) : Prop where
  pending : ∀ e ∈ w.evaluations, e.status.isPending → sourcesSeen id w.history e.suite
  trials : ∀ trial ∈ w.trials, trial.status = .validated →
    sourcesSeen view w.history trial.suite

variable {view}

variable {suite : EvaluationSuite} {token id : String} {traceCases : Bool}
  {report : ExperienceReport}

theorem sourcesSeen_iff : sourcesSeen view history suite ↔
    ∀ c ∈ suite.cases, ∀ src, c.source = some src →
      (latestOf history src.episodeRef).map view = some (view src) := by
  unfold sourcesSeen
  simp [Option.all_eq_true]

theorem sourcesSeen_of_latestOf_eq (h : sourcesSeen view history suite)
    (heq : ∀ c ∈ suite.cases, ∀ src, c.source = some src →
      latestOf history' src.episodeRef = latestOf history src.episodeRef) :
    sourcesSeen view history' suite := by
  refine sourcesSeen_iff.2 fun c hc src hs => ?_
  rw [heq c hc src hs]
  exact sourcesSeen_iff.1 h c hc src hs

theorem not_mem_of_drawnFrom {changed : List String} (h : suite.drawnFrom changed = false)
    {c : EvaluationCase} (hc : c ∈ suite.cases) {src : TraceCase}
    (hs : c.source = some src) : src.episodeRef ∉ changed := by
  intro hm
  have hd : suite.drawnFrom changed := any_eq_true.2 ⟨c, hc, by simpa [hs] using hm⟩
  cases h.symm.trans hd

theorem FreshEvidence.frame (h : FreshEvidence view w)
    (hh : ∀ e, latestOf w'.history e = latestOf w.history e) (hpe : PendingFrom w w')
    (ht : ∀ trial ∈ w'.trials, trial ∈ w.trials) : FreshEvidence view w' := by
  refine ⟨fun e he hp => ?_, fun trial htr hv => ?_⟩
  · obtain ⟨e0, he0, hp0, hs⟩ := hpe e he hp
    exact sourcesSeen_of_latestOf_eq (hs ▸ h.pending e0 he0 hp0) fun _ _ _ _ => hh _
  · exact sourcesSeen_of_latestOf_eq (h.trials trial (ht trial htr) hv) fun _ _ _ _ => hh _

theorem FreshEvidence.activate (h : FreshEvidence view w) (revision : Option String)
    (invalidate : Bool) : FreshEvidence view (w.activateRevision revision invalidate) :=
  h.frame (fun _ => by rw [history_activateRevision]) (.refl w)
    fun _ ht => by rwa [trials_activateRevision] at ht

theorem history_withReport (prims : DatasetPrims) (w : ExperienceWorld F)
    (rep : ExperienceReport) (id : String) : (withReport prims w rep id).history
      = pushCases (w.storedCases prims rep) w.history := history_cons w _

/-- The save reports every episode whose newest version it changes. -/
def Reported (prims : DatasetPrims) (w : ExperienceWorld F) (report : ExperienceReport) (id : String) :
    Prop :=
  ∀ c ∈ w.storedCases prims report, latestOf w.history c.episodeRef = some c
    ∨ c.episodeRef ∈ episodes (readTraceCases prims w.history)
    ∨ c.episodeRef ∈ episodes (readTraceCases prims (withReport prims w report id).history)

/-- An episode that a sighted save does not report has the newest version it had. -/
theorem latestOf_withReport (hsi : Reported prims w report id)
    (hu : e ∉ changedBy prims w report id) :
    latestOf (withReport prims w report id).history e = latestOf w.history e := by
  by_contra hne
  have hl := latestOf_pushCases (w.storedCases prims report) w.history e
  rw [← history_withReport prims w report id] at hl
  rcases hf : findCase (w.storedCases prims report) e with _ | c
  · exact hne (by rw [hl, hf, Option.none_or])
  obtain ⟨hc, rfl⟩ := mem_of_findCase hf
  rw [hf] at hl
  rcases hsi c hc with hs | hr
  · exact hne (hl.trans hs.symm)
  · exact hu (mem_changedCaseContexts hr (Ne.symm hne))

theorem FreshEvidence.invalidated (h : FreshEvidence view w) (hid : ∀ r ∈ w.revisions, r.id ≠ id)
    (hs : Reported prims w report id)
    (ht : ∀ trial, report.validation.programTrial = some trial → trial.status = .validated →
      sourcesSeen view (withReport prims w report id).history trial.suite) :
    FreshEvidence view ((withReport prims w report id).invalidate id
      (changedBy prims w report id)) := by
  have hk : ∀ {suite : EvaluationSuite}, suite.drawnFrom (changedBy prims w report id) = false →
      ∀ c ∈ suite.cases, ∀ src, c.source = some src →
        latestOf (withReport prims w report id).history src.episodeRef
          = latestOf w.history src.episodeRef := fun hd c hc src hsrc =>
      latestOf_withReport hs (not_mem_of_drawnFrom hd hc hsrc)
  refine ⟨fun e he hp => ?_, fun trial hm hv => ?_⟩
  · rw [history_invalidate]
    obtain ⟨e0, he0, ⟨-, rfl⟩ | ⟨hn, rfl⟩⟩ :=
      source_of_mem_updateWhere (f := cancelChanged) (fun _ => rfl) he
    · cases hp
    · rw [hp] at hn
      exact sourcesSeen_of_latestOf_eq (h.pending _ he0 hp) (hk hn)
  · rw [history_invalidate]
    obtain ⟨r, hr, hrt, hw⟩ := mem_trials_invalidate hm hv
    rcases mem_cons.1 hr with rfl | hr
    · exact ht trial hrt hv
    have hd := hw.resolve_left (hid r hr)
    have ho := h.trials trial (mem_filterMap.2 ⟨r, hr, hrt⟩) hv
    exact sourcesSeen_of_latestOf_eq ho (hk hd)

theorem sighted_save (h : sighted view prims w (.save token traceCases report id))
    (ha : w.acceptsReport token report) : Reported prims w report id ∧
      ∀ trial, report.validation.programTrial = some trial → trial.status = .validated →
        sourcesSeen view (withReport prims w report id).history trial.suite := by
  simp [sighted, ha, ← history_withReport prims w report id, Option.all_eq_true, or_assoc] at h
  exact ⟨h.1, fun trial ht hv => (h.2 trial ht).resolve_left (not_not.2 hv)⟩

theorem FreshEvidence.save (h : FreshEvidence view w) (hid : ∀ r ∈ w.revisions, r.id ≠ id)
    (hsi : sighted view prims w (.save token traceCases report id)) :
    FreshEvidence view (saveExperienceCandidate prims w token traceCases report id) := by
  rcases save_cases prims w token traceCases report id with hsa | ⟨ha, saved, hs, hsv⟩
  · rwa [hsa]
  suffices FreshEvidence view saved by
    rcases hs with hs | hs <;> rw [hs]
    · exact this
    · exact this.activate (some id) false
  obtain ⟨hc, ht⟩ := sighted_save hsi ha
  rcases hsv with rfl | ⟨hn, rfl⟩
  · exact h.invalidated hid hc ht
  · have hsa : (withReport prims w report id).history = w.history := by
      rw [history_withReport, storedCases, hn]
      rfl
    refine ⟨fun e he hp => hsa ▸ h.pending e he hp, fun trial hm hv => ?_⟩
    obtain ⟨r, hr, hrt⟩ := mem_filterMap.1 hm
    rcases mem_cons.1 hr with rfl | hr
    · exact ht trial hrt hv
    · exact hsa ▸ h.trials trial (mem_filterMap.2 ⟨r, hr, hrt⟩) hv

theorem FreshEvidence.queue (h : FreshEvidence view w) {req : QueueRequest}
    (hq : queueExperienceEvaluation prims w req id = .ok w') : FreshEvidence view w' := by
  obtain ⟨hs, e, evaluations, hr, hi, rfl⟩ := queue_cases hq
  refine ⟨fun b hb hp => ?_, h.trials⟩
  rcases (mem_insert? hi).1 hb with hb | rfl
  · exact h.pending b hb hp
  rw [hr.suite]
  refine sourcesSeen_iff.2 fun c hc src hsrc => ?_
  have hl := all_eq_true.1 hs c hc
  rw [hsrc, all_some, decide_eq_true_eq] at hl
  exact congrArg (Option.map _) hl

theorem latestOf_pushCases_of_latest {row : List TraceCase}
    (h : ∀ c ∈ row, latestOf history c.episodeRef = some c) (e : String) :
    latestOf (pushCases row history) e = latestOf history e := by
  rw [latestOf_pushCases]
  rcases hf : findCase row e with _ | c
  · rfl
  · obtain ⟨hc, rfl⟩ := mem_of_findCase hf
    exact (h c hc).symm

theorem FreshEvidence.finish (h : FreshEvidence view w) {claim : EvaluationClaim F}
    {rep : CaseReport} {errorCode : Option String}
    (hs : claim.finalReview → ∀ e, w.evaluations.lookup claim.id = some e →
      ∀ seed, w.revisions.find? (·.id = e.revisionId) = some seed →
        ∀ c ∈ seed.validation.evaluationCases.getD [], latestOf w.history c.episodeRef = some c) :
    FreshEvidence view (finishExperienceEvaluationCase ops w claim rep errorCode id) := by
  have hp := pendingFrom_finish ops w claim rep errorCode id
  unfold finishExperienceEvaluationCase at hp ⊢
  by_cases hre : (claim.finalReview && errorCode.isNone)
  · rw [if_pos hre] at hp ⊢
    rcases review_cases ops w claim rep id with heq |
      ⟨e, he, -, -, -, heq | ⟨seed, search, winner, hf, -, heq⟩⟩ <;> rw [heq] at hp ⊢
    · exact h
    · exact h.frame (fun _ => rfl) hp fun _ ht => ht
    · have hh : (appliedWorld w claim e seed search winner rep id).history
          = pushCases (seed.validation.evaluationCases.getD []) w.history :=
        (history_activateRevision _ _ true).trans (history_cons w _)
      refine h.frame (fun e' => ?_) hp fun trial htr => ?_
      · rw [hh]
        exact latestOf_pushCases_of_latest (hs (and_eq_true_iff.1 hre).1 e he seed hf) e'
      · have hti : (appliedWorld w claim e seed search winner rep id).trials
            = (appliedRevision seed e winner id :: w.revisions).filterMap
              (·.validation.programTrial) := trials_activateRevision _ _ true
        rw [hti] at htr
        obtain ⟨r, hr, hrt⟩ := mem_filterMap.1 htr
        rcases mem_cons.1 hr with rfl | hr
        · exact mem_filterMap.2 ⟨seed, mem_of_find?_eq_some hf, hrt⟩
        · exact mem_filterMap.2 ⟨r, hr, hrt⟩
  · rw [if_neg hre] at hp ⊢
    exact h.frame (fun _ => rfl) hp fun _ ht => ht

theorem FreshEvidence.preserved (h : FreshEvidence view w) {a : ExperienceAction F}
    (hsi : sighted view prims w a) (hs : step prims ops w a = some w') :
    FreshEvidence view w' := by
  cases a with simp only [step] at hs
  | save token traceCases report id =>
    split_ifs at hs with hid
    cases hs
    refine h.save (fun r hr => ?_) hsi
    simp only [unusedId, and_eq_true, all_eq_true, decide_eq_true_eq] at hid
    exact hid.1.1 r hr
  | lease token =>
    cases hs
    unfold leasePolicy
    split_ifs
    · exact h.frame (fun _ => rfl) (.refl w) fun _ ht => ht
    · exact h
  | release token =>
    cases hs
    unfold releasePolicy
    split_ifs
    · exact h.frame (fun _ => rfl) (.refl w) fun _ ht => ht
    · exact h
  | select revision leaseToken =>
    cases hs
    unfold selectExperienceRevision
    split_ifs
    · exact h
    · exact h
    · exact h.activate revision _
  | configure enabled analyst autoApply decisionRevision | pass time =>
    cases hs
    exact h.frame (fun _ => rfl) (.refl w) fun _ ht => ht
  | queue request id =>
    split_ifs at hs
    split at hs <;> cases hs
    next hq => exact h.queue hq
    · exact h
  | cancelStale | failInterrupted =>
    cases hs
    exact h.frame (fun _ => rfl) (pendingFrom_updateWhere (fun _ _ hp => nomatch hp) fun _ => rfl)
      fun _ ht => ht
  | claim id token =>
    split_ifs at hs
    cases hs
    have hpe := pendingFrom_claim ops w id token
    rcases claim_cases ops w id token with heq |
      ⟨e, -, -, ⟨search, review, reserved, -, -, heq⟩ | ⟨search, -, heq⟩⟩ <;> rw [heq] at hpe ⊢
    · exact h
    all_goals exact h.frame (fun _ => rfl) hpe fun _ ht => ht
  | finish i search reviewPassed body errorCode id =>
    split at hs
    · cases hs
    rename_i claim hc
    split_ifs at hs
    cases hs
    refine h.finish fun hre e he seed hse => ?_
    unfold workedOn at hre he
    split_ifs at hre he with hf
    · simp only [sighted, hc, all_some, he, hse, hf, Bool.not_true,
        Bool.false_or, all_eq_true, decide_eq_true_eq] at hsi
      exact hsi
    · exact absurd hre hf

/-- Whenever every change is sighted, a queued or running evaluation has the newest stored version
of each case it draws from a trace, and a validated trial was validated on it, as far as the view
goes. -/
theorem evidence_never_superseded {w0 : ExperienceWorld F} (hs : FreshEvidence view w0)
    (hrun : Steps (restrict (step prims ops) fun w a => sighted view prims w a) w0 w) :
    (∀ e ∈ w.evaluations, e.status.isPending → ∀ c ∈ e.suite.cases, ∀ source,
        c.source = some source → latestOf w.history source.episodeRef = some source)
      ∧ ∀ r ∈ w.revisions, ∀ trial, r.validation.programTrial = some trial →
        trial.status = .validated → ∀ c ∈ trial.suite.cases, ∀ source, c.source = some source →
          (latestOf w.history source.episodeRef).map view = some (view source) := by
  have h : FreshEvidence view w := hrun.keeps (·.preserved) hs
  refine ⟨fun e he hp c hc source hsrc => ?_, fun r hr trial ht hv => ?_⟩
  · simpa using sourcesSeen_iff.1 (h.pending e he hp) c hc source hsrc
  · exact sourcesSeen_iff.1 (h.trials trial (mem_filterMap.2 ⟨r, hr, ht⟩) hv)

end ExperienceWorld

end

namespace ExperienceWorld

def newAgent : ExperienceWorld ℕ where
  policy := {
    enabled := true
    analystBindingId := "analyst"
    leaseToken := some "lease"
    leaseUntil := some 1 }

def reportOf (digest : String) (cases : List TraceCase) : ExperienceReport where
  digest
  instruction := some "Answer with a number."
  validation := { reviewPassed := true, evaluationCases := some cases }
  activate := false

def suiteOn (source : TraceCase) : EvaluationSuite where
  name := "Three tasks"
  cases := [
    { source := some source, id := "1", split := .train, input := source.input
      check := .exact "4" },
    { id := "2", split := .validation, input := "1 + 2", check := .exact "3" },
    { id := "3", split := .test, input := "1 + 1", check := .exact "2" }]

def requestOn (source : TraceCase) : QueueRequest where
  revision := "r1"
  suite := suiteOn source
  automaticGeneration := none
  optimization := none

theorem evidence_never_superseded_running : ∃ w, Steps (restrict (step lettered percent)
        fun w a => sighted id lettered w a) newAgent w ∧ (∃ e ∈ w.evaluations, e.status = .running
        ∧ ∃ c ∈ e.suite.cases, c.source = some (withAnchor (objective "v" []) (some "v")))
      ∧ latestOf w.history "v" = some (withAnchor (objective "v" []) (some "v")) := by
  have hrun : ((run (restrict (step lettered percent) fun w a => sighted id lettered w a) newAgent
        [.save "lease" false (reportOf "d1" [objective "v" [], objective "t" []]) "r1",
          .queue (requestOn (withAnchor (objective "v" []) (some "v"))) "e1", .claim "e1" "t1",
          .save "lease" false (reportOf "d2" [{ objective "t" [] with
            check := some (.exact "5") }]) "r2"]).any fun w => ∃ e ∈ w.evaluations, e.status = .running
        ∧ ∃ c ∈ e.suite.cases, c.source = some (withAnchor (objective "v" []) (some "v"))) := by
    decide +kernel
  obtain ⟨w, hsts, e, he, hr, c, hc, hs⟩ := exists_steps_of_run hrun
  have hf : FreshEvidence id newAgent :=
    ⟨fun e he => absurd he (not_mem_empty e), fun _ h => nomatch h⟩
  have hl := (evidence_never_superseded hf hsts).1 e he (by rw [hr]; rfl) c hc _ hs
  exact ⟨w, hsts, ⟨e, he, hr, c, hc, hs⟩, hl⟩

variable {v : String}

theorem caseSize_variant (hv : c.variant = some v) : lettered.caseSize c + 2
      = lettered.caseSize { c with variant := some "" } + jsonStringSize v := by
  have he : jsonStringSize "" = 2 := rfl
  simp [lettered, TraceCase.jsonSize, hv, jsonObjectSize, jsonListSize, he]
  omega

theorem readTraceCases_of_large
    (h : ∀ c ∈ history.flatten, 48 * 1024 < prims.caseSize c) :
    readTraceCases prims history = [] := by
  suffices ∀ (cases : List TraceCase) (r : Reading),
      (∀ c ∈ cases, 48 * 1024 < prims.caseSize c) → r.latest = [] →
      (cases.foldl (readCase prims) r).latest = [] from
    this _ _ (fun c hc => h c ((List.take_sublist 100 history).flatten.subset hc)) rfl
  intro cases
  induction cases with
  | nil => exact fun _ _ hr => hr
  | cons c cases ih =>
    intro r hl hr
    refine ih _ (fun d hd => hl d (mem_cons_of_mem _ hd)) ?_
    have hsize := hl c mem_cons_self
    unfold readCase
    dsimp only
    split_ifs with hs hb
    · exact hr
    · exact hr
    · simp at hb
      omega

def answered (v answer : String) : TraceCase :=
  { objective "v" [] with variant := some v, check := some (.exact answer) }

def paraphrased (v answer : String) : TraceCase := withAnchor (answered v answer) (some "v")

def pendingRow (v : String) : ExperienceEvaluation ℕ where
  id := "e1"
  revisionId := "r1"
  policyGeneration := 1
  suite := suiteOn (paraphrased v "4")
  candidates := [{ instruction := "" },
    { revisionId := some "r1", instruction := "Answer with a number." }]
  optimization := none
  automatic := false
  autoApply := false
  applicationStatus := .notRequested

def pendingAgent (v : String) : ExperienceWorld ℕ where
  policy := newAgent.policy
  revisions := [newAgent.reportRevision (reportOf "d1" []) (some [paraphrased v "4"]) "r1"]
  evaluations := ⟨[pendingRow v], List.nodup_singleton _⟩
  queuedUnder := [⟨"e1", 1, none⟩]

section

variable (htrim : trim v ≠ "") (hsize : v.utf8ByteSize ≤ 16000)
include htrim hsize

theorem validate_paraphrased : (paraphrased v "4").validate lettered.toEvalPrims = .ok () := by
  have hv : ((some v).all fun v => trim v ≠ "" && v.utf8ByteSize ≤ 16000) := by
    simp [htrim, hsize]
  have hs : (paraphrased v "4").validate lettered.toEvalPrims
      = (paraphrased "x" "4").validate lettered.toEvalPrims := by
    unfold TraceCase.validate
    simp only [paraphrased, answered, withAnchor, hv]
    rfl
  rw [hs]
  decide +kernel

theorem validate_suiteOn : (suiteOn (paraphrased v "4")).validate lettered.toEvalPrims = .ok () := by
  have hx : (paraphrased "x" "4").validate lettered.toEvalPrims = .ok () := by decide +kernel
  have hs : (suiteOn (paraphrased v "4")).validate lettered.toEvalPrims
      = (suiteOn (paraphrased "x" "4")).validate lettered.toEvalPrims := by
    simp [EvaluationSuite.validate, suiteOn, EvaluationSuite.validateCases,
      EvaluationCase.validate, validate_paraphrased htrim hsize]
    rfl
  rw [hs]
  decide +kernel

theorem queue_paraphrased :
    queueExperienceEvaluation lettered { newAgent with revisions := (pendingAgent v).revisions }
      (requestOn (paraphrased v "4")) "e1" = .ok (pendingAgent v) := by
  have hs : sourcesLatest { newAgent with revisions := (pendingAgent v).revisions }
      (suiteOn (paraphrased v "4")) := by
    simp [sourcesLatest, suiteOn]
    rfl
  unfold queueExperienceEvaluation
  simp [requestOn, validate_suiteOn htrim hsize, hs]
  rfl

end

theorem correct_paraphrased (hl : 48 * 1024 < lettered.caseSize (paraphrased v "4"))
    (hl' : 48 * 1024 < lettered.caseSize (paraphrased v "5")) :
    ∃ w, saveExperienceCandidate lettered (pendingAgent v) "lease" false
        (reportOf "d2" [answered v "5"]) "r2" = w
      ∧ latestOf w.history "v" = some (paraphrased v "5") ∧ pendingRow v ∈ w.evaluations := by
  have hb : readTraceCases lettered (pendingAgent v).history = [] := by
    refine readTraceCases_of_large fun c hc => ?_
    rw [mem_singleton.1 (show c ∈ [paraphrased v "4"] from hc)]
    exact hl
  have hstd : (pendingAgent v).storedCases lettered (reportOf "d2" [answered v "5"])
      = [paraphrased v "5"] := by
    unfold storedCases
    rw [hb]
    rfl
  have hh : (withReport lettered (pendingAgent v) (reportOf "d2" [answered v "5"])
      "r2").history = [[paraphrased v "5"], [paraphrased v "4"]] := by
    rw [history_withReport, hstd]
    rfl
  have ha : readTraceCases lettered [[paraphrased v "5"], [paraphrased v "4"]] = [] := by
    refine readTraceCases_of_large fun c hc => ?_
    rcases mem_cons.1 (show c ∈ [paraphrased v "5", paraphrased v "4"] from hc) with rfl | hc
    · exact hl'
    · rw [mem_singleton.1 hc]
      exact hl
  have hch : changedBy lettered (pendingAgent v) (reportOf "d2" [answered v "5"]) "r2" = [] := by
    rw [changedBy, hh, hb, ha]
    rfl
  have hs : saveExperienceCandidate lettered (pendingAgent v) "lease" false
      (reportOf "d2" [answered v "5"]) "r2"
        = (withReport lettered (pendingAgent v) (reportOf "d2" [answered v "5"]) "r2").invalidate
          "r2" (changedBy lettered (pendingAgent v) (reportOf "d2" [answered v "5"]) "r2") := rfl
  rw [hch] at hs
  refine ⟨_, hs, ?_, mem_singleton.2 rfl⟩
  rw [history_invalidate, hh]
  rfl

theorem utf8ByteSize_replicate (c : Char) (n : ℕ) :
    (String.ofList (List.replicate n c)).utf8ByteSize = n * c.utf8Size := by
  induction n with
  | zero => rw [Nat.zero_mul]; rfl
  | succ n ih =>
    rw [List.replicate_succ', String.ofList_append, String.utf8ByteSize_append, ih, Nat.succ_mul]
    simp

/-- A correction of a case that only its anchor takes over the bound, so that it is outside the
corpus before and after, leaves a queued evaluation on the superseded answer.  A report takes the
case, alone in its list. -/
theorem correction_outside_corpus_missed : ∃ (w : ExperienceWorld ℕ) (v : String),
      Steps (step lettered percent) newAgent w
        ∧ (∃ e ∈ w.evaluations, e.status = .queued
          ∧ ∃ c ∈ e.suite.cases, c.source = some (paraphrased v "4"))
        ∧ latestOf w.history "v" = some (paraphrased v "5")
        ∧ ∀ answer ∈ ["4", "5"], lettered.caseSize (answered v answer) + 2 ≤ 48 * 1024 := by
  obtain ⟨v, hv, htrim, hsize⟩ : ∃ v : String, jsonStringSize v = 2 + 8154 * 6 ∧ trim v ≠ ""
      ∧ v.utf8ByteSize ≤ 16000 := by
    refine ⟨String.ofList (List.replicate 8154 '\x01'), ?_, fun htrim => ?_, ?_⟩
    · rw [jsonStringSize, String.toList_ofList, List.map_replicate, List.sum_replicate]
      decide
    · have hm : '\x01' ∈ (String.ofList (List.replicate 8154 '\x01')).toList := by
        rw [String.toList_ofList]
        exact List.mem_replicate.2 ⟨by decide, rfl⟩
      exact absurd (trim_eq_empty.1 htrim _ hm) (by decide)
    · rw [utf8ByteSize_replicate]
      decide
  have hp : ∀ answer ∈ ["4", "5"], lettered.caseSize (paraphrased "" answer) = 238
      ∧ lettered.caseSize (answered "" answer) = 222 := by
    decide +kernel
  have hl : ∀ answer ∈ ["4", "5"], lettered.caseSize (paraphrased v answer) = 238 + 8154 * 6 := by
    intro answer ha
    have hs : lettered.caseSize (paraphrased v answer) + 2
        = lettered.caseSize (paraphrased "" answer) + jsonStringSize v := caseSize_variant rfl
    rw [(hp answer ha).1, hv] at hs
    omega
  obtain ⟨w, hs, hla, hr⟩ := correct_paraphrased (v := v) (by rw [hl "4" (by simp)]; decide)
    (by rw [hl "5" (by simp)]; decide)
  refine ⟨w, v, ?_, ⟨pendingRow v, hr, rfl, _, mem_cons_self, rfl⟩, hla, fun answer ha => ?_⟩
  · have hf : step lettered percent newAgent
        (.save "lease" false (reportOf "d1" [answered v "4"]) "r1")
          = some { newAgent with revisions := (pendingAgent v).revisions } := rfl
    have hse : step lettered percent { newAgent with revisions := (pendingAgent v).revisions }
        (.queue (requestOn (paraphrased v "4")) "e1") = some (pendingAgent v) := by
      simp [step, queue_paraphrased htrim hsize]
      rfl
    have ht : step lettered percent (pendingAgent v)
        (.save "lease" false (reportOf "d2" [answered v "5"]) "r2") = some w := congrArg some hs
    exact (((Steps.refl newAgent).tail hf).tail hse).tail ht
  · have hs : lettered.caseSize (answered v answer) + 2
        = lettered.caseSize (answered "" answer) + jsonStringSize v := caseSize_variant rfl
    rw [(hp answer ha).2, hv] at hs
    omega

end ExperienceWorld

end Choruz
