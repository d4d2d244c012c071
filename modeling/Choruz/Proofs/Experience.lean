import Choruz.Experience
import Choruz.Pipeline
import Choruz.Proofs.TraceCases

/-!
# What each call does to evaluations, trials and stored cases

Saving a report and applying a winner add a revision with cases; no other call touches them.  An
evaluation that is pending was pending before, with the same suite, or has just been queued.
-/

namespace Choruz

open Relational

variable {F : Type} {prims : DatasetPrims} {ops : ScoreOps F} {w w' : ExperienceWorld F}

namespace ExperienceWorld

def trials (w : ExperienceWorld F) : List ProgramTrial :=
  w.revisions.filterMap (·.validation.programTrial)

theorem filterMap_map_validation {β : Type} (f : RevisionValidation → Option β)
    {g : ExperienceRevision → ExperienceRevision} (h : ∀ r, f (g r).validation = f r.validation)
    (revisions : List ExperienceRevision) : (revisions.map g).filterMap (fun r => f r.validation)
      = revisions.filterMap fun r => f r.validation := by
  rw [List.filterMap_map]
  exact List.filterMap_congr fun r _ => h r

theorem activateRevision_validation (w : ExperienceWorld F) (revision : Option String)
    (invalidate : Bool) {β : Type} (f : RevisionValidation → Option β) :
    (w.activateRevision revision invalidate).revisions.filterMap (fun r => f r.validation)
      = w.revisions.filterMap fun r => f r.validation := by
  refine filterMap_map_validation f (fun r => ?_) w.revisions
  split_ifs <;> rfl

theorem history_activateRevision (w : ExperienceWorld F) (revision : Option String)
    (invalidate : Bool) : (w.activateRevision revision invalidate).history = w.history :=
  congrArg (List.filter _) (activateRevision_validation w revision invalidate (·.evaluationCases))

theorem trials_activateRevision (w : ExperienceWorld F) (revision : Option String)
    (invalidate : Bool) : (w.activateRevision revision invalidate).trials = w.trials :=
  activateRevision_validation w revision invalidate (·.programTrial)

theorem history_invalidate (w : ExperienceWorld F) (id : String) (changed : List String) :
    (w.invalidate id changed).history = w.history := by
  refine congrArg (List.filter _) (filterMap_map_validation (·.evaluationCases) (fun r => ?_) _)
  unfold invalidateTrial
  split
  · split_ifs <;> rfl
  · rfl

variable {id : String} {claim : EvaluationClaim F}

theorem mem_trials_invalidate {changed : List String} {trial : ProgramTrial}
    (h : trial ∈ (w.invalidate id changed).trials) (hv : trial.status = .validated) :
    ∃ r ∈ w.revisions, r.validation.programTrial = some trial
      ∧ (r.id = id ∨ trial.suite.drawnFrom changed = false) := by
  obtain ⟨r', hr', ht⟩ := mem_filterMap.1 h
  obtain ⟨r, hr, rfl⟩ := mem_map.1 hr'
  refine ⟨r, hr, ?_⟩
  unfold invalidateTrial at ht
  split at ht
  next old ho =>
    split_ifs at ht with hc
    · cases ht
      cases hv
    · cases ho.symm.trans ht
      refine ⟨ho, ?_⟩
      simp only [hv, decide_true, Bool.and_true, and_eq_true, decide_eq_true_eq, not_and] at hc
      by_cases hid : r.id = id
      · exact .inl hid
      · exact .inr (eq_false_iff.2 (hc hid))
  next hn =>
    cases hn.symm.trans ht

theorem history_cons (w : ExperienceWorld F) (r : ExperienceRevision) :
    history { w with revisions := r :: w.revisions }
      = pushCases (r.validation.evaluationCases.getD []) w.history := by
  unfold history pushCases
  rcases hc : r.validation.evaluationCases with _ | _ | ⟨c, row⟩ <;> simp [hc]

/-- Every pending evaluation of `w'` is a pending evaluation of `w` with its suite. -/
def PendingFrom (w w' : ExperienceWorld F) : Prop :=
  ∀ e' ∈ w'.evaluations, e'.status.isPending →
    ∃ e ∈ w.evaluations, e.status.isPending ∧ e.suite = e'.suite

theorem PendingFrom.refl (w : ExperienceWorld F) : PendingFrom w w := fun e he hp => ⟨e, he, hp, rfl⟩

theorem pendingFrom_updateWhere {p : ExperienceEvaluation F → Bool}
    {f : ExperienceEvaluation F → ExperienceEvaluation F} {hf : ∀ e, (f e).id = e.id}
    (hpe : ∀ e, p e → (f e).status.isPending → e.status.isPending)
    (hs : ∀ e, (f e).suite = e.suite) :
    PendingFrom w { w with evaluations := w.evaluations.updateWhere p f hf } := by
  intro e' he' hp'
  obtain ⟨e, he, ⟨hp, rfl⟩ | ⟨-, rfl⟩⟩ := source_of_mem_updateWhere hf he'
  · exact ⟨e, he, hpe e hp hp', (hs e).symm⟩
  · exact ⟨_, he, hp', rfl⟩

theorem pendingFrom_setEvaluation {e e' : ExperienceEvaluation F}
    (he : w.evaluations.lookup id = some e) (hp : e.status.isPending)
    (hs : e.suite = e'.suite) : PendingFrom w (w.setEvaluation e') := by
  intro b hb hpb
  rcases mem_put hb with rfl | ⟨hb, -⟩
  · exact ⟨e, mem_of_lookup he, hp, hs⟩
  · exact ⟨b, hb, hpb, rfl⟩

def handedRow (e : ExperienceEvaluation F) (token : String) (now : ℕ)
    (search : Option (Optimization F)) (reserved : Bool) : ExperienceEvaluation F :=
  { claimed e token now with optimization := search, finalReviewReserved := reserved }

def searchedRow (e : ExperienceEvaluation F) (token : String) (now : ℕ)
    (search : Optimization F) : ExperienceEvaluation F :=
  { claimed e token now with
    optimization := some search
    status := .completed
    finalReviewReserved := false
    applicationStatus := if e.autoApply then .noImprovement else e.applicationStatus
    leaseToken := none
    leaseUntil := none }

/-- A claim leaves everything, or hands out a queued evaluation, or ends its search. -/
theorem claim_cases (ops : ScoreOps F) (w : ExperienceWorld F) (id token : String) :
    claimExperienceEvaluation ops w id token = w
      ∨ ∃ e, w.evaluations.lookup id = some e ∧ e.status = .queued
        ∧ ((∃ search review reserved, search.isSome = e.optimization.isSome
            ∧ (reserved = e.finalReviewReserved ∨ search.isSome)
            ∧ claimExperienceEvaluation ops w id token =
              (w.setEvaluation (handedRow e token w.now search reserved)).handOut
                (claimOf e token review search))
          ∨ ∃ search, e.optimization.isSome ∧ claimExperienceEvaluation ops w id token =
              w.setEvaluation (searchedRow e token w.now search)) := by
  unfold claimExperienceEvaluation
  rcases he : w.evaluations.lookup id with _ | e <;> dsimp only
  · exact .inl rfl
  · by_cases hq : e.status = .queued
    · rw [if_neg (not_not.2 hq)]
      rcases hs : e.optimization with _ | search <;> dsimp only
      · refine .inr ⟨e, rfl, hq, .inl ⟨none, false, e.finalReviewReserved, ?_, .inl rfl, ?_⟩⟩
        · rw [hs]
        · rw [← hs]
          rfl
      · rcases hn : search.nextAction ops e.suite with _ | ⟨reply, search'⟩
        · exact .inl rfl
        · cases reply with
          | action a =>
            exact .inr ⟨e, rfl, hq, .inl ⟨some search', false, false, by rw [hs]; rfl,
              .inr rfl, rfl⟩⟩
          | complete =>
            dsimp only
            split
            · exact .inr ⟨e, rfl, hq, .inl ⟨some _, true, true, by rw [hs]; rfl, .inr rfl, rfl⟩⟩
            · exact .inr ⟨e, rfl, hq, .inr ⟨search', by rw [hs]; rfl, rfl⟩⟩
          | error text | panicked => exact .inl rfl
    · rw [if_pos hq]
      exact .inl rfl

def appliedWorld (w : ExperienceWorld F) (claim : EvaluationClaim F)
    (e : ExperienceEvaluation F) (seed : ExperienceRevision) (search : Optimization F)
    (winner : EvaluationCandidate) (report : CaseReport) (id : String) : ExperienceWorld F :=
  { (activateRevision { w with revisions := appliedRevision seed e winner id :: w.revisions }
      (some id) true).setEvaluation (reviewed e report (some id)) with
    applied := w.applied ++ [{
      under := ⟨e.id, w.policy.generation, w.policy.activeRevisionId⟩
      suite := claim.suite
      search }] }

theorem winnerOf_spec {search : Optimization F}
    {winner : EvaluationCandidate} (h : winnerOf ops claim = some (search, winner)) :
    claim.optimization = some search ∧ search.canApply ops claim.suite := by
  obtain ⟨s, hs, h⟩ := bind_eq_some_iff.1 h
  split_ifs at h with ha
  obtain ⟨i, -, h⟩ := bind_eq_some_iff.1 h
  obtain ⟨individual, -, h⟩ := bind_eq_some_iff.1 h
  cases h
  exact ⟨hs, ha⟩

/-- The final review leaves everything, or rejects, or applies the winner under the policy that the
evaluation was queued under. -/
theorem review_cases (ops : ScoreOps F) (w : ExperienceWorld F) (claim : EvaluationClaim F)
    (rep : CaseReport) (id : String) : finishOptimizationReview ops w claim rep id = w
      ∨ ∃ e, w.evaluations.lookup claim.id = some e ∧ w.leaseHolds claim e
        ∧ e.finalReviewReserved ∧ policyHolds w.policy e
        ∧ (finishOptimizationReview ops w claim rep id = w.setEvaluation (reviewed e rep none)
          ∨ ∃ seed search winner, w.revisions.find? (·.id = e.revisionId) = some seed
            ∧ winnerOf ops claim = some (search, winner)
            ∧ finishOptimizationReview ops w claim rep id
              = appliedWorld w claim e seed search winner rep id) := by
  unfold finishOptimizationReview
  split
  next search winner e hw he =>
    by_cases hv : (w.leaseHolds claim e && e.finalReviewReserved && e.autoApply
        && policyHolds w.policy e)
    · rw [if_pos hv]
      simp at hv
      obtain ⟨⟨⟨hl, hr⟩, -⟩, hpo⟩ := hv
      by_cases hp : rep.reviewPassed
      · rw [if_pos hp]
        split
        · exact .inl rfl
        rename_i seed hs
        split_ifs
        · exact .inl rfl
        · exact .inr ⟨e, he, hl, hr, hpo, .inr ⟨seed, search, winner, hs, hw, rfl⟩⟩
      · rw [if_neg hp]
        exact .inr ⟨e, he, hl, hr, hpo, .inl rfl⟩
    · rw [if_neg hv]
      exact .inl rfl
  · exact .inl rfl

theorem running_of_leaseHolds {e : ExperienceEvaluation F} (h : w.leaseHolds claim e) :
    e.id = claim.id ∧ e.leaseToken = some claim.token ∧ e.status = .running := by
  simp [leaseHolds] at h
  exact ⟨h.1.1.1, h.1.1.2, h.1.2⟩

theorem pendingFrom_claim (ops : ScoreOps F) (w : ExperienceWorld F) (id token : String) :
    PendingFrom w (claimExperienceEvaluation ops w id token) := by
  rcases claim_cases ops w id token with h |
    ⟨e, he, hq, ⟨search, review, reserved, -, -, h⟩ | ⟨search, -, h⟩⟩ <;> rw [h]
  · exact .refl w
  all_goals exact pendingFrom_setEvaluation he (by rw [hq]; rfl) rfl

theorem pendingFrom_finish (ops : ScoreOps F) (w : ExperienceWorld F) (claim : EvaluationClaim F)
    (rep : CaseReport) (errorCode : Option String) (id : String) :
    PendingFrom w (finishExperienceEvaluationCase ops w claim rep errorCode id) := by
  unfold finishExperienceEvaluationCase
  split_ifs
  · rcases review_cases ops w claim rep id with h |
      ⟨e, he, hl, -, -, h | ⟨seed, search, winner, -, -, h⟩⟩ <;> rw [h]
    · exact .refl w
    all_goals
      refine pendingFrom_setEvaluation he ?_ rfl
      rw [(running_of_leaseHolds hl).2.2]
      rfl
  · refine pendingFrom_updateWhere (fun e he _ => ?_) fun _ => rfl
    rw [(running_of_leaseHolds (and_eq_true_iff.1 he).1).2.2]
    rfl

structure QueuedRow (w : ExperienceWorld F) (request : QueueRequest) (id : String)
    (e : ExperienceEvaluation F) : Prop where
  id : e.id = id
  suite : e.suite = request.suite
  generation : e.policyGeneration = w.policy.generation
  baseline : e.candidates.head?.bind (·.revisionId) = w.policy.activeRevisionId
  status : e.status = .queued
  nextCase : e.nextCase = 0
  results : e.results = []
  reserved : e.finalReviewReserved = false

theorem candidateOf_revisionId {revision : Option String} {c : EvaluationCandidate}
    (h : w.candidateOf revision = .ok c) : c.revisionId = revision := by
  unfold candidateOf at h
  split at h
  · cases h
    rfl
  · split at h <;> cases h
    rfl

theorem queue_cases {req : QueueRequest} (h : queueExperienceEvaluation prims w req id = .ok w') :
    w.sourcesLatest req.suite
      ∧ ∃ e evaluations, QueuedRow w req id e ∧ w.evaluations.insert? e = some evaluations
        ∧ w' = { w with
          evaluations
          queuedUnder :=
            w.queuedUnder ++ [⟨id, w.policy.generation, w.policy.activeRevisionId⟩] } := by
  obtain ⟨-, -, h⟩ := bind_eq_ok.1 h
  split_ifs at h with he hc hs hg ha hp
  all_goals
    obtain ⟨baseline, hb, h⟩ := bind_eq_ok.1 h
    obtain ⟨proposed, -, h⟩ := bind_eq_ok.1 h
    obtain ⟨search, -, h⟩ := bind_eq_ok.1 h
  · cases h
  · dsimp only at h
    split at h
    · cases h
    rename_i evaluations hi
    cases h
    refine ⟨by simpa using hs, _, evaluations, ?_, hi, rfl⟩
    exact ⟨rfl, rfl, rfl, candidateOf_revisionId hb, rfl, rfl, rfl, rfl⟩

def withReport (prims : DatasetPrims) (w : ExperienceWorld F) (report : ExperienceReport)
    (id : String) : ExperienceWorld F :=
  { w with revisions := w.reportRevision report (report.validation.evaluationCases.map
      (curateChanges prims (readTraceCases prims w.history))) id :: w.revisions }

def changedBy (prims : DatasetPrims) (w : ExperienceWorld F) (report : ExperienceReport)
    (id : String) : List String :=
  changedCaseContexts (readTraceCases prims w.history)
    (readTraceCases prims (withReport prims w report id).history)

/-- The save is by the holder of the lease, and its report is new and may do what it asks for. -/
def acceptsReport (w : ExperienceWorld F) (token : String) (report : ExperienceReport) : Bool :=
  !(report.activate && (report.instruction.isNone || !report.validation.reviewPassed))
    && w.policy.leasedBy token w.now && !w.hasDigest w.policy.generation report.digest

/-- A save leaves everything, or it is accepted and stores the report's revision and, where it is
about cases, invalidates what was measured on changed ones. -/
theorem save_cases (prims : DatasetPrims) (w : ExperienceWorld F) (token : String)
    (traceCases : Bool) (rep : ExperienceReport) (id : String) :
    saveExperienceCandidate prims w token traceCases rep id = w
      ∨ w.acceptsReport token rep ∧ ∃ saved,
        (saveExperienceCandidate prims w token traceCases rep id = saved
          ∨ saveExperienceCandidate prims w token traceCases rep id
            = saved.activateRevision (some id) false)
        ∧ (saved = (withReport prims w rep id).invalidate id (changedBy prims w rep id)
          ∨ rep.validation.evaluationCases = none ∧ saved = withReport prims w rep id) := by
  unfold saveExperienceCandidate
  by_cases hr : (rep.activate && (rep.instruction.isNone || !rep.validation.reviewPassed))
  · exact .inl (if_pos hr)
  rw [if_neg hr]
  by_cases hl : (!w.policy.leasedBy token w.now)
  · exact .inl (if_pos hl)
  rw [if_neg hl]
  by_cases hd : w.hasDigest w.policy.generation rep.digest
  · exact .inl (if_pos hd)
  have ha : w.acceptsReport token rep := by
    simp only [Bool.not_eq_true, Bool.not_eq_false'] at hr hl hd
    simp [acceptsReport, hr, hl, hd]
  refine .inr ⟨ha, ?_⟩
  by_cases hc : (traceCases || rep.validation.evaluationCases.isSome)
  · refine ⟨_, ?_, .inl rfl⟩
    simp only
    split_ifs
    · exact .inr rfl
    · exact .inl rfl
  · rw [Bool.not_eq_true, Bool.or_eq_false_iff] at hc
    have hn : rep.validation.evaluationCases = none := by simpa using hc.2
    refine ⟨_, ?_, .inr ⟨hn, rfl⟩⟩
    simp [hc.1, hn, withReport]
    split_ifs
    · exact .inr rfl
    · exact .inl rfl

end ExperienceWorld

end Choruz
