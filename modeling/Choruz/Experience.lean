import Choruz.Search
import Choruz.Dataset

/-!
# What an agent learns

One agent's learning policy, its revisions with the cases and the program trials they carry, and
the evaluations of revisions.  A report is saved in one transaction: its cases are curated, and
what was measured on cases that it changes is invalidated.

An evaluation is queued with the suite and the candidates as they are then.  Workers claim it case
by case, and what comes back is stored only while the token's lease, the policy's generation and
its active revision are still those of the evaluation.
-/

namespace Choruz

open Relational

inductive TrialStatus where
  | validated | evidenceChanged
  | other (status : String)
deriving DecidableEq

structure ProgramTrial where
  status : TrialStatus
  suite : EvaluationSuite

/-- What a revision's `validation` says; `team` is one whose review passed, `recurringProblem` that
the source is complete and a problem came back. -/
structure RevisionValidation where
  reviewPassed : Bool
  evaluationCases : Option (List TraceCase) := none
  programTrial : Option ProgramTrial := none
  team : Option Team := none
  recurringProblem : Bool := false
  evaluationId : Option String := none

inductive Disposition where
  | noChange | candidate | active | superseded | rejected
deriving DecidableEq

structure ExperienceRevision where
  id : String
  policyGeneration : ℕ
  (sourceDigest instruction : String)
  disposition : Disposition
  validation : RevisionValidation

structure ExperiencePolicy where
  enabled : Bool
  generation : ℕ := 1
  activeRevisionId : Option String := none
  activeDecisionRevisionId : Option String := none
  analystBindingId : String
  /-- `optimization_settings` has `auto_apply`. -/
  autoApply : Bool := false
  leaseToken : Option String := none
  leaseUntil : Option ℕ := none

inductive EvaluationStatus where
  | queued | running | completed | failed | cancelled
deriving DecidableEq

inductive ApplicationStatus where
  | notRequested | pending | noImprovement | reviewRejected | applied | failed | cancelled

structure CaseReport where
  ordinal : ℕ
  reviewPassed : Bool
  body : String

structure ExperienceEvaluation (F : Type) where
  (id revisionId : String)
  policyGeneration : ℕ
  suite : EvaluationSuite
  candidates : List EvaluationCandidate
  optimization : Option (Optimization F)
  (automatic autoApply : Bool)
  applicationStatus : ApplicationStatus
  status : EvaluationStatus := .queued
  nextCase : ℕ := 0
  results : List CaseReport := []
  leaseToken : Option String := none
  leaseUntil : Option ℕ := none
  finalReviewReserved : Bool := false
  errorCode : Option String := none
  appliedRevisionId : Option String := none

/-- `status IN ('queued','running')`. -/
def EvaluationStatus.isPending : EvaluationStatus → Bool
  | queued | running => true
  | _ => false

structure EvaluationClaim (F : Type) where
  finalReview : Bool
  (id token : String)
  suite : EvaluationSuite
  candidates : List EvaluationCandidate
  nextCase : ℕ
  optimization : Option (Optimization F)

/-- The policy an evaluation was queued under, or was applied under. -/
structure PolicyRecord where
  evaluationId : String
  generation : ℕ
  activeRevisionId : Option String

structure AppliedRecord (F : Type) where
  under : PolicyRecord
  suite : EvaluationSuite
  search : Optimization F

/-- The rows of one agent, and what its workers hold.  `claims` are all claims that were ever
returned, in order; `queuedUnder` records the policy at each queueing, and `applied` the policy, the
suite and the search at each application. -/
structure ExperienceWorld (F : Type) where
  policy : ExperiencePolicy
  revisions : List ExperienceRevision := []
  evaluations : Table (fun e : ExperienceEvaluation F => e.id) := .empty
  now : ℕ := 0
  claims : List (EvaluationClaim F) := []
  queuedUnder : List PolicyRecord := []
  applied : List (AppliedRecord F) := []

variable {F : Type}

namespace ExperiencePolicy

/-- `lease_token=$1 AND enabled AND lease_until>NOW()`. -/
def leasedBy (p : ExperiencePolicy) (token : String) (now : ℕ) : Bool :=
  p.leaseToken = some token && p.enabled && p.leaseUntil.any (now < ·)

end ExperiencePolicy

def EvaluationSuite.drawnFrom (suite : EvaluationSuite) (changed : List String) : Bool :=
  suite.cases.any fun c => c.source.any fun source => changed.contains source.episodeRef

namespace ExperienceWorld

variable (w : ExperienceWorld F)

def history : CaseHistory :=
  (w.revisions.filterMap (·.validation.evaluationCases)).filter (· ≠ [])

def activateRevision (revision : Option String) (invalidate : Bool) : ExperienceWorld F :=
  { w with
    revisions := w.revisions.map fun r =>
      if some r.id = revision then { r with disposition := .active }
      else if r.disposition = .active then { r with disposition := .superseded }
      else r
    policy := { w.policy with
      activeRevisionId := revision
      generation := w.policy.generation + if invalidate then 1 else 0
      leaseToken := if invalidate then none else w.policy.leaseToken
      leaseUntil := if invalidate then none else w.policy.leaseUntil } }

def invalidateTrial (id : String) (changed : List String) (r : ExperienceRevision) :
    ExperienceRevision :=
  match r.validation.programTrial with
  | some trial =>
    if r.id ≠ id && trial.status = .validated && trial.suite.drawnFrom changed then
      { r with validation := { r.validation with
        programTrial := some { trial with status := .evidenceChanged } } }
    else r
  | none => r

def cancelChanged (e : ExperienceEvaluation F) : ExperienceEvaluation F :=
  { e with
    status := .cancelled
    errorCode := some "case_evidence_changed"
    applicationStatus := if e.autoApply then .cancelled else e.applicationStatus
    leaseToken := none
    leaseUntil := none }

/-- Corrections invalidate what was measured on the episodes: trials of other revisions than `id`,
the selected program, and evaluations that are pending. -/
def invalidate (id : String) (changed : List String) : ExperienceWorld F :=
  let revisions := w.revisions.map (invalidateTrial id changed)
  { w with
    revisions
    policy := { w.policy with
      activeDecisionRevisionId :=
        if revisions.any fun r => some r.id = w.policy.activeDecisionRevisionId
            && r.validation.programTrial.any (·.status = .evidenceChanged) then none
        else w.policy.activeDecisionRevisionId }
    evaluations := w.evaluations.updateWhere
      (fun e => e.status.isPending && e.suite.drawnFrom changed) cancelChanged fun _ => rfl }

structure ExperienceReport where
  digest : String
  instruction : Option String
  validation : RevisionValidation
  activate : Bool

def reportRevision (report : ExperienceReport)
    (cases : Option (List TraceCase)) (id : String) : ExperienceRevision where
  id
  policyGeneration := w.policy.generation
  sourceDigest := report.digest
  instruction := report.instruction.getD ""
  disposition := if report.instruction.isSome then .candidate else .noChange
  validation := { report.validation with evaluationCases := cases }

/-- `UNIQUE (binding_id, policy_generation, source_digest)`. -/
def hasDigest (generation : ℕ) (digest : String) : Bool :=
  w.revisions.any fun r => r.policyGeneration = generation && r.sourceDigest = digest

/-- `save_experience_candidate` by the holder of a lease; `traceCases` is the claim's. -/
def saveExperienceCandidate (prims : DatasetPrims) (w : ExperienceWorld F) (token : String)
    (traceCases : Bool) (report : ExperienceReport) (id : String) : ExperienceWorld F :=
  if report.activate && (report.instruction.isNone || !report.validation.reviewPassed) then w
  else if !w.policy.leasedBy token w.now then w
  else
    let caseReport := traceCases || report.validation.evaluationCases.isSome
    let previous := if caseReport then readTraceCases prims w.history else []
    let cases := report.validation.evaluationCases.map (curateChanges prims previous)
    if w.hasDigest w.policy.generation report.digest then w
    else
      let inserted := { w with revisions := w.reportRevision report cases id :: w.revisions }
      let saved :=
        if caseReport then inserted.invalidate id
          (changedCaseContexts previous (readTraceCases prims inserted.history))
        else inserted
      if report.activate then saved.activateRevision (some id) false else saved

def minutes (n : ℕ) : ℕ := n * 60 * 1000000

def leasePolicy (token : String) : ExperienceWorld F :=
  if w.policy.enabled && w.policy.leaseUntil.all (· < w.now) then
    { w with policy := { w.policy with
      leaseToken := some token
      leaseUntil := some (w.now + minutes 15) } }
  else w

def releasePolicy (token : String) : ExperienceWorld F :=
  if w.policy.leaseToken = some token then
    { w with policy := { w.policy with leaseToken := none, leaseUntil := none } }
  else w

def reviewedRevision? (id : String) : Option ExperienceRevision :=
  w.revisions.find? fun r => r.id = id && r.validation.reviewPassed
    && (r.disposition = .candidate || r.disposition = .active || r.disposition = .superseded)

def selectExperienceRevision (revision : Option String)
    (leaseToken : Option String) : ExperienceWorld F :=
  if !leaseToken.all fun token => w.policy.leasedBy token w.now then w
  else if !revision.all fun id => (w.reviewedRevision? id).isSome then w
  else w.activateRevision revision leaseToken.isNone

/-- Every change of settings fences what is in flight. -/
def configure (enabled : Bool) (analyst : String) (autoApply : Bool)
    (decisionRevision : Option String) : ExperienceWorld F :=
  { w with policy := { w.policy with
    enabled
    analystBindingId := analyst
    autoApply
    activeDecisionRevisionId := decisionRevision
    generation := w.policy.generation + 1
    leaseToken := none
    leaseUntil := none } }

end ExperienceWorld

namespace ExperienceWorld

structure QueueRequest where
  revision : String
  suite : EvaluationSuite
  automaticGeneration : Option ℕ
  /-- The configuration of a search and its analyst. -/
  optimization : Option (OptimizationConfig × String)

def notReviewed : String := "Evaluation requires a reviewed revision from this Agent"

variable (w : ExperienceWorld F)

def candidateOf : Option String → Except String EvaluationCandidate
  | none => .ok { instruction := "" }
  | some id =>
    match w.reviewedRevision? id with
    | none => .error notReviewed
    | some r => .ok {
        revisionId := some id
        instruction := r.instruction
        team := r.validation.team }

def sourcesLatest (suite : EvaluationSuite) : Bool :=
  suite.cases.all fun c => c.source.all fun source =>
    latestOf w.history source.episodeRef = some source

def corpusCurrent (prims : DatasetPrims) (w : ExperienceWorld F) (request : QueueRequest) : Bool :=
  !(request.automaticGeneration.isSome && request.suite.cases.any (·.source.isSome))
    || request.suite.name = observedName prims (readTraceCases prims w.history)

/-- The search of a request; a team evolves only for a problem that came back or from a team. -/
def startSearch (prims : DatasetPrims) (w : ExperienceWorld F) (request : QueueRequest)
    (candidates : List EvaluationCandidate) : Except String (Option (Optimization F)) :=
  match request.optimization with
  | none => .ok none
  | some (config, analyst) =>
    if w.policy.analystBindingId ≠ analyst then .error "The selected analyst changed"
    else
      let recurring := (w.reviewedRevision? request.revision).any (·.validation.recurringProblem)
      let config := { config with
        evolveTeam := config.evolveTeam && (recurring || candidates.any (·.team.isSome)) }
      (Optimization.new request.suite prims.toEvalPrims config candidates).map some

/-- The unique indexes of evaluations that are pending and of automatic ones. -/
def alreadyPending (request : QueueRequest) : Bool :=
  w.evaluations.rows.any fun e => e.status.isPending
    || (request.automaticGeneration.isSome && e.automatic
      && e.policyGeneration = w.policy.generation && e.revisionId = request.revision)

def queueExperienceEvaluation (prims : DatasetPrims) (w : ExperienceWorld F)
    (request : QueueRequest) (id : String) : Except String (ExperienceWorld F) := do
  request.suite.validate prims.toEvalPrims
  if !w.policy.enabled then .error "Enabled learning policy not found"
  else if !corpusCurrent prims w request then .error "Dataset changed before queueing"
  else if !w.sourcesLatest request.suite then .error "Trace case evidence changed before queueing"
  else if !request.automaticGeneration.all (· = w.policy.generation) then
    .error "Learning settings changed before evaluation"
  else if w.policy.activeRevisionId = some request.revision then
    .error "Choose a candidate other than the active revision"
  else
    let baseline ← w.candidateOf w.policy.activeRevisionId
    let proposed ← w.candidateOf (some request.revision)
    let search ← startSearch prims w request [baseline, proposed]
    if w.alreadyPending request then .error "An evaluation is already pending for this Agent"
    else
      let autoApply := request.automaticGeneration.isSome && w.policy.autoApply
      match w.evaluations.insert? {
          id
          revisionId := request.revision
          policyGeneration := w.policy.generation
          suite := request.suite
          candidates := [baseline, proposed]
          optimization := search
          automatic := request.automaticGeneration.isSome
          autoApply
          applicationStatus := if autoApply then .pending else .notRequested } with
      | none => .error "An evaluation is already pending for this Agent"
      | some evaluations => .ok { w with
          evaluations
          queuedUnder := w.queuedUnder ++ [⟨id, w.policy.generation, w.policy.activeRevisionId⟩] }

def policyHolds (p : ExperiencePolicy) (e : ExperienceEvaluation F) : Bool :=
  p.enabled && p.generation = e.policyGeneration
    && p.activeRevisionId = e.candidates.head?.bind (·.revisionId)

variable (e : ExperienceEvaluation F)

def ended (status : EvaluationStatus)
    (applicationStatus : ApplicationStatus) (errorCode : String) : ExperienceEvaluation F :=
  { e with
    status
    applicationStatus := if e.autoApply then applicationStatus else e.applicationStatus
    errorCode := some errorCode
    leaseToken := none
    leaseUntil := none }

/-- The first statement of `claim_experience_evaluation`. -/
def cancelStale : ExperienceWorld F :=
  { w with
    evaluations := w.evaluations.updateWhere
      (fun e => e.status.isPending && !policyHolds w.policy e)
      (fun e => ended e .cancelled .cancelled "policy_changed") fun _ => rfl }

/-- The second: a lost lease is an uncertain model call and is not spent again. -/
def failInterrupted : ExperienceWorld F :=
  { w with
    evaluations := w.evaluations.updateWhere
      (fun e => e.status = .running && e.leaseUntil.any (· < w.now))
      (fun e => ended e .failed .failed "interrupted") fun _ => rfl }

def claimed (token : String) (now : ℕ) : ExperienceEvaluation F :=
  { e with
    status := .running
    leaseToken := some token
    leaseUntil := some (now + minutes 6) }

def claimOf (token : String) (finalReview : Bool)
    (search : Option (Optimization F)) : EvaluationClaim F where
  finalReview
  id := e.id
  token
  suite := e.suite
  candidates := e.candidates
  nextCase := e.nextCase
  optimization := search

def setEvaluation (e : ExperienceEvaluation F) : ExperienceWorld F :=
  { w with evaluations := w.evaluations.put e }

def handOut (claim : EvaluationClaim F) : ExperienceWorld F :=
  { w with claims := w.claims ++ [claim] }

/-- The third statement and what follows it, for a queued evaluation; `SKIP LOCKED` lets a worker
have any of them.  An error of the search rolls the claim back. -/
def claimExperienceEvaluation (ops : ScoreOps F) (w : ExperienceWorld F) (id token : String) :
    ExperienceWorld F :=
  match w.evaluations.lookup id with
  | none => w
  | some e =>
    if e.status ≠ .queued then w
    else
      let row := claimed e token w.now
      match e.optimization with
      | none => (w.setEvaluation row).handOut (claimOf e token false none)
      | some search =>
        match search.nextAction ops e.suite with
        | some (.action _, search) =>
          (w.setEvaluation { row with
            optimization := some search, finalReviewReserved := false }).handOut
            (claimOf e token false (some search))
        | some (.complete, search) =>
          if e.autoApply && search.canApply ops e.suite then
            let search := { search with modelCallsReserved := search.modelCallsReserved + 1 }
            (w.setEvaluation { row with
              optimization := some search, finalReviewReserved := true }).handOut
              (claimOf e token true (some search))
          else w.setEvaluation { row with
            optimization := some search
            status := .completed
            finalReviewReserved := false
            applicationStatus := if e.autoApply then .noImprovement else e.applicationStatus
            leaseToken := none
            leaseUntil := none }
        | _ => w

/-- The candidate and the case of a position: the candidates alternate on each case. -/
def pairAt (candidates position : ℕ) : ℕ × ℕ := (position % candidates, position / candidates)

def leaseHolds (claim : EvaluationClaim F) (e : ExperienceEvaluation F) : Bool :=
  e.id = claim.id && e.leaseToken = some claim.token && e.status = .running
    && e.leaseUntil.any (w.now < ·)

def finishedStatus (claim : EvaluationClaim F) (errorCode : Option String) : EvaluationStatus :=
  if errorCode.isSome then .failed
  else if claim.optimization.isNone
      && claim.nextCase + 1 = claim.suite.cases.length * claim.candidates.length then .completed
  else .queued

def withResult (claim : EvaluationClaim F) (report : CaseReport)
    (errorCode : Option String) : ExperienceEvaluation F :=
  { e with
    results := e.results ++ [report]
    nextCase := e.nextCase + 1
    status := finishedStatus claim errorCode
    applicationStatus :=
      if finishedStatus claim errorCode = .failed && e.autoApply then .failed
      else e.applicationStatus
    errorCode
    optimization := claim.optimization
    leaseToken := none
    leaseUntil := none }

def appliedRevision (seed : ExperienceRevision) (e : ExperienceEvaluation F)
    (winner : EvaluationCandidate) (id : String) : ExperienceRevision where
  id
  policyGeneration := e.policyGeneration
  sourceDigest := "evaluation:" ++ e.id
  instruction := winner.instruction
  disposition := .candidate
  validation := { seed.validation with evaluationId := some e.id, team := winner.team }

def reviewed (report : CaseReport) (applied : Option String) : ExperienceEvaluation F :=
  { e with
    status := .completed
    applicationStatus := if applied.isSome then .applied else .reviewRejected
    appliedRevisionId := applied
    results := e.results ++ [report]
    nextCase := e.nextCase + 1
    leaseToken := none
    leaseUntil := none }

def winnerOf (ops : ScoreOps F) (claim : EvaluationClaim F) :
    Option (Optimization F × EvaluationCandidate) := do
  let search ← claim.optimization
  if search.canApply ops claim.suite then
    let winner ← search.winner
    let individual ← search.candidates[winner]?
    return (search, individual.guidance)
  else none

/-- `finish_optimization_review`; an error leaves everything as it was. -/
def finishOptimizationReview (ops : ScoreOps F) (w : ExperienceWorld F)
    (claim : EvaluationClaim F) (report : CaseReport) (id : String) : ExperienceWorld F :=
  match winnerOf ops claim, w.evaluations.lookup claim.id with
  | some (search, winner), some e =>
    if w.leaseHolds claim e && e.finalReviewReserved && e.autoApply && policyHolds w.policy e then
      if report.reviewPassed then
        match w.revisions.find? (·.id = e.revisionId) with
        | none => w
        | some seed =>
          if w.hasDigest e.policyGeneration ("evaluation:" ++ e.id) then w
          else
            let inserted := { w with revisions := appliedRevision seed e winner id :: w.revisions }
            let activated := inserted.activateRevision (some id) true
            { activated.setEvaluation (reviewed e report (some id)) with
              applied := w.applied ++ [{
                under := ⟨e.id, w.policy.generation, w.policy.activeRevisionId⟩
                suite := claim.suite
                search }] }
      else w.setEvaluation (reviewed e report none)
    else w
  | _, _ => w

def finishExperienceEvaluationCase (ops : ScoreOps F) (w : ExperienceWorld F)
    (claim : EvaluationClaim F) (report : CaseReport) (errorCode : Option String) (id : String) :
    ExperienceWorld F :=
  if claim.finalReview && errorCode.isNone then
    finishOptimizationReview ops w claim report id
  else
    { w with
    evaluations := w.evaluations.updateWhere
        (fun e => w.leaseHolds claim e && policyHolds w.policy e)
        (fun e => withResult e claim report errorCode) fun _ => rfl }

/-- The claim as the worker hands it back: a step of a search has changed the search. -/
def workedOn (claim : EvaluationClaim F) (search : Optimization F) : EvaluationClaim F :=
  if claim.finalReview then claim
  else { claim with optimization := claim.optimization.map fun _ => search }

end ExperienceWorld

open ExperienceWorld

inductive ExperienceAction (F : Type) where
  | save (token : String) (traceCases : Bool) (report : ExperienceReport) (id : String)
  | lease (token : String)
  | release (token : String)
  | select (revision leaseToken : Option String)
  | configure (enabled : Bool) (analyst : String) (autoApply : Bool)
      (decisionRevision : Option String)
  | queue (request : QueueRequest) (id : String)
  | cancelStale | failInterrupted
  | claim (id token : String)
  | finish (i : ℕ) (search : Optimization F) (reviewPassed : Bool) (body : String)
      (errorCode : Option String) (id : String)
  | pass (time : ℕ)

namespace ExperienceWorld

def unusedId (w : ExperienceWorld F) (id : String) : Bool :=
  (w.revisions.all (·.id ≠ id)) && (w.evaluations.rows.all (·.id ≠ id))
    && (w.claims.all (·.token ≠ id))

def step (prims : DatasetPrims) (ops : ScoreOps F) (w : ExperienceWorld F) :
    ExperienceAction F → Option (ExperienceWorld F)
  | .save token traceCases report id =>
    if w.unusedId id then some (saveExperienceCandidate prims w token traceCases report id)
    else none
  | .lease token => some (w.leasePolicy token)
  | .release token => some (w.releasePolicy token)
  | .select revision leaseToken => some (w.selectExperienceRevision revision leaseToken)
  | .configure enabled analyst autoApply decisionRevision =>
    some (w.configure enabled analyst autoApply decisionRevision)
  | .queue request id =>
    if w.unusedId id then
      match queueExperienceEvaluation prims w request id with
      | .ok w' => some w'
      | .error _ => some w
    else none
  | .cancelStale => some w.cancelStale
  | .failInterrupted => some w.failInterrupted
  | .claim id token =>
    if w.unusedId token then some (claimExperienceEvaluation ops w id token) else none
  | .finish i search reviewPassed body errorCode id =>
    match w.claims[i]? with
    | none => none
    | some claim =>
      if w.unusedId id then
        some (finishExperienceEvaluationCase ops w (workedOn claim search)
          ⟨claim.nextCase, reviewPassed, body⟩ errorCode id)
      else none
  | .pass time => some { w with now := w.now + time }

end ExperienceWorld

end Choruz
