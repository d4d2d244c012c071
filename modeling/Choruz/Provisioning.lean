import Choruz.Steps
import Mathlib.Data.List.Dedup

/-!
# Group provisioning jobs

A job creates the agents of a launch plan, a group, its members and a kickoff message.  Runners take
a lease on the job's row and advance it step by step: they call the API, then write the whole state
computed from the row they read, under the lease's token.  A lease may run out during a call.
-/

namespace Choruz

open Relational

inductive JobStatus where
  | validating | creatingAgents | creatingGroup | addingMembers | postingKickoff | completed
  | completedWithWarning | partialFailure | failedValidation | failed | rolledBack | canceled
deriving DecidableEq

namespace JobStatus

/-- `TERMINAL_GROUP_PROVISIONING_JOB_STATUSES`. -/
def terminal (s : JobStatus) : Bool := s = .completed || s = .rolledBack || s = .canceled

/-- `GROUP_PROVISIONING_STATUS_TRANSITIONS`. -/
def transitions : JobStatus → List JobStatus
  | .validating => [.creatingAgents, .failedValidation, .canceled]
  | .creatingAgents => [.creatingGroup, .partialFailure, .failed, .rolledBack, .canceled]
  | .creatingGroup => [.addingMembers, .partialFailure, .failed, .rolledBack, .canceled]
  | .addingMembers => [.postingKickoff, .partialFailure, .failed, .rolledBack, .canceled]
  | .postingKickoff => [.completed, .completedWithWarning, .failed, .canceled]
  | .completed => []
  | .completedWithWarning => [.postingKickoff]
  | .partialFailure => [.validating, .creatingAgents, .creatingGroup, .addingMembers,
      .postingKickoff, .failed, .rolledBack, .canceled]
  | .failedValidation => [.validating, .canceled]
  | .failed => [.validating, .creatingAgents, .creatingGroup, .addingMembers, .postingKickoff,
      .rolledBack, .canceled]
  | .rolledBack => []
  | .canceled => []

def allows (current next : JobStatus) : Bool := current = next || current.transitions.contains next

end JobStatus

inductive RoleAction where
  | create (agentName : String) (webhook : Bool)
  | reuse (existingAgentId : String) (displayName : Option String)
  | skip
deriving DecidableEq

structure RolePlan where
  slotId : String
  action : RoleAction
deriving DecidableEq

/-- The plan's roles; the template says which slots are optional. -/
structure LaunchPlan where
  groupName : String
  rolePlans : List RolePlan
  optionalSlots : List String := []
deriving DecidableEq

inductive MemberOutcome where
  | added | failed | skipped
deriving DecidableEq

inductive CleanupOutcome where
  | noneNeeded | softDeleted | failed
deriving DecidableEq

inductive StepResult where
  | createdAgent (slot agentId agentName : String)
  | reusedAgent (slot agentId agentName : String)
  | skippedOptionalRole (slot : String)
  | createdGroup (group name : String)
  | memberAdd (slot agentId : String) (outcome : MemberOutcome)
  | routingPolicyUpdate (group : String)
  | kickoffPost (group : String) (posted : Bool)
  | cleanup (outcome : CleanupOutcome) (softDeleted preserved : List String)
  | residualAssets (group : Option String) (generated reused : List String)
deriving DecidableEq

inductive IssueCode where
  | validation | requiredAgentCreationFailed | optionalAgentCreationFailed | groupCreationFailed
  | requiredMemberAddFailed | optionalMemberAddFailed | routingPolicyFailed | kickoffPostFailed
  | softDeleteFailed
deriving DecidableEq

structure ProvisioningIssue where
  code : IssueCode
  isError : Bool := true
  roleSlotId : Option String := none
deriving DecidableEq

/-- `AgentProvisioningStepName`. -/
inductive AgentStep where
  | createPrincipal | persistToken | createWorkspace | writeInstructions | copySkills
  | installOutboxHelper | createDirectConversation | createRuntimeBinding | registerWebhook
  | storeRoleTemplateProvenance
deriving DecidableEq

/-- The output of a step, of which only an agent is read again. -/
structure AgentStepRecord where
  slot : String
  step : AgentStep
  agent : Option (String × String)
deriving DecidableEq

/-- `ProvisioningStepState`; the recorded steps are a map by slot and step. -/
structure StepState where
  results : List StepResult := []
  issues : List ProvisioningIssue := []
  agentSteps : List AgentStepRecord := []
deriving DecidableEq

structure JobRow where
  companyId : String
  status : JobStatus := .validating
  plan : LaunchPlan
  state : StepState := {}
  createdAgentIds : List String := []
  createdGroupId : Option String := none
  leaseToken : Option String := none
  leaseUntil : ℕ := 0
  createdAt : ℕ

namespace StepResult

def createdAgentId? : StepResult → Option String
  | .createdAgent _ id _ => some id
  | _ => none

def reusedAgentId? : StepResult → Option String
  | .reusedAgent _ id _ => some id
  | _ => none

def roleSlot? : StepResult → Option String
  | .createdAgent slot _ _ => some slot
  | .reusedAgent slot _ _ => some slot
  | .skippedOptionalRole slot => some slot
  | _ => none

def group? : StepResult → Option String
  | .createdGroup group _ => some group
  | _ => none

def member? : StepResult → Option (String × String)
  | .createdAgent slot id _ => some (slot, id)
  | .reusedAgent slot id _ => some (slot, id)
  | _ => none

def isRouting : StepResult → Bool
  | .routingPolicyUpdate _ => true
  | _ => false

def kickoff? : StepResult → Option Bool
  | .kickoffPost _ posted => some posted
  | _ => none

def isCleanup : StepResult → Bool
  | .cleanup .. => true
  | _ => false

def settles (slot : String) : StepResult → Bool
  | .memberAdd s _ outcome => s = slot && outcome ≠ .failed
  | _ => false

end StepResult

variable (results : List StepResult)

def createdAgentIdsFromResults : List String :=
  results.filterMap (·.createdAgentId?)

def reusedAgentIdsFromResults : List String :=
  results.filterMap (·.reusedAgentId?)

def hasRoleResult (slot : String) : Bool :=
  results.any (·.roleSlot? = some slot)

def hasMemberAddResult (slot : String) : Bool :=
  results.any (·.settles slot)

def memberAgentResults : List (String × String) :=
  results.filterMap (·.member?)

/-- `agentIdsFromStepOutput` over the recorded steps. -/
def agentIdsFromSteps (records : List AgentStepRecord) : List String :=
  records.filterMap fun r => r.agent.map (·.1)

def generatedAgentIdsFromJob (job : JobRow) : List String :=
  let reused := reusedAgentIdsFromResults job.state.results
  (job.createdAgentIds ++ createdAgentIdsFromResults job.state.results
    ++ agentIdsFromSteps job.state.agentSteps).dedup.filter fun id => !reused.contains id

def residualAssetsForJob (job : JobRow) : StepResult :=
  .residualAssets job.createdGroupId (generatedAgentIdsFromJob job)
    (reusedAgentIdsFromResults job.state.results)

/-- An agent of the platform; `madeFor` is the slot that this job created it for. -/
structure CompanyAgent where
  (id name companyId : String)
  createdAt : ℕ
  disabled : Bool := false
  madeFor : Option String := none

structure ProvisionPrims where
  /-- `normalizeAgentName`: trimmed and in lower case. -/
  normalize : String → String

variable (prims : ProvisionPrims)

def missingNames (job : JobRow) : List String :=
  let recorded := job.state.results.filterMap fun
    | .createdAgent _ _ name => some (prims.normalize name)
    | _ => none
  (job.plan.rolePlans.filterMap fun role =>
    match role.action with
    | .create name _ => some name
    | _ => none).filter fun name => !recorded.contains (prims.normalize name)

def isCleanupCandidate (job : JobRow) (a : CompanyAgent) : Bool :=
  a.companyId = job.companyId && !a.disabled
    && ((missingNames prims job).map prims.normalize).contains (prims.normalize a.name)
    && job.createdAt ≤ a.createdAt

def generatedAgentIdsForCleanup (job : JobRow)
    (agents : List CompanyAgent) : List String :=
  (generatedAgentIdsFromJob job ++ (agents.filter (isCleanupCandidate prims job)).map (·.id)).dedup

/-- The columns that a write replaces; the others keep their value. -/
structure JobUpdate where
  status : Option JobStatus := none
  plan : Option LaunchPlan := none
  state : Option StepState := none
  createdAgentIds : Option (List String) := none
  createdGroupId : Option String := none
deriving DecidableEq

namespace JobRow

variable (job : JobRow) (token : String)

/-- `releaseStaleLeases` followed by `acquireLease`. -/
def acquireLease (now leaseMs : ℕ) : Option JobRow :=
  if job.status.terminal || (job.leaseToken.isSome && now < job.leaseUntil) then none
  else some { job with leaseToken := some token, leaseUntil := now + leaseMs }

def releaseLease : JobRow :=
  if job.leaseToken = some token then { job with leaseToken := none } else job

def apply (u : JobUpdate) : JobRow :=
  { job with
    status := u.status.getD job.status
    plan := u.plan.getD job.plan
    state := u.state.getD job.state
    createdAgentIds := u.createdAgentIds.getD job.createdAgentIds
    createdGroupId := u.createdGroupId.or job.createdGroupId }

def updateJobAfterLease (u : JobUpdate) (issued : ℕ) : Option JobRow :=
  if job.leaseToken = some token && issued < job.leaseUntil && !job.status.terminal
      && u.status.all job.status.allows then some (job.apply u)
  else none

def cancelJob : Option JobRow :=
  if job.leaseToken = some token && !job.status.terminal && job.status.allows .canceled then
    some { job with status := .canceled, leaseToken := none }
  else none

/-- `prepareRetry` without a token. -/
def prepareRetry (next : JobStatus) (now : ℕ) : Option JobRow :=
  if !job.status.terminal && job.status.allows next
      && (job.leaseToken.isNone || job.leaseUntil ≤ now) then some { job with status := next }
  else none

end JobRow

/-- What `advanceOneStep` does for a row: it writes, or makes a call first. -/
inductive ProvisionTask where
  | validate
  | role (role : RolePlan)
  | createGroup
  | addMember (group slot agentId : String)
  | enableRouting (group : String)
  | postKickoff (group : String)
  | write (u : JobUpdate)
  | stop
deriving DecidableEq

namespace JobRow

variable (job : JobRow)

def groupId : Option String :=
  job.createdGroupId.or (job.state.results.findSome? (·.group?))

def nextTask : ProvisionTask :=
  let results := job.state.results
  match job.status with
  | .validating => .validate
  | .creatingAgents =>
    match job.plan.rolePlans.find? fun role => !hasRoleResult results role.slotId with
    | some role => .role role
    | none => .write {
        status := some .creatingGroup
        state := some { results }
        createdAgentIds := some (createdAgentIdsFromResults results) }
  | .creatingGroup =>
    if results.any (·.group?.isSome) then .write { status := some .addingMembers }
    else .createGroup
  | .addingMembers =>
    match job.groupId with
    | none => .write { status := some .failed }
    | some group =>
      match (memberAgentResults results).find? fun m => !hasMemberAddResult results m.1 with
      | some (slot, agentId) => .addMember group slot agentId
      | none =>
        if results.any (·.isRouting) then .write { status := some .postingKickoff }
        else .enableRouting group
  | .postingKickoff =>
    match job.groupId with
    | none => .write { status := some .failed }
    | some group =>
      if results.findSome? (·.kickoff?) = some true then .write { status := some .completed }
      else .postKickoff group
  | _ => .stop

def withResults (more : List StepResult) (issues : List ProvisioningIssue) : StepState :=
  { results := job.state.results ++ more, issues }

def afterCall (task : ProvisionTask) (ok : Bool) (returned : String) : JobUpdate :=
  let optional (slot : String) := job.plan.optionalSlots.contains slot
  match task with
  | .createGroup =>
    if ok then {
      status := some .addingMembers
      state := some (job.withResults [.createdGroup returned job.plan.groupName] [])
      createdGroupId := some returned }
    else {
      status := some .failed
      state := some (job.withResults [residualAssetsForJob job] [{ code := .groupCreationFailed }]) }
  | .addMember _ slot agentId =>
    if ok then { state := some (job.withResults [.memberAdd slot agentId .added] []) }
    else {
      status := some .partialFailure
      state := some (job.withResults [.memberAdd slot agentId .failed, residualAssetsForJob job]
        [{ code := if optional slot then .optionalMemberAddFailed else .requiredMemberAddFailed
           roleSlotId := some slot }]) }
  | .enableRouting group =>
    if ok then { state := some (job.withResults [.routingPolicyUpdate group] []) }
    else {
      status := some .partialFailure
      state := some (job.withResults [] [{ code := .routingPolicyFailed }]) }
  | .postKickoff group =>
    if ok then {
      status := some .completed
      state := some (job.withResults [.kickoffPost group true] []) }
    else {
      status := some .completedWithWarning
      state := some (job.withResults [.kickoffPost group false, residualAssetsForJob job]
        [{ code := .kickoffPostFailed }]) }
  | _ => {}

def planWithDisplayNames (plan : LaunchPlan) (names : List (String × String)) : LaunchPlan :=
  { plan with
    rolePlans := plan.rolePlans.map fun role =>
      match role.action with
      | .reuse agentId displayName =>
        { role with action := .reuse agentId ((names.lookup agentId).or displayName) }
      | _ => role }

def afterValidation (names : List (String × String))
    (issues : List ProvisioningIssue) : JobUpdate where
  status := some (if issues.any (·.isError) then .failedValidation else .creatingAgents)
  plan := some (planWithDisplayNames job.plan names)
  state := some (job.withResults [] issues)

variable (latest : JobRow)

def afterRole (result : StepResult) : JobUpdate :=
  let results := latest.state.results ++ [result]
  { state := some { results, agentSteps := latest.state.agentSteps }
    createdAgentIds := some (createdAgentIdsFromResults results) }

def afterRoleFailure (plan : LaunchPlan) (slot : String) : JobUpdate where
  status := some .partialFailure
  state := some {
    results := latest.state.results
    issues := [{
      code := if plan.optionalSlots.contains slot then .optionalAgentCreationFailed
        else .requiredAgentCreationFailed
      roleSlotId := some slot }]
    agentSteps := latest.state.agentSteps }

def readStep (slot : String) (step : AgentStep) : Option AgentStepRecord :=
  latest.state.agentSteps.find? fun r => r.slot = slot && r.step = step

def recordStep (record : AgentStepRecord) : JobUpdate where
  state := some { latest.state with
    agentSteps := (latest.state.agentSteps.filter fun r =>
      !(r.slot = record.slot && r.step = record.step)) ++ [record] }

end JobRow

/-- The choices of `RETRY_ROUTE_CHOICES`. -/
inductive RetryChoice where
  | editPlan | retryValidation | retryAgentCreation | skipOptionalRole | retryGroupCreation
  | softDeleteGeneratedAgents | retryMemberAdd | replaceAgent | manualInvite | retryKickoff
deriving DecidableEq

namespace JobRow

variable (job : JobRow)

def lastIssue : Option ProvisioningIssue := job.state.issues.getLast?

/-- `recoveryChoicesFor`, without the choices that no retry makes. -/
def recoveryChoices : List RetryChoice :=
  match job.status with
  | .failedValidation => [.editPlan, .retryValidation]
  | .partialFailure | .failed =>
    match (job.lastIssue.map (·.code) : Option IssueCode) with
    | some .groupCreationFailed => [.retryGroupCreation, .softDeleteGeneratedAgents]
    | some .optionalMemberAddFailed =>
      [.retryMemberAdd, .replaceAgent, .skipOptionalRole, .manualInvite]
    | some .requiredMemberAddFailed | some .routingPolicyFailed =>
      [.retryMemberAdd, .replaceAgent, .manualInvite]
    | some .optionalAgentCreationFailed => [.retryAgentCreation, .skipOptionalRole, .editPlan]
    | _ => [.retryAgentCreation, .editPlan, .softDeleteGeneratedAgents]
  | .completedWithWarning => [.retryKickoff]
  | _ => []

def retrySlot (slot : Option String) : Option String :=
  slot.or (job.lastIssue.bind (·.roleSlotId))

variable (choice : RetryChoice)

def choiceSlot : Option String :=
  if job.status = .failedValidation || choice = .retryGroupCreation
      || choice = .softDeleteGeneratedAgents || choice = .retryKickoff then none
  else job.lastIssue.bind (·.roleSlotId)

def offers (slot : Option String) : Bool :=
  job.recoveryChoices.contains choice
    && (job.choiceSlot choice).all fun about => slot.all (about = ·)

def retryStatus : RetryChoice → JobStatus
  | .retryValidation | .editPlan => .validating
  | .retryAgentCreation | .skipOptionalRole | .replaceAgent => .creatingAgents
  | .retryGroupCreation => .creatingGroup
  | .retryMemberAdd | .manualInvite => .addingMembers
  | .retryKickoff => .postingKickoff
  | .softDeleteGeneratedAgents =>
    if job.status = .completedWithWarning then .postingKickoff else .validating

/-- The result that `markOptionalMemberOrRoleSkipped` adds. -/
def skipResult? (slot : String) : Option StepResult :=
  let member := (memberAgentResults job.state.results).find? (·.1 = slot)
  if !job.plan.rolePlans.any (·.slotId = slot) then none
  else if choice = .skipOptionalRole && !job.plan.optionalSlots.contains slot then none
  else
    match member with
    | some (_, agentId) => some (.memberAdd slot agentId .skipped)
    | none => if choice = .manualInvite then none else some (.skippedOptionalRole slot)

/-- Its write, computed from the row that was read before the lease was taken. -/
def afterSkip (skip : StepResult) : JobUpdate where
  state := some (job.withResults [skip, residualAssetsForJob job] [])
  createdAgentIds := some (createdAgentIdsFromResults (job.state.results ++ [skip]))

def skipStatus (slot : String) : JobStatus :=
  if (memberAgentResults job.state.results).any (·.1 = slot) || choice = .manualInvite then
    .addingMembers
  else .creatingAgents

variable (generated : List String)

def hasSideEffects : Bool :=
  !generated.isEmpty || job.createdGroupId.isSome || job.state.results.any (!·.isCleanup)

/-- `cleanupResultForJob` after its call, if it made one. -/
def cleanupResult (softDelete ok : Bool) : StepResult :=
  let preserved := reusedAgentIdsFromResults job.state.results
  if !softDelete || generated.isEmpty then .cleanup .noneNeeded [] preserved
  else if ok then .cleanup .softDeleted generated preserved
  else .cleanup .failed [] preserved

def afterCancelCleanup (softDelete ok : Bool) : JobUpdate where
  state := some (job.withResults (if job.hasSideEffects generated then
      [job.cleanupResult generated softDelete ok, residualAssetsForJob job]
    else []) [])

def afterRecoveryCleanup (ok : Bool) : JobUpdate :=
  let failed := !generated.isEmpty && !ok
  { status :=
      if !failed then some .rolledBack
      else if job.status = .failed then none
      else some .failed
    state := some (job.withResults [job.cleanupResult generated true ok, residualAssetsForJob job]
      (if failed then [{ code := .softDeleteFailed }] else [])) }

end JobRow

/-- A runner under its lease: the row it has and the steps it may still take. -/
structure JobRun where
  job : JobRow
  token : String
  left : ℕ := 1

inductive JobProcess where
  | ended
  | ready (r : JobRun)
  | calling (r : JobRun) (task : ProvisionTask)
  | principal (r : JobRun) (role : RolePlan) (name : String) (webhook : Bool)
  | recording (r : JobRun) (role : RolePlan) (agent : String × String) (step : AgentStep)
      (rest : List AgentStep)
  | stepping (r : JobRun) (role : RolePlan) (agent : String × String) (rest : List AgentStep)
  | roleDone (r : JobRun) (result : StepResult)
  | roleFailed (r : JobRun) (role : RolePlan)
  | writing (r : JobRun) (u : JobUpdate)
  /-- The lease is given back, and the status set for a retry after it. -/
  | releasing (token : String) (next : Option JobStatus)
  | retrying (next : JobStatus)
  | runRequested (steps : ℕ)
  | cleanupRequested (cancel softDelete : Bool)
  | skipping (job : JobRow) (skip : StepResult) (next : JobStatus)
  | skipLeased (job : JobRow) (token : String) (skip : StepResult) (next : JobStatus)
  /-- Cleanup for a cancellation, or else for the recovery choice. -/
  | cleaning (r : JobRun) (cancel softDelete : Bool)
  | cleaned (token : String) (u : JobUpdate) (cancel : Bool)
  | canceling (token : String)

/-- The job, the platform and the processes.  `groups` has the groups that were created for the job,
`used` those that members, routing policies and kickoff messages went to, and `disabled` the agents
of each soft-disable call. -/
structure ProvisionWorld where
  job : JobRow
  agents : List CompanyAgent
  groups : List String := []
  used : List String := []
  disabled : List (List String) := []
  processes : List JobProcess := []
  now : ℕ

/-- Ids, tokens and what the platform answers are part of an action; `effect` says whether a call was
carried out and `ok` whether it returned without an error, since an answer may be lost.  `issued` is
when a write was asked for. -/
inductive ProvisionAction where
  | runJob (steps : ℕ)
  | retryJob (choice : RetryChoice) (slot : Option String)
  | cancelJob (softDelete : Bool)
  | takeLease (i : ℕ) (token : String) (leaseMs : ℕ)
  | begin (i : ℕ)
  | validated (i : ℕ) (names : List (String × String)) (issues : List ProvisioningIssue)
  | call (i : ℕ) (effect ok : Bool) (id : String)
  | createAgent (i : ℕ) (effect ok : Bool) (id : String)
  | agentStep (i : ℕ) (ok : Bool)
  | record (i issued : ℕ)
  | cleanup (i : ℕ) (ok : Bool)
  | write (i issued : ℕ)
  | storeCancel (i : ℕ)
  | release (i : ℕ)
  | prepareRetry (i : ℕ)
  | abort (i : ℕ)
  | crash (i : ℕ)
  | otherAgent (agent : CompanyAgent)
  | pass (time : ℕ)

namespace JobProcess

def token? : JobProcess → Option String
  | .ready r | .calling r _ | .principal r _ _ _ | .recording r _ _ _ _ | .stepping r _ _ _
  | .roleDone r _ | .roleFailed r _ | .writing r _ | .cleaning r _ _ => some r.token
  | .releasing token _ | .skipLeased _ token _ _ | .cleaned token _ _ | .canceling token =>
    some token
  | .ended | .retrying _ | .runRequested _ | .cleanupRequested _ _ | .skipping _ _ _ => none

/-- The `finally` blocks give the lease back; a retry that skips a role has none. -/
def aborted : JobProcess → JobProcess
  | .skipLeased .. => .ended
  | p =>
    match p.token? with
    | some token => .releasing token none
    | none => .ended

end JobProcess

namespace ProvisionWorld

variable (w : ProvisionWorld)

def setProcess (i : ℕ) (p : JobProcess) : ProvisionWorld :=
  { w with processes := w.processes.set i p }

def addProcess (p : JobProcess) : ProvisionWorld :=
  { w with processes := w.processes ++ [p] }

def unusedToken (token : String) : Bool :=
  w.job.leaseToken ≠ some token && w.processes.all (·.token? ≠ some token)

/-- The steps of `provisionAgent` after the principal; a replayed principal has its token rotated
without a record. -/
def laterSteps (replayed webhook : Bool) : List AgentStep :=
  (if replayed then [] else [.persistToken]) ++ [.createWorkspace]
    ++ (if webhook then [] else [.writeInstructions, .copySkills])
    ++ [.installOutboxHelper, .createDirectConversation, .createRuntimeBinding]
    ++ (if webhook then [.registerWebhook] else []) ++ [.storeRoleTemplateProvenance]

def continued (r : JobRun) (job : JobRow) : JobProcess :=
  if job.status.terminal || job.status = .partialFailure || job.status = .failed
      || job.status = .failedValidation || r.left ≤ 1 then .releasing r.token none
  else .ready { r with job, left := r.left - 1 }

def beginTask (r : JobRun) : JobProcess :=
  match r.job.nextTask with
  | .write u => .writing r u
  | .stop => continued r r.job
  | .role role =>
    match role.action with
    | .skip => .roleDone r (.skippedOptionalRole role.slotId)
    | .reuse agentId displayName =>
      .roleDone r (.reusedAgent role.slotId agentId (displayName.getD agentId))
    | .create name webhook =>
      match w.job.readStep role.slotId .createPrincipal with
      | none => .principal r role name webhook
      | some record =>
        match record.agent with
        | some agent => .stepping r role agent (laterSteps true webhook)
        | none => .roleFailed r role
  | task => .calling r task

def carryOut (task : ProvisionTask) (id : String) : ProvisionWorld :=
  match task with
  | .createGroup => { w with groups := w.groups ++ [id] }
  | .addMember group _ _ | .enableRouting group | .postKickoff group =>
    { w with used := w.used ++ [group] }
  | _ => w

def pendingWrite : JobProcess → Option (String × JobUpdate)
  | .writing r u => some (r.token, u)
  | .roleDone r result => some (r.token, w.job.afterRole result)
  | .roleFailed r role => some (r.token, w.job.afterRoleFailure r.job.plan role.slotId)
  | .skipLeased job token skip _ => some (token, job.afterSkip skip)
  | .cleaned token u _ => some (token, u)
  | _ => none

def afterWrite (job : JobRow) : JobProcess → JobProcess
  | .writing r _ | .roleDone r _ | .roleFailed r _ => continued r job
  | .skipLeased _ token _ next => .releasing token (some next)
  | .cleaned token _ true => .canceling token
  | .cleaned token _ false => .releasing token none
  | p => p

def requestRetry (job : JobRow) (choice : RetryChoice) (slot : Option String) : Option JobProcess :=
  if !job.offers choice slot then none
  else
    match choice with
    | .softDeleteGeneratedAgents => some (.cleanupRequested false true)
    | .skipOptionalRole | .manualInvite => do
      let slot ← job.retrySlot slot
      let skip ← job.skipResult? choice slot
      return .skipping job skip (job.skipStatus choice slot)
    | choice => some (.retrying (job.retryStatus choice))

def leased (job : JobRow) (token : String) : JobProcess → Option JobProcess
  | .runRequested steps => some (.ready ⟨job, token, max 1 (min steps 10)⟩)
  | .cleanupRequested cancel softDelete => some (.cleaning ⟨job, token, 1⟩ cancel softDelete)
  | .skipping read skip next => some (.skipLeased read token skip next)
  | _ => none

def cleanupCall (softDelete : Bool) (generated : List String) : List (List String) :=
  if softDelete && !generated.isEmpty then [generated] else []

def disableAgents (agents : List CompanyAgent) (ids : List String) : List CompanyAgent :=
  agents.map fun a => if ids.contains a.id then { a with disabled := true } else a

def step (prims : ProvisionPrims) (w : ProvisionWorld) : ProvisionAction → Option ProvisionWorld
  | .runJob steps =>
    if w.job.status.terminal || w.job.status = .completedWithWarning then none
    else some (w.addProcess (.runRequested steps))
  | .retryJob choice slot => (requestRetry w.job choice slot).map w.addProcess
  | .cancelJob softDelete => some (w.addProcess (.cleanupRequested true softDelete))
  | .takeLease i token leaseMs => do
    let p ← w.processes[i]?
    if !w.unusedToken token then none
    else
      let job ← w.job.acquireLease token w.now leaseMs
      let p ← leased job token p
      return { w with job }.setProcess i p
  | .begin i =>
    match w.processes[i]? with
    | some (.ready r) => some (w.setProcess i (w.beginTask r))
    | _ => none
  | .validated i names issues =>
    match w.processes[i]? with
    | some (.calling r .validate) =>
      some (w.setProcess i (.writing r (r.job.afterValidation names issues)))
    | _ => none
  | .call i effect ok id =>
    match w.processes[i]? with
    | some (.calling r task) =>
      if task = .validate || (ok && !effect) || w.groups.contains id then none
      else
        let w := if effect then w.carryOut task id else w
        some (w.setProcess i (.writing r (r.job.afterCall task ok id)))
    | _ => none
  | .createAgent i effect ok id =>
    match w.processes[i]? with
    | some (.principal r role name webhook) =>
      if (ok && !effect) || w.agents.any (·.id = id) then none
      else
        let agent : CompanyAgent := ⟨id, name, w.job.companyId, w.now, false, some role.slotId⟩
        let w := if effect then { w with agents := w.agents ++ [agent] } else w
        some (w.setProcess i (if ok then
          .recording r role (id, name) .createPrincipal (laterSteps false webhook)
        else .roleFailed r role))
    | _ => none
  | .agentStep i ok =>
    match w.processes[i]? with
    | some (.stepping r role agent []) =>
      some (w.setProcess i (.roleDone r (.createdAgent role.slotId agent.1 agent.2)))
    | some (.stepping r role agent (step :: rest)) =>
      some (w.setProcess i (
        if (w.job.readStep role.slotId step).isSome then .stepping r role agent rest
        else if ok then .recording r role agent step rest
        else .roleFailed r role))
    | _ => none
  | .record i issued =>
    match w.processes[i]? with
    | some (.recording r role agent step rest) =>
      if w.now < issued then none
      else
        let output := if step = .createPrincipal then some agent else none
        match w.job.updateJobAfterLease r.token
            (w.job.recordStep ⟨role.slotId, step, output⟩) issued with
        | some job => some ({ w with job }.setProcess i (.stepping r role agent rest))
        | none => some (w.setProcess i (.roleFailed r role))
    | _ => none
  | .cleanup i ok =>
    match w.processes[i]? with
    | some (.cleaning r cancel softDelete) =>
      let generated := generatedAgentIdsForCleanup prims r.job w.agents
      let u := if cancel then r.job.afterCancelCleanup generated softDelete ok
        else r.job.afterRecoveryCleanup generated ok
      some ({ w with
        disabled := w.disabled ++ cleanupCall softDelete generated
        agents := if ok && softDelete then disableAgents w.agents generated else w.agents
        }.setProcess i (.cleaned r.token u cancel))
    | _ => none
  | .write i issued => do
    let p ← w.processes[i]?
    let (token, u) ← w.pendingWrite p
    if w.now < issued then none
    else
      match w.job.updateJobAfterLease token u issued with
      | some job => return { w with job }.setProcess i (afterWrite job p)
      | none => return w.setProcess i p.aborted
  | .storeCancel i =>
    match w.processes[i]? with
    | some (.canceling token) =>
      match w.job.cancelJob token with
      | some job => some ({ w with job }.setProcess i (.releasing token none))
      | none => some (w.setProcess i (.releasing token none))
    | _ => none
  | .release i =>
    match w.processes[i]? with
    | some (.releasing token next) =>
      some ({ w with job := w.job.releaseLease token }.setProcess i (match next with
        | some next => .retrying next
        | none => .ended))
    | _ => none
  | .prepareRetry i =>
    match w.processes[i]? with
    | some (.retrying next) =>
      match w.job.prepareRetry next w.now with
      | some job => some ({ w with job }.setProcess i .ended)
      | none => some (w.setProcess i .ended)
    | _ => none
  | .abort i => w.processes[i]?.map fun p => w.setProcess i p.aborted
  | .crash i => w.processes[i]?.map fun _ => w.setProcess i .ended
  | .otherAgent agent =>
    if w.agents.any (·.id = agent.id) || agent.madeFor.isSome then none
    else some { w with agents := w.agents ++ [agent] }
  | .pass time => some { w with now := w.now + time }

def inserted (companyId : String) (plan : LaunchPlan) (agents : List CompanyAgent) (now : ℕ) :
    ProvisionWorld where
  job := { companyId, plan, createdAt := now }
  agents := agents.map fun a => { a with madeFor := none }
  now

end ProvisionWorld

end Choruz
