import Choruz.ChannelTasks

/-!
# Workflow events and workflow calls

An appended workflow event may carry a status for the task it refers to; where it may not, it is
stored with the reason.  `update_group_workflow_task` writes a task directly.  Both read the task
before their transaction.
-/

namespace Choruz

open Relational

inductive WorkflowStatusEffect where
  | update (status : ChannelTaskStatus)
  | knownNoop | unsupported

def WorkflowStatusEffect.status : WorkflowStatusEffect → Option ChannelTaskStatus
  | update status => some status
  | _ => none

def workflowStatusValue : String → Option ChannelTaskStatus
  | "pending" | "todo" => some .todo
  | "in_progress" => some .inProgress
  | "blocked" | "needs_human" => some .blocked
  | "needs_approval" | "in_review" => some .inReview
  | "completed" | "done" => some .done
  | _ => none

/-- `payload.pointer` along object keys. -/
def Json.pointer (j : Json) (path : List String) : Option Json :=
  path.foldl (fun j k => j.bind (·.field? k)) (some j)

def Json.asStr : Json → Option String
  | .str s => some s
  | _ => none

/-- `explicit_workflow_status`; absent where the first of the paths that is there holds no text. -/
def explicitWorkflowStatus (payload : Json) : Option (Option ChannelTaskStatus) :=
  let found := payload.pointer ["status"] <|> payload.pointer ["workflow", "status"]
    <|> payload.pointer ["new", "status"]
    <|> payload.pointer ["workflow", "new", "status"]
  (found.bind (·.asStr)).map workflowStatusValue

def workflowNextRoleIsReviewLike (payload : Json) : Bool :=
  let found := payload.pointer ["next_role"] <|> payload.pointer ["workflow", "next_role"]
  (found.bind (·.asStr)).any
    (["reviewer", "review", "quality", "quality_check", "approver"].contains ·)

def statusForWorkflowEvent (kind : String) (payload : Json) : WorkflowStatusEffect :=
  match kind with
  | "task.created" =>
    match explicitWorkflowStatus payload with
    | none => .update .todo
    | some (some status) => .update status
    | some none => .unsupported
  | "task.started" | "task.cleared" | "task.feedback" => .update .inProgress
  | "task.ready_for_next_step" =>
    if workflowNextRoleIsReviewLike payload then .update .inReview else .update .inProgress
  | "task.blocked" | "external_check.failed" | "human_input_needed" => .update .blocked
  | "approval_required" => .update .inReview
  | "task.completed" => .update .done
  | "external_check.passed" => .knownNoop
  | _ => .unsupported

structure AppendGroupWorkflowEventRequest where
  kind : String
  taskKey : Option String := none
  sourceMessageId : Option String := none
  payload : Json := .ofFields []

/-- Who appends: a member to a task or to a conversation, or the trusted system. -/
inductive Appender where
  | toTask (taskId actorId : String)
  | toConversation (conversationId actorId : String)
  | trustedSystem (conversationId : String)

namespace TaskDb

variable (r : Roster) (db : TaskDb)

/-- The event of a request that changes no status, with the reason. -/
def insertDiagnosticEvent (header : EventHeader) (conversationId : String)
    (taskId : Option String) (payload : Json) (reasonCode : String)
    (statusEffect detail : Option String) : TaskResult (GroupWorkflowEvent × TaskDb) :=
  db.insertWorkflowEvent (header.event conversationId taskId
    (workflowDiagnosticPayload payload reasonCode statusEffect detail) none)

/-- `apply_workflow_status_update_tx`; the task is the one read before the transaction.  A refusal
comes before the first write of the patch, so the diagnostic starts from the same tables. -/
def applyWorkflowStatusUpdate (now : Timestamp) (task : GroupWorkflowTask)
    (actorId : String) (header : EventHeader) (effect : WorkflowStatusEffect) (payload : Json) :
    TaskResult (GroupWorkflowEvent × TaskDb) :=
  match effect with
  | .update status => do
    let locked ← db.lockTask task.id
    match db.applyChannelTaskPatch r now actorId locked { status := some status } (some header.kind)
        header payload with
    | .error (.forbidden detail) =>
      db.insertDiagnosticEvent header locked.conversationId (some locked.id) payload
        "workflow_status_unauthorized" (some status.asStr) (some detail)
    | result => result
  | .knownNoop => do
    let locked ← db.lockTask task.id
    let actorType ← r.requireMemberAccess actorId locked.conversationId
    match db.authorizeWorkflowMetadataPatch r actorId actorType locked header.kind with
    | .error (.forbidden detail) =>
      db.insertDiagnosticEvent header locked.conversationId (some locked.id) payload
        "workflow_status_unauthorized" none (some detail)
    | .error e => .error e
    | .ok _ =>
      db.insertDiagnosticEvent header locked.conversationId (some locked.id) payload
        "workflow_status_noop" none none
  | .unsupported =>
    db.insertDiagnosticEvent header task.conversationId (some task.id) payload
      "workflow_status_unsupported" none none

def applyTrustedWorkflowStatusUpdate (now : Timestamp) (task : GroupWorkflowTask)
    (header : EventHeader) (effect : WorkflowStatusEffect) (payload : Json) :
    TaskResult (GroupWorkflowEvent × TaskDb) :=
  let trusted := trustedSystemWorkflowPayload payload
  if workflowKindRequiresAgentOwnerOrCoordinator header.kind then
    match effect with
    | .update status => do
      let locked ← db.lockTask task.id
      db.applyAuthorizedPatch r now locked { status := some status } header trusted
    | .knownNoop => do
      let locked ← db.lockTask task.id
      db.insertDiagnosticEvent header locked.conversationId (some locked.id) trusted
        "workflow_status_noop" none none
    | .unsupported =>
      db.insertDiagnosticEvent header task.conversationId (some task.id) trusted
        "workflow_status_unsupported" none none
  else
    match effect with
    | .unsupported =>
      db.insertDiagnosticEvent header task.conversationId (some task.id) trusted
        "workflow_status_unsupported" none none
    | effect =>
      db.insertDiagnosticEvent header task.conversationId (some task.id) trusted
        "workflow_status_unauthorized" (effect.status.map (·.asStr))
        (some "trusted system workflow metadata is not authorized for this kind")

def findTaskByWorkflowReference (conversationId : String)
    (taskId taskKey : Option String) : TaskResult (Option GroupWorkflowTask) := do
  taskKey.forM validateTaskKey
  let taskId := (taskId.map trim).filter (· ≠ "")
  if taskId.isNone && taskKey.isNone then .ok none
  else .ok (db.tasks.rows.find? fun t => t.conversationId = conversationId
    && taskId.all (· = t.id) && taskKey.all (· = t.taskKey))

/-- The reads of an append before its transaction: the task it is about, if one is found. -/
def readForAppend (appender : Appender) (request : AppendGroupWorkflowEventRequest) :
    TaskResult (Option GroupWorkflowTask) := do
  validateRequiredText "kind" request.kind
  validateObjectPayload request.payload
  match appender with
  | .toTask taskId _ => do
    let task ← db.getGroupWorkflowTask taskId
    if request.taskKey.any (· ≠ task.taskKey) then
      .error (.validation "task_key does not match workflow task")
    else .ok (some task)
  | .toConversation conversationId _ | .trustedSystem conversationId => do
    r.requireGroupConversation conversationId
    db.findTaskByWorkflowReference conversationId (request.payload.text? "task_id") request.taskKey

def appendWorkflowEvent (now : Timestamp) (eventId : String) (appender : Appender)
    (request : AppendGroupWorkflowEventRequest) (task : Option GroupWorkflowTask) :
    TaskResult (GroupWorkflowEvent × TaskDb) :=
  let effect := statusForWorkflowEvent request.kind request.payload
  let header (actorId : Option String) : EventHeader :=
    ⟨eventId, request.kind, request.sourceMessageId, actorId⟩
  let unresolved (conversationId : String) (actorId : Option String) (payload : Json) :=
    db.insertDiagnosticEvent (header actorId) conversationId none payload
      "workflow_task_unresolved" (effect.status.map (·.asStr)) none
  match appender, task with
  | .toTask _ actorId, some task => do
    r.validateWorkflowEventActor task.conversationId actorId
    db.applyWorkflowStatusUpdate r now task actorId (header actorId) effect request.payload
  | .toTask _ _, none => .error (.notFound "workflow task not found")
  | .toConversation conversationId actorId, task => do
    r.validateWorkflowEventActor conversationId actorId
    match task with
    | some task =>
      db.applyWorkflowStatusUpdate r now task actorId (header actorId) effect request.payload
    | none => unresolved conversationId actorId request.payload
  | .trustedSystem _, some task =>
    db.applyTrustedWorkflowStatusUpdate r now task (header none) effect request.payload
  | .trustedSystem conversationId, none =>
    unresolved conversationId none (trustedSystemWorkflowPayload request.payload)

end TaskDb

structure UpdateGroupWorkflowTaskRequest where
  title : Option String := none
  status : Option String := none
  assigneePrincipalId : Option String := none
  participants : Option (List WorkflowTaskParticipantInput) := none

def UpdateGroupWorkflowTaskRequest.validate (request : UpdateGroupWorkflowTaskRequest) :
    TaskResult Unit := do
  validateOptionalText "title" request.title
  request.status.forM fun status => discard (validateTaskStatus status)
  validateOptionalText "assignee_principal_id" request.assigneePrincipalId
  validateNonOwnerParticipants (request.participants.getD [])

/-- The `SET` of the update; the columns the request leaves out are those of the row read before
the transaction. -/
def UpdateGroupWorkflowTaskRequest.apply (request : UpdateGroupWorkflowTaskRequest)
    (now : Timestamp) (existing row : GroupWorkflowTask) : GroupWorkflowTask :=
  { row with
    title := request.title.getD existing.title
    status := (request.status.bind ChannelTaskStatus.ofStr?).getD existing.status
    assigneePrincipalId := request.assigneePrincipalId.getD existing.assigneePrincipalId
    version := row.version + 1
    updatedAt := now }

namespace TaskDb

variable (r : Roster)

def readForUpdate (db : TaskDb) (taskId : String) (request : UpdateGroupWorkflowTaskRequest) :
    TaskResult GroupWorkflowTask := do
  request.validate
  db.getGroupWorkflowTask taskId

def updateGroupWorkflowTask (db : TaskDb) (now : Timestamp) (taskId : String)
    (existing : GroupWorkflowTask) (request : UpdateGroupWorkflowTaskRequest) : TaskResult TaskDb :=
  match db.tasks.lookup taskId with
  | none => .error (.internal "update workflow task: query returned an unexpected number of rows")
  | some _ => do
    let assigneeId := request.assigneePrincipalId.getD existing.assigneePrincipalId
    let db := { db with
      tasks := db.tasks.updateWhere (·.id = taskId) (request.apply now existing) fun _ => rfl }
    let db ← request.participants.elim (.ok db)
      (db.replaceNonOwnerParticipants r existing.conversationId taskId)
    db.syncOwnerParticipant r existing.conversationId taskId assigneeId

def replaceGroupWorkflowTaskParticipants (db : TaskDb) (taskId : String)
    (ps : List WorkflowTaskParticipantInput) : TaskResult TaskDb := do
  let task ← db.lockTask taskId
  validateNonOwnerParticipants ps
  let db ← db.replaceNonOwnerParticipants r task.conversationId taskId ps
  db.syncOwnerParticipant r task.conversationId taskId task.assigneePrincipalId

def addGroupWorkflowTaskParticipant (db : TaskDb) (taskId : String)
    (p : WorkflowTaskParticipantInput) : TaskResult TaskDb := do
  let task ← db.getGroupWorkflowTask taskId
  validateNonOwnerParticipant p
  db.insertTaskParticipant r task.conversationId taskId p false

def removeGroupWorkflowTaskParticipant (db : TaskDb) (taskId principalId roleKey : String) :
    TaskResult TaskDb := do
  let _ ← db.getGroupWorkflowTask taskId
  validateRequiredText "principal_id" principalId
  validateRequiredText "role_key" roleKey
  if roleKey = "owner" then .error ownerIsSynchronized
  else .ok { db with
    participants := db.participants.filter fun q =>
      !(q.taskId = taskId && q.principalId = principalId && q.roleKey = roleKey) }

end TaskDb

end Choruz
