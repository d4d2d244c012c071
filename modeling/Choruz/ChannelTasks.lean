import Choruz.Messages
import Choruz.Routing

/-!
# Channel tasks

The cards of a channel's board and their event history.  A card is created by a human from a
message, by an agent, or through the workflow calls; it is changed by patches, by the workflow
events that carry a status, and by `update_group_workflow_task`.  A transaction is a function of
the task tables, and an error leaves them as they were.
-/

namespace Choruz

open Relational

def ChannelTaskStatus.ofStr? : String → Option ChannelTaskStatus
  | "todo" => some todo
  | "in_progress" => some inProgress
  | "blocked" => some blocked
  | "in_review" => some inReview
  | "done" => some done
  | _ => none

inductive ChannelTaskSourceKind where
  | agent | message
deriving DecidableEq

def ChannelTaskSourceKind.asStr : ChannelTaskSourceKind → String
  | agent => "agent"
  | message => "message"

structure GroupWorkflowTask where
  (id conversationId taskKey title : String)
  status : ChannelTaskStatus := .todo
  assigneePrincipalId : String
  blockedReason : Option String := none
  sourceKind : ChannelTaskSourceKind := .agent
  contextLabel : Option String := none
  idempotencyKey : Option String := none
  idempotencyPayloadHash : Option String := none
  version : ℕ := 1
  sourceMessageId : Option String := none
  createdBy : Option String
  updatedAt : Timestamp
deriving DecidableEq

structure GroupWorkflowTaskParticipant where
  (taskId principalId roleKey : String)
  responsibility : Option String
  required : Bool

structure GroupWorkflowEvent where
  (id conversationId : String)
  (taskId sourceMessageId actorPrincipalId : Option String)
  kind : String
  payload : Json
  resultingVersion : Option ℕ

structure TaskDb where
  tasks : Table GroupWorkflowTask.id := .empty
  participants : List GroupWorkflowTaskParticipant := []
  events : Table GroupWorkflowEvent.id := .empty
  /-- `channel_task_sequence`: the next value by conversation. -/
  sequences : List (String × ℕ) := []

/-- What the transactions read beside the task tables. -/
structure Roster where
  principals : List Principal := []
  conversations : List Conversation := []
  members : List ConversationMember := []
  /-- `channel_visibility = 'internal'`. -/
  isInternal : String → Bool := fun _ => false
  /-- The principal is a member of the company, which is not deleted. -/
  companyMember : String → String → Bool := fun _ _ => false
  /-- `default_coordinator_agent_id` of the conversation's runtime policy. -/
  coordinator : String → Option String := fun _ => none
  hasMessage : String → String → Bool := fun _ _ => false

abbrev TaskResult := Except AppError

def validateRequiredText (field value : String) : TaskResult Unit :=
  if trim value = "" then .error (.validation (field ++ " is required")) else .ok ()

def validateOptionalText (field : String) (value : Option String) : TaskResult Unit :=
  value.forM (validateRequiredText field)

def validateTaskKey (taskKey : String) : TaskResult Unit := do
  validateRequiredText "task_key" taskKey
  if taskKey.utf8ByteSize > 128 then .error (.validation "task_key is too long") else .ok ()

/-- `isAlphanumeric` is `char::is_alphanumeric`. -/
def validateMeaningfulTitle (isAlphanumeric : Char → Bool) (title : String) : TaskResult Unit := do
  validateRequiredText "title" title
  if title.toList.any isAlphanumeric then .ok ()
  else .error (.validation "title must include at least one letter or number")

def validateTaskStatus (status : String) : TaskResult ChannelTaskStatus :=
  match ChannelTaskStatus.ofStr? status with
  | some s => .ok s
  | none => .error (.validation ("invalid workflow task status: " ++ status))

def validateObjectPayload (payload : Json) : TaskResult Unit :=
  if payload.isObject then .ok ()
  else .error (.validation "workflow event payload must be a JSON object")

structure WorkflowTaskParticipantInput where
  (principalId roleKey : String)
  responsibility : Option String := none
  required : Bool := true

def ownerIsSynchronized : AppError :=
  .validation "owner participant is synchronized from assignee_principal_id"

def validateNonOwnerParticipant (p : WorkflowTaskParticipantInput) : TaskResult Unit :=
  if p.roleKey = "owner" then .error ownerIsSynchronized else .ok ()

def validateNonOwnerParticipants (ps : List WorkflowTaskParticipantInput) : TaskResult Unit :=
  ps.forM validateNonOwnerParticipant

namespace Roster

variable (r : Roster) (conversationId principalId : String)

def member? : Option (Principal × Conversation) :=
  match r.principals.find? (·.id = principalId), r.conversations.find? (·.id = conversationId) with
  | some p, some c =>
    if r.members.any (fun m => m.convId = c.id && m.principalId = p.id && m.removedAt.isNone)
      && !p.disabled && p.deletedAt.isNone then some (p, c) else none
  | _, _ => none

def workspaceMember? : Option (Principal × Conversation) :=
  (r.member? conversationId principalId).filter fun (p, c) => p.workspaceId = c.workspaceId

/-- A workspace member who is no internal agent. -/
def visibleMember? : Option (Principal × Conversation) :=
  (r.workspaceMember? conversationId principalId).filter fun (p, _) =>
    !(p.principalType = .agent && r.isInternal p.id)

def validateWorkflowEventActor (conversationId actorId : String) : TaskResult Unit := do
  validateRequiredText "actor_principal_id" actorId
  match r.visibleMember? conversationId actorId with
  | some _ => .ok ()
  | none => .error (.validation "actor_principal_id must be an active visible conversation member")

/-- The type of a member; a human may come from the company of the conversation. -/
def requireMemberAccess (actorId conversationId : String) : TaskResult PrincipalType := do
  validateRequiredText "actor_id" actorId
  match (r.member? conversationId actorId).filter fun (p, c) => p.workspaceId = c.workspaceId
      || (p.principalType = .human && r.companyMember c.workspaceId p.id) with
  | some (p, _) => .ok p.principalType
  | none => .error (.forbidden "principal is not a member of this conversation")

def requireConversationEligible (conversationId : String) : TaskResult Unit :=
  match r.conversations.find? (·.id = conversationId) with
  | none => .error (.internal ("check channel task conversation eligibility: query returned an "
      ++ "unexpected number of rows"))
  | some c =>
    let hasAgent := r.principals.any fun p => p.principalType = .agent && !r.isInternal p.id
      && (r.member? conversationId p.id).isSome
    if c.type = .group || (c.type = .direct && hasAgent) then .ok ()
    else .error (.forbidden
      "channel tasks require a group or direct conversation involving an agent")

def requireVisibleGroupAgentActor (actorId conversationId : String) : TaskResult Unit := do
  validateRequiredText "actor_id" actorId
  match (r.visibleMember? conversationId actorId).filter fun (p, c) =>
      c.type = .group && p.principalType = .agent with
  | some _ => .ok ()
  | none => .error (.forbidden
      "generic channel task creation is only available to visible group agents")

def isCoordinator (actorId conversationId : String) : Bool :=
  r.coordinator conversationId = some actorId

/-- Every caller allows an agent. -/
def validateVisibleAssignee (allowHuman : Bool) : TaskResult Unit := do
  validateRequiredText "assignee_principal_id" principalId
  match r.visibleMember? conversationId principalId with
  | none => .error (.validation "assignee must be a visible active conversation member")
  | some (p, _) =>
    if p.principalType = .agent || allowHuman then .ok ()
    else .error (.validation "assignee type is not allowed for this channel task mutation")

def validateVisibleMessageSource (conversationId messageId : String) : TaskResult Unit :=
  if r.hasMessage conversationId messageId then .ok ()
  else .error (.validation "source message must be a visible message in the same conversation")

def db : Db := { principals := r.principals, conversations := r.conversations }

def requireGroupConversation (conversationId : String) : TaskResult Unit := do
  let conversation ← r.db.getConversation conversationId
  if conversation.type = .group then .ok ()
  else .error (.validation "workflow tasks require a group conversation")

end Roster

namespace TaskDb

variable (r : Roster) (db : TaskDb)

/-- `insert_task_participant_tx`; a row that is there is updated. -/
def insertTaskParticipant (conversationId taskId : String)
    (p : WorkflowTaskParticipantInput) (allowOwner : Bool) : TaskResult TaskDb := do
  validateRequiredText "principal_id" p.principalId
  validateRequiredText "role_key" p.roleKey
  if p.roleKey = "owner" && !allowOwner then .error ownerIsSynchronized
  else if (r.workspaceMember? conversationId p.principalId).isNone then
    .error (.validation ("participant " ++ p.principalId
      ++ " must be an active conversation member in the same workspace"))
  else
    let row : GroupWorkflowTaskParticipant :=
      ⟨taskId, p.principalId, p.roleKey, p.responsibility, p.required⟩
    let isRow (q : GroupWorkflowTaskParticipant) :=
      q.taskId = taskId && q.principalId = p.principalId && q.roleKey = p.roleKey
    .ok { db with
      participants := if db.participants.any isRow then
          db.participants.map fun q => if isRow q then row else q
        else db.participants ++ [row] }

def replaceNonOwnerParticipants (conversationId taskId : String)
    (ps : List WorkflowTaskParticipantInput) : TaskResult TaskDb :=
  ps.foldlM (fun db p => db.insertTaskParticipant r conversationId taskId p false)
    { db with participants := db.participants.filter fun q =>
        !(q.taskId = taskId && q.roleKey ≠ "owner") }

def syncOwnerParticipant (conversationId taskId assigneeId : String) : TaskResult TaskDb :=
  { db with participants := db.participants.filter fun q =>
      !(q.taskId = taskId && q.roleKey = "owner") }.insertTaskParticipant r conversationId taskId
    { principalId := assigneeId, roleKey := "owner" } true

def actorHasRole (taskId actorId : String) (allowedRoles : List String) : Bool :=
  db.participants.any fun q =>
    q.taskId = taskId && q.principalId = actorId && q.roleKey ∈ allowedRoles

/-- `insert_workflow_event_tx`; a check of the table holds the payload to an object. -/
def insertWorkflowEvent (e : GroupWorkflowEvent) : TaskResult (GroupWorkflowEvent × TaskDb) :=
  if !e.payload.isObject then
    .error (.internal "insert workflow event: new row violates check constraint")
  else
    match db.events.insert? e with
    | none => .error (.internal
        "insert workflow event: duplicate key value violates unique constraint")
    | some events => .ok (e, { db with events })

def lockTask (taskId : String) : TaskResult GroupWorkflowTask :=
  match db.tasks.lookup taskId with
  | none => .error (.notFound "channel task not found")
  | some t => .ok t

def getGroupWorkflowTask (taskId : String) : TaskResult GroupWorkflowTask :=
  match db.tasks.lookup taskId with
  | none => .error (.notFound "workflow task not found")
  | some t => .ok t

end TaskDb

def isSensitiveWorkflowPayloadKey (key : String) : Bool :=
  let normalized := String.ofList ((key.toList.filter (·.isAlphanum)).map (·.toLower))
  ["previous", "new", "private", "reasoncode", "workflowauthority", "workflowdiagnostic", "taskid",
    "sourcemessageid", "token", "accesstoken", "refreshtoken", "apikey", "authorization",
    "password", "secret", "privatenote", "note", "path", "workspacepath", "filepath",
    "directory"].contains normalized

mutual

def redactWorkflowEventPayload : Json → Json
  | .obj fields => .obj (redactFields fields)
  | .arr values => .arr (redactValues values)
  | value => value

def redactValues : List Json → List Json
  | [] => []
  | value :: values => redactWorkflowEventPayload value :: redactValues values

def redactFields : List (String × Json) → List (String × Json)
  | [] => []
  | (key, value) :: fields =>
    if isSensitiveWorkflowPayloadKey key then redactFields fields
    else (key, redactWorkflowEventPayload value) :: redactFields fields

end

def sanitizeWorkflowEventPayload (payload : Json) : Json := redactWorkflowEventPayload payload

def trustedSystem : Json := .ofFields [("type", .str "trusted_system")]

def trustedSystemWorkflowPayload (payload : Json) : Json :=
  (sanitizeWorkflowEventPayload payload).set "workflow_authority" trustedSystem

def workflowDiagnosticPayload (payload : Json) (reasonCode : String)
    (statusEffect detail : Option String) : Json :=
  (sanitizeWorkflowEventPayload payload).set "workflow_diagnostic" (.ofFields [
    ("reason_code", .str reasonCode),
    ("status_effect", .ofOption statusEffect),
    ("detail", .ofOption detail)])

/-- The values of a card that its events record. -/
structure VisibleValues where
  status : ChannelTaskStatus
  assigneePrincipalId : String
  (blockedReason contextLabel : Option String)
deriving DecidableEq

def GroupWorkflowTask.visible (t : GroupWorkflowTask) : VisibleValues where
  status := t.status
  assigneePrincipalId := t.assigneePrincipalId
  blockedReason := t.blockedReason
  contextLabel := t.contextLabel

def VisibleValues.toJson (v : VisibleValues) : Json :=
  .ofFields [ ("status", .str v.status.asStr),
    ("assignee_principal_id", .str v.assigneePrincipalId),
    ("blocked_reason", .ofOption v.blockedReason),
    ("context_label", .ofOption v.contextLabel)]

def patchEventPayload (basePayload : Json) (actorId : Option String)
    (previous new : VisibleValues) : Json :=
  let payload := sanitizeWorkflowEventPayload basePayload
  let payload := if actorId.isNone then payload.set "workflow_authority" trustedSystem else payload
  (payload.set "previous" previous.toJson).set "new" new.toJson

inductive NullablePatch (α : Type) where
  | unchanged | clear | set (value : α)
deriving DecidableEq

def NullablePatch.isUnchanged {α : Type} : NullablePatch α → Bool
  | unchanged => true
  | _ => false

def NullablePatch.apply {α : Type} (current : Option α) : NullablePatch α → Option α
  | unchanged => current
  | clear => none
  | set value => some value

structure PatchChannelTaskRequest where
  status : Option ChannelTaskStatus := none
  assigneePrincipalId : Option String := none
  blockedReason : NullablePatch String := .unchanged
  contextLabel : NullablePatch String := .unchanged
deriving DecidableEq

def NullablePatch.validate (field : String) : NullablePatch String → TaskResult Unit
  | set value => validateRequiredText field value
  | _ => .ok ()

def PatchChannelTaskRequest.validate (request : PatchChannelTaskRequest) : TaskResult Unit := do
  validateOptionalText "assignee_principal_id" request.assigneePrincipalId
  request.blockedReason.validate "blocked_reason"
  request.contextLabel.validate "context_label"
  if request.status.isNone && request.assigneePrincipalId.isNone
      && request.blockedReason.isUnchanged && request.contextLabel.isUnchanged then
    .error (.validation "patch must include at least one mutable channel task field")
  else .ok ()

def PatchChannelTaskRequest.apply (request : PatchChannelTaskRequest) (v : VisibleValues) :
    VisibleValues where
  status := request.status.getD v.status
  assigneePrincipalId := request.assigneePrincipalId.getD v.assigneePrincipalId
  blockedReason := request.blockedReason.apply v.blockedReason
  contextLabel := request.contextLabel.apply v.contextLabel

def GroupWorkflowTask.setVisible (now : Timestamp) (v : VisibleValues) (t : GroupWorkflowTask) :
    GroupWorkflowTask :=
  { t with
    status := v.status
    assigneePrincipalId := v.assigneePrincipalId
    blockedReason := v.blockedReason
    contextLabel := v.contextLabel
    version := t.version + 1
    updatedAt := now }

/-- What an event of a call carries beside its payload and version. -/
structure EventHeader where
  (id kind : String)
  (sourceMessageId actorPrincipalId : Option String)

def EventHeader.event (h : EventHeader) (conversationId : String) (taskId : Option String)
    (payload : Json) (resultingVersion : Option ℕ) : GroupWorkflowEvent where
  id := h.id
  conversationId
  taskId
  sourceMessageId := h.sourceMessageId
  actorPrincipalId := h.actorPrincipalId
  kind := h.kind
  payload
  resultingVersion

namespace TaskDb

variable (r : Roster)

/-- `authorize_channel_task_patch_tx`: whether the actor acts as the coordinator. -/
def authorizeChannelTaskPatch (actorId : String) (actorType : PrincipalType)
    (existing : GroupWorkflowTask) : TaskResult Bool :=
  match actorType with
  | .human => .ok false
  | .agent => do
    r.requireVisibleGroupAgentActor actorId existing.conversationId
    let isCoordinator := r.isCoordinator actorId existing.conversationId
    -- a transfer is refused on the same condition, after this one
    if existing.assigneePrincipalId ≠ actorId && !isCoordinator then
      .error (.forbidden "agent can update only owned group tasks or tasks in a coordinated group")
    else .ok isCoordinator

def workflowKindAllowsOwnerOrCoordinator (kind : String) : Bool :=
  ["task.created", "task.started", "task.ready_for_next_step", "task.feedback", "task.cleared",
    "task.blocked", "human_input_needed", "approval_required", "task.completed"].contains kind

def workflowKindRequiresAgentOwnerOrCoordinator (kind : String) : Bool :=
  ["external_check.failed", "external_check.passed"].contains kind

def authorizeWorkflowMetadataPatch (db : TaskDb) (actorId : String) (actorType : PrincipalType)
    (existing : GroupWorkflowTask) (kind : String) : TaskResult Unit :=
  let isOwner := existing.assigneePrincipalId = actorId
    || db.actorHasRole existing.id actorId ["owner"]
  let isCoordinator := r.isCoordinator actorId existing.conversationId
    || (actorType ≠ .agent && db.actorHasRole existing.id actorId ["coordinator"])
  if workflowKindRequiresAgentOwnerOrCoordinator kind then
    if actorType = .agent && (isOwner || isCoordinator) then .ok ()
    else .error (.forbidden
      "workflow metadata external check requires an agent owner or coordinator")
  else if (isOwner || isCoordinator) && workflowKindAllowsOwnerOrCoordinator kind then .ok ()
  else if kind = "task.feedback"
      && db.actorHasRole existing.id actorId ["reviewer", "quality_check", "approver"] then .ok ()
  else
    match actorType with
    | .agent => .error (.forbidden "workflow metadata actor is not authorized for this task role")
    | .human => .error (.forbidden "workflow metadata human actor is not an owner or coordinator")

/-- The authorization of a patch, which comes from a workflow event where a kind is given. -/
def authorizePatch (db : TaskDb) (actorId : String) (actorType : PrincipalType)
    (existing : GroupWorkflowTask) : Option String → TaskResult Bool
  | some kind =>
    (db.authorizeWorkflowMetadataPatch r actorId actorType existing kind).map fun _ => false
  | none => authorizeChannelTaskPatch r actorId actorType existing

/-- `apply_authorized_channel_task_patch_tx` on the locked row. -/
def applyAuthorizedPatch (db : TaskDb) (now : Timestamp) (existing : GroupWorkflowTask)
    (request : PatchChannelTaskRequest) (header : EventHeader) (basePayload : Json) :
    TaskResult (GroupWorkflowEvent × TaskDb) := do
  let previous := existing.visible
  let new := request.apply previous
  let db := { db with
    tasks := db.tasks.updateWhere (·.id = existing.id) (·.setVisible now new) fun _ => rfl }
  let db ← db.syncOwnerParticipant r existing.conversationId existing.id new.assigneePrincipalId
  let payload := patchEventPayload basePayload header.actorPrincipalId previous new
  -- the row is locked, so the update returns the next version of the row read
  db.insertWorkflowEvent
    (header.event existing.conversationId (some existing.id) payload (some (existing.version + 1)))

def applyChannelTaskPatch (db : TaskDb) (now : Timestamp) (actorId : String)
    (existing : GroupWorkflowTask) (request : PatchChannelTaskRequest)
    (workflowKind : Option String) (header : EventHeader) (basePayload : Json) :
    TaskResult (GroupWorkflowEvent × TaskDb) := do
  let actorType ← r.requireMemberAccess actorId existing.conversationId
  let asCoordinator ← db.authorizePatch r actorId actorType existing workflowKind
  let allowHuman := actorType = .human && !asCoordinator
  request.assigneePrincipalId.forM fun assigneeId =>
    r.validateVisibleAssignee existing.conversationId assigneeId allowHuman
  db.applyAuthorizedPatch r now existing request header basePayload

def patchChannelTask (db : TaskDb) (now : Timestamp) (eventId actorId taskId : String)
    (request : PatchChannelTaskRequest) : TaskResult (GroupWorkflowEvent × TaskDb) := do
  request.validate
  let existing ← db.lockTask taskId
  let _ ← r.requireMemberAccess actorId existing.conversationId
  db.applyChannelTaskPatch r now actorId existing request none
    ⟨eventId, "channel_task.updated", existing.sourceMessageId, some actorId⟩ (.ofFields [])

end TaskDb

end Choruz
