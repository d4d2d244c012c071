import Choruz.ChannelTasks
import Choruz.Schedule

/-!
# The creation of channel tasks

From a message, by an agent, or through the workflow call.  A card without a key of its own gets the
next free `TASK-N` of its conversation, and a repeated request gets the card of the first.
-/

namespace Choruz

open Relational

def allocateTaskKeyMaxAttempts : ℕ := 64

def generatedTaskInsertMaxAttempts : ℕ := 8

def numericTaskKey? (taskKey : String) : Option ℕ :=
  match taskKey.toList with
  | 'T' :: 'A' :: 'S' :: 'K' :: '-' :: digits => parseDigits digits
  | _ => none

namespace TaskDb

variable (db : TaskDb) (conversationId : String)

/-- `INSERT INTO channel_task_sequence … ON CONFLICT DO UPDATE`: what is there becomes `bump` of it,
and the value before the new one is returned. -/
def advanceSequence (first : ℕ) (bump : ℕ → ℕ) : ℕ × TaskDb :=
  match db.sequences.find? (·.1 = conversationId) with
  | none => (first - 1, { db with sequences := db.sequences ++ [(conversationId, first)] })
  | some (_, next) => (bump next - 1, { db with
      sequences := db.sequences.map fun s =>
        if s.1 = conversationId then (conversationId, bump next) else s })

def nextChannelTaskSequence : ℕ × TaskDb :=
  db.advanceSequence conversationId 2 (· + 1)

def taskKeyTaken (conversationId taskKey : String) : Bool :=
  db.tasks.rows.any fun t => t.conversationId = conversationId && t.taskKey = taskKey

def allocateTaskKeyAfterExistingMax : TaskResult (String × TaskDb) :=
  let numbers := db.tasks.rows.filterMap fun t =>
    if t.conversationId = conversationId then numericTaskKey? t.taskKey else none
  if numbers.any (9223372036854775807 < ·) then
    .error (.internal "advance channel task sequence: value out of range for type bigint")
  else
    let sequence := numbers.foldl max 0 + 1
    let (sequence, db) :=
      db.advanceSequence conversationId (sequence + 1) (fun next => max (next + 1) (sequence + 1))
    .ok ("TASK-" ++ toString sequence, db)

/-- `allocate_unused_task_key_tx`, with the attempts that are left. -/
def allocateUnusedTaskKey (db : TaskDb) (conversationId : String) : ℕ → TaskResult (String × TaskDb)
  | 0 => db.allocateTaskKeyAfterExistingMax conversationId
  | attempts + 1 =>
    let (sequence, db) := db.nextChannelTaskSequence conversationId
    let candidate := "TASK-" ++ toString sequence
    if db.taskKeyTaken conversationId candidate then
      db.allocateUnusedTaskKey conversationId attempts
    else .ok (candidate, db)

variable (t : GroupWorkflowTask)

/-- The unique index on the conversation, the creator and the idempotency key. -/
def idempotencyTaken : Bool :=
  t.idempotencyKey.isSome && t.createdBy.isSome && db.tasks.rows.any fun u =>
    u.conversationId = t.conversationId && u.createdBy = t.createdBy
      && u.idempotencyKey = t.idempotencyKey

/-- The unique index on the source message and the creator. -/
def sourceTaken : Bool :=
  t.sourceKind = .message && t.sourceMessageId.isSome && t.createdBy.isSome
    && db.tasks.rows.any fun u => u.sourceKind = .message
      && u.sourceMessageId = t.sourceMessageId && u.createdBy = t.createdBy

/-- `INSERT INTO group_workflow_task`; `none` is a unique violation. -/
def insertTask : Option TaskDb :=
  if db.taskKeyTaken t.conversationId t.taskKey || db.idempotencyTaken t || db.sourceTaken t then
    none
  else (db.tasks.insert? t).map fun tasks => { db with tasks }

def findMessageDerivedTask (conversationId actorId messageId : String) : Option String :=
  (db.tasks.rows.find? fun t => t.conversationId = conversationId && t.sourceKind = .message
    && t.sourceMessageId = some messageId && t.createdBy = some actorId).map (·.id)

def findAgentIdempotentTask (conversationId actorId idempotencyKey : String) :
    Option (String × Option String) :=
  (db.tasks.rows.find? fun t => t.conversationId = conversationId && t.createdBy = some actorId
    && t.idempotencyKey = some idempotencyKey).map fun t => (t.id, t.idempotencyPayloadHash)

end TaskDb

structure Creation where
  created : Bool
  taskId : String
deriving DecidableEq

/-- `char::is_alphanumeric`, and the hex of the SHA-256 of a serialised value. -/
structure TaskPrims where
  isAlphanumeric : Char → Bool
  sha256Hex : Json → String

structure CreateChannelTaskFromMessageRequest where
  (messageId title assigneePrincipalId : String)
  contextLabel : Option String := none
  idempotencyKey : Option String := none

structure CreateChannelTaskRequest where
  taskKey : Option String := none
  title : String
  assigneePrincipalId : Option String := none
  status : Option ChannelTaskStatus := none
  contextLabel : Option String := none
  idempotencyKey : String
deriving DecidableEq

def CreateChannelTaskRequest.task (request : CreateChannelTaskRequest)
    (now : Timestamp) (id actorId conversationId taskKey payloadHash : String) :
    GroupWorkflowTask where
  id
  conversationId
  taskKey
  title := request.title
  status := request.status.getD .todo
  assigneePrincipalId := request.assigneePrincipalId.getD actorId
  contextLabel := request.contextLabel
  idempotencyKey := some request.idempotencyKey
  idempotencyPayloadHash := some payloadHash
  createdBy := some actorId
  updatedAt := now

structure CreateGroupWorkflowTaskRequest where
  (taskKey title assigneePrincipalId : String)
  sourceMessageId : Option String := none
  participants : List WorkflowTaskParticipantInput := []

def couldNotCreate : AppError :=
  .internal "could not create channel task after retrying generated task keys"

def idempotencyKeyReused : AppError :=
  .conflict "idempotency_key was already used for a different channel task payload"

def idempotentAnswer (payloadHash : String) (db : TaskDb) (found : String × Option String) :
    TaskResult (Creation × TaskDb) :=
  if found.2 = some payloadHash then .ok (⟨false, found.1⟩, db) else .error idempotencyKeyReused

namespace TaskDb

variable (r : Roster)

def finishCreation (db : TaskDb) (conversationId assigneeId : String) (header : EventHeader)
    (new : Json) (creation : Creation) : TaskResult (Creation × TaskDb) :=
  if creation.created then do
    let db ← db.syncOwnerParticipant r conversationId creation.taskId assigneeId
    let (_, db) ← db.insertWorkflowEvent
      (header.event conversationId (some creation.taskId) (.ofFields [("new", new)]) (some 1))
    .ok (creation, db)
  else .ok (creation, db)

/-- The insert of `create_channel_task_from_message_impl`, with the attempts that are left. -/
def insertFromMessage (db : TaskDb) (now : Timestamp) (ids : ℕ → String)
    (actorId conversationId : String) (request : CreateChannelTaskFromMessageRequest) :
    ℕ → TaskResult (Creation × TaskDb)
  | 0 => .error couldNotCreate
  | attempts + 1 => do
    let (taskKey, db) ← db.allocateUnusedTaskKey conversationId allocateTaskKeyMaxAttempts
    let task : GroupWorkflowTask :=
      { id := ids attempts
        conversationId
        taskKey
        title := request.title
        assigneePrincipalId := request.assigneePrincipalId
        sourceKind := .message
        sourceMessageId := some request.messageId
        contextLabel := request.contextLabel
        idempotencyKey := request.idempotencyKey
        createdBy := some actorId
        updatedAt := now }
    match db.insertTask task with
    | some db => .ok (⟨true, task.id⟩, db)
    | none =>
      match db.findMessageDerivedTask conversationId actorId request.messageId with
      | some existing => .ok (⟨false, existing⟩, db)
      | none =>
        if request.idempotencyKey.any fun key =>
            (db.findAgentIdempotentTask conversationId actorId key).isSome then
          .error (.conflict "channel task key or idempotency key already exists")
        else db.insertFromMessage now ids actorId conversationId request attempts

def requireHuman (actor : Principal) : TaskResult Unit :=
  if actor.principalType = .human then .ok ()
  else .error (.forbidden "only humans can create channel tasks from messages")

def createChannelTaskFromMessage (db : TaskDb) (now : Timestamp) (ids : ℕ → String)
    (eventId actorId conversationId : String) (request : CreateChannelTaskFromMessageRequest) :
    TaskResult (Creation × TaskDb) := do
  validateRequiredText "title" request.title
  validateRequiredText "message_id" request.messageId
  validateRequiredText "assignee_principal_id" request.assigneePrincipalId
  validateOptionalText "context_label" request.contextLabel
  let actor ← r.db.getPrincipal actorId
  requireHuman actor
  let _ ← r.requireMemberAccess actorId conversationId
  r.requireConversationEligible conversationId
  r.validateVisibleAssignee conversationId request.assigneePrincipalId true
  r.validateVisibleMessageSource conversationId request.messageId
  match db.findMessageDerivedTask conversationId actorId request.messageId with
  | some existing => .ok (⟨false, existing⟩, db)
  | none =>
    let (creation, db) ← db.insertFromMessage now ids actorId conversationId request
      generatedTaskInsertMaxAttempts
    db.finishCreation r conversationId request.assigneePrincipalId
      ⟨eventId, "channel_task.created", some request.messageId, some actorId⟩
      (.ofFields [ ("status", .str ChannelTaskStatus.todo.asStr),
        ("assignee_principal_id", .str request.assigneePrincipalId),
        ("context_label", .ofOption request.contextLabel),
        ("source_kind", .str ChannelTaskSourceKind.message.asStr),
        ("source_message_id", .str request.messageId)])
      creation

variable (prims : TaskPrims)

def createPayloadHash (taskKey title assigneeId : String) (status : ChannelTaskStatus)
    (contextLabel : Option String) : String :=
  prims.sha256Hex (.ofFields [ ("assignee_principal_id", .str assigneeId),
    ("context_label", .ofOption contextLabel),
    ("source_kind", .str ChannelTaskSourceKind.agent.asStr),
    ("status", .str status.asStr),
    ("task_key", .str taskKey),
    ("title", .str title)])

def resolveTaskKey (db : TaskDb) (conversationId : String) :
    Option String → TaskResult (String × TaskDb)
  | some taskKey => .ok (taskKey, db)
  | none => db.allocateUnusedTaskKey conversationId allocateTaskKeyMaxAttempts

/-- The insert of `create_channel_task_impl`, with the attempts that are left; an explicit key has
one. -/
def insertFromAgent (db : TaskDb) (now : Timestamp) (ids : ℕ → String)
    (actorId conversationId payloadHash : String) (request : CreateChannelTaskRequest) :
    ℕ → TaskResult (Creation × TaskDb)
  | 0 => .error couldNotCreate
  | attempts + 1 => do
    let (taskKey, db) ← db.resolveTaskKey conversationId request.taskKey
    let task := request.task now (ids attempts) actorId conversationId taskKey payloadHash
    match db.insertTask task with
    | some db => .ok (⟨true, task.id⟩, db)
    | none =>
      -- under an explicit key only a conflict on the idempotency key does nothing
      if request.taskKey.isSome && !db.idempotencyTaken task then
        .error (.conflict "channel task key already exists")
      else
        match db.findAgentIdempotentTask conversationId actorId request.idempotencyKey with
        | some found => idempotentAnswer payloadHash db found
        | none =>
          if request.taskKey.isSome then .error idempotencyKeyReused
          else db.insertFromAgent now ids actorId conversationId payloadHash request attempts

def createChannelTask (db : TaskDb) (now : Timestamp) (ids : ℕ → String)
    (eventId actorId conversationId : String) (request : CreateChannelTaskRequest) :
    TaskResult (Creation × TaskDb) := do
  request.taskKey.forM validateTaskKey
  validateMeaningfulTitle prims.isAlphanumeric request.title
  validateRequiredText "idempotency_key" request.idempotencyKey
  validateOptionalText "context_label" request.contextLabel
  let status := request.status.getD .todo
  let assigneeId := request.assigneePrincipalId.getD actorId
  let payloadHash := createPayloadHash prims (request.taskKey.getD "") request.title assigneeId
    status request.contextLabel
  r.requireVisibleGroupAgentActor actorId conversationId
  match db.findAgentIdempotentTask conversationId actorId request.idempotencyKey with
  | some found => idempotentAnswer payloadHash db found
  | none =>
    -- after a refusal the key is looked up once more, with the same answer
    r.validateVisibleAssignee conversationId assigneeId false
    let attempts := if request.taskKey.isSome then 1 else generatedTaskInsertMaxAttempts
    let (creation, db) ← db.insertFromAgent now ids actorId conversationId payloadHash request
      attempts
    db.finishCreation r conversationId assigneeId
      ⟨eventId, "channel_task.created", none, some actorId⟩
      (.ofFields [ ("status", .str status.asStr), ("assignee_principal_id", .str assigneeId),
        ("context_label", .ofOption request.contextLabel),
        ("source_kind", .str ChannelTaskSourceKind.agent.asStr)])
      creation

/-- `create_group_workflow_task`, which leaves no event. -/
def createGroupWorkflowTask (db : TaskDb) (now : Timestamp)
    (taskId createdBy conversationId : String) (request : CreateGroupWorkflowTaskRequest) :
    TaskResult TaskDb := do
  validateTaskKey request.taskKey
  validateRequiredText "title" request.title
  validateRequiredText "assignee_principal_id" request.assigneePrincipalId
  validateNonOwnerParticipants request.participants
  r.requireGroupConversation conversationId
  let task : GroupWorkflowTask :=
    { id := taskId
      conversationId
      taskKey := request.taskKey
      title := request.title
      assigneePrincipalId := request.assigneePrincipalId
      sourceMessageId := request.sourceMessageId
      createdBy := some createdBy
      updatedAt := now }
  match db.insertTask task with
  | none => .error (.conflict "workflow task key already exists")
  | some db => do
    let db ← db.replaceNonOwnerParticipants r conversationId taskId request.participants
    db.syncOwnerParticipant r conversationId taskId request.assigneePrincipalId

end TaskDb

end Choruz
