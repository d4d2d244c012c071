import Choruz.TaskCreation
import Choruz.WorkflowEvents

/-!
# All writes of channel tasks

Any number of calls over the same tables, each a transaction, or a read and then a transaction with
anything in between.  A transaction may fail, lose its answer, or never come.  The world keeps
every write of a card; no statement reads that list.  `append_group_workflow_event` is there as a
whole, up to the conversation event that tells the members of a changed card.
-/

namespace Choruz

open Relational

inductive TaskField where
  | conversationId | taskKey | title | status | assigneePrincipalId | blockedReason | sourceKind
  | contextLabel | idempotencyKey | idempotencyPayloadHash | sourceMessageId | createdBy
deriving DecidableEq

def GroupWorkflowTask.get (t : GroupWorkflowTask) : TaskField → Option String
  | .conversationId => t.conversationId
  | .taskKey => t.taskKey
  | .title => t.title
  | .status => t.status.asStr
  | .assigneePrincipalId => t.assigneePrincipalId
  | .blockedReason => t.blockedReason
  | .sourceKind => t.sourceKind.asStr
  | .contextLabel => t.contextLabel
  | .idempotencyKey => t.idempotencyKey
  | .idempotencyPayloadHash => t.idempotencyPayloadHash
  | .sourceMessageId => t.sourceMessageId
  | .createdBy => t.createdBy

def PatchChannelTaskRequest.mentions (request : PatchChannelTaskRequest) : TaskField → Bool
  | .status => request.status.isSome
  | .assigneePrincipalId => request.assigneePrincipalId.isSome
  | .blockedReason => !request.blockedReason.isUnchanged
  | .contextLabel => !request.contextLabel.isUnchanged
  | _ => false

def UpdateGroupWorkflowTaskRequest.mentions (request : UpdateGroupWorkflowTaskRequest) :
    TaskField → Bool
  | .title => request.title.isSome
  | .status => request.status.isSome
  | .assigneePrincipalId => request.assigneePrincipalId.isSome
  | _ => false

/-- A row of a card that was written, over the one there, and what the request mentioned. -/
structure TaskWrite where
  mentions : TaskField → Bool
  before : Option GroupWorkflowTask
  after : GroupWorkflowTask

def TaskDb.written (mentions : TaskField → Bool) (db db' : TaskDb) : List TaskWrite :=
  (db'.tasks.rows.filter fun t => db.tasks.lookup t.id ≠ some t).map fun t =>
    ⟨mentions, db.tasks.lookup t.id, t⟩

/-- The calls that are one transaction. -/
inductive TaskTxn where
  | createFromMessage (ids : ℕ → String) (eventId actorId conversationId : String)
      (request : CreateChannelTaskFromMessageRequest)
  | create (ids : ℕ → String) (eventId actorId conversationId : String)
      (request : CreateChannelTaskRequest)
  | createWorkflowTask (taskId createdBy conversationId : String)
      (request : CreateGroupWorkflowTaskRequest)
  | patch (eventId actorId taskId : String) (request : PatchChannelTaskRequest)
  | replaceParticipants (taskId : String) (participants : List WorkflowTaskParticipantInput)
  | addParticipant (taskId : String) (participant : WorkflowTaskParticipantInput)
  | removeParticipant (taskId principalId roleKey : String)

namespace TaskTxn

def exec (prims : TaskPrims) (r : Roster) (now : Timestamp) (db : TaskDb) :
    TaskTxn → TaskResult TaskDb
  | createFromMessage ids eventId actorId conversationId request =>
    (db.createChannelTaskFromMessage r now ids eventId actorId conversationId request).map (·.2)
  | create ids eventId actorId conversationId request =>
    (db.createChannelTask r prims now ids eventId actorId conversationId request).map (·.2)
  | createWorkflowTask taskId createdBy conversationId request =>
    db.createGroupWorkflowTask r now taskId createdBy conversationId request
  | patch eventId actorId taskId request =>
    (db.patchChannelTask r now eventId actorId taskId request).map (·.2)
  | replaceParticipants taskId participants =>
    db.replaceGroupWorkflowTaskParticipants r taskId participants
  | addParticipant taskId participant => db.addGroupWorkflowTaskParticipant r taskId participant
  | removeParticipant taskId principalId roleKey =>
    db.removeGroupWorkflowTaskParticipant taskId principalId roleKey

/-- What the request mentions of a card that is there. -/
def mentions : TaskTxn → TaskField → Bool
  | patch _ _ _ request => request.mentions
  | _ => fun _ => false

end TaskTxn

inductive TaskRequest where
  | update (taskId : String) (request : UpdateGroupWorkflowTaskRequest)
  | append (appender : Appender) (request : AppendGroupWorkflowEventRequest)

inductive TaskCallStage where
  | start
  | writing (task : Option GroupWorkflowTask)
  | returned (answer : TaskResult Unit)

structure TaskCall where
  request : TaskRequest
  stage : TaskCallStage := .start

namespace TaskRequest

variable (r : Roster)

def read (db : TaskDb) : TaskRequest → TaskResult (Option GroupWorkflowTask)
  | update taskId request => (db.readForUpdate taskId request).map some
  | append appender request => db.readForAppend r appender request

def write (now : Timestamp) (eventId : String) (db : TaskDb) (task : Option GroupWorkflowTask) :
    TaskRequest → TaskResult TaskDb
  | update taskId request =>
    match task with
    | some existing => db.updateGroupWorkflowTask r now taskId existing request
    | none => .error (.notFound "workflow task not found")
  | append appender request =>
    (db.appendWorkflowEvent r now eventId appender request task).map (·.2)

def mentions : TaskRequest → TaskField → Bool
  | update _ request => request.mentions
  | append _ _ => (· = .status)

def updates (taskId : String) : TaskRequest → Bool
  | update t _ => t = taskId
  | append _ _ => false

end TaskRequest

structure TaskWorld where
  db : TaskDb := {}
  calls : List TaskCall := []
  writes : List TaskWrite := []

inductive TaskAction where
  | transact (r : Roster) (now : Timestamp) (txn : TaskTxn) (fault : Fault)
  | begin (request : TaskRequest)
  | read (i : ℕ) (r : Roster) (fault : Fault)
  | write (i : ℕ) (r : Roster) (now : Timestamp) (eventId : String) (fault : Fault)

namespace TaskWorld

variable (w : TaskWorld)

def commit (fault : Fault) (mentions : TaskField → Bool)
    (result : TaskResult TaskDb) : TaskResult Unit × TaskWorld :=
  let (db, answer) := fault.outcome connectionClosed w.db (result.map fun db => ((), db))
  (answer, { w with db, writes := w.writes ++ w.db.written mentions db })

def setStage (i : ℕ) (call : TaskCall) (stage : TaskCallStage) : TaskWorld :=
  { w with calls := w.calls.set i { call with stage } }

def step (prims : TaskPrims) (w : TaskWorld) : TaskAction → Option TaskWorld
  | .transact r now txn fault => some (w.commit fault txn.mentions (txn.exec prims r now w.db)).2
  | .begin request => some { w with calls := w.calls ++ [{ request }] }
  | .read i r fault => w.calls[i]?.bind fun call =>
    match call.stage with
    | .start => some (w.setStage i call (match fault, call.request.read r w.db with
      | .none, .ok task => .writing task
      | .none, .error e => .returned (.error e)
      | _, _ => .returned (.error connectionClosed)))
    | _ => none
  | .write i r now eventId fault => w.calls[i]?.bind fun call =>
    match call.stage with
    | .writing task =>
      let (answer, w) := w.commit fault call.request.mentions
        (call.request.write r now eventId w.db task)
      some (w.setStage i call (.returned answer))
    | _ => none

def savedAt (taskId : String) (v : ℕ) : List GroupWorkflowTask :=
  (w.writes.map (·.after)).filter fun t => t.id = taskId && t.version = v

def eventsAt (taskId : String) (v : ℕ) : List GroupWorkflowEvent :=
  w.db.events.rows.filter fun e => e.taskId = some taskId && e.resultingVersion = some v

end TaskWorld

structure VisibleValues.ReadFrom (v : VisibleValues) (j : Option Json) : Prop where
  status : j.bind (·.field? "status") = some (.str v.status.asStr)
  assignee : j.bind (·.field? "assignee_principal_id") = some (.str v.assigneePrincipalId)
  blockedReason : j.bind (·.field? "blocked_reason") = some (.ofOption v.blockedReason)
  contextLabel : j.bind (·.field? "context_label") = some (.ofOption v.contextLabel)

def GroupWorkflowEvent.Tells (e : GroupWorkflowEvent) (before after : GroupWorkflowTask) : Prop :=
  before.visible.ReadFrom (e.payload.field? "previous")
    ∧ after.visible.ReadFrom (e.payload.field? "new")

namespace TaskWorld

/-- Each version of the card after the first was written once, over the version before it, and has
exactly one stored event, which tells the two. -/
def ExactHistory (w : TaskWorld) (taskId : String) : Prop :=
  ∀ t ∈ w.db.tasks, t.id = taskId → ∀ v, 1 < v → v ≤ t.version →
    ∃ before after e, w.savedAt taskId (v - 1) = [before] ∧ w.savedAt taskId v = [after]
      ∧ w.eventsAt taskId v = [e] ∧ e.Tells before after

/-- No write of the card changed a field that its request did not mention. -/
def MentionedOnly (w : TaskWorld) (taskId : String) : Prop :=
  ∀ x ∈ w.writes, x.after.id = taskId → ∀ before ∈ x.before, ∀ f, x.mentions f = false →
    x.after.get f = before.get f

def NoDirectUpdate (taskId : String) (w : TaskWorld) : TaskAction → Prop
  | .write i _ _ _ _ => ∀ call ∈ w.calls[i]?, call.request.updates taskId = false
  | _ => True

instance (taskId : String) (w : TaskWorld) : ∀ action, Decidable (w.NoDirectUpdate taskId action)
  | .write i _ _ _ _ => inferInstanceAs (Decidable
      (∀ call ∈ w.calls[i]?, call.request.updates taskId = false))
  | .transact .. | .begin _ | .read .. => isTrue trivial

end TaskWorld

def TaskDb.owners (db : TaskDb) (taskId : String) : List GroupWorkflowTaskParticipant :=
  db.participants.filter fun q => q.taskId = taskId && q.roleKey = "owner"

/-- Every card has exactly one owner row, that of its assignee. -/
def TaskDb.OwnersMatch (db : TaskDb) : Prop :=
  ∀ t ∈ db.tasks, ∃ q, db.owners t.id = [q] ∧ q.principalId = t.assigneePrincipalId

variable (r : Roster)

def Roster.isInternalAgent (principalId : String) : Bool :=
  (r.principals.find? (·.id = principalId)).any fun p =>
    p.principalType = .agent && r.isInternal p.id

variable (conversationId principalId : String)

def Roster.Assignable : Prop :=
  (∃ m ∈ r.members, m.convId = conversationId ∧ m.principalId = principalId ∧ m.removedAt = none)
    ∧ (∃ p ∈ r.principals, p.id = principalId ∧ p.disabled = false ∧ p.deletedAt = none)
    ∧ r.isInternalAgent principalId = false

instance : Decidable (r.Assignable conversationId principalId) :=
  inferInstanceAs (Decidable (_ ∧ _ ∧ _))

def TaskAction.roster : TaskAction → Roster
  | .transact r _ _ _ | .read _ r _ | .write _ r _ _ _ => r
  | .begin _ => {}

/-- Every card whose assignee the step set got one who may be assigned. -/
def TaskDb.AssignsValid (db db' : TaskDb) : Prop :=
  ∀ t ∈ db'.tasks, (db.tasks.lookup t.id).map (·.assigneePrincipalId) ≠ some t.assigneePrincipalId →
      r.Assignable t.conversationId t.assigneePrincipalId

/-- The two calls that do not look at an assignee's visibility are not given an internal agent. -/
def TaskWorld.assigneeShown (w : TaskWorld) : TaskAction → Bool
  | .transact r _ (.createWorkflowTask _ _ _ request) _ =>
    !r.isInternalAgent request.assigneePrincipalId
  | .write i r _ _ _ =>
    match w.calls[i]? with
    | some ⟨.update _ request, .writing (some existing)⟩ =>
      !r.isInternalAgent (request.assigneePrincipalId.getD existing.assigneePrincipalId)
    | _ => true
  | _ => true

structure BoardDb where
  tasks : TaskDb := {}
  db : Db := {}

namespace Roster

variable (r : Roster)

def visibleAuthor? (conversationId principalId : String) : Option Principal :=
  ((r.member? conversationId principalId).filter fun (p, c) =>
    (p.workspaceId = c.workspaceId
      || (p.principalType = .human && r.companyMember c.workspaceId p.id))
      && !(p.principalType = .agent && r.isInternal p.id)).map (·.1)

end Roster

def Db.sourceMessage? (db : Db) (t : GroupWorkflowTask) : Option String :=
  t.sourceMessageId.filter fun messageId => db.conversationEvents.any fun e =>
    e.conversationId = t.conversationId && e.eventId = messageId
      && ["message", "message.created", "reply"].contains e.eventType

/-- A `ChannelTaskSnapshot` in JSON; what is not there is left out. -/
def taskSnapshot (r : Roster) (db : Db) (t : GroupWorkflowTask) : Json :=
  let assignee := (r.visibleMember? t.conversationId t.assigneePrincipalId).map (·.1)
  let creator := t.createdBy.bind (r.visibleAuthor? t.conversationId)
  .ofFields ([ ("task_id", some (.str t.id)), ("conversation_id", some (.str t.conversationId)),
    ("task_key", some (.str t.taskKey)),
    ("title", some (.str t.title)),
    ("status", some (.str t.status.asStr)),
    ("assignee_principal_id", assignee.map (.str ·.id)),
    ("assignee_type", assignee.map (.str ·.principalType.asStr)),
    ("assignee_name", assignee.map (.str ·.name)),
    ("blocked_reason", t.blockedReason.map .str),
    ("context_label", t.contextLabel.map .str),
    ("source_kind", some (.str t.sourceKind.asStr)),
    ("source_message_id", (db.sourceMessage? t).map .str),
    ("created_by", creator.map (.str ·.id)),
    ("created_by_type", creator.map (.str ·.principalType.asStr)),
    ("version", some (.num t.version)),
    ("updated_at", some (.num t.updatedAt))].filterMap fun (key, value) =>
      value.map fun value => (key, value))

namespace BoardDb

variable (r : Roster)

def channelTaskSnapshot (board : BoardDb) (taskId : String) :
    TaskResult (GroupWorkflowTask × Json) :=
  match board.tasks.tasks.lookup taskId with
  | none => .error (.notFound "channel task not found")
  | some t =>
    if r.conversations.any (·.id = t.conversationId) then .ok (t, taskSnapshot r board.db t)
    else .error (.notFound "channel task not found")

def insertChannelTaskFanoutEvent (board : BoardDb) (now : Timestamp)
    (eventId conversationId : String) (actorId : Option String) (eventType taskId : String) :
    TaskResult BoardDb := do
  let (t, snapshot) ← board.channelTaskSnapshot r taskId
  let event : ConversationEvent :=
    { conversationId
      eventId
      eventType
      senderId := actorId.getD "system"
      content := none
      contentType := "application/vnd.choruz.channel-task+json"
      metadata := .ofFields [ ("event_type", .str eventType),
        ("conversation_id", .str t.conversationId),
        ("task_id", .str t.id),
        ("version", .num t.version),
        ("updated_at", .num t.updatedAt),
        ("task", snapshot)]
      clientMsgId := none
      turnId := none
      replyEventId := none }
  match board.db.insertConversationEvent now event with
  | none => .error (.internal ("insert channel task fanout event: duplicate key value violates "
      ++ "unique constraint"))
  | some (_, db) => .ok { board with db }

end BoardDb

def Appender.actor : Appender → Option String
  | .toTask _ actorId | .toConversation _ actorId => some actorId
  | .trustedSystem _ => none

def Appender.conversation (task : GroupWorkflowTask) : Appender → String
  | .toTask _ _ => task.conversationId
  | .toConversation conversationId _ | .trustedSystem conversationId => conversationId

namespace BoardDb

variable (r : Roster)

def appendWorkflowEvent (board : BoardDb) (now : Timestamp) (eventId fanoutId : String)
    (appender : Appender) (request : AppendGroupWorkflowEventRequest)
    (task : Option GroupWorkflowTask) : TaskResult (GroupWorkflowEvent × BoardDb) := do
  let (event, tasks) ← board.tasks.appendWorkflowEvent r now eventId appender request task
  let board := { board with tasks }
  match task.filter fun _ => event.resultingVersion.isSome with
  | none => .ok (event, board)
  | some task =>
    let board ← board.insertChannelTaskFanoutEvent r now fanoutId (appender.conversation task)
      appender.actor "channel_task.updated" task.id
    .ok (event, board)

/-- `append_group_workflow_event`: the task is read from the tables as they were at `seen`, the
transaction runs on `board`, and its commit may fail or lose its answer. -/
def appendGroupWorkflowEvent (board : BoardDb) (seenBy : Roster) (seen : TaskDb) (now : Timestamp)
    (eventId fanoutId taskId defaultActorId : String) (request : AppendGroupWorkflowEventRequest)
    (fault : Fault) : BoardDb × TaskResult GroupWorkflowEvent :=
  let appender := .toTask taskId defaultActorId
  match seen.readForAppend seenBy appender request with
  | .error e => (board, .error e)
  | .ok task => fault.outcome connectionClosed board
      (board.appendWorkflowEvent r now eventId fanoutId appender request task)

end BoardDb

def TaskRequest.sentBy (agentId : String) : TaskRequest → Bool
  | .append appender _ => appender.actor = some agentId
  | .update _ _ => false

def TaskRequest.isFeedback : TaskRequest → Bool
  | .append _ request => request.kind = "task.feedback"
  | .update _ _ => false

namespace TaskWorld

def sentBy (agentId : String) (w : TaskWorld) : TaskAction → Bool
  | .transact _ _ (.patch _ actorId _ _) _ => actorId = agentId
  | .begin request => request.sentBy agentId
  | .read i _ _ | .write i _ _ _ _ => w.calls[i]?.any (·.request.sentBy agentId)
  | _ => false

def sendsFeedback (w : TaskWorld) : TaskAction → Bool
  | .write i _ _ _ _ => w.calls[i]?.any (·.request.isFeedback)
  | _ => false

/-- An agent sends the step, does not coordinate the conversation of the card, and sends no feedback
as one of its reviewers. -/
def outsider (agentId taskId : String) (w : TaskWorld) (action : TaskAction) : Bool :=
  w.sentBy agentId action
    && action.roster.principals.all (fun p => p.id ≠ agentId || p.principalType = .agent)
    && (w.db.tasks.lookup taskId).all
      (fun t => !action.roster.isCoordinator agentId t.conversationId)
    && !(w.sendsFeedback action
      && w.db.actorHasRole taskId agentId ["reviewer", "quality_check", "approver"])

end TaskWorld

end Choruz
