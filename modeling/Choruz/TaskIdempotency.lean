import Choruz.TaskWorld

/-!
# Concurrent creation of one task

`create_channel_task_impl`, statement by statement.  Each call has a transaction of its own, under
READ COMMITTED: a statement reads what is committed when it starts, and an insert waits for another
open transaction whose row or sequence value it collides with.  Between two statements of a call
the other calls and every other write of the task tables may come.
-/

namespace Choruz

open Relational

/-- Where a call is.  A call that has inserted its row keeps it, with what it writes after it, until
its transaction commits. -/
inductive CreateStage where
  | start | lookup | assignee
  | fallback (refusal : AppError)
  /-- Take the next sequence value; `probes` more may be taken. -/
  | sequence (attempts probes : ℕ)
  | probe (attempts probes : ℕ) (candidate : String)
  | insert (attempts : ℕ) (taskKey : String)
  /-- The insert under an explicit key has found no task of the idempotency key, and puts its row
  into the unique indexes. -/
  | place (attempts : ℕ) (taskKey : String)
  | relookup (attempts : ℕ)
  | owner (task : GroupWorkflowTask)
  | event (task : GroupWorkflowTask) (owners : List GroupWorkflowTaskParticipant)
  | commit (task : GroupWorkflowTask) (owners : List GroupWorkflowTaskParticipant)
      (event : GroupWorkflowEvent)
  | commitExisting (taskId : String)
  | snapshot (taskId : String)
  | returned (answer : TaskResult Creation)

def CreateStage.draft? : CreateStage → Option GroupWorkflowTask
  | owner task | event task _ | commit task _ _ => some task
  | _ => none

/-- The stages that look the idempotency key up. -/
def CreateStage.looksUp : CreateStage → Bool
  | lookup | fallback _ | relookup _ => true
  | _ => false

structure CreateCall where
  (actorId conversationId : String)
  request : CreateChannelTaskRequest
  stage : CreateStage := .start
  sequence : Option ℕ := none
  /-- The transaction has taken effect; no statement reads this. -/
  committed : Bool := false

structure CreateInput where
  roster : Roster := {}
  now : Timestamp := 0
  id : String := ""
  /-- `company.deleted_at IS NOT NULL`. -/
  companyDeleted : String → Bool := fun _ => false

def CreateInput.workspaceAccess (x : CreateInput) (p : Principal) (workspaceId : String) : Bool :=
  if p.workspaceId = workspaceId then !x.companyDeleted workspaceId
  else x.roster.companyMember workspaceId p.id

def CreateInput.requireConversationAccess (x : CreateInput)
    (actorId conversationId : String) : TaskResult Unit := do
  let principal ← x.roster.db.getPrincipal actorId
  let conversation ← x.roster.db.getConversation conversationId
  if x.roster.members.any (fun m => m.convId = conversation.id && m.principalId = actorId
        && m.removedAt.isNone)
      && x.workspaceAccess principal conversation.workspaceId then .ok ()
  else .error (.forbidden "principal is not a member of this conversation")

def GroupWorkflowTask.sameCard (t u : GroupWorkflowTask) : Bool :=
  u.conversationId = t.conversationId && u.taskKey = t.taskKey

def GroupWorkflowTask.sameRequest (t u : GroupWorkflowTask) : Bool :=
  u.conversationId = t.conversationId && u.createdBy = t.createdBy
    && u.idempotencyKey = t.idempotencyKey

structure CreatePayload where
  (taskKey title assigneeId : String)
  status : ChannelTaskStatus
  contextLabel : Option String

namespace CreateCall

variable (prims : TaskPrims) (call : CreateCall)

def assigneeId : String := call.request.assigneePrincipalId.getD call.actorId

def status : ChannelTaskStatus := call.request.status.getD .todo

def payload : CreatePayload where
  taskKey := call.request.taskKey.getD ""
  title := call.request.title
  assigneeId := call.assigneeId
  status := call.status
  contextLabel := call.request.contextLabel

def payloadHash : String :=
  TaskDb.createPayloadHash prims call.payload.taskKey call.payload.title call.payload.assigneeId
    call.payload.status call.payload.contextLabel

def task (x : CreateInput) (taskKey : String) : GroupWorkflowTask :=
  call.request.task x.now x.id call.actorId call.conversationId taskKey (call.payloadHash prims)

def createdEvent (id : String) (taskId : String) : GroupWorkflowEvent :=
  EventHeader.event ⟨id, "channel_task.created", none, some call.actorId⟩ call.conversationId
    (some taskId)
    (.ofFields [("new", .ofFields [ ("status", .str call.status.asStr),
      ("assignee_principal_id", .str call.assigneeId),
      ("context_label", .ofOption call.request.contextLabel),
      ("source_kind", .str ChannelTaskSourceKind.agent.asStr)])])
    (some 1)

def goto (stage : CreateStage) : CreateCall := { call with stage }

def fail (e : AppError) : CreateCall :=
  { call with stage := .returned (.error e), sequence := none }

variable (db : TaskDb)

/-- The tables with the sequence value the call has set. -/
def view : TaskDb :=
  match call.sequence with
  | none => db
  | some next => (db.advanceSequence call.conversationId next fun _ => next).2

def found : Option (String × Option String) :=
  db.findAgentIdempotentTask call.conversationId call.actorId call.request.idempotencyKey

def answer (found : String × Option String) : CreateCall :=
  if found.2 = some (call.payloadHash prims) then call.goto (.commitExisting found.1)
  else call.fail idempotencyKeyReused

def validate (x : CreateInput) : TaskResult Unit := do
  call.request.taskKey.forM validateTaskKey
  validateMeaningfulTitle prims.isAlphanumeric call.request.title
  validateRequiredText "idempotency_key" call.request.idempotencyKey
  validateOptionalText "context_label" call.request.contextLabel
  x.roster.requireVisibleGroupAgentActor call.actorId call.conversationId

def firstInsert : CreateStage :=
  match call.request.taskKey with
  | some taskKey => .insert 0 taskKey
  | none => .sequence (generatedTaskInsertMaxAttempts - 1) allocateTaskKeyMaxAttempts

def gotoWith (stage : CreateStage) : CreateCall :=
  { call with
    stage
    sequence := (db.sequences.find? (·.1 = call.conversationId)).map (·.2) }

variable (drafts : List GroupWorkflowTask)

/-- The insert of a row.  Without a conflict target every unique index makes it do nothing; under
an explicit key only that of the idempotency key does, which is read first. -/
def insertStatement (x : CreateInput)
    (attempts : ℕ) (taskKey : String) : Option CreateCall :=
  let task := call.task prims x taskKey
  if call.request.taskKey.isSome then
    if drafts.any task.sameRequest then none
    else if db.idempotencyTaken task then some (call.goto (.relookup attempts))
    else some (call.goto (.place attempts taskKey))
  else if drafts.any fun d => task.sameRequest d || task.sameCard d then none
  else
    match db.insertTask task with
    | none => some (call.goto (.relookup attempts))
    | some _ => some (call.goto (.owner task))

/-- The row of an explicit key goes into the indexes: a task key that is taken is a violation, an
idempotency key that is taken by now sends the insert back to read it again. -/
def placeStatement (x : CreateInput)
    (attempts : ℕ) (taskKey : String) : Option CreateCall :=
  let task := call.task prims x taskKey
  if drafts.any task.sameCard then none
  else if db.taskKeyTaken task.conversationId task.taskKey then
    some (call.fail (.conflict "channel task key already exists"))
  else if drafts.any task.sameRequest || db.idempotencyTaken task then
    some (call.goto (.insert attempts taskKey))
  else some (call.goto (.owner task))

/-- The next statement of a call but a commit; `none` waits for another transaction.  `drafts` are
the rows of the other open transactions, and `locked` says that one of them holds the sequence of
the conversation. -/
def statement (locked : Bool)
    (x : CreateInput) : Option CreateCall :=
  match call.stage with
  | .start => some (match call.validate prims x with
    | .ok _ => call.goto .lookup
    | .error e => call.fail e)
  | .lookup => some (match call.found db with
    | some found => call.answer prims found
    | none => call.goto .assignee)
  | .assignee => some (
    match x.roster.validateVisibleAssignee call.conversationId call.assigneeId false with
    | .ok _ => call.goto call.firstInsert
    | .error e => call.goto (.fallback e))
  | .fallback refusal => some (match call.found db with
    | some found => call.answer prims found
    | none => call.fail refusal)
  | .sequence attempts 0 =>
    if locked then none
    else some (match (call.view db).allocateTaskKeyAfterExistingMax call.conversationId with
      | .ok (taskKey, db) => call.gotoWith db (.insert attempts taskKey)
      | .error e => call.fail e)
  | .sequence attempts (probes + 1) =>
    if locked then none
    else
      let (sequence, db) := (call.view db).nextChannelTaskSequence call.conversationId
      some (call.gotoWith db (.probe attempts probes ("TASK-" ++ toString sequence)))
  | .probe attempts probes candidate =>
    some (call.goto (if db.taskKeyTaken call.conversationId candidate then
      .sequence attempts probes else .insert attempts candidate))
  | .insert attempts taskKey => call.insertStatement prims db drafts x attempts taskKey
  | .place attempts taskKey => call.placeStatement prims db drafts x attempts taskKey
  | .relookup attempts => some (match call.found db, call.request.taskKey, attempts with
    | some found, _, _ => call.answer prims found
    | none, some _, _ => call.fail idempotencyKeyReused
    | none, none, 0 => call.fail couldNotCreate
    | none, none, attempts + 1 => call.goto (.sequence attempts allocateTaskKeyMaxAttempts))
  | .owner task => some (
    match ({} : TaskDb).syncOwnerParticipant x.roster call.conversationId task.id
        call.assigneeId with
    | .ok written => call.goto (.event task written.participants)
    | .error e => call.fail e)
  | .event task owners => some (match db.insertWorkflowEvent (call.createdEvent x.id task.id) with
    | .ok (event, _) => call.goto (.commit task owners event)
    | .error e => call.fail e)
  | .snapshot taskId => some (match db.tasks.lookup taskId with
    | none => call.fail (.notFound "channel task not found")
    | some task =>
      match x.requireConversationAccess call.actorId task.conversationId with
      | .ok _ => call.goto (.returned (.ok ⟨false, taskId⟩))
      | .error e => call.fail e)
  | .commit .. | .commitExisting _ | .returned _ => none

/-- The tables after the transaction of a new task.  Ids are fresh: there is no commit under one
that is taken. -/
def write (task : GroupWorkflowTask) (owners : List GroupWorkflowTaskParticipant)
    (event : GroupWorkflowEvent) : Option TaskDb :=
  match db.tasks.insert? task, db.events.insert? event with
  | some tasks, some events => some { call.view db with
      tasks
      participants := db.participants ++ owners
      events }
  | _, _ => none

def committing (fault : Fault) (stage : CreateStage) : CreateCall :=
  { call with
    stage := if fault = .none then stage else .returned (.error connectionClosed)
    sequence := none
    committed := fault ≠ .rolledBack }

end CreateCall

structure CreateWorld where
  db : TaskDb := {}
  calls : List CreateCall := []

inductive CreateAction where
  | begin (actorId conversationId : String) (request : CreateChannelTaskRequest)
  | call (i : ℕ) (x : CreateInput) (fault : Fault)
  | transact (r : Roster) (now : Timestamp) (txn : TaskTxn) (fault : Fault)
  | write (r : Roster) (now : Timestamp) (eventId : String) (request : TaskRequest)
      (task : Option GroupWorkflowTask) (fault : Fault)

def TaskTxn.isCreate : TaskTxn → Bool
  | create .. => true
  | _ => false

namespace CreateWorld

variable (w : CreateWorld)

def drafts (i : ℕ) : List GroupWorkflowTask :=
  (w.calls.eraseIdx i).filterMap (·.stage.draft?)

def locked (i : ℕ) (conversationId : String) : Bool :=
  (w.calls.eraseIdx i).any fun c => c.conversationId = conversationId && c.sequence.isSome

/-- No row or sequence value of an open transaction is in the way of the tables. -/
def admits (db : TaskDb) : Bool :=
  w.calls.all fun c =>
    (c.stage.draft?.all fun d => db.tasks.rows.all fun t =>
      !d.sameRequest t && !d.sameCard t && t.id ≠ d.id)
    && (c.sequence.isNone || db.sequences.find? (·.1 = c.conversationId) =
      w.db.sequences.find? (·.1 = c.conversationId))

/-- The outcome of another transaction, which waits while an open one is in its way. -/
def settle (fault : Fault) (result : TaskResult TaskDb) : Option CreateWorld :=
  let db := (fault.outcome connectionClosed w.db (result.map fun db => ((), db))).1
  if w.admits db then some { w with db } else none

def setCall (i : ℕ) (call : CreateCall) : CreateWorld :=
  { w with calls := w.calls.set i call }

def commit (i : ℕ) (call : CreateCall) (fault : Fault) (db : TaskDb)
    (stage : CreateStage) : CreateWorld :=
  { db := if fault = .rolledBack then w.db else db
    calls := w.calls.set i (call.committing fault stage) }

def step (prims : TaskPrims) (w : CreateWorld) : CreateAction → Option CreateWorld
  | .begin actorId conversationId request => some { w with
      calls := w.calls ++ [⟨actorId, conversationId, request, .start, none, false⟩] }
  | .call i x fault => w.calls[i]?.bind fun call =>
    match call.stage with
    | .returned _ => none
    | .commit task owners event => (call.write w.db task owners event).map fun db =>
        w.commit i call fault db (.returned (.ok ⟨true, task.id⟩))
    | .commitExisting taskId => some (w.commit i call fault (call.view w.db) (.snapshot taskId))
    | _ =>
      if fault = .none then
        (call.statement prims w.db (w.drafts i) (w.locked i call.conversationId) x).map
          (w.setCall i)
      else some (w.setCall i (call.fail connectionClosed))
  | .transact r now txn fault =>
    if txn.isCreate then none else w.settle fault (txn.exec prims r now w.db)
  | .write r now eventId request task fault =>
    w.settle fault (request.write r now eventId w.db task)

end CreateWorld

def TaskDb.tasksOf (db : TaskDb) (conversationId actorId idempotencyKey : String) :
    List GroupWorkflowTask :=
  db.tasks.rows.filter fun t => t.conversationId = conversationId && t.createdBy = some actorId
    && t.idempotencyKey = some idempotencyKey

def TaskDb.creationsOf (db : TaskDb) (conversationId actorId idempotencyKey : String) :
    List GroupWorkflowEvent :=
  db.events.rows.filter fun e => e.resultingVersion = some 1
    && (db.tasksOf conversationId actorId idempotencyKey).any fun t => e.taskId = some t.id

def CreateCall.tasks (call : CreateCall) (db : TaskDb) : List GroupWorkflowTask :=
  db.tasksOf call.conversationId call.actorId call.request.idempotencyKey

/-- The calls are by one agent, with one key, in one conversation. -/
def CreateCall.SameKey (a b : CreateCall) : Prop :=
  a.conversationId = b.conversationId ∧ a.actorId = b.actorId
    ∧ a.request.idempotencyKey = b.request.idempotencyKey

namespace CreateWorld

/-- The hash tells the payloads of the calls apart. -/
def HashesApart (prims : TaskPrims) (w : CreateWorld) : Prop :=
  ∀ a ∈ w.calls, ∀ b ∈ w.calls, a.payloadHash prims = b.payloadHash prims → a.payload = b.payload

/-- What the answers of the calls say. -/
structure Answered (prims : TaskPrims) (w : CreateWorld) : Prop where
  one_task : ∀ conversationId actorId key, (w.db.tasksOf conversationId actorId key).length ≤ 1
  one_creation : ∀ conversationId actorId key,
    (w.db.creationsOf conversationId actorId key).length ≤ 1
  /-- A call that returns a task returns the task of its key, whose payload is its own. -/
  returned : ∀ call ∈ w.calls, ∀ creation, call.stage = .returned (.ok creation) →
    ∃ t, call.tasks w.db = [t] ∧ t.id = creation.taskId
      ∧ t.idempotencyPayloadHash = some (call.payloadHash prims)
  /-- Calls with one key and different payloads do not both return a task. -/
  apart : w.HashesApart prims → ∀ a ∈ w.calls, ∀ b ∈ w.calls, a.SameKey b →
    ∀ x y, a.stage = .returned (.ok x) → b.stage = .returned (.ok y) → a.payload = b.payload
  /-- A call that returns a conflict has written nothing. -/
  conflict_wrote_nothing : ∀ call ∈ w.calls, ∀ m,
    call.stage = .returned (.error (.conflict m)) → call.committed = false
  /-- The payload of a call that returns a task gets no conflict. -/
  conflict : w.HashesApart prims → ∀ a ∈ w.calls, ∀ b ∈ w.calls, a.SameKey b →
    ∀ x m, a.stage = .returned (.ok x) → b.stage = .returned (.error (.conflict m)) →
      a.payload ≠ b.payload

/-- What the statements of a call do once its key has a task. -/
structure Settles (prims : TaskPrims) (w : CreateWorld) (i : ℕ) (call : CreateCall)
    (t : GroupWorkflowTask) : Prop where
  /-- A lookup goes by the payload, and leaves the tables alone. -/
  lookup : call.stage.looksUp → ∀ x, w.step prims (.call i x .none) =
    some (w.setCall i (if t.idempotencyPayloadHash = some (call.payloadHash prims) then
      call.goto (.commitExisting t.id) else call.fail idempotencyKeyReused))
  /-- An insert does nothing, and is followed by a lookup. -/
  insert : ∀ attempts taskKey, call.stage = .insert attempts taskKey → ∀ x w',
    w.step prims (.call i x .none) = some w' → w' = w.setCall i (call.goto (.relookup attempts))
  /-- After the lookup the call returns the task to who may see it. -/
  existing : ∀ taskId, call.stage = .commitExisting taskId → ∀ x, ∃ w',
    w.step prims (.call i x .none) = some w' ∧ ∃ call', w'.calls[i]? = some call'
      ∧ call'.stage = .snapshot taskId
  snapshot : ∀ taskId, call.stage = .snapshot taskId → taskId = t.id → ∀ x,
    x.requireConversationAccess call.actorId t.conversationId = .ok () →
      w.step prims (.call i x .none) =
        some (w.setCall i (call.goto (.returned (.ok ⟨false, t.id⟩))))

/-- What a step of a call leaves alone. -/
structure Keeps (w : CreateWorld) (i : ℕ) (w' : CreateWorld) : Prop where
  /-- No call changes a stored task. -/
  tasks : ∀ t ∈ w.db.tasks, t ∈ w'.db.tasks
  /-- A call that has not inserted a task changes none of the board. -/
  board : ∀ call, w.calls[i]? = some call → call.stage.draft? = none →
    w'.db.tasks = w.db.tasks ∧ w'.db.participants = w.db.participants ∧ w'.db.events = w.db.events
  /-- A call whose transaction has not taken effect has changed nothing. -/
  uncommitted : ∀ call, w'.calls[i]? = some call → call.committed = false → w'.db = w.db

/-- When an insert under an explicit key puts its row into the unique indexes, no task with both its
keys has been committed since it has read the idempotency key. -/
def unraced (w : CreateWorld) : CreateAction → Bool
  | .call i _ _ => (w.calls[i]?).all fun call =>
    match call.stage with
    | .place _ taskKey => (call.tasks w.db).all (·.taskKey ≠ taskKey)
    | _ => true
  | _ => true

end CreateWorld

end Choruz
