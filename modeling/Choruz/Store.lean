import Choruz.Models
import Choruz.Table

/-!
# The database and `PgSessionStore`

The tables the pipeline writes and the administrative ones it reads.  A statement that names
`status` or `epoch` of `session_registry` runs the trigger of V049, and an insert into
`conversation_events` the publication trigger of V069; both are part of the statement here.

Each operation is one transaction: it returns the database it commits, or the error with which it
rolls back.  `now` is its clock reading and `uuid i` the `i`-th identifier it draws.  Locks order
transactions and have no other effect here.
-/

namespace Choruz

open Relational

inductive BindingState where
  | idle | running | paused | disabled | error
deriving DecidableEq

structure RuntimeBinding where
  (id conversationId agentPrincipalId driverType workspacePath : String)
  (externalSessionId externalThreadId : Option String)
  state : BindingState
  (lastError inFlightTurnId : Option String)
  configJson : Json
  updatedAt : Timestamp

/-- `config_json->>'runtime_host_id'`. -/
def RuntimeBinding.runtimeHostId (b : RuntimeBinding) : Option String :=
  b.configJson.text? "runtime_host_id"

inductive PrincipalType where
  | human | agent
deriving DecidableEq

def PrincipalType.asStr : PrincipalType → String
  | human => "human"
  | agent => "agent"

structure Principal where
  (id workspaceId name : String)
  principalType : PrincipalType
  disabled : Bool
  deletedAt : Option Timestamp

inductive HostStatus where
  | online | offline | revoked

structure RuntimeHost where
  (id companyId : String)
  status : HostStatus
  revokedAt : Option Timestamp
  updatedAt : Timestamp

inductive HarnessAccountStatus where
  | pending | active | reauthRequired | error | disabled

structure HarnessAccount where
  (id companyId : String)
  runtimeHostId : Option String
  status : HarnessAccountStatus
  (disabledAt removalRequestedAt removalCompletedAt : Option Timestamp)
  (removalActorId lastError : Option String)
  updatedAt : Timestamp

inductive ConversationType where
  | direct | group
deriving DecidableEq

def ConversationType.asStr : ConversationType → String
  | direct => "direct"
  | group => "group"

structure Conversation where
  (id workspaceId : String)
  type : ConversationType
  totalMsgCount : Int

structure ConversationMember where
  (convId principalId : String)
  (msgCount mentionCount : Int)
  (lastViewedAt removedAt : Option Timestamp)

structure ConversationEvent where
  (conversationId eventId eventType senderId : String)
  content : Option String
  contentType : String
  metadata : Json
  (clientMsgId turnId replyEventId : Option String)
deriving DecidableEq

structure ConversationEventRow extends ConversationEvent where
  seq : Int
  createdAt : Timestamp
deriving DecidableEq

structure EventOutboxRow where
  (aggregateType aggregateId eventType : String)
  payload : Json
  createdAt : Timestamp
  published : Bool

/-- A row of `outbox_event`, one per member a message is published to. -/
structure OutboxEvent where
  (workspaceId principalId eventType : String)
  payload : Json
  createdAt : Timestamp

structure Db where
  sessionRegistry : Table Session.sessionKey := .empty
  agentCommands : Table AgentCommand.commandId := .empty
  deadLetters : List DeadLetter := []
  conversationEvents : List ConversationEventRow := []
  eventOutbox : List EventOutboxRow := []
  outboxEvents : List OutboxEvent := []
  runtimeBindings : Table RuntimeBinding.id := .empty
  conversations : List Conversation := []
  conversationMembers : List ConversationMember := []
  principals : List Principal := []
  runtimeHosts : List RuntimeHost := []
  harnessAccounts : List HarnessAccount := []

namespace Db

variable (db : Db)

/-- `current_epoch = (SELECT epoch FROM session_registry WHERE session_key = …)`, which holds of
no row where either side is NULL. -/
def epochCurrent (c : AgentCommand) : Bool :=
  match db.sessionRegistry.lookup c.sessionKey with
  | none => false
  | some s => c.currentEpoch = some s.epoch

/-- The fence of an attempt's writes: the row still carries the attempt, and its session the
row's epoch. -/
def ownedBy (attemptId : String) (c : AgentCommand) : Bool :=
  c.currentAttemptId = some attemptId && db.epochCurrent c

def sessionBusy (sessionKey : String) : Bool :=
  db.agentCommands.rows.any fun c => c.sessionKey = sessionKey && c.status.isActive

def agentBusy (agentId : String) : Bool :=
  db.agentCommands.rows.any fun c => c.agentId = agentId && c.status.isActive

def updateCommands (p : AgentCommand → Bool) (f : AgentCommand → AgentCommand)
    (hf : ∀ c, (f c).commandId = c.commandId := by intro c; rfl) : Db :=
  { db with agentCommands := db.agentCommands.updateWhere p f hf }

variable (now : Timestamp)

/-- `refresh_headless_binding_progress`: the agent's idle or running binding follows whether one
of its sessions is active. -/
def refreshHeadlessBindingProgress (agentId : String) : Db :=
  match db.runtimeBindings.rows.find? fun b =>
      b.agentPrincipalId = agentId && (b.state = .idle || b.state = .running) with
  | none => db
  | some binding =>
    let isActive := db.sessionRegistry.rows.any fun s => s.agentId = agentId && s.status = .active
    let state : BindingState := if isActive then .running else .idle
    { db with
      runtimeBindings := db.runtimeBindings.updateWhere
        (fun b => b.id = binding.id && b.state ≠ state)
        (fun b => { b with state, updatedAt := now }) (fun _ => rfl) }

/-- `UPDATE session_registry SET f WHERE p` for an `f` that sets `status` or `epoch`; then the
trigger, once for each row that was or became active. -/
def updateSessions (p : Session → Bool) (f : Session → Session)
    (hf : ∀ s, (f s).sessionKey = s.sessionKey := by intro s; rfl) : Db :=
  let fired := (db.sessionRegistry.rows.filter fun s =>
    p s && (s.status = .active || (f s).status = .active)).map fun s => (f s).agentId
  fired.foldl (fun db a => db.refreshHeadlessBindingProgress now a)
    { db with sessionRegistry := db.sessionRegistry.updateWhere p f hf }

/-- `UPDATE session_registry SET f WHERE p` for an `f` that sets neither `status` nor `epoch`. -/
def touchSessions (p : Session → Bool) (f : Session → Session)
    (hf : ∀ s, (f s).sessionKey = s.sessionKey := by intro s; rfl) : Db :=
  { db with sessionRegistry := db.sessionRegistry.updateWhere p f hf }

def updateBindings (p : RuntimeBinding → Bool) (f : RuntimeBinding → RuntimeBinding)
    (hf : ∀ b, (f b).id = b.id := by intro b; rfl) : Db :=
  { db with runtimeBindings := db.runtimeBindings.updateWhere p f hf }

/-- `COALESCE(MAX(seq), 0) + 1` over a conversation. -/
def nextSeq (conversationId : String) : Int :=
  (db.conversationEvents.filter (·.conversationId = conversationId)).foldl
    (fun m e => max m e.seq) 0 + 1

variable (e : ConversationEventRow)

/-- A row with this primary key or one of the unique keys of V001 is there. -/
def eventConflict : Bool :=
  db.conversationEvents.any fun r =>
    (r.conversationId = e.conversationId && r.seq = e.seq) || r.eventId = e.eventId
      || (r.clientMsgId.isSome && r.clientMsgId = e.clientMsgId)
      || (r.turnId.isSome && r.turnId = e.turnId)

/-- The envelope `publish_conversation_message` builds for a message. -/
def messageEnvelope (conversation : Conversation) (e : ConversationEventRow) : Json :=
  let sender := db.principals.find? (·.id = e.senderId)
  .ofFields [ ("workspace_id", .str conversation.workspaceId),
    ("conversation_id", .str conversation.id),
    ("conversation_type", .str conversation.type.asStr),
    ("message_id", .str e.eventId),
    ("event_id", .str e.eventId),
    ("sender_id", .str e.senderId),
    ("sender", .ofFields [ ("id", .str e.senderId),
      ("name", .str ((sender.map (·.name)).getD e.senderId)),
      ("type", .str ((sender.map (·.principalType.asStr)).getD "agent"))]),
    ("content", .str (e.content.getD "")),
    ("content_type", .str e.contentType),
    ("server_seq", .num e.seq),
    ("client_msg_id", .ofOption e.clientMsgId),
    ("metadata", e.metadata),
    ("trace_id", (e.metadata.field? "trace_id").getD .null)]

/-- `publish_conversation_message`, the trigger of V069. -/
def publishConversationMessage : Db :=
  if e.eventType = "message" ∨ e.eventType = "message.created" ∨ e.eventType = "reply" then
    match db.conversations.find? (·.id = e.conversationId) with
    | none => db
    | some conversation =>
      let envelope := db.messageEnvelope conversation e
      let counted := e.metadata.field? "thread" ≠ some (.bool true)
        ∨ e.metadata.field? "broadcast" = some (.bool true)
      let db := if counted then
          { db with
            conversations := db.conversations.map fun c =>
              if c.id = e.conversationId then { c with totalMsgCount := c.totalMsgCount + 1 }
              else c
            conversationMembers := db.conversationMembers.map fun m =>
              if m.convId = e.conversationId ∧ m.principalId = e.senderId ∧ m.removedAt = none then
                { m with
                  msgCount := conversation.totalMsgCount + 1
                  mentionCount := 0
                  lastViewedAt := some e.createdAt }
              else m }
        else db
      let published := (db.conversationMembers.filter fun m =>
        m.convId = e.conversationId ∧ m.removedAt = none).map fun m =>
          { workspaceId := conversation.workspaceId
            principalId := m.principalId
            eventType := "message.created"
            payload := envelope
            createdAt := e.createdAt : OutboxEvent }
      { db with outboxEvents := db.outboxEvents ++ published }
  else db

/-- `INSERT INTO conversation_events`; `none` is a unique violation. -/
def insertEventRow : Option Db :=
  if db.eventConflict e then none
  else some (publishConversationMessage
    { db with conversationEvents := db.conversationEvents ++ [e] } e)

/-- `insert_conversation_event_stmt`, which also allocates the sequence number. -/
def insertConversationEvent (e : ConversationEvent) : Option (Int × Db) :=
  let seq := db.nextSeq e.conversationId
  (db.insertEventRow { e with seq, createdAt := now }).map fun db => (seq, db)

end Db

abbrev SessionResult := Except SessionError

namespace Db

variable (db : Db) (now : Timestamp)

def upsertSession (sessionKey agentId conversationId : String) : Db :=
  match db.sessionRegistry.insert?
      { sessionKey, agentId, conversationId, executorNodeId := none, epoch := 0, status := .idle,
        lastHeartbeatAt := none, createdAt := now, updatedAt := now } with
  | some sessions => { db with sessionRegistry := sessions }
  | none => db.touchSessions (·.sessionKey = sessionKey) fun s => { s with updatedAt := now }

def updateSessionHeartbeatForEpoch (sessionKey : String)
    (expectedEpoch : Int) : SessionResult Db :=
  match db.sessionRegistry.lookup sessionKey with
  | none => .error (.sessionNotFound sessionKey)
  | some s =>
    if s.epoch ≠ expectedEpoch then .error (.epochMismatch expectedEpoch s.epoch)
    else if s.status ≠ .active then .error (.sessionInactive sessionKey s.status)
    else .ok (db.touchSessions (·.sessionKey = sessionKey)
      fun s => { s with lastHeartbeatAt := some now, updatedAt := now })

/-- The lease's `UPDATE session_registry SET epoch = epoch + 1, status = 'active' … RETURNING
epoch`. -/
def leaseSession (sessionKey executorNodeId : String) :
    SessionResult (Int × Db) :=
  match db.sessionRegistry.lookup sessionKey with
  | none => .error (.sessionNotFound sessionKey)
  | some s => .ok (s.epoch + 1, db.updateSessions now (·.sessionKey = sessionKey) fun s =>
      { s with
        epoch := s.epoch + 1
        executorNodeId := some executorNodeId
        status := .active
        lastHeartbeatAt := some now
        updatedAt := now })

def releaseSessionIfNoActiveCommands (sessionKey : String)
    (commandEpoch : Option Int) : Db :=
  db.updateSessions now
    (fun s => s.sessionKey = sessionKey && (commandEpoch.isNone || commandEpoch = some s.epoch)
      && !db.sessionBusy s.sessionKey)
    fun s => { s with
      status := .idle, executorNodeId := none, lastHeartbeatAt := none, updatedAt := now }

/-- `SET epoch = epoch + 1, status = 'idle', executor_node_id = NULL, last_heartbeat_at = NULL`:
what an expiry, a host revocation and a binding move do to a session. -/
def fenceSessions (p : Session → Bool) : Db :=
  db.updateSessions now p fun s =>
    { s with
      epoch := s.epoch + 1
      executorNodeId := none
      status := .idle
      lastHeartbeatAt := none
      updatedAt := now }

def newestBinding (agentId : String) : Option RuntimeBinding :=
  ((db.runtimeBindings.rows.filter (·.agentPrincipalId = agentId)).insertionSort
    fun a b => b.updatedAt ≤ a.updatedAt).head?

/-- `runtime_host_metadata`: the metadata with the host of the agent's binding stamped in. -/
def runtimeHostMetadata (agentId : String) (metadata : Json) : SessionResult Json :=
  if db.principals.any fun p => p.id = agentId && p.disabled then
    .error (.conflict "agent is disabled")
  else
    let binding := db.newestBinding agentId
    let refused := binding.any fun b =>
      b.state = .disabled ||
        db.runtimeHosts.any fun h => some h.id = b.runtimeHostId && h.revokedAt.isSome
    if refused then
      .error (.conflict
        "agent execution is disabled; select an available device before starting new work")
    else
      match metadata with
      | .obj fields =>
        match binding.bind (·.runtimeHostId) with
        | some host => .ok (.obj (Json.setField "runtime_host_id" (.str host) fields))
        | none => .ok (.obj fields)
      | _ => .error (.internal "agent command metadata must be a JSON object")

/-- `INSERT INTO agent_commands`, under the primary key and the unique keys of V001. -/
def insertCommandRow (c : AgentCommand) : SessionResult Db :=
  if db.agentCommands.rows.any fun r => r.routeId = c.routeId then
    .error (.conflict
      "duplicate key value violates unique constraint \"agent_commands_route_id_key\"")
  else if db.agentCommands.rows.any fun r => r.turnId = c.turnId then
    .error (.conflict
      "duplicate key value violates unique constraint \"agent_commands_turn_id_key\"")
  else
    match db.agentCommands.insert? c with
    | none => .error (.conflict
        "duplicate key value violates unique constraint \"agent_commands_pkey\"")
    | some commands => .ok { db with agentCommands := commands }

def insertCommand (input : InsertCommand) : SessionResult Db :=
  match db.agentCommands.rows.find? fun c =>
      c.messageId = input.messageId && c.agentId = input.agentId with
  | some _ => .ok db
  | none =>
    match db.runtimeHostMetadata input.agentId input.metadata with
    | .error e => .error e
    | .ok metadata =>
      db.insertCommandRow {
        commandId := input.commandId
        routeId := input.routeId
        sessionKey := input.sessionKey
        agentId := input.agentId
        conversationId := input.conversationId
        messageId := input.messageId
        turnId := input.turnId
        status := .pending
        currentAttemptId := none
        currentEpoch := none
        attemptCount := 0
        maxAttempts := input.maxAttempts
        prompt := input.prompt
        metadata
        nextRetryAt := none
        lastError := none
        createdAt := now
        updatedAt := now }

end Db

def CommandStatusUpdate.apply (update : CommandStatusUpdate) (now : Timestamp)
    (c : AgentCommand) : AgentCommand :=
  { c with
    status := update.status
    currentAttemptId := update.currentAttemptId <|> c.currentAttemptId
    currentEpoch := update.currentEpoch <|> c.currentEpoch
    attemptCount := update.attemptCount.getD c.attemptCount
    nextRetryAt := update.nextRetryAt.getD c.nextRetryAt
    lastError := update.lastError <|> c.lastError
    updatedAt := now }

namespace Db

/-- `update_command_status_inner`.  Without an expected attempt the only guard is the row's
id. -/
def updateCommandStatusInner (db : Db) (now : Timestamp) (update : CommandStatusUpdate)
    (expectedAttemptId : Option String) : SessionResult Db :=
  match (db.agentCommands.lookup update.commandId).filter fun c =>
      expectedAttemptId.all fun a => db.ownedBy a c with
  | none =>
    match expectedAttemptId with
    | some a => .error (.staleAttempt update.commandId a)
    | none => .error (.commandNotFound update.commandId)
  | some c =>
    let db := db.updateCommands (·.commandId = update.commandId) (update.apply now)
    match update.status with
    | .retryScheduled | .deadLetter | .committed =>
      .ok (db.releaseSessionIfNoActiveCommands now c.sessionKey (update.apply now c).currentEpoch)
    | _ => .ok db

def updateCommandStatus (db : Db) (now : Timestamp) (update : CommandStatusUpdate) :
    SessionResult Db :=
  db.updateCommandStatusInner now update none

def updateCommandStatusForAttempt (db : Db) (now : Timestamp) (update : CommandStatusUpdate)
    (expectedAttemptId : String) : SessionResult Db :=
  db.updateCommandStatusInner now update (some expectedAttemptId)

end Db

namespace AgentCommand

def runtimeHostId (c : AgentCommand) : Option String := c.metadata.text? "runtime_host_id"

/-- `ORDER BY created_at ASC, command_id ASC`. -/
def Before (a b : AgentCommand) : Prop :=
  a.createdAt < b.createdAt ∨ a.createdAt = b.createdAt ∧ a.commandId ≤ b.commandId

instance : DecidableRel Before := fun a b =>
  inferInstanceAs (Decidable (a.createdAt < b.createdAt ∨ _))

end AgentCommand

namespace Db

variable (db : Db)

def eligible : List AgentCommand :=
  db.agentCommands.rows.filter fun c =>
    c.status = .pending && !c.metadata.hasKey "runtime_host_id" &&
      !db.agentCommands.rows.any fun c2 =>
        c2.agentId = c.agentId && (c2.status.isActive || c2.status = .retryScheduled)

/-- `ROW_NUMBER() OVER (PARTITION BY agent_id ORDER BY created_at, command_id)`. -/
def agentQueuePosition (c : AgentCommand) : ℕ :=
  (db.eligible.filter fun r => r.agentId = c.agentId && decide (r.Before c)).length

def findPendingCommands (limit : ℕ) : List AgentCommand :=
  (db.eligible.insertionSort fun a b =>
    db.agentQueuePosition a < db.agentQueuePosition b ∨
      db.agentQueuePosition a = db.agentQueuePosition b ∧ a.Before b).take limit

variable (now : Timestamp)

def findRetriableCommands (limit : ℕ) : List AgentCommand :=
  ((db.agentCommands.rows.filter fun c =>
    c.status = .retryScheduled && !c.metadata.hasKey "runtime_host_id"
      && c.nextRetryAt.any (· ≤ now) && decide (c.attemptCount < c.maxAttempts)).insertionSort
    fun a b => a.nextRetryAt.getD 0 ≤ b.nextRetryAt.getD 0).take limit

def findExhaustedRetryCommands (limit : ℕ) : List AgentCommand :=
  ((db.agentCommands.rows.filter fun c =>
    c.status = .retryScheduled && decide (c.maxAttempts ≤ c.attemptCount)).insertionSort
    fun a b => a.updatedAt ≤ b.updatedAt).take limit

variable (commandId attemptId : String)

/-- The lease's `UPDATE agent_commands SET status = 'leased', …`. -/
def leaseCommand (epoch : Int)
    (attemptCount : Int) : Db :=
  db.updateCommands (·.commandId = commandId) fun c =>
    { c with
      status := .leased
      currentAttemptId := some attemptId
      currentEpoch := some epoch
      attemptCount
      updatedAt := now }

variable (uuid : ℕ → String)

def assignLease (commandId executorNodeId : String) : SessionResult (LeaseAssignment × Db) :=
  match db.agentCommands.lookup commandId with
  | none => .error (.commandNotFound commandId)
  | some c =>
    if c.status ≠ .pending then
      .error (.invalidStateTransition commandId c.status .leased)
    else
      match db.leaseSession now c.sessionKey executorNodeId with
      | .error e => .error e
      | .ok (epoch, db) =>
        .ok (⟨epoch, uuid 0, c.attemptCount + 1⟩,
          db.leaseCommand now commandId (uuid 0) epoch (c.attemptCount + 1))

/-- The first loop of `assign_batch_leases`: one epoch bump for each distinct session. -/
def leaseSessions (db : Db) (now : Timestamp) (executorNodeId : String) :
    List AgentCommand → List (String × Int) → SessionResult (List (String × Int) × Db)
  | [], epochs => .ok (epochs, db)
  | c :: cs, epochs =>
    if epochs.any fun e => e.1 = c.sessionKey then
      db.leaseSessions now executorNodeId cs epochs
    else
      match db.leaseSession now c.sessionKey executorNodeId with
      | .error e => .error e
      | .ok (epoch, db) =>
        db.leaseSessions now executorNodeId cs (epochs ++ [(c.sessionKey, epoch)])

/-- The second loop of `assign_batch_leases`; `i` is the number of attempt ids drawn so far. -/
def leaseCommands (db : Db) (now : Timestamp) (uuid : ℕ → String) (epochs : List (String × Int)) :
    List AgentCommand → ℕ → SessionResult (List (String × LeaseAssignment) × Db)
  | [], _ => .ok ([], db)
  | c :: cs, i =>
    match epochs.find? fun e => e.1 = c.sessionKey with
    | none => .error (.sessionNotFound c.sessionKey)
    | some (_, epoch) =>
      match (db.leaseCommand now c.commandId (uuid i) epoch (c.attemptCount + 1)).leaseCommands
          now uuid epochs cs (i + 1) with
      | .error e => .error e
      | .ok (assignments, db) =>
        .ok ((c.commandId, ⟨epoch, uuid i, c.attemptCount + 1⟩) :: assignments, db)

def selectCommands (commandIds : List String) : List AgentCommand :=
  (db.agentCommands.rows.filter (commandIds.contains ·.commandId)).insertionSort
    fun a b => a.commandId ≤ b.commandId

def assignBatchLeases (commandIds : List String) (executorNodeId : String) :
    SessionResult (List (String × LeaseAssignment) × Db) :=
  if commandIds = [] then .ok ([], db)
  else
    let rows := db.selectCommands commandIds
    if rows.length ≠ commandIds.length then
      .error (.commandNotFound ((commandIds.find? fun id =>
        !rows.any fun r => r.commandId = id).getD "<unknown>"))
    else
      match rows.find? fun r => r.status ≠ .pending with
      | some r => .error (.invalidStateTransition r.commandId r.status .leased)
      | none =>
        match db.leaseSessions now executorNodeId rows [] with
        | .error e => .error e
        | .ok (epochs, db) => db.leaseCommands now uuid epochs rows 0

def markCommandSucceededForAttempt :
    SessionResult Db :=
  match (db.agentCommands.lookup commandId).filter fun c =>
      db.ownedBy attemptId c && c.status.isActive with
  | none => .error (.staleAttempt commandId attemptId)
  | some _ => .ok (db.updateCommands (·.commandId = commandId)
      fun c => { c with status := .succeeded, updatedAt := now })

def markCommandCommittedForAttempt :
    SessionResult Db :=
  match (db.agentCommands.lookup commandId).filter fun c => db.ownedBy attemptId c with
  | none => .error (.staleAttempt commandId attemptId)
  | some c =>
    let db := db.updateCommands (·.commandId = commandId)
      fun c => { c with status := .committed, currentAttemptId := none, updatedAt := now }
    .ok (db.releaseSessionIfNoActiveCommands now c.sessionKey c.currentEpoch)

def commandAttemptIsCurrent : Bool :=
  (db.agentCommands.lookup commandId).any fun c => db.ownedBy attemptId c

def insertDeadLetterInTransaction (id : String)
    (input : InsertDeadLetter) : Db :=
  { db with deadLetters := db.deadLetters ++ [{
      id
      sourceType := input.sourceType
      sourceId := input.sourceId
      payload := input.payload
      error := input.error
      attemptCount := input.attemptCount
      createdAt := now }] }

def insertDeadLetter (input : InsertDeadLetter) : Db :=
  db.insertDeadLetterInTransaction now (uuid 0) input

def deadLetterCommandForAttempt (input : InsertDeadLetter) (attemptId : String) : SessionResult Db :=
  match (db.agentCommands.lookup input.sourceId).filter fun c => db.ownedBy attemptId c with
  | none => .error (.staleAttempt input.sourceId attemptId)
  | some c =>
    let db := db.updateCommands (·.commandId = input.sourceId) fun c =>
      { c with
        status := .deadLetter
        nextRetryAt := none
        currentAttemptId := none
        lastError := some input.error
        updatedAt := now }
    let db := db.releaseSessionIfNoActiveCommands now c.sessionKey c.currentEpoch
    .ok (db.insertDeadLetterInTransaction now (uuid 0) input)

/-- The TTL sweep.  It sets the status and the error text and nothing else. -/
def deadLetterStalePendingCommands (maxAgeSecs : Int) (limit : ℕ) : Db :=
  let stale := ((db.agentCommands.rows.filter fun c =>
    c.status = .pending && decide (c.createdAt < now - seconds maxAgeSecs)).insertionSort
    fun a b => a.createdAt ≤ b.createdAt).take limit
  db.updateCommands (fun c => stale.any fun r => r.commandId = c.commandId)
    fun c => { c with status := .deadLetter, lastError := some "TTL expired" }

def checkExpiredLeases (timeoutSecs : Int) : List ExpiredLease :=
  (db.sessionRegistry.rows.filter fun s =>
    s.status = .active && s.lastHeartbeatAt.all (· < now - seconds timeoutSecs)).flatMap fun s =>
      (db.agentCommands.rows.filter fun c => c.sessionKey = s.sessionKey && c.status.isActive).map
        fun c => ⟨s.sessionKey, c.commandId, s.epoch, c.attemptCount, c.maxAttempts⟩

def handleLeaseExpiry (expired : ExpiredLease) :
    SessionResult Db :=
  match db.agentCommands.lookup expired.commandId with
  | none => .error (.commandNotFound expired.commandId)
  | some c =>
    if c.currentEpoch ≠ some expired.epoch then
      .error (.epochMismatch expired.epoch (c.currentEpoch.getD (-1)))
    else if !c.status.isActive then
      .error (.invalidStateTransition expired.commandId c.status .retryScheduled)
    else
      let db := db.fenceSessions now fun s =>
        s.sessionKey = c.sessionKey && s.epoch = expired.epoch
      if isExhausted c.attemptCount c.maxAttempts then
        let db := db.updateCommands (·.commandId = expired.commandId) fun c =>
          { c with
            status := .deadLetter
            nextRetryAt := none
            currentAttemptId := none
            lastError := some "max attempts exceeded after lease expiry"
            updatedAt := now }
        .ok (db.insertDeadLetterInTransaction now (uuid 0) {
          sourceType := "command"
          sourceId := expired.commandId
          payload := .ofFields [("session_key", .str c.sessionKey), ("epoch", .num expired.epoch),
            ("attempt_count", .num c.attemptCount)]
          error := "max attempts exceeded after lease expiry"
          attemptCount := c.attemptCount })
      else
        .ok (db.updateCommands (·.commandId = expired.commandId) fun c =>
          { c with
            status := .retryScheduled
            nextRetryAt := some (nextRetryAt now c.attemptCount)
            currentAttemptId := none
            lastError := some "lease expired"
            updatedAt := now })

end Db

end Choruz
