import Choruz.Store
import Choruz.Text

/-!
# Commands of a runtime host

`claim_runtime_host_command`, `heartbeat_runtime_host_command` and
`complete_runtime_host_command`: the path of a command whose agent runs on a remote device.  Then
the gateway's transactions on an agent's or a device's commands in bulk:
`request_account_retirement`, `revoke_host` and `assign_binding_host`.
-/

namespace Choruz

open Relational

namespace Db

variable (db : Db) (now : Timestamp)

/-- The claim query's `FROM … JOIN … WHERE`, in its order; `agentId` is the second query's extra
condition. -/
def claimable (runtimeHostId : String) (agentId : Option String) :
    List (AgentCommand × RuntimeBinding) :=
  (db.agentCommands.rows.flatMap fun c =>
    (db.runtimeBindings.rows.filter fun b =>
      b.agentPrincipalId = c.agentId && b.state ≠ .disabled
        && b.runtimeHostId = some runtimeHostId && c.runtimeHostId = some runtimeHostId
        && agentId.all (· = c.agentId)
        && (c.status = .pending || (c.status = .retryScheduled && c.nextRetryAt.any (· ≤ now)
          && decide (c.attemptCount < c.maxAttempts)))
        && !db.agentBusy c.agentId).map fun b => (c, b)).insertionSort
    fun a b => a.1.Before b.1

/-- `jsonb_build_object('id', b.id, …, 'config', b.config_json - 'terminal_session')`. -/
def runtimeBindingJson (b : RuntimeBinding) : Json :=
  .ofFields [ ("id", .str b.id), ("driver_type", .str b.driverType),
    ("workspace_path", .str b.workspacePath),
    ("external_session_id", .ofOption b.externalSessionId),
    ("config", b.configJson.erase "terminal_session")]

/-- The command to claim: the oldest claimable one settles the agent to lock, and the query runs
again for that agent. -/
def claimCandidate (runtimeHostId : String) : Option (AgentCommand × RuntimeBinding) :=
  match (db.claimable now runtimeHostId none).head? with
  | none => none
  | some (candidate, _) => (db.claimable now runtimeHostId (some candidate.agentId)).head?

def claimRuntimeHostCommand (uuid : ℕ → String)
    (runtimeHostId : String) : SessionResult (Option (AgentCommand × LeaseAssignment) × Db) :=
  match db.claimCandidate now runtimeHostId with
  | none => .ok (none, db)
  | some (c, b) =>
    let metadata := c.metadata.set "runtime_binding" (runtimeBindingJson b)
    match db.leaseSession now c.sessionKey ("runtime-host:" ++ runtimeHostId) with
    | .error e => .error e
    | .ok (epoch, db) =>
      .ok (some ({ c with metadata }, ⟨epoch, uuid 0, c.attemptCount + 1⟩),
        db.updateCommands (·.commandId = c.commandId) fun c' =>
          { c' with
            status := .leased
            currentAttemptId := some (uuid 0)
            currentEpoch := some epoch
            attemptCount := c.attemptCount + 1
            updatedAt := now
            metadata })

/-- The row filter of the fenced reads and writes of a host. -/
def hostOwned (runtimeHostId attemptId : String) (c : AgentCommand) : Bool :=
  db.ownedBy attemptId c && c.runtimeHostId = some runtimeHostId && c.status.isActive

variable (runtimeHostId agentId : String) (captured : Json)

/-- The binding is still the one captured in the command's metadata when it was claimed. -/
def bindingUnchanged (b : RuntimeBinding) : Bool :=
  b.agentPrincipalId = agentId && b.runtimeHostId = some runtimeHostId && b.state ≠ .disabled
    && captured.text? "id" = some b.id && captured.text? "driver_type" = some b.driverType
    && captured.text? "workspace_path" = some b.workspacePath
    && captured.text? "external_session_id" = b.externalSessionId
    && captured.field? "config" = some (b.configJson.erase "terminal_session")

def externalSessionKeys : List String :=
  ["external_session_provenance", "external_session_driver_type", "external_session_binding_id",
    "external_session_mode", "external_session_captured_at"]

def clearExternalSession : Db :=
  db.updateBindings (bindingUnchanged runtimeHostId agentId captured) fun b =>
    { b with
      externalSessionId := none
      configJson := b.configJson.eraseAll externalSessionKeys
      updatedAt := now }

def recordExternalSession (sessionId : String) : Db :=
  db.updateBindings (bindingUnchanged runtimeHostId agentId captured) fun b =>
    { b with
      externalSessionId := some sessionId
      configJson := ((((b.configJson.set "external_session_provenance" (.str "process_captured")).set
        "external_session_driver_type" (.str b.driverType)).set
        "external_session_binding_id" (.str b.id)).set
        "external_session_mode" (.str "headless")).set
        "external_session_captured_at" (.num now)
      updatedAt := now }

end Db

structure HostResult where
  runtimeHostName : String
  succeeded : Bool
  contents : List String
  error : Option String
  (toolCallsCount executionDurationMs : Int)
  externalSessionId : Option String
  clearExternalSession : Bool
  executionMetadata : Json

def remoteReplyTurnId (turnId : String) (i : ℕ) : String :=
  if i = 0 then turnId else turnId ++ ":remote-reply:" ++ toString i

namespace Db

def remoteReply (runtimeHostId attemptId eventId : String) (c : AgentCommand)
    (r : HostResult) (replyCount i : ℕ) (content : String) : ConversationEvent where
  conversationId := c.conversationId
  eventId
  eventType := "reply"
  senderId := c.agentId
  content := some content
  contentType := "text/plain"
  metadata := .ofFields [ ("command_id", .str c.commandId), ("attempt_id", .str attemptId),
    ("tool_calls_count", .num r.toolCallsCount),
    ("execution_duration_ms", .num r.executionDurationMs),
    ("execution", r.executionMetadata),
    ("runtime_host_id", .str runtimeHostId),
    ("runtime_host_name", .str r.runtimeHostName),
    ("reply_index", .num i),
    ("reply_count", .num replyCount)]
  clientMsgId := none
  turnId := some (remoteReplyTurnId c.turnId i)
  replyEventId := some eventId

/-- One turn of the reply loop: the insert with `ON CONFLICT (turn_id) DO NOTHING`, and the
router's outbox row where it inserted.  Any other unique violation fails the transaction. -/
def insertRemoteReply (db : Db) (now : Timestamp) (e : ConversationEventRow) : SessionResult Db :=
  if db.conversationEvents.any fun r => r.turnId.isSome && r.turnId = e.turnId then .ok db
  else
    match db.insertEventRow e with
    | none => .error (.conflict "duplicate key value violates unique constraint")
    | some db =>
      .ok { db with eventOutbox := db.eventOutbox ++ [{
        aggregateType := "conversation_event"
        aggregateId := e.conversationId
        eventType := "message"
        payload := .ofFields [ ("message_id", .str e.eventId),
          ("conversation_id", .str e.conversationId),
          ("sender_id", .str e.senderId),
          ("content", .ofOption e.content),
          ("content_type", .str "text/plain"),
          ("seq", .num e.seq),
          ("metadata", e.metadata)]
        createdAt := now
        published := false }] }

/-- The reply loop; `i` replies are in, and the first one was given `firstSeq`. -/
def insertRemoteReplies (db : Db) (now : Timestamp) (uuid : ℕ → String)
    (runtimeHostId attemptId : String) (c : AgentCommand) (r : HostResult) (firstSeq : Int)
    (replyCount : ℕ) : ℕ → List String → SessionResult Db
  | _, [] => .ok db
  | i, content :: rest =>
    match db.insertRemoteReply now {
        remoteReply runtimeHostId attemptId (uuid i) c r replyCount i content with
        seq := firstSeq + i, createdAt := now } with
    | .error e => .error e
    | .ok db => db.insertRemoteReplies now uuid runtimeHostId attemptId c r firstSeq replyCount
        (i + 1) rest

def failRuntimeHostCommand (db : Db) (now : Timestamp) (uuid : ℕ → String)
    (runtimeHostId attemptId : String) (c : AgentCommand) (r : HostResult) : Db :=
  let captured := (c.metadata.field? "runtime_binding").getD .null
  let db := if r.clearExternalSession then
      db.clearExternalSession now runtimeHostId c.agentId captured else db
  let errorText := r.error.getD "remote runtime execution failed"
  let exhausted := isExhausted c.attemptCount c.maxAttempts
  let db := db.updateCommands (·.commandId = c.commandId) fun c =>
    { c with
      status := if exhausted then .deadLetter else .retryScheduled
      currentAttemptId := none
      nextRetryAt := if exhausted then none else some (nextRetryAt now c.attemptCount)
      lastError := some errorText
      updatedAt := now }
  let db := if exhausted then
      db.insertDeadLetterInTransaction now (uuid 0) {
        sourceType := "command"
        sourceId := c.commandId
        payload := .ofFields [ ("session_key", .str c.sessionKey),
          ("runtime_host_id", .str runtimeHostId),
          ("attempt_id", .str attemptId),
          ("turn_id", .str c.turnId)]
        error := errorText
        attemptCount := c.attemptCount }
    else db
  db.releaseSessionIfNoActiveCommands now c.sessionKey c.currentEpoch

/-! The keys these updates keep, for the statements they share with the session store. -/

theorem committedRow_commandId (now : Timestamp) (c : AgentCommand) :
    ({ c with status := .committed, currentAttemptId := none, updatedAt := now } :
      AgentCommand).commandId = c.commandId := rfl

theorem beatRow_sessionKey (now : Timestamp) (s : Session) :
    ({ s with lastHeartbeatAt := some now, updatedAt := now } : Session).sessionKey
      = s.sessionKey := rfl

def commitRuntimeHostCommand (db : Db) (now : Timestamp) (uuid : ℕ → String)
    (runtimeHostId attemptId : String) (c : AgentCommand) (r : HostResult) : SessionResult Db :=
  let captured := (c.metadata.field? "runtime_binding").getD .null
  let db := match r.externalSessionId with
    | some sessionId => db.recordExternalSession now runtimeHostId c.agentId captured sessionId
    | none => db
  let contents := (r.contents.map trim).filter (· ≠ "")
  match db.insertRemoteReplies now uuid runtimeHostId attemptId c r (db.nextSeq c.conversationId)
      contents.length 0 contents with
  | .error e => .error e
  | .ok db =>
    let db := db.updateCommands (·.commandId = c.commandId)
      (fun c => { c with status := .committed, currentAttemptId := none, updatedAt := now })
      (committedRow_commandId now)
    .ok (db.releaseSessionIfNoActiveCommands now c.sessionKey c.currentEpoch)

def completeRuntimeHostCommand (db : Db) (now : Timestamp) (uuid : ℕ → String)
    (runtimeHostId commandId attemptId : String) (r : HostResult) : SessionResult Db :=
  match (db.agentCommands.lookup commandId).filter (db.hostOwned runtimeHostId attemptId) with
  | none => .error (.staleAttempt commandId attemptId)
  | some c =>
    if r.succeeded then db.commitRuntimeHostCommand now uuid runtimeHostId attemptId c r
    else .ok (db.failRuntimeHostCommand now uuid runtimeHostId attemptId c r)

def heartbeatRuntimeHostCommand (db : Db) (now : Timestamp)
    (runtimeHostId commandId attemptId : String) : SessionResult Db :=
  match (db.agentCommands.lookup commandId).filter (db.hostOwned runtimeHostId attemptId) with
  | none => .error (.staleAttempt commandId attemptId)
  | some c =>
    let db := db.updateCommands (·.commandId = commandId)
      fun c => { c with status := .heartbeating, updatedAt := now }
    .ok (db.touchSessions
      (fun s => s.sessionKey = c.sessionKey && c.currentEpoch = some s.epoch && s.status = .active)
      (fun s => { s with lastHeartbeatAt := some now, updatedAt := now }) (beatRow_sessionKey now))

end Db

/-- The binding configuration a revocation or a move leaves: the terminal's session and capture
dropped and its generation raised.  `none` where the generation is no integer, which fails the
statement. -/
def nextTerminalGeneration (config : Json) : Option Json :=
  (config.bigint? "terminal_generation").map fun g =>
    (config.eraseAll ["terminal_session", "terminal_capture"]).set "terminal_generation"
      (.num (g + 1))

namespace Db

variable (db : Db)

/-- The binding runs an agent of the workspace under the harness account. -/
def boundToAccount (workspace account : String) (b : RuntimeBinding) : Bool :=
  db.principals.any (fun p => p.id = b.agentPrincipalId && p.workspaceId = workspace)
    && b.configJson.text? "harness_account_id" = some account

def commandOfAccount (workspace account : String) (c : AgentCommand) : Bool :=
  db.runtimeBindings.rows.any fun b =>
    c.agentId = b.agentPrincipalId && db.boundToAccount workspace account b

variable (now : Timestamp)

def disableAccount (workspace account actor : String) : Db :=
  { db with harnessAccounts := db.harnessAccounts.map fun a =>
      if a.companyId = workspace ∧ a.id = account then
        { a with
          status := .disabled
          disabledAt := a.disabledAt <|> some now
          removalRequestedAt := a.removalRequestedAt <|> some now
          removalActorId := a.removalActorId <|> some actor
          lastError := none
          updatedAt := now }
      else a }

def disableAccountBindings (workspace account : String) : Db :=
  db.updateBindings (db.boundToAccount workspace account) fun b =>
    { b with
      state := .disabled
      lastError := some "Harness account removal requested"
      updatedAt := now }

def deadLetterAccountCommands (workspace account : String) : Db :=
  db.updateCommands (fun c => db.commandOfAccount workspace account c
      && (c.status = .pending || c.status = .retryScheduled))
    fun c => { c with
      status := .deadLetter
      lastError := some "Harness account removed [kind=account_removed]"
      updatedAt := now }

/-- The account's running commands get no further attempt. -/
def capAccountCommands (workspace account : String) : Db :=
  db.updateCommands (fun c => db.commandOfAccount workspace account c && c.status.isActive)
    fun c => { c with maxAttempts := max 1 c.attemptCount }

def requestAccountRetirement (workspace account actor : String) : SessionResult Db :=
  if db.harnessAccounts.any fun a => a.companyId = workspace && a.id = account
      && a.removalCompletedAt.isNone && (a.disabledAt.isNone || a.removalRequestedAt.isSome) then
    .ok ((((db.disableAccount now workspace account actor).disableAccountBindings now workspace
      account).deadLetterAccountCommands now workspace account).capAccountCommands workspace
        account)
  else .error (.refused "Harness account not found")

def retireHost (hostId : String) : Db :=
  { db with runtimeHosts := db.runtimeHosts.map fun h =>
      if h.id = hostId then { h with status := .revoked, revokedAt := some now, updatedAt := now }
      else h }

def disableHostBindings (hostId : String) : Db :=
  db.updateBindings (·.runtimeHostId = some hostId) fun b =>
    { b with
      configJson := (nextTerminalGeneration b.configJson).getD b.configJson
      externalSessionId := none
      externalThreadId := none
      state := .disabled
      lastError := some ("Execution device removed; create an Agent on an available device "
        ++ "with its own workspace and account")
      inFlightTurnId := none
      updatedAt := now }

def openOnHost (hostId : String) (c : AgentCommand) : Bool :=
  c.runtimeHostId = some hostId && c.status.isOpen

def hasCommand (p : AgentCommand → Bool) (s : Session) : Bool :=
  db.agentCommands.rows.any fun c => c.sessionKey = s.sessionKey && p c

def cancelHostCommands (hostId : String) : Db :=
  db.updateCommands (openOnHost hostId) fun c =>
    { c with
      status := .deadLetter
      lastError := some "Execution device removed [kind=device_removed]"
      currentAttemptId := none
      currentEpoch := none
      nextRetryAt := none
      updatedAt := now }

/-- `revoke_host`.  `authorised` is the outcome of the company check on the caller. -/
def revokeHost (authorised : Bool) (hostId : String) : SessionResult Db :=
  if !db.runtimeHosts.any fun h => h.id = hostId && h.revokedAt.isNone then
    .error (.refused ("runtime host " ++ hostId))
  else if !authorised then .error (.refused "cross-workspace access denied")
  else if db.runtimeBindings.rows.any fun b =>
      b.runtimeHostId = some hostId && (nextTerminalGeneration b.configJson).isNone then
    .error (.database "invalid input syntax for type bigint")
  else
    let db := (db.retireHost now hostId).disableHostBindings now hostId
    .ok ((db.fenceSessions now (db.hasCommand (openOnHost hostId))).cancelHostCommands now hostId)

/-- A non-disabled binding of the agent other than `id`, which the unique index of migration 0018
refuses beside a second one. -/
def otherLiveBinding (agentId id : String) : Bool :=
  db.runtimeBindings.rows.any fun b =>
    b.agentPrincipalId = agentId && b.id ≠ id && b.state ≠ .disabled

def openOfAgent (agentId : String) (c : AgentCommand) : Bool :=
  c.agentId = agentId && c.status.isOpen

def requeueCommands (agentId : String) (target : Option String) : Db :=
  db.updateCommands (openOfAgent agentId) fun c =>
    { c with
      metadata := match target with
        | none => c.metadata.erase "runtime_host_id"
        | some host => c.metadata.set "runtime_host_id" (.str host)
      status := .pending
      currentAttemptId := none
      currentEpoch := none
      nextRetryAt := none
      updatedAt := now }

def rebindHost (binding : RuntimeBinding) (target : Option String) : SessionResult Db :=
  match nextTerminalGeneration (match target with
      | none => binding.configJson.erase "runtime_host_id"
      | some host => binding.configJson.set "runtime_host_id" (.str host)) with
  | none => .error (.database "invalid input syntax for type bigint")
  | some config =>
    if db.otherLiveBinding binding.agentPrincipalId binding.id then
      .error (.conflict ("duplicate key value violates unique constraint "
        ++ "\"agent_runtime_bindings_one_per_agent\""))
    else
      .ok (db.updateBindings (·.id = binding.id) fun b =>
        { b with
          configJson := config
          externalSessionId := none
          externalThreadId := none
          state := .idle
          lastError := none
          updatedAt := now })

/-- `assign_binding_host`.  `accountValid` is the outcome of `validate_harness_account` for the
target, and `closed` that of stopping the current device's terminal session; the company check on
the caller is `authorised`. -/
def assignBindingHost (authorised accountValid closed : Bool)
    (bindingId : String) (target : Option String) : SessionResult Db :=
  match db.runtimeBindings.lookup bindingId with
  | none => .error (.refused "runtime binding not found")
  | some binding =>
    match db.principals.find? (·.id = binding.agentPrincipalId) with
    | none => .error (.refused "principal not found")
    | some agent =>
      let target := target.map trim
      if !authorised then
        .error (.refused "cannot move an agent runtime from another company")
      else if target = some "" then .error (.refused "runtime_host_id must not be empty")
      else if target.any fun host => !db.runtimeHosts.any fun h =>
          h.id = host && h.companyId = agent.workspaceId && h.revokedAt.isNone then
        .error (.refused "runtime host does not belong to the agent's company")
      else if binding.runtimeHostId = target then .ok db
      else if !accountValid then
        .error (.refused ("The current account does not belong to the destination device. Create "
          ++ "an Agent using that device's workspace and account; this conversation's history "
          ++ "remains available."))
      else if !(binding.runtimeHostId.any fun host =>
          db.runtimeHosts.any fun h => h.id = host && h.revokedAt.isSome) && !closed then
        .error (.refused ("Reconnect the current device before moving or removing its Agents so "
          ++ "their sessions can be stopped safely"))
      else
        ((db.fenceSessions now (db.hasCommand (openOfAgent binding.agentPrincipalId))).requeueCommands
          now binding.agentPrincipalId target).rebindHost now binding target

end Db

end Choruz
