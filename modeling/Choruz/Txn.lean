import Choruz.RuntimeHost

/-!
# Transactions

`AgentResult` is what an executor hands to the writer, `WriteOutcome` what `commit_result` answers.
`Txn` lists the reads and writes of the shared database, each atomic.  `Store` is the database
with the history the specifications speak of: which call leased which attempt, and which attempts
were marked succeeded.  No transaction reads the history.
-/

namespace Choruz

open Relational

structure CommandAttemptRef where
  (commandId attemptId : String)
deriving DecidableEq

inductive AgentResultStatus where
  | succeeded | failed
deriving DecidableEq

structure AgentResult where
  (turnId attemptId commandId sessionKey conversationId agentId : String)
  status : AgentResultStatus
  (content contentType error : Option String)
  (toolCallsCount executionDurationMs : Int)
  secondaryCommandAttempts : List CommandAttemptRef
  traceId : Option String
  executionMetadata : Option Json

inductive WriteOutcome where
  | committed (replyEventId : String) (seq : Int)
  | skippedNotSucceeded | skippedEmptyCommitted | duplicateTurn | skippedStaleAttempt

namespace AgentResult

variable (r : AgentResult)

def primary : CommandAttemptRef := ⟨r.commandId, r.attemptId⟩

def attempts : List CommandAttemptRef :=
  r.primary :: r.secondaryCommandAttempts

/-- `content.as_deref().unwrap_or("").trim().is_empty()`. -/
def isBlank : Bool := trim (r.content.getD "") = ""

def replyEvent (replyEventId : String) : ConversationEvent where
  conversationId := r.conversationId
  eventId := replyEventId
  eventType := "reply"
  senderId := r.agentId
  content := r.content
  contentType := r.contentType.getD "text/plain"
  metadata := .ofFields [ ("command_id", .str r.commandId), ("attempt_id", .str r.attemptId),
    ("tool_calls_count", .num r.toolCallsCount),
    ("execution_duration_ms", .num r.executionDurationMs),
    ("trace_id", .ofOption r.traceId),
    ("execution", r.executionMetadata.getD .null)]
  clientMsgId := none
  turnId := some r.turnId
  replyEventId := some replyEventId

end AgentResult

namespace Db

def turnAlreadyCommitted (db : Db) (turnId : String) : Bool :=
  db.conversationEvents.any fun e => e.turnId = some turnId

/-- `insert_reply_event`: the fence of the attempt and the insert in one transaction. -/
def insertReplyEvent (db : Db) (now : Timestamp) (event : ConversationEvent)
    (commandId attemptId : String) : SessionResult ((String × Int) × Db) :=
  match (db.agentCommands.lookup commandId).filter db.epochCurrent with
  | none => .error (.staleAttempt commandId attemptId)
  | some c =>
    if c.currentAttemptId ≠ some attemptId then .error (.staleAttempt commandId attemptId)
    else
      match db.insertConversationEvent now event with
      | none => .error (.conflict "duplicate key value violates unique constraint")
      | some (seq, db) => .ok ((event.eventId, seq), db)

end Db

/-- A status write as its callers make it: they leave the attempt, the epoch and the count
alone. -/
structure StatusWrite where
  commandId : String
  status : CommandStatus
  nextRetryAt : Option (Option Timestamp) := none
  lastError : Option String := none

def StatusWrite.update (w : StatusWrite) : CommandStatusUpdate where
  commandId := w.commandId
  status := w.status
  nextRetryAt := w.nextRetryAt
  lastError := w.lastError

/-- The tables the pipeline only reads, and the bindings, as the rest of the gateway leaves
them. -/
structure Administration where
  runtimeBindings : Table RuntimeBinding.id
  conversations : List Conversation
  conversationMembers : List ConversationMember
  principals : List Principal
  runtimeHosts : List RuntimeHost
  harnessAccounts : List HarnessAccount

variable (bindings : Table RuntimeBinding.id)

/-- The unique index of migration 0018: one binding of an agent that is not disabled. -/
def OneLivePerAgent : Prop :=
  ∀ b ∈ bindings, ∀ b' ∈ bindings, b.agentPrincipalId = b'.agentPrincipalId →
    b.state ≠ .disabled → b'.state ≠ .disabled → b.id = b'.id

instance : Decidable (OneLivePerAgent bindings) :=
  inferInstanceAs (Decidable (∀ b ∈ bindings, ∀ b' ∈ bindings, _))

def Db.administer (db : Db) (a : Administration) : SessionResult Db :=
  if OneLivePerAgent a.runtimeBindings then
    .ok { db with
      runtimeBindings := a.runtimeBindings
      conversations := a.conversations
      conversationMembers := a.conversationMembers
      principals := a.principals
      runtimeHosts := a.runtimeHosts
      harnessAccounts := a.harnessAccounts }
  else .error (.conflict ("duplicate key value violates unique constraint "
    ++ "\"agent_runtime_bindings_one_per_agent\""))

inductive Txn where
  | upsertSession (sessionKey agentId conversationId : String)
  | updateSessionHeartbeatForEpoch (sessionKey : String) (expectedEpoch : Int)
  | insertCommand (input : InsertCommand)
  | updateCommandStatus (w : StatusWrite)
  | updateCommandStatusForAttempt (w : StatusWrite) (expectedAttemptId : String)
  | findPendingCommands (limit : ℕ)
  | findRetriableCommands (limit : ℕ)
  | findExhaustedRetryCommands (limit : ℕ)
  | assignLease (commandId executorNodeId : String)
  | assignBatchLeases (commandIds : List String) (executorNodeId : String)
  | claimRuntimeHostCommand (runtimeHostId : String)
  | heartbeatRuntimeHostCommand (runtimeHostId commandId attemptId : String)
  | completeRuntimeHostCommand (runtimeHostId commandId attemptId : String) (r : HostResult)
  | markCommandSucceededForAttempt (commandId attemptId : String)
  | markCommandCommittedForAttempt (commandId attemptId : String)
  | commandAttemptIsCurrent (commandId attemptId : String)
  | insertDeadLetter (input : InsertDeadLetter)
  | deadLetterCommandForAttempt (input : InsertDeadLetter) (attemptId : String)
  | deadLetterStalePendingCommands (maxAgeSecs : Int) (limit : ℕ)
  | checkExpiredLeases (timeoutSecs : Int)
  | handleLeaseExpiry (expired : ExpiredLease)
  | turnAlreadyCommitted (turnId : String)
  | insertReplyEvent (r : AgentResult)
  | insertConversationEvent (event : ConversationEvent)
  | requestAccountRetirement (workspace account actor : String)
  | revokeHost (authorised : Bool) (hostId : String)
  | assignBindingHost (authorised accountValid closed : Bool) (bindingId : String)
      (target : Option String)
  | administer (a : Administration)

inductive Answer where
  | done
  | yes (b : Bool)
  | commands (cs : List AgentCommand)
  | expired (es : List ExpiredLease)
  | leases (ls : List (String × LeaseAssignment))
  | event (eventId : String) (seq : Int)

def Answer.leased : Answer → List (String × String)
  | .leases ls => ls.map fun l => (l.1, l.2.attemptId)
  | _ => []

structure Call where
  txn : Txn
  now : Timestamp
  uuid : ℕ → String

namespace Call

/-- How many identifiers the transaction may draw as attempt or event ids. -/
def draws (call : Call) : ℕ :=
  match call.txn with
  | .assignLease .. | .claimRuntimeHostCommand .. | .insertReplyEvent .. => 1
  | .assignBatchLeases ids _ => ids.length
  | .completeRuntimeHostCommand _ _ _ r => r.contents.length
  | _ => 0

def exec (call : Call) (db : Db) : SessionResult (Answer × Db) :=
  let now := call.now
  let write (r : SessionResult Db) : SessionResult (Answer × Db) := r.map fun db => (.done, db)
  match call.txn with
  | .upsertSession k a conv => .ok (.done, db.upsertSession now k a conv)
  | .updateSessionHeartbeatForEpoch k e => write (db.updateSessionHeartbeatForEpoch now k e)
  | .insertCommand input => write (db.insertCommand now input)
  | .updateCommandStatus w => write (db.updateCommandStatus now w.update)
  | .updateCommandStatusForAttempt w a =>
    write (db.updateCommandStatusForAttempt now w.update a)
  | .findPendingCommands limit => .ok (.commands (db.findPendingCommands limit), db)
  | .findRetriableCommands limit => .ok (.commands (db.findRetriableCommands now limit), db)
  | .findExhaustedRetryCommands limit =>
    .ok (.commands (db.findExhaustedRetryCommands limit), db)
  | .assignLease c node =>
    (db.assignLease now call.uuid c node).map fun (l, db) => (.leases [(c, l)], db)
  | .assignBatchLeases cs node =>
    (db.assignBatchLeases now call.uuid cs node).map fun (ls, db) => (.leases ls, db)
  | .claimRuntimeHostCommand host =>
    (db.claimRuntimeHostCommand now call.uuid host).map fun (claimed, db) =>
      (.leases (claimed.toList.map fun (c, l) => (c.commandId, l)), db)
  | .heartbeatRuntimeHostCommand host c a =>
    write (db.heartbeatRuntimeHostCommand now host c a)
  | .completeRuntimeHostCommand host c a r =>
    write (db.completeRuntimeHostCommand now call.uuid host c a r)
  | .markCommandSucceededForAttempt c a => write (db.markCommandSucceededForAttempt now c a)
  | .markCommandCommittedForAttempt c a => write (db.markCommandCommittedForAttempt now c a)
  | .commandAttemptIsCurrent c a => .ok (.yes (db.commandAttemptIsCurrent c a), db)
  | .insertDeadLetter input => .ok (.done, db.insertDeadLetter now call.uuid input)
  | .deadLetterCommandForAttempt input a =>
    write (db.deadLetterCommandForAttempt now call.uuid input a)
  | .deadLetterStalePendingCommands age limit =>
    .ok (.done, db.deadLetterStalePendingCommands now age limit)
  | .checkExpiredLeases timeout => .ok (.expired (db.checkExpiredLeases now timeout), db)
  | .handleLeaseExpiry expired => write (db.handleLeaseExpiry now call.uuid expired)
  | .turnAlreadyCommitted turn => .ok (.yes (db.turnAlreadyCommitted turn), db)
  | .insertReplyEvent r =>
    (db.insertReplyEvent now (r.replyEvent (call.uuid 0)) r.commandId r.attemptId).map
      fun ((id, seq), db) => (.event id seq, db)
  | .insertConversationEvent event =>
    match db.insertConversationEvent now event with
    | none => .error (.conflict "duplicate key value violates unique constraint")
    | some (seq, db) => .ok (.event event.eventId seq, db)
  | .requestAccountRetirement ws account actor =>
    write (db.requestAccountRetirement now ws account actor)
  | .revokeHost authorised host => write (db.revokeHost now authorised host)
  | .assignBindingHost authorised valid closed binding target =>
    write (db.assignBindingHost now authorised valid closed binding target)
  | .administer a => write (db.administer a)

end Call

/-- The `call`-th call leased the command to the attempt. -/
structure LeaseRecord where
  call : ℕ
  (commandId attemptId : String)
deriving DecidableEq

structure Store where
  db : Db := {}
  calls : ℕ := 0
  issued : List LeaseRecord := []
  succeeded : List (String × String) := []

namespace Store

variable (s : Store) (call : Call)

/-- Attempt ids are drawn fresh, and so are the ids of new replies. -/
def Fresh : Prop :=
  ((List.range call.draws).map call.uuid).Nodup ∧
    ∀ i < call.draws, (∀ l ∈ s.issued, l.attemptId ≠ call.uuid i) ∧
      ∀ e ∈ s.db.conversationEvents, e.eventId ≠ call.uuid i

instance : Decidable (s.Fresh call) :=
  inferInstanceAs (Decidable (_ ∧ _))

def record (answer : Answer) (db : Db) : Store where
  db
  calls := s.calls + 1
  issued := s.issued ++ answer.leased.map fun l => ⟨s.calls, l.1, l.2⟩
  succeeded := match call.txn with
    | .markCommandSucceededForAttempt c a => s.succeeded ++ [(c, a)]
    | _ => s.succeeded

def exec : SessionResult (Answer × Store) :=
  (call.exec s.db).map fun (answer, db) => (answer, s.record call answer db)

def step : Option Store :=
  if s.Fresh call then
    match s.exec call with
    | .ok (_, s) => some s
    | .error _ => some s
  else none

end Store

end Choruz
