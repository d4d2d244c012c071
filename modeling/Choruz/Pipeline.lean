import Choruz.Txn
import Mathlib.Data.List.Infix
import Choruz.Steps

/-!
# The pipeline

The dispatch loop's batches with their executor and heartbeat tasks, the writer's `commit_result`,
the lease monitor and the retry scheduler, each cut at its calls to the database: `request` is the
call a process makes next and `resume` what becomes of it once the answer is there.

`World` has the database, the processes of every loop, and the rest of the system as a client of
the database.  Any process may take its next step at any time, and a call may fail or lose its
answer; a process that is never resumed has crashed.  `Deliveries` has the writers alone, beside
any other transactions.
-/

namespace Choruz

open Relational

inductive Execution where
  | ok (content : String) (toolCallsCount executionDurationMs : Int)
      (executionMetadata : Option Json)
  | err (message : String) (executionDurationMs : Int)

variable (cmd : AgentCommand)

def executeCommand (e : Execution) : AgentResult :=
  let result : AgentResult := {
    turnId := cmd.turnId
    attemptId := cmd.currentAttemptId.getD ""
    commandId := cmd.commandId
    sessionKey := cmd.sessionKey
    conversationId := cmd.conversationId
    agentId := cmd.agentId
    status := .failed
    content := none
    contentType := none
    error := none
    toolCallsCount := 0
    executionDurationMs := 0
    secondaryCommandAttempts := []
    traceId := cmd.metadata.text? "trace_id"
    executionMetadata := none }
  match e with
  | .ok content toolCalls duration metadata =>
    { result with
      status := .succeeded
      content := some content
      contentType := some "text/plain"
      toolCallsCount := toolCalls
      executionDurationMs := duration
      executionMetadata := metadata }
  | .err message duration =>
    { result with error := some message, executionDurationMs := duration }

/-- The markers of an error the dispatcher retries by itself. -/
def autoRetriableMarkers : List String :=
  ["kind=timeout", "kind=killed", "kind=network", "kind=rate_limited", "kind=resume_failure",
    "kind=spawn_failure", "kind=process_failed"]

def isAutoRetriableError (error : Option String) : Bool :=
  error.any fun e => autoRetriableMarkers.any fun marker => marker.toList <:+: e.toList

def shouldRetryFailedCommand (autoRetriable : Bool) : Bool :=
  autoRetriable && !isExhausted cmd.attemptCount cmd.maxAttempts

/-- `group_commands`: the commands by agent, in order within each group. -/
def groupCommands (commands : List AgentCommand) : List (List AgentCommand) :=
  (commands.map (·.agentId)).dedup.map fun a => commands.filter (·.agentId = a)

/-- The group with the lease of each member, or `none` where the assignment omits one. -/
def withLeases (ls : List (String × LeaseAssignment)) (group : List AgentCommand) :
    Option (List AgentCommand) :=
  group.mapM fun cmd => (ls.find? fun l => l.1 = cmd.commandId).map fun l =>
    { cmd with
      currentAttemptId := some l.2.attemptId
      currentEpoch := some l.2.epoch
      attemptCount := l.2.attemptCount }

/-- The group's sessions with their epochs; `none` where a session has two. -/
def heartbeatSessions : List AgentCommand → Option (List (String × Int))
  | [] => some []
  | cmd :: group =>
    match heartbeatSessions group with
    | none => none
    | some sessions =>
      let epoch := cmd.currentEpoch.getD 0
      match sessions.find? fun s => s.1 = cmd.sessionKey with
      | none => some ((cmd.sessionKey, epoch) :: sessions)
      | some s => if s.2 = epoch then some sessions else none

def orderedGroup (primaryId : String) (group : List AgentCommand) : List AgentCommand :=
  (group.find? (·.commandId = primaryId)).toList ++ group.filter (·.commandId ≠ primaryId)

def retryWrite (now : Timestamp) (cmd : AgentCommand) (r : AgentResult) : StatusWrite where
  commandId := cmd.commandId
  status := .retryScheduled
  nextRetryAt := some (some (nextRetryAt now cmd.attemptCount))
  lastError := r.error

def failureDeadLetter (r : AgentResult) : InsertDeadLetter :=
  let error := r.error.getD "agent execution failed"
  { sourceType := "command"
    sourceId := cmd.commandId
    payload := .ofFields [ ("session_key", .str cmd.sessionKey), ("agent_id", .str cmd.agentId),
      ("attempt_count", .num cmd.attemptCount),
      ("last_error", .str error)]
    error
    attemptCount := cmd.attemptCount }

def settleTxn (now : Timestamp) (cmd : AgentCommand) (attemptId : String) (r : AgentResult) : Txn :=
  if r.status = .succeeded then .markCommandSucceededForAttempt cmd.commandId attemptId
  else if shouldRetryFailedCommand cmd (isAutoRetriableError r.error) then
    .updateCommandStatusForAttempt (retryWrite now cmd r) attemptId
  else .deadLetterCommandForAttempt (failureDeadLetter cmd r) attemptId

inductive Beat where
  | waiting
  | sessions (todo : List (String × Int)) (superseded : List String)
  | status
deriving DecidableEq

structure Heartbeat where
  sessions : List (String × Int)
  first : Bool
  stage : Beat

inductive HeartbeatCall where
  | session (sessionKey : String) (epoch : Int)
  | status (commandId attemptId : String)

def HeartbeatCall.txn : HeartbeatCall → Txn
  | session sessionKey epoch => .updateSessionHeartbeatForEpoch sessionKey epoch
  | status commandId attemptId =>
    .updateCommandStatusForAttempt ⟨commandId, .heartbeating, none, none⟩ attemptId

namespace Heartbeat

def request (hb : Heartbeat) (commandId attemptId : String) (j : ℕ) : Option HeartbeatCall :=
  match hb.stage with
  | .waiting => none
  | .sessions todo _ => todo[j]?.map fun s => .session s.1 s.2
  | .status => some (.status commandId attemptId)

/-- The session's lease is lost, rather than the heartbeat's connection. -/
def lostLease : SessionResult Answer → Bool
  | .error (.epochMismatch ..) | .error (.sessionInactive ..) | .error (.sessionNotFound _) => true
  | _ => false

def resume (hb : Heartbeat) (j : ℕ) (answer : SessionResult Answer) : Option Heartbeat :=
  match hb.stage with
  | .waiting => some hb
  | .sessions todo superseded =>
    let superseded := superseded ++
      if lostLease answer then (todo[j]?.map Prod.fst).toList else []
    if todo.eraseIdx j ≠ [] then
      some { hb with stage := .sessions (todo.eraseIdx j) superseded }
    else
      let sessions := hb.sessions.filter fun s => !superseded.contains s.1
      if sessions = [] then none
      else some ⟨sessions, false, if hb.first then .status else .waiting⟩
  | .status =>
    match answer with
    | .ok _ => some { hb with stage := .waiting }
    | .error _ => none

end Heartbeat

/-- Where `commit_result` stands. -/
inductive CommitStage where
  | start | dedup | insert
  | mark (todo : List CommandAttemptRef) (outcome : WriteOutcome)

inductive Proc where
  | batch (nodeId : String) (group : List AgentCommand)
  | starting (group : List AgentCommand)
  /-- The executor task while the command runs, with the batch's heartbeat task. -/
  | executing (group : List AgentCommand) (heartbeat : Option Heartbeat)
  | settling (primaryId : String) (todo : List AgentCommand) (result : AgentResult)
  | outstanding (call : HeartbeatCall)
  | queued (result : AgentResult)
  | committing (result : AgentResult) (stage : CommitStage)
  | written (result : AgentResult) (outcome : SessionResult WriteOutcome)
  | expiry (expired : ExpiredLease)
  | exhausted (cmd : AgentCommand)
  | auditing (cmd : AgentCommand)
  | retriable (cmd : AgentCommand)

inductive Choice where
  | advance | tick
  | beat (j : ℕ)
  /-- The execution returns and the heartbeat is aborted, its call already sent where `sent`
  names one. -/
  | finish (e : Execution) (sent : Option ℕ)

namespace Proc

def isQueued : Proc → Bool
  | queued _ => true
  | _ => false

def exhaustedDeadLetter (cmd : AgentCommand) : InsertDeadLetter where
  sourceType := "command"
  sourceId := cmd.commandId
  payload := .ofFields [ ("session_key", .str cmd.sessionKey), ("agent_id", .str cmd.agentId),
    ("attempt_count", .num cmd.attemptCount),
    ("last_error", .ofOption cmd.lastError)]
  error := "max retry attempts exhausted"
  attemptCount := cmd.attemptCount

def closing (r : AgentResult) (outcome : WriteOutcome) : Proc :=
  committing r (.mark r.attempts outcome)

def heartbeatCall (group : List AgentCommand) (heartbeat : Option Heartbeat) (j : ℕ) :
    Option HeartbeatCall :=
  match group, heartbeat with
  | primary :: _, some hb => hb.request primary.commandId (primary.currentAttemptId.getD "") j
  | _, _ => none

/-- The process's next call: `none` where the choice is not one it has, `some none` where it
makes no call. -/
def request (now : Timestamp) : Proc → Choice → Option (Option Txn)
  | batch nodeId group, .advance =>
    some (some (.assignBatchLeases (group.map (·.commandId)) nodeId))
  | starting (primary :: _), .advance =>
    some (some (.updateCommandStatusForAttempt ⟨primary.commandId, .started, none, none⟩
      (primary.currentAttemptId.getD "")))
  | executing _ (some hb), .tick => if hb.stage = .waiting then some none else none
  | executing group hb, .beat j => (heartbeatCall group hb j).map fun call => some call.txn
  | executing (_ :: _) _, .finish _ none => some none
  | executing group hb, .finish _ (some j) =>
    if (heartbeatCall group hb j).isSome then some none else none
  | settling _ [] _, .advance => some none
  | settling _ (cmd :: _) r, .advance =>
    match cmd.currentAttemptId with
    | none => some none
    | some a => some (some (settleTxn now cmd a r))
  | outstanding call, .advance => some (some call.txn)
  | queued _, .advance => some none
  | committing r .start, .advance =>
    if r.status ≠ .succeeded then some none
    else some (some (.commandAttemptIsCurrent r.commandId r.attemptId))
  | committing r .dedup, .advance => some (some (.turnAlreadyCommitted r.turnId))
  | committing r .insert, .advance => some (some (.insertReplyEvent r))
  | committing _ (.mark [] _), .advance => some none
  | committing _ (.mark (p :: _) _), .advance =>
    some (some (.markCommandCommittedForAttempt p.commandId p.attemptId))
  | expiry expired, .advance => some (some (.handleLeaseExpiry expired))
  | exhausted cmd, .advance =>
    some (some (.updateCommandStatus
      ⟨cmd.commandId, .deadLetter, none, some "max retry attempts exhausted"⟩))
  | auditing cmd, .advance => some (some (.insertDeadLetter (exhaustedDeadLetter cmd)))
  | retriable cmd, .advance =>
    some (some (.updateCommandStatus ⟨cmd.commandId, .pending, none, none⟩))
  | _, _ => none

/-- The executor task past one member.  A primary that is known to be superseded, or whose
failure could not be recorded, ends the task; a secondary marked succeeded joins the result. -/
def settled (primaryId : String) (cmd : AgentCommand) (attemptId : String)
    (rest : List AgentCommand) (r : AgentResult) (answer : SessionResult Answer) : List Proc :=
  if r.status = .succeeded then
    match answer with
    | .ok _ =>
      if cmd.commandId ≠ primaryId then
        [settling primaryId rest { r with
          secondaryCommandAttempts := r.secondaryCommandAttempts ++ [⟨cmd.commandId, attemptId⟩] }]
      else [settling primaryId rest r]
    | .error (.staleAttempt ..) =>
      if cmd.commandId = primaryId then [] else [settling primaryId rest r]
    | .error _ => [settling primaryId rest r]
  else
    match answer with
    | .ok _ => [settling primaryId rest r]
    | .error _ => if cmd.commandId = primaryId then [] else [settling primaryId rest r]

def committed (r : AgentResult) (stage : CommitStage) (answer : SessionResult Answer) : Proc :=
  match stage with
  | .start =>
    if r.status ≠ .succeeded then written r (.ok .skippedNotSucceeded)
    else
      match answer with
      | .error e => written r (.error e)
      | .ok (.yes true) =>
        if r.isBlank then closing r .skippedEmptyCommitted else committing r .dedup
      | .ok _ => written r (.ok .skippedStaleAttempt)
  | .dedup =>
    match answer with
    | .error e => written r (.error e)
    | .ok (.yes true) => closing r .duplicateTurn
    | .ok _ => committing r .insert
  | .insert =>
    match answer with
    | .ok (.event id seq) => closing r (.committed id seq)
    | .ok _ => written r (.error (.internal "unexpected answer"))
    | .error (.conflict _) => closing r .duplicateTurn
    | .error (.staleAttempt ..) => written r (.ok .skippedStaleAttempt)
    | .error e => written r (.error e)
  | .mark [] outcome => written r (.ok outcome)
  | .mark (_ :: rest) outcome =>
    match answer with
    | .ok _ | .error (.staleAttempt ..) => committing r (.mark rest outcome)
    | .error e => written r (.error e)

def resume : Proc → Choice → SessionResult Answer → List Proc
  | batch _ group, _, .ok (.leases ls) =>
    match withLeases ls group with
    | some group => [starting group]
    | none => []
  | batch _ _, _, _ => []
  | starting group, _, .ok _ =>
    match heartbeatSessions group with
    | some sessions => [executing group (some ⟨sessions, true, .waiting⟩)]
    | none => []
  | starting _, _, .error _ => []
  | executing group (some hb), .tick, _ =>
    [executing group (some { hb with stage := .sessions hb.sessions [] })]
  | executing group (some hb), .beat j, answer => [executing group (hb.resume j answer)]
  | executing (primary :: group) hb, .finish e sent, _ =>
    settling primary.commandId (orderedGroup primary.commandId (primary :: group))
        (executeCommand primary e) ::
      ((sent.bind (heartbeatCall (primary :: group) hb)).map outstanding).toList
  | settling _ [] r, _, _ => [queued r]
  | settling primaryId (cmd :: rest) r, _, answer =>
    match cmd.currentAttemptId with
    | none => if cmd.commandId = primaryId then [] else [settling primaryId rest r]
    | some a => settled primaryId cmd a rest r answer
  | queued r, _, _ => [committing r .start]
  | committing r stage, _, answer => [committed r stage answer]
  | exhausted cmd, _, .ok _ => [auditing cmd]
  | p@(executing ..), _, _ => [p]
  | p@(written ..), _, _ => [p]
  | _, _, _ => []

end Proc

inductive Poll where
  | pending (nodeId : String) (limit : ℕ)
  | expired (timeoutSecs : Int)
  | exhausted (limit : ℕ)
  | retriable (limit : ℕ)

namespace Poll

def txn : Poll → Txn
  | pending _ limit => .findPendingCommands limit
  | expired timeoutSecs => .checkExpiredLeases timeoutSecs
  | exhausted limit => .findExhaustedRetryCommands limit
  | retriable limit => .findRetriableCommands limit

def spawn : Poll → SessionResult Answer → List Proc
  | pending nodeId _, .ok (.commands cs) => (groupCommands cs).map (Proc.batch nodeId)
  | expired _, .ok (.expired es) => es.map Proc.expiry
  | exhausted _, .ok (.commands cs) => cs.map Proc.exhausted
  | retriable _, .ok (.commands cs) => cs.map Proc.retriable
  | _, _ => []

end Poll

/-- The calls made outside the modelled loops: the router, the cron scheduler and the message
handlers, the runtime hosts, the sweep and the gateway.  Every caller of `insert_command` passes
the default budget, only replies carry a turn id, and the router's dead letters are of type
`event_outbox`. -/
def Txn.isClient : Txn → Bool
  | upsertSession .. | assignLease .. | claimRuntimeHostCommand .. | heartbeatRuntimeHostCommand ..
  | completeRuntimeHostCommand .. | deadLetterStalePendingCommands .. | requestAccountRetirement ..
  | revokeHost .. | assignBindingHost .. | administer .. => true
  | insertCommand input => input.maxAttempts = defaultMaxAttempts
  | insertConversationEvent e => e.turnId = none
  | insertDeadLetter input => input.sourceType = "event_outbox"
  | _ => false

inductive Action where
  | client (txn : Txn)
  | poll (q : Poll)
  | run (i : ℕ) (choice : Choice)

/-- A database error: before the commit, or after it with the answer lost. -/
inductive Fault where
  | none | rolledBack | unacknowledged
deriving DecidableEq

/-- What a transaction leaves in the database, and what its caller sees of it: `lost` where the
connection failed. -/
def Fault.outcome {α δ ε : Type} (fault : Fault) (lost : ε) (db : δ) (r : Except ε (α × δ)) :
    δ × Except ε α :=
  match fault, r with
  | .none, .ok (a, next) => (next, .ok a)
  | .none, .error e => (db, .error e)
  | .unacknowledged, .ok (_, next) => (next, .error lost)
  | _, _ => (db, .error lost)

theorem map_eq_ok {ε α β : Type*} {r : Except ε α} {f : α → β} {b : β} :
    r.map f = .ok b ↔ ∃ a, r = .ok a ∧ f a = b := by
  cases r <;> simp [Except.map]

theorem map_pair_eq_ok {ε α δ : Type*} {r : Except ε δ} {a b : α} {d : δ}
    (h : (r.map fun d => (a, d)) = .ok (b, d)) : r = .ok d := by
  obtain ⟨_, rfl, heq⟩ := map_eq_ok.1 h
  rw [(Prod.mk.inj heq).2]

theorem bind_eq_ok {ε α β : Type} {r : Except ε α} {f : α → Except ε β} {b : β} :
    (r >>= f) = .ok b ↔ ∃ a, r = .ok a ∧ f a = .ok b := by
  cases r <;> simp [bind, Except.bind]

theorem Fault.outcome_cases {α δ ε : Type} {fault : Fault} {lost : ε} {db db' : δ}
    {r : Except ε (α × δ)} {seen : Except ε α} (h : fault.outcome lost db r = (db', seen)) :
    (∃ a, r = .ok (a, db') ∧ (seen = .ok a ∨ seen = .error lost)) ∨
      db' = db ∧ (seen = .error lost ∨ ∃ e, r = .error e ∧ seen = .error e) := by
  rcases r with e | ⟨a, next⟩ <;> cases fault <;> cases h
  · exact .inr ⟨rfl, .inr ⟨e, rfl, rfl⟩⟩
  · exact .inr ⟨rfl, .inl rfl⟩
  · exact .inr ⟨rfl, .inl rfl⟩
  · exact .inl ⟨a, rfl, .inl rfl⟩
  · exact .inr ⟨rfl, .inl rfl⟩
  · exact .inl ⟨a, rfl, .inr rfl⟩

structure Op where
  action : Action
  now : Timestamp := 0
  uuid : ℕ → String := fun _ => ""
  fault : Fault := .none

def Store.perform (s : Store) (call : Call) (fault : Fault) :
    Option (SessionResult Answer × Store) :=
  if s.Fresh call then
    some (fault.outcome (.database "connection closed") s (s.exec call)).swap
  else none

structure World where
  store : Store := {}
  procs : List Proc := []

namespace World

def begin (w : World) (op : Op) : Option (Option Txn × (SessionResult Answer → List Proc)) :=
  match op.action with
  | .client t => if t.isClient then some (some t, fun _ => w.procs) else none
  | .poll q => some (some q.txn, fun answer => w.procs ++ q.spawn answer)
  | .run i choice =>
    match w.procs[i]? with
    | none => none
    | some p =>
      -- the channel is a queue: only its oldest result is received
      if p.isQueued && (w.procs.take i).any Proc.isQueued then none
      else (p.request op.now choice).map fun t =>
        (t, fun answer => w.procs.eraseIdx i ++ p.resume choice answer)

def step (w : World) (op : Op) : Option World :=
  match w.begin op with
  | none => none
  | some (none, next) => some { w with procs := next (.ok .done) }
  | some (some t, next) =>
    (w.store.perform ⟨t, op.now, op.uuid⟩ op.fault).map fun (answer, s) => ⟨s, next answer⟩

def call? (w : World) (op : Op) : Option Call :=
  match w.begin op with
  | some (some t, _) => some ⟨t, op.now, op.uuid⟩
  | _ => none

end World

/-- The pipeline has not run yet: its own tables are empty, and no binding is running. -/
structure Db.Initial (db : Db) : Prop where
  sessions : db.sessionRegistry.rows = []
  commands : db.agentCommands.rows = []
  deadLetters : db.deadLetters = []
  events : db.conversationEvents = []
  bindings : OneLivePerAgent db.runtimeBindings
  notRunning : ∀ b ∈ db.runtimeBindings, b.state ≠ .running

def World.start (db : Db) : World := { store := { db } }

def Db.perform (db : Db) (call : Call) (fault : Fault) : SessionResult Answer × Db :=
  (fault.outcome (.database "connection closed") db (call.exec db)).swap

structure Deliveries where
  db : Db := {}
  jobs : List Proc := []

inductive Delivery where
  | submit (result : AgentResult)
  | advance (i : ℕ) (now : Timestamp) (uuid : ℕ → String) (fault : Fault)
  | call (call : Call) (fault : Fault)

def Deliveries.step (d : Deliveries) : Delivery → Option Deliveries
  | .submit r => some { d with jobs := d.jobs ++ [.committing r .start] }
  | .advance i now uuid fault =>
    match d.jobs[i]? with
    | none => none
    | some p =>
      match p.request now .advance with
      | none => none
      | some none =>
        some { d with jobs := d.jobs.eraseIdx i ++ p.resume .advance (.ok .done) }
      | some (some t) =>
        let (answer, db) := d.db.perform ⟨t, now, uuid⟩ fault
        some ⟨db, d.jobs.eraseIdx i ++ p.resume .advance answer⟩
  | .call call fault => some { d with db := (d.db.perform call fault).2 }

/-- The tables that hold what a conversation is told. -/
structure SameEvents (db db' : Db) : Prop where
  conversationEvents : db'.conversationEvents = db.conversationEvents
  eventOutbox : db'.eventOutbox = db.eventOutbox
  outboxEvents : db'.outboxEvents = db.outboxEvents

end Choruz
