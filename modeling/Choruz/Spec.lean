import Choruz.Pipeline

/-!
# What a call can do

The specification of the calls as a whole: the ways a committed call may change one command row
and one session row, with what the call has checked on the way.  Then the vocabulary of the
specifications: the attempt-fenced writes, what supersedes an attempt, and runs of the pipeline all
of whose calls meet a condition on the database they find.
-/

namespace Choruz

open Relational

/-- The agent whose commands a binding move requeues; a binding already on the target host is
left alone. -/
def Db.movedAgent (db : Db) (bindingId : String) (target : Option String) : Option String :=
  match db.runtimeBindings.lookup bindingId with
  | none => none
  | some b => if b.runtimeHostId = target.map trim then none else some b.agentPrincipalId

namespace Call

def leases (call : Call) (db : Db) : List AgentCommand :=
  match call.txn with
  | .assignLease c _ => (db.agentCommands.lookup c).toList
  | .assignBatchLeases cs _ => db.selectCommands cs
  | .claimRuntimeHostCommand host => (db.claimCandidate call.now host).toList.map Prod.fst
  | _ => []

def closes (call : Call) (db : Db) (r : AgentCommand) : Bool :=
  match call.txn with
  | .handleLeaseExpiry expired => r.commandId = expired.commandId
  | .revokeHost _ host => Db.openOnHost host r
  | .assignBindingHost _ _ _ binding target =>
    (db.movedAgent binding target).any fun agent => Db.openOfAgent agent r
  | _ => false

/-- The sessions a fencing call fences: those of the rows it closes, an expiry only at the epoch
it was read with. -/
def fences (call : Call) (db : Db) (s : Session) : Bool :=
  db.hasCommand (call.closes db) s &&
    match call.txn with
    | .handleLeaseExpiry expired => s.epoch = expired.epoch
    | _ => true

end Call

/-- If the row's epoch is its session's, the session is no longer active unless another of its
commands is. -/
def Released (db : Db) (r : AgentCommand) : Prop :=
  ∀ s ∈ db.sessionRegistry, s.sessionKey = r.sessionKey → r.currentEpoch = some s.epoch →
    s.status = .active → db.sessionBusy r.sessionKey

def Audited (db : Db) (commandId : String) : Prop :=
  ∃ d ∈ db.deadLetters, d.sourceType = "command" ∧ d.sourceId = commandId

instance (db : Db) (commandId : String) : Decidable (Audited db commandId) :=
  inferInstanceAs (Decidable (∃ d ∈ db.deadLetters, _))

/-- How a call that answers `answer` and takes `db` to `db'` may change a command row. -/
inductive RowStep (call : Call) (answer : Answer) (db db' : Db) : AgentCommand → AgentCommand → Prop
  | keep {r} (hcl : call.closes db r = false) (hl : r ∉ call.leases db) :
      RowStep call answer db db' r r
  | lease {r s} {a : String} {m : Json} (hr : r ∈ call.leases db)
      (hst : r.status = .pending ∨ r.status = .retryScheduled ∧ r.attemptCount < r.maxAttempts)
      (ha : (r.commandId, a) ∈ answer.leased) (hs : s ∈ db'.sessionRegistry)
      (hk : s.sessionKey = r.sessionKey) (hact : s.status = .active) :
      RowStep call answer db db' r { r with
        status := .leased, currentAttemptId := some a, currentEpoch := some s.epoch
        attemptCount := r.attemptCount + 1, metadata := m, updatedAt := call.now }
  | write {r w} (ht : call.txn = .updateCommandStatus w) (hid : r.commandId = w.commandId)
      (hrel : w.status = .deadLetter → Released db' r) :
      RowStep call answer db db' r (w.update.apply call.now r)
  | fencedWrite {r w a} (ht : call.txn = .updateCommandStatusForAttempt w a)
      (hid : r.commandId = w.commandId) (ho : db.ownedBy a r)
      (hrel : w.status = .retryScheduled → Released db' r) :
      RowStep call answer db db' r (w.update.apply call.now r)
  | succeed {r a} (ht : call.txn = .markCommandSucceededForAttempt r.commandId a)
      (ho : db.ownedBy a r) (hact : r.status.isActive) :
      RowStep call answer db db' r { r with status := .succeeded, updatedAt := call.now }
  | commit {r a} (ht : call.txn = .markCommandCommittedForAttempt r.commandId a)
      (ho : db.ownedBy a r) (hrel : Released db' r) :
      RowStep call answer db db' r { r with
        status := .committed, currentAttemptId := none, updatedAt := call.now }
  | deadLetter {r a input} (ht : call.txn = .deadLetterCommandForAttempt input a)
      (hid : r.commandId = input.sourceId) (ho : db.ownedBy a r) (hrel : Released db' r)
      (haud : input.sourceType = "command" → Audited db' r.commandId) :
      RowStep call answer db db' r { r with
        status := .deadLetter, nextRetryAt := none, currentAttemptId := none
        lastError := some input.error, updatedAt := call.now }
  | expireDead {r expired} {err : String} (ht : call.txn = .handleLeaseExpiry expired)
      (hid : r.commandId = expired.commandId) (he : r.currentEpoch = some expired.epoch)
      (hact : r.status.isActive) (haud : Audited db' r.commandId) :
      RowStep call answer db db' r { r with
        status := .deadLetter, nextRetryAt := none, currentAttemptId := none
        lastError := some err, updatedAt := call.now }
  | expireRetry {r expired} {next : Timestamp} {err : String}
      (ht : call.txn = .handleLeaseExpiry expired)
      (hid : r.commandId = expired.commandId) (he : r.currentEpoch = some expired.epoch)
      (hact : r.status.isActive) :
      RowStep call answer db db' r { r with
        status := .retryScheduled, nextRetryAt := some next, currentAttemptId := none
        lastError := some err, updatedAt := call.now }
  | hostBeat {r host a} (ht : call.txn = .heartbeatRuntimeHostCommand host r.commandId a)
      (ho : db.hostOwned host a r) :
      RowStep call answer db db' r { r with status := .heartbeating, updatedAt := call.now }
  | hostCommit {r host a result} (ht : call.txn = .completeRuntimeHostCommand host r.commandId a
        result) (ho : db.hostOwned host a r) (hrel : Released db' r) :
      RowStep call answer db db' r { r with
        status := .committed, currentAttemptId := none, updatedAt := call.now }
  | hostFail {r host a result} {dead : Bool} {next : Option Timestamp} {err : String}
      (ht : call.txn = .completeRuntimeHostCommand host r.commandId a result)
      (ho : db.hostOwned host a r) (hrel : Released db' r)
      (haud : dead → Audited db' r.commandId) :
      RowStep call answer db db' r { r with
        status := if dead then .deadLetter else .retryScheduled, currentAttemptId := none
        nextRetryAt := next, lastError := some err, updatedAt := call.now }
  | sweep {r age limit} {err : String} (ht : call.txn = .deadLetterStalePendingCommands age limit)
      (hst : r.status = .pending) (hold : r.createdAt < call.now - seconds age) :
      RowStep call answer db db' r { r with status := .deadLetter, lastError := some err }
  | retire {r ws account actor} {err : String}
      (ht : call.txn = .requestAccountRetirement ws account actor)
      (hac : db.commandOfAccount ws account r)
      (hst : r.status = .pending ∨ r.status = .retryScheduled) :
      RowStep call answer db db' r { r with
        status := .deadLetter, lastError := some err, updatedAt := call.now }
  | cap {r ws account actor} (ht : call.txn = .requestAccountRetirement ws account actor)
      (hact : r.status.isActive) :
      RowStep call answer db db' r { r with maxAttempts := max 1 r.attemptCount }
  | revoke {r ok host} {err : String} (ht : call.txn = .revokeHost ok host)
      (hst : Db.openOnHost host r) :
      RowStep call answer db db' r { r with
        status := .deadLetter, lastError := some err, currentAttemptId := none
        currentEpoch := none, nextRetryAt := none, updatedAt := call.now }
  | requeue {r ok valid closed binding target agent} {m : Json}
      (ht : call.txn = .assignBindingHost ok valid closed binding target)
      (ha : db.movedAgent binding target = some agent) (hst : Db.openOfAgent agent r) :
      RowStep call answer db db' r { r with
        metadata := m, status := .pending, currentAttemptId := none, currentEpoch := none
        nextRetryAt := none, updatedAt := call.now }

/-- How a call that takes `db` to `db'` may change a session row. -/
inductive SessionStep (call : Call) (db db' : Db) : Session → Session → Prop
  | touch {s} (beat : Option Timestamp) (u : Timestamp) (hf : call.fences db s = false)
      (hl : ∀ r ∈ call.leases db, r.sessionKey ≠ s.sessionKey) :
      SessionStep call db db' s { s with lastHeartbeatAt := beat, updatedAt := u }
  | lease {s r} {node : String} (hr : r ∈ call.leases db) (hk : r.sessionKey = s.sessionKey) :
      SessionStep call db db' s { s with
        epoch := s.epoch + 1, executorNodeId := some node, status := .active
        lastHeartbeatAt := some call.now, updatedAt := call.now }
  | release {s} (hb : db'.sessionBusy s.sessionKey = false) (hl : call.leases db = []) :
      SessionStep call db db' s { s with
        status := .idle, executorNodeId := none, lastHeartbeatAt := none, updatedAt := call.now }
  | fence {s} (hf : call.fences db s) : SessionStep call db db' s { s with
        epoch := s.epoch + 1, executorNodeId := none, status := .idle
        lastHeartbeatAt := none, updatedAt := call.now }

structure NewRow (call : Call) (db : Db) (r : AgentCommand) : Prop where
  txn : ∃ input, call.txn = .insertCommand input ∧ r.maxAttempts = input.maxAttempts
  status : r.status = .pending
  attempt : r.currentAttemptId = none
  epoch : r.currentEpoch = none
  count : r.attemptCount = 0
  fresh : ∀ r' ∈ db.agentCommands, r'.commandId ≠ r.commandId

structure NewSession (db : Db) (s : Session) : Prop where
  status : s.status = .idle
  fresh : ∀ s' ∈ db.sessionRegistry, s'.sessionKey ≠ s.sessionKey

/-- What a committed call does to the two tables. -/
structure Effect (call : Call) (answer : Answer) (db db' : Db) : Prop where
  row_of : ∀ r' ∈ db'.agentCommands,
    NewRow call db r' ∨ ∃ r ∈ db.agentCommands, RowStep call answer db db' r r'
  row_to : ∀ r ∈ db.agentCommands, ∃ r' ∈ db'.agentCommands, RowStep call answer db db' r r'
  session_of : ∀ s' ∈ db'.sessionRegistry,
    NewSession db s' ∨ ∃ s ∈ db.sessionRegistry, SessionStep call db db' s s'
  session_to : ∀ s ∈ db.sessionRegistry, ∃ s' ∈ db'.sessionRegistry, SessionStep call db db' s s'

variable (db : Db)

def Db.after : SessionResult Db → Db
  | .ok db' => db'
  | .error _ => db

/-- The writes that carry a command and an attempt and are fenced by them. -/
inductive FencedWrite where
  | status (update : CommandStatusUpdate)
  | succeeded | committed
  | deadLetter (input : InsertDeadLetter)
  | hostHeartbeat (runtimeHostId : String)
  | hostComplete (runtimeHostId : String) (r : HostResult)
  | reply (event : ConversationEvent)

def FencedWrite.exec (now : Timestamp) (uuid : ℕ → String) (c a : String) (db : Db) :
    FencedWrite → SessionResult Db
  | status update => db.updateCommandStatusForAttempt now { update with commandId := c } a
  | succeeded => db.markCommandSucceededForAttempt now c a
  | committed => db.markCommandCommittedForAttempt now c a
  | deadLetter input => db.deadLetterCommandForAttempt now uuid { input with sourceId := c } a
  | hostHeartbeat host => db.heartbeatRuntimeHostCommand now host c a
  | hostComplete host r => db.completeRuntimeHostCommand now uuid host c a r
  | reply event => (db.insertReplyEvent now event c a).map Prod.snd

variable (call : Call)

/-- The call supersedes the attempts `c` had before it: it leases `c`, expires its lease, or leases
a command of its session. -/
def Supersedes (answer : Answer) (db : Db) (c : String) : Prop :=
  (∃ a, (c, a) ∈ answer.leased)
    ∨ (∃ expired, call.txn = .handleLeaseExpiry expired ∧ expired.commandId = c)
    ∨ ∃ l ∈ answer.leased, ∃ r ∈ db.agentCommands, ∃ r' ∈ db.agentCommands,
      r.commandId = c ∧ r'.commandId = l.1 ∧ r'.sessionKey = r.sessionKey

variable (g : Db → Call → Prop)

/-- The call an operation makes, if any, meets `g` in the database it finds. -/
def World.Meets (w : World) (op : Op) : Prop :=
  ∀ call ∈ w.call? op, g w.store.db call

instance [∀ db call, Decidable (g db call)] (w : World) (op : Op) : Decidable (w.Meets g op) :=
  inferInstanceAs (Decidable (∀ call ∈ w.call? op, _))

/-- `w'` is reached from `w` by operations whose calls all meet `g`. -/
def World.Runs [∀ db call, Decidable (g db call)] (w w' : World) : Prop :=
  Steps (restrict World.step (World.Meets g)) w w'

/-- What the pipeline and its clients pass to the calls that take free arguments. -/
def Txn.Issued : Txn → Prop
  | .updateCommandStatus w => w.status = .pending ∨ w.status = .deadLetter
  | .updateCommandStatusForAttempt w _ =>
    w.status = .started ∨ w.status = .heartbeating ∨ w.status = .retryScheduled
  | .insertCommand input => input.maxAttempts = defaultMaxAttempts
  | .insertConversationEvent e => e.turnId = none
  | .deadLetterCommandForAttempt input _ => input.sourceType = "command"
  | _ => True

/-- A `started` or `heartbeating` write that its fence accepts finds its command active. -/
def FreshStatusWrite : Prop :=
  match call.txn with
  | .updateCommandStatusForAttempt w a => w.status.isActive →
    ∀ r ∈ db.agentCommands, r.commandId = w.commandId → db.ownedBy a r → r.status.isActive
  | _ => True

/-- A lease is taken only on sessions without an active command. -/
def LeasesFreeSession : Prop :=
  ∀ c ∈ call.leases db, db.sessionBusy c.sessionKey = false

/-- A fenced session keeps no active command. -/
def FencesWholeSession : Prop :=
  ∀ s ∈ db.sessionRegistry, call.fences db s →
    ∀ r ∈ db.agentCommands, r.sessionKey = s.sessionKey → r.status.isActive → call.closes db r

instance (db : Db) (call : Call) : Decidable (FreshStatusWrite db call) := by
  unfold FreshStatusWrite
  split <;> infer_instance

instance (db : Db) (call : Call) : Decidable (LeasesFreeSession db call) :=
  inferInstanceAs (Decidable (∀ c ∈ call.leases db, _))

instance (db : Db) (call : Call) : Decidable (FencesWholeSession db call) :=
  inferInstanceAs (Decidable (∀ s ∈ db.sessionRegistry, _))

/-- The condition under which no active command is stranded. -/
def KeepsRecoverable : Prop :=
  FreshStatusWrite db call ∧ LeasesFreeSession db call ∧ FencesWholeSession db call

instance (db : Db) (call : Call) : Decidable (KeepsRecoverable db call) :=
  inferInstanceAs (Decidable (_ ∧ _ ∧ _))

/-- A local lease is taken only for agents without an active command. -/
def LeasesFreeAgent : Prop :=
  match call.txn with
  | .claimRuntimeHostCommand _ => True
  | _ => ∀ c ∈ call.leases db, db.agentBusy c.agentId = false

/-- A command is put back to `pending`, by the retry scheduler or by a move, only while it has
attempts left. -/
def RequeuesWithinBudget : Prop :=
  match call.txn with
  | .updateCommandStatus w => w.status = .pending →
    ∀ r ∈ db.agentCommands, r.commandId = w.commandId → r.attemptCount < r.maxAttempts
  | .assignBindingHost .. =>
    ∀ r ∈ db.agentCommands, call.closes db r → r.attemptCount < r.maxAttempts
  | _ => True

instance (db : Db) (call : Call) : Decidable (LeasesFreeAgent db call) := by
  unfold LeasesFreeAgent
  split <;> infer_instance

instance (db : Db) (call : Call) : Decidable (RequeuesWithinBudget db call) := by
  unfold RequeuesWithinBudget
  split <;> infer_instance

/-- The condition under which an agent has one batch in flight. -/
def KeepsOneBatch : Prop :=
  FreshStatusWrite db call ∧ LeasesFreeAgent db call

instance (db : Db) (call : Call) : Decidable (KeepsOneBatch db call) :=
  inferInstanceAs (Decidable (_ ∧ _))

def Store.executions (st : Store) (commandId : String) : ℕ :=
  (st.issued.map LeaseRecord.commandId).count commandId

def Store.leaseCall (st : Store) (r : AgentCommand) : Option ℕ :=
  (st.issued.find? fun l => l.commandId = r.commandId && some l.attemptId = r.currentAttemptId).map
    LeaseRecord.call

def CommandStatus.InUse (st : CommandStatus) : Prop := st.isActive ∨ st = .succeeded

/-- The retry scheduler's write finds its command still `retry_scheduled`. -/
def FreshSchedulerWrite : Prop :=
  match call.txn with
  | .updateCommandStatus w =>
    ∀ r ∈ db.agentCommands, r.commandId = w.commandId → r.status = .retryScheduled
  | _ => True

instance (db : Db) (call : Call) : Decidable (FreshSchedulerWrite db call) := by
  unfold FreshSchedulerWrite
  split <;> infer_instance

/-- The condition under which a command that has ended stays as it ended: no stale write of the
retry scheduler, and no late status write of an attempt. -/
def KeepsTerminal : Prop :=
  FreshSchedulerWrite db call ∧ FreshStatusWrite db call

instance (db : Db) (call : Call) : Decidable (KeepsTerminal db call) :=
  inferInstanceAs (Decidable (_ ∧ _))

/-- No session is leased or fenced that a `succeeded` command still holds: its reply is on the way
to the writer. -/
def SparesSucceeded : Prop :=
  ∀ s ∈ db.sessionRegistry, (∃ c ∈ call.leases db, c.sessionKey = s.sessionKey) ∨ call.fences db s →
      ∀ r ∈ db.agentCommands, r.sessionKey = s.sessionKey → r.currentEpoch = some s.epoch →
        r.status ≠ .succeeded

instance (db : Db) (call : Call) : Decidable (SparesSucceeded db call) :=
  inferInstanceAs (Decidable (∀ s ∈ db.sessionRegistry, _))

/-- The condition under which a `succeeded` command stays the writer's. -/
def KeepsSucceeded : Prop :=
  KeepsTerminal db call ∧ SparesSucceeded db call

instance (db : Db) (call : Call) : Decidable (KeepsSucceeded db call) :=
  inferInstanceAs (Decidable (_ ∧ _))

variable (w : World) (op : Op)

/-- The condition under which no reply is dropped, the database answering every call. -/
def World.KeepsReplies : Prop :=
  op.fault = .none ∧ w.Meets KeepsSucceeded op

instance : Decidable (w.KeepsReplies op) :=
  inferInstanceAs (Decidable (_ ∧ _))

/-- No command is dead-lettered by a call that writes no audit row: the retry scheduler finds no
exhausted command, the sweep no stale one, a retirement no queued one and a revocation no open
one. -/
def AuditsDeadLetters : Prop :=
  match call.txn with
  | .updateCommandStatus w => w.status ≠ .deadLetter
  | .deadLetterStalePendingCommands age _ =>
    ∀ r ∈ db.agentCommands, r.status = .pending → ¬ r.createdAt < call.now - seconds age
  | .requestAccountRetirement ws account _ =>
    ∀ r ∈ db.agentCommands, db.commandOfAccount ws account r →
      r.status ≠ .pending ∧ r.status ≠ .retryScheduled
  | .revokeHost _ host => ∀ r ∈ db.agentCommands, Db.openOnHost host r = false
  | _ => True

instance (db : Db) (call : Call) : Decidable (AuditsDeadLetters db call) := by
  unfold AuditsDeadLetters
  split <;> infer_instance

/-- The condition under which the dead-letter audit is exact. -/
def KeepsAudit : Prop :=
  KeepsTerminal db call ∧ AuditsDeadLetters db call

instance (db : Db) (call : Call) : Decidable (KeepsAudit db call) :=
  inferInstanceAs (Decidable (_ ∧ _))

def HeartbeatCall.isStatus : HeartbeatCall → Bool
  | status .. => true
  | session .. => false

/-- The executor task that aborts its heartbeat task leaves no status write of it behind. -/
def World.AwaitsStatusWrite : Prop :=
  match op.action with
  | .run i (.finish _ (some j)) =>
    match w.procs[i]? with
    | some (.executing group heartbeat) =>
      ∀ call ∈ Proc.heartbeatCall group heartbeat j, call.isStatus = false
    | _ => True
  | _ => True

instance : Decidable (w.AwaitsStatusWrite op) := by
  unfold World.AwaitsStatusWrite
  split
  · split <;> infer_instance
  · infer_instance

/-- The condition under which no finished attempt is revived. -/
def World.KeepsFinished : Prop :=
  w.Meets FreshSchedulerWrite op ∧ w.AwaitsStatusWrite op

instance : Decidable (w.KeepsFinished op) :=
  inferInstanceAs (Decidable (_ ∧ _))

variable (sessions : Table Session.sessionKey)

def agentActive (agentId : String) : Bool :=
  sessions.rows.any fun s => s.agentId = agentId && s.status = .active

/-- A binding in state idle or running is running if and only if one of its agent's sessions is
active. -/
def BindingFollows (b : RuntimeBinding) : Prop :=
  b.state = .idle ∨ b.state = .running →
    (b.state = .running ↔ agentActive sessions b.agentPrincipalId)

instance (b : RuntimeBinding) : Decidable (BindingFollows sessions b) :=
  inferInstanceAs (Decidable (_ ∨ _ → _))

/-- A move fences every active session of the agent, and the rest of the gateway leaves bindings
that follow their agents' sessions. -/
def KeepsBindings : Prop :=
  match call.txn with
  | .assignBindingHost _ _ _ binding target =>
    ∀ s ∈ db.sessionRegistry, db.movedAgent binding target = some s.agentId →
      s.status = .active → call.fences db s
  | .administer a => ∀ b ∈ a.runtimeBindings, BindingFollows db.sessionRegistry b
  | _ => True

instance (db : Db) (call : Call) : Decidable (KeepsBindings db call) := by
  unfold KeepsBindings
  split <;> infer_instance

/-- The condition under which no session or binding is left busy without work. -/
def KeepsWork : Prop :=
  KeepsRecoverable db call ∧ FreshSchedulerWrite db call ∧ KeepsBindings db call

instance (db : Db) (call : Call) : Decidable (KeepsWork db call) :=
  inferInstanceAs (Decidable (_ ∧ _ ∧ _))

end Choruz
