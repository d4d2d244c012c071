import Choruz.RouteEvent

/-!
# The router's input queue

Every message leaves a row in `event_outbox`.  A router process claims rows under a lease, routes
the event of each and marks the row published, or moves it to the dead letters.  Claiming, routing,
marking and dead-lettering are transactions of their own; a process that is never advanced again
has crashed, and its claims expire.
-/

namespace Choruz

namespace Router

open Relational

/-- A row of `event_outbox` with the lease columns of V007. -/
structure OutboxRow extends EventOutboxRow where
  id : ℕ
  claimedBy : Option String := none
  claimedAt : Option Timestamp := none
  claimDeadline : Option Timestamp := none
  attemptCount : ℕ := 0

def appErrorText : AppError → String
  | .unauthorized m => "unauthorized: " ++ m
  | .notFound m => "not found: " ++ m
  | .conflict m => "conflict: " ++ m
  | .validation m => "validation failed: " ++ m
  | .forbidden m => "forbidden: " ++ m
  | .rateLimited _ => "rate limited"
  | .internal m => "internal error: " ++ m

def sessionStatusText : SessionStatus → String
  | .idle => "idle"
  | .active => "active"
  | .draining => "draining"
  | .dead => "dead"

def sessionErrorText : SessionError → String
  | .sessionNotFound k => "session not found: " ++ k
  | .commandNotFound c => "command not found: " ++ c
  | .staleAttempt c a => "stale attempt " ++ a ++ " for command " ++ c ++ ": another attempt is current"
  | .sessionInactive k status =>
    "session " ++ k ++ " is not active: current status is '" ++ sessionStatusText status ++ "'"
  | .epochMismatch expected actual =>
    "epoch mismatch: expected " ++ toString expected ++ ", got " ++ toString actual
  | .invalidStateTransition c current target => "invalid state transition: command " ++ c
      ++ " is in state '" ++ current.asStr ++ "', cannot transition to '" ++ target.asStr ++ "'"
  | .conflict m => "conflict: " ++ m
  | .database m => "database error: " ++ m
  | .internal m => "internal error: " ++ m
  | .refused m => m

def routerErrorText : RouterError → String
  | .store e => "store error: " ++ appErrorText e
  | .session e => "session error: " ++ sessionErrorText e
  | .deserialization m => "deserialization error: " ++ m
  | .internal m => "internal error: " ++ m

def outboxDeadLetterAfterAttempts : ℕ := 5

def shouldDeadLetterOutbox (attemptCount : ℕ) : Bool :=
  attemptCount ≥ outboxDeadLetterAfterAttempts

/-- The event the row is about: `message_id`, or else `event_id`, of its payload. -/
def OutboxRow.messageId? (row : OutboxRow) : Option String :=
  (row.payload.text? "message_id").orElse fun _ => row.payload.text? "event_id"

/-- What the outbox and the router's dead letters hold beside the router's own tables. -/
structure OutboxDb where
  router : RouterDb := {}
  eventOutbox : Table OutboxRow.id := .empty
  deadLetters : List DeadLetter := []

namespace OutboxDb

variable (db : OutboxDb)

/-- The rows a claim takes: `FOR UPDATE SKIP LOCKED` passes over the rows others have locked. -/
def unpublishedEntries (now : Timestamp) (limit : ℕ) (locked : List ℕ) : List OutboxRow :=
  ((db.eventOutbox.rows.filter fun r => !r.published
      && r.claimDeadline.all (fun deadline => deadline < now) && !locked.contains r.id).insertionSort
    fun r s => r.id ≤ s.id).take limit

def claim (nodeId : String) (now deadline : Timestamp) (r : OutboxRow) : OutboxRow :=
  { r with
    claimedBy := some nodeId
    claimedAt := some now
    claimDeadline := some deadline
    attemptCount := r.attemptCount + 1 }

def claimUnpublishedEntries (now : Timestamp) (limit : ℕ) (nodeId : String)
    (leaseDuration : Timestamp) (locked : List ℕ) : List OutboxRow × OutboxDb :=
  let rows := db.unpublishedEntries now limit locked
  let ids := rows.map (·.id)
  (rows.map (claim nodeId now (now + leaseDuration)), { db with
    eventOutbox := db.eventOutbox.updateWhere (fun r => ids.contains r.id)
      (claim nodeId now (now + leaseDuration)) fun _ => rfl })

def markPublished (id : ℕ) (nodeId : String) : OutboxDb :=
  { db with
    eventOutbox := db.eventOutbox.updateWhere (fun r => r.id = id && r.claimedBy = some nodeId)
      (fun r => { r with published := true }) fun _ => rfl }

/-- The record of an entry that is given up; an instant is written as its microseconds. -/
def outboxDeadLetter (entry : OutboxRow) (id error : String) (now : Timestamp) : DeadLetter where
  id
  sourceType := "event_outbox"
  sourceId := toString entry.id
  payload := .ofFields [ ("aggregate_type", .str entry.aggregateType),
    ("aggregate_id", .str entry.aggregateId),
    ("event_type", .str entry.eventType),
    ("payload", entry.payload),
    ("claimed_by", .ofOption entry.claimedBy),
    ("claimed_at", (entry.claimedAt.map Json.num).getD .null),
    ("claim_deadline", (entry.claimDeadline.map Json.num).getD .null)]
  error
  attemptCount := entry.attemptCount
  createdAt := now

def stillOwned (entry : OutboxRow) (r : OutboxRow) : Bool :=
  r.id = entry.id && !r.published && r.claimedBy = entry.claimedBy && r.claimedAt = entry.claimedAt

/-- `dead_letter_outbox_entry`: the row is published and recorded in one transaction, unless the
claim has been lost. -/
def deadLetterOutboxEntry (entry : OutboxRow) (id error : String) (now : Timestamp) : OutboxDb :=
  if entry.claimedBy.isNone then db
  else if db.eventOutbox.rows.any (stillOwned entry) then
    { db with
      eventOutbox := db.eventOutbox.updateWhere (stillOwned entry)
        (fun r => { r with published := true }) fun _ => rfl
      deadLetters := db.deadLetters ++ [outboxDeadLetter entry id error now] }
  else db

/-- `parse_outbox_event`; the event store may be out of reach. -/
def parseOutboxEvent (entry : OutboxRow) (unavailable : Option AppError) :
    RouterResult (Option ConversationEventRow) :=
  match entry.messageId? with
  | none => .error (.deserialization "outbox payload missing message_id/event_id")
  | some messageId =>
    match unavailable with
    | some e => .error (.store e)
    | none => .ok (db.router.db.conversationEvents.find? (·.eventId = messageId))

end OutboxDb

inductive RouterTask where
  | waiting
  | routing (entry : OutboxRow) (run : RouteRun)
  | marking (entry : OutboxRow)
  | deadLettering (entry : OutboxRow) (error : String)

/-- A poller with its configuration, the entries it has claimed and sent, and the router loop. -/
structure RouterProcess where
  nodeId : String
  batchSize : ℕ
  claimLeaseDuration : Timestamp
  channel : List OutboxRow := []
  task : RouterTask := .waiting

/-- The database and the processes; beside them, which events were routed, and the id of an entry
for every processing of it that failed. -/
structure OutboxWorld where
  db : OutboxDb := {}
  processes : List RouterProcess := []
  routed : List String := []
  failures : List ℕ := []

inductive ProcessOp where
  | claim (now : Timestamp) (locked : List ℕ) (fault : Fault)
  | receive (unavailable : Option AppError)
  | route (op : RouteOp)
  | mark (fault : Fault)
  | deadLetter (id : String) (now : Timestamp) (fault : Fault)

inductive OutboxAction where
  | insert (id : ℕ) (entry : EventOutboxRow)
  | start (process : RouterProcess)
  | process (i : ℕ) (op : ProcessOp)
  | call (call : Call) (fault : Fault)

namespace OutboxWorld

variable (prims : Primitives) (w : OutboxWorld)

def fail (entry : OutboxRow) (error : String) : OutboxWorld × RouterTask :=
  ({ w with failures := w.failures ++ [entry.id] },
    if shouldDeadLetterOutbox entry.attemptCount then .deadLettering entry error else .waiting)

def receive (entry : OutboxRow) (unavailable : Option AppError) : OutboxWorld × RouterTask :=
  match w.db.parseOutboxEvent entry unavailable with
  | .ok (some event) => (w, .routing entry { event })
  | .ok none => ({ w with failures := w.failures ++ [entry.id] },
      .deadLettering entry "outbox entry references non-existent conversation event")
  | .error e => w.fail entry ("failed to parse outbox event: " ++ routerErrorText e)

/-- The loop goes on with `route_event`, and on its return with the row. -/
def route (w : OutboxWorld) (entry : OutboxRow) (run : RouteRun) (op : RouteOp) :
    Option (OutboxWorld × RouterTask) :=
  match run.step prims w.db.router op with
  | none => none
  | some (router, run) =>
    let w := { w with db := { w.db with router } }
    match run.stage with
    | .returned (.ok _) =>
      some ({ w with routed := w.routed ++ [run.event.eventId] }, .marking entry)
    | .returned (.error e) => some (w.fail entry ("failed to route event: " ++ routerErrorText e))
    | _ => some (w, .routing entry run)

def write (fault : Fault) (db : OutboxDb) : OutboxWorld :=
  if fault = .rolledBack then w else { w with db }

def advance (p : RouterProcess) : ProcessOp → Option (OutboxWorld × RouterProcess)
  | .claim now locked fault =>
    let (rows, db) :=
      w.db.claimUnpublishedEntries now p.batchSize p.nodeId p.claimLeaseDuration locked
    some (w.write fault db, if fault = .none then { p with channel := p.channel ++ rows } else p)
  | .receive unavailable =>
    match p.task, p.channel with
    | .waiting, entry :: rest =>
      let (w, task) := w.receive entry unavailable
      some (w, { p with channel := rest, task })
    | _, _ => none
  | .route op =>
    match p.task with
    | .routing entry run => (w.route prims entry run op).map fun (w, task) =>
        (w, { p with task })
    | _ => none
  | .mark fault =>
    match p.task with
    | .marking entry => some (w.write fault
        (w.db.markPublished entry.id (entry.claimedBy.getD "unknown")), { p with task := .waiting })
    | _ => none
  | .deadLetter id now fault =>
    match p.task with
    | .deadLettering entry error => some (w.write fault
        (w.db.deadLetterOutboxEntry entry id error now), { p with task := .waiting })
    | _ => none

def step : OutboxAction → Option OutboxWorld
  | .insert id entry =>
    (w.db.eventOutbox.insert? { entry with id, published := false }).map fun outbox =>
      { w with db := { w.db with eventOutbox := outbox } }
  | .start process =>
    some { w with processes := w.processes ++ [{ process with channel := [], task := .waiting }] }
  | .process i op =>
    match w.processes[i]? with
    | none => none
    | some p => (w.advance prims p op).map fun (w, p) =>
        { w with processes := w.processes.set i p }
  | .call call fault =>
    match fault, call.exec w.db.router.db with
    | .rolledBack, _ | _, .error _ => some w
    | _, .ok (_, db) => some { w with db := { w.db with router := { w.db.router with db } } }

/-- Before a process step: every earlier claim of a row to be claimed was processed and failed, and
an entry whose event is missing is on its last attempt. -/
def ProcessesClaims (p : RouterProcess) : ProcessOp → Prop
  | .claim now locked _ => ∀ r ∈ w.db.unpublishedEntries now p.batchSize locked,
      r.attemptCount ≤ w.failures.count r.id
  | .receive unavailable => ∀ entry ∈ p.channel.head?,
      w.db.parseOutboxEvent entry unavailable = .ok none → shouldDeadLetterOutbox entry.attemptCount
  | _ => True

def EveryClaimProcessed : OutboxAction → Prop
  | .process i op => ∀ p ∈ w.processes[i]?, w.ProcessesClaims p op
  | _ => True

instance (w : OutboxWorld) (p : RouterProcess) : ∀ op, Decidable (w.ProcessesClaims p op)
  | .claim _ _ _ => inferInstanceAs (Decidable (∀ r ∈ w.db.unpublishedEntries _ _ _, _))
  | .receive _ => inferInstanceAs (Decidable (∀ entry ∈ p.channel.head?, _))
  | .route _ | .mark _ | .deadLetter _ _ _ => isTrue trivial

instance (w : OutboxWorld) : ∀ action, Decidable (w.EveryClaimProcessed action)
  | .process i _ => inferInstanceAs (Decidable (∀ p ∈ w.processes[i]?, _))
  | .insert _ _ | .start _ | .call _ _ => isTrue trivial

end OutboxWorld

end Router

end Choruz
