import Choruz.Models
import Choruz.SeqLog
import Choruz.Steps

/-!
# The dashboard's change feed

`sync_change` rows draw their cursor when they are inserted and are seen when their transaction
commits.  A client reads the rows past its cursor, a page at a time, over HTTP or from a socket,
and moves its cursor to the last one it received.  The head of the feed and the page up to it are
two statements, so writers may come between them.
-/

namespace Choruz

open Relational

/-- The columns of `sync_change` besides its serial `cursor`. -/
structure SyncChangeRow where
  (principalId eventType entityType entityId : String)
  conversationId : Option String
  payload : Json
  createdAt : Timestamp
deriving DecidableEq

structure SyncChange where
  cursor : ℕ
  (eventType entityType entityId : String)
  conversationId : Option String
  payload : Json
  createdAt : Timestamp
deriving DecidableEq

def SyncChange.ofRow (e : Entry SyncChangeRow) : SyncChange where
  cursor := e.pos
  eventType := e.val.eventType
  entityType := e.val.entityType
  entityId := e.val.entityId
  conversationId := e.val.conversationId
  payload := e.val.payload
  createdAt := e.val.createdAt

structure SyncChangePage where
  changes : List SyncChange
  (nextCursor headCursor : ℕ)
  hasMore : Bool

abbrev SyncLog := SeqLog SyncChangeRow

/-- `i64::try_from` on a cursor. -/
def i64Cursor (cursor : ℕ) : Except AppError ℕ :=
  if cursor < 2 ^ 63 then .ok cursor else .error (.validation "sync cursor is too large")

/-- `WHERE principal_id = …`. -/
def SyncChangeRow.isFor (principalId : String) (r : SyncChangeRow) : Bool :=
  r.principalId = principalId

variable (log : SyncLog)

/-- `SELECT COALESCE(MAX(cursor), 0) FROM sync_change WHERE principal_id = …`. -/
def currentSyncCursor (principalId : String) : ℕ :=
  (log.visible.filter fun e => e.val.isFor principalId).foldl (fun m e => max m e.pos) 0

/-- The first statement of `list_sync_changes`: the head up to which the page will be read. -/
def listSyncChangesHead (principalId : String) (cursor : ℕ) : Except AppError ℕ :=
  match i64Cursor cursor with
  | .error e => .error e
  | .ok cursor =>
    let head := currentSyncCursor log principalId
    if head < cursor then
      .error (.validation "sync cursor is ahead of this principal's feed")
    else .ok head

/-- The second: one row more than the page holds, to tell whether there are more. -/
def listSyncChangesPage (principalId : String) (cursor limit head : ℕ) : SyncChangePage :=
  let limit := max 1 (min limit 500)
  let rows := log.window (·.isFor principalId) cursor head (limit + 1)
  let hasMore := decide (limit < rows.length)
  let rows := if hasMore then rows.take limit else rows
  let changes := rows.map SyncChange.ofRow
  { changes
    nextCursor := (changes.getLast?.map (·.cursor)).getD cursor
    headCursor := head
    hasMore }

/-- `char::is_control`. -/
def isControl (c : Char) : Bool :=
  c.toNat < 32 || (127 ≤ c.toNat && c.toNat < 160)

/-- `register_sync_device` for the device whose row holds `ack`. -/
def registerSyncDevice (principalId deviceId : String) (ack : Option ℕ)
    (localCursor : ℕ) : Except AppError ℕ :=
  if deviceId.isEmpty || 128 < deviceId.utf8ByteSize || deviceId.toList.any isControl then
    .error (.validation "invalid sync device id")
  else
    match i64Cursor localCursor with
    | .error e => .error e
    | .ok localCursor =>
      if currentSyncCursor log principalId < localCursor then
        .error (.validation "sync cursor is ahead of this principal's feed")
      else .ok (max (ack.getD 0) localCursor)

/-- `acknowledge_sync_device`: the acknowledgement kept, for a device with a row. -/
def acknowledgeSyncDevice (principalId : String) (ack : Option ℕ) (cursor : ℕ) :
    Except AppError ℕ :=
  match i64Cursor cursor, ack with
  | .error e, _ => .error e
  | .ok cursor, some a =>
    if cursor ≤ currentSyncCursor log principalId then .ok (max a cursor)
    else .error (.validation "invalid sync acknowledgement")
  | .ok _, none => .error (.validation "invalid sync acknowledgement")

/-- Where `drain_changes` stands: waiting for a wakeup, before its first statement, or before its
second. -/
inductive Drain where
  | waiting | head
  | page (head : ℕ)

/-- How a client reads: a request whose head was read, or a socket with the frames and the
acknowledgements still under way. -/
inductive SyncLink where
  | offline
  | request (limit head : ℕ)
  | socket (lastSent : ℕ) (drain : Drain) (frames : List SyncChangePage) (acks : List ℕ)

/-- A device of a principal: the cursor it began with, the one it is at, what it received, and its
row of `sync_device`. -/
structure SyncClient where
  (principalId deviceId : String)
  (start cursor : ℕ)
  received : List SyncChange := []
  ackCursor : Option ℕ := none
  link : SyncLink := .offline

inductive ClientOp where
  | poll (limit : ℕ)
  | answer | connect | readHead | readPage | wakeup | receive | acknowledge | disconnect

namespace SyncClient

def apply (c : SyncClient) (page : SyncChangePage) (link : SyncLink) : SyncClient :=
  { c with
    received := c.received ++ page.changes
    cursor := max c.cursor page.nextCursor
    link }

def pageSize : ℕ := 200

def step (log : SyncLog) (c : SyncClient) : ClientOp → Option SyncClient
  | .poll limit =>
    match c.link with
    | .offline =>
      match listSyncChangesHead log c.principalId c.cursor with
      | .error _ => some c
      | .ok head => some { c with link := .request limit head }
    | _ => none
  | .answer =>
    match c.link with
    | .request limit head =>
      some (c.apply (listSyncChangesPage log c.principalId c.cursor limit head) .offline)
    | _ => none
  | .connect =>
    match c.link with
    | .offline =>
      match registerSyncDevice log c.principalId c.deviceId c.ackCursor c.cursor with
      | .error _ => some c
      | .ok cursor => some { c with ackCursor := some cursor, link := .socket cursor .head [] [] }
    | _ => none
  | .readHead =>
    match c.link with
    | .socket lastSent .head frames acks =>
      match listSyncChangesHead log c.principalId lastSent with
      | .error _ => some { c with link := .offline }
      | .ok head => some { c with link := .socket lastSent (.page head) frames acks }
    | _ => none
  | .readPage =>
    match c.link with
    | .socket lastSent (.page head) frames acks =>
      let page := listSyncChangesPage log c.principalId lastSent pageSize head
      if page.changes = [] then some { c with link := .socket lastSent .waiting frames acks }
      else
        let drain := if page.hasMore then Drain.head else .waiting
        some { c with link := .socket page.nextCursor drain (frames ++ [page]) acks }
    | _ => none
  | .wakeup =>
    match c.link with
    | .socket lastSent .waiting frames acks =>
      some { c with link := .socket lastSent .head frames acks }
    | _ => none
  | .receive =>
    match c.link with
    | .socket lastSent drain (page :: frames) acks =>
      some (c.apply page (.socket lastSent drain frames (acks ++ [page.nextCursor])))
    | _ => none
  | .acknowledge =>
    match c.link with
    | .socket lastSent .waiting frames (ack :: acks) =>
      if lastSent < ack then some { c with link := .offline }
      else
        match acknowledgeSyncDevice log c.principalId c.ackCursor ack with
        | .error _ => some { c with link := .offline }
        | .ok kept =>
          some { c with ackCursor := some kept, link := .socket lastSent .waiting frames acks }
    | _ => none
  | .disconnect => some { c with link := .offline }

end SyncClient

structure SyncWorld where
  log : SyncLog := .empty
  clients : List SyncClient := []

inductive SyncOp where
  | begin
  | insert (txn : ℕ) (row : SyncChangeRow)
  | commit (txn : ℕ)
  | rollback (txn : ℕ)
  /-- A new device begins at a cursor: zero, or that of the snapshot it was given. -/
  | join (principalId deviceId : String) (start : ℕ)
  | client (i : ℕ) (op : ClientOp)

namespace SyncWorld

def step (w : SyncWorld) : SyncOp → Option SyncWorld
  | .begin => some { w with log := w.log.begin }
  | .insert i row => (w.log.insert i row).map fun log => { w with log }
  | .commit i => (w.log.commit i).map fun log => { w with log }
  | .rollback i => some { w with log := w.log.rollback i }
  | .join principalId deviceId start =>
    if w.clients.any fun c => c.principalId = principalId && c.deviceId = deviceId then none
    else some { w with
      clients := w.clients ++ [{ principalId, deviceId, start, cursor := start }] }
  | .client i op =>
    match w.clients[i]? with
    | none => none
    | some c => (c.step w.log op).map fun c => { w with clients := w.clients.set i c }

/-- The operation does not read the head of a principal's feed while a transaction that holds a
lower cursor of that principal is open. -/
def Settles (w : SyncWorld) : SyncOp → Prop
  | .client i (.poll _) | .client i .readHead =>
    ∀ c ∈ w.clients[i]?, ∀ e ∈ w.log.pending.flatten, e.val.isFor c.principalId →
      currentSyncCursor w.log c.principalId < e.pos
  | _ => True

instance (w : SyncWorld) : ∀ op, Decidable (w.Settles op)
  | .client i (.poll _) | .client i .readHead =>
    inferInstanceAs (Decidable (∀ c ∈ w.clients[i]?, ∀ e ∈ w.log.pending.flatten,
      e.val.isFor c.principalId → currentSyncCursor w.log c.principalId < e.pos))
  | .client _ .answer | .client _ .connect | .client _ .readPage | .client _ .wakeup
  | .client _ .receive | .client _ .acknowledge | .client _ .disconnect
  | .begin | .insert .. | .commit _ | .rollback _ | .join .. => isTrue trivial

end SyncWorld

end Choruz
