import Choruz.RuntimeHost
import Choruz.SyncFeed

/-!
# Online groups

The owner of a group shares its messages with a guest on another device.  The host queues batches of
messages past its cursor, the guest stores them and asks now and then for what follows the largest
sequence number it has.  Shipments wait in the sender's outbox, in the recipient's mailbox at the
gateway and in the recipient's inbox.
-/

namespace Choruz

open Relational

structure GroupMessage where
  id : String
  seq : ℕ
  senderId : String
  contentType : String := "text"
  content : String
  createdAt : ℕ := 0
deriving DecidableEq

structure GroupLog where
  rows : List GroupMessage
  sorted : rows.Pairwise fun a b => a.seq < b.seq
  positive : ∀ m ∈ rows, 0 < m.seq
  nodup : (rows.map (·.id)).Nodup

namespace GroupLog

instance : Membership GroupMessage GroupLog := ⟨fun log m => m ∈ log.rows⟩

def empty : GroupLog := ⟨[], List.Pairwise.nil, nofun, nodup_nil⟩

def append? (log : GroupLog) (m : GroupMessage) : Option GroupLog :=
  if h : (∀ a ∈ log.rows, a.seq < m.seq) ∧ 0 < m.seq ∧ ∀ a ∈ log.rows, a.id ≠ m.id then
    some {
      rows := log.rows ++ [m]
      sorted := List.pairwise_append.2 ⟨log.sorted, pairwise_singleton _ _,
        fun a ha _ hb => mem_singleton.1 hb ▸ h.1 a ha⟩
      positive := fun a ha => by
        rcases mem_append.1 ha with ha | ha
        · exact log.positive a ha
        · exact mem_singleton.1 ha ▸ h.2.1
      nodup := nodup_map_snoc log.nodup h.2.2 }
  else none

/-- `list_message_page` with 20 as the limit. -/
def listMessagePage (log : GroupLog) (after : ℕ) : List GroupMessage :=
  (log.rows.filter fun m => after < m.seq).take 20

end GroupLog

structure OnlineAuthorContext where
  ownerName : Option String := none
  deviceName : Option String := none
  accountName : Option String := none
  harness : Option String := none
deriving DecidableEq

def OnlineAuthorContext.labels (c : OnlineAuthorContext) : List String :=
  [c.ownerName, c.deviceName, c.accountName, c.harness].filterMap id

structure OnlineSharedMessage where
  id : String
  seq : ℕ
  (senderId senderName : String)
  (agent own : Bool)
  content : String
  createdAt : ℕ
  authorContext : OnlineAuthorContext
deriving DecidableEq

/-- What the host's tables say about senders while a batch is built. -/
structure SenderView where
  (actorId displayName peerPrincipalId : String)
  name : String → String
  isAgent : String → Bool
  /-- The device, the account and the driver of an agent's binding. -/
  binding : String → Option (Option String × Option String × String)
  /-- The stored attribution of a guest's agent. -/
  peerAgent : String → Option OnlineAuthorContext

def SenderView.authorContext (view : SenderView) (sender : String) : OnlineAuthorContext :=
  match view.peerAgent sender with
  | some context => context
  | none =>
    if view.isAgent sender then
      match view.binding sender with
      | none => { ownerName := some view.displayName }
      | some (device, account, driver) =>
        { ownerName := some view.displayName
          deviceName := some (device.getD "Group owner's device")
          accountName := account
          harness := some driver }
    else {}

def exceedsLimit : String :=
  "[Message exceeds the Online transfer limit; read it on the owner's device.]"

def sharedContent (contentType content : String) : String :=
  if contentType = "attachment" then
    "[Attachment remains on the owner's device; Online shares text and Agent replies.]"
  else if content.utf8ByteSize > 400000 then exceedsLimit
  else content

structure OnlinePrims where
  /-- The length of a shared message's JSON. -/
  jsonLength : OnlineSharedMessage → ℕ

def SenderView.share (view : SenderView) (m : GroupMessage) : OnlineSharedMessage where
  id := m.id
  seq := m.seq
  senderId := m.senderId
  senderName := if m.senderId = view.actorId then view.displayName else view.name m.senderId
  agent := view.isAgent m.senderId
  own := view.peerPrincipalId = m.senderId
  content := sharedContent m.contentType m.content
  createdAt := m.createdAt
  authorContext := view.authorContext m.senderId

def OnlinePrims.bounded (prims : OnlinePrims) (m : OnlineSharedMessage) : OnlineSharedMessage :=
  if prims.jsonLength m > 450000 then { m with content := exceedsLimit } else m

/-- The loop of `queue_online_history`: a batch ends before the message that makes it too long, but
has one at least. -/
def OnlinePrims.fill (prims : OnlinePrims) (view : SenderView) :
    List GroupMessage → (bytes : ℕ) → List OnlineSharedMessage → List OnlineSharedMessage
  | [], _, messages => messages
  | m :: page, bytes, messages =>
    let message := prims.bounded (view.share m)
    let size := prims.jsonLength message
    if bytes + size > 500000 && !messages.isEmpty then messages
    else prims.fill view page (bytes + size) (messages ++ [message])

/-- The checks of `save_online_batch` on one message. -/
def OnlineSharedMessage.valid (m : OnlineSharedMessage) : Bool :=
  m.id ≠ "" && m.id.utf8ByteSize ≤ 100 && 0 < m.seq && m.senderId ≠ ""
    && m.senderId.utf8ByteSize ≤ 100 && m.senderName.utf8ByteSize ≤ 200
    && m.content.utf8ByteSize ≤ 400000
    && m.authorContext.labels.all fun label =>
      label.utf8ByteSize ≤ 200 && !label.toList.any isControl

inductive LinkStatus where
  | pending | active | revoked
deriving DecidableEq

/-- The bodies of shipments; those of the other kinds leave the shared history alone. -/
inductive OnlineBody where
  | join (name : String)
  | welcome (name : String)
  | sync (after : ℕ)
  | batch (messages : List OnlineSharedMessage)
  | other (kind : String)
deriving DecidableEq

def OnlineBody.isSync : OnlineBody → Bool
  | .sync _ => true
  | _ => false

structure Shipment where
  id : String
  body : OnlineBody
deriving DecidableEq

structure MailboxItem extends Shipment where
  created : ℕ
deriving DecidableEq

structure OnlineInboxRow extends Shipment where
  processed : Bool := false

/-- The link, the outbox and the inbox of one account, its mailbox, and the shipments of it that the
gateway has answered with `accepted`. -/
structure OnlineSide where
  status : LinkStatus := .pending
  outbox : List Shipment := []
  inbox : List OnlineInboxRow := []
  mailbox : List MailboxItem := []
  accepted : List String := []

structure HistoryDraft where
  after : ℕ
  messages : List OnlineSharedMessage

structure QueuedBatch extends HistoryDraft where
  id : String

inductive OnlineRole where
  | host | guest
deriving DecidableEq

def OnlineRole.other : OnlineRole → OnlineRole
  | .host => .guest
  | .guest => .host

/-- One link between a host and a guest.  `batches` has every batch that was ever queued. -/
structure OnlineWorld where
  log : GroupLog
  host : OnlineSide := {}
  guest : OnlineSide := {}
  lastSeq : ℕ := 0
  messages : Table (fun m : OnlineSharedMessage => m.id) := .empty
  drafts : List HistoryDraft := []
  batches : List QueuedBatch := []
  now : ℕ := 0

namespace OnlineWorld

variable (w : OnlineWorld)

def side : OnlineRole → OnlineSide
  | .host => w.host
  | .guest => w.guest

variable (role : OnlineRole)

def setSide (s : OnlineSide) : OnlineWorld :=
  match role with
  | .host => { w with host := s }
  | .guest => { w with guest := s }

variable (shipment : Shipment)

def enqueue : OnlineWorld :=
  w.setSide role { w.side role with outbox := (w.side role).outbox ++ [shipment] }

/-- `COALESCE(MAX(server_seq),0)` over the guest's messages. -/
def maxSeq : ℕ := (w.messages.rows.map (·.seq)).foldr max 0

variable (id : String)

def queueOnlineResync : OnlineWorld :=
  if w.guest.status ≠ .active || w.guest.outbox.any (·.body.isSync) then w
  else w.enqueue .guest ⟨id, .sync w.maxSeq⟩

/-- Whether an error has the delivery rejected for good or tried again. -/
inductive OnlineError where
  | refused | internal

def rewindOnlineHistory (after : ℕ) : Except OnlineError OnlineWorld :=
  if w.host.status ≠ .active then .error .refused
  else .ok { w with lastSeq := min w.lastSeq after }

def revokeOnlineGroup : OnlineWorld :=
  w.setSide role { w.side role with
    status := .revoked
    outbox := []
    inbox := (w.side role).inbox.map fun row => { row with processed := true } }

/-- `present` says that the owner and its group are there. -/
def activateOnlineGuest (name groupName : String) (present : Bool)
    (id : String) : Except OnlineError OnlineWorld :=
  if w.host.status = .revoked || (trim name).isEmpty || name.utf8ByteSize > 80 || !present then
    .error .refused
  else if w.host.status = .active then .ok w
  else .ok ({ w with host := { w.host with status := .active } }.enqueue .host
    ⟨id, .welcome groupName⟩)

def storeMessage (messages : Table fun m : OnlineSharedMessage => m.id) (m : OnlineSharedMessage) :
    Except OnlineError (Table fun m : OnlineSharedMessage => m.id) :=
  if !m.valid then .error .refused
  else
    match messages.insert? m with
    | none => .ok messages
    | some messages' =>
      if messages.rows.any (·.seq = m.seq) then .error .internal else .ok messages'

def saveOnlineBatch : OnlineBody → Except OnlineError OnlineWorld
  | .welcome name =>
    if w.guest.status = .revoked || name = "" || name.utf8ByteSize > 200 then .error .refused
    else .ok { w with guest := { w.guest with status := .active } }
  | .batch messages =>
    if w.guest.status = .revoked || messages.length > 20 then .error .refused
    else do
      let stored ← messages.foldlM storeMessage w.messages
      return { w with messages := stored }
  | _ => .error .refused

/-- The reads of `queue_online_history`; `present` says that both are still members. -/
def readOnlineHistory (prims : OnlinePrims) (view : SenderView) (present : Bool)
    (w : OnlineWorld) : OnlineWorld :=
  if w.host.status ≠ .active || !w.host.outbox.isEmpty then w
  else if !present then w.revokeOnlineGroup .host
  else
    let page := w.log.listMessagePage w.lastSeq
    if page.isEmpty then w
    else { w with drafts := w.drafts ++ [⟨w.lastSeq, prims.fill view page 0 []⟩] }

/-- Its transaction: the cursor moves together with the batch, unless it has moved meanwhile. -/
def queueOnlineHistory (draft : HistoryDraft) (id : String) : OnlineWorld :=
  match draft.messages.getLast? with
  | none => w
  | some last =>
    if w.lastSeq = draft.after && w.host.status = .active then
      { w.enqueue .host ⟨id, .batch draft.messages⟩ with
        lastSeq := last.seq
        batches := w.batches ++ [⟨draft, id⟩] }
    else w

def retentionMs : ℕ := 7 * 24 * 60 * 60 * 1000

def deliver : OnlineWorld :=
  let peer := w.side role.other
  if peer.mailbox.any (·.id = shipment.id) then
    w.setSide role { w.side role with accepted := (w.side role).accepted ++ [shipment.id] }
  else if 256 ≤ peer.mailbox.length then w
  else
    let w := w.setSide role.other { peer with mailbox := peer.mailbox ++ [⟨shipment, w.now⟩] }
    w.setSide role { w.side role with accepted := (w.side role).accepted ++ [shipment.id] }

def onlineAccepted : OnlineWorld :=
  w.setSide role { w.side role with outbox := (w.side role).outbox.filter (·.id ≠ id) }

def receiveOnline : OnlineWorld :=
  let s := w.side role
  if s.status = .revoked || s.inbox.any (·.id = shipment.id) then w
  else w.setSide role { s with inbox := s.inbox ++ [{ toShipment := shipment }] }

def acknowledge : OnlineWorld :=
  w.setSide role { w.side role with mailbox := (w.side role).mailbox.filter (·.id ≠ id) }

def onlineProcessed : OnlineWorld :=
  w.setSide role { w.side role with
    inbox := (w.side role).inbox.map fun row =>
      if row.id = id then { row with processed := true } else row }

def handle (body : OnlineBody) (groupName : String)
    (present : Bool) (id : String) : Except OnlineError OnlineWorld :=
  match role, body with
  | .host, .join name => w.activateOnlineGuest name groupName present id
  | .host, .sync after => w.rewindOnlineHistory after
  | .guest, .welcome name => w.saveOnlineBatch (.welcome name)
  | .guest, .batch messages => w.saveOnlineBatch (.batch messages)
  | _, .other _ => .ok w
  | _, _ => .error .refused

/-- `process` and what `maintain` does with its error.  A crash may come before the delivery is
marked. -/
def processOnline (row : OnlineInboxRow) (groupName : String)
    (present marked : Bool) (id : String) : OnlineWorld :=
  let mark (w : OnlineWorld) := if marked then w.onlineProcessed role row.id else w
  match w.handle role row.body groupName present id with
  | .ok w' => mark w'
  | .error .refused => mark w
  | .error .internal => w

def unlink : OnlineWorld :=
  { w with host := { w.host with mailbox := [] }, guest := { w.guest with mailbox := [] } }

end OnlineWorld

/-- New ids are part of an action, and so is what a call finds in tables of the device that are not
modelled. -/
inductive OnlineAction where
  | publish (message : GroupMessage)
  | readHistory (view : SenderView) (present : Bool)
  | queueHistory (i : ℕ) (id : String)
  | resync (id : String)
  | queueOther (role : OnlineRole) (kind id : String)
  | send (role : OnlineRole) (i : ℕ)
  | accepted (role : OnlineRole) (i : ℕ)
  | receive (role : OnlineRole) (i : ℕ)
  | acknowledge (role : OnlineRole) (i : ℕ)
  | process (role : OnlineRole) (i : ℕ) (groupName : String) (present marked : Bool) (id : String)
  | expire (role : OnlineRole) (i : ℕ)
  | revoke (role : OnlineRole)
  | unlink
  | pass (time : ℕ)

namespace OnlineWorld

def unusedId (w : OnlineWorld) (id : String) : Bool :=
  [w.host, w.guest].all fun s =>
    s.outbox.all (·.id ≠ id) && s.inbox.all (·.id ≠ id) && s.mailbox.all (·.id ≠ id)
      && s.accepted.all (· ≠ id)

def step (prims : OnlinePrims) (w : OnlineWorld) : OnlineAction → Option OnlineWorld
  | .publish message => (w.log.append? message).map fun log => { w with log }
  | .readHistory view present => some (w.readOnlineHistory prims view present)
  | .queueHistory i id => do
    let draft ← w.drafts[i]?
    if w.unusedId id then some (w.queueOnlineHistory draft id) else none
  | .resync id => if w.unusedId id then some (w.queueOnlineResync id) else none
  | .queueOther role kind id =>
    if w.unusedId id then some (w.enqueue role ⟨id, .other kind⟩) else none
  | .send role i => (w.side role).outbox[i]?.map fun shipment => w.deliver role shipment
  | .accepted role i => (w.side role).accepted[i]?.map fun id => w.onlineAccepted role id
  | .receive role i =>
    (w.side role).mailbox[i]?.map fun item => w.receiveOnline role item.toShipment
  | .acknowledge role i => (w.side role).inbox[i]?.map fun row => w.acknowledge role row.id
  | .process role i groupName present marked id => do
    let row ← (w.side role).inbox[i]?
    if w.unusedId id && !row.processed then
      some (w.processOnline role row groupName present marked id)
    else none
  | .expire role i => do
    let item ← (w.side role).mailbox[i]?
    if item.created + retentionMs ≤ w.now then some (w.acknowledge role item.id) else none
  | .revoke role => some (w.revokeOnlineGroup role)
  | .unlink => some w.unlink
  | .pass time => some { w with now := w.now + time }

/-- A link whose invitation has just been accepted. -/
def linked (log : GroupLog) (name id : String) : OnlineWorld where
  log
  guest := { outbox := [⟨id, .join name⟩] }

end OnlineWorld

end Choruz
