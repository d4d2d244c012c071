import Choruz.Pipeline

/-!
# Messages and threads

The write paths of a conversation's messages, `send_message` of the application service and
`send_to_group` of an agent's outbox, and the reads over them: a thread, the timeline and the
unread counts.  A threaded reply carries the flag `thread` in its metadata; a reply without it is
a legacy quote-reply.
-/

namespace Choruz

open Relational

/-- `COALESCE(metadata -> k = 'true'::jsonb, false)`, and `metadata.get(k).as_bool()`. -/
def Json.flag (j : Json) (k : String) : Bool := j.field? k = some (.bool true)

structure ThreadFlags where
  (isThreadReply isBroadcast : Bool)

def ThreadFlags.fromMetadata (metadata : Json) : ThreadFlags where
  isThreadReply := metadata.flag "thread"
  isBroadcast := metadata.flag "broadcast"

namespace ConversationEventRow

variable (e : ConversationEventRow)

/-- `event_type IN ('message', 'message.created', 'reply')`. -/
def isMessage : Bool :=
  e.eventType = "message" || e.eventType = "message.created" || e.eventType = "reply"

def isThreadReply : Bool :=
  e.replyEventId.isSome && e.metadata.flag "thread"

def isVisible : Bool :=
  e.isMessage && (e.replyEventId.isNone || !e.metadata.flag "thread" || e.metadata.flag "broadcast")

end ConversationEventRow

structure Message where
  (id workspaceId conversationId senderId content contentType : String)
  metadata : Json
  editedAt : Option Timestamp := none
  editedBy : Option String := none
  serverSeq : Int
  idempotencyKey : String
  createdAt : Timestamp

/-- `event_row_to_message`; the idempotency key of an agent's reply is its turn. -/
def ConversationEventRow.toMessage (workspaceId : String) (e : ConversationEventRow) : Message where
  id := e.eventId
  workspaceId
  conversationId := e.conversationId
  senderId := e.senderId
  content := e.content.getD ""
  contentType := e.contentType
  metadata := e.metadata
  serverSeq := e.seq
  idempotencyKey := (e.clientMsgId.or e.turnId).getD ""
  createdAt := e.createdAt

structure ThreadDetail where
  root : Message
  replies : List Message

namespace Db

def findMessage (db : Db) (conversationId eventId : String) : Option ConversationEventRow :=
  db.conversationEvents.find? fun e =>
    e.eventId = eventId && e.conversationId = conversationId && e.isMessage

/-- `canonicalize_thread_root_in_tx`: one step up from a threaded reply. -/
def canonicalizeThreadRootInTx (db : Db) (conversationId targetId : String) : Option String :=
  match db.findMessage conversationId targetId with
  | none => none
  | some target =>
    match target.metadata.flag "thread", target.replyEventId with
    | true, some root => some root
    | _, _ => some targetId

def findEventByClientMsgId (db : Db) (clientMsgId : String) : Option ConversationEventRow :=
  db.conversationEvents.find? (·.clientMsgId = some clientMsgId)

def memberIds (db : Db) (conversationId : String) : List String :=
  (db.conversationMembers.filter fun m => m.convId = conversationId && m.removedAt.isNone).map
    (·.principalId)

end Db

structure SendMessageRequest where
  (actorId conversationId idempotencyKey content contentType : String)
  metadata : Json
  traceId : Option String
deriving DecidableEq

/-- What a call reads outside the modelled tables: the companies, the online groups and the
attachments. -/
structure Directory where
  canAccessWorkspace : Principal → String → Bool
  onlineDenied : String → String → Bool
  onlineGuest : String → Bool
  attachmentOwner : String → Option String

namespace Db

variable (db : Db)

def getPrincipal (id : String) : Except AppError Principal :=
  match db.principals.find? (·.id = id) with
  | none => .error (.notFound "principal not found")
  | some p =>
    if p.disabled || p.deletedAt.isSome then .error (.forbidden "principal is disabled") else .ok p

def getConversation (id : String) : Except AppError Conversation :=
  match db.conversations.find? (·.id = id) with
  | none => .error (.notFound "conversation not found")
  | some c => .ok c

/-- `INSERT INTO conversation_member … ON CONFLICT (conv_id, principal_id) DO UPDATE SET removed_at
= NULL`. -/
def autoJoin (conversationId principalId : String) : Db :=
  let isRow (m : ConversationMember) := m.convId = conversationId && m.principalId = principalId
  { db with
    conversationMembers :=
      if db.conversationMembers.any isRow then
        db.conversationMembers.map fun m => if isRow m then { m with removedAt := none } else m
      else db.conversationMembers ++ [{
        convId := conversationId
        principalId
        msgCount := 0
        mentionCount := 0
        lastViewedAt := none
        removedAt := none }] }

/-- The checks of `send_message` up to the membership, an agent being joined on the way. -/
def admitSender (dir : Directory) (request : SendMessageRequest) :
    Except AppError ((Principal × Conversation) × Db) :=
  if trim request.content = "" then .error (.validation "message content is required")
  else if trim request.idempotencyKey = "" then .error (.validation "idempotency_key is required")
  else
    match db.getPrincipal request.actorId, db.getConversation request.conversationId with
    | .error e, _ => .error e
    | .ok _, .error e => .error e
    | .ok actor, .ok conv =>
      if !dir.canAccessWorkspace actor conv.workspaceId then
        .error (.forbidden "cross-workspace access denied")
      else if actor.principalType = .agent ∧ dir.onlineDenied conv.id actor.id then
        .error (.forbidden "This Agent is no longer shared in the Online group")
      else if actor.id ∈ db.memberIds conv.id then .ok ((actor, conv), db)
      else if actor.principalType = .agent then .ok ((actor, conv), db.autoJoin conv.id actor.id)
      else .error (.forbidden "sender is not a conversation member")

end Db

def SendMessageRequest.rowMetadata (request : SendMessageRequest) : Json :=
  match request.traceId with
  | none => request.metadata
  | some traceId =>
    match request.metadata with
    | .obj fields => (Json.obj fields).set "trace_id" (.str traceId)
    | _ => .ofFields [("trace_id", .str traceId)]

namespace Db

variable (db : Db)

/-- Whether the actor may send the attachment the metadata names, if it names one. -/
def checkAttachment (dir : Directory) (actor : Principal) (metadata : Json) : Except AppError Unit :=
  match metadata.text? "attachment_id" with
  | none => .ok ()
  | some attachmentId =>
    match dir.attachmentOwner attachmentId with
    | none => .error (.notFound "attachment not found")
    | some ownerId =>
      if ownerId = actor.id ∨ actor.principalType = .human then .ok ()
      else if db.conversationEvents.any fun e => e.metadata.text? "attachment_id" = some attachmentId
          && (db.memberIds e.conversationId).contains actor.id then .ok ()
      else .error (.forbidden "attachment access denied")

/-- The event a reply is stored under: the root of the thread, or what a quote-reply names. -/
def replyTarget (conversationId : String) (metadata : Json) : Except AppError (Option String) :=
  let replyToId := metadata.text? "reply_to_id"
  if (ThreadFlags.fromMetadata metadata).isThreadReply then
    match replyToId with
    | none => .error (.validation "threaded reply requires metadata.reply_to_id")
    | some targetId =>
      match db.canonicalizeThreadRootInTx conversationId targetId with
      | none => .error (.notFound "thread target message not found")
      | some root => .ok (some root)
  else .ok replyToId

/-- The router's outbox row of a sent message. -/
def messageOutboxRow (now : Timestamp) (e : ConversationEventRow) (traceId : Option Json) :
    EventOutboxRow where
  aggregateType := "conversation_event"
  aggregateId := e.conversationId
  eventType := "message"
  payload := .ofFields ([
    ("message_id", .str e.eventId),
    ("conversation_id", .str e.conversationId),
    ("sender_id", .str e.senderId),
    ("content", .ofOption e.content),
    ("content_type", .str e.contentType),
    ("seq", .num e.seq),
    ("metadata", e.metadata)] ++ (traceId.map fun t => ("trace_id", t)).toList)
  createdAt := now
  published := false

/-- The `app_mention` rows: one per agent of the conversation that the text mentions, the sender
apart. -/
def appMentions (lower : String → String) (dir : Directory) (now : Timestamp) (actor : Principal)
    (conv : Conversation) (memberIds : List String) (e : ConversationEventRow) (payload : Json) :
    List OutboxEvent :=
  let agents := db.principals.filter fun p => memberIds.contains p.id && p.principalType = .agent
    && !p.disabled && !dir.onlineGuest p.id
  let candidates := agents.map (·.name)
  (agents.filter fun p => p.id ≠ actor.id
      && containsMention lower (e.content.getD "") p.name candidates).map fun p =>
    { workspaceId := conv.workspaceId
      principalId := p.id
      eventType := "app_mention"
      payload
      createdAt := now }

def mentionEnvelope (actor : Principal) (conv : Conversation) (e : ConversationEventRow)
    (idempotencyKey : String) (traceId : Option String) : Json :=
  .ofFields [
    ("workspace_id", .str conv.workspaceId),
    ("conversation_id", .str conv.id),
    ("conversation_type", .str conv.type.asStr),
    ("message_id", .str e.eventId),
    ("sender", .ofFields [
      ("id", .str actor.id),
      ("name", .str actor.name),
      ("type", .str actor.principalType.asStr)]),
    ("sender_id", .str actor.id),
    ("content", .ofOption e.content),
    ("content_type", .str e.contentType),
    ("server_seq", .num e.seq),
    ("client_msg_id", .str idempotencyKey),
    ("metadata", e.metadata),
    ("trace_id", .ofOption traceId)]

def noRowReturned : AppError :=
  .internal "send_message insert: query returned an unexpected number of rows"

def sendMessageInTx (lower : String → String) (dir : Directory) (now : Timestamp)
    (messageId : String) (actor : Principal) (conv : Conversation) (memberIds : List String)
    (request : SendMessageRequest) : Except AppError (Message × Db) :=
  match db.replyTarget conv.id request.metadata with
  | .error e => .error e
  | .ok replyEventId =>
    match db.checkAttachment dir actor request.rowMetadata with
    | .error e => .error e
    | .ok () =>
      let event : ConversationEventRow :=
        { conversationId := conv.id
          eventId := messageId
          eventType := "message"
          senderId := actor.id
          content := some request.content
          contentType := request.contentType
          metadata := request.rowMetadata
          clientMsgId := some request.idempotencyKey
          turnId := none
          replyEventId
          seq := db.nextSeq conv.id
          createdAt := now }
      match db.insertEventRow event with
      | none => .error noRowReturned
      | some next =>
        let envelope := mentionEnvelope actor conv event request.idempotencyKey request.traceId
        .ok (event.toMessage conv.workspaceId, { next with
          eventOutbox := next.eventOutbox
            ++ [messageOutboxRow now event (some (.ofOption request.traceId))]
          outboxEvents := next.outboxEvents
            ++ next.appMentions lower dir now actor conv memberIds event envelope })

end Db

structure GroupRow where
  id : String
  (runtimeHostId runtimeHostName : Option String)

def GroupRow.stamp (row : GroupRow) (metadata : Json) : Json :=
  let put (j : Json) (k : String) (v : Option String) :=
    match v with
    | none => j.erase k
    | some v => (j.erase k).set k (.str v)
  put (put metadata "runtime_host_id" row.runtimeHostId) "runtime_host_name" row.runtimeHostName

namespace Db

variable (db : Db)

def activeGroupMember (conversationId agentId : String) : Bool :=
  db.conversations.any fun c => c.id = conversationId && c.type = .group
    && db.principals.any (fun p => p.id = agentId && c.workspaceId = p.workspaceId
      && p.deletedAt.isNone)
    && (db.memberIds conversationId).contains agentId

/-- `send_to_group` from the rows of its group lookup on. -/
def sendToGroup (now : Timestamp) (messageId agentId groupName : String) (groups : List GroupRow)
    (content contentType : String) (metadata : Json) : Except String Db :=
  match groups with
  | [] => .error ("group '" ++ groupName
      ++ "' was not found in this workspace, or this agent is not a member")
  | [group] =>
    let metadata := group.stamp metadata
    let threadTarget := metadata.text? "reply_to_id"
    let isThreadReply := (ThreadFlags.fromMetadata metadata).isThreadReply
    if isThreadReply ∧ threadTarget = none then
      .error "threaded send requires a thread target (reply_to_id)"
    else if !db.activeGroupMember group.id agentId then
      .error ("group '" ++ groupName
        ++ "' was not found in this workspace, or this agent is not a member")
    else
      let root := db.canonicalizeThreadRootInTx group.id (threadTarget.getD "")
      if isThreadReply ∧ root = none then
        .error ("thread target '" ++ threadTarget.getD "" ++ "' was not found in group '"
          ++ groupName ++ "'")
      else
        let event : ConversationEventRow :=
          { conversationId := group.id
            eventId := messageId
            eventType := "message"
            senderId := agentId
            content := some content
            contentType
            metadata
            clientMsgId := none
            turnId := none
            replyEventId := if isThreadReply then root else none
            seq := db.nextSeq group.id
            createdAt := now }
        match db.insertEventRow event with
        | none => .error ("failed to insert group message for '" ++ groupName
            ++ "': duplicate key value violates unique constraint")
        | some next =>
          .ok { next with eventOutbox := next.eventOutbox ++ [messageOutboxRow now event none] }
  | _ => .error ("group name '" ++ groupName ++ "' is ambiguous in this workspace")

/-- `unwrap_or_default` of the conversation's workspace. -/
def workspaceOf (conversationId : String) : String :=
  ((db.conversations.find? (·.id = conversationId)).map (·.workspaceId)).getD ""

/-- `limit.unwrap_or(200).clamp(1, 200)`. -/
def clampLimit (limit : Option ℕ) : ℕ := max 1 (min (limit.getD 200) 200)

def listThreadReplies (conversationId threadRootId : String) (limit sinceSeq : Option ℕ) :
    Except AppError ThreadDetail :=
  let workspaceId := db.workspaceOf conversationId
  match db.canonicalizeThreadRootInTx conversationId threadRootId with
  | none => .error (.notFound "thread root not found")
  | some canonicalRoot =>
    match db.findMessage conversationId canonicalRoot with
    | none => .error (.notFound "thread root not found")
    | some root =>
      let replies := (db.conversationEvents.filter fun e => e.conversationId = conversationId
        && e.replyEventId = some canonicalRoot && e.metadata.flag "thread"
        && decide ((sinceSeq.getD 0 : Int) < e.seq)).insertionSort fun a b => a.seq ≤ b.seq
      .ok ⟨root.toMessage workspaceId,
        (replies.take (clampLimit limit)).map (·.toMessage workspaceId)⟩

/-- `list_timeline_messages` but for the thread summaries. -/
def listTimelineMessages (conversationId : String) (limit sinceSeq : Option ℕ) : List Message :=
  let workspaceId := db.workspaceOf conversationId
  let rows := (db.conversationEvents.filter fun e => e.conversationId = conversationId
    && e.isVisible && decide ((sinceSeq.getD 0 : Int) < e.seq)).insertionSort
      fun a b => a.seq ≤ b.seq
  let page := match sinceSeq with
    | some _ => rows.take (clampLimit limit)
    | none => (rows.reverse.take (clampLimit limit)).reverse
  page.map (·.toMessage workspaceId)

end Db

structure ConversationUnread where
  conversationId : String
  (unreadCount mentionCount : Int)
  threadUnreadCount : ℕ

structure ThreadReadReceipt where
  (conversationId threadRootId principalId : String)
  lastReadSeq : Int

namespace Db

variable (db : Db)

/-- `mark_conversation_viewed`; the count of a missing conversation is NULL, which the column
refuses. -/
def markConversationViewed (now : Timestamp) (conversationId userId : String) :
    Except AppError Db :=
  let isRow (m : ConversationMember) := m.convId = conversationId && m.principalId = userId
  match db.conversations.find? (·.id = conversationId) with
  | some c => .ok { db with
      conversationMembers := db.conversationMembers.map fun m =>
        if isRow m then
          { m with msgCount := c.totalMsgCount, mentionCount := 0, lastViewedAt := some now }
        else m }
  | none =>
    if db.conversationMembers.any isRow then
      .error (.internal ("mark_conversation_viewed: null value in column \"msg_count\" of relation "
        ++ "\"conversation_member\" violates not-null constraint"))
    else .ok db

variable (receipts : List ThreadReadReceipt)

def threadUnreadCount (userId conversationId : String) : ℕ :=
  let lastReadSeq (root : String) : Int :=
    ((receipts.find? fun r => r.conversationId = conversationId && r.threadRootId = root
      && r.principalId = userId).map (·.lastReadSeq)).getD 0
  ((db.conversationEvents.filterMap fun e =>
    e.replyEventId.filter fun root => e.conversationId = conversationId && e.senderId ≠ userId
      && e.metadata.flag "thread" && decide (lastReadSeq root < e.seq)).dedup).length

variable (accessible : Conversation → Bool)

/-- `get_unread_counts_scoped`; `accessible` is the condition on the conversation's company. -/
def getUnreadCountsScoped (userId : String) (conversationIds : Option (List String)) :
    List ConversationUnread :=
  (db.conversations.filter fun c => conversationIds.all (·.contains c.id) && accessible c).flatMap
    fun c => (db.conversationMembers.filter fun m =>
      m.convId = c.id && m.principalId = userId && m.removedAt.isNone).map fun m =>
        { conversationId := c.id
          unreadCount := max (c.totalMsgCount - m.msgCount) 0
          mentionCount := m.mentionCount
          threadUnreadCount := db.threadUnreadCount receipts userId c.id }

def getUnreadCounts (userId : String) : List ConversationUnread :=
  db.getUnreadCountsScoped receipts accessible userId none

end Db

/-- Where a call of `send_message` stands; the members are those read with the conversation. -/
inductive SendStage where
  | start
  | admitted (actor : Principal) (conv : Conversation) (memberIds : List String)
  | missed (actor : Principal) (conv : Conversation) (memberIds : List String)
  | returned (result : Except AppError Message)

structure SendCall where
  request : SendMessageRequest
  stage : SendStage := .start

structure MessageWorld where
  db : Db := {}
  calls : List SendCall := []

inductive SendOp where
  | checkSender (dir : Directory) (fault : Fault)
  | lookup (fault : Fault)
  | insert (dir : Directory) (now : Timestamp) (messageId : String) (fault : Fault)

inductive MessageAction where
  | begin (request : SendMessageRequest)
  | send (i : ℕ) (op : SendOp)
  | sendToGroup (now : Timestamp) (messageId agentId groupName : String) (groups : List GroupRow)
      (content contentType : String) (metadata : Json) (fault : Fault)
  | call (call : Call) (fault : Fault)

def Txn.insertsEvent : Txn → Bool
  | .insertConversationEvent _ => true
  | _ => false

def connectionClosed : AppError := .internal "connection closed"

namespace SendCall

variable (lower : String → String)

/-- A step of a call.  The identifier of the message is new. -/
def step (db : Db) (c : SendCall) : SendOp → Option (Db × SendCall)
  | .checkSender dir fault =>
    match c.stage with
    | .start => some (match fault.outcome connectionClosed db (db.admitSender dir c.request) with
      | (db', .ok (actor, conv)) =>
        (db', { c with stage := .admitted actor conv (db.memberIds conv.id) })
      | (db', .error e) => (db', { c with stage := .returned (.error e) }))
    | _ => none
  | .lookup fault =>
    match c.stage with
    | .admitted actor conv memberIds =>
      let stage := match fault, db.findEventByClientMsgId c.request.idempotencyKey with
        | .none, some existing => .returned (.ok (existing.toMessage conv.workspaceId))
        | .none, none => .missed actor conv memberIds
        | _, _ => .returned (.error connectionClosed)
      some (db, { c with stage })
    | _ => none
  | .insert dir now messageId fault =>
    match c.stage with
    | .missed actor conv memberIds =>
      if db.conversationEvents.any (·.eventId = messageId) then none
      else
        let (db', result) := fault.outcome connectionClosed db
          (db.sendMessageInTx lower dir now messageId actor conv memberIds c.request)
        some (db', { c with stage := .returned result })
    | _ => none

end SendCall

namespace MessageWorld

variable (lower : String → String) (w : MessageWorld)

def step : MessageAction → Option MessageWorld
  | .begin request => some { w with calls := w.calls ++ [{ request }] }
  | .send i op =>
    match w.calls[i]? with
    | none => none
    | some c => (c.step lower w.db op).map fun (db, c) => { db, calls := w.calls.set i c }
  | .sendToGroup now messageId agentId groupName groups content contentType metadata fault =>
    match fault, w.db.sendToGroup now messageId agentId groupName groups content contentType
        metadata with
    | .rolledBack, _ | _, .error _ => some w
    | _, .ok db => some { w with db }
  | .call call fault =>
    if call.txn.insertsEvent then none
    else
      match fault, call.exec w.db with
      | .rolledBack, _ | _, .error _ => some w
      | _, .ok (_, db) => some { w with db }

/-- Before a call's step: the event it finds under its key is its own conversation's and sender's,
and when it inserts, the key is still free. -/
def KeepsKey (c : SendCall) : SendOp → Prop
  | .lookup _ => ∀ e ∈ w.db.findEventByClientMsgId c.request.idempotencyKey,
      e.conversationId = c.request.conversationId ∧ e.senderId = c.request.actorId
  | .insert _ _ _ _ => w.db.findEventByClientMsgId c.request.idempotencyKey = none
  | .checkSender _ _ => True

def KeepsKeys : MessageAction → Prop
  | .send i op => ∀ c ∈ w.calls[i]?, w.KeepsKey c op
  | _ => True

instance (c : SendCall) : ∀ op, Decidable (w.KeepsKey c op)
  | .lookup _ => inferInstanceAs (Decidable (∀ e ∈ w.db.findEventByClientMsgId _, _))
  | .insert _ _ _ _ => inferInstanceAs (Decidable (_ = none))
  | .checkSender _ _ => isTrue trivial

instance : ∀ action, Decidable (w.KeepsKeys action)
  | .send i _ => inferInstanceAs (Decidable (∀ c ∈ w.calls[i]?, _))
  | .begin _ | .sendToGroup .. | .call _ _ => isTrue trivial

end MessageWorld

structure UnreadWorld where
  db : Db := {}
  seen : ℕ := 0

inductive UnreadAction where
  | insert (e : ConversationEventRow)
  | view (now : Timestamp) (conversationId userId : String)

namespace UnreadWorld

variable (conversationId userId : String) (w : UnreadWorld)

def step : UnreadAction → Option UnreadWorld
  | .insert e =>
    match w.db.insertEventRow e with
    | none => some w
    | some db => some
        { db
          seen := if e.conversationId = conversationId ∧ e.senderId = userId ∧ e.isVisible then
            db.conversationEvents.length else w.seen }
  | .view now c u =>
    match w.db.markConversationViewed now c u with
    | .error _ => some w
    | .ok db => some
        { db
          seen := if c = conversationId ∧ u = userId then db.conversationEvents.length else w.seen }

def unseen : List ConversationEventRow :=
  (w.db.conversationEvents.drop w.seen).filter fun e =>
    e.conversationId = conversationId && e.isVisible

/-- A message inserted with the thread flag replies to something, or is broadcast. -/
def FlagsReplies (_ : UnreadWorld) : UnreadAction → Prop
  | .insert e => e.isMessage → e.metadata.flag "thread" →
      e.replyEventId.isSome ∨ e.metadata.flag "broadcast"
  | .view _ _ _ => True

instance : ∀ action, Decidable (w.FlagsReplies action)
  | .insert _ => inferInstanceAs (Decidable (_ → _))
  | .view _ _ _ => isTrue trivial

end UnreadWorld

/-- The primary key of `thread_read_receipt`. -/
def ThreadReadReceipt.key (r : ThreadReadReceipt) : String × String × String :=
  (r.conversationId, r.threadRootId, r.principalId)

/-- `COALESCE(MAX(seq), 0)` over the replies of a thread. -/
def Db.maxReplySeq (db : Db) (conversationId root : String) : Int :=
  (db.conversationEvents.filter fun e => e.conversationId = conversationId
    && e.replyEventId = some root && e.metadata.flag "thread").foldl (fun m e => max m e.seq) 0

/-- Where a call of `mark_thread_viewed` stands; its last statement takes a snapshot and then
locks the receipt it overwrites. -/
inductive ViewStage where
  | start
  | found (root : String)
  | upsert (root : String) (seq : Int)
  | done (answer : Except AppError Unit)

structure ViewCall where
  (conversationId threadRootId principalId : String)
  stage : ViewStage := .start

structure ReceiptWorld where
  db : Db := {}
  receipts : Table ThreadReadReceipt.key := .empty
  calls : List ViewCall := []

inductive ReceiptAction where
  | insert (now : Timestamp) (e : ConversationEvent)
  | begin (conversationId threadRootId principalId : String)
  | canonicalize (i : ℕ)
  | snapshot (i : ℕ)
  | write (i : ℕ)
  | fail (i : ℕ) (error : AppError)

/-- The receipt a call is about to write. -/
def ViewCall.pending? (c : ViewCall) : Option ThreadReadReceipt :=
  match c.stage with
  | .upsert root seq => some ⟨c.conversationId, root, c.principalId, seq⟩
  | _ => none

namespace ReceiptWorld

variable (w : ReceiptWorld)

def step : ReceiptAction → Option ReceiptWorld
  | .insert now e => (w.db.insertConversationEvent now e).map fun (_, db) => { w with db }
  | .begin conversationId threadRootId principalId =>
    some { w with calls := w.calls ++ [{ conversationId, threadRootId, principalId }] }
  | .canonicalize i => w.calls[i]?.bind fun c =>
    match c.stage, w.db.canonicalizeThreadRootInTx c.conversationId c.threadRootId with
    | .start, some root => some { w with calls := w.calls.set i { c with stage := .found root } }
    | .start, none => some { w with
        calls := w.calls.set i
          { c with stage := .done (.error (.notFound "thread root not found")) } }
    | _, _ => none
  | .snapshot i => w.calls[i]?.bind fun c =>
    match c.stage with
    | .found root => some { w with
        calls := w.calls.set i
          { c with stage := .upsert root (w.db.maxReplySeq c.conversationId root) } }
    | _ => none
  | .write i => w.calls[i]?.bind fun c => c.pending?.map fun r =>
    { w with
      receipts := w.receipts.put r
      calls := w.calls.set i { c with stage := .done (.ok ()) } }
  | .fail i error => w.calls[i]?.map fun c =>
    { w with calls := w.calls.set i { c with stage := .done (.error error) } }

/-- No statement takes its snapshot while another one is about to write the same receipt. -/
def viewsAlone : ReceiptAction → Bool
  | .snapshot i => w.calls[i]?.all fun c =>
    match c.stage with
    | .found root => w.calls.all fun d =>
        d.pending?.all fun r => r.key ≠ (c.conversationId, root, c.principalId)
    | _ => true
  | _ => true

end ReceiptWorld

end Choruz
