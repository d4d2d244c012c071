import Choruz.Messages
import Choruz.Proofs.EffectLease

/-!
# Threads stay flat

Every write path that stores the thread flag looks one step up from the message it replies to.
Where the stored threads are flat this is the root, so they stay flat; the replies of the writer
and of the runtime hosts carry no flag.
-/

namespace Choruz

open Relational ConversationEventRow MessageWorld

variable {db db' : Db} {call : Call} {lower : String → String}

variable {e root : ConversationEventRow} {conversationId : String} {conv : Conversation}
  {request : SendMessageRequest} {actor : Principal} {metadata : Json} {dir : Directory}
  {now : Timestamp}

/-- The events `es` were appended, each with a new id. -/
structure Db.Appends (db db' : Db) (es : List ConversationEventRow) : Prop where
  events : db'.conversationEvents = db.conversationEvents ++ es
  ids : (es.map (·.eventId)).Nodup
  fresh : ∀ e ∈ es, ∀ r ∈ db.conversationEvents, r.eventId ≠ e.eventId

theorem Db.Appends.nil (h : db'.conversationEvents = db.conversationEvents) : db.Appends db' [] :=
  ⟨by rw [h, append_nil], nodup_nil, by simp⟩

theorem Db.Appends.single (h : db.insertEventRow e = some db') : db.Appends db' [e] := by
  obtain ⟨hc, _, _, _, rfl⟩ := Db.insertEventRow_eq_some db h
  refine ⟨rfl, List.nodup_singleton _, fun e' he' => ?_⟩
  rw [mem_singleton.1 he']
  exact eventId_ne_of_insert hc

theorem Call.Writes.quiet {e : ConversationEvent} (h : call.Writes e)
    (hb : call.txn.insertsEvent = false) :
    e.clientMsgId = none ∧ e.metadata.flag "thread" = false := by
  cases h with
  | client ht =>
    rw [ht] at hb
    cases hb
  | reply =>
    refine ⟨rfl, ?_⟩
    rw [Json.flag, AgentResult.replyEvent, Json.field?_ofFields_eq_none (by simp)]
    rfl
  | remote =>
    refine ⟨rfl, ?_⟩
    rw [Json.flag, Db.remoteReply, Json.field?_ofFields_eq_none (by simp)]
    rfl

theorem exec_appends {ans : Answer} (h : call.exec db = .ok (ans, db'))
    (hb : call.txn.insertsEvent = false) :
    ∃ es, db.Appends db' es ∧ ∀ e ∈ es, e.clientMsgId = none ∧ e.metadata.flag "thread" = false := by
  suffices ha : ∀ rows, WriteStep call db.conversationEvents rows →
      ∃ es, rows = db.conversationEvents ++ es ∧ (es.map (·.eventId)).Nodup ∧
        (∀ e ∈ es, ∀ r ∈ db.conversationEvents, r.eventId ≠ e.eventId) ∧
        ∀ e ∈ es, e.clientMsgId = none ∧ e.metadata.flag "thread" = false by
    obtain ⟨es, heq, hi, hf, hq⟩ := ha _ (exec_written h).events
    exact ⟨es, ⟨heq, hi, hf⟩, hq⟩
  intro rows hro
  induction hro with
  | refl => exact ⟨[], by simp⟩
  | tail _ ho ih =>
    obtain ⟨es, rfl, hi, hf, hq⟩ := ih
    obtain ⟨e, -, hw, hn, rfl⟩ := ho
    refine ⟨es ++ [e], append_assoc .., ?_, ?_, ?_⟩
    · exact nodup_map_snoc hi fun r hr => hn r (mem_append_right _ hr)
    · exact forall_mem_snoc hf fun r hr => hn r (mem_append_left _ hr)
    · exact forall_mem_snoc hq (hw.quiet hb)

/-- A threaded reply is stored under what the store finds one step up from some message of its
conversation. -/
def Db.Rooted (db : Db) (e : ConversationEventRow) : Prop :=
  e.metadata.flag "thread" → ∃ targetId root,
    db.canonicalizeThreadRootInTx e.conversationId targetId = some root ∧ e.replyEventId = some root

/-- The row's metadata has the request's thread flag: only the trace is added. -/
theorem SendMessageRequest.flag_rowMetadata (req : SendMessageRequest) :
    req.rowMetadata.flag "thread" = req.metadata.flag "thread" := by
  unfold rowMetadata
  split
  · rfl
  split
  next traceId _ _ fields ho =>
    have hf : ((Json.obj fields).set "trace_id" (.str traceId)).field? "thread"
        = (Json.obj fields).field? "thread" := by
      have hne : "thread" ≠ "trace_id" := by decide
      simp [Json.set, Json.field?, Json.find?_setField hne]
    rw [ho, Json.flag, Json.flag, hf]
  next ho =>
    have hn : req.metadata.field? "thread" = none := by
      unfold Json.field?
      split
      next fs hfs =>
        exact absurd hfs (ho fs)
      · rfl
    rw [Json.flag, Json.flag, hn, Json.field?_ofFields_eq_none (by simp)]

structure SentEvent (db : Db) (actor : Principal) (conv : Conversation)
    (request : SendMessageRequest) (e : ConversationEventRow) : Prop where
  conversation : e.conversationId = conv.id
  sender : e.senderId = actor.id
  key : e.clientMsgId = some request.idempotencyKey
  message : e.isMessage
  rooted : db.Rooted e

theorem replyTarget_eq_ok {tgt : Option String} (h : db.replyTarget conversationId metadata = .ok tgt)
    (hf : metadata.flag "thread") : ∃ targetId root,
      db.canonicalizeThreadRootInTx conversationId targetId = some root ∧ tgt = some root := by
  simp [Db.replyTarget, ThreadFlags.fromMetadata, hf] at h
  split at h
  · cases h
  rename_i targetId _
  split at h <;> cases h
  rename_i root hr
  exact ⟨targetId, root, hr, rfl⟩

theorem sendMessageInTx_eq_ok {mid : String} {mids : List String} {m : Message}
    (h : db.sendMessageInTx lower dir now mid actor conv mids request = .ok (m, db')) :
    ∃ e, SentEvent db actor conv request e ∧ db.Appends db' [e] ∧
      m = e.toMessage conv.workspaceId := by
  unfold Db.sendMessageInTx at h
  split at h
  · cases h
  rename_i replyEventId hr
  split at h
  · cases h
  simp only at h
  split at h <;> cases h
  rename_i next hi
  have ha := Db.Appends.single hi
  refine ⟨_, ⟨rfl, rfl, rfl, rfl, fun hf => ?_⟩, ⟨ha.events, ha.ids, ha.fresh⟩, rfl⟩
  rw [SendMessageRequest.flag_rowMetadata] at hf
  exact replyTarget_eq_ok hr hf

theorem sendToGroup_eq_ok {mid aid grp text contentType : String} {groups : List GroupRow}
    (h : db.sendToGroup now mid aid grp groups text contentType metadata = .ok db') :
    ∃ e : ConversationEventRow, e.clientMsgId = none ∧ e.isMessage ∧ db.Rooted e ∧
      db.Appends db' [e] := by
  unfold Db.sendToGroup at h
  split at h
  · cases h
  next group =>
    simp only at h
    split_ifs at h with ht hm hr hthr <;> split at h <;> cases h <;> rename_i next hi
    · have ha := Db.Appends.single hi
      refine ⟨_, rfl, rfl, fun _ => ?_, ⟨ha.events, ha.ids, ha.fresh⟩⟩
      obtain ⟨root, hr⟩ := Option.ne_none_iff_exists'.1 fun hn => hr ⟨hthr, hn⟩
      exact ⟨_, root, hr, hr⟩
    · have ha := Db.Appends.single hi
      refine ⟨_, rfl, rfl, fun hf => ?_, ⟨ha.events, ha.ids, ha.fresh⟩⟩
      exact absurd hf hthr
  · cases h

theorem admitSender_eq_ok (h : db.admitSender dir request = .ok ((actor, conv), db')) :
    actor.id = request.actorId ∧ conv.id = request.conversationId ∧
      db'.conversationEvents = db.conversationEvents := by
  unfold Db.admitSender at h
  split_ifs at h
  split at h
  · cases h
  · cases h
  next actor' conv' ha hc =>
    have hid : actor'.id = request.actorId := by
      unfold Db.getPrincipal at ha
      split at ha
      · cases ha
      rename_i hf
      split_ifs at ha
      cases ha
      simpa using find?_some hf
    have hcid : conv'.id = request.conversationId := by
      unfold Db.getConversation at hc
      split at hc <;> cases hc
      rename_i hf
      simpa using find?_some hf
    split_ifs at h <;> cases h <;> exact ⟨hid, hcid, rfl⟩

theorem SendCall.step_appends {c c' : SendCall} {op : SendOp}
    (h : c.step lower db op = some (db', c')) : ∃ es, db.Appends db' es ∧
      ∀ e ∈ es, e.metadata.flag "thread" = false ∨ e.isMessage ∧ db.Rooted e := by
  cases op with simp [SendCall.step] at h
  | checkSender dir fault =>
    split at h
    · rcases ho : fault.outcome connectionClosed db (db.admitSender dir c.request) with ⟨next, seen⟩
      rw [ho] at h
      have hsa : next.conversationEvents = db.conversationEvents := by
        rcases Fault.outcome_cases ho with ⟨⟨actor, conv⟩, ha, -⟩ | ⟨rfl, -⟩
        · exact (admitSender_eq_ok ha).2.2
        · rfl
      have hn : db' = next := by
        rcases seen with e | ⟨actor, conv⟩ <;> · cases h; rfl
      exact ⟨[], .nil (hn ▸ hsa), by simp⟩
    · cases h
  | lookup fault =>
    split at h <;> cases h
    exact ⟨[], .nil rfl, by simp⟩
  | insert dir now messageId fault =>
    split at h
    · split_ifs at h
      cases h
      rcases ho : fault.outcome connectionClosed db
        (db.sendMessageInTx lower dir now messageId _ _ _ c.request) with ⟨next, seen⟩
      rcases Fault.outcome_cases ho with ⟨m, hse, -⟩ | ⟨rfl, -⟩
      · obtain ⟨e, hs, happ, -⟩ := sendMessageInTx_eq_ok hse
        refine ⟨[e], happ, fun e' he' => .inr ?_⟩
        rw [mem_singleton.1 he']
        exact ⟨hs.message, hs.rooted⟩
      · exact ⟨[], .nil rfl, by simp⟩
    · cases h

/-- A step appends events, each of which is a rooted message or carries no thread flag. -/
theorem MessageWorld.step_appends {w w' : MessageWorld} {act : MessageAction}
    (h : w.step lower act = some w') : ∃ es, w.db.Appends w'.db es ∧
      ∀ e ∈ es, e.metadata.flag "thread" = false ∨ e.isMessage ∧ w.db.Rooted e := by
  cases act with simp only [step] at h
  | begin request =>
    cases h
    exact ⟨[], .nil rfl, by simp⟩
  | send i op =>
    split at h
    · cases h
    obtain ⟨⟨db, c'⟩, hs, rfl⟩ := map_eq_some_iff.1 h
    exact SendCall.step_appends hs
  | sendToGroup now messageId agentId groupName groups content contentType metadata fault =>
    split at h <;> cases h
    · exact ⟨[], .nil rfl, by simp⟩
    · exact ⟨[], .nil rfl, by simp⟩
    next hse =>
      obtain ⟨e, -, hm, hr, ha⟩ := sendToGroup_eq_ok hse
      refine ⟨[e], ha, fun e' he' => .inr ?_⟩
      rw [mem_singleton.1 he']
      exact ⟨hm, hr⟩
  | call call fault =>
    split_ifs at h with hb
    split at h <;> cases h
    · exact ⟨[], .nil rfl, by simp⟩
    · exact ⟨[], .nil rfl, by simp⟩
    next hex =>
      obtain ⟨es, ha, hq⟩ := exec_appends hex (by simpa using hb)
      exact ⟨es, ha, fun e he => .inl (hq e he).2⟩

/-- The root of a threaded reply: a message of its conversation that is not one itself. -/
structure Db.RootOf (db : Db) (e root : ConversationEventRow) : Prop where
  stored : root ∈ db.conversationEvents
  named : e.replyEventId = some root.eventId
  conversation : root.conversationId = e.conversationId
  message : root.isMessage
  flat : root.isThreadReply = false

/-- No two events have one id, and every threaded reply is a message under a root. -/
structure Db.Flat (db : Db) : Prop where
  ids : (db.conversationEvents.map (·.eventId)).Nodup
  rooted : ∀ e ∈ db.conversationEvents, e.isThreadReply → e.isMessage ∧ ∃ root, db.RootOf e root

theorem findMessage_eq_some {eid : String} (h : db.findMessage conversationId eid = some e) :
    e ∈ db.conversationEvents ∧ e.eventId = eid ∧ e.conversationId = conversationId ∧
      e.isMessage := by
  refine ⟨mem_of_find?_eq_some h, ?_⟩
  have hp := find?_some h
  simp at hp
  exact ⟨hp.1.1, hp.1.2, hp.2⟩

/-- One step up from a message of flat threads is a root. -/
theorem Db.Flat.root_of_canonicalize {targetId rootId : String} (h : db.Flat)
    (hro : db.canonicalizeThreadRootInTx conversationId targetId = some rootId) :
    ∃ root ∈ db.conversationEvents, root.eventId = rootId ∧ root.conversationId = conversationId ∧
      root.isMessage ∧ root.isThreadReply = false := by
  unfold Db.canonicalizeThreadRootInTx at hro
  split at hro
  · cases hro
  rename_i target hf
  obtain ⟨hm, hid, hc, hmsg⟩ := findMessage_eq_some hf
  split at hro <;> cases hro
  next parent hfl hrp =>
    have ht : target.isThreadReply := by
      rw [isThreadReply, hrp, hfl]
      rfl
    obtain ⟨-, root, hr⟩ := h.rooted target hm ht
    refine ⟨root, hr.stored, ?_, hr.conversation.trans hc, hr.message, hr.flat⟩
    exact Option.some.inj (hr.named.symm.trans hrp)
  next hpl =>
    refine ⟨target, hm, hid, hc, hmsg, eq_false_iff.2 fun ht => ?_⟩
    simp [isThreadReply] at ht
    obtain ⟨parent, hp⟩ := isSome_iff_exists.1 ht.1
    exact hpl parent ht.2 hp

theorem Db.Flat.append {es : List ConversationEventRow} (h : db.Flat) (ha : db.Appends db' es)
    (hes : ∀ e ∈ es, e.metadata.flag "thread" = false ∨ e.isMessage ∧ db.Rooted e) :
    db'.Flat := by
  have hm : ∀ {r}, r ∈ db.conversationEvents → r ∈ db'.conversationEvents := fun hr => by
    rw [ha.events]
    exact mem_append_left _ hr
  constructor
  · rw [ha.events, map_append, List.nodup_append]
    refine ⟨h.ids, ha.ids, ?_⟩
    rintro id hid _ hid' rfl
    obtain ⟨r, hr, hrid⟩ := mem_map.1 hid
    obtain ⟨e, he, heid⟩ := mem_map.1 hid'
    exact ha.fresh e he r hr (hrid.trans heid.symm)
  · intro e he ht
    rw [ha.events] at he
    rcases mem_append.1 he with he | he
    · obtain ⟨hmsg, root, hr⟩ := h.rooted e he ht
      exact ⟨hmsg, root, hm hr.stored, hr.named, hr.conversation, hr.message, hr.flat⟩
    · simp [isThreadReply] at ht
      rcases hes e he with hp | ⟨hmsg, hro⟩
      · rw [hp] at ht
        cases ht.2
      · obtain ⟨targetId, rootId, hc, hrp⟩ := hro ht.2
        obtain ⟨root, hr, rfl, hco, hrm, hf⟩ := h.root_of_canonicalize hc
        exact ⟨hmsg, root, hm hr, hrp, hco, hrm, hf⟩

theorem Db.Flat.findMessage (h : db.Flat) (he : e ∈ db.conversationEvents)
    (hm : e.isMessage) : db.findMessage e.conversationId e.eventId = some e := by
  rcases hf : db.findMessage e.conversationId e.eventId with _ | r
  · have hn := find?_eq_none.1 hf e he
    simp [hm] at hn
  · obtain ⟨hr, hid, -, -⟩ := findMessage_eq_some hf
    rw [inj_on_of_nodup_map h.ids hr he hid]

theorem Db.Flat.canonicalize_root (h : db.Flat) (hr : db.RootOf e root) :
    db.canonicalizeThreadRootInTx e.conversationId root.eventId = some root.eventId := by
  have hf := h.findMessage hr.stored hr.message
  rw [hr.conversation] at hf
  simp [Db.canonicalizeThreadRootInTx, hf]
  split
  next parent hfa hrp =>
    have hfl := hr.flat
    rw [isThreadReply, hrp, hfa] at hfl
    cases hfl
  · rfl

theorem Db.Flat.listThreadReplies_eq (h : db.Flat) (he : e ∈ db.conversationEvents)
    (hm : e.isMessage) (ht : e.isThreadReply) (hr : db.RootOf e root) (limit since : Option ℕ) :
    db.listThreadReplies e.conversationId e.eventId limit since =
        db.listThreadReplies e.conversationId root.eventId limit since ∧
      ∃ replies, db.listThreadReplies e.conversationId root.eventId limit since =
        .ok ⟨root.toMessage (db.workspaceOf e.conversationId), replies⟩ := by
  have hf := h.findMessage hr.stored hr.message
  rw [hr.conversation] at hf
  have hre : db.canonicalizeThreadRootInTx e.conversationId e.eventId = some root.eventId := by
    simp [isThreadReply] at ht
    simp [Db.canonicalizeThreadRootInTx, h.findMessage he hm, ht.2, hr.named]
  simp [Db.listThreadReplies, hre, h.canonicalize_root hr, hf]

/-- In every database the write paths reach from one without threaded replies, legacy quote-replies
included, a threaded reply names a message of its conversation that is none itself, and both list
the same thread. -/
theorem threads_stay_flat {w0 w : MessageWorld}
    (hi : (w0.db.conversationEvents.map (·.eventId)).Nodup)
    (hl : ∀ e ∈ w0.db.conversationEvents, e.isThreadReply = false) (hse : Steps (step lower) w0 w) :
    ∀ e ∈ w.db.conversationEvents, e.isThreadReply →
      ∃ root ∈ w.db.conversationEvents, e.replyEventId = some root.eventId ∧
        root.conversationId = e.conversationId ∧ root.isMessage ∧ root.isThreadReply = false ∧
        ∀ limit since, w.db.listThreadReplies e.conversationId e.eventId limit since =
              w.db.listThreadReplies e.conversationId root.eventId limit since ∧
            ∃ replies, w.db.listThreadReplies e.conversationId root.eventId limit since =
              .ok ⟨root.toMessage (w.db.workspaceOf e.conversationId), replies⟩ := by
  have h0 : w0.db.Flat := ⟨hi, fun e he ht => by rw [hl e he] at ht; cases ht⟩
  have h : w.db.Flat := hse.invariant (I := fun w => w.db.Flat) (fun hs hst => by
    obtain ⟨es, ha, hes⟩ := step_appends hst
    exact hs.append ha hes) h0
  intro e he ht
  obtain ⟨hm, root, hr⟩ := h.rooted e he ht
  exact ⟨root, hr.stored, hr.named, hr.conversation, hr.message, hr.flat,
    fun limit since => h.listThreadReplies_eq he hm ht hr limit since⟩

def openDirectory : Directory where
  canAccessWorkspace _ _ := true
  onlineDenied _ _ := false
  onlineGuest _ := false
  attachmentOwner _ := none

def aliceInGeneral : Db where
  principals := [⟨"alice", "acme", "Alice", .human, false, none⟩]
  conversations := [⟨"general", "acme", .group, 0⟩]
  conversationMembers := [⟨"general", "alice", 0, 0, none, none⟩]

def aliceSends (idempotencyKey : String) (metadata : List (String × Json)) :
    SendMessageRequest where
  actorId := "alice"
  conversationId := "general"
  idempotencyKey
  content := "hello"
  contentType := "text"
  metadata := .ofFields metadata
  traceId := none

def sendSteps (i : ℕ) (messageId : String) : List MessageAction :=
  [.send i (.checkSender openDirectory .none), .send i (.lookup .none),
    .send i (.insert openDirectory i messageId .none)]

theorem threads_stay_flat_reply : ∃ w : MessageWorld, ∃ e ∈ w.db.conversationEvents,
    e.metadata.text? "reply_to_id" = some "m2" ∧ ∃ root ∈ w.db.conversationEvents,
      e.replyEventId = some root.eventId ∧ root.isThreadReply = false ∧
      w.db.listThreadReplies e.conversationId e.eventId none none =
        w.db.listThreadReplies e.conversationId root.eventId none none := by
  have hrun : ((run (step id) { db := aliceInGeneral } ([.begin (aliceSends "k1" []),
          .begin (aliceSends "k2" [("thread", .bool true), ("reply_to_id", .str "m1")]),
          .begin (aliceSends "k3" [("thread", .bool true), ("reply_to_id", .str "m2")])]
        ++ sendSteps 0 "m1" ++ sendSteps 1 "m2" ++ sendSteps 2 "m3")).any fun w =>
      ∃ e ∈ w.db.conversationEvents, e.metadata.text? "reply_to_id" = some "m2" ∧
        e.isThreadReply) := by
    decide +kernel
  obtain ⟨w, hw, e, he, hto, ht⟩ := exists_steps_of_run hrun
  obtain ⟨root, hr, hn, -, -, hf, hl⟩ := threads_stay_flat (by decide) (by decide) hw e he ht
  exact ⟨w, e, he, hto, root, hr, hn, hf, (hl none none).1⟩

end Choruz
