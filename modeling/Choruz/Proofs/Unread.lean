import Choruz.Messages
import Choruz.Proofs.Effect
import Mathlib.Data.List.Dedup

/-!
# The unread counter counts the timeline

The trigger raises a conversation's count with every message that is not a threaded reply, or is
broadcast, and the timeline shows every message that replies to nothing, is not threaded, or is
broadcast.  The two differ for a message with the thread flag that replies to nothing.
-/

namespace Choruz

open Relational ConversationMember ConversationEventRow Conversation

variable {db db' : Db} {e : ConversationEventRow}

def ConversationEventRow.isCounted (e : ConversationEventRow) : Bool :=
  e.isMessage && (!e.metadata.flag "thread" || e.metadata.flag "broadcast")

def Conversation.countEvent (e : ConversationEventRow) (c : Conversation) : Conversation :=
  if e.isCounted ∧ c.id = e.conversationId then { c with totalMsgCount := c.totalMsgCount + 1 } else c

def ConversationMember.seeEvent (e : ConversationEventRow) (total : Int) (m : ConversationMember) :
    ConversationMember :=
  if e.isCounted ∧ m.convId = e.conversationId ∧ m.principalId = e.senderId ∧ m.removedAt = none then
    { m with msgCount := total, mentionCount := 0, lastViewedAt := some e.createdAt }
  else m

theorem isMessage_iff : e.isMessage ↔
    e.eventType = "message" ∨ e.eventType = "message.created" ∨ e.eventType = "reply" := by
  simp [isMessage, or_assoc]

theorem isCounted_iff : e.isCounted ↔ e.isMessage ∧ (e.metadata.field? "thread" ≠ some (.bool true) ∨
      e.metadata.field? "broadcast" = some (.bool true)) := by
  simp [isCounted, Json.flag]

theorem countEvent_id (c : Conversation) : (c.countEvent e).id = c.id := by
  unfold countEvent
  split_ifs <;> rfl

theorem countEvent_of_not_counted (h : e.isCounted = false) (c : Conversation) :
    c.countEvent e = c := by
  simp [countEvent, h]

theorem seeEvent_of_not_counted (h : e.isCounted = false) (total : Int) (m : ConversationMember) :
    m.seeEvent e total = m := by
  simp [seeEvent, h]

theorem publish_counts (db : Db) (e : ConversationEventRow) :
    (db.publishConversationMessage e).conversations = db.conversations.map (·.countEvent e) ∧
      (db.publishConversationMessage e).conversationMembers =
        match db.conversations.find? (·.id = e.conversationId) with
        | none => db.conversationMembers
        | some c => db.conversationMembers.map (·.seeEvent e (c.totalMsgCount + 1)) := by
  unfold Db.publishConversationMessage
  split_ifs with hm <;> rw [← isMessage_iff] at hm
  · rcases hf : db.conversations.find? (·.id = e.conversationId) with _ | c
    · simp [hf]
      refine ((map_congr_left fun c hc => ?_).trans (List.map_id _)).symm
      have hne := find?_eq_none.1 hf c hc
      simp at hne
      simp [countEvent, hne]
    · simp [hf]
      split_ifs with hcnt
      · have hco : e.isCounted := isCounted_iff.2 ⟨hm, hcnt⟩
        constructor
        · refine map_congr_left fun c _ => ?_
          simp [countEvent, hco]
        · refine map_congr_left fun m _ => ?_
          simp [seeEvent, hco]
      · have hco : e.isCounted = false := eq_false_iff.2 fun h => hcnt (isCounted_iff.1 h).2
        simp [countEvent_of_not_counted hco, seeEvent_of_not_counted hco]
  · have hco : e.isCounted = false := eq_false_iff.2 fun h => hm (isCounted_iff.1 h).1
    simp [countEvent_of_not_counted hco, seeEvent_of_not_counted hco, List.map_id']
    split <;> rfl

theorem insertEventRow_counts (h : db.insertEventRow e = some db') :
    db'.conversationEvents = db.conversationEvents ++ [e] ∧
      db'.conversations = db.conversations.map (·.countEvent e) ∧ db'.conversationMembers =
        match db.conversations.find? (·.id = e.conversationId) with
        | none => db.conversationMembers
        | some c => db.conversationMembers.map (·.seeEvent e (c.totalMsgCount + 1)) := by
  have he : db'.conversationEvents = db.conversationEvents ++ [e] := by
    obtain ⟨-, _, _, _, rfl⟩ := Db.insertEventRow_eq_some db h
    rfl
  refine ⟨he, ?_⟩
  unfold Db.insertEventRow at h
  split_ifs at h
  obtain rfl := Option.some.inj h
  exact publish_counts _ e

/-- The trigger counts what the timeline shows, but for a flagged message without a target. -/
theorem isCounted_eq_isVisible (h : e.isMessage → e.metadata.flag "thread" →
    e.replyEventId.isSome ∨ e.metadata.flag "broadcast") : e.isCounted = e.isVisible := by
  unfold isCounted isVisible
  rcases hm : e.isMessage with _ | _
  · rfl
  rcases ht : e.metadata.flag "thread" with _ | _
  · simp
  · rcases h hm ht with hrp | hb
    · rw [isSome_iff_exists] at hrp
      obtain ⟨root, hr⟩ := hrp
      simp [hr]
    · simp [hb]

section Shown

variable (conversationId : String)

def shown (events : List ConversationEventRow) : ℕ :=
  (events.filter fun e => e.conversationId = conversationId && e.isVisible).length

theorem shown_append (xs ys : List ConversationEventRow) :
    shown conversationId (xs ++ ys) = shown conversationId xs + shown conversationId ys := by
  simp [shown]

theorem shown_singleton : shown conversationId [e] =
    if e.conversationId = conversationId ∧ e.isVisible = true then 1 else 0 := by
  by_cases h : e.conversationId = conversationId ∧ e.isVisible
  · simp [shown, h]
  · rw [if_neg h, shown, filter_eq_nil_iff.2 (by simpa using h), List.length_nil]

end Shown

section Inv

variable (conversationId userId : String)

structure UnreadInv (w : UnreadWorld) : Prop where
  conversation : ∃ c ∈ w.db.conversations, c.id = conversationId
  total : ∀ c ∈ w.db.conversations, c.id = conversationId →
    c.totalMsgCount = shown conversationId w.db.conversationEvents
  member : ∃ m ∈ w.db.conversationMembers, m.convId = conversationId ∧ m.principalId = userId
  seen : ∀ m ∈ w.db.conversationMembers, m.convId = conversationId → m.principalId = userId →
    m.removedAt = none ∧ m.msgCount = shown conversationId (w.db.conversationEvents.take w.seen)
  seen_le : w.seen ≤ w.db.conversationEvents.length

variable {conversationId userId} {w w' : UnreadWorld}

theorem seeEvent_key (total : Int) (m : ConversationMember) :
    (m.seeEvent e total).convId = m.convId ∧ (m.seeEvent e total).principalId = m.principalId ∧
      (m.seeEvent e total).removedAt = m.removedAt := by
  unfold seeEvent
  split_ifs <;> simp

theorem find?_conversation (h : UnreadInv conversationId userId w) :
    ∃ c, w.db.conversations.find? (·.id = conversationId) = some c ∧
      c.totalMsgCount = shown conversationId w.db.conversationEvents := by
  obtain ⟨c, hc, hid⟩ := h.conversation
  rcases hf : w.db.conversations.find? (·.id = conversationId) with _ | c'
  · have hn := find?_eq_none.1 hf c hc
    simp [hid] at hn
  · exact ⟨c', hf, h.total c' (mem_of_find?_eq_some hf) (by
      simpa using find?_some hf)⟩

theorem members_insert (h : w.db.insertEventRow e = some db') : ∃ f : ConversationMember →
    ConversationMember, db'.conversationMembers = w.db.conversationMembers.map f ∧ ∀ m,
      (f m).convId = m.convId ∧ (f m).principalId = m.principalId ∧ (f m).removedAt = m.removedAt ∧
        (f m = m ∨ e.isCounted ∧ m.convId = e.conversationId ∧ m.principalId = e.senderId) := by
  obtain ⟨-, -, hm⟩ := insertEventRow_counts h
  split at hm
  · exact ⟨id, by simp [hm], fun m => ⟨rfl, rfl, rfl, .inl rfl⟩⟩
  rename_i c _
  refine ⟨_, hm, fun m => ?_⟩
  obtain ⟨hc, hp, hr⟩ := seeEvent_key (e := e) (c.totalMsgCount + 1) m
  refine ⟨hc, hp, hr, ?_⟩
  unfold seeEvent
  split_ifs with hs
  · exact .inr ⟨hs.1, hs.2.1, hs.2.2.1⟩
  · exact .inl rfl

section

variable (h : UnreadInv conversationId userId w)
include h

section

variable (hflags : w.FlagsReplies (.insert e)) (hins : w.db.insertEventRow e = some db')
include hflags hins

theorem UnreadInv.seen_insert :
    ∀ m ∈ db'.conversationMembers, m.convId = conversationId → m.principalId = userId →
      m.removedAt = none ∧ m.msgCount = shown conversationId (db'.conversationEvents.take
        (if e.conversationId = conversationId ∧ e.senderId = userId ∧ e.isVisible then
          db'.conversationEvents.length else w.seen)) := by
  obtain ⟨he, -, hme⟩ := insertEventRow_counts hins
  intro m' hm' hco hp
  by_cases ho : e.conversationId = conversationId ∧ e.senderId = userId ∧ e.isVisible
  · obtain ⟨c, hfi, ht⟩ := find?_conversation h
    obtain ⟨rfl, rfl, hv⟩ := ho
    rw [hfi] at hme
    rw [hme] at hm'
    obtain ⟨m, hm, rfl⟩ := mem_map.1 hm'
    obtain ⟨hmc, hmp, hmr⟩ := seeEvent_key (e := e) (c.totalMsgCount + 1) m
    rw [hmc] at hco
    rw [hmp] at hp
    obtain ⟨hr, -⟩ := h.seen m hm hco hp
    refine ⟨hmr.trans hr, ?_⟩
    rw [if_pos ⟨rfl, rfl, hv⟩, List.take_length, he, shown_append, shown_singleton,
      if_pos ⟨rfl, hv⟩, Int.natCast_add, ← ht, seeEvent,
      if_pos ⟨(isCounted_eq_isVisible hflags).trans hv, hco, hp, hr⟩]
    rfl
  · obtain ⟨f, hf, hk⟩ := members_insert hins
    rw [hf] at hm'
    obtain ⟨m, hm, rfl⟩ := mem_map.1 hm'
    obtain ⟨hmc, hmp, -, hsa | ⟨hcu, hc, hs⟩⟩ := hk m
    · rw [hsa] at hco hp ⊢
      rw [if_neg ho, he, List.take_append_of_le_length h.seen_le]
      exact h.seen m hm hco hp
    · refine absurd ⟨?_, ?_, ?_⟩ ho
      · rw [← hco, hmc, hc]
      · rw [← hp, hmp, hs]
      · rw [← isCounted_eq_isVisible hflags]
        exact hcu

theorem UnreadInv.insert : UnreadInv conversationId userId {
        db := db'
        seen := if e.conversationId = conversationId ∧ e.senderId = userId ∧ e.isVisible then
          db'.conversationEvents.length else w.seen } := by
  have hv := isCounted_eq_isVisible hflags
  obtain ⟨he, hco, hme⟩ := insertEventRow_counts hins
  constructor
  · obtain ⟨c, hc, hid⟩ := h.conversation
    refine ⟨c.countEvent e, ?_, (countEvent_id c).trans hid⟩
    rw [hco]
    exact mem_map_of_mem hc
  · intro c' hc' hid
    rw [hco] at hc'
    obtain ⟨c, hc, rfl⟩ := mem_map.1 hc'
    rw [countEvent_id] at hid
    rw [he, shown_append, shown_singleton, Int.natCast_add, ← h.total c hc hid]
    subst hid
    unfold countEvent
    rw [hv]
    by_cases hs : e.conversationId = c.id ∧ e.isVisible
    · rw [if_pos ⟨hs.2, hs.1.symm⟩, if_pos hs]
      rfl
    · rw [if_neg fun hcnt => hs ⟨hcnt.2.symm, hcnt.1⟩, if_neg hs]
      simp
  · obtain ⟨f, hf, hk⟩ := members_insert hins
    obtain ⟨m, hm, hcn, hp⟩ := h.member
    refine ⟨f m, ?_, (hk m).1.trans hcn, (hk m).2.1.trans hp⟩
    rw [hf]
    exact mem_map_of_mem hm
  · exact h.seen_insert hflags hins
  · split_ifs
    · exact le_rfl
    · rw [he, length_append]
      exact h.seen_le.trans (Nat.le_add_right _ _)

end

theorem UnreadInv.view {now : Timestamp} {c u : String}
    (hv : w.db.markConversationViewed now c u = .ok db') : UnreadInv conversationId userId
      { db := db'
        seen := if c = conversationId ∧ u = userId then db'.conversationEvents.length
          else w.seen } := by
  unfold Db.markConversationViewed at hv
  simp only at hv
  split at hv
  next conv hf =>
    cases hv
    refine ⟨h.conversation, h.total, ?_, ?_, ?_⟩
    · obtain ⟨m, hm, hco, hp⟩ := h.member
      refine ⟨_, mem_map_of_mem hm, ?_⟩
      split_ifs <;> exact ⟨hco, hp⟩
    · intro m' hm' hco hp
      obtain ⟨m, hm, rfl⟩ := mem_map.1 hm'
      have hk : m.convId = conversationId ∧ m.principalId = userId := by
        split_ifs at hco hp <;> exact ⟨hco, hp⟩
      obtain ⟨hr, hcnt⟩ := h.seen m hm hk.1 hk.2
      by_cases hown : c = conversationId ∧ u = userId
      · obtain ⟨rfl, rfl⟩ := hown
        obtain ⟨conv', hf', ht⟩ := find?_conversation h
        cases hf'.symm.trans hf
        simp only [hk.1, hk.2, and_self, if_true, List.take_length]
        exact ⟨hr, ht⟩
      · have ho : (decide (m.convId = c) && decide (m.principalId = u)) = false := by
          simp only [hk.1, hk.2, Bool.and_eq_false_iff, decide_eq_false_iff_not]
          by_cases hc : conversationId = c
          · exact .inr fun hu => hown ⟨hc.symm, hu.symm⟩
          · exact .inl hc
        simp [ho, if_neg hown]
        exact ⟨hr, hcnt⟩
    · split_ifs
      · exact le_rfl
      · exact h.seen_le
  next hf =>
    split_ifs at hv with ha
    cases hv
    have ho : ¬ (c = conversationId ∧ u = userId) := by
      rintro ⟨rfl, rfl⟩
      obtain ⟨conv, hco, -⟩ := find?_conversation h
      cases hco.symm.trans hf
    rw [if_neg ho]
    exact h

theorem UnreadInv.step {act : UnreadAction} (hflags : w.FlagsReplies act)
    (hs : w.step conversationId userId act = some w') :
    UnreadInv conversationId userId w' := by
  cases act with simp [UnreadWorld.step] at hs
  | insert e =>
    split at hs <;> cases hs
    · exact h
    next hins => exact h.insert hflags hins
  | view now c u =>
    split at hs <;> cases hs
    · exact h
    next hv => exact h.view hv

end

end Inv

/-- The unread count a member is given is the number of events the timeline shows that were stored
since the member's last view or last visible message. -/
theorem unread_counts_timeline (conversationId userId : String) {w0 w : UnreadWorld}
    (hev : ∀ e ∈ w0.db.conversationEvents, e.conversationId ≠ conversationId)
    (hcn : ∃ c ∈ w0.db.conversations, c.id = conversationId)
    (ht : ∀ c ∈ w0.db.conversations, c.id = conversationId → c.totalMsgCount = 0)
    (hme : ∃ m ∈ w0.db.conversationMembers, m.convId = conversationId ∧ m.principalId = userId)
    (hcu : ∀ m ∈ w0.db.conversationMembers, m.convId = conversationId → m.principalId = userId →
      m.removedAt = none ∧ m.msgCount = 0) (hs : w0.seen = 0)
    (hst : Steps (restrict (UnreadWorld.step conversationId userId) UnreadWorld.FlagsReplies) w0 w)
    (receipts : List ThreadReadReceipt) (accessible : Conversation → Bool) :
    (∀ u ∈ w.db.getUnreadCounts receipts accessible userId, u.conversationId = conversationId →
      u.unreadCount = (w.unseen conversationId).length) ∧
      ((∀ c, c.id = conversationId → accessible c) →
        ∃ u ∈ w.db.getUnreadCounts receipts accessible userId, u.conversationId = conversationId) := by
  have h0 : UnreadInv conversationId userId w0 := by
    have hn : shown conversationId w0.db.conversationEvents = 0 := by
      rw [shown, filter_eq_nil_iff.2, List.length_nil]
      intro e he
      simp [hev e he]
    refine ⟨hcn, fun c hc hid => ?_, hme, fun m hm hco hp => ?_, ?_⟩
    · rw [ht c hc hid, hn]
      rfl
    · rw [hs]
      exact hcu m hm hco hp
    · rw [hs]
      exact Nat.zero_le _
  have h : UnreadInv conversationId userId w := hst.keeps (·.step) h0
  constructor
  · intro u hu hid
    simp [Db.getUnreadCounts, Db.getUnreadCountsScoped] at hu
    obtain ⟨c, ⟨hc, -⟩, m, ⟨hm, ⟨hco, hp⟩, -⟩, rfl⟩ := hu
    have hcu := (h.seen m hm (hco.trans hid) hp).2
    have hsp := shown_append conversationId (w.db.conversationEvents.take w.seen)
      (w.db.conversationEvents.drop w.seen)
    rw [List.take_append_drop] at hsp
    have hun : (w.unseen conversationId).length =
        shown conversationId (w.db.conversationEvents.drop w.seen) := rfl
    simp [h.total c hc hid]
    omega
  · intro ha
    obtain ⟨c, hc, hid⟩ := h.conversation
    obtain ⟨m, hm, hco, hp⟩ := h.member
    refine ⟨_, mem_flatMap.2 ⟨c, mem_filter.2 ⟨hc, ?_⟩, mem_map.2
      ⟨m, mem_filter.2 ⟨hm, ?_⟩, rfl⟩⟩, hid⟩
    · simp [ha c hid]
    · simp [hco, hid, hp, (h.seen m hm hco hp).1]

def bobInGeneral : Db where
  conversations := [⟨"general", "acme", .group, 0⟩]
  conversationMembers := [⟨"general", "bob", 0, 0, none, none⟩]

def aliceMessage (eventId : String) (seq : Int) (metadata : List (String × Json))
    (replyEventId : Option String) : ConversationEventRow where
  conversationId := "general"
  eventId
  eventType := "message"
  senderId := "alice"
  content := some "hello"
  contentType := "text"
  metadata := .ofFields metadata
  clientMsgId := none
  turnId := none
  replyEventId
  seq
  createdAt := seq

theorem unread_counts_timeline_quiet : ∃ w : UnreadWorld,
    ∃ u ∈ w.db.getUnreadCounts [] (fun _ => true) "bob", u.conversationId = "general" ∧
      (w.unseen "general").length = 1 ∧ u.unreadCount = 1 := by
  have hr : ((run (restrict (UnreadWorld.step "general" "bob") UnreadWorld.FlagsReplies)
      { db := bobInGeneral } [.insert (aliceMessage "m1" 1 [] none), .view 1 "general" "bob",
        .insert (aliceMessage "m2" 2 [] none),
        .insert (aliceMessage "m3" 3 [("thread", .bool true)] (some "m2"))]).any fun w =>
      (w.unseen "general").length = 1) := by
    decide +kernel
  obtain ⟨w, hw, hun⟩ := exists_steps_of_run hr
  obtain ⟨ha, hs⟩ := unread_counts_timeline "general" "bob"
    (by decide) (by decide) (by decide) (by decide) (by decide) rfl hw [] fun _ => true
  obtain ⟨u, hu, hid⟩ := hs fun _ _ => rfl
  exact ⟨w, u, hu, hid, hun, by rw [ha u hu hid, hun]; rfl⟩

/-- A message with the thread flag that replies to nothing is shown and not counted. -/
theorem flagged_message_not_counted : ∃ w, Steps (UnreadWorld.step "general" "bob")
    { db := bobInGeneral } w ∧
      (∃ u ∈ w.db.getUnreadCounts [] (fun _ => true) "bob", u.conversationId = "general" ∧
        u.unreadCount = 0) ∧ (w.unseen "general").length = 1 ∧
      (w.db.listTimelineMessages "general" none none).length = 1 := by
  refine exists_run [.insert (aliceMessage "m1" 1 [("thread", .bool true)] none)] ?_
  decide +kernel

/-- What a receipt stores, or is about to, is a maximum over the thread's replies of the past. -/
def Db.Backs (db : Db) (r : ThreadReadReceipt) : Prop :=
  0 ≤ r.lastReadSeq ∧ r.lastReadSeq ≤ db.maxReplySeq r.conversationId r.threadRootId

theorem Db.Backs.append {es : List ConversationEventRow} {r : ThreadReadReceipt} (h : db.Backs r)
    (ha : db'.conversationEvents = db.conversationEvents ++ es) : db'.Backs r := by
  refine ⟨h.1, h.2.trans ?_⟩
  unfold maxReplySeq
  rw [ha, List.filter_append, List.foldl_append]
  exact (le_foldl_seq _ _).1

namespace ReceiptWorld

variable {w w' : ReceiptWorld}

def lastReadSeq (w : ReceiptWorld) (k : String × String × String) : Int :=
  ((w.receipts.lookup k).map (·.lastReadSeq)).getD 0

/-- A threaded reply by someone else that is newer than the receipt. -/
def Newer (w : ReceiptWorld) (userId conversationId root : String) (e : ConversationEventRow) :
    Prop :=
  e.replyEventId = some root ∧ e.conversationId = conversationId ∧ e.senderId ≠ userId
    ∧ e.metadata.flag "thread" ∧ w.lastReadSeq (conversationId, root, userId) < e.seq

def UnreadThread (w : ReceiptWorld) (userId conversationId root : String) : Prop :=
  ∃ e ∈ w.db.conversationEvents, w.Newer userId conversationId root e

/-- `get_unread_counts` counts the unread threads. -/
theorem threadUnreadCount_eq (w : ReceiptWorld) (uid conv : String) :
    ∃ roots : List String, roots.Nodup ∧ (∀ root, root ∈ roots ↔ w.UnreadThread uid conv root)
      ∧ w.db.threadUnreadCount w.receipts.rows uid conv = roots.length := by
  refine ⟨_, List.nodup_dedup _, fun root => ?_, rfl⟩
  simp [UnreadThread, Newer, lastReadSeq, Table.lookup, ThreadReadReceipt.key, Bool.and_assoc]

structure Inv (w : ReceiptWorld) : Prop where
  stored : ∀ r ∈ w.receipts, w.db.Backs r
  pending : ∀ (i : ℕ) c r, w.calls[i]? = some c → c.pending? = some r →
    w.db.Backs r ∧ ∀ s ∈ w.receipts, s.key = r.key → s.lastReadSeq ≤ r.lastReadSeq
  apart : ∀ (i j : ℕ) c d r s, w.calls[i]? = some c → w.calls[j]? = some d →
    c.pending? = some r → d.pending? = some s → r.key = s.key → i = j

/-- Later events, and receipts that have moved forward. -/
structure Forward (w w' : ReceiptWorld) : Prop where
  events : ∃ es, w'.db.conversationEvents = w.db.conversationEvents ++ es
  receipts : ∀ r ∈ w.receipts, ∃ r' ∈ w'.receipts, r'.key = r.key ∧ r.lastReadSeq ≤ r'.lastReadSeq

theorem Forward.of_calls {calls : List ViewCall} : w.Forward { w with calls } :=
  ⟨⟨[], (List.append_nil _).symm⟩, fun r hr => ⟨r, hr, rfl, le_rfl⟩⟩

theorem Inv.set {i : ℕ} {c : ViewCall} (h : w.Inv) (hn : ∀ r, c.pending? = some r →
    w.db.Backs r ∧ (∀ s ∈ w.receipts, s.key = r.key → s.lastReadSeq ≤ r.lastReadSeq)
      ∧ ∀ d ∈ w.calls, ∀ s, d.pending? = some s → s.key ≠ r.key) :
    Inv { w with calls := w.calls.set i c } := by
  refine ⟨h.stored, fun j d r hd hr => ?_, fun j k d e r s hd he hr hs hk => ?_⟩
  · obtain ⟨rfl, rfl⟩ | ⟨-, hd⟩ := getElem?_set_cases hd
    · exact ⟨(hn r hr).1, (hn r hr).2.1⟩
    · exact h.pending j d r hd hr
  · obtain ⟨rfl, rfl⟩ | ⟨-, hd'⟩ := getElem?_set_cases hd <;>
      obtain ⟨rfl, rfl⟩ | ⟨-, he'⟩ := getElem?_set_cases he
    · rfl
    · exact absurd hk.symm ((hn r hr).2.2 e (mem_of_getElem? he') s hs)
    · exact absurd hk ((hn s hs).2.2 d (mem_of_getElem? hd') r hr)
    · exact h.apart j k d e r s hd' he' hr hs hk

theorem Inv.idle {i : ℕ} {c : ViewCall} (h : w.Inv) (hc : c.pending? = none) :
    Inv { w with calls := w.calls.set i c } := h.set fun r hr => by simp [hc] at hr

/-- The receipt of a call that is alone in writing it. -/
theorem Inv.write {i : ℕ} {c c' : ViewCall} {r : ThreadReadReceipt} (h : w.Inv)
    (hi : w.calls[i]? = some c) (hr : c.pending? = some r) (hc' : c'.pending? = none) :
    Inv { w with receipts := w.receipts.put r, calls := w.calls.set i c' } := by
  obtain ⟨hb, hm⟩ := h.pending i c r hi hr
  refine ⟨fun s hs => ?_, fun j d s hd hs => ?_, (h.idle hc').apart⟩
  · obtain rfl | ⟨hs, -⟩ := mem_put hs
    · exact hb
    · exact h.stored s hs
  · obtain ⟨-, rfl⟩ | ⟨hne, hd'⟩ := getElem?_set_cases hd
    · simp [hc'] at hs
    · refine ⟨(h.pending j d s hd' hs).1, fun t ht hk => ?_⟩
      obtain rfl | ⟨ht, -⟩ := mem_put ht
      · exact absurd (h.apart i j c d t s hi hd' hr hs hk).symm hne
      · exact (h.pending j d s hd' hs).2 t ht hk

theorem Inv.step {act : ReceiptAction} (h : w.Inv) (hok : w.viewsAlone act)
    (hse : w.step act = some w') : w'.Inv ∧ w.Forward w' := by
  cases act with
  | insert now e =>
    obtain ⟨⟨_, db⟩, hins, rfl⟩ := map_eq_some_iff.1 hse
    obtain ⟨db, hins, ⟨⟩⟩ := map_eq_some_iff.1 hins
    obtain ⟨-, _, _, _, rfl⟩ := Db.insertEventRow_eq_some _ hins
    refine ⟨⟨fun r hr => (h.stored r hr).append rfl, fun i c r hi hr => ?_, h.apart⟩,
      ⟨_, rfl⟩, fun r hr => ⟨r, hr, rfl, le_rfl⟩⟩
    exact ⟨(h.pending i c r hi hr).1.append rfl, (h.pending i c r hi hr).2⟩
  | begin conversationId threadRootId principalId =>
    cases hse
    refine ⟨⟨h.stored, fun i c r hi hr => ?_, fun i j c d r s hi hj hr hs => ?_⟩, .of_calls⟩
    · obtain hi | rfl := getElem?_snoc_cases hi
      · exact h.pending i c r hi hr
      · cases hr
    · obtain hi | rfl := getElem?_snoc_cases hi
      · obtain hj | rfl := getElem?_snoc_cases hj
        · exact h.apart i j c d r s hi hj hr hs
        · cases hs
      · cases hr
  | canonicalize i =>
    obtain ⟨c, -, hse⟩ := bind_eq_some_iff.1 hse
    split at hse <;> cases hse <;> exact ⟨h.idle rfl, .of_calls⟩
  | snapshot i =>
    obtain ⟨c, hi, hse⟩ := bind_eq_some_iff.1 hse
    split at hse <;> cases hse
    next root hst =>
    simp only [viewsAlone, hi, hst, Option.all_some, List.all_eq_true] at hok
    refine ⟨h.set fun r hr => ?_, .of_calls⟩
    cases hr
    refine ⟨⟨(le_foldl_seq _ _).1, le_rfl⟩, fun s hs hk => ?_, fun d hd s hs => ?_⟩
    · have hm := (h.stored s hs).2
      simp [ThreadReadReceipt.key] at hk
      rwa [hk.1, hk.2.1] at hm
    · have ha := hok d hd
      rw [hs] at ha
      exact of_decide_eq_true ha
  | write i =>
    obtain ⟨c, hi, hse⟩ := bind_eq_some_iff.1 hse
    obtain ⟨r, hr, rfl⟩ := map_eq_some_iff.1 hse
    refine ⟨h.write hi hr rfl, ⟨[], (List.append_nil _).symm⟩, fun s hs => ?_⟩
    by_cases hk : s.key = r.key
    · exact ⟨r, mem_of_lookup (Table.lookup_put_self _ rfl), hk.symm,
        (h.pending i c r hi hr).2 s hs hk⟩
    · refine ⟨s, mem_of_lookup (k := s.key) ?_, rfl, le_rfl⟩
      rw [Table.lookup_put, if_neg hk, lookup_of_mem hs]
  | fail i error =>
    obtain ⟨c, -, rfl⟩ := map_eq_some_iff.1 hse
    exact ⟨h.idle rfl, .of_calls⟩

theorem Forward.trans {v : ReceiptWorld} (h : w.Forward v) (h' : v.Forward w') : w.Forward w' := by
  obtain ⟨es, he⟩ := h.events
  obtain ⟨es', he'⟩ := h'.events
  refine ⟨⟨es ++ es', by rw [he', he, List.append_assoc]⟩, fun r hr => ?_⟩
  obtain ⟨s, hs, hk, hle⟩ := h.receipts r hr
  obtain ⟨t, ht, hk', hle'⟩ := h'.receipts s hs
  exact ⟨t, ht, hk'.trans hk, hle.trans hle'⟩

theorem Forward.lastReadSeq_le (h : w.Forward w') (hi : w'.Inv) (k : String × String × String) :
    w.lastReadSeq k ≤ w'.lastReadSeq k := by
  unfold lastReadSeq
  rcases hk : w.receipts.lookup k with - | r
  · rcases hk' : w'.receipts.lookup k with - | r'
    · rfl
    · exact (hi.stored r' (mem_of_lookup hk')).1
  · obtain ⟨r', hr', hkey, hle⟩ := h.receipts r (mem_of_lookup hk)
    rw [← (key_of_lookup hk : r.key = k), ← hkey, lookup_of_mem hr']
    exact hle

/-- Where no statement takes its snapshot while another is about to write the same receipt, no
receipt moves back, and a thread that is read stays read until someone else sends a newer reply. -/
theorem thread_receipts_forward (h : Steps (restrict step fun w action => w.viewsAlone action) {} w)
    (h' : Steps (restrict step fun w action => w.viewsAlone action) w w') :
    (∀ r ∈ w.receipts, ∃ r' ∈ w'.receipts, r'.key = r.key ∧ r.lastReadSeq ≤ r'.lastReadSeq)
      ∧ ∀ userId conversationId, (∃ roots : List String, roots.Nodup
          ∧ (∀ root, root ∈ roots ↔ w'.UnreadThread userId conversationId root)
          ∧ w'.db.threadUnreadCount w'.receipts.rows userId conversationId = roots.length)
        ∧ ∀ root, w'.UnreadThread userId conversationId root →
          w.UnreadThread userId conversationId root ∨ ∃ e ∈ w'.db.conversationEvents,
            e ∉ w.db.conversationEvents ∧ w.Newer userId conversationId root e := by
  have hi : w.Inv := by
    refine h.keeps (fun hv hok hs => (hv.step hok hs).1) ⟨?_, ?_, ?_⟩
    · exact fun r hr => absurd hr (not_mem_empty r)
    all_goals simp
  obtain ⟨hi', hfwd⟩ : w'.Inv ∧ w.Forward w' := by
    refine h'.keeps (I := fun v => v.Inv ∧ w.Forward v) (fun hv hok hs => ?_) ⟨hi, .of_calls⟩
    exact ⟨(hv.1.step hok hs).1, hv.2.trans (hv.1.step hok hs).2⟩
  refine ⟨hfwd.receipts, fun u c => ⟨w'.threadUnreadCount_eq u c, ?_⟩⟩
  rintro root ⟨e, he, ht, hin, hb, hf, hseq⟩
  have hn : w.Newer u c root e := ⟨ht, hin, hb, hf, (hfwd.lastReadSeq_le hi' _).trans_lt hseq⟩
  by_cases ho : e ∈ w.db.conversationEvents
  · exact .inl ⟨e, ho, hn⟩
  · exact .inr ⟨e, he, ho, hn⟩

def replyEvent (eventId : String) (replyEventId : Option String) : ConversationEvent :=
  (aliceMessage eventId 0 [("thread", .bool replyEventId.isSome)] replyEventId).toConversationEvent

/-- Bob views a thread with one reply of two. -/
def halfRead : List ReceiptAction :=
  [.insert 1 (replyEvent "r" none), .insert 2 (replyEvent "x" "r"), .begin "general" "r" "bob",
    .canonicalize 0, .snapshot 0, .insert 3 (replyEvent "y" "r"), .begin "general" "x" "bob",
    .canonicalize 1]

theorem thread_receipts_forward_bob : ∃ w w',
    Steps (restrict step fun w action => w.viewsAlone action) {} w
      ∧ Steps (restrict step fun w action => w.viewsAlone action) w w'
      ∧ w.lastReadSeq ("general", "r", "bob") = 2 ∧ w'.lastReadSeq ("general", "r", "bob") = 3
      ∧ ∀ r ∈ w.receipts, ∃ r' ∈ w'.receipts, r'.key = r.key ∧ r.lastReadSeq ≤ r'.lastReadSeq := by
  have hr : (run (restrict step fun w action => w.viewsAlone action) {}
      (halfRead ++ [.write 0])).any fun w => w.lastReadSeq ("general", "r", "bob") = 2
        ∧ (run (restrict step fun w action => w.viewsAlone action) w [.snapshot 1, .write 1]).any
          fun w' => w'.lastReadSeq ("general", "r", "bob") = 3 := by
    decide +kernel
  obtain ⟨w, hw, ho, hm⟩ := exists_steps_of_run hr
  obtain ⟨w', hw', hn⟩ := exists_steps_of_run hm
  exact ⟨w, w', hw, hw', ho, hn, (thread_receipts_forward hw hw').1⟩

/-- Two calls overlap and the one with the older snapshot writes last: a read thread is unread
again, without a new reply. -/
theorem thread_receipt_moves_back : ∃ w w', Steps step {} w ∧ Steps step w w'
    ∧ w.lastReadSeq ("general", "r", "bob") = 3 ∧ w'.lastReadSeq ("general", "r", "bob") = 2
    ∧ w.db.threadUnreadCount w.receipts.rows "bob" "general" = 0
    ∧ w'.db.threadUnreadCount w'.receipts.rows "bob" "general" = 1
    ∧ w'.db.conversationEvents = w.db.conversationEvents := by
  have hrun : (run step {} (halfRead ++ [.snapshot 1, .write 1])).any fun w =>
      w.lastReadSeq ("general", "r", "bob") = 3
        ∧ w.db.threadUnreadCount w.receipts.rows "bob" "general" = 0
        ∧ (run step w [.write 0]).any fun w' => w'.lastReadSeq ("general", "r", "bob") = 2
          ∧ w'.db.threadUnreadCount w'.receipts.rows "bob" "general" = 1
          ∧ w'.db.conversationEvents = w.db.conversationEvents := by
    decide +kernel
  obtain ⟨w, hw, ho, hr, hm⟩ := exists_steps_of_run hrun
  obtain ⟨w', hw', hn, hu, hs⟩ := exists_steps_of_run hm
  exact ⟨w, w', hw, hw', ho, hn, hr, hu, hs⟩

end ReceiptWorld

end Choruz
