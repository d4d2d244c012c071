import Choruz.OnlineGroups
import Choruz.Pipeline

/-!
# What a guest has of a shared history

A batch has every message of the group from the cursor it was queued at to its last one, whatever is
published later.  Batches travel unchanged, so a guest that has the history up to a batch's cursor has
it up to the batch's end once it has stored it.
-/

namespace Choruz

open Relational OnlineSide

namespace GroupLog

variable {m : GroupMessage}

theorem mem_def {log : GroupLog} : m ∈ log ↔ m ∈ log.rows := Iff.rfl

variable {log log' : GroupLog}

theorem append?_cases (h : log.append? m = some log') :
    (∀ a ∈ log, a.seq < m.seq) ∧ 0 < m.seq ∧ ∀ a, a ∈ log' ↔ a ∈ log ∨ a = m := by
  unfold append? at h
  split_ifs at h with hn
  cases h
  refine ⟨hn.1, hn.2.1, fun a => ?_⟩
  rw [mem_def, mem_def, mem_append, mem_singleton]

end GroupLog

theorem mem_take_of_le {α : Type} {f : α → ℕ} : ∀ {l : List α} {n : ℕ} {a b : α},
    (l.Pairwise fun x y => f x < f y) → b ∈ l.take n → a ∈ l → f a ≤ f b → a ∈ l.take n
  | [], _, _, _, _, _, ha, _ => absurd ha not_mem_nil
  | x :: l, 0, _, _, _, hb, _, _ => absurd hb not_mem_nil
  | x :: l, n + 1, a, b, hl, hb, ha, hle => by
    rw [List.pairwise_cons] at hl
    rw [List.take_succ_cons, mem_cons] at hb ⊢
    rcases mem_cons.1 ha with rfl | ht
    · exact .inl rfl
    rcases hb with rfl | hb
    · exact absurd (hl.1 a ht) (not_lt.2 hle)
    · exact .inr (mem_take_of_le hl.2 hb ht hle)

variable {prims : OnlinePrims} {view : SenderView} {x : Shipment} {s : OnlineSide}

def OnlinePrims.shared (prims : OnlinePrims) (view : SenderView) (m : GroupMessage) :
    OnlineSharedMessage := prims.bounded (view.share m)

theorem OnlinePrims.shared_spec (prims : OnlinePrims) (view : SenderView) (m : GroupMessage) :
    (prims.shared view m).id = m.id ∧ (prims.shared view m).seq = m.seq := by
  unfold shared bounded
  split_ifs <;> exact ⟨rfl, rfl⟩

theorem OnlinePrims.fill_eq (prims : OnlinePrims) (view : SenderView) :
    ∀ (page : List GroupMessage) (bytes : ℕ) (msgs : List OnlineSharedMessage),
    ∃ n, prims.fill view page bytes msgs = msgs ++ (page.take n).map (prims.shared view)
  | [], _, msgs => ⟨0, (append_nil msgs).symm⟩
  | m :: page, bytes, msgs => by
    rw [fill]
    split_ifs
    · exact ⟨0, (append_nil msgs).symm⟩
    obtain ⟨n, hn⟩ := fill_eq prims view page (bytes + prims.jsonLength (prims.bounded (view.share m)))
      (msgs ++ [prims.bounded (view.share m)])
    refine ⟨n + 1, hn.trans ?_⟩
    rw [append_assoc]
    rfl

/-- A batch has everything from its cursor to its last message. -/
structure Covers (log : GroupLog) (d : HistoryDraft) : Prop where
  source : ∀ x ∈ d.messages, ∃ m ∈ log, m.id = x.id ∧ m.seq = x.seq
  complete : ∀ m ∈ log, d.after < m.seq → (∃ x ∈ d.messages, m.seq ≤ x.seq) →
    ∃ x ∈ d.messages, x.id = m.id ∧ x.seq = m.seq

theorem covers_fill (log : GroupLog) (after : ℕ) :
    Covers log ⟨after, prims.fill view (log.listMessagePage after) 0 []⟩ := by
  obtain ⟨n, hn⟩ := prims.fill_eq view (log.listMessagePage after) 0 []
  rw [hn, GroupLog.listMessagePage, List.take_take]
  have hs : (log.rows.filter fun m => after < m.seq).Pairwise fun a b => a.seq < b.seq :=
    log.sorted.filter _
  refine ⟨fun x hx => ?_, fun m hm hlt ⟨x, hx, hle⟩ => ?_⟩
  · obtain ⟨m, hm, rfl⟩ := mem_map.1 hx
    have hid := prims.shared_spec view m
    exact ⟨m, mem_of_mem_filter (List.mem_of_mem_take hm), hid.1.symm, hid.2.symm⟩
  · obtain ⟨b, hb, rfl⟩ := mem_map.1 hx
    rw [(prims.shared_spec view b).2] at hle
    have hmem : m ∈ log.rows.filter fun m => after < m.seq := mem_filter.2 ⟨hm, decide_eq_true hlt⟩
    exact ⟨prims.shared view m, mem_map_of_mem (mem_take_of_le hs hb hmem hle),
      prims.shared_spec view m⟩

theorem Covers.append {d : HistoryDraft}
    (h : Covers log d) (happ : log.append? m = some log') : Covers log' d := by
  obtain ⟨hl, -, hm⟩ := GroupLog.append?_cases happ
  refine ⟨fun x hx => ?_, fun a ha hlt hle => ?_⟩
  · obtain ⟨a, ha, hid⟩ := h.source x hx
    exact ⟨a, (hm a).2 (.inl ha), hid⟩
  · rcases (hm a).1 ha with ha | rfl
    · exact h.complete a ha hlt hle
    · obtain ⟨x, hx, hle⟩ := hle
      obtain ⟨b, hb, -, hs⟩ := h.source x hx
      exact absurd (hl b hb) (by omega)

namespace OnlineSide

def shipments (s : OnlineSide) : List Shipment :=
  s.outbox ++ s.inbox.map (·.toShipment) ++ s.mailbox.map (·.toShipment)

theorem mem_shipments : x ∈ s.shipments ↔ x ∈ s.outbox ∨ (∃ row ∈ s.inbox, row.toShipment = x)
      ∨ ∃ item ∈ s.mailbox, item.toShipment = x := by
  simp [shipments]

end OnlineSide

def Known (batches : List QueuedBatch) (x : Shipment) : Prop :=
  ∀ messages, x.body = .batch messages → ∃ b ∈ batches, b.id = x.id ∧ b.messages = messages

namespace OnlineWorld

variable {w w' : OnlineWorld} {role : OnlineRole} {present : Bool} {groupName : String}
  {b : QueuedBatch}

theorem side_setSide (w : OnlineWorld) (role r : OnlineRole) (s : OnlineSide) :
    (w.setSide role s).side r = if r = role then s else w.side r := by
  cases role <;> cases r <;> rfl

theorem setSide_frame (w : OnlineWorld) (role : OnlineRole) (s : OnlineSide) :
    (w.setSide role s).log = w.log ∧ (w.setSide role s).messages = w.messages
      ∧ (w.setSide role s).drafts = w.drafts ∧ (w.setSide role s).batches = w.batches
      ∧ (w.setSide role s).lastSeq = w.lastSeq := by
  cases role <;> exact ⟨rfl, rfl, rfl, rfl, rfl⟩

/-- What holds of batches and of the guest's messages in any run. -/
structure BatchInv (w : OnlineWorld) : Prop where
  drafts : ∀ d ∈ w.drafts, Covers w.log d
  batches : ∀ b ∈ w.batches, Covers w.log b.toHistoryDraft
  known : ∀ role, ∀ x ∈ (w.side role).shipments, Known w.batches x
  held : ∀ x ∈ w.messages, ∃ m ∈ w.log, m.id = x.id ∧ m.seq = x.seq

theorem BatchInv.setSide (h : BatchInv w)
    (hs : ∀ x ∈ s.shipments, Known w.batches x) : BatchInv (w.setSide role s) := by
  obtain ⟨hl, hm, hd, hb, -⟩ := setSide_frame w role s
  refine ⟨?_, ?_, fun r x hx => ?_, ?_⟩
  · rw [hl, hd]
    exact h.drafts
  · rw [hl, hb]
    exact h.batches
  · rw [hb]
    rw [side_setSide] at hx
    split_ifs at hx
    · exact hs x hx
    · exact h.known r x hx
  · rw [hl, hm]
    exact h.held

theorem BatchInv.shrink (h : BatchInv w)
    (hs : ∀ x ∈ s.shipments, x ∈ (w.side role).shipments) : BatchInv (w.setSide role s) :=
  h.setSide fun x hx => h.known role x (hs x hx)

theorem known_of_not_batch {batches : List QueuedBatch}
    (h : ∀ msgs, x.body ≠ .batch msgs) : Known batches x := fun msgs hb => absurd hb (h msgs)

section

variable (h : BatchInv w)
include h

theorem BatchInv.enqueue (role : OnlineRole) (hx : Known w.batches x) :
    BatchInv (w.enqueue role x) := by
  refine h.setSide fun y hy => ?_
  rw [mem_shipments, mem_append, mem_singleton] at hy
  rcases hy with (hy | rfl) | hy
  · exact h.known role y (mem_shipments.2 (.inl hy))
  · exact hx
  · exact h.known role y (mem_shipments.2 (.inr hy))

theorem BatchInv.publish {log : GroupLog}
    (happ : w.log.append? m = some log) : BatchInv { w with log } := by
  obtain ⟨-, -, hm⟩ := GroupLog.append?_cases happ
  refine ⟨fun d hd => (h.drafts d hd).append happ, fun b hb => (h.batches b hb).append happ,
    h.known, fun x hx => ?_⟩
  obtain ⟨a, ha, hid⟩ := h.held x hx
  exact ⟨a, (hm a).2 (.inl ha), hid⟩

theorem BatchInv.revoke : BatchInv (w.revokeOnlineGroup role) := by
  refine h.shrink fun x hx => ?_
  rw [mem_shipments] at hx ⊢
  rcases hx with hx | ⟨row, hr, rfl⟩ | hx
  · cases hx
  · obtain ⟨old, ho, rfl⟩ := mem_map.1 hr
    exact .inr (.inl ⟨old, ho, rfl⟩)
  · exact .inr (.inr hx)

theorem BatchInv.readHistory {prims : OnlinePrims} {view : SenderView}
    : BatchInv (w.readOnlineHistory prims view present) := by
  unfold readOnlineHistory
  dsimp only
  split_ifs
  · exact h
  · exact h.revoke
  · exact h
  · exact ⟨forall_mem_snoc h.drafts (covers_fill w.log w.lastSeq), h.batches, h.known, h.held⟩

theorem BatchInv.queued (hb : Covers w.log b.toHistoryDraft) {lastSeq : ℕ} :
    BatchInv { w with lastSeq, batches := w.batches ++ [b] } := by
  refine ⟨h.drafts, forall_mem_snoc h.batches hb, fun r x hx msgs hbo => ?_, h.held⟩
  obtain ⟨a, ha, hid⟩ := h.known r x hx msgs hbo
  exact ⟨a, mem_append_left _ ha, hid⟩

theorem BatchInv.queueHistory {draft : HistoryDraft} (hd : draft ∈ w.drafts)
    {id : String} : BatchInv (w.queueOnlineHistory draft id) := by
  unfold queueOnlineHistory
  split
  · exact h
  rename_i last hl
  split_ifs
  · have hb : BatchInv { w with lastSeq := last.seq, batches := w.batches ++ [⟨draft, id⟩] } :=
      h.queued (h.drafts draft hd)
    have hk : Known (w.batches ++ [⟨draft, id⟩]) ⟨id, .batch draft.messages⟩ := by
      intro messages hbo
      cases hbo
      exact ⟨⟨draft, id⟩, mem_append_right _ (mem_singleton.2 rfl), rfl, rfl⟩
    have hq := hb.enqueue .host hk
    exact hq
  · exact h

theorem BatchInv.deliver (hx : x ∈ (w.side role).outbox) : BatchInv (w.deliver role x) := by
  have ha : ∀ {w : OnlineWorld}, BatchInv w → BatchInv (w.setSide role
      { w.side role with accepted := (w.side role).accepted ++ [x.id] }) :=
    fun h => h.shrink fun _ hy => hy
  unfold OnlineWorld.deliver
  dsimp only
  split_ifs
  · exact ha h
  · exact h
  · refine ha (h.setSide fun y hy => ?_)
    rw [mem_shipments] at hy
    rcases hy with hy | hy | ⟨item, hi, rfl⟩
    · exact h.known role.other y (mem_shipments.2 (.inl hy))
    · exact h.known role.other y (mem_shipments.2 (.inr (.inl hy)))
    · rcases mem_snoc.1 hi with hi | rfl
      · exact h.known role.other _ (mem_shipments.2 (.inr (.inr ⟨item, hi, rfl⟩)))
      · exact h.known role x (mem_shipments.2 (.inl hx))

theorem BatchInv.accepted {id : String} : BatchInv (w.onlineAccepted role id) := by
  refine h.shrink fun x hx => ?_
  rw [mem_shipments] at hx ⊢
  exact hx.imp_left mem_of_mem_filter

theorem BatchInv.receive {item : MailboxItem} (hi : item ∈ (w.side role).mailbox) :
    BatchInv (w.receiveOnline role item.toShipment) := by
  unfold receiveOnline
  dsimp only
  split_ifs
  · exact h
  refine h.shrink fun x hx => ?_
  rw [mem_shipments] at hx ⊢
  rcases hx with hx | ⟨row, hr, rfl⟩ | hx
  · exact .inl hx
  · rcases mem_snoc.1 hr with hr | rfl
    · exact .inr (.inl ⟨row, hr, rfl⟩)
    · exact .inr (.inr ⟨item, hi, rfl⟩)
  · exact .inr (.inr hx)

theorem BatchInv.acknowledge {id : String} : BatchInv (w.acknowledge role id) := by
  refine h.shrink fun x hx => ?_
  rw [mem_shipments] at hx ⊢
  refine hx.imp_right fun hx => hx.imp_right ?_
  rintro ⟨item, hi, rfl⟩
  exact ⟨item, mem_of_mem_filter hi, rfl⟩

theorem BatchInv.processed {id : String} : BatchInv (w.onlineProcessed role id) := by
  refine h.shrink fun x hx => ?_
  rw [mem_shipments] at hx ⊢
  rcases hx with hx | ⟨row, hr, rfl⟩ | hx
  · exact .inl hx
  · obtain ⟨old, ho, rfl⟩ := mem_map.1 hr
    refine .inr (.inl ⟨old, ho, ?_⟩)
    split_ifs <;> rfl
  · exact .inr (.inr hx)

theorem BatchInv.emptied (role : OnlineRole) :
    BatchInv (w.setSide role { w.side role with mailbox := [] }) := by
  refine h.shrink fun x hx => ?_
  rw [mem_shipments] at hx ⊢
  refine hx.imp_right fun hx => hx.imp_right ?_
  rintro ⟨item, hi, -⟩
  cases hi

theorem BatchInv.unlink : BatchInv w.unlink := (h.emptied .host).emptied .guest

end

theorem storeMessage_eq_ok {t u : Table fun m : OnlineSharedMessage => m.id}
    {m : OnlineSharedMessage} (h : storeMessage t m = .ok u) :
    (∀ x ∈ u, x ∈ t ∨ x = m) ∧ (∀ x ∈ t, x ∈ u) ∧ ∃ y ∈ u, y.id = m.id := by
  unfold storeMessage at h
  by_cases hval : (!m.valid)
  · rw [if_pos hval] at h
    cases h
  rw [if_neg hval] at h
  rcases hi : t.insert? m with _ | v <;> rw [hi] at h <;> dsimp only at h
  · cases h
    have ht : t.lookup m.id ≠ none := fun hn => by
      obtain ⟨v, hv⟩ := Table.exists_insert? hn
      cases hv.symm.trans hi
    obtain ⟨y, hy⟩ := Option.ne_none_iff_exists'.1 ht
    exact ⟨fun x hx => .inl hx, fun x hx => hx, y, mem_of_lookup hy, key_of_lookup hy⟩
  · split_ifs at h
    cases h
    have hm : ∀ {x}, x ∈ u ↔ x ∈ t ∨ x = m := mem_insert? hi
    exact ⟨fun x hx => hm.1 hx, fun x hx => hm.2 (.inl hx), m, hm.2 (.inr rfl), rfl⟩

theorem mem_foldlM_storeMessage : ∀ {msgs : List OnlineSharedMessage}
    {t u : Table fun m : OnlineSharedMessage => m.id}, msgs.foldlM storeMessage t = .ok u →
    (∀ x ∈ u, x ∈ t ∨ x ∈ msgs) ∧ (∀ x ∈ t, x ∈ u) ∧ ∀ x ∈ msgs, ∃ y ∈ u, y.id = x.id
  | [], t, u, h => by
    cases h
    exact ⟨fun x hx => .inl hx, fun x hx => hx, nofun⟩
  | m :: msgs, t, u, h => by
    obtain ⟨v, hv, h⟩ := bind_eq_ok.1 h
    obtain ⟨hb, hf, ha⟩ := mem_foldlM_storeMessage h
    have ho := storeMessage_eq_ok hv
    refine ⟨fun x hx => ?_, fun x hx => hf x (ho.2.1 x hx), fun x hx => ?_⟩
    · rcases hb x hx with hx | hx
      · rcases ho.1 x hx with hx | rfl
        · exact .inl hx
        · exact .inr mem_cons_self
      · exact .inr (mem_cons_of_mem _ hx)
    · rcases mem_cons.1 hx with rfl | hx
      · obtain ⟨y, hy, hid⟩ := ho.2.2
        exact ⟨y, hf y hy, hid⟩
      · exact ha x hx

/-- What a handled delivery does to the link: a batch is stored, or the messages are left alone. -/
theorem handle_cases {body : OnlineBody} {id : String}
    (h : w.handle role body groupName present id = .ok w') :
    (∃ messages u, role = .guest ∧ body = .batch messages
        ∧ messages.foldlM storeMessage w.messages = .ok u ∧ w' = { w with messages := u })
      ∨ w' = w ∨ (∃ after, w' = { w with lastSeq := min w.lastSeq after })
      ∨ (∃ name, w' = { w with host := { w.host with status := .active } }.enqueue .host
          ⟨id, .welcome name⟩) ∨ w' = { w with guest := { w.guest with status := .active } } := by
  unfold handle at h
  split at h
  · unfold activateOnlineGuest at h
    split_ifs at h <;> cases h
    · exact .inr (.inl rfl)
    · exact .inr (.inr (.inr (.inl ⟨groupName, rfl⟩)))
  · unfold rewindOnlineHistory at h
    split_ifs at h
    cases h
    exact .inr (.inr (.inl ⟨_, rfl⟩))
  · simp [saveOnlineBatch] at h
    split_ifs at h
    cases h
    exact .inr (.inr (.inr (.inr rfl)))
  · simp [saveOnlineBatch] at h
    split_ifs at h
    obtain ⟨u, hu, h⟩ := bind_eq_ok.1 h
    cases h
    exact .inl ⟨_, u, rfl, rfl, hu, rfl⟩
  · cases h
    exact .inr (.inl rfl)
  · cases h

theorem BatchInv.handle (h : BatchInv w) (hx : x ∈ (w.side role).shipments) {id : String}
    (hh : w.handle role x.body groupName present id = .ok w') : BatchInv w' := by
  have hs : ∀ role, BatchInv (w.setSide role { w.side role with status := .active }) :=
    fun role => h.shrink fun _ hy => hy
  rcases handle_cases hh with ⟨messages, u, -, hbo, hu, rfl⟩ | rfl | ⟨after, rfl⟩ |
    ⟨name, rfl⟩ | rfl
  · obtain ⟨b, hb, -, hm⟩ := h.known role x hx messages hbo
    refine ⟨h.drafts, h.batches, h.known, fun y hy => ?_⟩
    rcases (mem_foldlM_storeMessage hu).1 y hy with hy | hy
    · exact h.held y hy
    · rw [← hm] at hy
      exact (h.batches b hb).source y hy
  · exact h
  · exact ⟨h.drafts, h.batches, h.known, h.held⟩
  · exact (hs .host).enqueue .host (known_of_not_batch nofun)
  · exact hs .guest

theorem processOnline_cases (w : OnlineWorld) (role : OnlineRole) (row : OnlineInboxRow)
    (grp : String) (present marked : Bool) (id : String) :
    ∃ v, (v = w ∨ w.handle role row.body grp present id = .ok v)
      ∧ (w.processOnline role row grp present marked id = v
        ∨ w.processOnline role row grp present marked id = v.onlineProcessed role row.id) := by
  unfold processOnline
  rcases hr : w.handle role row.body grp present id with (_ | _) | v <;> dsimp only
  · refine ⟨w, .inl rfl, ?_⟩
    split_ifs
    · exact .inr rfl
    · exact .inl rfl
  · exact ⟨w, .inl rfl, .inl rfl⟩
  · refine ⟨v, .inr rfl, ?_⟩
    split_ifs
    · exact .inr rfl
    · exact .inl rfl

variable {prims : OnlinePrims} {a : OnlineAction} {n : ℕ}

theorem BatchInv.preserved (h : BatchInv w) (hs : step prims w a = some w') : BatchInv w' := by
  cases a with
  | publish message =>
    obtain ⟨log, ha, rfl⟩ := map_eq_some_iff.1 hs
    exact h.publish ha
  | readHistory view present =>
    cases hs
    exact h.readHistory
  | queueHistory i id =>
    obtain ⟨draft, hd, hs⟩ := bind_eq_some_iff.1 hs
    split_ifs at hs
    cases hs
    exact h.queueHistory (mem_of_getElem? hd)
  | resync id =>
    simp only [step] at hs
    split_ifs at hs
    cases hs
    unfold queueOnlineResync
    split_ifs
    · exact h
    · exact h.enqueue .guest (known_of_not_batch nofun)
  | queueOther role kind id =>
    simp only [step] at hs
    split_ifs at hs
    cases hs
    exact h.enqueue role (known_of_not_batch nofun)
  | send role i =>
    obtain ⟨x, hx, rfl⟩ := map_eq_some_iff.1 hs
    exact h.deliver (mem_of_getElem? hx)
  | accepted role i =>
    obtain ⟨id, -, rfl⟩ := map_eq_some_iff.1 hs
    exact h.accepted
  | receive role i =>
    obtain ⟨item, hi, rfl⟩ := map_eq_some_iff.1 hs
    exact h.receive (mem_of_getElem? hi)
  | acknowledge role i =>
    obtain ⟨row, -, rfl⟩ := map_eq_some_iff.1 hs
    exact h.acknowledge
  | process role i groupName present marked id =>
    obtain ⟨row, hrow, hs⟩ := bind_eq_some_iff.1 hs
    split_ifs at hs
    cases hs
    have hm : row.toShipment ∈ (w.side role).shipments :=
      mem_shipments.2 (.inr (.inl ⟨row, mem_of_getElem? hrow, rfl⟩))
    obtain ⟨v, hv, hr⟩ := processOnline_cases w role row groupName present marked id
    have hinv : BatchInv v := by
      rcases hv with rfl | hv
      · exact h
      · exact h.handle hm hv
    rcases hr with hr | hr <;> rw [hr]
    · exact hinv
    · exact hinv.processed
  | expire role i =>
    obtain ⟨item, -, hs⟩ := bind_eq_some_iff.1 hs
    split_ifs at hs
    cases hs
    exact h.acknowledge
  | revoke role =>
    cases hs
    exact h.revoke
  | unlink =>
    cases hs
    exact h.unlink
  | pass time =>
    cases hs
    exact ⟨h.drafts, h.batches, h.known, h.held⟩

def SameHistory (w w' : OnlineWorld) : Prop := w'.log = w.log ∧ w'.messages = w.messages

theorem SameHistory.trans {v : OnlineWorld} (h : SameHistory w v) (h' : SameHistory v w') :
    SameHistory w w' := ⟨h'.1.trans h.1, h'.2.trans h.2⟩

theorem sameHistory_setSide (w : OnlineWorld) (role : OnlineRole) (s : OnlineSide) :
    SameHistory w (w.setSide role s) := ⟨(setSide_frame w role s).1, (setSide_frame w role s).2.1⟩

theorem sameHistory_deliver (w : OnlineWorld) (role : OnlineRole) (x : Shipment) :
    SameHistory w (w.deliver role x) := by
  unfold OnlineWorld.deliver
  dsimp only
  split_ifs
  · exact sameHistory_setSide w role _
  · exact ⟨rfl, rfl⟩
  · exact (sameHistory_setSide w role.other _).trans (sameHistory_setSide _ role _)

structure Stores (w w' : OnlineWorld) (a : OnlineAction) (row : OnlineInboxRow)
    (messages : List OnlineSharedMessage) : Prop where
  action : ∃ i groupName present marked id,
    a = .process .guest i groupName present marked id ∧ w.guest.inbox[i]? = some row
  body : row.body = .batch messages
  stored : messages.foldlM storeMessage w.messages = .ok w'.messages
  log : w'.log = w.log

/-- Every step leaves both histories alone, publishes one message or stores one batch. -/
theorem history_cases (hs : step prims w a = some w') : SameHistory w w'
      ∨ (∃ m, w.log.append? m = some w'.log ∧ w'.messages = w.messages)
      ∨ ∃ row messages, Stores w w' a row messages := by
  cases a with simp only [step] at hs
  | publish message =>
    obtain ⟨log, ha, rfl⟩ := map_eq_some_iff.1 hs
    exact .inr (.inl ⟨message, ha, rfl⟩)
  | readHistory view present =>
    cases hs
    left
    unfold readOnlineHistory
    dsimp only
    split_ifs <;> exact ⟨rfl, rfl⟩
  | queueHistory i id =>
    obtain ⟨draft, -, hs⟩ := bind_eq_some_iff.1 hs
    split_ifs at hs
    cases hs
    left
    unfold queueOnlineHistory
    split
    · exact ⟨rfl, rfl⟩
    · split_ifs <;> exact ⟨rfl, rfl⟩
  | resync id =>
    split_ifs at hs
    cases hs
    left
    unfold queueOnlineResync
    split_ifs <;> exact ⟨rfl, rfl⟩
  | queueOther role kind id =>
    split_ifs at hs
    cases hs
    exact .inl (sameHistory_setSide w role _)
  | send role i =>
    obtain ⟨x, -, rfl⟩ := map_eq_some_iff.1 hs
    exact .inl (sameHistory_deliver w role x)
  | accepted role i | acknowledge role i =>
    obtain ⟨x, -, rfl⟩ := map_eq_some_iff.1 hs
    exact .inl (sameHistory_setSide w role _)
  | receive role i =>
    obtain ⟨item, -, rfl⟩ := map_eq_some_iff.1 hs
    left
    unfold receiveOnline
    dsimp only
    split_ifs
    · exact ⟨rfl, rfl⟩
    · exact sameHistory_setSide w role _
  | process role i groupName present marked id =>
    obtain ⟨row, hrow, hs⟩ := bind_eq_some_iff.1 hs
    split_ifs at hs
    cases hs
    obtain ⟨v, hv, hr⟩ := processOnline_cases w role row groupName present marked id
    have hm : SameHistory v (w.processOnline role row groupName present marked id) := by
      rcases hr with hr | hr <;> rw [hr]
      · exact ⟨rfl, rfl⟩
      · exact sameHistory_setSide v role _
    rcases hv with rfl | hv
    · exact .inl hm
    rcases handle_cases hv with ⟨messages, u, rfl, hb, hu, rfl⟩ | rfl | ⟨after, rfl⟩ |
      ⟨name, rfl⟩ | rfl
    · refine .inr (.inr ⟨row, messages, ⟨i, groupName, present, marked, id, rfl, hrow⟩, hb, ?_,
        hm.1⟩)
      rw [hm.2]
      exact hu
    all_goals exact .inl hm
  | expire role i =>
    obtain ⟨item, -, hs⟩ := bind_eq_some_iff.1 hs
    split_ifs at hs
    cases hs
    exact .inl (sameHistory_setSide w role _)
  | revoke role =>
    cases hs
    exact .inl (sameHistory_setSide w role _)
  | unlink | pass time =>
    cases hs
    exact .inl ⟨rfl, rfl⟩

theorem le_foldr_max_iff (hn : 0 < n) : ∀ {l : List ℕ}, n ≤ l.foldr max 0 ↔ ∃ a ∈ l, n ≤ a
  | [] => by simp [Nat.ne_of_gt hn]
  | a :: l => by simp [le_foldr_max_iff hn]

theorem le_maxSeq_iff (hn : 0 < n) : n ≤ w.maxSeq ↔ ∃ x ∈ w.messages, n ≤ x.seq := by
  rw [maxSeq, le_foldr_max_iff hn]
  simp [mem_def]

/-- The guest has every message of the group up to the last one it has. -/
def Closed (w : OnlineWorld) : Prop :=
  ∀ m ∈ w.log, m.seq ≤ w.maxSeq → ∃ x ∈ w.messages, x.id = m.id ∧ x.seq = m.seq

theorem Closed.publish (hc : Closed w) (hi : BatchInv w)
    (happ : w.log.append? m = some w'.log) (hms : w'.messages = w.messages) :
    Closed w' := by
  obtain ⟨hl, hp, hm⟩ := GroupLog.append?_cases happ
  have hmax : w'.maxSeq = w.maxSeq := by
    rw [maxSeq, hms]
    rfl
  intro a ha hle
  rw [hmax] at hle
  rw [hms]
  rcases (hm a).1 ha with ha | rfl
  · exact hc a ha hle
  obtain ⟨x, hx, hle⟩ := (le_maxSeq_iff hp).1 hle
  obtain ⟨b, hb, -, hs⟩ := hi.held x hx
  exact absurd (hl b hb) (by omega)

theorem Closed.store (hcls : Closed w) (hi : BatchInv w) {row : OnlineInboxRow}
    {msgs : List OnlineSharedMessage} (hs : Stores w w' a row msgs)
    (hb : b ∈ w.batches) (hms : b.messages = msgs) (haft : b.after ≤ w.maxSeq) : Closed w' := by
  obtain ⟨hba, hf, ha⟩ := mem_foldlM_storeMessage hs.stored
  have hc := hi.batches b hb
  rw [← hms] at hba ha
  intro m hm hle
  rw [hs.log] at hm
  by_cases ho : m.seq ≤ w.maxSeq
  · obtain ⟨x, hx, hid⟩ := hcls m hm ho
    exact ⟨x, hf x hx, hid⟩
  · have hp : 0 < m.seq := by omega
    obtain ⟨x, hx, hle⟩ := (le_maxSeq_iff hp).1 hle
    have hbt : ∃ x ∈ b.messages, m.seq ≤ x.seq := by
      rcases hba x hx with hx | hx
      · exact absurd ((le_maxSeq_iff hp).2 ⟨x, hx, hle⟩) ho
      · exact ⟨x, hx, hle⟩
    obtain ⟨y, hy, hid, -⟩ := hc.complete m hm (by omega) hbt
    obtain ⟨z, hz, hzid⟩ := ha y hy
    obtain ⟨m', hm', hid', hs'⟩ : ∃ m' ∈ w.log, m'.id = z.id ∧ m'.seq = z.seq := by
      rcases hba z hz with hz | hz
      · exact hi.held z hz
      · exact hc.source z hz
    obtain rfl := inj_on_of_nodup_map w.log.nodup hm' hm (hid'.trans (hzid.trans hid))
    exact ⟨z, hz, hid'.symm, hs'.symm⟩

/-- The batch that the guest stores was queued from a cursor that it has reached. -/
def follows (w : OnlineWorld) : OnlineAction → Bool
  | .process .guest i _ _ _ _ => w.guest.inbox[i]?.all fun row =>
    w.batches.all fun b => b.id ≠ row.id || b.after ≤ w.maxSeq
  | _ => true

theorem Closed.preserved (hc : Closed w) (hi : BatchInv w) (hf : w.follows a)
    (hs : step prims w a = some w') : Closed w' := by
  rcases history_cases hs with hsa | ⟨m, ha, hms⟩ | ⟨row, messages, hst⟩
  · unfold Closed maxSeq
    rw [hsa.1, hsa.2]
    exact hc
  · exact hc.publish hi ha hms
  · obtain ⟨i, groupName, present, marked, id, rfl, hr⟩ := hst.action
    have hm : row.toShipment ∈ (w.side .guest).shipments :=
      mem_shipments.2 (.inr (.inl ⟨row, mem_of_getElem? hr, rfl⟩))
    obtain ⟨b, hb, hid, hms⟩ := hi.known .guest _ hm messages hst.body
    refine hc.store hi hst hb hms ?_
    simp [follows, hr] at hf
    exact (hf b hb).resolve_left (not_not.2 hid)

theorem batchInv_linked (log : GroupLog) (name id : String) : BatchInv (linked log name id) := by
  refine ⟨nofun, nofun, fun r x hx => known_of_not_batch ?_, fun x hx => absurd hx
    (not_mem_empty x)⟩
  cases r with
  | host => cases hx
  | guest =>
    rw [mem_singleton.1 hx]
    exact nofun

/-- In every run in which the guest stores a batch only after it has reached the cursor the batch was
queued from, it has at any time every message of the group up to the last one it has. -/
theorem shared_history_has_no_holes {log : GroupLog} {name id : String}
    (hr : Steps (restrict (step prims) fun w a => w.follows a) (linked log name id) w) :
    ∀ m ∈ w.log, m.seq ≤ w.maxSeq → ∃ x ∈ w.messages, x.id = m.id ∧ x.seq = m.seq := by
  have hb : BatchInv w ∧ Closed w := by
    refine hr.keeps (I := fun w => BatchInv w ∧ Closed w)
      (fun h hf hs => ⟨h.1.preserved hs, h.2.preserved h.1 hf hs⟩)
      ⟨batchInv_linked log name id, fun m hm hle => ?_⟩
    exact absurd hle (not_le.2 (log.positive m hm))
  exact hb.2

def shortPrims : OnlinePrims := ⟨fun _ => 100⟩

def ownerOnly : SenderView where
  actorId := "o"
  displayName := "Owner"
  peerPrincipalId := "p"
  name := id
  isAgent := fun _ => false
  binding := fun _ => none
  peerAgent := fun _ => none

def joining : List OnlineAction :=
  [.send .guest 0, .accepted .guest 0, .receive .host 0, .process .host 0 "Group" true true "w",
    .acknowledge .host 0, .send .host 0, .accepted .host 0, .receive .guest 0,
    .process .guest 0 "" true true "x", .acknowledge .guest 0]

def shared (n : ℕ) (message batch : String) : List OnlineAction :=
  [.publish { id := message, seq := n, senderId := "o", content := "Hi" },
    .readHistory ownerOnly true, .queueHistory (n - 1) batch, .send .host 0, .accepted .host n]

def fetched (n : ℕ) : List OnlineAction :=
  [.receive .guest 0, .process .guest n "" true true "x", .acknowledge .guest n]

def synced : List OnlineAction :=
  [.resync "s", .send .guest 0, .accepted .guest 1, .receive .host 0,
    .process .host 1 "" true true "x", .acknowledge .host 1, .readHistory ownerOnly true]

def day : ℕ := 24 * 60 * 60 * 1000

theorem shared_history_has_no_holes_twice :
    ∃ w, Steps (restrict (step shortPrims) fun w a => w.follows a) (linked .empty "Guest" "j") w
      ∧ w.maxSeq = 2 ∧ ∀ m ∈ w.log, m.seq ≤ 2 → ∃ x ∈ w.messages, x.id = m.id ∧ x.seq = m.seq := by
  refine exists_run_and (joining ++ shared 1 "m1" "b1" ++ [.pass day] ++ shared 2 "m2" "b2" ++
      fetched 1 ++ fetched 2 ++ synced) ?_ fun w hs hm => ?_
  · decide +kernel
  · have hc := shared_history_has_no_holes hs
    rw [hm] at hc
    exact hc

/-- The first of two batches expires in the mailbox of a guest that is away.  The guest stores the
second, asks for what follows it, and everything is delivered; the first message never comes. -/
theorem expired_batch_leaves_hole : ∃ w, Steps (step shortPrims) (linked .empty "Guest" "j") w
      ∧ (∃ row ∈ w.host.inbox, row.body = .sync 2 ∧ row.processed)
      ∧ (w.host.outbox, w.guest.mailbox, w.log.listMessagePage w.lastSeq) = ([], [], [])
      ∧ (∀ row ∈ w.guest.inbox, row.processed)
      ∧ w.maxSeq = 2 ∧ ∃ m ∈ w.log.rows, m.seq = 1 ∧ ∀ x ∈ w.messages, x.seq ≠ 1 := by
  refine exists_run (joining ++ shared 1 "m1" "b1" ++ [.pass day] ++ shared 2 "m2" "b2"
        ++ [.pass (6 * day), .expire .guest 0] ++ fetched 1 ++ synced) ?_
  decide +kernel

/-- Whatever is lost, resent or stored out of order, the guest has only messages of the group. -/
theorem guest_messages_sound {log : GroupLog} {name id : String}
    (hr : Steps (step prims) (linked log name id) w) :
    ∀ x ∈ w.messages, ∃ m ∈ w.log, m.id = x.id ∧ m.seq = x.seq :=
  (hr.invariant BatchInv.preserved (batchInv_linked log name id)).held

theorem guest_messages_sound_once :
    ∃ w, Steps (step shortPrims) (linked .empty "Guest" "j") w ∧ w.messages.rows.map (·.id) = ["m1"]
      ∧ ∀ x ∈ w.messages, ∃ m ∈ w.log, m.id = x.id ∧ m.seq = x.seq :=
  exists_run_and (joining ++ shared 1 "m1" "b1" ++ fetched 1) (by decide +kernel)
    fun _ h _ => guest_messages_sound h

end OnlineWorld

end Choruz
