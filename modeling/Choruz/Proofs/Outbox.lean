import Choruz.Messages
import Choruz.Outbox
import Choruz.Proofs.RouteEvent
import Mathlib

/-!
# What the outbox publishes and what it gives up

A row is published by a process that has routed its event, or in the transaction that records it
as a dead letter (`OutboxWorld.Settled`).  The attempt counter is raised by the claim, not by the
failure, so it bounds the failures of a row only while every claim is processed before the next
(`OutboxWorld.Claimed`).
-/

namespace Choruz

namespace Router

open Relational

variable {prims : Primitives}

/-- Rows keep their id and payload, and those that become published meet `P`. -/
def OutboxDb.Publishes (P : OutboxRow → Prop) (db db' : OutboxDb) : Prop :=
  Table.Evolves (fun r r' => r'.id = r.id ∧ r'.payload = r.payload ∧
    (r'.published → r.published ∨ P r)) db.eventOutbox db'.eventOutbox

section Publishes

variable {P : OutboxRow → Prop} {db db' : OutboxDb}

theorem OutboxDb.Publishes.same (h : db'.eventOutbox = db.eventOutbox) : db.Publishes P db' := by
  unfold Publishes
  rw [h]
  exact .refl fun r _ => ⟨rfl, rfl, .inl⟩

theorem OutboxDb.Publishes.of_update {p : OutboxRow → Bool} {f : OutboxRow → OutboxRow}
    (hf : ∀ r, (f r).id = r.id) (h : db'.eventOutbox = db.eventOutbox.updateWhere p f hf)
    (hpay : ∀ r, (f r).payload = r.payload)
    (hpub : ∀ r, p r → (f r).published → r.published ∨ P r) :
    db.Publishes P db' := by
  unfold Publishes
  rw [h]
  exact evolves_updateWhere (fun r _ hp => ⟨hf r, hpay r, hpub r hp⟩) fun r _ _ => ⟨rfl, rfl, .inl⟩

theorem OutboxDb.publishes_claim (now : Timestamp) (limit : ℕ) (nodeId : String)
    (leaseDuration : Timestamp) (locked : List ℕ) :
    db.Publishes P (db.claimUnpublishedEntries now limit nodeId leaseDuration locked).2 :=
  .of_update (by intro _; rfl) rfl (fun _ => rfl) fun _ _ => .inl

theorem OutboxDb.publishes_markPublished (id : ℕ) (nodeId : String) :
    db.Publishes (·.id = id) (db.markPublished id nodeId) := by
  refine .of_update (by intro _; rfl) rfl (fun _ => rfl) fun r hp _ => .inr ?_
  simp at hp
  exact hp.1

theorem OutboxDb.deadLetterOutboxEntry_cases (entry : OutboxRow) (id error : String)
    (now : Timestamp) : db.deadLetterOutboxEntry entry id error now = db ∨
      (db.deadLetterOutboxEntry entry id error now).deadLetters =
        db.deadLetters ++ [outboxDeadLetter entry id error now] ∧
      (db.deadLetterOutboxEntry entry id error now).router = db.router ∧
      db.Publishes (·.id = entry.id) (db.deadLetterOutboxEntry entry id error now) := by
  unfold deadLetterOutboxEntry
  split_ifs
  · exact .inl rfl
  · refine .inr ⟨rfl, rfl, .of_update (by intro _; rfl) rfl (fun _ => rfl) fun r hp _ => .inr ?_⟩
    simp [stillOwned] at hp
    exact hp.1.1.1
  · exact .inl rfl

end Publishes

section Appended

variable {db db' : Db} {e : ConversationEventRow} {now : Timestamp}

theorem messageId_messageOutboxRow (now : Timestamp) (e : ConversationEventRow)
    (traceId : Option Json) (id : ℕ) :
    OutboxRow.messageId? { Db.messageOutboxRow now e traceId with id } = some e.eventId := by
  cases traceId <;>
    simp [Db.messageOutboxRow, OutboxRow.messageId?, Json.text?, Json.field?, Json.ofFields,
      Json.find?_setField, Json.find?_setField_self]

/-- What the store appends to the outbox with an event, the router reads as that event; a remote
reply is appended like a message; and the router's dead letters are inserted by the store's
statement. -/
theorem appended_rows_parsed : (∀ traceId id, db.insertEventRow e = some db' →
      ∀ o : OutboxDb, o.router.db.conversationEvents = db'.conversationEvents →
        o.parseOutboxEvent { Db.messageOutboxRow now e traceId with id } none = .ok (some e)) ∧
    (db.insertRemoteReply now e = .ok db' → db' = db ∨ db'.eventOutbox
      = db.eventOutbox ++ [Db.messageOutboxRow now { e with contentType := "text/plain" } none]) ∧
    ∀ entry id error, ∃ input : InsertDeadLetter, input.sourceType = "event_outbox" ∧
      (db.insertDeadLetterInTransaction now id input).deadLetters
        = db.deadLetters ++ [OutboxDb.outboxDeadLetter entry id error now] := by
  refine ⟨fun traceId id h o ho => ?_, fun h => ?_, fun _ _ _ => ⟨⟨_, _, _, _, _⟩, rfl, rfl⟩⟩
  · obtain ⟨hc, _, _, _, rfl⟩ := Db.insertEventRow_eq_some db h
    have hn : db.conversationEvents.find? (·.eventId = e.eventId) = none :=
      List.find?_eq_none.2 fun r hr => by simpa using eventId_ne_of_insert hc r hr
    simp [OutboxDb.parseOutboxEvent, messageId_messageOutboxRow, ho, hn]
  · unfold Db.insertRemoteReply at h
    split_ifs at h
    · cases h
      exact .inl rfl
    split at h <;> cases h
    next hi =>
    obtain ⟨-, _, _, _, rfl⟩ := Db.insertEventRow_eq_some db hi
    exact .inr rfl

end Appended

namespace OutboxWorld

variable {w w' : OutboxWorld}

variable {entry row : OutboxRow} {P : OutboxRow → Prop} {unavailable : Option AppError}
  {w'' : OutboxWorld}

def Stands (w : OutboxWorld) (entry : OutboxRow) : Prop :=
  ∃ r ∈ w.db.eventOutbox, r.id = entry.id ∧ r.payload = entry.payload

/-- An entry not yet processed: all its attempts before this one have failed. -/
def Claimed (w : OutboxWorld) (entry : OutboxRow) : Prop :=
  w.Stands entry ∧ entry.attemptCount ≤ w.failures.count entry.id + 1

/-- An entry all of whose attempts have failed. -/
def Failed (w : OutboxWorld) (entry : OutboxRow) : Prop :=
  w.Stands entry ∧ outboxDeadLetterAfterAttempts ≤ w.failures.count entry.id

/-- An event the row is about was routed. -/
def Routed (w : OutboxWorld) (row : OutboxRow) : Prop :=
  ∃ messageId, row.messageId? = some messageId ∧ messageId ∈ w.routed

def DeadLettered (w : OutboxWorld) (row : OutboxRow) : Prop :=
  ∃ d ∈ w.db.deadLetters, d.sourceType = "event_outbox" ∧ d.sourceId = toString row.id

instance (w : OutboxWorld) (row : OutboxRow) : Decidable (w.DeadLettered row) :=
  inferInstanceAs (Decidable (∃ d ∈ w.db.deadLetters, _))

/-- The event was routed, or there is a dead letter of the row. -/
def Settled (w : OutboxWorld) (row : OutboxRow) : Prop := w.Routed row ∨ w.DeadLettered row

def TaskSound (w : OutboxWorld) : RouterTask → Prop
  | .waiting => True
  | .routing entry run => w.Claimed entry ∧ entry.messageId? = some run.event.eventId
  | .marking entry => w.Stands entry ∧ w.Routed entry
  | .deadLettering entry _ => w.Failed entry

structure ProcessSound (w : OutboxWorld) (p : RouterProcess) : Prop where
  channel : ∀ entry ∈ p.channel, w.Claimed entry
  task : w.TaskSound p.task

/-- Rows stay, and nothing recorded is lost. -/
structure Grows (w w' : OutboxWorld) : Prop where
  stands : ∀ r ∈ w.db.eventOutbox, w'.Stands r
  routed : w.routed ⊆ w'.routed
  failures : ∀ id, w.failures.count id ≤ w'.failures.count id
  deadLetters : w.db.deadLetters ⊆ w'.db.deadLetters

section

variable (hg : w.Grows w')
include hg

theorem Stands.grows (h : w.Stands entry) : w'.Stands entry := by
  obtain ⟨r, hr, hid, hp⟩ := h
  obtain ⟨r', hr', hid', hp'⟩ := hg.stands r hr
  exact ⟨r', hr', hid'.trans hid, hp'.trans hp⟩

theorem Claimed.grows (h : w.Claimed entry) : w'.Claimed entry :=
  ⟨h.1.grows hg, h.2.trans (Nat.add_le_add_right (hg.failures _) 1)⟩

theorem Routed.grows (h : w.Routed row) : w'.Routed row := by
  obtain ⟨messageId, hid, hm⟩ := h
  exact ⟨messageId, hid, hg.routed hm⟩

theorem DeadLettered.grows (h : w.DeadLettered row) : w'.DeadLettered row := by
  obtain ⟨d, hd, hs⟩ := h
  exact ⟨d, hg.deadLetters hd, hs⟩

theorem Settled.grows (h : w.Settled row) : w'.Settled row :=
  h.imp (·.grows hg) (·.grows hg)

theorem Failed.grows (h : w.Failed entry) : w'.Failed entry :=
  ⟨h.1.grows hg, h.2.trans (hg.failures _)⟩

theorem ProcessSound.grows {p : RouterProcess} (h : w.ProcessSound p) :
    w'.ProcessSound p := by
  refine ⟨fun e he => (h.channel e he).grows hg, ?_⟩
  have ht := h.task
  unfold TaskSound at ht ⊢
  split at ht
  · trivial
  · exact ⟨ht.1.grows hg, ht.2⟩
  · exact ⟨ht.1.grows hg, ht.2.grows hg⟩
  · exact ht.grows hg

end

theorem Settled.of_eq {r r' : OutboxRow} (h : w.Settled r) (hid : r'.id = r.id)
    (hp : r'.payload = r.payload) : w.Settled r' := by
  refine h.imp (fun ⟨messageId, hm, hr⟩ => ⟨messageId, ?_, hr⟩) fun ⟨d, hd, ht, hs⟩ => ⟨d, hd, ht, ?_⟩
  · simpa [OutboxRow.messageId?, hp] using hm
  · rw [hs, hid]

structure Inv (w : OutboxWorld) : Prop where
  settled : ∀ r ∈ w.db.eventOutbox, r.published → w.Settled r
  dead : ∀ d ∈ w.db.deadLetters, ∃ r ∈ w.db.eventOutbox, d.sourceId = toString r.id ∧
    outboxDeadLetterAfterAttempts ≤ w.failures.count r.id
  processes : ∀ p ∈ w.processes, w.ProcessSound p

theorem grows_of_publishes (hrw : w.db.Publishes P w'.db) (hro : w.routed ⊆ w'.routed)
    (hf : w.failures.Sublist w'.failures) (hd : w.db.deadLetters ⊆ w'.db.deadLetters) :
    w.Grows w' := by
  refine ⟨fun r hr => ?_, hro, fun id => hf.count_le id, hd⟩
  obtain ⟨r', hr', hid, hp, -⟩ := hrw.exists_target hr
  exact ⟨r', hr', hid, hp⟩

theorem settled_of_publishes (h : ∀ r ∈ w.db.eventOutbox, r.published → w.Settled r)
    (hro : w.db.Publishes P w'.db) (hg : w.Grows w')
    (hn : ∀ r ∈ w.db.eventOutbox, P r → w'.Settled r) :
    ∀ r ∈ w'.db.eventOutbox, r.published → w'.Settled r := by
  intro r' hr' hpub
  obtain ⟨r, hr, hid, hpay, hp⟩ := hro.exists_source hr'
  refine Settled.of_eq ?_ hid hpay
  exact (hp hpub).elim (fun hpub => (h r hr hpub).grows hg) fun hP => hn r hr hP

theorem dead_grows (hg : w.Grows w')
    (h : ∀ d ∈ w.db.deadLetters, ∃ r ∈ w.db.eventOutbox, d.sourceId = toString r.id ∧
      outboxDeadLetterAfterAttempts ≤ w.failures.count r.id) :
    ∀ d ∈ w.db.deadLetters, ∃ r ∈ w'.db.eventOutbox, d.sourceId = toString r.id ∧
      outboxDeadLetterAfterAttempts ≤ w'.failures.count r.id := by
  intro d hd
  obtain ⟨r, hr, hs, hc⟩ := h d hd
  obtain ⟨r', hr', hid, -⟩ := hg.stands r hr
  exact ⟨r', hr', by rw [hs, hid], by rw [hid]; exact hc.trans (hg.failures _)⟩

/-- What a process does to the world but for itself: rows evolve, records grow, and what is newly
published or dead-lettered is accounted for. -/
structure Accounts (w w' : OutboxWorld) : Prop where
  processes : w'.processes = w.processes
  grows : w.Grows w'
  settled : ∀ r ∈ w'.db.eventOutbox, r.published → w'.Settled r
  dead : ∀ d ∈ w'.db.deadLetters, ∃ r ∈ w'.db.eventOutbox, d.sourceId = toString r.id ∧
    outboxDeadLetterAfterAttempts ≤ w'.failures.count r.id

theorem Inv.accounts_quiet (h : w.Inv) (hp : w'.processes = w.processes)
    (hro : w'.db.eventOutbox = w.db.eventOutbox) (hd : w'.db.deadLetters = w.db.deadLetters)
    (hr : w.routed ⊆ w'.routed) (hf : w.failures.Sublist w'.failures) : w.Accounts w' := by
  have hpub : w.db.Publishes (fun _ => False) w'.db := .same hro
  have hg := grows_of_publishes hpub hr hf (hd ▸ List.Subset.refl _)
  refine ⟨hp, hg, settled_of_publishes h.settled hpub hg fun _ _ hF => hF.elim, ?_⟩
  rw [hd]
  exact dead_grows hg h.dead

theorem grows_processes (processes : List RouterProcess) : w.Grows { w with processes } :=
  ⟨fun r hr => ⟨r, hr, rfl, rfl⟩, List.Subset.refl _, fun _ => le_rfl, List.Subset.refl _⟩

theorem Grows.trans (h : w.Grows w') (h' : w'.Grows w'') : w.Grows w'' :=
  ⟨fun r hr => (h.stands r hr).grows h', fun _ hm => h'.routed (h.routed hm),
    fun id => (h.failures id).trans (h'.failures id), fun _ hd => h'.deadLetters (h.deadLetters hd)⟩

theorem Accounts.trans (h : w.Accounts w') (h' : w'.Accounts w'') : w.Accounts w'' :=
  ⟨h'.processes.trans h.processes, h.grows.trans h'.grows, h'.settled, h'.dead⟩

theorem Accounts.refl (h : w.Inv) : w.Accounts w :=
  h.accounts_quiet rfl rfl rfl (List.Subset.refl _) (List.Sublist.refl _)

variable {p p' : RouterProcess} {db : OutboxDb}

theorem Claimed.fail (hc : w.Claimed entry) (h : w.Inv) (error : String) :
    w.Accounts (w.fail entry error).1 ∧
      (w.fail entry error).1.TaskSound (w.fail entry error).2 := by
  have ha : w.Accounts (w.fail entry error).1 :=
    h.accounts_quiet rfl rfl rfl (List.Subset.refl _) (List.sublist_append_left _ _)
  refine ⟨ha, ?_⟩
  unfold OutboxWorld.fail
  split_ifs with hl
  · refine ⟨hc.1.grows ha.grows, ?_⟩
    have hcnt : (w.failures ++ [entry.id]).count entry.id = w.failures.count entry.id + 1 := by
      simp
    have hl : outboxDeadLetterAfterAttempts ≤ entry.attemptCount := by
      simpa [shouldDeadLetterOutbox] using hl
    exact (hl.trans hc.2).trans hcnt.ge
  · trivial

theorem parseOutboxEvent_eq_ok {event : ConversationEventRow}
    (h : db.parseOutboxEvent entry unavailable = .ok (some event)) :
    entry.messageId? = some event.eventId := by
  unfold OutboxDb.parseOutboxEvent at h
  split at h
  · cases h
  rename_i messageId hid
  split at h
  · cases h
  simp at h
  have he := find?_some h
  rw [hid, ← of_decide_eq_true he]

theorem Claimed.receive (h : w.Inv) (hc : w.Claimed entry)
    (ho : w.db.parseOutboxEvent entry unavailable = .ok none →
      shouldDeadLetterOutbox entry.attemptCount) : w.Accounts (w.receive entry unavailable).1 ∧
      (w.receive entry unavailable).1.TaskSound (w.receive entry unavailable).2 := by
  unfold OutboxWorld.receive
  split
  next event hp =>
    exact ⟨h.accounts_quiet rfl rfl rfl (List.Subset.refl _) (List.Sublist.refl _), hc,
      parseOutboxEvent_eq_ok hp⟩
  · rename_i hp
    have hf := hc.fail h "outbox entry references non-existent conversation event"
    unfold OutboxWorld.fail at hf
    rw [if_pos (ho hp)] at hf
    exact hf
  · exact hc.fail h _

theorem Claimed.route {run : RouteRun} {op : RouteOp} {task : RouterTask} (h : w.Inv)
    (hc : w.Claimed entry) (hid : entry.messageId? = some run.event.eventId)
    (hr : w.route prims entry run op = some (w', task)) : w.Accounts w' ∧ w'.TaskSound task := by
  unfold OutboxWorld.route at hr
  split at hr
  · cases hr
  rename_i router run' hs
  have he := (RouteRun.step_cases hs).2.event_eq
  have ha : w.Accounts { w with db := { w.db with router } } :=
    h.accounts_quiet rfl rfl rfl (List.Subset.refl _) (List.Sublist.refl _)
  have hi : ({ w with db := { w.db with router } } : OutboxWorld).Inv :=
    ⟨ha.settled, ha.dead, fun p hp => (h.processes p hp).grows ha.grows⟩
  have hc' := hc.grows ha.grows
  split at hr
  · cases hr
    have ha' : w.Accounts { w with
        db := { w.db with router }, routed := w.routed ++ [run'.event.eventId] } :=
      h.accounts_quiet rfl rfl rfl (List.subset_append_left _ _) (List.Sublist.refl _)
    exact ⟨ha', hc.1.grows ha'.grows, run'.event.eventId, by rw [hid, he], by simp⟩
  next e _ =>
    simp at hr
    have hf := hc'.fail hi ("failed to route event: " ++ routerErrorText e)
    rw [hr] at hf
    exact ⟨ha.trans hf.1, hf.2⟩
  · cases hr
    exact ⟨ha, hc', by rw [hid, he]⟩

theorem write_cases (fault : Fault) (db : OutboxDb) :
    w.write fault db = w ∧ fault ≠ .none ∨ w.write fault db = { w with db } := by
  unfold write
  split_ifs with hf
  · exact .inl ⟨rfl, by simp [hf]⟩
  · exact .inr rfl

section

variable (h : w.Inv)
include h

theorem ProcessSound.claim {now : Timestamp} {locked : List ℕ} {fault : Fault}
    (hp : w.ProcessSound p) (hc : w.ProcessesClaims p (.claim now locked fault))
    (hs : w.advance prims p (.claim now locked fault) = some (w', p')) :
    w.Accounts w' ∧ w'.ProcessSound p' := by
  simp [advance] at hs
  obtain ⟨hw, rfl⟩ := hs
  rcases write_cases fault (w := w) (w.db.claimUnpublishedEntries now p.batchSize p.nodeId
    p.claimLeaseDuration locked).2 with ⟨hsa, hf⟩ | hn
  · rw [hsa] at hw
    subst hw
    rw [if_neg hf]
    exact ⟨.refl h, hp⟩
  · rw [hn] at hw
    subst hw
    have hro := w.db.publishes_claim (P := fun _ => False) now p.batchSize p.nodeId
      p.claimLeaseDuration locked
    have hg : w.Grows { w with db := (w.db.claimUnpublishedEntries now p.batchSize p.nodeId
        p.claimLeaseDuration locked).2 } :=
      grows_of_publishes hro (List.Subset.refl _) (List.Sublist.refl _) (List.Subset.refl _)
    refine ⟨⟨rfl, hg, settled_of_publishes h.settled hro hg fun _ _ hF => hF.elim,
      fun d hd => dead_grows hg h.dead d hd⟩, ?_⟩
    have hp' := hp.grows hg
    split_ifs
    · refine ⟨fun entry he => ?_, hp'.task⟩
      rcases mem_append.1 he with he | he
      · exact hp'.channel entry he
      · obtain ⟨r, hr, rfl⟩ := mem_map.1 he
        have hm := (List.mem_insertionSort _).1 (List.mem_of_mem_take hr)
        exact Claimed.grows hg ⟨⟨r, (mem_filter.1 hm).1, rfl, rfl⟩,
          Nat.add_le_add_right (hc r hr) 1⟩
    · exact hp'

theorem Stands.mark (hs : w.Stands entry) (hr : w.Routed entry) (nodeId : String) :
    w.Accounts { w with db := w.db.markPublished entry.id nodeId } := by
  have hro := w.db.publishes_markPublished entry.id nodeId
  have hg : w.Grows { w with db := w.db.markPublished entry.id nodeId } :=
    grows_of_publishes hro (List.Subset.refl _) (List.Sublist.refl _) (List.Subset.refl _)
  refine ⟨rfl, hg, settled_of_publishes h.settled hro hg fun r hm hid => ?_,
    fun d hd => dead_grows hg h.dead d hd⟩
  obtain ⟨r', hr', hid', hp⟩ := hs
  rw [eq_of_key_eq hr' hm (hid'.trans hid.symm)] at hp
  exact Settled.of_eq (.inl (hr.grows hg)) hid hp

theorem Failed.deadLetter (hf : w.Failed entry) (id error : String) (now : Timestamp) :
    w.Accounts { w with db := w.db.deadLetterOutboxEntry entry id error now } := by
  rcases w.db.deadLetterOutboxEntry_cases entry id error now with hs | ⟨hde, hru, hro⟩
  · rw [hs]
    exact .refl h
  · have hg : w.Grows { w with db := w.db.deadLetterOutboxEntry entry id error now } :=
      grows_of_publishes hro (List.Subset.refl _) (List.Sublist.refl _)
        (by rw [hde]; exact List.subset_append_left _ _)
    refine ⟨rfl, hg, settled_of_publishes h.settled hro hg fun r hm hid => .inr ?_, ?_⟩
    · refine ⟨OutboxDb.outboxDeadLetter entry id error now, ?_, rfl, by rw [hid]; rfl⟩
      rw [hde]
      exact mem_append_right _ mem_cons_self
    · intro d hd
      rw [hde] at hd
      rcases mem_snoc.1 hd with hd | rfl
      · exact dead_grows hg h.dead d hd
      obtain ⟨⟨r, hr, hid, -⟩, hc⟩ := hf.grows hg
      exact ⟨r, hr, by rw [hid]; rfl, by rwa [hid]⟩

theorem accounts_write (fault : Fault)
    (ha : w.Accounts { w with db }) : w.Accounts (w.write fault db) := by
  rcases write_cases fault (w := w) db with ⟨hs, -⟩ | hn
  · rw [hs]
    exact .refl h
  · rw [hn]
    exact ha

theorem ProcessSound.advance {op : ProcessOp} (hp : w.ProcessSound p)
    (hcl : w.ProcessesClaims p op) (hs : w.advance prims p op = some (w', p')) :
    w.Accounts w' ∧ w'.ProcessSound p' := by
  cases op with
  | claim now locked fault => exact hp.claim h hcl hs
  | receive unavailable =>
    simp only [OutboxWorld.advance] at hs
    split at hs <;> cases hs
    next entry rest ht hch =>
      have hc := hp.channel entry (by simp [hch])
      obtain ⟨ha, ht'⟩ := hc.receive h (hcl entry (by simp [hch]))
      refine ⟨ha, fun e he => ?_, ht'⟩
      exact (hp.channel e (by rw [hch]; exact mem_cons_of_mem _ he)).grows ha.grows
  | route op =>
    simp only [OutboxWorld.advance] at hs
    split at hs
    next entry run ht =>
      obtain ⟨⟨w1, task⟩, hr, heq⟩ := map_eq_some_iff.1 hs
      cases heq
      have hsnd := hp.task
      rw [ht] at hsnd
      obtain ⟨ha, ht'⟩ := hsnd.1.route h hsnd.2 hr
      exact ⟨ha, fun e he => (hp.channel e he).grows ha.grows, ht'⟩
    · cases hs
  | mark fault =>
    simp [OutboxWorld.advance] at hs
    split at hs <;> cases hs
    next entry ht =>
      have hsnd := hp.task
      rw [ht] at hsnd
      have ha := accounts_write h fault (hsnd.1.mark h hsnd.2 (entry.claimedBy.getD "unknown"))
      exact ⟨ha, fun e he => (hp.channel e he).grows ha.grows, trivial⟩
  | deadLetter id now fault =>
    simp [OutboxWorld.advance] at hs
    split at hs <;> cases hs
    next entry error ht =>
      have hsnd := hp.task
      rw [ht] at hsnd
      have ha := accounts_write h fault (Failed.deadLetter h hsnd id error now)
      exact ⟨ha, fun e he => (hp.channel e he).grows ha.grows, trivial⟩

theorem Inv.insert {id : ℕ} {entry : EventOutboxRow} {outbox : Table OutboxRow.id}
    (hi : w.db.eventOutbox.insert? { entry with id, published := false } = some outbox) :
    ({ w with db := { w.db with eventOutbox := outbox } } : OutboxWorld).Inv := by
  have hg : w.Grows { w with db := { w.db with eventOutbox := outbox } } :=
    ⟨fun r hr => ⟨r, (mem_insert? hi).2 (.inl hr), rfl, rfl⟩, List.Subset.refl _,
      fun _ => le_rfl, List.Subset.refl _⟩
  refine ⟨fun r hr hpub => ?_, fun d hd => dead_grows hg h.dead d hd,
    fun p hp => (h.processes p hp).grows hg⟩
  rcases (mem_insert? hi).1 hr with hr | rfl
  · exact (h.settled r hr hpub).grows hg
  · cases hpub

theorem Inv.step {act : OutboxAction} (hok : w.EveryClaimProcessed act)
    (hs : w.step prims act = some w') : w'.Inv := by
  cases act with
  | insert id entry =>
    simp only [OutboxWorld.step, map_eq_some_iff] at hs
    obtain ⟨outbox, hins, rfl⟩ := hs
    exact h.insert hins
  | start process =>
    cases hs
    exact ⟨h.settled, h.dead, forall_mem_snoc
      (fun p hp => (h.processes p hp).grows (grows_processes _)) ⟨by simp, trivial⟩⟩
  | process i op =>
    simp only [OutboxWorld.step] at hs
    split at hs
    · cases hs
    rename_i p hi
    obtain ⟨⟨w1, p'⟩, hadv, rfl⟩ := map_eq_some_iff.1 hs
    obtain ⟨ha, hp'⟩ := (h.processes p (mem_of_getElem? hi)).advance h (hok p hi) hadv
    refine ⟨ha.settled, ha.dead, fun q hq => ?_⟩
    rcases mem_or_eq_of_mem_set hq with hq | rfl
    · rw [ha.processes] at hq
      exact (h.processes q hq).grows (ha.grows.trans (grows_processes _))
    · exact hp'.grows (grows_processes _)
  | call call fault =>
    simp [OutboxWorld.step] at hs
    split at hs <;> cases hs
    · exact h
    · exact h
    next db _ _ =>
      have ha : w.Accounts { w with db := { w.db with router := { w.db.router with db } } } :=
        h.accounts_quiet rfl rfl rfl (List.Subset.refl _) (List.Sublist.refl _)
      exact ⟨ha.settled, ha.dead, fun p hp => (h.processes p hp).grows ha.grows⟩

end

/-- A row is published only once its event was routed or it has a dead letter, and, where every
claim of a row is processed before the next, has a dead letter only after five failed attempts. -/
theorem outbox_accounts_for_rows {w0 w : OutboxWorld} (hro : w0.db.eventOutbox = .empty)
    (hde : w0.db.deadLetters = []) (hp : w0.processes = [])
    (hs : Steps (restrict (step prims) EveryClaimProcessed) w0 w) :
    ∀ r ∈ w.db.eventOutbox, (r.published → w.Routed r ∨ w.DeadLettered r) ∧
      (w.DeadLettered r → outboxDeadLetterAfterAttempts ≤ w.failures.count r.id) := by
  have h0 : w0.Inv := by
    refine ⟨fun r hr => ?_, by simp [hde], by simp [hp]⟩
    rw [hro] at hr
    cases hr
  have h : w.Inv := hs.keeps (·.step) h0
  intro r hr
  refine ⟨h.settled r hr, ?_⟩
  rintro ⟨d, hd, -, hsrc⟩
  obtain ⟨r', -, hs', hc⟩ := h.dead d hd
  rwa [← Nat.repr_inj.1 (hs'.symm.trans hsrc)]

def outboxEntry : EventOutboxRow where
  aggregateType := "conversation_event"
  aggregateId := "general"
  eventType := "message"
  payload := .ofFields [("message_id", .str "m1")]
  createdAt := 0
  published := false

def routerNode (nodeId : String) : RouterProcess where
  nodeId
  batchSize := 1
  claimLeaseDuration := seconds 30

def failingAttempts (n : ℕ) : List OutboxAction :=
  (List.range n).flatMap fun k =>
    [.process 0 (.claim (seconds (31 * k)) [] .none),
      .process 0 (.receive (some (.internal "connection closed")))]

theorem outbox_accounts_for_rows_failing : ∃ w : OutboxWorld, ∃ r ∈ w.db.eventOutbox,
    r.published ∧ w.DeadLettered r ∧ outboxDeadLetterAfterAttempts ≤ w.failures.count r.id := by
  have hrun : ((run (restrict (step testPrimitives) EveryClaimProcessed) {}
      ([.insert 1 outboxEntry, .start (routerNode "node-a")] ++ failingAttempts 5
        ++ [.process 0 (.deadLetter "d1" (seconds 200) .none)])).any fun w =>
      ∃ r ∈ w.db.eventOutbox.rows, r.published ∧ w.DeadLettered r) := by
    decide +kernel
  obtain ⟨w, hw, r, hr, hp, hd⟩ := exists_steps_of_run hrun
  exact ⟨w, r, hr, hp, hd, (outbox_accounts_for_rows rfl rfl rfl hw r hr).2 hd⟩

/-- Four routers claim the row one after another and stop; the fifth fails to route the event once
and gives the row up. -/
theorem crashed_claims_count_as_failures : ∃ w : OutboxWorld, ∃ db : RouterDb,
    Steps (step testPrimitives) { db := { router := db } } w ∧
      ∃ r ∈ w.db.eventOutbox, w.DeadLettered r ∧ w.failures.count r.id = 1 := by
  have hrun : ((run (step testPrimitives)
      { db := { router := { db := { conversationEvents := [hello] } } } }
      ([.insert 1 outboxEntry, .start (routerNode "node-a"), .start (routerNode "node-b"),
        .start (routerNode "node-c"), .start (routerNode "node-d"), .start (routerNode "node-e")]
        ++ (List.range 5).map (fun k => .process k (.claim (seconds (31 * k)) [] .none))
        ++ [.process 4 (.receive none),
          .process 4 (.route (.read (.error (.internal "connection closed")))),
          .process 4 (.deadLetter "d1" (seconds 125) .none)])).any fun w =>
      ∃ r ∈ w.db.eventOutbox.rows, w.DeadLettered r ∧ w.failures.count r.id = 1) := by
    decide +kernel
  obtain ⟨w, hw, hr⟩ := exists_steps_of_run hrun
  exact ⟨w, _, hw, hr⟩

end OutboxWorld

end Router

end Choruz
