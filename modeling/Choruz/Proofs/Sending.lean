import Choruz.Proofs.CommitResult
import Choruz.Proofs.Threads

/-!
# One message per key

The unique index keeps at most one event under a key.  A call that looks its key up answers with
the event it finds, whoever stored it, and a call that finds none inserts in a later transaction,
which fails if the key was taken in between.  Where neither happens, every answer is the one
message of the key.
-/

namespace Choruz

open Relational Db SendCall

variable {db db' : Db} {lower : String → String}

variable {es : List ConversationEventRow} {e : AppError} {dir : Directory}
  {request : SendMessageRequest} {c : SendCall} {w : MessageWorld} {actor : Principal}
  {metadata : Json} {c' : SendCall} {key : String} {op : SendOp}

def Db.keyed (db : Db) (key : String) : List ConversationEventRow :=
  db.conversationEvents.filter fun e => e.clientMsgId = some key

def Db.KeepsKeyed (db db' : Db) : Prop :=
  ∀ key, db.keyed key ≠ [] → db'.keyed key = db.keyed key

theorem Db.keyed_eq_nil_iff : db.keyed key = [] ↔ db.findEventByClientMsgId key = none := by
  simp [keyed, findEventByClientMsgId]

theorem Db.Appends.keyed_eq (h : db.Appends db' es) (key : String) :
    db'.keyed key = db.keyed key ++ es.filter fun e => e.clientMsgId = some key := by
  rw [keyed, h.events, filter_append]
  rfl

theorem Db.Appends.keyed_of_none (h : db.Appends db' es) (hn : ∀ e ∈ es, e.clientMsgId = none)
    (key : String) : db'.keyed key = db.keyed key := by
  rw [h.keyed_eq, filter_eq_nil_iff.2, append_nil]
  intro e he
  simp [hn e he]

theorem Db.Appends.keyed_single {e : ConversationEventRow} {k : String} (h : db.Appends db' [e])
    (hk : e.clientMsgId = some k) (key : String) :
    db'.keyed key = if key = k then db.keyed key ++ [e] else db.keyed key := by
  rw [h.keyed_eq]
  split_ifs with heq
  · simp [hk, heq]
  · simp [hk, Ne.symm heq]

/-- A step of a call: where it leads, and the event it stores. -/
inductive SendCall.Moves (db : Db) (c : SendCall) : SendOp → Db → SendCall → Prop where
  | admitted {dir fault next actor conv memberIds} (hactor : actor.id = c.request.actorId)
    (hconv : conv.id = c.request.conversationId)
    (hsame : next.conversationEvents = db.conversationEvents) :
    Moves db c (.checkSender dir fault) next { c with stage := .admitted actor conv memberIds }
  | found {fault actor conv memberIds e} (hstage : c.stage = .admitted actor conv memberIds)
    (hfind : db.findEventByClientMsgId c.request.idempotencyKey = some e) :
    Moves db c (.lookup fault) db { c with stage := .returned (.ok (e.toMessage conv.workspaceId)) }
  | missed {fault actor conv memberIds} (hstage : c.stage = .admitted actor conv memberIds) :
    Moves db c (.lookup fault) db { c with stage := .missed actor conv memberIds }
  | stored {dir now id fault actor conv memberIds next e seen}
    (hstage : c.stage = .missed actor conv memberIds) (hsent : SentEvent db actor conv c.request e)
    (happ : db.Appends next [e])
    (hseen : seen = .ok (e.toMessage conv.workspaceId) ∨ seen = .error connectionClosed) :
    Moves db c (.insert dir now id fault) next { c with stage := .returned seen }
  | refused {op next e} (hsame : next.conversationEvents = db.conversationEvents)
    (herr : e = noRowReturned → ∃ dir now id fault, op = .insert dir now id fault ∧
      db.keyed c.request.idempotencyKey ≠ []) :
    Moves db c op next { c with stage := .returned (.error e) }

theorem connectionClosed_ne : connectionClosed ≠ noRowReturned := by decide

theorem admitSender_error (h : db.admitSender dir request = .error e) : e ≠ noRowReturned := by
  unfold admitSender at h
  split_ifs at h
  · cases h
    simp [noRowReturned]
  · cases h
    simp [noRowReturned]
  · split at h
    next ha =>
      cases h
      unfold getPrincipal at ha
      split at ha
      · cases ha
        simp [noRowReturned]
      · split_ifs at ha
        cases ha
        simp [noRowReturned]
    next hc =>
      cases h
      unfold getConversation at hc
      split at hc <;> cases hc
      simp [noRowReturned]
    · split_ifs at h <;> · cases h; simp [noRowReturned]

theorem keyed_of_conflict {e : ConversationEventRow}
    (hf : ∀ r ∈ db.conversationEvents, r.eventId ≠ e.eventId)
    (hseq : e.seq = db.nextSeq e.conversationId) (hk : e.clientMsgId = some key)
    (htu : e.turnId = none) (h : db.insertEventRow e = none) : db.keyed key ≠ [] := by
  simp [insertEventRow] at h
  obtain ⟨r, hr, hc⟩ := any_eq_true.1 h
  simp at hc
  rcases hc with ((⟨hco, hs⟩ | hid) | ⟨-, hm⟩) | ⟨hso, ht⟩
  · have hlt := seq_lt_nextSeq hr
    rw [hco, hs, hseq] at hlt
    exact absurd hlt (lt_irrefl _)
  · exact absurd hid (hf r hr)
  · refine List.ne_nil_of_mem (mem_filter.2 ⟨hr, ?_⟩)
    simp [hm, hk]
  · rw [ht, htu] at hso
    cases hso

theorem replyTarget_error {conv : String}
    (h : db.replyTarget conv metadata = .error e) : e ≠ noRowReturned := by
  simp [replyTarget] at h
  split_ifs at h
  split at h
  · cases h
    simp [noRowReturned]
  · split at h <;> cases h
    simp [noRowReturned]

theorem checkAttachment_error
    (h : db.checkAttachment dir actor metadata = .error e) : e ≠ noRowReturned := by
  unfold checkAttachment at h
  split at h
  · cases h
  split at h
  · cases h
    simp [noRowReturned]
  · split_ifs at h
    cases h
    simp [noRowReturned]

theorem sendMessageInTx_error {now : Timestamp} {mid : String}
    {conv : Conversation} {mids : List String} (hf : ∀ r ∈ db.conversationEvents, r.eventId ≠ mid)
    (h : db.sendMessageInTx lower dir now mid actor conv mids request = .error e)
    (he : e = noRowReturned) : db.keyed request.idempotencyKey ≠ [] := by
  unfold sendMessageInTx at h
  split at h
  next hr =>
    cases h
    exact absurd he (replyTarget_error hr)
  · split at h
    next ha =>
      cases h
      exact absurd he (checkAttachment_error ha)
    · simp only at h
      split at h
      next hi =>
        exact keyed_of_conflict hf rfl rfl rfl hi
      · cases h

theorem SendCall.moves_of_step (h : c.step lower db op = some (db', c')) : c.Moves db op db' c' := by
  cases op with simp [step] at h
  | checkSender dir fault =>
    split at h
    · rcases ho : fault.outcome connectionClosed db (db.admitSender dir c.request) with ⟨next, seen⟩
      rw [ho] at h
      rcases Fault.outcome_cases ho with ⟨⟨actor, conv⟩, ha, rfl | rfl⟩ | ⟨rfl, hs⟩
      · obtain ⟨hac, hc, hsa⟩ := admitSender_eq_ok ha
        cases h
        exact .admitted hac hc hsa
      · cases h
        exact .refused (admitSender_eq_ok ha).2.2 fun he => absurd he connectionClosed_ne
      · rcases hs with rfl | ⟨e, herr, rfl⟩ <;> cases h
        · exact .refused rfl fun he => absurd he connectionClosed_ne
        · exact .refused rfl fun he => absurd he (admitSender_error herr)
    · cases h
  | lookup fault =>
    split at h <;> cases h
    next hst =>
      split
      next hf =>
        exact .found hst hf
      · exact .missed hst
      · exact .refused rfl fun he => absurd he connectionClosed_ne
  | insert dir now messageId fault =>
    split at h
    next actor conv memberIds hst =>
      split_ifs at h with hu
      rcases ho : fault.outcome connectionClosed db
        (db.sendMessageInTx lower dir now messageId actor conv memberIds c.request) with ⟨next, seen⟩
      rw [ho] at h
      cases h
      have hfr : ∀ r ∈ db.conversationEvents, r.eventId ≠ messageId := by
        simpa using hu
      rcases Fault.outcome_cases ho with ⟨m, hse, hs⟩ | ⟨rfl, hs⟩
      · obtain ⟨e, hsn, happ, rfl⟩ := sendMessageInTx_eq_ok hse
        exact .stored hst hsn happ hs
      · rcases hs with rfl | ⟨e, herr, rfl⟩
        · exact .refused rfl fun he => absurd he connectionClosed_ne
        · exact .refused rfl fun he =>
            ⟨dir, now, messageId, fault, rfl, sendMessageInTx_error hfr herr he⟩
    · cases h

/-- The message is that of the one event under the call's key, which is the call's own. -/
def SendCall.Sent (db : Db) (c : SendCall) (m : Message) : Prop :=
  ∃ e, db.keyed c.request.idempotencyKey = [e] ∧ m = e.toMessage m.workspaceId ∧
    e.conversationId = c.request.conversationId ∧ e.senderId = c.request.actorId

/-- What holds of a call by its stage. -/
def SendCall.Kept (db : Db) (c : SendCall) : Prop :=
  match c.stage with
  | .start => True
  | .admitted actor conv _ | .missed actor conv _ =>
    actor.id = c.request.actorId ∧ conv.id = c.request.conversationId
  | .returned (.ok m) => c.Sent db m
  | .returned (.error e) => e ≠ noRowReturned

theorem SendCall.Kept.keeps (h : c.Kept db) (hk : db.KeepsKeyed db') : c.Kept db' := by
  unfold Kept at h ⊢
  split at h
  · trivial
  · exact h
  · exact h
  · obtain ⟨e, hkey, hm⟩ := h
    exact ⟨e, (hk _ (by simp [hkey])).trans hkey, hm⟩
  · exact h

structure MessageWorld.KeyInv (w : MessageWorld) : Prop where
  unique : ∀ key, (w.db.keyed key).length ≤ 1
  calls : ∀ c ∈ w.calls, c.Kept w.db

theorem Db.keepsKeyed_of_eq (h : ∀ key, db'.keyed key = db.keyed key) : db.KeepsKeyed db' :=
  fun key _ => h key

theorem Db.keyed_of_events (h : db'.conversationEvents = db.conversationEvents) (key : String) :
    db'.keyed key = db.keyed key := by
  rw [keyed, h, keyed]

theorem SendCall.Kept.step (hc : c.Kept w.db)
    (hu : ∀ key, (w.db.keyed key).length ≤ 1) (ho : w.KeepsKey c op) (hm : c.Moves w.db op db' c') :
    c'.Kept db' ∧ w.db.KeepsKeyed db' ∧ ∀ key, (db'.keyed key).length ≤ 1 := by
  have hq : db'.conversationEvents = w.db.conversationEvents →
      w.db.KeepsKeyed db' ∧ ∀ key, (db'.keyed key).length ≤ 1 := fun hs =>
    ⟨keepsKeyed_of_eq (keyed_of_events hs), fun key => by
      rw [keyed_of_events hs]
      exact hu key⟩
  cases hm with
  | admitted ha hco hs => exact ⟨⟨ha, hco⟩, hq hs⟩
  | @found fault actor conv memberIds e hst hf =>
    have hmem : e ∈ w.db.keyed c.request.idempotencyKey :=
      mem_filter.2 ⟨mem_of_find?_eq_some hf, by simpa using find?_some hf⟩
    obtain ⟨hco, hsdr⟩ := ho e hf
    refine ⟨⟨e, ?_, rfl, hco, hsdr⟩, hq rfl⟩
    obtain ⟨x, hx⟩ := List.length_eq_one_iff.1 (le_antisymm (hu _) (List.length_pos_of_mem hmem))
    rw [hx, mem_singleton] at hmem
    rw [hx, hmem]
  | missed hst =>
    simp [Kept, hst] at hc
    exact ⟨hc, hq rfl⟩
  | @stored _ _ _ _ actor conv _ next e seen hst hse happ hsn =>
    simp [Kept, hst] at hc
    have hfr : w.db.keyed c.request.idempotencyKey = [] := keyed_eq_nil_iff.2 ho
    have hk := happ.keyed_single hse.key
    refine ⟨?_, fun key hne => ?_, fun key => ?_⟩
    · rcases hsn with rfl | rfl
      · refine ⟨e, ?_, rfl, hse.conversation.trans hc.2, hse.sender.trans hc.1⟩
        simpa [hfr] using hk c.request.idempotencyKey
      · exact connectionClosed_ne
    · rw [hk, if_neg]
      rintro rfl
      exact hne hfr
    · rw [hk]
      split_ifs with heq
      · simp [heq, hfr]
      · exact hu key
  | refused hs herr =>
    refine ⟨fun he => ?_, hq hs⟩
    obtain ⟨dir, now, id, fault, rfl, hne⟩ := herr he
    exact hne (keyed_eq_nil_iff.2 ho)

theorem MessageWorld.KeyInv.step {w' : MessageWorld} {act : MessageAction} (h : w.KeyInv)
    (ho : w.KeepsKeys act) (hs : w.step lower act = some w') : w'.KeyInv := by
  have hn : ∀ {db' : Db} {es : List ConversationEventRow}, w.db.Appends db' es →
      (∀ e ∈ es, e.clientMsgId = none) → ({ w with db := db' } : MessageWorld).KeyInv := by
    intro db' es ha hes
    refine ⟨fun key => ?_, fun c hc => ?_⟩
    · rw [ha.keyed_of_none hes]
      exact h.unique key
    · exact (h.calls c hc).keeps (keepsKeyed_of_eq (ha.keyed_of_none hes))
  cases act with simp only [MessageWorld.step] at hs
  | begin request =>
    cases hs
    exact ⟨h.unique, forall_mem_snoc h.calls trivial⟩
  | send i op =>
    split at hs
    · cases hs
    rename_i c hi
    obtain ⟨⟨db', c'⟩, hca, rfl⟩ := map_eq_some_iff.1 hs
    obtain ⟨hc', hk, hu⟩ := (h.calls c (mem_of_getElem? hi)).step h.unique
      (ho c hi) (moves_of_step hca)
    exact ⟨hu, forall_mem_set (fun d hd => (h.calls d hd).keeps hk) hc'⟩
  | sendToGroup now messageId agentId groupName groups content contentType metadata fault =>
    split at hs <;> cases hs
    · exact h
    · exact h
    next hse =>
      obtain ⟨e, hkey, -, -, ha⟩ := sendToGroup_eq_ok hse
      exact hn ha (by simpa using hkey)
  | call call fault =>
    split_ifs at hs with hb
    split at hs <;> cases hs
    · exact h
    · exact h
    next hex =>
      obtain ⟨es, ha, hq⟩ := exec_appends hex (by simpa using hb)
      exact hn ha fun e he => (hq e he).1

/-- Where no key is used across conversations or senders and none is taken between a call's lookup
and its insert, a call that returns a message returns that of the one event under its key, of its
own conversation and sender, and no call fails because its message is already stored. -/
theorem send_message_idempotent {w0 w : MessageWorld} (hca : w0.calls = [])
    (hke : ∀ key, (w0.db.keyed key).length ≤ 1)
    (hs : Steps (restrict (MessageWorld.step lower) MessageWorld.KeepsKeys) w0 w) :
    (∀ c ∈ w.calls, ∀ m, c.stage = .returned (.ok m) →
      m.conversationId = c.request.conversationId ∧ m.senderId = c.request.actorId ∧
        ∃ e, w.db.keyed c.request.idempotencyKey = [e] ∧ m = e.toMessage m.workspaceId) ∧
      ∀ c ∈ w.calls, c.stage ≠ .returned (.error noRowReturned) := by
  have h : w.KeyInv := hs.keeps MessageWorld.KeyInv.step ⟨hke, by simp [hca]⟩
  constructor
  · intro c hc m hst
    have hk := h.calls c hc
    simp only [SendCall.Kept, hst] at hk
    obtain ⟨e, hkey, hm, hco, hsdr⟩ := hk
    refine ⟨?_, ?_, e, hkey, hm⟩
    · rw [hm]
      exact hco
    · rw [hm]
      exact hsdr
  · intro c hc hst
    have hk := h.calls c hc
    simp only [SendCall.Kept, hst] at hk
    exact hk rfl

def SendCall.noRow (c : SendCall) : Bool :=
  match c.stage with
  | .returned (.error e) => e = noRowReturned
  | _ => false

def SendCall.answer? (c : SendCall) : Option Message :=
  match c.stage with
  | .returned (.ok m) => some m
  | _ => none

theorem SendCall.stage_of_answer {m : Message} (h : c.answer? = some m) :
    c.stage = .returned (.ok m) := by
  unfold answer? at h
  split at h <;> cases h
  next hst => exact hst

theorem send_message_idempotent_repeat : ∃ w : MessageWorld, ∃ c ∈ w.calls, ∃ m,
    c.answer? = some m ∧ m.serverSeq = 1 ∧ ∃ e, w.db.keyed "k1" = [e] ∧ m.id = e.eventId := by
  have hr : ((run (restrict (MessageWorld.step id) MessageWorld.KeepsKeys) { db := aliceInGeneral }
      ([.begin (aliceSends "k1" []), .begin (aliceSends "k1" [])] ++ sendSteps 0 "m1"
        ++ (sendSteps 1 "m2").take 2)).any fun w =>
      ∃ c ∈ w.calls[1]?, c.request.idempotencyKey = "k1" ∧ ∃ m ∈ c.answer?, m.serverSeq = 1) := by
    decide +kernel
  obtain ⟨w, hw, c, hc, hk, m, hm, hs⟩ := exists_steps_of_run hr
  have hmem := mem_of_getElem? hc
  obtain ⟨-, -, e, he, heq⟩ := (send_message_idempotent rfl (by simp [keyed, aliceInGeneral]) hw).1 c
    hmem m (stage_of_answer hm)
  rw [hk] at he
  exact ⟨w, c, hmem, m, hm, hs, e, he, by rw [heq]; rfl⟩

def aliceInTwo : Db :=
  { aliceInGeneral with
    conversations := aliceInGeneral.conversations ++ [⟨"random", "acme", .group, 0⟩]
    conversationMembers :=
      aliceInGeneral.conversationMembers ++ [⟨"random", "alice", 0, 0, none, none⟩] }

/-- Of two calls that have both looked their key up the second to insert fails, and a call that
reuses a key answers with the message of another conversation. -/
theorem key_race_and_reuse : (∃ w, Steps (MessageWorld.step id) { db := aliceInGeneral } w ∧
      ∃ c ∈ w.calls, c.request = aliceSends "k1" [] ∧ c.noRow ∧ (w.db.keyed "k1").length = 1) ∧
    ∃ w, Steps (MessageWorld.step id) { db := aliceInTwo } w ∧
      ∃ c ∈ w.calls, ∃ m, c.answer? = some m ∧ c.request.conversationId = "random" ∧
        m.conversationId = "general" := by
  have hr : ((run (MessageWorld.step id) { db := aliceInGeneral }
      ([.begin (aliceSends "k1" []), .begin (aliceSends "k1" [])] ++ (sendSteps 0 "m1").take 2
        ++ sendSteps 1 "m2" ++ (sendSteps 0 "m1").drop 2)).any fun w =>
      ∃ c ∈ w.calls, c.request = aliceSends "k1" [] ∧ c.noRow ∧ (w.db.keyed "k1").length = 1) := by
    decide +kernel
  have hre : ((run (MessageWorld.step id) { db := aliceInTwo } ([.begin (aliceSends "k1" []),
          .begin { aliceSends "k1" [] with conversationId := "random" }]
        ++ sendSteps 0 "m1" ++ (sendSteps 1 "m2").take 2)).any fun w =>
      ∃ c ∈ w.calls, ∃ m ∈ c.answer?, c.request.conversationId = "random" ∧
        m.conversationId = "general") := by
    decide +kernel
  refine ⟨exists_steps_of_run hr, ?_⟩
  obtain ⟨w, hw, c, hc, m, hm, ht, hf⟩ := exists_steps_of_run hre
  exact ⟨w, hw, c, hc, m, hm, ht, hf⟩

end Choruz
