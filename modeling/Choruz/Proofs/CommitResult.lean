import Choruz.Proofs.Marks

/-!
# `commit_result` behind the fence

A `succeeded` row keeps its attempt and epoch while nobody leases or fences its session.  While the
attempts a result lists are so fenced, no stage of `commit_result` finds them stale: it writes the
reply, or finds it written, and closes every attempt.
-/

namespace Choruz

open Relational Db Call CommitStage

variable {call : Call} {answer : Answer} {db db' : Db} {w w' : World} {op : Op}
  {x : CommandAttemptRef}

variable {r : AgentResult} {es es' : List ConversationEventRow}

/-- The command is `succeeded` and the fence of the attempt holds. -/
def Db.Current (db : Db) (x : CommandAttemptRef) : Prop :=
  ∃ r ∈ db.agentCommands, r.commandId = x.commandId ∧ r.status = .succeeded
    ∧ db.ownedBy x.attemptId r

theorem Db.epochCurrent_eq_true {r : AgentCommand} : db.epochCurrent r ↔
    ∃ s ∈ db.sessionRegistry, s.sessionKey = r.sessionKey ∧ r.currentEpoch = some s.epoch := by
  unfold epochCurrent
  constructor
  · intro h
    split at h
    · cases h
    rename_i s hl
    exact ⟨s, mem_of_lookup hl, key_of_lookup hl, by simpa using h⟩
  · rintro ⟨s, hs, hk, he⟩
    rw [lookup_eq_some.2 ⟨hs, hk⟩]
    simpa using he

theorem Db.Current.isCurrent (h : db.Current x) :
    db.commandAttemptIsCurrent x.commandId x.attemptId := by
  obtain ⟨r, hr, hid, -, ho⟩ := h
  rw [← hid, commandAttemptIsCurrent, lookup_of_mem hr]
  exact ho

theorem RowStep.succeeded_kept {r r' : AgentCommand} (h : RowStep call answer db db' r r')
    (hr : r ∈ db.agentCommands) (hg : KeepsTerminal db call) (hiss : call.txn.Issued)
    (hst : r.status = .succeeded) {a : String} (ha : r.currentAttemptId = some a)
    (hcl : ¬ call.Closes ⟨r.commandId, a⟩) :
    r'.status = .succeeded ∧ r'.currentAttemptId = r.currentAttemptId
      ∧ r'.currentEpoch = r.currentEpoch := by
  obtain ⟨hsc, hf⟩ := hg
  have hi : r.status.isActive ≠ true := by simp [hst, CommandStatus.isActive]
  have hc : r.status.isOpen ≠ true := by simp [hst, CommandStatus.isOpen]
  have how : ∀ {b}, db.ownedBy b r → b = a := fun ho =>
    Option.some.inj ((ownedBy_eq_true.1 ho).1.symm.trans ha)
  cases h with
  | keep => exact ⟨hst, rfl, rfl⟩
  | lease _ hp => rcases hp with h | ⟨h, -⟩ <;> rw [h] at hst <;> cases hst
  | write ht hid =>
    unfold FreshSchedulerWrite at hsc
    rw [ht] at hsc
    rw [hsc r hr hid] at hst
    cases hst
  | @fencedWrite u b ht hid ho =>
    unfold FreshStatusWrite at hf
    rw [ht] at hf hiss
    rcases hiss with hu | hu | hu
    · exact absurd (hf (by rw [hu]; rfl) r hr hid ho) hi
    · exact absurd (hf (by rw [hu]; rfl) r hr hid ho) hi
    · exact absurd (.inl ⟨u, by rw [ht, how ho], hid.symm, hu⟩) hcl
  | succeed _ _ hact | expireDead _ _ _ hact | expireRetry _ _ _ hact | cap _ hact =>
    exact absurd hact hi
  | commit ht ho => exact absurd (.inr (.inl (by rw [ht, how ho]))) hcl
  | deadLetter ht hid ho => exact absurd (.inr (.inr ⟨_, by rw [ht, how ho], hid.symm⟩)) hcl
  | hostBeat _ ho | hostCommit _ ho | hostFail _ ho =>
    exact absurd (hostOwned_eq_true.1 ho).2.2 hi
  | sweep _ h =>
    cases h.symm.trans hst
  | retire _ _ h => rcases h with h | h <;> rw [h] at hst <;> cases hst
  | revoke _ h =>
    simp [openOnHost] at h
    exact absurd h.2 hc
  | requeue _ _ h =>
    simp [openOfAgent] at h
    exact absurd h.2 hc

theorem Db.Current.exec (hcur : db.Current x) (hg : KeepsSucceeded db call)
    (hi : call.txn.Issued) (hcl : ¬ call.Closes x) (h : call.exec db = .ok (answer, db')) :
    db'.Current x := by
  obtain ⟨r, hr, hid, hst, ho⟩ := hcur
  obtain ⟨ha, hep⟩ := ownedBy_eq_true.1 ho
  obtain ⟨s, hs, hk, he⟩ := epochCurrent_eq_true.1 hep
  have heff := exec_effect h
  obtain ⟨r', hr', hse⟩ := heff.row_to r hr
  obtain ⟨hst', ha', he'⟩ := hse.succeeded_kept hr hg.1 hi hst ha (by rwa [hid])
  obtain ⟨s', hs', hss⟩ := heff.session_to s hs
  have heo : s'.epoch = s.epoch := by
    have hsp := hg.2 s hs
    cases hss with
    | touch | release => rfl
    | lease hc hck => exact absurd hst (hsp (.inl ⟨_, hc, hck⟩) r hr hk.symm he)
    | fence hf => exact absurd hst (hsp (.inr hf) r hr hk.symm he)
  refine ⟨r', hr', hse.commandId_eq.trans hid, hst', ownedBy_eq_true.2 ⟨ha'.trans ha, ?_⟩⟩
  refine epochCurrent_eq_true.2 ⟨s', hs', ?_, ?_⟩
  · rw [hss.sessionKey_eq, hk, hse.sessionKey_eq]
  · rw [he', he, heo]

theorem current_of_mark {now : Timestamp} {uuid : ℕ → String}
    (h : exec ⟨.markCommandSucceededForAttempt x.commandId x.attemptId, now, uuid⟩ db
      = .ok (answer, db')) : db'.Current x := by
  obtain ⟨⟨row, hr, hid, ho, hr'⟩, hse⟩ := Proc.markSucceeded_eq_ok h
  obtain ⟨ha, he⟩ := ownedBy_eq_true.1 ho
  refine ⟨_, hr', hid, rfl, ownedBy_eq_true.2 ⟨ha, ?_⟩⟩
  rw [epochCurrent_eq_true, hse]
  exact epochCurrent_eq_true.1 he

def Db.HasTurnEvent (db : Db) (turnId : String) : Prop :=
  ∃ e ∈ db.conversationEvents, e.turnId = some turnId

theorem EventStep.subset (h : EventStep call es es') : es ⊆ es' := by
  induction h with
  | refl => exact List.Subset.refl _
  | tail _ hl ih =>
    obtain ⟨e, -, rfl⟩ := hl
    exact List.subset_append_of_subset_left _ ih

theorem EventStep.replies (h : EventStep call es es') (hi : call.txn.Issued)
    (hes : ∀ e ∈ es, e.turnId.isSome → e.eventType = "reply") :
    ∀ e ∈ es', e.turnId.isSome → e.eventType = "reply" := by
  induction h with
  | refl => exact hes
  | tail _ hl ih =>
    obtain ⟨e, he, rfl⟩ := hl
    exact forall_mem_snoc ih (he.reply hi)

theorem Db.seq_lt_nextSeq {e : ConversationEventRow} (he : e ∈ db.conversationEvents) :
    e.seq < db.nextSeq e.conversationId := by
  have hm : e ∈ db.conversationEvents.filter (·.conversationId = e.conversationId) :=
    mem_filter.2 ⟨he, by simp⟩
  exact Int.lt_add_one_of_le ((le_foldl_seq _ 0).2 e hm)

/-- A reply with a fresh id collides on its turn only. -/
theorem hasTurnEvent_of_conflict {now : Timestamp} {id : String}
    (hf : ∀ e ∈ db.conversationEvents, e.eventId ≠ id)
    (h : db.insertConversationEvent now (r.replyEvent id) = none) : db.HasTurnEvent r.turnId := by
  simp [insertConversationEvent, insertEventRow] at h
  obtain ⟨e, he, hk⟩ := any_eq_true.1 h
  simp at hk
  rcases hk with ((⟨hc, hseq⟩ | hid) | ⟨hso, hm⟩) | ⟨-, ht⟩
  · have := seq_lt_nextSeq he
    rw [hc, ← hseq] at this
    exact absurd this (lt_irrefl _)
  · exact absurd hid (hf e he)
  · rw [hm] at hso
    cases hso
  · exact ⟨e, he, ht⟩

variable {now : Timestamp} {uuid : ℕ → String} {outcome : WriteOutcome}

theorem insertReply_cases {st : Store} (hf : st.Fresh ⟨.insertReplyEvent r, now, uuid⟩)
    (hcur : st.db.commandAttemptIsCurrent r.commandId r.attemptId) :
    (∃ id seq db', exec ⟨.insertReplyEvent r, now, uuid⟩ st.db = .ok (.event id seq, db')
        ∧ db'.HasTurnEvent r.turnId)
      ∨ (∃ m, exec ⟨.insertReplyEvent r, now, uuid⟩ st.db = .error (.conflict m))
        ∧ st.db.HasTurnEvent r.turnId := by
  obtain ⟨row, hl, ho⟩ := (Option.any_eq_true _ _).1 hcur
  obtain ⟨ha, hep⟩ := ownedBy_eq_true.1 ho
  have hfi := filter_eq_some_iff.2 ⟨hl, hep⟩
  rcases he : st.db.insertConversationEvent now (r.replyEvent (uuid 0)) with _ | ⟨seq, db'⟩
  · refine .inr ⟨⟨"duplicate key value violates unique constraint", ?_⟩,
      hasTurnEvent_of_conflict (hf.2 0 (by simp [draws])).2 he⟩
    simp [exec, insertReplyEvent, hfi, ha, he, Except.map]
  · refine .inl ⟨uuid 0, seq, db', ?_, ?_⟩
    · simp [exec, insertReplyEvent, hfi, ha, he]
      rfl
    simp only [insertConversationEvent, map_eq_some_iff] at he
    obtain ⟨_, hr, -, rfl⟩ := he
    obtain ⟨-, _, _, _, rfl⟩ := insertEventRow_eq_some _ hr
    exact ⟨_, mem_append_right _ mem_cons_self, rfl⟩

def Db.IsCommitted (db : Db) (commandId : String) : Prop :=
  ∃ r ∈ db.agentCommands, r.commandId = commandId ∧ r.status = .committed

theorem markCommitted_cases (db : Db) (now : Timestamp) (uuid : ℕ → String) (x : CommandAttemptRef) :
    (∃ db', exec ⟨.markCommandCommittedForAttempt x.commandId x.attemptId, now, uuid⟩ db
        = .ok (.done, db') ∧ db'.IsCommitted x.commandId)
      ∨ exec ⟨.markCommandCommittedForAttempt x.commandId x.attemptId, now, uuid⟩ db
          = .error (.staleAttempt x.commandId x.attemptId)
        ∧ db.commandAttemptIsCurrent x.commandId x.attemptId = false := by
  simp [exec, markCommandCommittedForAttempt]
  split
  next hl =>
    refine .inr ⟨rfl, ?_⟩
    unfold commandAttemptIsCurrent
    rcases hr : db.agentCommands.lookup x.commandId with _ | row
    · rfl
    · rw [hr, Option.filter_eq_none_iff] at hl
      simpa using hl row rfl
  next row hl =>
    obtain ⟨hm, hid, -⟩ := mem_of_lookup_filter hl
    exact .inl ⟨_, rfl, _, mem_updatedRow hm hid ((release_agentCommands ..).trans
      (updateCommands_agentCommands ..)), hid, rfl⟩

def AgentResult.Replied (db : Db) (r : AgentResult) : Prop :=
  r.isBlank = false → db.HasTurnEvent r.turnId

/-- The attempts a result lists are fenced for the writer until it closes them; by then the reply
is written. -/
def Proc.Delivers (db : Db) : Proc → Prop
  | settling _ todo r => ∀ x ∈ r.toClose, x ∉ todo.map AgentCommand.ref → db.Current x
  | queued r | committing r .start => ∀ x ∈ r.toClose, db.Current x
  | committing r (.mark todo outcome) => r.status = .succeeded
      ∧ outcome ≠ .skippedStaleAttempt ∧ r.Replied db
      ∧ ∀ x ∈ r.attempts, db.IsCommitted x.commandId ∨ x ∈ todo ∧ db.Current x
  | committing r _ => r.status = .succeeded ∧ ∀ x ∈ r.attempts, db.Current x
  | written r result => r.status = .succeeded →
      (∃ outcome, result = .ok outcome ∧ outcome ≠ .skippedStaleAttempt) ∧ r.Replied db
        ∧ ∀ x ∈ r.attempts, db.IsCommitted x.commandId
  | _ => True

/-- What a step leaves of the attempts `xs`, and of what is written. -/
structure Db.Carries (db db' : Db) (xs : List CommandAttemptRef) : Prop where
  current : ∀ x ∈ xs, db.Current x → db'.Current x
  committed : ∀ c, db.IsCommitted c → db'.IsCommitted c
  events : ∀ t, db.HasTurnEvent t → db'.HasTurnEvent t

theorem Proc.Delivers.mono {p : Proc} (h : p.Delivers db) (hc : db.Carries db' p.refs) :
    p.Delivers db' := by
  have hre : ∀ {r : AgentResult}, r.Replied db → r.Replied db' := fun h hb => hc.events _ (h hb)
  cases p with
  | settling id todo r =>
    exact fun x hx hn =>
      hc.current x (mem_append_right _ (r.toClose_subset hx)) (h x hx hn)
  | queued r => exact fun x hx => hc.current x (r.toClose_subset hx) (h x hx)
  | committing r stage =>
    cases stage with
    | start => exact fun x hx => hc.current x (r.toClose_subset hx) (h x hx)
    | dedup | insert => exact ⟨h.1, fun x hx => hc.current x hx (h.2 x hx)⟩
    | mark todo outcome =>
      obtain ⟨hs, ho, hr, ha⟩ := h
      exact ⟨hs, ho, hre hr, fun x hx => (ha x hx).imp (hc.committed _) fun ⟨ht, hcur⟩ =>
        ⟨ht, hc.current x (mem_append_left _ ht) hcur⟩⟩
  | written r result =>
    intro hs
    obtain ⟨ho, hr, ha⟩ := h hs
    exact ⟨ho, hre hr, fun x hx => hc.committed _ (ha x hx)⟩
  | batch | starting | executing | outstanding | expiry | exhausted | auditing | retriable =>
    trivial

theorem Proc.delivers_closing (hs : r.status = .succeeded)
    (ho : outcome ≠ .skippedStaleAttempt) (hr : r.Replied db)
    (hcur : ∀ x ∈ r.attempts, db.Current x) : (closing r outcome).Delivers db :=
  ⟨hs, ho, hr, fun x hx => .inr ⟨hx, hcur x hx⟩⟩

section Commit

variable {st st' : Store} {r : AgentResult} {stage : CommitStage} {choice : Choice}
  {t : Option Txn} {ans : SessionResult Answer}

theorem AgentResult.toClose_eq (hs : r.status = .succeeded) : r.toClose = r.attempts := if_pos hs

/-! The stages of `commit_result`, each with its call answered. -/

section

variable (hs : r.status = .succeeded) (hcur : ∀ x ∈ r.attempts, st.db.Current x)
include hs hcur

theorem Proc.delivers_start
    (hp : st.perform ⟨.commandAttemptIsCurrent r.commandId r.attemptId, now, uuid⟩ .none
      = some (ans, st')) : (committed r .start ans).Delivers st'.db := by
  have hy : st.db.commandAttemptIsCurrent r.commandId r.attemptId :=
    (hcur r.primary mem_cons_self).isCurrent
  obtain ⟨-, ⟨answer, db', hx, rfl, rfl⟩ | ⟨e, hx, -, -⟩⟩ := Store.perform_answered hp
  · simp [exec, hy] at hx
    obtain ⟨rfl, rfl⟩ := hx
    simp [committed]
    split_ifs with hb
    · exact delivers_closing hs (by simp) (fun h => by rw [hb] at h; cases h) hcur
    · exact ⟨hs, hcur⟩
  · cases hx

theorem Proc.delivers_dedup
    (hp : st.perform ⟨.turnAlreadyCommitted r.turnId, now, uuid⟩ .none = some (ans, st')) :
    (committed r .dedup ans).Delivers st'.db := by
  obtain ⟨-, ⟨answer, db', hx, rfl, rfl⟩ | ⟨e, hx, -, -⟩⟩ := Store.perform_answered hp
  · simp [exec] at hx
    obtain ⟨rfl, rfl⟩ := hx
    rcases hd : st.db.turnAlreadyCommitted r.turnId with _ | _
    · exact ⟨hs, hcur⟩
    · refine delivers_closing hs (by simp) (fun _ => ?_) hcur
      simpa [turnAlreadyCommitted, Db.HasTurnEvent, Store.record] using hd
  · cases hx

theorem Proc.delivers_insert (hc' : ∀ x ∈ r.attempts, st'.db.Current x)
    (hp : st.perform ⟨.insertReplyEvent r, now, uuid⟩ .none = some (ans, st')) :
    (committed r .insert ans).Delivers st'.db := by
  obtain ⟨hf, ha⟩ := Store.perform_answered hp
  have hy := (hcur r.primary mem_cons_self).isCurrent
  rcases insertReply_cases hf hy with ⟨id, seq, db1, hx, he⟩ | ⟨⟨m, hx⟩, he⟩
  · obtain ⟨answer, db', hx', rfl, rfl⟩ | ⟨e, hx', -, -⟩ := ha <;> rw [hx] at hx' <;> cases hx'
    exact delivers_closing hs (by simp) (fun _ => he) hc'
  · obtain ⟨answer, db', hx', -, -⟩ | ⟨e, hx', rfl, rfl⟩ := ha <;> rw [hx] at hx' <;> cases hx'
    exact delivers_closing hs (by simp) (fun _ => he) hc'

end

theorem Proc.delivers_mark {y : CommandAttemptRef} {rest : List CommandAttemptRef}
    (hd : (committing r (.mark (y :: rest) outcome)).Delivers st.db)
    (hp : st.perform ⟨.markCommandCommittedForAttempt y.commandId y.attemptId, now, uuid⟩ .none
      = some (ans, st')) (hcu : ∀ x, x ≠ y → st.db.Current x → st'.db.Current x)
    (hcom : ∀ c, st.db.IsCommitted c → st'.db.IsCommitted c)
    (he : ∀ t, st.db.HasTurnEvent t → st'.db.HasTurnEvent t) :
    (committed r (.mark (y :: rest) outcome) ans).Delivers st'.db := by
  obtain ⟨hs, ho, hr, hatt⟩ := hd
  obtain ⟨-, ha⟩ := Store.perform_answered hp
  have hh : (committed r (.mark (y :: rest) outcome) ans) = committing r (.mark rest outcome)
      ∧ (st.db.Current y → st'.db.IsCommitted y.commandId) := by
    rcases markCommitted_cases st.db now uuid y with ⟨db1, hx, hc⟩ | ⟨hx, hst⟩
    · obtain ⟨answer, db', hx', rfl, rfl⟩ | ⟨e, hx', -, -⟩ := ha <;> rw [hx] at hx' <;> cases hx'
      exact ⟨rfl, fun _ => hc⟩
    · obtain ⟨answer, db', hx', -, -⟩ | ⟨e, hx', rfl, rfl⟩ := ha <;> rw [hx] at hx' <;> cases hx'
      refine ⟨rfl, fun hcur => ?_⟩
      rw [hcur.isCurrent] at hst
      cases hst
  rw [hh.1]
  refine ⟨hs, ho, fun hb => he _ (hr hb), fun x hx => ?_⟩
  rcases hatt x hx with hc | ⟨hm, hcur⟩
  · exact .inl (hcom _ hc)
  by_cases hxy : x = y
  · subst hxy
    exact .inl (hh.2 hcur)
  · exact .inr ⟨(mem_cons.1 hm).resolve_left hxy, hcu x hxy hcur⟩

theorem Proc.delivers_committed (hd : (committing r stage).Delivers st.db)
    (hreq : (committing r stage).request now choice = some t) (hca : t = none ∧ st' = st
      ∨ ∃ txn, t = some txn ∧ st.perform ⟨txn, now, uuid⟩ .none = some (ans, st'))
    (hc : ∀ x, (∀ txn, t = some txn → ¬ Call.Closes ⟨txn, now, uuid⟩ x) →
      st.db.Current x → st'.db.Current x) (hcom : ∀ c, st.db.IsCommitted c → st'.db.IsCommitted c)
    (he : ∀ t, st.db.HasTurnEvent t → st'.db.HasTurnEvent t) :
    (committed r stage ans).Delivers st'.db := by
  have ha : choice = .advance := by
    cases choice with
    | advance => rfl
    | tick | beat | finish => simp [request] at hreq
  subst ha
  have hpe : ∀ txn, t = some txn →
      st.perform ⟨txn, now, uuid⟩ .none = some (ans, st') := fun txn ht => by
    obtain ⟨hn, -⟩ | ⟨_, heq, hp⟩ := hca
    · cases hn.symm.trans ht
    · rwa [Option.some.inj (ht.symm.trans heq)]
  cases stage with
  | start =>
    by_cases hs : r.status = .succeeded
    · simp [request, hs] at hreq
      refine delivers_start hs ?_ (hpe _ hreq.symm)
      rw [← AgentResult.toClose_eq hs]
      exact hd
    · simp [committed, hs]
      exact fun h => absurd h hs
  | dedup =>
    cases hreq
    exact delivers_dedup hd.1 hd.2 (hpe _ rfl)
  | insert =>
    cases hreq
    refine delivers_insert hd.1 hd.2 (fun x hx => hc x (fun txn ht hcl => ?_) (hd.2 x hx))
      (hpe _ rfl)
    obtain rfl := Option.some.inj ht
    obtain ⟨_, ht, -⟩ | ht | ⟨_, ht, -⟩ := hcl <;> cases ht
  | mark todo outcome =>
    cases todo with
    | nil =>
      obtain ⟨-, ho, hr, hatt⟩ := hd
      exact fun _ => ⟨⟨outcome, rfl, ho⟩, fun hb => he _ (hr hb), fun x hx =>
        hcom _ ((hatt x hx).resolve_right fun h => absurd h.1 not_mem_nil)⟩
    | cons y rest =>
      cases hreq
      refine delivers_mark hd (hpe _ rfl) (fun x hxy hcur => hc x ?_ hcur) hcom he
      intro txn ht hcl
      obtain rfl := Option.some.inj ht
      obtain ⟨_, ht, -⟩ | ht | ⟨_, ht, -⟩ := hcl
      · cases ht
      · simp at ht
        exact hxy (CommandAttemptRef.eq_of_fields ht.1.symm ht.2.symm)
      · cases ht

end Commit

end Choruz
