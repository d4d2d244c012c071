import Choruz.Proofs.EffectLease

/-!
# Attempt fencing

A row's attempt is one that was issued for it, and its epoch is at most its session's.  Attempt ids
are fresh and epochs only grow, so once a later lease or an expiry has superseded an attempt, the
row either carries another attempt or lies behind its session's epoch, and stays so.
-/

namespace Choruz

open Relational FencedWrite Store Db

variable {call : Call} {answer : Answer} {db db' : Db} {r r' : AgentCommand} {s s' : Session}

namespace RowStep

section

variable (h : RowStep call answer db db' r r')
include h

theorem commandId_eq : r'.commandId = r.commandId := by
  cases h <;> rfl

theorem sessionKey_eq : r'.sessionKey = r.sessionKey := by
  cases h <;> rfl

theorem agentId_eq : r'.agentId = r.agentId := by
  cases h <;> rfl

theorem turnId_eq : r'.turnId = r.turnId := by
  cases h <;> rfl

theorem messageId_eq : r'.messageId = r.messageId := by
  cases h <;> rfl

theorem attempt_cases : r'.currentAttemptId = r.currentAttemptId ∧ r'.currentEpoch = r.currentEpoch
      ∨ r'.currentAttemptId = none ∧ (r'.currentEpoch = r.currentEpoch ∨ r'.currentEpoch = none)
      ∨ r ∈ call.leases db ∧ r'.status = .leased ∧ ∃ a, (r.commandId, a) ∈ answer.leased
        ∧ r'.currentAttemptId = some a ∧ ∃ s ∈ db'.sessionRegistry,
          s.sessionKey = r.sessionKey ∧ s.status = .active ∧ r'.currentEpoch = some s.epoch := by
  cases h with
  | lease hr _ ha hs hk hact => exact .inr (.inr ⟨hr, rfl, _, ha, rfl, _, hs, hk, hact, rfl⟩)
  | keep | succeed | hostBeat | sweep | retire | cap => exact .inl ⟨rfl, rfl⟩
  | write | fencedWrite =>
    simp [CommandStatusUpdate.apply, StatusWrite.update]
  | commit | deadLetter | expireDead | expireRetry | hostCommit | hostFail =>
    exact .inr (.inl ⟨rfl, .inl rfl⟩)
  | revoke | requeue => exact .inr (.inl ⟨rfl, .inr rfl⟩)

theorem leased_cases : r ∈ call.leases db ∧ r'.status = .leased ∧ r'.attemptCount = r.attemptCount + 1
      ∨ r ∉ call.leases db ∧ r'.attemptCount = r.attemptCount := by
  cases h with
  | keep _ hl => exact .inr ⟨hl, rfl⟩
  | lease hr => exact .inl ⟨hr, rfl, rfl⟩
  | write ht | fencedWrite ht | succeed ht | commit ht | deadLetter ht | expireDead ht
  | expireRetry ht | hostBeat ht | hostCommit ht | hostFail ht | sweep ht | retire ht | cap ht
  | revoke ht | requeue ht => exact .inr ⟨by simp [Call.leases, ht], rfl⟩

end

end RowStep

namespace SessionStep

section

variable (h : SessionStep call db db' s s')
include h

theorem sessionKey_eq : s'.sessionKey = s.sessionKey := by
  cases h <;> rfl

theorem epoch_le : s.epoch ≤ s'.epoch := by
  cases h <;> dsimp only <;> omega

theorem epoch_lt {c : AgentCommand} (hc : c ∈ call.leases db)
    (hk : c.sessionKey = s.sessionKey) : s.epoch < s'.epoch := by
  cases h with
  | touch _ _ _ hl => exact absurd hk (hl c hc)
  | lease | fence =>
    dsimp only
    omega
  | release _ hl =>
    rw [hl] at hc
    cases hc

end

end SessionStep

theorem leases_subset {c : AgentCommand} (h : c ∈ call.leases db) : c ∈ db.agentCommands := by
  unfold Call.leases at h
  split at h
  · exact mem_of_lookup (mem_toList.1 h)
  · exact (mem_selectCommands.1 h).1
  · obtain ⟨⟨c', b⟩, hc, rfl⟩ := mem_map.1 h
    exact (claimCandidate_eq_some (mem_toList.1 hc)).1
  · cases h

theorem leaseCommands_answer {now : Timestamp} {uuid : ℕ → String} {epochs : List (String × Int)} :
    ∀ {cs : List AgentCommand} {i : ℕ} {ls : List (String × LeaseAssignment)} {db db' : Db},
      db.leaseCommands now uuid epochs cs i = .ok (ls, db') →
      ls.map (fun l => l.1) = cs.map (·.commandId)
        ∧ ls.map (fun l => l.2.attemptId) = (List.range' i cs.length).map uuid
  | [], i, ls, db, db', h => by
    cases h
    exact ⟨rfl, rfl⟩
  | c :: cs, i, ls, db, db', h => by
    unfold leaseCommands at h
    split at h
    · cases h
    split at h <;> cases h
    rename_i hr
    obtain ⟨hi, ha⟩ := leaseCommands_answer hr
    simp [hi, ha, List.range'_succ]

theorem exec_leased (h : call.exec db = .ok (answer, db')) :
    answer.leased.map Prod.fst = (call.leases db).map (·.commandId)
      ∧ ∃ n ≤ call.draws, answer.leased.map Prod.snd = (List.range n).map call.uuid := by
  have hn : answer.leased = [] → call.leases db = [] →
      answer.leased.map Prod.fst = (call.leases db).map (·.commandId)
        ∧ ∃ n ≤ call.draws, answer.leased.map Prod.snd = (List.range n).map call.uuid :=
    fun h hl => ⟨by simp [h, hl], 0, Nat.zero_le _, by simp [h]⟩
  unfold Call.exec at h
  cases ht : call.txn with rw [ht] at h
  | assignLease c node =>
    obtain ⟨⟨l, db1⟩, hl, heq⟩ := map_eq_ok.1 h
    obtain ⟨rfl, -⟩ := Prod.mk.inj heq
    unfold assignLease at hl
    split at hl
    · cases hl
    rename_i row hr
    split_ifs at hl
    split at hl <;> cases hl
    exact ⟨by simp [Answer.leased, Call.leases, ht, hr, key_of_lookup hr], 1,
      by simp [Call.draws, ht], by simp [Answer.leased]⟩
  | assignBatchLeases ids node =>
    obtain ⟨⟨ls, db1⟩, hl, heq⟩ := map_eq_ok.1 h
    obtain ⟨rfl, -⟩ := Prod.mk.inj heq
    rcases assignBatchLeases_eq_ok hl with ⟨rfl, rfl, -⟩ | ⟨hlen, -, epochs, db1, -, hcom⟩
    · refine hn rfl ?_
      simp [Call.leases, ht, selectCommands]
    · obtain ⟨hi, ha⟩ := leaseCommands_answer hcom
      refine ⟨?_, ids.length, by simp [Call.draws, ht], ?_⟩
      · rw [Answer.leased, map_map, Call.leases, ht]
        exact hi
      · rw [Answer.leased, map_map, List.range_eq_range', ← hlen]
        exact ha
  | claimRuntimeHostCommand host =>
    obtain ⟨⟨claimed, db1⟩, hl, heq⟩ := map_eq_ok.1 h
    obtain ⟨rfl, -⟩ := Prod.mk.inj heq
    unfold claimRuntimeHostCommand at hl
    split at hl
    next hc =>
      cases hl
      exact hn rfl (by simp [Call.leases, ht, hc])
    next c b hc =>
      split at hl <;> cases hl
      exact ⟨by simp [Answer.leased, Call.leases, ht, hc], 1, by simp [Call.draws, ht],
        by simp [Answer.leased]⟩
  | _ =>
    refine hn ?_ (by simp [Call.leases, ht])
    first
      | (obtain ⟨_, -, heq⟩ := map_eq_ok.1 h
         obtain ⟨rfl, -⟩ := Prod.mk.inj heq
         rfl)
      | (simp at h
         rw [← h.1]
         rfl)
      | (simp only at h
         split at h
         · cases h
         simp at h
         rw [← h.1]
         rfl)

theorem mem_leases_of_leased (h : call.exec db = .ok (answer, db')) {c a : String}
    (hl : (c, a) ∈ answer.leased) : ∃ r ∈ call.leases db, r.commandId = c := by
  have hm : c ∈ (call.leases db).map (·.commandId) := by
    rw [← (exec_leased h).1]
    exact mem_map.2 ⟨_, hl, rfl⟩
  exact mem_map.1 hm

theorem leases_nodup (call : Call) (db : Db) : ((call.leases db).map (·.commandId)).Nodup := by
  unfold Call.leases
  split
  · cases db.agentCommands.lookup _ <;> simp
  · exact selectCommands_nodup ..
  · cases db.claimCandidate _ _ <;> simp
  · simp

variable {st st' : Store}

theorem Store.step_eq_some (h : st.step call = some st') :
    st' = st ∨ ∃ ans db', st.Fresh call ∧ call.exec st.db = .ok (ans, db')
      ∧ st' = st.record call ans db' := by
  unfold step at h
  split_ifs at h with hf
  unfold exec at h
  rcases hx : call.exec st.db with e | ⟨ans, db'⟩ <;> rw [hx] at h
  · simp only [Except.map, Option.some.injEq] at h
    exact .inl h.symm
  · simp only [Except.map, Option.some.injEq] at h
    exact .inr ⟨ans, db', hf, rfl, h.symm⟩

theorem Store.Fresh.not_issued (hf : st.Fresh call) (h : call.exec st.db = .ok (answer, db'))
    {c a : String} (ha : (c, a) ∈ answer.leased) : ∀ l ∈ st.issued, l.attemptId ≠ a := by
  obtain ⟨-, n, hn, hatt⟩ := exec_leased h
  have hm : a ∈ (List.range n).map call.uuid := by
    rw [← hatt]
    exact mem_map.2 ⟨_, ha, rfl⟩
  obtain ⟨i, hi, rfl⟩ := mem_map.1 hm
  exact (hf.2 i (lt_of_lt_of_le (List.mem_range.1 hi) hn)).1

theorem Store.Fresh.leased_nodup (hf : st.Fresh call)
    (h : call.exec st.db = .ok (answer, db')) : (answer.leased.map Prod.snd).Nodup := by
  obtain ⟨-, n, hn, ha⟩ := exec_leased h
  rw [ha]
  exact hf.1.sublist ((List.range_sublist.2 hn).map _)

/-- What holds of the leases in every reachable store. -/
structure LeaseInv (st : Store) : Prop where
  /-- A row's attempt was issued for it. -/
  issued : ∀ r ∈ st.db.agentCommands, ∀ a, r.currentAttemptId = some a →
    ∃ n, ⟨n, r.commandId, a⟩ ∈ st.issued
  /-- A row with an attempt has the epoch it was leased at. -/
  epoch : ∀ r ∈ st.db.agentCommands, r.currentAttemptId ≠ none → r.currentEpoch ≠ none
  /-- Its session has not fallen behind it. -/
  bounded : ∀ r ∈ st.db.agentCommands, ∀ e, r.currentEpoch = some e →
    ∃ s ∈ st.db.sessionRegistry, s.sessionKey = r.sessionKey ∧ e ≤ s.epoch
  /-- A lease was taken by a call that has been made. -/
  past : ∀ l ∈ st.issued, l.call < st.calls
  /-- An attempt was issued once. -/
  unique : ∀ l ∈ st.issued, ∀ l' ∈ st.issued, l.attemptId = l'.attemptId → l = l'

theorem Db.Initial.not_mem (hd : db.Initial) (r : AgentCommand) : ¬ r ∈ db.agentCommands := by
  rw [mem_def, hd.commands]
  exact not_mem_nil

theorem LeaseInv.start (hd : db.Initial) : LeaseInv { db } :=
  ⟨fun r hr => absurd hr (hd.not_mem r), fun r hr => absurd hr (hd.not_mem r),
    fun r hr => absurd hr (hd.not_mem r), fun _ hl => absurd hl not_mem_nil,
    fun _ hl => absurd hl not_mem_nil⟩

theorem mem_record_issued {n : ℕ} {c a : String} :
    (⟨n, c, a⟩ : LeaseRecord) ∈ (st.record call answer db').issued ↔
      ⟨n, c, a⟩ ∈ st.issued ∨ n = st.calls ∧ (c, a) ∈ answer.leased := by
  simp only [record, mem_append, mem_map, LeaseRecord.mk.injEq, Prod.exists]
  constructor
  · rintro (h | ⟨_, _, h, rfl, rfl, rfl⟩)
    · exact .inl h
    · exact .inr ⟨rfl, h⟩
  · rintro (h | ⟨rfl, h⟩)
    · exact .inl h
    · exact .inr ⟨c, a, h, rfl, rfl, rfl⟩

theorem LeaseInv.exec (hi : LeaseInv st) (hf : st.Fresh call)
    (h : call.exec st.db = .ok (answer, db')) : LeaseInv (st.record call answer db') := by
  have heff := exec_effect h
  refine ⟨fun r' hr' a ha => ?_, fun r' hr' ha => ?_, fun r' hr' e he => ?_, fun l hl => ?_,
    fun l hl l' hl' heq => ?_⟩
  · rcases heff.row_of r' hr' with hnew | ⟨r, hr, hst⟩
    · rw [hnew.attempt] at ha
      cases ha
    · rw [hst.commandId_eq]
      rcases hst.attempt_cases with ⟨heq, -⟩ | ⟨heq, -⟩ | ⟨-, -, b, hb, heq, -⟩ <;> rw [heq] at ha
      · obtain ⟨n, hn⟩ := hi.issued r hr a ha
        exact ⟨n, mem_record_issued.2 (.inl hn)⟩
      · cases ha
      · cases ha
        exact ⟨st.calls, mem_record_issued.2 (.inr ⟨rfl, hb⟩)⟩
  · rcases heff.row_of r' hr' with hnew | ⟨r, hr, hst⟩
    · exact absurd hnew.attempt ha
    · rcases hst.attempt_cases with ⟨heq, hep⟩ | ⟨heq, -⟩ | ⟨-, -, b, -, -, s, -, -, -, hep⟩
      · rw [hep]
        exact hi.epoch r hr (by rwa [← heq])
      · exact absurd heq ha
      · rw [hep]
        exact Option.some_ne_none _
  · rcases heff.row_of r' hr' with hnew | ⟨r, hr, hst⟩
    · rw [hnew.epoch] at he
      cases he
    · have ho : r.currentEpoch = some e → ∃ s ∈ db'.sessionRegistry,
          s.sessionKey = r.sessionKey ∧ e ≤ s.epoch := fun he => by
        obtain ⟨s, hs, hk, hle⟩ := hi.bounded r hr e he
        obtain ⟨s', hs', hst'⟩ := heff.session_to s hs
        exact ⟨s', hs', hst'.sessionKey_eq.trans hk, hle.trans hst'.epoch_le⟩
      rw [hst.sessionKey_eq]
      rcases hst.attempt_cases with ⟨-, hep⟩ | ⟨-, hep | hep⟩ | ⟨-, -, _, -, -, s, hs, hk, -, hep⟩
      · exact ho (by rwa [← hep])
      · exact ho (by rwa [← hep])
      · cases hep.symm.trans he
      · cases hep.symm.trans he
        exact ⟨s, hs, hk, le_refl _⟩
  · show l.call < st.calls + 1
    obtain ⟨n, c, a⟩ := l
    rcases mem_record_issued.1 hl with hl | ⟨rfl, -⟩
    · exact Nat.lt_succ_of_lt (hi.past _ hl)
    · exact Nat.lt_succ_self _
  · obtain ⟨n, c, a⟩ := l
    obtain ⟨n', c', a'⟩ := l'
    obtain rfl : a = a' := heq
    rw [mem_record_issued] at hl hl'
    rcases hl with hl | ⟨rfl, hl⟩ <;> rcases hl' with hl' | ⟨rfl, hl'⟩
    · exact hi.unique _ hl _ hl' rfl
    · exact absurd rfl (hf.not_issued h hl' _ hl)
    · exact absurd rfl (hf.not_issued h hl _ hl')
    · have := inj_on_of_nodup_map (hf.leased_nodup h) hl hl' rfl
      rw [(Prod.mk.inj this).1]

theorem LeaseInv.steps (h : Steps step st st') (hi : LeaseInv st) : LeaseInv st' :=
  h.invariant (fun hs ht => by
    rcases step_eq_some ht with rfl | ⟨answer, db', hf, hx, rfl⟩
    · exact hs
    · exact hs.exec hf hx) hi

/-- The attempt was issued for the command, and the row, if it still carries it, lies behind its
session's epoch. -/
structure Superseded (st : Store) (c a : String) : Prop where
  issued : ∃ n, ⟨n, c, a⟩ ∈ st.issued
  behind : ∀ r ∈ st.db.agentCommands, r.commandId = c → r.currentAttemptId = some a →
    ∃ e, r.currentEpoch = some e ∧ ∃ s ∈ st.db.sessionRegistry,
      s.sessionKey = r.sessionKey ∧ e < s.epoch

variable {c a : String}

theorem Superseded.exec (hs : Superseded st c a) (hf : st.Fresh call)
    (h : call.exec st.db = .ok (answer, db')) : Superseded (st.record call answer db') c a := by
  obtain ⟨n, hn⟩ := hs.issued
  refine ⟨⟨n, mem_record_issued.2 (.inl hn)⟩, fun r' hr' hid ha => ?_⟩
  have heff := exec_effect h
  rcases heff.row_of r' hr' with hnew | ⟨r, hr, hst⟩
  · rw [hnew.attempt] at ha
    cases ha
  · rw [hst.commandId_eq] at hid
    rcases hst.attempt_cases with ⟨heq, hep⟩ | ⟨heq, -⟩ | ⟨-, -, b, hb, heq, -⟩ <;> rw [heq] at ha
    · obtain ⟨e, he, s, hm, hk, hlt⟩ := hs.behind r hr hid ha
      obtain ⟨s', hs', hst'⟩ := heff.session_to s hm
      refine ⟨e, hep.trans he, s', hs', ?_, lt_of_lt_of_le hlt hst'.epoch_le⟩
      rw [hst'.sessionKey_eq, hk, hst.sessionKey_eq]
    · cases ha
    · cases ha
      exact absurd rfl (hf.not_issued h hb _ hn)

theorem Superseded.steps (h : Steps step st st') (hs : Superseded st c a) : Superseded st' c a :=
  h.invariant (I := fun st => Superseded st c a) (fun hs ht => by
    rcases step_eq_some ht with rfl | ⟨answer, db', hf, hx, rfl⟩
    · exact hs
    · exact hs.exec hf hx) hs

theorem RowStep.expired_attempt {expired : ExpiredLease} (h : RowStep call answer db db' r r')
    (ht : call.txn = .handleLeaseExpiry expired) (hid : r.commandId = expired.commandId) :
    r'.currentAttemptId = none := by
  cases h with
  | keep hc => simp [Call.closes, ht, hid] at hc
  | lease hr => simp [Call.leases, ht] at hr
  | expireDead | expireRetry | commit | deadLetter | hostCommit | hostFail | revoke | requeue => rfl
  | write ht' | fencedWrite ht' | succeed ht' | hostBeat ht' | sweep ht' | retire ht' | cap ht' =>
    cases ht.symm.trans ht'

theorem superseded_of_supersedes (hi : LeaseInv st) (hf : st.Fresh call)
    (h : call.exec st.db = .ok (answer, db')) (his : ∃ n, ⟨n, c, a⟩ ∈ st.issued)
    (hsup : Supersedes call answer st.db c) : Superseded (st.record call answer db') c a := by
  obtain ⟨n, hn⟩ := his
  refine ⟨⟨n, mem_record_issued.2 (.inl hn)⟩, fun r' hr' hid ha => ?_⟩
  have heff := exec_effect h
  rcases heff.row_of r' hr' with hnew | ⟨r, hr, hst⟩
  · rw [hnew.attempt] at ha
    cases ha
  · rw [hst.commandId_eq] at hid
    rcases hst.attempt_cases with ⟨heq, hep⟩ | ⟨heq, -⟩ | ⟨-, -, b, hb, heq, -⟩
    · have hra : r.currentAttemptId = some a := by rw [← heq, ha]
      obtain ⟨e, he⟩ := Option.ne_none_iff_exists'.1
        (hi.epoch r hr (by rw [hra]; exact Option.some_ne_none a))
      obtain ⟨s, hs, hk, hle⟩ := hi.bounded r hr e he
      obtain ⟨s', hs', hst'⟩ := heff.session_to s hs
      have hls : ∀ x ∈ call.leases st.db, x.sessionKey = r.sessionKey →
          ∃ e, r'.currentEpoch = some e ∧ ∃ s ∈ db'.sessionRegistry,
            s.sessionKey = r'.sessionKey ∧ e < s.epoch := fun x hx hxk =>
        ⟨e, hep.trans he, s', hs', by rw [hst'.sessionKey_eq, hk, hst.sessionKey_eq],
          lt_of_le_of_lt hle (hst'.epoch_lt hx (hxk.trans hk.symm))⟩
      rcases hsup with ⟨b, hb⟩ | ⟨expired, ht, rfl⟩ | ⟨l, hl, r1, hr1, r2, hr2, rfl, hid2, hk2⟩
      · obtain ⟨x, hx, hxid⟩ := mem_leases_of_leased h hb
        refine hls x hx ?_
        rw [eq_of_key_eq (leases_subset hx) hr (hxid.trans hid.symm)]
      · rw [hst.expired_attempt ht hid] at ha
        cases ha
      · obtain ⟨x, hx, hxid⟩ := mem_leases_of_leased h hl
        refine hls x hx ?_
        rw [eq_of_key_eq (leases_subset hx) hr2 (hxid.trans hid2.symm), hk2,
          eq_of_key_eq hr1 hr hid.symm]
    · cases heq.symm.trans ha
    · cases heq.symm.trans ha
      exact absurd rfl (hf.not_issued h hb _ hn)

theorem Superseded.not_owned (hs : Superseded st c a) :
    ∀ r ∈ st.db.agentCommands, r.commandId = c → st.db.ownedBy a r = false := by
  intro r hr hid
  rw [eq_false_iff]
  intro ho
  obtain ⟨ha, hep⟩ := ownedBy_eq_true.1 ho
  obtain ⟨e, he, s, hm, hk, hlt⟩ := hs.behind r hr hid ha
  have hl : st.db.sessionRegistry.lookup r.sessionKey = some s := lookup_eq_some.2 ⟨hm, hk⟩
  simp [epochCurrent, hl, he] at hep
  omega

theorem FencedWrite.exec_stale
    (h : ∀ r ∈ db.agentCommands, r.commandId = c → db.ownedBy a r = false) (w : FencedWrite)
    (now : Timestamp) (uuid : ℕ → String) :
    w.exec now uuid c a db = .error (.staleAttempt c a) := by
  have hf : ∀ p : AgentCommand → Bool, (∀ r, p r → db.ownedBy a r) →
      (db.agentCommands.lookup c).filter p = none := fun p hp => by
    rw [Option.filter_eq_none_iff]
    intro r hl hpr
    have := h r (mem_of_lookup hl) (key_of_lookup hl)
    rw [hp r hpr] at this
    cases this
  cases w with
  | status update =>
    simp [exec, updateCommandStatusForAttempt, updateCommandStatusInner, hf _ fun _ => id]
  | succeeded =>
    have := hf (fun r => db.ownedBy a r && r.status.isActive) fun r hr => by
      simp at hr
      exact hr.1
    simp [exec, markCommandSucceededForAttempt, this]
  | committed =>
    simp [exec, markCommandCommittedForAttempt, hf _ fun _ => id]
  | deadLetter input =>
    simp [exec, deadLetterCommandForAttempt, hf _ fun _ => id]
  | hostHeartbeat host =>
    have := hf (db.hostOwned host a) fun r hr => (hostOwned_eq_true.1 hr).1
    simp [exec, heartbeatRuntimeHostCommand, this]
  | hostComplete host result =>
    have := hf (db.hostOwned host a) fun r hr => (hostOwned_eq_true.1 hr).1
    simp [exec, completeRuntimeHostCommand, this]
  | reply event =>
    have hs : db.insertReplyEvent now event c a = .error (.staleAttempt c a) := by
      unfold insertReplyEvent
      split
      · rfl
      rename_i r hl
      obtain ⟨hl, he⟩ := filter_eq_some_iff.1 hl
      rw [if_pos]
      intro ha
      have := h r (mem_of_lookup hl) (key_of_lookup hl)
      rw [ownedBy_eq_true.2 ⟨ha, he⟩] at this
      cases this
    simp [exec, hs, Except.map]

/-- In every run of the session store whose status writes leave the attempt, the epoch and the count
of a command alone: once an attempt is superseded, every fenced write that carries it is stale and
changes nothing. -/
theorem superseded_attempt_is_fenced {db0 : Db} (hd : db0.Initial) {st1 st2 : Store}
    (hr : Steps step { db := db0 } st) (hf : st.Fresh call)
    (he : st.exec call = .ok (answer, st1)) (hi : ∃ n, ⟨n, c, a⟩ ∈ st.issued)
    (hsup : Supersedes call answer st.db c) (hl : Steps step st1 st2)
    (w : FencedWrite) (now : Timestamp) (uuid : ℕ → String) :
    w.exec now uuid c a st2.db = .error (.staleAttempt c a)
      ∧ st2.db.after (w.exec now uuid c a st2.db) = st2.db := by
  obtain ⟨⟨answer', db'⟩, hx, heq⟩ := map_eq_ok.1 he
  obtain ⟨rfl, rfl⟩ := Prod.mk.inj heq
  have hinv := LeaseInv.steps hr (LeaseInv.start hd)
  have hsu := (superseded_of_supersedes hinv hf hx hi hsup).steps hl
  have hs := w.exec_stale hsu.not_owned now uuid
  exact ⟨hs, by rw [hs]; rfl⟩

theorem superseded_attempt_is_fenced_expired :
    ∃ st : Store, (∃ r ∈ st.db.agentCommands, r.commandId = "c" ∧ r.status = .retryScheduled)
      ∧ succeeded.exec 0 (fun _ => "") "c" "a" st.db = .error (.staleAttempt "c" "a") := by
  let calls : List Call := [ ⟨.upsertSession "s" "agent" "conv", 0, fun _ => ""⟩,
    ⟨.insertCommand ⟨"c", "c", "s", "agent", "conv", "m", "t", "", 3, .obj []⟩, 0, fun _ => ""⟩,
    ⟨.assignLease "c" "node", 0, fun _ => "a"⟩]
  have hrun : ∃ st, run step {} calls = some st ∧ (∃ n, ⟨n, "c", "a"⟩ ∈ st.issued)
      ∧ ∃ answer st1, st.exec ⟨.handleLeaseExpiry ⟨"s", "c", 1, 1, 3⟩, 0, fun _ => ""⟩
          = .ok (answer, st1)
        ∧ ∃ r ∈ st1.db.agentCommands, r.commandId = "c" ∧ r.status = .retryScheduled :=
    ⟨_, rfl, ⟨2, by decide⟩, _, _, rfl, by decide⟩
  obtain ⟨st, h, hi, answer, st1, he, hr⟩ := hrun
  have hd : Db.Initial {} := ⟨rfl, rfl, rfl, rfl, by decide, by decide⟩
  exact ⟨st1, hr, (superseded_attempt_is_fenced hd (steps_of_run h)
    (by simp [Store.Fresh, Call.draws]) he hi (.inr (.inl ⟨_, rfl, rfl⟩)) (Steps.refl _)
    .succeeded 0 _).1⟩

def twoQueued : List Call := [⟨.upsertSession "s" "agent" "conv", 0, fun _ => ""⟩,
  ⟨.insertCommand ⟨"c", "c", "s", "agent", "conv", "m", "t", "", 3, .obj []⟩, 0, fun _ => ""⟩,
  ⟨.insertCommand ⟨"d", "d", "s", "agent", "conv", "n", "u", "", 3, .obj []⟩, 0, fun _ => ""⟩,
  ⟨.assignLease "c" "node", 0, fun _ => "a"⟩]

/-- A `CommandStatusUpdate` may also carry an epoch: set to the one the session gets next, it keeps
the attempt the owner of its command after another command of the session is leased. -/
theorem advanced_epoch_outlives_lease : ∃ st : Store, run step {} twoQueued = some st
    ∧ (∃ n, ⟨n, "c", "a"⟩ ∈ st.issued) ∧ ∃ db, st.db.updateCommandStatusForAttempt 0
        { commandId := "c", status := .started, currentEpoch := some 2 } "a" = .ok db
      ∧ Store.Fresh { st with db } ⟨.assignLease "d" "node", 0, fun _ => "b"⟩
      ∧ ∃ answer st1, Store.exec { st with db } ⟨.assignLease "d" "node", 0, fun _ => "b"⟩
          = .ok (answer, st1) ∧ Supersedes ⟨.assignLease "d" "node", 0, fun _ => "b"⟩ answer db "c"
        ∧ ∃ db', succeeded.exec 0 (fun _ => "") "c" "a" st1.db = .ok db'
          ∧ ∃ r ∈ db'.agentCommands, r.commandId = "c" ∧ r.status = .succeeded :=
  ⟨_, rfl, ⟨3, by decide⟩, _, rfl, by decide, .leases [("d", ⟨2, "b", 1⟩)], _, rfl,
    .inr (.inr ⟨("d", "b"), by decide, by decide⟩), _, rfl, by decide⟩

end Choruz
