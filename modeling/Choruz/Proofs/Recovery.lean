import Choruz.Proofs.World

/-!
# Active commands and their sessions

While leases are taken on free sessions only, fenced sessions keep no active command and no late
status write revives one, an active command's session is active at the command's epoch, so the
lease monitor finds it once heartbeats stop.  Where a lease finds the agent free as well, the
active commands of an agent all come from one call.
-/

namespace Choruz

open Relational World CommandStatus

variable {call : Call} {answer : Answer} {db db' : Db} {r r' : AgentCommand}

/-- A row that is active after a call was leased by it, or was active before at the same attempt
and epoch. -/
theorem RowStep.active_cases (h : RowStep call answer db db' r r') (hr : r ∈ db.agentCommands)
    (hg : FreshStatusWrite db call) (hi : call.txn.Issued) (hact : r'.status.isActive) :
    (r ∈ call.leases db ∧ ∃ a, (r.commandId, a) ∈ answer.leased ∧ r'.currentAttemptId = some a
        ∧ ∃ s ∈ db'.sessionRegistry, s.sessionKey = r.sessionKey ∧ s.status = .active
          ∧ r'.currentEpoch = some s.epoch)
      ∨ r.status.isActive ∧ r'.currentAttemptId = r.currentAttemptId
        ∧ r'.currentEpoch = r.currentEpoch ∧ call.closes db r = false := by
  cases h with
  | keep hc => exact .inr ⟨hact, rfl, rfl, hc⟩
  | lease hr' _ ha hs hk hsa => exact .inl ⟨hr', _, ha, rfl, _, hs, hk, hsa, rfl⟩
  | write ht =>
    rw [ht] at hi
    rcases hi with hst | hst <;> simp [CommandStatusUpdate.apply, StatusWrite.update, hst,
      CommandStatus.isActive] at hact
  | fencedWrite ht hid ho =>
    have hold : r.status.isActive := by
      unfold FreshStatusWrite at hg
      rw [ht] at hg
      exact hg hact r hr hid ho
    exact .inr ⟨hold, by simp [CommandStatusUpdate.apply, StatusWrite.update],
      StatusWrite.apply_currentEpoch .., by simp [Call.closes, ht]⟩
  | hostBeat ht ho =>
    exact .inr ⟨(Db.hostOwned_eq_true.1 ho).2.2, rfl, rfl, by simp [Call.closes, ht]⟩
  | cap ht hold => exact .inr ⟨hold, rfl, rfl, by simp [Call.closes, ht]⟩
  | hostFail =>
    split_ifs at hact <;> cases hact
  | succeed | commit | deadLetter | expireDead | expireRetry | hostCommit | sweep | retire
  | revoke | requeue => cases hact

/-- Every active command's session is active, at the command's epoch. -/
def SessionsHeld (db : Db) : Prop :=
  ∀ r ∈ db.agentCommands, r.status.isActive → ∃ s ∈ db.sessionRegistry,
    s.sessionKey = r.sessionKey ∧ s.status = .active ∧ r.currentEpoch = some s.epoch

theorem SessionsHeld.start (hd : db.Initial) : SessionsHeld db :=
  fun r hr => absurd hr (hd.not_mem r)

theorem SessionsHeld.exec (hi : SessionsHeld db) (hiss : call.txn.Issued)
    (hg : KeepsRecoverable db call) (h : call.exec db = .ok (answer, db')) : SessionsHeld db' := by
  obtain ⟨hsta, hfr, hw⟩ := hg
  have heff := exec_effect h
  intro r' hr' ha
  rcases heff.row_of r' hr' with hn | ⟨r, hr, hst⟩
  · rw [hn.status] at ha
    cases ha
  · rw [hst.sessionKey_eq]
    rcases hst.active_cases hr hsta hiss ha with
      ⟨-, a, -, -, s, hs, hk, hsa, hep⟩ | ⟨ho, -, hep, hcl⟩
    · exact ⟨s, hs, hk, hsa, hep⟩
    obtain ⟨s, hs, hk, hsa, he⟩ := hi r hr ho
    obtain ⟨s', hs', hst'⟩ := heff.session_to s hs
    refine ⟨s', hs', hst'.sessionKey_eq.trans hk, ?_⟩
    rw [hep, he]
    cases hst' with
    | touch => exact ⟨hsa, rfl⟩
    | lease hc hck =>
      have hbu : db.sessionBusy s.sessionKey := Db.sessionBusy_eq_true.2 ⟨r, hr, hk.symm, ho⟩
      have := hfr _ hc
      rw [hck, hbu] at this
      cases this
    | release hb =>
      have hbu : db'.sessionBusy s.sessionKey :=
        Db.sessionBusy_eq_true.2 ⟨r', hr', hst.sessionKey_eq.trans hk.symm, ha⟩
      cases hb.symm.trans hbu
    | fence hf =>
      rw [hw s hs hf r hr hk.symm ho] at hcl
      cases hcl

theorem mem_checkExpiredLeases {s : Session} (hr : r ∈ db.agentCommands)
    (ha : r.status.isActive) (hs : s ∈ db.sessionRegistry)
    (hk : s.sessionKey = r.sessionKey) (hsa : s.status = .active) {now : Timestamp}
    {timeoutSecs : Int} (hb : s.lastHeartbeatAt.all (· < now - seconds timeoutSecs)) :
    ⟨s.sessionKey, r.commandId, s.epoch, r.attemptCount, r.maxAttempts⟩
      ∈ db.checkExpiredLeases now timeoutSecs := by
  unfold Db.checkExpiredLeases
  rw [mem_flatMap]
  refine ⟨s, mem_filter.2 ⟨hs, by simp [hsa, hb]⟩, mem_map.2 ⟨r, ?_, rfl⟩⟩
  exact mem_filter.2 ⟨hr, by simp [hk, ha]⟩

theorem handleLeaseExpiry_accepts (hr : r ∈ db.agentCommands) (ha : r.status.isActive)
    {expired : ExpiredLease} (hid : expired.commandId = r.commandId)
    (he : r.currentEpoch = some expired.epoch) (now : Timestamp) (uuid : ℕ → String) :
    ∃ db', db.handleLeaseExpiry now uuid expired = .ok db' := by
  have hl : db.agentCommands.lookup expired.commandId = some r := by
    rw [hid]
    exact lookup_of_mem hr
  unfold Db.handleLeaseExpiry
  simp [hl, ha]
  split_ifs <;> exact ⟨_, rfl⟩

/-- The session of an attempt under way is active at its epoch, and once its heartbeat has timed out
the lease check finds the attempt and its recovery succeeds. -/
theorem active_command_recoverable {db0 : Db} (hd : db0.Initial) {w : World}
    (hrun : World.Runs KeepsRecoverable (start db0) w) (hr : r ∈ w.store.db.agentCommands)
    (ha : r.status.isActive) :
    ∃ s ∈ w.store.db.sessionRegistry, s.sessionKey = r.sessionKey ∧ s.status = .active
      ∧ r.currentEpoch = some s.epoch
      ∧ ∀ now timeoutSecs, s.lastHeartbeatAt.all (· < now - seconds timeoutSecs) →
        ∃ expired ∈ w.store.db.checkExpiredLeases now timeoutSecs,
          expired.commandId = r.commandId ∧ ∀ now' uuid, ∃ db',
            w.store.db.handleLeaseExpiry now' uuid expired = .ok db' := by
  have hh : SessionsHeld w.store.db := hrun.store_invariant (I := fun st => SessionsHeld st.db)
      (fun hi _ hiss hg h => hi.exec hiss hg h) (SessionsHeld.start hd)
  obtain ⟨s, hs, hk, hsa, he⟩ := hh r hr ha
  refine ⟨s, hs, hk, hsa, he, fun now timeoutSecs hb => ?_⟩
  exact ⟨_, mem_checkExpiredLeases hr ha hs hk hsa hb, rfl, fun now' uuid =>
    handleLeaseExpiry_accepts hr ha rfl he now' uuid⟩

theorem active_command_recoverable_leased :
    ∃ w : World, ∃ r ∈ w.store.db.agentCommands, r.status.isActive
      ∧ ∃ s ∈ w.store.db.sessionRegistry, s.sessionKey = r.sessionKey ∧ s.status = .active
        ∧ r.currentEpoch = some s.epoch := by
  have hrun : ∃ w, run (restrict step (World.Meets KeepsRecoverable)) (start {})
      batchLeased = some w ∧ ∃ r ∈ w.store.db.agentCommands, r.status.isActive :=
    ⟨_, rfl, by decide⟩
  obtain ⟨w, h, r, hr, ha⟩ := hrun
  obtain ⟨s, hs, hk, hsa, he, -⟩ :=
    active_command_recoverable Db.initial_empty (steps_of_run h) hr ha
  exact ⟨w, r, hr, ha, s, hs, hk, hsa, he⟩

/-- Both leases expire; the monitor handles the first and stops.  The second command is still
`leased`, and its session is idle one epoch ahead. -/
theorem expired_batch_strands_second : ∃ w, Steps step (start {}) w
      ∧ ∃ r ∈ w.store.db.agentCommands, r.status.isActive
        ∧ ∀ s ∈ w.store.db.sessionRegistry, s.sessionKey = r.sessionKey →
          ¬ (s.status = .active ∧ r.currentEpoch = some s.epoch) := by
  let ops := batchLeased ++ [.ofPoll (.expired 60) 100000000, .resume 1]
  refine ⟨_, steps_of_run (show run step (start {}) ops = some _ from rfl), ?_⟩
  decide

variable {s : Session}

/-- Every active session has a command in use at its epoch. -/
def SessionsInUse (db : Db) : Prop :=
  ∀ s ∈ db.sessionRegistry, s.status = .active → ∃ r ∈ db.agentCommands,
    r.sessionKey = s.sessionKey ∧ r.currentEpoch = some s.epoch ∧ r.status.InUse

theorem fences_of_closes (hr : r ∈ db.agentCommands)
    (hk : r.sessionKey = s.sessionKey) (hc : call.closes db r)
    (he : ∀ expired, call.txn = .handleLeaseExpiry expired → s.epoch = expired.epoch) :
    call.fences db s := by
  have ha : db.hasCommand (call.closes db) s := any_eq_true.2 ⟨r, hr, by simp [hk, hc]⟩
  unfold Call.fences
  rw [ha]
  split
  next expired ht =>
    simpa using he expired ht
  · rfl

/-- A row in use at its session's epoch stays so, or ends and releases its session, or is closed
by a call that fences it. -/
theorem RowStep.inUse_cases (h : RowStep call answer db db' r r') (hr : r ∈ db.agentCommands)
    (hg : FreshSchedulerWrite db call) (hi : call.txn.Issued) (hu : r.status.InUse)
    (hk : r.sessionKey = s.sessionKey) (he : r.currentEpoch = some s.epoch) :
    r'.currentEpoch = r.currentEpoch ∧ r'.status.InUse ∨ Released db' r ∨ call.fences db s := by
  cases h with
  | keep | cap => exact .inl ⟨rfl, hu⟩
  | lease _ hst =>
    rcases hst with hst | ⟨hst, -⟩ <;> rw [hst] at hu <;> simp [CommandStatus.InUse, isActive] at hu
  | write ht hid =>
    unfold FreshSchedulerWrite at hg
    rw [ht] at hg
    rw [hg r hr hid] at hu
    simp [CommandStatus.InUse, isActive] at hu
  | @fencedWrite w _ ht _ _ hrel =>
    rw [ht] at hi
    have hs : (w.update.apply call.now r).status = w.status := rfl
    rcases hi with hw | hw | hw
    · exact .inl ⟨StatusWrite.apply_currentEpoch .., .inl (by rw [hs, hw]; rfl)⟩
    · exact .inl ⟨StatusWrite.apply_currentEpoch .., .inl (by rw [hs, hw]; rfl)⟩
    · exact .inr (.inl (hrel hw))
  | succeed => exact .inl ⟨rfl, .inr rfl⟩
  | hostBeat => exact .inl ⟨rfl, .inl rfl⟩
  | commit _ _ hrel | deadLetter _ _ _ hrel | hostCommit _ _ hrel | hostFail _ _ hrel =>
    exact .inr (.inl hrel)
  | expireDead ht hid hep | expireRetry ht hid hep =>
    refine .inr (.inr (fences_of_closes hr hk (by simp [Call.closes, ht, hid]) fun x hx => ?_))
    cases ht.symm.trans hx
    exact Option.some.inj (he.symm.trans hep)
  | sweep _ hst =>
    rw [hst] at hu
    simp [CommandStatus.InUse, isActive] at hu
  | retire _ _ hst =>
    rcases hst with hst | hst <;> rw [hst] at hu <;> simp [CommandStatus.InUse, isActive] at hu
  | revoke ht hst =>
    refine .inr (.inr (fences_of_closes hr hk (by simpa [Call.closes, ht] using hst) fun x hx => ?_))
    cases ht.symm.trans hx
  | requeue ht ha hst =>
    refine .inr (.inr (fences_of_closes hr hk (by simpa [Call.closes, ht, ha] using hst)
      fun x hx => ?_))
    cases ht.symm.trans hx

theorem RowStep.lease_epoch (h : RowStep call answer db db' r r') (hr : r ∈ call.leases db) :
    ∃ s ∈ db'.sessionRegistry, s.sessionKey = r.sessionKey ∧ r'.status = .leased
      ∧ r'.currentEpoch = some s.epoch := by
  cases h with
  | keep _ hl => exact absurd hr hl
  | lease _ _ _ hs hk => exact ⟨_, hs, hk, rfl, rfl⟩
  | write ht | fencedWrite ht | succeed ht | commit ht | deadLetter ht | expireDead ht
  | expireRetry ht | hostBeat ht | hostCommit ht | hostFail ht | sweep ht | retire ht | cap ht
  | revoke ht | requeue ht => simp [Call.leases, ht] at hr

theorem SessionsInUse.exec (hi : SessionsInUse db) (hiss : call.txn.Issued)
    (hg : FreshSchedulerWrite db call) (hh : SessionsHeld db')
    (h : call.exec db = .ok (answer, db')) : SessionsInUse db' := by
  have heff := exec_effect h
  intro s' hs' ha
  rcases heff.session_of s' hs' with hn | ⟨s, hs, hse⟩
  · rw [hn.status] at ha
    cases ha
  · cases hse with
    | touch beat u hf hl =>
      obtain ⟨r, hr, hk, he, hu⟩ := hi s hs ha
      obtain ⟨r', hr', hrow⟩ := heff.row_to r hr
      rcases hrow.inUse_cases hr hg hiss hu hk he with ⟨hep, hu'⟩ | hrel | hfe
      · exact ⟨r', hr', hrow.sessionKey_eq.trans hk, hep.trans he, hu'⟩
      · have hb := hrel _ hs' hk.symm he ha
        obtain ⟨x, hx, hxk, hxa⟩ := Db.sessionBusy_eq_true.1 hb
        obtain ⟨t, ht, htk, -, hte⟩ := hh x hx hxa
        have hty : t.sessionKey = s.sessionKey := htk.trans (hxk.trans hk)
        rw [eq_of_key_eq ht hs' hty] at hte
        exact ⟨x, hx, hxk.trans hk, hte, .inl hxa⟩
      · cases hf.symm.trans hfe
    | lease hr hk =>
      obtain ⟨r', hr', hrow⟩ := heff.row_to _ (leases_subset hr)
      obtain ⟨t, ht, htk, hst, hep⟩ := hrow.lease_epoch hr
      rw [eq_of_key_eq ht hs' (htk.trans hk)] at hep
      exact ⟨r', hr', hrow.sessionKey_eq.trans hk, hep, .inl (by rw [hst]; rfl)⟩
    | release | fence => cases ha

variable {st : Store}

def LeasedBy (st : Store) (r : AgentCommand) (n : ℕ) : Prop :=
  ∃ a, r.currentAttemptId = some a ∧ ⟨n, r.commandId, a⟩ ∈ st.issued

theorem LeasedBy.leaseCall_eq (hi : LeaseInv st) {r : AgentCommand} {n : ℕ}
    (h : LeasedBy st r n) : st.leaseCall r = some n := by
  obtain ⟨a, ha, hm⟩ := h
  unfold Store.leaseCall
  rcases hf : st.issued.find? fun l =>
      l.commandId = r.commandId && some l.attemptId = r.currentAttemptId with _ | l
  · have := find?_eq_none.1 hf _ hm
    simp [ha] at this
  · have hl := find?_some hf
    simp [ha] at hl
    rw [hf, hi.unique l (mem_of_find?_eq_some hf) _ hm hl.2]
    rfl

/-- Two active commands of an agent were leased by one call. -/
def OneBatch (st : Store) : Prop :=
  ∀ r1 ∈ st.db.agentCommands, ∀ r2 ∈ st.db.agentCommands, r1.agentId = r2.agentId →
    r1.status.isActive → r2.status.isActive →
    ∃ n, LeasedBy st r1 n ∧ LeasedBy st r2 n

theorem LeasesFreeAgent.not_busy (hg : LeasesFreeAgent db call) {c : AgentCommand}
    (hc : c ∈ call.leases db) : db.agentBusy c.agentId = false := by
  unfold LeasesFreeAgent at hg
  split at hg
  · rename_i host ht
    rw [Call.leases, ht] at hc
    obtain ⟨⟨c', b⟩, hca, rfl⟩ := mem_map.1 hc
    exact (claimCandidate_eq_some (mem_toList.1 hca)).2.1
  · exact hg c hc

theorem OneBatch.exec (hi : OneBatch st) (hiss : call.txn.Issued) (hg : KeepsOneBatch st.db call)
    (h : call.exec st.db = .ok (answer, db')) : OneBatch (st.record call answer db') := by
  have he := exec_effect h
  have hrow : ∀ r' ∈ db'.agentCommands, r'.status.isActive →
      ∃ r ∈ st.db.agentCommands, r'.agentId = r.agentId ∧
        (r ∈ call.leases st.db ∧ LeasedBy (st.record call answer db') r' st.calls
          ∨ r.status.isActive ∧ ∀ n, LeasedBy st r n →
            LeasedBy (st.record call answer db') r' n) := fun r' hr' hact => by
    rcases he.row_of r' hr' with hn | ⟨r, hr, hs⟩
    · rw [hn.status] at hact
      cases hact
    · refine ⟨r, hr, hs.agentId_eq, ?_⟩
      rcases hs.active_cases hr hg.1 hiss hact with ⟨hl, a, ha, hatt, -⟩ | ⟨ho, hatt, -, -⟩
      · refine .inl ⟨hl, a, hatt, ?_⟩
        rw [hs.commandId_eq]
        exact mem_record_issued.2 (.inr ⟨rfl, ha⟩)
      · refine .inr ⟨ho, fun n ⟨a, ha, hm⟩ => ⟨a, hatt.trans ha, ?_⟩⟩
        rw [hs.commandId_eq]
        exact mem_record_issued.2 (.inl hm)
  intro r1' hr1' r2' hr2' hag ha1 ha2
  obtain ⟨r1, hr1, hag1, h1⟩ := hrow r1' hr1' ha1
  obtain ⟨r2, hr2, hag2, h2⟩ := hrow r2' hr2' ha2
  have hag : r1.agentId = r2.agentId := by rw [← hag1, hag, hag2]
  have hb : ∀ x ∈ st.db.agentCommands, ∀ c ∈ call.leases st.db, x.agentId = c.agentId →
      x.status.isActive → False := fun x hx c hc hxc hxa => by
    have := hg.2.not_busy hc
    rw [Db.agentBusy_eq_true.2 ⟨x, hx, hxc, hxa⟩] at this
    cases this
  rcases h1 with ⟨hl1, hn1⟩ | ⟨ho1, hk1⟩ <;> rcases h2 with ⟨hl2, hn2⟩ | ⟨ho2, hk2⟩
  · exact ⟨st.calls, hn1, hn2⟩
  · exact (hb r2 hr2 r1 hl1 hag.symm ho2).elim
  · exact (hb r1 hr1 r2 hl2 hag ho1).elim
  · obtain ⟨n, hn1, hn2⟩ := hi r1 hr1 r2 hr2 hag ho1 ho2
    exact ⟨n, hk1 n hn1, hk2 n hn2⟩

/-- The attempts of one agent that are under way were leased by one call. -/
theorem one_batch_per_agent {db0 : Db} (hd : db0.Initial) {w : World}
    (hrun : World.Runs KeepsOneBatch (start db0) w) {r1 r2 : AgentCommand}
    (hr1 : r1 ∈ w.store.db.agentCommands) (hr2 : r2 ∈ w.store.db.agentCommands)
    (ha : r1.agentId = r2.agentId) (ha1 : r1.status.isActive) (ha2 : r2.status.isActive) :
    ∃ n, w.store.leaseCall r1 = some n ∧ w.store.leaseCall r2 = some n := by
  have hinv : OneBatch w.store ∧ LeaseInv w.store :=
    hrun.store_invariant (I := fun st => OneBatch st ∧ LeaseInv st)
      (fun hi hf hiss hg h => ⟨hi.1.exec hiss hg h, hi.2.exec hf h⟩)
      ⟨fun r hr => absurd hr (hd.not_mem r), LeaseInv.start hd⟩
  obtain ⟨n, hn1, hn2⟩ := hinv.1 r1 hr1 r2 hr2 ha ha1 ha2
  exact ⟨n, hn1.leaseCall_eq hinv.2, hn2.leaseCall_eq hinv.2⟩

theorem one_batch_per_agent_leased :
    ∃ w : World, ∃ r1 ∈ w.store.db.agentCommands, ∃ r2 ∈ w.store.db.agentCommands,
      r1.commandId ≠ r2.commandId
        ∧ ∃ n, w.store.leaseCall r1 = some n ∧ w.store.leaseCall r2 = some n := by
  have hr : ∃ w, run (restrict step (World.Meets KeepsOneBatch)) (start {})
      batchLeased = some w ∧ ∃ r1 ∈ w.store.db.agentCommands, ∃ r2 ∈ w.store.db.agentCommands,
        r1.commandId ≠ r2.commandId ∧ r1.agentId = r2.agentId ∧ r1.status.isActive
          ∧ r2.status.isActive := ⟨_, rfl, by decide⟩
  obtain ⟨w, h, r1, hr1, r2, hr2, hne, ha, ha1, ha2⟩ := hr
  exact ⟨w, r1, hr1, r2, hr2, hne,
    one_batch_per_agent Db.initial_empty (steps_of_run h) hr1 hr2 ha ha1 ha2⟩

/-- Two dispatchers read one command each, the second one a command that was committed later with
an earlier `created_at`; both leases go through. -/
theorem two_batches_in_flight : ∃ w, Steps step (start {}) w
      ∧ ∃ r1 ∈ w.store.db.agentCommands, ∃ r2 ∈ w.store.db.agentCommands,
        r1.agentId = r2.agentId ∧ r1.status.isActive ∧ r2.status.isActive
          ∧ w.store.leaseCall r1 ≠ w.store.leaseCall r2 := by
  let ops : List Op := [ .ofClient (.upsertSession "s1" "agent" "conv"),
    .ofClient (.upsertSession "s2" "agent" "conv"),
    .ofClient (.insertCommand (.sample "c1" "s1")) 10, .ofPoll (.pending "node1" 1),
    .ofClient (.insertCommand (.sample "c2" "s2")) 5, .ofPoll (.pending "node2" 1),
    .resume 0 ["a1"], .resume 0 ["a2"]]
  refine ⟨_, steps_of_run (show run step (start {}) ops = some _ from rfl), ?_⟩
  decide

end Choruz
