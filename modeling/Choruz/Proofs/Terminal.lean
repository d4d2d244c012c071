import Choruz.Proofs.Holding

/-!
# Terminal states and the dead-letter audit

A row in `committed` or `dead_letter` is left alone by every statement that tests the status, and
by the fenced writes of an attempt's owner, whose row would be active or `succeeded`.  What
remains is the retry scheduler's write, guarded by the id alone, and a status write that comes
late.  While no call dead-letters a command without its audit row, and dead commands stay dead, a
command is in `dead_letter` if and only if it has an audit row.
-/

namespace Choruz

open Relational CommandStatus World

variable {call : Call} {answer : Answer} {db db' : Db} {x : CommandAttemptRef}

variable {now : Timestamp} {uuid : ℕ → String} {r : AgentCommand} {txn : Txn}

/-- The fenced writes that end an attempt, whatever status they find. -/
def Call.Closes (call : Call) (x : CommandAttemptRef) : Prop :=
  (∃ w, call.txn = .updateCommandStatusForAttempt w x.attemptId ∧ w.commandId = x.commandId
      ∧ w.status = .retryScheduled)
    ∨ call.txn = .markCommandCommittedForAttempt x.commandId x.attemptId
    ∨ ∃ input, call.txn = .deadLetterCommandForAttempt input x.attemptId
      ∧ input.sourceId = x.commandId

theorem Proc.request_closes {p : Proc} {choice : Choice}
    (hr : p.request now choice = some (some txn)) (hcl : Call.Closes ⟨txn, now, uuid⟩ x) :
    x ∈ p.owned := by
  unfold request at hr
  split at hr
  case h_8 id cmd rest r =>
    split at hr <;> cases hr
    rename_i a ha
    suffices href : x = cmd.ref by
      rw [href]
      exact mem_cons_self
    unfold settleTxn at hcl
    split_ifs at hcl
    · obtain ⟨w, ht, -⟩ | ht | ⟨input, ht, -⟩ := hcl <;> cases ht
    · obtain ⟨w, ht, hid, -⟩ | ht | ⟨input, ht, -⟩ := hcl
      · simp at ht
        have hc : x.commandId = cmd.commandId := by rw [← hid, ← ht.1]; rfl
        simp [AgentCommand.ref, ha, ← hc, ht.2]
      · cases ht
      · cases ht
    · obtain ⟨w, ht, -⟩ | ht | ⟨input, ht, hid⟩ := hcl
      · cases ht
      · cases ht
      · simp at ht
        have hc : x.commandId = cmd.commandId := by rw [← hid, ← ht.1]; rfl
        simp [AgentCommand.ref, ha, ← hc, ht.2]
  case h_15 y todo outcome =>
    cases hr
    obtain ⟨w, ht, -⟩ | ht | ⟨input, ht, -⟩ := hcl
    · cases ht
    · simp at ht
      rw [CommandAttemptRef.eq_of_fields ht.1.symm ht.2.symm]
      exact mem_cons_self
    · cases ht
  case h_2 =>
    cases hr
    obtain ⟨w, ht, -, hst⟩ | ht | ⟨input, ht, -⟩ := hcl
    · simp at ht
      rw [← ht.1] at hst
      cases hst
    · cases ht
    · cases ht
  case h_4 =>
    obtain ⟨c, -, heq⟩ := map_eq_some_iff.1 hr
    obtain rfl := Option.some.inj heq
    obtain ⟨w, ht, -, hst⟩ | ht | ⟨input, ht, -⟩ := hcl <;> cases c <;> cases ht
    cases hst
  case h_9 c =>
    cases hr
    obtain ⟨w, ht, -, hst⟩ | ht | ⟨input, ht, -⟩ := hcl <;> cases c <;> cases ht
    cases hst
  all_goals try split_ifs at hr
  all_goals cases hr
  all_goals obtain ⟨w, ht, -⟩ | ht | ⟨input, ht, -⟩ := hcl <;> cases ht

theorem Txn.not_closes_of_isClient (h : txn.isClient) : ¬ Call.Closes ⟨txn, now, uuid⟩ x := by
  rintro (⟨w, ht, -⟩ | ht | ⟨input, ht, -⟩) <;> simp only at ht <;> subst ht <;> cases h

theorem Poll.not_closes (q : Poll) : ¬ Call.Closes ⟨q.txn, now, uuid⟩ x := by
  rintro (⟨w, ht, -⟩ | ht | ⟨input, ht, -⟩) <;> cases q <;> cases ht

theorem World.Held.of_closes {w : World} {op : Op} (hw : w.Held Proc.owned CommandStatus.InUse)
    (hca : call ∈ w.call? op) (hcl : call.Closes x) :
    w.store.db.Holds CommandStatus.InUse x := by
  obtain ⟨txn, now, uuid⟩ := call
  rcases call_cases hca with hc | ⟨q, rfl⟩ | ⟨p, hp, choice, hr⟩
  · exact absurd hcl (Txn.not_closes_of_isClient hc)
  · exact absurd hcl q.not_closes
  · exact hw p hp x (Proc.request_closes hr hcl)

def CommandStatus.Terminal (st : CommandStatus) : Prop := st = .committed ∨ st = .deadLetter

theorem RowStep.terminal_kept {r' : AgentCommand} (h : RowStep call answer db db' r r')
    (hr : r ∈ db.agentCommands) (hg : KeepsTerminal db call) (hiss : call.txn.Issued)
    (hown : ∀ x, call.Closes x → db.Holds CommandStatus.InUse x) (hte : r.status.Terminal) :
    r'.status = r.status := by
  obtain ⟨hs, hf⟩ := hg
  have hnot : ∀ st : CommandStatus, r.status = st → ¬ st.Terminal → r'.status = r.status :=
    fun st hst hn => absurd (hst ▸ hte) hn
  have hi : r.status.isActive → r'.status = r.status := fun ha => by
    rcases hte with h | h <;> rw [h] at ha <;> cases ha
  have hop : r.status.isOpen → r'.status = r.status := fun ha => by
    rcases hte with h | h <;> rw [h] at ha <;> cases ha
  have hc : ∀ a, db.ownedBy a r → call.Closes ⟨r.commandId, a⟩ →
      r'.status = r.status := fun a ho hcl => by
    rcases hown _ hcl r hr rfl (Db.ownedBy_eq_true.1 ho).1 with ha | hst
    · exact hi ha
    · exact hnot _ hst (by simp [CommandStatus.Terminal])
  cases h with
  | keep | cap => rfl
  | lease _ hst =>
    rcases hst with hst | ⟨hst, -⟩ <;> exact hnot _ hst (by simp [CommandStatus.Terminal])
  | write ht hid =>
    unfold FreshSchedulerWrite at hs
    rw [ht] at hs
    exact hnot _ (hs r hr hid) (by simp [CommandStatus.Terminal])
  | @fencedWrite w a ht hid ho =>
    unfold FreshStatusWrite at hf
    rw [ht] at hf hiss
    rcases hiss with hw | hw | hw
    · exact hi (hf (by rw [hw]; rfl) r hr hid ho)
    · exact hi (hf (by rw [hw]; rfl) r hr hid ho)
    · exact hc a ho (.inl ⟨w, ht, hid.symm, hw⟩)
  | succeed _ _ ha | expireDead _ _ _ ha | expireRetry _ _ _ ha => exact hi ha
  | commit ht ho => exact hc _ ho (.inr (.inl ht))
  | deadLetter ht hid ho => exact hc _ ho (.inr (.inr ⟨_, ht, hid.symm⟩))
  | hostBeat _ ho | hostCommit _ ho | hostFail _ ho =>
    exact hi (Db.hostOwned_eq_true.1 ho).2.2
  | sweep _ hst => exact hnot _ hst (by simp [CommandStatus.Terminal])
  | retire _ _ hst =>
    rcases hst with hst | hst <;> exact hnot _ hst (by simp [CommandStatus.Terminal])
  | revoke _ hst =>
    simp [Db.openOnHost] at hst
    exact hop hst.2
  | requeue _ _ hst =>
    simp [Db.openOfAgent] at hst
    exact hop hst.2

/-- What holds along a run that keeps terminal rows. -/
structure TerminalInv (w : World) : Prop where
  dispatched : Dispatched w
  held : w.Held Proc.owned CommandStatus.InUse

theorem TerminalInv.start (hd : db.Initial) : TerminalInv (start db) :=
  ⟨Dispatched.start hd, fun _ hp => absurd hp not_mem_nil⟩

variable {w w' : World} {op : Op}

theorem TerminalInv.step (hi : TerminalInv w) (hg : w.Meets FreshSchedulerWrite op)
    (h : w.step op = some w') : TerminalInv w' :=
  ⟨hi.dispatched.step h, hi.held.step tracks_owned hi.dispatched hg h⟩

theorem TerminalInv.row_kept (hi : TerminalInv w) (hg : w.Meets KeepsTerminal op)
    (h : w.step op = some w') (hr : r ∈ w.store.db.agentCommands) (ht : r.status.Terminal) :
    ∃ r' ∈ w'.store.db.agentCommands, r'.commandId = r.commandId ∧ r'.status = r.status := by
  rcases step_store h with heq | ⟨call, answer, db', hc, hiss, -, hx, heq⟩ <;> rw [heq]
  · exact ⟨r, hr, rfl, rfl⟩
  · obtain ⟨r', hr', hs⟩ := (exec_effect hx).row_to r hr
    exact ⟨r', hr', hs.commandId_eq, hs.terminal_kept hr (hg call hc) hiss
      (fun x hcl => hi.held.of_closes hc hcl) ht⟩

/-- A command that is committed or in the dead letters stays so. -/
theorem terminal_commands_absorbing {db0 : Db} (hd : db0.Initial)
    (hrun : World.Runs KeepsTerminal (start db0) w) {r : AgentCommand}
    (hr : r ∈ w.store.db.agentCommands) (ht : r.status = .committed ∨ r.status = .deadLetter)
    (hl : World.Runs KeepsTerminal w w') :
    ∃ r' ∈ w'.store.db.agentCommands, r'.commandId = r.commandId ∧ r'.status = r.status := by
  have hinv : TerminalInv w := hrun.invariant
    (fun hi hg h => hi.step (hg.imp fun _ _ => And.left) h) (TerminalInv.start hd)
  have hs : TerminalInv w' ∧ ∃ r' ∈ w'.store.db.agentCommands,
      r'.commandId = r.commandId ∧ r'.status = r.status := by
    refine hl.invariant (I := fun w => TerminalInv w ∧ ∃ r' ∈ w.store.db.agentCommands,
      r'.commandId = r.commandId ∧ r'.status = r.status) (fun hu hg h => ?_) ⟨hinv, r, hr, rfl, rfl⟩
    obtain ⟨hi, r1, hr1, hid1, hst1⟩ := hu
    obtain ⟨r2, hr2, hid2, hst2⟩ := hi.row_kept hg h hr1 (by rw [hst1]; exact ht)
    exact ⟨hi.step (hg.imp fun _ _ => And.left) h, r2, hr2, hid2.trans hid1, hst2.trans hst1⟩
  exact hs.2

def replyCommitted : List Op := [ .ofClient (.upsertSession "s" "agent" "conv"),
  .ofClient (.insertCommand (.sample "c" "s")),
  .ofPoll (.pending "node" 10), .resume 0 ["a"], .resume 0,
  { action := .run 0 (.finish (.ok "done" 0 0 none) none) },
  .resume 0, .resume 0, .resume 0, .resume 0, .resume 0, .resume 0 ["e"], .resume 0]

theorem terminal_commands_absorbing_committed :
    ∃ w w' : World, (∃ r ∈ w.store.db.agentCommands, r.status = .committed)
      ∧ ∃ r ∈ w'.store.db.agentCommands, r.status = .committed := by
  have hrun : ∃ w, run (restrict step (World.Meets KeepsTerminal)) (start {})
      replyCommitted = some w ∧ (∃ r ∈ w.store.db.agentCommands, r.status = .committed)
        ∧ ∃ w', run (restrict step (World.Meets KeepsTerminal)) w
          [.ofClient (.deadLetterStalePendingCommands 0 10) 1] = some w' :=
    ⟨_, rfl, by decide, _, rfl⟩
  obtain ⟨w, h, ⟨r, hr, hst⟩, w', h'⟩ := hrun
  obtain ⟨r', hr', -, hst'⟩ := terminal_commands_absorbing Db.initial_empty (steps_of_run h) hr
    (.inl hst) (steps_of_run h')
  exact ⟨w, w', ⟨r, hr, hst⟩, r', hr', hst'.trans hst⟩

/-- Two schedulers read the same due command.  The first requeues it, it is executed and its reply
is committed; then the second puts it back to `pending`. -/
theorem committed_command_revived : ∃ w w', Steps step (start {}) w ∧ Steps step w w'
      ∧ ∃ r ∈ w.store.db.agentCommands, r.status = .committed
        ∧ ¬ ∃ r' ∈ w'.store.db.agentCommands, r'.commandId = r.commandId
          ∧ r'.status = r.status := by
  let ops : List Op := [ .ofClient (.upsertSession "s" "agent" "conv"),
    .ofClient (.insertCommand (.sample "c" "s")), .ofPoll (.pending "node" 10), .resume 0 ["a1"],
    .ofPoll (.expired 60) 100000000, .resume 1,
    .ofPoll (.retriable 10) 1000000000000, .ofPoll (.retriable 10) 1000000000000, .resume 1,
    .ofPoll (.pending "node" 10), .resume 2 ["a2"], .resume 2,
    { action := .run 2 (.finish (.ok "done" 0 0 none) none) },
    .resume 2, .resume 2, .resume 2, .resume 2, .resume 2, .resume 2 ["e"], .resume 2]
  refine ⟨_, _, steps_of_run (show run step (start {}) ops = some _ from rfl),
    steps_of_run (show run step _ [.resume 1] = some _ from rfl), ?_⟩
  decide

variable {u : StatusWrite} {a : String}

theorem ref_mem_of_heartbeatCall {group : List AgentCommand} {hb : Option Heartbeat} {j : ℕ}
    {c a : String} (h : Proc.heartbeatCall group hb j = some (.status c a)) :
    ⟨c, a⟩ ∈ group.map AgentCommand.ref := by
  unfold Proc.heartbeatCall at h
  split at h
  next primary rest hb =>
    unfold Heartbeat.request at h
    split at h
    · cases h
    · obtain ⟨s, -, heq⟩ := map_eq_some_iff.1 h
      cases heq
    · simp at h
      obtain ⟨rfl, rfl⟩ := h
      exact mem_cons_self
  · cases h

/-- A status write of an attempt that makes its command active comes from a batch that has not
returned, or from an aborted heartbeat task. -/
theorem Proc.request_status {p : Proc} {now : Timestamp} {choice : Choice}
    (hr : p.request now choice = some (some (.updateCommandStatusForAttempt u a)))
    (ha : u.status.isActive) :
    ⟨u.commandId, a⟩ ∈ p.running ∨ p = outstanding (.status u.commandId a) := by
  unfold request at hr
  split at hr
  case h_2 =>
    obtain ⟨rfl, rfl⟩ := hr
    exact .inl mem_cons_self
  case h_4 =>
    obtain ⟨c, hc, heq⟩ := map_eq_some_iff.1 hr
    cases c with
    | session => cases heq
    | status =>
      obtain ⟨rfl, rfl⟩ := heq
      exact .inl (ref_mem_of_heartbeatCall hc)
  case h_8 =>
    split at hr
    · cases hr
    simp [settleTxn] at hr
    split_ifs at hr
    simp at hr
    rw [← hr.1] at ha
    cases ha
  case h_9 c =>
    cases c with
    | session => cases hr
    | status =>
      obtain ⟨rfl, rfl⟩ := hr
      exact .inr rfl
  all_goals try split_ifs at hr
  all_goals cases hr

/-- What holds along a run whose executor tasks await the status write. -/
structure RunningInv (w : World) : Prop where
  dispatched : Dispatched w
  held : w.Held Proc.running fun s => s.isActive
  awaited : ∀ c a, Proc.outstanding (.status c a) ∉ w.procs

theorem RunningInv.start (hd : db.Initial) : RunningInv (start db) :=
  ⟨Dispatched.start hd, fun _ hp => absurd hp not_mem_nil, fun _ _ => not_mem_nil⟩

theorem RunningInv.awaited_step (hi : RunningInv w) (hg : w.AwaitsStatusWrite op)
    (h : w.step op = some w') (c a : String) : Proc.outstanding (.status c a) ∉ w'.procs := by
  intro hm
  rcases mem_procs_cases h hm with hm | ⟨poll, ans, hs⟩
    | ⟨i, p, choice, t, ans, ha, hat, -, hn, -⟩
  · exact hi.awaited c a hm
  · rcases Poll.mem_spawn hs with ⟨_, _, h⟩ | ⟨_, h⟩ | ⟨_, h⟩ | ⟨_, h⟩ <;> cases h
  · obtain ⟨group, hb, e, j, rfl, rfl, hc⟩ := hn.to_aside.2 _ rfl
    unfold World.AwaitsStatusWrite at hg
    rw [ha] at hg
    simp [hat] at hg
    have := hg _ hc
    cases this

theorem RunningInv.step (hi : RunningInv w) (hg : w.KeepsFinished op) (h : w.step op = some w') :
    RunningInv w' :=
  ⟨hi.dispatched.step h, hi.held.step tracks_running hi.dispatched hg.1 h, hi.awaited_step hg.2 h⟩

/-- A started or heartbeating report leaves a command alone that is not under way. -/
theorem finished_attempt_not_revived {db0 : Db} (hd : db0.Initial)
    (hrun : Steps (restrict step World.KeepsFinished) (start db0) w)
    (hs : w.step op = some w') (hca : call ∈ w.call? op)
    (ht : call.txn = .updateCommandStatusForAttempt u a)
    (hu : u.status = .started ∨ u.status = .heartbeating) {r : AgentCommand}
    (hr : r ∈ w.store.db.agentCommands) (hid : r.commandId = u.commandId)
    (hf : r.status.isActive = false) : r ∈ w'.store.db.agentCommands := by
  have hi : RunningInv w := hrun.keeps RunningInv.step (.start hd)
  have hact : u.status.isActive := by
    rcases hu with h | h <;> rw [h] <;> rfl
  have hh : w.store.db.Holds (fun s => s.isActive) ⟨u.commandId, a⟩ := by
    rcases call_cases hca with hc | ⟨q, hq⟩ | ⟨p, hp, choice, hreq⟩
    · rw [ht] at hc
      cases hc
    · rw [ht] at hq
      cases q <;> cases hq
    · rw [ht] at hreq
      rcases Proc.request_status hreq hact with hx | rfl
      · exact hi.held p hp _ hx
      · exact absurd hp (hi.awaited _ _)
  rcases step_store hs with heq | ⟨call', answer, db', hc', -, -, hx, heq⟩
  · rwa [heq]
  obtain rfl := Option.some.inj (hc'.symm.trans hca)
  unfold Call.exec at hx
  simp [ht] at hx
  obtain ⟨c, hc, hcid, ho, -⟩ := updateCommandStatusInner_eq_ok (write_eq_ok hx)
  obtain rfl := eq_of_key_eq hc hr (hcid.trans hid.symm)
  have ha : c.status.isActive := hh c hc hid (Db.ownedBy_eq_true.1 (ho a rfl)).1
  cases hf.symm.trans ha

theorem finished_attempt_not_revived_expired :
    ∃ w w' : World, w.step (.resume 0) = some w' ∧ ∃ r ∈ w.store.db.agentCommands,
      r.status = .retryScheduled ∧ r ∈ w'.store.db.agentCommands := by
  let ops : List Op := [ .ofClient (.upsertSession "s" "agent" "conv"),
    .ofClient (.insertCommand (.sample "c" "s")), .ofPoll (.pending "node" 10), .resume 0 ["a"],
    .ofPoll (.expired 60) 100000000, .resume 1]
  have hrun : ∃ w, run (restrict step World.KeepsFinished) (start {}) ops = some w
      ∧ (∃ w', w.step (.resume 0) = some w') ∧ (∃ call ∈ w.call? (.resume 0),
        call.txn = .updateCommandStatusForAttempt ⟨"c", .started, none, none⟩ "a")
      ∧ ∃ r ∈ w.store.db.agentCommands, r.commandId = "c" ∧ r.status = .retryScheduled :=
    ⟨_, rfl, ⟨_, rfl⟩, ⟨_, rfl, rfl⟩, by decide⟩
  obtain ⟨w, h, ⟨w', hs⟩, ⟨call, hc, ht⟩, r, hr, hid, hst⟩ := hrun
  exact ⟨w, w', hs, r, hr, hst, finished_attempt_not_revived Db.initial_empty (steps_of_run h)
    hs hc ht (.inl rfl) hr hid (by rw [hst]; rfl)⟩

/-- The execution returns while the heartbeat task's status write is under way.  The task is
aborted, the attempt is marked succeeded, and then the write arrives and makes the command
active. -/
theorem late_beat_revives_succeeded : ∃ w w', Steps step (start {}) w ∧ w.step (.resume 0) = some w'
      ∧ ("c", "a") ∈ w.store.succeeded ∧ (∃ call ∈ w.call? (.resume 0),
        call.txn = .updateCommandStatusForAttempt ⟨"c", .heartbeating, none, none⟩ "a")
      ∧ (∃ r ∈ w.store.db.agentCommands, r.commandId = "c" ∧ r.status = .succeeded)
      ∧ ∃ r ∈ w'.store.db.agentCommands, r.commandId = "c" ∧ r.status.isActive := by
  let ops : List Op := [ .ofClient (.upsertSession "s" "agent" "conv"),
    .ofClient (.insertCommand (.sample "c" "s")),
    .ofPoll (.pending "node" 10), .resume 0 ["a"], .resume 0,
    { action := .run 0 .tick }, { action := .run 0 (.beat 0) },
    { action := .run 0 (.finish (.ok "done" 0 0 none) (some 0)) }, .resume 0]
  refine ⟨_, _, steps_of_run (show run step (start {}) ops = some _ from rfl), rfl,
    by decide, ⟨_, rfl, rfl⟩, by decide, by decide⟩

variable {db0 : Db} {input : InsertDeadLetter}

theorem Audited.exec {c : String} (ha : Audited db c) (h : call.exec db = .ok (answer, db')) :
    Audited db' c := by
  obtain ⟨d, hd, hs⟩ := ha
  obtain ⟨ds, hds, -⟩ := (exec_records h).audit
  exact ⟨d, by rw [hds]; exact mem_append_left _ hd, hs⟩

theorem RowStep.dead_cases {r r' : AgentCommand} (h : RowStep call answer db db' r r')
    (hr : r ∈ db.agentCommands) (hg : AuditsDeadLetters db call) (hi : call.txn.Issued)
    (hd : r'.status = .deadLetter) : r.status = .deadLetter ∨ Audited db' r.commandId := by
  unfold AuditsDeadLetters at hg
  cases h with
  | keep | cap => exact .inl hd
  | write ht =>
    rw [ht] at hg
    exact absurd hd hg
  | fencedWrite ht =>
    rw [ht] at hi
    have hst := hd
    simp [StatusWrite.update] at hst
    rcases hi with hw | hw | hw <;> rw [hw] at hst <;> cases hst
  | deadLetter ht _ _ _ ha =>
    rw [ht] at hi
    exact .inr (ha hi)
  | expireDead _ _ _ _ ha => exact .inr ha
  | @hostFail _ _ _ dead _ _ _ _ _ ha =>
    cases dead
    · cases hd
    · exact .inr (ha rfl)
  | sweep ht hst ho =>
    rw [ht] at hg
    exact absurd ho (hg r hr hst)
  | retire ht hac hst =>
    rw [ht] at hg
    obtain ⟨hp, hs⟩ := hg r hr hac
    exact absurd hst (not_or.2 ⟨hp, hs⟩)
  | revoke ht hst =>
    rw [ht] at hg
    rw [hg r hr] at hst
    cases hst
  | lease | succeed | commit | expireRetry | hostBeat | hostCommit | requeue => cases hd

/-- Nothing has still to be audited, dead commands are audited, and audited commands are dead. -/
structure AuditInv (w : World) : Prop where
  terminal : TerminalInv w
  settled : ∀ cmd, Proc.auditing cmd ∉ w.procs
  audited : ∀ r ∈ w.store.db.agentCommands, r.status = .deadLetter → Audited w.store.db r.commandId
  dead : ∀ d ∈ w.store.db.deadLetters, d.sourceType = "command" →
    ∃ r ∈ w.store.db.agentCommands, r.commandId = d.sourceId ∧ r.status = .deadLetter

theorem AuditInv.start (hdb : db.Initial) : AuditInv (World.start db) :=
  ⟨TerminalInv.start hdb, fun _ => not_mem_nil, fun r hr => absurd hr (hdb.not_mem r),
    fun d hd => by
      rw [show (World.start db).store.db.deadLetters = [] from hdb.deadLetters] at hd
      cases hd⟩

/-- Only the scheduler's second write audits a command by itself. -/
theorem Proc.request_insertDeadLetter {p : Proc} {now : Timestamp} {choice : Choice}
    (h : p.request now choice = some (some (.insertDeadLetter input))) :
    ∃ cmd, p = .auditing cmd := by
  unfold request at h
  split at h
  case h_4 =>
    obtain ⟨c, -, heq⟩ := map_eq_some_iff.1 h
    cases c <;> cases heq
  case h_8 =>
    split at h
    · cases h
    simp [settleTxn] at h
    split_ifs at h
  case h_9 c =>
    cases c <;> cases h
  case h_18 => exact ⟨_, rfl⟩
  all_goals try split_ifs at h
  all_goals cases h

theorem AuditInv.not_bare (hi : AuditInv w) (hca : call ∈ w.call? op)
    (ht : call.txn = .insertDeadLetter input) : input.sourceType ≠ "command" := by
  rcases World.call_cases hca with hc | ⟨q, hq⟩ | ⟨p, hp, choice, hr⟩
  · rw [ht] at hc
    simp [Txn.isClient] at hc
    rw [hc]
    decide
  · rw [ht] at hq
    cases q <;> cases hq
  · rw [ht] at hr
    obtain ⟨cmd, rfl⟩ := Proc.request_insertDeadLetter hr
    exact absurd hp (hi.settled cmd)

theorem AuditInv.settled_step (hi : AuditInv w) (hg : w.Meets AuditsDeadLetters op)
    (h : w.step op = some w') (cmd : AgentCommand) : Proc.auditing cmd ∉ w'.procs := by
  intro hm
  rcases World.mem_procs_cases h hm with hm | ⟨poll, ans, hs⟩
    | ⟨i, p, choice, t, ans, -, -, hr, hn, hc⟩
  · exact hi.settled cmd hm
  · rcases Poll.mem_spawn hs with ⟨_, _, h⟩ | ⟨_, h⟩ | ⟨_, h⟩ | ⟨_, h⟩ <;> cases h
  · obtain rfl := hn.to_aside.1 _ rfl
    cases choice with
    | advance =>
      simp [Proc.request] at hr
      have := hg _ (hc _ hr.symm)
      simp [AuditsDeadLetters] at this
    | tick | beat | finish => simp [Proc.request] at hr

theorem AuditInv.step (hi : AuditInv w) (hg : w.Meets KeepsAudit op) (h : w.step op = some w') :
    AuditInv w' := by
  have hte : w.Meets KeepsTerminal op := hg.imp fun _ _ => And.left
  have ha : w.Meets AuditsDeadLetters op := hg.imp fun _ _ => And.right
  refine ⟨hi.terminal.step (hte.imp fun _ _ => And.left) h, hi.settled_step ha h, ?_, ?_⟩
  · intro r' hr' hde
    rcases World.step_store h with heq | ⟨call, answer, db', hc, hiss, -, hx, heq⟩ <;>
      rw [heq] at hr' ⊢
    · exact hi.audited r' hr' hde
    rcases (exec_effect hx).row_of r' hr' with hn | ⟨r, hr, hs⟩
    · rw [hn.status] at hde
      cases hde
    · rw [hs.commandId_eq]
      rcases hs.dead_cases hr (ha call hc) hiss hde with ho | haud
      · exact (hi.audited r hr ho).exec hx
      · exact haud
  · intro d hd hsrc
    have hk : d ∈ w.store.db.deadLetters → ∃ r ∈ w'.store.db.agentCommands,
        r.commandId = d.sourceId ∧ r.status = .deadLetter := fun hd => by
      obtain ⟨r, hr, hid, hst⟩ := hi.dead d hd hsrc
      obtain ⟨r', hr', hid', hst'⟩ := hi.terminal.row_kept hte h hr (.inr hst)
      exact ⟨r', hr', hid'.trans hid, hst'.trans hst⟩
    rcases World.step_store h with heq | ⟨call, answer, db', hc, -, -, hx, heq⟩
    · rw [heq] at hd
      exact hk hd
    · obtain ⟨ds, hds, hn⟩ := (exec_records hx).audit
      rw [heq] at hd
      simp [Store.record] at hd
      rw [hds] at hd
      rcases mem_append.1 hd with hd | hd
      · exact hk hd
      rcases hn d hd hsrc with ⟨input, ht, hty⟩ | hrow
      · exact absurd hty (hi.not_bare hc ht)
      · rw [heq]
        exact hrow

/-- A command is in the dead-letter status exactly if a dead letter names it. -/
theorem dead_letter_audit_exact {db0 : Db} (hdb : db0.Initial)
    (hrun : World.Runs KeepsAudit (World.start db0) w) {r : AgentCommand}
    (hr : r ∈ w.store.db.agentCommands) :
    r.status = .deadLetter ↔ Audited w.store.db r.commandId := by
  have hi : AuditInv w := hrun.invariant AuditInv.step (.start hdb)
  refine ⟨hi.audited r hr, fun ⟨d, hd, hs, hid⟩ => ?_⟩
  obtain ⟨r', hr', hid', hst⟩ := hi.dead d hd hs
  rwa [← eq_of_key_eq hr' hr (hid'.trans hid)]

theorem dead_letter_audit_exact_failed :
    ∃ w : World, ∃ r ∈ w.store.db.agentCommands, r.status = .deadLetter
      ∧ Audited w.store.db r.commandId := by
  let ops : List Op := [ .ofClient (.upsertSession "s" "agent" "conv"),
    .ofClient (.insertCommand (.sample "c" "s")),
    .ofPoll (.pending "node" 10), .resume 0 ["a"], .resume 0,
    { action := .run 0 (.finish (.err "" 0) none) }, .resume 0]
  have hrun : ∃ w, run (restrict World.step (World.Meets KeepsAudit)) (World.start {}) ops = some w
      ∧ ∃ r ∈ w.store.db.agentCommands, r.status = .deadLetter := ⟨_, rfl, by decide⟩
  obtain ⟨w, h, r, hr, hst⟩ := hrun
  exact ⟨w, r, hr, hst, (dead_letter_audit_exact Db.initial_empty (steps_of_run h) hr).1 hst⟩

def accountDb : Db where
  runtimeBindings := ⟨[⟨"b", "conv", "agent", "cli", "/w", none, none, .idle, none, none,
    .ofFields [("harness_account_id", .str "acc")], 0⟩], by decide⟩
  principals := [⟨"agent", "co", "Agent", .agent, false, none⟩]
  harnessAccounts := [⟨"acc", "co", none, .active, none, none, none, none, none, 0⟩]

def commandInserted : List Op := [
  .ofClient (.upsertSession "s" "agent" "conv"), .ofClient (.insertCommand (.sample "c" "s"))]

def commandSwept : List Op :=
  commandInserted ++ [.ofClient (.deadLetterStalePendingCommands 60 10) 100000000]

def accountRetired : List Op :=
  commandInserted ++ [.ofClient (.requestAccountRetirement "co" "acc" "user")]

/-- Its attempt, left without budget by a retirement, fails, and the scheduler that finds it
exhausted stops between its two writes. -/
def schedulerStopped : List Op :=
  commandInserted ++ [.ofPoll (.pending "node" 10), .resume 0 ["a"], .resume 0,
    .ofClient (.requestAccountRetirement "co" "acc" "user"),
    { action := .run 0 (.finish (.err "kind=timeout" 0) none) }, .resume 0,
    .ofPoll (.exhausted 10), .resume 1]

/-- A command is in `dead_letter` without an audit row. -/
def Db.Unaudited (db : Db) : Prop :=
  ∃ r ∈ db.agentCommands, r.status = .deadLetter ∧ ¬ Audited db r.commandId

instance (db : Db) : Decidable db.Unaudited :=
  inferInstanceAs (Decidable (∃ r ∈ db.agentCommands, _))

theorem dead_letters_unaudited :
    (∃ w, run World.step (World.start accountDb) commandSwept = some w ∧ w.store.db.Unaudited)
      ∧ (∃ w, run World.step (World.start accountDb) accountRetired = some w ∧ w.store.db.Unaudited)
      ∧ ∃ w, run World.step (World.start accountDb) schedulerStopped = some w
        ∧ w.store.db.Unaudited := ⟨⟨_, rfl, by decide⟩, ⟨_, rfl, by decide⟩, ⟨_, rfl, by decide⟩⟩

/-- No audit row, command or session is gone, and no counter has gone back. -/
structure Db.Grows (db db' : Db) : Prop where
  audit : db.deadLetters <+: db'.deadLetters
  rows : ∀ r ∈ db.agentCommands, ∃ r' ∈ db'.agentCommands,
    r'.commandId = r.commandId ∧ r.attemptCount ≤ r'.attemptCount
  sessions : ∀ s ∈ db.sessionRegistry, ∃ s' ∈ db'.sessionRegistry,
    s'.sessionKey = s.sessionKey ∧ s.epoch ≤ s'.epoch

theorem Db.Grows.exec (hg : db0.Grows db) (h : call.exec db = .ok (answer, db')) : db0.Grows db' where
  audit := by
    obtain ⟨ds, hd, -⟩ := (exec_records h).audit
    exact hg.audit.trans ⟨ds, hd.symm⟩
  rows r0 hr0 := by
    obtain ⟨r, hr, hid, hle⟩ := hg.rows r0 hr0
    obtain ⟨r', hr', hs⟩ := (exec_effect h).row_to r hr
    have := hs.leased_cases
    exact ⟨r', hr', hs.commandId_eq.trans hid, by omega⟩
  sessions s0 hs0 := by
    obtain ⟨s, hs, hid, hle⟩ := hg.sessions s0 hs0
    obtain ⟨s', hs', hst⟩ := (exec_effect h).session_to s hs
    exact ⟨s', hs', hst.sessionKey_eq.trans hid, hle.trans hst.epoch_le⟩

/-- Events and dead letters are only appended, and no epoch and no attempt count goes back. -/
theorem run_takes_nothing_back (h : Steps World.step w w') : w.store.db.Grows w'.store.db := by
  refine h.invariant (I := fun v => w.store.db.Grows v.store.db) (fun hg hs => ?_)
    ⟨List.prefix_rfl, fun r hr => ⟨r, hr, rfl, le_rfl⟩, fun s hs => ⟨s, hs, rfl, le_rfl⟩⟩
  obtain heq | ⟨call, ans, db', -, -, -, hx, heq⟩ := World.step_store hs <;> rw [heq]
  · exact hg
  · exact hg.exec hx

theorem run_takes_nothing_back_retired : ∃ w w', run World.step (.start accountDb) accountRetired
      = some w ∧ run World.step w commandInserted = some w' ∧ w.store.db.Grows w'.store.db :=
  ⟨_, _, rfl, rfl,
    run_takes_nothing_back (steps_of_run (show run _ _ commandInserted = _ from rfl))⟩

end Choruz
