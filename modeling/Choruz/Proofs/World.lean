import Choruz.Proofs.Fencing
import Mathlib.Data.List.Perm.Basic

/-!
# Steps of the pipeline

An operation commits at most one call, so what every call keeps of the store, every run of the
pipeline keeps.  For the retry budget: leasing counts an attempt without testing it, so the bound
rests on what puts a command back to `pending` while it has attempts left.
-/

namespace Choruz

open Relational World

variable {st st' : Store} {call : Call} {fault : Fault} {ans : SessionResult Answer}

/-- A call is answered and committed, refused, committed with its answer lost, or lost. -/
theorem Store.perform_eq_some (h : st.perform call fault = some (ans, st')) : st.Fresh call ∧
      ((∃ answer db', call.exec st.db = .ok (answer, db') ∧ st' = st.record call answer db'
          ∧ (ans = .ok answer ∨ fault ≠ .none ∧ ∃ m, ans = .error (.database m)))
        ∨ st' = st ∧ ((∃ e, call.exec st.db = .error e ∧ ans = .error e)
          ∨ fault ≠ .none ∧ ∃ m, ans = .error (.database m))) := by
  unfold Store.perform at h
  split_ifs at h with hf
  refine ⟨hf, ?_⟩
  unfold Store.exec at h
  rcases hx : call.exec st.db with e | ⟨answer, db'⟩ <;> rw [hx] at h <;>
    cases fault <;> simp [Fault.outcome] at h <;> obtain ⟨rfl, rfl⟩ := h
  · exact .inr ⟨rfl, .inl ⟨e, rfl, rfl⟩⟩
  · exact .inr ⟨rfl, .inr ⟨by simp, _, rfl⟩⟩
  · exact .inr ⟨rfl, .inr ⟨by simp, _, rfl⟩⟩
  · exact .inl ⟨answer, db', rfl, rfl, .inl rfl⟩
  · exact .inr ⟨rfl, .inr ⟨by simp, _, rfl⟩⟩
  · exact .inl ⟨answer, db', rfl, rfl, .inr ⟨by simp, _, rfl⟩⟩

theorem Store.perform_answered (h : st.perform call .none = some (ans, st')) : st.Fresh call ∧
      ((∃ answer db', call.exec st.db = .ok (answer, db') ∧ st' = st.record call answer db'
          ∧ ans = .ok answer) ∨ ∃ e, call.exec st.db = .error e ∧ st' = st ∧ ans = .error e) := by
  obtain ⟨hf, ⟨answer, db', hx, hst, ha⟩ | ⟨hst, ha⟩⟩ := Store.perform_eq_some h
  · exact ⟨hf, .inl ⟨answer, db', hx, hst, ha.resolve_right fun h => h.1 rfl⟩⟩
  · obtain ⟨e, hx, ha⟩ := ha.resolve_right fun h => h.1 rfl
    exact ⟨hf, .inr ⟨e, hx, hst, ha⟩⟩

variable {w w' : World} {op : Op}

variable {txn : Txn} {next : SessionResult Answer → List Proc} {g g' : Db → Call → Prop}

theorem World.step_eq_some (h : w.step op = some w') : ∃ t next, w.begin op = some (t, next) ∧
      (t = none ∧ w' = { w with procs := next (.ok .done) } ∨ ∃ txn ans st', t = some txn
          ∧ w.store.perform ⟨txn, op.now, op.uuid⟩ op.fault = some (ans, st')
          ∧ w' = ⟨st', next ans⟩) := by
  unfold step at h
  split at h
  · cases h
  next next hb =>
    simp at h
    exact ⟨none, next, hb, .inl ⟨rfl, h.symm⟩⟩
  next t next hb =>
    rw [map_eq_some_iff] at h
    obtain ⟨⟨ans, st'⟩, hp, heq⟩ := h
    exact ⟨some t, next, hb, .inr ⟨t, ans, st', rfl, hp, heq.symm⟩⟩

theorem World.call?_eq_some (h : w.begin op = some (some txn, next)) :
    w.call? op = some ⟨txn, op.now, op.uuid⟩ := by
  simp [call?, h]

theorem HeartbeatCall.txn_issued (c : HeartbeatCall) : c.txn.Issued := by
  cases c
  · trivial
  · exact .inr (.inl rfl)

theorem settleTxn_issued (now : Timestamp) (cmd : AgentCommand) (a : String) (r : AgentResult) :
    (settleTxn now cmd a r).Issued := by
  unfold settleTxn
  split_ifs
  · trivial
  · exact .inr (.inr rfl)
  · rfl

theorem Proc.request_issued {now : Timestamp} {p : Proc} {choice : Choice}
    (h : p.request now choice = some (some txn)) : txn.Issued := by
  unfold Proc.request at h
  split at h
  case h_4 =>
    obtain ⟨c, -, heq⟩ := map_eq_some_iff.1 h
    rw [← Option.some.inj heq]
    exact c.txn_issued
  case h_8 =>
    split at h
    · cases h
    rw [← Option.some.inj (Option.some.inj h)]
    exact settleTxn_issued ..
  case h_9 =>
    rw [← Option.some.inj (Option.some.inj h)]
    exact HeartbeatCall.txn_issued _
  all_goals try split_ifs at h
  all_goals cases h
  all_goals first | trivial | exact .inl rfl | exact .inr rfl

theorem Txn.issued_of_isClient (h : txn.isClient) : txn.Issued := by
  cases txn with
  | insertCommand | insertConversationEvent => simpa [Txn.isClient, Txn.Issued] using h
  | updateCommandStatus | updateCommandStatusForAttempt | deadLetterCommandForAttempt => cases h
  | _ => trivial

/-- What an operation can do: make a client's call, begin a loop's round, or resume a process. -/
theorem World.begin_eq_some {t : Option Txn} (h : w.begin op = some (t, next)) :
    (∃ txn, txn.isClient ∧ t = some txn ∧ next = fun _ => w.procs)
      ∨ (∃ q : Poll, t = some q.txn ∧ next = fun ans => w.procs ++ q.spawn ans)
      ∨ ∃ i p choice, op.action = .run i choice ∧ w.procs[i]? = some p
        ∧ p.request op.now choice = some t
        ∧ next = fun ans => w.procs.eraseIdx i ++ p.resume choice ans := by
  unfold begin at h
  split at h
  · split_ifs at h with hc
    simp at h
    exact .inl ⟨_, hc, h.1.symm, h.2.symm⟩
  · simp at h
    exact .inr (.inl ⟨_, h.1.symm, h.2.symm⟩)
  · split at h
    · cases h
    rename_i p hp
    split_ifs at h
    rw [map_eq_some_iff] at h
    obtain ⟨t', ht', heq⟩ := h
    obtain ⟨rfl, rfl⟩ := Prod.mk.inj heq
    exact .inr (.inr ⟨_, p, _, ‹_›, hp, ht', rfl⟩)

theorem World.begin_issued (h : w.begin op = some (some txn, next)) : txn.Issued := by
  rcases begin_eq_some h with ⟨t, hc, ht, -⟩ | ⟨q, ht, -⟩ | ⟨i, p, choice, -, -, hr, -⟩
  · rw [Option.some.inj ht]
    exact Txn.issued_of_isClient hc
  · rw [Option.some.inj ht]
    cases q <;> trivial
  · exact Proc.request_issued hr

theorem World.call_cases (h : call ∈ w.call? op) : call.txn.isClient ∨ (∃ q : Poll, call.txn = q.txn)
      ∨ ∃ p ∈ w.procs, ∃ choice, p.request call.now choice = some (some call.txn) := by
  unfold call? at h
  split at h
  next t next hb =>
    obtain rfl := Option.some.inj h
    rcases begin_eq_some hb with ⟨txn, hc, ht, -⟩ | ⟨q, ht, -⟩ | ⟨i, p, choice, -, hp, hr, -⟩
    · exact .inl (by rwa [Option.some.inj ht])
    · exact .inr (.inl ⟨q, Option.some.inj ht⟩)
    · exact .inr (.inr ⟨p, mem_of_getElem? hp, choice, hr⟩)
  · cases h

/-- An operation in full: a client's call, a round of a loop, or one process resumed with the
answer to the call it requested. -/
theorem World.step_cases (h : w.step op = some w') :
    (∃ txn ans, txn.isClient ∧ w.call? op = some ⟨txn, op.now, op.uuid⟩
        ∧ w.store.perform ⟨txn, op.now, op.uuid⟩ op.fault = some (ans, w'.store)
        ∧ w'.procs = w.procs) ∨ (∃ (q : Poll) (ans : _), w.call? op = some ⟨q.txn, op.now, op.uuid⟩
        ∧ w.store.perform ⟨q.txn, op.now, op.uuid⟩ op.fault = some (ans, w'.store)
        ∧ w'.procs = w.procs ++ q.spawn ans)
      ∨ ∃ p rest choice t ans, (∃ i, op.action = .run i choice ∧ w.procs[i]? = some p)
        ∧ w.procs.Perm (p :: rest) ∧ p.request op.now choice = some t
        ∧ w'.procs = rest ++ p.resume choice ans
        ∧ (t = none ∧ w'.store = w.store ∧ w.call? op = none
          ∨ ∃ txn, t = some txn ∧ w.call? op = some ⟨txn, op.now, op.uuid⟩
            ∧ w.store.perform ⟨txn, op.now, op.uuid⟩ op.fault = some (ans, w'.store)) := by
  obtain ⟨t, next, hb, hca⟩ := step_eq_some h
  rcases begin_eq_some hb with ⟨txn, hc, rfl, rfl⟩ | ⟨q, rfl, rfl⟩ | ⟨i, p, choice, ha, hp, hr, rfl⟩
  · obtain ⟨hn, -⟩ | ⟨txn', ans, st', heq, hpe, rfl⟩ := hca
    · cases hn
    · cases heq
      exact .inl ⟨txn, ans, hc, call?_eq_some hb, hpe, rfl⟩
  · obtain ⟨hn, -⟩ | ⟨txn', ans, st', heq, hpe, rfl⟩ := hca
    · cases hn
    · cases heq
      exact .inr (.inl ⟨q, ans, call?_eq_some hb, hpe, rfl⟩)
  · have hat : ∃ i, op.action = .run i choice ∧ w.procs[i]? = some p := ⟨i, ha, hp⟩
    obtain ⟨hi, rfl⟩ := getElem?_eq_some_iff.1 hp
    have hpr := (List.getElem_cons_eraseIdx_perm hi).symm
    obtain ⟨rfl, rfl⟩ | ⟨txn', ans, st', rfl, hpe, rfl⟩ := hca
    · exact .inr (.inr ⟨_, _, choice, none, _, hat, hpr, hr, rfl,
        .inl ⟨rfl, rfl, by simp [call?, hb]⟩⟩)
    · exact .inr (.inr ⟨_, _, choice, _, ans, hat, hpr, hr, rfl,
        .inr ⟨txn', rfl, call?_eq_some hb, hpe⟩⟩)

theorem World.step_store (h : w.step op = some w') :
    w'.store = w.store ∨ ∃ call answer db', call ∈ w.call? op ∧ call.txn.Issued
      ∧ w.store.Fresh call ∧ call.exec w.store.db = .ok (answer, db')
      ∧ w'.store = w.store.record call answer db' := by
  obtain ⟨t, next, hb, ⟨-, rfl⟩ | ⟨txn, ans, st', rfl, hp, rfl⟩⟩ := step_eq_some h
  · exact .inl rfl
  obtain ⟨hf, ⟨answer, db', hx, rfl, -⟩ | ⟨rfl, -⟩⟩ := Store.perform_eq_some hp
  · exact .inr ⟨_, answer, db', call?_eq_some hb, begin_issued hb, hf, hx, rfl⟩
  · exact .inl rfl

theorem World.Meets.imp (h : w.Meets g op) (hg' : ∀ db call, g db call → g' db call) :
    w.Meets g' op := fun call hc => hg' _ _ (h call hc)

/-- What every operation that meets `g` keeps, a run whose operations meet it keeps. -/
theorem World.Runs.invariant [∀ db call, Decidable (g db call)] {I : World → Prop}
    (hs : ∀ {w op w'}, I w → w.Meets g op → w.step op = some w' → I w') (h : World.Runs g w w')
    (hw : I w) : I w' := Steps.keeps hs h hw

/-- What every committed call that meets `g` keeps, a run whose calls meet `g` keeps. -/
theorem World.Runs.store_invariant [∀ db call, Decidable (g db call)] {I : Store → Prop}
    (he : ∀ {st call ans db'}, I st → st.Fresh call → call.txn.Issued → g st.db call →
      call.exec st.db = .ok (ans, db') → I (st.record call ans db')) (h : World.Runs g w w')
    (hw : I w.store) : I w'.store := by
  refine Steps.keeps (I := fun w => I w.store) (fun hw hg hs => ?_) h hw
  rcases step_store hs with heq | ⟨call, ans, db', hc, hi, hf, hx, heq⟩
  · rw [heq]
    exact hw
  · rw [heq]
    exact he hw hf hi (hg call hc) hx

def InsertCommand.sample (c k : String) : InsertCommand where
  commandId := c
  routeId := c
  sessionKey := k
  agentId := "agent"
  conversationId := "conv"
  messageId := c
  turnId := c
  prompt := ""
  maxAttempts := defaultMaxAttempts
  metadata := .obj []

def AgentResult.sample (c a : String) : AgentResult where
  turnId := c
  attemptId := a
  commandId := c
  sessionKey := "s"
  conversationId := "conv"
  agentId := "agent"
  status := .succeeded
  content := some "hi"
  contentType := none
  error := none
  toolCallsCount := 0
  executionDurationMs := 0
  secondaryCommandAttempts := []
  traceId := none
  executionMetadata := none

def Op.ofClient (t : Txn) (now : Timestamp := 0) : Op := { action := .client t, now }

def Op.ofPoll (q : Poll) (now : Timestamp := 0) : Op := { action := .poll q, now }

def Op.resume (i : ℕ) (ids : List String := []) : Op where
  action := .run i .advance
  uuid := fun n => ids.getD n ""

def batchLeased : List Op := [ .ofClient (.upsertSession "s" "agent" "conv"),
  .ofClient (.insertCommand (.sample "c1" "s")),
  .ofClient (.insertCommand (.sample "c2" "s")),
  .ofPoll (.pending "node" 10),
  .resume 0 ["a1", "a2"]]

theorem Db.initial_empty : Db.Initial {} := ⟨rfl, rfl, rfl, rfl, by decide, by decide⟩

variable {answer : Answer} {db db' : Db}

/-- No command has more attempts than its budget, and a pending one has one left. -/
def WithinBudget (db : Db) : Prop :=
  ∀ r ∈ db.agentCommands, r.attemptCount ≤ r.maxAttempts
    ∧ (r.status = .pending → r.attemptCount < r.maxAttempts)

theorem WithinBudget.exec (hi : WithinBudget db) (hiss : call.txn.Issued)
    (hg : RequeuesWithinBudget db call) (h : call.exec db = .ok (answer, db')) :
    WithinBudget db' := by
  intro r' hr'
  rcases (exec_effect h).row_of r' hr' with hn | ⟨r, hr, hs⟩
  · obtain ⟨input, ht, hm⟩ := hn.txn
    rw [ht] at hiss
    have hm : r'.maxAttempts = 3 := hm.trans hiss
    rw [hn.count]
    omega
  · obtain ⟨hle, hp⟩ := hi r hr
    cases hs with unfold RequeuesWithinBudget at hg
    | keep => exact ⟨hle, hp⟩
    | lease _ hst =>
      have hlt : r.attemptCount < r.maxAttempts := hst.elim hp And.right
      exact ⟨by dsimp only; omega, by simp⟩
    | write ht hid =>
      rw [ht] at hg
      exact ⟨hle, fun hst => hg hst r hr hid⟩
    | fencedWrite ht =>
      rw [ht] at hiss
      refine ⟨hle, fun hst => ?_⟩
      simp [CommandStatusUpdate.apply, StatusWrite.update] at hst
      rcases hiss with hw | hw | hw <;> rw [hst] at hw <;> cases hw
    | cap _ hact =>
      refine ⟨le_max_right _ _, fun hst => ?_⟩
      rw [hst] at hact
      cases hact
    | requeue ht ha hst =>
      rw [ht] at hg
      have hlt := hg r hr (by simp [Call.closes, ht, ha, hst])
      exact ⟨hle, fun _ => hlt⟩
    | hostFail =>
      refine ⟨hle, fun hst => ?_⟩
      split_ifs at hst
    | succeed | commit | deadLetter | expireDead | expireRetry | hostBeat | hostCommit | sweep
    | retire | revoke => exact ⟨hle, fun hst => by cases hst⟩

/-- A row's attempt count is the number of times it was leased. -/
structure Counted (st : Store) : Prop where
  known : ∀ l ∈ st.issued, ∃ r ∈ st.db.agentCommands, r.commandId = l.commandId
  count : ∀ r ∈ st.db.agentCommands, (st.executions r.commandId : Int) = r.attemptCount

theorem executions_record (h : call.exec st.db = .ok (answer, db')) (c : String) :
    (st.record call answer db').executions c
      = st.executions c + ((call.leases st.db).map (·.commandId)).count c := by
  rw [← (exec_leased h).1]
  simp [Store.executions, Store.record, Function.comp_def]

theorem Counted.exec (hi : Counted st) (h : call.exec st.db = .ok (answer, db')) :
    Counted (st.record call answer db') := by
  have he := exec_effect h
  refine ⟨fun l hl => ?_, fun r' hr' => ?_⟩
  · obtain ⟨n, c, a⟩ := l
    have ho : ∃ r ∈ st.db.agentCommands, r.commandId = c := by
      rcases mem_record_issued.1 hl with hl | ⟨-, hl⟩
      · exact hi.known _ hl
      · obtain ⟨r, hr, hid⟩ := mem_leases_of_leased h hl
        exact ⟨r, leases_subset hr, hid⟩
    obtain ⟨r, hr, hid⟩ := ho
    obtain ⟨r', hr', hs⟩ := he.row_to r hr
    exact ⟨r', hr', hs.commandId_eq.trans hid⟩
  · rw [executions_record h]
    rcases he.row_of r' hr' with hnew | ⟨r, hr, hs⟩
    · have hz : st.executions r'.commandId = 0 := by
        refine List.count_eq_zero_of_not_mem fun hm => ?_
        obtain ⟨l, hl, hid⟩ := mem_map.1 hm
        obtain ⟨r, hr, hrid⟩ := hi.known l hl
        exact hnew.fresh r hr (hrid.trans hid)
      have hn : r'.commandId ∉ (call.leases st.db).map (·.commandId) := fun hm => by
        obtain ⟨r, hr, hid⟩ := mem_map.1 hm
        exact hnew.fresh r (leases_subset hr) hid
      rw [hz, List.count_eq_zero_of_not_mem hn, hnew.count]
      rfl
    · rw [hs.commandId_eq, Int.natCast_add, hi.count r hr]
      rcases hs.leased_cases with ⟨hl, -, hc⟩ | ⟨hl, hc⟩
      · rw [hc, List.count_eq_one_of_mem (leases_nodup _ _) (mem_map_of_mem hl)]
        rfl
      · have hn : r.commandId ∉ (call.leases st.db).map (·.commandId) := fun hm => by
          obtain ⟨x, hx, hid⟩ := mem_map.1 hm
          rw [eq_of_key_eq (leases_subset hx) hr hid] at hx
          exact hl hx
        rw [hc, List.count_eq_zero_of_not_mem hn, Int.natCast_zero, Int.add_zero]

/-- No command is started more often than its `max_attempts` allows. -/
theorem attempts_within_budget {db0 : Db} (hd : db0.Initial) {w : World}
    (hrun : World.Runs RequeuesWithinBudget (start db0) w) {r : AgentCommand}
    (hr : r ∈ w.store.db.agentCommands) :
    r.attemptCount ≤ r.maxAttempts ∧ (w.store.executions r.commandId : Int) ≤ r.maxAttempts := by
  have hinv : WithinBudget w.store.db ∧ Counted w.store :=
    hrun.store_invariant (I := fun st => WithinBudget st.db ∧ Counted st)
      (fun hi _ hiss hg h => ⟨hi.1.exec hiss hg h, hi.2.exec h⟩)
      ⟨fun r hr => absurd hr (hd.not_mem r), fun l hl => absurd hl not_mem_nil,
        fun r hr => absurd hr (hd.not_mem r)⟩
  have hle := (hinv.1 r hr).1
  exact ⟨hle, (hinv.2.count r hr).trans_le hle⟩

def movableDb : Db where
  runtimeBindings := ⟨[⟨"b", "conv", "agent", "cli", "/w", none, none, .idle, none, none, .obj [],
    0⟩], by decide⟩
  principals := [⟨"agent", "co", "Agent", .agent, false, none⟩]
  runtimeHosts := [⟨"h", "co", .online, none, 0⟩]

theorem movableDb_initial : movableDb.Initial := ⟨rfl, rfl, rfl, rfl, by decide, by decide⟩

def Op.move (target : Option String) : Op :=
  .ofClient (.assignBindingHost true true true "b" target)

def Op.claim (host attempt : String) : Op where
  action := .client (.claimRuntimeHostCommand host)
  uuid := fun _ => attempt

theorem attempts_within_budget_moved :
    ∃ w : World, ∃ r ∈ w.store.db.agentCommands, r.attemptCount = 2
      ∧ r.attemptCount ≤ r.maxAttempts := by
  let ops : List Op := [ .ofClient (.upsertSession "s" "agent" "conv"),
    .ofClient (.insertCommand (.sample "c" "s")), .ofPoll (.pending "node" 1), .resume 0 ["a1"],
    .move (some "h"), .claim "h" "a2"]
  have hrun : ∃ w, run (restrict step (World.Meets RequeuesWithinBudget))
      (start movableDb) ops = some w ∧ ∃ r ∈ w.store.db.agentCommands, r.attemptCount = 2 :=
    ⟨_, rfl, by decide⟩
  obtain ⟨w, h, r, hr, hc⟩ := hrun
  exact ⟨w, r, hr, hc, (attempts_within_budget movableDb_initial (steps_of_run h) hr).1⟩

/-- Each move requeues the running command without looking at its budget: after three moves it
runs for the fourth time, with a budget of three. -/
theorem moves_exceed_budget : ∃ w, Steps step (start movableDb) w
      ∧ ∃ r ∈ w.store.db.agentCommands, r.maxAttempts = defaultMaxAttempts
        ∧ ¬ r.attemptCount ≤ r.maxAttempts := by
  let ops : List Op := [ .ofClient (.upsertSession "s" "agent" "conv"),
    .ofClient (.insertCommand (.sample "c" "s")), .ofPoll (.pending "node" 1), .resume 0 ["a1"],
    .move (some "h"), .claim "h" "a2", .move none, .ofPoll (.pending "node" 1), .resume 1 ["a3"],
    .move (some "h"), .claim "h" "a4"]
  refine ⟨_, steps_of_run (show run step (start movableDb) ops = some _ from rfl), ?_⟩
  decide

end Choruz
