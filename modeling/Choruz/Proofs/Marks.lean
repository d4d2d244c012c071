import Choruz.Proofs.Terminal

/-!
# Attempts marked succeeded

The executor task marks the members of its batch one by one.  While no answer is lost, the result it
sends lists, of the attempts its batch was leased, those that were marked and no others.
-/

namespace Choruz

open Relational Store AgentResult Proc

variable {st st' : Store} {call : Call} {answer : Answer} {db' : Db} {w w' : World} {op : Op}
  {x : CommandAttemptRef}

variable {p q : Proc} {now : Timestamp} {choice : Choice} {uuid : ℕ → String} {db : Db}
  {t : Option Txn} {txn : Txn}

def Call.Acts (call : Call) (x : CommandAttemptRef) : Prop :=
  call.Closes x ∨ call.txn = .markCommandSucceededForAttempt x.commandId x.attemptId

/-- The call writes no attempt of the process's batch. -/
def Call.Spares (call : Call) (st : Store) (q : Proc) : Prop :=
  ∀ y, call.Acts y → ∃ n, st.IssuedBy n y ∧ ∀ x ∈ q.refs, ¬ st.IssuedBy n x

theorem Proc.request_marks (hreq : p.request now choice
      = some (some (.markCommandSucceededForAttempt x.commandId x.attemptId))) :
    ∃ id cmd rest r, p = settling id (cmd :: rest) r ∧ cmd.ref = x := by
  have he : Call.Ends (fun s => s.isActive)
      ⟨.markCommandSucceededForAttempt x.commandId x.attemptId, now, fun _ => ""⟩ x :=
    .inr ⟨rfl, by decide⟩
  obtain ⟨id, cmd, rest, r, hp, hr, -⟩ := request_ends (fun _ h => h) hreq he
  exact ⟨id, cmd, rest, r, hp, hr⟩

theorem Proc.request_acts (hr : p.request now choice = some (some txn))
    (ha : Call.Acts ⟨txn, now, uuid⟩ x) : x ∈ p.refs := by
  rcases ha with hc | ht
  · exact p.owned_subset_refs (request_closes hr hc)
  subst ht
  obtain ⟨id, cmd, rest, r, rfl, rfl⟩ := request_marks hr
  exact mem_cons_self

theorem Txn.not_acts_of_isClient (h : txn.isClient) : ¬ Call.Acts ⟨txn, now, uuid⟩ x := by
  rintro (hc | ht)
  · exact Txn.not_closes_of_isClient h hc
  · simp only at ht
    subst ht
    cases h

theorem Poll.not_acts (q : Poll) : ¬ Call.Acts ⟨q.txn, now, uuid⟩ x := by
  rintro (hc | ht)
  · exact q.not_closes hc
  · cases q <;> cases ht

/-- Where a process of the next world comes from: it was there and the call was not its own, a round
found it, or it is what the process resumed became. -/
theorem World.procs_cases (hd : Dispatched w) (h : w.step op = some w') (hq : q ∈ w'.procs) :
    (q ∈ w.procs ∧ ∀ call ∈ w.call? op, call.Spares w.store q)
      ∨ (∃ (poll : Poll) (ans : _), w.store.perform ⟨poll.txn, op.now, op.uuid⟩ op.fault
          = some (ans, w'.store) ∧ q ∈ poll.spawn ans)
      ∨ ∃ p ∈ w.procs, ∃ choice t ans, p.request op.now choice = some t ∧ Proc.Next choice ans p q
        ∧ (t = none ∧ w'.store = w.store
          ∨ ∃ txn, t = some txn ∧ w.call? op = some ⟨txn, op.now, op.uuid⟩
            ∧ w.store.perform ⟨txn, op.now, op.uuid⟩ op.fault = some (ans, w'.store)) := by
  rcases World.step_cases h with ⟨txn, ans, hc, hca, hp, hps⟩ | ⟨poll, ans, hca, hp, hps⟩
    | ⟨p, rest, choice, t, ans, -, hpe, hr, hps, hca⟩ <;> rw [hps] at hq
  · refine .inl ⟨hq, fun call hm y ha => ?_⟩
    obtain rfl := Option.some.inj (hca.symm.trans hm)
    exact absurd ha (Txn.not_acts_of_isClient hc)
  · rcases mem_append.1 hq with hq | hq
    · refine .inl ⟨hq, fun call hm y ha => ?_⟩
      obtain rfl := Option.some.inj (hca.symm.trans hm)
      exact absurd ha poll.not_acts
    · exact .inr (.inl ⟨poll, ans, hp, hq⟩)
  · have hpm : p ∈ w.procs := hpe.mem_iff.2 mem_cons_self
    rcases mem_append.1 hq with hq | hq
    · refine .inl ⟨hpe.mem_iff.2 (mem_cons_of_mem _ hq), fun call hm y ha => ?_⟩
      rcases hca with ⟨-, -, hno⟩ | ⟨txn, rfl, hca, -⟩
      · cases hno.symm.trans hm
      obtain rfl := Option.some.inj (hca.symm.trans hm)
      have hy := request_acts hr ha
      obtain ⟨n, hn⟩ := hd.batched p hpm
      obtain ⟨hap, -⟩ := List.pairwise_cons.1 ((hpe.pairwise_iff fun h => h.symm).1 hd.apart)
      exact ⟨n, hn y hy, fun x hx hnx => hap q hq y hy x hx n n (hn y hy) hnx rfl⟩
    · exact .inr (.inr ⟨p, hpm, choice, t, ans, hr, resume_next hr hq,
        hca.imp (fun ⟨ht, heq, _⟩ => ⟨ht, heq⟩) id⟩)

def Store.Marked (st : Store) (x : CommandAttemptRef) : Prop :=
  (x.commandId, x.attemptId) ∈ st.succeeded

theorem Store.marked_record : (st.record call answer db').Marked x ↔
    st.Marked x ∨ call.txn = .markCommandSucceededForAttempt x.commandId x.attemptId := by
  unfold Store.Marked record
  split
  next c a ht =>
    simp [ht, eq_comm]
  next hne =>
    simp
    exact fun ht => absurd ht (hne _ _)

namespace Proc

/-- What the process knows of its batch is right: its members carry attempts, and the result, once
past its primary, lists marked attempts. -/
def Sound (st : Store) : Proc → Prop
  | starting group | executing group _ => ∀ cmd ∈ group, cmd.currentAttemptId.isSome
  | settling id todo r => (∀ cmd ∈ todo, cmd.currentAttemptId.isSome) ∧ r.commandId = id
      ∧ (r.primary ∈ todo.map AgentCommand.ref
        ∨ id ∉ todo.map (·.commandId) ∧ (r.status = .succeeded → st.Marked r.primary))
      ∧ ∀ x ∈ r.secondaryCommandAttempts, st.Marked x
  | queued r | committing r _ | written r _ =>
    (r.status = .succeeded → st.Marked r.primary) ∧ ∀ x ∈ r.secondaryCommandAttempts, st.Marked x
  | _ => True

/-- The process has settled the attempt, and its result will have the attempt closed. -/
def Reported (x : CommandAttemptRef) : Proc → Prop
  | settling _ todo r => x ∈ r.toClose ∧ x ∉ todo.map AgentCommand.ref
  | queued r | committing r _ | written r _ => x ∈ r.toClose
  | _ => False

/-- Every marked attempt of the process's batch is reported. -/
def Complete (st : Store) (p : Proc) : Prop :=
  ∀ n, ∀ x ∈ p.refs, st.IssuedBy n x → ∀ y, st.IssuedBy n y → st.Marked y → p.Reported y

variable {p q : Proc}

theorem Sound.mono (hm : ∀ x, st.Marked x → st'.Marked x) (h : p.Sound st) : p.Sound st' := by
  cases p with
  | starting | executing => exact h
  | settling =>
    obtain ⟨ha, hid, hpr, hsec⟩ := h
    exact ⟨ha, hid, hpr.imp id fun ⟨hn, hp⟩ => ⟨hn, fun hs => hm _ (hp hs)⟩,
      fun x hx => hm x (hsec x hx)⟩
  | queued | committing | written => exact ⟨fun hs => hm _ (h.1 hs), fun x hx => hm x (h.2 x hx)⟩
  | batch | outstanding | expiry | exhausted | auditing | retriable => trivial

section

variable (hp : p.Complete st) (hi : LeaseInv st) (hb : p.Batched st) (hf : st.Fresh call)
  (hx : call.exec st.db = .ok (answer, db'))
include hp hi hb hf hx

/-- A process that goes on with attempts of its batch stays complete, if it reports what it had
reported and what the call marks. -/
theorem Complete.next (hs : q.refs ⊆ p.refs) (ho : ∀ y, st.Marked y → p.Reported y → q.Reported y)
    (hnew : ∀ n, ∀ x ∈ p.refs, st.IssuedBy n x → ∀ y, st.IssuedBy n y →
      call.txn = .markCommandSucceededForAttempt y.commandId y.attemptId → q.Reported y) :
    q.Complete (st.record call answer db') := by
  intro n x hxq hn y hny hma
  obtain ⟨m, hm⟩ := hb
  have hn := (grows_record hf hx m x (hm x (hs hxq)) n).1 hn
  have hny : st.IssuedBy n y := by
    rcases mem_record_issued.1 hny with hy | ⟨hc, -⟩
    · exact hy
    · have hpa := hi.past _ hn
      simp [hc] at hpa
  rcases marked_record.1 hma with hma | ht
  · exact ho y hma (hp n x (hs hxq) hn y hny hma)
  · exact hnew n x (hs hxq) hn y hny ht

theorem Complete.spared (hs : call.Spares st p) : p.Complete (st.record call answer db') := by
  refine hp.next hi hb hf hx (List.Subset.refl _) (fun _ _ h => h) fun n x hxp hn y hny ht => ?_
  obtain ⟨m, hm, hnot⟩ := hs y (.inr ht)
  have heq := hi.unique _ hm _ hny rfl
  simp at heq
  rw [heq] at hnot
  exact absurd hn (hnot x hxp)

end

theorem mem_toClose_append {r : AgentResult} (hs : r.status = .succeeded)
    {y : CommandAttemptRef} : x ∈ ({ r with
      secondaryCommandAttempts := r.secondaryCommandAttempts ++ [y] } : AgentResult).toClose
      ↔ x ∈ r.toClose ∨ x = y := by
  simp [toClose, hs, attempts, primary, or_assoc]

theorem Complete.stay (hp : p.Complete st) (hs : q.refs ⊆ p.refs)
    (ho : ∀ y, p.Reported y → q.Reported y) : q.Complete st :=
  fun n x hx hn y hny hm => ho y (hp n x (hs hx) hn y hny hm)

section Settling

variable {id : String} {cmd : AgentCommand} {rest : List AgentCommand} {r : AgentResult}

section

variable (h : (settling id (cmd :: rest) r).Sound st)
  (hnd : ((cmd :: rest).map (·.commandId)).Nodup)
include h hnd

theorem Sound.primary_eq (hid : cmd.commandId = id) : r.primary = cmd.ref := by
  obtain ⟨-, hr, hm | ⟨hn, -⟩, -⟩ := h
  · obtain ⟨cmd', hc', href⟩ := mem_map.1 hm
    rcases mem_cons.1 hc' with rfl | hc'
    · exact href.symm
    have hc : cmd'.commandId = cmd.commandId := by
      rw [hid, ← hr]
      exact congrArg CommandAttemptRef.commandId href
    exact absurd (mem_map.2 ⟨cmd', hc', hc⟩) (nodup_cons.1 hnd).1
  · exact absurd (mem_map.2 ⟨cmd, mem_cons_self, hid⟩) hn

theorem Sound.tail (hma : cmd.commandId = id → r.status = .succeeded → st.Marked cmd.ref) :
    (settling id rest r).Sound st := by
  have hpr := h.primary_eq hnd
  obtain ⟨ha, hr, hm, hs⟩ := h
  refine ⟨fun c hc => ha c (mem_cons_of_mem _ hc), hr, ?_, hs⟩
  by_cases hid : cmd.commandId = id
  · right
    rw [hpr hid, ← hid]
    exact ⟨(nodup_cons.1 hnd).1, hma hid⟩
  · rcases hm with hm | ⟨hn, hp⟩
    · rcases mem_cons.1 hm with href | hm
      · exact absurd ((congrArg CommandAttemptRef.commandId href).symm.trans hr) hid
      · exact .inl hm
    · exact .inr ⟨fun hc => hn (mem_cons_of_mem _ hc), hp⟩

end

end Settling

variable {choice : Choice} {ans : SessionResult Answer}

theorem Next.sound (h : Next choice ans p q)
    (hset : ∀ id cmd rest r, p ≠ settling id (cmd :: rest) r) (hs : p.Sound st) :
    q.Sound st ∧ ∀ y, p.Reported y → q.Reported y := by
  cases h with
  | lease _ hl =>
    refine ⟨fun cmd hcmd => ?_, fun _ h => h.elim⟩
    obtain ⟨_, -, l, -, -, rfl⟩ := (withLeases_eq_some hl).2 cmd hcmd
    rfl
  | skip | settle => exact absurd rfl (hset _ _ _ _)
  | start | beat | receive => exact ⟨hs, fun _ h => h⟩
  | @finish primary group hb e =>
    have ha := attempts_executeCommand primary e
    simp [attempts] at ha
    refine ⟨⟨fun c hc => hs c (mem_of_orderedGroup hc), congrArg CommandAttemptRef.commandId ha.1,
      .inl ?_, by simp [ha.2]⟩, fun _ h => h.elim⟩
    rw [ha.1]
    exact mem_map_of_mem (by simp [orderedGroup])
  | sent | audit => exact ⟨trivial, fun _ h => h.elim⟩
  | send =>
    obtain ⟨-, -, hpr, hsec⟩ := hs
    refine ⟨⟨?_, hsec⟩, fun _ h => h.1⟩
    rcases hpr with h | ⟨-, h⟩
    · cases h
    · exact h
  | @commit r stage =>
    rcases committed_cases r stage ans with ⟨_, h⟩ | ⟨-, -, h⟩ | ⟨-, h⟩ | ⟨_, -, -, h⟩
      | ⟨_, _, _, -, h⟩ <;> rw [h] <;> exact ⟨hs, fun _ h => h⟩

section Settle

variable {id a : String} {cmd : AgentCommand} {rest : List AgentCommand} {r : AgentResult}
  {now : Timestamp} {uuid : ℕ → String}

theorem request_settling (ha : cmd.currentAttemptId = some a)
    (hr : (settling id (cmd :: rest) r).request now choice = some t) :
    t = some (settleTxn now cmd a r) := by
  cases choice with
  | advance => simpa [request, ha] using hr.symm
  | tick | beat | finish => simp [request] at hr

theorem markSucceeded_eq_ok {c : String}
    (h : Call.exec ⟨.markCommandSucceededForAttempt c a, now, uuid⟩ db = .ok (answer, db')) :
    (∃ row ∈ db.agentCommands, row.commandId = c ∧ db.ownedBy a row
      ∧ { row with status := .succeeded, updatedAt := now } ∈ db'.agentCommands)
      ∧ db'.sessionRegistry = db.sessionRegistry := by
  have h := write_eq_ok h
  unfold Db.markCommandSucceededForAttempt at h
  split at h
  · cases h
  rename_i row hl
  obtain ⟨hm, hid, hc⟩ := Db.mem_of_lookup_filter hl
  simp at hc
  cases h
  exact ⟨⟨row, hm, hid, hc.1, mem_updatedRow hm hid (Db.updateCommands_agentCommands ..)⟩, rfl⟩

theorem markSucceeded_error {e : SessionError}
    (h : Call.exec ⟨.markCommandSucceededForAttempt cmd.commandId a, now, uuid⟩ db = .error e) :
    e = .staleAttempt cmd.commandId a := by
  simp [Call.exec, Db.markCommandSucceededForAttempt] at h
  split at h
  · exact (Except.error.inj h).symm
  · cases h

/-- How a member is settled when its write is answered: it is marked, a secondary found superseded
is passed over, or the result has failed. -/
theorem settle_cases (hq : q ∈ settled id cmd a rest r ans)
    (hp : st.perform ⟨settleTxn now cmd a r, now, uuid⟩ .none = some (ans, st')) :
    (r.status = .succeeded
        ∧ (∃ answer db', st.Fresh ⟨.markCommandSucceededForAttempt cmd.commandId a, now, uuid⟩
          ∧ Call.exec ⟨.markCommandSucceededForAttempt cmd.commandId a, now, uuid⟩ st.db
            = .ok (answer, db')
          ∧ st' = st.record ⟨.markCommandSucceededForAttempt cmd.commandId a, now, uuid⟩ answer db')
        ∧ (cmd.commandId = id ∧ q = settling id rest r
          ∨ cmd.commandId ≠ id ∧ q = settling id rest { r with
            secondaryCommandAttempts := r.secondaryCommandAttempts ++ [⟨cmd.commandId, a⟩] }))
      ∨ (r.status = .succeeded ∧ st' = st ∧ cmd.commandId ≠ id ∧ q = settling id rest r)
      ∨ r.status ≠ .succeeded ∧ q = settling id rest r := by
  by_cases hs : r.status = .succeeded
  · simp [settleTxn, hs] at hp
    obtain ⟨hf, ⟨answer, db', hx, hst, rfl⟩ | ⟨e, hx, hst, rfl⟩⟩ := perform_answered hp
    · refine .inl ⟨hs, ⟨answer, db', hf, hx, hst⟩, ?_⟩
      rw [settled] at hq
      split_ifs at hq with hid
      · exact .inr ⟨hid, mem_singleton.1 hq⟩
      · exact .inl ⟨not_not.1 hid, mem_singleton.1 hq⟩
    · rw [markSucceeded_error hx, settled] at hq
      split_ifs at hq with hid
      · cases hq
      · exact .inr (.inl ⟨hs, hst, hid, mem_singleton.1 hq⟩)
  · refine .inr (.inr ⟨hs, ?_⟩)
    rcases mem_settled hq with h | ⟨hs', -⟩
    · exact h
    · exact absurd hs' hs

theorem settleTxn_ne_mark (hs : r.status ≠ .succeeded) (c b : String) :
    settleTxn now cmd a r ≠ .markCommandSucceededForAttempt c b := by
  rw [settleTxn, if_neg hs]
  split_ifs <;> simp

theorem settle_marks (hi : LeaseInv st) (hb : (settling id (cmd :: rest) r).Batched st)
    (hnd : ((cmd :: rest).map (·.commandId)).Nodup) (hs : (settling id (cmd :: rest) r).Sound st)
    (hc : (settling id (cmd :: rest) r).Complete st) (ha : cmd.currentAttemptId = some a)
    (hq : q ∈ settled id cmd a rest r ans)
    (hp : st.perform ⟨settleTxn now cmd a r, now, uuid⟩ .none = some (ans, st')) :
    q.Sound st' ∧ q.Complete st' := by
  have href : cmd.ref = ⟨cmd.commandId, a⟩ := by simp [AgentCommand.ref, ha]
  have hfr := ref_not_mem_of_nodup hnd
  have hne : Next .advance ans (settling id (cmd :: rest) r) q := .settle ha hq
  have hsub := hne.refs_subset (by simp)
  have hd : ∀ y, (settling id (cmd :: rest) r).Reported y → (settling id rest r).Reported y :=
    fun y hy => ⟨hy.1, fun h => hy.2 (mem_cons_of_mem _ h)⟩
  have hg : ∀ {call : Call} {answer : Answer} {db' : Db} (x : CommandAttemptRef),
      st.Marked x → (st.record call answer db').Marked x := fun x hx => marked_record.2 (.inl hx)
  rcases settle_cases hq hp with ⟨hst, ⟨answer, db', hf, hx, rfl⟩, hca⟩ | ⟨-, rfl, hid, rfl⟩
    | ⟨hst, rfl⟩
  · have hm : (st.record ⟨.markCommandSucceededForAttempt cmd.commandId a, now, uuid⟩ answer
        db').Marked cmd.ref := by
      rw [href]
      exact marked_record.2 (.inr rfl)
    have heq : ∀ y : CommandAttemptRef, Txn.markCommandSucceededForAttempt cmd.commandId a
        = .markCommandSucceededForAttempt y.commandId y.attemptId → y = cmd.ref := fun y hy => by
      simp at hy
      rw [href, hy.1, hy.2]
    have ht := (hs.mono hg).tail hnd fun _ _ => hm
    rcases hca with ⟨hid, rfl⟩ | ⟨hid, rfl⟩
    · refine ⟨ht, hc.next hi hb hf hx hsub (fun y _ => hd y) fun n x hxp hn y hny hy => ?_⟩
      rw [heq y hy]
      refine ⟨?_, hfr⟩
      rw [toClose, if_pos hst, ← hs.primary_eq hnd hid]
      exact mem_cons_self
    · obtain ⟨hatt, hr, hpr, hsec⟩ := ht
      refine ⟨⟨hatt, hr, hpr, fun x hx => ?_⟩,
        hc.next hi hb hf hx hsub (fun y _ hy => ⟨?_, (hd y hy).2⟩) fun n x hxp hn y hny hy => ?_⟩
      · rcases mem_append.1 hx with hx | hx
        · exact hsec x hx
        · rwa [mem_singleton.1 hx, ← href]
      · exact (mem_toClose_append hst).2 (.inl hy.1)
      · rw [heq y hy]
        exact ⟨(mem_toClose_append hst).2 (.inr href), hfr⟩
  · exact ⟨hs.tail hnd fun h => absurd h hid, hc.stay hsub hd⟩
  · have ht := hs.tail hnd fun _ h => absurd h hst
    obtain ⟨hf, ⟨answer, db', hx, rfl, -⟩ | ⟨rfl, -⟩⟩ := perform_eq_some hp
    · refine ⟨ht.mono hg, hc.next hi hb hf hx hsub (fun y _ => hd y) ?_⟩
      exact fun n x _ _ y _ hy => absurd hy (settleTxn_ne_mark hst _ _)
    · exact ⟨ht, hc.stay hsub hd⟩

end Settle

end Proc

structure MarksInv (w : World) : Prop where
  dispatched : Dispatched w
  issued : ∀ x, w.store.Marked x → ∃ n, w.store.IssuedBy n x
  sound : ∀ p ∈ w.procs, p.Sound w.store
  complete : ∀ p ∈ w.procs, p.Complete w.store

theorem MarksInv.start (hd : db.Initial) : MarksInv (World.start db) :=
  ⟨Dispatched.start hd, fun _ h => absurd h not_mem_nil,
    fun _ hp => absurd hp not_mem_nil, fun _ hp => absurd hp not_mem_nil⟩

theorem MarksInv.issued_step (hi : MarksInv w) (h : w.step op = some w') :
    ∀ x, w'.store.Marked x → ∃ n, w'.store.IssuedBy n x := by
  intro x hx
  rcases World.step_store h with heq | ⟨⟨txn, now, uuid⟩, answer, db', -, -, -, he, heq⟩ <;>
    rw [heq] at hx ⊢
  · exact hi.issued x hx
  obtain ⟨n, hn⟩ : ∃ n, w.store.IssuedBy n x := by
    rcases marked_record.1 hx with hx | ht
    · exact hi.issued x hx
    subst ht
    obtain ⟨⟨row, hr, hid, ho, -⟩, -⟩ := markSucceeded_eq_ok he
    obtain ⟨n, hn⟩ := hi.dispatched.lease.issued row hr _ (Db.ownedBy_eq_true.1 ho).1
    rw [hid] at hn
    exact ⟨n, hn⟩
  exact ⟨n, mem_record_issued.2 (.inl hn)⟩

theorem MarksInv.leased (hi : MarksInv w) {ls : List (String × LeaseAssignment)}
    (hf : w.store.Fresh call) (hx : call.exec w.store.db = .ok (.leases ls, db'))
    (hr : ∀ x, x ∈ q.refs → (x.commandId, x.attemptId) ∈ (Answer.leases ls).leased) :
    q.Complete (w.store.record call (.leases ls) db') := by
  intro n x hxq hn y hny hma
  exfalso
  have hnew := hr x hxq
  rcases mem_record_issued.1 hn with hn | ⟨rfl, -⟩
  · exact hf.not_issued hx hnew _ hn rfl
  rcases mem_record_issued.1 hny with hny | ⟨-, hl⟩
  · have := hi.dispatched.lease.past _ hny
    simp at this
  · rcases marked_record.1 hma with hma | ht
    · obtain ⟨m, hm⟩ := hi.issued y hma
      exact hf.not_issued hx hl _ hm rfl
    · unfold Call.exec at hx
      rw [ht] at hx
      obtain ⟨_, -, heq⟩ := map_eq_ok.1 hx
      cases heq

theorem MarksInv.next (hi : MarksInv w) (hp : p ∈ w.procs)
    {ans : SessionResult Answer} (hreq : p.request now choice = some t)
    (hn : Proc.Next choice ans p q) (hca : t = none ∧ st' = w.store
      ∨ ∃ txn, t = some txn ∧ w.store.perform ⟨txn, now, uuid⟩ .none = some (ans, st')) :
    q.Sound st' ∧ q.Complete st' := by
  have hb := hi.dispatched.batched p hp
  have hs := hi.sound p hp
  have hc := hi.complete p hp
  by_cases hset : ∃ id cmd rest r, p = .settling id (cmd :: rest) r
  · obtain ⟨id, cmd, rest, r, rfl⟩ := hset
    cases hn with
    | skip _ ha =>
      have := hs.1 cmd mem_cons_self
      rw [ha] at this
      cases this
    | settle ha hq =>
      obtain rfl := request_settling ha hreq
      obtain ⟨hno, -⟩ | ⟨txn, heq, hpe⟩ := hca
      · cases hno
      · obtain rfl := Option.some.inj heq
        exact settle_marks hi.dispatched.lease hb (hi.dispatched.nodup _ hp) hs hc ha hq hpe
  · push Not at hset
    obtain ⟨hsq, hrep⟩ := hn.sound hset hs
    have hg : ∀ {call : Call} {answer : Answer} {db' : Db},
        q.Sound (w.store.record call answer db') := hsq.mono fun x hx => marked_record.2 (.inl hx)
    rcases hn.refs_cases hreq hca with ⟨-, hsub⟩ | ⟨group, ls, call, db', rfl, hf, hx, rfl, -, hr⟩
    · obtain ⟨-, rfl⟩ | ⟨txn, rfl, hpe⟩ := hca
      · exact ⟨hsq, hc.stay hsub hrep⟩
      · obtain ⟨hf, ⟨answer, db', hx, rfl, -⟩ | ⟨rfl, -⟩⟩ := perform_eq_some hpe
        · refine ⟨hg, hc.next hi.dispatched.lease hb hf hx hsub (fun y _ => hrep y) ?_⟩
          intro n x _ _ y _ ht
          subst ht
          obtain ⟨id, cmd, rest, r, rfl, -⟩ := request_marks hreq
          exact absurd rfl (hset _ _ _ _)
        · exact ⟨hsq, hc.stay hsub hrep⟩
    · exact ⟨hg, hi.leased hf hx fun x => (hr x).1⟩

theorem MarksInv.step (hi : MarksInv w) (hflt : op.fault = .none) (h : w.step op = some w') :
    MarksInv w' := by
  suffices hps : ∀ q ∈ w'.procs, q.Sound w'.store ∧ q.Complete w'.store from
    ⟨hi.dispatched.step h, hi.issued_step h, fun q hq => (hps q hq).1, fun q hq => (hps q hq).2⟩
  intro q hq
  rcases World.procs_cases hi.dispatched h hq with ⟨hm, hspr⟩ | ⟨poll, ans, -, hs⟩
    | ⟨p, hp, choice, t, ans, hr, hn, hc⟩
  · rcases World.step_store h with heq | ⟨call, answer, db', hc, -, hf, hx, heq⟩ <;> rw [heq]
    · exact ⟨hi.sound q hm, hi.complete q hm⟩
    · exact ⟨(hi.sound q hm).mono fun x hx => marked_record.2 (.inl hx),
        (hi.complete q hm).spared hi.dispatched.lease (hi.dispatched.batched q hm) hf hx
          (hspr call hc)⟩
  · have hnil := (Poll.refs_of_mem_spawn hs).1
    refine ⟨?_, fun n x hx => by rw [hnil] at hx; cases hx⟩
    rcases Poll.mem_spawn hs with ⟨_, _, rfl⟩ | ⟨_, rfl⟩ | ⟨_, rfl⟩ | ⟨_, rfl⟩ <;> trivial
  · rw [hflt] at hc
    exact hi.next hp hr hn (hc.imp id fun ⟨txn, ht, _, hp⟩ => ⟨txn, ht, hp⟩)

end Choruz
