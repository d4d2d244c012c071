import Choruz.Proofs.World

/-!
# Attempts and the processes that carry them

What a process can become, and which attempts it carries from the lease of its batch to the
writer's answer: it never takes up an attempt but by the lease of its batch.
Every attempt a process carries was issued, all of a process's attempts by one call, and no two
processes carry attempts of one call.  While a process carries an attempt it has still to close,
the row, if it still carries the attempt, keeps one of a set of statuses: only the process itself
ends the attempt.
-/

namespace Choruz

open Relational AgentCommand

def AgentCommand.ref (cmd : AgentCommand) : CommandAttemptRef :=
  ⟨cmd.commandId, cmd.currentAttemptId.getD ""⟩

theorem CommandAttemptRef.eq_of_fields {x y : CommandAttemptRef} (hc : x.commandId = y.commandId)
    (ha : x.attemptId = y.attemptId) : x = y := by
  exact congrArg₂ CommandAttemptRef.mk hc ha

def CommitStage.todo : CommitStage → List CommandAttemptRef
  | mark todo _ => todo
  | _ => []

namespace Proc

/-- What a process may become when it is resumed with an answer. -/
inductive Next (choice : Choice) (answer : SessionResult Answer) : Proc → Proc → Prop
  | lease {node group group' ls} (ha : answer = .ok (.leases ls))
      (h : withLeases ls group = some group') :
      Next choice answer (batch node group) (starting group')
  | start {group hb} : Next choice answer (starting group) (executing group hb)
  | beat {group hb hb'} : Next choice answer (executing group hb) (executing group hb')
  | finish {primary group hb e} : Next choice answer (executing (primary :: group) hb)
      (settling primary.commandId (orderedGroup primary.commandId (primary :: group))
        (executeCommand primary e))
  | sent {group hb call e j} (hch : choice = .finish e (some j))
      (hc : heartbeatCall group hb j = some call) :
      Next choice answer (executing group hb) (outstanding call)
  | send {id r} : Next choice answer (settling id [] r) (queued r)
  | skip {id cmd rest r} (hne : cmd.commandId ≠ id) (ha : cmd.currentAttemptId = none) :
      Next choice answer (settling id (cmd :: rest) r) (settling id rest r)
  | settle {id cmd rest r a q} (ha : cmd.currentAttemptId = some a)
      (hq : q ∈ settled id cmd a rest r answer) :
      Next choice answer (settling id (cmd :: rest) r) q
  | receive {r} : Next choice answer (queued r) (committing r .start)
  | commit {r stage} : Next choice answer (committing r stage) (committed r stage answer)
  | audit {cmd} : Next choice answer (exhausted cmd) (auditing cmd)

theorem resume_next {p q : Proc} {now : Timestamp} {choice : Choice} {t : Option Txn}
    {ans : SessionResult Answer} (hr : p.request now choice = some t)
    (hq : q ∈ p.resume choice ans) : Next choice ans p q := by
  unfold resume at hq
  split at hq
  · split at hq
    · rw [mem_singleton.1 hq]
      exact .lease rfl ‹_›
    · cases hq
  · cases hq
  · split at hq
    · rw [mem_singleton.1 hq]
      exact .start
    · cases hq
  · cases hq
  · rw [mem_singleton.1 hq]
    exact .beat
  · rw [mem_singleton.1 hq]
    exact .beat
  · rcases mem_cons.1 hq with rfl | hq
    · exact .finish
    · obtain ⟨call, hc, rfl⟩ := map_eq_some_iff.1 (mem_toList.1 hq)
      obtain ⟨j, rfl, hc⟩ := bind_eq_some_iff.1 hc
      exact .sent rfl hc
  · rw [mem_singleton.1 hq]
    exact .send
  · split at hq
    · split_ifs at hq with hid
      · cases hq
      · rw [mem_singleton.1 hq]
        exact .skip hid ‹_›
    · exact .settle ‹_› hq
  · rw [mem_singleton.1 hq]
    exact .receive
  · rw [mem_singleton.1 hq]
    exact .commit
  · rw [mem_singleton.1 hq]
    exact .audit
  · rw [mem_singleton.1 hq]
    exact .beat
  · simp [request] at hr
  · cases hq

variable {cmd : AgentCommand} {group : List AgentCommand} {rest : List AgentCommand} {id : String}

theorem mem_settled {id a : String} {r : AgentResult} {ans : SessionResult Answer} {q : Proc}
    (h : q ∈ settled id cmd a rest r ans) :
    q = settling id rest r ∨ r.status = .succeeded ∧ cmd.commandId ≠ id ∧ (∃ x, ans = .ok x)
      ∧ q = settling id rest { r with
        secondaryCommandAttempts := r.secondaryCommandAttempts ++ [⟨cmd.commandId, a⟩] } := by
  unfold settled at h
  split at h
  next hs =>
    split at h
    · split_ifs at h with hid
      · exact .inr ⟨hs, hid, ⟨_, rfl⟩, mem_singleton.1 h⟩
      · exact .inl (mem_singleton.1 h)
    · split_ifs at h
      · cases h
      · exact .inl (mem_singleton.1 h)
    · exact .inl (mem_singleton.1 h)
  · split at h
    · exact .inl (mem_singleton.1 h)
    · split_ifs at h
      · cases h
      · exact .inl (mem_singleton.1 h)

theorem committed_cases (r : AgentResult) (stage : CommitStage) (ans : SessionResult Answer) :
    (∃ out, committed r stage ans = written r out)
      ∨ (stage = .start ∧ r.status = .succeeded ∧ committed r stage ans = committing r .dedup)
      ∨ (stage = .dedup ∧ committed r stage ans = committing r .insert)
      ∨ (∃ out, (stage = .start → r.status = .succeeded)
        ∧ (∀ todo o, stage ≠ .mark todo o) ∧ committed r stage ans = closing r out)
      ∨ ∃ x rest out, stage = .mark (x :: rest) out
        ∧ committed r stage ans = committing r (.mark rest out) := by
  unfold committed
  split
  · split
    · exact .inl ⟨_, rfl⟩
    next hs =>
      split
      · exact .inl ⟨_, rfl⟩
      · split_ifs
        · exact .inr (.inr (.inr (.inl ⟨_, fun _ => not_not.1 hs, by simp, rfl⟩)))
        · exact .inr (.inl ⟨rfl, not_not.1 hs, rfl⟩)
      · exact .inl ⟨_, rfl⟩
  · split
    · exact .inl ⟨_, rfl⟩
    · exact .inr (.inr (.inr (.inl ⟨_, by simp, by simp, rfl⟩)))
    · exact .inr (.inr (.inl ⟨rfl, rfl⟩))
  · split
    · exact .inr (.inr (.inr (.inl ⟨_, by simp, by simp, rfl⟩)))
    · exact .inl ⟨_, rfl⟩
    · exact .inr (.inr (.inr (.inl ⟨_, by simp, by simp, rfl⟩)))
    · exact .inl ⟨_, rfl⟩
    · exact .inl ⟨_, rfl⟩
  · exact .inl ⟨_, rfl⟩
  · split
    · exact .inr (.inr (.inr (.inr ⟨_, _, _, rfl, rfl⟩)))
    · exact .inr (.inr (.inr (.inr ⟨_, _, _, rfl, rfl⟩)))
    · exact .inl ⟨_, rfl⟩

theorem Next.to_aside {choice : Choice} {ans : SessionResult Answer} {p q : Proc}
    (h : Next choice ans p q) : (∀ cmd, q = auditing cmd → p = exhausted cmd) ∧
      ∀ call, q = outstanding call → ∃ group hb e j, p = executing group hb
        ∧ choice = .finish e (some j) ∧ heartbeatCall group hb j = some call := by
  cases h with
  | audit => exact ⟨fun _ h => by rw [auditing.inj h], by simp⟩
  | sent hch hc =>
    refine ⟨by simp, fun _ h => ?_⟩
    obtain rfl := outstanding.inj h
    exact ⟨_, _, _, _, rfl, hch, hc⟩
  | settle _ hq => rcases mem_settled hq with h | ⟨-, -, -, h⟩ <;> simp [h]
  | @commit r stage =>
    rcases committed_cases r stage ans with ⟨_, h⟩ | ⟨-, -, h⟩ | ⟨-, h⟩ | ⟨_, -, -, h⟩
      | ⟨_, _, _, -, h⟩ <;> simp [h, closing]
  | lease | start | beat | finish | send | skip | receive => simp

theorem ref_not_mem_of_nodup
    (hn : ((cmd :: rest).map (·.commandId)).Nodup) : cmd.ref ∉ rest.map ref := by
  intro hm
  obtain ⟨cmd', hc', hr⟩ := mem_map.1 hm
  have hid : cmd'.commandId = cmd.commandId := congrArg CommandAttemptRef.commandId hr
  exact (nodup_cons.1 hn).1 (mem_map.2 ⟨cmd', hc', hid⟩)

def refs : Proc → List CommandAttemptRef
  | starting group | executing group _ => group.map ref
  | settling _ todo r => todo.map ref ++ r.attempts
  | committing r stage => stage.todo ++ r.attempts
  | queued r | written r _ => r.attempts
  | _ => []

def members : Proc → List AgentCommand
  | starting group | executing group _ => group
  | settling _ todo _ => todo
  | _ => []

theorem attempts_executeCommand (cmd : AgentCommand) (e : Execution) :
    (executeCommand cmd e).attempts = [cmd.ref] := by
  cases e <;> rfl

theorem mem_of_orderedGroup (h : cmd ∈ orderedGroup id group) : cmd ∈ group := by
  rcases mem_append.1 h with h | h
  · exact mem_of_find?_eq_some (mem_toList.1 h)
  · exact mem_of_mem_filter h

theorem orderedGroup_nodup (h : (group.map (·.commandId)).Nodup) :
    ((orderedGroup id group).map (·.commandId)).Nodup := by
  unfold orderedGroup
  rw [map_append, List.nodup_append]
  refine ⟨?_, h.sublist (List.filter_sublist.map _), fun x hx y hy hxy => ?_⟩
  · generalize group.find? _ = found
    cases found <;> simp
  · obtain ⟨c, hc, rfl⟩ := mem_map.1 hx
    obtain ⟨d, hd, rfl⟩ := mem_map.1 hy
    have hcid : c.commandId = id := by simpa using find?_some (mem_toList.1 hc)
    have hdid : d.commandId ≠ id := by simpa using (mem_filter.1 hd).2
    exact hdid (hxy.symm.trans hcid)

variable {choice : Choice} {answer : SessionResult Answer} {p q : Proc}

theorem refs_settling_tail (id : String) (cmd : AgentCommand) (rest : List AgentCommand)
    (r : AgentResult) : (settling id rest r).refs ⊆ (settling id (cmd :: rest) r).refs := by
  intro x hx
  exact mem_cons_of_mem _ hx

section

variable (h : Next choice answer p q) (hp : ∀ node group, p ≠ batch node group)
include h hp

theorem Next.refs_subset : q.refs ⊆ p.refs := by
  cases h with
  | lease => exact absurd rfl (hp _ _)
  | start | beat | receive => exact List.Subset.refl _
  | @finish primary group hb e =>
    intro x hx
    simp only [refs, attempts_executeCommand, mem_append, mem_map, mem_singleton] at hx
    rcases hx with ⟨cmd, hc, rfl⟩ | rfl
    · exact mem_map_of_mem (mem_of_orderedGroup hc)
    · exact mem_cons_self
  | sent | audit => exact nil_subset _
  | send => exact List.subset_append_right ..
  | skip => exact refs_settling_tail ..
  | @settle id cmd rest r a q ha hq =>
    rcases mem_settled hq with rfl | ⟨-, -, -, rfl⟩
    · exact refs_settling_tail ..
    have hr : cmd.ref = ⟨cmd.commandId, a⟩ := by simp [ref, ha]
    intro x hx
    simp only [refs, AgentResult.attempts, map_cons, mem_append, mem_cons,
      not_mem_nil, or_false, hr] at hx ⊢
    rcases hx with hx | hx | hx | hx
    · exact .inl (.inr hx)
    · exact .inr (.inl hx)
    · exact .inr (.inr hx)
    · exact .inl (.inl hx)
  | @commit r stage =>
    rcases committed_cases r stage answer with ⟨_, h⟩ | ⟨-, -, h⟩ | ⟨-, h⟩ | ⟨_, -, -, h⟩
      | ⟨x, rest, _, rfl, h⟩ <;> rw [h]
    · exact List.subset_append_right ..
    · exact List.subset_append_right ..
    · exact List.subset_append_right ..
    · exact List.append_subset.2 ⟨List.subset_append_right .., List.subset_append_right ..⟩
    · exact List.subset_cons_self ..

theorem Next.members_nodup
    (hn : (p.members.map (·.commandId)).Nodup) : (q.members.map (·.commandId)).Nodup := by
  cases h with
  | lease => exact absurd rfl (hp _ _)
  | start | beat => exact hn
  | finish => exact orderedGroup_nodup hn
  | sent | audit | send | receive => exact nodup_nil
  | skip => exact (nodup_cons.1 hn).2
  | settle ha hq =>
    rcases mem_settled hq with rfl | ⟨-, -, -, rfl⟩ <;> exact (nodup_cons.1 hn).2
  | @commit r stage =>
    rcases committed_cases r stage answer with ⟨_, h⟩ | ⟨-, -, h⟩ | ⟨-, h⟩ | ⟨_, -, -, h⟩
      | ⟨_, _, _, -, h⟩ <;> rw [h] <;> exact nodup_nil

end

theorem settled_pairwise (R : Proc → Proc → Prop) (id a : String) (cmd : AgentCommand)
    (rest : List AgentCommand) (r : AgentResult) (ans : SessionResult Answer) :
    (settled id cmd a rest r ans).Pairwise R := by
  unfold settled
  split
  · split
    · split_ifs <;> exact pairwise_singleton ..
    · split_ifs
      · exact .nil
      · exact pairwise_singleton ..
    · exact pairwise_singleton ..
  · split
    · exact pairwise_singleton ..
    · split_ifs
      · exact .nil
      · exact pairwise_singleton ..

theorem resume_pairwise (p : Proc) (choice : Choice) (ans : SessionResult Answer) :
    (p.resume choice ans).Pairwise fun _ q => q.refs = [] := by
  unfold resume
  split
  case h_1 | h_3 =>
    split
    · exact pairwise_singleton ..
    · exact .nil
  case h_7 =>
    refine List.pairwise_cons.2 ⟨fun q hq => ?_, ?_⟩
    · obtain ⟨call, -, rfl⟩ := map_eq_some_iff.1 (mem_toList.1 hq)
      rfl
    · generalize Option.map outstanding _ = sent
      cases sent
      · exact .nil
      · exact pairwise_singleton ..
  case h_9 =>
    split
    · split_ifs
      · exact .nil
      · exact pairwise_singleton ..
    · exact settled_pairwise ..
  case h_2 | h_4 | h_15 => exact .nil
  all_goals exact pairwise_singleton ..

end Proc

theorem Poll.mem_spawn {poll : Poll} {ans : SessionResult Answer} {p : Proc}
    (h : p ∈ poll.spawn ans) :
    (∃ node group, p = .batch node group) ∨ (∃ expired, p = .expiry expired)
      ∨ (∃ cmd, p = .exhausted cmd) ∨ ∃ cmd, p = .retriable cmd := by
  unfold Poll.spawn at h
  split at h
  case h_5 => cases h
  all_goals obtain ⟨_, -, rfl⟩ := mem_map.1 h
  · exact .inl ⟨_, _, rfl⟩
  · exact .inr (.inl ⟨_, rfl⟩)
  · exact .inr (.inr (.inl ⟨_, rfl⟩))
  · exact .inr (.inr (.inr ⟨_, rfl⟩))

/-- A process of the next world was there, was found by a round, or is what the process resumed
became. -/
theorem World.mem_procs_cases {w w' : World} {op : Op} (h : w.step op = some w') {q : Proc}
    (hq : q ∈ w'.procs) : q ∈ w.procs ∨ (∃ (poll : Poll) (ans : _), q ∈ poll.spawn ans)
      ∨ ∃ i p choice t ans, op.action = .run i choice ∧ w.procs[i]? = some p
        ∧ p.request op.now choice = some t ∧ Proc.Next choice ans p q
        ∧ ∀ txn, t = some txn → w.call? op = some ⟨txn, op.now, op.uuid⟩ := by
  rcases World.step_cases h with ⟨_, ans, -, -, -, hps⟩ | ⟨poll, ans, -, -, hps⟩
    | ⟨p, rest, choice, t, ans, ⟨i, ha, hat⟩, hpe, hr, hps, hc⟩ <;> rw [hps] at hq
  · exact .inl hq
  · exact (mem_append.1 hq).imp id fun hq => .inl ⟨poll, ans, hq⟩
  · rcases mem_append.1 hq with hq | hq
    · exact .inl (hpe.mem_iff.2 (mem_cons_of_mem _ hq))
    · refine .inr (.inr ⟨i, p, choice, t, ans, ha, hat, hr, Proc.resume_next hr hq, ?_⟩)
      intro txn ht
      obtain ⟨hn, -⟩ | ⟨txn', heq, hc, -⟩ := hc
      · cases hn.symm.trans ht
      · rwa [Option.some.inj (ht.symm.trans heq)]

variable {st st' : Store} {call : Call} {answer : Answer} {db' : Db}

variable {ls : List (String × LeaseAssignment)} {p q : Proc} {ans : SessionResult Answer}
  {uuid : ℕ → String} {now : Timestamp} {choice : Choice} {t : Option Txn} {node : String}
  {fault : Fault}

theorem withLeases_eq_some : ∀ {group group' : List AgentCommand}, withLeases ls group = some group' →
      group'.map (·.commandId) = group.map (·.commandId)
        ∧ ∀ cmd' ∈ group', ∃ cmd ∈ group, ∃ l ∈ ls, l.1 = cmd.commandId ∧ cmd' = { cmd with
          currentAttemptId := some l.2.attemptId, currentEpoch := some l.2.epoch
          attemptCount := l.2.attemptCount }
  | [], group', h => by
    simp only [withLeases, List.mapM_nil, Option.pure_def, Option.some.injEq] at h
    subst h
    exact ⟨rfl, fun _ hc => absurd hc not_mem_nil⟩
  | cmd :: group, group', h => by
    simp only [withLeases, List.mapM_cons, Option.bind_eq_bind, Option.pure_def,
      bind_eq_some_iff, map_eq_some_iff, Option.some.injEq] at h
    obtain ⟨_, ⟨l, hl, rfl⟩, rest, hr, rfl⟩ := h
    obtain ⟨hi, hm⟩ := withLeases_eq_some hr
    refine ⟨by rw [map_cons, map_cons, hi], fun cmd' hc => ?_⟩
    rcases mem_cons.1 hc with rfl | hc
    · exact ⟨cmd, mem_cons_self, l, mem_of_find?_eq_some hl, by simpa using find?_some hl, rfl⟩
    · obtain ⟨c, hcg, hl⟩ := hm cmd' hc
      exact ⟨c, mem_cons_of_mem _ hcg, hl⟩

theorem batch_ids_perm {ids : List String} (ht : call.txn = .assignBatchLeases ids node)
    (h : call.exec st.db = .ok (answer, db')) :
    ((call.leases st.db).map (·.commandId)).Perm ids := by
  have hle : call.leases st.db = st.db.selectCommands ids := by simp [Call.leases, ht]
  unfold Call.exec at h
  simp [ht] at h
  obtain ⟨⟨ls, db1⟩, hl, -⟩ := map_eq_ok.1 h
  rcases assignBatchLeases_eq_ok hl with ⟨rfl, -, -⟩ | ⟨hlen, -⟩
  · simp [hle, Db.selectCommands]
  have hs : (call.leases st.db).map (·.commandId) ⊆ ids := fun c hc => by
    obtain ⟨r, hr, rfl⟩ := mem_map.1 hc
    rw [hle] at hr
    exact (mem_selectCommands.1 hr).2
  refine (List.subperm_of_subset (leases_nodup _ _) hs).perm_of_length_le ?_
  rw [List.length_map, hle, hlen]

theorem mem_ref_of_lease {group group' : List AgentCommand}
    (ht : call.txn = .assignBatchLeases (group.map (·.commandId)) node)
    (h : call.exec st.db = .ok (.leases ls, db')) (hl : withLeases ls group = some group') :
    (group'.map (·.commandId)).Nodup ∧ ∀ x, x ∈ group'.map AgentCommand.ref ↔
      (x.commandId, x.attemptId) ∈ (Answer.leases ls).leased := by
  have hp := batch_ids_perm ht h
  obtain ⟨hi, hm⟩ := withLeases_eq_some hl
  have hf := (exec_leased h).1
  have hto : ∀ x ∈ group'.map AgentCommand.ref,
      (x.commandId, x.attemptId) ∈ (Answer.leases ls).leased := fun x hx => by
    obtain ⟨cmd', hc', rfl⟩ := mem_map.1 hx
    obtain ⟨cmd, -, l, hl, hid, rfl⟩ := hm cmd' hc'
    exact mem_map.2 ⟨l, hl, by simp [AgentCommand.ref, hid]⟩
  refine ⟨by rw [hi]; exact hp.nodup_iff.1 (leases_nodup _ _), fun x => ⟨hto x, fun hx => ?_⟩⟩
  have hc : x.commandId ∈ group'.map (·.commandId) := by
    rw [hi, ← hp.mem_iff, ← hf]
    exact mem_map.2 ⟨_, hx, rfl⟩
  obtain ⟨cmd', hc', hid⟩ := mem_map.1 hc
  have hmi := hto _ (mem_map_of_mem hc')
  have hn : ((Answer.leases ls).leased.map Prod.fst).Nodup := by
    rw [hf]
    exact leases_nodup _ _
  have heq := inj_on_of_nodup_map hn hmi hx hid
  refine mem_map.2 ⟨cmd', hc', ?_⟩
  obtain ⟨c, a⟩ := x
  simp at heq
  simp [← heq.1, ← heq.2]

def Store.IssuedBy (st : Store) (n : ℕ) (x : CommandAttemptRef) : Prop :=
  ⟨n, x.commandId, x.attemptId⟩ ∈ st.issued

/-- An attempt that was issued keeps its record, and gets no other. -/
def Store.Grows (st st' : Store) : Prop :=
  ∀ n x, st.IssuedBy n x → ∀ m, st'.IssuedBy m x ↔ st.IssuedBy m x

theorem Store.grows_record (hf : st.Fresh call) (h : call.exec st.db = .ok (answer, db')) :
    st.Grows (st.record call answer db') := by
  intro n x hx m
  unfold Store.IssuedBy
  rw [mem_record_issued]
  constructor
  · rintro (hm | ⟨-, hm⟩)
    · exact hm
    · exact absurd rfl (hf.not_issued h hm _ hx)
  · exact .inl

/-- The processes' attempts come from different calls. -/
def Proc.Apart (st : Store) (p q : Proc) : Prop :=
  ∀ x ∈ p.refs, ∀ y ∈ q.refs, ∀ n m, st.IssuedBy n x → st.IssuedBy m y → n ≠ m

theorem Proc.Apart.symm (h : p.Apart st q) : q.Apart st p :=
  fun y hy x hx m n hm hn => (h x hx y hy n m hn hm).symm

theorem Proc.Apart.mono {q' : Proc} (h : p.Apart st q) (hq : q'.refs ⊆ q.refs) : p.Apart st q' :=
  fun x hx y hy => h x hx y (hq hy)

/-- All of a process's attempts were issued by one call. -/
def Proc.Batched (st : Store) (p : Proc) : Prop := ∃ n, ∀ x ∈ p.refs, st.IssuedBy n x

theorem Proc.Batched.mono (h : p.Batched st) (hq : q.refs ⊆ p.refs) : q.Batched st := by
  obtain ⟨n, hn⟩ := h
  exact ⟨n, fun x hx => hn x (hq hx)⟩

theorem Proc.Batched.grow (h : p.Batched st) (hg : st.Grows st') : p.Batched st' := by
  obtain ⟨n, hn⟩ := h
  exact ⟨n, fun x hx => (hg n x (hn x hx) n).2 (hn x hx)⟩

theorem Proc.Apart.grow (h : p.Apart st q) (hp : p.Batched st) (hq : q.Batched st)
    (hg : st.Grows st') : p.Apart st' q := by
  obtain ⟨i, hi⟩ := hp
  obtain ⟨j, hj⟩ := hq
  exact fun x hx y hy n m hn hm =>
    h x hx y hy n m ((hg i x (hi x hx) n).1 hn) ((hg j y (hj y hy) m).1 hm)

/-- What holds of the processes' attempts in every reachable world. -/
structure Dispatched (w : World) : Prop where
  lease : LeaseInv w.store
  batched : ∀ p ∈ w.procs, p.Batched w.store
  apart : w.procs.Pairwise (Proc.Apart w.store)
  nodup : ∀ p ∈ w.procs, (p.members.map (·.commandId)).Nodup

theorem Proc.Next.refs_cases (hn : Next choice ans p q)
    (hr : p.request now choice = some t) (hc : t = none ∧ st' = st
      ∨ ∃ txn, t = some txn ∧ st.perform ⟨txn, now, uuid⟩ fault = some (ans, st')) :
    (∀ node group, p ≠ batch node group) ∧ q.refs ⊆ p.refs
      ∨ ∃ group ls, ∃ call db', q = starting group ∧ st.Fresh call
        ∧ call.exec st.db = .ok (.leases ls, db') ∧ st' = st.record call (.leases ls) db'
        ∧ (group.map (·.commandId)).Nodup
        ∧ ∀ x, x ∈ q.refs ↔ (x.commandId, x.attemptId) ∈ (Answer.leases ls).leased := by
  by_cases hp : ∀ node group, p ≠ batch node group
  · exact .inl ⟨hp, hn.refs_subset hp⟩
  push Not at hp
  obtain ⟨node, group, rfl⟩ := hp
  cases hn with
  | @lease _ _ group' ls ha hl =>
    cases choice with
    | advance =>
      simp [request] at hr
      subst hr
      obtain ⟨hno, -⟩ | ⟨txn, heq, hpe⟩ := hc
      · cases hno
      cases heq
      obtain ⟨hf, ⟨answer, db', hx, rfl, hans⟩ | ⟨-, hans⟩⟩ := Store.perform_eq_some hpe
      · obtain hans | ⟨-, m, hans⟩ := hans
        · cases ha.symm.trans hans
          obtain ⟨hnd, hm⟩ := mem_ref_of_lease rfl hx hl
          exact .inr ⟨group', ls, _, db', rfl, hf, hx, rfl, hnd, hm⟩
        · cases ha.symm.trans hans
      · obtain ⟨e, -, hans⟩ | ⟨-, m, hans⟩ := hans <;> rw [ha] at hans <;> cases hans
    | tick | beat | finish => simp [request] at hr

theorem Dispatched.start {db : Db} (hd : db.Initial) : Dispatched (World.start db) :=
  ⟨LeaseInv.start hd, fun _ hp => absurd hp not_mem_nil, List.Pairwise.nil,
    fun _ hp => absurd hp not_mem_nil⟩

theorem Poll.refs_of_mem_spawn {q : Poll} (h : p ∈ q.spawn ans) : p.refs = [] ∧ p.members = [] := by
  rcases Poll.mem_spawn h with ⟨_, _, rfl⟩ | ⟨_, rfl⟩ | ⟨_, rfl⟩ | ⟨_, rfl⟩ <;> exact ⟨rfl, rfl⟩

theorem Dispatched.next {w : World} (hw : Dispatched w) (hp : p ∈ w.procs)
    (hreq : p.request now choice = some t) (hne : Proc.Next choice ans p q)
    (hc : t = none ∧ st' = w.store
      ∨ ∃ txn, t = some txn ∧ w.store.perform ⟨txn, now, uuid⟩ fault = some (ans, st'))
    (hl : LeaseInv st') (hg : w.store.Grows st') :
    q.Batched st' ∧ (q.members.map (·.commandId)).Nodup
      ∧ ∀ q0 ∈ w.procs, q0.Apart w.store p → q0.Apart st' q := by
  have hb := hw.batched p hp
  rcases hne.refs_cases hreq hc with
    ⟨hnb, hs⟩ | ⟨group, ls, call, db', rfl, hf, hx, rfl, hnd, hr⟩
  · exact ⟨(hb.grow hg).mono hs, hne.members_nodup hnb (hw.nodup p hp), fun q0 hq0 ha =>
      (ha.grow (hw.batched q0 hq0) hb hg).mono hs⟩
  · have his : ∀ y ∈ (Proc.starting group).refs,
        (w.store.record call (.leases ls) db').IssuedBy w.store.calls y :=
      fun y hy => mem_record_issued.2 (.inr ⟨rfl, (hr y).1 hy⟩)
    refine ⟨⟨w.store.calls, his⟩, hnd, fun q0 hq0 _ x hx y hy n m hn hm => ?_⟩
    obtain ⟨i, hi⟩ := hw.batched q0 hq0
    have hlt := hw.lease.past _ ((hg i x (hi x hx) n).1 hn)
    have hcs := hl.unique _ hm _ (his y hy) rfl
    simp at hcs
    simp only at hlt
    omega

theorem Dispatched.step {w w' : World} {op : Op} (hw : Dispatched w) (h : w.step op = some w') :
    Dispatched w' := by
  obtain ⟨hl, hg⟩ : LeaseInv w'.store ∧ w.store.Grows w'.store := by
    rcases World.step_store h with heq | ⟨call, answer, db', -, -, hf, hx, heq⟩ <;> rw [heq]
    · exact ⟨hw.lease, fun _ _ _ _ => Iff.rfl⟩
    · exact ⟨hw.lease.exec hf hx, Store.grows_record hf hx⟩
  have hb : ∀ p ∈ w.procs, p.Batched w'.store := fun p hp => (hw.batched p hp).grow hg
  have ha : w.procs.Pairwise (Proc.Apart w'.store) := hw.apart.imp_of_mem fun hp hq hpq =>
    hpq.grow (hw.batched _ hp) (hw.batched _ hq) hg
  rcases World.step_cases h with ⟨txn, ans, -, -, -, hps⟩ | ⟨q, ans, -, -, hps⟩
    | ⟨p, rest, choice, t, ans, -, hpe, hreq, hps, hc⟩
  · exact ⟨hl, by rwa [hps], by rwa [hps], by rw [hps]; exact hw.nodup⟩
  · refine ⟨hl, ?_, ?_, ?_⟩ <;> rw [hps]
    · intro p hp
      rcases mem_append.1 hp with hp | hp
      · exact hb p hp
      · exact ⟨0, by rw [(Poll.refs_of_mem_spawn hp).1]; simp⟩
    · have hn : ∀ p ∈ q.spawn ans, ∀ p', Proc.Apart w'.store p' p := fun p hp p' x _ y hy => by
        rw [(Poll.refs_of_mem_spawn hp).1] at hy
        cases hy
      exact List.pairwise_append.2 ⟨ha, List.pairwise_of_forall_mem_list fun p _ p' hp' =>
        hn p' hp' p, fun p _ p' hp' => hn p' hp' p⟩
    · intro p hp
      rcases mem_append.1 hp with hp | hp
      · exact hw.nodup p hp
      · rw [(Poll.refs_of_mem_spawn hp).2]
        exact nodup_nil
  · have hm : ∀ q ∈ rest, q ∈ w.procs := fun q hq =>
      hpe.mem_iff.2 (mem_cons_of_mem _ hq)
    have hpm : p ∈ w.procs := hpe.mem_iff.2 mem_cons_self
    obtain ⟨hpr, -⟩ := List.pairwise_cons.1 ((hpe.pairwise_iff fun h => h.symm).1 hw.apart)
    obtain ⟨-, hr⟩ := List.pairwise_cons.1 ((hpe.pairwise_iff fun h => h.symm).1 ha)
    have hnew := fun q (hq : q ∈ p.resume choice ans) => hw.next hpm hreq
      (Proc.resume_next hreq hq) (hc.imp (fun ⟨ht, heq, _⟩ => ⟨ht, heq⟩)
        fun ⟨t, ht, _, hp⟩ => ⟨t, ht, hp⟩) hl hg
    refine ⟨hl, ?_, ?_, ?_⟩ <;> rw [hps]
    · intro q hq
      rcases mem_append.1 hq with hq | hq
      · exact hb q (hm q hq)
      · exact (hnew q hq).1
    · refine List.pairwise_append.2 ⟨hr, ?_, fun q0 hq0 q hq =>
        (hnew q hq).2.2 q0 (hm q0 hq0) (hpr q0 hq0).symm⟩
      refine (p.resume_pairwise choice ans).imp fun hn x _ y hy => ?_
      rw [hn] at hy
      cases hy
    · intro q hq
      rcases mem_append.1 hq with hq | hq
      · exact hw.nodup q (hm q hq)
      · exact (hnew q hq).2.1

/-- Whatever the processes, the faults and the crashes: an attempt is carried by one process and by
one row at most, and a row is not ahead of its session. -/
theorem attempts_held_once {db : Db} (hdb : db.Initial) {w : World}
    (h : Steps World.step (.start db) w) : w.procs.Pairwise (fun p q => ∀ x ∈ p.refs, x ∉ q.refs) ∧
    (∀ r ∈ w.store.db.agentCommands, ∀ r' ∈ w.store.db.agentCommands, ∀ a,
      r.currentAttemptId = some a → r'.currentAttemptId = some a → r = r') ∧
    ∀ r ∈ w.store.db.agentCommands, ∀ e, r.currentEpoch = some e →
      ∃ s ∈ w.store.db.sessionRegistry, s.sessionKey = r.sessionKey ∧ e ≤ s.epoch := by
  have hd : Dispatched w := h.invariant Dispatched.step (.start hdb)
  refine ⟨hd.apart.imp_of_mem fun hp _ hap x hx hy => ?_, fun r hr r' hr' a ha ha' => ?_,
    hd.lease.bounded⟩
  · obtain ⟨n, hn⟩ := hd.batched _ hp
    exact hap x hx x hy n n (hn x hx) (hn x hx) rfl
  · obtain ⟨n, hn⟩ := hd.lease.issued r hr a ha
    obtain ⟨m, hm⟩ := hd.lease.issued r' hr' a ha'
    exact eq_of_key_eq hr hr' (LeaseRecord.mk.inj (hd.lease.unique _ hn _ hm rfl)).2.1

theorem attempts_held_once_batch : ∃ w, Steps World.step (.start {}) w ∧
    w.procs.map Proc.refs = [[⟨"c1", "a1"⟩, ⟨"c2", "a2"⟩]] ∧
      w.procs.Pairwise (fun p q => ∀ x ∈ p.refs, x ∉ q.refs) := by
  refine exists_run_and batchLeased ?_ fun _ h _ => (attempts_held_once Db.initial_empty h).1
  decide +kernel

open Proc AgentCommand AgentResult

variable {good : CommandStatus → Prop} {db : Db} {x : CommandAttemptRef}

/-- The executor's write that records the end of the attempt, with a status that is not `good`. -/
def Call.Ends (good : CommandStatus → Prop) (call : Call) (x : CommandAttemptRef) : Prop :=
  (∃ w, call.txn = .updateCommandStatusForAttempt w x.attemptId ∧ w.commandId = x.commandId
      ∧ ¬ good w.status)
    ∨ call.txn = .markCommandSucceededForAttempt x.commandId x.attemptId ∧ ¬ good .succeeded

/-- The row of the attempt's command, if it carries the attempt, has a `good` status. -/
def Db.Holds (db : Db) (good : CommandStatus → Prop) (x : CommandAttemptRef) : Prop :=
  ∀ r ∈ db.agentCommands, r.commandId = x.commandId → r.currentAttemptId = some x.attemptId →
    good r.status

section Rows

variable (hactive : ∀ s : CommandStatus, s.isActive → good s)
  (hinUse : ∀ s, good s → s.InUse)

include hactive hinUse

theorem RowStep.good_kept {r r' : AgentCommand} (h : RowStep call answer db db' r r')
    (hr : r ∈ db.agentCommands) (hg : FreshSchedulerWrite db call)
    (hid : r.commandId = x.commandId) (hold : db.Holds good x) (he : ¬ call.Ends good x)
    (ha : r'.currentAttemptId = some x.attemptId) : good r'.status := by
  have hrow : r.currentAttemptId = some x.attemptId → good r.status := hold r hr hid
  cases h with
  | keep | cap => exact hrow ha
  | lease | hostBeat => exact hactive _ rfl
  | write ht hid' =>
    have hu := hinUse _ (hrow (by simpa [CommandStatusUpdate.apply, StatusWrite.update] using ha))
    unfold FreshSchedulerWrite at hg
    rw [ht] at hg
    rw [hg r hr hid'] at hu
    rcases hu with h | h <;> cases h
  | @fencedWrite w a ht hid' ho =>
    have hra : r.currentAttemptId = some x.attemptId := by
      simpa [CommandStatusUpdate.apply, StatusWrite.update] using ha
    have hatt : a = x.attemptId := Option.some.inj ((Db.ownedBy_eq_true.1 ho).1.symm.trans hra)
    by_contra hb
    exact he (.inl ⟨w, by rw [ht, hatt], hid'.symm.trans hid, hb⟩)
  | @succeed a ht ho =>
    have hatt : a = x.attemptId := Option.some.inj ((Db.ownedBy_eq_true.1 ho).1.symm.trans ha)
    by_contra hb
    exact he (.inr ⟨by rw [ht, hid, hatt], hb⟩)
  | sweep _ hst =>
    have hu := hinUse _ (hrow ha)
    rw [hst] at hu
    rcases hu with h | h <;> cases h
  | retire _ _ hst =>
    have hu := hinUse _ (hrow ha)
    rcases hst with hst | hst <;> rw [hst] at hu <;> rcases hu with h | h <;> cases h
  | commit | deadLetter | expireDead | expireRetry | hostCommit | hostFail | revoke | requeue =>
    cases ha

theorem Db.Holds.exec (ho : db.Holds good x) (hg : FreshSchedulerWrite db call)
    (he : ¬ call.Ends good x) (h : call.exec db = .ok (answer, db')) : db'.Holds good x := by
  intro r' hr' hid ha
  rcases (exec_effect h).row_of r' hr' with hn | ⟨r, hr, hs⟩
  · rw [hn.attempt] at ha
    cases ha
  · exact hs.good_kept hactive hinUse hr hg (hs.commandId_eq.symm.trans hid) ho he ha

theorem Db.Holds.perform {st st' : Store} {fault : Fault}
    (ho : st.db.Holds good x) (hg : FreshSchedulerWrite st.db call)
    (he : ¬ call.Ends good x) (h : st.perform call fault = some (ans, st')) :
    st'.db.Holds good x := by
  obtain ⟨-, ⟨answer, db', hx, rfl, -⟩ | ⟨rfl, -⟩⟩ := Store.perform_eq_some h
  · exact ho.exec hactive hinUse hg he hx
  · exact ho

end Rows

section Requests

variable {txn : Txn}

theorem Txn.not_ends_of_isClient (h : txn.isClient) : ¬ Call.Ends good ⟨txn, now, uuid⟩ x := by
  rintro (⟨w, ht, -⟩ | ⟨ht, -⟩) <;> simp only at ht <;> subst ht <;> cases h

theorem Poll.not_ends (q : Poll) : ¬ Call.Ends good ⟨q.txn, now, uuid⟩ x := by
  rintro (⟨w, ht, -⟩ | ⟨ht, -⟩) <;> cases q <;> cases ht

theorem Proc.request_ends (hactive : ∀ s : CommandStatus, s.isActive → good s)
    (hreq : p.request now choice = some (some txn)) (he : Call.Ends good ⟨txn, now, uuid⟩ x) :
    ∃ id cmd rest r, p = settling id (cmd :: rest) r ∧ cmd.ref = x
      ∧ (r.status = .succeeded → ¬ good .succeeded) := by
  unfold request at hreq
  split at hreq
  case h_8 id cmd rest r =>
    split at hreq <;> cases hreq
    rename_i a ha
    refine ⟨id, cmd, rest, r, rfl, ?_⟩
    unfold settleTxn at he
    split_ifs at he with hs hr
    · obtain ⟨w, ht, -⟩ | ⟨ht, hb⟩ := he
      · cases ht
      · simp at ht
        refine ⟨?_, fun _ => hb⟩
        simp [ref, ha, ht.1, ht.2]
    · obtain ⟨w, ht, hid, hb⟩ | ⟨ht, -⟩ := he
      · simp at ht
        refine ⟨?_, fun h => absurd h hs⟩
        have hc : cmd.commandId = x.commandId := by rw [← hid, ← ht.1]; rfl
        simp [ref, ha, hc, ht.2]
      · cases ht
    · obtain ⟨w, ht, -⟩ | ⟨ht, -⟩ := he <;> cases ht
  case h_2 =>
    cases hreq
    obtain ⟨w, ht, -, hb⟩ | ⟨ht, -⟩ := he
    · simp at ht
      rw [← ht.1] at hb
      exact absurd (hactive _ rfl) hb
    · cases ht
  case h_4 =>
    obtain ⟨c, -, heq⟩ := map_eq_some_iff.1 hreq
    obtain rfl := Option.some.inj heq
    obtain ⟨w, ht, -, hb⟩ | ⟨ht, -⟩ := he <;> cases c <;> cases ht
    exact absurd (hactive _ rfl) hb
  case h_9 c =>
    cases hreq
    obtain ⟨w, ht, -, hb⟩ | ⟨ht, -⟩ := he <;> cases c <;> cases ht
    exact absurd (hactive _ rfl) hb
  all_goals try split_ifs at hreq
  all_goals cases hreq
  all_goals obtain ⟨w, ht, -⟩ | ⟨ht, -⟩ := he <;> cases ht

end Requests

/-- `own p` are attempts process `p` carries and has still to close: it takes up none but by the
lease of its batch, and drops an attempt when it ends it with a status that is not `good`. -/
structure Tracks (own : Proc → List CommandAttemptRef) (good : CommandStatus → Prop) : Prop where
  active : ∀ s : CommandStatus, s.isActive → good s
  inUse : ∀ s, good s → s.InUse
  refs : ∀ p, own p ⊆ p.refs
  next : ∀ {choice ans p q}, Proc.Next choice ans p q → (∀ node group, p ≠ .batch node group) →
    own q ⊆ own p
  ends : ∀ {choice ans id cmd rest r q}, Proc.Next choice ans (.settling id (cmd :: rest) r) q →
    ((cmd :: rest).map (·.commandId)).Nodup → (r.status = .succeeded → ¬ good .succeeded) →
    cmd.ref ∉ own q

/-- Every attempt a process owns has a `good` status where its row carries it. -/
def World.Held (w : World) (own : Proc → List CommandAttemptRef) (good : CommandStatus → Prop) :
    Prop :=
  ∀ p ∈ w.procs, ∀ x ∈ own p, w.store.db.Holds good x

theorem Proc.Apart.not_mem {st : Store} {p q : Proc} (h : p.Apart st q) (hp : p.Batched st)
    (hx : x ∈ p.refs) : x ∉ q.refs := by
  obtain ⟨n, hn⟩ := hp
  exact fun hq => h x hx x hq n n (hn x hx) (hn x hx) rfl

variable {own : Proc → List CommandAttemptRef}

theorem World.Held.step {w w' : World} {op : Op} (hT : Tracks own good) (hd : Dispatched w)
    (hw : w.Held own good) (hg : w.Meets FreshSchedulerWrite op) (h : w.step op = some w') :
    w'.Held own good := by
  rcases World.step_cases h with ⟨txn, ans, hc, hca, hp, hps⟩ | ⟨q, ans, hca, hp, hps⟩
    | ⟨p, rest, choice, t, ans, -, hpe, hreq, hps, hca⟩
  · intro p hm x hx
    rw [hps] at hm
    exact (hw p hm x hx).perform hT.active hT.inUse (hg _ hca) (Txn.not_ends_of_isClient hc) hp
  · intro p hm x hx
    rw [hps] at hm
    rcases mem_append.1 hm with hm | hm
    · exact (hw p hm x hx).perform hT.active hT.inUse (hg _ hca) q.not_ends hp
    have := hT.refs p hx
    rw [(Poll.refs_of_mem_spawn hm).1] at this
    cases this
  · have hpm : p ∈ w.procs := hpe.mem_iff.2 mem_cons_self
    obtain ⟨hpr, -⟩ := List.pairwise_cons.1 ((hpe.pairwise_iff fun h => h.symm).1 hd.apart)
    have hk : ∀ x, w.store.db.Holds good x →
        (∀ txn, t = some txn → ¬ Call.Ends good ⟨txn, op.now, op.uuid⟩ x) →
        w'.store.db.Holds good x := fun x ho he => by
      rcases hca with ⟨-, heq, -⟩ | ⟨txn, rfl, hc, hp⟩
      · rwa [heq]
      · exact ho.perform hT.active hT.inUse (hg _ hc) (he txn rfl) hp
    intro q hm x hx
    rw [hps] at hm
    rcases mem_append.1 hm with hre | hnew
    · have hq : q ∈ w.procs := hpe.mem_iff.2 (mem_cons_of_mem _ hre)
      refine hk x (hw q hq x hx) fun txn ht he => ?_
      subst ht
      obtain ⟨id, cmd, todo, r, rfl, rfl, -⟩ := request_ends hT.active hreq he
      exact (hpr q hre).not_mem (hd.batched _ hpm) mem_cons_self (hT.refs q hx)
    · have hne := resume_next hreq hnew
      rcases hne.refs_cases hreq (hca.imp (fun ⟨ht, heq, _⟩ => ⟨ht, heq⟩)
        fun ⟨t, ht, _, hp⟩ => ⟨t, ht, hp⟩) with
        ⟨hnb, -⟩ | ⟨group, ls, call, db', rfl, hf, hex, heq, -, hrf⟩
      · refine hk x (hw p hpm x (hT.next hne hnb hx)) fun txn ht he => ?_
        subst ht
        obtain ⟨id, cmd, todo, r, rfl, rfl, hb⟩ := request_ends hT.active hreq he
        exact hT.ends hne (hd.nodup _ hpm) hb hx
      · have hl := (hrf x).1 (hT.refs _ hx)
        have hfr : w.store.db.Holds good x := fun r hr hid ha => by
          obtain ⟨n, hn⟩ := hd.lease.issued r hr _ ha
          exact absurd rfl (hf.not_issued hex hl _ hn)
        refine hk x hfr fun txn ht he => ?_
        subst ht
        obtain ⟨id, cmd, todo, r, rfl, -, -⟩ := request_ends hT.active hreq he
        cases hne with
        | settle _ hq => rcases mem_settled hq with h | ⟨-, -, -, h⟩ <;> cases h

def AgentResult.toClose (r : AgentResult) : List CommandAttemptRef :=
  if r.status = .succeeded then r.attempts else []

theorem AgentResult.toClose_subset (r : AgentResult) : r.toClose ⊆ r.attempts := by
  unfold toClose
  split_ifs
  · exact List.Subset.refl _
  · exact nil_subset _

def Proc.owned : Proc → List CommandAttemptRef
  | starting group | executing group _ => group.map ref
  | settling _ todo r => todo.map ref ++ r.toClose
  | queued r | committing r .start => r.toClose
  | committing _ (.mark todo _) => todo
  | committing r _ => r.attempts
  | _ => []

def Proc.running : Proc → List CommandAttemptRef
  | starting group | executing group _ => group.map ref
  | _ => []

theorem Proc.owned_subset_refs (p : Proc) : p.owned ⊆ p.refs := by
  cases p with
  | starting | executing => exact List.Subset.refl _
  | settling id todo r =>
    exact List.append_subset.2 ⟨List.subset_append_left ..,
      List.subset_append_of_subset_right _ r.toClose_subset⟩
  | queued r => exact r.toClose_subset
  | committing r stage =>
    cases stage with
    | start => exact r.toClose_subset
    | dedup | insert => exact List.Subset.refl _
    | mark => exact List.subset_append_left ..
  | batch | outstanding | written | expiry | exhausted | auditing | retriable =>
    exact nil_subset _

theorem Proc.owned_settling_tail (id : String) (cmd : AgentCommand) (rest : List AgentCommand)
    (r : AgentResult) : (settling id rest r).owned ⊆ (settling id (cmd :: rest) r).owned :=
  fun _ hx => mem_cons_of_mem _ hx

theorem Proc.Next.owned_subset {p q : Proc} (h : Next choice ans p q)
    (hp : ∀ node group, p ≠ batch node group) : q.owned ⊆ p.owned := by
  cases h with
  | lease => exact absurd rfl (hp _ _)
  | start | beat | send | receive => exact List.Subset.refl _
  | @finish primary group hb e =>
    intro x hx
    rcases mem_append.1 hx with hx | hx
    · obtain ⟨cmd, hc, rfl⟩ := mem_map.1 hx
      exact mem_map_of_mem (mem_of_orderedGroup hc)
    · have := (executeCommand primary e).toClose_subset hx
      rw [attempts_executeCommand, mem_singleton] at this
      rw [this]
      exact mem_cons_self
  | sent | audit => exact nil_subset _
  | skip => exact owned_settling_tail ..
  | @settle id cmd rest r a q ha hq =>
    rcases mem_settled hq with rfl | ⟨hs, -, -, rfl⟩
    · exact owned_settling_tail ..
    have hr : cmd.ref = ⟨cmd.commandId, a⟩ := by simp [ref, ha]
    intro x hx
    simp only [owned, toClose, hs, if_true, attempts, map_cons, mem_append, mem_cons, hr] at hx ⊢
    tauto
  | @commit r stage =>
    rcases committed_cases r stage ans with ⟨_, h⟩ | ⟨rfl, hs, h⟩ | ⟨rfl, h⟩ | ⟨_, hs, hm, h⟩
      | ⟨x, rest, _, rfl, h⟩ <;> rw [h]
    · exact nil_subset _
    · simp only [owned, toClose, hs]
      exact List.Subset.refl _
    · exact List.Subset.refl _
    · cases stage with
      | start =>
        simp [owned, toClose, hs rfl]
        exact List.Subset.refl _
      | dedup | insert => exact List.Subset.refl _
      | mark => exact absurd rfl (hm _ _)
    · exact List.subset_cons_self ..

theorem tracks_owned : Tracks owned CommandStatus.InUse where
  active _ h := .inl h
  inUse _ h := h
  refs := owned_subset_refs
  next := Proc.Next.owned_subset
  ends := by
    intro choice ans id cmd rest r q hn hnd hb hx
    have hf : r.status ≠ .succeeded := fun h => hb h (.inr rfl)
    have hr : cmd.ref ∉ (settling id rest r).owned := fun hx => by
      simp only [owned, toClose, hf, if_false, append_nil] at hx
      exact ref_not_mem_of_nodup hnd hx
    cases hn with
    | skip => exact hr hx
    | settle _ hq =>
      rcases mem_settled hq with rfl | ⟨hs, -⟩
      · exact hr hx
      · exact hf hs

theorem tracks_running : Tracks running fun s => s.isActive = true where
  active _ h := h
  inUse _ h := .inl h
  refs p := by cases p <;> first | exact List.Subset.refl _ | exact nil_subset _
  next := by
    intro choice ans p q hn hnb
    cases hn with
    | lease => exact absurd rfl (hnb _ _)
    | start | beat => exact List.Subset.refl _
    | settle _ hq => rcases mem_settled hq with rfl | ⟨-, -, -, rfl⟩ <;> exact nil_subset _
    | @commit r stage =>
      rcases committed_cases r stage ans with ⟨_, h⟩ | ⟨-, -, h⟩ | ⟨-, h⟩ | ⟨_, -, -, h⟩
        | ⟨_, _, _, -, h⟩ <;> rw [h] <;> exact nil_subset _
    | finish | sent | send | skip | receive | audit => exact nil_subset _
  ends := by
    intro choice ans id cmd rest r q hn hnd hb hx
    cases hn with
    | skip => cases hx
    | settle _ hq => rcases mem_settled hq with rfl | ⟨-, -, -, rfl⟩ <;> cases hx

end Choruz
