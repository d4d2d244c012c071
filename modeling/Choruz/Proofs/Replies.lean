import Choruz.Proofs.CommitResult

/-!
# Replies

A command that was marked succeeded is the writer's until its reply is written, as long as nobody
leases or fences its session in between.
-/

namespace Choruz

open Relational World AgentCommand Proc

variable {call : Call} {answer : Answer} {db db' : Db} {w w' : World} {op : Op}
  {now : Timestamp} {uuid : ℕ → String}

variable {ans : SessionResult Answer} {cmd : AgentCommand} {q : Proc} {ct : String × String}
  {r : AgentResult}

theorem Proc.delivers_settled {st' : Store} {id a : String}
    {rest : List AgentCommand} (hi : MarksInv w) (hm : settling id (cmd :: rest) r ∈ w.procs)
    (hd : (settling id (cmd :: rest) r).Delivers w.store.db) (ha : cmd.currentAttemptId = some a)
    (hq : q ∈ settled id cmd a rest r ans)
    (hp : w.store.perform ⟨settleTxn now cmd a r, now, uuid⟩ .none = some (ans, st'))
    (hcu : ∀ x, ¬ Call.Closes ⟨settleTxn now cmd a r, now, uuid⟩ x →
      w.store.db.Current x → st'.db.Current x) : q.Delivers st'.db := by
  have href : cmd.ref = ⟨cmd.commandId, a⟩ := by simp [ref, ha]
  have hr : ∀ x ∈ r.toClose, x ∉ rest.map ref → x ≠ cmd.ref →
      w.store.db.Current x := fun x hx hn hne =>
    hd x hx fun h => (mem_cons.1 h).elim hne hn
  rcases settle_cases hq hp with ⟨hs, ⟨answer, db', -, hx, rfl⟩, hc⟩ | ⟨hs, rfl, hid, rfl⟩
    | ⟨hs, rfl⟩
  · have hnew : db'.Current cmd.ref := by
      rw [href]
      exact current_of_mark hx
    have hk : ∀ x ∈ r.toClose, x ∉ rest.map ref → db'.Current x := fun x hx hn => by
        by_cases hne : x = cmd.ref
        · rwa [hne]
        refine hcu x (fun hcl => ?_) (hr x hx hn hne)
        simp [settleTxn, hs] at hcl
        obtain ⟨_, ht, -⟩ | ht | ⟨_, ht, -⟩ := hcl <;> cases ht
    rcases hc with ⟨-, rfl⟩ | ⟨-, rfl⟩
    · exact hk
    intro x hx hn
    rcases (mem_toClose_append hs).1 hx with hx | hx
    · exact hk x hx hn
    · rwa [hx, ← href]
  · refine fun x hx hn => hr x hx hn fun hne => ?_
    subst hne
    have hsnd := hi.sound _ hm
    have hma : w.store.Marked cmd.ref := by
      rw [AgentResult.toClose_eq hs] at hx
      rcases mem_cons.1 hx with h | hx
      · exact absurd ((congrArg CommandAttemptRef.commandId h).trans hsnd.2.1) hid
      · exact hsnd.2.2.2 _ hx
    obtain ⟨n, hn⟩ := hi.issued _ hma
    have hrep := hi.complete _ hm n _ mem_cons_self hn _ hn hma
    exact hrep.2 mem_cons_self
  · intro x hx
    rw [AgentResult.toClose, if_neg hs] at hx
    cases hx

def Db.HasTurn (db : Db) (ct : String × String) : Prop :=
  ∃ r ∈ db.agentCommands, r.commandId = ct.1 ∧ r.turnId = ct.2

theorem Db.HasTurn.exec (h : db.HasTurn ct) (hx : call.exec db = .ok (answer, db')) :
    db'.HasTurn ct := by
  obtain ⟨r, hr, hid, ht⟩ := h
  obtain ⟨r', hr', hs⟩ := (exec_effect hx).row_to r hr
  exact ⟨r', hr', hs.commandId_eq.trans hid, hs.turnId_eq.trans ht⟩

def AgentCommand.turn (cmd : AgentCommand) : String × String := (cmd.commandId, cmd.turnId)

def AgentResult.turn (r : AgentResult) : String × String := (r.commandId, r.turnId)

def Proc.turns : Proc → List (String × String)
  | batch _ group | starting group | executing group _ => group.map turn
  | settling _ todo r => r.turn :: todo.map turn
  | queued r | committing r _ | written r _ => [r.turn]
  | _ => []

theorem Proc.Next.turns_subset {choice : Choice} {p : Proc} (h : Next choice ans p q) :
    q.turns ⊆ p.turns := by
  cases h with
  | lease _ hl =>
    intro ct hct
    obtain ⟨cmd', hc', rfl⟩ := mem_map.1 hct
    obtain ⟨cmd, hc, l, -, -, rfl⟩ := (withLeases_eq_some hl).2 cmd' hc'
    exact mem_map.2 ⟨cmd, hc, rfl⟩
  | start | beat | receive | send => exact List.Subset.refl _
  | @finish primary group hb e =>
    refine List.cons_subset.2 ⟨?_, fun ct hct => ?_⟩
    · have : (executeCommand primary e).turn = primary.turn := by cases e <;> rfl
      rw [this]
      exact mem_cons_self
    · obtain ⟨cmd, hc, rfl⟩ := mem_map.1 hct
      exact mem_map_of_mem (mem_of_orderedGroup hc)
  | sent | audit => exact nil_subset _
  | skip => exact List.cons_subset_cons _ (List.subset_cons_self ..)
  | settle _ hq =>
    rcases mem_settled hq with rfl | ⟨-, -, -, rfl⟩ <;>
      exact List.cons_subset_cons _ (List.subset_cons_self ..)
  | @commit r stage =>
    rcases committed_cases r stage ans with ⟨_, h⟩ | ⟨-, -, h⟩ | ⟨-, h⟩ | ⟨_, -, -, h⟩
      | ⟨_, _, _, -, h⟩ <;> rw [h] <;> exact List.Subset.refl _

theorem Poll.hasTurn_of_mem_spawn {st st' : Store} {poll : Poll} {fault : Fault}
    (hp : st.perform ⟨poll.txn, now, uuid⟩ fault = some (ans, st')) (hq : q ∈ poll.spawn ans)
    (hct : ct ∈ q.turns) : st'.db.HasTurn ct := by
  unfold Poll.spawn at hq
  split at hq
  case h_1 node limit cs =>
    obtain ⟨group, hgrp, rfl⟩ := mem_map.1 hq
    obtain ⟨cmd, hc, rfl⟩ := mem_map.1 hct
    obtain ⟨agent, -, rfl⟩ := mem_map.1 hgrp
    obtain ⟨-, ⟨answer, db', hx, rfl, ha⟩ | ⟨-, ha⟩⟩ := Store.perform_eq_some hp
    · obtain ha | ⟨-, m, ha⟩ := ha <;> cases ha
      obtain ⟨rfl, rfl⟩ := hx
      have hpe := (List.mem_insertionSort _).1 (List.mem_of_mem_take (mem_of_mem_filter hc))
      exact ⟨cmd, mem_of_mem_filter hpe, rfl, rfl⟩
    · obtain ⟨e, -, ha⟩ | ⟨-, m, ha⟩ := ha <;> cases ha
  case h_5 => cases hq
  all_goals
    obtain ⟨_, -, rfl⟩ := mem_map.1 hq
    cases hct

structure RepliesInv (w : World) : Prop where
  terminal : TerminalInv w
  marks : MarksInv w
  replies : ∀ e ∈ w.store.db.conversationEvents, e.turnId.isSome → e.eventType = "reply"
  delivers : ∀ p ∈ w.procs, p.Delivers w.store.db
  turns : ∀ p ∈ w.procs, ∀ ct ∈ p.turns, w.store.db.HasTurn ct

theorem RepliesInv.start (hd : db.Initial) : RepliesInv (start db) where
  terminal := .start hd
  marks := .start hd
  replies e he := by
    change e ∈ db.conversationEvents at he
    rw [hd.events] at he
    cases he
  delivers _ hp := absurd hp not_mem_nil
  turns _ hp := absurd hp not_mem_nil

section

variable (hi : RepliesInv w) (hg : w.KeepsReplies op) (h : w.step op = some w')
include hi hg h

theorem RepliesInv.carries
    (xs : List CommandAttemptRef) (hxs : ∀ x ∈ xs, ∀ call ∈ w.call? op, ¬ call.Closes x) :
    w.store.db.Carries w'.store.db xs where
  current x hx hcur := by
    rcases step_store h with heq | ⟨call, answer, db', hc, hiss, -, hex, heq⟩ <;> rw [heq]
    · exact hcur
    · exact hcur.exec (hg.2 call hc) hiss (hxs x hx call hc) hex
  committed := by
    rintro c ⟨r, hr, hid, hst⟩
    obtain ⟨r', hr', hid', hst'⟩ :=
      hi.terminal.row_kept (hg.2.imp fun _ _ => And.left) h hr (.inl hst)
    exact ⟨r', hr', hid'.trans hid, hst'.trans hst⟩
  events := by
    rintro t ⟨e, he, ht⟩
    rcases step_store h with heq | ⟨call, answer, db', -, -, -, hex, heq⟩ <;> rw [heq]
    · exact ⟨e, he, ht⟩
    · exact ⟨e, (exec_records hex).events.subset he, ht⟩

theorem RepliesInv.delivers_step : ∀ q ∈ w'.procs, q.Delivers w'.store.db := by
  intro q hq
  rcases procs_cases hi.marks.dispatched h hq with ⟨hm, hspr⟩ | ⟨poll, ans, -, hs⟩
    | ⟨p, hp, choice, t, ans, hr, hne, hca⟩
  · refine (hi.delivers q hm).mono (hi.carries hg h _ fun x hx call hc hcl => ?_)
    obtain ⟨n, hn, hnot⟩ := hspr call hc x (.inl hcl)
    exact hnot x hx hn
  · rcases Poll.mem_spawn hs with ⟨_, _, rfl⟩ | ⟨_, rfl⟩ | ⟨_, rfl⟩ | ⟨_, rfl⟩ <;> trivial
  · have hcu : ∀ x, (∀ txn, t = some txn → ¬ Call.Closes ⟨txn, op.now, op.uuid⟩ x) →
        w.store.db.Current x → w'.store.db.Current x := fun x hx => by
      obtain ⟨-, heq⟩ | ⟨txn, ht, hc, -⟩ := hca
      · rw [heq]
        exact id
      · refine (hi.carries hg h [x] fun y hy call hca => ?_).current x mem_cons_self
        obtain rfl := Option.some.inj (hc.symm.trans hca)
        rw [mem_singleton.1 hy]
        exact hx txn ht
    have hcr := hi.carries hg h [] fun _ hx => absurd hx not_mem_nil
    have hd := hi.delivers p hp
    rw [hg.1] at hca
    have han : t = none ∧ w'.store = w.store ∨ ∃ txn, t = some txn
        ∧ w.store.perform ⟨txn, op.now, op.uuid⟩ .none = some (ans, w'.store) :=
      hca.imp id fun ⟨txn, ht, _, hpe⟩ => ⟨txn, ht, hpe⟩
    cases hne with
    | lease | start | beat | sent | audit => trivial
    | @finish primary group hb e =>
      intro x hx hn
      have hx := (executeCommand primary e).toClose_subset hx
      rw [attempts_executeCommand, mem_singleton] at hx
      refine absurd (mem_map.2 ⟨primary, ?_, hx.symm⟩) hn
      simp [orderedGroup]
    | send =>
      have ht : t = none := by cases choice <;> simp_all [request]
      exact fun x hx => hcu x (by simp [ht]) (hd x hx not_mem_nil)
    | receive =>
      have ht : t = none := by cases choice <;> simp_all [request]
      exact fun x hx => hcu x (by simp [ht]) (hd x hx)
    | skip _ ha =>
      have := (hi.marks.sound _ hp).1 _ mem_cons_self
      rw [ha] at this
      cases this
    | settle ha hq =>
      obtain rfl := request_settling ha hr
      obtain ⟨hno, -⟩ | ⟨txn, heq, hpe⟩ := han
      · cases hno
      obtain rfl := Option.some.inj heq
      refine delivers_settled hi.marks hp hd ha hq hpe fun x hcl => hcu x ?_
      intro txn ht
      rwa [← Option.some.inj ht]
    | commit =>
      exact delivers_committed hd hr han hcu hcr.committed hcr.events

theorem RepliesInv.step : RepliesInv w' where
  terminal := hi.terminal.step (hg.2.imp fun _ _ hk => hk.1.1) h
  marks := hi.marks.step hg.1 h
  replies := by
    rcases step_store h with heq | ⟨call, answer, db', -, hiss, -, he, heq⟩ <;> rw [heq]
    · exact hi.replies
    · exact (exec_records he).events.replies hiss hi.replies
  delivers := hi.delivers_step hg h
  turns := by
    have hke : ∀ ct, w.store.db.HasTurn ct → w'.store.db.HasTurn ct := fun ct hc => by
      rcases step_store h with heq | ⟨call, answer, db', -, -, -, he, heq⟩ <;> rw [heq]
      · exact hc
      · exact hc.exec he
    intro q hq ct hc
    rcases procs_cases hi.marks.dispatched h hq with ⟨hm, -⟩ | ⟨poll, ans, hpe, hs⟩
      | ⟨p, hp, choice, t, ans, -, hn, -⟩
    · exact hke ct (hi.turns q hm ct hc)
    · exact Poll.hasTurn_of_mem_spawn hpe hs hc
    · exact hke ct (hi.turns p hp ct (hn.turns_subset hc))

end

/-- A result that was marked succeeded is committed with its reply, as are the others leased with it. -/
theorem no_reply_dropped {db0 : Db} (hd : db0.Initial)
    (hrun : Steps (restrict step World.KeepsReplies) (start db0) w)
    {result : SessionResult WriteOutcome} (hp : written r result ∈ w.procs)
    (hma : (r.commandId, r.attemptId) ∈ w.store.succeeded) :
    (∃ outcome, result = .ok outcome ∧ outcome ≠ .skippedStaleAttempt)
      ∧ (∃ c ∈ w.store.db.agentCommands, c.commandId = r.commandId ∧ c.status = .committed
        ∧ (r.isBlank = false → ∃ e ∈ w.store.db.conversationEvents,
          e.eventType = "reply" ∧ e.turnId = some c.turnId))
      ∧ ∀ n c a, ⟨n, r.commandId, r.attemptId⟩ ∈ w.store.issued → ⟨n, c, a⟩ ∈ w.store.issued →
        (c, a) ∈ w.store.succeeded →
          ∃ row ∈ w.store.db.agentCommands, row.commandId = c ∧ row.status = .committed := by
  have hinv : RepliesInv w := hrun.keeps RepliesInv.step (.start hd)
  have hcpl := hinv.marks.complete _ hp
  have hpr : r.primary ∈ (written r result).refs := mem_cons_self
  obtain ⟨n, hn⟩ := hinv.marks.issued r.primary hma
  have hr : r.primary ∈ r.toClose := hcpl n _ hpr hn _ hn hma
  have hs : r.status = .succeeded := by
    by_contra hs
    rw [AgentResult.toClose, if_neg hs] at hr
    cases hr
  obtain ⟨ho, hre, hcom⟩ := hinv.delivers _ hp hs
  refine ⟨ho, ?_, fun m c a hm hc hmr => ?_⟩
  · obtain ⟨row, hrow, hid, hst⟩ := hcom _ mem_cons_self
    refine ⟨row, hrow, hid, hst, fun hb => ?_⟩
    obtain ⟨e, he, ht⟩ := hre hb
    obtain ⟨row', hr', hid', ht'⟩ := hinv.turns _ hp _ mem_cons_self
    obtain rfl := eq_of_key_eq hr' hrow (hid'.trans hid.symm)
    exact ⟨e, he, hinv.replies e he (by rw [ht]; rfl), by rw [ht, ht']; rfl⟩
  · have hmem : (⟨c, a⟩ : CommandAttemptRef) ∈ r.toClose := hcpl m _ hpr hm ⟨c, a⟩ hc hmr
    rw [AgentResult.toClose_eq hs] at hmem
    exact hcom _ hmem

theorem no_reply_dropped_batch : ∃ (w : World) (r : AgentResult) (outcome : WriteOutcome),
      written r (.ok outcome) ∈ w.procs ∧ outcome ≠ .skippedStaleAttempt
        ∧ (∃ e ∈ w.store.db.conversationEvents, e.eventType = "reply")
        ∧ ∃ row ∈ w.store.db.agentCommands, row.commandId = "c2" ∧ row.status = .committed := by
  let ops : List Op := batchLeased ++ [
    .resume 0, { action := .run 0 (.finish (.ok "done" 0 0 none) none) },
    .resume 0, .resume 0, .resume 0,
    .resume 0, .resume 0, .resume 0, .resume 0 ["e"], .resume 0, .resume 0, .resume 0]
  have hr : ∃ w, run (restrict step World.KeepsReplies) (start {}) ops = some w
      ∧ ∃ r result, w.procs[0]? = some (.written r result)
        ∧ (r.commandId, r.attemptId) ∈ w.store.succeeded ∧ r.isBlank = false
        ∧ ∃ n, ⟨n, r.commandId, r.attemptId⟩ ∈ w.store.issued ∧ ⟨n, "c2", "a2"⟩ ∈ w.store.issued
          ∧ ("c2", "a2") ∈ w.store.succeeded :=
    ⟨_, rfl, _, _, rfl, by decide, by decide, 4, by decide, by decide, by decide⟩
  obtain ⟨w, h, r, result, ha, hm, hbl, n, hn, hn2, hm2⟩ := hr
  have hmem := mem_of_getElem? ha
  obtain ⟨⟨outcome, rfl, ho⟩, ⟨c, -, -, -, hrp⟩, hb⟩ :=
    no_reply_dropped Db.initial_empty (steps_of_run h) hmem hm
  obtain ⟨e, he, ht, -⟩ := hrp hbl
  exact ⟨w, r, outcome, hmem, ho, ⟨e, he, ht⟩, hb n _ _ hn hn2 hm2⟩

/-- The agent's next command is leased while the result of its last one is queued: the session's
epoch moves on, and the writer takes the result for a superseded attempt's. -/
theorem reply_dropped_by_next_lease : ∃ w, Steps step (start {}) w ∧ ∃ r,
      w.procs[1]? = some (.written r (.ok .skippedStaleAttempt))
        ∧ (r.commandId, r.attemptId) ∈ w.store.succeeded ∧ r.isBlank = false
        ∧ ∃ c ∈ w.store.db.agentCommands, c.commandId = r.commandId ∧ c.status = .succeeded
          ∧ c.currentAttemptId = some r.attemptId ∧ c.attemptCount = 1
          ∧ ∀ e ∈ w.store.db.conversationEvents, e.turnId ≠ some c.turnId := by
  let ops : List Op := [ .ofClient (.upsertSession "s" "agent" "conv"),
    .ofClient (.insertCommand (.sample "c1" "s")),
    .ofPoll (.pending "node" 10), .resume 0 ["a1"], .resume 0,
    { action := .run 0 (.finish (.ok "done" 0 0 none) none) }, .resume 0, .resume 0,
    .ofClient (.insertCommand (.sample "c2" "s")), .ofPoll (.pending "node" 10), .resume 1 ["a2"],
    .resume 0, .resume 1]
  refine ⟨_, steps_of_run (show run step (start {}) ops = some _ from rfl), _, rfl, ?_⟩
  decide

end Choruz
