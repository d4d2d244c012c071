import Choruz.Proofs.Holding

/-!
# One reply per turn

Whatever results the writers and the runtime hosts deliver, an event is inserted only where it
collides with none on its turn or its sequence number.  A run of `commit_result` inserts only in its
`insert` stage, which a failed result does not reach and a stale attempt does not pass.
-/

namespace Choruz

open Relational

variable {call : Call} {answer : Answer} {db db' : Db}

variable {es : List ConversationEventRow} {now : Timestamp} {a : String} {uuid : ℕ → String}
  {r : HostResult}

/-- No two events share a turn id, or a conversation and a sequence number. -/
structure EventsUnique (es : List ConversationEventRow) : Prop where
  turns : (es.filterMap (·.turnId)).Nodup
  seqs : (es.map fun e => (e.conversationId, e.seq)).Nodup

theorem EventsUnique.append (h : EventsUnique es) {e : ConversationEventRow}
    (he : NewEvent call es e) : EventsUnique (es ++ [e]) := by
  refine ⟨?_, ?_⟩
  · rw [List.filterMap_append, List.nodup_append]
    refine ⟨h.turns, ?_, fun t ht t' ht' heq => ?_⟩
    · rw [List.filterMap_cons]
      split <;> simp
    · obtain ⟨r, hr, hrt⟩ := mem_filterMap.1 ht
      obtain ⟨r', hr', hrt'⟩ := mem_filterMap.1 ht'
      rw [mem_singleton.1 hr'] at hrt'
      refine he.turn r hr (by rw [hrt]; rfl) ?_
      rw [hrt, hrt', heq]
  · refine nodup_map_snoc h.seqs fun r hr heq => ?_
    obtain ⟨hc, hs⟩ := Prod.mk.inj heq
    exact he.seq r hr hc hs

theorem EventsUnique.steps {es' : List ConversationEventRow} (h : EventStep call es es')
    (hu : EventsUnique es) : EventsUnique es' := by
  induction h with
  | refl => exact hu
  | tail _ hl ih =>
    obtain ⟨e, he, rfl⟩ := hl
    exact ih.append he

theorem SameEvents.refl (db : Db) : SameEvents db db := ⟨rfl, rfl, rfl⟩

theorem sameEvents_release (now : Timestamp) (k : String) (e : Option Int) :
    SameEvents db (db.releaseSessionIfNoActiveCommands now k e) :=
  ⟨Db.updateSessions_conversationEvents .., Db.updateSessions_eventOutbox ..,
    Db.updateSessions_outboxEvents ..⟩

theorem sameEvents_markCommitted {c : String}
    (h : db.markCommandCommittedForAttempt now c a = .ok db') : SameEvents db db' := by
  unfold Db.markCommandCommittedForAttempt at h
  split at h <;> cases h
  have hr := @sameEvents_release
  exact ⟨(hr ..).conversationEvents, (hr ..).eventOutbox, (hr ..).outboxEvents⟩

theorem sameEvents_hostFail {host : String} {c : AgentCommand} :
    SameEvents db (db.failRuntimeHostCommand now uuid host a c r) := by
  unfold Db.failRuntimeHostCommand
  extract_lets captured db0 err exhausted db1 db2
  have hb : SameEvents db db2 := by
    simp [db2, db1, db0]
    split_ifs <;> exact ⟨rfl, rfl, rfl⟩
  have hr : SameEvents db2 _ := sameEvents_release now c.sessionKey c.currentEpoch
  exact ⟨hr.conversationEvents.trans hb.conversationEvents,
    hr.eventOutbox.trans hb.eventOutbox, hr.outboxEvents.trans hb.outboxEvents⟩

theorem sameEvents_hostComplete {host c : String}
    (hs : r.succeeded = false ∨ db.commandAttemptIsCurrent c a = false)
    (h : db.completeRuntimeHostCommand now uuid host c a r = .ok db') : SameEvents db db' := by
  unfold Db.completeRuntimeHostCommand at h
  split at h
  · cases h
  rename_i row hl
  obtain ⟨hr, ho⟩ := filter_eq_some_iff.1 hl
  have hc : db.commandAttemptIsCurrent c a := by
    simp [Db.commandAttemptIsCurrent, hr, (Db.hostOwned_eq_true.1 ho).1]
  rcases hs with hf | hst
  · rw [hf] at h
    simp at h
    rw [← h]
    exact sameEvents_hostFail
  · cases hc.symm.trans hst

/-- A run of `commit_result`: a result that did not succeed is at its start. -/
def Proc.Job : Proc → Prop
  | committing r stage => r.status = .failed → stage = .start
  | written .. => True
  | _ => False

theorem Proc.Job.resume {p q : Proc} {t : Option Txn} {ans : SessionResult Answer} (hp : p.Job)
    (hr : p.request now .advance = some t) (hq : q ∈ p.resume .advance ans) : q.Job := by
  have hn := resume_next hr hq
  cases hn with
  | @commit r stage =>
    have hsu : ∀ {st : CommitStage}, (st = .start → r.status = .succeeded) →
        stage = st → r.status ≠ .failed := fun hs hst hf => by
      rw [hs (hst.symm.trans (hp hf))] at hf
      cases hf
    rcases committed_cases r stage ans with ⟨_, h⟩ | ⟨hst, hs, h⟩ | ⟨hst, h⟩ | ⟨_, hs, -, h⟩
      | ⟨_, _, _, hst, h⟩ <;> rw [h]
    · trivial
    · exact fun hf => absurd hf (hsu (fun _ => hs) hst)
    · exact fun hf => absurd hf (hsu (fun h => by cases h) hst)
    · exact fun hf => absurd hf (hsu hs rfl)
    · exact fun hf => absurd hf (hsu (fun h => by cases h) hst)
  | lease | start | beat | finish | sent | send | skip | settle | receive | audit => exact hp.elim

theorem Proc.Job.sameEvents {r : AgentResult} {stage : CommitStage} {t : Txn}
    (hp : (committing r stage).Job)
    (hsi : r.status = .failed ∨ db.commandAttemptIsCurrent r.commandId r.attemptId = false)
    (hr : (committing r stage).request now .advance = some (some t))
    (hx : Call.exec ⟨t, now, uuid⟩ db = .ok (answer, db')) : SameEvents db db' := by
  cases stage with
  | start =>
    simp only [request] at hr
    split_ifs at hr <;> cases hr
    cases hx
    exact .refl db
  | dedup =>
    cases hr
    cases hx
    exact .refl db
  | insert =>
    cases hr
    obtain ⟨⟨⟨id, seq⟩, db1⟩, hi, -⟩ := map_eq_ok.1 hx
    rcases hsi with hf | hs
    · cases hp hf
    · rw [(insertReplyEvent_eq_ok hi).1] at hs
      cases hs
  | mark todo outcome =>
    cases todo with
    | nil => cases hr
    | cons x rest =>
      cases hr
      exact sameEvents_markCommitted (write_eq_ok hx)

theorem Db.perform_cases (db : Db) (call : Call) (fault : Fault) : (db.perform call fault).2 = db
      ∨ ∃ ans db', call.exec db = .ok (ans, db') ∧ (db.perform call fault).2 = db' := by
  unfold Db.perform
  rcases hx : call.exec db with e | ⟨ans, db'⟩ <;> cases fault
  · exact .inl rfl
  · exact .inl rfl
  · exact .inl rfl
  · exact .inr ⟨ans, db', rfl, rfl⟩
  · exact .inl rfl
  · exact .inr ⟨ans, db', rfl, rfl⟩

theorem EventsUnique.perform (h : EventsUnique db.conversationEvents) (call : Call)
    (fault : Fault) : EventsUnique (db.perform call fault).2.conversationEvents := by
  rcases db.perform_cases call fault with heq | ⟨answer, db', hx, heq⟩ <;> rw [heq]
  · exact h
  · exact h.steps (exec_records hx).events

structure DeliveriesInv (d : Deliveries) : Prop where
  unique : EventsUnique d.db.conversationEvents
  jobs : ∀ p ∈ d.jobs, p.Job

variable {d d' : Deliveries}

theorem Deliveries.advance_eq_some {i : ℕ} {fault : Fault}
    (h : d.step (.advance i now uuid fault) = some d') :
    ∃ p, d.jobs[i]? = some p ∧ ∃ t ans, p.request now .advance = some t
      ∧ d'.jobs = d.jobs.eraseIdx i ++ p.resume .advance ans ∧ (t = none ∧ d'.db = d.db
        ∨ ∃ txn, t = some txn ∧ d'.db = (d.db.perform ⟨txn, now, uuid⟩ fault).2) := by
  simp [Deliveries.step] at h
  split at h
  · cases h
  rename_i p hp
  refine ⟨p, hp, ?_⟩
  split at h <;> cases h
  next hr => exact ⟨none, _, hr, rfl, .inl ⟨rfl, rfl⟩⟩
  next txn hr => exact ⟨some txn, _, hr, rfl, .inr ⟨txn, rfl, rfl⟩⟩

theorem DeliveriesInv.step {op : Delivery} (hi : DeliveriesInv d) (h : d.step op = some d') :
    DeliveriesInv d' := by
  cases op with simp [Deliveries.step] at h
  | submit r =>
    subst h
    exact ⟨hi.unique, forall_mem_snoc hi.jobs fun _ => rfl⟩
  | advance i now uuid fault =>
    obtain ⟨p, hp, t, ans, hr, hj, hc⟩ := Deliveries.advance_eq_some h
    refine ⟨?_, fun q hq => ?_⟩
    · rcases hc with ⟨-, heq⟩ | ⟨txn, -, heq⟩ <;> rw [heq]
      · exact hi.unique
      · exact hi.unique.perform _ _
    · rw [hj] at hq
      rcases mem_append.1 hq with hq | hq
      · exact hi.jobs q (List.mem_of_mem_eraseIdx hq)
      · exact (hi.jobs p (mem_of_getElem? hp)).resume hr hq
  | call c fault =>
    subst h
    exact ⟨hi.unique.perform c fault, hi.jobs⟩

/-- A turn has at most one event and a sequence number names one event of its conversation; failed
and stale results write none. -/
theorem one_reply_per_turn {db0 : Db} (h0 : EventsUnique db0.conversationEvents)
    (hrun : Steps Deliveries.step { db := db0 } d) :
    (d.db.conversationEvents.filterMap (·.turnId)).Nodup
      ∧ (d.db.conversationEvents.map fun e => (e.conversationId, e.seq)).Nodup
      ∧ (∀ i r stage now uuid fault d', d.jobs[i]? = some (.committing r stage) →
        r.status = .failed ∨ d.db.commandAttemptIsCurrent r.commandId r.attemptId = false →
        d.step (.advance i now uuid fault) = some d' → SameEvents d.db d'.db)
      ∧ ∀ host c a result now uuid fault d',
        result.succeeded = false ∨ d.db.commandAttemptIsCurrent c a = false →
        d.step (.call ⟨.completeRuntimeHostCommand host c a result, now, uuid⟩ fault) = some d' →
        SameEvents d.db d'.db := by
  have hi : DeliveriesInv d := hrun.invariant DeliveriesInv.step
    ⟨h0, fun _ hp => absurd hp not_mem_nil⟩
  refine ⟨hi.unique.turns, hi.unique.seqs, ?_, ?_⟩
  · intro i r stage now uuid fault d' ha hsi hs
    obtain ⟨p, hp, t, ans, hr, -, hc⟩ := Deliveries.advance_eq_some hs
    obtain rfl := Option.some.inj (ha.symm.trans hp)
    rcases hc with ⟨-, heq⟩ | ⟨txn, rfl, heq⟩ <;> rw [heq]
    · exact .refl _
    · rcases d.db.perform_cases ⟨txn, now, uuid⟩ fault with h | ⟨answer, db', hx, h⟩ <;> rw [h]
      · exact .refl _
      · exact (hi.jobs _ (mem_of_getElem? ha)).sameEvents hsi hr hx
  · intro host c a result now uuid fault d' hsi hs
    simp [Deliveries.step] at hs
    subst hs
    rcases d.db.perform_cases ⟨.completeRuntimeHostCommand host c a result, now, uuid⟩ fault with
      h | ⟨answer, db', hx, h⟩ <;> rw [h]
    · exact .refl _
    · exact sameEvents_hostComplete hsi (write_eq_ok hx)

def deliveredTwice : List Delivery :=
  let ids : List String → ℕ → String := fun ids n => ids.getD n ""
  let advance : Delivery := .advance 1 0 (ids ["e1"]) .none
  [ .call ⟨.upsertSession "s" "agent" "conv", 0, ids []⟩ .none,
    .call ⟨.insertCommand (.sample "c1" "s"), 0, ids []⟩ .none,
    .call ⟨.assignLease "c1" "node", 0, ids ["a1"]⟩ .none,
    .submit (.sample "c1" "a1"),
    .submit (.sample "c1" "a1"),
    advance, advance, advance, advance, advance]

theorem one_reply_per_turn_delivered_twice : ∃ d d' : Deliveries, Steps Deliveries.step {} d
      ∧ d.db.conversationEvents.map (·.turnId) = [some "c1"]
      ∧ d.step (.advance 0 0 (fun _ => "e2") .none) = some d' ∧ SameEvents d.db d'.db := by
  have hr : ∃ d, run Deliveries.step {} deliveredTwice = some d
      ∧ d.jobs[0]? = some (.committing (.sample "c1" "a1") .start)
      ∧ d.db.commandAttemptIsCurrent "c1" "a1" = false
      ∧ d.db.conversationEvents.map (·.turnId) = [some "c1"]
      ∧ (d.step (.advance 0 0 (fun _ => "e2") .none)).isSome :=
    ⟨_, rfl, rfl, by decide, by decide, rfl⟩
  obtain ⟨d, h, ha, hst, hevs, hso⟩ := hr
  obtain ⟨d', hs⟩ := isSome_iff_exists.1 hso
  have hsts : Steps Deliveries.step {} d := steps_of_run h
  have he : EventsUnique [] := ⟨nodup_nil, nodup_nil⟩
  obtain ⟨-, -, hsa, -⟩ := one_reply_per_turn he hsts
  exact ⟨d, d', hsts, hevs, hs, hsa _ _ _ _ _ _ _ ha (.inr hst) hs⟩

end Choruz
