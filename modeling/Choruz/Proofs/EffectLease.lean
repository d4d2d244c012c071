import Choruz.Proofs.Effect

/-!
# The effect of the calls that lease, and what a call records

`assign_batch_leases` runs two loops, one over the sessions of its rows and one over the rows; each
has its invariant here.  `exec_effect` collects the effects of all calls.  An audit row that a call
appends is for a command it leaves in `dead_letter`, the retry scheduler's separate insert apart; an
event that it appends collides with none that is there.
-/

namespace Choruz

open Relational Call Table.Evolves Db

variable {call : Call} {answer : Answer} {db db' : Db}

section

variable {now : Timestamp} {node host : String} {e : Int} {c : AgentCommand} {b : RuntimeBinding}
  {ids : List String} {ls : List (String × LeaseAssignment)} {uuid : ℕ → String} {k : String}

def Session.leased (s : Session) (now : Timestamp) (node : String) : Session :=
  { s with
    epoch := s.epoch + 1
    executorNodeId := some node
    status := .active
    lastHeartbeatAt := some now
    updatedAt := now }

theorem leaseSession_eq_ok (h : db.leaseSession now k node = .ok (e, db')) :
    (∃ s ∈ db.sessionRegistry, s.sessionKey = k ∧ e = s.epoch + 1)
      ∧ db'.agentCommands = db.agentCommands ∧ (db.sessionRegistry).Evolves
        (fun s s' => s.sessionKey = k ∧ s' = s.leased now node ∨ s.sessionKey ≠ k ∧ s' = s)
        db'.sessionRegistry := by
  unfold leaseSession at h
  split at h <;> cases h
  rename_i s hl
  refine ⟨⟨s, mem_of_lookup hl, key_of_lookup hl, rfl⟩, updateSessions_agentCommands .., ?_⟩
  rw [updateSessions_sessionRegistry]
  exact evolves_updateWhere (fun s _ h => .inl ⟨of_decide_eq_true h, rfl⟩)
    fun s _ h => .inr ⟨of_decide_eq_false h, rfl⟩

theorem leaseSession_mem (h : db.leaseSession now k node = .ok (e, db')) :
    ∃ s ∈ db'.sessionRegistry, s.sessionKey = k ∧ s.epoch = e ∧ s.status = .active := by
  obtain ⟨⟨s, hs, hk, rfl⟩, -, he⟩ := leaseSession_eq_ok h
  obtain ⟨s', hs', ⟨-, rfl⟩ | ⟨hne, -⟩⟩ := he.exists_target hs
  · exact ⟨_, hs', hk, rfl, rfl⟩
  · exact absurd hk hne

theorem effect_leaseOne (hcl : ∀ r, call.closes db r = false) (hle : call.leases db = [c])
    (hm : c ∈ db.agentCommands)
    (hst : c.status = .pending ∨ c.status = .retryScheduled ∧ c.attemptCount < c.maxAttempts)
    {db1 : Db} (hses : db.leaseSession call.now c.sessionKey node = .ok (e, db1)) {a : String}
    (ha : (c.commandId, a) ∈ answer.leased) {m : Json} {f : AgentCommand → AgentCommand}
    {hf : ∀ c, (f c).commandId = c.commandId} (hfc : f c = { c with
      status := .leased, currentAttemptId := some a, currentEpoch := some e
      attemptCount := c.attemptCount + 1, metadata := m, updatedAt := call.now })
    (hd' : db' = db1.updateCommands (·.commandId = c.commandId) f hf) :
    Effect call answer db db' := by
  obtain ⟨-, hc, he⟩ := leaseSession_eq_ok hses
  obtain ⟨s, hs, hk, rfl, hact⟩ := leaseSession_mem hses
  subst hd'
  refine .of_evolves ?_ ?_
  · rw [updateCommands_agentCommands, hc]
    refine evolves_updateWhere (fun r hr hid => ?_) fun r _ hid => .keep (hcl r) ?_
    · rw [eq_of_key_eq hr hm (of_decide_eq_true hid), hfc]
      exact .lease (by simp [hle]) hst ha hs hk hact
    · rw [hle, mem_singleton]
      rintro rfl
      simp at hid
  · refine he.mono fun s s' _ _ h => ?_
    rcases h with ⟨hk, rfl⟩ | ⟨hk, rfl⟩
    · exact .lease (r := c) (by simp [hle]) hk.symm
    · exact .same _ (fences_eq_false hcl _) (by simpa [hle] using Ne.symm hk)

theorem effect_assignLease {c : String} (ht : call.txn = .assignLease c node)
    {l : LeaseAssignment} (ha : answer = .leases [(c, l)])
    (h : db.assignLease call.now call.uuid c node = .ok (l, db')) : Effect call answer db db' := by
  unfold assignLease at h
  split at h
  · cases h
  rename_i r hl
  obtain ⟨hm, rfl⟩ := lookup_eq_some.1 hl
  split_ifs at h with hst
  split at h <;> cases h
  rename_i e db1 hs
  refine effect_leaseOne (fun r => by simp [closes, ht])
    (by simp [leases, ht, hl]) hm (.inl (not_not.1 hst)) hs (a := call.uuid 0)
    (by simp [ha, Answer.leased]) (m := r.metadata) ?_ rfl
  rfl

theorem mem_claimable {agent : Option String} (h : (c, b) ∈ db.claimable now host agent) :
    c ∈ db.agentCommands ∧ db.agentBusy c.agentId = false
      ∧ (c.status = .pending ∨ c.status = .retryScheduled ∧ c.attemptCount < c.maxAttempts) := by
  unfold claimable at h
  rw [List.mem_insertionSort, mem_flatMap] at h
  obtain ⟨c', hc', h⟩ := h
  rw [mem_map] at h
  obtain ⟨b', hb', heq⟩ := h
  obtain ⟨rfl, rfl⟩ := Prod.mk.inj heq
  have hc := (mem_filter.1 hb').2
  simp at hc
  exact ⟨hc', hc.2, hc.1.2.imp_right fun h => ⟨h.1.1, h.2⟩⟩

theorem claimCandidate_eq_some (h : db.claimCandidate now host = some (c, b)) :
    c ∈ db.agentCommands ∧ db.agentBusy c.agentId = false
      ∧ (c.status = .pending ∨ c.status = .retryScheduled ∧ c.attemptCount < c.maxAttempts) := by
  unfold claimCandidate at h
  split at h
  · cases h
  exact mem_claimable (List.mem_of_head? h)

theorem effect_claim (ht : call.txn = .claimRuntimeHostCommand host)
    {claimed : Option (AgentCommand × LeaseAssignment)}
    (ha : answer = .leases (claimed.toList.map fun (c, l) => (c.commandId, l)))
    (h : db.claimRuntimeHostCommand call.now call.uuid host = .ok (claimed, db')) :
    Effect call answer db db' := by
  have hcl : ∀ r, call.closes db r = false := fun r => by simp [closes, ht]
  unfold claimRuntimeHostCommand at h
  split at h
  next hn =>
    cases h
    have hle : call.leases db = [] := by simp [leases, ht, hn]
    exact .of_evolves (refl fun r _ => .keep (hcl r) (by simp [hle]))
      (refl fun s _ => .same s (fences_eq_false hcl s) (by simp [hle]))
  next c b hs =>
    split at h <;> cases h
    rename_i e db1 hses
    obtain ⟨hm, -, hst⟩ := claimCandidate_eq_some hs
    refine effect_leaseOne hcl (by simp [leases, ht, hs]) hm hst hses
      (a := call.uuid 0) (by simp [ha, Answer.leased])
      (m := c.metadata.set "runtime_binding" (runtimeBindingJson b)) ?_ rfl
    rfl

/-- The session loop: a session of the rows that has no epoch yet is leased once, and the list of
epochs it returns is that of the sessions it leaves. -/
theorem leaseSessions_eq_ok :
    ∀ {cs : List AgentCommand} {epochs epochs' : List (String × Int)} {db db' : Db},
      db.leaseSessions now node cs epochs = .ok (epochs', db') →
      db'.agentCommands = db.agentCommands ∧ (∀ x ∈ epochs', x ∈ epochs ∨ ∃ s ∈ db'.sessionRegistry,
          s.sessionKey = x.1 ∧ s.epoch = x.2 ∧ s.status = .active) ∧ (db.sessionRegistry).Evolves
          (fun s s' => s' = s ∧ (∀ c ∈ cs, c.sessionKey = s.sessionKey →
              ∃ e, (s.sessionKey, e) ∈ epochs)
            ∨ s' = s.leased now node ∧ (∃ c ∈ cs, c.sessionKey = s.sessionKey)
              ∧ ∀ e, (s.sessionKey, e) ∉ epochs) db'.sessionRegistry
  | [], epochs, epochs', db, db', h => by
    cases h
    exact ⟨rfl, fun x hx => .inl hx, refl fun s _ => .inl ⟨rfl, by simp⟩⟩
  | c :: cs, epochs, epochs', db, db', h => by
    unfold leaseSessions at h
    split_ifs at h with ha
    · obtain ⟨hc, hep, he⟩ := leaseSessions_eq_ok h
      refine ⟨hc, hep, he.mono fun s s' _ _ hs => ?_⟩
      rcases hs with ⟨rfl, hs⟩ | ⟨rfl, ⟨c', hc', hk⟩, hs⟩
      · refine .inl ⟨rfl, fun c' hc' hk => ?_⟩
        rcases mem_cons.1 hc' with rfl | hc'
        · obtain ⟨x, hx, hxk⟩ := any_eq_true.1 ha
          have hxk : x.1 = s'.sessionKey := (of_decide_eq_true hxk).trans hk
          exact ⟨x.2, by rw [← hxk]; exact hx⟩
        · exact hs c' hc' hk
      · exact .inr ⟨rfl, ⟨c', mem_cons_of_mem _ hc', hk⟩, hs⟩
    · split at h
      · cases h
      rename_i e db1 hses
      have hn : ∀ e', (c.sessionKey, e') ∉ epochs := fun e' he' =>
        ha (any_eq_true.2 ⟨_, he', by simp⟩)
      obtain ⟨-, hc1, hev1⟩ := leaseSession_eq_ok hses
      obtain ⟨s1, hs1, hk1, rfl, ha1⟩ := leaseSession_mem hses
      obtain ⟨hc, hep, he⟩ := leaseSessions_eq_ok h
      refine ⟨hc.trans hc1, fun x hx => ?_, ?_⟩
      · rcases hep x hx with hx | hx
        · rcases mem_append.1 hx with hx | hx
          · exact .inl hx
          · rw [mem_singleton] at hx
            subst hx
            obtain ⟨s', hs', ⟨rfl, -⟩ | ⟨-, -, hno⟩⟩ := he.exists_target hs1
            · exact .inr ⟨s', hs', hk1, rfl, ha1⟩
            · exact absurd (by rw [hk1]; simp) (hno s1.epoch)
        · exact .inr hx
      · refine hev1.comp he fun s s' s'' _ _ h1 h2 => ?_
        rcases h1 with ⟨hk, rfl⟩ | ⟨hk, rfl⟩
        · have hkey : (s.leased now node).sessionKey = c.sessionKey := hk
          rcases h2 with ⟨rfl, -⟩ | ⟨-, -, hno⟩
          · exact .inr ⟨rfl, ⟨c, mem_cons_self, hk.symm⟩, fun e' => by rw [hk]; exact hn e'⟩
          · exact absurd (by rw [hkey]; simp) (hno s1.epoch)
        · rcases h2 with ⟨rfl, hs⟩ | ⟨rfl, ⟨c', hc', hk'⟩, hs⟩
          · refine .inl ⟨rfl, fun c' hc' hk' => ?_⟩
            rcases mem_cons.1 hc' with rfl | hc'
            · exact absurd hk'.symm hk
            obtain ⟨e', he'⟩ := hs c' hc' hk'
            rcases mem_append.1 he' with he' | he'
            · exact ⟨e', he'⟩
            · simp at he'
              exact absurd he'.1 hk
          · exact .inr ⟨rfl, ⟨c', mem_cons_of_mem _ hc', hk'⟩,
              fun e' he' => hs e' (mem_append_left _ he')⟩

theorem leaseCommands_eq_ok {epochs : List (String × Int)} :
    ∀ {cs : List AgentCommand} {i : ℕ} {ls : List (String × LeaseAssignment)} {db db' : Db},
      db.leaseCommands now uuid epochs cs i = .ok (ls, db') → (cs.map (·.commandId)).Nodup →
      db'.sessionRegistry = db.sessionRegistry ∧ (db.agentCommands).Evolves
          (fun r r' => r' = r ∧ (∀ c ∈ cs, c.commandId ≠ r.commandId)
            ∨ ∃ c ∈ cs, c.commandId = r.commandId ∧ ∃ a e, (c.commandId, a) ∈ (Answer.leases ls).leased
              ∧ (c.sessionKey, e) ∈ epochs ∧ r' = { r with
                status := .leased, currentAttemptId := some a, currentEpoch := some e
                attemptCount := c.attemptCount + 1, updatedAt := now })
          db'.agentCommands
  | [], i, ls, db, db', h, _ => by
    cases h
    exact ⟨rfl, refl fun r _ => .inl ⟨rfl, by simp⟩⟩
  | c :: cs, i, ls, db, db', h, hn => by
    rw [map_cons, nodup_cons] at hn
    unfold leaseCommands at h
    split at h
    · cases h
    rename_i k e hf
    have hk : k = c.sessionKey := by simpa using find?_some hf
    have he := mem_of_find?_eq_some hf
    rw [hk] at he
    split at h <;> cases h
    rename_i ls' db1 hrec
    obtain ⟨hs, hev⟩ := leaseCommands_eq_ok hrec hn.2
    refine ⟨hs, ?_⟩
    have hh : (db.agentCommands).Evolves
        (fun r r' => r.commandId ≠ c.commandId ∧ r' = r ∨ r.commandId = c.commandId ∧ r' = { r with
            status := .leased, currentAttemptId := some (uuid i), currentEpoch := some e
            attemptCount := c.attemptCount + 1, updatedAt := now })
        (db.leaseCommand now c.commandId (uuid i) e (c.attemptCount + 1)).agentCommands := by
      rw [leaseCommand, updateCommands_agentCommands]
      exact evolves_updateWhere (fun r _ hr => .inr ⟨of_decide_eq_true hr, rfl⟩)
        fun r _ hr => .inl ⟨of_decide_eq_false hr, rfl⟩
    refine hh.comp hev fun r r' r'' _ _ h1 h2 => ?_
    rcases h1 with ⟨hne, rfl⟩ | ⟨heq, rfl⟩
    · rcases h2 with ⟨rfl, hno⟩ | ⟨c', hc', hid, a, e', ha, he', rfl⟩
      · refine .inl ⟨rfl, fun c' hc' => ?_⟩
        rcases mem_cons.1 hc' with rfl | hc'
        · exact hne.symm
        · exact hno c' hc'
      · exact .inr ⟨c', mem_cons_of_mem _ hc', hid, a, e', mem_cons_of_mem _ ha, he', rfl⟩
    · rcases h2 with ⟨rfl, -⟩ | ⟨c', hc', hid, -⟩
      · exact .inr ⟨c, mem_cons_self, heq.symm, uuid i, e, mem_cons_self, he, rfl⟩
      · exact absurd (mem_map.2 ⟨c', hc', hid.trans heq⟩) hn.1

theorem mem_selectCommands {r : AgentCommand} :
    r ∈ db.selectCommands ids ↔ r ∈ db.agentCommands ∧ r.commandId ∈ ids := by
  unfold selectCommands
  simp [mem_def]

theorem selectCommands_nodup (db : Db) (ids : List String) :
    ((db.selectCommands ids).map (·.commandId)).Nodup := by
  unfold selectCommands
  rw [((List.perm_insertionSort _ _).map _).nodup_iff]
  exact db.agentCommands.nodup.sublist ((List.filter_sublist).map _)

theorem assignBatchLeases_eq_ok (h : db.assignBatchLeases now uuid ids node = .ok (ls, db')) :
    ids = [] ∧ ls = [] ∧ db' = db ∨ (db.selectCommands ids).length = ids.length
      ∧ (∀ r ∈ db.selectCommands ids, r.status = .pending)
      ∧ ∃ epochs db1, db.leaseSessions now node (db.selectCommands ids) [] = .ok (epochs, db1)
        ∧ db1.leaseCommands now uuid epochs (db.selectCommands ids) 0 = .ok (ls, db') := by
  unfold assignBatchLeases at h
  split_ifs at h with hn
  · cases h
    exact .inl ⟨hn, rfl, rfl⟩
  · simp only at h
    split_ifs at h with hl
    split at h
    · cases h
    rename_i hf
    split at h
    · cases h
    rename_i epochs db1 hs
    refine .inr ⟨not_not.1 hl, fun r hr => ?_, epochs, db1, hs, h⟩
    simpa using find?_eq_none.1 hf r hr

theorem effect_assignBatch (ht : call.txn = .assignBatchLeases ids node) (hans : answer = .leases ls)
    (h : db.assignBatchLeases call.now call.uuid ids node = .ok (ls, db')) :
    Effect call answer db db' := by
  have hcl : ∀ r, call.closes db r = false := fun r => by simp [closes, ht]
  have hle : call.leases db = db.selectCommands ids := by simp [leases, ht]
  rcases assignBatchLeases_eq_ok h with ⟨rfl, -, rfl⟩ | ⟨-, hp, epochs, db1, hses, hcom⟩
  · have hle : call.leases db' = [] := by
      rw [hle]
      refine List.eq_nil_iff_forall_not_mem.2 fun r hr => ?_
      simpa using (mem_selectCommands.1 hr).2
    exact .of_evolves (refl fun r _ => .keep (hcl r) (by simp [hle]))
      (refl fun s _ => .same s (fences_eq_false hcl s) (by simp [hle]))
  · obtain ⟨hro, hep, hevs⟩ := leaseSessions_eq_ok hses
    obtain ⟨hsa, hevr⟩ := leaseCommands_eq_ok hcom (selectCommands_nodup db ids)
    refine .of_evolves ?_ ?_
    · rw [← hro]
      refine hevr.mono fun r r' hr _ hst => ?_
      rw [hro] at hr
      rcases hst with ⟨rfl, hn⟩ | ⟨c, hc, hid, a, e, ha, he, rfl⟩
      · exact .keep (hcl _) fun hr' => hn _ (by rwa [hle] at hr') rfl
      obtain rfl := eq_of_key_eq (mem_selectCommands.1 hc).1 hr hid
      rcases hep _ he with he | ⟨s, hs, hk, rfl, hact⟩
      · simp at he
      · exact .lease (m := c.metadata) (by rwa [hle]) (.inl (hp c hc)) (by rwa [hans])
          (by rwa [hsa]) hk hact
    · rw [hsa]
      refine hevs.mono fun s s' _ _ hst => ?_
      rcases hst with ⟨rfl, hn⟩ | ⟨rfl, ⟨c, hc, hk⟩, -⟩
      · refine .same _ (fences_eq_false hcl _) fun r hr hk => ?_
        rw [hle] at hr
        simpa using hn r hr hk
      · exact .lease (r := c) (by rwa [hle]) hk

theorem write_eq_ok {r : SessionResult Db}
    (h : (r.map fun db => (Answer.done, db)) = .ok (answer, db')) : r = .ok db' := map_pair_eq_ok h

theorem insertReplyEvent_eq_ok {e : ConversationEvent} {c a : String} {x : (String × Int) × Db}
    (h : db.insertReplyEvent now e c a = .ok x) : db.commandAttemptIsCurrent c a ∧ x.1.1 = e.eventId
      ∧ db.insertConversationEvent now e = some (x.1.2, x.2) := by
  unfold insertReplyEvent at h
  split at h
  · cases h
  rename_i r hl
  obtain ⟨hl, he⟩ := filter_eq_some_iff.1 hl
  split_ifs at h with ha
  split at h <;> cases h
  rename_i hi
  refine ⟨?_, rfl, hi⟩
  simp [commandAttemptIsCurrent, hl, ownedBy, he, not_not.1 ha]

/-- The calls that insert or lease commands. -/
def Txn.enqueues : Txn → Bool
  | .insertCommand .. | .assignLease .. | .assignBatchLeases .. | .claimRuntimeHostCommand .. => true
  | _ => false

section Enqueues

variable {P : Db → Prop} (hc : ∀ {db : Db} commands, P db → P { db with agentCommands := commands })
  (hs : ∀ {db db' : Db} {k node : String} {e : Int}, P db →
    db.leaseSession now k node = .ok (e, db') → P db')

include hs in
theorem leaseSessions_keeps : ∀ {cs : List AgentCommand} {epochs epochs' : List (String × Int)}
    {db db' : Db}, P db → db.leaseSessions now node cs epochs = .ok (epochs', db') → P db'
  | [], _, _, db, db', hp, h => by
    cases h
    exact hp
  | c :: cs, _, _, db, db', hp, h => by
    unfold leaseSessions at h
    split_ifs at h
    · exact leaseSessions_keeps hp h
    split at h
    · cases h
    rename_i ho
    exact leaseSessions_keeps (hs hp ho) h

include hc in
theorem leaseCommands_keeps {epochs : List (String × Int)} :
    ∀ {cs : List AgentCommand} {i : ℕ} {ls : List (String × LeaseAssignment)} {db db' : Db},
      P db → db.leaseCommands now uuid epochs cs i = .ok (ls, db') → P db'
  | [], _, _, db, db', hp, h => by
    cases h
    exact hp
  | c :: cs, _, _, db, db', hp, h => by
    unfold leaseCommands at h
    split at h
    · cases h
    split at h <;> cases h
    rename_i hr
    refine leaseCommands_keeps ?_ hr
    exact hc _ hp

end Enqueues

/-- What holds whatever the commands are, and survives the lease of a session, survives a call
that inserts or leases commands. -/
theorem keeps_of_enqueues {P : Db → Prop} (ht : call.txn.enqueues)
    (hc : ∀ {db : Db} commands, P db → P { db with agentCommands := commands })
    (hs : ∀ {db db' : Db} {k node : String} {e : Int}, P db →
      db.leaseSession call.now k node = .ok (e, db') → P db')
    (h : call.exec db = .ok (answer, db')) (hp : P db) : P db' := by
  unfold Call.exec at h
  split at h <;> rename_i htx <;> rw [htx] at ht <;> cases ht
  · have h := write_eq_ok h
    unfold insertCommand at h
    split at h
    · cases h
      exact hp
    split at h
    · cases h
    obtain ⟨commands, -, rfl⟩ := insertCommandRow_eq_ok h
    exact hc commands hp
  · obtain ⟨⟨l, db1⟩, hl, heq⟩ := map_eq_ok.1 h
    cases heq
    unfold assignLease at hl
    split at hl
    · cases hl
    split_ifs at hl
    split at hl <;> cases hl
    rename_i ho
    exact hc _ (hs hp ho)
  · obtain ⟨⟨ls, db1⟩, hl, heq⟩ := map_eq_ok.1 h
    cases heq
    rcases assignBatchLeases_eq_ok hl with ⟨-, -, rfl⟩ | ⟨-, -, epochs, db1, hses, hcom⟩
    · exact hp
    · exact leaseCommands_keeps hc (leaseSessions_keeps hs hp hses) hcom
  · obtain ⟨⟨claimed, db1⟩, hl, heq⟩ := map_eq_ok.1 h
    cases heq
    unfold claimRuntimeHostCommand at hl
    split at hl
    · cases hl
      exact hp
    simp only at hl
    split at hl <;> cases hl
    rename_i ho
    exact hc _ (hs hp ho)

theorem exec_effect (h : call.exec db = .ok (answer, db')) : Effect call answer db db' := by
  unfold exec at h
  cases ht : call.txn <;> rw [ht] at h
  case assignLease =>
    obtain ⟨⟨l, db1⟩, hl, heq⟩ := map_eq_ok.1 h
    cases heq
    exact effect_assignLease ht rfl hl
  case assignBatchLeases =>
    obtain ⟨⟨ls, db1⟩, hl, heq⟩ := map_eq_ok.1 h
    cases heq
    exact effect_assignBatch ht rfl hl
  case claimRuntimeHostCommand =>
    obtain ⟨⟨claimed, db1⟩, hl, heq⟩ := map_eq_ok.1 h
    cases heq
    exact effect_claim ht rfl hl
  case handleLeaseExpiry => exact effect_expiry ht (write_eq_ok h)
  case revokeHost => exact effect_revokeHost ht (write_eq_ok h)
  case assignBindingHost => exact effect_assignBindingHost ht (write_eq_ok h)
  all_goals have hp : call.Plain := fun db => by simp [leases, closes, ht]
  case findPendingCommands | findRetriableCommands | findExhaustedRetryCommands
    | commandAttemptIsCurrent | checkExpiredLeases | turnAlreadyCommitted | insertDeadLetter =>
    cases h
    exact hp.effect_same rfl rfl
  case upsertSession =>
    cases h
    exact effect_upsertSession hp rfl
  case updateSessionHeartbeatForEpoch => exact effect_sessionHeartbeat hp (write_eq_ok h)
  case insertCommand => exact effect_insertCommand hp ht (write_eq_ok h)
  case updateCommandStatus => exact effect_updateCommandStatus hp ht (write_eq_ok h)
  case updateCommandStatusForAttempt =>
    exact effect_updateCommandStatusForAttempt hp ht (write_eq_ok h)
  case heartbeatRuntimeHostCommand => exact effect_hostHeartbeat hp ht (write_eq_ok h)
  case completeRuntimeHostCommand => exact effect_hostComplete hp ht (write_eq_ok h)
  case markCommandSucceededForAttempt => exact effect_markSucceeded hp ht (write_eq_ok h)
  case markCommandCommittedForAttempt => exact effect_markCommitted hp ht (write_eq_ok h)
  case deadLetterCommandForAttempt => exact effect_deadLetterForAttempt hp ht (write_eq_ok h)
  case deadLetterStalePendingCommands =>
    cases h
    exact effect_sweep hp ht rfl
  case insertReplyEvent =>
    obtain ⟨⟨⟨id, seq⟩, db1⟩, hl, heq⟩ := map_eq_ok.1 h
    cases heq
    have hs := insertConversationEvent_sameControl (insertReplyEvent_eq_ok hl).2.2
    exact hp.effect_same hs.commands hs.sessions
  case insertConversationEvent =>
    simp only at h
    split at h <;> cases h
    rename_i hi
    have hs := insertConversationEvent_sameControl hi
    exact hp.effect_same hs.commands hs.sessions
  case requestAccountRetirement => exact effect_retirement hp ht (write_eq_ok h)
  case administer =>
    have h := write_eq_ok h
    unfold administer at h
    split_ifs at h
    cases h
    exact hp.effect_same rfl rfl

end

variable {db1 : Db} {c : AgentCommand} {es es' : List ConversationEventRow} {uuid : ℕ → String}
  {host cmd a : String} {r : HostResult}

/-- The audit rows a call appends. -/
def AuditStep (call : Call) (db db' : Db) : Prop :=
  ∃ ds, db'.deadLetters = db.deadLetters ++ ds ∧ ∀ d ∈ ds, d.sourceType = "command" →
    (∃ input, call.txn = .insertDeadLetter input ∧ input.sourceType = "command")
      ∨ ∃ r ∈ db'.agentCommands, r.commandId = d.sourceId ∧ r.status = .deadLetter

/-- An event a call may append to `es`. -/
structure NewEvent (call : Call) (es : List ConversationEventRow) (e : ConversationEventRow) :
    Prop where
  seq : ∀ r ∈ es, r.conversationId = e.conversationId → r.seq ≠ e.seq
  turn : ∀ r ∈ es, r.turnId.isSome → r.turnId ≠ e.turnId
  reply : call.txn.Issued → e.turnId.isSome → e.eventType = "reply"

/-- The events a call appends, one by one. -/
def EventStep (call : Call) : List ConversationEventRow → List ConversationEventRow → Prop :=
  Relation.ReflTransGen fun es es' => ∃ e, NewEvent call es e ∧ es' = es ++ [e]

structure Records (call : Call) (db db' : Db) : Prop where
  audit : AuditStep call db db'
  events : EventStep call db.conversationEvents db'.conversationEvents

/-- The events a call writes: a producer's, the reply of a result, or the replies of a remote
turn. -/
inductive Call.Writes (call : Call) : ConversationEvent → Prop where
  | client {e} (ht : call.txn = .insertConversationEvent e) : Writes call e
  | reply {r id} (ht : call.txn = .insertReplyEvent r) : Writes call (r.replyEvent id)
  | remote {host cmd a r id c n i content}
    (ht : call.txn = .completeRuntimeHostCommand host cmd a r) :
    Writes call (Db.remoteReply host a id c r n i content)

/-- The events a call appends, with where each comes from. -/
def WriteStep (call : Call) : List ConversationEventRow → List ConversationEventRow → Prop :=
  Relation.ReflTransGen fun es es' =>
    ∃ e, NewEvent call es e ∧ call.Writes e.toConversationEvent ∧
      (∀ r ∈ es, r.eventId ≠ e.eventId) ∧ es' = es ++ [e]

theorem WriteStep.eventStep (h : WriteStep call es es') : EventStep call es es' := by
  induction h with
  | refl => exact .refl
  | tail _ ho ih =>
    obtain ⟨e, hn, -, -, heq⟩ := ho
    exact ih.tail ⟨e, hn, heq⟩

structure Written (call : Call) (db db' : Db) : Prop where
  audit : AuditStep call db db'
  events : WriteStep call db.conversationEvents db'.conversationEvents

structure SameRecords (db db' : Db) : Prop where
  deadLetters : db'.deadLetters = db.deadLetters
  events : db'.conversationEvents = db.conversationEvents

theorem SameRecords.trans (h : SameRecords db db1) (h' : SameRecords db1 db') : SameRecords db db' :=
  ⟨h'.deadLetters.trans h.deadLetters, h'.events.trans h.events⟩

theorem AuditStep.same (h : db'.deadLetters = db.deadLetters) : AuditStep call db db' :=
  ⟨[], by rw [h, append_nil], fun _ hd => absurd hd not_mem_nil⟩

theorem WriteStep.same (h : es' = es) : WriteStep call es es' := by
  rw [h]
  exact .refl

theorem Written.same (h : SameRecords db db') : Written call db db' :=
  ⟨.same h.deadLetters, .same h.events⟩

theorem AuditStep.dead {d : DeadLetter} (h : db'.deadLetters = db.deadLetters ++ [d])
    {r : AgentCommand} (hr : r ∈ db'.agentCommands) (hid : r.commandId = d.sourceId)
    (hst : r.status = .deadLetter) : AuditStep call db db' := by
  refine ⟨[d], h, fun d' hd' _ => .inr ⟨r, hr, ?_, hst⟩⟩
  rw [mem_singleton.1 hd', hid]

@[simp] theorem release_conversationEvents (now : Timestamp) (k : String) (e : Option Int) :
    (db.releaseSessionIfNoActiveCommands now k e).conversationEvents = db.conversationEvents :=
  Db.updateSessions_conversationEvents ..

@[simp] theorem fence_conversationEvents (now : Timestamp) (p : Session → Bool) :
    (db.fenceSessions now p).conversationEvents = db.conversationEvents :=
  Db.updateSessions_conversationEvents ..

section Statements

variable {now : Timestamp}

theorem SameRecords.updateSessions {p : Session → Bool} {f : Session → Session}
    {hf : ∀ s, (f s).sessionKey = s.sessionKey} : SameRecords db (db.updateSessions now p f hf) :=
  ⟨Db.updateSessions_deadLetters .., Db.updateSessions_conversationEvents ..⟩

theorem SameRecords.leaseSession {k node : String} {e : Int}
    (h : db.leaseSession now k node = .ok (e, db')) : SameRecords db db' := by
  unfold Db.leaseSession at h
  split at h <;> cases h
  exact .updateSessions

theorem SameRecords.statusWrite {w : StatusWrite} {expected : Option String}
    (h : db.updateCommandStatusInner now w.update expected = .ok db') : SameRecords db db' := by
  obtain ⟨c, -, -, -, db1, rfl, ⟨rfl, -⟩ | rfl⟩ := updateCommandStatusInner_eq_ok h
  · exact ⟨rfl, rfl⟩
  · exact ⟨(release_deadLetters ..).trans rfl, (release_conversationEvents ..).trans rfl⟩

end Statements

variable {e : ConversationEventRow}

theorem NewEvent.of_insert (h : db.eventConflict e = false)
    (hrp : call.txn.Issued → e.turnId.isSome → e.eventType = "reply") :
    NewEvent call db.conversationEvents e := by
  have hrow := fun r hr => List.any_eq_false.1 h r hr
  simp at hrow
  exact ⟨fun r hr => (hrow r hr).1.1.1, fun r hr => (hrow r hr).2, hrp⟩

theorem eventId_ne_of_insert (h : db.eventConflict e = false) :
    ∀ r ∈ db.conversationEvents, r.eventId ≠ e.eventId := by
  intro r hr hid
  have hrow := List.any_eq_false.1 h r hr
  simp [hid] at hrow

theorem WriteStep.insertEventRow (h : db.insertEventRow e = some db')
    (hw : call.Writes e.toConversationEvent)
    (hr : call.txn.Issued → e.turnId.isSome → e.eventType = "reply") :
    WriteStep call db.conversationEvents db'.conversationEvents := by
  obtain ⟨hc, _, _, _, rfl⟩ := Db.insertEventRow_eq_some db h
  exact Relation.ReflTransGen.single ⟨e, .of_insert hc hr, hw, eventId_ne_of_insert hc, rfl⟩

variable {now : Timestamp}

theorem WriteStep.insertConversationEvent {e : ConversationEvent} {seq : Int}
    (h : db.insertConversationEvent now e = some (seq, db')) (hw : call.Writes e)
    (hr : call.txn.Issued → e.turnId.isSome → e.eventType = "reply") :
    WriteStep call db.conversationEvents db'.conversationEvents := by
  unfold Db.insertConversationEvent at h
  obtain ⟨_, hi, -, rfl⟩ := map_eq_some_iff.1 h
  exact .insertEventRow hi hw hr

theorem WriteStep.insertRemoteReply {e : ConversationEventRow}
    (h : db.insertRemoteReply now e = .ok db') (hw : call.Writes e.toConversationEvent)
    (hr : e.eventType = "reply") :
    WriteStep call db.conversationEvents db'.conversationEvents := by
  unfold Db.insertRemoteReply at h
  split_ifs at h
  · cases h
    exact .refl
  · split at h <;> cases h
    rename_i hi
    have hs : WriteStep call _ _ := WriteStep.insertEventRow hi hw fun _ _ => hr
    exact hs

theorem WriteStep.insertRemoteReplies {first : Int} {n : ℕ}
    (ht : call.txn = .completeRuntimeHostCommand host cmd a r) :
    ∀ {contents : List String} {i : ℕ} {db db' : Db},
      db.insertRemoteReplies now uuid host a c r first n i contents = .ok db' →
        WriteStep call db.conversationEvents db'.conversationEvents
  | [], i, db, db', h => by
    cases h
    exact .refl
  | content :: rest, i, db, db', h => by
    unfold Db.insertRemoteReplies at h
    split at h
    · cases h
    rename_i ho
    exact (WriteStep.insertRemoteReply ho (.remote ht) rfl).trans
      (WriteStep.insertRemoteReplies ht h)

theorem mem_updatedRow {t u : Table AgentCommand.commandId} (hm : c ∈ t)
    {id : String} (hid : c.commandId = id) {f : AgentCommand → AgentCommand}
    {hf : ∀ c, (f c).commandId = c.commandId}
    (hu : u = t.updateWhere (·.commandId = id) f hf) : f c ∈ u := by
  have hr : (if decide (c.commandId = id) then f c else c)
      ∈ t.updateWhere (·.commandId = id) f hf := mem_updateWhere_of_mem hm
  rw [hu]
  simpa [hid] using hr

theorem written_deadLetter {input : InsertDeadLetter} {a : String}
    (h : db.deadLetterCommandForAttempt call.now call.uuid input a = .ok db') :
    Written call db db' := by
  unfold Db.deadLetterCommandForAttempt at h
  split at h
  · cases h
  rename_i c hl
  obtain ⟨hm, hid, -⟩ := Db.mem_of_lookup_filter hl
  cases h
  refine ⟨AuditStep.dead (congrArg (· ++ [_]) (release_deadLetters ..))
    (mem_updatedRow hm hid ((Db.insertDeadLetter_agentCommands ..).trans
      ((release_agentCommands ..).trans (Db.updateCommands_agentCommands ..)))) hid rfl,
    .same (by simp)⟩

theorem written_expiry {expired : ExpiredLease}
    (h : db.handleLeaseExpiry call.now call.uuid expired = .ok db') : Written call db db' := by
  unfold Db.handleLeaseExpiry at h
  split at h
  · cases h
  rename_i c hl
  obtain ⟨hm, hid⟩ := lookup_eq_some.1 hl
  split_ifs at h <;> cases h
  · refine ⟨AuditStep.dead (congrArg (· ++ [_]) (fence_deadLetters ..))
      (mem_updatedRow hm hid ((Db.insertDeadLetter_agentCommands ..).trans
        ((Db.updateCommands_agentCommands ..).trans (by rw [fence_agentCommands])))) hid rfl,
      .same (by simp)⟩
  · exact .same ⟨by simp, by simp⟩

theorem written_hostFail {host a : String} (hm : c ∈ db.agentCommands)
    (r : HostResult) : Written call db (db.failRuntimeHostCommand call.now call.uuid host a c r) := by
  unfold Db.failRuntimeHostCommand
  extract_lets captured db0 err exhausted db1 db2
  have hr : SameRecords db db1 := by
    simp [db1, db0]
    split <;> exact ⟨rfl, rfl⟩
  have hc : db0.agentCommands = db.agentCommands := by
    simp [db0]
    split <;> rfl
  rcases he : exhausted with _ | _
  · have hdb2 : db2 = db1 := by simp [db2, he]
    rw [hdb2]
    exact .same (hr.trans .updateSessions)
  · obtain ⟨input, hdb2, hs⟩ : ∃ input : InsertDeadLetter, db2
        = db1.insertDeadLetterInTransaction call.now (call.uuid 0) input
          ∧ c.commandId = input.sourceId := ⟨_, if_pos he, rfl⟩
    rw [hdb2]
    refine ⟨AuditStep.dead ((release_deadLetters ..).trans (congrArg (· ++ [_]) hr.deadLetters))
      (mem_updatedRow hm rfl ((release_agentCommands ..).trans
        ((Db.insertDeadLetter_agentCommands ..).trans ((Db.updateCommands_agentCommands ..).trans
          (by rw [hc]))))) hs ?_, .same (by simp [hr.events])⟩
    simp [he]

theorem written_hostCommit (ht : call.txn = .completeRuntimeHostCommand host cmd a r)
    (h : db.commitRuntimeHostCommand call.now call.uuid host a c r = .ok db') :
    Written call db db' := by
  unfold Db.commitRuntimeHostCommand at h
  simp only at h
  split at h <;> cases h
  rename_i db1 hi
  have he : WriteStep call _ db1.conversationEvents := WriteStep.insertRemoteReplies ht hi
  have hd := (insertRemoteReplies_sameControl hi).deadLetters
  refine ⟨.same ?_, ?_⟩
  · rw [release_deadLetters, Db.updateCommands_deadLetters, hd]
    split <;> rfl
  · rw [Db.releaseSessionIfNoActiveCommands, Db.updateSessions_conversationEvents,
      Db.updateCommands_conversationEvents]
    convert he using 1
    split <;> rfl

theorem exec_written (h : call.exec db = .ok (answer, db')) : Written call db db' := by
  by_cases he : call.txn.enqueues
  · exact .same (keeps_of_enqueues he (fun _ hs => ⟨hs.deadLetters, hs.events⟩)
      (fun hs hl => hs.trans (.leaseSession hl)) h ⟨rfl, rfl⟩)
  unfold Call.exec at h
  cases ht : call.txn <;> rw [ht] at h he
  case insertCommand | assignLease | assignBatchLeases | claimRuntimeHostCommand =>
    exact absurd rfl he
  case findPendingCommands | findRetriableCommands | findExhaustedRetryCommands
    | commandAttemptIsCurrent | checkExpiredLeases | turnAlreadyCommitted
    | deadLetterStalePendingCommands =>
    cases h
    exact .same ⟨rfl, rfl⟩
  case upsertSession =>
    cases h
    unfold Db.upsertSession
    split <;> exact .same ⟨rfl, rfl⟩
  case updateCommandStatus | updateCommandStatusForAttempt =>
    exact .same (.statusWrite (write_eq_ok h))
  case updateSessionHeartbeatForEpoch | heartbeatRuntimeHostCommand
    | markCommandSucceededForAttempt | requestAccountRetirement | administer =>
    have h := write_eq_ok h
    simp only [Db.updateSessionHeartbeatForEpoch, Db.heartbeatRuntimeHostCommand,
      Db.markCommandSucceededForAttempt, Db.requestAccountRetirement, Db.administer] at h
    repeat' split at h
    all_goals cases h
    all_goals exact .same ⟨rfl, rfl⟩
  case markCommandCommittedForAttempt =>
    have h := write_eq_ok h
    unfold Db.markCommandCommittedForAttempt at h
    split at h <;> cases h
    exact .same ⟨by simp, by simp⟩
  case completeRuntimeHostCommand =>
    have h := write_eq_ok h
    unfold Db.completeRuntimeHostCommand at h
    split at h
    · cases h
    rename_i c hl
    split_ifs at h
    · exact written_hostCommit ht h
    · cases h
      exact written_hostFail (Db.mem_of_lookup_filter hl).1 _
  case insertDeadLetter input =>
    cases h
    refine ⟨⟨[_], rfl, fun d hd hsrc => .inl ⟨input, ht, ?_⟩⟩, .same rfl⟩
    rw [mem_singleton.1 hd] at hsrc
    exact hsrc
  case deadLetterCommandForAttempt => exact written_deadLetter (write_eq_ok h)
  case handleLeaseExpiry => exact written_expiry (write_eq_ok h)
  case insertReplyEvent r =>
    obtain ⟨⟨⟨id, seq⟩, db1⟩, hl, heq⟩ := map_eq_ok.1 h
    cases heq
    have hi := (insertReplyEvent_eq_ok hl).2.2
    exact ⟨.same (insertConversationEvent_sameControl hi).deadLetters,
      .insertConversationEvent hi (.reply ht) fun _ _ => rfl⟩
  case insertConversationEvent e =>
    simp only at h
    split at h <;> cases h
    rename_i hi
    refine ⟨.same (insertConversationEvent_sameControl hi).deadLetters,
      .insertConversationEvent hi (.client ht) fun hiss htu => ?_⟩
    rw [ht] at hiss
    rw [show e.turnId = none from hiss] at htu
    cases htu
  case revokeHost =>
    have h := write_eq_ok h
    unfold Db.revokeHost at h
    split_ifs at h
    cases h
    exact .same ⟨fence_deadLetters .., fence_conversationEvents ..⟩
  case assignBindingHost =>
    obtain ⟨b, -, ⟨-, rfl⟩ | ⟨-, hx⟩⟩ := assignBindingHost_eq_ok (write_eq_ok h)
    · exact .same ⟨rfl, rfl⟩
    · obtain ⟨-, config, rfl⟩ := rebindHost_eq_ok hx
      exact .same ⟨fence_deadLetters .., fence_conversationEvents ..⟩

theorem exec_records (h : call.exec db = .ok (answer, db')) : Records call db db' :=
  ⟨(exec_written h).audit, (exec_written h).events.eventStep⟩

end Choruz
