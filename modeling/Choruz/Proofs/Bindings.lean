import Choruz.Proofs.Recovery

/-!
# Bindings follow sessions

The session trigger refreshes the binding of each agent one of whose sessions was or became active.
An agent has one binding that is not disabled, so the refresh reaches every binding that is idle or
running, and an agent it skips has the active sessions it had.
-/

namespace Choruz

open Relational World

variable {call : Call} {answer : Answer} {db db' : Db}

variable {sessions : Table Session.sessionKey} {a : String} {p : Session → Bool}
  {f : Session → Session} {uuid : ℕ → String}

/-- An agent has one live binding, and the bindings follow the sessions. -/
structure Bound (db : Db) : Prop where
  live : OneLivePerAgent db.runtimeBindings
  follows : ∀ b ∈ db.runtimeBindings, BindingFollows db.sessionRegistry b

theorem agentActive_eq_true :
    agentActive sessions a ↔ ∃ s ∈ sessions, s.agentId = a ∧ s.status = .active := by
  simp [agentActive, mem_def]

theorem Bound.congr (h : Bound db) (hs : db'.sessionRegistry = db.sessionRegistry)
    (hb : db'.runtimeBindings = db.runtimeBindings) : Bound db' :=
  ⟨by rw [hb]; exact h.live, by rw [hb, hs]; exact h.follows⟩

def progressState (sessions : Table Session.sessionKey) (agentId : String) : BindingState :=
  if agentActive sessions agentId then .running else .idle

theorem progressState_eq_running : progressState sessions a = .running ↔ agentActive sessions a := by
  unfold progressState
  split_ifs with h <;> simp [h]

theorem ne_disabled_of_progress {st : BindingState} (h : st = .idle ∨ st = .running) :
    st ≠ .disabled := by
  rcases h with rfl | rfl <;> decide

theorem refresh_cases (db : Db) (now : Timestamp) (a : String) :
    (db.refreshHeadlessBindingProgress now a = db ∧ ∀ b ∈ db.runtimeBindings,
        b.agentPrincipalId = a → ¬ (b.state = .idle ∨ b.state = .running))
      ∨ ∃ b0 ∈ db.runtimeBindings, b0.agentPrincipalId = a ∧ (b0.state = .idle ∨ b0.state = .running)
        ∧ db.refreshHeadlessBindingProgress now a = db.updateBindings
          (fun b => b.id = b0.id && b.state ≠ progressState db.sessionRegistry a)
          fun b => { b with state := progressState db.sessionRegistry a, updatedAt := now } := by
  unfold Db.refreshHeadlessBindingProgress
  split
  next hn =>
    refine .inl ⟨rfl, fun b hb ha => ?_⟩
    have := find?_eq_none.1 hn b hb
    simpa [ha, decide_true, Bool.true_and] using this
  next b0 hfi =>
    have hs := find?_some hfi
    simp at hs
    exact .inr ⟨b0, mem_of_find?_eq_some hfi, hs.1, hs.2, rfl⟩

/-- Where every live row of `u` has a live row of `t` with its id and agent, `u` has one live
binding for each agent if `t` has. -/
theorem OneLivePerAgent.of_source {t u : Table RuntimeBinding.id} (h : OneLivePerAgent t)
    (hs : ∀ b' ∈ u, b'.state ≠ .disabled → ∃ b ∈ t, b.id = b'.id
      ∧ b.agentPrincipalId = b'.agentPrincipalId ∧ b.state ≠ .disabled) : OneLivePerAgent u := by
  intro x hx y hy ha hxd hyd
  obtain ⟨b, hb, hbid, hba, hbd⟩ := hs x hx hxd
  obtain ⟨c, hc, hcid, hca, hcd⟩ := hs y hy hyd
  rw [← hbid, ← hcid]
  exact h b hb c hc (hba.trans (ha.trans hca.symm)) hbd hcd

/-- The refresh sets the agent's binding and no other. -/
theorem refresh_spec (hl : OneLivePerAgent db.runtimeBindings) (now : Timestamp) (a : String) :
    (db.refreshHeadlessBindingProgress now a).sessionRegistry = db.sessionRegistry
      ∧ OneLivePerAgent (db.refreshHeadlessBindingProgress now a).runtimeBindings
      ∧ ∀ b' ∈ (db.refreshHeadlessBindingProgress now a).runtimeBindings,
        (b'.agentPrincipalId = a → BindingFollows db.sessionRegistry b')
          ∧ (b'.agentPrincipalId ≠ a → b' ∈ db.runtimeBindings) := by
  rcases refresh_cases db now a with ⟨heq, hn⟩ | ⟨b0, hm, ha0, hst0, heq⟩ <;> rw [heq]
  · exact ⟨rfl, hl, fun b hb => ⟨fun ha hst => absurd hst (hn b hb ha), fun _ => hb⟩⟩
  · refine ⟨rfl, hl.of_source fun b' hb' hd => ?_, fun b' hb' => ?_⟩ <;>
      rw [Db.updateBindings_runtimeBindings] at hb' <;> obtain ⟨b, hb, rfl⟩ := mem_updateWhere.1 hb'
    · split_ifs at hd ⊢ with hp
      · simp at hp
        rw [eq_of_key_eq hb hm hp.1]
        exact ⟨b0, hm, rfl, rfl, ne_disabled_of_progress hst0⟩
      · exact ⟨b, hb, rfl, rfl, hd⟩
    · split_ifs with hp
      · simp at hp
        have hba : b.agentPrincipalId = a := by rw [eq_of_key_eq hb hm hp.1, ha0]
        refine ⟨fun _ _ => ?_, fun hne => absurd hba hne⟩
        rw [hba]
        exact progressState_eq_running
      · refine ⟨fun hba hbst => ?_, fun _ => hb⟩
        have hid := hl b hb b0 hm (hba.trans ha0.symm) (ne_disabled_of_progress hbst)
          (ne_disabled_of_progress hst0)
        have heq : b.state = progressState db.sessionRegistry a := by simpa [hid] using hp
        rw [heq, hba]
        exact progressState_eq_running

theorem foldl_refresh_agents (now : Timestamp) : ∀ (agents : List String) (db : Db),
    db.runtimeBindings.Evolves (fun b b' => b'.id = b.id ∧ b'.agentPrincipalId = b.agentPrincipalId)
      (agents.foldl (fun db a => db.refreshHeadlessBindingProgress now a) db).runtimeBindings
  | [], _ => Table.Evolves.refl fun _ _ => ⟨rfl, rfl⟩
  | a :: agents, db => by
    have ho : db.runtimeBindings.Evolves
        (fun b b' => b'.id = b.id ∧ b'.agentPrincipalId = b.agentPrincipalId)
        (db.refreshHeadlessBindingProgress now a).runtimeBindings := by
      rcases refresh_cases db now a with ⟨heq, -⟩ | ⟨b0, -, -, -, heq⟩ <;> rw [heq]
      · exact Table.Evolves.refl fun _ _ => ⟨rfl, rfl⟩
      · rw [Db.updateBindings_runtimeBindings]
        exact evolves_updateWhere (fun _ _ _ => ⟨rfl, rfl⟩) fun _ _ _ => ⟨rfl, rfl⟩
    refine ho.comp (foldl_refresh_agents now agents _) fun b b1 b2 _ _ h h' => ?_
    exact ⟨h'.1.trans h.1, h'.2.trans h.2⟩

theorem foldl_refresh_spec (now : Timestamp) : ∀ (agents : List String) (db : Db),
    OneLivePerAgent db.runtimeBindings → ∀ db', agents.foldl
      (fun db a => db.refreshHeadlessBindingProgress now a) db = db' →
    OneLivePerAgent db'.runtimeBindings ∧ ∀ b' ∈ db'.runtimeBindings,
      (b'.agentPrincipalId ∈ agents → BindingFollows db.sessionRegistry b')
        ∧ (b'.agentPrincipalId ∉ agents → b' ∈ db.runtimeBindings)
  | [], db, hl, _, rfl => ⟨hl, fun b hb => ⟨fun h => absurd h not_mem_nil, fun _ => hb⟩⟩
  | a :: agents, db, hl, db', h => by
    obtain ⟨hs, hl1, ho⟩ := refresh_spec hl now a
    obtain ⟨hl', hr⟩ := foldl_refresh_spec now agents _ hl1 db' h
    rw [hs] at hr
    refine ⟨hl', fun b hb => ⟨fun hm => ?_, fun hm => ?_⟩⟩
    · by_cases hi : b.agentPrincipalId ∈ agents
      · exact (hr b hb).1 hi
      · exact (ho b ((hr b hb).2 hi)).1 ((mem_cons.1 hm).resolve_right hi)
    · rw [mem_cons, not_or] at hm
      exact (ho b ((hr b hb).2 hm.2)).2 hm.1

variable (now : Timestamp) {hf : ∀ s, (f s).sessionKey = s.sessionKey}

section

variable (h : Bound db)
include h

theorem Bound.updateSessions
    (hag : ∀ s, (f s).agentId = s.agentId) : Bound (db.updateSessions now p f hf) := by
  obtain ⟨hl, hr⟩ := foldl_refresh_spec now _
    { db with sessionRegistry := db.sessionRegistry.updateWhere p f hf } h.live _ rfl
  refine ⟨hl, fun b hb => ?_⟩
  rw [Db.updateSessions_sessionRegistry]
  obtain ⟨hi, ho⟩ := hr b hb
  by_cases hfi : b.agentPrincipalId ∈ (db.sessionRegistry.rows.filter fun s =>
      p s && (s.status = .active || (f s).status = .active)).map fun s => (f s).agentId
  · exact hi hfi
  have hsa : agentActive (db.sessionRegistry.updateWhere p f hf) b.agentPrincipalId
      = agentActive db.sessionRegistry b.agentPrincipalId := by
    have hk : ∀ s ∈ db.sessionRegistry, s.agentId = b.agentPrincipalId → p s →
        s.status ≠ .active ∧ (f s).status ≠ .active := fun s hs ha hp => by
      by_contra hc
      refine hfi (mem_map.2 ⟨s, mem_filter.2 ⟨hs, ?_⟩, (hag s).trans ha⟩)
      simp [hp]
      tauto
    rw [Bool.eq_iff_iff, agentActive_eq_true, agentActive_eq_true]
    constructor
    · rintro ⟨s', hs', ha, hact⟩
      obtain ⟨s, hs, rfl⟩ := mem_updateWhere.1 hs'
      split_ifs at ha hact with hp
      · exact absurd hact (hk s hs ((hag s).symm.trans ha) hp).2
      · exact ⟨s, hs, ha, hact⟩
    · rintro ⟨s, hs, ha, hact⟩
      have hp : p s = false := by
        rw [eq_false_iff]
        exact fun hp => (hk s hs ha hp).1 hact
      refine ⟨s, ?_, ha, hact⟩
      have : (if p s then f s else s) ∈ db.sessionRegistry.updateWhere p f hf :=
        mem_updateWhere_of_mem hs
      rwa [hp] at this
  intro hst
  rw [hsa]
  exact h.follows b (ho hfi) hst

theorem Bound.of_active (hb : db'.runtimeBindings = db.runtimeBindings)
    (ha : ∀ a, agentActive db'.sessionRegistry a = agentActive db.sessionRegistry a) :
    Bound db' := by
  refine ⟨by rw [hb]; exact h.live, fun b hm hst => ?_⟩
  rw [ha]
  rw [hb] at hm
  exact h.follows b hm hst

theorem Bound.touchSessions (hs : ∀ s, (f s).agentId = s.agentId ∧ (f s).status = s.status) :
    Bound (db.touchSessions p f hf) := by
  refine h.of_active rfl fun a => ?_
  rw [Db.touchSessions_sessionRegistry, agentActive, Table.updateWhere, List.any_map]
  refine List.any_congr rfl fun s => ?_
  simp
  split_ifs
  · rw [(hs s).1, (hs s).2]
  · rfl

theorem Bound.updateBindings {p : RuntimeBinding → Bool}
    {f : RuntimeBinding → RuntimeBinding} {hf : ∀ b, (f b).id = b.id}
    (hsa : ∀ b, (f b).agentPrincipalId = b.agentPrincipalId
      ∧ ((f b).state = b.state ∨ (f b).state = .disabled)) : Bound (db.updateBindings p f hf) := by
  refine ⟨h.live.of_source fun b' hb' hd => ?_, fun b' hb' hst => ?_⟩ <;>
    rw [Db.updateBindings_runtimeBindings] at hb' <;> obtain ⟨b, hb, rfl⟩ := mem_updateWhere.1 hb'
  · refine ⟨b, hb, ?_⟩
    split_ifs at hd ⊢
    · obtain ⟨ha, hs | hs⟩ := hsa b
      · exact ⟨(hf b).symm, ha.symm, by rwa [← hs]⟩
      · exact absurd hs hd
    · exact ⟨rfl, rfl, hd⟩
  · split_ifs at hst ⊢
    · obtain ⟨ha, hs | hs⟩ := hsa b
      · rw [hs] at hst ⊢
        rw [ha]
        exact h.follows b hb hst
      · exact absurd hs (ne_disabled_of_progress hst)
    · exact h.follows b hb hst

theorem Bound.release (k : String) (e : Option Int) :
    Bound (db.releaseSessionIfNoActiveCommands now k e) := h.updateSessions now fun _ => rfl

theorem Bound.fence (p : Session → Bool) : Bound (db.fenceSessions now p) :=
  h.updateSessions now fun _ => rfl

end

variable {now}

theorem Bound.leaseSession (h : Bound db) {k node : String} {e : Int}
    (hl : db.leaseSession now k node = .ok (e, db')) : Bound db' := by
  unfold Db.leaseSession at hl
  split at hl <;> cases hl
  exact h.updateSessions now fun _ => rfl

section

variable (h : Bound db) {host : String}
include h

theorem Bound.upsertSession (k a conv : String) : Bound (db.upsertSession now k a conv) := by
  unfold Db.upsertSession
  split
  next sessions hi =>
    refine h.of_active rfl fun agent => ?_
    rw [Bool.eq_iff_iff, agentActive_eq_true, agentActive_eq_true]
    constructor
    · rintro ⟨s, hs, ha, hact⟩
      rcases (mem_insert? hi).1 hs with hs | rfl
      · exact ⟨s, hs, ha, hact⟩
      · cases hact
    · rintro ⟨s, hs, ha, hact⟩
      exact ⟨s, (mem_insert? hi).2 (.inl hs), ha, hact⟩
  · exact h.touchSessions fun _ => ⟨rfl, rfl⟩

theorem Bound.statusWrite {w : StatusWrite} {expected : Option String}
    (hx : db.updateCommandStatusInner now w.update expected = .ok db') : Bound db' := by
  obtain ⟨c, -, -, -, db1, rfl, ⟨rfl, -⟩ | rfl⟩ := updateCommandStatusInner_eq_ok hx
  · exact h.congr rfl rfl
  · refine Bound.release now ?_ _ _
    exact h.congr rfl rfl

theorem Bound.handleLeaseExpiry {expired : ExpiredLease}
    (hx : db.handleLeaseExpiry now uuid expired = .ok db') : Bound db' := by
  unfold Db.handleLeaseExpiry at hx
  split at hx
  · cases hx
  split_ifs at hx <;> cases hx <;> exact (h.fence now _).congr rfl rfl

theorem Bound.hostFail (uuid : ℕ → String) (host a : String) (c : AgentCommand)
    (r : HostResult) : Bound (db.failRuntimeHostCommand now uuid host a c r) := by
  refine Bound.release now ?_ _ _
  have hc : ∀ captured, Bound (db.clearExternalSession now host c.agentId captured) :=
    fun _ => h.updateBindings fun _ => ⟨rfl, .inl rfl⟩
  split_ifs
  · exact (hc _).congr rfl rfl
  · exact h.congr rfl rfl
  · exact (hc _).congr rfl rfl
  · exact h.congr rfl rfl

theorem Bound.hostCommit {c : AgentCommand} {r : HostResult}
    (hx : db.commitRuntimeHostCommand now uuid host a c r = .ok db') : Bound db' := by
  unfold Db.commitRuntimeHostCommand at hx
  simp only at hx
  split at hx <;> cases hx
  rename_i hi
  have hs := insertRemoteReplies_sameControl hi
  have hr : ∀ captured sessionId,
      Bound (db.recordExternalSession now host c.agentId captured sessionId) :=
    fun _ _ => h.updateBindings fun _ => ⟨rfl, .inl rfl⟩
  refine Bound.release now ?_ _ _
  split at hs
  · exact (hr _ _).congr hs.sessions hs.bindings
  · exact h.congr hs.sessions hs.bindings

theorem Bound.requestAccountRetirement {ws account actor : String}
    (hx : db.requestAccountRetirement now ws account actor = .ok db') : Bound db' := by
  unfold Db.requestAccountRetirement at hx
  split_ifs at hx
  cases hx
  have ha : Bound (db.disableAccount now ws account actor) := h.congr rfl rfl
  have hd : Bound ((db.disableAccount now ws account actor).disableAccountBindings now ws
    account) := ha.updateBindings fun _ => ⟨rfl, .inr rfl⟩
  exact hd.congr rfl rfl

theorem Bound.revokeHost {ok : Bool} (hx : db.revokeHost now ok host = .ok db') : Bound db' := by
  unfold Db.revokeHost at hx
  split_ifs at hx
  cases hx
  have hr : Bound (db.retireHost now host) := h.congr rfl rfl
  have hd : Bound ((db.retireHost now host).disableHostBindings now host) :=
    hr.updateBindings fun _ => ⟨rfl, .inr rfl⟩
  exact (hd.fence now _).congr rfl rfl

/-- The agent's only live binding set to idle, when none of the agent's sessions is active. -/
theorem Bound.setIdle {id : String} {f : RuntimeBinding → RuntimeBinding} {hf : ∀ b, (f b).id = b.id}
    (hag : ∀ b ∈ db.runtimeBindings, b.id = id → b.agentPrincipalId = a)
    (hset : ∀ b, (f b).agentPrincipalId = b.agentPrincipalId ∧ (f b).state = .idle)
    (ho : db.otherLiveBinding a id = false) (hi : agentActive db.sessionRegistry a = false) :
    Bound (db.updateBindings (·.id = id) f hf) := by
  have hsrc : ∀ b' ∈ (db.updateBindings (·.id = id) f hf).runtimeBindings,
      b'.state ≠ .disabled → b'.id = id ∧ b'.agentPrincipalId = a ∧ b'.state = .idle
        ∨ b' ∈ db.runtimeBindings ∧ b'.agentPrincipalId ≠ a := fun b' hb' hd => by
    rw [Db.updateBindings_runtimeBindings] at hb'
    obtain ⟨b, hb, rfl⟩ := mem_updateWhere.1 hb'
    split_ifs at hd ⊢ with hp
    · have hid : b.id = id := by simpa using hp
      exact .inl ⟨(hf b).trans hid, (hset b).1.trans (hag b hb hid), (hset b).2⟩
    · refine .inr ⟨hb, fun ha => ?_⟩
      have := List.any_eq_false.1 ho b hb
      simp [ha, hd, show b.id ≠ id by simpa using hp] at this
  refine ⟨fun x hx y hy hxy hxd hyd => ?_, fun b' hb' hst => ?_⟩
  · rcases hsrc x hx hxd with ⟨hxid, hxa, -⟩ | ⟨hx, hxa⟩ <;>
      rcases hsrc y hy hyd with ⟨hyid, hya, -⟩ | ⟨hy, hya⟩
    · rw [hxid, hyid]
    · exact absurd (hxy.symm.trans hxa) hya
    · exact absurd (hxy.trans hya) hxa
    · exact h.live x hx y hy hxy hxd hyd
  · rcases hsrc b' hb' (ne_disabled_of_progress hst) with ⟨-, ha, hs⟩ | ⟨hb, -⟩
    · rw [hs, ha]
      simp [hi]
    · exact h.follows b' hb hst

/-- A move leaves the binding idle, so it must have stopped every session of the agent. -/
theorem Bound.assignBindingHost {ok valid closed : Bool} {bindingId : String} {tgt : Option String}
    (ht : call.txn = .assignBindingHost ok valid closed bindingId tgt) (hg : KeepsBindings db call)
    (hx : db.assignBindingHost call.now ok valid closed bindingId tgt = .ok db') :
    Bound db' := by
  obtain ⟨b0, hl, ⟨-, rfl⟩ | ⟨hne, hx⟩⟩ := assignBindingHost_eq_ok hx
  · exact h
  have hm : db.movedAgent bindingId tgt = some b0.agentPrincipalId := by
    simp [Db.movedAgent, hl, hne]
  unfold KeepsBindings at hg
  simp [ht, hm] at hg
  have hfe := h.fence call.now (db.hasCommand (Db.openOfAgent b0.agentPrincipalId))
  obtain ⟨ho, config, rfl⟩ := rebindHost_eq_ok hx
  have hag : ∀ b ∈ (db.fenceSessions call.now (db.hasCommand
      (Db.openOfAgent b0.agentPrincipalId))).runtimeBindings, b.id = b0.id →
        b.agentPrincipalId = b0.agentPrincipalId := fun b hb hid => by
    obtain ⟨b1, hb1, hid1, hag1⟩ := (foldl_refresh_agents call.now _ _).exists_source hb
    rw [hag1, eq_of_key_eq hb1 (mem_of_lookup hl) (hid1.symm.trans hid)]
  have hi : agentActive (db.fenceSessions call.now (db.hasCommand
      (Db.openOfAgent b0.agentPrincipalId))).sessionRegistry b0.agentPrincipalId = false := by
    rw [eq_false_iff, Ne, agentActive_eq_true]
    rintro ⟨s', hs', ha, hact⟩
    rw [Db.fenceSessions, Db.updateSessions_sessionRegistry] at hs'
    obtain ⟨s, hs, rfl⟩ := mem_updateWhere.1 hs'
    split_ifs at ha hact with hp
    have := hg s hs ha.symm hact
    simp [Call.fences, ht] at this
    refine hp (Eq.trans ?_ this)
    congr 1
    funext r
    simp [Call.closes, ht, hm]
  refine Bound.setIdle ?_ hag (fun _ => ⟨rfl, rfl⟩) ho hi
  exact hfe.congr rfl rfl

end

theorem Bound.exec (hi : Bound db) (hg : KeepsBindings db call)
    (h : call.exec db = .ok (answer, db')) : Bound db' := by
  by_cases he : call.txn.enqueues
  · exact keeps_of_enqueues he (fun _ hi => hi.congr rfl rfl) (fun hi hl => hi.leaseSession hl) h hi
  unfold Call.exec at h
  cases ht : call.txn <;> rw [ht] at h he
  case insertCommand | assignLease | assignBatchLeases | claimRuntimeHostCommand =>
    exact absurd rfl he
  case findPendingCommands | findRetriableCommands | findExhaustedRetryCommands
    | commandAttemptIsCurrent | checkExpiredLeases | turnAlreadyCommitted =>
    cases h
    exact hi
  case upsertSession =>
    cases h
    exact hi.upsertSession ..
  case updateSessionHeartbeatForEpoch =>
    have h := write_eq_ok h
    unfold Db.updateSessionHeartbeatForEpoch at h
    split at h
    · cases h
    split_ifs at h
    cases h
    exact hi.touchSessions fun _ => ⟨rfl, rfl⟩
  case updateCommandStatus | updateCommandStatusForAttempt =>
    exact hi.statusWrite (write_eq_ok h)
  case heartbeatRuntimeHostCommand =>
    have h := write_eq_ok h
    unfold Db.heartbeatRuntimeHostCommand at h
    split at h <;> cases h
    refine Bound.touchSessions ?_ fun _ => ⟨rfl, rfl⟩
    exact hi.congr rfl rfl
  case completeRuntimeHostCommand =>
    have h := write_eq_ok h
    unfold Db.completeRuntimeHostCommand at h
    split at h
    · cases h
    split_ifs at h
    · exact hi.hostCommit h
    · cases h
      exact hi.hostFail ..
  case markCommandSucceededForAttempt =>
    have h := write_eq_ok h
    unfold Db.markCommandSucceededForAttempt at h
    split at h <;> cases h
    exact hi.congr rfl rfl
  case markCommandCommittedForAttempt | deadLetterCommandForAttempt =>
    simp [Db.markCommandCommittedForAttempt, Db.deadLetterCommandForAttempt] at h
    split at h <;> cases h
    refine @Bound.congr (Db.releaseSessionIfNoActiveCommands _ _ _ _) _ ?_ rfl rfl
    refine Bound.release _ ?_ _ _
    exact hi.congr rfl rfl
  case insertDeadLetter | deadLetterStalePendingCommands =>
    cases h
    exact hi.congr rfl rfl
  case handleLeaseExpiry => exact hi.handleLeaseExpiry (write_eq_ok h)
  case insertReplyEvent =>
    obtain ⟨⟨⟨id, seq⟩, db1⟩, hl, heq⟩ := map_eq_ok.1 h
    cases heq
    have hs := insertConversationEvent_sameControl (insertReplyEvent_eq_ok hl).2.2
    exact hi.congr hs.sessions hs.bindings
  case insertConversationEvent =>
    simp only at h
    split at h <;> cases h
    rename_i hins
    have hs := insertConversationEvent_sameControl hins
    exact hi.congr hs.sessions hs.bindings
  case requestAccountRetirement => exact hi.requestAccountRetirement (write_eq_ok h)
  case revokeHost => exact hi.revokeHost (write_eq_ok h)
  case assignBindingHost => exact hi.assignBindingHost ht hg (write_eq_ok h)
  case administer a =>
    have h := write_eq_ok h
    unfold Db.administer at h
    split_ifs at h with hli
    cases h
    unfold KeepsBindings at hg
    rw [ht] at hg
    exact ⟨hli, hg⟩

theorem Bound.start (hd : db.Initial) : Bound db := by
  refine ⟨hd.bindings, fun b hb hst => ⟨fun hr => absurd hr (hd.notRunning b hb), ?_⟩⟩
  intro ha
  obtain ⟨s, hs, -⟩ := agentActive_eq_true.1 ha
  rw [mem_def, hd.sessions] at hs
  exact absurd hs not_mem_nil

/-- An active session has an attempt of its epoch that is under way or waits to be written, and a
binding that is idle or running runs exactly while its agent has an active session. -/
theorem no_session_busy_without_work {db0 : Db} (hd : db0.Initial) {w : World}
    (hr : World.Runs KeepsWork (start db0) w) :
    (∀ s ∈ w.store.db.sessionRegistry, s.status = .active → ∃ r ∈ w.store.db.agentCommands,
      r.sessionKey = s.sessionKey ∧ r.currentEpoch = some s.epoch
        ∧ (r.status.isActive ∨ r.status = .succeeded))
      ∧ ∀ b ∈ w.store.db.runtimeBindings, BindingFollows w.store.db.sessionRegistry b := by
  have hst : SessionsInUse db0 := fun s hs => by
    rw [mem_def, hd.sessions] at hs
    exact absurd hs not_mem_nil
  have hinv : SessionsHeld w.store.db ∧ SessionsInUse w.store.db ∧ Bound w.store.db :=
    hr.store_invariant (I := fun st => SessionsHeld st.db ∧ SessionsInUse st.db ∧ Bound st.db)
      (fun hi _ hiss hg h => by
        have hh := hi.1.exec hiss hg.1 h
        exact ⟨hh, hi.2.1.exec hiss hg.2.1 hh h, hi.2.2.exec hg.2.2 h⟩)
      ⟨SessionsHeld.start hd, hst, Bound.start hd⟩
  exact ⟨hinv.2.1, hinv.2.2.follows⟩

theorem no_session_busy_without_work_leased :
    ∃ w : World, (∃ s ∈ w.store.db.sessionRegistry, s.status = .active)
      ∧ (∃ b ∈ w.store.db.runtimeBindings, b.state = .running)
      ∧ (∀ s ∈ w.store.db.sessionRegistry, s.status = .active → ∃ r ∈ w.store.db.agentCommands,
        r.sessionKey = s.sessionKey ∧ r.currentEpoch = some s.epoch
          ∧ (r.status.isActive ∨ r.status = .succeeded))
      ∧ ∀ b ∈ w.store.db.runtimeBindings, BindingFollows w.store.db.sessionRegistry b := by
  have hr : ∃ w, run (restrict step (World.Meets KeepsWork)) (start movableDb)
      batchLeased = some w ∧ (∃ s ∈ w.store.db.sessionRegistry, s.status = .active)
        ∧ ∃ b ∈ w.store.db.runtimeBindings, b.state = .running := ⟨_, rfl, by decide⟩
  obtain ⟨w, h, hs, hb⟩ := hr
  exact ⟨w, hs, hb, no_session_busy_without_work movableDb_initial (steps_of_run h)⟩

/-- Two schedulers read the same due command; the first requeues it, it is leased again, and the
second puts it back to `pending` without releasing its session.  And a move that fences one of the
agent's sessions leaves another active, its command being `succeeded`, beside an idle binding. -/
theorem busy_without_work : (∃ w, Steps step (start {}) w
      ∧ ∃ s ∈ w.store.db.sessionRegistry, s.status = .active ∧ ∀ r ∈ w.store.db.agentCommands,
        r.sessionKey = s.sessionKey → r.currentEpoch = some s.epoch →
          ¬ (r.status.isActive ∨ r.status = .succeeded))
      ∧ ∃ w w', Steps step (start movableDb) w ∧ step w (.move (some "h")) = some w'
        ∧ w'.store.db.sessionRegistry.rows ≠ w.store.db.sessionRegistry.rows
        ∧ ∃ b ∈ w'.store.db.runtimeBindings, ¬ BindingFollows w'.store.db.sessionRegistry b := by
  constructor
  · let ops : List Op := [ .ofClient (.upsertSession "s" "agent" "conv"),
      .ofClient (.insertCommand (.sample "c" "s")), .ofPoll (.pending "node" 10), .resume 0 ["a1"],
      .ofPoll (.expired 60) 100000000, .resume 1,
      .ofPoll (.retriable 10) 1000000000000, .ofPoll (.retriable 10) 1000000000000,
      .resume 1, .ofPoll (.pending "node" 10), .resume 2 ["a2"], .resume 1]
    refine ⟨_, steps_of_run (show run step (start {}) ops = some _ from rfl), ?_⟩
    decide
  · let ops : List Op := [ .ofClient (.upsertSession "s1" "agent" "conv"),
      .ofClient (.upsertSession "s2" "agent" "conv"),
      .ofClient (.insertCommand (.sample "c1" "s1")),
      .ofPoll (.pending "node" 10), .resume 0 ["a1"], .resume 0,
      { action := .run 0 (.finish (.ok "done" 0 0 none) none) }, .resume 0,
      .ofClient (.insertCommand (.sample "c2" "s2")),
      .ofPoll (.pending "node" 10), .resume 1 ["a2"]]
    refine ⟨_, _, steps_of_run (show run step (start movableDb) ops = some _ from rfl), rfl, ?_⟩
    decide

end Choruz
