import Choruz.Spec

/-!
# Every call keeps to its effect

One lemma for each call, assembled into `exec_effect`: a committed call changes command and
session rows only as `RowStep` and `SessionStep` say.  Lease expiry, host revocation and binding
moves raise the epoch of the sessions of the commands they close.  What each statement leaves alone
comes first: the session trigger writes bindings only, and the publication trigger the outbox and
the conversation counters only.
-/

namespace Choruz

open Relational Db Call

theorem le_foldl_seq : ∀ (es : List ConversationEventRow) (m : Int),
    m ≤ es.foldl (fun m e => max m e.seq) m ∧ ∀ e ∈ es, e.seq ≤ es.foldl (fun m e => max m e.seq) m
  | [], m => ⟨le_refl m, fun _ h => absurd h not_mem_nil⟩
  | e :: es, m => by
    obtain ⟨ha, he⟩ := le_foldl_seq es (max m e.seq)
    refine ⟨(le_max_left _ _).trans ha, fun e' he' => ?_⟩
    rcases mem_cons.1 he' with rfl | he'
    · exact (le_max_right _ _).trans ha
    · exact he e' he'

namespace Db

section Statements

variable (db : Db) (now : Timestamp)

section Commands

variable (p : AgentCommand → Bool) (f : AgentCommand → AgentCommand)
  (hf : ∀ c, (f c).commandId = c.commandId)

@[simp] theorem updateCommands_agentCommands :
    (db.updateCommands p f hf).agentCommands = db.agentCommands.updateWhere p f hf := rfl

@[simp] theorem updateCommands_sessionRegistry :
    (db.updateCommands p f hf).sessionRegistry = db.sessionRegistry := rfl

@[simp] theorem updateCommands_deadLetters :
    (db.updateCommands p f hf).deadLetters = db.deadLetters := rfl

@[simp] theorem updateCommands_conversationEvents :
    (db.updateCommands p f hf).conversationEvents = db.conversationEvents := rfl

end Commands

section Bindings

variable (p : RuntimeBinding → Bool) (f : RuntimeBinding → RuntimeBinding)
  (hf : ∀ b, (f b).id = b.id)

@[simp] theorem updateBindings_agentCommands :
    (db.updateBindings p f hf).agentCommands = db.agentCommands := rfl

@[simp] theorem updateBindings_sessionRegistry :
    (db.updateBindings p f hf).sessionRegistry = db.sessionRegistry := rfl

@[simp] theorem updateBindings_runtimeBindings :
    (db.updateBindings p f hf).runtimeBindings = db.runtimeBindings.updateWhere p f hf := rfl

end Bindings

theorem insertDeadLetter_agentCommands (id : String) (input : InsertDeadLetter) :
    (db.insertDeadLetterInTransaction now id input).agentCommands = db.agentCommands := rfl

@[simp] theorem insertDeadLetter_conversationEvents (id : String) (input : InsertDeadLetter) :
    (db.insertDeadLetterInTransaction now id input).conversationEvents
      = db.conversationEvents := rfl

theorem refresh_eq (aid : String) : ∃ bindings, db.refreshHeadlessBindingProgress now aid
      = { db with runtimeBindings := bindings } := by
  unfold refreshHeadlessBindingProgress
  split
  · exact ⟨db.runtimeBindings, rfl⟩
  · exact ⟨_, rfl⟩

theorem foldl_refresh_eq : ∀ (agents : List String) (db : Db),
    ∃ bindings, agents.foldl (fun db a => db.refreshHeadlessBindingProgress now a) db
      = { db with runtimeBindings := bindings }
  | [], db => ⟨db.runtimeBindings, rfl⟩
  | a :: agents, db => by
    obtain ⟨bindings, h⟩ := refresh_eq db now a
    obtain ⟨bindings', h'⟩ := foldl_refresh_eq agents { db with runtimeBindings := bindings }
    refine ⟨bindings', ?_⟩
    rw [List.foldl_cons, h, h']

section Sessions

variable (p : Session → Bool) (f : Session → Session) (hf : ∀ s, (f s).sessionKey = s.sessionKey)

theorem updateSessions_eq : ∃ bindings, db.updateSessions now p f hf = { db with
      sessionRegistry := db.sessionRegistry.updateWhere p f hf, runtimeBindings := bindings } :=
  foldl_refresh_eq now _ _

@[simp] theorem updateSessions_sessionRegistry : (db.updateSessions now p f hf).sessionRegistry
      = db.sessionRegistry.updateWhere p f hf := by
  obtain ⟨b, h⟩ := updateSessions_eq db now p f hf
  rw [h]

@[simp] theorem touchSessions_sessionRegistry :
    (db.touchSessions p f hf).sessionRegistry = db.sessionRegistry.updateWhere p f hf := rfl

@[simp] theorem touchSessions_agentCommands :
    (db.touchSessions p f hf).agentCommands = db.agentCommands := rfl

@[simp] theorem updateSessions_agentCommands :
    (db.updateSessions now p f hf).agentCommands = db.agentCommands := by
  obtain ⟨b, h⟩ := updateSessions_eq db now p f hf
  rw [h]

@[simp] theorem updateSessions_deadLetters :
    (db.updateSessions now p f hf).deadLetters = db.deadLetters := by
  obtain ⟨b, h⟩ := updateSessions_eq db now p f hf
  rw [h]

@[simp] theorem updateSessions_conversationEvents :
    (db.updateSessions now p f hf).conversationEvents = db.conversationEvents := by
  obtain ⟨b, h⟩ := updateSessions_eq db now p f hf
  rw [h]

@[simp] theorem updateSessions_eventOutbox :
    (db.updateSessions now p f hf).eventOutbox = db.eventOutbox := by
  obtain ⟨b, h⟩ := updateSessions_eq db now p f hf
  rw [h]

@[simp] theorem updateSessions_outboxEvents :
    (db.updateSessions now p f hf).outboxEvents = db.outboxEvents := by
  obtain ⟨b, h⟩ := updateSessions_eq db now p f hf
  rw [h]

end Sessions

theorem publish_eq (e : ConversationEventRow) :
    ∃ conversations members outbox, db.publishConversationMessage e = { db with
      conversations, conversationMembers := members, outboxEvents := outbox } := by
  unfold publishConversationMessage
  split
  · split
    · exact ⟨db.conversations, db.conversationMembers, db.outboxEvents, rfl⟩
    · dsimp only
      split
      · exact ⟨_, _, _, rfl⟩
      · exact ⟨db.conversations, db.conversationMembers, _, rfl⟩
  · exact ⟨db.conversations, db.conversationMembers, db.outboxEvents, rfl⟩

theorem insertEventRow_eq_some {db' : Db} {e : ConversationEventRow}
    (h : db.insertEventRow e = some db') :
    db.eventConflict e = false ∧ ∃ conversations members outbox, db' = { db with
      conversationEvents := db.conversationEvents ++ [e]
      conversations
      conversationMembers := members
      outboxEvents := outbox } := by
  unfold insertEventRow at h
  split_ifs at h with hc
  obtain ⟨conversations, members, outbox, hp⟩ :=
    publish_eq { db with conversationEvents := db.conversationEvents ++ [e] } e
  refine ⟨by simpa using hc, conversations, members, outbox, ?_⟩
  rw [hp] at h
  simpa using h.symm

end Statements

theorem sessionBusy_congr {db db' : Db} (h : db'.agentCommands = db.agentCommands) (k : String) :
    db'.sessionBusy k = db.sessionBusy k := by
  unfold sessionBusy
  rw [h]

variable {k : String} {db : Db}

theorem sessionBusy_eq_true :
    db.sessionBusy k ↔ ∃ r ∈ db.agentCommands, r.sessionKey = k ∧ r.status.isActive := by
  simp [sessionBusy, mem_def]

theorem agentBusy_eq_true {a : String} :
    db.agentBusy a ↔ ∃ r ∈ db.agentCommands, r.agentId = a ∧ r.status.isActive := by
  simp [agentBusy, mem_def]

theorem ownedBy_eq_true {a : String} {r : AgentCommand} :
    db.ownedBy a r ↔ r.currentAttemptId = some a ∧ db.epochCurrent r := by
  simp [ownedBy]

theorem hostOwned_eq_true {host a : String} {r : AgentCommand} : db.hostOwned host a r ↔
      db.ownedBy a r ∧ r.runtimeHostId = some host ∧ r.status.isActive := by
  simp [hostOwned, and_assoc]

theorem mem_of_lookup_filter {id : String} {p : AgentCommand → Bool} {c : AgentCommand}
    (h : (db.agentCommands.lookup id).filter p = some c) :
    c ∈ db.agentCommands ∧ c.commandId = id ∧ p c := by
  obtain ⟨hl, hp⟩ := filter_eq_some_iff.1 h
  exact ⟨mem_of_lookup hl, key_of_lookup hl, hp⟩

end Db

/-- The call leases nothing and fences nothing. -/
def Call.Plain (call : Call) : Prop :=
  ∀ db, call.leases db = [] ∧ ∀ r, call.closes db r = false

variable {call : Call} {answer : Answer} {db db' : Db}

variable {db1 : Db} {now : Timestamp} {r : HostResult} {c : AgentCommand} {a host : String}
  {e : ConversationEventRow} {input : InsertDeadLetter} {w : StatusWrite} {expected : Option String}
  {f : AgentCommand → AgentCommand}

theorem fences_eq_false (h : ∀ r, call.closes db r = false) (s : Session) :
    call.fences db s = false := by
  simp [fences, hasCommand, h]

theorem Call.Plain.fences (hp : call.Plain) (db : Db) (s : Session) : call.fences db s = false :=
  fences_eq_false (hp db).2 s

theorem Effect.of_evolves
    (hr : (db.agentCommands).Evolves (RowStep call answer db db') db'.agentCommands)
    (hs : (db.sessionRegistry).Evolves (SessionStep call db db') db'.sessionRegistry) :
    Effect call answer db db' where
  row_of _ h := .inr (hr.exists_source h)
  row_to _ h := hr.exists_target h
  session_of _ h := .inr (hs.exists_source h)
  session_to _ h := hs.exists_target h

theorem SessionStep.same (s : Session) (hf : call.fences db s = false)
    (hl : ∀ r ∈ call.leases db, r.sessionKey ≠ s.sessionKey) : SessionStep call db db' s s :=
  .touch s.lastHeartbeatAt s.updatedAt hf hl

namespace Call.Plain

variable (hp : call.Plain)
include hp

theorem row_same (r : AgentCommand) : RowStep call answer db db' r r :=
  .keep ((hp db).2 r) (by simp [(hp db).1])

theorem rows_same (h : db'.agentCommands = db.agentCommands) :
    (db.agentCommands).Evolves (RowStep call answer db db') db'.agentCommands := by
  rw [h]
  exact Table.Evolves.refl fun r _ => hp.row_same r

theorem session_same (s : Session) : SessionStep call db db' s s :=
  .same s (hp.fences db s) (by simp [(hp db).1])

theorem sessions_same (h : db'.sessionRegistry = db.sessionRegistry) :
    (db.sessionRegistry).Evolves (SessionStep call db db') db'.sessionRegistry := by
  rw [h]
  exact Table.Evolves.refl fun s _ => hp.session_same s

theorem effect_same (hc : db'.agentCommands = db.agentCommands)
    (hs : db'.sessionRegistry = db.sessionRegistry) : Effect call answer db db' :=
  .of_evolves (hp.rows_same hc) (hp.sessions_same hs)

theorem rows_update {id : String} {hf : ∀ c, (f c).commandId = c.commandId}
    (hc : db'.agentCommands = db.agentCommands.updateWhere (·.commandId = id) f hf)
    {c : AgentCommand} (hmem : c ∈ db.agentCommands) (hid : c.commandId = id)
    (h : RowStep call answer db db' c (f c)) :
    (db.agentCommands).Evolves (RowStep call answer db db') db'.agentCommands := by
  rw [hc]
  refine evolves_updateWhere (fun r hr heq => ?_) fun r _ _ => hp.row_same r
  have hrid : r.commandId = id := by simpa using heq
  rwa [eq_of_key_eq hr hmem (hrid.trans hid.symm)]

theorem sessions_update {p : Session → Bool} {f : Session → Session}
    {hf : ∀ s, (f s).sessionKey = s.sessionKey}
    (hs : db'.sessionRegistry = db.sessionRegistry.updateWhere p f hf)
    (h : ∀ s, p s → SessionStep call db db' s (f s)) :
    (db.sessionRegistry).Evolves (SessionStep call db db') db'.sessionRegistry := by
  rw [hs]
  exact evolves_updateWhere (fun s _ => h s) fun s _ _ => hp.session_same s

theorem sessions_released {db1 : Db} {now : Timestamp} {e : Option Int}
    (hn : now = call.now) (hs1 : db1.sessionRegistry = db.sessionRegistry)
    (hc : db'.agentCommands = db1.agentCommands)
    (hs : db'.sessionRegistry = (db1.releaseSessionIfNoActiveCommands now k e).sessionRegistry) :
    (db.sessionRegistry).Evolves (SessionStep call db db') db'.sessionRegistry := by
  subst hn
  rw [hs, releaseSessionIfNoActiveCommands, updateSessions_sessionRegistry, hs1]
  refine evolves_updateWhere (fun s _ h => .release ?_ (hp db).1) fun s _ _ =>
    hp.session_same s
  simp at h
  rw [sessionBusy_congr hc]
  exact h.2

end Call.Plain

theorem released_of_release {r : AgentCommand} (hc : db'.agentCommands = db1.agentCommands)
    (hs : db'.sessionRegistry
      = (db1.releaseSessionIfNoActiveCommands now r.sessionKey r.currentEpoch).sessionRegistry) :
    Released db' r := by
  intro s hmem hk he ha
  rw [hs, releaseSessionIfNoActiveCommands, updateSessions_sessionRegistry, mem_updateWhere] at hmem
  obtain ⟨s0, -, heq⟩ := hmem
  split_ifs at heq with hco <;> subst heq
  · simp at ha
  · rw [sessionBusy_congr hc]
    simpa [hk, he] using hco

@[simp] theorem release_agentCommands (now : Timestamp) (k : String) (e : Option Int) :
    (db.releaseSessionIfNoActiveCommands now k e).agentCommands = db.agentCommands := by
  simp [releaseSessionIfNoActiveCommands]

@[simp] theorem release_deadLetters (now : Timestamp) (k : String) (e : Option Int) :
    (db.releaseSessionIfNoActiveCommands now k e).deadLetters = db.deadLetters := by
  simp [releaseSessionIfNoActiveCommands]

theorem insertCommandRow_eq_ok (h : db.insertCommandRow c = .ok db') :
    ∃ commands, db.agentCommands.insert? c = some commands
      ∧ db' = { db with agentCommands := commands } := by
  unfold insertCommandRow at h
  split_ifs at h
  split at h <;> cases h
  rename_i commands hi
  exact ⟨commands, hi, rfl⟩

theorem StatusWrite.apply_currentEpoch (w : StatusWrite) (now : Timestamp) (c : AgentCommand) :
    (w.update.apply now c).currentEpoch = c.currentEpoch := by
  simp [CommandStatusUpdate.apply, StatusWrite.update]

/-- A status write changes one row, and its session only by releasing it after a write that ends
the attempt. -/
theorem updateCommandStatusInner_eq_ok
    (h : db.updateCommandStatusInner now w.update expected = .ok db') :
    ∃ c ∈ db.agentCommands, c.commandId = w.commandId ∧ (∀ a, expected = some a → db.ownedBy a c)
      ∧ ∃ db1, db1 = db.updateCommands (·.commandId = w.commandId) (w.update.apply now)
        ∧ (db' = db1 ∧ w.status ≠ .retryScheduled ∧ w.status ≠ .deadLetter
          ∨ db' = db1.releaseSessionIfNoActiveCommands now c.sessionKey c.currentEpoch) := by
  unfold updateCommandStatusInner at h
  split at h
  · split at h <;> cases h
  rename_i c hl
  obtain ⟨hmem, hid, hp⟩ := mem_of_lookup_filter hl
  refine ⟨c, hmem, hid, fun a ha => by simpa [ha] using hp, _, rfl, ?_⟩
  rw [StatusWrite.apply_currentEpoch] at h
  split at h <;> simp at h
  · exact .inr h.symm
  · exact .inr h.symm
  · exact .inr h.symm
  next hr hd _ =>
    exact .inl ⟨h.symm, hr, hd⟩

theorem audited_insertDeadLetter (now : Timestamp) (id : String) (h : input.sourceType = "command") :
    Audited (db.insertDeadLetterInTransaction now id input) input.sourceId := by
  refine ⟨_, mem_append_right _ (mem_singleton_self _), h, rfl⟩

/-- The tables the reply loop does not write. -/
structure SameControl (db db' : Db) : Prop where
  commands : db'.agentCommands = db.agentCommands
  sessions : db'.sessionRegistry = db.sessionRegistry
  deadLetters : db'.deadLetters = db.deadLetters
  bindings : db'.runtimeBindings = db.runtimeBindings

theorem SameControl.trans {db2 db3 : Db} (h : SameControl db1 db2) (h' : SameControl db2 db3) :
    SameControl db1 db3 := ⟨h'.commands.trans h.commands, h'.sessions.trans h.sessions,
    h'.deadLetters.trans h.deadLetters, h'.bindings.trans h.bindings⟩

theorem insertEventRow_sameControl (h : db.insertEventRow e = some db') : SameControl db db' := by
  obtain ⟨-, _, _, _, rfl⟩ := insertEventRow_eq_some db h
  exact ⟨rfl, rfl, rfl, rfl⟩

theorem insertConversationEvent_sameControl {e : ConversationEvent} {seq : Int}
    (h : db.insertConversationEvent now e = some (seq, db')) : SameControl db db' := by
  unfold insertConversationEvent at h
  simp only [map_eq_some_iff, Prod.mk.injEq] at h
  obtain ⟨_, hi, -, rfl⟩ := h
  exact insertEventRow_sameControl hi

theorem insertRemoteReply_sameControl (h : db.insertRemoteReply now e = .ok db') :
    SameControl db db' := by
  unfold insertRemoteReply at h
  split_ifs at h
  · cases h
    exact ⟨rfl, rfl, rfl, rfl⟩
  · split at h <;> cases h
    rename_i hi
    have := insertEventRow_sameControl hi
    exact ⟨this.commands, this.sessions, this.deadLetters, this.bindings⟩

theorem insertRemoteReplies_sameControl {uuid : ℕ → String} {first : Int} {n : ℕ} :
    ∀ {contents : List String} {i : ℕ} {db db' : Db},
      db.insertRemoteReplies now uuid host a c r first n i contents = .ok db' → SameControl db db'
  | [], i, db, db', h => by
    cases h
    exact ⟨rfl, rfl, rfl, rfl⟩
  | content :: rest, i, db, db', h => by
    unfold insertRemoteReplies at h
    split at h
    · cases h
    rename_i hi
    exact (insertRemoteReply_sameControl hi).trans (insertRemoteReplies_sameControl h)

theorem commandOfAccount_disabled (now : Timestamp) (ws account actor : String) (c : AgentCommand) :
    ((db.disableAccount now ws account actor).disableAccountBindings now ws
      account).commandOfAccount ws account c = db.commandOfAccount ws account c := by
  unfold commandOfAccount disableAccountBindings updateBindings
  simp [Table.updateWhere]
  refine List.any_congr rfl fun b => ?_
  simp
  cases (db.disableAccount now ws account actor).boundToAccount ws account b <;> rfl

theorem deadLetterAccountCommands_evolves (db : Db) (now : Timestamp) (ws account : String) :
    (db.agentCommands).Evolves (fun r r' => r' = r ∨ db.commandOfAccount ws account r
        ∧ (r.status = .pending ∨ r.status = .retryScheduled) ∧ r' = { r with
          status := .deadLetter
          lastError := some "Harness account removed [kind=account_removed]"
          updatedAt := now })
      (db.deadLetterAccountCommands now ws account).agentCommands := by
  unfold deadLetterAccountCommands
  rw [updateCommands_agentCommands]
  refine evolves_updateWhere (fun r _ h => .inr ?_) fun r _ _ => .inl rfl
  simp at h
  exact ⟨h.1, h.2, rfl⟩

theorem capAccountCommands_evolves (db : Db) (ws account : String) : (db.agentCommands).Evolves
      (fun r r' => r' = r ∨ r.status.isActive ∧ r' = { r with maxAttempts := max 1 r.attemptCount })
      (db.capAccountCommands ws account).agentCommands := by
  unfold capAccountCommands
  rw [updateCommands_agentCommands]
  refine evolves_updateWhere (fun r _ h => .inr ?_) fun r _ _ => .inl rfl
  simp at h
  exact ⟨h.2, rfl⟩

section Plain

variable (hp : call.Plain)
include hp

theorem effect_close (hmem : c ∈ db.agentCommands) {id : String}
    (hid : c.commandId = id)
    {hf : ∀ c, (f c).commandId = c.commandId} (hc : db'.agentCommands = db1.agentCommands)
    (hc1 : db1.agentCommands = db.agentCommands.updateWhere (·.commandId = id) f hf)
    (hs1 : db1.sessionRegistry = db.sessionRegistry)
    (hs : db'.sessionRegistry = (db1.releaseSessionIfNoActiveCommands call.now c.sessionKey
      c.currentEpoch).sessionRegistry)
    (hst : Released db' c → RowStep call answer db db' c (f c)) : Effect call answer db db' :=
  .of_evolves (hp.rows_update (hc.trans hc1) hmem hid (hst (released_of_release hc hs)))
    (hp.sessions_released rfl hs1 hc hs)

theorem effect_upsertSession {k conv : String}
    (h : db.upsertSession call.now k a conv = db') : Effect call answer db db' := by
  unfold upsertSession at h
  split at h
  next sessions hi =>
    subst h
    refine ⟨fun r hr => .inr ⟨r, hr, hp.row_same r⟩,
      fun r hr => ⟨r, hr, hp.row_same r⟩, fun s hs => ?_, fun s hs => ?_⟩
    · rcases (mem_insert? hi).1 hs with hs | rfl
      · exact .inr ⟨s, hs, hp.session_same s⟩
      · exact .inl ⟨rfl, not_mem_key_of_insert? hi⟩
    · exact ⟨s, (mem_insert? hi).2 (.inl hs), hp.session_same s⟩
  · subst h
    exact .of_evolves (hp.rows_same rfl) (hp.sessions_update
      (touchSessions_sessionRegistry ..) fun s _ =>
        .touch s.lastHeartbeatAt call.now (hp.fences db s) (by simp [(hp db).1]))

theorem effect_sessionHeartbeat {e : Int}
    (h : db.updateSessionHeartbeatForEpoch call.now k e = .ok db') :
    Effect call answer db db' := by
  unfold updateSessionHeartbeatForEpoch at h
  split at h
  · cases h
  split_ifs at h
  cases h
  exact .of_evolves (hp.rows_same rfl)
    (hp.sessions_update (touchSessions_sessionRegistry ..) fun s _ =>
      .touch (some call.now) call.now (hp.fences db s) (by simp [(hp db).1]))

theorem effect_insertCommand {input : InsertCommand}
    (ht : call.txn = .insertCommand input)
    (h : db.insertCommand call.now input = .ok db') : Effect call answer db db' := by
  unfold insertCommand at h
  split at h
  · cases h
    exact hp.effect_same rfl rfl
  · split at h
    · cases h
    obtain ⟨commands, hi, rfl⟩ := insertCommandRow_eq_ok h
    refine ⟨fun r hr => ?_, fun r hr => ?_, fun s hs => .inr ⟨s, hs, hp.session_same s⟩,
      fun s hs => ⟨s, hs, hp.session_same s⟩⟩
    · rcases (mem_insert? hi).1 hr with hr | rfl
      · exact .inr ⟨r, hr, hp.row_same r⟩
      · exact .inl ⟨⟨input, ht, rfl⟩, rfl, rfl, rfl, rfl, not_mem_key_of_insert? hi⟩
    · exact ⟨r, (mem_insert? hi).2 (.inl hr), hp.row_same r⟩

theorem effect_statusWrite
    (h : db.updateCommandStatusInner call.now w.update expected = .ok db')
    (hs : ∀ c, c.commandId = w.commandId → (∀ a, expected = some a → db.ownedBy a c) →
      (w.status = .retryScheduled ∨ w.status = .deadLetter → Released db' c) →
      RowStep call answer db db' c (w.update.apply call.now c)) : Effect call answer db db' := by
  obtain ⟨c, hmem, hid, hown, db1, hdb1, hd'⟩ := updateCommandStatusInner_eq_ok h
  rcases hd' with ⟨rfl, hr, hd⟩ | rfl <;> subst hdb1
  · exact .of_evolves (hp.rows_update (updateCommands_agentCommands ..) hmem hid
        (hs c hid hown fun h => (h.elim hr hd).elim)) (hp.sessions_same rfl)
  · exact effect_close hp hmem hid (release_agentCommands ..)
      (updateCommands_agentCommands ..) rfl rfl fun hrel => hs c hid hown fun _ => hrel

theorem effect_updateCommandStatus (ht : call.txn = .updateCommandStatus w)
    (h : db.updateCommandStatus call.now w.update = .ok db') : Effect call answer db db' :=
  effect_statusWrite hp h fun _ hid _ hr => .write ht hid fun hd => hr (.inr hd)

theorem effect_updateCommandStatusForAttempt
    (ht : call.txn = .updateCommandStatusForAttempt w a)
    (h : db.updateCommandStatusForAttempt call.now w.update a = .ok db') :
    Effect call answer db db' := effect_statusWrite hp h fun _ hid ho hrel =>
    .fencedWrite ht hid (ho a rfl) fun hr => hrel (.inl hr)

theorem effect_markSucceeded {c : String}
    (ht : call.txn = .markCommandSucceededForAttempt c a)
    (h : db.markCommandSucceededForAttempt call.now c a = .ok db') : Effect call answer db db' := by
  unfold markCommandSucceededForAttempt at h
  split at h
  · cases h
  rename_i r hl
  obtain ⟨hmem, rfl, hc⟩ := mem_of_lookup_filter hl
  simp at hc
  cases h
  exact .of_evolves (hp.rows_update (updateCommands_agentCommands ..) hmem rfl
    (.succeed ht hc.1 hc.2)) (hp.sessions_same rfl)

theorem effect_markCommitted {c : String}
    (ht : call.txn = .markCommandCommittedForAttempt c a)
    (h : db.markCommandCommittedForAttempt call.now c a = .ok db') : Effect call answer db db' := by
  unfold markCommandCommittedForAttempt at h
  split at h
  · cases h
  rename_i r hl
  obtain ⟨hmem, rfl, hown⟩ := mem_of_lookup_filter hl
  cases h
  exact effect_close hp hmem rfl (release_agentCommands ..)
    (updateCommands_agentCommands ..) rfl rfl (.commit ht hown)

theorem effect_deadLetterForAttempt
    (ht : call.txn = .deadLetterCommandForAttempt input a)
    (h : db.deadLetterCommandForAttempt call.now call.uuid input a = .ok db') :
    Effect call answer db db' := by
  unfold deadLetterCommandForAttempt at h
  split at h
  · cases h
  rename_i r hl
  obtain ⟨hmem, hid, hown⟩ := mem_of_lookup_filter hl
  cases h
  refine effect_close hp hmem hid (release_agentCommands ..)
    (updateCommands_agentCommands ..) rfl rfl fun hr =>
      .deadLetter ht hid hown hr fun hs => ?_
  rw [hid]
  exact audited_insertDeadLetter _ _ hs

theorem effect_sweep {age : Int} {limit : ℕ}
    (ht : call.txn = .deadLetterStalePendingCommands age limit)
    (h : db.deadLetterStalePendingCommands call.now age limit = db') :
    Effect call answer db db' := by
  subst h
  refine .of_evolves ?_ (hp.sessions_same rfl)
  unfold deadLetterStalePendingCommands
  rw [updateCommands_agentCommands]
  refine evolves_updateWhere (fun r hr hmem => ?_) fun r _ _ => hp.row_same r
  rw [any_eq_true] at hmem
  obtain ⟨r', hr', hid⟩ := hmem
  have hr' := mem_filter.1 ((List.mem_insertionSort _).1 (List.mem_of_mem_take hr'))
  rw [eq_of_key_eq hr hr'.1 (by simpa using (of_decide_eq_true hid).symm)]
  have hst := hr'.2
  simp at hst
  exact .sweep ht hst.1 hst.2

theorem effect_hostHeartbeat {c : String}
    (ht : call.txn = .heartbeatRuntimeHostCommand host c a)
    (h : db.heartbeatRuntimeHostCommand call.now host c a = .ok db') :
    Effect call answer db db' := by
  unfold heartbeatRuntimeHostCommand at h
  split at h
  · cases h
  rename_i r hl
  obtain ⟨hmem, rfl, hown⟩ := mem_of_lookup_filter hl
  cases h
  exact .of_evolves (hp.rows_update ((touchSessions_agentCommands ..).trans
      (updateCommands_agentCommands ..)) hmem rfl (.hostBeat ht hown))
    (hp.sessions_update (touchSessions_sessionRegistry ..) fun s _ =>
      .touch (some call.now) call.now (hp.fences db s) (by simp [(hp db).1]))

section

variable (ht : call.txn = .completeRuntimeHostCommand host c.commandId a r)
  (hmem : c ∈ db.agentCommands) (hown : db.hostOwned host a c)
include ht hmem hown

theorem effect_hostCommit
    (h : db.commitRuntimeHostCommand call.now call.uuid host a c r = .ok db') :
    Effect call answer db db' := by
  unfold commitRuntimeHostCommand at h
  simp [] at h
  split at h <;> cases h
  rename_i db1 hi
  have hsa := insertRemoteReplies_sameControl hi
  have hc : db1.agentCommands = db.agentCommands := by
    rw [hsa.commands]
    split <;> rfl
  have hs : db1.sessionRegistry = db.sessionRegistry := by
    rw [hsa.sessions]
    split <;> rfl
  exact effect_close hp hmem rfl (release_agentCommands ..)
    ((updateCommands_agentCommands ..).trans (by rw [hc])) hs rfl (.hostCommit ht hown)

theorem effect_hostFail : Effect call answer db
      (db.failRuntimeHostCommand call.now call.uuid host a c r) := by
  unfold failRuntimeHostCommand
  extract_lets captured db0 err exhausted db1 db2
  have hc0 : db0.agentCommands = db.agentCommands := by
    simp [db0]
    split <;> rfl
  have hs0 : db0.sessionRegistry = db.sessionRegistry := by
    simp [db0]
    split <;> rfl
  have hc2 : db2.agentCommands = db1.agentCommands := by
    simp [db2]
    split <;> rfl
  have hs2 : db2.sessionRegistry = db0.sessionRegistry := by
    simp [db2]
    split <;> rfl
  refine effect_close hp hmem rfl (release_agentCommands ..)
    (hc2.trans ((updateCommands_agentCommands ..).trans (by rw [hc0]))) (hs2.trans hs0) rfl
    fun hr => .hostFail ht hown hr fun hd => ?_
  have hd : exhausted := hd
  obtain ⟨d, hd, hs⟩ : Audited db2 c.commandId := by
    simp [db2, hd]
    exact audited_insertDeadLetter _ _ rfl
  exact ⟨d, by rwa [release_deadLetters], hs⟩

end

theorem effect_hostComplete {c : String} (ht : call.txn = .completeRuntimeHostCommand host c a r)
    (h : db.completeRuntimeHostCommand call.now call.uuid host c a r = .ok db') :
    Effect call answer db db' := by
  unfold completeRuntimeHostCommand at h
  split at h
  · cases h
  rename_i row hl
  obtain ⟨hmem, rfl, hown⟩ := mem_of_lookup_filter hl
  split_ifs at h
  · exact effect_hostCommit hp ht hmem hown h
  · cases h
    exact effect_hostFail hp ht hmem hown

theorem effect_retirement {ws account actor : String}
    (ht : call.txn = .requestAccountRetirement ws account actor)
    (h : db.requestAccountRetirement call.now ws account actor = .ok db') :
    Effect call answer db db' := by
  unfold requestAccountRetirement at h
  split_ifs at h
  cases h
  refine .of_evolves ?_ (hp.sessions_same rfl)
  refine (deadLetterAccountCommands_evolves ((db.disableAccount call.now ws account
    actor).disableAccountBindings call.now ws account) call.now ws account).comp
    (capAccountCommands_evolves _ ws account) fun r r1 r2 _ _ h1 h2 => ?_
  rcases h1 with rfl | ⟨hac, hst, rfl⟩
  · rcases h2 with rfl | ⟨ha, rfl⟩
    · exact hp.row_same _
    · exact .cap ht ha
  · rcases h2 with rfl | ⟨ha, -⟩
    · exact .retire ht (by rwa [commandOfAccount_disabled] at hac) hst
    · simp [CommandStatus.isActive] at ha

end Plain

variable {expired : ExpiredLease} {ok : Bool} {target : Option String} {valid closed : Bool}
  {bindingId : String}

theorem sessions_fenced (hl : call.leases db = []) {db1 : Db} {p : Session → Bool}
    (hs : db'.sessionRegistry = (db1.fenceSessions call.now p).sessionRegistry)
    (hs1 : db1.sessionRegistry = db.sessionRegistry)
    (hp : ∀ s ∈ db.sessionRegistry, p s = call.fences db s) :
    (db.sessionRegistry).Evolves (SessionStep call db db') db'.sessionRegistry := by
  rw [hs, fenceSessions, updateSessions_sessionRegistry, hs1]
  refine evolves_updateWhere (fun s hm h => .fence ?_) fun s hm h => .same s ?_ ?_
  · rw [← hp s hm, h]
  · rw [← hp s hm, h]
  · simp [hl]

@[simp] theorem fence_agentCommands (now : Timestamp) (p : Session → Bool) :
    (db.fenceSessions now p).agentCommands = db.agentCommands := updateSessions_agentCommands ..

@[simp] theorem fence_deadLetters (now : Timestamp) (p : Session → Bool) :
    (db.fenceSessions now p).deadLetters = db.deadLetters := updateSessions_deadLetters ..

theorem fences_expiry (ht : call.txn = .handleLeaseExpiry expired) (hm : c ∈ db.agentCommands)
    (hid : c.commandId = expired.commandId) (s : Session) :
    (s.sessionKey = c.sessionKey && s.epoch = expired.epoch : Bool) = call.fences db s := by
  have h : db.hasCommand (call.closes db) s = decide (s.sessionKey = c.sessionKey) := by
    rw [Bool.eq_iff_iff]
    simp [hasCommand, closes, ht]
    constructor
    · rintro ⟨r, hr, hk, hr'⟩
      rw [← hk, eq_of_key_eq hr hm (hr'.trans hid.symm)]
    · intro hk
      exact ⟨c, hm, hk.symm, hid⟩
  simp [fences, h, ht]

theorem rows_expired (hl : call.leases db = []) (ht : call.txn = .handleLeaseExpiry expired)
    (hm : c ∈ db.agentCommands) (hid : c.commandId = expired.commandId)
    {f : AgentCommand → AgentCommand} {hf : ∀ c, (f c).commandId = c.commandId}
    (hc : db'.agentCommands = db.agentCommands.updateWhere (·.commandId = expired.commandId) f hf)
    (hs : RowStep call answer db db' c (f c)) :
    (db.agentCommands).Evolves (RowStep call answer db db') db'.agentCommands := by
  rw [hc]
  refine evolves_updateWhere (fun r hr hrid => ?_) fun r _ hrid => .keep ?_ (by simp [hl])
  · have hrid : r.commandId = expired.commandId := by simpa using hrid
    rwa [eq_of_key_eq hr hm (hrid.trans hid.symm)]
  · simpa [closes, ht] using hrid

theorem effect_expiry (ht : call.txn = .handleLeaseExpiry expired)
    (h : db.handleLeaseExpiry call.now call.uuid expired = .ok db') :
    Effect call answer db db' := by
  have hl : call.leases db = [] := by simp [leases, ht]
  unfold handleLeaseExpiry at h
  split at h
  · cases h
  rename_i c hlo
  obtain ⟨hm, hid⟩ := lookup_eq_some.1 hlo
  have hf := fun s (_ : s ∈ db.sessionRegistry) => fences_expiry ht hm hid s
  split_ifs at h with he ha hex <;> cases h
  · refine .of_evolves (rows_expired hl ht hm hid ((insertDeadLetter_agentCommands ..).trans
      ((updateCommands_agentCommands ..).trans (by rw [fence_agentCommands])))
      (.expireDead ht hid (not_not.1 he) (by simpa using ha) ?_)) (sessions_fenced hl rfl rfl hf)
    rw [hid]
    exact audited_insertDeadLetter _ _ rfl
  · exact .of_evolves (rows_expired hl ht hm hid ((updateCommands_agentCommands ..).trans
      (by rw [fence_agentCommands])) (.expireRetry ht hid (not_not.1 he)
        (by simpa using ha))) (sessions_fenced hl rfl rfl hf)

theorem effect_revokeHost {host : String} (ht : call.txn = .revokeHost ok host)
    (h : db.revokeHost call.now ok host = .ok db') : Effect call answer db db' := by
  have hl : call.leases db = [] := by simp [leases, ht]
  have hc : call.closes db = openOnHost host := by
    funext r
    simp [closes, ht]
  unfold revokeHost at h
  split_ifs at h
  cases h
  refine .of_evolves ?_ (sessions_fenced hl rfl rfl fun s _ => ?_)
  · unfold cancelHostCommands
    rw [updateCommands_agentCommands, fence_agentCommands]
    refine evolves_updateWhere (fun r _ hst => .revoke ht hst) fun r _ hst =>
      .keep ?_ (by simp [hl])
    rw [hc, hst]
  · simp [fences, ht, hc]
    rfl

/-- The move's write of the binding: it is the agent's only one in use, and is left idle. -/
theorem rebindHost_eq_ok {b : RuntimeBinding} (h : db.rebindHost now b target = .ok db') :
    db.otherLiveBinding b.agentPrincipalId b.id = false ∧ ∃ config,
      db' = db.updateBindings (·.id = b.id) fun b => { b with
        configJson := config, externalSessionId := none, externalThreadId := none
        state := .idle, lastError := none, updatedAt := now } := by
  unfold rebindHost at h
  split at h
  · cases h
  split_ifs at h with ho
  simp at h
  exact ⟨by simpa using ho, _, h.symm⟩

/-- A move that commits either finds the binding on its target or requeues the agent. -/
theorem assignBindingHost_eq_ok
    (h : db.assignBindingHost now ok valid closed bindingId target = .ok db') :
    ∃ bnd, db.runtimeBindings.lookup bindingId = some bnd ∧
      (bnd.runtimeHostId = target.map trim ∧ db' = db ∨
        bnd.runtimeHostId ≠ target.map trim ∧ ((db.fenceSessions now (db.hasCommand (openOfAgent
            bnd.agentPrincipalId))).requeueCommands now bnd.agentPrincipalId
              (target.map trim)).rebindHost now bnd (target.map trim) = .ok db') := by
  unfold assignBindingHost at h
  split at h
  · cases h
  rename_i bnd hb
  refine ⟨bnd, hb, ?_⟩
  split at h
  · cases h
  simp only at h
  split_ifs at h with _ _ _ heq
  · simp at h
    exact .inl ⟨heq, h.symm⟩
  · exact .inr ⟨heq, h⟩

theorem effect_assignBindingHost (ht : call.txn = .assignBindingHost ok valid closed bindingId target)
    (h : db.assignBindingHost call.now ok valid closed bindingId target = .ok db') :
    Effect call answer db db' := by
  have hl : call.leases db = [] := by simp [leases, ht]
  obtain ⟨binding, hb, ⟨heq, rfl⟩ | ⟨hne, h⟩⟩ := assignBindingHost_eq_ok h
  · have hc : ∀ r, call.closes db' r = false := fun r => by
      simp [closes, ht, movedAgent, hb, heq]
    exact .of_evolves (Table.Evolves.refl fun r _ => .keep (hc r) (by simp [hl]))
      (Table.Evolves.refl fun s _ => .same s (fences_eq_false hc s) (by simp [hl]))
  · have hm : db.movedAgent bindingId target = some binding.agentPrincipalId := by
      simp [movedAgent, hb, hne]
    have hc : call.closes db = openOfAgent binding.agentPrincipalId := by
      funext r
      simp [closes, ht, hm]
    obtain ⟨-, config, rfl⟩ := rebindHost_eq_ok h
    refine .of_evolves ?_ (sessions_fenced hl rfl rfl fun s _ => ?_)
    · rw [updateBindings_agentCommands, requeueCommands, updateCommands_agentCommands,
        fence_agentCommands]
      refine evolves_updateWhere (fun r _ hst => .requeue ht hm hst) fun r _ hst =>
      .keep ?_ (by simp [hl])
      rw [hc, hst]
    · simp [fences, ht, hc]

end Choruz
