import Choruz.TaskWorld

/-!
# What a transaction does to the cards

A transaction on the task tables leaves the cards alone, stores an event without a version, creates
a card, patches a card and stores the event of the patch, or writes a card directly.
-/

namespace Choruz

open Relational TaskDb Json

variable {db db' db'' : TaskDb} {r : Roster} {now : Timestamp}

variable {ps : List WorkflowTaskParticipantInput} {t existing task : GroupWorkflowTask}
  {c a taskId actorId eventId : String} {p : WorkflowTaskParticipantInput}
  {e e' : GroupWorkflowEvent} {header : EventHeader} {payload base : Json}
  {mentions : TaskField → Bool} {request : PatchChannelTaskRequest} {effect : WorkflowStatusEffect}
  {creation : Creation} {ids : ℕ → String} {prims : TaskPrims}

structure TaskDb.SameCards (db db' : TaskDb) : Prop where
  tasks : db'.tasks = db.tasks
  events : db'.events = db.events

theorem TaskDb.SameCards.refl (db : TaskDb) : db.SameCards db := ⟨rfl, rfl⟩

theorem TaskDb.SameCards.trans (h : db.SameCards db') (h' : db'.SameCards db'') : db.SameCards db'' :=
  ⟨h'.tasks.trans h.tasks, h'.events.trans h.events⟩

theorem TaskDb.SameCards.of_participants {ps : List GroupWorkflowTaskParticipant}
    (h : { db with participants := ps }.SameCards db') : db.SameCards db' := ⟨h.tasks, h.events⟩

structure TaskDb.SameBoard (db db' : TaskDb) : Prop extends db.SameCards db' where
  participants : db'.participants = db.participants

theorem TaskDb.SameBoard.refl (db : TaskDb) : db.SameBoard db := ⟨.refl db, rfl⟩

theorem TaskDb.SameBoard.trans (h : db.SameBoard db') (h' : db'.SameBoard db'') : db.SameBoard db'' :=
  ⟨h.toSameCards.trans h'.toSameCards, h'.participants.trans h.participants⟩

structure TaskDb.Replaces (db db' : TaskDb) (t t' : GroupWorkflowTask) : Prop where
  id : t'.id = t.id
  row : db.tasks.lookup t.id = some t
  rows : ∀ k, db'.tasks.lookup k = if k = t.id then some t' else db.tasks.lookup k
  version : t'.version = t.version + 1

theorem TaskDb.Replaces.of_updateWhere {f : GroupWorkflowTask → GroupWorkflowTask}
    (hf : ∀ t, (f t).id = t.id) (hrow : db.tasks.lookup t.id = some t)
    (hv : (f t).version = t.version + 1)
    (ht : db'.tasks = db.tasks.updateWhere (·.id = t.id) f hf) : db.Replaces db' t (f t) where
  id := hf t
  row := hrow
  rows := by
    intro k
    rw [ht, Table.lookup_updateWhere_key]
    split_ifs with hk
    · rw [hk, hrow, Option.map_some]
    · rfl
  version := hv

structure TaskDb.NewCard (db : TaskDb) (t : GroupWorkflowTask) : Prop where
  key : db.taskKeyTaken t.conversationId t.taskKey = false
  request : db.idempotencyTaken t = false

theorem TaskDb.NewCard.of_tasks (h : db'.NewCard t) (ht : db'.tasks = db.tasks) :
    db.NewCard t := by
  constructor
  · simpa [taskKeyTaken, ht] using h.key
  · simpa [idempotencyTaken, ht] using h.request

/-- What an edit does to a card that is there: an event without a version, or a patch with its
event. -/
inductive EditEffect (mentions : TaskField → Bool) (db db' : TaskDb) : Prop where
  | noted (e : GroupWorkflowEvent) (tasks : db'.tasks = db.tasks)
      (events : db'.events.rows = db.events.rows ++ [e]) (version : e.resultingVersion = none)
  | patched (t t' : GroupWorkflowTask) (e : GroupWorkflowEvent) (replaces : db.Replaces db' t t')
      (events : db'.events.rows = db.events.rows ++ [e]) (task : e.taskId = some t.id)
      (version : e.resultingVersion = some t'.version) (tells : e.Tells t t')
      (kept : ∀ f, mentions f = false → t'.get f = t.get f)

/-- What a transaction does to the cards and their events. -/
inductive TaskEffect (mentions : TaskField → Bool) (db db' : TaskDb) : Prop where
  | quiet (same : db.SameCards db')
  | edited (edit : EditEffect mentions db db')
  | created (t : GroupWorkflowTask) (es : List GroupWorkflowEvent)
      (tasks : db.tasks.insert? t = some db'.tasks) (version : t.version = 1)
      (events : db'.events.rows = db.events.rows ++ es)
      (first : ∀ e ∈ es, e.taskId = some t.id ∧ e.resultingVersion = some 1)
      (card : db.NewCard t) (one : ∀ e ∈ es, ∀ e' ∈ es, e = e')

theorem insertTaskParticipant_same {t : String} {b : Bool}
    (h : db.insertTaskParticipant r c t p b = .ok db') : db.SameCards db' := by
  obtain ⟨_, -, h⟩ := bind_eq_ok.1 h
  obtain ⟨_, -, h⟩ := bind_eq_ok.1 h
  split_ifs at h
  cases h
  exact ⟨rfl, rfl⟩

theorem replaceNonOwnerParticipants_same {t : String}
    (h : db.replaceNonOwnerParticipants r c t ps = .ok db') : db.SameCards db' := by
  suffices hf : ∀ db1 : TaskDb, ps.foldlM
      (fun db p => db.insertTaskParticipant r c t p false) db1 = .ok db' → db1.SameCards db' from
    (hf _ h).of_participants
  clear h
  induction ps with
  | nil =>
    rintro db1 ⟨⟩
    exact .refl _
  | cons p ps ih =>
    intro db1 h
    obtain ⟨db2, hp, h⟩ := bind_eq_ok.1 h
    exact (insertTaskParticipant_same hp).trans (ih db2 h)

theorem syncOwnerParticipant_same {t : String} (h : db.syncOwnerParticipant r c t a = .ok db') :
    db.SameCards db' := (insertTaskParticipant_same h).of_participants

theorem replaceThenSync_same {db1 : TaskDb} {t : String}
    (hr : db.replaceNonOwnerParticipants r c t ps = .ok db1)
    (hs : db1.syncOwnerParticipant r c t a = .ok db') : db.SameCards db' :=
  (replaceNonOwnerParticipants_same hr).trans (syncOwnerParticipant_same hs)

theorem insertWorkflowEvent_eq_ok (h : db.insertWorkflowEvent e = .ok (e', db')) :
    db'.tasks = db.tasks ∧ db'.events.rows = db.events.rows ++ [e]
      ∧ e.payload.isObject ∧ e' = e := by
  unfold insertWorkflowEvent at h
  split_ifs at h with ho
  split at h <;> cases h
  rename_i hi
  exact ⟨rfl, rows_insert? hi, by simpa using ho, rfl⟩

theorem insertWorkflowEvent_rest (h : db.insertWorkflowEvent e = .ok (e', db')) :
    db' = { db with events := db'.events } := by
  unfold insertWorkflowEvent at h
  split_ifs at h
  split at h <;> cases h
  rfl

theorem insertDiagnosticEvent_effect {tid : Option String} {reason : String}
    {statusEffect detail : Option String}
    (h : db.insertDiagnosticEvent header c tid payload reason statusEffect detail =
      .ok (e, db')) : EditEffect mentions db db' := by
  obtain ⟨ht, he, -⟩ := insertWorkflowEvent_eq_ok h
  exact .noted _ ht he rfl

theorem lockTask_eq_ok (h : db.lockTask taskId = .ok t) : db.tasks.lookup taskId = some t := by
  unfold lockTask at h
  split at h <;> cases h
  assumption

theorem VisibleValues.readFrom_toJson (v : VisibleValues) : v.ReadFrom (some v.toJson) := by
  constructor <;> simp [VisibleValues.toJson, ofFields, field?, find?_setField, find?_setField_self]

/-- The payload of a patch tells the values before and after. -/
theorem patchEventPayload_tells {actor : Option String} {prev new : VisibleValues}
    (ho : (patchEventPayload base actor prev new).isObject) :
    prev.ReadFrom ((patchEventPayload base actor prev new).field? "previous")
      ∧ new.ReadFrom ((patchEventPayload base actor prev new).field? "new") := by
  unfold patchEventPayload at ho ⊢
  rw [isObject_set, isObject_set] at ho
  constructor
  · rw [field?_set_of_ne (by decide), field?_set_self ho]
    exact prev.readFrom_toJson
  · rw [field?_set_self (by simpa using ho)]
    exact new.readFrom_toJson

theorem NullablePatch.apply_of_isUnchanged {α : Type} {current : Option α} :
    ∀ {patch : NullablePatch α}, patch.isUnchanged → patch.apply current = current
  | .unchanged, _ => rfl

theorem setVisible_get {f : TaskField} (h : request.mentions f = false) :
    (t.setVisible now (request.apply t.visible)).get f = t.get f := by
  cases f with
  | status | assigneePrincipalId =>
    have hn := Option.not_isSome_iff_eq_none.1 (eq_false_iff.1 h)
    simp [GroupWorkflowTask.get, GroupWorkflowTask.setVisible, PatchChannelTaskRequest.apply,
      GroupWorkflowTask.visible, hn]
  | blockedReason | contextLabel =>
    exact NullablePatch.apply_of_isUnchanged (by simpa [PatchChannelTaskRequest.mentions] using h)
  | _ => rfl

section

variable (hrow : db.tasks.lookup existing.id = some existing)
include hrow

section

variable (h : db.applyAuthorizedPatch r now existing request header base = .ok (e, db'))
include h

theorem applyAuthorizedPatch_eq_ok :
    db.Replaces db' existing (existing.setVisible now (request.apply existing.visible))
      ∧ db'.events.rows = db.events.rows ++ [e]
      ∧ e = header.event existing.conversationId (some existing.id)
        (patchEventPayload base header.actorPrincipalId existing.visible
          (request.apply existing.visible)) (some (existing.version + 1)) ∧ e.payload.isObject := by
  obtain ⟨db1, hsy, h⟩ := bind_eq_ok.1 h
  obtain ⟨ht, he, ho, rfl⟩ := insertWorkflowEvent_eq_ok h
  have hs := syncOwnerParticipant_same hsy
  rw [hs.events] at he
  exact ⟨.of_updateWhere (f := (·.setVisible now (request.apply existing.visible))) (fun _ => rfl)
    hrow rfl (ht.trans hs.tasks), he, rfl, ho⟩

theorem applyAuthorizedPatch_effect : EditEffect request.mentions db db' := by
  obtain ⟨hr, he, rfl, ho⟩ := applyAuthorizedPatch_eq_ok hrow h
  exact .patched existing _ _ hr he rfl rfl (patchEventPayload_tells ho) fun f => setVisible_get

end

theorem applyChannelTaskPatch_effect {kind : Option String}
    (h : db.applyChannelTaskPatch r now actorId existing request kind header base = .ok (e, db')) :
    EditEffect request.mentions db db' := by
  obtain ⟨_, -, h⟩ := bind_eq_ok.1 h
  obtain ⟨_, -, h⟩ := bind_eq_ok.1 h
  obtain ⟨_, -, h⟩ := bind_eq_ok.1 h
  exact applyAuthorizedPatch_effect hrow h

end

theorem lookup_of_lockTask (h : db.lockTask taskId = .ok t) : db.tasks.lookup t.id = some t := by
  have hrow := lockTask_eq_ok h
  rwa [key_of_lookup hrow]

theorem patchChannelTask_effect
    (h : db.patchChannelTask r now eventId actorId taskId request = .ok (e, db')) :
    EditEffect request.mentions db db' := by
  obtain ⟨_, -, h⟩ := bind_eq_ok.1 h
  obtain ⟨existing, hl, h⟩ := bind_eq_ok.1 h
  obtain ⟨_, -, h⟩ := bind_eq_ok.1 h
  exact applyChannelTaskPatch_effect (lookup_of_lockTask hl) h

theorem mentions_status (status : ChannelTaskStatus) :
    PatchChannelTaskRequest.mentions { status := some status } = (· = TaskField.status) := by
  funext f
  cases f <;> rfl

/-- What the append of an event comes to: the event with a diagnosis, or a patch of its card's
status, for the actor of the event or for the system. -/
inductive TaskDb.Appends (db : TaskDb) (r : Roster) (now : Timestamp) (actor : Option String)
    (task : Option GroupWorkflowTask) (kind : String) (e : GroupWorkflowEvent) (db' : TaskDb) :
    Prop where
  | diagnosed {header c tid payload reason statusEffect detail} (event : db.insertDiagnosticEvent
      header c tid payload reason statusEffect detail = .ok (e, db'))
  | patched {actorId existing status header base} (acts : actor = some actorId)
      (id : task.map (·.id) = some existing.id) (row : db.tasks.lookup existing.id = some existing)
      (patch : db.applyChannelTaskPatch r now actorId existing { status := some status } (some kind)
        header base = .ok (e, db'))
  | trusted {existing status header base} (acts : actor = none)
      (row : db.tasks.lookup existing.id = some existing)
      (patch : db.applyAuthorizedPatch r now existing { status := some status } header base
        = .ok (e, db'))

theorem applyWorkflowStatusUpdate_appends
    (h : db.applyWorkflowStatusUpdate r now task actorId header effect payload = .ok (e, db')) :
    db.Appends r now (some actorId) (some task) header.kind e db' := by
  cases effect with
  | update status =>
    obtain ⟨locked, hl, h⟩ := bind_eq_ok.1 h
    have hid := key_of_lookup (lockTask_eq_ok hl)
    split at h
    · exact .diagnosed h
    · exact .patched rfl (congrArg some hid.symm) (lookup_of_lockTask hl) h
  | knownNoop =>
    obtain ⟨locked, -, h⟩ := bind_eq_ok.1 h
    obtain ⟨_, -, h⟩ := bind_eq_ok.1 h
    split at h
    · exact .diagnosed h
    · cases h
    · exact .diagnosed h
  | unsupported => exact .diagnosed h

theorem applyTrustedWorkflowStatusUpdate_appends {kind : String}
    (h : db.applyTrustedWorkflowStatusUpdate r now task header effect payload = .ok (e, db')) :
    db.Appends r now none (some task) kind e db' := by
  unfold applyTrustedWorkflowStatusUpdate at h
  split_ifs at h
  · cases effect with
    | update status =>
      obtain ⟨locked, hl, h⟩ := bind_eq_ok.1 h
      exact .trusted rfl (lookup_of_lockTask hl) h
    | knownNoop =>
      obtain ⟨locked, -, h⟩ := bind_eq_ok.1 h
      exact .diagnosed h
    | unsupported => exact .diagnosed h
  · split at h <;> exact .diagnosed h

section

variable {appender : Appender} {req : AppendGroupWorkflowEventRequest}
  {task : Option GroupWorkflowTask}
  (h : db.appendWorkflowEvent r now eventId appender req task = .ok (e, db'))
include h

theorem appendWorkflowEvent_appends : db.Appends r now appender.actor task req.kind e db' := by
  unfold appendWorkflowEvent at h
  split at h
  · obtain ⟨_, -, h⟩ := bind_eq_ok.1 h
    exact applyWorkflowStatusUpdate_appends h
  · cases h
  · obtain ⟨_, -, h⟩ := bind_eq_ok.1 h
    split at h
    · exact applyWorkflowStatusUpdate_appends h
    · exact .diagnosed h
  · exact applyTrustedWorkflowStatusUpdate_appends h
  · exact .diagnosed h

theorem appendWorkflowEvent_effect : EditEffect (· = .status) db db' := by
  cases appendWorkflowEvent_appends h with
  | diagnosed event => exact insertDiagnosticEvent_effect event
  | @patched _ _ status _ _ _ _ row patch =>
    rw [← mentions_status status]
    exact applyChannelTaskPatch_effect row patch
  | @trusted _ status _ _ _ row patch =>
    rw [← mentions_status status]
    exact applyAuthorizedPatch_effect row patch

end

structure TaskDb.Adds (db db' : TaskDb) (t : GroupWorkflowTask) : Prop where
  tasks : db.tasks.insert? t = some db'.tasks
  events : db'.events = db.events
  participants : db'.participants = db.participants
  card : db.NewCard t

/-- What the insert of a card leaves: the card that was there, or a new one, as it was asked for. -/
inductive TaskDb.Inserts (db : TaskDb) (conversationId assigneeId : String) (creation : Creation)
    (db' : TaskDb) : Prop where
  | existing (created : creation.created = false) (same : db.SameBoard db')
  | inserted (t : GroupWorkflowTask) (created : creation.created)
      (id : t.id = creation.taskId) (version : t.version = 1)
      (conversation : t.conversationId = conversationId)
      (assignee : t.assigneePrincipalId = assigneeId) (adds : db.Adds db' t)

theorem TaskDb.Inserts.of_same (hs : db.SameBoard db') (h : db'.Inserts c a creation db'') :
    db.Inserts c a creation db'' := by
  cases h with
  | existing created same => exact .existing created (hs.trans same)
  | inserted t created id version conversation assignee adds =>
    exact .inserted t created id version conversation assignee ⟨hs.tasks ▸ adds.tasks,
      adds.events.trans hs.events, adds.participants.trans hs.participants,
      adds.card.of_tasks hs.tasks⟩

theorem insertTask_eq_some (h : db.insertTask t = some db') : db.Adds db' t := by
  unfold insertTask at h
  split_ifs at h with ht
  simp at ht
  obtain ⟨tasks, hi, rfl⟩ := map_eq_some_iff.1 h
  exact ⟨hi, rfl, rfl, ht.1.1, ht.1.2⟩

theorem advanceSequence_same (c : String) (first : ℕ) (bump : ℕ → ℕ) :
    db.SameBoard (db.advanceSequence c first bump).2 := by
  unfold advanceSequence
  split <;> exact ⟨⟨rfl, rfl⟩, rfl⟩

theorem allocateUnusedTaskKey_same : ∀ {attempts : ℕ} {db : TaskDb} {key : String},
    db.allocateUnusedTaskKey c attempts = .ok (key, db') → db.SameBoard db'
  | 0, db, key, h => by
    simp [allocateUnusedTaskKey, allocateTaskKeyAfterExistingMax] at h
    split_ifs at h
    cases h
    exact advanceSequence_same _ _ _
  | attempts + 1, db, key, h => by
    have hn : db.SameBoard (db.nextChannelTaskSequence c).2 := advanceSequence_same _ _ _
    simp [allocateUnusedTaskKey] at h
    split_ifs at h
    · exact hn.trans (allocateUnusedTaskKey_same h)
    · cases h
      exact hn

variable {request : CreateChannelTaskFromMessageRequest}

theorem insertFromMessage_inserts : ∀ {attempts : ℕ} {db : TaskDb} {creation : Creation},
      db.insertFromMessage now ids actorId c request attempts = .ok (creation, db') →
        db.Inserts c request.assigneePrincipalId creation db'
  | 0, db, creation, h => by cases h
  | attempts + 1, db, creation, h => by
    obtain ⟨⟨key, db1⟩, hk, h⟩ := bind_eq_ok.1 h
    refine .of_same (allocateUnusedTaskKey_same hk) ?_
    dsimp only at h
    split at h
    next hi =>
      cases h
      exact .inserted _ rfl rfl rfl rfl rfl (insertTask_eq_some hi)
    · split at h
      · cases h
        exact .existing rfl (.refl _)
      · split_ifs at h
        exact insertFromMessage_inserts h

theorem resolveTaskKey_same {key : String} {asked : Option String}
    (h : db.resolveTaskKey c asked = .ok (key, db')) : db.SameBoard db' := by
  cases asked with
  | some _ =>
    cases h
    exact .refl _
  | none => exact allocateUnusedTaskKey_same h

theorem insertFromAgent_inserts {hash : String} {req : CreateChannelTaskRequest} :
    ∀ {attempts : ℕ} {db : TaskDb} {creation : Creation},
      db.insertFromAgent now ids actorId c hash req attempts = .ok (creation, db') →
        db.Inserts c (req.assigneePrincipalId.getD actorId) creation db'
  | 0, db, creation, h => by cases h
  | attempts + 1, db, creation, h => by
    obtain ⟨⟨key, db1⟩, hk, h⟩ := bind_eq_ok.1 h
    refine .of_same (resolveTaskKey_same hk) ?_
    dsimp only at h
    split at h
    next hi =>
      cases h
      exact .inserted _ rfl rfl rfl rfl rfl (insertTask_eq_some hi)
    · split at h
      · cases h
      split at h
      · unfold idempotentAnswer at h
        split_ifs at h
        cases h
        exact .existing rfl (.refl _)
      · split_ifs at h
        exact insertFromAgent_inserts h

theorem finishCreation_effect {assigneeId : String} {new : Json} {creation' : Creation}
    (hi : db.Inserts c assigneeId creation db')
    (h : db'.finishCreation r c assigneeId header new creation = .ok (creation', db'')) :
    TaskEffect mentions db db'' := by
  unfold finishCreation at h
  cases hi with
  | existing created same =>
    rw [created] at h
    cases h
    exact .quiet same.toSameCards
  | inserted t created id version _ _ adds =>
    rw [created] at h
    obtain ⟨db1, hsy, h⟩ := bind_eq_ok.1 h
    obtain ⟨⟨e, db2⟩, hev, h⟩ := bind_eq_ok.1 h
    cases h
    obtain ⟨ht, hevs, -⟩ := insertWorkflowEvent_eq_ok hev
    have hs := syncOwnerParticipant_same hsy
    rw [hs.events, adds.events] at hevs
    rw [hs.tasks] at ht
    refine .created t _ (ht ▸ adds.tasks) version hevs (fun e he => ?_) adds.card (by simp)
    rw [mem_singleton.1 he, id]
    exact ⟨rfl, rfl⟩

theorem createChannelTaskFromMessage_effect
    (h : db.createChannelTaskFromMessage r now ids eventId actorId c request =
      .ok (creation, db')) : TaskEffect mentions db db' := by
  iterate 10 obtain ⟨_, -, h⟩ := bind_eq_ok.1 h
  split at h
  · cases h
    exact .quiet (.refl _)
  · obtain ⟨⟨creation1, db1⟩, hi, h⟩ := bind_eq_ok.1 h
    exact finishCreation_effect (insertFromMessage_inserts hi) h

theorem createChannelTask_effect {req : CreateChannelTaskRequest}
    (h : db.createChannelTask r prims now ids eventId actorId c req = .ok (creation, db')) :
    TaskEffect mentions db db' := by
  iterate 5 obtain ⟨_, -, h⟩ := bind_eq_ok.1 h
  split at h
  · unfold idempotentAnswer at h
    split_ifs at h
    cases h
    exact .quiet (.refl _)
  · obtain ⟨_, -, h⟩ := bind_eq_ok.1 h
    obtain ⟨⟨creation1, db1⟩, hi, h⟩ := bind_eq_ok.1 h
    exact finishCreation_effect (insertFromAgent_inserts hi) h

theorem createGroupWorkflowTask_effect {createdBy : String} {req : CreateGroupWorkflowTaskRequest}
    (h : db.createGroupWorkflowTask r now taskId createdBy c req = .ok db') :
    TaskEffect mentions db db' := by
  iterate 5 obtain ⟨_, -, h⟩ := bind_eq_ok.1 h
  dsimp only at h
  split at h
  · cases h
  rename_i db1 hi
  obtain ⟨db2, hr, hsy⟩ := bind_eq_ok.1 h
  have ha := insertTask_eq_some hi
  have hs := replaceThenSync_same hr hsy
  exact .created _ [] (hs.tasks ▸ ha.tasks) rfl
    (by rw [hs.events, ha.events, append_nil]) (by simp) ha.card (by simp)

theorem replaceGroupWorkflowTaskParticipants_same
    (h : db.replaceGroupWorkflowTaskParticipants r taskId ps = .ok db') : db.SameCards db' := by
  obtain ⟨task, -, h⟩ := bind_eq_ok.1 h
  obtain ⟨_, -, h⟩ := bind_eq_ok.1 h
  obtain ⟨db1, hr, hs⟩ := bind_eq_ok.1 h
  exact replaceThenSync_same hr hs

theorem addGroupWorkflowTaskParticipant_same
    (h : db.addGroupWorkflowTaskParticipant r taskId p = .ok db') : db.SameCards db' := by
  obtain ⟨task, -, h⟩ := bind_eq_ok.1 h
  obtain ⟨_, -, h⟩ := bind_eq_ok.1 h
  exact insertTaskParticipant_same h

theorem removeGroupWorkflowTaskParticipant_same {pid roleKey : String}
    (h : db.removeGroupWorkflowTaskParticipant taskId pid roleKey = .ok db') :
    db.SameCards db' := by
  iterate 3 obtain ⟨_, -, h⟩ := bind_eq_ok.1 h
  split_ifs at h
  cases h
  exact ⟨rfl, rfl⟩

theorem TaskTxn.exec_effect {txn : TaskTxn}
    (h : txn.exec prims r now db = .ok db') : TaskEffect txn.mentions db db' := by
  cases txn with
  | createFromMessage ids eventId actorId c request =>
    obtain ⟨⟨creation, _⟩, he, rfl⟩ := map_eq_ok.1 h
    exact createChannelTaskFromMessage_effect he
  | create ids eventId actorId c request =>
    obtain ⟨⟨creation, _⟩, he, rfl⟩ := map_eq_ok.1 h
    exact createChannelTask_effect he
  | createWorkflowTask taskId createdBy c request => exact createGroupWorkflowTask_effect h
  | patch eventId actorId taskId request =>
    obtain ⟨⟨e, _⟩, he, rfl⟩ := map_eq_ok.1 h
    exact .edited (patchChannelTask_effect he)
  | replaceParticipants taskId ps => exact .quiet (replaceGroupWorkflowTaskParticipants_same h)
  | addParticipant taskId p => exact .quiet (addGroupWorkflowTaskParticipant_same h)
  | removeParticipant taskId principalId roleKey =>
    exact .quiet (removeGroupWorkflowTaskParticipant_same h)

/-- A direct write replaces the row of its card, and stores no event. -/
theorem updateGroupWorkflowTask_eq_ok {req : UpdateGroupWorkflowTaskRequest}
    (h : db.updateGroupWorkflowTask r now taskId existing req = .ok db') :
    ∃ t, t.id = taskId ∧ db.Replaces db' t (req.apply now existing t) ∧ db'.events = db.events := by
  unfold updateGroupWorkflowTask at h
  split at h
  · cases h
  rename_i t hrow
  obtain ⟨db1, hr, hsy⟩ := bind_eq_ok.1 h
  obtain rfl := key_of_lookup hrow
  have hs1 : TaskDb.SameCards { db with
      tasks := db.tasks.updateWhere (·.id = t.id) (req.apply now existing) fun _ => rfl }
      db1 := by
    rcases hp : req.participants with _ | ps <;> rw [hp] at hr
    · cases hr
      exact .refl _
    · exact replaceNonOwnerParticipants_same hr
  have hs := hs1.trans (syncOwnerParticipant_same hsy)
  exact ⟨t, rfl, .of_updateWhere (f := req.apply now existing) (fun _ => rfl) hrow rfl
    hs.tasks, hs.events⟩

/-- What holds of the database as it is, and as a result leaves it, holds after the commit. -/
theorem TaskWorld.commit_rule {w : TaskWorld} {fault : Fault} (mentions : TaskField → Bool)
    {res : TaskResult TaskDb} {P : TaskDb → Prop} (hk : P w.db)
    (hok : ∀ db', res = .ok db' → P db') : P (w.commit fault mentions res).2.db := by
  unfold commit
  rcases ho : fault.outcome connectionClosed w.db (res.map fun db => ((), db)) with ⟨db', _⟩
  rcases Fault.outcome_cases ho with ⟨_, hr, -⟩ | ⟨rfl, -⟩
  · exact hok db' (map_pair_eq_ok hr)
  · exact hk

/-- The letters and digits of ASCII, and one hash for all values. -/
def asciiPrims : TaskPrims := ⟨Char.isAlphanum, fun _ => ""⟩

end Choruz
