import Choruz.TaskIdempotency
import Choruz.Proofs.ChannelTasks

/-!
# Unique cards

No write changes the keys of a card, its creator or its payload hash, and every write keeps the
unique indexes.  A card has one event of its first version at most, and only an agent's creation
gives it a payload hash.
-/

namespace Choruz

open Relational

variable {db db' : TaskDb} {r : Roster} {now : Timestamp}

variable {t : GroupWorkflowTask} {mentions : TaskField → Bool} {c : String}
  {request : CreateChannelTaskFromMessageRequest} {ids : ℕ → String}

/-- The columns no write changes. -/
def TaskField.isIdentity : TaskField → Bool
  | conversationId | taskKey | idempotencyKey | idempotencyPayloadHash | createdBy => true
  | _ => false

structure GroupWorkflowTask.Becomes (t t' : GroupWorkflowTask) : Prop where
  id : t'.id = t.id
  conversationId : t'.conversationId = t.conversationId
  taskKey : t'.taskKey = t.taskKey
  createdBy : t'.createdBy = t.createdBy
  idempotencyKey : t'.idempotencyKey = t.idempotencyKey
  payloadHash : t'.idempotencyPayloadHash = t.idempotencyPayloadHash
  version : t.version ≤ t'.version

namespace GroupWorkflowTask

variable {t t' u u' : GroupWorkflowTask}

theorem Becomes.refl (t : GroupWorkflowTask) : t.Becomes t := ⟨rfl, rfl, rfl, rfl, rfl, rfl, le_rfl⟩

theorem Becomes.sameCard (ht : t.Becomes t') (hu : u.Becomes u') : t'.sameCard u' = t.sameCard u := by
  simp [GroupWorkflowTask.sameCard, ht.conversationId, ht.taskKey, hu.conversationId, hu.taskKey]

theorem Becomes.sameRequest (ht : t.Becomes t') (hu : u.Becomes u') :
    t'.sameRequest u' = t.sameRequest u := by
  simp [GroupWorkflowTask.sameRequest, ht.conversationId, ht.createdBy, ht.idempotencyKey,
    hu.conversationId, hu.createdBy, hu.idempotencyKey]

theorem sameCard_comm : t.sameCard u = u.sameCard t := by
  simp [sameCard, eq_comm]

theorem sameRequest_comm : t.sameRequest u = u.sameRequest t := by
  simp [sameRequest, eq_comm]

/-- The partial index of the idempotency key covers the row. -/
structure Keyed (t : GroupWorkflowTask) : Prop where
  idempotencyKey : t.idempotencyKey.isSome
  createdBy : t.createdBy.isSome

theorem Keyed.of_sameRequest (h : t.Keyed) (hs : t.sameRequest u) : u.Keyed := by
  simp [sameRequest] at hs
  exact ⟨hs.2 ▸ h.idempotencyKey, hs.1.2 ▸ h.createdBy⟩

theorem Becomes.keyed (h : t.Becomes t') (hk : t'.Keyed) : t.Keyed :=
  ⟨h.idempotencyKey ▸ hk.idempotencyKey, h.createdBy ▸ hk.createdBy⟩

end GroupWorkflowTask

namespace TaskDb

variable {t t' u : GroupWorkflowTask}

theorem taskKeyTaken_eq (db : TaskDb) (t : GroupWorkflowTask) :
    db.taskKeyTaken t.conversationId t.taskKey = db.tasks.rows.any t.sameCard := rfl

theorem idempotencyTaken_eq (db : TaskDb) (t : GroupWorkflowTask) : db.idempotencyTaken t =
    (t.idempotencyKey.isSome && t.createdBy.isSome && db.tasks.rows.any t.sameRequest) := rfl

theorem newCard_iff : db.NewCard t ↔
    ∀ u ∈ db.tasks, t.sameCard u = false ∧ (t.Keyed → t.sameRequest u = false) := by
  constructor
  · rintro ⟨hkey, hr⟩ u hu
    rw [taskKeyTaken_eq, List.any_eq_false] at hkey
    refine ⟨eq_false_iff.2 (hkey u hu), fun hk => ?_⟩
    rw [idempotencyTaken_eq, hk.idempotencyKey, hk.createdBy, Bool.true_and,
      Bool.true_and, List.any_eq_false] at hr
    exact eq_false_iff.2 (hr u hu)
  · intro h
    refine ⟨List.any_eq_false.2 fun u hu => eq_false_iff.1 (h u hu).1, ?_⟩
    by_contra ht
    rw [Bool.not_eq_false, idempotencyTaken_eq] at ht
    simp at ht
    obtain ⟨⟨hkey, hb⟩, u, hu, hs⟩ := ht
    rw [(h u hu).2 ⟨hkey, hb⟩] at hs
    cases hs

/-- The unique indexes hold, and a card has at most one event of its first version. -/
structure UniqueCards (db : TaskDb) : Prop where
  version : ∀ t ∈ db.tasks, 1 ≤ t.version
  card : ∀ t ∈ db.tasks, ∀ u ∈ db.tasks, t.sameCard u → t = u
  request : ∀ t ∈ db.tasks, ∀ u ∈ db.tasks, t.Keyed → t.sameRequest u → t = u
  first : ∀ e ∈ db.events, e.resultingVersion = some 1 → ∃ t ∈ db.tasks, e.taskId = some t.id
  once : ∀ e ∈ db.events, ∀ e' ∈ db.events, e.resultingVersion = some 1 →
    e'.resultingVersion = some 1 → e.taskId = e'.taskId → e = e'

theorem uniqueCards_empty : ({} : TaskDb).UniqueCards := by
  constructor <;> intro _ h <;> exact absurd h (not_mem_empty _)

/-- Every card is as it was but for the columns that change, and no event of a first version is
new. -/
structure KeepsCards (db db' : TaskDb) : Prop where
  forth : ∀ t ∈ db.tasks, ∃ t' ∈ db'.tasks, t.Becomes t'
  back : ∀ t' ∈ db'.tasks, ∃ t ∈ db.tasks, t.Becomes t'
  events : ∀ e ∈ db'.events, e.resultingVersion = some 1 → e ∈ db.events

/-- What a write does to the cards and to the events of their first versions. -/
inductive CardEffect (db db' : TaskDb) : Prop where
  | kept (keeps : db.KeepsCards db')
  | created (t : GroupWorkflowTask) (es : List GroupWorkflowEvent)
      (tasks : db.tasks.insert? t = some db'.tasks) (version : t.version = 1)
      (events : db'.events.rows = db.events.rows ++ es)
      (first : ∀ e ∈ es, e.taskId = some t.id ∧ e.resultingVersion = some 1)
      (card : db.NewCard t) (one : ∀ e ∈ es, ∀ e' ∈ es, e = e')

theorem KeepsCards.of_tasks (hts : db'.tasks = db.tasks)
    (he : ∀ e ∈ db'.events, e.resultingVersion = some 1 → e ∈ db.events) : db.KeepsCards db' :=
  ⟨fun t ht => ⟨t, hts ▸ ht, .refl t⟩, fun t ht => ⟨t, hts ▸ ht, .refl t⟩, he⟩

theorem KeepsCards.of_same (h : db.SameCards db') : db.KeepsCards db' :=
  .of_tasks h.tasks fun _ he _ => h.events ▸ he

theorem CardEffect.exists_becomes (h : CardEffect db db') (ht : t ∈ db.tasks) :
    ∃ t' ∈ db'.tasks, t.Becomes t' := by
  cases h with
  | kept keeps => exact keeps.forth t ht
  | created u es tasks => exact ⟨t, (mem_insert? tasks).2 (.inl ht), .refl t⟩

theorem KeepsCards.of_replaces (hrep : db.Replaces db' t t') (hb : t.Becomes t')
    (he : ∀ e ∈ db'.events, e.resultingVersion = some 1 → e ∈ db.events) :
    db.KeepsCards db' := by
  refine ⟨fun u hu => ?_, fun u' hu' => ?_, he⟩
  · have hr := hrep.rows u.id
    split_ifs at hr with hid
    · obtain rfl := eq_of_key_eq hu (mem_of_lookup hrep.row) hid
      exact ⟨t', mem_of_lookup hr, hb⟩
    · exact ⟨u, mem_of_lookup (hr.trans (lookup_of_mem hu)), .refl u⟩
  · have hr := hrep.rows u'.id
    rw [lookup_of_mem hu'] at hr
    split_ifs at hr with hid
    · cases hr
      exact ⟨t, mem_of_lookup hrep.row, hb⟩
    · exact ⟨u', mem_of_lookup hr.symm, .refl u'⟩

theorem UniqueCards.of_effect (h : db.UniqueCards) (heff : CardEffect db db') :
    db'.UniqueCards := by
  cases heff with
  | kept keeps =>
    obtain ⟨forth, back, events⟩ := keeps
    constructor
    · intro t' ht'
      obtain ⟨t, ht, hb⟩ := back t' ht'
      exact (h.version t ht).trans hb.version
    · intro t' ht' u' hu' hs
      obtain ⟨t, ht, hb⟩ := back t' ht'
      obtain ⟨u, hu, hc⟩ := back u' hu'
      obtain rfl := h.card t ht u hu (by rwa [← hb.sameCard hc])
      exact eq_of_key_eq ht' hu' (hb.id.trans hc.id.symm)
    · intro t' ht' u' hu' hk hs
      obtain ⟨t, ht, hb⟩ := back t' ht'
      obtain ⟨u, hu, hc⟩ := back u' hu'
      obtain rfl := h.request t ht u hu (hb.keyed hk) (by rwa [← hb.sameRequest hc])
      exact eq_of_key_eq ht' hu' (hb.id.trans hc.id.symm)
    · intro e he hver
      obtain ⟨t, ht, hta⟩ := h.first e (events e he hver) hver
      obtain ⟨t', ht', hb⟩ := forth t ht
      exact ⟨t', ht', by rw [hta, hb.id]⟩
    · intro e he e' he' hv hv'
      exact h.once e (events e he hv) e' (events e' he' hv') hv hv'
  | created t es tasks version events first card one =>
    have hn := newCard_iff.1 card
    have hm : ∀ {u}, u ∈ db'.tasks ↔ u ∈ db.tasks ∨ u = t := mem_insert? tasks
    have hev : ∀ {e}, e ∈ db'.events ↔ e ∈ db.events ∨ e ∈ es := by
      intro e
      rw [mem_def, events, mem_append, ← mem_def]
    constructor
    · intro u hu
      rcases hm.1 hu with hu | rfl
      · exact h.version u hu
      · exact version.ge
    · intro u hu v hv hs
      rcases hm.1 hu with hu | rfl <;> rcases hm.1 hv with hv | rfl
      · exact h.card u hu v hv hs
      · rw [GroupWorkflowTask.sameCard_comm, (hn u hu).1] at hs
        cases hs
      · rw [(hn v hv).1] at hs
        cases hs
      · rfl
    · intro u hu v hv hk hs
      rcases hm.1 hu with hu | rfl <;> rcases hm.1 hv with hv | rfl
      · exact h.request u hu v hv hk hs
      · have hk' := hk.of_sameRequest hs
        rw [GroupWorkflowTask.sameRequest_comm, (hn u hu).2 hk'] at hs
        cases hs
      · rw [(hn v hv).2 hk] at hs
        cases hs
      · rfl
    · intro e he hver
      rcases hev.1 he with he | he
      · obtain ⟨u, hu, hta⟩ := h.first e he hver
        exact ⟨u, hm.2 (.inl hu), hta⟩
      · exact ⟨t, hm.2 (.inr rfl), (first e he).1⟩
    · have ho : ∀ e ∈ db.events, ∀ e' ∈ es, e.resultingVersion = some 1 → e.taskId ≠ e'.taskId := by
        intro e he e' he' hv heq
        obtain ⟨u, hu, hta⟩ := h.first e he hv
        rw [hta, (first e' he').1, Option.some.injEq] at heq
        exact not_mem_key_of_insert? tasks u hu heq
      intro e he e' he' hv hv' heq
      rcases hev.1 he with he | he <;> rcases hev.1 he' with he' | he'
      · exact h.once e he e' he' hv hv' heq
      · exact absurd heq (ho e he e' he' hv)
      · exact absurd heq.symm (ho e' he' e he hv')
      · exact one e he e' he'

end TaskDb

theorem GroupWorkflowTask.Becomes.of_get {t' : GroupWorkflowTask} (hid : t'.id = t.id)
    (hv : t'.version = t.version + 1) (hg : ∀ f, f.isIdentity → t'.get f = t.get f) :
    t.Becomes t' where
  id := hid
  conversationId := Option.some.inj (hg .conversationId rfl)
  taskKey := Option.some.inj (hg .taskKey rfl)
  createdBy := hg .createdBy rfl
  idempotencyKey := hg .idempotencyKey rfl
  payloadHash := hg .idempotencyPayloadHash rfl
  version := by omega

theorem EditEffect.keepsCards (hc : db.UniqueCards)
    (hm : ∀ f, f.isIdentity → mentions f = false) (h : EditEffect mentions db db') :
    db.KeepsCards db' := by
  cases h with
  | noted e tasks events version =>
    refine .of_tasks tasks fun e' he' hv => ?_
    rw [mem_def, events, mem_append, mem_singleton] at he'
    rcases he' with he' | rfl
    · exact he'
    · rw [version] at hv
      cases hv
  | patched t t' e replaces events task version tells kept =>
    refine .of_replaces replaces
      (.of_get replaces.id replaces.version fun f hf => kept f (hm f hf)) fun e' he' hv => ?_
    rw [mem_def, events, mem_append, mem_singleton] at he'
    rcases he' with he' | rfl
    · exact he'
    have hp := hc.version t (mem_of_lookup replaces.row)
    rw [version, replaces.version, Option.some.injEq] at hv
    omega

/-- What an agent's call has not created has no payload hash. -/
def TaskDb.Unhashed (db db' : TaskDb) : Prop :=
  ∀ t ∈ db'.tasks, t.idempotencyPayloadHash = none ∨ ∃ u ∈ db.tasks, u.Becomes t

theorem TaskDb.Unhashed.of_tasks (h : db'.tasks = db.tasks) : db.Unhashed db' :=
  fun t ht => .inr ⟨t, h ▸ ht, .refl t⟩

theorem TaskDb.Unhashed.of_insertTask {db'' : TaskDb} (h : db.insertTask t = some db')
    (hh : t.idempotencyPayloadHash = none) (ht : db''.tasks = db'.tasks) :
    db.Unhashed db'' := by
  intro u hu
  rw [ht] at hu
  rcases (mem_insert? (insertTask_eq_some h).tasks).1 hu with hu | rfl
  · exact .inr ⟨u, hu, .refl u⟩
  · exact .inl hh

theorem insertFromMessage_unhashed {actor : String} :
    ∀ {attempts : ℕ} {db : TaskDb} {creation : Creation},
      db.insertFromMessage now ids actor c request attempts = .ok (creation, db') → db.Unhashed db'
  | 0, db, creation, h => by cases h
  | attempts + 1, db, creation, h => by
    obtain ⟨⟨key, db1⟩, hk, h⟩ := bind_eq_ok.1 h
    have hs := allocateUnusedTaskKey_same hk
    suffices hr : db1.Unhashed db' by
      unfold TaskDb.Unhashed at hr ⊢
      rwa [hs.tasks] at hr
    dsimp only at h
    split at h
    next hi =>
      cases h
      exact .of_insertTask hi rfl rfl
    · split at h
      · cases h
        exact .of_tasks rfl
      · split_ifs at h
        exact insertFromMessage_unhashed h

theorem finishCreation_tasks {assigneeId : String} {header : EventHeader} {new : Json}
    {creation creation' : Creation}
    (h : db.finishCreation r c assigneeId header new creation = .ok (creation', db')) :
    db'.tasks = db.tasks := by
  unfold TaskDb.finishCreation at h
  split_ifs at h
  · obtain ⟨db1, hs, h⟩ := bind_eq_ok.1 h
    obtain ⟨⟨e, db2⟩, he, h⟩ := bind_eq_ok.1 h
    cases h
    exact (insertWorkflowEvent_eq_ok he).1.trans (syncOwnerParticipant_same hs).tasks
  · cases h
    rfl

theorem createChannelTaskFromMessage_unhashed {eid actor : String}
    {creation : Creation} (h : db.createChannelTaskFromMessage r now ids eid actor c request =
      .ok (creation, db')) : db.Unhashed db' := by
  iterate 10 obtain ⟨_, -, h⟩ := bind_eq_ok.1 h
  split at h
  · cases h
    exact .of_tasks rfl
  · obtain ⟨⟨creation1, db1⟩, hi, h⟩ := bind_eq_ok.1 h
    have hh := insertFromMessage_unhashed hi
    unfold TaskDb.Unhashed at hh ⊢
    rwa [finishCreation_tasks h]

theorem createGroupWorkflowTask_unhashed {tid createdBy : String}
    {req : CreateGroupWorkflowTaskRequest}
    (h : db.createGroupWorkflowTask r now tid createdBy c req = .ok db') :
    db.Unhashed db' := by
  iterate 5 obtain ⟨_, -, h⟩ := bind_eq_ok.1 h
  dsimp only at h
  split at h
  · cases h
  rename_i db1 hi
  obtain ⟨db2, hr, hs⟩ := bind_eq_ok.1 h
  exact .of_insertTask hi rfl (replaceThenSync_same hr hs).tasks

/-- What a transaction that is no agent's creation does to the cards. -/
structure TaskDb.OtherEffect (db db' : TaskDb) : Prop where
  cards : CardEffect db db'
  unhashed : db.Unhashed db'

theorem TaskDb.KeepsCards.otherEffect (h : db.KeepsCards db') : db.OtherEffect db' :=
  ⟨.kept h, fun t ht => .inr (h.back t ht)⟩

theorem TaskDb.OtherEffect.of_same (h : db.SameCards db') : db.OtherEffect db' :=
  (KeepsCards.of_same h).otherEffect

theorem TaskEffect.otherEffect (hc : db.UniqueCards)
    (hm : ∀ f, f.isIdentity → mentions f = false) (hh : db.Unhashed db')
    (h : TaskEffect mentions db db') : db.OtherEffect db' := by
  cases h with
  | quiet same => exact .of_same same
  | edited edit => exact (edit.keepsCards hc hm).otherEffect
  | created t es tasks version events first card one =>
    exact ⟨.created t es tasks version events first card one, hh⟩

theorem PatchChannelTaskRequest.mentions_identity (req : PatchChannelTaskRequest)
    {f : TaskField} (hf : f.isIdentity) : req.mentions f = false := by
  cases f <;> first | rfl | cases hf

theorem TaskTxn.exec_otherEffect {prims : TaskPrims} {txn : TaskTxn} (hc : db.UniqueCards)
    (hcr : txn.isCreate = false) (h : txn.exec prims r now db = .ok db') :
    db.OtherEffect db' := by
  have heff := TaskTxn.exec_effect h
  cases txn with
  | createFromMessage ids eventId actorId c request =>
    obtain ⟨⟨creation, _⟩, he, rfl⟩ := map_eq_ok.1 h
    exact heff.otherEffect hc (fun _ _ => rfl) (createChannelTaskFromMessage_unhashed he)
  | create => cases hcr
  | createWorkflowTask taskId createdBy c request =>
    exact heff.otherEffect hc (fun _ _ => rfl) (createGroupWorkflowTask_unhashed h)
  | patch eventId actorId taskId request =>
    obtain ⟨⟨e, _⟩, he, rfl⟩ := map_eq_ok.1 h
    exact ((patchChannelTask_effect he).keepsCards hc
      fun _ => request.mentions_identity).otherEffect
  | replaceParticipants taskId ps =>
    exact .of_same (replaceGroupWorkflowTaskParticipants_same h)
  | addParticipant taskId p => exact .of_same (addGroupWorkflowTaskParticipant_same h)
  | removeParticipant taskId principalId roleKey =>
    exact .of_same (removeGroupWorkflowTaskParticipant_same h)

theorem updateGroupWorkflowTask_otherEffect {tid : String} {old : GroupWorkflowTask}
    {req : UpdateGroupWorkflowTaskRequest}
    (h : db.updateGroupWorkflowTask r now tid old req = .ok db') :
    db.OtherEffect db' := by
  obtain ⟨t, -, hr, hevs⟩ := updateGroupWorkflowTask_eq_ok h
  have hb : t.Becomes (req.apply now old t) :=
    .of_get rfl rfl fun f hf => by cases f <;> first | rfl | cases hf
  exact (TaskDb.KeepsCards.of_replaces hr hb fun e he _ => hevs ▸ he).otherEffect

theorem TaskRequest.write_otherEffect {eid : String} {req : TaskRequest}
    {task : Option GroupWorkflowTask} (hc : db.UniqueCards)
    (h : req.write r now eid db task = .ok db') : db.OtherEffect db' := by
  cases req with
  | update taskId req =>
    cases task with
    | none => cases h
    | some existing => exact updateGroupWorkflowTask_otherEffect h
  | append appender req =>
    obtain ⟨⟨e, _⟩, ha, rfl⟩ := map_eq_ok.1 h
    refine ((appendWorkflowEvent_effect ha).keepsCards hc fun f hf => ?_).otherEffect
    cases f <;> first | rfl | cases hf

end Choruz
