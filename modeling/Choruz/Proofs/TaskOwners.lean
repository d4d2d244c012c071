import Choruz.Proofs.ChannelTasks

/-!
# The owner of a card is its assignee

Every transaction that writes the row of a card ends by deleting the card's owner rows and inserting
the one of the assignee it wrote; no other statement touches an owner row.  So the two tables agree
after every transaction, whatever else ran in between.
-/

namespace Choruz

open Relational TaskWorld GroupWorkflowTask

variable {db db' db'' : TaskDb} {r : Roster} {now : Timestamp}

variable {ps : List WorkflowTaskParticipantInput} {taskId c t a actorId eventId : String}
  {shown : Prop} {db1 : TaskDb} {e e' : GroupWorkflowEvent} {existing task : GroupWorkflowTask}
  {request : PatchChannelTaskRequest} {header : EventHeader} {payload : Json}
  {effect : WorkflowStatusEffect} {creation : Creation} {call : TaskCall} {fault : Fault}
  {ids : ℕ → String} {base : Json}

def ownerRow (taskId assigneeId : String) : GroupWorkflowTaskParticipant :=
  ⟨taskId, assigneeId, "owner", none, true⟩

theorem owners_map_of_forall {f : GroupWorkflowTaskParticipant → GroupWorkflowTaskParticipant}
    {ps : List GroupWorkflowTaskParticipant} (ho : ∀ q, q.roleKey = "owner" → f q = q)
    (hoth : ∀ q, q.roleKey ≠ "owner" → (f q).roleKey ≠ "owner") :
    (ps.map f).filter (fun q => q.taskId = taskId && q.roleKey = "owner") =
      ps.filter fun q => q.taskId = taskId && q.roleKey = "owner" := by
  induction ps with
  | nil => rfl
  | cons q ps ih =>
    rw [map_cons, List.filter_cons, List.filter_cons, ih]
    by_cases hq : q.roleKey = "owner"
    · rw [ho q hq]
    · simp [hq, hoth q hq]

theorem insertTaskParticipant_owners {p : WorkflowTaskParticipantInput}
    (h : db.insertTaskParticipant r c t p false = .ok db') : db'.owners = db.owners := by
  obtain ⟨_, -, h⟩ := bind_eq_ok.1 h
  obtain ⟨_, -, h⟩ := bind_eq_ok.1 h
  split_ifs at h with hr
  cases h
  have hne : p.roleKey ≠ "owner" := by simpa using hr
  funext tid
  simp [TaskDb.owners]
  split_ifs
  · refine owners_map_of_forall (fun q hq => if_neg ?_) fun q hq => ?_
    · simp [hq, hne.symm]
    · split_ifs <;> assumption
  · simp [hne]

theorem replaceNonOwnerParticipants_owners (h : db.replaceNonOwnerParticipants r c t ps = .ok db') :
    db'.owners = db.owners := by
  have hd : TaskDb.owners { db with participants := db.participants.filter fun q =>
      !(q.taskId = t && q.roleKey ≠ "owner") } = db.owners := by
    funext tid
    simp [TaskDb.owners]
    refine List.filter_congr fun q _ => ?_
    by_cases hq : q.roleKey = "owner" <;> simp [hq]
  suffices hf : ∀ db1 : TaskDb, ps.foldlM
      (fun db p => db.insertTaskParticipant r c t p false) db1 = .ok db' →
        db'.owners = db1.owners from (hf _ h).trans hd
  clear h hd
  induction ps with
  | nil =>
    rintro db1 ⟨⟩
    rfl
  | cons p ps ih =>
    intro db1 h
    obtain ⟨db2, hp, h⟩ := bind_eq_ok.1 h
    exact (ih db2 h).trans (insertTaskParticipant_owners hp)

/-- The cards stay, the owner row of one of them is that of `assigneeId`, and the other owner rows
stay. -/
structure TaskDb.Synced (r : Roster) (db db' : TaskDb) (conversationId taskId assigneeId : String) :
    Prop where
  tasks : db'.tasks = db.tasks
  owners : ∀ k, db'.owners k = if k = taskId then [ownerRow taskId assigneeId] else db.owners k
  member : (r.workspaceMember? conversationId assigneeId).isSome

theorem syncOwnerParticipant_synced (h : db.syncOwnerParticipant r c t a = .ok db') :
    db.Synced r db' c t a := by
  have hts := (syncOwnerParticipant_same h).tasks
  obtain ⟨_, -, h⟩ := bind_eq_ok.1 h
  obtain ⟨_, -, h⟩ := bind_eq_ok.1 h
  split_ifs at h with _ hm
  cases h
  refine ⟨hts, fun k => ?_, by
    rwa [isNone_iff_eq_none, ← ne_eq, ← Option.isSome_iff_ne_none] at hm⟩
  have hf : ((db.participants.filter fun q => !(q.taskId = t && q.roleKey = "owner")).any
      fun q => q.taskId = t && q.principalId = a && q.roleKey = "owner") = false := by
    rw [List.any_eq_false]
    intro q hq
    revert hq
    by_cases ht : q.taskId = t <;> by_cases ho : q.roleKey = "owner" <;> simp [ht, ho]
  simp only [TaskDb.owners, hf, Bool.false_eq_true, if_false, filter_append, List.filter_filter]
  by_cases hk : k = t
  · subst hk
    simp [ownerRow]
  · have hoth : (db.participants.filter fun q => (q.taskId = k && q.roleKey = "owner")
        && !(q.taskId = t && q.roleKey = "owner")) =
        db.participants.filter fun q => q.taskId = k && q.roleKey = "owner" := by
      refine List.filter_congr fun q _ => ?_
      by_cases ht : q.taskId = k
      · simp [ht, hk]
      · simp [ht]
    rw [if_neg hk, hoth]
    simp [Ne.symm hk]

theorem exists_of_workspaceMember? (h : (r.workspaceMember? c a).isSome) :
    (∃ m ∈ r.members, m.convId = c ∧ m.principalId = a ∧ m.removedAt = none)
      ∧ ∃ p ∈ r.principals, p.id = a ∧ p.disabled = false ∧ p.deletedAt = none := by
  obtain ⟨⟨p, conv⟩, hs⟩ := isSome_iff_exists.1 h
  have hmem := (filter_eq_some_iff.1 hs).1
  unfold Roster.member? at hmem
  split at hmem
  next p' c' hp hc =>
    split_ifs at hmem with ha
    have hpid : p'.id = a := by simpa using find?_some hp
    have hcid : c'.id = c := by simpa using find?_some hc
    simp [hpid, hcid] at ha
    obtain ⟨⟨⟨m, hm, ⟨hco, hpr⟩, hr⟩, hdi⟩, hd⟩ := ha
    exact ⟨⟨m, hm, hco, hpr, hr⟩, p', mem_of_find?_eq_some hp, hpid, hdi, hd⟩
  next => cases hmem

theorem assignable_of_workspaceMember? (h : (r.workspaceMember? c a).isSome)
    (hs : r.isInternalAgent a = false) : r.Assignable c a :=
  ⟨(exists_of_workspaceMember? h).1, (exists_of_workspaceMember? h).2, hs⟩

theorem find?_of_member? {p : Principal} {conv : Conversation}
    (h : r.member? c a = some (p, conv)) : r.principals.find? (·.id = a) = some p := by
  unfold Roster.member? at h
  split at h
  next p' c' hp hc =>
    split_ifs at h
    cases h
    exact hp
  next => cases h

theorem validateVisibleAssignee_ok {allowHuman : Bool}
    (h : r.validateVisibleAssignee c a allowHuman = .ok ()) : r.isInternalAgent a = false := by
  obtain ⟨_, -, h⟩ := bind_eq_ok.1 h
  split at h
  next => cases h
  next p conv hv =>
    obtain ⟨hw, hv⟩ := filter_eq_some_iff.1 hv
    have hf := find?_of_member? (filter_eq_some_iff.1 hw).1
    rw [Roster.isInternalAgent, hf]
    simpa [imp_iff_not_or] using hv

/-- What a transaction does to the cards and their owner rows: nothing, or it writes one card, gives
it the owner row of its assignee, and takes an assignee other than the one before only where
`shown` excludes an internal agent. -/
inductive OwnerEffect (r : Roster) (shown : Prop) (db db' : TaskDb) : Prop where
  | kept (tasks : db'.tasks = db.tasks) (owners : db'.owners = db.owners)
  | synced (t : GroupWorkflowTask)
      (rows : ∀ k, db'.tasks.lookup k = if k = t.id then some t else db.tasks.lookup k)
      (owners : ∀ k, db'.owners k =
        if k = t.id then [ownerRow t.id t.assigneePrincipalId] else db.owners k)
      (conversation : ∀ u ∈ db.tasks.lookup t.id, u.conversationId = t.conversationId)
      (assigned : shown →
        (db.tasks.lookup t.id).map (·.assigneePrincipalId) ≠ some t.assigneePrincipalId →
          r.Assignable t.conversationId t.assigneePrincipalId)

theorem OwnerEffect.mono {shown' : Prop} (h : OwnerEffect r shown db db') (hi : shown' → shown) :
    OwnerEffect r shown' db db' := by
  cases h with
  | kept tasks owners => exact .kept tasks owners
  | synced t rows owners conversation assigned =>
    exact .synced t rows owners conversation (assigned ∘ hi)

theorem TaskDb.Synced.ownerEffect {t t' : GroupWorkflowTask}
    (hsy : db1.Synced r db' c t.id t'.assigneePrincipalId) (hr : db.Replaces db1 t t')
    (ho : db1.owners = db.owners) (hco : t'.conversationId = t.conversationId)
    (hc : c = t.conversationId) (hsh : shown → t'.assigneePrincipalId = t.assigneePrincipalId ∨
      r.isInternalAgent t'.assigneePrincipalId = false) : OwnerEffect r shown db db' := by
  refine .synced t' (fun k => ?_) (fun k => ?_) (fun u hu => ?_) fun hs hne => ?_
  · rw [hsy.tasks, hr.rows, hr.id]
  · rw [hsy.owners, ho, hr.id]
  · rw [hr.id, hr.row] at hu
    cases hu
    exact hco.symm
  · rcases hsh hs with heq | hv
    · refine absurd ?_ hne
      rw [hr.id, hr.row, heq]
      rfl
    · rw [hco, ← hc]
      exact assignable_of_workspaceMember? hsy.member hv

theorem insertWorkflowEvent_owners (h : db.insertWorkflowEvent e = .ok (e', db')) :
    db'.owners = db.owners := by
  rw [insertWorkflowEvent_rest h]
  rfl

theorem TaskDb.Synced.insertWorkflowEvent (hs : db.Synced r db1 c t a)
    (h : db1.insertWorkflowEvent e = .ok (e', db')) : db.Synced r db' c t a where
  tasks := (insertWorkflowEvent_eq_ok h).1.trans hs.tasks
  owners k := by rw [insertWorkflowEvent_owners h, hs.owners]
  member := hs.member

theorem applyAuthorizedPatch_owners (hr : db.tasks.lookup existing.id = some existing)
    (hasg : shown → ∀ a ∈ request.assigneePrincipalId, r.isInternalAgent a = false)
    (h : db.applyAuthorizedPatch r now existing request header base = .ok (e, db')) :
    OwnerEffect r shown db db' := by
  obtain ⟨db1, hsy, h⟩ := bind_eq_ok.1 h
  have hsn : TaskDb.Synced r _ db' existing.conversationId existing.id
      (existing.setVisible now (request.apply existing.visible)).assigneePrincipalId :=
    (syncOwnerParticipant_synced hsy).insertWorkflowEvent h
  refine hsn.ownerEffect (.of_updateWhere
    (f := (·.setVisible now (request.apply existing.visible))) (fun _ => rfl) hr rfl rfl)
    rfl rfl rfl fun hs => ?_
  rcases ha : request.assigneePrincipalId with _ | a
  · left
    simp [setVisible, PatchChannelTaskRequest.apply, ha, visible]
  · right
    simpa [setVisible, PatchChannelTaskRequest.apply, ha] using hasg hs a ha

theorem applyChannelTaskPatch_owners {kind : Option String}
    (hr : db.tasks.lookup existing.id = some existing)
    (h : db.applyChannelTaskPatch r now actorId existing request kind header base = .ok (e, db')) :
    OwnerEffect r True db db' := by
  obtain ⟨_, -, h⟩ := bind_eq_ok.1 h
  obtain ⟨_, -, h⟩ := bind_eq_ok.1 h
  obtain ⟨_, hv, h⟩ := bind_eq_ok.1 h
  refine applyAuthorizedPatch_owners hr (fun _ a ha => ?_) h
  rw [Option.mem_def.1 ha] at hv
  exact validateVisibleAssignee_ok hv

theorem patchChannelTask_owners
    (h : db.patchChannelTask r now eventId actorId taskId request = .ok (e, db')) :
    OwnerEffect r True db db' := by
  obtain ⟨_, -, h⟩ := bind_eq_ok.1 h
  obtain ⟨existing, hl, h⟩ := bind_eq_ok.1 h
  obtain ⟨_, -, h⟩ := bind_eq_ok.1 h
  exact applyChannelTaskPatch_owners (lookup_of_lockTask hl) h

theorem insertDiagnosticEvent_owners {tid : Option String} {reason : String}
    {statusEffect detail : Option String}
    (h : db.insertDiagnosticEvent header c tid payload reason statusEffect detail =
      .ok (e, db')) : OwnerEffect r shown db db' :=
  .kept (insertWorkflowEvent_eq_ok h).1 (insertWorkflowEvent_owners h)

theorem appendWorkflowEvent_owners {appender : Appender}
    {req : AppendGroupWorkflowEventRequest} {task : Option GroupWorkflowTask}
    (h : db.appendWorkflowEvent r now eventId appender req task = .ok (e, db')) :
    OwnerEffect r True db db' := by
  cases appendWorkflowEvent_appends h with
  | diagnosed event => exact insertDiagnosticEvent_owners event
  | patched _ _ row patch => exact applyChannelTaskPatch_owners row patch
  | trusted _ row patch => exact applyAuthorizedPatch_owners row (fun _ a ha => by cases ha) patch

theorem TaskDb.Synced.ownerEffect_of_adds {db2 : TaskDb} {t : GroupWorkflowTask}
    (hsy : db2.Synced r db' t.conversationId t.id t.assigneePrincipalId)
    (ha : db.Adds db1 t) (ht : db2.tasks = db1.tasks) (ho : db2.owners = db1.owners)
    (hsh : shown → r.isInternalAgent t.assigneePrincipalId = false) :
    OwnerEffect r shown db db' := by
  have hb : db1.owners = db.owners := by
    funext k
    rw [TaskDb.owners, ha.participants, TaskDb.owners]
  refine .synced t (fun k => ?_) (fun k => ?_) (fun u hu => ?_) fun hs _ => ?_
  · rw [hsy.tasks, ht, lookup_insert? ha.tasks]
    simp [eq_comm]
  · rw [hsy.owners, ho, hb]
  · exact absurd (key_of_lookup hu) fun hid =>
      not_mem_key_of_insert? ha.tasks _ (mem_of_lookup hu) hid
  · exact assignable_of_workspaceMember? hsy.member (hsh hs)

theorem finishCreation_owners {assigneeId : String} {new : Json} {creation' : Creation}
    (hi : db.Inserts c assigneeId creation db') (hv : r.isInternalAgent assigneeId = false)
    (h : db'.finishCreation r c assigneeId header new creation = .ok (creation', db'')) :
    OwnerEffect r True db db'' := by
  unfold TaskDb.finishCreation at h
  cases hi with
  | existing created same =>
    rw [created] at h
    cases h
    refine .kept same.tasks ?_
    funext k
    rw [TaskDb.owners, same.participants, TaskDb.owners]
  | inserted t created id version conversation assignee adds =>
    rw [created] at h
    obtain ⟨db1, hs, h⟩ := bind_eq_ok.1 h
    obtain ⟨⟨e, db2⟩, he, h⟩ := bind_eq_ok.1 h
    cases h
    subst conversation assignee
    rw [← id] at hs
    exact ((syncOwnerParticipant_synced hs).insertWorkflowEvent he).ownerEffect_of_adds adds
      rfl rfl fun _ => hv

theorem createChannelTaskFromMessage_owners {req : CreateChannelTaskFromMessageRequest}
    (h : db.createChannelTaskFromMessage r now ids eventId actorId c req =
      .ok (creation, db')) : OwnerEffect r True db db' := by
  iterate 8 obtain ⟨_, -, h⟩ := bind_eq_ok.1 h
  obtain ⟨_, hv, h⟩ := bind_eq_ok.1 h
  obtain ⟨_, -, h⟩ := bind_eq_ok.1 h
  split at h
  · cases h
    exact .kept rfl rfl
  · obtain ⟨⟨creation1, db1⟩, hi, h⟩ := bind_eq_ok.1 h
    exact finishCreation_owners (insertFromMessage_inserts hi) (validateVisibleAssignee_ok hv) h

theorem createChannelTask_owners {prims : TaskPrims} {req : CreateChannelTaskRequest}
    (h : db.createChannelTask r prims now ids eventId actorId c req = .ok (creation, db')) :
    OwnerEffect r True db db' := by
  iterate 5 obtain ⟨_, -, h⟩ := bind_eq_ok.1 h
  split at h
  · unfold idempotentAnswer at h
    split_ifs at h
    cases h
    exact .kept rfl rfl
  · obtain ⟨_, hv, h⟩ := bind_eq_ok.1 h
    obtain ⟨⟨creation1, db1⟩, hi, h⟩ := bind_eq_ok.1 h
    exact finishCreation_owners (insertFromAgent_inserts hi) (validateVisibleAssignee_ok hv) h

theorem createGroupWorkflowTask_owners {createdBy : String} {req : CreateGroupWorkflowTaskRequest}
    (h : db.createGroupWorkflowTask r now taskId createdBy c req = .ok db') :
    OwnerEffect r (r.isInternalAgent req.assigneePrincipalId = false) db db' := by
  iterate 5 obtain ⟨_, -, h⟩ := bind_eq_ok.1 h
  dsimp only at h
  split at h
  · cases h
  rename_i db1 hi
  obtain ⟨db2, hr, hs⟩ := bind_eq_ok.1 h
  exact (syncOwnerParticipant_synced hs).ownerEffect_of_adds (insertTask_eq_some hi)
    (replaceNonOwnerParticipants_same hr).tasks (replaceNonOwnerParticipants_owners hr) id

theorem updateGroupWorkflowTask_owners {req : UpdateGroupWorkflowTaskRequest}
    (hc : ∀ t ∈ db.tasks.lookup taskId, t.conversationId = existing.conversationId)
    (h : db.updateGroupWorkflowTask r now taskId existing req = .ok db') :
    OwnerEffect r (r.isInternalAgent
      (req.assigneePrincipalId.getD existing.assigneePrincipalId) = false) db db' := by
  unfold TaskDb.updateGroupWorkflowTask at h
  split at h
  next => cases h
  next t hrow =>
    obtain ⟨db1, hr, hs⟩ := bind_eq_ok.1 h
    have hk := key_of_lookup hrow
    subst hk
    have hrep : db.Replaces db1 t (req.apply now existing t) ∧ db1.owners = db.owners := by
      rcases hp : req.participants with _ | ps <;> rw [hp] at hr
      · cases hr
        exact ⟨.of_updateWhere (f := req.apply now existing) (fun _ => rfl) hrow rfl rfl, rfl⟩
      · rw [Option.elim_some] at hr
        have ho := replaceNonOwnerParticipants_owners hr
        exact ⟨.of_updateWhere (f := req.apply now existing) (fun _ => rfl) hrow rfl
          (replaceNonOwnerParticipants_same hr).tasks, ho⟩
    have hsy : TaskDb.Synced r db1 db' existing.conversationId t.id
        (req.apply now existing t).assigneePrincipalId := syncOwnerParticipant_synced hs
    exact hsy.ownerEffect hrep.1 hrep.2 rfl (hc t hrow).symm .inr

theorem replaceThenSync_owners (hrow : db.tasks.lookup taskId = some task)
    (hr : db.replaceNonOwnerParticipants r task.conversationId taskId ps = .ok db1)
    (hsy : db1.syncOwnerParticipant r task.conversationId taskId task.assigneePrincipalId =
      .ok db') : OwnerEffect r shown db db' := by
  have hkey := key_of_lookup hrow
  subst hkey
  have hs := syncOwnerParticipant_synced hsy
  have ht := hs.tasks.trans (replaceNonOwnerParticipants_same hr).tasks
  refine .synced task (fun k => ?_) (fun k => ?_) (fun u hu => ?_) fun _ hne => ?_
  · rw [ht]
    split_ifs with hk
    · rw [hk, hrow]
    · rfl
  · rw [hs.owners, replaceNonOwnerParticipants_owners hr]
  · cases hrow.symm.trans hu
    rfl
  · rw [hrow] at hne
    exact absurd rfl hne

theorem removeGroupWorkflowTaskParticipant_owners {pid roleKey : String}
    (h : db.removeGroupWorkflowTaskParticipant taskId pid roleKey = .ok db') :
    db'.tasks = db.tasks ∧ db'.owners = db.owners := by
  iterate 3 obtain ⟨_, -, h⟩ := bind_eq_ok.1 h
  split_ifs at h with hr
  cases h
  refine ⟨rfl, funext fun k => ?_⟩
  simp [TaskDb.owners]
  refine List.filter_congr fun q _ => ?_
  by_cases hq : q.roleKey = "owner" <;> simp [hq, Ne.symm hr]

theorem TaskTxn.exec_owners {prims : TaskPrims} {txn : TaskTxn} {w : TaskWorld}
    (h : txn.exec prims r now db = .ok db') :
    OwnerEffect r (w.assigneeShown (.transact r now txn fault)) db db' := by
  cases txn with
  | createFromMessage ids eventId actorId c request =>
    obtain ⟨⟨creation, _⟩, he, rfl⟩ := map_eq_ok.1 h
    exact (createChannelTaskFromMessage_owners he).mono fun _ => trivial
  | create ids eventId actorId c request =>
    obtain ⟨⟨creation, _⟩, he, rfl⟩ := map_eq_ok.1 h
    exact (createChannelTask_owners he).mono fun _ => trivial
  | createWorkflowTask taskId createdBy c request =>
    exact (createGroupWorkflowTask_owners h).mono fun hsh => by
      simpa [assigneeShown] using hsh
  | patch eventId actorId taskId request =>
    obtain ⟨⟨e, _⟩, he, rfl⟩ := map_eq_ok.1 h
    exact (patchChannelTask_owners he).mono fun _ => trivial
  | replaceParticipants taskId ps =>
    obtain ⟨task, hl, h⟩ := bind_eq_ok.1 h
    obtain ⟨_, -, h⟩ := bind_eq_ok.1 h
    obtain ⟨db1, hr, hs⟩ := bind_eq_ok.1 h
    exact replaceThenSync_owners (lockTask_eq_ok hl) hr hs
  | addParticipant taskId p =>
    obtain ⟨task, -, h⟩ := bind_eq_ok.1 h
    obtain ⟨_, -, h⟩ := bind_eq_ok.1 h
    exact .kept (insertTaskParticipant_same h).tasks (insertTaskParticipant_owners h)
  | removeParticipant taskId principalId roleKey =>
    obtain ⟨ht, ho⟩ := removeGroupWorkflowTaskParticipant_owners h
    exact .kept ht ho

theorem OwnerEffect.ownersMatch (h : OwnerEffect r shown db db') (hm : db.OwnersMatch) :
    db'.OwnersMatch := by
  intro t ht
  cases h with
  | kept tasks owners =>
    rw [tasks] at ht
    rw [owners]
    exact hm t ht
  | synced u rows owners conversation assigned =>
    have hr := rows t.id
    rw [lookup_of_mem ht] at hr
    rw [owners]
    split_ifs at hr ⊢ with hid
    · cases hr
      exact ⟨_, rfl, rfl⟩
    · exact hm t (mem_of_lookup hr.symm)

theorem OwnerEffect.assignsValid (h : OwnerEffect r shown db db') (hs : shown) :
    db.AssignsValid r db' := by
  intro t ht hne
  have hr := lookup_of_mem ht
  cases h with
  | kept tasks owners =>
    rw [tasks] at hr
    rw [hr] at hne
    exact absurd rfl hne
  | synced u rows owners conversation assigned =>
    rw [rows] at hr
    split_ifs at hr with hid
    · cases hr
      exact assigned hs hne
    · rw [hr] at hne
      exact absurd rfl hne

/-- The row an update read is a row of the card it writes, in the same conversation. -/
def TaskCall.ReadsCard (db : TaskDb) (call : TaskCall) : Prop :=
  ∀ taskId request existing, call.request = .update taskId request →
    call.stage = .writing (some existing) →
      ∃ t, db.tasks.lookup taskId = some t ∧ t.conversationId = existing.conversationId

theorem TaskCall.ReadsCard.of_effect (h : call.ReadsCard db)
    (he : OwnerEffect r shown db db') : call.ReadsCard db' := by
  intro taskId request existing hreq hst
  obtain ⟨t, hr, hc⟩ := h taskId request existing hreq hst
  cases he with
  | kept tasks owners => exact ⟨t, by rw [tasks, hr], hc⟩
  | synced u rows owners conversation assigned =>
    rw [rows]
    split_ifs with hk
    · rw [hk] at hr
      exact ⟨u, rfl, (conversation t hr).symm.trans hc⟩
    · exact ⟨t, hr, hc⟩

theorem TaskRequest.readsCard_of_read {req : TaskRequest} {task : Option GroupWorkflowTask}
    (h : req.read r db = .ok task) : TaskCall.ReadsCard db ⟨req, .writing task⟩ := by
  rintro taskId update existing rfl hst
  cases hst
  obtain ⟨row, hr, hrow⟩ := map_eq_ok.1 h
  cases hrow
  obtain ⟨_, -, hg⟩ := bind_eq_ok.1 hr
  unfold TaskDb.getGroupWorkflowTask at hg
  split at hg <;> cases hg
  next hl => exact ⟨_, hl, rfl⟩

namespace TaskWorld

variable {w w' : TaskWorld} {prims : TaskPrims} {action : TaskAction} {i : ℕ}

/-- Owners and assignees agree, and the pending updates are about rows that are there. -/
structure Owned (w : TaskWorld) : Prop where
  owners : w.db.OwnersMatch
  calls : ∀ call ∈ w.calls, call.ReadsCard w.db

theorem Owned.start : Owned {} := ⟨fun _ ht => absurd ht (not_mem_empty _), by simp⟩

theorem Owned.write_owners {task : Option GroupWorkflowTask}
    {eid : String} (h : w.Owned) (hc : w.calls[i]? = some call) (hst : call.stage = .writing task)
    (hw : call.request.write r now eid w.db task = .ok db') :
    OwnerEffect r (w.assigneeShown (.write i r now eid fault)) w.db db' := by
  obtain ⟨request, stage⟩ := call
  cases hst
  cases request with
  | update taskId request =>
    cases task with
    | none => cases hw
    | some existing =>
      obtain ⟨t, hr, hco⟩ := h.calls _ (mem_of_getElem? hc) taskId request existing rfl rfl
      refine (updateGroupWorkflowTask_owners (fun u hu => ?_) hw).mono fun hs => ?_
      · cases hr.symm.trans hu
        exact hco
      · simpa [assigneeShown, hc] using hs
  | append appender request =>
    obtain ⟨⟨e, _⟩, ha, rfl⟩ := map_eq_ok.1 hw
    exact (appendWorkflowEvent_owners ha).mono fun _ => trivial

theorem Owned.step_owners (h : w.Owned) (hs : w.step prims action = some w') :
    OwnerEffect action.roster (w.assigneeShown action) w.db w'.db := by
  cases action with
  | transact r now txn fault =>
    cases hs
    exact commit_rule _ (.kept rfl rfl) fun db' he => TaskTxn.exec_owners he
  | begin request =>
    cases hs
    exact .kept rfl rfl
  | read i r fault =>
    obtain ⟨call, -, hs⟩ := bind_eq_some_iff.1 hs
    split at hs <;> cases hs
    exact .kept rfl rfl
  | write i r now eventId fault =>
    obtain ⟨call, hc, hs⟩ := bind_eq_some_iff.1 hs
    split at hs <;> cases hs
    next task hst =>
      exact commit_rule call.request.mentions (.kept rfl rfl) fun _ => h.write_owners hc hst

theorem readsCard_returned {req : TaskRequest} {ans : TaskResult Unit} :
    TaskCall.ReadsCard db ⟨req, .returned ans⟩ := by
  rintro _ _ _ - ⟨⟩

theorem Owned.step (h : w.Owned) (hs : w.step prims action = some w') : w'.Owned := by
  have he := h.step_owners hs
  refine ⟨he.ownersMatch h.owners, ?_⟩
  have hc : ∀ call ∈ w.calls, call.ReadsCard w'.db := fun call hm =>
    (h.calls call hm).of_effect he
  cases action with
  | transact r now txn fault =>
    cases hs
    exact hc
  | begin request =>
    cases hs
    refine forall_mem_snoc hc ?_
    rintro _ _ _ - ⟨⟩
  | read i r fault =>
    obtain ⟨call, -, hs⟩ := bind_eq_some_iff.1 hs
    split at hs <;> cases hs
    refine forall_mem_set hc ?_
    split
    next hr => exact TaskRequest.readsCard_of_read hr
    next => exact readsCard_returned
    next => exact readsCard_returned
  | write i r now eventId fault =>
    obtain ⟨call, -, hs⟩ := bind_eq_some_iff.1 hs
    split at hs <;> cases hs
    exact forall_mem_set hc readsCard_returned

/-- In every run the one owner row of a card is its assignee's, and a step that gives neither of the
two unchecked calls an internal agent sets only assignees who may be assigned. -/
theorem tasks_owned_by_assignee (prims : TaskPrims) {w : TaskWorld} (hr : Steps (step prims) {} w) :
    w.db.OwnersMatch ∧ ∀ action w', w.step prims action = some w' →
      w.assigneeShown action → w.db.AssignsValid action.roster w'.db := by
  have ho : w.Owned := hr.invariant Owned.step Owned.start
  exact ⟨ho.owners, fun action w' hs hsh =>
    (ho.step_owners hs).assignsValid hsh⟩

def annBotAndShadow : Roster where
  principals := [⟨"ann", "acme", "Ann", .human, false, none⟩,
    ⟨"bot", "acme", "Bot", .agent, false, none⟩, ⟨"shadow", "acme", "Shadow", .agent, false, none⟩]
  conversations := [⟨"room", "acme", .group, 1⟩]
  members := [⟨"room", "ann", 0, 0, none, none⟩, ⟨"room", "bot", 0, 0, none, none⟩,
    ⟨"room", "shadow", 0, 0, none, none⟩]
  isInternal p := p = "shadow"

def createFor (assigneeId : String) : TaskAction :=
  .transact annBotAndShadow 0 (.createWorkflowTask "t1" "ann" "room"
    { taskKey := "REPLY", title := "Reply", assigneePrincipalId := assigneeId }) .none

def handOver : TaskAction := .write 0 annBotAndShadow 1 "unused" .none

def beforeHandOver (assigneeId : String) : List TaskAction :=
  [createFor "bot", .begin (.update "t1" { assigneePrincipalId := some assigneeId }),
    .read 0 annBotAndShadow .none]

/-- The card of the agent is handed to the human. -/
theorem tasks_owned_by_assignee_handed_over :
    ∃ w w', Steps (step asciiPrims) {} w ∧ w.step asciiPrims handOver = some w'
      ∧ (w.db.tasks.lookup "t1").map (·.assigneePrincipalId) = some "bot"
      ∧ (w'.db.tasks.lookup "t1").map (·.assigneePrincipalId) = some "ann"
      ∧ w.db.OwnersMatch ∧ w.db.AssignsValid annBotAndShadow w'.db := by
  have hr : ((run (step asciiPrims) {} (beforeHandOver "ann")).any fun w =>
      (w.db.tasks.lookup "t1").map (·.assigneePrincipalId) = some "bot" ∧ w.assigneeShown handOver
        ∧ ((w.step asciiPrims handOver).bind fun w' => (w'.db.tasks.lookup "t1").map
          (·.assigneePrincipalId)) = some "ann") := by
    decide +kernel
  obtain ⟨w, hw, hb, hsh, ha⟩ := exists_steps_of_run hr
  obtain ⟨w', hs, ha⟩ := bind_eq_some_iff.1 ha
  obtain ⟨hm, hv⟩ := tasks_owned_by_assignee asciiPrims hw
  exact ⟨w, w', hw, hs, hb, ha, hm, hv handOver w' hs hsh⟩

/-- The step gives a card an assignee who may not be assigned. -/
def misassigns (w : TaskWorld) (action : TaskAction) : Bool :=
  (w.step asciiPrims action).any fun w' => w'.db.tasks.rows.any fun t =>
    (w.db.tasks.lookup t.id).map (·.assigneePrincipalId) ≠ some t.assigneePrincipalId
      && ¬ action.roster.Assignable t.conversationId t.assigneePrincipalId

theorem exists_of_misassigns (h : w.misassigns action) :
    ∃ w', w.step asciiPrims action = some w' ∧ ¬ w.db.AssignsValid action.roster w'.db := by
  unfold misassigns at h
  rcases hs : w.step asciiPrims action with - | w' <;> rw [hs] at h
  · cases h
  · rw [Option.any_some, any_eq_true] at h
    obtain ⟨t, ht, hb⟩ := h
    simp only [and_eq_true, decide_eq_true_eq] at hb
    exact ⟨w', rfl, fun hv => hb.2 (hv t ht hb.1)⟩

/-- Both calls take an internal agent, whom the others refuse. -/
theorem internal_agent_assigned : (∃ w', step asciiPrims {} (createFor "shadow") = some w'
        ∧ ¬ TaskDb.AssignsValid annBotAndShadow {} w'.db) ∧
      ∃ w w', Steps (step asciiPrims) {} w ∧ w.step asciiPrims handOver = some w'
        ∧ ¬ w.db.AssignsValid annBotAndShadow w'.db := by
  have hc : misassigns {} (createFor "shadow") := by decide +kernel
  have hr : ((run (step asciiPrims) {} (beforeHandOver "shadow")).any fun w =>
      w.misassigns handOver = true) := by
    decide +kernel
  refine ⟨exists_of_misassigns hc, ?_⟩
  obtain ⟨w, hw, hm⟩ := exists_steps_of_run hr
  obtain ⟨w', hs, hi⟩ := exists_of_misassigns hm
  exact ⟨w, w', hw, hs, hi⟩

end TaskWorld

end Choruz
