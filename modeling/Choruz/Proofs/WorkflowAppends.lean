import Choruz.Proofs.TaskOwners

/-!
# A workflow event that changes no card

The transaction of an append ends in one of two ways: it patches the row of the card, or it stores
the event with a diagnosis and nothing else.  The first needs an authorization that an agent without
standing towards the card does not get, from an event or from a patch.
-/

namespace Choruz

open Relational TaskWorld

variable {db db' : TaskDb} {r : Roster} {now : Timestamp}

variable {e : GroupWorkflowEvent} {task : Option GroupWorkflowTask} {actorId : String}
  {request : AppendGroupWorkflowEventRequest} {payload : Json} {statusEffect detail : Option String}
  {effect : WorkflowStatusEffect} {reason : String} {fault : Fault}

/-- What the transaction of an append leaves: the event alone, without a version, or a new version of
the card's row. -/
inductive Appended (taskId : Option String) (e : GroupWorkflowEvent) (db db' : TaskDb) : Prop where
  | noted (rest : db' = { db with events := db'.events })
      (events : db'.events.rows = db.events.rows ++ [e]) (version : e.resultingVersion = none)
  | patched (t t' : GroupWorkflowTask) (id : taskId = some t.id) (replaces : db.Replaces db' t t')

theorem appendToTask_appended {eid tid : String}
    (h : db.appendWorkflowEvent r now eid (.toTask tid actorId) request task =
      .ok (e, db')) : Appended (task.map (·.id)) e db db' := by
  cases appendWorkflowEvent_appends h with
  | diagnosed event =>
    have hr := insertWorkflowEvent_rest event
    obtain ⟨-, he, -, rfl⟩ := insertWorkflowEvent_eq_ok event
    exact .noted hr he rfl
  | patched _ id row patch =>
    iterate 3 obtain ⟨_, -, patch⟩ := bind_eq_ok.1 patch
    exact .patched _ _ id (applyAuthorizedPatch_eq_ok row patch).1
  | trusted acts => cases acts

theorem readForAppend_toTask {taskId : String}
    (h : db.readForAppend r (.toTask taskId actorId) request = .ok task) :
    task.map (·.id) = some taskId := by
  obtain ⟨_, -, h⟩ := bind_eq_ok.1 h
  obtain ⟨_, -, h⟩ := bind_eq_ok.1 h
  obtain ⟨t, hg, h⟩ := bind_eq_ok.1 h
  split_ifs at h
  cases h
  unfold TaskDb.getGroupWorkflowTask at hg
  split at hg <;> cases hg
  next hrow => rw [Option.map_some, key_of_lookup hrow]

namespace BoardDb

variable {board board' : BoardDb}

/-- Of the tables, at most the workflow events changed, by one event without a version. -/
structure OnlyRecords (board board' : BoardDb) (e : GroupWorkflowEvent) : Prop where
  tasks : board'.tasks.tasks = board.tasks.tasks
  participants : board'.tasks.participants = board.tasks.participants
  sequences : board'.tasks.sequences = board.tasks.sequences
  db : board'.db = board.db
  events : board'.tasks.events.rows = board.tasks.events.rows ++ [e]
  version : e.resultingVersion = none

theorem insertChannelTaskFanoutEvent_tasks {eid c eventType tid : String} {actor : Option String}
    (h : board.insertChannelTaskFanoutEvent r now eid c actor eventType tid =
      .ok board') : board'.tasks = board.tasks := by
  obtain ⟨⟨t, snapshot⟩, -, h⟩ := bind_eq_ok.1 h
  dsimp only at h
  split at h <;> cases h
  rfl

theorem appendWorkflowEvent_eq_ok {eid fanoutId tid actor : String}
    {req : AppendGroupWorkflowEventRequest} {task : Option GroupWorkflowTask}
    {e : GroupWorkflowEvent} (hid : task.map (·.id) = some tid)
    (h : board.appendWorkflowEvent r now eid fanoutId (.toTask tid actor) req task =
      .ok (e, board')) : board.OnlyRecords board' e ∨
      ∃ t t', t.id = tid ∧ board.tasks.Replaces board'.tasks t t' := by
  obtain ⟨⟨event, tasks⟩, ha, h⟩ := bind_eq_ok.1 h
  dsimp only at h
  have hc := appendToTask_appended ha
  rw [hid] at hc
  cases hc with
  | noted rest events version =>
    have hq : task.filter (fun _ => event.resultingVersion.isSome) = none := by
      rw [version]
      cases task <;> rfl
    rw [hq] at h
    cases h
    have ht := congrArg TaskDb.tasks rest
    have hp := congrArg TaskDb.participants rest
    have hs := congrArg TaskDb.sequences rest
    exact .inl ⟨ht, hp, hs, rfl, events, version⟩
  | patched t t' id replaces =>
    refine .inr ⟨t, t', (Option.some.inj id).symm, ?_⟩
    split at h
    · cases h
      exact replaces
    · obtain ⟨board1, hf, h⟩ := bind_eq_ok.1 h
      cases h
      rwa [insertChannelTaskFanoutEvent_tasks hf]

/-- An append that leaves the row of its card returns an error and changes nothing, or stores its
event without a version and changes nothing else. -/
theorem records_of_appendGroupWorkflowEvent {seenBy : Roster} {seen : TaskDb}
    {eid fanoutId tid actor : String} {req : AppendGroupWorkflowEventRequest}
    {ans : TaskResult GroupWorkflowEvent}
    (h : board.appendGroupWorkflowEvent r seenBy seen now eid fanoutId tid actor req
      fault = (board', ans)) (hs : board'.tasks.tasks.lookup tid = board.tasks.tasks.lookup tid) :
    (∃ e, ans = .error e ∧ board' = board) ∨ ∃ e, board.OnlyRecords board' e := by
  unfold appendGroupWorkflowEvent at h
  dsimp only at h
  split at h
  next e hr =>
    cases h
    exact .inl ⟨e, rfl, rfl⟩
  next task hr =>
    rcases Fault.outcome_cases h with ⟨e, ha, -⟩ | ⟨rfl, hl | ⟨e, -, he⟩⟩
    · rcases appendWorkflowEvent_eq_ok (readForAppend_toTask hr) ha with
        ho | ⟨t, t', rfl, hrep⟩
      · exact .inr ⟨e, ho⟩
      · rw [hrep.rows, if_pos rfl, hrep.row, Option.some.injEq] at hs
        have hv := hrep.version
        rw [hs] at hv
        omega
    · exact .inl ⟨_, hl, rfl⟩
    · exact .inl ⟨e, he, rfl⟩

end BoardDb

section Standing

variable {agentId c : String} {actorType : PrincipalType} {existing : GroupWorkflowTask}

variable {kind : Option String} {header : EventHeader} {b : Bool}

theorem requireMemberAccess_agent
    (ha : ∀ p ∈ r.principals, p.id = agentId → p.principalType = .agent)
    (h : r.requireMemberAccess agentId c = .ok actorType) : actorType = .agent := by
  obtain ⟨_, -, h⟩ := bind_eq_ok.1 h
  split at h <;> cases h
  next p conv hm =>
    have hf := find?_of_member? (filter_eq_some_iff.1 hm).1
    exact ha p (mem_of_find?_eq_some hf) (by simpa using find?_some hf)

theorem authorizeChannelTaskPatch_agent
    (h : TaskDb.authorizeChannelTaskPatch r agentId .agent existing = .ok b) :
    existing.assigneePrincipalId = agentId ∨ r.isCoordinator agentId existing.conversationId := by
  obtain ⟨_, -, h⟩ := bind_eq_ok.1 h
  dsimp only at h
  split_ifs at h with hr
  simp at hr
  by_cases hasg : existing.assigneePrincipalId = agentId
  · exact .inl hasg
  · exact .inr (by simpa using hr hasg)

section

variable (hmatch : db.OwnersMatch) (hrow : existing ∈ db.tasks)
include hmatch hrow

theorem assignee_of_actorHasRole (h : db.actorHasRole existing.id agentId ["owner"]) :
    existing.assigneePrincipalId = agentId := by
  obtain ⟨q, hq, hr⟩ := any_eq_true.1 h
  simp at hr
  obtain ⟨o, ho, hasg⟩ := hmatch existing hrow
  have hm : q ∈ db.owners existing.id := mem_filter.2 ⟨hq, by simp [hr]⟩
  rw [ho, mem_singleton] at hm
  rw [← hasg, ← hm, hr.1.2]

theorem authorizeWorkflowMetadataPatch_agent {kind : String}
    (h : db.authorizeWorkflowMetadataPatch r agentId .agent existing kind = .ok ()) :
    existing.assigneePrincipalId = agentId ∨ r.isCoordinator agentId existing.conversationId ∨
      kind = "task.feedback" ∧
        db.actorHasRole existing.id agentId ["reviewer", "quality_check", "approver"] := by
  have how : (existing.assigneePrincipalId = agentId ||
      db.actorHasRole existing.id agentId ["owner"]) → existing.assigneePrincipalId = agentId := by
    intro how
    rcases Bool.or_eq_true_iff.1 how with heq | hr
    · exact of_decide_eq_true heq
    · exact assignee_of_actorHasRole hmatch hrow hr
  unfold TaskDb.authorizeWorkflowMetadataPatch at h
  simp only [ne_eq, not_true_eq_false, decide_false, Bool.false_and, Bool.or_false] at h
  split_ifs at h with hch hag ha hf
  · rcases Bool.or_eq_true_iff.1 (and_eq_true_iff.1 hag).2 with ho | hc
    · exact .inl (how ho)
    · exact .inr (.inl hc)
  · rcases Bool.or_eq_true_iff.1 (and_eq_true_iff.1 ha).1 with ho | hc
    · exact .inl (how ho)
    · exact .inr (.inl hc)
  · rw [and_eq_true, decide_eq_true_eq] at hf
    exact .inr (.inr hf)

theorem authorizePatch_agent (h : db.authorizePatch r agentId .agent existing kind = .ok b) :
    existing.assigneePrincipalId = agentId ∨ r.isCoordinator agentId existing.conversationId ∨
      kind = some "task.feedback" ∧
        db.actorHasRole existing.id agentId ["reviewer", "quality_check", "approver"] := by
  cases kind with
  | none =>
    rcases authorizeChannelTaskPatch_agent h with hasg | hc
    · exact .inl hasg
    · exact .inr (.inl hc)
  | some kind =>
    obtain ⟨_, hok, -⟩ := map_eq_ok.1 h
    rcases authorizeWorkflowMetadataPatch_agent hmatch hrow hok with hasg | hc | hf
    · exact .inl hasg
    · exact .inr (.inl hc)
    · exact .inr (.inr ⟨by rw [hf.1], hf.2⟩)

end

/-- What an agent needs of a card to change it. -/
structure NoStanding (r : Roster) (db : TaskDb) (agentId taskId : String) (feedback : Prop) :
    Prop where
  agent : ∀ p ∈ r.principals, p.id = agentId → p.principalType = .agent
  assignee : ∀ t ∈ db.tasks.lookup taskId, t.assigneePrincipalId ≠ agentId
  coordinator : ∀ t ∈ db.tasks.lookup taskId, r.isCoordinator agentId t.conversationId = false
  reviewer : feedback →
    db.actorHasRole taskId agentId ["reviewer", "quality_check", "approver"] = false

variable {taskId : String} {feedback : Prop}

section

variable (hn : NoStanding r db agentId taskId feedback) (hmatch : db.OwnersMatch)
include hn hmatch

theorem NoStanding.applyChannelTaskPatch {req : PatchChannelTaskRequest} {base : Json}
    {e : GroupWorkflowEvent} (hrow : db.tasks.lookup existing.id = some existing)
    (hk : kind = some "task.feedback" → feedback)
    (h : db.applyChannelTaskPatch r now agentId existing req kind header base =
      .ok (e, db')) : db'.tasks.lookup taskId = db.tasks.lookup taskId := by
  obtain ⟨actorType, ha, h⟩ := bind_eq_ok.1 h
  obtain ⟨b, hau, h⟩ := bind_eq_ok.1 h
  obtain ⟨_, -, h⟩ := bind_eq_ok.1 h
  obtain ⟨hrep, -⟩ := applyAuthorizedPatch_eq_ok hrow h
  rw [hrep.rows]
  split_ifs with hid
  · subst hid
    obtain rfl := requireMemberAccess_agent hn.agent ha
    rcases authorizePatch_agent hmatch (mem_of_lookup hrow) hau with
      hasg | hc | ⟨hf, hr⟩
    · exact absurd hasg (hn.assignee existing hrow)
    · rw [hn.coordinator existing hrow] at hc
      cases hc
    · rw [hn.reviewer (hk hf)] at hr
      cases hr
  · rfl

theorem NoStanding.patchChannelTask {eid k : String} {req : PatchChannelTaskRequest}
    {e : GroupWorkflowEvent} (h : db.patchChannelTask r now eid agentId k req = .ok (e, db')) :
    db'.tasks.lookup taskId = db.tasks.lookup taskId := by
  obtain ⟨_, -, h⟩ := bind_eq_ok.1 h
  obtain ⟨existing, hl, h⟩ := bind_eq_ok.1 h
  obtain ⟨_, -, h⟩ := bind_eq_ok.1 h
  exact hn.applyChannelTaskPatch hmatch (lookup_of_lockTask hl) (by simp) h

theorem NoStanding.appendWorkflowEvent {eid : String} {appender : Appender}
    {req : AppendGroupWorkflowEventRequest} {task : Option GroupWorkflowTask}
    {e : GroupWorkflowEvent} (ha : appender.actor = some agentId)
    (hk : req.kind = "task.feedback" → feedback)
    (h : db.appendWorkflowEvent r now eid appender req task = .ok (e, db')) :
    db'.tasks.lookup taskId = db.tasks.lookup taskId := by
  cases appendWorkflowEvent_appends h with
  | diagnosed event => rw [(insertWorkflowEvent_eq_ok event).1]
  | patched acts _ row patch =>
    obtain rfl := Option.some.inj (ha.symm.trans acts)
    exact hn.applyChannelTaskPatch hmatch row (fun hf => hk (Option.some.inj hf)) patch
  | trusted acts => cases ha.symm.trans acts

end

end Standing

namespace TaskWorld

variable {w w' : TaskWorld} {prims : TaskPrims} {action : TaskAction} {agentId taskId : String}

theorem noStanding_of_outsider (h : w.outsider agentId taskId action)
    (hasg : ∀ t ∈ w.db.tasks.lookup taskId, t.assigneePrincipalId ≠ agentId) :
    w.sentBy agentId action ∧
      NoStanding action.roster w.db agentId taskId (w.sendsFeedback action) := by
  simp only [outsider, and_eq_true, Bool.not_eq_true', all_eq_true] at h
  obtain ⟨⟨⟨hs, ha⟩, hc⟩, hfe⟩ := h
  refine ⟨hs, fun p hp hid => ?_, hasg, fun t ht => ?_, fun hf => ?_⟩
  · simpa [hid] using ha p hp
  · rw [Option.mem_def.1 ht] at hc
    simpa using hc
  · rwa [hf, Bool.true_and] at hfe

section

variable (hown : w.Owned) (hasg : ∀ t ∈ w.db.tasks.lookup taskId, t.assigneePrincipalId ≠ agentId)
include hown hasg

theorem lookup_of_outsider_step
    (ho : w.outsider agentId taskId action) (hs : w.step prims action = some w') :
    w'.db.tasks.lookup taskId = w.db.tasks.lookup taskId := by
  obtain ⟨hse, hn⟩ := noStanding_of_outsider ho hasg
  cases action with
  | transact r now txn fault =>
    cases txn with
    | patch eventId actorId k request =>
      cases hs
      obtain rfl : actorId = agentId := by simpa [sentBy] using hse
      refine commit_rule _ (P := (·.tasks.lookup taskId = _)) rfl fun db' he => ?_
      obtain ⟨⟨e, _⟩, hp, rfl⟩ := map_eq_ok.1 he
      exact hn.patchChannelTask hown.owners hp
    | _ => cases hse
  | begin request =>
    cases hs
    rfl
  | read i r fault =>
    obtain ⟨call, -, hs⟩ := bind_eq_some_iff.1 hs
    split at hs <;> cases hs
    rfl
  | write i r now eventId fault =>
    obtain ⟨⟨request, stage⟩, hc, hs⟩ := bind_eq_some_iff.1 hs
    simp [sentBy, hc] at hse
    split at hs <;> cases hs
    cases request with
    | update k request => cases hse
    | append appender request =>
      refine commit_rule (TaskRequest.append appender request).mentions
        (P := (·.tasks.lookup taskId = _)) rfl fun db' hw => ?_
      obtain ⟨⟨e, _⟩, ha, rfl⟩ := map_eq_ok.1 hw
      refine hn.appendWorkflowEvent hown.owners (by simpa [TaskRequest.sentBy] using hse)
        (fun hk => ?_) ha
      simp [sendsFeedback, hc, TaskRequest.isFeedback, hk]

/-- A run of an agent's own events and patches leaves a card it has no standing towards. -/
theorem lookup_of_outsider_steps (hr : Steps (restrict (step prims)
      fun w act => w.outsider agentId taskId act) w w') :
    w'.db.tasks.lookup taskId = w.db.tasks.lookup taskId := by
  refine (hr.keeps (I := fun v : TaskWorld =>
    v.Owned ∧ v.db.tasks.lookup taskId = w.db.tasks.lookup taskId)
    (fun hs ho hst => ?_) ⟨hown, rfl⟩).2
  have hrow := lookup_of_outsider_step hs.1 (hs.2 ▸ hasg) ho hst
  exact ⟨hs.1.step hst, hrow.trans hs.2⟩

end

end TaskWorld

/-- An append that does not update its card returns an error and leaves every table, or stores
exactly its event, without a version; and from every reachable state no sequence of events and
patches of an agent without standing towards a card changes the card. -/
theorem rejected_events_change_nothing (prims : TaskPrims) :
    (∀ (r seenBy : Roster) (seen : TaskDb) (board board' : BoardDb) (now : Timestamp)
        (eventId fanoutId taskId actorId : String) (request : AppendGroupWorkflowEventRequest)
        (fault : Fault) (answer : TaskResult GroupWorkflowEvent),
      board.appendGroupWorkflowEvent r seenBy seen now eventId fanoutId taskId actorId request
        fault = (board', answer) →
      board'.tasks.tasks.lookup taskId = board.tasks.tasks.lookup taskId →
        (∃ e, answer = .error e ∧ board' = board) ∨ ∃ e, board.OnlyRecords board' e) ∧
    ∀ (w w' : TaskWorld) (agentId taskId : String), Steps (step prims) {} w →
      (∀ t ∈ w.db.tasks.lookup taskId, t.assigneePrincipalId ≠ agentId) →
      Steps (restrict (step prims) fun w action => w.outsider agentId taskId action) w w' →
        w'.db.tasks.lookup taskId = w.db.tasks.lookup taskId := by
  refine ⟨fun _ _ _ _ _ _ _ _ _ _ _ _ _ h hs =>
    BoardDb.records_of_appendGroupWorkflowEvent h hs, fun w w' _ _ hw hasg hr => ?_⟩
  have hown : w.Owned := hw.invariant TaskWorld.Owned.step TaskWorld.Owned.start
  exact lookup_of_outsider_steps hown hasg hr

def annBotAndGuest : Roster := { annBotAndShadow with isInternal := fun _ => false }

def completesTask : AppendGroupWorkflowEventRequest := { kind := "task.completed" }

def guestActions : List TaskAction :=
  [.begin (.append (.toTask "t1" "shadow") completesTask), .read 0 annBotAndGuest .none,
    .write 0 annBotAndGuest 1 "said done" .none,
    .transact annBotAndGuest 2 (.patch "patched" "shadow" "t1" { status := some .done }) .none]

def boardOfBot : BoardDb where
  tasks := ((step asciiPrims {} (createFor "bot")).getD {}).db

/-- Of the guest's append and patch, the tables keep the event, with its diagnosis. -/
theorem rejected_events_change_nothing_of_guest :
    (∃ e, boardOfBot.OnlyRecords (boardOfBot.appendGroupWorkflowEvent annBotAndGuest annBotAndGuest
        boardOfBot.tasks 1 "said done" "unused" "t1" "shadow" completesTask .none).1 e) ∧
      ∃ w w', Steps (step asciiPrims) {} w ∧ Steps (restrict (step asciiPrims)
          fun w action => w.outsider "shadow" "t1" action) w w' ∧
        w'.db.events.rows.length = w.db.events.rows.length + 1 ∧
        w'.db.tasks.lookup "t1" = w.db.tasks.lookup "t1" := by
  obtain ⟨hr, hs⟩ := rejected_events_change_nothing asciiPrims
  constructor
  · rcases hr annBotAndGuest annBotAndGuest boardOfBot.tasks boardOfBot _ 1 "said done"
      "unused" "t1" "shadow" completesTask .none _ rfl (by decide +kernel) with ⟨e, he, -⟩ | ho
    · cases he
    · exact ho
  · have hrun : ((run (step asciiPrims) {} [createFor "bot"]).any
        fun w => (∀ t ∈ w.db.tasks.lookup "t1", t.assigneePrincipalId ≠ "shadow")
          ∧ ((run (restrict (step asciiPrims)
            fun w action => w.outsider "shadow" "t1" action) w guestActions).any fun w' =>
              w'.db.events.rows.length = w.db.events.rows.length + 1)) := by
      decide +kernel
    obtain ⟨w, hw, hasg, hg⟩ := exists_steps_of_run hrun
    obtain ⟨w', hw', hevs⟩ := exists_steps_of_run hg
    exact ⟨w, w', hw, hw', hevs, hs w w' "shadow" "t1" hw hasg hw'⟩

end Choruz
