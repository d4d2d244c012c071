import Choruz.Audit
import Choruz.Proofs.ChannelTasks

/-!
# The history of a channel task

The rows a card had, and its events, are an audit trail: every transaction but that of
`update_group_workflow_task` keeps it, and that one is the only way to break it.
-/

namespace Choruz

open Relational

variable {db db' : TaskDb} {r : Roster} {now : Timestamp} {taskId : String}
  {mentions : TaskField → Bool} {writes : List TaskWrite} {es : List GroupWorkflowEvent}

def cardSaves (taskId : String) (writes : List TaskWrite) : List GroupWorkflowTask :=
  (writes.map (·.after)).filter (·.id = taskId)

def cardEvents (taskId : String) (db : TaskDb) : List GroupWorkflowEvent :=
  db.events.rows.filter (·.taskId = some taskId)

/-- The events are a trail of the rows, and the stored row is the last of them. -/
structure CardTrail (taskId : String) (db : TaskDb) (writes : List TaskWrite) : Prop where
  trail : Trail GroupWorkflowTask.version GroupWorkflowEvent.resultingVersion
    GroupWorkflowEvent.Tells (cardSaves taskId writes) (cardEvents taskId db)
  current : (cardSaves taskId writes).getLast? = db.tasks.lookup taskId
  kept : ∀ x ∈ writes, x.after.id = taskId → ∀ before ∈ x.before, ∀ f, x.mentions f = false →
    x.after.get f = before.get f

theorem CardTrail.start : CardTrail taskId {} [] := ⟨.nil, rfl, by simp⟩

theorem cardSaves_written : cardSaves taskId (db.written mentions db') =
    if db'.tasks.lookup taskId = db.tasks.lookup taskId then []
    else (db'.tasks.lookup taskId).toList := by
  have hsa : cardSaves taskId (db.written mentions db') =
      (db'.tasks.rows.filter (·.id = taskId)).filter (db.tasks.lookup taskId ≠ some ·) := by
    unfold cardSaves TaskDb.written
    rw [map_map, List.filter_filter]
    change (List.map id _).filter _ = _
    rw [List.map_id, List.filter_filter]
    refine List.filter_congr fun t _ => ?_
    by_cases hid : t.id = taskId
    · subst hid
      simp
    · simp [hid]
  rw [hsa, Table.filter_key_eq_toList]
  rcases db'.tasks.lookup taskId with _ | t
  · simp
  by_cases hs : some t = db.tasks.lookup taskId
  · simp [hs]
  · simp [hs, Ne.symm hs]

theorem mem_written {x : TaskWrite} (h : x ∈ db.written mentions db') :
    x.mentions = mentions ∧ x.before = db.tasks.lookup x.after.id
      ∧ db'.tasks.lookup x.after.id = some x.after ∧ x.before ≠ some x.after := by
  obtain ⟨t, ht, rfl⟩ := mem_map.1 h
  obtain ⟨hm, hne⟩ := mem_filter.1 ht
  exact ⟨rfl, rfl, lookup_of_mem hm, by simpa using hne⟩

theorem cardSaves_append (ws ws' : List TaskWrite) :
    cardSaves taskId (ws ++ ws') = cardSaves taskId ws ++ cardSaves taskId ws' := by
  simp [cardSaves]

theorem cardEvents_of_mem
    (h : db'.events.rows = db.events.rows ++ es) (hes : ∀ e ∈ es, e.taskId = some taskId) :
    cardEvents taskId db' = cardEvents taskId db ++ es := by
  unfold cardEvents
  rw [h, filter_append, List.filter_eq_self.2 fun e he => decide_eq_true (hes e he)]

theorem cardEvents_of_not_mem
    (h : db'.events.rows = db.events.rows ++ es) (hes : ∀ e ∈ es, e.taskId ≠ some taskId) :
    cardEvents taskId db' = cardEvents taskId db := by
  unfold cardEvents
  have hn : es.filter (·.taskId = some taskId) = [] :=
    filter_eq_nil_iff.2 fun e he => by simpa using hes e he
  rw [h, filter_append, hn, append_nil]

namespace CardTrail

section

variable (h : CardTrail taskId db writes) {t : GroupWorkflowTask}
include h

theorem of_row (hr : db'.tasks.lookup taskId = db.tasks.lookup taskId)
    (ht : Trail GroupWorkflowTask.version GroupWorkflowEvent.resultingVersion
      GroupWorkflowEvent.Tells (cardSaves taskId writes) (cardEvents taskId db')) :
    CardTrail taskId db' (writes ++ db.written mentions db') := by
  have hs : cardSaves taskId (writes ++ db.written mentions db') = cardSaves taskId writes := by
    rw [cardSaves_append, cardSaves_written, if_pos hr, append_nil]
  refine ⟨hs ▸ ht, by rw [hs, hr, h.current], fun x hx hid => ?_⟩
  rcases mem_append.1 hx with hx | hx
  · exact h.kept x hx hid
  obtain ⟨-, hb, ha, hne⟩ := mem_written hx
  rw [hid] at hb ha
  exact absurd (hb.trans (hr.symm.trans ha)) hne

theorem of_save (hr : db'.tasks.lookup taskId = some t) (hne : db.tasks.lookup taskId ≠ some t)
    (ht : Trail GroupWorkflowTask.version GroupWorkflowEvent.resultingVersion
      GroupWorkflowEvent.Tells (cardSaves taskId writes ++ [t]) (cardEvents taskId db'))
    (hk : ∀ before ∈ db.tasks.lookup taskId, ∀ f, mentions f = false → t.get f = before.get f) :
    CardTrail taskId db' (writes ++ db.written mentions db') := by
  have hs : cardSaves taskId (writes ++ db.written mentions db') =
      cardSaves taskId writes ++ [t] := by
    rw [cardSaves_append, cardSaves_written, hr, if_neg (Ne.symm hne), Option.toList_some]
  refine ⟨hs ▸ ht, by rw [hs, hr, List.getLast?_concat], fun x hx hid => ?_⟩
  rcases mem_append.1 hx with hx | hx
  · exact h.kept x hx hid
  obtain ⟨hm, hb, ha, -⟩ := mem_written hx
  rw [hid] at hb ha
  rw [hm, hb, ← Option.some.inj (hr.symm.trans ha)]
  exact hk

theorem of_created (ht : db.tasks.insert? t = some db'.tasks)
    (hver : t.version = 1) (hevs : db'.events.rows = db.events.rows ++ es)
    (hf : ∀ e ∈ es, e.taskId = some t.id ∧ e.resultingVersion = some 1) :
    CardTrail taskId db' (writes ++ db.written mentions db') := by
  have hr := lookup_insert? ht taskId
  by_cases hid : t.id = taskId
  · subst hid
    rw [if_pos rfl] at hr
    have hn : db.tasks.lookup t.id = none := lookup_eq_none.2 (not_mem_key_of_insert? ht)
    have hs : cardSaves t.id writes = [] := by
      rw [← List.getLast?_eq_none_iff, h.current, hn]
    refine h.of_save hr (by simp [hn]) ?_ (by simp [hn])
    rw [hs, cardEvents_of_mem hevs fun e he => (hf e he).1]
    refine .first hver fun e he v hv => ?_
    rcases mem_append.1 he with he | he
    · have hle := h.trail.bounded e he v hv
      rw [hs, List.length_nil] at hle
      omega
    · rw [(hf e he).2, Option.mem_some_iff] at hv
      omega
  · rw [if_neg hid] at hr
    refine h.of_row hr ?_
    rw [cardEvents_of_not_mem hevs fun e he => by simpa [(hf e he).1] using hid]
    exact h.trail

theorem of_patched {t t' : GroupWorkflowTask} {e : GroupWorkflowEvent} (hr : db.Replaces db' t t')
    (he : db'.events.rows = db.events.rows ++ [e]) (ht : e.taskId = some t.id)
    (hv : e.resultingVersion = some t'.version) (hte : e.Tells t t')
    (hk : ∀ f, mentions f = false → t'.get f = t.get f) :
    CardTrail taskId db' (writes ++ db.written mentions db') := by
  have hrow := hr.rows taskId
  by_cases hid : taskId = t.id
  · subst hid
    rw [if_pos rfl] at hrow
    have hne : db.tasks.lookup t.id ≠ some t' := by
      rw [hr.row, Ne, Option.some.injEq]
      rintro rfl
      have := hr.version
      omega
    refine h.of_save hrow hne ?_ (by simpa [hr.row] using hk)
    rw [cardEvents_of_mem he (by simpa using ht)]
    exact h.trail.save (h.current.trans hr.row) hr.version hv hte
  · rw [if_neg hid] at hrow
    refine h.of_row hrow ?_
    rw [cardEvents_of_not_mem he (by simpa [ht] using Ne.symm hid)]
    exact h.trail

theorem of_edit (he : EditEffect mentions db db') :
    CardTrail taskId db' (writes ++ db.written mentions db') := by
  cases he with
  | noted e tasks events version =>
    refine h.of_row (by rw [tasks]) ?_
    by_cases ht : e.taskId = some taskId
    · rw [cardEvents_of_mem events (by simpa using ht)]
      exact h.trail.note version
    · rw [cardEvents_of_not_mem events (by simpa using ht)]
      exact h.trail
  | patched t t' e replaces events task version tells kept =>
    exact h.of_patched replaces events task version tells kept

theorem of_effect (he : TaskEffect mentions db db') :
    CardTrail taskId db' (writes ++ db.written mentions db') := by
  cases he with
  | quiet same =>
    refine h.of_row (by rw [same.tasks]) ?_
    unfold cardEvents
    rw [same.events]
    exact h.trail
  | edited edit => exact h.of_edit edit
  | created t es tasks version events first => exact h.of_created tasks version events first

theorem of_update {k : String} {old : GroupWorkflowTask}
    {req : UpdateGroupWorkflowTaskRequest} (hk : k ≠ taskId)
    (hu : db.updateGroupWorkflowTask r now k old req = .ok db') :
    CardTrail taskId db' (writes ++ db.written mentions db') := by
  obtain ⟨t, rfl, hr, he⟩ := updateGroupWorkflowTask_eq_ok hu
  refine h.of_row ((hr.rows taskId).trans (if_neg (Ne.symm hk))) ?_
  unfold cardEvents
  rw [he]
  exact h.trail

end

end CardTrail

theorem TaskRequest.write_keeps {req : TaskRequest} {eid : String}
    {task : Option GroupWorkflowTask} (h : CardTrail taskId db writes)
    (ho : req.updates taskId = false) (hw : req.write r now eid db task = .ok db') :
    CardTrail taskId db' (writes ++ db.written req.mentions db') := by
  cases req with
  | update k req =>
    cases task with
    | none => cases hw
    | some existing => exact h.of_update (by simpa [TaskRequest.updates] using ho) hw
  | append appender req =>
    obtain ⟨⟨e, _⟩, ha, rfl⟩ := map_eq_ok.1 hw
    exact h.of_edit (appendWorkflowEvent_effect ha)

namespace TaskWorld

variable {w w' : TaskWorld} {prims : TaskPrims} {action : TaskAction}

def Trailed (taskId : String) (w : TaskWorld) : Prop := CardTrail taskId w.db w.writes

theorem trailed_commit {fault : Fault} {res : TaskResult TaskDb} (h : w.Trailed taskId)
    (hok : ∀ db', res = .ok db' → CardTrail taskId db' (w.writes ++ w.db.written mentions db')) :
    (w.commit fault mentions res).2.Trailed taskId :=
  commit_rule mentions (P := fun db => CardTrail taskId db (w.writes ++ w.db.written mentions db))
    (h.of_row rfl h.trail) hok

theorem trailed_step (h : w.Trailed taskId) (hok : w.NoDirectUpdate taskId action)
    (hs : w.step prims action = some w') : w'.Trailed taskId := by
  cases action with
  | transact r now txn fault =>
    cases hs
    exact trailed_commit h fun db' he => h.of_effect (TaskTxn.exec_effect he)
  | begin request =>
    cases hs
    exact h
  | read i r fault =>
    obtain ⟨call, -, hs⟩ := bind_eq_some_iff.1 hs
    split at hs <;> cases hs
    exact h
  | write i r now eventId fault =>
    obtain ⟨call, hc, hs⟩ := bind_eq_some_iff.1 hs
    split at hs <;> cases hs
    exact trailed_commit h fun db' hw => TaskRequest.write_keeps h (hok call hc) hw

theorem exactHistory_of_trailed (h : w.Trailed taskId) : w.ExactHistory taskId := by
  intro t ht hid v hv hle
  subst hid
  have hl := h.current.trans (lookup_of_mem ht)
  rw [h.trail.version_eq_length hl] at hle
  obtain ⟨before, after, e, hb, ha, he, hte⟩ := h.trail.exact hv hle
  unfold cardSaves at hb ha
  unfold cardEvents at he
  refine ⟨before, after, e, ?_, ?_, ?_, hte⟩
  · simpa [savedAt, Bool.and_comm] using hb
  · simpa [savedAt, Bool.and_comm] using ha
  · simpa [eventsAt, Bool.and_comm] using he

/-- Where `update_group_workflow_task` does not write the card, its event history is its version
history, and each write changes only what its request mentions. -/
theorem channel_task_history (prims : TaskPrims) (taskId : String) {w : TaskWorld}
    (h : Steps (restrict (step prims) (NoDirectUpdate taskId)) {} w) :
    w.ExactHistory taskId ∧ w.MentionedOnly taskId := by
  have ht : w.Trailed taskId := h.keeps trailed_step CardTrail.start
  exact ⟨exactHistory_of_trailed ht, ht.kept⟩

def annAndBot : Roster where
  principals := [⟨"ann", "acme", "Ann", .human, false, none⟩,
    ⟨"bot", "acme", "Bot", .agent, false, none⟩]
  conversations := [⟨"room", "acme", .group, 1⟩]
  members := [⟨"room", "ann", 0, 0, none, none⟩, ⟨"room", "bot", 0, 0, none, none⟩]
  hasMessage c m := c = "room" && m = "hello"

def createFromHello (taskId : String) : TaskAction :=
  .transact annAndBot 0 (.createFromMessage (fun _ => taskId) ("created " ++ taskId) "ann" "room"
    { messageId := "hello", title := "Greet", assigneePrincipalId := "bot" }) .none

def createByBot (taskId taskKey : String) : TaskAction :=
  .transact annAndBot 0 (.createWorkflowTask taskId "bot" "room"
    { taskKey, title := "Reply", assigneePrincipalId := "bot" }) .none

def retitle (taskId : String) : TaskAction :=
  .begin (.update taskId { title := some "Welcome" })

theorem channel_task_history_completed :
    ∃ w, Steps (restrict (step asciiPrims) (NoDirectUpdate "t1")) {} w
      ∧ (w.db.tasks.lookup "t1").map (·.version) = some 3
      ∧ (w.db.tasks.lookup "t2").map (·.version) = some 2
      ∧ w.ExactHistory "t1" ∧ w.MentionedOnly "t1" := by
  refine exists_run_and₂ [
      createFromHello "t1", createByBot "t2" "REPLY", retitle "t2", .read 0 annAndBot .none,
      .transact annAndBot 1 (.patch "patched" "ann" "t1" { blockedReason := .set "asleep" }) .none,
      .write 0 annAndBot 2 "unused" .none,
      .begin (.append (.toTask "t1" "bot") { kind := "task.completed" }),
      .read 1 annAndBot .none, .write 1 annAndBot 3 "completed" .none] ?_
    fun _ hw _ => channel_task_history asciiPrims "t1" hw
  decide +kernel

/-- A direct write read the card before a patch and writes after it: the patched status is undone by
a request that names only a title, and the third version has no event. -/
theorem direct_update_breaks_history :
    ∃ w, Steps (step asciiPrims) {} w ∧ ¬ w.ExactHistory "t1" ∧ ¬ w.MentionedOnly "t1" := by
  have hr : ((run (step asciiPrims) {} [
      createFromHello "t1", retitle "t1", .read 0 annAndBot .none,
      .transact annAndBot 1 (.patch "patched" "ann" "t1" { status := some .done }) .none,
      .write 0 annAndBot 2 "unused" .none]).any fun w =>
        (∃ t ∈ w.db.tasks, t.id = "t1" ∧ t.version = 3) ∧ w.eventsAt "t1" 3 = []
          ∧ ∃ x ∈ w.writes, x.after.id = "t1" ∧ ∃ before ∈ x.before,
            x.mentions .status = false ∧ x.after.get .status ≠ before.get .status) := by
    decide +kernel
  obtain ⟨w, hw, ⟨t, ht, hid, hv⟩, hn, x, hx, hxid, before, hb, hm, hne⟩ := exists_steps_of_run hr
  refine ⟨w, hw, fun hex => ?_, fun ho => hne (ho x hx hxid before hb _ hm)⟩
  obtain ⟨_, _, e, -, -, he, -⟩ := hex t ht hid 3 (by decide) (by omega)
  cases hn.symm.trans he

end TaskWorld

end Choruz
