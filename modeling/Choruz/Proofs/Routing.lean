import Choruz.Routing

/-!
# Who the router triggers

Every planner maps the active agents of the conversation to a decision, so an agent it triggers is
one of them.  `TriggeredBy` lists the ways a plan can trigger an agent; the three rules about the
sender, an explicit target and a manual agent are read off it, with the exact condition.
-/

namespace Choruz

namespace Router

section Maps

variable {members : List ConversationMember} {f : ConversationMember → PlannedRoute}
  {agentId : String}

end Maps

section Targets

variable {members : List ConversationMember} {senderId agentId : String}
  {event : ConversationEventRow}

variable {input : RoutingInput} {workflowEvent : WorkflowRoutingEvent}

end Targets

section Plan

variable (lower : String → String) (event : ConversationEventRow) (input : RoutingInput)

/-- The active agents of the event's conversation. -/
abbrev agents : List ConversationMember := input.agentMembers event.conversationId

abbrev candidates : List String := mentionCandidates (agents event input) input.policies

/-- The text mentions the member. -/
def Mentioned (m : ConversationMember) : Prop :=
  (mentionReason lower (input.policies m.principalId) event m (candidates event input)).isSome

/-- The metadata names the agent, as it stands, to take its turn or to review. -/
def Named (agentId : String) : Prop :=
  event.metadata.text? "turn_for" = some agentId ∨
    event.metadata.text? "request_review_by" = some agentId

instance (agentId : String) : Decidable (Named event agentId) :=
  inferInstanceAs (Decidable (_ ∨ _))

instance (m : ConversationMember) : Decidable (Mentioned lower event input m) :=
  inferInstanceAs (Decidable (_ = true))

/-- The event is a workflow event, and the agent one of its targets. -/
def WorkflowTarget (agentId : String) : Prop :=
  ∃ workflowEvent task targets, parseWorkflowRoutingEvent event.metadata = some workflowEvent ∧
    input.findWorkflowTask workflowEvent.taskId workflowEvent.taskKey = .ok task ∧
    workflowTargets event input (agents event input) workflowEvent task = .ok targets ∧
    agentId ∈ targets.ids

/-- The event itself addresses the member. -/
def Addressed (m : ConversationMember) : Prop :=
  Mentioned lower event input m ∨ Named event m.principalId

instance (m : ConversationMember) : Decidable (Addressed lower event input m) :=
  inferInstanceAs (Decidable (_ ∨ _))

/-- The event addresses no agent and names no target. -/
def Unaddressed : Prop :=
  (∀ m ∈ agents event input, ¬ Addressed lower event input m) ∧
    explicitMetadataTargetId event = none

/-- The agents' own policies decide. -/
def LeftToPolicies : Prop :=
  Unaddressed lower event input ∧ (input.conversationName = "[DM]" ∨
    parseWorkflowRoutingEvent event.metadata = none ∧ ∃ type, input.senderType = .ok type ∧
      (type = some "human" → input.conversationPolicy.untaggedHumanMode = .mentionedOnly ∨
        input.conversationPolicy.untaggedHumanMode = .coordinatorOnly ∧
          activeCoordinatorAgentId input.conversationPolicy (agents event input) event = none))

/-- A human's untagged message goes to all agents. -/
def SentToAll : Prop :=
  Unaddressed lower event input ∧ input.conversationName ≠ "[DM]" ∧
    parseWorkflowRoutingEvent event.metadata = none ∧ input.senderType = .ok (some "human") ∧
    input.conversationPolicy.untaggedHumanMode = .allAgents

/-- The ways a plan triggers a member. -/
inductive TriggeredBy (m : ConversationMember) : Prop where
  | address (h : Addressed lower event input m)
  | workflow (h : WorkflowTarget event input m.principalId)
  | coordinator (h : input.conversationPolicy.defaultCoordinatorAgentId = some m.principalId)
    (hsender : m.principalId ≠ event.senderId)
  | allAgents (h : SentToAll lower event input) (hsender : m.principalId ≠ event.senderId)
  | allMessages (hleft : LeftToPolicies lower event input)
    (h : (input.policies m.principalId).autoMode = .allMessages)

/-- An agent the event names, a target of the workflow event, or the coordinator. -/
def Target (agentId : String) : Prop :=
  Named event agentId ∨ WorkflowTarget event input agentId ∨
    input.conversationPolicy.defaultCoordinatorAgentId = some agentId

/-- A sending agent is not addressed, and does not listen to everything where the policies decide;
of a named active member and the others, that member alone is addressed; and a manual agent that is
mentioned, or in a conversation whose message goes to all, is a target. -/
structure PlainlyAddressed : Prop where
  sender : ∀ m ∈ agents event input, m.principalId = event.senderId →
    ¬ Addressed lower event input m ∧ (LeftToPolicies lower event input →
      (input.policies m.principalId).autoMode ≠ .allMessages)
  target : ∀ target, explicitMetadataTargetId event = some target →
    (∃ m ∈ agents event input, m.principalId = target) →
    target ≠ event.senderId → ∀ m ∈ agents event input,
      Addressed lower event input m ↔ m.principalId = target
  manual : ∀ m ∈ agents event input, (input.policies m.principalId).autoMode = .manual →
    Mentioned lower event input m ∨ SentToAll lower event input ∧ m.principalId ≠ event.senderId →
    Target event input m.principalId

variable {lower event input}

variable {m : ConversationMember} {members : List ConversationMember} {agentId : String}
  {plan : Plan} {policy : AgentPolicy} {extra : Json}

theorem TriggeredBy.target (h : PlainlyAddressed lower event input)
    (hm : m ∈ agents event input) (ht : TriggeredBy lower event input m)
    (hmo : (input.policies m.principalId).autoMode = .manual) :
    Target event input m.principalId := by
  cases ht with
  | address h' => exact h'.elim (fun hme => h.manual m hm hmo (.inl hme)) .inl
  | workflow h => exact .inr (.inl h)
  | coordinator h _ => exact .inr (.inr h)
  | allAgents h' hne => exact h.manual m hm hmo (.inr ⟨h', hne⟩)
  | allMessages _ h' => rw [hmo] at h'; cases h'

section

variable (hp : planRoutes lower event input = .ok plan)
include hp

end

end Plan

namespace TaskData

variable {d : TaskData}

theorem queryOpt_eq {α : Type} {label : String} :
    ∀ {rows : List α}, rows.length ≤ 1 → queryOpt label rows = .ok rows.head?
  | [], _ => rfl
  | [_], _ => rfl
  | _ :: _ :: _, h => by simp at h

theorem eq_of_ids {id : String} {a b : GroupWorkflowTask} (ha : a ∈ d.tasks) (hb : b ∈ d.tasks)
    (hai : a.id = id) (hbi : b.id = id) : a = b :=
  Relational.eq_of_key_eq ha hb (hai.trans hbi.symm)

theorem find?_id {conversationId : String} {t : GroupWorkflowTask} (ht : t ∈ d.tasks)
    (hc : t.conversationId = conversationId) :
    d.tasks.rows.find? (fun u => u.conversationId = conversationId && u.id = t.id) = some t := by
  rcases hf : d.tasks.rows.find? _ with - | b
  · simpa [hc] using List.find?_eq_none.1 hf t ht
  · have hb := List.find?_some hf
    simp only [Bool.and_eq_true, decide_eq_true_eq] at hb
    rw [eq_of_ids (List.mem_of_find?_eq_some hf) ht hb.2 rfl]

section

variable (hs : ∀ t ∈ d.tasks, d.joined t = some t)
include hs

/-- The condition picks at most one task, and the join keeps it. -/
theorem queryOpt_joined {label : String} {p : GroupWorkflowTask → Bool}
    (hu : ∀ a ∈ d.tasks, ∀ b ∈ d.tasks, p a → p b → a = b) :
    queryOpt label ((d.tasks.rows.filter p).filterMap d.joined) = .ok (d.tasks.rows.find? p) := by
  have hr : (d.tasks.rows.filter p).filterMap d.joined = d.tasks.rows.filter p := by
    rw [List.filterMap_congr (g := some) fun t ht => hs t (List.mem_filter.1 ht).1,
      List.filterMap_some]
  rw [hr, queryOpt_eq (Relational.Table.filter_length_le_one hu), List.head?_filter]

theorem pgFindWorkflowTask_both (conversationId id k : String) :
    d.pgFindWorkflowTask conversationId (some id) (some k) = .ok (d.tasks.rows.find? fun t =>
        t.conversationId = conversationId && (t.id = id && t.taskKey = k)) := by
  refine queryOpt_joined hs fun a ha b hb hp hpb => ?_
  simp only [Bool.and_eq_true, decide_eq_true_eq] at hp hpb
  exact eq_of_ids ha hb hp.2.1 hpb.2.1

theorem lookups_agree_of_known {conversationId : String} (k : String) {t : GroupWorkflowTask}
    (ht : t ∈ d.tasks) (hc : t.conversationId = conversationId) :
    d.memoryFindWorkflowTask conversationId (some t.id) (some k) =
      d.pgFindWorkflowTask conversationId (some t.id) (some k) := by
  rw [pgFindWorkflowTask_both hs, memoryFindWorkflowTask]
  simp only [Option.bind_some, find?_id ht hc, Option.all_some, decide_eq_true_eq]
  rcases hf : d.tasks.rows.find? _ with - | b
  · have hn := List.find?_eq_none.1 hf t ht
    simp only [hc, decide_true, Bool.true_and, decide_eq_true_eq] at hn
    rw [if_neg hn]
  · have hb := List.find?_some hf
    simp only [Bool.and_eq_true, decide_eq_true_eq] at hb
    obtain rfl := eq_of_ids (List.mem_of_find?_eq_some hf) ht hb.2.1 rfl
    rw [if_pos hb.2.2]

/-- With an id that no task of the conversation has, only the test double looks at the key. -/
theorem lookups_agree_iff_of_unknown {conversationId id : String} (k : String)
    (hn : ∀ t ∈ d.tasks, t.conversationId = conversationId → t.id ≠ id) :
    d.memoryFindWorkflowTask conversationId (some id) (some k) =
        d.pgFindWorkflowTask conversationId (some id) (some k) ↔
      ∀ t ∈ d.tasks, t.conversationId = conversationId → t.taskKey ≠ k := by
  have hid : d.tasks.rows.find? (fun t => t.conversationId = conversationId && t.id = id) =
      none := List.find?_eq_none.2 fun t ht => by simpa using hn t ht
  have hb : d.tasks.rows.find? (fun t => t.conversationId = conversationId &&
      (t.id = id && t.taskKey = k)) = none :=
    List.find?_eq_none.2 fun t ht => by simpa using fun hc hi _ => hn t ht hc hi
  rw [pgFindWorkflowTask_both hs, memoryFindWorkflowTask, hb]
  simp only [Option.bind_some, hid, Except.ok.injEq, List.find?_eq_none]
  simp [Relational.Table.mem_def]

end

/-- The in-memory and the PostgreSQL lookup of a workflow task agree, on tasks with eligible
assignees, exactly unless an id that no task of the conversation has comes with the key of one. -/
theorem task_lookups_agree (hs : ∀ t ∈ d.tasks, d.joined t = some t) (conversationId : String)
    (taskId taskKey : Option String) : d.memoryFindWorkflowTask conversationId taskId taskKey =
        d.pgFindWorkflowTask conversationId taskId taskKey ↔ ∀ id ∈ taskId, ∀ k ∈ taskKey,
        (∃ t ∈ d.tasks, t.conversationId = conversationId ∧ t.id = id) ∨
          ∀ t ∈ d.tasks, t.conversationId = conversationId → t.taskKey ≠ k := by
  rcases taskId with - | id <;> rcases taskKey with - | k
  · exact iff_of_true rfl (by simp)
  · refine iff_of_true (queryOpt_joined hs fun a ha b hb hp hpb => ?_).symm (by simp)
    simp only [Bool.and_eq_true, decide_eq_true_eq] at hp hpb
    exact List.inj_on_of_nodup_map d.keys ha hb (by rw [hp.1, hpb.1, hp.2, hpb.2])
  · refine iff_of_true (.trans ?_ (queryOpt_joined hs fun a ha b hb hp hpb => ?_).symm) (by simp)
    · unfold memoryFindWorkflowTask
      dsimp only [Option.bind_some]
      split <;> next ht => simp [ht]
    · simp only [Bool.and_eq_true, decide_eq_true_eq] at hp hpb
      exact eq_of_ids ha hb hp.2 hpb.2
  · simp only [Option.mem_some_iff, forall_eq']
    by_cases hid : ∃ t ∈ d.tasks, t.conversationId = conversationId ∧ t.id = id
    · obtain ⟨t, ht, hc, rfl⟩ := hid
      exact iff_of_true (lookups_agree_of_known hs k ht hc) (.inl ⟨t, ht, hc, rfl⟩)
    · rw [or_iff_right hid]
      push Not at hid
      exact lookups_agree_iff_of_unknown hs k hid

def oneTask (t : GroupWorkflowTask) : TaskData where
  tasks := ⟨[t], List.nodup_singleton _⟩
  keys := List.nodup_singleton _
  workspaceId _ := some "acme"
  principal id := some ⟨id, "acme", "Ann", .human, false, none⟩
  isInternal _ := false
  activeMember _ _ := true

def planTask : GroupWorkflowTask := ⟨"t1", "general", "plan", .todo, "ann", some "human"⟩

theorem task_lookups_agree_plan :
    (oneTask planTask).memoryFindWorkflowTask "general" (some "t1") (some "plan") =
        .ok (some planTask)
      ∧ (oneTask planTask).memoryFindWorkflowTask "general" (some "t1") (some "plan") =
        (oneTask planTask).pgFindWorkflowTask "general" (some "t1") (some "plan") :=
  ⟨rfl, (task_lookups_agree (fun t ht => by rw [List.mem_singleton.1 ht]; rfl) "general" _ _).2
    fun _ hid _ _ => .inl ⟨planTask, List.mem_singleton_self _, rfl, Option.some.inj hid⟩⟩

/-- With an unknown id and a known key the test double finds the task of the key and the database
finds none. -/
theorem task_lookups_differ : (oneTask planTask).joined planTask = some planTask
      ∧ (oneTask planTask).memoryFindWorkflowTask "general" (some "t2") (some "plan") =
        .ok (some planTask)
      ∧ (oneTask planTask).pgFindWorkflowTask "general" (some "t2") (some "plan") = .ok none :=
  ⟨rfl, rfl, rfl⟩

end TaskData

end Router

end Choruz
