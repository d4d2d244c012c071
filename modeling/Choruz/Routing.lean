import Choruz.RuntimeHost
import Mathlib.Data.List.Infix

/-!
# The router's plan

Who a conversation event triggers: the explicit targets, the targets of a workflow event, the
coordinator or all agents for an untagged human message, and each agent's own policy, tried in
that order.  What the router reads of members, policies and tasks is its `RoutingInput`.
-/

namespace Choruz

/-- The board statuses of a channel task. -/
inductive ChannelTaskStatus where
  | todo | inProgress | blocked | inReview | done
deriving DecidableEq

def ChannelTaskStatus.asStr : ChannelTaskStatus → String
  | todo => "todo"
  | inProgress => "in_progress"
  | blocked => "blocked"
  | inReview => "in_review"
  | done => "done"

namespace Router

inductive RouterError where
  | store (e : AppError)
  | session (e : SessionError)
  | deserialization (message : String)
  | internal (message : String)
deriving DecidableEq

abbrev RouterResult := Except RouterError

structure ConversationMember where
  (conversationId principalId principalType : String)
  displayName : Option String
  joinedAt : Timestamp
  leftAt : Option Timestamp
deriving DecidableEq

inductive RouteOutcome where
  | triggered | skipped | suppressed

def RouteOutcome.asStr : RouteOutcome → String
  | triggered => "trigger"
  | skipped => "skip"
  | suppressed => "suppressed"

inductive AutoMode where
  | allMessages | mentionedOnly | manual
deriving DecidableEq

def AutoMode.asStr : AutoMode → String
  | allMessages => "all_messages"
  | mentionedOnly => "mentioned_only"
  | manual => "manual"

structure AgentPolicy where
  (agentId conversationId : String)
  autoMode : AutoMode
  mentionAliases : List String

inductive UntaggedHumanMode where
  | mentionedOnly | coordinatorOnly | allAgents
deriving DecidableEq

def UntaggedHumanMode.asStr : UntaggedHumanMode → String
  | mentionedOnly => "mentioned_only"
  | coordinatorOnly => "coordinator_only"
  | allAgents => "all_agents"

structure ConversationRoutingPolicy where
  conversationId : String
  defaultCoordinatorAgentId : Option String
  untaggedHumanMode : UntaggedHumanMode

def ConversationRoutingPolicy.defaultFor (conversationId : String) : ConversationRoutingPolicy where
  conversationId
  defaultCoordinatorAgentId := none
  untaggedHumanMode := .mentionedOnly

structure WorkflowRoutingEvent where
  kind : String
  (taskKey taskId nextRole targetRole : Option String)
  targetPrincipalIds : List String

structure GroupWorkflowTask where
  (id conversationId taskKey : String)
  status : ChannelTaskStatus
  assigneePrincipalId : String
  assigneePrincipalType : Option String

structure GroupWorkflowTaskParticipant where
  (taskId principalId roleKey : String)
  principalType : Option String

structure TriggerResult where
  shouldTrigger : Bool
  reason : String

structure PlannedRoute where
  shouldTrigger : Bool
  reason : String
  policySnapshot : Json

/-- The plan by agent; collecting into a map keeps the last entry of an agent. -/
abbrev Plan := List (String × PlannedRoute)

def Plan.get? (plan : Plan) (agentId : String) : Option PlannedRoute :=
  (plan.reverse.find? fun entry => entry.1 = agentId).map Prod.snd

def Plan.triggers (plan : Plan) (agentId : String) : Bool :=
  (plan.get? agentId).any (·.shouldTrigger)

/-- What the router reads: the members, the policies by agent, and the workflow tasks with their
participants.  A read that may fail answers a `RouterResult`. -/
structure RoutingInput where
  conversationName : String
  members : List ConversationMember
  policies : String → AgentPolicy
  conversationPolicy : ConversationRoutingPolicy
  senderType : RouterResult (Option String)
  findWorkflowTask : Option String → Option String → RouterResult (Option GroupWorkflowTask)
  listWorkflowTaskParticipants : String → RouterResult (List GroupWorkflowTaskParticipant)

def RoutingInput.agentMembers (input : RoutingInput) (conversationId : String) :
    List ConversationMember :=
  input.members.filter fun m =>
    m.conversationId = conversationId && m.principalType = "agent" && m.leftAt.isNone

section Policy

variable (lower : String → String) (policy : AgentPolicy)

variable (event : ConversationEventRow) (member : ConversationMember)

variable (candidates : List String)

def mentionReason : Option String :=
  let content := event.content.getD ""
  if containsMention lower content "all" candidates then some "mentioned via @all"
  else
    match member.displayName.filter fun name => containsMention lower content name candidates with
    | some name => some ("mentioned via @" ++ name)
    | none =>
      if containsMention lower content member.principalId candidates then
        some ("mentioned via @" ++ member.principalId)
      else
        match policy.mentionAliases.find? fun a => containsMention lower content a candidates with
        | some a => some ("mentioned via alias @" ++ a)
        | none => none

def evaluateMention : TriggerResult :=
  match mentionReason lower policy event member candidates with
  | some reason => ⟨true, reason⟩
  | none =>
    if event.metadata.text? "turn_for" = some member.principalId then
      ⟨true, "metadata turn_for matches agent"⟩
    else if event.metadata.text? "request_review_by" = some member.principalId then
      ⟨true, "metadata request_review_by matches agent"⟩
    else ⟨false, "not mentioned (mentioned_only policy)"⟩

def evaluateTriggerWithCandidates : TriggerResult :=
  match policy.autoMode with
  | .allMessages => ⟨true, "all_messages policy"⟩
  | .manual => ⟨false, "manual mode, no auto trigger"⟩
  | .mentionedOnly => evaluateMention lower policy event member candidates

end Policy

/-- `trim().trim_start_matches('@').trim()`. -/
def mentionName (value : String) : String :=
  trim (String.ofList ((trim value).toList.dropWhile (· = '@')))

def pushMentionCandidate (candidates : List String) (value : String) : List String :=
  let candidate := mentionName value
  if candidate = "" ∨ candidate ∈ candidates then candidates else candidates ++ [candidate]

variable (members : List ConversationMember) (policies : String → AgentPolicy)

def mentionCandidates :
    List String :=
  members.foldl (fun candidates m =>
    let candidates := pushMentionCandidate candidates m.principalId
    let candidates := m.displayName.elim candidates (pushMentionCandidate candidates)
    (policies m.principalId).mentionAliases.foldl pushMentionCandidate candidates) ["all"]

/-- A string value, trimmed, unless blank. -/
def optionalString : Json → Option String
  | .str s => if trim s = "" then none else some (trim s)
  | _ => none

def stringList (value : Option Json) : Option (List String) :=
  let items := match value with
    | some (.str raw) => if trim raw = "" then none else some [trim raw]
    | some (.arr items) => some (items.filterMap optionalString)
    | _ => none
  items.filter (· ≠ [])

def parseWorkflowRoutingEvent (metadata : Json) : Option WorkflowRoutingEvent :=
  match metadata.field? "workflow" with
  | some (.obj fields) =>
    let workflow := Json.obj fields
    match (workflow.field? "kind").bind optionalString with
    | none => none
    | some kind => some
        { kind
          taskKey := (workflow.field? "task_key").bind optionalString
          taskId := (workflow.field? "task_id").bind optionalString
          nextRole := (workflow.field? "next_role").bind optionalString
          targetRole := (workflow.field? "target_role").bind optionalString
          targetPrincipalIds := ((stringList (workflow.field? "target_principal_ids")).orElse
            fun _ => stringList (workflow.field? "target_agent_ids")).getD [] }
  | _ => none

def AgentPolicy.toJson (policy : AgentPolicy) : Json :=
  .ofFields [
    ("agent_id", .str policy.agentId),
    ("conversation_id", .str policy.conversationId),
    ("auto_mode", .str policy.autoMode.asStr),
    ("mention_aliases", .arr (policy.mentionAliases.map .str))]

/-- The policy with the fields of `extra` that are neither null nor empty. -/
def policySnapshot (policy : AgentPolicy) (extra : Json) : Json :=
  match extra with
  | .obj fields => fields.foldl (fun snapshot f =>
      if f.2 = .null ∨ f.2 = .str "" then snapshot else snapshot.set f.1 f.2) policy.toJson
  | _ => policy.toJson

def toAsciiLowercase (cs : List Char) : List Char :=
  cs.map fun c => if 'A' ≤ c && c ≤ 'Z' then Char.ofNat (c.toNat + 32) else c

/-- Some token of letters, digits and dashes, five characters or more, has all three. -/
def hasTaskKeyLikeToken (content : List Char) : Bool :=
  (content.splitOnP fun c => !(isAsciiAlphanumeric c || c = '-')).any fun token =>
    5 ≤ token.length && token.contains '-' &&
      token.any (fun c => isAsciiAlphanumeric c && !('0' ≤ c && c ≤ '9')) &&
      token.any fun c => '0' ≤ c && c ≤ '9'

variable (event : ConversationEventRow)

def workflowTextMarkerWithoutMetadata : Option String :=
  if (parseWorkflowRoutingEvent event.metadata).isSome then none
  else
    match event.content with
    | none => none
    | some content =>
      let content := (trim content).toList
      if "[DONE]".toList.isPrefixOf content then some "done_marker"
      else if "[BLOCKED]".toList.isPrefixOf content then some "blocked_marker"
      else if "feedback".toList <:+: toAsciiLowercase content ∧ hasTaskKeyLikeToken content then
        some "feedback_with_task_key"
      else none

def fallbackSnapshotExtra (routingSource : String)
    (extra : List (String × Json)) : Json :=
  let extra := (Json.ofFields extra).set "routing_source" (.str routingSource)
  match workflowTextMarkerWithoutMetadata event with
  | some marker => extra.set "workflow_text_marker" (.str marker)
  | none => extra

def activeAgentIds (senderId : String) : List String :=
  (members.filter (·.principalId ≠ senderId)).map (·.principalId)

def activeAgentIdsFrom (candidateIds : List String) (members : List ConversationMember)
    (senderId : String) : List String :=
  candidateIds.filter (activeAgentIds members senderId).contains

variable (participants : List GroupWorkflowTaskParticipant)

def activeParticipantIdsForRoles (roleKeys : List String) (members : List ConversationMember)
    (senderId : String) :
    List String :=
  (participants.filter fun p =>
    roleKeys.contains p.roleKey && (activeAgentIds members senderId).contains p.principalId).map
      (·.principalId)

variable (policy : ConversationRoutingPolicy)

def activeCoordinatorAgentId (members : List ConversationMember) (event : ConversationEventRow) :
    Option String :=
  match policy.defaultCoordinatorAgentId with
  | none => none
  | some coordinatorId =>
    if coordinatorId = event.senderId then none
    else if members.any (·.principalId = coordinatorId) then some coordinatorId
    else none

def coordinatorFallbackReason (members : List ConversationMember) (event : ConversationEventRow) :
    String :=
  match policy.defaultCoordinatorAgentId with
  | none => "coordinator_not_configured"
  | some coordinatorId =>
    if coordinatorId = event.senderId then "coordinator_is_sender"
    else if !members.any (·.principalId = coordinatorId) then "coordinator_unavailable"
    else "coordinator_available"

def explicitMetadataTargetId : Option String :=
  ((event.metadata.field? "turn_for").orElse
    fun _ => event.metadata.field? "request_review_by").bind optionalString

def applyCanonicalOwnerParticipant (task : GroupWorkflowTask) : List GroupWorkflowTaskParticipant :=
  participants.filter (·.roleKey ≠ "owner") ++
    [{ taskId := task.id
       principalId := task.assigneePrincipalId
       roleKey := "owner"
       principalType := task.assigneePrincipalType }]

def workflowTargetRoles (e : WorkflowRoutingEvent) : List String :=
  match e.targetRole with
  | some role => [role]
  | none =>
    if e.kind = "task.started" then ["coordinator"]
    else if e.kind = "task.ready_for_next_step" then e.nextRole.toList
    else if e.kind ∈ ["task.feedback", "task.cleared", "external_check.failed"] then
      ["owner", "coordinator"]
    else if e.kind ∈ ["task.blocked", "task.idle", "external_check.passed", "human_input_needed"]
    then ["coordinator"]
    else if e.kind = "approval_required" then ["approver", "coordinator"]
    else []

def workflowReason (e : WorkflowRoutingEvent) (hasTargets : Bool) : String :=
  if !hasTargets then "workflow_task_not_found"
  else if e.kind = "task.ready_for_next_step" ∧ e.nextRole.isSome then "workflow_event_to_role"
  else if e.kind ∈ ["task.feedback", "task.cleared", "external_check.failed"] then
    "workflow_event_to_owner"
  else "workflow_event_to_coordinator"

def selectedTargetsPlan (targetIds : List String) (reason : String) (extra : Json) : Plan :=
  members.map fun m =>
    let shouldTrigger := targetIds.contains m.principalId
    let extra := if shouldTrigger then extra.set "target_principal_id" (.str m.principalId)
      else extra
    (m.principalId,
      { shouldTrigger
        reason := if shouldTrigger then reason
          else if !targetIds.isEmpty then reason ++ "_not_targeted"
          else reason
        policySnapshot := policySnapshot (policies m.principalId) extra })

section Plans

variable (lower : String → String) (event : ConversationEventRow)

def policyFallbackPlan (members : List ConversationMember)
    (policies : String → AgentPolicy) (candidates : List String) (extra : Json) : Plan :=
  members.map fun m =>
    let policy := policies m.principalId
    let trigger := evaluateTriggerWithCandidates lower policy event m candidates
    (m.principalId,
      { shouldTrigger := trigger.shouldTrigger
        reason := match extra.text? "coordinator_fallback_reason" with
          | some fallback => fallback ++ ": " ++ trigger.reason
          | none => trigger.reason
        policySnapshot := policySnapshot policy extra })

/-- The agents an event names itself, each judged as if its policy were mentioned-only; `none`
where it names nobody. -/
def explicitTargetPlan (members : List ConversationMember)
    (policies : String → AgentPolicy) (candidates : List String) : Option Plan :=
  let results := members.map fun m =>
    (m, evaluateTriggerWithCandidates lower
      { policies m.principalId with autoMode := .mentionedOnly } event m candidates)
  if !results.any (·.2.shouldTrigger) then
    (explicitMetadataTargetId event).map fun target =>
      selectedTargetsPlan members policies [] "explicit_target_not_found"
        (.ofFields [("routing_source", .str "explicit_target"),
          ("target_principal_id", .str target)])
  else some (results.map fun (m, trigger) =>
    (m.principalId,
      { shouldTrigger := trigger.shouldTrigger
        reason := if trigger.shouldTrigger then trigger.reason else "explicit_target_not_selected"
        policySnapshot := policySnapshot (policies m.principalId)
          (.ofFields [("routing_source", .str "explicit_target"),
            ("target_principal_id",
              .str (if trigger.shouldTrigger then m.principalId else ""))]) }))

structure WorkflowTargets where
  ids : List String
  reason : String
  targetRoles : List String := []
  participantRoles : List String := []

variable (input : RoutingInput)

def taskTargets (members : List ConversationMember) (workflowEvent : WorkflowRoutingEvent)
    (participants : List GroupWorkflowTaskParticipant) : WorkflowTargets :=
  let targetRoles := workflowTargetRoles workflowEvent
  let coordinator := activeCoordinatorAgentId input.conversationPolicy members event
  let ids := activeParticipantIdsForRoles participants targetRoles members event.senderId
    ++ (if targetRoles.contains "coordinator" then coordinator.toList else [])
  let fallback := ids.isEmpty && coordinator.isSome
  { ids := if ids.isEmpty then coordinator.toList else ids
    reason := if fallback then "workflow_event_to_coordinator"
      else workflowReason workflowEvent (!ids.isEmpty)
    targetRoles
    participantRoles := participants.map (·.roleKey) }

def workflowTargets (members : List ConversationMember) (workflowEvent : WorkflowRoutingEvent)
    (task : Option GroupWorkflowTask) : RouterResult WorkflowTargets :=
  let named := activeAgentIdsFrom workflowEvent.targetPrincipalIds members event.senderId
  if !named.isEmpty then .ok { ids := named, reason := "workflow_event_to_target_principal" }
  else
    match task with
    | some task =>
      match input.listWorkflowTaskParticipants task.id with
      | .error e => .error e
      | .ok participants => .ok (taskTargets event input members workflowEvent
          (applyCanonicalOwnerParticipant participants task))
    | none =>
      match activeCoordinatorAgentId input.conversationPolicy members event with
      | some coordinator =>
        .ok { ids := [coordinator], reason := "workflow_task_missing_coordinator_fallback" }
      | none => .ok { ids := [], reason := "workflow_task_not_found" }

def workflowTargetPlan (members : List ConversationMember) (workflowEvent : WorkflowRoutingEvent) :
    RouterResult Plan :=
  match input.findWorkflowTask workflowEvent.taskId workflowEvent.taskKey with
  | .error e => .error e
  | .ok task =>
    match workflowTargets event input members workflowEvent task with
    | .error e => .error e
    | .ok targets =>
      let reason := if targets.ids.isEmpty then "workflow_task_not_found" else targets.reason
      let targetRole := (workflowEvent.targetRole.orElse fun _ => workflowEvent.nextRole).orElse
        fun _ => targets.targetRoles.head?
      .ok (selectedTargetsPlan members input.policies targets.ids reason (.ofFields [
        ("routing_source", .str "workflow_event"),
        ("workflow_kind", .str workflowEvent.kind),
        ("task_key", .ofOption ((task.map (·.taskKey)).orElse fun _ => workflowEvent.taskKey)),
        ("task_id", .ofOption ((task.map (·.id)).orElse fun _ => workflowEvent.taskId)),
        ("task_status", .ofOption (task.map (·.status.asStr))),
        ("assignee_principal_id", .ofOption (task.map (·.assigneePrincipalId))),
        ("target_role", .ofOption targetRole),
        ("participant_roles", .arr (targets.participantRoles.map .str))]))

def untaggedHumanPlan (members : List ConversationMember) (candidates : List String) : Plan :=
  let policy := input.conversationPolicy
  let mode := Json.str policy.untaggedHumanMode.asStr
  match policy.untaggedHumanMode with
  | .coordinatorOnly =>
    match activeCoordinatorAgentId policy members event with
    | some coordinator =>
      selectedTargetsPlan members input.policies [coordinator] "untagged_human_to_coordinator"
        (.ofFields [("routing_source", .str "untagged_human_to_coordinator"),
          ("untagged_human_mode", mode),
          ("default_coordinator_agent_id", .ofOption policy.defaultCoordinatorAgentId)])
    | none =>
      policyFallbackPlan lower event members input.policies candidates
        (.ofFields [("routing_source", .str "coordinator_policy_fallback"),
          ("untagged_human_mode", mode),
          ("coordinator_fallback_reason", .str (coordinatorFallbackReason policy members event)),
          ("default_coordinator_agent_id", .ofOption policy.defaultCoordinatorAgentId)])
  | .allAgents =>
    selectedTargetsPlan members input.policies (activeAgentIds members event.senderId)
      "untagged_human_to_all_agents"
      (.ofFields [("routing_source", .str "untagged_human_to_all_agents"),
        ("untagged_human_mode", mode)])
  | .mentionedOnly =>
    policyFallbackPlan lower event members input.policies candidates
      (fallbackSnapshotExtra event "untagged_human_mentioned_only"
        [("untagged_human_mode", mode)])

def planRoutes : RouterResult Plan :=
  let members := input.agentMembers event.conversationId
  let candidates := mentionCandidates members input.policies
  let isDirect := decide (input.conversationName = "[DM]")
  let fallback := policyFallbackPlan lower event members input.policies candidates
    (fallbackSnapshotExtra event "policy" [])
  match explicitTargetPlan lower event members input.policies candidates with
  | some plan => .ok plan
  | none =>
    if isDirect then .ok fallback
    else
      match parseWorkflowRoutingEvent event.metadata with
      | some workflowEvent => workflowTargetPlan event input members workflowEvent
      | none =>
        match input.senderType with
        | .error e => .error e
        | .ok senderType =>
          if senderType = some "human" then
            .ok (untaggedHumanPlan lower event input members candidates)
          else .ok fallback

end Plans

/-- The tasks, and what the database joins to them. -/
structure TaskData where
  tasks : Relational.Table GroupWorkflowTask.id
  keys : (tasks.rows.map fun t => (t.conversationId, t.taskKey)).Nodup
  workspaceId : String → Option String
  principal : String → Option Principal
  isInternal : String → Bool
  /-- The conversation has the principal as a member that is not removed. -/
  activeMember : String → String → Bool

def queryOpt {α : Type} (label : String) : List α → RouterResult (Option α)
  | [] => .ok none
  | [row] => .ok (some row)
  | _ => .error (.internal (label ++ ": query returned an unexpected number of rows"))

namespace TaskData

variable (d : TaskData) (conversationId : String)

/-- `find_workflow_task` of the in-memory provider. -/
def memoryFindWorkflowTask (taskId taskKey : Option String) : RouterResult (Option GroupWorkflowTask) :=
  let byKey := taskKey.bind fun taskKey => d.tasks.rows.find? fun t =>
    t.conversationId = conversationId && t.taskKey = taskKey
  match taskId.bind fun taskId => d.tasks.rows.find? fun t =>
    t.conversationId = conversationId && t.id = taskId with
  | some t => .ok (if taskKey.all (t.taskKey = ·) then some t else none)
  | none => .ok byKey

/-- The row of a task joined with its assignee; every status of a task is on the board. -/
def joined (t : GroupWorkflowTask) : Option GroupWorkflowTask :=
  match d.workspaceId t.conversationId, d.principal t.assigneePrincipalId with
  | some workspaceId, some assignee =>
    if d.activeMember t.conversationId assignee.id ∧ assignee.workspaceId = workspaceId
        ∧ assignee.disabled = false ∧ assignee.deletedAt = none
        ∧ ¬ (assignee.principalType = .agent ∧ d.isInternal assignee.id) then
      some { t with assigneePrincipalType := some assignee.principalType.asStr }
    else none
  | _, _ => none

/-- `find_workflow_task` of the PostgreSQL provider. -/
def pgFindWorkflowTask (taskId taskKey : Option String) : RouterResult (Option GroupWorkflowTask) :=
  let query (label : String) (p : GroupWorkflowTask → Bool) :=
    queryOpt ("find workflow task by " ++ label)
      ((d.tasks.rows.filter fun t => t.conversationId = conversationId && p t).filterMap d.joined)
  match taskId, taskKey with
  | some taskId, some taskKey => query "id/key" fun t => t.id = taskId && t.taskKey = taskKey
  | some taskId, none => query "id" (·.id = taskId)
  | none, some taskKey => query "key" (·.taskKey = taskKey)
  | none, none => .ok none

end TaskData

end Router

end Choruz
