import Choruz.Proofs.ProvisionRecords

/-!
# Whom cleanup disables

The agents that a job has recorded are its own.  Cleanup also takes every agent of the company that
has a planned name and is not older than the job, whoever made it.
-/

namespace Choruz

open Relational JobRow

variable {prims : ProvisionPrims} {w w' : ProvisionWorld} {a : ProvisionAction}
  {made made' : String → Prop} {job : JobRow} {u : JobUpdate} {p : JobProcess}
  {steps : List AgentStepRecord} {results : List StepResult} {id : String}

structure JobRow.Knows (made : String → Prop) (job : JobRow) : Prop where
  ids : ∀ id ∈ job.createdAgentIds, made id
  results : ∀ id ∈ createdAgentIdsFromResults job.state.results, made id
  steps : ∀ id ∈ agentIdsFromSteps job.state.agentSteps, made id

theorem JobRow.Knows.mono (h : job.Knows made) (hm : ∀ id, made id → made' id) : job.Knows made' :=
  ⟨fun id hid => hm id (h.ids id hid), fun id hid => hm id (h.results id hid),
    fun id hid => hm id (h.steps id hid)⟩

theorem JobRow.Knows.of_state {job' : JobRow} (h : job.Knows made) (hs : job'.state = job.state)
    (hi : job'.createdAgentIds = job.createdAgentIds) : job'.Knows made :=
  ⟨by rw [hi]; exact h.ids, by rw [hs]; exact h.results, by rw [hs]; exact h.steps⟩

theorem JobUpdate.Extends.created
    {agents : List String} {s : StepState} (h : u.Extends results steps agents)
    (hs : u.state = some s) (hid : id ∈ createdAgentIdsFromResults s.results) :
    id ∈ createdAgentIdsFromResults results ∨ id ∈ agents := by
  obtain ⟨more, hm, -, ha⟩ := h.results s hs
  rw [hm, createdAgentIdsFromResults, List.filterMap_append, mem_append] at hid
  exact hid.imp_right fun hn => ha hn

theorem JobRow.Knows.apply
    {agents : List String} (h : job.Knows made) (he : u.Extends results steps agents)
    (hr : ∀ id ∈ createdAgentIdsFromResults results, made id)
    (hsts : ∀ id ∈ agentIdsFromSteps steps, made id) (ha : ∀ id ∈ agents, made id) :
    (job.apply u).Knows made := by
  have hn : ∀ s, u.state = some s → ∀ id ∈ createdAgentIdsFromResults s.results, made id :=
    fun s hs id hid => (he.created hs hid).elim (hr id) (ha id)
  refine ⟨fun id hid => ?_, fun id hid => ?_, fun id hid => ?_⟩
  · replace hid : id ∈ u.createdAgentIds.getD job.createdAgentIds := hid
    cases hi : u.createdAgentIds with
    | none =>
      rw [hi] at hid
      exact h.ids id hid
    | some ids =>
      obtain ⟨s, hs, hsub⟩ := he.ids ids hi
      rw [hi] at hid
      exact hn s hs id (hsub hid)
  · replace hid : id ∈ createdAgentIdsFromResults (u.state.getD job.state).results := hid
    cases hs : u.state with
    | none =>
      rw [hs] at hid
      exact h.results id hid
    | some s =>
      rw [hs] at hid
      exact hn s hs id hid
  · replace hid : id ∈ agentIdsFromSteps (u.state.getD job.state).agentSteps := hid
    cases hs : u.state with
    | none =>
      rw [hs] at hid
      exact h.steps id hid
    | some s =>
      rw [hs, Option.getD_some, he.steps s hs] at hid
      exact hsts id hid

def JobProcess.Knows (made : String → Prop) : JobProcess → Prop
  | .ready r | .calling r _ | .cleaning r _ _ => r.job.Knows made
  | .recording _ _ agent _ _ | .stepping _ _ agent _ => made agent.1
  | .roleDone _ result =>
    result.group? = none ∧ ∀ id, result.createdAgentId? = some id → made id
  | .writing _ u | .cleaned _ u _ => ∃ results, u.Extends results [] []
      ∧ ∀ id ∈ createdAgentIdsFromResults results, made id
  | .skipping job skip _ | .skipLeased job _ skip _ => job.Knows made
      ∧ skip.group? = none ∧ skip.createdAgentId? = none
  | _ => True

theorem JobProcess.Knows.mono (h : p.Knows made) (hm : ∀ id, made id → made' id) : p.Knows made' := by
  cases p with
  | ready | calling | cleaning => exact JobRow.Knows.mono h hm
  | recording | stepping => exact hm _ h
  | roleDone => exact ⟨h.1, fun id hid => hm id (h.2 id hid)⟩
  | writing | cleaned =>
    obtain ⟨results, he, hr⟩ := h
    exact ⟨results, he, fun id hid => hm id (hr id hid)⟩
  | skipping | skipLeased => exact ⟨h.1.mono hm, h.2⟩
  | _ => trivial

namespace ProvisionWorld

/-- There is such an agent, and this job has created it. -/
def MadeByJob (w : ProvisionWorld) (id : String) : Prop :=
  (∃ b ∈ w.agents, b.id = id) ∧ ∀ b ∈ w.agents, b.id = id → b.madeFor.isSome

/-- All that is recorded as created was made by the job, and so was all that was disabled. -/
structure MadeInv (w : ProvisionWorld) : Prop where
  row : w.job.Knows w.MadeByJob
  procs : ∀ (i : ℕ) (p : JobProcess), w.processes[i]? = some p → p.Knows w.MadeByJob
  same : ∀ b ∈ w.agents, ∀ c ∈ w.agents, b.id = c.id → b.madeFor.isSome = c.madeFor.isSome
  disabled : ∀ ids ∈ w.disabled, ∀ id ∈ ids, w.MadeByJob id

variable {i : ℕ} {b : CompanyAgent} {agents : List CompanyAgent} {r : JobRun} {ids : List String}
  {p' : JobProcess} {token : String}

theorem MadeInv.of_set (h : MadeInv w) (hp : w'.processes = w.processes.set i p')
    (hm : ∀ id, w.MadeByJob id → w'.MadeByJob id)
    (hs : ∀ b ∈ w'.agents, ∀ c ∈ w'.agents, b.id = c.id → b.madeFor.isSome = c.madeFor.isSome)
    (hr : w'.job.Knows w'.MadeByJob) (hp' : p'.Knows w'.MadeByJob)
    (hd : ∀ ids ∈ w'.disabled, ids ∈ w.disabled ∨ ∀ id ∈ ids, w'.MadeByJob id) : MadeInv w' where
  row := hr
  procs j q hq := by
    rw [hp] at hq
    rcases getElem?_set_cases hq with ⟨-, rfl⟩ | ⟨-, hq⟩
    · exact hp'
    · exact (h.procs j q hq).mono hm
  same := hs
  disabled ids hi id hid := by
    rcases hd ids hi with ho | hn
    · exact hm id (h.disabled ids ho id hid)
    · exact hn id hid

theorem MadeInv.of_move (h : MadeInv w)
    (hp : w'.processes = w.processes.set i p') (ha : w'.agents = w.agents)
    (hd : w'.disabled = w.disabled) (hr : w'.job.Knows w.MadeByJob)
    (hp' : p'.Knows w.MadeByJob) : MadeInv w' := by
  have hm : w'.MadeByJob = w.MadeByJob := by
    unfold MadeByJob
    rw [ha]
  refine h.of_set hp ?_ ?_ ?_ ?_ ?_
  · exact fun id hid => hm ▸ hid
  · rw [ha]
    exact h.same
  · exact hm ▸ hr
  · exact hm ▸ hp'
  · rw [hd]
    exact fun ids hi => .inl hi

theorem madeByJob_append (hid : ∀ c ∈ w.agents, c.id ≠ b.id)
    (h : w.MadeByJob id) (ha : w'.agents = w.agents ++ [b]) : w'.MadeByJob id := by
  obtain ⟨⟨c, hc, hcid⟩, hall⟩ := h
  unfold MadeByJob
  rw [ha]
  refine ⟨⟨c, mem_append_left _ hc, hcid⟩, forall_mem_snoc hall fun hd => ?_⟩
  exact absurd (hcid.trans hd.symm) (hid c hc)

theorem same_append (h : MadeInv w) (hid : ∀ c ∈ w.agents, c.id ≠ b.id) :
    ∀ c ∈ w.agents ++ [b], ∀ d ∈ w.agents ++ [b], c.id = d.id →
      c.madeFor.isSome = d.madeFor.isSome := by
  intro c hc d hd heq
  rcases mem_append.1 hc with hc | hc <;> rcases mem_append.1 hd with hd | hd
  · exact h.same c hc d hd heq
  · cases mem_singleton.1 hd
    exact absurd heq (hid c hc)
  · cases mem_singleton.1 hc
    exact absurd heq.symm (hid d hd)
  · cases mem_singleton.1 hc
    cases mem_singleton.1 hd
    rfl

theorem mem_disableAgents
    (h : b ∈ disableAgents agents ids) : ∃ c ∈ agents, c.id = b.id ∧ c.madeFor = b.madeFor := by
  obtain ⟨c, hc, rfl⟩ := mem_map.1 h
  refine ⟨c, hc, ?_⟩
  split_ifs <;> exact ⟨rfl, rfl⟩

theorem madeByJob_disableAgents
    (ha : w'.agents = disableAgents w.agents ids) (h : w.MadeByJob id) : w'.MadeByJob id := by
  obtain ⟨⟨c, hc, hcid⟩, hall⟩ := h
  unfold MadeByJob
  rw [ha]
  refine ⟨⟨_, mem_map_of_mem hc, ?_⟩, fun b hb hbid => ?_⟩
  · split_ifs <;> exact hcid
  · obtain ⟨d, hd, hdid, hm⟩ := mem_disableAgents hb
    rw [← hm]
    exact hall d hd (hdid.trans hbid)

/-- Whoever cleanup would take for the job's own by its name was made by the job and is not reused. -/
def candidatesOwn (prims : ProvisionPrims) (w : ProvisionWorld) (job : JobRow) : Bool :=
  w.agents.all fun b => !isCleanupCandidate prims job b
    || (b.madeFor.isSome && !(reusedAgentIdsFromResults job.state.results).contains b.id)

/-- A cleanup that disables agents finds only the job's own. -/
def ownCandidates (prims : ProvisionPrims) (w : ProvisionWorld) : ProvisionAction → Bool
  | .cleanup i _ =>
    match w.processes[i]? with
    | some (.cleaning r _ softDelete) => !softDelete || w.candidatesOwn prims r.job
    | _ => true
  | _ => true

section

variable (h : MadeInv w)
include h

theorem MadeInv.generated_iff {cancel softDelete : Bool}
    (hp : w.processes[i]? = some (.cleaning r cancel softDelete)) :
    w.candidatesOwn prims r.job ↔ ∀ id ∈ generatedAgentIdsForCleanup prims r.job w.agents,
      w.MadeByJob id ∧ id ∉ reusedAgentIdsFromResults r.job.state.results := by
  have hk : r.job.Knows w.MadeByJob := h.procs i _ hp
  constructor
  · intro hown id hid
    rcases mem_append.1 (List.mem_dedup.1 hid) with hid | hid
    · obtain ⟨hid | hid | hid, hr⟩ := mem_generatedAgentIdsFromJob.1 hid
      · exact ⟨hk.ids id hid, hr⟩
      · exact ⟨hk.results id hid, hr⟩
      · exact ⟨hk.steps id hid, hr⟩
    · obtain ⟨b, hb, rfl⟩ := mem_map.1 hid
      obtain ⟨hb, hca⟩ := mem_filter.1 hb
      have ho := all_eq_true.1 hown b hb
      simp [hca] at ho
      refine ⟨⟨⟨b, hb, rfl⟩, fun c hc hcid => ?_⟩, ho.2⟩
      rw [h.same c hc b hb hcid]
      exact ho.1
  · refine fun hg => all_eq_true.2 fun b hb => ?_
    by_cases hca : isCleanupCandidate prims r.job b
    · obtain ⟨hm, hr⟩ := hg b.id (List.mem_dedup.2
        (mem_append_right _ (mem_map_of_mem (mem_filter.2 ⟨hb, hca⟩))))
      simp [hm.2 b hb rfl, hr]
    · simp [hca]

theorem MadeInv.spawn (hp : p.Knows w.MadeByJob) : MadeInv (w.addProcess p) where
  row := h.row
  procs j q hq := by
    rcases getElem?_snoc_cases hq with hq | rfl
    · exact h.procs j q hq
    · exact hp
  same := h.same
  disabled := h.disabled

theorem MadeInv.createAgent {role : RolePlan} {name id : String}
    {webhook effect ok : Bool} (hok : ok → effect) (hid : ∀ b ∈ w.agents, b.id ≠ id) :
    MadeInv ((if effect then { w with
        agents := w.agents ++ [⟨id, name, w.job.companyId, w.now, false, some role.slotId⟩] }
      else w).setProcess i
        (if ok then .recording r role (id, name) .createPrincipal (laterSteps false webhook)
        else .roleFailed r role)) := by
  cases effect with
  | false =>
    cases ok with
    | false => exact h.of_move rfl rfl rfl h.row trivial
    | true => cases hok rfl
  | true =>
    have hm : ∀ other, w.MadeByJob other → MadeByJob { w with
        agents := w.agents ++ [⟨id, name, w.job.companyId, w.now, false, some role.slotId⟩] }
        other := fun other ho => madeByJob_append hid ho rfl
    refine h.of_set rfl hm (same_append h hid) (h.row.mono hm) ?_ fun ids hi => .inl hi
    cases ok with
    | false => trivial
    | true =>
      exact ⟨⟨_, mem_append_right _ mem_cons_self, rfl⟩,
        forall_mem_snoc (fun b hb hbid => absurd hbid (hid b hb)) fun _ => rfl⟩

theorem MadeInv.begin
    (hp : w.processes[i]? = some (.ready r)) : (w.beginTask r).Knows w.MadeByJob := by
  have hk : r.job.Knows w.MadeByJob := h.procs i _ hp
  rcases beginTask_cases w r with ⟨u, hu, heq⟩ | heq | ⟨task, -, heq⟩
    | ⟨role, result, -, hg, hcrd, heq⟩ | ⟨role, name, webhook, -, -, heq⟩
    | ⟨role, agent, record, webhook, -, hr, ha, heq⟩ | ⟨role, heq⟩
  · rw [heq]
    exact ⟨_, (asksFor_of_nextTask hu).2, hk.results⟩
  · rcases continued_cases r r.job with hc | hc <;> rw [heq, hc]
    · trivial
    · exact hk
  · rw [heq]
    exact hk
  · rw [heq]
    refine ⟨hg, fun id hid => ?_⟩
    cases hcrd.symm.trans hid
  · rw [heq]
    trivial
  · rw [heq]
    refine h.row.steps _ (mem_filterMap.2 ⟨record, mem_of_find?_eq_some hr, ?_⟩)
    rw [ha]
    rfl
  · rw [heq]
    trivial

theorem MadeInv.knows_apply
    (hp : w.processes[i]? = some p) (hu : w.pendingWrite p = some (token, u)) :
    (w.job.apply u).Knows w.MadeByJob := by
  have hk := h.procs i p hp
  have hn : ∀ id ∈ ([] : List String), w.MadeByJob id := fun _ hid => nomatch hid
  cases p with
  | writing | cleaned =>
    cases hu
    obtain ⟨results, he, hr⟩ := hk
    exact h.row.apply he hr hn hn
  | roleDone r result =>
    cases hu
    refine h.row.apply (afterRole_extends hk.1) h.row.results h.row.steps fun id hid => ?_
    exact hk.2 id (mem_toList.1 hid)
  | roleFailed =>
    cases hu
    exact h.row.apply (afterRoleFailure_extends _ _) h.row.results h.row.steps hn
  | skipLeased =>
    cases hu
    exact h.row.apply (afterSkip_extends hk.2) hk.1.results hn hn
  | _ => cases hu

end

theorem knows_afterWrite (hu : w.pendingWrite p = some (token, u)) (hj : job.Knows made) :
    (afterWrite job p).Knows made := by
  cases p with
  | writing r | roleDone r | roleFailed r =>
    show (continued r job).Knows made
    rcases continued_cases r job with hc | hc <;> rw [hc]
    · trivial
    · exact hj
  | skipLeased => trivial
  | cleaned token u cancel => cases cancel <;> trivial
  | _ => cases hu

theorem MadeInv.lease {leaseMs : ℕ} (h : MadeInv w) (hp : w.processes[i]? = some p)
    (hj : w.job.acquireLease token w.now leaseMs = some job) (hp' : leased job token p = some p') :
    MadeInv ({ w with job }.setProcess i p') := by
  unfold acquireLease at hj
  split_ifs at hj
  cases hj
  have hr : JobRow.Knows w.MadeByJob { w.job with
      leaseToken := some token, leaseUntil := w.now + leaseMs } := h.row.of_state rfl rfl
  refine h.of_move rfl rfl rfl hr ?_
  have hk := h.procs i p hp
  cases p <;> cases hp'
  · exact hr
  · exact hr
  · exact hk

theorem MadeInv.recorded {role : RolePlan} {agent : String × String} {step : AgentStep}
    {rest : List AgentStep} {issued : ℕ} (h : MadeInv w)
    (hp : w.processes[i]? = some (.recording r role agent step rest))
    (hj : w.recorded? r role agent step issued = some job) :
    MadeInv ({ w with job }.setProcess i (.stepping r role agent rest)) := by
  obtain ⟨-, rfl⟩ := updateJobAfterLease_eq_some hj
  have ha : w.MadeByJob agent.1 := h.procs _ _ hp
  refine h.of_move rfl rfl rfl ⟨h.row.ids, h.row.results, fun id hid => ?_⟩ ha
  obtain ⟨record, hr, hid⟩ := mem_filterMap.1 hid
  rcases mem_snoc.1 hr with ho | rfl
  · exact h.row.steps id (mem_filterMap.2 ⟨record, mem_of_mem_filter ho, hid⟩)
  split_ifs at hid <;> cases hid
  exact ha

theorem MadeInv.cleanup {cancel softDelete ok : Bool} (h : MadeInv w)
    (hp : w.processes[i]? = some (.cleaning r cancel softDelete))
    (hown : ownCandidates prims w (.cleanup i ok)) : MadeInv (w.cleanedUp i r cancel softDelete ok
      (generatedAgentIdsForCleanup prims r.job w.agents)) := by
  have hk : r.job.Knows w.MadeByJob := h.procs i _ hp
  have hg : softDelete → ∀ id ∈ generatedAgentIdsForCleanup prims r.job w.agents,
      w.MadeByJob id := by
    rintro rfl id hid
    refine ((h.generated_iff hp).1 ?_ id hid).1
    simpa [ownCandidates, hp] using hown
  generalize generatedAgentIdsForCleanup prims r.job w.agents = generated at hg ⊢
  have hm : ∀ id, w.MadeByJob id → MadeByJob { w with
      agents := if ok && softDelete then disableAgents w.agents generated else w.agents } id := by
    intro id hid
    split_ifs
    · exact madeByJob_disableAgents rfl hid
    · exact hid
  refine h.of_set rfl hm ?_ (h.row.mono hm) ?_ ?_
  · intro b hb c hc heq
    dsimp [cleanedUp, setProcess] at hb hc
    split_ifs at hb hc
    · obtain ⟨b', hb', hbid, hbm⟩ := mem_disableAgents hb
      obtain ⟨c', hc', hcid, hcm⟩ := mem_disableAgents hc
      rw [← hbm, ← hcm]
      exact h.same b' hb' c' hc' (hbid.trans (heq.trans hcid.symm))
    · exact h.same b hb c hc heq
  · refine ⟨r.job.state.results, ?_, fun id hid => hm id (hk.results id hid)⟩
    cases cancel
    · exact afterRecoveryCleanup_extends _ ok
    · exact afterCancelCleanup_extends _ softDelete ok
  · intro ids hi
    rcases mem_append.1 hi with ho | hn
    · exact .inl ho
    unfold cleanupCall at hn
    split_ifs at hn with hs
    · rw [mem_singleton.1 hn]
      exact .inr fun id hid => hm id (hg (and_eq_true _ _ ▸ hs).1 id hid)
    · cases hn

theorem MadeInv.next (h : MadeInv w) (ho : ownCandidates prims w a)
    (hs : step prims w a = some w') : MadeInv w' := by
  cases change_of_step hs with
  | spawn hp =>
    obtain ⟨_, rfl⟩ | ⟨_, rfl⟩ | ⟨_, _, rfl⟩ := hp
    all_goals exact h.spawn trivial
  | skip hsk => exact h.spawn ⟨h.row, skipResult?_cases hsk⟩
  | lease hp _ hj hp' => exact h.lease hp hj hp'
  | begin hp => exact h.of_move rfl rfl rfl h.row (h.begin hp)
  | validated names issues hp =>
    exact h.of_move rfl rfl rfl h.row
      ⟨_, afterValidation_extends names issues, (h.procs _ _ hp).results⟩
  | @call i r task effect ok id hp =>
    obtain ⟨hj, hps, ha, hd⟩ := carryOut_frame w task id effect
    refine h.of_move (congrArg (List.set · i _) hps) ha hd ?_
      ⟨_, afterCall_extends task ok id, (h.procs _ _ hp).results⟩
    show (if effect then w.carryOut task id else w).job.Knows w.MadeByJob
    rw [hj]
    exact h.row
  | createAgent _ hok hid => exact h.createAgent hok hid
  | @stepped i ok r role agent rest p hp hp' =>
    have hag : w.MadeByJob agent.1 := h.procs _ _ hp
    obtain rfl | rfl | ⟨step, rest', -, rfl | rfl⟩ := hp'
    · refine h.of_move rfl rfl rfl h.row ⟨rfl, fun id hid => ?_⟩
      cases hid
      exact hag
    · exact h.of_move rfl rfl rfl h.row trivial
    · exact h.of_move rfl rfl rfl h.row hag
    · exact h.of_move rfl rfl rfl h.row hag
  | recorded hp _ hj => exact h.recorded hp hj
  | unrecorded | uncanceled | unretried | crashed => exact h.of_move rfl rfl rfl h.row trivial
  | cleanup hp => exact h.cleanup hp ho
  | written hp hu _ hj =>
    obtain ⟨-, rfl⟩ := updateJobAfterLease_eq_some hj
    have hr := h.knows_apply hp hu
    exact h.of_move rfl rfl rfl hr (knows_afterWrite hu hr)
  | @unwritten i issued p | @aborted i p =>
    refine h.of_move rfl rfl rfl h.row ?_
    rcases aborted_cases p with heq | ⟨_, -, heq⟩
    all_goals
      rw [heq]
      trivial
  | canceled _ hj =>
    cases cancelJob_row hj
    exact h.of_move rfl rfl rfl (h.row.of_state rfl rfl) trivial
  | @released i token next p _ hp' =>
    obtain ⟨hst, hi, -⟩ := releaseLease_row w.job token
    obtain rfl | ⟨_, rfl⟩ := hp'
    all_goals exact h.of_move rfl rfl rfl (h.row.of_state hst hi) trivial
  | retried _ hj =>
    cases prepareRetry_row hj
    exact h.of_move rfl rfl rfl (h.row.of_state rfl rfl) trivial
  | otherAgent hid =>
    have hm : ∀ id, w.MadeByJob id → MadeByJob { w with agents := w.agents ++ [_] } id :=
      fun id hma => madeByJob_append hid hma rfl
    exact ⟨h.row.mono hm, fun j q hq => (h.procs j q hq).mono hm, same_append h hid,
      fun ids hi id hid => hm id (h.disabled ids hi id hid)⟩
  | pass => exact { h with }

/-- Over runs in which every agent that a disabling cleanup finds by its name is the job's own, each
agent of each soft-disable call was created by the job.  That is what it takes for a cleanup to
find only agents that the job has created and not reused. -/
theorem cleanup_disables_own {companyId : String} {plan : LaunchPlan} {now : ℕ}
    (hr : Steps (restrict (step prims) fun w a => ownCandidates prims w a)
      (inserted companyId plan agents now) w) : (∀ ids ∈ w.disabled, ∀ id ∈ ids, w.MadeByJob id)
      ∧ ∀ (i : ℕ) (r : JobRun) (cancel softDelete : Bool),
        w.processes[i]? = some (.cleaning r cancel softDelete) →
        (w.candidatesOwn prims r.job ↔ ∀ id ∈ generatedAgentIdsForCleanup prims r.job w.agents,
          w.MadeByJob id ∧ id ∉ reusedAgentIdsFromResults r.job.state.results) := by
  have hi : MadeInv w := by
    refine hr.keeps MadeInv.next ⟨⟨by simp [inserted],
      by simp [inserted, createdAgentIdsFromResults], by simp [inserted, agentIdsFromSteps]⟩,
      by simp [inserted], fun b hb c hc _ => ?_, by simp [inserted]⟩
    obtain ⟨_, -, rfl⟩ := mem_map.1 hb
    obtain ⟨_, -, rfl⟩ := mem_map.1 hc
    rfl
  exact ⟨hi.disabled, fun i r cancel softDelete hp => hi.generated_iff hp⟩

def untilCleaned : List ProvisionAction :=
  [.cancelJob true, .takeLease 1 "u" 100, .cleanup 1 true]

theorem cleanup_disables_own_canceled : ∃ w,
    Steps (restrict (step plainNames) fun w a => ownCandidates plainNames w a) oneRole w
      ∧ w.disabled = [["a"]] ∧ ∀ ids ∈ w.disabled, ∀ id ∈ ids, w.MadeByJob id := by
  refine exists_run_and (untilRecorded ++ untilFailed ++ untilCleaned) ?_ fun _ hw _ =>
      (cleanup_disables_own hw).1
  decide +kernel

/-- Someone else creates an agent with a planned name after the job: canceling the job disables
it. -/
theorem cleanup_disables_stranger : ∃ w, Steps (step plainNames) oneRole w
    ∧ ∃ ids ∈ w.disabled, ∃ id ∈ ids, ∃ b ∈ w.agents, b.id = id ∧ b.madeFor = none := by
  refine exists_run [.otherAgent ⟨"b", "Dev", "acme", 1, false, none⟩, .cancelJob true,
      .takeLease 0 "t" 100, .cleanup 0 true] ?_
  decide +kernel

end ProvisionWorld

end Choruz
