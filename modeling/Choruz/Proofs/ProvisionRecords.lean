import Choruz.Proofs.Provisioning

/-!
# What a provisioning job keeps of what it made

Results are only appended.  An agent that is known from its recorded steps alone is forgotten by a
write that rebuilds the state from the results, and a skip computed before its lease takes back what
was written since.
-/

namespace Choruz

open Relational

variable {prims : ProvisionPrims} {w w' : ProvisionWorld} {a : ProvisionAction} {job job' : JobRow}

/-- Results only grow, and a generated agent stays one unless it is recorded as reused. -/
structure JobRow.Remembers (job job' : JobRow) : Prop where
  results : job.state.results <+: job'.state.results
  generated : ∀ id ∈ generatedAgentIdsFromJob job, id ∈ generatedAgentIdsFromJob job'
    ∨ id ∈ reusedAgentIdsFromResults job'.state.results

theorem mem_generatedAgentIdsFromJob {id : String} : id ∈ generatedAgentIdsFromJob job ↔
    (id ∈ job.createdAgentIds ∨ id ∈ createdAgentIdsFromResults job.state.results
      ∨ id ∈ agentIdsFromSteps job.state.agentSteps)
    ∧ id ∉ reusedAgentIdsFromResults job.state.results := by
  simp [generatedAgentIdsFromJob]

namespace JobRow.Remembers

theorem refl (job : JobRow) : job.Remembers job where
  results := List.prefix_rfl
  generated _ hid := .inl hid

theorem trans {job'' : JobRow} (h : job.Remembers job') (h' : job'.Remembers job'') :
    job.Remembers job'' where
  results := h.results.trans h'.results
  generated id hid := by
    rcases h.generated id hid with hid | hid
    · exact h'.generated id hid
    · exact .inr ((h'.results.sublist.filterMap _).subset hid)

theorem of_known (hr : job.state.results <+: job'.state.results)
    (hi : job.createdAgentIds ⊆ createdAgentIdsFromResults job.state.results)
    (hs : ∀ id ∈ agentIdsFromSteps job.state.agentSteps,
      id ∈ createdAgentIdsFromResults job'.state.results
        ∨ id ∈ agentIdsFromSteps job'.state.agentSteps) : job.Remembers job' where
  results := hr
  generated id hid := by
    by_cases hre : id ∈ reusedAgentIdsFromResults job'.state.results
    · exact .inr hre
    refine .inl (mem_generatedAgentIdsFromJob.2 ⟨?_, hre⟩)
    have hc := ProvisionWorld.createdAgentIds_mono hr
    rcases (mem_generatedAgentIdsFromJob.1 hid).1 with hid | hid | hid
    · exact .inr (.inl (hc (hi hid)))
    · exact .inr (.inl (hc hid))
    · exact .inr (hs id hid)

theorem of_state (hs : job'.state = job.state)
    (hi : job'.createdAgentIds = job.createdAgentIds) : job.Remembers job' where
  results := hs ▸ List.prefix_rfl
  generated id hid := by
    refine .inl (mem_generatedAgentIdsFromJob.2 ?_)
    rw [hs, hi]
    exact mem_generatedAgentIdsFromJob.1 hid

end JobRow.Remembers

namespace ProvisionWorld

theorem created_of_stepsSettled {state : StepState} (h : stepsSettled state) {id : String}
    (hid : id ∈ agentIdsFromSteps state.agentSteps) :
    id ∈ createdAgentIdsFromResults state.results := by
  obtain ⟨record, hr, hid'⟩ := mem_filterMap.1 hid
  obtain ⟨agent, hag, rfl⟩ := map_eq_some_iff.1 hid'
  have ha := all_eq_true.1 h record hr
  rw [hag, all_some, contains_iff_mem] at ha
  exact mem_filterMap.2 ⟨_, ha, rfl⟩

theorem JobInv.remembers_written {i issued : ℕ} {p : JobProcess} {token : String}
    {u : JobUpdate} (h : JobInv w) (hp : w.processes[i]? = some p)
    (hu : w.pendingWrite p = some (token, u))
    (hj : w.job.updateJobAfterLease token u issued = some job)
    (hk : keeps w (.write i issued)) : w.job.Remembers job := by
  obtain ⟨hl, rfl⟩ := JobRow.updateJobAfterLease_eq_some hj
  rcases h.extends_of_pendingWrite hp hu hl (keepsRecords_of_keeps hp hu hl hk)
    with ⟨_, he | ⟨he, hset⟩⟩
  · refine .of_known (results_grow he) h.ids fun id hid => .inr ?_
    show id ∈ agentIdsFromSteps (u.state.getD w.job.state).agentSteps
    cases hs : u.state with
    | none => exact hid
    | some s =>
      rw [Option.getD_some, he.steps s hs]
      exact hid
  · refine .of_known (results_grow he) h.ids fun id hid => .inl ?_
    exact createdAgentIds_mono (results_grow he) (created_of_stepsSettled hset hid)

/-- Recording a step replaces no record of another agent: the holder records a principal only
where there is none, and other steps have no agent. -/
theorem JobInv.remembers_recorded {i issued : ℕ} {r : JobRun} {role : RolePlan}
    {agent : String × String} {step : AgentStep} {rest : List AgentStep} (h : JobInv w)
    (hp : w.processes[i]? = some (.recording r role agent step rest))
    (hj : w.recorded? r role agent step issued = some job) :
    w.job.Remembers job := by
  obtain ⟨hl, rfl⟩ := JobRow.updateJobAfterLease_eq_some hj
  have hn : step = .createPrincipal → ∀ rec ∈ w.job.state.agentSteps,
      rec.slot = role.slotId → rec.step ≠ .createPrincipal := h.fresh i _ r.token hp rfl hl
  refine .of_known List.prefix_rfl h.ids fun id hid => .inr ?_
  obtain ⟨rec, hr, ha⟩ := mem_filterMap.1 hid
  refine mem_filterMap.2 ⟨rec, mem_append_left _ (mem_filter.2 ⟨hr, ?_⟩), ha⟩
  obtain ⟨known, hk, -⟩ := map_eq_some_iff.1 ha
  have hpr : rec.step = .createPrincipal := by
    by_contra ho
    rw [h.steps rec hr ho] at hk
    cases hk
  simp
  by_cases hs : rec.slot = role.slotId
  · refine .inr fun heq => ?_
    exact hn (heq.symm.trans hpr) rec hr hs hpr
  · exact .inl hs

theorem JobInv.remembers (h : JobInv w) (hk : keeps w a)
    (hs : step prims w a = some w') : w.job.Remembers w'.job := by
  cases change_of_step hs with
  | lease _ _ hj =>
    unfold JobRow.acquireLease at hj
    split_ifs at hj
    cases hj
    exact .of_state rfl rfl
  | @call i r task effect ok id =>
    show w.job.Remembers (if effect then w.carryOut task id else w).job
    rw [(carryOut_frame w task id effect).1]
    exact .refl _
  | @createAgent i r role name webhook effect =>
    cases effect <;> exact .refl _
  | recorded hp _ hj => exact h.remembers_recorded hp hj
  | written hp hu _ hj => exact h.remembers_written hp hu hj hk
  | canceled _ hj =>
    cases cancelJob_row hj
    exact .of_state rfl rfl
  | @released i token =>
    obtain ⟨hst, hi, -⟩ := releaseLease_row w.job token
    exact .of_state hst hi
  | retried _ hj =>
    cases prepareRetry_row hj
    exact .of_state rfl rfl
  | spawn | skip | begin | validated | stepped | unrecorded | cleanup | unwritten | uncanceled
  | unretried | aborted | crashed | otherAgent | pass => exact .refl _

/-- In a run whose writes keep the recorded steps until they are settled and whose skips are
computed from the row as it is, the job forgets no result and no agent. -/
theorem job_remembers {companyId : String} {plan : LaunchPlan} {agents : List CompanyAgent}
    {now : ℕ} (hr : Steps (restrict (step prims) fun w a => keeps w a)
      (inserted companyId plan agents now) w)
    (hrun : Steps (restrict (step prims) fun w a => keeps w a) w w') :
    w.job.state.results <+: w'.job.state.results
      ∧ ∀ id ∈ generatedAgentIdsFromJob w.job, id ∈ generatedAgentIdsFromJob w'.job
        ∨ id ∈ reusedAgentIdsFromResults w'.job.state.results := by
  have hi : JobInv w := hr.keeps JobInv.next (.inserted companyId plan agents now)
  have he : JobInv w' ∧ w.job.Remembers w'.job := by
    refine hrun.keeps (I := fun v => JobInv v ∧ w.job.Remembers v.job)
      (fun ⟨hs, hre⟩ hk hst => ?_) ⟨hi, .refl _⟩
    exact ⟨hs.next hk hst, hre.trans (hs.remembers hk hst)⟩
  exact ⟨he.2.results, he.2.generated⟩

section Runs

def plainNames : ProvisionPrims := ⟨id⟩

def oneRole : ProvisionWorld :=
  inserted "acme" ⟨"team", [⟨"dev", .create "Dev" false⟩], ["dev"]⟩ [] 0

def untilRecorded : List ProvisionAction :=
  [.runJob 10, .takeLease 0 "t" 100, .begin 0, .validated 0 [] [], .write 0 0, .begin 0,
    .createAgent 0 true true "a", .record 0 0]

def untilProvisioned (i left : ℕ) : List ProvisionAction :=
  (List.replicate left [.agentStep i true, .record i 0]).flatten ++ [.agentStep i true, .write i 0]

def untilFailed : List ProvisionAction := [.agentStep 0 false, .write 0 0, .release 0]

end Runs

theorem job_remembers_provisioned : ∃ w w',
    Steps (restrict (step plainNames) fun w a => keeps w a) oneRole w
      ∧ Steps (restrict (step plainNames) fun w a => keeps w a) w w'
      ∧ w.job.state.results = [] ∧ generatedAgentIdsFromJob w.job = ["a"]
      ∧ w'.job.state.results = [.createdAgent "dev" "a" "Dev"]
      ∧ w.job.state.results <+: w'.job.state.results
      ∧ ∀ id ∈ generatedAgentIdsFromJob w.job, id ∈ generatedAgentIdsFromJob w'.job
        ∨ id ∈ reusedAgentIdsFromResults w'.job.state.results := by
  have hrun : ((run (restrict (step plainNames) fun w a => keeps w a) oneRole
      untilRecorded).any fun w => w.job.state.results = [] ∧ generatedAgentIdsFromJob w.job = ["a"]
        ∧ ((run (restrict (step plainNames) fun w a => keeps w a) w
          (untilProvisioned 0 8)).any fun w' =>
            w'.job.state.results = [.createdAgent "dev" "a" "Dev"])) := by
    decide +kernel
  obtain ⟨w, hw, hr, hk, hm⟩ := exists_steps_of_run hrun
  obtain ⟨w', hw', hc⟩ := exists_steps_of_run hm
  exact ⟨w, w', hw, hw', hr, hk, hc, job_remembers hw hw'⟩

/-- After the failure the plan is edited, and the validation drops the recorded steps: the agent is
forgotten.  A skip that was asked for before a retry takes the retry's results back. -/
theorem edited_plan_forgets_agent : ∃ w,
    Steps (step plainNames) oneRole w ∧ generatedAgentIdsFromJob w.job = ["a"]
      ∧ (∃ w', Steps (step plainNames) w w' ∧ "a" ∉ generatedAgentIdsFromJob w'.job
        ∧ "a" ∉ reusedAgentIdsFromResults w'.job.state.results)
      ∧ ∃ v v', Steps (step plainNames) w v ∧ Steps (step plainNames) v v'
        ∧ ¬ v.job.state.results <+: v'.job.state.results := by
  have hr : ((run (step plainNames) oneRole (untilRecorded ++ untilFailed)).any fun w =>
      generatedAgentIdsFromJob w.job = ["a"]
        ∧ ((run (step plainNames) w [.retryJob .editPlan none, .prepareRetry 1, .runJob 10,
            .takeLease 2 "u" 100, .begin 2, .validated 2 [] [], .write 2 0]).any fun w' =>
          "a" ∉ generatedAgentIdsFromJob w'.job
            ∧ "a" ∉ reusedAgentIdsFromResults w'.job.state.results)
        ∧ ((run (step plainNames) w ([.retryJob .skipOptionalRole none,
            .retryJob .retryAgentCreation none, .prepareRetry 2, .runJob 1, .takeLease 3 "u" 100,
            .begin 3] ++ untilProvisioned 3 7 ++ [.release 3])).any fun v =>
          ((run (step plainNames) v [.takeLease 1 "v" 100, .write 1 0]).any fun v' =>
            ¬ v.job.state.results <+: v'.job.state.results) = true)) := by
    decide +kernel
  obtain ⟨w, hw, hk, he, hs⟩ := exists_steps_of_run hr
  obtain ⟨v, hv, hst⟩ := exists_steps_of_run hs
  obtain ⟨v', hv', hl⟩ := exists_steps_of_run hst
  exact ⟨w, hw, hk, exists_steps_of_run he, v, v', hv, hv', hl⟩

end ProvisionWorld

end Choruz
