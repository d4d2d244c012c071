import Choruz.Provisioning

/-!
# What provisioning steps write

Only the process whose token the row has can write to it, and a token is used by one process.  So
the row that a process took with its lease still has the results it had, whenever its write goes
through.
-/

namespace Choruz

open Relational JobRow StepResult

variable {prims : ProvisionPrims} {w w' : ProvisionWorld} {a : ProvisionAction} {job' : JobRow}
  {choice : RetryChoice} {skip : StepResult}

namespace ProvisionWorld

def recorded? (w : ProvisionWorld) (r : JobRun) (role : RolePlan) (agent : String × String)
    (step : AgentStep) (issued : ℕ) : Option JobRow :=
  w.job.updateJobAfterLease r.token (w.job.recordStep ⟨role.slotId, step,
    if step = .createPrincipal then some agent else none⟩) issued

/-- What a cleanup that finds the agents `generated` leaves. -/
abbrev cleanedUp (w : ProvisionWorld) (i : ℕ) (r : JobRun) (cancel softDelete ok : Bool)
    (generated : List String) : ProvisionWorld :=
  { w with
    disabled := w.disabled ++ cleanupCall softDelete generated
    agents := if ok && softDelete then disableAgents w.agents generated else w.agents
    }.setProcess i (.cleaned r.token (if cancel then r.job.afterCancelCleanup generated softDelete ok
      else r.job.afterRecoveryCleanup generated ok) cancel)

/-- What a step may do, by cases. -/
inductive Change (prims : ProvisionPrims) (w : ProvisionWorld) :
    ProvisionAction → ProvisionWorld → Prop
  | spawn {a : ProvisionAction} {p : JobProcess}
    (hp : (∃ steps, p = .runRequested steps) ∨ (∃ next, p = .retrying next)
      ∨ ∃ cancel softDelete, p = .cleanupRequested cancel softDelete) :
    Change prims w a (w.addProcess p)
  | skip {choice slot about skip next} (hskip : w.job.skipResult? choice about = some skip) :
    Change prims w (.retryJob choice slot) (w.addProcess (.skipping w.job skip next))
  | lease {i : ℕ} {p p' token leaseMs job}
    (hp : w.processes[i]? = some p) (hunused : w.unusedToken token)
    (hjob : w.job.acquireLease token w.now leaseMs = some job)
    (hp' : leased job token p = some p') :
    Change prims w (.takeLease i token leaseMs) ({ w with job }.setProcess i p')
  | begin {i : ℕ} {r} (hp : w.processes[i]? = some (.ready r)) :
    Change prims w (.begin i) (w.setProcess i (w.beginTask r))
  | validated {i : ℕ} {r} (names : List (String × String))
    (issues : List ProvisioningIssue) (hp : w.processes[i]? = some (.calling r .validate)) :
    Change prims w (.validated i names issues)
      (w.setProcess i (.writing r (r.job.afterValidation names issues)))
  | call {i : ℕ} {r task effect ok id}
    (hp : w.processes[i]? = some (.calling r task)) (htask : task ≠ .validate)
    (hok : ok = true → effect = true) (hid : id ∉ w.groups) :
    Change prims w (.call i effect ok id) ((if effect then w.carryOut task id else w).setProcess i
        (.writing r (r.job.afterCall task ok id)))
  | createAgent {i : ℕ} {r role name webhook effect ok id}
    (hp : w.processes[i]? = some (.principal r role name webhook))
    (hok : ok = true → effect = true) (hid : ∀ a ∈ w.agents, a.id ≠ id) :
    Change prims w (.createAgent i effect ok id) ((if effect then { w with
          agents := w.agents
            ++ [⟨id, name, w.job.companyId, w.now, false, some role.slotId⟩] } else w).setProcess i
        (if ok then .recording r role (id, name) .createPrincipal (laterSteps false webhook)
        else .roleFailed r role))
  | stepped {i : ℕ} {ok r role agent rest} {p : JobProcess}
    (hp : w.processes[i]? = some (.stepping r role agent rest))
    (hp' : p = .roleDone r (.createdAgent role.slotId agent.1 agent.2) ∨ p = .roleFailed r role
      ∨ ∃ step rest', rest = step :: rest'
        ∧ (p = .stepping r role agent rest' ∨ p = .recording r role agent step rest')) :
    Change prims w (.agentStep i ok) (w.setProcess i p)
  | recorded {i issued : ℕ} {r role agent step rest job}
    (hp : w.processes[i]? = some (.recording r role agent step rest)) (hissued : issued ≤ w.now)
    (hjob : w.recorded? r role agent step issued = some job) :
    Change prims w (.record i issued) ({ w with job }.setProcess i (.stepping r role agent rest))
  | unrecorded {i issued : ℕ} {r role agent step rest}
    (hp : w.processes[i]? = some (.recording r role agent step rest))
    (hjob : w.recorded? r role agent step issued = none) :
    Change prims w (.record i issued) (w.setProcess i (.roleFailed r role))
  | cleanup {i : ℕ} {ok r cancel softDelete}
    (hp : w.processes[i]? = some (.cleaning r cancel softDelete)) :
    Change prims w (.cleanup i ok) (w.cleanedUp i r cancel softDelete ok
      (generatedAgentIdsForCleanup prims r.job w.agents))
  | written {i issued : ℕ} {p token u job}
    (hp : w.processes[i]? = some p) (hu : w.pendingWrite p = some (token, u))
    (hissued : issued ≤ w.now) (hjob : w.job.updateJobAfterLease token u issued = some job) :
    Change prims w (.write i issued) ({ w with job }.setProcess i (afterWrite job p))
  | unwritten {i issued : ℕ} {p token u}
    (hp : w.processes[i]? = some p) (hu : w.pendingWrite p = some (token, u))
    (hjob : w.job.updateJobAfterLease token u issued = none) :
    Change prims w (.write i issued) (w.setProcess i p.aborted)
  | canceled {i : ℕ} {token job}
    (hp : w.processes[i]? = some (.canceling token)) (hjob : w.job.cancelJob token = some job) :
    Change prims w (.storeCancel i) ({ w with job }.setProcess i (.releasing token none))
  | uncanceled {i : ℕ} {token} (hp : w.processes[i]? = some (.canceling token)) :
    Change prims w (.storeCancel i) (w.setProcess i (.releasing token none))
  | released {i : ℕ} {token next} {p : JobProcess}
    (hp : w.processes[i]? = some (.releasing token next))
    (hp' : p = .ended ∨ ∃ status, p = .retrying status) :
    Change prims w (.release i) ({ w with job := w.job.releaseLease token }.setProcess i p)
  | retried {i : ℕ} {next job} (hp : w.processes[i]? = some (.retrying next))
    (hjob : w.job.prepareRetry next w.now = some job) :
    Change prims w (.prepareRetry i) ({ w with job }.setProcess i .ended)
  | unretried {i : ℕ} {next} (hp : w.processes[i]? = some (.retrying next)) :
    Change prims w (.prepareRetry i) (w.setProcess i .ended)
  | aborted {i : ℕ} {p} (hp : w.processes[i]? = some p) :
    Change prims w (.abort i) (w.setProcess i p.aborted)
  | crashed {i : ℕ} {p} (hp : w.processes[i]? = some p) :
    Change prims w (.crash i) (w.setProcess i .ended)
  | otherAgent {agent} (hid : ∀ a ∈ w.agents, a.id ≠ agent.id)
    (hother : agent.madeFor = none) :
    Change prims w (.otherAgent agent) { w with agents := w.agents ++ [agent] }
  | pass (time : ℕ) : Change prims w (.pass time) { w with now := w.now + time }

theorem change_of_requestRetry {slot : Option String} {p : JobProcess}
    (h : requestRetry w.job choice slot = some p) :
    Change prims w (.retryJob choice slot) (w.addProcess p) := by
  unfold requestRetry at h
  split_ifs at h
  split at h
  · cases h
    exact .spawn (.inr (.inr ⟨_, _, rfl⟩))
  rotate_right
  · cases h
    exact .spawn (.inr (.inl ⟨_, rfl⟩))
  all_goals
    obtain ⟨about, -, h⟩ := bind_eq_some_iff.1 h
    obtain ⟨skip, hs, h⟩ := bind_eq_some_iff.1 h
    cases h
    exact .skip hs

theorem change_of_call {i : ℕ} {effect ok : Bool} {id : String}
    (h : step prims w (.call i effect ok id) = some w') :
    Change prims w (.call i effect ok id) w' := by
  simp only [step] at h
  split at h
  next hp =>
    split_ifs at h with hg he
    all_goals
      cases h
      simp only [or_eq_true, and_eq_true, not_or, not_and] at hg
      obtain ⟨⟨ht, hok⟩, hid⟩ := hg
      have hc : Change prims w (.call i effect ok id) _ := .call hp
        (fun heq => ht (by simpa using heq)) (fun h => by simpa using hok h)
        (fun hm => hid (contains_iff_mem.2 hm))
      simpa [he, Bool.false_eq_true] using hc
  · cases h

theorem change_of_createAgent {i : ℕ} {effect ok : Bool} {id : String}
    (h : step prims w (.createAgent i effect ok id) = some w') :
    Change prims w (.createAgent i effect ok id) w' := by
  simp only [step] at h
  split at h
  next hp =>
    split at h <;> cases h
    rename_i hg
    simp only [or_eq_true, and_eq_true, not_or, not_and] at hg
    refine .createAgent hp (fun h => by simpa using hg.1 h) fun b hb heq => hg.2 ?_
    exact any_eq_true.2 ⟨b, hb, decide_eq_true heq⟩
  · cases h

theorem change_of_agentStep {i : ℕ} {ok : Bool} (h : step prims w (.agentStep i ok) = some w') :
    Change prims w (.agentStep i ok) w' := by
  simp only [step] at h
  split at h <;> cases h
  next hp => exact .stepped hp (.inl rfl)
  next r role agent step rest hp =>
    refine .stepped hp (.inr ?_)
    split_ifs
    · exact .inr ⟨step, rest, rfl, .inl rfl⟩
    · exact .inr ⟨step, rest, rfl, .inr rfl⟩
    · exact .inl rfl

theorem change_of_record {i issued : ℕ} (h : step prims w (.record i issued) = some w') :
    Change prims w (.record i issued) w' := by
  simp only [step] at h
  split at h
  next hp =>
    split at h
    · cases h
    rename_i hi
    split at h <;> cases h
    next hj => exact .recorded hp (Nat.not_lt.1 hi) hj
    next hj => exact .unrecorded hp hj
  · cases h

theorem change_of_write {i issued : ℕ} (h : step prims w (.write i issued) = some w') :
    Change prims w (.write i issued) w' := by
  obtain ⟨p, hp, h⟩ := bind_eq_some_iff.1 h
  obtain ⟨⟨token, u⟩, hu, h⟩ := bind_eq_some_iff.1 h
  dsimp only at h
  split at h
  · cases h
  rename_i hi
  split at h
  all_goals
    rename_i hj
    cases h
  · exact .written hp hu (Nat.not_lt.1 hi) hj
  · exact .unwritten hp hu hj

theorem change_of_otherAgent {b : CompanyAgent} (h : step prims w (.otherAgent b) = some w') :
    Change prims w (.otherAgent b) w' := by
  simp only [step] at h
  split_ifs at h with hg
  cases h
  simp only [or_eq_true, not_or, Bool.not_eq_true, Option.isSome_eq_false_iff,
    isNone_iff_eq_none] at hg
  refine .otherAgent (fun c hc heq => ?_) hg.2
  have ha : w.agents.any (·.id = b.id) := any_eq_true.2 ⟨c, hc, decide_eq_true heq⟩
  rw [hg.1] at ha
  cases ha

theorem change_of_step (h : step prims w a = some w') : Change prims w a w' := by
  cases a with
  | runJob steps =>
    simp only [step] at h
    split_ifs at h
    cases h
    exact .spawn (.inl ⟨steps, rfl⟩)
  | retryJob choice slot =>
    obtain ⟨p, hp, rfl⟩ := map_eq_some_iff.1 h
    exact change_of_requestRetry hp
  | cancelJob softDelete =>
    cases h
    exact .spawn (.inr (.inr ⟨_, _, rfl⟩))
  | takeLease i token leaseMs =>
    obtain ⟨p, hp, h⟩ := bind_eq_some_iff.1 h
    split_ifs at h with hu
    obtain ⟨job, hj, h⟩ := bind_eq_some_iff.1 h
    obtain ⟨p', hp', h⟩ := bind_eq_some_iff.1 h
    cases h
    exact .lease hp (by simpa using hu) hj hp'
  | begin i =>
    simp only [step] at h
    split at h <;> cases h
    next hp => exact .begin hp
  | validated i names issues =>
    simp only [step] at h
    split at h <;> cases h
    next hp => exact .validated names issues hp
  | call => exact change_of_call h
  | createAgent => exact change_of_createAgent h
  | agentStep => exact change_of_agentStep h
  | record => exact change_of_record h
  | cleanup i ok =>
    simp only [step] at h
    split at h <;> cases h
    next hp => exact .cleanup hp
  | write => exact change_of_write h
  | storeCancel i =>
    simp only [step] at h
    split at h
    next hp =>
      split at h <;> cases h
      next hj => exact .canceled hp hj
      · exact .uncanceled hp
    · cases h
  | release i =>
    simp only [step] at h
    split at h <;> cases h
    next token next hp =>
      refine .released hp ?_
      cases next with
      | none => exact .inl rfl
      | some status => exact .inr ⟨status, rfl⟩
  | prepareRetry i =>
    simp only [step] at h
    split at h
    next hp =>
      split at h <;> cases h
      next hj => exact .retried hp hj
      · exact .unretried hp
    · cases h
  | abort i =>
    obtain ⟨p, hp, rfl⟩ := map_eq_some_iff.1 h
    exact .aborted hp
  | crash i =>
    obtain ⟨p, hp, rfl⟩ := map_eq_some_iff.1 h
    exact .crashed hp
  | otherAgent => exact change_of_otherAgent h
  | pass time =>
    cases h
    exact .pass time

end ProvisionWorld

/-- A write over results and recorded steps: it appends results, of no created agents but those
given, has the steps given and sets a group only with its result. -/
structure JobUpdate.Extends (results : List StepResult) (steps : List AgentStepRecord)
    (agents : List String) (u : JobUpdate) : Prop where
  results : ∀ s, u.state = some s → ∃ more, s.results = results ++ more
    ∧ (∀ x ∈ more, ∀ g, x.group? = some g → u.createdGroupId = some g)
    ∧ createdAgentIdsFromResults more ⊆ agents
  steps : ∀ s, u.state = some s → s.agentSteps = steps
  ids : ∀ ids, u.createdAgentIds = some ids →
    ∃ s, u.state = some s ∧ ids ⊆ createdAgentIdsFromResults s.results
  group : ∀ g, u.createdGroupId = some g → ∃ s, u.state = some s ∧ ∃ x ∈ s.results, x.group? = some g

namespace JobUpdate.Extends

variable {job : JobRow} {u : JobUpdate} {results : List StepResult}
  {steps : List AgentStepRecord} {agents : List String}

theorem of_status (hs : u.state = none) (hi : u.createdAgentIds = none)
    (hg : u.createdGroupId = none) : u.Extends results steps agents where
  results s h := by cases hs.symm.trans h
  steps s h := by cases hs.symm.trans h
  ids ids h := by cases hi.symm.trans h
  group g h := by cases hg.symm.trans h

theorem of_state {s : StepState} {more : List StepResult} (hs : u.state = some s)
    (hr : s.results = results ++ more) (hsts : s.agentSteps = steps)
    (hm : ∀ x ∈ more, x.group? = none ∧ x.createdAgentId?.toList ⊆ agents)
    (hi : ∀ ids, u.createdAgentIds = some ids → ids ⊆ createdAgentIdsFromResults s.results)
    (hgrp : u.createdGroupId = none) : u.Extends results steps agents where
  results s' h := by
    cases hs.symm.trans h
    refine ⟨more, hr, fun x hx g hg => ?_, fun id hid => ?_⟩
    · cases (hm x hx).1.symm.trans hg
    · obtain ⟨x, hx, hid⟩ := mem_filterMap.1 hid
      exact (hm x hx).2 (by rw [hid]; exact mem_singleton_self id)
  steps s' h := by
    cases hs.symm.trans h
    exact hsts
  ids ids h := ⟨s, hs, hi ids h⟩
  group g h := by cases hgrp.symm.trans h

end JobUpdate.Extends

namespace JobRow

variable {job latest : JobRow} {u : JobUpdate}

theorem cleanupResult_eq (job : JobRow) (generated : List String) (softDelete ok : Bool) :
    ∃ out softDeleted preserved,
      job.cleanupResult generated softDelete ok = .cleanup out softDeleted preserved := by
  unfold cleanupResult
  split_ifs
  all_goals exact ⟨_, _, _, rfl⟩

/-- What a row says about its next task. -/
def AsksFor (job : JobRow) : ProvisionTask → Prop
  | .role role => hasRoleResult job.state.results role.slotId = false
  | .write u => u.createdGroupId = none ∧ u.Extends job.state.results [] []
  | .createGroup => job.state.results.any (·.group?.isSome) = false
  | .addMember group _ _ | .enableRouting group | .postKickoff group => job.groupId = some group
  | _ => True

theorem asksFor_nextTask (job : JobRow) : job.AsksFor job.nextTask := by
  have hs : ∀ status, job.AsksFor (.write { status := some status }) :=
    fun _ => ⟨rfl, .of_status rfl rfl rfl⟩
  unfold nextTask
  dsimp only
  split
  · trivial
  · split
    next hf =>
      simpa [AsksFor] using find?_some hf
    · refine ⟨rfl, .of_state rfl (append_nil _).symm rfl (fun _ hx => nomatch hx) ?_ rfl⟩
      intro ids hi
      cases hi
      exact List.Subset.refl _
  · split_ifs with ha
    · exact hs _
    · exact eq_false_iff.2 ha
  · split
    · exact hs _
    next hg =>
      split
      · exact hg
      split_ifs
      · exact hs _
      · exact hg
  · split
    · exact hs _
    next hg =>
      split_ifs
      · exact hs _
      · exact hg
  · trivial

theorem asksFor_of_nextTask {task : ProvisionTask} (h : job.nextTask = task) : job.AsksFor task :=
  h ▸ job.asksFor_nextTask

theorem afterCall_extends (task : ProvisionTask) (ok : Bool) (id : String) :
    (job.afterCall task ok id).Extends job.state.results [] [] := by
  have hs : ∀ (status : Option JobStatus) (more : List StepResult)
      (issues : List ProvisioningIssue),
      (∀ x ∈ more, x.group? = none ∧ x.createdAgentId?.toList ⊆ []) →
      JobUpdate.Extends job.state.results [] []
        { status, state := some (job.withResults more issues) } := fun status more issues hm =>
      .of_state rfl rfl rfl hm (fun _ hi => nomatch hi) rfl
  unfold afterCall
  split
  · split
    · exact {
        results := fun s h => by
          cases h
          refine ⟨_, rfl, fun x hx g hg => ?_, List.Subset.refl _⟩
          cases mem_singleton.1 hx
          exact hg
        steps := fun s h => by
          cases h
          rfl
        ids := fun _ hi => nomatch hi
        group := fun g h => by
          cases h
          exact ⟨_, rfl, _, mem_append_right _ mem_cons_self, rfl⟩ }
    · exact hs _ _ _ (by simp [group?, createdAgentId?, residualAssetsForJob])
  all_goals first
    | exact JobUpdate.Extends.of_status rfl rfl rfl
    | split <;> exact hs _ _ _ (by simp [group?, createdAgentId?, residualAssetsForJob])

theorem afterValidation_extends (names : List (String × String)) (issues : List ProvisioningIssue) :
    (job.afterValidation names issues).Extends job.state.results [] [] :=
  .of_state rfl rfl rfl (fun _ hx => nomatch hx) (fun _ hi => nomatch hi) rfl

theorem afterRole_extends {res : StepResult} (h : res.group? = none) :
    (latest.afterRole res).Extends latest.state.results latest.state.agentSteps
      res.createdAgentId?.toList := by
  refine .of_state rfl rfl rfl (by simpa using h) (fun ids hi => ?_) rfl
  cases hi
  exact List.Subset.refl _

theorem afterRoleFailure_extends (plan : LaunchPlan) (slot : String) :
    (latest.afterRoleFailure plan slot).Extends latest.state.results latest.state.agentSteps [] :=
  .of_state rfl (append_nil _).symm rfl (fun _ hx => nomatch hx) (fun _ hi => nomatch hi) rfl

theorem afterSkip_extends (h : skip.group? = none ∧ skip.createdAgentId? = none) :
    (job.afterSkip skip).Extends job.state.results [] [] := by
  refine .of_state rfl rfl rfl (fun x hx => ?_) (fun ids hi => ?_) rfl
  · rcases List.mem_pair.1 hx with rfl | rfl
    · exact ⟨h.1, by simp [h.2]⟩
    · exact ⟨rfl, List.Subset.refl _⟩
  cases hi
  refine List.Sublist.subset (List.Sublist.filterMap _ ?_)
  rw [withResults, List.append_sublist_append_left]
  exact List.Sublist.cons_cons _ (List.nil_sublist _)

theorem afterCancelCleanup_extends (generated : List String) (softDelete ok : Bool) :
    (job.afterCancelCleanup generated softDelete ok).Extends job.state.results [] [] := by
  refine .of_state rfl rfl rfl ?_ (fun _ hi => nomatch hi) rfl
  obtain ⟨_, _, _, heq⟩ := cleanupResult_eq job generated softDelete ok
  split_ifs
  · simp [heq, group?, createdAgentId?, residualAssetsForJob]
  · exact fun _ hx => nomatch hx

theorem afterRecoveryCleanup_extends (generated : List String) (ok : Bool) :
    (job.afterRecoveryCleanup generated ok).Extends job.state.results [] [] := by
  refine .of_state rfl rfl rfl ?_ (fun _ hi => nomatch hi) rfl
  obtain ⟨_, _, _, heq⟩ := cleanupResult_eq job generated true ok
  simp [heq, group?, createdAgentId?, residualAssetsForJob]

theorem updateJobAfterLease_eq_some {token : String} {issued : ℕ}
    (h : job.updateJobAfterLease token u issued = some job') :
    job.leaseToken = some token ∧ job' = job.apply u := by
  unfold updateJobAfterLease at h
  split_ifs at h with hg
  cases h
  simp at hg
  exact ⟨hg.1.1.1, rfl⟩

end JobRow

namespace JobProcess

/-- What holds of a process wherever it comes from. -/
def Wf : JobProcess → Prop
  | .calling r task => r.job.nextTask = task
  | .recording _ _ _ _ rest | .stepping _ _ _ rest => .createPrincipal ∉ rest
  | .roleDone _ result => result.group? = none
  | .skipping _ skip _ | .skipLeased _ _ skip _ =>
    skip.group? = none ∧ skip.createdAgentId? = none
  | _ => True

/-- What the process whose token the row has knows of its state. -/
def Fresh (state : StepState) : JobProcess → Prop
  | .ready r | .calling r _ | .cleaning r _ _ => r.job.state.results = state.results
  | .principal _ role _ _ => hasRoleResult state.results role.slotId = false
      ∧ ∀ record ∈ state.agentSteps, record.slot = role.slotId → record.step ≠ .createPrincipal
  | .recording _ role _ step _ => step = .createPrincipal →
      ∀ record ∈ state.agentSteps, record.slot = role.slotId → record.step ≠ .createPrincipal
  | .writing _ u | .cleaned _ u _ => u.Extends state.results [] []
  | _ => True

end JobProcess

namespace ProvisionWorld

variable {job : JobRow} {i : ℕ} {p : JobProcess} {token : String} {u : JobUpdate} {r : JobRun}

/-- A token is that of one process, and the process whose token the row has knows its results. -/
structure JobInv (w : ProvisionWorld) : Prop where
  tokens : ∀ (i j : ℕ) (p q : JobProcess) (token : String), w.processes[i]? = some p →
    w.processes[j]? = some q → p.token? = some token → q.token? = some token → i = j
  wf : ∀ (i : ℕ) (p : JobProcess), w.processes[i]? = some p → p.Wf
  fresh : ∀ (i : ℕ) (p : JobProcess) (token : String), w.processes[i]? = some p →
    p.token? = some token → w.job.leaseToken = some token → p.Fresh w.job.state
  ids : w.job.createdAgentIds ⊆ createdAgentIdsFromResults w.job.state.results
  steps : ∀ record ∈ w.job.state.agentSteps, record.step ≠ .createPrincipal → record.agent = none

namespace JobInv

variable {i : ℕ} {p p' : JobProcess}

section

variable (h : JobInv w) (hp : w.processes[i]? = some p)
  (hps : w'.processes = w.processes.set i p')
include h hp hps

theorem of_set (htok : p'.token? = none ∨ p'.token? = p.token?) (hw : p'.Wf)
    (hf : ∀ token, p'.token? = some token → w'.job.leaseToken = some token → p'.Fresh w'.job.state)
    (hr : (∃ token, p.token? = some token ∧ w'.job.leaseToken = some token)
      ∨ (w'.job.state = w.job.state
        ∧ ∀ token, w'.job.leaseToken = some token → w.job.leaseToken = some token))
    (hi : w'.job.createdAgentIds ⊆ createdAgentIdsFromResults w'.job.state.results)
    (hsts : ∀ rec ∈ w'.job.state.agentSteps, rec.step ≠ .createPrincipal →
      rec.agent = none) : JobInv w' where
  tokens j k q q' token hj hk hq hq' := by
    have ho : ∀ (token : String), p'.token? = some token → p.token? = some token := by
      intro token ht
      rcases htok with hn | hs
      · cases hn.symm.trans ht
      · exact hs.symm.trans ht
    rw [hps] at hj hk
    rcases getElem?_set_cases hj with ⟨rfl, rfl⟩ | ⟨-, hj'⟩
    · rcases getElem?_set_cases hk with ⟨rfl, -⟩ | ⟨-, hk'⟩
      · rfl
      · exact h.tokens _ _ _ _ token hp hk' (ho _ hq) hq'
    · rcases getElem?_set_cases hk with ⟨rfl, rfl⟩ | ⟨-, hk'⟩
      · exact h.tokens _ _ _ _ token hj' hp hq (ho _ hq')
      · exact h.tokens _ _ _ _ token hj' hk' hq hq'
  wf j q hj := by
    rw [hps] at hj
    rcases getElem?_set_cases hj with ⟨rfl, rfl⟩ | ⟨-, hj⟩
    · exact hw
    · exact h.wf j q hj
  fresh j q token hj hq hl := by
    rw [hps] at hj
    rcases getElem?_set_cases hj with ⟨rfl, rfl⟩ | ⟨hji, hj⟩
    · exact hf token hq hl
    rcases hr with ⟨token', hp', hl'⟩ | ⟨hst, hke⟩
    · cases hl.symm.trans hl'
      exact absurd (h.tokens _ _ _ _ token hj hp hq hp') hji
    · rw [hst]
      exact h.fresh j q token hj hq (hke token hl)
  ids := hi
  steps := hsts

theorem of_move (hj : w'.job = w.job) (ht : p'.token? = none ∨ p'.token? = p.token?) (hw : p'.Wf)
    (hf : ∀ token, p'.token? = some token → w.job.leaseToken = some token →
      p'.Fresh w.job.state) : JobInv w' := by
  refine h.of_set hp hps ht hw ?_ (.inr ?_) ?_ ?_ <;> rw [hj]
  · exact hf
  · exact ⟨rfl, fun _ hl => hl⟩
  · exact h.ids
  · exact h.steps

theorem of_trivial (hj : w'.job = w.job)
    (ht : p'.token? = none ∨ p'.token? = p.token?) (hw : p'.Wf)
    (hf : ∀ state, p'.Fresh state = True) : JobInv w' :=
  h.of_move hp hps hj ht hw fun _ _ _ => hf _ ▸ trivial

/-- A process that goes on to write over the results it knows. -/
theorem of_known {u : JobUpdate} (hj : w'.job = w.job)
    (htok : p'.token? = p.token?) (hw : p'.Wf)
    (hk : ∀ state, p.Fresh state → r.job.state.results = state.results)
    (hf : ∀ state, p'.Fresh state = u.Extends state.results [] [])
    (hu : u.Extends r.job.state.results [] []) : JobInv w' :=
  h.of_move hp hps hj (.inr htok) hw fun token ht hl => by
    rw [hf, ← hk _ (h.fresh i p token hp (htok.symm.trans ht) hl)]
    exact hu

end

theorem spawn (h : JobInv w) (ht : p.token? = none) (hw : p.Wf) : JobInv (w.addProcess p) where
  tokens j k q q' token hj hk hq hq' := by
    rcases getElem?_snoc_cases hj with hj | rfl
    · rcases getElem?_snoc_cases hk with hk | rfl
      · exact h.tokens _ _ _ _ token hj hk hq hq'
      · cases ht.symm.trans hq'
    · cases ht.symm.trans hq
  wf j q hj := by
    rcases getElem?_snoc_cases hj with hj | rfl
    · exact h.wf j q hj
    · exact hw
  fresh j q token hj hq hl := by
    rcases getElem?_snoc_cases hj with hj | rfl
    · exact h.fresh j q token hj hq hl
    · cases ht.symm.trans hq
  ids := h.ids
  steps := h.steps

end JobInv

theorem continued_cases (r : JobRun) (job : JobRow) : continued r job = .releasing r.token none
      ∨ continued r job = .ready { r with job, left := r.left - 1 } := by
  unfold continued
  split_ifs
  · exact .inl rfl
  · exact .inr rfl

theorem aborted_cases (p : JobProcess) :
    p.aborted = .ended ∨ ∃ token, p.token? = some token ∧ p.aborted = .releasing token none := by
  cases p with
  | ended | retrying | runRequested | cleanupRequested | skipping | skipLeased => exact .inl rfl
  | ready | calling | principal | recording | stepping | roleDone | roleFailed | writing
  | releasing | cleaning | cleaned | canceling => exact .inr ⟨_, rfl, rfl⟩

theorem aborted_token (p : JobProcess) : p.aborted.token? = none ∨ p.aborted.token? = p.token? := by
  rcases aborted_cases p with h | ⟨token, ht, h⟩
  · exact .inl (by rw [h]; rfl)
  · exact .inr (by rw [h, ht]; rfl)

theorem beginTask_cases (w : ProvisionWorld) (r : JobRun) :
    (∃ u, r.job.nextTask = .write u ∧ w.beginTask r = .writing r u)
      ∨ w.beginTask r = continued r r.job
      ∨ (∃ task, r.job.nextTask = task ∧ w.beginTask r = .calling r task)
      ∨ (∃ role res, r.job.nextTask = .role role ∧ res.group? = none
        ∧ res.createdAgentId? = none ∧ w.beginTask r = .roleDone r res)
      ∨ (∃ role name webhook, r.job.nextTask = .role role
        ∧ w.job.readStep role.slotId .createPrincipal = none
        ∧ w.beginTask r = .principal r role name webhook)
      ∨ (∃ role agent rec webhook, r.job.nextTask = .role role
        ∧ w.job.readStep role.slotId .createPrincipal = some rec ∧ rec.agent = some agent
        ∧ w.beginTask r = .stepping r role agent (laterSteps true webhook))
      ∨ ∃ role, w.beginTask r = .roleFailed r role := by
  unfold beginTask
  split
  next u hu =>
    exact .inl ⟨u, hu, rfl⟩
  · exact .inr (.inl rfl)
  next role hr =>
    split
    · exact .inr (.inr (.inr (.inl ⟨role, _, hr, rfl, rfl, rfl⟩)))
    · exact .inr (.inr (.inr (.inl ⟨role, _, hr, rfl, rfl, rfl⟩)))
    · split
      next hre =>
        exact .inr (.inr (.inr (.inr (.inl ⟨role, _, _, hr, hre, rfl⟩))))
      next rec hre =>
        split
        next agent ha =>
          exact .inr (.inr (.inr (.inr (.inr (.inl ⟨role, agent, rec, _, hr, hre, ha, rfl⟩)))))
        · exact .inr (.inr (.inr (.inr (.inr (.inr ⟨role, rfl⟩)))))
  · exact .inr (.inr (.inl ⟨_, rfl, rfl⟩))

theorem createPrincipal_not_mem_laterSteps (replayed webhook : Bool) :
    AgentStep.createPrincipal ∉ laterSteps replayed webhook := by
  cases replayed <;> cases webhook <;> decide

theorem JobInv.begin (h : JobInv w) (hp : w.processes[i]? = some (.ready r)) :
    JobInv (w.setProcess i (w.beginTask r)) := by
  have hsa : ∀ token, some r.token = some token → w.job.leaseToken = some token →
      r.job.state.results = w.job.state.results := fun token => h.fresh i _ token hp
  rcases beginTask_cases w r with ⟨u, hu, heq⟩ | heq | ⟨task, hta, heq⟩
    | ⟨role, result, hr, hg, -, heq⟩ | ⟨role, name, webhook, hr, hre, heq⟩
    | ⟨role, agent, record, webhook, hr, -, -, heq⟩ | ⟨role, heq⟩
  all_goals rw [heq]
  · exact h.of_known hp rfl rfl rfl trivial (fun _ h => h) (fun _ => rfl) (asksFor_of_nextTask hu).2
  · rcases continued_cases r r.job with hc | hc <;> rw [hc]
    · exact h.of_trivial hp rfl rfl (.inr rfl) trivial fun _ => rfl
    · exact h.of_move hp rfl rfl (.inr rfl) trivial hsa
  · exact h.of_move hp rfl rfl (.inr rfl) hta hsa
  · exact h.of_trivial hp rfl rfl (.inr rfl) hg fun _ => rfl
  · refine h.of_move hp rfl rfl (.inr rfl) trivial fun token ht hl => ⟨?_, ?_⟩
    · rw [← hsa token ht hl]
      exact asksFor_of_nextTask hr
    · intro record hrec hsl hs
      have hf := find?_eq_none.1 hre record hrec
      simp [hsl, hs] at hf
  · exact h.of_trivial hp rfl rfl (.inr rfl) (createPrincipal_not_mem_laterSteps _ _) fun _ => rfl
  · exact h.of_trivial hp rfl rfl (.inr rfl) trivial fun _ => rfl

def stepsSettled (state : StepState) : Bool :=
  state.agentSteps.all fun record => record.agent.all fun agent =>
    state.results.contains (.createdAgent record.slot agent.1 agent.2)

/-- A write that drops the recorded steps comes when they are settled, and a skip is computed from
the results that the row still has. -/
def keepsRecords (state : StepState) : JobProcess → Bool
  | .roleDone .. | .roleFailed .. => true
  | .writing _ u => u.state.isNone || stepsSettled state
  | .skipLeased read .. => read.state.results = state.results && stepsSettled state
  | _ => stepsSettled state

/-- The writes under the row's token keep what was recorded. -/
def keeps (w : ProvisionWorld) : ProvisionAction → Bool
  | .write i _ =>
    w.processes[i]?.all fun p => p.token? ≠ w.job.leaseToken || keepsRecords w.job.state p
  | _ => true

theorem token_of_pendingWrite (h : w.pendingWrite p = some (token, u)) : p.token? = some token := by
  cases p <;> cases h <;> rfl

theorem keepsRecords_of_keeps {issued : ℕ} (hp : w.processes[i]? = some p)
    (hu : w.pendingWrite p = some (token, u)) (hl : w.job.leaseToken = some token)
    (h : keeps w (.write i issued)) : keepsRecords w.job.state p := by
  simp [keeps, hp] at h
  rcases h with h | h
  · rw [token_of_pendingWrite hu, hl] at h
    exact absurd rfl h
  · exact h

theorem JobInv.extends_of_pendingWrite (h : JobInv w) (hp : w.processes[i]? = some p)
    (hu : w.pendingWrite p = some (token, u)) (hl : w.job.leaseToken = some token)
    (hk : keepsRecords w.job.state p) :
    ∃ agents, u.Extends w.job.state.results w.job.state.agentSteps agents
      ∨ (u.Extends w.job.state.results [] agents ∧ stepsSettled w.job.state) := by
  have hw := h.wf i p hp
  have hf := h.fresh i p token hp (token_of_pendingWrite hu) hl
  cases p with
  | writing r u' =>
    cases hu
    cases hst : u.state with
    | none =>
      refine ⟨[], .inl (.of_status hst ?_ ?_)⟩
      · refine Option.eq_none_iff_forall_ne_some.2 fun ids hi => ?_
        obtain ⟨s, hs, -⟩ := hf.ids ids hi
        cases hst.symm.trans hs
      · refine Option.eq_none_iff_forall_ne_some.2 fun g hg => ?_
        obtain ⟨s, hs, -⟩ := hf.group g hg
        cases hst.symm.trans hs
    | some s =>
      simp [keepsRecords, hst] at hk
      exact ⟨[], .inr ⟨hf, hk⟩⟩
  | roleDone r result =>
    cases hu
    exact ⟨_, .inl (afterRole_extends hw)⟩
  | roleFailed r role =>
    cases hu
    exact ⟨[], .inl (afterRoleFailure_extends _ _)⟩
  | skipLeased read token skip next =>
    cases hu
    simp [keepsRecords] at hk
    rw [← hk.1]
    exact ⟨[], .inr ⟨afterSkip_extends hw, hk.2⟩⟩
  | cleaned token u' cancel =>
    cases hu
    exact ⟨[], .inr ⟨hf, hk⟩⟩
  | _ => cases hu

section Row

variable {job : JobRow} {u : JobUpdate} {steps : List AgentStepRecord} {agents : List String}

theorem results_grow (h : u.Extends job.state.results steps agents) :
    job.state.results <+: (job.apply u).state.results := by
  show _ <+: (u.state.getD job.state).results
  cases hs : u.state with
  | none => exact List.prefix_rfl
  | some s =>
    obtain ⟨more, hm, -⟩ := h.results s hs
    exact ⟨more, hm.symm⟩

theorem createdAgentIds_mono {ress results' : List StepResult} (h : ress <+: results') :
    createdAgentIdsFromResults ress ⊆ createdAgentIdsFromResults results' :=
  (h.sublist.filterMap _).subset

theorem ids_of_extends (h : u.Extends job.state.results steps agents)
    (hi : job.createdAgentIds ⊆ createdAgentIdsFromResults job.state.results) :
    (job.apply u).createdAgentIds ⊆ createdAgentIdsFromResults (job.apply u).state.results := by
  show u.createdAgentIds.getD _ ⊆ _
  cases hc : u.createdAgentIds with
  | none => exact List.Subset.trans hi (createdAgentIds_mono (results_grow h))
  | some ids =>
    obtain ⟨s, hs, hsub⟩ := h.ids ids hc
    have hr : (job.apply u).state.results = s.results := by
      show (u.state.getD job.state).results = _
      rw [hs]
      rfl
    rw [hr]
    exact hsub

end Row

namespace JobInv

variable {i issued : ℕ} {p p' : JobProcess} {token : String} {u : JobUpdate} {job : JobRow}

theorem lease {leaseMs : ℕ} (h : JobInv w) (hp : w.processes[i]? = some p) (hu : w.unusedToken token)
    (hjob : w.job.acquireLease token w.now leaseMs = some job)
    (hp' : leased job token p = some p') : JobInv ({ w with job }.setProcess i p') := by
  unfold acquireLease at hjob
  split_ifs at hjob
  cases hjob
  simp [unusedToken] at hu
  have hn : ∀ (j : ℕ) (q : JobProcess), w.processes[j]? = some q → q.token? ≠ some token :=
    fun j q hj => hu.2 q (mem_of_getElem? hj)
  have hl : p'.token? = some token ∧ p'.Wf ∧ p'.Fresh w.job.state := by
    have hw := h.wf i p hp
    cases p <;> cases hp'
    · exact ⟨rfl, trivial, rfl⟩
    · exact ⟨rfl, trivial, rfl⟩
    · exact ⟨rfl, hw, trivial⟩
  exact {
    tokens := fun j k q q' t hj hk hq hq' => by
      rcases getElem?_set_cases hj with ⟨rfl, rfl⟩ | ⟨-, hj'⟩
      · rcases getElem?_set_cases hk with ⟨rfl, -⟩ | ⟨-, hk'⟩
        · rfl
        · cases hl.1.symm.trans hq
          exact absurd hq' (hn k q' hk')
      · rcases getElem?_set_cases hk with ⟨rfl, rfl⟩ | ⟨-, hk'⟩
        · cases hl.1.symm.trans hq'
          exact absurd hq (hn j q hj')
        · exact h.tokens _ _ _ _ t hj' hk' hq hq'
    wf := fun j q hj => by
      rcases getElem?_set_cases hj with ⟨rfl, rfl⟩ | ⟨-, hj'⟩
      · exact hl.2.1
      · exact h.wf j q hj'
    fresh := fun j q t hj hq hls => by
      rcases getElem?_set_cases hj with ⟨rfl, rfl⟩ | ⟨-, hj'⟩
      · exact hl.2.2
      · cases hls
        exact absurd hq (hn j q hj')
    ids := h.ids
    steps := h.steps }

theorem written (h : JobInv w) (hp : w.processes[i]? = some p)
    (hu : w.pendingWrite p = some (token, u))
    (hj : w.job.updateJobAfterLease token u issued = some job) (hk : keeps w (.write i issued)) :
    JobInv ({ w with job }.setProcess i (afterWrite job p)) := by
  obtain ⟨hl, rfl⟩ := updateJobAfterLease_eq_some hj
  obtain ⟨_, he⟩ := h.extends_of_pendingWrite hp hu hl (keepsRecords_of_keeps hp hu hl hk)
  have hr : ∀ r : JobRun, (continued r (w.job.apply u)).token? = some r.token
      ∧ (continued r (w.job.apply u)).Wf
      ∧ (continued r (w.job.apply u)).Fresh (w.job.apply u).state := by
    intro r
    rcases continued_cases r (w.job.apply u) with hc | hc <;> rw [hc]
    · exact ⟨rfl, trivial, trivial⟩
    · exact ⟨rfl, trivial, rfl⟩
  have ha : (afterWrite (w.job.apply u) p).token? = p.token? ∧ (afterWrite (w.job.apply u) p).Wf
      ∧ (afterWrite (w.job.apply u) p).Fresh (w.job.apply u).state := by
    cases p with
    | writing r | roleDone r | roleFailed r => exact hr r
    | skipLeased => exact ⟨rfl, trivial, trivial⟩
    | cleaned token u cancel => cases cancel <;> exact ⟨rfl, trivial, trivial⟩
    | _ => cases hu
  refine h.of_set hp rfl (.inr ha.1) ha.2.1 (fun _ _ _ => ha.2.2)
    (.inl ⟨token, token_of_pendingWrite hu, hl⟩) ?_ ?_
  · rcases he with he | ⟨he, -⟩ <;> exact ids_of_extends he h.ids
  · show ∀ rec ∈ (u.state.getD w.job.state).agentSteps, _
    cases hs : u.state with
    | none => exact h.steps
    | some s =>
      rcases he with he | ⟨he, -⟩ <;> rw [Option.getD_some, he.steps s hs]
      · exact h.steps
      · exact fun _ hm => nomatch hm

theorem recorded {role : RolePlan} {agent : String × String} {step : AgentStep}
    {rest : List AgentStep} (h : JobInv w)
    (hp : w.processes[i]? = some (.recording r role agent step rest))
    (hj : w.recorded? r role agent step issued = some job) :
    JobInv ({ w with job }.setProcess i (.stepping r role agent rest)) := by
  obtain ⟨hl, rfl⟩ := updateJobAfterLease_eq_some hj
  have hw : AgentStep.createPrincipal ∉ rest := h.wf i _ hp
  refine h.of_set hp rfl (.inr rfl) hw (fun _ _ _ => trivial) (.inl ⟨r.token, rfl, hl⟩) h.ids ?_
  exact forall_mem_snoc (fun record ho => h.steps record (mem_of_mem_filter ho)) fun h => if_neg h

end JobInv

theorem skipResult?_cases {slot : String} (h : job.skipResult? choice slot = some skip) :
    skip.group? = none ∧ skip.createdAgentId? = none := by
  unfold skipResult? at h
  dsimp only at h
  split at h
  · cases h
  split at h
  · cases h
  split at h
  · cases h
    exact ⟨rfl, rfl⟩
  · split at h <;> cases h
    exact ⟨rfl, rfl⟩

theorem JobInv.of_row {p' : JobProcess} (h : JobInv w) (hp : w.processes[i]? = some p)
    (hp' : p'.token? = none ∨ p'.token? = p.token?) (hw : p'.Wf) (hf : p'.Fresh job.state)
    (hs : job.state = w.job.state) (hi : job.createdAgentIds = w.job.createdAgentIds)
    (hl : ∀ token, job.leaseToken = some token → w.job.leaseToken = some token) :
    JobInv ({ w with job }.setProcess i p') := by
  refine h.of_set hp rfl hp' hw (fun _ _ _ => hf) (.inr ⟨hs, hl⟩) ?_ ?_
  · show job.createdAgentIds ⊆ createdAgentIdsFromResults job.state.results
    rw [hi, hs]
    exact h.ids
  · show ∀ rec ∈ job.state.agentSteps, _
    rw [hs]
    exact h.steps

theorem releaseLease_row (job : JobRow) (token : String) : (job.releaseLease token).state = job.state
      ∧ (job.releaseLease token).createdAgentIds = job.createdAgentIds
      ∧ (job.releaseLease token).createdGroupId = job.createdGroupId
      ∧ ∀ t, (job.releaseLease token).leaseToken = some t → job.leaseToken = some t := by
  unfold releaseLease
  split_ifs
  · exact ⟨rfl, rfl, rfl, fun _ h => nomatch h⟩
  · exact ⟨rfl, rfl, rfl, fun _ h => h⟩

theorem cancelJob_row (h : job.cancelJob token = some job') :
    job' = { job with status := .canceled, leaseToken := none } := by
  unfold cancelJob at h
  split_ifs at h
  cases h
  rfl

theorem prepareRetry_row {next : JobStatus} {now : ℕ}
    (h : job.prepareRetry next now = some job') : job' = { job with status := next } := by
  unfold prepareRetry at h
  split_ifs at h
  cases h
  rfl

theorem carryOut_frame (w : ProvisionWorld) (task : ProvisionTask) (id : String) (effect : Bool) :
    (if effect then w.carryOut task id else w).job = w.job
      ∧ (if effect then w.carryOut task id else w).processes = w.processes
      ∧ (if effect then w.carryOut task id else w).agents = w.agents
      ∧ (if effect then w.carryOut task id else w).disabled = w.disabled := by
  cases effect
  · exact ⟨rfl, rfl, rfl, rfl⟩
  · cases task <;> exact ⟨rfl, rfl, rfl, rfl⟩

theorem JobInv.inserted (companyId : String) (plan : LaunchPlan) (agents : List CompanyAgent)
    (now : ℕ) : JobInv (inserted companyId plan agents now) where
  tokens _ _ _ _ _ hi := nomatch hi
  wf _ _ hi := nomatch hi
  fresh _ _ _ hi := nomatch hi
  ids := nil_subset _
  steps _ hr := nomatch hr

theorem JobInv.next (h : JobInv w) (hk : keeps w a) (hs : step prims w a = some w') :
    JobInv w' := by
  cases change_of_step hs with
  | spawn hp =>
    obtain ⟨_, rfl⟩ | ⟨_, rfl⟩ | ⟨_, _, rfl⟩ := hp
    all_goals exact h.spawn rfl trivial
  | skip hsk => exact h.spawn rfl (skipResult?_cases hsk)
  | lease hp hun hj hp' => exact h.lease hp hun hj hp'
  | begin hp => exact h.begin hp
  | validated names issues hp =>
    exact h.of_known hp rfl rfl rfl trivial (fun _ h => h) (fun _ => rfl)
      (afterValidation_extends names issues)
  | @call i r task effect ok id hp hta hok hid =>
    obtain ⟨hj, hps, -⟩ := carryOut_frame w task id effect
    exact h.of_known hp (congrArg (List.set · i _) hps) hj rfl trivial (fun _ h => h)
      (fun _ => rfl) (afterCall_extends task ok id)
  | @createAgent i r role name webhook effect ok id hp hok hid =>
    have hf := fun token ht hl => (h.fresh _ _ token hp ht hl).2
    refine h.of_move hp (by cases effect <;> rfl) (by cases effect <;> rfl)
      (.inr (by cases ok <;> rfl)) ?_ ?_
    · cases ok
      · trivial
      · exact createPrincipal_not_mem_laterSteps _ _
    · cases ok
      · exact fun _ _ _ => trivial
      · exact fun token ht hl _ => hf token ht hl
  | @stepped i ok r role agent rest p hp hp' =>
    have hr : AgentStep.createPrincipal ∉ rest := h.wf _ _ hp
    obtain rfl | rfl | ⟨step, rest', rfl, rfl | rfl⟩ := hp'
    · exact h.of_trivial hp rfl rfl (.inr rfl) rfl fun _ => rfl
    · exact h.of_trivial hp rfl rfl (.inr rfl) trivial fun _ => rfl
    · exact h.of_trivial hp rfl rfl (.inr rfl) (fun hm => hr (mem_cons_of_mem _ hm)) fun _ => rfl
    · refine h.of_move hp rfl rfl (.inr rfl) (fun hm => hr (mem_cons_of_mem _ hm))
        fun _ _ _ heq => ?_
      rw [heq] at hr
      exact absurd mem_cons_self hr
  | recorded hp _ hj => exact h.recorded hp hj
  | unrecorded hp | uncanceled hp => exact h.of_trivial hp rfl rfl (.inr rfl) trivial fun _ => rfl
  | @cleanup i ok r cancel softDelete hp =>
    refine h.of_known hp rfl rfl rfl trivial (fun _ h => h) (fun _ => rfl) ?_
    cases cancel
    · exact afterRecoveryCleanup_extends _ ok
    · exact afterCancelCleanup_extends _ softDelete ok
  | written hp hu _ hj => exact h.written hp hu hj hk
  | @unwritten i issued p token u hp | @aborted i p hp =>
    obtain ⟨hw, hf⟩ : p.aborted.Wf ∧ ∀ state, p.aborted.Fresh state = True := by
      rcases aborted_cases p with heq | ⟨_, -, heq⟩ <;> rw [heq] <;> exact ⟨trivial, fun _ => rfl⟩
    exact h.of_trivial hp rfl rfl (aborted_token p) hw hf
  | canceled hp hj =>
    cases cancelJob_row hj
    exact h.of_row hp (.inr rfl) trivial trivial rfl rfl fun _ hl => nomatch hl
  | @released i token next p hp hp' =>
    obtain ⟨hst, hi, -, hl⟩ := releaseLease_row w.job token
    obtain rfl | ⟨_, rfl⟩ := hp'
    all_goals exact h.of_row hp (.inl rfl) trivial trivial hst hi hl
  | retried hp hj =>
    cases prepareRetry_row hj
    exact h.of_row hp (.inl rfl) trivial trivial rfl rfl fun _ hl => hl
  | unretried hp | crashed hp => exact h.of_trivial hp rfl rfl (.inl rfl) trivial fun _ => rfl
  | otherAgent | pass => exact { h with }

end ProvisionWorld

end Choruz
