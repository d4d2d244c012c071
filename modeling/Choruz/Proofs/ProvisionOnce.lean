import Choruz.Proofs.ProvisionRecords

/-!
# Groups and agents that a job creates once

The calls that create a group or an agent carry no key.  What was created is recorded by a write
under the lease, so it is created once where the lease outlives the call and its record, and no
write drops the record before the role has its result.
-/

namespace Choruz

open Relational JobRow

variable {prims : ProvisionPrims} {w w' : ProvisionWorld} {a : ProvisionAction} {i : ℕ}
  {p p' : JobProcess} {what : Option String} {job : JobRow}

/-- What a process has created without a record yet: the agent of a slot, or else the group. -/
def JobProcess.made? : JobProcess → Option (Option String)
  | .recording _ role _ .createPrincipal _ => some (some role.slotId)
  | .writing _ u => u.createdGroupId.map fun _ => none
  | _ => none

/-- The row says that an agent of a slot, or the group, was created. -/
def StepState.Recorded (state : StepState) : Option String → Prop
  | some slot => hasRoleResult state.results slot
    ∨ ∃ record ∈ state.agentSteps, record.slot = slot ∧ record.step = .createPrincipal
  | none => ∃ x ∈ state.results, x.group?.isSome

/-- The groups that a process knows of, over those created and that of the row. -/
def JobProcess.Groups (groups : List String) (created : Option String) : JobProcess → Prop
  | .ready r | .calling r _ => ∀ g, r.job.groupId = some g → created = some g
  | .writing _ u | .cleaned _ u _ => ∀ g, u.createdGroupId = some g → g ∈ groups
  | _ => True

namespace ProvisionWorld

/-- An agent for the slot, or else a group, has been created. -/
def Made (w : ProvisionWorld) : Option String → Prop
  | some slot => ∃ b ∈ w.agents, b.madeFor = some slot
  | none => w.groups ≠ []

/-- Creations are answered and recorded while the lease is held, and nobody takes it in between. -/
def careful (w : ProvisionWorld) (a : ProvisionAction) : Bool :=
  keeps w a && match a with
  | .takeLease .. => w.processes.all (·.made?.isNone)
  | .call i effect ok _ =>
    match w.processes[i]? with
    | some (.calling r .createGroup) => effect = ok && w.job.leaseToken = some r.token
    | _ => true
  | .createAgent i effect ok _ =>
    w.processes[i]?.all fun p => effect = ok && w.job.leaseToken = p.token?
  | .write i issued =>
    match w.processes[i]? with
    | some (.writing r u) =>
      u.createdGroupId.isNone || (w.job.updateJobAfterLease r.token u issued).isSome
    | _ => true
  | .record i issued =>
    match w.processes[i]? with
    | some (.recording r role agent .createPrincipal _) => (w.job.updateJobAfterLease r.token
        (w.job.recordStep ⟨role.slotId, .createPrincipal, some agent⟩) issued).isSome
    | _ => true
  | .crash i | .abort i => w.processes[i]?.all (·.made?.isNone)
  | _ => true

structure OnceInv (w : ProvisionWorld) : Prop where
  groups : w.groups.length ≤ 1
  agents : ∀ slot, (w.agents.filter (·.madeFor = some slot)).length ≤ 1
  known : ∀ what, w.Made what → w.job.state.Recorded what
    ∨ ∃ (i : ℕ) (p : JobProcess) (token : String), w.processes[i]? = some p
      ∧ p.made? = some what ∧ p.token? = some token ∧ w.job.leaseToken = some token
  principals : ∀ record ∈ w.job.state.agentSteps, record.step = .createPrincipal →
    record.agent.isSome
  results : ∀ x ∈ w.job.state.results, ∀ g, x.group? = some g → w.job.createdGroupId = some g
  created : ∀ g, w.job.createdGroupId = some g → g ∈ w.groups
  procs : ∀ (i : ℕ) (p : JobProcess), w.processes[i]? = some p →
    p.Groups w.groups w.job.createdGroupId
  used : ∀ g ∈ w.used, w.job.createdGroupId = some g

theorem eq_of_mem_groups (h : OnceInv w) {g g' : String} (hg : g ∈ w.groups)
    (hg' : g' ∈ w.groups) : g = g' := by
  obtain ⟨x, hx⟩ := List.length_eq_one_iff.1 (Nat.le_antisymm h.groups (List.length_pos_of_mem hg))
  rw [hx] at hg hg'
  rw [mem_singleton.1 hg, mem_singleton.1 hg']

theorem groupId_eq {g : String}
    (h : ∀ x ∈ job.state.results, ∀ g, x.group? = some g → job.createdGroupId = some g)
    (hg : job.groupId = some g) : job.createdGroupId = some g := by
  unfold groupId at hg
  cases hc : job.createdGroupId with
  | some g' =>
    rw [hc] at hg
    exact hg
  | none =>
    rw [hc] at hg
    obtain ⟨x, hx, hxg⟩ := List.exists_of_findSome?_eq_some hg
    exact hc.symm.trans (h x hx g hxg)

theorem OnceInv.of_set (h : OnceInv w) (hps : w'.processes = w.processes.set i p')
    (hp : w.processes[i]? = some p) (hma : p.made? = none)
    (hk : ∀ (j : ℕ) (q : JobProcess) (token : String), j ≠ i → w.processes[j]? = some q →
      q.made?.isSome → q.token? = some token → w.job.leaseToken = some token →
      w'.job.leaseToken = some token)
    (hs : w'.job.state = w.job.state) (hgrp : w'.job.createdGroupId = w.job.createdGroupId)
    (hgr : w'.groups = w.groups) (ha : w'.agents.map (·.madeFor) = w.agents.map (·.madeFor))
    (hu : ∀ g ∈ w'.used, g ∈ w.used ∨ w.job.createdGroupId = some g)
    (hp' : p'.Groups w.groups w.job.createdGroupId) : OnceInv w' := by
  have hf : ∀ slot, (w'.agents.filter (·.madeFor = some slot)).length
      = (w.agents.filter (·.madeFor = some slot)).length := by
    intro slot
    have hc := congrArg (List.countP (fun made : Option String => made = some slot)) ha
    simpa [← List.countP_eq_length_filter, List.countP_map, Function.comp_def] using hc
  have hm' : ∀ what, w'.Made what → w.Made what := by
    intro what hw
    cases what with
    | none =>
      show w.groups ≠ []
      rw [← hgr]
      exact hw
    | some slot =>
      obtain ⟨b, hb, hsl⟩ := hw
      have hm : some slot ∈ w.agents.map (·.madeFor) := ha ▸ mem_map.2 ⟨b, hb, hsl⟩
      exact mem_map.1 hm
  refine ⟨by rw [hgr]; exact h.groups, fun slot => by rw [hf]; exact h.agents slot,
    fun what hw => ?_, by rw [hs]; exact h.principals,
    by rw [hs, hgrp]; exact h.results, by rw [hgrp, hgr]; exact h.created,
    fun j q hq => ?_, fun g hg => ?_⟩
  · rw [hs]
    refine (h.known what (hm' what hw)).imp_right fun ⟨j, q, token, hq, hqm, hqt, hl⟩ => ?_
    have hj : j ≠ i := by
      rintro rfl
      cases hp.symm.trans hq
      cases hma.symm.trans hqm
    refine ⟨j, q, token, ?_, hqm, hqt, hk j q token hj hq (by rw [hqm]; rfl) hqt hl⟩
    rw [hps, List.getElem?_set_ne (Ne.symm hj)]
    exact hq
  · rw [hps] at hq
    rw [hgr, hgrp]
    rcases getElem?_set_cases hq with ⟨-, rfl⟩ | ⟨-, hq⟩
    · exact hp'
    · exact h.procs j q hq
  · rw [hgrp]
    exact (hu g hg).elim (h.used g) id

theorem OnceInv.of_move (h : OnceInv w) (hp : w.processes[i]? = some p) (hm : p.made? = none)
    (hp' : p'.Groups w.groups w.job.createdGroupId) : OnceInv (w.setProcess i p') :=
  h.of_set rfl hp hm (fun _ _ _ _ _ _ _ hl => hl) rfl rfl rfl rfl (fun _ hg => .inl hg) hp'

theorem OnceInv.known_of_holder (h : OnceInv w) (hj : JobInv w) {token : String}
    (hp : w.processes[i]? = some p) (ht : p.token? = some token)
    (hl : w.job.leaseToken = some token) (what : Option String) (hw : w.Made what) :
    w.job.state.Recorded what ∨ p.made? = some what := by
  rcases h.known what hw with hr | ⟨j, q, token', hq, hqm, hqt, hl'⟩
  · exact .inl hr
  cases hl.symm.trans hl'
  cases hj.tokens _ _ _ _ _ hp hq ht hqt
  cases hp.symm.trans hq
  exact .inr hqm

theorem OnceInv.of_write (h : OnceInv w) (hps : w'.processes = w.processes.set i p')
    (hrec : ∀ what, w.Made what → w'.job.state.Recorded what)
    (hp : ∀ rec ∈ w'.job.state.agentSteps, rec.step = .createPrincipal → rec.agent.isSome)
    (hr : ∀ x ∈ w'.job.state.results, ∀ g, x.group? = some g → w'.job.createdGroupId = some g)
    (hm : ∀ g, w.job.createdGroupId = some g → w'.job.createdGroupId = some g)
    (hc : ∀ g, w'.job.createdGroupId = some g → g ∈ w.groups)
    (hre : w'.groups = w.groups ∧ w'.agents = w.agents ∧ w'.used = w.used)
    (hp' : p'.Groups w.groups w'.job.createdGroupId) : OnceInv w' := by
  obtain ⟨hgr, ha, hu⟩ := hre
  have hma : w'.Made = w.Made := by
    funext what
    cases what
    · show (w'.groups ≠ []) = (w.groups ≠ [])
      rw [hgr]
    · show (∃ b ∈ w'.agents, _) = (∃ b ∈ w.agents, _)
      rw [ha]
  refine ⟨by rw [hgr]; exact h.groups, by rw [ha]; exact h.agents,
    fun what hw => .inl (hrec what (hma ▸ hw)), hp, hr,
    by rw [hgr]; exact hc, fun j q hq => ?_, fun g hg => hm g (h.used g (hu ▸ hg))⟩
  rw [hps] at hq
  rw [hgr]
  rcases getElem?_set_cases hq with ⟨-, rfl⟩ | ⟨-, hq⟩
  · exact hp'
  have ho := h.procs j q hq
  cases q with
  | ready | calling => exact fun g hg => hm g (ho g hg)
  | writing | cleaned => exact ho
  | _ => trivial

theorem hasRoleResult_mono {ress results' : List StepResult} {slot : String}
    (h : ress <+: results') (hs : hasRoleResult ress slot) :
    hasRoleResult results' slot := by
  obtain ⟨x, hx, hxs⟩ := any_eq_true.1 hs
  exact any_eq_true.2 ⟨x, h.subset hx, hxs⟩

variable {r : JobRun} {rest : List AgentStep} {task : ProvisionTask} {b : CompanyAgent}
  {role : RolePlan} {issued : ℕ} {id : String}

theorem OnceInv.recorded (h : OnceInv w) (hi : JobInv w) {agent : String × String} {step : AgentStep}
    (hp : w.processes[i]? = some (.recording r role agent step rest))
    (hj : w.recorded? r role agent step issued = some job) :
    OnceInv ({ w with job }.setProcess i (.stepping r role agent rest)) := by
  obtain ⟨hl, rfl⟩ := updateJobAfterLease_eq_some hj
  refine h.of_write rfl (fun what hw => ?_) (fun rec hr hs => ?_) h.results
    (fun _ hg => hg) h.created ⟨rfl, rfl, rfl⟩ trivial
  · rcases h.known_of_holder hi hp rfl hl what hw with hrec | hm
    · cases what with
      | none => exact hrec
      | some slot =>
        rcases hrec with hro | ⟨rec, hr, hsl, hs⟩
        · exact .inl hro
        by_cases hsa : rec.slot = role.slotId ∧ rec.step = step
        · exact .inr ⟨_, mem_append_right _ mem_cons_self, hsa.1.symm.trans hsl,
            hsa.2.symm.trans hs⟩
        · refine .inr ⟨rec, mem_append_left _ (mem_filter.2 ⟨hr, ?_⟩), hsl, hs⟩
          rw [not_and_or] at hsa
          simpa using hsa
    · cases step <;> cases hm
      exact .inr ⟨_, mem_append_right _ mem_cons_self, rfl, rfl⟩
  · rcases mem_snoc.1 hr with ho | rfl
    · exact h.principals rec (mem_of_mem_filter ho) hs
    · rw [if_pos hs]
      rfl

section Written

variable {u : JobUpdate} {token : String}

theorem OnceInv.group_of_pendingWrite (h : OnceInv w) (hp : w.processes[i]? = some p)
    (hu : w.pendingWrite p = some (token, u)) : ∀ g, u.createdGroupId = some g → g ∈ w.groups := by
  intro g hg
  have hk := h.procs i p hp
  cases p with
  | writing | cleaned =>
    cases hu
    exact hk g hg
  | roleDone | roleFailed | skipLeased =>
    cases hu
    cases hg
  | _ => cases hu

theorem OnceInv.recorded_apply (h : OnceInv w) {agents : List String}
    (he : u.Extends w.job.state.results w.job.state.agentSteps agents
      ∨ (u.Extends w.job.state.results [] agents ∧ stepsSettled w.job.state))
    (hrec : w.job.state.Recorded what) : (w.job.apply u).state.Recorded what := by
  have hre : w.job.state.results <+: (w.job.apply u).state.results := by
    rcases he with he | ⟨he, -⟩ <;> exact results_grow he
  cases what with
  | none =>
    obtain ⟨x, hx, hxg⟩ := hrec
    exact ⟨x, hre.subset hx, hxg⟩
  | some slot =>
    rcases hrec with hro | ⟨record, hr, hsl, hs⟩
    · exact .inl (hasRoleResult_mono hre hro)
    rcases he with he | ⟨-, hset⟩
    · refine .inr ⟨record, ?_, hsl, hs⟩
      show record ∈ (u.state.getD w.job.state).agentSteps
      cases hst : u.state with
      | none => exact hr
      | some s =>
        rw [Option.getD_some, he.steps s hst]
        exact hr
    · obtain ⟨agent, hag⟩ := isSome_iff_exists.1 (h.principals record hr hs)
      have ha := all_eq_true.1 hset record hr
      rw [hag, all_some, contains_iff_mem] at ha
      refine .inl (hasRoleResult_mono hre (any_eq_true.2 ⟨_, ha, ?_⟩))
      exact decide_eq_true (congrArg some hsl)

theorem OnceInv.written (h : OnceInv w) (hi : JobInv w)
    (hp : w.processes[i]? = some p) (hu : w.pendingWrite p = some (token, u))
    (hj : w.job.updateJobAfterLease token u issued = some job) (hkp : keeps w (.write i issued)) :
    OnceInv ({ w with job }.setProcess i (afterWrite job p)) := by
  obtain ⟨hl, rfl⟩ := updateJobAfterLease_eq_some hj
  have hgrp := h.group_of_pendingWrite hp hu
  obtain ⟨agents, he⟩ := hi.extends_of_pendingWrite hp hu hl (keepsRecords_of_keeps hp hu hl hkp)
  obtain ⟨steps, ha⟩ : ∃ steps, u.Extends w.job.state.results steps agents :=
    he.elim (fun hk => ⟨_, hk⟩) fun hd => ⟨_, hd.1⟩
  have hm : ∀ g, w.job.createdGroupId = some g → (w.job.apply u).createdGroupId = some g := by
    intro g hg
    show u.createdGroupId.or w.job.createdGroupId = some g
    cases hn : u.createdGroupId with
    | none => rw [Option.none_or, hg]
    | some g' => rw [Option.some_or, eq_of_mem_groups h (hgrp g' hn) (h.created g hg)]
  have hre : ∀ x ∈ (w.job.apply u).state.results, ∀ g, x.group? = some g →
      (w.job.apply u).createdGroupId = some g := by
    intro x hx g hg
    replace hx : x ∈ (u.state.getD w.job.state).results := hx
    cases hst : u.state with
    | none =>
      rw [hst] at hx
      exact hm g (h.results x hx g hg)
    | some s =>
      obtain ⟨more, hmo, hn, -⟩ := ha.results s hst
      rw [hst, Option.getD_some, hmo] at hx
      rcases mem_append.1 hx with hx | hx
      · exact hm g (h.results x hx g hg)
      · show u.createdGroupId.or w.job.createdGroupId = some g
        rw [hn x hx g hg, Option.some_or]
  refine h.of_write rfl (fun what hw => ?_) (fun rec hr hse => ?_) hre hm
    (fun g hg => ?_) ⟨rfl, rfl, rfl⟩ ?_
  · rcases h.known_of_holder hi hp (token_of_pendingWrite hu) hl what hw with hrec | hma
    · exact h.recorded_apply he hrec
    · cases p with
      | writing r u' =>
        cases hu
        obtain ⟨g, hg, rfl⟩ := map_eq_some_iff.1 hma
        obtain ⟨s, hs, x, hx, hxg⟩ := ha.group g hg
        refine ⟨x, ?_, by rw [hxg]; rfl⟩
        show x ∈ (u.state.getD w.job.state).results
        rw [hs]
        exact hx
      | recording => cases hu
      | _ => cases hma
  · replace hr : rec ∈ (u.state.getD w.job.state).agentSteps := hr
    cases hst : u.state with
    | none =>
      rw [hst] at hr
      exact h.principals rec hr hse
    | some s =>
      rcases he with he | ⟨he, -⟩
      · rw [hst, Option.getD_some, he.steps s hst] at hr
        exact h.principals rec hr hse
      · rw [hst, Option.getD_some, he.steps s hst] at hr
        cases hr
  · rcases Option.or_eq_some_iff.1 hg with hg | ⟨-, hg⟩
    · exact hgrp g hg
    · exact h.created g hg
  · cases p with
    | writing r | roleDone r | roleFailed r =>
      show (continued r _).Groups _ _
      rcases continued_cases r (w.job.apply u) with hc | hc <;> rw [hc]
      · trivial
      · exact fun g hg => groupId_eq hre hg
    | skipLeased => trivial
    | cleaned token u cancel => cases cancel <;> trivial
    | _ => cases hu

end Written

theorem OnceInv.createGroup (h : OnceInv w) (hi : JobInv w)
    (hp : w.processes[i]? = some (.calling r .createGroup))
    (hl : w.job.leaseToken = some r.token) :
    OnceInv ({ w with groups := w.groups ++ [id] }.setProcess i
      (.writing r (r.job.afterCall .createGroup true id))) := by
  have hno : w.groups = [] := by
    by_contra hso
    rcases h.known_of_holder hi hp rfl hl none hso with ⟨x, hx, hxg⟩ | hm
    · have hn : r.job.nextTask = .createGroup := hi.wf i _ hp
      have hs : r.job.state.results = w.job.state.results := hi.fresh i _ _ hp rfl hl
      have ha : r.job.state.results.any (·.group?.isSome) := any_eq_true.2 ⟨x, hs ▸ hx, hxg⟩
      cases ha.symm.trans (asksFor_of_nextTask hn)
    · cases hm
  refine ⟨by simp [setProcess, hno], h.agents, fun what hw => ?_, h.principals, h.results,
    fun g hg => mem_append_left _ (h.created g hg), fun j q hq => ?_, h.used⟩
  · cases what with
    | none => exact .inr ⟨i, _, r.token, getElem?_set_of_some hp, rfl, rfl, hl⟩
    | some slot =>
      rcases h.known_of_holder hi hp rfl hl (some slot) hw with hr | hm
      · exact .inl hr
      · cases hm
  · rcases getElem?_set_cases hq with ⟨-, rfl⟩ | ⟨-, hq⟩
    · intro g hg
      cases hg
      exact mem_append_right _ mem_cons_self
    · have ho := h.procs j q hq
      cases q with
      | writing | cleaned => exact fun g hg => mem_append_left _ (ho g hg)
      | ready | calling => exact ho
      | _ => trivial

theorem OnceInv.createAgent (h : OnceInv w) (hi : JobInv w) {name id : String} {webhook : Bool}
    (hp : w.processes[i]? = some (.principal r role name webhook))
    (hl : w.job.leaseToken = some r.token) (hb : b.madeFor = some role.slotId) :
    OnceInv ({ w with agents := w.agents ++ [b] }.setProcess i
      (.recording r role (id, name) .createPrincipal rest)) := by
  obtain ⟨hro, hsts⟩ := hi.fresh i _ _ hp rfl hl
  have hn : ∀ c ∈ w.agents, c.madeFor ≠ some role.slotId := by
    intro c hc hsl
    rcases h.known_of_holder hi hp rfl hl (some role.slotId) ⟨c, hc, hsl⟩
      with (hres | ⟨record, hr, hsl, hs⟩) | hm
    · cases hro.symm.trans hres
    · exact hsts record hr hsl hs
    · cases hm
  refine ⟨h.groups, fun slot => ?_, fun what hw => ?_, h.principals, h.results, h.created,
    fun j q hq => ?_, h.used⟩
  · show ((w.agents ++ [b]).filter _).length ≤ 1
    rw [filter_append, length_append]
    by_cases hsl : role.slotId = slot
    · have hz : w.agents.filter (·.madeFor = some slot) = [] := filter_eq_nil_iff.2 fun c hc hs' =>
          hn c hc (by simpa [hsl] using hs')
      rw [hz, List.length_nil, Nat.zero_add]
      exact List.length_filter_le _ [b]
    · simpa [hb, hsl] using h.agents slot
  · have hh : what = some role.slotId ∨ w.Made what := by
      cases what with
      | none => exact .inr hw
      | some slot =>
        obtain ⟨c, hc, hsl⟩ := hw
        rcases mem_snoc.1 hc with hc | rfl
        · exact .inr ⟨c, hc, hsl⟩
        · exact .inl (hsl.symm.trans hb)
    rcases hh with rfl | ho
    · exact .inr ⟨i, _, r.token, getElem?_set_of_some hp, rfl, rfl, hl⟩
    rcases h.known_of_holder hi hp rfl hl what ho with hrec | hm
    · exact .inl hrec
    · cases hm
  · rcases getElem?_set_cases hq with ⟨-, rfl⟩ | ⟨-, hq⟩
    · trivial
    · exact h.procs j q hq

theorem groupId_of_nextTask {g id : String} (h : job.nextTask = task)
    (hg : g ∈ (carryOut w task id).used) : g ∈ w.used ∨ job.groupId = some g := by
  have ha := asksFor_of_nextTask h
  cases task with
  | addMember group | enableRouting group | postKickoff group =>
    refine (mem_append.1 hg).imp_right fun hn => ?_
    rw [mem_singleton.1 hn]
    exact ha
  | _ => exact .inl hg

section

variable (h : OnceInv w)
include h

theorem OnceInv.call (hi : JobInv w)
    {effect ok : Bool} (hp : w.processes[i]? = some (.calling r task))
    (hc : careful w (.call i effect ok id)) :
    OnceInv ((if effect then w.carryOut task id else w).setProcess i
      (.writing r (r.job.afterCall task ok id))) := by
  have hk : ∀ g, r.job.groupId = some g → w.job.createdGroupId = some g := h.procs i _ hp
  have hn : r.job.nextTask = task := hi.wf i _ hp
  by_cases hgrp : task = .createGroup
  · subst hgrp
    simp [careful, keeps, hp] at hc
    obtain ⟨rfl, hl⟩ := hc
    cases effect
    · refine h.of_move hp rfl fun g hg => ?_
      cases hg
    · exact h.createGroup hi hp hl
  · have hw : ∀ g, (r.job.afterCall task ok id).createdGroupId ≠ some g := by
      intro g hg
      cases task <;> cases ok <;> first | exact hgrp rfl | cases hg
    cases effect
    · exact h.of_move hp rfl fun g hg => absurd hg (hw g)
    · have hu : ∀ g ∈ (w.carryOut task id).used, g ∈ w.used ∨ w.job.createdGroupId = some g :=
        fun g hg => (groupId_of_nextTask hn hg).imp_right (hk g)
      obtain ⟨hj, hps, ha, -⟩ := carryOut_frame w task id true
      refine h.of_set (p := .calling r task) (congrArg (List.set · i _) hps) hp rfl ?_
        (congrArg (·.state) hj) (congrArg (·.createdGroupId) hj) ?_
        (congrArg (List.map (·.madeFor)) ha) hu fun g hg => absurd hg (hw g)
      · intro j q token _ _ _ _ hl
        rw [← hl]
        exact congrArg (·.leaseToken) hj
      · cases task <;> first | exact absurd rfl hgrp | rfl

theorem OnceInv.of_row (hi : JobInv w) {token : String}
    (hp : w.processes[i]? = some p) (hm : p.made? = none) (ht : p.token? = some token)
    (hs : job.state = w.job.state) (hgrp : job.createdGroupId = w.job.createdGroupId)
    (hl : w.job.leaseToken ≠ some token → job.leaseToken = w.job.leaseToken)
    (hp' : p'.Groups w.groups w.job.createdGroupId) : OnceInv ({ w with job }.setProcess i p') := by
  refine h.of_set rfl hp hm ?_ hs hgrp rfl rfl (fun _ hg => .inl hg) hp'
  intro j q token' hj hq _ hqt hl'
  refine (hl fun ho => ?_).trans hl'
  cases ho.symm.trans hl'
  exact hj (hi.tokens _ _ _ _ _ hq hp hqt ht)

theorem beginTask_groups (hp : w.processes[i]? = some (.ready r)) :
    (w.beginTask r).Groups w.groups w.job.createdGroupId := by
  have hk : ∀ g, r.job.groupId = some g → w.job.createdGroupId = some g := h.procs i _ hp
  rcases beginTask_cases w r with ⟨u, hu, heq⟩ | heq | ⟨task, -, heq⟩ | ⟨_, _, -, -, -, heq⟩
    | ⟨_, _, _, -, -, heq⟩ | ⟨_, _, _, _, -, -, -, heq⟩ | ⟨_, heq⟩
  · rw [heq]
    intro g hg
    rw [(asksFor_of_nextTask hu).1] at hg
    cases hg
  · rcases continued_cases r r.job with hc | hc <;> rw [heq, hc]
    · trivial
    · exact hk
  · rw [heq]
    exact hk
  all_goals
    rw [heq]
    trivial

theorem OnceInv.spawn (hp : p.Groups w.groups w.job.createdGroupId) : OnceInv (w.addProcess p) := by
  refine { h with known := fun what hw => ?_, procs := fun j q hq => ?_ }
  · refine (h.known what hw).imp_right fun ⟨j, q, token, hq, hr⟩ => ⟨j, q, token, ?_, hr⟩
    exact (List.getElem?_append_left (getElem?_eq_some_iff.1 hq).1).trans hq
  · rcases getElem?_snoc_cases hq with hq | rfl
    · exact h.procs j q hq
    · exact hp

theorem OnceInv.lease {token : String} {leaseMs : ℕ}
    (hp : w.processes[i]? = some p) (hj : w.job.acquireLease token w.now leaseMs = some job)
    (hp' : leased job token p = some p') (hn : w.processes.all (·.made?.isNone)) :
    OnceInv ({ w with job }.setProcess i p') := by
  have ha : ∀ q ∈ w.processes, q.made?.isNone := all_eq_true.1 hn
  unfold acquireLease at hj
  split_ifs at hj
  cases hj
  refine h.of_set rfl hp (isNone_iff_eq_none.1 (ha p (mem_of_getElem? hp))) ?_
    rfl rfl rfl rfl (fun _ hg => .inl hg) ?_
  · intro j q _ _ hq hm
    rw [isNone_iff_eq_none.1 (ha q (mem_of_getElem? hq))] at hm
    cases hm
  · cases p <;> cases hp'
    · exact fun g hg => groupId_eq h.results hg
    · trivial
    · trivial

theorem OnceInv.otherAgent (hb : b.madeFor = none) :
    OnceInv { w with agents := w.agents ++ [b] } := by
  refine { h with agents := fun slot => ?_, known := fun what hw => h.known what ?_ }
  · rw [filter_append, List.filter_singleton, hb]
    simpa using h.agents slot
  · cases what with
    | none => exact hw
    | some slot =>
      obtain ⟨c, hc, hs⟩ := hw
      rcases mem_append.1 hc with hc | hc
      · exact ⟨c, hc, hs⟩
      · rw [mem_singleton.1 hc, hb] at hs
        cases hs

end

theorem aborted_groups (p : JobProcess) (groups : List String) (created : Option String) :
    p.aborted.Groups groups created := by
  rcases aborted_cases p with heq | ⟨_, -, heq⟩
  all_goals
    rw [heq]
    trivial

theorem OnceInv.next (h : OnceInv w) (hi : JobInv w) (hca : careful w a)
    (hs : step prims w a = some w') : OnceInv w' := by
  obtain ⟨hk, hc⟩ := and_eq_true_iff.1 hca
  cases change_of_step hs with
  | spawn hp =>
    obtain ⟨_, rfl⟩ | ⟨_, rfl⟩ | ⟨_, _, rfl⟩ := hp
    all_goals exact h.spawn trivial
  | skip => exact h.spawn trivial
  | lease hp _ hj hp' => exact h.lease hp hj hp' hc
  | begin hp => exact h.of_move hp rfl (beginTask_groups h hp)
  | validated names issues hp => exact h.of_move hp rfl fun g hg => nomatch hg
  | call hp => exact h.call hi hp hca
  | @createAgent i r role name webhook effect ok id hp =>
    simp only [hp, all_some, and_eq_true, decide_eq_true_eq] at hc
    obtain ⟨rfl, hl⟩ := hc
    cases effect
    · exact h.of_move hp rfl trivial
    · exact h.createAgent hi hp hl rfl
  | @stepped i ok r role agent rest p hp hp' =>
    refine h.of_move hp rfl ?_
    obtain rfl | rfl | ⟨_, _, -, rfl | rfl⟩ := hp'
    all_goals trivial
  | recorded hp _ hj => exact h.recorded hi hp hj
  | @unrecorded i issued r role agent step rest hp hj =>
    refine h.of_move hp ?_ trivial
    cases step with
    | createPrincipal =>
      simp only [hp] at hc
      rw [recorded?, if_pos rfl] at hj
      rw [hj] at hc
      cases hc
    | persistToken | createWorkspace | writeInstructions | copySkills | installOutboxHelper
    | createDirectConversation | createRuntimeBinding | registerWebhook
    | storeRoleTemplateProvenance => rfl
  | @cleanup i ok r cancel softDelete hp =>
    refine h.of_set rfl hp rfl (fun _ _ _ _ _ _ _ hl => hl) rfl rfl rfl ?_
      (fun _ hg => .inl hg) ?_
    · dsimp only [cleanedUp, setProcess]
      split_ifs
      · rw [disableAgents, map_map]
        refine map_congr_left fun b _ => ?_
        dsimp only [Function.comp_apply]
        split_ifs <;> rfl
      · rfl
    · cases cancel <;> exact fun g hg => nomatch hg
  | written hp hu _ hj => exact h.written hi hp hu hj hk
  | @unwritten i issued p token u hp hu hj =>
    refine h.of_move hp ?_ (aborted_groups p _ _)
    cases p with
    | writing r u' =>
      cases hu
      simp only [hp, hj, Option.isSome_none, Bool.or_false] at hc
      show Option.map _ u.createdGroupId = none
      rw [isNone_iff_eq_none.1 hc]
      rfl
    | recording => cases hu
    | _ => rfl
  | canceled hp hj =>
    unfold cancelJob at hj
    split_ifs at hj with hgu
    cases hj
    simp only [and_eq_true, decide_eq_true_eq] at hgu
    exact h.of_row hi hp rfl rfl rfl rfl (fun hne => absurd hgu.1.1 hne) trivial
  | uncanceled hp | unretried hp => exact h.of_move hp rfl trivial
  | @released i token next p hp hp' =>
    obtain ⟨hst, -, hgrp, -⟩ := releaseLease_row w.job token
    have hl : w.job.leaseToken ≠ some token →
        (w.job.releaseLease token).leaseToken = w.job.leaseToken := fun hne => by
      rw [releaseLease, if_neg hne]
    obtain rfl | ⟨_, rfl⟩ := hp'
    all_goals exact h.of_row hi hp rfl rfl hst hgrp hl trivial
  | retried hp hj =>
    cases prepareRetry_row hj
    exact h.of_set rfl hp rfl (fun _ _ _ _ _ _ _ hl => hl) rfl rfl rfl rfl
      (fun _ hg => .inl hg) trivial
  | @aborted i p hp =>
    simp only [hp, all_some, isNone_iff_eq_none] at hc
    exact h.of_move hp hc (aborted_groups p _ _)
  | crashed hp =>
    simp only [hp, all_some, isNone_iff_eq_none] at hc
    exact h.of_move hp hc trivial
  | otherAgent _ ho => exact h.otherAgent ho
  | pass => exact { h with }

theorem OnceInv.inserted (companyId : String) (plan : LaunchPlan) (agents : List CompanyAgent)
    (now : ℕ) : OnceInv (inserted companyId plan agents now) where
  groups := Nat.zero_le _
  agents slot := by
    rw [filter_eq_nil_iff.2]
    · exact Nat.zero_le _
    · intro b hb
      obtain ⟨_, -, rfl⟩ := mem_map.1 hb
      simp
  known what hw := by
    cases what with
    | none => exact absurd rfl hw
    | some slot =>
      obtain ⟨b, hb, hs⟩ := hw
      obtain ⟨_, -, rfl⟩ := mem_map.1 hb
      cases hs
  principals _ hr := nomatch hr
  results _ hx := nomatch hx
  created _ hg := nomatch hg
  procs _ _ hp := nomatch hp
  used _ hg := nomatch hg

/-- Over runs in which what a job creates is recorded while the lease is held, there is one group
and one agent for a slot at most, and members, routing policy and kickoff go to the job's group. -/
theorem provisioned_once {companyId : String} {plan : LaunchPlan} {agents : List CompanyAgent}
    {now : ℕ} (hr : Steps (restrict (step prims) fun w a => careful w a)
      (inserted companyId plan agents now) w) :
    w.groups.length ≤ 1 ∧ (∀ slot, (w.agents.filter (·.madeFor = some slot)).length ≤ 1)
      ∧ ∀ g ∈ w.used, w.job.createdGroupId = some g := by
  have hi : JobInv w ∧ OnceInv w := by
    refine hr.keeps (I := fun w => JobInv w ∧ OnceInv w) (fun ⟨hj, ho⟩ hc hs => ?_)
      ⟨.inserted companyId plan agents now, .inserted companyId plan agents now⟩
    exact ⟨hj.next (and_eq_true_iff.1 hc).1 hs, ho.next hj hc hs⟩
  exact ⟨hi.2.groups, hi.2.agents, hi.2.used⟩

def untilCompleted : List ProvisionAction :=
  [.begin 0, .write 0 0] ++ [.begin 0, .call 0 true true "g", .write 0 0]
    ++ (List.replicate 2 [.begin 0, .call 0 true true "x", .write 0 0]).flatten
    ++ [.begin 0, .write 0 0] ++ [.begin 0, .call 0 true true "x", .write 0 0]

theorem provisioned_once_completed : ∃ w,
    Steps (restrict (step plainNames) fun w a => careful w a) oneRole w
      ∧ w.job.status = .completed ∧ w.groups = ["g"] ∧ w.used = ["g", "g", "g"]
      ∧ w.groups.length ≤ 1 ∧ (∀ slot, (w.agents.filter (·.madeFor = some slot)).length ≤ 1)
      ∧ ∀ g ∈ w.used, w.job.createdGroupId = some g := by
  refine Exists.imp (fun w h => ⟨h.1, h.2.1, h.2.2.1, h.2.2.2, provisioned_once h.1⟩)
    (exists_run (P := fun w : ProvisionWorld => w.job.status = .completed ∧ w.groups = ["g"]
      ∧ w.used = ["g", "g", "g"]) (untilRecorded ++ untilProvisioned 0 8 ++ untilCompleted) ?_)
  decide +kernel

/-- The lease runs out while the first runner creates the group, and a second runner creates
another. -/
theorem expired_lease_creates_two_groups : ∃ w,
    Steps (step plainNames) (inserted "acme" ⟨"team", [], []⟩ [] 0) w ∧ 1 < w.groups.length := by
  refine exists_run [.runJob 10, .takeLease 0 "t" 100, .begin 0, .validated 0 [] [], .write 0 0,
      .begin 0,
        .write 0 0, .begin 0, .call 0 true true "g", .pass 200, .runJob 10, .takeLease 1 "u" 100,
        .begin 1, .call 1 true true "h"] ?_
  decide +kernel

end ProvisionWorld

end Choruz
