import Choruz.Cron
import Choruz.Proofs.CommitResult
import Choruz.Proofs.RouteEvent
import Choruz.Proofs.Threads

/-!
# An occurrence is dispatched once, and a claim is exclusive

The message of an occurrence has a derived id and its command is looked up under the lock of that
id, so each is inserted once.  A claim keeps others off for the timeout as long as `running_at`
tells when the newest claim was made: a claim that takes over a stale one leaves the old instant
there, and a scheduler that was taken over clears the newer claim when it ends.  Before that,
`Moves` says what the step of each action leaves.
-/

namespace Choruz

section

open Relational PassStage

def PassStage.rows : PassStage → List ClaimedJob
  | .idle => []
  | .working rows => rows
  | .dispatched row rest | .failed row rest => row :: rest

@[simp] theorem PassStage.next_rows (rows : List ClaimedJob) : (next rows).rows = rows := by
  cases rows <;> rfl

def CronEdit.Sound (cal : Calendar) (call : CronEdit) : Prop :=
  match call.stage with
  | .writing none => call.body.changesSchedule = false
  | .writing (some r) => call.body.nextRun cal r.read r.after = .ok r.next
  | _ => True

namespace CronWorld

variable {cal : Calendar} {w next : CronWorld} {action : CronAction}

variable {i : ℕ} {stage stage' : PassStage} {call : CronEdit}

def Holds (w : CronWorld) (row : ClaimedJob) : Prop := ∃ stage ∈ w.passes, row ∈ stage.rows

/-- What the step of an action leaves. -/
inductive Moves (cal : Calendar) (w : CronWorld) : CronAction → CronWorld → Prop where
  | quiet {action : CronAction} {next : CronWorld} (hjobs : next.jobs = w.jobs)
      (hdb : next.db = w.db) (hhistory : next.history = w.history) (hclock : w.clock ≤ next.clock)
      (hrows : ∀ row, next.Holds row → w.Holds row)
      (hedits : ∀ call ∈ next.edits, call ∈ w.edits ∨ call.Sound cal) : Moves cal w action next
  | call {call : Call} {fault answer db} (h : call.exec w.db = .ok (answer, db)) :
      Moves cal w (.call call fault) { w with db }
  | create {access agentId id body utcNow fault job jobs}
      (hnew : w.history.any (·.creates id) = false)
      (hjob : createCronJob cal access agentId id body utcNow = .ok job)
      (hins : w.jobs.insert? job = some jobs) :
      Moves cal w (.create access agentId id body utcNow fault) { w with
        jobs
        history := [.created id agentId, .saved id true, .scheduled id utcNow] ++ w.history }
  | delete {access agentId jobId fault} {jobs : CronJobs} (hjobs : ∀ j ∈ jobs, j ∈ w.jobs) :
      Moves cal w (.delete access agentId jobId fault) { w with jobs }
  | claim {i : ℕ} {locked fault} {passes : List PassStage}
      (hrows : ∀ row, (∃ stage ∈ passes, row ∈ stage.rows) →
        w.Holds row ∨ row ∈ (claimDueJobs w.jobs w.clock locked).1) :
      Moves cal w (.advance i (.claim locked fault)) { w with
        jobs := (claimDueJobs w.jobs w.clock locked).2
        passes
        history := (selectDueJobs w.jobs w.clock locked).map (fun j => .claimed i j.id w.clock)
          ++ w.history }
  | dispatch {i : ℕ} {k ids fault row db} {passes : List PassStage} (hrow : w.Holds row)
      (h : w.db.dispatchCronOccurrence w.clock (row.dispatch ids) = .ok db)
      (hrows : ∀ r, (∃ stage ∈ passes, r ∈ stage.rows) → w.Holds r) :
      Moves cal w (.advance i (.dispatch k ids fault)) { w with
        db
        passes
        history := row.inserted w.db db ++ w.history }
  | finish {i : ℕ} {utcNow fault} {stage : PassStage} {row} {passes : List PassStage}
      (hstage : w.passes[i]? = some stage) (hrow : stage.atHand = some row)
      (hrows : ∀ r, (∃ stage ∈ passes, r ∈ stage.rows) → w.Holds r) :
      Moves cal w (.advance i (.finish utcNow fault)) { w with
        jobs := w.jobs.updateWhere (·.id = row.job.id)
          (CronJob.finish w.clock row.job.schedule (row.job.schedule.nextAfterRun cal utcNow))
          (CronJob.finish_id _ _ _)
        passes
        history := [if row.job.schedule.type = .oneShot then .ran row.job.id row.job.schedule
          else .scheduled row.job.id utcNow, .released i row.job.id] ++ w.history }
  | release {i : ℕ} {fault} {stage : PassStage} {row} {passes : List PassStage}
      (hstage : w.passes[i]? = some stage) (hrow : stage.atHand = some row)
      (hrows : ∀ r, (∃ stage ∈ passes, r ∈ stage.rows) → w.Holds r) :
      Moves cal w (.advance i (.release fault)) { w with
        jobs := w.jobs.updateWhere (·.id = row.job.id) CronJob.unclaim fun _ => rfl
        passes
        history := [.released i row.job.id] ++ w.history }
  | edit {i : ℕ} {fault} {call : CronEdit} {recomputed jobs} {edits : List CronEdit}
      (hcall : w.edits[i]? = some call)
      (hstage : call.stage = .writing recomputed)
      (hjobs : w.jobs.update call.agentId call.jobId call.body (recomputed.map (·.next)) w.clock
        = .ok jobs)
      (hedits : ∀ call ∈ edits, call ∈ w.edits ∨ call.Sound cal) :
      Moves cal w (.edit i (.write fault)) { w with
        jobs
        edits
        history := (call.body.enabled.toList.map (.saved call.jobId) ++
          recomputed.toList.map fun r => .scheduled call.jobId r.after) ++ w.history }

theorem holds_of_set {P : ClaimedJob → Prop} (hi : w.passes[i]? = some stage)
    (hsub : ∀ row ∈ stage'.rows, row ∈ stage.rows ∨ P row) {row : ClaimedJob}
    (h : ∃ s ∈ w.passes.set i stage', row ∈ s.rows) : w.Holds row ∨ P row := by
  obtain ⟨s, hs, hr⟩ := h
  rcases mem_or_eq_of_mem_set hs with hs | rfl
  · exact .inl ⟨s, hs, hr⟩
  · exact (hsub row hr).imp_left fun h => ⟨stage, mem_of_getElem? hi, h⟩

theorem holds_of_subset (hi : w.passes[i]? = some stage)
    (hs : ∀ row ∈ stage'.rows, row ∈ stage.rows) :
    ∀ row, (∃ s ∈ w.passes.set i stage', row ∈ s.rows) → w.Holds row := fun _ h =>
  (holds_of_set (P := fun _ => False) hi (fun r hr => .inl (hs r hr)) h).elim id False.elim

theorem sound_of_set {call' : CronEdit} (hc' : call'.Sound cal) :
    ∀ c ∈ w.edits.set i call', c ∈ w.edits ∨ c.Sound cal :=
  forall_mem_set (fun _ => .inl) (.inr hc')

theorem Moves.setPass (hi : w.passes[i]? = some stage)
    (hs : ∀ row ∈ stage'.rows, row ∈ stage.rows) : Moves cal w action (w.setPass i stage') :=
  .quiet rfl rfl rfl le_rfl (holds_of_subset hi hs) fun _ h => .inl h

theorem Moves.setEdit {stage : EditStage} (hs : CronEdit.Sound cal { call with stage }) :
    Moves cal w action (w.setEdit i call stage) :=
  .quiet rfl rfl rfl le_rfl (fun _ h => h) (sound_of_set hs)

theorem moves_of_passStep {op : PassOp} (hi : w.passes[i]? = some stage)
    (h : w.passStep cal i stage op = some next) : Moves cal w (.advance i op) next := by
  cases op with
  | claim locked fault =>
    cases stage with
    | idle =>
      simp [passStep] at h
      subst h
      unfold commit
      split_ifs with hb hn hn
      · cases hb.symm.trans hn
      · exact Moves.setPass hi fun _ h => h
      · refine Moves.claim fun row hrow => holds_of_set hi (fun r hr => .inr ?_) hrow
        rwa [next_rows] at hr
      · exact Moves.claim fun row hrow => holds_of_set hi (fun _ hr => .inl hr) hrow
    | _ => simp [passStep] at h
  | dispatch k ids fault =>
    cases stage with
    | working rows =>
      simp [passStep] at h
      split at h
      · cases h
      rename_i row hrow
      have hm : row ∈ rows := mem_of_getElem? hrow
      have hs : ∀ r ∈ row :: rows.eraseIdx k, r ∈ rows := fun r hr =>
        (mem_cons.1 hr).elim (fun h => h ▸ hm) fun h => List.mem_of_mem_eraseIdx h
      rcases ho : fault.outcome "commit: connection closed" w.db
        ((w.db.dispatchCronOccurrence w.clock (row.dispatch ids)).map fun db => ((), db)) with
        ⟨db, result⟩
      rw [ho] at h
      cases h
      rcases Fault.outcome_cases ho with ⟨_, hok, -⟩ | ⟨rfl, -⟩
      · refine .dispatch ⟨_, mem_of_getElem? hi, hm⟩ (map_pair_eq_ok hok) (holds_of_subset hi ?_)
        split <;> exact hs
      · refine .quiet rfl rfl ?_ le_rfl (holds_of_subset hi ?_) fun _ h => .inl h
        · simp [setPass, ClaimedJob.inserted]
        · split <;> exact hs
    | _ => simp [passStep] at h
  | finish utcNow fault =>
    cases stage with
    | dispatched row rest =>
      simp [passStep] at h
      subst h
      have hs : ∀ r ∈ (next rest).rows, r ∈ row :: rest := fun _ hr => by simp_all
      unfold commit
      by_cases hb : fault = .rolledBack
      · rw [if_pos hb]
        exact Moves.setPass hi hs
      · rw [if_neg hb]
        exact .finish hi rfl (holds_of_subset hi hs)
    | _ => simp [passStep] at h
  | release fault =>
    cases stage with
    | failed row rest =>
      simp [passStep] at h
      subst h
      have hs : ∀ r ∈ (next rest).rows, r ∈ row :: rest := fun _ hr => by simp_all
      unfold commit
      split_ifs
      · exact Moves.setPass hi hs
      · exact .release hi rfl (holds_of_subset hi hs)
    | _ => simp [passStep] at h
  | crash =>
    simp [passStep] at h
    subst h
    exact Moves.setPass hi fun _ h => by cases h

theorem sound_readCurrent (call : CronEdit) (utcNow : Timestamp) :
    CronEdit.Sound cal { call with stage := w.readCurrent cal call utcNow } := by
  unfold CronEdit.Sound readCurrent
  split
  next hst =>
    split at hst
    · cases hst
    split at hst <;> cases hst
  next r hst =>
    split at hst
    · cases hst
    split at hst <;> cases hst
    rename_i hn
    exact hn
  · trivial

theorem moves_of_editStep {op : EditOp} (hi : w.edits[i]? = some call)
    (h : w.editStep cal i call op = some next) : Moves cal w (.edit i op) next := by
  cases op with simp [editStep] at h
  | check access =>
    split at h <;> cases h
    · exact Moves.setEdit trivial
    · refine Moves.setEdit ?_
      by_cases hc : call.body.changesSchedule
      · rw [if_pos hc]
        trivial
      · rw [if_neg hc]
        exact eq_false_iff.2 hc
  | read utcNow fault =>
    split at h <;> cases h
    by_cases hf : fault = .none
    · rw [if_pos hf]
      exact Moves.setEdit (sound_readCurrent call utcNow)
    · rw [if_neg hf]
      exact Moves.setEdit trivial
  | write fault =>
    split at h
    next recomputed hst =>
      split at h <;> cases h
      · exact Moves.setEdit trivial
      next jobs hj =>
        unfold commit
        by_cases hb : fault = .rolledBack
        · rw [if_pos hb]
          exact Moves.setEdit trivial
        · rw [if_neg hb]
          exact .edit hi hst hj (sound_of_set trivial)
    · cases h

theorem moves_of_step (h : w.step cal act = some next) : Moves cal w act next := by
  have hs : ∀ {act : CronAction}, Moves cal w act w :=
    .quiet rfl rfl rfl le_rfl (fun _ h => h) fun _ h => .inl h
  have hc : ∀ {act : CronAction} {fault : Fault} {jobs : CronJobs} {es : List CronEvent},
      Moves cal w act { w with jobs, history := es ++ w.history } →
        Moves cal w act (w.commit fault jobs es) := by
    intro act fault jobs es hm
    unfold commit
    split
    · exact hs
    · exact hm
  cases act with
  | tick now =>
    simp only [step] at h
    split_ifs at h with hle
    cases h
    exact .quiet rfl rfl rfl hle (fun _ h => h) fun _ h => .inl h
  | create access agentId id body utcNow fault =>
    simp only [step] at h
    split_ifs at h with hn
    split at h
    · cases h
      exact hs
    next job hjob =>
      split at h <;> cases h
      · exact hs
      next jobs hins => exact hc (.create (eq_false_iff.2 hn) hjob hins)
  | delete access agentId jobId fault =>
    simp [step] at h
    split at h <;> cases h
    · exact hs
    · exact hc (.delete fun j hj => (mem_filter.1 hj).1)
  | startScheduler =>
    cases h
    refine .quiet rfl rfl rfl le_rfl ?_ fun _ h => .inl h
    rintro row ⟨stage, hst, hr⟩
    rcases mem_snoc.1 hst with hst | rfl
    · exact ⟨stage, hst, hr⟩
    · cases hr
  | advance i op =>
    obtain ⟨stage, hi, h⟩ := bind_eq_some_iff.1 h
    exact moves_of_passStep hi h
  | beginEdit agentId jobId body =>
    cases h
    exact .quiet rfl rfl rfl le_rfl (fun _ h => h) (forall_mem_snoc (fun _ => .inl) (.inr trivial))
  | edit i op =>
    obtain ⟨call, hi, h⟩ := bind_eq_some_iff.1 h
    exact moves_of_editStep hi h
  | call call fault =>
    simp [step] at h
    split at h <;> cases h
    · exact hs
    · exact hs
    next he => exact .call he

end CronWorld

structure Db.Keeps (db db' : Db) : Prop where
  event : ∀ {id : String}, db.hasEvent id → db'.hasEvent id
  command : ∀ {messageId agentId : String}, db.hasCommandFor messageId agentId →
    db'.hasCommandFor messageId agentId

namespace Db.Keeps

variable {db db1 db' : Db} {now : Timestamp} {d : CronDispatch}

theorem of_rows (hevs : ∀ e ∈ db.conversationEvents, e ∈ db'.conversationEvents)
    (hcm : ∀ c ∈ db.agentCommands, ∃ c' ∈ db'.agentCommands,
      c'.messageId = c.messageId ∧ c'.agentId = c.agentId) : db.Keeps db' := by
  constructor
  · intro id h
    obtain ⟨e, he, hid⟩ := any_eq_true.1 h
    exact any_eq_true.2 ⟨e, hevs e he, hid⟩
  · intro messageId agentId h
    obtain ⟨c, hc, hf⟩ := any_eq_true.1 h
    obtain ⟨c', hc', hm, ha⟩ := hcm c hc
    refine any_eq_true.2 ⟨c', hc', ?_⟩
    rwa [hm, ha]

theorem refl (db : Db) : db.Keeps db := ⟨id, id⟩

theorem trans (h : db.Keeps db1) (h' : db1.Keeps db') : db.Keeps db' :=
  ⟨fun he => h'.event (h.event he), fun hc => h'.command (h.command hc)⟩

theorem exec {call : Call} {ans : Answer} (h : call.exec db = .ok (ans, db')) :
    db.Keeps db' := by
  refine of_rows (fun e he => (exec_records h).events.subset he) fun c hc => ?_
  obtain ⟨c', hc', hs⟩ := (exec_effect h).row_to c hc
  exact ⟨c', hc', hs.messageId_eq, hs.agentId_eq⟩

theorem upsertSession (now : Timestamp) (k a conv : String) :
    db.Keeps (db.upsertSession now k a conv) := by
  unfold Db.upsertSession
  split <;> exact of_rows (fun _ h => h) fun c hc => ⟨c, hc, rfl, rfl⟩

theorem announceOccurrence (h : db.announceOccurrence now d = .ok db') : db.Keeps db' := by
  unfold Db.announceOccurrence at h
  split_ifs at h
  · cases h
    exact refl db
  · split at h <;> cases h
    rename_i hi
    simp only [Db.insertConversationEvent, map_eq_some_iff] at hi
    obtain ⟨_, hr, -, rfl⟩ := hi
    obtain ⟨-, _, _, _, rfl⟩ := Db.insertEventRow_eq_some db hr
    exact of_rows (fun e he => mem_append_left _ he) fun c hc => ⟨c, hc, rfl, rfl⟩

theorem commandOccurrence (h : db.commandOccurrence now d = .ok db') : db.Keeps db' := by
  unfold Db.commandOccurrence at h
  split_ifs at h
  · cases h
    exact refl db
  · split at h
    · cases h
    split at h <;> cases h
    rename_i hi
    obtain ⟨commands, hr, rfl⟩ := insertCommandRow_eq_ok hi
    exact of_rows (fun e he => he) fun c hc => ⟨c, (mem_insert? hr).2 (.inl hc), rfl, rfl⟩

theorem dispatch (h : db.dispatchCronOccurrence now d = .ok db') : db.Keeps db' := by
  simp [Db.dispatchCronOccurrence] at h
  split at h
  · cases h
  rename_i ha
  exact (upsertSession _ _ _ _).trans ((announceOccurrence ha).trans (commandOccurrence h))

end Db.Keeps

end

variable {jobs : CronJobs} {j : CronJob} {agentId jobId : String} {now : Timestamp}
  {locked : List String} {row : ClaimedJob} {db db' : Db} {es h : List CronEvent}
  {passes : List PassStage} {utcNow : Timestamp} {job : CronJob} {e : CronEvent} {i : ℕ}
  {t : Timestamp}

open Relational CronWorld CronEvent

def CronJob.SameJob (j j0 : CronJob) : Prop := j.id = j0.id ∧ j.agentId = j0.agentId

theorem sameJob_updateWhere {p : CronJob → Bool} {f : CronJob → CronJob}
    (hid : ∀ j, (f j).id = j.id) (hj : j ∈ jobs.updateWhere p f hid)
    (ha : ∀ j, (f j).agentId = j.agentId) : ∃ j0 ∈ jobs, j.SameJob j0 := by
  obtain ⟨j0, hj0, ⟨-, rfl⟩ | ⟨-, rfl⟩⟩ := source_of_mem_updateWhere hid hj
  · exact ⟨j0, hj0, hid j0, ha j0⟩
  · exact ⟨j, hj0, rfl, rfl⟩

theorem source_of_update {jobs' : CronJobs} {body : UpdateCronJobRequest}
    {newNextRun : Option Timestamp}
    (h : jobs.update agentId jobId body newNextRun now = .ok jobs') (hj : j ∈ jobs') :
    ∃ j0 ∈ jobs, (j = j0 ∧ j0.id ≠ jobId) ∨ (j0.id = jobId ∧ ∃ type mode,
      UpdateCronJobRequest.column? ScheduleType.ofStr? body.scheduleType = some type ∧
        j = body.apply type mode newNextRun now j0) := by
  unfold CronJobs.update at h
  split_ifs at h with hf
  split at h <;> cases h
  next type mode ht _ =>
    obtain ⟨j0, hj0, ⟨hp, rfl⟩ | ⟨hp, rfl⟩⟩ := source_of_mem_updateWhere
      (f := body.apply type mode newNextRun now) (fun _ => rfl) hj
    · simp at hp
      exact ⟨j0, hj0, .inr ⟨hp.1, type, mode, ht, rfl⟩⟩
    · refine ⟨j, hj0, .inl ⟨rfl, fun hid => ?_⟩⟩
      obtain ⟨j1, hj1, hs⟩ := any_eq_true.1 hf
      have hid1 : j1.id = jobId := by
        simp at hs
        exact hs.1
      rw [eq_of_key_eq hj0 hj1 (hid.trans hid1.symm), hs] at hp
      cases hp

theorem mem_claimDueJobs : j ∈ (claimDueJobs jobs now locked).2 ↔ ∃ j0 ∈ jobs,
      (if j0.id ∈ (selectDueJobs jobs now locked).map (·.id) then j0.claim now else j0) = j := by
  change j ∈ jobs.rows.map (fun j0 => if decide (j0.id ∈ (selectDueJobs jobs now locked).map (·.id))
    = true then j0.claim now else j0) ↔ _
  simp [mem_def]

theorem sameJob_claimDueJobs (h : j ∈ (claimDueJobs jobs now locked).2) :
    ∃ j0 ∈ jobs, j.SameJob j0 := by
  obtain ⟨j0, hj0, rfl⟩ := mem_claimDueJobs.1 h
  refine ⟨j0, hj0, ?_⟩
  split <;> exact ⟨rfl, rfl⟩

theorem sameJob_claimed (h : row ∈ (claimDueJobs jobs now locked).1) :
    ∃ j0 ∈ jobs, row.job.SameJob j0 := by
  obtain ⟨j, hj, hr⟩ := mem_filterMap.1 h
  obtain ⟨t, -, rfl⟩ := map_eq_some_iff.1 hr
  exact sameJob_claimDueJobs (mem_filter.1 hj).1

theorem createCronJob_eq_ok {cal : Calendar} {access : Except AppError Unit} {id : String}
    {body : CreateCronJobRequest} (h : createCronJob cal access agentId id body utcNow = .ok job) :
    job.id = id ∧ job.agentId = agentId ∧ job.runningAt = none ∧ job.enabled ∧
      ∃ next, job.nextRunAt = some next ∧ job.schedule.nextRunAt cal utcNow = .ok next := by
  unfold createCronJob at h
  split at h
  · cases h
  split at h
  · cases h
  rename_i type ht
  split at h
  · cases h
  rename_i next hn
  split at h <;> cases h
  refine ⟨rfl, rfl, rfl, rfl, next, rfl, ?_⟩
  rw [Schedule.nextRunAt, ScheduleType.asStr_of_ofStr? ht]
  exact hn

def CronEvent.isDispatch : CronEvent → Bool
  | .created .. | .posted .. | .commanded .. => true
  | _ => false

theorem mem_inserted : e ∈ row.inserted db db' ↔ (e = .posted row.job.id row.occurrence ∧
      db.hasEvent (cronMessageId row.job.id row.occurrence) = false ∧
      db'.hasEvent (cronMessageId row.job.id row.occurrence)) ∨
    (e = .commanded row.job.id row.occurrence ∧
      db.hasCommandFor (cronMessageId row.job.id row.occurrence) row.job.agentId = false ∧
      db'.hasCommandFor (cronMessageId row.job.id row.occurrence) row.job.agentId) := by
  unfold ClaimedJob.inserted
  simp [and_comm]

theorem inserted_cases (h : e ∈ row.inserted db db') :
    e = .posted row.job.id row.occurrence ∨ e = .commanded row.job.id row.occurrence :=
  (mem_inserted.1 h).imp And.left And.left

theorem inserted_nodup (row : ClaimedJob) (db db' : Db) : (row.inserted db db').Nodup := by
  unfold ClaimedJob.inserted
  dsimp only
  split_ifs <;> simp

theorem count_append_le_one (hes : es.Nodup) (hn : e ∈ es → e ∉ h)
    (hle : h.count e ≤ 1) : (es ++ h).count e ≤ 1 := by
  rw [List.count_append]
  by_cases he : e ∈ es
  · have ho := List.nodup_iff_count_le_one.1 hes e
    have hz := List.count_eq_zero_of_not_mem (hn he)
    omega
  · have hz := List.count_eq_zero_of_not_mem he
    omega

/-- What is inserted for an occurrence is on record, under the agent its job was created for. -/
structure DispatchInv (w : CronWorld) : Prop where
  once : DispatchedOnce w.history
  agent : ∀ {jobId a b : String}, .created jobId a ∈ w.history → .created jobId b ∈ w.history → a = b
  jobs : ∀ j ∈ w.jobs, .created j.id j.agentId ∈ w.history
  rows : ∀ row, w.Holds row → .created row.job.id row.job.agentId ∈ w.history
  posted : ∀ {jobId : String} {occ : Timestamp}, .posted jobId occ ∈ w.history →
    w.db.hasEvent (cronMessageId jobId occ)
  commanded : ∀ {jobId : String} {occ : Timestamp}, .commanded jobId occ ∈ w.history →
    ∃ a, .created jobId a ∈ w.history ∧ w.db.hasCommandFor (cronMessageId jobId occ) a

namespace DispatchInv

variable {cal : Calendar} {w next : CronWorld} {action : CronAction}

theorem start (db : Db) : DispatchInv { db } where
  once := fun _ _ => ⟨by simp, by simp⟩
  agent := fun h => by cases h
  jobs := fun j hj => by cases hj
  rows := fun _ ⟨_, hst, _⟩ => by cases hst
  posted := fun h => by cases h
  commanded := fun h => by cases h

section

variable (hi : DispatchInv w)
include hi

theorem of_quiet (es : List CronEvent) (hh : next.history = es ++ w.history)
    (hes : ∀ e ∈ es, e.isDispatch = false) (hd : w.db.Keeps next.db)
    (hjo : ∀ j ∈ next.jobs, ∃ j0 ∈ w.jobs, j.SameJob j0)
    (hr : ∀ row, next.Holds row → w.Holds row ∨ ∃ j0 ∈ w.jobs, row.job.SameJob j0) :
    DispatchInv next := by
  have hs : ∀ {e : CronEvent}, e.isDispatch → (e ∈ next.history ↔ e ∈ w.history) := by
    intro e he
    rw [hh, mem_append]
    refine ⟨fun h => h.resolve_left fun hm => ?_, .inr⟩
    rw [hes e hm] at he
    cases he
  have hc : ∀ {e : CronEvent}, e.isDispatch →
      next.history.count e = w.history.count e := by
    intro e he
    rw [hh, List.count_append, List.count_eq_zero_of_not_mem, Nat.zero_add]
    intro hm
    rw [hes e hm] at he
    cases he
  have hjob : ∀ {j j0 : CronJob}, j.SameJob j0 → .created j0.id j0.agentId ∈ w.history →
      .created j.id j.agentId ∈ next.history := by
    rintro j j0 ⟨hid, hag⟩ h
    rw [hid, hag]
    exact (hs rfl).2 h
  constructor
  · intro jobId occ
    rw [hc rfl, hc rfl]
    exact hi.once jobId occ
  · exact fun ha hb => hi.agent ((hs rfl).1 ha) ((hs rfl).1 hb)
  · intro j hj
    obtain ⟨j0, hj0, hsj⟩ := hjo j hj
    exact hjob hsj (hi.jobs j0 hj0)
  · intro row hrow
    rcases hr row hrow with ho | ⟨j0, hj0, hsj⟩
    · exact (hs rfl).2 (hi.rows row ho)
    · exact hjob hsj (hi.jobs j0 hj0)
  · exact fun h => hd.event (hi.posted ((hs rfl).1 h))
  · intro jobId occ h
    obtain ⟨a, hcrd, hcmd⟩ := hi.commanded ((hs rfl).1 h)
    exact ⟨a, (hs rfl).2 hcrd, hd.command hcmd⟩

theorem create {id agentId : String}
    {jobs : CronJobs} (hn : w.history.any (·.creates id) = false) (hid : job.id = id)
    (hag : job.agentId = agentId) (hins : w.jobs.insert? job = some jobs) : DispatchInv { w with
      jobs
      history := [.created id agentId, .saved id true, .scheduled id utcNow] ++ w.history } := by
  have hf : ∀ a, .created id a ∉ w.history := by
    intro a h
    have hany : w.history.any (·.creates id) := any_eq_true.2 ⟨_, h, by simp [creates]⟩
    cases hn.symm.trans hany
  have ho : ∀ {e : CronEvent}, e ∈ w.history →
      e ∈ [.created id agentId, .saved id true, .scheduled id utcNow] ++ w.history :=
    mem_append_right _
  have hd : ∀ {e : CronEvent}, (∀ a b, e ≠ .created a b) → e.isDispatch →
      e ∈ [.created id agentId, .saved id true, .scheduled id utcNow] ++ w.history →
        e ∈ w.history := by
    intro e hne he hm
    rcases mem_append.1 hm with hm | hm
    · simp at hm
      rcases hm with rfl | rfl | rfl
      · exact absurd rfl (hne _ _)
      · cases he
      · cases he
    · exact hm
  have hcrd : ∀ {jobId a : String}, .created jobId a ∈
      [.created id agentId, .saved id true, .scheduled id utcNow] ++ w.history →
        (jobId = id ∧ a = agentId) ∨ .created jobId a ∈ w.history := by
    simp
  constructor
  · intro jobId occ
    simpa using hi.once jobId occ
  · intro jobId a b ha hb
    rcases hcrd ha with ⟨rfl, rfl⟩ | ha <;> rcases hcrd hb with ⟨hj, hb⟩ | hb
    · exact hb.symm
    · exact absurd hb (hf b)
    · exact absurd (hj ▸ ha) (hf a)
    · exact hi.agent ha hb
  · intro j hj
    rcases (mem_insert? hins).1 hj with hj | rfl
    · exact ho (hi.jobs j hj)
    · rw [hid, hag]
      exact mem_append_left _ mem_cons_self
  · exact fun row hr => ho (hi.rows row hr)
  · exact fun h => hi.posted (hd (by simp) rfl h)
  · intro jobId occ h
    obtain ⟨a, hc, hcmd⟩ := hi.commanded (hd (by simp) rfl h)
    exact ⟨a, ho hc, hcmd⟩

theorem dispatch {row : ClaimedJob} {ids : CronIds} {db : Db} (hrow : w.Holds row)
    (h : w.db.dispatchCronOccurrence w.clock (row.dispatch ids) = .ok db)
    (hro : ∀ r, (∃ stage ∈ passes, r ∈ stage.rows) → w.Holds r) : DispatchInv { w with
      db
      passes
      history := row.inserted w.db db ++ w.history } := by
  have hk := Db.Keeps.dispatch h
  have hcrd : ∀ {jobId a : String}, .created jobId a ∈ row.inserted w.db db ++ w.history ↔
      .created jobId a ∈ w.history := by
    intro jobId a
    rw [mem_append]
    refine ⟨fun h => h.resolve_left fun hn => ?_, .inr⟩
    rcases inserted_cases hn with h | h <;> cases h
  constructor
  · intro jobId occ
    obtain ⟨hp, hco⟩ := hi.once jobId occ
    refine ⟨count_append_le_one (inserted_nodup ..) ?_ hp,
      count_append_le_one (inserted_nodup ..) ?_ hco⟩
    · intro hn hm
      rcases mem_inserted.1 hn with ⟨heq, habs, -⟩ | ⟨heq, -⟩ <;> cases heq
      rw [hi.posted hm] at habs
      cases habs
    · intro hn hm
      rcases mem_inserted.1 hn with ⟨heq, -⟩ | ⟨heq, habs, -⟩ <;> cases heq
      obtain ⟨a, hc, hcmd⟩ := hi.commanded hm
      rw [hi.agent hc (hi.rows row hrow), habs] at hcmd
      cases hcmd
  · exact fun ha hb => hi.agent (hcrd.1 ha) (hcrd.1 hb)
  · exact fun j hj => hcrd.2 (hi.jobs j hj)
  · exact fun r hr => hcrd.2 (hi.rows r (hro r hr))
  · intro jobId occ hm
    rcases mem_append.1 hm with hn | hm
    · rcases mem_inserted.1 hn with ⟨heq, -, he⟩ | ⟨heq, -⟩ <;> cases heq
      exact he
    · exact hk.event (hi.posted hm)
  · intro jobId occ hm
    rcases mem_append.1 hm with hn | hm
    · rcases mem_inserted.1 hn with ⟨heq, -⟩ | ⟨heq, -, hcmd⟩ <;> cases heq
      exact ⟨_, hcrd.2 (hi.rows row hrow), hcmd⟩
    · obtain ⟨a, hc, hcmd⟩ := hi.commanded hm
      exact ⟨a, hcrd.2 hc, hk.command hcmd⟩

theorem step (h : w.step cal action = some next) : DispatchInv next := by
  have hs : ∀ {jobs : CronJobs}, (∀ j ∈ jobs, j ∈ w.jobs) →
      ∀ j ∈ jobs, ∃ j0 ∈ w.jobs, j.SameJob j0 := fun h j hj => ⟨j, h j hj, rfl, rfl⟩
  cases moves_of_step h with
  | quiet hjo hdb hh hcl hr =>
    refine hi.of_quiet [] hh (by simp) (hdb ▸ .refl _)
      (hs fun j hj => hjo ▸ hj) fun row hrow => .inl (hr row hrow)
  | call hex =>
    exact hi.of_quiet [] rfl (by simp) (.exec hex) (hs fun _ h => h) fun _ h => .inl h
  | create hn hjob hins =>
    obtain ⟨hid, ha, -⟩ := createCronJob_eq_ok hjob
    exact hi.create hn hid ha hins
  | delete hjo =>
    exact hi.of_quiet [] rfl (by simp) (.refl _) (hs hjo) fun _ h => .inl h
  | claim hr =>
    exact hi.of_quiet _ rfl (by simp [isDispatch]) (.refl _) (fun _ => sameJob_claimDueJobs)
      fun row hrow => (hr row hrow).imp_right sameJob_claimed
  | dispatch hrow hd hr => exact hi.dispatch hrow hd hr
  | finish hst hrow hr =>
    refine hi.of_quiet _ rfl ?_ (.refl _)
      (fun j hj => sameJob_updateWhere (CronJob.finish_id _ _ _) hj fun _ => by
        unfold CronJob.finish
        split <;> rfl)
      fun row hrow => .inl (hr row hrow)
    intro e he
    simp at he
    rcases he with rfl | rfl
    · split <;> rfl
    · rfl
  | release hst hrow hr =>
    exact hi.of_quiet _ rfl (by simp [isDispatch]) (.refl _)
      (fun j hj => sameJob_updateWhere (f := CronJob.unclaim) (fun _ => rfl) hj fun _ => rfl)
      fun row hrow => .inl (hr row hrow)
  | edit hc hst hjo hed =>
    refine hi.of_quiet _ rfl ?_ (.refl _) (fun j hj => ?_) fun _ h => .inl h
    swap
    · obtain ⟨j0, hj0, ⟨heq, -⟩ | ⟨-, _, _, -, heq⟩⟩ := source_of_update hjo hj <;>
        exact ⟨j0, hj0, by rw [heq]; exact ⟨rfl, rfl⟩⟩
    intro e he
    rcases mem_append.1 he with he | he <;> obtain ⟨_, -, rfl⟩ := mem_map.1 he <;> rfl

end

end DispatchInv

/-- The event makes or releases a claim of the job. -/
def CronEvent.claims (jobId : String) : CronEvent → Bool
  | .claimed _ j _ | .released _ j => j = jobId
  | _ => false

def CronEvent.isClaim : CronEvent → Bool
  | .claimed .. => true
  | _ => false

theorem unreleased_append (he : ∀ e ∈ es, e.claims jobId = false) :
    unreleased jobId (es ++ h) = unreleased jobId h := by
  induction es with
  | nil => rfl
  | cons e es ih =>
    cases e <;> simp_all [unreleased, claims]

theorem claimsExclusive_append (hes : ∀ e ∈ es, e.isClaim = false) (hh : ClaimsExclusive h) :
    ClaimsExclusive (es ++ h) := by
  induction es with
  | nil => exact hh
  | cons e es ih =>
    have hr := ih fun e' he' => hes e' (mem_cons_of_mem _ he')
    have he := hes e mem_cons_self
    cases e with
    | claimed => cases he
    | _ => exact hr

theorem unreleased_claims : ∀ {js : List CronJob}, (js.map (·.id)).Nodup →
      unreleased jobId (js.map (fun j => .claimed i j.id t) ++ h) =
        if jobId ∈ js.map (·.id) then (i, t) :: unreleased jobId h else unreleased jobId h
  | [], _ => by simp
  | j :: js, hn => by
    rw [map_cons, nodup_cons] at hn
    rw [map_cons, List.cons_append, unreleased, unreleased_claims hn.2]
    by_cases hj : j.id = jobId
    · subst hj
      simp [hn.1]
    · simp [hj, Ne.symm hj]

theorem claimsExclusive_claims (hh : ClaimsExclusive h) :
    ∀ {js : List CronJob}, (js.map (·.id)).Nodup →
      (∀ j ∈ js, ∀ c ∈ unreleased j.id h, c.2 + cronStaleClaimAfter ≤ t) →
        ClaimsExclusive (js.map (fun j => .claimed i j.id t) ++ h)
  | [], _, _ => hh
  | j :: js, hn, ho => by
    rw [map_cons, nodup_cons] at hn
    rw [map_cons, List.cons_append]
    refine ⟨?_, claimsExclusive_claims hh hn.2 fun j' hj' => ho j' (mem_cons_of_mem _ hj')⟩
    rw [unreleased_claims hn.2, if_neg hn.1]
    exact ho j mem_cons_self

theorem mem_selectDueJobs (h : j ∈ selectDueJobs jobs now locked) : j ∈ jobs ∧ j.due now := by
  have hm := (List.mem_insertionSort _).1 (List.mem_of_mem_take h)
  obtain ⟨hj, hd⟩ := mem_filter.1 hm
  exact ⟨hj, (and_eq_true_iff.1 hd).1⟩

theorem selectDueJobs_nodup (jobs : CronJobs) (now : Timestamp) (locked : List String) :
    ((selectDueJobs jobs now locked).map (·.id)).Nodup := by
  refine List.Nodup.sublist ((List.take_sublist _ _).map _) ?_
  refine (((List.perm_insertionSort _ _).map _).nodup_iff).2 ?_
  exact jobs.nodup.sublist (List.filter_sublist.map _)

/-- Every claim of a job that was not released is past the timeout, but for the newest while
`running_at` is set. -/
structure ClaimInv (w : CronWorld) : Prop where
  exclusive : ClaimsExclusive w.history
  created : ∀ {i : ℕ} {jobId : String} {t : Timestamp}, .claimed i jobId t ∈ w.history →
    ∃ a, .created jobId a ∈ w.history
  current : ∀ j ∈ w.jobs, ∀ c ∈ unreleased j.id w.history, c.2 + cronStaleClaimAfter < w.clock ∨
      (j.runningAt ≠ none ∧ (unreleased j.id w.history).head? = some c)

def CronJob.SameClaim (j j0 : CronJob) : Prop := j.id = j0.id ∧ j.runningAt = j0.runningAt

theorem unreleased_eq_nil : ∀ {h : List CronEvent},
    (∀ i t, .claimed i jobId t ∉ h) → unreleased jobId h = []
  | [], _ => rfl
  | e :: h, hn => by
    have hr : unreleased jobId h = [] := unreleased_eq_nil fun i t ht =>
      hn i t (mem_cons_of_mem _ ht)
    cases e with
    | claimed i j t =>
      have hj : j ≠ jobId := by
        rintro rfl
        exact hn i t mem_cons_self
      rw [unreleased, if_neg hj, hr]
    | released i j =>
      rw [unreleased, hr]
      split <;> rfl
    | _ => exact hr

namespace ClaimInv

variable {cal : Calendar} {w next : CronWorld} {action : CronAction}

theorem start (db : Db) : ClaimInv { db } where
  exclusive := trivial
  created := fun h => by cases h
  current := fun j hj => by cases hj

section

variable (hi : ClaimInv w)
include hi

theorem of_quiet (es : List CronEvent) (hh : next.history = es ++ w.history)
    (hes : ∀ e ∈ es, ∀ jobId, e.claims jobId = false)
    (hjo : ∀ j ∈ next.jobs, ∃ j0 ∈ w.jobs, j.SameClaim j0) (hcl : w.clock ≤ next.clock) :
    ClaimInv next := by
  have hs : ∀ jobId, unreleased jobId next.history = unreleased jobId w.history := by
    intro jobId
    rw [hh]
    exact unreleased_append fun e he => hes e he jobId
  constructor
  · rw [hh]
    refine claimsExclusive_append (fun e he => ?_) hi.exclusive
    cases e with
    | claimed i j t => simpa [claims] using hes _ he j
    | _ => rfl
  · intro i jobId t h
    rw [hh] at h ⊢
    rcases mem_append.1 h with h | h
    · simpa [claims] using hes _ h jobId
    · obtain ⟨a, ha⟩ := hi.created h
      exact ⟨a, mem_append_right _ ha⟩
  · intro j hj c hc
    obtain ⟨j0, hj0, hid, hr⟩ := hjo j hj
    rw [hs, hid] at hc ⊢
    rw [hr]
    exact (hi.current j0 hj0 c hc).imp_left fun h => lt_of_lt_of_le h hcl

theorem claim (hd : DispatchInv w) {locked : List String}
    (hok : ∀ j ∈ selectDueJobs w.jobs w.clock locked, ∀ t ∈ j.runningAt,
      (unreleased j.id w.history).head?.map (·.2) = some t) : ClaimInv { w with
      jobs := (claimDueJobs w.jobs w.clock locked).2
      passes
      history := (selectDueJobs w.jobs w.clock locked).map (fun j => .claimed i j.id w.clock)
        ++ w.history } := by
  have hn := selectDueJobs_nodup w.jobs w.clock locked
  have hp : ∀ j ∈ selectDueJobs w.jobs w.clock locked, ∀ c ∈ unreleased j.id w.history,
      c.2 + cronStaleClaimAfter < w.clock := by
    intro j hj c hc
    obtain ⟨hm, hdue⟩ := mem_selectDueJobs hj
    rcases hi.current j hm c hc with hp | ⟨hr, hh⟩
    · exact hp
    obtain ⟨t, ht⟩ := Option.ne_none_iff_exists'.1 hr
    have hct : c.2 = t := by
      have := hok j hj t ht
      rw [hh] at this
      simpa using this
    have hs : t < w.clock - cronStaleClaimAfter := by
      simp only [CronJob.due, ht, all_some, and_eq_true, decide_eq_true_eq] at hdue
      exact hdue.1.2
    rw [hct]
    exact Int.add_lt_of_lt_sub_right hs
  constructor
  · exact claimsExclusive_claims hi.exclusive hn fun j hj c hc => (hp j hj c hc).le
  · intro k jobId t h
    rcases mem_append.1 h with h | h
    · obtain ⟨j, hj, heq⟩ := mem_map.1 h
      cases heq
      exact ⟨_, mem_append_right _ (hd.jobs j (mem_selectDueJobs hj).1)⟩
    · obtain ⟨a, ha⟩ := hi.created h
      exact ⟨a, mem_append_right _ ha⟩
  · intro j hj c hc
    obtain ⟨j0, hj0, rfl⟩ := mem_claimDueJobs.1 hj
    by_cases hsel : j0.id ∈ (selectDueJobs w.jobs w.clock locked).map (·.id)
    · rw [if_pos hsel] at hc ⊢
      simp only [CronJob.claim, unreleased_claims hn, if_pos hsel] at hc ⊢
      rcases mem_cons.1 hc with rfl | hc
      · exact .inr ⟨by simp, rfl⟩
      · obtain ⟨j1, hj1, hid⟩ := mem_map.1 hsel
        exact .inl (hp j1 hj1 c (hid ▸ hc))
    · rw [if_neg hsel] at hc ⊢
      simp only [unreleased_claims hn, if_neg hsel] at hc ⊢
      exact hi.current j0 hj0 c hc

theorem release {jobId : String} (es : List CronEvent) {jobs : CronJobs}
    (hh : ∀ c ∈ (unreleased jobId w.history).head?, c.1 = i)
    (hes : ∀ e ∈ es, ∀ j, e.claims j = false)
    (hjo : ∀ j ∈ jobs, ∃ j0 ∈ w.jobs, j.id = j0.id ∧ (j.id = jobId ∨ j.runningAt = j0.runningAt)) :
    ClaimInv { w with
      jobs
      passes
      history := es ++ .released i jobId :: w.history } := by
  constructor
  · refine claimsExclusive_append (fun e he => ?_) hi.exclusive
    cases e with
    | claimed k j t => simpa [claims] using hes _ he j
    | _ => rfl
  · intro k j t h
    rcases mem_append.1 h with h | h
    · simpa [claims] using hes _ h j
    · obtain ⟨a, ha⟩ := hi.created ((mem_cons.1 h).resolve_left (by simp))
      exact ⟨a, mem_append_right _ (mem_cons_of_mem _ ha)⟩
  · intro j hj c hc
    obtain ⟨j0, hj0, hid, hr⟩ := hjo j hj
    rw [unreleased_append fun e he => hes e he j.id, unreleased] at hc ⊢
    by_cases heq : jobId = j.id
    · rw [if_pos heq] at hc
      obtain ⟨hc, hne⟩ := mem_filter.1 hc
      rcases hi.current j0 hj0 c (hid ▸ hc) with hp | ⟨-, hn⟩
      · exact .inl hp
      · rw [← hid, ← heq] at hn
        exact absurd (hh c hn) (by simpa using hne)
    · rw [if_neg heq] at hc ⊢
      rw [hid] at hc ⊢
      rw [hr.resolve_left fun h => heq h.symm]
      exact hi.current j0 hj0 c hc

theorem create {id agentId : String}
    {jobs : CronJobs} (hnew : w.history.any (·.creates id) = false) (hid : job.id = id)
    (hins : w.jobs.insert? job = some jobs) : ClaimInv { w with
      jobs
      history := [.created id agentId, .saved id true, .scheduled id utcNow] ++ w.history } := by
  have hn : unreleased id w.history = [] := by
    refine unreleased_eq_nil fun i t h => ?_
    obtain ⟨a, ha⟩ := hi.created h
    have hany : w.history.any (·.creates id) := any_eq_true.2 ⟨_, ha, by simp [creates]⟩
    cases hnew.symm.trans hany
  constructor
  · exact hi.exclusive
  · intro i jobId t h
    obtain ⟨a, ha⟩ := hi.created (by simpa using h)
    exact ⟨a, mem_append_right _ ha⟩
  · intro j hj c hc
    rcases (mem_insert? hins).1 hj with hj | rfl
    · exact hi.current j hj c hc
    · rw [unreleased_append (by simp [claims]), hid, hn] at hc
      cases hc

theorem step (hd : DispatchInv w) (hok : w.ClaimsCurrent action)
    (h : w.step cal action = some next) : ClaimInv next := by
  have hs : ∀ {jobs : CronJobs}, (∀ j ∈ jobs, j ∈ w.jobs) →
      ∀ j ∈ jobs, ∃ j0 ∈ w.jobs, j.SameClaim j0 := fun h j hj => ⟨j, h j hj, rfl, rfl⟩
  cases moves_of_step h with
  | quiet hjo hdb hh hc =>
    exact hi.of_quiet [] hh (by simp) (hs fun j hj => hjo ▸ hj) hc
  | call => exact hi.of_quiet [] rfl (by simp) (hs fun _ h => h) le_rfl
  | create hn hjob hins => exact hi.create hn (createCronJob_eq_ok hjob).1 hins
  | delete hjo => exact hi.of_quiet [] rfl (by simp) (hs hjo) le_rfl
  | claim => exact hi.claim hd hok
  | dispatch =>
    refine hi.of_quiet _ rfl (fun e he jobId => ?_) (hs fun _ h => h) le_rfl
    rcases inserted_cases he with rfl | rfl <;> rfl
  | finish hst hr =>
    refine hi.release [_] (hok _ hst _ hr) ?_ fun j hj => ?_
    · intro e he jobId
      rw [mem_singleton.1 he]
      split <;> rfl
    · obtain ⟨j0, hj0, ⟨hp, rfl⟩ | ⟨-, rfl⟩⟩ := source_of_mem_updateWhere
        (CronJob.finish_id _ _ _) hj
      · exact ⟨j0, hj0, CronJob.finish_id .., .inl ((CronJob.finish_id ..).trans (by simpa using hp))⟩
      · exact ⟨j, hj0, rfl, .inr rfl⟩
  | release hst hr =>
    refine hi.release [] (hok _ hst _ hr) (by simp) fun j hj => ?_
    obtain ⟨j0, hj0, ⟨hp, rfl⟩ | ⟨-, rfl⟩⟩ := source_of_mem_updateWhere
      (f := CronJob.unclaim) (fun _ => rfl) hj
    · exact ⟨j0, hj0, rfl, .inl (of_decide_eq_true hp)⟩
    · exact ⟨j, hj0, rfl, .inr rfl⟩
  | edit hca hst hjo =>
    refine hi.of_quiet _ rfl (fun e he jobId => ?_) ?_ le_rfl
    · rcases mem_append.1 he with he | he <;> obtain ⟨_, -, rfl⟩ := mem_map.1 he <;> rfl
    · intro j hj
      obtain ⟨j0, hj0, ⟨heq, -⟩ | ⟨-, _, _, -, heq⟩⟩ := source_of_update hjo hj <;>
        exact ⟨j0, hj0, by rw [heq]; exact ⟨rfl, rfl⟩⟩

end

end ClaimInv

/-- In every run each occurrence is posted and commanded at most once; and claims are exclusive
where each claim finds `running_at` unset or set by the newest claim, and only the scheduler of the
newest claim clears it. -/
theorem cron_occurrences_once {cal : Calendar} {db0 : Db} {w : CronWorld}
    (h : Steps (step cal) { db := db0 } w) : DispatchedOnce w.history ∧
      (Steps (restrict (step cal) CronWorld.ClaimsCurrent) { db := db0 } w →
        ClaimsExclusive w.history) := by
  refine ⟨(h.invariant DispatchInv.step (.start db0)).once, fun hr => ?_⟩
  have hinv := hr.keeps (I := fun w => DispatchInv w ∧ ClaimInv w)
    (fun hi hok hs => ⟨hi.1.step hs, hi.2.step hi.1 hok hs⟩) ⟨.start db0, .start db0⟩
  exact hinv.2.exclusive

def plainCalendar : Calendar where
  isZone := fun zone => zone = "UTC"
  findNextOccurrence := fun _ _ _ => .error "no pattern"
  parseInstant := fun _ => none

/-- A job due after five minutes, at which the first of three schedulers claims it. -/
def claimedDigest : List CronAction :=
  [.create (.ok ()) "scribe" "digest"
      { name := "digest", scheduleType := "every", scheduleValue := "5m", message := "sum up",
        conversationId := some "general" } 0 .none,
    .startScheduler, .startScheduler, .startScheduler, .tick (seconds 300),
    .advance 0 (.claim [] .none)]

theorem cron_occurrences_once_takeover :
    ∃ w, Steps (restrict (step plainCalendar) CronWorld.ClaimsCurrent) {} w ∧
      w.history.count (.posted "digest" (seconds 300)) = 1 ∧
      .claimed 1 "digest" (seconds 960) ∈ w.history ∧ DispatchedOnce w.history ∧
      ClaimsExclusive w.history := by
  refine exists_run_and₂ (claimedDigest ++
      [.advance 0 (.dispatch 0 ⟨"c0", "t0", "r0"⟩ .none), .advance 0 .crash,
        .tick (seconds 960), .advance 1 (.claim [] .none),
        .advance 1 (.dispatch 0 ⟨"c1", "t1", "r1"⟩ .none),
        .advance 1 (.finish (seconds 960) .none)]) ?_ fun w hw _ => ?_
  · decide +kernel
  · have h := cron_occurrences_once hw.of_restrict
    exact ⟨h.1, h.2 hw⟩

/-- A claim that takes over a stale one leaves its instant in `running_at`, so the next scheduler
takes over at once; and the scheduler that was taken over clears the claim of its successor. -/
theorem stale_takeover_not_exclusive : (∃ w, Steps (step plainCalendar) {} w ∧
      unreleased "digest" w.history = [(2, seconds 961), (1, seconds 960), (0, seconds 300)] ∧
      ¬ ClaimsExclusive w.history) ∧ ∃ w, Steps (step plainCalendar) {} w ∧
      unreleased "digest" w.history = [(2, seconds 1260), (1, seconds 960)] ∧
      ¬ ClaimsExclusive w.history := by
  constructor
  · refine exists_run (claimedDigest ++
      [.advance 0 .crash, .tick (seconds 960), .advance 1 (.claim [] .none), .tick (seconds 961),
        .advance 2 (.claim [] .none)]) ?_
    decide +kernel
  · refine exists_run (claimedDigest ++
      [.advance 0 (.dispatch 0 ⟨"c0", "t0", "r0"⟩ .none), .tick (seconds 960),
        .advance 1 (.claim [] .none), .advance 0 (.finish (seconds 960) .none),
        .tick (seconds 1260), .advance 2 (.claim [] .none)]) ?_
    decide +kernel

end Choruz
