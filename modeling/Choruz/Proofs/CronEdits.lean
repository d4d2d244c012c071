import Choruz.Proofs.CronClaims

/-!
# A user's edit stays

`update_cron_job` stores a next run for the schedule it stores, and a pass computes the next run
from the row it read when it claimed the job.  Where the schedule has not changed in between, the
next run is one of the stored schedule and the job stays as enabled as it was saved.
-/

namespace Choruz

variable {jobId : String} {h : List CronEvent} {recomputed : Option Recomputed}
  {enabled : Option Bool} {jobs : CronJobs}

open Relational UpdateCronJobRequest CronWorld

theorem mem_scheduledFrom {after : Timestamp} :
    after ∈ scheduledFrom jobId h ↔ .scheduled jobId after ∈ h := by
  unfold scheduledFrom
  rw [mem_filterMap]
  constructor
  · rintro ⟨e, he, heq⟩
    split at heq
    · split_ifs at heq with hj
      cases heq
      exact hj ▸ he
    · cases heq
  · intro he
    exact ⟨_, he, by simp⟩

theorem savedEnabled_append {es : List CronEvent} (he : ∀ b, .saved jobId b ∉ es) :
    savedEnabled jobId (es ++ h) = savedEnabled jobId h := by
  induction es with
  | nil => rfl
  | cons e es ih =>
    have hr := ih fun b hb => he b (mem_cons_of_mem _ hb)
    cases e with
    | saved j b =>
      have hj : j ≠ jobId := by
        rintro rfl
        exact he b mem_cons_self
      rw [List.cons_append, savedEnabled, if_neg hj, hr]
    | _ => exact hr

/-- The next run of a recurring job is one of its stored schedule. -/
def CronJob.OnSchedule (cal : Calendar) (h : List CronEvent) (j : CronJob) : Prop :=
  j.schedule.type ≠ .oneShot → ∃ t ∈ j.nextRunAt, ∃ after, .scheduled j.id after ∈ h ∧
    j.schedule.nextRunAt cal after = .ok t

/-- The job is enabled as saved, or a one-shot that ran. -/
def CronJob.AsSaved (h : List CronEvent) (j : CronJob) : Prop :=
  savedEnabled j.id h = some j.enabled ∨ (j.schedule.type = .oneShot ∧ .ran j.id j.schedule ∈ h)

structure EditInv (cal : Calendar) (w : CronWorld) : Prop where
  sound : ∀ call ∈ w.edits, call.Sound cal
  onSchedule : ∀ j ∈ w.jobs, j.OnSchedule cal w.history
  asSaved : ∀ j ∈ w.jobs, j.AsSaved w.history

def CronJob.SameSchedule (j j0 : CronJob) : Prop :=
  j.id = j0.id ∧ j.schedule = j0.schedule ∧ j.nextRunAt = j0.nextRunAt ∧ j.enabled = j0.enabled

section

variable {cal : Calendar} {j j0 : CronJob} {es h : List CronEvent}

theorem CronJob.OnSchedule.append (hj : j0.OnSchedule cal h) (hid : j.id = j0.id)
    (hs : j.schedule = j0.schedule) (hn : j.nextRunAt = j0.nextRunAt) :
    j.OnSchedule cal (es ++ h) := by
  unfold CronJob.OnSchedule
  rw [hid, hs, hn]
  intro hr
  obtain ⟨t, ht, after, ha, hrun⟩ := hj hr
  exact ⟨t, ht, after, mem_append_right _ ha, hrun⟩

theorem CronJob.AsSaved.append (hj : j0.AsSaved h) (hs : j.SameSchedule j0)
    (hes : ∀ b, .saved j0.id b ∉ es) : j.AsSaved (es ++ h) := by
  obtain ⟨hid, hsc, -, he⟩ := hs
  unfold CronJob.AsSaved
  rw [hid, hsc, he, savedEnabled_append hes]
  exact hj.imp_right fun ⟨hsh, hr⟩ => ⟨hsh, mem_append_right _ hr⟩

end

namespace EditInv

variable {cal : Calendar} {w next : CronWorld} {action : CronAction} {utcNow : Timestamp}

theorem start (db : Db) : EditInv cal { db } where
  sound := fun _ h => by cases h
  onSchedule := fun _ h => by cases h
  asSaved := fun _ h => by cases h

theorem of_quiet (hi : EditInv cal w) (es : List CronEvent)
    (hh : next.history = es ++ w.history) (hes : ∀ jobId b, .saved jobId b ∉ es)
    (hjo : ∀ j ∈ next.jobs, ∃ j0 ∈ w.jobs, j.SameSchedule j0)
    (he : ∀ call ∈ next.edits, call ∈ w.edits ∨ call.Sound cal) : EditInv cal next := by
  constructor
  · intro call hc
    exact (he call hc).elim (hi.sound call) id
  · intro j hj
    obtain ⟨j0, hj0, hs⟩ := hjo j hj
    rw [hh]
    exact (hi.onSchedule j0 hj0).append hs.1 hs.2.1 hs.2.2.1
  · intro j hj
    obtain ⟨j0, hj0, hs⟩ := hjo j hj
    rw [hh]
    exact (hi.asSaved j0 hj0).append hs (hes j0.id)

theorem create (hi : EditInv cal w) {access : Except AppError Unit} {agentId id : String}
    {body : CreateCronJobRequest} {job : CronJob}
    (hjob : createCronJob cal access agentId id body utcNow = .ok job)
    (hins : w.jobs.insert? job = some jobs) : EditInv cal { w with
      jobs
      history := [.created id agentId, .saved id true, .scheduled id utcNow] ++ w.history } := by
  obtain ⟨rfl, -, -, he, t, hn, hr⟩ := createCronJob_eq_ok hjob
  refine ⟨hi.sound, fun j hj => ?_, fun j hj => ?_⟩
  · rcases (mem_insert? hins).1 hj with hj | rfl
    · exact (hi.onSchedule j hj).append rfl rfl rfl
    · exact fun _ => ⟨t, hn, utcNow, by simp, hr⟩
  · rcases (mem_insert? hins).1 hj with hj | rfl
    · refine (hi.asSaved j hj).append ⟨rfl, rfl, rfl, rfl⟩ fun b hb => ?_
      have hid : j.id = job.id ∧ b := by simpa using hb
      exact not_mem_key_of_insert? hins j hj hid.1
    · refine .inl ?_
      rw [he]
      simp [savedEnabled]

theorem finish (hi : EditInv cal w) {i : ℕ} {row : ClaimedJob} {passes : List PassStage}
    (hstd : ∀ j ∈ w.jobs, j.id = row.job.id → j.schedule = row.job.schedule)
    (hr : row.job.schedule.type ≠ .oneShot → (row.job.schedule.nextRunAt cal utcNow).isOk) :
    EditInv cal { w with
      jobs := w.jobs.updateWhere (·.id = row.job.id)
        (CronJob.finish w.clock row.job.schedule (row.job.schedule.nextAfterRun cal utcNow))
        (CronJob.finish_id _ _ _)
      passes
      history := [if row.job.schedule.type = .oneShot then .ran row.job.id row.job.schedule
        else .scheduled row.job.id utcNow, .released i row.job.id] ++ w.history } := by
  have hsa : ∀ jobId b, .saved jobId b ∉ [if row.job.schedule.type = .oneShot
      then CronEvent.ran row.job.id row.job.schedule else .scheduled row.job.id utcNow,
      .released i row.job.id] := by
    split <;> simp
  refine ⟨hi.sound, fun j hj => ?_, fun j hj => ?_⟩
  all_goals obtain ⟨j0, hj0, ⟨hp, rfl⟩ | ⟨-, rfl⟩⟩ :=
    source_of_mem_updateWhere (CronJob.finish_id _ _ _) hj
  · have hid := of_decide_eq_true hp
    have hsch := hstd j0 hj0 hid
    by_cases hs : row.job.schedule.type = .oneShot
    · intro hrec
      simp only [CronJob.finish, if_pos hs, hsch] at hrec
      exact absurd hs hrec
    · intro _
      simp only [CronJob.finish, if_neg hs, Schedule.nextAfterRun, hsch, hid]
      have hok := hr hs
      rcases hrun : row.job.schedule.nextRunAt cal utcNow with e | t
      · rw [hrun] at hok
        cases hok
      · exact ⟨t, rfl, utcNow, by simp, hrun⟩
  · exact (hi.onSchedule j hj0).append rfl rfl rfl
  · have hid := of_decide_eq_true hp
    have hsch := hstd j0 hj0 hid
    by_cases hs : row.job.schedule.type = .oneShot
    · refine .inr ?_
      simp only [CronJob.finish, if_pos hs, hsch, hid]
      exact ⟨hs, mem_cons_self⟩
    · have ho : savedEnabled j0.id w.history = some j0.enabled :=
        (hi.asSaved j0 hj0).resolve_right fun h => hs (hsch ▸ h.1)
      refine .inl ?_
      rw [savedEnabled_append (hsa _), CronJob.finish, if_neg hs]
      exact ho
  · exact (hi.asSaved j hj0).append ⟨rfl, rfl, rfl, rfl⟩ (hsa _)

end EditInv

section Apply

variable {cal : Calendar} {body : UpdateCronJobRequest} {type : Option ScheduleType}
  {mode : Option DeliveryMode} {now : Timestamp} {j0 : CronJob}

section

variable (hcol : column? ScheduleType.ofStr? body.scheduleType = some type)
include hcol

theorem apply_sameSchedule (hc : body.changesSchedule = false) :
    (body.apply type mode none now j0).schedule = j0.schedule ∧
      (body.apply type mode none now j0).nextRunAt = j0.nextRunAt := by
  simp [changesSchedule] at hc
  obtain ⟨⟨ht, hv⟩, hz⟩ := hc
  rw [ht] at hcol
  cases hcol
  simp [apply, hv, hz]

theorem apply_nextRunAt {after t : Timestamp} {newNextRun : Option Timestamp}
    (hn : body.nextRun cal j0.schedule after = .ok t) :
    (body.apply type mode newNextRun now j0).schedule.nextRunAt cal after = .ok t := by
  have ht : (type.getD j0.schedule.type).asStr = body.scheduleType.getD j0.schedule.type.asStr := by
    rcases hb : body.scheduleType with _ | s <;> rw [hb] at hcol
    · cases hcol
      rfl
    · obtain ⟨ty, hty, rfl⟩ := map_eq_some_iff.1 hcol
      exact ScheduleType.asStr_of_ofStr? hty
  unfold Schedule.nextRunAt apply
  rw [ht]
  exact hn

end

end Apply

theorem mem_editEvents {id : String} {b : Bool} :
    .saved id b ∈ enabled.toList.map (CronEvent.saved jobId) ++
      recomputed.toList.map (fun r => .scheduled jobId r.after) ↔ id = jobId ∧ enabled = some b := by
  rcases enabled with _ | b' <;> rcases recomputed with _ | r <;> simp [eq_comm]

theorem savedEnabled_edit : savedEnabled jobId ((enabled.toList.map (CronEvent.saved jobId) ++
      recomputed.toList.map fun r => .scheduled jobId r.after) ++ h) =
        (enabled <|> savedEnabled jobId h) := by
  rcases enabled with _ | b <;> rcases recomputed with _ | r <;> simp [savedEnabled]

namespace EditInv

variable {cal : Calendar} {w next : CronWorld} {action : CronAction}

theorem edit (hi : EditInv cal w) {call : CronEdit} {recomputed : Option Recomputed}
    {edits : List CronEdit} (hca : call ∈ w.edits) (hst : call.stage = .writing recomputed)
    (hjo : w.jobs.update call.agentId call.jobId call.body (recomputed.map (·.next)) w.clock
      = .ok jobs) (he : ∀ call ∈ edits, call ∈ w.edits ∨ call.Sound cal)
    (hok : ∀ r ∈ recomputed, ∀ j ∈ w.jobs, j.id = call.jobId → j.schedule = r.read ∧
      (call.body.enabled = none → savedEnabled j.id w.history = some j.enabled)) :
    EditInv cal { w with
      jobs
      edits
      history := (call.body.enabled.toList.map (.saved call.jobId) ++
        recomputed.toList.map fun r => .scheduled call.jobId r.after) ++ w.history } := by
  have hsnd := hi.sound call hca
  unfold CronEdit.Sound at hsnd
  rw [hst] at hsnd
  refine ⟨fun c hc => (he c hc).elim (hi.sound c) id, fun j hj => ?_, fun j hj => ?_⟩
  · obtain ⟨j0, hj0, ⟨rfl, -⟩ | ⟨hid, type, mode, hcol, rfl⟩⟩ := source_of_update hjo hj
    · exact (hi.onSchedule j hj0).append rfl rfl rfl
    · cases recomputed with
      | none =>
        obtain ⟨hsch, hn⟩ := apply_sameSchedule hcol hsnd
        exact (hi.onSchedule j0 hj0).append rfl hsch hn
      | some r =>
        intro _
        obtain ⟨hr, -⟩ := hok r rfl j0 hj0 hid
        refine ⟨r.next, rfl, r.after, ?_, apply_nextRunAt hcol (hr ▸ hsnd)⟩
        exact mem_append_left _ (mem_append_right _ (by
          rw [show (call.body.apply type mode _ w.clock j0).id = call.jobId from hid]
          exact mem_cons_self))
  · obtain ⟨j0, hj0, ⟨rfl, hne⟩ | ⟨hid, type, mode, hcol, rfl⟩⟩ := source_of_update hjo hj
    · refine (hi.asSaved j hj0).append ⟨rfl, rfl, rfl, rfl⟩ fun b hb => ?_
      exact hne (mem_editEvents.1 hb).1
    · rcases hbo : call.body.enabled with _ | b
      · cases recomputed with
        | none =>
          obtain ⟨hsch, hn⟩ := apply_sameSchedule hcol hsnd
          refine (hi.asSaved j0 hj0).append ⟨rfl, hsch, hn, ?_⟩ (by simp)
          simp [apply, hbo]
        | some r =>
          obtain ⟨-, hs⟩ := hok r rfl j0 hj0 hid
          refine .inl ?_
          rw [show (call.body.apply type mode _ w.clock j0).id = call.jobId from hid,
            savedEnabled_edit, ← hid]
          simp [apply, hbo, hs hbo]
      · refine .inl ?_
        rw [show (call.body.apply type mode _ w.clock j0).id = call.jobId from hid,
          savedEnabled_edit]
        simp [apply, hbo]

theorem step (hi : EditInv cal w) (hok : w.SchedulesUnchanged cal action)
    (h : w.step cal action = some next) : EditInv cal next := by
  have hs : ∀ {jobs : CronJobs}, (∀ j ∈ jobs, j ∈ w.jobs) →
      ∀ j ∈ jobs, ∃ j0 ∈ w.jobs, j.SameSchedule j0 := fun h j hj => ⟨j, h j hj, rfl, rfl, rfl, rfl⟩
  cases moves_of_step h with
  | quiet hjo hd hh hcl hro he =>
    exact hi.of_quiet [] hh (by simp) (hs fun j hj => hjo ▸ hj) he
  | call => exact hi.of_quiet [] rfl (by simp) (hs fun _ h => h) fun _ h => .inl h
  | create hn hjob hins => exact hi.create hjob hins
  | delete hjo => exact hi.of_quiet [] rfl (by simp) (hs hjo) fun _ h => .inl h
  | claim =>
    refine hi.of_quiet _ rfl (by simp) (fun j hj => ?_) fun _ h => .inl h
    obtain ⟨j0, hj0, rfl⟩ := mem_claimDueJobs.1 hj
    refine ⟨j0, hj0, ?_⟩
    split <;> exact ⟨rfl, rfl, rfl, rfl⟩
  | dispatch =>
    refine hi.of_quiet _ rfl (fun jobId b hb => ?_) (hs fun _ h => h) fun _ h => .inl h
    rcases inserted_cases hb with h | h <;> cases h
  | finish hst hrow =>
    obtain ⟨hstd, hru⟩ := hok _ hst _ hrow
    exact hi.finish hstd hru
  | release =>
    refine hi.of_quiet _ rfl (by simp) (fun j hj => ?_) fun _ h => .inl h
    obtain ⟨j0, hj0, ⟨-, rfl⟩ | ⟨-, rfl⟩⟩ := source_of_mem_updateWhere
      (f := CronJob.unclaim) (fun _ => rfl) hj
    · exact ⟨j0, hj0, rfl, rfl, rfl, rfl⟩
    · exact ⟨j, hj0, rfl, rfl, rfl, rfl⟩
  | edit hc hst hjo he =>
    refine hi.edit (mem_of_getElem? hc) hst hjo he fun r hr => ?_
    exact hok _ hc r (by rw [hst]; exact hr)

end EditInv

/-- Where no schedule changes between a read and the write that rests on it, a job's next run is one
of its stored schedule, and it is enabled as the user last saved it. -/
theorem schedule_edit_kept {cal : Calendar} {db0 : Db} {w : CronWorld}
    (h : Steps (restrict (step cal) (CronWorld.SchedulesUnchanged cal)) { db := db0 } w) :
    ∀ j ∈ w.jobs, j.FollowsUser cal w.history := by
  have hi := h.keeps EditInv.step (EditInv.start db0)
  intro j hj
  refine ⟨fun _ hr => ?_, hi.asSaved j hj⟩
  obtain ⟨t, ht, after, ha, hrun⟩ := hi.onSchedule j hj hr
  exact ⟨t, ht, after, mem_scheduledFrom.2 ha, hrun⟩

def makeHourly (body : UpdateCronJobRequest) : List CronAction :=
  [.beginEdit "scribe" "digest" body, .edit 0 (.check (.ok ())),
    .edit 0 (.read (seconds 310) .none), .edit 0 (.write .none)]

theorem schedule_edit_kept_after_pass : ∃ w, Steps (restrict (step plainCalendar)
        (CronWorld.SchedulesUnchanged plainCalendar)) {} w ∧
      w.settled ∧ w.jobs.rows.map (·.nextRunAt) = [some (seconds 3910)] ∧
      ∀ j ∈ w.jobs, j.FollowsUser plainCalendar w.history := by
  refine exists_run_and₂ (claimedDigest ++
      [.advance 0 (.dispatch 0 ⟨"c0", "t0", "r0"⟩ .none), .advance 0 (.finish (seconds 305) .none)]
      ++ makeHourly { scheduleValue := some "1h" }) ?_ fun _ hw _ => schedule_edit_kept hw
  decide +kernel

def shotCalendar : Calendar :=
  { plainCalendar with
    parseInstant := fun s => if s = "1970-01-01T00:05:00Z" then some (seconds 300) else none }

def dispatchedShot : List CronAction :=
  [.create (.ok ()) "scribe" "digest"
      { name := "digest", scheduleType := "at", scheduleValue := "1970-01-01T00:05:00Z",
        message := "sum up", conversationId := some "general" } 0 .none,
    .startScheduler, .tick (seconds 300), .advance 0 (.claim [] .none),
    .advance 0 (.dispatch 0 ⟨"c0", "t0", "r0"⟩ .none)]

/-- A pass over a job that is edited meanwhile: it writes the next run of the schedule it read; it
switches off a job that was a one-shot when it was read; and an edit of the schedule that comes
right after leaves the job switched off. -/
theorem schedule_edit_overwritten : (∃ w, Steps (step plainCalendar) {} w ∧ w.settled ∧
      ∃ j ∈ w.jobs, j.schedule = ⟨.every, "1h", none⟩ ∧ j.nextRunAt = some (seconds 620) ∧
        ¬ j.FollowsUser plainCalendar w.history) ∧
    (∃ w, Steps (step shotCalendar) {} w ∧ w.settled ∧
      ∃ j ∈ w.jobs, j.schedule = ⟨.every, "1h", none⟩ ∧ j.enabled = false ∧ j.nextRunAt = none ∧
        savedEnabled j.id w.history = some true ∧ ¬ j.FollowsUser shotCalendar w.history) ∧
    ∃ w, Steps (step shotCalendar) {} w ∧ w.settled ∧
      ∃ j ∈ w.jobs, j.schedule = ⟨.every, "1h", none⟩ ∧ j.enabled = false ∧
        savedEnabled j.id w.history = some true ∧ ¬ j.FollowsUser shotCalendar w.history := by
  refine ⟨?_, ?_, ?_⟩
  · refine exists_run (claimedDigest ++ [.advance 0 (.dispatch 0 ⟨"c0", "t0", "r0"⟩ .none)] ++
      makeHourly { scheduleValue := some "1h" } ++ [.advance 0 (.finish (seconds 320) .none)]) ?_
    decide +kernel
  · refine exists_run (dispatchedShot ++
      makeHourly { scheduleType := some "every", scheduleValue := some "1h" } ++
      [.advance 0 (.finish (seconds 320) .none)]) ?_
    decide +kernel
  · refine exists_run (dispatchedShot ++ [.advance 0 (.finish (seconds 305) .none)] ++ makeHourly
        { scheduleType := some "every", scheduleValue := some "1h" }) ?_
    decide +kernel

end Choruz
