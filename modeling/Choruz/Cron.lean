import Choruz.Outbox
import Choruz.Schedule

/-!
# Cron jobs

The scheduler claims due jobs, dispatches the occurrence of each in a transaction of its own, and
then writes the job's next run.  Users edit jobs meanwhile.  Any number of schedulers run, each
statement may fail or lose its answer, and a scheduler may stop between any two of them.  A
history tells what reached the database; only creation looks at it, since a new id was not drawn
before.
-/

namespace Choruz

open Relational

/-- `delivery_mode IN ('announce', 'none')`. -/
inductive DeliveryMode where
  | announce | silent
deriving DecidableEq

def DeliveryMode.ofStr? : String → Option DeliveryMode
  | "announce" => some announce
  | "none" => some silent
  | _ => none

structure CronJob where
  (id agentId conversationId name message : String)
  deliveryMode : DeliveryMode
  schedule : Schedule
  enabled : Bool := true
  runningAt : Option Timestamp := none
  lastRunAt : Option Timestamp := none
  nextRunAt : Option Timestamp
  updatedAt : Timestamp

abbrev CronJobs := Table CronJob.id

def cronStaleClaimAfter : Timestamp := seconds 600

/-- The `WHERE` of the claim: enabled, due, and not claimed or claimed too long ago. -/
def CronJob.due (now : Timestamp) (j : CronJob) : Bool :=
  j.enabled && j.runningAt.all (· < now - cronStaleClaimAfter) && j.nextRunAt.any (· ≤ now)

/-- The claim's subquery; it skips the rows another statement has locked. -/
def selectDueJobs (jobs : CronJobs) (now : Timestamp) (locked : List String) : List CronJob :=
  ((jobs.rows.filter fun j => j.due now && j.id ∉ locked).insertionSort
    fun a b => a.nextRunAt.getD 0 ≤ b.nextRunAt.getD 0).take 10

/-- `SET running_at = COALESCE(running_at, NOW()), updated_at = NOW()`. -/
def CronJob.claim (now : Timestamp) (j : CronJob) : CronJob :=
  { j with runningAt := some (j.runningAt.getD now), updatedAt := now }

structure ClaimedJob where
  job : CronJob
  occurrence : Timestamp

def claimDueJobs (jobs : CronJobs) (now : Timestamp) (locked : List String) :
    List ClaimedJob × CronJobs :=
  let ids := (selectDueJobs jobs now locked).map (·.id)
  let claimed := jobs.updateWhere (·.id ∈ ids) (CronJob.claim now) fun _ => rfl
  ((claimed.rows.filter (·.id ∈ ids)).filterMap fun j => j.nextRunAt.map fun t => ⟨j, t⟩, claimed)

def cronMessageId (jobId : String) (occurrenceMicros : Timestamp) : String :=
  "cron-" ++ jobId ++ "-" ++ toString occurrenceMicros

structure CronDispatch where
  (agentId conversationId sessionKey messageId jobId jobName message : String)
  announce : Bool
  (commandId routeId turnId prompt : String)
  metadata : Json

def CronDispatch.event (d : CronDispatch) : ConversationEvent where
  conversationId := d.conversationId
  eventId := d.messageId
  eventType := "message"
  senderId := "choruz-cron"
  content := some d.message
  contentType := "text/plain"
  metadata := .ofFields [ ("source", .str "cron_scheduler"), ("cron_job_id", .str d.jobId),
    ("cron_job_name", .str d.jobName)]
  clientMsgId := none
  turnId := none
  replyEventId := none

def CronDispatch.command (d : CronDispatch) (metadata : Json) (now : Timestamp) : AgentCommand where
  commandId := d.commandId
  routeId := d.routeId
  sessionKey := d.sessionKey
  agentId := d.agentId
  conversationId := d.conversationId
  messageId := d.messageId
  turnId := d.turnId
  status := .pending
  currentAttemptId := none
  currentEpoch := none
  attemptCount := 0
  maxAttempts := 3
  prompt := d.prompt
  metadata
  nextRetryAt := none
  lastError := none
  createdAt := now
  updatedAt := now

namespace Db

variable (db : Db)

def hasEvent (eventId : String) : Bool :=
  db.conversationEvents.any (·.eventId = eventId)

/-- `SELECT command_id FROM agent_commands WHERE message_id = … AND agent_id = …`. -/
def hasCommandFor (messageId agentId : String) : Bool :=
  db.agentCommands.rows.any fun c => c.messageId = messageId && c.agentId = agentId

variable (now : Timestamp) (d : CronDispatch)

/-- The announced message, `ON CONFLICT (event_id) DO NOTHING`. -/
def announceOccurrence : Except String Db :=
  if !d.announce || db.hasEvent d.messageId then .ok db
  else
    match db.insertConversationEvent now d.event with
    | none => .error "insert event: duplicate key value violates unique constraint"
    | some (_, db) => .ok db

def commandOccurrence : Except String Db :=
  if db.hasCommandFor d.messageId d.agentId then .ok db
  else
    match db.runtimeHostMetadata d.agentId d.metadata with
    | .error e => .error ("resolve runtime host: " ++ Router.sessionErrorText e)
    | .ok metadata =>
      match db.insertCommandRow (d.command metadata now) with
      | .error e => .error ("insert command: " ++ Router.sessionErrorText e)
      | .ok db => .ok db

/-- One transaction, under the locks of the agent and of the message for it. -/
def dispatchCronOccurrence : Except String Db :=
  let db := db.upsertSession now d.sessionKey d.agentId d.conversationId
  match db.announceOccurrence now d with
  | .error e => .error e
  | .ok db => db.commandOccurrence now d

end Db

structure CronIds where
  (commandId turnId routeId : String)

def ClaimedJob.dispatch (row : ClaimedJob) (ids : CronIds) : CronDispatch where
  agentId := row.job.agentId
  conversationId := row.job.conversationId
  sessionKey := row.job.agentId ++ ":" ++ row.job.conversationId
  messageId := cronMessageId row.job.id row.occurrence
  jobId := row.job.id
  jobName := row.job.name
  message := row.job.message
  announce := row.job.deliveryMode = .announce
  commandId := ids.commandId
  routeId := ids.routeId
  turnId := ids.turnId
  prompt := "[choruz-cron] job:" ++ row.job.name ++ " schedule:" ++ row.job.schedule.value ++ " | "
    ++ row.job.message
  metadata := .ofFields [("cron_job_id", .str row.job.id), ("cron_job_name", .str row.job.name)]

/-- The next run as the pass computes it from the row it read. -/
def Schedule.nextAfterRun (cal : Calendar) (s : Schedule) (utcNow : Timestamp) : Option Timestamp :=
  if s.type = .oneShot then none
  else
    match s.nextRunAt cal utcNow with
    | .ok next => some next
    | .error _ => none

/-- The last update of a dispatched job; which of the two statements runs is decided by the
schedule the pass read. -/
def CronJob.finish (now : Timestamp) (read : Schedule) (nextRun : Option Timestamp) (j : CronJob) :
    CronJob :=
  if read.type = .oneShot then
    { j with
      runningAt := none
      lastRunAt := some now
      enabled := false
      nextRunAt := none
      updatedAt := now }
  else { j with runningAt := none, lastRunAt := some now, nextRunAt := nextRun, updatedAt := now }

theorem CronJob.finish_id (now : Timestamp) (read : Schedule) (nextRun : Option Timestamp)
    (j : CronJob) : (j.finish now read nextRun).id = j.id := by
  unfold CronJob.finish
  split <;> rfl

def CronJob.unclaim (j : CronJob) : CronJob := { j with runningAt := none }

structure CreateCronJobRequest where
  (name scheduleType scheduleValue : String)
  scheduleTimezone : Option String := none
  message : String
  conversationId : Option String := none
  deliveryMode : String := "announce"

/-- The row `create_cron_job` inserts; `access` is the answer of its authorization and of its look
at the conversation. -/
def createCronJob (cal : Calendar) (access : Except AppError Unit) (agentId id : String)
    (body : CreateCronJobRequest) (utcNow : Timestamp) : Except AppError CronJob :=
  match access with
  | .error e => .error e
  | .ok _ =>
    match ScheduleType.ofStr? body.scheduleType with
    | none => .error (.validation "schedule_type must be 'at', 'every', or 'cron'")
    | some type =>
      match nextRunAt cal body.scheduleType body.scheduleValue body.scheduleTimezone utcNow with
      | .error e => .error e
      | .ok next =>
        match DeliveryMode.ofStr? body.deliveryMode with
        | none => .error (.internal ("insert cron job: new row for relation \"agent_cron_job\" "
            ++ "violates check constraint \"agent_cron_job_delivery_mode_check\""))
        | some mode => .ok {
            id
            agentId
            conversationId := body.conversationId.getD ""
            name := body.name
            message := body.message
            deliveryMode := mode
            schedule := ⟨type, body.scheduleValue, body.scheduleTimezone⟩
            nextRunAt := some next
            updatedAt := utcNow }

structure UpdateCronJobRequest where
  name : Option String := none
  scheduleType : Option String := none
  scheduleValue : Option String := none
  scheduleTimezone : Option String := none
  message : Option String := none
  deliveryMode : Option String := none
  enabled : Option Bool := none

namespace UpdateCronJobRequest

def changesSchedule (body : UpdateCronJobRequest) : Bool :=
  body.scheduleType.isSome || body.scheduleValue.isSome || body.scheduleTimezone.isSome

def nextRun (cal : Calendar) (body : UpdateCronJobRequest) (current : Schedule)
    (utcNow : Timestamp) : Except AppError Timestamp :=
  nextRunAt cal (body.scheduleType.getD current.type.asStr)
    (body.scheduleValue.getD current.value) (body.scheduleTimezone <|> current.timezone) utcNow

/-- A column the request leaves alone, or sets to a value its check constraint allows. -/
def column? {α : Type} (parse : String → Option α) : Option String → Option (Option α)
  | none => some none
  | some s => (parse s).map some

/-- The `SET` of `update_cron_job`. -/
def apply (body : UpdateCronJobRequest) (type : Option ScheduleType) (mode : Option DeliveryMode)
    (newNextRun : Option Timestamp) (now : Timestamp) (j : CronJob) : CronJob :=
  { j with
    name := body.name.getD j.name
    schedule :=
      { type := type.getD j.schedule.type
        value := body.scheduleValue.getD j.schedule.value
        timezone := body.scheduleTimezone <|> j.schedule.timezone }
    message := body.message.getD j.message
    deliveryMode := mode.getD j.deliveryMode
    enabled := body.enabled.getD j.enabled
    nextRunAt := newNextRun <|> j.nextRunAt
    updatedAt := now }

end UpdateCronJobRequest

def cronJobNotFound (jobId agentId : String) : AppError :=
  .notFound ("cron job " ++ jobId ++ " not found for agent " ++ agentId)

def CronJobs.update (jobs : CronJobs) (agentId jobId : String) (body : UpdateCronJobRequest)
    (newNextRun : Option Timestamp) (now : Timestamp) : Except AppError CronJobs :=
  if jobs.rows.any fun j => j.id = jobId && j.agentId = agentId then
    match UpdateCronJobRequest.column? ScheduleType.ofStr? body.scheduleType,
        UpdateCronJobRequest.column? DeliveryMode.ofStr? body.deliveryMode with
    | some type, some mode => .ok (jobs.updateWhere (fun j => j.id = jobId && j.agentId = agentId)
        (body.apply type mode newNextRun now) fun _ => rfl)
    | _, _ => .error (.internal ("update cron job: new row for relation \"agent_cron_job\" "
        ++ "violates a check constraint"))
  else .error (cronJobNotFound jobId agentId)

inductive CronEvent where
  | created (jobId agentId : String)
  | claimed (scheduler : ℕ) (jobId : String) (instant : Timestamp)
  | released (scheduler : ℕ) (jobId : String)
  | posted (jobId : String) (occurrence : Timestamp)
  | commanded (jobId : String) (occurrence : Timestamp)
  /-- `next_run_at` was written, computed from this instant. -/
  | scheduled (jobId : String) (after : Timestamp)
  | saved (jobId : String) (enabled : Bool)
  | ran (jobId : String) (schedule : Schedule)
deriving DecidableEq

def CronEvent.creates (jobId : String) : CronEvent → Bool
  | .created j _ => j = jobId
  | _ => false

/-- The claims of a job, the newest first, whose scheduler has not released the job since.  The
history has its newest event first. -/
def unreleased (jobId : String) : List CronEvent → List (ℕ × Timestamp)
  | [] => []
  | .claimed i j t :: h => if j = jobId then (i, t) :: unreleased jobId h else unreleased jobId h
  | .released i j :: h =>
    if j = jobId then (unreleased jobId h).filter (·.1 ≠ i) else unreleased jobId h
  | _ :: h => unreleased jobId h

/-- Each claim of a job comes no sooner than the timeout after every earlier one that its scheduler
has not released in between. -/
def ClaimsExclusive : List CronEvent → Prop
  | [] => True
  | .claimed _ j t :: h =>
    (∀ c ∈ unreleased j h, c.2 + cronStaleClaimAfter ≤ t) ∧ ClaimsExclusive h
  | _ :: h => ClaimsExclusive h

instance : ∀ h : List CronEvent, Decidable (ClaimsExclusive h)
  | [] => isTrue trivial
  | .claimed _ j t :: h =>
    have : Decidable (ClaimsExclusive h) := instDecidableClaimsExclusive h
    inferInstanceAs (Decidable
      ((∀ c ∈ unreleased j h, c.2 + cronStaleClaimAfter ≤ t) ∧ ClaimsExclusive h))
  | .created .. :: h | .released .. :: h | .posted .. :: h | .commanded .. :: h | .scheduled .. :: h
  | .saved .. :: h | .ran .. :: h => instDecidableClaimsExclusive h

def DispatchedOnce (history : List CronEvent) : Prop :=
  ∀ jobId occurrence, history.count (.posted jobId occurrence) ≤ 1 ∧
    history.count (.commanded jobId occurrence) ≤ 1

def savedEnabled (jobId : String) : List CronEvent → Option Bool
  | [] => none
  | .saved j b :: h => if j = jobId then some b else savedEnabled jobId h
  | _ :: h => savedEnabled jobId h

def scheduledFrom (jobId : String) (history : List CronEvent) : List Timestamp :=
  history.filterMap fun
    | .scheduled j after => if j = jobId then some after else none
    | _ => none

/-- The next run of an enabled recurring job is one of its stored schedule, computed from an instant
at which it was written, and the job is enabled as last saved unless it is a one-shot that ran. -/
def CronJob.FollowsUser (cal : Calendar) (history : List CronEvent) (j : CronJob) : Prop :=
  (j.enabled → j.schedule.type ≠ .oneShot → ∃ t ∈ j.nextRunAt,
    ∃ after ∈ scheduledFrom j.id history, j.schedule.nextRunAt cal after = .ok t) ∧
  (savedEnabled j.id history = some j.enabled ∨
    (j.schedule.type = .oneShot ∧ .ran j.id j.schedule ∈ history))

instance (cal : Calendar) (history : List CronEvent) (j : CronJob) :
    Decidable (j.FollowsUser cal history) :=
  inferInstanceAs (Decidable (_ ∧ _))

/-- Where a pass of `check_and_dispatch_due_jobs` stands; between passes a scheduler is idle. -/
inductive PassStage where
  | idle
  | working (rows : List ClaimedJob)
  | dispatched (row : ClaimedJob) (rest : List ClaimedJob)
  | failed (row : ClaimedJob) (rest : List ClaimedJob)

def PassStage.next : List ClaimedJob → PassStage
  | [] => .idle
  | row :: rows => .working (row :: rows)

def PassStage.atHand : PassStage → Option ClaimedJob
  | .dispatched row _ | .failed row _ => some row
  | _ => none

/-- A next run `update_cron_job` has computed: the schedule it read, the instant, the run. -/
structure Recomputed where
  read : Schedule
  (after next : Timestamp)

inductive EditStage where
  | start | reading
  | writing (recomputed : Option Recomputed)
  | returned (result : Except AppError Unit)

def EditStage.recomputed : EditStage → Option Recomputed
  | .writing recomputed => recomputed
  | _ => none

structure CronEdit where
  (agentId jobId : String)
  body : UpdateCronJobRequest
  stage : EditStage := .start

structure CronWorld where
  clock : Timestamp := 0
  jobs : CronJobs := .empty
  db : Db := {}
  passes : List PassStage := []
  edits : List CronEdit := []
  history : List CronEvent := []

def PassStage.isIdle : PassStage → Bool
  | .idle => true
  | _ => false

def EditStage.isReturned : EditStage → Bool
  | .returned _ => true
  | _ => false

def CronWorld.settled (w : CronWorld) : Bool :=
  w.passes.all (·.isIdle) && w.edits.all (·.stage.isReturned)

/-- What a pass does next.  `utcNow` is the clock of its own process. -/
inductive PassOp where
  | claim (locked : List String) (fault : Fault)
  | dispatch (k : ℕ) (ids : CronIds) (fault : Fault)
  | finish (utcNow : Timestamp) (fault : Fault)
  | release (fault : Fault)
  | crash

inductive EditOp where
  | check (access : Except AppError Unit)
  | read (utcNow : Timestamp) (fault : Fault)
  | write (fault : Fault)

inductive CronAction where
  | tick (now : Timestamp)
  | create (access : Except AppError Unit) (agentId id : String) (body : CreateCronJobRequest)
      (utcNow : Timestamp) (fault : Fault)
  | delete (access : Except AppError Unit) (agentId jobId : String) (fault : Fault)
  | startScheduler
  | advance (i : ℕ) (op : PassOp)
  | beginEdit (agentId jobId : String) (body : UpdateCronJobRequest)
  | edit (i : ℕ) (op : EditOp)
  | call (call : Call) (fault : Fault)

def ClaimedJob.inserted (row : ClaimedJob) (db db' : Db) : List CronEvent :=
  let messageId := cronMessageId row.job.id row.occurrence
  (if !db.hasEvent messageId && db'.hasEvent messageId then
      [.posted row.job.id row.occurrence] else [])
    ++ if !db.hasCommandFor messageId row.job.agentId && db'.hasCommandFor messageId row.job.agentId
      then [.commanded row.job.id row.occurrence] else []

namespace CronWorld

variable (w : CronWorld)

def commit (fault : Fault) (jobs : CronJobs) (events : List CronEvent) : CronWorld :=
  if fault = .rolledBack then w else { w with jobs, history := events ++ w.history }

def setPass (i : ℕ) (stage : PassStage) : CronWorld :=
  { w with passes := w.passes.set i stage }

def setEdit (i : ℕ) (call : CronEdit) (stage : EditStage) : CronWorld :=
  { w with edits := w.edits.set i { call with stage } }

variable (cal : Calendar) (w : CronWorld)

def passStep (i : ℕ) (stage : PassStage) : PassOp → Option CronWorld
  | .claim locked fault =>
    match stage with
    | .idle =>
      let (rows, jobs) := claimDueJobs w.jobs w.clock locked
      let claims := (selectDueJobs w.jobs w.clock locked).map fun j => .claimed i j.id w.clock
      some ((w.commit fault jobs claims).setPass i (if fault = .none then .next rows else .idle))
    | _ => none
  | .dispatch k ids fault =>
    match stage with
    | .working rows =>
      match rows[k]? with
      | none => none
      | some row =>
        let dispatch := (w.db.dispatchCronOccurrence w.clock (row.dispatch ids)).map fun db => ((), db)
        let (db, result) := fault.outcome "commit: connection closed" w.db dispatch
        let rest := rows.eraseIdx k
        let next := match result with
          | .ok _ => PassStage.dispatched row rest
          | .error _ => .failed row rest
        some ({ w with db, history := row.inserted w.db db ++ w.history }.setPass i next)
    | _ => none
  | .finish utcNow fault =>
    match stage with
    | .dispatched row rest =>
      let read := row.job.schedule
      let jobs := w.jobs.updateWhere (·.id = row.job.id)
        (CronJob.finish w.clock read (read.nextAfterRun cal utcNow)) (CronJob.finish_id _ _ _)
      let wrote := if read.type = .oneShot then .ran row.job.id read
        else .scheduled row.job.id utcNow
      some ((w.commit fault jobs [wrote, .released i row.job.id]).setPass i (.next rest))
    | _ => none
  | .release fault =>
    match stage with
    | .failed row rest =>
      let jobs := w.jobs.updateWhere (·.id = row.job.id) CronJob.unclaim fun _ => rfl
      some ((w.commit fault jobs [.released i row.job.id]).setPass i (.next rest))
    | _ => none
  | .crash => some (w.setPass i .idle)

def readCurrent (call : CronEdit) (utcNow : Timestamp) : EditStage :=
  match w.jobs.rows.find? fun j => j.id = call.jobId && j.agentId = call.agentId with
  | none => .returned (.error (cronJobNotFound call.jobId call.agentId))
  | some row =>
    match call.body.nextRun cal row.schedule utcNow with
    | .error e => .returned (.error e)
    | .ok next => .writing (some ⟨row.schedule, utcNow, next⟩)

def editStep (i : ℕ) (call : CronEdit) : EditOp → Option CronWorld
  | .check access =>
    match call.stage, access with
    | .start, .error e => some (w.setEdit i call (.returned (.error e)))
    | .start, .ok _ =>
      some (w.setEdit i call (if call.body.changesSchedule then .reading else .writing none))
    | _, _ => none
  | .read utcNow fault =>
    match call.stage with
    | .reading =>
      some (w.setEdit i call (if fault = .none then w.readCurrent cal call utcNow
        else .returned (.error (.internal "fetch current: connection closed"))))
    | _ => none
  | .write fault =>
    match call.stage with
    | .writing recomputed =>
      match w.jobs.update call.agentId call.jobId call.body (recomputed.map (·.next)) w.clock with
      | .error e => some (w.setEdit i call (.returned (.error e)))
      | .ok jobs =>
        let saved := call.body.enabled.toList.map (.saved call.jobId)
        let scheduled := recomputed.toList.map fun r => .scheduled call.jobId r.after
        let result := if fault = .none then .ok ()
          else .error (.internal "update cron job: connection closed")
        some ((w.commit fault jobs (saved ++ scheduled)).setEdit i call (.returned result))
    | _ => none

def step : CronAction → Option CronWorld
  | .tick now => if w.clock ≤ now then some { w with clock := now } else none
  | .create access agentId id body utcNow fault =>
    if w.history.any (·.creates id) then none
    else
      match createCronJob cal access agentId id body utcNow with
      | .error _ => some w
      | .ok job =>
        match w.jobs.insert? job with
        | none => some w
        | some jobs =>
          some (w.commit fault jobs [.created id agentId, .saved id true, .scheduled id utcNow])
  | .delete access agentId jobId fault =>
    match access with
    | .error _ => some w
    | .ok _ =>
      some (w.commit fault (w.jobs.deleteWhere fun j => j.id = jobId && j.agentId = agentId) [])
  | .startScheduler => some { w with passes := w.passes ++ [.idle] }
  | .advance i op => w.passes[i]?.bind fun stage => w.passStep cal i stage op
  | .beginEdit agentId jobId body => some { w with edits := w.edits ++ [{ agentId, jobId, body }] }
  | .edit i op => w.edits[i]?.bind fun call => w.editStep cal i call op
  | .call call fault =>
    match fault, call.exec w.db with
    | .rolledBack, _ | _, .error _ => some w
    | _, .ok (_, db) => some { w with db }

/-- A claim finds `running_at` unset or set by the newest claim, and what clears it is written by
the scheduler whose claim is the newest. -/
def ClaimsCurrent : CronAction → Prop
  | .advance _ (.claim locked _) => ∀ j ∈ selectDueJobs w.jobs w.clock locked, ∀ t ∈ j.runningAt,
      (unreleased j.id w.history).head?.map (·.2) = some t
  | .advance i (.finish _ _) | .advance i (.release _) => ∀ stage ∈ w.passes[i]?,
      ∀ row ∈ stage.atHand, ∀ c ∈ (unreleased row.job.id w.history).head?, c.1 = i
  | _ => True

instance : ∀ action, Decidable (w.ClaimsCurrent action)
  | .advance _ (.claim locked _) =>
    inferInstanceAs (Decidable (∀ j ∈ selectDueJobs w.jobs w.clock locked, _))
  | .advance i (.finish _ _) | .advance i (.release _) =>
    inferInstanceAs (Decidable (∀ stage ∈ w.passes[i]?, _))
  | .advance _ (.dispatch ..) | .advance _ .crash | .tick _ | .create .. | .delete ..
  | .startScheduler | .beginEdit .. | .edit .. | .call .. => isTrue trivial

/-- A pass writes a next run, which its schedule has, over the schedule it read; an edit of the
schedule writes over the schedule it read, and says `enabled` where a run has switched the job
off. -/
def SchedulesUnchanged : CronAction → Prop
  | .advance i (.finish utcNow _) => ∀ stage ∈ w.passes[i]?, ∀ row ∈ stage.atHand,
      (∀ j ∈ w.jobs, j.id = row.job.id → j.schedule = row.job.schedule) ∧
      (row.job.schedule.type ≠ .oneShot → (row.job.schedule.nextRunAt cal utcNow).isOk)
  | .edit i (.write _) => ∀ call ∈ w.edits[i]?, ∀ r ∈ call.stage.recomputed, ∀ j ∈ w.jobs,
      j.id = call.jobId → j.schedule = r.read ∧
        (call.body.enabled = none → savedEnabled j.id w.history = some j.enabled)
  | _ => True

instance : ∀ action, Decidable (w.SchedulesUnchanged cal action)
  | .advance i (.finish _ _) => inferInstanceAs (Decidable (∀ stage ∈ w.passes[i]?, _))
  | .edit i (.write _) => inferInstanceAs (Decidable (∀ call ∈ w.edits[i]?, _))
  | .advance _ (.claim ..) | .advance _ (.dispatch ..) | .advance _ (.release _) | .advance _ .crash
  | .tick _ | .create .. | .delete .. | .startScheduler | .beginEdit .. | .edit _ (.check _)
  | .edit _ (.read ..) | .call .. => isTrue trivial

end CronWorld

end Choruz
