import Choruz.RuntimeHost
import Mathlib.Algebra.Group.Nat.Defs

/-!
# Schedules

`next_run_at`: the first run of a schedule strictly after an instant.  Intervals are read here in
full; the cron patterns, the time zones and the written timestamps are those of the crates the
service is built with, and come in as a `Calendar`.
-/

namespace Choruz

/-- `schedule_type IN ('at', 'every', 'cron')`. -/
inductive ScheduleType where
  | oneShot | every | cron
deriving DecidableEq

namespace ScheduleType

def asStr : ScheduleType → String
  | oneShot => "at"
  | every => "every"
  | cron => "cron"

def ofStr? : String → Option ScheduleType
  | "at" => some oneShot
  | "every" => some every
  | "cron" => some cron
  | _ => none

theorem asStr_of_ofStr? {s : String} {t : ScheduleType} (h : ofStr? s = some t) : t.asStr = s := by
  unfold ofStr? at h
  split at h <;> cases h <;> rfl

end ScheduleType

structure Schedule where
  type : ScheduleType
  value : String
  timezone : Option String
deriving DecidableEq

/-- What the crates answer: whether a name is an IANA zone, the next occurrence of a pattern in a
zone, and the instant a text with its offset denotes. -/
structure Calendar where
  isZone : String → Bool
  findNextOccurrence : String → String → Timestamp → Except String Timestamp
  parseInstant : String → Option Timestamp

def i64Range (n : Int) : Option Int :=
  if -2 ^ 63 ≤ n ∧ n < 2 ^ 63 then some n else none

def parseDigits (cs : List Char) : Option ℕ :=
  if cs.isEmpty || cs.any (!·.isDigit) then none
  else some (cs.foldl (fun n c => 10 * n + (c.toNat - '0'.toNat)) 0)

/-- `str::parse::<i64>`. -/
def parseI64 (s : String) : Option Int :=
  match s.toList with
  | '-' :: cs => (parseDigits cs).bind fun n => i64Range (-n)
  | '+' :: cs => (parseDigits cs).bind fun n => i64Range n
  | cs => (parseDigits cs).bind fun n => i64Range n

/-- The number of an interval and the seconds of its unit; minutes where no unit is written. -/
def intervalUnit (value : String) : String × Int :=
  let number := String.ofList value.toList.dropLast
  match value.toList.getLast? with
  | some 's' => (number, 1)
  | some 'm' => (number, 60)
  | some 'h' => (number, 3600)
  | some 'd' => (number, 86400)
  | _ => (value, 60)

def maxDeltaSeconds : Int := 9223372036854775

/-- `DateTime::<Utc>::MAX_UTC`. -/
def maxUtc : Timestamp := 8210266876799999999

def invalidSchedule (detail : String) : AppError :=
  .validation ("invalid schedule: " ++ detail)

def nextInterval (value : String) (after : Timestamp) : Except AppError Timestamp :=
  let (number, multiplier) := intervalUnit (trim value)
  match ((parseI64 number).bind fun n => i64Range (n * multiplier)).filter (0 < ·) with
  | none => .error (invalidSchedule "interval must be positive seconds, minutes, hours or days")
  | some n =>
    if maxDeltaSeconds < n || maxUtc < after + seconds n then
      .error (invalidSchedule "interval is too large")
    else .ok (after + seconds n)

def nextRunAt (cal : Calendar) (scheduleType value : String) (timezone : Option String)
    (after : Timestamp) : Except AppError Timestamp :=
  let zone := timezone.getD "UTC"
  if !cal.isZone zone then .error (invalidSchedule "timezone must be an IANA timezone")
  else
    let next : Except AppError Timestamp :=
      match ScheduleType.ofStr? scheduleType with
      | some .cron =>
        match cal.findNextOccurrence value zone after with
        | .error e => .error (invalidSchedule e)
        | .ok next => .ok next
      | some .every => nextInterval value after
      | some .oneShot =>
        match cal.parseInstant value with
        | none => .error (invalidSchedule "timestamp must include its UTC offset")
        | some next => .ok next
      | none => .error (invalidSchedule "type must be at, every or cron")
    match next with
    | .error e => .error e
    | .ok next =>
      if next ≤ after then .error (invalidSchedule "next occurrence must be in the future")
      else .ok next

def Schedule.nextRunAt (cal : Calendar) (s : Schedule) (after : Timestamp) :
    Except AppError Timestamp :=
  Choruz.nextRunAt cal s.type.asStr s.value s.timezone after

end Choruz
