import Choruz.Json
import Mathlib.Algebra.Group.Int.Defs

/-!
# Domain models of the session manager and the writer

The rows of `session_registry`, `agent_commands` and `dead_letters`, the inputs of the store's
operations, its errors, and the retry arithmetic.
-/

namespace Choruz

/-- Microseconds since the epoch. -/
abbrev Timestamp := Int

/-- `TimeDelta::seconds`. -/
def seconds (n : Int) : Timestamp := n * 1000000

inductive SessionStatus where
  | idle | active | draining | dead
deriving DecidableEq

structure Session where
  (sessionKey agentId conversationId : String)
  executorNodeId : Option String
  epoch : Int
  status : SessionStatus
  lastHeartbeatAt : Option Timestamp
  (createdAt updatedAt : Timestamp)
deriving DecidableEq

inductive CommandStatus where
  | pending | leased | started | heartbeating | succeeded | committed | retryScheduled | deadLetter
deriving DecidableEq

namespace CommandStatus

/-- `status IN ('leased', 'started', 'heartbeating')`. -/
def isActive : CommandStatus → Bool
  | leased | started | heartbeating => true
  | _ => false

/-- `status IN ('pending', 'retry_scheduled', 'leased', 'started', 'heartbeating')`, the statuses
a host revocation and a binding move act on. -/
def isOpen : CommandStatus → Bool
  | pending | retryScheduled | leased | started | heartbeating => true
  | _ => false

def asStr : CommandStatus → String
  | pending => "pending"
  | leased => "leased"
  | started => "started"
  | heartbeating => "heartbeating"
  | succeeded => "succeeded"
  | committed => "committed"
  | retryScheduled => "retry_scheduled"
  | deadLetter => "dead_letter"

end CommandStatus

structure AgentCommand where
  (commandId routeId sessionKey agentId conversationId messageId turnId : String)
  status : CommandStatus
  currentAttemptId : Option String
  currentEpoch : Option Int
  (attemptCount maxAttempts : Int)
  prompt : String
  metadata : Json
  nextRetryAt : Option Timestamp
  lastError : Option String
  (createdAt updatedAt : Timestamp)

structure InsertCommand where
  (commandId routeId sessionKey agentId conversationId messageId turnId prompt : String)
  maxAttempts : Int
  metadata : Json

/-- The fields a status write may change.  An outer `none` leaves the column alone; for
`nextRetryAt` the inner option is the value written. -/
structure CommandStatusUpdate where
  commandId : String
  status : CommandStatus
  currentAttemptId : Option String := none
  currentEpoch : Option Int := none
  attemptCount : Option Int := none
  nextRetryAt : Option (Option Timestamp) := none
  lastError : Option String := none

structure LeaseAssignment where
  epoch : Int
  attemptId : String
  attemptCount : Int

structure ExpiredLease where
  (sessionKey commandId : String)
  (epoch attemptCount maxAttempts : Int)

structure DeadLetter where
  (id sourceType sourceId : String)
  payload : Json
  error : String
  attemptCount : Int
  createdAt : Timestamp

structure InsertDeadLetter where
  (sourceType sourceId : String)
  payload : Json
  error : String
  attemptCount : Int

inductive SessionError where
  | sessionNotFound (sessionKey : String)
  | commandNotFound (commandId : String)
  | staleAttempt (commandId attemptId : String)
  | sessionInactive (sessionKey : String) (status : SessionStatus)
  | epochMismatch (expected actual : Int)
  | invalidStateTransition (commandId : String) (current target : CommandStatus)
  | conflict (message : String)
  | database (message : String)
  | internal (message : String)
  /-- The gateway's refusals: not found, validation and conflict answers. -/
  | refused (message : String)
deriving DecidableEq

/-- The errors of the application service. -/
inductive AppError where
  | unauthorized (message : String)
  | notFound (message : String)
  | conflict (message : String)
  | validation (message : String)
  | forbidden (message : String)
  | rateLimited (retryAfterMs : ℕ)
  | internal (message : String)
deriving DecidableEq

def maxBackoffSecs : Int := 300

def defaultMaxAttempts : Int := 3

/-- `2^min(attempt_count, 30)` capped at five minutes; a negative count cast to `u32` saturates
past the cap. -/
def exponentialBackoffSecs (attemptCount : Int) : Int :=
  if attemptCount < 0 then maxBackoffSecs
  else min ((2 : Int) ^ (min attemptCount 30).toNat) maxBackoffSecs

def nextRetryAt (now : Timestamp) (attemptCount : Int) : Timestamp :=
  now + seconds (exponentialBackoffSecs attemptCount)

def isExhausted (attemptCount maxAttempts : Int) : Bool := maxAttempts ≤ attemptCount

end Choruz
