import Choruz.Pipeline

/-!
# The tool gateway

`crates/choruz-tools`: the registry of tools, the effect journal, and a call of
`ToolGateway::execute`.  A mutating call reads the journal, inserts its record, claims it, runs the
tool and records what came back, each a statement of its own; between two of them any other worker
may act, a statement may fail or lose its answer, and the process may die.
-/

namespace Choruz

open Relational

def AppError.display : AppError → String
  | .unauthorized message => "unauthorized: " ++ message
  | .notFound message => "not found: " ++ message
  | .conflict message => "conflict: " ++ message
  | .validation message => "validation failed: " ++ message
  | .forbidden message => "forbidden: " ++ message
  | .rateLimited _ => "rate limited"
  | .internal message => "internal error: " ++ message

structure ToolDescriptor where
  name : String
  isMutating : Bool

abbrev ToolRegistry := Table ToolDescriptor.name

/-- An unknown tool counts as mutating. -/
def ToolRegistry.isMutating (registry : ToolRegistry) (name : String) : Bool :=
  (registry.lookup name).all ToolDescriptor.isMutating

inductive EffectStatus where
  | pending | executing | succeeded | failed
deriving DecidableEq

structure NewEffect where
  (toolCallId attemptId turnId toolName : String)
  toolInput : Json
  isMutating : Bool
  externalIdempotencyKey : Option String

structure EffectRecord extends NewEffect where
  toolOutput : Option Json
  status : EffectStatus
  createdAt : Timestamp
  completedAt : Option Timestamp

def NewEffect.pendingRecord (effect : NewEffect) (now : Timestamp) : EffectRecord :=
  { effect with toolOutput := none, status := .pending, createdAt := now, completedAt := none }

def EffectRecord.complete (r : EffectRecord) (now : Timestamp) (result : Option Json)
    (status : EffectStatus) : EffectRecord :=
  { r with
    status
    toolOutput := result
    completedAt := if status = .succeeded ∨ status = .failed then some now else none }

@[simp] theorem EffectRecord.toolCallId_complete (r : EffectRecord) (now : Timestamp)
    (result : Option Json) (status : EffectStatus) :
    (r.complete now result status).toolCallId = r.toolCallId := rfl

abbrev EffectJournal := Table fun r : EffectRecord => r.toolCallId

namespace EffectJournal

def insertEffect (now : Timestamp) (effect : NewEffect) (journal : EffectJournal) :
    Except AppError (Unit × EffectJournal) :=
  match journal.insert? (effect.pendingRecord now) with
  | some journal => .ok ((), journal)
  | none => .error (.conflict ("effect already exists for tool_call_id=" ++ effect.toolCallId))

def getEffect (toolCallId : String) (journal : EffectJournal) :
    Except AppError (Option EffectRecord × EffectJournal) :=
  .ok (journal.lookup toolCallId, journal)

/-- Sets the record's outcome, whatever its status is. -/
def updateEffectResult (now : Timestamp) (toolCallId : String) (result : Option Json)
    (status : EffectStatus) (journal : EffectJournal) : Except AppError (Unit × EffectJournal) :=
  if (journal.lookup toolCallId).isSome then
    .ok ((), journal.updateWhere (·.toolCallId = toolCallId)
      (·.complete now result status) fun r => r.toolCallId_complete now result status)
  else .error (.notFound ("no effect found for tool_call_id=" ++ toolCallId))

/-- `pending` to `executing`; the answer says whether a row was affected. -/
def claimEffect (toolCallId : String) (journal : EffectJournal) :
    Except AppError (Bool × EffectJournal) :=
  .ok ((journal.lookup toolCallId).any (·.status = .pending),
    journal.updateWhere (fun r => r.toolCallId = toolCallId && r.status = .pending)
      (fun r => { r with status := .executing }) fun _ => rfl)

end EffectJournal

structure ToolCallRequest where
  (toolCallId attemptId turnId toolName : String)
  toolInput : Json

structure ToolCallResponse where
  output : Json
  cached : Bool
  idempotencyKey : String

inductive ToolGatewayError where
  | stillExecuting (toolCallId : String)
  | executionFailed (message : String)
  | internal (message : String)

abbrev ToolResult := Except ToolGatewayError ToolCallResponse

def AppError.toToolGatewayError (e : AppError) : ToolGatewayError := .internal e.display

def staleExecutingTimeout : Timestamp := seconds 120

namespace ToolCallRequest

variable (req : ToolCallRequest)

def idempotencyKey : String := "echat:" ++ req.toolCallId

def newEffect : NewEffect where
  toolCallId := req.toolCallId
  attemptId := req.attemptId
  turnId := req.turnId
  toolName := req.toolName
  toolInput := req.toolInput
  isMutating := true
  externalIdempotencyKey := some req.idempotencyKey

def cachedResponse (existing : EffectRecord) : ToolCallResponse where
  output := existing.toolOutput.getD .null
  cached := true
  idempotencyKey := req.idempotencyKey

def response (result : Except String Json) : ToolResult :=
  match result with
  | .ok output => .ok { output, cached := false, idempotencyKey := req.idempotencyKey }
  | .error message => .error (.executionFailed message)

end ToolCallRequest

inductive CallStage where
  | readOnly | reading | inserting | claiming
  /-- Lost a race: `handle_race_on_insert` reads the record again. -/
  | raced | running
  | recording (result : Except String Json)
  | returned (answer : ToolResult)
  | crashed

/-- What a call goes through besides its own code. -/
inductive ToolOp where
  | sql (now : Timestamp) (fault : Fault)
  | finish (result : Except String Json)
  | crash

def effectUnanswered (what : String) : AppError :=
  .internal ("failed to " ++ what ++ " effect: connection closed")

namespace ToolCallRequest

variable (req : ToolCallRequest)

def start (registry : ToolRegistry) : CallStage :=
  if registry.isMutating req.toolName then .reading else .readOnly

def afterRead (now : Timestamp) : Except AppError (Option EffectRecord) → CallStage
  | .error e => .returned (.error e.toToolGatewayError)
  | .ok none => .inserting
  | .ok (some existing) =>
    match existing.status with
    | .succeeded => .returned (.ok (req.cachedResponse existing))
    | .executing =>
      -- a record from the future has age zero
      let age := max 0 (now - existing.createdAt)
      if age < staleExecutingTimeout then .returned (.error (.stillExecuting req.toolCallId))
      else .claiming
    | .failed => .claiming
    | .pending => .claiming

def afterInsert : Except AppError Unit → CallStage
  | .ok () => .claiming
  | .error (.conflict _) => .raced
  | .error e => .returned (.error e.toToolGatewayError)

def afterClaim : Except AppError Bool → CallStage
  | .ok true => .running
  | .ok false => .raced
  | .error e => .returned (.error e.toToolGatewayError)

def afterRace : Except AppError (Option EffectRecord) → CallStage
  | .error e => .returned (.error e.toToolGatewayError)
  | .ok none => .returned (.error (.internal "effect disappeared after conflict"))
  | .ok (some existing) =>
    match existing.status with
    | .succeeded => .returned (.ok (req.cachedResponse existing))
    | _ => .returned (.error (.stillExecuting req.toolCallId))

def record (now : Timestamp) (result : Except String Json) (journal : EffectJournal) :
    Except AppError (Unit × EffectJournal) :=
  match result with
  | .ok output => journal.updateEffectResult now req.toolCallId (some output) .succeeded
  | .error _ => journal.updateEffectResult now req.toolCallId none .failed

/-- An error of the record hides a success, and is only logged after a failure. -/
def afterRecord (result : Except String Json) (recorded : Except AppError Unit) : CallStage :=
  match result, recorded with
  | .ok _, .error e => .returned (.error e.toToolGatewayError)
  | result, _ => .returned (req.response result)

def next (journal : EffectJournal) : CallStage → ToolOp → Option (EffectJournal × CallStage)
  | .reading, .sql now fault =>
    some ((fault.outcome (effectUnanswered "query") journal
      (journal.getEffect req.toolCallId)).map id (req.afterRead now))
  | .inserting, .sql now fault =>
    some ((fault.outcome (effectUnanswered "insert") journal
      (journal.insertEffect now req.newEffect)).map id afterInsert)
  | .claiming, .sql _ fault =>
    some ((fault.outcome (effectUnanswered "claim") journal
      (journal.claimEffect req.toolCallId)).map id afterClaim)
  | .raced, .sql _ fault =>
    some ((fault.outcome (effectUnanswered "query") journal
      (journal.getEffect req.toolCallId)).map id req.afterRace)
  | .recording result, .sql now fault =>
    some ((fault.outcome (effectUnanswered "update") journal
      (req.record now result journal)).map id (req.afterRecord result))
  | .running, .finish result => some (journal, .recording result)
  | .readOnly, .finish result => some (journal, .returned (req.response result))
  | .returned _, .crash | .crashed, .crash => none
  | _, .crash => some (journal, .crashed)
  | _, _ => none

end ToolCallRequest

/-- What a call waits for: its statement, or the tool. -/
def CallStage.awaited (now : Timestamp) (tool : Except String Json) : CallStage → Option ToolOp
  | .reading | .inserting | .claiming | .raced | .recording _ => some (.sql now .none)
  | .running | .readOnly => some (.finish tool)
  | .returned _ | .crashed => none

namespace ToolCallRequest

variable (req : ToolCallRequest)

/-- The stages a call goes through from one of them, and the journal it leaves. -/
def proceed (clock : ℕ → Timestamp) (tool : Except String Json) :
    ℕ → EffectJournal → CallStage → EffectJournal × List CallStage
  | 0, journal, stage => (journal, [stage])
  | n + 1, journal, stage =>
    match (stage.awaited (clock n) tool).bind (req.next journal stage) with
    | none => (journal, [stage])
    | some (journal, stage') => (proceed clock tool n journal stage').map id (stage :: ·)

/-- `execute` with no other worker and no fault, at the times of `clock` and with `tool` as what
the tool answers if it is run: the journal afterwards and the stages passed.  No call makes more
than five steps. -/
def execute (registry : ToolRegistry) (clock : ℕ → Timestamp) (tool : Except String Json)
    (journal : EffectJournal) : EffectJournal × List CallStage :=
  req.proceed clock tool 5 journal (req.start registry)

end ToolCallRequest

structure ToolCall where
  request : ToolCallRequest
  stage : CallStage

inductive ToolAction where
  | begin (request : ToolCallRequest)
  | resume (i : ℕ) (op : ToolOp)

/-- The journal, the calls made so far, and the ids of the claimed executions that have begun. -/
structure ToolWorld where
  journal : EffectJournal := Table.empty
  calls : List ToolCall := []
  executions : List String := []

namespace CallStage

def isRunning : CallStage → Bool
  | .running => true
  | _ => false

end CallStage

namespace ToolWorld

def step (registry : ToolRegistry) (w : ToolWorld) : ToolAction → Option ToolWorld
  | .begin request =>
    some { w with calls := w.calls ++ [⟨request, request.start registry⟩] }
  | .resume i op => do
    let call ← w.calls[i]?
    let (journal, stage) ← call.request.next w.journal call.stage op
    some {
      journal
      calls := w.calls.set i { call with stage }
      executions :=
        if stage.isRunning then w.executions ++ [call.request.toolCallId] else w.executions }

end ToolWorld

end Choruz
