import Choruz.Pipeline
import Choruz.Routing

/-!
# Routing an event

`route_event` reads the members and policies, plans, and then writes visibility, decision, session
and command for one member after another.  Each write is a transaction of its own, so a run may
stop anywhere and others may run beside it, on the same event and with other policies and members.
A run that is never advanced again has crashed.
-/

namespace Choruz

def Txn.insertsCommand : Txn → Bool
  | .insertCommand _ => true
  | _ => false

namespace Router

open Relational

structure MailboxVisibility where
  (agentId conversationId messageId : String)
  eventSeq : Int

structure RouteDecision where
  (routeId messageId agentId conversationId decision reason : String)
  policySnapshot : Json

def RouteDecision.isFor (messageId agentId : String) (d : RouteDecision) : Bool :=
  d.messageId = messageId && d.agentId = agentId

/-- The pipeline's database with the two tables only the router writes. -/
structure RouterDb where
  db : Db := {}
  mailboxVisibility : List MailboxVisibility := []
  routeDecisions : List RouteDecision := []

namespace RouterDb

variable (db : RouterDb)

/-- `INSERT … ON CONFLICT (agent_id, conversation_id, message_id) DO NOTHING`. -/
def writeVisibility (v : MailboxVisibility) : RouterDb :=
  if db.mailboxVisibility.any fun r => r.agentId = v.agentId
      && r.conversationId = v.conversationId && r.messageId = v.messageId then db
  else { db with mailboxVisibility := db.mailboxVisibility ++ [v] }

/-- The decision already stored for the message and the agent, or else this one. -/
def writeDecision (d : RouteDecision) : RouterResult (RouteDecision × RouterDb) :=
  match db.routeDecisions.find? (·.isFor d.messageId d.agentId) with
  | some stored => .ok (stored, db)
  | none =>
    if db.routeDecisions.any (·.routeId = d.routeId) then
      .error (.internal ("write_decision: duplicate key value violates unique constraint "
        ++ "\"route_decisions_pkey\""))
    else if d.decision ∉ ["trigger", "skip", "error"] then
      .error (.internal ("write_decision: new row for relation \"route_decisions\" violates "
        ++ "check constraint \"route_decisions_decision_check\""))
    else .ok (d, { db with routeDecisions := db.routeDecisions ++ [d] })

/-- The two transactions of `write_command`. -/
def upsertSession (now : Timestamp) (cmd : InsertCommand) : RouterDb :=
  { db with db := db.db.upsertSession now cmd.sessionKey cmd.agentId cmd.conversationId }

def insertCommand (now : Timestamp) (cmd : InsertCommand) :
    RouterResult RouterDb :=
  match db.db.insertCommand now cmd with
  | .error e => .error (.session e)
  | .ok next => .ok { db with db := next }

end RouterDb

def hexDigit (n : ℕ) : Char := "0123456789abcdef".toList.getD n '0'

def hexByte (b : UInt8) : List Char := [hexDigit (b.toNat / 16), hexDigit (b.toNat % 16)]

/-- `Uuid::from_bytes(bytes).to_string()`. -/
def uuidString (bytes : List UInt8) : String :=
  let hex := bytes.flatMap hexByte
  let group (i n : ℕ) := (hex.drop i).take n
  String.ofList (group 0 8 ++ '-' :: group 8 4 ++ '-' :: group 12 4 ++ '-' :: group 16 4
    ++ '-' :: group 20 12)

def asBytes (s : String) : List UInt8 := s.toUTF8.toList

/-- What the router is built with: `str::to_lowercase` and SHA-256. -/
structure Primitives where
  lower : String → String
  sha256 : List UInt8 → List UInt8

def stableRouterId (prims : Primitives) (kind messageId agentId : String) : String :=
  let digest := prims.sha256 (asBytes "echat-router-id-v1" ++ 0 :: asBytes kind
    ++ 0 :: asBytes messageId ++ 0 :: asBytes agentId)
  let bytes := ((digest.take 16).modify 6 fun b => (b &&& 0x0f) ||| 0x50).modify 8
    fun b => (b &&& 0x3f) ||| 0x80
  uuidString bytes

/-- The fields of an attachment the executor stages. -/
def buildCommandMetadata (event : ConversationEventRow) : Json :=
  if (event.metadata.text? "attachment_id").isNone then .ofFields []
  else
    let pick (key : String) := (key, (event.metadata.field? key).getD .null)
    .ofFields [("attachments", .arr [.ofFields [pick "attachment_id", pick "filename",
      pick "mime_type", pick "download_path", pick "size_bytes"]])]

/-- Where the loop over the members stands: what was read and planned, the member at hand, those
after it, and the outcomes so far. -/
structure Position where
  input : RoutingInput
  plan : Plan
  member : ConversationMember
  rest : List ConversationMember
  outcomes : List RouteOutcome

inductive Stage where
  | start
  | visibility (p : Position)
  | decision (p : Position)
  /-- The persisted decision says trigger; the session is upserted next. -/
  | session (p : Position) (decision : RouteDecision)
  | command (p : Position) (decision : RouteDecision)
  | finishing (outcomes : List RouteOutcome)
  | returned (result : RouterResult (List RouteOutcome))

def Stage.isOk : Stage → Bool
  | .returned (.ok _) => true
  | _ => false

structure RouteRun where
  event : ConversationEventRow
  agentMembers : List ConversationMember := []
  stage : Stage := .start

def nextMember (event : ConversationEventRow) (input : RoutingInput) (plan : Plan) :
    List ConversationMember → List RouteOutcome → Stage
  | [], outcomes => .finishing outcomes
  | m :: rest, outcomes =>
    if m.principalId = event.senderId then nextMember event input plan rest (outcomes ++ [.skipped])
    else .visibility ⟨input, plan, m, rest, outcomes⟩

namespace RouteRun

variable (prims : Primitives)

def proposal (event : ConversationEventRow) (p : Position) : RouteDecision :=
  let agentId := p.member.principalId
  let policy := p.input.policies agentId
  let route := match p.plan.get? agentId with
    | some route => route
    | none =>
      let trigger := evaluateTriggerWithCandidates prims.lower policy event p.member
        (mentionCandidates (p.input.agentMembers event.conversationId) p.input.policies)
      { shouldTrigger := trigger.shouldTrigger
        reason := trigger.reason
        policySnapshot := policySnapshot policy (.ofFields [("routing_source", .str "policy")]) }
  let outcome : RouteOutcome := if route.shouldTrigger then .triggered else .skipped
  { routeId := stableRouterId prims "route" event.eventId agentId
    messageId := event.eventId
    agentId
    conversationId := event.conversationId
    decision := outcome.asStr
    reason := route.reason
    policySnapshot := route.policySnapshot }

def commandFor (event : ConversationEventRow) (p : Position) (decision : RouteDecision)
    (prompt : String) : InsertCommand :=
  let agentId := p.member.principalId
  let metadata := buildCommandMetadata event
  { commandId := stableRouterId prims "command" event.eventId agentId
    routeId := decision.routeId
    sessionKey := agentId ++ ":" ++ event.conversationId
    agentId
    conversationId := event.conversationId
    messageId := event.eventId
    turnId := stableRouterId prims "turn" event.eventId agentId
    prompt
    maxAttempts := defaultMaxAttempts
    metadata := match event.metadata.text? "trace_id" with
      | some traceId => if traceId = "none" then metadata else metadata.set "trace_id" (.str traceId)
      | none => metadata }

end RouteRun

/-- What a run is given at a step: the answers of its reads, or the clock, the prompt and the
fault of its next write. -/
inductive RouteOp where
  | read (answer : RouterResult RoutingInput)
  | write (now : Timestamp) (prompt : String) (fault : Fault)
  | finish

/-- A write with its fault: the database it leaves, and what the run sees of it. -/
def withFault {α : Type} (fault : Fault) (db : RouterDb) (r : RouterResult (α × RouterDb)) :
    RouterDb × RouterResult α :=
  fault.outcome (.internal "connection closed") db r

namespace RouteRun

variable (prims : Primitives)

def write (db : RouterDb) (run : RouteRun) (now : Timestamp) (prompt : String) :
    Option (RouterResult (Stage × RouterDb)) :=
  match run.stage with
  | .visibility p => some (.ok (.decision p, db.writeVisibility
      { agentId := p.member.principalId
        conversationId := run.event.conversationId
        messageId := run.event.eventId
        eventSeq := run.event.seq }))
  | .decision p => some (match db.writeDecision (proposal prims run.event p) with
    | .error e => .error e
    | .ok (persisted, next) =>
      if persisted.decision = RouteOutcome.triggered.asStr then .ok (.session p persisted, next)
      else .ok (nextMember run.event p.input p.plan p.rest (p.outcomes ++ [.skipped]), next))
  | .session p decision => some (.ok (.command p decision,
      db.upsertSession now (commandFor prims run.event p decision prompt)))
  | .command p decision => some (match
      db.insertCommand now (commandFor prims run.event p decision prompt) with
    | .error e => .error e
    | .ok next =>
      .ok (nextMember run.event p.input p.plan p.rest (p.outcomes ++ [.triggered]), next))
  | _ => none

def step (db : RouterDb) (run : RouteRun) : RouteOp → Option (RouterDb × RouteRun)
  | .read answer =>
    match run.stage with
    | .start =>
      match answer with
      | .error e => some (db, { run with stage := .returned (.error e) })
      | .ok input =>
        let members := input.agentMembers run.event.conversationId
        match planRoutes prims.lower run.event input with
        | .error e => some (db, { run with agentMembers := members, stage := .returned (.error e) })
        | .ok plan => some (db, { run with
            agentMembers := members
            stage := nextMember run.event input plan members [] })
    | _ => none
  | .write now prompt fault =>
    (run.write prims db now prompt).map fun r =>
      match withFault fault db r with
      | (db, .ok stage) => (db, { run with stage })
      | (db, .error e) => (db, { run with stage := .returned (.error e) })
  | .finish =>
    match run.stage with
    | .finishing outcomes => some (db, { run with stage := .returned (.ok outcomes) })
    | _ => none

def proposes (db : RouterDb) (run : RouteRun) : RouteOp → List RouteDecision
  | .write _ _ fault =>
    match run.stage with
    | .decision p =>
      let d := proposal prims run.event p
      if fault = .rolledBack then []
      else match db.writeDecision d with
        | .error _ => []
        | .ok _ => [d]
    | _ => []
  | _ => []

end RouteRun

structure RouteWorld where
  db : RouterDb := {}
  runs : List RouteRun := []
  proposals : List RouteDecision := []

inductive RouteAction where
  | begin (event : ConversationEventRow)
  | advance (i : ℕ) (op : RouteOp)
  | call (call : Call) (fault : Fault)

namespace RouteWorld

variable (prims : Primitives) (w : RouteWorld)

def step : RouteAction → Option RouteWorld
  | .begin event =>
    -- a stored event is not rewritten
    if ∃ run ∈ w.runs, run.event.eventId = event.eventId ∧ run.event ≠ event then none
    else some { w with runs := w.runs ++ [{ event }] }
  | .advance i op =>
    match w.runs[i]? with
    | none => none
    | some run => (run.step prims w.db op).map fun (db, run') =>
        { db
          runs := w.runs.set i run'
          proposals := w.proposals ++ run.proposes prims w.db op }
  | .call call fault =>
    if call.txn.insertsCommand then none
    else
      match fault, call.exec w.db.db with
      | .rolledBack, _ | _, .error _ => some w
      | _, .ok (_, db) => some { w with db := { w.db with db } }

/-- A run of the event about to return `Ok` has read every agent whose decision says trigger, and a
run about to decide for an agent finds it read by the runs that have returned `Ok`. -/
def CoveredAt (eventId : String) (read : List String) : Stage → RouteOp → Prop
  | .finishing _, .finish => ∀ d ∈ w.db.routeDecisions, d.messageId = eventId →
      d.decision = RouteOutcome.triggered.asStr → d.agentId ∈ read
  | .decision p, .write _ _ _ => ∀ run ∈ w.runs, run.event.eventId = eventId →
      run.stage.isOk → p.member.principalId ∈ run.agentMembers.map (·.principalId)
  | _, _ => True

/-- No agent a run of the same event decided on is missing among the members read by a run that
returns `Ok`. -/
def Covered : RouteAction → Prop
  | .advance i op => ∀ run ∈ w.runs[i]?,
      w.CoveredAt run.event.eventId (run.agentMembers.map (·.principalId)) run.stage op
  | _ => True

instance (eventId : String) (read : List String) :
    ∀ stage op, Decidable (w.CoveredAt eventId read stage op)
  | .finishing _, .finish => inferInstanceAs (Decidable (∀ d ∈ w.db.routeDecisions, _))
  | .decision _, .write _ _ _ => inferInstanceAs (Decidable (∀ run ∈ w.runs, _))
  | .start, _ | .visibility _, _ | .session _ _, _ | .command _ _, _ | .returned _, _ =>
    isTrue trivial
  | .finishing _, .read _ | .finishing _, .write _ _ _ => isTrue trivial
  | .decision _, .read _ | .decision _, .finish => isTrue trivial

instance : ∀ action, Decidable (w.Covered action)
  | .advance i _ => inferInstanceAs (Decidable (∀ run ∈ w.runs[i]?, _))
  | .begin _ | .call _ _ => isTrue trivial

end RouteWorld

end Router

end Choruz
