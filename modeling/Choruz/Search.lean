import Choruz.Evaluation

/-!
# Checkpointed reflective search

A search evaluates two seeds, proposes revisions of the best candidates, tries each on a few
training cases and validates those that improve, within fixed budgets; at last it compares the
winner with the first seed on the test cases.
-/

namespace Choruz

/-- What the search does with scores and their means.  The laws are those of finite numbers between
zero and one. -/
structure ScoreOps (F : Type) where
  inRange : F → Bool
  (le lt beq : F → F → Bool)
  cmp : F → F → Ordering
  mean : List F → F
  max : F → F → F
  (zero one : F)
  le_trans : ∀ a b c, inRange a → inRange b → inRange c → le a b → le b c → le a c
  lt_iff : ∀ a b, inRange a → inRange b → (lt a b ↔ le b a = false)
  beq_iff : ∀ a b, inRange a → inRange b → (beq a b ↔ le a b ∧ le b a)

structure OptimizationConfig where
  (maxMetricCalls maxProposals minibatchSize : ℕ)
  seed : UInt64
  merge : Bool
  cacheEvaluations : Bool := false
  evolveTeam : Bool := false
  maxAgents : ℕ := 4

structure Individual where
  guidance : EvaluationCandidate
  parents : List ℕ
  origin : String

structure Observation (F : Type) where
  (candidate case : ℕ)
  score : F
  (output preflight : String)
  assessment : Option JudgeResult

inductive Component where
  | instruction | team
deriving DecidableEq

inductive SearchAction where
  | evaluate (candidate case : ℕ)
  | propose (parents batch : List ℕ) (component : Component)
deriving DecidableEq

inductive SearchStage where
  | seeds | choose
  | reflect (parents batch : List ℕ)
  | trial (candidate : ℕ) (parents batch : List ℕ)
  | validate | final | complete
deriving DecidableEq

def SearchStage.searching : SearchStage → Bool
  | final | complete => false
  | _ => true

structure Optimization (F : Type) where
  config : OptimizationConfig
  candidates : List Individual
  observations : List (Observation F) := []
  metricCalls : ℕ := 0
  proposalCalls : ℕ := 0
  modelCallsReserved : ℕ := 0
  pending : Option SearchAction := none
  winner : Option ℕ := none
  stage : SearchStage := .seeds
  queue : List (ℕ × ℕ)
  rounds : ℕ := 0
  rng : UInt64
  trainOrder : Array ℕ
  trainCursor : ℕ := 0

/-- What `next_action` returns; an index out of bounds and a remainder by zero are panics. -/
inductive SearchReply where
  | action (action : SearchAction)
  | complete
  | error (text : String)
  | panicked

def alreadyReserved : String := "A search action is already reserved"

def budgetExhausted : String := "Evaluation budget exhausted before the final comparison"

def noValidated : String := "No fully validated candidate"

def missingTrial : String := "Missing trial results"

/-- `Iterator::max_by`: the last of the greatest. -/
def maxBy {α : Type} (cmp : α → α → Ordering) : List α → Option α
  | [] => none
  | a :: as => some (as.foldl (fun x y => if cmp x y = .gt then x else y) a)

def xorshift (r : UInt64) : UInt64 :=
  let r := r ^^^ (r <<< 13)
  let r := r ^^^ (r >>> 7)
  r ^^^ (r <<< 17)

namespace Optimization

variable {F : Type} (ops : ScoreOps F) (suite : EvaluationSuite) (s : Optimization F)

def random : UInt64 × Optimization F := (xorshift s.rng, { s with rng := xorshift s.rng })

def exchange (s : Optimization F) (i : ℕ) : Optimization F :=
  let (r, s) := s.random
  { s with trainOrder := s.trainOrder.swapIfInBounds i (r.toNat % (i + 1)) }

def shuffle : Optimization F :=
  { (List.range' 1 (s.trainOrder.size - 1)).reverse.foldl exchange s with trainCursor := 0 }

/-- The latest observation of a candidate on a case. -/
def observation (candidate case : ℕ) : Option (Observation F) :=
  s.observations.reverse.find? fun o => o.candidate = candidate && o.case = case

variable (candidate : ℕ)

def scores (cases : List ℕ) : Option (List F) :=
  cases.mapM fun case => (s.observation candidate case).map (·.score)

def mean (cases : List ℕ) : Option F := (s.scores candidate cases).map ops.mean

/-- The candidate with scores on all validation cases is at least as good on each and better on
one, or equal and earlier. -/
def dominates (a b : ℕ × List F) : Bool :=
  a.1 ≠ b.1 && ((a.2.zip b.2).all fun p => ops.le p.2 p.1)
    && (((a.2.zip b.2).any fun p => ops.lt p.2 p.1)
      || ((a.2.length = b.2.length && (a.2.zip b.2).all fun p => ops.beq p.1 p.2) && a.1 < b.1))

def measured : List (ℕ × List F) :=
  (List.range s.candidates.length).filterMap fun i =>
    (s.scores i (suite.casesOf .validation)).map fun scores => (i, scores)

def frontier : List ℕ :=
  ((s.measured suite).filter fun b =>
    !((s.measured suite).any fun a => dominates ops a b)).map (·.1)

def refill : Optimization F := if s.trainCursor = s.trainOrder.size then s.shuffle else s

/-- The loop of `batch`; two passes over the training cases are enough. -/
def fillBatch : ℕ → List ℕ → Optimization F → List ℕ × Optimization F
  | 0, batch, s => (batch, s)
  | fuel + 1, batch, s =>
    if batch.length < s.config.minibatchSize then
      match s.refill.trainOrder[s.refill.trainCursor]? with
      | none => (batch, s.refill)
      | some case =>
        fillBatch fuel (if batch.contains case then batch else batch ++ [case])
          { s.refill with trainCursor := s.refill.trainCursor + 1 }
    else (batch, s)

def batch : List ℕ × Optimization F := fillBatch (2 * s.trainOrder.size) [] s

inductive Progress (F : Type) where
  | returned (reply : SearchReply) (s : Optimization F)
  | goes (s : Optimization F)

def reserve (candidate case : ℕ) : Progress F :=
  if s.metricCalls ≥ s.config.maxMetricCalls then .returned (.error budgetExhausted) s
  else match suite.cases[case]?, s.candidates[candidate]? with
    | some c, some individual =>
      let calls := c.environment.elim 1 (·.maxSteps) + c.check.modelCalls
        + individual.guidance.team.elim 0 (·.members.length)
      .returned (.action (.evaluate candidate case)) { s with
        metricCalls := s.metricCalls + 1
        modelCallsReserved := s.modelCallsReserved + calls
        pending := some (.evaluate candidate case) }
    | _, _ => .returned .panicked { s with metricCalls := s.metricCalls + 1 }

def drain : List (ℕ × ℕ) → Optimization F → Progress F
  | [], s => .goes { s with queue := [] }
  | (candidate, case) :: queue, s =>
    if s.config.cacheEvaluations && (s.observation candidate case).isSome then drain queue s
    else { s with queue }.reserve suite candidate case

/-- The search ends: a budget does not cover another round. -/
def exhausted : Bool :=
  let reserve := 2 * (suite.casesOf .test).length
  let roundCost := 3 * s.config.minibatchSize + (suite.casesOf .validation).length
  s.proposalCalls ≥ s.config.maxProposals || s.rounds ≥ 4 * s.config.maxProposals
    || s.metricCalls + roundCost + reserve > s.config.maxMetricCalls

/-- The first candidate with the best mean on the validation cases. -/
def best : Option ℕ :=
  (maxBy (fun a b : ℕ × F => (ops.cmp a.2 b.2).then (compare b.1 a.1))
    ((List.range s.candidates.length).filterMap fun i =>
      (s.mean ops i (suite.casesOf .validation)).map fun m => (i, m))).map (·.1)

def pairs (candidates cases : List ℕ) : List (ℕ × ℕ) :=
  candidates.flatMap fun candidate => cases.map fun case => (candidate, case)

def finish : Progress F :=
  match s.best ops suite with
  | none => .returned (.error noValidated) s
  | some winner => .goes { s with
      winner := some winner
      queue := pairs (0 :: if winner = 0 then [] else [winner]) (suite.casesOf .test)
      stage := .final }

def startRound (parents : List ℕ) : Progress F :=
  let (batch, s) := s.batch
  .goes { s with queue := pairs parents batch, stage := .reflect parents batch }

def mergeParent (frontier : List ℕ) (parent : ℕ) : Progress F :=
  let alternatives := frontier.filter (· ≠ parent)
  let (r, s) := s.random
  match alternatives[r.toNat % alternatives.length]? with
  | none => .returned .panicked s
  | some other => s.startRound [parent, other]

def newRound : Progress F :=
  let s := { s with rounds := s.rounds + 1 }
  let frontier := s.frontier ops suite
  let (r, s) := s.random
  match frontier[r.toNat % frontier.length]? with
  | none => .returned .panicked s
  | some parent =>
    if s.config.merge && s.rounds % 3 = 0 && 1 < frontier.length then
      s.mergeParent frontier parent
    else s.startRound [parent]

variable (parents batch : List ℕ)

def reflect : Progress F :=
  if parents.any fun p => (s.mean ops p batch).any fun m => ops.beq m ops.one then
    .goes { s with stage := .choose }
  else
    let component := if s.config.evolveTeam && s.proposalCalls % 2 = 1 then .team else .instruction
    .returned (.action (.propose parents batch component)) { s with
      proposalCalls := s.proposalCalls + 1
      modelCallsReserved := s.modelCallsReserved + 1
      pending := some (.propose parents batch component) }

def judgeTrial : Progress F :=
  match s.mean ops candidate batch with
  | none => .returned (.error missingTrial) s
  | some child =>
    let parent := (parents.filterMap fun p => s.mean ops p batch).foldl ops.max ops.zero
    if ops.lt parent child then .goes { s with
        queue := (suite.casesOf .validation).map fun case => (candidate, case)
        stage := .validate }
    else .goes { s with stage := .choose }

def advance : Progress F :=
  match s.stage with
  | .seeds | .validate => .goes { s with stage := .choose }
  | .choose => if s.exhausted suite then s.finish ops suite else s.newRound ops suite
  | .reflect parents batch => s.reflect ops parents batch
  | .trial candidate parents batch => s.judgeTrial ops suite candidate parents batch
  | .final => .goes { s with stage := .complete }
  | .complete => .returned .complete s

def loop : ℕ → Optimization F → Option (SearchReply × Optimization F)
  | 0, _ => none
  | fuel + 1, s =>
    match drain suite s.queue s with
    | .returned reply s => some (reply, s)
    | .goes s => match s.advance ops suite with
      | .returned reply s => some (reply, s)
      | .goes s => loop fuel s

/-- `next_action`; the fuel is enough, as no loop outlives the rounds. -/
def nextAction : Option (SearchReply × Optimization F) :=
  if s.pending.isSome then some (.error alreadyReserved, s)
  else loop ops suite (8 * s.config.maxProposals + 5) s

def completeScoredRollout (output preflight : String) (score : F)
    (assessment : Option JudgeResult) : Except String Unit × Optimization F :=
  match s.pending with
  | some (.evaluate candidate case) =>
    if output.utf8ByteSize > 16000 || preflight.utf8ByteSize > 16000 || !ops.inRange score then
      (.error "Evaluation output exceeds its limit", s)
    else (.ok (), { s with
      observations := s.observations ++ [⟨candidate, case, score, output, preflight, assessment⟩]
      pending := none })
  | _ => (.error "No evaluation is reserved", s)

structure ProposalExample (F : Type) where
  input : String
  check : OutputCheck
  observed : Option (Observation F)

structure ProposalParent (F : Type) where
  guidance : EvaluationCandidate
  examples : List (ProposalExample F)

structure ProposalInput (F : Type) where
  component : Component
  maxAgents : ℕ
  operation : String
  parents : List (ProposalParent F)

/-- `none` is a panic. -/
def proposalParent (batch : List ℕ) (parent : ℕ) : Option (ProposalParent F) := do
  let individual ← s.candidates[parent]?
  let examples ← batch.mapM fun i => do
    let case ← suite.cases[i]?
    return ⟨case.input, case.check, s.observation parent i⟩
  return ⟨individual.guidance, examples⟩

def proposalInput : Option (Except String (ProposalInput F)) :=
  match s.pending with
  | some (.propose parents batch component) => do
    let cases ← batch.mapM fun i => suite.cases[i]?
    if cases.any (·.split ≠ .train) then
      return .error "Reflection accepts training evidence only"
    else
      let parents ← parents.mapM (s.proposalParent suite batch)
      return .ok ⟨component, s.config.maxAgents,
        if parents.length = 2 then "merge" else "reflect", parents⟩
  | _ => some (.error "No proposal is reserved")

/-- The guidance with a proposed component; `parseTeam` is `serde_json::from_str` of a team or
null. -/
def proposedGuidance (parseTeam : String → Option (Option Team)) (guidance : EvaluationCandidate)
    (component : Component) (text : String) : Except String EvaluationCandidate :=
  match component with
  | .instruction => .ok { guidance with revisionId := none, instruction := text }
  | .team =>
    match parseTeam text with
    | none => .error "Proposed team must be a team object or null"
    | some team => do
      match team with
      | some team => team.validate s.config.maxAgents
      | none => .ok ()
      .ok { guidance with revisionId := none, team := team.filter fun t => !t.members.isEmpty }

def proposalLimit : Component → ℕ
  | .instruction => 12000
  | .team => 16000

/-- A candidate is new, or the round ends. -/
def addProposal (guidance : EvaluationCandidate) : Optimization F :=
  if s.candidates.any fun c =>
      c.guidance.instruction = guidance.instruction && c.guidance.team = guidance.team then
    { s with pending := none, stage := .choose }
  else { s with
    pending := none
    candidates := s.candidates
      ++ [⟨guidance, parents, if parents.length = 2 then "merge" else "reflection"⟩]
    queue := batch.map fun case => (s.candidates.length, case)
    stage := .trial s.candidates.length parents batch }

/-- `none` is a panic. -/
def completeProposal (parseTeam : String → Option (Option Team)) (text : String) :
    Option (Except String Unit × Optimization F) :=
  match s.pending with
  | some (.propose parents batch component) =>
    if trim text = "" || text.utf8ByteSize > proposalLimit component then
      some (.error "Proposed component is empty or exceeds its limit", s)
    else do
      let parent ← parents.head?
      let individual ← s.candidates[parent]?
      match s.proposedGuidance parseTeam individual.guidance component text with
      | .error e => return (.error e, s)
      | .ok guidance => return (.ok (), s.addProposal parents batch guidance)
  | _ => some (.error "No proposal is reserved", s)

def new (prims : EvalPrims) (config : OptimizationConfig)
    (seeds : List EvaluationCandidate) : Except String (Optimization F) := do
  suite.validate prims
  if !(1 ≤ config.maxAgents && config.maxAgents ≤ 4) then
    .error "Maximum total agents must be between 1 and 4"
  else
    seeds.forM fun seed => match seed.team with
      | some team => team.validate config.maxAgents
      | none => .ok ()
    let train := suite.casesOf .train
    let validation := suite.casesOf .validation
    let test := suite.casesOf .test
    if seeds.length ≠ 2 || !(1 ≤ config.maxProposals && config.maxProposals ≤ 32)
        || !(1 ≤ config.minibatchSize && config.minibatchSize ≤ train.length)
        || config.maxMetricCalls < 2 * (validation.length + test.length)
        || config.maxMetricCalls > 512 then
      .error ("Provide two seeds and bounded search budgets covering validation and final test "
        ++ "comparisons")
    else
      let state : Optimization F := {
        config
        candidates := seeds.map fun guidance => ⟨guidance, [], "seed"⟩
        queue := pairs (List.range seeds.length) validation
        rng := if config.seed = 0 then 1 else config.seed
        trainOrder := train.toArray }
      .ok state.shuffle

def applicationScores : Option (F × F × F × F) :=
  if s.stage ≠ .complete || s.pending.isSome then none
  else do
    let winner ← s.winner
    let validation := suite.casesOf .validation
    let test := suite.casesOf .test
    return (← s.mean ops 0 validation, ← s.mean ops winner validation, ← s.mean ops 0 test,
      ← s.mean ops winner test)

def canApply : Bool :=
  (s.applicationScores ops suite).any fun (baseValidation, winnerValidation, baseTest,
    winnerTest) => ops.lt baseValidation winnerValidation && ops.le baseTest winnerTest

end Optimization

inductive SearchCall (F : Type) where
  | next
  | scored (output preflight : String) (score : F) (assessment : Option JudgeResult)
  | proposed (text : String)

namespace Optimization

variable {F : Type} (ops : ScoreOps F) (suite : EvaluationSuite)
  (parseTeam : String → Option (Option Team))

/-- A call of the search; a failed one may leave it as it is.  `none` is a panic. -/
def call (s : Optimization F) : SearchCall F → Option (Optimization F)
  | .next => (s.nextAction ops suite).map (·.2)
  | .scored output preflight score assessment =>
    some (s.completeScoredRollout ops output preflight score assessment).2
  | .proposed text => (s.completeProposal parseTeam text).map (·.2)

abbrev Runs : Optimization F → Optimization F → Prop := Relational.Steps (call ops suite parseTeam)

/-- One where an evaluation is pending. -/
def evaluating (s : Optimization F) : ℕ :=
  match s.pending with
  | some (.evaluate ..) => 1
  | _ => 0

end Optimization

end Choruz
