import Mathlib.Algebra.GroupWithZero.Nat
import Choruz.RemoteOutbox
import Choruz.RuntimeHost

/-!
# Evaluation suites

Fixed tasks with their checks, the trace cases they are drawn from, and the teams that solve them,
with the limits each is held to.
-/

namespace Choruz

inductive OutputCheck where
  | exact (expected : String)
  | json (expected : Json)
  | judge (expected rubric : String)
deriving DecidableEq

namespace OutputCheck

def validate : OutputCheck → Except String Unit
  | judge expected rubric =>
    if trim expected = "" || expected.utf8ByteSize > 8000 || trim rubric = ""
        || rubric.utf8ByteSize > 4000 then
      .error "Judge requires a reference result and bounded acceptance criteria"
    else .ok ()
  | _ => .ok ()

def modelCalls : OutputCheck → ℕ
  | judge .. => 1
  | _ => 0

end OutputCheck

inductive JudgeVerdict where
  | pass | fail | inconclusive

structure JudgeResult where
  verdict : JudgeVerdict
  reason : String

inductive TeamOrder where
  | serial | parallel
deriving DecidableEq

structure TeamMember where
  (name prompt : String)
deriving DecidableEq

structure Team where
  order : TeamOrder
  members : List TeamMember
deriving DecidableEq

namespace Team

/-- `is_ascii_alphanumeric`, a hyphen or an underscore. -/
def isNameChar (c : Char) : Bool := c.isAlphanum || c = '-' || c = '_'

def validateMembers (names : List String) : List TeamMember → Except String Unit
  | [] => .ok ()
  | member :: members =>
    if member.name = "" || member.name.utf8ByteSize > 40 || !member.name.toList.all isNameChar
        || names.contains member.name || trim member.prompt = ""
        || member.prompt.utf8ByteSize > 4000 then
      .error "Team members require unique simple names and prompts within 4000 bytes"
    else validateMembers (member.name :: names) members

def validate (team : Team) (maxAgents : ℕ) : Except String Unit :=
  if !(1 ≤ maxAgents && maxAgents ≤ 4) || team.members.length + 1 > maxAgents then
    .error "Execution team exceeds the total-agent limit"
  else validateMembers [] team.members

end Team

structure EvaluationCandidate where
  revisionId : Option String := none
  instruction : String
  team : Option Team := none

structure ReplayEnvironment where
  image : String
  files : List (String × String)
  verification : List String
  maxSteps : ℕ

namespace ReplayEnvironment

def isDigest (digest : List Char) : Bool :=
  digest.length = 64 && digest.all fun c => c.isDigit || ('a' ≤ c && c ≤ 'f')

def isFile (file : String × String) : Bool :=
  file.1 ≠ "" && file.1.utf8ByteSize ≤ 240
    && ((splitBy '/' file.1).all fun part => part ≠ "" && part ≠ "." && part ≠ "..")
    && (file.1.toList.all fun c => c ≠ '\\' && c ≠ '\x00' && c ≠ ':')
    && file.2.utf8ByteSize ≤ 64000

def isCommand (command : String) : Bool :=
  trim command ≠ "" && command.utf8ByteSize ≤ 4000 && !command.toList.contains '\x00'

def validate (e : ReplayEnvironment) : Except String Unit :=
  let digest := if "sha256:".toList.isPrefixOf e.image.toList then e.image.toList.drop 7 else []
  if isDigest digest && (1 ≤ e.maxSteps && e.maxSteps ≤ 8) && e.files.length ≤ 64
      && e.files.all isFile && (e.files.map (·.2.utf8ByteSize)).sum ≤ 256000
      && (1 ≤ e.verification.length && e.verification.length ≤ 8)
      && e.verification.all isCommand then .ok ()
  else .error ("Replay requires a pinned image, bounded relative files, fixed checks and 1 to 8 "
    ++ "steps")

end ReplayEnvironment

structure CaseClassification where
  (taskType capability structure_ outcome : String)
  relatedRefs : List String
deriving DecidableEq

def isReference (r : String) : Bool := r ≠ "" && r.utf8ByteSize ≤ 256

def CaseClassification.validate (c : CaseClassification) : Except String Unit :=
  if ["coding", "math", "research", "writing", "data", "operations", "other"].contains c.taskType
      && ["reasoning", "debugging", "planning", "extraction", "instruction_following",
        "verification", "other"].contains c.capability
      && ["single_step", "multi_step"].contains c.structure_
      && ["direct", "retried", "incomplete", "disputed"].contains c.outcome
      && c.relatedRefs.length ≤ 64 && c.relatedRefs.all isReference then .ok ()
  else .error ("Case classification must use the fixed vocabulary and bounded objective "
    ++ "references")

structure TraceCase where
  variant : Option String := none
  groupRef : Option String := none
  classification : Option CaseClassification := none
  episodeRef : String
  evidence : List String
  input : String
  check : Option OutputCheck
  reason : String
deriving DecidableEq

/-- `serde_json::to_string` of a check, or of none. -/
structure EvalPrims where
  serializeCheck : Option OutputCheck → String

def TraceCase.validate (prims : EvalPrims) (c : TraceCase) : Except String Unit := do
  match c.check with
  | some check => check.validate
  | none => .ok ()
  match c.classification with
  | some classification => classification.validate
  | none => .ok ()
  if isReference c.episodeRef && (c.variant.all fun v => trim v ≠ "" && v.utf8ByteSize ≤ 16000)
      && c.groupRef.all isReference && c.evidence ≠ [] && c.evidence.length ≤ 20
      && c.evidence.all isReference && c.input.utf8ByteSize ≤ 16000 && trim c.reason ≠ ""
      && c.reason.utf8ByteSize ≤ 2000 && !(c.check.isSome && trim c.input = "")
      && (prims.serializeCheck c.check).utf8ByteSize ≤ 16000 then .ok ()
  else .error "Trace case requires bounded source references and an answer rationale"

inductive EvaluationSplit where
  | train | validation | test
deriving DecidableEq

structure EvaluationCase where
  environment : Option ReplayEnvironment := none
  source : Option TraceCase := none
  id : String
  split : EvaluationSplit
  input : String
  check : OutputCheck

structure EvaluationSuite where
  name : String
  cases : List EvaluationCase

namespace EvaluationCase

def matchesSource (c : EvaluationCase) (source : TraceCase) : Bool :=
  (source.input = c.input || (c.split = .train && source.variant = some c.input))
    && source.check = some c.check

def validate (prims : EvalPrims) (c : EvaluationCase) : Except String Unit := do
  c.check.validate
  match c.environment with
  | some environment => environment.validate
  | none => .ok ()
  match c.source with
  | some source =>
    source.validate prims
    if c.matchesSource source then .ok ()
    else .error "Trace provenance must match the evaluated input and answer"
  | none => .ok ()

end EvaluationCase

namespace EvaluationSuite

/-- The checks of the cases; `ids` and `inputs` are those before. -/
def validateCases (prims : EvalPrims) (ids inputs : List String) :
    List EvaluationCase → Except String Unit
  | [] => .ok ()
  | c :: cases => do
    c.validate prims
    if c.id = "" || c.id.utf8ByteSize > 80 || ids.contains c.id || trim c.input = ""
        || c.input.utf8ByteSize > 16000 || inputs.contains (trim c.input)
        || (prims.serializeCheck (some c.check)).utf8ByteSize > 16000 then
      .error "Evaluation cases require distinct identifiers and inputs within the size limits"
    else validateCases prims (c.id :: ids) (trim c.input :: inputs) cases

def validate (prims : EvalPrims) (suite : EvaluationSuite) : Except String Unit := do
  if trim suite.name = "" || suite.name.utf8ByteSize > 120
      || !(3 ≤ suite.cases.length && suite.cases.length ≤ 64) then
    .error "An evaluation requires a name and 3 to 64 cases"
  else
    validateCases prims [] [] suite.cases
    if [EvaluationSplit.train, .validation, .test].all fun split =>
        suite.cases.any (·.split = split) then .ok ()
    else .error "Provide separate training, validation and test cases"

def casesOf (suite : EvaluationSuite) (split : EvaluationSplit) : List ℕ :=
  (suite.cases.zipIdx.filter (·.1.split = split)).map (·.2)

end EvaluationSuite

end Choruz
