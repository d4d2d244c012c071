import Choruz.Components
import Choruz.Evaluation

/-!
# Dataset curation

Reviewed cases are linked into objectives, and an objective is evaluated in one partition: the
lowest that one of its references falls into.  `curateChanges` stores with every case the anchor of
its objective, so that the partition survives the members that age out.  What later analyses work
on is read back from the newest revisions, as far as the bounds on number and size allow.
-/

namespace Choruz

/-- SHA-256 of texts, and `serde_json` as `conflicting`, `corpus_version` and `read_trace_cases` use
it. -/
structure DatasetPrims extends EvalPrims where
  firstByte : String → ℕ
  hexDigest : String → String
  checkJson : Option OutputCheck → String
  corpusJson : List TraceCase → String
  caseSize : TraceCase → ℕ

def DatasetPrims.refBucket (prims : DatasetPrims) (r : String) : ℕ := prims.firstByte r % 3

/-- `BTreeMap::insert`, on the values in the order of their keys. -/
def insertCase (c : TraceCase) (m : List TraceCase) : List TraceCase :=
  (m.filter (·.episodeRef ≠ c.episodeRef)).orderedInsert (·.episodeRef ≤ ·.episodeRef) c

def byEpisode (cases : List TraceCase) : List TraceCase :=
  cases.foldl (fun m c => insertCase c m) []

def findCase (cases : List TraceCase) (episode : String) : Option TraceCase :=
  cases.find? (·.episodeRef = episode)

def normalized (s : String) : List Char := [' '].intercalate (splitWhitespace s)

namespace TraceCase

def relatedRefs (c : TraceCase) : List String :=
  match c.classification with
  | some classification => classification.relatedRefs
  | none => []

variable (a b : TraceCase)

def sameGroupRef : Bool :=
  match a.groupRef, b.groupRef with
  | some r, some r' => r = r'
  | _, _ => false

def linked : Bool :=
  (trim a.input ≠ "" && normalized a.input = normalized b.input)
    || a.evidence.any b.evidence.contains
    || a.relatedRefs.contains b.episodeRef
    || b.relatedRefs.contains a.episodeRef
    || a.relatedRefs.any b.relatedRefs.contains

def related : Bool := a.sameGroupRef b || a.linked b

def anchorRefs (c : TraceCase) : List String := c.episodeRef :: c.groupRef.toList

def refs (c : TraceCase) : List String := c.anchorRefs ++ c.relatedRefs

end TraceCase

def sortCases (cases : List TraceCase) : List TraceCase :=
  cases.insertionSort (·.episodeRef ≤ ·.episodeRef)

def caseGroups (cases : List TraceCase) : List (List TraceCase) :=
  Components.components TraceCase.related sortCases (byEpisode cases)

section

variable (prims : DatasetPrims) (group : List TraceCase)

def groupBucket : ℕ :=
  ((group.flatMap (·.refs)).map prims.refBucket).min?.getD 0

def conflicting : Bool :=
  1 < (group.map fun c => prims.checkJson c.check).dedup.length

def lowest : List String → Option String
  | [] => none
  | r :: rs =>
    match lowest rs with
    | none => some r
    | some r' =>
      if prims.refBucket r' < prims.refBucket r
          || (prims.refBucket r' = prims.refBucket r && r' < r) then some r' else some r

variable (previous changes : List TraceCase)

/-- The corpus with the changes in it; a change keeps the anchor that is stored. -/
def applyChanges : List TraceCase :=
  changes.foldl (fun current c =>
    insertCase { c with groupRef := (findCase current c.episodeRef).bind (·.groupRef) } current)
    (byEpisode previous)

def anchored : List TraceCase :=
  group.map fun c => { c with groupRef := lowest prims (group.flatMap (·.anchorRefs)) }

def isNews (c : TraceCase) : Bool :=
  (changes.any (·.episodeRef = c.episodeRef))
    || (match findCase previous c.episodeRef with
      | some old => old ≠ c
      | none => true)

def curateChanges : List TraceCase :=
  (caseGroups (applyChanges previous changes)).flatMap fun group =>
    (anchored prims group).filter (isNews previous changes)

structure Sample where
  (category stratum : String)
  bucket : ℕ
  case : TraceCase

def EvaluationSplit.ofBucket : ℕ → EvaluationSplit
  | 0 => .train
  | 1 => .validation
  | _ => .test

def sample (difficulty : String → Option String) (group : List TraceCase) : Option Sample :=
  if conflicting prims group then none
  else
    match group.find? fun c => c.check.isSome && (c.validate prims.toEvalPrims).isOk with
    | none => none
    | some c =>
      let bucket := groupBucket prims group
      some {
        category := match c.classification with
          | some k => k.taskType ++ "/" ++ k.capability ++ "/" ++ k.structure_
          | none => "unclassified"
        stratum := if bucket = 0 then (difficulty c.episodeRef).getD "insufficient" else "held_out"
        bucket
        case := c }

def Sample.key (s : Sample) : String × String := (s.category, s.stratum)

def categories (samples : List Sample) : List (List Sample) :=
  ((samples.map Sample.key).dedup.insertionSort
    fun a b => a.1 < b.1 ∨ a.1 = b.1 ∧ a.2 ≤ b.2).map fun key => samples.filter (·.key = key)

def ordered (groups : List (List Sample)) : List Sample :=
  (List.range ((groups.map List.length).max?.getD 0)).flatMap fun index =>
    groups.filterMap (·[index]?)

/-- Samples until their bucket is full; `taken` are the buckets of those before. -/
def draw (perSplit : ℕ) (taken : List ℕ) : List Sample → List Sample
  | [] => []
  | s :: samples =>
    if taken.count s.bucket ≥ perSplit then draw perSplit taken samples
    else s :: draw perSplit (s.bucket :: taken) samples

def Sample.toCase (s : Sample) : Option EvaluationCase :=
  s.case.check.map fun check => {
    source := some s.case
    id := prims.hexDigest s.case.episodeRef
    split := .ofBucket s.bucket
    input := if s.bucket = 0 then s.case.variant.getD s.case.input else s.case.input
    check }

variable (cases : List TraceCase)

def corpusVersion : String :=
  prims.hexDigest (prims.corpusJson (byEpisode cases))

def observedName : String :=
  "Observed objectives " ++ corpusVersion prims cases

variable (budget : ℕ) (difficulty : String → Option String)

def drawnSamples : List Sample :=
  let samples := (caseGroups cases).filterMap (sample prims difficulty)
  draw (max 1 (min (budget / 4) 16)) [] (ordered (categories samples))

def measuredTraceSuite : Option EvaluationSuite := do
  let suite : EvaluationSuite := {
    name := observedName prims cases
    cases := ← (drawnSamples prims cases budget difficulty).mapM (Sample.toCase prims) }
  if (suite.validate prims.toEvalPrims).isOk then some suite else none

end

/-- The objective of an episode, which is what the fingerprint of its context is taken of. -/
def contextOf (cases : List TraceCase) (episode : String) : Option (List TraceCase) :=
  (caseGroups cases).find? (·.any (·.episodeRef = episode))

def changedCaseContexts (previous current : List TraceCase) : List String :=
  (((previous ++ current).map (·.episodeRef)).dedup.insertionSort (· ≤ ·)).filter fun episode =>
    contextOf previous episode ≠ contextOf current episode

/-- The cases of the revisions that have some, the newest revision first. -/
abbrev CaseHistory := List (List TraceCase)

structure Reading where
  seen : List String := []
  latest : List TraceCase := []
  bytes : ℕ := 0

variable (prims : DatasetPrims)

def readCase (r : Reading) (c : TraceCase) : Reading :=
  if r.seen.contains c.episodeRef then r
  else
    let size := prims.caseSize c
    if r.latest.length ≥ 64 || r.bytes + size > 48 * 1024 then
      { r with seen := c.episodeRef :: r.seen }
    else
      { seen := c.episodeRef :: r.seen
        latest := insertCase c r.latest
        bytes := r.bytes + size }

variable (history : CaseHistory)

def readTraceCases : List TraceCase :=
  ((history.take 100).flatten.foldl (readCase prims) {}).latest

variable (episode : String)

/-- The newest version of an episode in all revisions, read or not. -/
def latestOf : Option TraceCase :=
  findCase history.flatten episode

/-- A revision without cases is not read. -/
def pushCases (row : List TraceCase) (history : CaseHistory) : CaseHistory :=
  if row.isEmpty then history else row :: history

def curate (changes : List TraceCase) : Option CaseHistory :=
  some (pushCases (curateChanges prims (readTraceCases prims history) changes) history)

def Exposed : Prop :=
  ∃ group ∈ caseGroups (readTraceCases prims history),
    (∃ c ∈ group, c.episodeRef = episode) ∧ groupBucket prims group = 0

/-- Some suite has a case of the episode's objective for validation or test. -/
def HeldOut : Prop :=
  ∃ budget difficulty suite,
    measuredTraceSuite prims (readTraceCases prims history) budget difficulty = some suite
      ∧ ∃ k ∈ suite.cases, k.split ≠ .train ∧ ∃ source, k.source = some source
        ∧ ∃ group ∈ caseGroups (readTraceCases prims history), source ∈ group
          ∧ ∃ c ∈ group, c.episodeRef = episode

def episodes (cases : List TraceCase) : List String := cases.map (·.episodeRef)

/-- The changes name no training reference outside the corpus and change no training episode
outside it, and no episode comes back unchanged. -/
def KeepsAnchors (changes : List TraceCase) : Prop :=
  let corpus := readTraceCases prims history
  (∀ c ∈ changes, ∀ r ∈ c.relatedRefs, prims.refBucket r = 0 →
      r ∈ episodes corpus ∨ r ∈ episodes changes)
    ∧ (∀ c ∈ changes, c.episodeRef ∉ episodes corpus →
      ((latestOf history c.episodeRef).bind (·.groupRef)).all (prims.refBucket · ≠ 0))
    ∧ (∀ c ∈ readTraceCases prims (pushCases (curateChanges prims corpus changes) history),
      c.episodeRef ∈ episodes corpus ∨ c.episodeRef ∈ episodes changes)

instance (history : CaseHistory) (changes : List TraceCase) :
    Decidable (KeepsAnchors prims history changes) :=
  inferInstanceAs (Decidable (_ ∧ _ ∧ _))

end Choruz
