import Choruz.Steps
import Choruz.Text

/-!
# Command files of an agent's outbox

A pass takes each of its files by a rename, reads it, carries out the command and removes the file.
Any number of passes run side by side, and each may be cut off everywhere.  A file that was taken
a minute ago may be taken again.
-/

namespace Choruz

open Relational Function

/-- The claim of a file: its name has the claim's token appended, after those of earlier claims. -/
structure FileClaim where
  (base token : String)
  earlier : List String
deriving DecidableEq

def FileClaim.tokens (c : FileClaim) : List String := c.token :: c.earlier

structure CommandFile where
  /-- The tokens in its name, latest first: with none it is a `.json` file, else `.processing`. -/
  tokens : List String := []
  text : String
  /-- In seconds. -/
  modified : ℕ

def processingStaleAfter : ℕ := 60

/-- What the pass that has the claim is about to do. -/
inductive ClaimStage where
  | reading
  | running (text : String)
  | removing
deriving DecidableEq

structure SpoolWorld where
  /-- The files of `new`, by the name that the agent gave them. -/
  files : String → Option CommandFile := fun _ => none
  written : List String := []
  /-- The claims that a pass has. -/
  stage : FileClaim → Option ClaimStage := fun _ => none
  /-- The files whose command took effect, each time it did. -/
  effects : List String := []
  now : ℕ := 0

inductive SpoolAction where
  | write (base text : String)
  | claim (c : FileClaim)
  | refresh (c : FileClaim)
  | read (c : FileClaim) (ok : Bool)
  | execute (c : FileClaim) (effect : Bool)
  | remove (c : FileClaim) (ok : Bool)
  | crash (c : FileClaim)
  | wait (seconds : ℕ)

namespace SpoolWorld

variable (w : SpoolWorld)

def file? (base : String) (tokens : List String) : Option CommandFile :=
  (w.files base).filter (·.tokens = tokens)

/-- The file that `claim_outbox_file` can rename. -/
def claimable? (base : String) (tokens : List String) : Option CommandFile :=
  (w.file? base tokens).filter fun f => tokens = [] || f.modified + processingStaleAfter ≤ w.now

/-- One operation of a pass.  A rename that fails changes nothing, and a task command that is
`keyed` with an idempotency key is not applied twice. -/
def step (keyed : String → Bool) : SpoolAction → Option SpoolWorld
  | .write base text =>
    if base ∈ w.written then none
    else some { w with
      files := update w.files base (some { text, modified := w.now })
      written := base :: w.written }
  | .claim c => (w.claimable? c.base c.earlier).map fun f => { w with
      files := update w.files c.base (some { f with tokens := c.tokens })
      stage := update w.stage c (some .reading) }
  | .refresh c =>
    if w.stage c ≠ some .reading then none
    else (w.file? c.base c.tokens).map fun f =>
      { w with files := update w.files c.base (some { f with modified := w.now }) }
  | .read c ok =>
    if w.stage c ≠ some .reading then none
    else match (w.file? c.base c.tokens).filter fun f =>
        ok && trim f.text ≠ "" with
      | none => some { w with stage := update w.stage c (some .removing) }
      | some f => some { w with stage := update w.stage c (some (.running f.text)) }
  | .execute c effect =>
    match w.stage c with
    | some (.running text) => some { w with
      effects := if effect && !(keyed text && w.effects.contains c.base) then c.base :: w.effects
        else w.effects
      stage := update w.stage c (some .removing) }
    | _ => none
  | .remove c ok =>
    if w.stage c ≠ some .removing then none
    else some { w with
      files := if ok && (w.file? c.base c.tokens).isSome then update w.files c.base none else w.files
      stage := update w.stage c none }
  | .crash c => some { w with stage := update w.stage c none }
  | .wait seconds => some { w with now := w.now + seconds }

/-- A claim is taken over only from a pass that is gone or has not read the file, and whose command
has not taken effect. -/
def sparesClaims : SpoolAction → Bool
  | .claim ⟨base, _, token :: earlier⟩ => base ∉ w.effects && match w.stage ⟨base, token, earlier⟩ with
    | some (.running _) => false
    | _ => true
  | _ => true

end SpoolWorld

end Choruz
