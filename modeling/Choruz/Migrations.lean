import Choruz.Steps
import Choruz.Table
import Choruz.Text

/-!
# Applying migrations

`scan_sql` of the supervisor cuts the text at the semicolons outside of quotes, comments and dollar
quotes, and keeps a copy with literals and comments blanked.  Every byte it tells apart is ASCII,
and another character is as many blanks as it has bytes.  `apply_migrations` and
`execute_migration` take one database call a step.  A file without `CONCURRENTLY` is executed as
one batch and recorded in `_migrations`; the statements of any other file are executed one by one,
each recorded in `_migration_statement_progress`.  A call may fail or lose its answer, and the
process may die at any point and be started again.
-/

namespace Choruz

open Relational

inductive SqlState where
  | normal | singleQuote | doubleQuote | lineComment
  | blockComment (depth : ℕ)
  | dollarQuote (delimiter : List Char)

/-- The text since `statement_start` and its blanked copy, the statements found so far, and the
blanked copy of everything; `skip` counts the characters of a token that are still to pass. -/
structure SqlCursor where
  state : SqlState := .normal
  skip : ℕ := 0
  statement : List Char := []
  statementCode : List Char := []
  statements : List String := []
  code : List Char := []

def blanks (c : Char) : List Char := List.replicate c.utf8Size ' '

/-- `$tag$` at the start of the input. -/
def dollarQuoteDelimiter : List Char → Option (List Char)
  | [] => none
  | _ :: input =>
    let tag := input.takeWhile (· ≠ '$')
    if '$' ∈ input ∧ tag.all fun c => c = '_' || c.isAlphanum then some ('$' :: tag ++ ['$'])
    else none

namespace SqlCursor

variable (cur : SqlCursor)

def pass (c : Char) (code : List Char) : SqlCursor :=
  { cur with
    statement := cur.statement ++ [c]
    statementCode := cur.statementCode ++ code
    code := cur.code ++ code }

def enter (state : SqlState) (skip : ℕ := 0) : SqlCursor :=
  { cur with state, skip }

/-- Keeps the text since the last terminator, unless it is nothing but literals and comments. -/
def pushStatement : SqlCursor :=
  if trimChars cur.statementCode = [] then cur
  else { cur with statements := cur.statements ++ [String.ofList (trimChars cur.statement)] }

/-- A quote character inside its own quotes: doubled it is part of the text. -/
def quote (c : Char) (rest : List Char) : SqlCursor :=
  if rest.head? = some c then { cur.pass c [' '] with skip := 1 }
  else (cur.pass c [' ']).enter .normal

def step (c : Char) (rest : List Char) : SqlCursor :=
  if 0 < cur.skip then { cur.pass c [' '] with skip := cur.skip - 1 }
  else match cur.state with
  | .normal =>
    if c = '\'' then (cur.pass c [' ']).enter .singleQuote
    else if c = '"' then (cur.pass c [' ']).enter .doubleQuote
    else if c = '-' ∧ rest.head? = some '-' then (cur.pass c [' ']).enter .lineComment 1
    else if c = '/' ∧ rest.head? = some '*' then (cur.pass c [' ']).enter (.blockComment 1) 1
    else if c = '$' then
      match dollarQuoteDelimiter (c :: rest) with
      | some delimiter =>
        (cur.pass c [' ']).enter (.dollarQuote delimiter) (delimiter.length - 1)
      | none => cur.pass c [c]
    else if c = ';' then
      -- the terminator itself is in neither statement
      { cur.pushStatement with
        statement := []
        statementCode := []
        code := cur.code ++ [' '] }
    else cur.pass c (if c.toNat < 128 then [c] else blanks c)
  | .singleQuote => if c = '\'' then cur.quote c rest else cur.pass c (blanks c)
  | .doubleQuote => if c = '"' then cur.quote c rest else cur.pass c (blanks c)
  | .lineComment =>
    if c = '\n' then (cur.pass c [' ']).enter .normal else cur.pass c (blanks c)
  | .blockComment depth =>
    if c = '/' ∧ rest.head? = some '*' then (cur.pass c [' ']).enter (.blockComment (depth + 1)) 1
    else if c = '*' ∧ rest.head? = some '/' then
      (cur.pass c [' ']).enter (if depth = 1 then .normal else .blockComment (depth - 1)) 1
    else cur.pass c (blanks c)
  | .dollarQuote delimiter =>
    if delimiter.isPrefixOf (c :: rest) then
      (cur.pass c [' ']).enter .normal (delimiter.length - 1)
    else cur.pass c (blanks c)

def scan (cur : SqlCursor) : List Char → SqlCursor
  | [] => cur.pushStatement
  | c :: rest => (cur.step c rest).scan rest

end SqlCursor

def scanSql (sql : String) : SqlCursor := SqlCursor.scan {} sql.toList

def sqlStatements (sql : String) : List String := (scanSql sql).statements

def containsConcurrently (sql : String) : Bool :=
  ((scanSql sql).code.splitOnP fun c => !c.isAlpha).any fun word =>
    word.map Char.toLower = "concurrently".toList

structure MigrationFile where
  (filename sql : String)
deriving DecidableEq

abbrev MigrationDir := Table MigrationFile.filename

/-- `path.extension() == Some("sql")`. -/
def hasSqlExtension (filename : String) : Bool :=
  let (extension, rest) := filename.toList.reverse.span (· ≠ '.')
  extension = "sql".toList.reverse && 1 < rest.length

def MigrationDir.entries (dir : MigrationDir) : List MigrationFile :=
  (dir.rows.filter fun f => hasSqlExtension f.filename).insertionSort
    fun a b => a.filename ≤ b.filename

structure Executed where
  filename : String
  index : ℕ
  statement : String

def Executed.key (e : Executed) : String × ℕ := (e.filename, e.index)

namespace MigrationFile

variable (file : MigrationFile)

def stepwise : Bool := containsConcurrently file.sql

def statements : List String := sqlStatements file.sql

def executions : List Executed :=
  file.statements.zipIdx.map fun s => ⟨file.filename, s.2, s.1⟩

end MigrationFile

/-- The tables `_migrations` and `_migration_statement_progress`, and the statements that have
succeeded, in order. -/
structure MigrationDb where
  applied : Table (fun filename : String => filename) := Table.empty
  progress : Table (fun row : String × ℕ => row) := Table.empty
  log : List Executed := []

/-- Where `apply_migrations` stands: the call it makes next. -/
inductive MigrationStage where
  | check (file : MigrationFile) (rest : List MigrationFile)
  | batch (file : MigrationFile) (rest : List MigrationFile)
  | progress (file : MigrationFile) (index : ℕ) (rest : List MigrationFile)
  | statement (file : MigrationFile) (index : ℕ) (rest : List MigrationFile)
  | record (file : MigrationFile) (index : ℕ) (rest : List MigrationFile)
  | track (file : MigrationFile) (rest : List MigrationFile)
  | returned (result : Except String Unit)
deriving DecidableEq

/-- How a call ends: it is answered, it fails without effect, or it takes effect and its answer is
lost. -/
inductive CallOutcome where
  | answered
  | failed (error : String)
  | lost (error : String)

namespace MigrationStage

def next : List MigrationFile → MigrationStage
  | [] => .returned (.ok ())
  | file :: rest => .check file rest

def nextStatement (file : MigrationFile) (index : ℕ) (rest : List MigrationFile) : MigrationStage :=
  if index < file.statements.length then .progress file index rest else .track file rest

def fail (what : String) (file : MigrationFile) (error : String) : MigrationStage :=
  .returned (.error (what ++ " " ++ file.filename ++ ": " ++ error))

end MigrationStage

/-- A call with its effect on the database: `none` where the database refuses it. -/
def callMigration (db : MigrationDb) (effect : Option MigrationDb) (outcome : CallOutcome)
    (continue_ : MigrationStage) (fail : String → MigrationStage) :
    MigrationDb × MigrationStage :=
  match outcome, effect with
  | .answered, some db => (db, continue_)
  | .answered, none => (db, fail "duplicate key value violates unique constraint")
  | .failed error, _ => (db, fail error)
  | .lost error, effect => (effect.getD db, fail error)

namespace MigrationDb

variable (db : MigrationDb) (file : MigrationFile)

def executeBatch : MigrationDb :=
  { db with log := db.log ++ file.executions }

def executeStatement (index : ℕ) : MigrationDb :=
  { db with
    log := db.log ++ (file.executions[index]?).toList }

def insertProgress (index : ℕ) : Option MigrationDb :=
  (db.progress.insert? (file.filename, index)).map fun progress => { db with progress }

def insertApplied : Option MigrationDb :=
  (db.applied.insert? file.filename).map fun applied => { db with applied }

def perform (outcome : CallOutcome) : MigrationStage → Option (MigrationDb × MigrationStage)
  | .check file rest =>
    some (callMigration db (some db) outcome
      (if (db.applied.lookup file.filename).isSome then .next rest
        else if file.stepwise then .nextStatement file 0 rest
        else .batch file rest)
      (.fail "check" file))
  | .batch file rest =>
    some (callMigration db (some (db.executeBatch file)) outcome (.track file rest)
      (.fail "apply" file))
  | .progress file index rest =>
    some (callMigration db (some db) outcome
      (if (db.progress.lookup (file.filename, index)).isSome then
          .nextStatement file (index + 1) rest
        else .statement file index rest)
      (.fail "apply" file))
  | .statement file index rest =>
    some (callMigration db (some (db.executeStatement file index)) outcome
      (.record file index rest) (.fail "apply" file))
  | .record file index rest =>
    some (callMigration db (db.insertProgress file index) outcome
      (.nextStatement file (index + 1) rest) (.fail "apply" file))
  | .track file rest =>
    some (callMigration db (db.insertApplied file) outcome (.next rest) (.fail "track" file))
  | .returned _ => none

end MigrationDb

inductive MigrationAction where
  | start
  | call (outcome : CallOutcome)
  | crash

structure MigrationWorld where
  db : MigrationDb := {}
  stage : Option MigrationStage := none

namespace MigrationWorld

variable (w : MigrationWorld)

def isRunning : Bool :=
  match w.stage with
  | none | some (.returned _) => false
  | some _ => true

def step (dir : MigrationDir) (w : MigrationWorld) : MigrationAction → Option MigrationWorld
  | .start => if w.isRunning then none else some { w with stage := some (.next dir.entries) }
  | .call outcome => do
    let (db, stage) ← w.db.perform outcome (← w.stage)
    some { db, stage := some stage }
  | .crash => some { w with stage := none }

/-- Between the success of a statement and its record nothing goes wrong: the success is
acknowledged, and its record is written. -/
def acknowledged (action : MigrationAction) : Bool :=
  match w.stage, action with
  | some (.batch ..), .call (.lost _) | some (.statement ..), .call (.lost _)
  | some (.record ..), .call (.failed _) | some (.record ..), .crash => false
  | some (.track file _), .call (.failed _) | some (.track file _), .crash => file.stepwise
  | _, _ => true

def executedOf (file : MigrationFile) : List Executed :=
  w.db.log.filter (·.filename = file.filename)

end MigrationWorld

end Choruz
