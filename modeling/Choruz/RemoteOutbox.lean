import Choruz.Models
import Choruz.Steps

/-!
# Outbox commands shipped by a device

The controller stores a shipment in a mirror of the device's workspace, file by file: a pending
receipt, the shared files, the command, and the receipt's move to the accepted ones.  A call may
fail or be cut off at every file operation, and the pipeline drains the mirror meanwhile.
-/

namespace Choruz

open Relational

def splitBy (c : Char) (s : String) : List String := (s.toList.splitOn c).map String.ofList

/-- The parts of a path; `.` and empty parts are none. -/
def pathParts (path : String) : List String :=
  (splitBy '/' path).filter fun part => part ≠ "" && part ≠ "."

def fileName? (path : String) : Option String :=
  (pathParts path).getLast?.filter (· ≠ "..")

/-- `Path::extension`: what follows the last dot, unless the dot is the name's first character. -/
def extension? (name : String) : Option String :=
  match splitBy '.' name with
  | _ :: [] | ["", _] | [] => none
  | _ :: parts => parts.getLast?

def relativePathIsSafe (relative : String) : Bool :=
  relative ≠ "" && !relative.toList.contains '\x00' && !("/".toList.isPrefixOf relative.toList)
    -- a leading `.` is a component of its own
    && (splitBy '/' relative).head? ≠ some "." && !(pathParts relative).contains ".."

structure ShippedFile where
  (path content : String)
deriving DecidableEq

structure ShippedOutboxCommand where
  name : String
  command : Json
  files : List ShippedFile := []
deriving DecidableEq

def maxShippedFileBytes : ℕ := 8 * 1024 * 1024

def maxShippedEncodedBytes : ℕ := (maxShippedFileBytes + 2) / 3 * 4

def maxCommandsPerShipment : ℕ := 200

/-- Base64, `serde_json::to_string`, and the hex of the SHA-256 of a serialised command.  The bytes
of a file are the characters of a string. -/
structure ShipPrims where
  decodeBase64 : String → Except String String
  serialize : Json → String
  digest : ShippedOutboxCommand → String

structure PreparedCommand where
  (name commandText digest : String)
  files : List (String × String)

def shippedFileTooLarge (path : String) : AppError :=
  .validation ("shipped file " ++ path ++ " exceeds " ++ toString maxShippedFileBytes ++ " bytes")

def reusedName (name : String) : AppError :=
  .conflict ("outbox command " ++ name ++ " was reused with different content")

variable (prims : ShipPrims)

def prepareShippedFile (file : ShippedFile) : Except AppError (String × String) :=
  if !relativePathIsSafe file.path then
    .error (.validation ("shipped file path " ++ file.path ++ " must stay inside the workspace"))
  else if file.content.utf8ByteSize > maxShippedEncodedBytes then
    .error (shippedFileTooLarge file.path)
  else
    match prims.decodeBase64 file.content with
    | .error e => .error (.validation ("shipped file is not base64: " ++ e))
    | .ok bytes =>
      if bytes.length > maxShippedFileBytes then .error (shippedFileTooLarge file.path)
      else .ok (file.path, bytes)

def prepareShippedCommand (shipped : ShippedOutboxCommand) : Except AppError PreparedCommand :=
  match (fileName? shipped.name).filter fun name => ".json".toList.isSuffixOf name.toList with
  | none => .error (.validation "outbox command name is invalid")
  | some name => do
    let files ← shipped.files.mapM (prepareShippedFile prims)
    .ok ⟨name, prims.serialize shipped.command, prims.digest shipped, files⟩

def uniqueCommands (seen : List PreparedCommand) :
    List PreparedCommand → Except AppError (List PreparedCommand)
  | [] => .ok seen
  | command :: commands =>
    match seen.find? (·.name = command.name) with
    | some earlier =>
      if earlier.digest ≠ command.digest then .error (reusedName command.name)
      else uniqueCommands seen commands
    | none => uniqueCommands (seen ++ [command]) commands

def prepareShipment (commands : List ShippedOutboxCommand) :
    Except AppError (List PreparedCommand) :=
  if commands.length > maxCommandsPerShipment then
    .error (.validation ("ship at most " ++ toString maxCommandsPerShipment
      ++ " outbox commands per request"))
  else do
    let prepared ← commands.mapM (prepareShippedCommand prims)
    uniqueCommands [] prepared

/-- The files of a mirror, by the parts of their paths. -/
structure Mirror where
  files : List String → Option String := fun _ => none

namespace Mirror

def newPath (name : String) : List String := [".choruz-outbox", "new", name]

def pendingPath (name : String) : List String := [".choruz-outbox", "receipts", "pending", name]

def acceptedPath (name : String) : List String := [".choruz-outbox", "receipts", "accepted", name]

variable (m : Mirror) (name : String)

def new : Option String := m.files (newPath name)

def pending : Option String := m.files (pendingPath name)

def accepted : Option String := m.files (acceptedPath name)

def write (path : List String) (content : String) : Mirror :=
  ⟨fun p => if p = path then some content else m.files p⟩

def remove (path : List String) : Mirror :=
  ⟨fun p => if p = path then none else m.files p⟩

/-- `outbox_command_is_ready`, of a file in `new`. -/
def outboxCommandIsReady : Bool :=
  if extension? name ≠ some "json" then true else (m.pending name).isNone

def claimable : Bool :=
  (m.new name).isSome && (extension? name = some "json" && m.outboxCommandIsReady name)

/-- Whether the command was accepted before, from its receipts. -/
def checkReceipts (command : PreparedCommand) : Except AppError Bool :=
  match m.accepted command.name, m.pending command.name with
  | some digest, pending =>
    if digest ≠ command.digest then .error (reusedName command.name)
    else if pending.any (· ≠ command.digest) then
      .error (.conflict ("outbox command " ++ command.name ++ " has conflicting shipment receipts"))
    else .ok true
  | none, some digest =>
    if digest ≠ command.digest then .error (reusedName command.name) else .ok false
  | none, none => .ok false

end Mirror

/-- Where a call of `store_shipped_commands` is; from `checking` on it holds the mirror's lock. -/
inductive StoreStage where
  | start
  | checking (todo : List PreparedCommand) (checked : List (PreparedCommand × Bool))
  | next (todo : List (PreparedCommand × Bool))
  | sharing (command : PreparedCommand) (files : List (String × String))
      (todo : List (PreparedCommand × Bool))
  | accepting (command : PreparedCommand) (todo : List (PreparedCommand × Bool))
  | returned (answer : Except AppError Unit)
  | crashed

def StoreStage.locked : StoreStage → Bool
  | start | returned _ | crashed => false
  | _ => true

def StoreStage.unchecked : StoreStage → Bool
  | start | checking .. => true
  | _ => false

structure StoreCall where
  commands : List ShippedOutboxCommand
  stage : StoreStage := .start
  /-- The call has changed a file; no statement reads this. -/
  wrote : Bool := false

namespace StoreCall

variable (call : StoreCall)

def goto (stage : StoreStage) : StoreCall := { call with stage }

def fail (e : AppError) : StoreCall := call.goto (.returned (.error e))

def io (operation error : String) : StoreCall :=
  call.fail (.internal (operation ++ ": " ++ error))

def gotoWrote (stage : StoreStage) : StoreCall := { call with stage, wrote := true }

/-- The next file operation of a call, which may fail; `free` says that no other call holds the
lock. -/
def operation (m : Mirror) (free : Bool) (error? : Option String) : Option (Mirror × StoreCall) :=
  match call.stage with
  | .start =>
    match prepareShipment prims call.commands with
    | .error e => some (m, call.fail e)
    | .ok prepared =>
      if !free then none
      else match error? with
        | some error => some (m, call.io "create remote outbox mirror" error)
        | none => some (m, call.goto (.checking prepared []))
  | .checking [] checked => some (m, call.goto (.next checked))
  | .checking (command :: todo) checked =>
    match error?, m.checkReceipts command with
    | some error, _ => some (m, call.io "read outbox shipment receipt" error)
    | none, .error e => some (m, call.fail e)
    | none, .ok accepted => some (m, call.goto (.checking todo (checked ++ [(command, accepted)])))
  | .next [] => some (m, call.goto (.returned (.ok ())))
  | .next ((command, true) :: todo) =>
    -- a receipt that cannot be removed is left
    if error?.isSome || (m.pending command.name).isNone then some (m, call.goto (.next todo))
    else some (m.remove (Mirror.pendingPath command.name), call.gotoWrote (.next todo))
  | .next ((command, false) :: todo) =>
    if (m.pending command.name).isSome then
      some (m, call.goto (.sharing command command.files todo))
    else match error? with
      | some error => some (m, call.io "write pending outbox shipment receipt" error)
      | none => some (m.write (Mirror.pendingPath command.name) command.digest,
          call.gotoWrote (.sharing command command.files todo))
  | .sharing command ((path, bytes) :: files) todo =>
    match error? with
    | some error => some (m, call.io "write shipped file" error)
    | none => some (m.write (pathParts path) bytes, call.gotoWrote (.sharing command files todo))
  | .sharing command [] todo =>
    match error? with
    | some error => some (m, call.io "publish outbox command" error)
    | none => some (m.write (Mirror.newPath command.name) command.commandText,
        call.gotoWrote (.accepting command todo))
  | .accepting command todo =>
    match error?, m.pending command.name with
    | some error, _ => some (m, call.io "accept outbox shipment receipt" error)
    | none, none => some (m, call.io "accept outbox shipment receipt" "No such file or directory")
    | none, some digest =>
      some ((m.remove (Mirror.pendingPath command.name)).write
          (Mirror.acceptedPath command.name) digest,
        call.gotoWrote (.next todo))
  | .returned _ | .crashed => none

def crash : StoreCall :=
  match call.stage with
  | .returned _ => call
  | _ => call.goto .crashed

end StoreCall

structure MirrorWorld where
  mirror : Mirror := {}
  calls : List StoreCall := []
  /-- The names the pipeline has listed and not yet tried to claim. -/
  listed : List String := []
  claimed : List String := []

inductive MirrorAction where
  | begin (commands : List ShippedOutboxCommand)
  | call (i : ℕ) (error? : Option String)
  | crash
  | list (name : String)
  | claim (name : String)

namespace MirrorWorld

variable (w : MirrorWorld)

def free (i : ℕ) : Bool := (w.calls.eraseIdx i).all fun c => !c.stage.locked

def step : MirrorAction → Option MirrorWorld
  | .begin commands => some { w with calls := w.calls ++ [⟨commands, .start, false⟩] }
  | .call i error? => w.calls[i]?.bind fun call =>
    (call.operation prims w.mirror (w.free i) error?).map fun (m, call) =>
      { w with mirror := m, calls := w.calls.set i call }
  | .crash => some { w with calls := w.calls.map (·.crash) }
  | .list name =>
    if w.mirror.claimable name then some { w with listed := name :: w.listed } else none
  | .claim name =>
    if !w.listed.contains name then none
    else if (w.mirror.new name).isNone then some { w with listed := w.listed.erase name }
    else some { w with
      mirror := w.mirror.remove (Mirror.newPath name)
      listed := w.listed.erase name
      claimed := name :: w.claimed }

def filesOutside (_ : MirrorWorld) : MirrorAction → Bool
  | .begin commands => commands.all fun c => c.files.all fun f =>
    (pathParts f.path).head? ≠ some ".choruz-outbox"
  | _ => true

/-- The runs in which the shared files of every shipment lie outside the outbox. -/
abbrev Runs : MirrorWorld → MirrorWorld → Prop :=
  Steps (restrict (step prims) fun w action => w.filesOutside action)

/-- A command of the call has a name that has a receipt with other content. -/
def Reuses (call : StoreCall) : Prop :=
  ∃ c ∈ call.commands, ∃ p digest, prepareShippedCommand prims c = .ok p
    ∧ (w.mirror.accepted p.name = some digest ∨ w.mirror.pending p.name = some digest)
    ∧ digest ≠ p.digest

/-- What holds of the shipments of a mirror. -/
structure ExposedOnce (w : MirrorWorld) : Prop where
  /-- A command that was claimable and is no more never is again. -/
  once : ∀ name, w.mirror.claimable name → ∀ w1, Runs prims w w1 →
    w1.mirror.claimable name = false → ∀ w2, Runs prims w1 w2 → w2.mirror.claimable name = false
  claimed : w.claimed.Nodup
  /-- A call that has returned left every command published, or claimed by now. -/
  stored : ∀ call ∈ w.calls, call.stage = .returned (.ok ()) → ∀ c ∈ call.commands,
    ∃ p, prepareShippedCommand prims c = .ok p ∧ ((w.mirror.new p.name).isSome ∨ p.name ∈ w.claimed)
  /-- A call that is not past its checks and reuses a name never changes a file, nor returns. -/
  reused : ∀ (i : ℕ) call, w.calls[i]? = some call → call.stage.unchecked →
    w.Reuses prims call → ∀ w', Runs prims w w' → ∀ call', w'.calls[i]? = some call' →
      call'.wrote = false ∧ call'.stage ≠ .returned (.ok ())
  /-- The check of a reused name is a conflict. -/
  conflict : ∀ (i : ℕ) call p todo checked digest, w.calls[i]? = some call →
    call.stage = .checking (p :: todo) checked →
    (w.mirror.accepted p.name = some digest ∨ w.mirror.pending p.name = some digest) →
    digest ≠ p.digest → ∃ text, w.step prims (.call i none) =
      some { w with calls := w.calls.set i (call.fail (.conflict text)) }
  /-- Two commands of one name and different content are refused before the lock is taken. -/
  twice : ∀ (i : ℕ) call, w.calls[i]? = some call → call.stage = .start →
    ∀ c1 ∈ call.commands, ∀ c2 ∈ call.commands, ∀ p1 p2,
      prepareShippedCommand prims c1 = .ok p1 → prepareShippedCommand prims c2 = .ok p2 →
      p1.name = p2.name → p1.digest ≠ p2.digest → ∀ error?, ∃ e,
        w.step prims (.call i error?) = some { w with calls := w.calls.set i (call.fail e) }
  /-- A call that has not written has changed nothing. -/
  unwritten : ∀ i error? w' call, w.step prims (.call i error?) = some w' →
    w'.calls[i]? = some call → call.wrote = false → w'.mirror = w.mirror

end MirrorWorld

end Choruz
