import Choruz.Numerals
import Choruz.Packing
import Choruz.RemoteOutbox
import Choruz.Table

/-!
# Shipping a device's outbox

A device ships the command files of its terminals and those it has spooled, and the commands of a
headless turn, to the controller.  A file stays until its pass is over; the commands of a turn are
spooled where the controller could not be reached.
-/

namespace Choruz

open Relational

abbrev Files := Table (Prod.fst : String × String → String)

/-- `serde_json` on the contents of a command file and of a spooled one. -/
structure DevicePrims where
  parse : String → Option Json
  decode : String → Option ShippedOutboxCommand
  encode : ShippedOutboxCommand → String

/-- What comes back for a request; `text` is the status as it is printed. -/
inductive ShipAnswer where
  | unreachable (error : String)
  | status (code : ℕ) (text : String)

inductive ShipError where
  | refused (reason : String)
  | transient (reason : String)

def shipmentRefused (code : ℕ) : Bool :=
  (400 ≤ code && code < 500) && !(code = 401 || code = 408 || code = 429)

namespace ShipAnswer

def refused : ShipAnswer → Bool
  | status code _ => shipmentRefused code
  | unreachable _ => false

def stored : ShipAnswer → Bool
  | status code _ => 200 ≤ code && code < 300
  | unreachable _ => false

end ShipAnswer

structure Offer where
  binding : String
  shipment : List ShippedOutboxCommand
  answer : ShipAnswer

def maxShipmentBytes : ℕ := 16 * 1024 * 1024

section Shipping

variable (prims : DevicePrims)

def shippedBytes (command : ShippedOutboxCommand) : ℕ := (prims.encode command).utf8ByteSize + 1

def shipments (commands : List ShippedOutboxCommand) : List (List ShippedOutboxCommand) :=
  Packing.pack (shippedBytes prims) maxCommandsPerShipment maxShipmentBytes [] 0 commands

/-- The shipments that are offered, one after another; `answers k` is for the `k`th. -/
def offerShipments (binding : String) (answers : ℕ → ShipAnswer) :
    List (List ShippedOutboxCommand) → List Offer × Except ShipError Unit
  | [] => ([], .ok ())
  | shipment :: rest =>
    let offer := ⟨binding, shipment, answers 0⟩
    match answers 0 with
    | .unreachable error => ([offer], .error (.transient ("ship outbox: " ++ error)))
    | .status code text =>
      if shipmentRefused code then
        ([offer], .error (.refused ("ship outbox returned HTTP " ++ text)))
      else if !(ShipAnswer.status code text).stored then
        ([offer], .error (.transient ("ship outbox returned HTTP " ++ text)))
      else
        let (offers, outcome) := offerShipments binding (fun k => answers (k + 1)) rest
        (offer :: offers, outcome)

def shipOutbox (binding : String) (answers : ℕ → ShipAnswer)
    (commands : List ShippedOutboxCommand) : List Offer × Except ShipError Unit :=
  offerShipments binding answers (shipments prims commands)

variable (readFile : String → Option String)

/-- `readFile` gives the base64 of a regular file inside the workspace and under the size cap. -/
def shareFilePayload (command : Json) : List ShippedFile :=
  if command.text? "type" ≠ some "share_file" then []
  else match command.text? "path" with
    | none => []
    | some relative =>
      if !relativePathIsSafe relative then []
      else match readFile relative with
        | none => []
        | some content => [⟨relative, content⟩]

/-- Where a device keeps command files. -/
inductive Place where
  | outbox | spool
deriving DecidableEq

def Place.read (place : Place) (readFile : String → Option String) (file : String × String) :
    Option ShippedOutboxCommand :=
  match place with
  | .outbox => ((prims.parse file.2).filter (·.isObject)).map fun command =>
      ⟨file.1, command, shareFilePayload readFile command⟩
  | .spool => prims.decode file.2

def isCommandFile (file : String × String) : Bool := extension? file.1 = some "json"

/-- `collect_outbox_commands` and `take_spooled_commands`: the files in name order, with their
commands. -/
def collectCommands (place : Place) (readFile : String → Option String) (files : Files) :
    List (String × ShippedOutboxCommand) :=
  ((files.rows.filter isCommandFile).insertionSort fun a b => a.1 ≤ b.1).filterMap fun file =>
    (place.read prims readFile file).map fun command => (file.1, command)

def dropUndecodable (place : Place) (readFile : String → Option String) (files : Files) : Files :=
  files.deleteWhere fun file => isCommandFile file && (place.read prims readFile file).isNone

def commandName (index : ℕ) (id : String) : String :=
  "cmd-" ++ String.ofList (Numerals.padded 20 index) ++ "-" ++ id ++ ".json"

def commandsFromFrames (ids : ℕ → String) (frames : String) : List ShippedOutboxCommand :=
  (((splitBy '\x00' frames).filterMap prims.parse).filter fun command =>
      command.isObject && command.text? "type" ≠ some "send").mapIdx fun index command =>
    ⟨commandName (index + 1) (ids index), command, shareFilePayload readFile command⟩

def spoolShippedCommands (spool : Files) : List ShippedOutboxCommand → Files × Except String Unit
  | [] => (spool, .ok ())
  | command :: commands =>
    match fileName? command.name with
    | none => (spool, .error "outbox command name is invalid")
    | some name => spoolShippedCommands (spool.put (name, prims.encode command)) commands

end Shipping

structure Pass where
  place : Place
  binding : String
  collected : List (String × ShippedOutboxCommand)
deriving DecidableEq

structure Device where
  outbox : String → Files := fun _ => .empty
  spool : String → Files := fun _ => .empty
  pass : Option Pass := none
  offered : List Offer := []

inductive DeviceAction where
  | write (binding name content : String)
  | collect (place : Place) (binding : String) (readFile : String → Option String)
  | ship (answers : ℕ → ShipAnswer)
  | turn (binding frames : String) (readFile : String → Option String) (ids : ℕ → String)
      (answers : ℕ → ShipAnswer)

namespace Device

variable (prims : DevicePrims) (d : Device)

def files : Place → String → Files
  | .outbox => d.outbox
  | .spool => d.spool

def setFiles (place : Place) (binding : String) (files : Files) : Device :=
  match place with
  | .outbox => { d with outbox := Function.update d.outbox binding files }
  | .spool => { d with spool := Function.update d.spool binding files }

def delivered (pass : Pass) : Device :=
  d.setFiles pass.place pass.binding <| (d.files pass.place pass.binding).deleteWhere fun file =>
    (pass.collected.map (·.1)).contains file.1

def finishPass (pass : Pass) (answers : ℕ → ShipAnswer) : Device :=
  let (offers, outcome) := shipOutbox prims pass.binding answers (pass.collected.map (·.2))
  let d := { d with pass := none, offered := d.offered ++ offers }
  match outcome with
  | .ok () | .error (.refused _) => d.delivered pass
  | .error (.transient _) => d

variable (binding : String) (commands : List ShippedOutboxCommand)

def finishTurn (answers : ℕ → ShipAnswer) : Device :=
  let (offers, outcome) := shipOutbox prims binding answers commands
  let d := { d with offered := d.offered ++ offers }
  match outcome with
  | .ok () | .error (.refused _) => d
  | .error (.transient _) =>
    d.setFiles .spool binding (spoolShippedCommands prims (d.spool binding) commands).1

/-- The names of a turn's commands are file names no spooled file has, and there are no more
commands than an index can count. -/
def freshNames : Bool :=
  commands.length < 2 ^ 64 && commands.all fun command =>
    fileName? command.name = some command.name && ((d.spool binding).lookup command.name).isNone

def step : DeviceAction → Option Device
  | .write binding name content =>
    ((d.outbox binding).insert? (name, content)).map (d.setFiles .outbox binding)
  | .collect place binding readFile =>
    if d.pass.isSome then none
    else
      let collected := collectCommands prims place readFile (d.files place binding)
      let d := d.setFiles place binding (dropUndecodable prims place readFile (d.files place binding))
      if collected.isEmpty then some d else some { d with pass := some ⟨place, binding, collected⟩ }
  | .ship answers => d.pass.map fun pass => d.finishPass prims pass answers
  | .turn binding frames readFile ids answers =>
    let commands := commandsFromFrames prims readFile ids frames
    if d.freshNames binding commands then some (d.finishTurn prims binding commands answers)
    else none

/-- No shipment of these commands is refused but the last. -/
def lastRefused (answers : ℕ → ShipAnswer) : Bool :=
  (List.range ((shipments prims commands).length - 1)).all fun k => !(answers k).refused

/-- The controller refuses no shipment that is followed by another. -/
def refusesLast : DeviceAction → Bool
  | .ship answers => d.pass.all fun pass => lastRefused prims (pass.collected.map (·.2)) answers
  | .turn _ frames readFile ids answers =>
    lastRefused prims (commandsFromFrames prims readFile ids frames) answers
  | _ => true

/-- The controller has stored or refused a shipment with the command, or no shipment can hold
it. -/
def Settled (command : ShippedOutboxCommand) : Prop :=
  (∃ o ∈ d.offered, o.binding = binding ∧ command ∈ o.shipment
    ∧ (o.answer.stored ∨ o.answer.refused))
  ∨ maxShipmentBytes < shippedBytes prims command

def Holds (place : Place) (file : String × String) (command : ShippedOutboxCommand) : Prop :=
  ∃ readFile, place.read prims readFile file = some command

/-- What was offered in a step: the commands of one binding, in the order of their names, in
batches within the limits.  A spooled command goes by the name of its file. -/
def OffersInOrder (d d' : Device) : Prop :=
  ∃ binding offers, d'.offered = d.offered ++ offers ∧ (∀ o ∈ offers, o.binding = binding
      ∧ Packing.Within (shippedBytes prims) maxCommandsPerShipment maxShipmentBytes o.shipment)
    ∧ ∃ named : List (String × ShippedOutboxCommand), named.Pairwise (fun a b => a.1 < b.1)
      ∧ offers.flatMap (·.shipment) = named.map (·.2)
      ∧ ∀ e ∈ named, e.1 = e.2.name
        ∨ ∃ content, (e.1, content) ∈ d.spool binding ∧ prims.decode content = some e.2

structure KeepsCommands (d : Device) (action : DeviceAction) (d' : Device) : Prop where
  /-- A file with a command is removed only after a pass that has settled the command. -/
  files : ∀ place binding file, file ∈ d.files place binding →
    (∃ command, Holds prims place file command) → file ∉ d'.files place binding →
      ∃ pass command, d.pass = some pass ∧ (file.1, command) ∈ pass.collected
        ∧ Holds prims place file command ∧ d'.Settled prims binding command
  turn : ∀ binding frames readFile ids answers, action = .turn binding frames readFile ids answers →
      ∀ command ∈ commandsFromFrames prims readFile ids frames,
        (command.name, prims.encode command) ∈ d'.spool binding ∨ d'.Settled prims binding command
  order : OffersInOrder prims d d'

end Device

end Choruz
