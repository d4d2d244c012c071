import Choruz.Pipeline

/-!
# Pairing remote-control devices

`redeem_pairing_for_principal`, `load_stored_bridge_state` and the end of `serve_pairing`.  A
redemption is one transaction of several statements: it locks its pairing row, reads the keys of
the active devices, inserts its device and consumes the pairing.  Statements of different
transactions interleave; a statement may fail, and the answer of a commit may be lost.
-/

namespace Choruz

open Relational

/-- The wrapping of session keys under the pairing secret, with the nonce that is drawn, and the
keyed hash of a credential. -/
structure PairingSecret where
  wrapSessionKey : ℕ → String → String
  unwrapSessionKey : String → Except AppError String
  unwrap_wrap : ∀ nonce key, unwrapSessionKey (wrapSessionKey nonce key) = .ok key
  credentialHash : String → String

structure RemoteControlPairing where
  (id principalId credentialHash : String)
  expiresAt : Timestamp
  consumedAt : Option Timestamp

structure RemoteControlDevice where
  (id principalId name sessionKeyWrapped : String)
  revokedAt : Option Timestamp

structure RedeemPairingRequest where
  (credential deviceName sessionKey : String)

def isBase64UrlChar (c : Char) : Bool := c.isAlphanum || c = '-' || c = '_'

def validateDevice (name sessionKey : String) : Except AppError Unit :=
  let name := trim name
  if name = "" ∨ 80 < name.toList.length then
    .error (.validation "device_name must contain 1 to 80 characters")
  else if sessionKey.utf8ByteSize ≠ 43 ∨ ¬ sessionKey.toList.all isBase64UrlChar then
    .error (.validation "session_key must be a 256-bit base64url value")
  else .ok ()

/-- `v1.<id>.<secret>`, both of 22 base64url characters. -/
def validPairingCredential (value : String) : Bool :=
  match value.toList.splitOnP (· = '.') with
  | [version, id, secret] =>
    version = "v1".toList && id.length = 22 && secret.length = 22
      && (id ++ secret).all isBase64UrlChar
  | _ => false

def RedeemPairingRequest.validate (request : RedeemPairingRequest) : Except AppError Unit := do
  validateDevice request.deviceName request.sessionKey
  if validPairingCredential request.credential then .ok ()
  else .error (.validation "pairing credential is malformed")

structure StoredBridgeState where
  sessionKey : Option String
  activeDeviceIds : List String
deriving DecidableEq

namespace RemoteControlDevice

/-- `principal_id = $1 AND revoked_at IS NULL`. -/
def activeFor (d : RemoteControlDevice) (principalId : String) : Bool :=
  d.principalId = principalId && d.revokedAt.isNone

end RemoteControlDevice

abbrev DeviceTable := Table RemoteControlDevice.id

namespace DeviceTable

def active (devices : DeviceTable) (principalId : String) : List RemoteControlDevice :=
  devices.rows.filter (·.activeFor principalId)

def revoke (devices : DeviceTable) (deviceId principalId : String) (now : Timestamp) :
    DeviceTable :=
  devices.updateWhere (fun d => d.id = deviceId && d.activeFor principalId)
    (fun d => { d with revokedAt := some now }) fun _ => rfl

end DeviceTable

namespace PairingSecret

variable (secret : PairingSecret)

/-- The key the devices share, starting from what was found so far. -/
def commonKey : Option String → List RemoteControlDevice → Except AppError (Option String)
  | sessionKey, [] => .ok sessionKey
  | sessionKey, d :: ds => do
    let candidate ← secret.unwrapSessionKey d.sessionKeyWrapped
    if sessionKey.any (· ≠ candidate) then
      .error (.internal "active remote-control devices have inconsistent session keys")
    else commonKey (some candidate) ds

def loadStoredBridgeState (devices : DeviceTable) (principalId : String) :
    Except AppError StoredBridgeState :=
  (secret.commonKey none (devices.active principalId)).map fun sessionKey =>
    { sessionKey, activeDeviceIds := (devices.active principalId).map (·.id) }

def existingSessionKey (devices : DeviceTable) (principalId : String) :
    Except AppError (Option String) :=
  (secret.loadStoredBridgeState devices principalId).map (·.sessionKey)

def compareKeys (sessionKey : String) : List RemoteControlDevice → Except AppError Unit
  | [] => .ok ()
  | d :: ds => do
    let key ← secret.unwrapSessionKey d.sessionKeyWrapped
    if key ≠ sessionKey then
      .error (.conflict "remote-control session key does not match active devices")
    else compareKeys sessionKey ds

end PairingSecret

/-- The statement a redemption runs next; `compared` are the ids of the devices it has compared its
key with, and `device` is its insert, which no other transaction sees. -/
inductive RedemptionStage where
  | keying | locking
  | comparing (pairingId : String)
  | inserting (pairingId : String) (compared : List String)
  | consuming (pairingId : String) (compared : List String) (device : RemoteControlDevice)
  | committing (pairingId : String) (compared : List String) (device : RemoteControlDevice)
    (consumedAt : Timestamp)
  | returned (result : Except AppError String)

namespace RedemptionStage

/-- The pairing row a transaction has locked. -/
def holds : RedemptionStage → Option String
  | comparing pairingId | inserting pairingId _ | consuming pairingId .. | committing pairingId .. =>
    some pairingId
  | _ => none

def unanswered (stage : RedemptionStage) : AppError :=
  let what := match stage with
    | keying => "load bridge key"
    | locking => "find pairing"
    | comparing _ => "load active remote keys"
    | inserting .. => "create remote device"
    | consuming .. => "consume pairing"
    | committing .. | returned _ => "commit pairing"
  .internal (what ++ ": connection closed")

end RedemptionStage

structure Redemption where
  principalId : String
  request : RedeemPairingRequest
  stage : RedemptionStage

structure PairingDb where
  pairings : Table RemoteControlPairing.id := Table.empty
  devices : DeviceTable := Table.empty

structure PairingWorld where
  db : PairingDb := {}
  redemptions : List Redemption := []

/-- What a statement is given: the time, the nonce of the wrapped key, the new device's id, and the
end of the statement. -/
structure StatementInput where
  now : Timestamp := 0
  nonce : ℕ := 0
  deviceId : String := ""
  fault : Fault := .none

inductive PairingAction where
  | issue (pairing : RemoteControlPairing)
  /-- A pairing whose host could not connect is deleted. -/
  | discard (pairingId : String)
  /-- A device has proved itself to `serve_pairing`, with the key derived in the handshake. -/
  | handshake (principalId credential deviceName derived : String)
  | redeem (principalId : String) (request : RedeemPairingRequest)
  | resume (i : ℕ) (input : StatementInput)
  | revoke (deviceId principalId : String) (now : Timestamp)

namespace Redemption

variable (secret : PairingSecret) (r : Redemption)

def fail (e : AppError) : Redemption := { r with stage := .returned (.error e) }

def validated : Redemption :=
  match r.request.validate with
  | .ok () => { r with stage := .locking }
  | .error e => r.fail e

def findPairing (db : PairingDb) (now : Timestamp) :
    Option RemoteControlPairing :=
  db.pairings.rows.find? fun p =>
    p.credentialHash = secret.credentialHash r.request.credential
      && p.principalId = r.principalId && p.consumedAt.isNone && decide (now < p.expiresAt)

def newDevice (input : StatementInput) : RemoteControlDevice where
  id := input.deviceId
  principalId := r.principalId
  name := trim r.request.deviceName
  sessionKeyWrapped := secret.wrapSessionKey input.nonce r.request.sessionKey
  revokedAt := none

def commit (db : PairingDb) (pairingId : String) (device : RemoteControlDevice)
    (consumedAt : Timestamp) : Option PairingDb :=
  (db.devices.insert? device).map fun devices => {
    devices
    pairings := db.pairings.updateWhere (·.id = pairingId)
      (fun p => { p with consumedAt := some consumedAt }) fun _ => rfl }

/-- One statement; `locked` says whether another transaction holds a pairing row, and `none` that
the statement waits. -/
def next (db : PairingDb) (locked : String → Bool) (input : StatementInput) :
    Option (PairingDb × Redemption) :=
  match r.stage, input.fault with
  | .keying, .none =>
    match secret.existingSessionKey db.devices r.principalId with
    | .error e => some (db, r.fail e)
    | .ok existing =>
      let sessionKey := existing.getD r.request.sessionKey
      some (db, { r with request := { r.request with sessionKey } }.validated)
  | .locking, .none =>
    match r.findPairing secret db input.now with
    | none => some (db, r.fail (.unauthorized "invalid or expired pairing credential"))
    | some p => if locked p.id then none else some (db, { r with stage := .comparing p.id })
  | .comparing pairingId, .none =>
    let active := db.devices.active r.principalId
    match secret.compareKeys r.request.sessionKey active with
    | .error e => some (db, r.fail e)
    | .ok () => some (db, { r with stage := .inserting pairingId (active.map (·.id)) })
  | .inserting pairingId compared, .none =>
    if (db.devices.lookup input.deviceId).isSome then
      some (db, r.fail (.internal "create remote device: duplicate key"))
    else
      some (db, { r with stage := .consuming pairingId compared (r.newDevice secret input) })
  | .consuming pairingId compared device, .none =>
    some (db, { r with stage := .committing pairingId compared device input.now })
  | .committing pairingId _ device consumedAt, .none =>
    (commit db pairingId device consumedAt).map fun db =>
      (db, { r with stage := .returned (.ok device.id) })
  | .committing pairingId _ device consumedAt, .unacknowledged =>
    (commit db pairingId device consumedAt).map fun db => (db, r.fail r.stage.unanswered)
  | .returned _, _ => none
  | stage, _ => some (db, r.fail stage.unanswered)

end Redemption

namespace PairingWorld

def locked (w : PairingWorld) (i : ℕ) (pairingId : String) : Bool :=
  (w.redemptions.zipIdx).any fun r => r.2 ≠ i && r.1.stage.holds = some pairingId

def step (secret : PairingSecret) (w : PairingWorld) : PairingAction → Option PairingWorld
  | .issue pairing =>
    if w.db.pairings.rows.any (·.credentialHash = pairing.credentialHash) then none
    else (w.db.pairings.insert? pairing).map fun pairings => { w with db := { w.db with pairings } }
  | .discard pairingId =>
    if w.redemptions.any fun r => r.stage.holds = some pairingId then none
    else some { w with db := { w.db with
      pairings := w.db.pairings.deleteWhere fun p => p.id = pairingId && p.consumedAt.isNone } }
  | .handshake principalId credential deviceName derived =>
    let r : Redemption := ⟨principalId, ⟨credential, deviceName, derived⟩, .keying⟩
    some { w with redemptions := w.redemptions ++ [r] }
  | .redeem principalId request =>
    let r : Redemption := ⟨principalId, request, .locking⟩
    some { w with redemptions := w.redemptions ++ [r.validated] }
  | .resume i input => do
    let r ← w.redemptions[i]?
    let (db, r) ← r.next secret w.db (w.locked i) input
    some { db, redemptions := w.redemptions.set i r }
  | .revoke deviceId principalId now =>
    some { w with db := { w.db with devices := w.db.devices.revoke deviceId principalId now } }

/-- Where a redemption commits, it has compared its key with every device that is active now. -/
def comparedAll (w : PairingWorld) : PairingAction → Bool
  | .resume i _ =>
    (w.redemptions[i]?).all fun r =>
      match r.stage with
      | .committing _ compared .. =>
        (w.db.devices.active r.principalId).all fun d => compared.contains d.id
      | _ => true
  | _ => true

def SharesKey (secret : PairingSecret) (w : PairingWorld) : Prop :=
  ∀ principalId, ∃ key, ∀ d ∈ w.db.devices.active principalId,
    secret.unwrapSessionKey d.sessionKeyWrapped = .ok key

end PairingWorld

end Choruz
