import Choruz.Pairing

/-!
# The devices of a principal share one session key

A redemption compares its key with the active devices and commits later.  If no device has been
added in between, the new device has their key; a device that was added in between need not.
-/

namespace Choruz

open Relational Redemption

variable {secret : PairingSecret}

namespace PairingSecret

theorem commonKey_ok {key : String} : ∀ (ds : List RemoteControlDevice) (found : Option String),
    (∀ d ∈ ds, secret.unwrapSessionKey d.sessionKeyWrapped = .ok key) → (∀ k ∈ found, k = key) →
    ∃ res, secret.commonKey found ds = .ok res
  | [], found, _, _ => ⟨found, rfl⟩
  | d :: ds, found, hk, hf => by
    have hd := hk d mem_cons_self
    have hs : found.any (· ≠ key) = false := by
      rcases found with _ | k
      · rfl
      · simp [hf k rfl]
    obtain ⟨res, hr⟩ := commonKey_ok ds (some key)
      (fun d hd => hk d (mem_cons_of_mem _ hd)) (by simp)
    refine ⟨res, ?_⟩
    simp only [commonKey, hd, bind, Except.bind, hs, Bool.false_eq_true, if_false, hr]

theorem compareKeys_eq_ok {key : String} : ∀ {ds : List RemoteControlDevice},
    secret.compareKeys key ds = .ok () →
    ∀ d ∈ ds, secret.unwrapSessionKey d.sessionKeyWrapped = .ok key
  | [], _, d, hd => by cases hd
  | c :: ds, h, d, hd => by
    simp only [compareKeys, bind_eq_ok] at h
    obtain ⟨found, hf, h⟩ := h
    split at h
    · cases h
    next hs =>
    rcases mem_cons.1 hd with rfl | hd
    · rw [hf, not_not.1 hs]
    · exact compareKeys_eq_ok h d hd

end PairingSecret

namespace PairingWorld

variable {w w' : PairingWorld} {db db' : PairingDb}

variable {d device : RemoteControlDevice} {r : Redemption} {input : StatementInput}
  {pairingId : String} {consumedAt : Timestamp}

theorem exists_bridge_state (h : w.SharesKey secret) (pid : String) :
    ∃ state, secret.loadStoredBridgeState w.db.devices pid = .ok state := by
  obtain ⟨key, hk⟩ := h pid
  obtain ⟨result, hr⟩ := PairingSecret.commonKey_ok _ none hk (by simp)
  exact ⟨_, by rw [PairingSecret.loadStoredBridgeState, hr]; rfl⟩

/-- Every device of `db` is there in `db'` with its key. -/
def Keeps (db db' : PairingDb) : Prop :=
  ∀ d ∈ db.devices, ∃ d' ∈ db'.devices, d'.id = d.id ∧ d'.sessionKeyWrapped = d.sessionKeyWrapped

def HasKey (secret : PairingSecret) (db : PairingDb) (key id : String) : Prop :=
  ∃ d ∈ db.devices, d.id = id ∧ secret.unwrapSessionKey d.sessionKeyWrapped = .ok key

theorem HasKey.keeps {key id : String} (h : HasKey secret db key id) (hkp : Keeps db db') :
    HasKey secret db' key id := by
  obtain ⟨d, hd, rfl, hk⟩ := h
  obtain ⟨d', hd', hid, hw⟩ := hkp d hd
  exact ⟨d', hd', hid, by rw [hw, hk]⟩

theorem mem_active {devices : DeviceTable} {pid : String} : d ∈ devices.active pid ↔
      d ∈ devices ∧ d.principalId = pid ∧ d.revokedAt = none := by
  simp [DeviceTable.active, RemoteControlDevice.activeFor, mem_def]

structure Carries (secret : PairingSecret) (r : Redemption) (device : RemoteControlDevice) :
    Prop where
  principal : device.principalId = r.principalId
  key : secret.unwrapSessionKey device.sessionKeyWrapped = .ok r.request.sessionKey

/-- The devices a redemption has compared with have its key, and so has its own. -/
def Compares (secret : PairingSecret) (db : PairingDb) (r : Redemption) : Prop :=
  match r.stage with
  | .inserting _ compared => ∀ id ∈ compared, HasKey secret db r.request.sessionKey id
  | .consuming _ compared device | .committing _ compared device _ =>
    (∀ id ∈ compared, HasKey secret db r.request.sessionKey id) ∧ Carries secret r device
  | _ => True

theorem Compares.keeps (h : Compares secret db r) (hk : Keeps db db') : Compares secret db' r := by
  unfold Compares at h ⊢
  split
  · next hs =>
    rw [hs] at h
    exact fun id hid => (h id hid).keeps hk
  · next hs =>
    rw [hs] at h
    exact ⟨fun id hid => (h.1 id hid).keeps hk, h.2⟩
  · next hs =>
    rw [hs] at h
    exact ⟨fun id hid => (h.1 id hid).keeps hk, h.2⟩
  · trivial

theorem compares_fail {e : AppError} : Compares secret db (r.fail e) := trivial

theorem compares_validated : Compares secret db r.validated := by
  unfold validated
  split <;> trivial

theorem next_cases {r' : Redemption} {locked : String → Bool}
    (h : r.next secret db locked input = some (db', r')) (hcmp : Compares secret db r) :
    (db' = db ∧ Compares secret db r') ∨ ∃ pairingId compared device consumedAt,
      r.stage = .committing pairingId compared device consumedAt ∧
      commit db pairingId device consumedAt = some db' ∧ Compares secret db' r' := by
  unfold next at h
  split at h
  · split at h <;> cases h
    · exact .inl ⟨rfl, compares_fail⟩
    · exact .inl ⟨rfl, compares_validated⟩
  · split at h
    · cases h
      exact .inl ⟨rfl, compares_fail⟩
    · split at h <;> cases h
      exact .inl ⟨rfl, trivial⟩
  · dsimp only at h
    split at h
    · cases h
      exact .inl ⟨rfl, compares_fail⟩
    · next hco =>
      cases h
      refine .inl ⟨rfl, fun id hid => ?_⟩
      obtain ⟨d, hd, rfl⟩ := mem_map.1 hid
      exact ⟨d, (mem_active.1 hd).1, rfl, PairingSecret.compareKeys_eq_ok hco d hd⟩
  · next hs _ =>
    unfold Compares at hcmp
    rw [hs] at hcmp
    split at h <;> cases h
    · exact .inl ⟨rfl, compares_fail⟩
    · exact .inl ⟨rfl, hcmp, rfl, secret.unwrap_wrap _ _⟩
  · next hs _ =>
    unfold Compares at hcmp
    rw [hs] at hcmp
    cases h
    exact .inl ⟨rfl, hcmp.1, hcmp.2.1, hcmp.2.2⟩
  · next hs _ =>
    obtain ⟨db'', hc, heq⟩ := map_eq_some_iff.1 h
    cases heq
    exact .inr ⟨_, _, _, _, hs, hc, trivial⟩
  · next hs _ =>
    obtain ⟨db'', hc, heq⟩ := map_eq_some_iff.1 h
    cases heq
    exact .inr ⟨_, _, _, _, hs, hc, compares_fail⟩
  · cases h
  · cases h
    exact .inl ⟨rfl, compares_fail⟩

theorem mem_devices_commit (h : commit db pairingId device consumedAt = some db') :
    d ∈ db'.devices ↔ d ∈ db.devices ∨ d = device := by
  obtain ⟨devices, hi, rfl⟩ := map_eq_some_iff.1 h
  exact mem_insert? hi

structure Sound (secret : PairingSecret) (w : PairingWorld) : Prop where
  shares : w.SharesKey secret
  compares : ∀ r ∈ w.redemptions, Compares secret w.db r

theorem SharesKey.commit (h : w.SharesKey secret) {compared : List String}
    {redemptions : List Redemption} (hco : commit w.db pairingId device consumedAt = some db')
    (hcm : ∀ id ∈ compared, HasKey secret w.db r.request.sessionKey id)
    (hca : Carries secret r device)
    (ha : ∀ d ∈ w.db.devices.active r.principalId, d.id ∈ compared) :
    SharesKey secret { db := db', redemptions } := by
  intro principalId
  by_cases ho : principalId = r.principalId
  · subst ho
    refine ⟨r.request.sessionKey, fun d hd => ?_⟩
    obtain ⟨hd, hp, hr⟩ := mem_active.1 hd
    rcases (mem_devices_commit hco).1 hd with hd | rfl
    · obtain ⟨c, hc, hid, hk⟩ := hcm d.id (ha d (mem_active.2 ⟨hd, hp, hr⟩))
      rwa [eq_of_key_eq hc hd hid] at hk
    · exact hca.key
  · obtain ⟨key, hk⟩ := h principalId
    refine ⟨key, fun d hd => ?_⟩
    obtain ⟨hd, hp, hr⟩ := mem_active.1 hd
    rcases (mem_devices_commit hco).1 hd with hd | rfl
    · exact hk d (mem_active.2 ⟨hd, hp, hr⟩)
    · exact absurd (hp.symm.trans hca.principal) ho

theorem Sound.of_devices_eq (h : Sound secret w) (hde : w'.db.devices = w.db.devices)
    (hre : ∀ r ∈ w'.redemptions, r ∈ w.redemptions ∨ Compares secret w'.db r) :
    Sound secret w' where
  shares := by
    intro principalId
    rw [hde]
    exact h.shares principalId
  compares r hr := by
    rcases hre r hr with hr | hr
    · refine (h.compares r hr).keeps fun d hd => ⟨d, ?_, rfl, rfl⟩
      rw [hde]
      exact hd
    · exact hr

theorem evolves_revoke (devices : DeviceTable) (deviceId pid : String) (now : Timestamp) :
    Table.Evolves (fun d d' => d'.id = d.id ∧ d'.sessionKeyWrapped = d.sessionKeyWrapped ∧
        (d'.revokedAt = none → d' = d)) devices (devices.revoke deviceId pid now) :=
  evolves_updateWhere (fun _ _ _ => ⟨rfl, rfl, fun h => by cases h⟩)
    fun _ _ _ => ⟨rfl, rfl, fun _ => rfl⟩

theorem Sound.revoke (h : Sound secret w) (deviceId pid : String) (now : Timestamp)
    (hs : step secret w (.revoke deviceId pid now) = some w') : Sound secret w' := by
  have he := evolves_revoke w.db.devices deviceId pid now
  cases hs
  constructor
  · intro principal
    obtain ⟨key, hk⟩ := h.shares principal
    refine ⟨key, fun d hd => ?_⟩
    obtain ⟨hd, hp, hre⟩ := mem_active.1 hd
    obtain ⟨c, hc, -, -, hsa⟩ := he.exists_source hd
    cases hsa hre
    exact hk d (mem_active.2 ⟨hc, hp, hre⟩)
  · intro r hr
    refine (h.compares r hr).keeps fun d hd => ?_
    obtain ⟨d', hd', hid, hw, -⟩ := he.exists_target hd
    exact ⟨d', hd', hid, hw⟩

theorem Sound.resume (h : Sound secret w) {i : ℕ} (hok : w.comparedAll (.resume i input))
    (hse : step secret w (.resume i input) = some w') : Sound secret w' := by
  simp only [step, Option.bind_eq_bind, bind_eq_some_iff] at hse
  obtain ⟨r, hr, ⟨db', r'⟩, hn, hse⟩ := hse
  cases hse
  have hcmp := h.compares r (mem_of_getElem? hr)
  obtain ⟨rfl, hr'⟩ | ⟨pairingId, compared, device, consumedAt, hst, hc, hr'⟩ := next_cases hn hcmp
  · exact h.of_devices_eq rfl (forall_mem_set (fun _ => .inl) (.inr hr'))
  · unfold Compares at hcmp
    rw [hst] at hcmp
    have ha : ∀ d ∈ w.db.devices.active r.principalId, d.id ∈ compared := by
      simpa [comparedAll, hr, hst] using hok
    refine ⟨h.shares.commit hc hcmp.1 hcmp.2 ha, forall_mem_set (fun s hs => ?_) hr'⟩
    exact (h.compares s hs).keeps fun d hd =>
      ⟨d, (mem_devices_commit hc).2 (.inl hd), rfl, rfl⟩

theorem Sound.step {act : PairingAction} (h : Sound secret w)
    (hok : w.comparedAll act) (hs : step secret w act = some w') :
    Sound secret w' := by
  cases act with simp only [PairingWorld.step] at hs
  | issue pairing =>
    split at hs
    · cases hs
    obtain ⟨pairings, -, rfl⟩ := map_eq_some_iff.1 hs
    exact h.of_devices_eq rfl fun r hr => .inl hr
  | discard pairingId =>
    split at hs <;> cases hs
    exact h.of_devices_eq rfl fun r hr => .inl hr
  | handshake principalId credential deviceName derived =>
    cases hs
    exact h.of_devices_eq rfl (forall_mem_snoc (fun _ => .inl) (.inr trivial))
  | redeem principalId request =>
    cases hs
    exact h.of_devices_eq rfl (forall_mem_snoc (fun _ => .inl) (.inr compares_validated))
  | resume i input => exact h.resume hok hs
  | revoke deviceId principalId now => exact h.revoke deviceId principalId now hs

/-- In every run of handshakes, redemptions, revocations and new pairings in which each redemption
that commits has compared its key with all devices active at that moment, the active devices of
every principal share one key, and `load_stored_bridge_state` succeeds. -/
theorem paired_devices_share_key
    (h : Steps (restrict (step secret) fun w action => w.comparedAll action) {} w)
    (principalId : String) : (∃ key, ∀ d ∈ w.db.devices.active principalId,
      secret.unwrapSessionKey d.sessionKeyWrapped = .ok key) ∧
    ∃ state, secret.loadStoredBridgeState w.db.devices principalId = .ok state := by
  have hs : Sound secret w := by
    refine h.keeps Sound.step ⟨fun principal => ⟨"", ?_⟩, ?_⟩
    · intro d hd
      cases hd
    · intro r hr
      cases hr
  exact ⟨hs.shares principalId, exists_bridge_state hs.shares principalId⟩

def plainSecret : PairingSecret where
  wrapSessionKey _ key := key
  unwrapSessionKey wrapped := .ok wrapped
  unwrap_wrap _ _ := rfl
  credentialHash credential := credential

def repeated (c : Char) (n : ℕ) : String := String.ofList (List.replicate n c)

def credentialOf (c : Char) : String := "v1." ++ repeated c 22 ++ "." ++ repeated c 22

def issueFor (c : Char) : PairingAction :=
  .issue ⟨repeated c 22, "ann", credentialOf c, 600, none⟩

def handshakeOf (c : Char) : PairingAction :=
  .handshake "ann" (credentialOf c) "phone" (repeated c 43)

def redeemed (i : ℕ) : List PairingAction :=
  List.replicate 6 (.resume i { deviceId := repeated 'd' (i + 1) })

theorem paired_devices_share_key_in_turn :
    ∃ w, Steps (restrict (step plainSecret) fun w action => w.comparedAll action) {} w ∧
      (w.db.devices.active "ann").map (·.sessionKeyWrapped) = [repeated 'a' 43, repeated 'a' 43] ∧
      ∃ state, plainSecret.loadStoredBridgeState w.db.devices "ann" = .ok state := by
  refine exists_run_and ([issueFor 'a', issueFor 'b', handshakeOf 'a', handshakeOf 'b'] ++
      redeemed 0 ++ redeemed 1) ?_ fun _ hs _ => (paired_devices_share_key hs "ann").2
  decide +kernel

/-- Two handshakes whose redemptions each compare before the other commits leave two keys, and the
bridge cannot start. -/
theorem overlapping_redemptions_split_key : ∃ w, Steps (step plainSecret) {} w ∧
      (w.db.devices.active "ann").map (·.sessionKeyWrapped) = [repeated 'a' 43, repeated 'b' 43] ∧
      plainSecret.loadStoredBridgeState w.db.devices "ann" =
        .error (.internal "active remote-control devices have inconsistent session keys") := by
  refine exists_run ([issueFor 'a', issueFor 'b', handshakeOf 'a', handshakeOf 'b'] ++
      (List.replicate 6 [.resume 0 { deviceId := "d1" },
        .resume 1 { deviceId := "d2" }]).flatten) ?_
  decide +kernel

end PairingWorld

end Choruz
