import Choruz.RemoteOutbox
import Choruz.Pipeline

/-!
# A shipped command is exposed once

A name has a pending receipt before its file is there and an accepted one after, and an accepted
receipt stays.  So a name whose file was claimed is never published again, and what a retry finds
in the receipts is all it needs.
-/

namespace Choruz

open Relational Function Mirror StoreCall MirrorWorld

variable {prims : ShipPrims} {m : Mirror}

variable {commands : List ShippedOutboxCommand} {ps : List PreparedCommand} {stage : StoreStage}
  {e : PreparedCommand × Bool}

theorem mapM_eq_ok {ε α β : Type} {f : α → Except ε β} : ∀ {as : List α} {bs : List β},
    as.mapM f = .ok bs → (∀ a ∈ as, ∃ b ∈ bs, f a = .ok b) ∧ ∀ b ∈ bs, ∃ a ∈ as, f a = .ok b
  | [], bs, h => by
    cases h
    simp
  | a :: as, bs, h => by
    rw [List.mapM_cons] at h
    obtain ⟨b, hb, h⟩ := bind_eq_ok.1 h
    obtain ⟨bs', hbs, h⟩ := bind_eq_ok.1 h
    cases h
    obtain ⟨hf, hba⟩ := mapM_eq_ok hbs
    constructor
    · intro c hc
      rcases mem_cons.1 hc with rfl | hc
      · exact ⟨b, mem_cons_self, hb⟩
      · obtain ⟨d, hd, hfd⟩ := hf c hc
        exact ⟨d, mem_cons_of_mem _ hd, hfd⟩
    · intro d hd
      rcases mem_cons.1 hd with rfl | hd
      · exact ⟨a, mem_cons_self, hb⟩
      · obtain ⟨c, hc, hfc⟩ := hba d hd
        exact ⟨c, mem_cons_of_mem _ hc, hfc⟩

structure PreparedCommand.Alike (p q : PreparedCommand) : Prop where
  name : q.name = p.name
  digest : q.digest = p.digest

theorem uniqueCommands_eq_ok : ∀ {cmds seen us : List PreparedCommand},
    uniqueCommands seen cmds = .ok us → (seen.map (·.name)).Nodup →
      (us.map (·.name)).Nodup ∧ (∀ q ∈ us, q ∈ seen ∨ q ∈ cmds)
        ∧ (∀ p ∈ seen, p ∈ us) ∧ ∀ p ∈ cmds, ∃ q ∈ us, p.Alike q
  | [], seen, us, h, hnd => by
    cases h
    exact ⟨hnd, fun q hq => .inl hq, fun p hp => hp, by simp⟩
  | p :: cmds, seen, us, h, hnd => by
    simp only [uniqueCommands] at h
    split at h
    next earlier hf =>
      split_ifs at h with hd
      obtain ⟨hnm, hb, hs, hfo⟩ := uniqueCommands_eq_ok h hnd
      refine ⟨hnm, fun q hq => (hb q hq).imp id (mem_cons_of_mem _), hs, ?_⟩
      intro q hq
      rcases mem_cons.1 hq with rfl | hq
      · have hn := find?_some hf
        exact ⟨earlier, hs earlier (mem_of_find?_eq_some hf), of_decide_eq_true hn, not_not.1 hd⟩
      · exact hfo q hq
    next hf =>
      have hnew : ((seen ++ [p]).map (·.name)).Nodup := nodup_map_snoc hnd fun q hq heq =>
          absurd (decide_eq_true heq) (find?_eq_none.1 hf q hq)
      obtain ⟨hnm, hb, hs, hfo⟩ := uniqueCommands_eq_ok h hnew
      refine ⟨hnm, fun q hq => ?_, fun q hq => hs q (mem_append_left _ hq), ?_⟩
      · rcases hb q hq with hq | hq
        · rcases mem_append.1 hq with hq | hq
          · exact .inl hq
          · exact .inr (mem_singleton.1 hq ▸ mem_cons_self)
        · exact .inr (mem_cons_of_mem _ hq)
      · intro q hq
        rcases mem_cons.1 hq with rfl | hq
        · exact ⟨q, hs q (mem_append_right _ (mem_singleton_self q)), rfl, rfl⟩
        · exact hfo q hq

/-- No file of the shipment lies in the outbox. -/
def Outside (commands : List ShippedOutboxCommand) : Prop :=
  ∀ c ∈ commands, ∀ f ∈ c.files, (pathParts f.path).head? ≠ some ".choruz-outbox"

/-- The path is an outbox entry of a command of the shipment. -/
def Owned (prims : ShipPrims) (commands : List ShippedOutboxCommand) (path : List String) : Prop :=
  ∃ c ∈ commands, ∃ p, prepareShippedCommand prims c = .ok p
    ∧ path ∈ [newPath p.name, pendingPath p.name, acceptedPath p.name]

theorem Outside.file (ho : Outside commands) {c : ShippedOutboxCommand} {p : PreparedCommand}
    (hc : c ∈ commands) (h : prepareShippedCommand prims c = .ok p) {f : String × String}
    (hf : f ∈ p.files) : (pathParts f.1).head? ≠ some ".choruz-outbox" := by
  unfold prepareShippedCommand at h
  split at h
  · cases h
  obtain ⟨files, hfi, h⟩ := bind_eq_ok.1 h
  cases h
  obtain ⟨g, hg, hfg⟩ := (mapM_eq_ok hfi).2 f hf
  unfold prepareShippedFile at hfg
  split_ifs at hfg
  split at hfg
  · cases hfg
  split_ifs at hfg
  cases hfg
  exact ho c hc g hg

/-- What a prepared shipment holds. -/
structure Prepares (prims : ShipPrims) (commands : List ShippedOutboxCommand)
    (ps : List PreparedCommand) : Prop where
  nodup : (ps.map (·.name)).Nodup
  source : ∀ p ∈ ps, ∃ c ∈ commands, prepareShippedCommand prims c = .ok p
  covers : ∀ c ∈ commands, ∃ p, prepareShippedCommand prims c = .ok p ∧ ∃ q ∈ ps, p.Alike q

theorem prepareShipment_eq_ok (h : prepareShipment prims commands = .ok ps) :
    Prepares prims commands ps := by
  unfold prepareShipment at h
  split_ifs at h
  obtain ⟨prepared, hpr, h⟩ := bind_eq_ok.1 h
  obtain ⟨hf, hb⟩ := mapM_eq_ok hpr
  obtain ⟨hn, hu, -, hcov⟩ := uniqueCommands_eq_ok h (by simp)
  refine ⟨hn, fun p hp => hb p ((hu p hp).resolve_left (by simp)), fun c hc => ?_⟩
  obtain ⟨p, hp, hpc⟩ := hf c hc
  obtain ⟨q, hq, ha⟩ := hcov p hp
  exact ⟨p, hpc, q, hq, ha⟩

theorem Prepares.digest_eq (h : Prepares prims commands ps) {c1 c2 : ShippedOutboxCommand}
    (hc1 : c1 ∈ commands) (hc2 : c2 ∈ commands) {p1 p2 : PreparedCommand}
    (hp1 : prepareShippedCommand prims c1 = .ok p1)
    (hp2 : prepareShippedCommand prims c2 = .ok p2) (hn : p1.name = p2.name) :
    p1.digest = p2.digest := by
  obtain ⟨p, hp, q1, hq1, ha1⟩ := h.covers c1 hc1
  cases hp1.symm.trans hp
  obtain ⟨p, hp, q2, hq2, ha2⟩ := h.covers c2 hc2
  cases hp2.symm.trans hp
  have hq : q1 = q2 := inj_on_of_nodup_map h.nodup hq1 hq2 (by rw [ha1.name, ha2.name, hn])
  rw [← ha1.digest, ← ha2.digest, hq]

namespace Mirror

variable {n d : String}


@[simp] theorem write_new : (m.write (newPath n) d).new = update m.new n (some d)
    ∧ (m.write (newPath n) d).pending = m.pending
    ∧ (m.write (newPath n) d).accepted = m.accepted := by
  refine ⟨funext fun k => ?_, rfl, rfl⟩
  simp [write, new, newPath, update_apply]

@[simp] theorem write_pending : (m.write (pendingPath n) d).new = m.new
    ∧ (m.write (pendingPath n) d).pending = update m.pending n (some d)
    ∧ (m.write (pendingPath n) d).accepted = m.accepted := by
  refine ⟨rfl, funext fun k => ?_, rfl⟩
  simp [write, pending, pendingPath, update_apply]

@[simp] theorem write_accepted : (m.write (acceptedPath n) d).new = m.new
    ∧ (m.write (acceptedPath n) d).pending = m.pending
    ∧ (m.write (acceptedPath n) d).accepted = update m.accepted n (some d) := by
  refine ⟨rfl, rfl, funext fun k => ?_⟩
  simp [write, accepted, acceptedPath, update_apply]

@[simp] theorem remove_new : (m.remove (newPath n)).new = update m.new n none
    ∧ (m.remove (newPath n)).pending = m.pending
    ∧ (m.remove (newPath n)).accepted = m.accepted := by
  refine ⟨funext fun k => ?_, rfl, rfl⟩
  simp [remove, new, newPath, update_apply]

@[simp] theorem remove_pending : (m.remove (pendingPath n)).new = m.new
    ∧ (m.remove (pendingPath n)).pending = update m.pending n none
    ∧ (m.remove (pendingPath n)).accepted = m.accepted := by
  refine ⟨rfl, funext fun k => ?_, rfl⟩
  simp [remove, pending, pendingPath, update_apply]

theorem eq_of_write {path p : List String} (h : (m.write path d).files p ≠ m.files p) : p = path :=
  by_contra fun hp => h (if_neg hp)

theorem write_outside {path : List String} (h : path.head? ≠ some ".choruz-outbox") :
    (m.write path d).new = m.new ∧ (m.write path d).pending = m.pending
      ∧ (m.write path d).accepted = m.accepted := by
  have hne : ∀ rest, ".choruz-outbox" :: rest ≠ path := by
    rintro rest rfl
    exact h rfl
  refine ⟨funext fun k => ?_, funext fun k => ?_, funext fun k => ?_⟩ <;> exact if_neg (hne _)

/-- The receipts tell which commands are published and which are claimed. -/
structure Ledger (m : Mirror) (claimed : List String) : Prop where
  receipt : ∀ n, (m.new n).isSome → (m.pending n).isSome ∨ (m.accepted n).isSome
  exclusive : ∀ n, (m.accepted n).isSome → m.pending n = none
  kept : ∀ n, (m.accepted n).isSome → (m.new n).isSome ∨ n ∈ claimed
  consumed : ∀ n ∈ claimed, (m.accepted n).isSome ∧ m.new n = none

/-- What the check of a command has found, and stays true while the lock is held. -/
def Entry (m : Mirror) : PreparedCommand × Bool → Prop
  | (p, true) => m.accepted p.name = some p.digest
  | (p, false) => m.accepted p.name = none ∧ ∀ d ∈ m.pending p.name, d = p.digest

theorem Entry.congr {m' : Mirror} (h : m.Entry e) (hp : m'.pending e.1.name = m.pending e.1.name)
    (ha : m'.accepted e.1.name = m.accepted e.1.name) : m'.Entry e := by
  obtain ⟨p, _ | _⟩ := e
  · exact ⟨ha.trans h.1, hp ▸ h.2⟩
  · exact ha.trans h

theorem checkReceipts_eq_ok {p : PreparedCommand} {accepted : Bool}
    (h : m.checkReceipts p = .ok accepted) : m.Entry (p, accepted) := by
  unfold checkReceipts at h
  split at h
  next ha =>
    split_ifs at h with hd
    cases h
    exact ha.trans (by rw [not_not.1 hd])
  next digest ha hp =>
    split_ifs at h with hd
    cases h
    refine ⟨ha, fun d hd' => ?_⟩
    cases hp.symm.trans hd'
    exact not_not.1 hd
  next ha hp =>
    cases h
    exact ⟨ha, by simp [hp]⟩

def Receipt (m : Mirror) (n d : String) : Prop := m.accepted n = some d ∨ m.pending n = some d

theorem checkReceipts_of_reused {p : PreparedCommand} (h : m.Receipt p.name d) (hd : d ≠ p.digest) :
    ∃ text, m.checkReceipts p = .error (.conflict text) := by
  unfold checkReceipts
  rcases hacc : m.accepted p.name with _ | a
  · have hp : m.pending p.name = some d := h.resolve_left (by simp [hacc])
    simp [hp, hd, reusedName]
  · by_cases ha : a = p.digest
    · have hp : m.pending p.name = some d := by
        rcases h with h | h
        · cases hacc.symm.trans h
          exact absurd ha hd
        · exact h
      simp [hp, hd, ha]
    · simp [ha, reusedName]

end Mirror

/-- What is left to store of a shipment, and that the rest is accepted. -/
structure Rest (prims : ShipPrims) (m : Mirror) (commands : List ShippedOutboxCommand)
    (todo : List (PreparedCommand × Bool)) : Prop where
  nodup : (todo.map (·.1.name)).Nodup
  entry : ∀ e ∈ todo, m.Entry e
  source : ∀ e ∈ todo, ∃ c ∈ commands, prepareShippedCommand prims c = .ok e.1
  covers : ∀ c ∈ commands, ∃ p, prepareShippedCommand prims c = .ok p
    ∧ (m.accepted p.name = some p.digest ∨ ∃ e ∈ todo, p.Alike e.1)

namespace Rest

variable {m' : Mirror} {commands : List ShippedOutboxCommand} {q : PreparedCommand} {b : Bool}
  {todo : List (PreparedCommand × Bool)}

theorem name_ne (h : Rest prims m commands ((q, b) :: todo)) (he : e ∈ todo) : e.1.name ≠ q.name := by
  have hn := h.nodup
  rw [map_cons, nodup_cons] at hn
  exact fun heq => hn.1 (heq ▸ mem_map_of_mem he)

theorem tail (h : Rest prims m commands ((q, b) :: todo))
    (hpe : ∀ n, n ≠ q.name → m'.pending n = m.pending n)
    (hacc : ∀ n, n ≠ q.name → m'.accepted n = m.accepted n)
    (hq : m'.accepted q.name = some q.digest)
    (hm : ∀ n d, m.accepted n = some d → m'.accepted n = some d) : Rest prims m' commands todo := by
  refine ⟨?_, fun e he => ?_, fun e he => h.source e (mem_cons_of_mem _ he), fun c hc => ?_⟩
  · have hn := h.nodup
    rw [map_cons, nodup_cons] at hn
    exact hn.2
  · exact (h.entry e (mem_cons_of_mem _ he)).congr (hpe _ (h.name_ne he)) (hacc _ (h.name_ne he))
  · obtain ⟨p, hp, ha | ⟨e, he, hal⟩⟩ := h.covers c hc
    · exact ⟨p, hp, .inl (hm _ _ ha)⟩
    · rcases mem_cons.1 he with rfl | he
      · exact ⟨p, hp, .inl (by rw [← hal.name, ← hal.digest]; exact hq)⟩
      · exact ⟨p, hp, .inr ⟨e, he, hal⟩⟩

theorem of_pending (h : Rest prims m commands ((q, false) :: todo))
    (hq : m'.pending q.name = some q.digest) (hp : ∀ n, n ≠ q.name → m'.pending n = m.pending n)
    (ha : m'.accepted = m.accepted) : Rest prims m' commands ((q, false) :: todo) := by
  refine ⟨h.nodup, fun e he => ?_, h.source, fun c hc => ?_⟩
  · rcases mem_cons.1 he with rfl | he
    · refine ⟨ha ▸ (h.entry _ mem_cons_self).1, fun d hd => ?_⟩
      rw [hq] at hd
      exact (Option.some.inj hd).symm
    · exact (h.entry e (mem_cons_of_mem _ he)).congr (hp _ (h.name_ne he)) (by rw [ha])
  · rw [ha]
    exact h.covers c hc

end Rest

/-- What holds of a call at a stage. -/
def StoreCall.SoundAt (prims : ShipPrims) (m : Mirror) (call : StoreCall) : StoreStage → Prop
  | .start => call.wrote = false
  | .checking todo checked => call.wrote = false
      ∧ (checked.map (·.1.name) ++ todo.map (·.name)).Nodup ∧ (∀ e ∈ checked, m.Entry e)
      ∧ (∀ p ∈ checked.map (·.1) ++ todo, ∃ c ∈ call.commands,
        prepareShippedCommand prims c = .ok p)
      ∧ ∀ c ∈ call.commands, ∃ p, prepareShippedCommand prims c = .ok p
        ∧ ∃ q ∈ checked.map (·.1) ++ todo, p.Alike q
  | .next todo => Rest prims m call.commands todo
  | .sharing command files todo => Rest prims m call.commands ((command, false) :: todo)
      ∧ m.pending command.name = some command.digest ∧ files ⊆ command.files
  | .accepting command todo => Rest prims m call.commands ((command, false) :: todo)
      ∧ m.pending command.name = some command.digest ∧ (m.new command.name).isSome
  | .returned (.ok _) => ∀ c ∈ call.commands, ∃ p, prepareShippedCommand prims c = .ok p
      ∧ m.accepted p.name = some p.digest
  | .returned (.error _) | .crashed => True

@[simp] theorem StoreCall.goto_commands (call : StoreCall) (stage : StoreStage) :
    (call.goto stage).commands = call.commands := rfl

theorem StoreCall.SoundAt.of_unlocked {call : StoreCall} {m' : Mirror}
    (h : call.SoundAt prims m stage) (hl : stage.locked = false)
    (hacc : ∀ n d, m.accepted n = some d → m'.accepted n = some d) :
    call.SoundAt prims m' stage := by
  cases stage with
  | returned answer =>
    cases answer with
    | ok _ =>
      intro c hc
      obtain ⟨p, hp, ha⟩ := h c hc
      exact ⟨p, hp, hacc _ _ ha⟩
    | error _ => trivial
  | start | crashed => exact h
  | _ => cases hl

theorem StoreCall.SoundAt.of_receipts {call : StoreCall} {m' : Mirror}
    (h : call.SoundAt prims m stage) (hpe : m'.pending = m.pending)
    (hacc : m'.accepted = m.accepted)
    (hn : ∀ n, m.accepted n = none → m'.new n = m.new n) : call.SoundAt prims m' stage := by
  have hent : ∀ {e}, m.Entry e → m'.Entry e := fun he =>
    he.congr (by rw [hpe]) (by rw [hacc])
  have hre : ∀ {todo}, Rest prims m call.commands todo → Rest prims m' call.commands todo :=
    fun hr => ⟨hr.nodup, fun e he => hent (hr.entry e he), hr.source, hacc ▸ hr.covers⟩
  cases stage with
  | start | crashed => exact h
  | checking todo checked =>
    obtain ⟨hw, hnd, hch, hcov⟩ := h
    exact ⟨hw, hnd, fun e he => hent (hch e he), hcov⟩
  | next todo => exact hre h
  | sharing q files todo => exact ⟨hre h.1, hpe ▸ h.2.1, h.2.2⟩
  | accepting q todo =>
    refine ⟨hre h.1, hpe ▸ h.2.1, ?_⟩
    rw [hn _ (h.1.entry _ mem_cons_self).1]
    exact h.2.2
  | returned answer =>
    cases answer with
    | ok _ =>
      intro c hc
      obtain ⟨p, hp, ha⟩ := h c hc
      exact ⟨p, hp, hacc ▸ ha⟩
    | error _ => trivial

/-- What a file operation of a call does. -/
structure OpEffect (prims : ShipPrims) (claimed : List String) (free : Bool) (m : Mirror)
    (call : StoreCall) (m' : Mirror) (call' : StoreCall) : Prop where
  ledger : m'.Ledger claimed
  sound : call'.SoundAt prims m' call'.stage
  commands : call'.commands = call.commands
  accepted : ∀ n d, m.accepted n = some d → m'.accepted n = some d
  receipts : ∀ n d, m.Receipt n d → m'.Receipt n d
  unlocked : call.stage.locked = false → m' = m
  lock : call'.stage.locked → call.stage.locked ∨ free
  wrote : call'.wrote = false → m' = m ∧ call.wrote = false
  outbox : ∀ path, path.head? = some ".choruz-outbox" → m'.files path ≠ m.files path →
    Owned prims call.commands path

section Operation

variable {claimed : List String} {free : Bool} {call call' : StoreCall} {m' : Mirror}

variable {error? : Option String} {todo : List (PreparedCommand × Bool)} {q : PreparedCommand}

theorem OpEffect.of_goto (hled : m.Ledger claimed) (hs : (call.goto stage).SoundAt prims m stage)
    (hl : stage.locked → call.stage.locked ∨ free) :
    OpEffect prims claimed free m call m (call.goto stage) :=
  ⟨hled, hs, rfl, fun _ _ h => h, fun _ _ h => h, fun _ => rfl, hl, fun h => ⟨rfl, h⟩,
    fun _ _ h => absurd rfl h⟩

theorem OpEffect.of_fail (e : AppError) (hled : m.Ledger claimed) :
    OpEffect prims claimed free m call m (call.fail e) := .of_goto hled trivial fun h => nomatch h

theorem OpEffect.of_wrote (hl : call.stage.locked)
    (hled : m'.Ledger claimed) (hs : (call.gotoWrote stage).SoundAt prims m' stage)
    (ha : ∀ n d, m.accepted n = some d → m'.accepted n = some d)
    (hr : ∀ n d, m.Receipt n d → m'.Receipt n d)
    (ho : ∀ path, path.head? = some ".choruz-outbox" → m'.files path ≠ m.files path →
      Owned prims call.commands path) :
    OpEffect prims claimed free m call m' (call.gotoWrote stage) := by
  refine ⟨hled, hs, rfl, ha, hr, fun h => ?_, fun _ => .inl hl, fun h => (nomatch h), ho⟩
  cases hl.symm.trans h

section

variable (hled : m.Ledger claimed) (h : call.operation prims m free error? = some (m', call'))
include hled h

theorem start_effect (hs : call.SoundAt prims m .start)
    (hst : call.stage = .start) : OpEffect prims claimed free m call m' call' := by
  simp [operation, hst] at h
  split at h
  · cases h
    exact .of_fail _ hled
  next ps hps =>
    have hp := prepareShipment_eq_ok hps
    split_ifs at h with hf
    split at h <;> cases h
    · exact .of_fail _ hled
    · refine .of_goto hled ⟨hs, by simpa using hp.nodup, by simp, ?_, ?_⟩
        fun _ => .inr (by simpa using hf)
      · simpa using hp.source
      · simpa using hp.covers

theorem checking_effect {todo : List PreparedCommand} {checked : List (PreparedCommand × Bool)}
    (hsnd : call.SoundAt prims m (.checking todo checked)) (hst : call.stage = .checking todo checked) :
    OpEffect prims claimed free m call m' call' := by
  have hl : call.stage.locked := hst ▸ rfl
  obtain ⟨hw, hn, hent, hs, hcov⟩ := hsnd
  cases todo with
  | nil =>
    simp only [operation, hst] at h
    cases h
    refine .of_goto hled ⟨by simpa using hn, hent, fun e he => ?_, fun c hc => ?_⟩ fun _ => .inl hl
    · exact hs e.1 (mem_append_left _ (mem_map_of_mem he))
    · obtain ⟨p, hp, q, hq, ha⟩ := hcov c hc
      rw [append_nil] at hq
      obtain ⟨e, he, rfl⟩ := mem_map.1 hq
      exact ⟨p, hp, .inr ⟨e, he, ha⟩⟩
  | cons q todo =>
    simp [operation, hst] at h
    split at h <;> cases h
    · exact .of_fail _ hled
    · exact .of_fail _ hled
    next accepted hch =>
      refine .of_goto hled ⟨hw, by simpa using hn,
        forall_mem_snoc hent (checkReceipts_eq_ok hch), ?_, ?_⟩ fun _ => .inl hl
      · simpa using hs
      · simpa using hcov

theorem step_next (hsnd : call.SoundAt prims m (.next todo))
    (hst : call.stage = .next todo) : OpEffect prims claimed free m call m' call' := by
  have hl : call.stage.locked := hst ▸ rfl
  rcases todo with _ | ⟨⟨q, _ | _⟩, todo⟩
  · simp only [operation, hst] at h
    cases h
    refine .of_goto hled (fun c hc => ?_) fun h => nomatch h
    obtain ⟨p, hp, ha | ⟨e, he, -⟩⟩ := hsnd.covers c hc
    · exact ⟨p, hp, ha⟩
    · cases he
  · obtain ⟨hacc, hpe⟩ := hsnd.entry _ mem_cons_self
    obtain ⟨c, hc, hq⟩ := hsnd.source _ mem_cons_self
    simp only [operation, hst] at h
    split at h
    next hs =>
      cases h
      obtain ⟨d, hd⟩ := isSome_iff_exists.1 hs
      refine .of_goto hled ⟨hsnd, ?_, List.Subset.refl _⟩ fun _ => .inl hl
      rw [hd, hpe d hd]
    next hno =>
      split at h <;> cases h
      · exact .of_fail _ hled
      · refine .of_wrote hl ⟨fun n hn => ?_, fun n hn => ?_, fun n hn => ?_, fun n hn => ?_⟩
          ⟨?_, by simp, List.Subset.refl _⟩ (fun n d hd => by simpa using hd) (fun n d hd => ?_)
          fun path _ hne => ⟨c, hc, q, hq, by simp [m.eq_of_write hne]⟩
        · by_cases hna : n = q.name
          · exact .inl (by simp [hna])
          · simpa [hna] using hled.receipt n (by simpa using hn)
        · by_cases hna : n = q.name
          · simp [hna, hacc] at hn
          · simpa [hna] using hled.exclusive n (by simpa using hn)
        · simpa using hled.kept n (by simpa using hn)
        · simpa using hled.consumed n hn
        · exact hsnd.of_pending (by simp) (fun n hn => by simp [hn]) write_pending.2.2
        · refine hd.imp (by simp) fun hp => ?_
          have hna : n ≠ q.name := by
            rintro rfl
            simp [hp] at hno
          simpa [hna] using hp
  · have hacc := hsnd.entry _ mem_cons_self
    have hpe : m.pending q.name = none := hled.exclusive q.name (by
      rw [show m.accepted q.name = some q.digest from hacc]
      rfl)
    simp only [operation, hst, hpe, Option.isNone_none, Bool.or_true] at h
    cases h
    exact .of_goto hled (hsnd.tail (fun _ _ => rfl) (fun _ _ => rfl)
      hacc fun _ _ h => h) fun _ => .inl hl

theorem sharing_effect (ho : Outside call.commands) {files : List (String × String)}
    (hs : call.SoundAt prims m (.sharing q files todo)) (hst : call.stage = .sharing q files todo) :
    OpEffect prims claimed free m call m' call' := by
  have hl : call.stage.locked := hst ▸ rfl
  obtain ⟨hr, hpn, hfi⟩ := hs
  obtain ⟨c, hc, hq⟩ := hr.source _ mem_cons_self
  rcases files with _ | ⟨⟨path, bytes⟩, files⟩ <;>
    simp [operation, hst] at h <;> split at h <;> cases h
  · exact .of_fail _ hled
  · refine .of_wrote hl ⟨fun n hn => ?_, fun n hn => ?_, fun n hn => ?_, fun n hn => ?_⟩
      ⟨?_, by simpa using hpn, by simp⟩ (fun n d hd => by simpa using hd)
      (fun n d hd => by simpa [Mirror.Receipt] using hd)
      fun path _ hne => ⟨c, hc, q, hq, by simp [m.eq_of_write hne]⟩
    · by_cases hna : n = q.name
      · exact .inl (by simp [hna, hpn])
      · simpa using hled.receipt n (by simpa [hna] using hn)
    · simpa using hled.exclusive n (by simpa using hn)
    · by_cases hna : n = q.name
      · exact .inl (by simp [hna])
      · simpa [hna] using hled.kept n (by simpa using hn)
    · obtain ⟨ha, hnew⟩ := hled.consumed n hn
      have hna : n ≠ q.name := by
        rintro rfl
        rw [(hr.entry _ mem_cons_self).1] at ha
        cases ha
      exact ⟨by simpa using ha, by simpa [hna] using hnew⟩
    · exact hr.of_pending (by simpa using hpn) (by simp) write_new.2.2
  · exact .of_fail _ hled
  · have hpa : (pathParts path).head? ≠ some ".choruz-outbox" := ho.file hc hq (hfi mem_cons_self)
    obtain ⟨hnew, hpe, hacc⟩ := write_outside (m := m) (d := bytes) hpa
    refine .of_wrote hl ⟨?_, ?_, ?_, ?_⟩ ⟨?_, ?_, fun f hf =>
      hfi (mem_cons_of_mem _ hf)⟩ (fun n d hd => by rwa [hacc]) (fun n d hd => ?_)
      fun p hp hne => absurd (m.eq_of_write hne ▸ hp) hpa
    · rw [hnew, hpe, hacc]
      exact hled.receipt
    · rw [hpe, hacc]
      exact hled.exclusive
    · rw [hnew, hacc]
      exact hled.kept
    · rw [hnew, hacc]
      exact hled.consumed
    · exact hr.of_pending (by rw [hpe, hpn]) (fun n _ => by rw [hpe]) hacc
    · rw [hpe, hpn]
    · rwa [Mirror.Receipt, hpe, hacc]

theorem accepting_effect
    (hs : call.SoundAt prims m (.accepting q todo)) (hst : call.stage = .accepting q todo) :
    OpEffect prims claimed free m call m' call' := by
  have hl : call.stage.locked := hst ▸ rfl
  obtain ⟨hr, hpe, hnew⟩ := hs
  obtain ⟨c, hc, hq⟩ := hr.source _ mem_cons_self
  have hno : m.accepted q.name = none := (hr.entry _ mem_cons_self).1
  simp only [operation, hst, hpe] at h
  split at h
  · cases h
    exact .of_fail _ hled
  next heq =>
    cases heq
  next digest heq =>
    cases heq
    cases h
    have hm : ∀ n d, m.accepted n = some d →
        ((m.remove (pendingPath q.name)).write (acceptedPath q.name)
          q.digest).accepted n = some d := by
      intro n d hd
      have hna : n ≠ q.name := by
        rintro rfl
        cases hno.symm.trans hd
      simpa [hna] using hd
    refine .of_wrote hl ⟨fun n hn => ?_, fun n hn => ?_, fun n hn => ?_, fun n hn => ?_⟩ ?_
      hm (fun n d hd => ?_) fun path _ hne => ⟨c, hc, q, hq, by_contra fun hp => hne ?_⟩
    · by_cases hna : n = q.name
      · exact .inr (by simp [hna])
      · simpa [hna] using hled.receipt n (by simpa using hn)
    · by_cases hna : n = q.name
      · simp [hna]
      · simpa [hna] using hled.exclusive n (by simpa [hna] using hn)
    · by_cases hna : n = q.name
      · exact .inl (by simpa [hna] using hnew)
      · simpa using hled.kept n (by simpa [hna] using hn)
    · obtain ⟨ha, hn'⟩ := hled.consumed n hn
      obtain ⟨d, hd⟩ := isSome_iff_exists.1 ha
      exact ⟨by rw [hm n d hd]; rfl, by simpa using hn'⟩
    · refine hr.tail (fun n hn => ?_) (fun n hn => ?_) ?_ hm
      · simp [hn]
      · simp [hn]
      · simp
    · rcases hd with hd | hd
      · exact .inl (hm n d hd)
      · by_cases hna : n = q.name
        · subst hna
          rw [hpe] at hd
          exact .inl (by simpa using hd)
        · exact .inr (by simpa [hna] using hd)
    · simp only [mem_cons, not_or] at hp
      exact (if_neg hp.2.2.1).trans (if_neg hp.2.1)

theorem operation_effect (ho : Outside call.commands) (hs : call.SoundAt prims m call.stage) :
    OpEffect prims claimed free m call m' call' := by
  rcases hst : call.stage with _ | ⟨todo, checked⟩ | todo | ⟨q, files, todo⟩ | ⟨q, todo⟩ | _ | _ <;>
    rw [hst] at hs
  · exact start_effect hled h hs hst
  · exact checking_effect hled h hs hst
  · exact step_next hled h hs hst
  · exact sharing_effect hled h ho hs hst
  · exact accepting_effect hled h hs hst
  · simp only [operation, hst] at h
    cases h
  · simp only [operation, hst] at h
    cases h

end

end Operation

namespace MirrorWorld

variable {w w' : MirrorWorld} {action : MirrorAction} {i : ℕ}

variable {n : String} {error? : Option String} {p : PreparedCommand} {d : String}

structure Inv (prims : ShipPrims) (w : MirrorWorld) : Prop where
  ledger : w.mirror.Ledger w.claimed
  listed : ∀ n ∈ w.listed, (w.mirror.accepted n).isSome
  claimed : w.claimed.Nodup
  outside : ∀ call ∈ w.calls, Outside call.commands
  sound : ∀ call ∈ w.calls, call.SoundAt prims w.mirror call.stage
  single : ∀ i call, w.calls[i]? = some call → call.stage.locked → w.free i

theorem inv_init : Inv prims {} where
  ledger := ⟨fun _ h => (nomatch h), fun _ h => (nomatch h), fun _ h => (nomatch h), by simp⟩
  listed := by simp
  claimed := nodup_nil
  outside := by simp
  sound := by simp
  single := by simp

theorem free_iff : w.free i ↔
    ∀ j call, j ≠ i → w.calls[j]? = some call → call.stage.locked = false := by
  simp only [free, all_eq_true, List.mem_eraseIdx_iff_getElem?, Bool.not_eq_true']
  exact ⟨fun h j call hj hc => h call ⟨j, hj, hc⟩, fun h call ⟨j, hj, hc⟩ => h j call hj hc⟩

/-- What every step keeps of the receipts and the claims. -/
structure Keeps (w w' : MirrorWorld) : Prop where
  accepted : ∀ n d, w.mirror.accepted n = some d → w'.mirror.accepted n = some d
  receipts : ∀ n d, w.mirror.Receipt n d → w'.mirror.Receipt n d
  claimed : ∀ n ∈ w.claimed, n ∈ w'.claimed

theorem Keeps.of_mirror (hm : w'.mirror = w.mirror) (hc : w'.claimed = w.claimed) : w.Keeps w' :=
  ⟨fun _ _ h => hm ▸ h, fun _ _ h => hm ▸ h, fun _ h => hc ▸ h⟩

theorem claimable_iff {m : Mirror} : m.claimable n ↔
    (m.new n).isSome ∧ extension? n = some "json" ∧ m.pending n = none := by
  simp only [claimable, and_eq_true, decide_eq_true_eq]
  refine and_congr_right fun _ => and_congr_right fun he => ?_
  simp [outboxCommandIsReady, he]

section

variable (h : w.Inv prims)
include h

theorem Inv.begin_step {commands : List ShippedOutboxCommand}
    (hco : w.filesOutside (.begin commands)) :
    Inv prims { w with calls := w.calls ++ [⟨commands, .start, false⟩] } := by
  refine ⟨h.ledger, h.listed, h.claimed, forall_mem_snoc h.outside fun c hc f hf => ?_,
    forall_mem_snoc h.sound rfl, fun j call hj hl => free_iff.2 fun k c hk hc => ?_⟩
  · have ha := all_eq_true.1 (all_eq_true.1 hco c hc) f hf
    exact of_decide_eq_true ha
  · rcases getElem?_snoc_cases hc with hc | rfl
    · rcases getElem?_snoc_cases hj with hj | rfl
      · exact free_iff.1 (h.single j call hj hl) k c hk hc
      · cases hl
    · rfl

theorem Inv.call_effect (hs : w.step prims (.call i error?) = some w') : ∃ m call call',
    w.calls[i]? = some call ∧ w' = { w with mirror := m, calls := w.calls.set i call' }
      ∧ call.operation prims w.mirror (w.free i) error? = some (m, call')
      ∧ OpEffect prims w.claimed (w.free i) w.mirror call m call' := by
  obtain ⟨call, hi, hs⟩ := bind_eq_some_iff.1 hs
  obtain ⟨⟨m, call'⟩, ho, rfl⟩ := map_eq_some_iff.1 hs
  have hc := mem_of_getElem? hi
  exact ⟨m, call, call', hi, rfl, ho,
    operation_effect h.ledger ho (h.outside call hc) (h.sound call hc)⟩

theorem Inv.call_step (hs : w.step prims (.call i error?) = some w') : w'.Inv prims ∧ w.Keeps w' := by
  obtain ⟨m, call, call', hi, rfl, -, he⟩ := h.call_effect hs
  have hca := mem_of_getElem? hi
  have ho : ∀ j c, j ≠ i → w.calls[j]? = some c → c.SoundAt prims m c.stage := by
    intro j c hj hc
    have hsnd := h.sound c (mem_of_getElem? hc)
    rcases hl : call.stage.locked with _ | _
    · rw [he.unlocked hl]
      exact hsnd
    · exact hsnd.of_unlocked (free_iff.1 (h.single i call hi hl) j c hj hc) he.accepted
  have hf : call'.stage.locked → w.free i := fun hl =>
    (he.lock hl).elim (h.single i call hi) id
  refine ⟨⟨he.ledger, fun n hn => ?_, h.claimed, fun c hc => ?_, fun c hc => ?_,
    fun j c hj hl => free_iff.2 fun k b hk hb => ?_⟩, he.accepted, he.receipts, fun _ hn => hn⟩
  · obtain ⟨d, hd⟩ := isSome_iff_exists.1 (h.listed n hn)
    exact isSome_iff_exists.2 ⟨d, he.accepted n d hd⟩
  · obtain ⟨j, hj⟩ := List.mem_iff_getElem?.1 hc
    rcases getElem?_set_cases hj with ⟨-, rfl⟩ | ⟨-, hj⟩
    · rw [he.commands]
      exact h.outside call hca
    · exact h.outside c (mem_of_getElem? hj)
  · obtain ⟨j, hj⟩ := List.mem_iff_getElem?.1 hc
    rcases getElem?_set_cases hj with ⟨-, rfl⟩ | ⟨hne, hj⟩
    · exact he.sound
    · exact ho j c hne hj
  · rcases getElem?_set_cases hj with ⟨rfl, rfl⟩ | ⟨hne, hjc⟩ <;>
      rcases getElem?_set_cases hb with ⟨rfl, rfl⟩ | ⟨hne', hkb⟩
    · exact absurd rfl hk
    · exact free_iff.1 (hf hl) k b hk hkb
    · by_contra hbl
      rw [Bool.not_eq_false] at hbl
      have hf' := free_iff.1 (hf hbl) j c hne hjc
      cases hl.symm.trans hf'
    · exact free_iff.1 (h.single j c hjc hl) k b hk hkb

theorem Inv.crash_step : Inv prims { w with calls := w.calls.map (·.crash) } := by
  have hcr : ∀ call : StoreCall, call.crash.stage.locked = false
      ∧ call.crash.commands = call.commands ∧ (call.SoundAt prims w.mirror call.stage →
        call.crash.SoundAt prims w.mirror call.crash.stage) := by
    intro call
    unfold crash
    split
    next answer hst =>
      rw [hst]
      exact ⟨rfl, rfl, fun h => h⟩
    · exact ⟨rfl, rfl, fun _ => trivial⟩
  refine ⟨h.ledger, h.listed, h.claimed, fun c hc => ?_, fun c hc => ?_, fun j c hj hl => ?_⟩
  · obtain ⟨call, hca, rfl⟩ := mem_map.1 hc
    rw [(hcr call).2.1]
    exact h.outside call hca
  · obtain ⟨call, hca, rfl⟩ := mem_map.1 hc
    exact (hcr call).2.2 (h.sound call hca)
  · obtain ⟨call, -, rfl⟩ := mem_map.1 (mem_of_getElem? hj)
    rw [(hcr call).1] at hl
    cases hl

theorem Inv.claim_step (hn : n ∈ w.listed) (hnew : (w.mirror.new n).isSome) : Inv prims { w with
      mirror := w.mirror.remove (newPath n)
      listed := w.listed.erase n
      claimed := n :: w.claimed } := by
  have hacc := h.listed n hn
  refine ⟨⟨fun k hk => ?_, fun k hk => ?_, fun k hk => ?_, fun k hk => ?_⟩, fun k hk => ?_, ?_,
    h.outside, fun call hc => ?_, h.single⟩
  · by_cases hkn : k = n
    · simp [hkn] at hk
    · simpa using h.ledger.receipt k (by simpa [hkn] using hk)
  · simpa using h.ledger.exclusive k (by simpa using hk)
  · by_cases hkn : k = n
    · exact .inr (hkn ▸ mem_cons_self)
    · rcases h.ledger.kept k (by simpa using hk) with hk | hk
      · exact .inl (by simpa [hkn] using hk)
      · exact .inr (mem_cons_of_mem _ hk)
  · rcases mem_cons.1 hk with rfl | hk
    · exact ⟨by simpa using hacc, by simp⟩
    · obtain ⟨ha, hno⟩ := h.ledger.consumed k hk
      exact ⟨by simpa using ha, by simp [update_apply, hno]⟩
  · simpa using h.listed k (List.mem_of_mem_erase hk)
  · refine nodup_cons.2 ⟨fun hm => ?_, h.claimed⟩
    rw [(h.ledger.consumed n hm).2] at hnew
    cases hnew
  · refine (h.sound call hc).of_receipts remove_new.2.1 remove_new.2.2 fun k hk => ?_
    have hkn : k ≠ n := by
      rintro rfl
      rw [hk] at hacc
      cases hacc
    simp [hkn]

theorem Inv.step (hco : w.filesOutside action)
    (hs : w.step prims action = some w') : w'.Inv prims ∧ w.Keeps w' := by
  cases action with
  | begin commands =>
    cases hs
    exact ⟨h.begin_step hco, .of_mirror rfl rfl⟩
  | call i error? => exact h.call_step hs
  | crash =>
    cases hs
    exact ⟨h.crash_step, .of_mirror rfl rfl⟩
  | list name =>
    simp only [step] at hs
    split_ifs at hs with hc
    cases hs
    obtain ⟨hnew, -, hp⟩ := claimable_iff.1 hc
    refine ⟨⟨h.ledger, fun n hn => ?_, h.claimed, h.outside, h.sound, h.single⟩, .of_mirror rfl rfl⟩
    rcases mem_cons.1 hn with rfl | hn
    · exact (h.ledger.receipt n hnew).resolve_left (by simp [hp])
    · exact h.listed n hn
  | claim name =>
    simp only [step] at hs
    split_ifs at hs with hl hg <;> cases hs
    · exact ⟨⟨h.ledger, fun n hn => h.listed n (List.mem_of_mem_erase hn), h.claimed, h.outside,
        h.sound, h.single⟩, .of_mirror rfl rfl⟩
    · refine ⟨h.claim_step (by simpa using hl) (by simpa [Option.isSome_iff_ne_none] using hg),
        fun n d hd => by simpa using hd, fun n d hd => by simpa [Mirror.Receipt] using hd,
        fun n hn => mem_cons_of_mem _ hn⟩

theorem Inv.run (hr : Runs prims w w') : w'.Inv prims ∧ w.Keeps w' := by
  refine hr.keeps (I := fun v => v.Inv prims ∧ w.Keeps v) (fun hv hc hs => ?_)
    ⟨h, .of_mirror rfl rfl⟩
  obtain ⟨hi, hk⟩ := hv.1.step hc hs
  exact ⟨hi, fun n d hd => hk.accepted n d (hv.2.accepted n d hd),
    fun n d hd => hk.receipts n d (hv.2.receipts n d hd),
    fun n hn => hk.claimed n (hv.2.claimed n hn)⟩

/-- A command that was claimable and is no more has been claimed, and is not published again. -/
theorem Inv.claimable_once (hn : w.mirror.claimable n)
    {w1 w2 : MirrorWorld} (h1 : Runs prims w w1) (hg : w1.mirror.claimable n = false)
    (h2 : Runs prims w1 w2) : w2.mirror.claimable n = false := by
  obtain ⟨hi1, hkp1⟩ := h.run h1
  obtain ⟨hi2, hkp2⟩ := hi1.run h2
  obtain ⟨hnew, he, hp⟩ := claimable_iff.1 hn
  have ha := (h.ledger.receipt n hnew).resolve_left (by simp [hp])
  obtain ⟨d, hd⟩ := isSome_iff_exists.1 ha
  have ha1 : (w1.mirror.accepted n).isSome := by
    rw [hkp1.accepted n d hd]
    rfl
  have hcl : n ∈ w1.claimed := by
    rcases hi1.ledger.kept n ha1 with hn1 | hm
    · have hc := claimable_iff.2 ⟨hn1, he, hi1.ledger.exclusive n ha1⟩
      cases hg.symm.trans hc
    · exact hm
  have hno := (hi2.ledger.consumed n (hkp2.claimed n hcl)).2
  rw [eq_false_iff]
  intro hc
  rw [claimable_iff, hno] at hc
  cases hc.1

end

def unstored (p : PreparedCommand) : StoreStage → Prop
  | .start | .crashed | .returned (.error _) => True
  | .checking todo _ => ∃ q ∈ todo, p.Alike q
  | _ => False

/-- A call whose command has the name of another does not get past its checks. -/
structure Blocked (prims : ShipPrims) (p : PreparedCommand) (d : String) (i : ℕ) (w : MirrorWorld) :
    Prop where
  receipt : w.mirror.Receipt p.name d
  call : ∃ call, w.calls[i]? = some call ∧ call.wrote = false ∧ unstored p call.stage
    ∧ ∃ c ∈ call.commands, prepareShippedCommand prims c = .ok p

theorem blocked_operation {m m' : Mirror} {call call' : StoreCall} {free : Bool}
    (hd : d ≠ p.digest) (hr : m.Receipt p.name d) (hw : call.wrote = false)
    (hu : unstored p call.stage) (hcmd : ∃ c ∈ call.commands, prepareShippedCommand prims c = .ok p)
    (h : call.operation prims m free error? = some (m', call')) :
    call'.wrote = false ∧ unstored p call'.stage := by
  rcases hst : call.stage with _ | ⟨_ | ⟨q, todo⟩, checked⟩ | todo | ⟨q, files, todo⟩ | ⟨q, todo⟩
    | _ | _ <;> rw [hst] at hu
  · simp only [operation, hst] at h
    split at h
    · cases h
      exact ⟨hw, trivial⟩
    next ps hps =>
      split_ifs at h
      split at h <;> cases h
      · exact ⟨hw, trivial⟩
      · obtain ⟨c, hc, hp⟩ := hcmd
        obtain ⟨p', hp', hq⟩ := (prepareShipment_eq_ok hps).covers c hc
        cases hp.symm.trans hp'
        exact ⟨hw, hq⟩
  · obtain ⟨q, hq, -⟩ := hu
    cases hq
  · simp only [operation, hst] at h
    split at h <;> cases h
    · exact ⟨hw, trivial⟩
    · exact ⟨hw, trivial⟩
    next accepted hch =>
      refine ⟨hw, ?_⟩
      obtain ⟨q', hq', ha⟩ := hu
      rcases mem_cons.1 hq' with rfl | hq'
      · obtain ⟨text, ht⟩ := checkReceipts_of_reused (p := q')
          (by rw [ha.name]; exact hr) (by rw [ha.digest]; exact hd)
        cases ht.symm.trans hch
      · exact ⟨q', hq', ha⟩
  · cases hu
  · cases hu
  · cases hu
  all_goals
    simp only [operation, hst] at h
    cases h

theorem Blocked.step (hd : d ≠ p.digest) (hinv : w.Inv prims)
    (h : Blocked prims p d i w) (hc : w.filesOutside action)
    (hs : w.step prims action = some w') : Blocked prims p d i w' := by
  obtain ⟨hr, call, hi, hw, hu, hcmd⟩ := h
  refine ⟨(hinv.step hc hs).2.receipts _ _ hr, ?_⟩
  cases action with simp only [step] at hs
  | begin commands =>
    cases hs
    refine ⟨call, ?_, hw, hu, hcmd⟩
    exact (List.getElem?_append_left (getElem?_eq_some_iff.1 hi).1).trans hi
  | call j error? =>
    obtain ⟨m, other, other', hj, rfl, ho, he⟩ := hinv.call_effect hs
    by_cases hij : j = i
    · subst hij
      cases hi.symm.trans hj
      obtain ⟨hw', hu'⟩ := blocked_operation hd hr hw hu hcmd ho
      exact ⟨other', getElem?_set_of_some hi, hw', hu', he.commands ▸ hcmd⟩
    · exact ⟨call, (List.getElem?_set_ne hij).trans hi, hw, hu, hcmd⟩
  | crash =>
    cases hs
    refine ⟨call.crash, by simp [hi], ?_⟩
    unfold crash
    split
    · exact ⟨hw, hu, hcmd⟩
    · exact ⟨hw, trivial, hcmd⟩
  | list name =>
    split_ifs at hs
    cases hs
    exact ⟨call, hi, hw, hu, hcmd⟩
  | claim name =>
    split_ifs at hs <;> cases hs <;> exact ⟨call, hi, hw, hu, hcmd⟩

theorem Inv.blocked (h : w.Inv prims) {call : StoreCall} (hi : w.calls[i]? = some call)
    (hu : call.stage.unchecked) (hre : w.Reuses prims call) :
    ∃ p d, d ≠ p.digest ∧ Blocked prims p d i w := by
  obtain ⟨c, hc, p, d, hp, hr, hd⟩ := hre
  have hs := h.sound call (mem_of_getElem? hi)
  refine ⟨p, d, hd, hr, call, hi, ?_⟩
  rcases hst : call.stage with _ | ⟨todo, checked⟩ | _ | _ | _ | _ | _ <;>
    rw [hst] at hs hu <;> try cases hu
  · exact ⟨hs, trivial, c, hc, hp⟩
  · obtain ⟨hw, -, hent, -, hcov⟩ := hs
    obtain ⟨p', hp', q, hq, hal⟩ := hcov c hc
    cases hp.symm.trans hp'
    refine ⟨hw, ?_, c, hc, hp⟩
    rcases mem_append.1 hq with hq | hq
    · obtain ⟨⟨q, b⟩, he, rfl⟩ := mem_map.1 hq
      have hch := hent _ he
      rw [← hal.name] at hr
      rw [← hal.digest] at hd
      obtain _ | _ := b
      · rcases hr with ha | hpe
        · rw [hch.1] at ha
          cases ha
        · exact absurd (hch.2 d hpe) hd
      · have hacc : w.mirror.accepted q.name = some q.digest := hch
        rcases hr with ha | hpe
        · exact absurd (Option.some.inj (ha.symm.trans hacc)) hd
        · rw [h.ledger.exclusive q.name (by rw [hacc]; rfl)] at hpe
          cases hpe
    · exact ⟨q, hq, hal⟩

/-- In every run whose shared files lie outside the outbox, shipped commands are exposed at most
once, a call that returns has left its commands published or claimed, and a shipment that reuses a
name changes nothing. -/
theorem shipments_exposed_once (h : Runs prims {} w) : w.ExposedOnce prims := by
  have hinv : w.Inv prims := (inv_init.run h).1
  refine ⟨fun n hn w1 h1 hg w2 h2 => hinv.claimable_once hn h1 hg h2, hinv.claimed, ?_, ?_,
    ?_, ?_, ?_⟩
  · intro call hca hst c hc
    have hsnd := hinv.sound call hca
    rw [hst] at hsnd
    obtain ⟨p, hp, ha⟩ := hsnd c hc
    exact ⟨p, hp, hinv.ledger.kept p.name (by rw [ha]; rfl)⟩
  · intro i call hi hun hre w' hrun call' hi'
    obtain ⟨p, d, hd, hb⟩ := hinv.blocked hi hun hre
    have hf : w'.Inv prims ∧ Blocked prims p d i w' := by
      refine hrun.keeps (I := fun v => v.Inv prims ∧ Blocked prims p d i v)
        (fun hv hco hs => ?_) ⟨hinv, hb⟩
      exact ⟨(hv.1.step hco hs).1, hv.2.step hd hv.1 hco hs⟩
    obtain ⟨-, call'', hi'', hw, hu, -⟩ := hf.2
    cases hi'.symm.trans hi''
    refine ⟨hw, fun hok => ?_⟩
    rw [hok] at hu
    exact hu
  · intro i call p todo checked d hi hst hr hd
    obtain ⟨text, ht⟩ := checkReceipts_of_reused hr hd
    refine ⟨text, ?_⟩
    simp [step, hi, operation, hst, ht]
  · intro i call hi hst c1 hc1 c2 hc2 p1 p2 hp1 hp2 hna hdi error?
    rcases hpr : prepareShipment prims call.commands with e | ps
    · refine ⟨e, ?_⟩
      simp [step, hi, operation, hst, hpr]
    · exact absurd ((prepareShipment_eq_ok hpr).digest_eq hc1 hc2 hp1 hp2 hna) hdi
  · intro i error? w' call hs hi hw
    obtain ⟨m, before, after, hbef, rfl, -, he⟩ := hinv.call_effect hs
    cases (getElem?_set_of_some hbef).symm.trans hi
    exact (he.wrote hw).1

/-! A note is shipped with one file.  The first call is cut off after it has published the command,
the second is the retry, the pipeline claims the note, and two more calls repeat it and reuse its
name. -/

def plainPrims : ShipPrims where
  decodeBase64 := .ok
  serialize := fun _ => "note"
  digest := fun c => c.files.foldr (fun f text => f.content ++ text) c.name

def note (content : String) : ShippedOutboxCommand where
  name := "note.json"
  command := .null
  files := [⟨"notes/a.txt", content⟩]

def operations (i n : ℕ) : List MirrorAction := List.replicate n (.call i none)

def shipped : List MirrorAction :=
  [.begin [note "a"]] ++ operations 0 6 ++ [.crash, .begin [note "a"]] ++ operations 1 8
    ++ [.list "note.json", .claim "note.json", .begin [note "a"], .begin [note "b"]]
    ++ operations 2 5 ++ operations 3 2

def answers (w : MirrorWorld) : List (Option (Except AppError Unit)) :=
  w.calls.map fun call => match call.stage with
    | .returned answer => some answer
    | _ => none

theorem shipments_exposed_once_shipped : ∃ w, Runs plainPrims {} w
      ∧ w.answers = [none, some (.ok ()), some (.ok ()), some (.error (reusedName "note.json"))]
      ∧ w.claimed = ["note.json"] ∧ w.ExposedOnce plainPrims := by
  refine exists_run_and₂ shipped ?_ fun _ hw _ => shipments_exposed_once hw
  decide +kernel

/-- In every run whose shared files lie outside the outbox, a call changes no other entry of the
outbox than those of its own commands. -/
theorem shipment_changes_own_entries (h : Runs prims {} w) {call : StoreCall}
    (hi : w.calls[i]? = some call) (hs : w.step prims (.call i error?) = some w')
    {path : List String} (hp : path.head? = some ".choruz-outbox")
    (hne : w'.mirror.files path ≠ w.mirror.files path) : Owned prims call.commands path := by
  have hinv : w.Inv prims := (inv_init.run h).1
  obtain ⟨m, call', after, hi', rfl, -, he⟩ := hinv.call_effect hs
  cases hi.symm.trans hi'
  exact he.outbox path hp hne

theorem shipment_changes_own_entries_note : ∃ w, Runs plainPrims {} w ∧ w.calls.length = 1
      ∧ ∀ call ∈ w.calls[0]?, Owned plainPrims call.commands (pendingPath "note.json") := by
  have hr : ((run (restrict (step plainPrims) fun w action => w.filesOutside action) {}
      ([.begin [note "a"]] ++ operations 0 3)).any fun w => w.calls.length = 1
      ∧ (w.step plainPrims (.call 0 none)).any fun w' =>
        w'.mirror.pending "note.json" ≠ w.mirror.pending "note.json") := by
    decide +kernel
  obtain ⟨w, hw, hc, ha⟩ := exists_steps_of_run hr
  obtain ⟨w', hs, hne⟩ := (Option.any_eq_true _ _).1 ha
  exact ⟨w, hw, hc, fun call hi =>
    shipment_changes_own_entries hw hi hs rfl (of_decide_eq_true hne)⟩

/-- A file of the shipment of `note.json` is published as a command of its own. -/
theorem attachment_forges_command : ∃ w, Steps (step plainPrims) {} w ∧ w.answers = [some (.ok ())]
      ∧ w.calls.map (·.commands.map (·.name)) = [["note.json"]]
      ∧ w.mirror.new "forged.json" = some "forged" ∧ w.mirror.claimable "forged.json" := by
  refine exists_run ([.begin [{ note "" with
      files := [⟨".choruz-outbox/new/forged.json", "forged"⟩] }]] ++ operations 0 8) ?_
  decide +kernel

end MirrorWorld

end Choruz
