import Choruz.OutboxShipping

/-!
# A device loses no command it could deliver

A pass ends with the removal of its files where every shipment of it was answered.  This is so
unless the controller refuses a shipment before the last: then the shipments after it are never
offered, and their commands are removed all the same.
-/

namespace Choruz

open Relational

variable {prims : DevicePrims} {commands : List ShippedOutboxCommand}
  {command : ShippedOutboxCommand} {file : String × String} {ids : ℕ → String} {frames : String}

theorem flatten_shipments : (shipments prims commands).flatten =
    commands.filter fun c => shippedBytes prims c ≤ maxShipmentBytes := by
  simp [shipments, Packing.flatten_pack]

/-- Shipments hold the commands that fit, each once and in order, and stay within both limits of the
controller. -/
theorem shipments_within_limits (prims : DevicePrims) (commands : List ShippedOutboxCommand) :
    (shipments prims commands).flatten =
      commands.filter (fun c => shippedBytes prims c ≤ maxShipmentBytes) ∧
    ∀ shipment ∈ shipments prims commands, shipment ≠ [] ∧
      shipment.length ≤ maxCommandsPerShipment ∧
      (shipment.map (shippedBytes prims)).sum ≤ maxShipmentBytes := by
  refine ⟨flatten_shipments, fun shipment h => ?_⟩
  have hw := Packing.within_of_mem (by decide) h
  exact ⟨hw.nonempty, hw.len, hw.total⟩

theorem shipped_or_large (h : command ∈ commands) :
    (∃ shipment ∈ shipments prims commands, command ∈ shipment)
      ∨ maxShipmentBytes < shippedBytes prims command := by
  by_cases hb : shippedBytes prims command ≤ maxShipmentBytes
  · have hm : command ∈ (shipments prims commands).flatten := by
      rw [flatten_shipments]
      exact mem_filter.2 ⟨h, decide_eq_true hb⟩
    exact .inl (List.mem_flatten.1 hm)
  · exact .inr (not_le.1 hb)

section Offers

variable {binding : String}

theorem offerShipments_takes (bnd : String) : ∀ (ss : List (List ShippedOutboxCommand))
    (answers : ℕ → ShipAnswer), (offerShipments bnd answers ss).1.map (·.shipment) <+: ss
      ∧ ∀ o ∈ (offerShipments bnd answers ss).1, o.binding = bnd
  | [], _ => by simp [offerShipments]
  | s :: ss, answers => by
    unfold offerShipments
    rcases answers 0 with error | ⟨code, text⟩
    · simp
    dsimp only
    split_ifs
    · simp
    · simp
    · obtain ⟨hf, hb⟩ := offerShipments_takes bnd ss fun k => answers (k + 1)
      refine ⟨by simpa using hf, fun o ho => ?_⟩
      rcases mem_cons.1 ho with rfl | ho
      · rfl
      · exact hb o ho

theorem offerShipments_settled : ∀ (ss : List (List ShippedOutboxCommand))
    (answers : ℕ → ShipAnswer), (∀ k, k + 1 < ss.length → (answers k).refused = false) →
    (∀ reason, (offerShipments binding answers ss).2 ≠ .error (.transient reason)) →
      ∀ s ∈ ss, ∃ o ∈ (offerShipments binding answers ss).1, o.shipment = s
        ∧ (o.answer.stored ∨ o.answer.refused)
  | [], _, _, _, s, hs => by cases hs
  | t :: ss, answers, hl, hout, s, hs => by
    unfold offerShipments at hout ⊢
    have hf := hl 0
    rcases han : answers 0 with error | ⟨code, text⟩ <;> simp only [han] at hout hf ⊢
    · exact absurd rfl (hout _)
    split_ifs at hout ⊢ with hr hstd
    · have hn : ss = [] := by
        by_contra hne
        have hlen : 0 + 1 < (t :: ss).length := by
          simpa using List.length_pos_iff.2 hne
        rw [ShipAnswer.refused, hr] at hf
        exact absurd (hf hlen) (by simp)
      subst hn
      obtain rfl := mem_singleton.1 hs
      exact ⟨_, mem_singleton_self _, rfl, .inr hr⟩
    · exact absurd rfl (hout _)
    · rcases mem_cons.1 hs with rfl | hs
      · exact ⟨_, mem_cons_self, rfl, .inl (by simpa using hstd)⟩
      · obtain ⟨o, ho, hsh, ha⟩ := offerShipments_settled ss
          (fun k => answers (k + 1)) (fun k hk => hl (k + 1) (by simpa using hk)) hout s hs
        exact ⟨o, mem_cons_of_mem _ ho, hsh, ha⟩

theorem shipOutbox_settled {answers : ℕ → ShipAnswer} (hl : Device.lastRefused prims commands answers)
    (hout : ∀ reason, (shipOutbox prims binding answers commands).2 ≠ .error (.transient reason))
    (h : command ∈ commands) :
    (∃ o ∈ (shipOutbox prims binding answers commands).1, o.binding = binding
      ∧ command ∈ o.shipment ∧ (o.answer.stored ∨ o.answer.refused))
    ∨ maxShipmentBytes < shippedBytes prims command := by
  refine (shipped_or_large h).imp (fun ⟨shipment, hs, hm⟩ => ?_) id
  have hf : ∀ k, k + 1 < (shipments prims commands).length → (answers k).refused = false := by
    intro k hk
    have hall := all_eq_true.1 hl k (List.mem_range.2 (by omega))
    simpa using hall
  obtain ⟨o, ho, rfl, ha⟩ := offerShipments_settled _ _ hf hout shipment hs
  exact ⟨o, ho, (offerShipments_takes _ _ _).2 o ho, hm, ha⟩

end Offers

theorem offersInOrder_of_named {d d' : Device} (bnd : String) (answers : ℕ → ShipAnswer)
    (named : List (String × ShippedOutboxCommand)) (hn : named.Pairwise fun a b => a.1 < b.1)
    (hnm : ∀ e ∈ named, e.1 = e.2.name
      ∨ ∃ text, (e.1, text) ∈ d.spool bnd ∧ prims.decode text = some e.2)
    (hof : d'.offered = d.offered ++ (shipOutbox prims bnd answers (named.map (·.2))).1) :
    Device.OffersInOrder prims d d' := by
  obtain ⟨hf, hb⟩ := offerShipments_takes bnd (shipments prims (named.map (·.2))) answers
  refine ⟨bnd, _, hof, fun o ho => ⟨hb o ho, ?_⟩, ?_⟩
  · exact Packing.within_of_mem (by decide) (hf.subset (mem_map_of_mem ho))
  · have hs : List.Sublist ((shipOutbox prims bnd answers (named.map (·.2))).1.flatMap (·.shipment))
        (named.map (·.2)) := by
      obtain ⟨rest, hr⟩ := hf
      have hfl : (shipOutbox prims bnd answers (named.map (·.2))).1.flatMap (·.shipment)
          <+: (shipments prims (named.map (·.2))).flatten := by
        refine ⟨rest.flatten, ?_⟩
        rw [List.flatMap_def, ← List.flatten_append]
        exact congrArg List.flatten hr
      rw [flatten_shipments] at hfl
      exact hfl.sublist.trans List.filter_sublist
    obtain ⟨offered, hoff, heq⟩ := List.sublist_map_iff.1 hs
    exact ⟨offered, hn.sublist hoff, heq, fun e he => hnm e (hoff.subset he)⟩

theorem offersInOrder_of_eq {d d' : Device} (h : d'.offered = d.offered) :
    Device.OffersInOrder prims d d' := ⟨"", [], by simp [h], by simp, [], by simp⟩

section Collect

variable {place : Place} {readFile : String → Option String} {files : Files}

theorem mem_collectCommands {e : String × ShippedOutboxCommand}
    (h : e ∈ collectCommands prims place readFile files) :
    ∃ text, (e.1, text) ∈ files ∧ place.read prims readFile (e.1, text) = some e.2 := by
  obtain ⟨file, hf, hr⟩ := mem_filterMap.1 h
  obtain ⟨command, hc, rfl⟩ := map_eq_some_iff.1 hr
  exact ⟨file.2, (mem_filter.1 ((List.mem_insertionSort _).1 hf)).1, hc⟩

theorem collectCommands_pairwise :
    (collectCommands prims place readFile files).Pairwise fun a b => a.1 < b.1 := by
  have hle := List.pairwise_insertionSort (fun a b : String × String => a.1 ≤ b.1)
    (files.rows.filter isCommandFile)
  have hne : ((files.rows.filter isCommandFile).insertionSort
      fun a b => a.1 ≤ b.1).Pairwise fun a b => a.1 ≠ b.1 := by
    have hn : ((files.rows.filter isCommandFile).map (·.1)).Nodup :=
      files.nodup.sublist (List.filter_sublist.map _)
    have hp := (List.perm_insertionSort (fun a b : String × String => a.1 ≤ b.1)
      (files.rows.filter isCommandFile)).map Prod.fst
    exact List.pairwise_map.1 (hp.nodup_iff.2 hn)
  refine List.Pairwise.filterMap _ (fun a b ha x hx y hy => ?_) (hle.and hne)
  obtain ⟨_, -, rfl⟩ := map_eq_some_iff.1 hx
  obtain ⟨_, -, rfl⟩ := map_eq_some_iff.1 hy
  exact String.not_le.1 fun hb => ha.2 (String.le_antisymm ha.1 hb)

theorem read_isSome (place : Place) (readFile readFile' : String → Option String)
    (file : String × String) :
    (place.read prims readFile file).isSome = (place.read prims readFile' file).isSome := by
  cases place <;> simp [Place.read]

theorem mem_dropUndecodable (h : file ∈ files) (hh : Device.Holds prims place file command) :
    file ∈ dropUndecodable prims place readFile files := by
  obtain ⟨readFile', hr⟩ := hh
  have hs : (place.read prims readFile file).isSome := by
    rw [read_isSome place readFile readFile', hr]
    rfl
  refine mem_filter.2 ⟨h, ?_⟩
  simp [Option.isNone_eq_false_iff.2 hs]

end Collect

theorem commandName_lt {i j : ℕ} (h : i < j) (hj : j < 10 ^ 20) (id id' : String) :
    commandName i id < commandName j id' := by
  rw [String.lt_iff]
  simp only [commandName, String.toList_append, String.toList_ofList, append_assoc]
  exact List.append_left_lt (Numerals.padded_append_lt _ _ h hj)

theorem commandsFromFrames_pairwise {readFile : String → Option String}
    (hl : (commandsFromFrames prims readFile ids frames).length < 2 ^ 64) :
    (commandsFromFrames prims readFile ids frames).Pairwise fun a b => a.name < b.name := by
  refine List.pairwise_iff_getElem.2 fun i j hi hj hij => ?_
  simp only [commandsFromFrames, List.getElem_mapIdx]
  refine commandName_lt (by omega) (lt_of_le_of_lt (Nat.succ_le_of_lt (hj.trans hl)) ?_) _ _
  decide

theorem mem_spool_of_ne : ∀ {cmds : List ShippedOutboxCommand} {spool : Files}, file ∈ spool →
    (∀ c ∈ cmds, fileName? c.name = some c.name ∧ c.name ≠ file.1) →
      file ∈ (spoolShippedCommands prims spool cmds).1
  | [], _, h, _ => h
  | c :: cmds, spool, h, hne => by
    obtain ⟨hn, hf⟩ := hne c mem_cons_self
    simp [spoolShippedCommands, hn]
    refine mem_spool_of_ne ?_ fun c hc => hne c (mem_cons_of_mem _ hc)
    refine mem_of_lookup (k := file.1) ?_
    rw [lookup_put, if_neg (Ne.symm hf)]
    exact lookup_of_mem h

theorem mem_spool_of_mem : ∀ {cmds : List ShippedOutboxCommand} {spool : Files},
    (∀ c ∈ cmds, fileName? c.name = some c.name) →
    cmds.Pairwise (fun a b => a.name ≠ b.name) → ∀ c ∈ cmds,
      (c.name, prims.encode c) ∈ (spoolShippedCommands prims spool cmds).1
  | [], _, _, _, c, hc => by cases hc
  | b :: cmds, spool, hn, hne, c, hc => by
    have hb := hn b mem_cons_self
    have hr := fun c hc => hn c (mem_cons_of_mem _ hc)
    obtain ⟨hd, hne⟩ := List.pairwise_cons.1 hne
    simp [spoolShippedCommands, hb]
    rcases mem_cons.1 hc with rfl | hc
    · refine mem_spool_of_ne ?_ fun a ha => ⟨hr a ha, Ne.symm (hd a ha)⟩
      exact mem_of_lookup (lookup_put_self _ rfl)
    · exact mem_spool_of_mem hr hne c hc

namespace Device

variable {d d' : Device} {action : DeviceAction}

variable {pass : Pass} {place : Place} {binding : String} {readFile : String → Option String}
  {offers : List Offer} {answers : ℕ → ShipAnswer} {outcome : Except ShipError Unit}

theorem files_setFiles (d : Device) (place place' : Place) (bnd binding' : String)
    (files : Files) : (d.setFiles place bnd files).files place' binding' =
      if place' = place ∧ binding' = bnd then files else d.files place' binding' := by
  cases place <;> cases place' <;> simp [setFiles, Device.files, Function.update_apply]

@[simp] theorem setFiles_offered (place : Place) (binding : String) (files : Files) :
    (d.setFiles place binding files).offered = d.offered := by
  cases place <;> rfl

@[simp] theorem setFiles_pass (place : Place) (binding : String) (files : Files) :
    (d.setFiles place binding files).pass = d.pass := by
  cases place <;> rfl

/-- The files of a pass are there as they were read. -/
structure PassSound (prims : DevicePrims) (d : Device) (pass : Pass) : Prop where
  sorted : pass.collected.Pairwise fun a b => a.1 < b.1
  files : ∀ e ∈ pass.collected, ∃ content, (e.1, content) ∈ d.files pass.place pass.binding
    ∧ Holds prims pass.place (e.1, content) e.2

/-- Every file is there after the step, except those without a command. -/
def KeepsFiles (prims : DevicePrims) (d d' : Device) : Prop :=
  ∀ place binding file, file ∈ d.files place binding →
    (∃ command, Holds prims place file command) → file ∈ d'.files place binding

theorem PassSound.mono (h : PassSound prims d pass) (hk : KeepsFiles prims d d') :
    PassSound prims d' pass := by
  refine ⟨h.sorted, fun e he => ?_⟩
  obtain ⟨content, hf, hh⟩ := h.files e he
  exact ⟨content, hk _ _ _ hf ⟨_, hh⟩, hh⟩

theorem keepsFiles_setFiles {files : Files}
    (h : ∀ file ∈ d.files place binding, (∃ cmd, Holds prims place file cmd) →
      file ∈ files) : KeepsFiles prims d (d.setFiles place binding files) := by
  intro place' binding' file hf hh
  rw [files_setFiles]
  split_ifs with heq
  · obtain ⟨rfl, rfl⟩ := heq
    exact h file hf hh
  · exact hf

/-- What a step does to the files and the pass. -/
structure StepEffect (prims : DevicePrims) (d : Device) (action : DeviceAction) (d' : Device) :
    Prop where
  sound : ∀ pass, d'.pass = some pass → PassSound prims d' pass
  keeps : KeepsCommands prims d action d'

theorem StepEffect.of_keepsFiles (hk : KeepsFiles prims d d')
    (hsnd : ∀ pass, d'.pass = some pass → PassSound prims d' pass)
    (ht : ∀ bnd frames readFile ids answers, action = .turn bnd frames readFile ids answers →
        ∀ cmd ∈ commandsFromFrames prims readFile ids frames,
          (cmd.name, prims.encode cmd) ∈ d'.spool bnd ∨ d'.Settled prims bnd cmd)
    (ho : OffersInOrder prims d d') : StepEffect prims d action d' :=
  ⟨hsnd, fun _ _ _ hf hh hg => absurd (hk _ _ _ hf hh) hg, ht, ho⟩

theorem write_effect {name text : String} (hsnd : ∀ pass, d.pass = some pass → PassSound prims d pass)
    (h : d.step prims (.write binding name text) = some d') :
    StepEffect prims d (.write binding name text) d' := by
  obtain ⟨files, hi, rfl⟩ := map_eq_some_iff.1 h
  have hk : KeepsFiles prims d (d.setFiles .outbox binding files) :=
    keepsFiles_setFiles fun file hf _ => (mem_insert? hi).2 (.inl hf)
  refine .of_keepsFiles hk (fun pass hp => ?_) (by simp) (offersInOrder_of_eq (by simp))
  exact (hsnd pass hp).mono hk

theorem collect_effect (h : d.step prims (.collect place binding readFile) = some d') :
    StepEffect prims d (.collect place binding readFile) d' := by
  simp only [step] at h
  split_ifs at h with hp hemp
  all_goals
    have hk : KeepsFiles prims d (d.setFiles place binding
        (dropUndecodable prims place readFile (d.files place binding))) :=
      keepsFiles_setFiles fun file hf hh =>
        hh.elim fun cmd hc => mem_dropUndecodable hf hc
  · cases h
    refine .of_keepsFiles hk (fun pass hs => ?_) (by simp) (offersInOrder_of_eq (by simp))
    rw [setFiles_pass] at hs
    simp [hs] at hp
  · cases h
    have hk' : KeepsFiles prims d { d.setFiles place binding
        (dropUndecodable prims place readFile (d.files place binding)) with
        pass := some ⟨place, binding, collectCommands prims place readFile
          (d.files place binding)⟩ } := by
      intro place' binding' file hf hh
      cases place' <;> exact hk _ _ _ hf hh
    refine .of_keepsFiles hk' (fun pass hs => ?_) (by simp) (offersInOrder_of_eq (by simp))
    cases hs
    refine ⟨collectCommands_pairwise, fun e he => ?_⟩
    obtain ⟨content, hf, hr⟩ := mem_collectCommands he
    exact ⟨content, hk' _ _ _ hf ⟨_, readFile, hr⟩, readFile, hr⟩

theorem PassSound.names (h : PassSound prims d pass) :
    ∀ e ∈ pass.collected, e.1 = e.2.name ∨ ∃ text, (e.1, text) ∈ d.spool pass.binding
      ∧ prims.decode text = some e.2 := by
  intro e he
  obtain ⟨text, hf, readFile, hr⟩ := h.files e he
  rcases hp : pass.place with _ | _ <;> rw [hp] at hf hr
  · obtain ⟨command, -, hc⟩ := map_eq_some_iff.1 hr
    exact .inl (by rw [← hc])
  · exact .inr ⟨text, hf, hr⟩

theorem mem_delivered (hf : file ∈ d.files place binding)
    (hg : file ∉ (d.delivered pass).files place binding) :
    place = pass.place ∧ binding = pass.binding ∧ ∃ cmd, (file.1, cmd) ∈ pass.collected := by
  rw [delivered, files_setFiles] at hg
  split_ifs at hg with heq
  · obtain ⟨rfl, rfl⟩ := heq
    by_contra hne
    refine hg (mem_filter.2 ⟨hf, ?_⟩)
    simpa using hne
  · exact absurd hf hg

theorem files_offered {pass? : Option Pass} (place : Place) :
    ({ d with pass := pass?, offered := offers } : Device).files place = d.files place := by
  cases place <;> rfl

theorem finishPass_cases (pass : Pass)
    (h : shipOutbox prims pass.binding answers (pass.collected.map (·.2)) = (offers, outcome)) :
    (∃ reason, outcome = .error (.transient reason)
      ∧ d.finishPass prims pass answers = { d with pass := none, offered := d.offered ++ offers })
    ∨ ((∀ reason, outcome ≠ .error (.transient reason)) ∧ d.finishPass prims pass answers =
        ({ d with pass := none, offered := d.offered ++ offers } : Device).delivered pass) := by
  simp only [finishPass, h]
  rcases outcome with (reason | reason) | _
  · exact .inr ⟨by simp, rfl⟩
  · exact .inl ⟨reason, rfl, rfl⟩
  · exact .inr ⟨by simp, rfl⟩

theorem ship_effect (hsnd : ∀ pass, d.pass = some pass → PassSound prims d pass)
    (hl : d.refusesLast prims (.ship answers))
    (h : d.step prims (.ship answers) = some d') : StepEffect prims d (.ship answers) d' := by
  obtain ⟨pass, hp, rfl⟩ := map_eq_some_iff.1 h
  have hpassSound := hsnd pass hp
  simp [refusesLast, hp] at hl
  rcases hs : shipOutbox prims pass.binding answers (pass.collected.map (·.2))
    with ⟨offers, outcome⟩
  have hof : offers = (shipOutbox prims pass.binding answers (pass.collected.map (·.2))).1 := by
    rw [hs]
  rcases finishPass_cases (d := d) pass hs with ⟨reason, -, hfin⟩ | ⟨hse, hfin⟩ <;> rw [hfin]
  · refine .of_keepsFiles (fun place bnd file hf _ => ?_) (by simp) (by simp) ?_
    · rwa [files_offered]
    · exact offersInOrder_of_named _ _ _ hpassSound.sorted hpassSound.names (by rw [← hof])
  · refine ⟨by simp [delivered], ?_, by simp, ?_⟩
    · intro place bnd file hf _ hg
      rw [← files_offered] at hf
      obtain ⟨rfl, rfl, command, hc⟩ := mem_delivered hf hg
      obtain ⟨content, hr, hh⟩ := hpassSound.files _ hc
      rw [← eq_of_key_eq hf hr rfl] at hh
      refine ⟨pass, command, hp, hc, hh, ?_⟩
      refine (shipOutbox_settled hl (by rw [hs]; exact hse)
        (mem_map_of_mem hc)).imp (fun ⟨o, ho, hset⟩ => ⟨o, ?_, hset⟩) id
      rw [delivered, setFiles_offered, hof]
      exact mem_append_right _ ho
    · have hoe : (({ d with pass := none, offered := d.offered ++ offers } : Device).delivered
          pass).offered =
          d.offered ++ (shipOutbox prims pass.binding answers (pass.collected.map (·.2))).1 := by
        rw [delivered, setFiles_offered, ← hof]
      exact offersInOrder_of_named _ _ _ hpassSound.sorted hpassSound.names hoe

theorem finishTurn_cases (h : shipOutbox prims binding answers commands = (offers, outcome)) :
    (∃ reason, outcome = .error (.transient reason) ∧ d.finishTurn prims binding commands answers =
        ({ d with offered := d.offered ++ offers } : Device).setFiles .spool binding
          (spoolShippedCommands prims (d.spool binding) commands).1)
    ∨ ((∀ reason, outcome ≠ .error (.transient reason))
      ∧ d.finishTurn prims binding commands answers =
        { d with offered := d.offered ++ offers }) := by
  simp only [finishTurn, h]
  rcases outcome with (reason | reason) | _
  · exact .inr ⟨by simp, rfl⟩
  · exact .inl ⟨reason, rfl, rfl⟩
  · exact .inr ⟨by simp, rfl⟩

theorem finishTurn_pass_offered (prims : DevicePrims) (d : Device) (bnd : String)
    (cmds : List ShippedOutboxCommand) (answers : ℕ → ShipAnswer) :
    (d.finishTurn prims bnd cmds answers).pass = d.pass
      ∧ (d.finishTurn prims bnd cmds answers).offered =
        d.offered ++ (shipOutbox prims bnd answers cmds).1 := by
  rcases hs : shipOutbox prims bnd answers cmds with ⟨offers, outcome⟩
  rcases finishTurn_cases (d := d) hs with ⟨_, -, hf⟩ | ⟨-, hf⟩ <;> simp [hf]

theorem finishTurn_keepsFiles (prims : DevicePrims) (answers : ℕ → ShipAnswer)
    (hnm : ∀ c ∈ commands, fileName? c.name = some c.name
      ∧ (d.spool binding).lookup c.name = none) :
    KeepsFiles prims d (d.finishTurn prims binding commands answers) := by
  rcases hs : shipOutbox prims binding answers commands with ⟨offers, outcome⟩
  intro place binding' file hf hh
  rcases finishTurn_cases (d := d) hs with ⟨_, -, hfin⟩ | ⟨-, hfin⟩ <;> rw [hfin]
  · rw [files_setFiles]
    split_ifs with heq
    · obtain ⟨rfl, rfl⟩ := heq
      refine mem_spool_of_ne hf fun c hc => ⟨(hnm c hc).1, fun hn => ?_⟩
      exact lookup_eq_none.1 (hnm c hc).2 file hf hn.symm
    · rwa [files_offered]
  · rwa [files_offered]

section

variable (hsnd : ∀ pass, d.pass = some pass → PassSound prims d pass)
include hsnd

theorem turn_effect (hla : d.refusesLast prims (.turn binding frames readFile ids answers))
    (h : d.step prims (.turn binding frames readFile ids answers) = some d') :
    StepEffect prims d (.turn binding frames readFile ids answers) d' := by
  simp only [step] at h
  split_ifs at h with hfr
  cases h
  simp [freshNames] at hfr
  obtain ⟨hlen, hn⟩ := hfr
  have hsr := commandsFromFrames_pairwise hlen
  have hk := finishTurn_keepsFiles prims answers hn
  obtain ⟨hp, hof⟩ := finishTurn_pass_offered prims d binding
    (commandsFromFrames prims readFile ids frames) answers
  refine .of_keepsFiles hk (fun pass hso => ?_) ?_ ?_
  · rw [hp] at hso
    exact (hsnd pass hso).mono hk
  · rintro _ _ _ _ _ ⟨rfl, rfl, rfl, rfl, rfl⟩ command hcmd
    rcases hs : shipOutbox prims binding answers
      (commandsFromFrames prims readFile ids frames) with ⟨offers, outcome⟩
    rcases finishTurn_cases (d := d) hs with ⟨_, -, hf⟩ | ⟨hst, hf⟩
    · refine .inl ?_
      rw [hf]
      have hne : (commandsFromFrames prims readFile ids frames).Pairwise
          fun a b => a.name ≠ b.name := by
        refine hsr.imp fun {a b} (hlt : a.name < b.name) heq => ?_
        rw [heq] at hlt
        exact String.lt_irrefl _ hlt
      simpa [setFiles] using mem_spool_of_mem (fun c hc => (hn c hc).1) hne command hcmd
    · rcases shipOutbox_settled hla (by rw [hs]; exact hst) hcmd with ⟨o, ho, hset⟩ | hl
      · refine .inr (.inl ⟨o, ?_, hset⟩)
        rw [hof]
        exact mem_append_right _ ho
      · exact .inr (.inr hl)
  · have hse : ((commandsFromFrames prims readFile ids frames).map fun c => (c.name, c)).map
        (·.2) = commandsFromFrames prims readFile ids frames := by
      rw [map_map]
      exact List.map_id _
    refine offersInOrder_of_named binding answers
      ((commandsFromFrames prims readFile ids frames).map fun c => (c.name, c))
      (List.pairwise_map.2 hsr) (by simp) ?_
    rw [hof, hse]

theorem step_effect (hl : d.refusesLast prims action) (h : d.step prims action = some d') :
    StepEffect prims d action d' := by
  cases action with
  | write binding name content => exact write_effect hsnd h
  | collect place binding readFile => exact collect_effect h
  | ship answers => exact ship_effect hsnd hl h
  | turn binding frames readFile ids answers => exact turn_effect hsnd hl h

end

/-- From any files, along every run in which the controller refuses no shipment that is followed by
another of its pass, no step loses a command, and the commands are offered in order. -/
theorem commands_not_lost {d0 : Device} (hi : d0.pass = none)
    (hr : Steps (restrict (step prims) fun d action => d.refusesLast prims action) d0 d)
    (hl : d.refusesLast prims action) (h : d.step prims action = some d') :
    KeepsCommands prims d action d' := by
  have hsnd : ∀ pass, d.pass = some pass → PassSound prims d pass := by
    refine hr.keeps (I := fun d => ∀ pass, d.pass = some pass → PassSound prims d pass)
      (fun hs hc hst => ?_) (by simp [hi])
    exact (step_effect hs hc hst).sound
  exact (step_effect hsnd hl h).keeps

def bareDevice : DevicePrims where
  parse := fun _ => some (.obj [])
  decode := fun _ => none
  encode := fun _ => ""

def answered (code : ℕ) : ShipAnswer := .status code (toString code)

def twoFiles : Device where
  outbox := fun _ => ⟨[("b.json", ""), ("a.json", "")], by decide +kernel⟩

def refusedLater : List DeviceAction :=
  [.collect .outbox "b" fun _ => none, .ship fun _ => .unreachable "timeout",
    .collect .outbox "b" fun _ => none]

theorem commands_not_lost_refusedLater :
    ∃ d d', Steps (restrict (step bareDevice) fun d action => d.refusesLast bareDevice action)
        twoFiles d ∧ d.step bareDevice (.ship fun _ => answered 422) = some d'
      ∧ (d'.files .outbox "b").rows = [] ∧ d'.offered.map (·.shipment.length) = [2, 2]
      ∧ KeepsCommands bareDevice d (.ship fun _ => answered 422) d' := by
  have hr : ((run (restrict (step bareDevice) fun d action =>
      d.refusesLast bareDevice action) twoFiles refusedLater).any fun d =>
        d.refusesLast bareDevice (.ship fun _ => answered 422)
        ∧ (d.step bareDevice (.ship fun _ => answered 422)).any fun d' =>
          (d'.files .outbox "b").rows = [] ∧ d'.offered.map (·.shipment.length) = [2, 2]) := by
    decide +kernel
  obtain ⟨d, hd, hl, hs⟩ := exists_steps_of_run hr
  obtain ⟨d', hd', ha⟩ := (Option.any_eq_true _ _).1 hs
  obtain ⟨hf, ho⟩ := of_decide_eq_true ha
  exact ⟨d, d', hd, hd', hf, ho, commands_not_lost rfl hd hl hd'⟩

def filler (n : ℕ) : String := String.ofList (List.replicate n 'x')

theorem utf8ByteSize_filler (n : ℕ) : (filler n).utf8ByteSize = n := by
  induction n with
  | zero => rfl
  | succ n ih =>
    rw [filler, List.replicate_succ', String.ofList_append, String.utf8ByteSize_append]
    exact congrArg (· + 1) ih

def largeDevice : DevicePrims where
  parse := fun _ => some (.obj [])
  decode := fun _ => none
  encode := fun _ => filler (9 * 1024 * 1024)

theorem shippedBytes_largeDevice (c : ShippedOutboxCommand) :
    shippedBytes largeDevice c = 9 * 1024 * 1024 + 1 := by
  have hs : (largeDevice.encode c).utf8ByteSize = 9 * 1024 * 1024 := utf8ByteSize_filler _
  rw [shippedBytes, hs]

def bareCommand (name : String) : ShippedOutboxCommand := ⟨name, .obj [], []⟩

/-- Two commands of nine MiB are two shipments; where the first is refused, the second is not
offered. -/
theorem shipOutbox_largeDevice : shipOutbox largeDevice "b" (fun _ => answered 422)
    [bareCommand "a.json", bareCommand "b.json"] = ([⟨"b", [bareCommand "a.json"], answered 422⟩],
        .error (.refused "ship outbox returned HTTP 422")) := by
  have hs : shipments largeDevice [bareCommand "a.json", bareCommand "b.json"] =
      [[bareCommand "a.json"], [bareCommand "b.json"]] := by
    simp [shipments, Packing.pack, shippedBytes_largeDevice, maxShipmentBytes,
      maxCommandsPerShipment]
  rw [shipOutbox, hs]
  rfl

def lostPass : Pass :=
  ⟨.outbox, "b", [("a.json", bareCommand "a.json"), ("b.json", bareCommand "b.json")]⟩

/-- The files of two commands are collected, the shipment of the first is refused, and both files
are removed. -/
theorem later_shipment_dropped : ∃ d d', Steps (step largeDevice) twoFiles d
      ∧ d.step largeDevice (.ship fun _ => answered 422) = some d'
      ∧ ("b.json", "") ∈ d.files .outbox "b"
      ∧ Holds largeDevice .outbox ("b.json", "") (bareCommand "b.json")
      ∧ shippedBytes largeDevice (bareCommand "b.json") ≤ maxShipmentBytes
      ∧ ("b.json", "") ∉ d'.files .outbox "b"
      ∧ d'.offered.map (·.shipment) = [[bareCommand "a.json"]] := by
  have hr : ((run (step largeDevice) twoFiles [.collect .outbox "b" fun _ => none]).any fun d =>
      d.offered = [] ∧ ("b.json", "") ∈ (d.outbox "b").rows ∧ d.pass = some lostPass) := by
    decide +kernel
  obtain ⟨d, hd, ho, hf, hp⟩ := exists_steps_of_run hr
  have hs : d.step largeDevice (.ship fun _ => answered 422) =
      some (({ d with pass := none, offered := d.offered
        ++ [⟨"b", [bareCommand "a.json"], answered 422⟩] } : Device).delivered lostPass) := by
    rcases finishPass_cases (d := d) lostPass shipOutbox_largeDevice with
      ⟨_, hout, -⟩ | ⟨-, hfin⟩
    · cases hout
    · rw [step, hp, Option.map_some, hfin]
  refine ⟨d, _, hd, hs, hf, ⟨fun _ => none, rfl⟩, ?_, fun hm => ?_, ?_⟩
  · rw [shippedBytes_largeDevice, maxShipmentBytes]
    omega
  · rw [delivered, files_setFiles] at hm
    simpa [lostPass] using (mem_filter.1 hm).2
  · rw [delivered, ho]
    rfl

end Device

end Choruz
