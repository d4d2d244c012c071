import Choruz.Migrations

/-!
# A migration statement is applied at most once

What the two progress tables say of a file is a number of statements, and the log holds those and
the ones in flight: executed by the running process and not recorded yet.  A process that dies or
gives up with statements in flight leaves them to be executed again.
-/

namespace Choruz

open Relational MigrationFile

theorem nodup_map_of_filter {α β κ : Type*} [DecidableEq β] {key : α → κ} {g : α → β}
    (hg : ∀ a b, key a = key b → g a = g b) :
    ∀ {l : List α}, (∀ a ∈ l, ((l.filter (g · = g a)).map key).Nodup) → (l.map key).Nodup
  | [], _ => nodup_nil
  | a :: l, h => by
    rw [map_cons, nodup_cons]
    constructor
    · intro hm
      obtain ⟨b, hb, hk⟩ := mem_map.1 hm
      have ha := h a mem_cons_self
      rw [List.filter_cons_of_pos (by simp), map_cons, nodup_cons] at ha
      refine ha.1 (mem_map.2 ⟨b, mem_filter.2 ⟨hb, ?_⟩, hk⟩)
      simpa using hg b a hk
    · refine nodup_map_of_filter hg fun b hb => ?_
      refine (h b (mem_cons_of_mem a hb)).sublist (List.Sublist.map _ ?_)
      exact (List.sublist_cons_self a l).filter _

namespace MigrationFile

variable {f g : MigrationFile}

theorem length_executions : f.executions.length = f.statements.length := by
  simp [executions]

theorem filename_of_mem_executions {e : Executed} (h : e ∈ f.executions) :
    e.filename = f.filename := by
  obtain ⟨s, -, rfl⟩ := mem_map.1 h
  rfl

theorem filter_executions : f.executions.filter (·.filename = f.filename) = f.executions :=
  List.filter_eq_self.2 fun e he => by simpa using filename_of_mem_executions he

theorem nodup_key_executions : (f.executions.map Executed.key).Nodup := by
  have hk : f.executions.map Executed.key =
      (List.range' 0 f.statements.length).map fun i => (f.filename, i) := by
    rw [executions, map_map, ← List.zipIdx_map_snd, map_map]
    rfl
  rw [hk]
  exact List.Nodup.map (fun i k h => (Prod.mk.inj h).2) (List.nodup_range' ..)

end MigrationFile

/-- The statements of `f` that the tables record: `n` of them. -/
def MigrationDb.Records (db : MigrationDb) (f : MigrationFile) (n : ℕ) : Prop :=
  if f.stepwise then
    (∀ i, (f.filename, i) ∈ db.progress ↔ i < n) ∧
      (f.filename ∈ db.applied → n = f.statements.length)
  else (f.filename ∈ db.applied → n = f.statements.length) ∧ (f.filename ∉ db.applied → n = 0)

/-- The statements of `f` the process has executed and not yet recorded. -/
def MigrationStage.inFlight (f : MigrationFile) : MigrationStage → ℕ
  | .record g _ _ => if g = f then 1 else 0
  | .track g _ => if g = f ∧ g.stepwise = false then g.statements.length else 0
  | _ => 0

/-- The log has the recorded statements of a file and those in flight, in order. -/
def MigrationDb.Accounts (db : MigrationDb) (f : MigrationFile) (flight : ℕ) : Prop :=
  ∃ n, db.Records f n ∧ n + flight ≤ f.statements.length ∧
    db.log.filter (·.filename = f.filename) = f.executions.take (n + flight)

/-- From `db` to `db'` only the file of that name is touched. -/
structure MigrationDb.Touches (filename : String) (db db' : MigrationDb) : Prop where
  log : ∀ name ≠ filename, db'.log.filter (·.filename = name) = db.log.filter (·.filename = name)
  progress : ∀ name ≠ filename, ∀ i, (name, i) ∈ db'.progress ↔ (name, i) ∈ db.progress
  applied : ∀ name ≠ filename, name ∈ db'.applied ↔ name ∈ db.applied
  owned : ∀ e ∈ db'.log, e ∈ db.log ∨ e.filename = filename

theorem MigrationDb.Touches.accounts {db db' : MigrationDb} {filename : String} {f : MigrationFile}
    {flight : ℕ} (h : Touches filename db db') (hne : f.filename ≠ filename)
    (ha : db.Accounts f flight) : db'.Accounts f flight := by
  obtain ⟨n, hr, hb, he⟩ := ha
  refine ⟨n, ?_, hb, (h.log _ hne).trans he⟩
  unfold MigrationDb.Records at hr ⊢
  simpa [h.progress _ hne, h.applied _ hne] using hr

/-- The files before `file` are applied, and `rest` comes after it. -/
def MigrationDb.Reaches (db : MigrationDb) (dir : MigrationDir) (file : MigrationFile)
    (rest : List MigrationFile) : Prop :=
  ∃ before, dir.entries = before ++ file :: rest ∧ ∀ g ∈ before, g.filename ∈ db.applied

/-- The first `i` statements of a file that is not applied are recorded. -/
structure MigrationDb.Resumes (db : MigrationDb) (file : MigrationFile) (i : ℕ) : Prop where
  stepwise : file.stepwise
  unapplied : file.filename ∉ db.applied
  recorded : ∀ k < i, (file.filename, k) ∈ db.progress

/-- What holds where the process stands. -/
def MigrationStage.Sound (dir : MigrationDir) (db : MigrationDb) : MigrationStage → Prop
  | .check file rest => db.Reaches dir file rest
  | .batch file rest =>
    db.Reaches dir file rest ∧ file.stepwise = false ∧ file.filename ∉ db.applied
  | .progress file i rest =>
    db.Reaches dir file rest ∧ db.Resumes file i ∧ i < file.statements.length
  | .statement file i rest | .record file i rest =>
    db.Reaches dir file rest ∧ db.Resumes file i ∧ i < file.statements.length ∧
      (file.filename, i) ∉ db.progress
  | .track file rest =>
    db.Reaches dir file rest ∧ file.filename ∉ db.applied ∧
      (file.stepwise → ∀ k < file.statements.length, (file.filename, k) ∈ db.progress)
  | .returned (.ok ()) => ∀ f ∈ dir.entries, f.filename ∈ db.applied
  | .returned (.error _) => True

namespace MigrationWorld

variable {dir : MigrationDir} {w w' : MigrationWorld} {f g : MigrationFile}

def inFlight (w : MigrationWorld) (f : MigrationFile) : ℕ :=
  w.stage.elim 0 fun stage => stage.inFlight f

structure Sound (dir : MigrationDir) (w : MigrationWorld) : Prop where
  accounts : ∀ f ∈ dir, w.db.Accounts f (w.inFlight f)
  owned : ∀ e ∈ w.db.log, ∃ f ∈ dir, e.filename = f.filename
  stage : ∀ stage, w.stage = some stage → stage.Sound dir w.db

theorem sound_start : Sound dir {} where
  accounts f _ := by
    refine ⟨0, ?_, Nat.zero_le _, by simp [inFlight]⟩
    unfold MigrationDb.Records
    split
    · refine ⟨fun i => ?_, fun h => absurd h (not_mem_empty _)⟩
      simpa using not_mem_empty (f.filename, i)
    · exact ⟨fun h => absurd h (not_mem_empty _), fun _ => rfl⟩
  owned e he := by cases he
  stage stage h := by cases h

theorem mem_of_mem_entries (h : f ∈ dir.entries) : f ∈ dir := by
  rw [MigrationDir.entries, List.mem_insertionSort] at h
  exact (mem_filter.1 h).1

theorem mem_of_reaches {db : MigrationDb} {file : MigrationFile} {rest : List MigrationFile}
    (h : db.Reaches dir file rest) : file ∈ dir := by
  obtain ⟨before, he, -⟩ := h
  refine mem_of_mem_entries ?_
  rw [he]
  simp

theorem Sound.move (h : Sound dir w) {stage : Option MigrationStage}
    (hfl : ∀ f, w.inFlight f = 0) (hf' : ∀ s ∈ stage, ∀ f, s.inFlight f = 0)
    (hsnd : ∀ s ∈ stage, s.Sound dir w.db) : Sound dir { w with stage } where
  accounts f hf := by
    have hz : inFlight { w with stage } f = 0 := by
      cases stage with
      | none => rfl
      | some s => exact hf' s rfl f
    rw [hz, ← hfl f]
    exact h.accounts f hf
  owned := h.owned
  stage s hs := hsnd s hs

section Calls

variable {file : MigrationFile} {rest : List MigrationFile} {i : ℕ} {db : MigrationDb}
  {stage : MigrationStage}

theorem Sound.write (h : Sound dir w) (hfi : file ∈ dir) (ht : w.db.Touches file.filename db)
    (hfl : ∀ f ≠ file, w.inFlight f = 0) (hf' : ∀ f ≠ file, stage.inFlight f = 0)
    (ha : db.Accounts file (stage.inFlight file)) (hsnd : stage.Sound dir db) :
    Sound dir { db, stage := some stage } where
  accounts f hf := by
    by_cases hne : f = file
    · subst hne
      exact ha
    · have hn : f.filename ≠ file.filename := fun heq => hne (eq_of_key_eq hf hfi heq)
      have ho := ht.accounts hn (h.accounts f hf)
      rw [hfl f hne] at ho
      rw [inFlight, Option.elim_some, hf' f hne]
      exact ho
  owned e he := by
    rcases ht.owned e he with he | he
    · exact h.owned e he
    · exact ⟨file, hfi, he⟩
  stage s hs := by
    cases hs
    exact hsnd

theorem inFlight_eq (hst : w.stage = some stage) (f : MigrationFile) :
    w.inFlight f = stage.inFlight f := by
  simp [inFlight, hst]

theorem touches_append {es : List Executed} (hes : ∀ e ∈ es, e.filename = file.filename) :
    w.db.Touches file.filename { w.db with log := w.db.log ++ es } where
  log name hne := by
    have hn : es.filter (·.filename = name) = [] :=
      filter_eq_nil_iff.2 fun e he => by simpa [hes e he] using Ne.symm hne
    simp [hn]
  progress _ _ _ := Iff.rfl
  applied _ _ := Iff.rfl
  owned e he := by
    rcases mem_append.1 he with he | he
    · exact .inl he
    · exact .inr (hes e he)

theorem Sound.executeBatch (h : Sound dir w) (hst : w.stage = some (.batch file rest)) :
    Sound dir { db := w.db.executeBatch file, stage := some (.track file rest) } := by
  obtain ⟨hrch, hse, hu⟩ := h.stage _ hst
  refine h.write (mem_of_reaches hrch) (touches_append fun e he => filename_of_mem_executions he)
    (fun f _ => by simp [inFlight_eq hst, MigrationStage.inFlight])
    (fun f hne => by simp [MigrationStage.inFlight, Ne.symm hne]) ?_
    ⟨hrch, hu, fun hs => by simp [hse] at hs⟩
  obtain ⟨n, hr, -, hl⟩ := h.accounts file (mem_of_reaches hrch)
  have hz : n = 0 := by
    unfold MigrationDb.Records at hr
    rw [if_neg (by simp [hse])] at hr
    exact hr.2 hu
  subst hz
  have hn : w.db.log.filter (·.filename = file.filename) = [] := by
    simpa [inFlight_eq hst, MigrationStage.inFlight] using hl
  refine ⟨0, hr, by simp [MigrationStage.inFlight, hse], ?_⟩
  simp [MigrationDb.executeBatch, hn, filter_executions,
    MigrationStage.inFlight, hse, ← length_executions]

theorem records_eq {n : ℕ} (hr : w.db.Records file n) (hre : w.db.Resumes file i)
    (hn : (file.filename, i) ∉ w.db.progress) : n = i := by
  unfold MigrationDb.Records at hr
  rw [if_pos hre.stepwise] at hr
  have hge : ¬ i < n := fun hlt => hn ((hr.1 i).2 hlt)
  have hle : ¬ n < i := fun hlt => by
    have := (hr.1 n).1 (hre.recorded n hlt)
    omega
  omega

theorem Sound.executeStatement (h : Sound dir w) (hst : w.stage = some (.statement file i rest)) :
    Sound dir { db := w.db.executeStatement file i, stage := some (.record file i rest) } := by
  obtain ⟨hrch, hr, hlt, hnx⟩ := h.stage _ hst
  have hi : i < file.executions.length := by rwa [length_executions]
  have hg : file.executions[i]? = some file.executions[i] := getElem?_eq_getElem hi
  have hna : file.executions[i].filename = file.filename :=
    filename_of_mem_executions (List.getElem_mem hi)
  refine h.write (mem_of_reaches hrch) (touches_append fun e he => ?_)
    (fun f _ => by simp [inFlight_eq hst, MigrationStage.inFlight])
    (fun f hne => by simp [MigrationStage.inFlight, Ne.symm hne]) ?_
    ⟨hrch, ⟨hr.stepwise, hr.unapplied, hr.recorded⟩, hlt, hnx⟩
  · rw [hg, Option.toList_some, mem_singleton] at he
    rw [he, hna]
  · obtain ⟨n, hre, -, hl⟩ := h.accounts file (mem_of_reaches hrch)
    have hn := records_eq hre hr hnx
    subst hn
    have hl' : w.db.log.filter (·.filename = file.filename) = file.executions.take n := by
      simpa [inFlight_eq hst, MigrationStage.inFlight] using hl
    have ho : MigrationStage.inFlight file (.record file n rest) = 1 := if_pos rfl
    have hk : [file.executions[n]].filter (·.filename = file.filename) = [file.executions[n]] := by
      simp [hna]
    refine ⟨n, hre, by omega, ?_⟩
    rw [ho, List.take_add_one, MigrationDb.executeStatement, hg, Option.toList_some,
      filter_append, hl', hk]

theorem touches_insertProgress (h : w.db.insertProgress file i = some db) :
    w.db.Touches file.filename db ∧ (∀ k, (file.filename, k) ∈ db.progress ↔
      (file.filename, k) ∈ w.db.progress ∨ k = i) ∧ db.applied = w.db.applied ∧
      db.log = w.db.log := by
  obtain ⟨progress, hi, rfl⟩ := map_eq_some_iff.1 h
  refine ⟨⟨fun _ _ => rfl, fun name hne k => ?_, fun _ _ => Iff.rfl, fun e he => .inl he⟩,
    fun k => ?_, rfl, rfl⟩
  · rw [mem_insert? hi]
    simp [hne]
  · rw [mem_insert? hi]
    simp

theorem touches_insertApplied (h : w.db.insertApplied file = some db) :
    w.db.Touches file.filename db ∧ (∀ name, name ∈ db.applied ↔
      name ∈ w.db.applied ∨ name = file.filename) ∧ db.progress = w.db.progress ∧
      db.log = w.db.log := by
  obtain ⟨applied, hi, rfl⟩ := map_eq_some_iff.1 h
  refine ⟨⟨fun _ _ => rfl, fun _ _ _ => Iff.rfl, fun name hne => ?_, fun e he => .inl he⟩,
    fun name => mem_insert? hi, rfl, rfl⟩
  rw [mem_insert? hi]
  simp [hne]

theorem Sound.insertProgress (h : Sound dir w) (hst : w.stage = some (.record file i rest))
    (hi : w.db.insertProgress file i = some db) (hl : ∀ f, stage.inFlight f = 0)
    (hs : stage.Sound dir db) : Sound dir { db, stage := some stage } := by
  obtain ⟨hrch, hre, hlt, hnx⟩ := h.stage _ hst
  obtain ⟨ht, hp, ha, hlog⟩ := touches_insertProgress hi
  refine h.write (mem_of_reaches hrch) ht
    (fun f hne => by simp [inFlight_eq hst, MigrationStage.inFlight, Ne.symm hne])
    (fun f _ => hl f) ?_ hs
  obtain ⟨n, hr, hb, he⟩ := h.accounts file (mem_of_reaches hrch)
  have hn := records_eq hr hre hnx
  have ho : w.inFlight file = 1 := by simp [inFlight_eq hst, MigrationStage.inFlight]
  rw [ho] at hb he
  refine ⟨n + 1, ?_, by rw [hl]; exact hb, by rw [hl, hlog]; exact he⟩
  unfold MigrationDb.Records at hr ⊢
  rw [if_pos hre.stepwise] at hr ⊢
  refine ⟨fun k => ?_, fun hin => absurd (ha ▸ hin) hre.unapplied⟩
  rw [hp, hr.1]
  omega

theorem Sound.insertApplied (h : Sound dir w) (hst : w.stage = some (.track file rest))
    (hi : w.db.insertApplied file = some db) (hl : ∀ f, stage.inFlight f = 0)
    (hsnd : stage.Sound dir db) : Sound dir { db, stage := some stage } := by
  obtain ⟨hrch, hu, ha⟩ := h.stage _ hst
  obtain ⟨ht, happ, hp, hlog⟩ := touches_insertApplied hi
  refine h.write (mem_of_reaches hrch) ht
    (fun f hne => by simp [inFlight_eq hst, MigrationStage.inFlight, Ne.symm hne])
    (fun f _ => hl f) ?_ hsnd
  obtain ⟨n, hr, hb, he⟩ := h.accounts file (mem_of_reaches hrch)
  unfold MigrationDb.Records at hr
  rw [inFlight_eq hst] at hb he
  rcases hs : file.stepwise with _ | _
  · have hf : MigrationStage.inFlight file (.track file rest) = file.statements.length :=
      if_pos ⟨rfl, hs⟩
    rw [if_neg (by simp [hs])] at hr
    have hn := hr.2 hu
    subst hn
    rw [hf, Nat.zero_add] at he
    refine ⟨file.statements.length, ?_, by rw [hl]; exact le_rfl, ?_⟩
    · unfold MigrationDb.Records
      rw [if_neg (by simp [hs])]
      exact ⟨fun _ => rfl, fun hnot => absurd ((happ _).2 (.inr rfl)) hnot⟩
    · rw [hl, hlog]
      exact he
  · have hz : MigrationStage.inFlight file (.track file rest) = 0 := by
      simp [MigrationStage.inFlight, hs]
    rw [if_pos hs] at hr
    rw [hz] at hb he
    have hn : n = file.statements.length := by
      by_contra hne
      have := (hr.1 n).1 (ha hs n (by omega))
      omega
    refine ⟨n, ?_, by rw [hl]; exact hb, by rw [hl, hlog]; exact he⟩
    unfold MigrationDb.Records
    rw [if_pos hs, hp]
    exact ⟨hr.1, fun _ => hn⟩

end Calls

section Stages

variable {file : MigrationFile} {rest : List MigrationFile} {i : ℕ} {db db' : MigrationDb}
  {stage : MigrationStage}

theorem reaches_of_applied (h : db.Reaches dir file rest)
    (ha : ∀ name, name ∈ db.applied → name ∈ db'.applied) : db'.Reaches dir file rest := by
  obtain ⟨before, he, hb⟩ := h
  exact ⟨before, he, fun g hg => ha _ (hb g hg)⟩

theorem sound_next (h : db.Reaches dir file rest) (hf : file.filename ∈ db.applied) :
    (MigrationStage.next rest).Sound dir db := by
  obtain ⟨before, he, hb⟩ := h
  have hd : ∀ g ∈ before ++ [file], g.filename ∈ db.applied := forall_mem_snoc hb hf
  cases rest with
  | nil =>
    intro g hg
    exact hd g (he ▸ hg)
  | cons next rest => exact ⟨before ++ [file], by simp [he], hd⟩

theorem sound_nextStatement (hrch : db.Reaches dir file rest) (hr : db.Resumes file i) :
    (MigrationStage.nextStatement file i rest).Sound dir db := by
  unfold MigrationStage.nextStatement
  split
  · next hlt => exact ⟨hrch, hr, hlt⟩
  · next hge => exact ⟨hrch, hr.unapplied, fun _ k hk => hr.recorded k (by omega)⟩

theorem inFlight_next (f : MigrationFile) : (MigrationStage.next rest).inFlight f = 0 := by
  cases rest <;> rfl

theorem inFlight_nextStatement (hs : file.stepwise) (f : MigrationFile) :
    (MigrationStage.nextStatement file i rest).inFlight f = 0 := by
  unfold MigrationStage.nextStatement
  split
  · rfl
  · simp [MigrationStage.inFlight, hs]

theorem Sound.goto (h : Sound dir w) (hst : w.stage = some stage)
    (hf : ∀ f, stage.inFlight f = 0) {next : MigrationStage}
    (hf' : ∀ f, next.inFlight f = 0) (hs : next.Sound dir w.db) :
    Sound dir { w with stage := some next } := by
  refine h.move (fun f => (inFlight_eq hst f).trans (hf f)) ?_ ?_
  · rintro s ⟨⟩
    exact hf'
  · rintro s ⟨⟩
    exact hs

end Stages

theorem callMigration_cases {db db' : MigrationDb} {effect : Option MigrationDb}
    {out : CallOutcome} {next stage : MigrationStage} {fail : String → MigrationStage}
    (h : callMigration db effect out next fail = (db', stage)) :
    (out = .answered ∧ effect = some db' ∧ stage = next) ∨
    (∃ error, out = .answered ∧ effect = none ∧ db' = db ∧ stage = fail error) ∨
    (∃ error, out = .failed error ∧ db' = db ∧ stage = fail error) ∨
    ∃ error, out = .lost error ∧ db' = effect.getD db ∧ stage = fail error := by
  unfold callMigration at h
  split at h <;> cases h
  · exact .inl ⟨rfl, rfl, rfl⟩
  · exact .inr (.inl ⟨_, rfl, rfl, rfl, rfl⟩)
  · exact .inr (.inr (.inl ⟨_, rfl, rfl, rfl⟩))
  · exact .inr (.inr (.inr ⟨_, rfl, rfl, rfl⟩))

section Perform

variable {file : MigrationFile} {rest : List MigrationFile} {i : ℕ} {db : MigrationDb}
  {stage : MigrationStage} {outcome : CallOutcome}

section

variable (h : Sound dir w)
include h

theorem Sound.read {he next : MigrationStage} {what : String}
    (hst : w.stage = some he) (hh : ∀ f, he.inFlight f = 0)
    (hn : ∀ f, next.inFlight f = 0) (hs : next.Sound dir w.db)
    (hc : callMigration w.db (some w.db) outcome next (.fail what file) = (db, stage)) :
    Sound dir { db, stage := some stage } := by
  have hf : ∀ error, Sound dir { w with stage := some (.fail what file error) } :=
    fun error => h.goto hst hh (fun _ => rfl) trivial
  obtain ⟨-, heq, rfl⟩ | ⟨_, -, heq, -⟩ | ⟨error, -, rfl, rfl⟩ | ⟨error, -, rfl, rfl⟩ :=
    callMigration_cases hc
  · cases heq
    exact h.goto hst hh hn hs
  · cases heq
  · exact hf error
  · exact hf error

theorem Sound.check (hst : w.stage = some (.check file rest))
    (hp : w.db.perform outcome (.check file rest) = some (db, stage)) :
    Sound dir { db, stage := some stage } := by
  have hr : w.db.Reaches dir file rest := h.stage _ hst
  simp [MigrationDb.perform] at hp
  refine h.read hst (fun _ => rfl) ?_ ?_ hp
  · split
    · exact inFlight_next
    · split
      · next hs => exact inFlight_nextStatement hs
      · exact fun _ => rfl
  · split
    · next hso =>
      obtain ⟨name, hn⟩ := isSome_iff_exists.1 hso
      have hkey := key_of_lookup hn
      subst hkey
      exact sound_next hr (mem_of_lookup hn)
    · next hno =>
      have hu : file.filename ∉ w.db.applied := fun hi => hno (by
        rw [lookup_of_mem hi]
        rfl)
      split
      · next hs =>
        exact sound_nextStatement hr ⟨hs, hu, fun k hk => by omega⟩
      · next hs => exact ⟨hr, by simpa using hs, hu⟩

theorem Sound.progress (hst : w.stage = some (.progress file i rest))
    (hp : w.db.perform outcome (.progress file i rest) = some (db, stage)) :
    Sound dir { db, stage := some stage } := by
  obtain ⟨hrch, hr, hlt⟩ := h.stage _ hst
  simp [MigrationDb.perform] at hp
  refine h.read hst (fun _ => rfl) ?_ ?_ hp
  · split
    · exact inFlight_nextStatement hr.stepwise
    · exact fun _ => rfl
  · split
    · next hs =>
      obtain ⟨row, hrow⟩ := isSome_iff_exists.1 hs
      have hkey := key_of_lookup hrow
      subst hkey
      refine sound_nextStatement hrch ⟨hr.stepwise, hr.unapplied, fun k hk => ?_⟩
      rcases Nat.lt_succ_iff_lt_or_eq.1 hk with hk | rfl
      · exact hr.recorded k hk
      · exact mem_of_lookup hrow
    · next hn =>
      refine ⟨hrch, hr, hlt, fun hi => hn ?_⟩
      rw [lookup_of_mem hi]
      rfl

theorem Sound.batch (hst : w.stage = some (.batch file rest)) (hok : w.acknowledged (.call outcome))
    (hp : w.db.perform outcome (.batch file rest) = some (db, stage)) :
    Sound dir { db, stage := some stage } := by
  simp [MigrationDb.perform] at hp
  obtain ⟨-, heq, rfl⟩ | ⟨_, -, heq, -⟩ | ⟨error, -, rfl, rfl⟩ | ⟨error, rfl, -⟩ :=
    callMigration_cases hp
  · cases heq
    exact h.executeBatch hst
  · cases heq
  · exact h.goto hst (fun _ => rfl) (fun _ => rfl) trivial
  · simp [acknowledged, hst] at hok

theorem Sound.statement (hst : w.stage = some (.statement file i rest))
    (hok : w.acknowledged (.call outcome))
    (hp : w.db.perform outcome (.statement file i rest) = some (db, stage)) :
    Sound dir { db, stage := some stage } := by
  simp [MigrationDb.perform] at hp
  obtain ⟨-, heq, rfl⟩ | ⟨_, -, heq, -⟩ | ⟨error, -, rfl, rfl⟩ | ⟨error, rfl, -⟩ :=
    callMigration_cases hp
  · cases heq
    exact h.executeStatement hst
  · cases heq
  · exact h.goto hst (fun _ => rfl) (fun _ => rfl) trivial
  · simp [acknowledged, hst] at hok

theorem Sound.record (hst : w.stage = some (.record file i rest))
    (hok : w.acknowledged (.call outcome))
    (hp : w.db.perform outcome (.record file i rest) = some (db, stage)) :
    Sound dir { db, stage := some stage } := by
  obtain ⟨hrch, hr, -, hn⟩ := h.stage _ hst
  obtain ⟨db', hi⟩ : ∃ db', w.db.insertProgress file i = some db' := by
    obtain ⟨progress, hpr⟩ := Table.exists_insert? (t := w.db.progress)
      (a := (file.filename, i)) (lookup_eq_none.2 fun row hrow heq => hn (heq ▸ hrow))
    exact ⟨_, by rw [MigrationDb.insertProgress, hpr]; rfl⟩
  obtain ⟨-, hpr, ha, -⟩ := touches_insertProgress hi
  simp [MigrationDb.perform] at hp
  rw [hi] at hp
  obtain ⟨-, heq, rfl⟩ | ⟨_, -, heq, -⟩ | ⟨error, rfl, -⟩ | ⟨error, -, rfl, rfl⟩ :=
    callMigration_cases hp
  · cases heq
    refine h.insertProgress hst hi (inFlight_nextStatement hr.stepwise) ?_
    refine sound_nextStatement (reaches_of_applied hrch fun name hna => by rwa [ha])
      ⟨hr.stepwise, by rw [ha]; exact hr.unapplied, fun k hk => ?_⟩
    rw [hpr]
    rcases Nat.lt_succ_iff_lt_or_eq.1 hk with hk | hk
    · exact .inl (hr.recorded k hk)
    · exact .inr hk
  · cases heq
  · simp [acknowledged, hst] at hok
  · exact h.insertProgress hst hi (fun _ => rfl) trivial

theorem Sound.track (hst : w.stage = some (.track file rest)) (hok : w.acknowledged (.call outcome))
    (hp : w.db.perform outcome (.track file rest) = some (db, stage)) :
    Sound dir { db, stage := some stage } := by
  obtain ⟨hr, hu, -⟩ := h.stage _ hst
  obtain ⟨db', hi⟩ : ∃ db', w.db.insertApplied file = some db' := by
    obtain ⟨applied, ha⟩ := Table.exists_insert? (t := w.db.applied)
      (a := file.filename) (lookup_eq_none.2 fun name hn heq => hu (heq ▸ hn))
    exact ⟨_, by rw [MigrationDb.insertApplied, ha]; rfl⟩
  obtain ⟨-, ha, -, -⟩ := touches_insertApplied hi
  simp [MigrationDb.perform] at hp
  rw [hi] at hp
  obtain ⟨-, heq, rfl⟩ | ⟨_, -, heq, -⟩ | ⟨error, rfl, rfl, rfl⟩ | ⟨error, -, rfl, rfl⟩ :=
    callMigration_cases hp
  · cases heq
    refine h.insertApplied hst hi inFlight_next (sound_next ?_ ((ha _).2 (.inr rfl)))
    exact reaches_of_applied hr fun name hn => (ha name).2 (.inl hn)
  · cases heq
  · have hs : file.stepwise := by simpa [acknowledged, hst] using hok
    exact h.goto hst (fun f => by simp [MigrationStage.inFlight, hs]) (fun _ => rfl) trivial
  · exact h.insertApplied hst hi (fun _ => rfl) trivial

end

end Perform

theorem Sound.call (h : Sound dir w) {out : CallOutcome} {stage stage' : MigrationStage}
    {db : MigrationDb} (hok : w.acknowledged (.call out))
    (hst : w.stage = some stage) (hp : w.db.perform out stage = some (db, stage')) :
    Sound dir { db, stage := some stage' } := by
  cases stage with
  | check => exact h.check hst hp
  | batch => exact h.batch hst hok hp
  | progress => exact h.progress hst hp
  | statement => exact h.statement hst hok hp
  | record => exact h.record hst hok hp
  | track => exact h.track hst hok hp
  | returned => cases hp

theorem inFlight_of_crash (hok : w.acknowledged .crash) (f : MigrationFile) : w.inFlight f = 0 := by
  rcases w with ⟨db, _ | stage⟩
  · rfl
  cases stage with
  | record => simp [acknowledged] at hok
  | track file rest =>
    have hs : file.stepwise := by simpa [acknowledged] using hok
    simp [inFlight, MigrationStage.inFlight, hs]
  | check | batch | progress | statement | returned => rfl

theorem inFlight_of_not_running (hi : w.isRunning = false) (f : MigrationFile) :
    w.inFlight f = 0 := by
  rcases w with ⟨db, _ | stage⟩
  · rfl
  cases stage with
  | returned => rfl
  | check | batch | progress | statement | record | track => simp [isRunning] at hi

theorem Sound.step {act : MigrationAction} (h : Sound dir w)
    (hok : w.acknowledged act) (hs : step dir w act = some w') : Sound dir w' := by
  cases act with
  | start =>
    simp only [MigrationWorld.step] at hs
    split at hs
    · cases hs
    next hi =>
    cases hs
    refine h.move (inFlight_of_not_running (by simpa using hi)) ?_ ?_
    · rintro s ⟨⟩
      exact inFlight_next
    · rintro s ⟨⟩
      cases he : dir.entries with
      | nil =>
        intro f hf
        rw [he] at hf
        cases hf
      | cons file rest => exact ⟨[], he, fun g hg => by cases hg⟩
  | call outcome =>
    simp only [MigrationWorld.step, Option.bind_eq_bind, bind_eq_some_iff] at hs
    obtain ⟨stage, hst, ⟨db, stage'⟩, hp, hs⟩ := hs
    cases hs
    exact h.call hok hst hp
  | crash =>
    cases hs
    exact h.move (inFlight_of_crash hok) (by rintro s ⟨⟩) (by rintro s ⟨⟩)

theorem Sound.nodup_log (h : Sound dir w) : (w.db.log.map Executed.key).Nodup := by
  refine nodup_map_of_filter (g := Executed.filename) (fun a b ha => (Prod.mk.inj ha).1)
    fun e he => ?_
  obtain ⟨f, hf, hn⟩ := h.owned e he
  obtain ⟨n, -, -, hl⟩ := h.accounts f hf
  rw [hn, hl]
  exact nodup_key_executions.sublist ((List.take_sublist _ _).map _)

theorem Sound.executedOf_eq (h : Sound dir w) (hf : f ∈ dir) (hfl : w.inFlight f = 0)
    (ha : f.filename ∈ w.db.applied) : w.executedOf f = f.executions := by
  obtain ⟨n, hr, -, hl⟩ := h.accounts f hf
  have hn : n = f.statements.length := by
    unfold MigrationDb.Records at hr
    split at hr
    · exact hr.2 ha
    · exact hr.1 ha
  rw [hfl, hn, ← length_executions] at hl
  simpa [executedOf] using hl

/-- However calls fail or lose their answers and the process dies and is started again: as long as
every success of a statement is acknowledged and recorded, no statement succeeds twice, and where
`apply_migrations` returns `Ok` every migration is recorded once and its statements were executed
once each, in order. -/
theorem migrations_applied_once
    (h : Steps (restrict (step dir) fun w action => w.acknowledged action) {} w) :
    (w.db.log.map Executed.key).Nodup ∧ (w.stage = some (.returned (.ok ())) → ∀ f ∈ dir.entries,
      w.db.applied.rows.count f.filename = 1 ∧ w.executedOf f = f.executions) := by
  have hs : Sound dir w := h.keeps Sound.step sound_start
  refine ⟨hs.nodup_log, fun hst f hf => ?_⟩
  have ha : f.filename ∈ w.db.applied := hs.stage _ hst f hf
  have hn : w.db.applied.rows.Nodup := by simpa using w.db.applied.nodup
  exact ⟨List.count_eq_one_of_mem hn ha,
    hs.executedOf_eq (mem_of_mem_entries hf) (by simp [inFlight_eq hst,
      MigrationStage.inFlight]) ha⟩

def twoMigrations : MigrationDir where
  rows := [⟨"V002.sql", "CREATE INDEX CONCURRENTLY i ON t (a); ANALYZE t;"⟩,
    ⟨"V001.sql", "CREATE TABLE t (a INT)"⟩]
  nodup := by decide

def answered (n : ℕ) : List MigrationAction := List.replicate n (.call .answered)

def interrupted : List MigrationAction :=
  .start :: answered 8 ++ [.call (.failed "deadlock detected"), .start] ++ answered 6 ++
    [.crash, .start] ++ answered 5

theorem migrations_applied_once_interrupted :
    ∃ w, Steps (restrict (step twoMigrations) fun w action => w.acknowledged action) {} w ∧
      w.stage = some (.returned (.ok ())) ∧
      w.db.log.map Executed.key = [("V001.sql", 0), ("V002.sql", 0), ("V002.sql", 1)] ∧
      (w.db.log.map Executed.key).Nodup := by
  refine exists_run_and₂ interrupted ?_ fun _ hs _ => (migrations_applied_once hs).1
  decide +kernel

/-- The process dies after the batch of `V001.sql`, and after the first statement of `V002.sql`,
before either is recorded: both are executed again. -/
theorem unrecorded_statements_repeat :
    ∃ w, Steps (step twoMigrations) {} w ∧ w.db.log.map Executed.key =
      [("V001.sql", 0), ("V001.sql", 0), ("V002.sql", 0), ("V002.sql", 0)] := by
  refine exists_run (.start :: answered 2 ++ [.crash, .start] ++ answered 6 ++ [.crash, .start] ++
      answered 4) ?_
  decide +kernel

end MigrationWorld

end Choruz
