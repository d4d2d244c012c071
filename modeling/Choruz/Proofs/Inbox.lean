import Choruz.Inbox

/-!
# Staged files stay in the inbox

Below the inbox everything stands in directories, and no staging changes that or what is there.  So
each turn of a staging can be judged by itself: by the path its names resolve to, and by what
stands there.
-/

namespace Choruz

open Relational

variable {workDir : List String} {fetch : IncomingAttachment → Except String (List UInt8)}
  {failure : List String → Option (Option FileEntry)} {disk disk' : Disk} {s : Staging}
  {a b : IncomingAttachment} {attachments : List IncomingAttachment} {d path root : List String}

/-- Below `root` everything stands in directories. -/
def Disk.Rooted (root : List String) (disk : Disk) : Prop :=
  ∀ path, (disk path).isSome → ∀ d, root <+: d → d <+: path → d ≠ path → disk d = some .dir

/-- The path is strictly below the inbox. -/
def Below (workDir parts : List String) : Prop :=
  ∃ rest ≠ [], resolvePath workDir parts = workDir ++ ".choruz-inbox" :: rest

/-- No staged name is a dot segment. -/
def IncomingAttachment.Plain (a : IncomingAttachment) : Prop :=
  stagedFileName a.attachmentId ∉ [".", ".."] ∧ stagedFileName a.filename ∉ [".", ".."]

instance : Decidable a.Plain := inferInstanceAs (Decidable (_ ∧ _))

section Paths

variable (workDir a)

/-- The directories of the attachment are made. -/
abbrev Disk.Made (disk disk' : Disk) : Prop := disk.createDirs workDir (inboxDirs a) = some disk'

abbrev Disk.Absent (disk : Disk) : Prop :=
  disk.metadata workDir (inboxDirs a) (inboxPath a) = none

abbrev inboxRoot : List String := workDir ++ [".choruz-inbox"]

abbrev stagedPath : List String := resolvePath workDir (inboxPath a)

abbrev attachmentDir : List String := resolvePath workDir ((inboxPath a).take 2)

theorem attachmentDir_cases : attachmentDir workDir a = workDir
    ∨ inboxRoot workDir <+: attachmentDir workDir a
      ∧ (attachmentDir workDir a).length ≤ workDir.length + 2 := by
  by_cases h : stagedFileName a.attachmentId = ".." <;>
    by_cases h' : stagedFileName a.attachmentId = "." <;>
    simp [attachmentDir, resolvePath, inboxPath, h, h']

theorem resolvePath_inboxPath : stagedPath workDir a = attachmentDir workDir a
    ∨ stagedPath workDir a = (attachmentDir workDir a).dropLast
    ∨ ∃ name, stagedPath workDir a = attachmentDir workDir a ++ [name] := by
  by_cases h : stagedFileName a.filename = ".." <;>
    by_cases h' : stagedFileName a.filename = "." <;>
    simp [attachmentDir, resolvePath, inboxPath, h, h']

end Paths

/-- Above the path of an attachment the inbox has at most the attachment's directory. -/
theorem above_cases (hr : inboxRoot workDir <+: d) (hp : d <+: stagedPath workDir a)
    (hne : d ≠ stagedPath workDir a) : d = inboxRoot workDir ∨ d = attachmentDir workDir a := by
  have hd : d <+: attachmentDir workDir a := by
    rcases resolvePath_inboxPath workDir a with h | h | ⟨name, h⟩ <;> rw [h] at hp hne
    · exact hp
    · exact hp.trans (List.dropLast_prefix _)
    · exact (List.prefix_concat_iff.1 hp).resolve_left hne
  have hl := hr.length_le
  simp at hl
  rcases attachmentDir_cases workDir a with h | ⟨hdir, hle⟩
  · have := hd.length_le
    rw [h] at this
    omega
  · by_cases hs : d.length = workDir.length + 1
    · exact .inl (hr.eq_of_length (by simpa using hs.symm)).symm
    · exact .inr (hd.eq_of_length_le (by omega))

/-- A path below the inbox is the attachment's directory, or in it. -/
theorem Below.in_attachmentDir (h : Below workDir (inboxPath a)) :
    inboxRoot workDir <+: attachmentDir workDir a
      ∧ attachmentDir workDir a <+: stagedPath workDir a := by
  obtain ⟨rest, hr, hp⟩ := h
  have hl : workDir.length + 2 ≤ (stagedPath workDir a).length := by
    have := List.length_pos_iff.2 hr
    simp [hp]
    omega
  rcases attachmentDir_cases workDir a with hd | ⟨hro, hle⟩
  · rcases resolvePath_inboxPath workDir a with h | h | ⟨name, h⟩ <;> rw [h, hd] at hl
    · omega
    · rw [List.length_dropLast] at hl
      omega
    · simp at hl
  · refine ⟨hro, ?_⟩
    rcases resolvePath_inboxPath workDir a with h | h | ⟨name, h⟩
    · simp [h]
    · rw [h, List.length_dropLast] at hl
      omega
    · simp [h]

theorem createDirs_spec : ∀ {dirs : List (List String)} {disk : Disk},
    disk.createDirs workDir dirs = some disk' →
      (∀ dir ∈ dirs, disk' (resolvePath workDir dir) = some .dir) ∧ ∀ path, disk' path = disk path ∨
        disk path = none ∧ disk' path = some .dir ∧ ∃ dir ∈ dirs, resolvePath workDir dir = path
  | [], disk, h => by
    cases h
    simp
  | dir :: dirs, disk, h => by
    rw [Disk.createDirs] at h
    split at h
    next hn =>
      obtain ⟨hdirs, hr⟩ := createDirs_spec h
      have hs : disk.set (resolvePath workDir dir) .dir (resolvePath workDir dir) = some .dir :=
        if_pos rfl
      refine ⟨List.forall_mem_cons.2 ⟨?_, hdirs⟩, fun path => ?_⟩
      · rcases hr (resolvePath workDir dir) with h | h
        · exact h.trans hs
        · exact h.2.1
      · by_cases hp : path = resolvePath workDir dir
        · subst hp
          rcases hr (resolvePath workDir dir) with h | h
          · exact .inr ⟨hn, h.trans hs, dir, mem_cons_self, rfl⟩
          · exact .inr ⟨hn, h.2.1, dir, mem_cons_self, rfl⟩
        · have ho : disk.set (resolvePath workDir dir) .dir path = disk path := if_neg hp
          rcases hr path with h | ⟨hno, hd, e, he, heq⟩
          · exact .inl (h.trans ho)
          · exact .inr ⟨ho ▸ hno, hd, e, mem_cons_of_mem _ he, heq⟩
    next hd =>
      obtain ⟨hdirs, hr⟩ := createDirs_spec h
      refine ⟨List.forall_mem_cons.2 ⟨?_, hdirs⟩, fun path => ?_⟩
      · rcases hr (resolvePath workDir dir) with h | h
        · exact h.trans hd
        · exact h.2.1
      · exact (hr path).imp_right fun ⟨hno, hd, e, he, heq⟩ =>
          ⟨hno, hd, e, mem_cons_of_mem _ he, heq⟩
    · cases h

theorem metadata_eq_some {entry : FileEntry}
    (h : disk.metadata workDir (inboxDirs a) (inboxPath a) = some entry) :
    disk (stagedPath workDir a) = some entry := by
  unfold Disk.metadata at h
  split_ifs at h
  exact h

section Made

variable
  (hdirs : disk.Made workDir a disk')
include hdirs

theorem made_dirs : disk' (inboxRoot workDir) = some .dir
    ∧ disk' (attachmentDir workDir a) = some .dir := by
  have h := (createDirs_spec hdirs).1
  simp only [inboxDirs, List.forall_mem_cons] at h
  exact ⟨h.1, h.2.1⟩

variable (hdisk : disk.Rooted (inboxRoot workDir))
include hdisk

theorem rooted_createDirs : disk'.Rooted (inboxRoot workDir) := by
  intro path hs d hr hd hne
  obtain ⟨hm, hm'⟩ := made_dirs hdirs
  rcases (createDirs_spec hdirs).2 path with h | ⟨-, -, dir, hdir, rfl⟩
  · have ho := hdisk path (h ▸ hs) d hr hd hne
    rcases (createDirs_spec hdirs).2 d with h | h
    · exact h.trans ho
    · exact h.2.1
  · have hl := hr.length_le
    have hlt := Nat.lt_of_le_of_ne hd.length_le fun h => hne (hd.eq_of_length h)
    simp at hl
    rcases mem_cons.1 hdir with rfl | hdir
    · simp [resolvePath, inboxPath] at hlt
      omega
    · rw [mem_singleton.1 hdir] at hd hlt
      change d.length < (attachmentDir workDir a).length at hlt
      rcases attachmentDir_cases workDir a with h | ⟨-, hle⟩
      · rw [h] at hlt
        omega
      · have heq : inboxRoot workDir = d := hr.eq_of_length (by simp; omega)
        exact heq ▸ hm

theorem rooted_set (hf : disk' (stagedPath workDir a) ≠ some .dir) (entry : FileEntry) :
    (disk'.set (stagedPath workDir a) entry).Rooted (inboxRoot workDir) := by
  intro path hs d hr hd hne
  obtain ⟨hm, hm'⟩ := made_dirs hdirs
  by_cases hp : path = stagedPath workDir a
  · subst hp
    rw [Disk.set, if_neg hne]
    rcases above_cases hr hd hne with rfl | rfl
    · exact hm
    · exact hm'
  · rw [Disk.set, if_neg hp] at hs
    have hdir := rooted_createDirs hdirs hdisk path hs d hr hd hne
    rw [Disk.set, if_neg]
    · exact hdir
    · rintro rfl
      exact hf hdir

/-- Nothing stands below the inbox where a file is written. -/
theorem absent_of_written (hf : disk' (stagedPath workDir a) ≠ some .dir)
    (hn : disk.Absent workDir a) (hb : Below workDir (inboxPath a)) :
    disk (stagedPath workDir a) = none := by
  by_contra hs
  obtain ⟨hr, hd⟩ := hb.in_attachmentDir
  have hne : attachmentDir workDir a ≠ stagedPath workDir a := fun h =>
    hf (h ▸ (made_dirs hdirs).2)
  have hlt := Nat.lt_of_le_of_ne hd.length_le fun h => hne (hd.eq_of_length h)
  have ht := hdisk _ (Option.isSome_iff_ne_none.2 hs)
  have hd1 : disk (resolvePath workDir ((inboxPath a).take 1)) = some .dir :=
    ht _ List.prefix_rfl (hr.trans hd) fun h => by
      have := hr.length_le
      rw [← h] at hlt
      simp [resolvePath, inboxPath] at this hlt
      omega
  simp [Disk.Absent, Disk.metadata, inboxDirs, hd1, ht _ hr hd hne, hs] at hn

end Made

section Stage

variable (workDir fetch failure)

/-- What a turn makes of a staging. -/
inductive Turn (s : Staging) (a : IncomingAttachment) : Staging → Prop
  | present {entry : FileEntry}
    (h : s.disk.metadata workDir (inboxDirs a) (inboxPath a) = some entry) :
    Turn s a { s with listed := s.listed ++ [(a, inboxPath a)] }
  | refused (hnone : s.disk.Absent workDir a) (hno : ∀ bytes, fetch a = .ok bytes →
      s.disk.createDirs workDir (inboxDirs a) = none) : Turn s a s
  | prepared {disk : Disk} (hnone : s.disk.Absent workDir a) (hdirs : s.disk.Made workDir a disk)
    (hno : disk (stagedPath workDir a) ≠ some .dir →
      failure (stagedPath workDir a) = some none) : Turn s a { s with disk }
  | left {disk : Disk} {entry : FileEntry} {bytes : List UInt8}
    (hnone : s.disk.Absent workDir a) (hfetch : fetch a = .ok bytes)
    (hdirs : s.disk.Made workDir a disk) (hfile : disk (stagedPath workDir a) ≠ some .dir)
    (hfail : failure (stagedPath workDir a) = some (some entry)) :
    Turn s a { s with
      disk := disk.set (stagedPath workDir a) entry
      written := s.written ++ [inboxPath a] }
  | wrote {disk : Disk} {bytes : List UInt8} (hnone : s.disk.Absent workDir a)
    (hfetch : fetch a = .ok bytes) (hdirs : s.disk.Made workDir a disk)
    (hfile : disk (stagedPath workDir a) ≠ some .dir)
    (hfail : failure (stagedPath workDir a) = none) :
    Turn s a ⟨disk.set (stagedPath workDir a) (.file bytes),
      s.written ++ [inboxPath a], s.listed ++ [(a, inboxPath a)]⟩

theorem turn_stageAttachment (s : Staging) (a : IncomingAttachment) :
    Turn workDir fetch failure s a (stageAttachment workDir fetch failure s a) := by
  unfold stageAttachment
  dsimp only
  split
  next h => exact .present h
  next hn =>
    split
    next hfe => exact .refused hn fun bytes h => by cases hfe.symm.trans h
    next bytes hfe =>
      split
      next hdirs => exact .refused hn fun _ _ => hdirs
      next disk hdirs =>
        split_ifs with hfi
        · exact .prepared hn hdirs fun h => absurd hfi h
        split
        next hf => exact .prepared hn hdirs fun _ => hf
        next entry hf => exact .left hn hfe hdirs hfi hf
        next hf => exact .wrote hn hfe hdirs hfi hf

/-- Every path is below the inbox, and a listed file is the fetched one. -/
structure Sound (s : Staging) : Prop where
  written : ∀ parts ∈ s.written, Below workDir parts
  listed : ∀ x ∈ s.listed, Below workDir x.2 ∧ ∃ bytes, fetch x.1 = .ok bytes ∧
    s.disk (resolvePath workDir x.2) = some (.file bytes)

/-- What stands at the attachment's path when its turn comes is the file fetched for it, below the
inbox; and so is the path where something is written. -/
structure Fits (s : Staging) (a : IncomingAttachment) : Prop where
  present : ∀ entry, s.disk.metadata workDir (inboxDirs a) (inboxPath a) = some entry →
    Below workDir (inboxPath a) ∧ ∃ bytes, fetch a = .ok bytes ∧ entry = .file bytes
  written : ∀ bytes disk, s.disk.Absent workDir a → fetch a = .ok bytes →
    s.disk.Made workDir a disk → disk (stagedPath workDir a) ≠ some .dir →
    failure (stagedPath workDir a) ≠ some none → Below workDir (inboxPath a)

structure StageInv (s : Staging) : Prop where
  rooted : s.disk.Rooted (inboxRoot workDir)
  listed : ∀ x ∈ s.listed, Below workDir x.2 → (s.disk (resolvePath workDir x.2)).isSome

end Stage

namespace Turn

variable {s' : Staging} (hinv : StageInv workDir s) (h : Turn workDir fetch failure s a s')
include hinv h

/-- A turn leaves what is listed below the inbox. -/
theorem keeps : ∀ x ∈ s.listed, Below workDir x.2 →
    s'.disk (resolvePath workDir x.2) = s.disk (resolvePath workDir x.2) := by
  intro x hx hb
  have hs := hinv.listed x hx hb
  have hm : ∀ {disk : Disk}, s.disk.createDirs workDir (inboxDirs a) = some disk →
        disk (resolvePath workDir x.2) = s.disk (resolvePath workDir x.2) := by
    intro disk hdirs
    refine ((createDirs_spec hdirs).2 _).resolve_right fun hno => ?_
    rw [hno.1] at hs
    cases hs
  have hset : ∀ {disk : Disk} (entry : FileEntry), s.disk.createDirs workDir
      (inboxDirs a) = some disk → disk (stagedPath workDir a) ≠ some .dir →
      s.disk.Absent workDir a → disk.set (stagedPath workDir a) entry (resolvePath workDir x.2) =
          s.disk (resolvePath workDir x.2) := by
    intro disk entry hdirs hf hn
    rw [Disk.set, if_neg, hm hdirs]
    intro heq
    have hb' : Below workDir (inboxPath a) := by
      obtain ⟨rest, hr, hp⟩ := hb
      exact ⟨rest, hr, heq.symm.trans hp⟩
    rw [heq, absent_of_written hdirs hinv.rooted hf hn hb'] at hs
    cases hs
  cases h with
  | present | refused => rfl
  | prepared _ hdirs => exact hm hdirs
  | left hn _ hdirs hf => exact hset _ hdirs hf hn
  | wrote hn _ hdirs hf => exact hset _ hdirs hf hn

theorem inv : StageInv workDir s' := by
  have ho : ∀ x ∈ s.listed, Below workDir x.2 →
      (s'.disk (resolvePath workDir x.2)).isSome := fun x hx hb => by
    rw [h.keeps hinv x hx hb]
    exact hinv.listed x hx hb
  cases h with
  | present ht =>
    exact ⟨hinv.rooted, forall_mem_snoc ho fun _ => by rw [metadata_eq_some ht]; rfl⟩
  | refused => exact hinv
  | prepared _ hdirs => exact ⟨rooted_createDirs hdirs hinv.rooted, ho⟩
  | left _ _ hdirs hf => exact ⟨rooted_set hdirs hinv.rooted hf _, ho⟩
  | wrote _ _ hdirs hf =>
    exact ⟨rooted_set hdirs hinv.rooted hf _, forall_mem_snoc ho fun _ => by simp [Disk.set]⟩

end Turn

section Run

variable (fetch failure)

variable (workDir attachments)

/-- What stands at the path of an attachment is the file that was fetched for it. -/
def Genuine (disk : Disk) : Prop :=
  ∀ a ∈ attachments, ∀ entry ∈ disk (workDir ++ inboxPath a),
    ∃ bytes, fetch a = .ok bytes ∧ entry = .file bytes

/-- Names are plain, attachments of one path have one content, and a failed write leaves none. -/
structure Stageable : Prop where
  plain : ∀ a ∈ attachments, a.Plain
  same : ∀ a ∈ attachments, ∀ b ∈ attachments, inboxPath a = inboxPath b → fetch a = fetch b
  failed : ∀ path left, failure path = some left → left = none

end Run

theorem IncomingAttachment.Plain.resolvePath (h : a.Plain) :
    stagedPath workDir a = workDir ++ inboxPath a := by
  simp [IncomingAttachment.Plain] at h
  simp [Choruz.resolvePath, inboxPath, h]

theorem IncomingAttachment.Plain.below (h : a.Plain) : Below workDir (inboxPath a) :=
  ⟨_, List.cons_ne_nil _ _, h.resolvePath⟩

theorem genuine_createDirs (hg : Genuine workDir fetch attachments s.disk)
    (hdirs : s.disk.Made workDir a disk) : Genuine workDir fetch attachments disk := by
  intro b hb entry he
  rcases (createDirs_spec hdirs).2 (workDir ++ inboxPath b) with h | ⟨-, -, dir, hd, h⟩
  · exact hg b hb entry (h ▸ he)
  · have hl := congrArg List.length h
    rcases mem_cons.1 hd with rfl | hd
    · simp [resolvePath, inboxPath] at hl
    · rw [mem_singleton.1 hd] at hl
      change (attachmentDir workDir a).length = _ at hl
      rcases attachmentDir_cases workDir a with h | ⟨-, hle⟩
      · simp [h, inboxPath] at hl
      · simp [inboxPath] at hl
        omega

theorem Stageable.turn {s' : Staging} (hok : Stageable fetch failure attachments)
    (ha : a ∈ attachments) (hg : Genuine workDir fetch attachments s.disk)
    (h : Turn workDir fetch failure s a s') :
    Fits workDir fetch failure s a ∧ Genuine workDir fetch attachments s'.disk := by
  have hp := hok.plain a ha
  refine ⟨⟨fun entry he => ⟨hp.below, hg a ha entry ?_⟩, fun _ _ _ _ _ _ _ => hp.below⟩, ?_⟩
  · rw [← hp.resolvePath]
    exact metadata_eq_some he
  cases h with
  | present | refused => exact hg
  | prepared _ hdirs => exact genuine_createDirs hg hdirs
  | left _ _ _ _ hf => cases hok.failed _ _ hf
  | wrote _ hfe hdirs =>
    intro b hb entry he
    simp only [Option.mem_def, hp.resolvePath, Disk.set] at he
    split_ifs at he with heq
    · cases he
      exact ⟨_, (hok.same b hb a ha (List.append_cancel_left heq)).trans hfe, rfl⟩
    · exact genuine_createDirs hg hdirs b hb entry he

theorem Stageable.run (hok : Stageable fetch failure attachments) :
    ∀ {todo : List IncomingAttachment} {s : Staging}, todo ⊆ attachments →
      Genuine workDir fetch attachments s.disk →
      Along (stageAttachment workDir fetch failure) (Fits workDir fetch failure) s todo ∧
        Genuine workDir fetch attachments
          (todo.foldl (stageAttachment workDir fetch failure) s).disk
  | [], _, _, hg => ⟨trivial, hg⟩
  | a :: todo, s, hs, hg => by
    have ht := hok.turn (hs mem_cons_self) hg (turn_stageAttachment workDir fetch failure s a)
    have hr := hok.run (List.subset_of_cons_subset hs) ht.2
    exact ⟨⟨ht.1, hr.1⟩, hr.2⟩

section Retried

end Retried

end Choruz
