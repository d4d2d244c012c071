import Choruz.OutboxFiles

/-!
# A command file takes effect once

The name of a file tells who may read it.  While a pass carries out a command the file keeps the
name that the pass gave it, as long as nobody takes over the claim; so nobody else reads the file.
-/

namespace Choruz

open Relational Function

theorem FileClaim.eq_of_tokens {c d : FileClaim} (hb : c.base = d.base)
    (ht : c.tokens = d.tokens) : c = d := by
  obtain ⟨_, _, _⟩ := c
  obtain ⟨_, _, _⟩ := d
  simp_all [tokens]

namespace SpoolWorld

theorem update_eq_some_iff {α β : Type} [DecidableEq α] {g : α → Option β} {a b : α} {x : Option β}
    {y : β} : update g a x b = some y ↔ b = a ∧ x = some y ∨ b ≠ a ∧ g b = some y := by
  by_cases h : b = a <;> simp [h]

variable {w w' : SpoolWorld} {base : String} {tokens : List String} {c d : FileClaim}
  {f : CommandFile} {text : String}

def tokens? (w : SpoolWorld) (base : String) : Option (List String) := (w.files base).map (·.tokens)

structure Inv (w : SpoolWorld) : Prop where
  current : ∀ c text, w.stage c = some (.running text) → w.tokens? c.base = some c.tokens
  unclaimed : ∀ base, w.tokens? base = some [] → base ∉ w.effects
  claimed : ∀ c, (∃ s ∈ w.stage c, s ≠ .removing) → w.tokens? c.base = some c.tokens →
    c.base ∉ w.effects
  written : ∀ base ∉ w.written, w.tokens? base = none ∧ base ∉ w.effects
  effects : w.effects.Nodup

theorem tokens?_of_file (h : w.file? base tokens = some f) : w.tokens? base = some tokens := by
  simp [file?] at h
  simp [tokens?, h]

theorem tokens?_update (file : Option CommandFile) :
    tokens? { w with files := update w.files base file } = update w.tokens? base
      (file.map (·.tokens)) := by
  funext b
  by_cases hb : b = base <;> simp [tokens?, hb]

section

variable (h : w.Inv)
include h

theorem Inv.of_stage (ht : w'.tokens? = w.tokens?)
    (hst : ∀ d s, w'.stage d = some s → w.stage d = some s ∨ s = .removing)
    (hw : w'.written = w.written) (he : w'.effects = w.effects) : w'.Inv := by
  refine ⟨fun d text hd => ?_, by rw [ht, he]; exact h.unclaimed, fun d ⟨s, hs, hne⟩ => ?_,
    by rw [ht, hw, he]; exact h.written, he ▸ h.effects⟩
  · rw [ht]
    exact h.current d text ((hst d _ hd).resolve_right (by simp))
  · rw [ht, he]
    exact h.claimed d ⟨s, (hst d s hs).resolve_right hne, hne⟩

theorem Inv.set {s : Option ClaimStage} (hs : ∀ t, s = some t → t = .removing) :
    Inv { w with stage := update w.stage c s } := by
  refine h.of_stage rfl (fun d t ht => ?_) rfl rfl
  rcases update_eq_some_iff.1 ht with ⟨-, ht⟩ | ⟨-, ht⟩
  · exact .inr (hs t ht)
  · exact .inl ht

/-- One file gets another name, comes or goes, while nobody carries it out. -/
theorem Inv.of_file {new : Option (List String)} (ht : w'.tokens? = update w.tokens? base new)
    (hm : ∀ ts, new = some ts → base ∉ w.effects)
    (hst : ∀ d s, d.base ≠ base → w'.stage d = some s → w.stage d = some s)
    (hr : ∀ d text, d.base = base → w'.stage d ≠ some (.running text))
    (hw : ∀ b ∉ w'.written, b ∉ w.written ∧ (b = base → new = none))
    (he : w'.effects = w.effects) : w'.Inv := by
  have ho : ∀ {b}, b ≠ base → w'.tokens? b = w.tokens? b := fun hb => by simp [ht, hb]
  have hse : w'.tokens? base = new := by simp [ht]
  refine ⟨fun d text hd => ?_, fun b hb => ?_, fun d ⟨s, hs, hne⟩ hd => ?_, fun b hb => ?_,
    he ▸ h.effects⟩
  · have hba : d.base ≠ base := fun heq => hr d text heq hd
    rw [ho hba]
    exact h.current d text (hst d _ hba hd)
  · rw [he]
    by_cases hba : b = base
    · exact hba ▸ hm [] (hse.symm.trans (hba ▸ hb))
    · exact h.unclaimed b (ho hba ▸ hb)
  · rw [he]
    by_cases hba : d.base = base
    · exact hba ▸ hm d.tokens (hse.symm.trans (hba ▸ hd))
    · exact h.claimed d ⟨s, hst d s hba hs, hne⟩ (ho hba ▸ hd)
  · obtain ⟨hb, hnew⟩ := hw b hb
    obtain ⟨hn, hm⟩ := h.written b hb
    refine ⟨?_, he ▸ hm⟩
    by_cases hba : b = base
    · rw [hba, hse, hnew hba]
    · rw [ho hba, hn]

theorem Inv.execute (hc : w.stage c = some (.running text)) : Inv { w with
    effects := c.base :: w.effects
    stage := update w.stage c (some .removing) } := by
  have hcur := h.current c text hc
  have hnew := h.claimed c ⟨_, hc, by simp⟩ hcur
  have ho : ∀ {d s}, update w.stage c (some .removing) d = some s → s ≠ .removing →
      d ≠ c ∧ w.stage d = some s := fun hd hs =>
    (update_eq_some_iff.1 hd).resolve_left fun heq => hs (Option.some.inj heq.2).symm
  refine ⟨fun d text hd => h.current d text (ho hd (by simp)).2, fun b hb hm => ?_,
    fun d ⟨s, hs, hne⟩ hd hm => ?_, fun b hb => ?_, nodup_cons.2 ⟨hnew, h.effects⟩⟩
  · rcases mem_cons.1 hm with rfl | hm
    · cases hcur.symm.trans hb
    · exact h.unclaimed b hb hm
  · obtain ⟨hdc, hs⟩ := ho hs hne
    rcases mem_cons.1 hm with hba | hm
    · have ht := hcur.symm.trans (hba ▸ hd)
      exact hdc (FileClaim.eq_of_tokens hba (Option.some.inj ht).symm)
    · exact h.claimed d ⟨s, hs, hne⟩ hd hm
  · obtain ⟨hn, hma⟩ := h.written b hb
    refine ⟨hn, fun hm => ?_⟩
    rcases mem_cons.1 hm with rfl | hm
    · cases hn.symm.trans hcur
    · exact hma hm

theorem Inv.step {keyed : String → Bool} {a : SpoolAction} (hok : w.sparesClaims a)
    (hst : w.step keyed a = some w') : w'.Inv := by
  cases a with simp only [SpoolWorld.step] at hst
  | write base text =>
    split_ifs at hst with hnew
    cases hst
    obtain ⟨hn, hm⟩ := h.written base hnew
    refine h.of_file (tokens?_update _) (fun _ _ => hm) (fun _ _ _ hs => hs)
      (fun d text hd hs => ?_) (fun b hb => ?_) rfl
    · cases hn.symm.trans (hd ▸ h.current d text hs)
    · obtain ⟨hne, hb⟩ := not_or.1 (mt mem_cons.2 hb)
      exact ⟨hb, fun heq => absurd heq hne⟩
  | claim c =>
    obtain ⟨f, hf, rfl⟩ := map_eq_some_iff.1 hst
    have ht := tokens?_of_file (filter_eq_some_iff.1 hf).1
    have hr : ∀ d text, w.stage d = some (.running text) → d.base ≠ c.base := by
      intro d text hd hba
      have he := ht.symm.trans (hba ▸ h.current d text hd)
      obtain ⟨base, token, _ | ⟨token', earlier⟩⟩ := c <;> cases he
      subst hba
      simp [sparesClaims, hd] at hok
    refine h.of_file (tokens?_update _) (fun _ _ => ?_) (fun d s hd hs => ?_)
      (fun d text hd hs => ?_) (fun b hb => ⟨hb, fun heq => ?_⟩) rfl
    · obtain ⟨base, token, _ | ⟨token', earlier⟩⟩ := c
      · exact h.unclaimed _ ht
      · simp only [sparesClaims, and_eq_true, decide_eq_true_eq] at hok
        exact hok.1
    · exact ((update_eq_some_iff.1 hs).resolve_left fun heq => hd (by rw [heq.1])).2
    · obtain ⟨-, hs⟩ := (update_eq_some_iff.1 hs).resolve_left fun heq => nomatch heq.2
      exact hr d text hs hd
    · cases (h.written b hb).1.symm.trans (heq ▸ ht)
  | refresh c =>
    split_ifs at hst
    obtain ⟨f, hf, rfl⟩ := map_eq_some_iff.1 hst
    refine h.of_stage ((tokens?_update _).trans ?_) (fun _ _ hs => .inl hs) rfl rfl
    rw [update_eq_self_iff, tokens?_of_file hf]
    exact congrArg some (of_decide_eq_true (filter_eq_some_iff.1 hf).2)
  | read c ok =>
    split_ifs at hst with hc
    split at hst <;> cases hst
    · exact h.set (by simp)
    next f hf =>
      have ht := tokens?_of_file (filter_eq_some_iff.1 hf).1
      refine ⟨fun d text hd => ?_, h.unclaimed, fun d ⟨s, hs, hne⟩ => ?_, h.written, h.effects⟩
      · rcases update_eq_some_iff.1 hd with ⟨rfl, -⟩ | ⟨-, hd⟩
        · exact ht
        · exact h.current d text hd
      · rcases update_eq_some_iff.1 hs with ⟨rfl, -⟩ | ⟨-, hs⟩
        · exact h.claimed d ⟨_, not_not.1 hc, by simp⟩
        · exact h.claimed d ⟨s, hs, hne⟩
  | execute c effect =>
    split at hst
    next text hc =>
      split_ifs at hst <;> cases hst
      · exact h.execute hc
      · exact h.set (by simp)
    · cases hst
  | remove c ok =>
    split_ifs at hst with hc hf <;> cases hst
    · obtain ⟨f, hf⟩ := isSome_iff_exists.1 (and_eq_true_iff.1 hf).2
      have ho : ∀ {d s}, update w.stage c none d = some s → d ≠ c ∧ w.stage d = some s :=
        fun hs => (update_eq_some_iff.1 hs).resolve_left fun heq => nomatch heq.2
      refine h.of_file (tokens?_update none) (by simp) (fun d s _ hs => (ho hs).2)
        (fun d text hd hs => ?_) (fun b hb => ⟨hb, fun _ => rfl⟩) rfl
      have ht := (tokens?_of_file hf).symm.trans (hd ▸ h.current d text (ho hs).2)
      exact (ho hs).1 (FileClaim.eq_of_tokens hd (Option.some.inj ht).symm)
    · exact h.set (by simp)
  | crash c =>
    cases hst
    exact h.set (by simp)
  | wait seconds =>
    cases hst
    exact { h with }

end

/-- Where no claim is taken over from a pass at work, nor of a command that has taken effect, each
file takes effect at most once. -/
theorem command_file_executed_once {keyed : String → Bool}
    (h : Steps (restrict (step · keyed) fun w a => w.sparesClaims a) {} w) : w.effects.Nodup := by
  have hi : w.Inv := by
    refine h.keeps (·.step) ⟨?_, ?_, ?_, ?_, nodup_nil⟩
    all_goals simp [tokens?]
  exact hi.effects

/-- A claim is made, and its command carried out. -/
def executing (c : FileClaim) : List SpoolAction :=
  [.claim c, .refresh c, .read c true, .execute c true]

theorem command_file_executed_once_two : ∃ w,
    Steps (restrict (step · fun _ => false) fun w a => w.sparesClaims a) {} w
      ∧ w.effects = ["b", "a"] ∧ w.effects.Nodup := by
  refine exists_run_and ([.write "a" "hi", .write "b" "ho", .claim ⟨"b", "s", []⟩,
      .crash ⟨"b", "s", []⟩, .wait 60] ++ executing ⟨"a", "t", []⟩ ++ [.remove ⟨"a", "t", []⟩ true]
        ++ executing ⟨"b", "u", ["s"]⟩) ?_ fun _ hw _ => command_file_executed_once hw
  decide +kernel

/-- A message is sent twice: a minute later a second pass takes over a file that the first one is
still at work on. -/
theorem command_file_executed_twice : ∃ w, Steps (step · fun _ => false) {} w
    ∧ w.written = ["a"] ∧ w.effects = ["a", "a"] := by
  refine exists_run ([.write "a" "hi", .claim ⟨"a", "t", []⟩, .refresh ⟨"a", "t", []⟩,
      .read ⟨"a", "t", []⟩ true,
        .wait 60] ++ executing ⟨"a", "u", ["t"]⟩ ++ [.execute ⟨"a", "t", []⟩ true]) ?_
  decide +kernel

end SpoolWorld

end Choruz
