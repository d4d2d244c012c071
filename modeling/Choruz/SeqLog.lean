import Choruz.Slots
import Mathlib

/-!
# A log numbered by a sequence

Rows of a table with a serial key: an insert draws the next number of the sequence at once, and
the row is seen by others only when its transaction commits.  A number is never drawn twice, and
one drawn by a transaction that is rolled back is never used.  Transactions commit in any order,
so a lower number may become visible after a higher one.
-/

namespace Relational

structure Entry (α : Type*) where
  pos : ℕ
  val : α
deriving DecidableEq

/-- The last number drawn, the committed rows, and the rows of each open transaction. -/
structure SeqLog (α : Type*) where
  drawn : ℕ
  visible : List (Entry α)
  pending : List (List (Entry α))
  positive : ∀ e ∈ visible ++ pending.flatten, 0 < e.pos
  bounded : ∀ e ∈ visible ++ pending.flatten, e.pos ≤ drawn
  nodup : ((visible ++ pending.flatten).map Entry.pos).Nodup

theorem flatten_set_perm {β : Type*} {xs : List β} {x : β} :
    ∀ {ts : List (List β)} {i : ℕ}, ts[i]? = some xs →
      (ts.set i (xs ++ [x])).flatten.Perm (x :: ts.flatten)
  | [], _, h => by simp at h
  | t :: ts, 0, h => by
    simp only [List.getElem?_cons_zero, Option.some.injEq] at h
    subst h
    simp only [List.set_cons_zero, List.flatten_cons, List.append_assoc]
    exact List.perm_middle
  | t :: ts, i + 1, h => by
    simp at h
    exact ((flatten_set_perm h).append_left t).trans List.perm_middle

theorem flatten_eraseIdx_perm {β : Type*} {xs : List β} :
    ∀ {ts : List (List β)} {i : ℕ}, ts[i]? = some xs →
      (xs ++ (ts.eraseIdx i).flatten).Perm ts.flatten
  | [], _, h => by simp at h
  | t :: ts, 0, h => by
    simp at h
    simp [h]
  | t :: ts, i + 1, h => by
    simp at h
    simp
    refine List.Perm.trans ?_ ((flatten_eraseIdx_perm h).append_left t)
    rw [← List.append_assoc, ← List.append_assoc]
    exact List.perm_append_comm.append_right _

namespace SeqLog

variable {α : Type*}

def empty : SeqLog α := ⟨0, [], [], by simp, by simp, by simp⟩

variable (log : SeqLog α) {i : ℕ}

def entries : List (Entry α) := log.visible ++ log.pending.flatten

def begin : SeqLog α where
  drawn := log.drawn
  visible := log.visible
  pending := log.pending ++ [[]]
  positive := by simpa using log.positive
  bounded := by simpa using log.bounded
  nodup := by simpa using log.nodup

def insert (i : ℕ) (a : α) : Option (SeqLog α) :=
  match h : log.pending[i]? with
  | none => none
  | some xs =>
    have hp : (log.visible ++ (log.pending.set i (xs ++ [⟨log.drawn + 1, a⟩])).flatten).Perm
        (⟨log.drawn + 1, a⟩ :: (log.visible ++ log.pending.flatten)) :=
      ((flatten_set_perm h).append_left _).trans List.perm_middle
    some
      { drawn := log.drawn + 1
        visible := log.visible
        pending := log.pending.set i (xs ++ [⟨log.drawn + 1, a⟩])
        positive := by
          intro e he
          rcases mem_cons.1 (hp.mem_iff.1 he) with rfl | he
          · exact Nat.succ_pos _
          · exact log.positive e he
        bounded := by
          intro e he
          rcases mem_cons.1 (hp.mem_iff.1 he) with rfl | he
          · exact le_rfl
          · exact (log.bounded e he).trans (Nat.le_succ _)
        nodup := by
          rw [(hp.map Entry.pos).nodup_iff, map_cons, nodup_cons]
          refine ⟨fun hm => ?_, log.nodup⟩
          obtain ⟨e, he, hpos⟩ := mem_map.1 hm
          exact absurd (log.bounded e he) (by rw [hpos]; exact Nat.not_succ_le_self _) }

def commit (i : ℕ) : Option (SeqLog α) :=
  match h : log.pending[i]? with
  | none => none
  | some xs =>
    have hp : ((log.visible ++ xs) ++ (log.pending.eraseIdx i).flatten).Perm
        (log.visible ++ log.pending.flatten) := by
      rw [List.append_assoc]
      exact (flatten_eraseIdx_perm h).append_left _
    some
      { drawn := log.drawn
        visible := log.visible ++ xs
        pending := log.pending.eraseIdx i
        positive := fun e he => log.positive e (hp.mem_iff.1 he)
        bounded := fun e he => log.bounded e (hp.mem_iff.1 he)
        nodup := by rw [(hp.map Entry.pos).nodup_iff]; exact log.nodup }

def rollback (i : ℕ) : SeqLog α :=
  have hs : (log.visible ++ (log.pending.eraseIdx i).flatten).Sublist
      (log.visible ++ log.pending.flatten) :=
    ((List.eraseIdx_sublist _ _).flatten).append_left _
  { drawn := log.drawn
    visible := log.visible
    pending := log.pending.eraseIdx i
    positive := fun e he => log.positive e (hs.subset he)
    bounded := fun e he => log.bounded e (hs.subset he)
    nodup := (hs.map Entry.pos).nodup log.nodup }

theorem mem_entries {log : SeqLog α} {e : Entry α} :
    e ∈ log.entries ↔ e ∈ log.visible ∨ e ∈ log.pending.flatten := mem_append

/-- Nothing is renumbered, and what is new has a number not drawn before. -/
structure Extends (log log' : SeqLog α) : Prop where
  drawn : log.drawn ≤ log'.drawn
  entries : ∀ e ∈ log'.entries, e ∈ log.entries ∨ log.drawn < e.pos
  pending : ∀ e ∈ log'.pending.flatten, e ∈ log.pending.flatten ∨ log.drawn < e.pos

theorem extends_begin (log : SeqLog α) : Extends log log.begin := by
  refine ⟨le_rfl, fun e he => .inl ?_, fun e he => .inl ?_⟩
  · simpa [entries, begin] using he
  · simpa [begin] using he

theorem extends_insert {log log' : SeqLog α} {a : α} (h : log.insert i a = some log') :
    Extends log log' := by
  unfold insert at h
  split at h
  · cases h
  rename_i xs hi
  cases h
  have new : ∀ e ∈ (log.pending.set i (xs ++ [⟨log.drawn + 1, a⟩])).flatten,
      e ∈ log.pending.flatten ∨ log.drawn < e.pos := by
    intro e he
    rcases mem_cons.1 ((flatten_set_perm hi).mem_iff.1 he) with rfl | he
    · exact .inr (Nat.lt_succ_self _)
    · exact .inl he
  refine ⟨Nat.le_succ _, fun e he => ?_, new⟩
  rcases mem_entries.1 he with he | he
  · exact .inl (mem_entries.2 (.inl he))
  · exact (new e he).imp_left fun he => mem_entries.2 (.inr he)

theorem extends_commit {log log' : SeqLog α} (h : log.commit i = some log') :
    Extends log log' := by
  unfold commit at h
  split at h
  · cases h
  rename_i xs hi
  cases h
  have hp := flatten_eraseIdx_perm hi
  refine ⟨le_rfl, fun e he => .inl ?_, fun e he => .inl ?_⟩
  · simp only [entries, List.append_assoc, mem_append] at he ⊢
    exact he.imp_right fun he => hp.mem_iff.1 (mem_append.2 he)
  · exact hp.mem_iff.1 (mem_append_right _ he)

theorem extends_rollback (log : SeqLog α) (i : ℕ) : Extends log (log.rollback i) := by
  have hs : ∀ e ∈ (log.pending.eraseIdx i).flatten, e ∈ log.pending.flatten :=
    fun e he => ((List.eraseIdx_sublist _ _).flatten).subset he
  refine ⟨le_rfl, fun e he => .inl ?_, fun e he => .inl (hs e he)⟩
  exact mem_entries.2 ((mem_entries.1 he).imp_right (hs e))

section Reading

variable (P : α → Prop) (lo hi : ℕ) {log log' : SeqLog α}

/-- No open transaction holds a number up to `hi` for a row of `P`. -/
def Settled (log : SeqLog α) : Prop :=
  hi ≤ log.drawn ∧ ∀ e ∈ log.pending.flatten, P e.val → hi < e.pos

/-- Every row of `P` numbered above `lo` and up to `hi` meets `Q`, now and whatever commits. -/
def Covers (log : SeqLog α) (Q : Entry α → Prop) : Prop :=
  hi ≤ max lo log.drawn ∧ ∀ e ∈ log.entries, P e.val → lo < e.pos → e.pos ≤ hi → Q e

variable {P lo hi} {Q Q' : Entry α → Prop}

theorem Settled.extends (h : log.Settled P hi) (hx : Extends log log') : log'.Settled P hi := by
  refine ⟨h.1.trans hx.drawn, fun e he hP => ?_⟩
  rcases hx.pending e he with he | hp
  · exact h.2 e he hP
  · exact lt_of_le_of_lt h.1 hp

theorem Settled.visible (h : log.Settled P hi) {e : Entry α} (he : e ∈ log.entries) (hP : P e.val)
    (hpos : e.pos ≤ hi) : e ∈ log.visible :=
  (mem_entries.1 he).resolve_right fun hp => absurd (h.2 e hp hP) (not_lt.2 hpos)

theorem Covers.refl (log : SeqLog α) : log.Covers P lo lo Q :=
  ⟨le_max_left _ _, fun _ _ _ hl hh => absurd hl (not_lt.2 hh)⟩

theorem Covers.extends (h : log.Covers P lo hi Q) (hx : Extends log log') :
    log'.Covers P lo hi Q := by
  refine ⟨h.1.trans (max_le_max le_rfl hx.drawn), fun e he hP hl hh => ?_⟩
  rcases hx.entries e he with he | hp
  · exact h.2 e he hP hl hh
  · exact absurd (hh.trans h.1) (not_le.2 (max_lt hl hp))

theorem Covers.mono (h : log.Covers P lo hi Q) (hQ : ∀ e, Q e → Q' e) : log.Covers P lo hi Q' :=
  ⟨h.1, fun e he hP hl hh => hQ e (h.2 e he hP hl hh)⟩

theorem Covers.append {mid : ℕ} (h : log.Covers P lo mid Q) (h' : log.Covers P mid hi Q) :
    log.Covers P lo hi Q := by
  refine ⟨h'.1.trans (max_le h.1 (le_max_right _ _)), fun e he hP hl hh => ?_⟩
  rcases le_or_gt e.pos mid with hm | hm
  · exact h.2 e he hP hl hm
  · exact h'.2 e he hP hm hh

end Reading

/-- The committed rows of `p` numbered above `lo` and up to `hi`, in number order, `n` of them at
most. -/
def window (log : SeqLog α) (p : α → Bool) (lo hi n : ℕ) : List (Entry α) :=
  ((log.visible.filter fun e => p e.val && decide (lo < e.pos) && decide (e.pos ≤ hi)).insertionSort
    fun a b => a.pos ≤ b.pos).take n

section Window

variable {log : SeqLog α} {p : α → Bool} {lo hi n : ℕ} {e : Entry α}

theorem mem_window (h : e ∈ log.window p lo hi n) :
    e ∈ log.visible ∧ p e.val ∧ lo < e.pos ∧ e.pos ≤ hi := by
  have h := List.mem_of_mem_take h
  simpa [and_assoc] using h

theorem covers_window {m : Entry α} (hs : log.Settled (p ·) hi)
    (hm : (log.window p lo hi n).getLast? = some m) :
    log.Covers (p ·) lo m.pos (· ∈ log.window p lo hi n) := by
  have hmem := List.mem_of_getLast? hm
  obtain ⟨hmv, -, -, hmhi⟩ := mem_window hmem
  refine ⟨le_max_of_le_right (hmhi.trans hs.1), fun e he hP hl hp => ?_⟩
  have hv := hs.visible he hP (hp.trans hmhi)
  set rows := (log.visible.filter fun e =>
    p e.val && decide (lo < e.pos) && decide (e.pos ≤ hi)).insertionSort
      fun a b => a.pos ≤ b.pos with hr
  have hin : e ∈ rows := by
    rw [List.mem_insertionSort]
    simp [hv, hP, hl, hp.trans hmhi]
  rw [← List.take_append_drop n rows, mem_append] at hin
  rcases hin with ht | hd
  · exact ht
  -- past the cut every number is at least the last one taken, and no number is there twice
  have hso : rows.Pairwise fun a b => a.pos ≤ b.pos := List.pairwise_insertionSort _ _
  rw [← List.take_append_drop n rows, List.pairwise_append] at hso
  have hle : m.pos ≤ e.pos := hso.2.2 m hmem e hd
  have hem : e = m := List.inj_on_of_nodup_map log.nodup he (mem_entries.2 (.inl hmv))
    (le_antisymm hp hle)
  rw [hem]
  exact hmem

end Window

end SeqLog

end Relational
