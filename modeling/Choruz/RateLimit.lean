import Choruz.Slots
import Mathlib

/-!
# The sliding-window rate limiter

`check_window` on the timestamps of one principal.  Instants are numbers of nanoseconds.  As far as
later calls can tell, the entries are the accepted calls: a refused call drops only what has left
the window.  So the accepted calls that share a minute are entries of the last of them.
-/

namespace Choruz

/-- `Duration::minutes(1)`. -/
def window : Int := 60000000000

structure RateLimited where
  retryAfterMs : ℕ

/-- The answer, and the timestamps that are left. -/
def checkWindow (limit : ℕ) (entries : List Int) (now : Int) :
    Except RateLimited Unit × List Int :=
  let entries := entries.filter (now - window < ·)
  if limit ≤ entries.length then
    let remaining := entries.min?.getD now + window - now
    (.error ⟨(remaining.toNat + 999999) / 1000000 % 2 ^ 64⟩, entries)
  else (.ok (), entries ++ [now])

/-- The calls made so far: the timestamps they left, and those of the accepted ones. -/
structure Limiter where
  entries : List Int := []
  accepted : List Int := []

namespace Limiter

section

variable (limit : ℕ)

def call (l : Limiter) (now : Int) : Limiter :=
  match checkWindow limit l.entries now with
  | (.ok _, entries) => ⟨entries, l.accepted ++ [now]⟩
  | (.error _, entries) => ⟨entries, l.accepted⟩

def after (times : List Int) : Limiter := times.foldl (call limit) {}

/-- The answers of calls at the given times. -/
def answers : Limiter → List Int → List (Except RateLimited Unit)
  | _, [] => []
  | l, now :: times => (checkWindow limit l.entries now).1 :: answers (l.call limit now) times

end

open Relational

variable {limit : ℕ} {l : Limiter} {now t : Int} {r : RateLimited}

def recent (now : Int) (entries : List Int) : List Int := entries.filter (now - window < ·)

theorem recent_recent (h : now ≤ t) (entries : List Int) :
    recent t (recent now entries) = recent t entries := by
  unfold recent
  rw [List.filter_filter]
  refine List.filter_congr fun x _ => ?_
  simp
  omega

theorem checkWindow_cases (limit : ℕ) (entries : List Int) (now : Int) :
    (limit ≤ (recent now entries).length
        ∧ ∃ r, checkWindow limit entries now = (.error r, recent now entries))
      ∨ (recent now entries).length < limit
        ∧ checkWindow limit entries now = (.ok (), recent now entries ++ [now]) := by
  unfold checkWindow
  dsimp only
  split_ifs with h
  · exact .inl ⟨h, _, rfl⟩
  · exact .inr ⟨not_le.1 h, rfl⟩

theorem refused_cases (hr : (checkWindow limit l.entries now).1 = .error r) :
    limit ≤ (recent now l.entries).length
      ∧ l.call limit now = ⟨recent now l.entries, l.accepted⟩ := by
  unfold Limiter.call
  obtain ⟨hf, r', heq⟩ | ⟨-, heq⟩ := checkWindow_cases limit l.entries now <;> rw [heq] at hr ⊢
  · exact ⟨hf, rfl⟩
  · cases hr

/-- Any two instants that meet `p` are less than a minute apart. -/
def Narrow (p : Int → Bool) : Prop := ∀ x y, p x → p y → y - window < x

/-- What holds after calls up to `now`. -/
structure Inv (limit : ℕ) (now : Int) (l : Limiter) : Prop where
  past : ∀ x ∈ l.accepted, x ≤ now
  kept : ∀ t, now ≤ t → recent t l.entries = recent t l.accepted
  bounded : ∀ p, Narrow p → (l.accepted.filter p).length ≤ limit

theorem Inv.mono (h : Inv limit now l) (hle : now ≤ t) : Inv limit t l :=
  ⟨fun x hx => (h.past x hx).trans hle, fun u hu => h.kept u (hle.trans hu), h.bounded⟩

theorem Inv.call (h : Inv limit now l) : Inv limit now (l.call limit now) := by
  unfold Limiter.call
  obtain ⟨-, r, heq⟩ | ⟨hlt, heq⟩ := checkWindow_cases limit l.entries now <;> rw [heq]
  · exact ⟨h.past, fun t ht => (recent_recent ht _).trans (h.kept t ht), h.bounded⟩
  refine ⟨forall_mem_snoc h.past le_rfl, fun t ht => ?_, fun p hp => ?_⟩
  · have hr := (recent_recent ht l.entries).trans (h.kept t ht)
    unfold recent at hr ⊢
    rw [filter_append, filter_append, hr]
  · rw [h.kept now le_rfl] at hlt
    rw [filter_append, length_append]
    by_cases hn : p now
    · have hs : (l.accepted.filter p).Sublist (recent now l.accepted) :=
        l.accepted.monotone_filter_right fun x hx => decide_eq_true (hp x now hx hn)
      have hle := hs.length_le
      simp [hn]
      omega
    · have hle := h.bounded p hp
      simpa [hn] using hle

theorem inv_after {times : List Int} (hs : times.Pairwise (· ≤ ·)) (hle : ∀ x ∈ times, x ≤ now) :
    Inv limit now (after limit times) := by
  induction times using List.reverseRecOn generalizing now with
  | nil => exact ⟨by simp [after], fun _ _ => rfl, by simp [after]⟩
  | append_singleton times t ih =>
    obtain ⟨hs, -, hl⟩ := List.pairwise_append.1 hs
    have hi : Inv limit t (after limit times) := ih hs fun x hx => hl x hx t mem_cons_self
    have hc := hi.call.mono (hle t (mem_append_right _ mem_cons_self))
    rwa [after, List.foldl_append]

/-- A refused call drops only what the next call drops too. -/
theorem answers_of_refused (hr : (checkWindow limit l.entries now).1 = .error r) {times : List Int}
    (hs : ∀ x ∈ times, now ≤ x) : answers limit (l.call limit now) times = answers limit l times := by
  rw [(refused_cases hr).2]
  cases times with
  | nil => rfl
  | cons t times =>
    have hsa : checkWindow limit (recent now l.entries) t = checkWindow limit l.entries t := by
      have := recent_recent (hs t mem_cons_self) l.entries
      unfold checkWindow
      unfold recent at this ⊢
      rw [this]
    rw [answers, answers, Limiter.call, Limiter.call, hsa]

theorem Inv.recent_le (h : Inv limit now l) : (recent now l.accepted).length ≤ limit := by
  have hle := h.bounded (fun x => now - window < x ∧ x ≤ now) fun x y hx hy => by
    simp at hx hy
    omega
  rwa [List.filter_congr (q := (now - window < ·)) fun x hx => ?_] at hle
  simp [h.past x hx]

theorem Inv.retry (h : Inv limit now l) (hpos : 0 < limit)
    (hr : (checkWindow limit l.entries now).1 = .error r) (hle : now ≤ t)
    (hw : now + r.retryAfterMs * 10 ^ 6 ≤ t) : (recent t l.accepted).length < limit := by
  obtain ⟨hf, -⟩ := refused_cases hr
  have hne : (recent now l.entries).min? ≠ none := fun hn => by
    rw [List.min?_eq_none_iff.1 hn] at hf
    exact absurd hf (not_le.2 hpos)
  obtain ⟨m, hm⟩ := Option.ne_none_iff_exists'.1 hne
  have hmem := List.min?_mem hm
  rw [h.kept now le_rfl] at hmem
  have ho : ¬ t - window < m := by
    unfold recent at hm hf
    rw [checkWindow, if_pos hf, hm] at hr
    cases hr
    have hp := h.past m (mem_filter.1 hmem).1
    simp [recent, window] at hmem hw ⊢
    omega
  calc (recent t l.accepted).length = (recent t (recent now l.accepted)).length := by
        rw [recent_recent hle]
    _ < (recent now l.accepted).length :=
        List.length_filter_lt_length_iff_exists.2 ⟨m, hmem, by simpa using ho⟩
    _ ≤ limit := h.recent_le

/-- No window holds more than `limit` accepted requests, a refusal has a full window behind it and
leaves no trace, and a request after the announced wait is accepted. -/
theorem limiter_exact (limit : ℕ) (times : List Int) (hs : times.Pairwise (· ≤ ·)) :
    (∀ a, ((after limit times).accepted.filter fun x => a < x ∧ x ≤ a + window).length ≤ limit
      ∧ ((after limit times).accepted.filter fun x => a ≤ x ∧ x < a + window).length ≤ limit)
    ∧ ∀ before now rest r, times = before ++ now :: rest →
      (checkWindow limit (after limit before).entries now).1 = .error r →
      limit ≤ ((after limit before).accepted.filter fun x => now - window < x ∧ x ≤ now).length
      ∧ answers limit (after limit (before ++ [now])) rest = answers limit (after limit before) rest
      ∧ (0 < limit → ∀ mid t later, rest = mid ++ t :: later →
        (after limit (before ++ now :: mid)).accepted = (after limit before).accepted →
        now + r.retryAfterMs * 10 ^ 6 ≤ t →
        (checkWindow limit (after limit (before ++ now :: mid)).entries t).1 = .ok ()) := by
  constructor
  · obtain ⟨last, hla⟩ := times.toFinset.bddAbove
    have hi : Inv limit last (after limit times) := inv_after hs fun x hx => hla (by simpa using hx)
    intro a
    constructor <;> refine hi.bounded _ fun x y hx hy => ?_ <;> simp at hx hy <;> omega
  rintro before now rest r rfl hr
  obtain ⟨hb, hre, hle⟩ := List.pairwise_append.1 hs
  have hn := fun x hx => hle x hx now mem_cons_self
  have hi : Inv limit now (after limit before) := inv_after hb hn
  obtain ⟨hl, -⟩ := List.pairwise_cons.1 hre
  refine ⟨?_, ?_, ?_⟩
  · have hf := (refused_cases hr).1
    rw [hi.kept now le_rfl] at hf
    rwa [List.filter_congr (q := (now - window < ·)) fun x hx => ?_]
    simp [hi.past x hx]
  · have hc : after limit (before ++ [now]) = (after limit before).call limit now := by
      rw [after, List.foldl_append]
      rfl
    rw [hc]
    exact answers_of_refused hr hl
  · rintro hp mid t later rfl hsa hw
    rw [← List.cons_append, ← append_assoc, List.pairwise_append] at hs
    obtain ⟨hm, -, hle'⟩ := hs
    have hi' : Inv limit t (after limit (before ++ now :: mid)) :=
      inv_after hm fun x hx => hle' x hx t mem_cons_self
    have hlt := hi.retry hp hr (hl t (by simp)) hw
    obtain ⟨hf, -⟩ | ⟨-, heq⟩ := checkWindow_cases limit _ t
    · rw [hi'.kept t le_rfl, hsa] at hf
      exact absurd hlt (not_lt.2 hf)
    · rw [heq]

theorem limiter_exact_one : (checkWindow 1 (after 1 [0]).entries 1).1 = .error ⟨60000⟩
      ∧ (checkWindow 1 (after 1 [0, 1]).entries 60000000001).1 = .ok () := by
  have hr : (checkWindow 1 (after 1 [0]).entries 1).1 = .error ⟨60000⟩ := rfl
  have he := (limiter_exact 1 [0, 1, 60000000001] (by decide)).2 [0] 1 _ _ rfl hr
  exact ⟨hr, he.2.2 one_pos [] _ [] rfl rfl le_rfl⟩

end Limiter

end Choruz
