import Choruz.Slots
import Mathlib.Logic.Relation

/-!
# Runs of an executable step function

`step s i` is the state after action `i`, or `none` where `i` is not enabled.  A run is any
finite sequence of enabled actions; `restrict` keeps the runs whose every action meets a
condition on the state it is taken in.
-/

namespace Relational

variable {σ ι : Type*}

/-- `t` is reached from `s` by finitely many enabled actions. -/
def Steps (step : σ → ι → Option σ) : σ → σ → Prop :=
  Relation.ReflTransGen fun s t => ∃ i, step s i = some t

def run (step : σ → ι → Option σ) : σ → List ι → Option σ
  | s, [] => some s
  | s, i :: is => (step s i).bind fun t => run step t is

def restrict (step : σ → ι → Option σ) (ok : σ → ι → Prop) [∀ s i, Decidable (ok s i)] :
    σ → ι → Option σ :=
  fun s i => if ok s i then step s i else none

/-- Of the actions of a total step function, each meets `P` in the state it is taken in. -/
def Along (f : σ → ι → σ) (P : σ → ι → Prop) : σ → List ι → Prop
  | _, [] => True
  | s, i :: is => P s i ∧ Along f P (f s i) is

variable {step : σ → ι → Option σ} {ok : σ → ι → Prop} {s t : σ}

theorem Steps.refl (s : σ) : Steps step s s := Relation.ReflTransGen.refl

theorem Steps.trans {s t u : σ} (h : Steps step s t) (h' : Steps step t u) : Steps step s u :=
  Relation.ReflTransGen.trans h h'

theorem Steps.tail {s t u : σ} {i : ι} (h : Steps step s t) (h' : step t i = some u) :
    Steps step s u := Relation.ReflTransGen.tail h ⟨i, h'⟩

theorem steps_of_run : ∀ {is : List ι} {s t : σ}, run step s is = some t → Steps step s t
  | [], s, t, h => by
    simp only [run, Option.some.injEq] at h
    rw [h]
    exact Steps.refl t
  | i :: is, s, t, h => by
    simp only [run, bind_eq_some_iff] at h
    obtain ⟨u, hu, h⟩ := h
    exact Relation.ReflTransGen.head ⟨i, hu⟩ (steps_of_run h)

/-- A state with a decidable property, found by running a list of actions. -/
theorem exists_steps_of_run {P : σ → Prop} [DecidablePred P] {is : List ι} {s : σ}
    (h : (run step s is).any (fun t => P t)) : ∃ t, Steps step s t ∧ P t := by
  rcases hr : run step s is with _ | t <;> rw [hr] at h
  · cases h
  · exact ⟨t, steps_of_run hr, of_decide_eq_true h⟩

section

variable (is : List ι) {P P2 Q : σ → Prop} [DecidablePred P] [DecidablePred P2]

theorem exists_run (h : (run step s is).any (fun t => P t)) : ∃ t, Steps step s t ∧ P t :=
  exists_steps_of_run h

/-- What holds of every state reached holds of the one found. -/
theorem exists_run_and (h : (run step s is).any (fun t => P t))
    (hQ : ∀ t, Steps step s t → P t → Q t) : ∃ t, Steps step s t ∧ P t ∧ Q t := by
  obtain ⟨t, ht, hp⟩ := exists_steps_of_run h
  exact ⟨t, ht, hp, hQ t ht hp⟩

theorem exists_run_and₂ (h : (run step s is).any (fun t => P t ∧ P2 t))
    (hQ : ∀ t, Steps step s t → P t ∧ P2 t → Q t) : ∃ t, Steps step s t ∧ P t ∧ P2 t ∧ Q t := by
  simpa [and_assoc] using exists_run_and is h hQ

end

theorem Steps.invariant {I : σ → Prop} (hst : ∀ {s i t}, I s → step s i = some t → I t)
    (h : Steps step s t) (hs : I s) : I t := by
  induction h with
  | refl => exact hs
  | tail _ hl ih =>
    obtain ⟨i, hi⟩ := hl
    exact hst ih hi

theorem restrict_eq_some [∀ s i, Decidable (ok s i)] {i : ι} :
    restrict step ok s i = some t ↔ ok s i ∧ step s i = some t := by
  unfold restrict
  by_cases h : ok s i <;> simp

theorem run_restrict {p : σ → ι → Prop} [∀ s i, Decidable (p s i)] : ∀ {is : List ι} {s : σ},
    (∀ i ∈ is, ∀ s, p s i) → run (restrict step p) s is = run step s is
  | [], _, _ => rfl
  | i :: is, s, h => by
    simp only [run, restrict, if_pos (h i List.mem_cons_self s)]
    exact congrArg _ (funext fun t => run_restrict fun j hj => h j (List.mem_cons_of_mem i hj))

/-- What every action that meets `ok` keeps, a run of such actions keeps. -/
theorem Steps.keeps [∀ s i, Decidable (ok s i)] {I : σ → Prop}
    (hst : ∀ {s i t}, I s → ok s i → step s i = some t → I t)
    (h : Steps (restrict step ok) s t) (hs : I s) : I t := by
  refine h.invariant (fun hs hi => ?_) hs
  obtain ⟨hok, hi⟩ := restrict_eq_some.1 hi
  exact hst hs hok hi

theorem Steps.of_restrict [∀ s i, Decidable (ok s i)]
    (h : Steps (restrict step ok) s t) : Steps step s t :=
  Relation.ReflTransGen.mono (fun _ _ ⟨i, hi⟩ => ⟨i, (restrict_eq_some.1 hi).2⟩) s t h

end Relational
