import Choruz.Proofs.SearchOrder
import Choruz.Pipeline

/-!
# The budgets of a search

Before a round starts, the budget covers all its evaluations and the final comparison.  What is
still due at each stage is at most what is left, so the search never runs out of its budget, and
the seeds are validated before a winner is needed.
-/

namespace Choruz

open Relational EvaluationSuite

namespace Optimization

variable {F : Type} {ops : ScoreOps F} {suite : EvaluationSuite} {config : OptimizationConfig}
  {s s' : Optimization F} {parseTeam : String → Option (Option Team)}
  {seeds : List EvaluationCandidate} {queue : List (ℕ × ℕ)} {c k : ℕ} {component : Component}
  {prims : EvalPrims} {observations : List (Observation F)} {split : EvaluationSplit}
  {s1 : Optimization F} {stage : SearchStage} {o : Observation F}

/-- The candidate was evaluated on the case. -/
def Observed (observations : List (Observation F)) (candidate case : ℕ) : Prop :=
  ∃ o ∈ observations, o.candidate = candidate ∧ o.case = case

theorem observation_isSome : (s.observation c k).isSome ↔ Observed s.observations c k := by
  simp [observation, Observed]

theorem exists_scores {c : ℕ} : ∀ {cases : List ℕ}, (∀ k ∈ cases, Observed s.observations c k) →
    ∃ xs, s.scores c cases = some xs
  | [], _ => ⟨[], rfl⟩
  | k :: cases, h => by
    obtain ⟨xs, hx⟩ := exists_scores fun k hk => h k (mem_cons_of_mem _ hk)
    obtain ⟨o, ho⟩ := isSome_iff_exists.1 (observation_isSome.2 (h k mem_cons_self))
    refine ⟨o.score :: xs, ?_⟩
    unfold scores at hx ⊢
    rw [List.mapM_cons, ho, hx]
    rfl

theorem exists_mean (ops : ScoreOps F) {c : ℕ} {cases : List ℕ}
    (h : ∀ k ∈ cases, Observed s.observations c k) : ∃ m, s.mean ops c cases = some m := by
  obtain ⟨xs, hx⟩ := exists_scores h
  exact ⟨ops.mean xs, by rw [mean, hx]; rfl⟩

/-- The candidate was evaluated on the case, or is going to be. -/
def Covered (s : Optimization F) (candidate case : ℕ) : Prop :=
  Observed s.observations candidate case ∨ (candidate, case) ∈ s.queue
    ∨ s.pending = some (.evaluate candidate case)

theorem Covered.observed (h : s.Covered c k) (hp : s.pending = none)
    (hq : s.queue = []) : Observed s.observations c k := by
  rcases h with h | h | h
  · exact h
  · rw [hq] at h
    cases h
  · cases hp.symm.trans h

theorem mem_pairs {cs ks : List ℕ} {q : ℕ × ℕ} : q ∈ pairs cs ks ↔ q.1 ∈ cs ∧ q.2 ∈ ks := by
  obtain ⟨c, k⟩ := q
  simp only [pairs, mem_flatMap, mem_map, Prod.mk.injEq]
  constructor
  · rintro ⟨c, hc, k, hk, rfl, rfl⟩
    exact ⟨hc, hk⟩
  · rintro ⟨hc, hk⟩
    exact ⟨c, hc, k, hk, rfl, rfl⟩

theorem length_pairs (cs ks : List ℕ) : (pairs cs ks).length = cs.length * ks.length := by
  simp [pairs]

/-- What `new` checks of a configuration. -/
structure Accepted (suite : EvaluationSuite) (config : OptimizationConfig) : Prop where
  minibatch : config.minibatchSize ≤ (suite.casesOf .train).length
  budget : 2 * ((suite.casesOf .validation).length + (suite.casesOf .test).length)
    ≤ config.maxMetricCalls

/-- The evaluations a stage may still need when its queue is done. -/
def due (suite : EvaluationSuite) (config : OptimizationConfig) : SearchStage → ℕ
  | .seeds | .choose | .validate => 2 * (suite.casesOf .test).length
  | .reflect .. => config.minibatchSize + (suite.casesOf .validation).length
      + 2 * (suite.casesOf .test).length
  | .trial .. => (suite.casesOf .validation).length + 2 * (suite.casesOf .test).length
  | .final | .complete => 0

def proposing (s : Optimization F) : Bool :=
  match s.pending with
  | some (.propose ..) => true
  | _ => false

def SeedsObserved (suite : EvaluationSuite) (observations : List (Observation F)) : Prop :=
  ∀ c < 2, ∀ k ∈ suite.casesOf .validation, Observed observations c k

/-- What holds at a stage. -/
def StageOk (suite : EvaluationSuite) (s : Optimization F) : SearchStage → Prop
  | .seeds => s.winner = none ∧ s.proposing = false
      ∧ ∀ c < 2, ∀ k ∈ suite.casesOf .validation, s.Covered c k
  | .choose => s.winner = none ∧ SeedsObserved suite s.observations ∧ s.pending = none
      ∧ s.queue = []
  | .reflect parents batch => s.winner = none ∧ SeedsObserved suite s.observations
      ∧ parents ≠ [] ∧ (∀ p ∈ parents, p < s.candidates.length)
      ∧ (∀ k ∈ batch, k ∈ suite.casesOf .train) ∧ batch.length ≤ s.config.minibatchSize
      ∧ (∀ ps b c, s.pending = some (.propose ps b c) → ps = parents ∧ b = batch ∧ s.queue = [])
      ∧ (s.proposing = false → s.proposalCalls < s.config.maxProposals)
  | .trial candidate _ batch => s.winner = none ∧ SeedsObserved suite s.observations
      ∧ s.proposing = false ∧ candidate < s.candidates.length
      ∧ ∀ k ∈ batch, s.Covered candidate k
  | .validate => s.winner = none ∧ SeedsObserved suite s.observations ∧ s.proposing = false
  | .final => s.winner.isSome ∧ s.proposing = false
  | .complete => s.winner.isSome ∧ s.proposing = false ∧ s.queue = []

structure Inv (ops : ScoreOps F) (suite : EvaluationSuite) (config : OptimizationConfig)
    (s : Optimization F) : Prop where
  fixed : s.config = config
  accepted : Accepted suite s.config
  two : 2 ≤ s.candidates.length
  order : s.trainOrder.toList.Perm (suite.casesOf .train)
  cursor : s.trainCursor ≤ s.trainOrder.size
  scored : ∀ o ∈ s.observations, ops.inRange o.score
  proposals : s.proposalCalls ≤ s.config.maxProposals
  calls : s.metricCalls = s.observations.length + s.evaluating
  budget : s.metricCalls + s.queue.length + due suite s.config s.stage ≤ s.config.maxMetricCalls
  queue : ∀ q ∈ s.queue, q.1 < s.candidates.length ∧ q.2 < suite.cases.length
    ∧ (s.stage.searching → q.2 ∉ suite.casesOf .test)
  heldOut : s.stage.searching → (∀ c k, s.pending = some (.evaluate c k) →
    k ∉ suite.casesOf .test) ∧ ∀ o ∈ s.observations, o.case ∉ suite.casesOf .test
  stage : StageOk suite s s.stage

def popped (s : Optimization F) (queue : List (ℕ × ℕ)) (pending : Option SearchAction)
    (metricCalls modelCalls : ℕ) : Optimization F :=
  { s with
    queue
    pending
    metricCalls
    modelCallsReserved := modelCalls }

theorem StageOk.pop {c k metricCalls modelCalls : ℕ} {pending : Option SearchAction}
    (h : StageOk suite { s with queue := (c, k) :: queue, pending := none } stage)
    (hp : pending = none ∧ Observed s.observations c k ∨ pending = some (.evaluate c k)) :
    StageOk suite (s.popped queue pending metricCalls modelCalls) stage := by
  have hpro : (s.popped queue pending metricCalls modelCalls).proposing = false := by
    rcases hp with ⟨rfl, -⟩ | rfl <;> rfl
  have hcov : ∀ {c' k'}, ({ s with queue := (c, k) :: queue, pending := none } :
      Optimization F).Covered c' k' →
      (s.popped queue pending metricCalls modelCalls).Covered c' k' := by
    rintro c' k' (ho | hm | hn)
    · exact .inl ho
    · rcases mem_cons.1 hm with heq | hm
      · cases heq
        rcases hp with ⟨-, ho⟩ | hpe
        · exact .inl ho
        · exact .inr (.inr hpe)
      · exact .inr (.inl hm)
    · cases hn
  cases stage with
  | seeds => exact ⟨h.1, hpro, fun c hc k hk => hcov (h.2.2 c hc k hk)⟩
  | choose => cases h.2.2.2
  | reflect parents batch =>
    obtain ⟨hw, hs, hne, hpar, ht, hl, -, hcs⟩ := h
    refine ⟨hw, hs, hne, hpar, ht, hl, fun ps b c' hpr => ?_, fun _ => hcs rfl⟩
    rcases hp with ⟨rfl, -⟩ | rfl <;> cases hpr
  | trial candidate parents batch =>
    exact ⟨h.1, h.2.1, hpro, h.2.2.2.1, fun k hk => hcov (h.2.2.2.2 k hk)⟩
  | validate => exact ⟨h.1, h.2.1, hpro⟩
  | final => exact ⟨h.1, hpro⟩
  | complete => cases h.2.2

theorem Inv.pop_observed
    (h : Inv ops suite config { s with queue := (c, k) :: queue, pending := none })
    (ho : Observed s.observations c k) :
    Inv ops suite config { s with queue, pending := none } := by
  refine { h with
    budget := ?_
    queue := fun q hq => h.queue q (mem_cons_of_mem _ hq)
    stage := h.stage.pop (.inl ⟨rfl, ho⟩) }
  have hb := h.budget
  simp at hb ⊢
  omega

theorem Inv.pop_reserved {c k modelCalls : ℕ}
    (h : Inv ops suite config { s with queue := (c, k) :: queue, pending := none }) :
    Inv ops suite config (s.popped queue (some (.evaluate c k)) (s.metricCalls + 1) modelCalls) := by
  refine { h with
    calls := congrArg (· + 1) h.calls
    budget := ?_
    queue := fun q hq => h.queue q (mem_cons_of_mem _ hq)
    heldOut := fun hs => ⟨fun c' k' hp => ?_, (h.heldOut hs).2⟩
    stage := h.stage.pop (.inr rfl) }
  · have hb := h.budget
    simp [popped] at hb ⊢
    omega
  · cases hp
    exact (h.queue (c, k) mem_cons_self).2.2 hs

theorem drain_spec : ∀ {queue : List (ℕ × ℕ)} {s : Optimization F}, s.pending = none →
    Inv ops suite config { s with queue, pending := none } →
      (∃ c k s', drain suite queue s = .returned (.action (.evaluate c k)) s'
        ∧ Inv ops suite config s') ∨ (drain suite queue s = .goes { s with queue := [] }
        ∧ Inv ops suite config { s with queue := [], pending := none })
  | [], s, _, h => .inr ⟨rfl, h⟩
  | (c, k) :: queue, s, hs, h => by
    unfold drain
    split_ifs with hc
    · rw [and_eq_true] at hc
      exact drain_spec hs (h.pop_observed (observation_isSome.1 hc.2))
    · refine .inl ⟨c, k, ?_⟩
      obtain ⟨hca, hcs, -⟩ := h.queue (c, k) mem_cons_self
      have hb := h.budget
      simp only [List.length_cons] at hb
      have hl : ¬ s.metricCalls ≥ s.config.maxMetricCalls := by omega
      have hg : suite.cases[k]? = some suite.cases[k] := getElem?_eq_getElem hcs
      have hi : s.candidates[c]? = some s.candidates[c] := getElem?_eq_getElem hca
      unfold reserve
      simp only [hl, hg, hi]
      exact ⟨_, rfl, h.pop_reserved⟩

theorem Inv.reordered (h : Inv ops suite config s) (hs : Reordered s s')
    (hcur : s'.trainCursor ≤ s'.trainOrder.size) : Inv ops suite config s' := by
  have ha : ∀ (rng : UInt64) (order : Array ℕ) (cursor : ℕ),
      order.toList.Perm s.trainOrder.toList → cursor ≤ order.size →
      Inv ops suite config { s with rng, trainOrder := order, trainCursor := cursor } := by
    intro rng order cursor hp hcur
    refine { h with order := hp.trans h.order, cursor := hcur, stage := ?_ }
    have hsa := h.stage
    cases hst : s.stage <;> rw [hst] at hsa <;> exact hsa
  rw [hs.eq]
  exact ha _ _ _ hs.perm hcur

def goto (s : Optimization F) (stage : SearchStage) (queue : List (ℕ × ℕ)) : Optimization F :=
  { s with stage, queue }

theorem Inv.goto (h : Inv ops suite config s) (stage : SearchStage) (queue : List (ℕ × ℕ))
    (hsr : stage.searching → s.stage.searching)
    (hb : s.metricCalls + queue.length + due suite s.config stage ≤ s.config.maxMetricCalls)
    (hq : ∀ q ∈ queue, q.1 < s.candidates.length ∧ q.2 < suite.cases.length
      ∧ (stage.searching → q.2 ∉ suite.casesOf .test))
    (hst : StageOk suite (s.goto stage queue) stage) : Inv ops suite config (s.goto stage queue) :=
  { h with
    budget := hb
    queue := hq
    heldOut := fun hs => h.heldOut (hsr hs)
    stage := hst }

/-- How many turns the loop of `next_action` may still take. -/
def rank (s : Optimization F) : ℕ :=
  let rounds := 4 * s.config.maxProposals - s.rounds
  match s.stage with
  | .complete => 0
  | .final => 1
  | .choose => 2 * rounds + 2
  | .reflect .. | .seeds | .validate => 2 * rounds + 3
  | .trial .. => 2 * rounds + 4

/-- A turn of the loop returns an action or the end, or leaves fewer turns. -/
def Turn (ops : ScoreOps F) (suite : EvaluationSuite) (config : OptimizationConfig)
    (s : Optimization F) : Progress F → Prop
  | .returned reply s' => Inv ops suite config s' ∧ (reply = .complete ∨ ∃ a, reply = .action a)
  | .goes s' => Inv ops suite config s' ∧ s'.pending = none ∧ s'.rank < s.rank

theorem lt_length_of_mem_casesOf {k : ℕ} (h : k ∈ suite.casesOf split) : k < suite.cases.length := by
  obtain ⟨c, hc, -⟩ := mem_casesOf.1 h
  exact (getElem?_eq_some_iff.1 hc).1

theorem not_mem_test_of_mem {k : ℕ} (h : k ∈ suite.casesOf split)
    (hsp : split ≠ .test) : k ∉ suite.casesOf .test := by
  intro hte
  obtain ⟨c, hc, hs⟩ := mem_casesOf.1 h
  obtain ⟨c', hc', ht⟩ := mem_casesOf.1 hte
  cases hc.symm.trans hc'
  exact hsp (hs.symm.trans ht)

section Idle

variable (h : Inv ops suite config s) (hidle : s.pending = none) (hempty : s.queue = [])
  {candidate : ℕ} {parents batch : List ℕ}

include h hidle hempty

theorem turn_choose (hs : s.stage.searching) (hw : s.winner = none)
    (hsds : SeedsObserved suite s.observations)
    (hd : 2 * (suite.casesOf .test).length ≤ due suite s.config s.stage)
    (hr : 2 * (4 * s.config.maxProposals - s.rounds) + 2 < s.rank) :
    Turn ops suite config s (.goes { s with stage := .choose }) := by
  have heq : ({ s with stage := .choose } : Optimization F) = s.goto .choose [] := by
    rw [Optimization.goto, ← hempty]
  rw [heq]
  refine ⟨h.goto .choose [] (fun _ => hs) ?_ (by simp) ⟨hw, hsds, hidle, rfl⟩, hidle, hr⟩
  have hb := h.budget
  rw [hempty] at hb
  change s.metricCalls + 0 + 2 * (suite.casesOf .test).length ≤ s.config.maxMetricCalls
  omega

theorem turn_seeds (hst : s.stage = .seeds) :
    Turn ops suite config s (.goes { s with stage := .choose }) := by
  have hok := h.stage
  rw [hst] at hok
  refine turn_choose h hidle hempty ?_ hok.1 (fun c hc k hk => ?_) ?_ ?_
  · rw [hst]
    rfl
  · exact (hok.2.2 c hc k hk).observed hidle hempty
  · rw [hst]
    exact le_rfl
  · simp only [rank, hst]
    omega

theorem turn_validate (hst : s.stage = .validate) :
    Turn ops suite config s (.goes { s with stage := .choose }) := by
  have hok := h.stage
  rw [hst] at hok
  refine turn_choose h hidle hempty ?_ hok.1 hok.2.1 ?_ ?_
  · rw [hst]
    rfl
  · rw [hst]
    exact le_rfl
  · simp only [rank, hst]
    omega

theorem turn_reflect (hst : s.stage = .reflect parents batch) :
    Turn ops suite config s (s.reflect ops parents batch) := by
  have hok := h.stage
  rw [hst] at hok
  obtain ⟨hw, hsds, hne, hpar, ht, hl, -, hcs⟩ := hok
  have hlt : s.proposalCalls < s.config.maxProposals := hcs (by rw [proposing, hidle])
  unfold reflect
  split
  · refine turn_choose h hidle hempty ?_ hw hsds ?_ ?_
    · rw [hst]
      rfl
    · rw [hst]
      exact Nat.le_add_left _ _
    · simp only [rank, hst]
      omega
  · have hs : s.stage.searching := by
      rw [hst]
      rfl
    refine ⟨{ h with proposals := hlt, calls := ?_, heldOut := ?_, stage := ?_ }, .inr ⟨_, rfl⟩⟩
    · have hc := h.calls
      rw [evaluating, hidle] at hc
      exact hc
    · exact fun _ => ⟨by simp, (h.heldOut hs).2⟩
    · change StageOk suite _ s.stage
      rw [hst]
      refine ⟨hw, hsds, hne, hpar, ht, hl, fun ps b c hp => ?_, fun hn => nomatch hn⟩
      cases hp
      exact ⟨rfl, rfl, hempty⟩

theorem turn_trial (hst : s.stage = .trial candidate parents batch) :
    Turn ops suite config s (s.judgeTrial ops suite candidate parents batch) := by
  have hok := h.stage
  rw [hst] at hok
  obtain ⟨hw, hsds, hp, hc, hcov⟩ := hok
  have hs : s.stage.searching := by
    rw [hst]
    rfl
  obtain ⟨child, hch⟩ := exists_mean ops fun k hk =>
    (hcov k hk).observed hidle hempty
  unfold judgeTrial
  rw [hch]
  dsimp only
  split_ifs with hb
  · have hbud := h.budget
    rw [hst] at hbud
    refine ⟨h.goto .validate _ (fun _ => hs) ?_ (fun q hq => ?_) ⟨hw, hsds, hp⟩, hidle, ?_⟩
    · simp only [due, List.length_map] at hbud ⊢
      omega
    · obtain ⟨k, hk, rfl⟩ := mem_map.1 hq
      exact ⟨hc, lt_length_of_mem_casesOf hk, fun _ => not_mem_test_of_mem hk (by decide)⟩
    · simp only [rank, hst]
      omega
  · refine turn_choose h hidle hempty hs hw hsds ?_ ?_
    · rw [hst]
      exact Nat.le_add_left _ _
    · simp only [rank, hst]
      omega

theorem turn_final (hst : s.stage = .final) :
    Turn ops suite config s (.goes { s with stage := .complete }) := by
  have hok := h.stage
  rw [hst] at hok
  have hb := h.budget
  rw [hst] at hb
  have hi := h.goto .complete [] (fun hs => nomatch hs)
    (by rw [hempty] at hb; exact hb) (by simp) ⟨hok.1, hok.2, rfl⟩
  have heq : ({ s with stage := .complete } : Optimization F) = s.goto .complete [] := by
    rw [Optimization.goto, ← hempty]
  rw [heq]
  refine ⟨hi, hidle, ?_⟩
  simp only [rank, hst]
  exact Nat.zero_lt_one

end Idle

theorem maxBy_mem {α : Type} (cmp : α → α → Ordering) : ∀ {l : List α}, l ≠ [] →
    ∃ a ∈ l, maxBy cmp l = some a
  | [], h => absurd rfl h
  | a :: l, _ => by
    refine ⟨_, ?_, rfl⟩
    have ha : ∀ (l : List α) (x : α), l.foldl (fun x y => if cmp x y = .gt then x else y) x = x
          ∨ l.foldl (fun x y => if cmp x y = .gt then x else y) x ∈ l := by
      intro l
      induction l with
      | nil => exact fun x => .inl rfl
      | cons y l ih =>
        intro x
        rw [List.foldl_cons]
        rcases ih (if cmp x y = .gt then x else y) with heq | hm
        · rw [heq]
          split_ifs
          · exact .inl rfl
          · exact .inr mem_cons_self
        · exact .inr (mem_cons_of_mem _ hm)
    rcases ha l a with heq | hm
    · rw [heq]
      exact mem_cons_self
    · exact mem_cons_of_mem _ hm

theorem exists_best (ops : ScoreOps F) {c : ℕ} (hc : c < s.candidates.length)
    (h : ∀ k ∈ suite.casesOf .validation, Observed s.observations c k) :
    ∃ winner, s.best ops suite = some winner ∧ winner < s.candidates.length := by
  obtain ⟨m, hm⟩ := exists_mean ops h
  have hmem : (c, m) ∈ (List.range s.candidates.length).filterMap fun i =>
      (s.mean ops i (suite.casesOf .validation)).map fun m => (i, m) :=
    mem_filterMap.2 ⟨c, List.mem_range.2 hc, by rw [hm]; rfl⟩
  obtain ⟨a, ha, hmax⟩ := maxBy_mem
    (fun a b : ℕ × F => (ops.cmp a.2 b.2).then (compare b.1 a.1)) (List.ne_nil_of_mem hmem)
  obtain ⟨i, hi, hai⟩ := mem_filterMap.1 ha
  obtain ⟨_, -, rfl⟩ := map_eq_some_iff.1 hai
  exact ⟨i, by rw [best, hmax]; rfl, List.mem_range.1 hi⟩

theorem turn_finish (h : Inv ops suite config s) (hidle : s.pending = none) (hst : s.stage = .choose) :
    Turn ops suite config s (s.finish ops suite) := by
  have hok := h.stage
  rw [hst] at hok
  obtain ⟨hw, hsds, -, hempty⟩ := hok
  have ht := h.two
  obtain ⟨winner, hb, hlt⟩ := exists_best ops (show 0 < s.candidates.length by omega)
    (hsds 0 (by omega))
  unfold finish
  rw [hb]
  have hbud := h.budget
  rw [hst] at hbud
  simp only [due] at hbud
  refine ⟨{ h with
    budget := ?_, queue := fun q hq => ?_, heldOut := (fun hs => nomatch hs)
    stage := ⟨rfl, ?_⟩ }, hidle, ?_⟩
  · have hp : (0 :: if winner = 0 then [] else [winner]).length ≤ 2 := by
      split_ifs <;> simp
    have hl := Nat.mul_le_mul_right (suite.casesOf .test).length hp
    change s.metricCalls + (pairs _ _).length + 0 ≤ s.config.maxMetricCalls
    rw [length_pairs]
    omega
  · obtain ⟨hc, hca⟩ := mem_pairs.1 hq
    refine ⟨?_, lt_length_of_mem_casesOf hca, fun hs => nomatch hs⟩
    rcases mem_cons.1 hc with hz | hc
    · rw [hz]
      exact (show 0 < s.candidates.length by omega)
    · split_ifs at hc
      · cases hc
      · rw [mem_singleton.1 hc]
        exact hlt
  · rw [proposing, hidle]
  · simp only [rank, hst]
    omega

theorem nodup_frontier : (s.frontier ops suite).Nodup := by
  have hr : (s.measured suite).Pairwise fun a b => a.1 < b.1 := by
    refine List.Pairwise.filterMap _ (fun i j hi a ha b hb => ?_) List.pairwise_lt_range
    obtain ⟨_, -, rfl⟩ := map_eq_some_iff.1 ha
    obtain ⟨_, -, rfl⟩ := map_eq_some_iff.1 hb
    exact hi
  exact List.pairwise_map.2 ((hr.filter _).imp ne_of_lt)

section

variable (h : Inv ops suite config s) (hidle : s.pending = none)
include h hidle

section

variable (hst : s.stage = .choose) (hcov : s.exhausted suite = false)
include hst hcov

section

variable (hs1 : Reordered { s with rounds := s.rounds + 1 } s1)
  (hcur : s1.trainCursor ≤ s1.trainOrder.size)
include hs1 hcur

theorem turn_startRound {parents : List ℕ} (hne : parents ≠ []) (htwo : parents.length ≤ 2)
    (hpar : ∀ p ∈ parents, p < s.candidates.length) :
    Turn ops suite config s (s1.startRound parents) := by
  have hok := h.stage
  rw [hst] at hok
  obtain ⟨hw, hs, -, hempty⟩ := hok
  simp [exhausted] at hcov
  obtain ⟨⟨hcs, hro⟩, hb⟩ := hcov
  have h0 : Inv ops suite config { s with rounds := s.rounds + 1 } := by
    refine { h with stage := ?_ }
    rw [hst]
    exact ⟨hw, hs, hidle, hempty⟩
  have hco : s1.config = s.config := hs1.config
  have hpe : s1.trainOrder.toList.Perm (suite.casesOf .train) := hs1.perm.trans h.order
  obtain ⟨hl, -, ht, hs2, hcur2⟩ := batch_spec hpe hcur (by rw [hco]; exact h.accepted.minibatch)
  rw [hco] at hl
  have hr := hs1.trans hs2
  have hi : Inv ops suite config s1.batch.2 := h0.reordered hr (by rw [hs2.size]; exact hcur2)
  have heq := hr.eq
  have hm : s1.batch.2.metricCalls = s.metricCalls := by rw [heq]
  have hc : s1.batch.2.candidates = s.candidates := by rw [heq]
  have hc2 : s1.batch.2.config = s.config := by rw [heq]
  have hst2 : s1.batch.2.stage = .choose := by rw [heq]; exact hst
  have hi2 : s1.batch.2.pending = none := by rw [heq]; exact hidle
  have hpa : (pairs parents s1.batch.1).length ≤ 2 * s.config.minibatchSize := by
    rw [length_pairs, hl]
    exact Nat.mul_le_mul_right _ htwo
  refine ⟨hi.goto (.reflect parents s1.batch.1) (pairs parents s1.batch.1) (fun _ => ?_) ?_
    (fun q hq => ?_) ?_, hi2, ?_⟩
  · rw [hst2]
    rfl
  · simp [due, hc2]
    omega
  · obtain ⟨hcn, hca⟩ := mem_pairs.1 hq
    refine ⟨hc ▸ hpar q.1 hcn, lt_length_of_mem_casesOf (ht _ hca), fun _ => ?_⟩
    exact not_mem_test_of_mem (ht _ hca) (by decide)
  · refine ⟨?_, ?_, hne, fun p hp => ?_, ht, ?_, fun ps b c hpr => ?_, fun _ => ?_⟩
    · change s1.batch.2.winner = none
      rw [heq]
      exact hw
    · change SeedsObserved suite s1.batch.2.observations
      rw [heq]
      exact hs
    · change p < s1.batch.2.candidates.length
      rw [hc]
      exact hpar p hp
    · change s1.batch.1.length ≤ s1.batch.2.config.minibatchSize
      rw [hl, hc2]
    · change s1.batch.2.pending = some _ at hpr
      cases hi2.symm.trans hpr
    · change s1.batch.2.proposalCalls < s1.batch.2.config.maxProposals
      rw [heq]
      exact hcs
  · have hr2 : s1.batch.2.rounds = s.rounds + 1 := by rw [heq]
    change 2 * (4 * s1.batch.2.config.maxProposals - s1.batch.2.rounds) + 3 < s.rank
    simp [rank, hst, hc2]
    omega

theorem turn_mergeParent {frontier : List ℕ} {parent : ℕ} (hnd : frontier.Nodup)
    (hl : 1 < frontier.length) (hpa : parent ∈ frontier)
    (hf : ∀ p ∈ frontier, p < s.candidates.length) :
    Turn ops suite config s (s1.mergeParent frontier parent) := by
  have ha : 0 < (frontier.filter (· ≠ parent)).length := by
    by_contra hz
    have hn := filter_eq_nil_iff.1 (List.length_eq_zero_iff.1 (Nat.eq_zero_of_not_pos hz))
    have hs : frontier ⊆ [parent] := fun p hp => by simpa using hn p hp
    have hle := hnd.length_le_of_subset hs
    rw [List.length_singleton] at hle
    omega
  unfold mergeParent
  have hi : s1.random.1.toNat % (frontier.filter (· ≠ parent)).length
      < (frontier.filter (· ≠ parent)).length := Nat.mod_lt _ ha
  dsimp only
  rw [getElem?_eq_getElem hi]
  have ho := mem_filter.1 (List.getElem_mem hi)
  refine turn_startRound h hidle hst hcov (hs1.trans reordered_random) hcur (by simp)
    (by simp) fun p hp => ?_
  rcases mem_cons.1 hp with rfl | hp
  · exact hf _ hpa
  · rw [mem_singleton.1 hp]
    exact hf _ ho.1

end

theorem turn_newRound : Turn ops suite config s (s.newRound ops suite) := by
  have hok := h.stage
  rw [hst] at hok
  obtain ⟨-, hs, -, -⟩ := hok
  have ht := h.two
  have hn : 0 < (({ s with rounds := s.rounds + 1 } : Optimization F).frontier ops
      suite).length := by
    obtain ⟨xs, hx⟩ := exists_scores (s := { s with rounds := s.rounds + 1 }) (hs 0 (by omega))
    have hme : (0, xs) ∈ ({ s with rounds := s.rounds + 1 } : Optimization F).measured suite :=
      mem_measured.2 ⟨show 0 < s.candidates.length by omega, hx⟩
    obtain ⟨b, -, hb, -⟩ := exists_frontier h.scored hme
    exact List.length_pos_of_mem hb
  have hf : ∀ p ∈ ({ s with rounds := s.rounds + 1 } : Optimization F).frontier ops suite,
      p < s.candidates.length := by
    intro p hp
    obtain ⟨a, ha, rfl, -⟩ := mem_frontier.1 hp
    exact (mem_measured.1 ha).1
  unfold newRound
  dsimp only
  have hi := Nat.mod_lt ({ s with rounds := s.rounds + 1 } : Optimization F).random.1.toNat hn
  rw [getElem?_eq_getElem hi]
  have hpa := List.getElem_mem hi
  split_ifs with hm
  · simp at hm
    exact turn_mergeParent h hidle hst hcov reordered_random h.cursor nodup_frontier hm.2 hpa hf
  · refine turn_startRound h hidle hst hcov reordered_random h.cursor (by simp) (by simp)
      fun p hp => ?_
    rw [mem_singleton.1 hp]
    exact hf _ hpa

end

theorem turn_advance (hempty : s.queue = []) : Turn ops suite config s (s.advance ops suite) := by
  unfold advance
  split
  next hst =>
    exact turn_seeds h hidle hempty hst
  next hst =>
    exact turn_validate h hidle hempty hst
  next hst =>
    split_ifs with hcov
    · exact turn_finish h hidle hst
    · exact turn_newRound h hidle hst (eq_false_iff.2 hcov)
  next hst =>
    exact turn_reflect h hidle hempty hst
  next hst =>
    exact turn_trial h hidle hempty hst
  next hst =>
    exact turn_final h hidle hempty hst
  · exact ⟨h, .inl rfl⟩

end

theorem loop_spec : ∀ {fuel : ℕ} {s : Optimization F}, Inv ops suite config s → s.pending = none →
    s.rank < fuel → ∃ reply s', loop ops suite fuel s = some (reply, s') ∧ Inv ops suite config s'
      ∧ (reply = .complete ∨ ∃ a, reply = .action a)
  | 0, _, _, _, hf => absurd hf (Nat.not_lt_zero _)
  | fuel + 1, s, h, hidle, hf => by
    have heq : ({ s with queue := s.queue, pending := none } : Optimization F) = s := by
      rw [← hidle]
    unfold loop
    rcases drain_spec hidle (heq.symm ▸ h) with ⟨c, k, s', hd, hi⟩ | ⟨hd, hi⟩
    · simp only [hd]
      exact ⟨_, _, rfl, hi, .inr ⟨_, rfl⟩⟩
    · have heq' : ({ s with queue := [], pending := none } : Optimization F) =
          { s with queue := [] } := by
        rw [← hidle]
      rw [heq'] at hi
      have ht := turn_advance hi hidle rfl
      rcases ha : ({ s with queue := [] } : Optimization F).advance ops suite with
        ⟨reply, s'⟩ | s' <;> rw [ha] at ht <;> simp only [hd, ha]
      · exact ⟨reply, s', rfl, ht.1, ht.2⟩
      · obtain ⟨hinv', hi', hr⟩ := ht
        have hl : s'.rank < fuel := lt_of_lt_of_le hr (Nat.le_of_lt_succ hf)
        exact loop_spec hinv' hi' hl

theorem rank_lt (s : Optimization F) : s.rank < 8 * s.config.maxProposals + 5 := by
  unfold rank
  dsimp only
  split <;> omega

theorem nextAction_spec (h : Inv ops suite config s) : ∃ reply s', s.nextAction ops suite =
    some (reply, s') ∧ Inv ops suite config s'
      ∧ (reply = .error alreadyReserved ∧ s.pending.isSome ∧ s' = s
        ∨ s.pending = none ∧ (reply = .complete ∨ ∃ a, reply = .action a)) := by
  unfold nextAction
  split_ifs with hp
  · exact ⟨_, _, rfl, h, .inl ⟨rfl, hp, rfl⟩⟩
  have hidle : s.pending = none := by simpa using hp
  obtain ⟨reply, s', hl, hi, hr⟩ := loop_spec h hidle s.rank_lt
  exact ⟨reply, s', hl, hi, .inr ⟨hidle, hr⟩⟩

theorem Observed.append
    (h : Observed observations c k) (o : Observation F) : Observed (observations ++ [o]) c k := by
  obtain ⟨p, hp, heq⟩ := h
  exact ⟨p, mem_append_left _ hp, heq⟩

theorem SeedsObserved.append (h : SeedsObserved suite observations) (o : Observation F) :
    SeedsObserved suite (observations ++ [o]) := fun c hc k hk => (h c hc k hk).append o

theorem Covered.observe {c k c' k' : ℕ} (h : s.Covered c' k')
    (hpe : s.pending = some (.evaluate c k)) (ho : o.candidate = c ∧ o.case = k) :
    ({ s with observations := s.observations ++ [o], pending := none } :
      Optimization F).Covered c' k' := by
  rcases h with hobs | hq | hp
  · exact .inl (hobs.append o)
  · exact .inr (.inl hq)
  · cases hpe.symm.trans hp
    exact .inl ⟨o, mem_append_right _ (mem_singleton_self o), ho⟩

theorem StageOk.observe (h : StageOk suite s stage) (hp : s.pending = some (.evaluate c k))
    (ho : o.candidate = c ∧ o.case = k) :
    StageOk suite { s with observations := s.observations ++ [o], pending := none } stage := by
  cases stage with
  | seeds => exact ⟨h.1, rfl, fun c hc k hk => (h.2.2 c hc k hk).observe hp ho⟩
  | choose =>
    rw [h.2.2.1] at hp
    cases hp
  | reflect parents batch =>
    obtain ⟨hw, ha, hne, hpar, ht, hl, -, hcs⟩ := h
    refine ⟨hw, ha.append o, hne, hpar, ht, hl, (fun _ _ _ hn => nomatch hn), fun _ => hcs ?_⟩
    rw [proposing, hp]
  | trial candidate parents batch =>
    exact ⟨h.1, h.2.1.append o, rfl, h.2.2.2.1, fun k hk => (h.2.2.2.2 k hk).observe hp ho⟩
  | validate => exact ⟨h.1, h.2.1.append o, rfl⟩
  | final => exact ⟨h.1, rfl⟩
  | complete => exact ⟨h.1, rfl, h.2.2⟩

section

variable (h : Inv ops suite config s)
include h

theorem Inv.completeScoredRollout (output preflight : String) (score : F)
    (assessment : Option JudgeResult) :
    Inv ops suite config (s.completeScoredRollout ops output preflight score assessment).2 := by
  unfold Optimization.completeScoredRollout
  split
  next c k hp =>
    split_ifs with hl
    · exact h
    have hr : ops.inRange score := by
      simp at hl
      exact hl.2
    have hc := h.calls
    rw [evaluating, hp] at hc
    refine { h with
      scored := forall_mem_snoc h.scored hr, calls := ?_
      heldOut := fun hs =>
        ⟨by simp, forall_mem_snoc (h.heldOut hs).2 ((h.heldOut hs).1 c k hp)⟩
      stage := h.stage.observe hp ⟨rfl, rfl⟩ }
    change s.metricCalls = (s.observations ++ [_]).length + 0
    rw [length_append, hc]
    rfl
  · exact h

theorem Inv.stage_of_propose {parents batch : List ℕ}
    (hp : s.pending = some (.propose parents batch component)) :
    s.stage = .reflect parents batch := by
  have hok := h.stage
  cases hst : s.stage with
  | reflect ps b =>
    rw [hst] at hok
    obtain ⟨-, -, -, -, -, -, hs, -⟩ := hok
    obtain ⟨rfl, rfl, -⟩ := hs _ _ _ hp
    rfl
  | _ =>
    rw [hst] at hok
    simp [StageOk, proposing, hp] at hok

theorem Inv.parents {parents batch : List ℕ}
    (hp : s.pending = some (.propose parents batch component)) :
    parents ≠ [] ∧ ∀ p ∈ parents, p < s.candidates.length := by
  have hok := h.stage
  rw [h.stage_of_propose hp] at hok
  exact ⟨hok.2.2.1, hok.2.2.2.1⟩

theorem Inv.addProposal {parents batch : List ℕ}
    (hp : s.pending = some (.propose parents batch component))
    (guidance : EvaluationCandidate) : Inv ops suite config (s.addProposal parents batch guidance) := by
  have hst := h.stage_of_propose hp
  have hok := h.stage
  rw [hst] at hok
  obtain ⟨hw, hsds, hne, hpar, ht, hl, hsa, -⟩ := hok
  obtain ⟨-, -, hempty⟩ := hsa _ _ _ hp
  have hs : s.stage.searching := by
    rw [hst]
    rfl
  have hc := h.calls
  rw [evaluating, hp] at hc
  have hb := h.budget
  rw [hst] at hb
  simp [due] at hb
  unfold Optimization.addProposal
  split
  · refine { h with
      calls := hc, budget := ?_, queue := ?_
      heldOut := fun _ => ⟨by simp, (h.heldOut hs).2⟩
      stage := ⟨hw, hsds, rfl, hempty⟩ }
    · change s.metricCalls + s.queue.length + 2 * (suite.casesOf .test).length
        ≤ s.config.maxMetricCalls
      rw [hempty, List.length_nil]
      omega
    · change ∀ q ∈ s.queue, _
      rw [hempty]
      simp
  · refine { h with
      two := ?_, calls := hc, budget := ?_, queue := fun q hq => ?_
      heldOut := fun _ => ⟨by simp, (h.heldOut hs).2⟩
      stage := ⟨hw, hsds, rfl, ?_, fun k hk => ?_⟩ }
    · have htwo := h.two
      simp
      omega
    · simp [due]
      omega
    · obtain ⟨k, hk, rfl⟩ := mem_map.1 hq
      refine ⟨by simp, lt_length_of_mem_casesOf (ht k hk), fun _ => ?_⟩
      exact not_mem_test_of_mem (ht k hk) (by decide)
    · simp
    · exact .inr (.inl (mem_map.2 ⟨k, hk, rfl⟩))

end

theorem completeProposal_cases {text : String}
    {res : Except String Unit} (h : s.completeProposal parseTeam text = some (res, s')) :
    (∃ e, res = .error e) ∧ s' = s ∨ ∃ parents batch component guidance,
      s.pending = some (.propose parents batch component)
        ∧ s' = s.addProposal parents batch guidance := by
  unfold Optimization.completeProposal at h
  split at h
  next hp =>
    split_ifs at h
    · cases h
      exact .inl ⟨⟨_, rfl⟩, rfl⟩
    · obtain ⟨parent, -, h⟩ := bind_eq_some_iff.1 h
      obtain ⟨individual, -, h⟩ := bind_eq_some_iff.1 h
      split at h <;> cases h
      · exact .inl ⟨⟨_, rfl⟩, rfl⟩
      · exact .inr ⟨_, _, _, _, hp, rfl⟩
  · cases h
    exact .inl ⟨⟨_, rfl⟩, rfl⟩

theorem Inv.call {c : SearchCall F}
    (h : Inv ops suite config s) (hc : s.call ops suite parseTeam c = some s') :
    Inv ops suite config s' := by
  cases c with
  | next =>
    obtain ⟨reply, t, hn, hi, -⟩ := nextAction_spec h
    rw [Optimization.call, hn] at hc
    cases hc
    exact hi
  | scored output preflight score assessment =>
    cases hc
    exact h.completeScoredRollout output preflight score assessment
  | proposed text =>
    obtain ⟨⟨result, t⟩, hpr, rfl⟩ := map_eq_some_iff.1 hc
    obtain ⟨-, rfl⟩ | ⟨_, _, _, guidance, hp, rfl⟩ := completeProposal_cases hpr
    · exact h
    · exact h.addProposal hp guidance

section

variable (h : (Optimization.new suite prims config seeds : Except String (Optimization F)) = .ok s)
include h

theorem new_eq_ok : seeds.length = 2 ∧ Accepted suite config ∧ Reordered {
      config
      candidates := seeds.map fun guidance => ⟨guidance, [], "seed"⟩
      queue := pairs (List.range seeds.length) (suite.casesOf .validation)
      rng := if config.seed = 0 then 1 else config.seed
      trainOrder := (suite.casesOf .train).toArray } s ∧ s.trainCursor = 0 := by
  obtain ⟨-, -, h⟩ := bind_eq_ok.1 h
  split at h
  · cases h
  obtain ⟨-, -, h⟩ := bind_eq_ok.1 h
  dsimp only at h
  split at h
  · cases h
  rename_i hb
  simp at hb
  obtain ⟨⟨⟨⟨hs, -⟩, -, hm⟩, hbud⟩, -⟩ := hb
  cases h
  exact ⟨hs, ⟨hm, hbud⟩, reordered_shuffle, rfl⟩

theorem inv_new :
    Inv ops suite config s := by
  obtain ⟨hsds, ha, hs, hcur⟩ := new_eq_ok h
  refine Inv.reordered ?_ hs (hcur ▸ Nat.zero_le _)
  refine ⟨rfl, ha, ?_, ?_, Nat.zero_le _, by simp, Nat.zero_le _, rfl, ?_,
    fun q hq => ?_, fun _ => ⟨by simp, by simp⟩, rfl, rfl, fun c hc k hk => ?_⟩
  · rw [List.length_map, hsds]
  · simp
  · have hb := ha.budget
    rw [length_pairs, hsds]
    change 0 + 2 * (suite.casesOf .validation).length + 2 * (suite.casesOf .test).length
      ≤ config.maxMetricCalls
    omega
  · obtain ⟨hcn, hca⟩ := mem_pairs.1 hq
    refine ⟨?_, lt_length_of_mem_casesOf hca, fun _ => not_mem_test_of_mem hca (by decide)⟩
    rw [List.length_map]
    exact List.mem_range.1 hcn
  · refine .inr (.inl (mem_pairs.2 ⟨List.mem_range.2 ?_, hk⟩))
    rw [hsds]
    exact hc

end

theorem Inv.run (h : Inv ops suite config s)
    (hr : Runs ops suite parseTeam s s') : Inv ops suite config s' := hr.invariant Inv.call h

theorem Inv.call_isSome (h : Inv ops suite config s) (parseTeam : String → Option (Option Team))
    (c : SearchCall F) : (s.call ops suite parseTeam c).isSome := by
  cases c with
  | next =>
    obtain ⟨reply, s', hn, -⟩ := nextAction_spec h
    simp [Optimization.call, hn]
  | scored output preflight score assessment => rfl
  | proposed text =>
    simp [Optimization.call]
    unfold Optimization.completeProposal
    split
    next parents batch component hp =>
      obtain ⟨hne, hpar⟩ := h.parents hp
      obtain ⟨parent, rest, rfl⟩ := List.exists_cons_of_ne_nil hne
      have hg : s.candidates[parent]? = some _ := getElem?_eq_getElem (hpar parent mem_cons_self)
      split_ifs
      · rfl
      · simp [hg]
        split <;> rfl
    · rfl

/-- For every accepted configuration and all calls, the budgets hold and suffice: no call panics,
and `next_action` fails only while an action is reserved. -/
theorem budgets_suffice {s0 : Optimization F}
    (hnew : Optimization.new suite prims config seeds = .ok s0)
    (hrun : Runs ops suite parseTeam s0 s) :
    s.metricCalls ≤ config.maxMetricCalls ∧ s.proposalCalls ≤ config.maxProposals
      ∧ s.metricCalls = s.observations.length + s.evaluating
      ∧ (∀ c, (s.call ops suite parseTeam c).isSome)
      ∧ ∃ reply s', s.nextAction ops suite = some (reply, s')
        ∧ (reply = .error alreadyReserved ∧ s.pending.isSome
          ∨ s.pending = none ∧ (reply = .complete ∨ ∃ a, reply = .action a)) := by
  have h : Inv ops suite config s := (inv_new hnew).run hrun
  have hb := h.budget
  have hp := h.proposals
  obtain ⟨reply, s', hn, -, hrp⟩ := nextAction_spec h
  rw [h.fixed] at hb hp
  refine ⟨by omega, hp, h.calls, h.call_isSome parseTeam, reply, s', hn, ?_⟩
  exact hrp.imp (fun hr => ⟨hr.1, hr.2.1⟩) id

def percent : ScoreOps ℕ where
  inRange := fun n => n ≤ 100
  le := fun a b => a ≤ b
  lt := fun a b => a < b
  beq := fun a b => a = b
  cmp := compare
  mean := fun xs => xs.sum / xs.length
  max := Nat.max
  zero := 0
  one := 100
  le_trans := fun a b c _ _ _ => by
    simp
    exact le_trans
  lt_iff := by simp
  beq_iff := fun a b _ _ => by
    simp
    exact le_antisymm_iff

def threeTasks : EvaluationSuite where
  name := "tasks"
  cases := [⟨none, none, "a", .train, "1", .exact "ok"⟩,
    ⟨none, none, "b", .validation, "2", .exact "ok"⟩, ⟨none, none, "c", .test, "3", .exact "ok"⟩]

def oneProposal : OptimizationConfig where
  maxMetricCalls := 8
  maxProposals := 1
  minibatchSize := 1
  seed := 7
  merge := true

def twoSeeds : List EvaluationCandidate := [⟨none, "left", none⟩, ⟨none, "right", none⟩]

def scoredAs (score : ℕ) : SearchCall ℕ := .scored "" "" score none

def improving : List (SearchCall ℕ) :=
  [.next, scoredAs 0, .next, scoredAs 50, .next, scoredAs 10, .next, .proposed "better", .next,
    scoredAs 60, .next, scoredAs 200, .next, scoredAs 70, .next, scoredAs 0, .next, scoredAs 100,
    .next]

def started : Except String (Optimization ℕ) :=
  Optimization.new threeTasks ⟨fun _ => ""⟩ oneProposal twoSeeds

theorem budgets_suffice_improving :
    ∃ s0 s, started = .ok s0 ∧ Runs percent threeTasks (fun _ => none) s0 s
      ∧ (s.stage, s.winner, s.metricCalls, s.proposalCalls) = (.complete, some 2, 7, 1)
      ∧ s.metricCalls ≤ oneProposal.maxMetricCalls ∧ s.proposalCalls ≤ oneProposal.maxProposals := by
  have hr : (started.toOption.any fun s0 =>
      (run (call percent threeTasks fun _ => none) s0 improving).any fun s =>
        (s.stage, s.winner, s.metricCalls, s.proposalCalls) = (.complete, some 2, 7, 1)) := by
    decide +kernel
  rcases hn : started with e | s0 <;> rw [hn] at hr
  · cases hr
  · obtain ⟨s, hs, he⟩ := exists_steps_of_run hr
    have hb := budgets_suffice hn hs
    exact ⟨s0, s, rfl, hs, he, hb.1, hb.2.1⟩

end Optimization

end Choruz
