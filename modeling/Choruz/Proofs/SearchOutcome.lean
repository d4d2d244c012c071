import Choruz.Proofs.HeldOut

/-!
# How a search ends

Each action spends one of the bounded calls, so a search that is answered comes to its end.  With
rational scores its frontier is that of the validated candidates, its winner is the first with the
best mean, and the test cases decide only whether the winner is applied.
-/

namespace Choruz

open Relational

namespace Optimization

variable {F : Type} {ops : ScoreOps F} {suite : EvaluationSuite} {config : OptimizationConfig}
  {parseTeam : String → Option (Option Team)} {s t u : Optimization F} {w : ℕ}
  {seeds : List EvaluationCandidate} {prims : EvalPrims} {s0 : Optimization F} {c k : ℕ}

def spent (s : Optimization F) : ℕ := s.metricCalls + s.proposalCalls

theorem Reordered.spent (h : Reordered s t) : t.spent = s.spent := by
  rw [h.eq]
  rfl

theorem spent_fillBatch : ∀ (fuel : ℕ) (batch : List ℕ) (s : Optimization F),
    (fillBatch fuel batch s).2.spent = s.spent
  | 0, _, _ => rfl
  | fuel + 1, batch, s => by
    unfold fillBatch
    split_ifs
    · split
      · exact reordered_refill.spent
      · exact (spent_fillBatch fuel _ _).trans reordered_refill.spent
    · rfl

theorem reserve_action {a : SearchAction}
    (h : s.reserve suite c k = .returned (.action a) t) : t.spent = s.spent + 1
      ∧ t = s.popped s.queue (some (.evaluate c k)) t.metricCalls t.modelCallsReserved := by
  unfold reserve at h
  split_ifs at h
  · cases h
  split at h <;> cases h
  exact ⟨Nat.add_right_comm _ _ _, rfl⟩

theorem drain_cases (suite : EvaluationSuite) : ∀ (queue : List (ℕ × ℕ)) (s : Optimization F),
    (∀ q ∈ queue, Observed s.observations q.1 q.2)
        ∧ drain suite queue s = .goes { s with queue := [] }
      ∨ ∃ skipped c k rest, queue = skipped ++ (c, k) :: rest
        ∧ (∀ q ∈ skipped, Observed s.observations q.1 q.2)
        ∧ drain suite queue s = { s with queue := rest }.reserve suite c k
  | [], s => .inl ⟨by simp, rfl⟩
  | (c, k) :: queue, s => by
    unfold drain
    split_ifs with hc
    · have ho := observation_isSome.1 (and_eq_true_iff.1 hc).2
      rcases drain_cases suite queue s with ⟨ha, heq⟩ | ⟨skipped, c', k', rest, rfl, ha, heq⟩
      · exact .inl ⟨by simpa using ⟨ho, fun a b => ha (a, b)⟩, heq⟩
      · refine .inr ⟨(c, k) :: skipped, c', k', rest, rfl, ?_, heq⟩
        simpa using ⟨ho, fun a b => ha (a, b)⟩
    · exact .inr ⟨[], c, k, queue, rfl, by simp, rfl⟩

/-- What a turn of the loop spends, and where it leaves the search. -/
def Proceeds (ops : ScoreOps F) (suite : EvaluationSuite) (t : Optimization F) : Progress F → Prop
  | .returned reply u => u.stage = t.stage ∧ (t.stage.searching ∨ u = t)
      ∧ (∀ a, reply = .action a → u.spent = t.spent + 1)
      ∧ (reply = .complete → t.stage = .complete)
  | .goes u => u.spent = t.spent ∧ (u.stage.searching
      ∨ (t.stage = .final ∧ u = { t with stage := .complete })
      ∨ (t.stage = .choose ∧ t.finish ops suite = .goes u))

theorem proceeds_startRound {t' : Optimization F} (h : t'.spent = t.spent) (parents : List ℕ) :
    Proceeds ops suite t (t'.startRound parents) := ⟨(spent_fillBatch _ _ _).trans h, .inl rfl⟩

theorem proceeds_newRound (hst : t.stage = .choose) :
    Proceeds ops suite t (t.newRound ops suite) := by
  have hs : t.stage.searching := by rw [hst]; rfl
  unfold newRound
  dsimp only
  split
  · exact ⟨rfl, .inl hs, nofun, nofun⟩
  split_ifs
  · unfold mergeParent
    dsimp only
    split
    · exact ⟨rfl, .inl hs, nofun, nofun⟩
    · refine proceeds_startRound ?_ _
      rfl
  · refine proceeds_startRound ?_ _
    rfl

theorem proceeds_advance (ops : ScoreOps F) (suite : EvaluationSuite) (t : Optimization F) :
    Proceeds ops suite t (t.advance ops suite) := by
  unfold advance
  split
  · exact ⟨rfl, .inl rfl⟩
  · exact ⟨rfl, .inl rfl⟩
  next hst =>
    split_ifs
    · rcases hf : t.finish ops suite with ⟨reply, u⟩ | u
      · unfold finish at hf
        split at hf <;> cases hf
        exact ⟨rfl, .inr rfl, nofun, nofun⟩
      · refine ⟨?_, .inr (.inr ⟨hst, hf⟩)⟩
        unfold finish at hf
        split at hf <;> cases hf
        rfl
    · exact proceeds_newRound hst
  next hst =>
    unfold reflect
    split
    · exact ⟨rfl, .inl rfl⟩
    · exact ⟨rfl, .inl (by rw [hst]; rfl), fun _ _ => rfl, nofun⟩
  · unfold judgeTrial
    split
    · exact ⟨rfl, .inr rfl, nofun, nofun⟩
    · dsimp only
      split_ifs <;> exact ⟨rfl, .inl rfl⟩
  next hst =>
    exact ⟨rfl, .inr (.inl ⟨hst, rfl⟩)⟩
  next hst =>
    exact ⟨rfl, .inr rfl, nofun, fun _ => hst⟩

/-- What holds once the winner is chosen: it is still the best of the candidates, and only test
cases are evaluated, which the winner and the first seed all are. -/
structure Chosen (ops : ScoreOps F) (suite : EvaluationSuite) (s : Optimization F) (w : ℕ) :
    Prop where
  best : s.best ops suite = some w
  seeds : SeedsObserved suite s.observations
  queue : ∀ q ∈ s.queue, q.2 ∈ suite.casesOf .test
  pending : ∀ c k, s.pending = some (.evaluate c k) → k ∈ suite.casesOf .test
  covered : ∀ c, c = 0 ∨ c = w → ∀ k ∈ suite.casesOf .test, s.Covered c k
  idle : s.stage = .complete → s.pending = none

def Settles (ops : ScoreOps F) (suite : EvaluationSuite) (s : Optimization F) : Prop :=
  ∀ w, s.winner = some w → Chosen ops suite s w

theorem Inv.settles (h : Inv ops suite config s) (hs : s.stage.searching) :
    Settles ops suite s := by
  intro w hw
  rw [h.searching_iff.1 hs] at hw
  cases hw

theorem drain_outcome (h : Inv ops suite config s) (hi : s.pending = none) :
    (drain suite s.queue s = .goes { s with queue := [] }
        ∧ Inv ops suite config { s with queue := [] }
        ∧ (Settles ops suite s → Settles ops suite { s with queue := [] }))
      ∨ ∃ a t, drain suite s.queue s = .returned (.action a) t ∧ t.spent = s.spent + 1
        ∧ (Settles ops suite s → Settles ops suite t) := by
  have hsa : ({ s with queue := s.queue, pending := none } : Optimization F) = s := by
    rw [← hi]
  have hsp := drain_spec hi (hsa.symm ▸ h)
  rcases drain_cases suite s.queue s with ⟨ha, hd⟩ | ⟨skipped, c, k, rest, hqu, ha, hd⟩
  · refine .inl ⟨hd, ?_, fun hs w hw => { hs w hw with queue := by simp, covered := ?_ }⟩
    · rcases hsp with ⟨c, k, t, heq, -⟩ | ⟨-, hinv⟩
      · cases hd.symm.trans heq
      · rwa [← hi] at hinv
    · intro c hc k hk
      rcases (hs w hw).covered c hc k hk with ho | hm | hpe
      · exact .inl ho
      · exact .inl (ha _ hm)
      · exact .inr (.inr hpe)
  · rcases hsp with ⟨c', k', t, heq, -⟩ | ⟨heq, -⟩
    · refine .inr ⟨_, t, heq, ?_⟩
      rw [hd] at heq
      obtain ⟨hse, ht⟩ := reserve_action heq
      refine ⟨hse, fun hs w hw => ?_⟩
      rw [ht] at hw ⊢
      have hch := hs w hw
      have hm : ∀ q ∈ (c, k) :: rest, q ∈ s.queue := fun q hq =>
        hqu ▸ mem_append_right _ hq
      refine { hch with
        queue := fun q hq => hch.queue q (hm q (mem_cons_of_mem _ hq))
        pending := fun c' k' hp => ?_, covered := fun c' hc k' hk => ?_, idle := fun hst => ?_ }
      · cases hp
        exact hch.queue (c, k) (hm _ mem_cons_self)
      · rcases hch.covered c' hc k' hk with ho | hqd | hpe
        · exact .inl ho
        · rw [hqu] at hqd
          rcases mem_append.1 hqd with hsk | hr
          · exact .inl (ha _ hsk)
          rcases mem_cons.1 hr with heq | hr
          · cases heq
            exact .inr (.inr rfl)
          · exact .inr (.inl hr)
        · cases hi.symm.trans hpe
      · have hok := h.stage
        rw [show s.stage = .complete from hst] at hok
        simp [hok.2.2] at hqu
    · rw [hd] at heq
      unfold reserve at heq
      split_ifs at heq
      split at heq <;> cases heq

theorem settles_finish (h : Inv ops suite config s) (hi : s.pending = none)
    (hst : s.stage = .choose) (hf : s.finish ops suite = .goes t) :
    Settles ops suite t := by
  have hok := h.stage
  rw [hst] at hok
  unfold finish at hf
  split at hf <;> cases hf
  rename_i winner hb
  intro w hw
  cases hw
  refine ⟨hb, hok.2.1, fun q hq => (mem_pairs.1 hq).2, fun c k hp => ?_,
    fun c hc k hk => .inr (.inl (mem_pairs.2 ⟨?_, hk⟩)), fun _ => hi⟩
  · cases hi.symm.trans hp
  · rcases hc with rfl | rfl
    · exact mem_cons_self
    · by_cases hz : c = 0 <;> simp [hz]

theorem loop_outcome : ∀ {fuel : ℕ} {s u : Optimization F} {reply : SearchReply},
    Inv ops suite config s → s.pending = none → Settles ops suite s →
    loop ops suite fuel s = some (reply, u) → Settles ops suite u
      ∧ (∀ a, reply = .action a → u.spent = s.spent + 1) ∧ (reply = .complete → u.stage = .complete)
  | 0, _, _, _, _, _, _, h => by cases h
  | fuel + 1, s, u, reply, hinv, hi, hs, h => by
    unfold loop at h
    rcases drain_outcome hinv hi with ⟨hd, hi1, hs1⟩ | ⟨a, t, hd, hsp, hs1⟩
    · have ht := turn_advance hi1 hi rfl
      have hp := proceeds_advance ops suite { s with queue := [] }
      rw [hd] at h
      rcases ha : ({ s with queue := [] } : Optimization F).advance ops suite with
        ⟨reply', v⟩ | v <;> rw [ha] at ht hp <;> simp only [ha] at h
      · cases h
        obtain ⟨hst, hsr | rfl, hsp, hcpl⟩ := hp
        · exact ⟨ht.1.settles (hst ▸ hsr), hsp, fun hr => hst.trans (hcpl hr)⟩
        · exact ⟨hs1 hs, hsp, hcpl⟩
      · obtain ⟨hinv2, hi2, -⟩ := ht
        obtain ⟨hsp, hst⟩ := hp
        have hs2 : Settles ops suite v := by
          rcases hst with hsr | ⟨-, rfl⟩ | ⟨hc, hf⟩
          · exact hinv2.settles hsr
          · exact fun w hw => { hs1 hs w hw with idle := fun _ => hi }
          · exact settles_finish hi1 hi hc hf
        have hre := loop_outcome hinv2 hi2 hs2 h
        rw [hsp] at hre
        exact hre
    · rw [hd] at h
      cases h
      exact ⟨hs1 hs, fun _ _ => hsp, by simp⟩

theorem scores_congr {c : ℕ} : ∀ {cases : List ℕ},
    (∀ k ∈ cases, t.observation c k = s.observation c k) → t.scores c cases = s.scores c cases
  | [], _ => rfl
  | k :: cases, h => by
    have hr : t.scores c cases = s.scores c cases :=
      scores_congr fun k' hk => h k' (mem_cons_of_mem _ hk)
    unfold scores at hr ⊢
    rw [List.mapM_cons, List.mapM_cons, h k mem_cons_self, hr]

theorem Chosen.observe {o : Observation F} (h : Chosen ops suite s w)
    (hp : s.pending = some (.evaluate c k)) (ho : o.candidate = c ∧ o.case = k) :
    Chosen ops suite { s with observations := s.observations ++ [o], pending := none } w := by
  have ht : o.case ∈ suite.casesOf .test := ho.2 ▸ h.pending c k hp
  refine ⟨?_, h.seeds.append o, h.queue, by simp,
    fun c' hc k' hk => (h.covered c' hc k' hk).observe hp ho, fun _ => rfl⟩
  have hs : ∀ i, ({ s with observations := s.observations ++ [o], pending := none } :
      Optimization F).scores i (suite.casesOf .validation) =
        s.scores i (suite.casesOf .validation) := by
    refine fun i => scores_congr fun k' hk => ?_
    have hne : o.case ≠ k' := fun heq => not_mem_test_of_mem hk (by decide) (heq ▸ ht)
    simp [observation, hne]
  rw [← h.best]
  simp [Optimization.best, mean, hs]

theorem Inv.settles_call {c : SearchCall F} (h : Inv ops suite config s)
    (hs : Settles ops suite s) (hc : s.call ops suite parseTeam c = some t) :
    Settles ops suite t := by
  cases c with
  | next =>
    obtain ⟨⟨reply, u⟩, hn, rfl⟩ := map_eq_some_iff.1 hc
    unfold nextAction at hn
    split_ifs at hn with hp
    · cases hn
      exact hs
    · exact (loop_outcome h (by simpa using hp) hs hn).1
  | scored output preflight score assessment =>
    cases hc
    unfold Optimization.completeScoredRollout
    split
    next hp =>
      split_ifs
      · exact hs
      · exact fun w hw => (hs w hw).observe hp ⟨rfl, rfl⟩
    · exact hs
  | proposed text =>
    obtain ⟨⟨result, u⟩, hpr, rfl⟩ := map_eq_some_iff.1 hc
    obtain ⟨-, rfl⟩ | ⟨_, _, _, _, hp, rfl⟩ := completeProposal_cases hpr
    · exact hs
    refine (h.addProposal hp _).settles ?_
    unfold Optimization.addProposal
    split <;> rfl

theorem new_fresh (h : Optimization.new suite prims config seeds = .ok s) :
    s.pending = none ∧ s.winner = none ∧ s.spent = 0 := by
  obtain ⟨-, -, hs, -⟩ := new_eq_ok h
  rw [hs.eq]
  exact ⟨rfl, rfl, rfl⟩

theorem settles_of_runs (hn : Optimization.new suite prims config seeds = .ok s0)
    (hr : Runs ops suite parseTeam s0 s) : Inv ops suite config s ∧ Settles ops suite s := by
  refine hr.invariant (I := fun s => Inv ops suite config s ∧ Settles ops suite s)
    (fun hs hc => ⟨hs.1.call hc, hs.1.settles_call hs.2 hc⟩) ⟨inv_new hn, fun w hw => ?_⟩
  rw [(new_fresh hn).2.1] at hw
  cases hw

/-- The pending action is answered with a result that is accepted. -/
inductive Completes (ops : ScoreOps F) (parseTeam : String → Option (Option Team))
    (s t : Optimization F) : Prop
  | scored {output preflight score assessment}
    (h : s.completeScoredRollout ops output preflight score assessment = (.ok (), t))
  | proposed {text : String} (h : s.completeProposal parseTeam text = some (.ok (), t))

theorem Completes.spec (suite : EvaluationSuite) (h : Completes ops parseTeam s t) :
    t.pending = none ∧ t.spent = s.spent ∧ ∃ c, s.call ops suite parseTeam c = some t := by
  cases h with
  | @scored output preflight score assessment h =>
    refine ⟨?_, ?_, .scored output preflight score assessment, by simp [call, h]⟩
    all_goals
      unfold completeScoredRollout at h
      split at h
      · split_ifs at h <;> cases h
        rfl
      · cases h
  | @proposed text h =>
    refine ⟨?_, ?_, .proposed text, by simp [call, h]⟩
    all_goals
      obtain ⟨⟨_, he⟩, -⟩ | ⟨_, _, _, _, -, rfl⟩ := completeProposal_cases h
      · cases he
      · unfold addProposal
        split <;> rfl

/-- The search gave `n` actions from `s0` on, each of them answered. -/
inductive Answered (ops : ScoreOps F) (suite : EvaluationSuite)
    (parseTeam : String → Option (Option Team)) (s0 : Optimization F) : ℕ → Optimization F → Prop
  | start : Answered ops suite parseTeam s0 0 s0
  | step {n : ℕ} {s t u : Optimization F} {a : SearchAction}
    (h : Answered ops suite parseTeam s0 n s)
    (hnext : s.nextAction ops suite = some (.action a, t)) (hanswer : Completes ops parseTeam t u) :
    Answered ops suite parseTeam s0 (n + 1) u

theorem Answered.spec {n : ℕ} (hnew : Optimization.new suite prims config seeds = .ok s0)
    (h : Answered ops suite parseTeam s0 n s) : Inv ops suite config s ∧ Settles ops suite s
      ∧ s.pending = none ∧ s.spent = n := by
  induction h with
  | start =>
    have hst : Runs ops suite parseTeam s0 s0 := .refl _
    obtain ⟨hinv, hs⟩ := settles_of_runs hnew hst
    exact ⟨hinv, hs, (new_fresh hnew).1, (new_fresh hnew).2.2⟩
  | @step n s t u a _ hn ha ih =>
    obtain ⟨hinv, hs, hi, rfl⟩ := ih
    have hc : s.call ops suite parseTeam .next = some t := by simp [call, hn]
    obtain ⟨hp, hsp, c, hc'⟩ := ha.spec suite
    have hi' := hinv.call hc
    refine ⟨hi'.call hc', hi'.settles_call (hinv.settles_call hs hc) hc', hp, ?_⟩
    unfold nextAction at hn
    rw [hi] at hn
    rw [hsp]
    exact (loop_outcome hinv hi hs hn).2.1 a rfl

/-- A state in which `next_action`, called in `s`, looks at the stage. -/
inductive Passes (ops : ScoreOps F) (suite : EvaluationSuite) (s : Optimization F) :
    Optimization F → Prop
  | first {t : Optimization F} (hidle : s.pending = none)
    (hdrain : drain suite s.queue s = .goes t) : Passes ops suite s t
  | next {t u v : Optimization F} (h : Passes ops suite s t)
    (hadvance : t.advance ops suite = .goes u) (hdrain : drain suite u.queue u = .goes v) :
    Passes ops suite s v

theorem Inv.drained (h : Inv ops suite config s) (hi : s.pending = none)
    (hd : drain suite s.queue s = .goes t) :
    Inv ops suite config t ∧ t.pending = none ∧ t.queue = [] := by
  rcases drain_outcome h hi with ⟨heq, hinv, -⟩ | ⟨_, _, heq, -⟩ <;> cases heq.symm.trans hd
  exact ⟨hinv, hi, rfl⟩

theorem Passes.inv (h : Passes ops suite s t) (hinv : Inv ops suite config s) :
    Inv ops suite config t ∧ t.pending = none ∧ t.queue = [] := by
  induction h with
  | first hi hd => exact hinv.drained hi hd
  | next _ ha hd ih =>
    have ht := turn_advance ih.1 ih.2.1 ih.2.2
    rw [ha] at ht
    exact ht.1.drained ht.2.1 hd

/-- Each call of `next_action` returns, and a batch gets its distinct training cases whatever the
generator's state; the number of answered actions is bounded by the two budgets, and where no
further action is given the search is complete. -/
theorem search_terminates (hnew : Optimization.new suite prims config seeds = .ok s0) :
    (∀ s, Runs ops suite parseTeam s0 s → (s.nextAction ops suite).isSome
      ∧ ∀ t, Passes ops suite s t → ∀ rng, ({ t with rng }.batch.1).length = config.minibatchSize
        ∧ ({ t with rng }.batch.1).Nodup ∧ ∀ k ∈ { t with rng }.batch.1, k ∈ suite.casesOf .train)
    ∧ ∀ n s, Answered ops suite parseTeam s0 n s → n ≤ config.maxMetricCalls + config.maxProposals
      ∧ ∃ reply t, s.nextAction ops suite = some (reply, t)
        ∧ ((∃ a, reply = .action a) ∧ n < config.maxMetricCalls + config.maxProposals
          ∨ reply = .complete ∧ t.stage = .complete) := by
  have hb : ∀ {s : Optimization F}, Inv ops suite config s →
      s.spent ≤ config.maxMetricCalls + config.maxProposals := by
    intro s h
    have hbud := h.budget
    have hpr := h.proposals
    rw [h.fixed] at hbud hpr
    unfold spent
    omega
  refine ⟨fun s hr => ?_, fun n s h => ?_⟩
  · have h : Inv ops suite config s := (inv_new hnew).run hr
    obtain ⟨reply, t, hn, -⟩ := nextAction_spec h
    refine ⟨by rw [hn]; rfl, fun t hpa rng => ?_⟩
    have ht := (hpa.inv h).1
    obtain ⟨hlen, hnd, htr, -⟩ := batch_spec (s := { t with rng }) ht.order ht.cursor
      ht.accepted.minibatch
    exact ⟨hlen.trans (congrArg (·.minibatchSize) ht.fixed), hnd, htr⟩
  · obtain ⟨hinv, hs, hi, rfl⟩ := h.spec hnew
    obtain ⟨reply, t, hn, hi', hrp⟩ := nextAction_spec hinv
    have hl := hn
    unfold nextAction at hl
    rw [hi] at hl
    obtain ⟨-, hsp, hc⟩ := loop_outcome hinv hi hs hl
    refine ⟨hb hinv, reply, t, hn, ?_⟩
    rcases hrp with ⟨-, hp, -⟩ | ⟨-, rfl | ⟨a, rfl⟩⟩
    · rw [hi] at hp
      cases hp
    · exact .inr ⟨rfl, hc rfl⟩
    · have hle := hb hi'
      rw [hsp a rfl] at hle
      exact .inl ⟨⟨a, rfl⟩, hle⟩

theorem search_terminates_started :
    ∃ s0, started = .ok s0 ∧ ∀ n s, Answered percent threeTasks (fun _ => none) s0 n s → n ≤ 9 := by
  have hr : started.isOk := by decide +kernel
  rcases hn : started with e | s0
  · rw [hn] at hr
    cases hr
  · exact ⟨s0, rfl, fun n s h => ((search_terminates hn).2 n s h).1⟩

def rationals : ScoreOps ℚ where
  inRange := fun x => 0 ≤ x ∧ x ≤ 1
  le := fun a b => a ≤ b
  lt := fun a b => a < b
  beq := fun a b => a = b
  cmp := compare
  mean := fun xs => xs.sum / xs.length
  max
  zero := 0
  one := 1
  le_trans := fun a b c _ _ _ => by
    simp
    exact le_trans
  lt_iff := by simp
  beq_iff := fun a b _ _ => by
    simp
    exact le_antisymm_iff

variable {r q : Optimization ℚ}

/-- The members of the frontier are validated, none is at least as good on each validation case as
another, and every validated candidate has a member at least as good on each. -/
structure OptimalFrontier (suite : EvaluationSuite) (q : Optimization ℚ) : Prop where
  nonempty : q.frontier rationals suite ≠ []
  validated : ∀ i ∈ q.frontier rationals suite, ∃ xs, (i, xs) ∈ q.measured suite
  apart : ∀ i ∈ q.frontier rationals suite, ∀ j ∈ q.frontier rationals suite, i ≠ j → ∀ xs ys,
    (i, xs) ∈ q.measured suite → (j, ys) ∈ q.measured suite → ¬ List.Forall₂ (· ≤ ·) ys xs
  covers : ∀ i xs, (i, xs) ∈ q.measured suite → ∃ j ∈ q.frontier rationals suite, ∃ ys,
    (j, ys) ∈ q.measured suite ∧ List.Forall₂ (· ≤ ·) xs ys

theorem atMost_rationals {xs ys : List ℚ} : AtMost rationals xs ys ↔ List.Forall₂ (· ≤ ·) xs ys := by
  simp [AtMost, rationals]

theorem optimalFrontier (h : Inv rationals suite config q) (hs : SeedsObserved suite q.observations) :
    OptimalFrontier suite q where
  nonempty := by
    have ht := h.two
    obtain ⟨xs, hxs⟩ := exists_scores (hs 0 (by omega))
    obtain ⟨b, -, hb, -⟩ := exists_frontier h.scored
      (mem_measured (a := (0, xs)).2 ⟨(by omega : 0 < q.candidates.length), hxs⟩)
    exact List.ne_nil_of_mem hb
  validated i hi := by
    obtain ⟨⟨_, xs⟩, ha, rfl, -⟩ := mem_frontier.1 hi
    exact ⟨xs, ha⟩
  apart i hi j hj hij xs ys hxs hys hle := by
    obtain ⟨a, ha, haj, hf⟩ := mem_frontier.1 hj
    cases eq_of_measured ha hys haj
    obtain ⟨b, hb, hbi, hf'⟩ := mem_frontier.1 hi
    cases eq_of_measured hb hxs hbi
    have hx := comparable_of_measured h.scored hxs
    have hy := comparable_of_measured h.scored hys
    by_cases hge : AtMost rationals xs ys
    · rcases lt_or_gt_of_ne hij with hlt | hgt
      · exact eq_false_iff.1 (hf _ hxs)
          ((dominates_iff hx hy).2 ⟨hij, atMost_rationals.2 hle, fun _ => hlt⟩)
      · exact eq_false_iff.1 (hf' _ hys) ((dominates_iff hy hx).2 ⟨hij.symm, hge, fun _ => hgt⟩)
    · exact eq_false_iff.1 (hf _ hxs)
        ((dominates_iff hx hy).2 ⟨hij, atMost_rationals.2 hle, fun hle' => absurd hle' hge⟩)
  covers i xs hxs := by
    obtain ⟨⟨j, ys⟩, hys, hj, heq | hd⟩ := exists_frontier h.scored hxs
    · cases heq
      exact ⟨i, hj, xs, hxs, List.forall₂_same.2 fun _ _ => le_rfl⟩
    · have hbo := (dominates_iff (comparable_of_measured h.scored hys)
        (comparable_of_measured h.scored hxs)).1 hd
      exact ⟨j, hj, ys, hys, atMost_rationals.1 hbo.2.1⟩

/-- `max_by` takes the greatest under a key. -/
theorem le_of_maxBy {α β : Type} [LinearOrder β] {cmp : α → α → Ordering} (key : α → β)
    (hc : ∀ a b, cmp a b = .gt ↔ key b < key a) {l : List α} {a : α}
    (h : maxBy cmp l = some a) : ∀ b ∈ l, key b ≤ key a := by
  have hf : ∀ (l : List α) (x : α), ∀ b ∈ x :: l,
      key b ≤ key (l.foldl (fun x y => if cmp x y = .gt then x else y) x) := by
    intro l
    induction l with
    | nil => simp
    | cons y l ih =>
      intro x b hb
      have hn : ∀ z ∈ [x, y], key z ≤ key (if cmp x y = .gt then x else y) := by
        intro z hz
        split_ifs with hgt <;> rw [hc] at hgt <;> simp at hz <;> rcases hz with rfl | rfl
        · exact le_rfl
        · exact hgt.le
        · exact not_lt.1 hgt
        · exact le_rfl
      by_cases hm : b ∈ [x, y]
      · exact (hn b hm).trans (ih _ _ mem_cons_self)
      simp at hb hm
      tauto
  cases l with
  | nil => cases h
  | cons x l =>
    cases h
    exact hf l x

/-- The candidate has the best mean on the validation cases, and no earlier one has it. -/
def FirstBest (suite : EvaluationSuite) (q : Optimization ℚ) (w : ℕ) : Prop :=
  ∃ m, w < q.candidates.length ∧ q.mean rationals w (suite.casesOf .validation) = some m
    ∧ ∀ i < q.candidates.length, ∀ x, q.mean rationals i (suite.casesOf .validation) = some x →
      x < m ∨ x = m ∧ w ≤ i

theorem firstBest (h : q.best rationals suite = some w) : FirstBest suite q w := by
  obtain ⟨⟨i, m⟩, hmax, rfl⟩ := map_eq_some_iff.1 h
  have hle := le_of_maxBy (fun a : ℕ × ℚ => toLex (a.2, OrderDual.toDual a.1)) (fun a b => by
    rw [Ordering.then_eq_gt, Prod.Lex.toLex_lt_toLex, compare_gt_iff_gt]
    exact or_congr compare_gt_iff_gt (and_congr (compare_eq_iff_eq.trans eq_comm) Iff.rfl)) hmax
  have hne : (List.range q.candidates.length).filterMap (fun i =>
      (q.mean rationals i (suite.casesOf .validation)).map fun m => (i, m)) ≠ [] := by
    intro hn
    rw [hn] at hmax
    cases hmax
  obtain ⟨a, ha, heq⟩ := maxBy_mem _ hne
  cases heq.symm.trans hmax
  simp only [mem_filterMap, List.mem_range, map_eq_some_iff] at ha hle
  obtain ⟨_, hlt, _, hm, rfl, rfl⟩ := ha
  refine ⟨_, hlt, hm, fun j hj x hx => ?_⟩
  exact Prod.Lex.toLex_le_toLex.1 (hle (j, x) ⟨j, hj, x, hx, rfl⟩)

theorem canApply_iff (h : Chosen rationals suite q w) (hw : q.winner = some w)
    (hc : q.stage = .complete) (he : q.queue = []) : ∃ m0 m,
      q.mean rationals 0 (suite.casesOf .test) = some m0
      ∧ q.mean rationals w (suite.casesOf .test) = some m
      ∧ (q.canApply rationals suite ↔ w ≠ 0 ∧ m0 ≤ m) := by
  have hi := h.idle hc
  obtain ⟨m0, hm0⟩ := exists_mean rationals fun k hk =>
    (h.covered 0 (.inl rfl) k hk).observed hi he
  obtain ⟨m, hm⟩ := exists_mean rationals fun k hk =>
    (h.covered w (.inr rfl) k hk).observed hi he
  obtain ⟨x0, hx0⟩ := exists_mean rationals (h.seeds 0 (by decide))
  obtain ⟨x, hlt, hx, hb⟩ := firstBest h.best
  refine ⟨m0, m, hm0, hm, ?_⟩
  have hstr : x0 < x ↔ w ≠ 0 := by
    constructor
    · rintro hl rfl
      cases hx0.symm.trans hx
      exact lt_irrefl _ hl
    · intro hne
      rcases hb 0 (Nat.zero_lt_of_lt hlt) x0 hx0 with hl | ⟨-, hle⟩
      · exact hl
      · exact absurd (Nat.le_zero.1 hle) hne
  have hs : q.applicationScores rationals suite = some (x0, x, m0, m) := by
    simp [applicationScores, hc, hi, hw, hx0, hx, hm0, hm]
  rw [canApply, hs]
  simp [rationals, hstr]

/-- With rational scores the frontier is optimal wherever a turn chooses, the winner is the first
of the best, and it may be applied exactly where it is not the first seed and its mean on the test
cases is not lower. -/
theorem search_optimal (hn : Optimization.new suite prims config seeds = .ok r)
    (hr : Runs rationals suite parseTeam r q) :
    (∀ t, Passes rationals suite q t → t.stage = .choose → OptimalFrontier suite t)
    ∧ (∀ w, q.winner = some w → FirstBest suite q w)
    ∧ (q.canApply rationals suite → q.stage = .complete)
    ∧ (q.stage = .complete → ∃ w m0 m, q.winner = some w
      ∧ q.mean rationals 0 (suite.casesOf .test) = some m0
      ∧ q.mean rationals w (suite.casesOf .test) = some m
      ∧ (q.canApply rationals suite ↔ w ≠ 0 ∧ m0 ≤ m)) := by
  obtain ⟨hi, hs⟩ := settles_of_runs hn hr
  refine ⟨fun t hp hst => ?_, fun w hw => firstBest (hs w hw).best, fun ha => ?_, fun hc => ?_⟩
  · obtain ⟨ht, -⟩ := hp.inv hi
    have hok := ht.stage
    rw [hst] at hok
    exact optimalFrontier ht hok.2.1
  · by_contra hnot
    simp [canApply, applicationScores, hnot] at ha
  · have hok := hi.stage
    rw [hc] at hok
    obtain ⟨w, hw⟩ := isSome_iff_exists.1 hok.1
    exact ⟨w, (canApply_iff (hs w hw) hw hc hok.2.2).imp fun _ h => h.imp fun _ h => ⟨hw, h⟩⟩

/-- The call with its score out of one. -/
def fraction : SearchCall ℕ → SearchCall ℚ
  | .next => .next
  | .scored output preflight score judged => .scored output preflight (score / 100) judged
  | .proposed text => .proposed text

def startedRational : Except String (Optimization ℚ) :=
  Optimization.new threeTasks ⟨fun _ => ""⟩ oneProposal twoSeeds

theorem search_optimal_improving :
    ∃ r q, startedRational = .ok r ∧ Runs rationals threeTasks (fun _ => none) r q
      ∧ q.canApply rationals threeTasks ∧ FirstBest threeTasks q 2 := by
  have hr : (startedRational.toOption.any fun r =>
      (run (call rationals threeTasks fun _ => none) r (improving.map fraction)).any fun q =>
        q.winner = some 2 ∧ q.canApply rationals threeTasks) := by
    decide +kernel
  rcases hn : startedRational with e | r <;> rw [hn] at hr
  · cases hr
  · obtain ⟨q, hq, he⟩ := exists_steps_of_run hr
    exact ⟨r, q, rfl, hq, he.2, (search_optimal hn hq).2.1 2 he.1⟩

end Optimization

end Choruz
