import Choruz.Proofs.Search

/-!
# Held-out results never influence the search

Until the winner is chosen no test case is evaluated, and from then on the search only compares.
So two runs that differ in what they answer for test cases have the same states until the winner is
chosen, and the same candidates and winner ever after.
-/

namespace Choruz

open Relational EvaluationSuite

namespace Optimization

variable {F : Type} {ops : ScoreOps F} {suite : EvaluationSuite} {config : OptimizationConfig}
  {parseTeam : String → Option (Option Team)} {s s' t t' : Optimization F} {s0 : Optimization F}
  {prims : EvalPrims} {seeds : List EvaluationCandidate}

theorem Inv.searching_iff (h : Inv ops suite config s) : s.stage.searching ↔ s.winner = none := by
  have hok := h.stage
  cases hst : s.stage <;> rw [hst] at hok
  case final => simp [SearchStage.searching, Option.isSome_iff_ne_none.1 hok.1]
  case complete => simp [SearchStage.searching, Option.isSome_iff_ne_none.1 hok.1]
  all_goals simp [SearchStage.searching, hok.1]

/-- The candidates, the winner and the number of proposals are the same. -/
structure Settled (s t : Optimization F) : Prop where
  candidates : t.candidates = s.candidates
  winner : t.winner = s.winner
  proposals : t.proposalCalls = s.proposalCalls
  pending : (∃ ps b c, t.pending = some (.propose ps b c)) →
    ∃ ps b c, s.pending = some (.propose ps b c)

theorem Settled.refl (s : Optimization F) : Settled s s := ⟨rfl, rfl, rfl, id⟩

theorem Settled.trans {u : Optimization F} (h : Settled s t) (h' : Settled t u) : Settled s u :=
  ⟨h'.candidates.trans h.candidates, h'.winner.trans h.winner, h'.proposals.trans h.proposals,
    fun hp => h.pending (h'.pending hp)⟩

def Progress.state : Progress F → Optimization F
  | .returned _ s => s
  | .goes s => s

theorem reserve_settled (suite : EvaluationSuite) (s : Optimization F) (c k : ℕ) :
    Settled s (s.reserve suite c k).state ∧ (s.reserve suite c k).state.stage = s.stage := by
  unfold reserve
  split_ifs
  · exact ⟨.refl s, rfl⟩
  split
  · exact ⟨⟨rfl, rfl, rfl, by rintro ⟨_, _, _, hp⟩; cases hp⟩, rfl⟩
  · exact ⟨⟨rfl, rfl, rfl, id⟩, rfl⟩

theorem drain_settled (suite : EvaluationSuite) : ∀ (queue : List (ℕ × ℕ)) (s : Optimization F),
    Settled s (drain suite queue s).state ∧ (drain suite queue s).state.stage = s.stage
  | [], s => ⟨⟨rfl, rfl, rfl, id⟩, rfl⟩
  | (c, k) :: queue, s => by
    unfold drain
    split_ifs
    · exact drain_settled suite queue s
    obtain ⟨hs, hst⟩ := reserve_settled suite { s with queue } c k
    exact ⟨⟨hs.candidates, hs.winner, hs.proposals, hs.pending⟩, hst⟩

theorem loop_settled : ∀ {fuel : ℕ} {s t : Optimization F} {reply : SearchReply},
    s.stage.searching = false → loop ops suite fuel s = some (reply, t) → Settled s t
  | 0, _, _, _, _, h => by cases h
  | fuel + 1, s, t, reply, hsa, h => by
    unfold loop at h
    obtain ⟨hset, hs⟩ := drain_settled suite s.queue s
    rcases hd : drain suite s.queue s with ⟨reply', u⟩ | u <;> rw [hd] at h hset hs
    · cases h
      exact hset
    · change u.stage = s.stage at hs
      rw [← hs] at hsa
      refine hset.trans ?_
      cases hst : u.stage <;> rw [hst] at hsa <;> try cases hsa
      · simp only [advance, hst] at h
        have hr := loop_settled rfl h
        exact ⟨hr.candidates, hr.winner, hr.proposals, hr.pending⟩
      · simp only [advance, hst] at h
        cases h
        exact .refl _

theorem Inv.call_settled {c : SearchCall F} (h : Inv ops suite config s)
    (hch : s.winner.isSome) (hc : s.call ops suite parseTeam c = some t) :
    Settled s t := by
  have hst : s.stage.searching = false := by
    rw [← Bool.not_eq_true, h.searching_iff]
    exact Option.isSome_iff_ne_none.1 hch
  cases c with
  | next =>
    obtain ⟨⟨reply, u⟩, hn, rfl⟩ := map_eq_some_iff.1 hc
    unfold nextAction at hn
    split_ifs at hn
    · cases hn
      exact .refl s
    · exact loop_settled hst hn
  | scored output preflight score assessment =>
    cases hc
    unfold Optimization.completeScoredRollout
    split
    · split_ifs
      · exact .refl s
      · exact ⟨rfl, rfl, rfl, by rintro ⟨_, _, _, hp⟩; cases hp⟩
    · exact .refl s
  | proposed text =>
    obtain ⟨⟨result, u⟩, hpr, rfl⟩ := map_eq_some_iff.1 hc
    obtain ⟨-, rfl⟩ | ⟨_, _, _, _, hpe, -⟩ := completeProposal_cases hpr
    · exact .refl _
    · rw [h.stage_of_propose hpe] at hst
      cases hst

theorem input_ne_of_validateCases : ∀ {cases : List EvaluationCase}
    {ids inputs : List String}, validateCases prims ids inputs cases = .ok () →
      (∀ c ∈ cases, trim c.input ∉ inputs) ∧ cases.Pairwise fun a b => a.input ≠ b.input
  | [], _, _, _ => by simp
  | c :: cases, ids, inputs, h => by
    obtain ⟨-, -, h⟩ := bind_eq_ok.1 h
    split_ifs at h with hb
    simp at hb
    obtain ⟨hr, hp⟩ := input_ne_of_validateCases h
    refine ⟨fun a ha => ?_, List.pairwise_cons.2 ⟨fun a ha heq => ?_, hp⟩⟩
    · rcases mem_cons.1 ha with rfl | ha
      · simpa using hb.1.2
      · exact fun hi => hr a ha (mem_cons_of_mem _ hi)
    · exact hr a ha (heq ▸ mem_cons_self)

theorem input_ne_of_new (h : Optimization.new suite prims config seeds = .ok s0) {i j : ℕ}
    {a b : EvaluationCase} (hi : suite.cases[i]? = some a) (hj : suite.cases[j]? = some b)
    (hij : i ≠ j) : a.input ≠ b.input := by
  obtain ⟨_, hv, -⟩ := bind_eq_ok.1 h
  unfold validate at hv
  split at hv
  · cases hv
  obtain ⟨_, hc, -⟩ := bind_eq_ok.1 hv
  have hp := (input_ne_of_validateCases hc).2
  obtain ⟨hi', rfl⟩ := getElem?_eq_some_iff.1 hi
  obtain ⟨hj', rfl⟩ := getElem?_eq_some_iff.1 hj
  rcases lt_or_gt_of_ne hij with hlt | hgt
  · exact List.pairwise_iff_getElem.1 hp i j hi' hj' hlt
  · exact (List.pairwise_iff_getElem.1 hp j i hj' hi' hgt).symm

/-- The example is of a training case, and what was observed was observed there. -/
def FromTraining (suite : EvaluationSuite) (e : ProposalExample F) : Prop :=
  ∃ i case, suite.cases[i]? = some case ∧ case.split = .train ∧ e.input = case.input
    ∧ e.check = case.check ∧ (∀ o ∈ e.observed, o.case = i)
    ∧ ∀ other ∈ suite.cases, other.split ≠ .train → e.input ≠ other.input

theorem proposalInput_fromTraining {input : ProposalInput F} (h : Inv ops suite config s)
    (hip : ∀ {i j : ℕ} {a b : EvaluationCase}, suite.cases[i]? = some a →
      suite.cases[j]? = some b → i ≠ j → a.input ≠ b.input)
    (hin : s.proposalInput suite = some (.ok input)) :
    ∀ p ∈ input.parents, ∀ e ∈ p.examples, FromTraining suite e := by
  unfold proposalInput at hin
  split at hin
  next parents batch component hpe =>
    obtain ⟨cases, -, hin⟩ := bind_eq_some_iff.1 hin
    split_ifs at hin
    · cases hin
    obtain ⟨ps, hps, hin⟩ := bind_eq_some_iff.1 hin
    cases hin
    have hok := h.stage
    rw [h.stage_of_propose hpe] at hok
    obtain ⟨-, -, -, -, ht, -⟩ := hok
    intro p hp e he
    obtain ⟨parent, -, hpa⟩ := (mem_mapM hps).1 hp
    obtain ⟨individual, -, hpa⟩ := bind_eq_some_iff.1 hpa
    obtain ⟨examples, hea, hpa⟩ := bind_eq_some_iff.1 hpa
    cases hpa
    obtain ⟨i, hi, hex⟩ := (mem_mapM hea).1 he
    obtain ⟨case, hc, hex⟩ := bind_eq_some_iff.1 hex
    cases hex
    obtain ⟨case', hc', hs⟩ := mem_casesOf.1 (ht i hi)
    cases hc.symm.trans hc'
    refine ⟨i, case, hc, hs, rfl, rfl, fun o ho => ?_, fun other hoth hne => ?_⟩
    · have hf := find?_some ho
      simp at hf
      exact hf.2
    · obtain ⟨j, hj⟩ := List.getElem?_of_mem hoth
      refine hip hc hj fun hij => hne ?_
      cases hij
      cases hc.symm.trans hj
      exact hs
  · cases hin

/-- The next calls of two runs are the same, or complete the evaluation of a test case. -/
inductive Agree (suite : EvaluationSuite) (s s' : Optimization F) :
    SearchCall F → SearchCall F → Prop
  | same (c : SearchCall F) : Agree suite s s' c c
  | heldOut {candidate k output output' preflight preflight' score score' assessment assessment'}
      (hpending : s.pending = some (.evaluate candidate k)
        ∨ s'.pending = some (.evaluate candidate k))
      (htest : k ∈ suite.casesOf .test) :
      Agree suite s s' (.scored output preflight score assessment)
        (.scored output' preflight' score' assessment')

/-- Two runs from one state whose answers differ on test cases only. -/
inductive TwoRuns (ops : ScoreOps F) (suite : EvaluationSuite)
    (parseTeam : String → Option (Option Team)) (s0 : Optimization F) :
    Optimization F → Optimization F → Prop
  | start : TwoRuns ops suite parseTeam s0 s0 s0
  | step {s s' t t' : Optimization F} {c c' : SearchCall F}
      (hruns : TwoRuns ops suite parseTeam s0 s s') (hagree : Agree suite s s' c c')
      (hcall : s.call ops suite parseTeam c = some t)
      (hcall' : s'.call ops suite parseTeam c' = some t') : TwoRuns ops suite parseTeam s0 t t'

/-- What both runs have in common: everything until the winner is chosen, and what is settled ever
after. -/
def Alike (s s' : Optimization F) : Prop :=
  (s.winner = none ∧ s' = s) ∨ (s.winner.isSome ∧ s'.winner = s.winner
    ∧ s'.candidates = s.candidates ∧ s'.proposalCalls = s.proposalCalls)

theorem alike_of_twoRuns (h0 : Inv ops suite config s0) (h : TwoRuns ops suite parseTeam s0 s s') :
    Inv ops suite config s ∧ Inv ops suite config s' ∧ Alike s s' := by
  induction h with
  | start =>
    refine ⟨h0, h0, ?_⟩
    rcases hw : s0.winner with _ | w
    · exact .inl ⟨hw, rfl⟩
    · exact .inr ⟨by rw [hw]; rfl, rfl, rfl, rfl⟩
  | @step s s' t t' c c' _ ha hc hc' ih =>
    obtain ⟨hi, hi', hal⟩ := ih
    refine ⟨hi.call hc, hi'.call hc', ?_⟩
    rcases hal with ⟨hw, rfl⟩ | ⟨hw, hs, hca, hpr⟩
    · cases ha with
      | same =>
        cases hc.symm.trans hc'
        rcases ht : t.winner with _ | w
        · exact .inl ⟨ht, rfl⟩
        · exact .inr ⟨by rw [ht]; rfl, rfl, rfl, rfl⟩
      | heldOut hp hte =>
        have hh := (hi.heldOut (hi.searching_iff.2 hw)).1
        exact absurd hte (hh _ _ (hp.elim id id))
    · have hset := hi.call_settled hw hc
      have hs' := hi'.call_settled (hs ▸ hw) hc'
      refine .inr ⟨hset.winner ▸ hw, ?_, ?_, ?_⟩
      · rw [hs'.winner, hs, hset.winner]
      · rw [hs'.candidates, hca, hset.candidates]
      · rw [hs'.proposals, hpr, hset.proposals]

theorem proposalInput_of_chosen (h : Inv ops suite config s) (hc : s.winner.isSome) :
    s.proposalInput suite = some (.error "No proposal is reserved") := by
  unfold proposalInput
  split
  next hp =>
    have hok := h.stage
    rw [h.stage_of_propose hp] at hok
    rw [hok.1] at hc
    cases hc
  · rfl

theorem chosen_of_canApply (h : s.canApply ops suite) : s.winner.isSome := by
  unfold canApply applicationScores at h
  split_ifs at h
  · cases h
  rcases hw : s.winner with _ | w
  · rw [hw] at h
    cases h
  · rfl

/-- Two runs with different answers on test cases have the same states, so the same actions, until
the winner is chosen; their candidates, proposal inputs and winners are the same throughout.  No
test case is evaluated before the choice, and a proposal sees training cases only. -/
theorem held_out_never_influences (hnew : Optimization.new suite prims config seeds = .ok s0)
    (h : TwoRuns ops suite parseTeam s0 s s') :
    Alike s s' ∧ (s.winner = none → s'.nextAction ops suite = s.nextAction ops suite)
      ∧ s'.proposalInput suite = s.proposalInput suite
      ∧ (∀ c k, s.pending = some (.evaluate c k) → k ∈ suite.casesOf .test → s.winner.isSome)
      ∧ (∀ input, s.proposalInput suite = some (.ok input) →
        ∀ p ∈ input.parents, ∀ e ∈ p.examples, FromTraining suite e)
      ∧ (s.canApply ops suite → s.winner.isSome) := by
  obtain ⟨hinv, hi', ha⟩ := alike_of_twoRuns (inv_new hnew) h
  refine ⟨ha, fun hn => ?_, ?_, fun c k hp ht => ?_, fun input hi => ?_, chosen_of_canApply⟩
  · rcases ha with ⟨-, rfl⟩ | ⟨hw, -⟩
    · rfl
    · rw [hn] at hw
      cases hw
  · rcases ha with ⟨-, rfl⟩ | ⟨hw, hs, -⟩
    · rfl
    · rw [proposalInput_of_chosen hinv hw, proposalInput_of_chosen hi' (hs ▸ hw)]
  · by_contra hnot
    have hn : s.winner = none := by simpa using hnot
    exact (hinv.heldOut (hinv.searching_iff.2 hn)).1 c k hp ht
  · exact proposalInput_fromTraining hinv (input_ne_of_new hnew) hi

theorem twoRuns_of_steps (h : Runs ops suite parseTeam s0 s) :
    TwoRuns ops suite parseTeam s0 s s := by
  induction h with
  | refl => exact .start
  | tail _ hs ih =>
    obtain ⟨c, hc⟩ := hs
    exact ih.step (.same c) hc hc

/-- The winner is chosen, and the two runs have different scores on the test case. -/
theorem held_out_never_influences_improving :
    ∃ s0 s s', started = .ok s0 ∧ TwoRuns percent threeTasks (fun _ => none) s0 s s'
      ∧ s.winner = some 2 ∧ s.observations.getLast?.map (·.score) = some 0
      ∧ s'.observations.getLast?.map (·.score) = some 100 ∧ Alike s s' := by
  have hrun : (started.toOption.any fun s0 =>
      (run (call percent threeTasks fun _ => none) s0 (improving.take 15)).any fun s =>
        s.pending = some (.evaluate 0 2) ∧ s.winner = some 2
        ∧ ((s.call percent threeTasks (fun _ => none) (scoredAs 0)).any fun t =>
          t.winner = some 2 ∧ t.observations.getLast?.map (·.score) = some 0)
        ∧ ((s.call percent threeTasks (fun _ => none) (scoredAs 100)).any fun t =>
          t.observations.getLast?.map (·.score) = some 100)) := by
    decide +kernel
  rcases hn : started with e | s0 <;> rw [hn] at hrun
  · cases hrun
  · obtain ⟨s, hs, hp, -, hl, hh⟩ := exists_steps_of_run hrun
    obtain ⟨t, ht, ha⟩ := (Option.any_eq_true _ _).1 hl
    obtain ⟨hw, hsc⟩ := of_decide_eq_true ha
    obtain ⟨t', ht', ha'⟩ := (Option.any_eq_true _ _).1 hh
    have hr := (twoRuns_of_steps hs).step (.heldOut (.inl hp) (by decide)) ht ht'
    exact ⟨s0, t, t', rfl, hr, hw, hsc, of_decide_eq_true ha', (held_out_never_influences hn hr).1⟩

end Optimization

end Choruz
