import Choruz.Proofs.Evidence

/-!
# Positions are claimed once, and winners are applied as they were measured

A position of an evaluation is claimed while the evaluation is queued, which it is again only at the
next position.  So whoever holds the lease of an evaluation has its only claim of the position, and
the results stand in the order of the positions.  A final review ends the evaluation.
-/

namespace Choruz

open Relational Optimization

variable {F : Type} {prims : DatasetPrims} {ops : ScoreOps F} {w w' : ExperienceWorld F}
  {claims : List (EvaluationClaim F)} {e e' : ExperienceEvaluation F}

namespace ExperienceWorld

variable {token : String} {report : CaseReport} {revisions : List ExperienceRevision} {now : ℕ}
  {policy : ExperiencePolicy} {search : Optimization F} {c : EvaluationClaim F} {id : String}

structure RowOk (claims : List (EvaluationClaim F)) (e : ExperienceEvaluation F) : Prop where
  ordinals : e.results.map (·.ordinal) = List.range e.nextCase
  full : e.status = .completed → e.optimization = none →
    e.nextCase = e.suite.cases.length * e.candidates.length
  below : ∀ c ∈ claims, c.id = e.id → c.suite = e.suite ∧ c.candidates = e.candidates
    ∧ (c.nextCase < e.nextCase ∨ c.nextCase = e.nextCase ∧ e.status ≠ .queued)
  lease : ∀ c ∈ claims, c.id = e.id → e.leaseToken = some c.token →
    c.nextCase = e.nextCase ∧ c.optimization.isSome = e.optimization.isSome
  reserved : e.finalReviewReserved → e.optimization.isSome

/-- What an evaluation keeps for good. -/
structure Carried (e e' : ExperienceEvaluation F) : Prop where
  id : e'.id = e.id
  generation : e'.policyGeneration = e.policyGeneration
  suite : e'.suite = e.suite
  candidates : e'.candidates = e.candidates
  completed : e.status = .completed → e'.status = .completed

theorem Carried.refl (e : ExperienceEvaluation F) : Carried e e := ⟨rfl, rfl, rfl, rfl, fun hd => hd⟩

section

variable (h : RowOk claims e)
include h

theorem RowOk.ended {status : EvaluationStatus}
    {applicationStatus : ApplicationStatus} {code : String}
    (hs : status = .failed ∨ status = .cancelled) :
    RowOk claims (ended e status applicationStatus code) := by
  refine ⟨h.ordinals, fun hd => ?_, fun c hc hid => ?_, (fun _ _ _ hl => nomatch hl), h.reserved⟩
  · rcases hs with rfl | rfl <;> cases hd
  · obtain ⟨hsu, hca, hb⟩ := h.below c hc hid
    refine ⟨hsu, hca, hb.imp_right fun ha => ⟨ha.1, ?_⟩⟩
    rcases hs with rfl | rfl <;> exact nofun

theorem RowOk.other (hne : c.id ≠ e.id) : RowOk (claims ++ [c]) e := by
  have ho : ∀ b ∈ claims ++ [c], b.id = e.id → b ∈ claims := by
    intro b hb hid
    rcases mem_snoc.1 hb with hb | rfl
    · exact hb
    · exact absurd hid hne
  exact ⟨h.ordinals, h.full, fun b hb hid => h.below b (ho b hb hid) hid,
    fun b hb hid => h.lease b (ho b hb hid) hid, h.reserved⟩

theorem RowOk.lt_of_queued (hqd : e.status = .queued)
    (hc : c ∈ claims) (hid : c.id = e.id) : c.nextCase < e.nextCase :=
  (h.below c hc hid).2.2.resolve_right fun ha => ha.2 hqd

theorem RowOk.handed (hqd : e.status = .queued)
    {search : Option (Optimization F)} {review reserved : Bool}
    (hs : search.isSome = e.optimization.isSome)
    (hrsv : reserved = e.finalReviewReserved ∨ search.isSome) (ht : ∀ c ∈ claims, c.token ≠ token) :
    RowOk (claims ++ [claimOf e token review search]) (handedRow e token now search reserved) := by
  refine ⟨h.ordinals, (fun hd => nomatch hd), fun c hc hid => ?_, fun c hc hid hl => ?_,
    fun hr => ?_⟩
  · rcases mem_snoc.1 hc with hc | rfl
    · obtain ⟨hsu, hca, -⟩ := h.below c hc hid
      exact ⟨hsu, hca, .inl (h.lt_of_queued hqd hc hid)⟩
    · exact ⟨rfl, rfl, .inr ⟨rfl, nofun⟩⟩
  · rcases mem_snoc.1 hc with hc | rfl
    · exact absurd (Option.some.inj hl).symm (ht c hc)
    · exact ⟨rfl, rfl⟩
  · rcases hrsv with rfl | hso
    · exact hs.trans (h.reserved hr)
    · exact hso

theorem RowOk.searched (hqd : e.status = .queued)
    : RowOk claims (searchedRow e token now search) := by
  refine ⟨h.ordinals, (fun _ hn => nomatch hn), fun c hc hid => ?_,
    (fun _ _ _ hl => nomatch hl), (fun hr => nomatch hr)⟩
  obtain ⟨hs, hca, -⟩ := h.below c hc hid
  exact ⟨hs, hca, .inl (h.lt_of_queued hqd hc hid)⟩

end

theorem workedOn_spec (claim : EvaluationClaim F) (search : Optimization F) :
    (workedOn claim search).id = claim.id ∧ (workedOn claim search).token = claim.token
      ∧ (workedOn claim search).suite = claim.suite
      ∧ (workedOn claim search).candidates = claim.candidates
      ∧ (workedOn claim search).nextCase = claim.nextCase
      ∧ (workedOn claim search).optimization.isSome = claim.optimization.isSome := by
  unfold workedOn
  split_ifs
  · exact ⟨rfl, rfl, rfl, rfl, rfl, rfl⟩
  · exact ⟨rfl, rfl, rfl, rfl, rfl, Option.isSome_map ..⟩

theorem RowOk.next (h : RowOk claims e) {claim : EvaluationClaim F} (hcl : claim ∈ claims)
    (hid : e.id = claim.id) (hl : e.leaseToken = some claim.token)
    (ho : report.ordinal = claim.nextCase) :
    (e.results ++ [report]).map (·.ordinal) = List.range (e.nextCase + 1)
      ∧ ∀ c ∈ claims, c.id = e.id → c.suite = e.suite ∧ c.candidates = e.candidates
        ∧ c.nextCase < e.nextCase + 1 := by
  refine ⟨?_, fun c hc hcid => ?_⟩
  · rw [map_append, h.ordinals, List.range_succ]
    simp [ho, (h.lease claim hcl hid.symm hl).1]
  · obtain ⟨hs, hca, hb⟩ := h.below c hc hcid
    exact ⟨hs, hca, by omega⟩

theorem RowOk.result (h : RowOk claims e) {claim : EvaluationClaim F} (hcl : claim ∈ claims)
    (hid : e.id = claim.id) (hls : e.leaseToken = some claim.token)
    (hord : report.ordinal = claim.nextCase) {errorCode : Option String} :
    RowOk claims (withResult e (workedOn claim search) report errorCode) := by
  obtain ⟨-, -, hsu, hca, hn, hso⟩ := workedOn_spec claim search
  obtain ⟨ho, hb⟩ := h.next hcl hid hls hord
  obtain ⟨ha, hse⟩ := h.lease claim hcl hid.symm hls
  refine ⟨ho, fun hd _ => ?_, fun c hc hcid => ?_, (fun _ _ _ hl => nomatch hl), fun hr => ?_⟩
  · have hst : finishedStatus (workedOn claim search) errorCode = .completed := hd
    unfold finishedStatus at hst
    split_ifs at hst with _ hla
    obtain ⟨hs, hc, -⟩ := h.below claim hcl hid.symm
    simp [hsu, hca, hn, hs, hc, ha] at hla
    exact hla.2
  · obtain ⟨hs, hc', hlt⟩ := hb c hc hcid
    exact ⟨hs, hc', .inl hlt⟩
  · exact (hso.trans hse).trans (h.reserved hr)

theorem RowOk.reviewed (h : RowOk claims e) {claim : EvaluationClaim F} (hcl : claim ∈ claims)
    (hid : e.id = claim.id) (hls : e.leaseToken = some claim.token)
    (hord : report.ordinal = claim.nextCase) (hr : e.finalReviewReserved)
    (applied : Option String) : RowOk claims (reviewed e report applied) := by
  obtain ⟨ho, hb⟩ := h.next hcl hid hls hord
  have hso := h.reserved hr
  refine ⟨ho, fun _ hn => ?_, fun c hc hcid => ?_, (fun _ _ _ hl => nomatch hl), h.reserved⟩
  · have hn' : e.optimization = none := hn
    rw [hn'] at hso
    cases hso
  · obtain ⟨hs, hc', hlt⟩ := hb c hc hcid
    exact ⟨hs, hc', .inl hlt⟩

def recordOf (e : ExperienceEvaluation F) : PolicyRecord :=
  ⟨e.id, e.policyGeneration, e.candidates.head?.bind (·.revisionId)⟩

structure QueueInv (ops : ScoreOps F) (w : ExperienceWorld F) : Prop where
  rows : ∀ e ∈ w.evaluations, RowOk w.claims e ∧ recordOf e ∈ w.queuedUnder
  known : ∀ c ∈ w.claims, ∃ e ∈ w.evaluations, e.id = c.id
  positions : (w.claims.map fun c => (c.id, c.nextCase)).Nodup
  applied : ∀ a ∈ w.applied, a.under ∈ w.queuedUnder ∧ a.search.canApply ops a.suite
    ∧ ∃ e ∈ w.evaluations, e.id = a.under.evaluationId ∧ e.suite = a.suite ∧ e.status = .completed
  once : (w.applied.map (·.under.evaluationId)).Nodup

/-- Each evaluation after a step comes from one before it, and none is lost. -/
structure Rewrites (w w' : ExperienceWorld F) : Prop where
  back : ∀ e' ∈ w'.evaluations, ∃ e ∈ w.evaluations, Carried e e'
    ∧ (RowOk w.claims e → RowOk w'.claims e')
  forth : ∀ e ∈ w.evaluations, ∃ e' ∈ w'.evaluations, Carried e e'

theorem rewrites_updateWhere {p : ExperienceEvaluation F → Bool}
    {f : ExperienceEvaluation F → ExperienceEvaluation F} {hf : ∀ e, (f e).id = e.id}
    (hr : ∀ e, p e → Carried e (f e) ∧ (RowOk w.claims e → RowOk w.claims (f e))) :
    Rewrites w { w with evaluations := w.evaluations.updateWhere p f hf } := by
  refine ⟨fun e' he' => ?_, fun e he => ?_⟩
  · obtain ⟨e, he, ⟨hp, rfl⟩ | ⟨-, rfl⟩⟩ := source_of_mem_updateWhere hf he'
    · exact ⟨e, he, hr e hp⟩
    · exact ⟨_, he, .refl _, fun h => h⟩
  · have he' : _ ∈ w.evaluations.updateWhere p f hf := mem_updateWhere_of_mem he
    refine ⟨_, he', ?_⟩
    by_cases hp : p e
    · rw [if_pos hp]
      exact (hr e hp).1
    · rw [if_neg hp]
      exact .refl e

theorem rewrites_put (he : w.evaluations.lookup id = some e)
    (hp : w'.evaluations = w.evaluations.put e') (hc : Carried e e')
    (hr : RowOk w.claims e → RowOk w'.claims e')
    (ho : ∀ b, b.id ≠ e.id → RowOk w.claims b → RowOk w'.claims b) : Rewrites w w' := by
  refine ⟨fun b hb => ?_, fun b hb => ?_⟩
  · rw [hp] at hb
    rcases mem_put hb with rfl | ⟨hb, hne⟩
    · exact ⟨e, mem_of_lookup he, hc, hr⟩
    · exact ⟨b, hb, .refl b, ho b fun hid => hne (hid.trans hc.id.symm)⟩
  · rw [hp]
    by_cases hid : b.id = e.id
    · obtain rfl := eq_of_key_eq hb (mem_of_lookup he) hid
      exact ⟨e', mem_of_lookup (lookup_put_self w.evaluations rfl), hc⟩
    · have hl := lookup_put w.evaluations e' b.id
      rw [if_neg (fun h => hid (h.trans hc.id)), lookup_of_mem hb] at hl
      exact ⟨b, mem_of_lookup hl, .refl b⟩

section

variable (h : QueueInv ops w)
include h

section

variable (hrows : Rewrites w w') (hqd : w'.queuedUnder = w.queuedUnder)
  (happ : w'.applied = w.applied)
include hrows hqd happ

theorem QueueInv.rewritten (hk : ∀ c ∈ w'.claims, ∃ e ∈ w.evaluations, e.id = c.id)
    (hp : (w'.claims.map fun c => (c.id, c.nextCase)).Nodup) : QueueInv ops w' := by
  refine ⟨fun e' he' => ?_, fun c hc => ?_, hp, fun a ha => ?_, ?_⟩
  · obtain ⟨e, he, hca, hr⟩ := hrows.back e' he'
    refine ⟨hr (h.rows e he).1, ?_⟩
    rw [hqd, recordOf, hca.id, hca.generation, hca.candidates]
    exact (h.rows e he).2
  · obtain ⟨e, he, hid⟩ := hk c hc
    obtain ⟨e', he', hca⟩ := hrows.forth e he
    exact ⟨e', he', hca.id.trans hid⟩
  · rw [happ] at ha
    rw [hqd]
    obtain ⟨hu, hap, e, he, hid, hs, hd⟩ := h.applied a ha
    obtain ⟨e', he', hca⟩ := hrows.forth e he
    exact ⟨hu, hap, e', he', hca.id.trans hid, hca.suite.trans hs, hca.completed hd⟩
  · rw [happ]
    exact h.once

theorem QueueInv.kept (hc : w'.claims = w.claims) : QueueInv ops w' := by
  refine h.rewritten hrows hqd happ ?_ ?_
  · rw [hc]
    exact h.known
  · rw [hc]
    exact h.positions

end

theorem QueueInv.elsewhere (policy : ExperiencePolicy)
    (revisions : List ExperienceRevision) (now : ℕ) :
    QueueInv ops { w with policy, revisions, now } :=
  ⟨h.rows, h.known, h.positions, h.applied, h.once⟩

theorem QueueInv.sweep (p : ExperienceEvaluation F → Bool)
    (status : EvaluationStatus) (applicationStatus : ApplicationStatus) (code : String)
    (hp : ∀ e, p e → e.status ≠ .completed) (hs : status = .failed ∨ status = .cancelled) :
    QueueInv ops { w with
      evaluations := w.evaluations.updateWhere p
        (fun e => ended e status applicationStatus code) fun _ => rfl } := by
  refine h.kept (rewrites_updateWhere fun e hpe => ⟨?_, fun hr => hr.ended hs⟩) rfl rfl rfl
  exact ⟨rfl, rfl, rfl, rfl, fun hd => absurd hd (hp e hpe)⟩

end

theorem not_completed_of_isPending (hp : e.status.isPending) : e.status ≠ .completed := by
  intro hd
  rw [hd] at hp
  cases hp

section

variable (h : QueueInv ops w)
include h

theorem QueueInv.save (token : String) (traceCases : Bool) (rep : ExperienceReport) (id : String) :
    QueueInv ops (saveExperienceCandidate prims w token traceCases rep id) := by
  rcases save_cases prims w token traceCases rep id with hs | ⟨-, saved, hres, hsa⟩
  · rw [hs]
    exact h
  have hi : QueueInv ops saved := by
    have hr : QueueInv ops (withReport prims w rep id) := h.elsewhere _ _ _
    rcases hsa with rfl | ⟨-, rfl⟩
    · have hsw := hr.sweep
        (fun e => e.status.isPending && e.suite.drawnFrom (changedBy prims w rep id))
        .cancelled .cancelled "case_evidence_changed"
        (fun e hp => not_completed_of_isPending (and_eq_true_iff.1 hp).1) (.inr rfl)
      exact hsw.elsewhere _ _ _
    · exact hr
  rcases hres with hres | hres <;> rw [hres]
  · exact hi
  · exact hi.elsewhere _ _ _

theorem QueueInv.queue {req : QueueRequest}
    (hq : queueExperienceEvaluation prims w req id = .ok w') : QueueInv ops w' := by
  obtain ⟨-, e, evaluations, he, hi, rfl⟩ := queue_cases hq
  have hm : ∀ {b}, b ∈ evaluations ↔ b ∈ w.evaluations ∨ b = e := mem_insert? hi
  have hn : ∀ c ∈ w.claims, c.id ≠ e.id := by
    intro c hc hid
    obtain ⟨b, hb, hbid⟩ := h.known c hc
    exact not_mem_key_of_insert? hi b hb (hbid.trans hid)
  refine ⟨fun b hb => ?_, fun c hc => ?_, h.positions, fun a ha => ?_, h.once⟩
  · rcases hm.1 hb with hb | rfl
    · exact ⟨(h.rows b hb).1, mem_append_left _ (h.rows b hb).2⟩
    · refine ⟨⟨?_, fun hd => ?_, fun c hc hid => absurd hid (hn c hc),
        fun c hc hid => absurd hid (hn c hc), fun hr => ?_⟩, ?_⟩
      · rw [he.results, he.nextCase]
        rfl
      · rw [he.status] at hd
        cases hd
      · rw [he.reserved] at hr
        cases hr
      · refine mem_append_right _ (mem_singleton.2 ?_)
        rw [recordOf, he.id, he.generation, he.baseline]
  · obtain ⟨b, hb, hid⟩ := h.known c hc
    exact ⟨b, hm.2 (.inl hb), hid⟩
  · obtain ⟨hu, hap, b, hb, hre⟩ := h.applied a ha
    exact ⟨mem_append_left _ hu, hap, b, hm.2 (.inl hb), hre⟩

theorem QueueInv.claim (id : String) (ht : ∀ c ∈ w.claims, c.token ≠ token) :
    QueueInv ops (claimExperienceEvaluation ops w id token) := by
  rcases claim_cases ops w id token with hs | ⟨e, he, hqd, hca⟩
  · rw [hs]
    exact h
  have hm := mem_of_lookup he
  have hco : e.status ≠ .completed := by
    rw [hqd]
    exact nofun
  rcases hca with ⟨search, review, reserved, hse, hrsv, hres⟩ | ⟨search, -, hres⟩ <;> rw [hres]
  · refine h.rewritten (rewrites_put he rfl ⟨rfl, rfl, rfl, rfl, fun hd => absurd hd hco⟩
      (fun hr => hr.handed hqd hse hrsv ht) fun b hid hr => hr.other (Ne.symm hid)) rfl rfl
      (forall_mem_snoc h.known ⟨e, hm, rfl⟩) ?_
    · refine nodup_map_snoc h.positions fun c hc heq => ?_
      obtain ⟨hid, hn⟩ := Prod.mk.inj heq
      have hlt := (h.rows e hm).1.lt_of_queued hqd hc hid
      exact absurd hn (Nat.ne_of_lt hlt)
  · exact h.kept (rewrites_put he rfl ⟨rfl, rfl, rfl, rfl, fun hd => absurd hd hco⟩
      (fun hr => hr.searched hqd) fun b _ hr => hr) rfl rfl rfl

theorem QueueInv.not_applied_of_running (he : e ∈ w.evaluations)
    (hr : e.status = .running) : ∀ a ∈ w.applied, a.under.evaluationId ≠ e.id := by
  intro a ha hid
  obtain ⟨-, -, b, hb, hbid, -, hd⟩ := h.applied a ha
  obtain rfl := eq_of_key_eq hb he (hbid.trans hid)
  cases hr.symm.trans hd

theorem QueueInv.finish {claim : EvaluationClaim F} (hc : claim ∈ w.claims) (search : Optimization F)
    (ho : report.ordinal = claim.nextCase) (errorCode : Option String) (id : String) :
    QueueInv ops (finishExperienceEvaluationCase ops w (workedOn claim search) report errorCode
      id) := by
  obtain ⟨hid, ht, hsu, -, -, -⟩ := workedOn_spec claim search
  unfold finishExperienceEvaluationCase
  split_ifs
  · rcases review_cases ops w (workedOn claim search) report id with hs |
      ⟨e, he, hl, hrsv, hpo, hca⟩
    · rw [hs]
      exact h
    obtain ⟨heid, het, hrun⟩ := running_of_leaseHolds hl
    rw [hid] at heid
    rw [ht] at het
    have hm := mem_of_lookup he
    have hco : e.status ≠ .completed := by simp [hrun]
    have hr : ∀ applied, Rewrites w (w.setEvaluation (reviewed e report applied)) :=
      fun applied => rewrites_put he rfl ⟨rfl, rfl, rfl, rfl, fun hd => absurd hd hco⟩
        (fun hrow => hrow.reviewed hc heid het ho hrsv applied) fun b _ hrow => hrow
    rcases hca with hres | ⟨seed, s, winner, -, hw, hres⟩ <;> rw [hres]
    · exact h.kept (hr none) rfl rfl rfl
    · have hi := h.kept (hr (some id)) rfl rfl rfl
      refine ⟨hi.rows, hi.known, hi.positions, fun a ha => ?_, ?_⟩
      · rcases mem_snoc.1 ha with ha | rfl
        · exact hi.applied a ha
        · refine ⟨?_, (winnerOf_spec hw).2, reviewed e report (some id),
            mem_of_lookup (lookup_put_self w.evaluations rfl), rfl, ?_, rfl⟩
          · simp [policyHolds] at hpo
            rw [hpo.1.2, hpo.2]
            exact (h.rows e hm).2
          · exact (((h.rows e hm).1.below claim hc heid.symm).1.symm.trans hsu.symm :)
      · exact nodup_map_snoc h.once (h.not_applied_of_running hm hrun)
  · refine h.kept (rewrites_updateWhere fun e hp => ?_) rfl rfl rfl
    obtain ⟨heid, het, hrun⟩ := running_of_leaseHolds (and_eq_true_iff.1 hp).1
    rw [hid] at heid
    rw [ht] at het
    refine ⟨⟨rfl, rfl, rfl, rfl, fun hd => ?_⟩, fun hrow => hrow.result hc heid het ho⟩
    cases hrun.symm.trans hd

theorem QueueInv.preserved {a : ExperienceAction F}
    (hs : step prims ops w a = some w') : QueueInv ops w' := by
  cases a with
  | save token traceCases report id =>
    simp only [step] at hs
    split_ifs at hs
    cases hs
    exact h.save token traceCases report id
  | lease token =>
    cases hs
    unfold leasePolicy
    split_ifs
    · exact h.elsewhere _ _ _
    · exact h
  | release token =>
    cases hs
    unfold releasePolicy
    split_ifs
    · exact h.elsewhere _ _ _
    · exact h
  | select revision leaseToken =>
    cases hs
    unfold selectExperienceRevision
    split_ifs
    · exact h
    · exact h
    · exact h.elsewhere _ _ _
  | configure enabled analyst autoApply decisionRevision | pass time =>
    cases hs
    exact h.elsewhere _ _ _
  | queue request id =>
    simp only [step] at hs
    split_ifs at hs
    split at hs <;> cases hs
    next hq => exact h.queue hq
    · exact h
  | cancelStale =>
    cases hs
    exact h.sweep _ _ _ _ (fun e hp => not_completed_of_isPending (and_eq_true_iff.1 hp).1)
      (.inr rfl)
  | failInterrupted =>
    cases hs
    refine h.sweep _ _ _ _ (fun e hp hd => ?_) (.inl rfl)
    simp [hd] at hp
  | claim id token =>
    simp only [step] at hs
    split_ifs at hs with hu
    cases hs
    refine h.claim id fun c hc => ?_
    simp [unusedId] at hu
    exact hu.2 c hc
  | finish i search reviewPassed body errorCode id =>
    simp [step] at hs
    split at hs
    · cases hs
    rename_i claim hcl
    split_ifs at hs
    cases hs
    exact h.finish (mem_of_getElem? hcl) search rfl errorCode id

end

theorem map_pairAt_range (cases cands : ℕ) : (List.range (cases * cands)).map (pairAt cands)
      = (List.range cases).flatMap fun case =>
        (List.range cands).map fun cand => (cand, case) := by
  induction cases with
  | zero => simp
  | succ n ih =>
    have hl : (List.range cands).map (pairAt cands ∘ (n * cands + ·))
        = (List.range cands).map fun cand => (cand, n) := by
      refine map_congr_left fun j hj => ?_
      have hj := List.mem_range.1 hj
      have hd : (n * cands + j) / cands = n := by
        rw [Nat.mul_comm, Nat.mul_add_div (by omega), Nat.div_eq_of_lt hj, Nat.add_zero]
      have hm : (n * cands + j) % cands = j := by
        rw [Nat.mul_comm, Nat.mul_add_mod, Nat.mod_eq_of_lt hj]
      simp [pairAt, hd, hm]
    rw [Nat.succ_mul, List.range_add, map_append, ih, map_map, hl, List.range_succ,
      List.flatMap_append, List.flatMap_singleton]

theorem queueInv_of_steps (hr : Steps (step prims ops) { policy, revisions, now } w) :
    QueueInv ops w := by
  refine hr.invariant (·.preserved) ?_
  exact ⟨fun e he => absurd he (not_mem_empty e), (fun c hc => nomatch hc),
    nodup_nil, (fun a ha => nomatch ha), nodup_nil⟩

/-- Whatever workers, owners and the clock do, no position of an evaluation is claimed twice, a
completed evaluation without a search has one result for each pair in order, and a winner is
applied at most once, as its search allowed, under the policy recorded at the queueing. -/
theorem paid_once_and_applied_as_measured
    (hrun : Steps (step prims ops) { policy, revisions, now } w) :
    (w.claims.map fun c => (c.id, c.nextCase)).Nodup
      ∧ (∀ e ∈ w.evaluations, e.status = .completed → e.optimization = none →
        e.results.map (fun r => pairAt e.candidates.length r.ordinal)
          = (List.range e.suite.cases.length).flatMap fun case =>
            (List.range e.candidates.length).map fun candidate => (candidate, case))
      ∧ (w.applied.map (·.under.evaluationId)).Nodup
      ∧ ∀ a ∈ w.applied, a.search.canApply ops a.suite ∧ a.under ∈ w.queuedUnder
        ∧ ∃ e ∈ w.evaluations, e.id = a.under.evaluationId ∧ e.suite = a.suite := by
  have hi := queueInv_of_steps hrun
  refine ⟨hi.positions, fun e he hd hn => ?_, hi.once, fun a ha => ?_⟩
  · have hr := (hi.rows e he).1
    rw [← map_pairAt_range, ← hr.full hd hn, ← hr.ordinals, map_map]
    rfl
  · obtain ⟨hu, hap, e, he, hid, hs, -⟩ := hi.applied a ha
    exact ⟨hap, hu, e, he, hid, hs⟩

def selfApplying : ExperienceWorld ℕ :=
  { newAgent with policy := { newAgent.policy with autoApply := true } }

def improved : Option (Optimization ℕ) :=
  started.toOption.bind fun s0 =>
    run (call percent threeTasks fun _ => none) s0 improving

def request (search : Bool) : QueueRequest where
  revision := "r1"
  suite := threeTasks
  automaticGeneration := if search then some 1 else none
  optimization := if search then some (oneProposal, "analyst") else none

def worked (evaluation : String) (s : Optimization ℕ) (i : ℕ) : List (ExperienceAction ℕ) :=
  [.claim evaluation (toString i), .finish i s true "" none "r2"]

def bothEvaluations (s : Optimization ℕ) : List (ExperienceAction ℕ) :=
  [.save "lease" false (reportOf "d1" []) "r1", .queue (request false) "e1"]
    ++ (List.range 6).flatMap (worked "e1" s)
    ++ [.queue (request true) "e2"] ++ worked "e2" s 6 ++ worked "e2" s 7

theorem paid_once_and_applied_as_measured_twice : ∃ w, Steps (step lettered percent) selfApplying w
      ∧ (∃ e ∈ w.evaluations, e.results.map (fun r => pairAt e.candidates.length r.ordinal)
        = [(0, 0), (1, 0), (0, 1), (1, 1), (0, 2), (1, 2)]) ∧ w.policy.activeRevisionId = some "r2"
      ∧ ∃ a ∈ w.applied, a.search.canApply percent a.suite ∧ a.under ∈ w.queuedUnder := by
  have hr : (improved.any fun s =>
      (run (step lettered percent) selfApplying (bothEvaluations s)).any fun w =>
        (∃ e ∈ w.evaluations, e.status = .completed ∧ e.optimization.isNone
          ∧ (e.suite.cases.length, e.candidates.length) = (3, 2))
        ∧ w.policy.activeRevisionId = some "r2" ∧ w.applied.length = 1) := by
    decide +kernel
  obtain ⟨s, -, hr⟩ := (Option.any_eq_true _ _).1 hr
  obtain ⟨w, hsts, ⟨e, he, hd, hn, hs⟩, hac, happ⟩ := exists_steps_of_run hr
  obtain ⟨-, hp, -, hall⟩ := paid_once_and_applied_as_measured hsts
  obtain ⟨a, ha⟩ := List.exists_mem_of_length_eq_add_one happ
  have ht := hp e he hd (isNone_iff_eq_none.1 hn)
  rw [(Prod.mk.inj hs).1, (Prod.mk.inj hs).2] at ht
  refine ⟨w, hsts, ⟨e, he, ?_⟩, hac, a, ha, (hall a ha).1, (hall a ha).2.1⟩
  rw [(Prod.mk.inj hs).2, ht]
  rfl

end ExperienceWorld

end Choruz
