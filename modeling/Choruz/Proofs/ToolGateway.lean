import Choruz.ToolGateway

/-!
# A mutating tool call runs once

The claim takes a record from `pending` to `executing`, and no statement takes one back to
`pending`.  So whoever wins the claim is alone with the record until its outcome is written, and
nobody claims it again: neither after a success nor, against the module's lifecycle, after a
failure or a crash.
-/

namespace Choruz

open Relational EffectJournal ToolCallRequest CallStage Table

namespace EffectJournal

def Puts (toolCallId : String) (record : EffectRecord) (journal journal' : EffectJournal) : Prop :=
  ∀ id, journal'.lookup id = if id = toolCallId then some record else journal.lookup id

variable {journal journal' : EffectJournal} {now : Timestamp} {toolCallId : String}

theorem puts_updateWhere {p : EffectRecord → Bool} {f : EffectRecord → EffectRecord}
    (hf : ∀ r, (f r).toolCallId = r.toolCallId) {r : EffectRecord}
    (hr : journal.lookup toolCallId = some r) (hp : p r)
    (ho : ∀ a, a.toolCallId ≠ toolCallId → p a = false) :
    Puts toolCallId (f r) journal (journal.updateWhere p f hf) := by
  intro id
  rw [lookup_updateWhere]
  split_ifs with hid
  · simp [hid, hr, hp]
  rcases hl : journal.lookup id with _ | a
  · rfl
  · have hne : a.toolCallId ≠ toolCallId := by rwa [← key_of_lookup hl] at hid
    simp [ho a hne]

theorem insertEffect_eq_ok {effect : NewEffect}
    (h : journal.insertEffect now effect = .ok ((), journal')) :
    journal.lookup effect.toolCallId = none ∧
      Puts effect.toolCallId (effect.pendingRecord now) journal journal' := by
  unfold insertEffect at h
  split at h
  · next hi =>
    cases h
    refine ⟨lookup_eq_none.2 (not_mem_key_of_insert? hi), fun id => ?_⟩
    rw [lookup_insert? hi]
    simp [eq_comm]
    rfl
  · cases h

theorem updateEffectResult_eq_ok {res : Option Json} {status : EffectStatus}
    (h : journal.updateEffectResult now toolCallId res status = .ok ((), journal')) :
    ∃ r, journal.lookup toolCallId = some r ∧
      Puts toolCallId (r.complete now res status) journal journal' := by
  unfold updateEffectResult at h
  split at h
  · next hso =>
    cases h
    obtain ⟨r, hr⟩ := isSome_iff_exists.1 hso
    refine ⟨r, hr, puts_updateWhere _ hr ?_ ?_⟩
    · simpa using key_of_lookup hr
    · intro a ha
      simpa using ha
  · cases h

theorem claimEffect_eq_ok {claimed : Bool}
    (h : journal.claimEffect toolCallId = .ok (claimed, journal')) :
    (∃ r, journal.lookup toolCallId = some r ∧ r.status = .pending ∧ claimed ∧
      Puts toolCallId { r with status := .executing } journal journal') ∨
    (∀ r, journal.lookup toolCallId = some r → r.status ≠ .pending) ∧ claimed = false ∧
      journal' = journal := by
  obtain ⟨rfl, rfl⟩ := h
  by_cases hp : ∃ r, journal.lookup toolCallId = some r ∧ r.status = .pending
  · obtain ⟨r, hr, hpe⟩ := hp
    refine .inl ⟨r, hr, hpe, by simp [hr, hpe], puts_updateWhere _ hr ?_ ?_⟩
    · simpa [hpe] using key_of_lookup hr
    · intro a ha
      simp [ha]
  · have hn : ∀ r, journal.lookup toolCallId = some r → r.status ≠ .pending :=
      fun r hr hs => hp ⟨r, hr, hs⟩
    refine .inr ⟨hn, ?_, updateWhere_of_forall fun a ha => ?_⟩
    · rcases hl : journal.lookup toolCallId with _ | r
      · rfl
      · simp [hn r hl]
    · by_cases hid : a.toolCallId = toolCallId
      · have hs := hn a (by rw [← hid]; exact lookup_of_mem ha)
        simp [hs]
      · simp [hid]

end EffectJournal

/-- The call owns its record: it runs the tool, or holds a result to record. -/
def CallStage.Owns : CallStage → Prop
  | .running | .recording _ => True
  | _ => False

/-- What a step of a call on an id does to the journal and to the call. -/
inductive CallEffect (toolCallId : String) (journal : EffectJournal) :
    CallStage → EffectJournal → CallStage → Prop where
  | quiet {stage stage' : CallStage} (hidle : ¬ stage'.Owns) :
    CallEffect toolCallId journal stage journal stage'
  | inserted {journal' : EffectJournal} {record : EffectRecord} {stage stage' : CallStage}
    (habsent : journal.lookup toolCallId = none) (hpending : record.status = .pending)
    (hputs : journal.Puts toolCallId record journal') (hidle : ¬ stage'.Owns) :
    CallEffect toolCallId journal stage journal' stage'
  | claimed {journal' : EffectJournal} {r : EffectRecord} {stage stage' : CallStage}
    (hr : journal.lookup toolCallId = some r) (hpending : r.status = .pending)
    (hputs : journal.Puts toolCallId { r with status := .executing } journal')
    (hstage : stage' = .running ∨ ¬ stage'.Owns) :
    CallEffect toolCallId journal stage journal' stage'
  | finished {result : Except String Json} :
    CallEffect toolCallId journal .running journal (.recording result)
  | recorded {journal' : EffectJournal} {r record : EffectRecord} {result : Except String Json}
    {stage' : CallStage} (hr : journal.lookup toolCallId = some r)
    (hdone : record.status = .succeeded ∨ record.status = .failed)
    (hputs : journal.Puts toolCallId record journal') (hidle : ¬ stage'.Owns) :
    CallEffect toolCallId journal (.recording result) journal' stage'

namespace ToolCallRequest

variable {req : ToolCallRequest} {journal journal' : EffectJournal}

theorem afterRead_idle (now : Timestamp) (seen : Except AppError (Option EffectRecord)) :
    ¬ (req.afterRead now seen).Owns := by
  rcases seen with e | _ | existing
  · exact not_false
  · exact not_false
  · rw [afterRead]
    split
    · exact not_false
    · dsimp only
      split <;> exact not_false
    · exact not_false
    · exact not_false

theorem afterInsert_idle (seen : Except AppError Unit) : ¬ (afterInsert seen).Owns := by
  unfold afterInsert
  split <;> exact not_false

theorem afterClaim_idle {seen : Except AppError Bool} (h : seen ≠ .ok true) :
    ¬ (afterClaim seen).Owns := by
  unfold afterClaim
  split
  · exact absurd rfl h
  · exact not_false
  · exact not_false

theorem afterRace_idle (seen : Except AppError (Option EffectRecord)) :
    ¬ (req.afterRace seen).Owns := by
  rcases seen with e | _ | existing
  · exact not_false
  · exact not_false
  · rw [afterRace]
    split <;> exact not_false

theorem afterRecord_idle (res : Except String Json) (seen : Except AppError Unit) :
    ¬ (req.afterRecord res seen).Owns := by
  unfold afterRecord
  split <;> exact not_false

theorem record_eq_ok {now : Timestamp} {res : Except String Json}
    (h : req.record now res journal = .ok ((), journal')) :
    ∃ r rec, journal.lookup req.toolCallId = some r ∧
      (rec.status = .succeeded ∨ rec.status = .failed) ∧
      journal.Puts req.toolCallId rec journal' := by
  cases res with
  | ok output =>
    obtain ⟨r, hr, hp⟩ := updateEffectResult_eq_ok h
    exact ⟨r, _, hr, .inl rfl, hp⟩
  | error message =>
    obtain ⟨r, hr, hp⟩ := updateEffectResult_eq_ok h
    exact ⟨r, _, hr, .inr rfl, hp⟩

theorem outcome_next {α : Type} {fault : Fault} {lost : AppError} {stage : CallStage}
    {f : Except AppError α → CallStage} {r : Except AppError (α × EffectJournal)}
    (h : some ((fault.outcome lost journal r).map id f) = some (journal', stage)) :
    ∃ seen, stage = f seen ∧ ((∃ a, r = .ok (a, journal') ∧ (seen = .ok a ∨ seen = .error lost)) ∨
      journal' = journal ∧ (seen = .error lost ∨ ∃ e, r = .error e ∧ seen = .error e)) := by
  cases h
  exact ⟨_, rfl, Fault.outcome_cases rfl⟩

theorem next_effect {stage stage' : CallStage} {op : ToolOp}
    (h : req.next journal stage op = some (journal', stage')) :
    CallEffect req.toolCallId journal stage journal' stage' := by
  unfold next at h
  split at h
  · next now fault =>
    obtain ⟨seen, rfl, ⟨_, hok, -⟩ | ⟨rfl, -⟩⟩ := outcome_next h
    · cases hok
      exact .quiet (afterRead_idle now seen)
    · exact .quiet (afterRead_idle now seen)
  · next now fault =>
    obtain ⟨seen, rfl, ⟨_, hok, -⟩ | ⟨rfl, -⟩⟩ := outcome_next h
    · obtain ⟨ha, hp⟩ := insertEffect_eq_ok hok
      exact .inserted ha rfl hp (afterInsert_idle seen)
    · exact .quiet (afterInsert_idle seen)
  · next now fault =>
    obtain ⟨seen, rfl, ⟨claimed, hok, hse⟩ | ⟨rfl, hse⟩⟩ := outcome_next h
    · obtain ⟨r, hr, hpe, rfl, hp⟩ | ⟨-, rfl, rfl⟩ := claimEffect_eq_ok hok
      · refine .claimed hr hpe hp ?_
        rcases hse with rfl | rfl
        · exact .inl rfl
        · exact .inr not_false
      · refine .quiet (afterClaim_idle ?_)
        rcases hse with rfl | rfl <;> simp
    · refine .quiet (afterClaim_idle ?_)
      rcases hse with rfl | ⟨_, -, rfl⟩ <;> simp
  · next now fault =>
    obtain ⟨seen, rfl, ⟨_, hok, -⟩ | ⟨rfl, -⟩⟩ := outcome_next h
    · cases hok
      exact .quiet (afterRace_idle seen)
    · exact .quiet (afterRace_idle seen)
  · next result now fault =>
    obtain ⟨seen, rfl, ⟨_, hok, -⟩ | ⟨rfl, -⟩⟩ := outcome_next h
    · obtain ⟨r, record, hr, hd, hp⟩ := record_eq_ok hok
      exact .recorded hr hd hp (afterRecord_idle result seen)
    · exact .quiet (afterRecord_idle result seen)
  · cases h
    exact .finished
  · cases h
    exact .quiet not_false
  · cases h
  · cases h
  · cases h
    exact .quiet not_false
  · cases h

end ToolCallRequest

namespace ToolWorld

variable {registry : ToolRegistry} {w w' : ToolWorld}

variable {i : ℕ} {call : ToolCall} {journal : EffectJournal} {stage : CallStage}

def moved (w : ToolWorld) (i : ℕ) (call : ToolCall) (journal : EffectJournal) (stage : CallStage) :
    ToolWorld where
  journal
  calls := w.calls.set i { call with stage }
  executions :=
    if stage.isRunning then w.executions ++ [call.request.toolCallId] else w.executions

variable {action : ToolAction}

theorem step_cases (h : step registry w action = some w') :
    (∃ request : ToolCallRequest, action = .begin request ∧
      w' = { w with calls := w.calls ++ [⟨request, request.start registry⟩] }) ∨
    ∃ i op call log stage, action = .resume i op ∧ w.calls[i]? = some call ∧
      call.request.next w.journal call.stage op = some (log, stage) ∧
      w' = w.moved i call log stage := by
  cases action with
  | begin request =>
    cases h
    exact .inl ⟨request, rfl, rfl⟩
  | resume i op =>
    simp only [step, Option.bind_eq_bind, bind_eq_some_iff] at h
    obtain ⟨call, hc, ⟨log, stage⟩, hn, h⟩ := h
    cases h
    exact .inr ⟨i, op, call, log, stage, rfl, hc, hn, rfl⟩

theorem getElem?_moved {k : ℕ} {other : ToolCall}
    (h : (w.moved i call journal stage).calls[k]? = some other) :
    k = i ∧ other = { call with stage } ∨ k ≠ i ∧ w.calls[k]? = some other := getElem?_set_cases h

theorem executions_moved_of_idle (h : ¬ stage.Owns) :
    (w.moved i call journal stage).executions = w.executions := by
  have hrun : stage.isRunning = false := by
    cases stage with
    | running => exact absurd trivial h
    | _ => rfl
  simp [moved, hrun]

/-- Whoever owns a record is alone with it and finds it `executing`; an execution begins at most
once, and only for a record that has left `pending`. -/
structure Guarded (w : ToolWorld) : Prop where
  executing : ∀ (i : ℕ) (call : ToolCall), w.calls[i]? = some call → call.stage.Owns →
    ∃ r, w.journal.lookup call.request.toolCallId = some r ∧ r.status = .executing
  alone : ∀ (i k : ℕ) (call other : ToolCall), w.calls[i]? = some call → w.calls[k]? = some other →
    call.stage.Owns → other.stage.Owns →
    call.request.toolCallId = other.request.toolCallId → i = k
  once : ∀ id, w.executions.count id ≤ 1
  fresh : ∀ id, (∀ r, w.journal.lookup id = some r → r.status = .pending) → id ∉ w.executions

section

variable (h : Guarded w)
include h

theorem Guarded.begin (request : ToolCallRequest) :
    Guarded { w with calls := w.calls ++ [⟨request, request.start registry⟩] } := by
  have hold : ∀ (i : ℕ) (call : ToolCall),
      (w.calls ++ [⟨request, request.start registry⟩])[i]? = some call → call.stage.Owns →
      w.calls[i]? = some call := by
    intro i call hi how
    rcases getElem?_snoc_cases hi with hi | rfl
    · exact hi
    · simp [start] at how
      split_ifs at how <;> exact how.elim
  exact {
    executing := fun i call hi how => h.executing i call (hold i call hi how) how
    alone := fun i k call other hi hk ho ho' =>
      h.alone i k call other (hold i call hi ho) (hold k other hk ho') ho ho'
    once := h.once
    fresh := h.fresh }

theorem Guarded.quiet (hi : ¬ stage.Owns) : Guarded (w.moved i call w.journal stage) := by
  have hold : ∀ (k : ℕ) (other : ToolCall), (w.moved i call w.journal stage).calls[k]? = some other →
      other.stage.Owns → w.calls[k]? = some other := by
    intro k other hk how
    obtain ⟨-, rfl⟩ | ⟨-, hk⟩ := getElem?_moved hk
    · exact absurd how hi
    · exact hk
  refine ⟨fun k other hk ho => h.executing k other (hold k other hk ho) ho,
    fun k m other last hk hm ho hl => h.alone k m other last (hold k other hk ho)
      (hold m last hm hl) ho hl, ?_, ?_⟩
  · rw [executions_moved_of_idle hi]
    exact h.once
  · rw [executions_moved_of_idle hi]
    exact h.fresh

/-- No other call owns the record of call `i`. -/
def Sole (w : ToolWorld) (i : ℕ) (toolCallId : String) : Prop :=
  ∀ (k : ℕ) (other : ToolCall), k ≠ i → w.calls[k]? = some other → other.stage.Owns →
    other.request.toolCallId ≠ toolCallId

theorem Guarded.sole_of_not_executing {id : String}
    (hid : ∀ r, w.journal.lookup id = some r → r.status ≠ .executing) : w.Sole i id := by
  rintro k other - hk ho rfl
  obtain ⟨r, hr, hs⟩ := h.executing k other hk ho
  exact hid r hr hs

theorem Guarded.sole_of_owns (hc : w.calls[i]? = some call)
    (how : call.stage.Owns) : w.Sole i call.request.toolCallId :=
  fun k other hne hk ho heq => hne (h.alone k i other call hk hc ho how heq)

/-- A step of the only call at a record keeps the guard, if the call still finds the record
`executing` where it owns it. -/
theorem Guarded.replace (hso : w.Sole i call.request.toolCallId)
    (hf : ∀ id, id ≠ call.request.toolCallId → journal.lookup id = w.journal.lookup id)
    (how : stage.Owns →
      ∃ r, journal.lookup call.request.toolCallId = some r ∧ r.status = .executing)
    (hon : ∀ id, (w.moved i call journal stage).executions.count id ≤ 1)
    (hfr : ∀ id, (∀ r, journal.lookup id = some r → r.status = .pending) →
      id ∉ (w.moved i call journal stage).executions) : Guarded (w.moved i call journal stage) where
  executing k other hk ho := by
    obtain ⟨-, rfl⟩ | ⟨hne, hk⟩ := getElem?_moved hk
    · exact how ho
    · obtain ⟨r, hr, hs⟩ := h.executing k other hk ho
      exact ⟨r, (hf _ (hso k other hne hk ho)).trans hr, hs⟩
  alone k m other last hk hm ho hl heq := by
    obtain ⟨rfl, rfl⟩ | ⟨hne, hold⟩ := getElem?_moved hk
    · obtain ⟨rfl, -⟩ | ⟨hne', hm⟩ := getElem?_moved hm
      · rfl
      · exact absurd heq.symm (hso m last hne' hm hl)
    · obtain ⟨rfl, rfl⟩ | ⟨-, hm⟩ := getElem?_moved hm
      · exact absurd heq (hso k other hne hold ho)
      · exact h.alone k m other last hold hm ho hl heq
  once := hon
  fresh := hfr

theorem Guarded.move (hc : w.calls[i]? = some call)
    (he : CallEffect call.request.toolCallId w.journal call.stage journal stage) :
    Guarded (w.moved i call journal stage) := by
  rcases call with ⟨request, from_⟩
  cases he with
  | quiet hi => exact h.quiet hi
  | inserted ha hpe hp hi =>
    have hso : w.Sole i request.toolCallId := h.sole_of_not_executing fun r hr => by simp [ha] at hr
    refine h.replace hso (fun id hid => by rw [hp id, if_neg hid]) (fun ho => absurd ho hi) ?_ ?_
    · rw [executions_moved_of_idle hi]
      exact h.once
    · rw [executions_moved_of_idle hi]
      intro id hid
      refine h.fresh id fun r hr => ?_
      by_cases heq : id = request.toolCallId
      · simp [heq, ha] at hr
      · exact hid r (by rw [hp id, if_neg heq]; exact hr)
  | @claimed _ r _ _ hr hpe hp hst =>
    have hso : w.Sole i request.toolCallId := h.sole_of_not_executing fun r' hr' => by
        cases hr.symm.trans hr'
        simp [hpe]
    have hnew : journal.lookup request.toolCallId = some { r with status := .executing } := by
      rw [hp, if_pos rfl]
    have hn : request.toolCallId ∉ w.executions := h.fresh _ fun r' hr' => by
      cases hr.symm.trans hr'
      exact hpe
    have hk : ∀ id, (∀ r, journal.lookup id = some r → r.status = .pending) →
        id ≠ request.toolCallId ∧ id ∉ w.executions := by
      intro id hid
      have hne : id ≠ request.toolCallId := by
        rintro rfl
        exact absurd (hid _ hnew) (by simp)
      exact ⟨hne, h.fresh id fun r' hr' => hid r' (by rw [hp id, if_neg hne]; exact hr')⟩
    refine h.replace hso (fun id hid => by rw [hp id, if_neg hid]) (fun _ => ⟨_, hnew, rfl⟩) ?_ ?_
    · intro id
      rcases hst with rfl | hi
      · by_cases heq : id = request.toolCallId
        · subst heq
          simp [moved, isRunning, List.count_eq_zero.2 hn]
        · have hcnt : [request.toolCallId].count id = 0 := by
            simpa [List.count_eq_zero] using heq
          simpa [moved, isRunning, hcnt] using h.once id
      · rw [executions_moved_of_idle hi]
        exact h.once id
    · intro id hid
      obtain ⟨hne, hold⟩ := hk id hid
      rcases hst with rfl | hi
      · simp [moved, isRunning, hne, hold]
      · rwa [executions_moved_of_idle hi]
  | finished =>
    have hso : w.Sole i request.toolCallId := h.sole_of_owns hc trivial
    exact h.replace hso (fun _ _ => rfl) (fun _ => h.executing i _ hc trivial) h.once h.fresh
  | recorded hr hdo hp hi =>
    have hso : w.Sole i request.toolCallId := h.sole_of_owns hc trivial
    refine h.replace hso (fun id hid => by rw [hp id, if_neg hid]) (fun ho => absurd ho hi) ?_ ?_
    · rw [executions_moved_of_idle hi]
      exact h.once
    · rw [executions_moved_of_idle hi]
      intro id hid
      by_cases heq : id = request.toolCallId
      · have hs := hid _ (by rw [hp id, if_pos heq])
        rcases hdo with hd | hd <;> rw [hd] at hs <;> cases hs
      · exact h.fresh id fun r' hr' => hid r' (by rw [hp id, if_neg heq]; exact hr')

theorem Guarded.step (hs : step registry w action = some w') : Guarded w' := by
  obtain ⟨request, -, rfl⟩ | ⟨i, op, call, journal, stage, -, hc, hn, rfl⟩ := step_cases hs
  · exact h.begin request
  · exact h.move hc (next_effect hn)

end

/-- The stages of a call that begins once its record `r` has succeeded: it has read the record, or
its read has failed. -/
def Replays (r : EffectRecord) (call : ToolCall) : Prop :=
  match call.stage with
  | .reading | .crashed => True
  | .returned answer =>
    answer = .ok (call.request.cachedResponse r) ∨
      answer = .error (effectUnanswered "query").toToolGatewayError
  | _ => False

/-- The record of `r` has succeeded, and the calls from index `n` on replay it. -/
structure Settled (registry : ToolRegistry) (r : EffectRecord) (n started : ℕ) (w : ToolWorld) :
    Prop where
  guarded : Guarded w
  succeeded : r.status = .succeeded
  recorded : w.journal.lookup r.toolCallId = some r
  calls : n ≤ w.calls.length
  count : w.executions.count r.toolCallId = started
  replays : ∀ (i : ℕ) (call : ToolCall), n ≤ i → w.calls[i]? = some call →
    call.request.toolCallId = r.toolCallId → registry.isMutating call.request.toolName →
    Replays r call

variable {r : EffectRecord} {n started : ℕ}

theorem Settled.begin (h : Settled registry r n started w) (request : ToolCallRequest) :
    Settled registry r n started
      { w with calls := w.calls ++ [⟨request, request.start registry⟩] } where
  guarded := h.guarded.begin request
  succeeded := h.succeeded
  recorded := h.recorded
  calls := h.calls.trans (by simp)
  count := h.count
  replays i call hn hi hid hm := by
    rcases getElem?_snoc_cases hi with hi | rfl
    · exact h.replays i call hn hi hid hm
    · simp [start, if_pos hm]
      trivial

theorem Settled.unchanged (h : Settled registry r n started w) (hc : w.calls[i]? = some call)
    (he : CallEffect call.request.toolCallId w.journal call.stage journal stage) :
    journal.lookup r.toolCallId = some r ∧
      (w.moved i call journal stage).executions.count r.toolCallId = started := by
  have hf : ∀ {record}, EffectJournal.Puts call.request.toolCallId record w.journal journal →
      r.toolCallId ≠ call.request.toolCallId → journal.lookup r.toolCallId = some r :=
    fun hp hne => by rw [hp, if_neg hne, h.recorded]
  rcases call with ⟨request, from_⟩
  cases he with
  | quiet hi => exact ⟨h.recorded, by rw [executions_moved_of_idle hi, h.count]⟩
  | inserted ha hpe hp hi =>
    refine ⟨hf hp ?_, by rw [executions_moved_of_idle hi, h.count]⟩
    intro heq
    rw [← heq, h.recorded] at ha
    cases ha
  | claimed hr hpe hp hst =>
    have hne : r.toolCallId ≠ request.toolCallId := by
      intro heq
      rw [← heq, h.recorded] at hr
      cases hr
      rw [h.succeeded] at hpe
      cases hpe
    refine ⟨hf hp hne, ?_⟩
    rcases hst with rfl | hi
    · have hcnt : [request.toolCallId].count r.toolCallId = 0 := by
        simpa [List.count_eq_zero] using hne
      simp [moved, isRunning, hcnt, h.count]
    · rw [executions_moved_of_idle hi, h.count]
  | finished => exact ⟨h.recorded, h.count⟩
  | recorded hr hd hp hi =>
    refine ⟨hf hp ?_, by rw [executions_moved_of_idle hi, h.count]⟩
    intro heq
    obtain ⟨r', hr', hs⟩ := h.guarded.executing i _ hc trivial
    rw [← heq, h.recorded] at hr'
    cases hr'
    rw [h.succeeded] at hs
    cases hs

end ToolWorld

namespace ToolCallRequest

variable {req : ToolCallRequest} {journal journal' : EffectJournal} {r : EffectRecord}

section

variable (hr : journal.lookup req.toolCallId = some r) (hs : r.status = .succeeded)
include hr hs

theorem next_reading_succeeded (now : Timestamp) : req.next journal .reading (.sql now .none) =
      some (journal, .returned (.ok (req.cachedResponse r))) := by
  simp [next, getEffect, Fault.outcome, hr, afterRead, hs]

theorem next_replays {stage stage' : CallStage} {op : ToolOp}
    (h : req.next journal stage op = some (journal', stage'))
    (hre : ToolWorld.Replays r ⟨req, stage⟩) : ToolWorld.Replays r ⟨req, stage'⟩ := by
  cases stage with
  | reading =>
    cases op with
    | sql now fault =>
      cases fault with
      | none =>
        rw [next_reading_succeeded hr hs] at h
        cases h
        exact .inl rfl
      | rolledBack | unacknowledged =>
        cases h
        exact .inr rfl
    | finish result => cases h
    | crash =>
      cases h
      trivial
  | returned answer | crashed => cases op <;> cases h
  | _ => exact hre.elim

end

end ToolCallRequest

namespace ToolWorld

variable {registry : ToolRegistry} {w w' : ToolWorld} {r : EffectRecord} {n started : ℕ}

theorem Settled.step (h : Settled registry r n started w)
    (hs : step registry w action = some w') : Settled registry r n started w' := by
  obtain ⟨request, -, rfl⟩ | ⟨i, op, call, journal, stage, -, hc, hne, rfl⟩ := step_cases hs
  · exact h.begin request
  have he := next_effect hne
  obtain ⟨hre, hcnt⟩ := h.unchanged hc he
  exact {
    guarded := h.guarded.move hc he
    succeeded := h.succeeded
    recorded := hre
    calls := by simpa [moved] using h.calls
    count := hcnt
    replays := by
      intro k other hn hk hid hm
      obtain ⟨rfl, rfl⟩ | ⟨-, ho⟩ := getElem?_moved hk
      · have hr := h.recorded
        rw [← hid] at hr
        exact next_replays hr h.succeeded hne (h.replays k call hn hc hid hm)
      · exact h.replays k other hn ho hid hm }

theorem Settled.steps (h : Settled registry r n started w)
    (hsts : Steps (ToolWorld.step registry) w w') : Settled registry r n started w' :=
  hsts.invariant Settled.step h

def commentCall : ToolCallRequest where
  toolCallId := "call-1"
  attemptId := "attempt-1"
  turnId := "turn-1"
  toolName := "github_comment"
  toolInput := .str "hello"

end ToolWorld

namespace ToolCallRequest

variable (req : ToolCallRequest) {registry : ToolRegistry} (clock : ℕ → Timestamp)
  (tool : Except String Json) (journal : EffectJournal)

def outcome : Except String Json → EffectStatus × Option Json
  | .ok output => (.succeeded, some output)
  | .error _ => (.failed, none)

variable {journal}

def lateAnswer (r : EffectRecord) : ToolResult :=
  if r.status = .succeeded then .ok (req.cachedResponse r)
  else .error (.stillExecuting req.toolCallId)

variable {r : EffectRecord}

theorem record_outcome (hr : journal.lookup req.toolCallId = some r) (now : Timestamp) :
    ∃ log', req.record now tool journal = .ok ((), log') ∧
      (log'.lookup req.toolCallId).map (fun r => (r.status, r.toolOutput)) =
        some (outcome tool) := by
  have hso : (journal.lookup req.toolCallId).isSome := by rw [hr]; rfl
  cases tool with
  | ok output | error message =>
    refine ⟨_, if_pos hso, ?_⟩
    rw [lookup_updateWhere_key, if_pos rfl, hr]
    rfl

theorem proceed_claiming (hr : journal.lookup req.toolCallId = some r)
    (hp : r.status = .pending) (n : ℕ) : (req.proceed clock tool (n + 3) journal .claiming).2 =
        [.claiming, .running, .recording tool, .returned (req.response tool)] ∧
      ((req.proceed clock tool (n + 3) journal .claiming).1.lookup req.toolCallId).map
        (fun r => (r.status, r.toolOutput)) = some (outcome tool) := by
  obtain ⟨claimed, journal1, hc⟩ : ∃ claimed journal1,
      journal.claimEffect req.toolCallId = .ok (claimed, journal1) := ⟨_, _, rfl⟩
  obtain ⟨r', -, -, rfl, hpu⟩ | ⟨hnot, -⟩ := claimEffect_eq_ok hc
  · have hr1 := hpu req.toolCallId
    rw [if_pos rfl] at hr1
    obtain ⟨journal2, hrec, hlo⟩ := req.record_outcome tool hr1 (clock n)
    have hn : req.next journal .claiming (.sql (clock (n + 2)) .none) =
        some (journal1, .running) := by
      simp [next, hc, Fault.outcome, afterClaim]
    have hf : req.next journal1 .running (.finish tool) = some (journal1, .recording tool) := rfl
    have hl : req.next journal1 (.recording tool) (.sql (clock n) .none) =
        some (journal2, .returned (req.response tool)) := by
      simp [next, hrec]
      cases tool <;> rfl
    have he : ∀ k, req.proceed clock tool k journal2 (.returned (req.response tool)) =
        (journal2, [.returned (req.response tool)]) := by
      intro k
      cases k <;> rfl
    simp [proceed, awaited, hn, hf, hl, he, hlo]
  · exact absurd hp (hnot r hr)

theorem proceed_claiming_lost (hr : journal.lookup req.toolCallId = some r)
    (hcl : r.status ≠ .pending) (n : ℕ) : req.proceed clock tool (n + 2) journal .claiming =
      (journal, [.claiming, .raced, .returned (req.lateAnswer r)]) := by
  obtain ⟨claimed, journal1, hc⟩ : ∃ claimed journal1,
      journal.claimEffect req.toolCallId = .ok (claimed, journal1) := ⟨_, _, rfl⟩
  obtain ⟨r', hr', hp, -⟩ | ⟨-, rfl, rfl⟩ := claimEffect_eq_ok hc
  · cases hr.symm.trans hr'
    exact absurd hp hcl
  · have hn : ∀ now, req.next journal1 .claiming (.sql now .none) = some (journal1, .raced) := by
      simp [next, hc, Fault.outcome, afterClaim]
    have hra : ∀ now, req.next journal1 .raced (.sql now .none) =
        some (journal1, .returned (req.lateAnswer r)) := by
      simp [next, getEffect, hr, Fault.outcome, Prod.map, afterRace, lateAnswer]
      cases hs : r.status <;> simp
    have he : ∀ k, req.proceed clock tool k journal1 (.returned (req.lateAnswer r)) =
        (journal1, [.returned (req.lateAnswer r)]) := by
      intro k
      cases k <;> rfl
    simp [proceed, awaited, hn, hra, he]

theorem proceed_inserting (ha : journal.lookup req.toolCallId = none) (n : ℕ) :
    ∃ journal1, journal1.lookup req.toolCallId = some (req.newEffect.pendingRecord (clock n)) ∧
      req.proceed clock tool (n + 1) journal .inserting =
        (req.proceed clock tool n journal1 .claiming).map id (.inserting :: ·) := by
  obtain ⟨journal1, hi⟩ := exists_insert? (a := req.newEffect.pendingRecord (clock n)) ha
  refine ⟨journal1, ?_, ?_⟩
  · rw [lookup_insert? hi]
    exact if_pos rfl
  · have hn : req.next journal .inserting (.sql (clock n) .none) = some (journal1, .claiming) := by
      simp [next, insertEffect, hi, Fault.outcome, afterInsert]
    simp [proceed, awaited, hn]

/-- A call of a mutating tool that nothing disturbs runs the tool, records the outcome and answers
with it exactly where its record is absent or still `pending`.  Elsewhere nothing is run or
written: a success is answered from the record, and a record that has failed or is `executing`,
for however long, is answered `StillExecuting`. -/
theorem execute_runs_unclaimed (hm : registry.isMutating req.toolName) :
    ((∀ r, journal.lookup req.toolCallId = some r → r.status = .pending) →
      .running ∈ (req.execute registry clock tool journal).2 ∧
      (req.execute registry clock tool journal).2.getLast? = some (.returned (req.response tool)) ∧
      ((req.execute registry clock tool journal).1.lookup req.toolCallId).map
        (fun r => (r.status, r.toolOutput)) = some (outcome tool)) ∧
    ∀ r, journal.lookup req.toolCallId = some r → r.status ≠ .pending →
      .running ∉ (req.execute registry clock tool journal).2 ∧
      (req.execute registry clock tool journal).2.getLast? = some (.returned (req.lateAnswer r)) ∧
      (req.execute registry clock tool journal).1 = journal := by
  have he : req.execute registry clock tool journal = (req.proceed clock tool 4 journal
        (req.afterRead (clock 4) (.ok (journal.lookup req.toolCallId)))).map id
          (.reading :: ·) := by
    unfold execute start
    rw [if_pos hm]
    rfl
  constructor
  · intro hu
    rcases hr : journal.lookup req.toolCallId with _ | r
    · obtain ⟨journal1, hr1, hi⟩ := req.proceed_inserting clock tool hr 3
      obtain ⟨hst, hre⟩ := req.proceed_claiming clock tool hr1 rfl 0
      rw [he, hr]
      simp [afterRead, hi, hst, hre]
    · obtain ⟨hst, hre⟩ := req.proceed_claiming clock tool hr (hu r hr) 1
      rw [he, hr]
      simp [afterRead, hu r hr, hst, hre]
  · intro r hr hc
    have hl := req.proceed_claiming_lost clock tool hr hc 2
    have hend : ∀ answer, req.proceed clock tool 4 journal (.returned answer) =
        (journal, [.returned answer]) := fun _ => rfl
    rw [he, hr]
    cases hs : r.status with
    | pending => exact absurd hs hc
    | succeeded => simp [afterRead, hs, hend, lateAnswer]
    | failed => simp [afterRead, hs, hl]
    | executing =>
      by_cases ha : max 0 (clock 4 - r.createdAt) < staleExecutingTimeout
      · simp [afterRead, hs, ha, hend, lateAnswer]
      · simp [afterRead, hs, ha, hl]

def commentJournal (status : EffectStatus) : EffectJournal where
  rows := [{ ToolWorld.commentCall.newEffect.pendingRecord 0 with status }]
  nodup := by simp

theorem execute_runs_unclaimed_comment :
    .running ∈ (ToolWorld.commentCall.execute empty (fun _ => 0) (.ok (.str "posted"))
      (commentJournal .pending)).2 :=
  ((ToolWorld.commentCall.execute_runs_unclaimed (fun _ => 0) (.ok (.str "posted"))
    (show ToolRegistry.isMutating empty "github_comment" = true by rfl)).1 (by decide +kernel)).1

/-- A comment that failed, or that a crashed worker left `executing` ten minutes ago, is not posted
again: the claim takes pending records only. -/
theorem claimed_calls_never_retried :
    (ToolWorld.commentCall.execute empty (fun _ => seconds 600) (.ok (.str "posted"))
        (commentJournal .failed)).2 =
      [.reading, .claiming, .raced, .returned (.error (.stillExecuting "call-1"))] ∧
    (ToolWorld.commentCall.execute empty (fun _ => seconds 600) (.ok (.str "posted"))
        (commentJournal .executing)).2 =
      [.reading, .claiming, .raced, .returned (.error (.stillExecuting "call-1"))] := by
  constructor <;> rfl

end ToolCallRequest

end Choruz
