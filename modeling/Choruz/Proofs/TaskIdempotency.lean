import Choruz.Proofs.UniqueCards

/-!
# One task for one idempotency key

The unique indexes hold across the open transactions: no committed row and no other open row has
the keys of a row that is not yet committed.  So a lookup that finds a task finds the only one of
its key, and every answer of a call stays true of the tables.
-/

namespace Choruz

open Relational TaskDb

variable {prims : TaskPrims} {db db' : TaskDb} {x : CreateInput} {α : Type} {attempts : ℕ}
  {e : AppError} {taskId : String}

def AppError.isConflict : AppError → Bool
  | conflict _ => true
  | _ => false

def NoConflict {α : Type} (result : TaskResult α) : Prop :=
  ∀ e, result = .error e → e.isConflict = false

namespace NoConflict

theorem ok (a : α) : NoConflict (.ok a) := by
  rintro _ ⟨⟩

theorem error (h : e.isConflict = false) : NoConflict (.error e : TaskResult α) := by
  rintro _ ⟨⟩
  exact h

theorem bind {α β : Type} {res : TaskResult α} {f : α → TaskResult β}
    (h : NoConflict res) (hf : ∀ a, NoConflict (f a)) : NoConflict (res >>= f) := by
  cases res with
  | ok a => exact hf a
  | error e => exact .error (h e rfl)

theorem ite {p : Prop} [Decidable p] {a b : TaskResult α} (ha : NoConflict a)
    (hb : NoConflict b) : NoConflict (if p then a else b) := by
  split
  · exact ha
  · exact hb

theorem validateRequiredText (field value : String) : NoConflict (validateRequiredText field value) :=
  .ite (.error rfl) (.ok _)

theorem forM {f : α → TaskResult Unit} (hf : ∀ a, NoConflict (f a)) :
    ∀ o : Option α, NoConflict (o.forM f)
  | none => .ok _
  | some a => hf a

theorem validate (call : CreateCall) : NoConflict (call.validate prims x) := by
  refine .bind (.forM (fun key => ?_) _) fun _ => .bind ?_ fun _ =>
    .bind (.validateRequiredText _ _) fun _ => .bind (.forM (fun label => ?_) _) fun _ => ?_
  · exact .bind (.validateRequiredText _ _) fun _ => .ite (.error rfl) (.ok _)
  · exact .bind (.validateRequiredText _ _) fun _ => .ite (.ok _) (.error rfl)
  · exact .validateRequiredText _ _
  · refine .bind (.validateRequiredText _ _) fun _ => ?_
    split
    · exact .ok _
    · exact .error rfl

theorem validateVisibleAssignee {r : Roster} {c p : String} {allowHuman : Bool} :
    NoConflict (r.validateVisibleAssignee c p allowHuman) := by
  refine .bind (.validateRequiredText _ _) fun _ => ?_
  split
  · exact .error rfl
  · exact .ite (.ok _) (.error rfl)

theorem allocateTaskKeyAfterExistingMax {c : String} :
    NoConflict (db.allocateTaskKeyAfterExistingMax c) := .ite (.error rfl) (.ok _)

theorem syncOwnerParticipant {r : Roster} {c t a : String} :
    NoConflict (db.syncOwnerParticipant r c t a) :=
  .bind (.validateRequiredText _ _) fun _ => .bind (.validateRequiredText _ _) fun _ =>
    .ite (.error rfl) (.ite (.error rfl) (.ok _))

theorem insertWorkflowEvent {e : GroupWorkflowEvent} : NoConflict (db.insertWorkflowEvent e) := by
  refine .ite (.error rfl) ?_
  split
  · exact .error rfl
  · exact .ok _

theorem requireConversationAccess {a c : String} : NoConflict (x.requireConversationAccess a c) := by
  refine .bind ?_ fun _ => .bind ?_ fun _ => .ite (.ok _) (.error rfl)
  · unfold Db.getPrincipal
    split
    · exact .error rfl
    · exact .ite (.error rfl) (.ok _)
  · unfold Db.getConversation
    split
    · exact .error rfl
    · exact .ok _

end NoConflict

namespace CreateCall

variable {call call' : CreateCall} {t t' : GroupWorkflowTask}

variable {stage : CreateStage} {found : String × Option String} {taskKey : String}

/-- The row has the key of the call. -/
structure Names (call : CreateCall) (t : GroupWorkflowTask) : Prop where
  conversationId : t.conversationId = call.conversationId
  createdBy : t.createdBy = some call.actorId
  idempotencyKey : t.idempotencyKey = some call.request.idempotencyKey

/-- The row is one the call writes. -/
structure Wrote (prims : TaskPrims) (call : CreateCall) (t : GroupWorkflowTask) : Prop extends
    call.Names t where
  hash : t.idempotencyPayloadHash = some (call.payloadHash prims)
  key : ∀ k ∈ call.request.taskKey, t.taskKey = k

def Stored (prims : TaskPrims) (db : TaskDb) (call : CreateCall) (taskId : String) : Prop :=
  ∃ t ∈ db.tasks, t.id = taskId ∧ call.Names t
    ∧ t.idempotencyPayloadHash = some (call.payloadHash prims)

/-- A stored task has the key of the call and another payload, or its task key alone. -/
def Refuted (prims : TaskPrims) (db : TaskDb) (call : CreateCall) : Prop :=
  (∃ t ∈ db.tasks, call.Names t ∧ t.idempotencyPayloadHash ≠ some (call.payloadHash prims))
    ∨ ∃ k ∈ call.request.taskKey, k ≠ "" ∧ ∃ t ∈ db.tasks,
      t.conversationId = call.conversationId ∧ t.taskKey = k ∧ ¬ call.Names t

/-- The call is past its checks, and its transaction has not committed. -/
structure Open (call : CreateCall) : Prop where
  uncommitted : call.committed = false
  key : ∀ k ∈ call.request.taskKey, k ≠ ""

/-- What holds of a call at a stage. -/
def SoundAt (prims : TaskPrims) (db : TaskDb) (call : CreateCall) : CreateStage → Prop
  | .start => call.committed = false
  | .lookup | .assignee => call.Open
  | .sequence .. | .probe .. => call.Open ∧ call.request.taskKey = none
  | .fallback refusal => call.Open ∧ refusal.isConflict = false
  | .insert _ taskKey => call.Open ∧ ∀ k ∈ call.request.taskKey, taskKey = k
  | .place _ taskKey => call.Open ∧ call.request.taskKey = some taskKey
  | .relookup _ =>
    call.Open ∧ (call.request.taskKey.isSome → ∃ t ∈ db.tasks, call.Names t)
  | .owner task | .event task _ => call.Open ∧ call.Wrote prims task ∧ task.version = 1
  | .commit task _ event => call.Open ∧ call.Wrote prims task ∧ task.version = 1
      ∧ event.taskId = some task.id ∧ event.resultingVersion = some 1
  | .commitExisting taskId => call.Open ∧ call.Stored prims db taskId
  | .snapshot taskId => call.Stored prims db taskId
  | .returned (.ok creation) => call.Stored prims db creation.taskId
  | .returned (.error e) => e.isConflict → call.committed = false ∧ call.Refuted prims db

structure Same (call call' : CreateCall) : Prop where
  actorId : call'.actorId = call.actorId
  conversationId : call'.conversationId = call.conversationId
  request : call'.request = call.request

section

variable (h : call.Same call')
include h

theorem Same.symm : call'.Same call := ⟨h.actorId.symm, h.conversationId.symm, h.request.symm⟩

theorem Same.payload : call'.payload = call.payload := by
  simp [CreateCall.payload, CreateCall.assigneeId, CreateCall.status, h.actorId, h.request]

theorem Same.payloadHash : call'.payloadHash prims = call.payloadHash prims := by
  rw [CreateCall.payloadHash, h.payload, CreateCall.payloadHash]

theorem Same.names (hn : call.Names t) : call'.Names t :=
  ⟨hn.conversationId.trans h.conversationId.symm, hn.createdBy.trans (by rw [h.actorId]),
    hn.idempotencyKey.trans (by rw [h.request])⟩

theorem Same.wrote (hw : call.Wrote prims t) : call'.Wrote prims t :=
  ⟨h.names hw.toNames, hw.hash.trans (by rw [h.payloadHash]), by
    rw [h.request]
    exact hw.key⟩

theorem Same.stored : call.Stored prims db taskId → call'.Stored prims db taskId := by
  rintro ⟨t, ht, hid, hn, hh⟩
  exact ⟨t, ht, hid, h.names hn, hh.trans (by rw [h.payloadHash])⟩

theorem Same.refuted (hr : call.Refuted prims db) :
    call'.Refuted prims db := by
  rcases hr with ⟨t, ht, hnm, hh⟩ | ⟨k, hk, hne, t, ht, hc, hkey, hnm⟩
  · exact .inl ⟨t, ht, h.names hnm, by rwa [h.payloadHash]⟩
  · exact .inr ⟨k, h.request ▸ hk, hne, t, ht, hc.trans h.conversationId.symm, hkey,
      fun hn => hnm (h.symm.names hn)⟩

end

/-- What holds at a stage is about the request of the call, and whether it has committed. -/
theorem SoundAt.of_same (hs : call.Same call') (hc : call'.committed = call.committed)
    (h : call.SoundAt prims db stage) : call'.SoundAt prims db stage := by
  have hop : call.Open → call'.Open := fun ho =>
    ⟨hc.trans ho.uncommitted, hs.request ▸ ho.key⟩
  cases stage with
  | start => exact hc.trans h
  | lookup | assignee => exact hop h
  | sequence | probe | insert | place => exact ⟨hop h.1, hs.request ▸ h.2⟩
  | fallback => exact ⟨hop h.1, h.2⟩
  | relookup =>
    refine ⟨hop h.1, fun hk => ?_⟩
    obtain ⟨t, ht, hn⟩ := h.2 (hs.request ▸ hk)
    exact ⟨t, ht, hs.names hn⟩
  | owner | event | commit => exact ⟨hop h.1, hs.wrote h.2.1, h.2.2⟩
  | commitExisting => exact ⟨hop h.1, hs.stored h.2⟩
  | snapshot => exact hs.stored h
  | returned answer =>
    cases answer with
    | ok creation => exact hs.stored h
    | error e => exact fun he => ⟨hc.trans (h he).1, hs.refuted (h he).2⟩

theorem Names.of_becomes (h : call.Names t) (hb : t.Becomes t') : call.Names t' :=
  ⟨hb.conversationId.trans h.conversationId, hb.createdBy.trans h.createdBy,
    hb.idempotencyKey.trans h.idempotencyKey⟩

theorem Names.to_becomes (h : call.Names t') (hb : t.Becomes t') : call.Names t :=
  ⟨hb.conversationId.symm.trans h.conversationId, hb.createdBy.symm.trans h.createdBy,
    hb.idempotencyKey.symm.trans h.idempotencyKey⟩

theorem Names.sameRequest (h : call.Names t) (h' : call.Names t') : t.sameRequest t' := by
  simp [GroupWorkflowTask.sameRequest, h.conversationId, h.createdBy, h.idempotencyKey,
    h'.conversationId, h'.createdBy, h'.idempotencyKey]

theorem SameKey.names {a b : CreateCall} {t : GroupWorkflowTask}
    (h : a.SameKey b) (hn : a.Names t) : b.Names t :=
  ⟨hn.conversationId.trans h.1, hn.createdBy.trans (by rw [h.2.1]),
    hn.idempotencyKey.trans (by rw [h.2.2])⟩

theorem Wrote.of_becomes (h : call.Wrote prims t) (hb : t.Becomes t') : call.Wrote prims t' :=
  ⟨h.toNames.of_becomes hb, hb.payloadHash.trans h.hash, fun k hk => hb.taskKey.trans (h.key k hk)⟩

theorem mem_tasks : t ∈ call.tasks db ↔ t ∈ db.tasks ∧ call.Names t := by
  simp only [tasks, tasksOf, mem_filter, and_eq_true, decide_eq_true_eq, mem_def]
  exact and_congr_right fun _ => ⟨fun ⟨⟨hc, hb⟩, hk⟩ => ⟨hc, hb, hk⟩,
    fun h => ⟨⟨h.conversationId, h.createdBy⟩, h.idempotencyKey⟩⟩

/-- What a call knows stays true while every card keeps its identity. -/
theorem SoundAt.mono (hd : ∀ t ∈ db.tasks, ∃ t' ∈ db'.tasks, t.Becomes t')
    (h : call.SoundAt prims db stage) : call.SoundAt prims db' stage := by
  have hs : ∀ {taskId}, call.Stored prims db taskId → call.Stored prims db' taskId := by
    rintro _ ⟨t, ht, rfl, hn, hh⟩
    obtain ⟨t', ht', hb⟩ := hd t ht
    exact ⟨t', ht', hb.id, hn.of_becomes hb, hb.payloadHash.trans hh⟩
  cases stage with
  | relookup =>
    refine ⟨h.1, fun hkey => ?_⟩
    obtain ⟨t, ht, hn⟩ := h.2 hkey
    obtain ⟨t', ht', hb⟩ := hd t ht
    exact ⟨t', ht', hn.of_becomes hb⟩
  | commitExisting => exact ⟨h.1, hs h.2⟩
  | snapshot => exact hs h
  | returned answer =>
    cases answer with
    | ok creation => exact hs h
    | error e =>
      intro he
      obtain ⟨hc, ⟨t, ht, hn, hh⟩ | ⟨k, hk, hne, t, ht, hco, hkey, hn⟩⟩ := h he
      · obtain ⟨t', ht', hb⟩ := hd t ht
        exact ⟨hc, .inl ⟨t', ht', hn.of_becomes hb, hb.payloadHash ▸ hh⟩⟩
      · obtain ⟨t', ht', hb⟩ := hd t ht
        exact ⟨hc, .inr ⟨k, hk, hne, t', ht', hb.conversationId.trans hco, hb.taskKey.trans hkey,
          fun h => hn (h.to_becomes hb)⟩⟩
  | _ => exact h

/-- The row collides with none that is stored and with none of the open transactions. -/
structure Free (db : TaskDb) (drafts : List GroupWorkflowTask) (d : GroupWorkflowTask) : Prop where
  card : db.NewCard d
  apart : ∀ e ∈ drafts, d.sameRequest e = false ∧ d.sameCard e = false

/-- What a statement does to its call. -/
structure Moves (prims : TaskPrims) (db : TaskDb) (drafts : List GroupWorkflowTask)
    (call call' : CreateCall) : Prop where
  same : call.Same call'
  sound : call'.SoundAt prims db call'.stage
  draft : ∀ d ∈ call'.stage.draft?, call.stage.draft? = some d ∨ Free db drafts d

variable {drafts : List GroupWorkflowTask}

theorem goto_same (stage : CreateStage) : call.Same (call.goto stage) := ⟨rfl, rfl, rfl⟩

theorem gotoWith_same (stage : CreateStage) : call.Same (call.gotoWith db stage) := ⟨rfl, rfl, rfl⟩

theorem fail_same (e : AppError) : call.Same (call.fail e) := ⟨rfl, rfl, rfl⟩

theorem Moves.goto (h : call.SoundAt prims db stage)
    (hd : ∀ d ∈ stage.draft?, call.stage.draft? = some d ∨ Free db drafts d := by
      simp [CreateStage.draft?]) :
    Moves prims db drafts call (call.goto stage) :=
  ⟨goto_same stage, .of_same (goto_same stage) rfl h, hd⟩

theorem Moves.gotoWith (h : call.SoundAt prims db stage) (hd : stage.draft? = none) :
    Moves prims db drafts call (call.gotoWith db' stage) :=
  ⟨gotoWith_same stage, .of_same (gotoWith_same stage) rfl h, by simp [CreateCall.gotoWith, hd]⟩

theorem Moves.fail (h : call.SoundAt prims db (.returned (.error e))) :
    Moves prims db drafts call (call.fail e) :=
  ⟨fail_same e, h.of_same (fail_same e) rfl, by simp [CreateCall.fail, CreateStage.draft?]⟩

theorem Moves.refused {res : TaskResult α} (h : NoConflict res)
    (he : res = .error e) : Moves prims db drafts call (call.fail e) :=
  .fail fun hc => absurd hc (eq_false_iff.1 (h e he))

theorem found_eq_some (h : call.found db = some found) :
    ∃ t ∈ db.tasks, call.Names t ∧ found = (t.id, t.idempotencyPayloadHash) := by
  obtain ⟨t, hf, rfl⟩ := map_eq_some_iff.1 h
  have hn := find?_some hf
  simp at hn
  exact ⟨t, mem_of_find?_eq_some hf, ⟨hn.1.1, hn.1.2, hn.2⟩, rfl⟩

theorem found_eq_none (h : call.found db = none) : ∀ t ∈ db.tasks, ¬ call.Names t := by
  intro t ht hnm
  have hn := find?_eq_none.1 (Option.map_eq_none_iff.1 h) t ht
  simp [hnm.conversationId, hnm.createdBy, hnm.idempotencyKey] at hn

theorem Moves.answer (ho : call.Open) (h : call.found db = some found) :
    Moves prims db drafts call (call.answer prims found) := by
  obtain ⟨t, ht, hn, rfl⟩ := found_eq_some h
  unfold CreateCall.answer
  split_ifs with hh
  · exact .goto ⟨ho, t, ht, rfl, hn, hh⟩
  · exact .fail fun _ => ⟨ho.uncommitted, .inl ⟨t, ht, hn, hh⟩⟩

theorem task_wrote (hk : ∀ k ∈ call.request.taskKey, taskKey = k) :
    call.Wrote prims (call.task prims x taskKey) := ⟨⟨rfl, rfl, rfl⟩, rfl, hk⟩

theorem Names.of_sameRequest (h : call.Names t) (hs : t.sameRequest t') :
    call.Names t' := by
  simp [GroupWorkflowTask.sameRequest] at hs
  exact ⟨hs.1.1.trans h.conversationId, hs.1.2.trans h.createdBy, hs.2.trans h.idempotencyKey⟩

theorem insertStatement_moves (ho : call.Open) (hkey : ∀ k ∈ call.request.taskKey, taskKey = k)
    (h : call.insertStatement prims db drafts x attempts taskKey = some call') :
    Moves prims db drafts call call' := by
  have hwr : call.Wrote prims (call.task prims x taskKey) := task_wrote hkey
  simp only [insertStatement] at h
  split_ifs at h with hexp hw hta hw
  · cases h
    refine .goto ⟨ho, fun _ => ?_⟩
    rw [idempotencyTaken_eq, and_eq_true, any_eq_true] at hta
    obtain ⟨-, t, ht, hsa⟩ := hta
    exact ⟨t, ht, hwr.toNames.of_sameRequest hsa⟩
  · cases h
    obtain ⟨k, hk⟩ := isSome_iff_exists.1 hexp
    refine .goto ⟨ho, ?_⟩
    rw [hkey k hk, hk]
  · split at h <;> cases h
    · exact .goto ⟨ho, fun hs => absurd hs hexp⟩
    next hi =>
      refine .goto ⟨ho, hwr, rfl⟩ ?_
      rintro d ⟨⟩
      refine .inr ⟨(insertTask_eq_some hi).card, fun e he => ?_⟩
      simpa using List.any_eq_false.1 (eq_false_iff.2 hw) e he

theorem placeStatement_moves (ho : call.Open) (hkey : call.request.taskKey = some taskKey)
    (hr : (call.tasks db).all (·.taskKey ≠ taskKey))
    (h : call.placeStatement prims db drafts x attempts taskKey = some call') :
    Moves prims db drafts call call' := by
  have hk' : ∀ k ∈ call.request.taskKey, taskKey = k := fun k hk =>
    Option.some.inj (hkey.symm.trans hk)
  simp only [placeStatement] at h
  split_ifs at h with hw hta hreq <;> cases h
  · refine .fail fun _ => ⟨ho.uncommitted, .inr ⟨taskKey, hkey, ho.key _ hkey, ?_⟩⟩
    rw [taskKeyTaken_eq, any_eq_true] at hta
    obtain ⟨t, ht, hs⟩ := hta
    simp [GroupWorkflowTask.sameCard] at hs
    refine ⟨t, ht, hs.1, hs.2, fun hn => ?_⟩
    have hne := all_eq_true.1 hr t (mem_tasks.2 ⟨ht, hn⟩)
    exact absurd hs.2 (of_decide_eq_true hne)
  · exact .goto ⟨ho, hk'⟩
  · refine .goto ⟨ho, task_wrote hk', rfl⟩ ?_
    rintro d ⟨⟩
    rw [Bool.not_eq_true, Bool.or_eq_false_iff] at hreq
    refine .inr ⟨⟨eq_false_iff.2 hta, hreq.2⟩, fun e he => ⟨?_, ?_⟩⟩
    · exact eq_false_iff.2 (List.any_eq_false.1 hreq.1 e he)
    · exact eq_false_iff.2 (List.any_eq_false.1 (eq_false_iff.2 hw) e he)

theorem key_of_validate (h : call.validate prims x = .ok ()) : ∀ k ∈ call.request.taskKey, k ≠ "" := by
  rintro k hk rfl
  obtain ⟨_, hkey, -⟩ := bind_eq_ok.1 h
  rw [show call.request.taskKey = some "" from hk] at hkey
  cases hkey

theorem firstInsert_sound (ho : call.Open) : call.SoundAt prims db call.firstInsert := by
  unfold firstInsert
  split
  next key hkey =>
    exact ⟨ho, fun k hk => Option.some.inj (hkey.symm.trans hk)⟩
  next hkey =>
    exact ⟨ho, hkey⟩

theorem firstInsert_draft : call.firstInsert.draft? = none := by
  unfold firstInsert
  split <;> rfl

theorem statement_moves {locked : Bool} (hs : call.SoundAt prims db call.stage)
    (hr : ∀ n k, call.stage = .place n k → (call.tasks db).all (·.taskKey ≠ k))
    (h : call.statement prims db drafts locked x = some call') :
    Moves prims db drafts call call' := by
  unfold statement at h
  rcases hst : call.stage with _ | _ | _ | refusal | ⟨n, p⟩ | ⟨n, p, k⟩ | ⟨n, k⟩ | ⟨n, k⟩ | n
    | d | ⟨d, os⟩ | ⟨d, os, e⟩ | id | id | answer <;> rw [hst] at h hs
  case start =>
    cases h
    split
    next hv =>
      exact .goto ⟨hs, key_of_validate hv⟩
    next he =>
      exact .refused (.validate call) he
  case lookup =>
    cases h
    split
    next hf =>
      exact .answer hs hf
    · exact .goto hs
  case assignee =>
    cases h
    split
    · exact .goto (firstInsert_sound hs) (by simp [firstInsert_draft])
    next e he =>
      exact .goto ⟨hs, NoConflict.validateVisibleAssignee e he⟩
  case fallback =>
    cases h
    split
    next hf =>
      exact .answer hs.1 hf
    · exact .fail fun he => absurd he (eq_false_iff.1 hs.2)
  case sequence =>
    rcases p with _ | p <;> dsimp only at h <;> split_ifs at h <;> cases h
    · split
      · exact .gotoWith ⟨hs.1, by simp [hs.2]⟩ rfl
      next he =>
        exact .refused .allocateTaskKeyAfterExistingMax he
    · exact .gotoWith hs rfl
  case probe =>
    cases h
    split_ifs
    · exact .goto hs
    · exact .goto ⟨hs.1, by simp [hs.2]⟩
  case insert => exact insertStatement_moves hs.1 hs.2 h
  case place => exact placeStatement_moves hs.1 hs.2 (hr n k hst) h
  case relookup =>
    cases h
    split
    next hf =>
      exact .answer hs.1 hf
    · rename_i hf hk
      obtain ⟨t, ht, hn⟩ := hs.2 (by rw [hk]; rfl)
      exact absurd hn (found_eq_none hf t ht)
    · exact .fail fun he => nomatch he
    next hk =>
      exact .goto ⟨hs.1, hk⟩
  case owner =>
    cases h
    split
    · exact .goto hs (by simp [CreateStage.draft?, hst])
    next he =>
      exact .refused .syncOwnerParticipant he
  case event =>
    cases h
    split
    next he =>
      obtain ⟨-, -, -, rfl⟩ := insertWorkflowEvent_eq_ok he
      exact .goto ⟨hs.1, hs.2.1, hs.2.2, rfl, rfl⟩ (by simp [CreateStage.draft?, hst])
    next he =>
      exact .refused .insertWorkflowEvent he
  case snapshot =>
    cases h
    split
    · exact .fail fun he => nomatch he
    split
    · exact .goto hs
    next he =>
      exact .refused .requireConversationAccess he
  case commit | commitExisting | returned => cases h

end CreateCall

namespace CreateWorld

variable {w w' : CreateWorld} {i : ℕ} {call call' : CreateCall} {fault : Fault}

variable {task t : GroupWorkflowTask} {owners : List GroupWorkflowTaskParticipant}
  {event : GroupWorkflowEvent}

/-- The unique indexes hold across the open transactions, what the calls know is true, and a payload
hash is that of a call. -/
structure Inv (prims : TaskPrims) (w : CreateWorld) : Prop where
  cards : w.db.UniqueCards
  sound : ∀ call ∈ w.calls, call.SoundAt prims w.db call.stage
  free : ∀ i call, w.calls[i]? = some call → ∀ d ∈ call.stage.draft?,
    CreateCall.Free w.db (w.drafts i) d
  origin : ∀ t ∈ w.db.tasks, t.idempotencyPayloadHash ≠ none → ∃ call ∈ w.calls, call.Wrote prims t

theorem inv_init : Inv prims {} where
  cards := uniqueCards_empty
  sound := by simp
  free := by simp
  origin t ht := absurd ht (not_mem_empty t)

theorem mem_drafts {e : GroupWorkflowTask} : e ∈ w.drafts i ↔
    ∃ j b, j ≠ i ∧ w.calls[j]? = some b ∧ b.stage.draft? = some e := by
  simp only [drafts, mem_filterMap, List.mem_eraseIdx_iff_getElem?]
  constructor
  · rintro ⟨b, ⟨j, hj, hb⟩, he⟩
    exact ⟨j, b, hj, hb, he⟩
  · rintro ⟨j, b, hj, hb, he⟩
    exact ⟨b, ⟨j, hj, hb⟩, he⟩

theorem Inv.set (h : w.Inv prims) (hi : w.calls[i]? = some call) (hca : db'.UniqueCards)
    (hf : ∀ t ∈ w.db.tasks, ∃ t' ∈ db'.tasks, t.Becomes t') (hsa : call.Same call')
    (hsnd : call'.SoundAt prims db' call'.stage) (hfr : ∀ d ∈ w.drafts i, db'.NewCard d)
    (hdr : ∀ d ∈ call'.stage.draft?, CreateCall.Free db' (w.drafts i) d)
    (ho : ∀ t' ∈ db'.tasks, (∃ t ∈ w.db.tasks, t.Becomes t') ∨ call.Wrote prims t') :
    Inv prims { db := db', calls := w.calls.set i call' } := by
  have hlt : i < w.calls.length := (getElem?_eq_some_iff.1 hi).1
  have hs : (w.calls.set i call')[i]? = some call' := List.getElem?_set_self hlt
  have hke : ∀ c ∈ w.calls, ∀ t, c.Wrote prims t →
      ∃ c' ∈ w.calls.set i call', c'.Wrote prims t := by
    intro c hc t hw
    obtain ⟨j, hj⟩ := List.mem_iff_getElem?.1 hc
    by_cases hij : i = j
    · subst hij
      cases hi.symm.trans hj
      exact ⟨call', mem_of_getElem? hs, hsa.wrote hw⟩
    · exact ⟨c, mem_of_getElem? ((List.getElem?_set_ne hij).trans hj), hw⟩
  refine ⟨hca, forall_mem_set (fun c hc => (h.sound c hc).mono hf) hsnd,
    fun j a ha d hd => ?_, fun t' ht' hh => ?_⟩
  · by_cases hij : i = j
    · subst hij
      cases hs.symm.trans ha
      refine ⟨(hdr d hd).card, fun e he => (hdr d hd).apart e ?_⟩
      obtain ⟨k, b, hk, hb, he⟩ := mem_drafts.1 he
      exact mem_drafts.2 ⟨k, b, hk, (List.getElem?_set_ne hk.symm).symm.trans hb, he⟩
    · rw [List.getElem?_set_ne hij] at ha
      have hd' : d ∈ w.drafts i := mem_drafts.2 ⟨j, a, Ne.symm hij, ha, hd⟩
      refine ⟨hfr d hd', fun e he => ?_⟩
      obtain ⟨k, b, hk, hb, he⟩ := mem_drafts.1 he
      by_cases hik : i = k
      · subst hik
        cases hs.symm.trans hb
        rw [GroupWorkflowTask.sameRequest_comm, GroupWorkflowTask.sameCard_comm]
        exact (hdr e he).apart d hd'
      · exact (h.free j a ha d hd).apart e
          (mem_drafts.2 ⟨k, b, hk, (List.getElem?_set_ne hik).symm.trans hb, he⟩)
  · rcases ho t' ht' with ⟨t, ht, hb⟩ | hw
    · obtain ⟨c, hc, hw⟩ := h.origin t ht (hb.payloadHash ▸ hh)
      obtain ⟨c', hc', hw'⟩ := hke c hc t hw
      exact ⟨c', hc', hw'.of_becomes hb⟩
    · exact ⟨call', mem_of_getElem? hs, hsa.wrote hw⟩

inductive CallStep (prims : TaskPrims) (w : CreateWorld) (i : ℕ) (x : CreateInput) (fault : Fault)
    (call : CreateCall) (w' : CreateWorld) : Prop where
  | created (task : GroupWorkflowTask) (owners : List GroupWorkflowTaskParticipant)
      (event : GroupWorkflowEvent) (db : TaskDb) (stage : call.stage = .commit task owners event)
      (write : call.write w.db task owners event = some db)
      (next : w' = w.commit i call fault db (.returned (.ok ⟨true, task.id⟩)))
  | existing (taskId : String) (stage : call.stage = .commitExisting taskId)
      (next : w' = w.commit i call fault (call.view w.db) (.snapshot taskId))
  | moved (call' : CreateCall) (fault : fault = .none)
      (statement : call.statement prims w.db (w.drafts i) (w.locked i call.conversationId) x =
        some call')
      (next : w' = w.setCall i call')
  | failed (next : w' = w.setCall i (call.fail connectionClosed))

theorem step_call (h : w.step prims (.call i x fault) = some w') :
    ∃ call, w.calls[i]? = some call ∧ CallStep prims w i x fault call w' := by
  obtain ⟨call, hi, h⟩ := bind_eq_some_iff.1 h
  refine ⟨call, hi, ?_⟩
  split at h
  · cases h
  next task owners event hst =>
    obtain ⟨db, hw, rfl⟩ := map_eq_some_iff.1 h
    exact .created task owners event db hst hw rfl
  next taskId hst =>
    cases h
    exact .existing taskId hst rfl
  · split_ifs at h with hf
    · obtain ⟨call', hs, rfl⟩ := map_eq_some_iff.1 h
      exact .moved call' hf hs rfl
    · cases h
      exact .failed rfl

theorem commit_of_ne {db : TaskDb} {stage : CreateStage} (h : fault ≠ .rolledBack) :
    w.commit i call fault db stage =
      { db, calls := w.calls.set i (call.committing fault stage) } := by
  simp [commit, h]

theorem committing_same (fault : Fault) (stage : CreateStage) :
    call.Same (call.committing fault stage) := ⟨rfl, rfl, rfl⟩

theorem committing_sound (prims : TaskPrims) (db : TaskDb) (call : CreateCall) (fault : Fault)
    (stage : CreateStage) (hd : stage.draft? = none)
    (hst : ∀ c, call.Same c → c.SoundAt prims db stage) :
    (call.committing fault stage).SoundAt prims db (call.committing fault stage).stage
      ∧ (call.committing fault stage).stage.draft? = none := by
  unfold CreateCall.committing
  dsimp only
  split_ifs
  · exact ⟨hst _ ⟨rfl, rfl, rfl⟩, hd⟩
  · exact ⟨fun he => (nomatch he), rfl⟩

theorem view_same (call : CreateCall) (db : TaskDb) : db.SameBoard (call.view db) := by
  unfold CreateCall.view
  split
  · exact .refl db
  · exact advanceSequence_same _ _ _

theorem write_eq_some (h : call.write db task owners event = some db') :
    db.tasks.insert? task = some db'.tasks ∧ db.events.insert? event = some db'.events := by
  unfold CreateCall.write at h
  split at h <;> cases h
  rename_i ht he
  exact ⟨ht, he⟩

theorem Inv.setCall (h : w.Inv prims) (hi : w.calls[i]? = some call) (hs : call.Same call')
    (hsnd : call'.SoundAt prims w.db call'.stage)
    (hdr : ∀ d ∈ call'.stage.draft?, CreateCall.Free w.db (w.drafts i) d) :
    Inv prims (w.setCall i call') := by
  refine h.set hi h.cards (fun t ht => ⟨t, ht, .refl t⟩) hs hsnd (fun d hd => ?_) hdr
    fun t ht => .inl ⟨t, ht, .refl t⟩
  obtain ⟨j, b, -, hb, hd⟩ := mem_drafts.1 hd
  exact (h.free j b hb d hd).card

theorem Inv.commit_created (h : w.Inv prims) (hi : w.calls[i]? = some call)
    (hst : call.stage = .commit task owners event)
    (hwt : call.write w.db task owners event = some db) : Inv prims {
        db
        calls := w.calls.set i (call.committing fault (.returned (.ok ⟨true, task.id⟩))) } := by
  have hsnd := h.sound call (mem_of_getElem? hi)
  rw [hst] at hsnd
  obtain ⟨-, hw, hv, hta, hfi⟩ := hsnd
  have hdr : task ∈ call.stage.draft? := by
    rw [hst]
    rfl
  have hf := h.free i call hi task hdr
  obtain ⟨hts, hevs⟩ := write_eq_some hwt
  have he : TaskDb.CardEffect w.db db := .created task [event] hts hv (rows_insert? hevs)
      (by simpa using ⟨hta, hfi⟩) hf.card (by simp)
  have hm : ∀ {u}, u ∈ db.tasks ↔ u ∈ w.db.tasks ∨ u = task := mem_insert? hts
  have hn := committing_sound prims db call fault (.returned (.ok ⟨true, task.id⟩)) rfl
    fun c hs => ⟨task, hm.2 (.inr rfl), rfl, hs.names hw.toNames, (hs.wrote hw).hash⟩
  refine h.set hi (h.cards.of_effect he) (fun t ht => he.exists_becomes ht)
    (committing_same _ _) hn.1 (fun d hd => ?_) (by simp [hn.2]) fun t ht => ?_
  · obtain ⟨j, b, -, hb, hbd⟩ := mem_drafts.1 hd
    refine newCard_iff.2 fun u hu => ?_
    rcases hm.1 hu with hu | rfl
    · exact newCard_iff.1 (h.free j b hb d hbd).card u hu
    have ha := hf.apart d hd
    rw [GroupWorkflowTask.sameRequest_comm, GroupWorkflowTask.sameCard_comm] at ha
    exact ⟨ha.2, fun _ => ha.1⟩
  · rcases hm.1 ht with ht | rfl
    · exact .inl ⟨t, ht, .refl t⟩
    · exact .inr hw

theorem Inv.commit_existing (h : w.Inv prims) (hi : w.calls[i]? = some call)
    (hst : call.stage = .commitExisting taskId) : Inv prims {
        db := call.view w.db
        calls := w.calls.set i (call.committing fault (.snapshot taskId)) } := by
  have hsnd := h.sound call (mem_of_getElem? hi)
  rw [hst] at hsnd
  have hs := view_same call w.db
  have he : TaskDb.CardEffect w.db (call.view w.db) := .kept (.of_same hs.toSameCards)
  have hn := committing_sound prims (call.view w.db) call fault (.snapshot taskId) rfl
    fun c hc => by
      refine hc.stored ?_
      unfold CreateCall.Stored
      rw [hs.tasks]
      exact hsnd.2
  refine h.set hi (h.cards.of_effect he) (fun t ht => he.exists_becomes ht)
    (committing_same _ _) hn.1 (fun d hd => ?_) (by simp [hn.2]) fun t ht => ?_
  · obtain ⟨j, b, -, hb, hbd⟩ := mem_drafts.1 hd
    exact (h.free j b hb d hbd).card.of_tasks hs.tasks.symm
  · exact .inl ⟨t, hs.tasks ▸ ht, .refl t⟩

theorem Inv.call_step (h : w.Inv prims) (hr : w.unraced (.call i x fault))
    (hs : w.step prims (.call i x fault) = some w') : w'.Inv prims := by
  obtain ⟨call, hi, hs⟩ := step_call hs
  have hf : ∀ committed, Inv prims
      (w.setCall i { call.fail connectionClosed with committed }) := fun committed =>
    h.setCall hi ⟨rfl, rfl, rfl⟩ (fun he => nomatch he)
      (by simp [CreateCall.fail, CreateStage.draft?])
  cases hs with
  | created task owners event db stage write next =>
    subst next
    by_cases hflt : fault = .rolledBack
    · subst hflt
      exact hf false
    · rw [commit_of_ne hflt]
      exact h.commit_created hi stage write
  | existing taskId stage next =>
    subst next
    by_cases hflt : fault = .rolledBack
    · subst hflt
      exact hf false
    · rw [commit_of_ne hflt]
      exact h.commit_existing hi stage
  | moved call' fault statement next =>
    subst next
    have hm := CreateCall.statement_moves (h.sound call (mem_of_getElem? hi))
      (fun n k hst => by simpa [unraced, hi, hst] using hr) statement
    refine h.setCall hi hm.same hm.sound fun d hd => ?_
    rcases hm.draft d hd with hd | hd
    · exact h.free i call hi d hd
    · exact hd
  | failed next =>
    subst next
    exact hf call.committed

theorem newCard_of_admits {d : GroupWorkflowTask} (h : w.admits db) (hc : call ∈ w.calls)
    (hd : call.stage.draft? = some d) : db.NewCard d := by
  refine newCard_iff.2 fun u hu => ?_
  have ha := all_eq_true.1 h call hc
  rw [hd, and_eq_true] at ha
  have hr := all_eq_true.1 ha.1 u hu
  simp at hr
  exact ⟨hr.1.2, fun _ => hr.1.1⟩

section

variable (h : w.Inv prims)
include h

theorem Inv.settle {res : TaskResult TaskDb} (he : ∀ db, res = .ok db → w.db.OtherEffect db)
    (hs : w.settle fault res = some w') : w'.Inv prims := by
  simp only [CreateWorld.settle] at hs
  split_ifs at hs with ha
  cases hs
  rcases hout : fault.outcome connectionClosed w.db (res.map fun db => ((), db)) with ⟨db, seen⟩
  rw [hout] at ha
  have ho : w.db.OtherEffect db := by
    rcases Fault.outcome_cases hout with ⟨_, hok, -⟩ | ⟨rfl, -⟩
    · exact he db (map_pair_eq_ok hok)
    · exact .of_same (.refl _)
  refine ⟨h.cards.of_effect ho.cards, fun call hc => ?_, fun j call hj d hd => ?_,
    fun t ht hh => ?_⟩
  · exact (h.sound call hc).mono fun t ht => ho.cards.exists_becomes ht
  · exact ⟨newCard_of_admits ha (mem_of_getElem? hj) hd, (h.free j call hj d hd).apart⟩
  · rcases ho.unhashed t ht with hn | ⟨u, hu, hb⟩
    · exact absurd hn hh
    · obtain ⟨call, hc, hw⟩ := h.origin u hu (hb.payloadHash ▸ hh)
      exact ⟨call, hc, hw.of_becomes hb⟩

theorem Inv.begin_call (hs : call.stage = .start)
    (hcom : call.committed = false) : Inv prims { w with calls := w.calls ++ [call] } := by
  refine ⟨h.cards, fun c hc => ?_, fun j c hj d hd => ?_, fun t ht hh => ?_⟩
  · rcases mem_append.1 hc with hc | hc
    · exact h.sound c hc
    · rw [mem_singleton.1 hc, hs]
      exact hcom
  · rcases getElem?_snoc_cases hj with hj | rfl
    · refine ⟨(h.free j c hj d hd).card, fun e he => (h.free j c hj d hd).apart e ?_⟩
      obtain ⟨k, b, hk, hb, hbe⟩ := mem_drafts.1 he
      rcases getElem?_snoc_cases hb with hb | rfl
      · exact mem_drafts.2 ⟨k, b, hk, hb, hbe⟩
      · rw [hs] at hbe
        cases hbe
    · rw [hs] at hd
      cases hd
  · obtain ⟨c, hc, hw⟩ := h.origin t ht hh
    exact ⟨c, mem_append_left _ hc, hw⟩

theorem Inv.step {act : CreateAction} (hr : w.unraced act)
    (hs : w.step prims act = some w') : w'.Inv prims := by
  cases act with
  | begin actorId conversationId request =>
    cases hs
    exact h.begin_call rfl rfl
  | call i x fault => exact h.call_step hr hs
  | transact r now txn fault =>
    simp only [CreateWorld.step] at hs
    split_ifs at hs with hc
    exact h.settle (fun db he => TaskTxn.exec_otherEffect h.cards (by simpa using hc) he) hs
  | write r now eventId request task fault =>
    exact h.settle (fun db hw => TaskRequest.write_otherEffect h.cards hw) hs

theorem Inv.tasksOf_le (c a k : String) : (w.db.tasksOf c a k).length ≤ 1 := by
  refine Table.filter_length_le_one fun t ht u hu hp hpu => ?_
  simp at hp hpu
  refine h.cards.request t ht u hu ⟨by rw [hp.2]; rfl, by rw [hp.1.2]; rfl⟩ ?_
  simp [GroupWorkflowTask.sameRequest, hp, hpu]

theorem Inv.tasks_eq (ht : t ∈ w.db.tasks) (hn : call.Names t) : call.tasks w.db = [t] := by
  have hm : t ∈ call.tasks w.db := CreateCall.mem_tasks.2 ⟨ht, hn⟩
  have hl : (call.tasks w.db).length = 1 :=
    le_antisymm (h.tasksOf_le _ _ _) (List.length_pos_of_mem hm)
  obtain ⟨u, hu⟩ := List.length_eq_one_iff.1 hl
  rw [hu] at hm ⊢
  rw [mem_singleton.1 hm]

theorem Inv.creationsOf_le (c a k : String) : (w.db.creationsOf c a k).length ≤ 1 := by
  refine Table.filter_length_le_one fun e he e' he' hp hp' => ?_
  simp at hp hp'
  obtain ⟨hv, t, ht, hta⟩ := hp
  obtain ⟨hv', u, hu, ht'⟩ := hp'
  obtain rfl : t = u := by
    rcases hl : w.db.tasksOf c a k with _ | ⟨v, _ | ⟨v', l⟩⟩
    · rw [hl] at ht
      cases ht
    · rw [hl] at ht hu
      rw [mem_singleton.1 ht, mem_singleton.1 hu]
    · have hle := h.tasksOf_le c a k
      rw [hl] at hle
      simp at hle
  exact h.cards.once e he e' he' hv hv' (hta.trans ht'.symm)

theorem Inv.answered : w.Answered prims := by
  have hstd : ∀ call ∈ w.calls, ∀ creation, call.stage = .returned (.ok creation) →
      call.Stored prims w.db creation.taskId := by
    intro call hca creation hst
    have hsnd := h.sound call hca
    rwa [hst] at hsnd
  have hr : ∀ call ∈ w.calls, ∀ m, call.stage = .returned (.error (.conflict m)) →
      call.committed = false ∧ call.Refuted prims w.db := by
    intro call hca m hst
    have hsnd := h.sound call hca
    rw [hst] at hsnd
    exact hsnd rfl
  refine ⟨h.tasksOf_le, h.creationsOf_le, ?_, ?_, fun call hca m hst =>
    (hr call hca m hst).1, ?_⟩
  · intro call hca creation hst
    obtain ⟨t, ht, hid, hn, hh⟩ := hstd call hca creation hst
    exact ⟨t, h.tasks_eq ht hn, hid, hh⟩
  · intro hap a ha b hb hkey x y hx hy
    obtain ⟨t, ht, -, hn, hh⟩ := hstd a ha x hx
    obtain ⟨u, hu, -, hn', hh'⟩ := hstd b hb y hy
    obtain rfl : t = u := by
      have hl := h.tasks_eq ht (hkey.names hn)
      rw [h.tasks_eq hu hn', List.singleton_inj] at hl
      exact hl.symm
    exact hap a ha b hb (Option.some.inj (hh.symm.trans hh'))
  · intro hap a ha b hb hkey x m hx hm hp
    obtain ⟨t, ht, -, hn, hh⟩ := hstd a ha x hx
    have hs : a.payloadHash prims = b.payloadHash prims := by
      rw [CreateCall.payloadHash, hp, CreateCall.payloadHash]
    rcases (hr b hb m hm).2 with
      ⟨u, hu, hn', hne⟩ | ⟨k, hk, hkne, u, hu, hco, huk, hun⟩
    · have hl := h.tasks_eq ht (hkey.names hn)
      rw [h.tasks_eq hu hn', List.singleton_inj] at hl
      rw [hl, hh, hs] at hne
      exact hne rfl
    · obtain ⟨c, hc, hw⟩ := h.origin t ht (by rw [hh]; exact Option.some_ne_none _)
      have hpc : c.payload = b.payload := (hap c hc a ha
        (Option.some.inj (hw.hash.symm.trans hh))).trans hp
      have hck : c.request.taskKey.getD "" = k := by
        have hk' : c.payload.taskKey = b.payload.taskKey := by rw [hpc]
        rw [CreateCall.payload, CreateCall.payload] at hk'
        dsimp only at hk'
        rw [hk', hk]
        rfl
      have hcs : c.request.taskKey = some k := by
        rcases hreq : c.request.taskKey with _ | k' <;> rw [hreq] at hck
        · exact absurd hck.symm hkne
        · rw [← hck]
          rfl
      have htk := hw.key k hcs
      have heq := h.cards.card t ht u hu (by
        simp [GroupWorkflowTask.sameCard, hco, huk, htk, (hkey.names hn).conversationId])
      exact hun (heq ▸ hkey.names hn)

end

theorem found_of_tasks (h : call.tasks db = [t]) :
    call.found db = some (t.id, t.idempotencyPayloadHash) := by
  unfold CreateCall.found findAgentIdempotentTask
  rw [← List.head?_filter]
  have hl : db.tasks.rows.filter (fun u => u.conversationId = call.conversationId
      && u.createdBy = some call.actorId
      && u.idempotencyKey = some call.request.idempotencyKey) = [t] := h
  rw [hl]
  rfl

theorem settles_insert (hi : w.calls[i]? = some call) (ht : call.tasks w.db = [t])
    {taskKey : String} (hst : call.stage = .insert attempts taskKey)
    (h : w.step prims (.call i x .none) = some w') :
    w' = w.setCall i (call.goto (.relookup attempts)) := by
  have hm : t ∈ call.tasks w.db := by
    rw [ht]
    exact mem_singleton_self t
  obtain ⟨hts, hn⟩ := CreateCall.mem_tasks.1 hm
  have hta : w.db.idempotencyTaken (call.task prims x taskKey) := by
    rw [idempotencyTaken_eq, and_eq_true]
    refine ⟨rfl, any_eq_true.2 ⟨t, hts, ?_⟩⟩
    have hr : call.Names (call.task prims x taskKey) := ⟨rfl, rfl, rfl⟩
    exact hr.sameRequest hn
  have hins : w.db.insertTask (call.task prims x taskKey) = none := by
    simp [insertTask, hta]
  simp only [step, hi, Option.bind_some, hst, if_true, CreateCall.statement] at h
  obtain ⟨call', hc', rfl⟩ := map_eq_some_iff.1 h
  simp [CreateCall.insertStatement, hta, hins] at hc'
  split_ifs at hc' <;> cases hc' <;> rfl

theorem settles (hi : w.calls[i]? = some call) (ht : call.tasks w.db = [t]) :
    w.Settles prims i call t where
  lookup hst x := by
    have hf := found_of_tasks ht
    simp only [step, hi, Option.bind_some]
    rcases hs : call.stage <;> rw [hs] at hst <;> cases hst <;>
      simp only [CreateCall.statement, hs, hf, CreateCall.answer, Option.map_some, if_true]
  insert attempts taskKey hst x w' h := settles_insert hi ht hst h
  existing taskId hst x := by
    have hlt := (getElem?_eq_some_iff.1 hi).1
    simp only [step, hi, Option.bind_some, hst]
    exact ⟨_, rfl, _, List.getElem?_set_self hlt, rfl⟩
  snapshot taskId hst hid x ha := by
    have hm : t ∈ call.tasks w.db := by
      rw [ht]
      exact mem_singleton_self t
    have hr := lookup_of_mem (CreateCall.mem_tasks.1 hm).1
    subst hid
    simp [step, hi, hst, CreateCall.statement, hr, ha]

theorem step_keeps (h : w.step prims (.call i x fault) = some w') : w.Keeps i w' := by
  obtain ⟨call, hi, hs⟩ := step_call h
  have hlt := (getElem?_eq_some_iff.1 hi).1
  have hset : ∀ call', w.Keeps i (w.setCall i call') := fun call' =>
    ⟨fun t ht => ht, fun _ _ _ => ⟨rfl, rfl, rfl⟩, fun _ _ _ => rfl⟩
  cases hs with
  | created task owners event db stage write next =>
    subst next
    by_cases hf : fault = .rolledBack
    · subst hf
      exact hset _
    · rw [commit_of_ne hf]
      refine ⟨fun t ht => (mem_insert? (write_eq_some write).1).2 (.inl ht),
        fun c hc hd => ?_, fun c hc hcom => ?_⟩
      · cases hi.symm.trans hc
        rw [stage] at hd
        cases hd
      · rw [List.getElem?_set_self hlt] at hc
        cases hc
        simp [CreateCall.committing, hf] at hcom
  | existing taskId stage next =>
    subst next
    by_cases hf : fault = .rolledBack
    · subst hf
      exact hset _
    · rw [commit_of_ne hf]
      have hsa := view_same call w.db
      refine ⟨fun t ht => hsa.tasks ▸ ht,
        fun _ _ _ => ⟨hsa.tasks, hsa.participants, hsa.events⟩, fun c hc hcom => ?_⟩
      rw [List.getElem?_set_self hlt] at hc
      cases hc
      simp [CreateCall.committing, hf] at hcom
  | moved call' fault statement next =>
    subst next
    exact hset call'
  | failed next =>
    subst next
    exact hset _

/-- In every run in which no insert under an explicit key loses its race, one key has one task and
one creation, every call with its payload gets that task, no call with its payload gets a conflict,
and no call changes a stored task. -/
theorem creation_idempotent
    (h : Steps (restrict (step prims) fun w action => w.unraced action) {} w) : w.Answered prims
      ∧ (∀ i call t, w.calls[i]? = some call → call.tasks w.db = [t] → w.Settles prims i call t)
      ∧ ∀ i x fault w', w.step prims (.call i x fault) = some w' → w.Keeps i w' := by
  have hinv : w.Inv prims := h.keeps (·.step) inv_init
  exact ⟨hinv.answered, fun i call t hi ht => settles hi ht, fun i x fault w' => step_keeps⟩

def titlePrims : TaskPrims where
  isAlphanumeric := Char.isAlphanum
  sha256Hex j := match j.field? "title" with
    | some (.str title) => title
    | _ => ""

def botInput (id : String) : CreateInput where
  roster :=
    { principals := [⟨"bot", "acme", "Bot", .agent, false, none⟩]
      conversations := [⟨"room", "acme", .group, 1⟩]
      members := [⟨"room", "bot", 0, 0, none, none⟩] }
  id

def statements (i : ℕ) (ids : List String) : List CreateAction :=
  ids.map fun id => .call i (botInput id) .none

def beginAs (title : String) (taskKey : Option String) : CreateAction :=
  .begin "bot" "room" { taskKey, title, idempotencyKey := "k" }

def answers (w : CreateWorld) : List (Option (TaskResult Creation)) :=
  w.calls.map fun call => match call.stage with
    | .returned answer => some answer
    | _ => none

/-- The second call has found no task, and gets the one the first has created since; the third has
another payload. -/
def overlapping : List CreateAction :=
  [beginAs "Reply" none, beginAs "Reply" none, beginAs "Review" none]
    ++ statements 1 ["", "", ""] ++ statements 0 ["", "", "", "", "", "t0", "", "e0", ""]
    ++ statements 1 ["", "", "t1", "", "", ""] ++ statements 2 ["", ""]

theorem creation_idempotent_overlapping :
    ∃ w, Steps (restrict (step titlePrims) fun w action => w.unraced action) {} w
      ∧ w.answers = [some (.ok ⟨true, "t0"⟩), some (.ok ⟨false, "t0"⟩),
        some (.error idempotencyKeyReused)] ∧ w.Answered titlePrims := by
  refine exists_run_and overlapping ?_ fun _ hw _ => (creation_idempotent hw).1
  decide +kernel

/-- Both calls have found no task when the first puts its row into the indexes. -/
def racing : List CreateAction :=
  [beginAs "Reply" (some "REPLY"), beginAs "Reply" (some "REPLY")]
    ++ statements 0 ["", "", "", ""] ++ statements 1 ["", "", "", ""]
    ++ statements 0 ["t0", "", "e0", ""] ++ statements 1 ["t1"]

/-- Two calls with one key and one payload: the first creates the task, the second gets a
conflict. -/
theorem explicit_key_race : ∃ w, Steps (step titlePrims) {} w
      ∧ w.answers = [some (.ok ⟨true, "t0"⟩),
        some (.error (.conflict "channel task key already exists"))]
      ∧ w.calls.map (fun call => (call.actorId, call.conversationId, call.request)) =
        List.replicate 2 ("bot", "room",
          { taskKey := some "REPLY", title := "Reply", idempotencyKey := "k" })
      ∧ (w.db.tasksOf "room" "bot" "k").map (fun t => (t.id, t.idempotencyPayloadHash)) =
        [("t0", some "Reply")] := by
  refine exists_run racing ?_
  decide +kernel

end CreateWorld

end Choruz
