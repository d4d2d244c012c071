import Choruz.Proofs.Fencing
import Choruz.RouteEvent

/-!
# Routing is idempotent and its decisions are final

A decision is written once for a message and an agent and read ever after, and a command is
inserted only under a decision that says trigger, once.  So whatever runs there are on an event,
the first decision stands (`RouteInv.first`), and a run that has gone through its members leaves a
command for each of them whose decision says trigger (`RouteRun.Sound`).
-/

namespace Choruz

variable {db db' : Db} {now : Timestamp} {answer : Answer}

open Relational

def Db.Commanded (db : Db) (messageId agentId : String) : Prop :=
  ∃ c ∈ db.agentCommands, c.messageId = messageId ∧ c.agentId = agentId

instance (db : Db) (messageId agentId : String) : Decidable (db.Commanded messageId agentId) :=
  inferInstanceAs (Decidable (∃ c ∈ db.agentCommands, _))

def Db.OneCommand (db : Db) (messageId : String) : Prop :=
  ∀ c ∈ db.agentCommands, ∀ c' ∈ db.agentCommands, c.messageId = messageId →
    c'.messageId = messageId → c.agentId = c'.agentId → c = c'

structure Db.SameCommands (db db' : Db) : Prop where
  row_of : ∀ c' ∈ db'.agentCommands, ∃ c ∈ db.agentCommands, c'.commandId = c.commandId ∧
    c'.messageId = c.messageId ∧ c'.agentId = c.agentId
  row_to : ∀ c ∈ db.agentCommands, ∃ c' ∈ db'.agentCommands, c'.messageId = c.messageId ∧
    c'.agentId = c.agentId

theorem Db.SameCommands.of_eq (h : db'.agentCommands = db.agentCommands) : db.SameCommands db' := by
  refine ⟨fun c hc => ⟨c, h ▸ hc, rfl, rfl, rfl⟩, fun c hc => ⟨c, ?_, rfl, rfl⟩⟩
  rw [h]
  exact hc

theorem Db.SameCommands.commanded (h : db.SameCommands db') {mid agentId : String} :
    db'.Commanded mid agentId ↔ db.Commanded mid agentId := by
  constructor
  · rintro ⟨c', hc', rfl, rfl⟩
    obtain ⟨c, hc, -, hm, ha⟩ := h.row_of c' hc'
    exact ⟨c, hc, hm.symm, ha.symm⟩
  · rintro ⟨c, hc, rfl, rfl⟩
    obtain ⟨c', hc', hm, ha⟩ := h.row_to c hc
    exact ⟨c', hc', hm, ha⟩

theorem Db.SameCommands.oneCommand (h : db.SameCommands db') {messageId : String}
    (ho : db.OneCommand messageId) : db'.OneCommand messageId := by
  intro c' hc' d' hd' hcm hdm ha
  obtain ⟨c, hc, hcid, hcm', hca⟩ := h.row_of c' hc'
  obtain ⟨d, hd, hdid, hdm', hda⟩ := h.row_of d' hd'
  have hcd : c = d := ho c hc d hd (hcm' ▸ hcm) (hdm' ▸ hdm) (by rw [← hca, ← hda, ha])
  exact eq_of_key_eq hc' hd' (by rw [hcid, hdid, hcd])

theorem sameCommands_exec {call : Call} (h : call.exec db = .ok (answer, db'))
    (hi : call.txn.insertsCommand = false) : db.SameCommands db' := by
  have he := exec_effect h
  constructor
  · intro c' hc'
    rcases he.row_of c' hc' with hn | ⟨c, hc, hs⟩
    · obtain ⟨input, ht, -⟩ := hn.txn
      rw [ht] at hi
      cases hi
    · exact ⟨c, hc, hs.commandId_eq, hs.messageId_eq, hs.agentId_eq⟩
  · intro c hc
    obtain ⟨c', hc', hs⟩ := he.row_to c hc
    exact ⟨c', hc', hs.messageId_eq, hs.agentId_eq⟩

theorem insertCommand_cases {input : InsertCommand} (h : db.insertCommand now input = .ok db') :
    (db' = db ∧ db.Commanded input.messageId input.agentId) ∨
      (¬ db.Commanded input.messageId input.agentId ∧ ∃ c commands,
        db.agentCommands.insert? c = some commands ∧ c.messageId = input.messageId ∧
          c.agentId = input.agentId ∧ db' = { db with agentCommands := commands }) := by
  unfold Db.insertCommand at h
  split at h
  next c hf =>
    have hc : c.messageId = input.messageId ∧ c.agentId = input.agentId := by
      simpa using find?_some hf
    cases h
    exact .inl ⟨rfl, c, mem_of_find?_eq_some hf, hc⟩
  next hf =>
    split at h
    · cases h
    obtain ⟨commands, hi, rfl⟩ := insertCommandRow_eq_ok h
    refine .inr ⟨?_, _, commands, hi, rfl, rfl, rfl⟩
    rintro ⟨c, hc, hm, ha⟩
    simpa [hm, ha] using find?_eq_none.1 hf c hc

namespace Router

variable {prims : Primitives} {db db' : RouterDb} {run run' : RouteRun}

variable {d : RouteDecision} {op : RouteOp} {proposed : List RouteDecision}
  {messageId agentId : String} {input : RoutingInput} {w : RouteWorld} {action : RouteAction}
  {prompt : String} {w' : RouteWorld} {fault : Fault} {r : RouteRun} {i : ℕ}

/-- What a step of a run writes to the decisions and the commands, with the decision it proposes on
the way. -/
inductive RouteRun.Writes (prims : Primitives) (run : RouteRun) (db : RouterDb) :
    RouterDb → List RouteDecision → Prop where
  | neither {next} (hcmd : next.db.agentCommands = db.db.agentCommands)
    (hdec : next.routeDecisions = db.routeDecisions) : Writes prims run db next []
  | found {p} (hstage : run.stage = .decision p)
    (hsome : (db.routeDecisions.find?
      (·.isFor run.event.eventId p.member.principalId)).isSome) :
    Writes prims run db db [proposal prims run.event p]
  | decided {p} (hstage : run.stage = .decision p)
    (hnone : db.routeDecisions.find? (·.isFor run.event.eventId p.member.principalId) = none) :
    Writes prims run db
      { db with routeDecisions := db.routeDecisions ++ [proposal prims run.event p] }
      [proposal prims run.event p]
  | commanded {p d c commands} (hstage : run.stage = .command p d)
    (hnew : ¬ db.db.Commanded run.event.eventId p.member.principalId)
    (hins : db.db.agentCommands.insert? c = some commands)
    (hmsg : c.messageId = run.event.eventId) (hagent : c.agentId = p.member.principalId) :
    Writes prims run db { db with db := { db.db with agentCommands := commands } } []

/-- Where a step of a run leads, with what it has found in the database it leaves. -/
inductive RouteRun.Moves (run : RouteRun) (db' : RouterDb) : RouteOp → RouteRun → Prop where
  | failed {op members e} :
    Moves run db' op { run with agentMembers := members, stage := .returned (.error e) }
  | planned {answer input plan} (hstage : run.stage = .start) :
    Moves run db' (.read answer)
      { run with
        agentMembers := input.agentMembers run.event.conversationId
        stage := nextMember run.event input plan (input.agentMembers run.event.conversationId) [] }
  | visible {now prompt fault p} (hstage : run.stage = .visibility p) :
    Moves run db' (.write now prompt fault) { run with stage := .decision p }
  | triggered {now prompt fault p d} (hstage : run.stage = .decision p)
    (hd : d ∈ db'.routeDecisions)
    (hfor : d.isFor run.event.eventId p.member.principalId)
    (htrig : d.decision = RouteOutcome.triggered.asStr) :
    Moves run db' (.write now prompt fault) { run with stage := .session p d }
  | skipped {now prompt fault p d} (hstage : run.stage = .decision p)
    (hd : d ∈ db'.routeDecisions)
    (hfor : d.isFor run.event.eventId p.member.principalId)
    (hskip : d.decision ≠ RouteOutcome.triggered.asStr) :
    Moves run db' (.write now prompt fault)
      { run with stage := nextMember run.event p.input p.plan p.rest (p.outcomes ++ [.skipped]) }
  | upserted {now prompt fault p d} (hstage : run.stage = .session p d) :
    Moves run db' (.write now prompt fault) { run with stage := .command p d }
  | commanded {now prompt fault p d} (hstage : run.stage = .command p d)
    (hc : db'.db.Commanded run.event.eventId p.member.principalId) :
    Moves run db' (.write now prompt fault)
      { run with stage := nextMember run.event p.input p.plan p.rest (p.outcomes ++ [.triggered]) }
  | finished {outcomes} (hstage : run.stage = .finishing outcomes) :
    Moves run db' .finish { run with stage := .returned (.ok outcomes) }

theorem writeDecision_cases {persisted : RouteDecision}
    (h : db.writeDecision d = .ok (persisted, db')) :
    (db.routeDecisions.find? (·.isFor d.messageId d.agentId) = some persisted ∧ db' = db) ∨
      (db.routeDecisions.find? (·.isFor d.messageId d.agentId) = none ∧ persisted = d ∧
        db' = { db with routeDecisions := db.routeDecisions ++ [d] }) := by
  unfold RouterDb.writeDecision at h
  split at h
  next stored hf =>
    cases h
    exact .inl ⟨hf, rfl⟩
  next hf =>
    split_ifs at h
    cases h
    exact .inr ⟨hf, rfl, rfl⟩

theorem withFault_cases {α : Type} {r : RouterResult (α × RouterDb)}
    {seen : RouterResult α} (h : withFault fault db r = (db', seen)) :
    (∃ a, r = .ok (a, db') ∧ fault ≠ .rolledBack ∧ (seen = .ok a ∨ ∃ e, seen = .error e)) ∨
      (db' = db ∧ (∃ e, seen = .error e) ∧ (fault = .rolledBack ∨ ∃ e, r = .error e)) := by
  rcases r with e | ⟨a, next⟩ <;> cases fault <;> cases h
  · exact .inr ⟨rfl, ⟨_, rfl⟩, .inr ⟨_, rfl⟩⟩
  · exact .inr ⟨rfl, ⟨_, rfl⟩, .inr ⟨_, rfl⟩⟩
  · exact .inr ⟨rfl, ⟨_, rfl⟩, .inr ⟨_, rfl⟩⟩
  · exact .inl ⟨a, rfl, by simp, .inl rfl⟩
  · exact .inr ⟨rfl, ⟨_, rfl⟩, .inl rfl⟩
  · exact .inl ⟨a, rfl, by simp, .inr ⟨_, rfl⟩⟩

theorem RouteRun.writes_of_write (fault : Fault) {stage : Stage}
    (h : run.write prims db now prompt = some (.ok (stage, db'))) (hflt : fault ≠ .rolledBack) :
    run.Writes prims db db' (run.proposes prims db (.write now prompt fault)) ∧
      run.Moves db' (.write now prompt fault) { run with stage } := by
  unfold RouteRun.write at h
  split at h
  next p hs =>
    cases h
    have hp : run.proposes prims db (.write now prompt fault) = [] := by simp [proposes, hs]
    rw [hp]
    refine ⟨.neither ?_ ?_, .visible hs⟩
    all_goals
      unfold RouterDb.writeVisibility
      split <;> rfl
  next p hs =>
    split at h
    · cases h
    rename_i persisted next hw
    have hp : run.proposes prims db (.write now prompt fault) = [proposal prims run.event p] := by
      simp [proposes, hs, hw, hflt]
    rw [hp]
    have hk : (proposal prims run.event p).messageId = run.event.eventId ∧
        (proposal prims run.event p).agentId = p.member.principalId := ⟨rfl, rfl⟩
    have hmem : next = db' := by
      split_ifs at h <;> cases h <;> rfl
    subst hmem
    have hd : persisted ∈ next.routeDecisions ∧
        persisted.isFor run.event.eventId p.member.principalId := by
      rcases writeDecision_cases hw with ⟨hf, rfl⟩ | ⟨-, rfl, rfl⟩
      · exact ⟨mem_of_find?_eq_some hf, find?_some hf⟩
      · exact ⟨by simp, by simp [RouteDecision.isFor, hk]⟩
    constructor
    · rcases writeDecision_cases hw with ⟨hf, rfl⟩ | ⟨hf, -, rfl⟩
      · exact .found hs (by rw [hk.1, hk.2] at hf; rw [hf]; rfl)
      · exact .decided hs hf
    · split_ifs at h with ht <;> cases h
      · exact .triggered hs hd.1 hd.2 ht
      · exact .skipped hs hd.1 hd.2 ht
  next p d hs =>
    cases h
    have hp : run.proposes prims db (.write now prompt fault) = [] := by simp [proposes, hs]
    rw [hp]
    refine ⟨.neither ?_ rfl, .upserted hs⟩
    simp [RouterDb.upsertSession, Db.upsertSession]
    split <;> rfl
  next p d hs =>
    have hp : run.proposes prims db (.write now prompt fault) = [] := by simp [proposes, hs]
    rw [hp]
    split at h <;> cases h
    rename_i next hins
    unfold RouterDb.insertCommand at hins
    split at hins <;> cases hins
    rename_i hi'
    rcases insertCommand_cases hi' with ⟨rfl, hc⟩ | ⟨hn, c, commands, hi, hm, ha, rfl⟩
    · exact ⟨.neither rfl rfl, .commanded hs hc⟩
    · refine ⟨.commanded hs hn hi hm ha, .commanded hs ⟨c, ?_, hm, ha⟩⟩
      exact (mem_insert? hi).2 (.inr rfl)
  · cases h

theorem RouteRun.proposes_of_lost
    {r : RouterResult (Stage × RouterDb)} (h : run.write prims db now prompt = some r)
    (hl : fault = .rolledBack ∨ ∃ e, r = .error e) :
    run.proposes prims db (.write now prompt fault) = [] := by
  simp [proposes]
  split
  next p hs =>
    rcases hl with rfl | ⟨e, rfl⟩
    · simp
    have he : ∃ e, db.writeDecision (proposal prims run.event p) = .error e := by
      simp [write, hs] at h
      split at h
      · exact ⟨_, by assumption⟩
      · split_ifs at h
    obtain ⟨e, he⟩ := he
    simp [he]
  · rfl

theorem RouteRun.step_cases (h : run.step prims db op = some (db', run')) :
    run.Writes prims db db' (run.proposes prims db op) ∧ run.Moves db' op run' := by
  cases op with simp [step] at h
  | read answer =>
    split at h
    next hs =>
      split at h
      · cases h
        exact ⟨.neither rfl rfl, .failed⟩
      · split at h <;> cases h
        · exact ⟨.neither rfl rfl, .failed⟩
        · exact ⟨.neither rfl rfl, .planned hs⟩
    · cases h
  | write now prompt fault =>
    obtain ⟨r, hwt, hr⟩ := h
    rcases hf : withFault fault db r with ⟨left, seen⟩
    rw [hf] at hr
    rcases withFault_cases hf with ⟨stage, rfl, hflt, hse⟩ | ⟨hl, ⟨e, rfl⟩, hlo⟩
    · obtain ⟨hw, hm⟩ := writes_of_write fault hwt hflt
      rcases hse with rfl | ⟨e, rfl⟩ <;> cases hr
      · exact ⟨hw, hm⟩
      · exact ⟨hw, .failed⟩
    · cases hr
      rw [proposes_of_lost hwt hlo, hl]
      exact ⟨.neither rfl rfl, .failed⟩
  | finish =>
    split at h <;> cases h
    next hs => exact ⟨.neither rfl rfl, .finished hs⟩

/-- Decisions stay and are for new messages and agents, and commands stay. -/
structure RouterDb.Grows (db db' : RouterDb) : Prop where
  decisions : ∀ d ∈ db.routeDecisions, d ∈ db'.routeDecisions
  fresh : ∀ d' ∈ db'.routeDecisions, d' ∈ db.routeDecisions ∨
    ∀ d ∈ db.routeDecisions, d.isFor d'.messageId d'.agentId = false
  commands : ∀ messageId agentId, db.db.Commanded messageId agentId →
    db'.db.Commanded messageId agentId

theorem RouteRun.Writes.grows (h : run.Writes prims db db' proposed) : db.Grows db' := by
  cases h with
  | neither hcmd hdec =>
    refine ⟨fun d hd => hdec ▸ hd, fun d hd => .inl (hdec ▸ hd), fun m a hc => ?_⟩
    exact (Db.SameCommands.of_eq hcmd).commanded.2 hc
  | found => exact ⟨fun d hd => hd, fun d hd => .inl hd, fun m a hc => hc⟩
  | decided hs hn =>
    refine ⟨fun d hd => mem_append_left _ hd, fun d hd => ?_, fun m a hc => hc⟩
    rcases mem_snoc.1 hd with hd | rfl
    · exact .inl hd
    · exact .inr fun d hd => eq_false_iff.2 (find?_eq_none.1 hn d hd)
  | commanded hs hnew hi hmsg hag =>
    refine ⟨fun d hd => hd, fun d hd => .inl hd, fun m a hc => ?_⟩
    obtain ⟨c, hc, hm, ha⟩ := hc
    exact ⟨c, (mem_insert? hi).2 (.inl hc), hm, ha⟩

theorem isFor_iff : d.isFor messageId agentId ↔ d.messageId = messageId ∧ d.agentId = agentId := by
  simp [RouteDecision.isFor]

/-- The agent is decided on for the message, and has its command if the decision says trigger. -/
def RouterDb.Done (db : RouterDb) (messageId agentId : String) : Prop :=
  (∃ d ∈ db.routeDecisions, d.isFor messageId agentId) ∧
    ∀ d ∈ db.routeDecisions, d.isFor messageId agentId →
      d.decision = RouteOutcome.triggered.asStr → db.db.Commanded messageId agentId

theorem RouterDb.Done.grows (h : db.Done messageId agentId) (hg : db.Grows db') :
    db'.Done messageId agentId := by
  obtain ⟨⟨d, hd, hf⟩, hall⟩ := h
  refine ⟨⟨d, hg.decisions d hd, hf⟩, fun d' hd' hf' ht => ?_⟩
  rcases hg.fresh d' hd' with ho | hn
  · exact hg.commands _ _ (hall d' ho hf' ht)
  · obtain ⟨hm, ha⟩ := isFor_iff.1 hf'
    exact absurd hf (by rw [← hm, ← ha, hn d hd]; simp)

/-- The members a run has read are done, but for those still ahead and the sender. -/
def RouteRun.AllDone (db : RouterDb) (run : RouteRun) (ahead : List ConversationMember) : Prop :=
  ∀ m ∈ run.agentMembers, m.principalId ≠ run.event.senderId →
    m ∈ ahead ∨ db.Done run.event.eventId m.principalId

/-- The decision under which a run goes on to a command. -/
structure RouterDb.Triggers (db : RouterDb) (messageId agentId : String) (d : RouteDecision) :
    Prop where
  stored : d ∈ db.routeDecisions
  isFor : d.isFor messageId agentId
  triggers : d.decision = RouteOutcome.triggered.asStr

/-- What a run has achieved by its stage. -/
def RouteRun.Sound (db : RouterDb) (run : RouteRun) : Prop :=
  match run.stage with
  | .start | .returned (.error _) => True
  | .visibility p | .decision p =>
    p.member.principalId ≠ run.event.senderId ∧ run.AllDone db (p.member :: p.rest)
  | .session p d | .command p d =>
    p.member.principalId ≠ run.event.senderId ∧ run.AllDone db (p.member :: p.rest) ∧
      db.Triggers run.event.eventId p.member.principalId d
  | .finishing _ | .returned (.ok _) => run.AllDone db []

theorem RouteRun.AllDone.grows {ahead : List ConversationMember} (h : run.AllDone db ahead)
    (hg : db.Grows db') : run.AllDone db' ahead :=
  fun m hm hne => (h m hm hne).imp_right fun hd => hd.grows hg

theorem RouterDb.Triggers.grows (h : db.Triggers messageId agentId d) (hg : db.Grows db') :
    db'.Triggers messageId agentId d := ⟨hg.decisions d h.stored, h.isFor, h.triggers⟩

theorem RouteRun.Sound.grows (h : run.Sound db) (hg : db.Grows db') : run.Sound db' := by
  unfold Sound at h ⊢
  split at h
  · trivial
  · trivial
  · exact ⟨h.1, h.2.grows hg⟩
  · exact ⟨h.1, h.2.grows hg⟩
  · exact ⟨h.1, h.2.1.grows hg, h.2.2.grows hg⟩
  · exact ⟨h.1, h.2.1.grows hg, h.2.2.grows hg⟩
  · exact h.grows hg
  · exact h.grows hg

theorem RouteRun.AllDone.tail {m : ConversationMember} {rest : List ConversationMember}
    (h : run.AllDone db (m :: rest))
    (hm : m.principalId ≠ run.event.senderId → db.Done run.event.eventId m.principalId) :
    run.AllDone db rest := by
  intro m' hm' hne
  rcases h m' hm' hne with ha | hd
  · rcases mem_cons.1 ha with rfl | hr
    · exact .inr (hm hne)
    · exact .inl hr
  · exact .inr hd

/-- The loop has the members that are not done, and the sender, ahead of it. -/
theorem RouteRun.sound_nextMember (run : RouteRun) {plan : Plan} :
    ∀ {ahead : List ConversationMember} {outcomes : List RouteOutcome}, run.AllDone db ahead →
      RouteRun.Sound db { run with stage := nextMember run.event input plan ahead outcomes }
  | [], _, h => h
  | m :: rest, outcomes, h => by
    unfold nextMember
    split_ifs with hs
    · exact sound_nextMember run (h.tail fun hne => absurd hs hne)
    · exact ⟨hs, h⟩

def RouterDb.OneDecision (db : RouterDb) (messageId : String) : Prop :=
  ∀ d ∈ db.routeDecisions, ∀ d' ∈ db.routeDecisions, d.messageId = messageId →
    d'.messageId = messageId → d.agentId = d'.agentId → d = d'

theorem RouteRun.Sound.step (h : run.Sound db) (hw : run.Writes prims db db' proposed)
    (hm : run.Moves db' op run') (ho : db'.OneDecision run.event.eventId) : run'.Sound db' := by
  have h' := h.grows hw.grows
  cases hm with
  | failed => trivial
  | @planned _ input _ hs =>
    exact sound_nextMember { run with agentMembers := input.agentMembers run.event.conversationId }
      fun m hm _ => .inl hm
  | visible hs | upserted hs | finished hs =>
    simp [Sound, hs] at h'
    exact h'
  | triggered hs hd hf ht =>
    simp [Sound, hs] at h'
    exact ⟨h'.1, h'.2, hd, hf, ht⟩
  | skipped hs hd hf hsk =>
    simp [Sound, hs] at h'
    refine sound_nextMember run (h'.2.tail fun _ => ⟨⟨_, hd, hf⟩, fun d' hd' hf' ht => ?_⟩)
    obtain ⟨hmsg, ha⟩ := isFor_iff.1 hf
    obtain ⟨hm', ha'⟩ := isFor_iff.1 hf'
    rw [ho _ hd d' hd' hmsg hm' (ha.trans ha'.symm)] at hsk
    exact absurd ht hsk
  | commanded hs hc =>
    simp [Sound, hs] at h'
    obtain ⟨-, hdo, ht⟩ := h'
    exact sound_nextMember run (hdo.tail fun _ => ⟨⟨_, ht.stored, ht.isFor⟩, fun _ _ _ _ => hc⟩)

theorem RouteRun.Moves.event_eq (h : run.Moves db' op run') : run'.event = run.event := by
  cases h <;> rfl

/-- What holds of a message whatever runs there are on it, if it had no decision and no command
before the first of them. -/
structure RouteInv (messageId : String) (w : RouteWorld) : Prop where
  oneEvent : ∀ r ∈ w.runs, ∀ r' ∈ w.runs, r.event.eventId = r'.event.eventId → r.event = r'.event
  oneCommand : w.db.db.OneCommand messageId
  oneDecision : w.db.OneDecision messageId
  first : ∀ agentId, w.db.routeDecisions.find? (·.isFor messageId agentId) =
    w.proposals.find? (·.isFor messageId agentId)
  decided : ∀ d ∈ w.db.routeDecisions, d.messageId = messageId →
    ∃ r ∈ w.runs, r.event.eventId = messageId ∧ d.agentId ≠ r.event.senderId
  commanded : ∀ agentId, w.db.db.Commanded messageId agentId →
    ∃ d, w.db.Triggers messageId agentId d
  sound : ∀ r ∈ w.runs, r.event.eventId = messageId → r.Sound w.db

theorem mem_runs_set {runs : List RouteRun} (hi : runs[i]? = some run)
    (he : run'.event = run.event) (hr : r ∈ runs) :
    ∃ r' ∈ runs.set i run', r'.event = r.event := by
  obtain ⟨j, hj⟩ := List.mem_iff_getElem?.1 hr
  rcases eq_or_ne i j with rfl | hij
  · have hl := (getElem?_eq_some_iff.1 hi).1
    have hrun : run = r := by simpa [hi] using hj
    exact ⟨run', mem_of_getElem? (List.getElem?_set_self hl), by rw [he, hrun]⟩
  · exact ⟨r, mem_of_getElem? ((List.getElem?_set_ne hij).trans hj), rfl⟩

theorem RouteRun.Writes.oneDecision (h : run.Writes prims db db' proposed)
    (ho : db.OneDecision messageId) : db'.OneDecision messageId := by
  cases h with
  | neither _ hdec =>
    unfold RouterDb.OneDecision
    rw [hdec]
    exact ho
  | found | commanded => exact ho
  | decided hs hn =>
    have hnew : ∀ d ∈ db.routeDecisions, d.messageId = run.event.eventId →
        d.agentId ≠ _ := fun d hd hm ha =>
      find?_eq_none.1 hn d hd (isFor_iff.2 ⟨hm, ha⟩)
    intro d hd d' hd' hm hm' ha
    rcases mem_append.1 hd with hd | hd <;> rcases mem_append.1 hd' with hd' | hd'
    · exact ho d hd d' hd' hm hm' ha
    · rw [mem_singleton] at hd'
      subst hd'
      exact absurd ha (hnew d hd (hm.trans hm'.symm))
    · rw [mem_singleton] at hd
      subst hd
      exact absurd ha.symm (hnew d' hd' (hm'.trans hm.symm))
    · rw [mem_singleton.1 hd, mem_singleton.1 hd']

section

variable (h : run.Writes prims db db' proposed)
include h

theorem RouteRun.Writes.first {proposals : List RouteDecision}
    (hf : ∀ aid, db.routeDecisions.find? (·.isFor messageId aid) =
      proposals.find? (·.isFor messageId aid)) (aid : String) :
    db'.routeDecisions.find? (·.isFor messageId aid) =
      (proposals ++ proposed).find? (·.isFor messageId aid) := by
  cases h with
  | neither _ hdec =>
    rw [hdec, append_nil]
    exact hf aid
  | commanded =>
    rw [append_nil]
    exact hf aid
  | decided => rw [List.find?_append, List.find?_append, hf aid]
  | @found p hst hs =>
    rw [List.find?_append, ← hf aid]
    by_cases hk : run.event.eventId = messageId ∧ p.member.principalId = aid
    · obtain ⟨rfl, rfl⟩ := hk
      obtain ⟨d, hd⟩ := isSome_iff_exists.1 hs
      simp [hd]
    · have hn : (proposal prims run.event p).isFor messageId aid = false := by
        rw [eq_false_iff]
        intro hfor
        exact hk (isFor_iff.1 hfor)
      simp [hn]

theorem RouteRun.Writes.oneCommand
    (ho : db.db.OneCommand messageId) : db'.db.OneCommand messageId := by
  cases h with
  | neither hcmd => exact (Db.SameCommands.of_eq hcmd).oneCommand ho
  | found | decided => exact ho
  | commanded hs hn hi hmsg hag =>
    intro c hc c' hc' hm hm' ha
    rcases (mem_insert? hi).1 hc with hc | rfl <;> rcases (mem_insert? hi).1 hc' with hc' | rfl
    · exact ho c hc c' hc' hm hm' ha
    · exact absurd ⟨c, hc, hm.trans (hm'.symm.trans hmsg), ha.trans hag⟩ hn
    · exact absurd ⟨c', hc', hm'.trans (hm.symm.trans hmsg), ha.symm.trans hag⟩ hn
    · rfl

theorem RouteRun.Writes.decision_cases (hd : d ∈ db'.routeDecisions) :
    d ∈ db.routeDecisions ∨ d.messageId = run.event.eventId ∧ ∃ p, run.stage = .decision p ∧
      d.agentId = p.member.principalId := by
  cases h with
  | neither _ hdec => exact .inl (hdec ▸ hd)
  | found | commanded => exact .inl hd
  | @decided p hs =>
    rcases mem_snoc.1 hd with hd | rfl
    · exact .inl hd
    · exact .inr ⟨rfl, p, hs, rfl⟩

theorem RouteRun.Writes.commanded_cases (hc : db'.db.Commanded messageId agentId) :
    db.db.Commanded messageId agentId ∨ run.event.eventId = messageId ∧
      ∃ p d, run.stage = .command p d ∧ p.member.principalId = agentId := by
  cases h with
  | neither hcmd => exact .inl ((Db.SameCommands.of_eq hcmd).commanded.1 hc)
  | found | decided => exact .inl hc
  | @commanded p d _ _ hs hn hi hm ha =>
    obtain ⟨c, hc, rfl, rfl⟩ := hc
    rcases (mem_insert? hi).1 hc with hc | rfl
    · exact .inl ⟨c, hc, rfl, rfl⟩
    · exact .inr ⟨hm.symm, p, d, hs, ha.symm⟩

end

theorem RouteInv.advance (h : RouteInv messageId w) (hi : w.runs[i]? = some run)
    (hsp : run.step prims w.db op = some (db', run')) : RouteInv messageId {
        db := db'
        runs := w.runs.set i run'
        proposals := w.proposals ++ run.proposes prims w.db op } := by
  obtain ⟨hw, hm⟩ := RouteRun.step_cases hsp
  have hrun := mem_of_getElem? hi
  have hev := hm.event_eq
  have hb : ∀ r' ∈ w.runs.set i run', ∃ r ∈ w.runs, r.event = r'.event :=
    forall_mem_set (fun r' hr' => ⟨r', hr', rfl⟩) ⟨run, hrun, hev.symm⟩
  refine ⟨?_, hw.oneCommand h.oneCommand, hw.oneDecision h.oneDecision, hw.first h.first, ?_, ?_, ?_⟩
  · intro r hr r' hr' hid
    obtain ⟨s, hs, hse⟩ := hb r hr
    obtain ⟨s', hs', hse'⟩ := hb r' hr'
    rw [← hse, ← hse'] at hid ⊢
    exact h.oneEvent s hs s' hs' hid
  · intro d hd hmsg
    rcases hw.decision_cases hd with ho | ⟨hon, p, hst, ha⟩
    · obtain ⟨r, hr, hid, hne⟩ := h.decided d ho hmsg
      obtain ⟨r', hr', he⟩ := mem_runs_set hi hev hr
      exact ⟨r', hr', he ▸ hid, he ▸ hne⟩
    · have hsnd := h.sound run hrun (hon.symm.trans hmsg)
      simp [RouteRun.Sound, hst] at hsnd
      obtain ⟨r', hr', he⟩ := mem_runs_set hi hev hrun
      exact ⟨r', hr', by rw [he, ← hon, hmsg], by rw [he, ha]; exact hsnd.1⟩
  · intro agentId hc
    rcases hw.commanded_cases hc with ho | ⟨hon, p, d, hst, ha⟩
    · obtain ⟨d, hd⟩ := h.commanded agentId ho
      exact ⟨d, hd.grows hw.grows⟩
    · have hsnd := h.sound run hrun hon
      simp [RouteRun.Sound, hst] at hsnd
      rw [hon, ha] at hsnd
      exact ⟨d, hsnd.2.2.grows hw.grows⟩
  · intro r hr hid
    rcases mem_or_eq_of_mem_set hr with hr | rfl
    · exact (h.sound r hr hid).grows hw.grows
    rw [hev] at hid
    subst hid
    exact (h.sound run hrun rfl).step hw hm (hw.oneDecision h.oneDecision)

theorem RouteInv.call {call : Call} {db' : Db} (h : RouteInv messageId w)
    (hi : call.txn.insertsCommand = false) (he : call.exec w.db.db = .ok (answer, db')) :
    RouteInv messageId { w with db := { w.db with db := db' } } := by
  have hs := sameCommands_exec he hi
  have hg : w.db.Grows { w.db with db := db' } :=
    ⟨fun d hd => hd, fun d hd => .inl hd, fun m a hc => hs.commanded.2 hc⟩
  refine ⟨h.oneEvent, hs.oneCommand h.oneCommand, h.oneDecision, h.first, h.decided, ?_, ?_⟩
  · intro agentId hc
    obtain ⟨d, hd⟩ := h.commanded agentId (hs.commanded.1 hc)
    exact ⟨d, hd.grows hg⟩
  · intro r hr hid
    exact (h.sound r hr hid).grows hg

theorem RouteInv.step (h : RouteInv messageId w)
    (hs : w.step prims action = some w') : RouteInv messageId w' := by
  cases action with
  | begin event =>
    simp only [RouteWorld.step] at hs
    split_ifs at hs with ho
    cases hs
    push Not at ho
    refine ⟨?_, h.oneCommand, h.oneDecision, h.first, ?_, h.commanded, ?_⟩
    · intro r hr r' hr' hid
      rcases mem_append.1 hr with hr | hr <;> rcases mem_append.1 hr' with hr' | hr'
      · exact h.oneEvent r hr r' hr' hid
      · rw [mem_singleton.1 hr'] at hid ⊢
        exact ho r hr hid
      · rw [mem_singleton.1 hr] at hid ⊢
        exact (ho r' hr' hid.symm).symm
      · rw [mem_singleton.1 hr, mem_singleton.1 hr']
    · intro d hd hm
      obtain ⟨r, hr, hid, hne⟩ := h.decided d hd hm
      exact ⟨r, mem_append_left _ hr, hid, hne⟩
    · exact forall_mem_snoc h.sound fun _ => trivial
  | advance i op =>
    simp only [RouteWorld.step] at hs
    split at hs
    · cases hs
    rename_i run hi
    obtain ⟨⟨db', run'⟩, hrun, rfl⟩ := map_eq_some_iff.1 hs
    exact h.advance hi hrun
  | call call fault =>
    simp only [RouteWorld.step] at hs
    split_ifs at hs with hins
    split at hs <;> cases hs
    · exact h
    · exact h
    next he => exact h.call (by simpa using hins) he

/-- The runs that have returned `Ok` have read every agent whose decision says trigger. -/
def RouteWorld.ReadByAll (messageId : String) (w : RouteWorld) : Prop :=
  ∀ r ∈ w.runs, r.event.eventId = messageId → r.stage.isOk →
    ∀ d ∈ w.db.routeDecisions, d.messageId = messageId →
      d.decision = RouteOutcome.triggered.asStr → d.agentId ∈ r.agentMembers.map (·.principalId)

theorem isOk_nextMember {event : ConversationEventRow} {plan : Plan} :
    ∀ {ahead : List ConversationMember} {outcomes : List RouteOutcome},
      (nextMember event input plan ahead outcomes).isOk = false
  | [], _ => rfl
  | m :: rest, outcomes => by
    unfold nextMember
    split_ifs
    · exact isOk_nextMember
    · rfl

theorem RouteRun.Moves.of_isOk (h : run.Moves db' op run') (hok : run'.stage.isOk) :
    op = .finish ∧ run'.agentMembers = run.agentMembers ∧ ∃ outcomes,
      run.stage = .finishing outcomes := by
  cases h with
  | finished hs => exact ⟨rfl, rfl, _, hs⟩
  | failed | visible | triggered | upserted => cases hok
  | planned | skipped | commanded => simp [isOk_nextMember] at hok

theorem RouteWorld.ReadByAll.step
    (h : w.ReadByAll messageId) (hc : w.Covered action) (hs : w.step prims action = some w') :
    w'.ReadByAll messageId := by
  cases action with simp only [RouteWorld.step] at hs
  | begin event =>
    split_ifs at hs
    cases hs
    exact forall_mem_snoc h fun _ hok => nomatch hok
  | advance i op =>
    split at hs
    · cases hs
    rename_i run hi
    obtain ⟨⟨db', run'⟩, hrun, rfl⟩ := map_eq_some_iff.1 hs
    obtain ⟨hw, hm⟩ := RouteRun.step_cases hrun
    have hc := hc run hi
    intro r hr hid hok d hd hmsg ht
    rcases hw.decision_cases hd with ho | ⟨hon, p, hst, ha⟩
    · rcases mem_or_eq_of_mem_set hr with hr | rfl
      · exact h r hr hid hok d ho hmsg ht
      · obtain ⟨rfl, hre, outcomes, hst⟩ := hm.of_isOk hok
        rw [hst] at hc
        rw [hre]
        exact hc d ho (hmsg.trans (hm.event_eq ▸ hid.symm)) ht
    · rcases mem_or_eq_of_mem_set hr with ho | rfl
      · rw [hst] at hc
        cases op with
        | write => exact ha ▸ hc r ho (hid.trans (hmsg.symm.trans hon)) hok
        | read | finish => simp [RouteRun.step, hst] at hrun
      · obtain ⟨-, -, outcomes, hst'⟩ := hm.of_isOk hok
        cases hst.symm.trans hst'
  | call call fault =>
    split_ifs at hs
    split at hs <;> cases hs <;> exact h

theorem RouteInv.initial (hr : w.runs = []) (hp : w.proposals = [])
    (hdec : ∀ d ∈ w.db.routeDecisions, d.messageId ≠ messageId)
    (hcmd : ∀ aid, ¬ w.db.db.Commanded messageId aid) : RouteInv messageId w := by
  refine ⟨by simp [hr], ?_, ?_, ?_, ?_, ?_, by simp [hr]⟩
  · intro c hc c' _ hm
    exact absurd ⟨c, hc, hm, rfl⟩ (hcmd c.agentId)
  · intro d hd d' _ hm
    exact absurd hm (hdec d hd)
  · intro aid
    rw [hp]
    refine find?_eq_none.2 fun d hd hf => ?_
    exact hdec d hd (isFor_iff.1 hf).1
  · intro d hd hm
    exact absurd hm (hdec d hd)
  · intro aid hc
    exact absurd hc (hcmd aid)

theorem RouteInv.commanded_iff (h : RouteInv messageId w) (hre : w.ReadByAll messageId)
    (hr : r ∈ w.runs) (hid : r.event.eventId = messageId) (hok : r.stage.isOk) :
    w.db.db.Commanded messageId agentId ↔ ∃ d, w.db.Triggers messageId agentId d := by
  refine ⟨h.commanded agentId, ?_⟩
  rintro ⟨d, hd, hf, ht⟩
  obtain ⟨hmsg, rfl⟩ := isFor_iff.1 hf
  obtain ⟨m, hm, hmid⟩ := mem_map.1 (hre r hr hid hok d hd hmsg ht)
  obtain ⟨r', hr', hid', hne⟩ := h.decided d hd hmsg
  rw [h.oneEvent r' hr' r hr (hid'.trans hid.symm), ← hmid] at hne
  have hsnd : r.AllDone w.db [] := by
    have hsnd := h.sound r hr hid
    unfold RouteRun.Sound at hsnd
    unfold Stage.isOk at hok
    split at hok
    next hs =>
      simpa [hs] using hsnd
    · cases hok
  rcases hsnd m hm hne with hn | hdo
  · cases hn
  · rw [hid, hmid] at hdo
    exact hdo.2 d hd hf ht

/-- However many runs there are on a message, each agent gets at most one command for it, the first
decision proposed for an agent is the one that stays, a run that returns `Ok` leaves a command
exactly where the stored decision says trigger, and the sender gets none. -/
theorem routing_idempotent (messageId : String) {w0 w : RouteWorld} (hru : w0.runs = [])
    (hp : w0.proposals = []) (hdec : ∀ d ∈ w0.db.routeDecisions, d.messageId ≠ messageId)
    (hcmd : ∀ agentId, ¬ w0.db.db.Commanded messageId agentId)
    (hse : Steps (restrict (RouteWorld.step prims) RouteWorld.Covered) w0 w) :
    w.db.db.OneCommand messageId ∧
      (∀ agentId, w.db.routeDecisions.find? (·.isFor messageId agentId) =
        w.proposals.find? (·.isFor messageId agentId)) ∧
      (∀ r ∈ w.runs, r.event.eventId = messageId → r.stage.isOk → ∀ agentId,
        w.db.db.Commanded messageId agentId ↔ ∃ d, w.db.Triggers messageId agentId d) ∧
      ∀ r ∈ w.runs, r.event.eventId = messageId →
        ¬ w.db.db.Commanded messageId r.event.senderId := by
  have hI : RouteInv messageId w ∧ w.ReadByAll messageId := by
    refine hse.keeps (I := fun w => RouteInv messageId w ∧ w.ReadByAll messageId)
      (fun hs hcov hst => ⟨hs.1.step hst, hs.2.step hcov hst⟩) ⟨.initial hru hp hdec hcmd, ?_⟩
    simp [RouteWorld.ReadByAll, hru]
  obtain ⟨h, hre⟩ := hI
  refine ⟨h.oneCommand, h.first, fun r hr hid hok agentId => h.commanded_iff hre hr hid hok, ?_⟩
  intro r hr hid hc
  obtain ⟨d, hd, hf, -⟩ := h.commanded _ hc
  obtain ⟨hm, ha⟩ := isFor_iff.1 hf
  obtain ⟨r', hr', hid', hne⟩ := h.decided d hd hm
  rw [h.oneEvent r' hr' r hr (hid'.trans hid.symm)] at hne
  exact hne ha

def testPrimitives : Primitives where
  lower := id
  sha256 bytes := bytes.drop 18

def hello : ConversationEventRow where
  eventId := "m1"
  conversationId := "general"
  eventType := "message"
  senderId := "alice"
  content := some "hello"
  contentType := "text"
  metadata := .ofFields []
  clientMsgId := none
  turnId := none
  replyEventId := none
  seq := 1
  createdAt := 0

def deskRoom (agents : List String) : RoutingInput where
  conversationName := "general"
  members := agents.map fun agentId =>
    { conversationId := "general"
      principalId := agentId
      principalType := "agent"
      displayName := some agentId
      joinedAt := 0
      leftAt := none }
  policies agentId :=
    { agentId
      conversationId := "general"
      autoMode := .allMessages
      mentionAliases := [] }
  conversationPolicy := .defaultFor "general"
  senderType := .ok (some "user")
  findWorkflowTask _ _ := .ok none
  listWorkflowTaskParticipants _ := .ok []

def decidesAndStops : List RouteAction :=
  [.begin hello, .advance 0 (.read (.ok (deskRoom ["coder"]))),
    .advance 0 (.write 1 "hello" .none), .advance 0 (.write 2 "hello" .none)]

theorem routing_idempotent_retry : ∃ w : RouteWorld,
    (∃ r ∈ w.runs, r.event.eventId = "m1" ∧ r.stage.isOk) ∧
      w.db.db.OneCommand "m1" ∧ w.db.db.Commanded "m1" "coder" := by
  have hrun : ∃ w, run (restrict (RouteWorld.step testPrimitives) RouteWorld.Covered) {}
      (decidesAndStops ++ [.begin hello, .advance 1 (.read (.ok (deskRoom ["coder"]))),
        .advance 1 (.write 3 "hello" .none), .advance 1 (.write 4 "hello" .none),
        .advance 1 (.write 5 "hello" .none), .advance 1 (.write 6 "hello" .none),
        .advance 1 .finish]) = some w ∧
      (∃ r, w.runs[1]? = some r ∧ r.event.eventId = "m1" ∧ r.stage.isOk) ∧
      ∃ d, w.db.routeDecisions[0]? = some d ∧ d.isFor "m1" "coder" ∧ d.decision = "trigger" :=
    ⟨_, rfl, ⟨_, rfl, rfl, rfl⟩, _, rfl, by decide, by decide⟩
  obtain ⟨w, hw, ⟨r, hr, hid, hok⟩, d, hd, hf, ht⟩ := hrun
  have hrm := mem_of_getElem? hr
  obtain ⟨ho, -, hi, -⟩ := routing_idempotent "m1" rfl rfl (by simp)
    (by rintro _ ⟨c, hc, -⟩; cases hc) (steps_of_run hw)
  exact ⟨w, ⟨r, hrm, hid, hok⟩, ho, (hi r hrm hid hok "coder").2 ⟨d, mem_of_getElem? hd, hf, ht⟩⟩

/-- The agent leaves before the retry: the second run returns `Ok`, the stored decision says
trigger, and there is no command. -/
theorem decision_without_command : ∃ w, Steps (RouteWorld.step testPrimitives) {} w ∧
    (∃ r ∈ w.runs, r.event.eventId = "m1" ∧ r.stage.isOk) ∧
      (∃ d, w.db.Triggers "m1" "coder" d) ∧ ¬ w.db.db.Commanded "m1" "coder" := by
  have hrun : ∃ w, run (RouteWorld.step testPrimitives) {}
      (decidesAndStops ++ [.begin hello, .advance 1 (.read (.ok (deskRoom []))),
        .advance 1 .finish]) = some w ∧
      (∃ r, w.runs[1]? = some r ∧ r.event.eventId = "m1" ∧ r.stage.isOk) ∧
      (∃ d, w.db.routeDecisions[0]? = some d ∧ d.isFor "m1" "coder" ∧
        d.decision = "trigger") ∧ w.db.db.agentCommands.rows = [] :=
    ⟨_, rfl, ⟨_, rfl, rfl, rfl⟩, ⟨_, rfl, by decide, by decide⟩, rfl⟩
  obtain ⟨w, hw, ⟨r, hr, hid, hok⟩, ⟨d, hd, hf, ht⟩, hn⟩ := hrun
  refine ⟨w, steps_of_run hw, ⟨r, mem_of_getElem? hr, hid, hok⟩,
    ⟨d, mem_of_getElem? hd, hf, ht⟩, ?_⟩
  rintro ⟨c, hc, -⟩
  change c ∈ w.db.db.agentCommands.rows at hc
  rw [hn] at hc
  cases hc

end Router

end Choruz
