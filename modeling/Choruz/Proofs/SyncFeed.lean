import Choruz.SyncFeed

/-!
# The feed skips nothing that was settled when it was read

A page covers the cursors between the one it was read from and the last it holds, if no open
transaction held one of them when the head was read (`covers_listSyncChangesPage`).  What a client
was given then covers everything up to its cursor (`SyncClient.Sound`), whichever way it reads.  A
lower cursor that was still open commits behind it, and no later read asks for it.
-/

namespace Choruz

variable {log : SyncLog} {principalId : String} {cursor head : ℕ} {w w' : SyncWorld}
  {ack : Option ℕ} {β : Type*} {k : ℕ}

open Relational SyncWorld SyncChange SeqLog

theorem listSyncChangesHead_ok (h : listSyncChangesHead log principalId cursor = .ok head) :
    head = currentSyncCursor log principalId ∧ cursor ≤ head := by
  unfold listSyncChangesHead i64Cursor at h
  split_ifs at h with hc
  simp only at h
  split_ifs at h with hlt
  cases h
  exact ⟨rfl, not_lt.1 hlt⟩

theorem foldl_max_le {f : β → ℕ} {b : ℕ} (xs : List β) (m : ℕ) (hm : m ≤ b)
    (h : ∀ x ∈ xs, f x ≤ b) : xs.foldl (fun m x => max m (f x)) m ≤ b := by
  induction xs generalizing m with
  | nil => exact hm
  | cons x xs ih =>
    exact ih _ (max_le hm (h x mem_cons_self)) fun y hy => h y (mem_cons_of_mem _ hy)

theorem truncate_take (xs : List β) (n : ℕ) :
    (if decide (n < (xs.take (n + 1)).length) then (xs.take (n + 1)).take n else xs.take (n + 1)) =
      xs.take n := by
  split_ifs with h
  · rw [List.take_take, min_eq_left (Nat.le_succ n)]
  · simp at h
    rw [List.take_of_length_le (by omega), List.take_of_length_le (by omega)]

theorem listSyncChangesPage_changes (log : SyncLog) (pid : String) (cursor limit head : ℕ) :
    (listSyncChangesPage log pid cursor limit head).changes =
      (log.window (·.isFor pid) cursor head (max 1 (min limit 500))).map ofRow :=
  congrArg (List.map ofRow) (truncate_take _ _)

theorem listSyncChangesPage_nextCursor (log : SyncLog) (pid : String) (cursor limit head : ℕ) :
    (listSyncChangesPage log pid cursor limit head).nextCursor =
      ((log.window (·.isFor pid) cursor head (max 1 (min limit 500))).getLast?.map
        (·.pos)).getD cursor := by
  have h : (listSyncChangesPage log pid cursor limit head).nextCursor =
      ((listSyncChangesPage log pid cursor limit head).changes.getLast?.map
        (·.cursor)).getD cursor := rfl
  rw [h, listSyncChangesPage_changes, List.getLast?_map, Option.map_map]
  rfl

theorem le_listSyncChangesPage_nextCursor (log : SyncLog) (pid : String) (cursor limit head : ℕ) :
    cursor ≤ (listSyncChangesPage log pid cursor limit head).nextCursor := by
  rw [listSyncChangesPage_nextCursor]
  rcases h : (log.window (·.isFor pid) cursor head _).getLast? with _ | m
  · exact le_rfl
  · exact (mem_window (List.mem_of_getLast? h)).2.2.1.le

abbrev IsFor (principalId : String) (r : SyncChangeRow) : Prop := r.isFor principalId

theorem covers_listSyncChangesPage {limit : ℕ} (hs : log.Settled (IsFor principalId) head) :
    log.Covers (IsFor principalId) cursor
      (listSyncChangesPage log principalId cursor limit head).nextCursor
      (ofRow · ∈ (listSyncChangesPage log principalId cursor limit head).changes) := by
  rw [listSyncChangesPage_nextCursor, listSyncChangesPage_changes]
  rcases h : (log.window (·.isFor principalId) cursor head _).getLast? with _ | m
  · exact SeqLog.Covers.refl log
  · exact (covers_window hs h).mono fun e he => mem_map_of_mem he

/-- The steps of a client by what they do, with what was read on the way. -/
inductive SyncClient.Moves (log : SyncLog) (c : SyncClient) : ClientOp → SyncClient → Prop where
  | refused {op} : Moves log c op c
  | dropped {op} : Moves log c op { c with link := .offline }
  | requested {limit head} (hread : listSyncChangesHead log c.principalId c.cursor = .ok head) :
    Moves log c (.poll limit) { c with link := .request limit head }
  | answered {limit head} (hlink : c.link = .request limit head) : Moves log c .answer
      (c.apply (listSyncChangesPage log c.principalId c.cursor limit head) .offline)
  | connected : Moves log c .connect { c with
        ackCursor := some (max (c.ackCursor.getD 0) c.cursor)
        link := .socket (max (c.ackCursor.getD 0) c.cursor) .head [] [] }
  | drains {op lastSent drain drain' frames acks} (hlink : c.link = .socket lastSent drain frames acks)
    (hdrain : ∀ head, drain' = .page head →
      op = .readHead ∧ listSyncChangesHead log c.principalId lastSent = .ok head) :
    Moves log c op { c with link := .socket lastSent drain' frames acks }
  | sent {lastSent head drain frames acks}
    (hlink : c.link = .socket lastSent (.page head) frames acks) (hdrain : ∀ head, drain ≠ .page head) :
    Moves log c .readPage { c with
        link := .socket (listSyncChangesPage log c.principalId lastSent pageSize head).nextCursor
          drain (frames ++ [listSyncChangesPage log c.principalId lastSent pageSize head]) acks }
  | received {lastSent drain page frames acks}
    (hlink : c.link = .socket lastSent drain (page :: frames) acks) :
    Moves log c .receive (c.apply page (.socket lastSent drain frames (acks ++ [page.nextCursor])))
  | acknowledged {lastSent drain frames ack acks a}
    (hlink : c.link = .socket lastSent drain frames (ack :: acks)) (hack : c.ackCursor = some a) :
    Moves log c .acknowledge
      { c with ackCursor := some (max a ack), link := .socket lastSent drain frames acks }

theorem registerSyncDevice_ok {deviceId : String}
    (h : registerSyncDevice log principalId deviceId ack cursor = .ok k) :
    k = max (ack.getD 0) cursor := by
  unfold registerSyncDevice i64Cursor at h
  split_ifs at h
  simp only at h
  split_ifs at h
  simpa using h.symm

theorem acknowledgeSyncDevice_ok (h : acknowledgeSyncDevice log principalId ack cursor = .ok k) :
    ∃ a, ack = some a ∧ k = max a cursor := by
  unfold acknowledgeSyncDevice i64Cursor at h
  split_ifs at h
  · rcases ack with _ | a
    · simp at h
    · simp only at h
      split_ifs at h
      exact ⟨a, rfl, by simpa using h.symm⟩

theorem SyncClient.moves_of_step {c c' : SyncClient} {op : ClientOp} (h : c.step log op = some c') :
    c.Moves log op c' := by
  cases op with simp [step] at h
  | poll limit =>
    split at h
    · split at h <;> cases h
      · exact .refused
      next hr => exact .requested hr
    · cases h
  | answer =>
    split at h <;> cases h
    next hl => exact .answered hl
  | connect =>
    split at h
    · split at h <;> cases h
      · exact .refused
      next k hk =>
        rw [registerSyncDevice_ok hk]
        exact .connected
    · cases h
  | readHead =>
    split at h
    next hl =>
      split at h <;> cases h
      · exact .dropped
      next head hr =>
        refine .drains hl fun head' hh => ?_
        cases hh
        exact ⟨rfl, hr⟩
    · cases h
  | readPage =>
    split at h
    next hl =>
      split_ifs at h with he hm <;> cases h
      · exact .drains hl fun head hh => by cases hh
      · exact .sent hl fun head hh => by cases hh
      · exact .sent hl fun head hh => by cases hh
    · cases h
  | wakeup =>
    split at h <;> cases h
    next hl => exact .drains hl fun head hh => by cases hh
  | receive =>
    split at h <;> cases h
    next hl => exact .received hl
  | acknowledge =>
    split at h
    next hl =>
      split_ifs at h
      · cases h
        exact .dropped
      · split at h <;> cases h
        · exact .dropped
        next hk =>
          obtain ⟨a, ha, rfl⟩ := acknowledgeSyncDevice_ok hk
          exact .acknowledged hl ha
    · cases h
  | disconnect =>
    cases h
    exact .dropped

section Sound

variable {log log' : SyncLog} {c c' : SyncClient} {op : ClientOp} {page : SyncChangePage}
  {link : SyncLink}

/-- The frames under way follow one another from `lo` to `hi`, and each leaves out nothing. -/
def FramesCover (log : SyncLog) (principalId : String) : ℕ → List SyncChangePage → ℕ → Prop
  | lo, [], hi => lo = hi
  | lo, page :: pages, hi =>
    lo ≤ page.nextCursor ∧
      log.Covers (IsFor principalId) lo page.nextCursor (ofRow · ∈ page.changes) ∧
      FramesCover log principalId page.nextCursor pages hi

variable {principalId : String}

theorem FramesCover.extends (hx : SeqLog.Extends log log') :
    ∀ {pages : List SyncChangePage} {lo hi : ℕ}, FramesCover log principalId lo pages hi →
      FramesCover log' principalId lo pages hi
  | [], _, _, h => h
  | _ :: _, _, _, ⟨hle, hc, h⟩ => ⟨hle, hc.extends hx, h.extends hx⟩

theorem FramesCover.snoc {mid : ℕ} (hle : mid ≤ page.nextCursor)
    (hc : log.Covers (IsFor principalId) mid page.nextCursor (ofRow · ∈ page.changes)) :
    ∀ {pages : List SyncChangePage} {lo : ℕ}, FramesCover log principalId lo pages mid →
      FramesCover log principalId lo (pages ++ [page]) page.nextCursor
  | [], _, h => by
    cases h
    exact ⟨hle, hc, rfl⟩
  | _ :: _, _, ⟨hle', hc', h⟩ => ⟨hle', hc', h.snoc hle hc⟩

/-- What is under way between the server and a client leaves out nothing. -/
def SyncLink.Sound (log : SyncLog) (principalId : String) (cursor : ℕ) : SyncLink → Prop
  | .offline => True
  | .request _ head => log.Settled (IsFor principalId) head
  | .socket lastSent drain frames acks =>
    FramesCover log principalId cursor frames lastSent ∧
      (∀ head, drain = .page head → log.Settled (IsFor principalId) head) ∧
      ∀ ack ∈ acks, ack ≤ cursor

/-- The client has every row up to its cursor, and has acknowledged no more than that. -/
structure SyncClient.Sound (log : SyncLog) (c : SyncClient) : Prop where
  covers : log.Covers (IsFor c.principalId) c.start c.cursor (ofRow · ∈ c.received)
  acked : ∀ a, c.ackCursor = some a → a ≤ c.cursor
  link : c.link.Sound log c.principalId c.cursor

theorem SyncLink.Sound.extends {cursor : ℕ}
    (h : link.Sound log principalId cursor) (hx : SeqLog.Extends log log') :
    link.Sound log' principalId cursor := by
  cases link with
  | offline => trivial
  | request limit head => exact SeqLog.Settled.extends h hx
  | socket lastSent drain frames acks =>
    obtain ⟨hf, hd, ha⟩ := h
    exact ⟨hf.extends hx, fun head hh => (hd head hh).extends hx, ha⟩

theorem SyncClient.Sound.extends (h : c.Sound log) (hx : SeqLog.Extends log log') : c.Sound log' :=
  ⟨h.covers.extends hx, h.acked, h.link.extends hx⟩

theorem SyncClient.Sound.apply (h : c.Sound log) (hle : c.cursor ≤ page.nextCursor)
    (hcov : log.Covers (IsFor c.principalId) c.cursor page.nextCursor (ofRow · ∈ page.changes))
    (hl : link.Sound log c.principalId page.nextCursor) : (c.apply page link).Sound log := by
  have hc : (c.apply page link).cursor = page.nextCursor := max_eq_right hle
  refine ⟨?_, fun a ha => ?_, ?_⟩
  · rw [hc]
    exact (h.covers.mono fun e he => mem_append_left _ he).append
      (hcov.mono fun e he => mem_append_right _ he)
  · rw [hc]
    exact (h.acked a ha).trans hle
  · rw [hc]
    exact hl

theorem settled_of_head {cursor head : ℕ} (hr : listSyncChangesHead log principalId cursor = .ok head)
    (ho : ∀ e ∈ log.pending.flatten, e.val.isFor principalId →
      currentSyncCursor log principalId < e.pos) : log.Settled (IsFor principalId) head := by
  obtain ⟨rfl, -⟩ := listSyncChangesHead_ok hr
  exact ⟨foldl_max_le _ _ (Nat.zero_le _) fun e he =>
    log.bounded e (mem_append_left _ (mem_of_mem_filter he)), ho⟩

theorem SyncClient.Sound.step (h : c.Sound log) (hm : c.Moves log op c')
    (ho : ((∃ limit, op = .poll limit) ∨ op = .readHead) →
      ∀ e ∈ log.pending.flatten, e.val.isFor c.principalId →
        currentSyncCursor log c.principalId < e.pos) : c'.Sound log := by
  cases hm with have hs := h.link
  | refused => exact h
  | dropped => exact ⟨h.covers, h.acked, trivial⟩
  | requested hr =>
    exact ⟨h.covers, h.acked, settled_of_head hr (ho (.inl ⟨_, rfl⟩))⟩
  | answered hl =>
    rw [hl] at hs
    exact h.apply (le_listSyncChangesPage_nextCursor _ _ _ _ _) (covers_listSyncChangesPage hs)
      trivial
  | connected =>
    have hack : max (c.ackCursor.getD 0) c.cursor = c.cursor := by
      rcases ha : c.ackCursor with _ | a
      · simp
      · simpa using h.acked a ha
    rw [hack]
    refine ⟨h.covers, fun a ha => ?_, rfl, fun head hh => ?_, by simp⟩
    · simp at ha
      exact ha ▸ le_rfl
    · cases hh
  | drains hl hd =>
    rw [hl] at hs
    obtain ⟨hf, -, hac⟩ := hs
    refine ⟨h.covers, h.acked, hf, fun head hh => ?_, hac⟩
    obtain ⟨hop, hr⟩ := hd head hh
    exact settled_of_head hr (ho (.inr hop))
  | sent hl hd =>
    rw [hl] at hs
    obtain ⟨hf, hp, hac⟩ := hs
    refine ⟨h.covers, h.acked, ?_, fun head hh => absurd hh (hd head), hac⟩
    exact hf.snoc (le_listSyncChangesPage_nextCursor _ _ _ _ _)
      (covers_listSyncChangesPage (hp _ rfl))
  | received hl =>
    rw [hl] at hs
    obtain ⟨⟨hle, hc, hf⟩, hd, hac⟩ := hs
    refine h.apply hle hc ⟨hf, hd, fun ack hack => ?_⟩
    rcases mem_append.1 hack with hack | hack
    · exact (hac ack hack).trans hle
    · exact (mem_singleton.1 hack).le
  | acknowledged hl hack =>
    rw [hl] at hs
    obtain ⟨hf, hd, hac⟩ := hs
    refine ⟨h.covers, fun a ha => ?_, hf, hd, fun ack hack => hac ack (mem_cons_of_mem _ hack)⟩
    cases ha
    exact max_le (h.acked _ hack) (hac _ mem_cons_self)

end Sound

theorem SyncWorld.step_cases {op : SyncOp} (h : w.step op = some w') :
    (SeqLog.Extends w.log w'.log ∧ w'.clients = w.clients) ∨
      (∃ principalId deviceId start, w' = { w with
        clients := w.clients ++ [{ principalId, deviceId, start, cursor := start }] }) ∨
      ∃ i cop c c', op = .client i cop ∧ w.clients[i]? = some c ∧ c.Moves w.log cop c' ∧
        w' = { w with clients := w.clients.set i c' } := by
  cases op with
  | begin =>
    cases h
    exact .inl ⟨extends_begin _, rfl⟩
  | insert i row =>
    simp only [step, map_eq_some_iff] at h
    obtain ⟨log, hl, rfl⟩ := h
    exact .inl ⟨extends_insert hl, rfl⟩
  | commit i =>
    simp only [step, map_eq_some_iff] at h
    obtain ⟨log, hl, rfl⟩ := h
    exact .inl ⟨extends_commit hl, rfl⟩
  | rollback i =>
    cases h
    exact .inl ⟨extends_rollback _ _, rfl⟩
  | join principalId deviceId start =>
    simp only [step] at h
    split_ifs at h
    cases h
    exact .inr (.inl ⟨principalId, deviceId, start, rfl⟩)
  | client i cop =>
    simp [step] at h
    split at h
    · cases h
    rename_i c hc
    simp at h
    obtain ⟨c', hs, rfl⟩ := h
    exact .inr (.inr ⟨i, cop, c, c', rfl, hc, SyncClient.moves_of_step hs, rfl⟩)

/-- Every client has what is below its cursor. -/
def SyncWorld.Sound (w : SyncWorld) : Prop := ∀ c ∈ w.clients, c.Sound w.log

theorem SyncWorld.Sound.step {op : SyncOp} (h : w.Sound) (hok : w.Settles op)
    (hs : w.step op = some w') : w'.Sound := by
  obtain ⟨hx, hcl⟩ | ⟨principalId, deviceId, start, rfl⟩ | ⟨i, cop, c, c', rfl, hc, hm, rfl⟩ :=
    step_cases hs
  · intro c hc
    rw [hcl] at hc
    exact (h c hc).extends hx
  · intro c hc
    rcases mem_append.1 hc with hc | hc
    · exact h c hc
    rw [mem_singleton] at hc
    subst hc
    exact ⟨SeqLog.Covers.refl _, by simp, trivial⟩
  · intro d hd
    rcases mem_or_eq_of_mem_set hd with hd | rfl
    · exact h d hd
    refine (h c (mem_of_getElem? hc)).step hm fun hr => ?_
    rcases hr with ⟨limit, rfl⟩ | rfl <;> exact hok c hc

/-- Where no head is read over a lower cursor still open, a client at cursor `k` has received
every committed change of its principal up to `k`, from where it began. -/
theorem no_change_skipped {w : SyncWorld}
    (hr : Steps (restrict step SyncWorld.Settles) {} w) {c : SyncClient}
    (hc : c ∈ w.clients) {e : Entry SyncChangeRow} (he : e ∈ w.log.visible)
    (hp : e.val.principalId = c.principalId) (hs : c.start < e.pos) (hk : e.pos ≤ c.cursor) :
    ofRow e ∈ c.received := by
  have hsnd : w.Sound := hr.keeps SyncWorld.Sound.step (by simp [SyncWorld.Sound])
  have hf : IsFor c.principalId e.val := by simpa [IsFor, SyncChangeRow.isFor] using hp
  exact (hsnd c hc).covers.2 e (mem_entries.2 (.inl he)) hf hs hk

def pinned (principalId conversationId : String) : SyncChangeRow where
  principalId
  eventType := "conversation.pin_set"
  entityType := "pin"
  entityId := conversationId
  conversationId := some conversationId
  payload := .ofFields [("conversation_id", .str conversationId)]
  createdAt := 0

theorem no_change_skipped_in_order : ∃ w : SyncWorld, ∃ c ∈ w.clients, ∃ e ∈ w.log.visible,
    Steps (restrict step SyncWorld.Settles) {} w ∧
      e.val.principalId = c.principalId ∧ c.start < e.pos ∧ e.pos ≤ c.cursor ∧
      ofRow e ∈ c.received := by
  have hr : ∃ w, run (restrict step SyncWorld.Settles) {}
      [.join "alice" "laptop" 0, .begin, .begin, .insert 0 (pinned "alice" "general"),
        .insert 1 (pinned "alice" "random"), .commit 0, .commit 0, .client 0 .connect,
        .client 0 .readHead, .client 0 .readPage, .client 0 .receive, .client 0 .acknowledge] =
          some w ∧ ⟨1, pinned "alice" "general"⟩ ∈ w.log.visible ∧
      ∃ c, w.clients[0]? = some c ∧ c.principalId = "alice" ∧ c.start = 0 ∧ c.cursor = 2 :=
    ⟨_, rfl, by decide, _, rfl, rfl, rfl, rfl⟩
  obtain ⟨w, hw, he, c, hc, hp, hs, hcur⟩ := hr
  have hm := mem_of_getElem? hc
  have hl : c.start < (⟨1, pinned "alice" "general"⟩ : Entry SyncChangeRow).pos := by
    rw [hs]
    decide
  have hh : (⟨1, pinned "alice" "general"⟩ : Entry SyncChangeRow).pos ≤ c.cursor := by
    rw [hcur]
    decide
  exact ⟨w, c, hm, _, he, steps_of_run hw, hp.symm, hl, hh,
    no_change_skipped (steps_of_run hw) hm he hp.symm hl hh⟩

section Past

variable {log : SyncLog} {c c' : SyncClient} {op : ClientOp} {x : SyncChange}

/-- The client's cursor has passed a change that neither it nor a frame on its way to it has. -/
structure SyncClient.Past (x : SyncChange) (c : SyncClient) : Prop where
  passed : x.cursor ≤ c.cursor
  missing : x ∉ c.received
  link : ∀ lastSent drain frames acks, c.link = .socket lastSent drain frames acks →
    x.cursor ≤ lastSent ∧ ∀ page ∈ frames, x ∉ page.changes

theorem not_mem_listSyncChangesPage {pid : String} {cursor limit head : ℕ} (h : x.cursor ≤ cursor) :
    x ∉ (listSyncChangesPage log pid cursor limit head).changes := by
  intro hx
  rw [listSyncChangesPage_changes, mem_map] at hx
  obtain ⟨e, he, rfl⟩ := hx
  exact absurd (mem_window he).2.2.1 (not_lt.2 h)

/-- A cursor only moves on, and every read starts past it. -/
theorem SyncClient.Past.step (h : c.Past x) (hm : c.Moves log op c') : c'.Past x := by
  cases hm with
  | refused => exact h
  | dropped | requested hr => exact ⟨h.passed, h.missing, by simp⟩
  | answered hl =>
    refine ⟨h.passed.trans (le_max_left _ _), fun hx => ?_, by simp [apply]⟩
    rcases mem_append.1 hx with hx | hx
    · exact h.missing hx
    · exact not_mem_listSyncChangesPage h.passed hx
  | connected =>
    refine ⟨h.passed, h.missing, ?_⟩
    rintro _ _ _ _ ⟨⟩
    exact ⟨h.passed.trans (le_max_right _ _), by simp⟩
  | drains hl hd | acknowledged hl ha =>
    refine ⟨h.passed, h.missing, ?_⟩
    rintro _ _ _ _ ⟨⟩
    exact h.link _ _ _ _ hl
  | sent hl hd =>
    obtain ⟨hla, hf⟩ := h.link _ _ _ _ hl
    refine ⟨h.passed, h.missing, ?_⟩
    rintro _ _ _ _ ⟨⟩
    exact ⟨hla.trans (le_listSyncChangesPage_nextCursor _ _ _ _ _),
      forall_mem_snoc hf (not_mem_listSyncChangesPage hla)⟩
  | received hl =>
    obtain ⟨hla, hf⟩ := h.link _ _ _ _ hl
    refine ⟨h.passed.trans (le_max_left _ _), fun hx => ?_, ?_⟩
    · rcases mem_append.1 hx with hx | hx
      · exact h.missing hx
      · exact hf _ mem_cons_self hx
    · rintro _ _ _ _ ⟨⟩
      exact ⟨hla, fun page hp => hf page (mem_cons_of_mem _ hp)⟩

end Past

/-- The `i`-th client is past the change for good. -/
theorem SyncWorld.past_steps {i : ℕ} {x : SyncChange} (hr : Steps step w w')
    (h : ∀ c ∈ w.clients[i]?, c.Past x) (hi : i < w.clients.length) :
    ∀ c ∈ w'.clients[i]?, c.Past x := by
  suffices hI : i < w'.clients.length ∧ ∀ c ∈ w'.clients[i]?, c.Past x from hI.2
  refine hr.invariant (I := fun w => i < w.clients.length ∧ ∀ c ∈ w.clients[i]?, c.Past x)
    (fun hs hst => ?_) ⟨hi, h⟩
  obtain ⟨hl, hp⟩ := hs
  obtain ⟨-, hcl⟩ | ⟨principalId, deviceId, start, rfl⟩ | ⟨j, cop, c, c', rfl, hc, hm, rfl⟩ :=
    step_cases hst
  · rw [hcl]
    exact ⟨hl, hp⟩
  · refine ⟨by simp; omega, ?_⟩
    rw [List.getElem?_append_left hl]
    exact hp
  · refine ⟨by rwa [List.length_set], fun d hd => ?_⟩
    rcases eq_or_ne j i with rfl | hj
    · rw [List.getElem?_set_self hl, Option.mem_some_iff] at hd
      exact hd ▸ (hp c hc).step hm
    · rw [List.getElem?_set_ne hj] at hd
      exact hp d hd

/-- Two writers draw cursors one and two for a client's principal, the second commits, the client
reads it, and then the first commits: the client never receives it. -/
theorem change_committed_behind_cursor :
    ∃ w, Steps step {} w ∧ ∃ c ∈ w.clients[0]?, ∃ e ∈ w.log.visible,
      e.val.principalId = c.principalId ∧ c.start < e.pos ∧ e.pos ≤ c.cursor ∧
      ∀ w', Steps step w w' → ∀ c' ∈ w'.clients[0]?, ofRow e ∉ c'.received := by
  have hr : ∃ w, run step {}
      [.join "alice" "laptop" 0, .begin, .begin, .insert 0 (pinned "alice" "general"),
        .insert 1 (pinned "alice" "random"), .commit 1, .client 0 (.poll 100), .client 0 .answer,
        .commit 0] = some w ∧ ⟨1, pinned "alice" "general"⟩ ∈ w.log.visible ∧
      ∃ c, w.clients[0]? = some c ∧ c.principalId = "alice" ∧ c.start = 0 ∧ c.cursor = 2 ∧
        c.link = .offline ∧ ofRow ⟨1, pinned "alice" "general"⟩ ∉ c.received :=
    ⟨_, rfl, by decide, _, rfl, rfl, rfl, rfl, rfl, by decide⟩
  obtain ⟨w, hw, he, c, hc, hp, hs, hcur, hl, hm⟩ := hr
  refine ⟨w, steps_of_run hw, c, hc, _, he, hp.symm, by rw [hs]; decide,
    by rw [hcur]; decide, fun w' hw' c' hc' => ?_⟩
  have hpa : c.Past (.ofRow ⟨1, pinned "alice" "general"⟩) :=
    ⟨by rw [hcur]; decide, hm, by simp [hl]⟩
  refine (past_steps hw' (fun d hd => ?_) ?_ c' hc').missing
  · rw [hc, Option.mem_some_iff] at hd
    exact hd ▸ hpa
  · exact (getElem?_eq_some_iff.1 hc).1

end Choruz
