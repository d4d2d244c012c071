import Choruz.Pipeline
import Mathlib

/-!
# Dispatch is fair and in order

An agent's commands have the positions 1, 2, … of its queue.  So the order by position takes each
queue from its front, and no queue gets a full round ahead of another.
-/

namespace Choruz

open Relational

namespace AgentCommand

def place (c : AgentCommand) : Timestamp ×ₗ String := toLex (c.createdAt, c.commandId)

theorem before_iff {a b : AgentCommand} : a.Before b ↔ a.place ≤ b.place := by
  simp [Before, place, Prod.Lex.le_iff]

instance : Std.Total Before := ⟨fun a b => by
  rw [before_iff, before_iff]
  exact le_total _ _⟩

instance : IsTrans AgentCommand Before := ⟨fun a b c => by
  rw [before_iff, before_iff, before_iff]
  exact le_trans⟩

end AgentCommand

namespace Db

variable {db : Db} {a b c : AgentCommand} {agent : String} {limit n : ℕ}

/-- The commands that wait for an idle agent, oldest first. -/
def queue (db : Db) (agent : String) : List AgentCommand :=
  (db.eligible.filter (·.agentId = agent)).insertionSort AgentCommand.Before

theorem mem_queue : a ∈ db.queue agent ↔ a ∈ db.eligible ∧ a.agentId = agent := by
  simp [queue]

theorem queue_sorted : (db.queue agent).Pairwise AgentCommand.Before :=
  List.pairwise_insertionSort _ _

theorem eq_of_before (ha : a ∈ db.eligible) (hb : b ∈ db.eligible) (h : a.Before b)
    (h' : b.Before a) : a = b := by
  have heq := le_antisymm (AgentCommand.before_iff.1 h) (AgentCommand.before_iff.1 h')
  exact eq_of_key_eq (mem_filter.1 ha).1 (mem_filter.1 hb).1 (congrArg (fun p => (ofLex p).2) heq)

theorem agentQueuePosition_eq :
    db.agentQueuePosition c = ((db.queue c.agentId).filter (·.Before c)).length := by
  have hp := List.perm_insertionSort AgentCommand.Before
    (db.eligible.filter (·.agentId = c.agentId))
  rw [agentQueuePosition, queue, (hp.filter _).length_eq, List.filter_filter]
  simp [Bool.and_comm]

/-- `ROW_NUMBER` is the place in the queue. -/
theorem position_of_getElem (h : (db.queue agent)[n]? = some c) :
    db.agentQueuePosition c = n + 1 := by
  obtain ⟨hc, rfl⟩ := mem_queue.1 (mem_of_getElem? h)
  obtain ⟨hlt, hn⟩ := List.getElem?_eq_some_iff.1 h
  have hnd : (db.queue c.agentId).Nodup :=
    (List.perm_insertionSort _ _).nodup_iff.2 ((db.agentCommands.nodup.of_map.filter _).filter _)
  have hs : (db.queue c.agentId).Pairwise AgentCommand.Before := queue_sorted
  have hsp := (List.take_append_drop n (db.queue c.agentId)).symm
  rw [List.drop_eq_getElem_cons hlt, hn] at hsp
  rw [hsp] at hs hnd
  obtain ⟨-, ha, hb⟩ := List.pairwise_append.1 hs
  rw [agentQueuePosition_eq, hsp, filter_append, List.filter_eq_self.2 fun x hx => ?_,
    List.filter_cons_of_pos ?_, List.filter_eq_nil_iff.2 fun x hx hxc => ?_]
  · simp [hlt.le]
  · have hx' := mem_queue.1 (List.mem_of_mem_drop hx)
    have := eq_of_before hc hx'.1 ((List.pairwise_cons.1 ha).1 x hx) (of_decide_eq_true hxc)
    exact (List.nodup_cons.1 (List.nodup_append.1 hnd).2.1).1 (this ▸ hx)
  · exact decide_eq_true (AgentCommand.before_iff.2 le_rfl)
  · exact decide_eq_true (hb x hx c (by simp))

/-- The order of the query: by position, then by age. -/
def Sooner (db : Db) (a b : AgentCommand) : Prop :=
  db.agentQueuePosition a < db.agentQueuePosition b ∨
    db.agentQueuePosition a = db.agentQueuePosition b ∧ a.Before b

instance : DecidableRel db.Sooner := fun _ _ => inferInstanceAs (Decidable (_ ∨ _))

theorem sooner_iff : db.Sooner a b ↔
    toLex (db.agentQueuePosition a, a.place) ≤ toLex (db.agentQueuePosition b, b.place) := by
  simp [Sooner, Prod.Lex.le_iff, AgentCommand.before_iff]

instance : Std.Total db.Sooner := ⟨fun a b => by
  rw [sooner_iff, sooner_iff]
  exact le_total _ _⟩

instance : IsTrans AgentCommand db.Sooner := ⟨fun a b c => by
  rw [sooner_iff, sooner_iff, sooner_iff]
  exact le_trans⟩

theorem findPendingCommands_eq :
    db.findPendingCommands limit = (db.eligible.insertionSort db.Sooner).take limit := rfl

theorem before_of_sooner (ha : a ∈ db.queue agent) (hb : b ∈ db.queue agent) (h : db.Sooner a b) :
    a.Before b := by
  obtain ⟨i, hi⟩ := List.getElem?_of_mem ha
  obtain ⟨j, hj⟩ := List.getElem?_of_mem hb
  rcases h with h | h
  · rw [position_of_getElem hi, position_of_getElem hj] at h
    obtain ⟨_, rfl⟩ := List.getElem?_eq_some_iff.1 hi
    obtain ⟨_, rfl⟩ := List.getElem?_eq_some_iff.1 hj
    exact List.pairwise_iff_getElem.1 queue_sorted _ _ _ _ (by omega)
  · exact h.2

theorem sorted_filter_eq_queue :
    (db.eligible.insertionSort db.Sooner).filter (·.agentId = agent) = db.queue agent := by
  have hp := (List.perm_insertionSort db.Sooner db.eligible).filter (·.agentId = agent)
  have hq := hp.trans (List.perm_insertionSort AgentCommand.Before _).symm
  refine hq.eq_of_pairwise (fun a b ha hb => ?_) ?_ queue_sorted
  · exact eq_of_before (mem_queue.1 (hq.mem_iff.1 ha)).1 (mem_queue.1 hb).1
  · refine ((List.pairwise_insertionSort _ _).filter _).imp_of_mem fun ha hb h => ?_
    exact before_of_sooner (hq.mem_iff.1 ha) (hq.mem_iff.1 hb) h

theorem mem_eligible : c ∈ db.eligible ↔ c ∈ db.agentCommands.rows ∧ c.status = .pending ∧
    c.metadata.hasKey "runtime_host_id" = false ∧ ∀ r ∈ db.agentCommands.rows,
      r.agentId = c.agentId → r.status.isActive = false ∧ r.status ≠ .retryScheduled := by
  simp [eligible, and_assoc]

/-- A command in front of a returned one in the order by position is returned. -/
theorem mem_findPendingCommands (ha : a ∈ db.findPendingCommands limit) (hb : b ∈ db.eligible)
    (h : db.agentQueuePosition b < db.agentQueuePosition a) : b ∈ db.findPendingCommands limit := by
  rw [findPendingCommands_eq] at ha ⊢
  have hs := List.pairwise_insertionSort db.Sooner db.eligible
  rw [← List.take_append_drop limit (db.eligible.insertionSort _)] at hs
  have hb' := (List.perm_insertionSort db.Sooner _).mem_iff.2 hb
  rw [← List.take_append_drop limit (db.eligible.insertionSort _)] at hb'
  refine (mem_append.1 hb').resolve_right fun hd => ?_
  rcases (List.pairwise_append.1 hs).2.2 a ha b hd with h' | h' <;> omega

theorem nodup_findPendingCommands : (db.findPendingCommands limit).Nodup :=
  ((List.perm_insertionSort _ _).nodup_iff.2 (db.agentCommands.nodup.of_map.filter _)).sublist
    (List.take_sublist ..)

theorem groupCommands_nodup {l : List AgentCommand} (h : l.Nodup) :
    (groupCommands l).flatten.Nodup := by
  refine List.nodup_flatten.2 ⟨fun g hg => ?_, List.pairwise_map.2 ?_⟩
  · obtain ⟨_, -, rfl⟩ := mem_map.1 hg
    exact h.filter _
  · refine (List.nodup_dedup _).imp fun hne x hx hx' => hne ?_
    simp_all

/-- The returned commands of each agent are the front of its queue, no queue is a full round ahead
of another, and the groups hold each returned command once. -/
theorem findPendingCommands_fair (db : Db) (limit : ℕ) :
    (∀ c ∈ db.findPendingCommands limit, c ∈ db.agentCommands.rows ∧ c.status = .pending ∧
      c.metadata.hasKey "runtime_host_id" = false ∧ ∀ r ∈ db.agentCommands.rows,
        r.agentId = c.agentId → r.status.isActive = false ∧ r.status ≠ .retryScheduled) ∧
    (∀ agent, (db.findPendingCommands limit).filter (·.agentId = agent) <+: db.queue agent) ∧
    (∀ agent other n a b, (db.queue agent)[n + 1]? = some a → (db.queue other)[n]? = some b →
      a ∈ db.findPendingCommands limit → b ∈ db.findPendingCommands limit) ∧
    (∀ group ∈ groupCommands (db.findPendingCommands limit), group ≠ [] ∧
      ∃ agent, group = (db.findPendingCommands limit).filter (·.agentId = agent)) ∧
    (groupCommands (db.findPendingCommands limit)).flatten.Nodup ∧
    ∀ c, c ∈ (groupCommands (db.findPendingCommands limit)).flatten ↔
      c ∈ db.findPendingCommands limit := by
  refine ⟨fun c hc => mem_eligible.1 ?_, fun agent => ?_, fun agent other n a b ha hb h => ?_,
    fun group hg => ?_, groupCommands_nodup nodup_findPendingCommands, fun c => ?_⟩
  · exact (List.perm_insertionSort _ _).mem_iff.1 (List.mem_of_mem_take hc)
  · rw [← sorted_filter_eq_queue]
    exact (List.take_prefix ..).filter _
  · refine mem_findPendingCommands h (mem_queue.1 (mem_of_getElem? hb)).1 ?_
    rw [position_of_getElem ha, position_of_getElem hb]
    omega
  · obtain ⟨agent, hag, rfl⟩ := mem_map.1 hg
    obtain ⟨c, hc, rfl⟩ := mem_map.1 (List.mem_dedup.1 hag)
    exact ⟨List.ne_nil_of_mem (mem_filter.2 ⟨hc, by simp⟩), _, rfl⟩
  · simp only [groupCommands, List.mem_flatten, mem_map, List.mem_dedup]
    aesop

end Db

end Choruz
