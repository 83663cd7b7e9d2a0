import Mathlib

set_option linter.all false

/-!
# The order in which a double-ended queue is left

Values enter a queue at either end and leave it from the front, or all at once.  The
log below numbers the values as they enter and notes, with each, which values were in
the queue at that moment, so that who leaves before whom can be stated without
looking at the queue itself.
-/

namespace RtThread.Core.DequeLog

variable {Value : Type*}

inductive Op (Value : Type*)
  | pushBack (value : Value)
  | pushFront (value : Value)
  | pop
  | clear
  deriving DecidableEq

def Op.act : Op Value → List Value → List Value
  | .pushBack value, queue => queue ++ [value]
  | .pushFront value, queue => value :: queue
  | .pop, queue => queue.tail
  | .clear, _ => []

/-- The content of the queue after some operations on the empty one. -/
def replay (ops : List (Op Value)) : List Value :=
  ops.foldl (fun queue op => op.act queue) []

theorem replay_snoc (ops : List (Op Value)) (op : Op Value) :
    replay (ops ++ [op]) = op.act (replay ops) := by
  simp [replay]

/-- The values that enter, in this order. -/
def pushed (ops : List (Op Value)) : List Value :=
  ops.filterMap fun
    | .pushBack value => some value
    | .pushFront value => some value
    | _ => none

/-- How many values leave from the front. -/
def pops (ops : List (Op Value)) : ℕ :=
  ops.countP fun
    | .pop => true
    | _ => false

/-- Values enter at the back only. -/
def BackOnly (ops : List (Op Value)) : Prop :=
  ∀ op ∈ ops, ∀ value, op ≠ .pushFront value

structure Entry (Value : Type*) where
  value : Value
  /-- How many values entered before. -/
  stamp : ℕ
  atFront : Bool
  /-- The stamps of the values that were in the queue when this one entered. -/
  met : List ℕ

structure Log (Value : Type*) where
  /-- The number of values that have entered. -/
  stamp : ℕ
  /-- The values that were popped, in this order. -/
  left : List (Entry Value)
  queue : List (Entry Value)
  /-- The operations since the queue was last empty. -/
  since : List (Op Value)

def Log.empty : Log Value where
  stamp := 0
  left := []
  queue := []
  since := []

def Log.enter (log : Log Value) (value : Value) (atFront : Bool) : Entry Value where
  value := value
  stamp := log.stamp
  atFront := atFront
  met := log.queue.map Entry.stamp

def Log.sinceAfter (log : Log Value) (op : Op Value) (queue : List (Entry Value)) :
    List (Op Value) :=
  if queue = [] then [] else log.since ++ [op]

def Log.record (log : Log Value) (op : Op Value) : Log Value :=
  match op with
  | .pushBack value =>
    let queue := log.queue ++ [log.enter value false]
    { log with
      stamp := log.stamp + 1
      queue := queue
      since := log.sinceAfter op queue }
  | .pushFront value =>
    let queue := log.enter value true :: log.queue
    { log with
      stamp := log.stamp + 1
      queue := queue
      since := log.sinceAfter op queue }
  | .pop =>
    { log with
      left := log.left ++ log.queue.head?.toList
      queue := log.queue.tail
      since := log.sinceAfter op log.queue.tail }
  | .clear => { log with queue := [], since := log.sinceAfter op [] }

/-- `entry` may leave before `later`: of two values that entered at the back the older
one leaves first, and a value that entered at the front leaves before every value it met
in the queue. -/
def LeavesBefore (entry later : Entry Value) : Prop :=
  (entry.atFront = false → later.atFront = false → entry.stamp < later.stamp) ∧
    (later.atFront = true → entry.stamp ∉ later.met)

/-- The values that have left, followed by those that are still there. -/
def Log.order (log : Log Value) : List (Entry Value) :=
  log.left ++ log.queue

structure Ordered (log : Log Value) : Prop where
  leaves : log.order.Pairwise LeavesBefore
  nodup : (log.order.map Entry.stamp).Nodup
  stamp_lt : ∀ entry ∈ log.order, entry.stamp < log.stamp
  met_lt : ∀ entry ∈ log.order, ∀ stamp ∈ entry.met, stamp < log.stamp

theorem ordered_empty : Ordered (Log.empty : Log Value) where
  leaves := List.Pairwise.nil
  nodup := List.nodup_nil
  stamp_lt := fun _ hmem => absurd hmem List.not_mem_nil
  met_lt := fun _ hmem => absurd hmem List.not_mem_nil

section Record

variable {log : Log Value}

/-- Values leave an ordered queue in order, however many of them do. -/
theorem Ordered.sublist {log' : Log Value} (hordered : Ordered log)
    (hsub : log'.order.Sublist log.order) (hstamp : log'.stamp = log.stamp) : Ordered log' where
  leaves := hordered.leaves.sublist hsub
  nodup := hordered.nodup.sublist (hsub.map Entry.stamp)
  stamp_lt entry hmem := hstamp ▸ hordered.stamp_lt entry (hsub.subset hmem)
  met_lt entry hmem := hstamp ▸ hordered.met_lt entry (hsub.subset hmem)

theorem Ordered.enter {log' : Log Value} (hordered : Ordered log) {value : Value}
    {atFront : Bool} (hleaves : log'.order.Pairwise LeavesBefore)
    (hperm : log'.order.Perm (log.enter value atFront :: log.order))
    (hstamp : log'.stamp = log.stamp + 1) : Ordered log' where
  leaves := hleaves
  nodup := by
    rw [(hperm.map Entry.stamp).nodup_iff, List.map_cons, List.nodup_cons]
    refine ⟨fun hmem => ?_, hordered.nodup⟩
    obtain ⟨entry, hentry, heq⟩ := List.mem_map.1 hmem
    exact absurd heq (hordered.stamp_lt entry hentry).ne
  stamp_lt entry hmem := by
    rw [hstamp]
    rcases List.mem_cons.1 (hperm.mem_iff.1 hmem) with rfl | hold
    · exact Nat.lt_succ_self _
    · exact Nat.lt_succ_of_lt (hordered.stamp_lt entry hold)
  met_lt entry hmem stamp hmet := by
    rw [hstamp]
    rcases List.mem_cons.1 (hperm.mem_iff.1 hmem) with rfl | hold
    · obtain ⟨other, hother, rfl⟩ := List.mem_map.1 hmet
      exact Nat.lt_succ_of_lt (hordered.stamp_lt other (List.mem_append_right _ hother))
    · exact Nat.lt_succ_of_lt (hordered.met_lt entry hold stamp hmet)

theorem Ordered.pushBack (hordered : Ordered log) (value : Value) :
    Ordered (log.record (.pushBack value)) := by
  have horder : (log.record (.pushBack value)).order = log.order ++ [log.enter value false] := by
    simp [Log.record, Log.order]
  refine hordered.enter ?_ (horder ▸ List.perm_append_singleton _ _) rfl
  rw [horder, List.pairwise_append]
  refine ⟨hordered.leaves, List.pairwise_singleton _ _, ?_⟩
  intro entry hentry later hlater
  rw [List.mem_singleton] at hlater
  subst hlater
  exact ⟨fun _ _ => hordered.stamp_lt entry hentry, fun hfront => Bool.noConfusion hfront⟩

theorem Ordered.pushFront (hordered : Ordered log) (value : Value) :
    Ordered (log.record (.pushFront value)) := by
  refine hordered.enter ?_ List.perm_middle rfl
  show (log.left ++ log.enter value true :: log.queue).Pairwise LeavesBefore
  obtain ⟨hleft, hqueue, hcross⟩ := List.pairwise_append.1 hordered.leaves
  rw [List.pairwise_append, List.pairwise_cons]
  refine ⟨hleft, ⟨fun later hlater => ⟨fun hback => Bool.noConfusion hback, fun _ hmet => ?_⟩,
    hqueue⟩, ?_⟩
  · -- the stamp is new, so nothing in the queue has met it
    have hlt := hordered.met_lt later (List.mem_append_right _ hlater) log.stamp hmet
    exact absurd hlt (Nat.lt_irrefl _)
  · intro entry hentry later hlater
    rcases List.mem_cons.1 hlater with rfl | hold
    · refine ⟨fun _ hback => Bool.noConfusion hback, fun _ hmet => ?_⟩
      -- what has left is not in the queue any more
      have hnodup := hordered.nodup
      rw [Log.order, List.map_append, List.nodup_append] at hnodup
      exact hnodup.2.2 _ (List.mem_map_of_mem hentry) _ hmet rfl
    · exact hcross entry hentry later hold

theorem Ordered.record (hordered : Ordered log) (op : Op Value) : Ordered (log.record op) := by
  cases op with
  | pushBack value => exact hordered.pushBack value
  | pushFront value => exact hordered.pushFront value
  | pop =>
    refine hordered.sublist ?_ rfl
    have horder : (log.record .pop).order = log.order := by
      cases hqueue : log.queue <;> simp [Log.record, Log.order, hqueue]
    rw [horder]
  | clear =>
    refine hordered.sublist ?_ rfl
    show (log.left ++ []).Sublist (log.left ++ log.queue)
    exact (List.nil_sublist _).append_left _

/-- Only the operations since the queue was last empty matter for what it holds. -/
theorem replay_record (hreplay : log.queue.map Entry.value = replay log.since) (op : Op Value) :
    (log.record op).queue.map Entry.value = replay (log.record op).since := by
  have hafter : ∀ queue : List (Entry Value),
      queue.map Entry.value = op.act (log.queue.map Entry.value) →
        queue.map Entry.value = replay (log.sinceAfter op queue) := by
    intro queue hqueue
    rw [Log.sinceAfter]
    split
    · next hempty => rw [hempty]; rfl
    · rw [replay_snoc, ← hreplay, hqueue]
  cases op with
  | pushBack value => exact hafter _ (by simp [Log.record, Op.act, Log.enter])
  | pushFront value => exact hafter _ (by simp [Log.record, Op.act, Log.enter])
  | pop => exact hafter _ (by simp [Log.record, Op.act])
  | clear => exact hafter _ rfl

/-- The operations since the queue was last empty account for its length, and a queue that
was filled from the back only holds the last values that entered. -/
structure Balanced (log : Log Value) : Prop where
  length_pushed : (pushed log.since).length = log.queue.length + pops log.since
  backOnly : BackOnly log.since →
    log.queue.map Entry.value = (pushed log.since).drop (pops log.since)

theorem balanced_empty : Balanced (Log.empty : Log Value) where
  length_pushed := rfl
  backOnly := fun _ => rfl

theorem pushed_snoc (ops : List (Op Value)) (op : Op Value) :
    pushed (ops ++ [op]) = pushed ops ++ pushed [op] :=
  List.filterMap_append

theorem pops_snoc (ops : List (Op Value)) (op : Op Value) :
    pops (ops ++ [op]) = pops ops + pops [op] :=
  List.countP_append

theorem BackOnly.of_snoc {ops : List (Op Value)} {op : Op Value} (hback : BackOnly (ops ++ [op])) :
    BackOnly ops :=
  fun other hother => hback other (List.mem_append_left _ hother)

theorem since_record (log : Log Value) (op : Op Value) :
    (log.record op).since = log.sinceAfter op (log.record op).queue := by
  cases op <;> rfl

theorem Balanced.record (hbalanced : Balanced log) (op : Op Value) :
    Balanced (log.record op) := by
  have hsince := since_record log op
  rw [Log.sinceAfter] at hsince
  by_cases hempty : (log.record op).queue = []
  · rw [if_pos hempty] at hsince
    exact ⟨by rw [hempty, hsince]; rfl, fun _ => by rw [hempty, hsince]; rfl⟩
  · rw [if_neg hempty] at hsince
    have hlength := hbalanced.length_pushed
    refine ⟨?_, fun hback => ?_⟩
    · rw [hsince, pushed_snoc, pops_snoc, List.length_append, hlength]
      cases op with
      | pushBack value => simp [Log.record, pushed, pops]; omega
      | pushFront value => simp [Log.record, pushed, pops]; omega
      | pop =>
        have hpos : 0 < log.queue.length :=
          List.length_pos_of_ne_nil fun hnil => hempty (by rw [Log.record, hnil]; rfl)
        simp [Log.record, pushed, pops]
        omega
      | clear => exact absurd rfl hempty
    · rw [hsince] at hback ⊢
      have hold := hbalanced.backOnly hback.of_snoc
      have hle : pops log.since ≤ (pushed log.since).length := by omega
      rw [pushed_snoc, pops_snoc]
      cases op with
      | pushBack value =>
        have hqueue : (log.record (.pushBack value)).queue.map Entry.value =
            log.queue.map Entry.value ++ [value] := by simp [Log.record, Log.enter]
        rw [hqueue, hold, ← List.drop_append_of_le_length hle]
        rfl
      | pushFront value =>
        exact absurd rfl (hback _ (List.mem_append_right _ (List.mem_singleton_self _)) value)
      | pop =>
        have hqueue : (log.record .pop).queue.map Entry.value =
            (log.queue.map Entry.value).tail := List.map_tail
        rw [hqueue, hold, List.tail_drop]
        simp [pushed, pops]
      | clear => exact absurd rfl hempty

end Record

end RtThread.Core.DequeLog
