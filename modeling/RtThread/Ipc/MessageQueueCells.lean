import RtThread.Ipc.MessageQueue

set_option linter.all false

/-!
# The cells of a message queue

A cell has one owner at a time: the free list, the queue, or a thread between the two
critical sections of its call.  Every critical section moves one cell from one owner to
another, and nothing is lost on the way.
-/

namespace RtThread.MessageQueue

open Function
open RtThread.Core

variable {Tid Byte : Type*}

inductive Owner (Tid : Type*)
  | free
  | queue
  | thread (tid : Tid)

/-- The cells each owner has, when the two lists are `free` and `queued`. -/
def owned (free queued : List ℕ) (pc : Tid → Pc Byte) : Owner Tid → List ℕ
  | .free => free
  | .queue => queued
  | .thread tid => (pc tid).held.toList

/-- The two lists are linked through their cells, and every cell of the pool is in one of
them or with one thread. -/
structure Linked (mq : RtMessageQueue Tid Byte) (pc : Tid → Pc Byte) (free queued : List ℕ) :
    Prop where
  freeChain : Chain mq.next mq.msgQueueFree free
  queueChain : Chain mq.next mq.msgQueueHead queued
  tail_eq : mq.msgQueueTail = queued.getLast?
  parts : Partitions (owned free queued pc) {cell | cell < mq.maxMsgs}

section Lists

variable {mq : RtMessageQueue Tid Byte} {pc pc' : Tid → Pc Byte} {free queued : List ℕ}
  {tid : Tid} {msg cell : ℕ}

theorem mem_owned_thread (hheld : (pc tid).held = some msg) :
    msg ∈ owned free queued pc (.thread tid) := by
  simp [owned, hheld]

theorem Linked.not_mem_queued (hlinked : Linked mq pc free queued) (hmem : cell ∈ free) :
    cell ∉ queued := by
  intro hqueued
  have howner := hlinked.parts.unique .free .queue cell hmem hqueued
  contradiction

theorem Linked.held_not_mem (hlinked : Linked mq pc free queued)
    (hheld : (pc tid).held = some msg) : msg ∉ free ∧ msg ∉ queued := by
  constructor
  · intro hmem
    have howner := hlinked.parts.unique (.thread tid) .free msg (mem_owned_thread hheld) hmem
    contradiction
  · intro hmem
    have howner := hlinked.parts.unique (.thread tid) .queue msg (mem_owned_thread hheld) hmem
    contradiction

theorem Linked.held_inj (hlinked : Linked mq pc free queued) {other : Tid}
    (hheld : (pc tid).held = some msg) (hother : (pc other).held = some msg) : tid = other := by
  have howner := hlinked.parts.unique (.thread tid) (.thread other) msg
    (mem_owned_thread hheld) (mem_owned_thread hother)
  rwa [Owner.thread.injEq] at howner

theorem Linked.length_queued_le (hlinked : Linked mq pc free queued) :
    queued.length ≤ mq.maxMsgs := by
  have hsub : queued ⊆ List.range mq.maxMsgs := by
    intro cell hmem
    rw [List.mem_range]
    exact (hlinked.parts.cover cell).2 ⟨.queue, hmem⟩
  have hle := ((hlinked.parts.nodup .queue).subperm hsub).length_le
  rwa [List.length_range] at hle

theorem Linked.head_eq_none_iff (hlinked : Linked mq pc free queued) :
    mq.msgQueueHead = none ↔ queued = [] :=
  hlinked.queueChain.start_eq_none_iff

/-- Threads may go on as long as they keep their cells. -/
theorem Linked.of_held (hlinked : Linked mq pc free queued)
    (hheld : ∀ tid, (pc' tid).held = (pc tid).held) : Linked mq pc' free queued where
  freeChain := hlinked.freeChain
  queueChain := hlinked.queueChain
  tail_eq := hlinked.tail_eq
  parts := by
    have howned : owned free queued pc' = owned free queued pc := by
      funext owner
      cases owner with
      | free => rfl
      | queue => rfl
      | thread tid => rw [owned, owned, hheld]
    rw [howned]
    exact hlinked.parts

end Lists

/-! ## What the critical sections do to the lists -/

section Sections

variable [DecidableEq Tid] {mq : RtMessageQueue Tid Byte} {pc : Tid → Pc Byte}
  {free queued : List ℕ} {tid : Tid} {msg : ℕ} {after : Pc Byte}

theorem owned_thread_of_ne {free' queued' : List ℕ} {other : Tid}
    (hne : Owner.thread other ≠ Owner.thread tid) :
    owned free' queued' (update pc tid after) (.thread other) =
      owned free queued pc (.thread other) := by
  have hne : other ≠ tid := fun heq => hne (by rw [heq])
  simp [owned, hne]

theorem moves_free_thread (hbefore : (pc tid).held = none) (hafter : after.held = some msg) :
    Moves (owned (msg :: free) queued pc) (owned free queued (update pc tid after))
      .free (.thread tid) msg where
  ne := by simp
  leaves := List.Perm.refl _
  enters := by simp [owned, hbefore, hafter]
  others owner hsource htarget := by
    cases owner with
    | free => contradiction
    | queue => rfl
    | thread other => exact owned_thread_of_ne htarget

theorem moves_queue_thread (hbefore : (pc tid).held = none) (hafter : after.held = some msg) :
    Moves (owned free (msg :: queued) pc) (owned free queued (update pc tid after))
      .queue (.thread tid) msg where
  ne := by simp
  leaves := List.Perm.refl _
  enters := by simp [owned, hbefore, hafter]
  others owner hsource htarget := by
    cases owner with
    | free => rfl
    | queue => contradiction
    | thread other => exact owned_thread_of_ne htarget

theorem moves_thread_queue {queued' : List ℕ} (hbefore : (pc tid).held = some msg)
    (hafter : after.held = none) (hperm : queued'.Perm (msg :: queued)) :
    Moves (owned free queued pc) (owned free queued' (update pc tid after))
      (.thread tid) .queue msg where
  ne := by simp
  leaves := by simp [owned, hbefore, hafter]
  enters := hperm
  others owner hsource htarget := by
    cases owner with
    | free => rfl
    | queue => contradiction
    | thread other => exact owned_thread_of_ne hsource

theorem moves_thread_free (hbefore : (pc tid).held = some msg) (hafter : after.held = none) :
    Moves (owned free queued pc) (owned (msg :: free) queued (update pc tid after))
      (.thread tid) .free msg where
  ne := by simp
  leaves := by simp [owned, hbefore, hafter]
  enters := List.Perm.refl _
  others owner hsource htarget := by
    cases owner with
    | free => contradiction
    | queue => rfl
    | thread other => exact owned_thread_of_ne hsource

omit [DecidableEq Tid] in
theorem moves_queue_free :
    Moves (owned free (msg :: queued) pc) (owned (msg :: free) queued pc) .queue .free msg where
  ne := by simp
  leaves := List.Perm.refl _
  enters := List.Perm.refl _
  others owner hsource htarget := by
    cases owner with
    | free => contradiction
    | queue => contradiction
    | thread other => rfl

/-- `rt_mq_send` and `rt_mq_urgent` take the first free cell. -/
theorem Linked.allocate (hlinked : Linked mq pc free queued) (hfree : mq.msgQueueFree = some msg)
    (hbefore : (pc tid).held = none) (hafter : after.held = some msg) :
    ∃ rest, Linked { mq with msgQueueFree := mq.next msg } (update pc tid after)
      rest queued := by
  have hchain := hlinked.freeChain
  rw [hfree] at hchain
  obtain ⟨rest, rfl, hrest⟩ := hchain.exists_rest
  exact ⟨rest, hrest, hlinked.queueChain, hlinked.tail_eq,
    hlinked.parts.move (moves_free_thread hbefore hafter)⟩

omit [DecidableEq Tid] in
theorem Linked.startCopy (hlinked : Linked mq pc free queued)
    (hheld : (pc tid).held = some msg) (mode : Mode) :
    Linked (startCopy mq msg mode) pc free queued := by
  obtain ⟨hfree, hqueued⟩ := hlinked.held_not_mem hheld
  cases mode with
  | send =>
    exact ⟨hlinked.freeChain.update_of_not_mem none hfree,
      hlinked.queueChain.update_of_not_mem none hqueued, hlinked.tail_eq, hlinked.parts⟩
  | urgent => exact hlinked

theorem Linked.linkTail (hlinked : Linked mq pc free queued) (hheld : (pc tid).held = some msg)
    (hafter : after.held = none) (hend : mq.next msg = none) :
    Linked (linkTail mq msg) (update pc tid after) free (queued ++ [msg]) := by
  obtain ⟨hfree, hqueued⟩ := hlinked.held_not_mem hheld
  have hparts := hlinked.parts.move
    (moves_thread_queue hheld hafter (List.perm_append_singleton msg queued))
  have htail := hlinked.tail_eq
  cases hlast : queued.getLast? with
  | none =>
    -- the queue is empty, and the cell is its head and its tail
    rw [List.getLast?_eq_none_iff] at hlast
    subst hlast
    have hhead : mq.msgQueueHead = none := hlinked.head_eq_none_iff.2 rfl
    rw [List.getLast?_nil] at htail
    refine ⟨?_, ?_, by simp [MessageQueue.linkTail], hparts⟩
    · simpa only [MessageQueue.linkTail, htail] using hlinked.freeChain
    · have hchain : Chain mq.next (some msg) [msg] := ⟨rfl, hend⟩
      simpa only [MessageQueue.linkTail, htail, hhead, List.nil_append] using hchain
  | some last =>
    rw [hlast] at htail
    have hmem : last ∈ queued := List.mem_of_getLast? hlast
    have hnotFree : last ∉ free := fun hfree => hlinked.not_mem_queued hfree hmem
    have hhead : mq.msgQueueHead ≠ none := fun hnone => by
      rw [hlinked.head_eq_none_iff.1 hnone] at hmem
      exact absurd hmem List.not_mem_nil
    obtain ⟨head, hhead⟩ := Option.ne_none_iff_exists'.1 hhead
    refine ⟨?_, ?_, by simp [MessageQueue.linkTail], hparts⟩
    · simpa only [MessageQueue.linkTail, htail] using
        hlinked.freeChain.update_of_not_mem (some msg) hnotFree
    · have hchain := hlinked.queueChain.append (hlinked.parts.nodup .queue) hlast hqueued hend
      simpa only [MessageQueue.linkTail, htail, hhead] using hchain

theorem Linked.linkHead (hlinked : Linked mq pc free queued) (hheld : (pc tid).held = some msg)
    (hafter : after.held = none) :
    Linked (linkHead mq msg) (update pc tid after) free (msg :: queued) := by
  obtain ⟨hfree, hqueued⟩ := hlinked.held_not_mem hheld
  refine ⟨hlinked.freeChain.update_of_not_mem _ hfree, hlinked.queueChain.push hqueued, ?_,
    hlinked.parts.move (moves_thread_queue hheld hafter (List.Perm.refl _))⟩
  have htail := hlinked.tail_eq
  cases hlast : queued.getLast? with
  | none => simp [MessageQueue.linkHead, htail, hlast, List.getLast?_cons]
  | some last => simp [MessageQueue.linkHead, htail, hlast, List.getLast?_cons]

omit [DecidableEq Tid] in
theorem unlinkHead_tail {rest : List ℕ} (htail : mq.msgQueueTail = (msg :: rest).getLast?)
    (hnot : msg ∉ rest) : (unlinkHead mq msg).msgQueueTail = rest.getLast? := by
  simp only [unlinkHead, htail]
  cases rest with
  | nil => simp
  | cons second more =>
    rw [List.getLast?_cons_cons]
    have hne : (second :: more).getLast? ≠ some msg :=
      fun heq => hnot (List.mem_of_getLast? heq)
    rw [if_neg hne]

theorem Linked.dequeue {rest : List ℕ} (hlinked : Linked mq pc free (msg :: rest))
    (hbefore : (pc tid).held = none) (hafter : after.held = some msg) :
    Linked (unlinkHead mq msg) (update pc tid after) free rest where
  freeChain := hlinked.freeChain
  queueChain := hlinked.queueChain.2
  tail_eq := unlinkHead_tail hlinked.tail_eq
    (List.nodup_cons.1 (hlinked.parts.nodup .queue)).1
  parts := hlinked.parts.move (moves_queue_thread hbefore hafter)

theorem Linked.release (hlinked : Linked mq pc free queued) (hheld : (pc tid).held = some msg)
    (hafter : after.held = none) :
    Linked (release mq msg) (update pc tid after) (msg :: free) queued where
  freeChain := hlinked.freeChain.push (hlinked.held_not_mem hheld).1
  queueChain := hlinked.queueChain.update_of_not_mem _ (hlinked.held_not_mem hheld).2
  tail_eq := hlinked.tail_eq
  parts := hlinked.parts.move (moves_thread_free hheld hafter)

omit [DecidableEq Tid] in
theorem Linked.releaseHead {rest : List ℕ} (hlinked : Linked mq pc free (msg :: rest)) :
    Linked (MessageQueue.release (unlinkHead mq msg) msg) pc (msg :: free) rest := by
  have hnot : msg ∉ rest := (List.nodup_cons.1 (hlinked.parts.nodup .queue)).1
  have hfree : msg ∉ free := fun hmem => hlinked.not_mem_queued hmem List.mem_cons_self
  exact ⟨hlinked.freeChain.push hfree, hlinked.queueChain.2.update_of_not_mem _ hnot,
    unlinkHead_tail hlinked.tail_eq hnot, hlinked.parts.move moves_queue_free⟩

omit [DecidableEq Tid] in
/-- The loop ends with an empty queue, and only the cells that were queued are written. -/
theorem Linked.releaseAll {fuel : ℕ} (hlinked : Linked mq pc free queued)
    (hfuel : queued.length ≤ fuel) :
    (∃ free', Linked (releaseAll fuel mq) pc free' []) ∧
      ∀ cell, cell ∉ queued → (releaseAll fuel mq).next cell = mq.next cell := by
  induction fuel generalizing mq free queued with
  | zero =>
    have hempty : queued = [] := List.length_eq_zero_iff.1 (Nat.le_zero.1 hfuel)
    subst hempty
    exact ⟨⟨free, hlinked⟩, fun _ _ => rfl⟩
  | succ fuel ih =>
    rw [MessageQueue.releaseAll]
    cases queued with
    | nil =>
      rw [hlinked.head_eq_none_iff.2 rfl]
      exact ⟨⟨free, hlinked⟩, fun _ _ => rfl⟩
    | cons msg rest =>
      rw [hlinked.queueChain.1]
      obtain ⟨hend, hnext⟩ := ih hlinked.releaseHead (Nat.le_of_succ_le_succ hfuel)
      refine ⟨hend, fun cell hnot => ?_⟩
      rw [List.mem_cons, not_or] at hnot
      refine (hnext cell hnot.2).trans ?_
      exact update_of_ne hnot.1 _ _

omit [DecidableEq Tid] in
theorem releaseAll_frame (fuel : ℕ) (mq : RtMessageQueue Tid Byte) :
    (releaseAll fuel mq).data = mq.data ∧ (releaseAll fuel mq).msgSize = mq.msgSize ∧
      (releaseAll fuel mq).maxMsgs = mq.maxMsgs := by
  induction fuel generalizing mq with
  | zero => exact ⟨rfl, rfl, rfl⟩
  | succ fuel ih =>
    rw [releaseAll]
    split
    · exact ⟨rfl, rfl, rfl⟩
    · exact ih _

end Sections

end RtThread.MessageQueue
