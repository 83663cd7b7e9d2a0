import RtThread.Vbus.PrioQueue

set_option linter.all false

/-!
# The priority queue refines its specification

The lists of the queue, taken together in the order of the pushes, are the queue of
the specification.  A block of the pool is free, or an item of one list, or with
the one call that works on it between the pool and the lists; and for every item that
is queued while a thread sleeps in `rt_prio_queue_pop`, a push has resumed some other
popping thread that has not run yet.
-/

namespace RtThread.Vbus

open Function
open RtThread.Core
open RtThread.Core.Bitmap (OneLevel)
open RtThread.Core.PriorityFifo
open RtThread.MemPool (sizeofPtr blocks)
open RtThread.Scheduler (rtFfs isFirst_rtFfs)
open RtThread.Scheduler.ReadyQueue (rtFfs_pos)
open RtThread.SmallMem (HeapConfig)

variable {Tid Data : Type*} {cfg : HeapConfig}

/-! ## Threads that wait for an item -/

/-- A push has resumed the thread, and it has not run again. -/
def PqPc.resumedCount : PqPc Data → ℕ
  | .woken _ .eok => 1
  | _ => 0

/-- The threads that sleep in `rt_prio_queue_pop` are in the list, and there are not more
items than resumed threads. -/
structure Poppers [Fintype Tid] (waiting : List Tid) (pc : Tid → PqPc Data) (items : ℕ) :
    Prop where
  listed : ∀ tid, tid ∈ waiting ↔ ∃ timeout, pc tid = .asleep timeout
  nodup : waiting.Nodup
  enough : waiting ≠ [] → items ≤ tally PqPc.resumedCount pc

section Poppers

variable [Fintype Tid] [DecidableEq Tid] {waiting : List Tid} {pc : Tid → PqPc Data}
  {items : ℕ} {tid : Tid}

theorem Poppers.move (hpoppers : Poppers waiting pc items) {after : PqPc Data} {left : ℕ}
    (hbefore : ∀ timeout, pc tid ≠ .asleep timeout) (hafter : ∀ timeout, after ≠ .asleep timeout)
    (hitems : left = 0 ∨ left + (pc tid).resumedCount ≤ items + after.resumedCount) :
    Poppers waiting (update pc tid after) left where
  listed := by
    intro other
    rw [hpoppers.listed]
    by_cases heq : other = tid
    · subst heq
      rw [update_self]
      exact ⟨fun ⟨timeout, h⟩ => absurd h (hbefore timeout),
        fun ⟨timeout, h⟩ => absurd h (hafter timeout)⟩
    · rw [update_of_ne heq]
  nodup := hpoppers.nodup
  enough := by
    intro hwaiting
    have henough := hpoppers.enough hwaiting
    have hmove := tally_update PqPc.resumedCount pc tid after
    omega

omit [DecidableEq Tid] in
/-- While no thread waits, any number of items is enough. -/
theorem Poppers.of_nil (hpoppers : Poppers [] pc items) (left : ℕ) : Poppers [] pc left :=
  ⟨hpoppers.listed, hpoppers.nodup, fun hwaiting => absurd rfl hwaiting⟩

/-- A thread that has found the queue empty goes to sleep. -/
theorem Poppers.sleep (hpoppers : Poppers waiting pc items) {timeout : ℤ}
    (hbefore : ∀ timeout, pc tid ≠ .asleep timeout) :
    Poppers (waiting ++ [tid]) (update pc tid (.asleep timeout)) 0 where
  listed := by
    intro other
    rw [List.mem_append, List.mem_singleton, hpoppers.listed]
    by_cases heq : other = tid
    · subst heq
      rw [update_self]
      exact ⟨fun _ => ⟨timeout, rfl⟩, fun _ => Or.inr rfl⟩
    · rw [update_of_ne heq]
      exact ⟨fun h => h.resolve_right heq, Or.inl⟩
  nodup := by
    have hnot : tid ∉ waiting := by
      rw [hpoppers.listed]
      exact fun ⟨timeout, h⟩ => hbefore timeout h
    rw [List.nodup_append']
    exact ⟨hpoppers.nodup, List.nodup_singleton tid, by simpa using hnot⟩
  enough := fun _ => Nat.zero_le _

theorem Poppers.leave (hpoppers : Poppers waiting pc items) {timeout time : ℤ} {err : Kernel.Err}
    (hbefore : pc tid = .asleep timeout) {left : ℕ}
    (hitems : left ≤ items + (PqPc.woken time err : PqPc Data).resumedCount) :
    Poppers (waiting.erase tid) (update pc tid (.woken time err)) left where
  listed := by
    intro other
    rw [hpoppers.nodup.mem_erase_iff, hpoppers.listed]
    by_cases heq : other = tid
    · subst heq
      rw [update_self]
      exact ⟨fun h => absurd rfl h.1, fun ⟨_, h⟩ => by cases h⟩
    · rw [update_of_ne heq]
      exact ⟨fun h => h.2, fun h => ⟨heq, h⟩⟩
  nodup := hpoppers.nodup.erase tid
  enough := by
    intro hwaiting
    have henough := hpoppers.enough fun hnil => hwaiting (by rw [hnil]; rfl)
    have hmove := tally_update PqPc.resumedCount pc tid (.woken time err)
    have hasleep : (pc tid).resumedCount = 0 := by rw [hbefore]; rfl
    omega

end Poppers

/-! ## The owners of the blocks -/

inductive PqOwner (Tid : Type*)
  | free
  | level (prio : ℕ)
  | call (tid : Tid)

/-- The item that a call works on. -/
def PqPc.item : PqPc Data → Option ℕ
  | .filling _ _ item | .linking _ _ item | .copying item | .freeing item _ => some item
  | .out | .allocating _ _ | .asleep _ | .woken _ _ => none

/-- The blocks of each owner; an item stands behind the word of its block. -/
def pqOwned (cfg : HeapConfig) (free : List ℕ) (queue : List (ℕ × ℕ))
    (pc : Tid → PqPc Data) : PqOwner Tid → List ℕ
  | .free => free.map (· + sizeofPtr cfg)
  | .level prio => level queue prio
  | .call tid => (pc tid).item.toList

def poolItems (cfg : HeapConfig) (mp : MemPool.RtMempool Tid) : Set ℕ :=
  {item | ∃ block ∈ blocks cfg mp, item = block + sizeofPtr cfg}

section Owners

variable [DecidableEq Tid] {free : List ℕ} {queue : List (ℕ × ℕ)} {pc : Tid → PqPc Data}
  {tid : Tid} {item : ℕ} {after : PqPc Data}

theorem pqOwned_call_of_ne {free' : List ℕ} {queue' : List (ℕ × ℕ)} {other : Tid}
    (hne : PqOwner.call other ≠ PqOwner.call tid) :
    pqOwned cfg free' queue' (update pc tid after) (.call other) =
      pqOwned cfg free queue pc (.call other) := by
  have hne : other ≠ tid := fun heq => hne (by rw [heq])
  simp [pqOwned, hne]

theorem moves_free_call {rest : List ℕ} (hbefore : (pc tid).item = none)
    (hafter : after.item = some item)
    (hperm : (free.map (· + sizeofPtr cfg)).Perm (item :: rest.map (· + sizeofPtr cfg))) :
    Moves (pqOwned cfg free queue pc)
      (pqOwned cfg rest queue (update pc tid after)) .free (.call tid) item where
  ne := by simp
  leaves := hperm
  enters := by simp [pqOwned, hbefore, hafter]
  others owner hsource htarget := by
    cases owner with
    | free => contradiction
    | level prio => rfl
    | call other => exact pqOwned_call_of_ne htarget

theorem moves_call_level (prio : ℕ) (hbefore : (pc tid).item = some item)
    (hafter : after.item = none) :
    Moves (pqOwned cfg free queue pc)
      (pqOwned cfg free (queue ++ [(prio, item)]) (update pc tid after))
      (.call tid) (.level prio) item where
  ne := by simp
  leaves := by simp [pqOwned, hbefore, hafter]
  enters := by
    simp only [pqOwned, level_append, if_true]
    exact List.perm_append_singleton ..
  others owner hsource htarget := by
    cases owner with
    | free => rfl
    | level other =>
      have hne : prio ≠ other := fun heq => htarget (by rw [heq])
      simp only [pqOwned, level_append, if_neg hne]
    | call other => exact pqOwned_call_of_ne hsource

theorem moves_level_call {queue' : List (ℕ × ℕ)} {prio : ℕ} {rest : List ℕ}
    (hbefore : (pc tid).item = none)
    (hafter : after.item = some item) (hlevel : level queue prio = item :: rest)
    (hlevels : ∀ other, level queue' other = if other = prio then rest else level queue other) :
    Moves (pqOwned cfg free queue pc)
      (pqOwned cfg free queue' (update pc tid after)) (.level prio) (.call tid)
        item where
  ne := by simp
  leaves := by
    simp only [pqOwned, hlevels, if_true, hlevel]
    exact List.Perm.refl _
  enters := by simp [pqOwned, hbefore, hafter]
  others owner hsource htarget := by
    cases owner with
    | free => rfl
    | level other =>
      have hne : other ≠ prio := fun heq => hsource (by rw [heq])
      simp only [pqOwned, hlevels, if_neg hne]
    | call other => exact pqOwned_call_of_ne htarget

theorem moves_call_free {block : ℕ} (hbefore : (pc tid).item = some (block + sizeofPtr cfg))
    (hafter : after.item = none) :
    Moves (pqOwned cfg free queue pc)
      (pqOwned cfg (block :: free) queue (update pc tid after))
      (.call tid) .free (block + sizeofPtr cfg) where
  ne := by simp
  leaves := by simp [pqOwned, hbefore, hafter]
  enters := List.Perm.refl _
  others owner hsource htarget := by
    cases owner with
    | free => contradiction
    | level prio => rfl
    | call other => exact pqOwned_call_of_ne hsource

theorem pqOwned_update (hitem : after.item = (pc tid).item) :
    pqOwned cfg free queue (update pc tid after) =
      pqOwned cfg free queue pc := by
  funext owner
  cases owner with
  | free => rfl
  | level prio => rfl
  | call other =>
    rw [pqOwned, pqOwned]
    by_cases heq : other = tid
    · subst heq
      rw [update_self, hitem]
    · rw [update_of_ne heq]

end Owners

/-! ## The pool -/

section Pool

variable [DecidableEq Tid] {pool next : MemPool.State Tid} {free : List ℕ}

/-- The pool with `free` as its free list. -/
def PoolInv (cfg : HeapConfig) (pool : MemPool.State Tid) (free : List ℕ) : Prop :=
  MemPool.Inv cfg pool.mp pool.mpAddress pool.held free

omit [DecidableEq Tid] in
/-- A block that comes to the blocks held leaves the free list. -/
theorem PoolInv.taken {mp : MemPool.RtMempool Tid} {mpAddress item : ℕ} {rest : List ℕ}
    (hinv : PoolInv cfg pool free)
    (hnext : MemPool.Inv cfg mp mpAddress (item :: pool.held) rest)
    (hblocks : blocks cfg mp = blocks cfg pool.mp) :
    (free.map (· + sizeofPtr cfg)).Perm (item :: rest.map (· + sizeofPtr cfg)) := by
  have hparts := hnext.parts
  rw [hblocks] at hparts
  exact (List.perm_append_right_iff pool.held).1
    (hinv.parts.trans (hparts.symm.trans List.perm_middle))

/-- An allocator takes a block from the free list, or leaves the blocks alone. -/
theorem PoolInv.step (hinv : PoolInv cfg pool free) {act : MemPool.Action Tid}
    {event : MemPool.Event Tid} (haction : ∀ block, act ≠ .free block)
    (hstep : MemPool.step cfg pool act = some (next, event)) :
    blocks cfg next.mp = blocks cfg pool.mp ∧
      ((∃ tid item rest, event = .allocated tid item ∧ PoolInv cfg next rest ∧
          (free.map (· + sizeofPtr cfg)).Perm (item :: rest.map (· + sizeofPtr cfg))) ∨
        PoolInv cfg next free ∧ (∀ tid item, event ≠ .allocated tid item) ∧
          ∀ tid, event ≠ .asserted tid) := by
  have hturn : ∀ tid time, MemPool.allocTurn cfg pool tid time = (next, event) →
      blocks cfg next.mp = blocks cfg pool.mp ∧
      ((∃ tid item rest, event = .allocated tid item ∧ PoolInv cfg next rest ∧
          (free.map (· + sizeofPtr cfg)).Perm (item :: rest.map (· + sizeofPtr cfg))) ∨
        PoolInv cfg next free ∧ (∀ tid item, event ≠ .allocated tid item) ∧
          ∀ tid, event ≠ .asserted tid) := by
    intro tid time hturn
    rw [MemPool.allocTurn] at hturn
    split at hturn
    · split at hturn
      · cases hturn
        exact ⟨rfl, Or.inr ⟨hinv, by simp, by simp⟩⟩
      · cases hturn
        exact ⟨rfl, Or.inr ⟨MemPool.Inv.of_waiters hinv _ _, by simp, by simp⟩⟩
    · rename_i hcount
      obtain ⟨hblock, rest, hrest⟩ := MemPool.Inv.take hinv hcount
      rw [MemPool.takeBlock, if_neg hblock] at hturn
      cases hturn
      exact ⟨rfl, Or.inl ⟨tid, _, rest, rfl, hrest, hinv.taken hrest rfl⟩⟩
  cases act with
  | alloc tid time =>
    simp only [MemPool.step, MemPool.rtMpAlloc, Option.ite_none_right_eq_some,
      Option.some.injEq] at hstep
    exact hturn tid time hstep.2
  | free block => exact absurd rfl (haction block)
  | timeout tid =>
    simp only [MemPool.step, Option.ite_none_right_eq_some, Option.some.injEq,
      Prod.mk.injEq] at hstep
    obtain ⟨-, rfl, rfl⟩ := hstep
    exact ⟨rfl, Or.inr ⟨MemPool.Inv.of_waiters hinv _ _, by simp, by simp⟩⟩
  | resume tid =>
    simp only [MemPool.step, MemPool.afterSchedule] at hstep
    split at hstep
    · split at hstep
      · cases hstep
      · split at hstep
        all_goals
          cases hstep
          exact ⟨rfl, Or.inr ⟨hinv, by simp, by simp⟩⟩
    · cases hstep
  | retry tid =>
    simp only [MemPool.step, MemPool.afterWakeup, Option.ite_none_right_eq_some] at hstep
    obtain ⟨-, hstep⟩ := hstep
    split at hstep
    · exact hturn tid _ (Option.some.inj hstep)
    · cases hstep
  | tick =>
    simp only [MemPool.step, Option.some.injEq, Prod.mk.injEq] at hstep
    obtain ⟨rfl, rfl⟩ := hstep
    exact ⟨rfl, Or.inr ⟨hinv, by simp, by simp⟩⟩

theorem PoolInv.rtMpFree (hinv : PoolInv cfg pool free) {item : ℕ} (hheld : item ∈ pool.held) :
    ∃ block, item = block + sizeofPtr cfg ∧
      PoolInv cfg (MemPool.rtMpFree cfg pool item).1 (block :: free) ∧
        blocks cfg (MemPool.rtMpFree cfg pool item).1.mp = blocks cfg pool.mp := by
  obtain ⟨block, hblock, rfl⟩ := MemPool.Inv.held_mem hinv hheld
  have hne : block + sizeofPtr cfg ≠ 0 := Nat.ne_of_gt
    (Nat.add_pos_right _ MemPool.sizeofPtr_pos)
  have howner := hinv.owner _ hheld
  have hlinked := MemPool.Inv.link hinv hheld
  rw [Nat.add_sub_cancel] at howner
  refine ⟨block, rfl, ?_⟩
  rw [MemPool.rtMpFree, if_neg hne, Nat.add_sub_cancel, if_pos howner, MemPool.resumeWaiter]
  split
  · exact ⟨hlinked, rfl⟩
  · split
    · exact ⟨MemPool.Inv.of_waiters hlinked _ _, rfl⟩
    · exact ⟨MemPool.Inv.of_waiters hlinked _ _, rfl⟩

end Pool

/-! ## The lists -/

section Lists

variable {que next : RtPrioQueue Tid Data} {queue : List (ℕ × ℕ)} {prio item : ℕ}

/-- Each list has the items of its priority, the tail is good where there are any, and the
bits tell where. -/
structure PqLists (que : RtPrioQueue Tid Data) (queue : List (ℕ × ℕ)) : Prop where
  prios : ∀ item ∈ queue, item.1 < rtPrioQueuePrioMax
  chain : ∀ prio, Chain que.next (que.head prio) (level queue prio)
  tail : ∀ prio, level queue prio ≠ [] → que.tail prio = (level queue prio).getLast?
  bits : OneLevel que.bitmap fun prio => level queue prio ≠ []

theorem PqLists.write (hlists : PqLists que queue) (link : Option ℕ) (data : ℕ → Data)
    (hnot : ∀ prio, item ∉ level queue prio) :
    PqLists { que with data := data, next := update que.next item link } queue :=
  ⟨hlists.prios, fun prio => (hlists.chain prio).update_of_not_mem link (hnot prio), hlists.tail,
    hlists.bits⟩

theorem PqLists.prio_lt (hlists : PqLists que queue) (hlevel : level queue prio ≠ []) :
    prio < rtPrioQueuePrioMax := by
  obtain ⟨item, hitem⟩ := List.exists_mem_of_ne_nil _ hlevel
  exact hlists.prios (prio, item) (mem_level.1 hitem)

theorem bits_append {bitmap : BitVec 32} (hprio : prio < rtPrioQueuePrioMax)
    (hbits : OneLevel bitmap fun prio => level queue prio ≠ []) :
    OneLevel (bitmap ||| 1#32 <<< prio) fun other => level (queue ++ [(prio, item)])
      other ≠ [] := by
  refine hbits.set hprio fun other => ?_
  rw [level_append]
  split
  · rename_i heq
    simp [← heq]
  · rename_i hne
    simp [Ne.symm hne]

theorem doPush_of_none (hhead : que.head prio = none) :
    doPush que prio item = some { que with
      head := update que.head prio (some item)
      bitmap := que.bitmap ||| 1#32 <<< prio
      tail := update que.tail prio (some item) } := by
  simp only [doPush, hhead]

theorem doPush_of_some {first last : ℕ} (hhead : que.head prio = some first)
    (htail : que.tail prio = some last) :
    doPush que prio item = some { que with
      next := update que.next last (some item)
      tail := update que.tail prio (some item) } := by
  simp only [doPush, hhead, htail]

/-- `_do_push` links the item behind the others of its priority. -/
theorem PqLists.doPush (hlists : PqLists que queue) (hprio : prio < rtPrioQueuePrioMax)
    (hend : que.next item = none) (hnot : ∀ prio, item ∉ level queue prio)
    (hnodup : ∀ prio, (level queue prio).Nodup)
    (hunique : ∀ prio other cell, cell ∈ level queue prio → cell ∈ level queue other →
      prio = other) :
    ∃ next, doPush que prio item = some next ∧ PqLists next (queue ++ [(prio, item)]) ∧
      next.data = que.data ∧ next.suspendedPopList = que.suspendedPopList ∧
        ∀ cell, (∀ prio, cell ∉ level queue prio) → next.next cell = que.next cell := by
  have hprios : ∀ entry ∈ queue ++ [(prio, item)], entry.1 < rtPrioQueuePrioMax := by
    intro entry hentry
    rcases List.mem_append.1 hentry with hold | hnew
    · exact hlists.prios entry hold
    · rw [List.mem_singleton.1 hnew]
      exact hprio
  have hchain := hlists.chain prio
  by_cases hempty : level queue prio = []
  · have hhead : que.head prio = none := hchain.start_eq_none_iff.2 hempty
    refine ⟨_, doPush_of_none hhead, ⟨hprios, fun other => ?_, fun other hlevel => ?_,
      bits_append hprio hlists.bits⟩, rfl, rfl, fun _ _ => rfl⟩
    · change Chain que.next (update que.head prio (some item) other) _
      rw [level_append]
      by_cases heq : other = prio
      · subst heq
        rw [update_self, if_pos rfl, hempty]
        exact ⟨rfl, hend⟩
      · rw [update_of_ne heq, if_neg (Ne.symm heq)]
        exact hlists.chain other
    · change update que.tail prio (some item) other = _
      rw [level_append] at hlevel ⊢
      by_cases heq : other = prio
      · subst heq
        rw [update_self, if_pos rfl, hempty]
        rfl
      · rw [if_neg (Ne.symm heq)] at hlevel
        rw [update_of_ne heq, if_neg (Ne.symm heq)]
        exact hlists.tail other hlevel
  · obtain ⟨first, hhead⟩ : ∃ first, que.head prio = some first :=
      Option.ne_none_iff_exists'.1 fun hnone => hempty (hchain.start_eq_none_iff.1 hnone)
    obtain ⟨last, hlast⟩ : ∃ last, (level queue prio).getLast? = some last :=
      Option.ne_none_iff_exists'.1 fun hnone => hempty (List.getLast?_eq_none_iff.1 hnone)
    have htail := (hlists.tail prio hempty).trans hlast
    have hmem : last ∈ level queue prio := List.mem_of_getLast? hlast
    refine ⟨_, doPush_of_some hhead htail, ⟨hprios, fun other => ?_, fun other hlevel => ?_,
      ?_⟩, rfl, rfl, fun cell hcell => ?_⟩
    · change Chain (update que.next last (some item)) (que.head other) _
      rw [level_append]
      by_cases heq : other = prio
      · subst heq
        rw [if_pos rfl]
        exact hchain.append (hnodup other) hlast (hnot other) hend
      · rw [if_neg (Ne.symm heq)]
        exact (hlists.chain other).update_of_not_mem _ fun h => heq (hunique _ _ _ h hmem)
    · change update que.tail prio (some item) other = _
      rw [level_append] at hlevel ⊢
      by_cases heq : other = prio
      · subst heq
        rw [update_self, if_pos rfl, List.getLast?_concat]
      · rw [if_neg (Ne.symm heq)] at hlevel
        rw [update_of_ne heq, if_neg (Ne.symm heq)]
        exact hlists.tail other hlevel
    · -- the bit is set already
      intro other
      dsimp only
      rw [level_append, hlists.bits other]
      split
      · rename_i heq
        subst heq
        simpa using hempty
      · exact Iff.rfl
    · have hne : cell ≠ last := fun heq => hcell prio (by rwa [heq])
      exact update_of_ne hne ..

/-- `_do_pop` unlinks the oldest item of the lowest priority. -/
theorem PqLists.doPop (hlists : PqLists que queue) :
    (queue = [] ∧ doPop que = some (que, none)) ∨
      ∃ next prio item rest after, doPop que = some (next, some item) ∧
        pop queue = some ((prio, item), after) ∧ level queue prio = item :: rest ∧
        (∀ other, level after other = if other = prio then rest else level queue other) ∧
        queue.Perm ((prio, item) :: after) ∧
        PqLists next after ∧ next.data = que.data ∧
          next.suspendedPopList = que.suspendedPopList ∧ next.next = que.next := by
  by_cases hzero : que.bitmap = 0
  · left
    refine ⟨?_, if_pos (by rw [hzero]; rfl)⟩
    cases queue with
    | nil => rfl
    | cons entry rest =>
      have hmem : entry.2 ∈ level (entry :: rest) entry.1 := mem_level.2 List.mem_cons_self
      exact absurd hzero (hlists.bits.ne_zero_iff.2 ⟨entry.1, List.ne_nil_of_mem hmem⟩)
  · right
    have hpos := rtFfs_pos hzero
    obtain ⟨hpresent, hbelow⟩ := hlists.bits.first (isFirst_rtFfs hzero)
    generalize hprio : rtFfs que.bitmap - 1 = prio at hpresent hbelow
    obtain ⟨item, rest, hlevel⟩ := List.exists_cons_of_ne_nil hpresent
    have hchain := hlists.chain prio
    rw [hlevel] at hchain
    obtain ⟨hhead, hrest⟩ := hchain
    obtain ⟨after, hpop, hlevels, hperm⟩ :=
      pop_of_lowest hlevel fun other hlt => not_not.1 (hbelow other hlt)
    have hpopped : Vbus.doPop que = some
        ({ que with
          head := update que.head prio (que.next item)
          bitmap := if que.next item = none then que.bitmap &&& ~~~(1#32 <<< prio)
            else que.bitmap }, some item) := by
      simp only [Vbus.doPop, if_neg (Nat.ne_of_gt hpos), hprio, hhead]
    have hlast : que.next item = none ↔ rest = [] := hrest.start_eq_none_iff
    refine ⟨_, prio, item, rest, after, hpopped, hpop, hlevel, hlevels, hperm, ?_, rfl, rfl, rfl⟩
    refine ⟨fun entry hentry => hlists.prios entry
      (hperm.mem_iff.2 (List.mem_cons_of_mem _ hentry)),
      fun other => ?_, fun other hother => ?_, ?_⟩
    · change Chain que.next (update que.head prio (que.next item) other) _
      rw [hlevels]
      by_cases heq : other = prio
      · rw [heq, update_self, if_pos rfl]
        exact hrest
      · rw [update_of_ne heq, if_neg heq]
        exact hlists.chain other
    · rw [hlevels] at hother ⊢
      by_cases heq : other = prio
      · rw [if_pos heq] at hother
        have htail := hlists.tail prio (by rw [hlevel]; exact List.cons_ne_nil _ _)
        rw [hlevel, List.getLast?_cons_of_ne_nil hother] at htail
        rw [heq, if_pos rfl]
        exact htail
      · rw [if_neg heq] at hother ⊢
        exact hlists.tail other hother
    · change OneLevel (if que.next item = none then _ else _) _
      split
      · rename_i hnone
        refine hlists.bits.clear (hlists.prio_lt hpresent) fun other => ?_
        rw [hlevels]
        by_cases heq : other = prio
        · rw [if_pos heq]
          simp [hlast.1 hnone, heq]
        · rw [if_neg heq]
          simp [heq]
      · rename_i hsome
        intro other
        dsimp only
        rw [hlists.bits other, hlevels]
        by_cases heq : other = prio
        · rw [if_pos heq, heq]
          exact iff_of_true hpresent fun hnil => hsome (hlast.2 hnil)
        · rw [if_neg heq]

end Lists

/-! ## The refinement -/

section Refinement

/-- What the call of a thread has to do with the hand of the thread. -/
def CallMatches (que : RtPrioQueue Tid Data) (hand : Option Data) : PqPc Data → Prop
  | .allocating prio _ | .filling prio _ _ => prio < rtPrioQueuePrioMax ∧ hand = none
  | .linking prio data item =>
    prio < rtPrioQueuePrioMax ∧ que.data item = data ∧ que.next item = none ∧ hand = none
  | .copying item => hand = some (que.data item)
  | .freeing _ data => hand = some data
  | .out | .asleep _ | .woken _ _ => hand = none

/-- The state of the code is one of the state of the specification: `queue` has the
addresses of its items, and `free` is the free list of the pool. -/
structure PqRep [Fintype Tid] (cfg : HeapConfig) (st : PqState Tid Data)
    (spec : PqSpec Tid Data) (free : List ℕ) (queue : List (ℕ × ℕ)) : Prop where
  pool : PoolInv cfg st.pool free
  queued : spec.queue = queue.map (Prod.map id st.que.data)
  lists : PqLists st.que queue
  parts : Partitions (pqOwned cfg free queue st.pc) (poolItems cfg st.pool.mp)
  calls : ∀ tid, CallMatches st.que (spec.hand tid) (st.pc tid)
  poppers : Poppers st.que.suspendedPopList st.pc queue.length

variable [Fintype Tid] [DecidableEq Tid] {st next : PqState Tid Data} {spec : PqSpec Tid Data}
  {free : List ℕ} {queue : List (ℕ × ℕ)} {tid : Tid} {item : ℕ} {event : PqEvent Data}

omit [DecidableEq Tid] in
theorem PqRep.not_mem_level (hrep : PqRep cfg st spec free queue)
    (hitem : (st.pc tid).item = some item) (prio : ℕ) : item ∉ level queue prio := by
  intro hmem
  have howner := hrep.parts.unique (.call tid) (.level prio) item (by simp [pqOwned, hitem]) hmem
  cases howner

omit [DecidableEq Tid] in
theorem PqRep.item_inj (hrep : PqRep cfg st spec free queue) {other : Tid}
    (hitem : (st.pc tid).item = some item) (hother : (st.pc other).item = some item) :
    tid = other := by
  have howner := hrep.parts.unique (.call tid) (.call other) item (by simp [pqOwned, hitem])
    (by simp [pqOwned, hother])
  rwa [PqOwner.call.injEq] at howner

omit [DecidableEq Tid] in
theorem PqRep.mem_held (hrep : PqRep cfg st spec free queue)
    (hitem : (st.pc tid).item = some item) : item ∈ st.pool.held := by
  obtain ⟨block, hblock, rfl⟩ := (hrep.parts.cover item).2 ⟨.call tid, by simp [pqOwned, hitem]⟩
  have hmem := hrep.pool.parts.mem_iff.2 (List.mem_map_of_mem hblock)
  refine (List.mem_append.1 hmem).resolve_left fun hfree => ?_
  have howner := hrep.parts.unique (.call tid) .free _ (by simp [pqOwned, hitem]) hfree
  cases howner

variable {que : RtPrioQueue Tid Data}

omit [Fintype Tid] [DecidableEq Tid] in
theorem CallMatches.congr {que' : RtPrioQueue Tid Data} {hand : Option Data} {pc : PqPc Data}
    (hcall : CallMatches que hand pc) (hdata : que'.data = que.data)
    (hnext : que'.next = que.next) :
    CallMatches que' hand pc := by
  cases pc <;> simpa only [CallMatches, hdata, hnext] using hcall

variable {after : PqPc Data}

omit [Fintype Tid] in
theorem callMatches_update {hand : Tid → Option Data} {pc : Tid → PqPc Data} {held : Option Data}
    (tid : Tid) (hothers : ∀ other, other ≠ tid → CallMatches que (hand other) (pc other))
    (hafter : CallMatches que held after) (other : Tid) :
    CallMatches que (update hand tid held other) (update pc tid after other) := by
  by_cases heq : other = tid
  · subst heq
    rw [update_self, update_self]
    exact hafter
  · rw [update_of_ne heq, update_of_ne heq]
    exact hothers other heq

omit [Fintype Tid] in
theorem callMatches_move {hand : Tid → Option Data} {pc : Tid → PqPc Data} (tid : Tid)
    (hothers : ∀ other, other ≠ tid → CallMatches que (hand other) (pc other))
    (hafter : CallMatches que (hand tid) after) (other : Tid) :
    CallMatches que (hand other) (update pc tid after other) := by
  have hupdate := callMatches_update tid hothers hafter other
  rwa [update_eq_self] at hupdate

/-- A thread goes on that keeps its item and what it holds, and does not sleep. -/
theorem PqRep.move (hrep : PqRep cfg st spec free queue) (hitem : after.item = (st.pc tid).item)
    (hcalls : CallMatches st.que (spec.hand tid) after)
    (hbefore : ∀ timeout, st.pc tid ≠ .asleep timeout) (hafter : ∀ timeout, after ≠ .asleep timeout)
    (hcount : queue.length = 0 ∨ (st.pc tid).resumedCount ≤ after.resumedCount) :
    PqRep cfg (st.setPc tid after) spec free queue where
  pool := hrep.pool
  queued := hrep.queued
  lists := hrep.lists
  parts := by
    change Partitions (pqOwned cfg free queue (update st.pc tid after)) _
    rw [pqOwned_update hitem]
    exact hrep.parts
  calls := callMatches_move tid (fun other _ => hrep.calls other) hcalls
  poppers := hrep.poppers.move hbefore hafter (by omega)

variable {pool : MemPool.State Tid}

omit [Fintype Tid] [DecidableEq Tid] in
theorem poolItems_congr (hblocks : blocks cfg pool.mp = blocks cfg st.pool.mp) :
    poolItems cfg pool.mp = poolItems cfg st.pool.mp := by
  rw [poolItems, poolItems, hblocks]

omit [DecidableEq Tid] in
/-- What happens to the waiters of the pool does not concern the queue. -/
theorem PqRep.of_pool (hrep : PqRep cfg st spec free queue) (hpool : PoolInv cfg pool free)
    (hblocks : blocks cfg pool.mp = blocks cfg st.pool.mp) :
    PqRep cfg { st with pool := pool } spec free queue where
  pool := hpool
  queued := hrep.queued
  lists := hrep.lists
  parts := by
    rw [poolItems_congr hblocks]
    exact hrep.parts
  calls := hrep.calls
  poppers := hrep.poppers

theorem PqRep.pool_step (hrep : PqRep cfg st spec free queue) {act : MemPool.Action Tid}
    {event : MemPool.Event Tid} (haction : ∀ block, act ≠ .free block)
    (hstep : MemPool.step cfg st.pool act = some (pool, event))
    (hevent : ∀ tid item, event ≠ .allocated tid item) :
    PqRep cfg { st with pool := pool } spec free queue := by
  obtain ⟨hblocks, ⟨other, item, _, hallocated, -⟩ | ⟨hpool, -⟩⟩ := hrep.pool.step haction hstep
  · exact absurd hallocated (hevent other item)
  · exact hrep.of_pool hpool hblocks

variable {prio : ℕ} {data : Data}

theorem PqRep.allocated (hrep : PqRep cfg st spec free queue) {rest : List ℕ}
    (hpool : PoolInv cfg pool rest) (hblocks : blocks cfg pool.mp = blocks cfg st.pool.mp)
    (hperm : (free.map (· + sizeofPtr cfg)).Perm (item :: rest.map (· + sizeofPtr cfg)))
    (hitem : (st.pc tid).item = none) (hcount : (st.pc tid).resumedCount = 0)
    (hbefore : ∀ timeout, st.pc tid ≠ .asleep timeout) (hprio : prio < rtPrioQueuePrioMax)
    (hhand : spec.hand tid = none) :
    PqRep cfg ({ st with pool := pool }.setPc tid (.filling prio data item)) spec rest
      queue where
  pool := hpool
  queued := hrep.queued
  lists := hrep.lists
  parts := by
    change Partitions _ (poolItems cfg pool.mp)
    rw [poolItems_congr hblocks]
    exact hrep.parts.move (moves_free_call hitem rfl hperm)
  calls := callMatches_move tid (fun other _ => hrep.calls other) ⟨hprio, hhand⟩
  poppers := hrep.poppers.move hbefore nofun (by rw [hcount]; exact Or.inr le_rfl)

/-- A push writes into the item that it has allocated. -/
theorem PqRep.filled (hrep : PqRep cfg st spec free queue)
    (hpc : st.pc tid = .filling prio data item) : PqRep cfg ({ st with que := { st.que with
      data := update st.que.data item data
      next := update st.que.next item none } }.setPc tid (.linking prio data item))
        spec free queue := by
  have hitem : (st.pc tid).item = some item := by rw [hpc]; rfl
  have hnot := hrep.not_mem_level hitem
  obtain ⟨hprio, hhand⟩ : prio < rtPrioQueuePrioMax ∧ spec.hand tid = none := by
    have hcall := hrep.calls tid
    rwa [hpc] at hcall
  -- the other calls work on other items
  have hcalls : ∀ other, other ≠ tid → CallMatches { st.que with
      data := update st.que.data item data
      next := update st.que.next item none } (spec.hand other) (st.pc other) := by
    intro other hne
    have hcall := hrep.calls other
    have hdistinct : ∀ cell, (st.pc other).item = some cell → cell ≠ item := by
      rintro cell hcell rfl
      exact hne (hrep.item_inj hcell hitem)
    cases hother : st.pc other with
    | linking _ _ cell =>
      rw [hother] at hcall hdistinct
      have hcell := hdistinct cell rfl
      refine ⟨hcall.1, ?_, ?_, hcall.2.2.2⟩
      · dsimp only
        rw [update_of_ne hcell]
        exact hcall.2.1
      · dsimp only
        rw [update_of_ne hcell]
        exact hcall.2.2.1
    | copying cell =>
      rw [hother] at hcall hdistinct
      change spec.hand other = some (update st.que.data item data cell)
      rw [update_of_ne (hdistinct cell rfl)]
      exact hcall
    | _ =>
      rw [hother] at hcall
      exact hcall
  refine ⟨hrep.pool, ?_, hrep.lists.write none _ hnot, ?_, callMatches_move tid hcalls ?_, ?_⟩
  · rw [hrep.queued]
    refine List.map_congr_left fun entry hentry => ?_
    have hne : entry.2 ≠ item := fun heq => hnot entry.1 (mem_level.2 (heq ▸ hentry))
    change (entry.1, st.que.data entry.2) =
      (entry.1, update st.que.data item data entry.2)
    rw [update_of_ne hne]
  · have hkept : (PqPc.linking prio data item).item = (st.pc tid).item := hitem.symm
    change Partitions (pqOwned cfg free queue
      (update st.pc tid (.linking prio data item))) _
    rw [pqOwned_update hkept]
    exact hrep.parts
  · exact ⟨hprio, update_self .., update_self .., hhand⟩
  · exact hrep.poppers.move (by rw [hpc]; nofun) nofun (by rw [hpc]; exact Or.inr le_rfl)

/-- A push links its item, and resumes the first thread that waits for one. -/
theorem PqRep.linked (hrep : PqRep cfg st spec free queue)
    (hpc : st.pc tid = .linking prio data item)
    (hlink : linkItem st tid prio data item = (next, event)) : event = .pushed prio data ∧
      PqRep cfg next { spec with queue := spec.queue ++ [(prio, data)] } free
        (queue ++ [(prio, item)]) := by
  have hitem : (st.pc tid).item = some item := by rw [hpc]; rfl
  have hnot := hrep.not_mem_level hitem
  obtain ⟨hprio, hdata, hend, hhand⟩ : CallMatches st.que (spec.hand tid)
      (.linking prio data item) := hpc ▸ hrep.calls tid
  obtain ⟨que, hpush, hlists, hqueData, hwaiting, hnext⟩ := hrep.lists.doPush hprio hend hnot
    (fun other => hrep.parts.nodup (.level other)) (fun left right cell hleft hright => by
      have howner := hrep.parts.unique (.level left) (.level right) cell hleft hright
      rwa [PqOwner.level.injEq] at howner)
  have hqueued : (spec.queue ++ [(prio, data)]) =
      (queue ++ [(prio, item)]).map (Prod.map id que.data) := by
    rw [hrep.queued, List.map_append, hqueData]
    simp [hdata]
  have hout : (PqPc.out : PqPc Data).item = none := rfl
  have hparts := hrep.parts.move (moves_call_level prio hitem hout)
  have hcalls : ∀ other, other ≠ tid → CallMatches que (spec.hand other) (st.pc other) := by
    intro other hne
    have hcall := hrep.calls other
    cases hother : st.pc other with
    | linking _ _ cell =>
      rw [hother] at hcall
      refine ⟨hcall.1, ?_, ?_, hcall.2.2.2⟩
      · rw [hqueData]
        exact hcall.2.1
      · rw [hnext cell (hrep.not_mem_level (by rw [hother]; rfl))]
        exact hcall.2.2.1
    | copying cell =>
      rw [hother] at hcall
      change spec.hand other = some (que.data cell)
      rw [hqueData]
      exact hcall
    | _ =>
      rw [hother] at hcall
      exact hcall
  have hall : ∀ other, CallMatches que (spec.hand other)
      (update st.pc tid .out other) := callMatches_move tid hcalls hhand
  have hpoppers := hrep.poppers
  have hasleep : ∀ timeout, st.pc tid ≠ .asleep timeout := by rw [hpc]; nofun
  have hcount : (st.pc tid).resumedCount = 0 := by rw [hpc]; rfl
  have hlength : (queue ++ [(prio, item)]).length = queue.length + 1 := List.length_append
  simp only [linkItem, hpush, hwaiting] at hlink
  cases hlist : st.que.suspendedPopList with
  | nil =>
    rw [hlist] at hlink hpoppers
    cases hlink
    refine ⟨rfl, hrep.pool, hqueued, hlists, hparts, hall, ?_⟩
    change Poppers que.suspendedPopList _ _
    rw [hwaiting, hlist]
    exact (hpoppers.of_nil _).move hasleep nofun (by rw [hcount]; exact Or.inr le_rfl)
  | cons thread rest =>
    rw [hlist] at hlink hpoppers
    cases hlink
    obtain ⟨timeout, hthread⟩ := (hpoppers.listed thread).1 List.mem_cons_self
    have hne : thread ≠ tid := by
      rintro rfl
      exact hasleep timeout hthread
    have hafter : update st.pc tid .out thread = .asleep timeout := by
      rw [update_of_ne hne, hthread]
    have hmoved : Poppers (thread :: rest) (update st.pc tid .out) queue.length :=
      hpoppers.move hasleep nofun (by rw [hcount]; exact Or.inr le_rfl)
    have hleft : Poppers ((thread :: rest).erase thread)
        (update (update st.pc tid .out) thread (.woken timeout .eok))
          (queue ++ [(prio, item)]).length :=
      hmoved.leave hafter hlength.le
    rw [List.erase_cons_head] at hleft
    have hhandThread : spec.hand thread = none := by
      have hcall := hrep.calls thread
      rwa [hthread] at hcall
    refine ⟨rfl, ?_⟩
    dsimp only [PqState.setPc]
    rw [hafter]
    refine ⟨hrep.pool, hqueued, ⟨hlists.prios, hlists.chain, hlists.tail, hlists.bits⟩, ?_,
      callMatches_move thread (fun other _ => ?_) hhandThread, hleft⟩
    · have hkept : (PqPc.woken timeout .eok : PqPc Data).item =
          (update st.pc tid .out thread).item := by rw [hafter]; rfl
      change Partitions (pqOwned cfg free _ (update
        (update st.pc tid .out) thread (.woken timeout .eok))) _
      rw [pqOwned_update hkept]
      exact hparts
    · exact (hall other).congr rfl rfl

/-- One turn of the loop of a pop: it takes the oldest item of the lowest priority, or finds
no item. -/
theorem PqRep.turned (hrep : PqRep cfg st spec free queue) {timeout : ℤ}
    (hitem : (st.pc tid).item = none) (hbefore : ∀ timeout, st.pc tid ≠ .asleep timeout)
    (hcount : (st.pc tid).resumedCount ≤ 1) (hhand : spec.hand tid = none)
    (hturn : popTurn st tid timeout = (next, event)) :
    (event = .popped ∧ ∃ after queue', pqSpecStep spec (.take tid) = some (after, .taken) ∧
        PqRep cfg next after free queue') ∨
      (spec.queue = [] ∧ (event = .slept ∨ timeout = 0 ∧ event = .failed .etimeout) ∧
        PqRep cfg next spec free queue) := by
  rw [popTurn] at hturn
  rcases hrep.lists.doPop with ⟨rfl, hnone⟩ | ⟨que, prio, item, rest, after, hsome, hpop, hlevel,
      hlevels, hperm, hlists, hdata, hwaiting, hnext⟩
  · have hempty : spec.queue = [] := hrep.queued
    simp only [hnone] at hturn
    refine Or.inr ⟨hempty, ?_⟩
    split at hturn
    · rename_i hzero
      cases hturn
      exact ⟨Or.inr ⟨hzero, rfl⟩, hrep.move (by rw [hitem]; rfl) hhand hbefore nofun (Or.inl rfl)⟩
    · cases hturn
      refine ⟨Or.inl rfl, hrep.pool, hrep.queued, ?_, ?_,
        callMatches_move tid (fun other _ => ?_) hhand, hrep.poppers.sleep hbefore⟩
      · exact ⟨hrep.lists.prios, hrep.lists.chain, hrep.lists.tail, hrep.lists.bits⟩
      · have hkept : (PqPc.asleep timeout : PqPc Data).item = (st.pc tid).item := by
          rw [hitem]
          rfl
        change Partitions (pqOwned cfg free []
          (update st.pc tid (.asleep timeout))) _
        rw [pqOwned_update hkept]
        exact hrep.parts
      · exact (hrep.calls other).congr rfl rfl
  · simp only [hsome] at hturn
    cases hturn
    have hspec : pop spec.queue =
        some ((prio, st.que.data item), after.map (Prod.map id st.que.data)) := by
      rw [hrep.queued, pop_map, hpop]
      rfl
    have hlength : after.length + 1 = queue.length := by
      rw [hperm.length_eq, List.length_cons]
    refine Or.inl ⟨rfl, ⟨after.map (Prod.map id st.que.data),
      update spec.hand tid (some (st.que.data item))⟩, after, ?_, hrep.pool, ?_, hlists,
      ?_, ?_, ?_⟩
    · simp only [pqSpecStep, hhand, hspec]
    · change after.map (Prod.map id st.que.data) = after.map (Prod.map id que.data)
      rw [hdata]
    · exact hrep.parts.move (moves_level_call hitem rfl hlevel hlevels)
    · have hcopy : CallMatches que (some (st.que.data item)) (.copying item) := by
        change some (st.que.data item) = some (que.data item)
        rw [hdata]
      refine callMatches_update tid (fun other _ => ?_) hcopy
      exact (hrep.calls other).congr hdata hnext
    · change Poppers que.suspendedPopList _ _
      rw [hwaiting]
      refine hrep.poppers.move hbefore nofun (Or.inr ?_)
      change after.length + _ ≤ queue.length + 0
      omega

theorem PqRep.freed (hrep : PqRep cfg st spec free queue) (hpc : st.pc tid = .freeing item data) :
    ∃ free', PqRep cfg ({ st with
        pool := (MemPool.rtMpFree cfg st.pool item).1 }.setPc tid .out)
      { spec with hand := update spec.hand tid none } free' queue := by
  have hitem : (st.pc tid).item = some item := by rw [hpc]; rfl
  obtain ⟨block, rfl, hpool, hblocks⟩ := hrep.pool.rtMpFree (hrep.mem_held hitem)
  refine ⟨block :: free, hpool, hrep.queued, hrep.lists, ?_,
    callMatches_update tid (fun other _ => hrep.calls other) rfl, ?_⟩
  · change Partitions _ (poolItems cfg (MemPool.rtMpFree cfg st.pool _).1.mp)
    rw [poolItems_congr hblocks]
    exact hrep.parts.move (moves_call_free hitem rfl)
  · exact hrep.poppers.move (by rw [hpc]; nofun) nofun (by rw [hpc]; exact Or.inr le_rfl)

theorem PqRep.expired (hrep : PqRep cfg st spec free queue) {timeout : ℤ}
    (hpc : st.pc tid = .asleep timeout) :
    PqRep cfg ({ st with que := { st.que with
        suspendedPopList := st.que.suspendedPopList.erase tid } }.setPc tid
          (.woken timeout .etimeout)) spec free queue where
  pool := hrep.pool
  queued := hrep.queued
  lists := ⟨hrep.lists.prios, hrep.lists.chain, hrep.lists.tail, hrep.lists.bits⟩
  parts := by
    have hkept : (PqPc.woken timeout .etimeout : PqPc Data).item = (st.pc tid).item := by
      rw [hpc]
      rfl
    change Partitions (pqOwned cfg free queue
      (update st.pc tid (.woken timeout .etimeout))) _
    rw [pqOwned_update hkept]
    exact hrep.parts
  calls := by
    have hhand : spec.hand tid = none := by
      have hcall := hrep.calls tid
      rwa [hpc] at hcall
    exact callMatches_move tid (fun other _ => (hrep.calls other).congr rfl rfl) hhand
  poppers := hrep.poppers.leave hpc le_rfl

/-- A push in `rt_mp_alloc` gets a block, fails or goes on waiting. -/
theorem PqRep.allocating (hrep : PqRep cfg st spec free queue) {act : MemPool.Action Tid}
    (hitem : (st.pc tid).item = none) (hcount : (st.pc tid).resumedCount = 0)
    (hbefore : ∀ timeout, st.pc tid ≠ .asleep timeout) (hprio : prio < rtPrioQueuePrioMax)
    (hhand : spec.hand tid = none) (haction : ∀ block, act ≠ .free block)
    (hstep : allocate cfg st tid prio data act = some (next, event)) :
    (event = .moved ∨ event = .failed .enomem) ∧ ∃ free', PqRep cfg next spec free' queue := by
  rw [allocate] at hstep
  have hmove : ∀ {pool : MemPool.State Tid} {after : PqPc Data}, PoolInv cfg pool free →
      blocks cfg pool.mp = blocks cfg st.pool.mp → after.item = none →
        CallMatches st.que (spec.hand tid) after → (∀ timeout, after ≠ .asleep timeout) →
          PqRep cfg ({ st with pool := pool }.setPc tid after) spec free queue := by
    intro pool after hpool hblocks hafter hcalls hasleep
    exact (hrep.of_pool hpool hblocks).move (hafter.trans hitem.symm) hcalls hbefore hasleep
      (Or.inr (by rw [hcount]; exact Nat.zero_le _))
  cases hpoolStep : MemPool.step cfg st.pool act with
  | none =>
    rw [hpoolStep] at hstep
    cases hstep
  | some result =>
    obtain ⟨pool, poolEvent⟩ := result
    rw [hpoolStep] at hstep
    obtain ⟨hblocks, hcases⟩ := hrep.pool.step haction hpoolStep
    rcases hcases with ⟨_, item, rest, rfl, hpool, hperm⟩ | ⟨hpool, hallocated, hasserted⟩
    · cases hstep
      exact ⟨Or.inl rfl, rest, hrep.allocated hpool hblocks hperm hitem hcount hbefore hprio hhand⟩
    · cases poolEvent with
      | allocated other item => exact absurd rfl (hallocated other item)
      | asserted other => exact absurd rfl (hasserted other)
      | failed other err =>
        cases hstep
        exact ⟨Or.inr rfl, free, hmove hpool hblocks rfl hhand nofun⟩
      | _ =>
        cases hstep
        exact ⟨Or.inl rfl, free, hmove hpool hblocks rfl ⟨hprio, hhand⟩ nofun⟩

/-- Every step of the code is one of the specification. -/
theorem PqRep.step (hrep : PqRep cfg st spec free queue) {act : PqAction Tid Data}
    (hstep : pqStep cfg st act = some (next, event)) :
    ∃ after, pqSpecStep spec (pqLabel (act, event)).1 =
        some (after, (pqLabel (act, event)).2) ∧
      ∃ free' queue', PqRep cfg next after free' queue' := by
  have hskip : pqLabel (act, event) = (.skip, .skip) →
      (∃ free', PqRep cfg next spec free' queue) →
        ∃ after, pqSpecStep spec (pqLabel (act, event)).1 =
            some (after, (pqLabel (act, event)).2) ∧
          ∃ free' queue', PqRep cfg next after free' queue' := by
    rintro hlabel ⟨free', hnext⟩
    rw [hlabel]
    exact ⟨spec, rfl, free', queue, hnext⟩
  cases act with
  | push tid prio data timeout =>
    simp only [pqStep] at hstep
    split at hstep
    · rename_i hpc
      have hhand : spec.hand tid = none := by
        have hcall := hrep.calls tid
        rwa [hpc] at hcall
      split at hstep
      · cases hstep
        exact hskip rfl ⟨free, hrep⟩
      · rename_i hprio
        obtain ⟨hevent, hnext⟩ := hrep.allocating (by rw [hpc]; rfl) (by rw [hpc]; rfl)
          (by rw [hpc]; nofun) (not_le.1 hprio) hhand (by simp) hstep
        refine hskip ?_ hnext
        rcases hevent with rfl | rfl <;> rfl
    · cases hstep
  | poolResume tid =>
    simp only [pqStep] at hstep
    split at hstep
    · rename_i prio data hpc
      have hcall := hrep.calls tid
      rw [hpc] at hcall
      obtain ⟨hevent, hnext⟩ := hrep.allocating (by rw [hpc]; rfl) (by rw [hpc]; rfl)
        (by rw [hpc]; nofun) hcall.1 hcall.2 (by simp) hstep
      refine hskip ?_ hnext
      rcases hevent with rfl | rfl <;> rfl
    · cases hstep
  | poolRetry tid =>
    simp only [pqStep] at hstep
    split at hstep
    · rename_i prio data hpc
      have hcall := hrep.calls tid
      rw [hpc] at hcall
      obtain ⟨hevent, hnext⟩ := hrep.allocating (by rw [hpc]; rfl) (by rw [hpc]; rfl)
        (by rw [hpc]; nofun) hcall.1 hcall.2 (by simp) hstep
      refine hskip ?_ hnext
      rcases hevent with rfl | rfl <;> rfl
    · cases hstep
  | fill tid =>
    simp only [pqStep] at hstep
    split at hstep
    · rename_i prio data item hpc
      cases hstep
      exact hskip rfl ⟨free, hrep.filled hpc⟩
    · cases hstep
  | link tid =>
    simp only [pqStep] at hstep
    split at hstep
    · rename_i prio data item hpc
      obtain ⟨rfl, hnext⟩ := hrep.linked hpc (Option.some.inj hstep)
      exact ⟨_, rfl, free, _, hnext⟩
    · cases hstep
  | pop tid timeout =>
    simp only [pqStep] at hstep
    split at hstep
    · rename_i hpc
      have hhand : spec.hand tid = none := by
        have hcall := hrep.calls tid
        rwa [hpc] at hcall
      rcases hrep.turned (by rw [hpc]; rfl) (by rw [hpc]; nofun) (by rw [hpc]; exact Nat.zero_le _)
        hhand (Option.some.inj hstep) with ⟨rfl, after, queue', hspec, hnext⟩ |
          ⟨hempty, hevent, hnext⟩
      · exact ⟨after, hspec, free, queue', hnext⟩
      · refine ⟨spec, ?_, free, queue, hnext⟩
        rcases hevent with rfl | ⟨-, rfl⟩ <;> simp [pqLabel, pqSpecStep, hempty]
    · cases hstep
  | repop tid =>
    simp only [pqStep] at hstep
    split at hstep
    · rename_i timeout hpc
      have hhand : spec.hand tid = none := by
        have hcall := hrep.calls tid
        rwa [hpc] at hcall
      rcases hrep.turned (by rw [hpc]; rfl) (by rw [hpc]; nofun) (by rw [hpc]; exact le_rfl)
        hhand (Option.some.inj hstep) with ⟨rfl, after, queue', hspec, hnext⟩ |
          ⟨hempty, hevent, hnext⟩
      · exact ⟨after, hspec, free, queue', hnext⟩
      · refine ⟨spec, ?_, free, queue, hnext⟩
        rcases hevent with rfl | ⟨-, rfl⟩ <;> simp [pqLabel, pqSpecStep, hempty]
    · rename_i timeout err hne hpc
      cases hstep
      have hhand : spec.hand tid = none := by
        have hcall := hrep.calls tid
        rwa [hpc] at hcall
      have hcount : (st.pc tid).resumedCount = 0 := by
        rw [hpc]
        cases err with
        | eok => exact absurd rfl hne
        | _ => rfl
      exact hskip rfl ⟨free, hrep.move (by rw [hpc]; rfl) hhand (by rw [hpc]; nofun) nofun
        (Or.inr hcount.le)⟩
    · cases hstep
  | copy tid =>
    simp only [pqStep] at hstep
    split at hstep
    · rename_i item hpc
      cases hstep
      have hhand : spec.hand tid = some (st.que.data item) := by
        have hcall := hrep.calls tid
        rwa [hpc] at hcall
      exact hskip rfl ⟨free, hrep.move (by rw [hpc]; rfl) hhand (by rw [hpc]; nofun) nofun
        (Or.inr (by rw [hpc]; exact le_rfl))⟩
    · cases hstep
  | free tid =>
    simp only [pqStep] at hstep
    split at hstep
    · rename_i item data hpc
      cases hstep
      have hhand : spec.hand tid = some data := by
        have hcall := hrep.calls tid
        rwa [hpc] at hcall
      obtain ⟨free', hnext⟩ := hrep.freed hpc
      exact ⟨_, by simp only [pqLabel, pqSpecStep, hhand], free', queue, hnext⟩
    · cases hstep
  | expire tid =>
    simp only [pqStep] at hstep
    split at hstep
    · rename_i timeout hpc
      split at hstep
      · cases hstep
        exact hskip rfl ⟨free, hrep.expired hpc⟩
      · cases hstep
    · cases hstep
  | poolTimeout tid =>
    simp only [pqStep] at hstep
    split at hstep
    · cases hstep
    · rename_i pool poolEvent hpoolStep
      cases hstep
      refine hskip rfl ⟨free, hrep.pool_step (by simp) hpoolStep ?_⟩
      rintro other item rfl
      simp [MemPool.step] at hpoolStep
  | tick =>
    simp only [pqStep] at hstep
    split at hstep
    · cases hstep
    · rename_i pool poolEvent hpoolStep
      cases hstep
      refine hskip rfl ⟨free, hrep.pool_step (by simp) hpoolStep ?_⟩
      rintro other item rfl
      simp [MemPool.step] at hpoolStep

omit [DecidableEq Tid] in
theorem pqRep_init {threads : Tid → Kernel.Thread} {word : ℕ → ℕ}
    {tick mpAddress buf bufsz itemsz : ℕ} {data : ℕ → Data} {first : PqState Tid Data}
    (hroom : cfg.rtAlign (sizeofPtr cfg + itemsz) + sizeofPtr cfg ≤
      cfg.rtAlignDown bufsz)
    (hinit : rtPrioQueueInit cfg threads tick mpAddress word buf bufsz itemsz data =
      some first) : ∃ free, PqRep cfg first ⟨[], fun _ => none⟩ free [] := by
  rw [rtPrioQueueInit] at hinit
  split at hinit
  · cases hinit
  · rename_i pool hpoolInit
    cases hinit
    obtain ⟨free, hpool⟩ := MemPool.rtMpInit_inv hroom hpoolInit
    have hheld : pool.held = [] := by
      rw [MemPool.rtMpInit] at hpoolInit
      split at hpoolInit
      · cases hpoolInit
      · rw [← Option.some.inj hpoolInit]
    refine ⟨free, hpool, rfl, ⟨by simp, fun _ => rfl, fun _ h => absurd rfl h, fun prio => ?_⟩, ?_,
      fun _ => rfl, ⟨fun _ => ⟨by simp, by simp⟩, List.nodup_nil, fun h => absurd rfl h⟩⟩
    · simp
    · have hparts := hpool.parts
      rw [hheld, List.append_nil] at hparts
      refine ⟨?_, fun item => ?_, ?_⟩
      · rintro (_ | prio | tid)
        · exact hparts.nodup_iff.2
            ((MemPool.nodup_blocks pool.mp).map (add_left_injective (sizeofPtr cfg)))
        · exact List.nodup_nil
        · exact List.nodup_nil
      · constructor
        · rintro ⟨block, hblock, rfl⟩
          exact ⟨.free, hparts.mem_iff.2 (List.mem_map_of_mem hblock)⟩
        · rintro ⟨_ | prio | tid, hitem⟩
          · obtain ⟨block, hblock, rfl⟩ := List.mem_map.1 (hparts.mem_iff.1 hitem)
            exact ⟨block, hblock, rfl⟩
          · cases hitem
          · cases hitem
      · rintro (_ | _ | _) (_ | _ | _) item hleft hright
        all_goals first | rfl | cases hleft | cases hright

end Refinement

/-! ## No item is lost or returned twice -/

section Conservation

variable [Fintype Tid] [DecidableEq Tid]

def PqSpecEvent.pushedData : PqSpecEvent Data → Option Data
  | .pushed _ data => some data
  | _ => none

def PqSpecEvent.handedData : PqSpecEvent Data → Option Data
  | .handed data => some data
  | _ => none

/-- The items that the threads have taken. -/
def inHands (hand : Tid → Option Data) : Multiset Data :=
  ∑ tid, (hand tid).elim 0 fun data => {data}

theorem inHands_update (hand : Tid → Option Data) (tid : Tid) (held : Option Data) :
    inHands (update hand tid held) + (hand tid).elim 0 (fun data => {data}) =
      inHands hand + held.elim 0 fun data => {data} := by
  have hmem := Finset.mem_univ tid
  have hothers : ∑ other ∈ Finset.univ.erase tid,
      (update hand tid held other).elim 0 (fun data => ({data} : Multiset Data)) =
        ∑ other ∈ Finset.univ.erase tid, (hand other).elim 0 fun data => {data} := by
    refine Finset.sum_congr rfl fun other hother => ?_
    rw [update_of_ne (Finset.ne_of_mem_erase hother)]
  rw [inHands, inHands, ← Finset.add_sum_erase _ _ hmem, ← Finset.add_sum_erase _ _ hmem, hothers,
    update_self]
  ac_rfl

/-- What has been pushed is queued, in a hand or handed over, each item once. -/
def Conserved (trace : List (PqSpecAction Tid Data × PqSpecEvent Data)) (spec : PqSpec Tid Data) :
    Prop :=
  Multiset.ofList (trace.filterMap fun label => label.2.pushedData) =
    Multiset.ofList (spec.queue.map Prod.snd) + inHands spec.hand +
      Multiset.ofList (trace.filterMap fun label => label.2.handedData)

omit [DecidableEq Tid] in
theorem Conserved.quiet {past : List (PqSpecAction Tid Data × PqSpecEvent Data)}
    {spec next : PqSpec Tid Data} {act : PqSpecAction Tid Data} {event : PqSpecEvent Data}
    (hpast : Conserved past spec) (hpushed : event.pushedData = none)
    (hhanded : event.handedData = none)
    (hkept : Multiset.ofList (spec.queue.map Prod.snd) + inHands spec.hand =
      Multiset.ofList (next.queue.map Prod.snd) + inHands next.hand) :
    Conserved (past ++ [(act, event)]) next := by
  rw [Conserved] at hpast ⊢
  rw [List.filterMap_append, List.filterMap_append, ← hkept]
  simpa [hpushed, hhanded] using hpast

theorem pqSpec_conserved {trace : List (PqSpecAction Tid Data × PqSpecEvent Data)}
    {spec : PqSpec Tid Data}
    (hrun : pqSpecMachine.Run ⟨[], fun _ => none⟩ trace spec) : Conserved trace spec := by
  refine hrun.traceInvariant Conserved ?_ (by simp [Conserved, inHands])
  intro past spec act next event hpast _ hstep
  cases act with
  | push prio data =>
    cases hstep
    rw [Conserved] at hpast ⊢
    rw [List.filterMap_append, List.filterMap_append, List.map_append, ← Multiset.coe_add,
      ← Multiset.coe_add, ← Multiset.coe_add, hpast]
    simp only [PqSpecEvent.pushedData, PqSpecEvent.handedData, List.map_cons, List.map_nil,
      List.filterMap_cons, List.filterMap_nil, Multiset.coe_nil, add_zero]
    ac_rfl
  | take tid =>
    simp only [pqSpecMachine, pqSpecStep] at hstep
    split at hstep
    · rename_i prio data rest hhand hpop
      cases hstep
      refine hpast.quiet rfl rfl ?_
      have hhands := inHands_update spec.hand tid (some data)
      rw [hhand] at hhands
      have hqueue : Multiset.ofList (spec.queue.map Prod.snd) =
          {data} + Multiset.ofList (rest.map Prod.snd) :=
        Multiset.coe_eq_coe.2 ((perm_of_pop hpop).map Prod.snd)
      simp only [Option.elim_none, Option.elim_some, add_zero] at hhands
      rw [hqueue, hhands]
      ac_rfl
    · cases hstep
  | hand tid =>
    simp only [pqSpecMachine, pqSpecStep] at hstep
    split at hstep
    · rename_i data hhand
      cases hstep
      have hhands := inHands_update spec.hand tid none
      rw [hhand] at hhands
      simp only [Option.elim_none, Option.elim_some, add_zero] at hhands
      rw [Conserved] at hpast ⊢
      rw [List.filterMap_append, List.filterMap_append, ← Multiset.coe_add, ← Multiset.coe_add,
        hpast, ← hhands]
      simp only [PqSpecEvent.pushedData, PqSpecEvent.handedData, List.filterMap_cons,
        List.filterMap_nil, Multiset.coe_nil, add_zero, Multiset.coe_singleton]
      ac_rfl
    · cases hstep
  | empty =>
    simp only [pqSpecMachine, pqSpecStep, Option.ite_none_right_eq_some] at hstep
    obtain ⟨rfl, rfl⟩ := Prod.mk.inj (Option.some.inj hstep.2)
    exact hpast.quiet rfl rfl rfl
  | skip =>
    cases hstep
    exact hpast.quiet rfl rfl rfl
  | fail => cases hstep

end Conservation

/-! ## Runs -/

section Runs

variable [Fintype Tid] [DecidableEq Tid]

/-- `free` is the free list of the pool, and `queue` has the items of the lists. -/
structure PqLinked (st : PqState Tid Data) (free : List ℕ) (queue : List (ℕ × ℕ)) : Prop where
  free : Chain st.pool.mp.next (MemPool.toBlock st.pool.mp.blockList) free
  levels : ∀ prio, Chain st.que.next (st.que.head prio) (level queue prio)

/-- The bits tell which lists have items, the lists have the items of the specification,
every block of the pool is free, or an item of one list, or with one running call, and no
thread sleeps in `rt_prio_queue_pop` while there are more items than resumed threads. -/
structure PqRefines (cfg : HeapConfig) (st : PqState Tid Data) (spec : PqSpec Tid Data)
    (free : List ℕ) (queue : List (ℕ × ℕ)) : Prop where
  bits : ∀ prio < rtPrioQueuePrioMax,
    st.que.bitmap.getLsbD prio = true ↔ st.que.head prio ≠ none
  linked : PqLinked st free queue
  queued : spec.queue = queue.map (Prod.map id st.que.data)
  parts : Partitions (pqOwned cfg free queue st.pc) (poolItems cfg st.pool.mp)
  enough : ∀ tid timeout, st.pc tid = .asleep timeout →
    queue.length ≤ tally PqPc.resumedCount st.pc

omit [DecidableEq Tid] in
theorem PqRep.refines {st : PqState Tid Data} {spec : PqSpec Tid Data} {free : List ℕ}
    {queue : List (ℕ × ℕ)} (hrep : PqRep cfg st spec free queue) :
    PqRefines cfg st spec free queue where
  bits := by
    intro prio _
    rw [hrep.lists.bits prio]
    exact not_congr (hrep.lists.chain prio).start_eq_none_iff.symm
  linked := ⟨hrep.pool.chain, hrep.lists.chain⟩
  queued := hrep.queued
  parts := hrep.parts
  enough := by
    intro tid timeout hasleep
    exact hrep.poppers.enough (List.ne_nil_of_mem ((hrep.poppers.listed tid).2 ⟨timeout, hasleep⟩))

/-- A queue for two items of three bytes. -/
def twoItems : PqState Bool ℕ :=
  (rtPrioQueueInit MemPool.poolConfig (fun _ => Kernel.Thread.started 10) 0 64 (fun _ => 0) 100 25 3
    fun _ => 0).get rfl

/-- A popping thread sleeps; two items are pushed, and the thread gets the one that comes first
by its priority. -/
def schedulePriorities (popper pusher : Tid) : List (PqAction Tid ℕ) :=
  [.pop popper (-1), .push pusher 5 70 0, .fill pusher, .link pusher, .push pusher 3 80 0,
    .fill pusher, .link pusher, .repop popper, .copy popper, .free popper]

theorem isSome_schedulePriorities : ((pqMachine MemPool.poolConfig).exec (fun _ _ => True) twoItems
    (schedulePriorities false true)).isSome = true := by
  decide

/-- A push has got its block. -/
def scheduleAllocated (pusher : Tid) : List (PqAction Tid ℕ) :=
  [.push pusher 3 80 0]

theorem isSome_scheduleAllocated : ((pqMachine MemPool.poolConfig).exec (fun _ _ => True) twoItems
    (scheduleAllocated true)).isSome = true := by
  decide

end Runs

end RtThread.Vbus
