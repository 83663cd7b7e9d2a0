import RtThread.Core.Machine
import RtThread.Kernel.Thread
import RtThread.Scheduler.ReadyQueue

set_option linter.all false

/-!
# The uniprocessor scheduler

`scheduler.c`, `rt_tick_increase` of `clock.c` and the operations of `thread.c` that
move threads between their states.  Every call is one step up to the `rt_schedule` at
its end, which is a step of its own: between the two an interrupt may come with any
other operation.  A failed assertion and the use of a null `rt_current_thread` leave
the step without a result.
-/

namespace RtThread.Scheduler

open Function
open RtThread.Core
open RtThread.Kernel (Stat)

/-- The fields of `struct rt_thread` that the scheduler uses. -/
structure Thread (cfg : Config) where
  stat : Stat
  initPriority : Fin cfg.priorityMax
  attributes : Attributes cfg
  initTick : BitVec 32
  remainingTick : BitVec 32

def Thread.currentPriority {cfg : Config} (thread : Thread cfg) : ℕ :=
  thread.attributes.currentPriority.val

/-- `_rt_thread_init`. -/
def Thread.init {cfg : Config} (priority : Fin cfg.priorityMax) (tick : BitVec 32) :
    Thread cfg where
  stat := .init
  initPriority := priority
  attributes := .unset priority
  initTick := tick
  remainingTick := tick

structure State (cfg : Config) (Tid : Type*) where
  queue : ReadyQueue Tid
  threads : Tid → Thread cfg
  /-- `rt_current_thread`. -/
  current : Option Tid
  /-- `rt_scheduler_lock_nest`. -/
  lockNest : BitVec 16

variable {cfg : Config} {Tid : Type*}

/-- The threads have been initialised and none is started. -/
def initial (priority : Tid → Fin cfg.priorityMax) (tick : Tid → BitVec 32) :
    State cfg Tid where
  queue := .empty
  threads := fun tid => .init (priority tid) (tick tid)
  current := none
  lockNest := 0

inductive Action (cfg : Config) (Tid : Type*)
  | startup (tid : Tid)
  | suspend (tid : Tid)
  | resume (tid : Tid)
  | sleep
  | changePriority (tid : Tid) (priority : Fin cfg.priorityMax)
  /-- `rt_thread_timeout`. -/
  | timeout (tid : Tid)
  /-- `rt_thread_exit` of the current thread. -/
  | exit
  /-- `rt_thread_delete` or `rt_thread_detach`. -/
  | delete (tid : Tid)
  /-- `rt_tick_increase`. -/
  | tick
  | enterCritical
  | exitCritical
  | schedule
  | yield
  /-- `rt_system_scheduler_start`. -/
  | start

inductive Event (Tid : Type*)
  | done
  /-- The call returns `-RT_ERROR`. -/
  | refused
  /-- The time slice is over, `rt_thread_yield` comes next. -/
  | sliceOver
  /-- The thread gets the processor from the ready list of this priority. -/
  | dispatched (tid : Tid) (priority : ℕ)

variable [DecidableEq Tid]

def setThread (st : State cfg Tid) (tid : Tid) (thread : Thread cfg) :
    State cfg Tid :=
  { st with threads := update st.threads tid thread }

def setStat (st : State cfg Tid) (tid : Tid) (stat : Stat) : State cfg Tid :=
  setThread st tid { st.threads tid with stat := stat }

/-- `rt_schedule_insert_thread`. -/
def rtScheduleInsertThread (st : State cfg Tid) (tid : Tid) : State cfg Tid :=
  if st.current = some tid then setStat st tid .running
  else
    { setStat st tid .ready with
      queue := st.queue.insert cfg (st.threads tid).attributes tid }

/-- `rt_schedule_remove_thread`. -/
def rtScheduleRemoveThread (st : State cfg Tid) (tid : Tid) : State cfg Tid :=
  { st with
    queue := st.queue.remove cfg (st.threads tid).attributes tid
      (st.queue.clearedByte (st.threads tid).attributes) }

/-- `rt_list_remove` on the node of a thread. -/
def unlinkThread (st : State cfg Tid) (tid : Tid) : State cfg Tid :=
  { st with queue := st.queue.unlink tid }

/-- `rt_thread_resume`. -/
def rtThreadResume (st : State cfg Tid) (tid : Tid) : State cfg Tid × Event Tid :=
  if (st.threads tid).stat = .suspend then
    (rtScheduleInsertThread (unlinkThread st tid) tid, .done)
  else (st, .refused)

/-- `rt_thread_startup`. -/
def rtThreadStartup (st : State cfg Tid) (tid : Tid) :
    Option (State cfg Tid × Event Tid) :=
  let thread := st.threads tid
  if thread.stat = .init then
    some (rtThreadResume (setThread st tid
      { thread with stat := .suspend, attributes := .calculate thread.initPriority }) tid)
  else none

/-- `rt_thread_suspend`. -/
def rtThreadSuspend (st : State cfg Tid) (tid : Tid) :
    Option (State cfg Tid × Event Tid) :=
  match (st.threads tid).stat with
  | .ready => some (setStat (rtScheduleRemoveThread st tid) tid .suspend, .done)
  | .running =>
    if st.current = some tid then
      some (setStat (rtScheduleRemoveThread st tid) tid .suspend, .done)
    else none
  | _ => some (st, .refused)

/-- `rt_thread_sleep`, whose timer is not of concern here. -/
def rtThreadSleep (st : State cfg Tid) : Option (State cfg Tid × Event Tid) :=
  match st.current with
  | some tid => (rtThreadSuspend st tid).map fun result => (result.1, .done)
  | none => none

def setPriority (st : State cfg Tid) (tid : Tid) (priority : Fin cfg.priorityMax) :
    State cfg Tid :=
  setThread st tid { st.threads tid with attributes := .calculate priority }

/-- `RT_THREAD_CTRL_CHANGE_PRIORITY`. -/
def changePriority (st : State cfg Tid) (tid : Tid) (priority : Fin cfg.priorityMax) :
    State cfg Tid :=
  if (st.threads tid).stat = .ready then
    rtScheduleInsertThread (setPriority (rtScheduleRemoveThread st tid) tid priority) tid
  else setPriority st tid priority

/-- `rt_thread_timeout`. -/
def rtThreadTimeout (st : State cfg Tid) (tid : Tid) :
    Option (State cfg Tid × Event Tid) :=
  if (st.threads tid).stat = .suspend then
    some (rtScheduleInsertThread (unlinkThread st tid) tid, .done)
  else none

/-- `rt_thread_exit`. -/
def rtThreadExit (st : State cfg Tid) : Option (State cfg Tid × Event Tid) :=
  match st.current with
  | some tid => some (setStat (rtScheduleRemoveThread st tid) tid .close, .done)
  | none => none

/-- `rt_thread_delete` and `rt_thread_detach`. -/
def rtThreadDelete (st : State cfg Tid) (tid : Tid) : State cfg Tid :=
  if (st.threads tid).stat = .init then setStat st tid .close
  else setStat (rtScheduleRemoveThread st tid) tid .close

/-- `rt_tick_increase`, without the timers. -/
def rtTickIncrease (st : State cfg Tid) : Option (State cfg Tid × Event Tid) :=
  match st.current with
  | some tid =>
    let thread := st.threads tid
    if thread.remainingTick - 1 = 0 then
      some (setThread st tid { thread with remainingTick := thread.initTick }, .sliceOver)
    else
      some (setThread st tid { thread with remainingTick := thread.remainingTick - 1 }, .done)
  | none => none

/-- `rt_exit_critical`, up to its `rt_schedule`. -/
def rtExitCritical (st : State cfg Tid) : State cfg Tid :=
  if (st.lockNest - 1).sle 0 then { st with lockNest := 0 }
  else { st with lockNest := st.lockNest - 1 }

/-- The switch from one thread to another, which is put back into the ready queue when
it was running. -/
def switchTo (st : State cfg Tid) (fromThread toThread : Tid) : State cfg Tid :=
  let switched := { st with current := some toThread }
  let inserted :=
    if (st.threads fromThread).stat = .running then rtScheduleInsertThread switched fromThread
    else switched
  setStat (rtScheduleRemoveThread inserted toThread) toThread .running

/-- `rt_schedule`. -/
def rtSchedule (st : State cfg Tid) : Option (State cfg Tid × Event Tid) :=
  if st.lockNest = 0 ∧ st.queue.priorityGroup ≠ 0 then
    match st.current, st.queue.getHighestPriorityThread cfg with
    | some current, some highest =>
      let priority := st.queue.highestReadyPriority cfg
      let stays := (st.threads current).stat = .running ∧
        (st.threads current).currentPriority < priority
      let toThread := if stays then current else highest
      if toThread = current then
        some (setStat (rtScheduleRemoveThread st current) current .running, .done)
      else some (switchTo st current toThread, .dispatched toThread priority)
    | _, _ => none
  else some (st, .done)

/-- `rt_thread_yield`. -/
def rtThreadYield (st : State cfg Tid) : Option (State cfg Tid × Event Tid) :=
  rtSchedule st

/-- `rt_system_scheduler_start`. -/
def rtSystemSchedulerStart (st : State cfg Tid) :
    Option (State cfg Tid × Event Tid) :=
  match st.current, st.queue.getHighestPriorityThread cfg with
  | none, some toThread =>
    some (setStat (rtScheduleRemoveThread { st with current := some toThread } toThread)
      toThread .running, .dispatched toThread (st.queue.highestReadyPriority cfg))
  | _, _ => none

def step (st : State cfg Tid) : Action cfg Tid → Option (State cfg Tid × Event Tid)
  | .startup tid => rtThreadStartup st tid
  | .suspend tid => rtThreadSuspend st tid
  | .resume tid => some (rtThreadResume st tid)
  | .sleep => rtThreadSleep st
  | .changePriority tid priority => some (changePriority st tid priority, .done)
  | .timeout tid => rtThreadTimeout st tid
  | .exit => rtThreadExit st
  | .delete tid => some (rtThreadDelete st tid, .done)
  | .tick => rtTickIncrease st
  | .enterCritical => some ({ st with lockNest := st.lockNest + 1 }, .done)
  | .exitCritical => some (rtExitCritical st, .done)
  | .schedule => rtSchedule st
  | .yield => rtThreadYield st
  | .start => rtSystemSchedulerStart st

def machine (cfg : Config) : Machine (State cfg Tid) (Action cfg Tid) (Event Tid) where
  step := step

/-! ## The invariant -/

/-- A ready thread is linked in the list of its priority and in no other, and no other
thread is linked. -/
def Placed (queue : ReadyQueue Tid) (tid : Tid) (thread : Thread cfg) : Prop :=
  ∀ priority, tid ∈ queue.priorityTable priority ↔
    thread.stat = .ready ∧ priority = thread.currentPriority

/-- The attributes of a thread are those of its priority, at least from its start on. -/
def Thread.Attributed (thread : Thread cfg) : Prop :=
  thread.attributes = .calculate thread.attributes.currentPriority ∨
    thread.attributes = .unset thread.attributes.currentPriority ∧
      (thread.stat = .init ∨ thread.stat = .close)

/-- The ready queue and the threads. -/
structure QueueInv (queue : ReadyQueue Tid) (threads : Tid → Thread cfg) : Prop where
  bits : queue.Represents cfg
  nodup : ∀ priority, (queue.priorityTable priority).Nodup
  placed : ∀ tid, Placed queue tid (threads tid)
  attributed : ∀ tid, (threads tid).Attributed

/-- Only the current thread is running, and it is not ready. -/
structure CurrentInv (current : Option Tid) (threads : Tid → Thread cfg) : Prop where
  running : ∀ tid, (threads tid).stat = .running → current = some tid
  ready : ∀ tid, (threads tid).stat = .ready → current ≠ some tid

structure Inv (st : State cfg Tid) : Prop where
  queue : QueueInv st.queue st.threads
  current : CurrentInv st.current st.threads

variable {queue : ReadyQueue Tid} {threads : Tid → Thread cfg} {tid : Tid}
  {thread : Thread cfg}

omit [DecidableEq Tid] in
theorem QueueInv.not_mem (hinv : QueueInv queue threads) (hstat : (threads tid).stat ≠ .ready)
    (priority : ℕ) : tid ∉ queue.priorityTable priority :=
  fun hmem => hstat ((hinv.placed tid priority).1 hmem).1

omit [DecidableEq Tid] in
theorem QueueInv.calculated (hinv : QueueInv queue threads) (tid : Tid)
    (hinit : (threads tid).stat ≠ .init) (hclose : (threads tid).stat ≠ .close) :
    (threads tid).attributes = .calculate (threads tid).attributes.currentPriority :=
  (hinv.attributed tid).resolve_right fun hunset => hunset.2.elim hinit hclose

/-- What is said of each thread survives a change to one of them. -/
theorem forall_update (property : Tid → Thread cfg → Prop) (hthread : property tid thread)
    (hothers : ∀ other ≠ tid, property other (threads other)) (other : Tid) :
    property other (update threads tid thread other) := by
  by_cases hne : other = tid
  · rw [hne, update_self]
    exact hthread
  · rw [update_of_ne hne]
    exact hothers other hne

/-- A thread outside the ready queue changes and stays outside. -/
theorem queueInv_set (hinv : QueueInv queue threads) (hold : (threads tid).stat ≠ .ready)
    (hnew : thread.stat ≠ .ready) (hattributed : thread.Attributed) :
    QueueInv queue (update threads tid thread) := by
  have hplaced : Placed queue tid thread := by
    intro priority
    exact ⟨fun hmem => absurd hmem (hinv.not_mem hold priority), fun hready => absurd hready.1 hnew⟩
  exact ⟨hinv.bits, hinv.nodup,
    forall_update (Placed queue) hplaced fun other _ => hinv.placed other,
    forall_update (fun _ => Thread.Attributed) hattributed fun other _ => hinv.attributed other⟩

theorem queueInv_insert (tid : Tid) (thread : Thread cfg) (hinv : QueueInv queue threads)
    (hold : (threads tid).stat ≠ .ready) (hnew : thread.stat = .ready)
    (hattributes : thread.attributes = .calculate thread.attributes.currentPriority) :
    QueueInv (queue.insert cfg thread.attributes tid) (update threads tid thread) := by
  have hnot := hinv.not_mem hold
  have hmem : ∀ other priority,
      other ∈ (queue.insert cfg thread.attributes tid).priorityTable priority ↔
        other ∈ queue.priorityTable priority ∨
          other = tid ∧ priority = thread.attributes.currentPriority := by
    intro other priority
    rw [ReadyQueue.priorityTable_insert]
    split
    · next hsame => simp [hsame]
    · next hother => simp [hother]
  have hplaced : Placed (queue.insert cfg thread.attributes tid) tid thread := by
    intro priority
    rw [hmem]
    simp only [hnot priority, hnew, true_and, false_or, Thread.currentPriority]
  refine ⟨?_, fun priority => ?_, forall_update (Placed _) hplaced fun other hne priority => ?_,
    forall_update (fun _ => Thread.Attributed) (.inl hattributes) fun other _ =>
      hinv.attributed other⟩
  · rw [hattributes]
    exact ReadyQueue.represents_insert hinv.bits _ tid
  · rw [ReadyQueue.priorityTable_insert]
    split
    · refine (hinv.nodup priority).append (List.nodup_singleton tid) ?_
      rw [List.disjoint_singleton]
      exact hnot priority
    · exact hinv.nodup priority
  · rw [hmem, hinv.placed other priority]
    simp only [hne, false_and, or_false]

theorem queueInv_remove (hinv : QueueInv queue threads) (hnew : thread.stat ≠ .ready)
    (hattributed : thread.Attributed) :
    QueueInv
      (queue.remove cfg (threads tid).attributes tid
        (queue.clearedByte (threads tid).attributes))
      (update threads tid thread) := by
  set next := queue.remove cfg (threads tid).attributes tid
    (queue.clearedByte (threads tid).attributes) with hnext
  have hlist : ∀ priority, next.priorityTable priority = (queue.priorityTable priority).erase tid :=
    fun priority => ReadyQueue.priorityTable_remove queue _ tid _ priority
  have hplaced : Placed next tid thread := by
    intro priority
    rw [hlist]
    exact ⟨fun hmem => absurd hmem (hinv.nodup priority).not_mem_erase,
      fun hready => absurd hready.1 hnew⟩
  refine ⟨?_, fun priority => ?_, forall_update (Placed _) hplaced fun other hne priority => ?_,
    forall_update (fun _ => Thread.Attributed) hattributed fun other _ => hinv.attributed other⟩
  · rcases hinv.attributed tid with hcalculated | ⟨hunset, hclosed⟩
    · rw [hnext, hcalculated]
      exact ReadyQueue.represents_remove hinv.bits fun other hmem =>
        ((hinv.placed tid other).1 hmem).2
    · -- a thread that was never started has no bits to clear
      have hready : (threads tid).stat ≠ .ready := by
        rcases hclosed with hstat | hstat
        · rw [hstat]
          exact nofun
        · rw [hstat]
          exact nofun
      rw [hnext, hunset, ReadyQueue.remove_unset (hinv.not_mem hready)]
      exact hinv.bits
  · rw [hlist]
    exact (hinv.nodup priority).erase tid
  · rw [hlist, List.mem_erase_of_ne hne]
    exact hinv.placed other priority

theorem currentInv_update {current : Option Tid} (hinv : CurrentInv current threads)
    (hrunning : thread.stat = .running → current = some tid)
    (hready : thread.stat = .ready → current ≠ some tid) :
    CurrentInv current (update threads tid thread) :=
  ⟨forall_update (fun tid thread => thread.stat = .running → current = some tid) hrunning
      fun other _ => hinv.running other,
    forall_update (fun tid thread => thread.stat = .ready → current ≠ some tid) hready
      fun other _ => hinv.ready other⟩

/-! ## The operations keep the invariant -/

variable {st : State cfg Tid}

omit [DecidableEq Tid] in
theorem inv_initial (priority : Tid → Fin cfg.priorityMax) (tick : Tid → BitVec 32) :
    Inv (initial priority tick) := by
  refine ⟨⟨ReadyQueue.represents_empty cfg, fun _ => List.nodup_nil, fun tid priority => ?_,
    fun tid => .inr ⟨rfl, .inl rfl⟩⟩, nofun, nofun⟩
  exact ⟨fun hmem => absurd hmem List.not_mem_nil, fun hready => nomatch hready.1⟩

/-- A thread outside the ready queue changes and stays outside. -/
theorem inv_setThread (tid : Tid) (thread : Thread cfg) (hinv : Inv st)
    (hold : (st.threads tid).stat ≠ .ready) (hnew : thread.stat ≠ .ready)
    (hrunning : thread.stat = .running → st.current = some tid)
    (hattributed : thread.Attributed) : Inv (setThread st tid thread) :=
  ⟨queueInv_set hinv.queue hold hnew hattributed,
    currentInv_update hinv.current hrunning fun hready => absurd hready hnew⟩

/-- A thread leaves the ready queue and gets another state. -/
theorem inv_remove (hinv : Inv st) {stat : Stat} (hready : stat ≠ .ready)
    (hrunning : stat = .running → st.current = some tid)
    (hattributed : ({ st.threads tid with stat := stat } : Thread cfg).Attributed) :
    Inv (setStat (rtScheduleRemoveThread st tid) tid stat) :=
  ⟨queueInv_remove hinv.queue hready hattributed,
    currentInv_update hinv.current hrunning fun hstat => absurd hstat hready⟩

theorem inv_rtScheduleInsertThread (hinv : Inv st)
    (hold : (st.threads tid).stat ≠ .ready)
    (hattributes : (st.threads tid).attributes =
      .calculate (st.threads tid).attributes.currentPriority) :
    Inv (rtScheduleInsertThread st tid) := by
  rw [rtScheduleInsertThread]
  split
  · next hcurrent =>
      exact inv_setThread tid _ hinv hold nofun (fun _ => hcurrent) (.inl hattributes)
  · next hcurrent =>
      exact ⟨queueInv_insert tid { st.threads tid with stat := .ready } hinv.queue hold rfl
        hattributes, currentInv_update hinv.current nofun fun _ => hcurrent⟩

theorem unlinkThread_eq (hinv : Inv st) (hold : (st.threads tid).stat ≠ .ready) :
    unlinkThread st tid = st := by
  rw [unlinkThread, ReadyQueue.unlink_eq (hinv.queue.not_mem hold)]

theorem inv_rtThreadResume (tid : Tid) (hinv : Inv st) : Inv (rtThreadResume st tid).1 := by
  rw [rtThreadResume]
  split
  · next hstat =>
      have hold : (st.threads tid).stat ≠ .ready := by simp [hstat]
      rw [unlinkThread_eq hinv hold]
      exact inv_rtScheduleInsertThread hinv hold
        (hinv.queue.calculated tid (by simp [hstat]) (by simp [hstat]))
  · exact hinv

variable {next : State cfg Tid} {event : Event Tid}

theorem inv_rtThreadStartup (hinv : Inv st) (hstep : rtThreadStartup st tid = some (next, event)) :
    Inv next := by
  simp only [rtThreadStartup] at hstep
  split at hstep
  · next hstat =>
      have hsuspended := inv_setThread tid
        { st.threads tid with
          stat := .suspend, attributes := .calculate (st.threads tid).initPriority }
        hinv (by simp [hstat]) nofun nofun (.inl (by simp))
      have hresumed := inv_rtThreadResume tid hsuspended
      rw [Option.some.inj hstep] at hresumed
      exact hresumed
  · contradiction

/-- Threads that are ready or running can be suspended. -/
theorem inv_suspended (tid : Tid) (hinv : Inv st) (hinit : (st.threads tid).stat ≠ .init)
    (hclose : (st.threads tid).stat ≠ .close) :
    Inv (setStat (rtScheduleRemoveThread st tid) tid .suspend) :=
  inv_remove hinv nofun nofun (.inl (hinv.queue.calculated tid hinit hclose))

theorem inv_rtThreadSuspend (hinv : Inv st) (hstep : rtThreadSuspend st tid = some (next, event)) :
    Inv next := by
  rw [rtThreadSuspend] at hstep
  split at hstep
  · next hstat =>
      cases hstep
      exact inv_suspended tid hinv (by simp [hstat]) (by simp [hstat])
  · next hstat =>
      split at hstep
      · cases hstep
        exact inv_suspended tid hinv (by simp [hstat]) (by simp [hstat])
      · contradiction
  · cases hstep
    exact hinv

theorem inv_closed (hinv : Inv st) :
    Inv (setStat (rtScheduleRemoveThread st tid) tid .close) :=
  inv_remove hinv nofun nofun
    ((hinv.queue.attributed tid).imp_right fun hunset => ⟨hunset.1, .inr rfl⟩)

theorem inv_rtThreadDelete (hinv : Inv st) : Inv (rtThreadDelete st tid) := by
  rw [rtThreadDelete]
  split
  · next hstat =>
      exact inv_setThread tid _ hinv (by simp [hstat]) nofun nofun
        ((hinv.queue.attributed tid).imp_right fun hunset => ⟨hunset.1, .inr rfl⟩)
  · exact inv_closed hinv

theorem inv_changePriority (hinv : Inv st) (priority : Fin cfg.priorityMax) :
    Inv (changePriority st tid priority) := by
  rw [changePriority]
  split
  · next hstat =>
      have hcurrent : st.current ≠ some tid := hinv.current.ready tid hstat
      -- taken out of the queue, the thread is as if it were suspended
      have hremoved := (inv_suspended tid hinv (by simp [hstat]) (by simp [hstat])).queue
      have hinserted := queueInv_insert tid
        { st.threads tid with attributes := .calculate priority } hremoved
        (by simp [setStat, setThread]) hstat (by simp)
      simp only [setStat, setThread, update_idem] at hinserted
      have hthread : ({ st.threads tid with
          stat := .ready, attributes := .calculate priority } : Thread cfg) =
          { st.threads tid with attributes := .calculate priority } := by rw [← hstat]
      rw [rtScheduleInsertThread, if_neg (by exact hcurrent)]
      simp only [setStat, setPriority, setThread, update_self, update_idem]
      refine ⟨?_, currentInv_update hinv.current nofun fun _ => hcurrent⟩
      rw [show (rtScheduleRemoveThread st tid).threads = st.threads from rfl, hthread]
      exact hinserted
  · next hstat =>
      exact inv_setThread tid _ hinv hstat hstat (fun hrunning => hinv.current.running tid hrunning)
        (.inl (by simp))

omit [DecidableEq Tid] in
/-- The thread that `_get_highest_priority_thread` finds: the first of the smallest priority
among the ready threads. -/
theorem QueueInv.highest (hinv : QueueInv queue threads)
    (hhighest : queue.getHighestPriorityThread cfg = some tid) :
    (threads tid).stat = .ready ∧
      (threads tid).currentPriority = queue.highestReadyPriority cfg ∧
      ∀ other, (threads other).stat = .ready →
        queue.highestReadyPriority cfg ≤ (threads other).currentPriority := by
  have hmem : tid ∈ queue.priorityTable (queue.highestReadyPriority cfg) :=
    List.mem_of_mem_head? hhighest
  have hgroup : queue.priorityGroup ≠ 0 :=
    hinv.bits.ne_zero_iff.2 ⟨_, List.ne_nil_of_mem hmem⟩
  obtain ⟨hready, hpriority⟩ := (hinv.placed tid _).1 hmem
  refine ⟨hready, hpriority.symm, fun other hother => ?_⟩
  by_contra hlt
  apply (hinv.bits.highestReadyPriority hgroup).2 _ (not_le.1 hlt)
  exact List.ne_nil_of_mem ((hinv.placed other _).2 ⟨hother, rfl⟩)

/-- What one `rt_schedule` does: nothing, or it keeps the current thread, or it switches to
the first thread of the smallest ready priority. -/
theorem rtSchedule_cases (hinv : Inv st) (hstep : rtSchedule st = some (next, event)) :
    (¬ (st.lockNest = 0 ∧ st.queue.priorityGroup ≠ 0) ∧ next = st ∧ event = .done) ∨
    ∃ current highest, st.lockNest = 0 ∧ st.current = some current ∧
      st.queue.getHighestPriorityThread cfg = some highest ∧ highest ≠ current ∧
      ((st.threads current).stat = .running ∧
          (st.threads current).currentPriority < st.queue.highestReadyPriority cfg ∧
          next = setStat (rtScheduleRemoveThread st current) current .running ∧
          event = .done ∨
        ¬ ((st.threads current).stat = .running ∧
          (st.threads current).currentPriority < st.queue.highestReadyPriority cfg) ∧
          next = switchTo st current highest ∧
          event = .dispatched highest (st.queue.highestReadyPriority cfg)) := by
  rw [rtSchedule] at hstep
  split at hstep
  · next hlock =>
      right
      split at hstep
      · next current highest hcurrent hhighest =>
          have hne : highest ≠ current := by
            intro heq
            have hready := (hinv.queue.highest hhighest).1
            exact hinv.current.ready highest hready (heq ▸ hcurrent)
          refine ⟨current, highest, hlock.1, hcurrent, hhighest, hne, ?_⟩
          by_cases hstays : (st.threads current).stat = .running ∧
              (st.threads current).currentPriority < st.queue.highestReadyPriority cfg
          · simp only [hstays, and_self, if_true, Option.some.injEq, Prod.mk.injEq] at hstep
            exact .inl ⟨hstays.1, hstays.2, hstep.1.symm, hstep.2.symm⟩
          · simp only [hstays, if_false, hne, Option.some.injEq, Prod.mk.injEq] at hstep
            exact .inr ⟨hstays, hstep.1.symm, hstep.2.symm⟩
      · contradiction
  · next hlock =>
      cases hstep
      exact .inl ⟨hlock, rfl, rfl⟩

section Switch

variable {fromThread toThread : Tid}

theorem switchTo_of_running (hne : toThread ≠ fromThread)
    (hrunning : (st.threads fromThread).stat = .running) :
    switchTo st fromThread toThread =
      setStat (rtScheduleRemoveThread
        { setStat st fromThread .ready with
          queue := st.queue.insert cfg (st.threads fromThread).attributes fromThread
          current := some toThread } toThread) toThread .running := by
  have hcurrent : ¬ some toThread = some fromThread := fun heq => hne (Option.some.inj heq)
  rw [switchTo, if_pos hrunning, rtScheduleInsertThread, if_neg hcurrent]
  rfl

theorem switchTo_of_not_running (hrunning : (st.threads fromThread).stat ≠ .running) :
    switchTo st fromThread toThread =
      setStat (rtScheduleRemoveThread { st with current := some toThread } toThread)
        toThread .running := by
  rw [switchTo, if_neg hrunning]

theorem inv_switchTo (hinv : Inv st) (hcurrent : st.current = some fromThread)
    (hready : (st.threads toThread).stat = .ready) :
    Inv (switchTo st fromThread toThread) := by
  have hne : toThread ≠ fromThread := by
    intro heq
    exact hinv.current.ready toThread hready (heq ▸ hcurrent)
  have hcalculated := hinv.queue.calculated toThread (by simp [hready]) (by simp [hready])
  have hothers : ∀ other, (st.threads other).stat = .running → other = fromThread := by
    intro other hrunning
    exact Option.some.inj ((hinv.current.running other hrunning).symm.trans hcurrent)
  by_cases hrunning : (st.threads fromThread).stat = .running
  · have hinserted := queueInv_insert fromThread { st.threads fromThread with stat := .ready }
      hinv.queue (by simp [hrunning]) rfl
      (hinv.queue.calculated fromThread (by simp [hrunning]) (by simp [hrunning]))
    have hsame : update st.threads fromThread
        { st.threads fromThread with stat := .ready } toThread = st.threads toThread :=
      update_of_ne hne _ _
    rw [switchTo_of_running hne hrunning]
    refine ⟨queueInv_remove hinserted nofun (.inl ?_), ?_, ?_⟩
    · simp only [setStat, setThread, rtScheduleRemoveThread, hsame]
      exact hcalculated
    · intro other hstat
      simp only [setStat, setThread, rtScheduleRemoveThread] at hstat ⊢
      by_cases hto : other = toThread
      · rw [hto]
      · rw [update_of_ne hto] at hstat
        by_cases hfrom : other = fromThread
        · simp [hfrom] at hstat
        · rw [update_of_ne hfrom] at hstat
          exact absurd (hothers other hstat) hfrom
    · intro other hstat heq
      have hto : toThread = other := Option.some.inj heq
      simp [setStat, setThread, hto] at hstat
  · rw [switchTo_of_not_running hrunning]
    refine ⟨queueInv_remove hinv.queue nofun (.inl hcalculated), ?_, ?_⟩
    · intro other hstat
      simp only [setStat, setThread, rtScheduleRemoveThread] at hstat ⊢
      by_cases hto : other = toThread
      · rw [hto]
      · rw [update_of_ne hto] at hstat
        rw [hothers other hstat] at hstat
        exact absurd hstat hrunning
    · intro other hstat heq
      have hto : toThread = other := Option.some.inj heq
      simp [setStat, setThread, hto] at hstat

end Switch

variable {next : State cfg Tid} {event : Event Tid}

theorem inv_rtSchedule (hinv : Inv st) (hstep : rtSchedule st = some (next, event)) : Inv next := by
  rcases rtSchedule_cases hinv hstep with ⟨-, rfl, -⟩ |
    ⟨current, highest, -, hcurrent, hhighest, hne, hkept | hswitched⟩
  · exact hinv
  · obtain ⟨hrunning, -, rfl, -⟩ := hkept
    exact inv_remove hinv nofun (fun _ => hcurrent)
      (.inl (hinv.queue.calculated current (by simp [hrunning]) (by simp [hrunning])))
  · obtain ⟨-, rfl, -⟩ := hswitched
    exact inv_switchTo hinv hcurrent (hinv.queue.highest hhighest).1

theorem inv_rtSystemSchedulerStart (hinv : Inv st)
    (hstep : rtSystemSchedulerStart st = some (next, event)) : Inv next := by
  rw [rtSystemSchedulerStart] at hstep
  split at hstep
  · next toThread hcurrent hhighest =>
      cases hstep
      have hready := (hinv.queue.highest hhighest).1
      have hcalculated := hinv.queue.calculated toThread (by simp [hready])
        (by simp [hready])
      refine ⟨queueInv_remove hinv.queue nofun (.inl hcalculated), ?_, ?_⟩
      · intro other hstat
        simp only [setStat, setThread, rtScheduleRemoveThread] at hstat ⊢
        by_cases hto : other = toThread
        · rw [hto]
        · rw [update_of_ne hto] at hstat
          exact absurd (hinv.current.running other hstat) (by simp [hcurrent])
      · intro other hstat heq
        have hto : toThread = other := Option.some.inj heq
        simp [setStat, setThread, hto] at hstat
  · contradiction

theorem inv_step {act : Action cfg Tid} (hinv : Inv st) (hstep : step st act = some (next, event)) :
    Inv next := by
  cases act with
  | startup tid => exact inv_rtThreadStartup hinv hstep
  | suspend tid => exact inv_rtThreadSuspend hinv hstep
  | resume tid =>
    have hresumed := inv_rtThreadResume tid hinv
    rw [Option.some.inj hstep] at hresumed
    exact hresumed
  | sleep =>
    rw [step, rtThreadSleep] at hstep
    split at hstep
    · obtain ⟨⟨suspended, _⟩, hresult, heq⟩ := Option.map_eq_some_iff.1 hstep
      rw [← (Prod.mk.inj heq).1]
      exact inv_rtThreadSuspend hinv hresult
    · contradiction
  | changePriority tid priority =>
    cases hstep
    exact inv_changePriority hinv priority
  | timeout tid =>
    rw [step, rtThreadTimeout] at hstep
    split at hstep
    · next hstat =>
        cases hstep
        have hold : (st.threads tid).stat ≠ .ready := by simp [hstat]
        rw [unlinkThread_eq hinv hold]
        exact inv_rtScheduleInsertThread hinv hold
          (hinv.queue.calculated tid (by simp [hstat]) (by simp [hstat]))
    · contradiction
  | exit =>
    rw [step, rtThreadExit] at hstep
    split at hstep
    · cases hstep
      exact inv_closed hinv
    · contradiction
  | delete tid =>
    cases hstep
    exact inv_rtThreadDelete hinv
  | tick =>
    rw [step, rtTickIncrease] at hstep
    split at hstep
    · next tid hcurrent =>
        have hready : (st.threads tid).stat ≠ .ready :=
          fun hstat => hinv.current.ready tid hstat hcurrent
        simp only at hstep
        split at hstep
        · cases hstep
          exact inv_setThread tid _ hinv hready hready (fun _ => hcurrent)
            (hinv.queue.attributed tid)
        · cases hstep
          exact inv_setThread tid _ hinv hready hready (fun _ => hcurrent)
            (hinv.queue.attributed tid)
    · contradiction
  | enterCritical =>
    cases hstep
    exact ⟨hinv.queue, hinv.current⟩
  | exitCritical =>
    cases hstep
    rw [rtExitCritical]
    split
    · exact ⟨hinv.queue, hinv.current⟩
    · exact ⟨hinv.queue, hinv.current⟩
  | schedule => exact inv_rtSchedule hinv hstep
  | yield => exact inv_rtSchedule hinv hstep
  | start => exact inv_rtSystemSchedulerStart hinv hstep

theorem inv_run {priority : Tid → Fin cfg.priorityMax} {tick : Tid → BitVec 32}
    {trace : List (Action cfg Tid × Event Tid)}
    (hrun : (machine cfg).Run (initial priority tick) trace st) : Inv st :=
  hrun.invariant Inv (fun _ _ _ _ hinv _ hstep => inv_step hinv hstep)
    (inv_initial priority tick)

/-- After any operations on any threads, with one level of bits or with two: the bit of a
priority is set exactly when its list is not empty, the bit of a group exactly when its
byte of the table is not zero, and the search finds the head of the list of the
smallest priority that is not empty. -/
theorem readyQueue_bitmap {priority : Tid → Fin cfg.priorityMax} {tick : Tid → BitVec 32}
    {trace : List (Action cfg Tid × Event Tid)}
    (hrun : (machine cfg).Run (initial priority tick) trace st) :
    (cfg.priorityMax ≤ 32 → ∀ p < cfg.priorityMax,
      (st.queue.priorityTable p ≠ [] ↔ st.queue.priorityGroup.getLsbD p = true)) ∧
    (32 < cfg.priorityMax →
      (∀ p < cfg.priorityMax, st.queue.priorityTable p ≠ [] ↔
        (st.queue.readyTable (p / 8)).getLsbD (p % 8) = true) ∧
      ∀ g < 32, st.queue.priorityGroup.getLsbD g = true ↔ st.queue.readyTable g ≠ 0) ∧
    (∀ p < cfg.priorityMax, st.queue.priorityTable p ≠ [] →
      (∀ q < p, st.queue.priorityTable q = []) →
      st.queue.highestReadyPriority cfg = p ∧
        st.queue.getHighestPriorityThread cfg = (st.queue.priorityTable p).head?) := by
  have hbits := (inv_run hrun).queue.bits
  refine ⟨fun hone p _ => ?_, fun htwo => ?_, fun p _ hready hlower => ?_⟩
  · have hlevel : ¬ cfg.twoLevel := not_lt.2 hone
    rw [ReadyQueue.Represents, if_neg hlevel] at hbits
    exact (hbits p).symm
  · have hlevel : cfg.twoLevel := htwo
    rw [ReadyQueue.Represents, if_pos hlevel] at hbits
    exact ⟨fun p _ => (hbits.table_iff p).symm, fun g _ => hbits.group_iff g⟩
  · have hgroup := hbits.ne_zero_iff.2 ⟨p, hready⟩
    obtain ⟨hpresent, hsmallest⟩ := hbits.highestReadyPriority hgroup
    have hle : st.queue.highestReadyPriority cfg ≤ p := by
      by_contra hlt
      exact hsmallest p (not_le.1 hlt) hready
    have heq : st.queue.highestReadyPriority cfg = p := by
      rcases hle.lt_or_eq with hlt | heq
      · exact absurd (hlower _ hlt) hpresent
      · exact heq
    exact ⟨heq, by rw [ReadyQueue.getHighestPriorityThread, heq]⟩

/-- Three threads, two of them in one group of priorities. -/
def priorities : Fin 3 → Fin config256.priorityMax
  | 0 => ⟨200, by decide⟩
  | 1 => ⟨9, by decide⟩
  | 2 => ⟨15, by decide⟩

/-- A thread of the higher priority has started and is suspended, the others are ready. -/
theorem readyQueue_bitmap_twoGroups :
    ∃ trace, ∃ st : State config256 (Fin 3),
      (machine config256).Run (initial priorities fun _ => 10) trace st ∧
      st.queue.priorityTable 15 = [2] ∧ st.queue.priorityTable 200 = [0] ∧
      (st.queue.priorityTable 15 ≠ [] ↔ (st.queue.readyTable 1).getLsbD 7 = true) ∧
      (st.queue.priorityGroup.getLsbD 1 = true ↔ st.queue.readyTable 1 ≠ 0) := by
  have hrun : (machine config256).Run (initial priorities fun _ => 10) _ _ :=
    Machine.runWith_of_exec
      [.startup 0, .startup 1, .startup 2, .suspend 1] rfl
  have hbits := (readyQueue_bitmap hrun).2.1 (by decide)
  exact ⟨_, _, hrun, by decide, by decide, hbits.1 15 (by decide), hbits.2 1 (by decide)⟩

end RtThread.Scheduler
