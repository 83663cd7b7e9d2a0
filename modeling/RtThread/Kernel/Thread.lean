import Mathlib

set_option linter.all false

/-!
# Threads and the primitives that move them

The fields of `struct rt_thread` that the inter-thread communication code of
`ipc.c` reads or writes, and the parts of `thread.c` and `scheduler.c` it
calls.  The interleaving semantics lets any thread that is not suspended take
the next step, so putting a thread into the ready queue only sets its status,
and `READY` and `RUNNING` are treated alike.
-/

namespace RtThread.Kernel

/-- The error codes of `rtdef.h`.  The kernel returns every one but `RT_EOK`
negated. -/
inductive Err
  | eok | error | etimeout | efull | eempty | enomem | enosys | ebusy | eio
  | eintr | einval
  deriving DecidableEq

/-- The values of `thread->stat & RT_THREAD_STAT_MASK`. -/
inductive Stat
  | init | ready | suspend | running | close
  deriving DecidableEq

/-- `RT_IPC_CMD_RESET`. -/
def rtIpcCmdReset : ℕ := 1

/-- `RT_IPC_FLAG_FIFO` and `RT_IPC_FLAG_PRIO`. -/
inductive IpcFlag
  | fifo | prio

structure Thread where
  stat : Stat
  error : Err
  currentPriority : ℕ
  initPriority : ℕ
  /-- `RT_TIMER_FLAG_ACTIVATED` of `thread_timer`. -/
  timerActivated : Bool
  eventSet : BitVec 32
  eventInfo : BitVec 8
  /-- `RT_THREAD_STAT_SIGNAL`: a signal was delivered and its handler has not
  run yet. -/
  signal : Bool

/-- A thread that was initialised with the given priority and started. -/
def Thread.started (priority : ℕ) : Thread where
  stat := .ready
  error := .eok
  currentPriority := priority
  initPriority := priority
  timerActivated := false
  eventSet := 0
  eventInfo := 0
  signal := false

def Thread.runnable (thread : Thread) : Prop :=
  thread.stat = .ready ∨ thread.stat = .running

instance (thread : Thread) : Decidable thread.runnable :=
  inferInstanceAs (Decidable (_ ∨ _))

def rtScheduleInsertThread (thread : Thread) : Thread :=
  { thread with stat := .ready }

/-- `rt_thread_suspend`: a thread that is neither ready nor running is left
alone. -/
def rtThreadSuspend (thread : Thread) : Thread :=
  if thread.runnable then
    { thread with stat := .suspend, timerActivated := false }
  else thread

/-- `rt_thread_resume` without the removal from the list the thread waits in. -/
def rtThreadResume (thread : Thread) : Thread :=
  if thread.stat = .suspend then
    rtScheduleInsertThread { thread with timerActivated := false }
  else thread

/-- `rt_thread_timeout`, the callback of the one-shot `thread_timer`, without
the removal from the list the thread waits in. -/
def rtThreadTimeout (thread : Thread) : Thread :=
  rtScheduleInsertThread
    { thread with error := .etimeout, timerActivated := false }

/-- `rt_timer_control(RT_TIMER_CTRL_SET_TIME)` and `rt_timer_start` on the
thread timer, done only for a positive waiting time. -/
def startThreadTimer (time : ℤ) (thread : Thread) : Thread :=
  if 0 < time then { thread with timerActivated := true } else thread

/-- `thread->error = code`. -/
def setError (code : Err) (thread : Thread) : Thread :=
  { thread with error := code }

/-- `rt_thread_control(RT_THREAD_CTRL_CHANGE_PRIORITY)`. -/
def changePriority (priority : ℕ) (thread : Thread) : Thread :=
  { thread with currentPriority := priority }

/-! What the waiting operations leave alone. -/

@[simp]
theorem currentPriority_setError (code : Err) (thread : Thread) :
    (setError code thread).currentPriority = thread.currentPriority := rfl

@[simp]
theorem currentPriority_rtThreadSuspend (thread : Thread) :
    (rtThreadSuspend thread).currentPriority = thread.currentPriority := by
  rw [rtThreadSuspend]
  split <;> rfl

@[simp]
theorem currentPriority_rtThreadResume (thread : Thread) :
    (rtThreadResume thread).currentPriority = thread.currentPriority := by
  rw [rtThreadResume]
  split <;> rfl

@[simp]
theorem currentPriority_rtThreadTimeout (thread : Thread) :
    (rtThreadTimeout thread).currentPriority = thread.currentPriority := rfl

@[simp]
theorem currentPriority_startThreadTimer (time : ℤ) (thread : Thread) :
    (startThreadTimer time thread).currentPriority = thread.currentPriority := by
  rw [startThreadTimer]
  split <;> rfl

@[simp]
theorem stat_startThreadTimer (time : ℤ) (thread : Thread) :
    (startThreadTimer time thread).stat = thread.stat := by
  rw [startThreadTimer]
  split <;> rfl

@[simp]
theorem error_startThreadTimer (time : ℤ) (thread : Thread) :
    (startThreadTimer time thread).error = thread.error := by
  rw [startThreadTimer]
  split <;> rfl

@[simp]
theorem error_rtThreadSuspend (thread : Thread) :
    (rtThreadSuspend thread).error = thread.error := by
  rw [rtThreadSuspend]
  split <;> rfl

@[simp]
theorem error_rtThreadResume (thread : Thread) :
    (rtThreadResume thread).error = thread.error := by
  rw [rtThreadResume]
  split <;> rfl

@[simp]
theorem signal_rtThreadSuspend (thread : Thread) :
    (rtThreadSuspend thread).signal = thread.signal := by
  rw [rtThreadSuspend]
  split <;> rfl

@[simp]
theorem signal_rtThreadResume (thread : Thread) :
    (rtThreadResume thread).signal = thread.signal := by
  rw [rtThreadResume]
  split <;> rfl

@[simp]
theorem signal_startThreadTimer (time : ℤ) (thread : Thread) :
    (startThreadTimer time thread).signal = thread.signal := by
  rw [startThreadTimer]
  split <;> rfl

@[simp]
theorem eventSet_rtThreadSuspend (thread : Thread) :
    (rtThreadSuspend thread).eventSet = thread.eventSet := by
  rw [rtThreadSuspend]
  split <;> rfl

@[simp]
theorem eventSet_rtThreadResume (thread : Thread) :
    (rtThreadResume thread).eventSet = thread.eventSet := by
  rw [rtThreadResume]
  split <;> rfl

@[simp]
theorem eventSet_startThreadTimer (time : ℤ) (thread : Thread) :
    (startThreadTimer time thread).eventSet = thread.eventSet := by
  rw [startThreadTimer]
  split <;> rfl

@[simp]
theorem eventInfo_rtThreadSuspend (thread : Thread) :
    (rtThreadSuspend thread).eventInfo = thread.eventInfo := by
  rw [rtThreadSuspend]
  split <;> rfl

@[simp]
theorem eventInfo_startThreadTimer (time : ℤ) (thread : Thread) :
    (startThreadTimer time thread).eventInfo = thread.eventInfo := by
  rw [startThreadTimer]
  split <;> rfl

@[simp]
theorem error_rtThreadTimeout (thread : Thread) :
    (rtThreadTimeout thread).error = .etimeout := rfl

@[simp]
theorem stat_rtThreadTimeout (thread : Thread) :
    (rtThreadTimeout thread).stat = .ready := rfl

variable {thread : Thread}

theorem stat_rtThreadResume (hstat : thread.stat = .suspend) :
    (rtThreadResume thread).stat = .ready := by
  simp [rtThreadResume, hstat, rtScheduleInsertThread]

theorem timerActivated_rtThreadResume (hstat : thread.stat = .suspend) :
    (rtThreadResume thread).timerActivated = false := by
  simp [rtThreadResume, hstat, rtScheduleInsertThread]

theorem stat_rtThreadSuspend (hrunnable : thread.runnable) :
    (rtThreadSuspend thread).stat = .suspend := by
  simp [rtThreadSuspend, hrunnable]

theorem Thread.runnable.stat_ne (hrunnable : thread.runnable) : thread.stat ≠ .suspend := by
  rcases hrunnable with hstat | hstat <;> simp [hstat]

section Table

variable {Tid : Type*}

/-- `rt_ipc_list_suspend` after `rt_thread_suspend`: a FIFO object appends the
thread, a PRIO object puts it before the first waiter that is strictly less
urgent. -/
def rtIpcListInsert (threads : Tid → Thread) (list : List Tid) (tid : Tid) :
    IpcFlag → List Tid
  | .fifo => list ++ [tid]
  | .prio =>
    list.orderedInsert
      (fun thread sthread =>
        (threads thread).currentPriority < (threads sthread).currentPriority)
      tid

theorem perm_rtIpcListInsert (threads : Tid → Thread) (list : List Tid)
    (tid : Tid) (flag : IpcFlag) :
    (rtIpcListInsert threads list tid flag).Perm (tid :: list) := by
  cases flag with
  | fifo => exact List.perm_append_singleton tid list
  | prio => exact List.perm_orderedInsert _ tid list

@[simp]
theorem mem_rtIpcListInsert {threads : Tid → Thread} {list : List Tid}
    {tid other : Tid} {flag : IpcFlag} :
    other ∈ rtIpcListInsert threads list tid flag ↔ other = tid ∨ other ∈ list := by
  rw [(perm_rtIpcListInsert threads list tid flag).mem_iff, List.mem_cons]

theorem nodup_rtIpcListInsert {threads : Tid → Thread} {list : List Tid}
    {tid : Tid} {flag : IpcFlag} :
    (rtIpcListInsert threads list tid flag).Nodup ↔ tid ∉ list ∧ list.Nodup := by
  rw [(perm_rtIpcListInsert threads list tid flag).nodup_iff, List.nodup_cons]

variable [DecidableEq Tid]

/-- Apply a thread operation to one entry of the thread table. -/
def modify (threads : Tid → Thread) (tid : Tid) (operation : Thread → Thread) :
    Tid → Thread :=
  Function.update threads tid (operation (threads tid))

@[simp]
theorem modify_self (threads : Tid → Thread) (tid : Tid)
    (operation : Thread → Thread) :
    modify threads tid operation tid = operation (threads tid) := by
  simp [modify]

variable {tid : Tid}

@[simp]
theorem modify_of_ne (threads : Tid → Thread) {other : Tid} (operation : Thread → Thread)
    (hne : other ≠ tid) : modify threads tid operation other = threads other := by
  simp [modify, hne]

@[simp]
theorem modify_modify (threads : Tid → Thread) (tid : Tid)
    (first second : Thread → Thread) :
    modify (modify threads tid first) tid second =
      modify threads tid fun thread => second (first thread) := by
  simp [modify]

variable {threads : Tid → Thread}

theorem modify_eq_self {operation : Thread → Thread}
    (hsame : operation (threads tid) = threads tid) :
    modify threads tid operation = threads := by
  simp [modify, hsame]

/-- `rt_thread_resume` of a thread that waits in `list`: a suspended thread
leaves the list, any other is refused. -/
def rtThreadResumeFrom (threads : Tid → Thread) (list : List Tid) (tid : Tid) :
    (Tid → Thread) × List Tid :=
  if (threads tid).stat = .suspend then
    (modify threads tid rtThreadResume, list.erase tid)
  else (threads, list)

theorem currentPriority_modify {operation : Thread → Thread}
    (hkeeps : ∀ thread, (operation thread).currentPriority = thread.currentPriority) (other : Tid) :
    (modify threads tid operation other).currentPriority =
      (threads other).currentPriority := by
  by_cases hother : other = tid
  · subst hother
    rw [modify_self, hkeeps]
  · rw [modify_of_ne _ _ hother]

/-- The effect of `rt_ipc_list_resume_all` on the threads: the head is given
`-RT_ERROR` and resumed until the list is empty. -/
def rtIpcListResumeAll (threads : Tid → Thread) : List Tid → Tid → Thread
  | [] => threads
  | tid :: rest =>
    rtIpcListResumeAll
      (modify threads tid fun thread => rtThreadResume { thread with error := .error })
      rest

theorem rtIpcListResumeAll_of_not_mem {list : List Tid} (hnot : tid ∉ list) :
    rtIpcListResumeAll threads list tid = threads tid := by
  induction list generalizing threads with
  | nil => rfl
  | cons head rest ih =>
    simp only [List.mem_cons, not_or] at hnot
    rw [rtIpcListResumeAll, ih hnot.2, modify_of_ne _ _ hnot.1]

theorem rtIpcListResumeAll_of_mem {list : List Tid} (hnodup : list.Nodup) (hmem : tid ∈ list) :
    rtIpcListResumeAll threads list tid =
      rtThreadResume { threads tid with error := .error } := by
  induction list generalizing threads with
  | nil => contradiction
  | cons head rest ih =>
    rw [List.nodup_cons] at hnodup
    rw [rtIpcListResumeAll]
    rcases List.mem_cons.1 hmem with rfl | hrest
    · rw [rtIpcListResumeAll_of_not_mem hnodup.1, modify_self]
    · have hne : tid ≠ head := fun heq => hnodup.1 (heq ▸ hrest)
      rw [ih hnodup.2 hrest, modify_of_ne _ _ hne]

end Table

end RtThread.Kernel
