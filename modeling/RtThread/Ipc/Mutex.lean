import RtThread.Core.Machine
import RtThread.Kernel.Thread

set_option linter.all false

/-!
# Mutexes

`rt_mutex_take` and `rt_mutex_release` of `ipc.c`, run by any number of threads
on any number of mutexes, with thread timers and, where the kernel is built
with `RT_USING_SIGNALS`, signals.

A critical section is one step.  A taker that blocks leaves its call inside
`rt_schedule` and comes back in a step of its own.  When a signal has
interrupted the wait, `rt_mutex_take` jumps back to `__again` without disabling
interrupts, so from there every access to the mutex is a step of its own
that other threads can precede.
-/

namespace RtThread.Mutex

open RtThread.Core
open RtThread.Kernel

variable {Tid Mid : Type*}

/-- `struct rt_mutex`. -/
structure RtMutex (Tid : Type*) where
  value : ℕ
  originalPriority : ℕ
  hold : ℕ
  owner : Option Tid
  suspendThread : List Tid
  flag : IpcFlag

/-- Where a thread stands inside `rt_mutex_take`.  All places but `schedule`
are on the path that starts at `__again`. -/
inductive Place
  /-- In the `rt_schedule` call. -/
  | schedule
  /-- At `__again`. -/
  | again
  /-- The two halves of `mutex->value --`. -/
  | valueRead
  | valueWrite (value : ℕ)
  | setOwner
  | setPriority
  /-- The two halves of `mutex->hold ++`. -/
  | holdRead
  | holdWrite (hold : ℕ)
  | boost
  | suspend
  | insert
  | startTimer
  /-- The behaviour is undefined: `mutex->owner` was dereferenced while it was
  `RT_NULL`, or the thread linked itself into a suspend list after a signal had
  put it back into the ready queue. -/
  | fault
  deriving DecidableEq

inductive Pc (Mid : Type*)
  | out
  | inTake (mutex : Mid) (time : ℤ) (place : Place)
  deriving DecidableEq

@[ext]
structure State (Tid Mid : Type*) where
  threads : Tid → Thread
  mutexes : Mid → RtMutex Tid
  pc : Tid → Pc Mid

/-- `rt_mutex_init`. -/
def rtMutexInit (flag : IpcFlag) : RtMutex Tid where
  value := 1
  originalPriority := 0xff
  hold := 0
  owner := none
  suspendThread := []
  flag := flag

/-- Started threads and initialised mutexes. -/
def initial (priority : Tid → ℕ) (flag : Mid → IpcFlag) : State Tid Mid where
  threads := fun tid => Thread.started (priority tid)
  mutexes := fun mid => rtMutexInit (flag mid)
  pc := fun _ => .out

inductive Action (Tid Mid : Type*)
  | take (tid : Tid) (mid : Mid) (time : ℤ)
  | release (tid : Tid) (mid : Mid)
  /-- The thread timer fires. -/
  | timeout (tid : Tid)
  /-- A thread inside `rt_mutex_take` moves on. -/
  | run (tid : Tid)
  | kill (tid : Tid)
  /-- The thread runs its signal handler. -/
  | handleSig (tid : Tid)

inductive Event (Tid Mid : Type*)
  /-- `rt_mutex_take` returns. -/
  | returned (tid : Tid) (mid : Mid) (err : Err)
  | suspended (tid : Tid) (mid : Mid)
  /-- Any other move inside `rt_mutex_take`. -/
  | moved (tid : Tid)
  /-- `rt_mutex_release` returns `RT_EOK`, having handed the mutex over or not. -/
  | released (tid : Tid) (mid : Mid) (newOwner : Option Tid)
  /-- `rt_mutex_release` returns `-RT_ERROR`. -/
  | refused (tid : Tid) (mid : Mid)
  | timedOut (tid : Tid)
  | killed (tid : Tid)
  | handled (tid : Tid)

/-- `mutex->hold ++` on the 8-bit counter. -/
def incHold (hold : ℕ) : ℕ :=
  (hold + 1) % 0x100

/-- `mutex->hold --` on the 8-bit counter. -/
def decHold (hold : ℕ) : ℕ :=
  (hold + 0xff) % 0x100

section Model

variable [DecidableEq Tid] [DecidableEq Mid]

def setThread (st : State Tid Mid) (tid : Tid) (operation : Thread → Thread) :
    State Tid Mid :=
  { st with threads := modify st.threads tid operation }

def setMutex (st : State Tid Mid) (mid : Mid) (operation : RtMutex Tid → RtMutex Tid) :
    State Tid Mid :=
  { st with
    mutexes := Function.update st.mutexes mid (operation (st.mutexes mid)) }

def setPc (st : State Tid Mid) (tid : Tid) (pc : Pc Mid) : State Tid Mid :=
  { st with pc := Function.update st.pc tid pc }

/-- `rt_list_remove(&(thread->tlist))`, whichever list the thread waits in. -/
def unlink (st : State Tid Mid) (tid : Tid) : State Tid Mid :=
  { st with
    mutexes := fun mid =>
      { st.mutexes mid with
        suspendThread := (st.mutexes mid).suspendThread.erase tid } }

/-- Take a thread out of the list it waits in with one of the waking
operations. -/
def wake (st : State Tid Mid) (tid : Tid) (operation : Thread → Thread) :
    State Tid Mid :=
  setThread (unlink st tid) tid operation

/-- The priority inheritance of `rt_mutex_take`. -/
def boostOwner (st : State Tid Mid) (tid owner : Tid) : State Tid Mid :=
  if (st.threads tid).currentPriority < (st.threads owner).currentPriority then
    setThread st owner (changePriority (st.threads tid).currentPriority)
  else st

/-- The list insertion of `rt_ipc_list_suspend`. -/
def insertWaiter (st : State Tid Mid) (tid : Tid) (mid : Mid) : State Tid Mid :=
  setMutex st mid fun mutex =>
    { mutex with
      suspendThread := rtIpcListInsert st.threads mutex.suspendThread tid mutex.flag }

/-- The blocking branch of `rt_mutex_take` inside the critical section. -/
def suspendSelf (st : State Tid Mid) (tid : Tid) (mid : Mid) (time : ℤ) (owner : Tid) :
    State Tid Mid :=
  let st := boostOwner st tid owner
  let st := setThread st tid rtThreadSuspend
  let st := insertWaiter st tid mid
  let st := setThread st tid (startThreadTimer time)
  setPc st tid (.inTake mid time .schedule)

/-- `rt_mutex_take` up to its return or its call of `rt_schedule`. -/
def rtMutexTake (st : State Tid Mid) (tid : Tid) (mid : Mid) (time : ℤ) :
    State Tid Mid × Event Tid Mid :=
  let mutex := st.mutexes mid
  let st := setThread st tid (setError .eok)
  if mutex.owner = some tid then
    (setMutex st mid fun mutex => { mutex with hold := incHold mutex.hold },
      .returned tid mid .eok)
  else if 0 < mutex.value then
    (setMutex st mid fun mutex =>
      { mutex with
        value := mutex.value - 1
        owner := some tid
        originalPriority := (st.threads tid).currentPriority
        hold := incHold mutex.hold },
      .returned tid mid .eok)
  else if time = 0 then
    (setThread st tid (setError .etimeout), .returned tid mid .etimeout)
  else
    match mutex.owner with
    | none => (setPc st tid (.inTake mid time .fault), .moved tid)
    | some owner => (suspendSelf st tid mid time owner, .suspended tid mid)

/-- One move of a thread inside `rt_mutex_take`. -/
def runTake (st : State Tid Mid) (tid : Tid) (mid : Mid) (time : ℤ) :
    Place → Option (State Tid Mid × Event Tid Mid)
  | .schedule =>
    if (st.threads tid).stat = .suspend then none
    else if (st.threads tid).error = .eok then
      some (setPc st tid .out, .returned tid mid .eok)
    else if (st.threads tid).error = .eintr then
      some (setPc st tid (.inTake mid time .again), .moved tid)
    else
      some (setPc st tid .out, .returned tid mid (st.threads tid).error)
  | .again =>
    if 0 < (st.mutexes mid).value then
      some (setPc st tid (.inTake mid time .valueRead), .moved tid)
    else if time = 0 then
      some (setPc (setThread st tid (setError .etimeout)) tid .out,
        .returned tid mid .etimeout)
    else
      some (setPc st tid (.inTake mid time .boost), .moved tid)
  | .valueRead =>
    some (setPc st tid (.inTake mid time (.valueWrite (st.mutexes mid).value)),
      .moved tid)
  | .valueWrite value =>
    some (setPc (setMutex st mid fun mutex =>
      { mutex with value := (value + 0xffff) % 0x10000 })
      tid (.inTake mid time .setOwner), .moved tid)
  | .setOwner =>
    some (setPc (setMutex st mid fun mutex => { mutex with owner := some tid })
      tid (.inTake mid time .setPriority), .moved tid)
  | .setPriority =>
    some (setPc (setMutex st mid fun mutex =>
      { mutex with originalPriority := (st.threads tid).currentPriority })
      tid (.inTake mid time .holdRead), .moved tid)
  | .holdRead =>
    some (setPc st tid (.inTake mid time (.holdWrite (st.mutexes mid).hold)),
      .moved tid)
  | .holdWrite hold =>
    some (setPc (setMutex st mid fun mutex => { mutex with hold := incHold hold })
      tid .out, .returned tid mid .eok)
  | .boost =>
    match (st.mutexes mid).owner with
    | none => some (setPc st tid (.inTake mid time .fault), .moved tid)
    | some owner =>
      some (setPc (boostOwner st tid owner) tid (.inTake mid time .suspend),
        .moved tid)
  | .suspend =>
    some (setPc (setThread st tid rtThreadSuspend) tid (.inTake mid time .insert),
      .suspended tid mid)
  | .insert =>
    if (st.threads tid).stat = .suspend then
      some (setPc (insertWaiter st tid mid) tid (.inTake mid time .startTimer),
        .moved tid)
    else
      some (setPc st tid (.inTake mid time .fault), .moved tid)
  | .startTimer =>
    some (setPc (setThread st tid (startThreadTimer time))
      tid (.inTake mid time .schedule), .moved tid)
  | .fault => none

/-- Restore the saved priority before a mutex is given up. -/
def restorePriority (st : State Tid Mid) (tid : Tid) (mid : Mid) : State Tid Mid :=
  if (st.mutexes mid).originalPriority ≠ (st.threads tid).currentPriority then
    setThread st tid (changePriority (st.mutexes mid).originalPriority)
  else st

/-- The end of `rt_mutex_release` once `hold` has dropped to zero. -/
def passOn (st : State Tid Mid) (tid : Tid) (mid : Mid) :
    State Tid Mid × Event Tid Mid :=
  match (st.mutexes mid).suspendThread with
  | waiter :: _ =>
    let st := setMutex st mid fun mutex =>
      { mutex with
        owner := some waiter
        originalPriority := (st.threads waiter).currentPriority
        hold := incHold mutex.hold }
    let resumed :=
      rtThreadResumeFrom st.threads (st.mutexes mid).suspendThread waiter
    (setMutex { st with threads := resumed.1 } mid fun mutex =>
      { mutex with suspendThread := resumed.2 },
      .released tid mid (some waiter))
  | [] =>
    (setMutex st mid fun mutex =>
      { mutex with
        value := (mutex.value + 1) % 0x10000
        owner := none
        originalPriority := 0xff },
      .released tid mid none)

def rtMutexRelease (st : State Tid Mid) (tid : Tid) (mid : Mid) :
    State Tid Mid × Event Tid Mid :=
  if (st.mutexes mid).owner = some tid then
    let st := setMutex st mid fun mutex => { mutex with hold := decHold mutex.hold }
    if (st.mutexes mid).hold = 0 then
      passOn (restorePriority st tid mid) tid mid
    else (st, .released tid mid none)
  else
    (setThread st tid (setError .error), .refused tid mid)

/-- `_signal_deliver`: a suspended thread is resumed to handle the signal. -/
def signalDeliver (st : State Tid Mid) (tid : Tid) : State Tid Mid :=
  if (st.threads tid).stat = .suspend then
    wake st tid fun thread => { rtThreadResume thread with signal := true }
  else setThread st tid fun thread => { thread with signal := true }

/-- `rt_thread_handle_sig` leaves `-RT_EINTR` in the thread. -/
def rtThreadHandleSig (thread : Thread) : Thread :=
  { thread with error := .eintr, signal := false }

/-- A thread calls in when it runs, is not inside a call already and has no
signal to handle first. -/
def State.canCall (st : State Tid Mid) (tid : Tid) : Prop :=
  st.pc tid = .out ∧ (st.threads tid).runnable ∧ (st.threads tid).signal = false

instance (st : State Tid Mid) (tid : Tid) : Decidable (st.canCall tid) :=
  inferInstanceAs (Decidable (_ ∧ _))

/-- `usingSignals` is the build option `RT_USING_SIGNALS`. -/
def step (usingSignals : Bool) (st : State Tid Mid) :
    Action Tid Mid → Option (State Tid Mid × Event Tid Mid)
  | .take tid mid time =>
    if st.canCall tid then some (rtMutexTake st tid mid time) else none
  | .release tid mid =>
    if st.canCall tid then some (rtMutexRelease st tid mid) else none
  | .timeout tid =>
    if (st.threads tid).timerActivated = true then
      some (wake st tid rtThreadTimeout, .timedOut tid)
    else none
  | .run tid =>
    if (st.threads tid).signal = true then none
    else
      match st.pc tid with
      | .out => none
      | .inTake mid time place => runTake st tid mid time place
  | .kill tid =>
    if usingSignals = true then some (signalDeliver st tid, .killed tid) else none
  | .handleSig tid =>
    if (st.threads tid).signal = true ∧ (st.threads tid).stat ≠ .suspend then
      some (setThread st tid rtThreadHandleSig, .handled tid)
    else none

def machine (usingSignals : Bool) :
    Machine (State Tid Mid) (Action Tid Mid) (Event Tid Mid) where
  step := step usingSignals

end Model

/-! ## Reading the updated state -/

section Projections

variable (st : State Tid Mid) {tid other : Tid} {mid mid' : Mid}
variable (operation : Thread → Thread) (update : RtMutex Tid → RtMutex Tid) (pc : Pc Mid)

section Mutexes

variable [DecidableEq Mid]

@[simp]
theorem setMutex_threads : (setMutex st mid update).threads = st.threads := rfl

@[simp]
theorem setMutex_pc : (setMutex st mid update).pc = st.pc := rfl

@[simp]
theorem setMutex_self :
    (setMutex st mid update).mutexes mid = update (st.mutexes mid) := by
  simp [setMutex]

@[simp]
theorem setMutex_of_ne (hne : mid' ≠ mid) :
    (setMutex st mid update).mutexes mid' = st.mutexes mid' := by
  simp [setMutex, hne]

@[simp]
theorem insertWaiter_threads : (insertWaiter st tid mid).threads = st.threads := rfl

@[simp]
theorem insertWaiter_pc : (insertWaiter st tid mid).pc = st.pc := rfl

end Mutexes

variable [DecidableEq Tid]

@[simp]
theorem setThread_threads :
    (setThread st tid operation).threads = modify st.threads tid operation := rfl

@[simp]
theorem setThread_mutexes : (setThread st tid operation).mutexes = st.mutexes := rfl

@[simp]
theorem setThread_pc : (setThread st tid operation).pc = st.pc := rfl

@[simp]
theorem setPc_threads : (setPc st tid pc).threads = st.threads := rfl

@[simp]
theorem setPc_mutexes : (setPc st tid pc).mutexes = st.mutexes := rfl

@[simp]
theorem setPc_self : (setPc st tid pc).pc tid = pc := by
  simp [setPc]

@[simp]
theorem setPc_of_ne (hne : other ≠ tid) : (setPc st tid pc).pc other = st.pc other := by
  simp [setPc, hne]

@[simp]
theorem wake_threads :
    (wake st tid operation).threads = modify st.threads tid operation := rfl

@[simp]
theorem wake_pc : (wake st tid operation).pc = st.pc := rfl

@[simp]
theorem wake_mutexes :
    (wake st tid operation).mutexes mid =
      { st.mutexes mid with
        suspendThread := (st.mutexes mid).suspendThread.erase tid } := rfl

/-- Restoring the saved priority always ends at the saved priority. -/
theorem restorePriority_eq :
    restorePriority st tid mid =
      setThread st tid (changePriority (st.mutexes mid).originalPriority) := by
  rw [restorePriority]
  split
  · rfl
  · next hsame =>
      have hid : changePriority (st.mutexes mid).originalPriority (st.threads tid) =
          st.threads tid := by
        rw [not_not.1 hsame, changePriority]
      rw [setThread, modify_eq_self hid]

/-- The boost of a more urgent taker, as a change that is always made. -/
theorem boostOwner_eq (owner : Tid) :
    boostOwner st tid owner =
      setThread st owner (changePriority
        (min (st.threads tid).currentPriority (st.threads owner).currentPriority)) := by
  rw [boostOwner]
  split
  · next hlt => rw [min_eq_left hlt.le]
  · next hle =>
      have hid : changePriority
          (min (st.threads tid).currentPriority (st.threads owner).currentPriority)
          (st.threads owner) = st.threads owner := by
        rw [min_eq_right (not_lt.1 hle), changePriority]
      rw [setThread, modify_eq_self hid]

variable [DecidableEq Mid] (time : ℤ) (owner : Tid)

/-- Blocking changes nothing of a mutex but its suspend list. -/
theorem suspendSelf_mutexes (mid' : Mid) :
    ∃ list, (suspendSelf st tid mid time owner).mutexes mid' =
        { st.mutexes mid' with suspendThread := list } ∧
      (∀ waiter, waiter ∈ list ↔
        waiter = tid ∧ mid' = mid ∨ waiter ∈ (st.mutexes mid').suspendThread) ∧
      (tid ∉ (st.mutexes mid').suspendThread →
        (st.mutexes mid').suspendThread.Nodup → list.Nodup) := by
  simp only [suspendSelf, boostOwner_eq, insertWaiter]
  by_cases hne : mid' = mid
  · subst hne
    simpa [nodup_rtIpcListInsert] using fun hnotMem hnodup => ⟨hnotMem, hnodup⟩
  · exact ⟨(st.mutexes mid').suspendThread, by simp [hne], by simp [hne], fun _ => id⟩

@[simp]
theorem suspendSelf_owner (mid' : Mid) :
    ((suspendSelf st tid mid time owner).mutexes mid').owner =
      (st.mutexes mid').owner := by
  obtain ⟨list, hsame, -⟩ := suspendSelf_mutexes st time owner mid'
  rw [hsame]

@[simp]
theorem suspendSelf_hold (mid' : Mid) :
    ((suspendSelf st tid mid time owner).mutexes mid').hold =
      (st.mutexes mid').hold := by
  obtain ⟨list, hsame, -⟩ := suspendSelf_mutexes st time owner mid'
  rw [hsame]

@[simp]
theorem mem_suspendSelf {waiter : Tid} (mid' : Mid) :
    waiter ∈ ((suspendSelf st tid mid time owner).mutexes mid').suspendThread ↔
      waiter = tid ∧ mid' = mid ∨ waiter ∈ (st.mutexes mid').suspendThread := by
  obtain ⟨list, hsame, hmem, -⟩ := suspendSelf_mutexes st time owner mid'
  rw [hsame, hmem]

/-- The hand-over to a waiter that is in no other list. -/
theorem passOn_waiter {st : State Tid Mid} {waiter : Tid} {mid : Mid} {rest : List Tid}
    (hlist : (st.mutexes mid).suspendThread = waiter :: rest)
    (hstat : (st.threads waiter).stat = .suspend)
    (honly : ∀ mid', mid' ≠ mid → waiter ∉ (st.mutexes mid').suspendThread) :
    passOn st tid mid =
      (setMutex (wake st waiter rtThreadResume) mid fun mutex =>
        { mutex with
          owner := some waiter
          originalPriority := (st.threads waiter).currentPriority
          hold := incHold mutex.hold },
        .released tid mid (some waiter)) := by
  simp only [passOn, hlist]
  refine Prod.ext (State.ext ?_ (funext fun mid' => ?_) rfl) rfl
  · simp [rtThreadResumeFrom, hstat]
  · by_cases hne : mid' = mid
    · subst hne
      simp [rtThreadResumeFrom, hstat, hlist]
    · simp [hne, List.erase_of_not_mem (honly mid' hne)]

theorem suspendSelf_self {st : State Tid Mid} {owner : Tid} (mid : Mid) (time : ℤ)
    (hrunnable : (st.threads tid).runnable) (hne : tid ≠ owner) :
    ((suspendSelf st tid mid time owner).threads tid).stat = .suspend ∧
      ((suspendSelf st tid mid time owner).threads tid).error = (st.threads tid).error ∧
      ((suspendSelf st tid mid time owner).threads tid).signal = (st.threads tid).signal ∧
      (suspendSelf st tid mid time owner).pc tid = .inTake mid time .schedule := by
  simp [suspendSelf, boostOwner_eq, hne, stat_rtThreadSuspend hrunnable]

end Projections

end RtThread.Mutex
