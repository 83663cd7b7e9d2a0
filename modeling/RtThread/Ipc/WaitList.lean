import RtThread.Core.Machine
import RtThread.Core.StableOrder
import RtThread.Kernel.Thread

set_option linter.all false

/-!
# The suspend list of an IPC object created with `RT_IPC_FLAG_PRIO`

Every IPC object keeps its blocked threads in one `suspend_thread` list and
touches it only through `rt_ipc_list_suspend`, `rt_ipc_list_resume`,
`rt_ipc_list_resume_all`, `rt_thread_resume` and `rt_thread_timeout`.  The
priority of a thread that waits in the list can meanwhile be changed by
`rt_thread_control`, called by an application or by `rt_mutex_take` to lift the
owner of a mutex.  This module runs those operations in any order on one list.
-/

namespace RtThread.WaitList

open Function
open RtThread.Core
open RtThread.Core.StableOrder
open RtThread.Kernel

variable {Tid : Type*} [DecidableEq Tid]

/-- The thread table and one suspend list.  `arrival` is the history of the
list: the number of earlier suspensions when a thread was last suspended. -/
structure State (Tid : Type*) where
  threads : Tid → Thread
  suspendThread : List Tid
  arrival : Tid → ℕ
  suspensions : ℕ

def State.priority (st : State Tid) (tid : Tid) : ℕ :=
  (st.threads tid).currentPriority

inductive Action (Tid : Type*)
  /-- `rt_ipc_list_suspend` by the running thread, then a thread timer if
  `time` is positive. -/
  | suspend (tid : Tid) (time : ℤ)
  /-- `rt_ipc_list_resume`. -/
  | resume
  /-- `rt_ipc_list_resume_all`. -/
  | resumeAll
  /-- `rt_thread_resume` of one waiter anywhere in the list, as
  `rt_event_send` does. -/
  | resumeThread (tid : Tid)
  /-- `rt_thread_timeout` of a waiter with a running thread timer. -/
  | timeout (tid : Tid)
  /-- `rt_mutex_take` of a thread that finds the mutex owned. -/
  | boost (owner thread : Tid)
  /-- `rt_thread_control` with `RT_THREAD_CTRL_CHANGE_PRIORITY`. -/
  | changePriority (tid : Tid) (priority : ℕ)

/-- Put a thread into the list at its priority. -/
def rtIpcListSuspend (st : State Tid) (tid : Tid) : State Tid :=
  let threads := modify st.threads tid rtThreadSuspend
  { threads
    suspendThread := rtIpcListInsert threads st.suspendThread tid .prio
    arrival := update st.arrival tid st.suspensions
    suspensions := st.suspensions + 1 }

/-- Take a thread out of the list with one of the waking operations. -/
def wake (st : State Tid) (tid : Tid) (operation : Thread → Thread) : State Tid :=
  { st with
    threads := modify st.threads tid operation
    suspendThread := st.suspendThread.erase tid }

def resumeWaiter (st : State Tid) (tid : Tid) : State Tid :=
  let resumed := rtThreadResumeFrom st.threads st.suspendThread tid
  { st with threads := resumed.1, suspendThread := resumed.2 }

def setPriority (st : State Tid) (tid : Tid) (priority : ℕ) : State Tid :=
  { st with threads := modify st.threads tid (changePriority priority) }

/-- One operation; the event lists the threads it is to wake. -/
def step (st : State Tid) : Action Tid → Option (State Tid × List Tid)
  | .suspend tid time =>
    if (st.threads tid).runnable then
      let suspended := rtIpcListSuspend st tid
      some ({ suspended with
        threads := modify suspended.threads tid (startThreadTimer time) }, [])
    else none
  | .resume =>
    match st.suspendThread with
    | [] => none
    | tid :: _ => some (resumeWaiter st tid, [tid])
  | .resumeAll =>
    some ({ st with
      threads := rtIpcListResumeAll st.threads st.suspendThread
      suspendThread := [] }, st.suspendThread)
  | .resumeThread tid =>
    if tid ∈ st.suspendThread then
      some (resumeWaiter st tid, [tid])
    else none
  | .timeout tid =>
    if tid ∈ st.suspendThread ∧ (st.threads tid).timerActivated = true then
      some (wake st tid rtThreadTimeout, [tid])
    else none
  | .boost owner thread =>
    if st.priority thread < st.priority owner then
      some (setPriority st owner (st.priority thread), [])
    else some (st, [])
  | .changePriority tid priority => some (setPriority st tid priority, [])

def machine : Machine (State Tid) (Action Tid) (List Tid) where
  step := step

/-- A fresh object: nobody waits on it. -/
def initial (threads : Tid → Thread) : State Tid where
  threads := threads
  suspendThread := []
  arrival := fun _ => 0
  suspensions := 0

/-- The suspend list is sorted by current priority, waiters of one priority in
arrival order. -/
def PriorityOrdered (st : State Tid) : Prop :=
  Ordered st.priority st.arrival st.suspendThread

instance (st : State Tid) : Decidable (PriorityOrdered st) :=
  inferInstanceAs (Decidable (Ordered _ _ _))

/-- A priority change that hits a waiter leaves it between its neighbours. -/
def KeepsPlace (st : State Tid) : Action Tid → Prop
  | .boost owner thread =>
    st.priority thread < st.priority owner →
      Fits st.priority st.arrival st.suspendThread owner
        (st.priority thread)
  | .changePriority tid priority =>
    Fits st.priority st.arrival st.suspendThread tid priority
  | _ => True

/-! ## What every operation preserves -/

/-- Waiters are suspended, wait once, and arrived earlier than now. -/
structure WellFormed (st : State Tid) : Prop where
  nodup : st.suspendThread.Nodup
  suspended : ∀ tid ∈ st.suspendThread, (st.threads tid).stat = .suspend
  arrived : ∀ tid ∈ st.suspendThread, st.arrival tid < st.suspensions

omit [DecidableEq Tid] in
theorem wellFormed_initial (threads : Tid → Thread) :
    WellFormed (initial threads) where
  nodup := List.nodup_nil
  suspended := by simp [initial]
  arrived := by simp [initial]

theorem suspendThread_suspend (st : State Tid) (tid : Tid) :
    (rtIpcListSuspend st tid).suspendThread =
      rtIpcListInsert (modify st.threads tid rtThreadSuspend)
        st.suspendThread tid .prio := rfl

variable {st : State Tid} {tid : Tid}

theorem mem_suspendThread_suspend {other : Tid} : other ∈ (rtIpcListSuspend st tid).suspendThread ↔
      other = tid ∨ other ∈ st.suspendThread := by
  rw [suspendThread_suspend, mem_rtIpcListInsert]

theorem priority_suspend (st : State Tid) (tid : Tid) :
    (rtIpcListSuspend st tid).priority = st.priority :=
  funext fun other => currentPriority_modify currentPriority_rtThreadSuspend other

theorem priority_setPriority (st : State Tid) (tid : Tid) (priority : ℕ) :
    (setPriority st tid priority).priority =
      update st.priority tid priority := by
  funext other
  by_cases hother : other = tid
  · subst hother
    simp [State.priority, setPriority, changePriority]
  · simp [State.priority, setPriority, hother]

theorem wellFormed_wake {operation : Thread → Thread} (hwell : WellFormed st) :
    WellFormed (wake st tid operation) where
  nodup := hwell.nodup.erase tid
  suspended other hother := by
    obtain ⟨hne, hmem⟩ := hwell.nodup.mem_erase_iff.1 hother
    simpa [wake, hne] using hwell.suspended other hmem
  arrived other hother := hwell.arrived other (List.mem_of_mem_erase hother)

theorem wellFormed_setPriority {priority : ℕ} (hwell : WellFormed st) :
    WellFormed (setPriority st tid priority) where
  nodup := hwell.nodup
  suspended other hother := by
    have hstat := hwell.suspended other hother
    by_cases hne : other = tid
    · subst hne
      simpa [setPriority, changePriority] using hstat
    · simpa [setPriority, hne] using hstat
  arrived := hwell.arrived

/-- A runnable thread is not in the list, so suspending it adds one waiter with
the latest arrival. -/
theorem wellFormed_suspend (hrunnable : (st.threads tid).runnable) (hwell : WellFormed st) :
    WellFormed (rtIpcListSuspend st tid) where
  nodup := by
    rw [suspendThread_suspend]
    refine nodup_rtIpcListInsert.2 ⟨fun hmem => ?_, hwell.nodup⟩
    exact hrunnable.stat_ne (hwell.suspended tid hmem)
  suspended other hother := by
    rcases mem_suspendThread_suspend.1 hother with rfl | hmem
    · simpa [rtIpcListSuspend] using stat_rtThreadSuspend hrunnable
    · have hne : other ≠ tid := by
        rintro rfl
        exact hrunnable.stat_ne (hwell.suspended other hmem)
      simpa [rtIpcListSuspend, hne] using hwell.suspended other hmem
  arrived other hother := by
    by_cases hne : other = tid
    · subst hne
      simp [rtIpcListSuspend]
    · have hmem := (mem_suspendThread_suspend.1 hother).resolve_left hne
      have harrived := hwell.arrived other hmem
      simp only [rtIpcListSuspend, update_of_ne hne]
      omega

theorem ordered_suspend (hrunnable : (st.threads tid).runnable) (hwell : WellFormed st)
    (hordered : PriorityOrdered st) : PriorityOrdered (rtIpcListSuspend st tid) := by
  have hnotMem : tid ∉ st.suspendThread :=
    fun hmem => hrunnable.stat_ne (hwell.suspended tid hmem)
  have hpriority := priority_suspend st tid
  rw [PriorityOrdered]
  rw [hpriority]
  have hinsert : (rtIpcListSuspend st tid).suspendThread =
      st.suspendThread.orderedInsert
        (fun left right => st.priority left < st.priority right) tid := by
    rw [← hpriority]
    rfl
  rw [hinsert]
  refine Ordered.orderedInsert (fun other hother => ?_)
    (Ordered.congr (fun _ _ => rfl) (fun other hother => ?_) hordered)
  · have hne : other ≠ tid := ne_of_mem_of_not_mem hother hnotMem
    simpa [rtIpcListSuspend, hne] using hwell.arrived other hother
  · have hne : other ≠ tid := ne_of_mem_of_not_mem hother hnotMem
    simp [rtIpcListSuspend, hne]

theorem ordered_wake {operation : Thread → Thread}
    (hkeeps : ∀ thread, (operation thread).currentPriority = thread.currentPriority)
    (hordered : PriorityOrdered st) : PriorityOrdered (wake st tid operation) :=
  Ordered.congr (fun other _ => currentPriority_modify hkeeps other) (fun _ _ => rfl)
    (hordered.sublist List.erase_sublist)

theorem ordered_setPriority_iff {priority : ℕ} (hwell : WellFormed st)
    (hordered : PriorityOrdered st) : PriorityOrdered (setPriority st tid priority) ↔
      Fits st.priority st.arrival st.suspendThread tid priority := by
  rw [PriorityOrdered]
  rw [priority_setPriority]
  exact hordered.update_iff hwell.nodup

theorem wellFormed_startThreadTimer {time : ℤ} (hwell : WellFormed st) :
    WellFormed { st with threads := modify st.threads tid (startThreadTimer time) } where
  nodup := hwell.nodup
  suspended other hother := by
    have hstat := hwell.suspended other hother
    by_cases hne : other = tid
    · subst hne
      simpa using hstat
    · simpa [hne] using hstat
  arrived := hwell.arrived

/-- Everything one operation can do to the state, with what `KeepsPlace` says
about the action that did it. -/
inductive Effect (st : State Tid) (act : Action Tid) :
    State Tid → List Tid → Prop
  | suspend {tid : Tid} {time : ℤ} (hplace : KeepsPlace st act)
      (hrunnable : (st.threads tid).runnable) :
      Effect st act
        { rtIpcListSuspend st tid with
          threads := modify (rtIpcListSuspend st tid).threads tid
            (startThreadTimer time) } []
  | wake {tid : Tid} {operation : Thread → Thread} (hplace : KeepsPlace st act)
      (hkeeps : ∀ thread, (operation thread).currentPriority = thread.currentPriority) :
      Effect st act (wake st tid operation) [tid]
  | wakeAll {threads : Tid → Thread} {woken : List Tid}
      (hplace : KeepsPlace st act) :
      Effect st act { st with threads := threads, suspendThread := [] } woken
  | setPriority {tid : Tid} {priority : ℕ}
      (hplace : KeepsPlace st act ↔
        Fits st.priority st.arrival st.suspendThread tid priority) :
      Effect st act (setPriority st tid priority) []
  | skip {woken : List Tid} (hplace : KeepsPlace st act) :
      Effect st act st woken

theorem resumeWaiter_eq (st : State Tid) (tid : Tid) :
    resumeWaiter st tid =
      if (st.threads tid).stat = .suspend then wake st tid rtThreadResume
      else st := by
  rw [resumeWaiter, rtThreadResumeFrom]
  split <;> rfl

variable {act : Action Tid}

theorem effect_resumeWaiter (hplace : KeepsPlace st act) :
    Effect st act (resumeWaiter st tid) [tid] := by
  rw [resumeWaiter_eq]
  split
  · exact .wake hplace currentPriority_rtThreadResume
  · exact .skip hplace

variable {next : State Tid} {woken : List Tid}

theorem effect_of_step (hstep : step st act = some (next, woken)) : Effect st act next woken := by
  cases act with
  | suspend tid time =>
    simp only [step] at hstep
    split at hstep
    · next hrunnable =>
        cases hstep
        exact .suspend trivial hrunnable
    · contradiction
  | resume =>
    simp only [step] at hstep
    split at hstep
    · contradiction
    · cases hstep
      exact effect_resumeWaiter trivial
  | resumeAll =>
    cases hstep
    exact .wakeAll trivial
  | resumeThread tid =>
    simp only [step] at hstep
    split at hstep
    · cases hstep
      exact effect_resumeWaiter trivial
    · contradiction
  | timeout tid =>
    simp only [step] at hstep
    split at hstep
    · cases hstep
      exact .wake trivial currentPriority_rtThreadTimeout
    · contradiction
  | boost owner thread =>
    simp only [step] at hstep
    split at hstep
    · next hless =>
        cases hstep
        exact .setPriority ⟨fun hplace => hplace hless, fun hfits _ => hfits⟩
    · next hless =>
        cases hstep
        exact .skip fun hless' => absurd hless' hless
  | changePriority tid priority =>
    cases hstep
    exact .setPriority Iff.rfl

/-- One step: the shape of the list survives every operation. -/
theorem wellFormed_step (hwell : WellFormed st) (hstep : step st act = some (next, woken)) :
    WellFormed next := by
  cases effect_of_step hstep with
  | suspend _ hrunnable =>
    exact wellFormed_startThreadTimer (wellFormed_suspend hrunnable hwell)
  | wake _ _ => exact wellFormed_wake hwell
  | wakeAll _ => exact ⟨List.nodup_nil, by simp, by simp⟩
  | setPriority _ => exact wellFormed_setPriority hwell
  | skip _ => exact hwell

/-- One step: from an ordered list the next list is ordered exactly when the
operation leaves every waiter whose priority it changes in place. -/
theorem ordered_step_iff (hwell : WellFormed st) (hordered : PriorityOrdered st)
    (hstep : step st act = some (next, woken)) : PriorityOrdered next ↔ KeepsPlace st act := by
  cases effect_of_step hstep with
  | suspend hplace hrunnable =>
    refine ⟨fun _ => hplace, fun _ => ?_⟩
    exact Ordered.congr
      (fun other _ => currentPriority_modify (currentPriority_startThreadTimer _) other)
      (fun _ _ => rfl) (ordered_suspend hrunnable hwell hordered)
  | wake hplace hkeeps => exact ⟨fun _ => hplace, fun _ => ordered_wake hkeeps hordered⟩
  | wakeAll hplace => exact ⟨fun _ => hplace, fun _ => List.Pairwise.nil⟩
  | setPriority hplace => exact (ordered_setPriority_iff hwell hordered).trans hplace.symm
  | skip hplace => exact ⟨fun _ => hplace, fun _ => hordered⟩

/-! ## The order over whole runs -/

/-- The list is ordered in every state of a run exactly when no priority change
of the run moves a waiter past one of its neighbours.  In such a run
`rt_ipc_list_resume` wakes the most urgent waiter, of those the one that has
waited longest. -/
theorem priorityOrdered_run_iff {threads : Tid → Thread}
    {trace : List (Action Tid × List Tid)} {last : State Tid}
    (hrun : machine.Run (initial threads) trace last) :
    ((machine.RunWith (fun state _ => PriorityOrdered state) (initial threads) trace last ∧
        PriorityOrdered last) ↔
      machine.RunWith KeepsPlace (initial threads) trace last) ∧
    (machine.RunWith KeepsPlace (initial threads) trace last →
      ∀ next woken, step last .resume = some (next, woken) →
        ∃ tid, last.suspendThread = tid :: next.suspendThread ∧
          (next.threads tid).stat = .ready ∧
          ∀ other ∈ next.suspendThread, Before last.priority last.arrival tid other) := by
  have hwell : WellFormed last :=
    hrun.invariant WellFormed (fun _ _ _ _ hwell _ hstep => wellFormed_step hwell hstep)
      (wellFormed_initial threads)
  have hiff := Machine.RunWith.always_iff
    (fun state => WellFormed state ∧ PriorityOrdered state) PriorityOrdered
    (fun _ hinv => hinv.2)
    (fun _ _ _ _ hinv hplace hstep =>
      ⟨wellFormed_step hinv.1 hstep, (ordered_step_iff hinv.1 hinv.2 hstep).2 hplace⟩)
    (fun _ _ _ _ hinv hplace hstep hordered =>
      hplace ((ordered_step_iff hinv.1 hinv.2 hstep).1 hordered))
    ⟨wellFormed_initial threads, List.Pairwise.nil⟩ hrun
  refine ⟨hiff, fun hkeeps next woken hstep => ?_⟩
  have hordered : PriorityOrdered last := (hiff.2 hkeeps).2
  simp only [step] at hstep
  split at hstep
  · contradiction
  · next tid rest hlist =>
      cases hstep
      have hstat : (last.threads tid).stat = .suspend :=
        hwell.suspended tid (by simp [hlist])
      rw [PriorityOrdered, hlist] at hordered
      refine ⟨tid, ?_, ?_, ?_⟩
      · simp [resumeWaiter_eq, hstat, wake, hlist]
      · simp [resumeWaiter_eq, hstat, wake, rtThreadResume, rtScheduleInsertThread]
      · simpa [resumeWaiter_eq, hstat, wake, hlist] using hordered.head_before

/-- Two waiters of priority 10 and 20; the second is moved to 15 and stays
behind the first. -/
theorem priorityOrdered_run_fitting_change :
    ∃ trace last, machine.RunWith KeepsPlace
        (initial ![Thread.started 10, Thread.started 20]) trace last ∧
      last.suspendThread = [0, 1] ∧ last.priority 1 = 15 := by
  have hordered : machine.RunWith (fun state _ => PriorityOrdered state)
      (initial ![Thread.started 10, Thread.started 20]) _ _ :=
    Machine.runWith_of_exec
      [.suspend 0 (-1), .suspend 1 (-1), .changePriority 1 15] rfl
  exact ⟨_, _, (priorityOrdered_run_iff hordered.run).1.1 ⟨hordered, by decide⟩, rfl, rfl⟩

/-- Two waiters of priority 10 and 20; raising the second to 5 leaves it behind
the first, and the next resume wakes the less urgent one. -/
theorem not_priorityOrdered_of_change :
    ∃ trace last, machine.Run (initial ![Thread.started 10, Thread.started 20]) trace last ∧
      ¬ PriorityOrdered last ∧ last.priority 1 < last.priority 0 ∧
      ∃ next, step last .resume = some (next, [0]) :=
  ⟨_, _, Machine.runWith_of_exec
      [.suspend 0 (-1), .suspend 1 (-1), .changePriority 1 5] rfl,
    by decide, by decide, _, rfl⟩

end RtThread.WaitList
