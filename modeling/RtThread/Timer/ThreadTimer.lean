import RtThread.Core.Machine
import RtThread.Kernel.Thread

set_option linter.all false

/-!
# The timer inside a thread

Every thread has a timer of its own, `thread_timer`, which `rt_thread_sleep` and
the blocking calls with a timeout start and whose callback `rt_thread_timeout`
asserts that the thread is suspended.  The calls that make a thread ready stop
the timer first.  This module follows `thread.c` on a uniprocessor: an act is
a piece that runs with interrupts disabled, or one load or store outside such a
piece, and the threads are switched between actions in any order.

The blocking calls, the timer interrupt, `rt_thread_exit` and the releases of
`ipc.c`, which call `rt_thread_resume` with interrupts disabled, are one act
each.  `rt_thread_resume` and `rt_thread_suspend` called on their own,
`rt_thread_startup` and `rt_thread_delete` are several.
-/

namespace RtThread.ThreadTimer

open Function
open RtThread.Core RtThread.Kernel

structure Thread where
  stat : Stat
  /-- `tlist` is linked in the ready table. -/
  inReady : Bool
  /-- `thread_timer` is linked in the timer list. -/
  linked : Bool
  /-- `RT_TIMER_FLAG_ACTIVATED`. -/
  activated : Bool
  /-- The type of the timer object has not been cleared. -/
  timerObject : Bool

namespace Thread

/-- After `_rt_thread_init`. -/
def fresh : Thread := ⟨.init, false, false, false, true⟩

/-- `rt_timer_stop`. -/
def timerStop (thread : Thread) : Thread :=
  if thread.activated then { thread with linked := false, activated := false } else thread

/-- `rt_timer_start`. -/
def timerStart (thread : Thread) : Thread := { thread with linked := true, activated := true }

/-- `rt_schedule_insert_thread`; the current thread is not put into the table. -/
def scheduleInsert (isCurrent : Bool) (thread : Thread) : Thread :=
  if isCurrent then { thread with stat := .running }
  else { thread with stat := .ready, inReady := true }

/-- The section of `rt_thread_suspend`. -/
def suspended (thread : Thread) : Thread :=
  timerStop { thread with inReady := false, stat := .suspend }

/-- The section of `rt_thread_resume`, which takes `tlist` out of its list. -/
def unlinked (thread : Thread) : Thread := timerStop { thread with inReady := false }

end Thread

/-- Where a thread is in a call that has several pieces. -/
inductive Pc (Tid : Type*)
  | idle
  /-- In `rt_thread_suspend`, with the status already read. -/
  | suspending (target : Tid)
  /-- In `rt_thread_startup`, in front of `rt_thread_resume`. -/
  | starting (target : Tid)
  /-- In `rt_thread_resume`, with the status already checked. -/
  | resuming (target : Tid)
  /-- In front of `rt_schedule_insert_thread`. -/
  | inserting (target : Tid)
  /-- In `rt_thread_delete`, in front of `rt_timer_detach`. -/
  | deleting (target : Tid)
  /-- In `rt_timer_detach`, in front of `rt_object_detach`. -/
  | detaching (target : Tid)
  /-- In front of the store of `RT_THREAD_CLOSE`. -/
  | closing (target : Tid)
  deriving DecidableEq

structure State (Tid : Type*) where
  thread : Tid → Thread
  current : Tid
  pc : Tid → Pc Tid

inductive Action (Tid : Type*)
  /-- The current thread blocks; with a timeout its timer is started. -/
  | block (timeout : Bool)
  /-- A release or an event resumes a thread. -/
  | release (target : Tid)
  /-- The timer interrupt takes an expired timer off the list. -/
  | expire (target : Tid)
  | exit
  | switch (target : Tid)
  | suspend (target : Tid)
  | suspendSection
  | startup (target : Tid)
  | resume (target : Tid)
  | resumeSection
  | resumeInsert
  | delete (target : Tid)
  | timerRemove
  | objectDetach
  | close
  deriving DecidableEq

inductive Event
  | moved
  | refused
  /-- `rt_thread_timeout` found its thread suspended. -/
  | timeout
  /-- The assertion of `rt_thread_timeout` fails. -/
  | assertion
  deriving DecidableEq

variable {Tid : Type*} [DecidableEq Tid]

namespace State

def setThread (st : State Tid) (tid : Tid) (thread : Thread) : State Tid :=
  { st with thread := update st.thread tid thread }

/-- The current thread goes on to another piece of its call. -/
def goto (st : State Tid) (pc : Pc Tid) : State Tid :=
  { st with pc := update st.pc st.current pc }

/-- `rt_schedule_insert_thread`. -/
def insert (st : State Tid) (target : Tid) (thread : Thread) : State Tid :=
  st.setThread target (thread.scheduleInsert (target = st.current))

/-- The current thread runs; one that has suspended itself waits for its switch. -/
def Runs (st : State Tid) : Prop := (st.thread st.current).stat = .running

instance (st : State Tid) : Decidable st.Runs :=
  inferInstanceAs (Decidable (_ = _))

end State

/-- `RT_ASSERT` on the type of the timer object, where `RT_DEBUG` is defined. -/
def Passes (debug : Bool) (thread : Thread) : Prop := debug = true → thread.timerObject = true

instance (debug : Bool) (thread : Thread) : Decidable (Passes debug thread) :=
  inferInstanceAs (Decidable (_ → _))

/-- `rt_thread_resume` with interrupts disabled. -/
def rtThreadResume (debug : Bool) (st : State Tid) (target : Tid) :
    Option (State Tid × Event) :=
  if (st.thread target).stat = .suspend then
    if Passes debug (st.thread target) then
      some (st.insert target (st.thread target).unlinked, .moved)
    else none
  else some (st, .refused)

/-- `rt_timer_check` for an expired thread timer, with `rt_thread_timeout`. -/
def rtThreadTimeout (st : State Tid) (target : Tid) : State Tid × Event :=
  let expired := { st.thread target with linked := false, activated := false, inReady := false }
  (st.insert target expired,
    if (st.thread target).stat = .suspend then .timeout else .assertion)

/-- The current thread goes back to the ready table, if it has not suspended itself. -/
def switchOut (st : State Tid) : State Tid :=
  if st.Runs then
    st.setThread st.current
      { st.thread st.current with stat := .ready, inReady := true }
  else st

/-- `rt_schedule`, choosing a thread of the ready table. -/
def rtSchedule (st : State Tid) (target : Tid) : State Tid :=
  let switched := { st.thread target with stat := .running, inReady := false }
  { (switchOut st).setThread target switched with current := target }

/-- The pieces that the thread takes next in a call of its own. -/
def proceed (debug : Bool) (st : State Tid) : Action Tid → Pc Tid → Option (State Tid × Event)
  | .suspendSection, .suspending target =>
    if Passes debug (st.thread target) then
      some ((st.setThread target (st.thread target).suspended).goto .idle, .moved)
    else none
  | .resumeSection, .resuming target =>
    if Passes debug (st.thread target) then
      some ((st.setThread target (st.thread target).unlinked).goto (.inserting target),
        .moved)
    else none
  | .resumeInsert, .inserting target =>
    some ((st.insert target (st.thread target)).goto .idle, .moved)
  | .timerRemove, .deleting target =>
    if Passes debug (st.thread target) then
      some ((st.setThread target { st.thread target with linked := false }).goto
        (.detaching target), .moved)
    else none
  | .objectDetach, .detaching target =>
    some ((st.setThread target { st.thread target with timerObject := false }).goto
      (.closing target), .moved)
  | .close, .closing target =>
    some ((st.setThread target { st.thread target with stat := .close }).goto .idle, .moved)
  | _, _ => none

/-- The check of `rt_thread_resume`. -/
def resumeCheck (st : State Tid) (target : Tid) : State Tid × Event :=
  if (st.thread target).stat = .suspend then (st.goto (.resuming target), .moved)
  else (st.goto .idle, .refused)

def step (debug : Bool) (st : State Tid) : Action Tid → Option (State Tid × Event)
  | .block timeout =>
    let self := st.thread st.current
    if st.Runs ∧ st.pc st.current = .idle ∧ Passes debug self then
      let asleep := self.suspended
      some (st.setThread st.current (if timeout then asleep.timerStart else asleep), .moved)
    else none
  | .release target => rtThreadResume debug st target
  | .expire target =>
    if (st.thread target).linked then some (rtThreadTimeout st target) else none
  | .exit =>
    let self := st.thread st.current
    if st.Runs ∧ st.pc st.current = .idle ∧ Passes debug self then
      some (st.setThread st.current
        { self with inReady := false, stat := .close, linked := false, timerObject := false },
        .moved)
    else none
  | .switch target =>
    if (st.thread target).inReady ∧ target ≠ st.current then
      some (rtSchedule st target, .moved)
    else none
  | .suspend target =>
    if st.Runs ∧ st.pc st.current = .idle then
      if (st.thread target).stat = .ready ∨
          (st.thread target).stat = .running ∧ target = st.current then
        some (st.goto (.suspending target), .moved)
      else some (st, .refused)
    else none
  | .startup target =>
    if st.Runs ∧ st.pc st.current = .idle ∧ (st.thread target).stat = .init then
      some ((st.setThread target { st.thread target with stat := .suspend }).goto
        (.starting target), .moved)
    else none
  | .resume target =>
    if st.Runs ∧ (st.pc st.current = .idle ∨ st.pc st.current = .starting target)
    then some (resumeCheck st target)
    else none
  | .delete target =>
    if st.Runs ∧ st.pc st.current = .idle then
      let thread := st.thread target
      let removed := if thread.stat = .init then thread else { thread with inReady := false }
      some ((st.setThread target removed).goto (.deleting target), .moved)
    else none
  | act => if st.Runs then proceed debug st act (st.pc st.current) else none

def machine (debug : Bool) : Machine (State Tid) (Action Tid) Event where
  step := step debug

/-- One thread runs and the others have been initialised. -/
def initial (main : Tid) : State Tid where
  thread := update (fun _ => .fresh) main { Thread.fresh with stat := .running }
  current := main
  pc := fun _ => .idle

/-! ## The invariant of a thread -/

/-- A timer is linked only while its thread is suspended. -/
def TimersSafe (st : State Tid) : Prop :=
  ∀ tid, (st.thread tid).linked = true → (st.thread tid).stat = .suspend

/-- The timers are safe, and the assertion of `rt_thread_timeout` does not fail. -/
structure Safe (debug : Bool) (st : State Tid) (act : Action Tid) : Prop where
  timers : TimersSafe st
  assertion : ∀ next, step debug st act ≠ some (next, .assertion)

/-- A linked timer has its flag, and its thread is suspended and out of the ready
table. -/
def Thread.Calm (thread : Thread) : Prop :=
  thread.linked = true →
    thread.stat = .suspend ∧ thread.inReady = false ∧ thread.activated = true

def Inv (st : State Tid) : Prop := ∀ tid, (st.thread tid).Calm

namespace Thread

variable {thread : Thread}

theorem calm_of_linked_eq_false (h : thread.linked = false) : thread.Calm := by
  intro hlinked
  rw [h] at hlinked
  cases hlinked

theorem Calm.timerStop_linked (h : thread.linked = true → thread.activated = true) :
    thread.timerStop.linked = false := by
  rw [timerStop]
  split
  · rfl
  · rename_i hactivated
    exact Bool.eq_false_iff.2 fun hlinked => hactivated (h hlinked)

theorem Calm.suspended_linked (h : thread.Calm) : thread.suspended.linked = false :=
  timerStop_linked fun hlinked => (h hlinked).2.2

theorem Calm.unlinked_linked (h : thread.Calm) : thread.unlinked.linked = false :=
  timerStop_linked fun hlinked => (h hlinked).2.2

theorem suspended_stat (thread : Thread) : thread.suspended.stat = .suspend := by
  rw [suspended, timerStop]
  split <;> rfl

theorem suspended_inReady (thread : Thread) : thread.suspended.inReady = false := by
  rw [suspended, timerStop]
  split <;> rfl

theorem scheduleInsert_linked (isCurrent : Bool) (thread : Thread) :
    (thread.scheduleInsert isCurrent).linked = thread.linked := by
  rw [scheduleInsert]
  split <;> rfl

theorem scheduleInsert_stat_ne (isCurrent : Bool) (thread : Thread) :
    (thread.scheduleInsert isCurrent).stat ≠ .suspend := by
  rw [scheduleInsert]
  split <;> nofun

/-- A timer may be linked once its thread is suspended. -/
theorem calm_timerStart_suspended (thread : Thread) : thread.suspended.timerStart.Calm :=
  fun _ => ⟨thread.suspended_stat, thread.suspended_inReady, rfl⟩

end Thread

section Step

variable {debug : Bool} {st next : State Tid} {act : Action Tid} {event : Event}

omit [DecidableEq Tid] in
theorem Inv.timersSafe (h : Inv st) : TimersSafe st :=
  fun tid hlinked => (h tid hlinked).1

@[simp] theorem setThread_self (st : State Tid) (tid : Tid) (thread : Thread) :
    (st.setThread tid thread).thread tid = thread :=
  update_self ..

theorem setThread_of_ne {tid other : Tid} (hne : other ≠ tid) (st : State Tid)
    (thread : Thread) : (st.setThread tid thread).thread other = st.thread other :=
  update_of_ne hne ..

theorem Inv.setThread (h : Inv st) {tid : Tid} {thread : Thread} (hthread : thread.Calm) :
    Inv (st.setThread tid thread) := by
  intro other
  by_cases heq : other = tid
  · subst heq
    rw [setThread_self]
    exact hthread
  · rw [setThread_of_ne heq]
    exact h other

theorem Inv.insert (h : Inv st) {target : Tid} {thread : Thread}
    (hlinked : thread.linked = false) : Inv (st.insert target thread) :=
  h.setThread (Thread.calm_of_linked_eq_false ((Thread.scheduleInsert_linked _ _).trans hlinked))

theorem Inv.rtThreadResume {target : Tid} (h : Inv st)
    (hresult : rtThreadResume debug st target = some (next, event)) : Inv next := by
  rw [ThreadTimer.rtThreadResume] at hresult
  split at hresult
  · split at hresult <;> cases hresult
    exact h.insert (h target).unlinked_linked
  · cases hresult
    exact h

/-- The thread that is switched out runs and the other one is in the ready table, so
that neither has its timer linked. -/
theorem Inv.rtSchedule {target : Tid} (h : Inv st)
    (hready : (st.thread target).inReady = true) : Inv (rtSchedule st target) := by
  have hout : Inv (switchOut st) := by
    rw [switchOut]
    split
    · rename_i hruns
      refine h.setThread (Thread.calm_of_linked_eq_false (Bool.eq_false_iff.2 fun hlinked => ?_))
      have hsuspend := (h st.current hlinked).1
      rw [State.Runs, hsuspend] at hruns
      cases hruns
    · exact h
  refine hout.setThread (Thread.calm_of_linked_eq_false (Bool.eq_false_iff.2 fun hlinked => ?_))
  have hout := (h target hlinked).2.1
  rw [hready] at hout
  cases hout

/-- Where a thread is made ready or closed outside a section that stops its timer,
the timer is not linked. -/
def TargetUnlinked (st : State Tid) : Pc Tid → Prop
  | .inserting target | .closing target => (st.thread target).linked = false
  | _ => True

/-- `rt_schedule_insert_thread` in a call of `rt_thread_resume` on its own, and the
store of `RT_THREAD_CLOSE` in `rt_thread_delete`, find the timer unlinked. -/
def FindsUnlinked (st : State Tid) : Action Tid → Prop
  | .resumeInsert | .close => TargetUnlinked st (st.pc st.current)
  | _ => True

theorem Inv.proceed {pc : Pc Tid} (h : Inv st) (hgood : FindsUnlinked st act)
    (hpc : st.pc st.current = pc)
    (hresult : proceed debug st act pc = some (next, event)) : Inv next := by
  subst hpc
  unfold ThreadTimer.proceed at hresult
  split at hresult
  · split at hresult <;> cases hresult
    exact h.setThread (Thread.calm_of_linked_eq_false (h _).suspended_linked)
  · split at hresult <;> cases hresult
    exact h.setThread (Thread.calm_of_linked_eq_false (h _).unlinked_linked)
  · rename_i target hpc
    cases hresult
    simp only [FindsUnlinked, hpc, TargetUnlinked] at hgood
    exact h.insert hgood
  · split at hresult <;> cases hresult
    exact h.setThread (Thread.calm_of_linked_eq_false rfl)
  · cases hresult
    exact h.setThread (h _)
  · rename_i target hpc
    cases hresult
    simp only [FindsUnlinked, hpc, TargetUnlinked] at hgood
    exact h.setThread (Thread.calm_of_linked_eq_false hgood)
  · cases hresult

theorem Inv.step (h : Inv st) (hgood : FindsUnlinked st act)
    (hstep : step debug st act = some (next, event)) : Inv next := by
  cases act with
  | block timeout =>
    simp only [ThreadTimer.step] at hstep
    split at hstep <;> cases hstep
    cases timeout with
    | true => exact h.setThread (Thread.calm_timerStart_suspended _)
    | false => exact h.setThread (Thread.calm_of_linked_eq_false (h _).suspended_linked)
  | release target => exact h.rtThreadResume hstep
  | expire target =>
    simp only [ThreadTimer.step] at hstep
    split at hstep <;> cases hstep
    exact h.insert rfl
  | exit =>
    simp only [ThreadTimer.step] at hstep
    split at hstep <;> cases hstep
    exact h.setThread (Thread.calm_of_linked_eq_false rfl)
  | switch target =>
    simp only [ThreadTimer.step] at hstep
    split at hstep
    · rename_i hready
      cases hstep
      exact h.rtSchedule hready.1
    · cases hstep
  | suspend target =>
    simp only [ThreadTimer.step] at hstep
    split at hstep
    · split at hstep <;> cases hstep <;> exact h
    · cases hstep
  | startup target =>
    simp only [ThreadTimer.step] at hstep
    split at hstep
    · rename_i henabled
      cases hstep
      exact h.setThread fun hlinked => ⟨rfl, (h target hlinked).2⟩
    · cases hstep
  | resume target =>
    simp only [ThreadTimer.step, resumeCheck] at hstep
    split at hstep
    · split at hstep <;> cases hstep <;> exact h
    · cases hstep
  | delete target =>
    simp only [ThreadTimer.step] at hstep
    split at hstep
    · cases hstep
      refine h.setThread ?_
      split
      · exact h target
      · exact fun hlinked => ⟨(h target hlinked).1, rfl, (h target hlinked).2.2⟩
    · cases hstep
  | suspendSection | resumeSection | resumeInsert | timerRemove | objectDetach | close =>
    simp only [ThreadTimer.step] at hstep
    split at hstep
    · exact h.proceed hgood rfl hstep
    · cases hstep

/-- A timer that is linked when its thread is made ready or closed stays linked. -/
theorem not_timersSafe_of_linked (hbad : ¬FindsUnlinked st act)
    (hstep : step debug st act = some (next, event)) : ¬TimersSafe next := by
  intro hsafe
  cases act with
  | resumeInsert =>
    simp only [ThreadTimer.step] at hstep
    simp only [FindsUnlinked] at hbad
    split at hstep
    · cases hpc : st.pc st.current with
      | inserting target =>
        rw [hpc] at hstep hbad
        cases hstep
        have hsuspend := hsafe target
        simp only [State.goto, State.insert, setThread_self,
          Thread.scheduleInsert_linked] at hsuspend
        exact Thread.scheduleInsert_stat_ne _ _ (hsuspend (by simpa [TargetUnlinked] using hbad))
      | _ => rw [hpc] at hstep; cases hstep
    · cases hstep
  | close =>
    simp only [ThreadTimer.step] at hstep
    simp only [FindsUnlinked] at hbad
    split at hstep
    · cases hpc : st.pc st.current with
      | closing target =>
        rw [hpc] at hstep hbad
        cases hstep
        have hsuspend := hsafe target
        simp only [State.goto, setThread_self] at hsuspend
        cases hsuspend (by simpa [TargetUnlinked] using hbad)
      | _ => rw [hpc] at hstep; cases hstep
    · cases hstep
  | _ => exact hbad trivial

/-- Only an expired timer whose thread is not suspended fails the assertion. -/
theorem Inv.ne_assertion (h : Inv st) :
    ThreadTimer.step debug st act ≠ some (next, .assertion) := by
  intro hstep
  cases act with
  | expire target =>
    simp only [ThreadTimer.step, rtThreadTimeout] at hstep
    split at hstep
    · rename_i hlinked
      rw [(h target hlinked).1] at hstep
      cases hstep
    · cases hstep
  | release target =>
    simp only [ThreadTimer.step, ThreadTimer.rtThreadResume] at hstep
    (repeat' split at hstep) <;> cases hstep
  | resume target =>
    simp only [ThreadTimer.step, resumeCheck] at hstep
    (repeat' split at hstep) <;> cases hstep
  | suspendSection | resumeSection | resumeInsert | timerRemove | objectDetach | close =>
    simp only [ThreadTimer.step] at hstep
    split at hstep
    · unfold ThreadTimer.proceed at hstep
      (repeat' split at hstep) <;> cases hstep
    · cases hstep
  | _ =>
    simp only [ThreadTimer.step] at hstep
    (repeat' split at hstep) <;> cases hstep

end Step

/-! ## Runs -/

theorem inv_initial (main : Tid) : Inv (initial main) := by
  intro tid
  refine Thread.calm_of_linked_eq_false ?_
  by_cases heq : tid = main
  · subst heq
    simp [initial, Thread.fresh]
  · simp [initial, heq, Thread.fresh]

/-- In every run, a timer is linked only while its thread is suspended and the assertion of
`rt_thread_timeout` holds, exactly when no thread is made ready by an `rt_thread_resume` of its
own or closed by `rt_thread_delete` while its timer is linked. -/
theorem thread_timers_safe {debug : Bool} {main : Tid} {last : State Tid}
    {trace : List (Action Tid × Event)} (hrun : (machine debug).Run (initial main) trace last) :
    ((machine debug).RunWith (Safe debug) (initial main) trace last ∧ TimersSafe last) ↔
      (machine debug).RunWith FindsUnlinked (initial main) trace last := by
  have hiff := hrun.always_iff Inv TimersSafe (fun _ h => h.timersSafe)
    (fun _ _ _ _ h hgood hstep => h.step hgood hstep)
    (fun _ _ _ _ _ hbad hstep => not_timersSafe_of_linked hbad hstep) (inv_initial main)
  constructor
  · rintro ⟨hsafe, hlast⟩
    exact hiff.1 ⟨hsafe.mono fun _ _ h => h.timers, hlast⟩
  · intro hgood
    refine ⟨?_, (hiff.2 hgood).2⟩
    exact hgood.weaken Inv (fun _ _ _ _ h hfinds hstep => h.step hfinds hstep)
      (fun _ _ h _ => ⟨h.timersSafe, fun _ => h.ne_assertion⟩) (inv_initial main)

instance (st : State Tid) : (pc : Pc Tid) → Decidable (TargetUnlinked st pc)
  | .inserting _ | .closing _ => inferInstanceAs (Decidable (_ = _))
  | .idle | .suspending _ | .starting _ | .resuming _ | .deleting _ | .detaching _ =>
    inferInstanceAs (Decidable True)

instance (st : State Tid) : (act : Action Tid) → Decidable (FindsUnlinked st act)
  | .resumeInsert | .close => inferInstanceAs (Decidable (TargetUnlinked _ _))
  | .block _ | .release _ | .expire _ | .exit | .switch _ | .suspend _ | .suspendSection
  | .startup _ | .resume _ | .resumeSection | .delete _ | .timerRemove | .objectDetach =>
    inferInstanceAs (Decidable True)

/-- A thread is started. -/
def started (target : ℕ) : List (Action ℕ) :=
  [.startup target, .resume target, .resumeSection, .resumeInsert]

/-- A thread sleeps twice, once until its timer expires and once until it is resumed, and is
then deleted. -/
def scheduleDeleted : List (Action ℕ) :=
  started 1 ++ ([.switch 1, .block true, .switch 0, .expire 1, .switch 1, .block true, .switch 0,
    .release 1, .delete 1, .timerRemove, .objectDetach, .close] : List (Action ℕ))

theorem isSome_scheduleDeleted : ((machine true).exec FindsUnlinked (initial (0 : ℕ))
    scheduleDeleted).isSome = true := by
  decide

theorem thread_timers_safe_scheduleDeleted : ∃ trace, ∃ last : State ℕ,
    (machine true).RunWith FindsUnlinked (initial 0) trace last ∧
      trace.map Prod.fst = scheduleDeleted ∧
        (machine true).RunWith (Safe true) (initial 0) trace last ∧ TimersSafe last := by
  have hrun := Machine.runWith_of_isSome scheduleDeleted isSome_scheduleDeleted
  exact ⟨_, _, hrun, Machine.actions_of_isSome scheduleDeleted isSome_scheduleDeleted,
    (thread_timers_safe hrun.run).2 hrun⟩

/-- The timer of a thread that is being deleted expires, and the thread gets to sleep again
before it is closed. -/
def scheduleClosed : List (Action ℕ) :=
  started 1 ++ ([.switch 1, .block true, .switch 0, .delete 1, .expire 1, .timerRemove, .switch 1,
    .block true, .switch 0, .objectDetach, .close, .expire 1] : List (Action ℕ))

/-- A thread is resumed by two threads, and sleeps again before the first of them has inserted
it. -/
def scheduleResumed : List (Action ℕ) :=
  started 1 ++ started 2 ++ ([.switch 2, .block true, .switch 0, .resume 2, .resumeSection,
    .switch 1, .resume 2, .resumeSection, .resumeInsert, .switch 2, .block true, .switch 0,
    .resumeInsert, .expire 2] : List (Action ℕ))

theorem exec_scheduleClosed : ((machine true).exec (fun _ _ => True) (initial (0 : ℕ))
    scheduleClosed).map (fun result => (result.2.map Prod.fst, result.2.getLast?)) =
      some (scheduleClosed, some (.expire 1, .assertion)) := by
  decide

theorem exec_scheduleResumed : ((machine true).exec (fun _ _ => True) (initial (0 : ℕ))
    scheduleResumed).map (fun result => (result.2.map Prod.fst, result.2.getLast?)) =
      some (scheduleResumed, some (.expire 2, .assertion)) := by
  decide

/-- The assertion of `rt_thread_timeout` fails for a closed thread, and for a ready one. -/
theorem stale_thread_timer_expires :
    (∃ trace, ∃ last : State ℕ, (machine true).Run (initial 0) trace last ∧
      trace.map Prod.fst = scheduleClosed ∧ trace.getLast? = some (.expire 1, .assertion)) ∧
    ∃ trace, ∃ last : State ℕ, (machine true).Run (initial 0) trace last ∧
      trace.map Prod.fst = scheduleResumed ∧ trace.getLast? = some (.expire 2, .assertion) := by
  constructor
  · obtain ⟨⟨last, trace⟩, hexec, hfacts⟩ := Option.map_eq_some_iff.1 exec_scheduleClosed
    rw [Prod.mk.injEq] at hfacts
    exact ⟨trace, last, Machine.runWith_of_exec scheduleClosed hexec, hfacts.1, hfacts.2⟩
  · obtain ⟨⟨last, trace⟩, hexec, hfacts⟩ := Option.map_eq_some_iff.1 exec_scheduleResumed
    rw [Prod.mk.injEq] at hfacts
    exact ⟨trace, last, Machine.runWith_of_exec scheduleResumed hexec, hfacts.1, hfacts.2⟩

end RtThread.ThreadTimer
