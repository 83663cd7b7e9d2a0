import RtThread.Core.Machine
import RtThread.Kernel.Thread

set_option linter.all false

/-!
# Delayed works

A delayed work is a work with a timer: `rt_workqueue_submit_work` attaches it to the queue and
starts the timer, whose handler submits it as an ordinary work.  `rt_workqueue_cancel_work` sends
a delayed work to `_workqueue_cancel_delayed_work`, which sends a work that is pending back to
`rt_workqueue_cancel_work`.

The calls of the threads, the timers and the workers run one after the other here; how the
worker of a queue and the callers interleave is another matter.
-/

namespace RtThread.DelayedWork

open Function
open RtThread.Core
open RtThread.Kernel (Err)

/-- `struct rt_work` and `struct rt_delayed_work`: the type, the two state flags, whether the
timer runs, and the queue that the work is attached to. -/
structure RtWork (Queue : Type*) where
  delayed : Bool
  pending : Bool
  submitting : Bool
  timer : Bool
  workqueue : Option Queue

structure State (Queue Work : Type*) where
  workList : Queue → List Work
  workCurrent : Queue → Option Work
  works : Work → RtWork Queue

/-- `rt_work_init` and `rt_delayed_work_init`, for works that were zeroed before. -/
def initial {Queue Work : Type*} (delayed : Work → Bool) : State Queue Work where
  workList _ := []
  workCurrent _ := none
  works work :=
    { delayed := delayed work, pending := false, submitting := false, timer := false,
      workqueue := none }

variable {Queue Work : Type*} [DecidableEq Queue] [DecidableEq Work]

namespace State

def modify (st : State Queue Work) (work : Work) (operation : RtWork Queue → RtWork Queue) :
    State Queue Work :=
  { st with works := update st.works work (operation (st.works work)) }

/-- `rt_list_remove`: the work is taken out of the list that it is in. -/
def unlink (st : State Queue Work) (work : Work) : State Queue Work :=
  { st with workList := fun queue => (st.workList queue).erase work }

/-- `rt_list_insert_after` the last work of the list. -/
def append (st : State Queue Work) (queue : Queue) (work : Work) : State Queue Work :=
  { st with workList := update st.workList queue (st.workList queue ++ [work]) }

/-- The work is in the list of some queue. -/
def Linked (st : State Queue Work) (work : Work) : Prop :=
  ∃ queue, work ∈ st.workList queue

end State

def setPending (work : RtWork Queue) : RtWork Queue := { work with pending := true }

def clearPending (work : RtWork Queue) : RtWork Queue := { work with pending := false }

/-- `rt_timer_stop` and `rt_timer_detach`, with the flag that goes with the timer. -/
def stopTimer (work : RtWork Queue) : RtWork Queue :=
  { work with timer := false, submitting := false }

def startTimer (work : RtWork Queue) : RtWork Queue :=
  { work with timer := true, submitting := true }

/-! ## Submitting and cancelling -/

def workqueueSubmitWork (st : State Queue Work) (queue : Queue) (work : Work) :
    State Queue Work × Err :=
  if (st.works work).pending = true then (st, .ebusy)
  else if st.workCurrent queue = some work then (st, .ebusy)
  else
    (((st.unlink work).append queue work).modify work setPending, .eok)

def workqueueCancelWork (st : State Queue Work) (queue : Queue) (work : Work) :
    State Queue Work × Err :=
  if st.workCurrent queue = some work then (st, .ebusy)
  else ((st.unlink work).modify work clearPending, .eok)

/-- `cancel` is `rt_workqueue_cancel_work`, which calls this function in its turn. -/
def workqueueCancelDelayedWork
    (cancel : State Queue Work → Queue → Work → Option (State Queue Work × Err))
    (st : State Queue Work) (work : Work) : Option (State Queue Work × Err) :=
  match (st.works work).workqueue with
  | none => some (st, .einval)
  | some queue =>
    let detach := fun (st : State Queue Work) =>
      st.modify work fun work => { work with workqueue := none, pending := false }
    if (st.works work).pending = true then
      match cancel st queue work with
      | none => none
      | some (next, .eok) => some (detach next, .eok)
      | some (next, err) => some (next, err)
    else if (st.works work).submitting = true then
      some (detach (st.modify work stopTimer), .eok)
    else some (detach st, .eok)

/-- `none` when the call goes deeper than the fuel. -/
def rtWorkqueueCancelWork :
    ℕ → State Queue Work → Queue → Work → Option (State Queue Work × Err)
  | 0, _, _, _ => none
  | fuel + 1, st, queue, work =>
    if (st.works work).delayed = true then
      workqueueCancelDelayedWork (rtWorkqueueCancelWork fuel) st work
    else some (workqueueCancelWork st queue work)

/-- What `_workqueue_submit_delayed_work` does once the work is not attached to another queue and
was cancelled.  What the submission without a delay returns is not looked at. -/
def attach (st : State Queue Work) (queue : Queue) (work : Work) (ticks : ℕ) :
    State Queue Work :=
  let attached := st.modify work fun work => { work with workqueue := some queue }
  if ticks = 0 then (workqueueSubmitWork attached queue work).1
  else attached.modify work startTimer

def workqueueSubmitDelayedWork (fuel : ℕ) (st : State Queue Work) (queue : Queue)
    (work : Work) (ticks : ℕ) : Option (State Queue Work × Err) :=
  match (st.works work).workqueue with
  | none => some (attach st queue work ticks, .eok)
  | some other =>
    if other ≠ queue then some (st, .einval)
    else
      match workqueueCancelDelayedWork (rtWorkqueueCancelWork fuel) st work with
      | none => none
      | some (next, .eok) => some (attach next queue work ticks, .eok)
      | some (next, err) => some (next, err)

def rtWorkqueueSubmitWork (fuel : ℕ) (st : State Queue Work) (queue : Queue) (work : Work)
    (time : ℕ) : Option (State Queue Work × Err) :=
  if (st.works work).delayed = true then workqueueSubmitDelayedWork fuel st queue work time
  else some (workqueueSubmitWork st queue work)

/-- The work is linked, but its flag is not set. -/
def rtWorkqueueCriticalWork (st : State Queue Work) (queue : Queue) (work : Work) :
    State Queue Work × Err :=
  if st.workCurrent queue = some work then (st, .ebusy)
  else ((st.unlink work).append queue work, .eok)

/-- `none` while the work is executed: the call waits then. -/
def rtWorkqueueCancelWorkSync (st : State Queue Work) (queue : Queue) (work : Work) :
    Option (State Queue Work × Err) :=
  if st.workCurrent queue = some work then none
  else some ((st.unlink work).modify work clearPending, .eok)

def rtWorkqueueCancelAllWork (st : State Queue Work) (queue : Queue) : State Queue Work :=
  { st with workList := update st.workList queue [] }

/-- `_delayed_work_timeout_handler`. -/
def delayedWorkTimeoutHandler (st : State Queue Work) (work : Work) :
    Option (State Queue Work × Err) :=
  match (st.works work).workqueue with
  | none => none
  | some queue => some (workqueueSubmitWork (st.modify work stopTimer) queue work)

/-- The worker takes a work off the list. -/
def dequeue (st : State Queue Work) (queue : Queue) : Option (State Queue Work) :=
  match st.workCurrent queue, st.workList queue with
  | none, work :: _ =>
    let taken := (st.unlink work).modify work clearPending
    some { taken with workCurrent := update taken.workCurrent queue (some work) }
  | _, _ => none

inductive Action (Queue Work : Type*)
  | submitWork (queue : Queue) (work : Work) (time : ℕ)
  | dowork (queue : Queue) (work : Work)
  | criticalWork (queue : Queue) (work : Work)
  | cancelWork (queue : Queue) (work : Work)
  | cancelWorkSync (queue : Queue) (work : Work)
  | cancelAllWork (queue : Queue)
  /-- The timer of a work fires. -/
  | timeout (work : Work)
  | dequeue (queue : Queue)
  /-- The work that the worker of the queue has executed returns. -/
  | complete (queue : Queue)

def step (fuel : ℕ) (st : State Queue Work) :
    Action Queue Work → Option (State Queue Work × Err)
  | .submitWork queue work time => rtWorkqueueSubmitWork fuel st queue work time
  | .dowork queue work => some (workqueueSubmitWork st queue work)
  | .criticalWork queue work => some (rtWorkqueueCriticalWork st queue work)
  | .cancelWork queue work => rtWorkqueueCancelWork fuel st queue work
  | .cancelWorkSync queue work => rtWorkqueueCancelWorkSync st queue work
  | .cancelAllWork queue => some (rtWorkqueueCancelAllWork st queue, .eok)
  | .timeout work =>
    if (st.works work).timer = true then delayedWorkTimeoutHandler st work else none
  | .dequeue queue => (dequeue st queue).map fun next => (next, .eok)
  | .complete queue =>
    some ({ st with workCurrent := update st.workCurrent queue none }, .eok)

/-- The steps in which every call that returns does so within the fuel. -/
def machine (fuel : ℕ) : Machine (State Queue Work) (Action Queue Work) Err where
  step := step fuel

/-! ## The timer -/

variable {st next : State Queue Work} {queue : Queue} {work : Work} {err : Err}

/-- A work whose timer runs is being submitted. -/
def TimersFlagged (st : State Queue Work) : Prop :=
  ∀ work, (st.works work).timer = true → (st.works work).submitting = true

omit [DecidableEq Queue] in
theorem TimersFlagged.modify (hflagged : TimersFlagged st) (work : Work)
    {operation : RtWork Queue → RtWork Queue}
    (hkeeps : ∀ work, (work.timer = true → work.submitting = true) →
      (operation work).timer = true → (operation work).submitting = true) :
    TimersFlagged (st.modify work operation) := by
  intro other
  rw [State.modify]
  by_cases heq : other = work
  · subst heq
    simpa using hkeeps _ (hflagged other)
  · simpa [heq] using hflagged other

omit [DecidableEq Queue] in
theorem TimersFlagged.clearPending (hflagged : TimersFlagged st) (work : Work) :
    TimersFlagged ((st.unlink work).modify work clearPending) := by
  have hunlinked : TimersFlagged (st.unlink work) := hflagged
  exact hunlinked.modify work fun _ hwork => hwork

omit [DecidableEq Queue] in
theorem TimersFlagged.stopTimer (hflagged : TimersFlagged st) (work : Work) :
    TimersFlagged (st.modify work stopTimer) :=
  hflagged.modify work fun _ _ hstopped => nomatch hstopped

theorem TimersFlagged.submit (hflagged : TimersFlagged st) (queue : Queue) (work : Work) :
    TimersFlagged (workqueueSubmitWork st queue work).1 := by
  rw [workqueueSubmitWork]
  split
  · exact hflagged
  · split
    · exact hflagged
    · have hmoved : TimersFlagged ((st.unlink work).append queue work) := hflagged
      exact hmoved.modify work fun _ hwork => hwork

omit [DecidableEq Queue] in
theorem TimersFlagged.cancel (hflagged : TimersFlagged st) (queue : Queue) (work : Work) :
    TimersFlagged (workqueueCancelWork st queue work).1 := by
  rw [workqueueCancelWork]
  split
  · exact hflagged
  · exact hflagged.clearPending work

omit [DecidableEq Queue] in
theorem TimersFlagged.cancelDelayed
    {cancel : State Queue Work → Queue → Work → Option (State Queue Work × Err)}
    (hcancel : ∀ st queue work next err, TimersFlagged st →
      cancel st queue work = some (next, err) → TimersFlagged next)
    (hflagged : TimersFlagged st)
    (hcall : workqueueCancelDelayedWork cancel st work = some (next, err)) :
    TimersFlagged next := by
  rw [workqueueCancelDelayedWork] at hcall
  split at hcall
  · cases hcall
    exact hflagged
  · split at hcall
    · split at hcall
      · contradiction
      · next middle hinner =>
        cases hcall
        exact (hcancel _ _ _ _ _ hflagged hinner).modify work fun _ hwork => hwork
      · next middle other _ hinner =>
        cases hcall
        exact hcancel _ _ _ _ _ hflagged hinner
    · split at hcall <;> cases hcall
      · exact (hflagged.stopTimer work).modify work fun _ hwork => hwork
      · exact hflagged.modify work fun _ hwork => hwork

omit [DecidableEq Queue] in
theorem TimersFlagged.rtWorkqueueCancelWork {fuel : ℕ} (hflagged : TimersFlagged st)
    (hcall : rtWorkqueueCancelWork fuel st queue work = some (next, err)) :
    TimersFlagged next := by
  induction fuel generalizing st queue work next err with
  | zero => contradiction
  | succ fuel ih =>
    rw [DelayedWork.rtWorkqueueCancelWork] at hcall
    split at hcall
    · exact hflagged.cancelDelayed (fun _ _ _ _ _ => ih) hcall
    · obtain rfl := congrArg Prod.fst (Option.some.inj hcall)
      exact hflagged.cancel queue work

theorem TimersFlagged.attach (hflagged : TimersFlagged st) (queue : Queue) (work : Work)
    (ticks : ℕ) : TimersFlagged (attach st queue work ticks) := by
  have hattached : TimersFlagged (st.modify work fun work =>
      { work with workqueue := some queue }) := hflagged.modify work fun _ hwork => hwork
  rw [DelayedWork.attach]
  split
  · exact hattached.submit queue work
  · exact hattached.modify work fun _ _ _ => rfl

theorem TimersFlagged.rtWorkqueueSubmitWork {fuel ticks : ℕ} (hflagged : TimersFlagged st)
    (hcall : rtWorkqueueSubmitWork fuel st queue work ticks = some (next, err)) :
    TimersFlagged next := by
  rw [DelayedWork.rtWorkqueueSubmitWork] at hcall
  split at hcall
  · rw [workqueueSubmitDelayedWork] at hcall
    split at hcall
    · obtain ⟨rfl, -⟩ := Prod.mk.inj (Option.some.inj hcall)
      exact hflagged.attach queue work ticks
    · split at hcall
      · obtain ⟨rfl, -⟩ := Prod.mk.inj (Option.some.inj hcall)
        exact hflagged
      · split at hcall
        · contradiction
        · next middle hinner =>
          obtain ⟨rfl, -⟩ := Prod.mk.inj (Option.some.inj hcall)
          exact (hflagged.cancelDelayed (fun _ _ _ _ _ hold => hold.rtWorkqueueCancelWork)
            hinner).attach queue work ticks
        · next middle other _ hinner =>
          obtain ⟨rfl, -⟩ := Prod.mk.inj (Option.some.inj hcall)
          exact hflagged.cancelDelayed (fun _ _ _ _ _ hold => hold.rtWorkqueueCancelWork) hinner
  · obtain rfl := congrArg Prod.fst (Option.some.inj hcall)
    exact hflagged.submit queue work

theorem timersFlagged_step {fuel : ℕ} {act : Action Queue Work}
    (hflagged : TimersFlagged st) (hstep : step fuel st act = some (next, err)) :
    TimersFlagged next := by
  cases act with
  | submitWork queue work time => exact hflagged.rtWorkqueueSubmitWork hstep
  | dowork queue work =>
    obtain rfl := congrArg Prod.fst (Option.some.inj hstep)
    exact hflagged.submit queue work
  | criticalWork queue work =>
    obtain rfl := congrArg Prod.fst (Option.some.inj hstep)
    rw [rtWorkqueueCriticalWork]
    split <;> exact hflagged
  | cancelWork queue work => exact hflagged.rtWorkqueueCancelWork hstep
  | cancelWorkSync queue work =>
    rw [step, rtWorkqueueCancelWorkSync] at hstep
    split at hstep
    · contradiction
    · obtain rfl := congrArg Prod.fst (Option.some.inj hstep)
      exact hflagged.clearPending work
  | cancelAllWork queue =>
    obtain rfl := congrArg Prod.fst (Option.some.inj hstep)
    exact hflagged
  | timeout work =>
    rw [step, delayedWorkTimeoutHandler] at hstep
    split at hstep
    · split at hstep
      · contradiction
      · obtain rfl := congrArg Prod.fst (Option.some.inj hstep)
        exact (hflagged.stopTimer work).submit _ work
    · contradiction
  | dequeue queue =>
    obtain ⟨taken, htaken, hnext⟩ := Option.map_eq_some_iff.1 hstep
    rw [dequeue] at htaken
    split at htaken
    · next head _ _ _ =>
      obtain rfl := congrArg Prod.fst hnext
      obtain rfl := Option.some.inj htaken
      exact hflagged.clearPending head
    · contradiction
  | complete queue =>
    obtain rfl := congrArg Prod.fst (Option.some.inj hstep)
    exact hflagged

/-! ## Termination -/

/-- `rt_workqueue_cancel_work` returns, and a work that it has cancelled is in no list and its
timer does not run. -/
def Cancels (st : State Queue Work) (queue : Queue) (work : Work) : Prop :=
  ∃ fuel next err, rtWorkqueueCancelWork fuel st queue work = some (next, err) ∧
    (err = .eok → ¬next.Linked work ∧ (next.works work).timer = false)

/-- `rt_workqueue_submit_work` returns, whatever the delay. -/
def Submits (st : State Queue Work) (queue : Queue) (work : Work) : Prop :=
  ∀ time, ∃ fuel next err, rtWorkqueueSubmitWork fuel st queue work time = some (next, err)

omit [DecidableEq Queue] in
/-- An attached work that is pending is handed back and forth by the two functions. -/
theorem rtWorkqueueCancelWork_endless {attached : Queue}
    (hdelayed : (st.works work).delayed = true)
    (hqueue : (st.works work).workqueue = some attached)
    (hpending : (st.works work).pending = true) (fuel : ℕ) (queue : Queue) :
    rtWorkqueueCancelWork fuel st queue work = none := by
  induction fuel generalizing queue with
  | zero => rfl
  | succ fuel ih =>
    rw [rtWorkqueueCancelWork, if_pos hdelayed, workqueueCancelDelayedWork, hqueue]
    dsimp only
    rw [if_pos hpending, ih attached]

theorem rtWorkqueueSubmitWork_endless (hdelayed : (st.works work).delayed = true)
    (hqueue : (st.works work).workqueue = some queue)
    (hpending : (st.works work).pending = true) (fuel time : ℕ) :
    rtWorkqueueSubmitWork fuel st queue work time = none := by
  have hcancel := rtWorkqueueCancelWork_endless hdelayed hqueue hpending fuel queue
  rw [rtWorkqueueSubmitWork, if_pos hdelayed, workqueueSubmitDelayedWork, hqueue]
  dsimp only
  rw [if_neg (fun hother => hother rfl), workqueueCancelDelayedWork, hqueue]
  dsimp only
  rw [if_pos hpending, hcancel]

omit [DecidableEq Queue] in
/-- An attached work that is not pending is detached where it is linked. -/
theorem workqueueCancelDelayedWork_returns
    (cancel : State Queue Work → Queue → Work → Option (State Queue Work × Err))
    {attached : Queue} (hqueue : (st.works work).workqueue = some attached)
    (hpending : (st.works work).pending = false) :
    ∃ next, workqueueCancelDelayedWork cancel st work = some (next, .eok) ∧
      next.workList = st.workList ∧
      ((st.works work).submitting = true ∨ (st.works work).timer = false →
        (next.works work).timer = false) := by
  rw [workqueueCancelDelayedWork, hqueue]
  dsimp only
  rw [if_neg (by simp [hpending])]
  by_cases hsubmitting : (st.works work).submitting = true
  · rw [if_pos hsubmitting]
    exact ⟨_, rfl, rfl, fun _ => by simp [State.modify, stopTimer]⟩
  · rw [if_neg hsubmitting]
    refine ⟨_, rfl, rfl, fun hstopped => ?_⟩
    simpa [State.modify] using hstopped.resolve_left hsubmitting

theorem Submits.of_not_endless (hdelayed : (st.works work).delayed = true)
    (hpending : (st.works work).workqueue ≠ none → (st.works work).pending = false)
    (queue : Queue) : Submits st queue work := by
  intro time
  cases hqueue : (st.works work).workqueue with
  | none =>
    refine ⟨0, attach st queue work time, .eok, ?_⟩
    rw [rtWorkqueueSubmitWork, if_pos hdelayed, workqueueSubmitDelayedWork, hqueue]
  | some attached =>
    obtain ⟨middle, hcancel, -⟩ := workqueueCancelDelayedWork_returns
      (rtWorkqueueCancelWork 0) hqueue (hpending (by simp [hqueue]))
    by_cases hother : attached ≠ queue
    · refine ⟨0, st, .einval, ?_⟩
      rw [rtWorkqueueSubmitWork, if_pos hdelayed, workqueueSubmitDelayedWork, hqueue]
      exact if_pos hother
    · refine ⟨0, attach middle queue work time, .eok, ?_⟩
      rw [rtWorkqueueSubmitWork, if_pos hdelayed, workqueueSubmitDelayedWork, hqueue]
      dsimp only
      rw [if_neg hother, hcancel]

omit [DecidableEq Queue] in
/-- Whether a delayed work can be cancelled, in any state in which the timers are flagged. -/
theorem cancels_iff (hflagged : TimersFlagged st)
    (hdelayed : (st.works work).delayed = true) (queue : Queue) :
    Cancels st queue work ↔ ((st.works work).workqueue ≠ none →
      (st.works work).pending = false ∧ ¬st.Linked work) := by
  cases hqueue : (st.works work).workqueue with
  | none =>
    refine iff_of_true ⟨1, st, .einval, ?_, by simp⟩ fun hattached => absurd rfl hattached
    rw [rtWorkqueueCancelWork, if_pos hdelayed, workqueueCancelDelayedWork, hqueue]
  | some attached =>
    cases hpending : (st.works work).pending with
    | true =>
      refine iff_of_false ?_ (by simp)
      rintro ⟨fuel, next, err, hcall, -⟩
      rw [rtWorkqueueCancelWork_endless hdelayed hqueue hpending] at hcall
      contradiction
    | false =>
      have hreturns : ∀ fuel, ∃ next,
          rtWorkqueueCancelWork (fuel + 1) st queue work = some (next, .eok) ∧
            next.workList = st.workList ∧
            ((st.works work).submitting = true ∨ (st.works work).timer = false →
              (next.works work).timer = false) := by
        intro fuel
        rw [rtWorkqueueCancelWork, if_pos hdelayed]
        exact workqueueCancelDelayedWork_returns _ hqueue hpending
      have hstops : (st.works work).submitting = true ∨
          (st.works work).timer = false := by
        cases htimer : (st.works work).timer with
        | true => exact .inl (hflagged work htimer)
        | false => exact .inr rfl
      constructor
      · rintro ⟨fuel, next, err, hcall, hdone⟩ -
        cases fuel with
        | zero => contradiction
        | succ fuel =>
          obtain ⟨next', hcall', hlist, -⟩ := hreturns fuel
          obtain ⟨rfl, rfl⟩ := Prod.mk.inj (Option.some.inj (hcall'.symm.trans hcall))
          refine ⟨rfl, fun hlinked => (hdone rfl).1 ?_⟩
          rwa [State.Linked, hlist]
      · intro hcondition
        obtain ⟨next, hcall, hlist, htimer⟩ := hreturns 0
        refine ⟨1, next, .eok, hcall, fun _ => ⟨?_, htimer hstops⟩⟩
        rw [State.Linked, hlist]
        exact (hcondition (by simp)).2

/-- A delayed work can be cancelled and submitted again in a state that is reached if and only
if it is attached to no queue, or neither pending nor linked. -/
theorem delayed_work_terminates {fuel : ℕ} {delayed : Work → Bool} {last : State Queue Work}
    {trace : List (Action Queue Work × Err)}
    (hrun : (machine fuel).Run (initial delayed) trace last) (work : Work)
    (hdelayed : (last.works work).delayed = true) (queue : Queue) :
    Cancels last queue work ∧ Submits last queue work ↔
      ((last.works work).workqueue ≠ none →
        (last.works work).pending = false ∧ ¬last.Linked work) := by
  have hflagged : TimersFlagged last := hrun.invariant TimersFlagged
    (fun _ _ _ _ hflagged _ hstep => timersFlagged_step hflagged hstep)
    fun work hrunning => by simp [initial] at hrunning
  rw [cancels_iff hflagged hdelayed queue]
  exact and_iff_left_of_imp fun hcondition =>
    .of_not_endless hdelayed (fun hattached => (hcondition hattached).1) queue

/-- The work is submitted with a delay, and its timer runs. -/
def scheduleSubmitting : List (Action Unit Unit) :=
  [.submitWork () () 5]

theorem isSome_scheduleSubmitting : ((machine 1).exec (fun _ _ => True)
    (initial fun _ : Unit => true) scheduleSubmitting).isSome = true := by
  decide

theorem delayed_work_terminates_scheduleSubmitting :
    ∃ trace last, (machine 1).Run (initial fun _ : Unit => true) trace last ∧
      (last.works ()).timer = true ∧ Cancels last () () ∧ Submits last () () := by
  have hrun := Machine.runWith_of_isSome scheduleSubmitting isSome_scheduleSubmitting
  have hterminates := (delayed_work_terminates hrun () (by decide) ()).2 fun _ =>
    ⟨by decide, by rintro ⟨⟨⟩, hmem⟩; exact absurd hmem (by decide)⟩
  exact ⟨_, _, hrun, by decide, hterminates⟩

/-- The work is submitted without a delay, and its worker has not run. -/
def schedulePending : List (Action Unit Unit) :=
  [.submitWork () () 0]

theorem isSome_schedulePending : ((machine 1).exec (fun _ _ => True)
    (initial fun _ : Unit => true) schedulePending).isSome = true := by
  decide

/-- The work can neither be cancelled nor submitted again. -/
theorem delayed_work_endless :
    ∃ trace last, (machine 1).Run (initial fun _ : Unit => true) trace last ∧
      (last.works ()).pending = true ∧
      (∀ fuel, rtWorkqueueCancelWork fuel last () () = none) ∧
      ∀ fuel, rtWorkqueueSubmitWork fuel last () () 0 = none := by
  have hrun := Machine.runWith_of_isSome schedulePending isSome_schedulePending
  refine ⟨_, _, hrun, by decide, fun fuel => ?_, fun fuel => ?_⟩
  · exact rtWorkqueueCancelWork_endless (by decide) (by rfl) (by decide) fuel ()
  · exact rtWorkqueueSubmitWork_endless (by decide) (by rfl) (by decide) fuel 0

end RtThread.DelayedWork
