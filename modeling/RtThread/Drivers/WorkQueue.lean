import RtThread.Core.Machine
import RtThread.Kernel.Thread

set_option linter.all false

/-!
# The work queue

`workqueue.c`: threads link works into the list of a queue, and the worker thread of the queue
takes them off the list and runs them.  A work carries a flag that says that it is linked.

The worker tests the list and suspends itself in two steps, and goes on to take a work without
looking at the list again when it is resumed.  A thread that submits a work links it with
interrupts disabled and resumes the worker afterwards.  Other threads may run at each of these
places; here each of them is the end of a step.  Works are not delayed ones.
-/

namespace RtThread.WorkQueue

open Function
open RtThread.Core
open RtThread.Kernel (Err)

/-- Where `_workqueue_thread_entry` is. -/
inductive WorkerPc (Work : Type*)
  /-- At `rt_list_isempty`. -/
  | test
  /-- At `rt_thread_suspend`, after an empty list was seen. -/
  | suspending
  | suspended
  /-- In front of the section that takes a work off the list. -/
  | dequeue
  | executing (work : Work)
  /-- At `_workqueue_work_completion`. -/
  | completion
  /-- The list was empty and its head was taken for a work. -/
  | wild
  deriving DecidableEq

/-- Where a thread that uses the queue is. -/
inductive Pc (Work : Type*)
  | out
  /-- Has linked the work and is about to resume the worker. -/
  | resuming (work : Work)
  /-- Waits in `rt_workqueue_cancel_work_sync` for the completion of the work. -/
  | waiting (work : Work)
  /-- The same, after the completion. -/
  | completed (work : Work)
  deriving DecidableEq

/-- The works that were accepted and not cancelled since: the thread that submitted the work
last, and how often the work was started after that. -/
structure Ledger (Tid Work : Type*) where
  submitter : Work → Option Tid
  runs : Work → ℕ

/-- `struct rt_workqueue` with its worker, the threads, and `RT_WORK_STATE_PENDING` of each
work. -/
structure State (Tid Work : Type*) where
  workList : List Work
  workCurrent : Option Work
  pending : Work → Bool
  worker : WorkerPc Work
  pc : Tid → Pc Work
  ledger : Ledger Tid Work

variable {Tid Work : Type*} [DecidableEq Tid] [DecidableEq Work]

namespace Ledger

variable (ledger : Ledger Tid Work)

def submit (tid : Tid) (work : Work) : Ledger Tid Work where
  submitter := update ledger.submitter work (some tid)
  runs := update ledger.runs work 0

def start (work : Work) : Ledger Tid Work :=
  { ledger with runs := update ledger.runs work (ledger.runs work + 1) }

def cancel (works : List Work) : Ledger Tid Work :=
  { ledger with submitter := fun work => if work ∈ works then none else ledger.submitter work }

end Ledger

inductive Action (Tid Work : Type*)
  /-- `rt_workqueue_submit_work` or `rt_workqueue_dowork`, up to the end of the section. -/
  | submitWork (tid : Tid) (work : Work)
  /-- `rt_workqueue_critical_work`, up to the end of the section. -/
  | criticalWork (tid : Tid) (work : Work)
  /-- The rest of the two. -/
  | resume (tid : Tid)
  | cancelWork (tid : Tid) (work : Work)
  /-- `rt_workqueue_cancel_work_sync`, up to its wait. -/
  | cancelWorkSync (tid : Tid) (work : Work)
  /-- The rest of it. -/
  | cancelled (tid : Tid)
  | cancelAllWork (tid : Tid)
  | worker
  deriving DecidableEq

inductive Event
  | returned (err : Err)
  | moved

def State.setPc (st : State Tid Work) (tid : Tid) (pc : Pc Work) : State Tid Work :=
  { st with pc := update st.pc tid pc }

/-- Link a work at the end of the list, after it was removed from where it was linked. -/
def State.link (st : State Tid Work) (tid : Tid) (work : Work) : State Tid Work :=
  { st with
    workList := st.workList.erase work ++ [work]
    ledger := st.ledger.submit tid work }

/-- The end of a submission: the worker is resumed unless it does work. -/
def afterLink (st : State Tid Work) (tid : Tid) (work : Work) : State Tid Work × Event :=
  if st.workCurrent = none then (st.setPc tid (.resuming work), .moved)
  else (st, .returned .eok)

def workqueueSubmitWork (st : State Tid Work) (tid : Tid) (work : Work) :
    State Tid Work × Event :=
  if st.pending work = true then (st, .returned .ebusy)
  else if st.workCurrent = some work then (st, .returned .ebusy)
  else
    let linked := st.link tid work
    afterLink { linked with pending := update linked.pending work true } tid work

def rtWorkqueueCriticalWork (st : State Tid Work) (tid : Tid) (work : Work) :
    State Tid Work × Event :=
  if st.workCurrent = some work then (st, .returned .ebusy)
  else afterLink (st.link tid work) tid work

/-- `rt_thread_resume` of the worker: it fails unless the worker is suspended. -/
def resumeWorker (st : State Tid Work) : State Tid Work :=
  if st.worker = .suspended then { st with worker := .dequeue } else st

/-- Unlink works that are cancelled. -/
def State.unlink (st : State Tid Work) (works : List Work) : State Tid Work :=
  { st with
    workList := st.workList.filter fun work => work ∉ works
    ledger := st.ledger.cancel works }

def State.clearPending (st : State Tid Work) (work : Work) : State Tid Work :=
  { st with pending := update st.pending work false }

def workqueueCancelWork (st : State Tid Work) (work : Work) : State Tid Work × Event :=
  if st.workCurrent = some work then (st, .returned .ebusy)
  else ((st.unlink [work]).clearPending work, .returned .eok)

def rtWorkqueueCancelWorkSync (st : State Tid Work) (tid : Tid) (work : Work) :
    State Tid Work × Event :=
  if st.workCurrent = some work then (st.setPc tid (.waiting work), .moved)
  else ((st.unlink [work]).clearPending work, .returned .eok)

/-- Runs with the scheduler locked. -/
def rtWorkqueueCancelAllWork (st : State Tid Work) : State Tid Work × Event :=
  (st.unlink st.workList, .returned .eok)

/-- `_workqueue_work_completion` releases the semaphore until nobody waits for it. -/
def wakeWaiting (pc : Tid → Pc Work) : Tid → Pc Work :=
  fun tid =>
    match pc tid with
    | .waiting work => .completed work
    | other => other

/-- One step of `_workqueue_thread_entry`. -/
def workqueueThreadEntry (st : State Tid Work) : Option (State Tid Work) :=
  match st.worker with
  | .test =>
    if st.workList = [] then some { st with worker := .suspending }
    else some { st with worker := .dequeue }
  | .suspending => some { st with worker := .suspended }
  | .suspended => none
  | .dequeue =>
    match st.workList with
    | [] => some { st with worker := .wild }
    | work :: rest =>
      some
        { st with
          workList := rest
          workCurrent := some work
          pending := update st.pending work false
          worker := .executing work
          ledger := st.ledger.start work }
  | .executing _ => some { st with workCurrent := none, worker := .completion }
  | .completion => some { st with worker := .test, pc := wakeWaiting st.pc }
  | .wild => none

/-- A call by a thread that is outside. -/
def call (st : State Tid Work) (tid : Tid) (result : State Tid Work × Event) :
    Option (State Tid Work × Event) :=
  if st.pc tid = .out then some result else none

def step (st : State Tid Work) : Action Tid Work → Option (State Tid Work × Event)
  | .submitWork tid work => call st tid (workqueueSubmitWork st tid work)
  | .criticalWork tid work => call st tid (rtWorkqueueCriticalWork st tid work)
  | .resume tid =>
    match st.pc tid with
    | .resuming _ => some ((resumeWorker st).setPc tid .out, .returned .eok)
    | _ => none
  | .cancelWork tid work => call st tid (workqueueCancelWork st work)
  | .cancelWorkSync tid work => call st tid (rtWorkqueueCancelWorkSync st tid work)
  | .cancelled tid =>
    match st.pc tid with
    | .completed work => some ((st.clearPending work).setPc tid .out, .returned .eok)
    | _ => none
  | .cancelAllWork tid => call st tid (rtWorkqueueCancelAllWork st)
  | .worker => (workqueueThreadEntry st).map fun next => (next, .moved)

def machine : Machine (State Tid Work) (Action Tid Work) Event where
  step := step

/-- `rt_workqueue_create`, with works that were initialised. -/
def initial : State Tid Work where
  workList := []
  workCurrent := none
  pending _ := false
  worker := .test
  pc _ := .out
  ledger := { submitter := fun _ => none, runs := fun _ => 0 }

/-! ## The pending flag -/

/-- A work is pending exactly when it is linked. -/
def FlagsAgree (st : State Tid Work) : Prop :=
  ∀ work, st.pending work = true ↔ work ∈ st.workList

/-- The steps that keep the flags: a critical work is pending already or is refused, there is
nothing to cancel when all works are cancelled, a thread that waited for a work does not come
back after the work was submitted again, and the worker finds a work. -/
def FlagSafe (st : State Tid Work) : Action Tid Work → Prop
  | .criticalWork _ work => st.pending work = true ∨ st.workCurrent = some work
  | .cancelAllWork _ => st.workList = []
  | .cancelled tid => ∀ work ∈ st.workList, st.pc tid ≠ .completed work
  | .worker => st.worker = .dequeue → st.workList ≠ []
  | _ => True

instance (st : State Tid Work) (act : Action Tid Work) :
    Decidable (FlagSafe st act) :=
  match act with
  | .criticalWork _ _ => inferInstanceAs (Decidable (_ ∨ _))
  | .cancelAllWork _ => inferInstanceAs (Decidable (_ = _))
  | .cancelled tid =>
    inferInstanceAs (Decidable (∀ work ∈ st.workList, st.pc tid ≠ .completed work))
  | .worker => inferInstanceAs (Decidable (_ → _))
  | .submitWork _ _ => isTrue trivial
  | .resume _ => isTrue trivial
  | .cancelWork _ _ => isTrue trivial
  | .cancelWorkSync _ _ => isTrue trivial

variable {st next : State Tid Work} {tid : Tid} {work : Work}

/-- The flags agree with a list that holds every work at most once. -/
structure FlagInv (st : State Tid Work) : Prop where
  nodup : st.workList.Nodup
  agree : FlagsAgree st

omit [DecidableEq Tid] [DecidableEq Work] in
theorem FlagInv.congr (hinv : FlagInv st) (hlist : next.workList = st.workList)
    (hpending : next.pending = st.pending) : FlagInv next := by
  refine ⟨hlist ▸ hinv.nodup, ?_⟩
  rw [FlagsAgree, hlist, hpending]
  exact hinv.agree

omit [DecidableEq Tid] in
theorem nodup_link (hnodup : st.workList.Nodup) (tid : Tid) (work : Work) :
    (st.link tid work).workList.Nodup := by
  simp only [State.link]
  rw [List.nodup_append]
  refine ⟨hnodup.erase work, List.nodup_singleton work, ?_⟩
  rintro left hleft right hright rfl
  rw [List.mem_singleton.1 hright] at hleft
  exact (hnodup.mem_erase_iff.1 hleft).1 rfl

omit [DecidableEq Tid] in
theorem mem_link (hnodup : st.workList.Nodup) {other : Work} :
    other ∈ (st.link tid work).workList ↔ other = work ∨ other ∈ st.workList := by
  simp only [State.link, List.mem_append, List.mem_singleton, hnodup.mem_erase_iff]
  tauto

omit [DecidableEq Work] in
theorem afterLink_workList : (afterLink st tid work).1.workList = st.workList := by
  rw [afterLink]
  split <;> rfl

omit [DecidableEq Work] in
theorem afterLink_pending : (afterLink st tid work).1.pending = st.pending := by
  rw [afterLink]
  split <;> rfl

omit [DecidableEq Tid] in
theorem FlagInv.link (tid : Tid) (hinv : FlagInv st)
    (hlist : next.workList = (st.link tid work).workList)
    (hpending : next.pending = update st.pending work true) : FlagInv next := by
  refine ⟨hlist ▸ nodup_link hinv.nodup tid work, ?_⟩
  intro other
  rw [hlist, mem_link hinv.nodup, hpending]
  by_cases heq : other = work
  · simp [heq]
  · simp [heq, hinv.agree other]

omit [DecidableEq Tid] in
theorem FlagInv.cancel (hinv : FlagInv st) (work : Work) :
    FlagInv ((st.unlink [work]).clearPending work) := by
  refine ⟨hinv.nodup.filter _, ?_⟩
  intro other
  simp only [State.clearPending, State.unlink, List.mem_filter, List.mem_singleton]
  by_cases heq : other = work
  · simp [heq]
  · simp [heq, hinv.agree other]

omit [DecidableEq Tid] in
theorem FlagInv.worker (hinv : FlagInv st)
    (hsafe : st.worker = .dequeue → st.workList ≠ [])
    (hstep : workqueueThreadEntry st = some next) : FlagInv next := by
  rw [workqueueThreadEntry] at hstep
  split at hstep
  · split at hstep <;> rw [← Option.some.inj hstep] <;> exact hinv.congr rfl rfl
  · rw [← Option.some.inj hstep]
    exact hinv.congr rfl rfl
  · contradiction
  · next hworker =>
    split at hstep
    · next hempty => exact absurd hempty (hsafe hworker)
    · next work rest hlist =>
      rw [← Option.some.inj hstep]
      have hnodup := hinv.nodup
      rw [hlist, List.nodup_cons] at hnodup
      refine ⟨hnodup.2, ?_⟩
      intro other
      have hagree := hinv.agree other
      rw [hlist, List.mem_cons] at hagree
      by_cases heq : other = work
      · simp [heq, hnodup.1]
      · simpa [heq] using hagree
  · rw [← Option.some.inj hstep]
    exact hinv.congr rfl rfl
  · rw [← Option.some.inj hstep]
    exact hinv.congr rfl rfl
  · contradiction

omit [DecidableEq Tid] in
theorem call_eq_some {result : State Tid Work × Event} {event : Event}
    (hcall : call st tid result = some (next, event)) :
    st.pc tid = .out ∧ result = (next, event) := by
  rw [call] at hcall
  split at hcall
  · next hout => exact ⟨hout, Option.some.inj hcall⟩
  · contradiction

theorem step_flagInv {act : Action Tid Work} {event : Event} (hinv : FlagInv st)
    (hsafe : FlagSafe st act) (hstep : step st act = some (next, event)) :
    FlagInv next := by
  cases act with
  | submitWork tid work =>
    obtain ⟨-, hresult⟩ := call_eq_some hstep
    obtain rfl : (workqueueSubmitWork st tid work).1 = next := by rw [hresult]
    rw [workqueueSubmitWork]
    split
    · exact hinv
    · split
      · exact hinv
      · exact hinv.link tid afterLink_workList afterLink_pending
  | criticalWork tid work =>
    obtain ⟨-, hresult⟩ := call_eq_some hstep
    obtain rfl : (rtWorkqueueCriticalWork st tid work).1 = next := by rw [hresult]
    rw [rtWorkqueueCriticalWork]
    split
    · exact hinv
    · next hcurrent =>
      have hpending := hsafe.resolve_right hcurrent
      refine hinv.link tid afterLink_workList (afterLink_pending.trans ?_)
      exact (update_eq_self_iff.2 hpending.symm).symm
  | resume tid =>
    simp only [step] at hstep
    split at hstep
    · cases hstep
      rw [resumeWorker]
      split <;> exact hinv.congr rfl rfl
    · contradiction
  | cancelWork tid work =>
    obtain ⟨-, hresult⟩ := call_eq_some hstep
    obtain rfl : (workqueueCancelWork st work).1 = next := by rw [hresult]
    rw [workqueueCancelWork]
    split
    · exact hinv
    · exact hinv.cancel work
  | cancelWorkSync tid work =>
    obtain ⟨-, hresult⟩ := call_eq_some hstep
    obtain rfl : (rtWorkqueueCancelWorkSync st tid work).1 = next := by rw [hresult]
    rw [rtWorkqueueCancelWorkSync]
    split
    · exact hinv.congr rfl rfl
    · exact hinv.cancel work
  | cancelled tid =>
    simp only [step] at hstep
    split at hstep
    · next work hpc =>
      cases hstep
      have hnot : work ∉ st.workList := fun hmem => hsafe work hmem hpc
      have hclear : st.pending work = false := by
        rw [← Bool.not_eq_true, hinv.agree work]
        exact hnot
      exact hinv.congr rfl (update_eq_self_iff.2 hclear.symm)
    · contradiction
  | cancelAllWork tid =>
    obtain ⟨-, hresult⟩ := call_eq_some hstep
    obtain rfl : (rtWorkqueueCancelAllWork st).1 = next := by rw [hresult]
    refine hinv.congr ?_ rfl
    simp only [rtWorkqueueCancelAllWork, State.unlink, FlagSafe] at hsafe ⊢
    rw [hsafe]
    rfl
  | worker =>
    obtain ⟨after, hafter, hnext⟩ := Option.map_eq_some_iff.1 hstep
    obtain rfl : after = next := (Prod.mk.inj hnext).1
    exact hinv.worker hsafe hafter

/-- In every run whose steps keep the flags in step, a work is pending exactly when it is
linked. -/
theorem pending_iff_linked {trace : List (Action Tid Work × Event)} {last : State Tid Work}
    (hrun : machine.RunWith FlagSafe initial trace last) : FlagsAgree last := by
  have hfirst : FlagInv (initial : State Tid Work) :=
    ⟨List.nodup_nil, fun work => by simp [initial]⟩
  exact (hrun.invariant FlagInv (fun _ _ _ _ => step_flagInv) hfirst).agree

/-- A work is submitted, moved to the end as a critical one, executed, submitted again and
cancelled. -/
def scheduleFlags : List (Action ℕ ℕ) :=
  [.submitWork 0 0, .resume 0, .submitWork 1 1, .resume 1, .criticalWork 0 0, .resume 0, .worker,
    .worker, .cancelWorkSync 0 1, .worker, .worker, .cancelled 0, .submitWork 0 1, .resume 0,
    .cancelWork 1 1]

theorem isSome_scheduleFlags : (machine.exec FlagSafe
    (initial : State ℕ ℕ) scheduleFlags).isSome = true := by
  decide

theorem pending_iff_linked_scheduleFlags : ∃ trace, ∃ last : State ℕ ℕ,
    machine.RunWith FlagSafe initial trace last ∧ last.workList = [0] ∧ FlagsAgree last := by
  have hrun := Machine.runWith_of_isSome scheduleFlags isSome_scheduleFlags
  exact ⟨_, _, hrun, by decide, pending_iff_linked hrun⟩

/-- A work is submitted and all works are cancelled. -/
def scheduleCancelAll : List (Action ℕ ℕ) :=
  [.submitWork 0 0, .cancelAllWork 1]

theorem isSome_scheduleCancelAll : (machine.exec (fun _ _ => True)
    (initial : State ℕ ℕ) scheduleCancelAll).isSome = true := by
  decide

theorem pending_after_cancel_all : ∃ trace, ∃ last : State ℕ ℕ,
    machine.Run initial trace last ∧ trace.map Prod.fst = scheduleCancelAll ∧
      last.workList = [] ∧ ¬ FlagsAgree last ∧
      workqueueSubmitWork last 1 0 = (last, .returned .ebusy) := by
  refine ⟨_, _, Machine.runWith_of_isSome scheduleCancelAll isSome_scheduleCancelAll,
    Machine.actions_of_isSome scheduleCancelAll isSome_scheduleCancelAll, by decide, ?_, ?_⟩
  · intro hagree
    exact absurd ((hagree 0).1 (by decide)) (by decide)
  · exact if_pos (by decide)

end RtThread.WorkQueue
