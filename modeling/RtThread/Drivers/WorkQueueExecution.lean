import RtThread.Drivers.WorkQueue

set_option linter.all false

/-!
# The work queue runs what it accepts

A work that was accepted and is not cancelled stays linked until the worker takes it, and the
worker takes it once.  The worker misses it when the wake-up falls between its test of the list
and its suspension, and takes the head of an empty list for a work when it is woken for works
that are gone, or when they go before it has taken one.
-/

namespace RtThread.WorkQueue

open Function
open RtThread.Core
open RtThread.Kernel (Err)

variable {Tid Work : Type*} [DecidableEq Tid] [DecidableEq Work]

/-- The worker has not taken the head of an empty list for a work, and every work whose last
submission has returned and that was not cancelled since is linked and the worker is awake, or
is being executed, or was executed, once. -/
structure Served (st : State Tid Work) : Prop where
  not_wild : st.worker ≠ .wild
  served : ∀ work tid, st.ledger.submitter work = some tid → st.pc tid ≠ .resuming work →
    (work ∈ st.workList ∧ st.worker ≠ .suspended ∧ st.ledger.runs work = 0) ∨
      (work ∉ st.workList ∧ st.worker = .executing work ∧ st.ledger.runs work = 1) ∨
      (work ∉ st.workList ∧ st.worker ≠ .executing work ∧ st.ledger.runs work = 1)

/-- The steps that do not fall into the gaps of the worker: a wake-up does not come between its
test and its suspension while the work that it is for is linked, a suspended worker is not
woken for an empty list, and the list is not emptied between the test or the wake-up and the
section that takes a work. -/
def ExecSafe (st : State Tid Work) : Action Tid Work → Prop
  | .resume tid =>
    (st.worker = .suspending → ∀ work ∈ st.workList,
      st.pc tid = .resuming work → st.ledger.submitter work ≠ some tid) ∧
    (st.worker = .suspended → st.workList ≠ [])
  | .cancelWork _ work => st.worker = .dequeue → ∃ other ∈ st.workList, other ≠ work
  | .cancelWorkSync _ work => st.worker = .dequeue → ∃ other ∈ st.workList, other ≠ work
  | .cancelAllWork _ => st.worker ≠ .dequeue
  | _ => True

instance (st : State Tid Work) (act : Action Tid Work) :
    Decidable (ExecSafe st act) :=
  match act with
  | .resume tid => inferInstanceAs (Decidable ((st.worker = .suspending →
      ∀ work ∈ st.workList, st.pc tid = .resuming work →
        st.ledger.submitter work ≠ some tid) ∧ (st.worker = .suspended →
          st.workList ≠ [])))
  | .cancelWork _ work => inferInstanceAs (Decidable (st.worker = .dequeue →
      ∃ other ∈ st.workList, other ≠ work))
  | .cancelWorkSync _ work => inferInstanceAs (Decidable (st.worker = .dequeue →
      ∃ other ∈ st.workList, other ≠ work))
  | .cancelAllWork _ => inferInstanceAs (Decidable (st.worker ≠ .dequeue))
  | .submitWork _ _ => isTrue trivial
  | .criticalWork _ _ => isTrue trivial
  | .cancelled _ => isTrue trivial
  | .worker => isTrue trivial

def WorkerPc.isIdle : WorkerPc Work → Prop
  | .suspending => True
  | .suspended => True
  | _ => False

structure ExecInv (st : State Tid Work) : Prop where
  nodup : st.workList.Nodup
  not_wild : st.worker ≠ .wild
  current_iff : ∀ work, st.workCurrent = some work ↔ st.worker = .executing work
  current_out : ∀ work, st.workCurrent = some work → work ∉ st.workList
  /-- The worker finds a work. -/
  dequeue : st.worker = .dequeue → st.workList ≠ []
  /-- A worker that does not look any more will be woken for every work. -/
  idle : st.worker.isIdle → ∀ work ∈ st.workList, ∃ tid,
    st.ledger.submitter work = some tid ∧ st.pc tid = .resuming work
  linked : ∀ work ∈ st.workList,
    (st.ledger.submitter work).isSome = true ∧ st.ledger.runs work = 0
  unlinked : ∀ work ∉ st.workList,
    (st.ledger.submitter work).isSome = true → st.ledger.runs work = 1

namespace ExecInv

variable {st next : State Tid Work} {tid : Tid} {work : Work}

omit [DecidableEq Tid] [DecidableEq Work] in
theorem served (hinv : ExecInv st) : Served st := by
  refine ⟨hinv.not_wild, ?_⟩
  intro work tid hsubmitter hreturned
  have hsome : (st.ledger.submitter work).isSome = true := by rw [hsubmitter]; rfl
  by_cases hmem : work ∈ st.workList
  · refine .inl ⟨hmem, ?_, (hinv.linked work hmem).2⟩
    intro hsuspended
    obtain ⟨other, hother, hresuming⟩ := hinv.idle (hsuspended ▸ trivial) work hmem
    obtain rfl := Option.some.inj (hsubmitter.symm.trans hother)
    exact hreturned hresuming
  · by_cases hexec : st.worker = .executing work
    · exact .inr (.inl ⟨hmem, hexec, hinv.unlinked work hmem hsome⟩)
    · exact .inr (.inr ⟨hmem, hexec, hinv.unlinked work hmem hsome⟩)

omit [DecidableEq Work] in
theorem setPc (hinv : ExecInv st) (pc : Pc Work)
    (hidle : st.worker.isIdle → ∀ work ∈ st.workList,
      st.pc tid = .resuming work → st.ledger.submitter work = some tid → False) :
    ExecInv (st.setPc tid pc) where
  nodup := hinv.nodup
  not_wild := hinv.not_wild
  current_iff := hinv.current_iff
  current_out := hinv.current_out
  dequeue := hinv.dequeue
  idle hworker work hmem := by
    obtain ⟨other, hsubmitter, hresuming⟩ := hinv.idle hworker work hmem
    have hne : other ≠ tid := by
      rintro rfl
      exact hidle hworker work hmem hresuming hsubmitter
    exact ⟨other, hsubmitter, (update_of_ne hne ..).trans hresuming⟩
  linked := hinv.linked
  unlinked := hinv.unlinked

omit [DecidableEq Tid] [DecidableEq Work] in
theorem setPending (hinv : ExecInv st) (pending : Work → Bool) :
    ExecInv { st with pending := pending } :=
  ⟨hinv.nodup, hinv.not_wild, hinv.current_iff, hinv.current_out, hinv.dequeue, hinv.idle,
    hinv.linked, hinv.unlinked⟩

/-- A work is linked, and the thread goes on to wake the worker unless it does work. -/
theorem link (hinv : ExecInv st) (hout : st.pc tid = .out)
    (hcurrent : st.workCurrent ≠ some work) :
    ExecInv (afterLink (st.link tid work) tid work).1 := by
  have hmem : ∀ other, other ∈ (st.link tid work).workList ↔
      other = work ∨ other ∈ st.workList := fun _ => mem_link hinv.nodup
  have hself : (st.link tid work).ledger.submitter work = some tid :=
    update_self ..
  have hother : ∀ other, other ≠ work →
      (st.link tid work).ledger.submitter other = st.ledger.submitter other ∧
      (st.link tid work).ledger.runs other = st.ledger.runs other :=
    fun other hne => ⟨update_of_ne hne .., update_of_ne hne ..⟩
  have hruns : (st.link tid work).ledger.runs work = 0 := update_self ..
  -- all but the promise to wake the worker holds before the thread moves
  have hlinked : ∀ other ∈ (st.link tid work).workList,
      ((st.link tid work).ledger.submitter other).isSome = true ∧
        (st.link tid work).ledger.runs other = 0 := by
    intro other hlisted
    by_cases heq : other = work
    · rw [heq, hself, hruns]
      exact ⟨rfl, rfl⟩
    · rw [(hother other heq).1, (hother other heq).2]
      exact hinv.linked other (((hmem other).1 hlisted).resolve_left heq)
  have hunlinked : ∀ other ∉ (st.link tid work).workList,
      ((st.link tid work).ledger.submitter other).isSome = true →
        (st.link tid work).ledger.runs other = 1 := by
    intro other hnot
    rw [hmem, not_or] at hnot
    rw [(hother other hnot.1).1, (hother other hnot.1).2]
    exact hinv.unlinked other hnot.2
  have hcurrentOut : ∀ other, st.workCurrent = some other →
      other ∉ (st.link tid work).workList := by
    intro other heq hlisted
    rcases (hmem other).1 hlisted with rfl | hlisted
    · exact hcurrent heq
    · exact hinv.current_out other heq hlisted
  have hne : (st.link tid work).workList ≠ [] := by
    simp [State.link]
  rw [afterLink]
  split
  · refine ⟨nodup_link hinv.nodup tid work, hinv.not_wild, hinv.current_iff, hcurrentOut,
      fun _ => hne, ?_, hlinked, hunlinked⟩
    intro hworker other hlisted
    by_cases heq : other = work
    · exact ⟨tid, heq ▸ hself, heq ▸ update_self ..⟩
    · obtain ⟨waker, hsubmitter, hresuming⟩ :=
        hinv.idle hworker other (((hmem other).1 hlisted).resolve_left heq)
      have hwaker : waker ≠ tid := by
        rintro rfl
        rw [hout] at hresuming
        contradiction
      exact ⟨waker, (hother other heq).1.trans hsubmitter,
        (update_of_ne hwaker ..).trans hresuming⟩
  · next hbusy =>
    obtain ⟨running, hrunning⟩ := Option.ne_none_iff_exists'.1 hbusy
    have hexec := (hinv.current_iff running).1 hrunning
    refine ⟨nodup_link hinv.nodup tid work, hinv.not_wild, hinv.current_iff, hcurrentOut,
      fun _ => hne, ?_, hlinked, hunlinked⟩
    intro hworker
    change st.worker.isIdle at hworker
    rw [hexec] at hworker
    exact hworker.elim

omit [DecidableEq Tid] in
theorem unlink {works : List Work} (hinv : ExecInv st)
    (hleft : st.worker = .dequeue → ∃ other ∈ st.workList, other ∉ works) :
    ExecInv (st.unlink works) := by
  have hmem : ∀ other, other ∈ (st.unlink works).workList ↔
      other ∈ st.workList ∧ other ∉ works := by
    intro other
    simp [State.unlink]
  have hkept : ∀ other ∉ works,
      (st.unlink works).ledger.submitter other = st.ledger.submitter other :=
    fun other hnot => if_neg hnot
  refine ⟨hinv.nodup.filter _, hinv.not_wild, hinv.current_iff, ?_, ?_, ?_, ?_, ?_⟩
  · intro other hcurrent hlisted
    exact hinv.current_out other hcurrent ((hmem other).1 hlisted).1
  · intro hworker
    obtain ⟨other, hlisted, hnot⟩ := hleft hworker
    exact List.ne_nil_of_mem ((hmem other).2 ⟨hlisted, hnot⟩)
  · intro hworker other hlisted
    obtain ⟨hlisted, hnot⟩ := (hmem other).1 hlisted
    obtain ⟨waker, hsubmitter, hresuming⟩ := hinv.idle hworker other hlisted
    exact ⟨waker, (hkept other hnot).trans hsubmitter, hresuming⟩
  · intro other hlisted
    obtain ⟨hlisted, hnot⟩ := (hmem other).1 hlisted
    rw [hkept other hnot]
    exact hinv.linked other hlisted
  · intro other hnotListed hsome
    by_cases hnot : other ∈ works
    · have hnone : (st.unlink works).ledger.submitter other = none := if_pos hnot
      rw [hnone] at hsome
      contradiction
    · rw [hkept other hnot] at hsome
      exact hinv.unlinked other (fun hlisted => hnotListed ((hmem other).2 ⟨hlisted, hnot⟩)) hsome

omit [DecidableEq Tid] in
theorem takeFirst {rest : List Work} (hinv : ExecInv st)
    (hlist : st.workList = work :: rest) :
    ExecInv
      { st with
        workList := rest
        workCurrent := some work
        pending := update st.pending work false
        worker := .executing work
        ledger := st.ledger.start work } := by
  have hnodup := hinv.nodup
  rw [hlist, List.nodup_cons] at hnodup
  have hfirst := hinv.linked work (hlist ▸ List.mem_cons_self)
  have hruns : ∀ other, other ≠ work →
      (st.ledger.start work).runs other = st.ledger.runs other :=
    fun other hne => update_of_ne hne ..
  refine ⟨hnodup.2, nofun, ?_, ?_, nofun, False.elim, ?_, ?_⟩
  · intro other
    simp
  · intro other hcurrent
    cases hcurrent
    exact hnodup.1
  · intro other hmem
    have hne : other ≠ work := by
      rintro rfl
      exact hnodup.1 hmem
    rw [hruns other hne]
    exact hinv.linked other (hlist ▸ List.mem_cons_of_mem work hmem)
  · intro other hnot hsome
    by_cases heq : other = work
    · subst heq
      exact (update_self ..).trans (congrArg Nat.succ hfirst.2)
    · dsimp only
      rw [hruns other heq]
      refine hinv.unlinked other ?_ hsome
      rw [hlist, List.mem_cons, not_or]
      exact ⟨heq, hnot⟩

theorem resume (hinv : ExecInv st) (hsafe : ExecSafe st (.resume tid)) :
    ExecInv ((resumeWorker st).setPc tid .out) := by
  obtain ⟨hgap, hempty⟩ := hsafe
  rw [resumeWorker]
  split
  · next hsuspended =>
    have hnone : ∀ other, st.workCurrent ≠ some other := by
      intro other hcurrent
      have hexec := (hinv.current_iff other).1 hcurrent
      rw [hsuspended] at hexec
      contradiction
    refine ⟨hinv.nodup, by simp [State.setPc], ?_, hinv.current_out,
      fun _ => hempty hsuspended, False.elim, hinv.linked, hinv.unlinked⟩
    exact fun other => ⟨fun hcurrent => absurd hcurrent (hnone other), by simp [State.setPc]⟩
  · next hawake =>
    refine hinv.setPc .out ?_
    intro hworker work hmem hresuming hsubmitter
    have hsuspending : st.worker = .suspending := by
      cases hcase : st.worker <;> simp_all [WorkerPc.isIdle]
    exact hgap hsuspending work hmem hresuming hsubmitter

omit [DecidableEq Tid] in
theorem worker (hinv : ExecInv st) (hstep : workqueueThreadEntry st = some next) :
    ExecInv next := by
  -- while the worker does not do work there is no current work
  have hnone : (∀ work, st.worker ≠ .executing work) → st.workCurrent = none := by
    intro hworker
    by_contra hsome
    obtain ⟨work, hwork⟩ := Option.ne_none_iff_exists'.1 hsome
    exact hworker work ((hinv.current_iff work).1 hwork)
  rw [workqueueThreadEntry] at hstep
  split at hstep
  · next hworker =>
    have hcurrent := hnone (by simp [hworker])
    split at hstep
    · next hempty =>
      cases hstep
      refine ⟨hinv.nodup, by simp, by simp [hcurrent], hinv.current_out,
        by simp, ?_, hinv.linked, hinv.unlinked⟩
      intro _ work hmem
      rw [hempty] at hmem
      exact absurd hmem List.not_mem_nil
    · next hne =>
      cases hstep
      exact ⟨hinv.nodup, by simp, by simp [hcurrent], hinv.current_out,
        fun _ => hne, False.elim, hinv.linked, hinv.unlinked⟩
  · next hworker =>
    cases hstep
    exact ⟨hinv.nodup, by simp, by simp [hnone (by simp [hworker])],
      hinv.current_out, by simp, fun _ => hinv.idle (hworker ▸ trivial),
      hinv.linked, hinv.unlinked⟩
  · contradiction
  · next hworker =>
    split at hstep
    · next hempty => exact absurd hempty (hinv.dequeue hworker)
    · next work rest hlist =>
      cases hstep
      exact hinv.takeFirst hlist
  · next work hworker =>
    cases hstep
    exact ⟨hinv.nodup, by simp, by simp, by simp, by simp, False.elim,
      hinv.linked, hinv.unlinked⟩
  · next hworker =>
    cases hstep
    exact ⟨hinv.nodup, by simp, by simp [hnone (by simp [hworker])],
      hinv.current_out, by simp, False.elim, hinv.linked, hinv.unlinked⟩
  · contradiction

end ExecInv

variable {st next : State Tid Work}

theorem step_execInv {act : Action Tid Work} {event : Event} (hinv : ExecInv st)
    (hsafe : ExecSafe st act) (hstep : step st act = some (next, event)) :
    ExecInv next := by
  cases act with
  | submitWork tid work =>
    obtain ⟨hout, hresult⟩ := call_eq_some hstep
    obtain rfl : (workqueueSubmitWork st tid work).1 = next := by rw [hresult]
    rw [workqueueSubmitWork]
    split
    · exact hinv
    · split
      · exact hinv
      · next hcurrent =>
        have hpending := hinv.setPending (update st.pending work true)
        exact hpending.link hout hcurrent
  | criticalWork tid work =>
    obtain ⟨hout, hresult⟩ := call_eq_some hstep
    obtain rfl : (rtWorkqueueCriticalWork st tid work).1 = next := by rw [hresult]
    rw [rtWorkqueueCriticalWork]
    split
    · exact hinv
    · next hcurrent => exact hinv.link hout hcurrent
  | resume tid =>
    simp only [step] at hstep
    split at hstep
    · cases hstep
      exact hinv.resume hsafe
    · contradiction
  | cancelWork tid work =>
    obtain ⟨-, hresult⟩ := call_eq_some hstep
    obtain rfl : (workqueueCancelWork st work).1 = next := by rw [hresult]
    rw [workqueueCancelWork]
    split
    · exact hinv
    · exact (hinv.unlink fun hworker => by simpa using hsafe hworker).setPending _
  | cancelWorkSync tid work =>
    obtain ⟨hout, hresult⟩ := call_eq_some hstep
    obtain rfl : (rtWorkqueueCancelWorkSync st tid work).1 = next := by rw [hresult]
    rw [rtWorkqueueCancelWorkSync]
    split
    · refine hinv.setPc _ fun _ other _ hresuming => ?_
      rw [hout] at hresuming
      contradiction
    · exact (hinv.unlink fun hworker => by simpa using hsafe hworker).setPending _
  | cancelled tid =>
    simp only [step] at hstep
    split at hstep
    · next work hpc =>
      cases hstep
      refine (hinv.setPending (update st.pending work false)).setPc _ ?_
      intro _ other _ hresuming
      rw [show st.pc tid = _ from hpc] at hresuming
      contradiction
    · contradiction
  | cancelAllWork tid =>
    obtain ⟨-, hresult⟩ := call_eq_some hstep
    obtain rfl : (rtWorkqueueCancelAllWork st).1 = next := by rw [hresult]
    exact hinv.unlink fun hworker => absurd hworker hsafe
  | worker =>
    obtain ⟨after, hafter, hnext⟩ := Option.map_eq_some_iff.1 hstep
    obtain rfl : after = next := (Prod.mk.inj hnext).1
    exact hinv.worker hafter

/-- Two threads submit while the worker is suspended; the second work is cancelled. -/
def scheduleServed : List (Action ℕ ℕ) :=
  [.worker, .worker, .submitWork 0 0, .submitWork 1 1, .resume 1, .cancelWork 1 1, .worker,
    .resume 0, .worker]

theorem isSome_scheduleServed : (machine.exec ExecSafe
    (initial : State ℕ ℕ) scheduleServed).isSome = true := by
  decide

/-- The worker sees an empty list, a work is submitted, and the worker suspends itself. -/
def scheduleMissed : List (Action ℕ ℕ) :=
  [.worker, .submitWork 0 0, .resume 0, .worker]

theorem isSome_scheduleMissed : (machine.exec (fun _ _ => True)
    (initial : State ℕ ℕ) scheduleMissed).isSome = true := by
  decide

/-- The work is submitted while the worker is suspended, and cancelled before it has run. -/
def scheduleUnderrun : List (Action ℕ ℕ) :=
  [.worker, .worker, .submitWork 0 0, .resume 0, .cancelWork 1 0, .worker]

theorem isSome_scheduleUnderrun : (machine.exec (fun _ _ => True)
    (initial : State ℕ ℕ) scheduleUnderrun).isSome = true := by
  decide

end RtThread.WorkQueue
