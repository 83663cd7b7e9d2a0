import RtThread.Core.Recorder
import RtThread.Kernel.Thread

set_option linter.all false

/-!
# Completions

`completion.c`: one thread waits for a flag that any number of other threads and
interrupts set.  `rt_completion_done` looks at the flag before it disables interrupts,
and `rt_completion_wait` clears it at the end of a wait that has slept, however that
wait has ended.  An event that comes between the expiry of the thread timer and the
end of the wait is cleared and not reported.
-/

namespace RtThread.Completion

open RtThread.Core
open RtThread.Kernel (Err)

/-- Where the waiting thread is: outside, suspended, resumed with `thread->error`, and
behind the reading of it. -/
inductive WaitPc
  | out
  | asleep (timeout : ℤ)
  | woken (err : Err)
  | clearing (result : Err)

/-- Where a caller of `rt_completion_done` is: outside, or behind the test of the flag. -/
inductive DonePc
  | out
  | setting

/-- `flag` is set when it is `RT_COMPLETED`; the thread is in `suspended_list` while it is
asleep. -/
structure State (Tid : Type*) where
  flag : Bool
  waiter : WaitPc
  callers : Tid → DonePc

inductive Action (Tid : Type*)
  | wait (timeout : ℤ)
  /-- The thread timer of the waiting thread expires. -/
  | expire
  /-- The waiting thread comes back from `rt_schedule`. -/
  | resume
  | clear
  | done (tid : Tid)
  | set (tid : Tid)

inductive Event
  | returned (result : Err)
  | slept
  | done
  | moved
  deriving DecidableEq

/-- `rt_thread_resume` of the thread in `suspended_list`. -/
def WaitPc.resumed : WaitPc → WaitPc
  | .asleep _ => .woken .eok
  | pc => pc

section Machine

variable {Tid : Type*} [DecidableEq Tid]

def rtCompletionWait (st : State Tid) (timeout : ℤ) : State Tid × Event :=
  if st.flag = true then ({ st with flag := false }, .returned .eok)
  else if timeout = 0 then (st, .returned .etimeout)
  else ({ st with waiter := .asleep timeout }, .slept)

def step (st : State Tid) : Action Tid → Option (State Tid × Event)
  | .wait timeout =>
    match st.waiter with
    | .out => some (rtCompletionWait st timeout)
    | _ => none
  | .expire =>
    match st.waiter with
    | .asleep timeout =>
      if 0 < timeout then some ({ st with waiter := .woken .etimeout }, .moved) else none
    | _ => none
  | .resume =>
    match st.waiter with
    | .woken err => some ({ st with waiter := .clearing err }, .moved)
    | _ => none
  | .clear =>
    match st.waiter with
    | .clearing result => some ({ st with flag := false, waiter := .out }, .returned result)
    | _ => none
  | .done tid =>
    match st.callers tid with
    | .out =>
      if st.flag = true then some (st, .done)
      else some ({ st with callers := Function.update st.callers tid .setting }, .moved)
    | .setting => none
  | .set tid =>
    match st.callers tid with
    | .setting =>
      some (⟨true, st.waiter.resumed, Function.update st.callers tid .out⟩, .done)
    | .out => none

def machine : Machine (State Tid) (Action Tid) Event where
  step := step

/-- `rt_completion_init`. -/
def rtCompletionInit : State Tid :=
  ⟨false, .out, fun _ => .out⟩

/-- Whether there was an event since the last wait that returned `RT_EOK`. -/
def unreported (pending : Bool) (_ : State Tid) (_ : Action Tid) (_ : State Tid) : Event → Bool
  | .done => true
  | .returned .eok => false
  | _ => pending

/-- An event that has not been reported is in the flag, and the thread does not sleep: a wait
that has not timed out returns `RT_EOK`. -/
def NoEventLost (st : State Tid × Bool) : Prop :=
  st.2 = true → st.1.flag = true ∧ ∀ timeout, st.1.waiter ≠ .asleep timeout

/-- A wait that has timed out does not clear a flag that has been set. -/
def ClearsNothing (st : State Tid × Bool) : Action Tid → Prop
  | .clear => ∀ result, st.1.waiter = .clearing result → result ≠ .eok → st.1.flag = false
  | _ => True

def recordedMachine : Machine (State Tid × Bool) (Action Tid) Event :=
  machine.recorded unreported

/-- The flag tells of the events, and the thread is not asleep while it is set. -/
structure Inv (st : State Tid) (pending : Bool) : Prop where
  flag : st.flag = pending
  awake : st.flag = true → ∀ timeout, st.waiter ≠ .asleep timeout
  reported : st.waiter = .woken .eok ∨ st.waiter = .clearing .eok → st.flag = true
  error : ∀ err, st.waiter = .woken err ∨ st.waiter = .clearing err →
    err = .eok ∨ err = .etimeout

variable {st next : State Tid} {pending : Bool} {event : Event}

omit [DecidableEq Tid] in
theorem Inv.kept (hinv : Inv st pending) : NoEventLost (st, pending) := by
  intro hpending
  have hflag : st.flag = true := hinv.flag.trans hpending
  exact ⟨hflag, hinv.awake hflag⟩

theorem Inv.step {act : Action Tid} (hinv : Inv st pending)
    (hgood : ClearsNothing (st, pending) act)
    (hstep : step st act = some (next, event)) :
    Inv next (unreported pending st act next event) := by
  cases act with
  | wait timeout =>
    simp only [Completion.step, rtCompletionWait] at hstep
    split at hstep
    · rename_i hout
      split at hstep
      · cases hstep
        exact ⟨rfl, nofun, by simp [hout], by simp [hout]⟩
      · rename_i hflag
        have hpending : st.flag = pending := hinv.flag
        split at hstep <;> cases hstep
        · exact hinv
        · exact ⟨hpending, fun h => absurd h hflag, by simp, by simp⟩
    · cases hstep
  | expire =>
    simp only [Completion.step] at hstep
    split at hstep
    · rename_i timeout hasleep
      split at hstep
      · cases hstep
        exact ⟨hinv.flag, by simp, by simp, by simp⟩
      · cases hstep
    · cases hstep
  | resume =>
    simp only [Completion.step] at hstep
    split at hstep
    · rename_i err hwoken
      cases hstep
      refine ⟨hinv.flag, by simp, fun hclearing => hinv.reported (Or.inl ?_),
        fun found hfound => ?_⟩
      · rcases hclearing with h | h <;> cases h
        exact hwoken
      · rcases hfound with h | h <;> cases h
        exact hinv.error err (Or.inl hwoken)
    · cases hstep
  | clear =>
    simp only [Completion.step] at hstep
    split at hstep
    · rename_i result hclearing
      cases hstep
      have hpending : false = unreported pending st .clear
          { st with flag := false, waiter := .out } (.returned result) := by
        rcases hinv.error result (Or.inr hclearing) with rfl | rfl
        · rfl
        · have hflag := hgood _ hclearing (by simp)
          exact hflag.symm.trans hinv.flag
      exact ⟨hpending, nofun, by simp, by simp⟩
    · cases hstep
  | done tid =>
    simp only [Completion.step] at hstep
    split at hstep
    · split at hstep
      · rename_i hflag
        cases hstep
        exact ⟨hflag, hinv.awake, hinv.reported, hinv.error⟩
      · cases hstep
        exact ⟨hinv.flag, hinv.awake, hinv.reported, hinv.error⟩
    · cases hstep
  | set tid =>
    simp only [Completion.step] at hstep
    split at hstep
    · cases hstep
      refine ⟨rfl, fun _ timeout => ?_, fun _ => rfl, fun err herr => ?_⟩
      · cases hwaiter : st.waiter <;> simp [WaitPc.resumed]
      · cases hwaiter : st.waiter with
        | asleep timeout =>
          simp only [hwaiter, WaitPc.resumed, WaitPc.woken.injEq, reduceCtorEq, or_false] at herr
          exact Or.inl herr.symm
        | _ =>
          refine hinv.error err ?_
          rw [hwaiter] at herr ⊢
          exact herr
    · cases hstep

/-- A wait that times out clears the flag, and the event is lost. -/
theorem lost_of_clear {act : Action Tid} (hinv : Inv st pending)
    (hbad : ¬ClearsNothing (st, pending) act)
    (hstep : step st act = some (next, event)) :
    ¬NoEventLost (next, unreported pending st act next event) := by
  cases act with
  | clear =>
    simp only [ClearsNothing, not_forall, Bool.not_eq_false] at hbad
    obtain ⟨result, hclearing, hresult, hflag⟩ := hbad
    simp only [Completion.step, hclearing] at hstep
    cases hstep
    obtain rfl := (hinv.error result (Or.inr hclearing)).resolve_left hresult
    intro hkept
    have hpending : pending = true := hinv.flag.symm.trans hflag
    exact absurd (hkept hpending).1 Bool.false_ne_true
  | _ => exact absurd trivial hbad

/-- No event is lost in any state of a run exactly when no wait that has timed out clears a
flag that has been set. -/
theorem no_event_lost_iff {trace : List (Action Tid × Event)} {last : State Tid}
    (hrun : machine.Run rtCompletionInit trace last) :
    (∃ pending, recordedMachine.Run (rtCompletionInit, false) trace (last, pending)) ∧
    ∀ pending, recordedMachine.Run (rtCompletionInit, false) trace (last, pending) →
      ((recordedMachine.RunWith (fun st _ => NoEventLost st) (rtCompletionInit, false) trace
          (last, pending) ∧ NoEventLost (last, pending)) ↔
        recordedMachine.RunWith ClearsNothing (rtCompletionInit, false) trace (last, pending)) := by
  refine ⟨hrun.recorded unreported false, fun pending hrecorded => ?_⟩
  refine hrecorded.always_iff (fun st => Inv st.1 st.2) NoEventLost
    (fun _ hinv => hinv.kept) ?_ ?_ ⟨rfl, nofun, by simp [rtCompletionInit],
      by simp [rtCompletionInit]⟩
  · rintro ⟨st, pending⟩ action ⟨next, after⟩ event hinv hgood hstep
    obtain ⟨hstep, hnotes⟩ := Machine.recorded_step.1 hstep
    rw [show after = _ from hnotes]
    exact hinv.step hgood hstep
  · rintro ⟨st, pending⟩ action ⟨next, after⟩ event hinv hbad hstep
    obtain ⟨hstep, hnotes⟩ := Machine.recorded_step.1 hstep
    rw [show after = _ from hnotes]
    exact lost_of_clear hinv hbad hstep

instance (st : State Tid × Bool) : (act : Action Tid) → Decidable (ClearsNothing st act)
  | .clear =>
    match hwaiter : st.1.waiter with
    | .clearing result =>
      decidable_of_iff (result ≠ .eok → st.1.flag = false) (by simp [ClearsNothing, hwaiter])
    | .out | .asleep _ | .woken _ => isTrue (by simp [ClearsNothing, hwaiter])
  | .wait _ | .expire | .resume | .done _ | .set _ => inferInstanceAs (Decidable True)

/-- An event comes while the thread sleeps. -/
def scheduleDone (caller : Tid) : List (Action Tid) :=
  [.wait 5, .done caller, .set caller, .resume, .clear]

theorem isSome_scheduleDone : (recordedMachine.exec ClearsNothing (rtCompletionInit, false)
    (scheduleDone ())).isSome = true := by
  decide

theorem no_event_lost_scheduleDone : ∃ trace, ∃ last : State Unit × Bool,
    recordedMachine.RunWith (fun st _ => NoEventLost st) (rtCompletionInit, false)
      trace last ∧
      trace.map Prod.snd = [.slept, .moved, .done, .moved, .returned .eok] ∧ last.2 = false := by
  have hrun := Machine.runWith_of_isSome _ isSome_scheduleDone
  exact ⟨_, _, (((no_event_lost_iff hrun.of_recorded).2 _ hrun.run).2 hrun).1, by decide,
    by decide⟩

/-- The event comes when the thread timer has expired and the thread has not run again. -/
def scheduleDoneLate (caller : Tid) : List (Action Tid) :=
  [.wait 5, .expire, .done caller, .set caller, .resume, .clear]

theorem isSome_scheduleDoneLate : (recordedMachine.exec (fun _ _ => True) (rtCompletionInit, false)
    (scheduleDoneLate ())).isSome = true := by
  decide

/-- The wait that has timed out takes the event with it. -/
theorem event_lost : ∃ trace, ∃ last : State Unit × Bool,
    recordedMachine.Run (rtCompletionInit, false) trace last ∧
      trace.map Prod.snd = [.slept, .moved, .moved, .done, .moved, .returned .etimeout] ∧
        last.1.flag = false ∧ ¬NoEventLost last := by
  refine ⟨_, _, Machine.runWith_of_isSome _ isSome_scheduleDoneLate, by decide,
    by decide, fun hkept => ?_⟩
  exact absurd (hkept (by decide)).1 (by decide)

end Machine

end RtThread.Completion
