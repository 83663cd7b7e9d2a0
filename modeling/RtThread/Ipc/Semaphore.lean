import RtThread.Core.Machine
import RtThread.Kernel.Thread

set_option linter.all false

/-!
# Semaphores

`rt_sem_take`, `rt_sem_trytake`, `rt_sem_release` and `rt_sem_control` of
`ipc.c`, run by any number of threads.  Each critical section is one step.  A
taker that blocks leaves its call inside `rt_schedule`; it comes back in a step
of its own, after a release, a timeout or a reset has made it ready again, and
then returns `thread->error`.

A token is therefore in `value`, or with a call that has returned `RT_EOK`, or
on its way to a waiter that a release has resumed and that has not run yet.
-/

namespace RtThread.Sem

open Function
open RtThread.Core
open RtThread.Kernel

variable {Tid : Type*}

/-- `struct rt_semaphore`. -/
structure Semaphore (Tid : Type*) where
  value : ℕ
  suspendThread : List Tid
  flag : IpcFlag

/-- `inTake` marks the threads that are inside the `rt_schedule` call of
`rt_sem_take`. -/
structure State (Tid : Type*) where
  threads : Tid → Thread
  sem : Semaphore Tid
  inTake : Tid → Bool

/-- `rt_sem_init`; the object is new, so no thread is inside one of its calls. -/
def rtSemInit (threads : Tid → Thread) (value : ℕ) (flag : IpcFlag) : State Tid where
  threads := threads
  sem := { value := value % 0x10000, suspendThread := [], flag := flag }
  inTake := fun _ => false

inductive Action (Tid : Type*)
  | take (tid : Tid) (time : ℤ)
  | trytake (tid : Tid)
  | release
  | control (cmd value : ℕ)
  /-- The thread timer of a waiter fires. -/
  | timeout (tid : Tid)
  /-- The scheduler lets a waiter return from `rt_schedule`. -/
  | resume (tid : Tid)
  deriving DecidableEq

inductive Event (Tid : Type*)
  /-- `rt_sem_take` returns. -/
  | returned (tid : Tid) (err : Err)
  | suspended (tid : Tid)
  | released (woken : Option Tid)
  | controlled (err : Err)
  | timedOut (tid : Tid)

variable [DecidableEq Tid]

def withValue (st : State Tid) (value : ℕ) : State Tid :=
  { st with sem := { st.sem with value := value } }

/-- The blocking branch of `rt_sem_take`: clear the error code, join the
suspend list, start the thread timer. -/
def suspendSelf (st : State Tid) (tid : Tid) (time : ℤ) : State Tid :=
  let threads := modify st.threads tid fun thread =>
    rtThreadSuspend { thread with error := .eok }
  { threads := modify threads tid (startThreadTimer time)
    sem := { st.sem with
      suspendThread :=
        rtIpcListInsert threads st.sem.suspendThread tid st.sem.flag }
    inTake := update st.inTake tid true }

/-- Take a waiter out of the suspend list with one of the waking operations. -/
def wake (st : State Tid) (tid : Tid) (operation : Thread → Thread) : State Tid :=
  { st with
    threads := modify st.threads tid operation
    sem := { st.sem with suspendThread := st.sem.suspendThread.erase tid } }

/-- `rt_sem_take` up to its return or its call of `rt_schedule`. -/
def rtSemTake (st : State Tid) (tid : Tid) (time : ℤ) : State Tid × Event Tid :=
  if 0 < st.sem.value then
    (withValue st (st.sem.value - 1), .returned tid .eok)
  else if time = 0 then
    (st, .returned tid .etimeout)
  else
    (suspendSelf st tid time, .suspended tid)

def rtSemTrytake (st : State Tid) (tid : Tid) : State Tid × Event Tid :=
  rtSemTake st tid 0

/-- `rt_sem_release`: the token goes to the first waiter, or into the 16-bit
`value`. -/
def rtSemRelease (st : State Tid) : State Tid × Event Tid :=
  match st.sem.suspendThread with
  | tid :: _ =>
    let resumed := rtThreadResumeFrom st.threads st.sem.suspendThread tid
    ({ st with
       threads := resumed.1
       sem := { st.sem with suspendThread := resumed.2 } },
      .released (some tid))
  | [] =>
    (withValue st ((st.sem.value + 1) % 0x10000), .released none)

/-- `rt_sem_control`. -/
def rtSemControl (st : State Tid) (cmd value : ℕ) : State Tid × Event Tid :=
  if cmd = rtIpcCmdReset then
    ({ st with
       threads := rtIpcListResumeAll st.threads st.sem.suspendThread
       sem := { st.sem with suspendThread := [], value := value % 0x10000 } },
      .controlled .eok)
  else (st, .controlled .error)

/-- A thread can call in when it runs and is not inside a call already. -/
def State.canCall (st : State Tid) (tid : Tid) : Prop :=
  st.inTake tid = false ∧ (st.threads tid).runnable

instance (st : State Tid) (tid : Tid) : Decidable (st.canCall tid) :=
  inferInstanceAs (Decidable (_ ∧ _))

def step (st : State Tid) : Action Tid → Option (State Tid × Event Tid)
  | .take tid time => if st.canCall tid then some (rtSemTake st tid time) else none
  | .trytake tid => if st.canCall tid then some (rtSemTrytake st tid) else none
  | .release => some (rtSemRelease st)
  | .control cmd value => some (rtSemControl st cmd value)
  | .timeout tid =>
    if st.inTake tid = true ∧ (st.threads tid).stat = .suspend ∧
        (st.threads tid).timerActivated = true then
      some (wake st tid rtThreadTimeout, .timedOut tid)
    else none
  | .resume tid =>
    if st.inTake tid = true ∧ (st.threads tid).stat ≠ .suspend then
      some ({ st with inTake := update st.inTake tid false },
        .returned tid (st.threads tid).error)
    else none

def machine : Machine (State Tid) (Action Tid) (Event Tid) where
  step := step

/-! ## The invariant of the suspend list -/

/-- The suspend list holds exactly the blocked takers, each waiting for a token
with a clean error code, and nobody waits while there is one. -/
structure Inv (st : State Tid) : Prop where
  nodup : st.sem.suspendThread.Nodup
  mem_iff : ∀ tid, tid ∈ st.sem.suspendThread ↔
    st.inTake tid = true ∧ (st.threads tid).stat = .suspend
  clean : ∀ tid ∈ st.sem.suspendThread, (st.threads tid).error = .eok
  unavailable : 0 < st.sem.value → st.sem.suspendThread = []
  bounded : st.sem.value < 0x10000

omit [DecidableEq Tid] in
theorem inv_rtSemInit (threads : Tid → Thread) (value : ℕ) (flag : IpcFlag) :
    Inv (rtSemInit threads value flag) where
  nodup := List.nodup_nil
  mem_iff := by simp [rtSemInit]
  clean := by simp [rtSemInit]
  unavailable := fun _ => rfl
  bounded := Nat.mod_lt _ (by decide)

/-- Everything one step can do in a state that satisfies the invariant. -/
inductive Effect (st : State Tid) : Action Tid → State Tid → Event Tid → Prop
  | took {act : Action Tid} (tid : Tid) (hrelease : act ≠ .release)
      (havailable : 0 < st.sem.value) :
      Effect st act (withValue st (st.sem.value - 1)) (.returned tid .eok)
  | refused {act : Action Tid} (tid : Tid) (hrelease : act ≠ .release) :
      Effect st act st (.returned tid .etimeout)
  | blocked {act : Action Tid} (tid : Tid) (time : ℤ) (hrelease : act ≠ .release)
      (hcall : st.canCall tid) (hempty : st.sem.value = 0) :
      Effect st act (suspendSelf st tid time) (.suspended tid)
  | handedOver (tid : Tid) (rest : List Tid)
      (hlist : st.sem.suspendThread = tid :: rest) :
      Effect st .release (wake st tid rtThreadResume) (.released (some tid))
  | freed (hlist : st.sem.suspendThread = []) :
      Effect st .release (withValue st ((st.sem.value + 1) % 0x10000))
        (.released none)
  | reset (value : ℕ) :
      Effect st (.control rtIpcCmdReset value)
        { st with
          threads := rtIpcListResumeAll st.threads st.sem.suspendThread
          sem := { st.sem with suspendThread := [], value := value % 0x10000 } }
        (.controlled .eok)
  | controlRefused (cmd value : ℕ) :
      Effect st (.control cmd value) st (.controlled .error)
  | timedOut (tid : Tid) (hmem : tid ∈ st.sem.suspendThread) :
      Effect st (.timeout tid) (wake st tid rtThreadTimeout) (.timedOut tid)
  | resumed (tid : Tid) (hin : st.inTake tid = true)
      (hstat : (st.threads tid).stat ≠ .suspend) :
      Effect st (.resume tid)
        { st with inTake := update st.inTake tid false }
        (.returned tid (st.threads tid).error)

variable {st : State Tid} {act : Action Tid} {tid : Tid}

theorem effect_rtSemTake {time : ℤ} (hrelease : act ≠ .release) (hcall : st.canCall tid) :
    Effect st act (rtSemTake st tid time).1 (rtSemTake st tid time).2 := by
  rw [rtSemTake]
  split_ifs with havailable htime
  · exact .took tid hrelease havailable
  · exact .refused tid hrelease
  · exact .blocked tid time hrelease hcall (by omega)

theorem effect_rtSemRelease (hinv : Inv st) :
    Effect st .release (rtSemRelease st).1 (rtSemRelease st).2 := by
  rw [rtSemRelease]
  split
  · next tid rest hlist =>
      have hstat := ((hinv.mem_iff tid).1 (by simp [hlist])).2
      have heffect := Effect.handedOver tid rest hlist
      simpa [rtThreadResumeFrom, hstat, wake] using heffect
  · next hlist => exact .freed hlist

theorem effect_of_step {next : State Tid} {event : Event Tid} (hinv : Inv st)
    (hstep : step st act = some (next, event)) : Effect st act next event := by
  cases act with
  | take tid time =>
    simp only [step] at hstep
    split at hstep
    · next hcall =>
        obtain ⟨rfl, rfl⟩ := Prod.mk.inj (Option.some.inj hstep)
        exact effect_rtSemTake (by simp) hcall
    · contradiction
  | trytake tid =>
    simp only [step] at hstep
    split at hstep
    · next hcall =>
        obtain ⟨rfl, rfl⟩ := Prod.mk.inj (Option.some.inj hstep)
        exact effect_rtSemTake (by simp) hcall
    · contradiction
  | release =>
    obtain ⟨rfl, rfl⟩ := Prod.mk.inj (Option.some.inj hstep)
    exact effect_rtSemRelease hinv
  | control cmd value =>
    simp only [step, rtSemControl] at hstep
    split at hstep
    · next hreset =>
        obtain ⟨rfl, rfl⟩ := Prod.mk.inj (Option.some.inj hstep)
        subst hreset
        exact .reset value
    · obtain ⟨rfl, rfl⟩ := Prod.mk.inj (Option.some.inj hstep)
      exact .controlRefused cmd value
  | timeout tid =>
    simp only [step] at hstep
    split at hstep
    · next henabled =>
        obtain ⟨rfl, rfl⟩ := Prod.mk.inj (Option.some.inj hstep)
        exact .timedOut tid ((hinv.mem_iff tid).2 ⟨henabled.1, henabled.2.1⟩)
    · contradiction
  | resume tid =>
    simp only [step] at hstep
    split at hstep
    · next henabled =>
        obtain ⟨rfl, rfl⟩ := Prod.mk.inj (Option.some.inj hstep)
        exact .resumed tid henabled.1 henabled.2
    · contradiction

omit [DecidableEq Tid] in
theorem inv_withValue {value : ℕ} (hinv : Inv st) (hvalue : 0 < value → st.sem.suspendThread = [])
    (hbound : value < 0x10000) : Inv (withValue st value) :=
  ⟨hinv.nodup, hinv.mem_iff, hinv.clean, hvalue, hbound⟩

theorem suspendSelf_self (time : ℤ) (hrunnable : (st.threads tid).runnable) :
    (suspendSelf st tid time).inTake tid = true ∧
      ((suspendSelf st tid time).threads tid).stat = .suspend ∧
      ((suspendSelf st tid time).threads tid).error = .eok := by
  have hclean : Thread.runnable { st.threads tid with error := .eok } := hrunnable
  simp [suspendSelf, stat_rtThreadSuspend hclean]

variable {other : Tid}

theorem suspendSelf_of_ne (st : State Tid) (time : ℤ) (hne : other ≠ tid) :
    (suspendSelf st tid time).inTake other = st.inTake other ∧
      (suspendSelf st tid time).threads other = st.threads other := by
  simp [suspendSelf, hne]

theorem mem_suspendSelf {time : ℤ} : other ∈ (suspendSelf st tid time).sem.suspendThread ↔
      other = tid ∨ other ∈ st.sem.suspendThread :=
  mem_rtIpcListInsert

theorem inv_suspendSelf {time : ℤ} (hinv : Inv st) (hcall : st.canCall tid)
    (hempty : st.sem.value = 0) : Inv (suspendSelf st tid time) := by
  obtain ⟨hout, hrunnable⟩ := hcall
  have hnotMem : tid ∉ st.sem.suspendThread := by
    simp [hinv.mem_iff, hout]
  obtain ⟨hin, hstat, herror⟩ := suspendSelf_self time hrunnable
  refine ⟨nodup_rtIpcListInsert.2 ⟨hnotMem, hinv.nodup⟩, fun other => ?_,
    fun other hother => ?_, fun havailable => ?_, hinv.bounded⟩
  · rw [mem_suspendSelf]
    by_cases hne : other = tid
    · subst hne
      simp [hin, hstat]
    · obtain ⟨hinOther, hthread⟩ := suspendSelf_of_ne st time hne
      rw [hinOther, hthread, ← hinv.mem_iff]
      simp [hne]
  · by_cases hne : other = tid
    · exact hne ▸ herror
    · rw [(suspendSelf_of_ne st time hne).2]
      exact hinv.clean other ((mem_suspendSelf.1 hother).resolve_left hne)
  · exact absurd havailable (by simp [suspendSelf, hempty])

theorem wake_of_ne {operation : Thread → Thread} (hne : other ≠ tid) :
    (wake st tid operation).threads other = st.threads other := by
  simp [wake, hne]

theorem inv_wake {operation : Thread → Thread} (hinv : Inv st)
    (hready : (operation (st.threads tid)).stat = .ready) (hmem : tid ∈ st.sem.suspendThread) :
    Inv (wake st tid operation) := by
  refine ⟨hinv.nodup.erase tid, fun other => ?_, fun other hother => ?_,
    fun havailable => ?_, hinv.bounded⟩
  · by_cases hne : other = tid
    · subst hne
      simp [wake, hinv.nodup.mem_erase_iff, hready]
    · rw [wake_of_ne hne]
      simpa [wake, hinv.nodup.mem_erase_iff, hne] using hinv.mem_iff other
  · obtain ⟨hne, hother⟩ := hinv.nodup.mem_erase_iff.1 hother
    rw [wake_of_ne hne]
    exact hinv.clean other hother
  · rw [hinv.unavailable havailable] at hmem
    contradiction

theorem inv_step {next : State Tid} {event : Event Tid} (hinv : Inv st)
    (hstep : step st act = some (next, event)) : Inv next := by
  cases effect_of_step hinv hstep with
  | took _ _ havailable =>
    have hbounded := hinv.bounded
    exact inv_withValue hinv (fun _ => hinv.unavailable havailable) (by omega)
  | refused => exact hinv
  | blocked tid time _ hcall hempty => exact inv_suspendSelf hinv hcall hempty
  | handedOver tid rest hlist =>
    have hmem : tid ∈ st.sem.suspendThread := by simp [hlist]
    exact inv_wake hinv (stat_rtThreadResume ((hinv.mem_iff tid).1 hmem).2) hmem
  | freed hlist =>
    exact inv_withValue hinv (fun _ => hlist) (Nat.mod_lt _ (by decide))
  | reset value =>
    refine ⟨List.nodup_nil, fun tid => ?_, by simp, fun _ => rfl,
      Nat.mod_lt _ (by decide)⟩
    by_cases hmem : tid ∈ st.sem.suspendThread
    · have hstat : Stat.suspend = (st.threads tid).stat := ((hinv.mem_iff tid).1 hmem).2.symm
      simp [rtIpcListResumeAll_of_mem hinv.nodup hmem, rtThreadResume, ← hstat,
        rtScheduleInsertThread]
    · simpa [rtIpcListResumeAll_of_not_mem hmem] using fun hin hstat =>
        hmem ((hinv.mem_iff tid).2 ⟨hin, hstat⟩)
  | controlRefused => exact hinv
  | timedOut tid hmem => exact inv_wake hinv (stat_rtThreadTimeout _) hmem
  | resumed tid hin hstat =>
    refine ⟨hinv.nodup, fun other => ?_, hinv.clean, hinv.unavailable, hinv.bounded⟩
    by_cases hne : other = tid
    · subst hne
      simp [hinv.mem_iff, hstat]
    · simpa [hne] using hinv.mem_iff other

/-! ## Conservation of tokens -/

/-- A call of `rt_sem_take` that will return `RT_EOK`: it has been resumed with
a clean error code and has not run yet. -/
def WillSucceed (st : State Tid) (tid : Tid) : Prop :=
  st.inTake tid = true ∧ (st.threads tid).stat ≠ .suspend ∧
    (st.threads tid).error = .eok

instance (st : State Tid) (tid : Tid) : Decidable (WillSucceed st tid) :=
  inferInstanceAs (Decidable (_ ∧ _))

/-- Number of `rt_sem_release` calls of a trace. -/
def releases (trace : List (Action Tid × Event Tid)) : ℕ :=
  trace.countP fun entry => entry.1 = .release

def Event.isSuccess : Event Tid → Bool
  | .returned _ .eok => true
  | _ => false

/-- Number of `rt_sem_take` calls that return `RT_EOK` in a trace. -/
def successes (trace : List (Action Tid × Event Tid)) : ℕ :=
  trace.countP fun entry => entry.2.isSuccess

/-- The steps over which tokens are counted: no reset, and no release that
overflows `value`. -/
def Counted (st : State Tid) : Action Tid → Prop
  | .control cmd _ => cmd ≠ rtIpcCmdReset
  | .release => st.sem.value ≠ 65535
  | _ => True

instance (st : State Tid) : (act : Action Tid) → Decidable (Counted st act)
  | .control cmd _ => inferInstanceAs (Decidable (cmd ≠ rtIpcCmdReset))
  | .release => inferInstanceAs (Decidable (st.sem.value ≠ 65535))
  | .take _ _ | .trytake _ | .timeout _ | .resume _ => inferInstanceAs (Decidable True)

section Counting

variable [Fintype Tid]

/-- The calls on their way to `RT_EOK`. -/
def willSucceed (st : State Tid) : Finset Tid :=
  Finset.univ.filter (WillSucceed st)

variable {st : State Tid}

omit [DecidableEq Tid] in
theorem mem_willSucceed {tid : Tid} : tid ∈ willSucceed st ↔ WillSucceed st tid := by
  simp [willSucceed]

omit [DecidableEq Tid] in
theorem willSucceed_rtSemInit (threads : Tid → Thread) (value : ℕ) (flag : IpcFlag) :
    willSucceed (rtSemInit threads value flag) = ∅ := by
  ext tid
  simp [mem_willSucceed, WillSucceed, rtSemInit]

variable {next : State Tid}

omit [DecidableEq Tid] in
theorem willSucceed_congr (hsame : ∀ tid, WillSucceed next tid ↔ WillSucceed st tid) :
    willSucceed next = willSucceed st := by
  ext tid
  rw [mem_willSucceed, mem_willSucceed, hsame]

theorem willSucceed_insert {tid : Tid}
    (hother : ∀ other, other ≠ tid → (WillSucceed next other ↔ WillSucceed st other))
    (hself : WillSucceed next tid) : willSucceed next = insert tid (willSucceed st) := by
  ext other
  rw [Finset.mem_insert, mem_willSucceed, mem_willSucceed]
  by_cases hne : other = tid
  · simp [hne, hself]
  · simp [hne, hother other hne]

/-- One counted step: the tokens in `value`, returned and on their way change by
exactly the released ones. -/
theorem balance_step {act : Action Tid} {event : Event Tid} (hinv : Inv st)
    (hcounted : Counted st act) (hstep : step st act = some (next, event)) :
    st.sem.value + (if act = .release then 1 else 0) + (willSucceed st).card =
      next.sem.value + (if event.isSuccess = true then 1 else 0) +
        (willSucceed next).card := by
  cases effect_of_step hinv hstep with
  | took tid hrelease havailable =>
    have hsame : willSucceed (withValue st (st.sem.value - 1)) = willSucceed st := rfl
    rw [hsame]
    simp only [hrelease, withValue, Event.isSuccess]
    simp only [if_false, if_true]
    omega
  | refused tid hrelease => simp [hrelease, Event.isSuccess]
  | blocked tid time hrelease hcall hempty =>
    have hsame : willSucceed (suspendSelf st tid time) = willSucceed st := by
      apply willSucceed_congr
      intro other
      by_cases hne : other = tid
      · subst hne
        simp [WillSucceed, suspendSelf_self time hcall.2, hcall.1]
      · simp [WillSucceed, suspendSelf_of_ne st time hne]
    rw [hsame]
    simp [hrelease, Event.isSuccess, suspendSelf]
  | handedOver tid rest hlist =>
    have hmem : tid ∈ st.sem.suspendThread := by simp [hlist]
    obtain ⟨hin, hstat⟩ := (hinv.mem_iff tid).1 hmem
    have hinsert : willSucceed (wake st tid rtThreadResume) =
        insert tid (willSucceed st) := by
      refine willSucceed_insert (fun other hne => ?_) ?_
      · simp [WillSucceed, wake, hne]
      · simp [WillSucceed, wake, hin, stat_rtThreadResume hstat, hinv.clean tid hmem]
    have hnot : tid ∉ willSucceed st := by
      simp [mem_willSucceed, WillSucceed, hstat]
    rw [hinsert, Finset.card_insert_of_notMem hnot]
    simp only [if_true, Event.isSuccess, wake]
    simp only [Bool.false_eq_true, if_false]
    omega
  | freed hlist =>
    have hsame : willSucceed (withValue st ((st.sem.value + 1) % 0x10000)) =
        willSucceed st := rfl
    have hbounded := hinv.bounded
    have hroom : st.sem.value ≠ 65535 := hcounted
    rw [hsame]
    simp only [withValue, Event.isSuccess, if_true]
    simp only [Bool.false_eq_true, if_false]
    omega
  | reset value => exact absurd rfl hcounted
  | controlRefused cmd value => simp [Event.isSuccess]
  | timedOut tid hmem =>
    obtain ⟨hin, hstat⟩ := (hinv.mem_iff tid).1 hmem
    have hsame : willSucceed (wake st tid rtThreadTimeout) = willSucceed st := by
      apply willSucceed_congr
      intro other
      by_cases hne : other = tid
      · subst hne
        simp [WillSucceed, wake, hstat]
      · simp [WillSucceed, wake, hne]
    rw [hsame]
    simp [Event.isSuccess, wake]
  | resumed tid hin hstat =>
    set next : State Tid := { st with inTake := update st.inTake tid false }
      with hnext
    have hleft : ¬ WillSucceed next tid := by simp [WillSucceed, hnext]
    have hother : ∀ other, other ≠ tid →
        (WillSucceed st other ↔ WillSucceed next other) := by
      intro other hne
      simp [WillSucceed, hnext, hne]
    by_cases herror : (st.threads tid).error = .eok
    · have hinsert : willSucceed st = insert tid (willSucceed next) :=
        willSucceed_insert hother ⟨hin, hstat, herror⟩
      rw [hinsert, Finset.card_insert_of_notMem (by rwa [mem_willSucceed])]
      simp only [herror, Event.isSuccess, reduceCtorEq, if_false, if_true, hnext]
      omega
    · have hsame : willSucceed next = willSucceed st := by
        apply willSucceed_congr
        intro other
        by_cases hne : other = tid
        · subst hne
          exact iff_of_false hleft fun hpending => herror hpending.2.2
        · exact (hother other hne).symm
      have hfailed : (Event.returned tid (st.threads tid).error).isSuccess = false := by
        cases hcode : (st.threads tid).error <;> simp_all [Event.isSuccess]
      rw [hsame, hfailed]
      simp [hnext]

theorem balance_run {first last : State Tid} {trace : List (Action Tid × Event Tid)}
    (hinv : Inv first) (hrun : machine.RunWith Counted first trace last) :
    first.sem.value + releases trace + (willSucceed first).card =
      last.sem.value + successes trace + (willSucceed last).card := by
  induction hrun with
  | nil st => simp [releases, successes]
  | @cons first next last act event trace hcounted hstep hrest ih =>
    have hone := balance_step hinv hcounted hstep
    have hmany := ih (inv_step hinv hstep)
    simp only [releases, successes, List.countP_cons, decide_eq_true_eq] at hmany ⊢
    omega

end Counting

/-- A call on its way to `RT_EOK` stays so until it returns `RT_EOK`. -/
theorem willSucceed_step {st next : State Tid} {act : Action Tid}
    {event : Event Tid} {tid : Tid} (hinv : Inv st) (hpending : WillSucceed st tid)
    (hstep : step st act = some (next, event)) :
    WillSucceed next tid ∨ act = .resume tid ∧ event = .returned tid .eok := by
  obtain ⟨hin, hstat, herror⟩ := hpending
  have hnotMem : tid ∉ st.sem.suspendThread := by simp [hinv.mem_iff, hstat]
  cases effect_of_step hinv hstep with
  | took => exact .inl ⟨hin, hstat, herror⟩
  | refused => exact .inl ⟨hin, hstat, herror⟩
  | blocked other time _ hcall _ =>
    have hne : tid ≠ other := by
      rintro rfl
      simp [hcall.1] at hin
    left
    simp [WillSucceed, suspendSelf_of_ne st time hne, hin, hstat, herror]
  | handedOver other rest hlist =>
    have hne : tid ≠ other := by
      rintro rfl
      simp [hlist] at hnotMem
    left
    simp [WillSucceed, wake, hne, hin, hstat, herror]
  | freed => exact .inl ⟨hin, hstat, herror⟩
  | reset value =>
    left
    simp [WillSucceed, rtIpcListResumeAll_of_not_mem hnotMem, hin, hstat, herror]
  | controlRefused => exact .inl ⟨hin, hstat, herror⟩
  | timedOut other hmem =>
    have hne : tid ≠ other := (ne_of_mem_of_not_mem hmem hnotMem).symm
    left
    simp [WillSucceed, wake, hne, hin, hstat, herror]
  | resumed other _ _ =>
    by_cases hne : tid = other
    · subst hne
      exact .inr ⟨rfl, by rw [herror]⟩
    · left
      simp [WillSucceed, hne, hin, hstat, herror]

theorem release_wakes_one {st next : State Tid} {event : Event Tid}
    (hinv : Inv st) (hstep : step st .release = some (next, event)) :
    ∃ woken : Option Tid, event = .released woken ∧
      st.sem.suspendThread = woken.toList ++ next.sem.suspendThread ∧
      ∀ tid, woken ≠ some tid → next.threads tid = st.threads tid := by
  cases effect_of_step hinv hstep with
  | took tid hrelease _ => exact absurd rfl hrelease
  | refused tid hrelease => exact absurd rfl hrelease
  | blocked tid time hrelease _ _ => exact absurd rfl hrelease
  | handedOver tid rest hlist =>
    refine ⟨some tid, rfl, by simp [wake, hlist], fun other hne => ?_⟩
    exact wake_of_ne fun heq => hne (by rw [heq])
  | freed hlist => exact ⟨none, rfl, by simp [withValue], fun _ _ => rfl⟩

/-- Semaphore conservation.  In every reachable state a positive value means
that nobody waits; over every stretch without a reset and without an
overflowing release, the tokens that were there and the released ones are those
still in `value` and those of the takes that have returned or will return
`RT_EOK`; a release resumes at most one waiter; and a resumed waiter does return
`RT_EOK`. -/
theorem semaphore_conserves_tokens [Fintype Tid] {threads : Tid → Thread} {value : ℕ}
    {flag : IpcFlag} (hvalue : value < 0x10000) :
    (∀ {trace last}, machine.RunWith Counted (rtSemInit threads value flag) trace last →
      value + releases trace =
        last.sem.value + (successes trace + (willSucceed last).card)) ∧
    ∀ {past st}, machine.Run (rtSemInit threads value flag) past st →
      (0 < st.sem.value → st.sem.suspendThread = []) ∧
      (∀ {trace last}, machine.RunWith Counted st trace last →
        st.sem.value + releases trace + (willSucceed st).card =
          last.sem.value + (successes trace + (willSucceed last).card)) ∧
      (∀ {next event}, step st .release = some (next, event) →
        ∃ woken : Option Tid, event = .released woken ∧
          st.sem.suspendThread = woken.toList ++ next.sem.suspendThread ∧
          ∀ tid, woken ≠ some tid → next.threads tid = st.threads tid) ∧
      (∀ tid, WillSucceed st tid → ∀ {action next event},
        step st action = some (next, event) →
          WillSucceed next tid ∨ action = .resume tid ∧ event = .returned tid .eok) := by
  have hinit := inv_rtSemInit threads value flag
  have hstart : (rtSemInit threads value flag).sem.value = value := Nat.mod_eq_of_lt hvalue
  constructor
  · intro trace last hrun
    have hbalance := balance_run hinit hrun
    rw [willSucceed_rtSemInit, Finset.card_empty, hstart] at hbalance
    omega
  · intro past st hreach
    have hinv : Inv st :=
      hreach.invariant Inv (fun _ _ _ _ hinv _ hstep => inv_step hinv hstep) hinit
    refine ⟨hinv.unavailable, fun hrun => ?_, release_wakes_one hinv,
      fun tid hpending _ _ _ hstep => willSucceed_step hinv hpending hstep⟩
    have hbalance := balance_run hinv hrun
    omega

/-- Two threads share one token: the second waits, and the release hands the
token over. -/
theorem semaphore_conserves_tokens_handOver :
    ∃ trace last, machine.RunWith Counted
        (rtSemInit (fun _ : Fin 2 => Thread.started 10) 1 .prio) trace last ∧
      successes trace = 1 ∧ releases trace = 1 ∧
      1 + releases trace = last.sem.value + (successes trace + (willSucceed last).card) := by
  have hrun : machine.RunWith Counted
      (rtSemInit (fun _ : Fin 2 => Thread.started 10) 1 .prio) _ _ :=
    Machine.runWith_of_exec [.take 0 (-1), .take 1 5, .release] rfl
  exact ⟨_, _, hrun, rfl, rfl, (semaphore_conserves_tokens (by decide)).1 hrun⟩

end RtThread.Sem
