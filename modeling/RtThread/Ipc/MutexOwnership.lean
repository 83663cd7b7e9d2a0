import RtThread.Ipc.Mutex

set_option linter.all false

/-!
# Ownership of a mutex

Without signals a thread inside `rt_mutex_take` is always in its `rt_schedule`
call, and the suspend lists, the owners and the values of the mutexes stay in
step.  From this follows when `hold` counts what it is meant to count: it is an
8-bit counter that no path checks, so the 256th nested take makes it zero.
-/

namespace RtThread.Mutex

open RtThread.Core
open RtThread.Kernel

variable {Tid Mid : Type*}

/-- A mutex is free exactly when it has no owner; waiters wait for another
thread. -/
structure RtMutex.Consistent (mutex : RtMutex Tid) : Prop where
  free_iff : mutex.value = 1 ↔ mutex.owner = none
  binary : mutex.value ≤ 1
  idle : mutex.owner = none → mutex.suspendThread = []
  notOwner : ∀ tid ∈ mutex.suspendThread, mutex.owner ≠ some tid
  bounded : mutex.hold < 0x100

/-- What takes, releases and timeouts preserve. -/
structure Inv (st : State Tid Mid) : Prop where
  nodup : ∀ mid, (st.mutexes mid).suspendThread.Nodup
  mem_iff : ∀ tid mid, tid ∈ (st.mutexes mid).suspendThread ↔
    (∃ time, st.pc tid = .inTake mid time .schedule) ∧
      (st.threads tid).stat = .suspend
  place : ∀ tid, st.pc tid = .out ∨ ∃ mid time, st.pc tid = .inTake mid time .schedule
  quiet : ∀ tid, (st.threads tid).signal = false ∧ (st.threads tid).error ≠ .eintr
  timer : ∀ tid, (st.threads tid).timerActivated = true →
    ∃ mid, tid ∈ (st.mutexes mid).suspendThread
  consistent : ∀ mid, (st.mutexes mid).Consistent

theorem consistent_rtMutexInit (flag : IpcFlag) : 
    (rtMutexInit flag : RtMutex Tid).Consistent where
  free_iff := by simp [rtMutexInit]
  binary := le_rfl
  idle := fun _ => rfl
  notOwner := by simp [rtMutexInit]
  bounded := by simp [rtMutexInit]

theorem inv_initial (priority : Tid → ℕ) (flag : Mid → IpcFlag) :
    Inv (initial priority flag) where
  nodup := fun _ => List.nodup_nil
  mem_iff := by simp [initial, rtMutexInit]
  place := fun _ => .inl rfl
  quiet := by simp [initial, Thread.started]
  timer := by simp [initial, Thread.started]
  consistent := fun mid => consistent_rtMutexInit (flag mid)

theorem Inv.mem_unique {st : State Tid Mid} (hinv : Inv st) {tid : Tid} {mid mid' : Mid}
    (hmem : tid ∈ (st.mutexes mid).suspendThread)
    (hmem' : tid ∈ (st.mutexes mid').suspendThread) : mid' = mid := by
  obtain ⟨⟨time, hpc⟩, -⟩ := (hinv.mem_iff tid mid).1 hmem
  obtain ⟨⟨time', hpc'⟩, -⟩ := (hinv.mem_iff tid mid').1 hmem'
  rw [hpc] at hpc'
  injection hpc' with hmid
  exact hmid.symm

/-- A thread outside `rt_mutex_take` waits for nothing. -/
theorem Inv.not_mem_of_out {st : State Tid Mid} (hinv : Inv st) {tid : Tid}
    (hpc : st.pc tid = .out) (mid : Mid) : tid ∉ (st.mutexes mid).suspendThread := by
  simp [hinv.mem_iff, hpc]

variable [DecidableEq Tid]

/-- An operation that concerns neither the waiting nor the signals of a thread. -/
structure Silent (operation : Thread → Thread) (thread : Thread) : Prop where
  stat : (operation thread).stat = thread.stat
  timer : (operation thread).timerActivated = thread.timerActivated
  signal : (operation thread).signal = thread.signal
  error : thread.error ≠ .eintr → (operation thread).error ≠ .eintr

theorem silent_setError {code : Err} (hcode : code ≠ .eintr) (thread : Thread) :
    Silent (setError code) thread :=
  ⟨rfl, rfl, rfl, fun _ => hcode⟩

theorem silent_changePriority (priority : ℕ) (thread : Thread) :
    Silent (changePriority priority) thread :=
  ⟨rfl, rfl, rfl, id⟩

theorem inv_setThread {st : State Tid Mid} {tid : Tid} {operation : Thread → Thread}
    (hinv : Inv st) (hsilent : Silent operation (st.threads tid)) :
    Inv (setThread st tid operation) := by
  have hsame : ∀ other,
      (modify st.threads tid operation other).stat = (st.threads other).stat ∧
      (modify st.threads tid operation other).timerActivated =
        (st.threads other).timerActivated ∧
      (modify st.threads tid operation other).signal = (st.threads other).signal ∧
      (modify st.threads tid operation other).error ≠ .eintr := by
    intro other
    by_cases hne : other = tid
    · subst hne
      rw [modify_self]
      exact ⟨hsilent.stat, hsilent.timer, hsilent.signal, hsilent.error (hinv.quiet other).2⟩
    · rw [modify_of_ne _ _ hne]
      exact ⟨rfl, rfl, rfl, (hinv.quiet other).2⟩
  refine ⟨hinv.nodup, fun other mid => ?_, hinv.place, fun other => ?_, fun other hactive => ?_,
    hinv.consistent⟩
  · rw [setThread_threads, (hsame other).1]
    exact hinv.mem_iff other mid
  · rw [setThread_threads, (hsame other).2.2.1]
    exact ⟨(hinv.quiet other).1, (hsame other).2.2.2⟩
  · rw [setThread_threads, (hsame other).2.1] at hactive
    exact hinv.timer other hactive

theorem inv_wake {st : State Tid Mid} {tid : Tid} {operation : Thread → Thread}
    (hinv : Inv st) (hready : (operation (st.threads tid)).stat = .ready)
    (hstopped : (operation (st.threads tid)).timerActivated = false)
    (hquiet : (operation (st.threads tid)).signal = false ∧
      (operation (st.threads tid)).error ≠ .eintr) :
    Inv (wake st tid operation) := by
  refine ⟨fun mid => (hinv.nodup mid).erase tid, fun other mid => ?_, hinv.place,
    fun other => ?_, fun other hactive => ?_, fun mid => ?_⟩
  · by_cases hne : other = tid
    · subst hne
      simp [(hinv.nodup mid).mem_erase_iff, hready]
    · simpa [(hinv.nodup mid).mem_erase_iff, hne] using hinv.mem_iff other mid
  · by_cases hne : other = tid
    · subst hne
      simpa using hquiet
    · simpa [hne] using hinv.quiet other
  · by_cases hne : other = tid
    · subst hne
      simp [hstopped] at hactive
    · rw [wake_threads, modify_of_ne _ _ hne] at hactive
      obtain ⟨mid, hmem⟩ := hinv.timer other hactive
      exact ⟨mid, (hinv.nodup mid).mem_erase_iff.2 ⟨hne, hmem⟩⟩
  · obtain ⟨hfree, hbinary, hidle, hnotOwner, hbounded⟩ := hinv.consistent mid
    refine ⟨hfree, hbinary, fun hnone => ?_, fun other hmem => ?_, hbounded⟩
    · simp [hidle hnone]
    · exact hnotOwner other (List.mem_of_mem_erase hmem)

theorem inv_leave {st : State Tid Mid} {tid : Tid} (hinv : Inv st)
    (hstat : (st.threads tid).stat ≠ .suspend) : Inv (setPc st tid .out) := by
  refine ⟨hinv.nodup, fun other mid => ?_, fun other => ?_, hinv.quiet, hinv.timer,
    hinv.consistent⟩
  · by_cases hne : other = tid
    · subst hne
      simp [hinv.mem_iff, hstat]
    · simpa [hne] using hinv.mem_iff other mid
  · by_cases hne : other = tid
    · subst hne
      simp
    · simpa [hne] using hinv.place other

variable [DecidableEq Mid]

variable {st : State Tid Mid} {mid : Mid} {update : RtMutex Tid → RtMutex Tid}

omit [DecidableEq Tid] in
theorem inv_setMutex (hinv : Inv st)
    (hlist : (update (st.mutexes mid)).suspendThread = (st.mutexes mid).suspendThread)
    (hconsistent : (update (st.mutexes mid)).Consistent) : Inv (setMutex st mid update) := by
  have hsame : ∀ mid', ((setMutex st mid update).mutexes mid').suspendThread =
      (st.mutexes mid').suspendThread := by
    intro mid'
    by_cases hne : mid' = mid
    · subst hne
      rw [setMutex_self, hlist]
    · rw [setMutex_of_ne _ _ hne]
  refine ⟨fun mid' => ?_, fun tid mid' => ?_, hinv.place, hinv.quiet, fun tid hactive => ?_,
    fun mid' => ?_⟩
  · rw [hsame]
    exact hinv.nodup mid'
  · rw [hsame]
    exact hinv.mem_iff tid mid'
  · obtain ⟨mid', hmem⟩ := hinv.timer tid hactive
    exact ⟨mid', by rwa [hsame]⟩
  · by_cases hne : mid' = mid
    · subst hne
      rwa [setMutex_self]
    · rw [setMutex_of_ne _ _ hne]
      exact hinv.consistent mid'

variable {tid : Tid}

/-- The blocking of a taker, after the priority inheritance. -/
theorem inv_join {time : ℤ} (hinv : Inv st) (hcall : st.canCall tid)
    (howned : (st.mutexes mid).owner ≠ none) (hother : (st.mutexes mid).owner ≠ some tid) :
    Inv (setPc (setThread (insertWaiter (setThread st tid rtThreadSuspend) tid mid) tid
      (startThreadTimer time)) tid (.inTake mid time .schedule)) := by
  obtain ⟨hpc, hrunnable, hsignal⟩ := hcall
  have hlist : ∀ other mid', other ∈ ((insertWaiter (setThread st tid rtThreadSuspend)
      tid mid).mutexes mid').suspendThread ↔
        other = tid ∧ mid' = mid ∨ other ∈ (st.mutexes mid').suspendThread := by
    intro other mid'
    by_cases hne : mid' = mid
    · subst hne
      simp [insertWaiter]
    · simp [insertWaiter, hne]
  refine ⟨fun mid' => ?_, fun other mid' => ?_, fun other => ?_, fun other => ?_,
    fun other hactive => ?_, fun mid' => ?_⟩
  · by_cases hne : mid' = mid
    · subst hne
      simpa [insertWaiter, nodup_rtIpcListInsert] using
        ⟨hinv.not_mem_of_out hpc mid', hinv.nodup mid'⟩
    · simpa [insertWaiter, hne] using hinv.nodup mid'
  · rw [setPc_mutexes, setThread_mutexes, hlist]
    by_cases hne : other = tid
    · subst hne
      simp [stat_rtThreadSuspend hrunnable, hinv.not_mem_of_out hpc mid', eq_comm (b := mid)]
    · simpa [hne] using hinv.mem_iff other mid'
  · by_cases hne : other = tid
    · subst hne
      simp
    · simpa [hne] using hinv.place other
  · by_cases hne : other = tid
    · subst hne
      simpa [hsignal] using (hinv.quiet other).2
    · simpa [hne] using hinv.quiet other
  · by_cases hne : other = tid
    · exact ⟨mid, by simp [hlist, hne]⟩
    · obtain ⟨mid', hmem⟩ := hinv.timer other (by simpa [hne] using hactive)
      exact ⟨mid', by simp [hlist, hmem]⟩
  · by_cases hne : mid' = mid
    · subst hne
      obtain ⟨hfree, hbinary, -, hnotOwner, hbounded⟩ := hinv.consistent mid'
      refine ⟨?_, ?_, ?_, ?_, ?_⟩ <;> simp_all [insertWaiter]
    · simpa [insertWaiter, hne] using hinv.consistent mid'

/-- Everything one step without signals can do. -/
inductive Effect (st : State Tid Mid) :
    Action Tid Mid → State Tid Mid → Event Tid Mid → Prop
  | nested (tid : Tid) (mid : Mid) (time : ℤ)
      (howner : (st.mutexes mid).owner = some tid) :
      Effect st (.take tid mid time)
        (setMutex (setThread st tid (setError .eok)) mid fun mutex =>
          { mutex with hold := incHold mutex.hold })
        (.returned tid mid .eok)
  | acquired (tid : Tid) (mid : Mid) (time : ℤ)
      (hfree : (st.mutexes mid).owner = none) :
      Effect st (.take tid mid time)
        (setMutex (setThread st tid (setError .eok)) mid fun mutex =>
          { mutex with
            value := mutex.value - 1
            owner := some tid
            originalPriority := (st.threads tid).currentPriority
            hold := incHold mutex.hold })
        (.returned tid mid .eok)
  | noWait (tid : Tid) (mid : Mid) :
      Effect st (.take tid mid 0)
        (setThread (setThread st tid (setError .eok)) tid (setError .etimeout))
        (.returned tid mid .etimeout)
  | blocked (tid : Tid) (mid : Mid) (time : ℤ) (owner : Tid) (hcall : st.canCall tid)
      (htime : time ≠ 0) (howner : (st.mutexes mid).owner = some owner)
      (hne : owner ≠ tid) :
      Effect st (.take tid mid time)
        (suspendSelf (setThread st tid (setError .eok)) tid mid time owner)
        (.suspended tid mid)
  | unnested (tid : Tid) (mid : Mid) (howner : (st.mutexes mid).owner = some tid)
      (hhold : (st.mutexes mid).hold ≠ 1) :
      Effect st (.release tid mid)
        (setMutex st mid fun mutex => { mutex with hold := decHold mutex.hold })
        (.released tid mid none)
  | handedOver (tid : Tid) (mid : Mid) (waiter : Tid) (rest : List Tid)
      (hout : st.pc tid = .out)
      (howner : (st.mutexes mid).owner = some tid)
      (hhold : (st.mutexes mid).hold = 1)
      (hlist : (st.mutexes mid).suspendThread = waiter :: rest) :
      Effect st (.release tid mid)
        (setMutex (wake (setThread st tid
            (changePriority (st.mutexes mid).originalPriority)) waiter rtThreadResume)
          mid fun mutex =>
            { mutex with
              owner := some waiter
              originalPriority := (st.threads waiter).currentPriority
              hold := 1 })
        (.released tid mid (some waiter))
  | freed (tid : Tid) (mid : Mid) (hout : st.pc tid = .out)
      (howner : (st.mutexes mid).owner = some tid)
      (hhold : (st.mutexes mid).hold = 1)
      (hlist : (st.mutexes mid).suspendThread = []) :
      Effect st (.release tid mid)
        (setMutex (setThread st tid
            (changePriority (st.mutexes mid).originalPriority)) mid fun mutex =>
          { mutex with value := 1, owner := none, originalPriority := 0xff, hold := 0 })
        (.released tid mid none)
  | refused (tid : Tid) (mid : Mid) (howner : (st.mutexes mid).owner ≠ some tid) :
      Effect st (.release tid mid)
        (setThread st tid (setError .error)) (.refused tid mid)
  | timedOut (tid : Tid) (mid : Mid) (hmem : tid ∈ (st.mutexes mid).suspendThread) :
      Effect st (.timeout tid) (wake st tid rtThreadTimeout) (.timedOut tid)
  | returned (tid : Tid) (mid : Mid) (time : ℤ)
      (hpc : st.pc tid = .inTake mid time .schedule)
      (hstat : (st.threads tid).stat ≠ .suspend) :
      Effect st (.run tid) (setPc st tid .out)
        (.returned tid mid (st.threads tid).error)

variable {next : State Tid Mid} {event : Event Tid Mid}

theorem effect_rtMutexTake {time : ℤ} (hinv : Inv st) (hcall : st.canCall tid)
    (hstep : rtMutexTake st tid mid time = (next, event)) :
    Effect st (.take tid mid time) next event := by
  have hconsistent := hinv.consistent mid
  dsimp only [rtMutexTake] at hstep
  split at hstep
  · next howner =>
      cases hstep
      exact .nested tid mid time howner
  · next howner =>
      split at hstep
      · next hvalue =>
          cases hstep
          have hbinary := hconsistent.binary
          have heffect : Effect st _ _ _ :=
            .acquired tid mid time (hconsistent.free_iff.1 (by omega))
          simpa [setError] using heffect
      · next hvalue =>
          split at hstep
          · next htime =>
              cases hstep
              subst htime
              exact .noWait tid mid
          · next htime =>
              split at hstep
              · next hnone => exact absurd (hconsistent.free_iff.2 hnone) (by omega)
              · next owner hsome =>
                  cases hstep
                  have hne : owner ≠ tid := by
                    rintro rfl
                    exact howner hsome
                  exact .blocked tid mid time owner hcall htime hsome hne

theorem decHold_eq_zero {hold : ℕ} (hbounded : hold < 0x100) : decHold hold = 0 ↔ hold = 1 := by
  rw [decHold]
  omega

omit [DecidableEq Tid] in
theorem inv_setHold {count : ℕ → ℕ} (hinv : Inv st) (hcount : count (st.mutexes mid).hold < 0x100) :
    Inv (setMutex st mid fun mutex => { mutex with hold := count mutex.hold }) := by
  obtain ⟨hfree, hbinary, hidle, hnotOwner, -⟩ := hinv.consistent mid
  exact inv_setMutex hinv rfl ⟨hfree, hbinary, hidle, hnotOwner, hcount⟩

theorem effect_rtMutexRelease (hinv : Inv st) (hcall : st.canCall tid)
    (hstep : rtMutexRelease st tid mid = (next, event)) :
    Effect st (.release tid mid) next event := by
  have hbounded := (hinv.consistent mid).bounded
  simp only [rtMutexRelease, setMutex_self, decHold_eq_zero hbounded, restorePriority_eq] at hstep
  split at hstep
  · next howner =>
      split at hstep
      · next hhold =>
          have hzero : decHold (st.mutexes mid).hold < 0x100 := Nat.mod_lt _ (by decide)
          have hrestored := inv_setThread (inv_setHold hinv hzero)
            (silent_changePriority (st.mutexes mid).originalPriority (st.threads tid))
          cases hlist : (st.mutexes mid).suspendThread with
          | cons waiter rest =>
            have hmem : waiter ∈ ((setThread (setMutex st mid fun mutex =>
                { mutex with hold := decHold mutex.hold }) tid
                (changePriority (st.mutexes mid).originalPriority)).mutexes
                mid).suspendThread := by
              simp [hlist]
            rw [passOn_waiter (by simpa using hlist) ((hrestored.mem_iff waiter mid).1 hmem).2
              fun mid' hne hmem' => hne (hrestored.mem_unique hmem hmem')] at hstep
            cases hstep
            have hne : waiter ≠ tid := by
              rintro rfl
              exact hinv.not_mem_of_out hcall.1 mid (by simp [hlist])
            convert Effect.handedOver tid mid waiter rest hcall.1 howner hhold hlist using 1
            refine State.ext rfl (funext fun mid' => ?_) rfl
            by_cases hmid : mid' = mid
            · subst hmid
              simp [hne, hhold, decHold, incHold]
            · simp [hmid]
          | nil =>
            simp only [passOn, setThread_mutexes, setMutex_self, hlist] at hstep
            cases hstep
            have hvalue : (st.mutexes mid).value = 0 := by
              have hbinary := (hinv.consistent mid).binary
              have hfree := (hinv.consistent mid).free_iff
              simp only [howner, reduceCtorEq, iff_false] at hfree
              omega
            convert Effect.freed tid mid hcall.1 howner hhold hlist using 1
            refine State.ext rfl (funext fun mid' => ?_) rfl
            by_cases hmid : mid' = mid
            · subst hmid
              simp [hvalue, hhold, decHold]
            · simp [hmid]
      · next hhold =>
          cases hstep
          exact .unnested tid mid howner hhold
  · next howner =>
      cases hstep
      exact .refused tid mid howner

variable {act : Action Tid Mid}

theorem effect_of_step (hinv : Inv st) (hstep : step false st act = some (next, event)) :
    Effect st act next event := by
  cases act with
  | take tid mid time =>
    simp only [step] at hstep
    split at hstep
    · next hcall => exact effect_rtMutexTake hinv hcall (Option.some.inj hstep)
    · contradiction
  | release tid mid =>
    simp only [step] at hstep
    split at hstep
    · next hcall => exact effect_rtMutexRelease hinv hcall (Option.some.inj hstep)
    · contradiction
  | timeout tid =>
    simp only [step] at hstep
    split at hstep
    · next hactive =>
        cases hstep
        obtain ⟨mid, hmem⟩ := hinv.timer tid hactive
        exact .timedOut tid mid hmem
    · contradiction
  | run tid =>
    simp only [step, (hinv.quiet tid).1, Bool.false_eq_true, if_false] at hstep
    rcases hinv.place tid with hpc | ⟨mid, time, hpc⟩
    · simp [hpc] at hstep
    · simp only [hpc, runTake, (hinv.quiet tid).2, if_false] at hstep
      split at hstep
      · contradiction
      · next hstat =>
          have heffect : Effect st _ _ _ := .returned tid mid time hpc hstat
          split at hstep <;>
            cases hstep
          · next herror => rwa [herror] at heffect
          · exact heffect
  | kill tid => simp [step] at hstep
  | handleSig tid => simp [step, (hinv.quiet tid).1] at hstep

theorem inv_step (hinv : Inv st) (hstep : step false st act = some (next, event)) : Inv next := by
  have hcount : ∀ hold, incHold hold < 0x100 ∧ decHold hold < 0x100 := fun hold =>
    ⟨Nat.mod_lt _ (by decide), Nat.mod_lt _ (by decide)⟩
  cases effect_of_step hinv hstep with
  | nested tid mid time howner =>
    exact inv_setHold (inv_setThread hinv (silent_setError (by decide) _)) (hcount _).1
  | acquired tid mid time hfree =>
    have hvalue := (hinv.consistent mid).free_iff.2 hfree
    have hempty := (hinv.consistent mid).idle hfree
    apply inv_setMutex (inv_setThread hinv (silent_setError (by decide) _)) rfl
    refine ⟨?_, ?_, ?_, ?_, (hcount _).1⟩ <;> simp [hvalue, hempty]
  | noWait tid mid =>
    exact inv_setThread (inv_setThread hinv (silent_setError (by decide) _))
      (silent_setError (by decide) _)
  | blocked tid mid time owner hcall htime howner hne =>
    have hcleared : Inv (setThread st tid (setError .eok)) :=
      inv_setThread hinv (silent_setError (by decide) _)
    simp only [suspendSelf, boostOwner_eq]
    apply inv_join (inv_setThread hcleared (silent_changePriority _ _))
    · obtain ⟨hpc, hrunnable, hsignal⟩ := hcall
      refine ⟨hpc, ?_, ?_⟩
      · simpa [hne.symm, setError, Thread.runnable] using hrunnable
      · simpa [hne.symm, setError] using hsignal
    · simp [howner]
    · simpa [howner] using hne
  | unnested tid mid howner hhold => exact inv_setHold hinv (hcount _).2
  | handedOver tid mid waiter rest hout howner hhold hlist =>
    have hmem : waiter ∈ (st.mutexes mid).suspendThread := by simp [hlist]
    have hne : waiter ≠ tid := by
      rintro rfl
      exact hinv.not_mem_of_out hout mid hmem
    have hstat := ((hinv.mem_iff waiter mid).1 hmem).2
    have hnodup : waiter ∉ rest := by
      have := hinv.nodup mid
      simp_all
    refine inv_setMutex (inv_wake (inv_setThread hinv (silent_changePriority _ _))
      (stat_rtThreadResume ?_) (timerActivated_rtThreadResume ?_) ⟨?_, ?_⟩) rfl ?_
    · simpa [hne] using hstat
    · simpa [hne] using hstat
    · simpa [hne] using (hinv.quiet waiter).1
    · simpa [hne] using (hinv.quiet waiter).2
    · obtain ⟨hfree, hbinary, -, -, -⟩ := hinv.consistent mid
      rw [howner] at hfree
      refine ⟨by simpa using hfree, hbinary, by simp, fun other hother => ?_, by simp⟩
      rintro heq
      cases heq
      simp [hlist, hnodup] at hother
  | freed tid mid hout howner hhold hlist =>
    apply inv_setMutex (inv_setThread hinv (silent_changePriority _ _)) rfl
    exact ⟨by simp, le_rfl, fun _ => hlist, by simp, by simp⟩
  | refused tid mid howner => exact inv_setThread hinv (silent_setError (by decide) _)
  | timedOut tid mid hmem =>
    exact inv_wake hinv rfl rfl ⟨(hinv.quiet tid).1, by simp⟩
  | returned tid mid time hpc hstat => exact inv_leave hinv hstat

/-! ## Counting takes and releases -/

/-- The step gives the mutex to the thread: a take that returns `RT_EOK` at
once, or a hand-over. -/
def acquires (tid : Tid) (mid : Mid) : Action Tid Mid × Event Tid Mid → Bool
  | (.take tid' mid' _, .returned _ _ .eok) => tid' = tid ∧ mid' = mid
  | (.release _ mid', .released _ _ (some newOwner)) => newOwner = tid ∧ mid' = mid
  | _ => false

/-- The step is a release by the thread that returns `RT_EOK`. -/
def releases (tid : Tid) (mid : Mid) : Action Tid Mid × Event Tid Mid → Bool
  | (.release tid' mid', .released _ _ _) => tid' = tid ∧ mid' = mid
  | _ => false

/-- How often the thread holds the mutex, as the mutex counts it. -/
def heldBy (st : State Tid Mid) (tid : Tid) (mid : Mid) : ℕ :=
  if (st.mutexes mid).owner = some tid then (st.mutexes mid).hold else 0

/-- No nested take is made when `hold` has reached its largest value. -/
def NestingFits (st : State Tid Mid) : Action Tid Mid → Prop
  | .take tid mid _ => (st.mutexes mid).owner = some tid → (st.mutexes mid).hold ≠ 255
  | _ => True

instance (st : State Tid Mid) :
    (act : Action Tid Mid) → Decidable (NestingFits st act)
  | .take tid mid _ => inferInstanceAs
      (Decidable ((st.mutexes mid).owner = some tid → (st.mutexes mid).hold ≠ 255))
  | .release _ _ | .timeout _ | .run _ | .kill _ | .handleSig _ =>
    inferInstanceAs (Decidable True)

/-- An owned mutex is held at least once, a free one not at all. -/
def HoldCounts (st : State Tid Mid) : Prop :=
  ∀ mid, (st.mutexes mid).hold = 0 ↔ (st.mutexes mid).owner = none

omit [DecidableEq Tid] in
theorem holdCounts_setMutex (hcounts : HoldCounts st)
    (hself : (update (st.mutexes mid)).hold = 0 ↔ (update (st.mutexes mid)).owner = none) :
    HoldCounts (setMutex st mid update) := by
  intro mid'
  by_cases hne : mid' = mid
  · subst hne
    simpa using hself
  · simpa [hne] using hcounts mid'

theorem incHold_of_ne {hold : ℕ} (hbounded : hold < 0x100) (hroom : hold ≠ 255) :
    incHold hold = hold + 1 := by
  rw [incHold]
  omega

theorem holdCounts_step (hinv : Inv st) (hcounts : HoldCounts st) (hfits : NestingFits st act)
    (hstep : step false st act = some (next, event)) : HoldCounts next := by
  cases effect_of_step hinv hstep with
  | nested tid mid time howner =>
    refine holdCounts_setMutex hcounts ?_
    simp [incHold_of_ne (hinv.consistent mid).bounded (hfits howner), howner]
  | acquired tid mid time hfree =>
    refine holdCounts_setMutex hcounts ?_
    simp [(hcounts mid).2 hfree, incHold]
  | noWait tid mid => exact hcounts
  | blocked tid mid time owner hcall htime howner hne =>
    intro mid'
    simpa using hcounts mid'
  | unnested tid mid howner hhold =>
    apply holdCounts_setMutex hcounts
    simp [decHold_eq_zero (hinv.consistent mid).bounded, hhold, howner]
  | handedOver tid mid waiter rest hout howner hhold hlist =>
    exact holdCounts_setMutex hcounts (by simp)
  | freed tid mid hout howner hhold hlist => exact holdCounts_setMutex hcounts (by simp)
  | refused tid mid howner => exact hcounts
  | timedOut tid mid hmem => exact hcounts
  | returned tid mid time hpc hstat => exact hcounts

theorem heldBy_setMutex {mid' : Mid} : heldBy (setMutex st mid update) tid mid' =
      if mid' = mid then
        if (update (st.mutexes mid)).owner = some tid then
          (update (st.mutexes mid)).hold else 0
      else heldBy st tid mid' := by
  by_cases hne : mid' = mid
  · subst hne
    simp [heldBy]
  · simp [heldBy, hne]

omit [DecidableEq Mid] in
@[simp]
theorem heldBy_setThread (st : State Tid Mid) (tid : Tid) (operation : Thread → Thread) :
    heldBy (setThread st tid operation) = heldBy st := rfl

omit [DecidableEq Mid] in
@[simp]
theorem heldBy_wake (st : State Tid Mid) (tid : Tid) (operation : Thread → Thread) :
    heldBy (wake st tid operation) = heldBy st := rfl

omit [DecidableEq Mid] in
@[simp]
theorem heldBy_setPc (st : State Tid Mid) (tid : Tid) (pc : Pc Mid) :
    heldBy (setPc st tid pc) = heldBy st := rfl

/-- One step: what the thread acquires and releases is what `hold` gains and
loses. -/
theorem heldBy_step (hinv : Inv st) (hcounts : HoldCounts st) (hfits : NestingFits st act)
    (hstep : step false st act = some (next, event)) (tid : Tid) (mid : Mid) :
    heldBy st tid mid + (if acquires tid mid (act, event) = true then 1 else 0) =
      heldBy next tid mid + (if releases tid mid (act, event) = true then 1 else 0) := by
  cases effect_of_step hinv hstep with
  | nested tid' mid' time howner =>
    have hinc := incHold_of_ne (hinv.consistent mid').bounded (hfits howner)
    rw [heldBy_setMutex]
    simp only [acquires, releases, heldBy, setThread_mutexes, hinc]
    grind
  | acquired tid' mid' time hfree =>
    have hzero := (hcounts mid').2 hfree
    rw [heldBy_setMutex]
    simp only [acquires, releases, heldBy, setThread_mutexes, hzero, incHold]
    grind
  | noWait tid' mid' => simp [acquires, releases]
  | blocked tid' mid' time owner hcall htime howner hne =>
    simp [acquires, releases, heldBy]
  | unnested tid' mid' howner hhold =>
    have hpositive : (st.mutexes mid').hold ≠ 0 := by
      simp [hcounts mid', howner]
    have hbounded := (hinv.consistent mid').bounded
    have hdec : decHold (st.mutexes mid').hold + 1 = (st.mutexes mid').hold := by
      rw [decHold]
      omega
    rw [heldBy_setMutex]
    simp only [acquires, releases, heldBy]
    grind
  | handedOver tid' mid' waiter rest hout howner hhold hlist =>
    have hne : waiter ≠ tid' := by
      rintro rfl
      exact hinv.not_mem_of_out hout mid' (by simp [hlist])
    rw [heldBy_setMutex, heldBy_wake, heldBy_setThread]
    simp only [acquires, releases, heldBy]
    grind
  | freed tid' mid' hout howner hhold hlist =>
    rw [heldBy_setMutex]
    simp only [acquires, releases, heldBy, setThread_mutexes]
    grind
  | refused tid' mid' howner => simp [acquires, releases]
  | timedOut tid' mid' hmem => simp [acquires, releases]
  | returned tid' mid' time hpc hstat => simp [acquires, releases]

/-- How often the thread has been given the mutex in a trace. -/
def takesOf (tid : Tid) (mid : Mid) (trace : List (Action Tid Mid × Event Tid Mid)) : ℕ :=
  trace.countP (acquires tid mid)

/-- How often the thread has released the mutex in a trace. -/
def releasesOf (tid : Tid) (mid : Mid) (trace : List (Action Tid Mid × Event Tid Mid)) : ℕ :=
  trace.countP (releases tid mid)

theorem heldBy_run {first last : State Tid Mid} {trace : List (Action Tid Mid × Event Tid Mid)}
    (hinv : Inv first) (hcounts : HoldCounts first)
    (hrun : (machine false).RunWith NestingFits first trace last) (tid : Tid) (mid : Mid) :
    heldBy first tid mid + takesOf tid mid trace =
      heldBy last tid mid + releasesOf tid mid trace := by
  induction hrun with
  | nil st => simp [takesOf, releasesOf]
  | @cons first next last act event trace hfits hstep hrest ih =>
    have hone := heldBy_step hinv hcounts hfits hstep tid mid
    have hmany := ih (inv_step hinv hstep) (holdCounts_step hinv hcounts hfits hstep)
    simp only [takesOf, releasesOf, List.countP_cons] at hmany ⊢
    omega

theorem inv_holdCounts_run {priority : Tid → ℕ} {flag : Mid → IpcFlag}
    {trace : List (Action Tid Mid × Event Tid Mid)}
    (hrun : (machine false).RunWith NestingFits (initial priority flag) trace st) :
    Inv st ∧ HoldCounts st := by
  refine hrun.invariant (fun st => Inv st ∧ HoldCounts st) ?_
    ⟨inv_initial priority flag, by simp [HoldCounts, initial, rtMutexInit]⟩
  rintro st act next event ⟨hinv, hcounts⟩ hfits hstep
  exact ⟨inv_step hinv hstep, holdCounts_step hinv hcounts hfits hstep⟩

/-- Mutex ownership.  As long as no nested take overflows `hold`: value, owner
and hold agree; from any state where a thread was not the owner to any later one
where it is, `hold` is the number of its takes less the number of its releases;
a thread waits only for a mutex that has an owner; and two threads are never
both between a take and its release. -/
theorem mutex_ownership {priority : Tid → ℕ} {flag : Mid → IpcFlag} {st : State Tid Mid}
    {past : List (Action Tid Mid × Event Tid Mid)}
    (hpast : (machine false).RunWith NestingFits (initial priority flag) past st)
    (mid : Mid) :
    ((st.mutexes mid).value = 1 ↔ (st.mutexes mid).owner = none) ∧
    ((st.mutexes mid).owner = none ↔ (st.mutexes mid).hold = 0) ∧
    (∀ {recent last}, (machine false).RunWith NestingFits st recent last → ∀ tid,
      (st.mutexes mid).owner ≠ some tid → (last.mutexes mid).owner = some tid →
        takesOf tid mid recent = (last.mutexes mid).hold + releasesOf tid mid recent) ∧
    ((st.mutexes mid).suspendThread ≠ [] → (st.mutexes mid).owner ≠ none) ∧
    (∀ tid tid', releasesOf tid mid past < takesOf tid mid past →
      releasesOf tid' mid past < takesOf tid' mid past → tid = tid') := by
  obtain ⟨hinv, hcounts⟩ := inv_holdCounts_run hpast
  refine ⟨(hinv.consistent mid).free_iff, (hcounts mid).symm, ?_, ?_, ?_⟩
  · intro recent last hrecent tid hnot howner
    have hbalance := heldBy_run hinv hcounts hrecent tid mid
    simpa [heldBy, hnot, howner] using hbalance
  · intro hwaiting hnone
    exact hwaiting ((hinv.consistent mid).idle hnone)
  · intro tid tid' hinside hinside'
    have hstart : HoldCounts (initial priority flag) := by
      simp [HoldCounts, initial, rtMutexInit]
    have howner : ∀ thread, releasesOf thread mid past < takesOf thread mid past →
        (st.mutexes mid).owner = some thread := by
      intro thread hlt
      by_contra hnot
      have hbalance := heldBy_run (inv_initial priority flag) hstart hpast thread mid
      simp only [heldBy, hnot, initial, rtMutexInit, reduceCtorEq, if_false] at hbalance
      omega
    exact Option.some.inj ((howner tid hinside).symm.trans (howner tid' hinside'))

/-- A nested take by the owner, a waiter, one release. -/
theorem mutex_ownership_nested :
    ∃ past st, (machine false).RunWith NestingFits
        (initial (fun _ : Fin 2 => 10) fun _ : Unit => .prio) past st ∧
      (st.mutexes ()).hold = 1 ∧ (st.mutexes ()).suspendThread = [1] ∧
      (st.mutexes ()).owner ≠ none := by
  have hpast : (machine false).RunWith NestingFits
      (initial (fun _ : Fin 2 => 10) fun _ : Unit => .prio) _ _ :=
    Machine.runWith_of_exec
      [.take 0 () (-1), .take 0 () (-1), .take 1 () (-1), .release 0 ()] rfl
  exact ⟨_, _, hpast, rfl, rfl, (mutex_ownership hpast ()).2.2.2.1 (by decide)⟩

/-- What `n + 1` takes in a row by one thread lead to. -/
theorem nestedTakes (priority : Tid → ℕ) (flag : Mid → IpcFlag) (tid : Tid) (mid : Mid) (n : ℕ) :
    ∃ trace last, (machine false).Run (initial priority flag) trace last ∧
      last.canCall tid ∧ (last.mutexes mid).owner = some tid ∧
      (last.mutexes mid).hold = (n + 1) % 0x100 := by
  have hcleared : ∀ st : State Tid Mid, st.canCall tid →
      (setThread st tid (setError .eok)).canCall tid := by
    intro st hcall
    simpa [State.canCall, setError, Thread.runnable] using hcall
  induction n with
  | zero =>
    have hcall : (initial priority flag).canCall tid := by
      simp [State.canCall, initial, Thread.started, Thread.runnable]
    have hstep : (machine false).step (initial priority flag) (.take tid mid 0) =
        some (rtMutexTake (initial priority flag) tid mid 0) := by
      simp [machine, step, hcall]
    refine ⟨_, _, .cons trivial hstep (.nil _), hcleared _ hcall, ?_, ?_⟩
    · simp [initial, rtMutexInit]
    · simp [initial, rtMutexInit, incHold]
  | succ n ih =>
    obtain ⟨trace, last, hrun, hcall, howner, hhold⟩ := ih
    have hstep : (machine false).step last (.take tid mid 0) =
        some (setMutex (setThread last tid (setError .eok)) mid fun mutex =>
          { mutex with hold := incHold mutex.hold }, .returned tid mid .eok) := by
      simp only [machine, step, if_pos hcall, rtMutexTake, if_pos howner]
    refine ⟨_, _, hrun.snoc trivial hstep, hcleared _ hcall, ?_, ?_⟩
    · simpa using howner
    · simp [hhold, incHold]

/-- 256 takes in a row leave an owned mutex with `hold = 0`. -/
theorem not_holdCounts_of_nesting :
    ∃ trace last, (machine false).Run
        (initial (fun _ : Unit => 10) fun _ : Unit => .prio) trace last ∧
      (last.mutexes ()).owner = some () ∧ (last.mutexes ()).hold = 0 := by
  obtain ⟨trace, last, hrun, -, howner, hhold⟩ :=
    nestedTakes (fun _ : Unit => 10) (fun _ : Unit => .prio) () () 255
  exact ⟨trace, last, hrun, howner, hhold⟩

end RtThread.Mutex
