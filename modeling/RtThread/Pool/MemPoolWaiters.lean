import RtThread.Pool.MemPoolBlocks

set_option linter.all false

/-!
# The waiters of a memory pool

`suspend_thread_count` is meant to be the length of the list of waiting threads, and
`rt_mp_free` trusts it: with a positive count it takes the head of the list for a thread.
`rt_mp_alloc` and `rt_mp_free` keep the two together, but `rt_thread_timeout` takes a
waiter off the list and knows nothing of the pool, so that they agree exactly as long as
the timer of no waiter expires.
-/

namespace RtThread.MemPool

open RtThread.Core
open RtThread.Kernel
open RtThread.Mailbox
open RtThread.SmallMem

variable {Tid : Type*} {cfg : HeapConfig}

def CountsWaiters (st : State Tid) : Prop :=
  st.mp.suspendThreadCount = st.mp.suspendThread.length

/-- The step is not the expiry of the timer of a waiter. -/
def NoExpiry (st : State Tid) : Action Tid → Prop
  | .timeout tid => tid ∉ st.mp.suspendThread
  | _ => True

instance [DecidableEq Tid] (st : State Tid) :
    (act : Action Tid) → Decidable (NoExpiry st act)
  | .timeout _ => inferInstanceAs (Decidable (_ ∉ _))
  | .alloc _ _ | .free _ | .resume _ | .retry _ | .tick => .isTrue trivial

structure WaitersInv (st : State Tid) : Prop where
  count : CountsWaiters st
  nodup : st.mp.suspendThread.Nodup
  suspended : ∀ tid ∈ st.mp.suspendThread, (st.threads tid).stat = .suspend

section Steps

variable {st : State Tid} {tid : Tid}

theorem WaitersInv.not_mem (hinv : WaitersInv st) (hrunnable : (st.threads tid).runnable) :
    tid ∉ st.mp.suspendThread := fun hmem => hrunnable.stat_ne (hinv.suspended tid hmem)

/-- Something happens to a thread that does not wait. -/
theorem WaitersInv.stat_modify [DecidableEq Tid] (hinv : WaitersInv st)
    (hnot : tid ∉ st.mp.suspendThread) (operation : Thread → Thread) {other : Tid}
    (hother : other ∈ st.mp.suspendThread) :
    (modify st.threads tid operation other).stat = .suspend := by
  have hne : other ≠ tid := by
    rintro rfl
    exact hnot hother
  rw [modify_of_ne _ _ hne]
  exact hinv.suspended other hother

variable [DecidableEq Tid]

theorem waitersInv_waitForBlock (hinv : WaitersInv st)
    (hrunnable : (st.threads tid).runnable) (time : ℤ) :
    WaitersInv (waitForBlock st tid time) where
  count := congrArg (· + 1) hinv.count
  nodup := List.nodup_cons.2 ⟨hinv.not_mem hrunnable, hinv.nodup⟩
  suspended other hother := by
    dsimp only [waitForBlock, setPc, suspendThread] at hother ⊢
    rw [modify_modify]
    rcases List.mem_cons.1 hother with rfl | hother
    · rw [modify_self, stat_startThreadTimer]
      exact stat_rtThreadSuspend hrunnable
    · exact hinv.stat_modify (hinv.not_mem hrunnable) _ hother

theorem waitersInv_allocTurn (cfg : HeapConfig) (hinv : WaitersInv st)
    (hrunnable : (st.threads tid).runnable) (time : ℤ) :
    WaitersInv (allocTurn cfg st tid time).1 ∧
      (allocTurn cfg st tid time).2 ≠ .wild := by
  rw [allocTurn]
  split
  · split
    · exact ⟨⟨hinv.count, hinv.nodup,
        fun other hother => hinv.stat_modify (hinv.not_mem hrunnable) _ hother⟩, by simp⟩
    · exact ⟨waitersInv_waitForBlock hinv hrunnable time, by simp⟩
  · rw [takeBlock]
    split
    · exact ⟨hinv, by simp⟩
    · exact ⟨⟨hinv.count, hinv.nodup, hinv.suspended⟩, by simp⟩

/-- As long as the count is right, a waiter is resumed and counted off. -/
theorem waitersInv_resumeWaiter (hinv : WaitersInv st) :
    WaitersInv (resumeWaiter st).1 ∧ (resumeWaiter st).2 ≠ .wild := by
  have hcount := hinv.count
  rw [CountsWaiters] at hcount
  rw [resumeWaiter]
  split
  · exact ⟨hinv, by simp⟩
  · next hpositive =>
      split
      · next head rest hlist =>
          have hsuspended : (modify st.threads head (setError .eok) head).stat = .suspend := by
            rw [modify_self]
            exact hinv.suspended head (by rw [hlist]; exact List.mem_cons_self)
          have hnodup := hinv.nodup
          rw [hlist] at hcount hnodup
          rw [List.nodup_cons] at hnodup
          rw [rtThreadResumeFrom, if_pos hsuspended, hlist, List.erase_cons_head]
          refine ⟨⟨?_, hnodup.2, fun other hother => ?_⟩, by simp⟩
          · rw [CountsWaiters, hcount]
            rfl
          · have hne : other ≠ head := by
              rintro rfl
              exact hnodup.1 hother
            dsimp only
            rw [modify_of_ne _ _ hne, modify_of_ne _ _ hne]
            exact hinv.suspended other (by rw [hlist]; exact List.mem_cons_of_mem _ hother)
      · next hlist =>
          rw [hlist] at hcount
          exact absurd hcount hpositive

theorem waitersInv_rtMpFree (cfg : HeapConfig) (hinv : WaitersInv st) (block : ℕ) :
    WaitersInv (rtMpFree cfg st block).1 ∧ (rtMpFree cfg st block).2 ≠ .wild := by
  rw [rtMpFree]
  split
  · exact ⟨hinv, by simp⟩
  · dsimp only
    split
    · exact waitersInv_resumeWaiter ⟨hinv.count, hinv.nodup, hinv.suspended⟩
    · exact ⟨hinv, by simp⟩

/-- The timer of a thread that does not wait for the pool. -/
theorem waitersInv_timeoutThread (hinv : WaitersInv st)
    (hnot : tid ∉ st.mp.suspendThread) : WaitersInv (timeoutThread st tid) := by
  have hlist : (timeoutThread st tid).mp.suspendThread = st.mp.suspendThread :=
    List.erase_of_not_mem hnot
  refine ⟨?_, ?_, fun other hother => ?_⟩
  · rw [CountsWaiters, hlist]
    exact hinv.count
  · rw [hlist]
    exact hinv.nodup
  · rw [hlist] at hother
    exact hinv.stat_modify hnot _ hother

/-- The timer of a waiter: the list gets shorter, and the count does not. -/
theorem not_countsWaiters_timeoutThread (hcount : CountsWaiters st)
    (hmem : tid ∈ st.mp.suspendThread) : ¬ CountsWaiters (timeoutThread st tid) := by
  have hlength := List.length_erase_of_mem hmem
  have hpos := List.length_pos_of_mem hmem
  rw [CountsWaiters] at hcount ⊢
  dsimp only [timeoutThread]
  omega

/-- A step that is not the expiry of a waiter keeps the count right, and does not touch the
head of an empty list. -/
theorem step_waitersInv {next : State Tid} {act : Action Tid} {event : Event Tid}
    (hinv : WaitersInv st) (hgood : NoExpiry st act)
    (hstep : step cfg st act = some (next, event)) :
    WaitersInv next ∧ event ≠ .wild := by
  cases act with
  | alloc tid time =>
    simp only [step, Option.ite_none_right_eq_some, Option.some.injEq] at hstep
    obtain ⟨⟨-, hrunnable⟩, hstep⟩ := hstep
    have hturn := waitersInv_allocTurn cfg hinv hrunnable time
    rw [rtMpAlloc] at hstep
    rwa [hstep] at hturn
  | free block =>
    simp only [step, Option.ite_none_right_eq_some, Option.some.injEq] at hstep
    have hfreed := waitersInv_rtMpFree cfg hinv block
    rwa [hstep.2] at hfreed
  | timeout tid =>
    simp only [step, Option.ite_none_right_eq_some, Option.some.injEq, Prod.mk.injEq] at hstep
    obtain ⟨-, rfl, rfl⟩ := hstep
    exact ⟨waitersInv_timeoutThread hinv hgood, by simp⟩
  | resume tid =>
    simp only [step, afterSchedule] at hstep
    split at hstep
    · split at hstep
      · contradiction
      · split at hstep <;>
        · simp only [Option.some.injEq, Prod.mk.injEq] at hstep
          obtain ⟨rfl, rfl⟩ := hstep
          exact ⟨⟨hinv.count, hinv.nodup, hinv.suspended⟩, by simp⟩
    · contradiction
  | retry tid =>
    simp only [step, afterWakeup, Option.ite_none_right_eq_some] at hstep
    obtain ⟨hrunnable, hstep⟩ := hstep
    split at hstep
    · next time _ =>
        have hturn := waitersInv_allocTurn cfg hinv hrunnable time
        rwa [Option.some.inj hstep] at hturn
    · contradiction
  | tick =>
    simp only [step, Option.some.injEq, Prod.mk.injEq] at hstep
    obtain ⟨rfl, rfl⟩ := hstep
    exact ⟨⟨hinv.count, hinv.nodup, hinv.suspended⟩, by simp⟩

theorem step_not_countsWaiters {next : State Tid} {act : Action Tid} {event : Event Tid}
    (hcount : CountsWaiters st) (hbad : ¬ NoExpiry st act)
    (hstep : step cfg st act = some (next, event)) : ¬ CountsWaiters next := by
  cases act with
  | timeout tid =>
    simp only [step, Option.ite_none_right_eq_some, Option.some.injEq, Prod.mk.injEq] at hstep
    rw [← hstep.2.1]
    exact not_countsWaiters_timeoutThread hcount (not_not.1 hbad)
  | alloc tid time => exact absurd trivial hbad
  | free block => exact absurd trivial hbad
  | resume tid => exact absurd trivial hbad
  | retry tid => exact absurd trivial hbad
  | tick => exact absurd trivial hbad

end Steps

theorem rtMpInit_waitersInv {threads : Tid → Thread} {word : ℕ → ℕ}
    {tick mpAddress start size blockSize : ℕ} {st : State Tid}
    (hinit : rtMpInit cfg threads tick mpAddress word start size blockSize = some st) :
    WaitersInv st := by
  rw [rtMpInit] at hinit
  split at hinit
  · contradiction
  · rw [Option.some.injEq] at hinit
    subst hinit
    exact ⟨rfl, List.nodup_nil, by simp⟩

/-- The count is the length of the list in every state of a run, and `rt_mp_free` never
takes the head of an empty list for a thread, exactly when no waiter's timer expires. -/
theorem waiters_counted_iff [DecidableEq Tid] {threads : Tid → Thread} {word : ℕ → ℕ}
    {tick mpAddress start size blockSize : ℕ} {first last : State Tid}
    {trace : List (Action Tid × Event Tid)}
    (hinit : rtMpInit cfg threads tick mpAddress word start size blockSize = some first)
    (hrun : (machine cfg).Run first trace last) :
    ((machine cfg).RunWith (fun st _ => CountsWaiters st) first trace last ∧
        CountsWaiters last ∧ ∀ entry ∈ trace, entry.2 ≠ .wild) ↔
      (machine cfg).RunWith NoExpiry first trace last := by
  have hfirst := rtMpInit_waitersInv hinit
  have hcounted : ((machine cfg).RunWith (fun st _ => CountsWaiters st) first trace last ∧
      CountsWaiters last) ↔ (machine cfg).RunWith NoExpiry first trace last :=
    hrun.always_iff WaitersInv CountsWaiters (fun _ hinv => hinv.count)
      (fun _ _ _ _ hinv hgood hstep => (step_waitersInv hinv hgood hstep).1)
      (fun _ _ _ _ hinv hbad hstep => step_not_countsWaiters hinv.count hbad hstep) hfirst
  constructor
  · rintro ⟨hvisited, hlast, -⟩
    exact hcounted.1 ⟨hvisited, hlast⟩
  · intro hgood
    obtain ⟨hvisited, hlast⟩ := hcounted.2 hgood
    have htame := hgood.traceInvariant
      (fun past st => WaitersInv st ∧ ∀ entry ∈ past, entry.2 ≠ .wild)
      (fun past st action next event hinv hallowed hstep => by
        obtain ⟨hnext, hevent⟩ := step_waitersInv hinv.1 hallowed hstep
        refine ⟨hnext, fun entry hentry => ?_⟩
        rcases List.mem_append.1 hentry with hold | hnew
        · exact hinv.2 entry hold
        · obtain rfl := List.mem_singleton.1 hnew
          exact hevent)
      ⟨hfirst, by simp⟩
    exact ⟨hvisited, hlast, htame.2⟩

theorem isSome_stolenBlock_noExpiry :
    ((machine poolConfig).exec NoExpiry twoBlocks stolenBlock).isSome = true := by
  decide

/-- A waiter gets its block before its timer expires. -/
theorem waiters_counted_stolenBlock :
    ∃ trace last, (machine poolConfig).RunWith NoExpiry twoBlocks trace last ∧
      trace.length = 11 ∧ CountsWaiters last := by
  have hinit : rtMpInit poolConfig (fun _ => Thread.started 10) 0 64 (fun _ => 0) 100 25 7 =
      some twoBlocks := rfl
  have hrun := Machine.runWith_of_isSome stolenBlock isSome_stolenBlock_noExpiry
  exact ⟨_, _, hrun, by decide, ((waiters_counted_iff hinit hrun.run).2 hrun).2.1⟩

/-- The third thread waits for one tick and gives up. -/
def expiredWaiter : List (Action ℕ) :=
  [.alloc 0 0, .alloc 1 0, .alloc 2 1, .tick, .timeout 2, .resume 2]

theorem isSome_expiredWaiter :
    ((machine poolConfig).exec (fun _ _ => True) twoBlocks expiredWaiter).isSome = true := by
  decide

/-- Once a waiter has given up, the count is one and the list is empty, and `rt_mp_free`
takes the head of the list for a thread. -/
theorem not_countsWaiters_of_expiry :
    ∃ trace last, (machine poolConfig).Run twoBlocks trace last ∧
      trace.map Prod.fst = expiredWaiter ∧ ¬ CountsWaiters last ∧
      ((machine poolConfig).step last (.free 104)).map Prod.snd = some .wild := by
  have hrun := Machine.runWith_of_isSome expiredWaiter isSome_expiredWaiter
  exact ⟨_, _, hrun, Machine.actions_of_isSome expiredWaiter isSome_expiredWaiter,
    by rw [CountsWaiters]; decide, by decide⟩

end RtThread.MemPool
