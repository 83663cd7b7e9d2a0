import RtThread.Core.Machine
import RtThread.Kernel.Thread

set_option linter.all false

/-!
# The watermark queue of the virtual bus

`watermark_queue.h` lets producers raise a level up to one above the high mark
and sleep there, and wakes all of them when a consumer lowers the level to the
low mark.  The wake-up is bound to the equality of level and low mark, so no
producer is forgotten as long as the level goes down in steps of one; but the
test for level zero is made before interrupts are disabled, and a second
consumer that has passed it carries the level below zero.
-/

namespace RtThread.Vbus

open Function
open RtThread.Core
open RtThread.Kernel (Err)

/-- The number of values of an `unsigned int`. -/
@[irreducible]
def wordSize : ℕ := 2 ^ 32

/-- `n + 1` and `n - 1` of an `unsigned int`. -/
def wordSucc (n : ℕ) : ℕ := if n + 1 = wordSize then 0 else n + 1

def wordPred (n : ℕ) : ℕ := if n = 0 then wordSize - 1 else n - 1

/-- `struct rt_watermark_queue`. -/
structure RtWatermarkQueue (Tid : Type*) where
  level : ℕ
  highMark : ℕ
  lowMark : ℕ
  suspendedThreads : List Tid

/-- How one turn of the loop in `rt_wm_que_inc` ends. -/
inductive IncTurn
  | raised | full | sleeps

section Operations

variable {Tid : Type*}

def rtWmQueInit (low high : ℕ) : RtWatermarkQueue Tid :=
  ⟨0, high, low, []⟩

namespace RtWatermarkQueue

variable (wg : RtWatermarkQueue Tid)

/-- `wg->level++`, which stays at the largest number instead of wrapping round. -/
def raise : RtWatermarkQueue Tid :=
  { wg with level := if wordSucc wg.level = 0 then wordSize - 1 else wordSucc wg.level }

/-- `wg->level--`. -/
def lower : RtWatermarkQueue Tid :=
  { wg with level := wordPred wg.level }

/-- One turn of the loop in `rt_wm_que_inc`; the newest sleeper is first in the list. -/
def incTurn (tid : Tid) (timeout : ℤ) : RtWatermarkQueue Tid × IncTurn :=
  if wg.highMark < wg.level then
    if timeout = 0 then (wg, .full)
    else ({ wg with suspendedThreads := tid :: wg.suspendedThreads }, .sleeps)
  else (wg.raise, .raised)

/-- What `rt_wm_que_dec` does with interrupts disabled, and the threads it resumes. -/
def dec : RtWatermarkQueue Tid × List Tid :=
  if wg.lower.level = wg.lowMark then
    ({ wg.lower with suspendedThreads := [] }, wg.suspendedThreads)
  else (wg.lower, [])

end RtWatermarkQueue

end Operations

/-- Where a thread is: outside, suspended in `rt_wm_que_inc`, resumed there with
`thread->error`, or in `rt_wm_que_dec` after the test of the level. -/
inductive WmPc
  | out
  | asleep (timeout : ℤ)
  | woken (timeout : ℤ) (err : Err)
  | lowering

structure WmState (Tid : Type*) where
  queue : RtWatermarkQueue Tid
  pc : Tid → WmPc

inductive WmAction (Tid : Type*)
  | inc (tid : Tid) (timeout : ℤ)
  /-- A resumed thread comes back from `rt_schedule`. -/
  | resume (tid : Tid)
  /-- The thread timer of a suspended thread expires. -/
  | expire (tid : Tid)
  /-- `rt_wm_que_dec` up to the test of the level, and the rest of it. -/
  | dec (tid : Tid)
  | lower (tid : Tid)

inductive WmEvent
  | raised
  | failed (err : Err)
  | slept
  | lowered
  | moved
  deriving DecidableEq

section Machine

variable {Tid : Type*} [DecidableEq Tid]

def WmState.setPc (st : WmState Tid) (tid : Tid) (pc : WmPc) : WmState Tid :=
  { st with pc := update st.pc tid pc }

/-- `rt_thread_resume`. -/
def WmPc.resumed : WmPc → WmPc
  | .asleep timeout => .woken timeout .eok
  | pc => pc

/-- `rt_thread_resume` of every thread of a list. -/
def wake (pc : Tid → WmPc) (threads : List Tid) (tid : Tid) : WmPc :=
  if tid ∈ threads then (pc tid).resumed else pc tid

/-- The loop of `rt_wm_que_inc` from its test on. -/
def wmTurn (st : WmState Tid) (tid : Tid) (timeout : ℤ) : WmState Tid × WmEvent :=
  match st.queue.incTurn tid timeout with
  | (queue, .raised) => ({ st with queue := queue }.setPc tid .out, .raised)
  | (queue, .full) => ({ st with queue := queue }.setPc tid .out, .failed .efull)
  | (queue, .sleeps) => ({ st with queue := queue }.setPc tid (.asleep timeout), .slept)

def wmStep (st : WmState Tid) : WmAction Tid → Option (WmState Tid × WmEvent)
  | .inc tid timeout =>
    match st.pc tid with
    | .out => some (wmTurn st tid timeout)
    | _ => none
  | .resume tid =>
    match st.pc tid with
    | .woken timeout .eok => some (wmTurn st tid timeout)
    | .woken _ err => some (st.setPc tid .out, .failed err)
    | _ => none
  | .expire tid =>
    match st.pc tid with
    | .asleep timeout =>
      if 0 < timeout then
        some ({ st with
          queue := { st.queue with
            suspendedThreads := st.queue.suspendedThreads.erase tid } }.setPc tid
              (.woken timeout .etimeout), .moved)
      else none
    | _ => none
  | .dec tid =>
    match st.pc tid with
    | .out => if st.queue.level = 0 then some (st, .moved)
      else some (st.setPc tid .lowering, .moved)
    | _ => none
  | .lower tid =>
    match st.pc tid with
    | .lowering =>
      some (⟨st.queue.dec.1,
        wake (update st.pc tid .out) st.queue.dec.2⟩, .lowered)
    | _ => none

def wmMachine : Machine (WmState Tid) (WmAction Tid) WmEvent where
  step := wmStep

/-- After `rt_wm_que_init`. -/
def wmInit (low high : ℕ) : WmState Tid :=
  ⟨rtWmQueInit low high, fun _ => .out⟩

/-- The level is at most one above the high mark, and above the low mark while there
are producers asleep, each of which is in the list. -/
structure NoWakeupLost (st : WmState Tid) : Prop where
  bounded : st.queue.highMark < wordSize - 1 → st.queue.level ≤ st.queue.highMark + 1
  above : st.queue.suspendedThreads ≠ [] → st.queue.lowMark < st.queue.level
  listed : ∀ tid timeout, st.pc tid = .asleep timeout → tid ∈ st.queue.suspendedThreads

/-- The level is not zero when it is lowered, or the high mark is so large that level
zero minus one does not exceed it by more than one. -/
def LoweredAboveZero (st : WmState Tid) : WmAction Tid → Prop
  | .lower _ => st.queue.level ≠ 0 ∨ wordSize - 1 ≤ st.queue.highMark + 1
  | _ => True

end Machine

/-! ## The level between the marks -/

section Level

variable {Tid : Type*} {wg : RtWatermarkQueue Tid}

/-- What all operations keep of the queue itself. -/
structure WmInv (wg : RtWatermarkQueue Tid) : Prop where
  low_le : wg.lowMark ≤ wg.highMark
  high_lt : wg.highMark < wordSize
  level_lt : wg.level < wordSize
  bounded : wg.level ≤ wg.highMark + 1
  above : wg.suspendedThreads ≠ [] → wg.lowMark < wg.level

theorem level_raise (wg : RtWatermarkQueue Tid) :
    wg.raise.level = if wg.level + 1 = wordSize then wg.level else wg.level + 1 := by
  simp only [RtWatermarkQueue.raise, wordSucc]
  by_cases hmax : wg.level + 1 = wordSize
  · simp only [if_pos hmax, if_true]
    omega
  · simp only [if_neg hmax, Nat.succ_ne_zero, if_false]

theorem level_lower (hlevel : wg.level ≠ 0) :
    wg.lower.level = wg.level - 1 :=
  if_neg hlevel

theorem level_lower_zero (hlevel : wg.level = 0) : wg.lower.level = wordSize - 1 :=
  if_pos hlevel

theorem WmInv.raise (hinv : WmInv wg) (hroom : ¬wg.highMark < wg.level) : WmInv wg.raise := by
  have hlt := hinv.level_lt
  have hraise := level_raise wg
  refine ⟨hinv.low_le, hinv.high_lt, ?_, ?_, ?_⟩
  · rw [hraise]
    split <;> omega
  · change wg.raise.level ≤ wg.highMark + 1
    rw [hraise]
    split <;> omega
  · intro hnonempty
    have habove := hinv.above hnonempty
    change wg.lowMark < wg.raise.level
    rw [hraise]
    split <;> omega

/-- Only a producer that finds the level above the high mark goes to sleep. -/
theorem WmInv.incTurn (hinv : WmInv wg) (tid : Tid) (timeout : ℤ) :
    WmInv (wg.incTurn tid timeout).1 := by
  rw [RtWatermarkQueue.incTurn]
  split
  · rename_i hfull
    split
    · exact hinv
    · exact ⟨hinv.low_le, hinv.high_lt, hinv.level_lt, hinv.bounded,
        fun _ => hinv.low_le.trans_lt hfull⟩
  · rename_i hroom
    exact hinv.raise hroom

theorem WmInv.suspended (hinv : WmInv wg) {threads : List Tid}
    (hempty : wg.suspendedThreads = [] → threads = []) :
    WmInv { wg with suspendedThreads := threads } :=
  ⟨hinv.low_le, hinv.high_lt, hinv.level_lt, hinv.bounded,
    fun hnonempty => hinv.above fun hnil => hnonempty (hempty hnil)⟩

theorem RtWatermarkQueue.dec_of_eq (hmark : wg.lower.level = wg.lowMark) :
    wg.dec = ({ wg.lower with suspendedThreads := [] }, wg.suspendedThreads) :=
  if_pos hmark

theorem RtWatermarkQueue.dec_of_ne (hmark : wg.lower.level ≠ wg.lowMark) :
    wg.dec = (wg.lower, []) :=
  if_neg hmark

theorem level_dec (wg : RtWatermarkQueue Tid) : wg.dec.1.level = wg.lower.level := by
  by_cases hmark : wg.lower.level = wg.lowMark
  · rw [RtWatermarkQueue.dec_of_eq hmark]
  · rw [RtWatermarkQueue.dec_of_ne hmark]

theorem WmInv.lower_bounded (hinv : WmInv wg)
    (hlevel : wg.level ≠ 0 ∨ wordSize - 1 ≤ wg.highMark + 1) :
    wg.lower.level < wordSize ∧ wg.lower.level ≤ wg.highMark + 1 := by
  have hhigh := hinv.high_lt
  have hlt := hinv.level_lt
  have hbounded := hinv.bounded
  by_cases hzero : wg.level = 0
  · rw [level_lower_zero hzero]
    omega
  · rw [level_lower hzero]
    omega

/-- From the low mark on, the list is empty: the level passes the mark in a step of one. -/
theorem WmInv.dec (hinv : WmInv wg)
    (hlevel : wg.level ≠ 0 ∨ wordSize - 1 ≤ wg.highMark + 1) : WmInv wg.dec.1 := by
  have hnext := hinv.lower_bounded hlevel
  by_cases hmark : wg.lower.level = wg.lowMark
  · rw [RtWatermarkQueue.dec_of_eq hmark]
    exact ⟨hinv.low_le, hinv.high_lt, hnext.1, hnext.2, fun hnonempty => absurd rfl hnonempty⟩
  · rw [RtWatermarkQueue.dec_of_ne hmark]
    refine ⟨hinv.low_le, hinv.high_lt, hnext.1, hnext.2, fun hnonempty => ?_⟩
    have habove := hinv.above hnonempty
    have hlower := level_lower (Nat.ne_of_gt (Nat.zero_lt_of_lt habove))
    change wg.lowMark < wg.lower.level
    omega

theorem WmInv.dec_zero (hinv : WmInv wg) (hlevel : wg.level = 0)
    (hhigh : wg.highMark + 1 < wordSize - 1) :
    wg.dec.1.level = wordSize - 1 ∧ wg.dec.1.highMark = wg.highMark := by
  have hlow := hinv.low_le
  have hlower := level_lower_zero hlevel
  rw [RtWatermarkQueue.dec_of_ne (by omega)]
  exact ⟨hlower, rfl⟩

end Level

section Runs

variable {Tid : Type*} [DecidableEq Tid] {st next : WmState Tid} {event : WmEvent}

/-- Every producer asleep is in the list. -/
def Listed (st : WmState Tid) : Prop :=
  ∀ tid timeout, st.pc tid = .asleep timeout → tid ∈ st.queue.suspendedThreads

theorem listed_setPc {queue : RtWatermarkQueue Tid} {tid : Tid} {pc : WmPc}
    (hlisted : ∀ other timeout, other ≠ tid → st.pc other = .asleep timeout →
      other ∈ queue.suspendedThreads)
    (hpc : ∀ timeout, pc = .asleep timeout → tid ∈ queue.suspendedThreads) :
    Listed ({ st with queue := queue }.setPc tid pc) := by
  intro other timeout hasleep
  change update st.pc tid pc other = .asleep timeout at hasleep
  by_cases heq : other = tid
  · subst heq
    rw [update_self] at hasleep
    exact hpc timeout hasleep
  · rw [update_of_ne heq] at hasleep
    exact hlisted other timeout heq hasleep

theorem listed_wmTurn (hlisted : Listed st) (tid : Tid) (timeout : ℤ) :
    Listed (wmTurn st tid timeout).1 := by
  simp only [wmTurn, RtWatermarkQueue.incTurn]
  split_ifs
  · exact listed_setPc (fun other timeout _ => hlisted other timeout) (by simp)
  · exact listed_setPc (fun other timeout _ hasleep =>
      List.mem_cons_of_mem tid (hlisted other timeout hasleep)) fun _ _ => List.mem_cons_self
  · exact listed_setPc (fun other timeout _ => hlisted other timeout) (by simp)

theorem wmTurn_queue (st : WmState Tid) (tid : Tid) (timeout : ℤ) :
    (wmTurn st tid timeout).1.queue = (st.queue.incTurn tid timeout).1 := by
  rw [wmTurn]
  split <;> simp_all [WmState.setPc]

/-- The threads that `rt_wm_que_dec` leaves asleep are still in the list. -/
theorem listed_dec (hlisted : Listed st) (tid : Tid) :
    Listed ⟨st.queue.dec.1, wake (update st.pc tid .out) st.queue.dec.2⟩ := by
  intro other timeout hasleep
  have hbefore : st.pc other = .asleep timeout ∧ other ∉ st.queue.dec.2 := by
    simp only [wake] at hasleep
    split at hasleep
    · cases hpc : update st.pc tid .out other <;>
        simp [hpc, WmPc.resumed] at hasleep
    · rename_i hnotMem
      refine ⟨?_, hnotMem⟩
      by_cases heq : other = tid
      · subst heq
        rw [update_self] at hasleep
        cases hasleep
      · rwa [update_of_ne heq] at hasleep
  have hmem := hlisted other timeout hbefore.1
  have hnotMem := hbefore.2
  by_cases hmark : st.queue.lower.level = st.queue.lowMark
  · rw [RtWatermarkQueue.dec_of_eq hmark] at hnotMem
    exact absurd hmem hnotMem
  · rw [RtWatermarkQueue.dec_of_ne hmark]
    exact hmem

theorem wmStep_inv {act : WmAction Tid} (hinv : WmInv st.queue ∧ Listed st)
    (hgood : LoweredAboveZero st act) (hstep : wmStep st act = some (next, event)) :
    WmInv next.queue ∧ Listed next := by
  obtain ⟨hqueue, hlisted⟩ := hinv
  have hturn : ∀ tid timeout, wmTurn st tid timeout = (next, event) →
      WmInv next.queue ∧ Listed next := by
    intro tid timeout hturn
    have hqueueTurn := wmTurn_queue st tid timeout
    have hlistedTurn := listed_wmTurn hlisted tid timeout
    rw [hturn] at hqueueTurn hlistedTurn
    refine ⟨?_, hlistedTurn⟩
    rw [hqueueTurn]
    exact hqueue.incTurn tid timeout
  have hmove : ∀ tid pc, (∀ timeout, pc ≠ WmPc.asleep timeout) →
      WmInv (st.setPc tid pc).queue ∧ Listed (st.setPc tid pc) := by
    intro tid pc hpc
    exact ⟨hqueue, listed_setPc (fun other timeout _ => hlisted other timeout)
      fun timeout hasleep => absurd hasleep (hpc timeout)⟩
  cases act with
  | inc tid timeout =>
    simp only [wmStep] at hstep
    split at hstep
    · exact hturn tid timeout (Option.some.inj hstep)
    · cases hstep
  | resume tid =>
    simp only [wmStep] at hstep
    split at hstep
    · rename_i timeout hpc
      exact hturn tid timeout (Option.some.inj hstep)
    · cases hstep
      exact hmove tid .out (by simp)
    · cases hstep
  | expire tid =>
    simp only [wmStep] at hstep
    split at hstep
    · split at hstep
      · cases hstep
        refine ⟨hqueue.suspended fun hnil => by rw [hnil]; rfl,
          listed_setPc (fun other timeout hne hasleep => ?_) (by simp)⟩
        exact (List.mem_erase_of_ne hne).2 (hlisted other timeout hasleep)
      · cases hstep
    · cases hstep
  | dec tid =>
    simp only [wmStep] at hstep
    split at hstep
    · split at hstep
      · cases hstep
        exact ⟨hqueue, hlisted⟩
      · cases hstep
        exact hmove tid .lowering (by simp)
    · cases hstep
  | lower tid =>
    simp only [wmStep] at hstep
    split at hstep
    · cases hstep
      exact ⟨hqueue.dec hgood, listed_dec hlisted tid⟩
    · cases hstep

/-- Marks with the low one first.  The level stays within one of the high mark and no
sleeping producer is forgotten, in every state of a run, exactly when the level is never
lowered at zero. -/
theorem watermark_kept_iff {low high : ℕ} (hle : low ≤ high) (hhigh : high < wordSize)
    {trace : List (WmAction Tid × WmEvent)} {last : WmState Tid}
    (hrun : wmMachine.Run (wmInit low high) trace last) :
    (wmMachine.RunWith (fun st _ => NoWakeupLost st) (wmInit low high) trace last ∧
        NoWakeupLost last) ↔
      wmMachine.RunWith LoweredAboveZero (wmInit low high) trace last := by
  refine hrun.always_iff (fun st => WmInv st.queue ∧ Listed st) NoWakeupLost ?_ ?_ ?_ ?_
  · rintro st ⟨hqueue, hlisted⟩
    exact ⟨fun _ => hqueue.bounded, hqueue.above, hlisted⟩
  · intro st action next event hinv hgood hstep
    exact wmStep_inv hinv hgood hstep
  · rintro st action next event ⟨hqueue, -⟩ hbad hstep hkept
    cases action with
    | lower tid =>
      simp only [LoweredAboveZero, not_or, not_not, not_le] at hbad
      obtain ⟨hlevel, hmark⟩ := hqueue.dec_zero hbad.1 hbad.2
      simp only [wmMachine, wmStep] at hstep
      split at hstep
      · cases hstep
        have hbounded := hkept.bounded
        simp only [hlevel, hmark] at hbounded
        omega
      · cases hstep
    | _ => exact hbad trivial
  · refine ⟨⟨hle, hhigh, Nat.zero_lt_of_lt hhigh, Nat.zero_le _,
      fun hnonempty => absurd rfl hnonempty⟩, ?_⟩
    intro tid timeout hasleep
    cases hasleep

instance (st : WmState Tid) : (act : WmAction Tid) → Decidable (LoweredAboveZero st act)
  | .lower _ => inferInstanceAs (Decidable (_ ∨ _))
  | .inc _ _ | .resume _ | .expire _ | .dec _ => inferInstanceAs (Decidable True)

/-- A producer sleeps above the high mark until the level is down to the low one. -/
def scheduleDrain (producer consumer : Tid) : List (WmAction Tid) :=
  [.inc producer 0, .inc producer 0, .inc producer (-1), .dec consumer, .lower consumer,
    .dec consumer, .lower consumer, .resume producer]

theorem isSome_scheduleDrain : (wmMachine.exec LoweredAboveZero (wmInit 0 1)
    (scheduleDrain false true)).isSome = true := by
  decide +kernel

theorem watermark_kept_scheduleDrain : ∃ trace, ∃ last : WmState Bool,
    wmMachine.RunWith (fun st _ => NoWakeupLost st) (wmInit 0 1) trace last ∧
      trace.map Prod.snd = [.raised, .raised, .slept, .moved, .lowered, .moved, .lowered, .raised] ∧
        last.queue.level = 1 := by
  have hrun := Machine.runWith_of_isSome _ isSome_scheduleDrain
  exact ⟨_, _, ((watermark_kept_iff (by decide) (by decide +kernel) hrun.run).2 hrun).1,
    by decide +kernel, by decide +kernel⟩

/-- Two consumers find the level at one, and both lower it. -/
def scheduleBelowZero (first second : Tid) : List (WmAction Tid) :=
  [.inc first 0, .dec first, .dec second, .lower first, .lower second, .inc first (-1)]

theorem isSome_scheduleBelowZero : (wmMachine.exec (fun _ _ => True) (wmInit 0 1)
    (scheduleBelowZero false true)).isSome = true := by
  decide +kernel

/-- The level is far above the high mark, and a producer goes to sleep in a queue that
is empty. -/
theorem level_below_zero : ∃ trace, ∃ last : WmState Bool,
    wmMachine.Run (wmInit 0 1) trace last ∧
      trace.map Prod.snd = [.raised, .moved, .moved, .lowered, .lowered, .slept] ∧
        last.queue.level = wordSize - 1 ∧ ¬NoWakeupLost last := by
  refine ⟨_, _, Machine.runWith_of_isSome _ isSome_scheduleBelowZero, by decide +kernel,
    by decide +kernel, fun hkept => ?_⟩
  exact absurd (hkept.bounded (by decide +kernel)) (by decide +kernel)

end Runs

end RtThread.Vbus
