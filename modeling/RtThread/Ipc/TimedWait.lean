import RtThread.Core.Machine
import RtThread.Ipc.Mailbox

set_option linter.all false

/-!
# Waiting with a timeout

`rt_mb_send_wait`, `rt_mb_recv`, `rt_mq_recv`, `rt_mp_alloc`, `rt_data_queue_push` and
`rt_data_queue_pop` wait in copies of one loop: as long as the object has no slot, the thread
arms its timer with the timeout, suspends itself, and looks again when it is woken.  The copies
differ in what they wait for, in where they compute what is left of the timeout, and in the
error they return when nothing is left.

One thread calls the loop.  Other threads and interrupts change the objects, wake the caller
and advance the clock whenever interrupts are enabled, in any order.  The time counts all
ticks since start-up; `rt_tick` is its value in 32 bits.
-/

namespace RtThread.TimedWait

open RtThread.Core
open RtThread.Kernel (Err)
open RtThread.Mailbox (remaining)

/-- The fields that the loops test.  All but `block_free_count` have 16 bits. -/
structure Objects where
  mbEntry : ℕ
  mbSize : ℕ
  mqEntry : ℕ
  blockFreeCount : ℕ
  putIndex : ℕ
  getIndex : ℕ
  queueSize : ℕ
  deriving DecidableEq

/-- Where a loop computes the rest of its timeout. -/
inductive Recompute
  /-- After the wake-up, with interrupts disabled until the next turn. -/
  | locked
  /-- After the wake-up, before interrupts are disabled again. -/
  | unlocked
  /-- Nowhere: every turn has the whole timeout. -/
  | never
  deriving DecidableEq

structure WaitLoop where
  /-- The condition of the loop. -/
  blocked : Objects → Bool
  take : Objects → Objects
  recompute : Recompute
  /-- The error when nothing is left of the timeout. -/
  failure : Err

def rtMbSendWait : WaitLoop where
  blocked objects := objects.mbEntry == objects.mbSize
  take objects := { objects with mbEntry := (objects.mbEntry + 1) % 0x10000 }
  recompute := .locked
  failure := .efull

def rtMbRecv : WaitLoop where
  blocked objects := objects.mbEntry == 0
  take objects := { objects with mbEntry := (objects.mbEntry + 0xffff) % 0x10000 }
  recompute := .locked
  failure := .etimeout

def rtMqRecv : WaitLoop where
  blocked objects := objects.mqEntry == 0
  take objects := { objects with mqEntry := (objects.mqEntry + 0xffff) % 0x10000 }
  recompute := .locked
  failure := .etimeout

def rtMpAlloc : WaitLoop where
  blocked objects := objects.blockFreeCount == 0
  take objects := { objects with blockFreeCount := objects.blockFreeCount - 1 }
  recompute := .unlocked
  failure := .etimeout

/-- The difference of the two 16-bit indices is an `int`. -/
def rtDataQueuePush : WaitLoop where
  blocked objects := (objects.putIndex : ℤ) - objects.getIndex == objects.queueSize
  take objects := { objects with putIndex := (objects.putIndex + 1) % 0x10000 }
  recompute := .never
  failure := .etimeout

def rtDataQueuePop : WaitLoop where
  blocked objects := objects.getIndex == objects.putIndex
  take objects := { objects with getIndex := (objects.getIndex + 1) % 0x10000 }
  recompute := .never
  failure := .etimeout

/-- Where the caller is. -/
inductive Pc
  | out
  /-- Suspended, with the thread timer armed to expire at `expiry`; `tick` is the value of
  `rt_tick` that the caller noted. -/
  | asleep (timeout : ℤ) (tick expiry : ℕ)
  /-- Woken with `thread->error`, which stops the timer, and not running yet. -/
  | woken (timeout : ℤ) (tick : ℕ) (err : Err)
  /-- In front of `rt_hw_interrupt_disable`, with the rest of the timeout as it was at
  `since`. -/
  | retrying (timeout : ℤ) (since : ℕ)
  /-- Returned an error for want of a slot. -/
  | gaveUp (err : Err)
  /-- The assertion of `rt_timer_start` on the length of the timeout failed. -/
  | asserted

structure State where
  time : ℕ
  objects : Objects
  /-- The time and the timeout of the last call. -/
  start : ℕ
  total : ℕ
  pc : Pc

inductive Action
  /-- The caller disables interrupts, with a positive timeout. -/
  | call (timeout : ℕ)
  /-- The caller runs on from `rt_schedule`, or from the place where it was preempted. -/
  | run
  /-- The caller is resumed by a thread or an interrupt. -/
  | wake (err : Err)
  /-- The thread timer expires. -/
  | expire
  /-- Other threads and interrupts use the objects. -/
  | other (objects : Objects)
  | tick
  deriving DecidableEq

inductive Event
  | slept
  | took
  | failed (err : Err)
  | moved

def rtTickGet (st : State) : ℕ :=
  st.time % 0x100000000

/-- The bound of the assertion `init_tick < RT_TICK_MAX / 2`. -/
def halfTickMax : ℤ := 0x7fffffff

/-- One turn of the loop, with interrupts disabled. -/
def turn (loop : WaitLoop) (st : State) (timeout : ℤ) : State × Event :=
  if loop.blocked st.objects = true then
    if timeout = 0 then ({ st with pc := .gaveUp loop.failure }, .failed loop.failure)
    else if timeout < halfTickMax then
      ({ st with
          pc := .asleep timeout (rtTickGet st) (st.time + timeout.toNat) }, .slept)
    else ({ st with pc := .asserted }, .moved)
  else ({ st with objects := loop.take st.objects, pc := .out }, .took)

/-- The caller comes back from `rt_schedule`. -/
def afterSchedule (loop : WaitLoop) (st : State) (timeout : ℤ) (tick : ℕ) (err : Err) :
    State × Event :=
  if err ≠ .eok then ({ st with pc := .out }, .failed err)
  else
    match loop.recompute with
    | .locked => turn loop st (remaining timeout (rtTickGet st) tick)
    | .unlocked =>
      ({ st with pc := .retrying (remaining timeout (rtTickGet st) tick) st.time },
        .moved)
    | .never => turn loop st timeout

def Pc.isOut : Pc → Bool
  | .out => true
  | .gaveUp _ => true
  | _ => false

def step (loop : WaitLoop) (st : State) : Action → Option (State × Event)
  | .call timeout =>
    if st.pc.isOut = true ∧ 0 < timeout ∧ timeout < 0x80000000 then
      some (turn loop { st with start := st.time, total := timeout } timeout)
    else none
  | .run =>
    match st.pc with
    | .woken timeout tick err => some (afterSchedule loop st timeout tick err)
    | .retrying timeout _ => some (turn loop st timeout)
    | _ => none
  | .wake err =>
    match st.pc with
    | .asleep timeout tick _ => some ({ st with pc := .woken timeout tick err }, .moved)
    | _ => none
  | .expire =>
    match st.pc with
    | .asleep timeout tick expiry =>
      if expiry ≤ st.time then
        some ({ st with pc := .woken timeout tick .etimeout }, .moved)
      else none
    | _ => none
  | .other objects => some ({ st with objects := objects }, .moved)
  | .tick => some ({ st with time := st.time + 1 }, .moved)

def machine (loop : WaitLoop) : Machine State Action Event where
  step := step loop

/-- Nobody waits yet. -/
def initial (time : ℕ) (objects : Objects) : State where
  time := time
  objects := objects
  start := time
  total := 0
  pc := .out

/-! ## The deadline -/

def State.deadline (st : State) : ℕ :=
  st.start + st.total

/-- The timer of a sleeping caller expires at the deadline, and a caller that found no slot
and had no time left returned a timeout. -/
def Pc.Keeps (deadline : ℕ) : Pc → Prop
  | .asleep _ _ expiry => expiry = deadline
  | .gaveUp err => err = .etimeout
  | .asserted => False
  | _ => True

instance (deadline : ℕ) (pc : Pc) : Decidable (pc.Keeps deadline) :=
  match pc with
  | .asleep _ _ _ => inferInstanceAs (Decidable (_ = _))
  | .gaveUp _ => inferInstanceAs (Decidable (_ = _))
  | .asserted => isFalse id
  | .out => isTrue trivial
  | .woken _ _ _ => isTrue trivial
  | .retrying _ _ => isTrue trivial

def KeepsDeadline (st : State) : Prop :=
  st.pc.Keeps st.deadline

instance (st : State) : Decidable (KeepsDeadline st) :=
  inferInstanceAs (Decidable (Pc.Keeps _ _))

/-- The signed difference of the ticks shows that the deadline has passed. -/
def SeenPassed (time deadline : ℕ) : Prop :=
  deadline ≤ time ∧ (time - deadline) % 0x100000000 ≤ 0x80000000

instance (time deadline : ℕ) : Decidable (SeenPassed time deadline) :=
  inferInstanceAs (Decidable (_ ∧ _))

/-- A caller that finds no slot after a wake-up returns a timeout, or arms its timer with
what is left of the timeout. -/
def OnTime (loop : WaitLoop) (st : State) : Prop :=
  (loop.recompute = .locked → st.time < st.deadline ∨
    SeenPassed st.time st.deadline ∧ loop.failure = .etimeout) ∧
  (loop.recompute = .never → st.time = st.start)

instance (loop : WaitLoop) (st : State) : Decidable (OnTime loop st) :=
  inferInstanceAs (Decidable (_ ∧ _))

/-- The same for each place where a caller runs on. -/
def Pc.MayRun (loop : WaitLoop) (st : State) : Pc → Prop
  | .woken _ _ err => err = .eok → OnTime loop st
  | .retrying _ since => loop.failure = .etimeout ∧ SeenPassed since st.deadline ∨
      since < st.deadline ∧ st.time = since
  | _ => True

instance (loop : WaitLoop) (st : State) (pc : Pc) : Decidable (pc.MayRun loop st) :=
  match pc with
  | .woken _ _ _ => inferInstanceAs (Decidable (_ → _))
  | .retrying _ _ => inferInstanceAs (Decidable (_ ∨ _))
  | .out => isTrue trivial
  | .asleep _ _ _ => isTrue trivial
  | .gaveUp _ => isTrue trivial
  | .asserted => isTrue trivial

/-- The steps that keep the deadline. -/
def Punctual (loop : WaitLoop) (st : State) : Action → Prop
  | .call timeout => loop.blocked st.objects = true → (timeout : ℤ) < halfTickMax
  | .run => loop.blocked st.objects = true → st.pc.MayRun loop st
  | _ => True

instance (loop : WaitLoop) (st : State) (act : Action) :
    Decidable (Punctual loop st act) :=
  match act with
  | .call _ => inferInstanceAs (Decidable (_ → _))
  | .run => inferInstanceAs (Decidable (_ → _))
  | .wake _ => isTrue trivial
  | .expire => isTrue trivial
  | .other _ => isTrue trivial
  | .tick => isTrue trivial

end RtThread.TimedWait
