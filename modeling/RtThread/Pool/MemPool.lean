import RtThread.Core.LinkedCells
import RtThread.Heap.SmallMem
import RtThread.Ipc.Mailbox

set_option linter.all false

/-!
# Memory pools

`rt_mp_init`, `rt_mp_alloc` and `rt_mp_free` of `mempool.c`, run by any number of
threads, and `rt_thread_timeout` for the threads that wait for a block.  The first word
of a block is the link of the free list while the block is free, and the address of the
pool while it is allocated.

A critical section is one step.  An allocator that comes back from `rt_schedule` computes
the time that is left with interrupts enabled, so that this is a step of its own and the
next turn of its loop is another one.
-/

namespace RtThread.MemPool

open Function
open RtThread.Core
open RtThread.Kernel
open RtThread.Mailbox
open RtThread.SmallMem

variable {Tid : Type*}

/-- `sizeof(rt_uint8_t *)`. -/
def sizeofPtr (cfg : HeapConfig) : ℕ :=
  if cfg.archCpu64bit then 8 else 4

/-- `struct rt_mempool` and the words in front of its blocks. -/
structure RtMempool (Tid : Type*) where
  startAddress : ℕ
  size : ℕ
  blockSize : ℕ
  blockList : ℕ
  blockTotalCount : ℕ
  blockFreeCount : ℕ
  suspendThread : List Tid
  suspendThreadCount : ℕ
  /-- The first word of a block, by the address of the block. -/
  word : ℕ → ℕ

/-- Where a thread stands in `rt_mp_alloc`, with the local variables of the call. -/
inductive Pc
  | out
  /-- In the call of `rt_schedule`. -/
  | waiting (time : ℤ) (beforeSleep : ℕ)
  /-- The time that is left is known, and interrupts are still enabled. -/
  | woken (time : ℤ)

structure State (Tid : Type*) where
  threads : Tid → Thread
  /-- The address of the pool object. -/
  mpAddress : ℕ
  mp : RtMempool Tid
  tick : ℕ
  pc : Tid → Pc
  /-- The blocks that calls of `rt_mp_alloc` have returned and that are not freed yet. -/
  held : List ℕ

variable (cfg : HeapConfig)

/-- The distance between two blocks. -/
def stride (blockSize : ℕ) : ℕ :=
  cfg.add blockSize (sizeofPtr cfg)

/-- The loop that links the blocks, up to the block with the number `offset`. -/
def linkBlocks (word : ℕ → ℕ) (blockPtr stride : ℕ) : ℕ → ℕ → ℕ
  | 0 => word
  | offset + 1 =>
    update (linkBlocks word blockPtr stride offset) (blockPtr + offset * stride)
      (blockPtr + (offset + 1) * stride)

/-- `rt_mp_init`.  There is no pool when an assertion fails, and none without a block:
the end of the list would then be written in front of the pool. -/
def rtMpInit (threads : Tid → Thread) (tick mpAddress : ℕ) (word : ℕ → ℕ)
    (start size blockSize : ℕ) : Option (State Tid) :=
  let poolSize := cfg.rtAlignDown size
  let alignedSize := cfg.rtAlign blockSize
  let blockStride := stride cfg alignedSize
  let total := poolSize / blockStride
  if start = 0 ∨ size = 0 ∨ blockSize = 0 ∨ total = 0 then none
  else
    some
      { threads := threads
        mpAddress := mpAddress
        mp :=
          { startAddress := start
            size := poolSize
            blockSize := alignedSize
            blockList := start
            blockTotalCount := total
            blockFreeCount := total
            suspendThread := []
            suspendThreadCount := 0
            word := update (linkBlocks word start blockStride total)
              (start + (total - 1) * blockStride) 0 }
        tick := tick
        pc := fun _ => .out
        held := [] }

inductive Action (Tid : Type*)
  | alloc (tid : Tid) (time : ℤ)
  /-- The block is `RT_NULL` or one that `rt_mp_alloc` has returned. -/
  | free (block : ℕ)
  /-- The timer of a thread fires. -/
  | timeout (tid : Tid)
  /-- The scheduler lets a waiter return from `rt_schedule`. -/
  | resume (tid : Tid)
  /-- A woken allocator disables interrupts and starts the next turn of its loop. -/
  | retry (tid : Tid)
  | tick
  deriving DecidableEq

inductive Event (Tid : Type*)
  | allocated (tid : Tid) (block : ℕ)
  /-- `rt_mp_alloc` returns `RT_NULL`. -/
  | failed (tid : Tid) (err : Err)
  | suspended (tid : Tid)
  /-- The assertion on the block list fails. -/
  | asserted (tid : Tid)
  | freed
  /-- `rt_mp_free` takes the head of an empty list for a thread. -/
  | wild
  /-- The first word of the block is not the address of this pool. -/
  | foreign
  | timedOut (tid : Tid)
  | woken (tid : Tid)
  | ticked
  deriving DecidableEq

section Operations

variable [DecidableEq Tid]

def setPc (st : State Tid) (tid : Tid) (pc : Pc) : State Tid :=
  { st with pc := update st.pc tid pc }

/-- The end of `rt_mp_alloc`. -/
def takeBlock (st : State Tid) (tid : Tid) : State Tid × Event Tid :=
  let block := st.mp.blockList
  if block = 0 then (st, .asserted tid)
  else
    (setPc
      { st with
        mp := { st.mp with
          blockFreeCount := st.mp.blockFreeCount - 1
          blockList := st.mp.word block
          word := update st.mp.word block st.mpAddress }
        held := (block + sizeofPtr cfg) :: st.held }
      tid .out,
      .allocated tid (block + sizeofPtr cfg))

/-- A thread goes to sleep in front of an empty pool. -/
def waitForBlock (st : State Tid) (tid : Tid) (time : ℤ) : State Tid :=
  setPc
    { st with
      threads := modify (suspendThread st.threads tid) tid (startThreadTimer time)
      mp := { st.mp with
        suspendThread := tid :: st.mp.suspendThread
        suspendThreadCount := st.mp.suspendThreadCount + 1 } }
    tid (.waiting time st.tick)

/-- One turn of the loop of `rt_mp_alloc`, up to the return or the call of
`rt_schedule`. -/
def allocTurn (st : State Tid) (tid : Tid) (time : ℤ) : State Tid × Event Tid :=
  if st.mp.blockFreeCount = 0 then
    if time = 0 then
      (setPc { st with threads := modify st.threads tid (setError .etimeout) } tid .out,
        .failed tid .etimeout)
    else (waitForBlock st tid time, .suspended tid)
  else takeBlock cfg st tid

def rtMpAlloc (st : State Tid) (tid : Tid) (time : ℤ) : State Tid × Event Tid :=
  allocTurn cfg st tid time

/-- The block goes to the front of the free list. -/
def linkFree (mp : RtMempool Tid) (block : ℕ) : RtMempool Tid :=
  { mp with
    blockFreeCount := mp.blockFreeCount + 1
    word := update mp.word block mp.blockList
    blockList := block }

/-- The end of `rt_mp_free`: a waiter is resumed.  What stands behind the head of an empty
list is not a thread, and neither the pool nor a thread of the model. -/
def resumeWaiter (st : State Tid) : State Tid × Event Tid :=
  if st.mp.suspendThreadCount = 0 then (st, .freed)
  else
    match st.mp.suspendThread with
    | tid :: _ =>
      let resumed := rtThreadResumeFrom (modify st.threads tid (setError .eok))
        st.mp.suspendThread tid
      ({ st with
         threads := resumed.1
         mp := { st.mp with
           suspendThread := resumed.2
           suspendThreadCount := st.mp.suspendThreadCount - 1 } },
        .freed)
    | [] =>
      ({ st with
         mp := { st.mp with suspendThreadCount := st.mp.suspendThreadCount - 1 } },
        .wild)

def rtMpFree (st : State Tid) (block : ℕ) : State Tid × Event Tid :=
  if block = 0 then (st, .freed)
  else
    let blockPtr := block - sizeofPtr cfg
    if st.mp.word blockPtr = st.mpAddress then
      resumeWaiter
        { st with mp := linkFree st.mp blockPtr, held := st.held.erase block }
    else (st, .foreign)

/-- An allocator comes back from `rt_schedule`. -/
def afterSchedule (st : State Tid) (tid : Tid) : Option (State Tid × Event Tid) :=
  let thread := st.threads tid
  match st.pc tid with
  | .waiting time beforeSleep =>
    if thread.stat = .suspend then none
    else if thread.error ≠ .eok then some (setPc st tid .out, .failed tid thread.error)
    else some (setPc st tid (.woken (remaining time st.tick beforeSleep)), .woken tid)
  | _ => none

/-- The next turn of the loop. -/
def afterWakeup (st : State Tid) (tid : Tid) : Option (State Tid × Event Tid) :=
  match st.pc tid with
  | .woken time => some (allocTurn cfg st tid time)
  | _ => none

/-- `rt_thread_timeout`. -/
def timeoutThread (st : State Tid) (tid : Tid) : State Tid :=
  { st with
    threads := modify st.threads tid rtThreadTimeout
    mp := { st.mp with suspendThread := st.mp.suspendThread.erase tid } }

def Pc.isOut : Pc → Bool
  | .out => true
  | _ => false

/-- A thread can call in when it runs and is not inside a call already. -/
def State.canCall (st : State Tid) (tid : Tid) : Prop :=
  (st.pc tid).isOut = true ∧ (st.threads tid).runnable

instance (st : State Tid) (tid : Tid) : Decidable (st.canCall tid) :=
  inferInstanceAs (Decidable (_ ∧ _))

def step (st : State Tid) : Action Tid → Option (State Tid × Event Tid)
  | .alloc tid time =>
    if st.canCall tid then some (rtMpAlloc cfg st tid time) else none
  | .free block =>
    if block = 0 ∨ block ∈ st.held then some (rtMpFree cfg st block) else none
  | .timeout tid =>
    if (st.threads tid).stat = .suspend ∧ (st.threads tid).timerActivated = true then
      some (timeoutThread st tid, .timedOut tid)
    else none
  | .resume tid => afterSchedule st tid
  | .retry tid =>
    if (st.threads tid).runnable then afterWakeup cfg st tid else none
  | .tick => some ({ st with tick := (st.tick + 1) % 0x100000000 }, .ticked)

def machine : Machine (State Tid) (Action Tid) (Event Tid) where
  step := step cfg

end Operations

end RtThread.MemPool
