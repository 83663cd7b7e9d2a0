import RtThread.Core.DequeLog
import RtThread.Core.LinkedCells
import RtThread.Ipc.Mailbox

set_option linter.all false

/-!
# Message queues

`rt_mq_init`, `rt_mq_send`, `rt_mq_urgent`, `rt_mq_recv` and `rt_mq_control` of `ipc.c`,
run by any number of threads and interrupt handlers.  A sender takes a cell off the free
list in one critical section and links it to the queue in a second one, a receiver takes
it off the queue and puts it back to the free list; in between interrupts are on, and
`rt_memcpy` moves one byte a step, so everything else can happen between two bytes.
-/

namespace RtThread.MessageQueue

open Function
open RtThread.Core
open RtThread.Kernel
open RtThread.Mailbox (remaining resumeFirst suspendThread)

variable {Tid Byte : Type*}

/-- `struct rt_messagequeue` with the cells of `msg_pool`, which are numbered: a cell is a
`struct rt_mq_message`, that is its `next` pointer, and the bytes that follow it. -/
structure RtMessageQueue (Tid Byte : Type*) where
  next : ℕ → Option ℕ
  data : ℕ → ℕ → Byte
  msgSize : ℕ
  maxMsgs : ℕ
  entry : ℕ
  msgQueueHead : Option ℕ
  msgQueueTail : Option ℕ
  msgQueueFree : Option ℕ
  suspendThread : List Tid
  flag : IpcFlag

/-- Which of `rt_mq_send` and `rt_mq_urgent` is running. -/
inductive Mode
  | send | urgent

/-- Where a thread stands inside a call, with the local variables of the call.  A buffer
is the memory from its address on. -/
inductive Pc (Byte : Type*)
  | out
  /-- A sender after its first critical section. -/
  | allocated (mode : Mode) (msg : ℕ) (message : List Byte)
  /-- `rt_memcpy` has written `count` bytes of the message into the cell. -/
  | writing (mode : Mode) (msg : ℕ) (message : List Byte) (count : ℕ)
  /-- A receiver in `rt_schedule`. -/
  | waiting (size : ℕ) (buffer : ℕ → Byte) (timeout : ℤ) (tickDelta : ℕ)
  /-- A receiver after its first critical section; `rt_memcpy` has moved `count` bytes. -/
  | reading (msg size : ℕ) (buffer : ℕ → Byte) (count : ℕ)

def Pc.isOut : Pc Byte → Bool
  | .out => true
  | _ => false

/-- The cell that is in no list because the thread works on it. -/
def Pc.held : Pc Byte → Option ℕ
  | .out => none
  | .allocated _ msg _ => some msg
  | .writing _ msg _ _ => some msg
  | .waiting _ _ _ _ => none
  | .reading msg _ _ _ => some msg

structure State (Tid Byte : Type*) where
  threads : Tid → Thread
  mq : RtMessageQueue Tid Byte
  tick : ℕ
  pc : Tid → Pc Byte

/-- `RT_ALIGN`, for an alignment that is a power of two. -/
def rtAlign (size align : ℕ) : ℕ :=
  (size + (align - 1)) / align * align

/-- The loop of `rt_mq_init` that pushes cell after cell to the free list. -/
def initFree (next : ℕ → Option ℕ) : ℕ → (ℕ → Option ℕ) × Option ℕ
  | 0 => (next, none)
  | temp + 1 =>
    let done := initFree next temp
    (update done.1 temp done.2, some temp)

/-- The build options: `RT_ALIGN_SIZE` and `sizeof(struct rt_mq_message)`. -/
structure Layout where
  rtAlignSize : ℕ
  headerSize : ℕ

/-- `rt_mq_init` on a pool with arbitrary content; `msg_size` and `max_msgs` have 16
bits. -/
def rtMqInit (layout : Layout) (threads : Tid → Thread) (tick : ℕ) (next : ℕ → Option ℕ)
    (data : ℕ → ℕ → Byte) (msgSize poolSize : ℕ) (flag : IpcFlag) : State Tid Byte :=
  let msgSize := rtAlign msgSize layout.rtAlignSize % 0x10000
  let maxMsgs := poolSize / (msgSize + layout.headerSize) % 0x10000
  { threads := threads
    mq :=
      { next := (initFree next maxMsgs).1
        data := data
        msgSize := msgSize
        maxMsgs := maxMsgs
        entry := 0
        msgQueueHead := none
        msgQueueTail := none
        msgQueueFree := (initFree next maxMsgs).2
        suspendThread := []
        flag := flag }
    tick := tick
    pc := fun _ => .out }

inductive Action (Tid Byte : Type*)
  | send (tid : Tid) (message : List Byte)
  | urgent (tid : Tid) (message : List Byte)
  | recv (tid : Tid) (size : ℕ) (buffer : ℕ → Byte) (timeout : ℤ)
  /-- A thread that works on a cell goes on. -/
  | proceed (tid : Tid)
  /-- The scheduler lets a waiter return from `rt_schedule`. -/
  | resume (tid : Tid)
  | control (cmd : ℕ)
  /-- The thread timer fires. -/
  | timeout (tid : Tid)
  | tick

inductive Event (Tid Byte : Type*)
  /-- A sender has a cell. -/
  | allocated (tid : Tid)
  | copied (tid : Tid)
  /-- The second critical section of a sender, which then returns `RT_EOK`. -/
  | linked (tid : Tid) (mode : Mode) (message : List Byte)
  | suspended (tid : Tid)
  /-- A receiver has a cell. -/
  | dequeued (tid : Tid)
  /-- `rt_mq_recv` returns `RT_EOK` and leaves this in the buffer. -/
  | received (tid : Tid) (buffer : ℕ → Byte)
  | failed (tid : Tid) (err : Err)
  /-- A receiver follows `msg_queue_head` while it is `RT_NULL`. -/
  | faulted (tid : Tid)
  | controlled (err : Err)
  | timedOut (tid : Tid)
  | ticked

/-! ## The lists -/

/-- `rt_mq_send` links the cell behind the tail. -/
def linkTail (mq : RtMessageQueue Tid Byte) (msg : ℕ) : RtMessageQueue Tid Byte :=
  { mq with
    next :=
      match mq.msgQueueTail with
      | some tail => update mq.next tail (some msg)
      | none => mq.next
    msgQueueTail := some msg
    msgQueueHead :=
      match mq.msgQueueHead with
      | some head => some head
      | none => some msg
    entry := (mq.entry + 1) % 0x10000 }

/-- `rt_mq_urgent` links the cell before the head. -/
def linkHead (mq : RtMessageQueue Tid Byte) (msg : ℕ) : RtMessageQueue Tid Byte :=
  { mq with
    next := update mq.next msg mq.msgQueueHead
    msgQueueHead := some msg
    msgQueueTail :=
      match mq.msgQueueTail with
      | some tail => some tail
      | none => some msg
    entry := (mq.entry + 1) % 0x10000 }

/-- The head, which is `msg`, leaves the queue; the count is not touched. -/
def unlinkHead (mq : RtMessageQueue Tid Byte) (msg : ℕ) : RtMessageQueue Tid Byte :=
  { mq with
    msgQueueHead := mq.next msg
    msgQueueTail := if mq.msgQueueTail = some msg then none else mq.msgQueueTail }

/-- The cell goes to the front of the free list. -/
def release (mq : RtMessageQueue Tid Byte) (msg : ℕ) : RtMessageQueue Tid Byte :=
  { mq with
    next := update mq.next msg mq.msgQueueFree
    msgQueueFree := some msg }

/-- The loop of `rt_mq_control`, for at most `fuel` turns. -/
def releaseAll : ℕ → RtMessageQueue Tid Byte → RtMessageQueue Tid Byte
  | 0, mq => mq
  | fuel + 1, mq =>
    match mq.msgQueueHead with
    | none => mq
    | some msg => releaseAll fuel (release (unlinkHead mq msg) msg)

/-! ## The calls -/

variable [DecidableEq Tid]

def setPc (st : State Tid Byte) (tid : Tid) (pc : Pc Byte) : State Tid Byte :=
  { st with pc := update st.pc tid pc }

/-- The first critical section of `rt_mq_send` and `rt_mq_urgent`, after the check of the
size. -/
def allocate (mode : Mode) (st : State Tid Byte) (tid : Tid) (message : List Byte) :
    State Tid Byte × Event Tid Byte :=
  if st.mq.msgSize < message.length then (st, .failed tid .error)
  else
    match st.mq.msgQueueFree with
    | none => (st, .failed tid .efull)
    | some msg =>
      (setPc { st with mq := { st.mq with msgQueueFree := st.mq.next msg } } tid
        (.allocated mode msg message),
        .allocated tid)

def rtMqSend (st : State Tid Byte) : Tid → List Byte → State Tid Byte × Event Tid Byte :=
  allocate .send st

def rtMqUrgent (st : State Tid Byte) : Tid → List Byte → State Tid Byte × Event Tid Byte :=
  allocate .urgent st

/-- Only `rt_mq_send` clears the `next` pointer before it copies. -/
def startCopy (mq : RtMessageQueue Tid Byte) (msg : ℕ) : Mode → RtMessageQueue Tid Byte
  | .send => { mq with next := update mq.next msg none }
  | .urgent => mq

def writeByte (mq : RtMessageQueue Tid Byte) (msg count : ℕ) (byte : Byte) :
    RtMessageQueue Tid Byte :=
  { mq with data := update mq.data msg (update (mq.data msg) count byte) }

def link (mq : RtMessageQueue Tid Byte) (msg : ℕ) : Mode → RtMessageQueue Tid Byte
  | .send => linkTail mq msg
  | .urgent => linkHead mq msg

/-- The second critical section of a sender. -/
def linkMessage (mode : Mode) (st : State Tid Byte) (msg : ℕ) : State Tid Byte :=
  let resumed := resumeFirst st.threads st.mq.suspendThread
  { st with
    threads := resumed.1
    mq := { link st.mq msg mode with suspendThread := resumed.2 } }

/-- One turn of the loop of `rt_mq_recv`, up to the call of `rt_schedule`, the return with
an error or the end of the critical section that takes the message. -/
def recvTurn (st : State Tid Byte) (tid : Tid) (size : ℕ) (buffer : ℕ → Byte)
    (timeout : ℤ) : State Tid Byte × Event Tid Byte :=
  if st.mq.entry = 0 then
    if timeout = 0 then
      (setPc { st with threads := modify st.threads tid (setError .etimeout) } tid .out,
        .failed tid .etimeout)
    else
      let threads := suspendThread st.threads tid
      (setPc
        { st with
          threads := modify threads tid (startThreadTimer timeout)
          mq := { st.mq with
            suspendThread :=
              rtIpcListInsert threads st.mq.suspendThread tid st.mq.flag } }
        tid (.waiting size buffer timeout st.tick),
        .suspended tid)
  else
    match st.mq.msgQueueHead with
    | none => (st, .faulted tid)
    | some msg =>
      (setPc
        { st with
          mq := { unlinkHead st.mq msg with
            entry := (st.mq.entry + 0xffff) % 0x10000 } }
        tid (.reading msg size buffer 0),
        .dequeued tid)

def rtMqRecv (st : State Tid Byte) (tid : Tid) (size : ℕ) (buffer : ℕ → Byte)
    (timeout : ℤ) : State Tid Byte × Event Tid Byte :=
  if st.mq.entry = 0 ∧ timeout = 0 then (st, .failed tid .etimeout)
  else recvTurn st tid size buffer timeout

/-- A receiver comes back from `rt_schedule`. -/
def afterSchedule (st : State Tid Byte) (tid : Tid) :
    Option (State Tid Byte × Event Tid Byte) :=
  let thread := st.threads tid
  match st.pc tid with
  | .waiting size buffer timeout start =>
    if thread.stat = .suspend then none
    else if thread.error ≠ .eok then some (setPc st tid .out, .failed tid thread.error)
    else some (recvTurn st tid size buffer (remaining timeout st.tick start))
  | _ => none

/-- What a thread does that works on a cell. -/
def afterSection (st : State Tid Byte) (tid : Tid) :
    Option (State Tid Byte × Event Tid Byte) :=
  match st.pc tid with
  | .out => none
  | .waiting _ _ _ _ => none
  | .allocated mode msg message =>
    some (setPc { st with mq := startCopy st.mq msg mode } tid
      (.writing mode msg message 0), .copied tid)
  | .writing mode msg message count =>
    match message[count]? with
    | some byte =>
      some (setPc { st with mq := writeByte st.mq msg count byte } tid
        (.writing mode msg message (count + 1)), .copied tid)
    | none => some (setPc (linkMessage mode st msg) tid .out, .linked tid mode message)
  | .reading msg size buffer count =>
    if count < min size st.mq.msgSize then
      some (setPc st tid
        (.reading msg size (update buffer count (st.mq.data msg count))
          (count + 1)), .copied tid)
    else some (setPc { st with mq := release st.mq msg } tid .out, .received tid buffer)

/-- `rt_mq_control`. -/
def rtMqControl (st : State Tid Byte) (cmd : ℕ) : State Tid Byte × Event Tid Byte :=
  if cmd = rtIpcCmdReset then
    ({ st with
       threads := rtIpcListResumeAll st.threads st.mq.suspendThread
       mq := { releaseAll st.mq.maxMsgs st.mq with suspendThread := [], entry := 0 } },
      .controlled .eok)
  else (st, .controlled .error)

/-- `rt_thread_timeout`. -/
def timeoutThread (st : State Tid Byte) (tid : Tid) : State Tid Byte :=
  { st with
    threads := modify st.threads tid rtThreadTimeout
    mq := { st.mq with suspendThread := st.mq.suspendThread.erase tid } }

/-- A thread can call in when it runs and is not inside a call already. -/
def State.canCall (st : State Tid Byte) (tid : Tid) : Prop :=
  (st.pc tid).isOut = true ∧ (st.threads tid).runnable

instance (st : State Tid Byte) (tid : Tid) : Decidable (st.canCall tid) :=
  inferInstanceAs (Decidable (_ ∧ _))

/-- The calls assert that the size is not zero. -/
def step (st : State Tid Byte) :
    Action Tid Byte → Option (State Tid Byte × Event Tid Byte)
  | .send tid message =>
    if st.canCall tid ∧ message.length ≠ 0 then some (rtMqSend st tid message) else none
  | .urgent tid message =>
    if st.canCall tid ∧ message.length ≠ 0 then some (rtMqUrgent st tid message) else none
  | .recv tid size buffer timeout =>
    if st.canCall tid ∧ size ≠ 0 then some (rtMqRecv st tid size buffer timeout) else none
  | .proceed tid => if (st.threads tid).runnable then afterSection st tid else none
  | .resume tid => afterSchedule st tid
  | .control cmd => some (rtMqControl st cmd)
  | .timeout tid =>
    if (st.threads tid).stat = .suspend ∧ (st.threads tid).timerActivated = true then
      some (timeoutThread st tid, .timedOut tid)
    else none
  | .tick => some ({ st with tick := (st.tick + 1) % 0x100000000 }, .ticked)

def machine : Machine (State Tid Byte) (Action Tid Byte) (Event Tid Byte) where
  step := step

end RtThread.MessageQueue
