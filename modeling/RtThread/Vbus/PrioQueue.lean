import RtThread.Core.PriorityFifo
import RtThread.Core.Tally
import RtThread.Pool.MemPoolBlocks
import RtThread.Scheduler.ReadyQueue

set_option linter.all false

/-!
# The priority queue of the virtual bus

`rt_prio_queue_push` takes a block of the pool, fills it and links it to the list of
its priority; `rt_prio_queue_pop` unlinks the first item of the lowest priority,
copies it and gives the block back.  Only the linking and the unlinking are done with
interrupts disabled, so each call is cut there.  A thread that finds the pool
empty waits in `rt_mp_alloc`, and one that finds the queue empty in the list of the
queue.
-/

namespace RtThread.Vbus

open Function
open RtThread.Core
open RtThread.Core.PriorityFifo
open RtThread.Kernel (Err Thread)
open RtThread.MemPool (sizeofPtr rtMpInit)
open RtThread.Scheduler (rtFfs)
open RtThread.SmallMem (HeapConfig)

/-- `RT_PRIO_QUEUE_PRIO_MAX`. -/
def rtPrioQueuePrioMax : ℕ := 32

/-- `struct rt_prio_queue` without its pool; `next` and `data` are the items, by their
addresses. -/
structure RtPrioQueue (Tid Data : Type*) where
  bitmap : BitVec 32
  head : ℕ → Option ℕ
  tail : ℕ → Option ℕ
  suspendedPopList : List Tid
  next : ℕ → Option ℕ
  data : ℕ → Data

/-- Where a thread is.  `rt_prio_queue_push`: in `rt_mp_alloc`, before the copy into the
item, before its linking.  `rt_prio_queue_pop`: suspended, resumed with `thread->error`,
before the copy out of the item, before `rt_mp_free`. -/
inductive PqPc (Data : Type*)
  | out
  | allocating (prio : ℕ) (data : Data)
  | filling (prio : ℕ) (data : Data) (item : ℕ)
  | linking (prio : ℕ) (data : Data) (item : ℕ)
  | asleep (timeout : ℤ)
  | woken (timeout : ℤ) (err : Err)
  | copying (item : ℕ)
  | freeing (item : ℕ) (data : Data)

structure PqState (Tid Data : Type*) where
  que : RtPrioQueue Tid Data
  pool : MemPool.State Tid
  pc : Tid → PqPc Data

inductive PqAction (Tid Data : Type*)
  | push (tid : Tid) (prio : ℕ) (data : Data) (timeout : ℤ)
  /-- A push comes back from `rt_schedule` in `rt_mp_alloc`, or goes on with its loop. -/
  | poolResume (tid : Tid)
  | poolRetry (tid : Tid)
  | fill (tid : Tid)
  | link (tid : Tid)
  | pop (tid : Tid) (timeout : ℤ)
  | repop (tid : Tid)
  | copy (tid : Tid)
  | free (tid : Tid)
  /-- The thread timer of a thread that waits in `rt_prio_queue_pop` or in
  `rt_mp_alloc` expires. -/
  | expire (tid : Tid)
  | poolTimeout (tid : Tid)
  | tick
  deriving DecidableEq

inductive PqEvent (Data : Type*)
  | pushed (prio : ℕ) (data : Data)
  | popped
  | returned (data : Data)
  | failed (err : Err)
  | slept
  | moved
  /-- An assertion fails. -/
  | asserted
  deriving DecidableEq

section Lists

variable {Tid Data : Type*}

/-- `_do_push`; nothing is returned when the assertion fails. -/
def doPush (que : RtPrioQueue Tid Data) (prio item : ℕ) : Option (RtPrioQueue Tid Data) :=
  match que.head prio, que.tail prio with
  | none, _ => some
    { que with
      head := update que.head prio (some item)
      bitmap := que.bitmap ||| 1#32 <<< prio
      tail := update que.tail prio (some item) }
  | some _, none => none
  | some _, some last => some
    { que with
      next := update que.next last (some item)
      tail := update que.tail prio (some item) }

/-- `_do_pop`; nothing is returned when the assertion fails. -/
def doPop (que : RtPrioQueue Tid Data) : Option (RtPrioQueue Tid Data × Option ℕ) :=
  if rtFfs que.bitmap = 0 then some (que, none)
  else
    let ffs := rtFfs que.bitmap - 1
    match que.head ffs with
    | none => none
    | some item =>
      let bitmap := if que.next item = none then que.bitmap &&& ~~~(1#32 <<< ffs) else que.bitmap
      some ({ que with head := update que.head ffs (que.next item), bitmap := bitmap },
        some item)

end Lists

section Machine

variable {Tid Data : Type*} [DecidableEq Tid]

def PqState.setPc (st : PqState Tid Data) (tid : Tid) (pc : PqPc Data) : PqState Tid Data :=
  { st with pc := update st.pc tid pc }

/-- `rt_thread_resume` of a thread that waits in `rt_prio_queue_pop`. -/
def PqPc.resumed : PqPc Data → PqPc Data
  | .asleep timeout => .woken timeout .eok
  | pc => pc

/-- `rt_mp_alloc` in `rt_prio_queue_push`. -/
def allocate (cfg : HeapConfig) (st : PqState Tid Data) (tid : Tid) (prio : ℕ) (data : Data)
    (act : MemPool.Action Tid) : Option (PqState Tid Data × PqEvent Data) :=
  match MemPool.step cfg st.pool act with
  | none => none
  | some (pool, .allocated _ item) =>
    some ({ st with pool := pool }.setPc tid (.filling prio data item), .moved)
  | some (pool, .failed _ _) => some ({ st with pool := pool }.setPc tid .out, .failed .enomem)
  | some (_, .asserted _) => some (st, .asserted)
  | some (pool, _) => some ({ st with pool := pool }.setPc tid (.allocating prio data), .moved)

/-- The end of `rt_prio_queue_push`. -/
def linkItem (st : PqState Tid Data) (tid : Tid) (prio : ℕ) (data : Data) (item : ℕ) :
    PqState Tid Data × PqEvent Data :=
  match doPush st.que prio item with
  | none => (st, .asserted)
  | some que =>
    match que.suspendedPopList with
    | [] => ({ st with que := que }.setPc tid .out, .pushed prio data)
    | thread :: rest =>
      let linked := { st with que := { que with suspendedPopList := rest } }.setPc tid .out
      (linked.setPc thread (linked.pc thread).resumed, .pushed prio data)

/-- One turn of the loop of `rt_prio_queue_pop`. -/
def popTurn (st : PqState Tid Data) (tid : Tid) (timeout : ℤ) :
    PqState Tid Data × PqEvent Data :=
  match doPop st.que with
  | none => (st, .asserted)
  | some (que, some item) => ({ st with que := que }.setPc tid (.copying item), .popped)
  | some (_, none) =>
    if timeout = 0 then (st.setPc tid .out, .failed .etimeout)
    else
      ({ st with
          que := { st.que with
            suspendedPopList := st.que.suspendedPopList ++ [tid] } }.setPc tid
              (.asleep timeout), .slept)

def pqStep (cfg : HeapConfig) (st : PqState Tid Data) :
    PqAction Tid Data → Option (PqState Tid Data × PqEvent Data)
  | .push tid prio data timeout =>
    match st.pc tid with
    | .out =>
      if rtPrioQueuePrioMax ≤ prio then some (st, .failed .error)
      else allocate cfg st tid prio data (.alloc tid timeout)
    | _ => none
  | .poolResume tid =>
    match st.pc tid with
    | .allocating prio data => allocate cfg st tid prio data (.resume tid)
    | _ => none
  | .poolRetry tid =>
    match st.pc tid with
    | .allocating prio data => allocate cfg st tid prio data (.retry tid)
    | _ => none
  | .fill tid =>
    match st.pc tid with
    | .filling prio data item =>
      some ({ st with que := { st.que with
        data := update st.que.data item data
        next := update st.que.next item none } }.setPc tid (.linking prio data item),
          .moved)
    | _ => none
  | .link tid =>
    match st.pc tid with
    | .linking prio data item => some (linkItem st tid prio data item)
    | _ => none
  | .pop tid timeout =>
    match st.pc tid with
    | .out => some (popTurn st tid timeout)
    | _ => none
  | .repop tid =>
    match st.pc tid with
    | .woken timeout .eok => some (popTurn st tid timeout)
    | .woken _ err => some (st.setPc tid .out, .failed err)
    | _ => none
  | .copy tid =>
    match st.pc tid with
    | .copying item => some (st.setPc tid (.freeing item (st.que.data item)), .moved)
    | _ => none
  | .free tid =>
    match st.pc tid with
    | .freeing item data =>
      some ({ st with pool := (MemPool.rtMpFree cfg st.pool item).1 }.setPc tid .out,
        .returned data)
    | _ => none
  | .expire tid =>
    match st.pc tid with
    | .asleep timeout =>
      if 0 < timeout then
        some ({ st with
          que := { st.que with
            suspendedPopList := st.que.suspendedPopList.erase tid } }.setPc tid
              (.woken timeout .etimeout), .moved)
      else none
    | _ => none
  | .poolTimeout tid =>
    match MemPool.step cfg st.pool (.timeout tid) with
    | none => none
    | some (pool, _) => some ({ st with pool := pool }, .moved)
  | .tick =>
    match MemPool.step cfg st.pool .tick with
    | none => none
    | some (pool, _) => some ({ st with pool := pool }, .moved)

def pqMachine (cfg : HeapConfig) : Machine (PqState Tid Data) (PqAction Tid Data)
    (PqEvent Data) where
  step := pqStep cfg

/-- `rt_prio_queue_init`; `data` is what the buffer contains. -/
def rtPrioQueueInit (cfg : HeapConfig) (threads : Tid → Thread) (tick mpAddress : ℕ)
    (word : ℕ → ℕ) (buf bufsz itemsz : ℕ) (data : ℕ → Data) : Option (PqState Tid Data) :=
  match rtMpInit cfg threads tick mpAddress word buf bufsz (sizeofPtr cfg + itemsz) with
  | none => none
  | some pool =>
    some ⟨⟨0, fun _ => none, fun _ => none, [], fun _ => none, data⟩, pool, fun _ => .out⟩

end Machine

/-! ## What the queue is for -/

/-- The items in the order in which they were pushed, and the one that each popping
thread has taken and not returned yet. -/
structure PqSpec (Tid Data : Type*) where
  queue : List (ℕ × Data)
  hand : Tid → Option Data

inductive PqSpecAction (Tid Data : Type*)
  | push (prio : ℕ) (data : Data)
  | take (tid : Tid)
  | hand (tid : Tid)
  /-- A thread finds the queue empty. -/
  | empty
  | skip
  /-- Not enabled in any state. -/
  | fail

inductive PqSpecEvent (Data : Type*)
  | pushed (prio : ℕ) (data : Data)
  | taken
  | handed (data : Data)
  | empty
  | skip

section Spec

variable {Tid Data : Type*} [DecidableEq Tid]

/-- Every thread takes the oldest item of the lowest priority present, which leaves the
queue then, and hands over what it has taken. -/
def pqSpecStep (spec : PqSpec Tid Data) :
    PqSpecAction Tid Data → Option (PqSpec Tid Data × PqSpecEvent Data)
  | .push prio data => some ({ spec with queue := spec.queue ++ [(prio, data)] }, .pushed prio data)
  | .take tid =>
    match spec.hand tid, pop spec.queue with
    | none, some ((_, data), rest) =>
      some (⟨rest, update spec.hand tid (some data)⟩, .taken)
    | _, _ => none
  | .hand tid =>
    match spec.hand tid with
    | some data => some ({ spec with hand := update spec.hand tid none }, .handed data)
    | none => none
  | .empty => if spec.queue.isEmpty then some (spec, .empty) else none
  | .skip => some (spec, .skip)
  | .fail => none

def pqSpecMachine : Machine (PqSpec Tid Data) (PqSpecAction Tid Data) (PqSpecEvent Data) where
  step := pqSpecStep

/-- What a step of the code is for the specification. -/
def pqLabel : PqAction Tid Data × PqEvent Data → PqSpecAction Tid Data × PqSpecEvent Data
  | (_, .pushed prio data) => (.push prio data, .pushed prio data)
  | (.pop tid _, .popped) | (.repop tid, .popped) => (.take tid, .taken)
  | (.free tid, .returned data) => (.hand tid, .handed data)
  | (.pop _ _, .failed _) | (_, .slept) => (.empty, .empty)
  | (_, .asserted) => (.fail, .skip)
  | _ => (.skip, .skip)

end Spec

end RtThread.Vbus
