import RtThread.Vbus.BusRing
import RtThread.Vbus.PrioQueueRuns
import RtThread.Vbus.WatermarkQueue

set_option linter.all false

/-!
# Posting on the virtual bus

`rt_vbus_post` of any number of threads, the part of the out thread that takes
packages from its queue, and the part of the in thread that stops and starts a
channel.  A post waits while its channel is suspended by the other side, and then
for each chunk of its data raises the watermark queue of the channel and pushes a
package, both of which may put it to sleep.  The out thread lowers the level of a
package that it has popped.
-/

namespace RtThread.Vbus

open Function
open RtThread.Core
open RtThread.Kernel (Err)
open RtThread.SmallMem (HeapConfig)

/-- `enum rt_vbus_chn_status`. -/
inductive ChnStatus
  | available | closed | establishing | established | suspend | closing
  deriving DecidableEq

/-- `struct rt_vbus_pkg`; `data` is an address. -/
structure VbusPkg where
  id : ℕ
  prio : ℕ
  finished : Bool
  len : ℕ
  data : ℕ
  deriving DecidableEq

/-- The arguments of `rt_vbus_post`, with the data that is still to be posted. -/
structure PostCall where
  id : ℕ
  prio : ℕ
  data : ℕ
  size : ℕ
  timeout : ℤ
  deriving DecidableEq

namespace PostCall

variable (call : PostCall)

def putsz : ℕ :=
  if rtVbusMaxPktSz < call.size then rtVbusMaxPktSz else call.size

/-- The package of the next chunk, and the call after it. -/
def pkg : VbusPkg where
  id := call.id
  prio := call.prio
  finished := decide (call.size ≤ rtVbusMaxPktSz)
  len := call.putsz
  data := call.data

def rest : PostCall :=
  { call with data := call.data + call.putsz, size := call.size - call.putsz }

end PostCall

/-- Where a thread is in `rt_vbus_post`: at the test of the loop on the status, before its
critical section, suspended there, resumed with `thread->error`, behind the loop; before
`rt_wm_que_inc`, suspended and resumed there; in `rt_prio_queue_push`. -/
inductive PostPc
  | out
  | testing (call : PostCall)
  | parking (call : PostCall)
  | parked (call : PostCall)
  | unparked (call : PostCall) (err : Err)
  | checking (call : PostCall)
  | raising (call : PostCall)
  | asleep (call : PostCall)
  | woken (call : PostCall) (err : Err)
  | pushing (call : PostCall)
  deriving DecidableEq

/-- The out thread: in `rt_prio_queue_pop`, before and after the test of `rt_wm_que_dec`,
behind the end of its loop. -/
inductive OutPc
  | popping
  | testing (pkg : VbusPkg)
  | lowering (pkg : VbusPkg)
  | stopped

/-- The in thread: between two commands, or before it wakes the threads of a channel; `err`
is their `thread->error`, if it is set. -/
inductive InPc
  | idle
  | waking (chnr : ℕ) (err : Option Err)
  deriving DecidableEq

/-- The out thread is the agent `none` of the out queue. -/
structure VbusState (Tid : Type*) where
  status : ℕ → ChnStatus
  suspendedThreads : ℕ → List Tid
  wmQue : ℕ → RtWatermarkQueue Tid
  outQue : PqState (Option Tid) VbusPkg
  pc : Tid → PostPc
  outPc : OutPc
  inPc : InPc

inductive VbusAction (Tid : Type*)
  | post (tid : Tid) (call : PostCall)
  | test (tid : Tid)
  | park (tid : Tid)
  | unpark (tid : Tid)
  | check (tid : Tid)
  | inc (tid : Tid)
  | incResume (tid : Tid)
  /-- The thread timer of a thread that is suspended by the status or the watermark
  queue expires. -/
  | expire (tid : Tid)
  | push (tid : Tid)
  | poolResume (tid : Tid)
  | poolRetry (tid : Tid)
  | fill (tid : Tid)
  | link (tid : Tid)
  | poolTimeout (tid : Tid)
  | tick
  /-- The out thread in `rt_prio_queue_pop` and `rt_wm_que_dec`. -/
  | pop
  | repop
  | copy
  | free
  | dec
  | lower
  /-- The in thread with a command for a channel, and then with the waiting threads. -/
  | suspend (chnr : ℕ)
  | resume (chnr : ℕ)
  | disable (chnr : ℕ)
  | wake
  /-- Any other code that writes the status of a channel. -/
  | setStatus (chnr : ℕ) (status : ChnStatus)

inductive VbusEvent
  | returned (err : Err)
  | slept
  | moved
  deriving DecidableEq

section Machine

variable {Tid : Type*} [DecidableEq Tid]

namespace VbusState

variable (st : VbusState Tid)

def setPc (tid : Tid) (pc : PostPc) : VbusState Tid :=
  { st with pc := update st.pc tid pc }

def setWm (chnr : ℕ) (wg : RtWatermarkQueue Tid) : VbusState Tid :=
  { st with wmQue := update st.wmQue chnr wg }

def setStatus (chnr : ℕ) (status : ChnStatus) : VbusState Tid :=
  { st with status := update st.status chnr status }

def setSuspended (chnr : ℕ) (threads : List Tid) : VbusState Tid :=
  { st with suspendedThreads := update st.suspendedThreads chnr threads }

/-- The head of the loop over the chunks. -/
def chunk (tid : Tid) (call : PostCall) : VbusState Tid × VbusEvent :=
  if call.size = 0 then (st.setPc tid .out, .returned .eok)
  else (st.setPc tid (.raising call), .moved)

/-- The test of the loop on the status. -/
def testStatus (tid : Tid) (call : PostCall) : VbusState Tid × VbusEvent :=
  if st.status call.id = .suspend then
    if call.timeout = 0 then (st.setPc tid .out, .returned .efull)
    else (st.setPc tid (.parking call), .moved)
  else (st.setPc tid (.checking call), .moved)

/-- One turn of `rt_wm_que_inc`. -/
def incTurn (tid : Tid) (call : PostCall) : VbusState Tid × VbusEvent :=
  match (st.wmQue call.id).incTurn tid call.timeout with
  | (wg, .raised) => ((st.setWm call.id wg).setPc tid (.pushing call), .moved)
  | (wg, .full) => ((st.setWm call.id wg).setPc tid .out, .returned .efull)
  | (wg, .sleeps) => ((st.setWm call.id wg).setPc tid (.asleep call), .slept)

/-- A step of `rt_prio_queue_push`. -/
def pushStep (cfg : HeapConfig) (tid : Tid) (call : PostCall)
    (act : PqAction (Option Tid) VbusPkg) : Option (VbusState Tid × VbusEvent) :=
  match pqStep cfg st.outQue act with
  | none => none
  | some (que, .pushed _ _) => some ({ st with outQue := que }.chunk tid call.rest)
  | some (que, .failed err) =>
    some ({ st with outQue := que }.setPc tid .out, .returned err)
  | some (que, _) => some ({ st with outQue := que }, .moved)

/-- A step of `rt_prio_queue_pop`. -/
def popStep (cfg : HeapConfig) (act : PqAction (Option Tid) VbusPkg) :
    Option (VbusState Tid × VbusEvent) :=
  match st.outPc with
  | .popping =>
    match pqStep cfg st.outQue act with
    | none => none
    | some (que, .returned pkg) =>
      some ({ st with outQue := que, outPc := .testing pkg }, .moved)
    | some (que, .failed _) => some ({ st with outQue := que, outPc := .stopped }, .moved)
    | some (que, _) => some ({ st with outQue := que }, .moved)
  | _ => none

/-- A step of the pool alone. -/
def poolStep (cfg : HeapConfig) (act : PqAction (Option Tid) VbusPkg) :
    Option (VbusState Tid × VbusEvent) :=
  match pqStep cfg st.outQue act with
  | none => none
  | some (que, _) => some ({ st with outQue := que }, .moved)

end VbusState

/-- `rt_thread_resume` of a thread that waits in `rt_wm_que_inc`. -/
def PostPc.wakened : PostPc → PostPc
  | .asleep call => .woken call .eok
  | pc => pc

/-- `rt_thread_resume` of a thread that waits for the status of its channel. -/
def PostPc.unpark (err : Err) : PostPc → PostPc
  | .parked call => .unparked call err
  | pc => pc

def vbusStep (cfg : HeapConfig) (st : VbusState Tid) :
    VbusAction Tid → Option (VbusState Tid × VbusEvent)
  | .post tid call =>
    match st.pc tid with
    | .out =>
      if rtVbusChannelNr ≤ call.id then some (st, .returned .error)
      else some (st.setPc tid (.testing call), .moved)
    | _ => none
  | .test tid =>
    match st.pc tid with
    | .testing call => some (st.testStatus tid call)
    | _ => none
  | .park tid =>
    match st.pc tid with
    | .parking call =>
      some ((st.setSuspended call.id (tid :: st.suspendedThreads call.id)).setPc tid
        (.parked call), .slept)
    | _ => none
  | .unpark tid =>
    match st.pc tid with
    | .unparked call .eok => some (st.setPc tid (.testing call), .moved)
    | .unparked _ err => some (st.setPc tid .out, .returned err)
    | _ => none
  | .check tid =>
    match st.pc tid with
    | .checking call =>
      if st.status call.id = .established then some (st.chunk tid call)
      else some (st.setPc tid .out, .returned .error)
    | _ => none
  | .inc tid =>
    match st.pc tid with
    | .raising call => some (st.incTurn tid call)
    | _ => none
  | .incResume tid =>
    match st.pc tid with
    | .woken call .eok => some (st.incTurn tid call)
    | .woken _ err => some (st.setPc tid .out, .returned err)
    | _ => none
  | .expire tid =>
    match st.pc tid with
    | .parked call =>
      if 0 < call.timeout then
        some ((st.setSuspended call.id ((st.suspendedThreads call.id).erase tid)).setPc tid
          (.unparked call .etimeout), .moved)
      else none
    | .asleep call =>
      if 0 < call.timeout then
        some ((st.setWm call.id { st.wmQue call.id with
          suspendedThreads := (st.wmQue call.id).suspendedThreads.erase tid }).setPc tid
            (.woken call .etimeout), .moved)
      else none
    | _ => none
  | .push tid =>
    match st.pc tid with
    | .pushing call =>
      st.pushStep cfg tid call (.push (some tid) call.prio call.pkg call.timeout)
    | _ => none
  | .poolResume tid =>
    match st.pc tid with
    | .pushing call => st.pushStep cfg tid call (.poolResume (some tid))
    | _ => none
  | .poolRetry tid =>
    match st.pc tid with
    | .pushing call => st.pushStep cfg tid call (.poolRetry (some tid))
    | _ => none
  | .fill tid =>
    match st.pc tid with
    | .pushing call => st.pushStep cfg tid call (.fill (some tid))
    | _ => none
  | .link tid =>
    match st.pc tid with
    | .pushing call => st.pushStep cfg tid call (.link (some tid))
    | _ => none
  | .poolTimeout tid => st.poolStep cfg (.poolTimeout (some tid))
  | .tick => st.poolStep cfg .tick
  -- `RT_WAITING_FOREVER`
  | .pop => st.popStep cfg (.pop none (-1))
  | .repop => st.popStep cfg (.repop none)
  | .copy => st.popStep cfg (.copy none)
  | .free => st.popStep cfg (.free none)
  | .dec =>
    match st.outPc with
    | .testing pkg =>
      if (st.wmQue pkg.id).level = 0 then some ({ st with outPc := .popping }, .moved)
      else some ({ st with outPc := .lowering pkg }, .moved)
    | _ => none
  | .lower =>
    match st.outPc with
    | .lowering pkg =>
      let (wg, threads) := (st.wmQue pkg.id).dec
      some ({ st.setWm pkg.id wg with
        outPc := .popping
        pc := fun tid => if tid ∈ threads then (st.pc tid).wakened else st.pc tid }, .moved)
    | _ => none
  | .suspend chnr =>
    if st.inPc = .idle ∧ chnr ≠ 0 ∧ chnr < rtVbusChannelNr then
      if st.status chnr = .established then some (st.setStatus chnr .suspend, .moved)
      else some (st, .moved)
    else none
  | .resume chnr =>
    if st.inPc = .idle ∧ chnr ≠ 0 ∧ chnr < rtVbusChannelNr then
      if st.status chnr = .suspend then
        some ({ st.setStatus chnr .established with inPc := .waking chnr none }, .moved)
      else some (st, .moved)
    else none
  | .disable chnr =>
    if st.inPc = .idle ∧ chnr ≠ 0 ∧ chnr < rtVbusChannelNr then
      some ({ st.setStatus chnr .closing with inPc := .waking chnr (some .error) }, .moved)
    else none
  | .wake =>
    match st.inPc with
    | .waking chnr err =>
      some ({ st.setSuspended chnr [] with
        inPc := .idle
        pc := fun tid =>
          if tid ∈ st.suspendedThreads chnr then (st.pc tid).unpark (err.getD .eok)
          else st.pc tid }, .moved)
    | .idle => none
  | .setStatus chnr status => some (st.setStatus chnr status, .moved)

def vbusMachine (cfg : HeapConfig) : Machine (VbusState Tid) (VbusAction Tid) VbusEvent where
  step := vbusStep cfg

/-- The bus when no post is under way; the marks of each channel are those of
`rt_vbus_set_post_wm`. -/
def vbusInit (status : ℕ → ChnStatus) (low high : ℕ → ℕ) (outQue : PqState (Option Tid) VbusPkg) :
    VbusState Tid where
  status := status
  suspendedThreads := fun _ => []
  wmQue := fun chnr => rtWmQueInit (low chnr) (high chnr)
  outQue := outQue
  pc := fun _ => .out
  outPc := .popping
  inPc := .idle

end Machine

end RtThread.Vbus
