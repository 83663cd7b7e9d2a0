import RtThread.Core.BoundedFifo
import RtThread.Kernel.Thread

set_option linter.all false

/-!
# Mailboxes

`rt_mb_send_wait`, `rt_mb_recv` and `rt_mb_control` of `ipc.c`, run by any number
of threads.  Senders and receivers sleep and try again in a loop: the test, and
the transfer or the suspension that follows it, are one critical section and so
one step, and a thread that comes back from `rt_schedule` starts the next turn of
its loop in a step of its own, possibly after a reset.

The message pool with its two offsets and the entry count is a circular buffer,
and every run of the mailbox is a run of a bounded first-in-first-out queue.
-/

namespace RtThread.Mailbox

open RtThread.Core
open RtThread.Kernel

variable {Tid Value : Type*}

/-- `struct rt_mailbox`. -/
structure RtMailbox (Tid Value : Type*) where
  msgPool : ℕ → Value
  size : ℕ
  entry : ℕ
  inOffset : ℕ
  outOffset : ℕ
  /-- The suspended receivers. -/
  suspendThread : List Tid
  suspendSenderThread : List Tid
  flag : IpcFlag

/-- Where a thread stands: in the `rt_schedule` call of one of the two loops, with
the local variables of that call. -/
inductive Pc (Value : Type*)
  | out
  | sending (value : Value) (timeout : ℤ) (tickDelta : ℕ)
  | receiving (timeout : ℤ) (tickDelta : ℕ)

def Pc.isOut : Pc Value → Bool
  | .out => true
  | _ => false

structure State (Tid Value : Type*) where
  threads : Tid → Thread
  mb : RtMailbox Tid Value
  tick : ℕ
  pc : Tid → Pc Value

/-- `rt_mb_init`; the size field has 16 bits. -/
def rtMbInit (threads : Tid → Thread) (tick : ℕ) (msgPool : ℕ → Value) (size : ℕ)
    (flag : IpcFlag) : State Tid Value where
  threads := threads
  mb :=
    { msgPool := msgPool
      size := size % 0x10000
      entry := 0
      inOffset := 0
      outOffset := 0
      suspendThread := []
      suspendSenderThread := []
      flag := flag }
  tick := tick
  pc := fun _ => .out

inductive Action (Tid Value : Type*)
  | send (tid : Tid) (value : Value) (timeout : ℤ)
  | recv (tid : Tid) (timeout : ℤ)
  | control (cmd : ℕ)
  /-- The thread timer fires. -/
  | timeout (tid : Tid)
  /-- The scheduler lets a waiter return from `rt_schedule`. -/
  | resume (tid : Tid)
  | tick

inductive Event (Tid Value : Type*)
  /-- `rt_mb_send_wait` returns `RT_EOK`. -/
  | sent (tid : Tid) (value : Value)
  /-- `rt_mb_recv` returns `RT_EOK`. -/
  | received (tid : Tid) (value : Value)
  /-- One of the two returns an error. -/
  | failed (tid : Tid) (err : Err)
  | suspended (tid : Tid)
  | controlled (err : Err)
  | timedOut (tid : Tid)
  | ticked

/-- `++ offset; if (offset >= size) offset = 0;` on a 16-bit offset. -/
def increaseOffset (size offset : ℕ) : ℕ :=
  if size ≤ (offset + 1) % 0x10000 then 0 else (offset + 1) % 0x10000

/-- The timeout that is left after a wait that started at `start`: the difference of
the 32-bit ticks is subtracted from the 32-bit timeout. -/
def remaining (timeout : ℤ) (now start : ℕ) : ℤ :=
  if 0 < timeout then
    let left := Int.bmod (timeout - ((now + 0x100000000 - start) % 0x100000000 : ℕ)) 0x100000000
    if left < 0 then 0 else left
  else timeout

variable [DecidableEq Tid]

/-- `rt_ipc_list_resume`, if the list is not empty. -/
def resumeFirst (threads : Tid → Thread) (list : List Tid) : (Tid → Thread) × List Tid :=
  match list with
  | tid :: _ => rtThreadResumeFrom threads list tid
  | [] => (threads, list)

def setPc (st : State Tid Value) (tid : Tid) (pc : Pc Value) : State Tid Value :=
  { st with pc := Function.update st.pc tid pc }

/-- The end of `rt_mb_send_wait`. -/
def putMail (st : State Tid Value) (value : Value) : State Tid Value :=
  let resumed := resumeFirst st.threads st.mb.suspendThread
  { st with
    threads := resumed.1
    mb := { st.mb with
      msgPool := Function.update st.mb.msgPool st.mb.inOffset value
      inOffset := increaseOffset st.mb.size st.mb.inOffset
      entry := (st.mb.entry + 1) % 0x10000
      suspendThread := resumed.2 } }

/-- The end of `rt_mb_recv`. -/
def getMail (st : State Tid Value) : State Tid Value :=
  let resumed := resumeFirst st.threads st.mb.suspendSenderThread
  { st with
    threads := resumed.1
    mb := { st.mb with
      outOffset := increaseOffset st.mb.size st.mb.outOffset
      entry := (st.mb.entry + 0xffff) % 0x10000
      suspendSenderThread := resumed.2 } }

/-- The thread suspends itself; `rt_timer_start` follows for a positive timeout. -/
def suspendThread (threads : Tid → Thread) (tid : Tid) : Tid → Thread :=
  modify threads tid fun thread => rtThreadSuspend (setError .eok thread)

/-- One turn of the loop of `rt_mb_send_wait`, up to the return or the call of
`rt_schedule`. -/
def sendTurn (st : State Tid Value) (tid : Tid) (value : Value) (timeout : ℤ) :
    State Tid Value × Event Tid Value :=
  if st.mb.entry = st.mb.size then
    if timeout = 0 then
      (setPc { st with threads := modify st.threads tid (setError .eok) } tid .out,
        .failed tid .efull)
    else
      let threads := suspendThread st.threads tid
      (setPc
        { st with
          threads := modify threads tid (startThreadTimer timeout)
          mb := { st.mb with
            suspendSenderThread :=
              rtIpcListInsert threads st.mb.suspendSenderThread tid st.mb.flag } }
        tid (.sending value timeout st.tick),
        .suspended tid)
  else (setPc (putMail st value) tid .out, .sent tid value)

/-- One turn of the loop of `rt_mb_recv`. -/
def recvTurn (st : State Tid Value) (tid : Tid) (timeout : ℤ) :
    State Tid Value × Event Tid Value :=
  if st.mb.entry = 0 then
    if timeout = 0 then
      (setPc { st with threads := modify st.threads tid (setError .etimeout) } tid .out,
        .failed tid .etimeout)
    else
      let threads := suspendThread st.threads tid
      (setPc
        { st with
          threads := modify threads tid (startThreadTimer timeout)
          mb := { st.mb with
            suspendThread :=
              rtIpcListInsert threads st.mb.suspendThread tid st.mb.flag } }
        tid (.receiving timeout st.tick),
        .suspended tid)
  else
    (setPc (getMail st) tid .out, .received tid (st.mb.msgPool st.mb.outOffset))

def rtMbSendWait (st : State Tid Value) (tid : Tid) (value : Value) (timeout : ℤ) :
    State Tid Value × Event Tid Value :=
  if st.mb.entry = st.mb.size ∧ timeout = 0 then (st, .failed tid .efull)
  else sendTurn st tid value timeout

def rtMbRecv (st : State Tid Value) (tid : Tid) (timeout : ℤ) :
    State Tid Value × Event Tid Value :=
  if st.mb.entry = 0 ∧ timeout = 0 then (st, .failed tid .etimeout)
  else recvTurn st tid timeout

/-- `rt_mb_control`. -/
def rtMbControl (st : State Tid Value) (cmd : ℕ) : State Tid Value × Event Tid Value :=
  if cmd = rtIpcCmdReset then
    let threads := rtIpcListResumeAll st.threads st.mb.suspendThread
    ({ st with
       threads := rtIpcListResumeAll threads st.mb.suspendSenderThread
       mb := { st.mb with
         suspendThread := []
         suspendSenderThread := []
         entry := 0
         inOffset := 0
         outOffset := 0 } },
      .controlled .eok)
  else (st, .controlled .error)

/-- A waiter comes back from `rt_schedule`. -/
def afterSchedule (st : State Tid Value) (tid : Tid) :
    Option (State Tid Value × Event Tid Value) :=
  let thread := st.threads tid
  if thread.stat = .suspend then none
  else
    match st.pc tid with
    | .out => none
    | .sending value timeout start =>
      if thread.error ≠ .eok then some (setPc st tid .out, .failed tid thread.error)
      else some (sendTurn st tid value (remaining timeout st.tick start))
    | .receiving timeout start =>
      if thread.error ≠ .eok then some (setPc st tid .out, .failed tid thread.error)
      else some (recvTurn st tid (remaining timeout st.tick start))

/-- `rt_thread_timeout` of a thread that may wait on either side. -/
def timeoutThread (st : State Tid Value) (tid : Tid) : State Tid Value :=
  { st with
    threads := modify st.threads tid rtThreadTimeout
    mb := { st.mb with
      suspendThread := st.mb.suspendThread.erase tid
      suspendSenderThread := st.mb.suspendSenderThread.erase tid } }

/-- A thread can call in when it runs and is not inside a call already. -/
def State.canCall (st : State Tid Value) (tid : Tid) : Prop :=
  (st.pc tid).isOut = true ∧ (st.threads tid).runnable

instance (st : State Tid Value) (tid : Tid) : Decidable (st.canCall tid) :=
  inferInstanceAs (Decidable (_ ∧ _))

def step (st : State Tid Value) :
    Action Tid Value → Option (State Tid Value × Event Tid Value)
  | .send tid value timeout =>
    if st.canCall tid then some (rtMbSendWait st tid value timeout) else none
  | .recv tid timeout =>
    if st.canCall tid then some (rtMbRecv st tid timeout) else none
  | .control cmd => some (rtMbControl st cmd)
  | .timeout tid =>
    if (st.threads tid).stat = .suspend ∧ (st.threads tid).timerActivated = true then
      some (timeoutThread st tid, .timedOut tid)
    else none
  | .resume tid => afterSchedule st tid
  | .tick => some ({ st with tick := (st.tick + 1) % 0x100000000 }, .ticked)

def machine : Machine (State Tid Value) (Action Tid Value) (Event Tid Value) where
  step := step

/-! ## Refinement of the bounded queue -/

/-- The circular buffer of a mailbox. -/
def RtMailbox.ring (mb : RtMailbox Tid Value) : RingBuffer Value where
  pool := mb.msgPool
  size := mb.size
  entry := mb.entry
  inOffset := mb.inOffset
  outOffset := mb.outOffset

/-- The mails in the mailbox, oldest first. -/
def RtMailbox.content (mb : RtMailbox Tid Value) : List Value :=
  mb.ring.content

/-- The buffer is well formed, and its size fits the 16-bit field. -/
structure Inv (size : ℕ) (st : State Tid Value) : Prop where
  valid : st.mb.ring.Valid
  size_eq : st.mb.size = size
  fits : size < 0x10000

/-- What a step means for the queue. -/
def label (entry : Action Tid Value × Event Tid Value) : Fifo.Action Value × Option Value :=
  match entry.2 with
  | .sent _ value => (.put value, none)
  | .received _ value => (.take, some value)
  | .controlled .eok => (.clear, none)
  | _ => (.idle, none)

variable {size : ℕ}

omit [DecidableEq Tid] in
theorem increaseOffset_eq {offset : ℕ} (hlt : offset < size) (hfits : size < 0x10000) :
    increaseOffset size offset = RingBuffer.advance size offset := by
  rw [increaseOffset, RingBuffer.advance]
  rw [Nat.mod_eq_of_lt (by omega)]

variable {st : State Tid Value}

theorem ring_putMail (hinv : Inv size st) (hroom : st.mb.entry < st.mb.size) (value : Value) :
    (putMail st value).mb.ring = st.mb.ring.push value := by
  have hsize := hinv.size_eq
  have hfits := hinv.fits
  have hoffset : increaseOffset st.mb.size st.mb.inOffset =
      RingBuffer.advance st.mb.size st.mb.inOffset :=
    increaseOffset_eq hinv.valid.in_lt (by omega)
  have hinc : (st.mb.entry + 1) % 0x10000 = st.mb.entry + 1 := by omega
  simp only [putMail, RtMailbox.ring, RingBuffer.push, hoffset, hinc]

theorem getMail_eq (hentry : 0 < st.mb.entry) (hfits : st.mb.entry < 0x10000) : getMail st =
      let resumed := resumeFirst st.threads st.mb.suspendSenderThread
      { st with
        threads := resumed.1
        mb := { st.mb with
          outOffset := increaseOffset st.mb.size st.mb.outOffset
          entry := st.mb.entry - 1
          suspendSenderThread := resumed.2 } } := by
  have hdec : (st.mb.entry + 0xffff) % 0x10000 = st.mb.entry - 1 := by omega
  rw [getMail, hdec]

omit [DecidableEq Tid] in
theorem Inv.entry_lt (hinv : Inv size st) : st.mb.entry < 0x10000 := by
  have hsize := hinv.size_eq
  have hfits := hinv.fits
  have hle : st.mb.entry ≤ st.mb.size := hinv.valid.entry_le
  omega

theorem ring_getMail (hinv : Inv size st) (hentry : 0 < st.mb.entry) :
    (getMail st).mb.ring = st.mb.ring.pop := by
  have hsize := hinv.size_eq
  have hfits := hinv.fits
  have hoffset : increaseOffset st.mb.size st.mb.outOffset =
      RingBuffer.advance st.mb.size st.mb.outOffset :=
    increaseOffset_eq hinv.valid.out_lt (by omega)
  rw [getMail_eq hentry hinv.entry_lt]
  simp only [RtMailbox.ring, RingBuffer.pop, hoffset]

/-- A step of the mailbox is a step of the queue. -/
def Simulates (size : ℕ) (st next : State Tid Value) (event : Event Tid Value) : Prop :=
  Inv size next ∧ ∀ act, Fifo.step size st.mb.content (label (act, event)).1 =
    some (next.mb.content, (label (act, event)).2)

omit [DecidableEq Tid] in
theorem simulates_idle {next : State Tid Value} {event : Event Tid Value} (hinv : Inv size st)
    (hring : next.mb.ring = st.mb.ring) (hidle : ∀ act, label (act, event) = (.idle, none)) :
    Simulates size st next event := by
  have hsize : next.mb.size = st.mb.size := congrArg RingBuffer.size hring
  refine ⟨⟨by rw [hring]; exact hinv.valid, hsize.trans hinv.size_eq, hinv.fits⟩,
    fun act => ?_⟩
  have hcontent : next.mb.content = st.mb.content := congrArg RingBuffer.content hring
  rw [hidle, hcontent]
  rfl

theorem simulates_sendTurn {tid : Tid} {value : Value} {timeout : ℤ} (hinv : Inv size st) :
    Simulates size st (sendTurn st tid value timeout).1
      (sendTurn st tid value timeout).2 := by
  rw [sendTurn]
  split
  · split
    · exact simulates_idle hinv rfl fun _ => rfl
    · exact simulates_idle hinv rfl fun _ => rfl
  · next hroom =>
      have hroom : st.mb.entry < st.mb.size :=
        lt_of_le_of_ne hinv.valid.entry_le hroom
      have hring := ring_putMail hinv hroom value
      refine ⟨⟨hring ▸ hinv.valid.push hroom value, hinv.size_eq, hinv.fits⟩, fun act => ?_⟩
      have hlength : st.mb.content.length < size := by
        rw [RtMailbox.content, RingBuffer.length_content]
        exact hinv.size_eq ▸ hroom
      have hcontent : (putMail st value).mb.content = st.mb.content ++ [value] := by
        rw [RtMailbox.content, hring, RingBuffer.content_push hinv.valid hroom]
        rfl
      simp [label, Fifo.step, hlength, setPc, hcontent]

theorem simulates_recvTurn {tid : Tid} {timeout : ℤ} (hinv : Inv size st) :
    Simulates size st (recvTurn st tid timeout).1 (recvTurn st tid timeout).2 := by
  rw [recvTurn]
  split
  · split
    · exact simulates_idle hinv rfl fun _ => rfl
    · exact simulates_idle hinv rfl fun _ => rfl
  · next hentry =>
      have hentry : 0 < st.mb.entry := Nat.pos_of_ne_zero hentry
      have hring := ring_getMail hinv hentry
      have hsize : (getMail st).mb.size = st.mb.size := by
        rw [getMail_eq hentry hinv.entry_lt]
      have hvalid : (getMail st).mb.ring.Valid := by
        rw [hring]
        exact hinv.valid.pop hentry
      refine ⟨⟨hvalid, hsize.trans hinv.size_eq, hinv.fits⟩, fun act => ?_⟩
      have hcontent : st.mb.content =
          st.mb.msgPool st.mb.outOffset :: (getMail st).mb.content := by
        rw [RtMailbox.content, RtMailbox.content, hring]
        exact RingBuffer.content_pop hinv.valid hentry
      simp [label, Fifo.step, setPc, hcontent]

theorem simulates_rtMbSendWait (hinv : Inv size st) (tid : Tid) (value : Value) (timeout : ℤ) :
    Simulates size st (rtMbSendWait st tid value timeout).1
      (rtMbSendWait st tid value timeout).2 := by
  rw [rtMbSendWait]
  split
  · exact simulates_idle hinv rfl fun _ => rfl
  · exact simulates_sendTurn hinv

theorem simulates_rtMbRecv (hinv : Inv size st) (tid : Tid) (timeout : ℤ) :
    Simulates size st (rtMbRecv st tid timeout).1 (rtMbRecv st tid timeout).2 := by
  rw [rtMbRecv]
  split
  · exact simulates_idle hinv rfl fun _ => rfl
  · exact simulates_recvTurn hinv

theorem simulates_rtMbControl (hinv : Inv size st) (cmd : ℕ) :
    Simulates size st (rtMbControl st cmd).1 (rtMbControl st cmd).2 := by
  rw [rtMbControl]
  split
  · exact ⟨⟨hinv.valid.clear, hinv.size_eq, hinv.fits⟩, fun act => rfl⟩
  · exact simulates_idle hinv rfl fun _ => rfl

theorem simulates_step {next : State Tid Value} {act : Action Tid Value} {event : Event Tid Value}
    (hinv : Inv size st) (hstep : step st act = some (next, event)) :
    Simulates size st next event := by
  cases act with
  | send tid value timeout =>
    simp only [step] at hstep
    split at hstep
    · rw [Option.some.injEq] at hstep
      have hsim := simulates_rtMbSendWait hinv tid value timeout
      rwa [hstep] at hsim
    · contradiction
  | recv tid timeout =>
    simp only [step] at hstep
    split at hstep
    · rw [Option.some.injEq] at hstep
      have hsim := simulates_rtMbRecv hinv tid timeout
      rwa [hstep] at hsim
    · contradiction
  | control cmd =>
    obtain ⟨rfl, rfl⟩ := Prod.mk.inj (Option.some.inj hstep)
    exact simulates_rtMbControl hinv cmd
  | timeout tid =>
    simp only [step] at hstep
    split at hstep
    · obtain ⟨rfl, rfl⟩ := Prod.mk.inj (Option.some.inj hstep)
      exact simulates_idle hinv rfl fun _ => rfl
    · contradiction
  | resume tid =>
    simp only [step, afterSchedule] at hstep
    split at hstep
    · contradiction
    · split at hstep
      · contradiction
      · split at hstep <;> obtain ⟨rfl, rfl⟩ := Prod.mk.inj (Option.some.inj hstep)
        · exact simulates_idle hinv rfl fun _ => rfl
        · exact simulates_sendTurn hinv
      · split at hstep <;> obtain ⟨rfl, rfl⟩ := Prod.mk.inj (Option.some.inj hstep)
        · exact simulates_idle hinv rfl fun _ => rfl
        · exact simulates_recvTurn hinv
  | tick =>
    obtain ⟨rfl, rfl⟩ := Prod.mk.inj (Option.some.inj hstep)
    exact simulates_idle hinv rfl fun _ => rfl

/-- The values of the successful sends since the last reset. -/
def sentSince : List (Action Tid Value × Event Tid Value) → List Value :=
  List.foldl (fun values entry =>
    match entry.2 with
    | .sent _ value => values ++ [value]
    | .controlled .eok => []
    | _ => values) []

/-- The values returned by the successful receives since the last reset. -/
def receivedSince : List (Action Tid Value × Event Tid Value) → List Value :=
  List.foldl (fun values entry =>
    match entry.2 with
    | .received _ value => values ++ [value]
    | .controlled .eok => []
    | _ => values) []

omit [DecidableEq Tid] in
/-- The queue sees the sends and the receives of the mailbox. -/
theorem history_map_label (trace : List (Action Tid Value × Event Tid Value)) :
    Fifo.history (trace.map label) = (sentSince trace, receivedSince trace) := by
  induction trace using List.reverseRecOn with
  | nil => rfl
  | append_singleton past entry ih =>
    rw [List.map_append, List.map_singleton, Fifo.history_snoc, ih]
    simp only [sentSince, receivedSince, List.foldl_append, List.foldl_cons, List.foldl_nil]
    obtain ⟨act, event⟩ := entry
    cases event with
    | sent tid value => rfl
    | received tid value => rfl
    | failed tid err => rfl
    | suspended tid => rfl
    | controlled err => cases err <;> rfl
    | timedOut tid => rfl
    | ticked => rfl

/-- In every interleaving of sends, receives, timeouts and resets the mailbox behaves
as a bounded queue: its count and its offsets agree, and the values received since
the last reset, followed by the content, are the values sent. -/
theorem mailbox_refines_fifo (threads : Tid → Thread) (tick : ℕ) (msgPool : ℕ → Value)
    (size : ℕ) (flag : IpcFlag) (hsize : 0 < size) (hfits : size < 0x10000)
    {trace : List (Action Tid Value × Event Tid Value)} {last : State Tid Value}
    (hrun : machine.Run (rtMbInit threads tick msgPool size flag) trace last) :
    (Fifo.machine size).Run [] (trace.map label) last.mb.content ∧
      last.mb.size = size ∧ last.mb.entry ≤ last.mb.size ∧
      last.mb.inOffset = (last.mb.outOffset + last.mb.entry) % last.mb.size ∧
      sentSince trace = receivedSince trace ++ last.mb.content := by
  have hfirst : Inv size (rtMbInit threads tick msgPool size flag) := by
    have hmod : size % 0x10000 = size := Nat.mod_eq_of_lt hfits
    have hpos : 0 < size % 0x10000 := hmod.symm ▸ hsize
    exact ⟨⟨Nat.zero_le _, hpos, (Nat.zero_mod _).symm⟩, hmod, hfits⟩
  have hinv : Inv size last :=
    hrun.invariant (Inv size) (fun _ _ _ _ hinv _ hstep => (simulates_step hinv hstep).1) hfirst
  have hqueue : (Fifo.machine size).Run [] (trace.map label) last.mb.content :=
    hrun.simulates (fun st => st.mb.content) label (Inv size)
      (fun _ _ _ _ hinv _ hstep => (simulates_step hinv hstep).1)
      (fun _ _ _ _ hinv _ hstep => (simulates_step hinv hstep).2 _) hfirst
  have hhistory := (Fifo.run_history hqueue).1
  rw [history_map_label] at hhistory
  exact ⟨hqueue, hinv.size_eq, hinv.valid.entry_le, hinv.valid.in_eq, hhistory⟩

/-- A sender that finds the mailbox of one mail full sleeps, and is woken by the
receiver that takes the first mail. -/
theorem mailbox_refines_fifo_sleepingSender :
    ∃ trace, ∃ last : State (Fin 2) ℕ,
      machine.Run (rtMbInit (fun _ => Thread.started 10) 0 (fun _ => 0) 1 .fifo) trace last ∧
        sentSince trace = [7, 8] ∧ receivedSince trace = [7] ∧
        sentSince trace = receivedSince trace ++ last.mb.content := by
  have hrun : machine.Run (rtMbInit (fun _ => Thread.started 10) 0 (fun _ => 0) 1 .fifo) _ _ :=
    Machine.runWith_of_exec
      [.send (0 : Fin 2) 7 0, .send 0 8 5, .recv 1 0, .tick, .resume 0] rfl
  exact ⟨_, _, hrun, rfl, rfl,
    (mailbox_refines_fifo _ 0 _ 1 .fifo (by decide) (by decide) hrun).2.2.2.2⟩

end RtThread.Mailbox
