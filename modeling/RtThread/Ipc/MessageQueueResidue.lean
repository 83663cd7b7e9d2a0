import RtThread.Ipc.MessageQueueDelivery

set_option linter.all false

/-!
# Old bytes in a message queue

A cell does not store how long its message is: a sender writes the bytes it has and a
receiver copies as many as its buffer and the cell allow.  What was consumed earlier can
therefore show only behind the end of a message that is shorter than what is copied; up
to its end, and behind the last byte copied, nothing of an earlier message appears.
-/

namespace RtThread.MessageQueue

open RtThread.Core
open RtThread.Core.DequeLog
open RtThread.Kernel

variable {Tid Byte : Type*}

/-- Two receivers are at the same turn, as far as the messages sent since the queue was
last empty tell: either all that was sent and taken is the same, or no message was urgent,
as many messages were taken, and one has just seen more of the same messages sent. -/
def SameTurn (ops ops' : List (Op (List Byte))) : Prop :=
  ops = ops' ∨
    BackOnly ops ∧ BackOnly ops' ∧ pops ops = pops ops' ∧
      (pushed ops <+: pushed ops' ∨ pushed ops' <+: pushed ops)

/-- Receivers at the same turn take the same message. -/
theorem SameTurn.value_eq {msgSize : ℕ} {log log' : Log (List Byte)} {job job' : Job Byte}
    (hvalid : job.Valid msgSize log) (hvalid' : job'.Valid msgSize log')
    (hturn : SameTurn job.ops job'.ops) : job.entry.value = job'.entry.value := by
  rcases hturn with hops | ⟨hback, hback', hpops, hpushed⟩
  · have hfirst := hvalid.first
    rw [hops, hvalid'.first, Option.some.injEq] at hfirst
    exact hfirst.symm
  · have hfirst := hvalid.turn hback
    have hfirst' := hvalid'.turn hback'
    rw [hpops] at hfirst
    rcases hpushed with hseen | hseen
    · have hlt := (List.getElem?_eq_some_iff.1 hfirst).1
      obtain ⟨more, hmore⟩ := hseen
      rw [← hmore, List.getElem?_append_left hlt, hfirst, Option.some.injEq] at hfirst'
      exact hfirst'
    · have hlt := (List.getElem?_eq_some_iff.1 hfirst').1
      obtain ⟨more, hmore⟩ := hseen
      rw [← hmore, List.getElem?_append_left hlt, hfirst', Option.some.injEq] at hfirst
      exact hfirst.symm

section Runs

variable [DecidableEq Tid]

/-- Two receivers at the same turn of two runs, with buffers of the same size, get the same
message, the same bytes up to its end, and nothing behind the bytes that are copied.  When
the message is as long as what is copied, their buffers are the same. -/
theorem messageQueue_recv_agrees (layout : Layout) (threads : Tid → Thread) (tick : ℕ)
    (next : ℕ → Option ℕ) (data : ℕ → ℕ → Byte) (msgSize poolSize : ℕ) (flag : IpcFlag)
    {trace trace' : List (Action Tid Byte × Event Tid Byte)} {last last' : State Tid Byte}
    (hrun : machine.Run (rtMqInit layout threads tick next data msgSize poolSize flag)
      trace last)
    (hrun' : machine.Run (rtMqInit layout threads tick next data msgSize poolSize flag)
      trace' last')
    {reception reception' : Reception Byte} (hmem : reception ∈ (historyOf trace).receptions)
    (hmem' : reception' ∈ (historyOf trace').receptions) {request request' : Request Byte}
    {job job' : Job Byte} (hrequest : reception.request = some request)
    (hrequest' : reception'.request = some request') (hjob : reception.job = some job)
    (hjob' : reception'.job = some job') (hturn : SameTurn job.ops job'.ops)
    (hsize : request.size = request'.size) :
    job.entry.value = job'.entry.value ∧
      (∀ i < min job.entry.value.length request.size,
        reception.buffer i = reception'.buffer i) ∧
      (∀ i, min request.size
          (rtMqInit layout threads tick next data msgSize poolSize flag).mq.msgSize ≤ i →
        reception.buffer i = request.buffer i ∧ reception'.buffer i = request'.buffer i) ∧
      (min request.size
          (rtMqInit layout threads tick next data msgSize poolSize flag).mq.msgSize ≤
          job.entry.value.length →
        request.buffer = request'.buffer → reception.buffer = reception'.buffer) := by
  obtain ⟨⟨_, _, hinv⟩, -⟩ := inv_of_run hrun
  obtain ⟨⟨_, _, hinv'⟩, -⟩ := inv_of_run hrun'
  obtain ⟨_, _, hdelivers⟩ := hinv.sound.delivered reception hmem
  obtain ⟨_, _, hdelivers'⟩ := hinv'.sound.delivered reception' hmem'
  obtain rfl := Option.some.inj (hrequest.symm.trans hdelivers.request_eq)
  obtain rfl := Option.some.inj (hrequest'.symm.trans hdelivers'.request_eq)
  obtain rfl := Option.some.inj (hjob.symm.trans hdelivers.job_eq)
  obtain rfl := Option.some.inj (hjob'.symm.trans hdelivers'.job_eq)
  have hvalue := hturn.value_eq hdelivers.valid hdelivers'.valid
  have hmessage : ∀ i < min job.entry.value.length request.size,
      reception.buffer i = reception'.buffer i := by
    intro i hi
    have hbyte := hdelivers.message i hi
    have hbyte' := hdelivers'.message i (by rwa [hvalue, hsize] at hi)
    rw [← hvalue, hbyte, Option.some.injEq] at hbyte'
    exact hbyte'
  refine ⟨hvalue, hmessage, fun i hi => ⟨hdelivers.behind i hi, hdelivers'.behind i ?_⟩,
    fun hfull hbuffer => ?_⟩
  · rwa [hsize] at hi
  · funext i
    by_cases hi : i < min job.entry.value.length request.size
    · exact hmessage i hi
    · -- nothing is copied behind the end of the message
      have hbehind : min request.size
          (rtMqInit layout threads tick next data msgSize poolSize flag).mq.msgSize ≤ i := by
        omega
      rw [hdelivers.behind i hbehind, hdelivers'.behind i (by rwa [hsize] at hbehind), hbuffer]

end Runs

/-! ## A shorter message in a used cell -/

/-- A whole call of `rt_mq_send`, not interrupted. -/
def sendCall (message : List ℕ) : List (Action ℕ ℕ) :=
  .send 0 message :: List.replicate (message.length + 2) (.proceed 0)

def recvCall : List (Action ℕ ℕ) :=
  .recv 2 4 (fun _ => 0) 0 :: List.replicate 5 (.proceed 2)

/-- Four old bytes are sent and received, then one byte through the same cell. -/
def recycle (old : List ℕ) : List (Action ℕ ℕ) :=
  sendCall old ++ recvCall ++ sendCall [9] ++ recvCall

theorem isSome_recycle :
    (machine.exec (fun _ _ => True) twoCells (recycle [1, 2, 3, 4])).isSome = true := by
  decide

theorem isSome_recycle' :
    (machine.exec (fun _ _ => True) twoCells (recycle [5, 6, 7, 8])).isSome = true := by
  decide

def recycled : List (Action ℕ ℕ × Event ℕ ℕ) :=
  ((machine.exec (fun _ _ => True) twoCells (recycle [1, 2, 3, 4])).get isSome_recycle).2

def recycled' : List (Action ℕ ℕ × Event ℕ ℕ) :=
  ((machine.exec (fun _ _ => True) twoCells (recycle [5, 6, 7, 8])).get isSome_recycle').2

theorem run_recycled : ∃ last, machine.Run twoCells recycled last :=
  ⟨_, Machine.runWith_of_isSome _ isSome_recycle⟩

theorem run_recycled' : ∃ last, machine.Run twoCells recycled' last :=
  ⟨_, Machine.runWith_of_isSome _ isSome_recycle'⟩

/-- The reception of the last message. -/
def shortReception : Reception ℕ :=
  (historyOf recycled).receptions.get ⟨1, by decide⟩

def shortReception' : Reception ℕ :=
  (historyOf recycled').receptions.get ⟨1, by decide⟩

theorem shortReception_mem : shortReception ∈ (historyOf recycled).receptions :=
  List.get_mem _ _

theorem shortReception_mem' : shortReception' ∈ (historyOf recycled').receptions :=
  List.get_mem _ _

def shortRequest : Request ℕ :=
  shortReception.request.get (by decide)

def shortRequest' : Request ℕ :=
  shortReception'.request.get (by decide)

def shortJob : Job ℕ :=
  shortReception.job.get (by decide)

def shortJob' : Job ℕ :=
  shortReception'.job.get (by decide)

theorem shortReception_eq :
    shortReception.request = some shortRequest ∧ shortReception.job = some shortJob :=
  ⟨(Option.some_get _).symm, (Option.some_get _).symm⟩

theorem shortReception_eq' :
    shortReception'.request = some shortRequest' ∧ shortReception'.job = some shortJob' :=
  ⟨(Option.some_get _).symm, (Option.some_get _).symm⟩

/-- Two receivers take the same message, the only one sent since the queue was empty, with
buffers of the same size and content; one finds an old byte 2 in its buffer, the other an
old byte 6. -/
theorem messageQueue_recv_shows_old_bytes :
    (∃ last, machine.Run twoCells recycled last) ∧ (∃ last, machine.Run twoCells recycled' last) ∧
      shortReception ∈ (historyOf recycled).receptions ∧
      shortReception' ∈ (historyOf recycled').receptions ∧
      (shortReception.request = some shortRequest ∧ shortReception.job = some shortJob) ∧
      (shortReception'.request = some shortRequest' ∧ shortReception'.job = some shortJob') ∧
      shortJob.ops = [.pushBack [9]] ∧ shortJob'.ops = [.pushBack [9]] ∧
      shortRequest.size = 4 ∧ shortRequest'.size = 4 ∧
      (∀ i < 4, shortRequest.buffer i = shortRequest'.buffer i) ∧
      shortReception.buffer 1 = 2 ∧ shortReception'.buffer 1 = 6 := by
  refine ⟨run_recycled, run_recycled', shortReception_mem, shortReception_mem',
    shortReception_eq, shortReception_eq', ?_, ?_, ?_, ?_, ?_, ?_, ?_⟩
  all_goals decide

/-- The first byte is the message in both. -/
theorem messageQueue_recv_agrees_recycled :
    shortJob.entry.value = shortJob'.entry.value ∧
      ∀ i < min shortJob.entry.value.length shortRequest.size,
        shortReception.buffer i = shortReception'.buffer i := by
  obtain ⟨last, hrun⟩ := run_recycled
  obtain ⟨last', hrun'⟩ := run_recycled'
  have hops : shortJob.ops = shortJob'.ops := by decide
  have hsize : shortRequest.size = shortRequest'.size := by decide
  obtain ⟨hvalue, hmessage, -⟩ := messageQueue_recv_agrees layout32 _ 0 _ _ 3 16 .fifo hrun hrun'
    shortReception_mem shortReception_mem' shortReception_eq.1 shortReception_eq'.1
    shortReception_eq.2 shortReception_eq'.2 (.inl hops) hsize
  exact ⟨hvalue, hmessage⟩

end RtThread.MessageQueue
