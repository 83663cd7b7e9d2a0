import RtThread.Core.Recorder
import RtThread.Drivers.DataQueue

set_option linter.all false

/-!
# Transmission of a serial device with DMA

`_serial_dma_tx` and the `RT_SERIAL_EVENT_TX_DMADONE` part of `rt_hw_serial_isr`.  A writer
pushes its buffer to the data queue, and starts the transfer of this buffer if none is in
progress; the interrupt at the end of a transfer pops a buffer and starts the transfer of
the next one.  The writer does not look whether its buffer is the next one.
-/

namespace RtThread.SerialTx

open Function
open RtThread.Core
open RtThread.DataQueue (DataItem RtDataQueue)

/-- Where a writer is: outside, in `rt_data_queue_push`, before the test of `activated`,
before its call of `dma_transmit`. -/
inductive TxPc
  | out
  | pushing
  | pushed (item : DataItem)
  | starting (item : DataItem)

/-- The data queue is used by the threads and by the interrupt, which is `none`; `busy` tells that
a transfer is in progress. -/
structure State (Tid : Type*) where
  queue : DataQueue.State (Option Tid)
  activated : Bool
  busy : Bool
  pc : Tid → TxPc

inductive Action (Tid : Type*)
  | write (tid : Tid) (item : DataItem)
  /-- A writer that slept in `rt_data_queue_push` comes back from `rt_schedule`. -/
  | resume (tid : Tid)
  | test (tid : Tid)
  | transmit (tid : Tid)
  /-- The transfer in progress completes. -/
  | dmaDone

inductive Event
  | pushed (item : DataItem)
  | transmitted (item : DataItem)
  | moved

section Machine

variable {Tid : Type*} [DecidableEq Tid]

def State.setPc (st : State Tid) (tid : Tid) (pc : TxPc) : State Tid :=
  { st with pc := update st.pc tid pc }

/-- How `rt_data_queue_push` goes on. -/
def pushResult (st : State Tid) (tid : Tid) (queue : DataQueue.State (Option Tid)) :
    DataQueue.Event → State Tid × Event
  | .pushed item _ => ({ st with queue := queue }.setPc tid (.pushed item), .pushed item)
  | .failed _ => ({ st with queue := queue }.setPc tid .out, .moved)
  | _ => ({ st with queue := queue }.setPc tid .pushing, .moved)

/-- `RT_WAITING_FOREVER`. -/
def waitingForever : ℤ := -1

def rtDataQueuePeak (dataQueue : RtDataQueue (Option Tid)) : Option DataItem :=
  if dataQueue.getIndex = dataQueue.putIndex then none
  else some (dataQueue.queue (dataQueue.getIndex % dataQueue.size))

/-- `RT_SERIAL_EVENT_TX_DMADONE`, with the data queue after the pop. -/
def txDmaDone (st : State Tid) (queue : DataQueue.State (Option Tid)) : State Tid × Event :=
  match rtDataQueuePeak queue.dataQueue with
  | some item =>
    ({ st with queue := queue, activated := true, busy := true }, .transmitted item)
  | none => ({ st with queue := queue, activated := false, busy := false }, .moved)

def step (st : State Tid) : Action Tid → Option (State Tid × Event)
  | .write tid item =>
    match st.pc tid, DataQueue.step st.queue
        (.call (some tid) (.push item waitingForever)) with
    | .out, some (queue, event) => some (pushResult st tid queue event)
    | _, _ => none
  | .resume tid =>
    match st.pc tid, DataQueue.step st.queue (.resume (some tid)) with
    | .pushing, some (queue, event) => some (pushResult st tid queue event)
    | _, _ => none
  | .test tid =>
    match st.pc tid with
    | .pushed item =>
      if st.activated = true then some (st.setPc tid .out, .moved)
      else some ({ st with activated := true }.setPc tid (.starting item), .moved)
    | _ => none
  | .transmit tid =>
    match st.pc tid with
    | .starting item => some ({ st with busy := true }.setPc tid .out, .transmitted item)
    | _ => none
  | .dmaDone =>
    if st.busy = true then
      match DataQueue.step st.queue (.call none (.pop 0)) with
      | some (queue, _) => some (txDmaDone st queue)
      | none => none
    else none

def machine : Machine (State Tid) (Action Tid) Event where
  step := step

def queueSize : ℕ := 8

def queueLwm : ℕ := 4

/-- `rt_serial_open` with `RT_DEVICE_FLAG_DMA_TX`; `memory` is what `rt_malloc` returns. -/
def initial (memory : ℕ → DataItem) : State Tid where
  queue := DataQueue.initial false queueSize queueLwm memory
  activated := false
  busy := false
  pc _ := .out

/-! ## The buffers that are pushed and transmitted -/

structure Notes where
  pushed : List DataItem
  sent : List DataItem

def record (notes : Notes) (_ : State Tid) (_ : Action Tid) (_ : State Tid) : Event → Notes
  | .pushed item => { notes with pushed := notes.pushed ++ [item] }
  | .transmitted item => { notes with sent := notes.sent ++ [item] }
  | .moved => notes

/-- The buffers are transmitted in the order in which they have been pushed, and all of them when
no transfer is to come. -/
structure InOrder (st : State Tid × Notes) : Prop where
  order : st.2.sent <+: st.2.pushed
  complete : st.1.activated = false → (∀ tid item, st.1.pc tid ≠ .pushed item) →
    st.2.sent = st.2.pushed

/-- A writer transmits the buffer at the head of the data queue. -/
def StartsHead (st : State Tid × Notes) : Action Tid → Prop
  | .transmit tid => ∀ item, st.1.pc tid = .starting item →
      st.1.queue.dataQueue.content.head? = some item
  | _ => True

/-- A push finds the data queue full or a slot that holds no stored buffer. -/
def PushesFree (st : State Tid × Notes) : Action Tid → Prop
  | .write _ _ | .resume _ => st.1.queue.dataQueue.SlotFree
  | _ => True

def recordedMachine : Machine (State Tid × Notes) (Action Tid) Event :=
  machine.recorded record

/-! ## The writers in the data queue -/

section Queue

omit [DecidableEq Tid]

variable {Agent : Type*} [DecidableEq Agent] {queue next : DataQueue.State Agent}
variable {agent : Agent} {event : DataQueue.Event}

/-- A thread that sleeps in the data queue has called `rt_data_queue_push`. -/
def PushPc : DataQueue.Pc → Prop
  | .out => True
  | .asleep call | .woken call _ => ∃ item timeout, call = .push item timeout

theorem pushPc_setPc (hpc : ∀ agent, PushPc (queue.pc agent)) (pc : DataQueue.Pc)
    (hnew : PushPc pc) (other : Agent) : PushPc ((queue.setPc agent pc).pc other) := by
  change PushPc (update queue.pc agent pc other)
  by_cases hother : other = agent
  · subst hother
    rw [update_self]
    exact hnew
  · rw [update_of_ne hother]
    exact hpc other

theorem pushPc_rtThreadResume (hpc : ∀ agent, PushPc (queue.pc agent)) (other : Agent) :
    PushPc ((DataQueue.rtThreadResume queue agent).pc other) := by
  rw [DataQueue.rtThreadResume]
  split
  · rename_i call hasleep
    have hcall := hpc agent
    rw [hasleep] at hcall
    exact pushPc_setPc hpc (.woken call .eok) hcall other
  · exact hpc other

theorem pushPc_pushTurn (hpc : ∀ agent, PushPc (queue.pc agent)) (item : DataItem) (timeout : ℤ)
    (other : Agent) : PushPc ((DataQueue.pushTurn queue agent item timeout).1.pc other) := by
  rw [DataQueue.pushTurn]
  split
  · split
    · exact pushPc_setPc hpc .out trivial other
    · exact pushPc_setPc hpc (.asleep (.push item timeout)) ⟨item, timeout, rfl⟩ other
  · rw [DataQueue.storeItem]
    split
    · exact pushPc_setPc hpc .out trivial other
    · refine pushPc_rtThreadResume (fun agent => ?_) other
      exact pushPc_setPc hpc .out trivial agent

theorem pushPc_popTurn (hpc : ∀ agent, PushPc (queue.pc agent)) (other : Agent) :
    PushPc ((DataQueue.popTurn queue agent 0).1.pc other) := by
  rw [DataQueue.popTurn]
  split
  · rw [if_pos rfl]
    exact pushPc_setPc hpc .out trivial other
  · rw [DataQueue.fetchItem]
    split
    · split
      · exact pushPc_setPc hpc .out trivial other
      · refine pushPc_rtThreadResume (fun agent => ?_) other
        exact pushPc_setPc hpc .out trivial agent
    · exact pushPc_setPc hpc .out trivial other

theorem pushTurn_event (item popped : DataItem) (timeout : ℤ) (notify : Option DataQueue.Notify) :
    (DataQueue.pushTurn queue agent item timeout).2 ≠ .popped popped notify := by
  rw [DataQueue.pushTurn]
  split
  · split <;> simp
  · rw [DataQueue.storeItem]
    split <;> simp

theorem pushPc_step (hpc : ∀ agent, PushPc (queue.pc agent)) {act : DataQueue.Action Agent}
    (haction : act = .resume agent ∨ ∃ item timeout, act = .call agent (.push item timeout))
    (hstep : DataQueue.step queue act = some (next, event)) :
    (∀ other, PushPc (next.pc other)) ∧ ∀ item notify, event ≠ .popped item notify := by
  rcases haction with rfl | ⟨item, timeout, rfl⟩
  · simp only [DataQueue.step] at hstep
    split at hstep
    · rename_i call err hwoken
      have hcall := hpc agent
      rw [hwoken] at hcall
      obtain ⟨item, timeout, rfl⟩ := hcall
      split at hstep
      · obtain ⟨rfl, rfl⟩ := Prod.mk.inj (Option.some.inj hstep)
        exact ⟨pushPc_pushTurn hpc item timeout,
          fun popped notify => pushTurn_event item popped timeout notify⟩
      · cases hstep
        exact ⟨pushPc_setPc hpc .out trivial, by simp⟩
    · cases hstep
  · simp only [DataQueue.step] at hstep
    split at hstep
    · obtain ⟨rfl, rfl⟩ := Prod.mk.inj (Option.some.inj hstep)
      exact ⟨pushPc_pushTurn hpc item timeout,
        fun popped notify => pushTurn_event item popped timeout notify⟩
    · cases hstep

end Queue

section Steps

variable {st next : State Tid} {notes : Notes} {act : Action Tid} {event : Event} {tid : Tid}

/-- What is pushed and not transmitted is in the data queue, behind the buffer of a transfer in
progress. -/
structure Inv (st : State Tid) (notes : Notes) : Prop where
  valid : st.queue.dataQueue.Valid queueSize
  pushPc : ∀ agent, PushPc (st.queue.pc agent)
  sent : notes.pushed = notes.sent ++
    if st.busy = true then st.queue.dataQueue.content.tail
    else st.queue.dataQueue.content
  head : st.busy = true → st.queue.dataQueue.content ≠ []
  active : (st.busy = true ∨ ∃ tid item, st.pc tid = .starting item) →
    st.activated = true
  once : ∀ tid item, st.pc tid = .starting item → st.busy = false ∧
    ∀ other item, st.pc other = .starting item → other = tid
  waits : st.activated = false → st.queue.dataQueue.content ≠ [] →
    ∃ tid item, st.pc tid = .pushed item

omit [DecidableEq Tid] in
theorem Inv.kept (hinv : Inv st notes) : InOrder (st, notes) where
  order := by
    rw [hinv.sent]
    exact List.prefix_append _ _
  complete hidle hnone := by
    have hbusy : st.busy = false := by
      by_contra hbusy
      rw [hinv.active (Or.inl (Bool.not_eq_false _ ▸ hbusy))] at hidle
      cases hidle
    have hempty : st.queue.dataQueue.content = [] := by
      by_contra hcontent
      obtain ⟨tid, item, hpc⟩ := hinv.waits hidle hcontent
      exact hnone tid item hpc
    have hsent := hinv.sent
    rw [hbusy, hempty] at hsent
    exact (hsent.trans (List.append_nil _)).symm

omit [DecidableEq Tid] in
theorem content_initial (memory : ℕ → DataItem) :
    (initial memory : State Tid).queue.dataQueue.content = [] :=
  DataQueue.content_initial false queueSize queueLwm memory

omit [DecidableEq Tid] in
theorem inv_initial (memory : ℕ → DataItem) : Inv (initial memory : State Tid) ⟨[], []⟩ where
  valid := DataQueue.valid_initial false queueLwm memory (by norm_num [queueSize])
    (by norm_num [queueSize])
  pushPc _ := trivial
  sent := by
    rw [content_initial]
    rfl
  head h := by cases h
  active h := by
    rcases h with h | ⟨tid, item, h⟩ <;> cases h
  once _ _ h := by cases h
  waits _ hcontent := absurd (content_initial memory) hcontent

/-- A thread that does not start a transfer moves, and the data queue stays as it is. -/
theorem Inv.setPc (hinv : Inv st notes) {pc : TxPc} (hpc : ∀ item, pc ≠ .starting item)
    (hactivated : st.activated = true ∨ ∀ item, st.pc tid ≠ .pushed item) :
    Inv (st.setPc tid pc) notes := by
  have hstarting : ∀ other item, (st.setPc tid pc).pc other = .starting item →
      other ≠ tid ∧ st.pc other = .starting item := by
    intro other item hother
    change update st.pc tid pc other = _ at hother
    by_cases heq : other = tid
    · subst heq
      rw [update_self] at hother
      exact absurd hother (hpc item)
    · rw [update_of_ne heq] at hother
      exact ⟨heq, hother⟩
  refine ⟨hinv.valid, hinv.pushPc, hinv.sent, hinv.head, fun h => hinv.active ?_,
    fun other item hother => ?_, fun hidle hcontent => ?_⟩
  · exact h.imp_right fun ⟨other, item, hother⟩ => ⟨other, item, (hstarting other item hother).2⟩
  · obtain ⟨hbusy, honly⟩ := hinv.once other item (hstarting other item hother).2
    exact ⟨hbusy, fun another item hanother =>
      honly another item (hstarting another item hanother).2⟩
  · obtain ⟨other, item, hother⟩ := hinv.waits hidle hcontent
    have hne : other ≠ tid := by
      rintro rfl
      rcases hactivated with htrue | hnot
      · exact Bool.false_ne_true (hidle.symm.trans htrue)
      · exact hnot item hother
    exact ⟨other, item, (update_of_ne hne _ _).trans hother⟩

variable {queue : DataQueue.State (Option Tid)}

omit [DecidableEq Tid] in
theorem Inv.setQueue (hinv : Inv st notes) (hvalid : queue.dataQueue.Valid queueSize)
    (hpushPc : ∀ agent, PushPc (queue.pc agent))
    (hcontent : queue.dataQueue.content = st.queue.dataQueue.content) :
    Inv { st with queue := queue } notes := by
  refine ⟨hvalid, hpushPc, ?_, ?_, hinv.active, hinv.once, ?_⟩
  · dsimp only
    rw [hcontent]
    exact hinv.sent
  · dsimp only
    rw [hcontent]
    exact hinv.head
  · dsimp only
    rw [hcontent]
    exact hinv.waits

theorem Inv.pushResult (hinv : Inv st notes) {queueEvent : DataQueue.Event}
    (hsim : DataQueue.Simulates queueSize st.queue (queue, queueEvent))
    (hpushPc : ∀ agent, PushPc (queue.pc agent))
    (hpush : ∀ item notify, queueEvent ≠ .popped item notify)
    (hnot : ∀ item, st.pc tid ≠ .pushed item) :
    Inv (pushResult st tid queue queueEvent).1 (record notes st act
      (pushResult st tid queue queueEvent).1 (pushResult st tid queue queueEvent).2) := by
  obtain ⟨hvalid, hfifo⟩ := hsim
  have hfifo := hfifo (.expire none)
  cases queueEvent with
  | popped item notify => exact absurd rfl (hpush item notify)
  | pushed item notify =>
    have hcontent : queue.dataQueue.content = st.queue.dataQueue.content ++ [item] := by
      simp only [DataQueue.label, Fifo.step] at hfifo
      split at hfifo
      · exact (Prod.mk.inj (Option.some.inj hfifo)).1.symm
      · cases hfifo
    have hmoved : Inv (st.setPc tid (.pushed item)) notes :=
      hinv.setPc (by simp) (Or.inr hnot)
    refine ⟨hvalid, hpushPc, ?_, fun _ => ?_, hmoved.active, hmoved.once, fun _ _ => ?_⟩
    · change notes.pushed ++ [item] = notes.sent ++ if st.busy = true then
        queue.dataQueue.content.tail else queue.dataQueue.content
      rw [hcontent, hinv.sent, List.append_assoc]
      split
      · rename_i hbusy
        rw [List.tail_append_of_ne_nil (hinv.head hbusy)]
      · rfl
    · change queue.dataQueue.content ≠ []
      rw [hcontent]
      simp
    · exact ⟨tid, item, update_self _ _ _⟩
  | failed err =>
    have hcontent := (Prod.mk.inj (Option.some.inj hfifo)).1.symm
    exact (hinv.setQueue hvalid hpushPc hcontent).setPc (by simp) (Or.inr hnot)
  | slept =>
    have hcontent := (Prod.mk.inj (Option.some.inj hfifo)).1.symm
    exact (hinv.setQueue hvalid hpushPc hcontent).setPc (by simp) (Or.inr hnot)
  | moved =>
    have hcontent := (Prod.mk.inj (Option.some.inj hfifo)).1.symm
    exact (hinv.setQueue hvalid hpushPc hcontent).setPc (by simp) (Or.inr hnot)

theorem Inv.write (hinv : Inv st notes) {item : DataItem}
    (hfree : st.queue.dataQueue.SlotFree)
    (hstep : step st (.write tid item) = some (next, event)) :
    Inv next (record notes st act next event) := by
  simp only [step] at hstep
  split at hstep
  · rename_i queue queueEvent hpc hqueue
    obtain ⟨rfl, rfl⟩ := Prod.mk.inj (Option.some.inj hstep)
    have hsim := DataQueue.simulates_step hinv.valid
      (show DataQueue.Good st.queue (.call (some tid) (.push item waitingForever)) from hfree)
      hqueue
    obtain ⟨hpushPc, hpush⟩ := pushPc_step hinv.pushPc (Or.inr ⟨item, waitingForever, rfl⟩) hqueue
    exact hinv.pushResult hsim hpushPc hpush (by simp [hpc])
  · cases hstep

theorem Inv.resume (hinv : Inv st notes) (hfree : st.queue.dataQueue.SlotFree)
    (hstep : step st (.resume tid) = some (next, event)) :
    Inv next (record notes st act next event) := by
  simp only [step] at hstep
  split at hstep
  · rename_i queue queueEvent hpc hqueue
    obtain ⟨rfl, rfl⟩ := Prod.mk.inj (Option.some.inj hstep)
    have hgood : DataQueue.Good st.queue (.resume (some tid)) := by
      change (st.queue.pc (some tid)).Free st.queue
      cases hqueuePc : st.queue.pc (some tid) with
      | woken call err =>
        cases call with
        | push item timeout => exact hfree
        | pop timeout => trivial
      | _ => trivial
    have hsim := DataQueue.simulates_step hinv.valid hgood hqueue
    obtain ⟨hpushPc, hpush⟩ := pushPc_step hinv.pushPc (Or.inl rfl) hqueue
    exact hinv.pushResult hsim hpushPc hpush (by simp [hpc])
  · cases hstep

theorem Inv.test (hinv : Inv st notes)
    (hstep : step st (.test tid) = some (next, event)) :
    Inv next (record notes st act next event) := by
  simp only [step] at hstep
  split at hstep
  · rename_i item hpc
    split at hstep <;> cases hstep
    · rename_i hactivated
      exact hinv.setPc (by simp) (Or.inl hactivated)
    · rename_i hidle
      have hnone : ∀ other item, st.pc other ≠ .starting item := fun other item hother =>
        hidle (hinv.active (Or.inr ⟨other, item, hother⟩))
      have hbusy : st.busy = false := by
        by_contra hbusy
        exact hidle (hinv.active (Or.inl (Bool.not_eq_false _ ▸ hbusy)))
      have honly : ∀ other otherItem,
          update st.pc tid (.starting item) other = .starting otherItem →
            other = tid := by
        intro other otherItem hother
        by_contra hne
        rw [update_of_ne hne] at hother
        exact hnone other otherItem hother
      refine ⟨hinv.valid, hinv.pushPc, hinv.sent, hinv.head, fun _ => rfl, fun other _ hother => ?_,
        fun h => by cases h⟩
      refine ⟨hbusy, fun another anotherItem hanother => ?_⟩
      exact (honly another anotherItem hanother).trans (honly other _ hother).symm
  · cases hstep

theorem Inv.transmit (hinv : Inv st notes)
    (hgood : StartsHead (st, notes) (.transmit tid))
    (hstep : step st (.transmit tid) = some (next, event)) :
    Inv next (record notes st act next event) := by
  simp only [step] at hstep
  split at hstep
  · rename_i item hpc
    cases hstep
    obtain ⟨hbusy, honly⟩ := hinv.once tid item hpc
    obtain ⟨rest, hcontent⟩ := List.head?_eq_some_iff.1 (hgood item hpc)
    have hnone : ∀ other otherItem,
        update st.pc tid TxPc.out other ≠ .starting otherItem := by
      intro other otherItem hother
      by_cases hne : other = tid
      · subst hne
        rw [update_self] at hother
        cases hother
      · rw [update_of_ne hne] at hother
        exact hne (honly other otherItem hother)
    have hactivated := hinv.active (Or.inr ⟨tid, item, hpc⟩)
    refine ⟨hinv.valid, hinv.pushPc, ?_, fun _ => ?_, fun _ => hactivated,
      fun other otherItem hother => absurd hother (hnone other otherItem), fun hidle => ?_⟩
    · have hsent := hinv.sent
      rw [hbusy, if_neg Bool.false_ne_true, hcontent] at hsent
      change notes.pushed = (notes.sent ++ [item]) ++ st.queue.dataQueue.content.tail
      rw [hsent, hcontent]
      simp
    · change st.queue.dataQueue.content ≠ []
      rw [hcontent]
      exact List.cons_ne_nil item rest
    · exact absurd (hactivated.symm.trans hidle) (by simp)
  · cases hstep

omit [DecidableEq Tid] in
theorem peak_eq_head {dataQueue : RtDataQueue (Option Tid)}
    (hvalid : dataQueue.Valid queueSize) :
    rtDataQueuePeak dataQueue = dataQueue.content.head? := by
  rw [rtDataQueuePeak]
  split
  · rename_i hempty
    have hcount : dataQueue.count = 0 := by
      have hlt := hvalid.put_lt
      rw [RtDataQueue.count, hempty]
      omega
    rw [RtDataQueue.content, hcount]
    rfl
  · rename_i hne
    rw [(hvalid.fetch hne).2]
    rfl

/-- The interrupt pops the buffer of the transfer that has completed. -/
theorem popTurn_content (hvalid : queue.dataQueue.Valid queueSize)
    (hhead : queue.dataQueue.content ≠ []) :
    (DataQueue.popTurn queue none 0).1.dataQueue.Valid queueSize ∧
      (DataQueue.popTurn queue none 0).1.dataQueue.content = queue.dataQueue.content.tail := by
  have hne : queue.dataQueue.getIndex ≠ queue.dataQueue.putIndex := by
    intro hempty
    have hpeak := peak_eq_head hvalid
    rw [rtDataQueuePeak, if_pos hempty] at hpeak
    exact hhead (List.head?_eq_none_iff.1 hpeak.symm)
  rw [DataQueue.popTurn, if_neg hne]
  obtain ⟨hfetched, hfifo⟩ := DataQueue.simulates_fetchItem hvalid hne
  have hfifo := hfifo (.expire none)
  have hevent : ∃ notify, (DataQueue.fetchItem queue none).2 = .popped
      (queue.dataQueue.queue (queue.dataQueue.getIndex % queue.dataQueue.size)) notify := by
    rw [DataQueue.fetchItem]
    split
    · split <;> exact ⟨_, rfl⟩
    · exact ⟨_, rfl⟩
  obtain ⟨notify, hevent⟩ := hevent
  rw [hevent, DataQueue.label] at hfifo
  refine ⟨hfetched, ?_⟩
  cases hcontent : queue.dataQueue.content with
  | nil => exact absurd hcontent hhead
  | cons item rest =>
    rw [hcontent] at hfifo
    exact (Prod.mk.inj (Option.some.inj hfifo)).1.symm

omit [DecidableEq Tid] in
theorem Inv.txDmaDone (hinv : Inv st notes) (hbusy : st.busy = true)
    (hvalid : queue.dataQueue.Valid queueSize) (hpushPc : ∀ agent, PushPc (queue.pc agent))
    (hcontent : queue.dataQueue.content = st.queue.dataQueue.content.tail) :
    Inv (txDmaDone st queue).1 (record notes st act (txDmaDone st queue).1
      (txDmaDone st queue).2) := by
  have hnone : ∀ other item, st.pc other ≠ .starting item := by
    intro other item hother
    rw [(hinv.once other item hother).1] at hbusy
    cases hbusy
  have hsent := hinv.sent
  rw [hbusy, if_pos rfl, ← hcontent] at hsent
  rw [SerialTx.txDmaDone, peak_eq_head hvalid]
  split
  · rename_i item hhead
    obtain ⟨rest, hrest⟩ := List.head?_eq_some_iff.1 hhead
    refine ⟨hvalid, hpushPc, ?_, fun _ => ?_, fun _ => rfl,
      fun other item hother => absurd hother (hnone other item), fun h => by cases h⟩
    · rw [if_pos rfl]
      change notes.pushed = (notes.sent ++ [item]) ++ queue.dataQueue.content.tail
      rw [hsent, hrest]
      simp
    · dsimp only
      rw [hrest]
      exact List.cons_ne_nil item rest
  · rename_i hhead
    have hempty := List.head?_eq_none_iff.1 hhead
    refine ⟨hvalid, hpushPc, hsent, (fun h => by cases h), fun h => ?_,
      fun other item hother => absurd hother (hnone other item),
      fun _ hcontent => absurd hempty hcontent⟩
    rcases h with h | ⟨other, item, hother⟩
    · cases h
    · exact absurd hother (hnone other item)

theorem Inv.dmaDone (hinv : Inv st notes)
    (hstep : step st .dmaDone = some (next, event)) :
    Inv next (record notes st act next event) := by
  simp only [step] at hstep
  split at hstep
  · rename_i hbusy
    split at hstep
    · rename_i queue queueEvent hqueue
      obtain ⟨rfl, rfl⟩ := Prod.mk.inj (Option.some.inj hstep)
      simp only [DataQueue.step] at hqueue
      split at hqueue
      · have hpop : (DataQueue.popTurn st.queue none 0).1 = queue :=
          congrArg Prod.fst (Option.some.inj hqueue)
        obtain ⟨hvalid, hcontent⟩ := popTurn_content hinv.valid (hinv.head hbusy)
        rw [hpop] at hvalid hcontent
        refine hinv.txDmaDone hbusy hvalid (fun other => ?_) hcontent
        rw [← hpop]
        exact pushPc_popTurn hinv.pushPc other
      · cases hqueue
    · cases hstep
  · cases hstep

theorem Inv.step (hinv : Inv st notes) (hfree : PushesFree (st, notes) act)
    (hgood : StartsHead (st, notes) act) (hstep : step st act = some (next, event)) :
    Inv next (record notes st act next event) := by
  cases act with
  | write tid item => exact hinv.write hfree hstep
  | resume tid => exact hinv.resume hfree hstep
  | test tid => exact hinv.test hstep
  | transmit tid => exact hinv.transmit hgood hstep
  | dmaDone => exact hinv.dmaDone hstep

/-- A writer transmits a buffer that is not the next one. -/
theorem not_inOrder_of_transmit (hinv : Inv st notes)
    (hbad : ¬StartsHead (st, notes) act) (hstep : step st act = some (next, event)) :
    ¬InOrder (next, record notes st act next event) := by
  cases act with
  | transmit tid =>
    simp only [StartsHead, not_forall] at hbad
    obtain ⟨item, hpc, hhead⟩ := hbad
    simp only [SerialTx.step, hpc] at hstep
    cases hstep
    intro horder
    have hsent := hinv.sent
    rw [(hinv.once tid item hpc).1, if_neg Bool.false_ne_true] at hsent
    have hprefix : notes.sent ++ [item] <+: notes.sent ++ st.queue.dataQueue.content := by
      rw [← hsent]
      exact horder.order
    obtain ⟨rest, hrest⟩ := (List.prefix_append_right_inj _).1 hprefix
    rw [← hrest] at hhead
    exact hhead rfl
  | _ => exact absurd trivial hbad

end Steps

/-- In a run whose pushes meet no slot of a stored buffer, the buffers are transmitted in the order
in which they have been pushed, each once, exactly when each writer that starts a transfer
starts that of the buffer at the head of the data queue. -/
theorem serial_dma_tx_order_iff (memory : ℕ → DataItem) {trace : List (Action Tid × Event)}
    {last : State Tid} (hrun : machine.Run (initial memory) trace last) :
    (∃ notes, recordedMachine.Run (initial memory, ⟨[], []⟩) trace (last, notes)) ∧
    ∀ notes, recordedMachine.RunWith PushesFree (initial memory, ⟨[], []⟩) trace (last, notes) →
      ((recordedMachine.RunWith (fun st _ => InOrder st) (initial memory, ⟨[], []⟩) trace
          (last, notes) ∧ InOrder (last, notes)) ↔
        recordedMachine.RunWith StartsHead (initial memory, ⟨[], []⟩) trace (last, notes)) := by
  refine ⟨hrun.recorded record _, fun notes hrecorded => ?_⟩
  refine hrecorded.always_iff_under (fun st => Inv st.1 st.2) InOrder
    (fun _ hinv => hinv.kept) ?_ ?_ (inv_initial memory)
  · rintro ⟨st, notes⟩ act ⟨next, after⟩ event hinv hfree hgood hstep
    obtain ⟨hstep, hnotes⟩ := Machine.recorded_step.1 hstep
    rw [show after = _ from hnotes]
    exact hinv.step hfree hgood hstep
  · rintro ⟨st, notes⟩ act ⟨next, after⟩ event hinv _ hbad hstep
    obtain ⟨hstep, hnotes⟩ := Machine.recorded_step.1 hstep
    rw [show after = _ from hnotes]
    exact not_inOrder_of_transmit hinv hbad hstep

instance (st : State Tid × Notes) : (act : Action Tid) → Decidable (StartsHead st act)
  | .transmit tid =>
    match hpc : st.1.pc tid with
    | .starting item =>
      decidable_of_iff (st.1.queue.dataQueue.content.head? = some item)
        (by simp [StartsHead, hpc])
    | .out | .pushing | .pushed _ => isTrue (by simp [StartsHead, hpc])
  | .write _ _ | .resume _ | .test _ | .dmaDone => isTrue trivial

instance (st : State Tid × Notes) : (act : Action Tid) → Decidable (PushesFree st act)
  | .write _ _ | .resume _ => inferInstanceAs (Decidable st.1.queue.dataQueue.SlotFree)
  | .test _ | .transmit _ | .dmaDone => isTrue trivial

/-- Two writers, the second of which comes when the transfer of the first one is in progress. -/
def scheduleTwo (first second : Tid) : List (Action Tid) :=
  [.write first ⟨7, 1⟩, .test first, .transmit first, .write second ⟨8, 2⟩, .test second, .dmaDone,
    .dmaDone]

def nothing : ℕ → DataItem := fun _ => ⟨0, 0⟩

theorem isSome_scheduleTwo : (recordedMachine.exec
    (fun st act => PushesFree st act ∧ StartsHead st act)
    (initial nothing, ⟨[], []⟩) (scheduleTwo true false)).isSome = true := by
  decide

theorem serial_dma_tx_order_scheduleTwo : ∃ trace, ∃ last : State Bool × Notes,
    recordedMachine.RunWith (fun st _ => InOrder st) (initial nothing, ⟨[], []⟩) trace last ∧
      last.2.sent = [⟨7, 1⟩, ⟨8, 2⟩] := by
  have hrun := Machine.runWith_of_isSome _ isSome_scheduleTwo
  have hfree := hrun.mono fun _ _ h => h.1
  have hhead := hrun.mono fun _ _ h => h.2
  exact ⟨_, _, (((serial_dma_tx_order_iff nothing hrun.of_recorded).2 _ hfree).2 hhead).1,
    by decide⟩

/-- Both writers have pushed when the second one tests whether a transfer is in progress. -/
def scheduleOvertake (first second : Tid) : List (Action Tid) :=
  [.write first ⟨7, 1⟩, .write second ⟨8, 2⟩, .test second, .transmit second, .dmaDone, .dmaDone,
    .test first]

theorem isSome_scheduleOvertake : (recordedMachine.exec (fun _ _ => True)
    (initial nothing, ⟨[], []⟩) (scheduleOvertake true false)).isSome = true := by
  decide

/-- The second buffer is transmitted twice, and the first one has not been transmitted. -/
theorem serial_dma_tx_overtaken : ∃ trace, ∃ last : State Bool × Notes,
    recordedMachine.Run (initial nothing, ⟨[], []⟩) trace last ∧
      last.2.pushed = [⟨7, 1⟩, ⟨8, 2⟩] ∧ last.2.sent = [⟨8, 2⟩, ⟨8, 2⟩] ∧ ¬InOrder last := by
  refine ⟨_, _, Machine.runWith_of_isSome _ isSome_scheduleOvertake, by decide,
    by decide, fun horder => ?_⟩
  exact absurd horder.order (by decide)

end Machine

end RtThread.SerialTx
