import RtThread.Core.BoundedFifo
import RtThread.Kernel.Thread

set_option linter.all false

/-!
# The data queue of the device drivers

`dataqueue.c` counts pushes and pops with two 16-bit indices that run freely.  An index is
reduced modulo the size to find its slot, the queue is empty when the indices are equal, and it
is full when their difference, which is an `int`, is the size.

The difference is negative once `put_index` has passed 65535 and `get_index` has not, and the
slots repeat out of turn there unless the size divides 65536.  The queue behaves as a bounded
queue as long as no push meets the slot of a stored item.
-/

namespace RtThread.DataQueue

open Function
open RtThread.Core
open RtThread.Kernel (Err)

/-- `struct rt_data_item`. -/
structure DataItem where
  dataPtr : ℕ
  dataSize : ℕ
  deriving DecidableEq

/-- `struct rt_data_queue`; `evtNotify` says whether the callback is set. -/
structure RtDataQueue (Tid : Type*) where
  evtNotify : Bool
  size : ℕ
  lwm : ℕ
  getIndex : ℕ
  putIndex : ℕ
  queue : ℕ → DataItem
  suspendedPushList : List Tid
  suspendedPopList : List Tid

inductive Call
  | push (item : DataItem) (timeout : ℤ)
  | pop (timeout : ℤ)
  deriving DecidableEq

def Call.timeout : Call → ℤ
  | .push _ timeout => timeout
  | .pop timeout => timeout

/-- Where a thread is: outside, suspended in a call, or resumed with `thread->error`. -/
inductive Pc
  | out
  | asleep (call : Call)
  | woken (call : Call) (err : Err)
  deriving DecidableEq

structure State (Tid : Type*) where
  dataQueue : RtDataQueue Tid
  pc : Tid → Pc

inductive Notify
  | pop | push | lwm

inductive Event
  | pushed (item : DataItem) (notify : Option Notify)
  | popped (item : DataItem) (notify : Option Notify)
  | failed (err : Err)
  | slept
  | moved

inductive Action (Tid : Type*)
  | call (tid : Tid) (call : Call)
  /-- The thread timer of a suspended thread expires. -/
  | expire (tid : Tid)
  /-- A resumed thread comes back from `rt_schedule`. -/
  | resume (tid : Tid)

variable {Tid : Type*} [DecidableEq Tid]

def rtDataQueueInit (evtNotify : Bool) (size lwm : ℕ) (queue : ℕ → DataItem) :
    RtDataQueue Tid where
  evtNotify := evtNotify
  size := size
  lwm := lwm
  getIndex := 0
  putIndex := 0
  queue := queue
  suspendedPushList := []
  suspendedPopList := []

def State.setPc (st : State Tid) (tid : Tid) (pc : Pc) : State Tid :=
  { st with pc := update st.pc tid pc }

/-- `rt_thread_resume` of a thread that was taken off the list it is suspended on. -/
def rtThreadResume (st : State Tid) (tid : Tid) : State Tid :=
  match st.pc tid with
  | .asleep call => st.setPc tid (.woken call .eok)
  | _ => st

namespace RtDataQueue

variable (dataQueue : RtDataQueue Tid)

/-- `queue->put_index - queue->get_index`, after the integer promotion. -/
def difference : ℤ :=
  (dataQueue.putIndex : ℤ) - dataQueue.getIndex

/-- The callback, if there is one. -/
def notify (event : Notify) : Option Notify :=
  if dataQueue.evtNotify = true then some event else none

def store (item : DataItem) : RtDataQueue Tid :=
  { dataQueue with
    queue := update dataQueue.queue (dataQueue.putIndex % dataQueue.size) item
    putIndex := (dataQueue.putIndex + 1) % 0x10000 }

def fetch : RtDataQueue Tid :=
  { dataQueue with getIndex := (dataQueue.getIndex + 1) % 0x10000 }

end RtDataQueue

/-- The end of `rt_data_queue_push`: store the item, and resume a reader. -/
def storeItem (st : State Tid) (tid : Tid) (item : DataItem) : State Tid × Event :=
  let stored := st.dataQueue.store item
  match stored.suspendedPopList with
  | [] => ({ st with dataQueue := stored }.setPc tid .out, .pushed item (stored.notify .push))
  | thread :: rest =>
    (rtThreadResume
      ({ st with dataQueue := { stored with suspendedPopList := rest } }.setPc tid .out)
        thread,
      .pushed item none)

/-- One turn of the loop of `rt_data_queue_push`, and what follows it. -/
def pushTurn (st : State Tid) (tid : Tid) (item : DataItem) (timeout : ℤ) :
    State Tid × Event :=
  let dataQueue := st.dataQueue
  if dataQueue.difference = dataQueue.size then
    if timeout = 0 then (st.setPc tid .out, .failed .etimeout)
    else
      ({ st with dataQueue := { dataQueue with
          suspendedPushList := dataQueue.suspendedPushList ++ [tid] } }.setPc tid
            (.asleep (.push item timeout)), .slept)
  else storeItem st tid item

/-- The end of `rt_data_queue_pop`: fetch the item, and resume a writer at the low water
mark. -/
def fetchItem (st : State Tid) (tid : Tid) : State Tid × Event :=
  let item := st.dataQueue.queue (st.dataQueue.getIndex % st.dataQueue.size)
  let fetched := st.dataQueue.fetch
  if fetched.difference ≤ (fetched.lwm : ℤ) then
    match fetched.suspendedPushList with
    | [] => ({ st with dataQueue := fetched }.setPc tid .out, .popped item (fetched.notify .lwm))
    | thread :: rest =>
      (rtThreadResume
        ({ st with dataQueue := { fetched with suspendedPushList := rest } }.setPc tid .out)
          thread, .popped item (fetched.notify .lwm))
  else ({ st with dataQueue := fetched }.setPc tid .out, .popped item (fetched.notify .pop))

/-- One turn of the loop of `rt_data_queue_pop`, and what follows it. -/
def popTurn (st : State Tid) (tid : Tid) (timeout : ℤ) : State Tid × Event :=
  let dataQueue := st.dataQueue
  if dataQueue.getIndex = dataQueue.putIndex then
    if timeout = 0 then (st.setPc tid .out, .failed .etimeout)
    else
      ({ st with dataQueue := { dataQueue with
          suspendedPopList := dataQueue.suspendedPopList ++ [tid] } }.setPc tid
            (.asleep (.pop timeout)), .slept)
  else fetchItem st tid

def turn (st : State Tid) (tid : Tid) : Call → State Tid × Event
  | .push item timeout => pushTurn st tid item timeout
  | .pop timeout => popTurn st tid timeout

/-- `rt_thread_timeout`: the thread leaves the list it is suspended on. -/
def rtThreadTimeout (st : State Tid) (tid : Tid) (call : Call) : State Tid :=
  { st with dataQueue := { st.dataQueue with
      suspendedPushList := st.dataQueue.suspendedPushList.erase tid
      suspendedPopList := st.dataQueue.suspendedPopList.erase tid } }.setPc tid
        (.woken call .etimeout)

def step (st : State Tid) : Action Tid → Option (State Tid × Event)
  | .call tid call => if st.pc tid = .out then some (turn st tid call) else none
  | .expire tid =>
    match st.pc tid with
    | .asleep call =>
      if 0 < call.timeout then some (rtThreadTimeout st tid call, .moved) else none
    | _ => none
  | .resume tid =>
    match st.pc tid with
    | .woken call err =>
      if err = .eok then some (turn st tid call)
      else some (st.setPc tid .out, .failed err)
    | _ => none

def machine : Machine (State Tid) (Action Tid) Event where
  step := step

def initial (evtNotify : Bool) (size lwm : ℕ) (queue : ℕ → DataItem) : State Tid where
  dataQueue := rtDataQueueInit evtNotify size lwm queue
  pc _ := .out

/-! ## The items in the queue -/

namespace RtDataQueue

variable (dataQueue : RtDataQueue Tid)

/-- The number of stored items; the indices have 16 bits. -/
def count : ℕ :=
  (dataQueue.putIndex + (0x10000 - dataQueue.getIndex)) % 0x10000

/-- The slot of a stored item, counted from the oldest one. -/
def slot (index : ℕ) : ℕ :=
  (dataQueue.getIndex + index) % 0x10000 % dataQueue.size

def content : List DataItem :=
  (List.range dataQueue.count).map fun index => dataQueue.queue (dataQueue.slot index)

/-- The next push finds the queue full, or a slot that holds no stored item. -/
def SlotFree : Prop :=
  dataQueue.difference ≠ dataQueue.size →
    ∀ index < dataQueue.count, dataQueue.slot index ≠ dataQueue.putIndex % dataQueue.size

instance : Decidable dataQueue.SlotFree :=
  inferInstanceAs (Decidable (_ → _))

/-- The stored items lie in different slots. -/
structure Valid (size : ℕ) : Prop where
  size_eq : dataQueue.size = size
  size_pos : 0 < size
  size_lt : size < 0x10000
  get_lt : dataQueue.getIndex < 0x10000
  put_lt : dataQueue.putIndex < 0x10000
  slot_inj : ∀ left < dataQueue.count, ∀ right < dataQueue.count,
    dataQueue.slot left = dataQueue.slot right → left = right

end RtDataQueue

section Items

variable {dataQueue dataQueue' : RtDataQueue Tid} {size : ℕ}

omit [DecidableEq Tid] in
theorem length_content : dataQueue.content.length = dataQueue.count := by
  rw [RtDataQueue.content, List.length_map, List.length_range]

namespace RtDataQueue

omit [DecidableEq Tid] in
/-- There are at most as many different slots as the queue has. -/
theorem le_size_of_slot_inj {count : ℕ} (hpos : 0 < dataQueue.size)
    (hinj : ∀ left < count, ∀ right < count,
      dataQueue.slot left = dataQueue.slot right → left = right) :
    count ≤ dataQueue.size := by
  have hmaps : Set.MapsTo dataQueue.slot (Finset.range count) (Finset.range dataQueue.size) := by
    intro index _
    exact Finset.mem_coe.2 (Finset.mem_range.2 (Nat.mod_lt _ hpos))
  have hinjOn : Set.InjOn dataQueue.slot (Finset.range count) := by
    intro left hleft right hright heq
    exact hinj left (Finset.mem_range.1 (Finset.mem_coe.1 hleft)) right
      (Finset.mem_range.1 (Finset.mem_coe.1 hright)) heq
  have hcard := Finset.card_le_card_of_injOn dataQueue.slot hmaps hinjOn
  rwa [Finset.card_range, Finset.card_range] at hcard

namespace Valid

omit [DecidableEq Tid] in
theorem get_add_count (hvalid : dataQueue.Valid size) :
    (dataQueue.getIndex + dataQueue.count) % 0x10000 = dataQueue.putIndex := by
  have hget := hvalid.get_lt
  have hput := hvalid.put_lt
  rw [count]
  omega

omit [DecidableEq Tid] in
theorem congr (hvalid : dataQueue.Valid size) (hsize : dataQueue'.size = dataQueue.size)
    (hget : dataQueue'.getIndex = dataQueue.getIndex)
    (hput : dataQueue'.putIndex = dataQueue.putIndex)
    (hqueue : dataQueue'.queue = dataQueue.queue) :
    dataQueue'.Valid size ∧ dataQueue'.content = dataQueue.content := by
  have hcount : dataQueue'.count = dataQueue.count := by
    rw [count, count, hget, hput]
  have hslot : dataQueue'.slot = dataQueue.slot := by
    funext index
    rw [slot, slot, hget, hsize]
  refine ⟨⟨hsize.trans hvalid.size_eq, hvalid.size_pos, hvalid.size_lt, ?_, ?_, ?_⟩, ?_⟩
  · exact hget ▸ hvalid.get_lt
  · exact hput ▸ hvalid.put_lt
  · rw [hcount, hslot]
    exact hvalid.slot_inj
  · rw [content, content, hcount, hslot, hqueue]

omit [DecidableEq Tid] in
theorem store (hvalid : dataQueue.Valid size)
    (hfree : ∀ index < dataQueue.count,
      dataQueue.slot index ≠ dataQueue.putIndex % dataQueue.size) (item : DataItem) :
    (dataQueue.store item).Valid size ∧
      (dataQueue.store item).content = dataQueue.content ++ [item] ∧
      dataQueue.count < size := by
  have hget := hvalid.get_lt
  have hlast : dataQueue.slot dataQueue.count = dataQueue.putIndex % dataQueue.size := by
    rw [slot, hvalid.get_add_count]
  have hinj : ∀ left < dataQueue.count + 1, ∀ right < dataQueue.count + 1,
      dataQueue.slot left = dataQueue.slot right → left = right := by
    intro left hleft right hright heq
    rcases Nat.lt_succ_iff_lt_or_eq.1 hleft with hleft | rfl
    · rcases Nat.lt_succ_iff_lt_or_eq.1 hright with hright | rfl
      · exact hvalid.slot_inj left hleft right hright heq
      · exact absurd (heq.trans hlast) (hfree left hleft)
    · rcases Nat.lt_succ_iff_lt_or_eq.1 hright with hright | rfl
      · exact absurd (heq.symm.trans hlast) (hfree right hright)
      · rfl
  have hroom : dataQueue.count + 1 ≤ size := by
    have hpos : 0 < dataQueue.size := hvalid.size_eq ▸ hvalid.size_pos
    exact (le_size_of_slot_inj hpos hinj).trans hvalid.size_eq.le
  have hcount : (dataQueue.store item).count = dataQueue.count + 1 := by
    have hlt := hvalid.size_lt
    simp only [count, RtDataQueue.store] at hroom ⊢
    omega
  have hslot : (dataQueue.store item).slot = dataQueue.slot := rfl
  refine ⟨⟨hvalid.size_eq, hvalid.size_pos, hvalid.size_lt, hget, ?_, ?_⟩, ?_, hroom⟩
  · exact Nat.mod_lt _ (by norm_num)
  · rw [hcount, hslot]
    exact hinj
  · rw [content, hcount, hslot, List.range_succ, List.map_append, List.map_singleton, content]
    congr 1
    · refine List.map_congr_left fun index hindex => ?_
      exact update_of_ne (hfree index (List.mem_range.1 hindex)) ..
    · rw [hlast]
      exact congrArg (fun stored => [stored]) (update_self ..)

omit [DecidableEq Tid] in
theorem fetch (hvalid : dataQueue.Valid size) (hne : dataQueue.getIndex ≠ dataQueue.putIndex) :
    dataQueue.fetch.Valid size ∧
      dataQueue.content = dataQueue.queue (dataQueue.getIndex % dataQueue.size) ::
        dataQueue.fetch.content := by
  have hget := hvalid.get_lt
  have hput := hvalid.put_lt
  have hcount : dataQueue.count = dataQueue.fetch.count + 1 := by
    simp only [count, RtDataQueue.fetch]
    omega
  have hslot : ∀ index, dataQueue.fetch.slot index = dataQueue.slot (index + 1) := by
    intro index
    simp only [slot, RtDataQueue.fetch]
    rw [Nat.mod_add_mod, Nat.add_assoc, Nat.add_comm 1 index]
  have hfirst : dataQueue.slot 0 = dataQueue.getIndex % dataQueue.size := by
    rw [slot, Nat.add_zero, Nat.mod_eq_of_lt hget]
  refine ⟨⟨hvalid.size_eq, hvalid.size_pos, hvalid.size_lt, ?_, hput, ?_⟩, ?_⟩
  · exact Nat.mod_lt _ (by norm_num)
  · intro left hleft right hright heq
    rw [hslot, hslot] at heq
    have hindex := hvalid.slot_inj (left + 1) (by omega) (right + 1) (by omega) heq
    omega
  · rw [content, hcount, List.range_succ_eq_map, List.map_cons, List.map_map, hfirst, content]
    congr 1
    refine List.map_congr_left fun index _ => ?_
    rw [comp, hslot]
    rfl

end Valid

end RtDataQueue

end Items

/-! ## The calls -/

/-- What the abstract queue sees of a step. -/
def label (entry : Action Tid × Event) : Fifo.Action DataItem × Option DataItem :=
  match entry.2 with
  | .pushed item _ => (.put item, none)
  | .popped item _ => (.take, some item)
  | _ => (.idle, none)

/-- A step does to the stored items what the abstract queue does. -/
def Simulates (size : ℕ) (before : State Tid) (result : State Tid × Event) : Prop :=
  result.1.dataQueue.Valid size ∧ ∀ act : Action Tid,
    Fifo.step size before.dataQueue.content (label (act, result.2)).1 =
      some (result.1.dataQueue.content, (label (act, result.2)).2)

variable {st : State Tid} {size : ℕ} {tid : Tid}

@[simp]
theorem rtThreadResume_dataQueue (st : State Tid) (tid : Tid) :
    (rtThreadResume st tid).dataQueue = st.dataQueue := by
  rw [rtThreadResume]
  split <;> rfl

omit [DecidableEq Tid] in
theorem simulates_idle {next : State Tid} {event : Event} (hvalid : st.dataQueue.Valid size)
    (hsize : next.dataQueue.size = st.dataQueue.size)
    (hget : next.dataQueue.getIndex = st.dataQueue.getIndex)
    (hput : next.dataQueue.putIndex = st.dataQueue.putIndex)
    (hqueue : next.dataQueue.queue = st.dataQueue.queue)
    (hlabel : ∀ act : Action Tid, label (act, event) = (.idle, none)) :
    Simulates size st (next, event) := by
  obtain ⟨hnext, hcontent⟩ := hvalid.congr hsize hget hput hqueue
  refine ⟨hnext, ?_⟩
  intro act
  rw [hlabel, hcontent]
  rfl

theorem simulates_storeItem (hvalid : st.dataQueue.Valid size)
    (hfree : ∀ index < st.dataQueue.count,
      st.dataQueue.slot index ≠ st.dataQueue.putIndex % st.dataQueue.size)
    (item : DataItem) : Simulates size st (storeItem st tid item) := by
  obtain ⟨hstored, hcontent, hroom⟩ := hvalid.store hfree item
  -- the waiting lists do not matter to the items
  have hgeneral : ∀ (next : State Tid) (notify : Option Notify),
      next.dataQueue.size = (st.dataQueue.store item).size →
      next.dataQueue.getIndex = (st.dataQueue.store item).getIndex →
      next.dataQueue.putIndex = (st.dataQueue.store item).putIndex →
      next.dataQueue.queue = (st.dataQueue.store item).queue →
      Simulates size st (next, .pushed item notify) := by
    intro next notify hsize hget hput hqueue
    obtain ⟨hnext, hsame⟩ := hstored.congr hsize hget hput hqueue
    refine ⟨hnext, ?_⟩
    intro act
    rw [hsame, hcontent, label, Fifo.step, if_pos (length_content.trans_lt hroom)]
  rw [storeItem]
  split
  · exact hgeneral _ _ rfl rfl rfl rfl
  · refine hgeneral _ _ ?_ ?_ ?_ ?_ <;> rw [rtThreadResume_dataQueue] <;> rfl

theorem simulates_fetchItem (hvalid : st.dataQueue.Valid size)
    (hne : st.dataQueue.getIndex ≠ st.dataQueue.putIndex) :
    Simulates size st (fetchItem st tid) := by
  obtain ⟨hfetched, hcontent⟩ := hvalid.fetch hne
  have hgeneral : ∀ (next : State Tid) (notify : Option Notify),
      next.dataQueue.size = st.dataQueue.fetch.size →
      next.dataQueue.getIndex = st.dataQueue.fetch.getIndex →
      next.dataQueue.putIndex = st.dataQueue.fetch.putIndex →
      next.dataQueue.queue = st.dataQueue.fetch.queue →
      Simulates size st (next, .popped
        (st.dataQueue.queue (st.dataQueue.getIndex % st.dataQueue.size)) notify) := by
    intro next notify hsize hget hput hqueue
    obtain ⟨hnext, hsame⟩ := hfetched.congr hsize hget hput hqueue
    refine ⟨hnext, ?_⟩
    intro act
    rw [hsame, hcontent, label, Fifo.step]
  rw [fetchItem]
  split
  · split
    · exact hgeneral _ _ rfl rfl rfl rfl
    · refine hgeneral _ _ ?_ ?_ ?_ ?_ <;> rw [rtThreadResume_dataQueue] <;> rfl
  · exact hgeneral _ _ rfl rfl rfl rfl

/-- The condition on a turn of a call: a push finds the queue full or a free slot. -/
def Call.Free (st : State Tid) : Call → Prop
  | .push _ _ => st.dataQueue.SlotFree
  | .pop _ => True

instance (st : State Tid) (call : Call) : Decidable (call.Free st) :=
  match call with
  | .push _ _ => inferInstanceAs (Decidable st.dataQueue.SlotFree)
  | .pop _ => isTrue trivial

/-- A thread that was resumed looks again. -/
def Pc.Free (st : State Tid) : Pc → Prop
  | .woken call _ => call.Free st
  | _ => True

instance (st : State Tid) (pc : Pc) : Decidable (pc.Free st) :=
  match pc with
  | .woken call _ => inferInstanceAs (Decidable (call.Free st))
  | .out => isTrue trivial
  | .asleep _ => isTrue trivial

theorem simulates_turn {call : Call} (hvalid : st.dataQueue.Valid size)
    (hfree : call.Free st) : Simulates size st (turn st tid call) := by
  cases call with
  | push item timeout =>
    rw [turn, pushTurn]
    split
    · split
      · exact simulates_idle hvalid rfl rfl rfl rfl fun _ => rfl
      · exact simulates_idle hvalid rfl rfl rfl rfl fun _ => rfl
    · next hroom => exact simulates_storeItem hvalid (hfree hroom) item
  | pop timeout =>
    rw [turn, popTurn]
    split
    · split
      · exact simulates_idle hvalid rfl rfl rfl rfl fun _ => rfl
      · exact simulates_idle hvalid rfl rfl rfl rfl fun _ => rfl
    · next hne => exact simulates_fetchItem hvalid hne

/-! ## Runs -/

/-- Every turn of a push finds the queue full or a free slot. -/
def Good (st : State Tid) : Action Tid → Prop
  | .call _ call => call.Free st
  | .expire _ => True
  | .resume tid => (st.pc tid).Free st

instance (st : State Tid) (act : Action Tid) : Decidable (Good st act) :=
  match act with
  | .call _ call => inferInstanceAs (Decidable (call.Free st))
  | .expire _ => isTrue trivial
  | .resume tid => inferInstanceAs (Decidable ((st.pc tid).Free st))

theorem simulates_step {next : State Tid} {act : Action Tid} {event : Event}
    (hvalid : st.dataQueue.Valid size) (hgood : Good st act)
    (hstep : step st act = some (next, event)) : Simulates size st (next, event) := by
  cases act with
  | call tid call =>
    simp only [step] at hstep
    split at hstep
    · rw [← Option.some.inj hstep]
      exact simulates_turn hvalid hgood
    · contradiction
  | expire tid =>
    simp only [step] at hstep
    split at hstep
    · split at hstep
      · rw [← Option.some.inj hstep]
        exact simulates_idle hvalid rfl rfl rfl rfl fun _ => rfl
      · contradiction
    · contradiction
  | resume tid =>
    simp only [step] at hstep
    split at hstep
    · next call err hpc =>
      simp only [Good, hpc, Pc.Free] at hgood
      split at hstep <;> rw [← Option.some.inj hstep]
      · exact simulates_turn hvalid hgood
      · exact simulates_idle hvalid rfl rfl rfl rfl fun _ => rfl
    · contradiction

/-- The items of the successful pushes. -/
def pushed (trace : List (Action Tid × Event)) : List DataItem :=
  trace.filterMap fun entry =>
    match entry.2 with
    | .pushed item _ => some item
    | _ => none

/-- The items of the successful pops. -/
def popped (trace : List (Action Tid × Event)) : List DataItem :=
  trace.filterMap fun entry =>
    match entry.2 with
    | .popped item _ => some item
    | _ => none

omit [DecidableEq Tid] in
theorem history_map_label (trace : List (Action Tid × Event)) :
    Fifo.history (trace.map label) = (pushed trace, popped trace) := by
  induction trace using List.reverseRecOn with
  | nil => rfl
  | append_singleton past entry ih =>
    rw [List.map_append, List.map_singleton, Fifo.history_snoc, ih]
    simp only [pushed, popped, List.filterMap_append]
    obtain ⟨act, event⟩ := entry
    cases event with
    | pushed item notify => simp [label]
    | popped item notify => simp [label]
    | failed err => simp [label]
    | slept => simp [label]
    | moved => simp [label]

omit [DecidableEq Tid] in
theorem count_initial (evtNotify : Bool) (size lwm : ℕ) (queue : ℕ → DataItem) :
    (initial evtNotify size lwm queue : State Tid).dataQueue.count = 0 := by
  simp [initial, rtDataQueueInit, RtDataQueue.count]

omit [DecidableEq Tid] in
theorem content_initial (evtNotify : Bool) (size lwm : ℕ) (queue : ℕ → DataItem) :
    (initial evtNotify size lwm queue : State Tid).dataQueue.content = [] := by
  rw [RtDataQueue.content, count_initial]
  rfl

omit [DecidableEq Tid] in
theorem valid_initial (evtNotify : Bool) (lwm : ℕ) (queue : ℕ → DataItem) (hpos : 0 < size)
    (hlt : size < 0x10000) :
    (initial evtNotify size lwm queue : State Tid).dataQueue.Valid size := by
  refine ⟨rfl, hpos, hlt, Nat.two_pow_pos 16, Nat.two_pow_pos 16, ?_⟩
  rw [count_initial]
  intro left hleft
  exact absurd hleft (Nat.not_lt_zero left)

/-- In every run whose pushes find the queue full or a free slot, the data queue behaves as a
bounded queue. -/
theorem data_queue_refines_fifo (evtNotify : Bool) (size lwm : ℕ) (queue : ℕ → DataItem)
    (hpos : 0 < size) (hlt : size < 0x10000) {trace : List (Action Tid × Event)}
    {last : State Tid}
    (hrun : machine.RunWith Good (initial evtNotify size lwm queue) trace last) :
    (Fifo.machine size).Run [] (trace.map label) last.dataQueue.content ∧
      last.dataQueue.count ≤ size ∧
      pushed trace = popped trace ++ last.dataQueue.content := by
  have hqueue : (Fifo.machine size).Run
      (initial evtNotify size lwm queue : State Tid).dataQueue.content
      (trace.map label) last.dataQueue.content :=
    hrun.simulates (fun st => st.dataQueue.content) label
      (fun st => st.dataQueue.Valid size)
      (fun _ _ _ _ hvalid hgood hstep => (simulates_step hvalid hgood hstep).1)
      (fun _ _ _ _ hvalid hgood hstep => (simulates_step hvalid hgood hstep).2 _)
      (valid_initial evtNotify lwm queue hpos hlt)
  rw [content_initial] at hqueue
  obtain ⟨hhistory, hlength⟩ := Fifo.run_history hqueue
  rw [history_map_label] at hhistory
  exact ⟨hqueue, length_content.ge.trans hlength, hhistory⟩

/-- A writer that finds the queue of one item full sleeps, and is resumed by the reader. -/
def scheduleSleep : List (Action ℕ) :=
  [.call 0 (.push ⟨7, 1⟩ 0), .call 0 (.push ⟨8, 2⟩ 5), .call 1 (.pop 0), .resume 0,
    .call 1 (.pop 0)]

theorem isSome_scheduleSleep : (machine.exec Good
    (initial true 1 0 fun _ => ⟨0, 0⟩) scheduleSleep).isSome = true := by
  decide

theorem data_queue_refines_fifo_scheduleSleep : ∃ trace, ∃ last : State ℕ,
    machine.RunWith Good (initial true 1 0 fun _ => ⟨0, 0⟩) trace last ∧
      popped trace = [⟨7, 1⟩, ⟨8, 2⟩] ∧
      pushed trace = popped trace ++ last.dataQueue.content := by
  have hrun := Machine.runWith_of_isSome scheduleSleep isSome_scheduleSleep
  exact ⟨_, _, hrun, by decide,
    (data_queue_refines_fifo true 1 0 _ (by decide) (by decide) hrun).2.2⟩

/-! ## When the indices wrap -/

/-- An empty queue of one item after `index` pushes and pops. -/
def lap (index : ℕ) : State Unit where
  dataQueue :=
    { evtNotify := false
      size := 1
      lwm := 0
      getIndex := index
      putIndex := index
      queue := fun _ => ⟨0, 0⟩
      suspendedPushList := []
      suspendedPopList := [] }
  pc _ := .out

def lapTrace : List (Action Unit × Event) :=
  [(.call () (.push ⟨0, 0⟩ 0), .pushed ⟨0, 0⟩ none), (.call () (.pop 0), .popped ⟨0, 0⟩ none)]

theorem run_lap {index : ℕ} (hlt : index < 0xffff) :
    machine.Run (lap index) lapTrace (lap (index + 1)) := by
  have hmod : (index + 1) % 0x10000 = index + 1 := Nat.mod_eq_of_lt (by omega)
  let half : State Unit := { lap index with
    dataQueue := { (lap index).dataQueue with putIndex := index + 1 } }
  have hpush : step (lap index) (.call () (.push ⟨0, 0⟩ 0)) =
      some (half, .pushed ⟨0, 0⟩ none) := by
    simp [step, turn, pushTurn, storeItem, lap, half, RtDataQueue.store, RtDataQueue.difference,
      RtDataQueue.notify, State.setPc, hmod]
  have hpop : step half (.call () (.pop 0)) = some (lap (index + 1), .popped ⟨0, 0⟩ none) := by
    simp [step, turn, popTurn, fetchItem, lap, half, RtDataQueue.fetch, RtDataQueue.difference,
      RtDataQueue.notify, State.setPc, hmod]
  exact .cons trivial hpush (.cons trivial hpop (.nil _))

theorem run_laps {count : ℕ} (hle : count ≤ 0xffff) :
    machine.Run (lap 0) (List.replicate count lapTrace).flatten (lap count) := by
  induction count with
  | zero => exact .nil _
  | succ count ih =>
    rw [List.replicate_succ', List.flatten_append, List.flatten_singleton]
    exact (ih (by omega)).append (run_lap (by omega))

theorem pushed_laps (count : ℕ) :
    pushed (List.replicate count lapTrace).flatten = List.replicate count ⟨0, 0⟩ := by
  induction count with
  | zero => rfl
  | succ count ih =>
    rw [List.replicate_succ, List.flatten_cons, List.replicate_succ, ← ih]
    rfl

theorem popped_laps (count : ℕ) :
    popped (List.replicate count lapTrace).flatten = List.replicate count ⟨0, 0⟩ := by
  induction count with
  | zero => rfl
  | succ count ih =>
    rw [List.replicate_succ, List.flatten_cons, List.replicate_succ, ← ih]
    rfl

/-- The second push is not seen to find the queue full, and the first item is lost. -/
def scheduleWrap : List (Action Unit) :=
  [.call () (.push ⟨7, 1⟩ 0), .call () (.push ⟨8, 2⟩ 0), .call () (.pop 0)]

theorem exec_scheduleWrap : (machine.exec (fun _ _ => True) (lap 0xffff) scheduleWrap).map
    (fun result => (pushed result.2, popped result.2)) =
      some ([⟨7, 1⟩, ⟨8, 2⟩], [⟨8, 2⟩]) := by
  decide

theorem item_lost_at_wrap : ∃ trace, ∃ last : State Unit,
    machine.Run (initial false 1 0 fun _ => ⟨0, 0⟩) trace last ∧
      ¬ ∃ queue, (Fifo.machine 1).Run [] (trace.map label) queue := by
  obtain ⟨⟨last, tail⟩, hexec, hitems⟩ := Option.map_eq_some_iff.1 exec_scheduleWrap
  obtain ⟨hpushed, hpopped⟩ := Prod.mk.inj hitems
  have hrun := (run_laps le_rfl).append (Machine.runWith_of_exec scheduleWrap hexec)
  refine ⟨_, last, hrun, ?_⟩
  rintro ⟨queue, hqueue⟩
  have hhistory := (Fifo.run_history hqueue).1
  rw [history_map_label, pushed, popped, List.filterMap_append, List.filterMap_append,
    ← pushed, ← pushed, ← popped, ← popped, pushed_laps, popped_laps, hpushed, hpopped,
    List.append_assoc] at hhistory
  have htail := List.append_cancel_left hhistory
  simp at htail

end RtThread.DataQueue
