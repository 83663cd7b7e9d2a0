import RtThread.Ipc.MessageQueueCells

set_option linter.all false

/-!
# What a message queue delivers

Only the owner of a cell writes it, so what a receiver copies out is what the sender
copied in, whatever runs in between.  The history of a run is read off its trace: which
messages were linked, in which order they left, and what each receiver found in its
buffer.
-/

namespace RtThread.MessageQueue

open Function
open RtThread.Core
open RtThread.Core.DequeLog
open RtThread.Kernel
open RtThread.Mailbox (remaining resumeFirst suspendThread)

variable {Tid Byte : Type*}

/-! ## Histories -/

/-- A message that a receiver has taken off the queue. -/
structure Job (Byte : Type*) where
  entry : Entry (List Byte)
  /-- What was linked and taken since the queue was last empty, until then. -/
  ops : List (Op (List Byte))

/-- The arguments of a call of `rt_mq_recv`; the buffer is what was there before. -/
structure Request (Byte : Type*) where
  size : ℕ
  buffer : ℕ → Byte

/-- A call of `rt_mq_recv` that returned `RT_EOK`. -/
structure Reception (Byte : Type*) where
  request : Option (Request Byte)
  job : Option (Job Byte)
  /-- What the call left in the buffer. -/
  buffer : ℕ → Byte

/-- The last call of each thread, the last message it took, and what was received. -/
structure History (Tid Byte : Type*) where
  log : Log (List Byte)
  request : Tid → Option (Request Byte)
  job : Tid → Option (Job Byte)
  receptions : List (Reception Byte)

def History.empty : History Tid Byte where
  log := Log.empty
  request := fun _ => none
  job := fun _ => none
  receptions := []

section Record

variable [DecidableEq Tid]

def History.call (history : History Tid Byte) : Action Tid Byte → History Tid Byte
  | .recv tid size buffer _ =>
    { history with request := update history.request tid (some ⟨size, buffer⟩) }
  | _ => history

def Mode.op (message : List Byte) : Mode → Op (List Byte)
  | .send => .pushBack message
  | .urgent => .pushFront message

def History.observe (history : History Tid Byte) : Event Tid Byte → History Tid Byte
  | .linked _ mode message => { history with log := history.log.record (mode.op message) }
  | .dequeued tid =>
    { history with
      log := history.log.record .pop
      job := update history.job tid
        (history.log.queue.head?.map fun entry => ⟨entry, history.log.since⟩) }
  | .controlled .eok => { history with log := history.log.record .clear }
  | .received tid buffer =>
    { history with
      receptions := history.receptions ++ [⟨history.request tid, history.job tid, buffer⟩] }
  | _ => history

def historyOf (trace : List (Action Tid Byte × Event Tid Byte)) : History Tid Byte :=
  trace.foldl (fun history entry => (history.call entry.1).observe entry.2) History.empty

theorem historyOf_snoc (trace : List (Action Tid Byte × Event Tid Byte))
    (act : Action Tid Byte) (event : Event Tid Byte) :
    historyOf (trace ++ [(act, event)]) = ((historyOf trace).call act).observe event := by
  simp [historyOf]

end Record

/-! ## The invariant -/

/-- The bytes of the message stand at the beginning of the memory. -/
def Stores (bytes : ℕ → Byte) (message : List Byte) : Prop :=
  ∀ i < message.length, message[i]? = some (bytes i)

/-- The message of a job is one that left the queue, and the operations it remembers
explain why it was this one. -/
structure Job.Valid (msgSize : ℕ) (log : Log (List Byte)) (job : Job Byte) : Prop where
  left : job.entry ∈ log.left
  first : (replay job.ops).head? = some job.entry.value
  turn : BackOnly job.ops → (pushed job.ops)[pops job.ops]? = some job.entry.value
  length_le : job.entry.value.length ≤ msgSize

/-- What a receiver finds in its buffer: the bytes of the message as far as the buffer
reaches, and behind the bytes that `rt_memcpy` moves what was there before. -/
structure Reception.Delivers (msgSize : ℕ) (log : Log (List Byte)) (reception : Reception Byte)
    (request : Request Byte) (job : Job Byte) : Prop where
  request_eq : reception.request = some request
  job_eq : reception.job = some job
  valid : job.Valid msgSize log
  message : ∀ i < min job.entry.value.length request.size,
    job.entry.value[i]? = some (reception.buffer i)
  behind : ∀ i, min request.size msgSize ≤ i → reception.buffer i = request.buffer i

/-- A receiver has copied `count` bytes of the cell. -/
structure Reads (history : History Tid Byte) (mq : RtMessageQueue Tid Byte) (tid : Tid)
    (msg : ℕ) (buffer : ℕ → Byte) (count : ℕ) (request : Request Byte) (job : Job Byte) :
    Prop where
  request_eq : history.request tid = some request
  job_eq : history.job tid = some job
  valid : job.Valid mq.msgSize history.log
  stores : Stores (mq.data msg) job.entry.value
  copied : ∀ i < count, buffer i = mq.data msg i
  behind : ∀ i, count ≤ i → buffer i = request.buffer i
  count_le : count ≤ min request.size mq.msgSize

/-- What the local variables of a call say about its cell. -/
def Working (history : History Tid Byte) (mq : RtMessageQueue Tid Byte) (tid : Tid) :
    Pc Byte → Prop
  | .out => True
  | .allocated _ _ message => message.length ≤ mq.msgSize
  | .writing mode msg message count =>
    message.length ≤ mq.msgSize ∧ Stores (mq.data msg) (message.take count) ∧
      (mode = .send → mq.next msg = none)
  | .waiting size buffer _ _ => history.request tid = some ⟨size, buffer⟩
  | .reading msg size buffer count =>
    ∃ request job, request.size = size ∧ Reads history mq tid msg buffer count request job

/-- What holds of a history by itself. -/
structure History.Sound (msgSize : ℕ) (history : History Tid Byte) : Prop where
  ordered : Ordered history.log
  balanced : Balanced history.log
  replay_eq : history.log.queue.map Entry.value = replay history.log.since
  delivered : ∀ reception ∈ history.receptions,
    ∃ request job, reception.Delivers msgSize history.log request job

/-- A queued cell has the message of its entry. -/
def Carries (msgSize : ℕ) (data : ℕ → ℕ → Byte) (cell : ℕ) (entry : Entry (List Byte)) : Prop :=
  Stores (data cell) entry.value ∧ entry.value.length ≤ msgSize

/-- The queue is as the history says. -/
structure Inv (msgSize maxMsgs : ℕ) (history : History Tid Byte) (st : State Tid Byte)
    (free queued : List ℕ) : Prop where
  linked : Linked st.mq st.pc free queued
  entry_eq : st.mq.entry = queued.length
  content : List.Forall₂ (Carries msgSize st.mq.data) queued history.log.queue
  working : ∀ tid, Working history st.mq tid (st.pc tid)
  sound : history.Sound msgSize
  sizes : st.mq.msgSize = msgSize ∧ st.mq.maxMsgs = maxMsgs ∧ maxMsgs < 0x10000

/-! ## What the others do not notice -/

section Frame

variable {msgSize : ℕ} {history history' : History Tid Byte} {mq mq' : RtMessageQueue Tid Byte}
  {tid : Tid} {pc : Pc Byte}

theorem left_subset_record (log : Log (List Byte)) (op : Op (List Byte)) :
    log.left ⊆ (log.record op).left := by
  cases op with
  | pushBack message => exact List.Subset.refl _
  | pushFront message => exact List.Subset.refl _
  | pop => exact List.subset_append_left _ _
  | clear => exact List.Subset.refl _

theorem Job.Valid.mono {log log' : Log (List Byte)} {job : Job Byte}
    (hvalid : job.Valid msgSize log) (hleft : log.left ⊆ log'.left) : job.Valid msgSize log' :=
  ⟨hleft hvalid.left, hvalid.first, hvalid.turn, hvalid.length_le⟩

/-- Nothing that the call of `tid` depends on has changed. -/
structure Undisturbed (history history' : History Tid Byte) (mq mq' : RtMessageQueue Tid Byte)
    (tid : Tid) (pc : Pc Byte) : Prop where
  msgSize_eq : mq'.msgSize = mq.msgSize
  next_eq : ∀ msg, pc.held = some msg → mq'.next msg = mq.next msg
  data_eq : ∀ msg, pc.held = some msg → mq'.data msg = mq.data msg
  request_eq : history'.request tid = history.request tid
  job_eq : history'.job tid = history.job tid
  left_subset : history.log.left ⊆ history'.log.left

theorem Working.frame (hworking : Working history mq tid pc)
    (hsame : Undisturbed history history' mq mq' tid pc) : Working history' mq' tid pc := by
  cases pc with
  | out => exact hworking
  | allocated mode msg message =>
    rw [Working, hsame.msgSize_eq]
    exact hworking
  | writing mode msg message count =>
    rw [Working, hsame.msgSize_eq, hsame.data_eq msg rfl, hsame.next_eq msg rfl]
    exact hworking
  | waiting size buffer timeout start =>
    rw [Working, hsame.request_eq]
    exact hworking
  | reading msg size buffer count =>
    obtain ⟨request, job, hsize, hreads⟩ := hworking
    refine ⟨request, job, hsize, ?_⟩
    exact
      { request_eq := hsame.request_eq.trans hreads.request_eq
        job_eq := hsame.job_eq.trans hreads.job_eq
        valid := by
          rw [hsame.msgSize_eq]
          exact hreads.valid.mono hsame.left_subset
        stores := by
          rw [hsame.data_eq msg rfl]
          exact hreads.stores
        copied := by
          rw [hsame.data_eq msg rfl]
          exact hreads.copied
        behind := hreads.behind
        count_le := by
          rw [hsame.msgSize_eq]
          exact hreads.count_le }

theorem History.Sound.record (hsound : history.Sound msgSize) (op : Op (List Byte))
    (hlog : history'.log = history.log.record op)
    (hreceptions : history'.receptions = history.receptions) : history'.Sound msgSize where
  ordered := hlog ▸ hsound.ordered.record op
  balanced := hlog ▸ hsound.balanced.record op
  replay_eq := by
    rw [hlog]
    exact replay_record hsound.replay_eq op
  delivered reception hmem := by
    rw [hreceptions] at hmem
    obtain ⟨request, job, hdelivers⟩ := hsound.delivered reception hmem
    refine ⟨request, job, hdelivers.request_eq, hdelivers.job_eq, ?_, hdelivers.message,
      hdelivers.behind⟩
    rw [hlog]
    exact hdelivers.valid.mono (left_subset_record _ _)

variable {maxMsgs : ℕ} {st st' : State Tid Byte} {free queued : List ℕ}

theorem Inv.working_of (hinv : Inv msgSize maxMsgs history st free queued) (tid : Tid)
    (hself : Working history' mq' tid (st'.pc tid))
    (hothers : ∀ other, other ≠ tid → st'.pc other = st.pc other ∧
      Undisturbed history history' st.mq mq' other (st.pc other)) :
    ∀ other, Working history' mq' other (st'.pc other) := by
  intro other
  by_cases hother : other = tid
  · rw [hother]
    exact hself
  · obtain ⟨hpc, hsame⟩ := hothers other hother
    rw [hpc]
    exact (hinv.working other).frame hsame

/-- Writing a cell that is not queued leaves the queued messages alone. -/
theorem Inv.content_of (hinv : Inv msgSize maxMsgs history st free queued)
    {data : ℕ → ℕ → Byte} (hdata : ∀ cell ∈ queued, data cell = st.mq.data cell) :
    List.Forall₂ (Carries msgSize data) queued history.log.queue := by
  have hmem : List.Forall₂ (fun cell entry => cell ∈ queued ∧
      Carries msgSize st.mq.data cell entry) queued history.log.queue :=
    (List.forall₂_and_left queued history.log.queue).2 ⟨fun _ hcell => hcell, hinv.content⟩
  refine hmem.imp fun cell entry hcarries => ?_
  rw [Carries, hdata cell hcarries.1]
  exact hcarries.2

end Frame

/-! ## The steps -/

section Steps

variable [DecidableEq Tid] {msgSize maxMsgs : ℕ} {history : History Tid Byte}
  {st : State Tid Byte} {free queued : List ℕ} {tid : Tid} {after : Pc Byte} {msg : ℕ}

omit [DecidableEq Tid] in
/-- Threads, waiters and the clock are no part of the invariant. -/
theorem Inv.environment (hinv : Inv msgSize maxMsgs history st free queued)
    (threads : Tid → Thread) (waiters : List Tid) (tick : ℕ) :
    Inv msgSize maxMsgs history
      { st with
        threads := threads
        mq := { st.mq with suspendThread := waiters }
        tick := tick } free queued where
  linked := ⟨hinv.linked.freeChain, hinv.linked.queueChain, hinv.linked.tail_eq,
    hinv.linked.parts⟩
  entry_eq := hinv.entry_eq
  content := hinv.content
  working tid := (hinv.working tid).frame
    ⟨rfl, fun _ _ => rfl, fun _ _ => rfl, rfl, rfl, List.Subset.refl _⟩
  sound := hinv.sound
  sizes := hinv.sizes

theorem setPc_pc_of_ne {other : Tid} (hne : other ≠ tid) :
    (setPc st tid after).pc other = st.pc other :=
  update_of_ne hne _ _

@[simp]
theorem setPc_pc_self : (setPc st tid after).pc tid = after :=
  update_self _ _ _

theorem Inv.setPc (hinv : Inv msgSize maxMsgs history st free queued)
    (hheld : after.held = (st.pc tid).held) (hself : Working history st.mq tid after) :
    Inv msgSize maxMsgs history (setPc st tid after) free queued where
  linked := by
    refine hinv.linked.of_held fun other => ?_
    by_cases hother : other = tid
    · rw [hother, setPc_pc_self, hheld]
    · rw [setPc_pc_of_ne hother]
  entry_eq := hinv.entry_eq
  content := hinv.content
  working := by
    refine hinv.working_of tid ?_ fun other hother => ⟨setPc_pc_of_ne hother, ?_⟩
    · rw [setPc_pc_self]
      exact hself
    · exact ⟨rfl, fun _ _ => rfl, fun _ _ => rfl, rfl, rfl, List.Subset.refl _⟩
  sound := hinv.sound
  sizes := hinv.sizes

variable {message : List Byte}

theorem Inv.allocate (hinv : Inv msgSize maxMsgs history st free queued) (mode : Mode)
    (hfree : st.mq.msgQueueFree = some msg) (hbefore : (st.pc tid).held = none)
    (hlength : message.length ≤ st.mq.msgSize) : ∃ rest, Inv msgSize maxMsgs history
      (MessageQueue.setPc
        { st with mq := { st.mq with msgQueueFree := st.mq.next msg } } tid
        (.allocated mode msg message)) rest queued := by
  have hafter : (Pc.allocated mode msg message).held = some msg := rfl
  obtain ⟨rest, hlinked⟩ := hinv.linked.allocate hfree hbefore hafter
  refine ⟨rest, ?_⟩
  exact
    { linked := hlinked
      entry_eq := hinv.entry_eq
      content := hinv.content
      working := by
        refine hinv.working_of tid ?_ fun other hother => ⟨setPc_pc_of_ne hother, ?_⟩
        · rw [setPc_pc_self]
          exact hlength
        · exact ⟨rfl, fun _ _ => rfl, fun _ _ => rfl, rfl, rfl, List.Subset.refl _⟩
      sound := hinv.sound
      sizes := hinv.sizes }

omit [DecidableEq Tid] in
theorem Inv.held_ne (hinv : Inv msgSize maxMsgs history st free queued)
    (hheld : (st.pc tid).held = some msg) {other : Tid} (hother : other ≠ tid) {cell : ℕ}
    (hcell : (st.pc other).held = some cell) : cell ≠ msg := by
  intro heq
  subst heq
  exact hother (hinv.linked.held_inj hcell hheld)

variable {mode : Mode}

theorem Inv.startCopy (hinv : Inv msgSize maxMsgs history st free queued)
    (hpc : st.pc tid = .allocated mode msg message) : Inv msgSize maxMsgs history
      (MessageQueue.setPc { st with mq := startCopy st.mq msg mode } tid
        (.writing mode msg message 0)) free queued := by
  have hheld : (st.pc tid).held = some msg := by rw [hpc]; rfl
  have hlength : message.length ≤ st.mq.msgSize := by
    have hworking := hinv.working tid
    rwa [hpc] at hworking
  have hnothing : Stores (st.mq.data msg) (message.take 0) := by simp [Stores]
  cases mode with
  | send =>
    have hmoved : Inv msgSize maxMsgs history
        { st with mq := MessageQueue.startCopy st.mq msg .send } free queued :=
      { linked := hinv.linked.startCopy hheld .send
        entry_eq := hinv.entry_eq
        content := hinv.content
        working := by
          refine hinv.working_of tid ?_ fun other hother => ⟨rfl, ?_⟩
          · rw [hpc]
            exact hlength
          · refine ⟨rfl, fun cell hcell => ?_, fun _ _ => rfl, rfl, rfl, List.Subset.refl _⟩
            exact update_of_ne (hinv.held_ne hheld hother hcell) _ _
        sound := hinv.sound
        sizes := hinv.sizes }
    refine hmoved.setPc hheld.symm ⟨hlength, hnothing, fun _ => ?_⟩
    exact update_self _ _ _
  | urgent => exact hinv.setPc hheld.symm ⟨hlength, hnothing, fun hmode => nomatch hmode⟩

variable {count : ℕ}

omit [DecidableEq Tid] in
theorem stores_update {bytes : ℕ → Byte} {byte : Byte} (hstores : Stores bytes (message.take count))
    (hbyte : message[count]? = some byte) :
    Stores (update bytes count byte) (message.take (count + 1)) := by
  intro i hi
  rw [List.length_take] at hi
  rw [List.getElem?_take_of_lt (by omega)]
  by_cases heq : i = count
  · rw [heq, update_self, hbyte]
  · rw [update_of_ne heq]
    have hlt : i < (message.take count).length := by
      rw [List.length_take]
      omega
    have hold := hstores i hlt
    rwa [List.getElem?_take_of_lt (by omega)] at hold

theorem Inv.writeByte (hinv : Inv msgSize maxMsgs history st free queued) {byte : Byte}
    (hpc : st.pc tid = .writing mode msg message count) (hbyte : message[count]? = some byte) :
    Inv msgSize maxMsgs history
      (MessageQueue.setPc { st with mq := writeByte st.mq msg count byte } tid
        (.writing mode msg message (count + 1))) free queued := by
  have hheld : (st.pc tid).held = some msg := by rw [hpc]; rfl
  have hworking := hinv.working tid
  rw [hpc] at hworking
  obtain ⟨hlength, hstores, hnext⟩ := hworking
  exact
    { linked := by
        have hlinked : Linked (MessageQueue.writeByte st.mq msg count byte) st.pc free
            queued := ⟨hinv.linked.freeChain, hinv.linked.queueChain, hinv.linked.tail_eq,
          hinv.linked.parts⟩
        refine hlinked.of_held fun other => ?_
        by_cases hother : other = tid
        · rw [hother, setPc_pc_self, hheld]
          rfl
        · rw [setPc_pc_of_ne hother]
      entry_eq := hinv.entry_eq
      content := by
        refine hinv.content_of fun cell hcell => ?_
        have hne : cell ≠ msg := fun heq => (hinv.linked.held_not_mem hheld).2 (heq ▸ hcell)
        exact update_of_ne hne _ _
      working := by
        refine hinv.working_of tid ?_ fun other hother => ⟨setPc_pc_of_ne hother, ?_⟩
        · rw [setPc_pc_self]
          refine ⟨hlength, ?_, hnext⟩
          have hdata : (MessageQueue.writeByte st.mq msg count byte).data msg =
              update (st.mq.data msg) count byte := update_self _ _ _
          show Stores ((MessageQueue.writeByte st.mq msg count byte).data msg) _
          rw [hdata]
          exact stores_update hstores hbyte
        · refine ⟨rfl, fun _ _ => rfl, fun cell hcell => ?_, rfl, rfl, List.Subset.refl _⟩
          exact update_of_ne (hinv.held_ne hheld hother hcell) _ _
      sound := hinv.sound
      sizes := hinv.sizes }

omit [DecidableEq Tid] in
theorem Inv.carries (hinv : Inv msgSize maxMsgs history st free queued)
    (hpc : st.pc tid = .writing mode msg message count) (hend : message[count]? = none)
    {entry : Entry (List Byte)} (hvalue : entry.value = message) :
    Carries msgSize st.mq.data msg entry := by
  have hworking := hinv.working tid
  rw [hpc] at hworking
  obtain ⟨hlength, hstores, -⟩ := hworking
  rw [List.getElem?_eq_none_iff] at hend
  rw [List.take_of_length_le hend] at hstores
  rw [Carries, hvalue, ← hinv.sizes.1]
  exact ⟨hstores, hlength⟩

omit [DecidableEq Tid] in
/-- Only the old tail is written when a cell is linked behind it. -/
theorem next_linkTail {mq : RtMessageQueue Tid Byte} {cell : ℕ}
    (hne : mq.msgQueueTail ≠ some cell) : (linkTail mq msg).next cell = mq.next cell := by
  rw [linkTail]
  cases htail : mq.msgQueueTail with
  | none => rfl
  | some tail =>
    rw [htail] at hne
    exact update_of_ne (fun heq => hne (by rw [heq])) _ _

/-- The second critical section of a sender, wherever the cell goes. -/
theorem Inv.link_of (hinv : Inv msgSize maxMsgs history st free queued) {queued' : List ℕ}
    (hlinked : Linked (link st.mq msg mode) (update st.pc tid .out) free queued')
    (hlength : queued'.length = queued.length + 1)
    (hcontent : List.Forall₂ (Carries msgSize st.mq.data) queued'
      (history.log.record (mode.op message)).queue)
    (hnext : ∀ other, other ≠ tid → ∀ cell, (st.pc other).held = some cell →
      (link st.mq msg mode).next cell = st.mq.next cell) :
    Inv msgSize maxMsgs (history.observe (.linked tid mode message))
      (MessageQueue.setPc { st with mq := link st.mq msg mode } tid .out) free queued' := by
  have hentry : (link st.mq msg mode).entry = (st.mq.entry + 1) % 0x10000 := by
    cases mode <;> rfl
  have hframe : (link st.mq msg mode).data = st.mq.data ∧
      (link st.mq msg mode).msgSize = st.mq.msgSize ∧
      (link st.mq msg mode).maxMsgs = st.mq.maxMsgs := by
    cases mode <;> exact ⟨rfl, rfl, rfl⟩
  obtain ⟨hdata, hmsgSize, hmaxMsgs⟩ := hframe
  exact
    { linked := hlinked
      entry_eq := by
        have hle := hlinked.length_queued_le
        rw [hlength, hmaxMsgs, hinv.sizes.2.1] at hle
        have hlt := hinv.sizes.2.2
        show (link st.mq msg mode).entry = queued'.length
        rw [hentry, hlength, hinv.entry_eq]
        exact Nat.mod_eq_of_lt (by omega)
      content := by
        show List.Forall₂ (Carries msgSize (link st.mq msg mode).data) _ _
        rw [hdata]
        exact hcontent
      working := by
        refine hinv.working_of tid ?_ fun other hother => ⟨setPc_pc_of_ne hother, ?_⟩
        · rw [setPc_pc_self]
          trivial
        · exact ⟨hmsgSize, hnext other hother, fun cell _ => congrFun hdata cell, rfl, rfl,
            left_subset_record _ _⟩
      sound := hinv.sound.record (mode.op message) rfl rfl
      sizes := ⟨hmsgSize.trans hinv.sizes.1, hmaxMsgs.trans hinv.sizes.2.1, hinv.sizes.2.2⟩ }

theorem Inv.link (hinv : Inv msgSize maxMsgs history st free queued)
    (hpc : st.pc tid = .writing mode msg message count) (hend : message[count]? = none) :
    ∃ queued', Inv msgSize maxMsgs (history.observe (.linked tid mode message))
      (MessageQueue.setPc { st with mq := link st.mq msg mode } tid .out) free queued' := by
  have hheld : (st.pc tid).held = some msg := by rw [hpc]; rfl
  have hout : (Pc.out : Pc Byte).held = none := rfl
  cases mode with
  | send =>
    have hnone : st.mq.next msg = none := by
      have hworking := hinv.working tid
      rw [hpc] at hworking
      exact hworking.2.2 rfl
    refine ⟨queued ++ [msg], hinv.link_of (hinv.linked.linkTail hheld hout hnone) (by simp)
      ?_ fun other hother cell hcell => next_linkTail ?_⟩
    · exact List.rel_append hinv.content
        (.cons (hinv.carries hpc hend rfl) .nil)
    · intro htail
      rw [hinv.linked.tail_eq] at htail
      exact (hinv.linked.held_not_mem hcell).2 (List.mem_of_getLast? htail)
  | urgent =>
    refine ⟨msg :: queued, hinv.link_of (hinv.linked.linkHead hheld hout) (by simp)
      (.cons (hinv.carries hpc hend rfl) hinv.content) fun other hother cell hcell => ?_⟩
    exact update_of_ne (hinv.held_ne hheld hother hcell) _ _

omit [DecidableEq Tid] in
theorem Inv.entry_pred {rest : List ℕ}
    (hinv : Inv msgSize maxMsgs history st free (msg :: rest)) :
    (st.mq.entry + 0xffff) % 0x10000 = rest.length := by
  have hle := hinv.linked.length_queued_le
  rw [List.length_cons, hinv.sizes.2.1] at hle
  have hlt := hinv.sizes.2.2
  rw [hinv.entry_eq, List.length_cons]
  omega

variable {request : Request Byte}

/-- The first critical section of a receiver, which finds the queue not empty. -/
theorem Inv.dequeue {rest : List ℕ} (hinv : Inv msgSize maxMsgs history st free (msg :: rest))
    (hcount : count = rest.length) (hbefore : (st.pc tid).held = none)
    (hrequest : history.request tid = some request) :
    Inv msgSize maxMsgs (history.observe (.dequeued tid))
      (MessageQueue.setPc
        { st with mq := { unlinkHead st.mq msg with entry := count } }
        tid (.reading msg request.size request.buffer 0)) free rest := by
  have hafter : (Pc.reading msg request.size request.buffer 0).held = some msg := rfl
  have hlinked := hinv.linked.dequeue hbefore hafter
  obtain ⟨entry, others, ⟨hstores, hlength⟩, hrest, hqueue⟩ :=
    List.forall₂_cons_left_iff.1 hinv.content
  have hreplay := hinv.sound.replay_eq
  rw [hqueue, List.map_cons] at hreplay
  have hjob : history.log.queue.head?.map (fun entry => Job.mk entry history.log.since) =
      some ⟨entry, history.log.since⟩ := by rw [hqueue]; rfl
  have hleft : (history.log.record .pop).left = history.log.left ++ [entry] := by
    simp [Log.record, hqueue]
  exact
    { linked := ⟨hlinked.freeChain, hlinked.queueChain, hlinked.tail_eq, hlinked.parts⟩
      entry_eq := hcount
      content := by
        have hpop : (history.log.record .pop).queue = others := by simp [Log.record, hqueue]
        show List.Forall₂ _ rest (history.log.record .pop).queue
        rw [hpop]
        exact hrest
      working := by
        refine hinv.working_of tid ?_ fun other hother => ⟨setPc_pc_of_ne hother, ?_⟩
        · rw [setPc_pc_self]
          refine ⟨request, ⟨entry, history.log.since⟩, rfl, ?_⟩
          exact
            { request_eq := hrequest
              job_eq := (update_self _ _ _).trans hjob
              valid := by
                refine ⟨?_, ?_, fun hback => ?_, hinv.sizes.1.symm ▸ hlength⟩
                · show entry ∈ (history.log.record .pop).left
                  rw [hleft]
                  exact List.mem_append_right _ (List.mem_singleton_self entry)
                · show (replay history.log.since).head? = some entry.value
                  rw [← hreplay]
                  rfl
                · have hdrop := hinv.sound.balanced.backOnly hback
                  rw [hqueue, List.map_cons] at hdrop
                  show (pushed history.log.since)[pops history.log.since]? = some entry.value
                  rw [← List.head?_drop, ← hdrop]
                  rfl
              stores := hstores
              copied := fun i hi => absurd hi (Nat.not_lt_zero i)
              behind := fun _ _ => rfl
              count_le := Nat.zero_le _ }
        · exact ⟨rfl, fun _ _ => rfl, fun _ _ => rfl, rfl, update_of_ne hother _ _,
            left_subset_record _ _⟩
      sound := hinv.sound.record .pop rfl rfl
      sizes := hinv.sizes }

variable {buffer : ℕ → Byte}

/-- The next byte goes into the buffer of the receiver. -/
theorem Inv.readByte (hinv : Inv msgSize maxMsgs history st free queued) {size : ℕ}
    (hpc : st.pc tid = .reading msg size buffer count) (hcount : count < min size st.mq.msgSize) :
    Inv msgSize maxMsgs history
      (MessageQueue.setPc st tid
        (.reading msg size (update buffer count (st.mq.data msg count))
          (count + 1))) free queued := by
  have hworking := hinv.working tid
  rw [hpc] at hworking
  obtain ⟨request, job, rfl, hreads⟩ := hworking
  refine hinv.setPc (by rw [hpc]; rfl) ⟨request, job, rfl, hreads.request_eq, hreads.job_eq,
    hreads.valid, hreads.stores, fun i hi => ?_, fun i hi => ?_, hcount⟩
  · by_cases heq : i = count
    · rw [heq, update_self]
    · rw [update_of_ne heq]
      exact hreads.copied i (by omega)
  · rw [update_of_ne (by omega)]
    exact hreads.behind i (by omega)

omit [DecidableEq Tid] in
theorem Reads.delivers {mq : RtMessageQueue Tid Byte} {job : Job Byte}
    (hreads : Reads history mq tid msg buffer count request job)
    (hend : ¬ count < min request.size mq.msgSize) :
    (Reception.mk (history.request tid) (history.job tid) buffer).Delivers mq.msgSize history.log
      request job where
  request_eq := hreads.request_eq
  job_eq := hreads.job_eq
  valid := hreads.valid
  message i hi := by
    have hlength := hreads.valid.length_le
    have hcopied : buffer i = mq.data msg i := hreads.copied i (by omega)
    show job.entry.value[i]? = some (buffer i)
    rw [hcopied]
    exact hreads.stores i (by omega)
  behind i hi := hreads.behind i (hreads.count_le.trans hi)

theorem Inv.release (hinv : Inv msgSize maxMsgs history st free queued) {size : ℕ}
    (hpc : st.pc tid = .reading msg size buffer count) (hend : ¬ count < min size st.mq.msgSize) :
    Inv msgSize maxMsgs (history.observe (.received tid buffer))
      (MessageQueue.setPc { st with mq := release st.mq msg } tid .out)
      (msg :: free) queued := by
  have hheld : (st.pc tid).held = some msg := by rw [hpc]; rfl
  have hout : (Pc.out : Pc Byte).held = none := rfl
  have hworking := hinv.working tid
  rw [hpc] at hworking
  obtain ⟨request, job, rfl, hreads⟩ := hworking
  have hdelivers := hreads.delivers hend
  rw [hinv.sizes.1] at hdelivers
  exact
    { linked := hinv.linked.release hheld hout
      entry_eq := hinv.entry_eq
      content := hinv.content
      working := by
        refine hinv.working_of tid ?_ fun other hother => ⟨setPc_pc_of_ne hother, ?_⟩
        · rw [setPc_pc_self]
          trivial
        · refine ⟨rfl, fun cell hcell => ?_, fun _ _ => rfl, rfl, rfl, List.Subset.refl _⟩
          exact update_of_ne (hinv.held_ne hheld hother hcell) _ _
      sound := by
        refine ⟨hinv.sound.ordered, hinv.sound.balanced, hinv.sound.replay_eq,
          fun reception hmem => ?_⟩
        rcases List.mem_append.1 hmem with hold | hnew
        · exact hinv.sound.delivered reception hold
        · rw [List.mem_singleton] at hnew
          rw [hnew]
          exact ⟨request, job, hdelivers⟩
      sizes := hinv.sizes }

/-- `RT_IPC_CMD_RESET`; the cells that threads work on are left alone. -/
theorem Inv.reset (hinv : Inv msgSize maxMsgs history st free queued) :
    ∃ free', Inv msgSize maxMsgs (history.observe (.controlled .eok))
      { st with mq := { releaseAll st.mq.maxMsgs st.mq with entry := 0 } }
      free' [] := by
  obtain ⟨⟨free', hlinked⟩, hnext⟩ := hinv.linked.releaseAll hinv.linked.length_queued_le
  obtain ⟨hdata, hmsgSize, hmaxMsgs⟩ := releaseAll_frame st.mq.maxMsgs st.mq
  refine ⟨free', ?_⟩
  exact
    { linked := ⟨hlinked.freeChain, hlinked.queueChain, hlinked.tail_eq, hlinked.parts⟩
      entry_eq := rfl
      content := .nil
      working := fun tid => (hinv.working tid).frame
        ⟨hmsgSize, fun cell hcell => hnext cell (hinv.linked.held_not_mem hcell).2,
          fun cell _ => congrFun hdata cell, rfl, rfl, left_subset_record _ _⟩
      sound := hinv.sound.record .clear rfl rfl
      sizes := ⟨hmsgSize.trans hinv.sizes.1, hmaxMsgs.trans hinv.sizes.2.1, hinv.sizes.2.2⟩ }

theorem Inv.call (hinv : Inv msgSize maxMsgs history st free queued)
    (hout : st.pc tid = .out) (size : ℕ) (buffer : ℕ → Byte) (timeout : ℤ) :
    Inv msgSize maxMsgs (history.call (.recv tid size buffer timeout)) st free queued where
  linked := hinv.linked
  entry_eq := hinv.entry_eq
  content := hinv.content
  working := by
    refine hinv.working_of tid ?_ fun other hother => ⟨rfl, ?_⟩
    · rw [hout]
      trivial
    · exact ⟨rfl, fun _ _ => rfl, fun _ _ => rfl, update_of_ne hother _ _, rfl,
        List.Subset.refl _⟩
  sound := ⟨hinv.sound.ordered, hinv.sound.balanced, hinv.sound.replay_eq, hinv.sound.delivered⟩
  sizes := hinv.sizes

/-! ## Calls -/

/-- The queue is as the history says after a step, and no null pointer was followed. -/
def Keeps (msgSize maxMsgs : ℕ) (history : History Tid Byte)
    (result : State Tid Byte × Event Tid Byte) : Prop :=
  (∃ free queued, Inv msgSize maxMsgs (history.observe result.2) result.1 free queued) ∧
    ∀ tid, result.2 ≠ .faulted tid

omit [DecidableEq Tid] in
theorem State.canCall.pc_eq (hcall : st.canCall tid) : st.pc tid = .out := by
  have hout := hcall.1
  cases hpc : st.pc tid with
  | out => rfl
  | allocated mode msg message => rw [hpc] at hout; contradiction
  | writing mode msg message count => rw [hpc] at hout; contradiction
  | waiting size buffer timeout start => rw [hpc] at hout; contradiction
  | reading msg size buffer count => rw [hpc] at hout; contradiction

theorem keeps_allocate (hinv : Inv msgSize maxMsgs history st free queued) (mode : Mode)
    (message : List Byte) (hout : st.pc tid = .out) :
    Keeps msgSize maxMsgs history (allocate mode st tid message) := by
  have hheld : (st.pc tid).held = none := by rw [hout]; rfl
  rw [MessageQueue.allocate]
  split
  · exact ⟨⟨free, queued, hinv⟩, by simp⟩
  · next hlength =>
      split
      · exact ⟨⟨free, queued, hinv⟩, by simp⟩
      · next msg hfree =>
          obtain ⟨rest, hnext⟩ :=
            hinv.allocate mode hfree hheld (Nat.le_of_not_lt hlength)
          exact ⟨⟨rest, queued, hnext⟩, by simp⟩

theorem keeps_recvTurn (hinv : Inv msgSize maxMsgs history st free queued)
    (hheld : (st.pc tid).held = none) (hrequest : history.request tid = some request)
    (timeout : ℤ) :
    Keeps msgSize maxMsgs history
      (recvTurn st tid request.size request.buffer timeout) := by
  rw [recvTurn]
  split
  · split
    · refine ⟨⟨free, queued, ?_⟩, by simp⟩
      exact (hinv.environment _ st.mq.suspendThread st.tick).setPc hheld.symm trivial
    · refine ⟨⟨free, queued, ?_⟩, by simp⟩
      exact (hinv.environment _ _ st.tick).setPc hheld.symm hrequest
  · next hentry =>
      -- the count is not zero, so there is a head
      cases queued with
      | nil => exact absurd hinv.entry_eq hentry
      | cons msg rest =>
        rw [hinv.linked.queueChain.1]
        exact ⟨⟨free, rest, hinv.dequeue hinv.entry_pred hheld hrequest⟩, by simp⟩

theorem keeps_rtMqRecv (hinv : Inv msgSize maxMsgs history st free queued) (size : ℕ)
    (buffer : ℕ → Byte) (timeout : ℤ) (hout : st.pc tid = .out) :
    Keeps msgSize maxMsgs (history.call (.recv tid size buffer timeout))
      (rtMqRecv st tid size buffer timeout) := by
  have hcall := hinv.call hout size buffer timeout
  have hheld : (st.pc tid).held = none := by rw [hout]; rfl
  rw [rtMqRecv]
  split
  · exact ⟨⟨free, queued, hcall⟩, by simp⟩
  · exact keeps_recvTurn hcall hheld (update_self _ _ _) timeout

theorem keeps_afterSchedule (hinv : Inv msgSize maxMsgs history st free queued)
    {result : State Tid Byte × Event Tid Byte} (hstep : afterSchedule st tid = some result) :
    Keeps msgSize maxMsgs history result := by
  rw [afterSchedule] at hstep
  cases hpc : st.pc tid with
  | waiting size buffer timeout start =>
    have hheld : (st.pc tid).held = none := by rw [hpc]; rfl
    have hrequest := hinv.working tid
    rw [hpc] at hrequest hstep
    simp only at hstep
    split at hstep
    · contradiction
    · split at hstep
      · cases hstep
        exact ⟨⟨free, queued, hinv.setPc hheld.symm trivial⟩, by simp⟩
      · cases hstep
        exact keeps_recvTurn hinv hheld hrequest _
  | out => rw [hpc] at hstep; contradiction
  | allocated mode msg message => rw [hpc] at hstep; contradiction
  | writing mode msg message count => rw [hpc] at hstep; contradiction
  | reading msg size buffer count => rw [hpc] at hstep; contradiction

theorem keeps_afterSection (hinv : Inv msgSize maxMsgs history st free queued)
    {result : State Tid Byte × Event Tid Byte} (hstep : afterSection st tid = some result) :
    Keeps msgSize maxMsgs history result := by
  rw [afterSection] at hstep
  cases hpc : st.pc tid with
  | out => rw [hpc] at hstep; contradiction
  | waiting size buffer timeout start => rw [hpc] at hstep; contradiction
  | allocated mode msg message =>
    rw [hpc] at hstep
    cases hstep
    exact ⟨⟨free, queued, hinv.startCopy hpc⟩, by simp⟩
  | writing mode msg message count =>
    rw [hpc] at hstep
    simp only at hstep
    split at hstep
    · next byte hbyte =>
        cases hstep
        exact ⟨⟨free, queued, hinv.writeByte hpc hbyte⟩, by simp⟩
    · next hend =>
        cases hstep
        obtain ⟨queued', hlinked⟩ := hinv.link hpc hend
        exact ⟨⟨free, queued', hlinked.environment _ _ st.tick⟩, by simp⟩
  | reading msg size buffer count =>
    rw [hpc] at hstep
    simp only at hstep
    split at hstep
    · next hcount =>
        cases hstep
        exact ⟨⟨free, queued, hinv.readByte hpc hcount⟩, by simp⟩
    · next hend =>
        cases hstep
        exact ⟨⟨msg :: free, queued, hinv.release hpc hend⟩, by simp⟩

theorem keeps_rtMqControl (hinv : Inv msgSize maxMsgs history st free queued) (cmd : ℕ) :
    Keeps msgSize maxMsgs history (rtMqControl st cmd) := by
  rw [rtMqControl]
  split
  · obtain ⟨free', hreset⟩ := hinv.reset
    exact ⟨⟨free', [], hreset.environment _ [] st.tick⟩, by simp⟩
  · exact ⟨⟨free, queued, hinv⟩, by simp⟩

theorem keeps_step (hinv : Inv msgSize maxMsgs history st free queued)
    {act : Action Tid Byte} {next : State Tid Byte} {event : Event Tid Byte}
    (hstep : step st act = some (next, event)) :
    Keeps msgSize maxMsgs (history.call act) (next, event) := by
  cases act with
  | send tid message =>
    simp only [step] at hstep
    split at hstep
    · next hcall =>
        rw [← Option.some.inj hstep]
        exact keeps_allocate hinv .send message hcall.1.pc_eq
    · contradiction
  | urgent tid message =>
    simp only [step] at hstep
    split at hstep
    · next hcall =>
        rw [← Option.some.inj hstep]
        exact keeps_allocate hinv .urgent message hcall.1.pc_eq
    · contradiction
  | recv tid size buffer timeout =>
    simp only [step] at hstep
    split at hstep
    · next hcall =>
        rw [← Option.some.inj hstep]
        exact keeps_rtMqRecv hinv size buffer timeout hcall.1.pc_eq
    · contradiction
  | proceed tid =>
    simp only [step] at hstep
    split at hstep
    · exact keeps_afterSection hinv hstep
    · contradiction
  | resume tid => exact keeps_afterSchedule hinv hstep
  | control cmd =>
    rw [← Option.some.inj hstep]
    exact keeps_rtMqControl hinv cmd
  | timeout tid =>
    simp only [step] at hstep
    split at hstep
    · rw [← Option.some.inj hstep]
      exact ⟨⟨free, queued, hinv.environment _ _ st.tick⟩, by simp⟩
    · contradiction
  | tick =>
    rw [← Option.some.inj hstep]
    exact ⟨⟨free, queued, hinv.environment st.threads st.mq.suspendThread _⟩, by simp⟩

end Steps

/-! ## Runs -/

section Runs

theorem chain_initFree (next : ℕ → Option ℕ) (count : ℕ) :
    Chain (initFree next count).1 (initFree next count).2 (List.range count).reverse := by
  induction count with
  | zero => exact rfl
  | succ temp ih =>
    rw [List.range_succ, List.reverse_append, List.reverse_singleton, List.singleton_append]
    exact ih.push (by simp)

variable [DecidableEq Tid] (layout : Layout) (threads : Tid → Thread) (tick : ℕ)
  (next : ℕ → Option ℕ) (data : ℕ → ℕ → Byte) (msgSize poolSize : ℕ) (flag : IpcFlag)

omit [DecidableEq Tid] in
theorem inv_rtMqInit :
    Inv (rtMqInit layout threads tick next data msgSize poolSize flag).mq.msgSize
      (rtMqInit layout threads tick next data msgSize poolSize flag).mq.maxMsgs
      (History.empty : History Tid Byte)
      (rtMqInit layout threads tick next data msgSize poolSize flag)
      (List.range (rtMqInit layout threads tick next data msgSize poolSize flag).mq.maxMsgs).reverse
      [] where
  linked :=
    { freeChain := chain_initFree next _
      queueChain := rfl
      tail_eq := rfl
      parts :=
        { nodup := fun owner => by
            cases owner with
            | free => exact List.nodup_reverse.2 List.nodup_range
            | queue => exact List.nodup_nil
            | thread tid => exact List.nodup_nil
          cover := fun cell => by
            constructor
            · intro hcell
              exact ⟨.free, List.mem_reverse.2 (List.mem_range.2 hcell)⟩
            · rintro ⟨owner, hmem⟩
              cases owner with
              | free => exact List.mem_range.1 (List.mem_reverse.1 hmem)
              | queue => exact absurd hmem List.not_mem_nil
              | thread tid => exact absurd hmem List.not_mem_nil
          unique := fun owner owner' cell hmem hmem' => by
            cases owner with
            | free =>
              cases owner' with
              | free => rfl
              | queue => exact absurd hmem' List.not_mem_nil
              | thread tid => exact absurd hmem' List.not_mem_nil
            | queue => exact absurd hmem List.not_mem_nil
            | thread tid => exact absurd hmem List.not_mem_nil } }
  entry_eq := rfl
  content := .nil
  working := fun _ => trivial
  sound := ⟨ordered_empty, balanced_empty, rfl, fun _ hmem => absurd hmem List.not_mem_nil⟩
  sizes := ⟨rfl, rfl, Nat.mod_lt _ (by decide)⟩

variable {layout threads tick next data msgSize poolSize flag}

theorem inv_of_run {trace : List (Action Tid Byte × Event Tid Byte)} {last : State Tid Byte}
    (hrun : machine.Run (rtMqInit layout threads tick next data msgSize poolSize flag)
      trace last) :
    (∃ free queued,
      Inv (rtMqInit layout threads tick next data msgSize poolSize flag).mq.msgSize
        (rtMqInit layout threads tick next data msgSize poolSize flag).mq.maxMsgs
        (historyOf trace) last free queued) ∧
      ∀ entry ∈ trace, ∀ tid, entry.2 ≠ .faulted tid := by
  refine hrun.traceInvariant
    (fun past st =>
      (∃ free queued,
        Inv (rtMqInit layout threads tick next data msgSize poolSize flag).mq.msgSize
          (rtMqInit layout threads tick next data msgSize poolSize flag).mq.maxMsgs
          (historyOf past) st free queued) ∧
        ∀ entry ∈ past, ∀ tid, entry.2 ≠ .faulted tid)
    ?_ ⟨⟨_, [], inv_rtMqInit layout threads tick next data msgSize poolSize flag⟩, by simp⟩
  rintro past st act st' event ⟨⟨free, queued, hinv⟩, hpast⟩ - hstep
  obtain ⟨hnext, hfault⟩ := keeps_step hinv hstep
  refine ⟨?_, fun entry hmem => ?_⟩
  · rw [historyOf_snoc]
    exact hnext
  · rcases List.mem_append.1 hmem with hold | hnew
    · exact hpast entry hold
    · rw [List.mem_singleton] at hnew
      rw [hnew]
      exact hfault

/-- In every interleaving the free list, the queue and the threads in the middle of a call
share out the cells of the pool, the count and the tail are those of the queue, the
messages leave in the order they were linked in, urgent ones before all they met, and a
receiver finds the message in its buffer as far as the buffer reaches. -/
theorem messageQueue_conserves_and_delivers (layout : Layout) (threads : Tid → Thread)
    (tick : ℕ) (next : ℕ → Option ℕ) (data : ℕ → ℕ → Byte) (msgSize poolSize : ℕ)
    (flag : IpcFlag) {trace : List (Action Tid Byte × Event Tid Byte)} {last : State Tid Byte}
    (hrun : machine.Run (rtMqInit layout threads tick next data msgSize poolSize flag)
      trace last) :
    (∃ free queued,
      Chain last.mq.next last.mq.msgQueueFree free ∧
      Chain last.mq.next last.mq.msgQueueHead queued ∧
      Partitions (owned free queued last.pc)
        {cell | cell < (rtMqInit layout threads tick next data msgSize poolSize flag).mq.maxMsgs} ∧
      last.mq.entry = queued.length ∧
      last.mq.msgQueueTail = queued.getLast? ∧ (last.mq.msgQueueTail = none ↔ queued = []) ∧
      List.Forall₂ (fun cell entry => Stores (last.mq.data cell) entry.value) queued
        (historyOf trace).log.queue) ∧
      (historyOf trace).log.order.Pairwise LeavesBefore ∧
      (∀ reception ∈ (historyOf trace).receptions, ∃ request job,
        reception.Delivers
          (rtMqInit layout threads tick next data msgSize poolSize flag).mq.msgSize
          (historyOf trace).log request job) ∧
      ∀ entry ∈ trace, ∀ tid, entry.2 ≠ .faulted tid := by
  obtain ⟨⟨free, queued, hinv⟩, hfault⟩ := inv_of_run hrun
  refine ⟨⟨free, queued, hinv.linked.freeChain, hinv.linked.queueChain, ?_, hinv.entry_eq,
    hinv.linked.tail_eq, ?_, ?_⟩, hinv.sound.ordered.leaves, hinv.sound.delivered, hfault⟩
  · rw [← hinv.sizes.2.1]
    exact hinv.linked.parts
  · rw [hinv.linked.tail_eq]
    exact List.getLast?_eq_none_iff
  · exact hinv.content.imp fun cell entry hcarries => hcarries.1

end Runs

/-- The options of a 32-bit processor. -/
def layout32 : Layout where
  rtAlignSize := 4
  headerSize := 4

/-- A queue with two cells of four bytes. -/
def twoCells : State ℕ ℕ :=
  rtMqInit layout32 (fun _ => Thread.started 10) 0 (fun _ => none) (fun _ _ => 0) 3 16 .fifo

/-- An urgent message overtakes one that is being copied; the queue is reset while the
receiver copies. -/
def overtaken : List (Action ℕ ℕ) :=
  [.send 0 [1, 2], .urgent 1 [9], .proceed 0, .proceed 1, .proceed 0, .proceed 1, .proceed 0,
    .proceed 0, .proceed 1, .recv 2 3 (fun _ => 7) 0, .proceed 2, .control 1, .proceed 2,
    .proceed 2, .proceed 2]

theorem isSome_overtaken :
    (machine.exec (fun _ _ => True) twoCells overtaken).isSome = true := by
  decide

/-- The receiver gets the urgent message although the other was started first. -/
theorem messageQueue_conserves_and_delivers_overtaken :
    ∃ trace last, machine.Run twoCells trace last ∧ last.mq.entry = 0 ∧
      (historyOf trace).receptions.map (fun reception =>
        (reception.job.map fun job => job.entry.value, reception.buffer 0)) = [(some [9], 9)] ∧
      ∀ reception ∈ (historyOf trace).receptions, ∃ request job,
        reception.Delivers 4 (historyOf trace).log request job := by
  have hrun := Machine.runWith_of_isSome overtaken isSome_overtaken
  refine ⟨_, _, hrun, ?_, ?_, ?_⟩
  · decide
  · decide
  · exact (messageQueue_conserves_and_delivers layout32 _ 0 _ _ 3 16 .fifo hrun).2.2.1

end RtThread.MessageQueue
