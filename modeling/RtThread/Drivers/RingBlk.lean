import RtThread.Core.Machine

set_option linter.all false

/-!
# The ring block buffer

`ringblk_buf.c` cuts blocks out of one buffer.  The descriptors of the blocks lie in an array
(`blk_set`); the blocks that were handed out are also on a list, in the order of their
allocation, and a new block is placed by looking at the first and the last block of that list
only.  `rt_rbb_blk_queue_get` takes a run of blocks off the list and hands it to a reader as a
position in the array and a count.

The blocks in use stay inside the buffer and apart from each other, except where a block is
allocated in the way of a reader, is larger than the buffer, or is empty and closes the last
gap.
-/

namespace RtThread.RingBlk

open Function
open RtThread.Core

inductive RtRbbStatus
  | unused | inited | put | get
  deriving DecidableEq

/-- `struct rt_rbb_blk` without its list node. -/
structure RtRbbBlk where
  status : RtRbbStatus
  size : ℕ
  buf : ℕ

namespace RtRbbBlk

variable (blk : RtRbbBlk)

def Used : Prop :=
  blk.status ≠ .unused

instance : Decidable blk.Used :=
  inferInstanceAs (Decidable (blk.status ≠ .unused))

def stop : ℕ :=
  blk.buf + blk.size

def range : Finset ℕ :=
  Finset.Ico blk.buf blk.stop

end RtRbbBlk

/-- What `rt_rbb_init` fixes, on a machine whose pointers and sizes have `wordBits` bits. -/
structure Setup where
  wordBits : ℕ
  buf : ℕ
  bufSize : ℕ
  blkMaxNum : ℕ
  wordBits_ge : 32 ≤ wordBits
  buf_lt : buf + bufSize < 2 ^ wordBits

namespace Setup

variable (setup : Setup)

def stop : ℕ :=
  setup.buf + setup.bufSize

def add (left right : ℕ) : ℕ :=
  (left + right) % 2 ^ setup.wordBits

def sub (left right : ℕ) : ℕ :=
  (left + (2 ^ setup.wordBits - right)) % 2 ^ setup.wordBits

theorem add_eq {left right : ℕ} (hlt : left + right < 2 ^ setup.wordBits) :
    setup.add left right = left + right :=
  Nat.mod_eq_of_lt hlt

theorem sub_eq {left right : ℕ} (hle : right ≤ left) (hlt : left < 2 ^ setup.wordBits) :
    setup.sub left right = left - right := by
  have hsum : left + (2 ^ setup.wordBits - right) = left - right + 2 ^ setup.wordBits := by omega
  rw [sub, hsum, Nat.add_mod_right, Nat.mod_eq_of_lt (by omega)]

end Setup

/-- The part of `struct rt_rbb` that changes: the block set and, by their index in it, the
blocks on `blk_list`. -/
structure RtRbb where
  blkSet : ℕ → RtRbbBlk
  blkList : List ℕ

/-- `struct rt_rbb_blk_queue`: the block `blocks` points to, by its index, and the count. -/
structure RtRbbBlkQueue where
  blocks : ℕ
  blkNum : ℕ
  deriving DecidableEq

/-- Where a call stops: at an assertion, or behind the end of the block set. -/
inductive Fault
  | assertion
  | outOfBounds

def setBlk (rbb : RtRbb) (blk : ℕ) (value : RtRbbBlk) : RtRbb :=
  { rbb with blkSet := update rbb.blkSet blk value }

def setStatus (rbb : RtRbb) (blk : ℕ) (status : RtRbbStatus) : RtRbb :=
  setBlk rbb blk { rbb.blkSet blk with status := status }

/-- `rt_rbb_init`; the descriptors hold arbitrary values before. -/
def rtRbbInit (setup : Setup) (blockSet : ℕ → RtRbbBlk) : RtRbb where
  blkSet index :=
    if index < setup.blkMaxNum then { blockSet index with status := .unused }
    else blockSet index
  blkList := []

def findEmptyBlkInSet (setup : Setup) (rbb : RtRbb) : Option ℕ :=
  (List.range setup.blkMaxNum).find? fun index => (rbb.blkSet index).status = .unused

/-- Where the new block of `rt_rbb_blk_alloc` starts; `none` is `no space`. -/
def placeNew (setup : Setup) (rbb : RtRbb) (blkSize : ℕ) : Option ℕ :=
  match rbb.blkList with
  | [] => some setup.buf
  | first :: rest =>
    let head := rbb.blkSet first
    let tail := rbb.blkSet (rest.getLastD first)
    let tailStop := setup.add tail.buf tail.size
    if head.buf ≤ tail.buf then
      let empty1 := setup.sub (setup.add setup.buf setup.bufSize) tailStop
      let empty2 := setup.sub head.buf setup.buf
      if blkSize ≤ empty1 then some tailStop
      else if blkSize ≤ empty2 then some setup.buf
      else none
    else
      let empty1 := setup.sub head.buf tailStop
      if blkSize ≤ empty1 then some tailStop else none

/-- The new block goes to the end of the list. -/
def addBlk (rbb : RtRbb) (newRbb buf blkSize : ℕ) : RtRbb :=
  setBlk { rbb with blkList := rbb.blkList ++ [newRbb] } newRbb
    { status := .inited, size := blkSize, buf := buf }

def rtRbbBlkAlloc (setup : Setup) (rbb : RtRbb) (blkSize : ℕ) :
    Except Fault (RtRbb × Option ℕ) :=
  if blkSize < 2 ^ 24 then
    match findEmptyBlkInSet setup rbb with
    | none => .ok (rbb, none)
    | some newRbb =>
      if rbb.blkList.length < setup.blkMaxNum then
        match placeNew setup rbb blkSize with
        | none => .ok (rbb, none)
        | some buf => .ok (addBlk rbb newRbb buf blkSize, some newRbb)
      else .ok (rbb, none)
  else .error .assertion

def rtRbbBlkPut (rbb : RtRbb) (block : ℕ) : Except Fault RtRbb :=
  if (rbb.blkSet block).status = .inited then .ok (setStatus rbb block .put)
  else .error .assertion

def rtRbbBlkGet (rbb : RtRbb) : RtRbb × Option ℕ :=
  match rbb.blkList.find? fun block => (rbb.blkSet block).status = .put with
  | some block => (setStatus rbb block .get, some block)
  | none => (rbb, none)

def rtRbbBlkFree (setup : Setup) (rbb : RtRbb) (block : ℕ) : Except Fault RtRbb :=
  if block < setup.blkMaxNum then
    if (rbb.blkSet block).status = .unused then .error .assertion
    else .ok (setStatus { rbb with blkList := rbb.blkList.erase block } block .unused)
  else .error .outOfBounds

/-- The local variables of the loop of `rt_rbb_blk_queue_get`, with what it changes. -/
structure QueueScan where
  rbb : RtRbb
  lastBlock : Option ℕ
  dataTotalSize : ℕ
  queue : Option RtRbbBlkQueue

/-- The end of the loop body: remove the current block, which becomes `last_block`. -/
def takeBlock (setup : Setup) (scan : QueueScan) (block : ℕ) : QueueScan where
  rbb := setStatus { scan.rbb with blkList := scan.rbb.blkList.erase block } block .get
  lastBlock := some block
  dataTotalSize := setup.add scan.dataTotalSize (scan.rbb.blkSet block).size
  queue := scan.queue.map fun queue => { queue with blkNum := queue.blkNum + 1 }

/-- The loop over the list nodes; a removed node keeps its link to the next one. -/
def queueGetLoop (setup : Setup) (queueDataLen : ℕ) : QueueScan → List ℕ → QueueScan
  | scan, [] => scan
  | scan, node :: rest =>
    match scan.lastBlock with
    | none =>
      -- the first block must be put status
      if (scan.rbb.blkSet node).status = .put then
        queueGetLoop setup queueDataLen
          (takeBlock setup { scan with queue := some { blocks := node, blkNum := 0 } } node)
          rest
      else queueGetLoop setup queueDataLen scan rest
    | some lastBlock =>
      let block := scan.rbb.blkSet node
      if block.status ≠ .put ∨ (scan.rbb.blkSet lastBlock).buf > block.buf ∨
          setup.add scan.dataTotalSize block.size > queueDataLen then
        scan
      else queueGetLoop setup queueDataLen (takeBlock setup scan node) rest

/-- `rt_rbb_blk_queue_get`: the new state, the returned size and the queue, which stays
unset when there is no block to take. -/
def rtRbbBlkQueueGet (setup : Setup) (rbb : RtRbb) (queueDataLen : ℕ) :
    RtRbb × ℕ × Option RtRbbBlkQueue :=
  let scan := queueGetLoop setup queueDataLen
    { rbb := rbb, lastBlock := none, dataTotalSize := 0, queue := none } rbb.blkList
  (scan.rbb, scan.dataTotalSize, scan.queue)

/-- The loop of `rt_rbb_blk_queue_free`. -/
def freeBlocks (setup : Setup) : RtRbb → List ℕ → Except Fault RtRbb
  | rbb, [] => .ok rbb
  | rbb, block :: rest =>
    match rtRbbBlkFree setup rbb block with
    | .error fault => .error fault
    | .ok next => freeBlocks setup next rest

def rtRbbBlkQueueFree (setup : Setup) (rbb : RtRbb) (queue : RtRbbBlkQueue) :
    Except Fault RtRbb :=
  freeBlocks setup rbb (List.range' queue.blocks queue.blkNum)

/-! ## The machine -/

/-- The buffer with the queues its readers hold. -/
structure State where
  rbb : RtRbb
  queues : List RtRbbBlkQueue

inductive Action
  | alloc (blkSize : ℕ)
  | put (block : ℕ)
  | get
  | free (block : ℕ)
  | queueGet (queueDataLen : ℕ)
  | queueFree (queue : RtRbbBlkQueue)
  deriving DecidableEq

inductive Event
  | block (result : Option ℕ)
  | done
  | queue (size : ℕ) (queue : Option RtRbbBlkQueue)

/-- The calls of the writers and readers.  A call that stops at an assertion does not come
back, and neither does one that leaves the block set. -/
def rbbMachine (setup : Setup) : Machine State Action Event where
  step st act :=
    match act with
    | .alloc blkSize =>
      match rtRbbBlkAlloc setup st.rbb blkSize with
      | .error _ => none
      | .ok (rbb, result) => some ({ st with rbb := rbb }, .block result)
    | .put block =>
      if block < setup.blkMaxNum then
        match rtRbbBlkPut st.rbb block with
        | .error _ => none
        | .ok rbb => some ({ st with rbb := rbb }, .done)
      else none
    | .get =>
      let result := rtRbbBlkGet st.rbb
      some ({ st with rbb := result.1 }, .block result.2)
    | .free block =>
      match rtRbbBlkFree setup st.rbb block with
      | .error _ => none
      | .ok rbb => some ({ st with rbb := rbb }, .done)
    | .queueGet queueDataLen =>
      let result := rtRbbBlkQueueGet setup st.rbb queueDataLen
      some ({ rbb := result.1, queues := result.2.2.toList ++ st.queues },
        .queue result.2.1 result.2.2)
    | .queueFree queue =>
      if queue ∈ st.queues then
        match rtRbbBlkQueueFree setup st.rbb queue with
        | .error _ => none
        | .ok rbb => some ({ rbb := rbb, queues := st.queues.erase queue }, .done)
      else none

def initial (setup : Setup) (blockSet : ℕ → RtRbbBlk) : State where
  rbb := rtRbbInit setup blockSet
  queues := []

/-! ## The blocks in use -/

/-- The blocks in use lie inside the buffer and apart from each other. -/
structure Exclusive (setup : Setup) (rbb : RtRbb) : Prop where
  inside : ∀ block < setup.blkMaxNum, (rbb.blkSet block).Used →
    setup.buf ≤ (rbb.blkSet block).buf ∧ (rbb.blkSet block).stop ≤ setup.stop
  apart : ∀ left < setup.blkMaxNum, ∀ right < setup.blkMaxNum, left ≠ right →
    (rbb.blkSet left).Used → (rbb.blkSet right).Used →
      Disjoint (rbb.blkSet left).range (rbb.blkSet right).range

/-- A block on the list ends before another begins. -/
def Before (rbb : RtRbb) (left right : ℕ) : Prop :=
  (rbb.blkSet left).stop ≤ (rbb.blkSet right).buf

/-- The list goes up through the buffer, and may wrap to its start once: the blocks of
`high` come first, and those of `low` below them. -/
structure Wrapped (rbb : RtRbb) (high low : List ℕ) : Prop where
  high_up : high.Pairwise (Before rbb)
  low_up : low.Pairwise (Before rbb)
  below : ∀ left ∈ low, ∀ right ∈ high, Before rbb left right ∧
    (rbb.blkSet left).buf < (rbb.blkSet right).buf

/-- The list holds blocks of the set that are in use, each once. -/
structure Listed (setup : Setup) (rbb : RtRbb) : Prop where
  nodup : rbb.blkList.Nodup
  lt_max : ∀ block ∈ rbb.blkList, block < setup.blkMaxNum
  used : ∀ block ∈ rbb.blkList, (rbb.blkSet block).Used
  size_lt : ∀ block ∈ rbb.blkList, (rbb.blkSet block).size < 2 ^ 24

structure Inv (setup : Setup) (rbb : RtRbb) : Prop extends Listed setup rbb where
  exclusive : Exclusive setup rbb
  order : ∃ high low, rbb.blkList = high ++ low ∧ Wrapped rbb high low

variable {setup : Setup} {rbb rbb' rbb'' : RtRbb} {block blkSize queueDataLen : ℕ}

/-! ## Giving up blocks

Every call but the allocation leaves the blocks where they are, takes blocks off the list and
frees blocks. -/

structure Shrinks (before after : RtRbb) : Prop where
  list : after.blkList.Sublist before.blkList
  buf : ∀ block, (after.blkSet block).buf = (before.blkSet block).buf
  size : ∀ block, (after.blkSet block).size = (before.blkSet block).size
  used : ∀ block, (after.blkSet block).Used → (before.blkSet block).Used
  listed : ∀ block ∈ after.blkList, (before.blkSet block).Used → (after.blkSet block).Used

namespace Shrinks

theorem refl (rbb : RtRbb) : Shrinks rbb rbb where
  list := List.Sublist.refl _
  buf _ := rfl
  size _ := rfl
  used _ hused := hused
  listed _ _ hused := hused

theorem trans (hfirst : Shrinks rbb rbb') (hsecond : Shrinks rbb' rbb'') :
    Shrinks rbb rbb'' where
  list := hsecond.list.trans hfirst.list
  buf block := (hsecond.buf block).trans (hfirst.buf block)
  size block := (hsecond.size block).trans (hfirst.size block)
  used block hused := hfirst.used block (hsecond.used block hused)
  listed block hmem hused :=
    hsecond.listed block hmem (hfirst.listed block (hsecond.list.subset hmem) hused)

theorem stop (hshrinks : Shrinks rbb rbb') (block : ℕ) :
    (rbb'.blkSet block).stop = (rbb.blkSet block).stop := by
  rw [RtRbbBlk.stop, RtRbbBlk.stop, hshrinks.buf, hshrinks.size]

theorem range (hshrinks : Shrinks rbb rbb') (block : ℕ) :
    (rbb'.blkSet block).range = (rbb.blkSet block).range := by
  rw [RtRbbBlk.range, RtRbbBlk.range, hshrinks.buf, hshrinks.stop]

theorem before_iff (hshrinks : Shrinks rbb rbb') (left right : ℕ) :
    Before rbb' left right ↔ Before rbb left right := by
  rw [Before, Before, hshrinks.stop, hshrinks.buf]

theorem wrapped {high low high' low' : List ℕ} (hshrinks : Shrinks rbb rbb')
    (hwrapped : Wrapped rbb high low) (hhigh : high'.Sublist high) (hlow : low'.Sublist low) :
    Wrapped rbb' high' low' where
  high_up := (hwrapped.high_up.sublist hhigh).imp (hshrinks.before_iff _ _).2
  low_up := (hwrapped.low_up.sublist hlow).imp (hshrinks.before_iff _ _).2
  below left hleft right hright := by
    rw [hshrinks.before_iff, hshrinks.buf, hshrinks.buf]
    exact hwrapped.below left (hlow.subset hleft) right (hhigh.subset hright)

theorem toListed (hshrinks : Shrinks rbb rbb') (hlisted : Listed setup rbb) :
    Listed setup rbb' := by
  refine ⟨hlisted.nodup.sublist hshrinks.list, ?_, ?_, ?_⟩
  · intro block hmem
    exact hlisted.lt_max block (hshrinks.list.subset hmem)
  · intro block hmem
    exact hshrinks.listed block hmem (hlisted.used block (hshrinks.list.subset hmem))
  · intro block hmem
    rw [hshrinks.size]
    exact hlisted.size_lt block (hshrinks.list.subset hmem)

theorem inv (hshrinks : Shrinks rbb rbb') (hinv : Inv setup rbb) : Inv setup rbb' := by
  refine ⟨hshrinks.toListed hinv.toListed, ⟨?_, ?_⟩, ?_⟩
  · intro block hlt hused
    rw [hshrinks.buf, hshrinks.stop]
    exact hinv.exclusive.inside block hlt (hshrinks.used block hused)
  · intro left hleft right hright hne husedLeft husedRight
    rw [hshrinks.range, hshrinks.range]
    exact hinv.exclusive.apart left hleft right hright hne (hshrinks.used left husedLeft)
      (hshrinks.used right husedRight)
  · obtain ⟨high, low, hlist, hwrapped⟩ := hinv.order
    have hsub := hshrinks.list
    rw [hlist, List.sublist_append_iff] at hsub
    obtain ⟨high', low', hlist', hhigh, hlow⟩ := hsub
    exact ⟨high', low', hlist', hshrinks.wrapped hwrapped hhigh hlow⟩

/-- A block in use changes its status but stays in use. -/
theorem setStatus_used {status : RtRbbStatus} {list : List ℕ} (hlist : list.Sublist rbb.blkList)
    (hused : (rbb.blkSet block).Used) (hstatus : status ≠ .unused) :
    Shrinks rbb (setStatus { rbb with blkList := list } block status) := by
  refine ⟨hlist, ?_, ?_, ?_, ?_⟩ <;> intro other
  all_goals by_cases hother : other = block
  all_goals simp_all [setStatus, setBlk, RtRbbBlk.Used]

theorem rtRbbBlkFree (hnodup : rbb.blkList.Nodup)
    (hfree : rtRbbBlkFree setup rbb block = .ok rbb') : Shrinks rbb rbb' := by
  rw [RingBlk.rtRbbBlkFree] at hfree
  split at hfree
  · split at hfree
    · contradiction
    · next hused =>
      obtain rfl := Except.ok.inj hfree
      refine ⟨List.erase_sublist, ?_, ?_, ?_, ?_⟩ <;> intro other
      all_goals by_cases hother : other = block
      all_goals simp_all [setStatus, setBlk, RtRbbBlk.Used, hnodup.mem_erase_iff]
  · contradiction

theorem freeBlocks {blocks : List ℕ} (hnodup : rbb.blkList.Nodup)
    (hfree : freeBlocks setup rbb blocks = .ok rbb') : Shrinks rbb rbb' := by
  induction blocks generalizing rbb with
  | nil =>
    obtain rfl := Except.ok.inj hfree
    exact refl rbb
  | cons block rest ih =>
    rw [RingBlk.freeBlocks] at hfree
    split at hfree
    · contradiction
    · next next hfirst =>
      have hshrinks := rtRbbBlkFree hnodup hfirst
      exact hshrinks.trans (ih (hnodup.sublist hshrinks.list) hfree)

theorem queueGetLoop (scan : QueueScan) (nodes : List ℕ) :
    Shrinks scan.rbb (queueGetLoop setup queueDataLen scan nodes).rbb := by
  induction nodes generalizing scan with
  | nil => exact refl _
  | cons node rest ih =>
    -- a block that is taken has the status `PUT`
    have htake (hput : (scan.rbb.blkSet node).status = .put) (queue : Option RtRbbBlkQueue) :
        Shrinks scan.rbb (takeBlock setup { scan with queue := queue } node).rbb := by
      refine setStatus_used List.erase_sublist ?_ (by decide)
      rw [RtRbbBlk.Used, hput]
      decide
    rw [RingBlk.queueGetLoop]
    split
    · split
      · next hput => exact (htake hput _).trans (ih _)
      · exact ih scan
    · next lastBlock _ =>
      dsimp only
      split
      · exact refl _
      · next hcontinue =>
        rw [not_or, not_not] at hcontinue
        exact (htake hcontinue.1 scan.queue).trans (ih _)

theorem rtRbbBlkQueueGet : Shrinks rbb (rtRbbBlkQueueGet setup rbb queueDataLen).1 :=
  queueGetLoop { rbb := rbb, lastBlock := none, dataTotalSize := 0, queue := none } _

end Shrinks

/-! ## Allocating a block -/

/-- No block that a reader holds off the list reaches into `size` bytes at `start`. -/
def ClearOfReaders (setup : Setup) (rbb : RtRbb) (start size : ℕ) : Prop :=
  ∀ block < setup.blkMaxNum, (rbb.blkSet block).Used → block ∉ rbb.blkList →
    Disjoint (rbb.blkSet block).range (Finset.Ico start (start + size))

instance (setup : Setup) (rbb : RtRbb) (start size : ℕ) :
    Decidable (ClearOfReaders setup rbb start size) :=
  inferInstanceAs (Decidable (∀ block < setup.blkMaxNum, (rbb.blkSet block).Used →
    block ∉ rbb.blkList → Disjoint (rbb.blkSet block).range (Finset.Ico start (start + size))))

/-- When a block of `blkSize` bytes may be allocated: the first block of the list fits into
the buffer, no reader holds a block in the gap behind the last block (or before the first one,
where the gap behind is too small), and an empty block does not close the gap of a list that
has wrapped. -/
def AllocSafe (setup : Setup) (rbb : RtRbb) (blkSize : ℕ) : Prop :=
  match rbb.blkList with
  | [] => blkSize ≤ setup.bufSize ∧ ClearOfReaders setup rbb setup.buf blkSize
  | first :: rest =>
    let head := rbb.blkSet first
    let tail := rbb.blkSet (rest.getLastD first)
    if head.buf ≤ tail.buf then
      if tail.stop + blkSize ≤ setup.stop then ClearOfReaders setup rbb tail.stop blkSize
      else setup.buf + blkSize ≤ head.buf → ClearOfReaders setup rbb setup.buf blkSize
    else
      tail.stop + blkSize ≤ head.buf →
        ClearOfReaders setup rbb tail.stop blkSize ∧ (blkSize = 0 → tail.stop < head.buf)

instance (setup : Setup) (rbb : RtRbb) (blkSize : ℕ) : Decidable (AllocSafe setup rbb blkSize) := by
  unfold AllocSafe
  exact match rbb.blkList with
    | [] => inferInstance
    | _ :: _ => inferInstance

theorem Wrapped.head_le {first : ℕ} {rest low : List ℕ}
    (hwrapped : Wrapped rbb (first :: rest) low) :
    ∀ block ∈ first :: rest, (rbb.blkSet first).buf ≤ (rbb.blkSet block).buf := by
  intro block hmem
  rcases List.mem_cons.1 hmem with rfl | hmem
  · exact le_rfl
  · exact (Nat.le_add_right _ _).trans (List.rel_of_pairwise_cons hwrapped.high_up hmem)

theorem stop_le_getLast {list : List ℕ} (hup : list.Pairwise (Before rbb)) (hne : list ≠ []) :
    ∀ block ∈ list, (rbb.blkSet block).stop ≤ (rbb.blkSet (list.getLast hne)).stop := by
  intro block hmem
  have hsplit := List.dropLast_append_getLast hne
  rw [← hsplit, List.mem_append, List.mem_singleton] at hmem
  rcases hmem with hmem | rfl
  · rw [← hsplit, List.pairwise_append] at hup
    exact (hup.2.2 block hmem _ (List.mem_singleton_self _)).trans (Nat.le_add_right _ _)
  · exact le_rfl

/-- A list that is not empty has a block in its first part. -/
theorem Inv.order_cons {first : ℕ} {rest : List ℕ} (hinv : Inv setup rbb)
    (hlist : rbb.blkList = first :: rest) :
    ∃ high low, rest = high ++ low ∧ Wrapped rbb (first :: high) low := by
  obtain ⟨high, low, heq, hwrapped⟩ := hinv.order
  cases high with
  | nil =>
    obtain rfl : first :: rest = low := hlist.symm.trans heq
    exact ⟨rest, [], (List.append_nil rest).symm, hwrapped.low_up, List.Pairwise.nil,
      fun _ hmem => absurd hmem List.not_mem_nil⟩
  | cons head high =>
    obtain ⟨rfl, rfl⟩ := List.cons.inj (hlist.symm.trans heq)
    exact ⟨high, low, rfl, hwrapped⟩

/-- What is known of the place of a new block: it lies in the buffer, away from the readers,
and comes last in the order of the list. -/
structure Place (setup : Setup) (rbb : RtRbb) (start size : ℕ) : Prop where
  start_ge : setup.buf ≤ start
  stop_le : start + size ≤ setup.stop
  clear : ClearOfReaders setup rbb start size
  order : ∃ high low, rbb.blkList = high ++ low ∧ Wrapped rbb high low ∧
    (low = [] ∧ (∀ block ∈ high, (rbb.blkSet block).stop ≤ start) ∨
      (∀ block ∈ low, (rbb.blkSet block).stop ≤ start) ∧
        ∀ block ∈ high, start + size ≤ (rbb.blkSet block).buf ∧ start < (rbb.blkSet block).buf)

theorem placeNew_spec {start : ℕ} (hinv : Inv setup rbb) (hsafe : AllocSafe setup rbb blkSize)
    (hplace : placeNew setup rbb blkSize = some start) : Place setup rbb start blkSize := by
  have hword := setup.buf_lt
  rw [placeNew] at hplace
  rw [AllocSafe] at hsafe
  split at hplace
  · next hlist =>
    cases hplace
    simp only [hlist] at hsafe
    refine ⟨le_rfl, Nat.add_le_add_left hsafe.1 _, hsafe.2, [], [], hlist, ?_, .inl ⟨rfl, ?_⟩⟩
    · exact ⟨List.Pairwise.nil, List.Pairwise.nil, fun _ hmem => absurd hmem List.not_mem_nil⟩
    · exact fun _ hmem => absurd hmem List.not_mem_nil
  · next first rest hlist =>
    obtain ⟨high, low, hrest, hwrapped⟩ := hinv.order_cons hlist
    have hsplit : rbb.blkList = (first :: high) ++ low := by
      rw [hlist, hrest, List.cons_append]
    have hmemLast : rest.getLastD first ∈ rbb.blkList := by
      rw [hlist, ← List.getLast_eq_getLastD (h := List.cons_ne_nil first rest)]
      exact List.getLast_mem _
    have hmemFirst : first ∈ rbb.blkList := by
      rw [hlist]
      exact List.mem_cons_self
    obtain ⟨hhead_ge, hhead_le⟩ := hinv.exclusive.inside first (hinv.lt_max _ hmemFirst)
      (hinv.used _ hmemFirst)
    obtain ⟨htail_ge, htail_le⟩ := hinv.exclusive.inside _ (hinv.lt_max _ hmemLast)
      (hinv.used _ hmemLast)
    have hstop : setup.stop = setup.buf + setup.bufSize := rfl
    have htailStop : (rbb.blkSet (rest.getLastD first)).stop =
        (rbb.blkSet (rest.getLastD first)).buf + (rbb.blkSet (rest.getLastD first)).size := rfl
    have hheadStop : (rbb.blkSet first).stop =
        (rbb.blkSet first).buf + (rbb.blkSet first).size := rfl
    have hadd : setup.add (rbb.blkSet (rest.getLastD first)).buf
        (rbb.blkSet (rest.getLastD first)).size = (rbb.blkSet (rest.getLastD first)).stop :=
      setup.add_eq (by omega)
    have haddStop : setup.add setup.buf setup.bufSize = setup.stop := setup.add_eq hword
    simp only [hlist] at hsafe
    simp only [hadd, haddStop] at hplace
    rcases List.eq_nil_or_concat low with rfl | ⟨front, last, rfl⟩
    · -- the list has not wrapped
      rw [List.append_nil] at hrest
      subst hrest
      have hend := stop_le_getLast hwrapped.high_up (List.cons_ne_nil first rest)
      rw [List.getLast_eq_getLastD] at hend
      have hup := hwrapped.head_le _ (hlist ▸ hmemLast)
      rw [if_pos hup] at hsafe hplace
      rw [setup.sub_eq htail_le (by omega), setup.sub_eq hhead_ge (by omega)] at hplace
      by_cases hbehind : (rbb.blkSet (rest.getLastD first)).stop + blkSize ≤ setup.stop
      · rw [if_pos (by omega)] at hplace
        rw [if_pos hbehind] at hsafe
        cases hplace
        exact ⟨by omega, hbehind, hsafe, _, [], hsplit, hwrapped, .inl ⟨rfl, hend⟩⟩
      · rw [if_neg (by omega)] at hplace
        rw [if_neg hbehind] at hsafe
        split at hplace
        · next hbefore =>
          cases hplace
          refine ⟨le_rfl, by omega, hsafe (by omega), _, [], hsplit, hwrapped, .inr ⟨?_, ?_⟩⟩
          · exact fun _ hmem => absurd hmem List.not_mem_nil
          · intro block hmem
            have hle := hwrapped.head_le block hmem
            omega
        · contradiction
    · have hlast : rest.getLastD first = last := by
        rw [← List.getLast_eq_getLastD (h := List.cons_ne_nil first rest)]
        simp [hrest]
      have hend := stop_le_getLast hwrapped.low_up (by simp)
      have hbelow := (hwrapped.below last (by simp) first List.mem_cons_self)
      have htail := hbelow.1
      rw [hlast] at hsafe hplace htail_ge htail_le
      rw [if_neg hbelow.2.not_ge] at hsafe hplace
      rw [Before] at htail
      rw [setup.sub_eq htail (by omega)] at hplace
      split at hplace
      · next hgap =>
        cases hplace
        obtain ⟨hclear, hopen⟩ := hsafe (by omega)
        refine ⟨?_, by omega, hclear, _, _, hsplit, hwrapped, .inr ⟨?_, ?_⟩⟩
        · exact htail_ge.trans (Nat.le_add_right _ _)
        · simpa using hend
        · intro block hmem
          have hle := hwrapped.head_le block hmem
          omega
      · contradiction

section AddBlk

variable {newRbb start size : ℕ}

@[simp]
theorem addBlk_blkList : (addBlk rbb newRbb start size).blkList = rbb.blkList ++ [newRbb] :=
  rfl

@[simp]
theorem addBlk_self : (addBlk rbb newRbb start size).blkSet newRbb =
    { status := .inited, size := size, buf := start } :=
  update_self ..

theorem addBlk_other (hne : block ≠ newRbb) :
    (addBlk rbb newRbb start size).blkSet block = rbb.blkSet block :=
  update_of_ne hne ..

theorem Wrapped.congr {high low : List ℕ} (hwrapped : Wrapped rbb high low)
    (hsame : ∀ block ∈ high ++ low, rbb'.blkSet block = rbb.blkSet block) :
    Wrapped rbb' high low := by
  have hhigh : ∀ block ∈ high, rbb'.blkSet block = rbb.blkSet block :=
    fun block hmem => hsame block (List.mem_append_left _ hmem)
  have hlow : ∀ block ∈ low, rbb'.blkSet block = rbb.blkSet block :=
    fun block hmem => hsame block (List.mem_append_right _ hmem)
  refine ⟨hwrapped.high_up.imp_of_mem ?_, hwrapped.low_up.imp_of_mem ?_, ?_⟩
  · intro left right hleft hright hbefore
    rw [Before, hhigh left hleft, hhigh right hright]
    exact hbefore
  · intro left right hleft hright hbefore
    rw [Before, hlow left hleft, hlow right hright]
    exact hbefore
  · intro left hleft right hright
    rw [Before, hlow left hleft, hhigh right hright]
    exact hwrapped.below left hleft right hright

theorem Place.wrapped (hplace : Place setup rbb start size) (hnew : newRbb ∉ rbb.blkList) :
    ∃ high low, (addBlk rbb newRbb start size).blkList = high ++ low ∧
      Wrapped (addBlk rbb newRbb start size) high low := by
  obtain ⟨high, low, hlist, hwrapped, hcases⟩ := hplace.order
  have hother : ∀ block ∈ high ++ low,
      (addBlk rbb newRbb start size).blkSet block = rbb.blkSet block := by
    intro block hmem
    refine addBlk_other ?_
    rintro rfl
    exact hnew (hlist ▸ hmem)
  have hkept := hwrapped.congr hother
  rcases hcases with ⟨rfl, hend⟩ | ⟨hend, hstart⟩
  · refine ⟨high ++ [newRbb], [], by simp [hlist], ?_, hkept.low_up, by simp⟩
    rw [List.pairwise_append]
    refine ⟨hkept.high_up, List.pairwise_singleton .., ?_⟩
    intro left hleft right hright
    rw [List.mem_singleton.1 hright, Before, addBlk_self,
      hother left (List.mem_append_left _ hleft)]
    exact hend left hleft
  · refine ⟨high, low ++ [newRbb], by simp [hlist], hkept.high_up, ?_, ?_⟩
    · rw [List.pairwise_append]
      refine ⟨hkept.low_up, List.pairwise_singleton .., ?_⟩
      intro left hleft right hright
      rw [List.mem_singleton.1 hright, Before, addBlk_self,
        hother left (List.mem_append_right _ hleft)]
      exact hend left hleft
    · intro left hleft right hright
      rcases List.mem_append.1 hleft with hleft | hleft
      · exact hkept.below left hleft right hright
      · rw [List.mem_singleton.1 hleft, Before, addBlk_self,
          hother right (List.mem_append_left _ hright)]
        exact hstart right hright

/-- The new block is apart from every other block in use: from those on the list by its
order, from the others because no reader is in the way. -/
theorem Place.apart (hplace : Place setup rbb start size) (hlt : block < setup.blkMaxNum)
    (hused : (rbb.blkSet block).Used) :
    Disjoint (rbb.blkSet block).range (Finset.Ico start (start + size)) := by
  by_cases hmem : block ∈ rbb.blkList
  · obtain ⟨high, low, hlist, -, hcases⟩ := hplace.order
    rw [hlist, List.mem_append] at hmem
    have hside : (rbb.blkSet block).stop ≤ start ∨ start + size ≤ (rbb.blkSet block).buf := by
      rcases hcases with ⟨rfl, hend⟩ | ⟨hend, hstart⟩
      · exact .inl (hend block (hmem.resolve_right List.not_mem_nil))
      · rcases hmem with hmem | hmem
        · exact .inr (hstart block hmem).1
        · exact .inl (hend block hmem)
    rcases hside with hside | hside
    · exact Finset.disjoint_left.2 fun _ hleft hright =>
        absurd ((Finset.mem_Ico.1 hleft).2.trans_le hside) (Finset.mem_Ico.1 hright).1.not_gt
    · exact Finset.disjoint_right.2 fun _ hleft hright =>
        absurd ((Finset.mem_Ico.1 hleft).2.trans_le hside) (Finset.mem_Ico.1 hright).1.not_gt
  · exact hplace.clear block hlt hused hmem

theorem Listed.place_new (hlisted : Listed setup rbb) (hlt : newRbb < setup.blkMaxNum)
    (hunused : (rbb.blkSet newRbb).status = .unused) (hsize : size < 2 ^ 24) :
    Listed setup (addBlk rbb newRbb start size) := by
  have hnew : newRbb ∉ rbb.blkList := fun hmem => hlisted.used newRbb hmem hunused
  have hcases : ∀ block ∈ (addBlk rbb newRbb start size).blkList, block = newRbb ∨
      block ∈ rbb.blkList ∧ (addBlk rbb newRbb start size).blkSet block = rbb.blkSet block := by
    intro block hmem
    rw [addBlk_blkList, List.mem_append, List.mem_singleton] at hmem
    rcases hmem with hmem | rfl
    · refine .inr ⟨hmem, addBlk_other ?_⟩
      rintro rfl
      exact hnew hmem
    · exact .inl rfl
  refine ⟨?_, ?_, ?_, ?_⟩
  · rw [addBlk_blkList, List.nodup_append]
    refine ⟨hlisted.nodup, List.nodup_singleton _, ?_⟩
    rintro left hleft right hright rfl
    exact hnew (List.mem_singleton.1 hright ▸ hleft)
  · intro block hmem
    rcases hcases block hmem with rfl | ⟨hmem, -⟩
    · exact hlt
    · exact hlisted.lt_max block hmem
  · intro block hmem
    rcases hcases block hmem with rfl | ⟨hmem, hsame⟩
    · rw [addBlk_self]
      exact RtRbbStatus.noConfusion
    · rw [hsame]
      exact hlisted.used block hmem
  · intro block hmem
    rcases hcases block hmem with rfl | ⟨hmem, hsame⟩
    · rw [addBlk_self]
      exact hsize
    · rw [hsame]
      exact hlisted.size_lt block hmem

theorem Inv.place_new (hinv : Inv setup rbb) (hplace : Place setup rbb start size)
    (hlt : newRbb < setup.blkMaxNum) (hunused : (rbb.blkSet newRbb).status = .unused)
    (hsize : size < 2 ^ 24) : Inv setup (addBlk rbb newRbb start size) := by
  have hnew : newRbb ∉ rbb.blkList := fun hmem => hinv.used newRbb hmem hunused
  have hrange : ((addBlk rbb newRbb start size).blkSet newRbb).range =
      Finset.Ico start (start + size) := by
    rw [addBlk_self]
    rfl
  refine ⟨hinv.toListed.place_new hlt hunused hsize, ⟨?_, ?_⟩, hplace.wrapped hnew⟩
  · intro block hblock hused
    by_cases heq : block = newRbb
    · rw [heq, addBlk_self]
      exact ⟨hplace.start_ge, hplace.stop_le⟩
    · rw [addBlk_other heq] at hused ⊢
      exact hinv.exclusive.inside block hblock hused
  · intro left hleft right hright hne husedLeft husedRight
    by_cases heqLeft : left = newRbb
    · subst heqLeft
      rw [addBlk_other hne.symm] at husedRight ⊢
      rw [hrange]
      exact (hplace.apart hright husedRight).symm
    · rw [addBlk_other heqLeft] at husedLeft ⊢
      by_cases heqRight : right = newRbb
      · subst heqRight
        rw [hrange]
        exact hplace.apart hleft husedLeft
      · rw [addBlk_other heqRight] at husedRight ⊢
        exact hinv.exclusive.apart left hleft right hright hne husedLeft husedRight

end AddBlk

theorem findEmptyBlkInSet_spec {newRbb : ℕ} (hfind : findEmptyBlkInSet setup rbb = some newRbb) :
    newRbb < setup.blkMaxNum ∧ (rbb.blkSet newRbb).status = .unused := by
  exact ⟨List.mem_range.1 (List.mem_of_find?_eq_some hfind), by simpa using List.find?_some hfind⟩

/-- What an allocation can do: nothing, or place a descriptor that is not in use. -/
theorem rtRbbBlkAlloc_cases {result : Option ℕ}
    (halloc : rtRbbBlkAlloc setup rbb blkSize = .ok (rbb', result)) :
    rbb' = rbb ∨ ∃ newRbb start, newRbb < setup.blkMaxNum ∧
      (rbb.blkSet newRbb).status = .unused ∧ blkSize < 2 ^ 24 ∧
      placeNew setup rbb blkSize = some start ∧ rbb' = addBlk rbb newRbb start blkSize := by
  rw [rtRbbBlkAlloc] at halloc
  split at halloc
  · next hsize =>
    split at halloc
    · exact .inl (Prod.mk.inj (Except.ok.inj halloc)).1.symm
    · next newRbb hfind =>
      obtain ⟨hlt, hunused⟩ := findEmptyBlkInSet_spec hfind
      split at halloc
      · split at halloc
        · exact .inl (Prod.mk.inj (Except.ok.inj halloc)).1.symm
        · next start hplace =>
          exact .inr ⟨newRbb, start, hlt, hunused, hsize, hplace,
            (Prod.mk.inj (Except.ok.inj halloc)).1.symm⟩
      · exact .inl (Prod.mk.inj (Except.ok.inj halloc)).1.symm
  · contradiction

/-! ## Runs -/

/-- Only an allocation can go wrong, and only while a descriptor is left for it. -/
def Good (setup : Setup) (st : State) : Action → Prop
  | .alloc blkSize =>
    (∃ block < setup.blkMaxNum, ¬ (st.rbb.blkSet block).Used) →
      AllocSafe setup st.rbb blkSize
  | _ => True

instance (setup : Setup) (st : State) (act : Action) :
    Decidable (Good setup st act) :=
  match act with
  | .alloc blkSize =>
    inferInstanceAs (Decidable ((∃ block < setup.blkMaxNum, ¬ (st.rbb.blkSet block).Used) →
      AllocSafe setup st.rbb blkSize))
  | .put _ | .get | .free _ | .queueGet _ | .queueFree _ => isTrue trivial

theorem inv_init (setup : Setup) (blockSet : ℕ → RtRbbBlk) :
    Inv setup (rtRbbInit setup blockSet) := by
  have hunused : ∀ block < setup.blkMaxNum,
      ¬ ((rtRbbInit setup blockSet).blkSet block).Used := by
    intro block hlt
    simp [rtRbbInit, RtRbbBlk.Used, hlt]
  refine ⟨⟨List.nodup_nil, ?_, ?_, ?_⟩, ⟨?_, ?_⟩, [], [], rfl, ?_⟩
  iterate 3 exact fun _ hmem => absurd hmem List.not_mem_nil
  · exact fun block hlt hused => absurd hused (hunused block hlt)
  · exact fun left hlt _ _ _ hused _ => absurd hused (hunused left hlt)
  · exact ⟨List.Pairwise.nil, List.Pairwise.nil, fun _ hmem => absurd hmem List.not_mem_nil⟩

theorem shrinks_put (hput : rtRbbBlkPut rbb block = .ok rbb') : Shrinks rbb rbb' := by
  rw [rtRbbBlkPut] at hput
  split at hput
  · next hinited =>
    obtain rfl := Except.ok.inj hput
    refine Shrinks.setStatus_used (List.Sublist.refl _) ?_ (by decide)
    rw [RtRbbBlk.Used, hinited]
    decide
  · contradiction

theorem shrinks_get : Shrinks rbb (rtRbbBlkGet rbb).1 := by
  rw [rtRbbBlkGet]
  split
  · next block hfind =>
    refine Shrinks.setStatus_used (List.Sublist.refl _) ?_ (by decide)
    have hput := List.find?_some hfind
    rw [decide_eq_true_eq] at hput
    rw [RtRbbBlk.Used, hput]
    decide
  · exact Shrinks.refl rbb

/-- What a step can do to the buffer: give up blocks, or place a new one. -/
theorem step_cases {st next : State} {act : Action} {event : Event}
    (hnodup : st.rbb.blkList.Nodup)
    (hstep : (rbbMachine setup).step st act = some (next, event)) :
    Shrinks st.rbb next.rbb ∨ ∃ blkSize newRbb start, act = .alloc blkSize ∧
      newRbb < setup.blkMaxNum ∧ (st.rbb.blkSet newRbb).status = .unused ∧
      blkSize < 2 ^ 24 ∧ placeNew setup st.rbb blkSize = some start ∧
      next.rbb = addBlk st.rbb newRbb start blkSize := by
  cases act with
  | alloc blkSize =>
    simp only [rbbMachine] at hstep
    split at hstep
    · contradiction
    · next rbb result halloc =>
      cases hstep
      rcases rtRbbBlkAlloc_cases halloc with rfl | ⟨newRbb, start, hplaced⟩
      · exact .inl (Shrinks.refl _)
      · exact .inr ⟨blkSize, newRbb, start, rfl, hplaced⟩
  | put block =>
    simp only [rbbMachine] at hstep
    split at hstep
    · split at hstep
      · contradiction
      · next rbb hput =>
        cases hstep
        exact .inl (shrinks_put hput)
    · contradiction
  | get =>
    cases hstep
    exact .inl shrinks_get
  | free block =>
    simp only [rbbMachine] at hstep
    split at hstep
    · contradiction
    · next rbb hfree =>
      cases hstep
      exact .inl (Shrinks.rtRbbBlkFree hnodup hfree)
  | queueGet queueDataLen =>
    cases hstep
    exact .inl Shrinks.rtRbbBlkQueueGet
  | queueFree queue =>
    simp only [rbbMachine] at hstep
    split at hstep
    · split at hstep
      · contradiction
      · next rbb hfree =>
        cases hstep
        exact .inl (Shrinks.freeBlocks hnodup hfree)
    · contradiction

theorem step_listed {st next : State} {act : Action} {event : Event}
    (hlisted : Listed setup st.rbb)
    (hstep : (rbbMachine setup).step st act = some (next, event)) :
    Listed setup next.rbb := by
  rcases step_cases hlisted.nodup hstep with
    hshrinks | ⟨blkSize, newRbb, start, -, hlt, hunused, hsize, -, hnext⟩
  · exact hshrinks.toListed hlisted
  · rw [hnext]
    exact hlisted.place_new hlt hunused hsize

theorem step_inv {st next : State} {act : Action} {event : Event}
    (hinv : Inv setup st.rbb) (hgood : Good setup st act)
    (hstep : (rbbMachine setup).step st act = some (next, event)) :
    Inv setup next.rbb := by
  rcases step_cases hinv.nodup hstep with
    hshrinks | ⟨blkSize, newRbb, start, rfl, hlt, hunused, hsize, hplace, hnext⟩
  · exact hshrinks.inv hinv
  · have hsafe := hgood ⟨newRbb, hlt, not_not.2 hunused⟩
    rw [hnext]
    exact hinv.place_new (placeNew_spec hinv hsafe hplace) hlt hunused hsize

/-- The list is sound in every state that can be reached, whatever was allocated. -/
theorem listed_of_run {blockSet : ℕ → RtRbbBlk} {trace : List (Action × Event)} {last : State}
    (hrun : (rbbMachine setup).Run (initial setup blockSet) trace last) :
    Listed setup last.rbb :=
  hrun.invariant (fun st => Listed setup st.rbb)
    (fun _ _ _ _ hlisted _ => step_listed hlisted) (inv_init setup blockSet).toListed

/-- In every run whose allocations are safe, the blocks in use are apart and in the buffer. -/
theorem blocks_exclusive {blockSet : ℕ → RtRbbBlk} {trace : List (Action × Event)} {last : State}
    (hrun : (rbbMachine setup).RunWith (Good setup) (initial setup blockSet) trace last) :
    Exclusive setup last.rbb :=
  (hrun.invariant (fun state => Inv setup state.rbb) (fun _ _ _ _ => step_inv)
    (inv_init setup blockSet)).exclusive

/-- Four blocks in 64 bytes. -/
def setup64 : Setup where
  wordBits := 32
  buf := 4096
  bufSize := 64
  blkMaxNum := 4
  wordBits_ge := le_rfl
  buf_lt := by norm_num

def blankSet : ℕ → RtRbbBlk :=
  fun _ => { status := .unused, size := 0, buf := 0 }

/-- The list wraps, a reader takes a run of two blocks while the writer goes on, and the
blocks come back out of order. -/
def schedule64 : List Action :=
  [.alloc 24, .alloc 16, .alloc 20, .put 0, .put 1, .put 2, .queueGet 45, .alloc 4,
    .free 2, .queueFree { blocks := 0, blkNum := 2 }, .alloc 16, .put 3, .get, .free 3]

theorem isSome_schedule64 : ((rbbMachine setup64).exec (Good setup64)
    (initial setup64 blankSet) schedule64).isSome = true := by
  decide

theorem blocks_exclusive_schedule64 : ∃ trace last,
    (rbbMachine setup64).RunWith (Good setup64) (initial setup64 blankSet) trace last ∧
      trace.length = 14 ∧ Exclusive setup64 last.rbb := by
  have hrun := Machine.runWith_of_isSome schedule64 isSome_schedule64
  exact ⟨_, _, hrun, by decide, blocks_exclusive hrun⟩

/-- A reader takes the only block; the next block is placed over it. -/
def scheduleOverlap : List Action :=
  [.alloc 16, .put 0, .queueGet 64, .alloc 16]

theorem isSome_scheduleOverlap : ((rbbMachine setup64).exec (fun _ _ => True)
    (initial setup64 blankSet) scheduleOverlap).isSome = true := by
  decide

theorem blocks_overlap : ∃ trace last,
    (rbbMachine setup64).Run (initial setup64 blankSet) trace last ∧
      trace.map Prod.fst = scheduleOverlap ∧ ¬ Exclusive setup64 last.rbb := by
  refine ⟨_, _, Machine.runWith_of_isSome scheduleOverlap isSome_scheduleOverlap,
    Machine.actions_of_isSome scheduleOverlap isSome_scheduleOverlap, ?_⟩
  intro hexclusive
  have hapart := hexclusive.apart 0 (by decide) 1 (by decide) (by decide) (by decide)
    (by decide)
  exact absurd hapart (by decide)

end RtThread.RingBlk
