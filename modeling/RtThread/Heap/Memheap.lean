import RtThread.Core.Machine
import RtThread.Heap.SmallMem

set_option linter.all false

/-!
# The memory heap objects of `memheap.c`

A memory heap tiles its pool with items.  The items are linked in address order into a ring
through `next` and `prev`, which a used item of no length closes at the end of the pool, and
the items that are not in use are linked through `next_free` and `prev_free` into a second
ring, whose header is part of the heap object.

The fields of the items are kept by the address of the item.  Addresses and sizes are words
of the machine; `pool_size`, `available_size` and `max_used_size` have 32 bits, as has
`free_size`, and `nextsize` of `rt_memheap_realloc` is signed.
-/

namespace RtThread.Memheap

open Function
open RtThread.Core
open RtThread.SmallMem (HeapConfig Fault rtAssert rtMemcpy)

def rtMemheapMagic : ℕ := 0x1ea01ea0
def rtMemheapMask : ℕ := 0xfffffffe
def rtMemheapUsed : ℕ := 0x01
def rtMemheapMinialloc : ℕ := 12

/-- `struct rt_memheap`, with its own address, and the items and payloads in memory. -/
structure RtMemheap where
  self : ℕ
  startAddr : ℕ
  poolSize : ℕ
  availableSize : ℕ
  maxUsedSize : ℕ
  blockList : ℕ
  freeList : ℕ
  magic : ℕ → ℕ
  poolPtr : ℕ → ℕ
  next : ℕ → ℕ
  prev : ℕ → ℕ
  nextFree : ℕ → ℕ
  prevFree : ℕ → ℕ
  data : ℕ → UInt8

/-- `RT_MEMHEAP_IS_USED`. -/
def IsUsed (heap : RtMemheap) (item : ℕ) : Prop :=
  heap.magic item &&& rtMemheapUsed ≠ 0

instance (heap : RtMemheap) (item : ℕ) : Decidable (IsUsed heap item) :=
  inferInstanceAs (Decidable (_ ≠ _))

/-- The value of a 32-bit field. -/
def u32 (value : ℕ) : ℕ :=
  value % 2 ^ 32

/-- `heap->pool_size - heap->available_size`. -/
def usedSize (heap : RtMemheap) : ℕ :=
  u32 (heap.poolSize + (2 ^ 32 - heap.availableSize))

/-! ## The edits of the rings -/

/-- An item goes to the front of the free list. -/
def linkFree (heap : RtMemheap) (item : ℕ) : RtMemheap :=
  { heap with
    nextFree := update
      (update heap.nextFree item (heap.nextFree heap.freeList)) heap.freeList item
    prevFree := update
      (update heap.prevFree item heap.freeList) (heap.nextFree heap.freeList) item }

/-- An item is taken out of the free list. -/
def unlinkFree (heap : RtMemheap) (item : ℕ) : RtMemheap :=
  { heap with
    prevFree := update heap.prevFree (heap.nextFree item) (heap.prevFree item)
    nextFree := update heap.nextFree (heap.prevFree item) (heap.nextFree item) }

/-- The links of an item that is no longer in the free list. -/
def clearFree (heap : RtMemheap) (item : ℕ) : RtMemheap :=
  { heap with
    nextFree := update heap.nextFree item 0
    prevFree := update heap.prevFree item 0 }

/-- A new item that is not in use follows an item. -/
def splitItem (heap : RtMemheap) (item fresh : ℕ) : RtMemheap :=
  { heap with
    magic := update heap.magic fresh rtMemheapMagic
    poolPtr := update heap.poolPtr fresh heap.self
    prev := update (update heap.prev fresh item) (heap.next item) fresh
    next := update (update heap.next fresh (heap.next item)) item fresh }

/-- An item is taken out of the ring of items. -/
def removeItem (heap : RtMemheap) (item : ℕ) : RtMemheap :=
  { heap with
    prev := update heap.prev (heap.next item) (heap.prev item)
    next := update heap.next (heap.prev item) (heap.next item) }

/-- An item takes in the next one. -/
def mergeNext (heap : RtMemheap) (item : ℕ) : RtMemheap :=
  let gone := heap.next item
  { heap with
    prev := update heap.prev (heap.next gone) item
    next := update heap.next item (heap.next gone) }

def setUsed (heap : RtMemheap) (item : ℕ) : RtMemheap :=
  { heap with magic := update heap.magic item (heap.magic item ||| rtMemheapUsed) }

def clearUsed (heap : RtMemheap) (item : ℕ) : RtMemheap :=
  { heap with magic := update heap.magic item (heap.magic item &&& rtMemheapMask) }

def setAvailable (heap : RtMemheap) (available : ℕ) : RtMemheap :=
  { heap with availableSize := u32 available }

/-- The maximum is kept after `available_size` was decremented. -/
def noteUsed (heap : RtMemheap) : RtMemheap :=
  if heap.maxUsedSize < usedSize heap then { heap with maxUsedSize := usedSize heap } else heap

variable (cfg : HeapConfig)

def sizeofItem : ℕ :=
  if cfg.archCpu64bit then 48 else 24

def rtMemheapSize : ℕ :=
  cfg.rtAlign (sizeofItem cfg)

/-- `MEMITEM_SIZE`. -/
def memitemSize (heap : RtMemheap) (item : ℕ) : ℕ :=
  cfg.sub (cfg.sub (heap.next item) item) (rtMemheapSize cfg)

/-- The size of a request after rounding. -/
def requestSize (size : ℕ) : ℕ :=
  let size := cfg.rtAlign size
  if size < rtMemheapMinialloc then rtMemheapMinialloc else size

/-! ## `rt_memheap_init` -/

/-- The heap object before the items are linked. -/
def blankHeap (self freeHeader startAddr size : ℕ) (memory : RtMemheap) : RtMemheap :=
  let poolSize := u32 (cfg.rtAlignDown size)
  let availableSize := u32 (cfg.sub poolSize (2 * rtMemheapSize cfg))
  { memory with
    self := self
    startAddr := startAddr
    poolSize := poolSize
    availableSize := availableSize
    maxUsedSize := u32 (poolSize + (2 ^ 32 - availableSize))
    blockList := startAddr
    freeList := freeHeader }

/-- `rt_memheap_init` on a heap object at `self` with its free list header at `freeHeader`. -/
def rtMemheapInit (self freeHeader startAddr size : ℕ) (memory : RtMemheap) : RtMemheap :=
  let heap := blankHeap cfg self freeHeader startAddr size memory
  let tail := cfg.add (cfg.add startAddr heap.availableSize) (rtMemheapSize cfg)
  let heap := { heap with
    magic := update (update (update heap.magic freeHeader rtMemheapMagic)
      startAddr rtMemheapMagic) tail (rtMemheapMagic ||| rtMemheapUsed)
    poolPtr := update (update (update heap.poolPtr freeHeader self)
      startAddr self) tail self
    next := update (update (update heap.next freeHeader 0)
      startAddr tail)
      tail startAddr
    prev := update (update (update heap.prev freeHeader 0)
      startAddr tail)
      tail startAddr
    nextFree := update heap.nextFree freeHeader freeHeader
    prevFree := update heap.prevFree freeHeader freeHeader }
  clearFree (linkFree heap startAddr) tail

/-! ## `rt_memheap_alloc` -/

/-- The search on the free list: the item and the size of the last item it looked at. -/
def findFree (heap : RtMemheap) (size : ℕ) : ℕ → ℕ → ℕ → Except Fault (ℕ × ℕ)
  | 0, _, _ => .error .endless
  | fuel + 1, header, freeSize =>
    if header ≠ heap.freeList ∧ freeSize < size then
      let freeSize := u32 (memitemSize cfg heap header)
      if freeSize < size then findFree heap size fuel (heap.nextFree header) freeSize
      else findFree heap size fuel header freeSize
    else .ok (header, freeSize)

/-- The item is split, and its end stays free. -/
def allocSplit (heap : RtMemheap) (header size : ℕ) : RtMemheap :=
  let fresh := cfg.add (cfg.add header size) (rtMemheapSize cfg)
  let heap := splitItem heap header fresh
  let heap := linkFree (clearFree (unlinkFree heap header) header) fresh
  let available := cfg.sub (cfg.sub heap.availableSize size) (rtMemheapSize cfg)
  setUsed (noteUsed (setAvailable heap available)) header

/-- The whole item is taken. -/
def allocWhole (heap : RtMemheap) (header freeSize : ℕ) : RtMemheap :=
  let heap := noteUsed (setAvailable heap (cfg.sub heap.availableSize freeSize))
  setUsed (clearFree (unlinkFree heap header) header) header

def rtMemheapAlloc (heap : RtMemheap) (size : ℕ) : Except Fault (RtMemheap × ℕ) :=
  let size := requestSize cfg size
  if size < heap.availableSize then do
    let (header, freeSize) ← findFree cfg heap size (heap.poolSize + 2)
      (heap.nextFree heap.freeList) 0
    if size ≤ freeSize then
      if cfg.add (cfg.add size (rtMemheapSize cfg)) rtMemheapMinialloc ≤ freeSize then
        return (allocSplit cfg heap header size, cfg.add header (rtMemheapSize cfg))
      else return (allocWhole cfg heap header freeSize, cfg.add header (rtMemheapSize cfg))
    else return (heap, 0)
  else .ok (heap, 0)

/-! ## `rt_memheap_free` -/

/-- The item that was freed joins the previous one, if that is free. -/
def mergeLeft (heap : RtMemheap) (header : ℕ) : RtMemheap :=
  removeItem (setAvailable heap (heap.availableSize + rtMemheapSize cfg)) header

/-- The item joins the next one, if that is free. -/
def mergeRight (heap : RtMemheap) (header : ℕ) : RtMemheap :=
  if IsUsed heap (heap.next header) then heap
  else
    let gone := heap.next header
    unlinkFree (mergeNext (setAvailable heap (heap.availableSize + rtMemheapSize cfg))
      header) gone

def rtMemheapFree (heap : RtMemheap) (ptr : ℕ) : Except Fault RtMemheap :=
  if ptr = 0 then .ok heap
  else do
    let header := cfg.sub ptr (rtMemheapSize cfg)
    rtAssert (heap.magic header &&& rtMemheapMask = rtMemheapMagic)
    rtAssert (IsUsed heap header)
    rtAssert (heap.magic (heap.next header) &&& rtMemheapMask = rtMemheapMagic)
    -- the pool of the item is the only heap here
    rtAssert (heap.poolPtr header = heap.self)
    let heap := clearUsed heap header
    let heap := setAvailable heap (heap.availableSize + memitemSize cfg heap header)
    if IsUsed heap (heap.prev header) then
      return linkFree (mergeRight cfg heap header) header
    else return mergeRight cfg (mergeLeft cfg heap header) (heap.prev header)

/-! ## `rt_memheap_realloc` -/

/-- The value of the signed 32-bit `nextsize` in an expression of words. -/
def signExtend (value : ℕ) : ℕ :=
  if u32 value < 2 ^ 31 then u32 value else cfg.wordSize - 2 ^ 32 + u32 value

/-- The test for growing an item into the next one. -/
def Grows (heap : RtMemheap) (header newsize : ℕ) : Prop :=
  ¬ IsUsed heap (heap.next header) ∧
    cfg.add newsize rtMemheapMinialloc <
      cfg.add (signExtend cfg (memitemSize cfg heap (heap.next header)))
        (memitemSize cfg heap header)

instance (heap : RtMemheap) (header newsize : ℕ) : Decidable (Grows cfg heap header newsize) :=
  inferInstanceAs (Decidable (_ ∧ _))

/-- The next item gives the bytes that are missing, and is built again behind them. -/
def growItem (heap : RtMemheap) (header newsize : ℕ) : RtMemheap :=
  let gone := heap.next header
  let missing := cfg.sub newsize (memitemSize cfg heap header)
  let heap := noteUsed (setAvailable heap (cfg.sub heap.availableSize missing))
  let heap := removeItem (unlinkFree heap gone) gone
  let fresh := cfg.add (cfg.add header (rtMemheapSize cfg)) newsize
  linkFree (splitItem heap header fresh) fresh

/-- The payload is moved to another item. -/
def moveItem (heap : RtMemheap) (ptr oldsize newsize : ℕ) : Except Fault (RtMemheap × ℕ) := do
  let (heap, newPtr) ← rtMemheapAlloc cfg heap newsize
  if newPtr = 0 then return (heap, 0)
  let data := rtMemcpy heap.data newPtr ptr (if oldsize < newsize then oldsize else newsize)
  let heap ← rtMemheapFree cfg { heap with data := data } ptr
  return (heap, newPtr)

/-- The end of an item is split off and joins the next item, if that is free. -/
def shrinkItem (heap : RtMemheap) (header newsize : ℕ) : RtMemheap :=
  let fresh := cfg.add (cfg.add header newsize) (rtMemheapSize cfg)
  let heap := splitItem heap header fresh
  let heap :=
    if IsUsed heap (heap.next fresh) then heap
    else
      let gone := heap.next fresh
      let available := cfg.sub heap.availableSize (memitemSize cfg heap gone)
      unlinkFree (mergeNext (setAvailable heap available) fresh) gone
  let heap := linkFree heap fresh
  setAvailable heap (heap.availableSize + memitemSize cfg heap fresh)

def rtMemheapRealloc (heap : RtMemheap) (ptr newsize : ℕ) : Except Fault (RtMemheap × ℕ) :=
  if newsize = 0 then do
    let heap ← rtMemheapFree cfg heap ptr
    return (heap, 0)
  else
    let newsize := requestSize cfg newsize
    if ptr = 0 then rtMemheapAlloc cfg heap newsize
    else
      let header := cfg.sub ptr (rtMemheapSize cfg)
      let oldsize := memitemSize cfg heap header
      if oldsize < newsize then do
        rtAssert (header < heap.next header)
        if Grows cfg heap header newsize then
          return (growItem cfg heap header newsize, ptr)
        else moveItem cfg heap ptr oldsize newsize
      else if oldsize ≤
          cfg.add (cfg.add newsize (rtMemheapSize cfg)) rtMemheapMinialloc then
        .ok (heap, ptr)
      else .ok (shrinkItem cfg heap header newsize, ptr)

/-! ## The callers -/

/-- The heap, the pointers its callers hold, and the values that `pool_size` minus
`available_size` has had after each operation. -/
structure State where
  heap : RtMemheap
  live : List ℕ
  history : List ℕ

inductive Action
  | alloc (size : ℕ)
  | realloc (ptr newsize : ℕ)
  | free (ptr : ℕ)
  deriving DecidableEq

inductive Event
  | returned (ptr : ℕ)
  | faulted (fault : Fault)
  deriving DecidableEq

/-- The pointer argument is `RT_NULL` or live. -/
def State.holds (st : State) (ptr : ℕ) : Prop :=
  ptr = 0 ∨ ptr ∈ st.live

instance (st : State) (ptr : ℕ) : Decidable (st.holds ptr) :=
  inferInstanceAs (Decidable (_ ∨ _))

/-- The item of a live pointer has to grow. -/
def Enlarges (heap : RtMemheap) (ptr newsize : ℕ) : Prop :=
  newsize ≠ 0 ∧ ptr ≠ 0 ∧
    memitemSize cfg heap (cfg.sub ptr (rtMemheapSize cfg)) < requestSize cfg newsize

instance (heap : RtMemheap) (ptr newsize : ℕ) : Decidable (Enlarges cfg heap ptr newsize) :=
  inferInstanceAs (Decidable (_ ∧ _))

/-- The values between the two operations of a call of `rt_memheap_realloc` that moves a
payload. -/
def usedDuring (heap : RtMemheap) (ptr newsize : ℕ) : List ℕ :=
  if Enlarges cfg heap ptr newsize ∧ ¬ Grows cfg heap
      (cfg.sub ptr (rtMemheapSize cfg)) (requestSize cfg newsize) then
    match rtMemheapAlloc cfg heap (requestSize cfg newsize) with
    | .ok (heap, _) => [usedSize heap]
    | .error _ => []
  else []

/-- The live pointers after `rt_memheap_realloc`, which frees the block of a request for no
bytes and keeps it when there is no memory. -/
def afterRealloc (live : List ℕ) (ptr newsize newPtr : ℕ) : List ℕ :=
  if newsize = 0 then live.erase ptr
  else if newPtr = 0 then live
  else newPtr :: live.erase ptr

def step (st : State) : Action → Option (State × Event)
  | .alloc size =>
    if size < cfg.wordSize then
      match rtMemheapAlloc cfg st.heap size with
      | .ok (heap, ptr) =>
        some (⟨heap, if ptr = 0 then st.live else ptr :: st.live,
          st.history ++ [usedSize heap]⟩, .returned ptr)
      | .error fault => some (st, .faulted fault)
    else none
  | .realloc ptr newsize =>
    if newsize < cfg.wordSize ∧ st.holds ptr then
      match rtMemheapRealloc cfg st.heap ptr newsize with
      | .ok (heap, newPtr) =>
        some (⟨heap, afterRealloc st.live ptr newsize newPtr,
          st.history ++ usedDuring cfg st.heap ptr newsize ++ [usedSize heap]⟩,
          .returned newPtr)
      | .error fault => some (st, .faulted fault)
    else none
  | .free ptr =>
    if st.holds ptr then
      match rtMemheapFree cfg st.heap ptr with
      | .ok heap =>
        some (⟨heap, st.live.erase ptr, st.history ++ [usedSize heap]⟩, .returned 0)
      | .error fault => some (st, .faulted fault)
    else none

def machine : Machine State Action Event where
  step := step cfg

end RtThread.Memheap
