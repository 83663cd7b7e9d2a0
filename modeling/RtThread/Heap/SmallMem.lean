import RtThread.Core.BlockChain
import RtThread.Core.Machine

set_option linter.all false

/-!
# The small-memory heap

`plug_holes`, `rt_system_heap_init`, `rt_malloc`, `rt_realloc` and `rt_free` of
`mem.c`, for both word sizes, with and without `RT_USING_MEMTRACE` and for every
`RT_ALIGN_SIZE`.  Pointers into the heap are offsets from `heap_ptr`, pointers of
the callers are addresses, and the arithmetic on both wraps around at the word
size.  The headers are a store of their own, apart from the payload bytes: that no
header lies inside a payload is part of what is proved.

A failed assertion is a fault.  The two loops run on fuel that exceeds the length of
any chain of headers, and running out of it is a fault too.
-/

namespace RtThread.SmallMem

open Function
open RtThread.Core

/-- The build options the heap depends on; `RT_ALIGN_SIZE` is `2 ^ alignLog`. -/
structure HeapConfig where
  archCpu64bit : Bool
  usingMemtrace : Bool
  alignLog : ℕ
  alignLog_le : alignLog ≤ 30

/-- A 32-bit target with `RT_ALIGN_SIZE` 4. -/
def config32 : HeapConfig where
  archCpu64bit := false
  usingMemtrace := false
  alignLog := 2
  alignLog_le := by decide

namespace HeapConfig

variable (cfg : HeapConfig)

def wordBits : ℕ :=
  if cfg.archCpu64bit then 64 else 32

/-- The number of values of `rt_size_t`. -/
def wordSize : ℕ :=
  2 ^ cfg.wordBits

def rtAlignSize : ℕ :=
  2 ^ cfg.alignLog

/-- `RT_ALIGN_DOWN(size, RT_ALIGN_SIZE)`: the mask is the complement of
`RT_ALIGN_SIZE - 1` in a word. -/
def rtAlignDown (size : ℕ) : ℕ :=
  size &&& (cfg.wordSize - cfg.rtAlignSize)

/-- `RT_ALIGN(size, RT_ALIGN_SIZE)`. -/
def rtAlign (size : ℕ) : ℕ :=
  cfg.rtAlignDown ((size + (cfg.rtAlignSize - 1)) % cfg.wordSize)

def minSize : ℕ :=
  if cfg.archCpu64bit then 24 else 12

/-- `sizeof(struct heap_mem)`; the thread name is one word. -/
def sizeofHeapMem : ℕ :=
  if cfg.archCpu64bit then
    if cfg.usingMemtrace then 32 else 24
  else
    if cfg.usingMemtrace then 16 else 12

def minSizeAligned : ℕ :=
  cfg.rtAlign cfg.minSize

def sizeofStructMem : ℕ :=
  cfg.rtAlign cfg.sizeofHeapMem

def add (left right : ℕ) : ℕ :=
  (left + right) % cfg.wordSize

def sub (left right : ℕ) : ℕ :=
  (left + (cfg.wordSize - right)) % cfg.wordSize

theorem wordSize_ge : 2 ^ 32 ≤ cfg.wordSize := by
  rw [wordSize, wordBits]
  split <;> norm_num

theorem rtAlignSize_pos : 0 < cfg.rtAlignSize :=
  Nat.two_pow_pos _

theorem rtAlignSize_le : cfg.rtAlignSize ≤ 2 ^ 30 :=
  Nat.pow_le_pow_right (by norm_num) cfg.alignLog_le

theorem alignLog_le_wordBits : cfg.alignLog ≤ cfg.wordBits := by
  have hlog := cfg.alignLog_le
  rw [wordBits]
  split <;> omega

/-- Masking with the complement of `RT_ALIGN_SIZE - 1` clears the low bits of a word. -/
theorem rtAlignDown_eq (size : ℕ) : cfg.rtAlignDown size =
    size % cfg.wordSize / cfg.rtAlignSize * cfg.rtAlignSize := by
  have hmask : cfg.wordSize - cfg.rtAlignSize =
      (2 ^ (cfg.wordBits - cfg.alignLog) - 1) * 2 ^ cfg.alignLog := by
    rw [Nat.sub_mul, one_mul, ← pow_add, Nat.sub_add_cancel cfg.alignLog_le_wordBits]
    rfl
  rw [rtAlignDown, hmask]
  apply Nat.eq_of_testBit_eq
  intro bit
  simp only [rtAlignSize, wordSize, Nat.testBit_and, Nat.testBit_mul_two_pow,
    Nat.testBit_div_two_pow, Nat.testBit_two_pow_sub_one, Nat.testBit_mod_two_pow]
  by_cases hlow : cfg.alignLog ≤ bit
  · have hhigh : bit - cfg.alignLog < cfg.wordBits - cfg.alignLog ↔
        bit < cfg.wordBits := by omega
    simp [hlow, hhigh, Bool.and_comm]
  · simp [hlow]

theorem rtAlignSize_dvd_rtAlignDown (size : ℕ) : cfg.rtAlignSize ∣ cfg.rtAlignDown size := by
  rw [cfg.rtAlignDown_eq]
  exact Nat.dvd_mul_left _ _

theorem rtAlignDown_lt (size : ℕ) : cfg.rtAlignDown size < cfg.wordSize := by
  have hword := Nat.mod_lt size (Nat.two_pow_pos cfg.wordBits)
  rw [cfg.rtAlignDown_eq]
  exact (Nat.div_mul_le_self _ _).trans_lt hword

theorem rtAlignSize_dvd_rtAlign (size : ℕ) : cfg.rtAlignSize ∣ cfg.rtAlign size :=
  cfg.rtAlignSize_dvd_rtAlignDown _

theorem rtAlign_eq {size : ℕ} (hfits : size + cfg.rtAlignSize ≤ cfg.wordSize) :
    cfg.rtAlign size =
      (size + (cfg.rtAlignSize - 1)) / cfg.rtAlignSize * cfg.rtAlignSize := by
  have hpos := cfg.rtAlignSize_pos
  have hlt : size + (cfg.rtAlignSize - 1) < cfg.wordSize := by omega
  rw [rtAlign, Nat.mod_eq_of_lt hlt, cfg.rtAlignDown_eq, Nat.mod_eq_of_lt hlt]

theorem le_rtAlign {size : ℕ} (hfits : size + cfg.rtAlignSize ≤ cfg.wordSize) :
    size ≤ cfg.rtAlign size := by
  have hpos := cfg.rtAlignSize_pos
  have hmod := Nat.div_add_mod' (size + (cfg.rtAlignSize - 1)) cfg.rtAlignSize
  have hlt := Nat.mod_lt (size + (cfg.rtAlignSize - 1)) hpos
  rw [cfg.rtAlign_eq hfits]
  omega

theorem sizeofHeapMem_le : cfg.sizeofHeapMem ≤ 32 := by
  rw [sizeofHeapMem]
  split <;> split <;> norm_num

theorem minSize_le : cfg.minSize ≤ cfg.sizeofHeapMem := by
  rw [minSize, sizeofHeapMem]
  split <;> split <;> norm_num

theorem minSize_le_minSizeAligned : cfg.minSize ≤ cfg.minSizeAligned := by
  have hword := cfg.wordSize_ge
  have halign := cfg.rtAlignSize_le
  have hmin := cfg.minSize_le
  have hsizeof := cfg.sizeofHeapMem_le
  exact cfg.le_rtAlign (by omega)

theorem minSizeAligned_pos : 0 < cfg.minSizeAligned := by
  refine lt_of_lt_of_le ?_ cfg.minSize_le_minSizeAligned
  rw [minSize]
  split <;> norm_num

theorem minSizeAligned_le : cfg.minSizeAligned ≤ cfg.sizeofStructMem := by
  have hword := cfg.wordSize_ge
  have halign := cfg.rtAlignSize_le
  have hmin := cfg.minSize_le
  have hsizeof := cfg.sizeofHeapMem_le
  rw [minSizeAligned, sizeofStructMem, cfg.rtAlign_eq (by omega), cfg.rtAlign_eq (by omega)]
  gcongr

theorem add_eq {left right : ℕ} (hlt : left + right < cfg.wordSize) :
    cfg.add left right = left + right :=
  Nat.mod_eq_of_lt hlt

theorem sub_eq {left right : ℕ} (hle : right ≤ left) (hlt : left < cfg.wordSize) :
    cfg.sub left right = left - right := by
  have hsum : left + (cfg.wordSize - right) = left - right + cfg.wordSize := by omega
  rw [sub, hsum, Nat.add_mod_right, Nat.mod_eq_of_lt (by omega)]

end HeapConfig

def heapMagic : ℕ := 0x1ea0

/-- `struct heap_mem`, without the thread name of `RT_USING_MEMTRACE`. -/
structure HeapMem where
  magic : ℕ
  used : ℕ
  next : ℕ
  prev : ℕ

/-- The headers, by their offset. -/
abbrev Headers := ℕ → HeapMem

def setMagic (mem : Headers) (offset magic : ℕ) : Headers :=
  update mem offset { mem offset with magic := magic }

def setUsed (mem : Headers) (offset used : ℕ) : Headers :=
  update mem offset { mem offset with used := used }

def setNext (mem : Headers) (offset next : ℕ) : Headers :=
  update mem offset { mem offset with next := next }

def setPrev (mem : Headers) (offset prev : ℕ) : Headers :=
  update mem offset { mem offset with prev := prev }

/-- The links of the headers. -/
def links (mem : Headers) : Links ℕ where
  next offset := (mem offset).next
  prev offset := (mem offset).prev

section Headers

variable (mem : Headers) (offset value other : ℕ)

theorem apply_update_of_ne {Field : Type*} (field : HeapMem → Field) (header : HeapMem)
    (hsame : field header = field (mem offset)) :
    field (update mem offset header other) = field (mem other) := by
  by_cases hother : other = offset
  · rw [hother, update_self, hsame]
  · rw [update_of_ne hother]

theorem apply_update {Field : Type*} (field : HeapMem → Field) (header : HeapMem) :
    field (update mem offset header other) =
      if other = offset then field header else field (mem other) := by
  rw [update_apply]
  split <;> rfl

@[simp]
theorem magic_setMagic : (setMagic mem offset value other).magic =
    if other = offset then value else (mem other).magic :=
  apply_update mem offset other HeapMem.magic _

@[simp]
theorem used_setMagic : (setMagic mem offset value other).used = (mem other).used :=
  apply_update_of_ne mem offset other HeapMem.used _ rfl

@[simp]
theorem next_setMagic : (setMagic mem offset value other).next = (mem other).next :=
  apply_update_of_ne mem offset other HeapMem.next _ rfl

@[simp]
theorem prev_setMagic : (setMagic mem offset value other).prev = (mem other).prev :=
  apply_update_of_ne mem offset other HeapMem.prev _ rfl

@[simp]
theorem magic_setUsed : (setUsed mem offset value other).magic = (mem other).magic :=
  apply_update_of_ne mem offset other HeapMem.magic _ rfl

@[simp]
theorem used_setUsed : (setUsed mem offset value other).used =
    if other = offset then value else (mem other).used :=
  apply_update mem offset other HeapMem.used _

@[simp]
theorem next_setUsed : (setUsed mem offset value other).next = (mem other).next :=
  apply_update_of_ne mem offset other HeapMem.next _ rfl

@[simp]
theorem prev_setUsed : (setUsed mem offset value other).prev = (mem other).prev :=
  apply_update_of_ne mem offset other HeapMem.prev _ rfl

@[simp]
theorem magic_setNext : (setNext mem offset value other).magic = (mem other).magic :=
  apply_update_of_ne mem offset other HeapMem.magic _ rfl

@[simp]
theorem used_setNext : (setNext mem offset value other).used = (mem other).used :=
  apply_update_of_ne mem offset other HeapMem.used _ rfl

@[simp]
theorem next_setNext : (setNext mem offset value other).next =
    if other = offset then value else (mem other).next :=
  apply_update mem offset other HeapMem.next _

@[simp]
theorem prev_setNext : (setNext mem offset value other).prev = (mem other).prev :=
  apply_update_of_ne mem offset other HeapMem.prev _ rfl

@[simp]
theorem magic_setPrev : (setPrev mem offset value other).magic = (mem other).magic :=
  apply_update_of_ne mem offset other HeapMem.magic _ rfl

@[simp]
theorem used_setPrev : (setPrev mem offset value other).used = (mem other).used :=
  apply_update_of_ne mem offset other HeapMem.used _ rfl

@[simp]
theorem next_setPrev : (setPrev mem offset value other).next = (mem other).next :=
  apply_update_of_ne mem offset other HeapMem.next _ rfl

@[simp]
theorem prev_setPrev : (setPrev mem offset value other).prev =
    if other = offset then value else (mem other).prev :=
  apply_update mem offset other HeapMem.prev _

end Headers

/-- The static variables of `mem.c`, and the memory they point into. -/
structure Heap where
  heapPtr : ℕ
  mem : Headers
  heapEnd : ℕ
  lfree : ℕ
  memSizeAligned : ℕ
  usedMem : ℕ
  maxMem : ℕ
  /-- The payload bytes, by their address. -/
  data : ℕ → UInt8

inductive Fault
  /-- An `RT_ASSERT` fails. -/
  | assertion
  /-- A loop does not end. -/
  | endless
  deriving DecidableEq

def rtAssert (condition : Prop) [Decidable condition] : Except Fault Unit :=
  if condition then .ok () else .error .assertion

theorem ok_bind {Value Result : Type} (value : Value) (rest : Value → Except Fault Result) :
    (Except.ok value >>= rest) = rest value := rfl

theorem rtAssert_bind {Result : Type} {condition : Prop} [Decidable condition]
    (hcondition : condition) (rest : Unit → Except Fault Result) :
    (rtAssert condition >>= rest) = rest () := by
  rw [rtAssert, if_pos hcondition]
  rfl

/-- The first half of `plug_holes`. -/
def plugHoleForward (heap : Heap) (mem : ℕ) : Heap :=
  let nmem := (heap.mem mem).next
  if mem ≠ nmem ∧ (heap.mem nmem).used = 0 ∧ nmem ≠ heap.heapEnd then
    let after := (heap.mem nmem).next
    { heap with
      lfree := if heap.lfree = nmem then mem else heap.lfree
      mem := setPrev (setNext heap.mem mem after) after mem }
  else heap

/-- The second half of `plug_holes`. -/
def plugHoleBackward (heap : Heap) (mem : ℕ) : Heap :=
  let pmem := (heap.mem mem).prev
  if pmem ≠ mem ∧ (heap.mem pmem).used = 0 then
    let after := (heap.mem mem).next
    { heap with
      lfree := if heap.lfree = mem then pmem else heap.lfree
      mem := setPrev (setNext heap.mem pmem after) after pmem }
  else heap

def plugHoles (heap : Heap) (mem : ℕ) : Except Fault Heap := do
  -- `mem >= heap_ptr` holds of every offset
  rtAssert (mem < heap.heapEnd)
  rtAssert ((heap.mem mem).used = 0)
  return plugHoleBackward (plugHoleForward heap mem) mem

variable (cfg : HeapConfig)

/-- `rt_system_heap_init`; `none` is the error message and the early return.  The
memory holds arbitrary values before, and the static counters are zero. -/
def rtSystemHeapInit (beginAddr endAddr : ℕ) (mem : Headers) (data : ℕ → UInt8) : Option Heap :=
  let beginAlign := cfg.rtAlign beginAddr
  let endAlign := cfg.rtAlignDown endAddr
  if 2 * cfg.sizeofStructMem < endAlign ∧
      beginAlign ≤ endAlign - 2 * cfg.sizeofStructMem then
    let memSizeAligned := endAlign - beginAlign - 2 * cfg.sizeofStructMem
    let heapEnd := cfg.add memSizeAligned cfg.sizeofStructMem
    let first : HeapMem := { magic := heapMagic, used := 0, next := heapEnd, prev := 0 }
    let last : HeapMem := { magic := heapMagic, used := 1, next := heapEnd, prev := heapEnd }
    some
      { heapPtr := beginAlign
        mem := update (update mem 0 first) heapEnd last
        heapEnd := heapEnd
        lfree := 0
        memSizeAligned := memSizeAligned
        usedMem := 0
        maxMem := 0
        data := data }
  else none

/-- Create an unused block at `ptr2`, inside the block at `ptr`, and link it in. -/
def splitBlock (heap : Heap) (ptr ptr2 : ℕ) : Headers :=
  let next := (heap.mem ptr).next
  let mem2 : HeapMem := { magic := heapMagic, used := 0, next := next, prev := ptr }
  let mem := setNext (update heap.mem ptr2 mem2) ptr ptr2
  if next ≠ cfg.add heap.memSizeAligned cfg.sizeofStructMem then setPrev mem next ptr2
  else mem

section SplitBlock

variable (heap : Heap) (ptr ptr2 other : ℕ)

theorem next_splitBlock : (splitBlock cfg heap ptr ptr2 other).next =
    if other = ptr then ptr2 else if other = ptr2 then (heap.mem ptr).next
    else (heap.mem other).next := by
  rw [splitBlock]
  split <;> simp only [next_setPrev, next_setNext, apply_update _ _ _ HeapMem.next]

theorem prev_splitBlock : (splitBlock cfg heap ptr ptr2 other).prev =
    if other = (heap.mem ptr).next ∧
        (heap.mem ptr).next ≠ cfg.add heap.memSizeAligned cfg.sizeofStructMem then ptr2
    else if other = ptr2 then ptr else (heap.mem other).prev := by
  rw [splitBlock]
  split
  · next hnext => simp only [prev_setPrev, prev_setNext, apply_update _ _ _ HeapMem.prev, hnext,
      ne_eq, not_false_eq_true, and_true]
  · next hnext => simp only [prev_setNext, apply_update _ _ _ HeapMem.prev, hnext, and_false,
      if_false]

theorem used_splitBlock : (splitBlock cfg heap ptr ptr2 other).used =
    if other = ptr2 then 0 else (heap.mem other).used := by
  rw [splitBlock]
  split <;> simp only [used_setPrev, used_setNext, apply_update _ _ _ HeapMem.used]

theorem magic_splitBlock : (splitBlock cfg heap ptr ptr2 other).magic =
    if other = ptr2 then heapMagic else (heap.mem other).magic := by
  rw [splitBlock]
  split <;> simp only [magic_setPrev, magic_setNext, apply_update _ _ _ HeapMem.magic]

end SplitBlock

/-- The loop of `rt_malloc`. -/
def firstFit (heap : Heap) (size : ℕ) : ℕ → ℕ → Except Fault (Option ℕ)
  | 0, _ => .error .endless
  | fuel + 1, ptr =>
    if ptr < cfg.sub heap.memSizeAligned size then
      if (heap.mem ptr).used = 0 ∧
          size ≤ cfg.sub (heap.mem ptr).next (cfg.add ptr cfg.sizeofStructMem) then
        .ok (some ptr)
      else firstFit heap size fuel (heap.mem ptr).next
    else .ok none

/-- The loop that finds the next free block for `lfree`. -/
def nextFree (heap : Heap) : ℕ → ℕ → Except Fault ℕ
  | 0, _ => .error .endless
  | fuel + 1, lfree =>
    if (heap.mem lfree).used ≠ 0 ∧ lfree ≠ heap.heapEnd then
      nextFree heap fuel (heap.mem lfree).next
    else .ok lfree

/-- The accounting of `RT_MEM_STATS` on an allocation. -/
def addUsedMem (heap : Heap) (amount : ℕ) : Heap :=
  let usedMem := cfg.add heap.usedMem amount
  { heap with
    usedMem := usedMem
    maxMem := if heap.maxMem < usedMem then usedMem else heap.maxMem }

/-- The block that `rt_malloc` found is taken, whole or split. -/
def takeBlock (heap : Heap) (ptr size : ℕ) : Heap :=
  let next := (heap.mem ptr).next
  let fits := cfg.add (cfg.add size cfg.sizeofStructMem) cfg.minSizeAligned
  if fits ≤ cfg.sub next (cfg.add ptr cfg.sizeofStructMem) then
    let ptr2 := cfg.add (cfg.add ptr cfg.sizeofStructMem) size
    let mem := setMagic (setUsed (splitBlock cfg heap ptr ptr2) ptr 1) ptr heapMagic
    addUsedMem cfg { heap with mem := mem } (cfg.add size cfg.sizeofStructMem)
  else
    let mem := setMagic (setUsed heap.mem ptr 1) ptr heapMagic
    addUsedMem cfg { heap with mem := mem } (cfg.sub next ptr)

/-- `rt_malloc` moves `lfree` on when it has taken the block there. -/
def advanceLfree (heap : Heap) (ptr : ℕ) : Except Fault Heap :=
  if ptr = heap.lfree then do
    let lfree ← nextFree heap (heap.heapEnd + 1) heap.lfree
    rtAssert (lfree = heap.heapEnd ∨ (heap.mem lfree).used = 0)
    return { heap with lfree := lfree }
  else .ok heap

/-- The rest of `rt_malloc`, once a block is found. -/
def allocate (heap : Heap) (ptr size : ℕ) : Except Fault (Heap × ℕ) := do
  let heap ← advanceLfree (takeBlock cfg heap ptr size) ptr
  let mem := cfg.add heap.heapPtr ptr
  rtAssert (cfg.add (cfg.add mem cfg.sizeofStructMem) size ≤
    cfg.add heap.heapPtr heap.heapEnd)
  rtAssert (cfg.add mem cfg.sizeofStructMem % cfg.rtAlignSize = 0)
  rtAssert (mem &&& (cfg.rtAlignSize - 1) = 0)
  return (heap, cfg.add mem cfg.sizeofStructMem)

/-- The size a request is served with. -/
def requestSize (size : ℕ) : ℕ :=
  if cfg.rtAlign size < cfg.minSizeAligned then cfg.minSizeAligned
  else cfg.rtAlign size

def rtMalloc (heap : Heap) (size : ℕ) : Except Fault (Heap × ℕ) :=
  if size = 0 then .ok (heap, 0)
  else if heap.memSizeAligned < cfg.rtAlign size then .ok (heap, 0)
  else do
    match ← firstFit cfg heap (requestSize cfg size) (heap.heapEnd + 1) heap.lfree with
    | none => return (heap, 0)
    | some ptr => allocate cfg heap ptr (requestSize cfg size)

/-- The offset of the header of a payload. -/
def headerOf (heap : Heap) (rmem : ℕ) : ℕ :=
  cfg.sub (cfg.sub rmem cfg.sizeofStructMem) heap.heapPtr

/-- The block at an offset becomes unused. -/
def releaseBlock (heap : Heap) (mem : ℕ) : Heap :=
  { heap with
    mem := setMagic (setUsed heap.mem mem 0) mem heapMagic
    lfree := if mem < heap.lfree then mem else heap.lfree
    usedMem := cfg.sub heap.usedMem (cfg.sub (heap.mem mem).next mem) }

def rtFree (heap : Heap) (rmem : ℕ) : Except Fault Heap :=
  if rmem = 0 then .ok heap
  else do
    rtAssert (rmem &&& (cfg.rtAlignSize - 1) = 0)
    rtAssert (heap.heapPtr ≤ rmem ∧ rmem < cfg.add heap.heapPtr heap.heapEnd)
    if rmem < heap.heapPtr ∨ cfg.add heap.heapPtr heap.heapEnd ≤ rmem then return heap
    let mem := headerOf cfg heap rmem
    rtAssert ((heap.mem mem).used ≠ 0)
    rtAssert ((heap.mem mem).magic = heapMagic)
    plugHoles (releaseBlock cfg heap mem) mem

def rtMemcpy (data : ℕ → UInt8) (dst src count : ℕ) : ℕ → UInt8 :=
  fun address =>
    if dst ≤ address ∧ address < dst + count then data (src + (address - dst)) else data address

/-- The end of the block at `ptr` becomes an unused block at `ptr2`. -/
def cutBlock (heap : Heap) (ptr ptr2 amount : ℕ) : Heap :=
  { heap with
    usedMem := cfg.sub heap.usedMem amount
    mem := splitBlock cfg heap ptr ptr2 }

/-- The path of `rt_realloc` that cuts the end off a block. -/
def shrink (heap : Heap) (ptr size newsize : ℕ) : Except Fault Heap :=
  let ptr2 := cfg.add (cfg.add ptr cfg.sizeofStructMem) newsize
  plugHoles (cutBlock cfg heap ptr ptr2 (cfg.sub size newsize)) ptr2

/-- The path of `rt_realloc` that moves the payload to another block. -/
def expand (heap : Heap) (rmem size newsize : ℕ) : Except Fault (Heap × ℕ) := do
  let (heap, nmem) ← rtMalloc cfg heap newsize
  if nmem = 0 then return (heap, 0)
  let data := rtMemcpy heap.data nmem rmem (if size < newsize then size else newsize)
  let heap ← rtFree cfg { heap with data := data } rmem
  return (heap, nmem)

/-- The payload size of the block at an offset. -/
def payloadSize (heap : Heap) (ptr : ℕ) : ℕ :=
  cfg.sub (cfg.sub (heap.mem ptr).next ptr) cfg.sizeofStructMem

/-- The test of `rt_realloc` for cutting a block of payload `size`. -/
def shrinks (size newsize : ℕ) : Prop :=
  cfg.add (cfg.add newsize cfg.sizeofStructMem) cfg.minSize < size

instance (size newsize : ℕ) : Decidable (shrinks cfg size newsize) :=
  inferInstanceAs (Decidable (_ < _))

def rtRealloc (heap : Heap) (rmem newsize : ℕ) : Except Fault (Heap × ℕ) :=
  let newsize := cfg.rtAlign newsize
  if heap.memSizeAligned < newsize then .ok (heap, 0)
  else if newsize = 0 then do
    let heap ← rtFree cfg heap rmem
    return (heap, 0)
  else if rmem = 0 then rtMalloc cfg heap newsize
  else if rmem < heap.heapPtr ∨ cfg.add heap.heapPtr heap.heapEnd ≤ rmem then .ok (heap, rmem)
  else
    let ptr := headerOf cfg heap rmem
    let size := payloadSize cfg heap ptr
    if size = newsize then .ok (heap, rmem)
    else if shrinks cfg size newsize then do
      let heap ← shrink cfg heap ptr size newsize
      return (heap, rmem)
    else expand cfg heap rmem size newsize

/-! ## The callers -/

/-- The heap and the pointers its callers hold. -/
structure State where
  heap : Heap
  live : Finset ℕ

inductive Action
  | malloc (size : ℕ)
  | realloc (rmem newsize : ℕ)
  | free (rmem : ℕ)

inductive Event
  | returned (pointer : ℕ)
  | faulted (fault : Fault)

/-- The pointer argument is `RT_NULL` or live. -/
def State.holds (st : State) (rmem : ℕ) : Prop :=
  rmem = 0 ∨ rmem ∈ st.live

instance (st : State) (rmem : ℕ) : Decidable (st.holds rmem) :=
  inferInstanceAs (Decidable (_ ∨ _))

/-- The live pointers after `rt_malloc`. -/
def afterMalloc (live : Finset ℕ) (pointer : ℕ) : Finset ℕ :=
  if pointer = 0 then live else insert pointer live

/-- The live pointers after `rt_realloc`, which frees the block of a request that
rounds to zero and keeps it when there is no memory. -/
def afterRealloc (live : Finset ℕ) (rmem newsize pointer : ℕ) : Finset ℕ :=
  if cfg.rtAlign newsize = 0 then live.erase rmem
  else if pointer = 0 then live
  else insert pointer (live.erase rmem)

def step (st : State) : Action → Option (State × Event)
  | .malloc size =>
    if size < cfg.wordSize then
      match rtMalloc cfg st.heap size with
      | .ok (heap, pointer) =>
        some (⟨heap, afterMalloc st.live pointer⟩, .returned pointer)
      | .error fault => some (st, .faulted fault)
    else none
  | .realloc rmem newsize =>
    if newsize < cfg.wordSize ∧ st.holds rmem then
      match rtRealloc cfg st.heap rmem newsize with
      | .ok (heap, pointer) =>
        some (⟨heap, afterRealloc cfg st.live rmem newsize pointer⟩, .returned pointer)
      | .error fault => some (st, .faulted fault)
    else none
  | .free rmem =>
    if st.holds rmem then
      match rtFree cfg st.heap rmem with
      | .ok heap => some (⟨heap, st.live.erase rmem⟩, .returned 0)
      | .error fault => some (st, .faulted fault)
    else none

def machine : Machine State Action Event where
  step := step cfg

end RtThread.SmallMem
