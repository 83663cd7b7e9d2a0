import RtThread.Core.LinkedCells
import RtThread.Core.Machine
import RtThread.Core.Tiles
import RtThread.Drivers.Ringbuffer

set_option linter.all false

/-!
# The heap of the shell

`finsh_heap.c`: a heap of a few bytes for the string literals of the shell, with a list of free
and a list of allocated blocks, and a garbage collection that keeps what a global variable points
to.  A pointer is the distance of an address from `finsh_heap`.  The headers are a store of their
own, apart from the data bytes.  A loop has no result when it does not end.
-/

namespace RtThread.Finsh

open Function
open RtThread.Core
open RtThread.Ringbuffer (copyIn copyOut)

/-- The size of `struct finsh_block_header`, and `FINSH_HEAP_MAX`. -/
structure HeapConfig where
  headerSize : ℕ
  headerSize_pos : 0 < headerSize
  heapMax : ℕ
  headerSize_le : headerSize ≤ heapMax

/-- A 32-bit target. -/
def heapConfig32 : HeapConfig where
  headerSize := 8
  headerSize_pos := by decide
  heapMax := 128
  headerSize_le := by decide

structure BlockHeader where
  length : ℕ
  next : Option ℕ

inductive HeapList
  | free
  | allocate
  deriving DecidableEq

structure FinshHeap where
  freeList : Option ℕ
  allocateList : Option ℕ
  block : ℕ → BlockHeader
  data : ℕ → UInt8

/-- A global variable, as far as the collection reads it. -/
structure FinshVar where
  known : Bool
  ptr : Option ℕ

/-- `HEAP_ALIGN_SIZE`, for a `HEAP_ALIGNMENT` of 4. -/
def heapAlignSize (size : ℕ) : ℕ :=
  (size + 3) / 4 * 4

namespace FinshHeap

variable (heap : FinshHeap)

def head : HeapList → Option ℕ
  | .free => heap.freeList
  | .allocate => heap.allocateList

def next (node : ℕ) : Option ℕ :=
  (heap.block node).next

def length (node : ℕ) : ℕ :=
  (heap.block node).length

def setHead (list : HeapList) (start : Option ℕ) : FinshHeap :=
  match list with
  | .free => { heap with freeList := start }
  | .allocate => { heap with allocateList := start }

def setNext (node : ℕ) (next : Option ℕ) : FinshHeap :=
  { heap with block := update heap.block node ⟨heap.length node, next⟩ }

def setLength (node length : ℕ) : FinshHeap :=
  { heap with block := update heap.block node ⟨length, heap.next node⟩ }

end FinshHeap

variable (cfg : HeapConfig)

/-- A list does not have more blocks than the heap has addresses. -/
def HeapConfig.fuel : ℕ :=
  cfg.heapMax + 1

def finshHeapInit : FinshHeap where
  freeList := some 0
  allocateList := none
  block := update (fun _ => ⟨0, none⟩) 0 ⟨cfg.heapMax - cfg.headerSize, none⟩
  data := fun _ => 0

/-- The loop of `finsh_block_insert`, and what follows it. -/
def insertBehind (heap : FinshHeap) (header : ℕ) : ℕ → ℕ → Option FinshHeap
  | 0, _ => none
  | fuel + 1, node =>
    match heap.next node with
    | some next =>
      if header < next then some ((heap.setNext header (some next)).setNext node (some header))
      else insertBehind heap header fuel next
    | none => some (heap.setNext node (some header))

def finshBlockInsert (heap : FinshHeap) (list : HeapList) (header : ℕ) : Option FinshHeap :=
  match heap.head list with
  | none => some (heap.setHead list (some header))
  | some node =>
    if header < node then some ((heap.setNext header (some node)).setHead list (some header))
    else insertBehind heap header cfg.fuel node

/-- The loop of `finsh_block_remove`; the pointer of the removed block stays. -/
def removeBehind (heap : FinshHeap) (header : ℕ) : ℕ → Option ℕ → Option FinshHeap
  | 0, _ => none
  | _ + 1, none => some heap
  | fuel + 1, some node =>
    if heap.next node = some header then some (heap.setNext node (heap.next header))
    else removeBehind heap header fuel (heap.next node)

def finshBlockRemove (heap : FinshHeap) (list : HeapList) (header : ℕ) : Option FinshHeap :=
  if heap.head list = some header then
    some ((heap.setHead list (heap.next header)).setNext header none)
  else removeBehind heap header cfg.fuel (heap.head list)

def finshBlockSplit (heap : FinshHeap) (header size : ℕ) : FinshHeap :=
  let next := header + cfg.headerSize + size
  let heap := heap.setLength next (heap.length header - cfg.headerSize - size)
  let heap := heap.setLength header size
  let heap := heap.setNext next (heap.next header)
  heap.setNext header (some next)

/-- The loop that looks for the previous header. -/
def findPrevious (heap : FinshHeap) (header : ℕ) : ℕ → Option ℕ → Option (Option ℕ)
  | 0, _ => none
  | _ + 1, none => some none
  | fuel + 1, some node =>
    if heap.next node = some header then some (some node)
    else findPrevious heap header fuel (heap.next node)

/-- One block ends where the other one starts. -/
def Close (heap : FinshHeap) (node : ℕ) (other : ℕ) : Prop :=
  node + heap.length node + cfg.headerSize = other

instance (heap : FinshHeap) (node other : ℕ) : Decidable (Close cfg heap node other) :=
  inferInstanceAs (Decidable (_ = _))

/-- The last branch of `finsh_block_merge`. -/
def mergeNext (heap : FinshHeap) (header : ℕ) : Option ℕ → FinshHeap
  | none => heap
  | some next =>
    if Close cfg heap header next then
      (heap.setLength header (heap.length header +
        (heap.length next + cfg.headerSize))).setNext
        header (heap.next next)
    else heap

def mergePrevious (heap : FinshHeap) (header : ℕ) (nextNode : Option ℕ) (prev : ℕ) : FinshHeap :=
  match nextNode with
  | none =>
    (heap.setLength prev (heap.length prev + (heap.length header + cfg.headerSize))).setNext
      prev (heap.next header)
  | some next =>
    if Close cfg heap header next then
      (heap.setLength prev (heap.length prev +
        (heap.length header + heap.length next + 2 * cfg.headerSize))).setNext
          prev (heap.next next)
    else
      (heap.setLength prev (heap.length prev + (heap.length header + cfg.headerSize))).setNext
        prev (heap.next header)

def mergeNodes (heap : FinshHeap) (header : ℕ) (prevNode nextNode : Option ℕ) : FinshHeap :=
  match prevNode with
  | none => mergeNext cfg heap header nextNode
  | some prev =>
    if Close cfg heap prev header then mergePrevious cfg heap header nextNode prev
    else mergeNext cfg heap header nextNode

def finshBlockMerge (heap : FinshHeap) (list : HeapList) (header : ℕ) : Option FinshHeap := do
  let nextNode := heap.next header
  let prevNode ← if heap.head list = some header then some none
    else findPrevious heap header cfg.fuel (heap.head list)
  return mergeNodes cfg heap header prevNode nextNode

/-- `ptr` is behind the header. -/
def finshHeapFree (heap : FinshHeap) (ptr : ℕ) : Option FinshHeap := do
  let header := ptr - cfg.headerSize
  let heap ← finshBlockRemove cfg heap .allocate header
  let heap ← finshBlockInsert cfg heap .free header
  finshBlockMerge cfg heap .free header

/-- A global variable points to the data of the block. -/
def Referenced (globals : List FinshVar) (ptr : ℕ) : Prop :=
  ∃ var ∈ globals, var.known = true ∧ var.ptr = some ptr

instance (globals : List FinshVar) (ptr : ℕ) : Decidable (Referenced globals ptr) :=
  inferInstanceAs (Decidable (∃ var ∈ globals, var.known = true ∧ var.ptr = some ptr))

/-- The loop of `finsh_heap_gc`, which goes on with the pointer from before the block is freed. -/
def gcFrom (globals : List FinshVar) : ℕ → FinshHeap → Option ℕ → Option FinshHeap
  | 0, _, _ => none
  | _ + 1, heap, none => some heap
  | fuel + 1, heap, some header =>
    let next := heap.next header
    if Referenced globals (header + cfg.headerSize) then gcFrom globals fuel heap next
    else do
      let heap ← finshHeapFree cfg heap (header + cfg.headerSize)
      gcFrom globals fuel heap next

def finshHeapGc (globals : List FinshVar) (heap : FinshHeap) : Option FinshHeap :=
  gcFrom cfg globals cfg.fuel heap heap.allocateList

/-- The search for the first block whose length fits. -/
def firstFit (fits : ℕ → Bool) (heap : FinshHeap) : ℕ → Option ℕ → Option (Option ℕ)
  | 0, _ => none
  | _ + 1, none => some none
  | fuel + 1, some header =>
    if fits (heap.length header) then some (some header)
    else firstFit fits heap fuel (heap.next header)

/-- The second half of `finsh_heap_allocate`. -/
def takeBlock (heap : FinshHeap) (header size : ℕ) : Option FinshHeap := do
  let heap := finshBlockSplit cfg heap header size
  let heap ← finshBlockRemove cfg heap .free header
  let heap := heap.setNext header none
  let heap ← finshBlockInsert cfg heap .allocate header
  return { heap with
    data := copyIn heap.data (header + cfg.headerSize) (List.replicate size 0) }

/-- The result is the pointer, or `none` for `NULL`. -/
def finshHeapAllocate (globals : List FinshVar) (heap : FinshHeap) (size : ℕ) :
    Option (FinshHeap × Option ℕ) := do
  let size := heapAlignSize size
  match ← firstFit (size + cfg.headerSize < ·) heap cfg.fuel heap.freeList with
  | some header =>
    let heap ← takeBlock cfg heap header size
    return (heap, some (header + cfg.headerSize))
  | none =>
    let heap ← finshHeapGc cfg globals heap
    match ← firstFit (size + cfg.headerSize ≤ ·) heap cfg.fuel heap.freeList with
    | none => return (heap, none)
    | some header =>
      let heap ← takeBlock cfg heap header size
      return (heap, some (header + cfg.headerSize))

end RtThread.Finsh
