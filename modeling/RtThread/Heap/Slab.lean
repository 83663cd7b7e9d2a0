import RtThread.Heap.PageAlloc

set_option linter.all false

/-!
# The slab allocator

`slab.c` serves small requests from zones of equal chunks and large ones from pages.  A zone
is a run of pages with its header on the first; it is linked by `z_next` into the list of
its chunk size in `zone_array`, into the list `zone_free` of zones kept for reuse, or into
neither.  The table `memusage` tells for each page of the heap what it is used for.

A zone is named by its first page, a chunk by its address, and `none` is `RT_NULL` among the
links.  The functions return `none` where an assertion fails, a null pointer is followed or a
loop does not end.  Payloads are not modelled, so the copy of `rt_realloc` does nothing.
-/

namespace RtThread.Slab

open Function
open RtThread.Core RtThread.PageAlloc

/-! ## Constants -/

def rtMmPageSize : ℕ := 4096
def zallocSlabMagic : ℤ := 0x51ab51ab
def zallocZoneLimit : ℕ := 16 * 1024
def zallocMinZoneSize : ℕ := 32 * 1024
def zallocMaxZoneSize : ℕ := 128 * 1024
def nzones : ℕ := 72
def zoneReleaseThresh : ℕ := 2
def minChunkSize : ℕ := 8
def sizeofMemusage : ℕ := 4

/-- The size of a word, and of the zone header: 36 bytes where a pointer has four, and 56
where it has eight. -/
structure SlabConfig where
  wordSize : ℕ
  sizeofSlabZone : ℕ
  word_large : 2 ^ 32 ≤ wordSize
  word_pages : rtMmPageSize ∣ wordSize
  sizeof_pos : 0 < sizeofSlabZone
  sizeof_le : sizeofSlabZone ≤ 64

def config32 : SlabConfig :=
  ⟨2 ^ 32, 36, by decide, by decide, by decide, by decide⟩

/-- `(n + (unit - 1)) & ~(unit - 1)` for a power of two. -/
def roundUp (n unit : ℕ) : ℕ :=
  (n + (unit - 1)) / unit * unit

/-- `RT_ALIGN(size, RT_MM_PAGE_SIZE)`. -/
def SlabConfig.rtAlign (cfg : SlabConfig) (size : ℕ) : ℕ :=
  (size + (rtMmPageSize - 1)) % cfg.wordSize / rtMmPageSize * rtMmPageSize

/-! ## The heap -/

inductive PageType
  | free
  | small
  | large
  deriving DecidableEq

structure Memusage where
  type : PageType
  size : ℕ

structure SlabZone where
  zMagic : ℤ
  zNfree : ℕ
  zNmax : ℕ
  zNext : Option ℕ
  zBaseptr : ℕ
  zUindex : ℕ
  zChunksize : ℕ
  zZoneindex : ℕ
  zFreechunk : Option ℕ

structure SlabHeap where
  pages : PageHeap
  heapStart : ℕ
  memusage : ℕ → Memusage
  zone : ℕ → SlabZone
  cNext : ℕ → Option ℕ
  zoneArray : ℕ → Option ℕ
  zoneFree : Option ℕ
  zoneFreeCnt : ℕ
  zoneSize : ℕ
  zoneLimit : ℕ
  zonePageCnt : ℕ
  usedMem : ℕ
  maxMem : ℕ

namespace SlabHeap

/-- The entry of a page in `memusage`. -/
def btokup (heap : SlabHeap) (page : ℕ) : ℕ :=
  page - heap.heapStart

def setZone (heap : SlabHeap) (z : ℕ) (zone : SlabZone) : SlabHeap :=
  { heap with zone := update heap.zone z zone }

def setZoneArray (heap : SlabHeap) (zi : ℕ) (z : Option ℕ) : SlabHeap :=
  { heap with zoneArray := update heap.zoneArray zi z }

end SlabHeap

/-- A loop that writes an entry for each of `count` pages. -/
def setUsage (memusage : ℕ → Memusage) (kup : ℕ) (usage : ℕ → Memusage) : ℕ → ℕ → Memusage
  | 0 => memusage
  | off + 1 => update (setUsage memusage kup usage off) (kup + off) (usage off)

variable (cfg : SlabConfig)

/-- The accounting of `RT_MEM_STATS` on an allocation. -/
def addUsedMem (heap : SlabHeap) (amount : ℕ) : SlabHeap :=
  let used := (heap.usedMem + amount) % cfg.wordSize
  { heap with usedMem := used, maxMem := max used heap.maxMem }

def subUsedMem (heap : SlabHeap) (amount : ℕ) : SlabHeap :=
  { heap with usedMem := (heap.usedMem + (cfg.wordSize - amount)) % cfg.wordSize }

/-- The loop over `zone_size`; two doublings reach the maximum. -/
def growZone (limit : ℕ) : ℕ → ℕ → ℕ
  | 0, zoneSize => zoneSize
  | fuel + 1, zoneSize =>
    if zoneSize < zallocMaxZoneSize ∧ zoneSize <<< 1 < limit then
      growZone limit fuel (zoneSize <<< 1)
    else zoneSize

/-- The pages of a heap, with the length of the range as the 32-bit `limsize` has it. -/
def heapRange (beginAddr endAddr : ℕ) : Extent :=
  let heapStart := cfg.rtAlign beginAddr
  let heapEnd := endAddr / rtMmPageSize * rtMmPageSize
  ⟨heapStart / rtMmPageSize, (heapEnd - heapStart) % 2 ^ 32 / rtMmPageSize⟩

/-- The pages of the table `memusage`. -/
def memusagePages (npages : ℕ) : ℕ :=
  roundUp (npages * sizeofMemusage) rtMmPageSize / rtMmPageSize

/-- `rt_system_heap_init`, given what memory holds and the static variables, which are zero
at first. -/
def rtSystemHeapInit (beginAddr endAddr : ℕ) (head : ℕ → PageHead) (memusage : ℕ → Memusage)
    (zone : ℕ → SlabZone) (cNext : ℕ → Option ℕ) : Option SlabHeap :=
  let range := heapRange cfg beginAddr endAddr
  if cfg.rtAlign beginAddr < endAddr / rtMmPageSize * rtMmPageSize then do
    let pages ← (rtPageInit range.first range.count head).toOption
    let limsize := (endAddr / rtMmPageSize * rtMmPageSize - cfg.rtAlign beginAddr) % 2 ^ 32
    let zoneSize := growZone (limsize / 1024) 2 zallocMinZoneSize
    let (pages, _) ← (rtPageAlloc pages (memusagePages range.count)).toOption
    return {
      pages := pages
      heapStart := range.first
      memusage := memusage
      zone := zone
      cNext := cNext
      zoneArray := fun _ => none
      zoneFree := none
      zoneFreeCnt := 0
      zoneSize := zoneSize
      zoneLimit := min (zoneSize / 4) zallocZoneLimit
      zonePageCnt := zoneSize / rtMmPageSize
      usedMem := 0
      maxMem := 0 }
  else none

/-- `zoneindex`: the index of a zone and the request rounded to its chunks. -/
def zoneindex (n : ℕ) : ℕ × ℕ :=
  if n < 128 then (roundUp n 8 / 8 - 1, roundUp n 8)
  else if n < 256 then (roundUp n 16 / 16 + 7, roundUp n 16)
  else if n < 8192 then
    if n < 512 then (roundUp n 32 / 32 + 15, roundUp n 32)
    else if n < 1024 then (roundUp n 64 / 64 + 23, roundUp n 64)
    else if n < 2048 then (roundUp n 128 / 128 + 31, roundUp n 128)
    else if n < 4096 then (roundUp n 256 / 256 + 39, roundUp n 256)
    else (roundUp n 512 / 512 + 47, roundUp n 512)
  else if n < 16384 then (roundUp n 1024 / 1024 + 55, roundUp n 1024)
  -- the message of an unexpected byte count
  else (0, n)

/-! ## `rt_malloc` -/

/-- The large allocations of `rt_malloc`. -/
def mallocPages (heap : SlabHeap) (size : ℕ) : Option (SlabHeap × ℕ) := do
  let size := cfg.rtAlign size
  let (pages, chunk) ← (rtPageAlloc heap.pages (size / rtMmPageSize)).toOption
  if chunk = 0 then return ({ heap with pages := pages }, 0)
  let usage : Memusage := ⟨.large, size / rtMmPageSize⟩
  let heap := { heap with
    pages := pages
    memusage := update heap.memusage (heap.btokup chunk) usage }
  return (addUsedMem cfg heap size, chunk * rtMmPageSize)

/-- A zone loses a free chunk, and leaves its list with the last one. -/
def dropNfree (heap : SlabHeap) (zi z : ℕ) : SlabHeap :=
  let zone := heap.zone z
  if zone.zNfree - 1 = 0 then
    (heap.setZone z { zone with zNfree := zone.zNfree - 1, zNext := none }).setZoneArray
      zi zone.zNext
  else heap.setZone z { zone with zNfree := zone.zNfree - 1 }

/-- A chunk that was never used, or else the first of the free list. -/
def takeChunk (heap : SlabHeap) (z size : ℕ) : Option (SlabHeap × ℕ) :=
  let zone := heap.zone z
  if zone.zUindex + 1 ≠ zone.zNmax then
    some (heap.setZone z { zone with zUindex := zone.zUindex + 1 },
      zone.zBaseptr + (zone.zUindex + 1) * size)
  else do
    let chunk ← zone.zFreechunk
    return (heap.setZone z { zone with zFreechunk := heap.cNext chunk }, chunk)

/-- `rt_malloc` from the first zone of a list. -/
def mallocChunk (heap : SlabHeap) (zi z size : ℕ) : Option (SlabHeap × ℕ) :=
  if 0 < (heap.zone z).zNfree then do
    let (heap, chunk) ← takeChunk (dropNfree heap zi z) z size
    return (addUsedMem cfg heap (heap.zone z).zChunksize, chunk)
  else none

/-- The first zone of `zone_free` is removed from it. -/
def popZone (heap : SlabHeap) (z : ℕ) : SlabHeap :=
  { heap with zoneFree := (heap.zone z).zNext, zoneFreeCnt := heap.zoneFreeCnt - 1 }

/-- A zone that was kept, or else one from the page allocator; page 0 if there is none. -/
def acquireZone (heap : SlabHeap) : Option (SlabHeap × ℕ) :=
  match heap.zoneFree with
  | some z => some (popZone heap z, z)
  | none => do
      let (pages, z) ← (rtPageAlloc heap.pages (heap.zoneSize / rtMmPageSize)).toOption
      if z = 0 then return ({ heap with pages := pages }, 0)
      let memusage := setUsage heap.memusage (heap.btokup z) (fun off => ⟨.small, off⟩)
        heap.zonePageCnt
      return ({ heap with pages := pages, memusage := memusage }, z)

/-- The offset of the chunks in a zone. -/
def chunkOffset (size : ℕ) : ℕ :=
  if (size ||| (size - 1)) + 1 = size <<< 1 then roundUp cfg.sizeofSlabZone size
  else roundUp cfg.sizeofSlabZone minChunkSize

/-- A zone is laid out for a chunk size and linked into its list. -/
def initZone (heap : SlabHeap) (zi z size : ℕ) : SlabHeap :=
  let off := chunkOffset cfg size
  let nmax := (heap.zoneSize - off) / size
  (heap.setZone z {
    zMagic := zallocSlabMagic
    zNfree := nmax - 1
    zNmax := nmax
    zNext := heap.zoneArray zi
    zBaseptr := z * rtMmPageSize + off
    zUindex := 0
    zChunksize := size
    zZoneindex := zi
    zFreechunk := none }).setZoneArray zi (some z)

/-- `rt_malloc` from a zone of an index. -/
def mallocZone (heap : SlabHeap) (zi size : ℕ) : Option (SlabHeap × ℕ) :=
  match heap.zoneArray zi with
  | some z => mallocChunk cfg heap zi z size
  | none => do
      let (heap, z) ← acquireZone heap
      if z = 0 then return (heap, 0)
      let heap := initZone cfg heap zi z size
      return (addUsedMem cfg heap size, (heap.zone z).zBaseptr)

def rtMalloc (heap : SlabHeap) (size : ℕ) : Option (SlabHeap × ℕ) :=
  if size = 0 then some (heap, 0)
  else if heap.zoneLimit ≤ size then mallocPages cfg heap size
  else
    let (zi, size) := zoneindex size
    if zi < nzones then mallocZone cfg heap zi size else none

/-! ## `rt_free` -/

/-- The release of a large allocation. -/
def freePages (heap : SlabHeap) (ptr : ℕ) : Option SlabHeap := do
  let kup := heap.btokup (ptr / rtMmPageSize)
  let size := (heap.memusage kup).size
  let heap := subUsedMem cfg
    { heap with memusage := update heap.memusage kup ⟨.large, 0⟩ } (size * rtMmPageSize)
  if ptr % rtMmPageSize = 0 then
    let pages ← (rtPageFree heap.pages (ptr / rtMmPageSize) size).toOption
    return { heap with pages := pages }
  else none

/-- The zone a pointer is found in. -/
def zoneOf (heap : SlabHeap) (ptr : ℕ) : ℕ :=
  ptr / rtMmPageSize - (heap.memusage (heap.btokup (ptr / rtMmPageSize))).size

/-- A chunk is put on the free list of its zone, and the zone into its list if it was in none. -/
def giveChunk (heap : SlabHeap) (z chunk : ℕ) : SlabHeap :=
  let zone := heap.zone z
  let heap := { heap with cNext := update heap.cNext chunk zone.zFreechunk }
  let zone' := { zone with zFreechunk := some chunk, zNfree := zone.zNfree + 1 }
  if zone.zNfree = 0 then
    (heap.setZone z { zone' with zNext := heap.zoneArray zone.zZoneindex }).setZoneArray
      zone.zZoneindex (some z)
  else heap.setZone z zone'

/-- The variable `pz` points to. -/
inductive ZoneLink
  | array (zi : ℕ)
  | next (z : ℕ)

def SlabHeap.deref (heap : SlabHeap) : ZoneLink → Option ℕ
  | .array zi => heap.zoneArray zi
  | .next z => (heap.zone z).zNext

def SlabHeap.assign (heap : SlabHeap) : ZoneLink → Option ℕ → SlabHeap
  | .array zi, value => heap.setZoneArray zi value
  | .next z, value => heap.setZone z { heap.zone z with zNext := value }

/-- The loop that finds the link to a zone. -/
def findLink (heap : SlabHeap) (z : ℕ) : ℕ → ZoneLink → Option ZoneLink
  | 0, _ => none
  | fuel + 1, pz =>
    match heap.deref pz with
    | none => none
    | some other => if other = z then some pz else findLink heap z fuel (.next other)

/-- A zone with no chunk in use goes to `zone_free`. -/
def retireZone (heap : SlabHeap) (z : ℕ) : Option SlabHeap := do
  let pz ← findLink heap z (heap.pages.stop + 1) (.array (heap.zone z).zZoneindex)
  let heap := heap.assign pz (heap.zone z).zNext
  let zone := { heap.zone z with zMagic := -1, zNext := heap.zoneFree }
  return { heap.setZone z zone with zoneFree := some z, zoneFreeCnt := heap.zoneFreeCnt + 1 }

/-- The first zone of `zone_free` goes back to the page allocator. -/
def releaseZone (heap : SlabHeap) : Option SlabHeap := do
  let z ← heap.zoneFree
  let heap := popZone heap z
  let memusage := setUsage heap.memusage (heap.btokup z) (fun _ => ⟨.free, 0⟩) heap.zonePageCnt
  let pages ← (rtPageFree heap.pages z (heap.zoneSize / rtMmPageSize)).toOption
  return { heap with memusage := memusage, pages := pages }

/-- The test for a zone that is free and not the only one of its list. -/
def Retires (heap : SlabHeap) (z : ℕ) : Prop :=
  (heap.zone z).zNfree = (heap.zone z).zNmax ∧
    ((heap.zone z).zNext ≠ none ∨ heap.zoneArray (heap.zone z).zZoneindex ≠ some z)

instance (heap : SlabHeap) (z : ℕ) : Decidable (Retires heap z) :=
  inferInstanceAs (Decidable (_ ∧ _))

/-- The release of a chunk of a zone. -/
def freeChunk (heap : SlabHeap) (ptr : ℕ) : Option SlabHeap :=
  let z := zoneOf heap ptr
  if (heap.zone z).zMagic = zallocSlabMagic then
    let heap := giveChunk (subUsedMem cfg heap (heap.zone z).zChunksize) z ptr
    if Retires heap z then do
      let heap ← retireZone heap z
      if zoneReleaseThresh < heap.zoneFreeCnt then releaseZone heap else return heap
    else some heap
  else none

def rtFree (heap : SlabHeap) (ptr : ℕ) : Option SlabHeap :=
  if ptr = 0 then some heap
  else if (heap.memusage (heap.btokup (ptr / rtMmPageSize))).type = .large then
    freePages cfg heap ptr
  else freeChunk cfg heap ptr

/-! ## `rt_realloc` -/

/-- The path of `rt_realloc` that moves the payload. -/
def moveBlock (heap : SlabHeap) (ptr size : ℕ) : Option (SlabHeap × ℕ) := do
  let (heap, nptr) ← rtMalloc cfg heap size
  if nptr = 0 then return (heap, 0)
  let heap ← rtFree cfg heap ptr
  return (heap, nptr)

def rtRealloc (heap : SlabHeap) (ptr size : ℕ) : Option (SlabHeap × ℕ) :=
  if ptr = 0 then rtMalloc cfg heap size
  else if size = 0 then do
    let heap ← rtFree cfg heap ptr
    return (heap, 0)
  else
    match (heap.memusage (heap.btokup (ptr / rtMmPageSize))).type with
    | .large => moveBlock cfg heap ptr size
    | .small =>
      let zone := heap.zone (zoneOf heap ptr)
      if zone.zMagic = zallocSlabMagic then
        let size := (zoneindex size).2
        if zone.zChunksize = size then some (heap, ptr) else moveBlock cfg heap ptr size
      else none
    | .free => some (heap, 0)

/-! ## The callers -/

/-- A pointer that was returned and the size that was asked for. -/
structure Holding where
  ptr : ℕ
  request : ℕ
  deriving DecidableEq

/-- The heap and the pointers its callers hold. -/
structure State where
  heap : SlabHeap
  live : List Holding

inductive Action
  | malloc (size : ℕ)
  | realloc (ptr size : ℕ)
  | free (ptr : ℕ)
  deriving DecidableEq

inductive Event
  | returned (ptr : ℕ)
  | faulted

/-- The pointer argument is `RT_NULL` or live. -/
def State.holds (st : State) (ptr : ℕ) : Prop :=
  ptr = 0 ∨ ∃ holding ∈ st.live, holding.ptr = ptr

instance (st : State) (ptr : ℕ) : Decidable (st.holds ptr) :=
  inferInstanceAs (Decidable (_ ∨ _))

/-- The live pointers without one of them. -/
def without (live : List Holding) (ptr : ℕ) : List Holding :=
  live.filter (·.ptr ≠ ptr)

/-- The live pointers after `rt_malloc`. -/
def afterMalloc (live : List Holding) (ptr size : ℕ) : List Holding :=
  if ptr = 0 then live else ⟨ptr, size⟩ :: live

/-- The live pointers after `rt_realloc`, which frees a block that is asked to have no bytes
and keeps it when there is no memory. -/
def afterRealloc (live : List Holding) (ptr size nptr : ℕ) : List Holding :=
  if size = 0 then without live ptr
  else if nptr = 0 then live
  else ⟨nptr, size⟩ :: without live ptr

def step (st : State) : Action → Option (State × Event)
  | .malloc size =>
    if size < cfg.wordSize then
      match rtMalloc cfg st.heap size with
      | some (heap, ptr) => some (⟨heap, afterMalloc st.live ptr size⟩, .returned ptr)
      | none => some (st, .faulted)
    else none
  | .realloc ptr size =>
    if size < cfg.wordSize ∧ st.holds ptr then
      match rtRealloc cfg st.heap ptr size with
      | some (heap, nptr) =>
        some (⟨heap, afterRealloc st.live ptr size nptr⟩, .returned nptr)
      | none => some (st, .faulted)
    else none
  | .free ptr =>
    if st.holds ptr then
      match rtFree cfg st.heap ptr with
      | some heap => some (⟨heap, without st.live ptr⟩, .returned 0)
      | none => some (st, .faulted)
    else none

def machine : Machine State Action Event where
  step := step cfg

end RtThread.Slab
