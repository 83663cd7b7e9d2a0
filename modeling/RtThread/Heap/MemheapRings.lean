import RtThread.Core.Ring
import RtThread.Core.Tiles
import RtThread.Heap.Memheap

set_option linter.all false

/-!
# The two rings of a memory heap

The items of a heap are the tiles of its pool, linked into a ring in address order, and the
header of the free list and the free items are linked into a second ring.  Each edit of the
links is an edit of one of the two lists.
-/

namespace RtThread.Memheap

open Function
open RtThread.Core RtThread.Core.Tile
open RtThread.SmallMem (HeapConfig)

variable {cfg : HeapConfig} {heap : RtMemheap} {tiles before rest : List Tile}
variable {free : List ℕ} {left right tile : Tile} {item gone fresh : ℕ}

theorem rtMemheapSize_ge (cfg : HeapConfig) : 24 ≤ rtMemheapSize cfg := by
  have hitem : 24 ≤ sizeofItem cfg ∧ sizeofItem cfg ≤ 48 := by
    rw [sizeofItem]
    split <;> omega
  have hword := cfg.wordSize_ge
  have halign := cfg.rtAlignSize_le
  have hle : sizeofItem cfg ≤ rtMemheapSize cfg := cfg.le_rtAlign (by omega)
  exact hitem.1.trans hle

theorem add_add_eq {first second third : ℕ} (hlt : first + second + third < cfg.wordSize) :
    cfg.add (cfg.add first second) third = first + second + third := by
  have hadd : cfg.add first second = first + second := cfg.add_eq (by omega)
  rw [hadd, cfg.add_eq hlt]

theorem sub_sub_eq {first second third : ℕ} (hle : second + third ≤ first)
    (hlt : first < cfg.wordSize) :
    cfg.sub (cfg.sub first second) third = first - second - third := by
  have hsub : cfg.sub first second = first - second := cfg.sub_eq (by omega) hlt
  rw [hsub, cfg.sub_eq (by omega) (by omega)]

/-- The pool lies in the address space, with room for two items, and without the header of
the free list. -/
structure Pool (cfg : HeapConfig) (heap : RtMemheap) : Prop where
  room : 2 * rtMemheapSize cfg ≤ heap.poolSize
  small : heap.poolSize < 2 ^ 32
  fits : heap.startAddr + heap.poolSize ≤ cfg.wordSize
  apart : heap.freeList < heap.startAddr ∨ heap.startAddr + heap.poolSize ≤ heap.freeList

def mark (used : Bool) : ℕ :=
  if used then rtMemheapMagic ||| rtMemheapUsed else rtMemheapMagic

/-- The magic number and the pool of an item. -/
def Marked (heap : RtMemheap) (tile : Tile) : Prop :=
  heap.magic tile.address = mark tile.used ∧ heap.poolPtr tile.address = heap.self

/-- The items of the heap are the tiles of its pool, in a ring. -/
structure Tiling (cfg : HeapConfig) (heap : RtMemheap) (tiles : List Tile) : Prop where
  pool : Pool cfg heap
  ring : Ring heap.next heap.prev (addresses tiles)
  spaced : Spaced (rtMemheapSize cfg) tiles
  head : (addresses tiles).head? = some heap.startAddr
  last : ∃ tail, tiles.getLast? = some ⟨tail, true⟩ ∧
    tail + rtMemheapSize cfg = heap.startAddr + heap.poolSize
  marks : ∀ tile ∈ tiles, Marked heap tile

/-- The free list, without its header. -/
structure FreeRing (heap : RtMemheap) (free : List ℕ) : Prop where
  ring : Ring heap.nextFree heap.prevFree (heap.freeList :: free)
  nodup : (heap.freeList :: free).Nodup

/-- Only the links and the marks of the items have a part in the tiling. -/
theorem Tiling.frame (htiling : Tiling cfg heap tiles) (nextFree prevFree : ℕ → ℕ)
    (availableSize maxUsedSize : ℕ) (data : ℕ → UInt8) :
    Tiling cfg { heap with
      nextFree := nextFree, prevFree := prevFree, availableSize := availableSize,
      maxUsedSize := maxUsedSize, data := data } tiles where
  pool := ⟨htiling.pool.room, htiling.pool.small, htiling.pool.fits, htiling.pool.apart⟩
  ring := htiling.ring
  spaced := htiling.spaced
  head := htiling.head
  last := htiling.last
  marks := htiling.marks

/-- The free list does not see the links and the marks of the items. -/
theorem FreeRing.frame (hfree : FreeRing heap free) (next prev magic poolPtr : ℕ → ℕ)
    (availableSize maxUsedSize : ℕ) (data : ℕ → UInt8) :
    FreeRing { heap with
      next := next, prev := prev, magic := magic, poolPtr := poolPtr,
      availableSize := availableSize, maxUsedSize := maxUsedSize, data := data } free :=
  ⟨hfree.ring, hfree.nodup⟩

theorem noteUsed_eq (heap : RtMemheap) :
    noteUsed heap = { heap with maxUsedSize := max heap.maxUsedSize (usedSize heap) } := by
  rw [noteUsed]
  split
  · next hlt => rw [max_eq_right hlt.le]
  · next hle => rw [max_eq_left (not_lt.1 hle)]

@[simp]
theorem linkFree_next (heap : RtMemheap) : (linkFree heap item).next = heap.next := rfl

@[simp]
theorem unlinkFree_next (heap : RtMemheap) : (unlinkFree heap item).next = heap.next := rfl

@[simp]
theorem clearFree_next (heap : RtMemheap) : (clearFree heap item).next = heap.next := rfl

@[simp]
theorem setUsed_next (heap : RtMemheap) : (setUsed heap item).next = heap.next := rfl

@[simp]
theorem setAvailable_next (heap : RtMemheap) (available : ℕ) :
    (setAvailable heap available).next = heap.next := rfl

@[simp]
theorem linkFree_data (heap : RtMemheap) : (linkFree heap item).data = heap.data := rfl

@[simp]
theorem unlinkFree_data (heap : RtMemheap) : (unlinkFree heap item).data = heap.data := rfl

@[simp]
theorem clearFree_data (heap : RtMemheap) : (clearFree heap item).data = heap.data := rfl

@[simp]
theorem setUsed_data (heap : RtMemheap) : (setUsed heap item).data = heap.data := rfl

@[simp]
theorem setAvailable_data (heap : RtMemheap) (available : ℕ) :
    (setAvailable heap available).data = heap.data := rfl

@[simp]
theorem noteUsed_next (heap : RtMemheap) : (noteUsed heap).next = heap.next := by
  rw [noteUsed]
  split <;> rfl

@[simp]
theorem noteUsed_data (heap : RtMemheap) : (noteUsed heap).data = heap.data := by
  rw [noteUsed]
  split <;> rfl

/-! ## The free list -/

theorem FreeRing.linkFree (hfree : FreeRing heap free) (hitem : item ∉ heap.freeList :: free) :
    FreeRing (linkFree heap item) (item :: free) := by
  refine ⟨hfree.ring.insert hfree.nodup hitem, ?_⟩
  have hperm : (heap.freeList :: item :: free).Perm (item :: heap.freeList :: free) :=
    List.Perm.swap ..
  exact hperm.nodup_iff.2 (List.nodup_cons.2 ⟨hitem, hfree.nodup⟩)

theorem FreeRing.unlinkFree (hfree : FreeRing heap free) (hgone : gone ∈ free) :
    FreeRing (unlinkFree heap gone) (free.erase gone) := by
  obtain ⟨hheader, hnodup⟩ := List.nodup_cons.1 hfree.nodup
  obtain ⟨before, rest, rfl⟩ := List.append_of_mem hgone
  have hbefore : gone ∉ before := fun hmem =>
    List.disjoint_of_nodup_append hnodup hmem List.mem_cons_self
  have herase : (before ++ gone :: rest).erase gone = before ++ rest := by
    rw [List.erase_append_right _ hbefore, List.erase_cons_head]
  refine ⟨?_, ?_⟩
  · rw [herase]
    exact hfree.ring.remove_append hfree.nodup
  · exact hfree.nodup.sublist ((List.erase_sublist).cons_cons heap.freeList)

theorem FreeRing.clearFree (hfree : FreeRing heap free) (hitem : item ∉ heap.freeList :: free) :
    FreeRing (clearFree heap item) free := by
  refine ⟨hfree.ring.congr ?_ ?_, hfree.nodup⟩
  all_goals
    intro node hnode
    have hne : node ≠ item := by
      rintro rfl
      exact hitem hnode
    exact update_of_ne hne ..

/-! ## The ring of items -/

namespace Tiling

theorem exists_ends (htiling : Tiling cfg heap tiles) : ∃ first inner tail,
    tiles = first :: inner ++ [⟨tail, true⟩] ∧ first.address = heap.startAddr ∧
      tail + rtMemheapSize cfg = heap.startAddr + heap.poolSize := by
  obtain ⟨tail, hlast, htail⟩ := htiling.last
  obtain ⟨front, rfl⟩ := List.getLast?_eq_some_iff.1 hlast
  have hhead := htiling.head
  have hroom := htiling.pool.room
  have hsize := rtMemheapSize_ge cfg
  cases front with
  | nil =>
    have heq : tail = heap.startAddr := by simpa using hhead
    omega
  | cons first inner => exact ⟨first, inner, tail, rfl, by simpa using hhead, htail⟩

theorem bounds (htiling : Tiling cfg heap tiles) (htile : tile ∈ tiles) :
    heap.startAddr ≤ tile.address ∧
      tile.address + rtMemheapSize cfg ≤ heap.startAddr + heap.poolSize := by
  obtain ⟨first, inner, tail, rfl, hfirst, htail⟩ := htiling.exists_ends
  have hspaced := htiling.spaced
  constructor
  · rcases List.mem_cons.1 htile with rfl | hmem
    · exact hfirst.ge
    · have hle := (List.pairwise_cons.1 hspaced).1 tile hmem
      omega
  · rcases List.mem_append.1 htile with hmem | hmem
    · have hle := (spaced_append.1 hspaced).2.2 tile hmem ⟨tail, true⟩ (by simp)
      dsimp only at hle
      omega
    · rw [List.mem_singleton.1 hmem]
      exact htail.le

theorem freeList_not_mem (htiling : Tiling cfg heap tiles) :
    heap.freeList ∉ addresses tiles := by
  intro hmem
  obtain ⟨tile, htile, heq⟩ := List.mem_map.1 hmem
  have hbounds := htiling.bounds htile
  have hapart := htiling.pool.apart
  have hsize := rtMemheapSize_ge cfg
  omega

theorem nodup (htiling : Tiling cfg heap tiles) : (addresses tiles).Nodup :=
  htiling.spaced.nodup (by have := rtMemheapSize_ge cfg; omega)

theorem next_eq (htiling : Tiling cfg heap (before ++ left :: right :: rest)) :
    heap.next left.address = right.address ∧ heap.prev right.address = left.address := by
  have hring := htiling.ring
  rw [addresses_append, addresses_cons, addresses_cons] at hring
  exact hring.next_eq_of_append

/-- The first item is linked to the last one, which is in use. -/
theorem prev_first (htiling : Tiling cfg heap (tile :: rest)) :
    ∃ tail, ⟨tail, true⟩ ∈ tile :: rest ∧ heap.prev tile.address = tail := by
  obtain ⟨first, inner, tail, htiles, hfirst, htail⟩ := htiling.exists_ends
  rw [List.cons_append] at htiles
  obtain ⟨rfl, rfl⟩ := List.cons.inj htiles
  have hring := htiling.ring
  rw [addresses_cons, addresses_append] at hring
  exact ⟨tail, by simp, hring.next_last.2⟩

/-- An item that does not end the pool has a successor. -/
theorem exists_next (htiling : Tiling cfg heap tiles) (htile : tile ∈ tiles)
    (hne : tile.address + rtMemheapSize cfg ≠ heap.startAddr + heap.poolSize) :
    ∃ before next rest, tiles = before ++ tile :: next :: rest := by
  obtain ⟨before, after, rfl⟩ := List.append_of_mem htile
  cases after with
  | nil =>
    obtain ⟨tail, hlast, htail⟩ := htiling.last
    rw [List.getLast?_append_cons, List.getLast?_singleton, Option.some.injEq] at hlast
    rw [hlast] at hne
    exact absurd htail hne
  | cons next rest => exact ⟨before, next, rest, rfl⟩

theorem eq_of_address (htiling : Tiling cfg heap tiles) (hleft : left ∈ tiles)
    (hright : right ∈ tiles) (heq : left.address = right.address) : left = right :=
  htiling.spaced.eq_of_address (by have := rtMemheapSize_ge cfg; omega) hleft hright heq

theorem exists_next_of_unused (htiling : Tiling cfg heap tiles) (hitem : item ∈ unused tiles) :
    ∃ before next rest, tiles = before ++ ⟨item, false⟩ :: next :: rest := by
  have hmem := mem_unused.1 hitem
  refine htiling.exists_next hmem fun heq => ?_
  obtain ⟨tail, hlast, htail⟩ := htiling.last
  have hsame : Tile.mk item false = ⟨tail, true⟩ := by
    refine htiling.eq_of_address hmem (List.mem_of_getLast? hlast) ?_
    dsimp only at heq ⊢
    omega
  exact Bool.false_ne_true (congrArg Tile.used hsame)

theorem isUsed_iff (htiling : Tiling cfg heap tiles) (htile : tile ∈ tiles) :
    IsUsed heap tile.address ↔ tile.used = true := by
  rw [IsUsed, (htiling.marks tile htile).1]
  cases tile.used <;> decide

theorem freeBytes_le (htiling : Tiling cfg heap tiles) :
    freeBytes (rtMemheapSize cfg) tiles + 2 * rtMemheapSize cfg ≤ heap.poolSize := by
  obtain ⟨first, inner, tail, rfl, hfirst, htail⟩ := htiling.exists_ends
  have hle := htiling.spaced.freeBytes_le
  dsimp only at hle
  omega

/-- `MEMITEM_SIZE` of an item that does not end the pool. -/
theorem memitemSize_eq (htiling : Tiling cfg heap (before ++ left :: right :: rest)) :
    memitemSize cfg heap left.address =
      right.address - left.address - rtMemheapSize cfg := by
  have hle := htiling.spaced.next_le
  have hright : right ∈ before ++ left :: right :: rest := by simp
  have hbound := (htiling.bounds hright).2
  have hsize := rtMemheapSize_ge cfg
  have hfits := htiling.pool.fits
  rw [memitemSize, htiling.next_eq.1, sub_sub_eq (by omega) (by omega)]

/-- The sizes of an item and of what precedes it fit into the pool. -/
theorem size_le (htiling : Tiling cfg heap (before ++ left :: right :: rest)) :
    right.address - left.address + rtMemheapSize cfg ≤ heap.poolSize := by
  have hle := htiling.spaced.next_le
  have hleft : left ∈ before ++ left :: right :: rest := by simp
  have hright : right ∈ before ++ left :: right :: rest := by simp
  have hlow := (htiling.bounds hleft).1
  have hhigh := (htiling.bounds hright).2
  omega

theorem split (htiling : Tiling cfg heap (before ++ left :: right :: rest))
    (hlow : left.address + rtMemheapSize cfg ≤ fresh)
    (hhigh : fresh + rtMemheapSize cfg ≤ right.address) :
    Tiling cfg (splitItem heap left.address fresh)
      (before ++ left :: ⟨fresh, false⟩ :: right :: rest) := by
  have hsize := rtMemheapSize_ge cfg
  have hfresh : fresh ∉ addresses (before ++ left :: right :: rest) :=
    htiling.spaced.not_mem_of_between (by omega) (by omega) (by omega)
  refine ⟨⟨htiling.pool.room, htiling.pool.small, htiling.pool.fits, htiling.pool.apart⟩, ?_,
    htiling.spaced.split hlow hhigh, ?_, ?_, ?_⟩
  · have hring := htiling.ring
    have hnodup := htiling.nodup
    rw [addresses_append, addresses_cons] at hring hnodup hfresh ⊢
    exact hring.insert_append hnodup hfresh
  · have hhead := htiling.head
    change _ = some heap.startAddr
    cases before <;> simpa using hhead
  · have hlast := htiling.last
    change ∃ tail, _ ∧ _ = heap.startAddr + heap.poolSize
    simpa [List.getLast?_append] using hlast
  · intro tile htile
    rcases Links.mem_insert_iff.1 htile with rfl | htile
    · exact ⟨update_self .., update_self ..⟩
    · have hne : tile.address ≠ fresh := fun heq => hfresh (heq ▸ mem_addresses htile)
      obtain ⟨hmagic, hpool⟩ := htiling.marks tile htile
      exact ⟨(update_of_ne hne ..).trans hmagic,
        (update_of_ne hne ..).trans hpool⟩

theorem join {gone : Tile} (htiling : Tiling cfg heap (before ++
    left :: gone :: right :: rest)) :
    Tiling cfg (mergeNext heap left.address) (before ++ left :: right :: rest) := by
  refine ⟨⟨htiling.pool.room, htiling.pool.small, htiling.pool.fits, htiling.pool.apart⟩, ?_,
    htiling.spaced.join, ?_, ?_, ?_⟩
  · have hring := htiling.ring
    have hnodup := htiling.nodup
    rw [addresses_append, addresses_cons, addresses_cons] at hring hnodup
    have hedit := ring_append_comm.1 hring
    have hperm : (addresses before ++ left.address :: gone.address :: addresses
      (right :: rest)).Perm
        (left.address :: gone.address :: addresses (right :: rest) ++ addresses before) :=
      List.perm_append_comm
    have hremove := hedit.remove (hperm.nodup_iff.1 hnodup)
    rw [addresses_append, addresses_cons, mergeNext, htiling.next_eq.1]
    exact ring_append_comm.2 hremove
  · have hhead := htiling.head
    change _ = some heap.startAddr
    cases before <;> simpa using hhead
  · have hlast := htiling.last
    change ∃ tail, _ ∧ _ = heap.startAddr + heap.poolSize
    simpa [List.getLast?_append] using hlast
  · intro tile htile
    refine htiling.marks tile ?_
    simp only [List.mem_append, List.mem_cons] at htile ⊢
    tauto

theorem removeItem_eq {gone : Tile}
    (htiling : Tiling cfg heap (before ++ left :: gone :: rest)) :
    removeItem heap gone.address = mergeNext heap left.address := by
  rw [removeItem, mergeNext, htiling.next_eq.1, htiling.next_eq.2]

theorem write (htiling : Tiling cfg heap (before ++ tile :: right :: rest)) (used : Bool) :
    Tiling cfg { heap with magic := update heap.magic tile.address (mark used) }
      (before ++ ⟨tile.address, used⟩ :: right :: rest) := by
  have hnodup := htiling.nodup
  refine ⟨⟨htiling.pool.room, htiling.pool.small, htiling.pool.fits, htiling.pool.apart⟩, ?_,
    htiling.spaced.setUsed, ?_, ?_, ?_⟩
  · have hring := htiling.ring
    rw [addresses_append, addresses_cons] at hring ⊢
    exact hring
  · have hhead := htiling.head
    cases before <;> simpa using hhead
  · have hlast := htiling.last
    simpa [List.getLast?_append] using hlast
  · intro other hother
    have hmem : other = ⟨tile.address, used⟩ ∨
        other ∈ before ++ tile :: right :: rest ∧ other.address ≠ tile.address := by
      rw [addresses_append, addresses_cons, List.nodup_middle, List.nodup_cons] at hnodup
      simp only [List.mem_append, List.mem_cons] at hother ⊢
      rw [or_left_comm] at hother
      refine hother.imp_right fun hother => ⟨?_, ?_⟩
      · tauto
      · intro heq
        refine hnodup.1 (heq ▸ ?_)
        rw [← addresses_append]
        exact mem_addresses (by simpa using hother)
    rcases hmem with rfl | ⟨hmem, hne⟩
    · refine ⟨update_self .., (htiling.marks tile (by simp)).2⟩
    · obtain ⟨hmagic, hpool⟩ := htiling.marks other hmem
      exact ⟨(update_of_ne hne ..).trans hmagic, hpool⟩

theorem setUsed (htiling : Tiling cfg heap (before ++ tile :: right :: rest)) :
    Tiling cfg (setUsed heap tile.address)
      (before ++ ⟨tile.address, true⟩ :: right :: rest) := by
  have hmark : heap.magic tile.address ||| rtMemheapUsed = mark true := by
    rw [(htiling.marks tile (by simp)).1]
    cases tile.used <;> decide
  rw [Memheap.setUsed, hmark]
  exact htiling.write true

theorem clearUsed (htiling : Tiling cfg heap (before ++ tile :: right :: rest)) :
    Tiling cfg (clearUsed heap tile.address)
      (before ++ ⟨tile.address, false⟩ :: right :: rest) := by
  have hmark : heap.magic tile.address &&& rtMemheapMask = mark false := by
    rw [(htiling.marks tile (by simp)).1]
    cases tile.used <;> decide
  rw [Memheap.clearUsed, hmark]
  exact htiling.write false

end Tiling

end RtThread.Memheap
