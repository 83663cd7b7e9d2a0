import RtThread.Heap.MemheapRings

set_option linter.all false

/-!
# The invariant of a memory heap

The two rings, with the free list a permutation of the unused items, the accounts of the
heap, and the pointers that the callers hold, one for each item in use but the last.  Each
operation is specified by the list of items it leads to.
-/

namespace RtThread.Memheap

open RtThread.Core RtThread.Core.Tile
open RtThread.SmallMem (HeapConfig Fault rtAssert_bind ok_bind)

variable {cfg : HeapConfig} {heap heap' : RtMemheap} {tiles before rest : List Tile}
variable {pending free live : List ℕ} {left right tile : Tile} {item gone fresh : ℕ}

/-- The two rings; the items of `pending` are not in use and not in the free list yet. -/
structure Layout (cfg : HeapConfig) (heap : RtMemheap) (tiles : List Tile)
    (pending free : List ℕ) : Prop where
  tiling : Tiling cfg heap tiles
  freeRing : FreeRing heap free
  free_perm : (pending ++ free).Perm (unused tiles)

structure Inv (cfg : HeapConfig) (heap : RtMemheap) (tiles : List Tile)
    (free live : List ℕ) : Prop where
  layout : Layout cfg heap tiles [] free
  coalesced : Coalesced tiles
  available : heap.availableSize = freeBytes (rtMemheapSize cfg) tiles
  used_le : usedSize heap ≤ heap.maxUsedSize
  /-- The end of the pool is the payload of the last item. -/
  live_perm : ((heap.startAddr + heap.poolSize) :: live).Perm
    (payloads (rtMemheapSize cfg) tiles)

/-- The pool is the same, and the maximum was kept. -/
structure Follows (heap heap' : RtMemheap) : Prop where
  startAddr : heap'.startAddr = heap.startAddr
  poolSize : heap'.poolSize = heap.poolSize
  maxUsed : heap'.maxUsedSize = max heap.maxUsedSize (usedSize heap')

/-! ## The edits of the layout -/

namespace Layout

theorem frame (hlayout : Layout cfg heap tiles pending free) (availableSize maxUsedSize : ℕ)
    (data : ℕ → UInt8) :
    Layout cfg { heap with
      availableSize := availableSize, maxUsedSize := maxUsedSize, data := data }
        tiles pending free where
  tiling := hlayout.tiling.frame ..
  freeRing := hlayout.freeRing.frame ..
  free_perm := hlayout.free_perm

theorem setAvailable (hlayout : Layout cfg heap tiles pending free) (available : ℕ) :
    Layout cfg (setAvailable heap available) tiles pending free :=
  hlayout.frame ..

theorem noteUsed (hlayout : Layout cfg heap tiles pending free) :
    Layout cfg (noteUsed heap) tiles pending free := by
  rw [noteUsed_eq]
  exact hlayout.frame ..

theorem mem_free (hlayout : Layout cfg heap tiles pending free) (hitem : item ∈ free) :
    item ∈ unused tiles :=
  hlayout.free_perm.mem_iff.1 (List.mem_append_right pending hitem)

theorem nodup (hlayout : Layout cfg heap tiles pending free) : (pending ++ free).Nodup := by
  have hsize := rtMemheapSize_ge cfg
  exact hlayout.free_perm.nodup_iff.2 (hlayout.tiling.spaced.unused_nodup (by omega))

theorem pending_not_mem (hlayout : Layout cfg heap tiles pending free)
    (hitem : item ∈ pending) : item ∉ heap.freeList :: free := by
  have hunused : item ∈ unused tiles :=
    hlayout.free_perm.mem_iff.1 (List.mem_append_left free hitem)
  rw [List.mem_cons, not_or]
  refine ⟨?_, fun hmem => List.disjoint_of_nodup_append hlayout.nodup hitem hmem⟩
  rintro rfl
  exact hlayout.tiling.freeList_not_mem (mem_addresses (mem_unused.1 hunused))

theorem split (hlayout : Layout cfg heap (before ++ left :: right :: rest) pending free)
    (hlow : left.address + rtMemheapSize cfg ≤ fresh)
    (hhigh : fresh + rtMemheapSize cfg ≤ right.address) :
    Layout cfg (splitItem heap left.address fresh)
      (before ++ left :: ⟨fresh, false⟩ :: right :: rest) (fresh :: pending) free := by
  refine ⟨hlayout.tiling.split hlow hhigh, hlayout.freeRing.frame .., ?_⟩
  have hperm := hlayout.free_perm
  rw [unused_append_cons] at hperm ⊢
  rw [unused_cons_false]
  exact (hperm.cons fresh).trans List.perm_middle.symm

theorem unlink (hlayout : Layout cfg heap tiles pending free) (hitem : item ∈ free) :
    Layout cfg (unlinkFree heap item) tiles (pending ++ [item]) (free.erase item) := by
  refine ⟨hlayout.tiling.frame .., hlayout.freeRing.unlinkFree hitem, ?_⟩
  rw [List.append_assoc, List.singleton_append]
  exact ((List.perm_cons_erase hitem).symm.append_left pending).trans hlayout.free_perm

theorem perm {pending' : List ℕ} (hlayout : Layout cfg heap tiles pending free)
    (hperm : pending.Perm pending') : Layout cfg heap tiles pending' free :=
  ⟨hlayout.tiling, hlayout.freeRing, (hperm.symm.append_right free).trans hlayout.free_perm⟩

theorem clear (hlayout : Layout cfg heap tiles pending free) (hitem : item ∈ pending) :
    Layout cfg (clearFree heap item) tiles pending free where
  tiling := hlayout.tiling.frame ..
  freeRing := hlayout.freeRing.clearFree (hlayout.pending_not_mem hitem)
  free_perm := hlayout.free_perm

theorem link (hlayout : Layout cfg heap tiles (item :: pending) free) :
    Layout cfg (linkFree heap item) tiles pending (item :: free) where
  tiling := hlayout.tiling.frame ..
  freeRing := hlayout.freeRing.linkFree (hlayout.pending_not_mem List.mem_cons_self)
  free_perm := List.perm_middle.trans hlayout.free_perm

theorem drop (hlayout : Layout cfg heap (before ++ left :: ⟨gone, false⟩ :: right :: rest)
      (gone :: pending) free) :
    Layout cfg (mergeNext heap left.address) (before ++ left :: right :: rest) pending free := by
  refine ⟨hlayout.tiling.join, hlayout.freeRing.frame .., ?_⟩
  have hperm := hlayout.free_perm
  rw [unused_append_cons] at hperm ⊢
  exact (hperm.trans List.perm_middle).cons_inv

/-- A free item that follows a free item has a successor itself. -/
theorem exists_after (hlayout : Layout cfg heap (before ++ left :: ⟨gone, false⟩ :: rest)
    pending free) : ∃ next rest', rest = next :: rest' := by
  cases rest with
  | nil =>
    obtain ⟨tail, hlast, -⟩ := hlayout.tiling.last
    simp at hlast
  | cons next rest => exact ⟨next, rest, rfl⟩

theorem join (hlayout : Layout cfg heap (before ++ left :: ⟨gone, false⟩ :: right :: rest)
      pending free) (hpending : gone ∉ pending) :
    Layout cfg (unlinkFree (mergeNext heap left.address) gone) (before ++ left :: right :: rest)
      pending (free.erase gone) := by
  have hmem : gone ∈ free := by
    have hall : gone ∈ pending ++ free := hlayout.free_perm.mem_iff.2 (by simp [mem_unused])
    exact (List.mem_append.1 hall).resolve_left hpending
  have hunlinked := (hlayout.unlink hmem).perm (List.perm_append_singleton gone pending)
  -- the two edits write different links, so they can change places
  exact hunlinked.drop

theorem take (hlayout : Layout cfg heap (before ++ ⟨item, false⟩ :: right :: rest)
      (item :: pending) free) :
    Layout cfg (setUsed heap item) (before ++ ⟨item, true⟩ :: right :: rest) pending free := by
  refine ⟨hlayout.tiling.setUsed, hlayout.freeRing.frame .., ?_⟩
  have hperm := hlayout.free_perm
  rw [unused_append, unused_cons_false] at hperm
  rw [unused_append, unused_cons_true]
  exact (hperm.trans List.perm_middle).cons_inv

theorem release (hlayout : Layout cfg heap (before ++ ⟨item, true⟩ :: right :: rest)
      pending free) :
    Layout cfg (clearUsed heap item) (before ++ ⟨item, false⟩ :: right :: rest)
      (item :: pending) free := by
  refine ⟨hlayout.tiling.clearUsed, hlayout.freeRing.frame .., ?_⟩
  have hperm := hlayout.free_perm
  rw [unused_append, unused_cons_true] at hperm
  rw [unused_append, unused_cons_false]
  exact (hperm.cons item).trans List.perm_middle.symm

end Layout

/-! ## The accounts -/

theorem usedSize_congr (hpool : heap'.poolSize = heap.poolSize)
    (havailable : heap'.availableSize = heap.availableSize) : usedSize heap' = usedSize heap := by
  rw [usedSize, usedSize, hpool, havailable]

theorem usedSize_eq (htiling : Tiling cfg heap tiles)
    (havailable : heap.availableSize = freeBytes (rtMemheapSize cfg) tiles) :
    usedSize heap = heap.poolSize - heap.availableSize := by
  have hle := htiling.freeBytes_le
  have hsmall := htiling.pool.small
  have hsum : heap.poolSize + (2 ^ 32 - heap.availableSize) =
      heap.poolSize - heap.availableSize + 2 ^ 32 := by omega
  rw [usedSize, u32, hsum, Nat.add_mod_right, Nat.mod_eq_of_lt (by omega)]

/-- A value of `available_size` that is right is not cut off. -/
theorem u32_eq (htiling : Tiling cfg heap tiles) {available : ℕ}
    (havailable : available = freeBytes (rtMemheapSize cfg) tiles) :
    u32 available = freeBytes (rtMemheapSize cfg) tiles := by
  have hle := htiling.freeBytes_le
  have hsmall := htiling.pool.small
  rw [havailable, u32, Nat.mod_eq_of_lt (by omega)]

/-- The maximum was kept when the accounts had their last values. -/
theorem follows_noteUsed (hstart : heap'.startAddr = heap.startAddr)
    (hpool : heap'.poolSize = heap.poolSize) (hmax : heap'.maxUsedSize = heap.maxUsedSize) :
    Follows heap (noteUsed heap') := by
  rw [noteUsed_eq]
  refine ⟨hstart, hpool, ?_⟩
  rw [← hmax]
  exact congrArg (max heap'.maxUsedSize) (usedSize_congr rfl rfl)

namespace Follows

theorem setUsed (hfollows : Follows heap heap') : Follows heap (setUsed heap' item) :=
  ⟨hfollows.startAddr, hfollows.poolSize, hfollows.maxUsed⟩

theorem clearFree (hfollows : Follows heap heap') : Follows heap (clearFree heap' item) :=
  ⟨hfollows.startAddr, hfollows.poolSize, hfollows.maxUsed⟩

theorem unlinkFree (hfollows : Follows heap heap') : Follows heap (unlinkFree heap' item) :=
  ⟨hfollows.startAddr, hfollows.poolSize, hfollows.maxUsed⟩

theorem linkFree (hfollows : Follows heap heap') : Follows heap (linkFree heap' item) :=
  ⟨hfollows.startAddr, hfollows.poolSize, hfollows.maxUsed⟩

theorem removeItem (hfollows : Follows heap heap') : Follows heap (removeItem heap' item) :=
  ⟨hfollows.startAddr, hfollows.poolSize, hfollows.maxUsed⟩

theorem splitItem (hfollows : Follows heap heap') : Follows heap (splitItem heap' item fresh) :=
  ⟨hfollows.startAddr, hfollows.poolSize, hfollows.maxUsed⟩

end Follows

/-- The header of an item that is taken in becomes free. -/
theorem freeBytes_join {next : ℕ}
    (htiling : Tiling cfg heap (before ++ ⟨item, false⟩ :: ⟨next, false⟩ :: right :: rest)) :
    freeBytes (rtMemheapSize cfg) (before ++ ⟨item, false⟩ :: ⟨next, false⟩ :: right :: rest) +
        rtMemheapSize cfg =
      freeBytes (rtMemheapSize cfg) (before ++ ⟨item, false⟩ :: right :: rest) := by
  have hleft := htiling.spaced.next_le
  have hmoved : Spaced (rtMemheapSize cfg)
      ((before ++ [⟨item, false⟩]) ++ ⟨next, false⟩ :: right :: rest) := by
    simpa using htiling.spaced
  have hright := hmoved.next_le
  rw [freeBytes_append_cons_cons true, freeBytes_append_cons_cons true, freeBytes_cons_cons]
  simp only [Bool.false_eq_true, if_false] at hleft hright ⊢
  omega

theorem Inv.of_follows (hlayout : Layout cfg heap' tiles [] free) (hcoalesced : Coalesced tiles)
    (havailable : heap'.availableSize = freeBytes (rtMemheapSize cfg) tiles)
    (hfollows : Follows heap heap')
    (hlive : ((heap.startAddr + heap.poolSize) :: live).Perm
      (payloads (rtMemheapSize cfg) tiles)) : Inv cfg heap' tiles free live where
  layout := hlayout
  coalesced := hcoalesced
  available := havailable
  used_le := hfollows.maxUsed ▸ le_max_right ..
  live_perm := by rwa [hfollows.startAddr, hfollows.poolSize]

theorem Inv.writeData (hinv : Inv cfg heap tiles free live) (data : ℕ → UInt8) :
    Inv cfg { heap with data := data } tiles free live :=
  ⟨hinv.layout.frame .., hinv.coalesced, hinv.available, hinv.used_le, hinv.live_perm⟩

/-- The pointer to an item that is taken into use becomes live. -/
theorem payloads_perm_cons {header : ℕ} {all : List ℕ}
    (hperm : all.Perm (payloads header (before ++ ⟨item, false⟩ :: rest))) :
    ((item + header) :: all).Perm (payloads header (before ++ ⟨item, true⟩ :: rest)) := by
  rw [payloads_append, payloads_cons_false] at hperm
  rw [payloads_append, payloads_cons_true]
  exact (hperm.cons _).trans List.perm_middle.symm

/-! ## `rt_memheap_alloc` -/

theorem allocSplit_spec {size : ℕ}
    (hinv : Inv cfg heap (before ++ ⟨item, false⟩ :: right :: rest) free live)
    (hfits : item + size + rtMemheapSize cfg + rtMemheapSize cfg ≤ right.address) :
    Inv cfg (allocSplit cfg heap item size)
        (before ++ ⟨item, true⟩ :: ⟨item + size + rtMemheapSize cfg, false⟩ :: right :: rest)
        ((item + size + rtMemheapSize cfg) :: free.erase item)
        ((item + rtMemheapSize cfg) :: live) ∧
      Follows heap (allocSplit cfg heap item size) := by
  have hlayout := hinv.layout
  have hright : right ∈ before ++ ⟨item, false⟩ :: right :: rest := by simp
  have hbound := (hlayout.tiling.bounds hright).2
  have hsize := rtMemheapSize_ge cfg
  have hwords := hlayout.tiling.pool.fits
  have hadd : cfg.add (cfg.add item size) (rtMemheapSize cfg) =
      item + size + rtMemheapSize cfg := add_add_eq (by omega)
  have hmem : item ∈ free := hlayout.free_perm.mem_iff.2 (by simp)
  have hsplit := hlayout.split (by dsimp only; omega) hfits
  have hcleared := (hsplit.unlink hmem).clear
    (List.mem_append_right _ (List.mem_singleton_self item))
  have hnext : Layout cfg (allocSplit cfg heap item size) (before ++ ⟨item, true⟩ ::
      ⟨item + size + rtMemheapSize cfg, false⟩ :: right :: rest) []
      ((item + size + rtMemheapSize cfg) :: free.erase item) := by
    rw [allocSplit, hadd]
    exact (hcleared.link.setAvailable _).noteUsed.take
  have hfollows : Follows heap (allocSplit cfg heap item size) := by
    rw [allocSplit]
    refine .setUsed (follows_noteUsed ?_ ?_ ?_)
    all_goals simp only [setAvailable, linkFree, clearFree, unlinkFree, splitItem]
  refine ⟨Inv.of_follows hnext ?_ ?_ hfollows ?_, hfollows⟩
  · obtain ⟨hfront, hneighbour, hback⟩ := coalesced_append_cons_cons.1 hinv.coalesced
    refine coalesced_append_cons_cons.2 ⟨hfront.snoc_used, .inl rfl, ?_⟩
    exact List.isChain_cons_cons.2 ⟨hneighbour, hback⟩
  · have hold := hinv.available
    have hle := hlayout.tiling.freeBytes_le
    rw [freeBytes_append_cons_cons true] at hold hle
    have havailable : (allocSplit cfg heap item size).availableSize =
        u32 (cfg.sub (cfg.sub heap.availableSize size) (rtMemheapSize cfg)) := by
      rw [allocSplit, noteUsed_eq]
      rfl
    rw [havailable]
    refine u32_eq hnext.tiling ?_
    rw [freeBytes_append_cons_cons true, freeBytes_cons_cons]
    simp only [Bool.false_eq_true, if_false, if_true] at hold hle ⊢
    rw [sub_sub_eq (by omega) (by omega)]
    omega
  · refine (List.Perm.swap ..).trans (payloads_perm_cons ?_)
    simpa using hinv.live_perm

theorem allocWhole_spec
    (hinv : Inv cfg heap (before ++ ⟨item, false⟩ :: right :: rest) free live) :
    Inv cfg (allocWhole cfg heap item (memitemSize cfg heap item))
        (before ++ ⟨item, true⟩ :: right :: rest) (free.erase item)
        ((item + rtMemheapSize cfg) :: live) ∧
      Follows heap (allocWhole cfg heap item (memitemSize cfg heap item)) := by
  have hlayout := hinv.layout
  have hmem : item ∈ free := hlayout.free_perm.mem_iff.2 (by simp)
  have hfollows : Follows heap (allocWhole cfg heap item (memitemSize cfg heap item)) := by
    rw [allocWhole]
    exact .setUsed (.clearFree (.unlinkFree (follows_noteUsed rfl rfl rfl)))
  have hnext : Layout cfg (allocWhole cfg heap item (memitemSize cfg heap item))
      (before ++ ⟨item, true⟩ :: right :: rest) [] (free.erase item) := by
    rw [allocWhole]
    have hitem := List.mem_singleton_self item
    exact (((hlayout.setAvailable _).noteUsed.unlink hmem).clear hitem).take
  refine ⟨Inv.of_follows hnext ?_ ?_ hfollows ?_, hfollows⟩
  · obtain ⟨hfront, -, hback⟩ := coalesced_append_cons_cons.1 hinv.coalesced
    exact coalesced_append_cons_cons.2 ⟨hfront.snoc_used, .inl rfl, hback⟩
  · have hold := hinv.available
    have hle := hlayout.tiling.freeBytes_le
    have hsmall := hlayout.tiling.pool.small
    have hword := cfg.wordSize_ge
    rw [freeBytes_append_cons_cons true] at hold hle
    have havailable : (allocWhole cfg heap item (memitemSize cfg heap item)).availableSize =
        u32 (cfg.sub heap.availableSize (memitemSize cfg heap item)) := by
      rw [allocWhole, noteUsed_eq]
      rfl
    rw [havailable]
    refine u32_eq hnext.tiling ?_
    have hitem : memitemSize cfg heap item = right.address - item - rtMemheapSize cfg :=
      hlayout.tiling.memitemSize_eq
    rw [freeBytes_append_cons_cons true, hitem]
    simp only [Bool.false_eq_true, if_false, if_true] at hold hle ⊢
    rw [cfg.sub_eq (by omega) (by omega)]
    omega
  · exact (List.Perm.swap ..).trans (payloads_perm_cons hinv.live_perm)

/-- The search goes along the free list, from any item of it on. -/
theorem findFree_walk {remaining : List ℕ} {size fuel header freeSize : ℕ}
    (hlinked : Linked heap.nextFree heap.prevFree (remaining ++ [heap.freeList]))
    (hitems : ∀ item ∈ remaining, item ≠ heap.freeList ∧ memitemSize cfg heap item < 2 ^ 32)
    (hheader : (remaining ++ [heap.freeList]).head? = some header)
    (hfuel : remaining.length + 2 ≤ fuel) (hsmall : freeSize < size) :
    ∃ found foundSize, findFree cfg heap size fuel header freeSize = .ok (found, foundSize) ∧
      (size ≤ foundSize → found ∈ remaining ∧ foundSize = memitemSize cfg heap found) ∧
      (foundSize < size → ∀ item ∈ remaining, memitemSize cfg heap item < size) := by
  induction remaining generalizing fuel header freeSize with
  | nil =>
    obtain ⟨fuel, rfl⟩ : ∃ less, fuel = less + 1 := ⟨fuel - 1, by omega⟩
    obtain rfl : heap.freeList = header := by simpa using hheader
    refine ⟨heap.freeList, freeSize, ?_, fun hle => absurd hsmall hle.not_gt, by simp⟩
    simp [findFree]
  | cons item remaining ih =>
    obtain ⟨fuel, rfl⟩ : ∃ less, fuel = less + 2 := ⟨fuel - 2, by omega⟩
    obtain rfl : item = header := by simpa using hheader
    obtain ⟨hitem, hitems⟩ := List.forall_mem_cons.1 hitems
    have hsize : u32 (memitemSize cfg heap item) = memitemSize cfg heap item :=
      Nat.mod_eq_of_lt hitem.2
    have hless : remaining.length + 2 ≤ fuel + 1 := by
      simp only [List.length_cons] at hfuel
      omega
    rw [findFree, if_pos ⟨hitem.1, hsmall⟩]
    rw [hsize]
    by_cases hcase : memitemSize cfg heap item < size
    · rw [if_pos hcase]
      have hhead : (remaining ++ [heap.freeList]).head? = some (heap.nextFree item) := by
        cases remaining with
        | nil => rw [(List.isChain_cons_cons.1 hlinked).1.1]; rfl
        | cons other rest => rw [(List.isChain_cons_cons.1 hlinked).1.1]; rfl
      obtain ⟨found, foundSize, hfound, hspec, hnone⟩ :=
        ih hlinked.tail hitems hhead hless hcase
      refine ⟨found, foundSize, hfound, fun hle => ?_, fun hlt => ?_⟩
      · exact (hspec hle).imp_left (List.mem_cons_of_mem item)
      · exact List.forall_mem_cons.2 ⟨hcase, hnone hlt⟩
    · rw [if_neg hcase, findFree, if_neg fun hand => hcase hand.2]
      exact ⟨item, _, rfl, fun _ => ⟨List.mem_cons_self, rfl⟩, fun hlt => absurd hlt hcase⟩

theorem Layout.length_free_le (hlayout : Layout cfg heap tiles [] free) :
    free.length ≤ heap.poolSize := by
  have hfree : free.length ≤ tiles.length := by
    rw [(List.Perm.length_eq hlayout.free_perm : free.length = _), unused, addresses,
      List.length_map]
    exact List.length_filter_le ..
  have hsize := rtMemheapSize_ge cfg
  have hspaced := hlayout.tiling.spaced
  obtain ⟨first, inner, tail, rfl, hfirst, htail⟩ := hlayout.tiling.exists_ends
  have hlength := hspaced.length_le
  dsimp only at hlength
  have hmul := Nat.le_mul_of_pos_right (first :: inner ++ [Tile.mk tail true]).length
    (Nat.zero_lt_of_lt hsize)
  omega

theorem requestSize_ge (cfg : HeapConfig) (size : ℕ) :
    rtMemheapMinialloc ≤ requestSize cfg size := by
  rw [requestSize]
  split <;> omega

theorem findFree_spec (hlayout : Layout cfg heap tiles [] free) (size : ℕ) (hpos : 0 < size) :
    ∃ found foundSize, findFree cfg heap size (heap.poolSize + 2)
      (heap.nextFree heap.freeList) 0 =
        .ok (found, foundSize) ∧
      (size ≤ foundSize → found ∈ free ∧ foundSize = memitemSize cfg heap found) ∧
      (foundSize < size → ∀ item ∈ free, memitemSize cfg heap item < size) := by
  have hring : Linked heap.nextFree heap.prevFree (heap.freeList :: free ++ [heap.freeList]) :=
    hlayout.freeRing.ring
  refine findFree_walk hring.tail ?_ ?_ (Nat.add_le_add_right hlayout.length_free_le 2) hpos
  · intro item hitem
    obtain ⟨hheader, -⟩ := List.nodup_cons.1 hlayout.freeRing.nodup
    refine ⟨fun heq => hheader (heq ▸ hitem), ?_⟩
    obtain ⟨before, next, rest, rfl⟩ :=
      hlayout.tiling.exists_next_of_unused (hlayout.mem_free hitem)
    have hle := hlayout.tiling.size_le
    have hsmall := hlayout.tiling.pool.small
    have heq : memitemSize cfg heap item = next.address - item - rtMemheapSize cfg :=
      hlayout.tiling.memitemSize_eq
    dsimp only at hle
    omega
  · cases free with
    | nil => rw [(List.isChain_cons_cons.1 hring).1.1]; rfl
    | cons item rest => rw [(List.isChain_cons_cons.1 hring).1.1]; rfl

/-- `rt_memheap_alloc` fails, or takes a free item into use, whole or split. -/
theorem rtMemheapAlloc_cases (hinv : Inv cfg heap tiles free live) (size : ℕ) :
    (rtMemheapAlloc cfg heap size = .ok (heap, 0) ∧
      (requestSize cfg size < heap.availableSize →
        ∀ item ∈ free, memitemSize cfg heap item < requestSize cfg size)) ∨
    ∃ before item next rest heap', tiles = before ++ ⟨item, false⟩ :: next :: rest ∧
      requestSize cfg size ≤ memitemSize cfg heap item ∧
      requestSize cfg size < heap.availableSize ∧
      rtMemheapAlloc cfg heap size = .ok (heap', item + rtMemheapSize cfg) ∧
      (heap' = allocSplit cfg heap item (requestSize cfg size) ∧
          item + requestSize cfg size + rtMemheapSize cfg + rtMemheapSize cfg ≤
            next.address ∨
        heap' = allocWhole cfg heap item (memitemSize cfg heap item)) := by
  have hlayout := hinv.layout
  have hge := requestSize_ge cfg size
  have hpos : 0 < requestSize cfg size := lt_of_lt_of_le (by decide) hge
  obtain ⟨item, freeSize, hfound, hspec, hnone⟩ :=
    findFree_spec hlayout (requestSize cfg size) hpos
  rw [rtMemheapAlloc]
  dsimp only
  split
  · next havailable =>
    rw [hfound, ok_bind]
    split
    · next hle =>
      right
      obtain ⟨hitem, rfl⟩ := hspec hle
      obtain ⟨before, next, rest, rfl⟩ :=
        hlayout.tiling.exists_next_of_unused (hlayout.mem_free hitem)
      have hsize := rtMemheapSize_ge cfg
      have hroom := hlayout.tiling.size_le
      have hfits := hlayout.tiling.pool.fits
      have hnext := hlayout.tiling.spaced.next_le
      have hitemSize : memitemSize cfg heap item = next.address - item - rtMemheapSize cfg :=
        hlayout.tiling.memitemSize_eq
      have hmem : next ∈ before ++ ⟨item, false⟩ :: next :: rest := by simp
      have hbounds := (hlayout.tiling.bounds hmem).2
      have hptr : cfg.add item (rtMemheapSize cfg) = item + rtMemheapSize cfg :=
        cfg.add_eq (by omega)
      have hneed : cfg.add (cfg.add (requestSize cfg size) (rtMemheapSize cfg))
          rtMemheapMinialloc =
            requestSize cfg size + rtMemheapSize cfg + rtMemheapMinialloc :=
        add_add_eq (by rw [rtMemheapMinialloc]; omega)
      rw [hptr, hneed]
      split
      · next hsplit =>
        exact ⟨before, item, next, rest, _, rfl, hle, havailable, rfl, .inl ⟨rfl, by omega⟩⟩
      · exact ⟨before, item, next, rest, _, rfl, hle, havailable, rfl, .inr rfl⟩
    · next hlt => exact .inl ⟨rfl, fun _ => hnone (not_le.1 hlt)⟩
  · next hfew => exact .inl ⟨rfl, fun havailable => absurd havailable hfew⟩

/-- `rt_memheap_alloc` fails, or takes an item into use. -/
theorem rtMemheapAlloc_spec (hinv : Inv cfg heap tiles free live) (size : ℕ) :
    rtMemheapAlloc cfg heap size = .ok (heap, 0) ∨
      ∃ heap' ptr tiles' free', rtMemheapAlloc cfg heap size = .ok (heap', ptr) ∧ ptr ≠ 0 ∧
        Inv cfg heap' tiles' free' (ptr :: live) ∧ Follows heap heap' := by
  have hsize := rtMemheapSize_ge cfg
  have hne : ∀ item, item + rtMemheapSize cfg ≠ 0 := fun item => by omega
  rcases rtMemheapAlloc_cases hinv size with
    ⟨hfail, -⟩ | ⟨before, item, next, rest, heap', rfl, -, -, halloc, ⟨rfl, hfits⟩ | rfl⟩
  · exact .inl hfail
  · obtain ⟨hinv', hfollows⟩ := allocSplit_spec hinv hfits
    exact .inr ⟨_, _, _, _, halloc, hne item, hinv', hfollows⟩
  · obtain ⟨hinv', hfollows⟩ := allocWhole_spec hinv
    exact .inr ⟨_, _, _, _, halloc, hne item, hinv', hfollows⟩

/-! ## `rt_memheap_free` -/

/-- A live pointer belongs to an item in use that has a successor. -/
theorem Inv.exists_item {ptr : ℕ} (hinv : Inv cfg heap tiles free live) (hptr : ptr ∈ live) :
    ∃ before item next rest, tiles = before ++ ⟨item, true⟩ :: next :: rest ∧
      ptr = item + rtMemheapSize cfg := by
  have hsize := rtMemheapSize_ge cfg
  have htiling := hinv.layout.tiling
  have hmem : ptr ∈ payloads (rtMemheapSize cfg) tiles :=
    hinv.live_perm.mem_iff.1 (List.mem_cons_of_mem _ hptr)
  obtain ⟨item, hitem, rfl⟩ := mem_payloads.1 hmem
  have hnodup := hinv.live_perm.nodup_iff.2 (htiling.spaced.payloads_nodup (by omega))
  have hne : item + rtMemheapSize cfg ≠ heap.startAddr + heap.poolSize := fun heq =>
    (List.nodup_cons.1 hnodup).1 (heq ▸ hptr)
  obtain ⟨before, next, rest, htiles⟩ := htiling.exists_next hitem hne
  exact ⟨before, item, next, rest, htiles, rfl⟩

theorem Inv.live_nodup (hinv : Inv cfg heap tiles free live) :
    ((heap.startAddr + heap.poolSize) :: live).Nodup := by
  have hsize := rtMemheapSize_ge cfg
  exact hinv.live_perm.nodup_iff.2 (hinv.layout.tiling.spaced.payloads_nodup (by omega))

/-- The pointer to an item that is no longer in use is not live. -/
theorem Inv.live_erase (hinv : Inv cfg heap (before ++ ⟨item, true⟩ :: right :: rest) free live)
    (hptr : item + rtMemheapSize cfg ∈ live) :
    ((heap.startAddr + heap.poolSize) :: live.erase (item + rtMemheapSize cfg)).Perm
      (payloads (rtMemheapSize cfg) (before ++ right :: rest)) := by
  have hperm := hinv.live_perm
  rw [payloads_append, payloads_cons_true] at hperm
  have herase := perm_erase_of_perm_append_cons hperm
  have hne : heap.startAddr + heap.poolSize ≠ item + rtMemheapSize cfg := fun heq =>
    (List.nodup_cons.1 hinv.live_nodup).1 (heq ▸ hptr)
  rw [List.erase_cons_tail (by simpa using hne)] at herase
  rwa [payloads_append]

/-- The item before the released one is in use, also when that is the first one. -/
theorem Tiling.isUsed_prev_iff (htiling : Tiling cfg heap (before ++ tile :: rest)) :
    IsUsed heap (heap.prev tile.address) ↔ ∀ last ∈ before.getLast?, last.used = true := by
  rcases List.eq_nil_or_concat before with rfl | ⟨front, last, rfl⟩
  · obtain ⟨tail, htail, hprev⟩ := htiling.prev_first
    rw [hprev]
    refine iff_of_true ((htiling.isUsed_iff htail).2 rfl) ?_
    simp
  · rw [List.concat_eq_append, List.append_assoc, List.singleton_append] at htiling
    have hlast : last ∈ front ++ last :: tile :: rest := by simp
    rw [htiling.next_eq.2, htiling.isUsed_iff hlast]
    simp

/-- The accounts after memory was given back. -/
structure Grown (cfg : HeapConfig) (heap heap' : RtMemheap) (tiles : List Tile) : Prop where
  startAddr : heap'.startAddr = heap.startAddr
  poolSize : heap'.poolSize = heap.poolSize
  maxUsedSize : heap'.maxUsedSize = heap.maxUsedSize
  available : heap'.availableSize = freeBytes (rtMemheapSize cfg) tiles
  available_le : heap.availableSize ≤ heap'.availableSize

theorem Grown.trans {heap'' : RtMemheap} {tiles' : List Tile}
    (hgrown : Grown cfg heap heap' tiles)
    (hgrown' : Grown cfg heap' heap'' tiles') : Grown cfg heap heap'' tiles' where
  startAddr := hgrown'.startAddr.trans hgrown.startAddr
  poolSize := hgrown'.poolSize.trans hgrown.poolSize
  maxUsedSize := hgrown'.maxUsedSize.trans hgrown.maxUsedSize
  available := hgrown'.available
  available_le := hgrown.available_le.trans hgrown'.available_le

theorem Grown.linkFree (hgrown : Grown cfg heap heap' tiles) :
    Grown cfg heap (linkFree heap' item) tiles :=
  ⟨hgrown.startAddr, hgrown.poolSize, hgrown.maxUsedSize, hgrown.available, hgrown.available_le⟩

/-- The maximum need not be kept when memory is given back. -/
theorem Grown.follows {tiles' : List Tile} (hgrown : Grown cfg heap heap' tiles')
    (hinv : Inv cfg heap tiles free live) (htiling : Tiling cfg heap' tiles') :
    Follows heap heap' := by
  refine ⟨hgrown.startAddr, hgrown.poolSize, ?_⟩
  have hused := usedSize_eq hinv.layout.tiling hinv.available
  have hused' := usedSize_eq htiling hgrown.available
  have hle := hinv.used_le
  have hpool := hgrown.poolSize
  have havailable := hgrown.available_le
  rw [hgrown.maxUsedSize, max_eq_left]
  omega

theorem mergeRight_spec
    (hlayout : Layout cfg heap (before ++ ⟨item, false⟩ :: right :: rest) pending free)
    (hpending : right.address ∉ pending) (hback : Coalesced (right :: rest))
    (havailable : heap.availableSize =
      freeBytes (rtMemheapSize cfg) (before ++ ⟨item, false⟩ :: right :: rest)) :
    ∃ next rest' free',
      Layout cfg (mergeRight cfg heap item) (before ++ ⟨item, false⟩ :: next :: rest')
        pending free' ∧
      next.used = true ∧ Coalesced (next :: rest') ∧
      payloads (rtMemheapSize cfg) (next :: rest') =
        payloads (rtMemheapSize cfg) (right :: rest) ∧
      (next :: rest').Sublist (right :: rest) ∧
      Grown cfg heap (mergeRight cfg heap item)
        (before ++ ⟨item, false⟩ :: next :: rest') := by
  have htiling := hlayout.tiling
  have hnext : heap.next item = right.address := htiling.next_eq.1
  have hright : right ∈ before ++ ⟨item, false⟩ :: right :: rest := by simp
  rw [mergeRight, hnext]
  split
  · next hused =>
    exact ⟨right, rest, free, hlayout, (htiling.isUsed_iff hright).1 hused, hback, rfl,
      List.Sublist.refl _, rfl, rfl, rfl, havailable, le_rfl⟩
  · next hunused =>
    obtain ⟨gone, used⟩ := right
    obtain rfl : used = false := by
      rwa [htiling.isUsed_iff hright, Bool.not_eq_true] at hunused
    obtain ⟨next, rest, rfl⟩ := hlayout.exists_after
    have hmerged := (hlayout.setAvailable (heap.availableSize + rtMemheapSize cfg)).join hpending
    obtain ⟨hneighbour, hback⟩ := List.isChain_cons_cons.1 hback
    have hused : next.used = true := hneighbour.resolve_left Bool.false_ne_true
    have hbytes := freeBytes_join htiling
    have hfull : u32 (heap.availableSize + rtMemheapSize cfg) = freeBytes (rtMemheapSize cfg)
        (before ++ ⟨item, false⟩ :: next :: rest) :=
      u32_eq hmerged.tiling (by rw [havailable, hbytes])
    refine ⟨next, rest, free.erase gone, hmerged, hused, hback, rfl, List.sublist_cons_self _ _,
      rfl, rfl, rfl, hfull, ?_⟩
    change heap.availableSize ≤ u32 (heap.availableSize + rtMemheapSize cfg)
    rw [hfull, ← hbytes, havailable]
    exact Nat.le_add_right ..

theorem mergeLeft_spec {first : ℕ}
    (hlayout : Layout cfg heap (before ++ ⟨first, false⟩ :: ⟨item, false⟩ :: right :: rest)
      [item] free)
    (havailable : heap.availableSize = freeBytes (rtMemheapSize cfg)
      (before ++ ⟨first, false⟩ :: ⟨item, false⟩ :: right :: rest)) :
    Layout cfg (mergeLeft cfg heap item) (before ++ ⟨first, false⟩ :: right :: rest) [] free ∧
      Grown cfg heap (mergeLeft cfg heap item)
        (before ++ ⟨first, false⟩ :: right :: rest) := by
  have hmarked := hlayout.setAvailable (heap.availableSize + rtMemheapSize cfg)
  have hremove : mergeLeft cfg heap item =
      mergeNext (setAvailable heap (heap.availableSize + rtMemheapSize cfg)) first :=
    hmarked.tiling.removeItem_eq
  have hdropped := hmarked.drop
  have hbytes := freeBytes_join hlayout.tiling
  have hfull : u32 (heap.availableSize + rtMemheapSize cfg) = freeBytes (rtMemheapSize cfg)
      (before ++ ⟨first, false⟩ :: right :: rest) :=
    u32_eq hdropped.tiling (by rw [havailable, hbytes])
  rw [hremove]
  refine ⟨hdropped, rfl, rfl, rfl, hfull, ?_⟩
  change heap.availableSize ≤ u32 (heap.availableSize + rtMemheapSize cfg)
  rw [hfull, ← hbytes, havailable]
  exact Nat.le_add_right ..

/-- What the first lines of `rt_memheap_free` lead to. -/
theorem release_spec (hinv : Inv cfg heap (before ++ ⟨item, true⟩ :: right :: rest) free live) :
    let released := setAvailable (clearUsed heap item)
      (heap.availableSize + memitemSize cfg heap item)
    Layout cfg released (before ++ ⟨item, false⟩ :: right :: rest) [item] free ∧
      Grown cfg heap released (before ++ ⟨item, false⟩ :: right :: rest) := by
  intro released
  have hlayout : Layout cfg released (before ++ ⟨item, false⟩ :: right :: rest) [item] free :=
    hinv.layout.release.setAvailable _
  have hsize : memitemSize cfg heap item = right.address - item - rtMemheapSize cfg :=
    hinv.layout.tiling.memitemSize_eq
  have hbytes : heap.availableSize + memitemSize cfg heap item =
      freeBytes (rtMemheapSize cfg) (before ++ ⟨item, false⟩ :: right :: rest) := by
    rw [hinv.available, freeBytes_append_cons_cons true, freeBytes_append_cons_cons true, hsize]
    simp only [Bool.false_eq_true, if_false, if_true]
    omega
  have hfull := u32_eq hlayout.tiling hbytes
  refine ⟨hlayout, rfl, rfl, rfl, hfull, ?_⟩
  change heap.availableSize ≤ u32 (heap.availableSize + memitemSize cfg heap item)
  rw [hfull, ← hbytes]
  exact Nat.le_add_right ..

/-- The checks of `rt_memheap_free` pass on an item in use. -/
theorem rtMemheapFree_eq (hinv : Inv cfg heap (before ++ ⟨item, true⟩ :: right :: rest)
    free live) :
    let released := setAvailable (clearUsed heap item)
      (heap.availableSize + memitemSize cfg heap item)
    rtMemheapFree cfg heap (item + rtMemheapSize cfg) =
      .ok (if IsUsed released (released.prev item) then
        linkFree (mergeRight cfg released item) item
      else mergeRight cfg (mergeLeft cfg released item) (released.prev item)) := by
  intro released
  have htiling := hinv.layout.tiling
  have hsize := rtMemheapSize_ge cfg
  have hitem : ⟨item, true⟩ ∈ before ++ ⟨item, true⟩ :: right :: rest := by simp
  have hright : right ∈ before ++ ⟨item, true⟩ :: right :: rest := by simp
  have hbound := (htiling.bounds hright).2
  have hle := htiling.spaced.next_le
  have hfits := htiling.pool.fits
  have hheader : cfg.sub (item + rtMemheapSize cfg) (rtMemheapSize cfg) = item := by
    rw [cfg.sub_eq (Nat.le_add_left ..) (by dsimp only at hle; omega), Nat.add_sub_cancel]
  have hmagic : heap.magic item = mark true := (htiling.marks _ hitem).1
  have hnext : heap.next item = right.address := htiling.next_eq.1
  have hnextMagic : heap.magic right.address &&& rtMemheapMask = rtMemheapMagic := by
    rw [(htiling.marks _ hright).1]
    cases right.used <;> decide
  rw [rtMemheapFree, if_neg (by omega)]
  rw [hheader, rtAssert_bind (by rw [hmagic]; decide),
    rtAssert_bind ((htiling.isUsed_iff hitem).2 rfl), rtAssert_bind (by rw [hnext, hnextMagic]),
    rtAssert_bind (htiling.marks _ hitem).2]
  change (if IsUsed released (released.prev item) then _ else _) = _
  split <;> rfl

theorem rtMemheapFree_spec {ptr : ℕ} (hinv : Inv cfg heap tiles free live) (hptr : ptr ∈ live) :
    ∃ heap' tiles' free', rtMemheapFree cfg heap ptr = .ok heap' ∧
      Inv cfg heap' tiles' free' (live.erase ptr) ∧ Follows heap heap' ∧
      (addresses tiles').Sublist (addresses tiles) := by
  obtain ⟨before, item, right, rest, rfl, rfl⟩ := hinv.exists_item hptr
  obtain ⟨hreleased, hgrown⟩ := release_spec hinv
  have hlive := hinv.live_erase hptr
  obtain ⟨hfront, -, hback⟩ := coalesced_append_cons_cons.1 hinv.coalesced
  have hequation := rtMemheapFree_eq hinv
  have hprev := hreleased.tiling.isUsed_prev_iff
  generalize setAvailable (clearUsed heap item)
    (heap.availableSize + memitemSize cfg heap item) = released at *
  have hnext : right.address ∉ [item] := by
    have hle := hreleased.tiling.spaced.next_le
    have hsize := rtMemheapSize_ge cfg
    rw [List.mem_singleton]
    dsimp only at hle
    omega
  dsimp only at hequation hprev
  by_cases hused : IsUsed released (released.prev item)
  · rw [if_pos hused] at hequation
    obtain ⟨next, rest', free', hmerged, hnextUsed, hback', hpayloads, hsublist, hgrown'⟩ :=
      mergeRight_spec hreleased hnext hback hgrown.available
    have hlinked := hmerged.link
    have htotal : Grown cfg heap (linkFree (mergeRight cfg released item) item)
        (before ++ ⟨item, false⟩ :: next :: rest') := (hgrown.trans hgrown').linkFree
    have hfollows := htotal.follows hinv hlinked.tiling
    refine ⟨_, _, _, hequation, Inv.of_follows hlinked ?_ htotal.available hfollows ?_, hfollows,
      ?_⟩
    · refine coalesced_append_cons_cons.2 ⟨?_, .inr hnextUsed, hback'⟩
      exact coalesced_snoc (List.isChain_append.1 hfront).1 (hprev.1 hused)
    · simpa [hpayloads] using hlive
    · rw [addresses_append, addresses_append]
      exact ((hsublist.map Tile.address).cons_cons item).append_left (addresses before)
  · rw [if_neg hused] at hequation
    rw [hprev] at hused
    push Not at hused
    obtain ⟨⟨first, used⟩, hlast, hfree⟩ := hused
    obtain rfl : used = false := by simpa using hfree
    obtain ⟨front, rfl⟩ := List.getLast?_eq_some_iff.1 hlast
    rw [List.append_assoc, List.singleton_append] at hreleased hgrown hlive
    have hfirst : released.prev item = first := hreleased.tiling.next_eq.2
    rw [hfirst] at hequation
    obtain ⟨hleft, hgrownLeft⟩ := mergeLeft_spec hreleased hgrown.available
    obtain ⟨next, rest', free', hmerged, hnextUsed, hback', hpayloads, hsublist, hgrown'⟩ :=
      mergeRight_spec hleft List.not_mem_nil hback hgrownLeft.available
    have htotal := (hgrown.trans hgrownLeft).trans hgrown'
    have hfollows := htotal.follows hinv hmerged.tiling
    refine ⟨_, _, _, hequation, Inv.of_follows hmerged ?_ htotal.available hfollows ?_, hfollows,
      ?_⟩
    · have hbefore := (List.isChain_append.1 hfront).1
      exact coalesced_append_cons_cons.2 ⟨hbefore, .inr hnextUsed, hback'⟩
    · simpa [hpayloads] using hlive
    · rw [List.append_assoc, List.singleton_append, addresses_append, addresses_append]
      exact (((hsublist.map Tile.address).cons item).cons_cons first).append_left (addresses front)

end RtThread.Memheap
