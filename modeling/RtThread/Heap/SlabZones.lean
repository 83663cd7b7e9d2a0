import RtThread.Heap.SlabLists

set_option linter.all false

/-!
# The zones of the slab allocator and their chunks

The pages of the heap are free, or belong to the table `memusage`, to a large allocation or
to a zone.  A zone counts its free chunks, which are those that were never used and those on
its free list.  A live pointer is a chunk of a zone or the start of a large allocation, and
the entry of its page in `memusage` leads back to it.

Taking a chunk from a zone and giving one back keep this.
-/

namespace RtThread.Slab

open Function
open RtThread.Core RtThread.PageAlloc

/-- A zone on the page `z`, its header and its free list. -/
structure ZoneOk (cfg : SlabConfig) (heap : SlabHeap) (z : ℕ) (zone : SlabZone)
    (chunks : List ℕ) : Prop where
  size_pos : 0 < zone.zChunksize
  size_eq : zone.zChunksize = chunkSizeOf zone.zZoneindex
  base_eq : zone.zBaseptr = z * rtMmPageSize + chunkOffset cfg zone.zChunksize
  base_le : zone.zBaseptr + zone.zNmax * zone.zChunksize ≤ (z + heap.zonePageCnt) * rtMmPageSize
  uindex_lt : zone.zUindex < zone.zNmax
  nfree_eq : zone.zNfree + (zone.zUindex + 1) = zone.zNmax + chunks.length
  chain : Chain heap.cNext zone.zFreechunk chunks
  nodup : chunks.Nodup
  index : ∀ chunk ∈ chunks, ∃ i ≤ zone.zUindex, chunk = zone.zBaseptr + i * zone.zChunksize

/-- What the structures of the heap hold: the zones, the zones that are spare, the large
allocations, the lists of zones and the free chunks of each zone. -/
structure Layout where
  zones : List ℕ
  spare : List ℕ
  large : List Extent
  array : ℕ → List ℕ
  cached : List ℕ
  chunks : ℕ → List ℕ

/-- The runs that are held from the page allocator. -/
def Layout.held (layout : Layout) (usage : Extent) (cnt : ℕ) : List Extent :=
  usage :: (layout.large ++ (layout.spare ++ layout.zones).map fun z => ⟨z, cnt⟩)

/-- A live pointer is a chunk of a zone that is not free, or the start of a large allocation,
and has room for the request. -/
inductive Home (heap : SlabHeap) (layout : Layout) (holding : Holding) : Prop
  | chunk (z i : ℕ) (hzone : z ∈ layout.zones) (hindex : i ≤ (heap.zone z).zUindex)
      (hptr : holding.ptr = (heap.zone z).zBaseptr + i * (heap.zone z).zChunksize)
      (hused : holding.ptr ∉ layout.chunks z) (hroom : holding.request ≤ (heap.zone z).zChunksize)
  | pages (run : Extent) (hrun : run ∈ layout.large) (hptr : holding.ptr = run.first * rtMmPageSize)
      (hroom : holding.request ≤ run.count * rtMmPageSize)

/-- The sizes that `rt_system_heap_init` computes. -/
structure Params (range : Extent) (heap : SlabHeap) : Prop where
  heapStart_eq : heap.heapStart = range.first
  limit_eq : heap.zoneLimit = 8192 ∨ heap.zoneLimit = 16384
  limit_le : 4 * heap.zoneLimit ≤ heap.zoneSize
  zoneSize_eq : heap.zoneSize = heap.zonePageCnt * rtMmPageSize

structure SlabInv (cfg : SlabConfig) (range usage : Extent) (heap : SlabHeap)
    (layout : Layout) (live : List Holding) : Prop where
  params : Params range heap
  pages : ∃ runs, Inv range heap.pages (layout.held usage heap.zonePageCnt) runs
  lists : Lists heap layout.zones layout.array layout.cached
  zones : ∀ z ∈ layout.zones, ZoneOk cfg heap z (heap.zone z) (layout.chunks z)
  magic : ∀ z ∈ layout.zones, z ∉ layout.cached → (heap.zone z).zMagic = zallocSlabMagic
  cached_free : ∀ z ∈ layout.cached, (heap.zone z).zNfree = (heap.zone z).zNmax
  small : ∀ z ∈ layout.spare ++ layout.zones, ∀ off < heap.zonePageCnt,
    heap.memusage (heap.btokup (z + off)) = ⟨.small, off⟩
  large : ∀ run ∈ layout.large, heap.memusage (heap.btokup run.first) = ⟨.large, run.count⟩
  large_live : ∀ run ∈ layout.large, ∃ holding ∈ live, holding.ptr = run.first * rtMmPageSize
  nodup : (live.map Holding.ptr).Nodup
  home : ∀ holding ∈ live, Home heap layout holding

variable {cfg : SlabConfig} {range usage : Extent} {heap heap' : SlabHeap} {layout : Layout}
variable {live : List Holding} {z zi : ℕ} {zone : SlabZone} {chunks : List ℕ}

/-! ## Where a pointer is -/

theorem ZoneOk.base_ge (hzone : ZoneOk cfg heap z zone chunks) :
    z * rtMmPageSize + cfg.sizeofSlabZone ≤ zone.zBaseptr := by
  rw [hzone.base_eq]
  exact Nat.add_le_add_left (chunkOffset_bounds cfg hzone.size_pos).1 _

/-- A chunk lies on the pages of its zone, behind the header. -/
theorem ZoneOk.page_chunk (hzone : ZoneOk cfg heap z zone chunks) {i : ℕ}
    (hi : i ≤ zone.zUindex) :
    z ≤ (zone.zBaseptr + i * zone.zChunksize) / rtMmPageSize ∧
      (zone.zBaseptr + i * zone.zChunksize) / rtMmPageSize < z + heap.zonePageCnt := by
  have hbase := hzone.base_ge
  have hend := hzone.base_le
  have hsize := hzone.size_pos
  have hlt : (i + 1) * zone.zChunksize ≤ zone.zNmax * zone.zChunksize :=
    Nat.mul_le_mul_right _ (hi.trans_lt hzone.uindex_lt)
  rw [Nat.add_one_mul] at hlt
  simp only [rtMmPageSize] at *
  omega

theorem ZoneOk.chunk_inj (hzone : ZoneOk cfg heap z zone chunks) {i j : ℕ}
    (heq : zone.zBaseptr + i * zone.zChunksize = zone.zBaseptr + j * zone.zChunksize) : i = j :=
  Nat.eq_of_mul_eq_mul_right hzone.size_pos (Nat.add_left_cancel heq)

/-- The chunks of a zone that counts all its chunks as free are on its free list. -/
theorem ZoneOk.mem_chunks (hzone : ZoneOk cfg heap z zone chunks)
    (hfree : zone.zNfree = zone.zNmax) {i : ℕ} (hi : i ≤ zone.zUindex) :
    zone.zBaseptr + i * zone.zChunksize ∈ chunks := by
  have hcount := hzone.nfree_eq
  let used := (Finset.range (zone.zUindex + 1)).image
    fun i => zone.zBaseptr + i * zone.zChunksize
  have hsubset : chunks.toFinset ⊆ used := by
    intro chunk hchunk
    obtain ⟨j, hj, rfl⟩ := hzone.index chunk (List.mem_toFinset.1 hchunk)
    exact Finset.mem_image.2 ⟨j, Finset.mem_range.2 (by omega), rfl⟩
  have hused : used.card ≤ zone.zUindex + 1 := by
    simpa using Finset.card_image_le (s := Finset.range (zone.zUindex + 1))
      (f := fun i => zone.zBaseptr + i * zone.zChunksize)
  -- as many chunks are on the list as were ever used
  have hall : chunks.toFinset = used := by
    refine Finset.eq_of_subset_of_card_le hsubset ?_
    rw [List.toFinset_card_of_nodup hzone.nodup]
    omega
  rw [← List.mem_toFinset, hall]
  exact Finset.mem_image.2 ⟨i, Finset.mem_range.2 (by omega), rfl⟩

theorem ZoneOk.unlinked_iff : ZoneOk cfg heap z zone.unlinked chunks ↔
    ZoneOk cfg heap z zone chunks :=
  ⟨fun h => ⟨h.1, h.2, h.3, h.4, h.5, h.6, h.7, h.8, h.9⟩,
    fun h => ⟨h.1, h.2, h.3, h.4, h.5, h.6, h.7, h.8, h.9⟩⟩

theorem ZoneOk.congr (hzone : ZoneOk cfg heap z zone chunks)
    (hcnt : heap'.zonePageCnt = heap.zonePageCnt)
    (hchain : Chain heap'.cNext zone.zFreechunk chunks) : ZoneOk cfg heap' z zone chunks :=
  ⟨hzone.1, hzone.2, hzone.3, by rw [hcnt]; exact hzone.4, hzone.5, hzone.6, hchain, hzone.8,
    hzone.9⟩

theorem held_zone (hz : z ∈ layout.spare ++ layout.zones) (cnt : ℕ) :
    ⟨z, cnt⟩ ∈ layout.held usage cnt :=
  List.mem_cons_of_mem _ (List.mem_append_right _ (List.mem_map_of_mem hz))

theorem held_large {run : Extent} (hrun : run ∈ layout.large) (cnt : ℕ) :
    run ∈ layout.held usage cnt :=
  List.mem_cons_of_mem _ (List.mem_append_left _ hrun)

namespace SlabInv

variable (hinv : SlabInv cfg range usage heap layout live)

include hinv

theorem zonePageCnt_pos : 0 < heap.zonePageCnt := by
  have hle := hinv.params.limit_le
  have heq := hinv.params.zoneSize_eq
  have hlimit := hinv.params.limit_eq
  simp only [rtMmPageSize] at heq
  omega

variable {run : Extent}

theorem range_le (hrun : run ∈ layout.held usage heap.zonePageCnt) :
    0 < range.first ∧ range.first ≤ run.first ∧ run.stop ≤ range.stop := by
  obtain ⟨runs, hpages⟩ := hinv.pages
  exact ⟨hpages.first_pos, hpages.mem_range hrun⟩

/-- Different pages of the heap have different entries in `memusage`. -/
theorem btokup_inj {page page' : ℕ} (hpage : range.first ≤ page) (hpage' : range.first ≤ page')
    (heq : heap.btokup page = heap.btokup page') : page = page' := by
  have hstart := hinv.params.heapStart_eq
  simp only [SlabHeap.btokup] at heq
  omega

theorem zone_eq {z' page : ℕ} (hz : z ∈ layout.spare ++ layout.zones)
    (hz' : z' ∈ layout.spare ++ layout.zones) (hpage : z ≤ page ∧ page < z + heap.zonePageCnt)
    (hpage' : z' ≤ page ∧ page < z' + heap.zonePageCnt) : z = z' := by
  obtain ⟨runs, hpages⟩ := hinv.pages
  have heq := hpages.eq_of_mem (held_zone hz _) (held_zone hz' _) hpage hpage'
  exact congrArg Extent.first heq

theorem not_mem_large {page : ℕ} (hz : z ∈ layout.spare ++ layout.zones) (hrun : run ∈ layout.large)
    (hpage : z ≤ page ∧ page < z + heap.zonePageCnt) : page ∉ run.cells := by
  intro hmem
  obtain ⟨runs, hpages⟩ := hinv.pages
  have heq := hpages.eq_of_mem (held_large hrun _) (held_zone hz _) hmem hpage
  have hcnt := hinv.zonePageCnt_pos
  -- the first page of the run cannot be used for both
  have hlarge := hinv.large run hrun
  have hsmall := hinv.small z hz 0 hcnt
  rw [heq] at hlarge
  rw [Nat.add_zero, hlarge] at hsmall
  simp at hsmall

/-- The entry of the page of a chunk leads to its zone. -/
theorem locate_chunk {i : ℕ} (hz : z ∈ layout.zones) (hi : i ≤ (heap.zone z).zUindex) {ptr : ℕ}
    (hptr : ptr = (heap.zone z).zBaseptr + i * (heap.zone z).zChunksize) :
    (heap.memusage (heap.btokup (ptr / rtMmPageSize))).type = .small ∧ zoneOf heap ptr = z := by
  obtain ⟨hlow, hhigh⟩ := (hinv.zones z hz).page_chunk hi
  rw [← hptr] at hlow hhigh
  have hsmall := hinv.small z (List.mem_append_right _ hz) (ptr / rtMmPageSize - z) (by omega)
  rw [Nat.add_sub_cancel' hlow] at hsmall
  refine ⟨by rw [hsmall], ?_⟩
  rw [zoneOf, hsmall]
  dsimp only
  omega

/-- The entry of the page of a large allocation tells its length. -/
theorem locate_pages (hrun : run ∈ layout.large) :
    heap.memusage (heap.btokup (run.first * rtMmPageSize / rtMmPageSize)) =
      ⟨.large, run.count⟩ := by
  rw [Nat.mul_div_cancel _ (by decide)]
  exact hinv.large run hrun

variable {holding : Holding}

theorem ptr_ne_zero (hmem : holding ∈ live) : holding.ptr ≠ 0 := by
  rcases hinv.home holding hmem with ⟨z, i, hz, hi, hptr, -, -⟩ | ⟨run, hrun, hptr, -⟩
  · have hbase := (hinv.zones z hz).base_ge
    have hsizeof := cfg.sizeof_pos
    omega
  · have hfirst := hinv.range_le (held_large hrun _)
    rw [hptr]
    exact Nat.mul_ne_zero (by omega) (by decide)

theorem first_mem_cells (hrun : run ∈ layout.large) : run.first ∈ run.cells := by
  obtain ⟨runs, hpages⟩ := hinv.pages
  have hpos := hpages.parts.live_pos run (held_large hrun _)
  simp only [Extent.mem_cells, Extent.stop]
  omega

/-- A live pointer on the pages of a zone is a chunk of it. -/
theorem home_chunk (hz : z ∈ layout.spare ++ layout.zones) (hmem : holding ∈ live)
    (hpage : z ≤ holding.ptr / rtMmPageSize ∧ holding.ptr / rtMmPageSize < z + heap.zonePageCnt) :
    z ∈ layout.zones ∧ ∃ i ≤ (heap.zone z).zUindex,
      holding.ptr = (heap.zone z).zBaseptr + i * (heap.zone z).zChunksize ∧
      holding.ptr ∉ layout.chunks z ∧ holding.request ≤ (heap.zone z).zChunksize := by
  rcases hinv.home holding hmem with ⟨z', i, hz', hi, hptr, hused, hroom⟩ | ⟨run, hrun, hptr, -⟩
  · have hpage' := (hinv.zones z' hz').page_chunk hi
    rw [← hptr] at hpage'
    obtain rfl := hinv.zone_eq hz (List.mem_append_right _ hz') hpage hpage'
    exact ⟨hz', i, hi, hptr, hused, hroom⟩
  · rw [hptr, Nat.mul_div_cancel _ (by decide)] at hpage
    exact absurd (hinv.first_mem_cells hrun) (hinv.not_mem_large hz hrun hpage)

/-- A zone that is kept or spare holds no live pointer. -/
theorem not_live_of_cached (hz : z ∈ layout.cached) (hmem : holding ∈ live) :
    ¬ (z ≤ holding.ptr / rtMmPageSize ∧ holding.ptr / rtMmPageSize < z + heap.zonePageCnt) := by
  intro hpage
  have hzone := hinv.lists.cached_zone z hz
  obtain ⟨-, i, hi, hptr, hused, -⟩ :=
    hinv.home_chunk (List.mem_append_right _ hzone) hmem hpage
  rw [hptr] at hused
  exact hused ((hinv.zones z hzone).mem_chunks (hinv.cached_free z hz) hi)

end SlabInv

/-- A live pointer keeps its place when its zone is written without touching it. -/
theorem Home.mono {holding : Holding} {layout' : Layout} (hhome : Home heap layout holding)
    (hzones : ∀ z ∈ layout.zones, z ∈ layout'.zones ∧
      (heap'.zone z).zBaseptr = (heap.zone z).zBaseptr ∧
      (heap'.zone z).zChunksize = (heap.zone z).zChunksize ∧
      (heap.zone z).zUindex ≤ (heap'.zone z).zUindex ∧
      (holding.ptr ∉ layout.chunks z → holding.ptr ∉ layout'.chunks z))
    (hlarge : ∀ run ∈ layout.large, run ∈ layout'.large) : Home heap' layout' holding := by
  rcases hhome with ⟨z, i, hz, hi, hptr, hused, hroom⟩ | ⟨run, hrun, hptr, hroom⟩
  · obtain ⟨hz', hbase, hsize, huindex, hchunks⟩ := hzones z hz
    exact .chunk z i hz' (hi.trans huindex) (by rw [hbase, hsize]; exact hptr) (hchunks hused)
      (by rw [hsize]; exact hroom)
  · exact .pages run (hlarge run hrun) hptr hroom

/-! ## Chunks -/

section Chunks

variable (hinv : SlabInv cfg range usage heap layout live)

include hinv

theorem SlabInv.take {array : ℕ → List ℕ} {holding : Holding} {i : ℕ} (hz : z ∈ layout.zones)
    (hheap : heap' = { heap with
      zone := heap'.zone
      zoneArray := heap'.zoneArray
      usedMem := heap'.usedMem
      maxMem := heap'.maxMem })
    (hlists : Lists heap' layout.zones array layout.cached) (hcached : z ∉ layout.cached)
    (hothers : ∀ other ≠ z, heap'.zone other = heap.zone other)
    (hzone : ZoneOk cfg heap z (heap'.zone z) chunks)
    (hmagic : (heap'.zone z).zMagic = (heap.zone z).zMagic)
    (hbase : (heap'.zone z).zBaseptr = (heap.zone z).zBaseptr)
    (hsize : (heap'.zone z).zChunksize = (heap.zone z).zChunksize)
    (huindex : (heap.zone z).zUindex ≤ (heap'.zone z).zUindex)
    (hsubset : ∀ chunk ∈ chunks, chunk ∈ layout.chunks z) (hi : i ≤ (heap'.zone z).zUindex)
    (hptr : holding.ptr = (heap.zone z).zBaseptr + i * (heap.zone z).zChunksize)
    (hunused : (heap.zone z).zUindex < i ∨ holding.ptr ∈ layout.chunks z)
    (hused : holding.ptr ∉ chunks) (hroom : holding.request ≤ (heap.zone z).zChunksize) :
    SlabInv cfg range usage heap'
      { layout with array := array, chunks := update layout.chunks z chunks }
      (holding :: live) := by
  have hpage := hzone.page_chunk hi
  rw [hbase, hsize, ← hptr] at hpage
  have hfresh : holding.ptr ∉ live.map Holding.ptr := by
    intro hmem
    obtain ⟨other, hother, heq⟩ := List.mem_map.1 hmem
    rw [← heq] at hpage
    obtain ⟨-, j, hj, hptr', hused', -⟩ :=
      hinv.home_chunk (List.mem_append_right _ hz) hother hpage
    rw [heq] at hptr' hused'
    have hij := (hinv.zones z hz).chunk_inj (hptr.symm.trans hptr')
    rcases hunused with hlt | hchunk
    · omega
    · exact hused' hchunk
  have hcNext : heap'.cNext = heap.cNext := by rw [hheap]
  have hcnt : heap'.zonePageCnt = heap.zonePageCnt := by rw [hheap]
  refine ⟨?_, ?_, hlists, fun other hother => ?_, fun other hother hnot => ?_,
    fun other hother => ?_,
    ?_, ?_, fun run hrun => ?_, List.nodup_cons.2 ⟨hfresh, hinv.nodup⟩,
    List.forall_mem_cons.2 ⟨?_, fun other hother => ?_⟩⟩
  · rw [hheap]
    exact ⟨hinv.params.1, hinv.params.2, hinv.params.3, hinv.params.4⟩
  · rw [hheap]
    exact hinv.pages
  · dsimp only
    by_cases hne : other = z
    · subst hne
      rw [update_self]
      exact hzone.congr hcnt (by rw [hcNext]; exact hzone.chain)
    · rw [update_of_ne hne, hothers other hne]
      have hother' := hinv.zones other hother
      exact hother'.congr hcnt (by rw [hcNext]; exact hother'.chain)
  · by_cases hne : other = z
    · subst hne
      rw [hmagic]
      exact hinv.magic other hother hnot
    · rw [hothers other hne]
      exact hinv.magic other hother hnot
  · rw [hothers other fun heq => hcached (heq ▸ hother)]
    exact hinv.cached_free other hother
  · rw [hheap]
    exact hinv.small
  · rw [hheap]
    exact hinv.large
  · obtain ⟨other, hother, heq⟩ := hinv.large_live run hrun
    exact ⟨other, List.mem_cons_of_mem _ hother, heq⟩
  · refine .chunk z i hz hi (by rw [hbase, hsize]; exact hptr) ?_ (by rw [hsize]; exact hroom)
    dsimp only
    rwa [update_self]
  · refine (hinv.home other hother).mono (fun z' hz' => ⟨hz', ?_⟩) fun run hrun => hrun
    dsimp only
    by_cases hne : z' = z
    · subst hne
      rw [update_self]
      exact ⟨hbase, hsize, huindex, fun hnot hmem => hnot (hsubset _ hmem)⟩
    · rw [update_of_ne hne, hothers z' hne]
      exact ⟨rfl, rfl, le_rfl, id⟩

theorem dropNfree_spec {rest : List ℕ} (hlist : layout.array zi = z :: rest) :
    ∃ array next, Lists (dropNfree heap zi z) layout.zones array layout.cached ∧
      (dropNfree heap zi z).zone z =
        { heap.zone z with zNfree := (heap.zone z).zNfree - 1, zNext := next } ∧
      (∀ other ≠ z, (dropNfree heap zi z).zone other = heap.zone other) ∧
      dropNfree heap zi z = { heap with
        zone := (dropNfree heap zi z).zone
        zoneArray := (dropNfree heap zi z).zoneArray } := by
  rw [dropNfree]
  split
  · next hlast =>
      let zone := { heap.zone z with zNfree := (heap.zone z).zNfree - 1, zNext := none }
      have hzone : zone.zNfree = 0 := hlast
      refine ⟨_, none, hinv.lists.drop hlist hzone, ?_, fun other hne => ?_, rfl⟩
      · simp
      · rw [zone_setZoneArray, zone_setZone_of_ne heap _ hne]
  · next hmore =>
      refine ⟨layout.array, (heap.zone z).zNext, hinv.lists.congr ?_ rfl rfl rfl fun other _ => ?_,
        zone_setZone_self .., fun other hne => zone_setZone_of_ne heap _ hne, rfl⟩
      · rw [zNext_setZone]
        exact update_eq_self z heap.zNext
      · by_cases hne : other = z
        · subst hne
          rw [zone_setZone_self]
          exact ⟨rfl, by dsimp only; omega⟩
        · rw [zone_setZone_of_ne heap _ hne]
          exact ⟨rfl, Iff.rfl⟩

/-- A chunk of the first zone of a list becomes live. -/
theorem SlabInv.takeChunk {rest : List ℕ} (hlist : layout.array zi = z :: rest) :
    ∃ array next, (dropNfree heap zi z).zone z =
        { heap.zone z with zNfree := (heap.zone z).zNfree - 1, zNext := next } ∧
      ∀ uindex free amount chunks i request,
        ZoneOk cfg heap z { heap.zone z with
          zNfree := (heap.zone z).zNfree - 1
          zUindex := uindex
          zFreechunk := free } chunks →
        (heap.zone z).zUindex ≤ uindex → (∀ chunk ∈ chunks, chunk ∈ layout.chunks z) → i ≤ uindex →
        ((heap.zone z).zUindex < i ∨
          (heap.zone z).zBaseptr + i * (heap.zone z).zChunksize ∈ layout.chunks z) →
        (heap.zone z).zBaseptr + i * (heap.zone z).zChunksize ∉ chunks →
        request ≤ (heap.zone z).zChunksize →
        SlabInv cfg range usage
          (addUsedMem cfg ((dropNfree heap zi z).setZone z { heap.zone z with
            zNfree := (heap.zone z).zNfree - 1
            zNext := next
            zUindex := uindex
            zFreechunk := free }) amount)
          { layout with array := array, chunks := update layout.chunks z chunks }
          (⟨(heap.zone z).zBaseptr + i * (heap.zone z).zChunksize, request⟩ :: live) := by
  obtain ⟨hz, -, -, hcached⟩ := (hinv.lists.array_mem zi z).1 (by simp [hlist])
  obtain ⟨array, next, hlists, hdrop, hothers, hheap⟩ := dropNfree_spec hinv hlist
  refine ⟨array, next, hdrop, ?_⟩
  intro uindex free amount chunks i request hzone huindex hsubset hi hunused hused hroom
  set zone := { heap.zone z with
    zNfree := (heap.zone z).zNfree - 1
    zNext := next
    zUindex := uindex
    zFreechunk := free } with hwritten
  have hself : (addUsedMem cfg ((dropNfree heap zi z).setZone z zone) amount).zone z = zone :=
    zone_setZone_self ..
  refine hinv.take hz ?_ (hlists.congr ?_ rfl rfl rfl fun other _ => ?_) hcached
    (fun other hne => (zone_setZone_of_ne _ _ hne).trans (hothers other hne)) ?_
    (by rw [hself]) (by rw [hself]) (by rw [hself]) ?_ hsubset ?_ rfl hunused hused hroom
  · rw [hheap]
    rfl
  · have hnext : (dropNfree heap zi z).zNext z = next := congrArg SlabZone.zNext hdrop
    change ((dropNfree heap zi z).setZone z zone).zNext = _
    rw [zNext_setZone, update_eq_self_iff, hnext]
  · change (((dropNfree heap zi z).setZone z zone).zone other).zZoneindex = _ ∧
      (0 < (((dropNfree heap zi z).setZone z zone).zone other).zNfree ↔ _)
    by_cases hne : other = z
    · subst hne
      rw [zone_setZone_self, hdrop]
      exact ⟨rfl, Iff.rfl⟩
    · rw [zone_setZone_of_ne _ _ hne]
      exact ⟨rfl, Iff.rfl⟩
  · rw [hself]
    exact ⟨hzone.1, hzone.2, hzone.3, hzone.4, hzone.5, hzone.6, hzone.7, hzone.8, hzone.9⟩
  · rw [hself]
    exact huindex
  · rw [hself]
    exact hi

theorem mallocChunk_spec {request : ℕ} (hhead : heap.zoneArray zi = some z)
    (hroom : request ≤ chunkSizeOf zi) :
    ∃ heap' ptr layout', mallocChunk cfg heap zi z (chunkSizeOf zi) = some (heap', ptr) ∧
      ptr ≠ 0 ∧ (∃ i, ptr = (heap.zone z).zBaseptr + i * chunkSizeOf zi) ∧
      layout'.spare = layout.spare ∧
      SlabInv cfg range usage heap' layout' (⟨ptr, request⟩ :: live) := by
  have hchain := hinv.lists.array_chain zi
  rw [hhead] at hchain
  obtain ⟨rest, hlist, -⟩ := hchain.exists_rest
  obtain ⟨hz, hindex, hnfree, hcached⟩ := (hinv.lists.array_mem zi z).1 (by simp [hlist])
  have hzone := hinv.zones z hz
  have hsize : (heap.zone z).zChunksize = chunkSizeOf zi := by rw [hzone.size_eq, hindex]
  rw [← hsize] at hroom
  obtain ⟨array, next, hdrop, htake⟩ := hinv.takeChunk hlist
  rw [mallocChunk, if_pos hnfree, Slab.takeChunk, hdrop, ← hsize]
  have hcount := hzone.nfree_eq
  have hlt := hzone.uindex_lt
  have hbase := hzone.base_ge
  have hsizeof := cfg.sizeof_pos
  have hnonnull : ∀ i, (heap.zone z).zBaseptr + i * (heap.zone z).zChunksize ≠ 0 := by
    intro i
    omega
  by_cases hunused : (heap.zone z).zUindex + 1 = (heap.zone z).zNmax
  · -- every chunk was used before, so one of them is on the free list
    rw [if_neg (not_not.2 hunused)]
    cases hchunks : layout.chunks z with
    | nil =>
      rw [hchunks, List.length_nil] at hcount
      omega
    | cons chunk more =>
      have hfree := hzone.chain
      have hnodup := hzone.nodup
      have hmem := hzone.index
      rw [hchunks] at hfree hnodup hmem hcount
      rw [List.length_cons] at hcount
      obtain ⟨hnot, hrest⟩ := List.nodup_cons.1 hnodup
      obtain ⟨⟨i, hi, rfl⟩, hmore⟩ := List.forall_mem_cons.1 hmem
      have hcNext : (dropNfree heap zi z).cNext = heap.cNext := by
        rw [dropNfree]
        split <;> rfl
      rw [hfree.1, hcNext]
      let layout' : Layout :=
        { layout with array := array, chunks := update layout.chunks z more }
      refine ⟨_, _, layout', rfl, hnonnull i, ⟨i, rfl⟩, rfl,
        htake _ _ _ more i request ?_ le_rfl ?_ hi (.inr ?_) hnot hroom⟩
      · exact ⟨hzone.1, hzone.2, hzone.3, hzone.4, hzone.5, by dsimp only; omega, hfree.2, hrest,
          hmore⟩
      · intro other hother
        rw [hchunks]
        exact List.mem_cons_of_mem _ hother
      · rw [hchunks]
        exact List.mem_cons_self
  · dsimp only
    rw [if_pos hunused]
    let layout' : Layout :=
      { layout with array := array, chunks := update layout.chunks z (layout.chunks z) }
    refine ⟨_, _, layout', rfl, hnonnull ((heap.zone z).zUindex + 1),
      ⟨(heap.zone z).zUindex + 1, rfl⟩, rfl,
      htake _ _ _ (layout.chunks z) ((heap.zone z).zUindex + 1) request ?_ (Nat.le_add_right ..)
      (fun chunk hchunk => hchunk) le_rfl (.inl (Nat.lt_add_one _)) ?_ hroom⟩
    · refine ⟨hzone.1, hzone.2, hzone.3, hzone.4, by dsimp only; omega, by dsimp only; omega,
        hzone.7, hzone.8, fun chunk hchunk => ?_⟩
      obtain ⟨i, hi, hptr⟩ := hzone.index chunk hchunk
      exact ⟨i, by dsimp only; omega, hptr⟩
    · intro hmem
      obtain ⟨i, hi, hptr⟩ := hzone.index _ hmem
      have heq := hzone.chunk_inj hptr
      omega

theorem SlabInv.setUsed (used most : ℕ) :
    SlabInv cfg range usage { heap with usedMem := used, maxMem := most } layout live where
  params := ⟨hinv.params.1, hinv.params.2, hinv.params.3, hinv.params.4⟩
  pages := hinv.pages
  lists := hinv.lists.congr rfl rfl rfl rfl fun _ _ => ⟨rfl, Iff.rfl⟩
  zones z hz := (hinv.zones z hz).congr rfl (hinv.zones z hz).chain
  magic := hinv.magic
  cached_free := hinv.cached_free
  small := hinv.small
  large := hinv.large
  large_live := hinv.large_live
  nodup := hinv.nodup
  home holding hmem := (hinv.home holding hmem).mono (fun _ hz => ⟨hz, rfl, rfl, le_rfl, id⟩)
    fun _ hrun => hrun

theorem giveChunk_lists (hz : z ∈ layout.zones) (hcached : z ∉ layout.cached) (ptr : ℕ) :
    ∃ array next, Lists (giveChunk heap z ptr) layout.zones array layout.cached ∧
      (giveChunk heap z ptr).zone z = { heap.zone z with
        zFreechunk := some ptr
        zNfree := (heap.zone z).zNfree + 1
        zNext := next } ∧
      (∀ other ≠ z, (giveChunk heap z ptr).zone other = heap.zone other) ∧
      giveChunk heap z ptr = { heap with
        cNext := update heap.cNext ptr (heap.zone z).zFreechunk
        zone := (giveChunk heap z ptr).zone
        zoneArray := (giveChunk heap z ptr).zoneArray } := by
  let heap₁ := { heap with cNext := update heap.cNext ptr (heap.zone z).zFreechunk }
  have hlists : Lists heap₁ layout.zones layout.array layout.cached :=
    hinv.lists.congr rfl rfl rfl rfl fun _ _ => ⟨rfl, Iff.rfl⟩
  rw [giveChunk]
  split
  · next hfull =>
      refine ⟨_, _, hlists.push hcached (fun _ => hfull) (Nat.succ_pos _)
        rfl (fun _ _ => Iff.rfl) hz
        rfl, zone_setZone_self .., fun other hne => zone_setZone_of_ne heap₁ _ hne, rfl⟩
  · next hmore =>
      refine ⟨layout.array, (heap.zone z).zNext, hlists.congr ?_ rfl rfl rfl fun other _ => ?_,
        zone_setZone_self .., fun other hne => zone_setZone_of_ne heap₁ _ hne, rfl⟩
      · rw [zNext_setZone]
        exact update_eq_self z heap.zNext
      · by_cases hne : other = z
        · subst hne
          rw [zone_setZone_self]
          exact ⟨rfl, by dsimp only [heap₁]; omega⟩
        · rw [zone_setZone_of_ne heap₁ _ hne]
          exact ⟨rfl, Iff.rfl⟩

theorem nodup_without (ptr : ℕ) : ((without live ptr).map Holding.ptr).Nodup :=
  hinv.nodup.sublist (List.Sublist.map _ List.filter_sublist)

theorem giveChunk_spec {holding : Holding} {i : ℕ} (hmem : holding ∈ live)
    (hz : z ∈ layout.zones) (hi : i ≤ (heap.zone z).zUindex)
    (hptr : holding.ptr = (heap.zone z).zBaseptr + i * (heap.zone z).zChunksize)
    (hused : holding.ptr ∉ layout.chunks z) :
    ∃ array, SlabInv cfg range usage (giveChunk heap z holding.ptr)
      { layout with
        array := array
        chunks := update layout.chunks z (holding.ptr :: layout.chunks z) }
      (without live holding.ptr) := by
  have hzone := hinv.zones z hz
  have hpage := hzone.page_chunk hi
  rw [← hptr] at hpage
  have hcached : z ∉ layout.cached := fun hcached => hinv.not_live_of_cached hcached hmem hpage
  obtain ⟨array, next, hlists, hself, hothers, hheap⟩ :=
    giveChunk_lists hinv hz hcached holding.ptr
  have hcNext : (giveChunk heap z holding.ptr).cNext =
      update heap.cNext holding.ptr (heap.zone z).zFreechunk := by rw [hheap]
  have hcnt : (giveChunk heap z holding.ptr).zonePageCnt = heap.zonePageCnt := by rw [hheap]
  refine ⟨array, ?_, ?_, hlists, fun other hother => ?_, fun other hother hnot => ?_,
    fun other hother => ?_, ?_, ?_, fun run hrun => ?_, nodup_without hinv _,
      fun other hother => ?_⟩
  · rw [hheap]
    exact ⟨hinv.params.1, hinv.params.2, hinv.params.3, hinv.params.4⟩
  · rw [hheap]
    exact hinv.pages
  · dsimp only
    by_cases hne : other = z
    · subst hne
      rw [update_self, hself]
      refine ⟨hzone.1, hzone.2, hzone.3, by rw [hcnt]; exact hzone.4, hzone.5, ?_, ?_,
        List.nodup_cons.2 ⟨hused, hzone.nodup⟩, List.forall_mem_cons.2 ⟨⟨i, hi, hptr⟩, hzone.index⟩⟩
      · have hcount := hzone.nfree_eq
        simp only [List.length_cons]
        omega
      · rw [hcNext]
        exact hzone.chain.push hused
    · rw [update_of_ne hne, hothers other hne]
      have hother' := hinv.zones other hother
      refine hother'.congr hcnt ?_
      rw [hcNext]
      refine hother'.chain.update_of_not_mem _ fun hchunk => hne ?_
      obtain ⟨j, hj, hptr'⟩ := hother'.index _ hchunk
      have hpage' := hother'.page_chunk hj
      rw [← hptr'] at hpage'
      exact hinv.zone_eq (List.mem_append_right _ hother) (List.mem_append_right _ hz) hpage' hpage
  · by_cases hne : other = z
    · subst hne
      rw [hself]
      exact hinv.magic other hother hnot
    · rw [hothers other hne]
      exact hinv.magic other hother hnot
  · rw [hothers other fun heq => hcached (heq ▸ hother)]
    exact hinv.cached_free other hother
  · rw [hheap]
    exact hinv.small
  · rw [hheap]
    exact hinv.large
  · obtain ⟨other, hother, heq⟩ := hinv.large_live run hrun
    refine ⟨other, List.mem_filter.2 ⟨hother, ?_⟩, heq⟩
    rw [decide_eq_true_eq, heq]
    rintro hsame
    rw [← hsame, Nat.mul_div_cancel _ (by decide)] at hpage
    exact hinv.not_mem_large (List.mem_append_right _ hz) hrun hpage (hinv.first_mem_cells hrun)
  · obtain ⟨hother, hdiff⟩ := List.mem_filter.1 hother
    rw [decide_eq_true_eq] at hdiff
    refine (hinv.home other hother).mono (fun z' hz' => ⟨hz', ?_⟩) fun run hrun => hrun
    dsimp only
    by_cases hne : z' = z
    · subst hne
      rw [update_self, hself]
      exact ⟨rfl, rfl, le_rfl, fun hnot => by simp [hdiff, hnot]⟩
    · rw [update_of_ne hne, hothers z' hne]
      exact ⟨rfl, rfl, le_rfl, id⟩

end Chunks

end RtThread.Slab
