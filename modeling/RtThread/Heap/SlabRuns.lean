import RtThread.Heap.SlabPages

set_option linter.all false

/-!
# Runs of the slab allocator

Every call on live pointers keeps the zones as their lists and counts say, and the pointers
where `rt_free` finds them.  A full zone is in no list: it was taken out of the list of its
chunk size when its last chunk was taken, and comes back with the first one that is freed.
-/

namespace RtThread.Slab

open RtThread.Core RtThread.PageAlloc

variable {cfg : SlabConfig} {range usage : Extent} {heap heap' : SlabHeap}
variable {live : List Holding} {holding : Holding} {ptr size request : ℕ}

/-- The heap between two calls. -/
def Valid (cfg : SlabConfig) (range usage : Extent) (heap : SlabHeap) (live : List Holding) :
    Prop :=
  ∃ layout, layout.spare = [] ∧ SlabInv cfg range usage heap layout live

/-! ## The calls -/

/-- A chunk comes from the list of its index or from a zone that is laid out for it. -/
theorem mallocZone_spec {zi : ℕ} (hvalid : Valid cfg range usage heap live)
    (hpos : 0 < chunkSizeOf zi) (hle : chunkSizeOf zi ≤ heap.zoneLimit)
    (hroom : request ≤ chunkSizeOf zi) :
    ∃ heap' ptr, mallocZone cfg heap zi (chunkSizeOf zi) = some (heap', ptr) ∧
      (ptr = 0 ∧ heap' = heap ∨
        ptr ≠ 0 ∧ Valid cfg range usage heap' (⟨ptr, request⟩ :: live)) := by
  obtain ⟨layout, hspare, hinv⟩ := hvalid
  cases hhead : heap.zoneArray zi with
  | some z =>
    obtain ⟨heap', ptr, layout', hmalloc, hnull, -, hspare', hinv'⟩ :=
      mallocChunk_spec hinv hhead hroom
    rw [mallocZone, hhead]
    exact ⟨heap', ptr, hmalloc, .inr ⟨hnull, layout', hspare'.trans hspare, hinv'⟩⟩
  | none =>
    obtain ⟨heap₁, z, hacquire, hlimit, hresult⟩ := acquireZone_spec hinv hspare
    rw [mallocZone, hhead, hacquire]
    rcases hresult with ⟨rfl, rfl⟩ | ⟨hz, layout₁, hspare₁, hinv₁⟩
    · exact ⟨_, 0, rfl, .inl ⟨rfl, rfl⟩⟩
    · obtain ⟨layout', hspare', hinv'⟩ :=
        initZone_spec hinv₁ hspare₁ hpos (hlimit ▸ hle) hroom
      refine ⟨_, _, if_neg hz, .inr ⟨?_, layout', hspare', hinv'.setUsed _ _⟩⟩
      exact hinv'.ptr_ne_zero List.mem_cons_self

/-- A call of `rt_malloc` returns `RT_NULL` and changes nothing, or a new pointer. -/
theorem rtMalloc_spec (hvalid : Valid cfg range usage heap live)
    (hsize : size < cfg.wordSize) (hroom : request ≤ size) :
    ∃ heap' ptr, rtMalloc cfg heap size = some (heap', ptr) ∧
      (ptr = 0 ∧ heap' = heap ∨
        ptr ≠ 0 ∧ Valid cfg range usage heap' (⟨ptr, request⟩ :: live)) := by
  obtain ⟨layout, hspare, hinv⟩ := id hvalid
  rw [rtMalloc]
  by_cases hzero : size = 0
  · rw [if_pos hzero]
    exact ⟨heap, 0, rfl, .inl ⟨rfl, rfl⟩⟩
  rw [if_neg hzero]
  by_cases hlarge : heap.zoneLimit ≤ size
  · rw [if_pos hlarge]
    obtain ⟨heap', ptr, hmalloc, hresult⟩ := mallocPages_spec hinv hspare hsize hroom
    refine ⟨heap', ptr, hmalloc, hresult.imp id ?_⟩
    rintro ⟨hnull, layout', hspare', hinv'⟩
    exact ⟨hnull, layout', hspare', hinv'⟩
  rw [if_neg hlarge]
  have hpos := Nat.pos_of_ne_zero hzero
  have hlt := not_le.1 hlarge
  obtain ⟨hindex, hle⟩ := zoneindex_le hinv.params.limit_eq hpos hlt
  have hbound : size < 16384 := by
    have hlimit := hinv.params.limit_eq
    omega
  have hfits := le_zoneindex size
  dsimp only
  rw [if_pos hindex]
  rw [zoneindex_eq hpos hbound] at hle hfits ⊢
  exact mallocZone_spec hvalid (by omega) hle (hroom.trans hfits)

/-- A chunk goes back to its zone, and a zone that becomes free may be kept or released. -/
theorem freeChunk_spec (hvalid : Valid cfg range usage heap live) (hmem : holding ∈ live)
    (hsmall : (heap.memusage (heap.btokup (holding.ptr / rtMmPageSize))).type ≠ .large) :
    ∃ heap', freeChunk cfg heap holding.ptr = some heap' ∧
      Valid cfg range usage heap' (without live holding.ptr) := by
  obtain ⟨layout, hspare, hinv⟩ := hvalid
  rcases hinv.home holding hmem with ⟨z, i, hz, hi, hptr, hused, hroom⟩ | ⟨run, hrun, hptr, -⟩
  · have hfound := (hinv.locate_chunk hz hi hptr).2
    have hpage := (hinv.zones z hz).page_chunk hi
    rw [← hptr] at hpage
    have hcached : z ∉ layout.cached := fun hcached => hinv.not_live_of_cached hcached hmem hpage
    rw [freeChunk, hfound]
    rw [if_pos (hinv.magic z hz hcached)]
    have hstats := hinv.setUsed
      ((heap.usedMem + (cfg.wordSize - (heap.zone z).zChunksize)) % cfg.wordSize) heap.maxMem
    obtain ⟨array, hinv₁⟩ := giveChunk_spec hstats hmem hz hi hptr hused
    change ∃ heap', (if Retires (giveChunk (subUsedMem cfg heap _) z holding.ptr) z then _
      else _) = some heap' ∧ _
    generalize hheap₁ : giveChunk (subUsedMem cfg heap (heap.zone z).zChunksize) z holding.ptr =
      heap₁
    let layout₁ : Layout := { layout with
      array := array
      chunks := Function.update layout.chunks z (holding.ptr :: layout.chunks z) }
    have hinv₁ : SlabInv cfg range usage heap₁ layout₁ (without live holding.ptr) :=
      hheap₁ ▸ hinv₁
    split
    · next hretires =>
        have hpos := (hinv₁.zones z hz).uindex_lt
        have harray : z ∈ layout₁.array (heap₁.zone z).zZoneindex :=
          (hinv₁.lists.array_mem _ z).2 ⟨hz, rfl, by have hfree := hretires.1; omega, hcached⟩
        obtain ⟨heap₂, array₂, hretire, hinv₂⟩ := retireZone_spec hinv₁ harray hretires.1
        rw [hretire]
        change ∃ heap', (if zoneReleaseThresh < heap₂.zoneFreeCnt then releaseZone heap₂
          else some heap₂) = some heap' ∧ _
        split
        · obtain ⟨heap', layout', hrelease, hspare', hinv'⟩ :=
            releaseZone_spec hinv₂ hspare (List.cons_ne_nil _ _)
          exact ⟨heap', hrelease, layout', hspare', hinv'⟩
        · exact ⟨heap₂, rfl, { layout₁ with array := array₂, cached := z :: layout.cached }, hspare,
            hinv₂⟩
    · exact ⟨heap₁, rfl, layout₁, hspare, hinv₁⟩
  · rw [hptr, hinv.locate_pages hrun] at hsmall
    exact absurd rfl hsmall

theorem rtFree_spec (hvalid : Valid cfg range usage heap live) (hmem : holding ∈ live) :
    ∃ heap', rtFree cfg heap holding.ptr = some heap' ∧
      Valid cfg range usage heap' (without live holding.ptr) := by
  obtain ⟨layout, hspare, hinv⟩ := id hvalid
  rw [rtFree, if_neg (hinv.ptr_ne_zero hmem)]
  split
  · next hlarge =>
      rcases hinv.home holding hmem with ⟨z, i, hz, hi, hptr, -, -⟩ | ⟨run, hrun, hptr, -⟩
      · rw [(hinv.locate_chunk hz hi hptr).1] at hlarge
        contradiction
      · obtain ⟨heap', layout', hfree, hspare', hinv'⟩ := freePages_spec hinv hspare hrun hptr
        exact ⟨heap', hfree, layout', hspare', hinv'⟩
  · next hsmall => exact freeChunk_spec hvalid hmem hsmall

/-- The payload is moved to a new block, unless there is none. -/
theorem moveBlock_spec (hvalid : Valid cfg range usage heap live) (hmem : holding ∈ live)
    (hsize : size < cfg.wordSize) (hroom : request ≤ size) :
    ∃ heap' nptr, moveBlock cfg heap holding.ptr size = some (heap', nptr) ∧
      (nptr = 0 ∧ heap' = heap ∨ nptr ≠ 0 ∧
        Valid cfg range usage heap' (⟨nptr, request⟩ :: without live holding.ptr)) := by
  obtain ⟨heap₁, nptr, hmalloc, hresult⟩ := rtMalloc_spec hvalid hsize hroom
  rw [moveBlock, hmalloc]
  rcases hresult with ⟨rfl, rfl⟩ | ⟨hnull, hvalid₁⟩
  · exact ⟨_, 0, rfl, .inl ⟨rfl, rfl⟩⟩
  · have hne : nptr ≠ holding.ptr := by
      obtain ⟨layout₁, -, hinv₁⟩ := hvalid₁
      have hfresh := (List.nodup_cons.1 hinv₁.nodup).1
      intro heq
      exact hfresh (List.mem_map.2 ⟨holding, hmem, heq.symm⟩)
    have hlive : without (⟨nptr, request⟩ :: live) holding.ptr =
        ⟨nptr, request⟩ :: without live holding.ptr := List.filter_cons_of_pos (by simpa using hne)
    obtain ⟨heap', hfree, hvalid'⟩ := rtFree_spec hvalid₁ (List.mem_cons_of_mem _ hmem)
    rw [hlive] at hvalid'
    refine ⟨heap', nptr, ?_, .inr ⟨hnull, hvalid'⟩⟩
    change (if nptr = 0 then _ else rtFree cfg heap₁ holding.ptr >>= _) = _
    rw [if_neg hnull, hfree]
    rfl

/-- A chunk serves another request that it has room for. -/
theorem Valid.resize (hvalid : Valid cfg range usage heap live) (hmem : holding ∈ live)
    (hsmall : (heap.memusage (heap.btokup (holding.ptr / rtMmPageSize))).type ≠ .large)
    (hroom : request ≤ (heap.zone (zoneOf heap holding.ptr)).zChunksize) :
    Valid cfg range usage heap (⟨holding.ptr, request⟩ :: without live holding.ptr) := by
  obtain ⟨layout, hspare, hinv⟩ := hvalid
  have hlive : ∀ other ∈ live, other.ptr ∈ (⟨holding.ptr, request⟩ ::
      without live holding.ptr : List Holding).map Holding.ptr := by
    intro other hother
    by_cases heq : other.ptr = holding.ptr
    · simp [heq]
    · refine List.mem_cons_of_mem _ (List.mem_map_of_mem (List.mem_filter.2 ⟨hother, ?_⟩))
      simpa using heq
  refine ⟨layout, hspare, { hinv with large_live := ?_, nodup := ?_, home := ?_ }⟩
  · intro run hrun
    obtain ⟨other, hother, heq⟩ := hinv.large_live run hrun
    obtain ⟨other', hother', heq'⟩ := List.mem_map.1 (hlive other hother)
    exact ⟨other', hother', heq'.trans heq⟩
  · refine List.nodup_cons.2 ⟨?_, nodup_without hinv _⟩
    simp [without]
  · refine List.forall_mem_cons.2 ⟨?_, fun other hother =>
      hinv.home other (List.mem_filter.1 hother).1⟩
    rcases hinv.home holding hmem with ⟨z, i, hz, hi, hptr, hused, -⟩ | ⟨run, hrun, hptr, -⟩
    · rw [(hinv.locate_chunk hz hi hptr).2] at hroom
      exact .chunk z i hz hi hptr hused hroom
    · rw [hptr, hinv.locate_pages hrun] at hsmall
      exact absurd rfl hsmall

/-- A live pointer is resized in place, moved, or kept when there is no memory. -/
theorem rtRealloc_spec (hvalid : Valid cfg range usage heap live) (hmem : holding ∈ live)
    (hsize : size < cfg.wordSize) (hzero : size ≠ 0) :
    ∃ heap' nptr, rtRealloc cfg heap holding.ptr size = some (heap', nptr) ∧
      (nptr = 0 ∧ heap' = heap ∨ nptr ≠ 0 ∧
        Valid cfg range usage heap' (⟨nptr, size⟩ :: without live holding.ptr)) := by
  obtain ⟨layout, -, hinv⟩ := id hvalid
  have hnull := hinv.ptr_ne_zero hmem
  rw [rtRealloc, if_neg hnull, if_neg hzero]
  rcases hinv.home holding hmem with ⟨z, i, hz, hi, hptr, -, -⟩ | ⟨run, hrun, hptr, -⟩
  · obtain ⟨htype, hfound⟩ := hinv.locate_chunk hz hi hptr
    have hpage := (hinv.zones z hz).page_chunk hi
    rw [← hptr] at hpage
    have hcached : z ∉ layout.cached := fun hcached => hinv.not_live_of_cached hcached hmem hpage
    have hfits := le_zoneindex size
    rw [htype, hfound]
    dsimp only
    rw [if_pos (hinv.magic z hz hcached)]
    split
    · next hsame =>
        refine ⟨heap, holding.ptr, rfl, .inr ⟨hnull, hvalid.resize hmem ?_ ?_⟩⟩
        · rw [htype]
          decide
        · rw [hfound, hsame]
          exact hfits
    · refine moveBlock_spec hvalid hmem ?_ hfits
      have hword := cfg.word_large
      rcases Nat.lt_or_ge size 16384 with hlt | hge
      · have hle := (zoneindex_le (.inr rfl) (Nat.pos_of_ne_zero hzero) hlt).2
        omega
      · have hsame : (zoneindex size).2 = size := by
          simp only [zoneindex]
          split_ifs <;> omega
        omega
  · have hlocate := hinv.locate_pages hrun
    rw [← hptr] at hlocate
    rw [hlocate]
    exact moveBlock_spec hvalid hmem hsize le_rfl

theorem growZone_eq (limit : ℕ) : growZone limit 2 zallocMinZoneSize = 32768 ∨
    growZone limit 2 zallocMinZoneSize = 65536 ∨ growZone limit 2 zallocMinZoneSize = 131072 := by
  by_cases hfirst : zallocMinZoneSize < zallocMaxZoneSize ∧ zallocMinZoneSize <<< 1 < limit
  · rw [growZone, if_pos hfirst]
    by_cases hsecond : zallocMinZoneSize <<< 1 < zallocMaxZoneSize ∧
        zallocMinZoneSize <<< 1 <<< 1 < limit
    · rw [growZone, if_pos hsecond]
      exact .inr (.inr rfl)
    · rw [growZone, if_neg hsecond]
      exact .inr (.inl rfl)
  · rw [growZone, if_neg hfirst]
    exact .inl rfl

theorem params_of_growZone {limit : ℕ} (hstart : heap.heapStart = range.first)
    (hsize : heap.zoneSize = growZone limit 2 zallocMinZoneSize)
    (hlimit : heap.zoneLimit = min (heap.zoneSize / 4) zallocZoneLimit)
    (hcnt : heap.zonePageCnt = heap.zoneSize / rtMmPageSize) : Params range heap := by
  have hcases := growZone_eq limit
  simp only [zallocZoneLimit, rtMmPageSize] at hlimit hcnt
  refine ⟨hstart, ?_, ?_, ?_⟩
  · omega
  · omega
  · simp only [rtMmPageSize]
    omega

theorem memusagePages_bounds {npages : ℕ} (hpos : 0 < npages) :
    0 < memusagePages npages ∧ memusagePages npages ≤ npages := by
  simp only [memusagePages, roundUp, sizeofMemusage, rtMmPageSize]
  omega

theorem valid_rtSystemHeapInit {beginAddr endAddr : ℕ} {head : ℕ → PageHead}
    {memusage : ℕ → Memusage} {zone : ℕ → SlabZone} {cNext : ℕ → Option ℕ}
    (hinit : rtSystemHeapInit cfg beginAddr endAddr head memusage zone cNext = some heap) :
    ∃ usage, Valid cfg (heapRange cfg beginAddr endAddr) usage heap [] := by
  simp only [rtSystemHeapInit] at hinit
  generalize hrange : heapRange cfg beginAddr endAddr = range at hinit ⊢
  split at hinit
  · cases hpages : rtPageInit range.first range.count head with
    | error fault =>
      rw [hpages] at hinit
      contradiction
    | ok pages =>
      have hinv := inv_rtPageInit hpages
      have hcount : 0 < range.count := hinv.holds.separated.1 _ List.mem_cons_self
      obtain ⟨hpos, hle⟩ := memusagePages_bounds hcount
      rw [hpages, toOption_ok_bind] at hinit
      rcases hinv.alloc hpos with ⟨hshort, -⟩ | ⟨pages', first, runs, halloc, -, -, hinv'⟩
      · exact absurd (hshort _ List.mem_cons_self) (not_lt.2 hle)
      rw [halloc, toOption_ok_bind] at hinit
      cases hinit
      exact ⟨⟨first, memusagePages range.count⟩,
        ⟨[], [], [], fun _ => [], [], fun _ => []⟩, rfl, params_of_growZone rfl rfl rfl rfl,
        ⟨runs, hinv'⟩,
        ⟨fun _ => rfl, fun _ => List.nodup_nil, by simp, rfl, List.nodup_nil, by simp, rfl⟩,
        by simp, by simp, by simp, by simp, by simp, by simp, List.nodup_nil, by simp⟩
  · contradiction

theorem without_null (hvalid : Valid cfg range usage heap live) : without live 0 = live := by
  obtain ⟨layout, -, hinv⟩ := hvalid
  refine List.filter_eq_self.2 fun holding hmem => ?_
  simpa using hinv.ptr_ne_zero hmem

/-- No call fails, and every call keeps the heap valid. -/
theorem step_valid {st next : State} {act : Action} {event : Event}
    (hvalid : Valid cfg range usage st.heap st.live)
    (hstep : step cfg st act = some (next, event)) :
    event ≠ .faulted ∧ Valid cfg range usage next.heap next.live := by
  cases act with
  | malloc size =>
    simp only [step] at hstep
    split at hstep
    · next hsize =>
        obtain ⟨heap', ptr, hmalloc, hresult⟩ := rtMalloc_spec hvalid hsize le_rfl
        rw [hmalloc] at hstep
        cases hstep
        refine ⟨by simp, ?_⟩
        rcases hresult with ⟨rfl, rfl⟩ | ⟨hnull, hvalid'⟩
        · exact hvalid
        · dsimp only
          rwa [afterMalloc, if_neg hnull]
    · contradiction
  | realloc ptr size =>
    simp only [step] at hstep
    split at hstep
    · next hguard =>
        obtain ⟨hsize, rfl | ⟨holding, hmem, rfl⟩⟩ := hguard
        · obtain ⟨heap', nptr, hmalloc, hresult⟩ := rtMalloc_spec hvalid hsize le_rfl
          have hlive : without st.live 0 = st.live := without_null hvalid
          rw [rtRealloc, if_pos rfl, hmalloc] at hstep
          cases hstep
          refine ⟨by simp, ?_⟩
          rw [afterRealloc, hlive]
          rcases hresult with ⟨rfl, rfl⟩ | ⟨hnull, hvalid'⟩
          · rw [if_pos rfl, ite_self]
            exact hvalid
          · have hzero : size ≠ 0 := by
              rintro rfl
              exact hnull (Prod.mk.inj (Option.some.inj hmalloc)).2.symm
            rwa [if_neg hzero, if_neg hnull]
        · by_cases hzero : size = 0
          · obtain ⟨heap', hfree, hvalid'⟩ := rtFree_spec hvalid hmem
            obtain ⟨layout, -, hinv⟩ := hvalid
            rw [rtRealloc, if_neg (hinv.ptr_ne_zero hmem), if_pos hzero, hfree] at hstep
            cases hstep
            refine ⟨by simp, ?_⟩
            rwa [afterRealloc, if_pos hzero]
          · obtain ⟨heap', nptr, hrealloc, hresult⟩ := rtRealloc_spec hvalid hmem hsize hzero
            rw [hrealloc] at hstep
            cases hstep
            refine ⟨by simp, ?_⟩
            rw [afterRealloc, if_neg hzero]
            rcases hresult with ⟨rfl, rfl⟩ | ⟨hnull, hvalid'⟩
            · rwa [if_pos rfl]
            · rwa [if_neg hnull]
    · contradiction
  | free ptr =>
    simp only [step] at hstep
    split at hstep
    · next hholds =>
        rcases hholds with rfl | ⟨holding, hmem, rfl⟩
        · have hlive : without st.live 0 = st.live := without_null hvalid
          cases hstep
          refine ⟨by simp, ?_⟩
          rwa [hlive]
        · obtain ⟨heap', hfree, hvalid'⟩ := rtFree_spec hvalid hmem
          rw [hfree] at hstep
          cases hstep
          exact ⟨by simp, hvalid'⟩
    · contradiction

/-! ## What the zones say -/

/-- The lists of zones: `zone_free` and those of `zone_array`. -/
def Layout.list (layout : Layout) : Option ℕ → List ℕ
  | none => layout.cached
  | some zi => layout.array zi

/-- The entry of a live pointer in `memusage` leads `rt_free` to its zone, where it is a chunk
in use, or to its run of pages; either has room for the request. -/
inductive Located (heap : SlabHeap) (layout : Layout) (holding : Holding) : Prop
  | chunk (htype : (heap.memusage (heap.btokup (holding.ptr / rtMmPageSize))).type = .small)
      (hzone : zoneOf heap holding.ptr ∈ layout.zones)
      (hchunk : ∃ i ≤ (heap.zone (zoneOf heap holding.ptr)).zUindex,
        holding.ptr = (heap.zone (zoneOf heap holding.ptr)).zBaseptr +
          i * (heap.zone (zoneOf heap holding.ptr)).zChunksize)
      (hused : holding.ptr ∉ layout.chunks (zoneOf heap holding.ptr))
      (hroom : holding.request ≤ (heap.zone (zoneOf heap holding.ptr)).zChunksize)
  | pages (htype : (heap.memusage (heap.btokup (holding.ptr / rtMmPageSize))).type = .large)
      (hstart : holding.ptr % rtMmPageSize = 0)
      (hrun : ⟨holding.ptr / rtMmPageSize,
        (heap.memusage (heap.btokup (holding.ptr / rtMmPageSize))).size⟩ ∈ layout.large)
      (hroom : holding.request ≤
        (heap.memusage (heap.btokup (holding.ptr / rtMmPageSize))).size * rtMmPageSize)

/-- The zones, large allocations and the table share out the pages that are not free; the
lists of zones and of chunks are as in the layout; every zone counts its free chunks and is in
the list of its index as long as it has one and is not kept; no zone is in a list twice or in
two lists; and every live pointer is a block of its own. -/
structure Consistent (range usage : Extent) (st : State) (layout : Layout) : Prop where
  pages : ∃ runs, Inv range st.heap.pages
    (usage :: (layout.large ++ layout.zones.map fun z => ⟨z, st.heap.zonePageCnt⟩)) runs
  array_chain : ∀ zi, Chain st.heap.zNext (st.heap.zoneArray zi) (layout.array zi)
  cached_chain : Chain st.heap.zNext st.heap.zoneFree layout.cached
  chunks_chain : ∀ z ∈ layout.zones,
    Chain st.heap.cNext (st.heap.zone z).zFreechunk (layout.chunks z)
  nfree_eq : ∀ z ∈ layout.zones, (st.heap.zone z).zNfree =
    ((st.heap.zone z).zNmax - 1 - (st.heap.zone z).zUindex) + (layout.chunks z).length
  array_iff : ∀ z ∈ layout.zones, ∀ zi, z ∈ layout.array zi ↔
    (st.heap.zone z).zZoneindex = zi ∧ 0 < (st.heap.zone z).zNfree ∧ z ∉ layout.cached
  list_zone : ∀ which, ∀ z ∈ layout.list which, z ∈ layout.zones
  list_nodup : ∀ which, (layout.list which).Nodup
  list_unique : ∀ which which' z, z ∈ layout.list which → z ∈ layout.list which' → which = which'
  live_nodup : (st.live.map Holding.ptr).Nodup
  located : ∀ holding ∈ st.live, Located st.heap layout holding

theorem SlabInv.located {layout : Layout} (hinv : SlabInv cfg range usage heap layout live)
    (hmem : holding ∈ live) : Located heap layout holding := by
  rcases hinv.home holding hmem with ⟨z, i, hz, hi, hptr, hused, hroom⟩ | ⟨run, hrun, hptr, hroom⟩
  · obtain ⟨htype, hfound⟩ := hinv.locate_chunk hz hi hptr
    subst hfound
    exact .chunk htype hz ⟨i, hi, hptr⟩ hused hroom
  · have hlocate := hinv.locate_pages hrun
    rw [← hptr] at hlocate
    have hpage : holding.ptr / rtMmPageSize = run.first := by
      rw [hptr, Nat.mul_div_cancel _ (by decide)]
    refine .pages (by rw [hlocate]) (by rw [hptr]; exact Nat.mul_mod_left ..) ?_
      (by rw [hlocate]; exact hroom)
    rw [hlocate, hpage]
    exact hrun

theorem SlabInv.consistent {st : State} {layout : Layout} (hspare : layout.spare = [])
    (hinv : SlabInv cfg range usage st.heap layout st.live) :
    Consistent range usage st layout where
  pages := by
    have hpages := hinv.pages
    rwa [Layout.held, hspare] at hpages
  array_chain := hinv.lists.array_chain
  cached_chain := hinv.lists.cached_chain
  chunks_chain z hz := (hinv.zones z hz).chain
  nfree_eq z hz := by
    have hcount := (hinv.zones z hz).nfree_eq
    have hlt := (hinv.zones z hz).uindex_lt
    omega
  array_iff z hz zi := by
    rw [hinv.lists.array_mem, and_iff_right hz]
  list_zone which z hz := by
    cases which with
    | none => exact hinv.lists.cached_zone z hz
    | some zi => exact ((hinv.lists.array_mem zi z).1 hz).1
  list_nodup which := by
    cases which with
    | none => exact hinv.lists.cached_nodup
    | some zi => exact hinv.lists.array_nodup zi
  list_unique which which' z hz hz' := by
    cases which with
    | none =>
      cases which' with
      | none => rfl
      | some zi => exact absurd hz ((hinv.lists.array_mem zi z).1 hz').2.2.2
    | some zi =>
      have hindex := ((hinv.lists.array_mem zi z).1 hz)
      cases which' with
      | none => exact absurd hz' hindex.2.2.2
      | some zi' => rw [← hindex.2.1, ← ((hinv.lists.array_mem zi' z).1 hz').2.1]
  live_nodup := hinv.nodup
  located _ hmem := hinv.located hmem

/-- A zone is in some list exactly when it has a free chunk. -/
theorem SlabInv.listed_iff {layout : Layout} {z : ℕ}
    (hinv : SlabInv cfg range usage heap layout live) (hz : z ∈ layout.zones) :
    (∃ which, z ∈ layout.list which) ↔ 0 < (heap.zone z).zNfree := by
  constructor
  · rintro ⟨which, hmem⟩
    cases which with
    | none =>
      have hfree := hinv.cached_free z hmem
      have hlt := (hinv.zones z hz).uindex_lt
      omega
    | some zi => exact ((hinv.lists.array_mem zi z).1 hmem).2.2.1
  · intro hpos
    by_cases hcached : z ∈ layout.cached
    · exact ⟨none, hcached⟩
    · exact ⟨some _, (hinv.lists.array_mem _ z).2 ⟨hz, rfl, hpos, hcached⟩⟩

/-- After every sequence of calls on live pointers no call has failed, the zones are
consistent, and a zone is in exactly one list if it has a free chunk and in none otherwise. -/
theorem zones_consistent {beginAddr endAddr : ℕ} {head : ℕ → PageHead}
    {memusage : ℕ → Memusage} {zone : ℕ → SlabZone} {cNext : ℕ → Option ℕ}
    (hinit : rtSystemHeapInit cfg beginAddr endAddr head memusage zone cNext = some heap)
    {trace : List (Action × Event)} {last : State}
    (hrun : (machine cfg).Run ⟨heap, []⟩ trace last) :
    (∀ entry ∈ trace, entry.2 ≠ .faulted) ∧
      ∃ usage layout, Consistent (heapRange cfg beginAddr endAddr) usage last layout ∧
        ∀ z ∈ layout.zones,
          (∃ which, z ∈ layout.list which) ↔ 0 < (last.heap.zone z).zNfree := by
  obtain ⟨usage, hvalid⟩ := valid_rtSystemHeapInit hinit
  have hall : (∀ entry ∈ trace, entry.2 ≠ .faulted) ∧
      Valid cfg (heapRange cfg beginAddr endAddr) usage last.heap last.live := by
    refine hrun.traceInvariant (fun trace state => (∀ entry ∈ trace, entry.2 ≠ .faulted) ∧
      Valid cfg (heapRange cfg beginAddr endAddr) usage state.heap state.live) ?_
      ⟨by simp, hvalid⟩
    rintro past state action next event ⟨hpast, hvalid⟩ - hstep
    obtain ⟨hevent, hvalid'⟩ := step_valid hvalid hstep
    refine ⟨fun entry hentry => ?_, hvalid'⟩
    rcases List.mem_append.1 hentry with hentry | hentry
    · exact hpast entry hentry
    · obtain rfl := List.mem_singleton.1 hentry
      exact hevent
  obtain ⟨hevents, layout, hspare, hinv⟩ := hall
  exact ⟨hevents, usage, layout, hinv.consistent hspare, fun z hz => hinv.listed_iff hz⟩

/-- The start of a heap of 64 pages, whose first page becomes the table. -/
def init32 : Option SlabHeap :=
  rtSystemHeapInit config32 0x10000 0x50000 (fun _ => ⟨0, 0⟩) (fun _ => ⟨.free, 0⟩)
    (fun _ => ⟨0, 0, 0, none, 0, 0, 0, 0, none⟩) fun _ => none

theorem isSome_init32 : init32.isSome = true := by decide

def heap32 : SlabHeap :=
  init32.get isSome_init32

theorem rtSystemHeapInit_heap32 :
    rtSystemHeapInit config32 0x10000 0x50000 (fun _ => ⟨0, 0⟩) (fun _ => ⟨.free, 0⟩)
      (fun _ => ⟨0, 0, 0, none, 0, 0, 0, 0, none⟩) (fun _ => none) = some heap32 :=
  (Option.some_get isSome_init32).symm

/-- A zone is filled, a chunk of another one and a large block are resized, and the first
chunk is freed. -/
def schedule32 : List Action :=
  [.malloc 8000, .malloc 8000, .malloc 8000, .malloc 100, .malloc 10000, .realloc 0x19028 200,
    .realloc 0x21000 20000, .free 0x13000]

theorem isSome_schedule32 :
    ((machine config32).exec (fun _ _ => True) ⟨heap32, []⟩ schedule32).isSome = true := by
  decide +kernel

theorem zones_consistent_schedule32 :
    ∃ trace last, (machine config32).Run ⟨heap32, []⟩ trace last ∧ trace.length = 8 ∧
      ∃ usage layout, Consistent (heapRange config32 0x10000 0x50000) usage last layout ∧
        ∀ z ∈ layout.zones,
          (∃ which, z ∈ layout.list which) ↔ 0 < (last.heap.zone z).zNfree := by
  have hrun := Machine.runWith_of_isSome schedule32 isSome_schedule32
  have hlength := congrArg List.length (Machine.actions_of_isSome schedule32 isSome_schedule32)
  rw [List.length_map] at hlength
  exact ⟨_, _, hrun, hlength, (zones_consistent rtSystemHeapInit_heap32 hrun).2⟩

/-- The three chunks of a zone are taken. -/
def scheduleFull : List Action :=
  [.malloc 8000, .malloc 8000, .malloc 8000]

theorem isSome_scheduleFull :
    ((machine config32).exec (fun _ _ => True) ⟨heap32, []⟩ scheduleFull).isSome = true := by
  decide +kernel

/-- A zone whose chunks are all in use is in no list. -/
theorem not_exactly_one_list :
    ∃ trace last, (machine config32).Run ⟨heap32, []⟩ trace last ∧
      trace.map Prod.fst = [.malloc 8000, .malloc 8000, .malloc 8000] ∧
      ¬ ∃ usage layout, Consistent (heapRange config32 0x10000 0x50000) usage last layout ∧
        ∀ z ∈ layout.zones, ∃! which, z ∈ layout.list which := by
  have hrun := Machine.runWith_of_isSome scheduleFull isSome_scheduleFull
  refine ⟨_, _, hrun, Machine.actions_of_isSome scheduleFull isSome_scheduleFull, ?_⟩
  rintro ⟨usage, layout, hconsistent, hone⟩
  generalize hlast : ((machine config32).exec (fun _ _ => True) ⟨heap32, []⟩ scheduleFull).get
    isSome_scheduleFull = result at *
  obtain ⟨hlive, htype, hfull, hfree⟩ : (⟨0x13000, 8000⟩ : Holding) ∈ result.1.live ∧
      (result.1.heap.memusage (result.1.heap.btokup (0x13000 / rtMmPageSize))).type = .small ∧
      (result.1.heap.zone (zoneOf result.1.heap 0x13000)).zNfree = 0 ∧
      result.1.heap.zoneFree = none := by
    rw [← hlast]
    decide +kernel
  have hz : zoneOf result.1.heap 0x13000 ∈ layout.zones := by
    rcases hconsistent.located _ hlive with ⟨-, hz, -, -, -⟩ | ⟨hlarge, -, -, -⟩
    · exact hz
    · exact absurd (htype.symm.trans hlarge) (by decide)
  obtain ⟨which, hmem, -⟩ := hone _ hz
  cases which with
  | none =>
    have hempty := hconsistent.cached_chain.start_eq_none_iff.1 hfree
    simp [Layout.list, hempty] at hmem
  | some zi =>
    have hpos := ((hconsistent.array_iff _ hz zi).1 hmem).2.1
    omega

end RtThread.Slab
