import RtThread.Heap.SlabZones

set_option linter.all false

/-!
# The pages of the slab allocator

A call of the slab allocator takes a few steps on its pages: a zone is acquired, laid out,
retired or released, and pages become a large allocation or are given back.  Each step keeps
the invariant.  Between two of them a zone may be spare, which means that its pages are held
for no zone.
-/

namespace RtThread.Slab

open Function
open RtThread.Core RtThread.PageAlloc

variable {cfg : SlabConfig} {range usage : Extent} {heap heap' : SlabHeap} {layout : Layout}
variable {live : List Holding} {z zi : ℕ}

/-! ## Zones -/

section Zones

variable (hinv : SlabInv cfg range usage heap layout live)

include hinv

theorem nodup_zones : (layout.spare ++ layout.zones).Nodup := by
  obtain ⟨runs, hpages⟩ := hinv.pages
  have hnodup := (List.nodup_cons.1 hpages.nodup).2
  exact ((List.nodup_append.1 hnodup).2.1).of_map

/-- A zone begins below the end of the range, so that a list of zones is no longer. -/
theorem length_array_le (zi : ℕ) : (layout.array zi).length ≤ heap.pages.stop + 1 := by
  have hbound : (layout.array zi).toFinset ⊆ Finset.range heap.pages.stop := by
    intro z hz
    obtain ⟨hzone, -⟩ := (hinv.lists.array_mem zi z).1 (List.mem_toFinset.1 hz)
    obtain ⟨runs, hpages⟩ := hinv.pages
    have hle := (hpages.mem_range (held_zone (List.mem_append_right _ hzone) _)).2
    have hcnt := hinv.zonePageCnt_pos
    rw [Finset.mem_range, hpages.stop_eq]
    simp only [Extent.stop] at hle ⊢
    omega
  have hcard := Finset.card_le_card hbound
  rw [List.toFinset_card_of_nodup (hinv.lists.array_nodup zi), Finset.card_range] at hcard
  omega

theorem retireZone_spec (hz : z ∈ layout.array (heap.zone z).zZoneindex)
    (hfree : (heap.zone z).zNfree = (heap.zone z).zNmax) :
    ∃ heap' array, retireZone heap z = some heap' ∧
      SlabInv cfg range usage heap' { layout with array := array, cached := z :: layout.cached }
        live := by
  obtain ⟨heap', hretire, hlists, hheap, hself, hothers⟩ :=
    hinv.lists.retire hz (length_array_le hinv _)
  have hcNext : heap'.cNext = heap.cNext := by rw [hheap]
  have hcnt : heap'.zonePageCnt = heap.zonePageCnt := by rw [hheap]
  obtain ⟨hzone, -, -, hcached⟩ := (hinv.lists.array_mem _ z).1 hz
  -- only the magic number and the links are written
  have hsame : ∀ other, (heap'.zone other).zBaseptr = (heap.zone other).zBaseptr ∧
      (heap'.zone other).zChunksize = (heap.zone other).zChunksize ∧
      (heap'.zone other).zUindex = (heap.zone other).zUindex ∧
      (heap'.zone other).zNfree = (heap.zone other).zNfree ∧
      (heap'.zone other).zNmax = (heap.zone other).zNmax ∧
      (other ≠ z → (heap'.zone other).zMagic = (heap.zone other).zMagic) := by
    intro other
    by_cases hne : other = z
    · subst hne
      rw [SlabZone.unlinked, SlabZone.unlinked, SlabZone.mk.injEq] at hself
      obtain ⟨-, hnfree, hnmax, -, hbase, huindex, hsize, -, -⟩ := hself
      exact ⟨hbase, hsize, huindex, hnfree, hnmax, fun hne => absurd rfl hne⟩
    · have hother := hothers other hne
      rw [SlabZone.unlinked, SlabZone.unlinked, SlabZone.mk.injEq] at hother
      obtain ⟨hmagic, hnfree, hnmax, -, hbase, huindex, hsize, -, -⟩ := hother
      exact ⟨hbase, hsize, huindex, hnfree, hnmax, fun _ => hmagic⟩
  refine ⟨heap', _, hretire, ?_, ?_, hlists, fun other hother => ?_, fun other hother hnot => ?_,
    fun other hother => ?_, ?_, ?_, hinv.large_live, hinv.nodup, fun holding hmem => ?_⟩
  · rw [hheap]
    exact ⟨hinv.params.1, hinv.params.2, hinv.params.3, hinv.params.4⟩
  · rw [hheap]
    exact hinv.pages
  · have hok := hinv.zones other hother
    have hok' := hok.congr hcnt (by rw [hcNext]; exact hok.chain)
    rw [← ZoneOk.unlinked_iff] at hok' ⊢
    by_cases hne : other = z
    · subst hne
      rw [hself]
      exact ⟨hok'.1, hok'.2, hok'.3, hok'.4, hok'.5, hok'.6, hok'.7, hok'.8, hok'.9⟩
    · rwa [hothers other hne]
  · rw [List.mem_cons, not_or] at hnot
    rw [(hsame other).2.2.2.2.2 hnot.1]
    exact hinv.magic other hother hnot.2
  · obtain ⟨-, -, -, hnfree, hnmax, -⟩ := hsame other
    rw [hnfree, hnmax]
    rcases List.mem_cons.1 hother with rfl | hother
    · exact hfree
    · exact hinv.cached_free other hother
  · rw [hheap]
    exact hinv.small
  · rw [hheap]
    exact hinv.large
  · refine (hinv.home holding hmem).mono (fun z' hz' => ⟨hz', ?_⟩) fun _ hrun => hrun
    obtain ⟨hbase, hsize, huindex, -⟩ := hsame z'
    exact ⟨hbase, hsize, huindex.ge, id⟩

theorem popZone_spec {rest : List ℕ} (hspare : layout.spare = [])
    (hcached : layout.cached = z :: rest) :
    SlabInv cfg range usage (popZone heap z)
      { layout with zones := layout.zones.erase z, spare := [z], cached := rest } live := by
  have hlists := hinv.lists
  rw [hcached] at hlists
  have hz : z ∈ layout.zones := hlists.cached_zone z List.mem_cons_self
  have hnodup := nodup_zones hinv
  rw [hspare, List.nil_append] at hnodup
  have hzones : ∀ other, other ∈ layout.zones.erase z ↔ other ≠ z ∧ other ∈ layout.zones :=
    fun other => hnodup.mem_erase_iff
  have hperm : (layout.spare ++ layout.zones).Perm ([z] ++ layout.zones.erase z) := by
    rw [hspare]
    exact List.perm_cons_erase hz
  obtain ⟨runs, hpages⟩ := hinv.pages
  refine ⟨⟨hinv.params.1, hinv.params.2, hinv.params.3, hinv.params.4⟩,
    ⟨runs, hpages.perm ((hperm.map _).append_left _ |>.cons _)⟩, hlists.popZone hzones,
    fun other hother => ?_, fun other hother hnot => ?_, fun other hother => ?_,
    fun other hother => hinv.small other (hperm.mem_iff.2 hother), hinv.large, hinv.large_live,
    hinv.nodup, fun holding hmem => ?_⟩
  · have hok := hinv.zones other ((hzones other).1 hother).2
    exact hok.congr rfl hok.chain
  · obtain ⟨hne, hother⟩ := (hzones other).1 hother
    refine hinv.magic other hother ?_
    rw [hcached, List.mem_cons, not_or]
    exact ⟨hne, hnot⟩
  · refine hinv.cached_free other ?_
    rw [hcached]
    exact List.mem_cons_of_mem _ hother
  · rcases hinv.home holding hmem with ⟨z', i, hz', hi, hptr, hused, hroom⟩
      | ⟨run, hrun, hptr, hroom⟩
    · refine .chunk z' i ((hzones z').2 ⟨?_, hz'⟩) hi hptr hused hroom
      rintro rfl
      have hpage := (hinv.zones z' hz').page_chunk hi
      rw [← hptr] at hpage
      exact hinv.not_live_of_cached (by rw [hcached]; exact List.mem_cons_self) hmem hpage
    · exact .pages run hrun hptr hroom

omit hinv in
theorem setUsage_apply (memusage : ℕ → Memusage) (kup count : ℕ) (usage : ℕ → Memusage)
    (entry : ℕ) : setUsage memusage kup usage count entry =
      if kup ≤ entry ∧ entry < kup + count then usage (entry - kup) else memusage entry := by
  induction count with
  | zero =>
    rw [setUsage, if_neg (by omega)]
  | succ count ih =>
    rw [setUsage]
    by_cases hentry : entry = kup + count
    · subst hentry
      rw [update_self, if_pos (by omega), Nat.add_sub_cancel_left]
    · rw [update_of_ne hentry, ih]
      congr 1
      exact propext (by omega)

/-- The entries of the pages outside a zone are not written with those of the zone. -/
theorem setUsage_of_not_mem {page : ℕ} (entries : ℕ → Memusage) (hz : range.first ≤ z)
    (hpage : range.first ≤ page) (hnot : ¬ (z ≤ page ∧ page < z + heap.zonePageCnt)) :
    setUsage heap.memusage (heap.btokup z) entries heap.zonePageCnt (heap.btokup page) =
      heap.memusage (heap.btokup page) := by
  have hstart := hinv.params.heapStart_eq
  rw [setUsage_apply, if_neg]
  simp only [SlabHeap.btokup]
  omega

/-- A held run lies outside a run that is taken in addition. -/
theorem apart_of_alloc {pages : PageHeap} {runs : List Extent} {taken run : Extent} {page : ℕ}
    (hpages : Inv range pages (taken :: layout.held usage heap.zonePageCnt) runs)
    (hrun : run ∈ layout.held usage heap.zonePageCnt) (hpage : page ∈ run.cells) :
    page ∉ taken.cells ∧ range.first ≤ page := by
  have hapart := (List.pairwise_cons.1 hpages.parts.live_disjoint).1 run hrun
  exact ⟨fun htaken => Set.disjoint_left.1 hapart htaken hpage,
    (hinv.range_le hrun).2.1.trans hpage.1⟩

omit hinv in
theorem page_zone_mem {off : ℕ} (hoff : off < heap.zonePageCnt) :
    z + off ∈ (⟨z, heap.zonePageCnt⟩ : Extent).cells := by
  simp only [Extent.mem_cells, Extent.stop]
  omega

omit hinv in
theorem toOption_ok_bind {Value Result : Type} (value : Value) (rest : Value → Option Result) :
    ((Except.ok value : Except SmallMem.Fault Value).toOption >>= rest) = rest value := rfl

theorem zoneSize_div : heap.zoneSize / rtMmPageSize = heap.zonePageCnt := by
  rw [hinv.params.zoneSize_eq, Nat.mul_div_cancel _ (by decide)]

/-- With no zone kept, the pages of a zone are asked for and marked as its own. -/
theorem acquireZone_of_zoneFree_eq_none {pages : PageHeap} (hfree : heap.zoneFree = none)
    (halloc : rtPageAlloc heap.pages heap.zonePageCnt = .ok (pages, z)) :
    acquireZone heap = some (if z = 0 then ({ heap with pages := pages }, 0) else
      ({ heap with
          pages := pages
          memusage := setUsage heap.memusage (heap.btokup z) (fun off => ⟨.small, off⟩)
            heap.zonePageCnt }, z)) := by
  rw [acquireZone]
  split
  · next hsome =>
      rw [hfree] at hsome
      contradiction
  · rw [zoneSize_div hinv, halloc, toOption_ok_bind]
    by_cases hnull : z = 0
    · rw [if_pos hnull]
      exact if_pos hnull
    · rw [if_neg hnull]
      exact if_neg hnull

/-- A zone is kept or comes from the page allocator, if there is one. -/
theorem acquireZone_spec (hspare : layout.spare = []) :
    ∃ heap' z, acquireZone heap = some (heap', z) ∧ heap'.zoneLimit = heap.zoneLimit ∧
      ((z = 0 ∧ heap' = heap) ∨ z ≠ 0 ∧ ∃ layout', layout'.spare = [z] ∧
        SlabInv cfg range usage heap' layout' live) := by
  cases hcached : layout.cached with
  | cons z rest =>
    have hchain := hinv.lists.cached_chain
    rw [hcached] at hchain
    have hz := hinv.lists.cached_zone z (by rw [hcached]; exact List.mem_cons_self)
    obtain ⟨hpos, hfirst, -⟩ := hinv.range_le (held_zone (List.mem_append_right _ hz) _)
    have hnull : z ≠ 0 := Nat.ne_of_gt (hpos.trans_le hfirst)
    rw [acquireZone, hchain.1]
    exact ⟨_, z, rfl, rfl, .inr ⟨hnull, _, rfl, popZone_spec hinv hspare hcached⟩⟩
  | nil =>
    have hchain := hinv.lists.cached_chain
    rw [hcached] at hchain
    obtain ⟨runs, hpages⟩ := hinv.pages
    rcases hpages.alloc hinv.zonePageCnt_pos with
      ⟨-, halloc⟩ | ⟨pages, z, runs', halloc, hnull, -, hpages'⟩
    · exact ⟨heap, 0, acquireZone_of_zoneFree_eq_none hinv hchain halloc, rfl, .inl ⟨rfl, rfl⟩⟩
    · have hz : range.first ≤ z := (hpages'.mem_range List.mem_cons_self).1
      have hkept : ∀ run ∈ layout.held usage heap.zonePageCnt, ∀ page ∈ run.cells,
          setUsage heap.memusage (heap.btokup z) (fun off => ⟨.small, off⟩) heap.zonePageCnt
            (heap.btokup page) = heap.memusage (heap.btokup page) := by
        intro run hrun page hpage
        obtain ⟨hnot, hfirst⟩ := apart_of_alloc hinv hpages' hrun hpage
        exact setUsage_of_not_mem hinv _ hz hfirst hnot
      have hacquire := acquireZone_of_zoneFree_eq_none hinv hchain halloc
      rw [if_neg hnull] at hacquire
      refine ⟨_, z, hacquire, rfl, .inr ⟨hnull, { layout with spare := [z] }, rfl, ?_⟩⟩
      refine ⟨⟨hinv.params.1, hinv.params.2, hinv.params.3, hinv.params.4⟩, ⟨runs', ?_⟩,
        hinv.lists.congr rfl rfl rfl rfl fun _ _ => ⟨rfl, Iff.rfl⟩,
        fun other hother => (hinv.zones other hother).congr rfl (hinv.zones other hother).chain,
        hinv.magic, hinv.cached_free, fun other hother off hoff => ?_, fun run hrun => ?_,
        hinv.large_live, hinv.nodup, fun holding hmem =>
          (hinv.home holding hmem).mono (fun _ hz => ⟨hz, rfl, rfl, le_rfl, id⟩) fun _ h => h⟩
      · refine hpages'.perm ?_
        rw [Layout.held, Layout.held, hspare]
        exact (List.Perm.swap ..).trans (List.perm_middle.symm.cons _)
      · rcases List.mem_cons.1 hother with rfl | hother
        · have hstart := hinv.params.heapStart_eq
          have hoff : off < heap.zonePageCnt := hoff
          change setUsage _ _ _ _ (other + off - heap.heapStart) = _
          rw [setUsage_apply, if_pos (by simp only [SlabHeap.btokup]; omega)]
          simp only [SlabHeap.btokup, Memusage.mk.injEq, true_and]
          omega
        · have hother' : other ∈ layout.spare ++ layout.zones := by
            rw [hspare]
            exact hother
          exact (hkept _ (held_zone hother' _) _ (page_zone_mem hoff)).trans
            (hinv.small other hother' off hoff)
      · have hrun : run ∈ layout.large := hrun
        exact (hkept run (held_large hrun _) _ (hinv.first_mem_cells hrun)).trans
          (hinv.large run hrun)

/-- The first zone of `zone_free` goes back to the page allocator. -/
theorem releaseZone_spec (hspare : layout.spare = []) (hcached : layout.cached ≠ []) :
    ∃ heap' layout', releaseZone heap = some heap' ∧ layout'.spare = [] ∧
      SlabInv cfg range usage heap' layout' live := by
  obtain ⟨z, rest, hcached⟩ := List.exists_cons_of_ne_nil hcached
  have hchain := hinv.lists.cached_chain
  rw [hcached] at hchain
  have hpop := popZone_spec hinv hspare hcached
  obtain ⟨runs, hpages⟩ := hpop.pages
  have hspare' : z ∈ [z] ++ layout.zones.erase z := List.mem_cons_self
  have hz : range.first ≤ z := (hpop.range_le (held_zone hspare' _)).2.1
  obtain ⟨pages, hfree, hpages'⟩ := hpages.free (held_zone hspare' _)
  obtain ⟨hnot, -⟩ := List.nodup_cons.1 (nodup_zones hpop)
  let layout' : Layout :=
    { layout with zones := layout.zones.erase z, spare := [], cached := rest }
  -- the other runs are outside the zone
  have hkept : ∀ run ∈ layout'.held usage heap.zonePageCnt, ∀ page ∈ run.cells,
      run ≠ ⟨z, heap.zonePageCnt⟩ → setUsage heap.memusage (heap.btokup z) (fun _ => ⟨.free, 0⟩)
        heap.zonePageCnt (heap.btokup page) = heap.memusage (heap.btokup page) := by
    intro run hrun page hpage hne
    have hrun' : run ∈ Layout.held
        { layout with zones := layout.zones.erase z, spare := [z], cached := rest } usage
        heap.zonePageCnt := by
      rcases List.mem_cons.1 hrun with rfl | hrun
      · exact List.mem_cons_self
      · rcases List.mem_append.1 hrun with hrun | hrun
        · exact List.mem_cons_of_mem _ (List.mem_append_left _ hrun)
        · exact List.mem_cons_of_mem _ (List.mem_append_right _ (List.mem_cons_of_mem _ hrun))
    refine setUsage_of_not_mem hinv _ hz ((hpop.range_le hrun').2.1.trans hpage.1) fun hin => ?_
    exact hne (hpages.eq_of_mem hrun' (held_zone hspare' _) hpage hin)
  refine ⟨{ popZone heap z with
      memusage := setUsage heap.memusage (heap.btokup z) (fun _ => ⟨.free, 0⟩) heap.zonePageCnt
      pages := pages }, layout', ?_, rfl, ?_⟩
  · have hfree' : rtPageFree (popZone heap z).pages z heap.zonePageCnt = .ok pages := hfree
    rw [releaseZone, hchain.1]
    change (rtPageFree (popZone heap z).pages z (heap.zoneSize / rtMmPageSize)).toOption >>= _ = _
    rw [zoneSize_div hinv, hfree', toOption_ok_bind]
    rfl
  refine ⟨⟨hinv.params.1, hinv.params.2, hinv.params.3, hinv.params.4⟩, ⟨_, hpages'.perm ?_⟩,
    hpop.lists.congr rfl rfl rfl rfl fun _ _ => ⟨rfl, Iff.rfl⟩,
    fun other hother => (hpop.zones other hother).congr rfl (hpop.zones other hother).chain,
    hpop.magic, hpop.cached_free, fun other hother off hoff => ?_, fun run hrun => ?_,
    hpop.large_live, hpop.nodup, fun holding hmem =>
      (hpop.home holding hmem).mono (fun _ hz => ⟨hz, rfl, rfl, le_rfl, id⟩) fun _ h => h⟩
  · have hperm : (Layout.held
        { layout with zones := layout.zones.erase z, spare := [z], cached := rest } usage
        heap.zonePageCnt).Perm (⟨z, heap.zonePageCnt⟩ :: layout'.held usage heap.zonePageCnt) :=
      (List.perm_middle.cons _).trans (List.Perm.swap ..)
    have herase := hperm.erase ⟨z, heap.zonePageCnt⟩
    rwa [List.erase_cons_head] at herase
  · have hother : other ∈ layout.zones.erase z := hother
    refine (hkept _ (held_zone hother _) _ (page_zone_mem hoff) ?_).trans
      (hpop.small other (List.mem_cons_of_mem _ hother) off hoff)
    rintro heq
    obtain rfl : other = z := congrArg Extent.first heq
    exact hnot hother
  · refine (hkept run (held_large hrun _) _ (hinv.first_mem_cells hrun) ?_).trans
      (hinv.large run hrun)
    rintro rfl
    exact hpop.not_mem_large hspare' hrun ⟨le_rfl, Nat.lt_add_of_pos_right hpop.zonePageCnt_pos⟩
      (hinv.first_mem_cells hrun)

theorem two_le_nmax {size : ℕ} (hpos : 0 < size) (hle : size ≤ heap.zoneLimit) :
    2 ≤ (heap.zoneSize - chunkOffset cfg size) / size := by
  obtain ⟨-, hoff⟩ := chunkOffset_bounds cfg hpos
  have hsizeof := cfg.sizeof_le
  have hlimit := hinv.params.limit_eq
  have hzone := hinv.params.limit_le
  rw [Nat.le_div_iff_mul_le hpos]
  simp only [minChunkSize] at hoff
  omega

/-- A spare zone is laid out, and its first chunk becomes live. -/
theorem initZone_spec {request : ℕ} (hspare : layout.spare = [z]) (hpos : 0 < chunkSizeOf zi)
    (hle : chunkSizeOf zi ≤ heap.zoneLimit) (hroom : request ≤ chunkSizeOf zi) :
    ∃ layout', layout'.spare = [] ∧ SlabInv cfg range usage
      (initZone cfg heap zi z (chunkSizeOf zi)) layout'
      (⟨((initZone cfg heap zi z (chunkSizeOf zi)).zone z).zBaseptr, request⟩ :: live) := by
  have hnmax := two_le_nmax hinv hpos hle
  have hnodup := nodup_zones hinv
  rw [hspare] at hnodup
  have hz : z ∉ layout.zones := (List.nodup_cons.1 hnodup).1
  have hcached : z ∉ layout.cached := fun hcached => hz (hinv.lists.cached_zone z hcached)
  have hspare' : z ∈ layout.spare ++ layout.zones := by
    rw [hspare]
    exact List.mem_cons_self
  let zone : SlabZone := {
    zMagic := zallocSlabMagic
    zNfree := (heap.zoneSize - chunkOffset cfg (chunkSizeOf zi)) / chunkSizeOf zi - 1
    zNmax := (heap.zoneSize - chunkOffset cfg (chunkSizeOf zi)) / chunkSizeOf zi
    zNext := heap.zoneArray zi
    zBaseptr := z * rtMmPageSize + chunkOffset cfg (chunkSizeOf zi)
    zUindex := 0
    zChunksize := chunkSizeOf zi
    zZoneindex := zi
    zFreechunk := none }
  have hself : (initZone cfg heap zi z (chunkSizeOf zi)).zone z = zone := zone_setZone_self ..
  have hothers : ∀ other ≠ z, (initZone cfg heap zi z (chunkSizeOf zi)).zone other =
      heap.zone other := fun other hne => zone_setZone_of_ne heap _ hne
  have hzone : ZoneOk cfg heap z zone [] := by
    have hfits := Nat.div_mul_le_self (heap.zoneSize - chunkOffset cfg (chunkSizeOf zi))
      (chunkSizeOf zi)
    have hsize := hinv.params.zoneSize_eq
    have hoff' : chunkOffset cfg (chunkSizeOf zi) ≤ heap.zoneSize := by
      by_contra hlt
      rw [Nat.sub_eq_zero_of_le (by omega), Nat.zero_div] at hnmax
      omega
    refine ⟨hpos, rfl, rfl, ?_, ?_, ?_, rfl, List.nodup_nil, by simp⟩
    · dsimp only [zone]
      rw [Nat.add_mul, ← hsize]
      omega
    · dsimp only [zone]
      omega
    · dsimp only [zone]
      rw [List.length_nil]
      omega
  have hfresh : zone.zBaseptr ∉ live.map Holding.ptr := by
    intro hmem
    obtain ⟨other, hother, heq⟩ := List.mem_map.1 hmem
    have hpage := hzone.page_chunk (Nat.zero_le _)
    rw [Nat.zero_mul, Nat.add_zero, ← heq] at hpage
    exact hz (hinv.home_chunk hspare' hother hpage).1
  have hzones : ∀ other ∈ z :: layout.zones, other ≠ z → other ∈ layout.zones := by
    intro other hother hne
    exact (List.mem_cons.1 hother).resolve_left hne
  refine ⟨{ layout with
      zones := z :: layout.zones
      spare := []
      array := update layout.array zi (z :: layout.array zi)
      chunks := update layout.chunks z [] }, rfl, ?_⟩
  rw [hself]
  refine ⟨⟨hinv.params.1, hinv.params.2, hinv.params.3, hinv.params.4⟩, ?_,
    hinv.lists.push hcached (fun hmem => absurd hmem hz) ?_ rfl (fun other hne => ?_)
      List.mem_cons_self rfl, fun other hother => ?_, fun other hother hnot => ?_,
    fun other hother => ?_, fun other hother => ?_, hinv.large, fun run hrun => ?_,
    List.nodup_cons.2 ⟨hfresh, hinv.nodup⟩, List.forall_mem_cons.2 ⟨?_, fun other hother => ?_⟩⟩
  · obtain ⟨runs, hpages⟩ := hinv.pages
    refine ⟨runs, ?_⟩
    rw [Layout.held, hspare] at hpages
    exact hpages
  · dsimp only
    omega
  · simp [hne]
  · dsimp only
    by_cases hne : other = z
    · subst hne
      rw [update_self, hself]
      exact hzone.congr rfl hzone.chain
    · rw [update_of_ne hne, hothers other hne]
      have hother' := hinv.zones other (hzones other hother hne)
      exact hother'.congr rfl hother'.chain
  · by_cases hne : other = z
    · subst hne
      rw [hself]
    · rw [hothers other hne]
      exact hinv.magic other (hzones other hother hne) hnot
  · rw [hothers other fun heq => hcached (heq ▸ hother)]
    exact hinv.cached_free other hother
  · refine hinv.small other ?_
    rw [hspare]
    exact hother
  · obtain ⟨other, hother, heq⟩ := hinv.large_live run hrun
    exact ⟨other, List.mem_cons_of_mem _ hother, heq⟩
  · refine .chunk z 0 List.mem_cons_self ?_ ?_ ?_ ?_
    · exact Nat.zero_le _
    · rw [hself, Nat.zero_mul, Nat.add_zero]
    · dsimp only
      rw [update_self]
      exact List.not_mem_nil
    · rw [hself]
      exact hroom
  · refine (hinv.home other hother).mono (fun z' hz' => ?_) fun run hrun => hrun
    have hne : z' ≠ z := fun heq => hz (heq ▸ hz')
    dsimp only
    rw [update_of_ne hne, hothers z' hne]
    exact ⟨List.mem_cons_of_mem _ hz', rfl, rfl, le_rfl, id⟩

end Zones

/-! ## Large allocations -/

section Pages

variable (hinv : SlabInv cfg range usage heap layout live)

include hinv

omit hinv in
/-- A request that wraps around is rounded to no page. -/
theorem le_rtAlign {size : ℕ} (hsize : size < cfg.wordSize)
    (hpages : cfg.rtAlign size / rtMmPageSize ≠ 0) : size ≤ cfg.rtAlign size := by
  have hword := cfg.word_large
  simp only [SlabConfig.rtAlign, rtMmPageSize, Nat.mul_div_cancel _ (show 0 < 4096 by decide)] at *
  by_cases hwrap : size + 4095 < cfg.wordSize
  · rw [Nat.mod_eq_of_lt hwrap]
    omega
  · have hmod : (size + 4095) % cfg.wordSize = size + 4095 - cfg.wordSize := by
      rw [Nat.mod_eq_sub_mod (by omega), Nat.mod_eq_of_lt (by omega)]
    rw [hmod] at hpages
    omega

theorem mallocPages_spec {size request : ℕ} (hspare : layout.spare = [])
    (hsize : size < cfg.wordSize) (hroom : request ≤ size) :
    ∃ heap' ptr, mallocPages cfg heap size = some (heap', ptr) ∧
      (ptr = 0 ∧ heap' = heap ∨ ptr ≠ 0 ∧ ∃ layout', layout'.spare = [] ∧
        SlabInv cfg range usage heap' layout' (⟨ptr, request⟩ :: live)) := by
  obtain ⟨runs, hpages⟩ := hinv.pages
  rw [mallocPages]
  dsimp only
  rcases Nat.eq_zero_or_pos (cfg.rtAlign size / rtMmPageSize) with hzero | hpos
  · rw [hzero, rtPageAlloc, if_pos rfl]
    exact ⟨heap, 0, rfl, .inl ⟨rfl, rfl⟩⟩
  have hfits := hroom.trans (le_rtAlign hsize (Nat.ne_of_gt hpos))
  rcases hpages.alloc hpos with ⟨-, halloc⟩ | ⟨pages, page, runs', halloc, hnull, -, hpages'⟩
  · rw [halloc]
    exact ⟨heap, 0, rfl, .inl ⟨rfl, rfl⟩⟩
  rw [halloc, toOption_ok_bind]
  rw [if_neg hnull]
  have hwhole : cfg.rtAlign size / rtMmPageSize * rtMmPageSize = cfg.rtAlign size := by
    rw [SlabConfig.rtAlign, Nat.mul_div_cancel _ (by decide)]
  generalize hcount : cfg.rtAlign size / rtMmPageSize = count at *
  rw [← hwhole] at hfits
  have hpage : page ∈ (⟨page, count⟩ : Extent).cells := by
    simp only [Extent.mem_cells, Extent.stop]
    omega
  have hfirst : range.first ≤ page := (hpages'.mem_range List.mem_cons_self).1
  have hother : ∀ run ∈ layout.held usage heap.zonePageCnt, ∀ other ∈ run.cells, other ≠ page := by
    rintro run hrun other hmem rfl
    exact (apart_of_alloc hinv hpages' hrun hmem).1 hpage
  have hkept : ∀ run ∈ layout.held usage heap.zonePageCnt, ∀ other ∈ run.cells,
      update heap.memusage (heap.btokup page) ⟨.large, count⟩ (heap.btokup other) =
        heap.memusage (heap.btokup other) := by
    intro run hrun other hmem
    refine update_of_ne (fun heq => hother run hrun other hmem ?_) ..
    exact hinv.btokup_inj (apart_of_alloc hinv hpages' hrun hmem).2 hfirst heq
  have hfresh : page * rtMmPageSize ∉ live.map Holding.ptr := by
    intro hmem
    obtain ⟨holding, hholding, heq⟩ := List.mem_map.1 hmem
    have hpage' : holding.ptr / rtMmPageSize = page := by
      rw [heq, Nat.mul_div_cancel _ (by decide)]
    rcases hinv.home holding hholding with ⟨z, i, hz, hi, hptr, -, -⟩ | ⟨run, hrun, hptr, -⟩
    · have hzone := (hinv.zones z hz).page_chunk hi
      rw [← hptr, hpage'] at hzone
      exact hother _ (held_zone (List.mem_append_right _ hz) _) page hzone rfl
    · rw [hptr, Nat.mul_div_cancel _ (by decide)] at hpage'
      exact hother run (held_large hrun _) run.first (hinv.first_mem_cells hrun) hpage'
  refine ⟨_, _, rfl, .inr ⟨Nat.mul_ne_zero hnull (by decide),
    { layout with large := ⟨page, count⟩ :: layout.large }, hspare, ?_⟩⟩
  refine SlabInv.setUsed ?_ _ _
  refine ⟨⟨hinv.params.1, hinv.params.2, hinv.params.3, hinv.params.4⟩,
    ⟨runs', hpages'.perm (List.Perm.swap ..)⟩,
    hinv.lists.congr rfl rfl rfl rfl fun _ _ => ⟨rfl, Iff.rfl⟩,
    fun other hother => (hinv.zones other hother).congr rfl (hinv.zones other hother).chain,
    hinv.magic, hinv.cached_free, fun other hother off hoff => ?_,
    List.forall_mem_cons.2 ⟨?_, fun run hrun => ?_⟩,
    List.forall_mem_cons.2 ⟨⟨_, List.mem_cons_self, rfl⟩, fun run hrun => ?_⟩,
    List.nodup_cons.2 ⟨hfresh, hinv.nodup⟩, List.forall_mem_cons.2 ⟨?_, fun holding hmem => ?_⟩⟩
  · have hother : other ∈ layout.spare ++ layout.zones := hother
    exact (hkept _ (held_zone hother _) _ (page_zone_mem hoff)).trans
      (hinv.small other hother off hoff)
  · exact update_self ..
  · exact (hkept run (held_large hrun _) _ (hinv.first_mem_cells hrun)).trans (hinv.large run hrun)
  · obtain ⟨holding, hmem, heq⟩ := hinv.large_live run hrun
    exact ⟨holding, List.mem_cons_of_mem _ hmem, heq⟩
  · exact .pages _ List.mem_cons_self rfl hfits
  · exact (hinv.home holding hmem).mono (fun _ hz => ⟨hz, rfl, rfl, le_rfl, id⟩)
      fun _ hrun => List.mem_cons_of_mem _ hrun

theorem freePages_spec {holding : Holding} {run : Extent} (hspare : layout.spare = [])
    (hrun : run ∈ layout.large) (hptr : holding.ptr = run.first * rtMmPageSize) :
    ∃ heap' layout', freePages cfg heap holding.ptr = some heap' ∧ layout'.spare = [] ∧
      SlabInv cfg range usage heap' layout' (without live holding.ptr) := by
  obtain ⟨runs, hpages⟩ := hinv.pages
  have hpage : holding.ptr / rtMmPageSize = run.first := by
    rw [hptr, Nat.mul_div_cancel _ (by decide)]
  have hkup := hinv.large run hrun
  obtain ⟨pages, hfree, hpages'⟩ := hpages.free (held_large hrun _)
  have hnodup : layout.large.Nodup :=
    (List.nodup_append.1 (List.nodup_cons.1 hpages.nodup).2).1
  have hfirst := (hinv.range_le (held_large hrun _)).2.1
  have hkept : ∀ run' ∈ layout.held usage heap.zonePageCnt, run' ≠ run → ∀ page ∈ run'.cells,
      update heap.memusage (heap.btokup run.first) ⟨.large, 0⟩ (heap.btokup page) =
        heap.memusage (heap.btokup page) := by
    intro run' hrun' hne page hmem
    refine update_of_ne (fun heq => hne ?_) ..
    have hsame := hinv.btokup_inj ((hinv.range_le hrun').2.1.trans hmem.1) hfirst heq
    exact hpages.eq_of_mem hrun' (held_large hrun _) hmem (hsame ▸ hinv.first_mem_cells hrun)
  rw [freePages, hpage, hkup]
  rw [if_pos (by rw [hptr]; exact Nat.mul_mod_left ..)]
  have hfree' : rtPageFree (subUsedMem cfg { heap with
      memusage := update heap.memusage (heap.btokup run.first) ⟨.large, 0⟩ }
      (run.count * rtMmPageSize)).pages run.first run.count = .ok pages := hfree
  rw [hfree', toOption_ok_bind]
  suffices hfreed : SlabInv cfg range usage { heap with
      memusage := update heap.memusage (heap.btokup run.first) ⟨.large, 0⟩
      pages := pages } { layout with large := layout.large.erase run }
      (without live holding.ptr) from
    ⟨_, { layout with large := layout.large.erase run }, rfl, hspare, hfreed.setUsed _ heap.maxMem⟩
  have hlarge : ∀ run' ∈ layout.large.erase run, run' ≠ run ∧ run' ∈ layout.large :=
    fun run' hrun' => hnodup.mem_erase_iff.1 hrun'
  refine ⟨⟨hinv.params.1, hinv.params.2, hinv.params.3, hinv.params.4⟩, ⟨_, hpages'.perm ?_⟩,
    hinv.lists.congr rfl rfl rfl rfl fun _ _ => ⟨rfl, Iff.rfl⟩,
    fun other hother => (hinv.zones other hother).congr rfl (hinv.zones other hother).chain,
    hinv.magic, hinv.cached_free, fun other hother off hoff => ?_, fun run' hrun' => ?_,
    fun run' hrun' => ?_, nodup_without hinv _, fun other hother => ?_⟩
  · have hne : usage ≠ run := by
      rintro rfl
      exact (List.nodup_cons.1 hpages.nodup).1 (List.mem_append_left _ hrun)
    rw [Layout.held, Layout.held, List.erase_cons_tail (by simpa using hne),
      List.erase_append_left _ hrun]
  · have hother : other ∈ layout.spare ++ layout.zones := hother
    refine (hkept _ (held_zone hother _) ?_ _ (page_zone_mem hoff)).trans
      (hinv.small other hother off hoff)
    rintro rfl
    exact hinv.not_mem_large hother hrun ⟨le_rfl, Nat.lt_add_of_pos_right hinv.zonePageCnt_pos⟩
      (hinv.first_mem_cells hrun)
  · obtain ⟨hne, hrun'⟩ := hlarge run' hrun'
    exact (hkept run' (held_large hrun' _) hne _ (hinv.first_mem_cells hrun')).trans
      (hinv.large run' hrun')
  · obtain ⟨hne, hrun'⟩ := hlarge run' hrun'
    obtain ⟨other, hother, heq⟩ := hinv.large_live run' hrun'
    refine ⟨other, List.mem_filter.2 ⟨hother, ?_⟩, heq⟩
    rw [decide_eq_true_eq, heq, hptr]
    intro hsame
    have hfirst' : run'.first = run.first := Nat.eq_of_mul_eq_mul_right (by decide) hsame
    exact hne (hpages.eq_of_mem (held_large hrun' _) (held_large hrun _)
      (hinv.first_mem_cells hrun') (hfirst' ▸ hinv.first_mem_cells hrun))
  · obtain ⟨hother, hdiff⟩ := List.mem_filter.1 hother
    rw [decide_eq_true_eq] at hdiff
    rcases hinv.home other hother with ⟨z, i, hz, hi, hptr', hused, hroom⟩
      | ⟨run', hrun', hptr', hroom⟩
    · exact .chunk z i hz hi hptr' hused hroom
    · refine .pages run' ((List.mem_erase_of_ne ?_).2 hrun') hptr' hroom
      rintro rfl
      exact hdiff (hptr'.trans hptr.symm)

end Pages

end RtThread.Slab
