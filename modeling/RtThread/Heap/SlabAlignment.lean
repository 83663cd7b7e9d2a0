import RtThread.Heap.SlabRuns

set_option linter.all false

/-!
# The alignment of small requests

A request whose size is a power of two gets chunks of its own size, or of 8 bytes, and the
chunks of a zone begin at a multiple of their size behind its first page.  The zone itself
begins at a page, so that every such address is aligned to the request as long as the
request is not larger than a page.  With zones of 64K or more, chunks of two pages are
served from zones as well, which may begin at an odd page.
-/

namespace RtThread.Slab

open RtThread.Core RtThread.PageAlloc

variable {cfg : SlabConfig} {range usage : Extent} {heap : SlabHeap} {live : List Holding}

/-- The zone that `rt_malloc` takes a chunk of an index from. -/
def servingZone (heap : SlabHeap) (zi : ℕ) : Option ℕ :=
  match heap.zoneArray zi with
  | some z => some z
  | none =>
    match heap.zoneFree with
    | some z => some z
    | none =>
      match (rtPageAlloc heap.pages (heap.zoneSize / rtMmPageSize)).toOption with
      | some (_, z) => if z = 0 then none else some z
      | none => none

theorem dvd_roundUp (n unit : ℕ) : unit ∣ roundUp n unit :=
  Nat.dvd_mul_left _ _

/-- The chunks for a power of two are multiples of it, and their size is a power of two. -/
theorem zoneindex_pow {k : ℕ} (hk : k < 14) :
    2 ^ k ∣ (zoneindex (2 ^ k)).2 ∧
      ((zoneindex (2 ^ k)).2 ||| ((zoneindex (2 ^ k)).2 - 1)) + 1 =
        (zoneindex (2 ^ k)).2 <<< 1 := by
  revert k
  decide

/-- The chunks begin at a multiple of their size behind the first page of the zone. -/
theorem dvd_chunkOffset (cfg : SlabConfig) {k : ℕ} (hk : k < 14) :
    2 ^ k ∣ chunkOffset cfg (zoneindex (2 ^ k)).2 := by
  obtain ⟨hdvd, hpow⟩ := zoneindex_pow hk
  rw [chunkOffset, if_pos hpow]
  exact hdvd.trans (dvd_roundUp _ _)

/-- Behind a page, only the page decides about the alignment. -/
theorem dvd_page_add_iff {k z behind : ℕ} (hk : k < 14) (hbehind : 2 ^ k ∣ behind) :
    2 ^ k ∣ z * rtMmPageSize + behind ↔ 2 ^ k ≤ rtMmPageSize ∨ 2 ∣ z := by
  rw [Nat.dvd_add_left hbehind]
  have hpage : rtMmPageSize = 2 ^ 12 := rfl
  rcases Nat.lt_or_ge 12 k with hlarge | hsmall
  · obtain rfl : k = 13 := by omega
    rw [hpage]
    omega
  · have hle : 2 ^ k ∣ rtMmPageSize := Nat.pow_dvd_pow 2 hsmall
    exact iff_of_true (hle.mul_left z) (.inl (Nat.le_of_dvd (by decide) hle))

theorem mallocChunk_aligned_iff {layout : Layout} {k z : ℕ} (hk : k < 14)
    (hinv : SlabInv cfg range usage heap layout live)
    (hhead : heap.zoneArray (zoneindex (2 ^ k)).1 = some z) :
    ∃ heap' ptr, mallocChunk cfg heap (zoneindex (2 ^ k)).1 z (zoneindex (2 ^ k)).2 =
        some (heap', ptr) ∧
      (2 ^ k ∣ ptr ↔ 2 ^ k ≤ rtMmPageSize ∨ 2 ∣ z) := by
  have hlt : 2 ^ k < 16384 := Nat.pow_lt_pow_right (by decide) hk
  have hsize := zoneindex_eq (Nat.two_pow_pos k) hlt
  obtain ⟨heap', ptr, -, hmalloc, -, ⟨i, hptr⟩, -⟩ :=
    mallocChunk_spec hinv hhead (Nat.zero_le _)
  have hchain := hinv.lists.array_chain (zoneindex (2 ^ k)).1
  rw [hhead] at hchain
  obtain ⟨rest, hlist, -⟩ := hchain.exists_rest
  obtain ⟨hz, hindex, -⟩ := (hinv.lists.array_mem _ z).1 (hlist ▸ List.mem_cons_self)
  have hzone := hinv.zones z hz
  have hchunks : (heap.zone z).zChunksize = (zoneindex (2 ^ k)).2 := by
    rw [hzone.size_eq, hindex, hsize]
  rw [hsize]
  refine ⟨heap', ptr, hmalloc, ?_⟩
  rw [hptr, hzone.base_eq, Nat.add_assoc, hchunks, ← hsize]
  exact dvd_page_add_iff hk
    (Nat.dvd_add (dvd_chunkOffset cfg hk) ((zoneindex_pow hk).1.mul_left i))

theorem zoneFree_ne_zero {layout : Layout} {z : ℕ}
    (hinv : SlabInv cfg range usage heap layout live) (hfree : heap.zoneFree = some z) :
    z ≠ 0 := by
  have hchain := hinv.lists.cached_chain
  rw [hfree] at hchain
  obtain ⟨rest, hcached, -⟩ := hchain.exists_rest
  have hz := hinv.lists.cached_zone z (hcached ▸ List.mem_cons_self)
  obtain ⟨hpos, hfirst, -⟩ := hinv.range_le (held_zone (List.mem_append_right _ hz) _)
  exact Nat.ne_of_gt (hpos.trans_le hfirst)

/-- Where the list of the index is empty, a zone is kept or comes from the page allocator. -/
theorem servingZone_of_acquireZone {layout : Layout} {zi z : ℕ} {heap₁ : SlabHeap}
    (hinv : SlabInv cfg range usage heap layout live) (hhead : heap.zoneArray zi = none)
    (hacquire : acquireZone heap = some (heap₁, z)) :
    servingZone heap zi = if z = 0 then none else some z := by
  rw [servingZone, hhead]
  rw [acquireZone] at hacquire
  cases hfree : heap.zoneFree with
  | some first =>
    rw [hfree] at hacquire
    cases hacquire
    exact (if_neg (zoneFree_ne_zero hinv hfree)).symm
  | none =>
    rw [hfree] at hacquire
    cases halloc : (rtPageAlloc heap.pages (heap.zoneSize / rtMmPageSize)).toOption with
    | none =>
      rw [halloc] at hacquire
      contradiction
    | some result =>
      obtain ⟨pages, page⟩ := result
      rw [halloc, Option.bind_eq_bind, Option.bind_some] at hacquire
      dsimp only at hacquire ⊢
      by_cases hzero : page = 0
      · rw [if_pos hzero] at hacquire
        cases hacquire
        rw [if_pos hzero, if_pos rfl]
      · rw [if_neg hzero] at hacquire
        cases hacquire
        rfl

theorem mallocZone_aligned_iff {k : ℕ} (hk : k < 14)
    (hvalid : Valid cfg range usage heap live) :
    ∃ heap' ptr, mallocZone cfg heap (zoneindex (2 ^ k)).1 (zoneindex (2 ^ k)).2 =
        some (heap', ptr) ∧
      (2 ^ k ∣ ptr ↔ 2 ^ k ≤ rtMmPageSize ∨
        ∀ z ∈ servingZone heap (zoneindex (2 ^ k)).1, 2 ∣ z) := by
  obtain ⟨layout, hspare, hinv⟩ := hvalid
  rw [mallocZone]
  cases hhead : heap.zoneArray (zoneindex (2 ^ k)).1 with
  | some z =>
    obtain ⟨heap', ptr, hmalloc, haligned⟩ := mallocChunk_aligned_iff hk hinv hhead
    refine ⟨heap', ptr, hmalloc, haligned.trans (or_congr_right ?_)⟩
    rw [servingZone, hhead]
    simp
  | none =>
    obtain ⟨heap₁, z, hacquire, -, -⟩ := acquireZone_spec hinv hspare
    rw [servingZone_of_acquireZone hinv hhead hacquire, hacquire, Option.bind_eq_bind,
      Option.bind_some]
    dsimp only
    by_cases hnull : z = 0
    · rw [if_pos hnull, if_pos hnull]
      refine ⟨heap₁, 0, rfl, iff_of_true (Nat.dvd_zero _) (.inr fun z hz => ?_)⟩
      cases hz
    · rw [if_neg hnull, if_neg hnull]
      refine ⟨_, _, rfl, ?_⟩
      have hbase : ((initZone cfg heap₁ (zoneindex (2 ^ k)).1 z
          (zoneindex (2 ^ k)).2).zone z).zBaseptr =
            z * rtMmPageSize + chunkOffset cfg (zoneindex (2 ^ k)).2 := by
        simp [initZone]
      rw [hbase, dvd_page_add_iff hk (dvd_chunkOffset cfg hk)]
      simp

/-- After every sequence of calls on live pointers, and for every request whose size is a
power of two and that is served from a zone: `rt_malloc` returns, and the address is
aligned to the size exactly when the size is at most a page or the zone that serves the
request begins at an even page. -/
theorem malloc_aligned_iff {beginAddr endAddr : ℕ} {head : ℕ → PageHead}
    {memusage : ℕ → Memusage} {zone : ℕ → SlabZone} {cNext : ℕ → Option ℕ}
    (hinit : rtSystemHeapInit cfg beginAddr endAddr head memusage zone cNext = some heap)
    {trace : List (Action × Event)} {last : State}
    (hrun : (machine cfg).Run ⟨heap, []⟩ trace last) {k : ℕ}
    (hserved : 2 ^ k < last.heap.zoneLimit) :
    ∃ heap' ptr, rtMalloc cfg last.heap (2 ^ k) = some (heap', ptr) ∧
      (2 ^ k ∣ ptr ↔ 2 ^ k ≤ rtMmPageSize ∨
        ∀ z ∈ servingZone last.heap (zoneindex (2 ^ k)).1, 2 ∣ z) := by
  obtain ⟨usage, hvalid⟩ := valid_rtSystemHeapInit hinit
  have hvalid : Valid cfg (heapRange cfg beginAddr endAddr) usage last.heap last.live :=
    hrun.invariant (fun state => Valid cfg (heapRange cfg beginAddr endAddr) usage
      state.heap state.live) (fun _ _ _ _ hvalid _ hstep => (step_valid hvalid hstep).2) hvalid
  obtain ⟨layout, -, hinv⟩ := id hvalid
  have hlimit := hinv.params.limit_eq
  have hk : k < 14 := by
    rw [← Nat.pow_lt_pow_iff_right (Nat.one_lt_two)]
    omega
  have hpos := Nat.two_pow_pos k
  obtain ⟨hindex, -⟩ := zoneindex_le hlimit hpos hserved
  rw [rtMalloc, if_neg hpos.ne', if_neg (not_le.2 hserved)]
  dsimp only
  rw [if_pos hindex]
  exact mallocZone_aligned_iff hk hvalid

/-- A chunk of 4096 bytes after the calls of `schedule32`. -/
theorem malloc_aligned_iff_schedule32 :
    ∃ trace last, (machine config32).Run ⟨heap32, []⟩ trace last ∧
      2 ^ 12 < last.heap.zoneLimit ∧
      ∃ heap' ptr, rtMalloc config32 last.heap (2 ^ 12) = some (heap', ptr) ∧
        (2 ^ 12 ∣ ptr ↔ 2 ^ 12 ≤ rtMmPageSize ∨
          ∀ z ∈ servingZone last.heap (zoneindex (2 ^ 12)).1, 2 ∣ z) := by
  have hrun := Machine.runWith_of_isSome schedule32 isSome_schedule32
  have hserved : 2 ^ 12 < (((machine config32).exec (fun _ _ => True) ⟨heap32, []⟩
      schedule32).get isSome_schedule32).1.heap.zoneLimit := by
    decide +kernel
  exact ⟨_, _, hrun, hserved, malloc_aligned_iff rtSystemHeapInit_heap32 hrun hserved⟩

/-- The start of a heap of 64M and 16 pages, whose zones have 64K. -/
def initLarge : Option SlabHeap :=
  rtSystemHeapInit config32 0x10000 0x4020000 (fun _ => ⟨0, 0⟩) (fun _ => ⟨.free, 0⟩)
    (fun _ => ⟨0, 0, 0, none, 0, 0, 0, 0, none⟩) fun _ => none

theorem isSome_initLarge : initLarge.isSome = true := by decide

def heapLarge : SlabHeap :=
  initLarge.get isSome_initLarge

theorem rtMalloc_heapLarge :
    (rtMalloc config32 heapLarge (2 ^ 13)).map Prod.snd = some 0x23000 := by
  decide

/-- The first request for 8192 bytes is served from a zone that begins at an odd page. -/
theorem two_pages_misaligned :
    initLarge = some heapLarge ∧ (machine config32).Run ⟨heapLarge, []⟩ [] ⟨heapLarge, []⟩ ∧
      2 ^ 13 < heapLarge.zoneLimit ∧
      ∃ heap', rtMalloc config32 heapLarge (2 ^ 13) = some (heap', 0x23000) ∧
        ¬ 2 ^ 13 ∣ 0x23000 := by
  have hptr := rtMalloc_heapLarge
  obtain ⟨⟨heap', ptr⟩, hmalloc, hptr⟩ := Option.map_eq_some_iff.1 hptr
  obtain rfl : ptr = 0x23000 := hptr
  exact ⟨(Option.some_get isSome_initLarge).symm, .nil _, by decide, heap', hmalloc,
    by decide⟩

end RtThread.Slab
