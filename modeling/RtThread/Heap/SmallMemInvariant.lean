import RtThread.Heap.SmallMemTiling

set_option linter.all false

/-!
# The structure of the small-memory heap

The operations keep the tiling of the heap, the absence of unused neighbours, the
validity of `lfree` and the correspondence between live pointers and used blocks, and
none of them faults.  From this invariant follows what the callers rely on: the
payloads of live pointers are disjoint, aligned and inside the heap.
-/

namespace RtThread.SmallMem

open RtThread.Core

variable {cfg : HeapConfig}

/-- The heap lies in a word-sized address space and holds a smallest block. -/
structure Geometry (cfg : HeapConfig) (heapPtr memSizeAligned heapEnd : ℕ) : Prop where
  heapEnd_eq : heapEnd = memSizeAligned + cfg.sizeofStructMem
  min_le : cfg.minSizeAligned ≤ memSizeAligned
  fits : heapPtr + memSizeAligned + 2 * cfg.sizeofStructMem < cfg.wordSize
  aligned : cfg.rtAlignSize ∣ heapPtr

/-- The live pointers are the payload addresses of the used blocks. -/
def LiveBlocks (cfg : HeapConfig) (heap : Heap) (live : Finset ℕ) (headers : List ℕ) : Prop :=
  ∀ pointer, pointer ∈ live ↔ ∃ block ∈ headers, block ≠ heap.heapEnd ∧
    (heap.mem block).used ≠ 0 ∧ pointer = heap.heapPtr + block + cfg.sizeofStructMem

structure Inv (cfg : HeapConfig) (heap : Heap) (live : Finset ℕ) (headers : List ℕ) :
    Prop where
  geometry : Geometry cfg heap.heapPtr heap.memSizeAligned heap.heapEnd
  tiled : Tiled cfg heap.mem heap.heapEnd headers
  coalesced : Coalesced heap.mem headers
  lfree : FreeOrEnd heap.mem heap.heapEnd headers heap.lfree
  live : LiveBlocks cfg heap live headers

theorem sizeofStructMem_pos : 0 < cfg.sizeofStructMem :=
  cfg.minSizeAligned_pos.trans_le cfg.minSizeAligned_le

/-- Merging unused headers away keeps the rest of the invariant. -/
theorem Merged.inv {heap heap' : Heap} {live : Finset ℕ} {headers headers' : List ℕ}
    (hmerged : Merged cfg heap heap' headers headers')
    (hgeometry : Geometry cfg heap.heapPtr heap.memSizeAligned heap.heapEnd)
    (hcoalesced : Coalesced heap'.mem headers')
    (hlive : LiveBlocks cfg heap live headers) : Inv cfg heap' live headers' where
  geometry := by
    rw [hmerged.heapPtr, hmerged.memSizeAligned, hmerged.heapEnd]
    exact hgeometry
  tiled := hmerged.heapEnd.symm ▸ hmerged.tiled
  coalesced := hcoalesced
  lfree := hmerged.heapEnd.symm ▸ hmerged.lfree
  live pointer := by
    rw [hlive pointer, hmerged.heapPtr, hmerged.heapEnd]
    constructor
    · rintro ⟨block, hblock, hne, hused, hpointer⟩
      refine ⟨block, hmerged.kept block hblock hused, hne, ?_, hpointer⟩
      rwa [hmerged.used]
    · rintro ⟨block, hblock, hne, hused, hpointer⟩
      refine ⟨block, hmerged.subset block hblock, hne, ?_, hpointer⟩
      rwa [hmerged.used] at hused

section Blocks

variable {heap : Heap} {live : Finset ℕ} {headers : List ℕ} {block rmem : ℕ}

theorem Inv.block_bounds (hinv : Inv cfg heap live headers) (hblock : block ∈ headers)
    (hne : block ≠ heap.heapEnd) :
    block + cfg.sizeofStructMem < (heap.mem block).next ∧
      (heap.mem block).next ≤ heap.heapEnd ∧
      heap.heapPtr + heap.heapEnd + cfg.sizeofStructMem < cfg.wordSize := by
  have hroom := hinv.tiled.room block hblock hne
  have hlast := hinv.tiled.chain.le_last (hinv.tiled.chain.next_mem hblock hne)
  have hend := hinv.geometry.heapEnd_eq
  have hfits := hinv.geometry.fits
  exact ⟨hroom, hlast, by omega⟩

theorem headerOf_congr {heap' : Heap} (hptr : heap'.heapPtr = heap.heapPtr) (pointer : ℕ) :
    headerOf cfg heap' pointer = headerOf cfg heap pointer := by
  rw [headerOf, headerOf, hptr]

theorem Inv.headerOf_eq (hinv : Inv cfg heap live headers) (hblock : block ∈ headers)
    (hne : block ≠ heap.heapEnd) :
    headerOf cfg heap (heap.heapPtr + block + cfg.sizeofStructMem) = block := by
  obtain ⟨hroom, hnext, hfits⟩ := hinv.block_bounds hblock hne
  have hoffset : cfg.sub (heap.heapPtr + block + cfg.sizeofStructMem)
      cfg.sizeofStructMem = heap.heapPtr + block := by
    rw [cfg.sub_eq (by omega) (by omega), Nat.add_sub_cancel]
  rw [headerOf, hoffset, cfg.sub_eq (by omega) (by omega), Nat.add_sub_cancel_left]

theorem Inv.payloadSize_eq (hinv : Inv cfg heap live headers) (hblock : block ∈ headers)
    (hne : block ≠ heap.heapEnd) :
    payloadSize cfg heap block = (heap.mem block).next - block - cfg.sizeofStructMem := by
  obtain ⟨hroom, hnext, hfits⟩ := hinv.block_bounds hblock hne
  have hsize : cfg.sub (heap.mem block).next block = (heap.mem block).next - block :=
    cfg.sub_eq (by omega) (by omega)
  rw [payloadSize, hsize, cfg.sub_eq (by omega) (by omega)]

theorem Inv.pointer_aligned (hinv : Inv cfg heap live headers) (hblock : block ∈ headers) :
    cfg.rtAlignSize ∣ heap.heapPtr + block + cfg.sizeofStructMem :=
  ((hinv.geometry.aligned.add (hinv.tiled.aligned block hblock))).add
    (cfg.rtAlignSize_dvd_rtAlign _)

/-- A live pointer is the payload address of a used block. -/
theorem Inv.exists_block (hinv : Inv cfg heap live headers) (hlive : rmem ∈ live) :
    ∃ block ∈ headers, block ≠ heap.heapEnd ∧ (heap.mem block).used ≠ 0 ∧
      rmem = heap.heapPtr + block + cfg.sizeofStructMem ∧ headerOf cfg heap rmem = block := by
  obtain ⟨block, hblock, hne, hused, hpointer⟩ := (hinv.live rmem).1 hlive
  exact ⟨block, hblock, hne, hused, hpointer, hpointer ▸ hinv.headerOf_eq hblock hne⟩

theorem Inv.ne_zero (hinv : Inv cfg heap live headers) (hlive : rmem ∈ live) : rmem ≠ 0 := by
  obtain ⟨block, -, -, -, hpointer, -⟩ := hinv.exists_block hlive
  have hpos : 0 < cfg.sizeofStructMem := sizeofStructMem_pos
  omega

end Blocks

theorem and_rtAlignSize_sub_one {address : ℕ} (haligned : cfg.rtAlignSize ∣ address) :
    address &&& (cfg.rtAlignSize - 1) = 0 := by
  rw [HeapConfig.rtAlignSize, Nat.and_two_pow_sub_one_eq_mod]
  exact Nat.mod_eq_zero_of_dvd haligned

/-! ## `rt_free` -/

section Free

variable {heap : Heap} {live : Finset ℕ} {headers before rest : List ℕ} {block rmem : ℕ}

@[simp]
theorem used_releaseBlock (mem other : ℕ) : ((releaseBlock cfg heap mem).mem other).used =
    if other = mem then 0 else (heap.mem other).used := by
  simp [releaseBlock]

/-- A used block is made unused; its neighbours may be unused too. -/
theorem releaseBlock_spec (hinv : Inv cfg heap live (before ++ block :: rest))
    (hne : block ≠ heap.heapEnd) :
    Tiled cfg (releaseBlock cfg heap block).mem heap.heapEnd (before ++ block :: rest) ∧
      Coalesced (releaseBlock cfg heap block).mem before ∧
      Coalesced (releaseBlock cfg heap block).mem rest ∧
      FreeOrEnd (releaseBlock cfg heap block).mem heap.heapEnd (before ++ block :: rest)
        (releaseBlock cfg heap block).lfree ∧
      LiveBlocks cfg (releaseBlock cfg heap block)
        (live.erase (heap.heapPtr + block + cfg.sizeofStructMem)) (before ++ block :: rest) := by
  have hsorted := List.pairwise_append.1 hinv.tiled.chain.sorted
  have hbefore : ∀ other ∈ before, other ≠ block :=
    fun other hother => (hsorted.2.2 other hother block (by simp)).ne
  have hrest : ∀ other ∈ rest, other ≠ block :=
    fun other hother => ((List.pairwise_cons.1 hsorted.2.1).1 other hother).ne'
  refine ⟨hinv.tiled.congr (fun other => by simp [releaseBlock]) (fun other hother => ?_) ?_,
    Coalesced.congr hinv.coalesced.left_of_append fun other hother hused => ?_,
    Coalesced.congr hinv.coalesced.right_of_append.tail fun other hother hused => ?_, ⟨?_, ?_⟩,
    fun pointer => ?_⟩
  · simp [releaseBlock, hinv.tiled.magic other hother]
  · simpa [hne.symm] using hinv.tiled.closed
  · simpa [hbefore other hother] using hused
  · simpa [hrest other hother] using hused
  · simp only [releaseBlock]
    split
    · simp
    · exact hinv.lfree.1
  · simp only [used_releaseBlock]
    simp only [releaseBlock]
    split
    · simp
    · next hle =>
        rcases hinv.lfree.2 with hend | hunused
        · exact .inl hend
        · exact .inr (by rw [hunused, ite_self])
  · rw [Finset.mem_erase, hinv.live pointer]
    simp only [used_releaseBlock]
    constructor
    · rintro ⟨hpointer, other, hother, hend, hused, rfl⟩
      refine ⟨other, hother, hend, ?_, rfl⟩
      rwa [if_neg fun hsame => hpointer (by rw [hsame])]
    · rintro ⟨other, hother, hend, hused, rfl⟩
      have hother' : other ≠ block := fun hsame => hused (by rw [if_pos hsame])
      rw [if_neg hother'] at hused
      refine ⟨?_, other, hother, hend, hused, rfl⟩
      simp only [releaseBlock]
      omega

theorem rtFree_eq (hinv : Inv cfg heap live headers) (hblock : block ∈ headers)
    (hne : block ≠ heap.heapEnd) (hused : (heap.mem block).used ≠ 0) :
    rtFree cfg heap (heap.heapPtr + block + cfg.sizeofStructMem) =
      plugHoles (releaseBlock cfg heap block) block := by
  obtain ⟨hroom, hnext, hfits⟩ := hinv.block_bounds hblock hne
  have haligned := hinv.pointer_aligned hblock
  have hpos : 0 < cfg.sizeofStructMem := sizeofStructMem_pos
  have hend : cfg.add heap.heapPtr heap.heapEnd = heap.heapPtr + heap.heapEnd :=
    cfg.add_eq (by omega)
  rw [rtFree, if_neg (by omega), rtAssert_bind (and_rtAlignSize_sub_one haligned),
    rtAssert_bind (by omega), if_neg (by omega)]
  simp only [hinv.headerOf_eq hblock hne]
  rw [rtAssert_bind hused, rtAssert_bind (hinv.tiled.magic block hblock)]

theorem rtFree_spec (hinv : Inv cfg heap live headers) (hlive : rmem ∈ live) :
    ∃ heap' headers', rtFree cfg heap rmem = .ok heap' ∧
      Inv cfg heap' (live.erase rmem) headers' ∧
      (NoneBelow heap.mem headers heap.lfree → NoneBelow heap'.mem headers' heap'.lfree) := by
  obtain ⟨block, hblock, hne, hused, rfl, -⟩ := hinv.exists_block hlive
  rw [rtFree_eq hinv hblock hne hused]
  obtain ⟨before, rest, rfl⟩ := List.append_of_mem hblock
  obtain ⟨htiled, hbefore, hrest, hlfree, hliveBlocks⟩ := releaseBlock_spec hinv hne
  obtain ⟨heap', headers', hplug, hmerged, hcoalesced, -⟩ :=
    plugHoles_spec htiled hne (by simp) hbefore hrest hlfree
  refine ⟨heap', headers', hplug, hmerged.inv hinv.geometry hcoalesced hliveBlocks,
    fun hnone => ?_⟩
  intro other hother hunused
  rw [hmerged.used, used_releaseBlock] at hunused
  have hle := hmerged.lfree_le
  simp only [releaseBlock] at hle
  by_cases hsame : other = block
  · split at hle <;> omega
  · rw [if_neg hsame] at hunused
    have hlow := hnone other (hmerged.subset other hother) hunused
    split at hle <;> omega

end Free

/-! ## `rt_malloc` -/

section Malloc

variable {heap : Heap} {live : Finset ℕ} {headers before rest : List ℕ} {block size : ℕ}

/-- A block that can serve a request. -/
structure Fits (cfg : HeapConfig) (heap : Heap) (headers : List ℕ) (size block : ℕ) :
    Prop where
  mem : block ∈ headers
  ne_end : block ≠ heap.heapEnd
  unused : (heap.mem block).used = 0
  room : block + cfg.sizeofStructMem + size ≤ (heap.mem block).next

/-- The search ends, and what it finds can serve the request. -/
theorem firstFit_spec (hinv : Inv cfg heap live headers) (hsize : size ≤ heap.memSizeAligned)
    {fuel ptr : ℕ} (hptr : ptr ∈ headers) (hfuel : heap.heapEnd < ptr + fuel) :
    ∃ found, firstFit cfg heap size fuel ptr = .ok found ∧
      ∀ block ∈ found, Fits cfg heap headers size block := by
  induction fuel generalizing ptr with
  | zero => exact absurd (hinv.tiled.chain.le_last hptr) (by omega)
  | succ fuel ih =>
    have hend := hinv.geometry.heapEnd_eq
    have hword := hinv.geometry.fits
    have hbound : cfg.sub heap.memSizeAligned size = heap.memSizeAligned - size :=
      cfg.sub_eq hsize (by omega)
    rw [firstFit, hbound]
    split
    · next hlt =>
        have hne : ptr ≠ heap.heapEnd := by omega
        obtain ⟨hroom, hnext, hfits⟩ := hinv.block_bounds hptr hne
        have hpayload : cfg.sub (heap.mem ptr).next (cfg.add ptr cfg.sizeofStructMem) =
            (heap.mem ptr).next - (ptr + cfg.sizeofStructMem) := by
          rw [cfg.add_eq (by omega), cfg.sub_eq (by omega) (by omega)]
        rw [hpayload]
        split
        · next hfit =>
            refine ⟨some ptr, rfl, fun block hblock => ?_⟩
            obtain rfl : ptr = block := by simpa using hblock
            exact ⟨hptr, hne, hfit.1, by omega⟩
        · exact ih (hinv.tiled.chain.next_mem hptr hne) (by omega)
    · exact ⟨none, rfl, fun block hblock => by simp at hblock⟩

/-- The search for the next free block ends, and skips no unused block. -/
theorem nextFree_spec (htiled : Tiled cfg heap.mem heap.heapEnd headers) {fuel start : ℕ}
    (hstart : start ∈ headers) (hfuel : heap.heapEnd < start + fuel) :
    ∃ lfree, nextFree heap fuel start = .ok lfree ∧
      FreeOrEnd heap.mem heap.heapEnd headers lfree ∧
      ∀ block ∈ headers, start ≤ block → (heap.mem block).used = 0 → lfree ≤ block := by
  induction fuel generalizing start with
  | zero => exact absurd (htiled.chain.le_last hstart) (by omega)
  | succ fuel ih =>
    rw [nextFree]
    split
    · next hskip =>
        have hlt : start < (heap.mem start).next := htiled.chain.lt_next hstart hskip.2
        have hmem : (heap.mem start).next ∈ headers := htiled.chain.next_mem hstart hskip.2
        obtain ⟨lfree, hfound, hfree, hlowest⟩ := ih hmem (by omega)
        refine ⟨lfree, hfound, hfree, fun block hblock hle hunused => ?_⟩
        have hne : start ≠ block := fun hsame => hskip.1 (hsame ▸ hunused)
        exact hlowest block hblock
          (htiled.chain.next_le hstart hblock (lt_of_le_of_ne hle hne)) hunused
    · next hstop =>
        refine ⟨start, rfl, ⟨hstart, ?_⟩, fun block _ hle _ => hle⟩
        by_contra hnot
        rw [not_or] at hnot
        exact hstop ⟨hnot.2, hnot.1⟩

/-- The heap after a block has been taken, before `lfree` is moved on. -/
structure Taken (cfg : HeapConfig) (heap heap' : Heap) (block : ℕ)
    (headers headers' : List ℕ) : Prop extends SameArea heap heap' where
  lfree : heap'.lfree = heap.lfree
  tiled : Tiled cfg heap'.mem heap.heapEnd headers'
  coalesced : Coalesced heap'.mem headers'
  subset : ∀ other ∈ headers, other ∈ headers'
  taken : (heap'.mem block).used ≠ 0
  used : ∀ other ∈ headers, other ≠ block → (heap'.mem other).used = (heap.mem other).used
  remainder : ∀ other ∈ headers', other ∉ headers → block < other ∧ (heap'.mem other).used = 0

theorem taken_whole (hinv : Inv cfg heap live headers) (hne : block ≠ heap.heapEnd)
    (amount : ℕ) :
    Taken cfg heap
      (addUsedMem cfg
        { heap with mem := setMagic (setUsed heap.mem block 1) block heapMagic } amount)
      block headers headers := by
  refine ⟨⟨rfl, rfl, rfl⟩, rfl,
    hinv.tiled.congr (fun other => by simp [addUsedMem]) (fun other hother => ?_) ?_,
    hinv.coalesced.congr fun other _ hused => ?_, fun _ hother => hother, by simp [addUsedMem],
    fun other _ hother => by simp [addUsedMem, hother],
    fun other hother hnot => absurd hother hnot⟩
  · simp [addUsedMem, hinv.tiled.magic other hother]
  · simp [addUsedMem, hne.symm, hinv.tiled.closed]
  · simp only [addUsedMem, used_setMagic, used_setUsed]
    split <;> [simp; exact hused]

theorem taken_split {after fresh : ℕ}
    (hinv : Inv cfg heap live (before ++ block :: after :: rest))
    (hne : block ≠ heap.heapEnd) (hunused : (heap.mem block).used = 0)
    (hlow : block + cfg.sizeofStructMem < fresh) (hhigh : fresh + cfg.sizeofStructMem < after)
    (haligned : cfg.rtAlignSize ∣ fresh) (amount : ℕ) :
    Taken cfg heap
      (addUsedMem cfg
        { heap with
          mem := setMagic (setUsed (splitBlock cfg heap block fresh) block 1) block heapMagic }
        amount)
      block (before ++ block :: after :: rest) (before ++ block :: fresh :: after :: rest) := by
  have hnext := (List.isChain_append_cons_cons.1 hinv.tiled.chain.adjacent).2.1.1
  obtain ⟨hleft, hmiddle, hright⟩ := List.isChain_append_cons_cons.1 hinv.coalesced
  have hafter : (heap.mem after).used ≠ 0 := hmiddle.resolve_left (not_not.2 hunused)
  have hend := hinv.geometry.heapEnd_eq
  have hword := hinv.geometry.fits
  have htiled := hinv.tiled.insert (by rw [cfg.add_eq (by omega), hend]) hlow hhigh haligned
  have hfresh : fresh ∉ before ++ block :: after :: rest :=
    hinv.tiled.chain.not_mem_of_inside (by simp) (show block < fresh by omega) (by omega)
  have hused : ∀ other ∈ before ++ block :: after :: rest, (heap.mem other).used ≠ 0 →
      (setMagic (setUsed (splitBlock cfg heap block fresh) block 1) block heapMagic other).used
        ≠ 0 := by
    intro other hother hused
    have hother' : other ≠ fresh := fun hsame => hfresh (hsame ▸ hother)
    simp only [used_setMagic, used_setUsed, used_splitBlock, if_neg hother']
    split <;> [simp; exact hused]
  refine ⟨⟨rfl, rfl, rfl⟩, rfl,
    htiled.congr (fun other => by simp [addUsedMem]) (fun other hother => ?_) ?_,
    List.isChain_append_cons_cons.2
      ⟨Coalesced.congr hleft fun other hother => hused other (Links.mem_of_mem_upTo hother),
        .inl (by simp [addUsedMem]),
        .cons_cons (.inr (hused after (by simp) hafter))
          (Coalesced.congr hright fun other hother => hused other (Links.mem_of_mem_from hother))⟩,
    fun other hother => Links.mem_insert_iff.2 (.inr hother), by simp [addUsedMem],
    fun other hother hne => ?_, fun other hother hnot => ?_⟩
  · simp [addUsedMem, htiled.magic other hother]
  · simp [addUsedMem, hne.symm, htiled.closed]
  · have hother' : other ≠ fresh := fun hsame => hfresh (hsame ▸ hother)
    simp [addUsedMem, hne, used_splitBlock, hother']
  · obtain rfl : other = fresh := (Links.mem_insert_iff.1 hother).resolve_right hnot
    refine ⟨by omega, ?_⟩
    simp [addUsedMem, used_splitBlock, show other ≠ block by omega]

theorem takeBlock_spec (hinv : Inv cfg heap live headers)
    (hfits : Fits cfg heap headers size block) (haligned : cfg.rtAlignSize ∣ size)
    (hpos : 0 < size) :
    ∃ headers', Taken cfg heap (takeBlock cfg heap block size) block headers headers' := by
  obtain ⟨hblock, hne, hunused, hroom⟩ := hfits
  obtain ⟨-, hnext, hword⟩ := hinv.block_bounds hblock hne
  have hmin := cfg.minSizeAligned_pos
  have hminle := cfg.minSizeAligned_le
  have hstart : cfg.add block cfg.sizeofStructMem = block + cfg.sizeofStructMem :=
    cfg.add_eq (by omega)
  have hfresh : cfg.add (block + cfg.sizeofStructMem) size =
      block + cfg.sizeofStructMem + size :=
    cfg.add_eq (by omega)
  have hpayload : cfg.sub (heap.mem block).next (block + cfg.sizeofStructMem) =
      (heap.mem block).next - (block + cfg.sizeofStructMem) :=
    cfg.sub_eq (by omega) (by omega)
  have hneed : cfg.add size cfg.sizeofStructMem = size + cfg.sizeofStructMem :=
    cfg.add_eq (by omega)
  have hneed' : cfg.add (size + cfg.sizeofStructMem) cfg.minSizeAligned =
      size + cfg.sizeofStructMem + cfg.minSizeAligned :=
    cfg.add_eq (by omega)
  simp only [takeBlock, hstart, hfresh, hpayload, hneed, hneed']
  split
  · next hsplit =>
      have hfreshAligned : cfg.rtAlignSize ∣ block + cfg.sizeofStructMem + size :=
        ((hinv.tiled.aligned block hblock).add (cfg.rtAlignSize_dvd_rtAlign _)).add haligned
      obtain ⟨before, rest, hheaders⟩ := hinv.tiled.chain.split_next hblock hne
      rw [hheaders] at hinv ⊢
      have hlink : (links heap.mem).next block = (heap.mem block).next := rfl
      exact ⟨_, taken_split hinv hne hunused (by omega) (by omega) hfreshAligned _⟩
  · exact ⟨headers, taken_whole hinv hne _⟩

variable {heap' : Heap} {headers' : List ℕ}

theorem Taken.liveBlocks (htaken : Taken cfg heap heap' block headers headers')
    (hinv : Inv cfg heap live headers) (hfits : Fits cfg heap headers size block) :
    LiveBlocks cfg heap' (insert (heap.heapPtr + block + cfg.sizeofStructMem) live)
      headers' := by
  intro pointer
  rw [Finset.mem_insert, hinv.live pointer, htaken.heapPtr, htaken.heapEnd]
  constructor
  · rintro (rfl | ⟨other, hother, hne, hused, rfl⟩)
    · exact ⟨block, htaken.subset block hfits.mem, hfits.ne_end, htaken.taken, rfl⟩
    · refine ⟨other, htaken.subset other hother, hne, ?_, rfl⟩
      rwa [htaken.used other hother fun hsame => hused (hsame ▸ hfits.unused)]
  · rintro ⟨other, hother, hne, hused, rfl⟩
    by_cases hsame : other = block
    · exact .inl (by rw [hsame])
    · by_cases hold : other ∈ headers
      · rw [htaken.used other hold hsame] at hused
        exact .inr ⟨other, hold, hne, hused, rfl⟩
      · exact absurd (htaken.remainder other hother hold).2 hused

theorem Taken.unused {other : ℕ} (htaken : Taken cfg heap heap' block headers headers')
    (hother : other ∈ headers') (hunused : (heap'.mem other).used = 0) :
    (other ∈ headers ∧ (heap.mem other).used = 0) ∨ block < other := by
  by_cases hold : other ∈ headers
  · have hne : other ≠ block := fun hsame => htaken.taken (hsame ▸ hunused)
    exact .inl ⟨hold, htaken.used other hold hne ▸ hunused⟩
  · exact .inr (htaken.remainder other hother hold).1

/-- `lfree` moves on to the next free block when its own block has been taken. -/
theorem advanceLfree_spec (htaken : Taken cfg heap heap' block headers headers')
    (hinv : Inv cfg heap live headers) (hfits : Fits cfg heap headers size block) :
    ∃ lfree, advanceLfree heap' block = .ok { heap' with lfree := lfree } ∧
      FreeOrEnd heap'.mem heap.heapEnd headers' lfree ∧
      (NoneBelow heap.mem headers heap.lfree → NoneBelow heap'.mem headers' lfree) := by
  have htiled : Tiled cfg heap'.mem heap'.heapEnd headers' :=
    htaken.heapEnd.symm ▸ htaken.tiled
  rw [advanceLfree]
  split
  · next hsame =>
      rw [htaken.lfree] at hsame
      obtain ⟨lfree, hfound, hfree, hlowest⟩ :=
        nextFree_spec htiled (htaken.subset block hfits.mem)
          (show heap'.heapEnd < block + (heap'.heapEnd + 1) by omega)
      refine ⟨lfree, ?_, htaken.heapEnd ▸ hfree, fun hnone other hother hunused => ?_⟩
      · rw [htaken.lfree, ← hsame, hfound]
        exact rtAssert_bind hfree.2 _
      · refine hlowest other hother ?_ hunused
        rcases htaken.unused hother hunused with ⟨hold, hzero⟩ | hlt
        · exact hsame ▸ hnone other hold hzero
        · exact hlt.le
  · next hne =>
      rw [htaken.lfree] at hne
      refine ⟨heap'.lfree, rfl, ?_, fun hnone other hother hunused => ?_⟩
      · rw [htaken.lfree]
        refine ⟨htaken.subset _ hinv.lfree.1, ?_⟩
        rw [htaken.used _ hinv.lfree.1 (Ne.symm hne)]
        exact hinv.lfree.2
      · rw [htaken.lfree]
        rcases htaken.unused hother hunused with ⟨hold, hzero⟩ | hlt
        · exact hnone other hold hzero
        · exact (hnone block hfits.mem hfits.unused).trans hlt.le

theorem allocate_spec (hinv : Inv cfg heap live headers)
    (hfits : Fits cfg heap headers size block) (haligned : cfg.rtAlignSize ∣ size)
    (hpos : 0 < size) :
    ∃ lfree headers', allocate cfg heap block size =
        .ok ({ takeBlock cfg heap block size with lfree := lfree },
          heap.heapPtr + block + cfg.sizeofStructMem) ∧
      Inv cfg { takeBlock cfg heap block size with lfree := lfree }
        (insert (heap.heapPtr + block + cfg.sizeofStructMem) live) headers' ∧
      (NoneBelow heap.mem headers heap.lfree →
        NoneBelow (takeBlock cfg heap block size).mem headers' lfree) := by
  obtain ⟨headers', htaken⟩ := takeBlock_spec hinv hfits haligned hpos
  obtain ⟨lfree, hadvance, hfree, hnone⟩ := advanceLfree_spec htaken hinv hfits
  obtain ⟨-, hnext, hword⟩ := hinv.block_bounds hfits.mem hfits.ne_end
  have hroom := hfits.room
  have hblockAligned := hinv.tiled.aligned block hfits.mem
  have hpointer := hinv.pointer_aligned hfits.mem
  refine ⟨lfree, headers', ?_, ⟨?_, ?_, ?_, ?_, ?_⟩, hnone⟩
  · have hmem : cfg.add heap.heapPtr block = heap.heapPtr + block := cfg.add_eq (by omega)
    have hstart : cfg.add (heap.heapPtr + block) cfg.sizeofStructMem =
        heap.heapPtr + block + cfg.sizeofStructMem :=
      cfg.add_eq (by omega)
    have hstop : cfg.add (heap.heapPtr + block + cfg.sizeofStructMem) size =
        heap.heapPtr + block + cfg.sizeofStructMem + size :=
      cfg.add_eq (by omega)
    have hend : cfg.add heap.heapPtr heap.heapEnd = heap.heapPtr + heap.heapEnd :=
      cfg.add_eq (by omega)
    simp only [allocate, hadvance, ok_bind, htaken.heapPtr, htaken.heapEnd, hmem, hstart, hstop,
      hend]
    rw [rtAssert_bind (by omega), rtAssert_bind (Nat.mod_eq_zero_of_dvd hpointer),
      rtAssert_bind (and_rtAlignSize_sub_one (hinv.geometry.aligned.add hblockAligned))]
    rfl
  · simpa only [htaken.heapPtr, htaken.memSizeAligned, htaken.heapEnd] using hinv.geometry
  · exact htaken.heapEnd.symm ▸ htaken.tiled
  · exact htaken.coalesced
  · exact htaken.heapEnd.symm ▸ hfree
  · exact htaken.liveBlocks hinv hfits

/-- The payload address of an unused block is not live. -/
theorem Fits.not_live (hfits : Fits cfg heap headers size block)
    (hinv : Inv cfg heap live headers) :
    heap.heapPtr + block + cfg.sizeofStructMem ∉ live := by
  intro hlive
  obtain ⟨other, -, -, hused, hpointer⟩ := (hinv.live _).1 hlive
  obtain rfl : block = other := by omega
  exact hused hfits.unused

theorem requestSize_pos (request : ℕ) : 0 < requestSize cfg request := by
  have hmin := cfg.minSizeAligned_pos
  rw [requestSize]
  split <;> omega

theorem rtAlignSize_dvd_requestSize (request : ℕ) :
    cfg.rtAlignSize ∣ requestSize cfg request := by
  rw [requestSize]
  split <;> exact cfg.rtAlignSize_dvd_rtAlign _

/-- `rt_malloc` gives up, or takes a block that can serve the request. -/
theorem rtMalloc_cases (hinv : Inv cfg heap live headers) (request : ℕ) :
    rtMalloc cfg heap request = .ok (heap, 0) ∨
      ∃ block, Fits cfg heap headers (requestSize cfg request) block ∧
        rtMalloc cfg heap request =
          allocate cfg heap block (requestSize cfg request) := by
  rw [rtMalloc]
  split
  · exact .inl rfl
  · split
    · exact .inl rfl
    · next hsize =>
        have hrequest : requestSize cfg request ≤ heap.memSizeAligned := by
          have hmin := hinv.geometry.min_le
          rw [requestSize]
          split <;> omega
        obtain ⟨found, hfound, hfits⟩ := firstFit_spec hinv hrequest hinv.lfree.1
          (show heap.heapEnd < heap.lfree + (heap.heapEnd + 1) by omega)
        rw [hfound, ok_bind]
        cases found with
        | none => exact .inl rfl
        | some block => exact .inr ⟨block, hfits block rfl, rfl⟩

/-- `rt_malloc` returns a pointer that was not live before, or `RT_NULL`. -/
theorem rtMalloc_spec (hinv : Inv cfg heap live headers) (request : ℕ) :
    ∃ heap' pointer headers', rtMalloc cfg heap request = .ok (heap', pointer) ∧
      Inv cfg heap' (afterMalloc live pointer) headers' ∧ pointer ∉ live ∧
      (NoneBelow heap.mem headers heap.lfree → NoneBelow heap'.mem headers' heap'.lfree) := by
  rcases rtMalloc_cases hinv request with hnone | ⟨block, hfits, htaken⟩
  · exact ⟨heap, 0, headers, hnone, hinv, fun hlive => hinv.ne_zero hlive rfl, id⟩
  · obtain ⟨lfree, headers', hallocate, hinv', hnone⟩ :=
      allocate_spec hinv hfits (rtAlignSize_dvd_requestSize request) (requestSize_pos request)
    have hpos : 0 < cfg.sizeofStructMem := sizeofStructMem_pos
    refine ⟨_, _, headers', htaken.trans hallocate, ?_, hfits.not_live hinv, hnone⟩
    rwa [afterMalloc, if_neg (by omega)]

end Malloc

/-! ## `rt_realloc` -/

/-- `rt_realloc` takes the path that cuts the end off the block of `rmem`. -/
def Cuts (cfg : HeapConfig) (heap : Heap) (rmem newsize : ℕ) : Prop :=
  cfg.rtAlign newsize ≤ heap.memSizeAligned ∧ cfg.rtAlign newsize ≠ 0 ∧ rmem ≠ 0 ∧
    shrinks cfg (payloadSize cfg heap (headerOf cfg heap rmem)) (cfg.rtAlign newsize)

instance (heap : Heap) (rmem newsize : ℕ) : Decidable (Cuts cfg heap rmem newsize) :=
  inferInstanceAs (Decidable (_ ∧ _))

/-- `lfree` is below the block at an offset, or is the unused block right after it. -/
def LfreeBelowOrNext (heap : Heap) (ptr : ℕ) : Prop :=
  heap.lfree < ptr ∨ heap.lfree = (heap.mem ptr).next ∧ heap.lfree ≠ heap.heapEnd

instance (heap : Heap) (ptr : ℕ) : Decidable (LfreeBelowOrNext heap ptr) :=
  inferInstanceAs (Decidable (_ ∨ _))

section Realloc

variable {heap : Heap} {live : Finset ℕ} {headers before rest : List ℕ}
variable {block rmem size newsize : ℕ}

/-- The end of a used block is made an unused block; the block after it may be unused
too. -/
theorem cutBlock_spec {after fresh : ℕ}
    (hinv : Inv cfg heap live (before ++ block :: after :: rest))
    (hlow : block + cfg.sizeofStructMem < fresh) (hhigh : fresh + cfg.sizeofStructMem < after)
    (haligned : cfg.rtAlignSize ∣ fresh) (amount : ℕ) :
    Tiled cfg (cutBlock cfg heap block fresh amount).mem heap.heapEnd
        ((before ++ [block]) ++ fresh :: after :: rest) ∧
      Coalesced (cutBlock cfg heap block fresh amount).mem (before ++ [block]) ∧
      Coalesced (cutBlock cfg heap block fresh amount).mem (after :: rest) ∧
      FreeOrEnd (cutBlock cfg heap block fresh amount).mem heap.heapEnd
        ((before ++ [block]) ++ fresh :: after :: rest) heap.lfree ∧
      LiveBlocks cfg (cutBlock cfg heap block fresh amount) live
        ((before ++ [block]) ++ fresh :: after :: rest) := by
  have hnext := (List.isChain_append_cons_cons.1 hinv.tiled.chain.adjacent).2.1.1
  obtain ⟨hleft, -, hright⟩ := List.isChain_append_cons_cons.1 hinv.coalesced
  have hend := hinv.geometry.heapEnd_eq
  have hword := hinv.geometry.fits
  have htiled := hinv.tiled.insert (by rw [cfg.add_eq (by omega), hend]) hlow hhigh haligned
  have hfresh : fresh ∉ before ++ block :: after :: rest :=
    hinv.tiled.chain.not_mem_of_inside (by simp) (show block < fresh by omega) (by omega)
  have hused : ∀ other ∈ before ++ block :: after :: rest,
      ((cutBlock cfg heap block fresh amount).mem other).used = (heap.mem other).used := by
    intro other hother
    have hne : other ≠ fresh := fun hsame => hfresh (hsame ▸ hother)
    rw [cutBlock, used_splitBlock, if_neg hne]
  rw [List.append_assoc, List.singleton_append]
  refine ⟨htiled, Coalesced.congr hleft fun other hother => ?_,
    Coalesced.congr hright fun other hother => ?_, ⟨?_, ?_⟩, fun pointer => ?_⟩
  · rw [hused other (Links.mem_of_mem_upTo hother)]
    exact id
  · rw [hused other (Links.mem_of_mem_from hother)]
    exact id
  · exact Links.mem_insert_iff.2 (.inr hinv.lfree.1)
  · rw [hused _ hinv.lfree.1]
    exact hinv.lfree.2
  · rw [hinv.live pointer]
    constructor
    · rintro ⟨other, hother, hne, hother', hpointer⟩
      refine ⟨other, Links.mem_insert_iff.2 (.inr hother), hne, ?_, hpointer⟩
      rwa [hused other hother]
    · rintro ⟨other, hother, hne, hother', hpointer⟩
      rcases Links.mem_insert_iff.1 hother with rfl | hold
      · exact absurd (by simp [cutBlock, used_splitBlock]) hother'
      · exact ⟨other, hold, hne, hused other hold ▸ hother', hpointer⟩

/-- The end that is cut off a block becomes an unused block, merged with the block
after it.  Only if `lfree` is below, or is the block it merges with, does `lfree` stay
the lowest unused block. -/
theorem shrink_spec (hinv : Inv cfg heap live headers) (hblock : block ∈ headers)
    (hne : block ≠ heap.heapEnd) (hused : (heap.mem block).used ≠ 0)
    (haligned : cfg.rtAlignSize ∣ newsize) (hpos : 0 < newsize)
    (hroom : block + cfg.sizeofStructMem + newsize + cfg.sizeofStructMem <
      (heap.mem block).next) :
    ∃ heap' headers', shrink cfg heap block size newsize = .ok heap' ∧
      Inv cfg heap' live headers' ∧
      (NoneBelow heap.mem headers heap.lfree →
        (NoneBelow heap'.mem headers' heap'.lfree ↔ LfreeBelowOrNext heap block)) := by
  obtain ⟨-, hnext, hword⟩ := hinv.block_bounds hblock hne
  have hstart : cfg.add block cfg.sizeofStructMem = block + cfg.sizeofStructMem :=
    cfg.add_eq (by omega)
  have hsum : cfg.add (block + cfg.sizeofStructMem) newsize =
      block + cfg.sizeofStructMem + newsize :=
    cfg.add_eq (by omega)
  have hfreshAligned : cfg.rtAlignSize ∣ block + cfg.sizeofStructMem + newsize :=
    ((hinv.tiled.aligned block hblock).add (cfg.rtAlignSize_dvd_rtAlign _)).add haligned
  simp only [shrink, hstart, hsum]
  generalize hfresh : block + cfg.sizeofStructMem + newsize = fresh at hfreshAligned hroom ⊢
  generalize cfg.sub size newsize = amount
  obtain ⟨before, rest, hheaders⟩ := hinv.tiled.chain.split_next hblock hne
  have hlow : block + cfg.sizeofStructMem < fresh := by omega
  obtain ⟨htiled, hleft, hright, hlfree, hliveBlocks⟩ :=
    cutBlock_spec (hheaders ▸ hinv) hlow hroom hfreshAligned amount
  have hend : fresh ≠ heap.heapEnd := by omega
  have hunused : ((cutBlock cfg heap block fresh amount).mem fresh).used = 0 := by
    simp [cutBlock, used_splitBlock]
  obtain ⟨heap', headers', hplug, hmerged, hcoalesced, hsurvives, hkept, hmoved⟩ :=
    plugHoles_spec htiled hend hunused hleft hright hlfree
  refine ⟨heap', headers', hplug, hmerged.inv hinv.geometry hcoalesced hliveBlocks,
    fun hnone => ?_⟩
  have hafter : ((cutBlock cfg heap block fresh amount).mem fresh).next =
      (heap.mem block).next := by
    simp [cutBlock, next_splitBlock, show fresh ≠ block by omega]
  -- what is unused afterwards is the new block, or was unused before
  have hold : ∀ other ∈ headers', (heap'.mem other).used = 0 →
      other = fresh ∨ heap.lfree ≤ other := by
    intro other hother hzero
    by_cases hsame : other = fresh
    · exact .inl hsame
    · have hmem : other ∈ headers := by
        have hmem := hmerged.subset other hother
        rw [List.append_assoc, List.singleton_append, Links.mem_insert_iff] at hmem
        exact hheaders ▸ hmem.resolve_left hsame
      rw [hmerged.used, cutBlock, used_splitBlock, if_neg hsame] at hzero
      exact .inr (hnone other hmem hzero)
  constructor
  · intro hnone'
    by_contra hnot
    rw [LfreeBelowOrNext, not_or, not_and_or, not_not] at hnot
    have hblockne : block ≠ heap.lfree := by
      rintro rfl
      exact hinv.lfree.2.elim hne hused
    have hle : (heap.mem block).next ≤ heap.lfree :=
      hinv.tiled.chain.next_le hblock hinv.lfree.1 (by omega)
    have hlfree' : heap'.lfree = heap.lfree :=
      hkept (show heap.lfree ≠ fresh by omega) (by rw [hafter]; exact hnot.2)
    have hmem : fresh ∈ headers' := by
      apply hsurvives
      intro previous hprevious
      obtain rfl : block = previous := by simpa using hprevious
      simpa [cutBlock, used_splitBlock, show block ≠ fresh by omega] using hused
    have hlow := hnone' fresh hmem (by rw [hmerged.used]; exact hunused)
    omega
  · rintro (hbelow | ⟨hnext', hend'⟩) other hother hzero
    · have hle : heap'.lfree ≤ heap.lfree := hmerged.lfree_le
      rcases hold other hother hzero with rfl | hlow <;> omega
    · have hle : heap'.lfree ≤ fresh := hmoved (hnext'.trans hafter.symm) hend'
      rcases hold other hother hzero with rfl | hlow <;> omega

/-- The condition under which `rt_realloc` keeps `lfree` the lowest unused block. -/
def ReallocKeepsLowest (cfg : HeapConfig) (heap : Heap) (rmem newsize : ℕ) : Prop :=
  Cuts cfg heap rmem newsize → LfreeBelowOrNext heap (headerOf cfg heap rmem)

instance : Decidable (ReallocKeepsLowest cfg heap rmem newsize) :=
  inferInstanceAs (Decidable (_ → _))

theorem expand_spec (hinv : Inv cfg heap live headers) (hlive : rmem ∈ live) :
    ∃ heap' pointer headers', expand cfg heap rmem size newsize = .ok (heap', pointer) ∧
      Inv cfg heap' (if pointer = 0 then live else insert pointer (live.erase rmem)) headers' ∧
      (NoneBelow heap.mem headers heap.lfree → NoneBelow heap'.mem headers' heap'.lfree) := by
  obtain ⟨heap', pointer, headers', hmalloc, hinv', hfresh, hnone⟩ := rtMalloc_spec hinv newsize
  simp only [expand, hmalloc, ok_bind]
  by_cases hnull : pointer = 0
  · refine ⟨heap', 0, headers', by rw [if_pos hnull]; rfl, ?_, hnone⟩
    simpa [afterMalloc, hnull] using hinv'
  · rw [if_neg hnull]
    rw [afterMalloc, if_neg hnull] at hinv'
    generalize rtMemcpy heap'.data pointer rmem (if size < newsize then size else newsize) = data
    have hcopied : Inv cfg { heap' with data := data } (insert pointer live) headers' :=
      ⟨hinv'.geometry, hinv'.tiled, hinv'.coalesced, hinv'.lfree, hinv'.live⟩
    obtain ⟨heap'', headers'', hfree, hinv'', hnone'⟩ :=
      rtFree_spec hcopied (Finset.mem_insert_of_mem hlive)
    refine ⟨heap'', pointer, headers'', ?_, ?_, fun hlow => hnone' (hnone hlow)⟩
    · rw [hfree]
      rfl
    · have hne : pointer ≠ rmem := fun hsame => hfresh (hsame ▸ hlive)
      rw [if_neg hnull, ← Finset.erase_insert_of_ne hne]
      exact hinv''

/-- Outside the path that cuts a block, there is no condition on `lfree`. -/
theorem noneBelow_iff_of_not_cuts {heap' : Heap} {headers' : List ℕ}
    (hcuts : ¬ Cuts cfg heap rmem newsize)
    (hnone : NoneBelow heap.mem headers heap.lfree → NoneBelow heap'.mem headers' heap'.lfree)
    (hlow : NoneBelow heap.mem headers heap.lfree) :
    NoneBelow heap'.mem headers' heap'.lfree ↔ ReallocKeepsLowest cfg heap rmem newsize :=
  ⟨fun _ hcut => absurd hcut hcuts, fun _ => hnone hlow⟩

/-- The block of a live pointer is kept, cut, or left for another one. -/
theorem rtRealloc_live_eq (hinv : Inv cfg heap live headers) (hblock : block ∈ headers)
    (hne : block ≠ heap.heapEnd) (hlarge : cfg.rtAlign newsize ≤ heap.memSizeAligned)
    (hzero : cfg.rtAlign newsize ≠ 0) :
    rtRealloc cfg heap (heap.heapPtr + block + cfg.sizeofStructMem) newsize =
      if payloadSize cfg heap block = cfg.rtAlign newsize then
        .ok (heap, heap.heapPtr + block + cfg.sizeofStructMem)
      else if shrinks cfg (payloadSize cfg heap block) (cfg.rtAlign newsize) then do
        let heap' ← shrink cfg heap block (payloadSize cfg heap block)
          (cfg.rtAlign newsize)
        return (heap', heap.heapPtr + block + cfg.sizeofStructMem)
      else
        expand cfg heap (heap.heapPtr + block + cfg.sizeofStructMem)
          (payloadSize cfg heap block) (cfg.rtAlign newsize) := by
  obtain ⟨hroom, hnext, hword⟩ := hinv.block_bounds hblock hne
  have hpos : 0 < cfg.sizeofStructMem := sizeofStructMem_pos
  have hend : cfg.add heap.heapPtr heap.heapEnd = heap.heapPtr + heap.heapEnd :=
    cfg.add_eq (by omega)
  simp only [rtRealloc, if_neg hlarge.not_gt, if_neg hzero, hend, hinv.headerOf_eq hblock hne]
  rw [if_neg (by omega), if_neg (by omega)]

/-- The test for cutting a block does not wrap around. -/
theorem shrinks_iff (hinv : Inv cfg heap live headers) (hblock : block ∈ headers)
    (hne : block ≠ heap.heapEnd) (hlarge : cfg.rtAlign newsize ≤ heap.memSizeAligned) :
    shrinks cfg (payloadSize cfg heap block) (cfg.rtAlign newsize) ↔
      cfg.rtAlign newsize + cfg.sizeofStructMem + cfg.minSize <
        (heap.mem block).next - block - cfg.sizeofStructMem := by
  obtain ⟨hroom, hnext, hword⟩ := hinv.block_bounds hblock hne
  have hgeometry := hinv.geometry.heapEnd_eq
  have hmin : cfg.minSize ≤ cfg.sizeofStructMem :=
    cfg.minSize_le_minSizeAligned.trans cfg.minSizeAligned_le
  have hsum : cfg.add (cfg.rtAlign newsize) cfg.sizeofStructMem =
      cfg.rtAlign newsize + cfg.sizeofStructMem :=
    cfg.add_eq (by omega)
  rw [shrinks, hsum, cfg.add_eq (by omega), hinv.payloadSize_eq hblock hne]

/-- `rt_realloc` of a live pointer, for a size that is neither zero nor too large. -/
theorem rtRealloc_live_spec (hinv : Inv cfg heap live headers) (hlive : rmem ∈ live)
    (hlarge : cfg.rtAlign newsize ≤ heap.memSizeAligned)
    (hzero : cfg.rtAlign newsize ≠ 0) :
    ∃ heap' pointer headers', rtRealloc cfg heap rmem newsize = .ok (heap', pointer) ∧
      Inv cfg heap' (if pointer = 0 then live else insert pointer (live.erase rmem)) headers' ∧
      (NoneBelow heap.mem headers heap.lfree →
        (NoneBelow heap'.mem headers' heap'.lfree ↔
          ReallocKeepsLowest cfg heap rmem newsize)) := by
  have hpos := hinv.ne_zero hlive
  have hkept : insert rmem (live.erase rmem) = live := Finset.insert_erase hlive
  obtain ⟨block, hblock, hne, hused, rfl, hheader⟩ := hinv.exists_block hlive
  have hshrinks := shrinks_iff hinv hblock hne hlarge
  have hcuts : Cuts cfg heap (heap.heapPtr + block + cfg.sizeofStructMem) newsize ↔
      shrinks cfg (payloadSize cfg heap block) (cfg.rtAlign newsize) := by
    rw [Cuts, hheader]
    tauto
  rw [rtRealloc_live_eq hinv hblock hne hlarge hzero]
  by_cases hsame : payloadSize cfg heap block = cfg.rtAlign newsize
  · refine ⟨heap, _, headers, by rw [if_pos hsame], ?_,
      noneBelow_iff_of_not_cuts (fun hcut => ?_) id⟩
    · rwa [if_neg hpos, hkept]
    · have hlt := hshrinks.1 (hcuts.1 hcut)
      rw [hinv.payloadSize_eq hblock hne] at hsame
      omega
  rw [if_neg hsame]
  by_cases hcut : shrinks cfg (payloadSize cfg heap block) (cfg.rtAlign newsize)
  · have hlt := hshrinks.1 hcut
    obtain ⟨heap', headers', hshrink, hinv', hnone⟩ :=
      shrink_spec hinv hblock hne hused (cfg.rtAlignSize_dvd_rtAlign newsize) (by omega)
        (by omega)
    refine ⟨heap', _, headers', by rw [if_pos hcut, hshrink]; rfl, ?_, fun hlow => ?_⟩
    · rwa [if_neg hpos, hkept]
    · rw [hnone hlow, ReallocKeepsLowest, hheader]
      exact ⟨fun hkeeps _ => hkeeps, fun hkeeps => hkeeps (hcuts.2 hcut)⟩
  · obtain ⟨heap', pointer, headers', hexpand, hinv', hnone⟩ := expand_spec hinv hlive
    exact ⟨heap', pointer, headers', by rw [if_neg hcut]; exact hexpand, hinv',
      noneBelow_iff_of_not_cuts (fun hcut' => hcut (hcuts.1 hcut')) hnone⟩

theorem rtRealloc_spec (hinv : Inv cfg heap live headers) (hholds : rmem = 0 ∨ rmem ∈ live)
    (newsize : ℕ) :
    ∃ heap' pointer headers', rtRealloc cfg heap rmem newsize = .ok (heap', pointer) ∧
      Inv cfg heap' (afterRealloc cfg live rmem newsize pointer) headers' ∧
      (NoneBelow heap.mem headers heap.lfree →
        (NoneBelow heap'.mem headers' heap'.lfree ↔
          ReallocKeepsLowest cfg heap rmem newsize)) := by
  have hnull : (0 : ℕ) ∉ live := fun hlive => hinv.ne_zero hlive rfl
  by_cases hlarge : heap.memSizeAligned < cfg.rtAlign newsize
  · refine ⟨heap, 0, headers, by rw [rtRealloc, if_pos hlarge], ?_,
      noneBelow_iff_of_not_cuts (fun hcut => absurd hcut.1 hlarge.not_ge) id⟩
    rwa [afterRealloc, if_neg (by omega), if_pos rfl]
  by_cases hzero : cfg.rtAlign newsize = 0
  · have hcuts : ¬ Cuts cfg heap rmem newsize := fun hcut => hcut.2.1 hzero
    simp only [rtRealloc, if_neg hlarge, if_pos hzero, afterRealloc]
    rcases hholds with rfl | hlive
    · rw [Finset.erase_eq_of_notMem hnull]
      exact ⟨heap, 0, headers, by rw [rtFree, if_pos rfl]; rfl, hinv,
        noneBelow_iff_of_not_cuts hcuts id⟩
    · obtain ⟨heap', headers', hfree, hinv', hnone⟩ := rtFree_spec hinv hlive
      exact ⟨heap', 0, headers', by rw [hfree]; rfl, hinv', noneBelow_iff_of_not_cuts hcuts hnone⟩
  simp only [afterRealloc, if_neg hzero]
  rcases hholds with rfl | hlive
  · obtain ⟨heap', pointer, headers', hmalloc, hinv', -, hnone⟩ :=
      rtMalloc_spec hinv (cfg.rtAlign newsize)
    refine ⟨heap', pointer, headers', ?_, ?_,
      noneBelow_iff_of_not_cuts (fun hcut => hcut.2.2.1 rfl) hnone⟩
    · rw [rtRealloc, if_neg hlarge, if_neg hzero, if_pos rfl, hmalloc]
    · rwa [Finset.erase_eq_of_notMem hnull]
  · exact rtRealloc_live_spec hinv hlive (not_lt.1 hlarge) hzero

end Realloc

end RtThread.SmallMem
