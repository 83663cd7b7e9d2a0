import RtThread.Heap.SmallMemRequests

set_option linter.all false

/-!
# What `rt_realloc` keeps

`rt_realloc` keeps a block, cuts its end off, or moves its payload.  Each of these
leaves the other used blocks alone but for the back link of a block whose
predecessor changes, and a request that is not served leaves the heap alone.  A
block that is to become a little smaller is moved like one that is to grow.
-/

namespace RtThread.SmallMem

open RtThread.Core

variable {cfg : HeapConfig}

/-- The header of a block but for its back link. -/
structure SameBlock (before after : HeapMem) : Prop where
  magic : after.magic = before.magic
  used : after.used = before.used
  next : after.next = before.next

theorem SameBlock.refl (header : HeapMem) : SameBlock header header :=
  ⟨rfl, rfl, rfl⟩

theorem SameBlock.trans {first second third : HeapMem} (hfirst : SameBlock first second)
    (hsecond : SameBlock second third) : SameBlock first third :=
  ⟨hsecond.magic.trans hfirst.magic, hsecond.used.trans hfirst.used,
    hsecond.next.trans hfirst.next⟩

/-- What a caller gets that holds `p` and asks for `n` bytes: room for them, and the
bytes of `p` that fit.  The other callers' bytes stay, and their headers as `same`
says. -/
structure Moved (cfg : HeapConfig) (same : HeapMem → HeapMem → Prop) (heap : Heap)
    (live : Finset ℕ) (p n : ℕ) (heap' : Heap) (q : ℕ) : Prop where
  room : n ≤ payloadSize cfg heap' (headerOf cfg heap' q)
  bytes : ∀ i < min (payloadSize cfg heap (headerOf cfg heap p)) n,
    heap'.data (q + i) = heap.data (p + i)
  header : ∀ other ∈ live, other ≠ p →
    same (heap.mem (headerOf cfg heap other)) (heap'.mem (headerOf cfg heap other))
  payload : ∀ other ∈ live, other ≠ p → ∀ address ∈ payload cfg heap other,
    heap'.data address = heap.data address

/-- The law of `rt_realloc`: the payload is moved or everything stays, and where
`safe` holds of the old and the rounded new size the request is served. -/
structure ReallocLaw (cfg : HeapConfig) (same : HeapMem → HeapMem → Prop)
    (safe : ℕ → ℕ → Prop) (heap : Heap) (live : Finset ℕ) (p n : ℕ) : Prop where
  returns : ∃ heap' q, rtRealloc cfg heap p n = .ok (heap', q) ∧
    (q = 0 ∧ heap' = heap ∨ q ≠ 0 ∧ Moved cfg same heap live p n heap' q)
  served : safe (payloadSize cfg heap (headerOf cfg heap p)) (cfg.rtAlign n) →
    ∀ heap', rtRealloc cfg heap p n ≠ .ok (heap', 0)

/-- The block is kept, or its end is large enough for a block of its own. -/
def InPlace (cfg : HeapConfig) (size newsize : ℕ) : Prop :=
  newsize = size ∨ newsize + cfg.sizeofStructMem + cfg.minSize < size

section Frames

variable {heap heap' : Heap} {live : Finset ℕ} {headers : List ℕ}
  {block mem fresh size other : ℕ}

/-- A heap in which the used blocks of another one are as they were. -/
structure Keeps (heap heap' : Heap) (blocks : Set ℕ) : Prop where
  heapPtr : heap'.heapPtr = heap.heapPtr
  data : heap'.data = heap.data
  same : ∀ other ∈ blocks, SameBlock (heap.mem other) (heap'.mem other)

theorem Keeps.mono {blocks fewer : Set ℕ} (hkeeps : Keeps heap heap' blocks)
    (hsubset : fewer ⊆ blocks) : Keeps heap heap' fewer :=
  ⟨hkeeps.heapPtr, hkeeps.data, fun other hother => hkeeps.same other (hsubset hother)⟩

def usedBlocks (heap : Heap) : Set ℕ :=
  {other | (heap.mem other).used ≠ 0}

/-- The blocks that stay used are kept by what keeps the used blocks. -/
theorem Keeps.trans_used {heap'' : Heap} {blocks : Set ℕ} (hfirst : Keeps heap heap' blocks)
    (hsecond : Keeps heap' heap'' (usedBlocks heap')) :
    Keeps heap heap'' (blocks ∩ usedBlocks heap) where
  heapPtr := hsecond.heapPtr.trans hfirst.heapPtr
  data := hsecond.data.trans hfirst.data
  same other hother := by
    have hsame := hfirst.same other hother.1
    refine hsame.trans (hsecond.same other ?_)
    change (heap'.mem other).used ≠ 0
    rw [hsame.used]
    exact hother.2

theorem keeps_merge {lfree after : ℕ} (hblock : (heap.mem block).used = 0) :
    Keeps heap { heap with
        lfree := lfree, mem := setPrev (setNext heap.mem block after) after block }
      (usedBlocks heap) where
  heapPtr := rfl
  data := rfl
  same other hother := by
    have hne : other ≠ block := fun hsame => hother (hsame ▸ hblock)
    exact ⟨by simp, by simp, by simp [hne]⟩

theorem keeps_plugHoleForward (hmem : (heap.mem mem).used = 0) :
    Keeps heap (plugHoleForward heap mem) (usedBlocks heap) := by
  simp only [plugHoleForward]
  split
  · exact keeps_merge hmem
  · exact ⟨rfl, rfl, fun other _ => .refl _⟩

theorem keeps_plugHoleBackward :
    Keeps heap (plugHoleBackward heap mem) (usedBlocks heap) := by
  simp only [plugHoleBackward]
  split
  · next hmerge => exact keeps_merge hmerge.2
  · exact ⟨rfl, rfl, fun other _ => .refl _⟩

theorem keeps_plugHoles (hmem : mem < heap.heapEnd) (hunused : (heap.mem mem).used = 0)
    (hplug : plugHoles heap mem = .ok heap') : Keeps heap heap' (usedBlocks heap) := by
  rw [plugHoles, rtAssert_bind hmem, rtAssert_bind hunused] at hplug
  obtain rfl := Except.ok.inj hplug
  exact ((keeps_plugHoleForward hunused).trans_used keeps_plugHoleBackward).mono
    fun other hother => ⟨hother, hother⟩

/-- A split writes the block that is split and the new block, and a back link. -/
theorem sameBlock_splitBlock (hblock : other ≠ block) (hfresh : other ≠ fresh) :
    SameBlock (heap.mem other) (splitBlock cfg heap block fresh other) :=
  ⟨by rw [magic_splitBlock, if_neg hfresh], by rw [used_splitBlock, if_neg hfresh],
    by rw [next_splitBlock, if_neg hblock, if_neg hfresh]⟩

theorem keeps_takeBlock (hinv : Inv cfg heap live headers)
    (hfits : Fits cfg heap headers size block) (hpos : 0 < size) :
    Keeps heap (takeBlock cfg heap block size) {other | other ∈ headers ∧ other ≠ block} := by
  obtain ⟨hblock, hne, -, hroom⟩ := hfits
  obtain ⟨-, hnext, hword⟩ := hinv.block_bounds hblock hne
  have hstruct : 0 < cfg.sizeofStructMem := sizeofStructMem_pos
  have hstart : cfg.add block cfg.sizeofStructMem = block + cfg.sizeofStructMem :=
    cfg.add_eq (by omega)
  have hfresh : cfg.add (block + cfg.sizeofStructMem) size =
      block + cfg.sizeofStructMem + size :=
    cfg.add_eq (by omega)
  have hpayload : cfg.sub (heap.mem block).next (block + cfg.sizeofStructMem) =
      (heap.mem block).next - (block + cfg.sizeofStructMem) :=
    cfg.sub_eq (by omega) (by omega)
  have hneed : cfg.add size cfg.sizeofStructMem = size + cfg.sizeofStructMem :=
    cfg.add_eq (by omega)
  have hneed' : cfg.add (size + cfg.sizeofStructMem) cfg.minSizeAligned =
      size + cfg.sizeofStructMem + cfg.minSizeAligned :=
    cfg.add_eq (by
      have hle := cfg.minSizeAligned_le
      omega)
  simp only [takeBlock, hstart, hfresh, hpayload, hneed, hneed']
  split
  · next hsplit =>
      refine ⟨rfl, rfl, fun other hother => ?_⟩
      obtain ⟨hmem, hother⟩ := hother
      have hnew : other ≠ block + cfg.sizeofStructMem + size := by
        rintro rfl
        have hle := hinv.tiled.chain.next_le hblock hmem (by omega)
        change (heap.mem block).next ≤ _ at hle
        omega
      have hsame : SameBlock (heap.mem other) (splitBlock cfg heap block
          (block + cfg.sizeofStructMem + size) other) := sameBlock_splitBlock hother hnew
      refine hsame.trans ⟨?_, ?_, ?_⟩ <;> simp [addUsedMem, hother]
  · refine ⟨rfl, rfl, fun other hother => ?_⟩
    have hother := hother.2
    refine ⟨?_, ?_, ?_⟩ <;> simp [addUsedMem, hother]

theorem keeps_cutBlock (hinv : Inv cfg heap live headers) (hblock : block ∈ headers)
    (hlow : block < fresh) (hhigh : fresh < (heap.mem block).next) (amount : ℕ) :
    Keeps heap (cutBlock cfg heap block fresh amount)
      {other | other ∈ headers ∧ other ≠ block} := by
  refine ⟨rfl, rfl, fun other hother => ?_⟩
  obtain ⟨hmem, hother⟩ := hother
  have hnew : other ≠ fresh := by
    rintro rfl
    have hle := hinv.tiled.chain.next_le hblock hmem hlow
    change (heap.mem block).next ≤ _ at hle
    omega
  exact sameBlock_splitBlock hother hnew

theorem keeps_releaseBlock (heap : Heap) (block : ℕ) :
    Keeps heap (releaseBlock cfg heap block) {other | other ≠ block} := by
  refine ⟨rfl, rfl, fun other hother => ?_⟩
  have hother : other ≠ block := hother
  refine ⟨?_, ?_, ?_⟩ <;> simp [releaseBlock, hother]

/-- Freeing a live pointer leaves the used blocks of the others. -/
theorem keeps_rtFree (hinv : Inv cfg heap live headers) (hblock : block ∈ headers)
    (hne : block ≠ heap.heapEnd) (hused : (heap.mem block).used ≠ 0)
    (hfree : rtFree cfg heap (heap.heapPtr + block + cfg.sizeofStructMem) = .ok heap') :
    Keeps heap heap' ({other | other ≠ block} ∩ usedBlocks heap) := by
  rw [rtFree_eq hinv hblock hne hused] at hfree
  have hlt : block < (releaseBlock cfg heap block).heapEnd :=
    lt_of_le_of_ne (hinv.tiled.chain.le_last hblock) hne
  have hunused : ((releaseBlock cfg heap block).mem block).used = 0 := by simp
  exact (keeps_releaseBlock heap block).trans_used (keeps_plugHoles hlt hunused hfree)

/-- Cutting the end off a block is a split and a merge. -/
theorem shrink_eq {newsize : ℕ} (hinv : Inv cfg heap live headers)
    (hblock : block ∈ headers) (hne : block ≠ heap.heapEnd)
    (hroom : block + cfg.sizeofStructMem + newsize < (heap.mem block).next) :
    shrink cfg heap block size newsize =
      plugHoles (cutBlock cfg heap block (block + cfg.sizeofStructMem + newsize)
        (cfg.sub size newsize)) (block + cfg.sizeofStructMem + newsize) := by
  obtain ⟨-, hnext, hword⟩ := hinv.block_bounds hblock hne
  have hstart : cfg.add block cfg.sizeofStructMem = block + cfg.sizeofStructMem :=
    cfg.add_eq (by omega)
  have hsum : cfg.add (block + cfg.sizeofStructMem) newsize =
      block + cfg.sizeofStructMem + newsize :=
    cfg.add_eq (by omega)
  simp only [shrink, hstart, hsum]

theorem keeps_shrink {newsize : ℕ} (hinv : Inv cfg heap live headers)
    (hblock : block ∈ headers) (hne : block ≠ heap.heapEnd)
    (hroom : block + cfg.sizeofStructMem + newsize < (heap.mem block).next)
    (hshrink : shrink cfg heap block size newsize = .ok heap') :
    Keeps (cutBlock cfg heap block (block + cfg.sizeofStructMem + newsize)
        (cfg.sub size newsize)) heap'
      (usedBlocks (cutBlock cfg heap block (block + cfg.sizeofStructMem + newsize)
        (cfg.sub size newsize))) := by
  have hnext := (hinv.block_bounds hblock hne).2.1
  rw [shrink_eq hinv hblock hne hroom] at hshrink
  refine keeps_plugHoles ?_ ?_ hshrink
  · exact hroom.trans_le hnext
  · simp [cutBlock, used_splitBlock]

/-- The used blocks of the others when the end of a block is cut off. -/
theorem keeps_others_shrink {newsize : ℕ} (hinv : Inv cfg heap live headers)
    (hblock : block ∈ headers) (hne : block ≠ heap.heapEnd)
    (hroom : block + cfg.sizeofStructMem + newsize < (heap.mem block).next)
    (hshrink : shrink cfg heap block size newsize = .ok heap') :
    Keeps heap heap' ({other | other ∈ headers ∧ other ≠ block} ∩ usedBlocks heap) := by
  have hstruct : 0 < cfg.sizeofStructMem := sizeofStructMem_pos
  have hlow : block < block + cfg.sizeofStructMem + newsize := by omega
  exact (keeps_cutBlock hinv hblock hlow hroom _).trans_used
    (keeps_shrink hinv hblock hne hroom hshrink)

end Frames

section Realloc

variable {heap heap' : Heap} {live : Finset ℕ} {headers : List ℕ} {block p q n size newsize : ℕ}

/-- The rounded size has room for the request where the rounding does not wrap
around. -/
theorem le_rtAlign_of_ne_zero (hword : n < cfg.wordSize) (hzero : cfg.rtAlign n ≠ 0) :
    n ≤ cfg.rtAlign n := by
  by_cases hfits : n + cfg.rtAlignSize ≤ cfg.wordSize
  · exact cfg.le_rtAlign hfits
  · refine absurd ?_ hzero
    have hsmall := cfg.rtAlignSize_le
    have hlarge := cfg.wordSize_ge
    have hmod : (n + (cfg.rtAlignSize - 1)) % cfg.wordSize < cfg.rtAlignSize := by
      rw [Nat.mod_eq_sub_mod (by omega), Nat.mod_eq_of_lt (by omega)]
      omega
    rw [HeapConfig.rtAlign, cfg.rtAlignDown_eq, Nat.mod_mod, Nat.div_eq_of_lt hmod, zero_mul]

theorem Inv.other_block (hinv : Inv cfg heap live headers) (block : ℕ) {other : ℕ}
    (hother : other ∈ live)
    (hdifferent : other ≠ heap.heapPtr + block + cfg.sizeofStructMem) :
    headerOf cfg heap other ∈
      {header | header ∈ headers ∧ header ≠ block} ∩ usedBlocks heap := by
  obtain ⟨header, hheader, -, hused, hpointer, heq⟩ := hinv.exists_block hother
  rw [heq]
  exact ⟨⟨hheader, fun hsame => hdifferent (by rw [hpointer, hsame])⟩, hused⟩

/-- What keeps the other blocks keeps the headers and the bytes of the other live
pointers. -/
theorem Inv.moved_of_keeps (hinv : Inv cfg heap live headers)
    (hkeeps : Keeps heap heap'
      ({header | header ∈ headers ∧ header ≠ block} ∩ usedBlocks heap))
    (hroom : n ≤ payloadSize cfg heap'
      (headerOf cfg heap' (heap.heapPtr + block + cfg.sizeofStructMem))) :
    Moved cfg SameBlock heap live (heap.heapPtr + block + cfg.sizeofStructMem) n heap'
      (heap.heapPtr + block + cfg.sizeofStructMem) where
  room := hroom
  bytes i _ := by rw [hkeeps.data]
  header other hother hdifferent := hkeeps.same _ (hinv.other_block block hother hdifferent)
  payload other _ _ address _ := by rw [hkeeps.data]

theorem payloadSize_shrink (hinv : Inv cfg heap live headers) (hblock : block ∈ headers)
    (hne : block ≠ heap.heapEnd) (hused : (heap.mem block).used ≠ 0)
    (hroom : block + cfg.sizeofStructMem + newsize < (heap.mem block).next)
    (hshrink : shrink cfg heap block size newsize = .ok heap') :
    payloadSize cfg heap' block = newsize := by
  obtain ⟨-, hnext, hword⟩ := hinv.block_bounds hblock hne
  have hstruct : 0 < cfg.sizeofStructMem := sizeofStructMem_pos
  have hnew : block ≠ block + cfg.sizeofStructMem + newsize := by omega
  have hcut : block ∈ usedBlocks (cutBlock cfg heap block
      (block + cfg.sizeofStructMem + newsize) (cfg.sub size newsize)) := by
    change (splitBlock cfg heap block _ block).used ≠ 0
    rw [used_splitBlock, if_neg hnew]
    exact hused
  have hafter := ((keeps_shrink hinv hblock hne hroom hshrink).same block hcut).next
  rw [cutBlock, next_splitBlock, if_pos rfl] at hafter
  have hdistance : cfg.sub (block + cfg.sizeofStructMem + newsize) block =
      cfg.sizeofStructMem + newsize := by
    rw [cfg.sub_eq (by omega) (by omega)]
    omega
  rw [payloadSize, hafter, hdistance, cfg.sub_eq (by omega) (by omega)]
  omega

/-- `rt_malloc` gives up, or hands out a new payload and leaves the used blocks. -/
theorem Inv.rtMalloc_keeps (hinv : Inv cfg heap live headers) (request : ℕ) :
    rtMalloc cfg heap request = .ok (heap, 0) ∨
      ∃ heap' q headers', rtMalloc cfg heap request = .ok (heap', q) ∧ q ≠ 0 ∧ q ∉ live ∧
        Inv cfg heap' (insert q live) headers' ∧
        Keeps heap heap' ({header | header ∈ headers} ∩ usedBlocks heap) ∧
        requestSize cfg request ≤ payloadSize cfg heap' (headerOf cfg heap' q) := by
  rcases rtMalloc_cases hinv request with hnone | ⟨block, hfits, htaken⟩
  · exact .inl hnone
  · obtain ⟨lfree, headers', hallocate, hinv', -⟩ :=
      allocate_spec hinv hfits (rtAlignSize_dvd_requestSize request) (requestSize_pos request)
    obtain ⟨hpointer, hroom, -⟩ := allocate_payload hinv hfits
      (rtAlignSize_dvd_requestSize request) (requestSize_pos request) hallocate
    have htake := keeps_takeBlock hinv hfits (requestSize_pos request)
    refine .inr ⟨_, _, headers', htaken.trans hallocate, hpointer, hfits.not_live hinv, hinv',
      ⟨htake.heapPtr, htake.data, fun other hother => ?_⟩, hroom⟩
    exact htake.same other ⟨hother.1, fun hsame => hother.2 (hsame ▸ hfits.unused)⟩

theorem Inv.mem_payload (hinv : Inv cfg heap live headers) (hlive : q ∈ live)
    (hsize : size ≤ payloadSize cfg heap (headerOf cfg heap q)) {address : ℕ}
    (hlow : q ≤ address) (hhigh : address < q + size) : address ∈ payload cfg heap q := by
  obtain ⟨block, hblock, hne, -, rfl, hheader⟩ := hinv.exists_block hlive
  obtain ⟨hroom, -, -⟩ := hinv.block_bounds hblock hne
  rw [hheader, hinv.payloadSize_eq hblock hne] at hsize
  rw [payload, hheader]
  exact ⟨hlow, by omega⟩

theorem rtMemcpy_of_lt (data : ℕ → UInt8) (dst src : ℕ) {count i : ℕ} (hi : i < count) :
    rtMemcpy data dst src count (dst + i) = data (src + i) := by
  rw [rtMemcpy, if_pos (by omega), Nat.add_sub_cancel_left]

theorem rtMemcpy_of_notMem (data : ℕ → UInt8) (dst src : ℕ) {count address : ℕ}
    (houtside : ¬ (dst ≤ address ∧ address < dst + count)) :
    rtMemcpy data dst src count address = data address :=
  if_neg houtside

theorem Inv.rtFree_keeps (hinv : Inv cfg heap live headers) (hlive : p ∈ live) :
    ∃ heap', rtFree cfg heap p = .ok heap' ∧
      Keeps heap heap' ({header | header ≠ headerOf cfg heap p} ∩ usedBlocks heap) := by
  obtain ⟨heap', -, hfree, -⟩ := rtFree_spec hinv hlive
  obtain ⟨block, hblock, hne, hused, hpointer, hheader⟩ := hinv.exists_block hlive
  refine ⟨heap', hfree, ?_⟩
  rw [hheader]
  exact keeps_rtFree hinv hblock hne hused (hpointer ▸ hfree)

/-- The payload is copied into a new block, and its own block is freed. -/
theorem Inv.moved_copy {heap₁ : Heap} {headers₁ : List ℕ} (count : ℕ)
    (hinv : Inv cfg heap live headers) (hinv₁ : Inv cfg heap₁ (insert q live) headers₁)
    (hlive : p ∈ live) (hfresh : q ∉ live)
    (hkeeps : Keeps heap heap₁ ({header | header ∈ headers} ∩ usedBlocks heap))
    (hroom : newsize ≤ payloadSize cfg heap₁ (headerOf cfg heap₁ q))
    (hle : count ≤ newsize) (hn : n ≤ newsize)
    (hcount : min (payloadSize cfg heap (headerOf cfg heap p)) n ≤ count) :
    ∃ heap', rtFree cfg { heap₁ with data := rtMemcpy heap₁.data q p count } p = .ok heap' ∧
      Moved cfg SameBlock heap live p n heap' q := by
  have hinv₂ : Inv cfg { heap₁ with data := rtMemcpy heap₁.data q p count } (insert q live)
      headers₁ := ⟨hinv₁.geometry, hinv₁.tiled, hinv₁.coalesced, hinv₁.lfree, hinv₁.live⟩
  obtain ⟨heap', hfree, hkept⟩ := hinv₂.rtFree_keeps (Finset.mem_insert_of_mem hlive)
  have hptr : heap'.heapPtr = heap₁.heapPtr := hkept.heapPtr
  obtain ⟨block, hblock, -, -, hpointer, hheader⟩ :=
    hinv₁.exists_block (Finset.mem_insert_of_mem hlive)
  -- the blocks of the live pointers other than `p` are kept by the call of `rt_free`
  have hsame : ∀ pointer ∈ insert q live, pointer ≠ p →
      SameBlock (heap₁.mem (headerOf cfg heap₁ pointer))
        (heap'.mem (headerOf cfg heap₁ pointer)) := by
    intro pointer hmem hdifferent
    have hother := hinv₁.other_block block hmem (hpointer ▸ hdifferent)
    refine hkept.same _ ⟨?_, hother.2⟩
    change headerOf cfg heap₁ pointer ≠ headerOf cfg heap₁ p
    rw [hheader]
    exact hother.1.2
  have hothers : ∀ other ∈ live, other ≠ p →
      SameBlock (heap.mem (headerOf cfg heap other))
        (heap₁.mem (headerOf cfg heap other)) := by
    intro other hother hdifferent
    obtain ⟨own, -, -, -, hown, -⟩ := hinv.exists_block hlive
    have hblock := hinv.other_block own hother (hown ▸ hdifferent)
    exact hkeeps.same _ ⟨hblock.1.1, hblock.2⟩
  refine ⟨heap', hfree, ?_, fun i hi => ?_, fun other hother hdifferent => ?_,
    fun other hother hdifferent address haddress => ?_⟩
  · have hq : q ≠ p := fun heq => hfresh (heq ▸ hlive)
    have hnext := (hsame q (Finset.mem_insert_self _ _) hq).next
    rw [headerOf_congr hptr, payloadSize, hnext]
    exact hn.trans hroom
  · rw [hkept.data]
    change rtMemcpy heap₁.data q p count (q + i) = _
    rw [rtMemcpy_of_lt _ _ _ (hi.trans_le hcount), hkeeps.data]
  · have hafter := hsame other (Finset.mem_insert_of_mem hother) hdifferent
    rw [headerOf_congr hkeeps.heapPtr] at hafter
    exact (hothers other hother hdifferent).trans hafter
  · have hpayload : address ∈ payload cfg heap₁ other := by
      rw [payload, headerOf_congr hkeeps.heapPtr, hkeeps.heapPtr,
        (hothers other hother hdifferent).next]
      exact haddress
    have hdisjoint := hinv₁.payload_disjoint (Finset.mem_insert_of_mem hother)
      (Finset.mem_insert_self _ _) fun heq => hfresh (heq ▸ hother)
    rw [hkept.data]
    change rtMemcpy heap₁.data q p count address = _
    rw [rtMemcpy_of_notMem, hkeeps.data]
    rintro ⟨hlow, hhigh⟩
    exact Set.disjoint_left.1 hdisjoint hpayload
      (hinv₁.mem_payload (Finset.mem_insert_self _ _) (hle.trans hroom) hlow hhigh)

/-- The payload is moved to a new block, or everything stays. -/
theorem Inv.moved_expand (hinv : Inv cfg heap live headers) (hlive : p ∈ live)
    (hlarge : newsize ≤ heap.memSizeAligned) (hn : n ≤ newsize) :
    ∃ heap' q, expand cfg heap p (payloadSize cfg heap (headerOf cfg heap p)) newsize =
        .ok (heap', q) ∧
      (q = 0 ∧ heap' = heap ∨ q ≠ 0 ∧ Moved cfg SameBlock heap live p n heap' q) := by
  rcases hinv.rtMalloc_keeps newsize with
    hnone | ⟨heap₁, q, headers₁, hmalloc, hnull, hfresh, hinv₁, hkeeps, hroom⟩
  · refine ⟨heap, 0, ?_, .inl ⟨rfl, rfl⟩⟩
    rw [expand, hnone]
    rfl
  have hrequest : newsize ≤ requestSize cfg newsize := by
    have hfits := hinv.geometry.fits
    have hstruct : cfg.rtAlignSize ≤ cfg.sizeofStructMem :=
      Nat.le_of_dvd sizeofStructMem_pos (cfg.rtAlignSize_dvd_rtAlign _)
    exact (cfg.le_rtAlign (by omega)).trans (requestSize_ge newsize).1
  obtain ⟨heap', hfree, hmoved⟩ := hinv.moved_copy
    (if payloadSize cfg heap (headerOf cfg heap p) < newsize
      then payloadSize cfg heap (headerOf cfg heap p) else newsize)
    hinv₁ hlive hfresh hkeeps (hrequest.trans hroom) (by split <;> omega) hn (by split <;> omega)
  refine ⟨heap', q, ?_, .inr ⟨hnull, hmoved⟩⟩
  rw [expand, hmalloc, ok_bind]
  dsimp only
  rw [if_neg hnull, hfree]
  rfl

theorem Inv.payloadSize_le (hinv : Inv cfg heap live headers) (hlive : p ∈ live) :
    payloadSize cfg heap (headerOf cfg heap p) ≤ heap.memSizeAligned := by
  obtain ⟨block, hblock, hne, -, -, hheader⟩ := hinv.exists_block hlive
  obtain ⟨-, hnext, -⟩ := hinv.block_bounds hblock hne
  have hend := hinv.geometry.heapEnd_eq
  rw [hheader, hinv.payloadSize_eq hblock hne]
  omega

/-- A request that is rounded without wrapping around obeys the law: the three paths of
`rt_realloc` for a live pointer, after the test of the size. -/
theorem Inv.reallocLaw (hinv : Inv cfg heap live headers) (hlive : p ∈ live)
    (hword : n < cfg.wordSize) (hzero : cfg.rtAlign n ≠ 0) :
    ReallocLaw cfg SameBlock (InPlace cfg) heap live p n := by
  have hn := le_rtAlign_of_ne_zero hword hzero
  have hsize := hinv.payloadSize_le hlive
  have hnull := hinv.ne_zero hlive
  by_cases hlarge : heap.memSizeAligned < cfg.rtAlign n
  · have hnone : rtRealloc cfg heap p n = .ok (heap, 0) := if_pos hlarge
    refine ⟨⟨heap, 0, hnone, .inl ⟨rfl, rfl⟩⟩, fun hplace => ?_⟩
    rcases hplace with hsame | hsmaller <;> omega
  obtain ⟨block, hblock, hne, hused, rfl, hheader⟩ := hinv.exists_block hlive
  have hequation := rtRealloc_live_eq hinv hblock hne (not_lt.1 hlarge) hzero
  by_cases hsame : payloadSize cfg heap block = cfg.rtAlign n
  · rw [if_pos hsame] at hequation
    have hroom : n ≤ payloadSize cfg heap
        (headerOf cfg heap (heap.heapPtr + block + cfg.sizeofStructMem)) := by
      rw [hheader, hsame]
      exact hn
    refine ⟨⟨heap, _, hequation, .inr ⟨hnull, hinv.moved_of_keeps
      ⟨rfl, rfl, fun other _ => .refl _⟩ hroom⟩⟩, fun _ heap' hnone => ?_⟩
    rw [hequation] at hnone
    exact hnull (Prod.mk.inj (Except.ok.inj hnone)).2
  rw [if_neg hsame] at hequation
  have hshrinks := shrinks_iff hinv hblock hne (not_lt.1 hlarge)
  rw [← hinv.payloadSize_eq hblock hne] at hshrinks
  by_cases hcut : shrinks cfg (payloadSize cfg heap block) (cfg.rtAlign n)
  · have hsmaller := hshrinks.1 hcut
    have hpayload := hinv.payloadSize_eq hblock hne
    have hroom : block + cfg.sizeofStructMem + cfg.rtAlign n + cfg.sizeofStructMem <
        (heap.mem block).next := by
      omega
    obtain ⟨heap', -, hshrink, -⟩ := shrink_spec hinv hblock hne hused
      (cfg.rtAlignSize_dvd_rtAlign n) (Nat.pos_of_ne_zero hzero) hroom
    rw [if_pos hcut, hshrink, ok_bind] at hequation
    have hkeeps := keeps_others_shrink hinv hblock hne (by omega) hshrink
    refine ⟨⟨heap', _, hequation, .inr ⟨hnull, hinv.moved_of_keeps hkeeps ?_⟩⟩,
      fun _ other hnone => ?_⟩
    · rw [headerOf_congr hkeeps.heapPtr, hheader,
        payloadSize_shrink hinv hblock hne hused (by omega) hshrink]
      exact hn
    · rw [hequation] at hnone
      exact hnull (Prod.mk.inj (Except.ok.inj hnone)).2
  · rw [if_neg hcut] at hequation
    obtain ⟨heap', q, hexpand, hresult⟩ := hinv.moved_expand hlive (not_lt.1 hlarge) hn
    rw [hheader] at hexpand
    refine ⟨⟨heap', q, hequation.trans hexpand, hresult⟩, fun hplace => ?_⟩
    rw [hheader] at hplace
    rcases hplace with hplace | hplace
    · exact absurd hplace.symm hsame
    · exact absurd (hshrinks.2 hplace) hcut

end Realloc

/-- After every sequence of calls on live pointers, `rt_realloc` of a live pointer obeys
its law for every size whose rounding does not wrap around. -/
theorem rtRealloc_law {beginAddr endAddr : ℕ} {mem : Headers} {data : ℕ → UInt8} {heap : Heap}
    (hinit : rtSystemHeapInit cfg beginAddr endAddr mem data = some heap)
    {trace : List (Call × Event)} {last : State}
    (hrun : (callMachine cfg).Run ⟨heap, ∅⟩ trace last) {p n : ℕ} (hlive : p ∈ last.live)
    (hword : n < cfg.wordSize) (hzero : cfg.rtAlign n ≠ 0) :
    ReallocLaw cfg SameBlock (InPlace cfg) last.heap last.live p n := by
  rcases reached_of_run hinit hrun with ⟨headers, hinv⟩ | hexhausted
  · exact hinv.reallocLaw hlive hword hzero
  · rw [hexhausted.live] at hlive
    exact absurd hlive (Finset.notMem_empty p)

/-- Two neighbouring blocks. -/
def neighbours : State :=
  (((callMachine config32).exec (fun _ _ => True) ⟨heap32, ∅⟩
    [.call (.malloc 100), .call (.malloc 12)]).get rfl).1

theorem neighbours_run : ∃ trace, (callMachine config32).Run ⟨heap32, ∅⟩ trace neighbours :=
  ⟨_, Machine.runWith_of_isSome [Call.call (.malloc 100), Call.call (.malloc 12)] rfl⟩

theorem rtRealloc_law_neighbours :
    ReallocLaw config32 SameBlock (InPlace config32) neighbours.heap neighbours.live 0x100c 40 := by
  have hinit : rtSystemHeapInit config32 0x1000 0x1100 (fun _ => ⟨0, 0, 0, 0⟩) (fun _ => 0) =
      some heap32 := rfl
  obtain ⟨trace, hrun⟩ := neighbours_run
  exact rtRealloc_law hinit hrun (by decide) (by decide) (by decide)

/-- The block after the one that is cut gets another back link. -/
theorem not_reallocLaw_header :
    (∃ trace, (callMachine config32).Run ⟨heap32, ∅⟩ trace neighbours) ∧
      0x100c ∈ neighbours.live ∧
      ¬ ReallocLaw config32 Eq (fun size newsize => newsize ≤ size) neighbours.heap
        neighbours.live 0x100c 40 := by
  refine ⟨neighbours_run, by decide, fun hlaw => ?_⟩
  obtain ⟨heap', q, hrealloc, hresult⟩ := hlaw.returns
  have hvalue : (rtRealloc config32 neighbours.heap 0x100c 40).toOption.map (fun result =>
      decide (result.2 ≠ 0 ∧ (result.1.mem 112).prev ≠ (neighbours.heap.mem 112).prev)) =
        some true := by decide
  rw [hrealloc] at hvalue
  obtain ⟨hnull, hprev⟩ := of_decide_eq_true (Option.some.inj hvalue)
  rcases hresult with ⟨hzero, -⟩ | ⟨-, hmoved⟩
  · exact hnull hzero
  · have hheader := hmoved.header 0x107c (by decide) (by decide)
    have hblock : headerOf config32 neighbours.heap 0x107c = 112 := by decide
    rw [hblock] at hheader
    exact hprev (congrArg HeapMem.prev hheader).symm

end RtThread.SmallMem
