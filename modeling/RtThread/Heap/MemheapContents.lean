import RtThread.Heap.MemheapRequests

set_option linter.all false

/-!
# What `rt_memheap_realloc` keeps

An operation of the heap writes the link to the next item only in the items it splits, joins
or frees, and writes payload bytes only when it moves a payload.  So the other live payloads
stay where they are with their bytes, and the payload of the call is found again at the
pointer that is returned.

A size that does not survive the rounding to `RT_ALIGN_SIZE` becomes a request for a few
bytes, so a pointer to too short a payload is returned for it.
-/

namespace RtThread.Memheap

open Function
open RtThread.Core RtThread.Core.Tile
open RtThread.SmallMem (HeapConfig Fault rtMemcpy ok_bind config32)

variable {cfg : HeapConfig} {heap heap' heap'' : RtMemheap} {tiles before rest : List Tile}
variable {free live written written' : List ℕ} {left right : Tile}
  {item gone fresh newsize ptr other : ℕ}
variable {st last : State}

/-! ## The links that an operation writes -/

/-- No payload byte is written, and `next` only in the items of a list. -/
structure Quiet (heap heap' : RtMemheap) (written : List ℕ) : Prop where
  data : heap'.data = heap.data
  next : ∀ item, item ∉ written → heap'.next item = heap.next item

namespace Quiet

theorem trans (hquiet : Quiet heap heap' written) (hquiet' : Quiet heap' heap'' written) :
    Quiet heap heap'' written :=
  ⟨hquiet'.data.trans hquiet.data,
    fun item hitem => (hquiet'.next item hitem).trans (hquiet.next item hitem)⟩

theorem splitItem (heap : RtMemheap) (item fresh : ℕ) :
    Quiet heap (splitItem heap item fresh) [item, fresh] := by
  refine ⟨rfl, fun other hother => ?_⟩
  simp only [List.mem_cons, List.not_mem_nil, or_false, not_or] at hother
  exact (update_of_ne hother.1 ..).trans (update_of_ne hother.2 ..)

theorem removeItem (heap : RtMemheap) (item : ℕ) :
    Quiet heap (removeItem heap item) [heap.prev item] :=
  ⟨rfl, fun _ hother => update_of_ne (List.ne_of_not_mem_cons hother) ..⟩

theorem mergeNext (heap : RtMemheap) (item : ℕ) : Quiet heap (mergeNext heap item) [item] :=
  ⟨rfl, fun _ hother => update_of_ne (List.ne_of_not_mem_cons hother) ..⟩

theorem allocSplit (heap : RtMemheap) (item size : ℕ) :
    Quiet heap (allocSplit cfg heap item size)
      [item, cfg.add (cfg.add item size) (rtMemheapSize cfg)] := by
  have hsplit := splitItem heap item (cfg.add (cfg.add item size) (rtMemheapSize cfg))
  refine ⟨?_, fun other hother => ?_⟩
  · simp only [Memheap.allocSplit, setUsed_data, noteUsed_data, setAvailable_data, linkFree_data,
      clearFree_data, unlinkFree_data]
    exact hsplit.data
  · simp only [Memheap.allocSplit, setUsed_next, noteUsed_next, setAvailable_next, linkFree_next,
      clearFree_next, unlinkFree_next]
    exact hsplit.next other hother

theorem allocWhole (heap : RtMemheap) (item freeSize : ℕ) :
    Quiet heap (allocWhole cfg heap item freeSize) [] := by
  refine ⟨?_, fun other _ => ?_⟩
  · simp only [Memheap.allocWhole, setUsed_data, clearFree_data, unlinkFree_data, noteUsed_data,
      setAvailable_data]
  · simp only [Memheap.allocWhole, setUsed_next, clearFree_next, unlinkFree_next, noteUsed_next,
      setAvailable_next]

theorem mergeRight (heap : RtMemheap) (item : ℕ) :
    Quiet heap (mergeRight cfg heap item) [item] := by
  rw [Memheap.mergeRight]
  split
  · exact ⟨rfl, fun _ _ => rfl⟩
  · exact ⟨rfl, (mergeNext heap item).next⟩

theorem mergeLeft (heap : RtMemheap) (item : ℕ) :
    Quiet heap (mergeLeft cfg heap item) [heap.prev item] :=
  ⟨rfl, (removeItem heap item).next⟩

theorem growItem (heap : RtMemheap) (item newsize : ℕ) :
    Quiet heap (growItem cfg heap item newsize)
      [heap.prev (heap.next item), item,
        cfg.add (cfg.add item (rtMemheapSize cfg)) newsize] := by
  rw [Memheap.growItem, noteUsed_eq]
  refine ⟨rfl, fun other hother => ?_⟩
  have hsplit := fun heap => (splitItem heap item
    (cfg.add (cfg.add item (rtMemheapSize cfg)) newsize)).next other
      (List.not_mem_of_not_mem_cons hother)
  exact (hsplit _).trans (update_of_ne (List.ne_of_not_mem_cons hother) ..)

theorem shrinkItem (heap : RtMemheap) (item newsize : ℕ) :
    Quiet heap (shrinkItem cfg heap item newsize)
      [item, cfg.add (cfg.add item newsize) (rtMemheapSize cfg)] := by
  rw [Memheap.shrinkItem]
  have hsplit := splitItem heap item (cfg.add (cfg.add item newsize) (rtMemheapSize cfg))
  split
  · exact ⟨rfl, hsplit.next⟩
  · dsimp only [setAvailable, linkFree, unlinkFree]
    refine ⟨rfl, fun other hother => ?_⟩
    have hmerged := fun heap => (mergeNext heap
      (cfg.add (cfg.add item newsize) (rtMemheapSize cfg))).next other
        (List.not_mem_of_not_mem_cons hother)
    exact (hmerged _).trans (hsplit.next other hother)

end Quiet

theorem shrinkItem_next (hne : item ≠ cfg.add (cfg.add item newsize) (rtMemheapSize cfg)) :
    (shrinkItem cfg heap item newsize).next item =
      cfg.add (cfg.add item newsize) (rtMemheapSize cfg) := by
  rw [shrinkItem]
  have hsplit : (splitItem heap item
      (cfg.add (cfg.add item newsize) (rtMemheapSize cfg))).next item =
        cfg.add (cfg.add item newsize) (rtMemheapSize cfg) :=
    update_self ..
  split
  · exact hsplit
  · exact (update_of_ne hne ..).trans hsplit

/-! ## The other live payloads -/

/-- A live block is as it was: its header is in use, and its payload ends where it did and has
the same bytes. -/
structure Kept (cfg : HeapConfig) (heap heap' : RtMemheap) (ptr : ℕ) : Prop where
  used : IsUsed heap' (ptr - rtMemheapSize cfg) ↔ IsUsed heap (ptr - rtMemheapSize cfg)
  next : heap'.next (ptr - rtMemheapSize cfg) = heap.next (ptr - rtMemheapSize cfg)
  data : ∀ address ∈ payload cfg heap ptr, heap'.data address = heap.data address

theorem Kept.trans (hkept : Kept cfg heap heap' ptr) (hkept' : Kept cfg heap' heap'' ptr) :
    Kept cfg heap heap'' ptr where
  used := hkept'.used.trans hkept.used
  next := hkept'.next.trans hkept.next
  data := by
    intro address haddress
    have hmoved : address ∈ payload cfg heap' ptr := by
      rwa [payload, hkept.next]
    rw [hkept'.data address hmoved, hkept.data address haddress]

theorem Inv.header_mem (hinv : Inv cfg heap tiles free live) (hptr : ptr ∈ live) :
    ⟨ptr - rtMemheapSize cfg, true⟩ ∈ tiles := by
  obtain ⟨before, item, next, rest, rfl, rfl⟩ := hinv.exists_item hptr
  rw [Nat.add_sub_cancel]
  simp

theorem Inv.isUsed (hinv : Inv cfg heap tiles free live) (hptr : ptr ∈ live) :
    IsUsed heap (ptr - rtMemheapSize cfg) :=
  (hinv.layout.tiling.isUsed_iff (hinv.header_mem hptr)).2 rfl

theorem Inv.header_ne (hinv : Inv cfg heap (before ++ ⟨item, false⟩ :: rest) free live)
    (hptr : ptr ∈ live) : ptr - rtMemheapSize cfg ≠ item := by
  intro heq
  have hitem : ⟨item, false⟩ ∈ before ++ Tile.mk item false :: rest := by simp
  have hsame := hinv.layout.tiling.eq_of_address (hinv.header_mem hptr) hitem heq
  exact Bool.false_ne_true (congrArg Tile.used hsame).symm

/-- The header of a live pointer does not lie between two neighbours. -/
theorem Inv.header_ne_of_between
    (hinv : Inv cfg heap (before ++ left :: right :: rest) free live) (hptr : ptr ∈ live)
    (hlow : left.address < fresh) (hhigh : fresh < right.address) :
    ptr - rtMemheapSize cfg ≠ fresh := by
  rintro rfl
  have hsize := rtMemheapSize_ge cfg
  have hnot := hinv.layout.tiling.spaced.not_mem_of_between (by omega) hlow hhigh
  exact hnot (mem_addresses (hinv.header_mem hptr))

theorem Inv.header_inj (hinv : Inv cfg heap tiles free live) (hptr : ptr ∈ live)
    (hother : other ∈ live) (hne : other ≠ ptr) :
    other - rtMemheapSize cfg ≠ ptr - rtMemheapSize cfg := by
  obtain ⟨-, item, -, -, -, rfl⟩ := hinv.exists_item hptr
  obtain ⟨-, header, -, -, -, rfl⟩ := hinv.exists_item hother
  omega

theorem Quiet.kept {tiles' : List Tile} {free' live' : List ℕ} (hquiet : Quiet heap heap' written)
    (hinv : Inv cfg heap tiles free live) (hinv' : Inv cfg heap' tiles' free' live')
    (hptr : ptr ∈ live) (hptr' : ptr ∈ live') (hnot : ptr - rtMemheapSize cfg ∉ written) :
    Kept cfg heap heap' ptr where
  used := iff_of_true (hinv'.isUsed hptr') (hinv.isUsed hptr)
  next := hquiet.next _ hnot
  data := fun address _ => congrFun hquiet.data address

/-! ## The operations -/

theorem rtMemheapAlloc_kept (hinv : Inv cfg heap tiles free live) (size : ℕ) :
    rtMemheapAlloc cfg heap size = .ok (heap, 0) ∨
      ∃ heap' ptr tiles' free', rtMemheapAlloc cfg heap size = .ok (heap', ptr) ∧ ptr ≠ 0 ∧
        Inv cfg heap' tiles' free' (ptr :: live) ∧ heap'.data = heap.data ∧
        requestSize cfg size ≤ memitemSize cfg heap' (ptr - rtMemheapSize cfg) ∧
        ∀ other ∈ live, Kept cfg heap heap' other := by
  have hsize := rtMemheapSize_ge cfg
  rcases rtMemheapAlloc_cases hinv size with
    ⟨hfail, -⟩ | ⟨before, item, next, rest, heap', rfl, hroom, -, halloc, ⟨rfl, hfits⟩ | rfl⟩
  · exact .inl hfail
  · right
    have htiling := hinv.layout.tiling
    have hnext : next ∈ before ++ ⟨item, false⟩ :: next :: rest := by simp
    have hbound := (htiling.bounds hnext).2
    have hword := htiling.pool.fits
    obtain ⟨hinv', -⟩ := allocSplit_spec hinv hfits
    have hadd : cfg.add (cfg.add item (requestSize cfg size)) (rtMemheapSize cfg) =
        item + requestSize cfg size + rtMemheapSize cfg := add_add_eq (by omega)
    have hquiet : Quiet heap (allocSplit cfg heap item (requestSize cfg size))
        [item, item + requestSize cfg size + rtMemheapSize cfg] :=
      hadd ▸ Quiet.allocSplit heap item (requestSize cfg size)
    have hitemSize : memitemSize cfg (allocSplit cfg heap item (requestSize cfg size))
      item =
        item + requestSize cfg size + rtMemheapSize cfg - item - rtMemheapSize cfg :=
      hinv'.layout.tiling.memitemSize_eq
    refine ⟨_, _, _, _, halloc, by omega, hinv', hquiet.data, ?_, fun other hother => ?_⟩
    · rw [Nat.add_sub_cancel, hitemSize]
      omega
    · refine hquiet.kept hinv hinv' hother (List.mem_cons_of_mem _ hother) ?_
      have hne := hinv.header_ne hother
      have hfresh : other - rtMemheapSize cfg ≠
          item + requestSize cfg size + rtMemheapSize cfg :=
        hinv.header_ne_of_between hother (by dsimp only; omega) (by omega)
      simp only [List.mem_cons, List.not_mem_nil, or_false, not_or]
      exact ⟨hne, hfresh⟩
  · right
    obtain ⟨hinv', -⟩ := allocWhole_spec hinv
    have hquiet : Quiet heap (allocWhole cfg heap item (memitemSize cfg heap item)) [] :=
      Quiet.allocWhole heap item (memitemSize cfg heap item)
    refine ⟨_, _, _, _, halloc, by omega, hinv', hquiet.data, ?_, fun other hother => ?_⟩
    · rw [Nat.add_sub_cancel, memitemSize, hquiet.next item List.not_mem_nil]
      exact hroom
    · exact hquiet.kept hinv hinv' hother (List.mem_cons_of_mem _ hother) List.not_mem_nil

theorem rtMemheapFree_kept (hinv : Inv cfg heap tiles free live) (hptr : ptr ∈ live) :
    ∃ heap' tiles' free', rtMemheapFree cfg heap ptr = .ok heap' ∧
      Inv cfg heap' tiles' free' (live.erase ptr) ∧ heap'.data = heap.data ∧
      ∀ other ∈ live, other ≠ ptr → Kept cfg heap heap' other := by
  obtain ⟨before, item, right, rest, rfl, rfl⟩ := hinv.exists_item hptr
  obtain ⟨heap', tiles', free', hfree, hinv', -, -⟩ := rtMemheapFree_spec hinv hptr
  obtain ⟨hreleased, -⟩ := release_spec hinv
  have hequation := rtMemheapFree_eq hinv
  set released := setAvailable (clearUsed heap item)
    (heap.availableSize + memitemSize cfg heap item) with hrelease
  have hfirst : ∀ written, Quiet heap released written := fun written => ⟨rfl, fun _ _ => rfl⟩
  have hmerged : Quiet released heap' (if IsUsed released (released.prev item) then [item]
      else [released.prev item]) := by
    rw [hfree, Except.ok.injEq] at hequation
    rw [hequation]
    split
    · have hright : Quiet released (mergeRight cfg released item) [item] :=
        Quiet.mergeRight released item
      exact ⟨hright.data, hright.next⟩
    · exact (Quiet.mergeLeft released item).trans (Quiet.mergeRight _ _)
  refine ⟨heap', tiles', free', hfree, hinv', hmerged.data, fun other hother hne => ?_⟩
  have hheader := hinv.header_inj hptr hother hne
  rw [Nat.add_sub_cancel] at hheader
  refine ((hfirst _).trans hmerged).kept hinv hinv' hother ?_ ?_
  · exact (List.mem_erase_of_ne hne).2 hother
  · split
    · simpa using hheader
    · next hunused =>
      rw [List.mem_singleton]
      intro heq
      refine hunused (heq ▸ ?_)
      have hmem := hinv.header_mem hother
      have hmem' : ⟨other - rtMemheapSize cfg, true⟩ ∈
          before ++ ⟨item, false⟩ :: right :: rest := by
        simp only [List.mem_append, List.mem_cons, Tile.mk.injEq, hheader, false_and, false_or]
          at hmem ⊢
        exact hmem
      exact (hreleased.tiling.isUsed_iff hmem').2 rfl

/-- An item that grows into its successor keeps its own payload and the others. -/
theorem growItem_kept
    (hinv : Inv cfg heap (before ++ ⟨item, true⟩ :: ⟨gone, false⟩ :: right :: rest) free live)
    (hitem : item + rtMemheapSize cfg ∈ live) (hlow : memitemSize cfg heap item < newsize)
    (hhigh : newsize ≤ memitemSize cfg heap gone + memitemSize cfg heap item) :
    (growItem cfg heap item newsize).data = heap.data ∧
      memitemSize cfg (growItem cfg heap item newsize) item = newsize ∧
      ∀ other ∈ live, other ≠ item + rtMemheapSize cfg →
        Kept cfg heap (growItem cfg heap item newsize) other := by
  have htiling := hinv.layout.tiling
  have hmoved : Tiling cfg heap
      ((before ++ [⟨item, true⟩]) ++ ⟨gone, false⟩ :: right :: rest) := by
    simpa using htiling
  have hinvMoved : Inv cfg heap ((before ++ [⟨item, true⟩]) ++ ⟨gone, false⟩ :: right :: rest)
      free live := by
    simpa using hinv
  have hsize := rtMemheapSize_ge cfg
  have hitemSize : memitemSize cfg heap item = gone - item - rtMemheapSize cfg :=
    htiling.memitemSize_eq
  have hgone : memitemSize cfg heap gone = right.address - gone - rtMemheapSize cfg :=
    hmoved.memitemSize_eq
  have hleft : item + rtMemheapSize cfg ≤ gone := htiling.spaced.next_le
  have hmem : right ∈ before ++ ⟨item, true⟩ :: ⟨gone, false⟩ :: right :: rest := by simp
  have hbound := (htiling.bounds hmem).2
  have hfits := htiling.pool.fits
  obtain ⟨hinv', -⟩ := growItem_spec hinv hlow hhigh
  have hadd : cfg.add (cfg.add item (rtMemheapSize cfg)) newsize =
      item + rtMemheapSize cfg + newsize := add_add_eq (by omega)
  have hnext : heap.next item = gone := htiling.next_eq.1
  have hprev : heap.prev gone = item := htiling.next_eq.2
  have hquiet : Quiet heap (growItem cfg heap item newsize)
      [item, item, item + rtMemheapSize cfg + newsize] := by
    have hgrow : Quiet heap (growItem cfg heap item newsize) _ :=
      Quiet.growItem heap item newsize
    rwa [hnext, hprev, hadd] at hgrow
  have hgrown : memitemSize cfg (growItem cfg heap item newsize) item =
      item + rtMemheapSize cfg + newsize - item - rtMemheapSize cfg :=
    hinv'.layout.tiling.memitemSize_eq
  refine ⟨hquiet.data, by omega, fun other hother hne => ?_⟩
  have hheader := hinv.header_inj hitem hother hne
  have hfresh : other - rtMemheapSize cfg ≠ item + rtMemheapSize cfg + newsize :=
    hinvMoved.header_ne_of_between hother (by dsimp only; omega) (by omega)
  refine hquiet.kept hinv hinv' hother hother ?_
  rw [Nat.add_sub_cancel] at hheader
  simp only [List.mem_cons, List.not_mem_nil, or_false, not_or]
  exact ⟨hheader, hheader, hfresh⟩

/-- An item that gives its end back keeps the rest of its payload and the others. -/
theorem shrinkItem_kept
    (hinv : Inv cfg heap (before ++ ⟨item, true⟩ :: right :: rest) free live)
    (hitem : item + rtMemheapSize cfg ∈ live)
    (hroom : newsize + rtMemheapSize cfg ≤ memitemSize cfg heap item) :
    (shrinkItem cfg heap item newsize).data = heap.data ∧
      memitemSize cfg (shrinkItem cfg heap item newsize) item = newsize ∧
      ∀ other ∈ live, other ≠ item + rtMemheapSize cfg →
        Kept cfg heap (shrinkItem cfg heap item newsize) other := by
  have htiling := hinv.layout.tiling
  have hsize := rtMemheapSize_ge cfg
  have hitemSize : memitemSize cfg heap item = right.address - item - rtMemheapSize cfg :=
    htiling.memitemSize_eq
  have hmem : right ∈ before ++ ⟨item, true⟩ :: right :: rest := by simp
  have hbound := (htiling.bounds hmem).2
  have hfits := htiling.pool.fits
  obtain ⟨tiles', free', hinv', -, -⟩ := shrinkItem_spec hinv hroom
  have hadd : cfg.add (cfg.add item newsize) (rtMemheapSize cfg) =
      item + newsize + rtMemheapSize cfg := add_add_eq (by omega)
  have hquiet : Quiet heap (shrinkItem cfg heap item newsize)
      [item, item + newsize + rtMemheapSize cfg] :=
    hadd ▸ Quiet.shrinkItem heap item newsize
  have hnext : (shrinkItem cfg heap item newsize).next item =
      item + newsize + rtMemheapSize cfg := by
    rw [shrinkItem_next (by omega), hadd]
  refine ⟨hquiet.data, ?_, fun other hother hne => ?_⟩
  · rw [memitemSize, hnext, sub_sub_eq (by omega) (by omega)]
    omega
  · have hheader := hinv.header_inj hitem hother hne
    have hfresh : other - rtMemheapSize cfg ≠ item + newsize + rtMemheapSize cfg :=
      hinv.header_ne_of_between hother (by dsimp only; omega) (by omega)
    refine hquiet.kept hinv hinv' hother hother ?_
    rw [Nat.add_sub_cancel] at hheader
    simp only [List.mem_cons, List.not_mem_nil, or_false, not_or]
    exact ⟨hheader, hfresh⟩

/-! ## Sizes -/

/-- A request that was rounded once is not cut off when it is rounded again. -/
theorem requestSize_add_le (cfg : HeapConfig) (size : ℕ) :
    requestSize cfg size + cfg.rtAlignSize ≤ cfg.wordSize := by
  have hlt : cfg.rtAlign size < cfg.wordSize := cfg.rtAlignDown_lt _
  obtain ⟨quotient, hquotient⟩ := cfg.rtAlignSize_dvd_rtAlign size
  obtain ⟨count, hcount⟩ : cfg.rtAlignSize ∣ cfg.wordSize :=
    Nat.pow_dvd_pow 2 cfg.alignLog_le_wordBits
  -- both are multiples of `RT_ALIGN_SIZE`
  have hrounded : cfg.rtAlign size + cfg.rtAlignSize ≤ cfg.wordSize := by
    rw [hquotient, hcount] at hlt ⊢
    have hstep : quotient + 1 ≤ count := Nat.lt_of_mul_lt_mul_left hlt
    rw [← Nat.mul_succ]
    exact Nat.mul_le_mul_left _ hstep
  have hwords := cfg.wordSize_ge
  have halign := cfg.rtAlignSize_le
  rw [requestSize, rtMemheapMinialloc]
  split <;> omega

theorem le_requestSize (hword : newsize + cfg.rtAlignSize ≤ cfg.wordSize) :
    newsize ≤ requestSize cfg newsize := by
  have hle := cfg.le_rtAlign hword
  rw [requestSize]
  split <;> omega

theorem Inv.next_header (hinv : Inv cfg heap tiles free live) (hptr : ptr ∈ live) :
    heap.next (ptr - rtMemheapSize cfg) =
      ptr + memitemSize cfg heap (ptr - rtMemheapSize cfg) := by
  obtain ⟨before, item, next, rest, rfl, rfl⟩ := hinv.exists_item hptr
  have htiling := hinv.layout.tiling
  have hsize : memitemSize cfg heap item = next.address - item - rtMemheapSize cfg :=
    htiling.memitemSize_eq
  have hnext : heap.next item = next.address := htiling.next_eq.1
  have hle : item + rtMemheapSize cfg ≤ next.address := htiling.spaced.next_le
  rw [Nat.add_sub_cancel, hsize, hnext]
  omega

/-! ## `rt_memheap_realloc` -/

/-- What a call of `rt_memheap_realloc` on a live pointer promises: the payload is found again
at the pointer that is returned, with room for the new size, and the other live payloads are
kept; without a pointer, nothing has changed. -/
structure Preserves (cfg : HeapConfig) (heap : RtMemheap) (live : List ℕ) (ptr newsize : ℕ)
    (heap' : RtMemheap) (newPtr : ℕ) : Prop where
  bytes : newPtr ≠ 0 →
    ∀ i < min (memitemSize cfg heap (ptr - rtMemheapSize cfg)) newsize,
      heap'.data (newPtr + i) = heap.data (ptr + i)
  room : newPtr ≠ 0 → newsize ≤ memitemSize cfg heap' (newPtr - rtMemheapSize cfg)
  others : newPtr ≠ 0 → ∀ other ∈ live, other ≠ ptr → Kept cfg heap heap' other
  failed : newPtr = 0 → heap' = heap

theorem Preserves.of_data (hdata : heap'.data = heap.data) (hne : ptr ≠ 0)
    (hroom : newsize ≤ memitemSize cfg heap' (ptr - rtMemheapSize cfg))
    (hothers : ∀ other ∈ live, other ≠ ptr → Kept cfg heap heap' other) :
    Preserves cfg heap live ptr newsize heap' ptr :=
  ⟨fun _ i _ => congrFun hdata (ptr + i), fun _ => hroom, fun _ => hothers,
    fun hzero => absurd hzero hne⟩

theorem Inv.kept_memcpy {newPtr source length : ℕ} (hinv : Inv cfg heap tiles free live)
    (hnew : newPtr ∈ live) (hother : other ∈ live) (hne : other ≠ newPtr)
    (hlength : length ≤ memitemSize cfg heap (newPtr - rtMemheapSize cfg)) :
    Kept cfg heap { heap with data := rtMemcpy heap.data newPtr source length } other := by
  refine ⟨Iff.rfl, rfl, fun address haddress => if_neg ?_⟩
  rintro ⟨hlow, hhigh⟩
  have hwritten : address ∈ payload cfg heap newPtr := by
    rw [payload, hinv.next_header hnew, Set.mem_Ico]
    omega
  exact (Set.disjoint_left.1 (hinv.payload_disjoint hother hnew hne)) haddress hwritten

theorem moveItem_preserves (hinv : Inv cfg heap tiles free live) (hptr : ptr ∈ live)
    (hword : newsize + cfg.rtAlignSize ≤ cfg.wordSize)
    (hlow : memitemSize cfg heap (ptr - rtMemheapSize cfg) < requestSize cfg newsize) :
    ∃ heap' newPtr, moveItem cfg heap ptr
        (memitemSize cfg heap (ptr - rtMemheapSize cfg)) (requestSize cfg newsize) =
          .ok (heap', newPtr) ∧
      Preserves cfg heap live ptr newsize heap' newPtr := by
  have hle := le_requestSize hword
  have hagain := le_requestSize (requestSize_add_le cfg newsize)
  rcases rtMemheapAlloc_kept hinv (requestSize cfg newsize) with
    hfail | ⟨heap', newPtr, tiles', free', halloc, hne, hinv', hdata, hroom, hkept⟩
  · refine ⟨heap, 0, ?_, fun hne => absurd rfl hne, fun hne => absurd rfl hne,
      fun hne => absurd rfl hne, fun _ => rfl⟩
    rw [moveItem, hfail]
    rfl
  · set oldsize := memitemSize cfg heap (ptr - rtMemheapSize cfg) with hold
    set copied := { heap' with data := rtMemcpy heap'.data newPtr ptr oldsize } with hcopy
    have hcopied : Inv cfg copied tiles' free' (newPtr :: live) := hinv'.writeData _
    obtain ⟨final, tiles'', free'', hfree, hinv'', hdata', hkept'⟩ :=
      rtMemheapFree_kept hcopied (List.mem_cons_of_mem newPtr hptr)
    have hnew : newPtr ∉ live :=
      (List.nodup_cons.1 (List.nodup_cons.1 hinv'.live_nodup).2).1
    have hother : newPtr ≠ ptr := fun heq => hnew (heq ▸ hptr)
    refine ⟨final, newPtr, ?_, fun _ i hi => ?_, fun _ => ?_, fun _ other hmem hdistinct => ?_,
      fun hzero => absurd hzero hne⟩
    · rw [moveItem, halloc, ok_bind]
      dsimp only
      rw [if_neg hne, if_pos hlow, hfree]
      rfl
    · have hread : copied.data (newPtr + i) = heap'.data (ptr + i) := by
        have hcase : newPtr ≤ newPtr + i ∧ newPtr + i < newPtr + oldsize := by omega
        rw [hcopy]
        dsimp only
        rw [rtMemcpy, if_pos hcase, Nat.add_sub_cancel_left]
      rw [hdata', hread, hdata]
    · have hnext := (hkept' newPtr List.mem_cons_self hother).next
      rw [memitemSize, hnext]
      exact (hle.trans hagain).trans hroom
    · have hmoved : other ≠ newPtr := fun heq => hnew (heq ▸ hmem)
      have hcopyKept : Kept cfg heap' copied other :=
        hinv'.kept_memcpy List.mem_cons_self (List.mem_cons_of_mem newPtr hmem) hmoved
          ((hlow.le.trans hagain).trans hroom)
      exact ((hkept other hmem).trans hcopyKept).trans
        (hkept' other (List.mem_cons_of_mem newPtr hmem) hdistinct)

theorem rtMemheapRealloc_preserves (hinv : Inv cfg heap tiles free live) (hptr : ptr ∈ live)
    (hnewsize : newsize ≠ 0) (hword : newsize + cfg.rtAlignSize ≤ cfg.wordSize)
    (hroom : RoomToGrow cfg heap ptr newsize) :
    ∃ heap' newPtr, rtMemheapRealloc cfg heap ptr newsize = .ok (heap', newPtr) ∧
      Preserves cfg heap live ptr newsize heap' newPtr := by
  have hzero := hinv.ne_zero hptr
  obtain ⟨before, item, next, rest, rfl, rfl⟩ := hinv.exists_item hptr
  have hle := le_requestSize hword
  rcases rtMemheapRealloc_live_cases hinv hnewsize hroom with
    ⟨-, hlow, ⟨gone, right, rest, rfl, rfl, henough⟩, hresult⟩ | ⟨-, hlow, hresult⟩ |
      ⟨hfits, hresult⟩ | ⟨hfits, hresult⟩
  · obtain ⟨hdata, hsize, hothers⟩ := growItem_kept hinv hptr hlow henough
    refine ⟨_, _, hresult, .of_data hdata hzero ?_ hothers⟩
    rw [Nat.add_sub_cancel, hsize]
    exact hle
  · have hmoved := moveItem_preserves hinv hptr hword (by rwa [Nat.add_sub_cancel])
    rw [Nat.add_sub_cancel] at hmoved
    rwa [hresult]
  · refine ⟨_, _, hresult, .of_data rfl hzero ?_ fun _ _ _ => ⟨Iff.rfl, rfl, fun _ _ => rfl⟩⟩
    rw [Nat.add_sub_cancel]
    exact hle.trans hfits
  · obtain ⟨hdata, hsize, hothers⟩ := shrinkItem_kept hinv hptr hfits
    refine ⟨_, _, hresult, .of_data hdata hzero ?_ hothers⟩
    rw [Nat.add_sub_cancel, hsize]
    exact hle

/-! ## Runs -/

/-- In every reachable state, `rt_memheap_realloc` of a live pointer to a size that survives the
rounding keeps the payload and the other ones, if an item that grows finds enough room. -/
theorem memheap_realloc_preserves {self freeHeader startAddr size : ℕ} {memory : RtMemheap}
    {trace : List (Action × Event)} (henough : LargeEnough cfg freeHeader startAddr size)
    (hrun : (machine cfg).RunWith (GrowsWithin cfg)
      (initial cfg self freeHeader startAddr size memory) trace last)
    (hptr : ptr ∈ last.live) (hnewsize : 0 < newsize)
    (hword : newsize + cfg.rtAlignSize ≤ cfg.wordSize)
    (hroom : RoomToGrow cfg last.heap ptr newsize) :
    ∃ next newPtr, step cfg last (.realloc ptr newsize) = some (next, .returned newPtr) ∧
      (∃ items free, WellFormed cfg startAddr (poolSizeOf cfg size) next items free) ∧
      Preserves cfg last.heap last.live ptr newsize next.heap newPtr ∧
      (newPtr = 0 → next.live = last.live) := by
  have hsound := sound_of_run henough hrun
  obtain ⟨tiles, free, hinv⟩ := hsound.1
  obtain ⟨heap', newPtr, hrealloc, hpreserves⟩ :=
    rtMemheapRealloc_preserves hinv hptr hnewsize.ne' hword hroom
  have halign := cfg.rtAlignSize_pos
  have hcall : newsize < cfg.wordSize ∧ last.holds ptr := ⟨by omega, .inr hptr⟩
  have hstep : step cfg last (.realloc ptr newsize) = some (⟨heap',
      afterRealloc last.live ptr newsize newPtr,
      last.history ++ usedDuring cfg last.heap ptr newsize ++ [usedSize heap']⟩,
        .returned newPtr) := by
    rw [step, if_pos hcall, hrealloc]
  have hgrows : GrowsWithin cfg last (.realloc ptr newsize) := hroom
  refine ⟨_, _, hstep, (step_sound hsound hgrows hstep).1.wellFormed, hpreserves, ?_⟩
  rintro rfl
  exact (if_neg hnewsize.ne').trans (if_pos rfl)

/-- Two payloads. -/
def pair32 : List Action :=
  [.alloc 16, .alloc 40]

theorem isSome_pair32 :
    ((machine config32).exec (GrowsWithin config32) heap32 pair32).isSome = true := by
  decide

def held32 : State :=
  (((machine config32).exec (GrowsWithin config32) heap32 pair32).get isSome_pair32).1

theorem memheap_realloc_preserves_held32 :
    ∃ next newPtr, step config32 held32 (.realloc 0x1018 100) = some (next, .returned newPtr) ∧
      (∃ items free, WellFormed config32 0x1000 (poolSizeOf config32 512) next items free) ∧
      Preserves config32 held32.heap held32.live 0x1018 100 next.heap newPtr ∧
      (newPtr = 0 → next.live = held32.live) :=
  memheap_realloc_preserves largeEnough32 (Machine.runWith_of_isSome pair32 isSome_pair32)
    (by decide) (by decide) (by decide) (by decide)

theorem isSome_overlong32 : (step config32 held32 (.realloc 0x1018 0xffffffff)).isSome = true := by
  decide

/-- The largest size is rounded to a request for twelve bytes, and the pointer comes back with
its payload of sixteen bytes. -/
theorem overlong_realloc_returns_short_payload :
    ∃ trace next, (machine config32).RunWith (GrowsWithin config32) heap32 trace held32 ∧
      0x1018 ∈ held32.live ∧
      step config32 held32 (.realloc 0x1018 0xffffffff) = some (next, .returned 0x1018) ∧
      ¬ Preserves config32 held32.heap held32.live 0x1018 0xffffffff next.heap 0x1018 := by
  have hrun := Machine.runWith_of_isSome pair32 isSome_pair32
  refine ⟨_, ((step config32 held32 (.realloc 0x1018 0xffffffff)).get isSome_overlong32).1, hrun,
    by decide, ?_, fun hpreserves => ?_⟩
  · have hevent : ((step config32 held32 (.realloc 0x1018 0xffffffff)).get isSome_overlong32).2 =
        .returned 0x1018 := by decide
    rw [← hevent]
    exact (Option.some_get isSome_overlong32).symm
  · exact absurd (hpreserves.room (by decide)) (by decide)

end RtThread.Memheap
