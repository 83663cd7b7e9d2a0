import RtThread.Finsh.HeapInvariant

set_option linter.all false

/-!
# The shell heap over whole runs

The garbage collection frees while it walks, and an allocation may run it.  After every sequence
of allocations and of releases of allocated blocks the two lists are as they should be.
-/

namespace RtThread.Finsh

open Function
open RtThread.Core RtThread.Core.Tile
open RtThread.Ringbuffer (copyIn copyOut)

variable {cfg : HeapConfig} {heap after : FinshHeap} {globals : List FinshVar}
  {before rest blocks : List Tile} {allocated kept cells : List ℕ} {header size fuel : ℕ}

/-- The heap of these blocks, with no two free neighbours. -/
structure WellFormed (cfg : HeapConfig) (heap : FinshHeap) (blocks : List Tile) : Prop where
  tiling : Tiling cfg heap blocks
  coalesced : Coalesced blocks

/-- The blocks of a list. -/
def blocksFrom (heap : FinshHeap) : ℕ → Option ℕ → List ℕ
  | 0, _ => []
  | _ + 1, none => []
  | fuel + 1, some node => node :: blocksFrom heap fuel (heap.next node)

theorem blocksFrom_eq {start : Option ℕ} (hchain : Chain heap.next start cells)
    (hfuel : cells.length < fuel) : blocksFrom heap fuel start = cells := by
  induction cells generalizing start fuel with
  | nil =>
    obtain ⟨fuel, rfl⟩ := Nat.exists_eq_add_one_of_ne_zero (by omega : fuel ≠ 0)
    rw [hchain.head_eq]
    rfl
  | cons cell cells ih =>
    obtain ⟨fuel, rfl⟩ := Nat.exists_eq_add_one_of_ne_zero (by omega : fuel ≠ 0)
    rw [List.length_cons] at hfuel
    rw [hchain.1, blocksFrom, ih hchain.2 (by omega)]

theorem Merged.trans {middle : FinshHeap} (hfirst : Merged cfg heap middle allocated)
    (hsecond : Merged cfg middle after kept) (hkept : ∀ block ∈ kept, block ∈ allocated) :
    Merged cfg heap after kept where
  tiling := hsecond.tiling
  length block hmem := (hsecond.length block hmem).trans (hfirst.length block (hkept block hmem))
  data := hsecond.data.trans hfirst.data

/-! ## Garbage collection -/

/-- The block is kept by a collection. -/
def keeps (cfg : HeapConfig) (globals : List FinshVar) (block : ℕ) : Bool :=
  Referenced globals (block + cfg.headerSize)

/-- The walk: what it has passed is kept, and of the rest what is referenced. -/
theorem gcFrom_spec (hheap : WellFormed cfg heap blocks)
    (hcells : inState true blocks = kept ++ cells) (hfuel : cells.length < fuel) :
    ∃ after, gcFrom cfg globals fuel heap cells.head? = some after ∧
      Merged cfg heap after (kept ++ cells.filter (keeps cfg globals)) := by
  induction cells generalizing heap blocks kept fuel with
  | nil =>
    obtain ⟨fuel, rfl⟩ := Nat.exists_eq_add_one_of_ne_zero (by omega : fuel ≠ 0)
    exact ⟨heap, rfl, ⟨⟨blocks, hheap.tiling, hheap.coalesced, hcells⟩, fun _ _ => rfl, rfl⟩⟩
  | cons cell cells ih =>
    obtain ⟨fuel, rfl⟩ := Nat.exists_eq_add_one_of_ne_zero (by omega : fuel ≠ 0)
    have hshort : cells.length < fuel := by
      rw [List.length_cons] at hfuel
      omega
    have hchain : Chain heap.next (heap.head .allocate) (kept ++ cell :: cells) :=
      hcells ▸ hheap.tiling.lists.chain .allocate
    have hnodup : (kept ++ cell :: cells).Nodup := hcells ▸ hheap.tiling.lists.nodup .allocate
    rw [List.head?_cons, gcFrom, hchain.next_eq]
    by_cases hreferenced : Referenced globals (cell + cfg.headerSize)
    · have hkeeps : keeps cfg globals cell = true := decide_eq_true hreferenced
      have hcells' : inState true blocks = (kept ++ [cell]) ++ cells := by
        rw [hcells, List.append_assoc, List.singleton_append]
      obtain ⟨after, hgc, hmerged⟩ := ih hheap hcells' hshort
      rw [List.append_assoc, List.singleton_append] at hmerged
      rw [if_pos hreferenced, List.filter_cons_of_pos hkeeps]
      exact ⟨after, hgc, hmerged⟩
    · have hkeeps : ¬ keeps cfg globals cell = true := by simpa [keeps] using hreferenced
      have hmem : cell ∈ inState true blocks :=
        hcells ▸ List.mem_append_right kept List.mem_cons_self
      obtain ⟨middle, hfree, hmerged⟩ := finshHeapFree_spec hheap.tiling hheap.coalesced hmem
      have hnot : cell ∉ kept := fun hin =>
        (List.nodup_cons.1 (List.nodup_middle.1 hnodup)).1 (List.mem_append_left _ hin)
      rw [hcells, List.erase_append_right _ hnot, List.erase_cons_head] at hmerged
      obtain ⟨blocks', htiling, hcoalesced, hcells'⟩ := hmerged.tiling
      obtain ⟨after, hgc, hmerged'⟩ := ih ⟨htiling, hcoalesced⟩ hcells' hshort
      rw [if_neg hreferenced, List.filter_cons_of_neg hkeeps, hfree]
      refine ⟨after, hgc, hmerged.trans hmerged' fun block hblock => ?_⟩
      rcases List.mem_append.1 hblock with hblock | hblock
      · exact List.mem_append_left _ hblock
      · exact List.mem_append_right _ (List.mem_of_mem_filter hblock)

theorem WellFormed.cells_length_lt (hheap : WellFormed cfg heap blocks) (list : HeapList) :
    (cellsIn blocks list).length < cfg.fuel :=
  Nat.lt_succ_of_le ((inState_length_le list.used blocks).trans hheap.tiling.length_le)

theorem finshHeapGc_spec (hheap : WellFormed cfg heap blocks) :
    ∃ after, finshHeapGc cfg globals heap = some after ∧
      Merged cfg heap after ((inState true blocks).filter (keeps cfg globals)) := by
  have hstart : heap.allocateList = (inState true blocks).head? :=
    (hheap.tiling.lists.chain .allocate).head_eq
  obtain ⟨after, hgc, hmerged⟩ := @gcFrom_spec cfg heap globals blocks [] (inState true blocks)
    cfg.fuel hheap rfl (hheap.cells_length_lt .allocate)
  rw [finshHeapGc, hstart]
  exact ⟨after, hgc, hmerged⟩

/-! ## Allocation -/

/-- A new block is in use, and nothing happens to the blocks that are kept. -/
structure Taken (cfg : HeapConfig) (heap after : FinshHeap) (kept : List ℕ) (size header : ℕ) :
    Prop where
  wellFormed : ∃ blocks, WellFormed cfg after blocks ∧
    (inState true blocks).Perm (header :: kept)
  length : ∀ block ∈ kept, after.length block = heap.length block
  length_self : after.length header = size
  data : after.data = copyIn heap.data (header + cfg.headerSize) (List.replicate size 0)

/-- No free block is long enough. -/
structure NoneFits (cfg : HeapConfig) (heap after : FinshHeap) (kept : List ℕ) (size : ℕ) :
    Prop where
  wellFormed : ∃ blocks, WellFormed cfg after blocks ∧ inState true blocks = kept ∧
    ∀ block ∈ inState false blocks, after.length block < size + cfg.headerSize
  length : ∀ block ∈ kept, after.length block = heap.length block
  data : after.data = heap.data

theorem takeBlock_taken (hheap : WellFormed cfg heap blocks)
    (hmem : header ∈ inState false blocks) (hfits : size + cfg.headerSize ≤ heap.length header) :
    ∃ after, takeBlock cfg heap header size = some after ∧
      Taken cfg heap after (inState true blocks) size header := by
  obtain ⟨before, rest, rfl⟩ := List.append_of_mem (mem_inState.1 hmem)
  obtain ⟨after, htake, htiling, hlength, hdata⟩ := takeBlock_spec hheap.tiling hfits
  have hused : inState true (before ++ ⟨header, false⟩ :: rest) =
      inState true before ++ inState true rest := by
    rw [inState_append, inState_cons_of_ne (by decide)]
  refine ⟨after, htake, ⟨_, ⟨htiling, ?_⟩, ?_⟩, fun block hblock => ?_, ?_, hdata⟩
  · obtain ⟨hbefore, hrest⟩ := List.isChain_split.1 hheap.coalesced
    refine List.isChain_split.2 ⟨Coalesced.snoc_used hbefore, List.isChain_cons_cons.2
      ⟨.inl rfl, ?_⟩⟩
    exact coalesced_cons_free (List.isChain_cons.1 hrest).2 (coalesced_tail_used hrest)
  · rw [hused, inState_append, inState_cons_self, inState_cons_of_ne (by decide)]
    exact List.perm_middle
  · -- neither the block nor the new one behind it was in use
    have hblock' : block ∈ cellsIn (before ++ ⟨header, false⟩ :: rest) .allocate := hblock
    have hpos := cfg.headerSize_pos
    have hfresh := @Around.fresh cfg heap before rest header
      (header + cfg.headerSize + size) false (around_of_filled hheap.tiling.filled) hpos
      (by omega) (by omega) .allocate
    have hheader : header ∉ cellsIn (before ++ ⟨header, false⟩ :: rest) .allocate :=
      hheap.tiling.lists.apart .free .allocate (by decide) header hmem
    rw [hlength, update_of_ne (ne_of_mem_of_not_mem hblock' hheader),
      update_of_ne (ne_of_mem_of_not_mem hblock' hfresh)]
  · rw [hlength, update_self]

theorem WellFormed.blocksFrom_free (hheap : WellFormed cfg heap blocks) :
    blocksFrom heap cfg.fuel heap.freeList = inState false blocks :=
  blocksFrom_eq (hheap.tiling.lists.chain .free) (hheap.cells_length_lt .free)

theorem WellFormed.blocksFrom_allocate (hheap : WellFormed cfg heap blocks) :
    blocksFrom heap cfg.fuel heap.allocateList = inState true blocks :=
  blocksFrom_eq (hheap.tiling.lists.chain .allocate) (hheap.cells_length_lt .allocate)

theorem firstFit_free (hheap : WellFormed cfg heap blocks) (fits : ℕ → Bool) :
    firstFit fits heap cfg.fuel heap.freeList =
      some ((inState false blocks).find? fun block => fits (heap.length block)) :=
  firstFit_spec (hheap.tiling.lists.chain .free) (hheap.cells_length_lt .free)

/-- The first search of an allocation finds a block. -/
def FirstFits (cfg : HeapConfig) (heap : FinshHeap) (size : ℕ) : Prop :=
  ∃ block ∈ blocksFrom heap cfg.fuel heap.freeList,
    heapAlignSize size + cfg.headerSize < heap.length block

instance : Decidable (FirstFits cfg heap size) :=
  inferInstanceAs (Decidable (∃ block ∈ _, _))

/-- What an allocation does: its result is a new block or `NULL`, and what was allocated is kept
as long as no collection has to make room. -/
theorem finshHeapAllocate_spec (hheap : WellFormed cfg heap blocks) :
    ∃ after kept, (kept = if FirstFits cfg heap size then inState true blocks
        else (inState true blocks).filter (keeps cfg globals)) ∧
      ((∃ header, finshHeapAllocate cfg globals heap size =
            some (after, some (header + cfg.headerSize)) ∧
          Taken cfg heap after kept (heapAlignSize size) header) ∨
        ¬ FirstFits cfg heap size ∧
          finshHeapAllocate cfg globals heap size = some (after, none) ∧
          NoneFits cfg heap after kept (heapAlignSize size)) := by
  rw [finshHeapAllocate]
  generalize hlarge : heapAlignSize size = large
  by_cases hfirst : FirstFits cfg heap size
  · obtain ⟨found, hfound⟩ : ∃ found, (inState false blocks).find?
        (fun block => decide (large + cfg.headerSize < heap.length block)) = some found := by
      rw [← Option.isSome_iff_exists, List.find?_isSome]
      obtain ⟨block, hmem, hlt⟩ := hfirst
      exact ⟨block, hheap.blocksFrom_free ▸ hmem, decide_eq_true (hlarge ▸ hlt)⟩
    have hfits : large + cfg.headerSize < heap.length found := by
      simpa using List.find?_some hfound
    obtain ⟨after, htake, htaken⟩ := takeBlock_taken hheap (List.mem_of_find?_eq_some hfound)
      (Nat.le_of_lt hfits)
    refine ⟨after, _, (if_pos hfirst).symm, .inl ⟨found, ?_, htaken⟩⟩
    rw [firstFit_free hheap, hfound]
    simp only [Option.bind_eq_bind, Option.bind_some, htake]
    rfl
  · have hnone : (inState false blocks).find?
        (fun block => decide (large + cfg.headerSize < heap.length block)) = none := by
      rw [List.find?_eq_none]
      intro block hmem hlt
      exact hfirst ⟨block, hheap.blocksFrom_free ▸ hmem, hlarge ▸ of_decide_eq_true hlt⟩
    obtain ⟨middle, hgc, hmerged⟩ := @finshHeapGc_spec cfg heap globals blocks hheap
    obtain ⟨blocks', htiling, hcoalesced, hcells⟩ := hmerged.tiling
    have hmiddle : WellFormed cfg middle blocks' := ⟨htiling, hcoalesced⟩
    rw [if_neg hfirst, firstFit_free hheap, hnone]
    simp only [Option.bind_eq_bind, Option.bind_some, hgc, firstFit_free hmiddle]
    cases hsecond : (inState false blocks').find?
        (fun block => decide (large + cfg.headerSize ≤ middle.length block)) with
    | none =>
      refine ⟨middle, _, rfl, .inr ⟨hfirst, rfl, ⟨blocks', hmiddle, hcells,
        fun block hblock => ?_⟩, hmerged.length, hmerged.data⟩⟩
      simpa using List.find?_eq_none.1 hsecond block hblock
    | some found =>
      have hfits : large + cfg.headerSize ≤ middle.length found := by
        simpa using List.find?_some hsecond
      obtain ⟨after, htake, htaken⟩ := takeBlock_taken hmiddle
        (List.mem_of_find?_eq_some hsecond) hfits
      rw [hcells] at htaken
      refine ⟨after, _, rfl, .inl ⟨found, ?_, ⟨htaken.wellFormed, fun block hblock =>
        (htaken.length block hblock).trans (hmerged.length block hblock), htaken.length_self,
        hmerged.data ▸ htaken.data⟩⟩⟩
      simp only [htake, Option.bind_some]
      rfl

theorem WellFormed.apart (hheap : WellFormed cfg heap blocks) {block other : ℕ}
    (hblock : block ∈ inState true blocks) (hother : other ∈ inState true blocks)
    (hne : block ≠ other) :
    block + cfg.headerSize + heap.length block ≤ other ∨
      other + cfg.headerSize + heap.length other ≤ block :=
  hheap.tiling.filled.apart (mem_inState.1 hblock) (mem_inState.1 hother)
    fun heq => hne (congrArg Tile.address heq)

/-- An interval without allocated blocks lies in one free block. -/
theorem WellFormed.exists_free (hheap : WellFormed cfg heap blocks) {low count : ℕ}
    (hcount : 0 < count) (hlow : low + count ≤ cfg.heapMax)
    (hapart : ∀ block ∈ inState true blocks,
      block + cfg.headerSize + heap.length block ≤ low ∨ low + count ≤ block) :
    ∃ block ∈ inState false blocks, count ≤ cfg.headerSize + heap.length block := by
  obtain ⟨⟨address, used⟩, ⟨hmem, hle, hlt⟩, -⟩ :=
    hheap.tiling.filled.existsUnique (Nat.zero_le low) (by omega)
  dsimp only at hle hlt
  cases used with
  | true =>
    have := hapart address (mem_inState.2 hmem)
    omega
  | false =>
    refine ⟨address, mem_inState.2 hmem, ?_⟩
    by_contra hshort
    obtain ⟨before, rest, rfl⟩ := List.append_of_mem hmem
    have hrest := (filled_middle.1 hheap.tiling.filled).2
    dsimp only at hrest
    cases rest with
    | nil =>
      have hend : address + cfg.headerSize + heap.length address = cfg.heapMax := hrest
      omega
    | cons next rest =>
      -- the next block is allocated, and starts in the interval
      have hused := coalesced_tail_used (List.isChain_split.1 hheap.coalesced).2 next rfl
      have htile : (⟨next.address, true⟩ : Tile) = next := by rw [← hused]
      have hnext : next.address ∈ inState true (before ++ ⟨address, false⟩ :: next :: rest) :=
        mem_inState.2 (List.mem_append_right before (List.mem_cons_of_mem _
          (htile ▸ List.mem_cons_self)))
      have hstart := hrest.1
      have := hapart next.address hnext
      omega

/-! ## Runs -/

/-- An allocation reads the global variables as they are then. -/
inductive HeapAction
  | allocate (globals : List FinshVar) (size : ℕ)
  | free (ptr : ℕ)

/-- The callers ask for at most `FINSH_HEAP_MAX` bytes, and free what is allocated. -/
def Allowed (cfg : HeapConfig) (heap : FinshHeap) : HeapAction → Prop
  | .allocate _ size => size ≤ cfg.heapMax
  | .free ptr => ∃ header ∈ blocksFrom heap cfg.fuel heap.allocateList,
      ptr = header + cfg.headerSize

instance (heap : FinshHeap) (act : HeapAction) : Decidable (Allowed cfg heap act) :=
  match act with
  | .allocate _ size => inferInstanceAs (Decidable (size ≤ cfg.heapMax))
  | .free ptr => inferInstanceAs (Decidable (∃ header ∈ blocksFrom heap cfg.fuel
      heap.allocateList, ptr = header + cfg.headerSize))

/-- The event is the pointer that is returned. -/
def heapMachine (cfg : HeapConfig) : Machine FinshHeap HeapAction (Option ℕ) where
  step heap
    | .allocate globals size => finshHeapAllocate cfg globals heap size
    | .free ptr => (finshHeapFree cfg heap ptr).map fun after => (after, none)

/-- The lists are sorted and disjoint, their blocks fill the heap, free blocks are not adjacent,
and the block at the end is free. -/
structure InOrder (cfg : HeapConfig) (heap : FinshHeap) (free allocated : List ℕ) : Prop where
  free_chain : Chain heap.next heap.freeList free
  allocated_chain : Chain heap.next heap.allocateList allocated
  free_sorted : free.Pairwise (· < ·)
  allocated_sorted : allocated.Pairwise (· < ·)
  disjoint : ∀ block ∈ free, block ∉ allocated
  inside : ∀ block ∈ free ++ allocated,
    block + cfg.headerSize + heap.length block ≤ cfg.heapMax
  cover : ∀ address < cfg.heapMax, ∃! block, block ∈ free ++ allocated ∧ block ≤ address ∧
    address < block + cfg.headerSize + heap.length block
  separate : ∀ block ∈ free, ∀ other ∈ free,
    block + cfg.headerSize + heap.length block ≠ other
  last : ∃ block ∈ free, block + cfg.headerSize + heap.length block = cfg.heapMax

theorem wellFormed_init (cfg : HeapConfig) :
    WellFormed cfg (finshHeapInit cfg) [⟨0, false⟩] := by
  have hroom := cfg.headerSize_le
  have hlength : (finshHeapInit cfg).length 0 = cfg.heapMax - cfg.headerSize := by
    simp [finshHeapInit, FinshHeap.length]
  have hnext : (finshHeapInit cfg).next 0 = none := by
    simp [finshHeapInit, FinshHeap.next]
  refine ⟨⟨⟨?_, ?_, ?_⟩, ?_, [], 0, rfl⟩, List.isChain_singleton _⟩
  · rintro (_ | _)
    · exact ⟨rfl, hnext⟩
    · rfl
  · rintro (_ | _)
    · exact List.nodup_singleton 0
    · exact List.nodup_nil
  · rintro (_ | _) (_ | _) hne node hmem
    · exact absurd rfl hne
    · exact List.not_mem_nil
    · cases hmem
    · cases hmem
  · refine ⟨rfl, ?_⟩
    rw [hlength]
    change 0 + cfg.headerSize + (cfg.heapMax - cfg.headerSize) = cfg.heapMax
    omega

/-- No allowed step gets stuck, and every one keeps the heap well formed. -/
theorem step_wellFormed (hheap : WellFormed cfg heap blocks) {act : HeapAction}
    (hallowed : Allowed cfg heap act) :
    ∃ after result, (heapMachine cfg).step heap act = some (after, result) ∧
      ∃ blocks, WellFormed cfg after blocks := by
  cases act with
  | allocate globals size =>
    obtain ⟨after, kept, -, ⟨header, hallocate, htaken⟩ | ⟨-, hallocate, hnone⟩⟩ :=
      @finshHeapAllocate_spec cfg heap globals blocks size hheap
    · obtain ⟨blocks', hafter, -⟩ := htaken.wellFormed
      exact ⟨after, _, hallocate, blocks', hafter⟩
    · obtain ⟨blocks', hafter, -⟩ := hnone.wellFormed
      exact ⟨after, _, hallocate, blocks', hafter⟩
  | free ptr =>
    obtain ⟨header, hmem, rfl⟩ := hallowed
    rw [hheap.blocksFrom_allocate] at hmem
    obtain ⟨after, hfree, hmerged⟩ := finshHeapFree_spec hheap.tiling hheap.coalesced hmem
    obtain ⟨blocks', htiling, hcoalesced, -⟩ := hmerged.tiling
    refine ⟨after, none, ?_, blocks', htiling, hcoalesced⟩
    change (finshHeapFree cfg heap (header + cfg.headerSize)).map _ = _
    rw [hfree]
    rfl

theorem inOrder_of_wellFormed (hheap : WellFormed cfg heap blocks) :
    InOrder cfg heap (inState false blocks) (inState true blocks) := by
  have hsorted := hheap.tiling.filled.pairwise_lt cfg.headerSize_pos
  have hmem : ∀ block, block ∈ inState false blocks ++ inState true blocks ↔
      ∃ used, ⟨block, used⟩ ∈ blocks := by
    intro block
    rw [List.mem_append, mem_inState, mem_inState, Bool.exists_bool]
  refine ⟨hheap.tiling.lists.chain .free, hheap.tiling.lists.chain .allocate,
    hsorted.sublist (inState_sublist false blocks), hsorted.sublist (inState_sublist true blocks),
    hheap.tiling.lists.apart .free .allocate (by decide), ?_, ?_, ?_, ?_⟩
  · intro block hblock
    obtain ⟨used, hused⟩ := (hmem block).1 hblock
    exact (hheap.tiling.filled.bounds hused).2
  · intro address hlt
    obtain ⟨tile, ⟨htile, hle, hgt⟩, hunique⟩ :=
      hheap.tiling.filled.existsUnique (Nat.zero_le address) hlt
    refine ⟨tile.address, ⟨(hmem _).2 ⟨tile.used, htile⟩, hle, hgt⟩, ?_⟩
    rintro other ⟨hother, hle', hgt'⟩
    obtain ⟨used, hused⟩ := (hmem other).1 hother
    exact congrArg Tile.address (hunique ⟨other, used⟩ ⟨hused, hle', hgt'⟩)
  · intro block hblock other hother heq
    obtain ⟨before, rest, rfl⟩ := List.append_of_mem (mem_inState.1 hblock)
    obtain ⟨-, hrest⟩ := filled_middle.1 hheap.tiling.filled
    have hbounds := (hheap.tiling.filled.bounds (mem_inState.1 hother)).2
    have hpos := cfg.headerSize_pos
    dsimp only at hrest hbounds
    rw [heq] at hrest
    cases rest with
    | nil =>
      have hend : other = cfg.heapMax := hrest
      omega
    | cons next rest =>
      obtain ⟨hnext, -⟩ := hrest
      have hused := coalesced_tail_used (List.isChain_split.1 hheap.coalesced).2 next rfl
      -- a block that starts there is in use, so it is not a free one
      refine hheap.tiling.lists.apart .free .allocate (by decide) other hother ?_
      have htile : (⟨other, true⟩ : Tile) = next := by rw [← hnext, ← hused]
      refine mem_inState.2 (List.mem_append_right before (List.mem_cons_of_mem _ ?_))
      exact htile ▸ List.mem_cons_self
  · obtain ⟨front, address, rfl⟩ := hheap.tiling.last
    refine ⟨address, mem_inState.2 (List.mem_append_right front List.mem_cons_self), ?_⟩
    exact (filled_middle.1 hheap.tiling.filled).2

/-- In every state that can be reached the heap is in order, and whatever is allowed there
returns. -/
theorem heap_in_order {cfg : HeapConfig} {last : FinshHeap}
    {trace : List (HeapAction × Option ℕ)}
    (hrun : (heapMachine cfg).RunWith (Allowed cfg) (finshHeapInit cfg) trace last) :
    (∃ free allocated, InOrder cfg last free allocated) ∧
      ∀ action, Allowed cfg last action → ((heapMachine cfg).step last action).isSome := by
  have hlast := hrun.invariant (fun heap => ∃ blocks, WellFormed cfg heap blocks)
    (fun heap action after result ⟨blocks, hheap⟩ hallowed hstep => by
      obtain ⟨after', result', hstep', hafter⟩ := step_wellFormed hheap hallowed
      rw [hstep] at hstep'
      cases hstep'
      exact hafter) ⟨_, wellFormed_init cfg⟩
  obtain ⟨blocks, hheap⟩ := hlast
  refine ⟨⟨_, _, inOrder_of_wellFormed hheap⟩, fun action hallowed => ?_⟩
  obtain ⟨after, result, hstep, -⟩ := step_wellFormed hheap hallowed
  rw [hstep]
  rfl

/-- Two allocations, a release, and an allocation that runs a collection. -/
def heapSchedule : List HeapAction :=
  [.allocate [] 20, .allocate [] 60, .free 8, .allocate [⟨true, some 36⟩] 100, .allocate [] 40]

theorem isSome_heapSchedule : ((heapMachine heapConfig32).exec (Allowed heapConfig32)
    (finshHeapInit heapConfig32) heapSchedule).isSome = true := by
  decide

theorem heap_in_order_schedule : ∃ last trace, (∃ free allocated,
    InOrder heapConfig32 last free allocated) ∧ trace.map Prod.snd =
      [some 8, some 36, none, none, some 8] ∧
    (heapMachine heapConfig32).RunWith (Allowed heapConfig32) (finshHeapInit heapConfig32)
      trace last :=
  ⟨_, _, (heap_in_order (Machine.runWith_of_isSome heapSchedule isSome_heapSchedule)).1,
    by decide, Machine.runWith_of_isSome heapSchedule isSome_heapSchedule⟩

end RtThread.Finsh
