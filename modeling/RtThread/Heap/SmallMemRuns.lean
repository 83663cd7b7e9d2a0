import RtThread.Heap.SmallMemInvariant

set_option linter.all false

/-!
# Runs of the small-memory heap

What holds after every sequence of calls on live pointers.  The heap stays a chain of
blocks without unused neighbours and its callers' payloads stay apart; the back link of
the closing header is not maintained.  `lfree` stays the lowest unused block as long as
`rt_realloc` does not cut a block below it.
-/

namespace RtThread.SmallMem

open Function
open RtThread.Core

variable {cfg : HeapConfig}

/-- The headers met by following `next` from offset 0 to `heap_end`. -/
def Heap.headers (heap : Heap) : List ℕ :=
  (links heap.mem).walk heap.heapEnd (heap.heapEnd + 1) 0

/-- The payload of a pointer, up to the next header. -/
def payload (cfg : HeapConfig) (heap : Heap) (pointer : ℕ) : Set ℕ :=
  Set.Ico pointer (heap.heapPtr + (heap.mem (headerOf cfg heap pointer)).next)

/-- The addresses of the header at an offset. -/
def headerArea (cfg : HeapConfig) (heap : Heap) (block : ℕ) : Set ℕ :=
  Set.Ico (heap.heapPtr + block) (heap.heapPtr + block + cfg.sizeofStructMem)

/-- Each header's `prev` is the header before it, the closing header included. -/
def BackLinked (heap : Heap) : Prop :=
  heap.headers.IsChain fun block after => (heap.mem after).prev = block

/-- The structure of the heap and of the payloads its callers hold. -/
structure WellFormed (cfg : HeapConfig) (st : State) : Prop where
  first : st.heap.headers.head? = some 0
  last : st.heap.headers.getLast? = some st.heap.heapEnd
  next : st.heap.headers.IsChain fun block after =>
    (st.heap.mem block).next = after ∧ block < after
  prev : st.heap.headers.dropLast.IsChain fun block after =>
    (st.heap.mem after).prev = block
  coalesced : st.heap.headers.dropLast.IsChain fun block after =>
    (st.heap.mem block).used ≠ 0 ∨ (st.heap.mem after).used ≠ 0
  aligned : ∀ pointer ∈ st.live, cfg.rtAlignSize ∣ pointer
  nonempty : ∀ pointer ∈ st.live, (payload cfg st.heap pointer).Nonempty
  inside : ∀ pointer ∈ st.live, payload cfg st.heap pointer ⊆
    Set.Ico st.heap.heapPtr (st.heap.heapPtr + st.heap.heapEnd)
  disjoint : (st.live : Set ℕ).PairwiseDisjoint (payload cfg st.heap)
  noHeader : ∀ pointer ∈ st.live, ∀ block ∈ st.heap.headers,
    Disjoint (payload cfg st.heap pointer) (headerArea cfg st.heap block)

section Inv

variable {heap : Heap} {live : Finset ℕ} {headers : List ℕ}

theorem Tiled.headers_eq (htiled : Tiled cfg heap.mem heap.heapEnd headers) :
    heap.headers = headers := by
  apply htiled.chain.walk_eq
  have hnodup : headers.Nodup := htiled.chain.sorted.imp ne_of_lt
  have hsubset : headers.toFinset ⊆ Finset.range (heap.heapEnd + 1) := by
    intro block hblock
    rw [List.mem_toFinset] at hblock
    exact Finset.mem_range.2 (Nat.lt_succ_of_le (htiled.chain.le_last hblock))
  have hcard := Finset.card_le_card hsubset
  rwa [List.toFinset_card_of_nodup hnodup, Finset.card_range] at hcard

/-- The payload of a live pointer is the inside of a used block. -/
theorem Inv.payload_eq (hinv : Inv cfg heap live headers) {pointer : ℕ}
    (hlive : pointer ∈ live) :
    ∃ block ∈ headers, block ≠ heap.heapEnd ∧
      pointer = heap.heapPtr + block + cfg.sizeofStructMem ∧
      payload cfg heap pointer = Set.Ico pointer (heap.heapPtr + (heap.mem block).next) := by
  obtain ⟨block, hblock, hne, -, hpointer, hheader⟩ := hinv.exists_block hlive
  exact ⟨block, hblock, hne, hpointer, by rw [payload, hheader]⟩

theorem Inv.payload_subset (hinv : Inv cfg heap live headers) {pointer : ℕ}
    (hlive : pointer ∈ live) :
    (payload cfg heap pointer).Nonempty ∧
      payload cfg heap pointer ⊆ Set.Ico heap.heapPtr (heap.heapPtr + heap.heapEnd) := by
  obtain ⟨block, hblock, hne, rfl, hpayload⟩ := hinv.payload_eq hlive
  obtain ⟨hroom, hnext, -⟩ := hinv.block_bounds hblock hne
  rw [hpayload]
  exact ⟨Set.nonempty_Ico.2 (by omega), Set.Ico_subset_Ico (by omega) (by omega)⟩

theorem Inv.payload_disjoint (hinv : Inv cfg heap live headers) {left right : ℕ}
    (hleft : left ∈ live) (hright : right ∈ live) (hne : left ≠ right) :
    Disjoint (payload cfg heap left) (payload cfg heap right) := by
  obtain ⟨block, hblock, -, hpointer, hpayload⟩ := hinv.payload_eq hleft
  obtain ⟨other, hother, -, hpointer', hpayload'⟩ := hinv.payload_eq hright
  rw [hpayload, hpayload', Set.Ico_disjoint_Ico]
  rcases lt_trichotomy block other with hlt | heq | hgt
  · have hle : (heap.mem block).next ≤ other := hinv.tiled.chain.next_le hblock hother hlt
    omega
  · omega
  · have hle : (heap.mem other).next ≤ block := hinv.tiled.chain.next_le hother hblock hgt
    omega

theorem Inv.payload_disjoint_header (hinv : Inv cfg heap live headers) {pointer other : ℕ}
    (hlive : pointer ∈ live) (hother : other ∈ headers) :
    Disjoint (payload cfg heap pointer) (headerArea cfg heap other) := by
  obtain ⟨block, hblock, -, hpointer, hpayload⟩ := hinv.payload_eq hlive
  rw [hpayload, headerArea, Set.Ico_disjoint_Ico]
  rcases le_or_gt other block with hle | hgt
  · omega
  · have hle : (heap.mem block).next ≤ other := hinv.tiled.chain.next_le hblock hother hgt
    omega

theorem Inv.wellFormed (hinv : Inv cfg heap live headers) :
    WellFormed cfg ⟨heap, live⟩ := by
  have hheaders : heap.headers = headers := hinv.tiled.headers_eq
  have hchain := hinv.tiled.chain
  obtain ⟨start, hstart⟩ := List.getLast?_eq_some_iff.1 hchain.getLast
  have hdrop : heap.headers.dropLast = start := by rw [hheaders, hstart, List.dropLast_concat]
  have hsorted := hchain.sorted
  have hadjacent := hchain.adjacent
  have hcoalesced := hinv.coalesced
  rw [hstart] at hsorted hadjacent hcoalesced
  have hbefore : ∀ block ∈ start, block ≠ heap.heapEnd := fun block hblock =>
    ((List.pairwise_append.1 hsorted).2.2 block hblock _ (by simp)).ne
  refine ⟨hheaders ▸ hchain.head, hheaders ▸ hchain.getLast, ?_, ?_, ?_, fun pointer hlive => ?_,
    fun _ hlive => (hinv.payload_subset hlive).1, fun _ hlive => (hinv.payload_subset hlive).2,
    fun _ hleft _ hright hne => hinv.payload_disjoint hleft hright hne,
    fun _ hlive _ hother => hinv.payload_disjoint_header hlive (hheaders ▸ hother)⟩
  · rw [hheaders]
    exact hchain.adjacent.imp fun _ _ hadjacent => ⟨hadjacent.1, hadjacent.2.1⟩
  · rw [hdrop]
    exact hadjacent.left_of_append.imp_of_mem_imp fun block after _ hafter hadjacent =>
      hadjacent.2.2 (hbefore after hafter)
  · rw [hdrop]
    exact hcoalesced.left_of_append
  · obtain ⟨block, hblock, -, rfl, -⟩ := hinv.payload_eq hlive
    exact hinv.pointer_aligned hblock

end Inv

/-! ## Runs -/

/-- The condition under which a call keeps `lfree` the lowest unused block. -/
def KeepsLowest (cfg : HeapConfig) (st : State) : Action → Prop
  | .realloc rmem newsize => ReallocKeepsLowest cfg st.heap rmem newsize
  | _ => True

instance (st : State) (act : Action) : Decidable (KeepsLowest cfg st act) :=
  match act with
  | .realloc _ _ => inferInstanceAs (Decidable (ReallocKeepsLowest _ _ _ _))
  | .malloc _ => isTrue trivial
  | .free _ => isTrue trivial

/-- A call returns, keeps the invariant, and keeps `lfree` lowest exactly under its
condition. -/
theorem step_spec {st next : State} {act : Action} {event : Event} {headers : List ℕ}
    (hinv : Inv cfg st.heap st.live headers)
    (hstep : step cfg st act = some (next, event)) :
    (∃ pointer, event = .returned pointer) ∧
      ∃ headers', Inv cfg next.heap next.live headers' ∧
        (NoneBelow st.heap.mem headers st.heap.lfree →
          (NoneBelow next.heap.mem headers' next.heap.lfree ↔
            KeepsLowest cfg st act)) := by
  cases act with
  | malloc size =>
    obtain ⟨heap', pointer, headers', hmalloc, hinv', -, hnone⟩ := rtMalloc_spec hinv size
    simp only [step, hmalloc] at hstep
    split at hstep
    · cases hstep
      exact ⟨⟨pointer, rfl⟩, headers', hinv', fun hlow => iff_of_true (hnone hlow) trivial⟩
    · contradiction
  | realloc rmem newsize =>
    simp only [step] at hstep
    split at hstep
    · next hholds =>
        obtain ⟨heap', pointer, headers', hrealloc, hinv', hnone⟩ :=
          rtRealloc_spec hinv hholds.2 newsize
        rw [hrealloc] at hstep
        cases hstep
        exact ⟨⟨pointer, rfl⟩, headers', hinv', hnone⟩
    · contradiction
  | free rmem =>
    simp only [step] at hstep
    split at hstep
    · next hholds =>
        rcases hholds with rfl | hlive
        · have hnull : (0 : ℕ) ∉ st.live := fun hlive => hinv.ne_zero hlive rfl
          cases hstep
          refine ⟨⟨0, rfl⟩, headers, ?_, fun hlow => iff_of_true hlow trivial⟩
          simpa only [Finset.erase_eq_of_notMem hnull] using hinv
        · obtain ⟨heap', headers', hfree, hinv', hnone⟩ := rtFree_spec hinv hlive
          rw [hfree] at hstep
          cases hstep
          exact ⟨⟨0, rfl⟩, headers', hinv', fun hlow => iff_of_true (hnone hlow) trivial⟩
    · contradiction

/-- What `rt_system_heap_init` produces. -/
structure Initial (cfg : HeapConfig) (heap : Heap) : Prop where
  heapEnd_eq : heap.heapEnd = heap.memSizeAligned + cfg.sizeofStructMem
  fits : heap.heapPtr + heap.memSizeAligned + 2 * cfg.sizeofStructMem < cfg.wordSize
  ptr_aligned : cfg.rtAlignSize ∣ heap.heapPtr
  size_aligned : cfg.rtAlignSize ∣ heap.memSizeAligned
  lfree_eq : heap.lfree = 0
  first : heap.mem 0 = ⟨heapMagic, 0, heap.heapEnd, 0⟩
  last : heap.mem heap.heapEnd = ⟨heapMagic, 1, heap.heapEnd, heap.heapEnd⟩

theorem rtSystemHeapInit_spec {beginAddr endAddr : ℕ} {mem : Headers} {data : ℕ → UInt8}
    {heap : Heap} (hinit : rtSystemHeapInit cfg beginAddr endAddr mem data = some heap) :
    Initial cfg heap := by
  have hpos : 0 < cfg.sizeofStructMem := sizeofStructMem_pos
  have hdvd : cfg.rtAlignSize ∣ cfg.sizeofStructMem := cfg.rtAlignSize_dvd_rtAlign _
  have hbegin : cfg.rtAlignSize ∣ cfg.rtAlign beginAddr :=
    cfg.rtAlignSize_dvd_rtAlign _
  have hend : cfg.rtAlignSize ∣ cfg.rtAlignDown endAddr :=
    cfg.rtAlignSize_dvd_rtAlignDown _
  have hlt := cfg.rtAlignDown_lt endAddr
  simp only [rtSystemHeapInit] at hinit
  split at hinit
  · next hroom =>
      have hadd : cfg.add (cfg.rtAlignDown endAddr - cfg.rtAlign beginAddr -
          2 * cfg.sizeofStructMem) cfg.sizeofStructMem =
          cfg.rtAlignDown endAddr - cfg.rtAlign beginAddr -
            2 * cfg.sizeofStructMem + cfg.sizeofStructMem :=
        cfg.add_eq (by omega)
      rw [hadd] at hinit
      cases hinit
      refine ⟨rfl, by dsimp only; omega, hbegin, ?_, rfl, ?_, ?_⟩
      · exact Nat.dvd_sub (Nat.dvd_sub hend hbegin) (hdvd.mul_left 2)
      · dsimp only
        rw [update_of_ne (by omega), update_self]
      · dsimp only
        rw [update_self]
  · contradiction

namespace Initial

variable {heap : Heap}

theorem heapEnd_pos (hinitial : Initial cfg heap) : 0 < heap.heapEnd := by
  have hpos : 0 < cfg.sizeofStructMem := sizeofStructMem_pos
  have hend := hinitial.heapEnd_eq
  omega

theorem chain (hinitial : Initial cfg heap) :
    (links heap.mem).Chain 0 heap.heapEnd [0, heap.heapEnd] where
  head := rfl
  getLast := rfl
  adjacent := by
    refine .cons_cons ⟨?_, hinitial.heapEnd_pos, fun hne => absurd rfl hne⟩ (.singleton _)
    change (heap.mem 0).next = heap.heapEnd
    rw [hinitial.first]

theorem noneBelow (hinitial : Initial cfg heap) :
    NoneBelow heap.mem [0, heap.heapEnd] heap.lfree := by
  intro block _ _
  rw [hinitial.lfree_eq]
  exact Nat.zero_le block

/-- A heap that can hold a smallest block satisfies the invariant. -/
theorem inv (hinitial : Initial cfg heap)
    (hmin : cfg.minSizeAligned ≤ heap.memSizeAligned) :
    Inv cfg heap ∅ [0, heap.heapEnd] := by
  have hend := hinitial.heapEnd_eq
  have hminpos := cfg.minSizeAligned_pos
  refine ⟨⟨hend, hmin, hinitial.fits, hinitial.ptr_aligned⟩,
    ⟨hinitial.chain, ?_, ?_, ?_, ?_, ?_⟩, ?_, ⟨?_, .inr ?_⟩, fun pointer => ?_⟩
  · rw [hinitial.first]
  · simp only [List.mem_cons, List.not_mem_nil, or_false]
    rintro block (rfl | rfl)
    · exact dvd_zero _
    · rw [hend]
      exact hinitial.size_aligned.add (cfg.rtAlignSize_dvd_rtAlign _)
  · simp only [List.mem_cons, List.not_mem_nil, or_false]
    rintro block (rfl | rfl) hne
    · rw [hinitial.first]
      dsimp only
      omega
    · exact absurd rfl hne
  · simp only [List.mem_cons, List.not_mem_nil, or_false]
    rintro block (rfl | rfl)
    · rw [hinitial.first]
    · rw [hinitial.last]
  · rw [hinitial.last]
    exact one_ne_zero
  · refine .cons_cons (.inr ?_) (.singleton _)
    rw [hinitial.last]
    exact one_ne_zero
  · rw [hinitial.lfree_eq]
    exact List.mem_cons_self
  · rw [hinitial.lfree_eq, hinitial.first]
  · simp only [Finset.notMem_empty, List.mem_cons, List.not_mem_nil, or_false, false_iff]
    rintro ⟨block, rfl | rfl, hne, hused, -⟩
    · exact hused (by rw [hinitial.first])
    · exact hne rfl

end Initial

/-- After every sequence of calls on live pointers, no call has faulted, and the heap is a
chain of blocks from offset 0 to `heap_end` with the back links of the blocks, without
unused neighbours, whose live payloads are aligned, inside the heap and disjoint from each
other and from the headers. -/
theorem heap_wellFormed {beginAddr endAddr : ℕ} {mem : Headers} {data : ℕ → UInt8} {heap : Heap}
    (hinit : rtSystemHeapInit cfg beginAddr endAddr mem data = some heap)
    (hmin : cfg.minSizeAligned ≤ heap.memSizeAligned)
    {trace : List (Action × Event)} {last : State}
    (hrun : (machine cfg).Run ⟨heap, ∅⟩ trace last) :
    WellFormed cfg last ∧ ∀ entry ∈ trace, ∃ pointer, entry.2 = .returned pointer := by
  have hgeneral : (∃ headers, Inv cfg last.heap last.live headers) ∧
      ∀ entry ∈ trace, ∃ pointer, entry.2 = .returned pointer := by
    refine hrun.traceInvariant
      (fun past st => (∃ headers, Inv cfg st.heap st.live headers) ∧
        ∀ entry ∈ past, ∃ pointer, entry.2 = .returned pointer)
      ?_ ⟨⟨_, (rtSystemHeapInit_spec hinit).inv hmin⟩, by simp⟩
    rintro past st action next event ⟨⟨headers, hinv⟩, hpast⟩ - hstep
    obtain ⟨hreturned, headers', hinv', -⟩ := step_spec hinv hstep
    refine ⟨⟨headers', hinv'⟩, fun entry hentry => ?_⟩
    rcases List.mem_append.1 hentry with hold | hnew
    · exact hpast entry hold
    · obtain rfl := List.mem_singleton.1 hnew
      exact hreturned
  obtain ⟨⟨headers, hinv⟩, hreturned⟩ := hgeneral
  exact ⟨hinv.wellFormed, hreturned⟩

/-- A fresh heap of 232 bytes on a 32-bit target. -/
def heap32 : Heap :=
  (rtSystemHeapInit config32 0x1000 0x1100 (fun _ => ⟨0, 0, 0, 0⟩) (fun _ => 0)).get rfl

/-- Blocks are split, cut, moved and merged on both sides. -/
theorem heap_wellFormed_mixed :
    ∃ trace last, (machine config32).Run ⟨heap32, ∅⟩ trace last ∧ last.live = {0x1094} ∧
      WellFormed config32 last := by
  have hinit : rtSystemHeapInit config32 0x1000 0x1100 (fun _ => ⟨0, 0, 0, 0⟩) (fun _ => 0) =
      some heap32 := rfl
  have hrun : (machine config32).Run ⟨heap32, ∅⟩ _ _ :=
    Machine.runWith_of_exec
      [.malloc 100, .malloc 12, .realloc 0x100c 8, .realloc 0x107c 40, .free 0x100c] rfl
  exact ⟨_, _, hrun, by decide, (heap_wellFormed hinit (by decide) hrun).1⟩

/-- `heap_end->prev` is `heap_end` itself after the initialisation, not the block before
it. -/
theorem not_backLinked_of_init :
    rtSystemHeapInit config32 0x1000 0x1100 (fun _ => ⟨0, 0, 0, 0⟩) (fun _ => 0) = some heap32 ∧
      config32.minSizeAligned ≤ heap32.memSizeAligned ∧ ¬ BackLinked heap32 := by
  refine ⟨rfl, by decide, ?_⟩
  have hheaders : heap32.headers = [0, 244] := by decide
  rw [BackLinked, hheaders, List.isChain_pair]
  decide

/-! ## The lowest unused block -/

/-- `lfree` is the unused block with the lowest address, or `heap_end` if there is
none. -/
def LfreeLowest (heap : Heap) : Prop :=
  (heap.lfree ∈ heap.headers ∧ heap.lfree ≠ heap.heapEnd ∧ (heap.mem heap.lfree).used = 0 ∧
      ∀ block ∈ heap.headers, block ≠ heap.heapEnd → (heap.mem block).used = 0 →
        heap.lfree ≤ block) ∨
    (heap.lfree = heap.heapEnd ∧
      ∀ block ∈ heap.headers, block ≠ heap.heapEnd → (heap.mem block).used ≠ 0)

instance (heap : Heap) : Decidable (LfreeLowest heap) :=
  inferInstanceAs (Decidable (_ ∨ _))

theorem lfreeLowest_iff {heap : Heap} {headers : List ℕ} (hheaders : heap.headers = headers)
    (hchain : (links heap.mem).Chain 0 heap.heapEnd headers)
    (hclosed : (heap.mem heap.heapEnd).used ≠ 0)
    (hfree : FreeOrEnd heap.mem heap.heapEnd headers heap.lfree) :
    LfreeLowest heap ↔ NoneBelow heap.mem headers heap.lfree := by
  rw [LfreeLowest, hheaders]
  constructor
  · intro hlowest block hblock hunused
    have hne : block ≠ heap.heapEnd := fun hsame => hclosed (hsame ▸ hunused)
    rcases hlowest with ⟨-, -, -, hlow⟩ | ⟨-, hnone⟩
    · exact hlow block hblock hne hunused
    · exact absurd hunused (hnone block hblock hne)
  · intro hnone
    by_cases hend : heap.lfree = heap.heapEnd
    · refine .inr ⟨hend, fun block hblock hne hunused => hne ?_⟩
      exact le_antisymm (hchain.le_last hblock) (hend ▸ hnone block hblock hunused)
    · exact .inl ⟨hfree.1, hend, hfree.2.resolve_left hend,
        fun block hblock _ hunused => hnone block hblock hunused⟩

theorem Inv.lfreeLowest_iff {heap : Heap} {live : Finset ℕ} {headers : List ℕ}
    (hinv : Inv cfg heap live headers) :
    LfreeLowest heap ↔ NoneBelow heap.mem headers heap.lfree :=
  SmallMem.lfreeLowest_iff hinv.tiled.headers_eq hinv.tiled.chain hinv.tiled.closed hinv.lfree

/-- A heap too small for a smallest block, on which no allocation succeeds. -/
structure Exhausted (cfg : HeapConfig) (st : State) : Prop where
  initial : Initial cfg st.heap
  small : st.heap.memSizeAligned < cfg.minSizeAligned
  live : st.live = ∅

section Exhausted

variable {st next : State} {heap heap' : Heap}

theorem Exhausted.lfreeLowest (hexhausted : Exhausted cfg st) :
    LfreeLowest st.heap := by
  have hinitial := hexhausted.initial
  have hpos := hinitial.heapEnd_pos
  have hheaders : st.heap.headers = [0, st.heap.heapEnd] :=
    hinitial.chain.walk_eq (by simp only [List.length_cons, List.length_nil]; omega)
  refine (lfreeLowest_iff hheaders hinitial.chain ?_ ⟨?_, .inr ?_⟩).2 hinitial.noneBelow
  · rw [hinitial.last]
    exact one_ne_zero
  · rw [hinitial.lfree_eq]
    exact List.mem_cons_self
  · rw [hinitial.lfree_eq, hinitial.first]

/-- The search finds neither the only block, which is too small, nor the end. -/
theorem Exhausted.firstFit_ne (hexhausted : Exhausted cfg st) (fuel : ℕ) {ptr block : ℕ}
    (hptr : ptr = 0 ∨ ptr = st.heap.heapEnd) :
    firstFit cfg st.heap cfg.minSizeAligned fuel ptr ≠ .ok (some block) := by
  have hinitial := hexhausted.initial
  have hsmall := hexhausted.small
  have hend := hinitial.heapEnd_eq
  have hfits := hinitial.fits
  induction fuel generalizing ptr with
  | zero => simp [firstFit]
  | succ fuel ih =>
    rw [firstFit]
    split
    · split
      · next hfit =>
          rcases hptr with rfl | rfl
          · have hpayload : cfg.sub st.heap.heapEnd (cfg.add 0 cfg.sizeofStructMem) =
                st.heap.heapEnd - cfg.sizeofStructMem := by
              rw [cfg.add_eq (by omega), Nat.zero_add, cfg.sub_eq (by omega) (by omega)]
            rw [hinitial.first, hpayload] at hfit
            omega
          · rw [hinitial.last] at hfit
            exact absurd hfit.1 one_ne_zero
      · refine ih (.inr ?_)
        rcases hptr with rfl | rfl
        · rw [hinitial.first]
        · rw [hinitial.last]
    · simp

theorem Exhausted.rtMalloc_eq (hexhausted : Exhausted cfg st) {size pointer : ℕ}
    (hmalloc : rtMalloc cfg st.heap size = .ok (heap', pointer)) :
    heap' = st.heap ∧ pointer = 0 := by
  have hsmall := hexhausted.small
  unfold rtMalloc at hmalloc
  split at hmalloc
  · obtain ⟨rfl, rfl⟩ := Prod.mk.inj (Except.ok.inj hmalloc)
    exact ⟨rfl, rfl⟩
  · split at hmalloc
    · obtain ⟨rfl, rfl⟩ := Prod.mk.inj (Except.ok.inj hmalloc)
      exact ⟨rfl, rfl⟩
    · have hrequest : requestSize cfg size = cfg.minSizeAligned := if_pos (by omega)
      rw [hrequest] at hmalloc
      cases hfound : firstFit cfg st.heap cfg.minSizeAligned (st.heap.heapEnd + 1)
          st.heap.lfree with
      | error fault =>
        rw [hfound] at hmalloc
        contradiction
      | ok found =>
        cases found with
        | none =>
          rw [hfound] at hmalloc
          obtain ⟨rfl, rfl⟩ := Prod.mk.inj (Except.ok.inj hmalloc)
          exact ⟨rfl, rfl⟩
        | some block =>
          exact absurd hfound
            (hexhausted.firstFit_ne _ (.inl hexhausted.initial.lfree_eq))

theorem Exhausted.rtRealloc_eq (hexhausted : Exhausted cfg st) {newsize pointer : ℕ}
    (hrealloc : rtRealloc cfg st.heap 0 newsize = .ok (heap', pointer)) :
    heap' = st.heap ∧ pointer = 0 := by
  simp only [rtRealloc] at hrealloc
  split at hrealloc
  · obtain ⟨rfl, rfl⟩ := Prod.mk.inj (Except.ok.inj hrealloc)
    exact ⟨rfl, rfl⟩
  · split at hrealloc
    · rw [rtFree, if_pos rfl] at hrealloc
      obtain ⟨rfl, rfl⟩ := Prod.mk.inj (Except.ok.inj hrealloc)
      exact ⟨rfl, rfl⟩
    · rw [if_pos trivial] at hrealloc
      exact hexhausted.rtMalloc_eq hrealloc

theorem Exhausted.step (hexhausted : Exhausted cfg st) {act : Action} {event : Event}
    (hstep : step cfg st act = some (next, event)) :
    next = st ∧ KeepsLowest cfg st act := by
  have hnull : ∀ {rmem}, st.holds rmem → rmem = 0 := by
    rintro rmem (hzero | hlive)
    · exact hzero
    · rw [hexhausted.live] at hlive
      exact absurd hlive (Finset.notMem_empty rmem)
  have hempty : ∀ rmem, st.live.erase rmem = st.live := by
    simp [hexhausted.live]
  cases act with
  | malloc size =>
    refine ⟨?_, trivial⟩
    simp only [SmallMem.step] at hstep
    split at hstep
    · cases hmalloc : rtMalloc cfg st.heap size with
      | ok result =>
        obtain ⟨heap', pointer⟩ := result
        obtain ⟨rfl, rfl⟩ := hexhausted.rtMalloc_eq hmalloc
        rw [hmalloc] at hstep
        exact (Prod.mk.inj (Option.some.inj hstep)).1.symm
      | error fault =>
        rw [hmalloc] at hstep
        exact (Prod.mk.inj (Option.some.inj hstep)).1.symm
    · contradiction
  | realloc rmem newsize =>
    simp only [SmallMem.step] at hstep
    split at hstep
    · next hholds =>
        obtain rfl := hnull hholds.2
        refine ⟨?_, fun hcut => absurd rfl hcut.2.2.1⟩
        cases hrealloc : rtRealloc cfg st.heap 0 newsize with
        | ok result =>
          obtain ⟨heap', pointer⟩ := result
          obtain ⟨rfl, rfl⟩ := hexhausted.rtRealloc_eq hrealloc
          rw [hrealloc] at hstep
          cases hstep
          rw [afterRealloc, hempty, if_pos rfl, ite_self]
        | error fault =>
          rw [hrealloc] at hstep
          exact (Prod.mk.inj (Option.some.inj hstep)).1.symm
    · contradiction
  | free rmem =>
    refine ⟨?_, trivial⟩
    simp only [SmallMem.step] at hstep
    split at hstep
    · next hholds =>
        obtain rfl := hnull hholds
        cases hstep
        rw [hempty]
    · contradiction

end Exhausted

/-- A heap that can serve requests and whose `lfree` is lowest, or one that cannot. -/
def LowestInv (cfg : HeapConfig) (st : State) : Prop :=
  (∃ headers, Inv cfg st.heap st.live headers ∧
    NoneBelow st.heap.mem headers st.heap.lfree) ∨ Exhausted cfg st

/-- In every sequence of calls on live pointers, `lfree` is the lowest unused block, or
`heap_end` if there is none, in every state exactly when no call of `rt_realloc` cuts a
block without `lfree` below it or right after it. -/
theorem lfree_lowest_iff {beginAddr endAddr : ℕ} {mem : Headers} {data : ℕ → UInt8} {heap : Heap}
    (hinit : rtSystemHeapInit cfg beginAddr endAddr mem data = some heap)
    {trace : List (Action × Event)} {last : State}
    (hrun : (machine cfg).Run ⟨heap, ∅⟩ trace last) :
    ((machine cfg).RunWith (fun st _ => LfreeLowest st.heap) ⟨heap, ∅⟩ trace last ∧
        LfreeLowest last.heap) ↔
      (machine cfg).RunWith (KeepsLowest cfg) ⟨heap, ∅⟩ trace last := by
  have hinitial := rtSystemHeapInit_spec hinit
  apply hrun.always_iff (LowestInv cfg) (fun st => LfreeLowest st.heap)
  · rintro st (⟨headers, hinv, hnone⟩ | hexhausted)
    · exact hinv.lfreeLowest_iff.2 hnone
    · exact hexhausted.lfreeLowest
  · rintro st action next event (⟨headers, hinv, hnone⟩ | hexhausted) hkeeps hstep
    · obtain ⟨-, headers', hinv', hiff⟩ := step_spec hinv hstep
      exact .inl ⟨headers', hinv', (hiff hnone).2 hkeeps⟩
    · rw [(hexhausted.step hstep).1]
      exact .inr hexhausted
  · rintro st action next event (⟨headers, hinv, hnone⟩ | hexhausted) hkeeps hstep
    · obtain ⟨-, headers', hinv', hiff⟩ := step_spec hinv hstep
      rw [hinv'.lfreeLowest_iff, hiff hnone]
      exact hkeeps
    · exact absurd (hexhausted.step hstep).2 hkeeps
  · by_cases hmin : cfg.minSizeAligned ≤ heap.memSizeAligned
    · exact .inl ⟨_, hinitial.inv hmin, hinitial.noneBelow⟩
    · exact .inr ⟨hinitial, not_le.1 hmin, rfl⟩

/-- The last block before the free end of the heap may be cut. -/
theorem lfree_lowest_last_block :
    ∃ trace last, (machine config32).RunWith (KeepsLowest config32) ⟨heap32, ∅⟩ trace last ∧
      trace.length = 3 ∧ LfreeLowest last.heap := by
  have hinit : rtSystemHeapInit config32 0x1000 0x1100 (fun _ => ⟨0, 0, 0, 0⟩) (fun _ => 0) =
      some heap32 := rfl
  have hrun : (machine config32).RunWith (KeepsLowest config32) ⟨heap32, ∅⟩ _ _ :=
    Machine.runWith_of_exec [.malloc 12, .malloc 100, .realloc 0x1024 8] rfl
  exact ⟨_, _, hrun, rfl, ((lfree_lowest_iff hinit hrun.run).2 hrun).2⟩

/-- A block below `lfree` is cut: the new unused block is below `lfree`. -/
theorem not_lfreeLowest_of_cut :
    ∃ trace last, (machine config32).Run ⟨heap32, ∅⟩ trace last ∧
      trace.map Prod.fst = [.malloc 100, .malloc 12, .realloc 0x100c 8] ∧
      ¬ LfreeLowest last.heap := by
  have hrun : (machine config32).Run ⟨heap32, ∅⟩ _ _ :=
    Machine.runWith_of_exec [.malloc 100, .malloc 12, .realloc 0x100c 8] rfl
  exact ⟨_, _, hrun, rfl, by decide⟩

end RtThread.SmallMem
