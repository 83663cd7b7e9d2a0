import RtThread.Heap.SmallMemRequests

set_option linter.all false

/-!
# The searches of the small-memory heap

The loop of `rt_malloc` and the scan for a new `lfree` follow `next` until a bound
that is computed from the request.  The request is raised to the smallest block only
after it has been compared with the size of the heap, so in a heap without room for
a smallest block the bound wraps around and the loop stays at `heap_end`, which
links to itself.
-/

namespace RtThread.SmallMem

open RtThread.Core

variable {cfg : HeapConfig}

/-- The headers that the loop of `rt_malloc` reads in a number of rounds. -/
def firstFitReads (cfg : HeapConfig) (heap : Heap) (size : ℕ) : ℕ → ℕ → List ℕ
  | 0, _ => []
  | fuel + 1, ptr =>
    if ptr < cfg.sub heap.memSizeAligned size then
      if (heap.mem ptr).used = 0 ∧
          size ≤ cfg.sub (heap.mem ptr).next (cfg.add ptr cfg.sizeofStructMem) then
        [ptr]
      else ptr :: firstFitReads cfg heap size fuel (heap.mem ptr).next
    else []

/-- The headers that the scan for a new `lfree` reads in a number of rounds. -/
def nextFreeReads (heap : Heap) : ℕ → ℕ → List ℕ
  | 0, _ => []
  | fuel + 1, lfree =>
    lfree :: if (heap.mem lfree).used ≠ 0 ∧ lfree ≠ heap.heapEnd then
      nextFreeReads heap fuel (heap.mem lfree).next
    else []

/-- The headers that taking a block reads or writes. -/
def takeBlockTouches (cfg : HeapConfig) (heap : Heap) (ptr size : ℕ) : List ℕ :=
  let next := (heap.mem ptr).next
  let fits := cfg.add (cfg.add size cfg.sizeofStructMem) cfg.minSizeAligned
  if fits ≤ cfg.sub next (cfg.add ptr cfg.sizeofStructMem) then
    [ptr, cfg.add (cfg.add ptr cfg.sizeofStructMem) size, next]
  else [ptr]

/-- `rt_malloc` comes to its loop. -/
def Searches (cfg : HeapConfig) (heap : Heap) (size : ℕ) : Prop :=
  size ≠ 0 ∧ cfg.rtAlign size ≤ heap.memSizeAligned

instance (heap : Heap) (size : ℕ) : Decidable (Searches cfg heap size) :=
  inferInstanceAs (Decidable (_ ∧ _))

/-- The headers that `rt_malloc` touches when each of its loops takes at most so many
rounds. -/
def mallocTouches (cfg : HeapConfig) (heap : Heap) (size fuel : ℕ) : List ℕ :=
  let request := requestSize cfg size
  if Searches cfg heap size then
    firstFitReads cfg heap request fuel heap.lfree ++
      match firstFit cfg heap request fuel heap.lfree with
      | .ok (some ptr) =>
        takeBlockTouches cfg heap ptr request ++
          if ptr = heap.lfree then
            nextFreeReads (takeBlock cfg heap ptr request) fuel heap.lfree
          else []
      | _ => []
  else []

/-- `rt_malloc` ends, with both of its loops, and touches no header beyond
`heap_end` in any number of rounds. -/
structure MallocEnds (cfg : HeapConfig) (heap : Heap) (size : ℕ) : Prop where
  search : Searches cfg heap size →
    ∃ fuel found, firstFit cfg heap (requestSize cfg size) fuel heap.lfree = .ok found
  scan : Searches cfg heap size → ∀ fuel,
    firstFit cfg heap (requestSize cfg size) fuel heap.lfree = .ok (some heap.lfree) →
      ∃ rounds lfree, nextFree (takeBlock cfg heap heap.lfree (requestSize cfg size))
        rounds heap.lfree = .ok lfree
  returns : ∃ result, rtMalloc cfg heap size = .ok result
  inside : ∀ fuel, ∀ offset ∈ mallocTouches cfg heap size fuel, offset ≤ heap.heapEnd

section Inv

variable {heap : Heap} {live : Finset ℕ} {headers : List ℕ} {block size : ℕ}

/-- The loop reads headers of the chain only, and what it finds can serve the
request, in any number of rounds. -/
theorem firstFitReads_spec (hinv : Inv cfg heap live headers)
    (hsize : size ≤ heap.memSizeAligned) (fuel : ℕ) {ptr : ℕ} (hptr : ptr ∈ headers) :
    (∀ offset ∈ firstFitReads cfg heap size fuel ptr, offset ∈ headers) ∧
      ∀ block, firstFit cfg heap size fuel ptr = .ok (some block) →
        Fits cfg heap headers size block := by
  induction fuel generalizing ptr with
  | zero => exact ⟨by simp [firstFitReads], by simp [firstFit]⟩
  | succ fuel ih =>
    have hend := hinv.geometry.heapEnd_eq
    have hword := hinv.geometry.fits
    have hbound : cfg.sub heap.memSizeAligned size = heap.memSizeAligned - size :=
      cfg.sub_eq hsize (by omega)
    rw [firstFitReads, firstFit, hbound]
    split
    · next hlt =>
        have hne : ptr ≠ heap.heapEnd := by omega
        obtain ⟨hroom, hnext, hfits⟩ := hinv.block_bounds hptr hne
        have hpayload : cfg.sub (heap.mem ptr).next (cfg.add ptr cfg.sizeofStructMem) =
            (heap.mem ptr).next - (ptr + cfg.sizeofStructMem) := by
          rw [cfg.add_eq (by omega), cfg.sub_eq (by omega) (by omega)]
        rw [hpayload]
        split
        · next hfit =>
            refine ⟨by simpa using hptr, fun block hblock => ?_⟩
            obtain rfl : ptr = block := by simpa using hblock
            exact ⟨hptr, hne, hfit.1, by omega⟩
        · obtain ⟨hreads, hfound⟩ := ih (hinv.tiled.chain.next_mem hptr hne)
          exact ⟨List.forall_mem_cons.2 ⟨hptr, hreads⟩, hfound⟩
    · exact ⟨by simp, by simp⟩

theorem nextFreeReads_spec (htiled : Tiled cfg heap.mem heap.heapEnd headers) {fuel start : ℕ}
    (hstart : start ∈ headers) : ∀ offset ∈ nextFreeReads heap fuel start, offset ∈ headers := by
  induction fuel generalizing start with
  | zero => simp [nextFreeReads]
  | succ fuel ih =>
    rw [nextFreeReads]
    refine List.forall_mem_cons.2 ⟨hstart, ?_⟩
    split
    · next hskip => exact ih (htiled.chain.next_mem hstart hskip.2)
    · simp

theorem takeBlockTouches_le (hinv : Inv cfg heap live headers)
    (hfits : Fits cfg heap headers size block) :
    ∀ offset ∈ takeBlockTouches cfg heap block size, offset ≤ heap.heapEnd := by
  obtain ⟨hblock, hne, -, hroom⟩ := hfits
  obtain ⟨-, hnext, hword⟩ := hinv.block_bounds hblock hne
  have hstart : cfg.add block cfg.sizeofStructMem = block + cfg.sizeofStructMem :=
    cfg.add_eq (by omega)
  have hfresh : cfg.add (block + cfg.sizeofStructMem) size =
      block + cfg.sizeofStructMem + size :=
    cfg.add_eq (by omega)
  have hlast := hinv.tiled.chain.le_last hblock
  simp only [takeBlockTouches, hstart, hfresh]
  split
  · simp only [List.mem_cons, List.not_mem_nil, or_false]
    omega
  · simpa using hlast

theorem Inv.searches_requestSize_le (hinv : Inv cfg heap live headers)
    (hsearches : Searches cfg heap size) : requestSize cfg size ≤ heap.memSizeAligned := by
  have hmin := hinv.geometry.min_le
  have hle := hsearches.2
  rw [requestSize]
  split <;> omega

/-- In a heap with room for a smallest block every search ends. -/
theorem Inv.mallocEnds (hinv : Inv cfg heap live headers) (size : ℕ) :
    MallocEnds cfg heap size where
  search hsearches := by
    obtain ⟨found, hfound, -⟩ := firstFit_spec hinv (hinv.searches_requestSize_le hsearches)
      hinv.lfree.1 (show heap.heapEnd < heap.lfree + (heap.heapEnd + 1) by omega)
    exact ⟨_, found, hfound⟩
  scan hsearches fuel hfound := by
    have hfits := (firstFitReads_spec hinv (hinv.searches_requestSize_le hsearches) fuel
      hinv.lfree.1).2 _ hfound
    obtain ⟨headers', htaken⟩ := takeBlock_spec hinv hfits (rtAlignSize_dvd_requestSize size)
      (requestSize_pos size)
    obtain ⟨lfree, hscan, -⟩ := nextFree_spec (htaken.heapEnd.symm ▸ htaken.tiled)
      (htaken.subset _ hinv.lfree.1) (Nat.lt_add_left heap.lfree (Nat.lt_succ_self _))
    exact ⟨_, lfree, hscan⟩
  returns := by
    obtain ⟨heap', pointer, -, hmalloc, -⟩ := rtMalloc_spec hinv size
    exact ⟨_, hmalloc⟩
  inside fuel offset hoffset := by
    simp only [mallocTouches] at hoffset
    split at hoffset
    · next hsearches =>
        obtain ⟨hreads, hfits⟩ := firstFitReads_spec hinv
          (hinv.searches_requestSize_le hsearches) fuel hinv.lfree.1
        rcases List.mem_append.1 hoffset with hread | htouched
        · exact hinv.tiled.chain.le_last (hreads offset hread)
        · split at htouched
          · next ptr hfound =>
              have hfit := hfits ptr hfound
              rcases List.mem_append.1 htouched with htake | hscan
              · exact takeBlockTouches_le hinv hfit offset htake
              · split at hscan
                · obtain ⟨headers', htaken⟩ := takeBlock_spec hinv hfit
                    (rtAlignSize_dvd_requestSize size) (requestSize_pos size)
                  have hmem := nextFreeReads_spec (htaken.heapEnd.symm ▸ htaken.tiled)
                    (htaken.subset _ hinv.lfree.1) offset hscan
                  exact htaken.tiled.chain.le_last hmem
                · simp at hscan
          · simp at htouched
    · simp at hoffset

end Inv

section Exhausted

variable {st : State}

/-- In a heap without room for a smallest block the loop goes from the only block to
`heap_end` and stays there. -/
theorem Exhausted.firstFit_endless (hexhausted : Exhausted cfg st) (fuel : ℕ) {ptr : ℕ}
    (hptr : ptr = 0 ∨ ptr = st.heap.heapEnd) :
    firstFit cfg st.heap cfg.minSizeAligned fuel ptr = .error .endless := by
  have hinitial := hexhausted.initial
  have hsmall := hexhausted.small
  have hend := hinitial.heapEnd_eq
  have hfits := hinitial.fits
  have hmin := cfg.minSizeAligned_le
  -- the bound wraps around and lies beyond `heap_end`
  have hbound : cfg.sub st.heap.memSizeAligned cfg.minSizeAligned =
      st.heap.memSizeAligned + (cfg.wordSize - cfg.minSizeAligned) :=
    Nat.mod_eq_of_lt (by omega)
  induction fuel generalizing ptr with
  | zero => rfl
  | succ fuel ih =>
    rw [firstFit, hbound, if_pos (by omega)]
    rcases hptr with rfl | rfl
    · have hpayload : cfg.sub st.heap.heapEnd (cfg.add 0 cfg.sizeofStructMem) =
          st.heap.memSizeAligned := by
        rw [cfg.add_eq (by omega), Nat.zero_add, cfg.sub_eq (by omega) (by omega)]
        omega
      rw [hinitial.first, hpayload, if_neg (by omega)]
      exact ih (.inr rfl)
    · rw [hinitial.last, if_neg (by simp)]
      exact ih (.inr rfl)

theorem Exhausted.mallocEnds_iff (hexhausted : Exhausted cfg st) (size : ℕ) :
    MallocEnds cfg st.heap size ↔ ¬ Searches cfg st.heap size := by
  constructor
  · intro hends hsearches
    obtain ⟨fuel, found, hfound⟩ := hends.search hsearches
    have hrequest : requestSize cfg size = cfg.minSizeAligned :=
      if_pos (hsearches.2.trans_lt hexhausted.small)
    rw [hrequest, hexhausted.firstFit_endless fuel (.inl hexhausted.initial.lfree_eq)] at hfound
    cases hfound
  · intro hnot
    refine ⟨fun hsearches => absurd hsearches hnot, fun hsearches => absurd hsearches hnot, ?_,
      fun fuel offset hoffset => ?_⟩
    · rw [Searches, not_and_or, not_not, not_le] at hnot
      by_cases hzero : size = 0
      · exact ⟨_, if_pos hzero⟩
      · rw [rtMalloc, if_neg hzero, if_pos (hnot.resolve_left hzero)]
        exact ⟨_, rfl⟩
    · rw [mallocTouches, if_neg hnot] at hoffset
      simp at hoffset

/-- The headers that are read in such a heap are its two headers. -/
theorem Exhausted.firstFitReads_le (hexhausted : Exhausted cfg st) (size fuel : ℕ)
    {ptr : ℕ} (hptr : ptr = 0 ∨ ptr = st.heap.heapEnd) :
    ∀ offset ∈ firstFitReads cfg st.heap size fuel ptr, offset ≤ st.heap.heapEnd := by
  have hinitial := hexhausted.initial
  have hle : ptr ≤ st.heap.heapEnd := by omega
  have hnext : (st.heap.mem ptr).next = st.heap.heapEnd := by
    rcases hptr with rfl | rfl
    · rw [hinitial.first]
    · rw [hinitial.last]
  induction fuel generalizing ptr with
  | zero => simp [firstFitReads]
  | succ fuel ih =>
    rw [firstFitReads]
    split
    · split
      · simpa using hle
      · refine List.forall_mem_cons.2 ⟨hle, ?_⟩
        rw [hnext]
        exact ih (.inr rfl) le_rfl (by rw [hinitial.last])
    · simp

theorem Exhausted.mallocTouches_le (hexhausted : Exhausted cfg st) (size fuel : ℕ) :
    ∀ offset ∈ mallocTouches cfg st.heap size fuel, offset ≤ st.heap.heapEnd := by
  intro offset hoffset
  have hstart := Or.inl (b := st.heap.lfree = st.heap.heapEnd) hexhausted.initial.lfree_eq
  simp only [mallocTouches] at hoffset
  split at hoffset
  · next hsearches =>
      have hrequest : requestSize cfg size = cfg.minSizeAligned :=
        if_pos (hsearches.2.trans_lt hexhausted.small)
      rw [hrequest, hexhausted.firstFit_endless fuel hstart, List.append_nil] at hoffset
      exact hexhausted.firstFitReads_le _ fuel hstart offset hoffset
  · simp at hoffset

end Exhausted

/-- After every sequence of calls on live pointers, `rt_malloc` of any size ends,
unless the heap has no room for a smallest block and the request comes to the loop. -/
theorem rtMalloc_ends_iff {beginAddr endAddr : ℕ} {mem : Headers} {data : ℕ → UInt8} {heap : Heap}
    (hinit : rtSystemHeapInit cfg beginAddr endAddr mem data = some heap)
    {trace : List (Call × Event)} {last : State}
    (hrun : (callMachine cfg).Run ⟨heap, ∅⟩ trace last) (size : ℕ) :
    MallocEnds cfg last.heap size ↔
      (cfg.minSizeAligned ≤ last.heap.memSizeAligned ∨ size = 0 ∨
        last.heap.memSizeAligned < cfg.rtAlign size) := by
  rcases reached_of_run hinit hrun with ⟨headers, hinv⟩ | hexhausted
  · exact iff_of_true (hinv.mallocEnds size) (.inl hinv.geometry.min_le)
  · have hsmall := hexhausted.small
    rw [hexhausted.mallocEnds_iff, Searches, not_and_or, not_not, not_le,
      or_iff_right hsmall.not_ge]

/-- A block is taken in front of `lfree`, and the next request still ends. -/
theorem mallocEnds_taken :
    ∃ trace last, (callMachine config32).Run ⟨heap32, ∅⟩ trace last ∧ last.live = {0x100c} ∧
      MallocEnds config32 last.heap 100 := by
  have hinit : rtSystemHeapInit config32 0x1000 0x1100 (fun _ => ⟨0, 0, 0, 0⟩) (fun _ => 0) =
      some heap32 := rfl
  have hrun : (callMachine config32).Run ⟨heap32, ∅⟩ _ _ :=
    Machine.runWith_of_exec [.call (.malloc 40)] rfl
  exact ⟨_, _, hrun, by decide, (rtMalloc_ends_iff hinit hrun 100).2 (.inl (by decide))⟩

/-- Two headers and four bytes on a 32-bit target. -/
def heapTiny : Heap :=
  (rtSystemHeapInit config32 0x1000 0x101c (fun _ => ⟨0, 0, 0, 0⟩) (fun _ => 0)).get rfl

theorem heapTiny_init :
    rtSystemHeapInit config32 0x1000 0x101c (fun _ => ⟨0, 0, 0, 0⟩) (fun _ => 0) =
      some heapTiny := rfl

theorem exhausted_heapTiny : Exhausted config32 ⟨heapTiny, ∅⟩ where
  initial := rtSystemHeapInit_spec heapTiny_init
  small := by decide
  live := rfl

/-- A request of four bytes is not refused, and the loop does not end. -/
theorem not_mallocEnds_heapTiny :
    rtSystemHeapInit config32 0x1000 0x101c (fun _ => ⟨0, 0, 0, 0⟩) (fun _ => 0) =
        some heapTiny ∧
      (∀ fuel, firstFit config32 heapTiny (requestSize config32 4) fuel heapTiny.lfree =
        .error .endless) ∧
      ¬ MallocEnds config32 heapTiny 4 :=
  ⟨heapTiny_init, fun fuel => exhausted_heapTiny.firstFit_endless fuel (.inl rfl),
    fun hends => (exhausted_heapTiny.mallocEnds_iff 4).1 hends (by decide)⟩

/-- No header beyond `heap_end` is touched, whether or not the loop ends. -/
theorem mallocTouches_le_heapEnd {beginAddr endAddr : ℕ} {mem : Headers} {data : ℕ → UInt8}
    {heap : Heap} (hinit : rtSystemHeapInit cfg beginAddr endAddr mem data = some heap)
    {trace : List (Call × Event)} {last : State}
    (hrun : (callMachine cfg).Run ⟨heap, ∅⟩ trace last) (size fuel : ℕ) :
    ∀ offset ∈ mallocTouches cfg last.heap size fuel, offset ≤ last.heap.heapEnd := by
  rcases reached_of_run hinit hrun with ⟨headers, hinv⟩ | hexhausted
  · exact (hinv.mallocEnds size).inside fuel
  · exact hexhausted.mallocTouches_le size fuel

/-- A block is taken, and the next request looks at headers inside the heap only. -/
theorem mallocTouches_le_heapEnd_taken :
    ∃ trace last, (callMachine config32).Run ⟨heap32, ∅⟩ trace last ∧ last.live = {0x100c} ∧
      mallocTouches config32 last.heap 100 4 ≠ [] ∧
      ∀ offset ∈ mallocTouches config32 last.heap 100 4, offset ≤ last.heap.heapEnd := by
  have hinit : rtSystemHeapInit config32 0x1000 0x1100 (fun _ => ⟨0, 0, 0, 0⟩) (fun _ => 0) =
      some heap32 := rfl
  have hrun : (callMachine config32).Run ⟨heap32, ∅⟩ _ _ :=
    Machine.runWith_of_exec [.call (.malloc 40)] rfl
  exact ⟨_, _, hrun, by decide, by decide, mallocTouches_le_heapEnd hinit hrun 100 4⟩

end RtThread.SmallMem
