import RtThread.Heap.SmallMemRuns

set_option linter.all false

/-!
# Which requests the small-memory heap serves

`rt_malloc` searches from `lfree` to an offset that lies one place too low for a request of
exactly the payload of the last block, and a request that does not survive the rounding to
`RT_ALIGN_SIZE`, or the product of `rt_calloc`, is served with too few bytes.
-/

namespace RtThread.SmallMem

open RtThread.Core

variable {cfg : HeapConfig}

/-! ## `rt_calloc` -/

def rtMemset (data : ℕ → UInt8) (address : ℕ) (value : UInt8) (count : ℕ) : ℕ → UInt8 :=
  fun other => if address ≤ other ∧ other < address + count then value else data other

def rtCalloc (cfg : HeapConfig) (heap : Heap) (count size : ℕ) : Except Fault (Heap × ℕ) := do
  let (heap, p) ← rtMalloc cfg heap (count * size % cfg.wordSize)
  if p ≠ 0 then
    return ({ heap with data := rtMemset heap.data p 0 (count * size % cfg.wordSize) }, p)
  else return (heap, p)

/-- The calls of `Action`, and `rt_calloc`. -/
inductive Call
  | call (act : Action)
  | calloc (count size : ℕ)

def callStep (cfg : HeapConfig) (st : State) : Call → Option (State × Event)
  | .call act => step cfg st act
  | .calloc count size =>
    if count < cfg.wordSize ∧ size < cfg.wordSize then
      match rtCalloc cfg st.heap count size with
      | .ok (heap, pointer) =>
        some (⟨heap, afterMalloc st.live pointer⟩, .returned pointer)
      | .error fault => some (st, .faulted fault)
    else none

def callMachine (cfg : HeapConfig) : Machine State Call Event where
  step := callStep cfg

/-! ## Requests -/

/-- An unused block whose payload has room for a request. -/
structure Serves (cfg : HeapConfig) (heap : Heap) (request block : ℕ) : Prop where
  mem : block ∈ heap.headers
  ne_end : block ≠ heap.heapEnd
  unused : (heap.mem block).used = 0
  room : request ≤ payloadSize cfg heap block

/-- The search of `rt_malloc` comes to the block: it is not below `lfree`, and it is not the last
one with exactly the payload that is asked for. -/
def Scanned (cfg : HeapConfig) (heap : Heap) (request block : ℕ) : Prop :=
  heap.lfree ≤ block ∧
    ((heap.mem block).next ≠ heap.heapEnd ∨ request < payloadSize cfg heap block)

/-- `rt_malloc` returns `RT_NULL` only if no unused block has room for the request. -/
def MallocComplete (cfg : HeapConfig) (heap : Heap) (size : ℕ) : Prop :=
  ∀ heap', rtMalloc cfg heap size = .ok (heap', 0) →
    ∀ block, ¬ Serves cfg heap (requestSize cfg size) block

/-- A block that `rt_malloc` returns has room for the request. -/
def MallocAdequate (cfg : HeapConfig) (heap : Heap) (size : ℕ) : Prop :=
  ∀ heap' pointer, rtMalloc cfg heap size = .ok (heap', pointer) → pointer ≠ 0 →
    size ≤ payloadSize cfg heap' (headerOf cfg heap' pointer)

def CallocAdequate (cfg : HeapConfig) (heap : Heap) (count size : ℕ) : Prop :=
  ∀ heap' pointer, rtCalloc cfg heap count size = .ok (heap', pointer) → pointer ≠ 0 →
    count * size ≤ payloadSize cfg heap' (headerOf cfg heap' pointer)

/-- The search finds a block. -/
def Served (cfg : HeapConfig) (heap : Heap) (size : ℕ) : Prop :=
  size ≠ 0 ∧ ∃ block, Serves cfg heap (requestSize cfg size) block ∧
    Scanned cfg heap (requestSize cfg size) block

section Inv

variable {heap heap' : Heap} {live : Finset ℕ} {headers : List ℕ}
  {block request size pointer : ℕ}

theorem Inv.serves_iff (hinv : Inv cfg heap live headers) :
    Serves cfg heap request block ↔ Fits cfg heap headers request block := by
  have hheaders : heap.headers = headers := hinv.tiled.headers_eq
  constructor
  · rintro ⟨hmem, hne, hunused, hroom⟩
    rw [hheaders] at hmem
    obtain ⟨hlt, -, -⟩ := hinv.block_bounds hmem hne
    rw [hinv.payloadSize_eq hmem hne] at hroom
    exact ⟨hmem, hne, hunused, by omega⟩
  · rintro ⟨hmem, hne, hunused, hroom⟩
    refine ⟨hheaders ▸ hmem, hne, hunused, ?_⟩
    rw [hinv.payloadSize_eq hmem hne]
    omega

/-- The search ends below the bound exactly for the last block with the payload that is asked
for. -/
theorem Inv.scanned_iff (hinv : Inv cfg heap live headers)
    (hfits : Fits cfg heap headers request block) :
    Scanned cfg heap request block ↔
      heap.lfree ≤ block ∧ block + request < heap.memSizeAligned := by
  obtain ⟨hmem, hne, -, hroom⟩ := hfits
  obtain ⟨hlt, hle, -⟩ := hinv.block_bounds hmem hne
  have hend := hinv.geometry.heapEnd_eq
  rw [Scanned, hinv.payloadSize_eq hmem hne]
  refine and_congr_right fun _ => ?_
  constructor
  · rintro (hnext | hsmaller)
    · have hafter := hinv.tiled.chain.next_mem hmem hne
      have hroom' := hinv.tiled.room _ hafter hnext
      have hlast := hinv.tiled.chain.le_last (hinv.tiled.chain.next_mem hafter hnext)
      change (heap.mem block).next + cfg.sizeofStructMem <
        (heap.mem (heap.mem block).next).next at hroom'
      omega
    · omega
  · intro hbound
    by_cases hnext : (heap.mem block).next = heap.heapEnd
    · exact .inr (by omega)
    · exact .inl hnext

/-- The search finds a block that it comes to, and misses none of them. -/
theorem firstFit_complete (hinv : Inv cfg heap live headers)
    (hsize : size ≤ heap.memSizeAligned) {fuel ptr : ℕ} (hptr : ptr ∈ headers)
    (hfuel : heap.heapEnd < ptr + fuel) :
    ∃ found, firstFit cfg heap size fuel ptr = .ok found ∧
      (∀ block ∈ found, Fits cfg heap headers size block ∧ ptr ≤ block ∧
        block + size < heap.memSizeAligned) ∧
      (found = none → ∀ block, Fits cfg heap headers size block → ptr ≤ block →
        heap.memSizeAligned ≤ block + size) := by
  induction fuel generalizing ptr with
  | zero => exact absurd (hinv.tiled.chain.le_last hptr) (by omega)
  | succ fuel ih =>
    have hend := hinv.geometry.heapEnd_eq
    have hword := hinv.geometry.fits
    have hbound : cfg.sub heap.memSizeAligned size = heap.memSizeAligned - size :=
      cfg.sub_eq hsize (by omega)
    rw [firstFit, hbound]
    split
    · next hlt =>
        have hne : ptr ≠ heap.heapEnd := by omega
        obtain ⟨hroom, hnext, hfits⟩ := hinv.block_bounds hptr hne
        have hpayload : cfg.sub (heap.mem ptr).next (cfg.add ptr cfg.sizeofStructMem) =
            (heap.mem ptr).next - (ptr + cfg.sizeofStructMem) := by
          rw [cfg.add_eq (by omega), cfg.sub_eq (by omega) (by omega)]
        rw [hpayload]
        split
        · next hfit =>
            refine ⟨some ptr, rfl, fun block hblock => ?_, by simp⟩
            obtain rfl : ptr = block := by simpa using hblock
            exact ⟨⟨hptr, hne, hfit.1, by omega⟩, le_rfl, by omega⟩
        · next hmiss =>
            have hmem := hinv.tiled.chain.next_mem hptr hne
            change (heap.mem ptr).next ∈ headers at hmem
            obtain ⟨found, hfound, hsome, hnone⟩ := ih hmem (by omega)
            refine ⟨found, hfound, fun block hblock => ?_, fun hnull block hfits' hle => ?_⟩
            · obtain ⟨hfits', hle, hbelow⟩ := hsome block hblock
              exact ⟨hfits', by omega, hbelow⟩
            · have hother : ptr ≠ block := by
                rintro rfl
                have hroom' := hfits'.room
                exact hmiss ⟨hfits'.unused, by omega⟩
              have hafter := hinv.tiled.chain.next_le hptr hfits'.mem (by omega)
              exact hnone hnull block hfits' hafter
    · exact ⟨none, rfl, by simp, fun _ block _ _ => by omega⟩

theorem requestSize_ge (size : ℕ) : cfg.rtAlign size ≤ requestSize cfg size ∧
    cfg.minSizeAligned ≤ requestSize cfg size := by
  rw [requestSize]
  split_ifs <;> omega

/-- `rt_malloc` takes a block exactly if the search finds one. -/
theorem rtMalloc_served_iff (hinv : Inv cfg heap live headers) (size : ℕ) :
    (Served cfg heap size → ∃ block, Fits cfg heap headers (requestSize cfg size) block ∧
      rtMalloc cfg heap size = allocate cfg heap block (requestSize cfg size)) ∧
    (¬ Served cfg heap size → rtMalloc cfg heap size = .ok (heap, 0)) := by
  have hsize := @requestSize_ge cfg size
  have hend := hinv.geometry.heapEnd_eq
  by_cases hzero : size = 0
  · exact ⟨fun hserved => absurd hzero hserved.1, fun _ => by rw [rtMalloc, if_pos hzero]⟩
  by_cases hlarge : heap.memSizeAligned < cfg.rtAlign size
  · refine ⟨fun hserved => ?_, fun _ => by rw [rtMalloc, if_neg hzero, if_pos hlarge]⟩
    obtain ⟨block, hserves, -⟩ := hserved.2
    obtain ⟨hmem, hne, -, hroom⟩ := hinv.serves_iff.1 hserves
    obtain ⟨-, hle, -⟩ := hinv.block_bounds hmem hne
    omega
  have hrequest : requestSize cfg size ≤ heap.memSizeAligned := by
    have hmin := hinv.geometry.min_le
    rw [requestSize]
    split <;> omega
  obtain ⟨found, hfound, hsome, hnone⟩ := firstFit_complete hinv hrequest hinv.lfree.1
    (show heap.heapEnd < heap.lfree + (heap.heapEnd + 1) by omega)
  cases found with
  | none =>
    refine ⟨fun hserved => ?_, fun _ => ?_⟩
    · obtain ⟨block, hserves, hscanned⟩ := hserved.2
      have hfits := hinv.serves_iff.1 hserves
      obtain ⟨hle, hbelow⟩ := (hinv.scanned_iff hfits).1 hscanned
      exact absurd (hnone rfl block hfits hle) (by omega)
    · rw [rtMalloc, if_neg hzero, if_neg hlarge, hfound]
      rfl
  | some block =>
    obtain ⟨hfits, hle, hbelow⟩ := hsome block rfl
    refine ⟨fun _ => ⟨block, hfits, ?_⟩, fun hnot => absurd ⟨hzero, block, ?_⟩ hnot⟩
    · rw [rtMalloc, if_neg hzero, if_neg hlarge, hfound]
      rfl
    · exact ⟨hinv.serves_iff.2 hfits, (hinv.scanned_iff hfits).2 ⟨hle, hbelow⟩⟩

/-- A block that is taken keeps the room for the request in front of the next header. -/
theorem takeBlock_next (hinv : Inv cfg heap live headers)
    (hfits : Fits cfg heap headers request block) :
    block + cfg.sizeofStructMem + request ≤
      ((takeBlock cfg heap block request).mem block).next := by
  obtain ⟨hblock, hne, -, hroom⟩ := hfits
  obtain ⟨-, hnext, hword⟩ := hinv.block_bounds hblock hne
  have hstart : cfg.add block cfg.sizeofStructMem = block + cfg.sizeofStructMem :=
    cfg.add_eq (by omega)
  have hfresh : cfg.add (block + cfg.sizeofStructMem) request =
      block + cfg.sizeofStructMem + request :=
    cfg.add_eq (by omega)
  simp only [takeBlock, hstart, hfresh]
  split
  · simp [addUsedMem, next_splitBlock]
  · simp [addUsedMem, hroom]

/-- The payload of the block that is taken, whole or split. -/
theorem allocate_payload (hinv : Inv cfg heap live headers)
    (hfits : Fits cfg heap headers request block) (haligned : cfg.rtAlignSize ∣ request)
    (hpos : 0 < request) (hallocate : allocate cfg heap block request = .ok (heap', pointer)) :
    pointer ≠ 0 ∧ request ≤ payloadSize cfg heap' (headerOf cfg heap' pointer) ∧
      payloadSize cfg heap' (headerOf cfg heap' pointer) ≤ heap.memSizeAligned := by
  obtain ⟨lfree, headers', hresult, hinv', -⟩ := allocate_spec hinv hfits haligned hpos
  obtain ⟨_, htaken⟩ := takeBlock_spec hinv hfits haligned hpos
  rw [hresult] at hallocate
  obtain ⟨rfl, rfl⟩ := Prod.mk.inj (Except.ok.inj hallocate)
  have hstruct : 0 < cfg.sizeofStructMem := sizeofStructMem_pos
  obtain ⟨other, hother, hne, -, hpointer, hheader⟩ :=
    hinv'.exists_block (Finset.mem_insert_self _ _)
  have hptr : heap.heapPtr + block + cfg.sizeofStructMem =
      heap.heapPtr + other + cfg.sizeofStructMem := by
    rw [hpointer]
    rw [htaken.heapPtr]
  obtain rfl : block = other := by omega
  obtain ⟨-, hle, -⟩ := hinv'.block_bounds hother hne
  change ((takeBlock cfg heap block request).mem block).next ≤
    (takeBlock cfg heap block request).heapEnd at hle
  have hend := hinv.geometry.heapEnd_eq
  rw [hheader, hinv'.payloadSize_eq hother hne]
  change _ ∧ request ≤ ((takeBlock cfg heap block request).mem block).next - block -
    cfg.sizeofStructMem ∧ ((takeBlock cfg heap block request).mem block).next - block -
      cfg.sizeofStructMem ≤ _
  rw [htaken.heapEnd] at hle
  refine ⟨by omega, ?_, by omega⟩
  have hnext := takeBlock_next hinv hfits
  omega

/-- The block that serves a request has room for the bytes that are asked for exactly if the
rounding does not wrap around. -/
theorem served_payload_iff (hinv : Inv cfg heap live headers) {bytes : ℕ}
    (hserved : Served cfg heap size)
    (hmalloc : rtMalloc cfg heap size = .ok (heap', pointer))
    (hbytes : bytes + cfg.rtAlignSize ≤ cfg.wordSize → size = bytes) :
    pointer ≠ 0 ∧ (bytes ≤ payloadSize cfg heap' (headerOf cfg heap' pointer) ↔
      bytes + cfg.rtAlignSize ≤ cfg.wordSize) := by
  obtain ⟨block, hfits, htaken⟩ := (rtMalloc_served_iff hinv size).1 hserved
  rw [htaken] at hmalloc
  obtain ⟨hpointer, hroom, hbound⟩ := allocate_payload hinv hfits
    (rtAlignSize_dvd_requestSize size) (requestSize_pos size) hmalloc
  refine ⟨hpointer, fun hle => ?_, fun hfits' => ?_⟩
  · have hword := hinv.geometry.fits
    have hstruct : cfg.rtAlignSize ≤ cfg.sizeofStructMem :=
      Nat.le_of_dvd sizeofStructMem_pos (cfg.rtAlignSize_dvd_rtAlign _)
    omega
  · have hsize := hbytes hfits'
    subst hsize
    have halign := cfg.le_rtAlign hfits'
    have hrequest := @requestSize_ge cfg size
    omega

end Inv

/-! ## Runs -/

/-- The states that the calls reach. -/
def Reached (cfg : HeapConfig) (st : State) : Prop :=
  (∃ headers, Inv cfg st.heap st.live headers) ∨ Exhausted cfg st

section Reached

variable {st next : State} {call : Call} {event : Event}

/-- The only block of a heap that is too small for a block serves no request. -/
theorem Exhausted.not_serves (hexhausted : Exhausted cfg st) (size block : ℕ) :
    ¬ Serves cfg st.heap (requestSize cfg size) block := by
  rintro ⟨hmem, hne, -, hroom⟩
  have hinitial := hexhausted.initial
  have hpos := hinitial.heapEnd_pos
  have hsmall := hexhausted.small
  have hend := hinitial.heapEnd_eq
  have hword := hinitial.fits
  have hheaders : st.heap.headers = [0, st.heap.heapEnd] :=
    hinitial.chain.walk_eq (by simp only [List.length_cons, List.length_nil]; omega)
  rw [hheaders] at hmem
  have hfirst : block = 0 := by
    simpa [hne] using hmem
  have hpayload : payloadSize cfg st.heap 0 = st.heap.memSizeAligned := by
    rw [payloadSize, hinitial.first, cfg.sub_eq (Nat.zero_le _) (by dsimp only; omega),
      cfg.sub_eq (by dsimp only; omega) (by dsimp only; omega)]
    dsimp only
    omega
  have hrequest := @requestSize_ge cfg size
  rw [hfirst, hpayload] at hroom
  omega

theorem Exhausted.rtCalloc_eq (hexhausted : Exhausted cfg st) {count size pointer : ℕ}
    {heap' : Heap} (hcalloc : rtCalloc cfg st.heap count size = .ok (heap', pointer)) :
    heap' = st.heap ∧ pointer = 0 := by
  rw [rtCalloc] at hcalloc
  cases hmalloc : rtMalloc cfg st.heap (count * size % cfg.wordSize) with
  | error fault =>
    rw [hmalloc] at hcalloc
    contradiction
  | ok result =>
    obtain ⟨heap, p⟩ := result
    obtain ⟨rfl, rfl⟩ := hexhausted.rtMalloc_eq hmalloc
    rw [hmalloc] at hcalloc
    obtain ⟨rfl, rfl⟩ := Prod.mk.inj (Except.ok.inj hcalloc)
    exact ⟨rfl, rfl⟩

/-- `rt_calloc` differs from `rt_malloc` in the bytes of the payload. -/
theorem rtCalloc_eq {heap heap' : Heap} {count size pointer : ℕ}
    (hmalloc : rtMalloc cfg heap (count * size % cfg.wordSize) = .ok (heap', pointer)) :
    ∃ data, rtCalloc cfg heap count size = .ok ({ heap' with data }, pointer) := by
  rw [rtCalloc, hmalloc, ok_bind]
  dsimp only
  split_ifs
  · exact ⟨_, rfl⟩
  · exact ⟨heap'.data, rfl⟩

theorem Reached.step (hreached : Reached cfg st)
    (hstep : (callMachine cfg).step st call = some (next, event)) :
    Reached cfg next := by
  cases call with
  | call act =>
    rcases hreached with ⟨headers, hinv⟩ | hexhausted
    · obtain ⟨-, headers', hinv', -⟩ := step_spec hinv hstep
      exact .inl ⟨headers', hinv'⟩
    · rw [(hexhausted.step hstep).1]
      exact .inr hexhausted
  | calloc count size =>
    simp only [callMachine, callStep] at hstep
    split at hstep
    · rcases hreached with ⟨headers, hinv⟩ | hexhausted
      · obtain ⟨heap', pointer, headers', hmalloc, hinv', -⟩ :=
          rtMalloc_spec hinv (count * size % cfg.wordSize)
        obtain ⟨data, hcalloc⟩ := rtCalloc_eq hmalloc
        rw [hcalloc] at hstep
        cases hstep
        exact .inl ⟨headers', hinv'.geometry, hinv'.tiled, hinv'.coalesced, hinv'.lfree,
          hinv'.live⟩
      · cases hcalloc : rtCalloc cfg st.heap count size with
        | error fault =>
          rw [hcalloc] at hstep
          cases hstep
          exact .inr hexhausted
        | ok result =>
          obtain ⟨heap', pointer⟩ := result
          obtain ⟨rfl, rfl⟩ := hexhausted.rtCalloc_eq hcalloc
          rw [hcalloc] at hstep
          cases hstep
          rw [afterMalloc, if_pos rfl]
          exact .inr hexhausted
    · contradiction

theorem reached_of_run {beginAddr endAddr : ℕ} {mem : Headers} {data : ℕ → UInt8} {heap : Heap}
    (hinit : rtSystemHeapInit cfg beginAddr endAddr mem data = some heap)
    {trace : List (Call × Event)} {last : State}
    (hrun : (callMachine cfg).Run ⟨heap, ∅⟩ trace last) : Reached cfg last := by
  have hinitial := rtSystemHeapInit_spec hinit
  refine hrun.invariant (Reached cfg)
    (fun st call next event hreached _ hstep => hreached.step hstep) ?_
  by_cases hmin : cfg.minSizeAligned ≤ heap.memSizeAligned
  · exact .inl ⟨_, hinitial.inv hmin⟩
  · exact .inr ⟨hinitial, not_le.1 hmin, rfl⟩

theorem Reached.mallocComplete_iff (hreached : Reached cfg st) (size : ℕ) :
    MallocComplete cfg st.heap size ↔
      (∀ block, ¬ Serves cfg st.heap (requestSize cfg size) block) ∨
        Served cfg st.heap size := by
  rcases hreached with ⟨headers, hinv⟩ | hexhausted
  · constructor
    · intro hcomplete
      by_cases hserved : Served cfg st.heap size
      · exact .inr hserved
      · exact .inl (hcomplete _ ((rtMalloc_served_iff hinv size).2 hserved))
    · rintro (hnone | hserved) heap' hnull
      · exact hnone
      · obtain ⟨block, hfits, htaken⟩ := (rtMalloc_served_iff hinv size).1 hserved
        rw [htaken] at hnull
        have hpayload := allocate_payload hinv hfits (rtAlignSize_dvd_requestSize size)
          (requestSize_pos size) hnull
        exact absurd rfl hpayload.1
  · exact iff_of_true (fun _ _ => hexhausted.not_serves size)
      (.inl (hexhausted.not_serves size))

theorem Reached.mallocAdequate_iff (hreached : Reached cfg st) (size : ℕ) :
    MallocAdequate cfg st.heap size ↔
      size + cfg.rtAlignSize ≤ cfg.wordSize ∨ ¬ Served cfg st.heap size := by
  rcases hreached with ⟨headers, hinv⟩ | hexhausted
  · by_cases hserved : Served cfg st.heap size
    · obtain ⟨heap', pointer, -, hmalloc, -⟩ := rtMalloc_spec hinv size
      obtain ⟨hpointer, hiff⟩ := served_payload_iff hinv hserved hmalloc fun _ => rfl
      rw [or_iff_left (not_not.2 hserved), ← hiff]
      constructor
      · intro hadequate
        exact hadequate heap' pointer hmalloc hpointer
      · intro hle heap'' pointer' hmalloc' _
        obtain ⟨rfl, rfl⟩ := Prod.mk.inj (Except.ok.inj (hmalloc.symm.trans hmalloc'))
        exact hle
    · refine iff_of_true (fun heap' pointer hmalloc hpointer => ?_) (.inr hserved)
      rw [(rtMalloc_served_iff hinv size).2 hserved] at hmalloc
      exact absurd (Prod.mk.inj (Except.ok.inj hmalloc)).2.symm hpointer
  · refine iff_of_true (fun heap' pointer hmalloc hpointer => ?_) (.inr fun hserved => ?_)
    · exact absurd (hexhausted.rtMalloc_eq hmalloc).2 hpointer
    · obtain ⟨block, hserves, -⟩ := hserved.2
      exact hexhausted.not_serves size block hserves

theorem Reached.callocAdequate_iff (hreached : Reached cfg st) (count size : ℕ) :
    CallocAdequate cfg st.heap count size ↔
      count * size + cfg.rtAlignSize ≤ cfg.wordSize ∨
        ¬ Served cfg st.heap (count * size % cfg.wordSize) := by
  have hword : count * size + cfg.rtAlignSize ≤ cfg.wordSize →
      count * size % cfg.wordSize = count * size := by
    have hpos := cfg.rtAlignSize_pos
    exact fun hfits => Nat.mod_eq_of_lt (by omega)
  rcases hreached with ⟨headers, hinv⟩ | hexhausted
  · obtain ⟨heap', pointer, -, hmalloc, -⟩ :=
      rtMalloc_spec hinv (count * size % cfg.wordSize)
    obtain ⟨data, hcalloc⟩ := rtCalloc_eq hmalloc
    by_cases hserved : Served cfg st.heap (count * size % cfg.wordSize)
    · obtain ⟨hpointer, hiff⟩ := served_payload_iff hinv hserved hmalloc hword
      rw [or_iff_left (not_not.2 hserved), ← hiff]
      constructor
      · intro hadequate
        have hle := hadequate _ pointer hcalloc hpointer
        exact hle
      · intro hle heap'' pointer' hcalloc' _
        obtain ⟨rfl, rfl⟩ := Prod.mk.inj (Except.ok.inj (hcalloc.symm.trans hcalloc'))
        exact hle
    · refine iff_of_true (fun heap'' pointer' hcalloc' hpointer => ?_) (.inr hserved)
      rw [(rtMalloc_served_iff hinv _).2 hserved] at hmalloc
      obtain ⟨-, rfl⟩ := Prod.mk.inj (Except.ok.inj hmalloc)
      rw [hcalloc] at hcalloc'
      exact absurd (Prod.mk.inj (Except.ok.inj hcalloc')).2.symm hpointer
  · refine iff_of_true (fun heap' pointer hcalloc hpointer => ?_) (.inr fun hserved => ?_)
    · exact absurd (hexhausted.rtCalloc_eq hcalloc).2 hpointer
    · obtain ⟨block, hserves, -⟩ := hserved.2
      exact hexhausted.not_serves _ block hserves

end Reached

section Claims

variable {beginAddr endAddr : ℕ} {mem : Headers} {data : ℕ → UInt8} {heap : Heap}
  {trace : List (Call × Event)} {last : State}

/-- `rt_malloc` refuses no request that an unused block has room for, exactly when it comes to one
of these blocks. -/
theorem malloc_complete_iff
    (hinit : rtSystemHeapInit cfg beginAddr endAddr mem data = some heap)
    (hrun : (callMachine cfg).Run ⟨heap, ∅⟩ trace last) (size : ℕ) :
    MallocComplete cfg last.heap size ↔
      (∀ block, ¬ Serves cfg last.heap (requestSize cfg size) block) ∨
        size ≠ 0 ∧ ∃ block, Serves cfg last.heap (requestSize cfg size) block ∧
          Scanned cfg last.heap (requestSize cfg size) block :=
  (reached_of_run hinit hrun).mallocComplete_iff size

/-- A block that is returned has room for the request, exactly if the number of bytes survives the
rounding, or there is no block for what is left of it. -/
theorem malloc_adequate_iff
    (hinit : rtSystemHeapInit cfg beginAddr endAddr mem data = some heap)
    (hrun : (callMachine cfg).Run ⟨heap, ∅⟩ trace last) :
    (∀ size, MallocAdequate cfg last.heap size ↔
      size + cfg.rtAlignSize ≤ cfg.wordSize ∨ ¬ Served cfg last.heap size) ∧
    (∀ count size, CallocAdequate cfg last.heap count size ↔
      count * size + cfg.rtAlignSize ≤ cfg.wordSize ∨
        ¬ Served cfg last.heap (count * size % cfg.wordSize)) :=
  have hreached := reached_of_run hinit hrun
  ⟨hreached.mallocAdequate_iff, hreached.callocAdequate_iff⟩

end Claims

theorem heap32_init :
    rtSystemHeapInit config32 0x1000 0x1100 (fun _ => ⟨0, 0, 0, 0⟩) (fun _ => 0) = some heap32 :=
  rfl

/-- Two blocks are taken and the first one is freed: it serves a request of just its payload. -/
theorem malloc_complete_iff_fragmented :
    ∃ trace last, (callMachine config32).Run ⟨heap32, ∅⟩ trace last ∧ last.live = {0x107c} ∧
      MallocComplete config32 last.heap 100 := by
  have hrun : (callMachine config32).Run ⟨heap32, ∅⟩ _ _ :=
    Machine.runWith_of_exec [.call (.malloc 100), .calloc 3 4, .call (.free 0x100c)] rfl
  refine ⟨_, _, hrun, by decide, (malloc_complete_iff heap32_init hrun 100).2 (.inr ⟨by decide,
    0, ⟨by decide, by decide, by decide, by decide⟩, by decide, .inl (by decide)⟩)⟩

/-- The whole payload of a fresh heap is not to be had. -/
theorem malloc_refuses_last :
    ∃ trace last, (callMachine config32).Run ⟨heap32, ∅⟩ trace last ∧
      232 ≤ last.heap.memSizeAligned ∧ ¬ MallocComplete config32 last.heap 232 := by
  refine ⟨[], ⟨heap32, ∅⟩, .nil _, by decide, fun hcomplete => ?_⟩
  exact hcomplete heap32 rfl 0 ⟨by decide, by decide, by decide, by decide⟩

theorem malloc_adequate_iff_fresh :
    ∃ trace last, (callMachine config32).Run ⟨heap32, ∅⟩ trace last ∧
      MallocAdequate config32 last.heap 100 ∧ CallocAdequate config32 last.heap 10 9 := by
  have hrun : (callMachine config32).Run ⟨heap32, ∅⟩ [] ⟨heap32, ∅⟩ := .nil _
  have hadequate := malloc_adequate_iff heap32_init hrun
  exact ⟨_, _, hrun, (hadequate.1 100).2 (.inl (by decide)),
    (hadequate.2 10 9).2 (.inl (by decide))⟩

/-- A request for all but one of the addresses is served with the smallest block, and an array of
`2 ^ 28 + 1` times 16 bytes with 16 bytes. -/
theorem malloc_serves_wrapped :
    ∃ trace last, (callMachine config32).Run ⟨heap32, ∅⟩ trace last ∧
      ¬ MallocAdequate config32 last.heap (2 ^ 32 - 1) ∧
      ¬ CallocAdequate config32 last.heap (2 ^ 28 + 1) 16 := by
  refine ⟨[], ⟨heap32, ∅⟩, .nil _, fun hadequate => ?_, fun hadequate => ?_⟩
  · have hle := hadequate _ 0x100c rfl (by decide)
    revert hle
    decide
  · have hle := hadequate _ 0x100c rfl (by decide)
    revert hle
    decide

end RtThread.SmallMem
