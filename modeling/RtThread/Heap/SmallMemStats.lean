import RtThread.Heap.SmallMemRuns

set_option linter.all false

/-!
# The statistics of the small-memory heap

`used_mem` is changed by four formulas: a split block counts its size and a header, a block
taken whole its span, a cut block the difference of two payloads, and a freed block its span.
They agree: `used_mem` is the sum of the spans of the used blocks, and `max_mem` is the
largest value it has had, also between the allocation and the release inside a call of
`rt_realloc` that moves a block.
-/

namespace RtThread.SmallMem

open RtThread.Core

variable {cfg : HeapConfig}

/-- The sum over the used blocks of the distance to the next header. -/
def usedBytes (heap : Heap) : ℕ :=
  ((heap.headers.filter fun block => (heap.mem block).used ≠ 0 ∧ block ≠ heap.heapEnd).map
    fun block => (heap.mem block).next - block).sum

/-- `rt_realloc` takes the path that allocates another block. -/
def Relocates (cfg : HeapConfig) (heap : Heap) (rmem newsize : ℕ) : Prop :=
  cfg.rtAlign newsize ≤ heap.memSizeAligned ∧ cfg.rtAlign newsize ≠ 0 ∧ rmem ≠ 0 ∧
    payloadSize cfg heap (headerOf cfg heap rmem) ≠ cfg.rtAlign newsize ∧
    ¬ shrinks cfg (payloadSize cfg heap (headerOf cfg heap rmem))
      (cfg.rtAlign newsize)

instance (heap : Heap) (rmem newsize : ℕ) : Decidable (Relocates cfg heap rmem newsize) :=
  inferInstanceAs (Decidable (_ ∧ _))

/-- The value `used_mem` has inside a call, before the last change the call makes. -/
def usedMemDuring (cfg : HeapConfig) (heap : Heap) : Action → List ℕ
  | .realloc rmem newsize =>
    if Relocates cfg heap rmem newsize then
      match rtMalloc cfg heap (cfg.rtAlign newsize) with
      | .ok (heap, _) => [heap.usedMem]
      | .error _ => []
    else []
  | _ => []

/-- The values `used_mem` has had, in a sequence of calls. -/
def usedMemHistory (cfg : HeapConfig) : State → List Action → List ℕ
  | st, [] => [st.heap.usedMem]
  | st, act :: rest =>
    st.heap.usedMem :: (usedMemDuring cfg st.heap act ++
      match step cfg st act with
      | some (next, _) => usedMemHistory cfg next rest
      | none => [])

/-! ## The spans of the live pointers -/

section Spans

variable {heap heap' : Heap} {live : Finset ℕ} {headers : List ℕ} {block pointer rmem : ℕ}

/-- The distance from the header of a pointer to the next header. -/
def span (cfg : HeapConfig) (heap : Heap) (pointer : ℕ) : ℕ :=
  (heap.mem (headerOf cfg heap pointer)).next - headerOf cfg heap pointer

def Accounted (cfg : HeapConfig) (heap : Heap) (live : Finset ℕ) : Prop :=
  heap.usedMem = ∑ pointer ∈ live, span cfg heap pointer

theorem Inv.span_eq (hinv : Inv cfg heap live headers) (hblock : block ∈ headers)
    (hne : block ≠ heap.heapEnd) :
    span cfg heap (heap.heapPtr + block + cfg.sizeofStructMem) =
      (heap.mem block).next - block := by
  rw [span, hinv.headerOf_eq hblock hne]

/-- The used blocks are the blocks of the live pointers. -/
theorem Inv.sum_span (hinv : Inv cfg heap live headers) :
    ∑ pointer ∈ live, span cfg heap pointer = usedBytes heap := by
  have hnodup : (headers.filter fun block =>
      (heap.mem block).used ≠ 0 ∧ block ≠ heap.heapEnd).Nodup :=
    (hinv.tiled.chain.sorted.imp ne_of_lt).filter _
  have hlive : live = ((headers.filter fun block =>
      (heap.mem block).used ≠ 0 ∧ block ≠ heap.heapEnd).map
        fun block => heap.heapPtr + block + cfg.sizeofStructMem).toFinset := by
    ext pointer
    rw [hinv.live pointer]
    simp only [List.mem_toFinset, List.mem_map, List.mem_filter, decide_eq_true_eq]
    constructor
    · rintro ⟨block, hblock, hne, hused, rfl⟩
      exact ⟨block, ⟨hblock, hused, hne⟩, rfl⟩
    · rintro ⟨block, ⟨hblock, hused, hne⟩, rfl⟩
      exact ⟨block, hblock, hne, hused, rfl⟩
  have hmapped := hnodup.map (f := fun block => heap.heapPtr + block + cfg.sizeofStructMem)
    fun left right hsame => by simpa using hsame
  rw [usedBytes, hinv.tiled.headers_eq, hlive, List.sum_toFinset _ hmapped, List.map_map]
  congr 1
  refine List.map_congr_left fun block hblock => ?_
  simp only [List.mem_filter, decide_eq_true_eq] at hblock
  exact hinv.span_eq hblock.1 hblock.2.2

theorem Inv.sum_span_le (hinv : Inv cfg heap live headers) :
    ∑ pointer ∈ live, span cfg heap pointer ≤ heap.heapEnd := by
  rw [hinv.sum_span, usedBytes, hinv.tiled.headers_eq]
  exact hinv.tiled.chain.sum_filter_le (by simp)

theorem span_congr (hptr : heap'.heapPtr = heap.heapPtr)
    (hnext : (heap'.mem (headerOf cfg heap pointer)).next =
      (heap.mem (headerOf cfg heap pointer)).next) :
    span cfg heap' pointer = span cfg heap pointer := by
  rw [span, span, headerOf_congr hptr, hnext]

end Spans

/-! ## `rt_free` -/

section Free

variable {heap heap' : Heap} {live : Finset ℕ} {headers : List ℕ} {block mem other rmem : ℕ}

theorem rtAssert_bind_eq_ok {Result : Type} {condition : Prop} [Decidable condition]
    {rest : Unit → Except Fault Result} {result : Result}
    (hok : (rtAssert condition >>= rest) = .ok result) : condition ∧ rest () = .ok result := by
  by_cases hcondition : condition
  · exact ⟨hcondition, by rwa [rtAssert_bind hcondition] at hok⟩
  · rw [rtAssert, if_neg hcondition] at hok
    contradiction

/-- What merges do not touch: the counters and the extent of the used blocks. -/
structure Untouched (heap heap' : Heap) : Prop where
  heapPtr : heap'.heapPtr = heap.heapPtr
  usedMem : heap'.usedMem = heap.usedMem
  maxMem : heap'.maxMem = heap.maxMem
  used : ∀ block, (heap'.mem block).used = (heap.mem block).used
  next : ∀ block, (heap.mem block).used ≠ 0 → (heap'.mem block).next = (heap.mem block).next

theorem untouched_plugHoleForward (hunused : (heap.mem mem).used = 0) :
    Untouched heap (plugHoleForward heap mem) := by
  rw [plugHoleForward]
  split
  · refine ⟨rfl, rfl, rfl, fun block => by simp, fun block hused => ?_⟩
    have hne : block ≠ mem := fun hsame => hused (hsame ▸ hunused)
    simp [hne]
  · exact ⟨rfl, rfl, rfl, fun _ => rfl, fun _ _ => rfl⟩

theorem untouched_plugHoleBackward : Untouched heap (plugHoleBackward heap mem) := by
  rw [plugHoleBackward]
  split
  · next hmerge =>
      refine ⟨rfl, rfl, rfl, fun block => by simp, fun block hused => ?_⟩
      have hne : block ≠ (heap.mem mem).prev := fun hsame => hused (hsame ▸ hmerge.2)
      simp [hne]
  · exact ⟨rfl, rfl, rfl, fun _ => rfl, fun _ _ => rfl⟩

theorem untouched_plugHoles (hplug : plugHoles heap mem = .ok heap') : Untouched heap heap' := by
  obtain ⟨-, hplug⟩ := rtAssert_bind_eq_ok hplug
  obtain ⟨hunused, hplug⟩ := rtAssert_bind_eq_ok hplug
  obtain rfl := Except.ok.inj hplug
  have hforward := untouched_plugHoleForward hunused
  have hbackward : Untouched (plugHoleForward heap mem)
      (plugHoleBackward (plugHoleForward heap mem) mem) := untouched_plugHoleBackward
  refine ⟨hbackward.heapPtr.trans hforward.heapPtr, hbackward.usedMem.trans hforward.usedMem,
    hbackward.maxMem.trans hforward.maxMem,
    fun block => (hbackward.used block).trans (hforward.used block), fun block hused => ?_⟩
  rw [hbackward.next block (by rwa [hforward.used]), hforward.next block hused]

theorem rtFree_stats (hinv : Inv cfg heap live headers) (hlive : rmem ∈ live)
    (hsum : Accounted cfg heap live) (hfree : rtFree cfg heap rmem = .ok heap') :
    Accounted cfg heap' (live.erase rmem) ∧ heap'.usedMem ≤ heap.usedMem ∧
      heap'.maxMem = heap.maxMem := by
  have hbound := hinv.sum_span_le
  have htotal := Finset.add_sum_erase live (span cfg heap) hlive
  obtain ⟨block, hblock, hne, hused, rfl, hheader⟩ := hinv.exists_block hlive
  obtain ⟨hroom, hnext, hword⟩ := hinv.block_bounds hblock hne
  rw [rtFree_eq hinv hblock hne hused] at hfree
  have hkept := untouched_plugHoles hfree
  have hspan := hinv.span_eq hblock hne
  -- the other live blocks keep their next header
  have hothers : ∀ pointer ∈ live.erase (heap.heapPtr + block + cfg.sizeofStructMem),
      span cfg heap' pointer = span cfg heap pointer := by
    intro pointer hpointer
    obtain ⟨hdiffers, hpointer⟩ := Finset.mem_erase.1 hpointer
    obtain ⟨other, hother, hend, husedOther, rfl, hheaderOther⟩ := hinv.exists_block hpointer
    have hotherne : other ≠ block := fun hsame => hdiffers (by rw [hsame])
    refine span_congr hkept.heapPtr ?_
    rw [hheaderOther, hkept.next other (by simpa [hotherne] using husedOther)]
    simp [releaseBlock]
  rw [Accounted] at hsum
  have hamount : cfg.sub (heap.mem block).next block = (heap.mem block).next - block :=
    cfg.sub_eq (by omega) (by omega)
  have hused' : heap'.usedMem = heap.usedMem - ((heap.mem block).next - block) := by
    rw [hkept.usedMem]
    dsimp only [releaseBlock]
    rw [hamount, cfg.sub_eq (by omega) (by omega)]
  have herase : ∑ pointer ∈ live.erase (heap.heapPtr + block + cfg.sizeofStructMem),
      span cfg heap' pointer = ∑ pointer ∈ live.erase
        (heap.heapPtr + block + cfg.sizeofStructMem), span cfg heap pointer :=
    Finset.sum_congr rfl hothers
  refine ⟨?_, by omega, hkept.maxMem⟩
  rw [Accounted, hused', herase]
  omega

end Free

/-! ## `rt_malloc` -/

section Malloc

variable {heap heap' : Heap} {live : Finset ℕ} {headers : List ℕ}
variable {block size request pointer : ℕ}

/-- A block that is taken counts its span, whether it is split or not. -/
theorem takeBlock_stats (hinv : Inv cfg heap live headers)
    (hfits : Fits cfg heap headers size block) :
    (takeBlock cfg heap block size).usedMem = cfg.add heap.usedMem
        (((takeBlock cfg heap block size).mem block).next - block) ∧
      (takeBlock cfg heap block size).maxMem =
        max heap.maxMem (takeBlock cfg heap block size).usedMem ∧
      ∀ other ∈ headers, other ≠ block →
        ((takeBlock cfg heap block size).mem other).next = (heap.mem other).next := by
  obtain ⟨hblock, hne, hunused, hroom⟩ := hfits
  obtain ⟨-, hnext, hword⟩ := hinv.block_bounds hblock hne
  have hminle := cfg.minSizeAligned_le
  have hpos : 0 < cfg.sizeofStructMem := sizeofStructMem_pos
  have hmax : ∀ value, (if heap.maxMem < value then value else heap.maxMem) =
      max heap.maxMem value := by
    intro value
    rw [max_def]
    split <;> split <;> omega
  have hstart : cfg.add block cfg.sizeofStructMem = block + cfg.sizeofStructMem :=
    cfg.add_eq (by omega)
  have hfresh : cfg.add (block + cfg.sizeofStructMem) size =
      block + cfg.sizeofStructMem + size :=
    cfg.add_eq (by omega)
  have hneed : cfg.add size cfg.sizeofStructMem = size + cfg.sizeofStructMem :=
    cfg.add_eq (by omega)
  have hpayload : cfg.sub (heap.mem block).next (block + cfg.sizeofStructMem) =
      (heap.mem block).next - (block + cfg.sizeofStructMem) :=
    cfg.sub_eq (by omega) (by omega)
  have hneed' : cfg.add (size + cfg.sizeofStructMem) cfg.minSizeAligned =
      size + cfg.sizeofStructMem + cfg.minSizeAligned :=
    cfg.add_eq (by omega)
  simp only [takeBlock, hstart, hfresh, hneed, hpayload, hneed']
  split
  · next hsplit =>
      have hinside : block + cfg.sizeofStructMem + size < (links heap.mem).next block := by
        change _ < (heap.mem block).next
        omega
      have hnot := hinv.tiled.chain.not_mem_of_inside hblock
        (show block < block + cfg.sizeofStructMem + size by omega) hinside
      have hspan : block + cfg.sizeofStructMem + size - block =
          size + cfg.sizeofStructMem := by omega
      refine ⟨?_, ?_, fun other hother hotherne => ?_⟩
      · simp [addUsedMem, next_splitBlock, hspan]
      · simp [addUsedMem, hmax]
      · have hfreshne : other ≠ block + cfg.sizeofStructMem + size :=
          fun hsame => hnot (hsame ▸ hother)
        simp [addUsedMem, next_splitBlock, hotherne, hfreshne]
  · have hspan : cfg.sub (heap.mem block).next block = (heap.mem block).next - block :=
      cfg.sub_eq (by omega) (by omega)
    refine ⟨?_, ?_, fun other _ _ => ?_⟩
    · simp [addUsedMem, hspan]
    · simp [addUsedMem, hmax]
    · simp [addUsedMem]

/-- `rt_malloc` counts the span of the block it takes. -/
theorem rtMalloc_stats (hinv : Inv cfg heap live headers) (hsum : Accounted cfg heap live)
    (hmax : heap.usedMem ≤ heap.maxMem)
    (hmalloc : rtMalloc cfg heap request = .ok (heap', pointer)) :
    Accounted cfg heap' (afterMalloc live pointer) ∧
      heap'.maxMem = max heap.maxMem heap'.usedMem := by
  rcases rtMalloc_cases hinv request with hnone | ⟨block, hfits, htaken⟩
  · rw [hnone] at hmalloc
    obtain ⟨rfl, rfl⟩ := Prod.mk.inj (Except.ok.inj hmalloc)
    exact ⟨hsum, (max_eq_left hmax).symm⟩
  · obtain ⟨lfree, headers', hallocate, hinv', -⟩ :=
      allocate_spec hinv hfits (rtAlignSize_dvd_requestSize request) (requestSize_pos request)
    rw [htaken, hallocate] at hmalloc
    obtain ⟨rfl, rfl⟩ := Prod.mk.inj (Except.ok.inj hmalloc)
    obtain ⟨hused, hpeak, hnext⟩ := takeBlock_stats hinv hfits
    obtain ⟨_, hsame⟩ := takeBlock_spec hinv hfits (rtAlignSize_dvd_requestSize request)
      (requestSize_pos request)
    have hpos : 0 < cfg.sizeofStructMem := sizeofStructMem_pos
    have hnonzero : heap.heapPtr + block + cfg.sizeofStructMem ≠ 0 := by omega
    rw [Accounted] at hsum
    refine ⟨?_, hpeak⟩
    rw [afterMalloc, if_neg hnonzero, Accounted]
    generalize hheap : ({ takeBlock cfg heap block (requestSize cfg request) with
      lfree := lfree } : Heap) = heap' at hinv' ⊢
    have hptr : heap'.heapPtr = heap.heapPtr := by
      rw [← hheap]
      exact hsame.heapPtr
    have hbound := hinv'.sum_span_le
    obtain ⟨-, -, hword⟩ := hinv.block_bounds hfits.mem hfits.ne_end
    have hothers : ∑ pointer ∈ live, span cfg heap' pointer =
        ∑ pointer ∈ live, span cfg heap pointer := by
      refine Finset.sum_congr rfl fun pointer hpointer => span_congr hptr ?_
      obtain ⟨other, hother, -, hotherUsed, -, hheader⟩ := hinv.exists_block hpointer
      have hotherne : other ≠ block := fun hsame => hotherUsed (hsame ▸ hfits.unused)
      rw [hheader, ← hheap]
      exact hnext other hother hotherne
    have hspan : span cfg heap' (heap.heapPtr + block + cfg.sizeofStructMem) =
        (heap'.mem block).next - block := by
      rw [span, headerOf_congr hptr, hinv.headerOf_eq hfits.mem hfits.ne_end]
    rw [Finset.sum_insert (hfits.not_live hinv), hspan, hothers] at hbound ⊢
    subst hheap
    dsimp only at hbound ⊢
    rw [hsame.heapEnd] at hbound
    rw [hused, cfg.add_eq (by omega), hsum, Nat.add_comm]

end Malloc

/-! ## `rt_realloc` -/

section Realloc

variable {heap heap' : Heap} {live : Finset ℕ} {headers : List ℕ}
variable {block rmem newsize pointer : ℕ}

/-- A block that is cut counts the difference of its payloads off. -/
theorem shrink_stats (hinv : Inv cfg heap live headers) (hsum : Accounted cfg heap live)
    (hlive : heap.heapPtr + block + cfg.sizeofStructMem ∈ live)
    (hroom : block + cfg.sizeofStructMem + newsize + cfg.sizeofStructMem <
      (heap.mem block).next)
    (hshrink : shrink cfg heap block (payloadSize cfg heap block) newsize = .ok heap') :
    Accounted cfg heap' live ∧ heap'.usedMem ≤ heap.usedMem ∧ heap'.maxMem = heap.maxMem := by
  have hbound := hinv.sum_span_le
  have htotal := Finset.add_sum_erase live (span cfg heap) hlive
  obtain ⟨found, hblock, hne, hused, hpointer, hheader⟩ := hinv.exists_block hlive
  obtain rfl : block = found := by omega
  obtain ⟨-, hnext, hword⟩ := hinv.block_bounds hblock hne
  have hstart : cfg.add block cfg.sizeofStructMem = block + cfg.sizeofStructMem :=
    cfg.add_eq (by omega)
  have hfresh : cfg.add (block + cfg.sizeofStructMem) newsize =
      block + cfg.sizeofStructMem + newsize :=
    cfg.add_eq (by omega)
  have hamount : cfg.sub (payloadSize cfg heap block) newsize =
      (heap.mem block).next - (block + cfg.sizeofStructMem + newsize) := by
    rw [hinv.payloadSize_eq hblock hne, cfg.sub_eq (by omega) (by omega)]
    omega
  have hspan := hinv.span_eq hblock hne
  simp only [shrink, hstart, hfresh, hamount] at hshrink
  have hkept := untouched_plugHoles hshrink
  have hptr : heap'.heapPtr = heap.heapPtr := hkept.heapPtr
  have hpos : 0 < cfg.sizeofStructMem := sizeofStructMem_pos
  have hnot : block + cfg.sizeofStructMem + newsize ∉ headers := by
    refine hinv.tiled.chain.not_mem_of_inside hblock (by omega) ?_
    change _ < (heap.mem block).next
    omega
  have hcutUsed : ∀ other ∈ headers, (heap.mem other).used ≠ 0 →
      ((cutBlock cfg heap block (block + cfg.sizeofStructMem + newsize)
        ((heap.mem block).next - (block + cfg.sizeofStructMem + newsize))).mem other).used ≠
          0 := by
    intro other hother hotherUsed
    have hotherne : other ≠ block + cfg.sizeofStructMem + newsize :=
      fun hsame => hnot (hsame ▸ hother)
    simpa [cutBlock, used_splitBlock, hotherne] using hotherUsed
  -- the other live blocks keep their next header
  have hothers : ∑ pointer ∈ live.erase (heap.heapPtr + block + cfg.sizeofStructMem),
      span cfg heap' pointer = ∑ pointer ∈ live.erase
        (heap.heapPtr + block + cfg.sizeofStructMem), span cfg heap pointer := by
    refine Finset.sum_congr rfl fun pointer hpointer => span_congr hptr ?_
    obtain ⟨hdiffers, hpointer⟩ := Finset.mem_erase.1 hpointer
    obtain ⟨other, hother, hend, hotherUsed, rfl, hotherHeader⟩ := hinv.exists_block hpointer
    have hotherne : other ≠ block := fun hsame => hdiffers (by rw [hsame])
    have hotherFresh : other ≠ block + cfg.sizeofStructMem + newsize :=
      fun hsame => hnot (hsame ▸ hother)
    rw [hotherHeader, hkept.next other (hcutUsed other hother hotherUsed)]
    simp [cutBlock, next_splitBlock, hotherne, hotherFresh]
  have hcut : span cfg heap' (heap.heapPtr + block + cfg.sizeofStructMem) =
      cfg.sizeofStructMem + newsize := by
    rw [span, headerOf_congr hptr, hheader, hkept.next block (hcutUsed block hblock hused)]
    simp only [cutBlock, next_splitBlock, if_true]
    omega
  have htotal' := Finset.add_sum_erase live (span cfg heap') hlive
  rw [Accounted] at hsum ⊢
  have hused' : heap'.usedMem =
      heap.usedMem - ((heap.mem block).next - (block + cfg.sizeofStructMem + newsize)) := by
    rw [hkept.usedMem]
    exact cfg.sub_eq (by omega) (by omega)
  exact ⟨by omega, by omega, hkept.maxMem⟩

theorem foldr_max_le_iff {values : List ℕ} {start bound : ℕ} :
    values.foldr max start ≤ bound ↔ start ≤ bound ∧ ∀ value ∈ values, value ≤ bound := by
  induction values with
  | nil => simp
  | cons value rest ih =>
    rw [List.foldr_cons, max_le_iff, ih, List.forall_mem_cons]
    tauto

theorem foldr_max_eq_or_mem (values : List ℕ) (start : ℕ) :
    values.foldr max start = start ∨ values.foldr max start ∈ values := by
  induction values with
  | nil => exact .inl rfl
  | cons value rest ih =>
    rw [List.foldr_cons]
    rcases max_choice value (rest.foldr max start) with hvalue | hrest
    · rw [hvalue]
      exact .inr List.mem_cons_self
    · rw [hrest]
      exact ih.imp_right (List.mem_cons_of_mem value)

/-- `max_mem` follows `used_mem` through the values of a call. -/
def Follows (heap heap' : Heap) (during : List ℕ) : Prop :=
  heap'.maxMem = (during ++ [heap'.usedMem]).foldr max heap.maxMem

theorem follows_of_le (hused : heap'.usedMem ≤ heap.maxMem) (hmax : heap'.maxMem = heap.maxMem) :
    Follows heap heap' [] := by
  simp [Follows, hmax, hused]

/-- The payload moves to another block, which is counted before the old one is freed. -/
theorem expand_stats (hinv : Inv cfg heap live headers) (hsum : Accounted cfg heap live)
    (hmax : heap.usedMem ≤ heap.maxMem) (hlive : rmem ∈ live) {size : ℕ}
    (hexpand : expand cfg heap rmem size newsize = .ok (heap', pointer)) :
    ∃ middle next, rtMalloc cfg heap newsize = .ok (middle, next) ∧
      Accounted cfg heap' (if pointer = 0 then live else insert pointer (live.erase rmem)) ∧
      Follows heap heap' [middle.usedMem] := by
  obtain ⟨middle, next, headers', hmalloc, hinv', hfresh, -⟩ := rtMalloc_spec hinv newsize
  obtain ⟨hsum', hpeak⟩ := rtMalloc_stats hinv hsum hmax hmalloc
  refine ⟨middle, next, hmalloc, ?_⟩
  simp only [expand, hmalloc, ok_bind] at hexpand
  by_cases hnull : next = 0
  · rw [if_pos hnull] at hexpand
    obtain ⟨rfl, rfl⟩ := Prod.mk.inj (Except.ok.inj hexpand)
    refine ⟨by simpa [afterMalloc, hnull] using hsum', ?_⟩
    simp [Follows, hpeak, max_comm]
  · rw [if_neg hnull] at hexpand
    rw [afterMalloc, if_neg hnull] at hinv' hsum'
    generalize rtMemcpy middle.data next rmem (if size < newsize then size else newsize) = data
      at hexpand
    have hcopied : Inv cfg { middle with data := data } (insert next live) headers' :=
      ⟨hinv'.geometry, hinv'.tiled, hinv'.coalesced, hinv'.lfree, hinv'.live⟩
    have hmem : rmem ∈ insert next live := Finset.mem_insert_of_mem hlive
    obtain ⟨freed, -, hfree, -⟩ := rtFree_spec hcopied hmem
    rw [hfree] at hexpand
    obtain ⟨rfl, rfl⟩ := Prod.mk.inj (Except.ok.inj hexpand)
    obtain ⟨hsum'', hle, hkept⟩ := rtFree_stats hcopied hmem hsum' hfree
    have hne : next ≠ rmem := fun hsame => hfresh (hsame ▸ hlive)
    refine ⟨?_, ?_⟩
    · rwa [if_neg hnull, ← Finset.erase_insert_of_ne hne]
    · dsimp only at hle hkept
      simp only [Follows, List.singleton_append, List.foldr_cons, List.foldr_nil, hkept, hpeak]
      omega

theorem rtRealloc_stats (hinv : Inv cfg heap live headers) (hsum : Accounted cfg heap live)
    (hmax : heap.usedMem ≤ heap.maxMem) (hholds : rmem = 0 ∨ rmem ∈ live)
    (hrealloc : rtRealloc cfg heap rmem newsize = .ok (heap', pointer)) :
    Accounted cfg heap' (afterRealloc cfg live rmem newsize pointer) ∧
      Follows heap heap' (usedMemDuring cfg heap (.realloc rmem newsize)) := by
  have hnull : (0 : ℕ) ∉ live := fun hlive => hinv.ne_zero hlive rfl
  have hstill : ∀ {newsize}, ¬ Relocates cfg heap rmem newsize →
      usedMemDuring cfg heap (.realloc rmem newsize) = [] := fun hnot => by
    rw [usedMemDuring, if_neg hnot]
  by_cases hlarge : heap.memSizeAligned < cfg.rtAlign newsize
  · rw [rtRealloc, if_pos hlarge] at hrealloc
    obtain ⟨rfl, rfl⟩ := Prod.mk.inj (Except.ok.inj hrealloc)
    rw [hstill fun hmoves => hmoves.1.not_gt hlarge, afterRealloc, if_neg (by omega), if_pos rfl]
    exact ⟨hsum, follows_of_le hmax rfl⟩
  by_cases hzero : cfg.rtAlign newsize = 0
  · rw [hstill fun hmoves => hmoves.2.1 hzero, afterRealloc, if_pos hzero]
    simp only [rtRealloc, if_neg hlarge, if_pos hzero] at hrealloc
    rcases hholds with rfl | hlive
    · rw [rtFree, if_pos rfl] at hrealloc
      obtain ⟨rfl, rfl⟩ := Prod.mk.inj (Except.ok.inj hrealloc)
      rw [Finset.erase_eq_of_notMem hnull]
      exact ⟨hsum, follows_of_le hmax rfl⟩
    · obtain ⟨freed, -, hfree, -⟩ := rtFree_spec hinv hlive
      rw [hfree] at hrealloc
      obtain ⟨rfl, rfl⟩ := Prod.mk.inj (Except.ok.inj hrealloc)
      obtain ⟨hsum', hle, hkept⟩ := rtFree_stats hinv hlive hsum hfree
      exact ⟨hsum', follows_of_le (hle.trans hmax) hkept⟩
  rw [afterRealloc, if_neg hzero]
  rcases hholds with rfl | hlive
  · rw [hstill fun hmoves => hmoves.2.2.1 rfl, Finset.erase_eq_of_notMem hnull]
    rw [rtRealloc, if_neg hlarge, if_neg hzero, if_pos rfl] at hrealloc
    obtain ⟨hsum', hpeak⟩ := rtMalloc_stats hinv hsum hmax hrealloc
    exact ⟨hsum', by simp [Follows, hpeak, max_comm]⟩
  · have hlarge := not_lt.1 hlarge
    have hkept : insert rmem (live.erase rmem) = live := Finset.insert_erase hlive
    have hpos := hinv.ne_zero hlive
    obtain ⟨block, hblock, hne, hused, rfl, hheader⟩ := hinv.exists_block hlive
    have hshrinks := shrinks_iff hinv hblock hne hlarge
    rw [rtRealloc_live_eq hinv hblock hne hlarge hzero] at hrealloc
    by_cases hsame : payloadSize cfg heap block = cfg.rtAlign newsize
    · rw [if_pos hsame] at hrealloc
      obtain ⟨rfl, rfl⟩ := Prod.mk.inj (Except.ok.inj hrealloc)
      rw [hstill fun hmoves => hmoves.2.2.2.1 (hheader.symm ▸ hsame), if_neg hpos, hkept]
      exact ⟨hsum, follows_of_le hmax rfl⟩
    rw [if_neg hsame] at hrealloc
    by_cases hcut : shrinks cfg (payloadSize cfg heap block) (cfg.rtAlign newsize)
    · have hlt := hshrinks.1 hcut
      obtain ⟨shrunk, -, hshrink, -⟩ :=
        shrink_spec hinv hblock hne hused (cfg.rtAlignSize_dvd_rtAlign newsize) (by omega)
          (by omega)
      rw [if_pos hcut, hshrink] at hrealloc
      obtain ⟨rfl, rfl⟩ := Prod.mk.inj (Except.ok.inj hrealloc)
      obtain ⟨hsum', hle, hpeak⟩ := shrink_stats hinv hsum hlive (by omega) hshrink
      rw [hstill fun hmoves => hmoves.2.2.2.2 (hheader.symm ▸ hcut), if_neg hpos, hkept]
      exact ⟨hsum', follows_of_le (hle.trans hmax) hpeak⟩
    · rw [if_neg hcut] at hrealloc
      obtain ⟨middle, next, hmalloc, hsum', hfollows⟩ := expand_stats hinv hsum hmax hlive hrealloc
      have hmoves : Relocates cfg heap (heap.heapPtr + block + cfg.sizeofStructMem)
          newsize := by
        rw [Relocates, hheader]
        exact ⟨hlarge, hzero, hpos, hsame, hcut⟩
      refine ⟨hsum', ?_⟩
      simpa only [usedMemDuring, if_pos hmoves, hmalloc] using hfollows

end Realloc

/-! ## Runs -/

section Runs

variable {st next last : State} {act : Action} {event : Event}

/-- The counters of a heap with the structure of `Inv`. -/
structure StatsInv (cfg : HeapConfig) (st : State) : Prop where
  inv : ∃ headers, Inv cfg st.heap st.live headers
  used : Accounted cfg st.heap st.live
  le_max : st.heap.usedMem ≤ st.heap.maxMem

/-- One call keeps `used_mem` the sum of the spans, and `max_mem` follows it. -/
theorem step_stats (hinv : StatsInv cfg st)
    (hstep : step cfg st act = some (next, event)) :
    StatsInv cfg next ∧
      Follows st.heap next.heap (usedMemDuring cfg st.heap act) := by
  obtain ⟨⟨headers, hheap⟩, hused, hmax⟩ := hinv
  obtain ⟨-, headers', hheap', -⟩ := step_spec hheap hstep
  suffices hstats : Accounted cfg next.heap next.live ∧
      Follows st.heap next.heap (usedMemDuring cfg st.heap act) by
    obtain ⟨hused', hfollows⟩ := hstats
    refine ⟨⟨⟨headers', hheap'⟩, hused', ?_⟩, hfollows⟩
    exact (foldr_max_le_iff.1 hfollows.ge).2 _ (by simp)
  cases act with
  | malloc size =>
    obtain ⟨heap', pointer, -, hmalloc, -⟩ := rtMalloc_spec hheap size
    simp only [step, hmalloc] at hstep
    split at hstep
    · cases hstep
      obtain ⟨hused', hpeak⟩ := rtMalloc_stats hheap hused hmax hmalloc
      exact ⟨hused', by simp [Follows, usedMemDuring, hpeak, max_comm]⟩
    · contradiction
  | realloc rmem newsize =>
    simp only [step] at hstep
    split at hstep
    · next hholds =>
        obtain ⟨heap', pointer, -, hrealloc, -⟩ := rtRealloc_spec hheap hholds.2 newsize
        rw [hrealloc] at hstep
        cases hstep
        exact rtRealloc_stats hheap hused hmax hholds.2 hrealloc
    · contradiction
  | free rmem =>
    simp only [step] at hstep
    split at hstep
    · next hholds =>
        rcases hholds with rfl | hlive
        · have hnull : (0 : ℕ) ∉ st.live := fun hlive => hheap.ne_zero hlive rfl
          cases hstep
          rw [Finset.erase_eq_of_notMem hnull]
          exact ⟨hused, follows_of_le hmax rfl⟩
        · obtain ⟨heap', -, hfree, -⟩ := rtFree_spec hheap hlive
          rw [hfree] at hstep
          cases hstep
          obtain ⟨hused', hle, hkept⟩ := rtFree_stats hheap hlive hused hfree
          exact ⟨hused', follows_of_le (hle.trans hmax) hkept⟩
    · contradiction

/-- On a heap too small for a block the counters stay zero. -/
theorem Exhausted.step_stats (hexhausted : Exhausted cfg st)
    (hzero : st.heap.usedMem = 0) (hstep : SmallMem.step cfg st act =
      some (next, event)) :
    next = st ∧ Follows st.heap next.heap (usedMemDuring cfg st.heap act) := by
  obtain ⟨rfl, -⟩ := hexhausted.step hstep
  refine ⟨rfl, ?_⟩
  have hduring : usedMemDuring cfg next.heap act = [] := by
    cases act with
    | malloc size => rfl
    | free rmem => rfl
    | realloc rmem newsize =>
      simp only [SmallMem.step] at hstep
      split at hstep
      · next hholds =>
          have hnull : rmem = 0 := by
            simpa [State.holds, hexhausted.live] using hholds.2
          rw [usedMemDuring, if_neg fun hmoves => hmoves.2.2.1 hnull]
      · contradiction
  rw [hduring]
  exact follows_of_le (by omega) rfl

theorem mem_usedMemHistory (cfg : HeapConfig) (st : State) (actions : List Action) :
    st.heap.usedMem ∈ usedMemHistory cfg st actions := by
  cases actions with
  | nil => exact List.mem_cons_self
  | cons act rest => exact List.mem_cons_self

/-- The counters of every heap a run reaches. -/
def Counted (cfg : HeapConfig) (st : State) : Prop :=
  StatsInv cfg st ∨ Exhausted cfg st ∧ st.heap.usedMem = 0

theorem Counted.le_max (hcounted : Counted cfg st) :
    st.heap.usedMem ≤ st.heap.maxMem := by
  rcases hcounted with hinv | ⟨-, hzero⟩
  · exact hinv.le_max
  · omega

theorem Counted.step (hcounted : Counted cfg st)
    (hstep : SmallMem.step cfg st act = some (next, event)) :
    Counted cfg next ∧
      Follows st.heap next.heap (usedMemDuring cfg st.heap act) := by
  rcases hcounted with hinv | ⟨hexhausted, hzero⟩
  · obtain ⟨hinv', hfollows⟩ := step_stats hinv hstep
    exact ⟨.inl hinv', hfollows⟩
  · obtain ⟨rfl, hfollows⟩ := hexhausted.step_stats hzero hstep
    exact ⟨.inr ⟨hexhausted, hzero⟩, hfollows⟩

theorem Counted.usedMem_eq (hcounted : Counted cfg st) :
    st.heap.usedMem = usedBytes st.heap := by
  rcases hcounted with ⟨⟨headers, hinv⟩, hused, -⟩ | ⟨hexhausted, hzero⟩
  · exact hused.trans hinv.sum_span
  · have hinitial := hexhausted.initial
    have hpos := hinitial.heapEnd_pos
    have hheaders : st.heap.headers = [0, st.heap.heapEnd] :=
      hinitial.chain.walk_eq (by simp only [List.length_cons, List.length_nil]; omega)
    rw [hzero, usedBytes, hheaders]
    simp [hinitial.first]

/-- `max_mem` is the maximum of what it was and of the values of `used_mem` since. -/
theorem Counted.maxMem_eq {first : State} {trace : List (Action × Event)}
    (hcounted : Counted cfg first) (hrun : (machine cfg).Run first trace last) :
    Counted cfg last ∧ last.heap.maxMem =
      (usedMemHistory cfg first (trace.map Prod.fst)).foldr max first.heap.maxMem := by
  induction hrun with
  | nil st =>
    refine ⟨hcounted, ?_⟩
    simp [usedMemHistory, hcounted.le_max]
  | @cons first next last act event trace _ hstep hrest ih =>
    obtain ⟨hnext, hfollows⟩ := hcounted.step hstep
    obtain ⟨hlast, hmax⟩ := ih hnext
    refine ⟨hlast, ?_⟩
    have hstep : SmallMem.step cfg first act = some (next, event) := hstep
    rw [hmax, hfollows, List.map_cons, usedMemHistory, hstep]
    refine eq_of_forall_ge_iff fun bound => ?_
    have hused := hcounted.le_max
    have hmem := mem_usedMemHistory cfg next (trace.map Prod.fst)
    simp only [foldr_max_le_iff, List.forall_mem_cons, List.forall_mem_append]
    constructor
    · rintro ⟨⟨hstart, hduring, -⟩, hlater⟩
      exact ⟨hstart, hused.trans hstart, hduring, hlater⟩
    · rintro ⟨hstart, -, hduring, hlater⟩
      exact ⟨⟨hstart, hduring, hlater _ hmem, by simp⟩, hlater⟩

end Runs

/-- After every sequence of calls on live pointers, `used_mem` is the sum over the used
blocks of the distance to the next header, and `max_mem` is the maximum of the values that
`used_mem` has had. -/
theorem stats_correct {beginAddr endAddr : ℕ} {mem : Headers} {data : ℕ → UInt8} {heap : Heap}
    (hinit : rtSystemHeapInit cfg beginAddr endAddr mem data = some heap)
    {trace : List (Action × Event)} {last : State}
    (hrun : (machine cfg).Run ⟨heap, ∅⟩ trace last) :
    last.heap.usedMem = usedBytes last.heap ∧
      (usedMemHistory cfg ⟨heap, ∅⟩ (trace.map Prod.fst)).max? = some last.heap.maxMem := by
  have hinitial := rtSystemHeapInit_spec hinit
  have hzero : heap.usedMem = 0 ∧ heap.maxMem = 0 := by
    simp only [rtSystemHeapInit] at hinit
    split at hinit
    · cases hinit
      exact ⟨rfl, rfl⟩
    · contradiction
  have hfirst : Counted cfg ⟨heap, ∅⟩ := by
    by_cases hmin : cfg.minSizeAligned ≤ heap.memSizeAligned
    · exact .inl ⟨⟨_, hinitial.inv hmin⟩, by simp [Accounted, hzero.1], by simp [hzero]⟩
    · exact .inr ⟨⟨hinitial, not_le.1 hmin, rfl⟩, hzero.1⟩
  obtain ⟨hlast, hmax⟩ := hfirst.maxMem_eq hrun
  refine ⟨hlast.usedMem_eq, ?_⟩
  have hmem := mem_usedMemHistory cfg ⟨heap, ∅⟩ (trace.map Prod.fst)
  rw [hmax, List.max?_eq_some_iff]
  dsimp only at hmem ⊢
  rw [hzero.1] at hmem
  rw [hzero.2]
  refine ⟨?_, (foldr_max_le_iff.1 le_rfl).2⟩
  rcases foldr_max_eq_or_mem (usedMemHistory cfg ⟨heap, ∅⟩ (trace.map Prod.fst)) 0 with
    hstart | hvalue
  · rwa [hstart]
  · exact hvalue

/-- A block is split, another one cut and moved, and the first one freed. -/
theorem stats_correct_moved :
    ∃ trace last, (machine config32).Run ⟨heap32, ∅⟩ trace last ∧
      last.heap.usedMem = usedBytes last.heap ∧ last.heap.usedMem < last.heap.maxMem := by
  have hinit : rtSystemHeapInit config32 0x1000 0x1100 (fun _ => ⟨0, 0, 0, 0⟩) (fun _ => 0) =
      some heap32 := rfl
  have hrun : (machine config32).Run ⟨heap32, ∅⟩ _ _ :=
    Machine.runWith_of_exec
      [.malloc 100, .malloc 12, .realloc 0x100c 8, .realloc 0x107c 40, .free 0x100c] rfl
  exact ⟨_, _, hrun, (stats_correct hinit hrun).1, by decide⟩

end RtThread.SmallMem
