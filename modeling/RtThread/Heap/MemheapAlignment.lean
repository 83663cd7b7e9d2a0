import RtThread.Heap.MemheapContents

set_option linter.all false

/-!
# Alignment of the pointers of a memory heap

An item starts where the one before it ends, so the pointers are aligned as long as every
size that is cut off is a multiple of `RT_ALIGN_SIZE`.  The rounded requests and
`RT_MEMHEAP_SIZE` are, but `RT_MEMHEAP_MINIALLOC`, which replaces the smallest requests after
the rounding, is no multiple of 8.
-/

namespace RtThread.Memheap

open RtThread.Core RtThread.Core.Tile
open RtThread.SmallMem (HeapConfig rtMemcpy ok_bind)

variable {cfg : HeapConfig} {heap : RtMemheap} {tiles tiles' before rest : List Tile}
variable {free live : List ℕ} {st next last : State} {item size ptr newsize : ℕ}

/-- `RT_MEMHEAP_MINIALLOC` does not replace the request by one that is not aligned. -/
def RoundsUp (cfg : HeapConfig) (size : ℕ) : Prop :=
  cfg.rtAlignSize ∣ rtMemheapMinialloc ∨ rtMemheapMinialloc ≤ cfg.rtAlign size

instance (size : ℕ) : Decidable (RoundsUp cfg size) :=
  inferInstanceAs (Decidable (_ ∨ _))

/-- The requests of a step keep the items aligned, and an item that grows finds enough room. -/
def KeepsAlignment (cfg : HeapConfig) (st : State) : Action → Prop
  | .alloc size => RoundsUp cfg size
  | .realloc ptr newsize =>
    RoomToGrow cfg st.heap ptr newsize ∧ (newsize = 0 ∨ RoundsUp cfg newsize)
  | .free _ => True

instance (st : State) (act : Action) : Decidable (KeepsAlignment cfg st act) :=
  match act with
  | .alloc _ => inferInstanceAs (Decidable (RoundsUp _ _))
  | .realloc _ _ => inferInstanceAs (Decidable (_ ∧ _))
  | .free _ => isTrue trivial

/-- Every item is aligned. -/
def Aligned (cfg : HeapConfig) (tiles : List Tile) : Prop :=
  ∀ address ∈ addresses tiles, cfg.rtAlignSize ∣ address

theorem dvd_rtMemheapSize (cfg : HeapConfig) : cfg.rtAlignSize ∣ rtMemheapSize cfg :=
  cfg.rtAlignSize_dvd_rtAlign _

theorem RoundsUp.dvd_requestSize (hround : RoundsUp cfg size) :
    cfg.rtAlignSize ∣ requestSize cfg size := by
  rw [requestSize]
  split
  · next hlt => exact hround.resolve_right hlt.not_ge
  · exact cfg.rtAlignSize_dvd_rtAlign size

/-- `rt_memheap_realloc` passes a request on that was rounded before. -/
theorem roundsUp_requestSize (cfg : HeapConfig) (size : ℕ) :
    RoundsUp cfg (requestSize cfg size) :=
  .inr ((requestSize_ge cfg size).trans (cfg.le_rtAlign (requestSize_add_le cfg size)))

theorem Aligned.of_subset (haligned : Aligned cfg tiles)
    (hsubset : addresses tiles' ⊆ addresses tiles) : Aligned cfg tiles' :=
  fun address hmem => haligned address (hsubset hmem)

theorem Aligned.of_subset_cons (haligned : Aligned cfg tiles) {fresh : ℕ}
    (hfresh : cfg.rtAlignSize ∣ fresh)
    (hsubset : addresses tiles' ⊆ fresh :: addresses tiles) : Aligned cfg tiles' := by
  intro address hmem
  rcases List.mem_cons.1 (hsubset hmem) with rfl | hold
  · exact hfresh
  · exact haligned address hold

theorem Aligned.dvd_of_live (haligned : Aligned cfg tiles)
    (hinv : Inv cfg heap tiles free live) (hptr : ptr ∈ live) : cfg.rtAlignSize ∣ ptr := by
  obtain ⟨before, item, next, rest, rfl, rfl⟩ := hinv.exists_item hptr
  exact Nat.dvd_add (haligned item (by simp)) (dvd_rtMemheapSize cfg)

/-! ## The operations -/

theorem rtMemheapAlloc_aligned (hinv : Inv cfg heap tiles free live)
    (haligned : Aligned cfg tiles) (hround : RoundsUp cfg size) :
    rtMemheapAlloc cfg heap size = .ok (heap, 0) ∨
      ∃ heap' ptr tiles' free', rtMemheapAlloc cfg heap size = .ok (heap', ptr) ∧ ptr ≠ 0 ∧
        Inv cfg heap' tiles' free' (ptr :: live) ∧ Aligned cfg tiles' := by
  have hsize := rtMemheapSize_ge cfg
  rcases rtMemheapAlloc_cases hinv size with
    ⟨hfail, -⟩ | ⟨before, item, next, rest, heap', rfl, -, -, halloc, ⟨rfl, hfits⟩ | rfl⟩
  · exact .inl hfail
  · right
    obtain ⟨hinv', -⟩ := allocSplit_spec hinv hfits
    have hitem : cfg.rtAlignSize ∣ item := haligned item (by simp)
    have hfresh := Nat.dvd_add (Nat.dvd_add hitem hround.dvd_requestSize) (dvd_rtMemheapSize cfg)
    exact ⟨_, _, _, _, halloc, by omega, hinv', haligned.of_subset_cons hfresh
      (addresses_insert_subset ⟨_, false⟩ rfl (List.Subset.refl _))⟩
  · right
    obtain ⟨hinv', -⟩ := allocWhole_spec hinv
    refine ⟨_, _, _, _, halloc, by omega, hinv', haligned.of_subset ?_⟩
    rw [addresses_append, addresses_append]
    exact List.Subset.refl _

theorem rtMemheapFree_aligned (hinv : Inv cfg heap tiles free live)
    (haligned : Aligned cfg tiles) (hptr : ptr ∈ live) :
    ∃ heap' tiles' free', rtMemheapFree cfg heap ptr = .ok heap' ∧
      Inv cfg heap' tiles' free' (live.erase ptr) ∧ Aligned cfg tiles' := by
  obtain ⟨heap', tiles', free', hfree, hinv', -, hsublist⟩ := rtMemheapFree_spec hinv hptr
  exact ⟨heap', tiles', free', hfree, hinv', haligned.of_subset hsublist.subset⟩

theorem moveItem_aligned (oldsize : ℕ) (hinv : Inv cfg heap tiles free live)
    (haligned : Aligned cfg tiles) (hptr : ptr ∈ live) (hnewsize : newsize ≠ 0) :
    ∃ heap' newPtr tiles' free', moveItem cfg heap ptr oldsize (requestSize cfg newsize) =
        .ok (heap', newPtr) ∧
      Inv cfg heap' tiles' free' (afterRealloc live ptr newsize newPtr) ∧
      Aligned cfg tiles' := by
  rcases rtMemheapAlloc_aligned hinv haligned (roundsUp_requestSize cfg newsize) with
    hfail | ⟨heap', newPtr, tiles', free', halloc, hne, hinv', haligned'⟩
  · refine ⟨heap, 0, tiles, free, ?_, ?_, haligned⟩
    · rw [moveItem, hfail]
      rfl
    · rwa [afterRealloc, if_neg hnewsize, if_pos rfl]
  · have hcopied := hinv'.writeData (rtMemcpy heap'.data newPtr ptr
      (if oldsize < requestSize cfg newsize then oldsize else requestSize cfg newsize))
    obtain ⟨final, tiles'', free'', hfree, hinv'', haligned''⟩ :=
      rtMemheapFree_aligned hcopied haligned' (List.mem_cons_of_mem newPtr hptr)
    have hother : newPtr ≠ ptr := by
      rintro rfl
      exact (List.nodup_cons.1 (List.nodup_cons.1 hinv'.live_nodup).2).1 hptr
    refine ⟨final, newPtr, tiles'', free'', ?_, ?_, haligned''⟩
    · rw [moveItem, halloc, ok_bind]
      dsimp only
      rw [if_neg hne, hfree]
      rfl
    · rw [List.erase_cons_tail (by simpa using hother)] at hinv''
      rwa [afterRealloc, if_neg hnewsize, if_neg hne]

theorem rtMemheapRealloc_live_aligned (hinv : Inv cfg heap tiles free live)
    (haligned : Aligned cfg tiles) (hptr : ptr ∈ live) (hnewsize : newsize ≠ 0)
    (hroom : RoomToGrow cfg heap ptr newsize) (hround : RoundsUp cfg newsize) :
    ∃ heap' newPtr tiles' free', rtMemheapRealloc cfg heap ptr newsize = .ok (heap', newPtr) ∧
      Inv cfg heap' tiles' free' (afterRealloc live ptr newsize newPtr) ∧
      Aligned cfg tiles' := by
  obtain ⟨before, item, next, rest, rfl, rfl⟩ := hinv.exists_item hptr
  have hitem : cfg.rtAlignSize ∣ item := haligned item (by simp)
  have hfresh : cfg.rtAlignSize ∣ item + requestSize cfg newsize + rtMemheapSize cfg :=
    Nat.dvd_add (Nat.dvd_add hitem hround.dvd_requestSize) (dvd_rtMemheapSize cfg)
  rcases rtMemheapRealloc_live_cases hinv hnewsize hroom with
    ⟨-, hlow, ⟨gone, right, rest, rfl, rfl, henough⟩, hresult⟩ | ⟨-, -, hresult⟩ |
      ⟨-, hresult⟩ | ⟨hle, hresult⟩
  · obtain ⟨hinv', -⟩ := growItem_spec hinv hlow henough
    rw [Nat.add_right_comm] at hfresh
    exact ⟨_, _, _, _, hresult, hinv'.afterRealloc_self hptr hnewsize,
      haligned.of_subset_cons hfresh
        (addresses_insert_subset ⟨_, false⟩ rfl (List.subset_cons_self _ _))⟩
  · rw [hresult]
    exact moveItem_aligned _ hinv haligned hptr hnewsize
  · exact ⟨_, _, _, _, hresult, hinv.afterRealloc_self hptr hnewsize, haligned⟩
  · obtain ⟨tiles', free', hinv', -, hsubset⟩ := shrinkItem_spec hinv hle
    exact ⟨_, _, _, _, hresult, hinv'.afterRealloc_self hptr hnewsize,
      haligned.of_subset_cons hfresh hsubset⟩

/-! ## Runs -/

/-- A heap with aligned items. -/
def Steady (cfg : HeapConfig) (heap : RtMemheap) (live : List ℕ) : Prop :=
  ∃ tiles free, Inv cfg heap tiles free live ∧ Aligned cfg tiles

theorem Steady.dvd_of_live (hsteady : Steady cfg heap live) (hptr : ptr ∈ live) :
    cfg.rtAlignSize ∣ ptr := by
  obtain ⟨tiles, free, hinv, haligned⟩ := hsteady
  exact haligned.dvd_of_live hinv hptr

theorem Steady.allocates (hsteady : Steady cfg heap live) (hround : RoundsUp cfg size) :
    ∃ heap' ptr, rtMemheapAlloc cfg heap size = .ok (heap', ptr) ∧
      Steady cfg heap' (if ptr = 0 then live else ptr :: live) := by
  obtain ⟨tiles, free, hinv, haligned⟩ := hsteady
  rcases rtMemheapAlloc_aligned hinv haligned hround with
    hfail | ⟨heap', ptr, tiles', free', halloc, hne, hinv', haligned'⟩
  · exact ⟨heap, 0, hfail, tiles, free, hinv, haligned⟩
  · refine ⟨heap', ptr, halloc, tiles', free', ?_, haligned'⟩
    rwa [if_neg hne]

theorem Steady.frees (hsteady : Steady cfg heap live) (hholds : ptr = 0 ∨ ptr ∈ live) :
    ∃ heap', rtMemheapFree cfg heap ptr = .ok heap' ∧ Steady cfg heap' (live.erase ptr) := by
  obtain ⟨tiles, free, hinv, haligned⟩ := hsteady
  rcases hholds with rfl | hptr
  · refine ⟨heap, rfl, tiles, free, ?_, haligned⟩
    rwa [hinv.erase_zero]
  · obtain ⟨heap', tiles', free', hfree, hinv', haligned'⟩ :=
      rtMemheapFree_aligned hinv haligned hptr
    exact ⟨heap', hfree, tiles', free', hinv', haligned'⟩

theorem Steady.reallocates (hsteady : Steady cfg heap live) (hholds : ptr = 0 ∨ ptr ∈ live)
    (hroom : RoomToGrow cfg heap ptr newsize)
    (hround : newsize = 0 ∨ RoundsUp cfg newsize) :
    ∃ heap' newPtr, rtMemheapRealloc cfg heap ptr newsize = .ok (heap', newPtr) ∧
      (newsize = 0 → newPtr = 0) ∧
      Steady cfg heap' (afterRealloc live ptr newsize newPtr) := by
  by_cases hnewsize : newsize = 0
  · subst hnewsize
    obtain ⟨heap', hfree, hsteady'⟩ := hsteady.frees hholds
    refine ⟨heap', 0, ?_, fun _ => rfl, ?_⟩
    · rw [rtMemheapRealloc, if_pos rfl, hfree]
      rfl
    · rwa [afterRealloc, if_pos rfl]
  · have hround := hround.resolve_left hnewsize
    obtain ⟨tiles, free, hinv, haligned⟩ := hsteady
    rcases hholds with rfl | hptr
    · obtain ⟨heap', newPtr, halloc, hsteady'⟩ :=
        Steady.allocates ⟨tiles, free, hinv, haligned⟩ (roundsUp_requestSize cfg newsize)
      refine ⟨heap', newPtr, ?_, fun hzero => absurd hzero hnewsize, ?_⟩
      · rw [rtMemheapRealloc, if_neg hnewsize]
        exact (if_pos rfl).trans halloc
      · rwa [afterRealloc, if_neg hnewsize, hinv.erase_zero]
    · obtain ⟨heap', newPtr, tiles', free', hrealloc, hinv', haligned'⟩ :=
        rtMemheapRealloc_live_aligned hinv haligned hptr hnewsize hroom hround
      exact ⟨heap', newPtr, hrealloc, fun hzero => absurd hzero hnewsize, tiles', free', hinv',
        haligned'⟩

/-- A pointer that a call returned. -/
def AlignedEvent (cfg : HeapConfig) (event : Event) : Prop :=
  ∃ ptr, event = .returned ptr ∧ (ptr ≠ 0 → cfg.rtAlignSize ∣ ptr)

theorem step_aligned {act : Action} {event : Event}
    (hsteady : Steady cfg st.heap st.live) (hkeeps : KeepsAlignment cfg st act)
    (hstep : step cfg st act = some (next, event)) :
    Steady cfg next.heap next.live ∧ AlignedEvent cfg event := by
  cases act with
  | alloc size =>
    rw [step] at hstep
    split at hstep
    · obtain ⟨heap', ptr, halloc, hsteady'⟩ := hsteady.allocates hkeeps
      rw [halloc] at hstep
      cases hstep
      refine ⟨hsteady', ptr, rfl, fun hne => hsteady'.dvd_of_live ?_⟩
      rw [if_neg hne]
      exact List.mem_cons_self
    · contradiction
  | realloc ptr newsize =>
    rw [step] at hstep
    split at hstep
    · next hcall =>
      obtain ⟨heap', newPtr, hrealloc, hzero, hsteady'⟩ :=
        hsteady.reallocates hcall.2 hkeeps.1 hkeeps.2
      rw [hrealloc] at hstep
      cases hstep
      refine ⟨hsteady', newPtr, rfl, fun hne => hsteady'.dvd_of_live ?_⟩
      rw [afterRealloc, if_neg fun heq => hne (hzero heq), if_neg hne]
      exact List.mem_cons_self
    · contradiction
  | free ptr =>
    rw [step] at hstep
    split at hstep
    · next hcall =>
      obtain ⟨heap', hfree, hsteady'⟩ := hsteady.frees hcall
      rw [hfree] at hstep
      cases hstep
      exact ⟨hsteady', 0, rfl, fun hne => absurd rfl hne⟩
    · contradiction

theorem steady_initial {self freeHeader startAddr size : ℕ} {memory : RtMemheap}
    (henough : LargeEnough cfg freeHeader startAddr size)
    (hstart : cfg.rtAlignSize ∣ startAddr) :
    Steady cfg (rtMemheapInit cfg self freeHeader startAddr size memory) [] := by
  refine ⟨_, _, rtMemheapInit_inv henough, ?_⟩
  have hpool : cfg.rtAlignSize ∣ poolSizeOf cfg size := by
    have hword : cfg.rtAlignSize ∣ 2 ^ 32 :=
      Nat.pow_dvd_pow 2 (cfg.alignLog_le.trans (by decide))
    exact (Nat.dvd_mod_iff hword).2 (cfg.rtAlignSize_dvd_rtAlignDown size)
  intro address hmem
  simp only [addresses_cons, List.mem_cons] at hmem
  rcases hmem with rfl | rfl | hnone
  · exact hstart
  · exact Nat.dvd_sub (Nat.dvd_add hstart hpool) (dvd_rtMemheapSize cfg)
  · cases hnone

/-- In every run on an aligned pool whose requests are not replaced by one that is not
aligned, every pointer that is returned is aligned. -/
theorem memheap_pointers_aligned {self freeHeader startAddr size : ℕ} {memory : RtMemheap}
    {trace : List (Action × Event)} (henough : LargeEnough cfg freeHeader startAddr size)
    (hstart : cfg.rtAlignSize ∣ startAddr)
    (hrun : (machine cfg).RunWith (KeepsAlignment cfg)
      (initial cfg self freeHeader startAddr size memory) trace last) :
    ∀ entry ∈ trace, ∃ ptr, entry.2 = .returned ptr ∧ (ptr ≠ 0 → cfg.rtAlignSize ∣ ptr) := by
  have hreturned := hrun.traceInvariant
    (fun past st => Steady cfg st.heap st.live ∧ ∀ entry ∈ past,
      AlignedEvent cfg entry.2)
    (fun past st action next event hinv hkeeps hstep => by
      obtain ⟨hsteady, hevent⟩ := step_aligned hinv.1 hkeeps hstep
      refine ⟨hsteady, fun entry hentry => ?_⟩
      rcases List.mem_append.1 hentry with hold | hnew
      · exact hinv.2 entry hold
      · obtain rfl := List.mem_singleton.1 hnew
        exact hevent)
    ⟨steady_initial henough hstart, by simp⟩
  exact hreturned.2

/-- A 32-bit target with `RT_ALIGN_SIZE` 8. -/
def config32Align8 : HeapConfig where
  archCpu64bit := false
  usingMemtrace := false
  alignLog := 3
  alignLog_le := by decide

def heap32Align8 : State :=
  initial config32Align8 0x100 0x140 0x1000 512 blankMemory

theorem largeEnough32Align8 : LargeEnough config32Align8 0x140 0x1000 512 :=
  ⟨by decide, by decide, by decide⟩

/-- Requests of more than eight bytes. -/
def aligned32 : List Action :=
  [.alloc 9, .alloc 40, .realloc 0x1018 100, .realloc 0x1040 17, .free 0x1040]

theorem isSome_aligned32 : ((machine config32Align8).exec (KeepsAlignment config32Align8)
    heap32Align8 aligned32).isSome = true := by
  decide

theorem memheap_pointers_aligned_aligned32 :
    ∃ trace last, (machine config32Align8).RunWith (KeepsAlignment config32Align8) heap32Align8
        trace last ∧
      trace.length = 5 ∧
      ∀ entry ∈ trace, ∃ ptr, entry.2 = .returned ptr ∧
        (ptr ≠ 0 → config32Align8.rtAlignSize ∣ ptr) := by
  have hrun := Machine.runWith_of_isSome aligned32 isSome_aligned32
  exact ⟨_, _, hrun, by decide,
    memheap_pointers_aligned largeEnough32Align8 (by decide) hrun⟩

def smallest32 : List Action :=
  [.alloc 1, .alloc 1]

theorem isSome_smallest32 : ((machine config32Align8).exec (GrowsWithin config32Align8)
    heap32Align8 smallest32).isSome = true := by
  decide

/-- With `RT_ALIGN_SIZE` 8, the item behind the smallest request is not aligned. -/
theorem smallest_requests_misaligned :
    ∃ trace last, (machine config32Align8).RunWith (GrowsWithin config32Align8) heap32Align8
        trace last ∧
      config32Align8.rtAlignSize = 8 ∧ config32Align8.rtAlignSize ∣ 0x1000 ∧
      trace = [(.alloc 1, .returned 0x1018), (.alloc 1, .returned 0x103c)] ∧
      ¬ config32Align8.rtAlignSize ∣ 0x103c := by
  have hrun := Machine.runWith_of_isSome smallest32 isSome_smallest32
  exact ⟨_, _, hrun, by decide, by decide, by decide, by decide⟩

end RtThread.Memheap
