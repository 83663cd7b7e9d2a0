import RtThread.Heap.MemheapRuns

set_option linter.all false

/-!
# Which requests a memory heap serves

`rt_memheap_alloc` refuses a request before it searches unless the request is smaller than
`available_size`.  So the request that is exactly all the free bytes is refused, also when
they lie in one item; every other request that fits into a free item is served.
-/

namespace RtThread.Memheap

open RtThread.Core RtThread.Core.Tile
open RtThread.SmallMem (HeapConfig config32)

variable {cfg : HeapConfig} {heap : RtMemheap} {tiles : List Tile} {free live : List ℕ}
variable {last : State} {item : ℕ}

theorem sound_of_run {self freeHeader startAddr size : ℕ} {memory : RtMemheap}
    {trace : List (Action × Event)} (henough : LargeEnough cfg freeHeader startAddr size)
    (hrun : (machine cfg).RunWith (GrowsWithin cfg)
      (initial cfg self freeHeader startAddr size memory) trace last) :
    Sound cfg startAddr (poolSizeOf cfg size) last := by
  refine hrun.invariant (Sound cfg startAddr (poolSizeOf cfg size)) ?_ ?_
  · exact fun _ _ _ _ hsound hgrows hstep => (step_sound hsound hgrows hstep).1
  · exact ⟨⟨_, _, rtMemheapInit_inv henough⟩, rfl, rfl, rfl⟩

theorem Inv.memitemSize_le (hinv : Inv cfg heap tiles free live) (hitem : item ∈ free) :
    memitemSize cfg heap item ≤ heap.availableSize := by
  obtain ⟨before, next, rest, rfl⟩ :=
    hinv.layout.tiling.exists_next_of_unused (hinv.layout.mem_free hitem)
  have hsize : memitemSize cfg heap item = next.address - item - rtMemheapSize cfg :=
    hinv.layout.tiling.memitemSize_eq
  rw [hinv.available, freeBytes_append_cons_cons true, hsize]
  simp only [Bool.false_eq_true, if_false]
  omega

/-- A free item has room for a request. -/
def Serves (cfg : HeapConfig) (heap : RtMemheap) (free : List ℕ) (size : ℕ) : Prop :=
  ∃ item ∈ free, requestSize cfg size ≤ memitemSize cfg heap item

theorem Inv.rtMemheapAlloc_ne_zero (hinv : Inv cfg heap tiles free live) (size : ℕ) :
    ∃ heap' ptr, rtMemheapAlloc cfg heap size = .ok (heap', ptr) ∧
      (ptr ≠ 0 ↔ Serves cfg heap free size ∧
        requestSize cfg size ≠ heap.availableSize) := by
  have hsize := rtMemheapSize_ge cfg
  rcases rtMemheapAlloc_cases hinv size with
    ⟨hfail, hnone⟩ | ⟨before, item, next, rest, heap', rfl, hroom, hlt, halloc, -⟩
  · refine ⟨heap, 0, hfail, iff_of_false (by simp) ?_⟩
    rintro ⟨⟨item, hitem, hroom⟩, hne⟩
    have hle := hroom.trans (hinv.memitemSize_le hitem)
    exact (hnone (lt_of_le_of_ne hle hne) item hitem).not_ge hroom
  · have hitem : item ∈ free := hinv.layout.free_perm.mem_iff.2 (by simp)
    exact ⟨heap', _, halloc, iff_of_true (by omega) ⟨⟨item, hitem, hroom⟩, hlt.ne⟩⟩

/-- In every reachable state, a request that fits into a free item is served unless it is
exactly the number of free bytes. -/
theorem rtMemheapAlloc_serves_iff {self freeHeader startAddr size : ℕ} {memory : RtMemheap}
    {trace : List (Action × Event)} (henough : LargeEnough cfg freeHeader startAddr size)
    (hrun : (machine cfg).RunWith (GrowsWithin cfg)
      (initial cfg self freeHeader startAddr size memory) trace last) (request : ℕ) :
    ∃ items free heap' ptr,
      WellFormed cfg startAddr (poolSizeOf cfg size) last items free ∧
      rtMemheapAlloc cfg last.heap request = .ok (heap', ptr) ∧
      ((Serves cfg last.heap free request → ptr ≠ 0) ↔
        (Serves cfg last.heap free request →
          requestSize cfg request ≠ last.heap.availableSize)) := by
  obtain ⟨⟨tiles, free, hinv⟩, rfl, hpool, hmax⟩ := sound_of_run henough hrun
  obtain ⟨heap', ptr, halloc, hne⟩ := hinv.rtMemheapAlloc_ne_zero request
  refine ⟨addresses tiles, free, heap', ptr, hpool ▸ hinv.wellFormed hmax, halloc, ?_⟩
  rw [hne]
  exact forall_congr' fun hserves => and_iff_right hserves

theorem rtMemheapAlloc_serves_iff_schedule32 :
    ∃ trace last, (machine config32).RunWith (GrowsWithin config32) heap32 trace last ∧
      ∃ items free heap' ptr,
        WellFormed config32 0x1000 (poolSizeOf config32 512) last items free ∧
        rtMemheapAlloc config32 last.heap 100 = .ok (heap', ptr) ∧
        ((Serves config32 last.heap free 100 → ptr ≠ 0) ↔
          (Serves config32 last.heap free 100 →
            requestSize config32 100 ≠ last.heap.availableSize)) := by
  have hrun := Machine.runWith_of_isSome schedule32 isSome_schedule32
  exact ⟨_, _, hrun, rtMemheapAlloc_serves_iff largeEnough32 hrun 100⟩

/-- All the 464 bytes of a new heap lie in one free item, and a request for them fails. -/
theorem whole_heap_not_served :
    ∃ items free, WellFormed config32 0x1000 (poolSizeOf config32 512) heap32 items free ∧
      Serves config32 heap32.heap free 464 ∧
      rtMemheapAlloc config32 heap32.heap 464 = .ok (heap32.heap, 0) := by
  have hsound : Sound config32 0x1000 (poolSizeOf config32 512) heap32 :=
    ⟨⟨_, _, rtMemheapInit_inv largeEnough32⟩, rfl, rfl, rfl⟩
  obtain ⟨items, free, hformed⟩ := hsound.wellFormed
  have hitem : 0x1000 ∈ free :=
    (hformed.mem_free 0x1000).2 ⟨List.mem_of_head? hformed.head, by decide⟩
  have hrefused : ¬ requestSize config32 464 < heap32.heap.availableSize := by decide
  refine ⟨items, free, hformed, ⟨0x1000, hitem, by decide⟩, ?_⟩
  rw [rtMemheapAlloc]
  exact if_neg hrefused

end RtThread.Memheap
