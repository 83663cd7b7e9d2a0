import RtThread.Heap.MemheapRealloc

set_option linter.all false

/-!
# The structure of a memory heap over whole runs

After every sequence of calls on live pointers in which no item grows into a successor that
is too short, the items tile the pool in a ring, the free list holds the unused items, no two
neighbours are both free, the live payloads are disjoint, and the two accounts are right.
-/

namespace RtThread.Memheap

open RtThread.Core RtThread.Core.Tile
open RtThread.SmallMem (HeapConfig config32)

variable {cfg : HeapConfig} {heap : RtMemheap} {tiles : List Tile}
variable {free live history : List ℕ} {st next last : State}

/-- The bytes that belong to a pointer. -/
def payload (cfg : HeapConfig) (heap : RtMemheap) (ptr : ℕ) : Set ℕ :=
  Set.Ico ptr (heap.next (ptr - rtMemheapSize cfg))

/-- The structure of a heap on a pool, with the lists of its items and of its free items. -/
structure WellFormed (cfg : HeapConfig) (startAddr poolSize : ℕ) (st : State)
    (items free : List ℕ) : Prop where
  pool : st.heap.startAddr = startAddr ∧ st.heap.poolSize = poolSize
  head : items.head? = some startAddr
  last : ∃ tail, items.getLast? = some tail ∧ IsUsed st.heap tail ∧
    tail + rtMemheapSize cfg = startAddr + poolSize
  ring : Ring st.heap.next st.heap.prev items
  spaced : items.Pairwise fun left right => left + rtMemheapSize cfg ≤ right
  freeRing : Ring st.heap.nextFree st.heap.prevFree (st.heap.freeList :: free)
  free_nodup : (st.heap.freeList :: free).Nodup
  mem_free : ∀ item, item ∈ free ↔ item ∈ items ∧ ¬ IsUsed st.heap item
  separate : items.IsChain fun left right => IsUsed st.heap left ∨ IsUsed st.heap right
  live_items : ∀ ptr ∈ st.live, ∃ item ∈ items, IsUsed st.heap item ∧
    ptr = item + rtMemheapSize cfg
  disjoint : st.live.Pairwise fun left right =>
    Disjoint (payload cfg st.heap left) (payload cfg st.heap right)
  available : st.heap.availableSize =
    (free.map fun item => st.heap.next item - item - rtMemheapSize cfg).sum
  maxUsed : st.history.max? = some st.heap.maxUsedSize

/-! ## What the invariant says about the links -/

theorem Tiling.isChain_next (htiling : Tiling cfg heap tiles) :
    tiles.IsChain fun left right => heap.next left.address = right.address := by
  have hring := htiling.ring
  cases tiles with
  | nil => exact List.isChain_nil
  | cons first rest =>
    have hlinked : Linked heap.next heap.prev
        (addresses (first :: rest) ++ [first.address]) := hring
    have hchain := (List.isChain_append.1 hlinked).1
    rw [addresses, List.isChain_map] at hchain
    exact hchain.imp fun _ _ hlink => hlink.1

theorem Tiling.mem_unused_iff (htiling : Tiling cfg heap tiles) (item : ℕ) :
    item ∈ unused tiles ↔ item ∈ addresses tiles ∧ ¬ IsUsed heap item := by
  constructor
  · intro hitem
    have hmem := mem_unused.1 hitem
    refine ⟨mem_addresses hmem, ?_⟩
    rw [htiling.isUsed_iff hmem]
    exact Bool.false_ne_true
  · rintro ⟨hitem, hunused⟩
    obtain ⟨⟨address, used⟩, hmem, rfl⟩ := List.mem_map.1 hitem
    obtain rfl : used = false := by rwa [htiling.isUsed_iff hmem, Bool.not_eq_true] at hunused
    exact mem_unused.2 hmem

/-- Payloads of different live pointers have no byte in common. -/
theorem Inv.payload_disjoint {left right : ℕ} (hinv : Inv cfg heap tiles free live)
    (hleft : left ∈ live) (hright : right ∈ live) (hne : left ≠ right) :
    Disjoint (payload cfg heap left) (payload cfg heap right) := by
  have hsize := rtMemheapSize_ge cfg
  -- the payload of the lower one ends before the item of the other one
  have hbelow : ∀ {low high : ℕ}, low ∈ live → high ∈ live → low < high →
      heap.next (low - rtMemheapSize cfg) ≤ high := by
    intro low high hlow hhigh hlt
    obtain ⟨before, item, next, rest, htiles, rfl⟩ := hinv.exists_item hlow
    obtain ⟨before', other, next', rest', htiles', rfl⟩ := hinv.exists_item hhigh
    rw [Nat.add_sub_cancel]
    have htiling := hinv.layout.tiling
    have hother : ⟨other, true⟩ ∈ tiles := by simp [htiles']
    rw [htiles] at htiling hother
    have hnext : heap.next item = next.address := htiling.next_eq.1
    by_contra hgt
    have hlowOther : item < other := by omega
    have hhighOther : other < next.address := by omega
    have hnot := htiling.spaced.not_mem_of_between (by omega) hlowOther hhighOther
    exact hnot (mem_addresses hother)
  rw [payload, payload, Set.Ico_disjoint_Ico]
  rcases lt_or_gt_of_ne hne with hlt | hgt
  · have hle := hbelow hleft hright hlt
    omega
  · have hle := hbelow hright hleft hgt
    omega

theorem Inv.wellFormed (hinv : Inv cfg heap tiles free live)
    (hmax : history.max? = some heap.maxUsedSize) :
    WellFormed cfg heap.startAddr heap.poolSize ⟨heap, live, history⟩ (addresses tiles)
      free := by
  have htiling := hinv.layout.tiling
  have hperm : free.Perm (unused tiles) := hinv.layout.free_perm
  obtain ⟨tail, hlast, htail⟩ := htiling.last
  refine ⟨⟨rfl, rfl⟩, htiling.head, ⟨tail, ?_, ?_, htail⟩, htiling.ring, ?_,
    hinv.layout.freeRing.ring, hinv.layout.freeRing.nodup, ?_, ?_, ?_, ?_, ?_, hmax⟩
  · rw [addresses, List.getLast?_map, hlast]
    rfl
  · exact (htiling.isUsed_iff (List.mem_of_getLast? hlast)).2 rfl
  · exact List.pairwise_map.2 htiling.spaced
  · intro item
    rw [hperm.mem_iff, htiling.mem_unused_iff]
  · rw [addresses, List.isChain_map]
    refine hinv.coalesced.imp_of_mem_imp fun left right hleft hright hused => ?_
    rwa [htiling.isUsed_iff hleft, htiling.isUsed_iff hright]
  · intro ptr hptr
    obtain ⟨before, item, next, rest, rfl, rfl⟩ := hinv.exists_item hptr
    have hmem : ⟨item, true⟩ ∈ before ++ ⟨item, true⟩ :: next :: rest := by simp
    exact ⟨item, mem_addresses hmem, (htiling.isUsed_iff hmem).2 rfl, rfl⟩
  · have hnodup : live.Nodup := (List.nodup_cons.1 hinv.live_nodup).2
    refine List.Pairwise.imp_of_mem ?_ hnodup
    intro left right hleft hright hne
    exact hinv.payload_disjoint hleft hright hne
  · have hsum : freeBytes (rtMemheapSize cfg) tiles = ((unused tiles).map fun item =>
        heap.next item - item - rtMemheapSize cfg).sum :=
      freeBytes_eq_sum htiling.isChain_next (by rw [hlast]; rintro _ ⟨⟩; rfl)
    rw [hinv.available, hsum]
    exact ((hperm.map _).sum_eq).symm

/-! ## The first heap -/

/-- The heap and its callers after `rt_memheap_init`. -/
def initial (cfg : HeapConfig) (self freeHeader startAddr size : ℕ) (memory : RtMemheap) :
    State :=
  let heap := rtMemheapInit cfg self freeHeader startAddr size memory
  ⟨heap, [], [usedSize heap]⟩

/-- `pool_size` of a heap on `size` bytes. -/
def poolSizeOf (cfg : HeapConfig) (size : ℕ) : ℕ :=
  u32 (cfg.rtAlignDown size)

/-- The pool has room for two items, ends in the address space, and does not contain the
heap object. -/
structure LargeEnough (cfg : HeapConfig) (freeHeader startAddr size : ℕ) : Prop where
  room : 2 * rtMemheapSize cfg ≤ poolSizeOf cfg size
  fits : startAddr + poolSizeOf cfg size ≤ cfg.wordSize
  apart : freeHeader < startAddr ∨ startAddr + poolSizeOf cfg size ≤ freeHeader

/-- The two items of a new heap: a free one, and the closing one. -/
theorem inv_of_two_items {tail : ℕ} (hpool : Pool cfg heap)
    (htail : tail + rtMemheapSize cfg = heap.startAddr + heap.poolSize)
    (hring : Ring heap.next heap.prev [heap.startAddr, tail])
    (hfree : Ring heap.nextFree heap.prevFree [heap.freeList])
    (hfirst : Marked heap ⟨heap.startAddr, false⟩) (hlast : Marked heap ⟨tail, true⟩)
    (havailable : heap.availableSize = heap.poolSize - 2 * rtMemheapSize cfg)
    (hmax : heap.maxUsedSize = usedSize heap) :
    Inv cfg (clearFree (linkFree heap heap.startAddr) tail)
      [⟨heap.startAddr, false⟩, ⟨tail, true⟩] [heap.startAddr] [] := by
  have hsize := rtMemheapSize_ge cfg
  have hroom := hpool.room
  have htiling : Tiling cfg heap [⟨heap.startAddr, false⟩, ⟨tail, true⟩] := by
    refine ⟨hpool, hring, ?_, rfl, ⟨tail, rfl, htail⟩, ?_⟩
    · refine List.pairwise_pair.2 ?_
      dsimp only
      omega
    · intro tile htile
      simp only [List.mem_cons, List.not_mem_nil, or_false] at htile
      rcases htile with rfl | rfl
      · exact hfirst
      · exact hlast
  have hblank : Layout cfg heap [⟨heap.startAddr, false⟩, ⟨tail, true⟩] [heap.startAddr] [] :=
    ⟨htiling, ⟨hfree, List.nodup_singleton _⟩, List.Perm.refl _⟩
  have hlinked := hblank.link
  have hnot : tail ∉ heap.freeList :: [heap.startAddr] := by
    have hapart := hpool.apart
    simp only [List.mem_cons, List.not_mem_nil, or_false]
    omega
  refine ⟨⟨hlinked.tiling.frame .., hlinked.freeRing.clearFree hnot, hlinked.free_perm⟩, ?_, ?_,
    ?_, ?_⟩
  · exact List.isChain_cons_cons.2 ⟨.inr rfl, List.isChain_singleton _⟩
  · change heap.availableSize = _
    simp only [freeBytes_cons_cons, freeBytes_single, Bool.false_eq_true, if_false]
    omega
  · exact hmax.ge
  · change [heap.startAddr + heap.poolSize].Perm [tail + rtMemheapSize cfg]
    rw [htail]

theorem rtMemheapInit_inv {self freeHeader startAddr size : ℕ} {memory : RtMemheap}
    (henough : LargeEnough cfg freeHeader startAddr size) :
    Inv cfg (rtMemheapInit cfg self freeHeader startAddr size memory)
      [⟨startAddr, false⟩,
        ⟨startAddr + poolSizeOf cfg size - rtMemheapSize cfg, true⟩] [startAddr] [] := by
  obtain ⟨hroom, hfits, hapart⟩ := henough
  have hsize := rtMemheapSize_ge cfg
  have hword := cfg.wordSize_ge
  have hsmall : poolSizeOf cfg size < 2 ^ 32 := Nat.mod_lt _ (by norm_num)
  have havailable : u32 (cfg.sub (poolSizeOf cfg size) (2 * rtMemheapSize cfg)) =
      poolSizeOf cfg size - 2 * rtMemheapSize cfg := by
    rw [cfg.sub_eq hroom (by omega), u32, Nat.mod_eq_of_lt (by omega)]
  have htail : cfg.add (cfg.add startAddr
      (u32 (cfg.sub (poolSizeOf cfg size) (2 * rtMemheapSize cfg))))
        (rtMemheapSize cfg) =
        startAddr + poolSizeOf cfg size - rtMemheapSize cfg := by
    rw [havailable, add_add_eq (by omega)]
    omega
  have hne : startAddr + poolSizeOf cfg size - rtMemheapSize cfg ≠ startAddr := by omega
  have hne' : startAddr ≠ startAddr + poolSizeOf cfg size - rtMemheapSize cfg := hne.symm
  rw [rtMemheapInit, blankHeap]
  rw [← poolSizeOf, htail]
  refine inv_of_two_items ⟨?_, ?_, ?_, ?_⟩ ?_ ?_ ?_ ?_ ?_ ?_ ?_
  · exact hroom
  · exact hsmall
  · exact hfits
  · exact hapart
  · dsimp only
    omega
  · simp [Core.Ring, Linked, hne']
  · simp [Core.Ring, Linked]
  · simp [Marked, mark, hne']
  · simp [Marked, mark]
  · exact havailable
  · rfl

/-! ## Runs -/

/-- An item that grows into its successor finds enough room there. -/
def GrowsWithin (cfg : HeapConfig) (st : State) : Action → Prop
  | .realloc ptr newsize => RoomToGrow cfg st.heap ptr newsize
  | _ => True

instance (st : State) (act : Action) : Decidable (GrowsWithin cfg st act) :=
  match act with
  | .realloc _ _ => inferInstanceAs (Decidable (RoomToGrow _ _ _ _))
  | .alloc _ => isTrue trivial
  | .free _ => isTrue trivial

/-- The heap of a state on a pool, with the maximum of its history. -/
def Sound (cfg : HeapConfig) (startAddr poolSize : ℕ) (st : State) : Prop :=
  (∃ tiles free, Inv cfg st.heap tiles free st.live) ∧
    st.heap.startAddr = startAddr ∧ st.heap.poolSize = poolSize ∧
    st.history.max? = some st.heap.maxUsedSize

theorem max?_append_eq {values : List ℕ} {most : ℕ} (hmax : history.max? = some most) :
    (history ++ values).max? = some (values.foldl max most) := by
  cases history with
  | nil => exact absurd hmax (by simp)
  | cons first rest =>
    rw [List.max?_cons', Option.some.injEq] at hmax
    rw [List.cons_append, List.max?_cons', List.foldl_append, hmax]

/-- Every call that grows within its bounds returns, and keeps the heap sound. -/
theorem step_sound {startAddr poolSize : ℕ} {act : Action} {event : Event}
    (hsound : Sound cfg startAddr poolSize st) (hgrows : GrowsWithin cfg st act)
    (hstep : step cfg st act = some (next, event)) :
    Sound cfg startAddr poolSize next ∧ ∃ ptr, event = .returned ptr := by
  obtain ⟨⟨tiles, free, hinv⟩, hstart, hpool, hmax⟩ := hsound
  cases act with
  | alloc size =>
    rw [step] at hstep
    split at hstep
    · rcases rtMemheapAlloc_spec hinv size with
        hfail | ⟨heap', ptr, tiles', free', halloc, hne, hinv', hfollows⟩
      · rw [hfail] at hstep
        cases hstep
        refine ⟨⟨⟨tiles, free, hinv⟩, hstart, hpool, ?_⟩, 0, rfl⟩
        rw [max?_append_eq hmax]
        exact congrArg some hinv.follows_self.maxUsed.symm
      · rw [halloc] at hstep
        cases hstep
        refine ⟨⟨⟨tiles', free', ?_⟩, hfollows.startAddr.trans hstart,
          hfollows.poolSize.trans hpool, ?_⟩, ptr, rfl⟩
        · rwa [if_neg hne]
        · rw [max?_append_eq hmax]
          exact congrArg some hfollows.maxUsed.symm
    · contradiction
  | realloc ptr newsize =>
    rw [step] at hstep
    split at hstep
    · next hcall =>
      obtain ⟨heap', newPtr, hrealloc, hafter⟩ := rtMemheapRealloc_spec hinv hcall.2 hgrows
      rw [hrealloc] at hstep
      cases hstep
      refine ⟨⟨hafter.inv, hafter.startAddr.trans hstart, hafter.poolSize.trans hpool, ?_⟩,
        newPtr, rfl⟩
      rw [List.append_assoc, max?_append_eq hmax]
      exact congrArg some hafter.maxUsed.symm
    · contradiction
  | free ptr =>
    rw [step] at hstep
    split at hstep
    · next hcall =>
      rcases hcall with rfl | hptr
      · cases hstep
        refine ⟨⟨⟨tiles, free, ?_⟩, hstart, hpool, ?_⟩, 0, rfl⟩
        · rwa [hinv.erase_zero]
        · rw [max?_append_eq hmax]
          exact congrArg some hinv.follows_self.maxUsed.symm
      · obtain ⟨heap', tiles', free', hfree, hinv', hfollows, -⟩ := rtMemheapFree_spec hinv hptr
        rw [hfree] at hstep
        cases hstep
        refine ⟨⟨⟨tiles', free', hinv'⟩, hfollows.startAddr.trans hstart,
          hfollows.poolSize.trans hpool, ?_⟩, 0, rfl⟩
        rw [max?_append_eq hmax]
        exact congrArg some hfollows.maxUsed.symm
    · contradiction

theorem Sound.wellFormed {startAddr poolSize : ℕ} (hsound : Sound cfg startAddr poolSize st) :
    ∃ items free, WellFormed cfg startAddr poolSize st items free := by
  obtain ⟨⟨tiles, free, hinv⟩, rfl, rfl, hmax⟩ := hsound
  exact ⟨addresses tiles, free, hinv.wellFormed hmax⟩

/-- In every run from `rt_memheap_init` in which items grow only into enough room, the
heap is well formed in every state, and no assertion of the calls fails. -/
theorem memheap_wellFormed {self freeHeader startAddr size : ℕ} {memory : RtMemheap}
    {trace : List (Action × Event)} (henough : LargeEnough cfg freeHeader startAddr size)
    (hrun : (machine cfg).RunWith (GrowsWithin cfg)
      (initial cfg self freeHeader startAddr size memory) trace last) :
    (machine cfg).RunWith (fun st _ => ∃ items free,
        WellFormed cfg startAddr (poolSizeOf cfg size) st items free)
      (initial cfg self freeHeader startAddr size memory) trace last ∧
    (∃ items free, WellFormed cfg startAddr (poolSizeOf cfg size) last items free) ∧
      ∀ entry ∈ trace, ∃ ptr, entry.2 = .returned ptr := by
  have hfirst : Sound cfg startAddr (poolSizeOf cfg size)
      (initial cfg self freeHeader startAddr size memory) :=
    ⟨⟨_, _, rtMemheapInit_inv henough⟩, rfl, rfl, rfl⟩
  obtain ⟨hvisited, hlast⟩ := hrun.always (Sound cfg startAddr (poolSizeOf cfg size))
    (fun _ _ _ _ hsound hgrows hstep => (step_sound hsound hgrows hstep).1) hfirst
  have hreturned := hrun.traceInvariant
    (fun past st => Sound cfg startAddr (poolSizeOf cfg size) st ∧
      ∀ entry ∈ past, ∃ ptr, entry.2 = .returned ptr)
    (fun past st action next event hinv hgrows hstep => by
      obtain ⟨hsound, hevent⟩ := step_sound hinv.1 hgrows hstep
      refine ⟨hsound, fun entry hentry => ?_⟩
      rcases List.mem_append.1 hentry with hold | hnew
      · exact hinv.2 entry hold
      · obtain rfl := List.mem_singleton.1 hnew
        exact hevent)
    ⟨hfirst, by simp⟩
  exact ⟨hvisited.mono fun _ _ hsound => hsound.wellFormed, hlast.wellFormed, hreturned.2⟩

/-- Memory before any heap is made in it. -/
def blankMemory : RtMemheap :=
  ⟨0, 0, 0, 0, 0, 0, 0, fun _ => 0, fun _ => 0, fun _ => 0, fun _ => 0, fun _ => 0, fun _ => 0,
    fun _ => 0⟩

/-- A heap of 512 bytes. -/
def heap32 : State :=
  initial config32 0x100 0x140 0x1000 512 blankMemory

/-- Items are split, grown, moved, cut and joined on both sides. -/
def schedule32 : List Action :=
  [.alloc 16, .alloc 40, .realloc 0x1040 100, .realloc 0x1018 20, .realloc 0x10bc 64,
    .realloc 0x1040 24, .free 0x1040, .free 0x10bc]

theorem isSome_schedule32 :
    ((machine config32).exec (GrowsWithin config32) heap32 schedule32).isSome = true := by
  decide

theorem largeEnough32 : LargeEnough config32 0x140 0x1000 512 :=
  ⟨by decide, by decide, by decide⟩

theorem memheap_wellFormed_schedule32 :
    ∃ trace last, (machine config32).RunWith (GrowsWithin config32) heap32 trace last ∧
      trace.length = 8 ∧
      ∃ items free, WellFormed config32 0x1000 (poolSizeOf config32 512) last items free := by
  have hrun := Machine.runWith_of_isSome schedule32 isSome_schedule32
  exact ⟨_, _, hrun, by decide, (memheap_wellFormed largeEnough32 hrun).2.1⟩

theorem WellFormed.le_next_startAddr {startAddr poolSize : ℕ} {items : List ℕ}
    (hformed : WellFormed cfg startAddr poolSize st items free)
    (hroom : rtMemheapSize cfg < poolSize) :
    startAddr + rtMemheapSize cfg ≤ st.heap.next startAddr := by
  have hhead := hformed.head
  have hring := hformed.ring
  have hspaced := hformed.spaced
  obtain ⟨tail, hlast, -, htail⟩ := hformed.last
  cases items with
  | nil => exact absurd hhead (by simp)
  | cons first rest =>
    obtain rfl : first = startAddr := by simpa using hhead
    cases rest with
    | nil =>
      obtain rfl : first = tail := by simpa using hlast
      omega
    | cons second rest =>
      rw [hring.next_eq.1]
      exact (List.pairwise_cons.1 hspaced).1 second List.mem_cons_self

/-- The only payload of the heap is to grow to almost the whole address space. -/
def wrapped32 : List Action :=
  [.alloc 16, .realloc 0x1018 0xfffffff8]

theorem isSome_wrapped32 :
    ((machine config32).exec (fun _ _ => True) heap32 wrapped32).isSome = true := by
  decide

/-- The sum in the test for growing wraps around, and the new item is built inside the header
of the item that grows. -/
theorem not_wellFormed_of_wrapped_size :
    ∃ trace last, (machine config32).Run heap32 trace last ∧ trace.map Prod.fst = wrapped32 ∧
      ¬ ∃ items free, WellFormed config32 0x1000 (poolSizeOf config32 512) last items free := by
  have hrun := Machine.runWith_of_isSome wrapped32 isSome_wrapped32
  refine ⟨_, _, hrun, Machine.actions_of_isSome wrapped32 isSome_wrapped32, ?_⟩
  rintro ⟨items, free, hformed⟩
  have hle := hformed.le_next_startAddr (by decide)
  exact absurd hle (by decide)

end RtThread.Memheap
