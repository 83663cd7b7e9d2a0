import RtThread.Pool.MemPool

set_option linter.all false

/-!
# The blocks of a memory pool

However the allocators and the threads that free blocks interleave, the free list and the
blocks that are held make up the pool, and the counter of free blocks is the length of the
free list.  The word in front of a held block is the address of the pool, which is how
`rt_mp_free` finds it.
-/

namespace RtThread.MemPool

open Function
open RtThread.Core
open RtThread.Kernel
open RtThread.Mailbox
open RtThread.SmallMem

variable {Tid : Type*} {cfg : HeapConfig}

/-- `RT_NULL` is no block. -/
def toBlock (address : ℕ) : Option ℕ :=
  if address = 0 then none else some address

/-- The link in front of a free block. -/
def RtMempool.next (mp : RtMempool Tid) (block : ℕ) : Option ℕ :=
  toBlock (mp.word block)

/-- The address of the block with a number. -/
def blockAt (cfg : HeapConfig) (mp : RtMempool Tid) (offset : ℕ) : ℕ :=
  mp.startAddress + offset * (mp.blockSize + sizeofPtr cfg)

def blocks (cfg : HeapConfig) (mp : RtMempool Tid) : List ℕ :=
  (List.range mp.blockTotalCount).map (blockAt cfg mp)

/-- The blocks lie inside the pool, at distinct multiples of the block size and the size of
a pointer; `free` is the free list and the counter its length; and every block is either
free or held by one successful `rt_mp_alloc`. -/
structure Conserved (cfg : HeapConfig) (st : State Tid) (free : List ℕ) : Prop where
  chain : Chain st.mp.next (toBlock st.mp.blockList) free
  count : st.mp.blockFreeCount = free.length
  distinct : (blocks cfg st.mp).Nodup
  offset : ∀ block ∈ blocks cfg st.mp, st.mp.startAddress ≤ block ∧
    st.mp.blockSize + sizeofPtr cfg ∣ block - st.mp.startAddress
  inside : ∀ block ∈ blocks cfg st.mp,
    block + sizeofPtr cfg + st.mp.blockSize ≤ st.mp.startAddress + st.mp.size
  free_or_held : ∀ block ∈ blocks cfg st.mp,
    free.count block = 1 ∧ block + sizeofPtr cfg ∉ st.held ∨
      block ∉ free ∧ st.held.count (block + sizeofPtr cfg) = 1
  free_mem : ∀ block ∈ free, block ∈ blocks cfg st.mp
  held_mem : ∀ pointer ∈ st.held, ∃ block ∈ blocks cfg st.mp,
    pointer = block + sizeofPtr cfg

/-! ## The invariant -/

/-- The fields of the pool that `rt_mp_init` sets once. -/
structure Geometry (cfg : HeapConfig) (mp : RtMempool Tid) : Prop where
  start_pos : 0 < mp.startAddress
  fits : mp.blockTotalCount * (mp.blockSize + sizeofPtr cfg) ≤ mp.size

structure Inv (cfg : HeapConfig) (mp : RtMempool Tid) (mpAddress : ℕ) (held free : List ℕ) :
    Prop where
  geometry : Geometry cfg mp
  chain : Chain mp.next (toBlock mp.blockList) free
  count : mp.blockFreeCount = free.length
  parts : (free.map (· + sizeofPtr cfg) ++ held).Perm
    ((blocks cfg mp).map (· + sizeofPtr cfg))
  owner : ∀ pointer ∈ held, mp.word (pointer - sizeofPtr cfg) = mpAddress

theorem sizeofPtr_pos : 0 < sizeofPtr cfg := by
  rw [sizeofPtr]
  split <;> norm_num

theorem nodup_blocks (mp : RtMempool Tid) : (blocks cfg mp).Nodup := by
  refine List.nodup_range.map fun left right heq => ?_
  have hpos : 0 < mp.blockSize + sizeofPtr cfg := Nat.add_pos_right _ sizeofPtr_pos
  rw [blockAt, blockAt] at heq
  exact Nat.eq_of_mul_eq_mul_right hpos (Nat.add_left_cancel heq)

theorem blocks_pos {mp : RtMempool Tid} (hgeometry : Geometry cfg mp) {block : ℕ}
    (hblock : block ∈ blocks cfg mp) : block ≠ 0 := by
  obtain ⟨offset, -, rfl⟩ := List.mem_map.1 hblock
  have hpos := hgeometry.start_pos
  rw [blockAt]
  omega

theorem blocks_inside {mp : RtMempool Tid} (hgeometry : Geometry cfg mp) {block : ℕ}
    (hblock : block ∈ blocks cfg mp) :
    block + sizeofPtr cfg + mp.blockSize ≤ mp.startAddress + mp.size := by
  obtain ⟨offset, hoffset, rfl⟩ := List.mem_map.1 hblock
  have hlt : offset + 1 ≤ mp.blockTotalCount := List.mem_range.1 hoffset
  have hle := (Nat.mul_le_mul_right (mp.blockSize + sizeofPtr cfg) hlt).trans hgeometry.fits
  rw [Nat.add_one_mul] at hle
  rw [blockAt]
  omega

section Parts

variable {mp : RtMempool Tid} {mpAddress : ℕ} {held free : List ℕ}

theorem Inv.nodup (hinv : Inv cfg mp mpAddress held free) :
    (free.map (· + sizeofPtr cfg) ++ held).Nodup :=
  hinv.parts.nodup_iff.2 ((nodup_blocks mp).map (add_left_injective (sizeofPtr cfg)))

theorem Inv.nodup_free (hinv : Inv cfg mp mpAddress held free) : free.Nodup :=
  List.Nodup.of_map _ hinv.nodup.of_append_left

theorem Inv.free_mem (hinv : Inv cfg mp mpAddress held free) {block : ℕ}
    (hblock : block ∈ free) : block ∈ blocks cfg mp := by
  have hmem : block + sizeofPtr cfg ∈ (blocks cfg mp).map (· + sizeofPtr cfg) :=
    hinv.parts.mem_iff.1 (List.mem_append_left _ (List.mem_map_of_mem hblock))
  simpa using hmem

theorem Inv.held_mem (hinv : Inv cfg mp mpAddress held free) {pointer : ℕ}
    (hheld : pointer ∈ held) : ∃ block ∈ blocks cfg mp, pointer = block + sizeofPtr cfg := by
  have hmem : pointer ∈ (blocks cfg mp).map (· + sizeofPtr cfg) :=
    hinv.parts.mem_iff.1 (List.mem_append_right _ hheld)
  obtain ⟨block, hblock, hpointer⟩ := List.mem_map.1 hmem
  exact ⟨block, hblock, hpointer.symm⟩

theorem Inv.not_held (hinv : Inv cfg mp mpAddress held free) {block : ℕ}
    (hblock : block ∈ free) : block + sizeofPtr cfg ∉ held :=
  (List.nodup_append'.1 hinv.nodup).2.2 (List.mem_map_of_mem hblock)

theorem Inv.not_free (hinv : Inv cfg mp mpAddress held free) {block : ℕ}
    (hheld : block + sizeofPtr cfg ∈ held) : block ∉ free :=
  fun hblock => hinv.not_held hblock hheld

theorem Inv.conserved {st : State Tid}
    (hinv : Inv cfg st.mp st.mpAddress st.held free) :
    Conserved cfg st free where
  chain := hinv.chain
  count := hinv.count
  distinct := nodup_blocks st.mp
  offset block hblock := by
    obtain ⟨offset, -, rfl⟩ := List.mem_map.1 hblock
    refine ⟨Nat.le_add_right _ _, ?_⟩
    rw [blockAt, Nat.add_sub_cancel_left]
    exact Nat.dvd_mul_left _ _
  inside block hblock := blocks_inside hinv.geometry hblock
  free_or_held block hblock := by
    have hmem : block + sizeofPtr cfg ∈ free.map (· + sizeofPtr cfg) ++ st.held :=
      hinv.parts.mem_iff.2 (List.mem_map_of_mem hblock)
    rcases List.mem_append.1 hmem with hfree | hheld
    · have hfree : block ∈ free := by simpa using hfree
      exact .inl ⟨List.count_eq_one_of_mem hinv.nodup_free hfree, hinv.not_held hfree⟩
    · exact .inr ⟨hinv.not_free hheld,
        List.count_eq_one_of_mem hinv.nodup.of_append_right hheld⟩
  free_mem block hblock := hinv.free_mem hblock
  held_mem pointer hheld := hinv.held_mem hheld

end Parts

/-! ## The operations -/

section Operations

variable {mp : RtMempool Tid} {mpAddress : ℕ} {held free : List ℕ} {block : ℕ}

theorem toBlock_update (word : ℕ → ℕ) (block value : ℕ) :
    (fun other => toBlock (update word block value other)) =
      update (fun other => toBlock (word other)) block (toBlock value) := by
  funext other
  by_cases hother : other = block
  · simp [hother]
  · simp [hother]

theorem toBlock_of_ne (hblock : block ≠ 0) : toBlock block = some block :=
  if_neg hblock

theorem Inv.take (hinv : Inv cfg mp mpAddress held free) (hcount : mp.blockFreeCount ≠ 0) :
    mp.blockList ≠ 0 ∧ ∃ rest, Inv cfg
      { mp with
        blockFreeCount := mp.blockFreeCount - 1
        blockList := mp.word mp.blockList
        word := update mp.word mp.blockList mpAddress }
      mpAddress ((mp.blockList + sizeofPtr cfg) :: held) rest := by
  cases free with
  | nil => exact absurd hinv.count hcount
  | cons first rest =>
    have hblock : first ≠ 0 := blocks_pos hinv.geometry (hinv.free_mem List.mem_cons_self)
    have hfirst : mp.blockList = first := by
      have hhead : toBlock mp.blockList = some first := hinv.chain.1
      rw [toBlock] at hhead
      split at hhead
      · contradiction
      · exact Option.some.inj hhead
    subst hfirst
    have hnot : mp.blockList ∉ rest := (List.nodup_cons.1 hinv.nodup_free).1
    refine ⟨hblock, rest, ⟨hinv.geometry.start_pos, hinv.geometry.fits⟩, ?_, ?_, ?_, ?_⟩
    · change Chain (fun other => toBlock (update mp.word _ _ other)) _ _
      rw [toBlock_update]
      exact hinv.chain.2.update_of_not_mem _ hnot
    · rw [hinv.count]
      rfl
    · refine List.Perm.trans ?_ hinv.parts
      simp
    · intro pointer hpointer
      dsimp only
      rcases List.mem_cons.1 hpointer with rfl | hheld
      · rw [Nat.add_sub_cancel, update_self]
      · have hne : pointer - sizeofPtr cfg ≠ mp.blockList := by
          obtain ⟨other, -, rfl⟩ := hinv.held_mem hheld
          rw [Nat.add_sub_cancel]
          rintro rfl
          exact hinv.not_held List.mem_cons_self hheld
        rw [update_of_ne hne]
        exact hinv.owner pointer hheld

/-- A held block is linked in front of the free list. -/
theorem Inv.link (hinv : Inv cfg mp mpAddress held free)
    (hheld : block + sizeofPtr cfg ∈ held) :
    Inv cfg (linkFree mp block) mpAddress (held.erase (block + sizeofPtr cfg))
      (block :: free) := by
  obtain ⟨other, hother, heq⟩ := hinv.held_mem hheld
  obtain rfl : block = other := Nat.add_right_cancel heq
  refine ⟨⟨hinv.geometry.start_pos, hinv.geometry.fits⟩, ?_, ?_, ?_, fun pointer hpointer => ?_⟩
  · change Chain (fun other => toBlock (update mp.word _ _ other)) (toBlock block) _
    rw [toBlock_update, toBlock_of_ne (blocks_pos hinv.geometry hother)]
    exact hinv.chain.push (hinv.not_free hheld)
  · rw [linkFree, hinv.count, List.length_cons]
  · refine List.Perm.trans ?_ hinv.parts
    have hback := (List.perm_cons_erase hheld).symm
    simpa using List.perm_middle.symm.trans (hback.append_left _)
  · have hnodup := hinv.nodup.of_append_right
    obtain ⟨hne, hmem⟩ := (hnodup.mem_erase_iff).1 hpointer
    obtain ⟨other, -, rfl⟩ := hinv.held_mem hmem
    have hblock : other ≠ block := fun hsame => hne (by rw [hsame])
    have howner := hinv.owner _ hmem
    rw [Nat.add_sub_cancel] at howner ⊢
    dsimp only [linkFree]
    rw [update_of_ne hblock]
    exact howner

/-- What happens to the waiters does not concern the blocks. -/
theorem Inv.of_waiters (hinv : Inv cfg mp mpAddress held free) (waiters : List Tid)
    (count : ℕ) : Inv cfg { mp with suspendThread := waiters, suspendThreadCount := count }
      mpAddress held free :=
  ⟨⟨hinv.geometry.start_pos, hinv.geometry.fits⟩, hinv.chain, hinv.count, hinv.parts,
    hinv.owner⟩

end Operations

/-! ## Runs -/

section Runs

variable [DecidableEq Tid]

def BlocksInv (cfg : HeapConfig) (st : State Tid) : Prop :=
  ∃ free, Inv cfg st.mp st.mpAddress st.held free

theorem blocksInv_allocTurn {st : State Tid} (hinv : BlocksInv cfg st) (tid : Tid)
    (time : ℤ) : BlocksInv cfg (allocTurn cfg st tid time).1 := by
  obtain ⟨free, hfree⟩ := hinv
  rw [allocTurn]
  split
  · split
    · exact ⟨free, hfree⟩
    · exact ⟨free, hfree.of_waiters _ _⟩
  · next hcount =>
      obtain ⟨hblock, rest, hrest⟩ := hfree.take hcount
      rw [takeBlock, if_neg hblock]
      exact ⟨rest, hrest⟩

theorem blocksInv_resumeWaiter {st : State Tid} (hinv : BlocksInv cfg st) :
    BlocksInv cfg (resumeWaiter st).1 := by
  obtain ⟨free, hfree⟩ := hinv
  rw [resumeWaiter]
  split
  · exact ⟨free, hfree⟩
  · split
    · exact ⟨free, hfree.of_waiters _ _⟩
    · exact ⟨free, hfree.of_waiters _ _⟩

theorem blocksInv_rtMpFree {st : State Tid} (hinv : BlocksInv cfg st) {block : ℕ}
    (hblock : block = 0 ∨ block ∈ st.held) :
    BlocksInv cfg (rtMpFree cfg st block).1 := by
  rw [rtMpFree]
  split
  · exact hinv
  · next hne =>
      obtain ⟨free, hfree⟩ := hinv
      have hheld : block ∈ st.held := hblock.resolve_left hne
      obtain ⟨other, -, rfl⟩ := hfree.held_mem hheld
      have hlinked := hfree.link hheld
      rw [if_pos (hfree.owner _ hheld), Nat.add_sub_cancel]
      exact blocksInv_resumeWaiter ⟨_, hlinked⟩

theorem step_blocksInv {st next : State Tid} {act : Action Tid} {event : Event Tid}
    (hinv : BlocksInv cfg st) (hstep : step cfg st act = some (next, event)) :
    BlocksInv cfg next := by
  cases act with
  | alloc tid time =>
    simp only [step, Option.ite_none_right_eq_some, Option.some.injEq] at hstep
    have hturn := blocksInv_allocTurn hinv tid time
    rw [rtMpAlloc] at hstep
    rwa [hstep.2] at hturn
  | free block =>
    simp only [step, Option.ite_none_right_eq_some, Option.some.injEq] at hstep
    have hfreed := blocksInv_rtMpFree hinv hstep.1
    rwa [hstep.2] at hfreed
  | timeout tid =>
    simp only [step, Option.ite_none_right_eq_some, Option.some.injEq, Prod.mk.injEq] at hstep
    obtain ⟨free, hfree⟩ := hinv
    rw [← hstep.2.1]
    exact ⟨free, hfree.of_waiters _ _⟩
  | resume tid =>
    simp only [step, afterSchedule] at hstep
    split at hstep
    · split at hstep
      · contradiction
      · split at hstep <;>
        · simp only [Option.some.injEq, Prod.mk.injEq] at hstep
          rw [← hstep.1]
          exact hinv
    · contradiction
  | retry tid =>
    simp only [step, afterWakeup, Option.ite_none_right_eq_some] at hstep
    obtain ⟨-, hstep⟩ := hstep
    split at hstep
    · next time _ =>
        have hturn := blocksInv_allocTurn hinv tid time
        rwa [Option.some.inj hstep] at hturn
    · contradiction
  | tick =>
    simp only [step, Option.some.injEq, Prod.mk.injEq] at hstep
    rw [← hstep.1]
    exact hinv

end Runs

/-! ## `rt_mp_init` -/

section Init

variable {word : ℕ → ℕ} {start gap : ℕ}

theorem linkBlocks_apply (hgap : 0 < gap) (word : ℕ → ℕ) (start : ℕ) {total offset : ℕ}
    (hoffset : offset < total) :
    linkBlocks word start gap total (start + offset * gap) = start + (offset + 1) * gap := by
  induction total with
  | zero => omega
  | succ total ih =>
    rw [linkBlocks]
    by_cases hsame : offset = total
    · rw [hsame, update_self]
    · have hne : start + offset * gap ≠ start + total * gap := by
        intro heq
        exact hsame (Nat.eq_of_mul_eq_mul_right hgap (Nat.add_left_cancel heq))
      rw [update_of_ne hne]
      exact ih (by omega)

/-- Following the links visits the blocks in the order of their addresses. -/
theorem chain_linkBlocks (hgap : 0 < gap) (hstart : 0 < start) (word : ℕ → ℕ) {total : ℕ} :
    ∀ {count offset : ℕ}, offset + count = total → 0 < count →
      Chain (fun block => toBlock (update (linkBlocks word start gap total)
          (start + (total - 1) * gap) 0 block))
        (some (start + offset * gap))
        ((List.range' offset count).map fun index => start + index * gap) := by
  intro count
  induction count with
  | zero =>
    intro offset _ hpos
    omega
  | succ count ih =>
    intro offset htotal _
    refine ⟨rfl, ?_⟩
    by_cases hlast : count = 0
    · -- the last block ends the list
      subst hlast
      obtain rfl : offset = total - 1 := by omega
      simp [toBlock, Chain]
    · have hne : start + offset * gap ≠ start + (total - 1) * gap := by
        intro heq
        have hoffset := Nat.eq_of_mul_eq_mul_right hgap (Nat.add_left_cancel heq)
        omega
      have hnext := @ih (offset + 1) (by omega) (by omega)
      have hlink : toBlock (start + (offset + 1) * gap) = some (start + (offset + 1) * gap) :=
        toBlock_of_ne (by omega)
      dsimp only
      rw [update_of_ne hne, linkBlocks_apply hgap word start (by omega), hlink]
      exact hnext

theorem rtMpInit_inv {threads : Tid → Thread} {tick mpAddress size blockSize : ℕ}
    {st : State Tid}
    (hblock : cfg.rtAlign blockSize + sizeofPtr cfg ≤ cfg.rtAlignDown size)
    (hinit : rtMpInit cfg threads tick mpAddress word start size blockSize = some st) :
    BlocksInv cfg st := by
  have hword := cfg.rtAlignDown_lt size
  have hstride : stride cfg (cfg.rtAlign blockSize) =
      cfg.rtAlign blockSize + sizeofPtr cfg := cfg.add_eq (by omega)
  have hpos : 0 < cfg.rtAlign blockSize + sizeofPtr cfg :=
    Nat.add_pos_right _ sizeofPtr_pos
  rw [rtMpInit, hstride] at hinit
  split at hinit
  · contradiction
  · next hguard =>
      rw [not_or, not_or, not_or] at hguard
      obtain ⟨hstart, -, -, htotal⟩ := hguard
      have hstart : 0 < start := Nat.pos_of_ne_zero hstart
      rw [Option.some.injEq] at hinit
      subst hinit
      have hchain := chain_linkBlocks hpos hstart word (Nat.zero_add _) (Nat.pos_of_ne_zero htotal)
      rw [Nat.zero_mul, Nat.add_zero] at hchain
      rw [← toBlock_of_ne hstart.ne'] at hchain
      refine ⟨_, ⟨hstart, Nat.div_mul_le_self _ _⟩, hchain, ?_, List.Perm.of_eq ?_, by simp⟩
      · simp
      · simp [blocks, blockAt, List.range_eq_range']

end Init

/-- A 32-bit build with `RT_ALIGN_SIZE` four. -/
def poolConfig : HeapConfig where
  archCpu64bit := false
  usingMemtrace := false
  alignLog := 2
  alignLog_le := by norm_num

/-- A fresh pool of two blocks of eight bytes. -/
def twoBlocks : State ℕ :=
  (rtMpInit poolConfig (fun _ => Thread.started 10) 0 64 (fun _ => 0) 100 25 7).get rfl

/-- The third thread waits and is woken, finds the block stolen and waits again. -/
def stolenBlock : List (Action ℕ) :=
  [.alloc 0 0, .alloc 1 0, .alloc 2 10, .tick, .free 104, .alloc 3 0, .resume 2, .retry 2,
    .free 116, .resume 2, .retry 2]

theorem isSome_stolenBlock :
    ((machine poolConfig).exec (fun _ _ => True) twoBlocks stolenBlock).isSome = true := by
  decide

end RtThread.MemPool
