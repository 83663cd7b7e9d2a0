import RtThread.Heap.SmallMem

set_option linter.all false

/-!
# The blocks of the small-memory heap

The headers of the heap form a chain of blocks that tile it, no two neighbours
unused.  Each edit the code makes to the headers keeps the tiling: the split of a
block, the change of a used flag, and the merges of `plug_holes`, which restore
that no two neighbours are unused around the block they are called for.
-/

namespace RtThread.SmallMem

open RtThread.Core

variable {cfg : HeapConfig}

/-- The headers from offset 0 to the closing header, and what each of them keeps. -/
structure Tiled (cfg : HeapConfig) (mem : Headers) (heapEnd : ℕ) (headers : List ℕ) :
    Prop where
  chain : (links mem).Chain 0 heapEnd headers
  prev_zero : (mem 0).prev = 0
  aligned : ∀ block ∈ headers, cfg.rtAlignSize ∣ block
  room : ∀ block ∈ headers, block ≠ heapEnd → block + cfg.sizeofStructMem < (mem block).next
  magic : ∀ block ∈ headers, (mem block).magic = heapMagic
  closed : (mem heapEnd).used ≠ 0

/-- No two neighbours are unused. -/
def Coalesced (mem : Headers) (headers : List ℕ) : Prop :=
  headers.IsChain fun block after => (mem block).used ≠ 0 ∨ (mem after).used ≠ 0

/-- `lfree` is an unused block, or the end of the heap. -/
def FreeOrEnd (mem : Headers) (heapEnd : ℕ) (headers : List ℕ) (lfree : ℕ) : Prop :=
  lfree ∈ headers ∧ (lfree = heapEnd ∨ (mem lfree).used = 0)

/-- No unused block lies below `lfree`. -/
def NoneBelow (mem : Headers) (headers : List ℕ) (lfree : ℕ) : Prop :=
  ∀ block ∈ headers, (mem block).used = 0 → lfree ≤ block

section Edits

variable {mem mem' : Headers} {heapEnd block gone after fresh : ℕ} {headers before rest : List ℕ}

theorem Coalesced.congr (hcoalesced : Coalesced mem headers)
    (hused : ∀ block ∈ headers, (mem block).used ≠ 0 → (mem' block).used ≠ 0) :
    Coalesced mem' headers :=
  hcoalesced.imp_of_mem_imp fun block after hblock hafter hused' =>
    hused'.imp (hused block hblock) (hused after hafter)

/-- A change of the used flag or of the magic number of a block. -/
theorem Tiled.congr (htiled : Tiled cfg mem heapEnd headers)
    (hlinks : ∀ block, (mem' block).next = (mem block).next ∧ (mem' block).prev = (mem block).prev)
    (hmagic : ∀ block ∈ headers, (mem' block).magic = heapMagic)
    (hclosed : (mem' heapEnd).used ≠ 0) : Tiled cfg mem' heapEnd headers where
  chain := htiled.chain.congr fun block _ => hlinks block
  prev_zero := (hlinks 0).2.trans htiled.prev_zero
  aligned := htiled.aligned
  room block hblock hne := by
    rw [(hlinks block).1]
    exact htiled.room block hblock hne
  magic := hmagic
  closed := hclosed

theorem Tiled.remove
    (htiled : Tiled cfg mem heapEnd (before ++ block :: gone :: after :: rest)) :
    Tiled cfg (setPrev (setNext mem block after) after block) heapEnd
      (before ++ block :: after :: rest) := by
  have hadjacent := (List.isChain_append_cons_cons.1 htiled.chain.adjacent).2
  have hhigh : gone < after := (List.isChain_cons_cons.1 hadjacent.2).1.2.1
  have hsubset : ∀ other ∈ before ++ block :: after :: rest,
      other ∈ before ++ block :: gone :: after :: rest :=
    fun other hother => Links.mem_insert_iff.2 (.inr hother)
  refine ⟨htiled.chain.remove ?_ ?_ ?_ ?_, ?_, fun other hother => ?_, fun other hother hne => ?_,
    fun other hother => ?_, ?_⟩
  · simp [links]
  · simp [links]
  · intro other hne
    simp [links, hne]
  · intro other hne
    simp [links, hne]
  · simp [show (0 : ℕ) ≠ after by omega, htiled.prev_zero]
  · exact htiled.aligned other (hsubset other hother)
  · have hroom := htiled.room other (hsubset other hother) hne
    by_cases hblock : other = block
    · subst hblock
      have hnext : (mem other).next = gone := hadjacent.1.1
      simp only [next_setPrev, next_setNext, if_true]
      omega
    · simpa [hblock] using hroom
  · simpa using htiled.magic other (hsubset other hother)
  · simpa using htiled.closed

theorem Tiled.insert {heap : Heap}
    (htiled : Tiled cfg heap.mem heap.heapEnd (before ++ block :: after :: rest))
    (hend : heap.heapEnd = cfg.add heap.memSizeAligned cfg.sizeofStructMem)
    (hlow : block + cfg.sizeofStructMem < fresh) (hhigh : fresh + cfg.sizeofStructMem < after)
    (haligned : cfg.rtAlignSize ∣ fresh) :
    Tiled cfg (splitBlock cfg heap block fresh) heap.heapEnd
      (before ++ block :: fresh :: after :: rest) := by
  obtain ⟨-, ⟨hnext, -, -⟩, -⟩ := List.isChain_append_cons_cons.1 htiled.chain.adjacent
  have hnext : (heap.mem block).next = after := hnext
  have hfresh : heap.heapEnd ≠ fresh := by
    have hle : after ≤ heap.heapEnd := htiled.chain.le_last (by simp)
    omega
  refine ⟨htiled.chain.insert (by omega) (by omega) ?_ ?_ ?_ ?_ ?_ ?_, ?_, fun other hother => ?_,
    fun other hother hne => ?_, fun other hother => ?_, ?_⟩
  · simp [links, next_splitBlock]
  · simp [links, next_splitBlock, hnext, show fresh ≠ block by omega]
  · simp [links, prev_splitBlock, hnext, show fresh ≠ after by omega]
  · intro hne
    rw [hend] at hne
    simp [links, prev_splitBlock, hnext, hne]
  · intro other hblock hfresh
    simp [links, next_splitBlock, hblock, hfresh]
  · intro other hafter hfresh
    simp [links, prev_splitBlock, hnext, hafter, hfresh]
  · simp [prev_splitBlock, hnext, show (0 : ℕ) ≠ after by omega, show (0 : ℕ) ≠ fresh by omega,
      htiled.prev_zero]
  · rcases Links.mem_insert_iff.1 hother with rfl | hold
    · exact haligned
    · exact htiled.aligned other hold
  · rw [next_splitBlock]
    split
    · next hblock => omega
    · split
      · next hfresh => omega
      · next hblock hfresh =>
          rcases Links.mem_insert_iff.1 hother with hsame | hold
          · exact absurd hsame hfresh
          · exact htiled.room other hold hne
  · rw [magic_splitBlock]
    split
    · rfl
    · next hfresh =>
        rcases Links.mem_insert_iff.1 hother with hsame | hold
        · exact absurd hsame hfresh
        · exact htiled.magic other hold
  · rw [used_splitBlock, if_neg hfresh]
    exact htiled.closed

end Edits

/-! ## `plug_holes` -/

/-- No operation moves the heap. -/
structure SameArea (heap heap' : Heap) : Prop where
  heapPtr : heap'.heapPtr = heap.heapPtr
  heapEnd : heap'.heapEnd = heap.heapEnd
  memSizeAligned : heap'.memSizeAligned = heap.memSizeAligned

/-- The heap after unused headers have been merged away. -/
structure Merged (cfg : HeapConfig) (heap heap' : Heap) (headers headers' : List ℕ) : Prop
    extends SameArea heap heap' where
  tiled : Tiled cfg heap'.mem heap.heapEnd headers'
  used : ∀ block, (heap'.mem block).used = (heap.mem block).used
  subset : ∀ block ∈ headers', block ∈ headers
  kept : ∀ block ∈ headers, (heap.mem block).used ≠ 0 → block ∈ headers'
  lfree : FreeOrEnd heap'.mem heap.heapEnd headers' heap'.lfree
  lfree_le : heap'.lfree ≤ heap.lfree

theorem Merged.refl {heap : Heap} {headers : List ℕ}
    (htiled : Tiled cfg heap.mem heap.heapEnd headers)
    (hlfree : FreeOrEnd heap.mem heap.heapEnd headers heap.lfree) :
    Merged cfg heap heap headers headers :=
  ⟨⟨rfl, rfl, rfl⟩, htiled, fun _ => rfl, fun _ hblock => hblock, fun _ hblock _ => hblock, hlfree,
    le_rfl⟩

theorem Merged.trans {heap heap' heap'' : Heap} {headers headers' headers'' : List ℕ}
    (hfirst : Merged cfg heap heap' headers headers')
    (hsecond : Merged cfg heap' heap'' headers' headers'') :
    Merged cfg heap heap'' headers headers'' where
  heapPtr := hsecond.heapPtr.trans hfirst.heapPtr
  heapEnd := hsecond.heapEnd.trans hfirst.heapEnd
  memSizeAligned := hsecond.memSizeAligned.trans hfirst.memSizeAligned
  tiled := hfirst.heapEnd ▸ hsecond.tiled
  used block := (hsecond.used block).trans (hfirst.used block)
  subset block hblock := hfirst.subset block (hsecond.subset block hblock)
  kept block hblock hused :=
    hsecond.kept block (hfirst.kept block hblock hused) (by rw [hfirst.used]; exact hused)
  lfree := hfirst.heapEnd ▸ hsecond.lfree
  lfree_le := hsecond.lfree_le.trans hfirst.lfree_le

section PlugHoles

variable {heap : Heap} {block gone after mem : ℕ} {before rest : List ℕ}

/-- The merge of an unused block with the unused block after it. -/
theorem merged_remove
    (htiled : Tiled cfg heap.mem heap.heapEnd (before ++ block :: gone :: after :: rest))
    (hblock : (heap.mem block).used = 0) (hgone : (heap.mem gone).used = 0)
    (hlfree : FreeOrEnd heap.mem heap.heapEnd (before ++ block :: gone :: after :: rest)
      heap.lfree) :
    Merged cfg heap
      { heap with
        lfree := if heap.lfree = gone then block else heap.lfree
        mem := setPrev (setNext heap.mem block after) after block }
      (before ++ block :: gone :: after :: rest) (before ++ block :: after :: rest) := by
  have hlt : block < gone := (List.isChain_append_cons_cons.1 htiled.chain.adjacent).2.1.2.1
  have hmem : ∀ other ∈ before ++ block :: gone :: after :: rest,
      other ≠ gone → other ∈ before ++ block :: after :: rest :=
    fun other hother => (Links.mem_insert_iff.1 hother).resolve_left
  refine ⟨⟨rfl, rfl, rfl⟩, htiled.remove, fun other => by simp,
    fun other hother => Links.mem_insert_iff.2 (.inr hother), fun other hother hused => ?_,
    ⟨?_, ?_⟩, ?_⟩
  · exact hmem other hother fun hsame => hused (hsame ▸ hgone)
  · dsimp only
    split
    · simp
    · next hne => exact hmem _ hlfree.1 hne
  · dsimp only
    split
    · exact .inr (by simpa using hblock)
    · simpa using hlfree.2
  · dsimp only
    split <;> omega

/-- The first half of `plug_holes` leaves a used header after the block. -/
theorem merged_plugHoleForward
    (htiled : Tiled cfg heap.mem heap.heapEnd (before ++ mem :: rest))
    (hmem : mem ≠ heap.heapEnd) (hunused : (heap.mem mem).used = 0)
    (hrest : Coalesced heap.mem rest)
    (hlfree : FreeOrEnd heap.mem heap.heapEnd (before ++ mem :: rest) heap.lfree) :
    ∃ rest', Merged cfg heap (plugHoleForward heap mem) (before ++ mem :: rest)
        (before ++ mem :: rest') ∧ Coalesced heap.mem (mem :: rest') := by
  obtain ⟨nmem, rest, rfl⟩ : ∃ nmem rest', rest = nmem :: rest' := by
    cases rest with
    | nil => exact absurd (by simpa using htiled.chain.getLast) hmem
    | cons nmem rest => exact ⟨nmem, rest, rfl⟩
  obtain ⟨-, ⟨hnext, hlt, -⟩, hchain⟩ := List.isChain_append_cons_cons.1 htiled.chain.adjacent
  have hnext : (heap.mem mem).next = nmem := hnext
  simp only [plugHoleForward, hnext]
  split
  · next hmerge =>
      obtain ⟨-, hgone, hend⟩ := hmerge
      cases rest with
      | nil => exact absurd (by simpa using htiled.chain.getLast) hend
      | cons after rest =>
        obtain ⟨hafter, hrest⟩ := List.isChain_cons_cons.1 hrest
        have hlink : (heap.mem nmem).next = after := (List.isChain_cons_cons.1 hchain).1.1
        rw [hlink]
        exact ⟨after :: rest, merged_remove htiled hunused hgone hlfree,
          .cons_cons (.inr (hafter.resolve_left (not_not.2 hgone))) hrest⟩
  · next hkeep =>
      have hused : (heap.mem nmem).used ≠ 0 := by
        by_cases hend : nmem = heap.heapEnd
        · rw [hend]
          exact htiled.closed
        · exact fun hzero => hkeep ⟨hlt.ne, hzero, hend⟩
      exact ⟨nmem :: rest, Merged.refl htiled hlfree, .cons_cons (.inr hused) hrest⟩

/-- The second half of `plug_holes` leaves a used header before the block, or merges
the block with the one before it. -/
theorem merged_plugHoleBackward
    (htiled : Tiled cfg heap.mem heap.heapEnd (before ++ mem :: rest))
    (hmem : mem ≠ heap.heapEnd) (hunused : (heap.mem mem).used = 0)
    (hbefore : Coalesced heap.mem before) (hrest : Coalesced heap.mem (mem :: rest))
    (hlfree : FreeOrEnd heap.mem heap.heapEnd (before ++ mem :: rest) heap.lfree) :
    ∃ headers', Merged cfg heap (plugHoleBackward heap mem) (before ++ mem :: rest) headers' ∧
      Coalesced heap.mem headers' ∧
      ((∀ previous ∈ before.getLast?, (heap.mem previous).used ≠ 0) → mem ∈ headers') := by
  rcases List.eq_nil_or_concat before with rfl | ⟨before, previous, rfl⟩
  · -- the first block of the heap is its own predecessor
    obtain rfl : mem = 0 := by simpa using htiled.chain.head
    have hkeep : plugHoleBackward heap 0 = heap := by
      simp [plugHoleBackward, htiled.prev_zero]
    rw [hkeep]
    exact ⟨0 :: rest, Merged.refl htiled hlfree, hrest, fun _ => by simp⟩
  · rw [List.concat_eq_append] at hbefore
    rw [List.concat_eq_append, List.append_assoc, List.singleton_append] at htiled hlfree ⊢
    obtain ⟨-, ⟨-, hlt, hprev⟩, hchain⟩ := List.isChain_append_cons_cons.1 htiled.chain.adjacent
    have hprev : (heap.mem mem).prev = previous := hprev hmem
    simp only [plugHoleBackward, hprev]
    split
    · next hmerge =>
        obtain ⟨-, hprevious⟩ := hmerge
        cases rest with
        | nil => exact absurd (by simpa using htiled.chain.getLast) hmem
        | cons after rest =>
          obtain ⟨hafter, hrest⟩ := List.isChain_cons_cons.1 hrest
          have hlink : (heap.mem mem).next = after := (List.isChain_cons_cons.1 hchain).1.1
          rw [hlink]
          refine ⟨_, merged_remove htiled hprevious hunused hlfree,
            List.isChain_append_cons_cons.2
              ⟨hbefore, .inr (hafter.resolve_left (not_not.2 hunused)), hrest⟩, fun hused => ?_⟩
          exact absurd hprevious (hused previous (by simp))
    · next hkeep =>
        have hused : (heap.mem previous).used ≠ 0 := fun hzero => hkeep ⟨hlt.ne, hzero⟩
        exact ⟨_, Merged.refl htiled hlfree,
          List.isChain_append_cons_cons.2 ⟨hbefore, .inl hused, hrest⟩, fun _ => by simp⟩

/-- `plug_holes` moves `lfree` only off a header that it merges away. -/
theorem lfree_plugHole (hmem : heap.lfree ≠ mem)
    (hnext : heap.lfree ≠ (heap.mem mem).next ∨ heap.lfree = heap.heapEnd) :
    (plugHoleBackward (plugHoleForward heap mem) mem).lfree = heap.lfree := by
  have hforward : (plugHoleForward heap mem).lfree = heap.lfree := by
    simp only [plugHoleForward, apply_ite Heap.lfree]
    split_ifs with hmerge hgone
    · exact absurd (hgone ▸ hnext.resolve_left (not_not.2 hgone)) hmerge.2.2
    · rfl
    · rfl
  simp only [plugHoleBackward, apply_ite Heap.lfree, hforward, if_neg hmem, ite_self]

/-- `plug_holes`, for an unused block whose neighbours may be unused too. -/
theorem plugHoles_spec
    (htiled : Tiled cfg heap.mem heap.heapEnd (before ++ mem :: rest))
    (hmem : mem ≠ heap.heapEnd) (hunused : (heap.mem mem).used = 0)
    (hbefore : Coalesced heap.mem before) (hrest : Coalesced heap.mem rest)
    (hlfree : FreeOrEnd heap.mem heap.heapEnd (before ++ mem :: rest) heap.lfree) :
    ∃ heap' headers', plugHoles heap mem = .ok heap' ∧
      Merged cfg heap heap' (before ++ mem :: rest) headers' ∧ Coalesced heap'.mem headers' ∧
      ((∀ previous ∈ before.getLast?, (heap.mem previous).used ≠ 0) → mem ∈ headers') ∧
      (heap.lfree ≠ mem → heap.lfree ≠ (heap.mem mem).next ∨ heap.lfree = heap.heapEnd →
        heap'.lfree = heap.lfree) ∧
      (heap.lfree = (heap.mem mem).next → heap.lfree ≠ heap.heapEnd → heap'.lfree ≤ mem) := by
  have hlt : mem < heap.heapEnd := lt_of_le_of_ne (htiled.chain.le_last (by simp)) hmem
  obtain ⟨rest', hforward, hcoalesced⟩ := merged_plugHoleForward htiled hmem hunused hrest hlfree
  have hused := hforward.used
  obtain ⟨headers', hbackward, hcoalesced', hkept⟩ :=
    merged_plugHoleBackward (hforward.heapEnd.symm ▸ hforward.tiled)
      (hforward.heapEnd.symm ▸ hmem) (by rw [hused]; exact hunused)
      (hbefore.congr fun block _ => by rw [hused]; exact id)
      (hcoalesced.congr fun block _ => by rw [hused]; exact id)
      (hforward.heapEnd.symm ▸ hforward.lfree)
  refine ⟨_, headers', ?_, hforward.trans hbackward, ?_, fun hprevious => hkept ?_,
    lfree_plugHole, fun hnext hend => ?_⟩
  · rw [plugHoles, rtAssert_bind hlt, rtAssert_bind hunused]
    rfl
  · exact hcoalesced'.congr fun block _ => by rw [hbackward.used]; exact id
  · intro previous hlast
    rw [hused]
    exact hprevious previous hlast
  · have hmoved : (plugHoleForward heap mem).lfree = mem := by
      have hlast : (links heap.mem).next mem = heap.lfree := hnext.symm
      have hmerge : mem ≠ heap.lfree ∧ (heap.mem heap.lfree).used = 0 ∧
          heap.lfree ≠ heap.heapEnd :=
        ⟨hlast ▸ (htiled.chain.lt_next (by simp) hmem).ne, hlfree.2.resolve_left hend, hend⟩
      simp only [plugHoleForward, ← hnext, if_pos hmerge, if_true]
    exact hbackward.lfree_le.trans_eq hmoved

end PlugHoles

end RtThread.SmallMem
