import RtThread.Finsh.HeapLists

set_option linter.all false

/-!
# The invariant of the shell heap

The blocks of both lists fill the heap, and the last block is always free.  It is this block that
makes the stale pointer of a removed block harmless: no other block is ever inserted at the end of
the free list.
-/

namespace RtThread.Finsh

open Function
open RtThread.Core RtThread.Core.Tile
open RtThread.Ringbuffer (copyIn copyOut)

def HeapList.used : HeapList → Bool
  | .free => false
  | .allocate => true

/-- The blocks of a list, in the order of their addresses. -/
def cellsIn (blocks : List Tile) (list : HeapList) : List ℕ :=
  inState list.used blocks

/-- The blocks, in the order of their addresses. -/
structure Tiling (cfg : HeapConfig) (heap : FinshHeap) (blocks : List Tile) : Prop where
  lists : Lists heap (cellsIn blocks)
  filled : Filled cfg.headerSize heap.length 0 blocks cfg.heapMax
  last : ∃ front address, blocks = front ++ [⟨address, false⟩]

variable {cfg : HeapConfig} {heap : FinshHeap} {before rest blocks : List Tile}
  {header size node : ℕ}

theorem Tiling.length_le (htiling : Tiling cfg heap blocks) :
    blocks.length ≤ cfg.heapMax := by
  have hroom := htiling.filled.length_mul_le
  have hpos := cfg.headerSize_pos
  have hmul : blocks.length * 1 ≤ blocks.length * cfg.headerSize := Nat.mul_le_mul_left _ hpos
  omega

theorem inState_length_le (used : Bool) (tiles : List Tile) :
    (inState used tiles).length ≤ tiles.length := by
  have hle := (inState_sublist used tiles).length_le
  rwa [addresses, List.length_map] at hle

/-- What lies in front of a block and behind it. -/
structure Around (cfg : HeapConfig) (heap : FinshHeap) (before rest : List Tile)
    (header : ℕ) : Prop where
  before : ∀ used, ∀ block ∈ inState used before, block + cfg.headerSize ≤ header
  rest : ∀ used, ∀ block ∈ inState used rest,
    header + cfg.headerSize + heap.length header ≤ block

theorem around_of_filled {used : Bool} (hfilled : Filled cfg.headerSize heap.length 0
    (before ++ ⟨header, used⟩ :: rest) cfg.heapMax) :
    Around cfg heap before rest header := by
  obtain ⟨hbefore, hrest⟩ := filled_middle.1 hfilled
  refine ⟨fun used block hmem => ?_, fun used block hmem => ?_⟩
  · have := (hbefore.bounds_of_mem hmem).2
    dsimp only at this
    omega
  · exact (hrest.bounds_of_mem hmem).1

theorem before_length_le {tile : Tile} (htiling : Tiling cfg heap (before ++ tile :: rest))
    (used : Bool) : (inState used before).length ≤ cfg.heapMax := by
  have hle := htiling.length_le
  have hcells := inState_length_le used before
  rw [List.length_append] at hle
  omega

/-! ## Taking a block -/

theorem cellsIn_around (list : HeapList) {used : Bool} :
    cellsIn (before ++ ⟨header, used⟩ :: rest) list =
    if used = list.used then inState list.used before ++ header :: inState list.used rest
    else inState list.used before ++ inState list.used rest := by
  rw [cellsIn, inState_append]
  split_ifs with hused
  · rw [hused, inState_cons_self]
  · rw [inState_cons_of_ne hused]

/-- A block in the middle of a free one is in no list. -/
theorem Around.fresh {fresh : ℕ} {used : Bool} (haround : Around cfg heap before rest header)
    (hpos : 0 < cfg.headerSize) (hlow : header < fresh)
    (hhigh : fresh < header + cfg.headerSize + heap.length header) (list : HeapList) :
    fresh ∉ cellsIn (before ++ ⟨header, used⟩ :: rest) list := by
  intro hmem
  rw [cellsIn, mem_inState, List.mem_append, List.mem_cons] at hmem
  rcases hmem with hmem | heq | hmem
  · have := haround.before list.used fresh (mem_inState.2 hmem)
    omega
  · have : fresh = header := congrArg Tile.address heq
    omega
  · have := haround.rest list.used fresh (mem_inState.2 hmem)
    omega

theorem filled_split {length : ℕ → ℕ} {fresh : ℕ}
    (hfilled : Filled cfg.headerSize heap.length 0 (before ++ ⟨header, false⟩ :: rest)
      cfg.heapMax) (hfits : size + cfg.headerSize ≤ heap.length header)
    (hfresh : header + cfg.headerSize + size = fresh)
    (hlength : length = update (update heap.length fresh
      (heap.length header - cfg.headerSize - size)) header size) :
    Filled cfg.headerSize length 0 (before ++ ⟨header, true⟩ :: ⟨fresh, false⟩ :: rest)
      cfg.heapMax := by
  have hpos := cfg.headerSize_pos
  obtain ⟨hleft, hright⟩ := filled_middle.1 hfilled
  dsimp only at hleft hright
  have hkept : ∀ block, block ≠ header → block ≠ fresh → length block = heap.length block := by
    intro block hheader hne
    rw [hlength, update_of_ne hheader, update_of_ne hne]
  have hself : length header = size := by rw [hlength, update_self]
  have htail : length fresh = heap.length header - cfg.headerSize - size := by
    rw [hlength, update_of_ne (by omega), update_self]
  refine filled_middle.2 ⟨hleft.congr fun tile hmem => ?_, ?_, ?_⟩
  · have := (hleft.bounds hmem).2
    exact hkept _ (by omega) (by omega)
  · dsimp only
    omega
  · have hend : header + cfg.headerSize + length header + cfg.headerSize +
        length (header + cfg.headerSize + length header) =
          header + cfg.headerSize + heap.length header := by
      rw [hself, hfresh, htail]
      omega
    rw [hend]
    refine hright.congr fun tile hmem => ?_
    have := (hright.bounds hmem).1
    exact hkept _ (by omega) (by omega)

theorem takeBlock_spec (htiling : Tiling cfg heap (before ++ ⟨header, false⟩ :: rest))
    (hfits : size + cfg.headerSize ≤ heap.length header) :
    ∃ after, takeBlock cfg heap header size = some after ∧
      Tiling cfg after
        (before ++ ⟨header, true⟩ :: ⟨header + cfg.headerSize + size, false⟩ :: rest) ∧
      after.length = update (update heap.length
        (header + cfg.headerSize + size) (heap.length header - cfg.headerSize - size))
          header size ∧
      after.data = copyIn heap.data (header + cfg.headerSize) (List.replicate size 0) := by
  have hpos := cfg.headerSize_pos
  have haround := around_of_filled htiling.filled
  have hbefore := before_length_le htiling
  generalize hfresh : header + cfg.headerSize + size = fresh
  have hnew := @Around.fresh cfg heap before rest header fresh false haround hpos (by omega)
    (by omega)
  have hlt : ∀ used, ∀ block ∈ inState used before, block < header := fun used block hmem => by
    have := haround.before used block hmem
    omega
  have hgt : ∀ used, ∀ block ∈ inState used rest, header < block := fun used block hmem => by
    have := haround.rest used block hmem
    omega
  obtain ⟨hsplit, hlength, hdata⟩ :=
    finshBlockSplit_spec htiling.lists (cellsIn_around .free) hfresh hnew
  obtain ⟨removed, hremove, hlists, hsame⟩ := finshBlockRemove_spec hsplit
    (update_self ..) (hbefore false)
  rw [update_idem] at hlists
  -- the block is in no list now, and its pointer is cleared before it enters the other one
  have hgone : ∀ list, header ∉ update (cellsIn (before ++ ⟨header, false⟩ :: rest)) .free
      (inState false before ++ fresh :: inState false rest) list := by
    have hnot : ∀ used, header ∉ inState used before ∧ header ∉ inState used rest := fun used =>
      ⟨fun hmem => (hlt used header hmem).false, fun hmem => (hgt used header hmem).false⟩
    have hne : header ≠ fresh := by omega
    intro list
    cases list with
    | free => simp [hnot, hne]
    | allocate => simp [cellsIn_around, HeapList.used, hnot]
  have hcells : update (cellsIn (before ++ ⟨header, false⟩ :: rest)) .free
      (inState false before ++ fresh :: inState false rest) .allocate =
        inState true before ++ inState true rest := by
    rw [update_of_ne (by decide), cellsIn_around]
    rfl
  obtain ⟨inserted, hinsert, hafter, hsame'⟩ := finshBlockInsert_spec (hlists.setNext hgone none)
    hcells (hlt true) (hgt true) hgone (fun _ => by simp) (hbefore true)
  have hlengths : inserted.length = update (update heap.length fresh
      (heap.length header - cfg.headerSize - size)) header size := by
    rw [hsame'.length, length_setNext, hsame.length, hlength]
  refine ⟨{ inserted with
    data := copyIn inserted.data (header + cfg.headerSize) (List.replicate size 0) }, ?_, ?_,
    ?_, ?_⟩
  · rw [takeBlock, hremove]
    simp only [Option.bind_eq_bind, Option.bind_some, hinsert]
    rfl
  · refine ⟨?_, filled_split htiling.filled hfits hfresh hlengths, ?_⟩
    · have hlists' : update (update
          (cellsIn (before ++ ⟨header, false⟩ :: rest)) .free
            (inState false before ++ fresh :: inState false rest)) .allocate
              (inState true before ++ header :: inState true rest) =
                cellsIn (before ++ ⟨header, true⟩ :: ⟨fresh, false⟩ :: rest) := by
        funext list
        cases list with
        | free => simp [cellsIn_around, HeapList.used]
        | allocate => simp [cellsIn_around, HeapList.used, inState_cons_of_ne]
      rw [← hlists']
      exact ⟨hafter.chain, hafter.nodup, hafter.apart⟩
    · obtain ⟨front, address, hlast⟩ := htiling.last
      rcases List.eq_nil_or_concat rest with rfl | ⟨rest, tile, rfl⟩
      · exact ⟨before ++ [⟨header, true⟩], fresh, by simp⟩
      · rw [List.concat_eq_append] at hlast ⊢
        have hsnoc : (before ++ ⟨header, false⟩ :: rest) ++ [tile]
          = front ++ [⟨address, false⟩] := by
          rw [← hlast]
          simp
        obtain ⟨-, htile⟩ := List.append_inj' hsnoc rfl
        rw [htile]
        exact ⟨before ++ ⟨header, true⟩ :: ⟨fresh, false⟩ :: rest, address, by simp⟩
  · exact hlengths
  · dsimp only
    rw [hsame'.data, data_setNext, hsame.data, hdata]

/-! ## Merging a block -/

theorem filled_extend {length : ℕ} {middle : List Tile}
    (hfilled : Filled cfg.headerSize heap.length 0 (before ++ ⟨node, false⟩ :: (middle ++ rest))
      cfg.heapMax)
    (hrest : Filled cfg.headerSize heap.length (node + cfg.headerSize + length) rest
      cfg.heapMax) :
    Filled cfg.headerSize (update heap.length node length) 0
      (before ++ ⟨node, false⟩ :: rest) cfg.heapMax := by
  have hpos := cfg.headerSize_pos
  obtain ⟨hleft, -⟩ := filled_middle.1 hfilled
  dsimp only at hleft
  refine filled_middle.2 ⟨hleft.congr fun tile hmem => ?_, ?_⟩
  · have := (hleft.bounds hmem).2
    exact update_of_ne (by omega) ..
  · dsimp only
    rw [update_self]
    refine hrest.congr fun tile hmem => ?_
    have := (hrest.bounds hmem).1
    exact update_of_ne (by omega) ..

theorem Tiling.extend {length : ℕ} {middle : List Tile}
    (htiling : Tiling cfg heap (before ++ ⟨node, false⟩ :: (middle ++ rest)))
    (hmiddle : ∀ tile ∈ middle, tile.used = false)
    (hrest : Filled cfg.headerSize heap.length (node + cfg.headerSize + length) rest
      cfg.heapMax) :
    Tiling cfg ((heap.setLength node length).setNext node (inState false rest).head?)
      (before ++ ⟨node, false⟩ :: rest) := by
  have hused : inState true middle = [] := by
    rw [inState, List.filter_eq_nil_iff.2 fun tile hmem => by simp [hmiddle tile hmem]]
    rfl
  have hcells : cellsIn (before ++ ⟨node, false⟩ :: (middle ++ rest)) .free =
      inState false before ++ node :: (inState false middle ++ inState false rest) := by
    rw [cellsIn_around, HeapList.used, if_pos rfl, inState_append]
  have hchain := hcells ▸ htiling.lists.chain .free
  have hnodup := hcells ▸ htiling.lists.nodup .free
  have hkept : (inState false before ++ node :: inState false rest).Sublist
      (inState false before ++ node :: (inState false middle ++ inState false rest)) :=
    ((List.sublist_append_right _ _).cons_cons node).append_left _
  refine ⟨?_, ?_, ?_⟩
  · have hafter : update (cellsIn (before ++ ⟨node, false⟩ :: (middle ++ rest))) .free
        (inState false before ++ node :: inState false rest) =
          cellsIn (before ++ ⟨node, false⟩ :: rest) := by
      funext list
      cases list with
      | free => simp [cellsIn_around, HeapList.used]
      | allocate => simp [cellsIn_around, HeapList.used, hused]
    rw [← hafter]
    refine (htiling.lists.setLength node length).relink hcells ?_ (hnodup.sublist hkept) ?_
    · rw [next_setLength]
      have hdrop : Chain heap.next (heap.head .free)
          ((inState false before ++ node :: inState false middle) ++ inState false rest) := by
        simpa using hchain
      exact hdrop.drop
    · intro block hblock other hne
      refine htiling.lists.apart .free other hne.symm block (hcells ▸ ?_)
      exact List.mem_append_right _ (List.mem_cons_of_mem node (List.mem_append_right _ hblock))
  · rw [length_setNext, length_setLength]
    exact filled_extend htiling.filled hrest
  · obtain ⟨front, address, hlast⟩ := htiling.last
    rcases List.eq_nil_or_concat rest with rfl | ⟨rest, tile, rfl⟩
    · exact ⟨before, node, rfl⟩
    · rw [List.concat_eq_append] at hlast ⊢
      have hsnoc : (before ++ ⟨node, false⟩ :: (middle ++ rest)) ++ [tile] =
          front ++ [⟨address, false⟩] := by
        rw [← hlast]
        simp
      obtain ⟨-, htile⟩ := List.append_inj' hsnoc rfl
      rw [htile]
      exact ⟨before ++ ⟨node, false⟩ :: rest, address, by simp⟩

/-- Whether the next block of the free list is the next block. -/
theorem close_next {used : Bool} {next : ℕ}
    (hfilled : Filled cfg.headerSize heap.length 0 (before ++ ⟨header, used⟩ :: rest)
      cfg.heapMax) (hnext : (inState false rest).head? = some next) :
    Close cfg heap header next ↔ rest.head? = some ⟨next, false⟩ := by
  have hpos := cfg.headerSize_pos
  obtain ⟨-, hrest⟩ := filled_middle.1 hfilled
  have horder : header + heap.length header + cfg.headerSize =
      header + cfg.headerSize + heap.length header := by omega
  rw [Close, horder]
  cases rest with
  | nil => simp [inState, addresses] at hnext
  | cons first rest =>
    obtain ⟨address, used'⟩ := first
    obtain ⟨haddress, hrest⟩ := hrest
    rw [← haddress, List.head?_cons, Option.some.injEq, Tile.mk.injEq]
    cases used' with
    | false =>
      rw [inState_cons_self, List.head?_cons, Option.some.injEq] at hnext
      simp [hnext]
    | true =>
      have hle := (hrest.bounds_of_mem (List.mem_of_mem_head? hnext)).1
      refine ⟨fun heq => ?_, fun h => absurd h.2 (by decide)⟩
      omega

/-- Whether the previous block of the free list is the previous block. -/
theorem close_previous {used : Bool} {prev : ℕ}
    (hfilled : Filled cfg.headerSize heap.length 0 (before ++ ⟨header, used⟩ :: rest)
      cfg.heapMax) (hprev : (inState false before).getLast? = some prev) :
    Close cfg heap prev header ↔ before.getLast? = some ⟨prev, false⟩ := by
  have hpos := cfg.headerSize_pos
  obtain ⟨hbefore, -⟩ := filled_middle.1 hfilled
  rw [Close]
  rcases List.eq_nil_or_concat before with rfl | ⟨before, last, rfl⟩
  · simp [inState, addresses] at hprev
  · rw [List.concat_eq_append] at *
    obtain ⟨address, used'⟩ := last
    obtain ⟨hfront, hend⟩ := filled_middle.1 hbefore
    have hend : address + cfg.headerSize + heap.length address = header := hend
    rw [List.getLast?_concat, Option.some.injEq, Tile.mk.injEq]
    cases used' with
    | false =>
      have heq : address = prev := by simpa [inState, addresses] using hprev
      subst heq
      simp only [true_and, iff_true]
      omega
    | true =>
      have hmem : prev ∈ inState false before := by
        refine List.mem_of_getLast? (l := inState false before) ?_
        simpa [inState, addresses] using hprev
      have hle := (hfront.bounds_of_mem hmem).2
      dsimp only at hle
      refine ⟨fun heq => ?_, fun h => absurd h.2 (by decide)⟩
      omega

/-- What a merge leaves: the blocks are joined, and nothing happens to an allocated one. -/
structure Merged (cfg : HeapConfig) (heap after : FinshHeap) (allocated : List ℕ) : Prop where
  tiling : ∃ blocks, Tiling cfg after blocks ∧ Coalesced blocks ∧
    inState true blocks = allocated
  length : ∀ block ∈ allocated, after.length block = heap.length block
  data : after.data = heap.data

theorem coalesced_cons_free (hrest : Coalesced rest)
    (hused : ∀ tile ∈ rest.head?, tile.used = true) : Coalesced (⟨header, false⟩ :: rest) :=
  List.isChain_cons.2 ⟨fun tile hmem => .inr (hused tile hmem), hrest⟩

theorem coalesced_tail_used (hrest : Coalesced (⟨header, false⟩ :: rest)) :
    ∀ tile ∈ rest.head?, tile.used = true := by
  intro tile hmem
  rcases (List.isChain_cons.1 hrest).1 tile hmem with hused | hused
  · cases hused
  · exact hused

theorem Tiling.next_free (htiling : Tiling cfg heap (before ++ ⟨node, false⟩ :: rest)) :
    heap.next node = (inState false rest).head? := by
  have hchain := htiling.lists.chain .free
  rw [cellsIn_around, HeapList.used, if_pos rfl] at hchain
  exact hchain.next_eq

/-- The address behind a block is where the next one starts. -/
theorem Tiling.next_starts {next : ℕ} {used used' : Bool}
    (htiling : Tiling cfg heap (before ++ ⟨node, used⟩ :: ⟨next, used'⟩ :: rest)) :
    next = node + cfg.headerSize + heap.length node ∧
      Filled cfg.headerSize heap.length (next + cfg.headerSize + heap.length next) rest
        cfg.heapMax := by
  obtain ⟨-, hnext, hrest⟩ := filled_middle.1 htiling.filled
  rw [← hnext] at hrest
  exact ⟨hnext, hrest⟩

theorem Tiling.merged_self (htiling : Tiling cfg heap (before ++ ⟨header, false⟩ :: rest))
    (hcoalesced : Coalesced (before ++ ⟨header, false⟩ :: rest)) :
    Merged cfg heap heap (inState true before ++ inState true rest) where
  tiling := ⟨_, htiling, hcoalesced, by rw [inState_append, inState_cons_of_ne (by decide)]⟩
  length _ _ := rfl
  data := rfl

theorem Tiling.merged {length : ℕ} {middle : List Tile}
    (htiling : Tiling cfg heap (before ++ ⟨node, false⟩ :: (middle ++ rest)))
    (hmiddle : ∀ tile ∈ middle, tile.used = false)
    (hrest : Filled cfg.headerSize heap.length (node + cfg.headerSize + length) rest
      cfg.heapMax) (hcoalesced : Coalesced (before ++ ⟨node, false⟩ :: rest)) :
    Merged cfg heap ((heap.setLength node length).setNext node (inState false rest).head?)
      (inState true before ++ inState true rest) where
  tiling := ⟨_, htiling.extend hmiddle hrest, hcoalesced, by
    rw [inState_append, inState_cons_of_ne (by decide)]⟩
  length block hmem := by
    rw [length_setNext, length_setLength]
    refine update_of_ne ?_ ..
    rintro rfl
    -- a block is not free and allocated at the same time
    refine htiling.lists.apart .free .allocate (by decide) block ?_ ?_
    · rw [cellsIn_around]
      exact List.mem_append_right _ List.mem_cons_self
    · rw [cellsIn_around, if_neg (by decide), HeapList.used, inState_append]
      rcases List.mem_append.1 hmem with hmem | hmem
      · exact List.mem_append_left _ hmem
      · exact List.mem_append_right _ (List.mem_append_right _ hmem)
  data := rfl

/-- The merge with the block behind, if that one is free. -/
theorem mergeNext_merged (htiling : Tiling cfg heap (before ++ ⟨header, false⟩ :: rest))
    (hbefore : Coalesced before) (hlast : ∀ tile ∈ before.getLast?, tile.used = true)
    (hrest : Coalesced rest) :
    Merged cfg heap (mergeNext cfg heap header (inState false rest).head?)
      (inState true before ++ inState true rest) := by
  have hsnoc : Coalesced (before ++ [⟨header, false⟩]) := coalesced_snoc hbefore hlast
  rcases rest with _ | ⟨⟨next, _ | _⟩, rest⟩
  · exact htiling.merged_self hsnoc
  · have hnext : (inState false (⟨next, false⟩ :: rest)).head? = some next := by
      rw [inState_cons_self]
      rfl
    have hclose : Close cfg heap header next := (close_next htiling.filled hnext).2 rfl
    obtain ⟨hstart, hfilled⟩ := htiling.next_starts
    have hlink : heap.next next = (inState false rest).head? := by
      have happend : before ++ ⟨header, false⟩ :: ⟨next, false⟩ :: rest =
          before ++ [⟨header, false⟩] ++ ⟨next, false⟩ :: rest := by simp
      rw [happend] at htiling
      exact htiling.next_free
    have hsame : inState true (⟨next, false⟩ :: rest) = inState true rest :=
      inState_cons_of_ne (by decide)
    rw [hnext, mergeNext, if_pos hclose, hlink, hsame]
    refine @Tiling.merged cfg heap before rest header _ [⟨next, false⟩] htiling (by simp) ?_ ?_
    · have hend : header + cfg.headerSize + (heap.length header +
          (heap.length next + cfg.headerSize)) =
            next + cfg.headerSize + heap.length next := by omega
      rw [hend]
      exact hfilled
    · exact List.isChain_split.2 ⟨hsnoc, coalesced_cons_free (List.isChain_cons.1 hrest).2
        (coalesced_tail_used hrest)⟩
  · have hused : ∀ tile ∈ (⟨next, true⟩ :: rest : List Tile).head?, tile.used = true := by simp
    have hplain : mergeNext cfg heap header (inState false (⟨next, true⟩ :: rest)).head? =
        heap := by
      cases hnext : (inState false (⟨next, true⟩ :: rest)).head? with
      | none => rfl
      | some other =>
        rw [mergeNext, if_neg]
        rw [close_next htiling.filled hnext]
        simp
    rw [hplain]
    exact htiling.merged_self (List.isChain_split.2 ⟨hsnoc, coalesced_cons_free hrest hused⟩)

/-- The merge with a free block in front, and with the block behind if that one is free too. -/
theorem mergePrevious_merged {prev : ℕ}
    (htiling : Tiling cfg heap (before ++ ⟨prev, false⟩ :: ⟨header, false⟩ :: rest))
    (hbefore : Coalesced (before ++ [⟨prev, false⟩])) (hrest : Coalesced rest) :
    Merged cfg heap (mergePrevious cfg heap header (inState false rest).head? prev)
      (inState true before ++ inState true rest) := by
  have happend : before ++ ⟨prev, false⟩ :: ⟨header, false⟩ :: rest =
      before ++ [⟨prev, false⟩] ++ ⟨header, false⟩ :: rest := by simp
  have hheader := happend ▸ htiling
  obtain ⟨hstart, hfilled⟩ := htiling.next_starts
  have hplain : (∀ tile ∈ rest.head?, tile.used = true) →
      Merged cfg heap ((heap.setLength prev (heap.length prev +
        (heap.length header + cfg.headerSize))).setNext prev (heap.next header))
          (inState true before ++ inState true rest) := by
    intro hused
    rw [hheader.next_free]
    refine @Tiling.merged cfg heap before rest prev _ [⟨header, false⟩] htiling (by simp) ?_ ?_
    · have hend : prev + cfg.headerSize + (heap.length prev +
          (heap.length header + cfg.headerSize)) =
            header + cfg.headerSize + heap.length header := by omega
      rw [hend]
      exact hfilled
    · exact List.isChain_split.2 ⟨hbefore, coalesced_cons_free hrest hused⟩
  rcases rest with _ | ⟨⟨next, _ | _⟩, rest⟩
  · exact hplain (by simp)
  · have hnext : (inState false (⟨next, false⟩ :: rest)).head? = some next := by
      rw [inState_cons_self]
      rfl
    have hclose : Close cfg heap header next := (close_next hheader.filled hnext).2 rfl
    have hsame : inState true (⟨next, false⟩ :: rest) = inState true rest :=
      inState_cons_of_ne (by decide)
    obtain ⟨hstart', hfilled'⟩ := hheader.next_starts
    have hlink : heap.next next = (inState false rest).head? := by
      have happend' : before ++ [⟨prev, false⟩] ++ ⟨header, false⟩ :: ⟨next, false⟩ :: rest =
          before ++ [⟨prev, false⟩, ⟨header, false⟩] ++ ⟨next, false⟩ :: rest := by simp
      rw [happend'] at hheader
      exact hheader.next_free
    rw [hnext, mergePrevious]
    simp only [if_pos hclose, hlink, hsame]
    refine @Tiling.merged cfg heap before rest prev _ [⟨header, false⟩, ⟨next, false⟩] htiling
      (by simp) ?_ ?_
    · have hend : prev + cfg.headerSize + (heap.length prev +
          (heap.length header + heap.length next + 2 * cfg.headerSize)) =
            next + cfg.headerSize + heap.length next := by omega
      rw [hend]
      exact hfilled'
    · exact List.isChain_split.2 ⟨hbefore, coalesced_cons_free (List.isChain_cons.1 hrest).2
        (coalesced_tail_used hrest)⟩
  · have hmerge : mergePrevious cfg heap header (inState false (⟨next, true⟩ :: rest)).head?
        prev = (heap.setLength prev (heap.length prev +
          (heap.length header + cfg.headerSize))).setNext prev (heap.next header) := by
      cases hnext : (inState false (⟨next, true⟩ :: rest)).head? with
      | none => rfl
      | some other =>
        have hfar : ¬ Close cfg heap header other := by
          rw [close_next hheader.filled hnext]
          simp
        simp only [mergePrevious, if_neg hfar]
    rw [hmerge]
    exact hplain (by simp)

/-- A freed block is merged with its free neighbours. -/
theorem mergeNodes_merged (htiling : Tiling cfg heap (before ++ ⟨header, false⟩ :: rest))
    (hbefore : Coalesced before) (hrest : Coalesced rest) :
    Merged cfg heap (mergeNodes cfg heap header (inState false before).getLast?
      (inState false rest).head?) (inState true before ++ inState true rest) := by
  by_cases hfree : ∃ prev, before.getLast? = some ⟨prev, false⟩
  · obtain ⟨prev, hlast⟩ := hfree
    obtain ⟨front, rfl⟩ := List.getLast?_eq_some_iff.1 hlast
    have hprev : (inState false (front ++ [⟨prev, false⟩])).getLast? = some prev := by
      rw [inState_append, inState_cons_self]
      exact List.getLast?_concat
    have hclose : Close cfg heap prev header := (close_previous htiling.filled hprev).2 hlast
    have hsame : inState true (front ++ [⟨prev, false⟩]) = inState true front := by
      rw [inState_append, inState_cons_of_ne (by decide)]
      exact List.append_nil _
    rw [hprev, mergeNodes, hsame]
    simp only [if_pos hclose]
    refine mergePrevious_merged ?_ hbefore hrest
    simpa using htiling
  · have hlast : ∀ tile ∈ before.getLast?, tile.used = true := by
      rintro ⟨prev, _ | _⟩ hmem
      · exact absurd ⟨prev, hmem⟩ hfree
      · rfl
    have hmerge : mergeNodes cfg heap header (inState false before).getLast?
        (inState false rest).head? = mergeNext cfg heap header (inState false rest).head? := by
      cases hprev : (inState false before).getLast? with
      | none => rfl
      | some prev =>
        have hfar : ¬ Close cfg heap prev header := by
          rw [close_previous htiling.filled hprev]
          exact fun heq => hfree ⟨prev, heq⟩
        simp only [mergeNodes, if_neg hfar]
    rw [hmerge]
    exact mergeNext_merged htiling hbefore hlast hrest

/-! ## Freeing a block -/

/-- A freed block goes from one list to the other.  The pointer that the removal leaves is
written again, because the last block of the heap is free and lies behind. -/
theorem free_moves (htiling : Tiling cfg heap (before ++ ⟨header, true⟩ :: rest)) :
    ∃ removed inserted, finshBlockRemove cfg heap .allocate header = some removed ∧
      finshBlockInsert cfg removed .free header = some inserted ∧
      Tiling cfg inserted (before ++ ⟨header, false⟩ :: rest) ∧ SameBlocks heap inserted := by
  have hpos := cfg.headerSize_pos
  have haround := around_of_filled htiling.filled
  have hshort := before_length_le htiling
  have hlt : ∀ used, ∀ block ∈ inState used before, block < header := fun used block hmem => by
    have := haround.before used block hmem
    omega
  have hgt : ∀ used, ∀ block ∈ inState used rest, header < block := fun used block hmem => by
    have := haround.rest used block hmem
    omega
  obtain ⟨removed, hremove, hlists, hsame⟩ := finshBlockRemove_spec htiling.lists
    (cellsIn_around .allocate) (hshort true)
  have hgone : ∀ list, header ∉ update (cellsIn (before ++ ⟨header, true⟩ :: rest))
      .allocate (inState true before ++ inState true rest) list := by
    have hnot : ∀ used, header ∉ inState used before ∧ header ∉ inState used rest := fun used =>
      ⟨fun hmem => (hlt used header hmem).false, fun hmem => (hgt used header hmem).false⟩
    intro list
    cases list with
    | allocate => simp [hnot]
    | free => simp [cellsIn_around, HeapList.used, hnot]
  have hcells : update (cellsIn (before ++ ⟨header, true⟩ :: rest)) .allocate
      (inState true before ++ inState true rest) .free =
        inState false before ++ inState false rest := by
    rw [update_of_ne (by decide), cellsIn_around]
    rfl
  obtain ⟨front, address, hlast⟩ := htiling.last
  have hbehind : ∃ tail, rest = tail ++ [⟨address, false⟩] := by
    rcases List.eq_nil_or_concat rest with rfl | ⟨tail, tile, rfl⟩
    · obtain ⟨-, htile⟩ := List.append_inj' hlast rfl
      cases htile
    · rw [List.concat_eq_append] at hlast ⊢
      have hsnoc : (before ++ ⟨header, true⟩ :: tail) ++ [tile] = front ++ [⟨address, false⟩] := by
        rw [← hlast]
        simp
      obtain ⟨-, htile⟩ := List.append_inj' hsnoc rfl
      exact ⟨tail, by rw [htile]⟩
  obtain ⟨tail, htail⟩ := hbehind
  have hnonempty : inState false rest ≠ [] := by
    rw [htail, inState_append, inState_cons_self]
    simp
  obtain ⟨inserted, hinsert, hafter, hsame'⟩ := finshBlockInsert_spec hlists hcells (hlt false)
    (hgt false) hgone (fun hnil => absurd hnil hnonempty) (hshort false)
  refine ⟨removed, inserted, hremove, hinsert, ⟨?_, ?_, ?_⟩, hsame.trans hsame'⟩
  · have hlists' : update (update (cellsIn (before ++ ⟨header, true⟩ :: rest))
        .allocate (inState true before ++ inState true rest)) .free
          (inState false before ++ header :: inState false rest) =
            cellsIn (before ++ ⟨header, false⟩ :: rest) := by
      funext list
      cases list with
      | free => simp [cellsIn_around, HeapList.used]
      | allocate => simp [cellsIn_around, HeapList.used]
    rw [← hlists']
    exact hafter
  · rw [(hsame.trans hsame').length]
    obtain ⟨hfront, hback⟩ := filled_middle.1 htiling.filled
    exact filled_middle.2 ⟨hfront, hback⟩
  · exact ⟨before ++ ⟨header, false⟩ :: tail, address, by rw [htail]; simp⟩

theorem finshHeapFree_spec (htiling : Tiling cfg heap blocks) (hcoalesced : Coalesced blocks)
    (hmem : header ∈ inState true blocks) :
    ∃ after, finshHeapFree cfg heap (header + cfg.headerSize) = some after ∧
      Merged cfg heap after ((inState true blocks).erase header) := by
  obtain ⟨before, rest, rfl⟩ := List.append_of_mem (mem_inState.1 hmem)
  obtain ⟨removed, inserted, hremove, hinsert, htiling', hsame⟩ := free_moves htiling
  obtain ⟨hbefore, hrest⟩ := List.isChain_append.1 hcoalesced
  have hmerge := finshBlockMerge_spec htiling'.lists (cellsIn_around .free)
    (before_length_le htiling' false)
  have hmerged := mergeNodes_merged htiling' hbefore (List.isChain_cons.1 hrest.1).2
  refine ⟨mergeNodes cfg inserted header (inState false before).getLast?
    (inState false rest).head?, ?_, ?_⟩
  · rw [finshHeapFree, Nat.add_sub_cancel, hremove]
    simp only [Option.bind_eq_bind, Option.bind_some, hinsert]
    exact hmerge
  · have hnot : header ∉ inState true before := by
      have hnodup := htiling.lists.nodup .allocate
      rw [cellsIn_around, HeapList.used, if_pos rfl] at hnodup
      exact fun hin =>
        (List.nodup_cons.1 (List.nodup_middle.1 hnodup)).1 (List.mem_append_left _ hin)
    have herase : (inState true (before ++ ⟨header, true⟩ :: rest)).erase header =
        inState true before ++ inState true rest := by
      rw [inState_append, inState_cons_self, List.erase_append_right _ hnot, List.erase_cons_head]
    rw [herase]
    exact ⟨hmerged.tiling, fun block hblock => (hmerged.length block hblock).trans
      (congrFun hsame.length block), hmerged.data.trans hsame.data⟩

end RtThread.Finsh
