import RtThread.Core.BoundedFifo
import RtThread.Vbus.BusRing

set_option linter.all false

/-!
# Packages cross a ring

The blocks between the two indices hold the packages that were put and not yet taken, one
behind the other.  Positions are counted from the start of the run, and the byte at a
position is the one at the position modulo the size of the ring; so a package that
is split at the end of the ring is like any other one, and two positions of bytes that are
in use at the same time are bytes at different addresses.
-/

namespace RtThread.Vbus

open RtThread.Core

/-! ## Positions -/

section Positions

variable {blkNr : ℕ}

/-- The address of the byte at a position. -/
def cell (blkNr position : ℕ) : ℕ :=
  position % (sizeofRtVbusBlk * blkNr)

theorem cell_ne (low : ℕ) {left right : ℕ} (hleft : low ≤ left)
    (hleft' : left < low + sizeofRtVbusBlk * blkNr) (hright : low ≤ right)
    (hright' : right < low + sizeofRtVbusBlk * blkNr) (hne : left ≠ right) :
    cell blkNr left ≠ cell blkNr right := by
  intro heq
  exact hne (Nat.mod_injOn_Ico low (sizeofRtVbusBlk * blkNr)
    (Finset.mem_coe.2 (Finset.mem_Ico.2 ⟨hleft, hleft'⟩))
    (Finset.mem_coe.2 (Finset.mem_Ico.2 ⟨hright, hright'⟩)) heq)

theorem cell_block (block offset : ℕ) :
    cell blkNr (sizeofRtVbusBlk * block + offset) =
      (sizeofRtVbusBlk * (block % blkNr) + offset) % (sizeofRtVbusBlk * blkNr) := by
  rw [cell, ← Nat.mod_add_mod, Nat.mul_mod_mul_left]

theorem cell_of_lt {block offset : ℕ}
    (hlt : sizeofRtVbusBlk * (block % blkNr) + offset < sizeofRtVbusBlk * blkNr) :
    cell blkNr (sizeofRtVbusBlk * block + offset) = sizeofRtVbusBlk * (block % blkNr) + offset := by
  rw [cell_block, Nat.mod_eq_of_lt hlt]

theorem cell_of_eq {block offset index : ℕ}
    (heq : sizeofRtVbusBlk * (block % blkNr) + offset = sizeofRtVbusBlk * blkNr + index)
    (hlt : index < sizeofRtVbusBlk * blkNr) :
    cell blkNr (sizeofRtVbusBlk * block + offset) = index := by
  rw [cell_block, heq, Nat.add_mod_left, Nat.mod_eq_of_lt hlt]

theorem len2bnr_bounds (len : ℕ) :
    len + rtVbusBlkHeadSz ≤ sizeofRtVbusBlk * len2bnr len ∧
      sizeofRtVbusBlk * len2bnr len < len + rtVbusBlkHeadSz + sizeofRtVbusBlk := by
  simp only [len2bnr, sizeofRtVbusBlk, rtVbusBlkHeadSz]
  omega

theorem len2bnr_pos (len : ℕ) : 0 < len2bnr len := by
  have hbounds := (len2bnr_bounds len).1
  simp only [sizeofRtVbusBlk, rtVbusBlkHeadSz] at hbounds
  omega

theorem tailsz_eq_min (idx len : ℕ) :
    tailsz blkNr idx len = min len ((blkNr - idx) * sizeofRtVbusBlk - rtVbusBlkHeadSz) := by
  rw [tailsz]
  split <;> omega

/-- Writer and reader find the data at the same addresses, also across the end of the
ring. -/
theorem dataAddrs_eq {block len : ℕ} (hblkNr : 0 < blkNr) (hlen : len2bnr len ≤ blkNr) :
    dataAddrs blkNr (block % blkNr) len = (List.range len).map fun index =>
      cell blkNr (sizeofRtVbusBlk * block + (rtVbusBlkHeadSz + index)) := by
  have hidx := Nat.mod_lt block hblkNr
  have hbnr := (len2bnr_bounds len).1
  rw [dataAddrs]
  split
  · rename_i hwrap
    have htail : tailsz blkNr (block % blkNr) len = _ := tailsz_eq_min _ len
    simp only [sizeofRtVbusBlk, rtVbusBlkHeadSz] at htail hbnr
    generalize tailsz blkNr (block % blkNr) len = tail at htail
    have hrange : List.range len = List.range tail ++ (List.range (len - tail)).map (tail + ·) := by
      rw [← List.range_add, Nat.add_sub_cancel' (by omega)]
    rw [hrange, List.map_append, List.map_map]
    congr 1
    · refine List.map_congr_left fun index hindex => ?_
      rw [List.mem_range] at hindex
      rw [cell_of_lt]
      · exact Nat.add_assoc _ _ _
      · simp only [sizeofRtVbusBlk, rtVbusBlkHeadSz]
        omega
    · rw [← List.map_id (List.range (len - tail)), List.map_map]
      refine List.map_congr_left fun index hindex => ?_
      rw [List.mem_range] at hindex
      refine (cell_of_eq ?_ ?_).symm
      · simp only [sizeofRtVbusBlk, rtVbusBlkHeadSz, id]
        omega
      · simp only [sizeofRtVbusBlk, id]
        omega
  · rename_i hstraight
    refine List.map_congr_left fun index hindex => ?_
    rw [List.mem_range] at hindex
    rw [cell_of_lt]
    · exact Nat.add_assoc _ _ _
    · simp only [sizeofRtVbusBlk, rtVbusBlkHeadSz] at hindex hbnr ⊢
      omega

end Positions

/-! ## Packages in memory -/

section Packages

variable {blkNr block : ℕ} {blks : ℕ → UInt8} {pkg : OutPkg} {queue : List OutPkg}

namespace OutPkg

variable (pkg)

def bnr : ℕ :=
  len2bnr pkg.len

/-- The bytes of a package, by their offsets from its first block. -/
def layout : List (ℕ × UInt8) :=
  (0, pkg.id) :: (1, pkg.prio) :: (2, UInt8.ofNat pkg.len) ::
    ((List.range pkg.len).map (rtVbusBlkHeadSz + ·)).zip pkg.data

theorem offset_lt {entry : ℕ × UInt8} (hentry : entry ∈ pkg.layout) :
    entry.1 < sizeofRtVbusBlk * pkg.bnr := by
  have hbnr : pkg.len + rtVbusBlkHeadSz ≤ sizeofRtVbusBlk * pkg.bnr := (len2bnr_bounds pkg.len).1
  simp only [rtVbusBlkHeadSz] at hbnr
  simp only [layout, List.mem_cons] at hentry
  rcases hentry with rfl | rfl | rfl | hdata
  · dsimp only
    omega
  · dsimp only
    omega
  · dsimp only
    omega
  · obtain ⟨index, hindex, heq⟩ := List.mem_map.1 (List.of_mem_zip hdata).1
    rw [List.mem_range] at hindex
    simp only [rtVbusBlkHeadSz] at heq
    omega

theorem nodup_offsets : (pkg.layout.map Prod.fst).Nodup := by
  have hzip : (((List.range pkg.len).map (rtVbusBlkHeadSz + ·)).zip pkg.data).map Prod.fst =
      (List.range pkg.len).map (rtVbusBlkHeadSz + ·) := by
    refine List.map_fst_zip ?_
    rw [List.length_map, List.length_range]
    exact le_refl _
  have hdata : ((List.range pkg.len).map (rtVbusBlkHeadSz + ·)).Nodup :=
    List.nodup_range.map fun _ _ heq => Nat.add_left_cancel heq
  rw [layout, List.map_cons, List.map_cons, List.map_cons, hzip]
  simp only [List.nodup_cons, List.mem_cons, List.mem_map, not_or, not_exists, not_and,
    rtVbusBlkHeadSz]
  exact ⟨⟨by omega, by omega, fun index _ => by omega⟩, ⟨by omega, fun index _ => by omega⟩,
    fun index _ => by omega, hdata⟩

theorem data_mem_layout {index : ℕ} (hindex : index < pkg.len) :
    (rtVbusBlkHeadSz + index, pkg.data.get ⟨index, hindex⟩) ∈ pkg.layout := by
  simp only [layout, List.mem_cons]
  refine Or.inr (Or.inr (Or.inr (List.mem_iff_getElem.2 ⟨index, ?_, ?_⟩)))
  · rw [List.length_zip, List.length_map, List.length_range]
    exact lt_min hindex hindex
  · simp

end OutPkg

theorem stores_eq (hblkNr : 0 < blkNr) (hlen : pkg.bnr ≤ blkNr) :
    stores blkNr (block % blkNr) pkg =
      pkg.layout.map fun entry => (cell blkNr (sizeofRtVbusBlk * block + entry.1), entry.2) := by
  have hidx := Nat.mod_lt block hblkNr
  have hhead : ∀ offset < rtVbusBlkHeadSz, cell blkNr (sizeofRtVbusBlk * block + offset) =
      sizeofRtVbusBlk * (block % blkNr) + offset := by
    intro offset hoffset
    refine cell_of_lt ?_
    simp only [rtVbusBlkHeadSz, sizeofRtVbusBlk] at hoffset ⊢
    omega
  rw [stores, dataAddrs_eq hblkNr hlen, OutPkg.layout]
  simp only [List.map_cons]
  rw [hhead 0 (by decide), hhead 1 (by decide), hhead 2 (by decide), List.zip_map_left,
    List.zip_map_left, List.map_map]
  rfl

/-- A package is in memory. -/
def Holds (blkNr : ℕ) (blks : ℕ → UInt8) (block : ℕ) (pkg : OutPkg) : Prop :=
  ∀ entry ∈ pkg.layout, blks (cell blkNr (sizeofRtVbusBlk * block + entry.1)) = entry.2

def blocks : List OutPkg → ℕ
  | [] => 0
  | pkg :: rest => pkg.bnr + blocks rest

/-- The packages are in memory one behind the other. -/
def Stored (blkNr : ℕ) (blks : ℕ → UInt8) : ℕ → List OutPkg → Prop
  | _, [] => True
  | block, pkg :: rest => Holds blkNr blks block pkg ∧ Stored blkNr blks (block + pkg.bnr) rest

theorem blocks_append (queue : List OutPkg) (pkg : OutPkg) :
    blocks (queue ++ [pkg]) = blocks queue + pkg.bnr := by
  induction queue with
  | nil => simp [blocks]
  | cons head rest ih =>
    simp only [List.cons_append, blocks, ih]
    omega

theorem length_le_blocks (queue : List OutPkg) : queue.length ≤ blocks queue := by
  induction queue with
  | nil => exact Nat.zero_le _
  | cons head rest ih =>
    have hpos : 0 < head.bnr := len2bnr_pos head.len
    simp only [List.length_cons, blocks]
    omega

theorem Stored.append (hstored : Stored blkNr blks block queue)
    (hholds : Holds blkNr blks (block + blocks queue) pkg) :
    Stored blkNr blks block (queue ++ [pkg]) := by
  induction queue generalizing block with
  | nil => exact ⟨hholds, trivial⟩
  | cons head rest ih =>
    refine ⟨hstored.1, ih hstored.2 ?_⟩
    rwa [blocks, ← Nat.add_assoc] at hholds

theorem Stored.update (hstored : Stored blkNr blks block queue) {position : ℕ} {byte : UInt8}
    (hbehind : sizeofRtVbusBlk * (block + blocks queue) ≤ position)
    (hroom : position < sizeofRtVbusBlk * (block + blkNr)) :
    Stored blkNr (Function.update blks (cell blkNr position) byte) block queue := by
  -- `low` is the first position that is in use
  have hgeneral : ∀ low start, Stored blkNr blks start queue → low ≤ start →
      sizeofRtVbusBlk * (start + blocks queue) ≤ position →
        position < sizeofRtVbusBlk * (low + blkNr) →
          Stored blkNr (Function.update blks (cell blkNr position) byte) start queue := by
    clear hstored hbehind hroom
    induction queue with
    | nil => exact fun _ _ _ _ _ _ => trivial
    | cons head rest ih =>
      intro low start hstored hlow hbehind hroom
      simp only [blocks, sizeofRtVbusBlk] at hbehind hroom
      refine ⟨fun entry hentry => ?_, ih low (start + head.bnr) hstored.2 (by omega) ?_ ?_⟩
      · have hoffset := head.offset_lt hentry
        simp only [sizeofRtVbusBlk] at hoffset
        rw [Function.update_of_ne, hstored.1 entry hentry]
        apply cell_ne (sizeofRtVbusBlk * low) <;> simp only [sizeofRtVbusBlk] <;> omega
      · simp only [sizeofRtVbusBlk]
        omega
      · simp only [sizeofRtVbusBlk]
        omega
  exact hgeneral block block hstored (le_refl _) hbehind hroom

end Packages

/-! ## The two loops -/

/-- A package of a channel other than the control channel, of a size that `rt_vbus_post`
makes. -/
structure OutPkg.Sound (pkg : OutPkg) : Prop where
  id_pos : 0 < pkg.id.toNat
  id_lt : pkg.id.toNat < rtVbusChannelNr
  len_pos : 0 < pkg.len
  len_le : pkg.len ≤ rtVbusMaxPktSz

/-- The channel is connected for the reader, and there is memory. -/
def DataTransfer : RingAction → Prop
  | .take pkg _ => pkg.Sound
  | .check connected => connected = true
  | .alloc success => success = true
  | _ => True

section Invariant

variable {blkNr : ℕ} {st next : RingState} {event : RingEvent}

/-- What the out thread knows: `free` blocks are free at least, and behind `block` it has
stored the first part of its package. -/
def WriterInv (blkNr : ℕ) (blks : ℕ → UInt8) (block free : ℕ) : WriterPc → Prop
  | .idle => True
  | .spacing pkg | .kicking pkg | .asleep pkg | .woken pkg => pkg.Sound
  | .testing pkg sp => pkg.Sound ∧ sp ≤ free
  | .storing pkg pending => pkg.Sound ∧ pkg.bnr ≤ free ∧ ∃ done rest, pkg.layout = done ++ rest ∧
      pending = rest.map (fun entry => (cell blkNr (sizeofRtVbusBlk * block + entry.1), entry.2)) ∧
        ∀ entry ∈ done, blks (cell blkNr (sizeofRtVbusBlk * block + entry.1)) = entry.2

/-- What the in thread knows of the first package, whose first block is `block`. -/
def ReaderInv (blkNr block : ℕ) (first : Option OutPkg) : ReaderPc → Prop
  | .idle | .pushing _ _ | .testing => True
  | .sizing => first ≠ none
  | .identifying size => ∃ pkg, first = some pkg ∧ size = pkg.len
  | .checking id size | .allocating id size =>
    ∃ pkg, first = some pkg ∧ id = pkg.id.toNat ∧ size = pkg.len
  | .controlling _ => False
  | .loading id size pending bytes => ∃ pkg, first = some pkg ∧ id = pkg.id.toNat ∧
      size = pkg.len ∧ bytes.length ≤ pkg.len ∧ bytes = pkg.data.take bytes.length ∧
        pending = (List.range' bytes.length (pkg.len - bytes.length)).map fun index =>
          cell blkNr (sizeofRtVbusBlk * block + (rtVbusBlkHeadSz + index))

/-- The package that the in thread has taken from the ring and not passed on. -/
def ReaderPc.hand : ReaderPc → List (ℕ × List UInt8)
  | .pushing id bytes => [(id, bytes)]
  | _ => []

def OutPkg.content (pkg : OutPkg) : ℕ × List UInt8 :=
  (pkg.id.toNat, pkg.data)

/-- `start` counts the blocks that have been read, and `queue` are the packages in the
ring. -/
structure RingInv (blkNr : ℕ) (st : RingState) (start : ℕ) (queue : List OutPkg) : Prop where
  getIdx : st.ring.getIdx = start % blkNr
  putIdx : st.ring.putIdx = (start + blocks queue) % blkNr
  room : blocks queue < blkNr
  stored : Stored blkNr st.ring.blks start queue
  sound : ∀ pkg ∈ queue, pkg.Sound
  writer : WriterInv blkNr st.ring.blks (start + blocks queue) (blkNr - 1 - blocks queue)
    st.writer
  reader : ReaderInv blkNr start queue.head? st.reader

variable {start : ℕ} {queue : List OutPkg}

theorem RingInv.empty (hinv : RingInv blkNr st start queue)
    (heq : st.ring.getIdx = st.ring.putIdx) :
    queue = [] := by
  have hroom := hinv.room
  have hlength := length_le_blocks queue
  rw [hinv.getIdx, hinv.putIdx] at heq
  have hzero : blocks queue = 0 := by
    by_contra hpos
    have hinj := Nat.mod_injOn_Ico start blkNr
      (Finset.mem_coe.2 (Finset.mem_Ico.2 ⟨le_refl start, by omega⟩))
      (Finset.mem_coe.2 (Finset.mem_Ico.2 ⟨by omega, by omega⟩)) heq
    omega
  exact List.eq_nil_of_length_eq_zero (by omega)

/-- What `_bus_ring_space_nr` computes from the two indices. -/
theorem busRingSpaceNr_eq {used : ℕ} (hused : used < blkNr) {ring : RtVbusRing}
    (hget : ring.getIdx = start % blkNr) (hput : ring.putIdx = (start + used) % blkNr) :
    busRingSpaceNr blkNr ring = blkNr - 1 - used := by
  have hget' := Nat.mod_lt start (Nat.zero_lt_of_lt hused)
  rw [busRingSpaceNr, hget, hput, Nat.add_mod_eq_ite, Nat.mod_eq_of_lt hused]
  split
  · rename_i hwrap
    rw [if_pos (by omega)]
    omega
  · rw [if_neg (by omega)]
    omega

theorem wrapIdx_eq {bnr : ℕ} (hblkNr : 0 < blkNr) (hbnr : bnr < blkNr) :
    wrapIdx blkNr (start % blkNr) bnr = (start + bnr) % blkNr := by
  have hlt := Nat.mod_lt start hblkNr
  rw [wrapIdx, Nat.add_mod_eq_ite, Nat.mod_eq_of_lt hbnr]

theorem WriterInv.mono {blks : ℕ → UInt8} {block free free' : ℕ} {pc : WriterPc}
    (hwriter : WriterInv blkNr blks block free pc) (hle : free ≤ free') :
    WriterInv blkNr blks block free' pc := by
  cases pc with
  | testing pkg sp => exact ⟨hwriter.1, hwriter.2.trans (Int.ofNat_le.2 hle)⟩
  | storing pkg pending => exact ⟨hwriter.1, hwriter.2.1.trans hle, hwriter.2.2⟩
  | _ => exact hwriter

/-- A package at the end of the ring is not the first one for a reader that has one. -/
theorem ReaderInv.mono {block : ℕ} {first first' : Option OutPkg} {pc : ReaderPc}
    (hreader : ReaderInv blkNr block first pc)
      (hfirst : ∀ pkg, first = some pkg → first' = some pkg) :
    ReaderInv blkNr block first' pc := by
  cases pc with
  | sizing =>
    obtain ⟨pkg, hpkg⟩ := Option.ne_none_iff_exists'.1 hreader
    rw [ReaderInv, hfirst pkg hpkg]
    exact Option.some_ne_none pkg
  | idle | pushing _ _ | testing | controlling _ => exact hreader
  | _ =>
    obtain ⟨pkg, hpkg, hrest⟩ := hreader
    exact ⟨pkg, hfirst pkg hpkg, hrest⟩

/-- The packages that have been put and not delivered. -/
def contents (st : RingState) (queue : List OutPkg) : List (ℕ × List UInt8) :=
  st.reader.hand ++ queue.map OutPkg.content

/-- What a step does to them. -/
def StepEffect (blkNr : ℕ) (before after : List (ℕ × List UInt8)) : RingEvent → Prop
  | .put id data => before.length < blkNr ∧ after = before ++ [(id, data)]
  | .delivered id data => before = (id, data) :: after
  | .moved | .ticked => after = before
  | .control _ | .dropped => False

variable {pkg : OutPkg}

theorem RingInv.consume (hinv : RingInv blkNr st start queue) (hfirst : queue.head? = some pkg)
    (pc : ReaderPc) (hpc : ∀ block first, ReaderInv blkNr block first pc) :
    ∃ rest, queue = pkg :: rest ∧
      RingInv blkNr { st with
        ring := ringAddGetBnr blkNr st.ring (len2bnr pkg.len), reader := pc }
          (start + pkg.bnr) rest := by
  obtain ⟨rest, rfl⟩ := List.head?_eq_some_iff.1 hfirst
  have hroom := hinv.room
  have hput := hinv.putIdx
  have hwriter := hinv.writer
  rw [blocks, ← Nat.add_assoc] at hput hwriter
  rw [blocks] at hroom
  refine ⟨rest, rfl, ?_, hput, by omega, hinv.stored.2,
    fun other hother => hinv.sound other (List.mem_cons_of_mem pkg hother), hwriter.mono (by omega),
    hpc _ _⟩
  change wrapIdx blkNr st.ring.getIdx (len2bnr pkg.len) = _
  rw [hinv.getIdx]
  exact wrapIdx_eq (by omega) (Nat.lt_of_le_of_lt (Nat.le_add_right _ _) hroom)

variable {act : RingAction}

theorem RingInv.readStep (hinv : RingInv blkNr st start queue) (hgood : DataTransfer act)
    (hreads : act = .look ∨ act = .readLen ∨ act = .readId ∨
      (∃ connected, act = .check connected) ∨ act = .control ∨
      (∃ success, act = .alloc success) ∨ act = .load ∨ act = .get ∨ act = .push ∨
      act = .tick)
    (hstep : ringStep blkNr st act = some (next, event)) :
    ∃ start' queue', RingInv blkNr next start' queue' ∧
      StepEffect blkNr (contents st queue) (contents next queue') event := by
  have hblkNr := Nat.zero_lt_of_lt hinv.room
  -- the reader goes on, and the ring stays as it is
  have hmoves : ∀ {pc : ReaderPc}, pc.hand = [] → st.reader.hand = [] →
      ReaderInv blkNr start queue.head? pc →
        ∃ start' queue', RingInv blkNr { st with reader := pc } start' queue' ∧
          contents { st with reader := pc } queue' = contents st queue := by
    intro pc hhand hhand' hpc
    refine ⟨start, queue, ⟨hinv.getIdx, hinv.putIdx, hinv.room, hinv.stored, hinv.sound,
      hinv.writer,
      hpc⟩, ?_⟩
    rw [contents, contents, hhand']
    exact congrArg (· ++ _) hhand
  have hreader := hinv.reader
  rcases hreads with rfl | rfl | rfl | ⟨connected, rfl⟩ | rfl | ⟨success, rfl⟩
    | rfl | rfl | rfl | rfl
  · -- look
    simp only [ringStep] at hstep
    split at hstep
    · rename_i hpc
      split at hstep
      · cases hstep
        exact ⟨start, queue, hinv, rfl⟩
      · rename_i hne
        cases hstep
        refine hmoves rfl (by rw [hpc]; rfl) fun hnil => hne ?_
        rw [hinv.getIdx, hinv.putIdx, List.head?_eq_none_iff.1 hnil]
        rfl
    · cases hstep
  · -- readLen
    simp only [ringStep] at hstep
    split at hstep
    · rename_i hpc
      cases hstep
      rw [hpc] at hreader
      obtain ⟨pkg, hfirst⟩ := Option.ne_none_iff_exists'.1 hreader
      refine hmoves rfl (by rw [hpc]; rfl) ⟨pkg, hfirst, ?_⟩
      obtain ⟨rest, rfl⟩ := List.head?_eq_some_iff.1 hfirst
      have hholds := hinv.stored.1 (2, UInt8.ofNat pkg.len) (by simp [OutPkg.layout])
      have hlen := (hinv.sound pkg List.mem_cons_self).len_le
      rw [cell_of_lt] at hholds
      · rw [hinv.getIdx, hholds, UInt8.toNat_ofNat_of_lt']
        simp only [rtVbusMaxPktSz] at hlen
        simp only [UInt8.size]
        omega
      · have hlt := Nat.mod_lt start hblkNr
        simp only [sizeofRtVbusBlk]
        omega
    · cases hstep
  · -- readId
    simp only [ringStep] at hstep
    split at hstep
    · rename_i hpc
      cases hstep
      rw [hpc] at hreader
      obtain ⟨pkg, hfirst, hsize⟩ := hreader
      refine hmoves rfl (by rw [hpc]; rfl) ⟨pkg, hfirst, ?_, hsize⟩
      obtain ⟨rest, rfl⟩ := List.head?_eq_some_iff.1 hfirst
      have hholds := hinv.stored.1 (0, pkg.id) (by simp [OutPkg.layout])
      rw [cell_of_lt] at hholds
      · rw [hinv.getIdx, ← Nat.add_zero (sizeofRtVbusBlk * _), hholds]
      · have hlt := Nat.mod_lt start hblkNr
        simp only [sizeofRtVbusBlk]
        omega
    · cases hstep
  · -- check
    simp only [ringStep] at hstep
    split at hstep
    · rename_i hpc
      rw [hpc] at hreader
      obtain ⟨pkg, hfirst, hid, hsize⟩ := hreader
      have hsound := hinv.sound pkg (List.mem_of_head? hfirst)
      have hpos := hsound.id_pos
      have hlt := hsound.id_lt
      simp only [DataTransfer] at hgood
      subst hgood
      rw [if_neg (by simp; omega), if_neg (by omega)] at hstep
      cases hstep
      exact hmoves rfl (by rw [hpc]; rfl) ⟨pkg, hfirst, hid, hsize⟩
    · cases hstep
  · -- control
    simp only [ringStep] at hstep
    split at hstep
    · rename_i hpc
      rw [hpc] at hreader
      exact hreader.elim
    · cases hstep
  · -- alloc
    simp only [ringStep] at hstep
    split at hstep
    · rename_i id size hpc
      rw [hpc] at hreader
      obtain ⟨pkg, hfirst, rfl, rfl⟩ := hreader
      simp only [DataTransfer] at hgood
      subst hgood
      cases hstep
      refine hmoves rfl (by rw [hpc]; rfl) ⟨pkg, hfirst, rfl, rfl, Nat.zero_le _, by simp, ?_⟩
      obtain ⟨rest, rfl⟩ := List.head?_eq_some_iff.1 hfirst
      have hroom := hinv.room
      simp only [blocks, OutPkg.bnr] at hroom
      rw [hinv.getIdx, dataAddrs_eq hblkNr (by omega), List.range_eq_range']
      rfl
    · cases hstep
  · -- load
    simp only [ringStep] at hstep
    split at hstep
    · rename_i id size address pending bytes hpc
      rw [hpc] at hreader
      obtain ⟨pkg, hfirst, rfl, rfl, hle, hbytes, hpending⟩ := hreader
      have hlt : bytes.length < pkg.len := by
        by_contra hnot
        rw [Nat.sub_eq_zero_of_le (not_lt.1 hnot)] at hpending
        cases hpending
      obtain ⟨rest, rfl⟩ := List.head?_eq_some_iff.1 hfirst
      have hholds := hinv.stored.1 _ (pkg.data_mem_layout hlt)
      rw [show pkg.len - bytes.length = pkg.len - (bytes.length + 1) + 1 by omega,
        List.range'_succ, List.map_cons, List.cons.injEq] at hpending
      obtain ⟨rfl, rfl⟩ := hpending
      cases hstep
      rw [hholds]
      refine hmoves rfl (by rw [hpc]; rfl) ⟨pkg, rfl, rfl, rfl, ?_, ?_, ?_⟩
      · rw [List.length_append]
        exact hlt
      · rw [List.length_append, List.length_singleton, List.take_add_one,
          List.getElem?_eq_getElem hlt,
          ← hbytes]
        rfl
      · rw [List.length_append]
        rfl
    · cases hstep
  · -- get
    simp only [ringStep] at hstep
    split at hstep
    · rename_i id size bytes hpc
      rw [hpc] at hreader
      obtain ⟨pkg, hfirst, rfl, rfl, hle, hbytes, hpending⟩ := hreader
      cases hstep
      obtain ⟨rest, rfl, hnext⟩ := hinv.consume hfirst (.pushing pkg.id.toNat bytes)
        fun _ _ => trivial
      refine ⟨_, rest, hnext, ?_⟩
      have hdone : pkg.len ≤ bytes.length := by
        by_contra hnot
        rw [show pkg.len - bytes.length = pkg.len - bytes.length - 1 + 1 by omega,
          List.range'_succ] at hpending
        cases hpending
      have hall : bytes = pkg.data := by
        rw [hbytes]
        exact List.take_of_length_le hdone
      change (pkg.id.toNat, bytes) :: rest.map OutPkg.content =
        st.reader.hand ++ (pkg :: rest).map OutPkg.content
      rw [hpc, hall]
      rfl
    · cases hstep
  · -- push
    simp only [ringStep] at hstep
    split at hstep
    · rename_i id bytes hpc
      cases hstep
      refine ⟨start, queue, ⟨hinv.getIdx, hinv.putIdx, hinv.room, hinv.stored, hinv.sound,
        hinv.writer, trivial⟩, ?_⟩
      rw [StepEffect, contents, contents, hpc]
      rfl
    · cases hstep
  · -- tick
    simp only [ringStep] at hstep
    split at hstep
    · rename_i hpc
      split at hstep <;> cases hstep <;> exact hmoves rfl (by rw [hpc]; rfl) trivial
    · cases hstep

/-- The byte that is stored next is one of a block behind the packages in the ring. -/
theorem RingInv.store_lt (hinv : RingInv blkNr st start queue) {address : ℕ} {byte : UInt8}
    {pending : List (ℕ × UInt8)} (hpc : st.writer = .storing pkg ((address, byte) :: pending)) :
    ∃ entry ∈ pkg.layout, address = cell blkNr (sizeofRtVbusBlk * (start + blocks queue)
      + entry.1) ∧
      byte = entry.2 ∧ entry.1 < sizeofRtVbusBlk * (blkNr - 1 - blocks queue) := by
  have hwriter := hinv.writer
  rw [hpc] at hwriter
  obtain ⟨-, hfree, done, rest, hlayout, hpending, -⟩ := hwriter
  cases rest with
  | nil => cases hpending
  | cons entry rest =>
    obtain ⟨hentry, -⟩ := List.cons.inj hpending
    cases hentry
    have hmem : entry ∈ pkg.layout := by
      rw [hlayout]
      exact List.mem_append_right done List.mem_cons_self
    have hoffset := pkg.offset_lt hmem
    refine ⟨entry, hmem, rfl, rfl, hoffset.trans_le ?_⟩
    exact Nat.mul_le_mul_left sizeofRtVbusBlk hfree

theorem RingInv.store (hinv : RingInv blkNr st start queue) {address : ℕ} {byte : UInt8}
    {pending : List (ℕ × UInt8)} (hpc : st.writer = .storing pkg ((address, byte) :: pending)) :
    RingInv blkNr { st with
      ring := { st.ring with blks := Function.update st.ring.blks address byte }
      writer := .storing pkg pending } start queue := by
  obtain ⟨entry, hmem, rfl, rfl, hoffset⟩ := hinv.store_lt hpc
  have hroom := hinv.room
  have hwriter := hinv.writer
  simp only [sizeofRtVbusBlk] at hoffset
  refine ⟨hinv.getIdx, hinv.putIdx, hroom, ?_, hinv.sound, ?_, hinv.reader⟩
  · refine hinv.stored.update (Nat.le_add_right _ _) ?_
    simp only [sizeofRtVbusBlk]
    omega
  · rw [hpc] at hwriter
    obtain ⟨hsound, hfree, done, rest, hlayout, hpending, hdone⟩ := hwriter
    cases rest with
    | nil => cases hpending
    | cons head rest =>
      obtain ⟨hhead, hpending⟩ := List.cons.inj hpending
      -- the offset determines the entry, and all entries in front have other offsets
      have hnodup := pkg.nodup_offsets
      rw [hlayout, List.map_append, List.map_cons, List.nodup_append'] at hnodup
      have hothers : ∀ other ∈ done, other.1 ≠ head.1 := fun other hother heq =>
        hnodup.2.2 (List.mem_map_of_mem hother) (heq ▸ List.mem_cons_self)
      refine ⟨hsound, hfree, done ++ [head], rest, by rw [hlayout, List.append_assoc]; rfl,
        hpending, fun other hother => ?_⟩
      have hlt : ∀ found ∈ pkg.layout, found.1 < 64 * blkNr := by
        intro found hfound
        have hbound := pkg.offset_lt hfound
        simp only [sizeofRtVbusBlk] at hbound
        omega
      rw [Prod.mk.injEq] at hhead
      rw [hhead.1, hhead.2]
      rcases List.mem_append.1 hother with hold | hnew
      · change Function.update st.ring.blks _ _ _ = _
        rw [Function.update_of_ne, hdone other hold]
        have hother' := hlt other (by rw [hlayout]; exact List.mem_append_left _ hold)
        have hhead' := hlt head (by rw [hlayout]; exact List.mem_append_right _ List.mem_cons_self)
        have hne := hothers other hold
        apply cell_ne (sizeofRtVbusBlk * (start + blocks queue)) <;>
          simp only [sizeofRtVbusBlk] <;> omega
      · obtain rfl := List.mem_singleton.1 hnew
        exact Function.update_self ..

/-- The package is in the ring from the step on that sets the index. -/
theorem RingInv.put (hinv : RingInv blkNr st start queue) (hpc : st.writer = .storing pkg []) :
    RingInv blkNr { st with
      ring := { st.ring with putIdx := wrapIdx blkNr st.ring.putIdx (len2bnr pkg.len) }
      writer := .idle } start (queue ++ [pkg]) ∧ (contents st queue).length < blkNr := by
  have hroom := hinv.room
  have hwriter := hinv.writer
  have hlength := length_le_blocks queue
  rw [hpc] at hwriter
  obtain ⟨hsound, hfree, done, rest, hlayout, hpending, hdone⟩ := hwriter
  obtain rfl := List.map_eq_nil_iff.1 hpending.symm
  rw [List.append_nil] at hlayout
  have hpos : 0 < pkg.bnr := len2bnr_pos pkg.len
  refine ⟨⟨hinv.getIdx, ?_, ?_, ?_, ?_, trivial, ?_⟩, ?_⟩
  · change wrapIdx blkNr st.ring.putIdx pkg.bnr = _
    rw [hinv.putIdx, blocks_append, ← Nat.add_assoc]
    exact wrapIdx_eq (by omega) (by omega)
  · rw [blocks_append]
    omega
  · refine hinv.stored.append fun entry hentry => hdone entry ?_
    rwa [← hlayout]
  · intro other hother
    rcases List.mem_append.1 hother with hold | hnew
    · exact hinv.sound other hold
    · rwa [List.mem_singleton.1 hnew]
  · refine hinv.reader.mono fun other hother => ?_
    rw [List.head?_append, hother]
    rfl
  · have hhand : st.reader.hand.length ≤ 1 := by
      cases st.reader <;> simp [ReaderPc.hand]
    rw [contents, List.length_append, List.length_map]
    omega

theorem RingInv.writeStep (hinv : RingInv blkNr st start queue) (hgood : DataTransfer act)
    (hwrites : (∃ pkg connected, act = .take pkg connected) ∨ act = .space ∨
      act = .test ∨ act = .kick ∨ act = .resume ∨ act = .unblock ∨ act = .store ∨
      act = .put)
    (hstep : ringStep blkNr st act = some (next, event)) :
    ∃ start' queue', RingInv blkNr next start' queue' ∧
      StepEffect blkNr (contents st queue) (contents next queue') event := by
  -- the writer goes on, and the bytes of the ring stay as they are
  have hmoves : ∀ {blocked : Bool} {pc : WriterPc},
      WriterInv blkNr st.ring.blks (start + blocks queue) (blkNr - 1 - blocks queue) pc →
        ∃ start' queue',
          RingInv blkNr { st with
            ring := { st.ring with blocked := blocked }, writer := pc } start' queue' ∧
          contents { st with ring := { st.ring with blocked := blocked }, writer := pc }
            queue' =
            contents st queue :=
    fun hpc => ⟨start, queue, ⟨hinv.getIdx, hinv.putIdx, hinv.room, hinv.stored, hinv.sound, hpc,
      hinv.reader⟩, rfl⟩
  have hwriter := hinv.writer
  rcases hwrites with ⟨pkg, connected, rfl⟩ | rfl | rfl | rfl | rfl | rfl | rfl | rfl
  · -- take
    simp only [ringStep] at hstep
    split at hstep
    · split at hstep <;> cases hstep
      · exact hmoves hgood
      · exact ⟨start, queue, hinv, rfl⟩
    · cases hstep
  · -- space
    simp only [ringStep] at hstep
    split at hstep
    · rename_i pkg hpc
      rw [hpc] at hwriter
      cases hstep
      refine hmoves ⟨hwriter, ?_⟩
      have hroom := hinv.room
      rw [busRingSpaceNr_eq hroom hinv.getIdx hinv.putIdx]
      omega
    · cases hstep
  · -- test
    simp only [ringStep] at hstep
    split at hstep
    · rename_i pkg sp hpc
      rw [hpc] at hwriter
      obtain ⟨hsound, hsp⟩ := hwriter
      split at hstep
      · cases hstep
        exact hmoves hsound
      · rename_i henough
        cases hstep
        have hroom := hinv.room
        have hfree : pkg.bnr ≤ blkNr - 1 - blocks queue := by
          rw [OutPkg.bnr]
          omega
        refine hmoves ⟨hsound, hfree, [], pkg.layout, rfl, ?_, nofun⟩
        rw [hinv.putIdx]
        exact stores_eq (by omega) (by omega)
    · cases hstep
  · -- kick
    simp only [ringStep] at hstep
    split at hstep
    · rename_i pkg hpc
      rw [hpc] at hwriter
      cases hstep
      exact hmoves hwriter
    · cases hstep
  · -- resume
    simp only [ringStep] at hstep
    split at hstep
    · rename_i pkg hpc
      rw [hpc] at hwriter
      cases hstep
      exact hmoves hwriter
    · cases hstep
  · -- unblock
    simp only [ringStep] at hstep
    split at hstep
    · rename_i pkg hpc
      rw [hpc] at hwriter
      cases hstep
      exact hmoves hwriter
    · cases hstep
  · -- store
    simp only [ringStep] at hstep
    split at hstep
    · rename_i pkg address byte pending hpc
      cases hstep
      exact ⟨start, queue, hinv.store hpc, rfl⟩
    · cases hstep
  · -- put
    simp only [ringStep] at hstep
    split at hstep
    · rename_i pkg hpc
      cases hstep
      obtain ⟨hnext, hlength⟩ := hinv.put hpc
      refine ⟨start, _, hnext, hlength, ?_⟩
      rw [contents, contents, List.map_append, List.append_assoc]
      rfl
    · cases hstep

theorem RingInv.step (hinv : RingInv blkNr st start queue) (hgood : DataTransfer act)
    (hstep : ringStep blkNr st act = some (next, event)) :
    ∃ start' queue', RingInv blkNr next start' queue' ∧
      StepEffect blkNr (contents st queue) (contents next queue') event := by
  cases act with
  | take pkg connected => exact hinv.writeStep hgood (by simp) hstep
  | space | test | kick | resume | unblock | store | put =>
    exact hinv.writeStep hgood (by simp) hstep
  | check connected => exact hinv.readStep hgood (by simp) hstep
  | alloc success => exact hinv.readStep hgood (by simp) hstep
  | look | readLen | readId | control | load | get | push | tick =>
    exact hinv.readStep hgood (by simp) hstep

/-! ## Runs -/

/-- The block holds bytes of a package that the in thread has not taken. -/
def Occupied (blkNr : ℕ) (ring : RtVbusRing) (block : ℕ) : Prop :=
  (block + blkNr - ring.getIdx) % blkNr < (ring.putIdx + blkNr - ring.getIdx) % blkNr

/-- The indices are in range, and the out thread stores into the ring, but not into a block
that is occupied. -/
structure StoresFree (blkNr : ℕ) (st : RingState) : Prop where
  putIdx : st.ring.putIdx < blkNr
  getIdx : st.ring.getIdx < blkNr
  free : ∀ pkg address byte pending, st.writer = .storing pkg ((address, byte) :: pending) →
    address < sizeofRtVbusBlk * blkNr ∧ ¬Occupied blkNr st.ring (address / sizeofRtVbusBlk)

theorem distance_eq {distance : ℕ} (hdistance : distance < blkNr) :
    ((start + distance) % blkNr + blkNr - start % blkNr) % blkNr = distance := by
  have hstart := Nat.mod_lt start (Nat.zero_lt_of_lt hdistance)
  rw [Nat.add_mod_eq_ite, Nat.mod_eq_of_lt hdistance]
  split
  · rw [show start % blkNr + distance - blkNr + blkNr - start % blkNr = distance by omega,
      Nat.mod_eq_of_lt hdistance]
  · rw [show start % blkNr + distance + blkNr - start % blkNr = distance + blkNr by omega,
      Nat.add_mod_right, Nat.mod_eq_of_lt hdistance]

theorem RingInv.storesFree (hinv : RingInv blkNr st start queue) : StoresFree blkNr st where
  putIdx := by
    rw [hinv.putIdx]
    exact Nat.mod_lt _ (Nat.zero_lt_of_lt hinv.room)
  getIdx := by
    rw [hinv.getIdx]
    exact Nat.mod_lt _ (Nat.zero_lt_of_lt hinv.room)
  free := by
    intro pkg address byte pending hpc
    obtain ⟨entry, -, rfl, -, hoffset⟩ := hinv.store_lt hpc
    have hroom := hinv.room
    have hblock : cell blkNr (sizeofRtVbusBlk * (start + blocks queue) + entry.1)
      / sizeofRtVbusBlk =
        (start + (blocks queue + entry.1 / sizeofRtVbusBlk)) % blkNr := by
      rw [cell, Nat.mod_mul_right_div_self, Nat.mul_add_div (by decide), Nat.add_assoc]
    simp only [sizeofRtVbusBlk] at hoffset
    refine ⟨Nat.mod_lt _ (by simp only [sizeofRtVbusBlk]; omega), ?_⟩
    rw [Occupied, hblock, hinv.getIdx, hinv.putIdx, distance_eq hroom, distance_eq]
    · exact not_lt.2 (Nat.le_add_right _ _)
    · simp only [sizeofRtVbusBlk]
      omega

/-- The step of the queue of packages that a step of the ring is. -/
def ringLabel : RingAction × RingEvent →
    Fifo.Action (ℕ × List UInt8) × Option (ℕ × List UInt8)
  | (_, .put id data) => (.put (id, data), none)
  | (_, .delivered id data) => (.take, some (id, data))
  | _ => (.idle, none)

/-- The packages that the out thread has put, and those that the in thread has
delivered. -/
def putPkgs (trace : List (RingAction × RingEvent)) : List (ℕ × List UInt8) :=
  trace.filterMap fun entry =>
    match entry.2 with
    | .put id data => some (id, data)
    | _ => none

def deliveredPkgs (trace : List (RingAction × RingEvent)) : List (ℕ × List UInt8) :=
  trace.filterMap fun entry =>
    match entry.2 with
    | .delivered id data => some (id, data)
    | _ => none

theorem history_ringLabel (trace : List (RingAction × RingEvent)) :
    Fifo.history (trace.map ringLabel) = (putPkgs trace, deliveredPkgs trace) := by
  induction trace using List.reverseRecOn with
  | nil => rfl
  | append_singleton trace entry ih =>
    obtain ⟨act, event⟩ := entry
    rw [List.map_append, List.map_singleton, Fifo.history_snoc, ih, putPkgs, putPkgs, deliveredPkgs,
      deliveredPkgs, List.filterMap_append, List.filterMap_append]
    cases event <;> simp [ringLabel]

theorem ringInv_init (hblkNr : 0 < blkNr) : RingInv blkNr ringInit 0 [] where
  getIdx := (Nat.zero_mod blkNr).symm
  putIdx := (Nat.zero_mod blkNr).symm
  room := hblkNr
  stored := trivial
  sound := nofun
  writer := trivial
  reader := trivial

/-- For a ring of any number of blocks: the indices stay in range, nothing that the in thread
has not taken is overwritten, and the packages that are delivered are those that have been
put, in the same order. -/
theorem ring_transport (hblkNr : 0 < blkNr) {trace : List (RingAction × RingEvent)}
    {last : RingState}
    (hrun : (ringMachine blkNr).RunWith (fun _ action => DataTransfer action) ringInit trace last) :
    (ringMachine blkNr).RunWith (fun st _ => StoresFree blkNr st) ringInit trace last ∧
      StoresFree blkNr last ∧ ∃ queue, (Fifo.machine blkNr).Run [] (trace.map ringLabel) queue ∧
        putPkgs trace = deliveredPkgs trace ++ queue ∧
          (last.reader = .idle → last.ring.getIdx = last.ring.putIdx → queue = []) := by
  have hfirst := ringInv_init hblkNr
  have hstays : ∀ st action next event, (∃ start queue, RingInv blkNr st start queue) →
      DataTransfer action → (ringMachine blkNr).step st action = some (next, event) →
        ∃ start queue, RingInv blkNr next start queue := by
    rintro st action next event ⟨start, queue, hinv⟩ hgood hstep
    obtain ⟨start', queue', hnext, -⟩ := hinv.step hgood hstep
    exact ⟨start', queue', hnext⟩
  obtain ⟨queue, hfifo, start, pkgs, hlast, rfl⟩ : ∃ queue,
      (Fifo.machine blkNr).Run [] (trace.map ringLabel) queue ∧
        ∃ start pkgs, RingInv blkNr last start pkgs ∧ queue = contents last pkgs := by
    refine hrun.refines (fun st queue => ∃ start pkgs, RingInv blkNr st start pkgs ∧
      queue = contents st pkgs) ringLabel ?_ ⟨0, [], hfirst, rfl⟩
    rintro st queue action next event ⟨start, pkgs, hinv, rfl⟩ hgood hstep
    obtain ⟨start', pkgs', hnext, heffect⟩ := hinv.step hgood hstep
    refine ⟨contents next pkgs', ?_, start', pkgs', hnext, rfl⟩
    cases event with
    | put id data =>
      obtain ⟨hroom, heq⟩ := heffect
      rw [heq]
      exact if_pos hroom
    | delivered id data =>
      change Fifo.step blkNr _ .take = _
      rw [show contents st pkgs = (id, data) :: contents next pkgs' from heffect]
      rfl
    | moved | ticked =>
      rw [show contents next pkgs' = contents st pkgs from heffect]
      rfl
    | control _ | dropped => exact heffect.elim
  have hhistory := (Fifo.run_history hfifo).1
  rw [history_ringLabel] at hhistory
  refine ⟨hrun.weaken _ hstays (fun _ _ ⟨_, _, hinv⟩ _ => hinv.storesFree) ⟨0, [], hfirst⟩,
    hlast.storesFree, _, hfifo, hhistory, fun hidle hempty => ?_⟩
  rw [contents, hidle, hlast.empty hempty]
  rfl

/-! ## A package across the end of the ring -/

instance (pkg : OutPkg) : Decidable pkg.Sound :=
  decidable_of_iff (0 < pkg.id.toNat ∧ pkg.id.toNat < rtVbusChannelNr ∧ 0 < pkg.len ∧
      pkg.len ≤ rtVbusMaxPktSz)
    ⟨fun ⟨hpos, hlt, hlen, hle⟩ => ⟨hpos, hlt, hlen, hle⟩,
      fun ⟨hpos, hlt, hlen, hle⟩ => ⟨hpos, hlt, hlen, hle⟩⟩

instance : (act : RingAction) → Decidable (DataTransfer act)
  | .take pkg _ => inferInstanceAs (Decidable pkg.Sound)
  | .check connected => inferInstanceAs (Decidable (connected = true))
  | .alloc success => inferInstanceAs (Decidable (success = true))
  | .space | .test | .kick | .resume | .unblock | .store | .put | .look | .readLen | .readId
  | .control | .load | .get | .push | .tick => inferInstanceAs (Decidable True)

/-- A package is written, and then read. -/
def scheduleTransfer (pkg : OutPkg) : List RingAction :=
  List.flatten [[.take pkg true, .space, .test], List.replicate (pkg.len + 3) .store,
    [.put, .look, .readLen, .readId, .check true, .alloc true], List.replicate pkg.len .load,
      [.get, .push, .tick]]

/-- Four packages of one block each, and one of two blocks, of which the second is the first
block of the ring. -/
def scheduleAcrossEnd : List RingAction :=
  List.flatMap scheduleTransfer [⟨1, 0, true, [10]⟩, ⟨2, 0, true, [20]⟩, ⟨1, 0, true, [30]⟩,
    ⟨2, 0, true, [40]⟩, ⟨3, 0, true, List.replicate 60 7 ++ [8]⟩]

set_option maxRecDepth 1024

theorem isSome_scheduleAcrossEnd : ((ringMachine 5).exec (fun _ act => DataTransfer act)
    ringInit scheduleAcrossEnd).isSome = true := by
  decide

theorem ring_transport_scheduleAcrossEnd : ∃ trace, ∃ last : RingState,
    (ringMachine 5).RunWith (fun st _ => StoresFree 5 st) ringInit trace last ∧
      putPkgs trace = deliveredPkgs trace ++ [] ∧ deliveredPkgs trace =
        [(1, [10]), (2, [20]), (1, [30]), (2, [40]), (3, List.replicate 60 7 ++ [8])] ∧
          last.ring.putIdx = 1 := by
  have hrun := Machine.runWith_of_isSome _ isSome_scheduleAcrossEnd
  obtain ⟨hfree, -, queue, -, hput, hempty⟩ := ring_transport (by decide) hrun
  have hidle : (((ringMachine 5).exec (fun _ action => DataTransfer action) ringInit
      scheduleAcrossEnd).get isSome_scheduleAcrossEnd).1.reader = .idle := by decide
  rw [hempty hidle (by decide)] at hput
  exact ⟨_, _, hfree, hput, by decide, by decide⟩

end Invariant

end RtThread.Vbus
