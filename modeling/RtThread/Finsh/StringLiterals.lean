import RtThread.Finsh.HeapRuns

set_option linter.all false

/-!
# String literals of a line

`finsh_node_new_string` puts a literal into a block of the shell heap, where it has to stay until
the line was executed.  A collection inside the allocation of a later literal knows only what the
global variables point to.
-/

namespace RtThread.Finsh

open RtThread.Core RtThread.Core.Tile
open RtThread.Ringbuffer (copyIn copyOut)

/-- A string node: its pointer, and the text of the literal without the closing zero. -/
structure StringNode where
  ptr : ℕ
  text : List UInt8
  deriving DecidableEq

/-- What a line has used so far.  The entries of the node table are taken in order. -/
structure LineState where
  heap : FinshHeap
  globals : List FinshVar
  nodes : ℕ
  strings : List StringNode
  memoryFull : Bool
  wroteNull : Bool

/-- The parser makes nodes, the virtual machine writes to variables and to memory. -/
inductive LineAction
  | newNode
  | newString (text : List UInt8)
  | setVariable (index : ℕ) (var : FinshVar)
  | store (address : ℕ) (byte : UInt8)

/-- `finsh_node_new_string`, for a node table of `nodeMax` entries.  The pointer that is written
through is not tested. -/
def finshNodeNewString (cfg : HeapConfig) (nodeMax : ℕ) (st : LineState)
    (text : List UInt8) : Option LineState :=
  if st.nodes = nodeMax then some { st with memoryFull := true }
  else do
    let (heap, ptr) ← finshHeapAllocate cfg st.globals st.heap (text.length + 1)
    match ptr with
    | none => return { st with heap, nodes := st.nodes + 1, wroteNull := true }
    | some ptr =>
      return { st with
        heap := { heap with data := copyIn (copyIn heap.data ptr text) (ptr + text.length) [0] }
        nodes := st.nodes + 1
        strings := st.strings ++ [⟨ptr, text⟩] }

def lineMachine (cfg : HeapConfig) (nodeMax : ℕ) : Machine LineState LineAction Unit where
  step st
    | .newNode =>
      if st.nodes = nodeMax then some ({ st with memoryFull := true }, ())
      else some ({ st with nodes := st.nodes + 1 }, ())
    | .newString text => (finshNodeNewString cfg nodeMax st text).map fun next => (next, ())
    | .setVariable index var =>
      some ({ st with globals := st.globals.set index var }, ())
    | .store address byte =>
      some ({ st with
        heap := { st.heap with data := Function.update st.heap.data address byte } }, ())

/-- The strings of the line are allocated, each in a block of its own and with its own bytes. -/
structure StringsAlive (cfg : HeapConfig) (st : LineState) : Prop where
  allocated : ∀ string ∈ st.strings,
    ∃ header ∈ blocksFrom st.heap cfg.fuel st.heap.allocateList,
      string.ptr = header + cfg.headerSize
  distinct : (st.strings.map StringNode.ptr).Nodup
  bytes : ∀ string ∈ st.strings,
    copyOut st.heap.data string.ptr (string.text.length + 1) = string.text ++ [0]
  noNull : st.wroteNull = false

/-- Between what a collection keeps there is room for a block of this size and a further header. -/
def Room (cfg : HeapConfig) (globals : List FinshVar) (heap : FinshHeap) (size : ℕ) : Prop :=
  ∃ low < cfg.heapMax + 1, low + (size + 2 * cfg.headerSize) ≤ cfg.heapMax ∧
    ∀ block ∈ blocksFrom heap cfg.fuel heap.allocateList, keeps cfg globals block →
      block + cfg.headerSize + heap.length block ≤ low ∨
        low + (size + 2 * cfg.headerSize) ≤ block

instance (globals : List FinshVar) (heap : FinshHeap) (size : ℕ) (cfg : HeapConfig) :
    Decidable (Room cfg globals heap size) :=
  inferInstanceAs (Decidable (∃ low < cfg.heapMax + 1, _ ∧ _))

/-- The allocation for a literal finds a block at once, or a collection keeps the strings of the
line and makes room for the block. -/
def Allocates (cfg : HeapConfig) (st : LineState) (size : ℕ) : Prop :=
  FirstFits cfg st.heap size ∨
    (∀ string ∈ st.strings, Referenced st.globals string.ptr) ∧
      Room cfg st.globals st.heap (heapAlignSize size)

instance (cfg : HeapConfig) (st : LineState) (size : ℕ) :
    Decidable (Allocates cfg st size) :=
  inferInstanceAs (Decidable (_ ∨ _))

/-- The line writes neither to a header nor to one of its own strings. -/
def Harmless (cfg : HeapConfig) (st : LineState) (address : ℕ) : Prop :=
  (∀ string ∈ st.strings,
    address < string.ptr ∨ string.ptr + string.text.length + 1 ≤ address) ∧
  ∀ block ∈ blocksFrom st.heap cfg.fuel st.heap.freeList ++
      blocksFrom st.heap cfg.fuel st.heap.allocateList,
    address < block ∨ block + cfg.headerSize ≤ address

instance (cfg : HeapConfig) (st : LineState) (address : ℕ) :
    Decidable (Harmless cfg st address) :=
  inferInstanceAs (Decidable (_ ∧ _))

/-- What keeps the strings of a line alive. -/
def Careful (cfg : HeapConfig) (nodeMax : ℕ) (st : LineState) : LineAction → Prop
  | .newString text => st.nodes = nodeMax ∨ Allocates cfg st (text.length + 1)
  | .store address _ => Harmless cfg st address
  | _ => True

instance (cfg : HeapConfig) (nodeMax : ℕ) (st : LineState) (act : LineAction) :
    Decidable (Careful cfg nodeMax st act) :=
  match act with
  | .newNode => inferInstanceAs (Decidable True)
  | .newString text => inferInstanceAs (Decidable (st.nodes = nodeMax ∨
      Allocates cfg st (text.length + 1)))
  | .setVariable _ _ => inferInstanceAs (Decidable True)
  | .store address _ => inferInstanceAs (Decidable (Harmless cfg st address))

/-! ## Memory -/

section Memory

variable {buffer buffer' : ℕ → UInt8} {start length : ℕ}

theorem copyOut_congr (hsame : ∀ slot, start ≤ slot → slot < start + length →
    buffer slot = buffer' slot) : copyOut buffer start length = copyOut buffer' start length := by
  refine List.map_congr_left fun index hindex => hsame _ (Nat.le_add_right _ _) ?_
  exact Nat.add_lt_add_left (List.mem_range.1 hindex) start

theorem copyOut_copyIn_apart {other : ℕ} {bytes : List UInt8}
    (hapart : start + length ≤ other ∨ other + bytes.length ≤ start) :
    copyOut (copyIn buffer other bytes) start length = copyOut buffer start length := by
  refine copyOut_congr fun slot hlow hhigh => ?_
  rcases hapart with hbelow | habove
  · exact Ringbuffer.copyIn_of_lt (by omega)
  · exact Ringbuffer.copyIn_of_ge (by omega)

theorem copyOut_text (text : List UInt8) :
    copyOut (copyIn (copyIn buffer start text) (start + text.length) [0]) start
      (text.length + 1) = text ++ [0] := by
  rw [Ringbuffer.copyOut_add, copyOut_copyIn_apart (.inl le_rfl), Ringbuffer.copyOut_copyIn]
  exact congrArg (text ++ ·) (Ringbuffer.copyOut_copyIn _ _ [0])

end Memory

/-! ## One step -/

variable {cfg : HeapConfig} {nodeMax : ℕ} {st next : LineState} {blocks : List Tile}

/-- The strings are alive in the heap of these blocks, and long enough for their texts. -/
structure Keeping (cfg : HeapConfig) (st : LineState) (blocks : List Tile) : Prop where
  wellFormed : WellFormed cfg st.heap blocks
  allocated : ∀ string ∈ st.strings, ∃ header ∈ inState true blocks,
    string.ptr = header + cfg.headerSize ∧
      string.text.length + 1 ≤ st.heap.length header
  distinct : (st.strings.map StringNode.ptr).Nodup
  bytes : ∀ string ∈ st.strings,
    copyOut st.heap.data string.ptr (string.text.length + 1) = string.text ++ [0]
  noNull : st.wroteNull = false

theorem Keeping.alive (hkeeping : Keeping cfg st blocks) : StringsAlive cfg st where
  allocated string hmem := by
    obtain ⟨header, hheader, hptr, -⟩ := hkeeping.allocated string hmem
    exact ⟨header, hkeeping.wellFormed.blocksFrom_allocate ▸ hheader, hptr⟩
  distinct := hkeeping.distinct
  bytes := hkeeping.bytes
  noNull := hkeeping.noNull

/-- The header and the lists do not depend on the data bytes. -/
theorem WellFormed.setData {heap : FinshHeap} (hheap : WellFormed cfg heap blocks)
    (data : ℕ → UInt8) : WellFormed cfg { heap with data } blocks where
  tiling := ⟨⟨hheap.tiling.lists.chain, hheap.tiling.lists.nodup, hheap.tiling.lists.apart⟩,
    hheap.tiling.filled, hheap.tiling.last⟩
  coalesced := hheap.coalesced

theorem le_heapAlignSize (size : ℕ) : size ≤ heapAlignSize size := by
  rw [heapAlignSize]
  omega

/-- A block is taken for a text while the strings are kept. -/
theorem Keeping.newString (hkeeping : Keeping cfg st blocks) {heap : FinshHeap}
    {kept : List ℕ} {text : List UInt8} {header : ℕ}
    (htaken : Taken cfg st.heap heap kept (heapAlignSize (text.length + 1)) header)
    (hkept : ∀ string ∈ st.strings, ∃ block ∈ kept, string.ptr = block + cfg.headerSize ∧
      string.text.length + 1 ≤ st.heap.length block) :
    ∃ blocks, Keeping cfg { st with
      heap := { heap with
        data := copyIn (copyIn heap.data (header + cfg.headerSize) text)
          (header + cfg.headerSize + text.length) [0] }
      nodes := st.nodes + 1
      strings := st.strings ++ [⟨header + cfg.headerSize, text⟩] } blocks := by
  obtain ⟨blocks', hwell, hperm⟩ := htaken.wellFormed
  have hheader : header ∈ inState true blocks' := hperm.mem_iff.2 List.mem_cons_self
  have hnot : header ∉ kept := by
    have hnodup := hwell.tiling.lists.nodup .allocate
    exact (List.nodup_cons.1 (hperm.nodup_iff.1 hnodup)).1
  have hroom : text.length + 1 ≤ heap.length header :=
    htaken.length_self ▸ le_heapAlignSize (text.length + 1)
  have hin : ∀ block ∈ kept, block ∈ inState true blocks' := fun block hblock =>
    hperm.mem_iff.2 (List.mem_cons_of_mem header hblock)
  refine ⟨blocks', hwell.setData _, ?_, ?_, ?_, hkeeping.noNull⟩
  · intro string hmem
    rcases List.mem_append.1 hmem with hmem | hmem
    · obtain ⟨block, hblock, hptr, hlength⟩ := hkept string hmem
      exact ⟨block, hin block hblock, hptr, (htaken.length block hblock).symm ▸ hlength⟩
    · rw [List.mem_singleton.1 hmem]
      exact ⟨header, hheader, rfl, hroom⟩
  · rw [List.map_append]
    refine List.nodup_append.2 ⟨hkeeping.distinct, List.nodup_singleton _, ?_⟩
    rintro ptr hptr other hother rfl
    obtain ⟨string, hmem, rfl⟩ := List.mem_map.1 hptr
    obtain ⟨block, hblock, heq, -⟩ := hkept string hmem
    have hsame : string.ptr = header + cfg.headerSize := List.mem_singleton.1 hother
    exact hnot ((by omega : block = header) ▸ hblock)
  · intro string hmem
    rcases List.mem_append.1 hmem with hmem | hmem
    · obtain ⟨block, hblock, hptr, hlength⟩ := hkept string hmem
      have hne : block ≠ header := ne_of_mem_of_not_mem hblock hnot
      have hblockLength := htaken.length block hblock
      have hself := htaken.length_self
      have hdisjoint := hwell.apart (hin block hblock) hheader hne
      rw [copyOut_copyIn_apart (by rw [List.length_singleton]; omega),
        copyOut_copyIn_apart (by omega), htaken.data,
        copyOut_copyIn_apart (by rw [List.length_replicate]; omega)]
      exact hkeeping.bytes string hmem
    · rw [List.mem_singleton.1 hmem]
      exact copyOut_text text

/-- What the condition on an allocation says about its result. -/
theorem Keeping.allocates (hkeeping : Keeping cfg st blocks) {size : ℕ}
    (hallocates : Allocates cfg st size) :
    ∃ heap header kept, finshHeapAllocate cfg st.globals st.heap size =
        some (heap, some (header + cfg.headerSize)) ∧
      Taken cfg st.heap heap kept (heapAlignSize size) header ∧
      ∀ string ∈ st.strings, ∃ block ∈ kept, string.ptr = block + cfg.headerSize ∧
        string.text.length + 1 ≤ st.heap.length block := by
  obtain ⟨heap, kept, hkept, hresult⟩ :=
    @finshHeapAllocate_spec cfg st.heap st.globals blocks size hkeeping.wellFormed
  have hstrings : ∀ string ∈ st.strings, ∃ block ∈ kept,
      string.ptr = block + cfg.headerSize ∧
        string.text.length + 1 ≤ st.heap.length block := by
    intro string hmem
    obtain ⟨block, hblock, hptr, hlength⟩ := hkeeping.allocated string hmem
    refine ⟨block, ?_, hptr, hlength⟩
    rw [hkept]
    split_ifs with hfirst
    · exact hblock
    · obtain ⟨hreferenced, -⟩ := hallocates.resolve_left hfirst
      refine List.mem_filter.2 ⟨hblock, decide_eq_true ?_⟩
      rw [← hptr]
      exact hreferenced string hmem
  rcases hresult with ⟨header, hallocate, htaken⟩ | ⟨hfirst, -, hnone⟩
  · exact ⟨heap, header, kept, hallocate, htaken, hstrings⟩
  · exfalso
    obtain ⟨-, low, -, hlow, hapart⟩ := hallocates.resolve_left hfirst
    obtain ⟨blocks', hwell, hused, hshort⟩ := hnone.wellFormed
    have hpos := cfg.headerSize_pos
    obtain ⟨block, hblock, hle⟩ := hwell.exists_free (by omega) hlow fun block hblock => by
      rw [hused] at hblock
      rw [hnone.length block hblock]
      rw [hkept, if_neg hfirst] at hblock
      obtain ⟨hmem, hkeeps⟩ := List.mem_filter.1 hblock
      exact hapart block (hkeeping.wellFormed.blocksFrom_allocate ▸ hmem) hkeeps
    have := hshort block hblock
    omega

theorem Keeping.step (hkeeping : Keeping cfg st blocks) {act : LineAction}
    (hcareful : Careful cfg nodeMax st act)
    (hstep : (lineMachine cfg nodeMax).step st act = some (next, ())) :
    ∃ blocks, Keeping cfg next blocks := by
  cases act with
  | newNode =>
    change (if _ then _ else _) = _ at hstep
    split_ifs at hstep
    all_goals
      cases hstep
      exact ⟨blocks, hkeeping.wellFormed, hkeeping.allocated, hkeeping.distinct,
        hkeeping.bytes, hkeeping.noNull⟩
  | newString text =>
    change (finshNodeNewString cfg nodeMax st text).map _ = _ at hstep
    rw [finshNodeNewString] at hstep
    split_ifs at hstep with hnodes
    · cases hstep
      exact ⟨blocks, hkeeping.wellFormed, hkeeping.allocated, hkeeping.distinct,
        hkeeping.bytes, hkeeping.noNull⟩
    · obtain ⟨heap, header, kept, hallocate, htaken, hkept⟩ :=
        hkeeping.allocates (hcareful.resolve_left hnodes)
      rw [hallocate] at hstep
      cases hstep
      exact hkeeping.newString htaken hkept
  | setVariable index var =>
    cases hstep
    exact ⟨blocks, hkeeping.wellFormed, hkeeping.allocated, hkeeping.distinct,
      hkeeping.bytes, hkeeping.noNull⟩
  | store address byte =>
    cases hstep
    refine ⟨blocks, hkeeping.wellFormed.setData _, hkeeping.allocated, hkeeping.distinct,
      fun string hmem => ?_, hkeeping.noNull⟩
    have haway := hcareful.1 string hmem
    refine Eq.trans (copyOut_congr fun slot hlow hhigh => ?_) (hkeeping.bytes string hmem)
    exact Function.update_of_ne (by omega) ..

/-! ## Lines -/

/-- A line begins with whatever earlier lines left in the heap and in the variables. -/
def lineStart (heap : FinshHeap) (data : ℕ → UInt8) (globals : List FinshVar) : LineState :=
  ⟨{ heap with data }, globals, 0, [], false, false⟩

/-- In a line whose literals all find a block without a collection of its strings, and that does
not write to its strings, they stay alive to the end. -/
theorem strings_alive {cfg : HeapConfig} {nodeMax : ℕ} {heap : FinshHeap}
    {past : List (HeapAction × Option ℕ)} {data : ℕ → UInt8} {globals : List FinshVar}
    {trace : List (LineAction × Unit)} {last : LineState}
    (hpast : (heapMachine cfg).RunWith (Allowed cfg) (finshHeapInit cfg) past heap)
    (hrun : (lineMachine cfg nodeMax).RunWith (Careful cfg nodeMax)
      (lineStart heap data globals) trace last) :
    (lineMachine cfg nodeMax).RunWith (fun st _ => StringsAlive cfg st)
        (lineStart heap data globals) trace last ∧ StringsAlive cfg last := by
  have hheap := hpast.invariant (fun heap => ∃ blocks, WellFormed cfg heap blocks)
    (fun heap action after result ⟨blocks, hheap⟩ hallowed hstep => by
      obtain ⟨after', result', hstep', hafter⟩ := step_wellFormed hheap hallowed
      rw [hstep] at hstep'
      cases hstep'
      exact hafter) ⟨_, wellFormed_init cfg⟩
  obtain ⟨blocks, hheap⟩ := hheap
  have hstart : ∃ blocks, Keeping cfg (lineStart heap data globals) blocks := by
    refine ⟨blocks, hheap.setData data, ?_, List.nodup_nil, ?_, rfl⟩
    · rintro string ⟨⟩
    · rintro string ⟨⟩
  obtain ⟨hvisited, hlast⟩ := hrun.always (fun st => ∃ blocks, Keeping cfg st blocks)
    (fun st action next _ ⟨_, hkeeping⟩ hcareful hstep => hkeeping.step hcareful hstep) hstart
  refine ⟨hvisited.mono ?_, ?_⟩
  · rintro st - ⟨blocks, hkeeping⟩
    exact hkeeping.alive
  · obtain ⟨blocks, hkeeping⟩ := hlast
    exact hkeeping.alive

/-- Two literals of three bytes in an empty heap. -/
def shortLine : List LineAction :=
  [.newString [0x61, 0x62, 0x63], .newNode, .newString [0x64, 0x65, 0x66],
    .setVariable 0 ⟨true, some 8⟩]

def emptyHeapLine : LineState :=
  lineStart (finshHeapInit heapConfig32) (fun _ => 0) (List.replicate 8 ⟨false, none⟩)

theorem isSome_shortLine : ((lineMachine heapConfig32 16).exec (Careful heapConfig32 16)
    emptyHeapLine shortLine).isSome = true := by
  decide

theorem strings_alive_shortLine : ∃ last trace, StringsAlive heapConfig32 last ∧
    last.strings = [⟨8, [0x61, 0x62, 0x63]⟩, ⟨20, [0x64, 0x65, 0x66]⟩] ∧
    (lineMachine heapConfig32 16).RunWith (Careful heapConfig32 16) emptyHeapLine trace last :=
  ⟨_, _, (strings_alive (.nil _) (Machine.runWith_of_isSome shortLine isSome_shortLine)).2,
    by decide, Machine.runWith_of_isSome shortLine isSome_shortLine⟩

/-- Two literals of sixty bytes, and one of a hundred and twenty. -/
def longLine : List LineAction :=
  [.newString (List.replicate 60 0x61), .newString (List.replicate 60 0x62)]

def longerLine : List LineAction :=
  [.newString (List.replicate 120 0x61)]

theorem isSome_longLine : ((lineMachine heapConfig32 16).exec (fun _ _ => True)
    emptyHeapLine longLine).isSome = true := by
  decide

theorem isSome_longerLine : ((lineMachine heapConfig32 16).exec (fun _ _ => True)
    emptyHeapLine longerLine).isSome = true := by
  decide +kernel

/-- The second literal gets the block of the first one, and a literal for which there is no block
is written through `NULL`. -/
theorem strings_lost :
    (∃ last trace, (lineMachine heapConfig32 16).Run emptyHeapLine trace last ∧
      last.strings.map StringNode.ptr = [8, 8] ∧ ¬ StringsAlive heapConfig32 last) ∧
    ∃ last trace, (lineMachine heapConfig32 16).Run emptyHeapLine trace last ∧
      last.wroteNull = true ∧ ¬ StringsAlive heapConfig32 last := by
  refine ⟨⟨_, _, Machine.runWith_of_isSome longLine isSome_longLine, ?_, ?_⟩,
    ⟨_, _, Machine.runWith_of_isSome longerLine isSome_longerLine, ?_, ?_⟩⟩
  · decide
  · intro halive
    have hdistinct := halive.distinct
    revert hdistinct
    decide
  · decide
  · intro halive
    have hnull := halive.noNull
    revert hnull
    decide

end RtThread.Finsh
