import RtThread.Core.Machine

set_option linter.all false

/-!
# A ring of the virtual bus

The bytes of the blocks, the indices and the `blocked` flag of one ring, with
the loop of `_bus_out_entry` on the side that writes it and the loop of
`_bus_in_entry` on the side that reads it.  Both sides run at the same time, and
`rt_memcpy` goes byte by byte.
-/

namespace RtThread.Vbus

open RtThread.Core

/-- `RT_VBUS_CHANNEL_NR`, `RT_VBUS_BLK_HEAD_SZ` and `RT_VBUS_MAX_PKT_SZ`. -/
def rtVbusChannelNr : ℕ := 32

def rtVbusBlkHeadSz : ℕ := 4

def rtVbusMaxPktSz : ℕ := 252

/-- `sizeof(struct rt_vbus_blk)`. -/
def sizeofRtVbusBlk : ℕ := 64

/-- `LEN2BNR`. -/
def len2bnr (len : ℕ) : ℕ :=
  (len + rtVbusBlkHeadSz + sizeofRtVbusBlk - 1) / sizeofRtVbusBlk

/-- `struct rt_vbus_ring`; `blks` has the bytes of all blocks. -/
structure RtVbusRing where
  putIdx : ℕ
  getIdx : ℕ
  blocked : Bool
  blks : ℕ → UInt8

/-- A `struct rt_vbus_pkg` with the `len` bytes behind `data`. -/
structure OutPkg where
  id : UInt8
  prio : UInt8
  finished : Bool
  data : List UInt8
  deriving DecidableEq

def OutPkg.len (pkg : OutPkg) : ℕ :=
  pkg.data.length

section Operations

variable (blkNr : ℕ)

/-- The index behind `bnr` blocks. -/
def wrapIdx (idx bnr : ℕ) : ℕ :=
  if blkNr ≤ idx + bnr then idx + bnr - blkNr else idx + bnr

/-- `_ring_add_get_bnr`. -/
def ringAddGetBnr (ring : RtVbusRing) (bnr : ℕ) : RtVbusRing :=
  { ring with getIdx := wrapIdx blkNr ring.getIdx bnr }

def busRingSpaceNr (rg : RtVbusRing) : ℤ :=
  let delta : ℤ := rg.getIdx - rg.putIdx
  if 0 < delta then delta - 1 else blkNr + delta - 1

/-- The bytes of a package of `len` bytes that are in front of the end of the ring. -/
def tailsz (idx len : ℕ) : ℕ :=
  let tailsz := (blkNr - idx) * sizeofRtVbusBlk - rtVbusBlkHeadSz
  if len < tailsz then len else tailsz

/-- Where the data of a package whose first block is `idx` lie. -/
def dataAddrs (idx len : ℕ) : List ℕ :=
  let start := sizeofRtVbusBlk * idx + rtVbusBlkHeadSz
  if blkNr ≤ idx + len2bnr len then
    (List.range (tailsz blkNr idx len)).map (start + ·) ++ List.range (len - tailsz blkNr idx len)
  else (List.range len).map (start + ·)

/-- The head and the data of a package, in the order in which they are stored. -/
def stores (idx : ℕ) (pkg : OutPkg) : List (ℕ × UInt8) :=
  (sizeofRtVbusBlk * idx, pkg.id) :: (sizeofRtVbusBlk * idx + 1, pkg.prio) ::
    (sizeofRtVbusBlk * idx + 2, UInt8.ofNat pkg.len) :: (dataAddrs blkNr idx pkg.len).zip pkg.data

end Operations

/-- The out thread: before it has a package, before it reads the space, at the test of the
space; in the loop after `blocked` is set, suspended, resumed; while it copies; at the
index. -/
inductive WriterPc
  | idle
  | spacing (pkg : OutPkg)
  | testing (pkg : OutPkg) (sp : ℤ)
  | kicking (pkg : OutPkg)
  | asleep (pkg : OutPkg)
  | woken (pkg : OutPkg)
  | storing (pkg : OutPkg) (pending : List (ℕ × UInt8))

/-- The in thread: at the test of the loop, before it reads the length, the id, and the
status of the channel; at a package of channel 0 and of another one; while it copies;
before `rt_vbus_data_push`; at the test of `blocked`. -/
inductive ReaderPc
  | idle
  | sizing
  | identifying (size : ℕ)
  | checking (id size : ℕ)
  | controlling (size : ℕ)
  | allocating (id size : ℕ)
  | loading (id size : ℕ) (pending : List ℕ) (bytes : List UInt8)
  | pushing (id : ℕ) (bytes : List UInt8)
  | testing
  deriving DecidableEq

structure RingState where
  ring : RtVbusRing
  writer : WriterPc
  reader : ReaderPc

inductive RingAction
  /-- The out thread gets a package; `connected` is `_chn_connected` of its channel. -/
  | take (pkg : OutPkg) (connected : Bool)
  | space
  | test
  | kick
  /-- `rt_vbus_isr` on the side of the writer resumes the out thread. -/
  | resume
  | unblock
  | store
  | put
  /-- The in thread. -/
  | look
  | readLen
  | readId
  | check (connected : Bool)
  | control
  /-- `rt_malloc` of a package. -/
  | alloc (success : Bool)
  | load
  | get
  | push
  | tick
  deriving DecidableEq

inductive RingEvent
  | moved
  | put (id : ℕ) (data : List UInt8)
  | delivered (id : ℕ) (data : List UInt8)
  /-- A call of `_chn0_actor`. -/
  | control (data : List UInt8)
  | dropped
  | ticked

/-- A package that is dropped. -/
def dropPkg (blkNr : ℕ) (st : RingState) (size : ℕ) : RingState × RingEvent :=
  ({ st with ring := ringAddGetBnr blkNr st.ring (len2bnr size), reader := .idle }, .dropped)

def ringStep (blkNr : ℕ) (st : RingState) : RingAction → Option (RingState × RingEvent)
  | .take pkg connected =>
    match st.writer with
    | .idle =>
      if connected then some ({ st with writer := .spacing pkg }, .moved)
      else some (st, .moved)
    | _ => none
  | .space =>
    match st.writer with
    | .spacing pkg =>
      some ({ st with writer := .testing pkg (busRingSpaceNr blkNr st.ring) }, .moved)
    | _ => none
  | .test =>
    match st.writer with
    | .testing pkg sp =>
      if sp < len2bnr pkg.len then
        some ({ st with ring := { st.ring with blocked := true }, writer := .kicking pkg },
          .moved)
      else
        some ({ st with writer := .storing pkg (stores blkNr st.ring.putIdx pkg) }, .moved)
    | _ => none
  | .kick =>
    match st.writer with
    | .kicking pkg => some ({ st with writer := .asleep pkg }, .moved)
    | _ => none
  | .resume =>
    match st.writer with
    | .asleep pkg => some ({ st with writer := .woken pkg }, .moved)
    | _ => none
  | .unblock =>
    match st.writer with
    | .woken pkg =>
      some ({ st with ring := { st.ring with blocked := false }, writer := .spacing pkg },
        .moved)
    | _ => none
  | .store =>
    match st.writer with
    | .storing pkg ((address, byte) :: pending) =>
      some ({ st with
        ring := { st.ring with blks := Function.update st.ring.blks address byte }
        writer := .storing pkg pending }, .moved)
    | _ => none
  | .put =>
    match st.writer with
    | .storing pkg [] =>
      some ({ st with
        ring := { st.ring with putIdx := wrapIdx blkNr st.ring.putIdx (len2bnr pkg.len) }
        writer := .idle }, .put pkg.id.toNat pkg.data)
    | _ => none
  | .look =>
    match st.reader with
    | .idle =>
      if st.ring.getIdx = st.ring.putIdx then some (st, .moved)
      else some ({ st with reader := .sizing }, .moved)
    | _ => none
  | .readLen =>
    match st.reader with
    | .sizing =>
      let size := st.ring.blks (sizeofRtVbusBlk * st.ring.getIdx + 2)
      some ({ st with reader := .identifying size.toNat }, .moved)
    | _ => none
  | .readId =>
    match st.reader with
    | .identifying size =>
      let id := st.ring.blks (sizeofRtVbusBlk * st.ring.getIdx)
      some ({ st with reader := .checking id.toNat size }, .moved)
    | _ => none
  | .check connected =>
    match st.reader with
    | .checking id size =>
      if rtVbusChannelNr < id ∨ connected = false then some (dropPkg blkNr st size)
      else if id = 0 then some ({ st with reader := .controlling size }, .moved)
      else some ({ st with reader := .allocating id size }, .moved)
    | _ => none
  | .control =>
    match st.reader with
    | .controlling size =>
      let start := sizeofRtVbusBlk * st.ring.getIdx + rtVbusBlkHeadSz
      let bytes := (List.range size).map fun index => st.ring.blks (start + index)
      if 60 < size then some (dropPkg blkNr st size)
      else some ((dropPkg blkNr st size).1, .control bytes)
    | _ => none
  | .alloc success =>
    match st.reader with
    | .allocating id size =>
      if success then
        some ({ st with
          reader := .loading id size (dataAddrs blkNr st.ring.getIdx size) [] }, .moved)
      else some (dropPkg blkNr st size)
    | _ => none
  | .load =>
    match st.reader with
    | .loading id size (address :: pending) bytes =>
      some ({ st with
        reader := .loading id size pending (bytes ++ [st.ring.blks address]) }, .moved)
    | _ => none
  | .get =>
    match st.reader with
    | .loading id size [] bytes =>
      some ({ st with
        ring := ringAddGetBnr blkNr st.ring (len2bnr size), reader := .pushing id bytes },
          .moved)
    | _ => none
  | .push =>
    match st.reader with
    | .pushing id bytes => some ({ st with reader := .testing }, .delivered id bytes)
    | _ => none
  | .tick =>
    match st.reader with
    | .testing =>
      if st.ring.blocked then some ({ st with reader := .idle }, .ticked)
      else some ({ st with reader := .idle }, .moved)
    | _ => none

def ringMachine (blkNr : ℕ) : Machine RingState RingAction RingEvent where
  step := ringStep blkNr

/-- After `rt_vbus_init`. -/
def ringInit : RingState :=
  ⟨⟨0, 0, false, fun _ => 0⟩, .idle, .idle⟩

end RtThread.Vbus
