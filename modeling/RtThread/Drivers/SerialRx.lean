import RtThread.Core.NewestFifo
import RtThread.Drivers.Ringbuffer

set_option linter.all false

/-!
# Receiving on a serial port

`serial.c` keeps the received bytes in a software fifo with two 16-bit indices and a flag
for the full buffer.  In interrupt mode the interrupt stores one character at a time and a
reader takes one at a time, with the interrupts disabled; in DMA mode the controller writes
around the buffer and the interrupt and the reader move the indices by whole lengths.

The fifo refines a queue that keeps the newest bytes, `bufsz - 1` of them in interrupt mode
and `bufsz` in DMA mode, as long as no index is moved beyond 16 bits before it is reduced.
-/

namespace RtThread.SerialRx

open Function
open RtThread.Core
open RtThread.Ringbuffer (copyOut copyOut_around)

/-- `struct rt_serial_rx_fifo`, with the bytes behind `buffer`. -/
structure RtSerialRxFifo where
  buffer : ℕ → UInt8
  putIndex : ℕ
  getIndex : ℕ
  isFull : Bool

/-- The value of an `rt_uint16_t`. -/
def index16 (value : ℕ) : ℕ :=
  value % 0x10000

/-- The fifo `rt_serial_open` sets up. -/
def serialOpen (buffer : ℕ → UInt8) : RtSerialRxFifo where
  buffer := buffer
  putIndex := 0
  getIndex := 0
  isFull := false

def serialFifoCalcRecvedLen (bufsz : ℕ) (fifo : RtSerialRxFifo) : ℕ :=
  if fifo.putIndex = fifo.getIndex then
    if fifo.isFull = false then 0 else bufsz
  else if fifo.getIndex < fifo.putIndex then fifo.putIndex - fifo.getIndex
  else bufsz - (fifo.getIndex - fifo.putIndex)

/-! ## Interrupt mode -/

/-- `index += 1; if (index >= bufsz) index = 0;` -/
def nextIndex (bufsz index : ℕ) : ℕ :=
  if bufsz ≤ index16 (index + 1) then 0 else index16 (index + 1)

/-- What `RT_SERIAL_EVENT_RX_IND` does with a character. -/
def rxInd (bufsz : ℕ) (fifo : RtSerialRxFifo) (ch : UInt8) : RtSerialRxFifo :=
  let stored : RtSerialRxFifo :=
    { fifo with
      buffer := update fifo.buffer fifo.putIndex ch
      putIndex := nextIndex bufsz fifo.putIndex }
  -- if the next position is read index, discard this 'read char'
  if stored.putIndex = stored.getIndex then
    { stored with getIndex := nextIndex bufsz stored.getIndex, isFull := true }
  else stored

/-- The critical section of `_serial_int_rx`. -/
def serialIntRxChar (bufsz : ℕ) (fifo : RtSerialRxFifo) : Option (UInt8 × RtSerialRxFifo) :=
  if fifo.getIndex = fifo.putIndex ∧ fifo.isFull = false then none
  else some (fifo.buffer fifo.getIndex,
    { fifo with getIndex := nextIndex bufsz fifo.getIndex, isFull := false })

/-- A fifo of characters, by what the interrupt and a reader do to it. -/
structure CharFifo (State : Type*) where
  arrive : State → UInt8 → State
  take : State → Option (UInt8 × State)

/-- A call of `_serial_int_rx`: the characters still wanted and those already read. -/
structure Call where
  length : ℕ
  data : List UInt8

inductive IntAction (Reader : Type*)
  /-- The interrupt gets a character from the port. -/
  | getc (ch : UInt8)
  | call (reader : Reader) (length : ℕ)
  /-- One turn of the loop of a call. -/
  | turn (reader : Reader)

section IntMode

variable {State Reader : Type*} [DecidableEq Reader]

/-- The interrupt and any number of reading threads; a call that returns emits its data. -/
def intStep (ops : CharFifo State) :
    State × (Reader → Option Call) → IntAction Reader →
      Option ((State × (Reader → Option Call)) × Option (List UInt8))
  | (fifo, calls), .getc ch => some ((ops.arrive fifo ch, calls), none)
  | (fifo, calls), .call reader length =>
    match calls reader with
    | some _ => none
    | none => some ((fifo, update calls reader (some ⟨length, []⟩)), none)
  | (fifo, calls), .turn reader =>
    match calls reader with
    | none => none
    | some call =>
      if call.length = 0 then
        some ((fifo, update calls reader none), some call.data)
      else
        match ops.take fifo with
        | none => some ((fifo, update calls reader none), some call.data)
        | some (ch, rest) =>
          let further : Call := ⟨call.length - 1, call.data ++ [ch]⟩
          some ((rest, update calls reader (some further)), none)

def intMachine (ops : CharFifo State) :
    Machine (State × (Reader → Option Call)) (IntAction Reader) (Option (List UInt8)) where
  step := intStep ops

end IntMode

/-- The fifo in interrupt mode. -/
def serialFifo (bufsz : ℕ) : CharFifo RtSerialRxFifo where
  arrive := rxInd bufsz
  take := serialIntRxChar bufsz

/-- What it is for: a queue of the newest characters. -/
def newestFifo (capacity : ℕ) : CharFifo (List UInt8) where
  arrive queue ch := newest capacity (queue ++ [ch])
  take
    | [] => none
    | ch :: rest => some (ch, rest)

/-! ## DMA mode -/

def rtDmaRecvUpdateGetIndex (bufsz : ℕ) (fifo : RtSerialRxFifo) (len : ℕ) : RtSerialRxFifo :=
  let get := index16 (fifo.getIndex + len)
  { fifo with
    getIndex := if bufsz ≤ get then get % bufsz else get
    isFull := if fifo.isFull = true ∧ len ≠ 0 then false else fifo.isFull }

def rtDmaRecvUpdatePutIndex (bufsz : ℕ) (fifo : RtSerialRxFifo) (len : ℕ) : RtSerialRxFifo :=
  let put := index16 (fifo.putIndex + len)
  let moved : RtSerialRxFifo :=
    if fifo.getIndex ≤ fifo.putIndex then
      -- beyond the fifo end
      if bufsz ≤ put then
        { fifo with
          putIndex := put % bufsz
          isFull := if fifo.getIndex ≤ put % bufsz then true else fifo.isFull }
      else { fifo with putIndex := put }
    else if fifo.getIndex ≤ put then
      { fifo with putIndex := if bufsz ≤ put then put % bufsz else put, isFull := true }
    else { fifo with putIndex := put }
  if moved.isFull = true then { moved with getIndex := moved.putIndex } else moved

/-- `_serial_dma_rx` with a fifo, and the bytes it copies out. -/
def serialDmaRx (bufsz : ℕ) (fifo : RtSerialRxFifo) (length : ℕ) : RtSerialRxFifo × List UInt8 :=
  let fifoRecvedLen := serialFifoCalcRecvedLen bufsz fifo
  let recvLen := if length < fifoRecvedLen then length else fifoRecvedLen
  let data :=
    if fifo.getIndex + recvLen < bufsz then copyOut fifo.buffer fifo.getIndex recvLen
    else copyOut fifo.buffer fifo.getIndex (bufsz - fifo.getIndex) ++
      copyOut fifo.buffer 0 (recvLen + fifo.getIndex - bufsz)
  (rtDmaRecvUpdateGetIndex bufsz fifo recvLen, data)

/-- The fifo and the place in its buffer the DMA controller writes to next. -/
structure DmaState where
  fifo : RtSerialRxFifo
  position : ℕ

/-- The controller writes around the buffer. -/
def dmaTransfer (bufsz : ℕ) (buffer : ℕ → UInt8) (position : ℕ) (bytes : List UInt8) :
    ℕ → UInt8 :=
  fun slot => bytes.getD ((slot + bufsz - position) % bufsz) (buffer slot)

/-- An arrival is a transfer of the controller and the `RT_SERIAL_EVENT_RX_DMADONE` that
reports it; a read has the `int` length of `_serial_dma_rx`. -/
def dmaStep (bufsz : ℕ) (st : DmaState) :
    NewestFifo.Action UInt8 → Option (DmaState × List UInt8)
  | .arrive bytes =>
    if bytes.length ≤ bufsz then
      let transferred : RtSerialRxFifo :=
        { st.fifo with
          buffer := dmaTransfer bufsz st.fifo.buffer st.position bytes }
      some (⟨rtDmaRecvUpdatePutIndex bufsz transferred bytes.length,
        (st.position + bytes.length) % bufsz⟩, [])
    else none
  | .take length =>
    if length < 2 ^ 31 then
      let result := serialDmaRx bufsz st.fifo length
      some (⟨result.1, st.position⟩, result.2)
    else none

def dmaMachine (bufsz : ℕ) : Machine DmaState (NewestFifo.Action UInt8) (List UInt8) where
  step := dmaStep bufsz

/-- The step does not move an index beyond 16 bits. -/
def IndexFits (bufsz : ℕ) (st : DmaState) : NewestFifo.Action UInt8 → Prop
  | .arrive bytes => st.fifo.putIndex + bytes.length < 0x10000
  | .take length =>
    st.fifo.getIndex + min length (serialFifoCalcRecvedLen bufsz st.fifo) < 0x10000

instance (bufsz : ℕ) (st : DmaState) (act : NewestFifo.Action UInt8) :
    Decidable (IndexFits bufsz st act) :=
  match act with
  | .arrive _ => inferInstanceAs (Decidable (_ < _))
  | .take _ => inferInstanceAs (Decidable (_ < _))

/-! ## The fifo as a ring -/

/-- The fifo as slots with a count. -/
def ring (bufsz : ℕ) (fifo : RtSerialRxFifo) : RingBuffer UInt8 where
  pool := fifo.buffer
  size := bufsz
  entry := serialFifoCalcRecvedLen bufsz fifo
  inOffset := fifo.putIndex
  outOffset := fifo.getIndex

/-- The unread bytes, oldest first. -/
def content (bufsz : ℕ) (fifo : RtSerialRxFifo) : List UInt8 :=
  (ring bufsz fifo).content

/-- The indices lie in the buffer. -/
structure Indices (bufsz : ℕ) (fifo : RtSerialRxFifo) : Prop where
  put_lt : fifo.putIndex < bufsz
  get_lt : fifo.getIndex < bufsz

variable {bufsz length : ℕ} {fifo : RtSerialRxFifo} {ch : UInt8} {bytes : List UInt8}

theorem length_content : (content bufsz fifo).length = serialFifoCalcRecvedLen bufsz fifo :=
  RingBuffer.length_content _

theorem Indices.recvedLen_le (hindices : Indices bufsz fifo) :
    serialFifoCalcRecvedLen bufsz fifo ≤ bufsz := by
  have hput := hindices.put_lt
  rw [serialFifoCalcRecvedLen]
  split
  · split <;> omega
  · split <;> omega

/-- The put index is ahead of the get index by the received length, around the end. -/
theorem Indices.put_cases (hindices : Indices bufsz fifo) :
    fifo.getIndex + serialFifoCalcRecvedLen bufsz fifo = fifo.putIndex ∨
      fifo.getIndex + serialFifoCalcRecvedLen bufsz fifo = fifo.putIndex + bufsz := by
  obtain ⟨hput, hget⟩ := hindices
  rw [serialFifoCalcRecvedLen]
  split
  · split <;> omega
  · split <;> omega

theorem Indices.valid (hindices : Indices bufsz fifo) : (ring bufsz fifo).Valid where
  entry_le := hindices.recvedLen_le
  out_lt := hindices.get_lt
  in_eq := by
    change fifo.putIndex = (fifo.getIndex + serialFifoCalcRecvedLen bufsz fifo) % bufsz
    rcases hindices.put_cases with hcase | hcase
    · rw [hcase, Nat.mod_eq_of_lt hindices.put_lt]
    · rw [hcase, Nat.add_mod_right, Nat.mod_eq_of_lt hindices.put_lt]

variable {index : ℕ}

theorem nextIndex_eq (hlt : index < bufsz) (hbufsz : bufsz < 0x10000) :
    nextIndex bufsz index = (index + 1) % bufsz := by
  have hindex : index16 (index + 1) = index + 1 := Nat.mod_eq_of_lt (by omega)
  rw [nextIndex, hindex]
  split
  · have heq : index + 1 = bufsz := by omega
    rw [heq, Nat.mod_self]
  · rw [Nat.mod_eq_of_lt (by omega)]

/-! ## Interrupt mode keeps the newest characters -/

/-- The full flag is down when the indices meet. -/
structure IntInv (bufsz : ℕ) (fifo : RtSerialRxFifo) : Prop extends Indices bufsz fifo where
  not_full : fifo.putIndex = fifo.getIndex → fifo.isFull = false

theorem IntInv.recvedLen_eq_zero (hinv : IntInv bufsz fifo)
    (hmeet : fifo.putIndex = fifo.getIndex) : serialFifoCalcRecvedLen bufsz fifo = 0 := by
  rw [serialFifoCalcRecvedLen, if_pos hmeet, if_pos (hinv.not_full hmeet)]

theorem IntInv.recvedLen_lt (hinv : IntInv bufsz fifo) :
    serialFifoCalcRecvedLen bufsz fifo < bufsz := by
  have hput := hinv.put_lt
  by_cases hmeet : fifo.putIndex = fifo.getIndex
  · rw [hinv.recvedLen_eq_zero hmeet]
    omega
  · rw [serialFifoCalcRecvedLen, if_neg hmeet]
    split <;> omega

variable {buffer : ℕ → UInt8}

theorem IntInv.init (hbufsz : 0 < bufsz) : IntInv bufsz (serialOpen buffer) where
  put_lt := hbufsz
  get_lt := hbufsz
  not_full _ := rfl

/-- A length that fits the indices is the received length. -/
theorem Indices.recvedLen_eq (hindices : Indices bufsz fifo) {count : ℕ}
    (hmeet : fifo.putIndex ≠ fifo.getIndex) (hcount : count ≤ bufsz)
    (hahead : fifo.getIndex + count = fifo.putIndex ∨
      fifo.getIndex + count = fifo.putIndex + bufsz) :
    serialFifoCalcRecvedLen bufsz fifo = count := by
  have hle := hindices.recvedLen_le
  have hcases := hindices.put_cases
  omega

theorem nextIndex_cases (hlt : index < bufsz) (hbufsz : bufsz < 0x10000) :
    (index + 1 < bufsz ∧ nextIndex bufsz index = index + 1) ∨
      (index + 1 = bufsz ∧ nextIndex bufsz index = 0) := by
  have hindex : index16 (index + 1) = index + 1 := Nat.mod_eq_of_lt (by omega)
  rw [nextIndex, hindex]
  split <;> omega

theorem IntInv.stored {fifo' : RtSerialRxFifo} (hinv : IntInv bufsz fifo)
    (hlow : 2 ≤ bufsz) (hbufsz : bufsz < 0x10000)
    (hbuffer : fifo'.buffer = update fifo.buffer fifo.putIndex ch)
    (hput : fifo'.putIndex = nextIndex bufsz fifo.putIndex)
    (hget : fifo'.getIndex =
      (fifo.getIndex + (serialFifoCalcRecvedLen bufsz fifo + 1 - (bufsz - 1))) % bufsz)
    (hlen : serialFifoCalcRecvedLen bufsz fifo' =
      min (serialFifoCalcRecvedLen bufsz fifo + 1) (bufsz - 1)) :
    content bufsz fifo' = newest (bufsz - 1) (content bufsz fifo ++ [ch]) := by
  have hput_lt := hinv.put_lt
  refine RingBuffer.Overwritten.content_eq ?_ hinv.valid
  refine ⟨?_, Nat.sub_le _ _, rfl, ?_, hget, hlen, ?_, ?_⟩
  · rw [List.length_singleton]
    omega
  · exact hput.trans (nextIndex_eq hput_lt hbufsz)
  · intro index hindex
    have hzero : index = 0 := by simpa using hindex
    subst hzero
    change fifo'.buffer ((fifo.putIndex + 0) % bufsz) = ch
    rw [hbuffer, Nat.add_zero, Nat.mod_eq_of_lt hput_lt, update_self]
  · intro slot _ hne
    have hfirst : slot ≠ (fifo.putIndex + 0) % bufsz := hne 0 Nat.one_pos
    rw [Nat.add_zero, Nat.mod_eq_of_lt hput_lt] at hfirst
    change fifo'.buffer slot = fifo.buffer slot
    rw [hbuffer, update_of_ne hfirst]

theorem rxInd_spec (hinv : IntInv bufsz fifo) (hlow : 2 ≤ bufsz) (hbufsz : bufsz < 0x10000)
    (ch : UInt8) :
    IntInv bufsz (rxInd bufsz fifo ch) ∧
      content bufsz (rxInd bufsz fifo ch) = newest (bufsz - 1) (content bufsz fifo ++ [ch]) := by
  have hput := hinv.put_lt
  have hget := hinv.get_lt
  have hlen := hinv.recvedLen_lt
  have hahead := hinv.put_cases
  have hnextPut := nextIndex_cases hput hbufsz
  have hnextGet := nextIndex_cases hget hbufsz
  rw [rxInd]
  dsimp only
  split
  · next hfull =>
    -- the put index has caught up with the get index, which moves on
    have hcount : serialFifoCalcRecvedLen bufsz fifo = bufsz - 1 := by omega
    set fifo' : RtSerialRxFifo :=
      { fifo with
        buffer := update fifo.buffer fifo.putIndex ch
        putIndex := nextIndex bufsz fifo.putIndex
        getIndex := nextIndex bufsz fifo.getIndex
        isFull := true } with hfifo'
    have hindices' : Indices bufsz fifo' := by
      constructor
      · change nextIndex bufsz fifo.putIndex < bufsz
        omega
      · change nextIndex bufsz fifo.getIndex < bufsz
        omega
    have hapart : fifo'.putIndex ≠ fifo'.getIndex := by
      change nextIndex bufsz fifo.putIndex ≠ nextIndex bufsz fifo.getIndex
      omega
    have hlen' : serialFifoCalcRecvedLen bufsz fifo' = bufsz - 1 := by
      refine hindices'.recvedLen_eq hapart (Nat.sub_le _ _) ?_
      change nextIndex bufsz fifo.getIndex + (bufsz - 1) = nextIndex bufsz fifo.putIndex ∨
        nextIndex bufsz fifo.getIndex + (bufsz - 1) = nextIndex bufsz fifo.putIndex + bufsz
      omega
    refine ⟨⟨hindices', fun hmeet => absurd hmeet hapart⟩,
      hinv.stored hlow hbufsz rfl rfl ?_ ?_⟩
    · have hone : bufsz - 1 + 1 - (bufsz - 1) = 1 := by omega
      rw [hcount, hone]
      exact nextIndex_eq hget hbufsz
    · rw [hlen', hcount]
      omega
  · next hfree =>
    set fifo' : RtSerialRxFifo :=
      { fifo with
        buffer := update fifo.buffer fifo.putIndex ch
        putIndex := nextIndex bufsz fifo.putIndex } with hfifo'
    have hindices' : Indices bufsz fifo' := by
      refine ⟨?_, hget⟩
      change nextIndex bufsz fifo.putIndex < bufsz
      omega
    have hlen' : serialFifoCalcRecvedLen bufsz fifo' = serialFifoCalcRecvedLen bufsz fifo + 1 := by
      refine hindices'.recvedLen_eq hfree hlen ?_
      change fifo.getIndex + (serialFifoCalcRecvedLen bufsz fifo + 1) =
          nextIndex bufsz fifo.putIndex ∨
        fifo.getIndex + (serialFifoCalcRecvedLen bufsz fifo + 1) =
          nextIndex bufsz fifo.putIndex + bufsz
      omega
    have hroom : serialFifoCalcRecvedLen bufsz fifo + 1 ≤ bufsz - 1 := by
      omega
    refine ⟨⟨hindices', fun hmeet => absurd hmeet hfree⟩,
      hinv.stored hlow hbufsz rfl rfl ?_ ?_⟩
    · rw [Nat.sub_eq_zero_of_le hroom, Nat.add_zero, Nat.mod_eq_of_lt hget]
    · rw [hlen', min_eq_left hroom]

theorem serialIntRxChar_none (hinv : IntInv bufsz fifo)
    (hnone : serialIntRxChar bufsz fifo = none) : content bufsz fifo = [] := by
  rw [serialIntRxChar] at hnone
  split at hnone
  · next hempty =>
    apply List.eq_nil_of_length_eq_zero
    rw [length_content, hinv.recvedLen_eq_zero hempty.1.symm]
  · contradiction

theorem serialIntRxChar_some {rest : RtSerialRxFifo} (hinv : IntInv bufsz fifo)
    (hlow : 2 ≤ bufsz) (hbufsz : bufsz < 0x10000)
    (hsome : serialIntRxChar bufsz fifo = some (ch, rest)) :
    IntInv bufsz rest ∧ content bufsz fifo = ch :: content bufsz rest := by
  have hput := hinv.put_lt
  have hget := hinv.get_lt
  have hlen := hinv.recvedLen_lt
  have hahead := hinv.put_cases
  have hnext := nextIndex_cases hget hbufsz
  rw [serialIntRxChar] at hsome
  split at hsome
  · contradiction
  · next hdata =>
    cases hsome
    have hapart : fifo.putIndex ≠ fifo.getIndex := fun hmeet =>
      hdata ⟨hmeet.symm, hinv.not_full hmeet⟩
    set rest : RtSerialRxFifo :=
      { fifo with getIndex := nextIndex bufsz fifo.getIndex, isFull := false } with hrest
    have hinv' : IntInv bufsz rest := by
      refine ⟨⟨hput, ?_⟩, fun _ => rfl⟩
      change nextIndex bufsz fifo.getIndex < bufsz
      omega
    have hlen' : serialFifoCalcRecvedLen bufsz rest = serialFifoCalcRecvedLen bufsz fifo - 1 := by
      by_cases hmeet : rest.putIndex = rest.getIndex
      · rw [hinv'.recvedLen_eq_zero hmeet]
        change fifo.putIndex = nextIndex bufsz fifo.getIndex at hmeet
        omega
      · refine hinv'.recvedLen_eq hmeet ((Nat.sub_le _ _).trans hinv.recvedLen_le) ?_
        change nextIndex bufsz fifo.getIndex + (serialFifoCalcRecvedLen bufsz fifo - 1) =
            fifo.putIndex ∨
          nextIndex bufsz fifo.getIndex + (serialFifoCalcRecvedLen bufsz fifo - 1) =
            fifo.putIndex + bufsz
        omega
    have hpop : ring bufsz rest = (ring bufsz fifo).pop := by
      have hout : nextIndex bufsz fifo.getIndex = RingBuffer.advance bufsz fifo.getIndex := by
        rw [nextIndex_eq hget hbufsz, RingBuffer.advance_eq_mod hget]
      change RingBuffer.mk _ _ _ _ (nextIndex bufsz fifo.getIndex) = _
      rw [hlen', hout]
      rfl
    refine ⟨hinv', ?_⟩
    rw [content, content, hpop]
    refine RingBuffer.content_pop hinv.valid ?_
    change 0 < serialFifoCalcRecvedLen bufsz fifo
    omega

/-! ## DMA mode keeps the newest bytes -/

/-- The full flag is up only when the indices meet. -/
structure DmaInv (bufsz : ℕ) (fifo : RtSerialRxFifo) : Prop extends Indices bufsz fifo where
  full : fifo.isFull = true → fifo.putIndex = fifo.getIndex

theorem DmaInv.init (hbufsz : 0 < bufsz) : DmaInv bufsz (serialOpen buffer) where
  put_lt := hbufsz
  get_lt := hbufsz
  full _ := rfl

theorem DmaInv.recvedLen_of_full (hinv : DmaInv bufsz fifo) (hfull : fifo.isFull = true) :
    serialFifoCalcRecvedLen bufsz fifo = bufsz := by
  rw [serialFifoCalcRecvedLen, if_pos (hinv.full hfull), hfull]
  rfl

theorem recvedLen_of_not_full (hfree : fifo.isFull = false) :
    serialFifoCalcRecvedLen bufsz fifo =
      if fifo.getIndex ≤ fifo.putIndex then fifo.putIndex - fifo.getIndex
      else bufsz - (fifo.getIndex - fifo.putIndex) := by
  rw [serialFifoCalcRecvedLen]
  split
  · next hmeet =>
    rw [if_pos hmeet.ge, hmeet, Nat.sub_self]
  · next hapart =>
    by_cases hlt : fifo.getIndex < fifo.putIndex
    · rw [if_pos hlt, if_pos hlt.le]
    · rw [if_neg hlt, if_neg (by omega)]

theorem add_mod_cases {len : ℕ} (hindex : index < bufsz) (hlen : len ≤ bufsz) :
    (index + len < bufsz ∧ (index + len) % bufsz = index + len) ∨
      (bufsz ≤ index + len ∧ (index + len) % bufsz = index + len - bufsz) := by
  rcases lt_or_ge (index + len) bufsz with hlt | hge
  · exact Or.inl ⟨hlt, Nat.mod_eq_of_lt hlt⟩
  · exact Or.inr ⟨hge, by rw [Nat.mod_eq_sub_mod hge, Nat.mod_eq_of_lt (by omega)]⟩

/-- With the flag down, a length below `bufsz` that fits the indices is the received one. -/
theorem Indices.recvedLen_eq_of_not_full (hindices : Indices bufsz fifo)
    (hfree : fifo.isFull = false) {count : ℕ} (hcount : count < bufsz)
    (hahead : fifo.getIndex + count = fifo.putIndex ∨
      fifo.getIndex + count = fifo.putIndex + bufsz) :
    serialFifoCalcRecvedLen bufsz fifo = count := by
  have hput := hindices.put_lt
  rw [recvedLen_of_not_full hfree]
  split <;> omega

/-- What the interrupt does to the indices: the get index follows the put index from the
moment the buffer is full on. -/
theorem rtDmaRecvUpdatePutIndex_eq {len : ℕ} (hinv : DmaInv bufsz fifo) (hlen : len ≤ bufsz)
    (hfits : fifo.putIndex + len < 0x10000) :
    rtDmaRecvUpdatePutIndex bufsz fifo len =
      { fifo with
        putIndex := (fifo.putIndex + len) % bufsz
        getIndex :=
          if bufsz ≤ serialFifoCalcRecvedLen bufsz fifo + len then (fifo.putIndex + len) % bufsz
          else fifo.getIndex
        isFull := decide (bufsz ≤ serialFifoCalcRecvedLen bufsz fifo + len) } := by
  have hput := hinv.put_lt
  have hget := hinv.get_lt
  have hindex : index16 (fifo.putIndex + len) = fifo.putIndex + len := Nat.mod_eq_of_lt hfits
  have hmod := add_mod_cases hput hlen
  set next := (fifo.putIndex + len) % bufsz with hnext
  cases hfull : fifo.isFull with
  | true =>
    have hmeet := hinv.full hfull
    have hcount := hinv.recvedLen_of_full hfull
    have hreached : bufsz ≤ serialFifoCalcRecvedLen bufsz fifo + len := by omega
    rw [rtDmaRecvUpdatePutIndex, hindex, if_pos hmeet.ge, hfull]
    rcases hmod with ⟨hlt, hsame⟩ | ⟨hge, -⟩
    · rw [if_neg hlt.not_ge]
      simp [hreached, hsame]
    · rw [if_pos hge, ite_self]
      simp [hreached, hnext]
  | false =>
    have hcount : serialFifoCalcRecvedLen bufsz fifo = _ := recvedLen_of_not_full hfull
    rw [rtDmaRecvUpdatePutIndex, hindex, hfull]
    by_cases hahead : fifo.getIndex ≤ fifo.putIndex
    · rw [if_pos hahead] at hcount ⊢
      rcases hmod with ⟨hlt, hsame⟩ | ⟨hge, hsame⟩
      · have hroom : ¬ bufsz ≤ serialFifoCalcRecvedLen bufsz fifo + len := by omega
        rw [if_neg hlt.not_ge]
        simp [hroom, hsame]
      · rw [if_pos hge]
        by_cases hpast : fifo.getIndex ≤ next
        · have hreached : bufsz ≤ serialFifoCalcRecvedLen bufsz fifo + len := by omega
          rw [if_pos hpast]
          simp [hreached, hnext]
        · have hroom : ¬ bufsz ≤ serialFifoCalcRecvedLen bufsz fifo + len := by omega
          rw [if_neg hpast]
          simp [hroom, hnext]
    · rw [if_neg hahead] at hcount ⊢
      by_cases hpast : fifo.getIndex ≤ fifo.putIndex + len
      · have hreached : bufsz ≤ serialFifoCalcRecvedLen bufsz fifo + len := by omega
        have hput' : (if bufsz ≤ fifo.putIndex + len then next else fifo.putIndex + len)
          = next := by
          split <;> omega
        rw [if_pos hpast, hput']
        simp [hreached]
      · have hroom : ¬ bufsz ≤ serialFifoCalcRecvedLen bufsz fifo + len := by omega
        have hsame : next = fifo.putIndex + len := by omega
        rw [if_neg hpast]
        simp [hroom, hsame]

/-- The place `(slot + bufsz - position) % bufsz` of a slot in what is written from
`position` on. -/
theorem dmaTransfer_new {position : ℕ} (hposition : position < bufsz) (hfits : bytes.length ≤ bufsz)
    (hindex : index < bytes.length) :
    dmaTransfer bufsz buffer position bytes ((position + index) % bufsz) = bytes[index] := by
  have hplace : ((position + index) % bufsz + bufsz - position) % bufsz = index := by
    rw [Nat.add_sub_assoc hposition.le, Nat.mod_add_mod]
    have hsum : position + index + (bufsz - position) = index + bufsz := by omega
    rw [hsum, Nat.add_mod_right, Nat.mod_eq_of_lt (by omega)]
  rw [dmaTransfer, hplace, List.getD_eq_getElem _ _ hindex]

theorem dmaTransfer_old {position slot : ℕ} (hposition : position < bufsz) (hslot : slot < bufsz)
    (hne : ∀ index < bytes.length, slot ≠ (position + index) % bufsz) :
    dmaTransfer bufsz buffer position bytes slot = buffer slot := by
  rw [dmaTransfer]
  refine List.getD_eq_default _ _ (le_of_not_gt fun hindex => hne _ hindex ?_)
  rw [Nat.add_mod_mod]
  have hsum : position + (slot + bufsz - position) = slot + bufsz := by omega
  rw [hsum, Nat.add_mod_right, Nat.mod_eq_of_lt hslot]

/-- The fifo after a transfer from the put index on and its interrupt. -/
theorem arrive_spec (hinv : DmaInv bufsz fifo) (hlen : bytes.length ≤ bufsz)
    (hfits : fifo.putIndex + bytes.length < 0x10000) {fifo' : RtSerialRxFifo}
    (hfifo' : fifo' = rtDmaRecvUpdatePutIndex bufsz
      { fifo with buffer := dmaTransfer bufsz fifo.buffer fifo.putIndex bytes } bytes.length) :
    DmaInv bufsz fifo' ∧ content bufsz fifo' = newest bufsz (content bufsz fifo ++ bytes) ∧
      fifo'.putIndex = (fifo.putIndex + bytes.length) % bufsz := by
  have hput := hinv.put_lt
  have hget := hinv.get_lt
  have hpos : 0 < bufsz := Nat.zero_lt_of_lt hput
  have hin := hinv.valid.in_eq
  change fifo.putIndex = (fifo.getIndex + serialFifoCalcRecvedLen bufsz fifo) % bufsz at hin
  have htransferred : DmaInv bufsz
      { fifo with buffer := dmaTransfer bufsz fifo.buffer fifo.putIndex bytes } :=
    ⟨⟨hput, hget⟩, hinv.full⟩
  rw [rtDmaRecvUpdatePutIndex_eq htransferred hlen hfits] at hfifo'
  have hsame : serialFifoCalcRecvedLen bufsz
      { fifo with buffer := dmaTransfer bufsz fifo.buffer fifo.putIndex bytes } =
      serialFifoCalcRecvedLen bufsz fifo := rfl
  have hput' : fifo'.putIndex = (fifo.putIndex + bytes.length) % bufsz := by rw [hfifo']
  have hput_lt : fifo'.putIndex < bufsz := by
    rw [hput']
    exact Nat.mod_lt _ hpos
  have hslots : fifo'.getIndex =
        (fifo.getIndex + (serialFifoCalcRecvedLen bufsz fifo + bytes.length - bufsz)) % bufsz →
      serialFifoCalcRecvedLen bufsz fifo' =
        min (serialFifoCalcRecvedLen bufsz fifo + bytes.length) bufsz →
      content bufsz fifo' = newest bufsz (content bufsz fifo ++ bytes) := by
    intro hout hentry
    refine RingBuffer.Overwritten.content_eq ?_ hinv.valid
    refine ⟨hlen, le_rfl, rfl, hput', hout, hentry, ?_, ?_⟩
    · intro index hindex
      rw [hfifo']
      exact dmaTransfer_new hput hlen hindex
    · intro slot hslot hne
      rw [hfifo']
      exact dmaTransfer_old hput hslot hne
  by_cases hreached : bufsz ≤ serialFifoCalcRecvedLen bufsz fifo + bytes.length
  · have hfull : fifo'.isFull = true := by
      rw [hfifo']
      exact decide_eq_true hreached
    have hget' : fifo'.getIndex = (fifo.putIndex + bytes.length) % bufsz := by
      rw [hfifo']
      exact if_pos hreached
    have hinv' : DmaInv bufsz fifo' :=
      ⟨⟨hput_lt, by rwa [hget', ← hput']⟩, fun _ => hput'.trans hget'.symm⟩
    refine ⟨hinv', hslots ?_ ?_, hput'⟩
    · rw [hget', hin, Nat.mod_add_mod, Nat.add_assoc, ← Nat.add_sub_assoc hreached,
        ← Nat.mod_eq_sub_mod (by omega)]
    · rw [hinv'.recvedLen_of_full hfull, min_eq_right hreached]
  · have hroom : serialFifoCalcRecvedLen bufsz fifo + bytes.length < bufsz := by omega
    have hfree : fifo'.isFull = false := by
      rw [hfifo']
      exact decide_eq_false hreached
    have hget' : fifo'.getIndex = fifo.getIndex := by
      rw [hfifo']
      exact if_neg hreached
    have hindices' : Indices bufsz fifo' := ⟨hput_lt, by rwa [hget']⟩
    refine ⟨⟨hindices', fun hfull => absurd (hfree.symm.trans hfull) Bool.false_ne_true⟩,
      hslots ?_ ?_, hput'⟩
    · rw [hget', Nat.sub_eq_zero_of_le hroom.le, Nat.add_zero, Nat.mod_eq_of_lt hget]
    · rw [min_eq_left hroom.le]
      refine hindices'.recvedLen_eq_of_not_full hfree hroom ?_
      have hahead := hinv.put_cases
      have hmod := add_mod_cases hput hlen
      rw [hget', hput']
      omega

theorem rtDmaRecvUpdateGetIndex_getIndex {len : ℕ}
    (hfits : fifo.getIndex + len < 0x10000) :
    (rtDmaRecvUpdateGetIndex bufsz fifo len).getIndex = (fifo.getIndex + len) % bufsz := by
  have hindex : index16 (fifo.getIndex + len) = fifo.getIndex + len := Nat.mod_eq_of_lt hfits
  rw [rtDmaRecvUpdateGetIndex, hindex]
  split
  · rfl
  · rw [Nat.mod_eq_of_lt (by omega)]

theorem rtDmaRecvUpdateGetIndex_spec {len : ℕ} (hinv : DmaInv bufsz fifo)
    (hlen : len ≤ serialFifoCalcRecvedLen bufsz fifo) (hfits : fifo.getIndex + len < 0x10000) :
    DmaInv bufsz (rtDmaRecvUpdateGetIndex bufsz fifo len) ∧
      content bufsz (rtDmaRecvUpdateGetIndex bufsz fifo len) = (content bufsz fifo).drop len := by
  have hput := hinv.put_lt
  have hget := hinv.get_lt
  have hget' := @rtDmaRecvUpdateGetIndex_getIndex bufsz fifo len hfits
  set fifo' := rtDmaRecvUpdateGetIndex bufsz fifo len with hfifo'
  have hput' : fifo'.putIndex = fifo.putIndex := rfl
  have hindices' : Indices bufsz fifo' :=
    ⟨hput, by rw [hget']; exact Nat.mod_lt _ (Nat.zero_lt_of_lt hput)⟩
  have hdrop : serialFifoCalcRecvedLen bufsz fifo' = serialFifoCalcRecvedLen bufsz fifo - len →
      content bufsz fifo' = (content bufsz fifo).drop len := by
    intro hcount
    exact RingBuffer.content_drop rfl rfl hget' hcount
  by_cases hzero : len = 0
  · have hsame : fifo'.getIndex = fifo.getIndex := by
      rw [hget', hzero, Nat.add_zero, Nat.mod_eq_of_lt hget]
    have hfull : fifo'.isFull = fifo.isFull := if_neg fun hand => hand.2 hzero
    refine ⟨⟨hindices', fun hup => ?_⟩, hdrop ?_⟩
    · rw [hput', hsame]
      exact hinv.full (hfull.symm.trans hup)
    · rw [hzero, Nat.sub_zero, serialFifoCalcRecvedLen, serialFifoCalcRecvedLen, hput', hsame,
        hfull]
  · have hfree : fifo'.isFull = false := by
      change (if fifo.isFull = true ∧ len ≠ 0 then false else fifo.isFull) = false
      cases hfull : fifo.isFull
      · exact ite_self _
      · exact if_pos ⟨rfl, hzero⟩
    have hcount := hinv.recvedLen_le
    refine ⟨⟨hindices', fun hup => absurd (hfree.symm.trans hup) Bool.false_ne_true⟩, hdrop ?_⟩
    refine hindices'.recvedLen_eq_of_not_full hfree (by omega) ?_
    have hahead := hinv.put_cases
    have hmod := add_mod_cases hget (hlen.trans hcount)
    rw [hget', hput']
    omega

theorem serialDmaRx_spec (hinv : DmaInv bufsz fifo)
    (hfits : fifo.getIndex + min length (serialFifoCalcRecvedLen bufsz fifo) < 0x10000) :
    DmaInv bufsz (serialDmaRx bufsz fifo length).1 ∧
      content bufsz (serialDmaRx bufsz fifo length).1 = (content bufsz fifo).drop length ∧
      (serialDmaRx bufsz fifo length).2 = (content bufsz fifo).take length := by
  have hget := hinv.get_lt
  have hrecv : (if length < serialFifoCalcRecvedLen bufsz fifo then length
      else serialFifoCalcRecvedLen bufsz fifo)
        = min length (serialFifoCalcRecvedLen bufsz fifo) := by
    split <;> omega
  have hle : min length (serialFifoCalcRecvedLen bufsz fifo) ≤
      serialFifoCalcRecvedLen bufsz fifo := min_le_right _ _
  have hdrop : (content bufsz fifo).drop length =
      (content bufsz fifo).drop (min length (serialFifoCalcRecvedLen bufsz fifo)) := by
    rw [← length_content, ← List.drop_eq_drop_min]
  have htake : (content bufsz fifo).take length =
      (content bufsz fifo).take (min length (serialFifoCalcRecvedLen bufsz fifo)) := by
    rw [← length_content, ← List.take_eq_take_min]
  rw [serialDmaRx, hrecv, hdrop, htake]
  set recvLen := min length (serialFifoCalcRecvedLen bufsz fifo) with hrecvLen
  obtain ⟨hinv', hcontent⟩ := rtDmaRecvUpdateGetIndex_spec hinv hle hfits
  refine ⟨hinv', hcontent, ?_⟩
  have hout : _ = (List.range recvLen).map fun index =>
      fifo.buffer ((fifo.getIndex + index) % bufsz) :=
    copyOut_around hget (hle.trans hinv.recvedLen_le)
  have hslots : (content bufsz fifo).take recvLen = (List.range recvLen).map fun index =>
      fifo.buffer ((fifo.getIndex + index) % bufsz) := RingBuffer.content_take hle
  rw [hslots, ← hout]
  have hrest : recvLen + fifo.getIndex - bufsz = recvLen - (bufsz - fifo.getIndex) := by omega
  have hiff : fifo.getIndex + recvLen < bufsz ↔ recvLen < bufsz - fifo.getIndex := by omega
  rw [hrest]
  simp only [hiff]

/-! ## Runs -/

structure DmaRel (bufsz : ℕ) (st : DmaState) (queue : List UInt8) : Prop where
  inv : DmaInv bufsz st.fifo
  position : st.position = st.fifo.putIndex
  content_eq : content bufsz st.fifo = queue

theorem dmaStep_refines {st next : DmaState} {queue data : List UInt8}
    {act : NewestFifo.Action UInt8} (hrel : DmaRel bufsz st queue)
    (hfits : IndexFits bufsz st act)
    (hstep : dmaStep bufsz st act = some (next, data)) :
    ∃ queue', NewestFifo.step bufsz queue act = some (queue', data) ∧
      DmaRel bufsz next queue' := by
  obtain ⟨hinv, hposition, rfl⟩ := hrel
  cases act with
  | arrive bytes =>
    rw [dmaStep] at hstep
    split at hstep
    · next hlen =>
      cases hstep
      rw [hposition]
      obtain ⟨hinv', hcontent', hput'⟩ := arrive_spec hinv hlen hfits rfl
      exact ⟨_, rfl, hinv', hput'.symm, hcontent'⟩
    · contradiction
  | take length =>
    rw [dmaStep] at hstep
    split at hstep
    · cases hstep
      obtain ⟨hinv', hcontent', hdata⟩ := serialDmaRx_spec hinv hfits
      refine ⟨_, ?_, hinv', hposition, hcontent'⟩
      rw [hdata]
      rfl
    · contradiction

/-- With `bufsz` at most half of 16 bits no index can be moved beyond them. -/
theorem indexFits_of_le {st next : DmaState} {data : List UInt8}
    {act : NewestFifo.Action UInt8} (hsmall : bufsz ≤ 0x8000)
    (hinv : DmaInv bufsz st.fifo) (hstep : dmaStep bufsz st act = some (next, data)) :
    IndexFits bufsz st act := by
  have hput := hinv.put_lt
  have hget := hinv.get_lt
  have hcount := hinv.recvedLen_le
  cases act with
  | arrive bytes =>
    rw [dmaStep] at hstep
    split at hstep
    · change st.fifo.putIndex + bytes.length < 0x10000
      omega
    · contradiction
  | take length =>
    change st.fifo.getIndex + min length (serialFifoCalcRecvedLen bufsz st.fifo) < 0x10000
    omega

section IntRuns

variable {Reader : Type*} [DecidableEq Reader]

/-- A step over the fifo is the same step over the queue of the newest characters. -/
theorem intStep_newest {calls : Reader → Option Call} {act : IntAction Reader}
    {next : RtSerialRxFifo × (Reader → Option Call)} {data : Option (List UInt8)}
    (hlow : 2 ≤ bufsz) (hbufsz : bufsz < 0x10000) (hinv : IntInv bufsz fifo)
    (hstep : intStep (serialFifo bufsz) (fifo, calls) act = some (next, data)) :
    IntInv bufsz next.1 ∧
      intStep (newestFifo (bufsz - 1)) (content bufsz fifo, calls) act =
        some ((content bufsz next.1, next.2), data) := by
  cases act with
  | getc ch =>
    cases hstep
    obtain ⟨hinv', hcontent⟩ := rxInd_spec hinv hlow hbufsz ch
    refine ⟨hinv', ?_⟩
    change _ = some ((content bufsz (rxInd bufsz fifo ch), calls), none)
    rw [hcontent]
    rfl
  | call reader length =>
    simp only [intStep] at hstep ⊢
    split at hstep
    · contradiction
    · cases hstep
      exact ⟨hinv, rfl⟩
  | turn reader =>
    simp only [intStep] at hstep ⊢
    split at hstep
    · contradiction
    · next call hcall =>
      by_cases hdone : call.length = 0
      · rw [if_pos hdone] at hstep ⊢
        cases hstep
        exact ⟨hinv, rfl⟩
      · rw [if_neg hdone] at hstep ⊢
        split at hstep
        · next hnone =>
          cases hstep
          refine ⟨hinv, ?_⟩
          rw [serialIntRxChar_none hinv hnone]
          rfl
        · next ch rest hsome =>
          cases hstep
          obtain ⟨hinv', hcontent⟩ := serialIntRxChar_some hinv hlow hbufsz hsome
          refine ⟨hinv', ?_⟩
          rw [hcontent]
          rfl

theorem intRun_newest {first last : RtSerialRxFifo × (Reader → Option Call)}
    {trace : List (IntAction Reader × Option (List UInt8))}
    (hlow : 2 ≤ bufsz) (hbufsz : bufsz < 0x10000) (hinv : IntInv bufsz first.1)
    (hrun : (intMachine (serialFifo bufsz)).Run first trace last) :
    (intMachine (newestFifo (bufsz - 1))).Run (content bufsz first.1, first.2) trace
      (content bufsz last.1, last.2) := by
  have hsimulated : (intMachine (newestFifo (bufsz - 1))).Run (content bufsz first.1, first.2)
      (trace.map id) (content bufsz last.1, last.2) := by
    refine hrun.simulates (fun st => (content bufsz st.1, st.2)) id
      (fun st => IntInv bufsz st.1) ?_ ?_ hinv
    · intro st act next event hinv _ hstep
      exact (intStep_newest hlow hbufsz hinv hstep).1
    · intro st act next event hinv _ hstep
      exact (intStep_newest hlow hbufsz hinv hstep).2
  rwa [List.map_id] at hsimulated

end IntRuns

theorem dmaRun_newest {first last : DmaState} {queue : List UInt8}
    {trace : List (NewestFifo.Action UInt8 × List UInt8)} (hrel : DmaRel bufsz first queue)
    (hrun : (dmaMachine bufsz).RunWith (IndexFits bufsz) first trace last) :
    (NewestFifo.machine bufsz).Run queue trace (content bufsz last.fifo) := by
  have hrefined : ∃ queue', (NewestFifo.machine bufsz).Run queue (trace.map id) queue' ∧
      DmaRel bufsz last queue' := by
    refine hrun.refines (DmaRel bufsz) id ?_ hrel
    intro st abs act next event hrel hfits hstep
    exact dmaStep_refines hrel hfits hstep
  obtain ⟨queue', hqueue, hlast⟩ := hrefined
  rwa [List.map_id, ← hlast.content_eq] at hqueue

theorem dmaRun_fits {first last : DmaState} {queue : List UInt8}
    {trace : List (NewestFifo.Action UInt8 × List UInt8)} (hsmall : bufsz ≤ 0x8000)
    (hrel : DmaRel bufsz first queue) (hrun : (dmaMachine bufsz).Run first trace last) :
    (dmaMachine bufsz).RunWith (IndexFits bufsz) first trace last := by
  induction hrun generalizing queue with
  | nil st => exact .nil st
  | cons _ hstep _ ih =>
    have hfits := indexFits_of_le hsmall hrel.inv hstep
    obtain ⟨queue', -, hrel'⟩ := dmaStep_refines hrel hfits hstep
    exact .cons hfits hstep (ih hrel')

/-- In interrupt mode the fifo is a queue of the newest `bufsz - 1` characters, whatever
the threads that read it.  In DMA mode it is a queue of the newest `bufsz` bytes along
every run in which no index is moved beyond 16 bits, which a `bufsz` of at most half of
them excludes. -/
theorem serial_rx_keeps_newest {Reader : Type*} [DecidableEq Reader] (hlow : 2 ≤ bufsz)
    (hbufsz : bufsz < 0x10000) (buffer : ℕ → UInt8) :
    (∀ trace last,
        (intMachine (serialFifo bufsz)).Run (serialOpen buffer, fun _ : Reader => none) trace last →
          (intMachine (newestFifo (bufsz - 1))).Run ([], fun _ : Reader => none) trace
            (content bufsz last.1, last.2)) ∧
      (∀ trace last,
        (dmaMachine bufsz).RunWith (IndexFits bufsz) ⟨serialOpen buffer, 0⟩ trace last →
          (NewestFifo.machine bufsz).Run [] trace (content bufsz last.fifo)) ∧
      (bufsz ≤ 0x8000 → ∀ trace last,
        (dmaMachine bufsz).Run ⟨serialOpen buffer, 0⟩ trace last →
          (dmaMachine bufsz).RunWith (IndexFits bufsz) ⟨serialOpen buffer, 0⟩ trace last) := by
  have hpos : 0 < bufsz := by omega
  have hrel : DmaRel bufsz ⟨serialOpen buffer, 0⟩ [] := ⟨.init hpos, rfl, rfl⟩
  refine ⟨fun trace last hrun => ?_, fun trace last hrun => dmaRun_newest hrel hrun,
    fun hsmall trace last hrun => dmaRun_fits hsmall hrel hrun⟩
  exact intRun_newest hlow hbufsz (IntInv.init hpos) hrun

/-- Bytes are read, then more arrive than there is room for. -/
def scheduleFour : List (NewestFifo.Action UInt8) :=
  [.arrive [1, 2, 3], .take 2, .arrive [4, 5, 6, 7], .take 1]

theorem isSome_scheduleFour : ((dmaMachine 4).exec (IndexFits 4) ⟨serialOpen fun _ => 0, 0⟩
    scheduleFour).isSome = true := by
  decide

theorem serial_rx_keeps_newest_scheduleFour :
    (NewestFifo.machine 4).Run []
      (((dmaMachine 4).exec (IndexFits 4) ⟨serialOpen fun _ => 0, 0⟩ scheduleFour).get
        isSome_scheduleFour).2
      (content 4 (((dmaMachine 4).exec (IndexFits 4) ⟨serialOpen fun _ => 0, 0⟩ scheduleFour).get
        isSome_scheduleFour).1.fifo) :=
  (@serial_rx_keeps_newest 4 Unit _ (by decide) (by decide) fun _ => 0).2.1 _ _
    (Machine.runWith_of_isSome _ isSome_scheduleFour)

/-- The interrupt after a transfer of `0xffff` bytes to a buffer of that size, from index 1
on: the put index comes back to 0 without being found beyond the end. -/
theorem rtDmaRecvUpdatePutIndex_overflow {buffer : ℕ → UInt8} (hbufsz : bufsz = 0xffff) :
    rtDmaRecvUpdatePutIndex bufsz ⟨buffer, 1, 0, false⟩ bufsz = ⟨buffer, 0, 0, false⟩ := by
  have hindex : index16 (1 + bufsz) = 0 := by
    rw [index16, hbufsz]
  have hpos : ¬ bufsz ≤ 0 := by omega
  rw [rtDmaRecvUpdatePutIndex]
  simp [hindex, hpos]

theorem rtDmaRecvUpdatePutIndex_first {buffer : ℕ → UInt8} (hbufsz : bufsz = 0xffff) :
    rtDmaRecvUpdatePutIndex bufsz ⟨buffer, 0, 0, false⟩ 1 = ⟨buffer, 1, 0, false⟩ := by
  have hindex : index16 (0 + 1) = 1 := rfl
  have hone : ¬ bufsz ≤ 1 := by omega
  rw [rtDmaRecvUpdatePutIndex]
  simp [hindex, hone]

theorem dma_bytes_lost (hbufsz : bufsz = 0xffff) {many : List UInt8}
    (hmany : many.length = bufsz) :
    ∃ trace last, (dmaMachine bufsz).Run ⟨serialOpen fun _ => 0, 0⟩ trace last ∧
      ¬ (NewestFifo.machine bufsz).Run [] trace (content bufsz last.fifo) := by
  have hlow : 1 ≤ bufsz := by omega
  obtain ⟨buffer, hfirst⟩ : ∃ buffer, (dmaMachine bufsz).step ⟨serialOpen fun _ => 0, 0⟩
      (.arrive [0]) = some (⟨⟨buffer, 1, 0, false⟩, (0 + 1) % bufsz⟩, []) := by
    refine ⟨dmaTransfer bufsz (fun _ => 0) 0 [0], ?_⟩
    rw [← rtDmaRecvUpdatePutIndex_first hbufsz]
    exact if_pos hlow
  obtain ⟨buffer', hlast⟩ : ∃ buffer', (dmaMachine bufsz).step
      ⟨⟨buffer, 1, 0, false⟩, (0 + 1) % bufsz⟩ (.arrive many) =
        some (⟨⟨buffer', 0, 0, false⟩, ((0 + 1) % bufsz + many.length) % bufsz⟩, []) := by
    have hwrapped : rtDmaRecvUpdatePutIndex bufsz
          ⟨dmaTransfer bufsz buffer ((0 + 1) % bufsz) many, 1, 0, false⟩ many.length =
        ⟨dmaTransfer bufsz buffer ((0 + 1) % bufsz) many, 0, 0, false⟩ := by
      rw [hmany]
      exact rtDmaRecvUpdatePutIndex_overflow hbufsz
    refine ⟨dmaTransfer bufsz buffer ((0 + 1) % bufsz) many, ?_⟩
    rw [← hwrapped]
    exact if_pos hmany.le
  refine ⟨_, _, .cons trivial hfirst (.cons trivial hlast (.nil _)), fun hrun => ?_⟩
  obtain ⟨-, hrest⟩ := hrun.of_cons rfl
  obtain ⟨-, hend⟩ := hrest.of_cons rfl
  have hcontent : content bufsz ⟨buffer', 0, 0, false⟩ =
      newest bufsz (newest bufsz ([] ++ [0]) ++ many) := by
    generalize content bufsz ⟨buffer', 0, 0, false⟩ = queue at hend ⊢
    cases hend
    rfl
  have hcount := congrArg List.length hcontent
  rw [length_content, length_newest, List.length_append, hmany] at hcount
  have hempty : serialFifoCalcRecvedLen bufsz ⟨buffer', 0, 0, false⟩ = 0 := rfl
  omega

/-- A buffer of `0xffff` bytes looks empty after a byte and then `0xffff` bytes arrived. -/
theorem serial_rx_bytes_lost :
    ∃ trace last, (dmaMachine 0xffff).Run ⟨serialOpen fun _ => 0, 0⟩ trace last ∧
      ¬ (NewestFifo.machine 0xffff).Run [] trace (content 0xffff last.fifo) :=
  dma_bytes_lost rfl (List.length_replicate : (List.replicate 0xffff (0 : UInt8)).length = 0xffff)

end RtThread.SerialRx
