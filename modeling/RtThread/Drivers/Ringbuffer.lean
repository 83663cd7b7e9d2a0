import RtThread.Core.BoundedFifo
import RtThread.Core.Machine

set_option linter.all false

/-!
# The byte ring buffer of the device drivers

`ringbuffer.c` keeps a read and a write index of 15 bits, each with a mirror bit that flips
when the index passes the end of the buffer.  Equal indices mean an empty buffer in the same
mirror and a full one in different mirrors.

The buffer refines a queue of bytes: every call does to the stored bytes what the abstract
queue does, and returns the same.
-/

namespace RtThread.Ringbuffer

open Function
open RtThread.Core

/-- `struct rt_ringbuffer`, with the bytes behind `buffer_ptr`. -/
structure RtRingbuffer where
  buffer : ℕ → UInt8
  readMirror : Bool
  readIndex : ℕ
  writeMirror : Bool
  writeIndex : ℕ
  bufferSize : ℕ

inductive RtRingbufferState
  | empty | full | halffull
  deriving DecidableEq

def rtRingbufferStatus (rb : RtRingbuffer) : RtRingbufferState :=
  if rb.readIndex = rb.writeIndex then
    if rb.readMirror = rb.writeMirror then .empty else .full
  else .halffull

def rtRingbufferDataLen (rb : RtRingbuffer) : ℕ :=
  match rtRingbufferStatus rb with
  | .empty => 0
  | .full => rb.bufferSize
  | .halffull =>
    if rb.readIndex < rb.writeIndex then rb.writeIndex - rb.readIndex
    else rb.bufferSize - (rb.readIndex - rb.writeIndex)

def rtRingbufferSpaceLen (rb : RtRingbuffer) : ℕ :=
  rb.bufferSize - rtRingbufferDataLen rb

/-- The value of a 15-bit index. -/
def index15 (value : ℕ) : ℕ :=
  value % 0x8000

/-- `memcpy` into the buffer. -/
def copyIn (buffer : ℕ → UInt8) (start : ℕ) (bytes : List UInt8) : ℕ → UInt8 :=
  fun slot => if start ≤ slot then bytes.getD (slot - start) (buffer slot) else buffer slot

/-- `memcpy` out of the buffer. -/
def copyOut (buffer : ℕ → UInt8) (start length : ℕ) : List UInt8 :=
  (List.range length).map fun index => buffer (start + index)

/-- `rt_ringbuffer_init`, for an `RT_ALIGN_SIZE` of `2 ^ alignLog`. -/
def rtRingbufferInit (alignLog : ℕ) (pool : ℕ → UInt8) (size : ℕ) : RtRingbuffer where
  buffer := pool
  readMirror := false
  readIndex := 0
  writeMirror := false
  writeIndex := 0
  bufferSize := size / 2 ^ alignLog * 2 ^ alignLog

def rtRingbufferPut (rb : RtRingbuffer) (bytes : List UInt8) : RtRingbuffer × ℕ :=
  let size := rtRingbufferSpaceLen rb
  if size = 0 then (rb, 0)
  else
    let length := if size < bytes.length then size else bytes.length
    let bytes := bytes.take length
    let first := rb.bufferSize - rb.writeIndex
    if length < first then
      ({ rb with
          buffer := copyIn rb.buffer rb.writeIndex bytes
          writeIndex := index15 (rb.writeIndex + length) }, length)
    else
      ({ rb with
          buffer := copyIn (copyIn rb.buffer rb.writeIndex (bytes.take first)) 0 (bytes.drop first)
          writeMirror := !rb.writeMirror
          writeIndex := index15 (length - first) }, length)

def rtRingbufferGet (rb : RtRingbuffer) (length : ℕ) : RtRingbuffer × List UInt8 :=
  let size := rtRingbufferDataLen rb
  if size = 0 then (rb, [])
  else
    let length := if size < length then size else length
    let first := rb.bufferSize - rb.readIndex
    if length < first then
      ({ rb with readIndex := index15 (rb.readIndex + length) },
        copyOut rb.buffer rb.readIndex length)
    else
      ({ rb with readMirror := !rb.readMirror, readIndex := index15 (length - first) },
        copyOut rb.buffer rb.readIndex first ++ copyOut rb.buffer 0 (length - first))

/-- The write index moves on by one byte. -/
def advanceWrite (rb : RtRingbuffer) : RtRingbuffer :=
  if rb.writeIndex = rb.bufferSize - 1 then
    { rb with writeMirror := !rb.writeMirror, writeIndex := 0 }
  else { rb with writeIndex := index15 (rb.writeIndex + 1) }

def rtRingbufferPutchar (rb : RtRingbuffer) (ch : UInt8) : RtRingbuffer × ℕ :=
  if rtRingbufferSpaceLen rb = 0 then (rb, 0)
  else (advanceWrite { rb with buffer := update rb.buffer rb.writeIndex ch }, 1)

/-- A full buffer gives up its oldest byte. -/
def rtRingbufferPutcharForce (rb : RtRingbuffer) (ch : UInt8) : RtRingbuffer × ℕ :=
  let oldState := rtRingbufferStatus rb
  let written := { rb with buffer := update rb.buffer rb.writeIndex ch }
  if rb.writeIndex = rb.bufferSize - 1 then
    let written := { written with writeMirror := !rb.writeMirror, writeIndex := 0 }
    if oldState = .full then
      ({ written with readMirror := !written.readMirror, readIndex := written.writeIndex }, 1)
    else (written, 1)
  else
    let written := { written with writeIndex := index15 (rb.writeIndex + 1) }
    if oldState = .full then ({ written with readIndex := written.writeIndex }, 1)
    else (written, 1)

def rtRingbufferGetchar (rb : RtRingbuffer) : RtRingbuffer × List UInt8 :=
  if rtRingbufferDataLen rb = 0 then (rb, [])
  else if rb.readIndex = rb.bufferSize - 1 then
    ({ rb with readMirror := !rb.readMirror, readIndex := 0 }, [rb.buffer rb.readIndex])
  else ({ rb with readIndex := index15 (rb.readIndex + 1) }, [rb.buffer rb.readIndex])

inductive Action
  | put (bytes : List UInt8)
  | get (length : ℕ)
  | putchar (ch : UInt8)
  | getchar
  | putcharForce (ch : UInt8)

/-- What a call returns: the number of bytes it accepted, or the bytes it delivers. -/
inductive Event
  | accepted (count : ℕ)
  | delivered (bytes : List UInt8)
  deriving DecidableEq

def acceptedBy (result : RtRingbuffer × ℕ) : RtRingbuffer × Event :=
  (result.1, .accepted result.2)

def deliveredBy (result : RtRingbuffer × List UInt8) : RtRingbuffer × Event :=
  (result.1, .delivered result.2)

/-- The calls; the lengths are 16-bit values. -/
def step (rb : RtRingbuffer) : Action → Option (RtRingbuffer × Event)
  | .put bytes =>
    if bytes.length < 0x10000 then some (acceptedBy (rtRingbufferPut rb bytes)) else none
  | .get length =>
    if length < 0x10000 then some (deliveredBy (rtRingbufferGet rb length)) else none
  | .putchar ch => some (acceptedBy (rtRingbufferPutchar rb ch))
  | .getchar => some (deliveredBy (rtRingbufferGetchar rb))
  | .putcharForce ch => some (acceptedBy (rtRingbufferPutcharForce rb ch))

def machine : Machine RtRingbuffer Action Event where
  step := step

/-! ## The abstract queue -/

/-- A queue of bytes with a capacity. -/
def queueStep (capacity : ℕ) (queue : List UInt8) : Action → Option (List UInt8 × Event)
  | .put bytes =>
    let count := min bytes.length (capacity - queue.length)
    some (queue ++ bytes.take count, .accepted count)
  | .get length => some (queue.drop length, .delivered (queue.take length))
  | .putchar ch =>
    if queue.length < capacity then some (queue ++ [ch], .accepted 1)
    else some (queue, .accepted 0)
  | .getchar => some (queue.drop 1, .delivered (queue.take 1))
  | .putcharForce ch =>
    some ((if queue.length = capacity then queue.drop 1 else queue) ++ [ch], .accepted 1)

def queueMachine (capacity : ℕ) : Machine (List UInt8) Action Event where
  step := queueStep capacity

/-- The buffer as slots with a count. -/
def ring (rb : RtRingbuffer) : RingBuffer UInt8 where
  pool := rb.buffer
  size := rb.bufferSize
  entry := rtRingbufferDataLen rb
  inOffset := rb.writeIndex
  outOffset := rb.readIndex

/-- The stored bytes, oldest first. -/
def content (rb : RtRingbuffer) : List UInt8 :=
  (ring rb).content

/-- The write index, seen from the mirror of the read index. -/
def lead (rb : RtRingbuffer) : ℕ :=
  if rb.readMirror = rb.writeMirror then rb.writeIndex else rb.writeIndex + rb.bufferSize

/-- The indices lie in the buffer, and the write index is ahead by at most its size. -/
structure Inv (rb : RtRingbuffer) : Prop where
  size_lt : rb.bufferSize < 0x8000
  read_lt : rb.readIndex < rb.bufferSize
  write_lt : rb.writeIndex < rb.bufferSize
  read_le : rb.readIndex ≤ lead rb
  lead_le : lead rb ≤ rb.readIndex + rb.bufferSize

variable {rb : RtRingbuffer} {bytes : List UInt8} {buffer : ℕ → UInt8} {ch : UInt8} {slot start : ℕ}

theorem Inv.dataLen_eq (hinv : Inv rb) : rtRingbufferDataLen rb = lead rb - rb.readIndex := by
  obtain ⟨-, hread, hwrite, hle, hge⟩ := hinv
  by_cases hmirror : rb.readMirror = rb.writeMirror
  · have hlead : lead rb = rb.writeIndex := if_pos hmirror
    rw [hlead] at hle ⊢
    rw [rtRingbufferDataLen, rtRingbufferStatus]
    by_cases hindex : rb.readIndex = rb.writeIndex
    · simp [hmirror, hindex]
    · have hlt : rb.readIndex < rb.writeIndex := by omega
      simp [hindex, hlt]
  · have hlead : lead rb = rb.writeIndex + rb.bufferSize := if_neg hmirror
    rw [hlead] at hge ⊢
    rw [rtRingbufferDataLen, rtRingbufferStatus]
    by_cases hindex : rb.readIndex = rb.writeIndex
    · simp [hmirror, hindex]
    · have hlt : ¬ rb.readIndex < rb.writeIndex := by omega
      simp only [hindex, hlt, if_false]
      omega

theorem Inv.dataLen_le (hinv : Inv rb) : rtRingbufferDataLen rb ≤ rb.bufferSize := by
  have hle := hinv.lead_le
  rw [hinv.dataLen_eq]
  omega

theorem Inv.lead_mod (hinv : Inv rb) : lead rb % rb.bufferSize = rb.writeIndex := by
  rw [lead]
  split
  · exact Nat.mod_eq_of_lt hinv.write_lt
  · rw [Nat.add_mod_right, Nat.mod_eq_of_lt hinv.write_lt]

theorem Inv.valid (hinv : Inv rb) : (ring rb).Valid where
  entry_le := hinv.dataLen_le
  out_lt := hinv.read_lt
  in_eq := by
    change rb.writeIndex = (rb.readIndex + rtRingbufferDataLen rb) % rb.bufferSize
    rw [hinv.dataLen_eq, Nat.add_sub_cancel' hinv.read_le, hinv.lead_mod]

theorem length_content (rb : RtRingbuffer) : (content rb).length = rtRingbufferDataLen rb :=
  RingBuffer.length_content _

/-! ## Copies -/

theorem copyIn_of_lt (hlt : slot < start) : copyIn buffer start bytes slot = buffer slot := by
  rw [copyIn, if_neg (by omega)]

theorem copyIn_of_ge (hge : start + bytes.length ≤ slot) :
    copyIn buffer start bytes slot = buffer slot := by
  rw [copyIn]
  split
  · exact List.getD_eq_default _ _ (by omega)
  · rfl

theorem copyIn_add {index : ℕ} (hindex : index < bytes.length) :
    copyIn buffer start bytes (start + index) = bytes[index] := by
  rw [copyIn, if_pos (by omega), Nat.add_sub_cancel_left, List.getD_eq_getElem _ _ hindex]

theorem copyOut_add (buffer : ℕ → UInt8) (start left right : ℕ) :
    copyOut buffer start (left + right) =
      copyOut buffer start left ++ copyOut buffer (start + left) right := by
  simp only [copyOut, List.range_add, List.map_append, List.map_map, Nat.add_assoc]
  rfl

theorem copyOut_copyIn (buffer : ℕ → UInt8) (start : ℕ) (bytes : List UInt8) :
    copyOut (copyIn buffer start bytes) start bytes.length = bytes := by
  apply List.ext_getElem
  · simp [copyOut]
  · intro index hleft hright
    simp only [copyOut, List.getElem_map, List.getElem_range]
    exact copyIn_add hright

theorem copyIn_singleton : copyIn buffer start [ch] = update buffer start ch := by
  funext slot
  by_cases hslot : slot = start
  · subst hslot
    rw [update_self]
    have hfirst : 0 < [ch].length := Nat.one_pos
    exact copyIn_add hfirst
  · rw [update_of_ne hslot]
    rcases lt_or_gt_of_ne hslot with hlt | hgt
    · exact copyIn_of_lt hlt
    · exact copyIn_of_ge (by simpa using hgt)

theorem copyIn_nil : copyIn buffer start [] = buffer := by
  funext slot
  exact ite_self _

/-- The first byte of a copy is written as by an assignment. -/
theorem copyIn_cons :
    copyIn buffer start (ch :: bytes) =
      copyIn (update buffer start ch) (start + 1) bytes := by
  funext slot
  rcases lt_trichotomy slot start with hlt | rfl | hgt
  · rw [copyIn_of_lt hlt, copyIn_of_lt (Nat.lt_succ_of_lt hlt),
      update_of_ne (Nat.ne_of_lt hlt)]
  · rw [copyIn_of_lt (Nat.lt_succ_self _), update_self, copyIn, if_pos (Nat.le_refl _),
      Nat.sub_self]
    rfl
  · have hsub : slot - start = slot - (start + 1) + 1 := by omega
    rw [copyIn, copyIn, if_pos hgt.le, if_pos (Nat.succ_le_of_lt hgt),
      update_of_ne (Nat.ne_of_gt hgt), hsub]
    rfl

/-- Some bytes written from the write index on, around the end of the buffer. -/
def writeAround (rb : RtRingbuffer) (bytes : List UInt8) : ℕ → UInt8 :=
  let first := rb.bufferSize - rb.writeIndex
  if bytes.length < first then copyIn rb.buffer rb.writeIndex bytes
  else copyIn (copyIn rb.buffer rb.writeIndex (bytes.take first)) 0 (bytes.drop first)

theorem writeAround_new (hinv : Inv rb) (hfits : bytes.length ≤ rb.bufferSize) {index : ℕ}
    (hindex : index < bytes.length) :
    writeAround rb bytes ((rb.writeIndex + index) % rb.bufferSize) = bytes[index] := by
  have hwrite := hinv.write_lt
  rw [writeAround]
  split
  · rw [Nat.mod_eq_of_lt (by omega), copyIn_add hindex]
  · by_cases hfirst : index < rb.bufferSize - rb.writeIndex
    · rw [Nat.mod_eq_of_lt (by omega), copyIn_of_ge (by simp; omega), copyIn_add (by simp; omega),
        List.getElem_take]
    · have hslot : (rb.writeIndex + index) % rb.bufferSize =
          0 + (index - (rb.bufferSize - rb.writeIndex)) := by
        rw [Nat.mod_eq_sub_mod (by omega), Nat.mod_eq_of_lt (by omega)]
        omega
      rw [hslot, copyIn_add (by simp; omega), List.getElem_drop]
      congr 1
      omega

theorem writeAround_old (hinv : Inv rb) (hslot : slot < rb.bufferSize)
    (hne : ∀ index < bytes.length, slot ≠ (rb.writeIndex + index) % rb.bufferSize) :
    writeAround rb bytes slot = rb.buffer slot := by
  have hwrite := hinv.write_lt
  have houtside : ¬ (rb.writeIndex ≤ slot ∧ slot < rb.writeIndex + bytes.length) := by
    rintro ⟨hlow, hhigh⟩
    refine hne (slot - rb.writeIndex) (by omega) ?_
    rw [Nat.add_sub_cancel' hlow, Nat.mod_eq_of_lt hslot]
  have hbefore : ¬ slot + rb.bufferSize < rb.writeIndex + bytes.length := by
    intro hlt
    refine hne (slot + rb.bufferSize - rb.writeIndex) (by omega) ?_
    rw [Nat.add_sub_cancel' (by omega), Nat.add_mod_right, Nat.mod_eq_of_lt hslot]
  rw [writeAround]
  split
  · rcases lt_or_ge slot rb.writeIndex with hlt | hge
    · exact copyIn_of_lt hlt
    · exact copyIn_of_ge (by omega)
  · rw [copyIn_of_ge (by simp; omega)]
    rcases lt_or_ge slot rb.writeIndex with hlt | hge
    · exact copyIn_of_lt hlt
    · exact copyIn_of_ge (by simp; omega)

/-- The bytes from an index on, around the end of the buffer. -/
theorem copyOut_around {size length : ℕ} (hstart : start < size) (hlength : length ≤ size) :
    (if length < size - start then copyOut buffer start length
      else copyOut buffer start (size - start) ++ copyOut buffer 0 (length - (size - start))) =
    (List.range length).map fun index => buffer ((start + index) % size) := by
  split
  · apply List.map_congr_left
    intro index hindex
    rw [List.mem_range] at hindex
    rw [Nat.mod_eq_of_lt (by omega)]
  · next hwrap =>
    have hsplit : length = (size - start) + (length - (size - start)) := by omega
    conv_rhs => rw [hsplit, List.range_add, List.map_append, List.map_map]
    congr 1
    · apply List.map_congr_left
      intro index hindex
      rw [List.mem_range] at hindex
      rw [Nat.mod_eq_of_lt (by omega)]
    · apply List.map_congr_left
      intro index hindex
      rw [List.mem_range] at hindex
      have hslot : (start + (size - start + index)) % size = index := by
        have hsum : start + (size - start + index) = index + size := by omega
        rw [hsum, Nat.add_mod_right, Nat.mod_eq_of_lt (by omega)]
      rw [comp, hslot, Nat.zero_add]

/-! ## The calls -/

/-- Bytes were written behind the write index, which moved on by as many. -/
theorem Inv.write_spec {rb' : RtRingbuffer} (hinv : Inv rb)
    (hroom : rtRingbufferDataLen rb + bytes.length ≤ rb.bufferSize)
    (hsize : rb'.bufferSize = rb.bufferSize) (hbuffer : rb'.buffer = writeAround rb bytes)
    (hread : rb'.readIndex = rb.readIndex) (hwrite : rb'.writeIndex < rb.bufferSize)
    (hlead : lead rb' = lead rb + bytes.length) :
    Inv rb' ∧ content rb' = content rb ++ bytes := by
  have hlen := hinv.dataLen_eq
  have hread_le := hinv.read_le
  have hinv' : Inv rb' := by
    refine ⟨hsize ▸ hinv.size_lt, ?_, hsize ▸ hwrite, ?_, ?_⟩
    · rw [hread, hsize]
      exact hinv.read_lt
    · rw [hread, hlead]
      omega
    · rw [hread, hlead, hsize]
      omega
  refine ⟨hinv', ?_⟩
  refine RingBuffer.content_append hinv.valid bytes hsize hread ?_ ?_ ?_
  · change rtRingbufferDataLen rb' = rtRingbufferDataLen rb + bytes.length
    rw [hinv'.dataLen_eq, hlen, hlead, hread]
    omega
  · intro index hindex
    change rb'.buffer _ = _
    rw [hbuffer]
    refine writeAround_old hinv (Nat.mod_lt _ (Nat.zero_lt_of_lt hinv.read_lt)) ?_
    intro offset hoffset
    exact hinv.valid.slot_ne_add hindex (lt_of_lt_of_le (Nat.add_lt_add_left hoffset _) hroom)
  · intro index hindex
    change rb'.buffer _ = _
    rw [hbuffer]
    exact writeAround_new hinv (by omega) hindex

theorem rtRingbufferPut_spec (hinv : Inv rb) (bytes : List UInt8) :
    let count := min bytes.length (rb.bufferSize - (content rb).length)
    (Inv (rtRingbufferPut rb bytes).1 ∧
        content (rtRingbufferPut rb bytes).1 = content rb ++ bytes.take count) ∧
      (rtRingbufferPut rb bytes).1.bufferSize = rb.bufferSize ∧
      (rtRingbufferPut rb bytes).2 = count := by
  intro count
  have hcount : count = min bytes.length (rtRingbufferSpaceLen rb) := by
    rw [rtRingbufferSpaceLen, ← length_content]
  have hle := hinv.dataLen_le
  rw [rtRingbufferPut]
  by_cases hspace : rtRingbufferSpaceLen rb = 0
  · have hzero : count = 0 := by
      rw [hcount, hspace, Nat.min_zero]
    simp only [hspace, if_true, hzero, List.take_zero, List.append_nil]
    exact ⟨⟨hinv, trivial⟩, trivial, trivial⟩
  · have hlength : (if rtRingbufferSpaceLen rb < bytes.length then rtRingbufferSpaceLen rb
        else bytes.length) = count := by
      rw [hcount]
      split <;> omega
    have htake : (bytes.take count).length = count := by
      rw [List.length_take, hcount]
      omega
    have hroom : rtRingbufferDataLen rb + (bytes.take count).length ≤ rb.bufferSize := by
      rw [htake, hcount, rtRingbufferSpaceLen]
      omega
    have hlen := hinv.dataLen_eq
    have hread := hinv.read_lt
    have hwrite := hinv.write_lt
    have hsize := hinv.size_lt
    simp only [hspace, if_false, hlength]
    split
    · next hfirst =>
      have hindex : index15 (rb.writeIndex + count) = rb.writeIndex + count :=
        Nat.mod_eq_of_lt (by omega)
      refine ⟨hinv.write_spec hroom rfl ?_ rfl ?_ ?_, rfl, rfl⟩
      · rw [writeAround, if_pos (by omega)]
      · dsimp only
        omega
      · rw [lead, lead, htake]
        dsimp only
        split <;> omega
    · next hfirst =>
      have hindex : index15 (count - (rb.bufferSize - rb.writeIndex)) =
          count - (rb.bufferSize - rb.writeIndex) := Nat.mod_eq_of_lt (by omega)
      refine ⟨hinv.write_spec hroom rfl ?_ rfl ?_ ?_, rfl, rfl⟩
      · rw [writeAround, if_neg (by omega)]
      · dsimp only
        omega
      · have hsame : rb.readMirror = rb.writeMirror := by
          by_contra hcrossed
          have hlead : lead rb = rb.writeIndex + rb.bufferSize := if_neg hcrossed
          omega
        have hlead : lead rb = rb.writeIndex := if_pos hsame
        rw [hlead, htake, lead]
        simp only [hsame, Bool.eq_not_self, if_false]
        omega

/-- The read index moved on by some of the stored bytes. -/
theorem Inv.read_spec {rb' : RtRingbuffer} {count : ℕ} (hinv : Inv rb)
    (hcount : count ≤ rtRingbufferDataLen rb) (hsize : rb'.bufferSize = rb.bufferSize)
    (hbuffer : rb'.buffer = rb.buffer) (hwrite : rb'.writeIndex = rb.writeIndex)
    (hread : rb'.readIndex = (rb.readIndex + count) % rb.bufferSize)
    (hlead : lead rb' + (rb.readIndex + count) = lead rb + rb'.readIndex) :
    Inv rb' ∧ content rb' = (content rb).drop count := by
  have hlen := hinv.dataLen_eq
  have hread_le := hinv.read_le
  have hlead_le := hinv.lead_le
  have hread_lt : rb'.readIndex < rb.bufferSize :=
    hread ▸ Nat.mod_lt _ (Nat.zero_lt_of_lt hinv.read_lt)
  have hinv' : Inv rb' := by
    refine ⟨hsize ▸ hinv.size_lt, hsize ▸ hread_lt, ?_, by omega, by omega⟩
    rw [hwrite, hsize]
    exact hinv.write_lt
  refine ⟨hinv', RingBuffer.content_drop hbuffer hsize hread ?_⟩
  change rtRingbufferDataLen rb' = rtRingbufferDataLen rb - count
  rw [hinv'.dataLen_eq, hlen]
  omega

theorem rtRingbufferGet_spec (hinv : Inv rb) (length : ℕ) :
    (Inv (rtRingbufferGet rb length).1 ∧
        content (rtRingbufferGet rb length).1 = (content rb).drop length) ∧
      (rtRingbufferGet rb length).1.bufferSize = rb.bufferSize ∧
      (rtRingbufferGet rb length).2 = (content rb).take length := by
  have hcontent := length_content rb
  have hle := hinv.dataLen_le
  rw [rtRingbufferGet]
  by_cases hsize : rtRingbufferDataLen rb = 0
  · have hnil : content rb = [] := List.eq_nil_of_length_eq_zero (hcontent.trans hsize)
    simp only [hsize, if_true, hnil, List.drop_nil, List.take_nil]
    exact ⟨⟨hinv, trivial⟩, trivial, trivial⟩
  · set count := min length (rtRingbufferDataLen rb) with hcount
    have hlength : (if rtRingbufferDataLen rb < length then rtRingbufferDataLen rb
        else length) = count := by
      rw [hcount]
      split <;> omega
    have hcountLe : count ≤ rtRingbufferDataLen rb := min_le_right ..
    have hdrop : (content rb).drop length = (content rb).drop count := by
      rw [hcount, ← hcontent, ← List.drop_eq_drop_min]
    have hlen := hinv.dataLen_eq
    have hread := hinv.read_lt
    have hwrite := hinv.write_lt
    have hsmall := hinv.size_lt
    have hbytes : _ = (List.range count).map fun index =>
        rb.buffer ((rb.readIndex + index) % rb.bufferSize) :=
      copyOut_around hread (hcountLe.trans hle)
    have htaken : (content rb).take length =
        (List.range count).map fun index => rb.buffer ((rb.readIndex + index) % rb.bufferSize) := by
      rw [List.take_eq_take_min, hcontent, ← hcount]
      exact RingBuffer.content_take hcountLe
    simp only [hsize, if_false, hlength]
    rw [hdrop, htaken, ← hbytes]
    split
    · next hfirst =>
      have hindex : index15 (rb.readIndex + count) = (rb.readIndex + count) % rb.bufferSize := by
        rw [index15, Nat.mod_eq_of_lt (by omega), Nat.mod_eq_of_lt (by omega)]
      refine ⟨hinv.read_spec hcountLe rfl rfl rfl hindex ?_, rfl, rfl⟩
      change lead rb + _ = lead rb + index15 (rb.readIndex + count)
      rw [hindex, Nat.mod_eq_of_lt (by omega)]
    · next hfirst =>
      have hcrossed : rb.readMirror ≠ rb.writeMirror := by
        intro hsame
        have hlead : lead rb = rb.writeIndex := if_pos hsame
        omega
      have hlead : lead rb = rb.writeIndex + rb.bufferSize := if_neg hcrossed
      have hmod : (rb.readIndex + count) % rb.bufferSize =
          count - (rb.bufferSize - rb.readIndex) := by
        rw [Nat.mod_eq_sub_mod (by omega), Nat.mod_eq_of_lt (by omega)]
        omega
      have hindex : index15 (count - (rb.bufferSize - rb.readIndex)) =
          (rb.readIndex + count) % rb.bufferSize := by
        rw [index15, Nat.mod_eq_of_lt (by omega), hmod]
      refine ⟨hinv.read_spec hcountLe rfl rfl rfl hindex ?_, rfl, rfl⟩
      have hflip : (!rb.readMirror) = rb.writeMirror := (Bool.eq_not_iff.2 hcrossed.symm).symm
      have hlead' : lead { rb with
          readMirror := !rb.readMirror
          readIndex := index15 (count - (rb.bufferSize - rb.readIndex)) } = rb.writeIndex :=
        if_pos hflip
      rw [hlead', hlead]
      dsimp only
      rw [hindex, hmod]
      omega

theorem rtRingbufferPutchar_eq (hinv : Inv rb) (ch : UInt8) :
    rtRingbufferPutchar rb ch = rtRingbufferPut rb [ch] := by
  have hwrite := hinv.write_lt
  rw [rtRingbufferPutchar, rtRingbufferPut]
  by_cases hspace : rtRingbufferSpaceLen rb = 0
  · simp [hspace]
  · have hlength : (if rtRingbufferSpaceLen rb < [ch].length then rtRingbufferSpaceLen rb
        else [ch].length) = 1 := by
      rw [List.length_singleton]
      split <;> omega
    simp only [hspace, if_false, hlength, advanceWrite]
    split
    · next hlast =>
      have hfirst : rb.bufferSize - rb.writeIndex = 1 := by omega
      rw [if_neg (by omega), hfirst, ← copyIn_singleton]
      rfl
    · next hlast =>
      rw [if_pos (by omega), ← copyIn_singleton]
      rfl

theorem rtRingbufferGetchar_eq (hinv : Inv rb) :
    rtRingbufferGetchar rb = rtRingbufferGet rb 1 := by
  have hread := hinv.read_lt
  rw [rtRingbufferGetchar, rtRingbufferGet]
  by_cases hsize : rtRingbufferDataLen rb = 0
  · simp [hsize]
  · have hlength : (if rtRingbufferDataLen rb < 1 then rtRingbufferDataLen rb else 1) = 1 := by
      split <;> omega
    simp only [hsize, if_false, hlength]
    split
    · next hlast =>
      have hfirst : rb.bufferSize - rb.readIndex = 1 := by omega
      rw [if_neg (by omega), hfirst]
      simp [copyOut, index15]
    · rw [if_pos (by omega)]
      simp [copyOut]

theorem Inv.status_full_iff (hinv : Inv rb) :
    rtRingbufferStatus rb = .full ↔ (content rb).length = rb.bufferSize := by
  have hwrite := hinv.write_lt
  rw [length_content, rtRingbufferDataLen]
  cases hstatus : rtRingbufferStatus rb with
  | empty =>
    simp only [reduceCtorEq, false_iff]
    omega
  | full => simp
  | halffull =>
    rw [rtRingbufferStatus] at hstatus
    split at hstatus
    · split at hstatus <;> contradiction
    · next hne =>
      simp only [reduceCtorEq, false_iff]
      split <;> omega

/-- A forced byte drops the oldest one first, if the buffer is full. -/
theorem rtRingbufferPutcharForce_eq (hinv : Inv rb) (ch : UInt8) :
    rtRingbufferPutcharForce rb ch =
      rtRingbufferPutchar (if rtRingbufferStatus rb = .full then (rtRingbufferGetchar rb).1 else rb)
        ch := by
  have hread := hinv.read_lt
  have hle := hinv.dataLen_le
  have hlength := length_content rb
  by_cases hfull : rtRingbufferStatus rb = .full
  · have hsize : rtRingbufferDataLen rb = rb.bufferSize := by
      rw [← hlength, hinv.status_full_iff.1 hfull]
    have hindex : rb.readIndex = rb.writeIndex := by
      rw [rtRingbufferStatus] at hfull
      split at hfull
      · assumption
      · contradiction
    have hspace : rtRingbufferSpaceLen (rtRingbufferGetchar rb).1 ≠ 0 := by
      obtain ⟨⟨-, hcontent⟩, hbuffer, -⟩ := rtRingbufferGet_spec hinv 1
      have hless := congrArg List.length hcontent
      rw [length_content, List.length_drop, hlength, hsize] at hless
      rw [rtRingbufferGetchar_eq hinv, rtRingbufferSpaceLen, hbuffer, hless]
      omega
    have hne : rtRingbufferDataLen rb ≠ 0 := by omega
    rw [if_pos hfull, rtRingbufferPutchar, if_neg hspace, rtRingbufferPutcharForce]
    by_cases hlast : rb.writeIndex = rb.bufferSize - 1
    · have hgot : (rtRingbufferGetchar rb).1 =
          { rb with readMirror := !rb.readMirror, readIndex := 0 } := by
        rw [rtRingbufferGetchar, if_neg hne, if_pos (hindex.trans hlast)]
      rw [hgot, advanceWrite]
      simp only [hfull, hlast, if_true]
    · have hgot : (rtRingbufferGetchar rb).1 =
          { rb with readIndex := index15 (rb.writeIndex + 1) } := by
        rw [rtRingbufferGetchar, if_neg hne, if_neg (hindex ▸ hlast), hindex]
      rw [hgot, advanceWrite]
      simp only [hfull, hlast, if_true, if_false]
  · have hspace : rtRingbufferSpaceLen rb ≠ 0 := by
      have hless := mt hinv.status_full_iff.2 hfull
      rw [rtRingbufferSpaceLen]
      omega
    rw [if_neg hfull, rtRingbufferPutchar, if_neg hspace, rtRingbufferPutcharForce, advanceWrite]
    split <;> rfl

theorem rtRingbufferPutchar_spec (hinv : Inv rb) (hroom : (content rb).length < rb.bufferSize)
    (ch : UInt8) :
    (Inv (rtRingbufferPutchar rb ch).1 ∧ (rtRingbufferPutchar rb ch).1.bufferSize = rb.bufferSize) ∧
      content (rtRingbufferPutchar rb ch).1 = content rb ++ [ch] ∧
      (rtRingbufferPutchar rb ch).2 = 1 := by
  obtain ⟨⟨hnext, hcontent⟩, hsize, hcount⟩ := rtRingbufferPut_spec hinv [ch]
  have hone : min [ch].length (rb.bufferSize - (content rb).length) = 1 := by
    rw [List.length_singleton]
    omega
  rw [hone] at hcontent hcount
  rw [rtRingbufferPutchar_eq hinv]
  exact ⟨⟨hnext, hsize⟩, hcontent, hcount⟩

/-! ## Runs -/

/-- Every call keeps the invariant and is a step of the abstract queue. -/
theorem step_spec {next : RtRingbuffer} {act : Action} {event : Event} (hinv : Inv rb)
    (hstep : step rb act = some (next, event)) :
    (Inv next ∧ next.bufferSize = rb.bufferSize) ∧
      queueStep rb.bufferSize (content rb) act = some (content next, event) := by
  cases act with
  | put bytes =>
    rw [step] at hstep
    split at hstep
    · cases hstep
      obtain ⟨⟨hnext, hcontent⟩, hsize, hcount⟩ := rtRingbufferPut_spec hinv bytes
      refine ⟨⟨hnext, hsize⟩, ?_⟩
      rw [hcontent, hcount]
      rfl
    · contradiction
  | get length =>
    rw [step] at hstep
    split at hstep
    · cases hstep
      obtain ⟨⟨hnext, hcontent⟩, hsize, hbytes⟩ := rtRingbufferGet_spec hinv length
      refine ⟨⟨hnext, hsize⟩, ?_⟩
      rw [hcontent, hbytes]
      rfl
    · contradiction
  | putchar ch =>
    cases hstep
    rw [queueStep]
    split
    · next hroom =>
      obtain ⟨hnext, hcontent, hcount⟩ := rtRingbufferPutchar_spec hinv hroom ch
      rw [hcontent, hcount]
      exact ⟨hnext, rfl⟩
    · next hroom =>
      have hspace : rtRingbufferSpaceLen rb = 0 := by
        rw [rtRingbufferSpaceLen, ← length_content]
        omega
      rw [rtRingbufferPutchar, if_pos hspace]
      exact ⟨⟨hinv, rfl⟩, rfl⟩
  | getchar =>
    cases hstep
    obtain ⟨⟨hnext, hcontent⟩, hsize, hbytes⟩ := rtRingbufferGet_spec hinv 1
    rw [rtRingbufferGetchar_eq hinv]
    refine ⟨⟨hnext, hsize⟩, ?_⟩
    rw [hcontent, hbytes]
    rfl
  | putcharForce ch =>
    cases hstep
    have hle := hinv.dataLen_le
    have hlength := length_content rb
    rw [rtRingbufferPutcharForce_eq hinv, queueStep]
    by_cases hfull : rtRingbufferStatus rb = .full
    · rw [if_pos hfull, if_pos (hinv.status_full_iff.1 hfull), rtRingbufferGetchar_eq hinv]
      obtain ⟨⟨hgot, hdropped⟩, hsize, -⟩ := rtRingbufferGet_spec hinv 1
      have hpos := hinv.read_lt
      have hfullLength := hinv.status_full_iff.1 hfull
      have hroom : (content (rtRingbufferGet rb 1).1).length <
          (rtRingbufferGet rb 1).1.bufferSize := by
        rw [hdropped, hsize, List.length_drop]
        omega
      obtain ⟨hnext, hcontent, hcount⟩ := rtRingbufferPutchar_spec hgot hroom ch
      rw [hcontent, hcount, hdropped]
      exact ⟨⟨hnext.1, hnext.2.trans hsize⟩, rfl⟩
    · have hfullLength := mt hinv.status_full_iff.2 hfull
      have hroom : (content rb).length < rb.bufferSize := by omega
      rw [if_neg hfull, if_neg hfullLength]
      obtain ⟨hnext, hcontent, hcount⟩ := rtRingbufferPutchar_spec hinv hroom ch
      rw [hcontent, hcount]
      exact ⟨hnext, rfl⟩

theorem inv_rtRingbufferInit {alignLog size : ℕ} {pool : ℕ → UInt8} (hfits : size < 0x8000)
    (hpos : 0 < (rtRingbufferInit alignLog pool size).bufferSize) :
    Inv (rtRingbufferInit alignLog pool size) := by
  have hle : size / 2 ^ alignLog * 2 ^ alignLog ≤ size := Nat.div_mul_le_self ..
  exact ⟨hle.trans_lt hfits, hpos, hpos, le_rfl, Nat.zero_le _⟩

/-- The ring buffer refines a queue of bytes: every run of calls on a new buffer is a run of the
abstract queue with the same results, and the length and the indices are right in its last
state. -/
theorem ringbuffer_refines_queue {alignLog size : ℕ} {pool : ℕ → UInt8}
    {trace : List (Action × Event)} {last : RtRingbuffer} (hfits : size < 0x8000)
    (hpos : 0 < (rtRingbufferInit alignLog pool size).bufferSize)
    (hrun : machine.Run (rtRingbufferInit alignLog pool size) trace last) :
    (queueMachine (rtRingbufferInit alignLog pool size).bufferSize).Run [] trace (content last) ∧
      rtRingbufferDataLen last = (content last).length ∧
      (content last).length ≤ last.bufferSize ∧
      last.readIndex < last.bufferSize ∧ last.writeIndex < last.bufferSize ∧
      last.bufferSize = (rtRingbufferInit alignLog pool size).bufferSize := by
  have hinit := inv_rtRingbufferInit hfits hpos
  have hempty : content (rtRingbufferInit alignLog pool size) = [] := by
    rw [← List.length_eq_zero_iff, length_content]
    rfl
  set capacity := (rtRingbufferInit alignLog pool size).bufferSize with hcapacity
  have hpreserve : ∀ state action next event, (Inv state ∧ state.bufferSize = capacity) → True →
      machine.step state action = some (next, event) → Inv next ∧ next.bufferSize = capacity := by
    rintro state action next event ⟨hinv, hsize⟩ - hstep
    obtain ⟨⟨hnext, hsame⟩, -⟩ := step_spec hinv hstep
    exact ⟨hnext, hsame.trans hsize⟩
  have hsimulated : (queueMachine capacity).Run (content (rtRingbufferInit alignLog pool size))
      (trace.map id) (content last) := by
    refine hrun.simulates content id (fun state => Inv state ∧ state.bufferSize = capacity)
      hpreserve ?_ ⟨hinit, rfl⟩
    rintro state action next event ⟨hinv, hsize⟩ - hstep
    rw [← hsize]
    exact (step_spec hinv hstep).2
  obtain ⟨hlast, hsize⟩ := hrun.invariant (fun state => Inv state ∧ state.bufferSize = capacity)
    hpreserve ⟨hinit, rfl⟩
  rw [hempty, List.map_id] at hsimulated
  exact ⟨hsimulated, (length_content last).symm, (length_content last).le.trans hlast.dataLen_le,
    hlast.read_lt, hlast.write_lt, hsize⟩

/-- A buffer of four bytes is written around its end, overfilled and read. -/
def schedule4 : List Action :=
  [.put [1, 2, 3], .get 2, .put [4, 5, 6, 7], .putcharForce 8, .putchar 9, .getchar, .get 9]

theorem isSome_schedule4 : (machine.exec (fun _ _ => True) (rtRingbufferInit 2 (fun _ => 0) 5)
    schedule4).isSome = true := by
  decide

theorem ringbuffer_refines_queue_schedule4 :
    ∃ trace last, (queueMachine 4).Run [] trace (content last) ∧
      trace.map Prod.snd = [.accepted 3, .delivered [1, 2], .accepted 3, .accepted 1, .accepted 0,
        .delivered [4], .delivered [5, 6, 8]] := by
  have hrun := Machine.runWith_of_isSome schedule4 isSome_schedule4
  have hfits : 5 < 0x8000 := by decide
  have hpos : 0 < (rtRingbufferInit 2 (fun _ => 0) 5).bufferSize := by decide
  exact ⟨_, _, (ringbuffer_refines_queue hfits hpos hrun).1, by decide⟩

end RtThread.Ringbuffer
