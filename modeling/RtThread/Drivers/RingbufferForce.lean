import RtThread.Core.NewestFifo
import RtThread.Drivers.Ringbuffer

set_option linter.all false

/-!
# The forced put of the ring buffer

`rt_ringbuffer_put_force` overwrites the oldest bytes when a block does not fit.  The read
index then goes to the write index, and the read mirror is flipped whenever the write passes the
end of the buffer.  Where the two indices were in one mirror, the write passes the end and the
read index does not: both mirrors flip, and the full buffer is taken for an empty one.
-/

namespace RtThread.Ringbuffer

open RtThread.Core

/-- The bytes of a block that are written: the last ones, if the block is too long. -/
def trimmed (rb : RtRingbuffer) (bytes : List UInt8) : List UInt8 :=
  if rb.bufferSize < bytes.length then bytes.drop (bytes.length - rb.bufferSize) else bytes

def rtRingbufferPutForce (rb : RtRingbuffer) (bytes : List UInt8) : RtRingbuffer × ℕ :=
  let spaceLength := rtRingbufferSpaceLen rb
  let bytes := trimmed rb bytes
  let length := bytes.length
  let first := rb.bufferSize - rb.writeIndex
  if length < first then
    let written : RtRingbuffer := { rb with
      buffer := copyIn rb.buffer rb.writeIndex bytes
      writeIndex := index15 (rb.writeIndex + length) }
    if spaceLength < length then ({ written with readIndex := written.writeIndex }, length)
    else (written, length)
  else
    let written : RtRingbuffer := { rb with
      buffer := copyIn (copyIn rb.buffer rb.writeIndex (bytes.take first)) 0 (bytes.drop first)
      writeMirror := !rb.writeMirror
      writeIndex := index15 (length - first) }
    if spaceLength < length then
      ({ written with readMirror := !written.readMirror, readIndex := written.writeIndex }, length)
    else (written, length)

def rtRingbufferReset (rb : RtRingbuffer) : RtRingbuffer :=
  { rb with readMirror := false, readIndex := 0, writeMirror := false, writeIndex := 0 }

/-- The calls of `Action`, the forced put of a block and the reset. -/
inductive ForceAction
  | call (act : Action)
  | putForce (bytes : List UInt8)
  | reset

def forceStep (rb : RtRingbuffer) : ForceAction → Option (RtRingbuffer × Event)
  | .call act => step rb act
  | .putForce bytes =>
    if bytes.length < 0x10000 then some (acceptedBy (rtRingbufferPutForce rb bytes)) else none
  | .reset => some (rtRingbufferReset rb, .accepted 0)

def forceMachine : Machine RtRingbuffer ForceAction Event where
  step := forceStep

/-- The indices are in one mirror, and what is written of the block does not fit. -/
def Overtakes (rb : RtRingbuffer) (bytes : List UInt8) : Prop :=
  rb.readMirror = rb.writeMirror ∧ rtRingbufferSpaceLen rb < min bytes.length rb.bufferSize

instance (rb : RtRingbuffer) (bytes : List UInt8) : Decidable (Overtakes rb bytes) :=
  inferInstanceAs (Decidable (_ ∧ _))

variable {rb : RtRingbuffer}

theorem length_trimmed (rb : RtRingbuffer) (bytes : List UInt8) :
    (trimmed rb bytes).length = min bytes.length rb.bufferSize := by
  rw [trimmed]
  split
  · rw [List.length_drop]
    omega
  · omega

/-- Trimming a block first makes no difference to the newest bytes. -/
theorem newest_trimmed (rb : RtRingbuffer) (queue bytes : List UInt8) :
    newest rb.bufferSize (queue ++ trimmed rb bytes) = newest rb.bufferSize (queue ++ bytes) := by
  rw [trimmed]
  split
  · next hlong =>
    have hshort : (bytes.drop (bytes.length - rb.bufferSize)).length ≤ rb.bufferSize := by
      rw [List.length_drop]
      omega
    rw [newest_append hshort, newest, List.length_append, List.drop_append, List.length_drop]
    have hqueue : queue.drop (queue.length + (bytes.length - (bytes.length - rb.bufferSize)) -
        rb.bufferSize) = [] := List.drop_eq_nil_of_le (by omega)
    have hqueue' : queue.drop (queue.length + bytes.length - rb.bufferSize) = [] :=
      List.drop_eq_nil_of_le (by omega)
    rw [hqueue, hqueue']
    congr 2
    omega
  · rfl

/-- What a forced put writes, and where the indices go. -/
theorem rtRingbufferPutForce_fields (hinv : Inv rb) (bytes : List UInt8) :
    let next := (rtRingbufferPutForce rb bytes).1
    let length := (trimmed rb bytes).length
    let wraps := rb.bufferSize ≤ rb.writeIndex + length
    (next.bufferSize = rb.bufferSize ∧ next.buffer = writeAround rb (trimmed rb bytes) ∧
      next.writeIndex = (rb.writeIndex + length) % rb.bufferSize) ∧
    next.writeMirror = (if wraps then !rb.writeMirror else rb.writeMirror) ∧
    (rtRingbufferSpaceLen rb < length → next.readIndex = next.writeIndex ∧
      next.readMirror = if wraps then !rb.readMirror else rb.readMirror) ∧
    (length ≤ rtRingbufferSpaceLen rb → next.readIndex = rb.readIndex ∧
      next.readMirror = rb.readMirror) := by
  intro next length wraps
  have hwrite := hinv.write_lt
  have hsize := hinv.size_lt
  have hlength : length ≤ rb.bufferSize := by
    have hmin := length_trimmed rb bytes
    omega
  by_cases hfirst : length < rb.bufferSize - rb.writeIndex
  · have hwraps : ¬ wraps := by
      omega
    have hindex : index15 (rb.writeIndex + length) = (rb.writeIndex + length) % rb.bufferSize := by
      rw [index15, Nat.mod_eq_of_lt (by omega), Nat.mod_eq_of_lt (by omega)]
    have hbuffer : copyIn rb.buffer rb.writeIndex (trimmed rb bytes) =
        writeAround rb (trimmed rb bytes) := (if_pos hfirst).symm
    rw [if_neg hwraps, if_neg hwraps]
    simp only [next, rtRingbufferPutForce]
    rw [if_pos hfirst]
    by_cases hspace : rtRingbufferSpaceLen rb < length
    · rw [if_pos hspace]
      exact ⟨⟨rfl, hbuffer, hindex⟩, rfl, fun _ => ⟨rfl, rfl⟩,
        fun hroom => absurd hspace (Nat.not_lt.2 hroom)⟩
    · rw [if_neg hspace]
      exact ⟨⟨rfl, hbuffer, hindex⟩, rfl, fun hfull => absurd hfull hspace, fun _ => ⟨rfl, rfl⟩⟩
  · have hwraps : wraps := by
      omega
    have hindex : index15 (length - (rb.bufferSize - rb.writeIndex)) =
        (rb.writeIndex + length) % rb.bufferSize := by
      rw [index15, Nat.mod_eq_of_lt (by omega), Nat.mod_eq_sub_mod hwraps,
        Nat.mod_eq_of_lt (by omega)]
      omega
    have hbuffer : copyIn (copyIn rb.buffer rb.writeIndex
        ((trimmed rb bytes).take (rb.bufferSize - rb.writeIndex))) 0
        ((trimmed rb bytes).drop (rb.bufferSize - rb.writeIndex)) =
        writeAround rb (trimmed rb bytes) := (if_neg hfirst).symm
    rw [if_pos hwraps, if_pos hwraps]
    simp only [next, rtRingbufferPutForce]
    rw [if_neg hfirst]
    by_cases hspace : rtRingbufferSpaceLen rb < length
    · rw [if_pos hspace]
      exact ⟨⟨rfl, hbuffer, hindex⟩, rfl, fun _ => ⟨rfl, rfl⟩,
        fun hroom => absurd hspace (Nat.not_lt.2 hroom)⟩
    · rw [if_neg hspace]
      exact ⟨⟨rfl, hbuffer, hindex⟩, rfl, fun hfull => absurd hfull hspace, fun _ => ⟨rfl, rfl⟩⟩

theorem Inv.putForce_fits (hinv : Inv rb) {bytes : List UInt8}
    (hfits : (trimmed rb bytes).length ≤ rtRingbufferSpaceLen rb) :
    Inv (rtRingbufferPutForce rb bytes).1 ∧
      content (rtRingbufferPutForce rb bytes).1 = newest rb.bufferSize (content rb ++ bytes) := by
  obtain ⟨⟨hsize, hbuffer, hwrite⟩, hmirror, -, hkept⟩ := rtRingbufferPutForce_fields hinv bytes
  obtain ⟨hread, hreadMirror⟩ := hkept hfits
  have hpos : 0 < rb.bufferSize := Nat.zero_lt_of_lt hinv.read_lt
  have hle := hinv.dataLen_le
  have hlen := hinv.dataLen_eq
  have hread_lt := hinv.read_lt
  rw [rtRingbufferSpaceLen] at hfits
  have hlead : lead (rtRingbufferPutForce rb bytes).1 = lead rb + (trimmed rb bytes).length := by
    by_cases hwraps : rb.bufferSize ≤ rb.writeIndex + (trimmed rb bytes).length
    · have hsame : rb.readMirror = rb.writeMirror := by
        by_contra hcrossed
        have hlead : lead rb = rb.writeIndex + rb.bufferSize := if_neg hcrossed
        omega
      have hold : lead rb = rb.writeIndex := if_pos hsame
      have hmod : (rb.writeIndex + (trimmed rb bytes).length) % rb.bufferSize =
          rb.writeIndex + (trimmed rb bytes).length - rb.bufferSize := by
        rw [Nat.mod_eq_sub_mod hwraps, Nat.mod_eq_of_lt (by omega)]
      rw [if_pos hwraps] at hmirror
      rw [lead, hreadMirror, hmirror, hwrite, hsize, hold, hsame, if_neg (by simp), hmod]
      omega
    · rw [if_neg hwraps] at hmirror
      rw [lead, lead, hreadMirror, hmirror, hwrite, hsize, Nat.mod_eq_of_lt (by omega)]
      split <;> omega
  obtain ⟨hnext, hcontent⟩ := hinv.write_spec (by omega) hsize hbuffer hread
    (hwrite ▸ Nat.mod_lt _ hpos) hlead
  refine ⟨hnext, ?_⟩
  have hshort : (content rb ++ trimmed rb bytes).length - rb.bufferSize = 0 := by
    rw [List.length_append, length_content]
    omega
  rw [hcontent, ← newest_trimmed, newest, hshort, List.drop_zero]

/-- A block that does not fit leaves the indices equal, in one mirror if they were in one. -/
theorem Inv.putForce_over (hinv : Inv rb) {bytes : List UInt8}
    (hover : rtRingbufferSpaceLen rb < (trimmed rb bytes).length) :
    Inv (rtRingbufferPutForce rb bytes).1 ∧
      rtRingbufferDataLen (rtRingbufferPutForce rb bytes).1 =
        if rb.readMirror = rb.writeMirror then 0 else rb.bufferSize := by
  obtain ⟨⟨hsize, -, hwrite⟩, hmirror, hdropped, -⟩ := rtRingbufferPutForce_fields hinv bytes
  obtain ⟨hread, hreadMirror⟩ := hdropped hover
  have hpos : 0 < rb.bufferSize := Nat.zero_lt_of_lt hinv.read_lt
  have hwrite_lt : (rtRingbufferPutForce rb bytes).1.writeIndex < rb.bufferSize :=
    hwrite ▸ Nat.mod_lt _ hpos
  have hwraps : rb.readMirror = rb.writeMirror →
      rb.bufferSize ≤ rb.writeIndex + (trimmed rb bytes).length := by
    intro hsame
    have hlead : lead rb = rb.writeIndex := if_pos hsame
    have hlen := hinv.dataLen_eq
    rw [rtRingbufferSpaceLen] at hover
    omega
  have hmirrors : (rtRingbufferPutForce rb bytes).1.readMirror =
      (rtRingbufferPutForce rb bytes).1.writeMirror ↔ rb.readMirror = rb.writeMirror := by
    rw [hreadMirror, hmirror]
    split
    · exact Bool.not_inj_iff
    · exact Iff.rfl
  have hinv' : Inv (rtRingbufferPutForce rb bytes).1 := by
    refine ⟨hsize ▸ hinv.size_lt, by rw [hread, hsize]; exact hwrite_lt, hsize ▸ hwrite_lt, ?_, ?_⟩
    · rw [lead, hread]
      split <;> omega
    · rw [lead, hread]
      split <;> omega
  refine ⟨hinv', ?_⟩
  rw [hinv'.dataLen_eq, lead, hread, hsize]
  by_cases hsame : rb.readMirror = rb.writeMirror
  · rw [if_pos (hmirrors.2 hsame), if_pos hsame, Nat.sub_self]
  · rw [if_neg (mt hmirrors.1 hsame), if_neg hsame, Nat.add_sub_cancel_left]

/-- A block that does not fit overwrites the oldest bytes. -/
theorem Inv.putForce_overwrites (hinv : Inv rb) {bytes : List UInt8}
    (hover : rtRingbufferSpaceLen rb < (trimmed rb bytes).length)
    (hcrossed : rb.readMirror ≠ rb.writeMirror) :
    content (rtRingbufferPutForce rb bytes).1 = newest rb.bufferSize (content rb ++ bytes) := by
  obtain ⟨⟨hsize, hbuffer, hwrite⟩, -, hdropped, -⟩ := rtRingbufferPutForce_fields hinv bytes
  obtain ⟨hread, -⟩ := hdropped hover
  have hlength := length_trimmed rb bytes
  have hshort : (trimmed rb bytes).length ≤ rb.bufferSize := by omega
  have hlead : lead rb = rb.writeIndex + rb.bufferSize := if_neg hcrossed
  have hlen := hinv.dataLen_eq
  obtain ⟨-, hfull⟩ := hinv.putForce_over hover
  rw [if_neg hcrossed] at hfull
  rw [rtRingbufferSpaceLen] at hover
  have hover' : (ring rb).Overwritten rb.bufferSize (trimmed rb bytes)
      (ring (rtRingbufferPutForce rb bytes).1) :=
    { fits := hshort
      room := Nat.le_refl _
      size_eq := hsize
      in_eq := hwrite
      out_eq := by
        change (rtRingbufferPutForce rb bytes).1.readIndex =
          (rb.readIndex + (rtRingbufferDataLen rb + (trimmed rb bytes).length - rb.bufferSize)) %
            rb.bufferSize
        rw [hread, hwrite]
        congr 1
        omega
      entry_eq := by
        change rtRingbufferDataLen _ = min (rtRingbufferDataLen rb + _) rb.bufferSize
        rw [hfull]
        omega
      new := fun index hindex => by
        change (rtRingbufferPutForce rb bytes).1.buffer _ = _
        rw [hbuffer]
        exact writeAround_new hinv hshort hindex
      old := fun slot hslot hne => by
        change (rtRingbufferPutForce rb bytes).1.buffer _ = _
        rw [hbuffer]
        exact writeAround_old hinv hslot hne }
  rw [← newest_trimmed]
  exact hover'.content_eq hinv.valid

theorem Inv.reset (hinv : Inv rb) : Inv (rtRingbufferReset rb) := by
  have hpos : 0 < rb.bufferSize := Nat.zero_lt_of_lt hinv.read_lt
  exact ⟨hinv.size_lt, hpos, hpos, Nat.zero_le _, Nat.zero_le _⟩

theorem Inv.putForce (hinv : Inv rb) (bytes : List UInt8) :
    Inv (rtRingbufferPutForce rb bytes).1 := by
  rcases lt_or_ge (rtRingbufferSpaceLen rb) (trimmed rb bytes).length with hover | hfits
  · exact (hinv.putForce_over hover).1
  · exact (hinv.putForce_fits hfits).1

/-- The newest bytes are kept unless the read index is overtaken in its own mirror. -/
theorem Inv.putForce_newest_iff (hinv : Inv rb) (bytes : List UInt8) :
    content (rtRingbufferPutForce rb bytes).1 = newest rb.bufferSize (content rb ++ bytes) ↔
      ¬Overtakes rb bytes := by
  have hlength := length_trimmed rb bytes
  rcases lt_or_ge (rtRingbufferSpaceLen rb) (trimmed rb bytes).length with hover | hfits
  · have hovertakes : Overtakes rb bytes ↔ rb.readMirror = rb.writeMirror :=
      and_iff_left (hlength ▸ hover)
    rw [hovertakes]
    refine ⟨fun hkept hsame => ?_, hinv.putForce_overwrites hover⟩
    obtain ⟨-, hempty⟩ := hinv.putForce_over hover
    rw [if_pos hsame] at hempty
    have hcount := congrArg List.length hkept
    rw [length_content, hempty, length_newest, List.length_append] at hcount
    omega
  · exact iff_of_true (hinv.putForce_fits hfits).2 fun hovertakes =>
      absurd (hlength ▸ hovertakes.2) (Nat.not_lt.2 hfits)

/-! ## Runs -/

theorem forceStep_inv {next : RtRingbuffer} {act : ForceAction} {event : Event}
    (hinv : Inv rb) (hstep : forceStep rb act = some (next, event)) : Inv next := by
  cases act with
  | call act => exact (step_spec hinv hstep).1.1
  | putForce bytes =>
    rw [forceStep] at hstep
    split at hstep
    · cases hstep
      exact hinv.putForce bytes
    · contradiction
  | reset =>
    cases hstep
    exact hinv.reset

/-- After any calls on a new buffer, a forced put of a block leaves the newest bytes stored if and
only if it does not overtake the read index in its own mirror. -/
theorem put_force_keeps_newest {alignLog size : ℕ} {pool : ℕ → UInt8}
    {trace : List (ForceAction × Event)} {last : RtRingbuffer} (hfits : size < 0x8000)
    (hpos : 0 < (rtRingbufferInit alignLog pool size).bufferSize)
    (hrun : forceMachine.Run (rtRingbufferInit alignLog pool size) trace last)
    (bytes : List UInt8) :
    content (rtRingbufferPutForce last bytes).1 =
        newest last.bufferSize (content last ++ bytes) ↔
      ¬Overtakes last bytes := by
  have hlast : Inv last := hrun.invariant Inv
    (fun _ _ _ _ hinv _ hstep => forceStep_inv hinv hstep) (inv_rtRingbufferInit hfits hpos)
  exact hlast.putForce_newest_iff bytes

/-- In a buffer of four bytes, the stored bytes go around the end. -/
def scheduleAround : List ForceAction :=
  [.call (.put [1, 2, 3]), .call (.get 2), .putForce [4, 5, 6]]

theorem isSome_scheduleAround : (forceMachine.exec (fun _ _ => True)
    (rtRingbufferInit 2 (fun _ => 0) 4) scheduleAround).isSome = true := by
  decide

theorem put_force_keeps_newest_scheduleAround :
    ∃ trace last, forceMachine.Run (rtRingbufferInit 2 (fun _ => 0) 4) trace last ∧
      content last = [3, 4, 5, 6] ∧
      content (rtRingbufferPutForce last [7, 8]).1 =
        newest last.bufferSize (content last ++ [7, 8]) := by
  have hrun := Machine.runWith_of_isSome scheduleAround isSome_scheduleAround
  have hfits : 4 < 0x8000 := by decide
  have hpos : 0 < (rtRingbufferInit 2 (fun _ => 0) 4).bufferSize := by decide
  exact ⟨_, _, hrun, by decide,
    (put_force_keeps_newest hfits hpos hrun [7, 8]).2 (by decide)⟩

/-- Three bytes are stored in a buffer of four. -/
def scheduleThree : List ForceAction :=
  [.call (.put [1, 2, 3])]

theorem isSome_scheduleThree : (forceMachine.exec (fun _ _ => True)
    (rtRingbufferInit 2 (fun _ => 0) 4) scheduleThree).isSome = true := by
  decide

/-- Two more bytes leave the buffer empty. -/
theorem put_force_empties :
    ∃ trace last, forceMachine.Run (rtRingbufferInit 2 (fun _ => 0) 4) trace last ∧
      content last = [1, 2, 3] ∧ newest last.bufferSize (content last ++ [4, 5]) = [2, 3, 4, 5] ∧
      content (rtRingbufferPutForce last [4, 5]).1 = [] := by
  have hrun := Machine.runWith_of_isSome scheduleThree isSome_scheduleThree
  exact ⟨_, _, hrun, by decide, by decide, by decide⟩

end RtThread.Ringbuffer
