import Mathlib

set_option linter.all false

/-!
# Byte-wise cyclic redundancy checks

Two ways to keep a check register from a table: a register of two bytes that is shifted up, where
the byte enters from below, and one of four bytes that is shifted down, where the byte selects
the table's entry.  In both the check bytes that a sender appends take the register of the
receiver to a value that does not depend on what was sent.
-/

namespace RtThread.Core.Crc

section Up

variable (table : UInt8 → UInt16)

def shiftUp (byte : UInt8) (crc : UInt16) : UInt16 :=
  table (crc >>> 8).toUInt8 ^^^ (crc <<< 8) ^^^ byte.toUInt16

theorem shiftUp_eq (byte : UInt8) (crc : UInt16) :
    shiftUp table byte crc = shiftUp table 0 crc ^^^ byte.toUInt16 := by
  have hzero : (0 : UInt8).toUInt16 = 0 := rfl
  rw [shiftUp, shiftUp, hzero, UInt16.xor_zero]

theorem toUInt16_shiftRight (byte : UInt8) : byte.toUInt16 >>> 8 = 0 := by
  apply UInt16.toNat_inj.1
  have hlt := byte.toNat_lt
  rw [UInt16.toNat_shiftRight, UInt8.toNat_toUInt16]
  change byte.toNat >>> 8 = 0
  rw [Nat.shiftRight_eq_div_pow]
  omega

theorem shiftUp_xor (byte enters : UInt8) (crc : UInt16) :
    shiftUp table byte (crc ^^^ enters.toUInt16) =
      shiftUp table 0 crc ^^^ ((enters.toUInt16 <<< 8) ^^^ byte.toUInt16) := by
  have hzero : (0 : UInt8).toUInt16 = 0 := rfl
  rw [shiftUp, shiftUp, UInt16.shiftRight_xor, UInt16.shiftLeft_xor, toUInt16_shiftRight, hzero]
  simp only [UInt16.xor_zero, UInt16.xor_assoc]

theorem high_xor_low (word : UInt16) :
    ((word >>> 8).toUInt8.toUInt16 <<< 8) ^^^ word.toUInt8.toUInt16 = word := by
  apply UInt16.toBitVec_inj.1
  apply BitVec.eq_of_getLsbD_eq
  intro place hplace
  have height : (8 : UInt16).toBitVec % 16 = 8 := by decide
  simp only [UInt16.toBitVec_xor, UInt16.toBitVec_shiftLeft, UInt8.toBitVec_toUInt16,
    UInt16.toBitVec_toUInt8, UInt16.toBitVec_shiftRight, BitVec.getLsbD_xor,
    BitVec.getLsbD_setWidth, height]
  change ((BitVec.setWidth 16 (BitVec.setWidth 8 (word.toBitVec >>> 8)) <<< 8).getLsbD place ^^
    _) = _
  rw [BitVec.getLsbD_shiftLeft, BitVec.getLsbD_setWidth, BitVec.getLsbD_setWidth,
    BitVec.getLsbD_ushiftRight]
  by_cases hlow : place < 8
  · simp [hlow, hplace]
  · have hback : 8 + (place - 8) = place := by omega
    have hword : place - 8 < 16 := by omega
    have hbyte : place - 8 < 8 := by omega
    simp [hlow, hplace, hword, hbyte, hback]

theorem shiftUp_check (crc : UInt16) :
    shiftUp table (shiftUp table 0 (shiftUp table 0 crc)).toUInt8
      (shiftUp table ((shiftUp table 0 (shiftUp table 0 crc)) >>> 8).toUInt8 crc) = 0 := by
  generalize hcheck : shiftUp table 0 (shiftUp table 0 crc) = check
  rw [shiftUp_eq table _ crc, shiftUp_xor, high_xor_low, hcheck, UInt16.xor_self]

end Up

section Down

variable (table : UInt8 → UInt32)

def shiftDown (byte : UInt8) (crc : UInt32) : UInt32 :=
  table (crc.toUInt8 ^^^ byte) ^^^ (crc >>> 8)

/-- The bytes of a word from the lowest on. -/
def lowBytes : ℕ → UInt32 → List UInt8
  | 0, _ => []
  | len + 1, word => word.toUInt8 :: lowBytes len (word >>> 8)

/-- What is left of a word without its low bytes. -/
def dropLow : ℕ → UInt32 → UInt32
  | 0, word => word
  | len + 1, word => dropLow len (word >>> 8)

def absorb (bytes : List UInt8) (crc : UInt32) : UInt32 :=
  bytes.foldl (fun crc byte => shiftDown table byte crc) crc

theorem absorb_cons (byte : UInt8) (bytes : List UInt8) (crc : UInt32) :
    absorb table (byte :: bytes) crc = absorb table bytes (shiftDown table byte crc) :=
  rfl

theorem absorb_append (bytes more : List UInt8) (crc : UInt32) :
    absorb table (bytes ++ more) crc = absorb table more (absorb table bytes crc) :=
  List.foldl_append

theorem shiftDown_xor (word crc : UInt32) :
    shiftDown table word.toUInt8 crc ^^^ (word >>> 8) =
      table (crc ^^^ word).toUInt8 ^^^ ((crc ^^^ word) >>> 8) := by
  rw [shiftDown, UInt32.toUInt8_xor, UInt32.shiftRight_xor, UInt32.xor_assoc]

/-- Registers that differ from a word in the same way do so after its bytes. -/
theorem absorb_lowBytes {word word' crc crc' : UInt32} (len : ℕ)
    (hxor : crc ^^^ word = crc' ^^^ word') :
    absorb table (lowBytes len word) crc ^^^ dropLow len word =
      absorb table (lowBytes len word') crc' ^^^ dropLow len word' := by
  induction len generalizing word word' crc crc' with
  | zero => exact hxor
  | succ len ih =>
    rw [lowBytes, lowBytes, absorb_cons, absorb_cons, dropLow, dropLow]
    apply ih
    rw [shiftDown_xor, shiftDown_xor, hxor]

theorem dropLow_four (word : UInt32) : dropLow 4 word = 0 := by
  apply UInt32.toNat_inj.1
  have hlt := word.toNat_lt
  change word.toNat >>> 8 >>> 8 >>> 8 >>> 8 = 0
  omega

/-- The four check bytes take the register to a value of the table. -/
theorem absorb_check (crc : UInt32) :
    absorb table (lowBytes 4 (~~~crc)) crc = absorb table (lowBytes 4 0) (~~~0) := by
  have hxor : crc ^^^ ~~~crc = ~~~0 ^^^ 0 := by
    rw [UInt32.xor_not, UInt32.xor_self, UInt32.xor_zero]
  have hcheck := absorb_lowBytes table 4 hxor
  rwa [dropLow_four, dropLow_four, UInt32.xor_zero, UInt32.xor_zero] at hcheck

end Down

end RtThread.Core.Crc
