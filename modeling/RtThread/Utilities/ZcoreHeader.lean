import RtThread.Utilities.ZcoreData

set_option linter.all false

/-!
# ZMODEM headers

A header that was sent in one of its forms is found behind line noise and read as it was sent.
The byte `ZCRCW` in front of a `ZPAD` makes the search start again, which a binary header, with
its one `ZPAD`, does not survive.
-/

namespace RtThread.Zmodem

open RtThread.Core
open RtThread.Ringbuffer (copyIn copyOut)

inductive Form
  | hex
  | bin (txfcs32 : CrcMode)

def sendHeader (form : Form) (type : UInt8) (hdr : ℕ → UInt8) : List UInt8 :=
  match form with
  | .hex => zsendHexHeader type hdr
  | .bin txfcs32 => zsendBinHeader txfcs32 type hdr

/-- Bytes that cannot be taken for the start of a header, fewer than the error budget. -/
structure LineNoise (baud : UInt32) (noise : List UInt8) : Prop where
  plain : ∀ byte ∈ noise, byte ≠ zpad ∧ byte ≠ can
  length_lt : noise.length < baud.toNat

/-- The header is read with the type and the four bytes it was sent with. -/
def HeaderArrives (form : Form) (type : UInt8) (hdr : ℕ → UInt8) (charSigned : Bool)
    (baud : UInt32) (getCan : UInt16) (rxHeader : ℕ → UInt8) (noise rest : List UInt8) : Prop :=
  ∃ got left, zgetHeader charSigned baud getCan rxHeader
      (noise ++ (sendHeader form type hdr ++ rest)) = some (got, left) ∧
    got.code = type.toNat ∧ copyOut got.hdr 0 4 = copyOut hdr 0 4

/-! ## Reading what a header consists of -/

theorem readAll_flatMap {read : List UInt8 → Option (Int × List UInt8)} {good : Int → Bool}
    {encode : UInt8 → List UInt8}
    (hread : ∀ byte rest, read (encode byte ++ rest) = some ((byte.toNat : Int), rest))
    (hgood : ∀ byte : UInt8, good byte.toNat = true) (bytes rest : List UInt8) :
    readAll read good bytes.length (bytes.flatMap encode ++ rest) = some (bytes, none, rest) := by
  induction bytes with
  | nil => rfl
  | cons byte bytes ih =>
    rw [List.flatMap_cons, List.append_assoc, List.length_cons, readAll, hread]
    simp only [Option.bind_eq_bind, Option.bind_some, hgood, if_true, ih, Int.toNat_natCast,
      UInt8.ofNat_toNat]
    rfl

theorem isByte_toNat (byte : UInt8) : isByte byte.toNat = true := by
  have hlt := byte.toNat_lt
  simp only [isByte, decide_eq_true_eq]
  omega

theorem hexDigit_spec (nibble : UInt8) (hnibble : nibble.toNat < 16) :
    hexDigit nibble &&& (0x7f : UInt8) = hexDigit nibble ∧ hexDigit nibble ≠ xon ∧
      hexDigit nibble ≠ xoff ∧ hexValue (hexDigit nibble) = (nibble.toNat : Int) := by
  have hall : ∀ place < 16, hexDigit (UInt8.ofNat place) &&& (0x7f : UInt8) =
      hexDigit (UInt8.ofNat place) ∧ hexDigit (UInt8.ofNat place) ≠ xon ∧
        hexDigit (UInt8.ofNat place) ≠ xoff ∧
        hexValue (hexDigit (UInt8.ofNat place)) = (place : Int) := by decide
  have hdigit := hall nibble.toNat hnibble
  rwa [UInt8.ofNat_toNat] at hdigit

theorem toNat_highNibble (byte : UInt8) : ((byte &&& 0xf0) >>> 4).toNat = byte.toNat / 16 := by
  have hlt := byte.toNat_lt
  rw [UInt8.toNat_shiftRight, UInt8.toNat_and]
  change (byte.toNat &&& 0xf0) >>> 4 = _
  rw [Nat.shiftRight_and_distrib]
  change (byte.toNat >>> 4) &&& (2 ^ 4 - 1) = _
  rw [Nat.and_two_pow_sub_one_eq_mod, Nat.shiftRight_eq_div_pow]
  omega

theorem toNat_lowNibble (byte : UInt8) : (byte &&& 0xf).toNat = byte.toNat % 16 := by
  rw [UInt8.toNat_and]
  exact Nat.and_two_pow_sub_one_eq_mod byte.toNat 4

theorem hexDigits_spec (byte : UInt8) :
    (hexDigit ((byte &&& 0xf0) >>> 4) &&& (0x7f : UInt8) = hexDigit ((byte &&& 0xf0) >>> 4) ∧
      hexDigit ((byte &&& 0xf0) >>> 4) ≠ xon ∧ hexDigit ((byte &&& 0xf0) >>> 4) ≠ xoff ∧
      hexValue (hexDigit ((byte &&& 0xf0) >>> 4)) = byte.toNat / 16) ∧
    (hexDigit (byte &&& 0xf) &&& (0x7f : UInt8) = hexDigit (byte &&& 0xf) ∧
      hexDigit (byte &&& 0xf) ≠ xon ∧ hexDigit (byte &&& 0xf) ≠ xoff ∧
      hexValue (hexDigit (byte &&& 0xf)) = byte.toNat % 16) := by
  have hlt := byte.toNat_lt
  have hhigh : (((byte &&& 0xf0) >>> 4).toNat : Int) = byte.toNat / 16 := by
    rw [toNat_highNibble]
    rfl
  have hlow : ((byte &&& 0xf).toNat : Int) = byte.toNat % 16 := by
    rw [toNat_lowNibble]
    rfl
  rw [← hhigh, ← hlow]
  exact ⟨hexDigit_spec _ (by omega), hexDigit_spec _ (by omega)⟩

theorem zxorRead_digit {digit : UInt8} {rest : List UInt8}
    (hdigit : digit &&& 0x7f = digit) (hxon : digit ≠ xon) (hxoff : digit ≠ xoff) :
    zxorRead (digit :: rest) = some (digit, rest) := by
  rw [zxorRead, hdigit]
  exact if_neg (not_or.2 ⟨hxon, hxoff⟩)

theorem zgetHex_zsendAscii (byte : UInt8) (rest : List UInt8) :
    zgetHex (zsendAscii byte ++ rest) = some ((byte.toNat : Int), rest) := by
  obtain ⟨⟨hhigh, hxon, hxoff, hvalue⟩, ⟨hlow, hxon', hxoff', hvalue'⟩⟩ := hexDigits_spec byte
  have hsum : (byte.toNat : Int) % 16 + 16 * (byte.toNat / 16) = byte.toNat := by omega
  have hfirst : ¬ (byte.toNat : Int) / 16 < 0 := by omega
  have hsecond : ¬ (byte.toNat : Int) % 16 < 0 := by omega
  simp only [zgetHex, zsendAscii, zsendLine, List.cons_append, List.nil_append,
    zxorRead_digit hhigh hxon hxoff, zxorRead_digit hlow hxon' hxoff', Option.bind_eq_bind,
    Option.bind_some, hvalue, hvalue', if_neg hfirst, if_neg hsecond, hsum]
  rfl

/-- A header whose check register comes out as it should. -/
theorem finishHeader_right {Check : Type} {charSigned : Bool} {updcrc : UInt8 → Check → Check}
    {crc : Check} {wrong : Check → Bool} {hdr rxHeader : ℕ → UInt8} {type : UInt8}
    {check : List UInt8} (htype : charSigned = true → type < 0x80)
    (hright : wrong ((type :: (copyOut hdr 0 4 ++ check)).foldl
      (fun crc byte => updcrc byte crc) crc) = false) :
    (finishHeader charSigned updcrc crc wrong rxHeader (type :: (copyOut hdr 0 4 ++ check))
        none).code = type.toNat ∧
      copyOut (finishHeader charSigned updcrc crc wrong rxHeader
        (type :: (copyOut hdr 0 4 ++ check)) none).hdr 0 4 = copyOut hdr 0 4 := by
  have hbytes : ((type :: (copyOut hdr 0 4 ++ check)).drop 1).take 4 = copyOut hdr 0 4 := rfl
  have hchar : charValue charSigned type = type.toNat := by
    rw [charValue, if_neg]
    rintro ⟨hsigned, hge⟩
    exact absurd (htype hsigned) (UInt8.not_lt.2 hge)
  simp only [finishHeader, hright, hbytes]
  exact ⟨hchar, Ringbuffer.copyOut_copyIn rxHeader 0 (copyOut hdr 0 4)⟩

/-! ## Finding a header -/

/-- The search is in its first loop. -/
structure Searching (st : HeaderState) : Prop where
  pc : st.pc = .pad
  stepOut : st.stepOut = false
  prev : st.prev ≠ can

variable {st : HeaderState}

theorem findHeader_pad (hpc : st.pc = .pad) (byte : UInt8) (rest : List UInt8) :
    findHeader st (byte :: rest) =
      match st.pad byte with
      | .inl st => findHeader st rest
      | .inr found => some (found, rest) := by
  obtain ⟨pc, prev, bit, getCan, stepOut⟩ := st
  cases hpc
  rfl

theorem next_searching {st : HeaderState} (hstepOut : st.stepOut = false) {c : UInt8}
    (hc : c ≠ can) :
    ∃ after, st.next c = .inl after ∧ Searching after ∧ after.prev = c ∧ after.bit = st.bit := by
  rw [HeaderState.next, if_neg (by rw [hstepOut]; exact Bool.false_ne_true)]
  exact ⟨_, rfl, ⟨rfl, hstepOut, hc⟩, rfl, rfl⟩

theorem startAgain_searching (hstepOut : st.stepOut = false) {c : UInt8} (hc : c ≠ can)
    (hbit : 1 < st.bit.toNat) :
    ∃ after, st.startAgain c = .inl after ∧ Searching after ∧ after.prev = c ∧
      after.bit.toNat = st.bit.toNat - 1 := by
  have hone : (1 : UInt32).toNat = 1 := rfl
  have hsub : (st.bit - 1).toNat = st.bit.toNat - 1 :=
    UInt32.toNat_sub_of_le _ _ (UInt32.le_iff_toNat_le.2 (by rw [hone]; omega))
  have hnonzero : st.bit - 1 ≠ 0 := by
    intro hzero
    rw [hzero] at hsub
    change 0 = _ at hsub
    omega
  rw [HeaderState.startAgain]
  dsimp only
  rw [if_neg hnonzero]
  obtain ⟨after, hnext, hsearching, hprev, hbit'⟩ :=
    @next_searching { st with bit := st.bit - 1, getCan := 0 } hstepOut c hc
  exact ⟨after, hnext, hsearching, hprev, (congrArg UInt32.toNat hbit').trans hsub⟩

/-- A byte of line noise costs at most one of the error budget, and `ZCRCW` costs nothing. -/
theorem pad_noise (hsearching : Searching st) {c : UInt8} (hpad : c ≠ zpad) (hc : c ≠ can)
    (hbit : 1 < st.bit.toNat) : ∃ after, st.pad c = .inl after ∧ Searching after ∧ after.prev = c ∧
      st.bit.toNat - 1 ≤ after.bit.toNat ∧ (c = zcrcw → after.bit = st.bit) := by
  have hnext : ∃ after, st.next c = .inl after ∧ Searching after ∧ after.prev = c ∧
      st.bit.toNat - 1 ≤ after.bit.toNat ∧ (c = zcrcw → after.bit = st.bit) := by
    obtain ⟨after, heq, hafter, hprev, hbit'⟩ := next_searching hsearching.stepOut hc
    exact ⟨after, heq, hafter, hprev, by rw [hbit']; exact Nat.sub_le _ _, fun _ => hbit'⟩
  have hagain : c ≠ zcrcw → ∃ after, st.startAgain c = .inl after ∧ Searching after ∧
      after.prev = c ∧ st.bit.toNat - 1 ≤ after.bit.toNat ∧
        (c = zcrcw → after.bit = st.bit) := by
    intro hzcrcw
    obtain ⟨after, heq, hafter, hprev, hbit'⟩ :=
      startAgain_searching hsearching.stepOut hc hbit
    exact ⟨after, heq, hafter, hprev, hbit'.ge, fun heq => absurd heq hzcrcw⟩
  rw [HeaderState.pad, if_neg hc, if_neg hpad, if_neg hsearching.prev, if_neg hsearching.prev,
    if_neg hsearching.prev]
  split_ifs with hxon hprev hzcrcw
  · refine hagain ?_
    rintro rfl
    exact absurd hxon (by decide)
  · exact hnext
  · exact hnext
  · exact hagain hzcrcw

/-- The noise is read, and its last byte is remembered. -/
theorem findHeader_noise {noise rest : List UInt8} {st : HeaderState} (hsearching : Searching st)
    (hplain : ∀ byte ∈ noise, byte ≠ zpad ∧ byte ≠ can) (hbudget : noise.length < st.bit.toNat)
    (hprev : st.prev = zcrcw → noise.length + 1 < st.bit.toNat) :
    ∃ after, findHeader st (noise ++ rest) = findHeader after rest ∧ Searching after ∧
      after.prev = noise.getLastD st.prev ∧ (after.prev = zcrcw → 1 < after.bit.toNat) := by
  induction noise generalizing st with
  | nil => exact ⟨st, rfl, hsearching, rfl, fun hzcrcw => by simpa using hprev hzcrcw⟩
  | cons c noise ih =>
    rw [List.length_cons] at hbudget
    obtain ⟨hpad, hc⟩ := hplain c List.mem_cons_self
    obtain ⟨mid, hturn, hmid, hmidPrev, hbit, hkept⟩ :=
      pad_noise hsearching hpad hc (by omega)
    have hmidBudget : mid.prev = zcrcw → noise.length + 1 < mid.bit.toNat := by
      intro hzcrcw
      rw [hkept (hmidPrev.symm.trans hzcrcw)]
      exact hbudget
    obtain ⟨after, hfind, hafter, hlast, hbit'⟩ :=
      ih hmid (fun byte hbyte => hplain byte (List.mem_cons_of_mem _ hbyte)) (by omega)
        hmidBudget
    refine ⟨after, ?_, hafter, ?_, hbit'⟩
    · rw [List.cons_append, findHeader_pad hsearching.pc, hturn]
      exact hfind
    · rw [hlast, hmidPrev, List.getLastD_cons]

/-- A byte that says which header follows. -/
def FrameInd (ind : UInt8) : Prop :=
  ind = zbin32 ∨ ind = zbinr32 ∨ ind = zbin ∨ ind = zhex

theorem findHeader_dle (hpc : st.pc = .dle) {ind : UInt8} (hind : FrameInd ind)
    (rest : List UInt8) :
    findHeader st (zdle :: ind :: rest) = some (.frame ind, rest) := by
  rw [findHeader, hpc]
  rcases hind with rfl | rfl | rfl | rfl <;> rfl

theorem findHeader_zpad (hsearching : Searching st) (hprev : st.prev ≠ zcrcw) (rest : List UInt8) :
    ∃ after, after.pc = .dle ∧ findHeader st (zpad :: rest) = findHeader after rest := by
  refine ⟨{ st with prev := zpad, stepOut := false, getCan := 0, pc := .dle }, rfl, ?_⟩
  have hturn : st.pad zpad =
      .inl { st with prev := zpad, stepOut := false, getCan := 0, pc := .dle } := by
    change (if st.prev = can then st.next zpad else if st.prev = zcrcw then st.startAgain zpad
      else { st with stepOut := true }.next zpad) = _
    rw [if_neg hsearching.prev, if_neg hprev]
    rfl
  rw [findHeader_pad hsearching.pc, hturn]

/-- One `ZPAD` is enough unless the byte in front of it is `ZCRCW`. -/
theorem findHeader_bin (hsearching : Searching st) (hprev : st.prev ≠ zcrcw) {ind : UInt8}
    (hind : FrameInd ind) (rest : List UInt8) :
    findHeader st (zpad :: zdle :: ind :: rest) = some (.frame ind, rest) := by
  obtain ⟨after, hpc, hfind⟩ := findHeader_zpad hsearching hprev (zdle :: ind :: rest)
  rw [hfind, findHeader_dle hpc hind]

theorem findHeader_hex (hsearching : Searching st) (hbit : st.prev = zcrcw → 1 < st.bit.toNat)
    {ind : UInt8} (hind : FrameInd ind) (rest : List UInt8) :
    findHeader st (zpad :: zpad :: zdle :: ind :: rest) = some (.frame ind, rest) := by
  by_cases hprev : st.prev = zcrcw
  · have hcan : zpad ≠ can := by decide
    have hzcrcw : zpad ≠ zcrcw := by decide
    obtain ⟨after, hagain, hafter, hprev', -⟩ :=
      startAgain_searching hsearching.stepOut hcan (hbit hprev)
    have hturn : st.pad zpad = .inl after := by
      change (if st.prev = can then st.next zpad else if st.prev = zcrcw then st.startAgain zpad
        else { st with stepOut := true }.next zpad) = _
      rw [if_neg hsearching.prev, if_pos hprev, hagain]
    rw [findHeader_pad hsearching.pc, hturn]
    exact findHeader_bin hafter (by rw [hprev']; exact hzcrcw) hind rest
  · obtain ⟨after, hpc, hfind⟩ :=
      findHeader_zpad hsearching hprev (zpad :: zdle :: ind :: rest)
    rw [hfind, findHeader, hpc]
    exact findHeader_dle hpc hind rest

/-! ## What is sent -/

/-- The bytes behind the one that says which header it is. -/
def headerBytes (form : Form) (type : UInt8) (hdr : ℕ → UInt8) : List UInt8 :=
  match form with
  | .hex => type :: (copyOut hdr 0 4 ++ check16 (crc16Of (type :: copyOut hdr 0 4) 0))
  | .bin .crc16 => type :: (copyOut hdr 0 4 ++ check16 (crc16Of (type :: copyOut hdr 0 4) 0))
  | .bin _ => type :: (copyOut hdr 0 4 ++
      Crc.lowBytes 4 (~~~crc32Of (type :: copyOut hdr 0 4) 0xffffffff))

theorem zsendBinHeader_crc16 (type : UInt8) (hdr : ℕ → UInt8) :
    zsendBinHeader .crc16 type hdr =
      zpad :: zdle :: zbin :: zsendZdleChars (headerBytes (.bin .crc16) type hdr) := by
  have hcrc : ((copyOut hdr 0 4).foldl (fun crc byte => updcrc16Wide byte crc)
      (updcrc16Wide type 0)).toUInt16 = crc16Of (type :: copyOut hdr 0 4) 0 := by
    rw [foldl_updcrc16Wide, updcrc16Wide_low]
    rfl
  simp only [zsendBinHeader, headerBytes, zsendByte_toUInt16, zsendZdleChars_cons,
    zsendZdleChars_append, List.append_assoc, zsendCheck16, hcrc]
  rfl

theorem zsendBinHeader_crc32 (type : UInt8) (hdr : ℕ → UInt8) :
    zsendBinHeader .crc32 type hdr =
      zpad :: zdle :: zbin32 :: zsendZdleChars (headerBytes (.bin .crc32) type hdr) := by
  simp only [zsendBinHeader, headerBytes, zsendByte_toUInt16, zsendZdleChars_cons,
    zsendZdleChars_append, List.append_assoc, zsendCrc32_eq]
  rfl

theorem zsendBinHeader_crc32Rle (type : UInt8) (hdr : ℕ → UInt8) :
    zsendBinHeader .crc32Rle type hdr =
      zpad :: zdle :: zbinr32 :: zsendZdleChars (headerBytes (.bin .crc32Rle) type hdr) := by
  simp only [zsendBinHeader, headerBytes, zsendByte_toUInt16, zsendZdleChars_cons,
    zsendZdleChars_append, List.append_assoc, zsendCrc32_eq]
  rfl

theorem zsendHexHeader_eq (type : UInt8) (hdr : ℕ → UInt8) :
    zsendHexHeader type hdr =
      zpad :: zpad :: zdle :: zhex :: ((headerBytes .hex type hdr).flatMap zsendAscii ++
        0x0d :: 0x8a :: if type ≠ zfin ∧ type ≠ zack then zsendLine xon else []) := by
  simp only [zsendHexHeader, headerBytes, check16, List.flatMap_cons, List.flatMap_append,
    List.flatMap_nil, List.append_nil, List.append_assoc, zsendLine, List.cons_append,
    List.nil_append]
  rfl

theorem check16_right (type : UInt8) (hdr : ℕ → UInt8) :
    (type :: (copyOut hdr 0 4 ++ check16 (crc16Of (type :: copyOut hdr 0 4) 0))).foldl
      (fun crc byte => updcrc16 byte crc) 0 = 0 := by
  rw [← List.cons_append, List.foldl_append]
  exact crc16Of_check _

theorem check32_right (type : UInt8) (hdr : ℕ → UInt8) :
    (type :: (copyOut hdr 0 4 ++ Crc.lowBytes 4
      (~~~crc32Of (type :: copyOut hdr 0 4) 0xffffffff))).foldl
        (fun crc byte => updcrc32 byte crc) 0xffffffff = 0xdebb20e3 := by
  have hfold : ∀ bytes crc, bytes.foldl (fun crc byte => updcrc32 byte crc) crc =
      crc32Of bytes crc := fun _ _ => rfl
  rw [← List.cons_append, List.foldl_append, hfold, hfold]
  exact crc32Of_check _

/-! ## Reading a header -/

variable {type : UInt8} {hdr rxHeader : ℕ → UInt8} {charSigned : Bool} {rest : List UInt8}

theorem zgetBinHeader_spec (htype : charSigned = true → type < 0x80) :
    ∃ got, zgetBinHeader charSigned rxHeader
        (zsendZdleChars (headerBytes (.bin .crc16) type hdr) ++ rest) = some (got, rest) ∧
      got.code = type.toNat ∧ copyOut got.hdr 0 4 = copyOut hdr 0 4 := by
  have hread := readAll_flatMap zreadByte_zdleChar isByte_toNat
    (headerBytes (.bin .crc16) type hdr) rest
  have hlength : (headerBytes (.bin .crc16) type hdr).length = 7 := rfl
  rw [hlength] at hread
  have hright : decide ((headerBytes (.bin .crc16) type hdr).foldl
      (fun crc byte => updcrc16 byte crc) 0 ≠ 0) = false :=
    decide_eq_false (not_not.2 (check16_right type hdr))
  have hgot := @finishHeader_right UInt16 charSigned updcrc16 0 (· ≠ 0) hdr rxHeader type
    (check16 (crc16Of (type :: copyOut hdr 0 4) 0)) htype hright
  refine ⟨_, ?_, hgot⟩
  rw [zgetBinHeader, zsendZdleChars, hread]
  rfl

theorem zgetBinFcs_spec (htype : charSigned = true → type < 0x80) :
    ∃ got, zgetBinFcs charSigned rxHeader
        (zsendZdleChars (headerBytes (.bin .crc32) type hdr) ++ rest) = some (got, rest) ∧
      got.code = type.toNat ∧ copyOut got.hdr 0 4 = copyOut hdr 0 4 := by
  have hread := readAll_flatMap zreadByte_zdleChar isByte_toNat
    (headerBytes (.bin .crc32) type hdr) rest
  have hlength : (headerBytes (.bin .crc32) type hdr).length = 9 := rfl
  rw [hlength] at hread
  have hright : decide ((headerBytes (.bin .crc32) type hdr).foldl
      (fun crc byte => updcrc32 byte crc) 0xffffffff ≠ 0xdebb20e3) = false :=
    decide_eq_false (not_not.2 (check32_right type hdr))
  have hgot := @finishHeader_right UInt32 charSigned updcrc32 0xffffffff (· ≠ 0xdebb20e3) hdr
    rxHeader type (Crc.lowBytes 4 (~~~crc32Of (type :: copyOut hdr 0 4) 0xffffffff)) htype hright
  refine ⟨_, ?_, hgot⟩
  rw [zgetBinFcs, zsendZdleChars, hread]
  rfl

theorem zgetHexHeader_spec (htype : charSigned = true → type < 0x80) {first second : UInt8} :
    ∃ got, zgetHexHeader charSigned rxHeader
        ((headerBytes .hex type hdr).flatMap zsendAscii ++ first :: second :: rest) =
          some (got, rest) ∧
      got.code = type.toNat ∧ copyOut got.hdr 0 4 = copyOut hdr 0 4 := by
  have hread := @readAll_flatMap zgetHex (fun res => 0 ≤ res) zsendAscii zgetHex_zsendAscii
    (fun byte => decide_eq_true (Int.natCast_nonneg byte.toNat)) (headerBytes .hex type hdr)
    (first :: second :: rest)
  have hlength : (headerBytes .hex type hdr).length = 7 := rfl
  rw [hlength] at hread
  have hzero : (headerBytes .hex type hdr).foldl (fun crc byte => updcrc16 byte crc) 0 = 0 :=
    check16_right type hdr
  have hright : decide ((headerBytes .hex type hdr).foldl
      (fun crc byte => updcrc16 byte crc) 0 ≠ 0) = false :=
    decide_eq_false (not_not.2 hzero)
  have hgot := @finishHeader_right UInt16 charSigned updcrc16 0 (· ≠ 0) hdr rxHeader type
    (check16 (crc16Of (type :: copyOut hdr 0 4) 0)) htype hright
  refine ⟨_, ?_, hgot⟩
  rw [zgetHexHeader, hread]
  simp only [Option.bind_eq_bind, Option.bind_some, hzero]
  rfl

/-! ## A header arrives -/

theorem searching_start {baud : UInt32} {getCan : UInt16} :
    Searching ⟨.pad, 0xff, baud, getCan, false⟩ := by
  have hprev : (0xff : UInt8) ≠ can := by decide
  exact ⟨rfl, rfl, hprev⟩

variable {baud : UInt32} {getCan : UInt16} {noise : List UInt8}

/-- A binary header behind line noise that does not end in `ZCRCW`. -/
theorem findHeader_sent_bin (hnoise : LineNoise baud noise) (hlast : noise.getLast? ≠ some zcrcw)
    {ind : UInt8} (hind : FrameInd ind) (bytes : List UInt8) :
    findHeader ⟨.pad, 0xff, baud, getCan, false⟩ (noise ++ zpad :: zdle :: ind :: bytes) =
      some (.frame ind, bytes) := by
  have hstart : (0xff : UInt8) ≠ zcrcw := by decide
  obtain ⟨after, hfind, hafter, hprev, -⟩ :=
    @findHeader_noise noise (zpad :: zdle :: ind :: bytes) _ searching_start hnoise.plain
      hnoise.length_lt fun hzcrcw => absurd hzcrcw hstart
  have hnot : after.prev ≠ zcrcw := by
    rw [hprev, List.getLastD_eq_getLast?]
    cases hcase : noise.getLast? with
    | none => exact hstart
    | some last =>
      intro hzcrcw
      rw [hcase] at hlast
      exact hlast (congrArg some hzcrcw)
  rw [hfind, findHeader_bin hafter hnot hind]

theorem findHeader_sent_hex (hnoise : LineNoise baud noise) {ind : UInt8} (hind : FrameInd ind)
    (bytes : List UInt8) :
    findHeader ⟨.pad, 0xff, baud, getCan, false⟩
        (noise ++ zpad :: zpad :: zdle :: ind :: bytes) = some (.frame ind, bytes) := by
  have hstart : (0xff : UInt8) ≠ zcrcw := by decide
  obtain ⟨after, hfind, hafter, -, hbit⟩ :=
    @findHeader_noise noise (zpad :: zpad :: zdle :: ind :: bytes) _ searching_start hnoise.plain
      hnoise.length_lt fun hzcrcw => absurd hzcrcw hstart
  rw [hfind, findHeader_hex hafter hbit hind]

theorem position_bytes (pos : UInt32) :
    ((((((pos >>> 24).toUInt8.toUInt32 <<< 8) ||| (pos >>> 16).toUInt8.toUInt32) <<< 8) |||
      (pos >>> 8).toUInt8.toUInt32) <<< 8) ||| pos.toUInt8.toUInt32 = pos := by
  rw [← UInt32.toBitVec_inj]
  apply BitVec.eq_of_getLsbD_eq
  intro i hi
  simp only [UInt32.toBitVec_or, UInt32.toBitVec_shiftLeft, UInt32.toBitVec_shiftRight,
    UInt8.toBitVec_toUInt32, UInt32.toBitVec_toUInt8, BitVec.getLsbD_or]
  -- the byte that holds the bit
  have hbyte : i < 8 ∨ (8 ≤ i ∧ i < 16) ∨ (16 ≤ i ∧ i < 24) ∨ (24 ≤ i ∧ i < 32) := by omega
  rcases hbyte with h | h | h | h <;> simp [h] <;> grind

theorem zgetPos_zputPos (pos : UInt32) (txHeader rxHeader : ℕ → UInt8)
    (hsame : copyOut rxHeader 0 4 = copyOut (zputPos pos txHeader) 0 4) :
    zgetPos rxHeader = pos := by
  have hbytes : copyOut rxHeader 0 4 =
      [pos.toUInt8, (pos >>> 8).toUInt8, (pos >>> 16).toUInt8, (pos >>> 24).toUInt8] :=
    hsame.trans (Ringbuffer.copyOut_copyIn txHeader 0
      [pos.toUInt8, (pos >>> 8).toUInt8, (pos >>> 16).toUInt8, (pos >>> 24).toUInt8])
  have heach : [rxHeader 0, rxHeader 1, rxHeader 2, rxHeader 3] =
      [pos.toUInt8, (pos >>> 8).toUInt8, (pos >>> 16).toUInt8, (pos >>> 24).toUInt8] := hbytes
  simp only [List.cons.injEq, and_true] at heach
  obtain ⟨hzero, hone, htwo, hthree⟩ := heach
  rw [zgetPos, hzero, hone, htwo, hthree]
  exact position_bytes pos

theorem hexHeader_arrives (type : UInt8) (htype : charSigned = true → type < 0x80)
    (hnoise : LineNoise baud noise) :
    HeaderArrives .hex type hdr charSigned baud getCan rxHeader noise rest := by
  obtain ⟨got, hgot, hcode, hhdr⟩ := @zgetHexHeader_spec type hdr rxHeader charSigned
    ((if type ≠ zfin ∧ type ≠ zack then zsendLine xon else []) ++ rest) htype 0x0d 0x8a
  refine ⟨got, (if type ≠ zfin ∧ type ≠ zack then zsendLine xon else []) ++ rest, ?_, hcode,
    hhdr⟩
  rw [sendHeader, zsendHexHeader_eq, zgetHeader]
  simp only [List.cons_append, List.append_assoc]
  rw [findHeader_sent_hex hnoise (.inr (.inr (.inr rfl)))]
  exact hgot

theorem binHeader_arrives (mode : CrcMode) (type : UInt8)
    (htype : charSigned = true → type < 0x80) (hnoise : LineNoise baud noise)
    (hlast : noise.getLast? ≠ some zcrcw) :
    HeaderArrives (.bin mode) type hdr charSigned baud getCan rxHeader noise rest := by
  cases mode with
  | crc16 =>
    obtain ⟨got, hgot, hcode, hhdr⟩ :=
      @zgetBinHeader_spec type hdr rxHeader charSigned rest htype
    refine ⟨got, rest, ?_, hcode, hhdr⟩
    rw [sendHeader, zsendBinHeader_crc16, zgetHeader]
    simp only [List.cons_append]
    rw [findHeader_sent_bin hnoise hlast (.inr (.inr (.inl rfl)))]
    exact hgot
  | crc32 =>
    obtain ⟨got, hgot, hcode, hhdr⟩ := @zgetBinFcs_spec type hdr rxHeader charSigned rest htype
    refine ⟨got, rest, ?_, hcode, hhdr⟩
    rw [sendHeader, zsendBinHeader_crc32, zgetHeader]
    simp only [List.cons_append]
    rw [findHeader_sent_bin hnoise hlast (.inl rfl)]
    exact hgot
  | crc32Rle =>
    obtain ⟨got, hgot, hcode, hhdr⟩ := @zgetBinFcs_spec type hdr rxHeader charSigned rest htype
    refine ⟨got, rest, ?_, hcode, hhdr⟩
    rw [sendHeader, zsendBinHeader_crc32Rle, zgetHeader]
    simp only [List.cons_append]
    rw [findHeader_sent_bin hnoise hlast (.inr (.inl rfl))]
    exact hgot

/-- A header is read as it was sent, a binary one unless the line noise in front of it ends in
`ZCRCW`, and a position in it survives. -/
theorem header_arrives (form : Form) (type : UInt8) (hdr : ℕ → UInt8) (charSigned : Bool)
    (baud : UInt32) (getCan : UInt16) (rxHeader : ℕ → UInt8) (noise rest : List UInt8)
    (htype : charSigned = true → type < 0x80) (hnoise : LineNoise baud noise)
    (hlast : form = .hex ∨ noise.getLast? ≠ some zcrcw) :
    HeaderArrives form type hdr charSigned baud getCan rxHeader noise rest ∧
      ∀ got pos txHeader, hdr = zputPos pos txHeader → copyOut got 0 4 = copyOut hdr 0 4 →
        zgetPos got = pos := by
  refine ⟨?_, ?_⟩
  · cases form with
    | hex => exact hexHeader_arrives type htype hnoise
    | bin mode =>
      refine binHeader_arrives mode type htype hnoise (hlast.resolve_left ?_)
      rintro ⟨⟩
  · rintro got pos txHeader rfl hsame
    exact zgetPos_zputPos pos txHeader got hsame

/-- A binary header of type 0 behind two bytes of noise, the first of them `ZCRCW`. -/
theorem header_arrives_noise :
    HeaderArrives (.bin .crc16) 0 (fun _ => 0) true 115200 0 (fun _ => 0) [0x6b, 0x61] [] :=
  (header_arrives (.bin .crc16) 0 (fun _ => 0) true 115200 0 (fun _ => 0) [0x6b, 0x61] []
    (by decide) ⟨by decide +kernel, by decide +kernel⟩ (.inr (by decide))).1

/-- The same header behind a single `ZCRCW` is not found: the receiver still waits for one. -/
theorem header_missed :
    zgetHeader true 115200 0 (fun _ => 0)
        ([0x6b] ++ (sendHeader (.bin .crc16) 0 (fun _ => 0) ++ [])) = none ∧
      ¬ HeaderArrives (.bin .crc16) 0 (fun _ => 0) true 115200 0 (fun _ => 0) [0x6b] [] := by
  have hnone : zgetHeader true 115200 0 (fun _ => 0)
      ([0x6b] ++ (sendHeader (.bin .crc16) 0 (fun _ => 0) ++ [])) = none := by
    rw [← Option.isNone_iff_eq_none]
    decide +kernel
  refine ⟨hnone, ?_⟩
  rintro ⟨got, left, hgot, -⟩
  rw [hnone] at hgot
  cases hgot

end RtThread.Zmodem
