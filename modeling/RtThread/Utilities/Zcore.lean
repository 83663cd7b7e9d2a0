import RtThread.Core.Crc
import RtThread.Utilities.Ymodem

set_option linter.all false

/-!
# The ZMODEM core functions

`zcore.c`: the functions that send and read headers and data subpackets.  What is sent is a list
of bytes.  `zread_line` waits for a byte for as long as there is none, so its error returns do
not occur; a function that waits for a byte behind the end of the input has no result.
-/

namespace RtThread.Zmodem

open RtThread.Core
open RtThread.Ringbuffer (copyIn copyOut)

def zpad : UInt8 := 0x2a
def zdle : UInt8 := 0x18
def can : UInt8 := 0x18
def zbin : UInt8 := 0x41
def zhex : UInt8 := 0x42
def zbin32 : UInt8 := 0x43
def zbinr32 : UInt8 := 0x44
def zresc : UInt8 := 0x7e
def zack : UInt8 := 3
def zfin : UInt8 := 8
def zcan : Int := 16
def zcrce : UInt8 := 0x68
def zcrcg : UInt8 := 0x69
def zcrcq : UInt8 := 0x6a
def zcrcw : UInt8 := 0x6b
def zrub0 : UInt8 := 0x6c
def zrub1 : UInt8 := 0x6d
def xon : UInt8 := 0x11
def xoff : UInt8 := 0x13
def rxBufferSize : ℕ := 1024
def gotor : ℕ := 0x100
def gotcan : Int := 0x118
def gcount : Int := -4
def rtError : Int := -1

/-- `TxCRC` and `RxCRC`: 0, 1 and 2. -/
inductive CrcMode
  | crc16 | crc32 | crc32Rle

/-! ## The check registers -/

/-- The table of `crc.h`; `ymodem.c` has the same. -/
def crctab : Array UInt16 := Ymodem.ccittTable

def cr3tab : Array UInt32 := #[
    0x00000000, 0x77073096, 0xee0e612c, 0x990951ba, 0x076dc419, 0x706af48f, 0xe963a535,
    0x9e6495a3, 0x0edb8832, 0x79dcb8a4, 0xe0d5e91e, 0x97d2d988, 0x09b64c2b, 0x7eb17cbd,
    0xe7b82d07, 0x90bf1d91, 0x1db71064, 0x6ab020f2, 0xf3b97148, 0x84be41de, 0x1adad47d,
    0x6ddde4eb, 0xf4d4b551, 0x83d385c7, 0x136c9856, 0x646ba8c0, 0xfd62f97a, 0x8a65c9ec,
    0x14015c4f, 0x63066cd9, 0xfa0f3d63, 0x8d080df5, 0x3b6e20c8, 0x4c69105e, 0xd56041e4,
    0xa2677172, 0x3c03e4d1, 0x4b04d447, 0xd20d85fd, 0xa50ab56b, 0x35b5a8fa, 0x42b2986c,
    0xdbbbc9d6, 0xacbcf940, 0x32d86ce3, 0x45df5c75, 0xdcd60dcf, 0xabd13d59, 0x26d930ac,
    0x51de003a, 0xc8d75180, 0xbfd06116, 0x21b4f4b5, 0x56b3c423, 0xcfba9599, 0xb8bda50f,
    0x2802b89e, 0x5f058808, 0xc60cd9b2, 0xb10be924, 0x2f6f7c87, 0x58684c11, 0xc1611dab,
    0xb6662d3d, 0x76dc4190, 0x01db7106, 0x98d220bc, 0xefd5102a, 0x71b18589, 0x06b6b51f,
    0x9fbfe4a5, 0xe8b8d433, 0x7807c9a2, 0x0f00f934, 0x9609a88e, 0xe10e9818, 0x7f6a0dbb,
    0x086d3d2d, 0x91646c97, 0xe6635c01, 0x6b6b51f4, 0x1c6c6162, 0x856530d8, 0xf262004e,
    0x6c0695ed, 0x1b01a57b, 0x8208f4c1, 0xf50fc457, 0x65b0d9c6, 0x12b7e950, 0x8bbeb8ea,
    0xfcb9887c, 0x62dd1ddf, 0x15da2d49, 0x8cd37cf3, 0xfbd44c65, 0x4db26158, 0x3ab551ce,
    0xa3bc0074, 0xd4bb30e2, 0x4adfa541, 0x3dd895d7, 0xa4d1c46d, 0xd3d6f4fb, 0x4369e96a,
    0x346ed9fc, 0xad678846, 0xda60b8d0, 0x44042d73, 0x33031de5, 0xaa0a4c5f, 0xdd0d7cc9,
    0x5005713c, 0x270241aa, 0xbe0b1010, 0xc90c2086, 0x5768b525, 0x206f85b3, 0xb966d409,
    0xce61e49f, 0x5edef90e, 0x29d9c998, 0xb0d09822, 0xc7d7a8b4, 0x59b33d17, 0x2eb40d81,
    0xb7bd5c3b, 0xc0ba6cad, 0xedb88320, 0x9abfb3b6, 0x03b6e20c, 0x74b1d29a, 0xead54739,
    0x9dd277af, 0x04db2615, 0x73dc1683, 0xe3630b12, 0x94643b84, 0x0d6d6a3e, 0x7a6a5aa8,
    0xe40ecf0b, 0x9309ff9d, 0x0a00ae27, 0x7d079eb1, 0xf00f9344, 0x8708a3d2, 0x1e01f268,
    0x6906c2fe, 0xf762575d, 0x806567cb, 0x196c3671, 0x6e6b06e7, 0xfed41b76, 0x89d32be0,
    0x10da7a5a, 0x67dd4acc, 0xf9b9df6f, 0x8ebeeff9, 0x17b7be43, 0x60b08ed5, 0xd6d6a3e8,
    0xa1d1937e, 0x38d8c2c4, 0x4fdff252, 0xd1bb67f1, 0xa6bc5767, 0x3fb506dd, 0x48b2364b,
    0xd80d2bda, 0xaf0a1b4c, 0x36034af6, 0x41047a60, 0xdf60efc3, 0xa867df55, 0x316e8eef,
    0x4669be79, 0xcb61b38c, 0xbc66831a, 0x256fd2a0, 0x5268e236, 0xcc0c7795, 0xbb0b4703,
    0x220216b9, 0x5505262f, 0xc5ba3bbe, 0xb2bd0b28, 0x2bb45a92, 0x5cb36a04, 0xc2d7ffa7,
    0xb5d0cf31, 0x2cd99e8b, 0x5bdeae1d, 0x9b64c2b0, 0xec63f226, 0x756aa39c, 0x026d930a,
    0x9c0906a9, 0xeb0e363f, 0x72076785, 0x05005713, 0x95bf4a82, 0xe2b87a14, 0x7bb12bae,
    0x0cb61b38, 0x92d28e9b, 0xe5d5be0d, 0x7cdcefb7, 0x0bdbdf21, 0x86d3d2d4, 0xf1d4e242,
    0x68ddb3f8, 0x1fda836e, 0x81be16cd, 0xf6b9265b, 0x6fb077e1, 0x18b74777, 0x88085ae6,
    0xff0f6a70, 0x66063bca, 0x11010b5c, 0x8f659eff, 0xf862ae69, 0x616bffd3, 0x166ccf45,
    0xa00ae278, 0xd70dd2ee, 0x4e048354, 0x3903b3c2, 0xa7672661, 0xd06016f7, 0x4969474d,
    0x3e6e77db, 0xaed16a4a, 0xd9d65adc, 0x40df0b66, 0x37d83bf0, 0xa9bcae53, 0xdebb9ec5,
    0x47b2cf7f, 0x30b5ffe9, 0xbdbdf21c, 0xcabac28a, 0x53b39330, 0x24b4a3a6, 0xbad03605,
    0xcdd70693, 0x54de5729, 0x23d967bf, 0xb3667a2e, 0xc4614ab8, 0x5d681b02, 0x2a6f2b94,
    0xb40bbe37, 0xc30c8ea1, 0x5a05df1b, 0x2d02ef8d]

@[irreducible]
def crctabAt (place : UInt8) : UInt16 :=
  crctab.getD place.toNat 0

@[irreducible]
def cr3tabAt (place : UInt8) : UInt32 :=
  cr3tab.getD place.toNat 0

/-- `updcrc16` on a register of 16 bits. -/
def updcrc16 (byte : UInt8) (crc : UInt16) : UInt16 :=
  Crc.shiftUp crctabAt byte crc

/-- `updcrc16` on a register of 32 bits: the upper half is never cleared. -/
def updcrc16Wide (byte : UInt8) (crc : UInt32) : UInt32 :=
  (crctabAt (crc >>> 8).toUInt8).toUInt32 ^^^ (crc <<< 8) ^^^ byte.toUInt32

def updcrc32 (byte : UInt8) (crc : UInt32) : UInt32 :=
  Crc.shiftDown cr3tabAt byte crc

/-! ## Sending -/

/-- One byte of the word is written to the device. -/
def zsendByte (ch : UInt16) : List UInt8 :=
  [ch.toUInt8]

def zsendLine (ch : UInt8) : List UInt8 :=
  [ch]

def zsendZdleChar (ch : UInt16) : List UInt8 :=
  let res := ch &&& 0xff
  if res = 0xff then zsendByte res
  else if res = zdle.toUInt16 then zsendByte zdle.toUInt16 ++ zsendByte (res ^^^ 0x40)
  else if res = 0x11 ∨ res = 0x13 ∨ res = 0x91 ∨ res = 0x93 then
    zsendByte zdle.toUInt16 ++ zsendByte (res ^^^ 0x40)
  else zsendByte res

def hexDigit (nibble : UInt8) : UInt8 :=
  if nibble < 10 then 0x30 + nibble else 0x61 + (nibble - 10)

def zsendAscii (ch : UInt8) : List UInt8 :=
  zsendLine (hexDigit ((ch &&& 0xf0) >>> 4)) ++ zsendLine (hexDigit (ch &&& 0xf))

/-- Bytes that are sent one after another. -/
def zsendZdleChars (bytes : List UInt8) : List UInt8 :=
  bytes.flatMap fun byte => zsendZdleChar byte.toUInt16

/-- The four check bytes, with the shift of the register between them. -/
def zsendCrc32 : ℕ → UInt32 → List UInt8
  | 0, _ => []
  | len + 1, crc => zsendZdleChar crc.toUInt16 ++ zsendCrc32 len (crc >>> 8)

def zsendBinHeader (txfcs32 : CrcMode) (type : UInt8) (hdr : ℕ → UInt8) : List UInt8 :=
  let bytes := copyOut hdr 0 4
  match txfcs32 with
  | .crc16 =>
    let crc := bytes.foldl (fun crc byte => updcrc16Wide byte crc) (updcrc16Wide type 0)
    let crc := updcrc16Wide 0 (updcrc16Wide 0 crc)
    zsendByte zpad.toUInt16 ++ zsendByte zdle.toUInt16 ++ zsendByte zbin.toUInt16 ++
      zsendZdleChar type.toUInt16 ++ zsendZdleChars bytes ++
      zsendZdleChar (crc >>> 8).toUInt16 ++ zsendZdleChar crc.toUInt16
  | .crc32 =>
    let crc := bytes.foldl (fun crc byte => updcrc32 byte crc) (updcrc32 type 0xffffffff)
    zsendByte zpad.toUInt16 ++ zsendByte zdle.toUInt16 ++ zsendByte zbin32.toUInt16 ++
      zsendZdleChar type.toUInt16 ++ zsendZdleChars bytes ++ zsendCrc32 4 (~~~crc)
  | .crc32Rle =>
    let crc := bytes.foldl (fun crc byte => updcrc32 byte crc) (updcrc32 type 0xffffffff)
    zsendByte zpad.toUInt16 ++ zsendByte zdle.toUInt16 ++ zsendByte zbinr32.toUInt16 ++
      zsendZdleChar type.toUInt16 ++ zsendZdleChars bytes ++ zsendCrc32 4 (~~~crc)

def zsendHexHeader (type : UInt8) (hdr : ℕ → UInt8) : List UInt8 :=
  let bytes := copyOut hdr 0 4
  let crc := bytes.foldl (fun crc byte => updcrc16 byte crc) (updcrc16 type 0)
  let crc := updcrc16 0 (updcrc16 0 crc)
  zsendLine zpad ++ zsendLine zpad ++ zsendLine zdle ++ zsendLine zhex ++ zsendAscii type ++
    bytes.flatMap zsendAscii ++ zsendAscii (crc >>> 8).toUInt8 ++ zsendAscii crc.toUInt8 ++
    zsendLine 0x0d ++ zsendLine 0x8a ++
    if type ≠ zfin ∧ type ≠ zack then zsendLine xon else []

/-- The variables of the loop that packs runs of a byte. -/
structure Rle where
  tmp : UInt8
  i : ℕ
  crc : UInt32

/-- A byte that is sent and taken into the check register. -/
def Rle.put (rle : Rle) (byte : UInt8) : List UInt8 × Rle :=
  (zsendZdleChar byte.toUInt16, { rle with crc := updcrc32 byte rle.crc })

def Rle.puts (rle : Rle) : List UInt8 → List UInt8 × Rle
  | [] => ([], rle)
  | byte :: bytes =>
    let first := rle.put byte
    let rest := first.2.puts bytes
    (first.1 ++ rest.1, rest.2)

/-- A turn of the loop; a run of two `ZRESC` is left where it is. -/
def rleTurn (c : UInt8) (more : Bool) (rle : Rle) : List UInt8 × Rle :=
  if c = rle.tmp ∧ rle.i < 126 ∧ more then ([], { rle with i := rle.i + 1 })
  else if rle.i = 0 then
    let sent := rle.puts (if rle.tmp = zresc then [rle.tmp, 0x40] else [rle.tmp])
    (sent.1, { sent.2 with tmp := c })
  else if rle.i = 1 then
    if rle.tmp ≠ zresc then
      let sent := rle.puts [rle.tmp, rle.tmp]
      (sent.1, { sent.2 with i := 0, tmp := c })
    else ([], rle)
  else
    let sent := rle.puts (if rle.tmp = 0x20 ∧ rle.i < 34 then [zresc, UInt8.ofNat (rle.i + 0x1e)]
      else [zresc, UInt8.ofNat (rle.i + 0x41), rle.tmp])
    (sent.1, { sent.2 with i := 0, tmp := c })

/-- The loop; its last turn reads the byte behind the buffer. -/
def rleLoop (beyond : UInt8) : List UInt8 → Rle → List UInt8 × Rle
  | [], rle => rleTurn beyond false rle
  | c :: rest, rle =>
    let turn := rleTurn c true rle
    let rest := rleLoop beyond rest turn.2
    (turn.1 ++ rest.1, rest.2)

def rlePack (beyond : UInt8) : List UInt8 → List UInt8 × Rle
  | [] => ([], ⟨beyond, 0, 0xffffffff⟩)
  | tmp :: buf => rleLoop beyond buf ⟨tmp, 0, 0xffffffff⟩

/-- `beyond` is the byte behind the buffer, which the packing reads and does not send. -/
def zsendBinData (txCrc : CrcMode) (beyond : UInt8) (buf : List UInt8) (frameend : UInt8) :
    List UInt8 :=
  let body :=
    match txCrc with
    | .crc16 =>
      let crc := buf.foldl (fun crc byte => updcrc16Wide byte crc) 0
      let crc := updcrc16Wide 0 (updcrc16Wide 0 (updcrc16Wide frameend crc))
      zsendZdleChars buf ++ zsendByte zdle.toUInt16 ++ zsendByte frameend.toUInt16 ++
        zsendZdleChar (crc >>> 8).toUInt16 ++ zsendZdleChar crc.toUInt16
    | .crc32 =>
      let crc := buf.foldl (fun crc byte => updcrc32 byte crc) 0xffffffff
      zsendZdleChars buf ++ zsendByte zdle.toUInt16 ++ zsendByte frameend.toUInt16 ++
        zsendCrc32 4 (~~~updcrc32 frameend crc)
    | .crc32Rle =>
      let packed := rlePack beyond buf
      packed.1 ++ zsendByte zdle.toUInt16 ++ zsendByte frameend.toUInt16 ++
        zsendCrc32 4 (~~~updcrc32 frameend packed.2.crc)
  body ++ if frameend = zcrcw then zsendByte xon.toUInt16 else []

/-! ## Reading bytes -/

/-- `zread_byte` behind a `ZDLE`, after `cans` further `CAN`. -/
def zreadEscaped : ℕ → List UInt8 → Option (Int × List UInt8)
  | _, [] => none
  | cans, res :: rest =>
    if res = can ∧ cans < 3 then zreadEscaped (cans + 1) rest
    else if res = can then some (gotcan, rest)
    else if res = zcrce ∨ res = zcrcg ∨ res = zcrcq ∨ res = zcrcw then
      some ((res.toNat ||| gotor : ℕ), rest)
    else if res = zrub0 then some (0x7f, rest)
    else if res = zrub1 then some (0xff, rest)
    else if res = 0x13 ∨ res = 0x93 ∨ res = 0x11 ∨ res = 0x91 then zreadEscaped 0 rest
    else if res &&& 0x60 = 0x40 then some ((res ^^^ 0x40).toNat, rest)
    else some (rtError, rest)

def zreadByte : List UInt8 → Option (Int × List UInt8)
  | [] => none
  | res :: rest =>
    if res &&& 0x60 ≠ 0 then some (res.toNat, rest)
    else if res = zdle then zreadEscaped 0 rest
    else if res = 0x13 ∨ res = 0x93 ∨ res = 0x11 ∨ res = 0x91 then zreadByte rest
    else some (res.toNat, rest)

def zxorRead : List UInt8 → Option (UInt8 × List UInt8)
  | [] => none
  | byte :: rest =>
    let res := byte &&& 0x7f
    if res = xon ∨ res = xoff then zxorRead rest else some (res, rest)

/-- The value of a lower case hex digit, or `-1`. -/
def hexValue (digit : UInt8) : Int :=
  let n := (digit.toNat : Int) - 0x30
  let n := if n > 9 then n - (0x61 - 0x3a) else n
  if 0 ≤ n ∧ n ≤ 0xf then n else rtError

def zgetHex (input : List UInt8) : Option (Int × List UInt8) := do
  let (first, input) ← zxorRead input
  if hexValue first < 0 then return (rtError, input)
  let (second, input) ← zxorRead input
  if hexValue second < 0 then return (rtError, input)
  return (hexValue second + 16 * hexValue first, input)

theorem zreadEscaped_length {cans : ℕ} {input rest : List UInt8} {res : Int}
    (hread : zreadEscaped cans input = some (res, rest)) : rest.length < input.length := by
  induction input generalizing cans with
  | nil => cases hread
  | cons byte input ih =>
    rw [zreadEscaped] at hread
    rw [List.length_cons]
    have hlast : ∀ {code : Int}, some (code, input) = some (res, rest) →
        rest.length < input.length + 1 := by
      intro code hsome
      cases hsome
      exact Nat.lt_succ_self _
    split_ifs at hread
    · exact Nat.lt_succ_of_lt (ih hread)
    · exact hlast hread
    · exact hlast hread
    · exact hlast hread
    · exact hlast hread
    · exact Nat.lt_succ_of_lt (ih hread)
    · exact hlast hread
    · exact hlast hread

theorem zreadByte_length {input rest : List UInt8} {res : Int}
    (hread : zreadByte input = some (res, rest)) : rest.length < input.length := by
  induction input with
  | nil => cases hread
  | cons byte input ih =>
    rw [zreadByte] at hread
    rw [List.length_cons]
    split_ifs at hread
    · cases hread
      exact Nat.lt_succ_self _
    · exact Nat.lt_succ_of_lt (zreadEscaped_length hread)
    · exact Nat.lt_succ_of_lt (ih hread)
    · cases hread
      exact Nat.lt_succ_self _

/-! ## Reading a data subpacket -/

/-- The variables of the loop that reads a data subpacket: `buf` from its start on, with the
place of the next byte. -/
structure RecState (Crc : Type) where
  buf : ℕ → UInt8
  pos : ℕ
  rxcount : UInt16
  crc : Crc
  flag : Bool
  c : Int
  crcCnt : ℕ

/-- How a turn of a loop ends. -/
inductive Turn (State : Type)
  | goOn (st : State)
  | done (code : Int) (st : State)

namespace RecState

variable {Crc : Type}

/-- `*buf++ = res; Rxcount++`. -/
def put (st : RecState Crc) (byte : UInt8) : RecState Crc :=
  { st with
    buf := Function.update st.buf st.pos byte
    pos := st.pos + 1
    rxcount := st.rxcount + 1 }

/-- `while (--res >= 0)`: the value that is counted down is also what is stored. -/
def putDown (st : RecState Crc) : ℕ → RecState Crc
  | 0 => st
  | res + 1 => (st.put (UInt8.ofNat res)).putDown res

end RecState

/-- A turn of the three receiving loops, which differ in the check register, in the number of
check bytes, in the test of the register and in what they do with a byte of data. -/
def zrecTurn {Crc : Type} (updcrc : UInt8 → Crc → Crc) (crcLen : ℕ) (wrong : Crc → Bool)
    (store : RecState Crc → UInt8 → Turn (RecState Crc)) (st : RecState Crc) (res : Int) :
    Turn (RecState Crc) :=
  if res < 0 ∨ 0xff < res then
    if res = (zcrce.toNat ||| gotor : ℕ) ∨ res = (zcrcg.toNat ||| gotor : ℕ) ∨
        res = (zcrcq.toNat ||| gotor : ℕ) ∨ res = (zcrcw.toNat ||| gotor : ℕ) then
      .goOn { st with c := res, crc := updcrc (UInt8.ofNat res.toNat) st.crc, flag := true }
    else if res = gotcan then .done zcan st
    else .done res st
  else
    let byte := UInt8.ofNat res.toNat
    if st.flag then
      let st := { st with crc := updcrc byte st.crc, crcCnt := st.crcCnt + 1 }
      if st.crcCnt < crcLen then .goOn st
      else if wrong st.crc then .done rtError st
      else .done st.c st
    else store { st with crc := updcrc byte st.crc } byte

/-- The loop, as long as the place of the next byte is not beyond `limit`. -/
def zrecLoop {Crc : Type} (limit : Int) (turn : RecState Crc → Int → Turn (RecState Crc))
    (st : RecState Crc) (input : List UInt8) : Option (Int × RecState Crc × List UInt8) :=
  if (st.pos : Int) ≤ limit then
    match _hread : zreadByte input with
    | none => none
    | some (res, rest) =>
      match turn st res with
      | .goOn st => zrecLoop limit turn st rest
      | .done code st => some (code, st, rest)
  else some (rtError, st, input)
termination_by input.length
decreasing_by exact zreadByte_length _hread

/-- Local variables that are read before they are written: the pointer `p` of `zrec_data32`, as
its distance from the buffer, and `c`. -/
structure Stray where
  p : Int
  c : Int

def recStart {Crc : Type} (buf : ℕ → UInt8) (crc : Crc) (stray : Stray) : RecState Crc :=
  ⟨buf, 0, 0, crc, false, stray.c, 0⟩

def zrecData16 (stray : Stray) (buf : ℕ → UInt8) (len : ℕ) (input : List UInt8) :
    Option (Int × RecState UInt16 × List UInt8) :=
  zrecLoop len (zrecTurn updcrc16 2 (· ≠ 0) fun st byte => .goOn (st.put byte))
    (recStart buf 0 stray) input

/-- `p` is not set to `buf` here. -/
def zrecData32 (stray : Stray) (buf : ℕ → UInt8) (len : ℕ) (input : List UInt8) :
    Option (Int × RecState UInt32 × List UInt8) :=
  zrecLoop (stray.p + len)
    (zrecTurn updcrc32 4 (fun crc => crc &&& 0xdebb20e3 ≠ 0) fun st byte => .goOn (st.put byte))
    (recStart buf 0xffffffff stray) input

/-- `spaces`: a run of `c` bytes, if it fits. -/
def zrecSpaces (len : ℕ) (st : RecState UInt32) (c : Int) (res : UInt8) :
    Turn (RecState UInt32) :=
  if st.pos + c > len then .done rtError { st with c := c }
  else .goOn { st.putDown res.toNat with c := 0 }

def zrecStore32r (len : ℕ) (st : RecState UInt32) (res : UInt8) : Turn (RecState UInt32) :=
  if st.c = 0 then
    if res = zresc then .goOn { st with c := -1 } else .goOn (st.put res)
  else if st.c = -1 then
    if 0x20 ≤ res ∧ res < 0x40 then zrecSpaces len st (res.toNat - 0x1d) 0x20
    else if res = 0x40 then .goOn ({ st with c := 0 }.put zresc)
    else .goOn { st with c := res.toNat }
  else if st.c - 0x40 < 1 then .done rtError { st with c := st.c - 0x40 }
  else zrecSpaces len st (st.c - 0x40) res

def zrecData32r (stray : Stray) (buf : ℕ → UInt8) (len : ℕ) (input : List UInt8) :
    Option (Int × RecState UInt32 × List UInt8) :=
  zrecLoop len (zrecTurn updcrc32 4 (fun crc => crc &&& 0xdebb20e3 ≠ 0) (zrecStore32r len))
    (recStart buf 0xffffffff stray) input

/-- What `zget_data` leaves: its result, the buffer and `Rxcount`. -/
structure Received where
  code : Int
  buf : ℕ → UInt8
  rxcount : UInt16

def zgetData (rxCrc : CrcMode) (stray : Stray) (buf : ℕ → UInt8) (len : ℕ) (input : List UInt8) :
    Option Received :=
  match rxCrc with
  | .crc16 => (zrecData16 stray buf len input).map fun r => ⟨r.1, r.2.1.buf, r.2.1.rxcount⟩
  | .crc32 => (zrecData32 stray buf len input).map fun r => ⟨r.1, r.2.1.buf, r.2.1.rxcount⟩
  | .crc32Rle => (zrecData32r stray buf len input).map fun r => ⟨r.1, r.2.1.buf, r.2.1.rxcount⟩

/-! ## Reading a header -/

/-- Where `zget_header` waits: for the `ZPAD` of a header, for its `ZDLE`, or for the byte that
says which header it is. -/
inductive HeaderPc
  | pad | dle | frame

/-- The variables of `zget_header`. -/
structure HeaderState where
  pc : HeaderPc
  prev : UInt8
  bit : UInt32
  getCan : UInt16
  stepOut : Bool

inductive Found
  | gcount | zcan
  | frame (ind : UInt8)

namespace HeaderState

/-- The end of a turn of the first loop; the second loop starts when `step_out` is set. -/
def next (st : HeaderState) (c : UInt8) : HeaderState ⊕ Found :=
  if st.stepOut then .inl { st with prev := c, stepOut := false, getCan := 0, pc := .dle }
  else .inl { st with prev := c, pc := .pad }

/-- `start_again`. -/
def startAgain (st : HeaderState) (c : UInt8) : HeaderState ⊕ Found :=
  let st := { st with bit := st.bit - 1 }
  if st.bit = 0 then .inr .gcount else { st with getCan := 0 }.next c

/-- `get_can`. -/
def getCanAgain (st : HeaderState) (c : UInt8) : HeaderState ⊕ Found :=
  let st := { st with getCan := st.getCan + 1 }
  if st.getCan > 5 then .inr .zcan else st.next c

/-- A turn of the first loop. -/
def pad (st : HeaderState) (c : UInt8) : HeaderState ⊕ Found :=
  if c = 0x11 ∨ c = 0x91 then
    if st.prev = can then st.next c
    else if st.prev = zcrcw then st.startAgain c
    else st.next c
  else if c = zcrcw then
    if st.prev = can then st.startAgain c else st.next c
  else if c = can then st.getCanAgain c
  else if c = zpad then
    if st.prev = can then st.next c
    else if st.prev = zcrcw then st.startAgain c
    else { st with stepOut := true }.next c
  else if st.prev = can then st.next c
  else st.startAgain c

/-- A turn of the second loop. -/
def dle (st : HeaderState) (c : UInt8) : HeaderState ⊕ Found :=
  if c = zpad then .inl st
  else if c = zdle then .inl { st with stepOut := true, pc := .frame }
  else st.startAgain c

/-- The byte behind the `ZDLE`. -/
def frame (st : HeaderState) (c : UInt8) : HeaderState ⊕ Found :=
  if c = zbin32 ∨ c = zbinr32 ∨ c = zbin ∨ c = zhex then .inr (.frame c)
  else if c = can then st.getCanAgain c
  else st.startAgain c

end HeaderState

/-- The two loops; behind the first one bytes lose their parity, and `XON` and `XOFF` are
skipped. -/
def findHeader (st : HeaderState) : List UInt8 → Option (Found × List UInt8)
  | [] => none
  | byte :: rest =>
    let turn :=
      match st.pc with
      | .pad => st.pad byte
      | .dle =>
        if byte &&& 0x7f = xon ∨ byte &&& 0x7f = xoff then .inl st
        else st.dle (byte &&& 0x7f)
      | .frame =>
        if byte &&& 0x7f = xon ∨ byte &&& 0x7f = xoff then .inl st
        else st.frame (byte &&& 0x7f)
    match turn with
    | .inl st => findHeader st rest
    | .inr found => some (found, rest)

/-- A number of values that are read one after another, up to one that is an error. -/
def readAll (read : List UInt8 → Option (Int × List UInt8)) (good : Int → Bool) :
    ℕ → List UInt8 → Option (List UInt8 × Option Int × List UInt8)
  | 0, input => some ([], none, input)
  | len + 1, input => do
      let (res, input) ← read input
      if good res then
        let (bytes, err, input) ← readAll read good len input
        return (UInt8.ofNat res.toNat :: bytes, err, input)
      else return ([], some res, input)

/-- What `zget_header` leaves: its result and the bytes of the header. -/
structure GotHeader where
  code : Int
  hdr : ℕ → UInt8

/-- `header_type`, a `char`, as the result of a function. -/
def charValue (charSigned : Bool) (type : UInt8) : Int :=
  if charSigned ∧ 0x80 ≤ type then type.toNat - 0x100 else type.toNat

/-- The type, the four bytes of the header and the check bytes, once they were read. -/
def finishHeader {Crc : Type} (charSigned : Bool) (updcrc : UInt8 → Crc → Crc) (crc : Crc)
    (wrong : Crc → Bool) (hdr : ℕ → UInt8) (bytes : List UInt8) (err : Option Int) : GotHeader :=
  let hdr := copyIn hdr 0 ((bytes.drop 1).take 4)
  match err with
  | some code => ⟨code, hdr⟩
  | none =>
    if wrong (bytes.foldl (fun crc byte => updcrc byte crc) crc) then ⟨rtError, hdr⟩
    else ⟨charValue charSigned (bytes.headD 0), hdr⟩

def isByte (res : Int) : Bool :=
  0 ≤ res ∧ res ≤ 0xff

def zgetBinHeader (charSigned : Bool) (hdr : ℕ → UInt8) (input : List UInt8) :
    Option (GotHeader × List UInt8) := do
  let (bytes, err, input) ← readAll zreadByte isByte 7 input
  return (finishHeader charSigned updcrc16 0 (· ≠ 0) hdr bytes err, input)

def zgetBinFcs (charSigned : Bool) (hdr : ℕ → UInt8) (input : List UInt8) :
    Option (GotHeader × List UInt8) := do
  let (bytes, err, input) ← readAll zreadByte isByte 9 input
  return (finishHeader charSigned updcrc32 0xffffffff (· ≠ 0xdebb20e3) hdr bytes err, input)

/-- The header is followed by an end of line, which is read only when the header is right. -/
def zgetHexHeader (charSigned : Bool) (hdr : ℕ → UInt8) (input : List UInt8) :
    Option (GotHeader × List UInt8) := do
  let (bytes, err, input) ← readAll zgetHex (0 ≤ ·) 7 input
  let got := finishHeader charSigned updcrc16 0 (· ≠ 0) hdr bytes err
  if err.isSome ∨ bytes.foldl (fun crc byte => updcrc16 byte crc) 0 ≠ 0 then return (got, input)
  else
    match input with
    | _ :: _ :: input => return (got, input)
    | _ => none

/-- `baud` is what `get_device_baud` returns, `getCan` what is in the local variable. -/
def zgetHeader (charSigned : Bool) (baud : UInt32) (getCan : UInt16) (hdr : ℕ → UInt8)
    (input : List UInt8) : Option (GotHeader × List UInt8) := do
  let (found, input) ← findHeader ⟨.pad, 0xff, baud, getCan, false⟩ input
  match found with
  | .gcount => return (⟨gcount, hdr⟩, input)
  | .zcan => return (⟨zcan, hdr⟩, input)
  | .frame ind =>
    if ind = zbin32 ∨ ind = zbinr32 then zgetBinFcs charSigned hdr input
    else if ind = zbin then zgetBinHeader charSigned hdr input
    else zgetHexHeader charSigned hdr input

/-! ## A position in a header -/

/-- `zput_pos`, which fills `tx_header`. -/
def zputPos (pos : UInt32) (txHeader : ℕ → UInt8) : ℕ → UInt8 :=
  copyIn txHeader 0
    [pos.toUInt8, (pos >>> 8).toUInt8, (pos >>> 16).toUInt8, (pos >>> 24).toUInt8]

/-- `zget_pos`, which reads `rx_header`. -/
def zgetPos (rxHeader : ℕ → UInt8) : UInt32 :=
  let pos := (rxHeader 3).toUInt32
  let pos := (pos <<< 8) ||| (rxHeader 2).toUInt32
  let pos := (pos <<< 8) ||| (rxHeader 1).toUInt32
  (pos <<< 8) ||| (rxHeader 0).toUInt32

end RtThread.Zmodem
