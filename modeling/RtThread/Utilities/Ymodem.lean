import RtThread.Core.Machine
import RtThread.Drivers.Ringbuffer

set_option linter.all false

/-!
# The YMODEM receiver

`ymodem.c`: a handshake that reads the first header block, a loop that reads the packages of
a file up to its `EOT`, and a final stage that reads the header block of the next file or the
null block.  The device delivers bytes; a wait that runs into its time-out is an element of
the input of its own.
-/

namespace RtThread.Ymodem

open RtThread.Core
open RtThread.Ringbuffer (copyIn copyOut)

def ccittTable : Array UInt16 := #[
    0x0000, 0x1021, 0x2042, 0x3063, 0x4084, 0x50a5, 0x60c6, 0x70e7,
    0x8108, 0x9129, 0xa14a, 0xb16b, 0xc18c, 0xd1ad, 0xe1ce, 0xf1ef,
    0x1231, 0x0210, 0x3273, 0x2252, 0x52b5, 0x4294, 0x72f7, 0x62d6,
    0x9339, 0x8318, 0xb37b, 0xa35a, 0xd3bd, 0xc39c, 0xf3ff, 0xe3de,
    0x2462, 0x3443, 0x0420, 0x1401, 0x64e6, 0x74c7, 0x44a4, 0x5485,
    0xa56a, 0xb54b, 0x8528, 0x9509, 0xe5ee, 0xf5cf, 0xc5ac, 0xd58d,
    0x3653, 0x2672, 0x1611, 0x0630, 0x76d7, 0x66f6, 0x5695, 0x46b4,
    0xb75b, 0xa77a, 0x9719, 0x8738, 0xf7df, 0xe7fe, 0xd79d, 0xc7bc,
    0x48c4, 0x58e5, 0x6886, 0x78a7, 0x0840, 0x1861, 0x2802, 0x3823,
    0xc9cc, 0xd9ed, 0xe98e, 0xf9af, 0x8948, 0x9969, 0xa90a, 0xb92b,
    0x5af5, 0x4ad4, 0x7ab7, 0x6a96, 0x1a71, 0x0a50, 0x3a33, 0x2a12,
    0xdbfd, 0xcbdc, 0xfbbf, 0xeb9e, 0x9b79, 0x8b58, 0xbb3b, 0xab1a,
    0x6ca6, 0x7c87, 0x4ce4, 0x5cc5, 0x2c22, 0x3c03, 0x0c60, 0x1c41,
    0xedae, 0xfd8f, 0xcdec, 0xddcd, 0xad2a, 0xbd0b, 0x8d68, 0x9d49,
    0x7e97, 0x6eb6, 0x5ed5, 0x4ef4, 0x3e13, 0x2e32, 0x1e51, 0x0e70,
    0xff9f, 0xefbe, 0xdfdd, 0xcffc, 0xbf1b, 0xaf3a, 0x9f59, 0x8f78,
    0x9188, 0x81a9, 0xb1ca, 0xa1eb, 0xd10c, 0xc12d, 0xf14e, 0xe16f,
    0x1080, 0x00a1, 0x30c2, 0x20e3, 0x5004, 0x4025, 0x7046, 0x6067,
    0x83b9, 0x9398, 0xa3fb, 0xb3da, 0xc33d, 0xd31c, 0xe37f, 0xf35e,
    0x02b1, 0x1290, 0x22f3, 0x32d2, 0x4235, 0x5214, 0x6277, 0x7256,
    0xb5ea, 0xa5cb, 0x95a8, 0x8589, 0xf56e, 0xe54f, 0xd52c, 0xc50d,
    0x34e2, 0x24c3, 0x14a0, 0x0481, 0x7466, 0x6447, 0x5424, 0x4405,
    0xa7db, 0xb7fa, 0x8799, 0x97b8, 0xe75f, 0xf77e, 0xc71d, 0xd73c,
    0x26d3, 0x36f2, 0x0691, 0x16b0, 0x6657, 0x7676, 0x4615, 0x5634,
    0xd94c, 0xc96d, 0xf90e, 0xe92f, 0x99c8, 0x89e9, 0xb98a, 0xa9ab,
    0x5844, 0x4865, 0x7806, 0x6827, 0x18c0, 0x08e1, 0x3882, 0x28a3,
    0xcb7d, 0xdb5c, 0xeb3f, 0xfb1e, 0x8bf9, 0x9bd8, 0xabbb, 0xbb9a,
    0x4a75, 0x5a54, 0x6a37, 0x7a16, 0x0af1, 0x1ad0, 0x2ab3, 0x3a92,
    0xfd2e, 0xed0f, 0xdd6c, 0xcd4d, 0xbdaa, 0xad8b, 0x9de8, 0x8dc9,
    0x7c26, 0x6c07, 0x5c64, 0x4c45, 0x3ca2, 0x2c83, 0x1ce0, 0x0cc1,
    0xef1f, 0xff3e, 0xcf5d, 0xdf7c, 0xaf9b, 0xbfba, 0x8fd9, 0x9ff8,
    0x6e17, 0x7e36, 0x4e55, 0x5e74, 0x2e93, 0x3eb2, 0x0ed1, 0x1ef0]

def crc16 (bytes : List UInt8) : UInt16 :=
  bytes.foldl (fun crc byte =>
    (crc <<< 8) ^^^ ccittTable.getD (((crc >>> 8) ^^^ byte.toUInt16) &&& 0xff).toNat 0) 0

def rymCodeNone : UInt8 := 0x00
def rymCodeSoh : UInt8 := 0x01
def rymCodeStx : UInt8 := 0x02
def rymCodeEot : UInt8 := 0x04
def rymCodeAck : UInt8 := 0x06
def rymCodeNak : UInt8 := 0x15
def rymCodeCan : UInt8 := 0x18
def rymCodeC : UInt8 := 0x43

def rymEndSessionSendCanNum : ℕ := 7

inductive RymErr
  | eok | tmo | code | seq | crc | dsz | can
  deriving DecidableEq

inductive RymStage
  | none | establishing | established | transmitting | finishing | finished
  deriving DecidableEq

/-- The calls of the application's functions, with the bytes they are given. -/
inductive Call
  | onBegin (bytes : List UInt8)
  | onData (bytes : List UInt8)
  | onEnd (bytes : List UInt8)

/-- What the application's functions return, after the calls made so far. -/
structure Callbacks where
  onBegin : List Call → List UInt8 → UInt8
  onData : List Call → List UInt8 → UInt8

/-- `struct rym_ctx`, with what the device still delivers and what was written to it; `none` is a
wait that runs into its time-out. -/
structure RymCtx where
  input : List (Option UInt8)
  written : List UInt8
  buf : ℕ → UInt8
  stage : RymStage
  calls : List Call

def rymSohPkgSz : ℕ := 1 + 2 + 128 + 2

def rymStxPkgSz : ℕ := 1 + 2 + 1024 + 2

def rymReadCode (ctx : RymCtx) : RymCtx × UInt8 :=
  match ctx.input with
  | some byte :: rest =>
    ({ ctx with input := rest, buf := Function.update ctx.buf 0 byte }, byte)
  | none :: rest => ({ ctx with input := rest }, rymCodeNone)
  | [] => (ctx, rymCodeNone)

/-- At most `len` bytes, up to a wait that runs into its time-out. -/
def readBytes : ℕ → List (Option UInt8) → List UInt8 × List (Option UInt8)
  | 0, input => ([], input)
  | len + 1, some byte :: rest => (byte :: (readBytes len rest).1, (readBytes len rest).2)
  | _ + 1, none :: rest => ([], rest)
  | _ + 1, [] => ([], [])

def rymReadData (ctx : RymCtx) (len : ℕ) : RymCtx × ℕ :=
  let result := readBytes len ctx.input
  ({ ctx with input := result.2, buf := copyIn ctx.buf 1 result.1 }, result.1.length)

def rymPutchar (ctx : RymCtx) (code : UInt8) : RymCtx :=
  { ctx with written := ctx.written ++ [code] }

/-- `(rt_uint16_t)(*high << 8) | *low`. -/
def crcWord (high low : UInt8) : UInt16 :=
  (high.toUInt16 <<< 8) ||| low.toUInt16

def callOnBegin (callbacks : Callbacks) (ctx : RymCtx) (len : ℕ) : RymCtx × UInt8 :=
  let bytes := copyOut ctx.buf 3 len
  ({ ctx with calls := ctx.calls ++ [.onBegin bytes] }, callbacks.onBegin ctx.calls bytes)

/-- The loop that sends C until a package begins. -/
def handshakeLoop : ℕ → RymCtx → RymCtx × Option ℕ
  | 0, ctx => (ctx, none)
  | turns + 1, ctx =>
    let read := rymReadCode (rymPutchar ctx rymCodeC)
    if read.2 = rymCodeSoh then (read.1, some rymSohPkgSz)
    else if read.2 = rymCodeStx then (read.1, some rymStxPkgSz)
    else handshakeLoop turns read.1

/-- `_rym_do_handshake`.  A read that falls short has waited `RYM_WAIT_CHR_TICK`, which is beyond
the 100 ms of the loop around it. -/
def rymDoHandshake (callbacks : Callbacks) (tmSec : ℕ) (ctx : RymCtx) : RymCtx × RymErr :=
  let looped := handshakeLoop tmSec { ctx with stage := .establishing }
  match looped.2 with
  | none => (looped.1, .tmo)
  | some dataSz =>
    let (ctx, length) := rymReadData looped.1 (dataSz - 1)
    if length ≠ dataSz - 1 then (ctx, .dsz)
    else if ctx.buf 1 ≠ 0 ∨ ctx.buf 2 ≠ 0xff then (ctx, .seq)
    else if crcWord (ctx.buf (dataSz - 2)) (ctx.buf (dataSz - 1)) ≠
        crc16 (copyOut ctx.buf 3 (dataSz - 5)) then (ctx, .crc)
    else
      let (ctx, code) := callOnBegin callbacks ctx (dataSz - 5)
      if code ≠ rymCodeAck then (ctx, .can) else (ctx, .eok)

/-- `_rym_trans_data`, with the code it leaves. -/
def rymTransData (callbacks : Callbacks) (ctx : RymCtx) (dataSz : ℕ) (code : UInt8) :
    RymCtx × RymErr × UInt8 :=
  let tsz := 2 + dataSz + 2
  let (ctx, length) := rymReadData ctx tsz
  if length ≠ tsz then (ctx, .dsz, code)
  else if (ctx.buf 1).toNat + (ctx.buf 2).toNat ≠ 0xff then (ctx, .seq, code)
  else if ctx.stage = .established ∧ ctx.buf 1 = 0 then (ctx, .eok, rymCodeNone)
  else
    let ctx := { ctx with stage := .transmitting }
    let bytes := copyOut ctx.buf 3 dataSz
    if crcWord (ctx.buf (tsz - 1)) (ctx.buf tsz) ≠ crc16 bytes then (ctx, .crc, code)
    else
      ({ ctx with calls := ctx.calls ++ [.onData bytes] }, .eok, callbacks.onData ctx.calls bytes)

/-- Where the receiver is in `_rym_do_recv`. -/
inductive Pc
  | handshake (tmSec : ℕ)
  /-- At the start of `_rym_do_trans`. -/
  | trans
  /-- In its loop. -/
  | transLoop
  | fin
  | done (err : RymErr)

/-- After a part of the transfer that must succeed. -/
def proceed (pc : Pc) : RymErr → Pc
  | .eok => pc
  | err => .done err

/-- What follows the code of a package in a turn of the loop of `_rym_do_trans`. -/
def rymTransPackage (callbacks : Callbacks) (ctx : RymCtx) (dataSz : ℕ) (code : UInt8) :
    RymCtx × Pc :=
  let (ctx, err, code) := rymTransData callbacks ctx dataSz code
  if err ≠ .eok then (ctx, .done err)
  else if code = rymCodeCan then
    ({ ctx with written := ctx.written ++ List.replicate rymEndSessionSendCanNum rymCodeCan },
      .done .can)
  else if code = rymCodeAck then (rymPutchar ctx rymCodeAck, .transLoop)
  else (ctx, .transLoop)

/-- A turn of the loop of `_rym_do_trans`. -/
def rymTransTurn (callbacks : Callbacks) (ctx : RymCtx) : RymCtx × Pc :=
  let (ctx, code) := rymReadCode ctx
  if code = rymCodeSoh then rymTransPackage callbacks ctx 128 code
  else if code = rymCodeStx then rymTransPackage callbacks ctx 1024 code
  else if code = rymCodeEot then (ctx, .fin)
  else (ctx, .done .code)

/-- The next header block or the null block, in `_rym_do_fin`: whatever its size is, the size of
a `SOH` package is read and checked. -/
def rymFinHeader (callbacks : Callbacks) (ctx : RymCtx) (dataSz : ℕ) : RymCtx × RymErr :=
  let (ctx, length) := rymReadData ctx (rymSohPkgSz - 1)
  if length ≠ rymSohPkgSz - 1 then (ctx, .dsz)
  else if ctx.buf 1 ≠ 0 ∨ ctx.buf 2 ≠ 0xff then (ctx, .seq)
  else if crcWord (ctx.buf (rymSohPkgSz - 2)) (ctx.buf (rymSohPkgSz - 1)) ≠
      crc16 (copyOut ctx.buf 3 (rymSohPkgSz - 5)) then (ctx, .crc)
  else if ctx.buf 3 ≠ 0 then
    let (ctx, code) := callOnBegin callbacks ctx (dataSz - 5)
    if code ≠ rymCodeAck then (ctx, .can) else (ctx, .eok)
  else (rymPutchar { ctx with stage := .finished } rymCodeAck, .eok)

def rymDoFin (callbacks : Callbacks) (ctx : RymCtx) : RymCtx × RymErr :=
  let ctx := { ctx with
    stage := .finishing
    calls := ctx.calls ++ [.onEnd (copyOut ctx.buf 3 128)] }
  let (ctx, code) := rymReadCode (rymPutchar ctx rymCodeNak)
  if code ≠ rymCodeEot then (ctx, .code)
  else
    let (ctx, code) := rymReadCode (rymPutchar (rymPutchar ctx rymCodeAck) rymCodeC)
    if code = rymCodeSoh then rymFinHeader callbacks ctx rymSohPkgSz
    else if code = rymCodeStx then rymFinHeader callbacks ctx rymStxPkgSz
    else (ctx, .code)

/-- `_rym_do_recv`, a part at a time. -/
def step (callbacks : Callbacks) : RymCtx × Pc → Unit → Option ((RymCtx × Pc) × Unit)
  | (ctx, .handshake tmSec), _ =>
    let (ctx, err) := rymDoHandshake callbacks tmSec ctx
    some ((ctx, proceed .trans err), ())
  | (ctx, .trans), _ =>
    some (({ rymPutchar (rymPutchar ctx rymCodeAck) rymCodeC with stage := .established },
      .transLoop), ())
  | (ctx, .transLoop), _ => some (rymTransTurn callbacks ctx, ())
  | (ctx, .fin), _ =>
    let (ctx, err) := rymDoFin callbacks ctx
    some ((ctx, proceed (if ctx.stage = .finished then .done .eok else .trans) err), ())
  | (_, .done _), _ => none

def machine (callbacks : Callbacks) : Machine (RymCtx × Pc) Unit Unit where
  step := step callbacks

/-- `rym_recv_on_device` once the device is open; `buf` is what `rt_malloc` returns. -/
def start (input : List (Option UInt8)) (buf : ℕ → UInt8) (handshakeTimeout : ℕ) : RymCtx × Pc :=
  (⟨input, [], buf, .none, []⟩, .handshake handshakeTimeout)

end RtThread.Ymodem
