import RtThread.Utilities.Ymodem

set_option linter.all false

/-!
# A YMODEM transfer

What a sender sends: for each file its header block, its packages and two `EOT`, and the null
block at the end; a package whose acknowledge was lost is sent again.  The receiver does not
look at the number of a data package, and reads every header block but the first as one of
128 bytes.
-/

namespace RtThread.Ymodem

open RtThread.Core
open RtThread.Ringbuffer (copyIn copyOut copyIn_add copyIn_of_lt copyOut_add copyOut_copyIn)

inductive Size
  | soh | stx
  deriving DecidableEq

def Size.bytes : Size → ℕ
  | .soh => 128
  | .stx => 1024

def Size.code : Size → UInt8
  | .soh => rymCodeSoh
  | .stx => rymCodeStx

structure Block where
  size : Size
  payload : List UInt8
  length_eq : payload.length = size.bytes

/-- What follows the code of a package. -/
def Block.tail (block : Block) (seq : UInt8) : List UInt8 :=
  seq :: (255 - seq) :: (block.payload ++
    [(crc16 block.payload >>> 8).toUInt8, (crc16 block.payload).toUInt8])

def Block.bytes (block : Block) (seq : UInt8) : List UInt8 :=
  block.size.code :: block.tail seq

def nullBlock (size : Size) : Block where
  size := size
  payload := List.replicate size.bytes 0
  length_eq := List.length_replicate

/-- A file, with how many times its header block and each of its packages are sent again. -/
structure File where
  header : Block
  named : ∀ byte ∈ header.payload.head?, byte ≠ 0
  repeats : ℕ
  packages : List (Block × ℕ)

/-- The packages in the order they are sent, with their numbers. -/
def sentFrom (seq : UInt8) : List (Block × ℕ) → List (UInt8 × Block)
  | [] => []
  | (block, repeats) :: rest => List.replicate (repeats + 1) (seq, block) ++ sentFrom (seq + 1) rest

def File.sent (file : File) : List (UInt8 × Block) :=
  sentFrom 1 file.packages

/-- Packages on the line. -/
def lineOf (packages : List (UInt8 × Block)) : List UInt8 :=
  packages.flatMap fun package => package.2.bytes package.1

/-- A header block on the line, a number of times. -/
def again (repeats : ℕ) (header : Block) : List UInt8 :=
  lineOf (List.replicate repeats (0, header))

/-- What follows the first header block of a file. -/
def File.body (file : File) : List UInt8 :=
  again file.repeats file.header ++ lineOf file.sent ++ [rymCodeEot, rymCodeEot]

def File.bytes (file : File) : List UInt8 :=
  file.header.bytes 0 ++ file.body

structure Session where
  files : List File
  nullSize : Size
  nullRepeats : ℕ

/-- The null block and what follows it. -/
def Session.final (session : Session) : List UInt8 :=
  (nullBlock session.nullSize).bytes 0 ++ again session.nullRepeats (nullBlock session.nullSize)

/-- What is sent from some file on. -/
def Session.from (session : Session) (files : List File) : List UInt8 :=
  files.flatMap File.bytes ++ session.final

def Session.bytes (session : Session) : List UInt8 :=
  session.from session.files

/-- What the application is to be given of a file. -/
def File.transfers (file : File) : List Call :=
  .onBegin file.header.payload :: file.packages.map fun package => .onData package.1.payload

def Session.transfers (session : Session) : List Call :=
  session.files.flatMap File.transfers

def Call.isTransfer : Call → Bool
  | .onEnd _ => false
  | _ => true

/-- When `rym_recv_on_device` returns `RT_EOK`, the application was given each header block as
sent and each data package once and in order. -/
def Intact (session : Session) : Prop :=
  ∀ callbacks input buf handshakeTimeout trace ctx, input.reduceOption = session.bytes →
    (machine callbacks).Run (start input buf handshakeTimeout) trace (ctx, .done .eok) →
      ctx.calls.filter Call.isTransfer = session.transfers

/-- The header block is found wrong when it is read as one of 128 bytes. -/
def Block.rejected (block : Block) : Prop :=
  crcWord (block.payload.getD 128 0) (block.payload.getD 129 0) ≠ crc16 (block.payload.take 128)

/-- Every header block after the first has 128 bytes or is rejected. -/
def Readable (later : List File) : Prop :=
  ∀ file ∈ later, file.header.size = .stx → file.header.rejected

/-- Every package is sent once. -/
def SentOnce (files : List File) : Prop :=
  ∀ file ∈ files, ∀ package ∈ file.packages, package.2 = 0

/-! ## Reading from the device -/

variable {callbacks : Callbacks} {ctx : RymCtx} {byte : UInt8} {bytes rest : List UInt8}

theorem rymReadCode_spec (hinput : ctx.input.reduceOption = byte :: rest) :
    ((rymReadCode ctx).2 = byte ∧ (rymReadCode ctx).1.input.reduceOption = rest) ∨
      (rymReadCode ctx).2 = rymCodeNone ∧
        (rymReadCode ctx).1.input.reduceOption = byte :: rest := by
  rw [rymReadCode]
  cases hcase : ctx.input with
  | nil =>
    rw [hcase] at hinput
    cases hinput
  | cons head tail =>
    rw [hcase] at hinput
    cases head with
    | none => exact Or.inr ⟨rfl, hinput⟩
    | some code =>
      rw [List.reduceOption_cons_of_some] at hinput
      obtain ⟨rfl, hrest⟩ := List.cons.inj hinput
      exact Or.inl ⟨rfl, hrest⟩

theorem rymReadCode_frame (ctx : RymCtx) :
    (rymReadCode ctx).1.stage = ctx.stage ∧ (rymReadCode ctx).1.calls = ctx.calls := by
  rw [rymReadCode]
  split <;> exact ⟨rfl, rfl⟩

theorem rymReadCode_nil (hinput : ctx.input.reduceOption = []) :
    (rymReadCode ctx).2 = rymCodeNone ∧ (rymReadCode ctx).1.input.reduceOption = [] := by
  rw [rymReadCode]
  cases hcase : ctx.input with
  | nil => exact ⟨rfl, by rw [hcase]; rfl⟩
  | cons head tail =>
    rw [hcase] at hinput
    cases head with
    | none => exact ⟨rfl, hinput⟩
    | some code => cases hinput

variable {len : ℕ}

theorem readBytes_spec {input : List (Option UInt8)} (hinput : input.reduceOption = bytes ++ rest)
    (hlen : bytes.length = len) (hfull : (readBytes len input).1.length = len) :
    (readBytes len input).1 = bytes ∧ (readBytes len input).2.reduceOption = rest := by
  induction bytes generalizing len input with
  | nil =>
    obtain rfl : len = 0 := hlen.symm
    exact ⟨rfl, hinput⟩
  | cons byte bytes ih =>
    obtain ⟨len, rfl⟩ : ∃ fewer, len = fewer + 1 := ⟨bytes.length, hlen.symm⟩
    cases input with
    | nil => cases hinput
    | cons head tail =>
      cases head with
      | none => cases hfull
      | some code =>
        rw [List.reduceOption_cons_of_some] at hinput
        obtain ⟨rfl, htail⟩ := List.cons.inj hinput
        obtain ⟨hread, hleft⟩ := ih htail (Nat.succ.inj hlen) (Nat.succ.inj hfull)
        exact ⟨by rw [readBytes, hread], hleft⟩

theorem rymReadData_frame (ctx : RymCtx) (len : ℕ) :
    (rymReadData ctx len).1.stage = ctx.stage ∧ (rymReadData ctx len).1.calls = ctx.calls :=
  ⟨rfl, rfl⟩

theorem rymReadData_spec (hinput : ctx.input.reduceOption = bytes ++ rest)
    (hlen : bytes.length = len) (hfull : (rymReadData ctx len).2 = len) :
    copyOut (rymReadData ctx len).1.buf 1 len = bytes ∧
      (rymReadData ctx len).1.input.reduceOption = rest := by
  obtain ⟨hread, hleft⟩ := readBytes_spec hinput hlen hfull
  refine ⟨?_, hleft⟩
  change copyOut (copyIn ctx.buf 1 (readBytes len ctx.input).1) 1 len = bytes
  rw [hread, ← hlen]
  exact copyOut_copyIn ..

theorem copyOut_succ (buf : ℕ → UInt8) (start len : ℕ) :
    copyOut buf start (len + 1) = buf start :: copyOut buf (start + 1) len := by
  rw [Nat.add_comm, copyOut_add]
  rfl

variable {payload : List UInt8}

/-- What stands in the buffer after the number, its complement and some bytes with a word behind
them were read. -/
theorem copyOut_package {buf : ℕ → UInt8} {seq complement high low : UInt8}
    (hpayload : payload.length = len)
    (hbuf : copyOut buf 1 (2 + len + 2) = seq :: complement :: (payload ++ [high, low])) :
    buf 1 = seq ∧ buf 2 = complement ∧ copyOut buf 3 len = payload ∧
      buf (3 + len) = high ∧ buf (4 + len) = low := by
  have hsplit : 2 + len + 2 = len + 2 + 1 + 1 := by omega
  rw [hsplit, copyOut_succ, copyOut_succ, copyOut_add] at hbuf
  obtain ⟨hseq, hbuf⟩ := List.cons.inj hbuf
  obtain ⟨hcomplement, hbuf⟩ := List.cons.inj hbuf
  have hlength : (copyOut buf (1 + 1 + 1) len).length = payload.length := by
    rw [hpayload]
    simp [copyOut]
  obtain ⟨hcopied, hword⟩ := List.append_inj hbuf hlength
  rw [copyOut_succ, copyOut_succ] at hword
  obtain ⟨hhigh, hword⟩ := List.cons.inj hword
  obtain ⟨hlow, -⟩ := List.cons.inj hword
  refine ⟨hseq, hcomplement, hcopied, hhigh, ?_⟩
  rw [← hlow]
  congr 1
  omega

theorem crcWord_bytes (crc : UInt16) : crcWord (crc >>> 8).toUInt8 crc.toUInt8 = crc := by
  apply UInt16.toNat_inj.1
  have hlt := crc.toNat_lt
  have hor : crc.toNat / 256 * 256 + crc.toNat % 256 =
      (crc.toNat / 256 * 256) ||| (crc.toNat % 256) := by
    have hlow : crc.toNat % 256 < 2 ^ 8 := Nat.mod_lt _ (by decide)
    have hshift := Nat.shiftLeft_add_eq_or_of_lt hlow (crc.toNat / 256)
    rwa [Nat.shiftLeft_eq] at hshift
  have hhigh : crc.toNat / 256 % 256 * 256 % 65536 = crc.toNat / 256 * 256 := by omega
  simp only [crcWord, UInt16.toNat_or, UInt16.toNat_shiftLeft, UInt8.toNat_toUInt16,
    UInt16.toNat_toUInt8, UInt16.toNat_shiftRight, Nat.shiftRight_eq_div_pow, Nat.shiftLeft_eq]
  change crc.toNat / 256 % 256 * 256 % 65536 ||| crc.toNat % 256 = crc.toNat
  rw [hhigh, ← hor]
  omega

theorem length_tail (block : Block) (seq : UInt8) :
    (block.tail seq).length = 2 + block.size.bytes + 2 := by
  simp only [Block.tail, List.length_cons, List.length_append, List.length_nil, block.length_eq]
  omega

theorem rymReadData_block {block : Block} {seq : UInt8} (hlen : len = 2 + block.size.bytes + 2)
    (hinput : ctx.input.reduceOption = block.tail seq ++ rest)
    (hfull : (rymReadData ctx len).2 = len) :
    (rymReadData ctx len).1.buf 1 = seq ∧ (rymReadData ctx len).1.buf 2 = 255 - seq ∧
      copyOut (rymReadData ctx len).1.buf 3 block.size.bytes = block.payload ∧
      crcWord ((rymReadData ctx len).1.buf (3 + block.size.bytes))
        ((rymReadData ctx len).1.buf (4 + block.size.bytes)) = crc16 block.payload ∧
      (rymReadData ctx len).1.input.reduceOption = rest := by
  subst hlen
  obtain ⟨hbuf, hleft⟩ := rymReadData_spec hinput (length_tail block seq) hfull
  obtain ⟨hseq, hcomplement, hpayload, hhigh, hlow⟩ := copyOut_package block.length_eq hbuf
  refine ⟨hseq, hcomplement, hpayload, ?_, hleft⟩
  rw [hhigh, hlow, crcWord_bytes]

/-! ## The parts of the receiver -/

variable {size : Size}

theorem handshakeLoop_spec {turns dataSz : ℕ} (hinput : ctx.input.reduceOption = size.code :: rest)
    (hfound : (handshakeLoop turns ctx).2 = some dataSz) :
    dataSz = 1 + 2 + size.bytes + 2 ∧ (handshakeLoop turns ctx).1.input.reduceOption = rest ∧
      (handshakeLoop turns ctx).1.calls = ctx.calls := by
  induction turns generalizing ctx with
  | zero => cases hfound
  | succ turns ih =>
    have hcalls : (rymReadCode (rymPutchar ctx rymCodeC)).1.calls = ctx.calls :=
      (rymReadCode_frame _).2
    have hput : (rymPutchar ctx rymCodeC).input.reduceOption = size.code :: rest := hinput
    rw [handshakeLoop] at hfound ⊢
    rcases rymReadCode_spec hput with ⟨hcode, hleft⟩ | ⟨hnone, hleft⟩
    · rw [hcode] at hfound ⊢
      cases size with
      | soh => exact ⟨(Option.some.inj hfound).symm, hleft, hcalls⟩
      | stx => exact ⟨(Option.some.inj hfound).symm, hleft, hcalls⟩
    · rw [hnone] at hfound ⊢
      obtain ⟨hsize, hrest, hsame⟩ := ih hleft hfound
      exact ⟨hsize, hrest, hsame.trans hcalls⟩

theorem rymDoHandshake_spec {turns : ℕ} {header : Block}
    (hinput : ctx.input.reduceOption = header.bytes 0 ++ rest)
    (hok : (rymDoHandshake callbacks turns ctx).2 = .eok) :
    (rymDoHandshake callbacks turns ctx).1.calls = ctx.calls ++ [.onBegin header.payload] ∧
      (rymDoHandshake callbacks turns ctx).1.input.reduceOption = rest := by
  have hcode : ({ ctx with stage := .establishing } : RymCtx).input.reduceOption =
      header.size.code :: (header.tail 0 ++ rest) := hinput
  simp only [rymDoHandshake] at hok ⊢
  cases hfound : (handshakeLoop turns { ctx with stage := .establishing }).2 with
  | none =>
    rw [hfound] at hok
    cases hok
  | some dataSz =>
    obtain ⟨hsize, hleft, hcalls⟩ := handshakeLoop_spec hcode hfound
    rw [hfound] at hok
    dsimp only at hok ⊢
    set looped := (handshakeLoop turns { ctx with stage := .establishing }).1 with hlooped
    split_ifs at hok ⊢ with hshort hseq hcrc hcan
    have hlen : dataSz - 1 = 2 + header.size.bytes + 2 := by omega
    have hsz : dataSz - 5 = header.size.bytes := by omega
    obtain ⟨-, -, hpayload, -, hrest⟩ := rymReadData_block hlen hleft (not_not.1 hshort)
    refine ⟨?_, hrest⟩
    rw [hsz]
    change looped.calls ++ [.onBegin (copyOut _ 3 header.size.bytes)] = _
    rw [hpayload, hcalls]

/-- What a package does to the receiver: a header block in front of the data of a file is
ignored, and any other package is given to the application, whatever its number is. -/
structure Accepted (callbacks : Callbacks) (ctx after : RymCtx) (code : UInt8) (seq : UInt8)
    (block : Block) : Prop where
  again : ctx.stage = .established → seq = 0 →
    after.calls = ctx.calls ∧ after.stage = .established ∧ code = rymCodeNone
  data : ¬ (ctx.stage = .established ∧ seq = 0) →
    after.calls = ctx.calls ++ [.onData block.payload] ∧ after.stage = .transmitting ∧
      code = callbacks.onData ctx.calls block.payload

theorem rymTransData_spec {block : Block} {seq code : UInt8}
    (hinput : ctx.input.reduceOption = block.tail seq ++ rest)
    (hok : (rymTransData callbacks ctx block.size.bytes code).2.1 = .eok) :
    Accepted callbacks ctx (rymTransData callbacks ctx block.size.bytes code).1
        (rymTransData callbacks ctx block.size.bytes code).2.2 seq block ∧
      (rymTransData callbacks ctx block.size.bytes code).1.input.reduceOption = rest := by
  simp only [rymTransData] at hok ⊢
  split_ifs at hok ⊢ with hshort hseq hagain hcrc
  · obtain ⟨hnumber, -, -, -, hrest⟩ := rymReadData_block rfl hinput (not_not.1 hshort)
    obtain ⟨hstage, hcalls⟩ := rymReadData_frame ctx (2 + block.size.bytes + 2)
    rw [hnumber, hstage] at hagain
    exact ⟨⟨fun _ _ => ⟨hcalls, hstage.trans hagain.1, rfl⟩, fun hnot => absurd hagain hnot⟩, hrest⟩
  · obtain ⟨hnumber, -, hpayload, -, hrest⟩ := rymReadData_block rfl hinput (not_not.1 hshort)
    obtain ⟨hstage, hcalls⟩ := rymReadData_frame ctx (2 + block.size.bytes + 2)
    rw [hnumber, hstage] at hagain
    refine ⟨⟨fun hestablished hzero => absurd ⟨hestablished, hzero⟩ hagain, fun _ => ?_⟩, hrest⟩
    rw [hpayload, hcalls]
    exact ⟨rfl, rfl, rfl⟩

theorem rymTransTurn_size (hread : (rymReadCode ctx).2 = size.code) : rymTransTurn callbacks ctx =
      rymTransPackage callbacks (rymReadCode ctx).1 size.bytes size.code := by
  simp only [rymTransTurn, hread]
  cases size <;> rfl

theorem rymTransPackage_spec {block : Block} {seq code : UInt8}
    (hinput : ctx.input.reduceOption = block.tail seq ++ rest) :
    (∃ err, err ≠ .eok ∧ (rymTransPackage callbacks ctx block.size.bytes code).2 = .done err) ∨
      (rymTransPackage callbacks ctx block.size.bytes code).2 = .transLoop ∧
        (rymTransPackage callbacks ctx block.size.bytes code).1.input.reduceOption = rest ∧
        ∃ left, Accepted callbacks ctx (rymTransPackage callbacks ctx block.size.bytes code).1 left
          seq block := by
  simp only [rymTransPackage]
  split_ifs with herr hcan hack
  · exact Or.inl ⟨_, herr, rfl⟩
  · exact Or.inl ⟨.can, nofun, rfl⟩
  all_goals
    obtain ⟨⟨hagain, hdata⟩, hrest⟩ := rymTransData_spec hinput (not_not.1 herr)
    exact Or.inr ⟨rfl, hrest, _, hagain, hdata⟩

theorem rymTransTurn_package {block : Block} {seq : UInt8}
    (hinput : ctx.input.reduceOption = block.bytes seq ++ rest) :
    (∃ err, err ≠ .eok ∧ (rymTransTurn callbacks ctx).2 = .done err) ∨
      (rymTransTurn callbacks ctx).2 = .transLoop ∧
        (rymTransTurn callbacks ctx).1.input.reduceOption = rest ∧
        ∃ code, Accepted callbacks ctx (rymTransTurn callbacks ctx).1 code seq block := by
  have hcode : ctx.input.reduceOption = block.size.code :: (block.tail seq ++ rest) := hinput
  obtain ⟨hstage, hcalls⟩ := rymReadCode_frame ctx
  rcases rymReadCode_spec hcode with ⟨hread, hleft⟩ | ⟨hnone, -⟩
  · rw [rymTransTurn_size hread]
    refine (@rymTransPackage_spec callbacks _ rest block seq block.size.code hleft).imp id ?_
    rintro ⟨hloop, hrest, code, hagain, hdata⟩
    rw [hstage, hcalls] at hagain hdata
    exact ⟨hloop, hrest, code, hagain, hdata⟩
  · refine Or.inl ⟨.code, nofun, ?_⟩
    simp only [rymTransTurn, hnone]
    rfl

theorem rymTransTurn_eot (hinput : ctx.input.reduceOption = rymCodeEot :: rest) :
    (rymTransTurn callbacks ctx).2 = .done .code ∨
      (rymTransTurn callbacks ctx).2 = .fin ∧
        (rymTransTurn callbacks ctx).1.input.reduceOption = rest ∧
        (rymTransTurn callbacks ctx).1.calls = ctx.calls := by
  obtain ⟨-, hcalls⟩ := rymReadCode_frame ctx
  rcases rymReadCode_spec hinput with ⟨hread, hleft⟩ | ⟨hnone, -⟩
  · refine Or.inr ?_
    simp only [rymTransTurn, hread]
    exact ⟨rfl, hleft, hcalls⟩
  · refine Or.inl ?_
    simp only [rymTransTurn, hnone]
    rfl

theorem rymTransTurn_nil (hinput : ctx.input.reduceOption = []) :
    (rymTransTurn callbacks ctx).2 = .done .code := by
  simp only [rymTransTurn, (rymReadCode_nil hinput).1]
  rfl

/-- What the final stage makes of the header block of the next file, or of the null block. -/
structure FinHeader (ctx after : RymCtx) (dataSz : ℕ) (payload rest : List UInt8) : Prop where
  copied : copyOut after.buf 3 128 = payload
  next : payload.head? ≠ some 0 →
    after.calls = ctx.calls ++ [.onBegin (copyOut after.buf 3 (dataSz - 5))] ∧
      after.stage = ctx.stage ∧ after.input.reduceOption = rest
  null : payload.head? = some 0 → after.calls = ctx.calls ∧ after.stage = .finished

theorem rymFinHeader_spec {dataSz : ℕ} {high low : UInt8} (hpayload : payload.length = 128)
    (hinput : ctx.input.reduceOption = 0 :: 255 :: (payload ++ [high, low]) ++ rest)
    (hok : (rymFinHeader callbacks ctx dataSz).2 = .eok) : crcWord high low = crc16 payload ∧
      FinHeader ctx (rymFinHeader callbacks ctx dataSz).1 dataSz payload rest := by
  have hlen : (0 :: 255 :: (payload ++ [high, low])).length = rymSohPkgSz - 1 := by
    simp [hpayload, rymSohPkgSz]
  simp only [rymFinHeader] at hok ⊢
  split_ifs at hok ⊢ with hshort hseq hcrc hnext hcan
  all_goals
    obtain ⟨hbuf, hleft⟩ := rymReadData_spec hinput hlen (not_not.1 hshort)
    obtain ⟨-, -, hcopied, hhigh, hlow⟩ := copyOut_package hpayload hbuf
    have hword : crcWord high low = crc16 payload := by
      rw [← hhigh, ← hlow, ← hcopied]
      exact not_not.1 hcrc
    have hhead : payload.head? =
        some ((rymReadData ctx (rymSohPkgSz - 1)).1.buf 3) := by
      rw [← hcopied]
      rfl
  · exact ⟨hword, hcopied, fun _ => ⟨rfl, rfl, hleft⟩,
      fun hnull => absurd (Option.some.inj (hhead.symm.trans hnull)) hnext⟩
  · refine ⟨hword, hcopied, fun hnull => ?_, fun _ => ⟨rfl, rfl⟩⟩
    rw [hhead, not_not.1 hnext] at hnull
    exact absurd rfl hnull

/-- The final stage up to the bytes behind the code of the next header block. -/
theorem rymDoFin_spec (hinput : ctx.input.reduceOption = rymCodeEot :: size.code :: rest)
    (hok : (rymDoFin callbacks ctx).2 = .eok) :
    ∃ mid : RymCtx, mid.input.reduceOption = rest ∧ mid.stage = .finishing ∧
      mid.calls = ctx.calls ++ [.onEnd (copyOut ctx.buf 3 128)] ∧
      rymDoFin callbacks ctx = rymFinHeader callbacks mid (1 + 2 + size.bytes + 2) := by
  set ended : RymCtx := rymPutchar { ctx with
    stage := .finishing
    calls := ctx.calls ++ [.onEnd (copyOut ctx.buf 3 128)] } rymCodeNak with hended
  have hfirst : ended.input.reduceOption = rymCodeEot :: size.code :: rest := hinput
  obtain ⟨hstage, hcalls⟩ := rymReadCode_frame ended
  simp only [rymDoFin, ← hended] at hok ⊢
  rcases rymReadCode_spec hfirst with ⟨hread, hleft⟩ | ⟨hnone, -⟩
  · set second : RymCtx :=
      rymPutchar (rymPutchar (rymReadCode ended).1 rymCodeAck) rymCodeC with hsecond
    have hnext : second.input.reduceOption = size.code :: rest := hleft
    obtain ⟨hstage', hcalls'⟩ := rymReadCode_frame second
    rw [if_neg (not_not.2 hread)] at hok ⊢
    rcases rymReadCode_spec hnext with ⟨hcode, hrest⟩ | ⟨hnone, -⟩
    · refine ⟨(rymReadCode second).1, hrest, hstage'.trans hstage, hcalls'.trans hcalls, ?_⟩
      rw [hcode]
      cases size <;> rfl
    · rw [hnone] at hok
      cases hok
  · rw [hnone] at hok
    cases hok

/-- A block of 1024 bytes, cut where a block of 128 bytes ends. -/
theorem payload_cut (hlength : payload.length = 1024) :
    payload = payload.take 128 ++ [payload.getD 128 0, payload.getD 129 0] ++ payload.drop 130 := by
  have h128 : 128 < payload.length := by omega
  have h129 : 129 < payload.length := by omega
  have hfirst : payload.getD 128 0 = payload[128] := by
    rw [List.getD_eq_getElem?_getD, List.getElem?_eq_getElem h128, Option.getD_some]
  have hsecond : payload.getD 129 0 = payload[129] := by
    rw [List.getD_eq_getElem?_getD, List.getElem?_eq_getElem h129, Option.getD_some]
  rw [hfirst, hsecond, List.append_assoc, List.cons_append, List.cons_append, List.nil_append,
    List.getElem_cons_drop, List.getElem_cons_drop, List.take_append_drop]

/-- What the final stage reads of a block, and what it leaves. -/
theorem tail_cut (block : Block) :
    ∃ high low more, block.tail 0 = 0 :: 255 :: (block.payload.take 128 ++ [high, low]) ++ more ∧
      (block.payload.take 128).length = 128 ∧
      (block.size = .soh → more = [] ∧ block.payload.take 128 = block.payload ∧
        crcWord high low = crc16 block.payload) ∧
      (block.size = .stx → high = block.payload.getD 128 0 ∧ low = block.payload.getD 129 0) := by
  have hcomplement : (255 : UInt8) - 0 = 255 := by decide
  have hlength := block.length_eq
  cases hsize : block.size with
  | soh =>
    rw [hsize] at hlength
    have htake : block.payload.take 128 = block.payload := List.take_of_length_le hlength.le
    refine ⟨(crc16 block.payload >>> 8).toUInt8, (crc16 block.payload).toUInt8, [], ?_,
      by rw [htake]; exact hlength, fun _ => ⟨rfl, htake, crcWord_bytes _⟩, nofun⟩
    rw [htake, List.append_nil, Block.tail, hcomplement]
  | stx =>
    rw [hsize] at hlength
    have hfront : (block.payload.take 128).length = 128 := by
      rw [List.length_take, hlength]
      rfl
    refine ⟨block.payload.getD 128 0, block.payload.getD 129 0, block.payload.drop 130 ++
      [(crc16 block.payload >>> 8).toUInt8, (crc16 block.payload).toUInt8], ?_, hfront, nofun,
      fun _ => ⟨rfl, rfl⟩⟩
    rw [Block.tail, hcomplement]
    nth_rewrite 1 [payload_cut hlength]
    simp only [List.cons_append, List.append_assoc]

theorem rymDoFin_header {header : Block}
    (hnamed : ∀ byte ∈ header.payload.head?, byte ≠ 0)
    (hrejected : header.size = .stx → header.rejected)
    (hinput : ctx.input.reduceOption = rymCodeEot :: (header.bytes 0 ++ rest))
    (hok : (rymDoFin callbacks ctx).2 = .eok) :
    header.size = .soh ∧ (rymDoFin callbacks ctx).1.stage = .finishing ∧
      (rymDoFin callbacks ctx).1.calls = ctx.calls ++ [.onEnd (copyOut ctx.buf 3 128)] ++
        [.onBegin header.payload] ∧
      (rymDoFin callbacks ctx).1.input.reduceOption = rest := by
  have hcode : ctx.input.reduceOption =
      rymCodeEot :: header.size.code :: (header.tail 0 ++ rest) := hinput
  obtain ⟨mid, hmid, hstage, hcalls, heq⟩ := rymDoFin_spec hcode hok
  obtain ⟨high, low, more, htail, hlength, hsoh, hstx⟩ := tail_cut header
  rw [heq] at hok ⊢
  rw [htail, List.append_assoc] at hmid
  obtain ⟨hword, hcopied, hnext, -⟩ := rymFinHeader_spec hlength hmid hok
  cases hsize : header.size with
  | soh =>
    obtain ⟨rfl, htake, -⟩ := hsoh hsize
    rw [htake] at hnext hcopied
    rw [hsize] at hok hnext hcopied
    obtain ⟨hcalled, hstaged, hleft⟩ := hnext fun hnull => hnamed 0 hnull rfl
    refine ⟨rfl, hstaged.trans hstage, ?_, hleft⟩
    rw [hcalled, hcalls]
    change _ ++ [Call.onBegin (copyOut _ 3 128)] = _
    rw [hcopied]
  | stx =>
    obtain ⟨rfl, rfl⟩ := hstx hsize
    exact absurd hword (hrejected hsize)

theorem rymDoFin_null
    (hinput : ctx.input.reduceOption = rymCodeEot :: ((nullBlock size).bytes 0 ++ rest))
    (hok : (rymDoFin callbacks ctx).2 = .eok) : (rymDoFin callbacks ctx).1.stage = .finished ∧
      (rymDoFin callbacks ctx).1.calls = ctx.calls ++ [.onEnd (copyOut ctx.buf 3 128)] := by
  have hcode : ctx.input.reduceOption =
      rymCodeEot :: size.code :: ((nullBlock size).tail 0 ++ rest) := hinput
  obtain ⟨mid, hmid, hstage, hcalls, heq⟩ := rymDoFin_spec hcode hok
  obtain ⟨high, low, more, htail, hlength, -, -⟩ := tail_cut (nullBlock size)
  rw [heq] at hok ⊢
  rw [htail, List.append_assoc] at hmid
  obtain ⟨-, -, -, hnull⟩ := rymFinHeader_spec hlength hmid hok
  have hhead : ((nullBlock size).payload.take 128).head? = some 0 := by
    cases size <;> rfl
  obtain ⟨hcalled, hstaged⟩ := hnull hhead
  exact ⟨hstaged, hcalled.trans hcalls⟩

end RtThread.Ymodem
