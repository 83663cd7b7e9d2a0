import RtThread.Core.BoundedPrinter

set_option linter.all false

/-!
# Formatted printing

`rt_vsnprintf` and `print_number` of `kservice.c`.  A pointer into the output is its distance from
`buf`, the cursor of the format is an index into the format and its closing zero: a read behind
that zero has no result, and neither has a write behind the array of the digits.  Signed
arithmetic wraps around at 32 bits.
-/

namespace RtThread.Printf

open RtThread.Core

/-- The build options, and the width of `long` and of a pointer. -/
structure Config where
  printfLonglong : Bool
  printfSpecial : Bool
  longIs64 : Bool

/-- What `va_arg` may find in a place of the argument list: a word, or a string. -/
structure Arg where
  word : ℕ
  string : Option (List UInt8)

/-- A value of type `int`. -/
def int32 (value : Int) : Int :=
  (value + 2 ^ 31) % 2 ^ 32 - 2 ^ 31

namespace Config

variable (cfg : Config)

def longBits : ℕ :=
  if cfg.longIs64 then 64 else 32

/-- The width of the `num` of `print_number`. -/
def numBits : ℕ :=
  if cfg.printfLonglong then 64 else cfg.longBits

/-- The length of `tmp`. -/
def tmpSize : ℕ :=
  if cfg.printfLonglong then 32 else 16

end Config

namespace Arg

variable (arg : Arg)

def int : Int :=
  int32 arg.word

def uint32 : ℕ :=
  arg.word % 2 ^ 32

end Arg

structure Flags where
  zeropad : Bool
  sign : Bool
  plus : Bool
  space : Bool
  left : Bool
  special : Bool
  large : Bool

def noFlags : Flags :=
  ⟨false, false, false, false, false, false, false⟩

/-! ## Counted loops -/

/-- `while (low < count--)` with a symbol in its body; the first argument is the number of
turns. -/
def padDown (c : UInt8) (low : Int) : ℕ → Int → Printer UInt8 Int
  | 0, count => pure (int32 (count - 1))
  | turns + 1, count =>
    if low < count then do
      putSymbol c
      padDown c low turns (int32 (count - 1))
    else pure (int32 (count - 1))

def padWhile (c : UInt8) (low count : Int) : Printer UInt8 Int :=
  padDown c low (count - low).toNat count

/-- `while (--count > 0)`. -/
def padBefore (c : UInt8) : ℕ → Int → Printer UInt8 Int
  | 0, count => pure (int32 (count - 1))
  | turns + 1, count =>
    if 0 < int32 (count - 1) then do
      putSymbol c
      padBefore c turns (int32 (count - 1))
    else pure (int32 (count - 1))

def padWhileBefore (c : UInt8) (count : Int) : Printer UInt8 Int :=
  padBefore c (int32 (count - 1)).toNat count

def putAll : List UInt8 → Printer UInt8 Unit
  | [] => pure ()
  | symbol :: symbols => do
      putSymbol symbol
      putAll symbols

/-! ## Numbers -/

def digit (large : Bool) (value : ℕ) : UInt8 :=
  if value < 10 then UInt8.ofNat (0x30 + value)
  else if large then UInt8.ofNat (0x41 + (value - 10)) else UInt8.ofNat (0x61 + (value - 10))

/-- `while (num != 0) tmp[i++] = digits[divide(&num, base)]`; the first argument is what is left of
`tmp`.  A base other than 10 is 16. -/
def digitsLoop (large : Bool) (base : ℕ) : ℕ → ℕ → List UInt8 → Option (List UInt8)
  | 0, num, tmp => if num = 0 then some tmp else none
  | left + 1, num, tmp =>
    if num = 0 then some tmp
    else
      let divisor := if base = 10 then 10 else 16
      digitsLoop large base left (num / divisor) (tmp ++ [digit large (num % divisor)])

def numberDigits (cfg : Config) (large : Bool) (base num : ℕ) : Option (List UInt8) :=
  if num = 0 then some [0x30] else digitsLoop large base cfg.tmpSize num []

/-- The sign of a number, and its amount. -/
def signOf (cfg : Config) (num : ℕ) (type : Flags) : Option UInt8 × ℕ :=
  if type.sign then
    if 2 ^ (cfg.numBits - 1) ≤ num then (some 0x2d, 2 ^ cfg.numBits - num)
    else if type.plus then (some 0x2b, num)
    else if type.space then (some 0x20, num)
    else (none, num)
  else (none, num)

def printSpecial (cfg : Config) (base : ℕ) (type : Flags) : Printer UInt8 Unit :=
  if cfg.printfSpecial ∧ type.special then
    if base = 8 then putSymbol 0x30
    else if base = 16 then do
      putSymbol 0x30
      putSymbol (if type.large then 0x58 else 0x78)
    else pure ()
  else pure ()

/-- The sign, and the width that it leaves. -/
def putSign (sign : Option UInt8) (size : Int) : Printer UInt8 Int :=
  match sign with
  | some sign => do
      putSymbol sign
      pure (int32 (size - 1))
  | none => pure size

/-- The width that the prefix leaves. -/
def specialSize (cfg : Config) (base : ℕ) (type : Flags) (size : Int) : Int :=
  if cfg.printfSpecial ∧ type.special then
    if base = 16 then int32 (size - 2) else if base = 8 then int32 (size - 1) else size
  else size

/-- `num` is the bit pattern of the number. -/
def printNumber (cfg : Config) (num base : ℕ) (s precision : Int) (type : Flags) :
    Printer UInt8 Unit := do
  let zeropad := type.zeropad && !type.left
  let c : UInt8 := if zeropad then 0x30 else 0x20
  let (sign, num) := signOf cfg num type
  let size := specialSize cfg base type s
  let tmp ← StateT.lift (numberDigits cfg type.large base num)
  let i : Int := tmp.length
  let precisionBak := precision
  let precision := if i > precision then i else precision
  let size := int32 (size - precision)
  let size ← (
    if ¬ (zeropad ∨ type.left) then
      padWhile 0x20 0 (if sign.isSome ∧ size > 0 then int32 (size - 1) else size)
    else pure size)
  let size ← putSign sign size
  printSpecial cfg base type
  let size ← (if ¬ type.left then padWhile c 0 size else pure size)
  let _ ← padWhile 0x30 i precision
  putAll (if precisionBak ≠ 0 then tmp.reverse else [])
  let _ ← padWhile 0x20 0 size
  return ()

/-! ## The format -/

/-- `*fmt`. -/
def deref (fmt : List UInt8) (pos : ℕ) : Option UInt8 :=
  (fmt ++ [0])[pos]?

def isDigit (c : UInt8) : Bool :=
  0x30 ≤ c && c ≤ 0x39

/-- The loop over the flags. -/
def processFlags (fmt : List UInt8) : ℕ → ℕ → Flags → Option (Flags × ℕ)
  | 0, _, _ => none
  | fuel + 1, pos, flags => do
      let pos := pos + 1
      let c ← deref fmt pos
      if c = 0x2d then processFlags fmt fuel pos { flags with left := true }
      else if c = 0x2b then processFlags fmt fuel pos { flags with plus := true }
      else if c = 0x20 then processFlags fmt fuel pos { flags with space := true }
      else if c = 0x23 then processFlags fmt fuel pos { flags with special := true }
      else if c = 0x30 then processFlags fmt fuel pos { flags with zeropad := true }
      else return (flags, pos)

def skipAtoi (fmt : List UInt8) : ℕ → ℕ → Int → Option (Int × ℕ)
  | 0, _, _ => none
  | fuel + 1, pos, i => do
      let c ← deref fmt pos
      if isDigit c then skipAtoi fmt fuel (pos + 1) (int32 (i * 10 + c.toNat - 0x30))
      else return (i, pos)

/-- The cursor of the format and the number of arguments that were taken. -/
structure Cursors where
  pos : ℕ
  arg : ℕ

def fuelOf (fmt : List UInt8) : ℕ :=
  fmt.length + 2

def getWidth (fmt : List UInt8) (args : ℕ → Arg) (here : Cursors) (flags : Flags) :
    Option (Int × Flags × Cursors) := do
  let c ← deref fmt here.pos
  if isDigit c then
    let (width, pos) ← skipAtoi fmt (fuelOf fmt) here.pos 0
    return (width, flags, { here with pos })
  else if c = 0x2a then
    let width := (args here.arg).int
    if width < 0 then
      return (int32 (-width), { flags with left := true }, ⟨here.pos + 1, here.arg + 1⟩)
    else return (width, flags, ⟨here.pos + 1, here.arg + 1⟩)
  else return (-1, flags, here)

def getPrecision (fmt : List UInt8) (args : ℕ → Arg) (here : Cursors) : Option (Int × Cursors) := do
  let c ← deref fmt here.pos
  if c = 0x2e then
    let c ← deref fmt (here.pos + 1)
    let (precision, here) ←
      if isDigit c then do
        let (precision, pos) ← skipAtoi fmt (fuelOf fmt) (here.pos + 1) 0
        pure (precision, { here with pos })
      else if c = 0x2a then
        pure ((args here.arg).int, (⟨here.pos + 2, here.arg + 1⟩ : Cursors))
      else pure ((-1 : Int), { here with pos := here.pos + 1 })
    return (if precision < 0 then 0 else precision, here)
  else return (-1, here)

inductive Qualifier
  | none | h | l | L

def getQualifier (cfg : Config) (fmt : List UInt8) (pos : ℕ) : Option (Qualifier × ℕ) := do
  let c ← deref fmt pos
  if c = 0x68 then return (.h, pos + 1)
  else if c = 0x6c then
    let c ← deref fmt (pos + 1)
    if cfg.printfLonglong ∧ c = 0x6c then return (.L, pos + 2) else return (.l, pos + 1)
  else if cfg.printfLonglong ∧ c = 0x4c then return (.L, pos + 1)
  else return (.none, pos)

/-- A conversion specification up to the letter of the conversion. -/
structure Spec where
  flags : Flags
  fieldWidth : Int
  precision : Int
  qualifier : Qualifier
  cursors : Cursors

def getSpec (cfg : Config) (fmt : List UInt8) (args : ℕ → Arg) (here : Cursors) :
    Option Spec := do
  let (flags, pos) ← processFlags fmt (fuelOf fmt) here.pos noFlags
  let (fieldWidth, flags, here) ← getWidth fmt args { here with pos } flags
  let (precision, here) ← getPrecision fmt args here
  let (qualifier, pos) ← getQualifier cfg fmt here.pos
  return ⟨flags, fieldWidth, precision, qualifier, { here with pos }⟩

/-! ## Conversions -/

def printChar (spec : Spec) (c : UInt8) : Printer UInt8 Unit := do
  let width ← (
    if ¬ spec.flags.left then padWhileBefore 0x20 spec.fieldWidth else pure spec.fieldWidth)
  putSymbol c
  let _ ← padWhileBefore 0x20 width
  return ()

def printString (spec : Spec) (string : Option (List UInt8)) : Printer UInt8 Unit := do
  let s := string.getD [0x28, 0x4e, 0x55, 0x4c, 0x4c, 0x29]
  let len := int32 s.length
  let len := if spec.precision > 0 ∧ len > spec.precision then spec.precision else len
  let width ← (
    if ¬ spec.flags.left then padWhile 0x20 len spec.fieldWidth else pure spec.fieldWidth)
  putAll (s.take len.toNat)
  let _ ← padWhile 0x20 len width
  return ()

/-- A value of fewer bits as a signed one of more bits. -/
def signExtend (numBits bits value : ℕ) : ℕ :=
  if 2 ^ (bits - 1) ≤ value then value + (2 ^ numBits - 2 ^ bits) else value

/-- The pointer goes through a `long`. -/
def printPointer (cfg : Config) (spec : Spec) (arg : Arg) : Printer UInt8 Unit :=
  let num := signExtend cfg.numBits cfg.longBits (arg.word % 2 ^ cfg.longBits)
  if spec.fieldWidth = -1 then
    printNumber cfg num 16 (cfg.longBits / 4) spec.precision
      { spec.flags with zeropad := true }
  else printNumber cfg num 16 spec.fieldWidth spec.precision spec.flags

/-- The number that is printed, as `qualifier` and `SIGN` say, in a `num` of 32 or 64 bits. -/
def numOf (cfg : Config) (qualifier : Qualifier) (sign : Bool) (arg : Arg) : ℕ :=
  let bits := if cfg.printfLonglong then 64 else 32
  match qualifier with
  | .L => arg.word % 2 ^ bits
  | .h =>
    let num := arg.uint32 % 2 ^ 16
    if sign then signExtend bits 16 num else num
  | _ => if sign then signExtend bits 32 arg.uint32 else arg.uint32

def printInteger (cfg : Config) (spec : Spec) (base : ℕ) (flags : Flags) (arg : Arg) :
    Printer UInt8 Unit :=
  printNumber cfg (numOf cfg spec.qualifier flags.sign arg) base spec.fieldWidth
    spec.precision flags

/-- The switch over the conversions, at the letter `c`.  The cursor ends on the last byte that was
used, or in front of the closing zero. -/
def convert (cfg : Config) (args : ℕ → Arg) (spec : Spec) (c : UInt8) :
    Printer UInt8 Cursors := do
  let here := spec.cursors
  let arg := args here.arg
  let taken : Cursors := { here with arg := here.arg + 1 }
  if c = 0x63 then do
    printChar spec (UInt8.ofNat arg.word)
    return taken
  else if c = 0x73 then do
    printString spec arg.string
    return taken
  else if c = 0x70 then do
    printPointer cfg spec arg
    return taken
  else if c = 0x25 then do
    putSymbol 0x25
    return here
  else if c = 0x6f then do
    printInteger cfg spec 8 spec.flags arg
    return taken
  else if c = 0x58 then do
    printInteger cfg spec 16 { spec.flags with large := true } arg
    return taken
  else if c = 0x78 then do
    printInteger cfg spec 16 spec.flags arg
    return taken
  else if c = 0x64 ∨ c = 0x69 then do
    printInteger cfg spec 10 { spec.flags with sign := true } arg
    return taken
  else if c = 0x75 then do
    printInteger cfg spec 10 spec.flags arg
    return taken
  else do
    putSymbol 0x25
    if c ≠ 0 then do
      putSymbol c
      return here
    else return { here with pos := here.pos - 1 }

/-- The loop over the format. -/
def formatLoop (cfg : Config) (fmt : List UInt8) (args : ℕ → Arg) :
    ℕ → Cursors → Printer UInt8 Unit
  | 0, _ => StateT.lift none
  | fuel + 1, here => do
      let c ← StateT.lift (deref fmt here.pos)
      if c = 0 then return ()
      else if c ≠ 0x25 then do
        putSymbol c
        formatLoop cfg fmt args fuel { here with pos := here.pos + 1 }
      else do
        let spec ← StateT.lift (getSpec cfg fmt args here)
        let c ← StateT.lift (deref fmt spec.cursors.pos)
        let here ← convert cfg args spec c
        formatLoop cfg fmt args fuel { here with pos := here.pos + 1 }

/-- `room` is how many addresses there are from `buf` to the last one; a larger `size` is taken
for all of them. -/
def rtVsnprintf (cfg : Config) (buf : ℕ → UInt8) (room size : ℕ) (fmt : List UInt8)
    (args : ℕ → Arg) : Option (Int × (ℕ → UInt8)) := do
  let size := if room < size then room else size
  let ((), out) ← (formatLoop cfg fmt args (fuelOf fmt) ⟨0, 0⟩).run ⟨buf, 0, size⟩
  return (int32 out.cursor, out.close 0)

end RtThread.Printf
