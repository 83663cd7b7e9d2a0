import Mathlib.Algebra.Order.Group.Unbundled.Int
import Mathlib.Tactic.Ring
import RtThread.Finsh.Compiler

set_option linter.all false

/-!
# The virtual machine of the shell

`finsh_vm.c` and `finsh_ops.c` on a machine with 32 bits that stores the lowest byte first and whose
`char` has a sign.  A slot of the stack is a word, an operation on a smaller type changes its lowest
bytes.  The st carries the lowest and the highest value that `finsh_sp` has had, and the most
parameters that `OP_call` has put into its array.
-/

namespace RtThread.Finsh

abbrev Memory := UInt32 → UInt8

/-! ## Values of a width -/

/-- The value of a slot at a width. -/
def slotValue (w : Width) (slot : UInt32) : ℕ :=
  slot.toNat % 2 ^ w.bits

/-- A slot with another value at a width. -/
def setSlot (w : Width) (slot value : UInt32) : UInt32 :=
  UInt32.ofNat (slot.toNat / 2 ^ w.bits * 2 ^ w.bits + slotValue w value)

/-- The value as a number with a sign. -/
def signedValue (w : Width) (slot : UInt32) : ℤ :=
  Int.bmod slot.toNat (2 ^ w.bits)

/-- `OP_BIN_BYTE`, `OP_BIN_WORD` and `OP_BIN_DWORD`. -/
def binaryValue (op : BinaryOp) (w : Width) (left right : UInt32) : UInt32 :=
  match op with
  | .add => left + right
  | .sub => left - right
  | .div => UInt32.ofInt ((signedValue w left).tdiv (signedValue w right))
  | .mod => UInt32.ofInt ((signedValue w left).tmod (signedValue w right))
  | .mul => left * right
  | .and => left &&& right
  | .or => left ||| right
  | .xor => left ^^^ right
  | .shl => left <<< right
  | .shr => UInt32.ofInt (signedValue w left >>> (right.toNat % 32))

/-- The bytes from an address on, the lowest first. -/
def loadBytes (memory : Memory) : ℕ → UInt32 → ℕ
  | 0, _ => 0
  | count + 1, address => (memory address).toNat + 256 * loadBytes memory count (address + 1)

/-- A memory with other bytes from an address on. -/
def storeBytes (memory : Memory) (address : UInt32) : List UInt8 → Memory
  | [] => memory
  | byte :: bytes => Function.update (storeBytes memory (address + 1) bytes) address byte

def load (w : Width) (memory : Memory) (address : UInt32) : UInt32 :=
  UInt32.ofNat (loadBytes memory w.bytes address)

def store (w : Width) (memory : Memory) (address value : UInt32) : Memory :=
  storeBytes memory address (bytesOf w.bytes value.toNat)

/-! ## States -/

structure Vm where
  stack : ℤ → UInt32
  sp : ℤ
  memory : Memory
  lowest : ℤ
  highest : ℤ
  parameters : ℕ

namespace Vm

/-- The state in which `finsh_vm_run` starts. -/
def start (stack : ℤ → UInt32) (memory : Memory) : Vm :=
  ⟨stack, 0, memory, 0, 0, 0⟩

/-- `finsh_sp += by`. -/
def move (vm : Vm) (by' : ℤ) : Vm :=
  { vm with
    sp := vm.sp + by'
    lowest := min vm.lowest (vm.sp + by')
    highest := max vm.highest (vm.sp + by') }

/-- `*(finsh_sp + at)`. -/
def slot (vm : Vm) (at' : ℤ) : UInt32 :=
  vm.stack (vm.sp + at')

/-- An assignment to a member of `*(finsh_sp + at)`. -/
def set (vm : Vm) (at' : ℤ) (w : Width) (value : UInt32) : Vm :=
  { vm with
    stack := Function.update vm.stack (vm.sp + at') (setSlot w (vm.slot at') value) }

/-- `*finsh_sp++ = value`. -/
def push (vm : Vm) (w : Width) (value : UInt32) : Vm :=
  (vm.set 0 w value).move 1

/-- The loop of `OP_call`: the parameters from the last to the first, and where the stack is
then. -/
def popParameters (vm : Vm) : ℕ → List UInt32 × Vm
  | 0 => ([], vm)
  | count + 1 =>
    let popped := popParameters (vm.move (-1)) count
    (popped.1 ++ [vm.slot 0], popped.2)

end Vm

/-- What a function of the system returns, and the memory it leaves. -/
abbrev Syscall := UInt32 → List UInt32 → Memory → UInt32 × Memory

/-- `OP_call`.  There is no call with more than 16 parameters. -/
def opCall (syscall : Syscall) (vm : Vm) (parameters : ℕ) : Vm :=
  let (parameterv, vm) := (vm.move (-1)).popParameters parameters
  let vm := { vm with parameters := max vm.parameters parameters }
  let (r, memory) :=
    if parameters ≤ 16 then syscall (vm.slot 0) parameterv vm.memory else (0, vm.memory)
  ({ vm with memory := memory } : Vm).push .dword r

/-- The function of `op_table` with its operand. -/
def exec (syscall : Syscall) (instr : Instr) (vm : Vm) : Vm :=
  match instr.op with
  | .noop => vm
  | .binary op w => (vm.set (-2) w (binaryValue op w (vm.slot (-2)) (vm.slot (-1)))).move (-1)
  | .bitwise w => vm.set (-1) w (~~~(vm.slot (-1)))
  | .ld w => vm.push w instr.operand
  | .ldValue w => vm.push w (load w vm.memory instr.operand)
  | .st w =>
    ({ vm with memory := store w vm.memory (vm.slot (-2)) (vm.slot (-1)) } : Vm).move (-1)
  | .pop => vm.move (-1)
  | .call => opCall syscall vm instr.operand.toNat
  | .ldValueStack w => vm.set (-1) w (load w vm.memory (vm.slot (-1)))

/-! ## Running the text -/

/-- `op_table`. -/
def opTable : List Op :=
  [.noop,
    .binary .add .byte, .binary .add .word, .binary .add .dword,
    .binary .sub .byte, .binary .sub .word, .binary .sub .dword,
    .binary .div .byte, .binary .div .word, .binary .div .dword,
    .binary .mod .byte, .binary .mod .word, .binary .mod .dword,
    .binary .mul .byte, .binary .mul .word, .binary .mul .dword,
    .binary .and .byte, .binary .and .word, .binary .and .dword,
    .binary .or .byte, .binary .or .word, .binary .or .dword,
    .binary .xor .byte, .binary .xor .word, .binary .xor .dword,
    .bitwise .byte, .bitwise .word, .bitwise .dword,
    .binary .shl .byte, .binary .shl .word, .binary .shl .dword,
    .binary .shr .byte, .binary .shr .word, .binary .shr .dword,
    .ld .byte, .ld .word, .ld .dword,
    .ldValue .byte, .ldValue .word, .ldValue .dword,
    .st .byte, .st .word, .st .dword,
    .pop, .call,
    .ldValueStack .byte, .ldValueStack .word, .ldValueStack .dword]

/-- The operand of an operation, the lowest byte first. -/
def operandOf : List UInt8 → ℕ
  | [] => 0
  | byte :: bytes => byte.toNat + 256 * operandOf bytes

/-- `finsh_vm_run` from a place of the text segment on; there is no function behind the table. -/
def vmRun (syscall : Syscall) : List UInt8 → Vm → Vm
  | [], vm => vm
  | code :: text, vm =>
    match opTable[code.toNat]? with
    | none => vm
    | some op =>
      vmRun syscall (text.drop op.operandBytes)
        (exec syscall ⟨op, UInt32.ofNat (operandOf (text.take op.operandBytes))⟩ vm)
termination_by text => text.length
decreasing_by simp only [List.length_drop, List.length_cons]; omega

end RtThread.Finsh
