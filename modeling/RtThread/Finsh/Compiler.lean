import RtThread.Finsh.Node

set_option linter.all false

/-!
# The compiler of the shell

`finsh_compiler.c`.  The text segment is the list of its instructions, each with the bytes that the
compiler writes for it; the type check and the code generation are recursions over the tree.
-/

namespace RtThread.Finsh

/-! ## Instructions -/

/-- The functions of `op_table`. -/
inductive Op
  | noop
  | binary (op : BinaryOp) (w : Width)
  | bitwise (w : Width)
  | ld (w : Width)
  | ldValue (w : Width)
  | st (w : Width)
  | pop
  | call
  | ldValueStack (w : Width)

namespace Op

/-- The three codes of an operation lie next to each other. -/
def ofWidth (base : UInt8) : Width → UInt8
  | .byte => base
  | .word => base + 1
  | .dword => base + 2

def code : Op → UInt8
  | noop => 0x00
  | binary .add w => ofWidth 0x01 w
  | binary .sub w => ofWidth 0x04 w
  | binary .div w => ofWidth 0x07 w
  | binary .mod w => ofWidth 0x0a w
  | binary .mul w => ofWidth 0x0d w
  | binary .and w => ofWidth 0x10 w
  | binary .or w => ofWidth 0x13 w
  | binary .xor w => ofWidth 0x16 w
  | bitwise w => ofWidth 0x19 w
  | binary .shl w => ofWidth 0x1c w
  | binary .shr w => ofWidth 0x1f w
  | ld w => ofWidth 0x22 w
  | ldValue w => ofWidth 0x25 w
  | st w => ofWidth 0x28 w
  | pop => 0x2b
  | call => 0x2c
  | ldValueStack w => ofWidth 0x2d w

/-- How many bytes of the text an operation reads behind its code. -/
def operandBytes : Op → ℕ
  | ld w => w.bytes
  | ldValue _ => 4
  | call => 1
  | _ => 0

end Op

/-- The lowest `count` bytes of a word, as `FINSH_SET16` and `FINSH_SET32` write them. -/
def bytesOf : ℕ → ℕ → List UInt8
  | 0, _ => []
  | count + 1, value => UInt8.ofNat value :: bytesOf count (value / 256)

structure Instr where
  op : Op
  operand : UInt32

namespace Instr

def encode (instr : Instr) : List UInt8 :=
  instr.op.code :: bytesOf instr.op.operandBytes instr.operand.toNat

def size (instr : Instr) : ℕ :=
  instr.op.operandBytes + 1

end Instr

/-- An operation without an operand. -/
def plain (op : Op) : Instr :=
  ⟨op, 0⟩

/-! ## The type check -/

/-- What `finsh_type_check` passes to the child of a node. -/
def childAddress (type : NodeType) (isAddr : Bool) : Bool :=
  match type with
  | .assign | .increment .preinc | .increment .predec | .getaddr => true
  | .getvalue => false
  | _ => isAddr

/-- Every node but a system call takes the attribute. -/
def withAddress (info : NodeInfo) (isAddr : Bool) : Bool :=
  match info.type with
  | .id (.syscall _ _) => info.address
  | _ => info.address || isAddr

/-- The data type of a node without children. -/
def leafDataType (info : NodeInfo) : UInt8 :=
  match info.type with
  | .id (.var _ type) | .id (.sysvar _ type _) => type.dataType.getD info.dataType
  | .valueChar _ => dataTypeByte
  | .valueInt _ | .valueLong _ | .valueString _ | .valueNull _ => dataTypeDword
  | _ => info.dataType

/-- A node takes the data type of its child. -/
def nodeDataType (info : NodeInfo) : Node → UInt8
  | .nil => leafDataType info
  | .node child _ _ => child.dataType

/-- `finsh_type_check`. -/
def typeCheck : Node → Bool → Node
  | .nil, _ => .nil
  | .node info child sibling, isAddr =>
    let child := typeCheck child (childAddress info.type isAddr)
    let sibling := typeCheck sibling false
    .node ⟨info.type, nodeDataType info child, withAddress info isAddr⟩ child sibling

/-! ## Code generation -/

/-- The place of `value` in `struct finsh_var`, behind the name and the type. -/
def valueOffset : UInt32 := 20

/-- The code of a variable: its address or its value. -/
def loadSymbol (address : Bool) (type : FinshType) (pointer : UInt32) : List Instr :=
  match type.loadWidth with
  | none => []
  | some w => [if address then ⟨.ld .dword, pointer⟩ else ⟨.ldValue w, pointer⟩]

/-- An operation for the width of a data type, or nothing. -/
def sized (dataType : UInt8) (code : Width → List Instr) : List Instr :=
  match widthOf dataType with
  | none => []
  | some w => code w

/-- Store a value and load it again. -/
def storeCode (w : Width) : List Instr :=
  [plain (.st w), plain (.ldValueStack w)]

/-- The four operators on the variable at `pointer`; the prefix operators find its address on the
stack. -/
def incrementCode (op : IncrementOp) (pointer : UInt32) (w : Width) : List Instr :=
  match op with
  | .preinc =>
    [⟨.ldValue w, pointer⟩, ⟨.ld w, 1⟩, plain (.binary .add w), plain (.st w),
      plain (.ldValueStack .dword)]
  | .predec =>
    [⟨.ldValue w, pointer⟩, ⟨.ld w, 1⟩, plain (.binary .sub w), plain (.st w),
      plain (.ldValueStack .dword)]
  | .inc =>
    [⟨.ld .dword, pointer⟩, ⟨.ldValue w, pointer⟩, ⟨.ld w, 1⟩, plain (.binary .add w),
      plain (.st w), plain .pop]
  | .dec =>
    [⟨.ld .dword, pointer⟩, ⟨.ldValue w, pointer⟩, ⟨.ld w, 1⟩, plain (.binary .sub w),
      plain (.st w), plain .pop]

/-- `id.var`, the pointer that all kinds of identifiers share. -/
def Symbol.descriptor : Symbol → UInt32
  | var descriptor _ => descriptor
  | sysvar descriptor _ _ => descriptor
  | syscall descriptor _ => descriptor

/-- The code of a node behind the code of its child. -/
def compileNode (info : NodeInfo) (child : Node) : List Instr :=
  match info.type with
  | .id (.syscall _ func) => [⟨.ld .dword, func⟩]
  | .id (.sysvar _ type pointer) => loadSymbol info.address type pointer
  | .id (.var descriptor type) => loadSymbol info.address type (descriptor + valueOffset)
  | .valueChar value => [⟨.ld .byte, value.toUInt32⟩]
  | .valueInt value | .valueLong value => [⟨.ld .dword, value⟩]
  | .valueString ptr | .valueNull ptr => [⟨.ld .dword, ptr⟩]
  | .binary op => sized info.dataType fun w => [plain (.binary op w)]
  | .bitwise => sized info.dataType fun w => [plain (.bitwise w)]
  | .func =>
    match child with
    | .nil => []
    | .node _ _ sibling => [⟨.call, (UInt8.ofNat sibling.siblings).toUInt32⟩]
  | .assign =>
    match child with
    | .node ⟨.id _, dataType, _⟩ _ _ => sized dataType storeCode
    | .node ⟨.getvalue, dataType, _⟩ _ _ => sized (dataType &&& 0x0f) storeCode
    | _ => []
  | .increment op =>
    match child with
    | .node ⟨.id symbol, _, _⟩ _ _ =>
      sized info.dataType (incrementCode op (symbol.descriptor + valueOffset))
    | _ => []
  | .null => List.replicate 4 (plain .noop)
  | .getvalue =>
    if info.address then [] else sized info.dataType fun w => [plain (.ldValueStack w)]
  | .getaddr | .cast => []

/-- `finsh_compile`. -/
def compile : Node → List Instr
  | .nil => []
  | .node info child sibling => compile child ++ compileNode info child ++ compile sibling

/-- `pop current value`, in front of a further statement. -/
def popBefore : Node → List Instr
  | .nil => []
  | .node _ _ _ => [plain .pop]

/-- The loop of `finsh_compiler_run` over the statements. -/
def compileStatements : Node → List Instr
  | .nil => []
  | .node info child sibling =>
    compile (.node info child .nil) ++ popBefore sibling ++ compileStatements sibling

/-- `finsh_compiler_run`. -/
def compilerRun (tree : Node) : List Instr :=
  compileStatements (typeCheck tree false)

/-- What it writes to the text segment. -/
def codeText (code : List Instr) : List UInt8 :=
  code.flatMap Instr.encode

end RtThread.Finsh
