import Mathlib.Algebra.Order.Ring.Nat

set_option linter.all false

/-!
# Syntax trees of the shell

`struct finsh_node` as the tree of its child and its sibling, where `nil` is the null pointer.  The
identifiers come with the descriptor that the symbol tables found for them.
-/

namespace RtThread.Finsh

/-- `enum finsh_type`. -/
inductive FinshType
  | unknown | void | voidp | char | uchar | charp | short | ushort | shortp
  | int | uint | intp | long | ulong | longp

/-- Which table an identifier comes from: a variable lies in its descriptor (`struct finsh_var`), a
system variable where its descriptor (`struct finsh_sysvar`) points to. -/
inductive Symbol
  | var (descriptor : UInt32) (type : FinshType)
  | sysvar (descriptor : UInt32) (type : FinshType) (pointer : UInt32)
  | syscall (descriptor : UInt32) (func : UInt32)

inductive BinaryOp
  | add | sub | div | mod | mul | and | or | xor | shl | shr

/-- `++x`, `--x`, `x++` and `x--`. -/
inductive IncrementOp
  | preinc | predec | inc | dec

/-- `node_type`, with the value or the identifier of the node. -/
inductive NodeType
  | id (symbol : Symbol)
  | valueChar (value : UInt8)
  | valueInt (value : UInt32)
  | valueLong (value : UInt32)
  | valueString (ptr : UInt32)
  | valueNull (ptr : UInt32)
  | binary (op : BinaryOp)
  | bitwise
  | func
  | assign
  | cast
  | increment (op : IncrementOp)
  | getvalue
  | getaddr
  | null

/-- A node without its links.  `address` is the bit `FINSH_IDTYPE_ADDRESS`. -/
structure NodeInfo where
  type : NodeType
  dataType : UInt8
  address : Bool

inductive Node
  | nil
  | node (info : NodeInfo) (child sibling : Node)

namespace Node

/-- How many nodes of the table a tree takes. -/
def count : Node → ℕ
  | nil => 0
  | node _ child sibling => child.count + sibling.count + 1

/-- The length of a chain of siblings. -/
def siblings : Node → ℕ
  | nil => 0
  | node _ _ sibling => sibling.siblings + 1

theorem siblings_le_count (tree : Node) : tree.siblings ≤ tree.count := by
  induction tree with
  | nil => exact le_rfl
  | node info child sibling _ ih =>
    simp only [siblings, count]
    omega

end Node

/-! ## Data types -/

def dataTypeVoid : UInt8 := 0x00

def dataTypeByte : UInt8 := 0x01

def dataTypeWord : UInt8 := 0x02

def dataTypeDword : UInt8 := 0x03

inductive Width
  | byte | word | dword

namespace Width

def bits : Width → ℕ
  | byte => 8
  | word => 16
  | dword => 32

def bytes : Width → ℕ
  | byte => 1
  | word => 2
  | dword => 4

def dataType : Width → UInt8
  | byte => dataTypeByte
  | word => dataTypeWord
  | dword => dataTypeDword

end Width

/-- The width that the code distinguishes by a data type. -/
def widthOf (dataType : UInt8) : Option Width :=
  if dataType = dataTypeByte then some .byte
  else if dataType = dataTypeWord then some .word
  else if dataType = dataTypeDword then some .dword
  else none

theorem widthOf_dataType (w : Width) : widthOf w.dataType = some w := by
  cases w <;> rfl

namespace FinshType

/-- The width that an identifier of a type is loaded with; a pointer to `void` is not loaded. -/
def loadWidth : FinshType → Option Width
  | char | uchar => some .byte
  | short | ushort => some .word
  | int | uint | long | ulong | charp | shortp | intp | longp => some .dword
  | unknown | void | voidp => none

/-- The data type that an identifier gets, where there is a case for its type. -/
def dataType : FinshType → Option UInt8
  | unknown => none
  | void => some dataTypeVoid
  | char | uchar => some dataTypeByte
  | short | ushort => some dataTypeWord
  | int | uint | long | ulong | charp | voidp | shortp | intp | longp => some dataTypeDword

end FinshType

end RtThread.Finsh
