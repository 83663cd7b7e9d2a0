import RtThread.Finsh.CodeSafety

set_option linter.all false

/-!
# Increments of the shell

What `++x`, `--x`, `x++` and `x--` do to the variable and to the stack.  The code always takes the
variable for one that lies in its descriptor, so that it is right for user variables only, and a
postfix operator whose context wants an address leaves the address on the stack.
-/

namespace RtThread.Finsh

open Function

/-! ## Memory -/

section Bytes

variable {memory memory' : Memory} {address other : UInt32} {bytes : List UInt8} {count : ℕ}

/-- How far a byte lies behind an address. -/
def distance (address other : UInt32) : ℕ :=
  (other - address).toNat

theorem distance_self : distance address address = 0 := by
  rw [distance, UInt32.sub_self]
  rfl

theorem distance_next (hne : other ≠ address) :
    distance address other = distance (address + 1) other + 1 := by
  have hne' : other.toNat ≠ address.toNat := fun h => hne (UInt32.toNat.inj h)
  have hother := other.toNat_lt
  have haddress := address.toNat_lt
  simp only [distance, UInt32.toNat_sub, UInt32.toNat_add, UInt32.toNat_one]
  omega

theorem loadBytes_congr
    (hsame : ∀ other, distance address other < count → memory other = memory' other) :
    loadBytes memory count address = loadBytes memory' count address := by
  induction count generalizing address with
  | zero => rfl
  | succ count ih =>
    have hrest : ∀ other, distance (address + 1) other < count →
        memory other = memory' other := fun other hother => by
      apply hsame
      by_cases heq : other = address
      · rw [heq, distance_self]
        exact Nat.succ_pos count
      · rw [distance_next heq]
        exact Nat.succ_lt_succ hother
    rw [loadBytes, loadBytes, ih hrest, hsame address (by rw [distance_self]; exact Nat.succ_pos _)]

theorem storeBytes_apply :
    storeBytes memory address bytes other =
      (bytes[distance address other]?).getD (memory other) := by
  induction bytes generalizing address with
  | nil => rfl
  | cons byte bytes ih =>
    rw [storeBytes]
    by_cases hother : other = address
    · rw [hother, update_self, distance_self]
      rfl
    · rw [update_of_ne hother, ih, distance_next hother, List.getElem?_cons_succ]

theorem loadBytes_storeBytes (hlength : bytes.length < 2 ^ 32) :
    loadBytes (storeBytes memory address bytes) bytes.length address = operandOf bytes := by
  induction bytes generalizing address with
  | nil => rfl
  | cons byte bytes ih =>
    have hrest : loadBytes (storeBytes memory address (byte :: bytes)) bytes.length (address + 1) =
        loadBytes (storeBytes memory (address + 1) bytes) bytes.length (address + 1) := by
      apply loadBytes_congr
      intro other hother
      have hne : other ≠ address := by
        rintro rfl
        have hlast : distance (other + 1) other = 2 ^ 32 - 1 := by
          simp only [distance, UInt32.toNat_sub, UInt32.toNat_add, UInt32.toNat_one]
          omega
        rw [List.length_cons] at hlength
        omega
      rw [storeBytes, update_of_ne hne]
    rw [List.length_cons, loadBytes, hrest, ih ((Nat.lt_succ_self _).trans hlength), storeBytes,
      update_self, operandOf]

theorem loadBytes_lt : loadBytes memory count address < 256 ^ count := by
  induction count generalizing address with
  | zero => exact Nat.one_pos
  | succ count ih =>
    have hbyte := (memory address).toNat_lt
    have hrest := @ih (address + 1)
    rw [loadBytes, pow_succ']
    omega

theorem loadBytes_mod {more : ℕ} (hmore : count ≤ more) :
    loadBytes memory more address % 256 ^ count = loadBytes memory count address := by
  induction count generalizing more address with
  | zero => exact Nat.mod_one _
  | succ count ih =>
    obtain ⟨more, rfl⟩ := Nat.exists_eq_add_one_of_ne_zero (Nat.ne_zero_of_lt hmore)
    have hbyte := (memory address).toNat_lt
    rw [loadBytes, loadBytes, ← @ih (address + 1) more (Nat.le_of_succ_le_succ hmore), pow_succ',
      Nat.mod_mul, Nat.add_mul_mod_self_left, Nat.mod_eq_of_lt hbyte,
      Nat.add_mul_div_left _ _ (by decide), Nat.div_eq_of_lt hbyte, zero_add]

end Bytes

/-! ## Values of a width -/

/-- The value of a variable. -/
def valueAt (w : Width) (memory : Memory) (address : UInt32) : ℕ :=
  loadBytes memory w.bytes address

section Values

variable {w : Width} {memory : Memory} {address other slot value : UInt32}

theorem pow_bits (w : Width) : 2 ^ w.bits = 256 ^ w.bytes := by
  cases w <;> rfl

theorem pow_bits_dvd (w : Width) : 2 ^ w.bits ∣ 2 ^ 32 := by
  cases w <;> decide

theorem bits_pos (w : Width) : 256 ∣ 2 ^ w.bits := by
  cases w <;> decide

theorem slotValue_setSlot : slotValue w (setSlot w slot value) = slotValue w value := by
  rw [setSlot, slotValue, UInt32.toNat_ofNat', Nat.mod_mod_of_dvd _ (pow_bits_dvd w),
    Nat.mul_add_mod_self_right, slotValue, Nat.mod_mod]

theorem setSlot_dword : setSlot .dword slot value = value := by
  apply UInt32.toNat.inj
  have hvalue := value.toNat_lt
  rw [setSlot, UInt32.toNat_ofNat', slotValue]
  simp only [Width.bits]
  omega

theorem slotValue_load : slotValue w (load w memory address) = valueAt w memory address := by
  have hlt : valueAt w memory address < 2 ^ w.bits := by
    rw [pow_bits]
    exact loadBytes_lt
  rw [slotValue, load, UInt32.toNat_ofNat', Nat.mod_mod_of_dvd _ (pow_bits_dvd w)]
  exact Nat.mod_eq_of_lt hlt

theorem slotValue_loadDword :
    slotValue w (load .dword memory address) = valueAt w memory address := by
  have hbytes : w.bytes ≤ Width.dword.bytes := by cases w <;> decide
  rw [slotValue, load, UInt32.toNat_ofNat', Nat.mod_mod_of_dvd _ (pow_bits_dvd w), pow_bits]
  exact loadBytes_mod hbytes

theorem valueAt_store : valueAt w (store w memory address value) address = slotValue w value := by
  have hlength : (bytesOf w.bytes value.toNat).length = w.bytes := length_bytesOf _ _
  have hload := @loadBytes_storeBytes memory address (bytesOf w.bytes value.toNat)
    (by rw [hlength]; cases w <;> decide)
  rw [hlength, operandOf_bytesOf] at hload
  rw [valueAt, store, hload, slotValue, pow_bits]

theorem store_apply (hother : w.bytes ≤ distance address other) :
    store w memory address value other = memory other := by
  rw [store, storeBytes_apply, List.getElem?_eq_none (by rw [length_bytesOf]; exact hother)]
  rfl

theorem valueAt_mod : valueAt w memory address % 256 = (memory address).toNat := by
  have hbytes : 1 ≤ w.bytes := by cases w <;> decide
  have hmod := @loadBytes_mod memory address 1 w.bytes hbytes
  rw [pow_one] at hmod
  rw [valueAt, hmod, loadBytes, loadBytes, mul_zero, add_zero]

end Values

/-! ## What an increment computes -/

/-- The value plus or minus one, modulo the width. -/
def changed (op : IncrementOp) (w : Width) (old : ℕ) : ℕ :=
  match op with
  | .preinc | .inc => (old + 1) % 2 ^ w.bits
  | .predec | .dec => (old + 2 ^ w.bits - 1) % 2 ^ w.bits

def incrementBinary : IncrementOp → BinaryOp
  | .preinc | .inc => .add
  | .predec | .dec => .sub

theorem slotValue_one (w : Width) (slot : UInt32) : slotValue w (setSlot w slot 1) = 1 := by
  rw [slotValue_setSlot]
  cases w <;> rfl

theorem slotValue_binary (op : IncrementOp) (w : Width) {left right : UInt32}
    (hright : slotValue w right = 1) :
    slotValue w (binaryValue (incrementBinary op) w left right) =
      changed op w (slotValue w left) := by
  have hword := right.toNat_lt
  have hadd : slotValue w (left + right) = (slotValue w left + 1) % 2 ^ w.bits := by
    rw [slotValue, UInt32.toNat_add, Nat.mod_mod_of_dvd _ (pow_bits_dvd w), Nat.add_mod]
    rw [slotValue] at hright
    rw [hright]
    rfl
  have hsub : slotValue w (left - right) = (slotValue w left + 2 ^ w.bits - 1) % 2 ^ w.bits := by
    rw [slotValue, UInt32.toNat_sub, Nat.mod_mod_of_dvd _ (pow_bits_dvd w)]
    rw [slotValue] at hright ⊢
    cases w <;> simp only [Width.bits] at hright ⊢ <;> omega
  cases op with
  | preinc | inc => exact hadd
  | predec | dec => exact hsub

theorem changed_mod_ne (op : IncrementOp) (w : Width) (old : ℕ) :
    changed op w old % 256 ≠ old % 256 := by
  cases op <;> cases w <;> simp only [changed, Width.bits] <;> omega

/-! ## Running an increment -/

namespace Vm

variable {vm : Vm} {w : Width} {value : UInt32} {position other by' : ℤ}

theorem slot_move : (vm.move by').slot position = vm.slot (by' + position) := by
  rw [slot, slot, move, add_assoc]

theorem slot_set_self :
    (vm.set position w value).slot position = setSlot w (vm.slot position) value :=
  update_self _ _ _

theorem slot_set_of_ne (hne : other ≠ position) :
    (vm.set position w value).slot other = vm.slot other :=
  update_of_ne (show vm.sp + other ≠ vm.sp + position by omega) _ _

theorem slot_push_top : (vm.push w value).slot (-1) = setSlot w (vm.slot 0) value := by
  rw [push, slot_move]
  exact slot_set_self

theorem slot_push_below (hbelow : position < -1) :
    (vm.push w value).slot position = vm.slot (1 + position) := by
  rw [push, slot_move]
  exact slot_set_of_ne (by omega)

/-- A slot below the stack pointer is kept by a push. -/
theorem stack_push {index : ℤ} (hindex : index < vm.sp) :
    (vm.push w value).stack index = vm.stack index :=
  update_of_ne (by omega) _ _

theorem sp_set : (vm.set position w value).sp = vm.sp := rfl

theorem memory_set : (vm.set position w value).memory = vm.memory := rfl

theorem stack_set_self :
    (vm.set position w value).stack (vm.sp + position) = setSlot w (vm.slot position) value :=
  update_self _ _ _

theorem stack_set {index : ℤ} (hindex : index ≠ vm.sp + position) :
    (vm.set position w value).stack index = vm.stack index :=
  update_of_ne hindex _ _

end Vm

section Exec

variable {syscall : Syscall} {vm : Vm} {w : Width} {value : UInt32}

theorem exec_ld : exec syscall ⟨.ld w, value⟩ vm = vm.push w value := rfl

theorem exec_ldValue :
    exec syscall ⟨.ldValue w, value⟩ vm = vm.push w (load w vm.memory value) := rfl

theorem exec_ldValueStack :
    exec syscall (plain (.ldValueStack w)) vm =
      vm.set (-1) w (load w vm.memory (vm.slot (-1))) := rfl

theorem exec_pop : exec syscall (plain .pop) vm = vm.move (-1) := rfl

theorem runCode_cons (instr : Instr) (code : List Instr) :
    runCode syscall (instr :: code) vm = runCode syscall code (exec syscall instr vm) := rfl

theorem runCode_concat (code : List Instr) (instr : Instr) :
    runCode syscall (code ++ [instr]) vm = exec syscall instr (runCode syscall code vm) :=
  runCode_append syscall code [instr] vm

end Exec

/-- Load a value, change it by one, and store it where the stack says. -/
def changeCode (op : IncrementOp) (pointer : UInt32) (w : Width) : List Instr :=
  [⟨.ldValue w, pointer⟩, ⟨.ld w, 1⟩, plain (.binary (incrementBinary op) w), plain (.st w)]

theorem run_changeCode (op : IncrementOp) (pointer : UInt32) (w : Width) (syscall : Syscall)
    (vm : Vm) :
    ∃ value, slotValue w value = changed op w (valueAt w vm.memory pointer) ∧
      (runCode syscall (changeCode op pointer w) vm).memory =
        store w vm.memory (vm.slot (-1)) value ∧
      (runCode syscall (changeCode op pointer w) vm).sp = vm.sp ∧
      ∀ index < vm.sp, (runCode syscall (changeCode op pointer w) vm).stack index =
        vm.stack index := by
  let loaded := (vm.push w (load w vm.memory pointer)).push w 1
  let value := binaryValue (incrementBinary op) w (loaded.slot (-2)) (loaded.slot (-1))
  have hone : slotValue w (loaded.slot (-1)) = 1 := by
    rw [Vm.slot_push_top]
    exact slotValue_one w _
  have hold : slotValue w (loaded.slot (-2)) = valueAt w vm.memory pointer := by
    rw [Vm.slot_push_below (by decide)]
    change slotValue w ((vm.push w _).slot (-1)) = _
    rw [Vm.slot_push_top, slotValue_setSlot]
    exact slotValue_load
  let added := (loaded.set (-2) w value).move (-1)
  have hrun : runCode syscall (changeCode op pointer w) vm =
      ({ added with memory := store w vm.memory (added.slot (-2)) (added.slot (-1)) } : Vm).move
        (-1) := rfl
  have htop : added.slot (-1) = setSlot w (loaded.slot (-2)) value := by
    rw [Vm.slot_move]
    exact Vm.slot_set_self
  have hbelow : added.slot (-2) = vm.slot (-1) := by
    rw [Vm.slot_move, Vm.slot_set_of_ne (by decide), Vm.slot_push_below (by decide),
      Vm.slot_push_below (by decide)]
    rfl
  have hsp : added.sp = vm.sp + 1 := by
    change vm.sp + 1 + 1 + -1 = vm.sp + 1
    omega
  refine ⟨setSlot w (loaded.slot (-2)) value, ?_, ?_, ?_, ?_⟩
  · rw [slotValue_setSlot, slotValue_binary op w hone, hold]
  · rw [hrun, htop, hbelow]
    rfl
  · rw [hrun]
    change added.sp + -1 = vm.sp
    omega
  · intro index hindex
    rw [hrun]
    change (loaded.set (-2) w value).stack index = _
    have hloaded : loaded.sp = vm.sp + 1 + 1 := rfl
    rw [Vm.stack_set (by omega), Vm.stack_push (by change index < vm.sp + 1; omega),
      Vm.stack_push hindex]

/-- What an increment leaves: a value stored at an address, and one slot more. -/
structure Leaves (w : Width) (target : UInt32) (stored left : ℕ) (vm vm' : Vm) : Prop where
  memory : ∃ value, slotValue w value = stored ∧ vm'.memory = store w vm.memory target value
  sp : vm'.sp = vm.sp + 1
  top : slotValue w (vm'.stack vm.sp) = left
  below : ∀ index < vm.sp, vm'.stack index = vm.stack index

section Runs

variable {w : Width} {place pointer : UInt32} {syscall : Syscall}

/-- The prefix operators: the address is on the stack already. -/
theorem leaves_before (op : IncrementOp) (vm : Vm) :
    Leaves w place (changed op w (valueAt w vm.memory pointer))
      (changed op w (valueAt w vm.memory pointer)) vm
      (runCode syscall (⟨.ld .dword, place⟩ :: (changeCode op pointer w ++
        [plain (.ldValueStack .dword)])) vm) := by
  have hplace : (vm.push .dword place).slot (-1) = place := by
    rw [Vm.slot_push_top, setSlot_dword]
  have hsp' : (vm.push .dword place).sp = vm.sp + 1 := rfl
  have hmemory' : (vm.push .dword place).memory = vm.memory := rfl
  obtain ⟨value, hvalue, hmemory, hsp, hstack⟩ :=
    run_changeCode op pointer w syscall (vm.push .dword place)
  rw [runCode_cons, runCode_concat, exec_ld, exec_ldValueStack]
  rw [hplace, hmemory'] at hmemory
  rw [hmemory'] at hvalue
  rw [hsp'] at hsp hstack
  generalize runCode syscall (changeCode op pointer w) (vm.push .dword place) = stored at *
  have htop : stored.slot (-1) = place := by
    rw [Vm.slot, hsp, hstack _ (by omega), ← hsp']
    exact hplace
  have hslot : vm.sp = stored.sp + -1 := by omega
  refine ⟨⟨value, hvalue, Vm.memory_set.trans hmemory⟩, Vm.sp_set.trans hsp, ?_,
    fun index hlt => ?_⟩
  · rw [hslot, Vm.stack_set_self, setSlot_dword, htop, hmemory, slotValue_loadDword, valueAt_store,
      hvalue]
  · rw [Vm.stack_set (by omega), hstack _ (by omega)]
    exact Vm.stack_push hlt

/-- The postfix operators, behind code that pushes a slot. -/
theorem leaves_after (op : IncrementOp) (vm : Vm) (first : Instr) {width : Width} {value : UInt32}
    (hfirst : exec syscall first vm = vm.push width value) :
    Leaves w pointer (changed op w (valueAt w vm.memory pointer))
      (slotValue w (setSlot width (vm.slot 0) value)) vm
      (runCode syscall (first :: ⟨.ld .dword, pointer⟩ :: (changeCode op pointer w ++
        [plain .pop])) vm) := by
  have hpointer : ((vm.push width value).push .dword pointer).slot (-1) = pointer := by
    rw [Vm.slot_push_top, setSlot_dword]
  have htop : (vm.push width value).stack vm.sp = setSlot width (vm.slot 0) value := by
    rw [← @Vm.slot_push_top vm width value, Vm.slot]
    exact congrArg _ (Int.add_neg_cancel_right vm.sp 1).symm
  have hsp' : ((vm.push width value).push .dword pointer).sp = vm.sp + 1 + 1 := rfl
  have hmemory' : ((vm.push width value).push .dword pointer).memory = vm.memory := rfl
  obtain ⟨new, hnew, hmemory, hsp, hstack⟩ :=
    run_changeCode op pointer w syscall ((vm.push width value).push .dword pointer)
  rw [runCode_cons, runCode_cons, runCode_concat, hfirst, exec_ld, exec_pop]
  rw [hpointer, hmemory'] at hmemory
  generalize runCode syscall (changeCode op pointer w)
    ((vm.push width value).push .dword pointer) = stored at *
  refine ⟨⟨new, hnew, hmemory⟩, ?_, ?_, fun index hlt => ?_⟩
  · change stored.sp + -1 = vm.sp + 1
    omega
  · change slotValue w (stored.stack vm.sp) = _
    rw [hstack _ (by omega), Vm.stack_push (Int.lt_succ vm.sp), htop]
  · change stored.stack index = _
    rw [hstack _ (by omega), Vm.stack_push (by change index < vm.sp + 1; omega), Vm.stack_push hlt]

end Runs

/-! ## Where an increment stands -/

/-- A node with its child in a tree: the context of the tree, and the context of the node. -/
inductive Occurs (info : NodeInfo) (child : Node) : Bool → Node → Bool → Prop
  | here (isAddr : Bool) (sibling : Node) :
      Occurs info child isAddr (.node info child sibling) isAddr
  | inChild {isAddr flag : Bool} {next : NodeInfo} {tree : Node} (sibling : Node)
      (hoccurs : Occurs info child (childAddress next.type isAddr) tree flag) :
      Occurs info child isAddr (.node next tree sibling) flag
  | inSibling {flag : Bool} {tree : Node} (isAddr : Bool) (next : NodeInfo) (before : Node)
      (hoccurs : Occurs info child false tree flag) :
      Occurs info child isAddr (.node next before tree) flag

/-- The code of a node and of its child, in a context. -/
def partCode (info : NodeInfo) (child : Node) (flag : Bool) : List Instr :=
  compile (typeCheck child (childAddress info.type flag)) ++
    compileNode (checkedInfo info child flag) (typeCheck child (childAddress info.type flag))

section Occurrence

variable {info : NodeInfo} {child tree : Node} {isAddr flag : Bool}

theorem Occurs.infix_compile (hoccurs : Occurs info child isAddr tree flag) :
    partCode info child flag <:+: compile (typeCheck tree isAddr) := by
  induction hoccurs with
  | here isAddr sibling =>
    rw [typeCheck, compile]
    exact ⟨[], _, rfl⟩
  | inChild sibling hoccurs ih =>
    rw [typeCheck, compile, List.append_assoc]
    exact ih.trans (List.prefix_append _ _).isInfix
  | inSibling isAddr next before hoccurs ih =>
    rw [typeCheck, compile]
    exact ih.trans (List.suffix_append _ _).isInfix

theorem Occurs.infix_compilerRun (hoccurs : Occurs info child false tree flag) :
    partCode info child flag <:+: compilerRun tree := by
  induction tree with
  | nil => cases hoccurs
  | node next first sibling _ ih =>
    rw [compilerRun, compileStatements_typeCheck]
    cases hoccurs with
    | here => exact ⟨[], _, by rw [List.nil_append, List.append_assoc]; rfl⟩
    | inChild _ hoccurs =>
      rw [List.append_assoc, List.append_assoc]
      exact hoccurs.infix_compile.trans (List.prefix_append _ _).isInfix
    | inSibling _ _ _ hoccurs =>
      exact (ih hoccurs).trans (List.suffix_append _ _).isInfix

end Occurrence

/-! ## Which increments are right -/

/-- The type of a variable and where it lies. -/
def Symbol.storage : Symbol → Option (FinshType × UInt32)
  | var descriptor type => some (type, descriptor + valueOffset)
  | sysvar _ type pointer => some (type, pointer)
  | syscall _ _ => none

def IncrementOp.isPostfix : IncrementOp → Bool
  | preinc | predec => false
  | inc | dec => true

/-- The variable has its new value, no byte outside it has changed, and there is one slot more, with
the old or the new value. -/
structure Incremented (op : IncrementOp) (w : Width) (place : UInt32) (vm vm' : Vm) : Prop where
  value : valueAt w vm'.memory place = changed op w (valueAt w vm.memory place)
  outside : ∀ other, w.bytes ≤ distance place other → vm'.memory other = vm.memory other
  sp : vm'.sp = vm.sp + 1
  top : slotValue w (vm'.stack vm.sp) =
    if op.isPostfix then valueAt w vm.memory place else changed op w (valueAt w vm.memory place)
  below : ∀ index < vm.sp, vm'.stack index = vm.stack index

/-- The operator with its operand, as the parser builds it. -/
def operandNode (symbol : Symbol) (dataType : UInt8) : Node :=
  .node ⟨.id symbol, dataType, false⟩ .nil .nil

/-- The code of an increment of a variable, in a context. -/
def incrementPart (op : IncrementOp) (symbol : Symbol) (dataType dataType' : UInt8) (flag : Bool) :
    List Instr :=
  partCode ⟨.increment op, dataType, false⟩ (operandNode symbol dataType') flag

section Right

variable {symbol : Symbol} {op : IncrementOp} {type : FinshType} {w : Width} {place : UInt32}
  {dataType dataType' : UInt8} {flag : Bool}

theorem incrementCode_eq (pointer : UInt32) :
    incrementCode op pointer w =
      if op.isPostfix then ⟨.ld .dword, pointer⟩ :: (changeCode op pointer w ++ [plain .pop])
      else changeCode op pointer w ++ [plain (.ldValueStack .dword)] := by
  cases op <;> rfl

theorem incrementPart_eq (hstorage : symbol.storage = some (type, place))
    (hwidth : type.loadWidth = some w) :
    incrementPart op symbol dataType dataType' flag =
      (if op.isPostfix = true ∧ flag = false then ⟨.ldValue w, place⟩ else ⟨.ld .dword, place⟩) ::
        incrementCode op (symbol.descriptor + valueOffset) w := by
  have hdata : type.dataType = some w.dataType := by
    cases type <;> cases hwidth <;> rfl
  cases symbol with
  | syscall descriptor func => cases hstorage
  | var descriptor type' =>
    cases hstorage
    cases op <;> cases flag <;>
      simp [incrementPart, partCode, operandNode, typeCheck, compile, compileNode, checkedInfo,
        nodeDataType, leafDataType, withAddress, childAddress, loadSymbol, sized, widthOf_dataType,
        hwidth, hdata, IncrementOp.isPostfix, Symbol.descriptor]
  | sysvar descriptor type' pointer =>
    cases hstorage
    cases op <;> cases flag <;>
      simp [incrementPart, partCode, operandNode, typeCheck, compile, compileNode, checkedInfo,
        nodeDataType, leafDataType, withAddress, childAddress, loadSymbol, sized, widthOf_dataType,
        hwidth, hdata, IncrementOp.isPostfix, Symbol.descriptor]

theorem leaves_incrementPart (pointer : UInt32) (syscall : Syscall) (vm : Vm) :
    Leaves w (if op.isPostfix then pointer else place)
      (changed op w (valueAt w vm.memory pointer))
      (if op.isPostfix then if flag then slotValue w place else valueAt w vm.memory place
        else changed op w (valueAt w vm.memory pointer)) vm
      (runCode syscall ((if op.isPostfix = true ∧ flag = false then ⟨.ldValue w, place⟩
        else ⟨.ld .dword, place⟩) :: incrementCode op pointer w) vm) := by
  rw [incrementCode_eq]
  cases hafter : op.isPostfix with
  | false => exact leaves_before op vm
  | true =>
    cases flag with
    | false =>
      have hleaves := @leaves_after w pointer syscall op vm ⟨.ldValue w, place⟩ w
        (load w vm.memory place) exec_ldValue
      rw [slotValue_setSlot, slotValue_load] at hleaves
      exact hleaves
    | true =>
      have hleaves := @leaves_after w pointer syscall op vm ⟨.ld .dword, place⟩ .dword
        place exec_ld
      rw [setSlot_dword] at hleaves
      exact hleaves

theorem Leaves.incremented {vm vm' : Vm} {left : ℕ}
    (hleaves : Leaves w place (changed op w (valueAt w vm.memory place)) left vm vm')
    (hleft : left =
      if op.isPostfix then valueAt w vm.memory place else changed op w
    (valueAt w vm.memory place)) :
    Incremented op w place vm vm' := by
  obtain ⟨value, hvalue, hmemory⟩ := hleaves.memory
  exact {
    value := by rw [hmemory, valueAt_store, hvalue]
    outside := fun other hother => by rw [hmemory, store_apply hother]
    sp := hleaves.sp
    top := hleaves.top.trans hleft
    below := hleaves.below }

/-- A value that is stored elsewhere does not change the variable, or it changes a byte outside. -/
theorem Leaves.not_incremented {pointer : UInt32} {vm vm' : Vm} {left : ℕ}
    (hleaves : Leaves w pointer (changed op w (valueAt w vm.memory pointer)) left vm vm')
    (hne : pointer ≠ place) : ¬ Incremented op w place vm vm' := by
  obtain ⟨value, hvalue, hmemory⟩ := hleaves.memory
  intro hright
  have hchanged (address : UInt32)
      (h : valueAt w vm'.memory address = changed op w (valueAt w vm.memory address)) :
      vm'.memory address ≠ vm.memory address := fun heq => by
    have hmod := changed_mod_ne op w (valueAt w vm.memory address)
    rw [← h, valueAt_mod, valueAt_mod, heq] at hmod
    exact hmod rfl
  have hpointer : vm'.memory pointer ≠ vm.memory pointer :=
    hchanged pointer (by rw [hmemory, valueAt_store, hvalue])
  have hplace : vm'.memory place ≠ vm.memory place := hchanged place hright.value
  have hinside : distance place pointer < w.bytes := by
    by_contra hge
    exact hpointer (hright.outside pointer (not_lt.1 hge))
  have hinside' : distance pointer place < w.bytes := by
    by_contra hge
    exact hplace (by rw [hmemory]; exact store_apply (not_lt.1 hge))
  have hsum : distance place pointer + distance pointer place = 2 ^ 32 := by
    have hne' : pointer.toNat ≠ place.toNat := fun h => hne (UInt32.toNat.inj h)
    have hpointer := pointer.toNat_lt
    have hplace := place.toNat_lt
    simp only [distance, UInt32.toNat_sub]
    omega
  have hbytes : w.bytes ≤ 4 := by cases w <;> decide
  omega

theorem changed_mod_inj (op : IncrementOp) (w : Width) {old old' : ℕ}
    (hsame : changed op w old = changed op w old') : old % 256 = old' % 256 := by
  cases op <;> cases w <;> simp only [changed, Width.bits] at hsame <;> omega

/-- The prefix operators take the value from where the variable would lie in its descriptor. -/
theorem eq_of_incremented_before {pointer : UInt32}
    (hright : ∀ vm : Vm, ∃ vm' left,
      Leaves w place (changed op w (valueAt w vm.memory pointer)) left vm vm' ∧
        Incremented op w place vm vm') : pointer = place := by
  by_contra hne
  obtain ⟨vm', left, hleaves, hincremented⟩ :=
    hright (.start (fun _ => 0) (update (fun _ => 0) pointer 1))
  obtain ⟨value, hvalue, hmemory⟩ := hleaves.memory
  have hstored := hincremented.value
  rw [hmemory, valueAt_store, hvalue] at hstored
  have hmod := changed_mod_inj op w hstored
  rw [valueAt_mod, valueAt_mod] at hmod
  simp only [Vm.start] at hmod
  rw [update_self, update_of_ne (Ne.symm hne)] at hmod
  exact absurd hmod (by decide)

/-- Some value of the variable differs from its address. -/
theorem exists_valueAt_ne (w : Width) (place : UInt32) :
    ∃ memory : Memory, slotValue w place ≠ valueAt w memory place := by
  refine ⟨fun _ => UInt8.ofNat (place.toNat + 1), fun heq => ?_⟩
  have hmod := congrArg (· % 256) heq
  simp only [valueAt_mod, UInt8.toNat_ofNat'] at hmod
  rw [slotValue, Nat.mod_mod_of_dvd _ (bits_pos w)] at hmod
  omega

/-- The code is right for every state if and only if the variable lies in its descriptor, and its
value is wanted where the operator is a postfix one. -/
theorem incremented_iff (hstorage : symbol.storage = some (type, place))
    (hwidth : type.loadWidth = some w) :
    (∀ syscall vm, Incremented op w place vm
        (runCode syscall (incrementPart op symbol dataType dataType' flag) vm)) ↔
      symbol.descriptor + valueOffset = place ∧ (op.isPostfix = true → flag = false) := by
  have hleaves (syscall : Syscall) (vm : Vm) :=
    @leaves_incrementPart op w place flag (symbol.descriptor + valueOffset) syscall vm
  rw [← @incrementPart_eq symbol op type w place dataType dataType' flag hstorage hwidth] at hleaves
  refine ⟨fun hright => ?_, fun ⟨hplace, hflag⟩ syscall vm => ?_⟩
  · cases hafter : op.isPostfix with
    | false =>
      rw [hafter] at hleaves
      refine ⟨eq_of_incremented_before fun vm => ⟨_, _, hleaves (fun _ _ memory => (0, memory)) vm,
        hright _ vm⟩, nofun⟩
    | true =>
      rw [hafter] at hleaves
      have hplace : symbol.descriptor + valueOffset = place := by
        by_contra hne
        let vm : Vm := .start (fun _ => 0) (fun _ => 0)
        exact (hleaves (fun _ _ memory => (0, memory)) vm).not_incremented hne (hright _ vm)
      refine ⟨hplace, fun _ => ?_⟩
      by_contra hflag
      obtain ⟨memory, hne⟩ := exists_valueAt_ne w place
      have htop := (hright (fun _ _ memory => (0, memory)) (.start (fun _ => 0) memory)).top
      rw [(hleaves _ _).top, hafter] at htop
      simp only [Bool.not_eq_false] at hflag
      rw [hflag] at htop
      exact hne htop
  · have hcode := hleaves syscall vm
    rw [hplace] at hcode
    cases hafter : op.isPostfix with
    | false =>
      rw [hafter] at hcode
      exact hcode.incremented (by rw [hafter]; rfl)
    | true =>
      rw [hafter] at hcode
      rw [hflag hafter] at hcode ⊢
      exact hcode.incremented (by rw [hafter]; rfl)

theorem incrementPart_fits (hstorage : symbol.storage = some (type, place))
    (hwidth : type.loadWidth = some w) :
    ∀ instr ∈ incrementPart op symbol dataType dataType' flag, instr.Fits := by
  rw [incrementPart_eq hstorage hwidth]
  refine List.forall_mem_cons.2 ⟨?_, (emits_incrementCode op _ w).fits⟩
  split_ifs
  · exact word_fits
  · exact word_fits

/-- Every increment in a line is compiled to code of its own, which is right if and only if the
variable lies in its descriptor, and its value is wanted where the operator is a postfix one. -/
theorem increment_right_iff {tree : Node}
    (hoccurs : Occurs ⟨.increment op, dataType, false⟩ (operandNode symbol dataType') false tree
      flag)
    (hstorage : symbol.storage = some (type, place)) (hwidth : type.loadWidth = some w) :
    (∃ before after, compilerRun tree =
        before ++ incrementPart op symbol dataType dataType' flag ++ after) ∧
      (∀ syscall text vm,
        vmRun syscall (codeText (incrementPart op symbol dataType dataType' flag) ++ text) vm =
          vmRun syscall text
            (runCode syscall (incrementPart op symbol dataType dataType' flag) vm)) ∧
      ((∀ syscall vm, Incremented op w place vm
          (runCode syscall (incrementPart op symbol dataType dataType' flag) vm)) ↔
        symbol.descriptor + valueOffset = place ∧ (op.isPostfix = true → flag = false)) := by
  obtain ⟨before, after, hcode⟩ := hoccurs.infix_compilerRun
  exact ⟨⟨before, after, hcode.symm⟩,
    fun syscall text vm => vmRun_codeText syscall (incrementPart_fits hstorage hwidth) text vm,
    incremented_iff hstorage hwidth⟩

end Right

/-- `x++` for a variable of type `int`. -/
theorem increment_right_iff_countUp :
    (∃ before after, compilerRun (countUp .nil) =
        before ++ incrementPart .inc (.var 0x20000000 .int) dataTypeVoid dataTypeVoid false ++
          after) ∧
      ∀ syscall vm, Incremented .inc .dword 0x20000014 vm (runCode syscall
        (incrementPart .inc (.var 0x20000000 .int) dataTypeVoid dataTypeVoid false) vm) := by
  have hoccurs : Occurs ⟨.increment .inc, dataTypeVoid, false⟩
      (operandNode (.var 0x20000000 .int) dataTypeVoid) false (countUp .nil) false :=
    .here false .nil
  obtain ⟨hcompiled, -, hright⟩ := increment_right_iff hoccurs rfl rfl
  exact ⟨hcompiled, hright.2 ⟨rfl, fun _ => rfl⟩⟩

/-- `++x` for a system variable of type `int` that its descriptor points to. -/
theorem sysvar_not_incremented :
    ¬ ∀ syscall vm, Incremented .preinc .dword 0x20000100 vm (runCode syscall
      (incrementPart .preinc (.sysvar 0x08001000 .int 0x20000100) dataTypeVoid dataTypeVoid false)
      vm) := by
  intro hright
  exact absurd ((incremented_iff rfl rfl).1 hright).1 (by decide)

end RtThread.Finsh
