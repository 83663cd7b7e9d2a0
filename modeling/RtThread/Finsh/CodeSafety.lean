import Mathlib.Tactic.Linarith
import RtThread.Finsh.Vm

set_option linter.all false

/-!
# The size and the stack of compiled lines

Nothing is checked while code is written to `text_segment`, and a tree of sixteen nodes can
need more bytes than there are.  The stack never grows too high, but a variable that is not
loaded (`void`, `void *`) leaves an operator, a call or the end of a statement without its
value.  Both are recursions over the tree, and a line is safe if and only if neither happens.
-/

namespace RtThread.Finsh

/-! ## Running a list of instructions -/

theorem operandOf_bytesOf (count value : ℕ) :
    operandOf (bytesOf count value) = value % 256 ^ count := by
  induction count generalizing value with
  | zero => simp [bytesOf, operandOf, Nat.mod_one]
  | succ count ih =>
    rw [bytesOf, operandOf, ih, UInt8.toNat_ofNat', show (256 : ℕ) ^ (count + 1) =
      256 * 256 ^ count from pow_succ' _ _]
    exact Nat.mod_mul.symm

theorem length_bytesOf (count value : ℕ) : (bytesOf count value).length = count := by
  induction count generalizing value with
  | zero => rfl
  | succ count ih => rw [bytesOf, List.length_cons, ih]

theorem length_encode (instr : Instr) : instr.encode.length = instr.size := by
  rw [Instr.encode, List.length_cons, length_bytesOf, Instr.size]

theorem opTable_code (op : Op) : opTable[op.code.toNat]? = some op := by
  cases op with
  | noop | pop | call => rfl
  | binary op w => cases op <;> cases w <;> rfl
  | bitwise w | ld w | ldValue w | st w | ldValueStack w => cases w <;> rfl

/-- The operand fits into the bytes that are written for it. -/
def Instr.Fits (instr : Instr) : Prop :=
  instr.operand.toNat < 256 ^ instr.op.operandBytes

theorem plain_fits {op : Op} : (plain op).Fits :=
  Nat.pow_pos (by decide)

def runCode (syscall : Syscall) (code : List Instr) (vm : Vm) : Vm :=
  code.foldl (fun vm instr => exec syscall instr vm) vm

theorem runCode_append (syscall : Syscall) (first second : List Instr) (vm : Vm) :
    runCode syscall (first ++ second) vm = runCode syscall second (runCode syscall first vm) :=
  List.foldl_append

theorem vmRun_encode (syscall : Syscall) {instr : Instr} (hfits : instr.Fits) (text : List UInt8)
    (vm : Vm) :
    vmRun syscall (instr.encode ++ text) vm = vmRun syscall text (exec syscall instr vm) := by
  have hlen := length_bytesOf instr.op.operandBytes instr.operand.toNat
  rw [Instr.encode, List.cons_append, vmRun, opTable_code]
  dsimp only
  rw [List.drop_left' hlen, List.take_left' hlen, operandOf_bytesOf, Nat.mod_eq_of_lt hfits,
    UInt32.ofNat_toNat]

theorem vmRun_codeText (syscall : Syscall) {code : List Instr} (hfits : ∀ instr ∈ code, instr.Fits)
    (text : List UInt8) (vm : Vm) :
    vmRun syscall (codeText code ++ text) vm = vmRun syscall text (runCode syscall code vm) := by
  induction code generalizing vm with
  | nil => rfl
  | cons instr code ih =>
    obtain ⟨hinstr, hcode⟩ := List.forall_mem_cons.1 hfits
    rw [codeText, List.flatMap_cons, List.append_assoc, vmRun_encode syscall hinstr]
    exact ih hcode _

theorem vmRun_zeros (syscall : Syscall) (count : ℕ) (vm : Vm) :
    vmRun syscall (List.replicate count 0) vm = vm := by
  induction count with
  | zero => rw [List.replicate_zero, vmRun]
  | succ count ih =>
    rw [List.replicate_succ, vmRun]
    exact ih

/-! ## What code does to the stack -/

/-- Take values from a stack, if they are there. -/
def take (count depth : ℕ) : Option ℕ :=
  if count ≤ depth then some (depth - count) else none

/-- From every depth of the stack, the code ends at the depth that `supply` gives and stays inside
the stack, or it goes below the base where `supply` has nothing. -/
structure Behaves (code : List Instr) (supply : ℕ → Option ℕ) (rise parameters : ℕ) : Prop where
  supplied : ∀ (syscall : Syscall) (vm : Vm) (depth after : ℕ), vm.sp = depth →
    supply depth = some after → (runCode syscall code vm).sp = after ∧ after ≤ depth + rise ∧
      (0 ≤ vm.lowest → 0 ≤ (runCode syscall code vm).lowest) ∧
      (runCode syscall code vm).highest ≤ max vm.highest (depth + rise : ℕ) ∧
      (runCode syscall code vm).parameters ≤ max vm.parameters parameters
  missing : ∀ (syscall : Syscall) (vm : Vm) (depth : ℕ), vm.sp = depth →
    supply depth = none → (runCode syscall code vm).lowest < 0

/-- Where the stack is when `OP_call` has taken its parameters and the function. -/
theorem popParameters_marks (count : ℕ) (vm : Vm) :
    ((vm.move (-1)).popParameters count).2.sp = vm.sp - 1 - count ∧
      ((vm.move (-1)).popParameters count).2.lowest = min vm.lowest (vm.sp - 1 - count) ∧
      ((vm.move (-1)).popParameters count).2.highest = max vm.highest (vm.sp - 1) ∧
      ((vm.move (-1)).popParameters count).2.parameters = vm.parameters := by
  induction count generalizing vm with
  | zero => simp [Vm.popParameters, Vm.move, Int.sub_eq_add_neg]
  | succ count ih =>
    obtain ⟨hsp, hlowest, hhighest, hparameters⟩ := ih (vm.move (-1))
    refine ⟨hsp.trans ?_, hlowest.trans ?_, hhighest.trans ?_, hparameters⟩
    · simp only [Vm.move]
      omega
    · simp only [Vm.move]
      omega
    · simp only [Vm.move]
      omega

theorem opCall_marks (syscall : Syscall) (vm : Vm) (count : ℕ) :
    (opCall syscall vm count).sp = vm.sp - count ∧
      (opCall syscall vm count).lowest = min vm.lowest (vm.sp - 1 - count) ∧
      (opCall syscall vm count).highest = max (max vm.highest (vm.sp - 1)) (vm.sp - count) ∧
      (opCall syscall vm count).parameters = max vm.parameters count := by
  obtain ⟨hsp, hlowest, hhighest, hparameters⟩ := popParameters_marks count vm
  simp only [opCall, Vm.push, Vm.move, Vm.set] at *
  rw [hsp, hlowest, hhighest, hparameters]
  refine ⟨by omega, by omega, by omega, rfl⟩

/-! ## Single instructions -/

section Single

variable {op : Op} {operand : UInt32}

theorem Behaves.still
    (hexec : ∀ syscall vm, ∃ stack memory, exec syscall ⟨op, operand⟩ vm =
      { vm with stack := stack, memory := memory }) :
    Behaves [⟨op, operand⟩] some 0 0 where
  supplied syscall vm depth after hdepth hsupply := by
    obtain ⟨stack, memory, heq⟩ := hexec syscall vm
    cases hsupply
    rw [show runCode syscall [⟨op, operand⟩] vm = _ from heq]
    exact ⟨hdepth, le_rfl, id, le_max_left _ _, le_max_left _ _⟩
  missing syscall vm depth hdepth := nofun

/-- An instruction that moves the stack pointer by one step. -/
theorem Behaves.step {supply : ℕ → Option ℕ} {distance : ℤ} {rise : ℕ}
    (hexec : ∀ syscall vm, ∃ stack memory, exec syscall ⟨op, operand⟩ vm =
      { vm.move distance with stack := stack, memory := memory })
    (hsome : ∀ depth after : ℕ, supply depth = some after → (after : ℤ) = depth + distance)
    (hnone : ∀ depth : ℕ, supply depth = none → (depth : ℤ) + distance < 0)
    (hrise : distance ≤ rise) : Behaves [⟨op, operand⟩] supply rise 0 where
  supplied syscall vm depth after hdepth hsupply := by
    obtain ⟨stack, memory, heq⟩ := hexec syscall vm
    have hafter := hsome depth after hsupply
    rw [show runCode syscall [⟨op, operand⟩] vm = _ from heq]
    simp only [Vm.move, hdepth, ← hafter]
    refine ⟨trivial, by omega, fun hlow => by omega, by push_cast; omega, le_max_left _ _⟩
  missing syscall vm depth hdepth hsupply := by
    obtain ⟨stack, memory, heq⟩ := hexec syscall vm
    have hbelow := hnone depth hsupply
    rw [show runCode syscall [⟨op, operand⟩] vm = _ from heq]
    simp only [Vm.move, hdepth]
    omega

theorem Behaves.push
    (hexec : ∀ syscall vm, ∃ stack memory, exec syscall ⟨op, operand⟩ vm =
      { vm.move 1 with stack := stack, memory := memory }) :
    Behaves [⟨op, operand⟩] (fun depth => some (depth + 1)) 1 0 :=
  .step hexec (fun depth after hafter => by rw [← Option.some.inj hafter]; push_cast; rfl) nofun
    le_rfl

theorem Behaves.drop
    (hexec : ∀ syscall vm, ∃ stack memory, exec syscall ⟨op, operand⟩ vm =
      { vm.move (-1) with stack := stack, memory := memory }) :
    Behaves [⟨op, operand⟩] (take 1) 0 0 := by
  refine .step hexec (fun depth after hafter => ?_) (fun depth hnone => ?_) (by decide)
  · rw [take] at hafter
    split_ifs at hafter
    rw [← Option.some.inj hafter]
    omega
  · rw [take] at hnone
    split_ifs at hnone
    omega

theorem behaves_ld (w : Width) : Behaves [⟨.ld w, operand⟩] (fun depth => some (depth + 1)) 1 0 :=
  .push fun _ _ => ⟨_, _, rfl⟩

theorem behaves_ldValue (w : Width) :
    Behaves [⟨.ldValue w, operand⟩] (fun depth => some (depth + 1)) 1 0 :=
  .push fun _ _ => ⟨_, _, rfl⟩

theorem behaves_binary (op : BinaryOp) (w : Width) :
    Behaves [plain (.binary op w)] (take 1) 0 0 :=
  .drop fun _ _ => ⟨_, _, rfl⟩

theorem behaves_st (w : Width) : Behaves [plain (.st w)] (take 1) 0 0 :=
  .drop fun _ _ => ⟨_, _, rfl⟩

theorem behaves_pop : Behaves [plain .pop] (take 1) 0 0 :=
  .drop fun _ _ => ⟨_, _, rfl⟩

theorem behaves_noop : Behaves [plain .noop] some 0 0 :=
  .still fun _ _ => ⟨_, _, rfl⟩

theorem behaves_bitwise (w : Width) : Behaves [plain (.bitwise w)] some 0 0 :=
  .still fun _ _ => ⟨_, _, rfl⟩

theorem behaves_ldValueStack (w : Width) : Behaves [plain (.ldValueStack w)] some 0 0 :=
  .still fun _ _ => ⟨_, _, rfl⟩

/-- A call takes the function, too, and leaves its result. -/
def callSupply (parameters depth : ℕ) : Option ℕ :=
  if parameters < depth then some (depth - parameters) else none

theorem behaves_call {parameters : ℕ} (hoperand : operand.toNat = parameters) :
    Behaves [⟨.call, operand⟩] (callSupply parameters) 0 parameters where
  supplied syscall vm depth after hdepth hsupply := by
    obtain ⟨hsp, hlowest, hhighest, hparameters⟩ := opCall_marks syscall vm parameters
    rw [callSupply] at hsupply
    split_ifs at hsupply with hlt
    have hafter := Option.some.inj hsupply
    rw [show runCode syscall [⟨.call, operand⟩] vm = opCall syscall vm parameters by
        rw [← hoperand]; rfl,
      hsp, hlowest, hhighest, hparameters, hdepth, ← hafter]
    refine ⟨by omega, by omega, fun hlow => by omega, by push_cast; omega, le_rfl⟩
  missing syscall vm depth hdepth hsupply := by
    obtain ⟨-, hlowest, -⟩ := opCall_marks syscall vm parameters
    rw [callSupply] at hsupply
    split_ifs at hsupply with hlt
    rw [show runCode syscall [⟨.call, operand⟩] vm = opCall syscall vm parameters by
        rw [← hoperand]; rfl,
      hlowest, hdepth]
    omega

end Single

/-! ## Composition -/

theorem exec_lowest_le (syscall : Syscall) (instr : Instr) (vm : Vm) :
    (exec syscall instr vm).lowest ≤ vm.lowest := by
  obtain ⟨op, operand⟩ := instr
  cases op with
  | call => exact (opCall_marks syscall vm operand.toNat).2.1.trans_le (min_le_left _ _)
  | noop | bitwise w | ldValueStack w => exact le_rfl
  | _ => exact min_le_left _ _

theorem runCode_lowest_le (syscall : Syscall) (code : List Instr) (vm : Vm) :
    (runCode syscall code vm).lowest ≤ vm.lowest := by
  induction code generalizing vm with
  | nil => exact le_rfl
  | cons instr code ih => exact (ih _).trans (exec_lowest_le syscall instr vm)

section Composition

variable {first second : List Instr} {supply supply' : ℕ → Option ℕ}
  {rise rise' parameters parameters' : ℕ}

theorem Behaves.nil : Behaves [] some 0 0 where
  supplied syscall vm depth after hdepth hsupply := by
    cases hsupply
    exact ⟨hdepth, le_rfl, id, le_max_left _ _, le_max_left _ _⟩
  missing syscall vm depth hdepth := nofun

theorem Behaves.append (hfirst : Behaves first supply rise parameters)
    (hsecond : Behaves second supply' rise' parameters') :
    Behaves (first ++ second) (fun depth => (supply depth).bind supply') (rise + rise')
      (max parameters parameters') where
  supplied syscall vm depth after hdepth hsupply := by
    obtain ⟨middle, hmiddle, hafter⟩ := Option.bind_eq_some_iff.1 hsupply
    obtain ⟨hsp, hle, hlow, hhigh, hparameters⟩ :=
      hfirst.supplied syscall vm depth middle hdepth hmiddle
    obtain ⟨hsp', hle', hlow', hhigh', hparameters'⟩ :=
      hsecond.supplied syscall _ middle after hsp hafter
    rw [runCode_append]
    refine ⟨hsp', by omega, fun h => hlow' (hlow h), ?_, by omega⟩
    omega
  missing syscall vm depth hdepth hsupply := by
    rw [runCode_append]
    cases hmiddle : supply depth with
    | none =>
      exact (runCode_lowest_le _ _ _).trans_lt (hfirst.missing syscall vm depth hdepth hmiddle)
    | some middle =>
      rw [hmiddle] at hsupply
      exact hsecond.missing syscall _ middle
        (hfirst.supplied syscall vm depth middle hdepth hmiddle).1 hsupply

theorem Behaves.mono (hcode : Behaves first supply rise parameters) (hrise : rise ≤ rise')
    (hparameters : parameters ≤ parameters') : Behaves first supply rise' parameters' where
  supplied syscall vm depth after hdepth hsupply := by
    obtain ⟨hsp, hle, hlow, hhigh, hmost⟩ :=
      hcode.supplied syscall vm depth after hdepth hsupply
    refine ⟨hsp, by omega, hlow, ?_, by omega⟩
    omega
  missing := hcode.missing

theorem Behaves.congr (hcode : Behaves first supply rise parameters)
    (hsupply : ∀ depth, supply depth = supply' depth) : Behaves first supply' rise parameters :=
  funext hsupply ▸ hcode

end Composition

/-! ## What is emitted -/

/-- Code of some bytes, with what it does to the stack. -/
structure Emits (code : List Instr) (supply : ℕ → Option ℕ) (rise parameters bytes : ℕ) :
    Prop where
  behaves : Behaves code supply rise parameters
  fits : ∀ instr ∈ code, instr.Fits
  length_eq : (codeText code).length = bytes

section Emission

variable {op : Op} {operand : UInt32} {first second : List Instr} {supply supply' : ℕ → Option ℕ}
  {rise rise' parameters parameters' bytes bytes' : ℕ}

theorem Emits.nil : Emits [] some 0 0 0 :=
  ⟨.nil, nofun, rfl⟩

theorem Emits.append (hfirst : Emits first supply rise parameters bytes)
    (hsecond : Emits second supply' rise' parameters' bytes') :
    Emits (first ++ second) (fun depth => (supply depth).bind supply') (rise + rise')
      (max parameters parameters') (bytes + bytes') where
  behaves := hfirst.behaves.append hsecond.behaves
  fits instr hmem := (List.mem_append.1 hmem).elim (hfirst.fits instr) (hsecond.fits instr)
  length_eq := by
    rw [codeText, List.flatMap_append, List.length_append, ← hfirst.length_eq, ← hsecond.length_eq]
    rfl

theorem Emits.mono (hcode : Emits first supply rise parameters bytes) (hrise : rise ≤ rise')
    (hparameters : parameters ≤ parameters') : Emits first supply rise' parameters' bytes :=
  ⟨hcode.behaves.mono hrise hparameters, hcode.fits, hcode.length_eq⟩

theorem Emits.congr (hcode : Emits first supply rise parameters bytes)
    (hsupply : ∀ depth, supply depth = supply' depth) (hbytes : bytes = bytes') :
    Emits first supply' rise parameters bytes' :=
  ⟨hcode.behaves.congr hsupply, hcode.fits, hcode.length_eq.trans hbytes⟩

theorem Behaves.emits (hbehaves : Behaves [⟨op, operand⟩] supply rise parameters)
    (hfits : operand.toNat < 256 ^ op.operandBytes) :
    Emits [⟨op, operand⟩] supply rise parameters (op.operandBytes + 1) where
  behaves := hbehaves
  fits instr hmem := by
    obtain rfl := List.mem_singleton.1 hmem
    exact hfits
  length_eq := by
    rw [codeText, List.flatMap_singleton]
    exact length_encode _

theorem Behaves.emits_plain (hbehaves : Behaves [plain op] supply rise parameters)
    (hop : op.operandBytes = 0) : Emits [plain op] supply rise parameters 1 :=
  (hbehaves.emits plain_fits).congr (fun _ => rfl) (by rw [hop])

theorem word_fits : operand.toNat < 256 ^ 4 :=
  UInt32.toNat_lt _

theorem emits_ldDword :
    Emits [⟨.ld .dword, operand⟩] (fun depth => some (depth + 1)) 1 0 5 :=
  (behaves_ld .dword).emits word_fits

theorem emits_ldValue (w : Width) :
    Emits [⟨.ldValue w, operand⟩] (fun depth => some (depth + 1)) 1 0 5 :=
  (behaves_ldValue w).emits word_fits

theorem emits_ldOne (w : Width) :
    Emits [⟨.ld w, 1⟩] (fun depth => some (depth + 1)) 1 0 (w.bytes + 1) :=
  (behaves_ld w).emits (by cases w <;> decide)

theorem emits_storeCode (w : Width) : Emits (storeCode w) (take 1) 0 0 2 := by
  refine (((behaves_st w).emits_plain rfl).append
    ((behaves_ldValueStack w).emits_plain rfl)).congr (fun depth => ?_) rfl
  exact Option.bind_fun_some _

end Emission

/-! ## Increments -/

/-- The bytes of `++x` and `--x`, and of `x++` and `x--`. -/
def incrementBytes (op : IncrementOp) (w : Width) : ℕ :=
  match op with
  | .preinc | .predec => w.bytes + 9
  | .inc | .dec => w.bytes + 14

theorem emits_change (op : BinaryOp) (pointer : UInt32) (w : Width) :
    Emits [⟨.ldValue w, pointer⟩, ⟨.ld w, 1⟩, plain (.binary op w), plain (.st w)] some 2 0
      (w.bytes + 8) := by
  have hcode := (@emits_ldValue pointer w).append ((emits_ldOne w).append
    (((behaves_binary op w).emits_plain rfl).append ((behaves_st w).emits_plain rfl)))
  refine (hcode.congr (fun depth => ?_) ?_)
  · simp [take]
  · omega

theorem emits_incrementCode (op : IncrementOp) (pointer : UInt32) (w : Width) :
    Emits (incrementCode op pointer w) some 3 0 (incrementBytes op w) := by
  have hbefore (binary : BinaryOp) := ((emits_change binary pointer w).append
    ((behaves_ldValueStack .dword).emits_plain rfl)).mono (show 2 + 0 ≤ 3 by decide) le_rfl
  have hafter (binary : BinaryOp) := ((@emits_ldDword pointer).append
    ((emits_change binary pointer w).append (behaves_pop.emits_plain rfl))).mono
      (show 1 + (2 + 0) ≤ 3 by decide) le_rfl
  cases op with
  | preinc => exact (hbefore .add).congr (fun depth => rfl) rfl
  | predec => exact (hbefore .sub).congr (fun depth => rfl) rfl
  | inc =>
    refine (hafter .add).congr (fun depth => ?_) ?_
    · simp [take]
    · simp only [incrementBytes]
      omega
  | dec =>
    refine (hafter .sub).congr (fun depth => ?_) ?_
    · simp [take]
    · simp only [incrementBytes]
      omega

/-! ## Nodes -/

/-- The data type of an expression is that of its first leaf. -/
def Node.leading : Node → UInt8
  | nil => dataTypeVoid
  | node info nil _ => leafDataType info
  | node _ (node info child sibling) _ => leading (node info child sibling)

/-- Whether an identifier is loaded. -/
def Symbol.loads : Symbol → Bool
  | var _ type | sysvar _ type _ => type.loadWidth.isSome
  | syscall _ _ => true

/-- The width that an assignment stores. -/
def storedWidth : Node → Option Width
  | .node ⟨.id symbol, dataType, address⟩ child sibling =>
    widthOf (Node.leading (.node ⟨.id symbol, dataType, address⟩ child sibling))
  | .node ⟨.getvalue, dataType, address⟩ child sibling =>
    widthOf (Node.leading (.node ⟨.getvalue, dataType, address⟩ child sibling) &&& 0x0f)
  | _ => none

/-- What the code of a node does with the depth that its children have left. -/
def nodeSupply (info : NodeInfo) (child : Node) : ℕ → Option ℕ :=
  match info.type with
  | .id symbol => if symbol.loads then fun depth => some (depth + 1) else some
  | .valueChar _ | .valueInt _ | .valueLong _ | .valueString _ | .valueNull _ =>
    fun depth => some (depth + 1)
  | .binary _ =>
    if (widthOf (Node.leading (.node info child .nil))).isSome then take 1 else some
  | .func =>
    match child with
    | .nil => some
    | .node _ _ sibling => callSupply sibling.siblings
  | .assign => if (storedWidth child).isSome then take 1 else some
  | _ => some

/-- The bytes of a node, in a context that wants an address or a value. -/
def nodeBytes (info : NodeInfo) (child : Node) (isAddr : Bool) : ℕ :=
  match info.type with
  | .id symbol => if symbol.loads then 5 else 0
  | .valueChar _ => 2
  | .valueInt _ | .valueLong _ | .valueString _ | .valueNull _ => 5
  | .binary _ | .bitwise =>
    if (widthOf (Node.leading (.node info child .nil))).isSome then 1 else 0
  | .func =>
    match child with
    | .nil => 0
    | .node _ _ _ => 2
  | .assign => if (storedWidth child).isSome then 2 else 0
  | .increment op =>
    match child with
    | .node ⟨.id _, _, _⟩ _ _ =>
      ((widthOf (Node.leading (.node info child .nil))).map (incrementBytes op)).getD 0
    | _ => 0
  | .null => 4
  | .getvalue =>
    if info.address ∨ isAddr then 0
    else if (widthOf (Node.leading (.node info child .nil))).isSome then 1 else 0
  | .getaddr | .cast => 0

namespace Node

def supply : Node → ℕ → Option ℕ
  | nil, depth => some depth
  | node info child sibling, depth =>
    (child.supply depth).bind fun depth => (nodeSupply info child depth).bind sibling.supply

def bytes : Node → Bool → ℕ
  | nil, _ => 0
  | node info child sibling, isAddr =>
    child.bytes (childAddress info.type isAddr) + nodeBytes info child isAddr +
      sibling.bytes false

end Node

theorem typeCheck_siblings (tree : Node) (isAddr : Bool) :
    (typeCheck tree isAddr).siblings = tree.siblings := by
  induction tree generalizing isAddr with
  | nil => rfl
  | node info child sibling _ ih =>
    rw [typeCheck, Node.siblings, Node.siblings, ih]

/-- The type check finds the data type of the first leaf. -/
theorem nodeDataType_typeCheck (info : NodeInfo) (child sibling : Node) (isAddr : Bool) :
    nodeDataType info (typeCheck child isAddr) = Node.leading (.node info child sibling) := by
  induction child generalizing info sibling isAddr with
  | nil => rfl
  | node next child sibling' ih _ =>
    rw [typeCheck, nodeDataType, Node.leading]
    exact ih next sibling' _

theorem emits_sized {dataType : UInt8} {code : Width → List Instr} {supply : ℕ → Option ℕ}
    {rise : ℕ} {bytes : Width → ℕ} (hcode : ∀ w, Emits (code w) supply rise 0 (bytes w)) :
    Emits (sized dataType code) (if (widthOf dataType).isSome then supply else some) rise 0
      (((widthOf dataType).map bytes).getD 0) := by
  rw [sized]
  cases widthOf dataType with
  | none => exact Emits.nil.mono (Nat.zero_le _) le_rfl
  | some w => exact hcode w

theorem emits_loadSymbol (address : Bool) (type : FinshType) (pointer : UInt32) :
    Emits (loadSymbol address type pointer)
      (if type.loadWidth.isSome then fun depth => some (depth + 1) else some) 1 0
      (if type.loadWidth.isSome then 5 else 0) := by
  rw [loadSymbol]
  cases type.loadWidth with
  | none => exact Emits.nil.mono (Nat.zero_le _) le_rfl
  | some w =>
    cases address with
    | true => exact emits_ldDword
    | false => exact emits_ldValue w

theorem emits_sized_const {dataType : UInt8} {code : Width → List Instr} {supply : ℕ → Option ℕ}
    {bytes : ℕ} (hcode : ∀ w, Emits (code w) supply 0 0 bytes) :
    Emits (sized dataType code) (if (widthOf dataType).isSome then supply else some) 0 0
      (if (widthOf dataType).isSome then bytes else 0) := by
  refine (emits_sized hcode).congr (fun _ => rfl) ?_
  cases widthOf dataType <;> rfl

/-- A node that has been checked, as the compiler sees it. -/
def checkedInfo (info : NodeInfo) (child : Node) (isAddr : Bool) : NodeInfo :=
  ⟨info.type, nodeDataType info (typeCheck child (childAddress info.type isAddr)),
    withAddress info isAddr⟩

section Nodes

variable {dataType : UInt8} {address isAddr : Bool} {child : Node}

theorem emits_assign :
    Emits (compileNode ⟨.assign, dataType, address⟩ (typeCheck child isAddr))
      (if (storedWidth child).isSome then take 1 else some) 0 0
      (if (storedWidth child).isSome then 2 else 0) := by
  cases child with
  | nil => exact Emits.nil
  | node next child sibling =>
    obtain ⟨type, dataType, address⟩ := next
    have hleading (isAddr : Bool) :=
      nodeDataType_typeCheck ⟨type, dataType, address⟩ child sibling isAddr
    rw [typeCheck]
    cases type with
    | id symbol =>
      rw [hleading]
      exact emits_sized_const emits_storeCode
    | getvalue =>
      rw [hleading]
      exact emits_sized_const emits_storeCode
    | _ => exact Emits.nil

theorem emits_increment (op : IncrementOp) :
    Emits (compileNode (checkedInfo ⟨.increment op, dataType, address⟩ child isAddr)
        (typeCheck child (childAddress (.increment op) isAddr))) some 3 0
      (nodeBytes ⟨.increment op, dataType, address⟩ child isAddr) := by
  have hleading := nodeDataType_typeCheck ⟨.increment op, dataType, address⟩ child .nil
    (childAddress (.increment op) isAddr)
  rw [checkedInfo]
  rw [hleading]
  cases child with
  | nil => exact Emits.nil.mono (Nat.zero_le _) le_rfl
  | node next child sibling =>
    obtain ⟨type, dataType, address⟩ := next
    cases type with
    | id symbol =>
      refine (emits_sized fun w => emits_incrementCode op _ w).congr (fun _ => ?_) rfl
      split_ifs <;> rfl
    | _ => exact Emits.nil.mono (Nat.zero_le _) le_rfl

theorem emits_func (hcount : child.count < 256) :
    Emits (compileNode ⟨.func, dataType, address⟩ (typeCheck child isAddr))
      (nodeSupply ⟨.func, dataType, address⟩ child) 0 child.count
      (nodeBytes ⟨.func, dataType, address⟩ child isAddr) := by
  cases child with
  | nil => exact Emits.nil
  | node next child sibling =>
    have hle := sibling.siblings_le_count
    have hcount' : (Node.node next child sibling).count = child.count + sibling.count + 1 := rfl
    have hoperand : (UInt8.ofNat (typeCheck sibling false).siblings).toUInt32.toNat =
        sibling.siblings := by
      rw [typeCheck_siblings, UInt8.toNat_toUInt32, UInt8.toNat_ofNat', Nat.mod_eq_of_lt]
      omega
    refine ((behaves_call hoperand).emits ?_).mono le_rfl (by omega)
    rw [hoperand]
    change sibling.siblings < 256
    omega

theorem emits_compileNode (info : NodeInfo) (hcount : child.count < 256) :
    Emits (compileNode (checkedInfo info child isAddr)
        (typeCheck child (childAddress info.type isAddr))) (nodeSupply info child) 3 child.count
      (nodeBytes info child isAddr) := by
  obtain ⟨type, dataType, address⟩ := info
  have hleading := nodeDataType_typeCheck ⟨type, dataType, address⟩ child .nil
    (childAddress type isAddr)
  have hnothing {bytes : ℕ} (hbytes : 0 = bytes) : Emits [] some 3 child.count bytes :=
    (Emits.nil.mono (Nat.zero_le _) (Nat.zero_le _)).congr (fun _ => rfl) hbytes
  cases type with
  | id symbol =>
    cases symbol with
    | var descriptor type =>
      exact (emits_loadSymbol _ type _).mono (by decide) (Nat.zero_le _)
    | sysvar descriptor type pointer =>
      exact (emits_loadSymbol _ type _).mono (by decide) (Nat.zero_le _)
    | syscall descriptor func => exact emits_ldDword.mono (by decide) (Nat.zero_le _)
  | valueChar value =>
    refine ((behaves_ld .byte).emits ?_).mono (by decide) (Nat.zero_le _)
    rw [UInt8.toNat_toUInt32]
    exact value.toNat_lt
  | valueInt value => exact emits_ldDword.mono (by decide) (Nat.zero_le _)
  | valueLong value => exact emits_ldDword.mono (by decide) (Nat.zero_le _)
  | valueString ptr => exact emits_ldDword.mono (by decide) (Nat.zero_le _)
  | valueNull ptr => exact emits_ldDword.mono (by decide) (Nat.zero_le _)
  | binary op =>
    change Emits (sized (nodeDataType _ _) fun w => [plain (.binary op w)]) _ _ _ _
    rw [hleading]
    exact (emits_sized_const fun w => (behaves_binary op w).emits_plain rfl).mono (Nat.zero_le _)
      (Nat.zero_le _)
  | bitwise =>
    change Emits (sized (nodeDataType _ _) fun w => [plain (.bitwise w)]) _ _ _ _
    rw [hleading]
    refine ((emits_sized_const fun w => (behaves_bitwise w).emits_plain rfl).mono (Nat.zero_le _)
      (Nat.zero_le _)).congr (fun _ => ?_) rfl
    split_ifs <;> rfl
  | func => exact (emits_func hcount).mono (Nat.zero_le _) le_rfl
  | assign => exact emits_assign.mono (Nat.zero_le _) (Nat.zero_le _)
  | cast => exact hnothing rfl
  | increment op => exact (emits_increment op).mono le_rfl (Nat.zero_le _)
  | getvalue =>
    cases address with
    | true => exact hnothing rfl
    | false =>
      cases isAddr with
      | true => exact hnothing rfl
      | false =>
        change Emits (sized (nodeDataType _ _) fun w => [plain (.ldValueStack w)]) _ _ _ _
        rw [hleading]
        refine ((emits_sized_const fun w => (behaves_ldValueStack w).emits_plain rfl).mono
          (Nat.zero_le _) (Nat.zero_le _)).congr (fun _ => ?_) rfl
        split_ifs <;> rfl
  | getaddr => exact hnothing rfl
  | null =>
    have hnoop := behaves_noop.emits_plain rfl
    exact (hnoop.append (hnoop.append (hnoop.append hnoop))).mono (Nat.zero_le _) (Nat.zero_le _)

end Nodes

/-! ## Trees -/

theorem emits_compile {tree : Node} (isAddr : Bool) (hcount : tree.count < 256) :
    Emits (compile (typeCheck tree isAddr)) tree.supply (3 * tree.count) tree.count
      (tree.bytes isAddr) := by
  induction tree generalizing isAddr with
  | nil => exact Emits.nil
  | node info child sibling ihChild ihSibling =>
    have hcount' : (Node.node info child sibling).count = child.count + sibling.count + 1 := rfl
    have hcode := ((ihChild (childAddress info.type isAddr) (by omega)).append
      (@emits_compileNode isAddr child info (by omega))).append (ihSibling false (by omega))
    refine (hcode.mono (by omega) (by omega)).congr (fun depth => ?_) rfl
    exact Option.bind_assoc _ _ _

/-- In front of a further statement the value of the last one is taken. -/
def popSupply : Node → ℕ → Option ℕ
  | .nil => some
  | .node _ _ _ => take 1

def popBytes : Node → ℕ
  | .nil => 0
  | .node _ _ _ => 1

theorem emits_popBefore (sibling : Node) :
    Emits (popBefore (typeCheck sibling false)) (popSupply sibling) 0 0 (popBytes sibling) := by
  cases sibling with
  | nil => exact Emits.nil
  | node info child sibling => exact behaves_pop.emits_plain rfl

namespace Node

/-- How many values the statements of a line leave on the stack, if none is taken that is not
there. -/
def lineSupply : Node → ℕ → Option ℕ
  | nil, depth => some depth
  | node info child sibling, depth =>
    (child.supply depth).bind fun depth => (nodeSupply info child depth).bind fun depth =>
      (popSupply sibling depth).bind sibling.lineSupply

/-- The bytes of the statements of a line. -/
def lineBytes : Node → ℕ
  | nil => 0
  | node info child sibling =>
    child.bytes (childAddress info.type false) + nodeBytes info child false + popBytes sibling +
      sibling.lineBytes

end Node

theorem compileStatements_typeCheck (info : NodeInfo) (child sibling : Node) :
    compileStatements (typeCheck (.node info child sibling) false) =
      compile (typeCheck child (childAddress info.type false)) ++
          compileNode (checkedInfo info child false)
            (typeCheck child (childAddress info.type false)) ++
        popBefore (typeCheck sibling false) ++ compileStatements (typeCheck sibling false) := by
  rw [typeCheck, compileStatements, compile, compile, List.append_nil]
  rfl

theorem emits_compilerRun {tree : Node} (hcount : tree.count < 256) :
    Emits (compilerRun tree) tree.lineSupply (3 * tree.count) tree.count tree.lineBytes := by
  induction tree with
  | nil => exact Emits.nil
  | node info child sibling _ ih =>
    have hcount' : (Node.node info child sibling).count = child.count + sibling.count + 1 := rfl
    rw [compilerRun, compileStatements_typeCheck]
    have hcode := (((emits_compile (childAddress info.type false)
      (show child.count < 256 by omega)).append
        (@emits_compileNode false child info (by omega))).append
          (emits_popBefore sibling)).append (ih (by omega))
    refine (hcode.mono (by omega) (by omega)).congr (fun depth => ?_) rfl
    simp only [Node.lineSupply, Option.bind_assoc]

/-! ## Safe lines -/

def nodeMax : ℕ := 16

def stackMax : ℕ := 64

def textMax : ℕ := 128

/-- The text segment behind the compiler. -/
def textSegment (code : List Instr) : List UInt8 :=
  codeText code ++ List.replicate (textMax - (codeText code).length) 0

/-- The code of a line fits into the text segment; while it runs, the stack pointer stays in the
stack, and a call has room for its parameters. -/
def CodeSafe (tree : Node) : Prop :=
  (codeText (compilerRun tree)).length ≤ textMax ∧
    ∀ (syscall : Syscall) (stack : ℤ → UInt32) (memory : Memory),
      0 ≤ (vmRun syscall (textSegment (compilerRun tree)) (.start stack memory)).lowest ∧
        (vmRun syscall (textSegment (compilerRun tree)) (.start stack memory)).highest ≤ stackMax ∧
        (vmRun syscall (textSegment (compilerRun tree)) (.start stack memory)).parameters ≤ 16

/-- The bytes of the nodes fit, and every value that is taken has been put there. -/
def FitsSegment (tree : Node) : Prop :=
  tree.lineBytes ≤ textMax ∧ (tree.lineSupply 0).isSome

theorem vmRun_textSegment (syscall : Syscall) {code : List Instr}
    (hfits : ∀ instr ∈ code, instr.Fits) (vm : Vm) :
    vmRun syscall (textSegment code) vm = runCode syscall code vm := by
  rw [textSegment, vmRun_codeText syscall hfits, vmRun_zeros]

theorem codeSafe_iff_fitsSegment {tree : Node} (hcount : tree.count ≤ nodeMax) :
    CodeSafe tree ↔ FitsSegment tree := by
  have hcode := @emits_compilerRun tree (hcount.trans_lt (by decide))
  rw [CodeSafe, FitsSegment, hcode.length_eq]
  refine and_congr_right fun _ => ⟨fun hsafe => ?_, fun hsupply syscall stack memory => ?_⟩
  · by_contra hnone
    have hlow := (hsafe (fun _ _ memory => (0, memory)) (fun _ => 0) (fun _ => 0)).1
    rw [vmRun_textSegment _ hcode.fits] at hlow
    exact absurd hlow (not_le.2 (hcode.behaves.missing _ _ 0 rfl (by simpa using hnone)))
  · obtain ⟨after, hafter⟩ := Option.isSome_iff_exists.1 hsupply
    obtain ⟨-, -, hlow, hhigh, hparameters⟩ :=
      hcode.behaves.supplied syscall (.start stack memory) 0 after rfl hafter
    rw [vmRun_textSegment _ hcode.fits]
    refine ⟨hlow le_rfl, hhigh.trans ?_, hparameters.trans ?_⟩
    · change max (0 : ℤ) ((0 + 3 * tree.count : ℕ) : ℤ) ≤ (64 : ℕ)
      have hnodes : tree.count ≤ 16 := hcount
      push_cast
      omega
    · exact max_le (Nat.zero_le _) hcount

/-- `x++` for a variable of type `int`. -/
def countUp (sibling : Node) : Node :=
  .node ⟨.increment .inc, dataTypeVoid, false⟩
    (.node ⟨.id (.var 0x20000000 .int), dataTypeVoid, false⟩ .nil .nil) sibling

theorem codeSafe_iff_fitsSegment_one : CodeSafe (countUp (countUp .nil)) :=
  (codeSafe_iff_fitsSegment (by decide)).2 ⟨by decide, by decide⟩

/-- Six statements `x++` are twelve nodes, and their code is longer than the text segment. -/
theorem six_increments_overrun :
    (countUp (countUp (countUp (countUp (countUp (countUp .nil)))))).count ≤ nodeMax ∧
      ¬ CodeSafe (countUp (countUp (countUp (countUp (countUp (countUp .nil)))))) := by
  refine ⟨by decide, fun hsafe => ?_⟩
  have hlength := hsafe.1
  rw [(emits_compilerRun (by decide)).length_eq] at hlength
  exact absurd hlength (by decide)

end RtThread.Finsh
