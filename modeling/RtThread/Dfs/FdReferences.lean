import RtThread.Core.Machine
import RtThread.Core.Tally
import RtThread.Dfs.OpenFiles

set_option linter.all false

/-!
# References to descriptors

Any interleaving of `open`, `close`, `read` and `write` calls of `dfs_posix.c`.
Each call takes the lock of the table for `fd_new`, `fd_get` and every `fd_put`,
and works on the descriptor in between.  The reference count is the sum of what
the calls hold and of one reference for an open descriptor, which `close` drops
beside its own; nothing tells a second `close` that this has been done.
-/

namespace RtThread.Dfs

open RtThread.Core

/-- Where a thread stands in its call: after `fd_new` in `open`, between `fd_get` and
the file operation of `open`, `close`, `read` or `write`, or before that many calls of
`fd_put`. -/
inductive FdPc (Ptr : Type*)
  | out
  | allocated (index : ℕ)
  | opening (index : ℕ) (ptr : Ptr)
  | closing (ptr : Ptr)
  | accessing (ptr : Ptr)
  | putting (ptr : Ptr) (left : ℕ)
deriving DecidableEq

/-- The references to a descriptor that a call is going to put. -/
def FdPc.references {Ptr : Type*} [DecidableEq Ptr] (ptr : Ptr) : FdPc Ptr → ℕ
  | .opening _ held | .closing held | .accessing held => if held = ptr then 1 else 0
  | .putting held left => if held = ptr then left else 0
  | .out | .allocated _ => 0

/-- The table, the calls in progress, and the index under which a descriptor is open.
After a null pointer was used the system has stopped. -/
structure FdState (Tid Ptr : Type*) where
  table : FdTable Ptr
  pc : Tid → FdPc Ptr
  opened : Ptr → Option ℕ
  halted : Bool

inductive FdAction (Tid Ptr : Type*)
  | fdNew (tid : Tid) (grown : Bool) (block : Option Ptr)
  | openGet (tid : Tid)
  | openFile (tid : Tid) (env : Environment) (mounts : List Filesystem) (path : CString)
      (answer : Bool)
  | closeGet (tid : Tid) (fd : ℤ)
  | closeFile (tid : Tid) (answer : Bool)
  | accessGet (tid : Tid) (fd : ℤ)
  | accessFile (tid : Tid)
  | fdPut (tid : Tid)

inductive FdEvent (Ptr : Type*)
  | created (index : ℕ)
  | none
  | got (ptr : Ptr)
  | opened (ptr : Ptr)
  | closed (ptr : Ptr)
  | done
  | halts
deriving DecidableEq

namespace FdState

variable {Tid Ptr : Type*} [DecidableEq Tid] [DecidableEq Ptr]

def move (st : FdState Tid Ptr) (tid : Tid) (pc : FdPc Ptr) : FdState Tid Ptr :=
  { st with pc := Function.update st.pc tid pc }

/-- `fd_get` at the start of `close`, `read` and `write`. -/
def get (console : Option ℤ) (st : FdState Tid Ptr) (tid : Tid) (fd : ℤ)
    (next : Ptr → FdPc Ptr) : FdState Tid Ptr × FdEvent Ptr :=
  match fdGet console st.table fd with
  | (table, none) => ({ st with table := table }, .none)
  | (table, some ptr) => ({ st with table := table }.move tid (next ptr), .got ptr)

/-- `dfs_file_close`. -/
def closeFile (st : FdState Tid Ptr) (tid : Tid) (ptr : Ptr) (answer : Bool) :
    FdState Tid Ptr × FdEvent Ptr :=
  if (st.table.memory ptr).fops = false then ({ st with halted := true }, .halts)
  else if answer then
    ({ st with
        table := st.table.store ptr { st.table.memory ptr with path := none }
        opened := Function.update st.opened ptr none }.move tid (.putting ptr 2), .closed ptr)
  else (st.move tid (.putting ptr 1), .done)

/-- `dfs_file_open`; a descriptor that could not be opened is put twice. -/
def openFile (st : FdState Tid Ptr) (tid : Tid) (index : ℕ) (ptr : Ptr) (env : Environment)
    (mounts : List Filesystem) (path : CString) (answer : Bool) :
    FdState Tid Ptr × FdEvent Ptr :=
  match fileOpen env mounts path answer (st.table.memory ptr) with
  | (fd, true) =>
    ({ st with
        table := st.table.store ptr fd
        opened := Function.update st.opened ptr (some index) }.move tid (.putting ptr 1),
      .opened ptr)
  | (fd, false) =>
    ({ st with table := st.table.store ptr fd }.move tid (.putting ptr 2), .done)

end FdState

section Machine

variable {Tid Ptr : Type*} [DecidableEq Tid] [DecidableEq Ptr]

def fdStep (fdMax : ℕ) (console : Option ℤ) (st : FdState Tid Ptr) :
    FdAction Tid Ptr → Option (FdState Tid Ptr × FdEvent Ptr)
  | .fdNew tid grown block =>
    match st.pc tid, block.all fun ptr => !st.table.allocated ptr with
    | .out, true =>
      match fdNew fdMax grown block st.table with
      | (table, none) => some ({ st with table := table }, .none)
      | (table, some index) =>
        some ({ st with table := table }.move tid (.allocated index), .created index)
    | _, _ => none
  | .openGet tid =>
    match st.pc tid with
    | .allocated index =>
      match fdGet console st.table (index + dfsFdOffset : ℕ) with
      -- `fd_put` would be given a null pointer
      | (_, none) => some ({ st with halted := true }, .halts)
      | (table, some ptr) =>
        some ({ st with table := table }.move tid (.opening index ptr), .got ptr)
    | _ => none
  | .openFile tid env mounts path answer =>
    match st.pc tid with
    | .opening index ptr => some (st.openFile tid index ptr env mounts path answer)
    | _ => none
  | .closeGet tid fd =>
    match st.pc tid with
    | .out => some (st.get console tid fd .closing)
    | _ => none
  | .closeFile tid answer =>
    match st.pc tid with
    | .closing ptr => some (st.closeFile tid ptr answer)
    | _ => none
  | .accessGet tid fd =>
    match st.pc tid with
    | .out => some (st.get console tid fd .accessing)
    | _ => none
  | .accessFile tid =>
    match st.pc tid with
    | .accessing ptr =>
      if (st.table.memory ptr).fops = false then some ({ st with halted := true }, .halts)
      else some (st.move tid (.putting ptr 1), .done)
    | _ => none
  | .fdPut tid =>
    match st.pc tid with
    | .putting ptr (left + 1) =>
      some ({ st with table := fdPut st.table ptr }.move tid
        (if left = 0 then .out else .putting ptr left), .done)
    | _ => none

def fdMachine (fdMax : ℕ) (console : Option ℤ) :
    Machine (FdState Tid Ptr) (FdAction Tid Ptr) (FdEvent Ptr) where
  step st act := if st.halted then none else fdStep fdMax console st act

/-- The table after `dfs_init`; no thread is in a call. -/
def noDescriptors (memory : Ptr → DfsFd) (allocated : Ptr → Bool) : FdState Tid Ptr :=
  ⟨⟨[], memory, allocated⟩, fun _ => .out, fun _ => none, false⟩

/-- A descriptor that a call has got and not put for the last time is not freed, a close
that succeeds is the first one of an open descriptor, and a new descriptor is not one
that is open. -/
structure ReferencesKept (fdMax : ℕ) (console : Option ℤ) (st : FdState Tid Ptr)
    (act : FdAction Tid Ptr) : Prop where
  held : ∀ tid ptr, 0 < (st.pc tid).references ptr → st.table.allocated ptr = true
  closedOnce : ∀ next ptr, fdStep fdMax console st act = some (next, .closed ptr) →
    (st.opened ptr).isSome = true
  created : ∀ next index, fdStep fdMax console st act = some (next, .created index) →
    ∀ ptr, st.opened ptr ≠ some index

/-- `close` is called on a descriptor that is open, while no other call closes it. -/
def ClosedByOne (console : Option ℤ) (st : FdState Tid Ptr) : FdAction Tid Ptr → Prop
  | .closeGet _ fd => ∀ ptr ∈ (fdGet console st.table fd).2,
      (st.opened ptr).isSome = true ∧ ∀ other, st.pc other ≠ .closing ptr
  | _ => True

end Machine

/-! ## The references of the calls -/

section Invariant

variable {Tid Ptr : Type*} [Fintype Tid] [DecidableEq Ptr]

/-- The thread is making the descriptor of that index. -/
def FdPc.Makes (pc : FdPc Ptr) (index : ℕ) : Prop :=
  pc = .allocated index ∨ ∃ ptr, pc = .opening index ptr

/-- `owned` marks the descriptors that have the reference of an open descriptor, from
`fd_new` on until they could not be opened or are closed. -/
structure RefInv (st : FdState Tid Ptr) (owned : Ptr → Bool) : Prop where
  unique : ∀ i j ptr, st.table.At i ptr → st.table.At j ptr → i = j
  valid : ∀ i ptr, st.table.At i ptr →
    st.table.allocated ptr = true ∧ (st.table.memory ptr).magic = true
  counted : ∀ i ptr, st.table.At i ptr → (st.table.memory ptr).refCount =
    ((owned ptr).toNat + tally (FdPc.references ptr) st.pc : ℕ)
  positive : ∀ i ptr, st.table.At i ptr → (st.table.memory ptr).refCount ≠ 0
  listed : ∀ tid ptr, 0 < (st.pc tid).references ptr → ∃ i, st.table.At i ptr
  owned_listed : ∀ ptr, owned ptr = true → ∃ i, st.table.At i ptr
  opened : ∀ ptr index, st.opened ptr = some index →
    st.table.At index ptr ∧ owned ptr = true
  making : ∀ tid index, (st.pc tid).Makes index →
    ∃ ptr, st.table.At index ptr ∧ owned ptr = true ∧ st.opened ptr = none
  making_one : ∀ tid other index, (st.pc tid).Makes index → (st.pc other).Makes index →
    tid = other
  opening : ∀ tid index ptr, st.pc tid = .opening index ptr → st.table.At index ptr
  closing : ∀ tid ptr, st.pc tid = .closing ptr → (st.opened ptr).isSome = true
  closing_one : ∀ tid other ptr, st.pc tid = .closing ptr → st.pc other = .closing ptr →
    tid = other

theorem refInv_noDescriptors (memory : Ptr → DfsFd) (allocated : Ptr → Bool) :
    RefInv (noDescriptors memory allocated : FdState Tid Ptr) fun _ => false := by
  constructor <;> simp [noDescriptors, FdTable.At, FdPc.references, FdPc.Makes]

variable [DecidableEq Tid] {st : FdState Tid Ptr} {owned : Ptr → Bool}

variable {tid : Tid} {index : ℕ} {ptr : Ptr}

/-- A thread moves on with one descriptor, and the count follows. -/
theorem RefInv.update (hinv : RefInv st owned) {pc : FdPc Ptr} {fd : DfsFd} (own : Bool)
    (opened : Option ℕ) (hat : st.table.At index ptr) (hmagic : fd.magic = true)
    (hcount : fd.refCount + (owned ptr).toNat + (st.pc tid).references ptr =
      (st.table.memory ptr).refCount + own.toNat + pc.references ptr)
    (hpositive : fd.refCount ≠ 0)
    (hothers : ∀ other, other ≠ ptr → pc.references other = (st.pc tid).references other)
    (hopened : ∀ i, opened = some i → i = index ∧ own = true)
    (hmakes : ∀ i, pc.Makes i → (st.pc tid).Makes i)
    (hmaking : ∀ other, (Function.update st.pc tid pc other).Makes index →
      own = true ∧ opened = none)
    (hopening : ∀ i found, pc = .opening i found → i = index ∧ found = ptr)
    (hclosing : ∀ other, Function.update st.pc tid pc other = .closing ptr → opened.isSome = true)
    (hcloses : ∀ found, pc = .closing found → found = ptr ∧ ∀ other, st.pc other ≠ .closing ptr)
    (halted : Bool) : RefInv ⟨st.table.store ptr fd, Function.update st.pc tid pc,
      Function.update st.opened ptr opened, halted⟩ (Function.update owned ptr own) := by
  have htally := tally_update (FdPc.references ptr) st.pc tid pc
  have htallyOther : ∀ other, other ≠ ptr →
      tally (FdPc.references other) (Function.update st.pc tid pc) =
        tally (FdPc.references other) st.pc := by
    intro other hne
    have hmove := tally_update (FdPc.references other) st.pc tid pc
    rw [hothers other hne] at hmove
    exact Nat.add_right_cancel hmove
  have hcounted := hinv.counted index ptr hat
  have hmakesOld : ∀ {other i}, (Function.update st.pc tid pc other).Makes i →
      (st.pc other).Makes i := by
    intro other i hmakesNew
    by_cases heq : other = tid
    · subst heq
      rw [Function.update_self] at hmakesNew
      exact hmakes i hmakesNew
    · rwa [Function.update_of_ne heq] at hmakesNew
  constructor
  · exact hinv.unique
  · intro i found hi
    refine ⟨(hinv.valid i found hi).1, ?_⟩
    by_cases heq : found = ptr
    · subst heq
      simpa [FdTable.memory_store_self] using hmagic
    · simpa [FdTable.memory_store_of_ne heq] using (hinv.valid i found hi).2
  · intro i found hi
    by_cases heq : found = ptr
    · subst heq
      simp only [FdTable.memory_store_self, Function.update_self]
      omega
    · simp only [FdTable.memory_store_of_ne heq, Function.update_of_ne heq, htallyOther found heq]
      exact hinv.counted i found hi
  · intro i found hi
    by_cases heq : found = ptr
    · subst heq
      simpa [FdTable.memory_store_self] using hpositive
    · simpa [FdTable.memory_store_of_ne heq] using hinv.positive i found hi
  · intro other found hheld
    by_cases heq : found = ptr
    · exact ⟨index, heq ▸ hat⟩
    · refine hinv.listed other found ?_
      change 0 < (Function.update st.pc tid pc other).references found at hheld
      by_cases hsame : other = tid
      · subst hsame
        rwa [Function.update_self, hothers found heq] at hheld
      · rwa [Function.update_of_ne hsame] at hheld
  · intro found howned
    by_cases heq : found = ptr
    · exact ⟨index, heq ▸ hat⟩
    · rw [Function.update_of_ne heq] at howned
      exact hinv.owned_listed found howned
  · intro found i hi
    change Function.update st.opened ptr opened found = some i at hi
    by_cases heq : found = ptr
    · subst heq
      rw [Function.update_self] at hi
      obtain ⟨rfl, hown⟩ := hopened i hi
      exact ⟨hat, by rw [Function.update_self, hown]⟩
    · rw [Function.update_of_ne heq] at hi
      rw [Function.update_of_ne heq]
      exact hinv.opened found i hi
  · intro other i hmakesNew
    obtain ⟨found, hfound, howned, hclosed⟩ := hinv.making other i (hmakesOld hmakesNew)
    refine ⟨found, hfound, ?_⟩
    change Function.update owned ptr own found = true ∧
      Function.update st.opened ptr opened found = none
    by_cases heq : found = ptr
    · subst heq
      obtain rfl := hinv.unique i index found hfound hat
      rw [Function.update_self, Function.update_self]
      exact hmaking other hmakesNew
    · rw [Function.update_of_ne heq, Function.update_of_ne heq]
      exact ⟨howned, hclosed⟩
  · intro first second i hfirst hsecond
    exact hinv.making_one first second i (hmakesOld hfirst) (hmakesOld hsecond)
  · intro other i found hfound
    change Function.update st.pc tid pc other = .opening i found at hfound
    by_cases heq : other = tid
    · subst heq
      rw [Function.update_self] at hfound
      obtain ⟨rfl, rfl⟩ := hopening i found hfound
      exact hat
    · rw [Function.update_of_ne heq] at hfound
      exact hinv.opening other i found hfound
  · intro other found hfound
    change Function.update st.pc tid pc other = .closing found at hfound
    change (Function.update st.opened ptr opened found).isSome = true
    by_cases hptr : found = ptr
    · subst hptr
      rw [Function.update_self]
      exact hclosing other hfound
    · rw [Function.update_of_ne hptr]
      by_cases heq : other = tid
      · subst heq
        rw [Function.update_self] at hfound
        exact absurd (hcloses found hfound).1 hptr
      · rw [Function.update_of_ne heq] at hfound
        exact hinv.closing other found hfound
  · intro first second found hfirst hsecond
    change Function.update st.pc tid pc first = .closing found at hfirst
    change Function.update st.pc tid pc second = .closing found at hsecond
    by_cases hone : first = tid
    · by_cases htwo : second = tid
      · rw [hone, htwo]
      · rw [hone, Function.update_self] at hfirst
        rw [Function.update_of_ne htwo] at hsecond
        obtain ⟨rfl, hnone⟩ := hcloses found hfirst
        exact absurd hsecond (hnone second)
    · rw [Function.update_of_ne hone] at hfirst
      by_cases htwo : second = tid
      · rw [htwo, Function.update_self] at hsecond
        obtain ⟨rfl, hnone⟩ := hcloses found hsecond
        exact absurd hfirst (hnone first)
      · rw [Function.update_of_ne htwo] at hsecond
        exact hinv.closing_one first second found hfirst hsecond

variable {table : FdTable Ptr}

/-- `fd_new` makes a descriptor that has the reference of an open one. -/
theorem RefInv.added (hinv : RefInv st owned) (hout : st.pc tid = .out)
    (hfree : st.table.allocated ptr = false) (hadded : st.table.Added table index ptr) :
    RefInv ({ st with table := table }.move tid (.allocated index))
      (Function.update owned ptr true) := by
  have hother : ∀ i found, st.table.At i found → found ≠ ptr := by
    rintro i found hat rfl
    rw [(hinv.valid i found hat).1] at hfree
    cases hfree
  have hreferences : ∀ found, tally (FdPc.references found)
      (Function.update st.pc tid (.allocated index)) =
        tally (FdPc.references found) st.pc := by
    intro found
    have hmove := tally_update (FdPc.references found) st.pc tid (.allocated index)
    rw [hout] at hmove
    exact hmove
  have hunheld : ∀ found, (∀ i, ¬st.table.At i found) →
      tally (FdPc.references found) st.pc = 0 := by
    intro found hnone
    refine tally_eq_zero_iff.2 fun other => Nat.eq_zero_of_not_pos fun hheld => ?_
    obtain ⟨i, hat⟩ := hinv.listed other found hheld
    exact hnone i hat
  have hmakesOld : ∀ other i, (Function.update st.pc tid (.allocated index) other).Makes i →
      other = tid ∧ i = index ∨ (st.pc other).Makes i := by
    intro other i hmakes
    by_cases heq : other = tid
    · subst heq
      rw [Function.update_self] at hmakes
      rcases hmakes with hallocated | ⟨_, hopening⟩
      · cases hallocated
        exact Or.inl ⟨rfl, rfl⟩
      · cases hopening
    · rw [Function.update_of_ne heq] at hmakes
      exact Or.inr hmakes
  have hnotMade : ∀ other, ¬(st.pc other).Makes index := by
    intro other hmakes
    obtain ⟨found, hat, -⟩ := hinv.making other index hmakes
    exact hadded.empty found hat
  have hpcOld : ∀ other pc, Function.update st.pc tid (.allocated index) other = pc →
      pc ≠ .allocated index → st.pc other = pc := by
    intro other pc hpc hne
    by_cases heq : other = tid
    · subst heq
      rw [Function.update_self] at hpc
      exact absurd hpc.symm hne
    · rwa [Function.update_of_ne heq] at hpc
  constructor
  · exact hadded.unique hinv.unique hother
  · intro i found hat
    change table.allocated found = true ∧ (table.memory found).magic = true
    rw [hadded.allocated, hadded.memory]
    rcases (hadded.at_iff i found).1 hat with ⟨-, rfl⟩ | hold
    · rw [Function.update_self, Function.update_self]
      exact ⟨rfl, rfl⟩
    · rw [Function.update_of_ne (hother i found hold), Function.update_of_ne (hother i found hold)]
      exact hinv.valid i found hold
  · intro i found hat
    change (table.memory found).refCount = ((Function.update owned ptr true found).toNat +
      tally (FdPc.references found) (Function.update st.pc tid (.allocated index)) : ℕ)
    rw [hadded.memory, hreferences]
    rcases (hadded.at_iff i found).1 hat with ⟨-, rfl⟩ | hold
    · rw [Function.update_self, Function.update_self,
        hunheld found fun j hfound => hother j found hfound rfl]
      rfl
    · rw [Function.update_of_ne (hother i found hold), Function.update_of_ne (hother i found hold)]
      exact hinv.counted i found hold
  · intro i found hat
    change (table.memory found).refCount ≠ 0
    rw [hadded.memory]
    rcases (hadded.at_iff i found).1 hat with ⟨-, rfl⟩ | hold
    · rw [Function.update_self]
      exact one_ne_zero
    · rw [Function.update_of_ne (hother i found hold)]
      exact hinv.positive i found hold
  · intro other found hheld
    change 0 < (Function.update st.pc tid (.allocated index) other).references found at hheld
    have hold : 0 < (st.pc other).references found := by
      by_cases heq : other = tid
      · subst heq
        rw [Function.update_self] at hheld
        exact absurd hheld (lt_irrefl 0)
      · rwa [Function.update_of_ne heq] at hheld
    obtain ⟨i, hat⟩ := hinv.listed other found hold
    exact ⟨i, (hadded.at_iff i found).2 (Or.inr hat)⟩
  · intro found howned
    by_cases heq : found = ptr
    · exact ⟨index, (hadded.at_iff index found).2 (Or.inl ⟨rfl, heq⟩)⟩
    · rw [Function.update_of_ne heq] at howned
      obtain ⟨i, hat⟩ := hinv.owned_listed found howned
      exact ⟨i, (hadded.at_iff i found).2 (Or.inr hat)⟩
  · intro found i hopened
    obtain ⟨hat, howned⟩ := hinv.opened found i hopened
    refine ⟨(hadded.at_iff i found).2 (Or.inr hat), ?_⟩
    rw [Function.update_of_ne (hother i found hat), howned]
  · intro other i hmakes
    rcases hmakesOld other i hmakes with ⟨-, rfl⟩ | hmakes
    · refine ⟨ptr, (hadded.at_iff i ptr).2 (Or.inl ⟨rfl, rfl⟩), Function.update_self .., ?_⟩
      cases hopened : st.opened ptr with
      | none => exact hopened
      | some j => exact absurd rfl (hother j ptr (hinv.opened ptr j hopened).1)
    · obtain ⟨found, hat, howned, hclosed⟩ := hinv.making other i hmakes
      refine ⟨found, (hadded.at_iff i found).2 (Or.inr hat), ?_, hclosed⟩
      rw [Function.update_of_ne (hother i found hat), howned]
  · intro first second i hfirst hsecond
    rcases hmakesOld first i hfirst with ⟨hone, rfl⟩ | hone
    · rcases hmakesOld second i hsecond with ⟨htwo, -⟩ | htwo
      · rw [hone, htwo]
      · exact absurd htwo (hnotMade second)
    · rcases hmakesOld second i hsecond with ⟨-, rfl⟩ | htwo
      · exact absurd hone (hnotMade first)
      · exact hinv.making_one first second i hone htwo
  · intro other i found hopening
    have hold := hinv.opening other i found (hpcOld other _ hopening nofun)
    exact (hadded.at_iff i found).2 (Or.inr hold)
  · intro other found hclosing
    exact hinv.closing other found (hpcOld other _ hclosing nofun)
  · intro first second found hfirst hsecond
    exact hinv.closing_one first second found (hpcOld first _ hfirst nofun)
      (hpcOld second _ hsecond nofun)

/-- The last reference: no other call has one, and the descriptor is not open. -/
theorem RefInv.last (hinv : RefInv st owned) {left : ℕ} (hat : st.table.At index ptr)
    (hpc : st.pc tid = .putting ptr (left + 1)) (hone : (st.table.memory ptr).refCount = 1) :
    left = 0 ∧ owned ptr = false ∧ ∀ other, other ≠ tid → (st.pc other).references ptr = 0 := by
  have hcounted := hinv.counted index ptr hat
  have hmove := tally_update (FdPc.references ptr) st.pc tid .out
  have hheld : (st.pc tid).references ptr = left + 1 := by
    rw [hpc, FdPc.references, if_pos rfl]
  have hout : FdPc.references ptr FdPc.out = 0 := rfl
  have hnone : tally (FdPc.references ptr) (Function.update st.pc tid .out) = 0 := by omega
  refine ⟨by omega, Bool.toNat_eq_zero.1 (by omega), fun other hne => ?_⟩
  have hother := tally_eq_zero_iff.1 hnone other
  rwa [Function.update_of_ne hne] at hother

theorem RefInv.removed (hinv : RefInv st owned) {left : ℕ} (hat : st.table.At index ptr)
    (hpc : st.pc tid = .putting ptr (left + 1)) (hone : (st.table.memory ptr).refCount = 1) :
    RefInv ({ st with table := fdPut st.table ptr }.move tid .out) owned := by
  obtain ⟨rfl, hunowned, hothers⟩ := hinv.last hat hpc hone
  obtain ⟨hentries, hmemory, hallocated⟩ := fdPut_of_one hinv.unique hat hone
  have hpcOld : ∀ {other pc}, Function.update st.pc tid .out other = pc → pc ≠ .out →
      other ≠ tid ∧ st.pc other = pc := by
    intro other pc hother hne
    by_cases heq : other = tid
    · subst heq
      rw [Function.update_self] at hother
      exact absurd hother.symm hne
    · rw [Function.update_of_ne heq] at hother
      exact ⟨heq, hother⟩
  have hmakesOld : ∀ {other i}, (Function.update st.pc tid .out other).Makes i →
      (st.pc other).Makes i := by
    rintro other i (hallocating | ⟨found, hopening⟩)
    · exact Or.inl (hpcOld hallocating nofun).2
    · exact Or.inr ⟨found, (hpcOld hopening nofun).2⟩
  have hreferences : ∀ found, found ≠ ptr →
      tally (FdPc.references found) (Function.update st.pc tid .out) =
        tally (FdPc.references found) st.pc := by
    intro found hne
    have hmove := tally_update (FdPc.references found) st.pc tid .out
    rw [hpc, FdPc.references, if_neg (Ne.symm hne)] at hmove
    exact hmove
  have hheldOld : ∀ other found, 0 < (Function.update st.pc tid .out other).references found →
      found ≠ ptr ∧ 0 < (st.pc other).references found := by
    intro other found hheld
    by_cases heq : other = tid
    · subst heq
      rw [Function.update_self] at hheld
      exact absurd hheld (lt_irrefl 0)
    · rw [Function.update_of_ne heq] at hheld
      refine ⟨?_, hheld⟩
      rintro rfl
      rw [hothers other heq] at hheld
      exact absurd hheld (lt_irrefl 0)
  have hownedOther : ∀ found, owned found = true → found ≠ ptr := by
    rintro found howned rfl
    rw [hunowned] at howned
    cases howned
  constructor
  · intro i j found hi hj
    exact hinv.unique i j found ((hentries i found).1 hi).1 ((hentries j found).1 hj).1
  · intro i found hi
    obtain ⟨hold, hne⟩ := (hentries i found).1 hi
    change (fdPut st.table ptr).allocated found = true ∧
      ((fdPut st.table ptr).memory found).magic = true
    rw [hallocated, Function.update_of_ne hne, hmemory found hne]
    exact hinv.valid i found hold
  · intro i found hi
    obtain ⟨hold, hne⟩ := (hentries i found).1 hi
    change ((fdPut st.table ptr).memory found).refCount = ((owned found).toNat +
      tally (FdPc.references found) (Function.update st.pc tid .out) : ℕ)
    rw [hmemory found hne, hreferences found hne]
    exact hinv.counted i found hold
  · intro i found hi
    obtain ⟨hold, hne⟩ := (hentries i found).1 hi
    change ((fdPut st.table ptr).memory found).refCount ≠ 0
    rw [hmemory found hne]
    exact hinv.positive i found hold
  · intro other found hheld
    obtain ⟨hne, hold⟩ := hheldOld other found hheld
    obtain ⟨i, hi⟩ := hinv.listed other found hold
    exact ⟨i, (hentries i found).2 ⟨hi, hne⟩⟩
  · intro found howned
    obtain ⟨i, hi⟩ := hinv.owned_listed found howned
    exact ⟨i, (hentries i found).2 ⟨hi, hownedOther found howned⟩⟩
  · intro found i hopened
    obtain ⟨hi, howned⟩ := hinv.opened found i hopened
    exact ⟨(hentries i found).2 ⟨hi, hownedOther found howned⟩, howned⟩
  · intro other i hmakes
    obtain ⟨found, hi, howned, hclosed⟩ := hinv.making other i (hmakesOld hmakes)
    exact ⟨found, (hentries i found).2 ⟨hi, hownedOther found howned⟩, howned, hclosed⟩
  · intro first second i hfirst hsecond
    exact hinv.making_one first second i (hmakesOld hfirst) (hmakesOld hsecond)
  · intro other i found hopening
    obtain ⟨hne, hold⟩ := hpcOld hopening nofun
    have hheld : 0 < (Function.update st.pc tid .out other).references found := by
      rw [Function.update_of_ne hne, hold, FdPc.references, if_pos rfl]
      exact one_pos
    exact (hentries i found).2 ⟨hinv.opening other i found hold, (hheldOld other found hheld).1⟩
  · intro other found hclosing
    exact hinv.closing other found (hpcOld hclosing nofun).2
  · intro first second found hfirst hsecond
    exact hinv.closing_one first second found (hpcOld hfirst nofun).2 (hpcOld hsecond nofun).2

/-- A thread moves on with one descriptor that stays as open or closed as it is. -/
theorem RefInv.moved (hinv : RefInv st owned) {pc : FdPc Ptr} {fd : DfsFd}
    (hat : st.table.At index ptr) (hmagic : fd.magic = true)
    (hcount : fd.refCount + (st.pc tid).references ptr =
      (st.table.memory ptr).refCount + pc.references ptr)
    (hpositive : fd.refCount ≠ 0)
    (hothers : ∀ other, other ≠ ptr → pc.references other = (st.pc tid).references other)
    (hmakes : ∀ i, pc.Makes i → (st.pc tid).Makes i)
    (hopening : ∀ i found, pc = .opening i found → i = index ∧ found = ptr)
    (hcloses : ∀ found, pc = .closing found → found = ptr ∧ (st.opened ptr).isSome = true ∧
      ∀ other, st.pc other ≠ .closing ptr) :
    RefInv ({ st with table := st.table.store ptr fd }.move tid pc) owned := by
  have hmaking : ∀ other, (Function.update st.pc tid pc other).Makes index →
      owned ptr = true ∧ st.opened ptr = none := by
    intro other hmakesNew
    have hmakesOld : (st.pc other).Makes index := by
      by_cases heq : other = tid
      · subst heq
        rw [Function.update_self] at hmakesNew
        exact hmakes index hmakesNew
      · rwa [Function.update_of_ne heq] at hmakesNew
    obtain ⟨found, hfound, howned, hclosed⟩ := hinv.making other index hmakesOld
    obtain rfl := FdTable.at_inj hfound hat
    exact ⟨howned, hclosed⟩
  have hclosing : ∀ other, Function.update st.pc tid pc other = .closing ptr →
      (st.opened ptr).isSome = true := by
    intro other hother
    by_cases heq : other = tid
    · subst heq
      rw [Function.update_self] at hother
      exact (hcloses ptr hother).2.1
    · rw [Function.update_of_ne heq] at hother
      exact hinv.closing other ptr hother
  have hupdate := hinv.update (owned ptr) (st.opened ptr) hat hmagic (by omega) hpositive hothers
    (fun i hi => ⟨hinv.unique i index ptr (hinv.opened ptr i hi).1 hat, (hinv.opened ptr i hi).2⟩)
    hmakes hmaking hopening hclosing
    (fun found hfound => ⟨(hcloses found hfound).1, (hcloses found hfound).2.2⟩) st.halted
  rw [Function.update_eq_self, Function.update_eq_self] at hupdate
  exact hupdate

omit [DecidableEq Tid] in
/-- What the invariant says about a table with the same entries, and after a halt. -/
theorem RefInv.same (hinv : RefInv st owned) (hsame : table.Same st.table) (halted : Bool) :
    RefInv { st with table := table, halted := halted } owned := by
  constructor
  · simpa only [hsame.at_iff] using hinv.unique
  · simpa only [hsame.at_iff, hsame.memory, hsame.allocated] using hinv.valid
  · simpa only [hsame.at_iff, hsame.memory] using hinv.counted
  · simpa only [hsame.at_iff, hsame.memory] using hinv.positive
  · simpa only [hsame.at_iff] using hinv.listed
  · simpa only [hsame.at_iff] using hinv.owned_listed
  · simpa only [hsame.at_iff] using hinv.opened
  · simpa only [hsame.at_iff] using hinv.making
  · exact hinv.making_one
  · simpa only [hsame.at_iff] using hinv.opening
  · exact hinv.closing
  · exact hinv.closing_one

variable {console : Option ℤ}

theorem RefInv.got (hinv : RefInv st owned) {fd : ℤ} {pc : FdPc Ptr}
    (hget : fdGet console st.table fd = (table, some ptr))
    (hheld : ∀ other, (st.pc tid).references other = 0)
    (hpc : ∀ other, pc.references other = if ptr = other then 1 else 0)
    (hmakes : ∀ i, pc.Makes i → (st.pc tid).Makes i)
    (hopening : ∀ i found, pc = .opening i found → st.table.At i ptr ∧ found = ptr)
    (hcloses : ∀ found, pc = .closing found → found = ptr ∧ (st.opened ptr).isSome = true ∧
      ∀ other, st.pc other ≠ .closing ptr) :
    RefInv ({ st with table := table }.move tid pc) owned := by
  rcases fdGet_cases hget with ⟨hnone, -⟩ | ⟨index, found, hsome, hat, hmagic, rfl⟩
  · cases hnone
  · cases hsome
    have hcounted := hinv.counted index ptr hat
    refine hinv.moved hat hmagic ?_ ?_ ?_ hmakes ?_ hcloses
    · rw [hheld, hpc, if_pos rfl]
      ring
    · change (st.table.memory ptr).refCount + 1 ≠ 0
      omega
    · intro other hne
      rw [hheld, hpc, if_neg (Ne.symm hne)]
    · intro i found hfound
      obtain ⟨hi, rfl⟩ := hopening i found hfound
      exact ⟨hinv.unique i index found hi hat, rfl⟩

variable {next : FdState Tid Ptr}

theorem RefInv.get (hinv : RefInv st owned) {event : FdEvent Ptr} {fd : ℤ} {pc : Ptr → FdPc Ptr}
    (hout : st.pc tid = .out) (hget : st.get console tid fd pc = (next, event))
    (hpc : ∀ ptr other, (pc ptr).references other = if ptr = other then 1 else 0)
    (hmakes : ∀ ptr i, ¬(pc ptr).Makes i)
    (hcloses : ∀ ptr ∈ (fdGet console st.table fd).2, ∀ found, pc ptr = .closing found →
      found = ptr ∧ (st.opened ptr).isSome = true ∧ ∀ other, st.pc other ≠ .closing ptr) :
    RefInv next owned := by
  rw [FdState.get] at hget
  split at hget
  · rename_i table hnone
    rcases fdGet_cases hnone with ⟨-, rfl⟩ | ⟨_, _, hsome, -⟩
    · cases hget
      exact hinv
    · cases hsome
  · rename_i table ptr hsome
    cases hget
    refine hinv.got hsome (fun _ => by rw [hout]; rfl) (hpc ptr)
      (fun i hi => absurd hi (hmakes ptr i)) ?_ (hcloses ptr (by rw [hsome]; rfl))
    intro i found hfound
    exact absurd (Or.inr ⟨found, hfound⟩) (hmakes ptr i)

omit [DecidableEq Ptr] in
theorem FdPc.not_makes_putting (ptr : Ptr) (left index : ℕ) :
    ¬(FdPc.putting ptr left).Makes index := by
  rintro (hpc | ⟨_, hpc⟩) <;> cases hpc

theorem fileOpen_refCount (env : Environment) (mounts : List Filesystem) (path : CString)
    (answer : Bool) (fd : DfsFd) :
    (fileOpen env mounts path answer fd).1.refCount = fd.refCount ∧
      (fileOpen env mounts path answer fd).1.magic = fd.magic := by
  rw [fileOpen]
  repeat' split
  all_goals exact ⟨rfl, rfl⟩

/-- After the file operation a call has only references to put. -/
theorem RefInv.putting (hinv : RefInv st owned) {fd : DfsFd} (own : Bool) (opened : Option ℕ)
    (left : ℕ) (hat : st.table.At index ptr) (hmagic : fd.magic = (st.table.memory ptr).magic)
    (hrefCount : fd.refCount = (st.table.memory ptr).refCount)
    (hheld : ∀ other, (st.pc tid).references other = if ptr = other then 1 else 0)
    (hleft : (owned ptr).toNat + 1 = own.toNat + left)
    (hopened : ∀ i, opened = some i → i = index ∧ own = true)
    (hmaking : ∀ other, other ≠ tid → ¬(st.pc other).Makes index)
    (hclosing : ∀ other, other ≠ tid → st.pc other = .closing ptr → opened.isSome = true) :
    RefInv ({ st with
        table := st.table.store ptr fd
        opened := Function.update st.opened ptr opened }.move tid (.putting ptr left))
      (Function.update owned ptr own) := by
  have hpositive := hinv.positive index ptr hat
  refine hinv.update own opened hat (hmagic.trans (hinv.valid index ptr hat).2) ?_ ?_ ?_ hopened
    (fun i hmakes => absurd hmakes (FdPc.not_makes_putting ptr left i)) ?_ nofun ?_ nofun
    st.halted
  · rw [hheld, if_pos rfl, hrefCount, FdPc.references, if_pos rfl]
    omega
  · rw [hrefCount]
    exact hpositive
  · intro other hne
    rw [hheld, if_neg (Ne.symm hne), FdPc.references, if_neg (Ne.symm hne)]
  · intro other hmakes
    by_cases heq : other = tid
    · subst heq
      rw [Function.update_self] at hmakes
      exact absurd hmakes (FdPc.not_makes_putting ptr left index)
    · rw [Function.update_of_ne heq] at hmakes
      exact absurd hmakes (hmaking other heq)
  · intro other hother
    by_cases heq : other = tid
    · subst heq
      rw [Function.update_self] at hother
      cases hother
    · rw [Function.update_of_ne heq] at hother
      exact hclosing other heq hother

/-- `dfs_file_open` gives the descriptor its index, or `open` drops the reference of
the open descriptor. -/
theorem RefInv.openFile (hinv : RefInv st owned) (hpc : st.pc tid = .opening index ptr)
    (env : Environment) (mounts : List Filesystem) (path : CString) (answer : Bool) :
    ∃ after, RefInv (st.openFile tid index ptr env mounts path answer).1 after := by
  have hat := hinv.opening tid index ptr hpc
  have hmakes : (st.pc tid).Makes index := Or.inr ⟨ptr, hpc⟩
  obtain ⟨found, hfound, howned, hclosed⟩ := hinv.making tid index hmakes
  obtain rfl := FdTable.at_inj hfound hat
  have hheld : ∀ other, (st.pc tid).references other = if found = other then 1 else 0 := by
    intro other
    rw [hpc, FdPc.references]
  have hothers : ∀ other, other ≠ tid → ¬(st.pc other).Makes index :=
    fun other hne hother => hne (hinv.making_one other tid index hother hmakes)
  have hkept := fileOpen_refCount env mounts path answer (st.table.memory found)
  rw [FdState.openFile]
  generalize fileOpen env mounts path answer (st.table.memory found) = result at hkept
  obtain ⟨fd, success⟩ := result
  cases success with
  | true =>
    exact ⟨_, hinv.putting true (some index) 1 hat hkept.2 hkept.1 hheld
      (by rw [howned]) (fun i hi => ⟨(Option.some.inj hi).symm, rfl⟩) hothers
      (fun _ _ _ => rfl)⟩
  | false =>
    have hclosing : ∀ other, other ≠ tid → st.pc other = .closing found →
        (none : Option ℕ).isSome = true := by
      intro other _ hother
      have hopen := hinv.closing other found hother
      rw [hclosed] at hopen
      exact hopen
    have hput := hinv.putting false none 2 hat hkept.2 hkept.1 hheld (by rw [howned]; rfl)
      (fun _ hi => absurd hi.symm (Option.some_ne_none _)) hothers hclosing
    rw [← hclosed, Function.update_eq_self] at hput
    exact ⟨_, hput⟩

/-- `dfs_file_close` drops the reference of the open descriptor, if it succeeds. -/
theorem RefInv.closeFile (hinv : RefInv st owned) (hpc : st.pc tid = .closing ptr) (answer : Bool) :
    ∃ after, RefInv (st.closeFile tid ptr answer).1 after := by
  have hopen := hinv.closing tid ptr hpc
  obtain ⟨index, hindex⟩ := Option.isSome_iff_exists.1 hopen
  obtain ⟨hat, howned⟩ := hinv.opened ptr index hindex
  have hheld : ∀ other, (st.pc tid).references other = if ptr = other then 1 else 0 := by
    intro other
    rw [hpc, FdPc.references]
  have hmaking : ∀ other, other ≠ tid → ¬(st.pc other).Makes index := by
    intro other _ hmakes
    obtain ⟨found, hfound, -, hclosed⟩ := hinv.making other index hmakes
    obtain rfl := FdTable.at_inj hfound hat
    rw [hindex] at hclosed
    cases hclosed
  rw [FdState.closeFile]
  split
  · exact ⟨owned, hinv.same (.refl _) true⟩
  · split
    · refine ⟨_, hinv.putting false none 2 hat rfl rfl hheld (by rw [howned]; rfl)
        (fun _ hi => absurd hi.symm (Option.some_ne_none _)) hmaking ?_⟩
      intro other hne hother
      exact absurd (hinv.closing_one other tid ptr hother hpc) hne
    · have hput := hinv.putting (owned ptr) (st.opened ptr) 1 hat rfl rfl hheld rfl
        (fun i hi => ⟨hinv.unique i index ptr (hinv.opened ptr i hi).1 hat,
          (hinv.opened ptr i hi).2⟩) hmaking (fun _ _ _ => hopen)
      rw [Function.update_eq_self, Function.update_eq_self, FdTable.store_self] at hput
      exact ⟨owned, hput⟩

/-- `dfs_file_read` and `dfs_file_write` leave the references alone. -/
theorem RefInv.accessed (hinv : RefInv st owned) (hpc : st.pc tid = .accessing ptr) :
    RefInv (st.move tid (.putting ptr 1)) owned := by
  have hheld : ∀ other, (st.pc tid).references other = if ptr = other then 1 else 0 := by
    intro other
    rw [hpc, FdPc.references]
  obtain ⟨index, hat⟩ := hinv.listed tid ptr (by rw [hheld, if_pos rfl]; exact one_pos)
  have hmoved : RefInv ({ st with
      table := st.table.store ptr (st.table.memory ptr) }.move tid (.putting ptr 1)) owned :=
    hinv.moved hat (hinv.valid index ptr hat).2 (by rw [hheld]; rfl) (hinv.positive index ptr hat)
      (fun other _ => by rw [hheld]; rfl) (fun i hi => absurd hi (FdPc.not_makes_putting ptr 1 i))
      nofun nofun
  rw [FdTable.store_self] at hmoved
  exact hmoved

theorem RefInv.fdPut (hinv : RefInv st owned) {left : ℕ}
    (hpc : st.pc tid = .putting ptr (left + 1)) :
    RefInv ({ st with table := Dfs.fdPut st.table ptr }.move tid
      (if left = 0 then .out else .putting ptr left)) owned := by
  have hheld : ∀ other, (st.pc tid).references other = if ptr = other then left + 1 else 0 := by
    intro other
    rw [hpc, FdPc.references]
  obtain ⟨index, hat⟩ := hinv.listed tid ptr (by rw [hheld, if_pos rfl]; omega)
  by_cases hone : (st.table.memory ptr).refCount = 1
  · rw [if_pos (hinv.last hat hpc hone).1]
    exact hinv.removed hat hpc hone
  · have hpositive := hinv.positive index ptr hat
    have hreferences : ∀ other, (if left = 0 then FdPc.out else .putting ptr left).references
      other =
        if ptr = other then left else 0 := by
      intro other
      split
      · rename_i hzero
        rw [hzero, ite_self]
        rfl
      · rfl
    rw [fdPut_of_ne hone]
    refine hinv.moved hat (hinv.valid index ptr hat).2 ?_ ?_ ?_ ?_ ?_ ?_
    · rw [hheld, hreferences, if_pos rfl, if_pos rfl]
      push_cast
      ring
    · change (st.table.memory ptr).refCount - 1 ≠ 0
      omega
    · intro other hne
      rw [hheld, hreferences, if_neg (Ne.symm hne), if_neg (Ne.symm hne)]
    · intro i hmakes
      split at hmakes
      · rcases hmakes with hmakes | ⟨_, hmakes⟩ <;> cases hmakes
      · exact absurd hmakes (FdPc.not_makes_putting ptr left i)
    · intro i found hfound
      split at hfound <;> cases hfound
    · intro found hfound
      split at hfound <;> cases hfound

variable {act : FdAction Tid Ptr}

/-- Every step keeps the count, as long as a descriptor is closed by one call. -/
theorem RefInv.step (hinv : RefInv st owned) {fdMax : ℕ} {event : FdEvent Ptr}
    (hgood : ClosedByOne console st act)
    (hstep : fdStep fdMax console st act = some (next, event)) :
    ∃ after, RefInv next after := by
  cases act with
  | fdNew tid grown block =>
    simp only [fdStep] at hstep
    split at hstep
    · rename_i hout hblock
      split at hstep
      · rename_i table hnew
        rcases fdNew_cases hinv.positive hnew with ⟨-, hsame⟩ | ⟨_, _, hsome, -⟩
        · cases hstep
          exact ⟨owned, hinv.same hsame st.halted⟩
        · cases hsome
      · rename_i table index hnew
        rcases fdNew_cases hinv.positive hnew with ⟨hnone, -⟩ | ⟨_, ptr, hindex, rfl, hadded⟩
        · cases hnone
        · cases hindex
          cases hstep
          exact ⟨_, hinv.added hout (by simpa using hblock) hadded⟩
    · cases hstep
  | openGet tid =>
    simp only [fdStep] at hstep
    split at hstep
    · rename_i index hpc
      obtain ⟨ptr, hat, -⟩ := hinv.making tid index (Or.inl hpc)
      have hget := @fdGet_at _ _ st.table console index ptr hat (hinv.valid index ptr hat).2
      rw [hget] at hstep
      cases hstep
      refine ⟨owned, hinv.got hget (fun _ => by rw [hpc]; rfl) (fun _ => rfl) ?_ ?_ ?_⟩
      · rintro i (hmakes | ⟨_, hmakes⟩)
        · cases hmakes
        · cases hmakes
          exact Or.inl hpc
      · intro i found hfound
        cases hfound
        exact ⟨hat, rfl⟩
      · intro found hfound
        cases hfound
    · cases hstep
  | openFile tid env mounts path answer =>
    simp only [fdStep] at hstep
    split at hstep
    · rename_i index ptr hpc
      have hnext := hinv.openFile hpc env mounts path answer
      rw [Option.some.inj hstep] at hnext
      exact hnext
    · cases hstep
  | closeGet tid fd =>
    simp only [fdStep] at hstep
    split at hstep
    · rename_i hout
      refine ⟨owned, hinv.get hout (Option.some.inj hstep) (fun _ _ => rfl) ?_ ?_⟩
      · rintro ptr i (hmakes | ⟨_, hmakes⟩) <;> cases hmakes
      · intro ptr hptr found hfound
        cases hfound
        exact ⟨rfl, hgood ptr hptr⟩
    · cases hstep
  | closeFile tid answer =>
    simp only [fdStep] at hstep
    split at hstep
    · rename_i ptr hpc
      have hnext := hinv.closeFile hpc answer
      rw [Option.some.inj hstep] at hnext
      exact hnext
    · cases hstep
  | accessGet tid fd =>
    simp only [fdStep] at hstep
    split at hstep
    · rename_i hout
      refine ⟨owned, hinv.get hout (Option.some.inj hstep) (fun _ _ => rfl) ?_ ?_⟩
      · rintro ptr i (hmakes | ⟨_, hmakes⟩) <;> cases hmakes
      · intro ptr _ found hfound
        cases hfound
    · cases hstep
  | accessFile tid =>
    simp only [fdStep] at hstep
    split at hstep
    · rename_i ptr hpc
      split at hstep
      · cases hstep
        exact ⟨owned, hinv.same (.refl _) true⟩
      · cases hstep
        exact ⟨owned, hinv.accessed hpc⟩
    · cases hstep
  | fdPut tid =>
    simp only [fdStep] at hstep
    split at hstep
    · rename_i ptr left hpc
      cases hstep
      exact ⟨owned, hinv.fdPut hpc⟩
    · cases hstep

omit [Fintype Tid] in
/-- A close that succeeds is one of `dfs_file_close`. -/
theorem fdStep_closed {fdMax : ℕ} (hstep : fdStep fdMax console st act = some (next, .closed ptr)) :
    ∃ tid, st.pc tid = .closing ptr := by
  cases act with
  | closeFile tid answer =>
    simp only [fdStep, FdState.closeFile] at hstep
    split at hstep
    · rename_i found hpc
      refine ⟨tid, ?_⟩
      split at hstep
      · cases hstep
      · split at hstep
        · cases hstep
          exact hpc
        · cases hstep
    · cases hstep
  | _ =>
    simp only [fdStep, FdState.openFile, FdState.get] at hstep
    repeat' split at hstep
    all_goals cases hstep

omit [Fintype Tid] in
theorem fdStep_created {fdMax : ℕ}
    (hstep : fdStep fdMax console st act = some (next, .created index)) :
    ∃ grown block table, fdNew fdMax grown block st.table = (table, some index) := by
  cases act with
  | fdNew tid grown block =>
    simp only [fdStep] at hstep
    split at hstep
    · split at hstep
      · cases hstep
      · rename_i table made hnew
        cases hstep
        exact ⟨grown, block, table, hnew⟩
    · cases hstep
  | _ =>
    simp only [fdStep, FdState.openFile, FdState.closeFile, FdState.get] at hstep
    repeat' split at hstep
    all_goals cases hstep

theorem RefInv.kept (hinv : RefInv st owned) (fdMax : ℕ) (console : Option ℤ)
    (act : FdAction Tid Ptr) : ReferencesKept fdMax console st act where
  held := by
    intro tid ptr hheld
    obtain ⟨i, hat⟩ := hinv.listed tid ptr hheld
    exact (hinv.valid i ptr hat).1
  closedOnce := by
    intro next ptr hstep
    obtain ⟨tid, hpc⟩ := fdStep_closed hstep
    exact hinv.closing tid ptr hpc
  created := by
    intro next index hstep ptr hopened
    obtain ⟨grown, block, table, hnew⟩ := fdStep_created hstep
    rcases fdNew_cases hinv.positive hnew with ⟨hnone, -⟩ | ⟨_, made, hindex, -, hadded⟩
    · cases hnone
    · cases hindex
      exact hadded.empty ptr (hinv.opened ptr index hopened).1

/-- Where every descriptor is closed by one call at a time, and only while it is open,
no call loses a descriptor that it has got, every close is the only one of an open, and
no open descriptor is given out again. -/
theorem references_kept {fdMax : ℕ} {console : Option ℤ} {memory : Ptr → DfsFd}
    {allocated : Ptr → Bool} {trace : List (FdAction Tid Ptr × FdEvent Ptr)}
    {last : FdState Tid Ptr}
    (hrun : (fdMachine fdMax console).RunWith (ClosedByOne console)
      (noDescriptors memory allocated) trace last) :
    (fdMachine fdMax console).RunWith (ReferencesKept fdMax console)
        (noDescriptors memory allocated) trace last ∧
      ∀ act, ReferencesKept fdMax console last act := by
  have hpreserve : ∀ (st : FdState Tid Ptr) act next event, (∃ owned, RefInv st owned) →
      ClosedByOne console st act →
        (fdMachine fdMax console).step st act = some (next, event) →
          ∃ owned, RefInv next owned := by
    rintro st act next event ⟨owned, hinv⟩ hgood hstep
    simp only [fdMachine] at hstep
    split at hstep
    · cases hstep
    · exact hinv.step hgood hstep
  have hfirst : ∃ owned, RefInv (noDescriptors memory allocated : FdState Tid Ptr) owned :=
    ⟨_, refInv_noDescriptors memory allocated⟩
  constructor
  · refine hrun.weaken (fun st => ∃ owned, RefInv st owned) hpreserve ?_ hfirst
    rintro st act ⟨owned, hinv⟩ -
    exact hinv.kept fdMax console act
  · obtain ⟨owned, hinv⟩ := hrun.invariant (fun st => ∃ owned, RefInv st owned)
      hpreserve hfirst
    exact hinv.kept fdMax console

instance (console : Option ℤ) (st : FdState Tid Ptr) :
    (act : FdAction Tid Ptr) → Decidable (ClosedByOne console st act)
  | .closeGet _ _ => inferInstanceAs (Decidable (∀ _ ∈ _, _ ∧ ∀ _, _))
  | .fdNew _ _ _ | .openGet _ | .openFile _ _ _ _ _ | .closeFile _ _ | .accessGet _ _
  | .accessFile _ | .fdPut _ => inferInstanceAs (Decidable True)

/-- A file is opened and read while another thread closes it; the reader puts the
last reference. -/
def scheduleReader (ptr : Ptr) (first second : Tid) : List (FdAction Tid Ptr) :=
  [.fdNew first true (some ptr), .openGet first,
    .openFile first plentiful cardTable.entries "/sd/a".toList true, .fdPut first,
    .accessGet second 3, .closeGet first 3, .closeFile first true, .fdPut first, .fdPut first,
    .accessFile second, .fdPut second]

theorem isSome_scheduleReader : ((fdMachine 16 none).exec (ClosedByOne none)
    (noDescriptors (fun _ => .cleared) fun _ => false) (scheduleReader () false true)).isSome =
      true := by
  decide

theorem references_kept_scheduleReader : ∃ trace, ∃ last : FdState Bool Unit,
    (fdMachine 16 none).RunWith (ReferencesKept 16 none)
        (noDescriptors (fun _ => .cleared) fun _ => false) trace last ∧
      trace.map Prod.snd = [.created 0, .got (), .opened (), .done, .got (), .got (), .closed (),
        .done, .done, .done, .done] ∧ last.table.allocated () = false :=
  ⟨_, _, (references_kept (Machine.runWith_of_isSome _ isSome_scheduleReader)).1,
    by decide, by decide⟩

/-- A file is closed by two threads, each of which gets it before the other closes it. -/
def scheduleTwice (ptr : Ptr) (first second : Tid) : List (FdAction Tid Ptr) :=
  [.fdNew first true (some ptr), .openGet first,
    .openFile first plentiful cardTable.entries "/sd/a".toList true, .fdPut first,
    .closeGet first 3, .closeGet second 3, .closeFile first true, .closeFile second true,
    .fdPut first, .fdPut first, .fdPut second]

theorem isSome_scheduleTwice : ((fdMachine 16 none).exec (fun _ _ => True)
    (noDescriptors (fun _ => .cleared) fun _ => false) (scheduleTwice () false true)).isSome =
      true := by
  decide

/-- The file is closed twice, and freed before the second close has put its last
reference. -/
theorem closed_twice : ∃ trace, ∃ last : FdState Bool Unit,
    (fdMachine 16 none).Run (noDescriptors (fun _ => .cleared) fun _ => false) trace last ∧
      trace.map Prod.snd = [.created 0, .got (), .opened (), .done, .got (), .got (), .closed (),
        .closed (), .done, .done, .done] ∧
      0 < (last.pc true).references () ∧ last.table.allocated () = false :=
  ⟨_, _, Machine.runWith_of_isSome _ isSome_scheduleTwice, by decide, by decide,
    by decide⟩

end Invariant

end RtThread.Dfs
