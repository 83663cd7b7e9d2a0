import RtThread.Dfs.MountTable

set_option linter.all false

/-!
# The descriptor table

`fd_alloc`, `fd_new`, `fd_get` and `fd_put` of `dfs.c` over the table of
descriptor pointers and the memory they point into, and what `dfs_file_open`
and `dfs_file_close` of `dfs_file.c` do to one descriptor.  A freed descriptor
keeps its last contents, since a stale pointer still reads and writes it.
-/

namespace RtThread.Dfs

open Function

/-- `struct dfs_fd`; `magic` says whether the number is `DFS_FD_MAGIC`. -/
structure DfsFd extends Descriptor where
  magic : Bool
  refCount : ℤ
deriving DecidableEq

/-- A descriptor after `rt_calloc`. -/
def DfsFd.cleared : DfsFd := ⟨⟨none, false, none⟩, false, 0⟩

/-- `struct dfs_fdtable` with the heap around it; `maxfd` is the length of `fds`. -/
structure FdTable (Ptr : Type*) where
  fds : List (Option Ptr)
  memory : Ptr → DfsFd
  allocated : Ptr → Bool

/-- `DFS_FD_OFFSET`. -/
def dfsFdOffset : ℕ := 3

namespace FdTable

variable {Ptr : Type*}

/-- The descriptors as `fd_is_open` reads them. -/
def descriptors (table : FdTable Ptr) : List (Option Descriptor) :=
  table.fds.map (Option.map fun ptr => (table.memory ptr).toDescriptor)

/-- An entry that `fd_alloc` may give out. -/
def vacant (table : FdTable Ptr) : Option Ptr → Bool
  | none => true
  | some ptr => (table.memory ptr).refCount = 0

/-- The larger container, four entries longer up to `DFS_FD_MAX`. -/
def grow (fdMax : ℕ) (table : FdTable Ptr) : FdTable Ptr :=
  { table with
    fds := table.fds ++
      List.replicate (min (table.fds.length + 4) fdMax - table.fds.length) none }

/-- The entry at `index` holds `ptr`. -/
def At (table : FdTable Ptr) (index : ℕ) (ptr : Ptr) : Prop :=
  table.fds[index]? = some (some ptr)

variable [DecidableEq Ptr]

def store (table : FdTable Ptr) (ptr : Ptr) (fd : DfsFd) : FdTable Ptr :=
  { table with memory := update table.memory ptr fd }

/-- A new descriptor in an empty entry. -/
def calloc (table : FdTable Ptr) (index : ℕ) (ptr : Ptr) : FdTable Ptr where
  fds := table.fds.set index (some ptr)
  memory := update table.memory ptr .cleared
  allocated := update table.allocated ptr true

end FdTable

variable {Ptr : Type*} [DecidableEq Ptr]

/-- `fd_alloc` from the first entry on.  `grown` says whether the larger container
can be allocated, and `block` is what `rt_calloc` returns. -/
def fdAlloc (fdMax : ℕ) (grown : Bool) (block : Option Ptr) (table : FdTable Ptr) :
    FdTable Ptr × ℕ :=
  let idx := table.fds.findIdx table.vacant
  if idx = table.fds.length ∧ table.fds.length < fdMax ∧ grown = false then (table, idx)
  else
    let table :=
      if idx = table.fds.length ∧ table.fds.length < fdMax then table.grow fdMax else table
    match table.fds[idx]?, block with
    | some none, none => (table, table.fds.length)
    | some none, some ptr => (table.calloc idx ptr, idx)
    | _, _ => (table, idx)

/-- `fd_new`: the index of the descriptor, if there is one. -/
def fdNew (fdMax : ℕ) (grown : Bool) (block : Option Ptr) (table : FdTable Ptr) :
    FdTable Ptr × Option ℕ :=
  let (table, idx) := fdAlloc fdMax grown block table
  match table.fds[idx]? with
  | some (some ptr) =>
    (table.store ptr { table.memory ptr with refCount := 1, magic := true }, some idx)
  | _ => (table, none)

/-- The standard descriptors are those of the console, where there is one:
`libc_stdio_get_console`. -/
def redirect (console : Option ℤ) (fd : ℤ) : ℤ :=
  if 0 ≤ fd ∧ fd ≤ 2 then console.getD fd else fd

/-- `fd_get`. -/
def fdGet (console : Option ℤ) (table : FdTable Ptr) (fd : ℤ) : FdTable Ptr × Option Ptr :=
  if redirect console fd - dfsFdOffset < 0 then (table, none)
  else
    match table.fds[(redirect console fd - dfsFdOffset).toNat]? with
    | some (some ptr) =>
      if (table.memory ptr).magic then
        (table.store ptr
          { table.memory ptr with refCount := (table.memory ptr).refCount + 1 }, some ptr)
      else (table, none)
    | _ => (table, none)

/-- `fd_put`. -/
def fdPut (table : FdTable Ptr) (ptr : Ptr) : FdTable Ptr :=
  let refCount := (table.memory ptr).refCount - 1
  let table := table.store ptr { table.memory ptr with refCount := refCount }
  if refCount = 0 then
    match table.fds.findIdx? (· = some ptr) with
    | none => table
    | some index =>
      { table with
        fds := table.fds.set index none
        allocated := update table.allocated ptr false }
  else table

/-- The path that `dfs_file_open` keeps in the descriptor.  The copy of the sub-path
is not checked for `NULL`. -/
def storedPath (env : Environment) (mount : CString) (ops : FilesystemOps) (fullpath : CString) :
    Option CString :=
  if ops.fullpath then some fullpath
  else if env.memory 1 then some (subpath mount fullpath)
  else none

/-- What `dfs_file_open` leaves in a descriptor, and whether it returns zero;
`answer` is whether the `open` operation of the filesystem succeeds. -/
def fileOpen (env : Environment) (mounts : List Filesystem) (path : CString) (answer : Bool)
    (fd : DfsFd) : DfsFd × Bool :=
  match env.fullpath 0 path with
  | none => (fd, false)
  | some fullpath =>
    match dfsFilesystemLookup mounts fullpath with
    | none => (fd, false)
    | some index =>
      match mountedAt mounts index with
      -- the lookup passes the entries that are not in use
      | none => (fd, false)
      | some (mount, ops) =>
        if ops.open && answer then
          ({ fd with
              fs := some index
              fops := true
              path := storedPath env mount ops fullpath }, true)
        else ({ fd with fs := some index, fops := true, path := none }, false)

/-! ## The entries of the table -/

namespace FdTable

variable {table : FdTable Ptr} {index : ℕ} {ptr : Ptr}

omit [DecidableEq Ptr] in
theorem at_grow {fdMax : ℕ} : (table.grow fdMax).At index ptr ↔ table.At index ptr := by
  rw [At, At, grow]
  rcases lt_or_ge index table.fds.length with hlt | hge
  · rw [List.getElem?_append_left hlt]
  · rw [List.getElem?_append_right hge, List.getElem?_eq_none hge, List.getElem?_replicate]
    split <;> simp

omit [DecidableEq Ptr] in
theorem lt_length_of_at (hat : table.At index ptr) : index < table.fds.length :=
  (List.getElem?_eq_some_iff.1 hat).1

omit [DecidableEq Ptr] in
theorem at_inj {left right : Ptr} (hleft : table.At index left) (hright : table.At index right) :
    left = right :=
  Option.some.inj (Option.some.inj (hleft.symm.trans hright))

theorem at_store {target : Ptr} {fd : DfsFd} :
    (table.store target fd).At index ptr ↔ table.At index ptr :=
  Iff.rfl

theorem memory_store_self (table : FdTable Ptr) (ptr : Ptr) (fd : DfsFd) :
    (table.store ptr fd).memory ptr = fd :=
  update_self ..

theorem memory_store_of_ne {other : Ptr} (hne : other ≠ ptr) (fd : DfsFd) :
    (table.store ptr fd).memory other = table.memory other :=
  update_of_ne hne ..

@[simp]
theorem store_store (table : FdTable Ptr) (ptr : Ptr) (fd next : DfsFd) :
    (table.store ptr fd).store ptr next = table.store ptr next := by
  simp [store]

@[simp]
theorem store_self (table : FdTable Ptr) (ptr : Ptr) :
    table.store ptr (table.memory ptr) = table := by
  simp [store]

theorem at_calloc {other : ℕ} {found : Ptr} (hindex : table.fds[index]? = some none) :
    (table.calloc index ptr).At other found ↔ other = index ∧ found = ptr ∨
      table.At other found := by
  have hlt := (List.getElem?_eq_some_iff.1 hindex).1
  rw [At, At, calloc]
  by_cases heq : other = index
  · subst heq
    rw [List.getElem?_set_self hlt, hindex]
    simp [eq_comm]
  · rw [List.getElem?_set_ne (Ne.symm heq)]
    simp [heq]

omit [DecidableEq Ptr] in
/-- Where no entry in use is unreferenced, `fd_alloc` stops at an empty entry or
at the end. -/
theorem findIdx_vacant (hused : ∀ index ptr, table.At index ptr → (table.memory ptr).refCount ≠ 0) :
    table.fds.findIdx table.vacant = table.fds.length ∨
      table.fds[table.fds.findIdx table.vacant]? = some none := by
  have hle : table.fds.findIdx table.vacant ≤ table.fds.length := List.findIdx_le_length
  rcases hle.eq_or_lt with heq | hlt
  · exact Or.inl heq
  · right
    have hvacant := List.findIdx_getElem (w := hlt)
    rw [List.getElem?_eq_getElem hlt]
    cases hentry : table.fds[table.fds.findIdx table.vacant] with
    | none => rfl
    | some ptr =>
      rw [hentry] at hvacant
      have hat : table.At (table.fds.findIdx table.vacant) ptr := by
        rw [At, List.getElem?_eq_getElem hlt, hentry]
      exact absurd (of_decide_eq_true hvacant) (hused _ ptr hat)

/-- Two tables with the same entries over the same memory. -/
structure Same (table other : FdTable Ptr) : Prop where
  at_iff : ∀ index ptr, table.At index ptr ↔ other.At index ptr
  memory : table.memory = other.memory
  allocated : table.allocated = other.allocated

omit [DecidableEq Ptr] in
theorem Same.refl (table : FdTable Ptr) : table.Same table :=
  ⟨fun _ _ => Iff.rfl, rfl, rfl⟩

end FdTable

variable {table next : FdTable Ptr}

/-- `fd_alloc` finds no entry, or fills an empty one with a new descriptor. -/
theorem fdAlloc_cases {fdMax idx : ℕ} {grown : Bool} {block : Option Ptr}
    (hused : ∀ index ptr, table.At index ptr → (table.memory ptr).refCount ≠ 0)
    (halloc : fdAlloc fdMax grown block table = (next, idx)) :
    (next.Same table ∧ next.fds[idx]? = none) ∨
      ∃ (base : FdTable Ptr) (ptr : Ptr), base.Same table ∧ base.fds[idx]? = some none ∧
        block = some ptr ∧ next = base.calloc idx ptr := by
  rw [fdAlloc] at halloc
  have hentry := table.findIdx_vacant hused
  generalize table.fds.findIdx table.vacant = found at halloc hentry
  dsimp only at halloc
  split at halloc
  · rename_i hfull
    cases halloc
    exact Or.inl ⟨.refl _, List.getElem?_eq_none hfull.1.ge⟩
  · -- the table in which the entry is looked at
    obtain ⟨base, hbase, hsame, hfound⟩ : ∃ base : FdTable Ptr,
        (if found = table.fds.length ∧ table.fds.length < fdMax then table.grow fdMax
          else table) = base ∧ base.Same table ∧
          (base.fds[found]? = none ∨ base.fds[found]? = some none) := by
      split
      · rename_i hfull
        refine ⟨_, rfl, ⟨fun _ _ => FdTable.at_grow, rfl, rfl⟩, Or.inr ?_⟩
        rw [FdTable.grow, List.getElem?_append_right hfull.1.ge, List.getElem?_replicate,
          if_pos (by omega)]
      · refine ⟨_, rfl, .refl _, ?_⟩
        rcases hentry with hlength | hnone
        · exact Or.inl (List.getElem?_eq_none hlength.ge)
        · exact Or.inr hnone
    rw [hbase] at halloc
    rcases hfound with hnone | hempty
    · rw [hnone] at halloc
      cases halloc
      exact Or.inl ⟨hsame, hnone⟩
    · rw [hempty] at halloc
      cases block with
      | none =>
        cases halloc
        exact Or.inl ⟨hsame, List.getElem?_eq_none le_rfl⟩
      | some ptr =>
        cases halloc
        exact Or.inr ⟨base, ptr, hsame, hempty, rfl, rfl⟩

/-- A descriptor just after `fd_new`. -/
def DfsFd.fresh : DfsFd := { DfsFd.cleared with refCount := 1, magic := true }

/-- The entry `index` was empty and holds the new descriptor `ptr`. -/
structure FdTable.Added (table next : FdTable Ptr) (index : ℕ) (ptr : Ptr) : Prop where
  empty : ∀ found, ¬table.At index found
  at_iff : ∀ other found, next.At other found ↔ other = index ∧ found = ptr ∨ table.At other found
  memory : next.memory = update table.memory ptr .fresh
  allocated : next.allocated = update table.allocated ptr true

/-- A block from outside the table keeps the entries distinct. -/
theorem FdTable.Added.unique {index : ℕ} {ptr : Ptr} (hadded : table.Added next index ptr)
    (hunique : ∀ i j found, table.At i found → table.At j found → i = j)
    (hother : ∀ i found, table.At i found → found ≠ ptr) :
    ∀ i j found, next.At i found → next.At j found → i = j := by
  intro i j found hi hj
  rcases (hadded.at_iff i found).1 hi with ⟨rfl, rfl⟩ | hi
  · rcases (hadded.at_iff j found).1 hj with ⟨rfl, -⟩ | hj
    · rfl
    · exact absurd rfl (hother j found hj)
  · rcases (hadded.at_iff j found).1 hj with ⟨rfl, rfl⟩ | hj
    · exact absurd rfl (hother i found hi)
    · exact hunique i j found hi hj

theorem fdNew_cases {fdMax : ℕ} {grown : Bool} {block : Option Ptr} {result : Option ℕ}
    (hused : ∀ index ptr, table.At index ptr → (table.memory ptr).refCount ≠ 0)
    (hnew : fdNew fdMax grown block table = (next, result)) : (result = none ∧ next.Same table) ∨
      ∃ index ptr, result = some index ∧ block = some ptr ∧ table.Added next index ptr := by
  rw [fdNew] at hnew
  cases halloc : fdAlloc fdMax grown block table with
  | mk after idx =>
    rw [halloc] at hnew
    rcases fdAlloc_cases hused halloc with ⟨hsame, hnone⟩ | ⟨base, ptr, hsame, hempty, rfl, rfl⟩
    · simp only [hnone, Prod.mk.injEq] at hnew
      obtain ⟨rfl, rfl⟩ := hnew
      exact Or.inl ⟨rfl, hsame⟩
    · have hat : (base.calloc idx ptr).fds[idx]? = some (some ptr) :=
        (FdTable.at_calloc hempty).2 (Or.inl ⟨rfl, rfl⟩)
      simp only [hat, Prod.mk.injEq] at hnew
      obtain ⟨rfl, rfl⟩ := hnew
      refine Or.inr ⟨idx, ptr, rfl, rfl, ?_, ?_, ?_, ?_⟩
      · intro found hfound
        have hbase : base.fds[idx]? = some (some found) := (hsame.at_iff idx found).2 hfound
        rw [hempty] at hbase
        cases hbase
      · intro other found
        rw [FdTable.at_store, FdTable.at_calloc hempty, hsame.at_iff]
      · simp only [FdTable.store, FdTable.calloc, hsame.memory, update_self,
          update_idem]
        rfl
      · simp only [FdTable.store, FdTable.calloc, hsame.allocated]

/-- `fd_get` returns the descriptor of the entry and counts the reference. -/
theorem fdGet_cases {console : Option ℤ} {fd : ℤ} {result : Option Ptr}
    (hget : fdGet console table fd = (next, result)) : (result = none ∧ next = table) ∨
      ∃ index ptr, result = some ptr ∧ table.At index ptr ∧ (table.memory ptr).magic = true ∧
        next = table.store ptr
          { table.memory ptr with refCount := (table.memory ptr).refCount + 1 } := by
  simp only [fdGet] at hget
  split at hget
  · cases hget
    exact Or.inl ⟨rfl, rfl⟩
  · split at hget
    · rename_i ptr hat
      split at hget
      · rename_i hmagic
        cases hget
        exact Or.inr ⟨_, ptr, rfl, hat, hmagic, rfl⟩
      · cases hget
        exact Or.inl ⟨rfl, rfl⟩
    · cases hget
      exact Or.inl ⟨rfl, rfl⟩

/-- The number that `open` returns finds the descriptor again. -/
theorem fdGet_at {table : FdTable Ptr} {console : Option ℤ} {index : ℕ} {ptr : Ptr}
    (hat : table.At index ptr) (hmagic : (table.memory ptr).magic = true) :
    fdGet console table (index + dfsFdOffset : ℕ) = (table.store ptr
      { table.memory ptr with refCount := (table.memory ptr).refCount + 1 }, some ptr) := by
  have hindex : redirect console (index + dfsFdOffset : ℕ) - dfsFdOffset = index := by
    rw [redirect, if_neg (by simp only [dfsFdOffset]; omega)]
    omega
  rw [FdTable.At] at hat
  simp only [fdGet, hindex, Int.toNat_natCast, hat, hmagic, if_true]
  exact if_neg (by omega)

/-- An `fd_put` of a descriptor that is referenced elsewhere. -/
theorem fdPut_of_ne {table : FdTable Ptr} {ptr : Ptr} (hne : (table.memory ptr).refCount ≠ 1) :
    fdPut table ptr = table.store ptr
      { table.memory ptr with refCount := (table.memory ptr).refCount - 1 } :=
  if_neg (by omega)

/-- The last `fd_put` frees the descriptor and empties its entry. -/
theorem fdPut_of_one {table : FdTable Ptr} {index : ℕ} {ptr : Ptr}
    (hunique : ∀ i j found, table.At i found → table.At j found → i = j)
    (hat : table.At index ptr) (hone : (table.memory ptr).refCount = 1) :
    (∀ other found, (fdPut table ptr).At other found ↔ table.At other found ∧ found ≠ ptr) ∧
      (∀ found, found ≠ ptr → (fdPut table ptr).memory found = table.memory found) ∧
      (fdPut table ptr).allocated = update table.allocated ptr false := by
  have hlt := FdTable.lt_length_of_at hat
  have hentry : table.fds[index] = some ptr := Option.some.inj (by
    rw [← List.getElem?_eq_getElem hlt]
    exact hat)
  obtain ⟨first, hfirst⟩ : ∃ first, table.fds.findIdx? (· = some ptr) = some first := by
    rw [← Option.isSome_iff_exists, List.findIdx?_isSome, List.any_eq_true]
    exact ⟨some ptr, hentry ▸ List.getElem_mem hlt, by simp⟩
  obtain ⟨hfirstLt, hfirstAt, -⟩ := List.findIdx?_eq_some_iff_getElem.1 hfirst
  have hfirstPtr : table.At first ptr := by
    rw [FdTable.At, List.getElem?_eq_getElem hfirstLt]
    simpa using hfirstAt
  have hput : fdPut table ptr =
      { table.store ptr { table.memory ptr with refCount := (table.memory ptr).refCount - 1 } with
        fds := table.fds.set first none
        allocated := update table.allocated ptr false } := by
    simp only [fdPut, FdTable.store, hone, Int.sub_self, if_true, hfirst]
  rw [hput]
  refine ⟨fun other found => ?_, fun found hne => update_of_ne hne .., rfl⟩
  change (table.fds.set first none)[other]? = some (some found) ↔ _
  by_cases heq : other = first
  · subst heq
    rw [List.getElem?_set_self hfirstLt]
    refine ⟨nofun, fun ⟨hother, hne⟩ => ?_⟩
    rw [FdTable.At] at hother hfirstPtr
    rw [hfirstPtr] at hother
    exact absurd (Option.some.inj (Option.some.inj hother)).symm hne
  · rw [List.getElem?_set_ne (Ne.symm heq)]
    refine ⟨fun hother => ⟨hother, ?_⟩, fun h => h.1⟩
    rintro rfl
    exact heq (hunique other first found hother hfirstPtr)

/-- The two rules for a descriptor that has just been written. -/
theorem fdPut_store_of_ne {table : FdTable Ptr} {ptr : Ptr} {fd : DfsFd} (hne : fd.refCount ≠ 1) :
    fdPut (table.store ptr fd) ptr = table.store ptr { fd with refCount := fd.refCount - 1 } := by
  have hput := @fdPut_of_ne _ _ (table.store ptr fd) ptr
  rw [FdTable.memory_store_self, FdTable.store_store] at hput
  exact hput hne

theorem fdPut_store_of_one {index : ℕ} {ptr : Ptr} {fd : DfsFd}
    (hunique : ∀ i j found, table.At i found → table.At j found → i = j) (hat : table.At index ptr)
    (hone : fd.refCount = 1) : (∀ other found, (fdPut (table.store ptr fd) ptr).At other found ↔
        table.At other found ∧ found ≠ ptr) ∧
      (∀ found, found ≠ ptr →
        (fdPut (table.store ptr fd) ptr).memory found = table.memory found) ∧
      (fdPut (table.store ptr fd) ptr).allocated = update table.allocated ptr false := by
  have hput := @fdPut_of_one _ _ (table.store ptr fd) index ptr hunique hat
  rw [FdTable.memory_store_self] at hput
  obtain ⟨hentries, hmemory, hallocated⟩ := hput hone
  refine ⟨hentries, fun found hne => ?_, hallocated⟩
  rw [hmemory found hne, FdTable.memory_store_of_ne hne]

end RtThread.Dfs
