import RtThread.Core.Machine
import RtThread.Dfs.FdTable
import RtThread.Dfs.Normalize

set_option linter.all false

/-!
# The open-file test

Sequences of `open` and `close` calls of `dfs_posix.c` over one mount table.
`dfs_file_open` keeps in the descriptor the path below the mount point, or the
full path where the filesystem asks for it; `fd_is_open` always looks for what
follows the mount path.  The two agree below a mount point and on a filesystem
mounted at the root.
-/

namespace RtThread.Dfs

open Function
open RtThread.Core

/-- The descriptor table, and for each open descriptor the filesystem and the full
path it was opened with. -/
structure OpenFiles (Ptr : Type*) where
  table : FdTable Ptr
  opened : Ptr → Option (ℕ × CString)

/-- A call of `open` with what it meets, or of `close`. -/
inductive FileAction (Ptr : Type*)
  | «open» (env : Environment) (path : CString) (answer grown : Bool) (block : Option Ptr)
  | close (fd : ℤ) (answer : Bool)

inductive FileEvent
  | opened (fd : ℕ)
  | closed
  | failed
deriving DecidableEq

/-- The filesystem and the full path of a pathname. -/
def locate (env : Environment) (n : ℕ) (mounts : List Filesystem) (path : CString) :
    Option (ℕ × CString) := do
  let fullpath ← env.fullpath n path
  let index ← dfsFilesystemLookup mounts fullpath
  return (index, fullpath)

section Calls

variable {Ptr : Type*} [DecidableEq Ptr]

/-- `open`.  Were `fd_get` to fail, `fd_put` would stop at its assertion. -/
def openFile (fdMax : ℕ) (console : Option ℤ) (mounts : List Filesystem) (st : OpenFiles Ptr)
    (env : Environment) (path : CString) (answer grown : Bool) (block : Option Ptr) :
    Option (OpenFiles Ptr × FileEvent) :=
  match fdNew fdMax grown block st.table with
  | (table, none) => some ({ st with table := table }, .failed)
  | (table, some index) =>
    match fdGet console table (index + dfsFdOffset : ℕ) with
    | (_, none) => none
    | (table, some ptr) =>
      match fileOpen env mounts path answer (table.memory ptr) with
      | (fd, false) =>
        some ({ st with table := fdPut (fdPut (table.store ptr fd) ptr) ptr }, .failed)
      | (fd, true) =>
        some (⟨fdPut (table.store ptr fd) ptr,
          update st.opened ptr (locate env 0 mounts path)⟩,
          .opened (index + dfsFdOffset))

/-- `close`.  `dfs_file_close` reads through the operations of the descriptor. -/
def closeFile (console : Option ℤ) (st : OpenFiles Ptr) (fd : ℤ) (answer : Bool) :
    Option (OpenFiles Ptr × FileEvent) :=
  match fdGet console st.table fd with
  | (table, none) => some ({ st with table := table }, .failed)
  | (table, some ptr) =>
    if (table.memory ptr).fops = false then none
    else if answer = false then some ({ st with table := fdPut table ptr }, .failed)
    else
      let closed := table.store ptr { table.memory ptr with path := none }
      some (⟨fdPut (fdPut closed ptr) ptr, update st.opened ptr none⟩, .closed)

/-- Calls of one thread after another; the allocator gives out what is not in use. -/
def fileMachine (fdMax : ℕ) (console : Option ℤ) (mounts : List Filesystem) :
    Machine (OpenFiles Ptr) (FileAction Ptr) FileEvent where
  step st
    | .open env path answer grown block =>
      if block.all fun ptr => !st.table.allocated ptr then
        openFile fdMax console mounts st env path answer grown block
      else none
    | .close fd answer => closeFile console st fd answer

/-- No descriptor is allocated. -/
def noFiles (memory : Ptr → DfsFd) (allocated : Ptr → Bool) : OpenFiles Ptr :=
  ⟨⟨[], memory, allocated⟩, fun _ => none⟩

end Calls

/-- The text that `fd_is_open` compares. -/
def mountPath (mount fullpath : CString) : CString :=
  if mount = ['/'] then fullpath else fullpath.drop mount.length

/-- The path lies on a filesystem mounted at the root, or below the mount point of
one that takes sub-paths. -/
def BelowMount (mount : CString) (ops : FilesystemOps) (fullpath : CString) : Prop :=
  mount = ['/'] ∨ ops.fullpath = false ∧ fullpath[mount.length]? = some '/'

instance (mount : CString) (ops : FilesystemOps) (fullpath : CString) :
    Decidable (BelowMount mount ops fullpath) :=
  inferInstanceAs (Decidable (_ ∨ _))

/-- Every path that is opened lies below its mount point, and the copy of it can be
allocated. -/
def PathRecorded {Ptr : Type*} (mounts : List Filesystem) (_ : OpenFiles Ptr) :
    FileAction Ptr → Prop
  | .open env path _ _ _ =>
    ∀ located ∈ locate env 0 mounts path, ∀ mounted ∈ mountedAt mounts located.1,
      BelowMount mounted.1 mounted.2 located.2 ∧
        (mounted.2.fullpath = false → env.memory 1 = true)
  | .close _ _ => True

/-! ## The two texts -/

theorem storedPath_of_belowMount {env : Environment} {mount fullpath : CString}
    {ops : FilesystemOps} (hnormalized : Normalized fullpath) (hmatches : Matches mount fullpath)
    (hbelow : BelowMount mount ops fullpath)
    (hmemory : ops.fullpath = false → env.memory 1 = true) :
    storedPath env mount ops fullpath = some (mountPath mount fullpath) := by
  rcases hbelow with rfl | ⟨hsub, hslash⟩
  · cases hfull : ops.fullpath with
    | true => simp [storedPath, mountPath, hfull]
    | false =>
      obtain ⟨rest, hrest⟩ := hmatches.1
      obtain ⟨path, rfl⟩ := hnormalized.absolute (by rw [← hrest]; rfl)
      have hsubpath : subpath ['/'] path.text = path.text := by
        rw [subpath, dfsSubdir]
        by_cases hroot : ['/'].length = path.text.length
        · rw [if_pos hroot]
          exact hmatches.1.eq_of_length hroot
        · rw [if_neg hroot, if_pos ⟨path.text_second, by simp⟩]
          rfl
      simp [storedPath, mountPath, hfull, hmemory hfull, hsubpath]
  · have hlt : mount.length < fullpath.length := (List.getElem?_eq_some_iff.1 hslash).1
    have hroot : mount ≠ ['/'] := by
      rintro rfl
      obtain ⟨rest, hrest⟩ := hmatches.1
      obtain ⟨path, rfl⟩ := hnormalized.absolute (by rw [← hrest]; rfl)
      exact path.text_second hslash
    have hsubpath : subpath mount fullpath = fullpath.drop mount.length := by
      rw [subpath, dfsSubdir, if_neg hlt.ne, if_neg (fun h => h.1 hslash)]
    simp [storedPath, mountPath, hsub, hmemory hsub, hroot, hsubpath]

theorem mountPath_inj {mount left right : CString} (hleft : Matches mount left)
    (hright : Matches mount right) : mountPath mount left = mountPath mount right ↔
      left = right := by
  refine ⟨fun heq => ?_, fun heq => heq ▸ rfl⟩
  obtain ⟨leftRest, rfl⟩ := hleft.1
  obtain ⟨rightRest, rfl⟩ := hright.1
  by_cases hroot : mount = ['/']
  · simpa [mountPath, hroot] using heq
  · simpa [mountPath, hroot] using heq

theorem locate_eq_some_iff {env : Environment} {n : ℕ} {mounts : List Filesystem} {path : CString}
    {index : ℕ} {fullpath : CString} :
    locate env n mounts path = some (index, fullpath) ↔
      env.fullpath n path = some fullpath ∧ dfsFilesystemLookup mounts fullpath = some index := by
  simp only [locate, Option.bind_eq_bind, Option.bind_eq_some_iff, Option.pure_def,
    Option.some.injEq, Prod.mk.injEq]
  constructor
  · rintro ⟨found, hfound, served, hserved, rfl, rfl⟩
    exact ⟨hfound, hserved⟩
  · rintro ⟨hfound, hserved⟩
    exact ⟨fullpath, hfound, index, hserved, rfl, rfl⟩

/-! ## The descriptors of open files -/

section Invariant

variable {Ptr : Type*}

/-- The descriptor records what it was opened with. -/
def Recorded (mounts : List Filesystem) (fd : Descriptor) (opened : Option (ℕ × CString)) : Prop :=
  ∃ index fullpath mount ops, opened = some (index, fullpath) ∧
    dfsFilesystemLookup mounts fullpath = some index ∧
    mountedAt mounts index = some (mount, ops) ∧
    fd.fops = true ∧ fd.fs = some index ∧ fd.path = some (mountPath mount fullpath)

structure FilesInv (mounts : List Filesystem) (st : OpenFiles Ptr) : Prop where
  unique : ∀ i j ptr, st.table.At i ptr → st.table.At j ptr → i = j
  held : ∀ i ptr, st.table.At i ptr →
    (st.table.memory ptr).refCount = 1 ∧ st.table.allocated ptr = true
  recorded : ∀ i ptr, st.table.At i ptr →
    Recorded mounts (st.table.memory ptr).toDescriptor (st.opened ptr)
  listed : ∀ ptr, st.opened ptr ≠ none → ∃ i, st.table.At i ptr

theorem filesInv_noFiles (mounts : List Filesystem) (memory : Ptr → DfsFd)
    (allocated : Ptr → Bool) : FilesInv mounts (noFiles memory allocated) where
  unique := by simp [noFiles, FdTable.At]
  held := by simp [noFiles, FdTable.At]
  recorded := by simp [noFiles, FdTable.At]
  listed := fun _ hopened => absurd rfl hopened

variable {mounts : List Filesystem}

/-- The invariant reads the entries and the descriptors they point to. -/
theorem FilesInv.congr {st : OpenFiles Ptr} {table : FdTable Ptr} (hinv : FilesInv mounts st)
    (hat : ∀ index ptr, table.At index ptr ↔ st.table.At index ptr)
    (hmemory : ∀ index ptr, st.table.At index ptr →
      table.memory ptr = st.table.memory ptr ∧ table.allocated ptr = st.table.allocated ptr) :
    FilesInv mounts { st with table := table } where
  unique i j ptr hi hj := hinv.unique i j ptr ((hat i ptr).1 hi) ((hat j ptr).1 hj)
  held i ptr hi := by
    have hi := (hat i ptr).1 hi
    obtain ⟨hfd, hallocated⟩ := hmemory i ptr hi
    rw [hfd, hallocated]
    exact hinv.held i ptr hi
  recorded i ptr hi := by
    have hi := (hat i ptr).1 hi
    rw [(hmemory i ptr hi).1]
    exact hinv.recorded i ptr hi
  listed ptr hopened := by
    obtain ⟨i, hi⟩ := hinv.listed ptr hopened
    exact ⟨i, (hat i ptr).2 hi⟩

/-- `dfs_file_open` keeps the reference count; where it succeeds, it has found the
filesystem and recorded the path. -/
theorem fileOpen_cases {env : Environment} {path : CString} {answer ok : Bool} {fd next : DfsFd}
    (hopen : fileOpen env mounts path answer fd = (next, ok)) :
    next.refCount = fd.refCount ∧ (ok = true → ∃ index fullpath mount ops,
      locate env 0 mounts path = some (index, fullpath) ∧
        mountedAt mounts index = some (mount, ops) ∧ next.fops = true ∧
          next.fs = some index ∧ next.path = storedPath env mount ops fullpath) := by
  rw [fileOpen] at hopen
  split at hopen
  · cases hopen
    exact ⟨rfl, nofun⟩
  · rename_i fullpath hfull
    split at hopen
    · cases hopen
      exact ⟨rfl, nofun⟩
    · rename_i index hlookup
      split at hopen
      · cases hopen
        exact ⟨rfl, nofun⟩
      · rename_i mount ops hat
        split at hopen
        · cases hopen
          exact ⟨rfl, fun _ => ⟨index, fullpath, mount, ops,
            locate_eq_some_iff.2 ⟨hfull, hlookup⟩, hat, rfl, rfl, rfl⟩⟩
        · cases hopen
          exact ⟨rfl, nofun⟩

/-- A path opened below its mount point is recorded as it is looked for. -/
theorem recorded_of_open {env : Environment} {path : CString} {answer : Bool} {fd next : DfsFd}
    (hrecorded : ∀ located ∈ locate env 0 mounts path, ∀ mounted ∈ mountedAt mounts located.1,
      BelowMount mounted.1 mounted.2 located.2 ∧
        (mounted.2.fullpath = false → env.memory 1 = true))
    (hopen : fileOpen env mounts path answer fd = (next, true)) :
    Recorded mounts next.toDescriptor (locate env 0 mounts path) := by
  obtain ⟨-, hfound⟩ := fileOpen_cases hopen
  obtain ⟨index, fullpath, mount, ops, hlocate, hat, hfops, hfs, hpath⟩ := hfound rfl
  obtain ⟨hbelow, hmemory⟩ := hrecorded _ hlocate _ hat
  obtain ⟨hfull, hlookup⟩ := locate_eq_some_iff.1 hlocate
  obtain ⟨found, hmounted, hmatches, -⟩ := dfsFilesystemLookup_eq_some hlookup
  obtain rfl := hmounted.mount_eq ⟨ops, hat⟩
  refine ⟨index, fullpath, found, ops, hlocate, hlookup, hat, hfops, hfs, ?_⟩
  rw [hpath]
  exact storedPath_of_belowMount (normalized_dfsNormalizePath hfull) hmatches hbelow hmemory

variable [DecidableEq Ptr] {fdMax : ℕ} {console : Option ℤ} {mounts : List Filesystem}
variable {st next : OpenFiles Ptr} {event : FileEvent}

theorem FilesInv.remove {ptr : Ptr} {index : ℕ} {table : FdTable Ptr}
    (hinv : FilesInv mounts st) (hindex : st.table.At index ptr)
    (hat : ∀ other found, table.At other found ↔ st.table.At other found ∧ found ≠ ptr)
    (hmemory : ∀ found, found ≠ ptr → table.memory found = st.table.memory found)
    (hallocated : table.allocated = update st.table.allocated ptr false) :
    FilesInv mounts ⟨table, update st.opened ptr none⟩ where
  unique i j found hi hj := hinv.unique i j found ((hat i found).1 hi).1 ((hat j found).1 hj).1
  held i found hi := by
    obtain ⟨hold, hne⟩ := (hat i found).1 hi
    rw [hmemory found hne, hallocated, update_of_ne hne]
    exact hinv.held i found hold
  recorded i found hi := by
    obtain ⟨hold, hne⟩ := (hat i found).1 hi
    change Recorded mounts (table.memory found).toDescriptor
      (update st.opened ptr none found)
    rw [hmemory found hne, update_of_ne hne]
    exact hinv.recorded i found hold
  listed found hopened := by
    change update st.opened ptr none found ≠ none at hopened
    have hne : found ≠ ptr := by
      rintro rfl
      exact hopened (update_self ..)
    rw [update_of_ne hne] at hopened
    obtain ⟨i, hi⟩ := hinv.listed found hopened
    exact ⟨i, (hat i found).2 ⟨hi, hne⟩⟩

omit [DecidableEq Ptr] in
theorem FilesInv.ne_of_free {ptr : Ptr} (hinv : FilesInv mounts st)
    (hfree : st.table.allocated ptr = false) :
    ∀ i found, st.table.At i found → found ≠ ptr := by
  rintro i found hi rfl
  rw [(hinv.held i found hi).2] at hfree
  cases hfree

theorem FilesInv.add {ptr : Ptr} {index : ℕ} {table : FdTable Ptr} {fd : DfsFd}
    {opened : Option (ℕ × CString)} (hinv : FilesInv mounts st)
    (hfree : st.table.allocated ptr = false)
    (hadded : st.table.Added table index ptr) (hone : fd.refCount = 1)
    (hrecorded : Recorded mounts fd.toDescriptor opened) :
    FilesInv mounts ⟨table.store ptr fd, update st.opened ptr opened⟩ := by
  have hother := hinv.ne_of_free hfree
  have hkept : ∀ i found, st.table.At i found →
      (table.store ptr fd).memory found = st.table.memory found ∧
        update st.opened ptr opened found = st.opened found := by
    intro i found hi
    have hne := hother i found hi
    rw [FdTable.memory_store_of_ne hne, hadded.memory, update_of_ne hne,
      update_of_ne hne]
    exact ⟨rfl, rfl⟩
  refine ⟨fun i j found hi hj => ?_, fun i found hi => ?_, fun i found hi => ?_,
    fun found hopened => ?_⟩
  · exact hadded.unique hinv.unique hother i j found hi hj
  · change ((table.store ptr fd).memory found).refCount = 1 ∧ table.allocated found = true
    rw [hadded.allocated]
    rcases (hadded.at_iff i found).1 hi with ⟨-, rfl⟩ | hi
    · rw [FdTable.memory_store_self, update_self]
      exact ⟨hone, rfl⟩
    · rw [(hkept i found hi).1, update_of_ne (hother i found hi)]
      exact hinv.held i found hi
  · change Recorded mounts ((table.store ptr fd).memory found).toDescriptor
      (update st.opened ptr opened found)
    rcases (hadded.at_iff i found).1 hi with ⟨-, rfl⟩ | hi
    · rw [FdTable.memory_store_self, update_self]
      exact hrecorded
    · rw [(hkept i found hi).1, (hkept i found hi).2]
      exact hinv.recorded i found hi
  · by_cases heq : found = ptr
    · exact ⟨index, (hadded.at_iff index found).2 (Or.inl ⟨rfl, heq⟩)⟩
    · change update st.opened ptr opened found ≠ none at hopened
      rw [update_of_ne heq] at hopened
      obtain ⟨i, hi⟩ := hinv.listed found hopened
      exact ⟨i, (hadded.at_iff i found).2 (Or.inr hi)⟩

theorem filesInv_openFile {env : Environment} {path : CString} {answer grown : Bool}
    {block : Option Ptr} (hinv : FilesInv mounts st)
    (hfree : ∀ ptr ∈ block, st.table.allocated ptr = false)
    (hrecorded : PathRecorded mounts st (.open env path answer grown block))
    (hstep : openFile fdMax console mounts st env path answer grown block =
      some (next, event)) : FilesInv mounts next := by
  have hused : ∀ index ptr, st.table.At index ptr →
      (st.table.memory ptr).refCount ≠ 0 := by
    intro index ptr hat
    rw [(hinv.held index ptr hat).1]
    decide
  rw [openFile] at hstep
  cases hnew : fdNew fdMax grown block st.table with
  | mk table result =>
    rcases fdNew_cases hused hnew with ⟨rfl, hsame⟩ | ⟨index, ptr, rfl, rfl, hadded⟩
    · simp only [hnew] at hstep
      cases hstep
      refine hinv.congr hsame.at_iff fun _ ptr _ => ?_
      rw [hsame.memory, hsame.allocated]
      exact ⟨rfl, rfl⟩
    · have hat : table.At index ptr := (hadded.at_iff index ptr).2 (Or.inl ⟨rfl, rfl⟩)
      have hfresh : table.memory ptr = .fresh := by
        rw [hadded.memory, update_self]
      have hget := @fdGet_at _ _ table console index ptr hat (by rw [hfresh]; rfl)
      simp only [hnew, hget, FdTable.memory_store_self, FdTable.store_store] at hstep
      cases hopen : fileOpen env mounts path answer
          { table.memory ptr with refCount := (table.memory ptr).refCount + 1 } with
      | mk fd ok =>
        have hcount : fd.refCount = 2 := by
          rw [(fileOpen_cases hopen).1, hfresh]
          rfl
        have hput := @fdPut_store_of_ne _ _ table ptr fd (by omega)
        rw [hopen] at hstep
        cases ok with
        | true =>
          simp only [hput] at hstep
          cases hstep
          have hdescriptor := recorded_of_open hrecorded hopen
          exact hinv.add (hfree ptr rfl) hadded (by simp [hcount]) hdescriptor
        | false =>
          simp only [hput] at hstep
          cases hstep
          have hother := hinv.ne_of_free (hfree ptr rfl)
          obtain ⟨hentries, hmemory, hallocated⟩ := fdPut_store_of_one
            (hadded.unique hinv.unique hother) hat
            (by simp [hcount] : ({ fd with refCount := fd.refCount - 1 } : DfsFd).refCount = 1)
          refine hinv.congr (fun other found => ?_) fun other found hfound => ?_
          · rw [hentries, hadded.at_iff]
            constructor
            · rintro ⟨⟨-, rfl⟩ | hold, hne⟩
              · exact absurd rfl hne
              · exact hold
            · exact fun hold => ⟨Or.inr hold, hother other found hold⟩
          · have hne := hother other found hfound
            rw [hmemory found hne, hallocated, hadded.memory, hadded.allocated,
              update_of_ne hne, update_of_ne hne, update_of_ne hne]
            exact ⟨rfl, rfl⟩

theorem filesInv_closeFile {fd : ℤ} {answer : Bool} (hinv : FilesInv mounts st)
    (hstep : closeFile console st fd answer = some (next, event)) : FilesInv mounts next := by
  rw [closeFile] at hstep
  cases hget : fdGet console st.table fd with
  | mk table result =>
    rcases fdGet_cases hget with ⟨rfl, rfl⟩ | ⟨index, ptr, rfl, hat, -, rfl⟩
    · simp only [hget] at hstep
      cases hstep
      exact hinv
    · have hone := (hinv.held index ptr hat).1
      simp only [hget, FdTable.memory_store_self, FdTable.store_store] at hstep
      split at hstep
      · cases hstep
      · split at hstep
        · cases hstep
          rw [fdPut_store_of_ne (by simp [hone])]
          refine hinv.congr (fun _ _ => Iff.rfl) fun _ found _ => ⟨?_, rfl⟩
          by_cases heq : found = ptr
          · subst heq
            rw [FdTable.memory_store_self]
            simp
          · rw [FdTable.memory_store_of_ne heq]
        · cases hstep
          rw [fdPut_store_of_ne (by simp [hone])]
          obtain ⟨hentries, hmemory, hallocated⟩ := fdPut_store_of_one hinv.unique hat
            (by simp [hone] : ({ st.table.memory ptr with
              path := none, refCount := (st.table.memory ptr).refCount + 1 - 1 } :
                DfsFd).refCount = 1)
          exact hinv.remove hat hentries hmemory hallocated

theorem filesInv_step {act : FileAction Ptr} (hinv : FilesInv mounts st)
    (hrecorded : PathRecorded mounts st act)
    (hstep : (fileMachine fdMax console mounts).step st act = some (next, event)) :
    FilesInv mounts next := by
  cases act with
  | «open» env path answer grown block =>
    simp only [fileMachine] at hstep
    split at hstep
    · rename_i hfree
      refine filesInv_openFile hinv (fun ptr hptr => ?_) hrecorded hstep
      rw [hptr] at hfree
      simpa using hfree
    · cases hstep
  | close fd answer => exact filesInv_closeFile hinv hstep

end Invariant

/-! ## The test -/

section Test

variable {Ptr : Type*} {mounts : List Filesystem} {st : OpenFiles Ptr}

/-- What the calls find outside the table of descriptors. -/
def Environment.reading (env : Environment) (table : FdTable Ptr) : Environment :=
  { env with descriptors := table.descriptors }

/-- Some descriptor is open that was opened with a pathname of the same full path on
the same filesystem. -/
def OpenAs (st : OpenFiles Ptr) (mounts : List Filesystem) (env : Environment)
    (pathname : CString) : Prop :=
  ∃ fullpath index ptr, dfsNormalizePath env.workingDirectory true none pathname = some fullpath ∧
    dfsFilesystemLookup mounts fullpath = some index ∧ st.opened ptr = some (index, fullpath)

/-- One descriptor of the scan in `fd_is_open`. -/
def testsOpen (index : ℕ) (text : CString) : Option Descriptor → Bool
  | none => false
  | some fd => fd.fops && fd.fs = some index && fd.path = some text

theorem fdIsOpen_eq_true_iff (env : Environment) (hmemory : env.memory 1 = true)
    {pathname : CString} :
    fdIsOpen env mounts pathname = true ↔ ∃ fullpath index mount ops,
      dfsNormalizePath env.workingDirectory true none pathname = some fullpath ∧
        dfsFilesystemLookup mounts fullpath = some index ∧
          mountedAt mounts index = some (mount, ops) ∧
            env.descriptors.any (testsOpen index (mountPath mount fullpath)) = true := by
  rw [fdIsOpen, Environment.fullpath, hmemory]
  cases dfsNormalizePath env.workingDirectory true none pathname with
  | none => simp
  | some fullpath =>
    cases hlookup : dfsFilesystemLookup mounts fullpath with
    | none => simp [hlookup]
    | some index =>
      obtain ⟨mount, ⟨ops, hat⟩, -⟩ := dfsFilesystemLookup_eq_some hlookup
      simp only [hlookup, hat]
      constructor
      · intro hany
        exact ⟨fullpath, index, mount, ops, rfl, hlookup, hat, hany⟩
      · rintro ⟨found, served, point, other, hfound, hserved, hpoint, hany⟩
        cases hfound
        rw [hlookup, Option.some.injEq] at hserved
        subst hserved
        rw [hat, Option.some.injEq, Prod.mk.injEq] at hpoint
        obtain ⟨rfl, rfl⟩ := hpoint
        exact hany

/-- A descriptor passes the test exactly when it is open for that path. -/
theorem FilesInv.testsOpen_iff (hinv : FilesInv mounts st) {index : ℕ}
    {fullpath mount : CString} {ops : FilesystemOps}
    (hlookup : dfsFilesystemLookup mounts fullpath = some index)
    (hat : mountedAt mounts index = some (mount, ops)) :
    st.table.descriptors.any (testsOpen index (mountPath mount fullpath)) = true ↔
      ∃ ptr, st.opened ptr = some (index, fullpath) := by
  have hmatches : ∀ {text : CString}, dfsFilesystemLookup mounts text = some index →
      Matches mount text := by
    intro text htext
    obtain ⟨found, hmounted, hmatches, -⟩ := dfsFilesystemLookup_eq_some htext
    exact hmounted.mount_eq ⟨ops, hat⟩ ▸ hmatches
  rw [List.any_eq_true]
  constructor
  · rintro ⟨entry, hentry, htest⟩
    obtain ⟨slot, hslot, rfl⟩ := List.mem_map.1 hentry
    cases slot with
    | none => cases htest
    | some ptr =>
      obtain ⟨i, hi⟩ := List.mem_iff_getElem?.1 hslot
      obtain ⟨served, path, point, other, hopened, hserved, hpoint, -, hfs, hpath⟩ :=
        hinv.recorded i ptr hi
      simp only [testsOpen, Option.map_some, Bool.and_eq_true, decide_eq_true_eq, hfs, hpath,
        Option.some.injEq] at htest
      obtain ⟨⟨-, rfl⟩, htext⟩ := htest
      rw [hat, Option.some.injEq, Prod.mk.injEq] at hpoint
      obtain ⟨rfl, rfl⟩ := hpoint
      rw [mountPath_inj (hmatches hserved) (hmatches hlookup)] at htext
      exact ⟨ptr, htext ▸ hopened⟩
  · rintro ⟨ptr, hopened⟩
    obtain ⟨i, hi⟩ := hinv.listed ptr (by simp [hopened])
    obtain ⟨served, path, point, other, hsame, -, hpoint, hfops, hfs, hpath⟩ :=
      hinv.recorded i ptr hi
    rw [hopened, Option.some.injEq, Prod.mk.injEq] at hsame
    obtain ⟨rfl, rfl⟩ := hsame
    rw [hat, Option.some.injEq, Prod.mk.injEq] at hpoint
    obtain ⟨rfl, rfl⟩ := hpoint
    refine ⟨some (st.table.memory ptr).toDescriptor, ?_, ?_⟩
    · exact List.mem_map.2 ⟨some ptr, List.mem_iff_getElem?.2 ⟨i, hi⟩, rfl⟩
    · simp [testsOpen, hfops, hfs, hpath]

theorem FilesInv.fdIsOpen_iff (hinv : FilesInv mounts st) {env : Environment}
    (hmemory : env.memory 1 = true) (pathname : CString) :
    fdIsOpen (env.reading st.table) mounts pathname = true ↔
      OpenAs st mounts env pathname := by
  rw [fdIsOpen_eq_true_iff (env.reading st.table) hmemory]
  constructor
  · rintro ⟨fullpath, index, mount, ops, hfull, hlookup, hat, hany⟩
    obtain ⟨ptr, hopened⟩ := (hinv.testsOpen_iff hlookup hat).1 hany
    exact ⟨fullpath, index, ptr, hfull, hlookup, hopened⟩
  · rintro ⟨fullpath, index, ptr, hfull, hlookup, hopened⟩
    obtain ⟨mount, ⟨ops, hat⟩, -⟩ := dfsFilesystemLookup_eq_some hlookup
    exact ⟨fullpath, index, mount, ops, hfull, hlookup, hat,
      (hinv.testsOpen_iff hlookup hat).2 ⟨ptr, hopened⟩⟩

/-- `dfs_file_unlink` tests the path it has normalized, which an absolute path
survives. -/
theorem unlink_ebusy_iff (env : Environment) (hmemory : ∀ n, env.memory n = true)
    {pathname : CString} {path : NormalPath}
    (hfull : dfsNormalizePath env.workingDirectory true none pathname = some path.text) :
    dfsFileUnlink env mounts pathname = .returns .ebusy ↔
      fdIsOpen env mounts pathname = true := by
  have hagain : fdIsOpen env mounts path.text = fdIsOpen env mounts pathname := by
    simp only [fdIsOpen, Environment.fullpath, hmemory, hfull, dfsNormalizePath_text]
  have hfirst : env.fullpath 0 pathname = some path.text := by
    rw [Environment.fullpath, hmemory, hfull]
  cases hlookup : dfsFilesystemLookup mounts path.text with
  | none =>
    have hclosed : fdIsOpen env mounts pathname = false := by
      simp [fdIsOpen, Environment.fullpath, hmemory, hfull, hlookup]
    simp [dfsFileUnlink, hfirst, hlookup, hclosed]
  | some index =>
    simp only [dfsFileUnlink, hfirst, hlookup, hagain]
    split
    · rename_i hopen
      exact ⟨fun _ => hopen, fun _ => rfl⟩
    · rename_i hclosed
      refine ⟨fun hbusy => ?_, fun hopen => absurd hopen hclosed⟩
      split at hbusy
      · cases hbusy
      · split at hbusy
        · split at hbusy <;> cases hbusy
        · cases hbusy

end Test

variable {Ptr : Type*} [DecidableEq Ptr]

/-- `fd_is_open` and `dfs_file_unlink` tell the open files, as long as every path
opened lies on the root filesystem or below the mount point of a filesystem that
takes sub-paths. -/
theorem open_test_agrees {fdMax : ℕ} {console : Option ℤ} {mounts : List Filesystem}
    {memory : Ptr → DfsFd} {allocated : Ptr → Bool} {trace : List (FileAction Ptr × FileEvent)}
    {last : OpenFiles Ptr}
    (hrun : (fileMachine fdMax console mounts).RunWith (PathRecorded mounts)
      (noFiles memory allocated) trace last)
    {env : Environment} (hmemory : ∀ n, env.memory n = true) (pathname : CString) :
    (fdIsOpen (env.reading last.table) mounts pathname = true ↔
        OpenAs last mounts env pathname) ∧
      ∀ path : NormalPath,
        dfsNormalizePath env.workingDirectory true none pathname = some path.text →
          (dfsFileUnlink (env.reading last.table) mounts pathname = .returns .ebusy ↔
            OpenAs last mounts env pathname) := by
  have hinv : FilesInv mounts last :=
    hrun.invariant (FilesInv mounts)
      (fun _ _ _ _ hinv hrecorded hstep => filesInv_step hinv hrecorded hstep)
      (filesInv_noFiles mounts memory allocated)
  have htest := hinv.fdIsOpen_iff (hmemory 1) pathname
  refine ⟨htest, fun path hfull => ?_⟩
  exact (unlink_ebusy_iff (env.reading last.table) hmemory hfull).trans htest

instance {Ptr : Type*} (mounts : List Filesystem) (st : OpenFiles Ptr) :
    (act : FileAction Ptr) → Decidable (PathRecorded mounts st act)
  | .open _ _ _ _ _ => inferInstanceAs (Decidable (∀ _ ∈ _, ∀ _ ∈ _, _ ∧ (_ → _)))
  | .close _ _ => inferInstanceAs (Decidable True)

/-- Memory for every copy, no working directory. -/
def plentiful : Environment := ⟨none, [], fun _ => true⟩

/-- A file on the card is opened under two spellings, and closed under the first. -/
def scheduleCard (first second : Ptr) : List (FileAction Ptr) :=
  [.open plentiful "/sd/a".toList true true (some first),
    .open plentiful "/sd//b/../a".toList true true (some second), .close 3 true]

theorem isSome_scheduleCard : ((fileMachine 16 none cardTable.entries).exec
    (PathRecorded cardTable.entries) (noFiles (fun _ => .cleared) fun _ => false)
      (scheduleCard false true)).isSome = true := by
  decide

theorem open_test_agrees_scheduleCard : ∃ trace, ∃ last : OpenFiles Bool,
    (fileMachine 16 none cardTable.entries).RunWith (PathRecorded cardTable.entries)
        (noFiles (fun _ => .cleared) fun _ => false) trace last ∧
      trace.map Prod.snd = [.opened 3, .opened 4, .closed] ∧
        OpenAs last cardTable.entries plentiful "/sd/./a".toList ∧
          ¬OpenAs last cardTable.entries plentiful "/sd/b".toList := by
  have hrun := Machine.runWith_of_isSome (scheduleCard false true) isSome_scheduleCard
  refine ⟨_, _, hrun, by decide, ?_, fun hopen => ?_⟩
  · exact (open_test_agrees hrun (fun _ => rfl) _).1.1 (by decide)
  · exact absurd ((open_test_agrees hrun (fun _ => rfl) _).1.2 hopen) (by decide)

/-- A filesystem that takes full paths, mounted at `/flash`. -/
def flashTable : List Filesystem :=
  [⟨none, some "/flash".toList,
    some ⟨"uffs".toList, true, true, true, true, true, true, true⟩, none⟩]

/-- A file of it is opened. -/
def scheduleFlash : List (FileAction Unit) :=
  [.open plentiful "/flash/a".toList true true (some ())]

theorem isSome_scheduleFlash : ((fileMachine 16 none flashTable).exec (fun _ _ => True)
    (noFiles (fun _ => .cleared) fun _ => false) scheduleFlash).isSome = true := by
  decide

/-- The file that is open is not found and may be unlinked, and another one that has
not been opened is found. -/
theorem open_file_not_found : ∃ trace, ∃ last : OpenFiles Unit,
    (fileMachine 16 none flashTable).Run (noFiles (fun _ => .cleared) fun _ => false) trace last ∧
      trace.map Prod.snd = [.opened 3] ∧
      (fdIsOpen (plentiful.reading last.table) flashTable "/flash/a".toList = false ∧
        dfsFileUnlink (plentiful.reading last.table) flashTable "/flash/a".toList =
          .calls 0 [some "/flash/a".toList] ∧
        OpenAs last flashTable plentiful "/flash/a".toList) ∧
      fdIsOpen (plentiful.reading last.table) flashTable "/flash/flash/a".toList = true ∧
        ¬OpenAs last flashTable plentiful "/flash/flash/a".toList := by
  have hrun := Machine.runWith_of_isSome scheduleFlash isSome_scheduleFlash
  refine ⟨_, _, hrun, by decide, ⟨by decide, by decide, ?_⟩,
    by decide, ?_⟩
  · exact ⟨"/flash/a".toList, 0, (), by decide, by decide, by decide⟩
  · rintro ⟨fullpath, index, ptr, hfull, -, hother⟩
    have hpath : dfsNormalizePath plentiful.workingDirectory true none "/flash/flash/a".toList =
        some "/flash/flash/a".toList := by decide
    obtain rfl := Option.some.inj (hpath.symm.trans hfull)
    have hopened : ((((fileMachine 16 none flashTable).exec (fun _ _ => True)
        (noFiles (fun _ => .cleared) fun _ => false) scheduleFlash).get
          isSome_scheduleFlash).1.opened ()) = some (0, "/flash/a".toList) := by decide
    rw [hopened, Option.some.injEq, Prod.mk.injEq] at hother
    exact absurd hother.2 (by decide)

end RtThread.Dfs
