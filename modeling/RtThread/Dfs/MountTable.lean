import RtThread.Dfs.Path
import Mathlib.Data.List.Forall2

set_option linter.all false

/-!
# Routing a path to a mounted filesystem

`dfs_filesystem_lookup` of `dfs_fs.c` chooses the entry of the filesystem table
for a path; `dfs_file_open`, `dfs_file_unlink`, `dfs_file_stat` and
`dfs_file_rename` of `dfs_file.c` call its operations with what `dfs_subdir`
leaves of the path.  A filesystem is named by its index in the table.
-/

namespace RtThread.Dfs

open ComponentPath

/-- `struct dfs_filesystem_ops`: its name, `DFS_FS_FLAG_FULLPATH`, and which of
its operations are present. -/
structure FilesystemOps where
  name : CString
  fullpath : Bool
  «open» : Bool
  mount : Bool
  unmount : Bool
  unlink : Bool
  stat : Bool
  rename : Bool
deriving DecidableEq

/-- `struct dfs_filesystem`, an entry of `filesystem_table`. -/
structure Filesystem where
  devId : Option ℕ
  path : Option CString
  ops : Option FilesystemOps
  data : Option ℕ
deriving DecidableEq

/-- The scan of the table in `dfs_filesystem_lookup`. -/
structure Lookup where
  fs : Option ℕ
  prefixlen : ℕ

/-- `mount` is a string prefix of `path` that the separator test does not
reject. -/
def Matches (mount path : CString) : Prop :=
  mount <+: path ∧ ¬(1 < mount.length ∧ mount.length < path.length ∧ path[mount.length]? ≠ some '/')

instance (mount path : CString) : Decidable (Matches mount path) :=
  inferInstanceAs (Decidable (_ ∧ _))

def lookupStep (path : CString) (lookup : Lookup) (iter : Filesystem × ℕ) : Lookup :=
  match iter.1.path, iter.1.ops with
  | some mount, some _ =>
    if mount.length < lookup.prefixlen then lookup
    else if Matches mount path then ⟨some iter.2, mount.length⟩
    else lookup
  | _, _ => lookup

def dfsFilesystemLookup (table : List Filesystem) (path : CString) : Option ℕ :=
  (table.zipIdx.foldl (lookupStep path) ⟨none, 0⟩).fs

/-- The mount path and the operations that the callers of the lookup read. -/
def mountedAt (table : List Filesystem) (index : ℕ) : Option (CString × FilesystemOps) := do
  let fs ← table[index]?
  let path ← fs.path
  let ops ← fs.ops
  return (path, ops)

/-- The error codes of `dfs_file.c` and `dfs_fs.c`. -/
inductive Code
  | eok
  | failed
  | einval
  | enodev
  | enomem
  | enoent
  | enotdir
  | enospc
  | ebusy
  | enosys
  | exdev
deriving DecidableEq

/-- How a file function ends: it answers by itself, it calls an operation of a
filesystem with path arguments (`none` for `NULL`) and returns its answer, or it
reads through a null pointer. -/
inductive Outcome
  | returns (code : Code)
  | calls (fs : ℕ) (arguments : List (Option CString))
  | faults
deriving DecidableEq

/-- A descriptor of the table that `fd_is_open` reads. -/
structure Descriptor where
  fs : Option ℕ
  fops : Bool
  path : Option CString
deriving DecidableEq

/-- What the file functions find outside the mount table: the working directory,
the descriptor table, and whether the n-th allocation of the call succeeds. -/
structure Environment where
  workingDirectory : Option CString
  descriptors : List (Option Descriptor)
  memory : ℕ → Bool

/-- `dfs_normalize_path` called with a null directory, as the `n`-th allocation
of the call. -/
def Environment.fullpath (env : Environment) (n : ℕ) (path : CString) : Option CString :=
  dfsNormalizePath env.workingDirectory (env.memory n) none path

/-- `fd_is_open`, `true` where it returns zero. -/
def fdIsOpen (env : Environment) (table : List Filesystem) (pathname : CString) : Bool :=
  match env.fullpath 1 pathname with
  | none => false
  | some fullpath =>
    match dfsFilesystemLookup table fullpath with
    | none => false
    | some index =>
      match mountedAt table index with
      | none => false
      | some (mount, _) =>
        let mountpath := if mount = ['/'] then fullpath else fullpath.drop mount.length
        env.descriptors.any fun fd =>
          match fd with
          | none => false
          | some fd => fd.fops && fd.fs = some index && fd.path = some mountpath

/-- The text that `dfs_file_open` and `dfs_file_unlink` use, the root where
`dfs_subdir` is `NULL`. -/
def subpath (mount fullpath : CString) : CString :=
  match dfsSubdir mount fullpath with
  | none => ['/']
  | some rest => rest

/-- `dfs_file_open`.  The copy of the sub-path is not checked for `NULL`. -/
def dfsFileOpen (env : Environment) (table : List Filesystem) (path : CString) : Outcome :=
  match env.fullpath 0 path with
  | none => .returns .enomem
  | some fullpath =>
    match dfsFilesystemLookup table fullpath with
    | none => .returns .enoent
    | some index =>
      match mountedAt table index with
      | none => .faults
      | some (mount, ops) =>
        let fdPath :=
          if ops.fullpath then some fullpath
          else if env.memory 1 then some (subpath mount fullpath)
          else none
        if ops.open then .calls index [fdPath] else .returns .enosys

/-- `dfs_file_unlink`. -/
def dfsFileUnlink (env : Environment) (table : List Filesystem) (path : CString) : Outcome :=
  match env.fullpath 0 path with
  | none => .returns .einval
  | some fullpath =>
    match dfsFilesystemLookup table fullpath with
    | none => .returns .enoent
    | some index =>
      if fdIsOpen env table fullpath then .returns .ebusy
      else
        match mountedAt table index with
        | none => .faults
        | some (mount, ops) =>
          if ops.unlink then
            if ops.fullpath then .calls index [some fullpath]
            else .calls index [some (subpath mount fullpath)]
          else .returns .enosys

/-- `dfs_file_stat`.  The root directory and a mount point are answered here. -/
def dfsFileStat (env : Environment) (table : List Filesystem) (path : CString) : Outcome :=
  match env.fullpath 0 path with
  | none => .returns .failed
  | some fullpath =>
    match dfsFilesystemLookup table fullpath with
    | none => .returns .enoent
    | some index =>
      match mountedAt table index with
      | none => .faults
      | some (mount, ops) =>
        if fullpath = ['/'] ∨ dfsSubdir mount fullpath = none then .returns .eok
        else if ops.stat then
          if ops.fullpath then .calls index [some fullpath]
          else .calls index [dfsSubdir mount fullpath]
        else .returns .enosys

/-- `dfs_file_rename`.  The two lookups are compared before either is checked
for `NULL`, and `dfs_subdir` is passed on as it is. -/
def dfsFileRename (env : Environment) (table : List Filesystem) (oldpath newpath : CString) :
    Outcome :=
  match env.fullpath 0 oldpath with
  | none => .returns .enoent
  | some oldfullpath =>
    match env.fullpath 1 newpath with
    | none => .returns .enoent
    | some newfullpath =>
      let oldfs := dfsFilesystemLookup table oldfullpath
      let newfs := dfsFilesystemLookup table newfullpath
      if oldfs = newfs then
        match oldfs with
        | none => .faults
        | some index =>
          match mountedAt table index with
          | none => .faults
          | some (mount, ops) =>
            if ops.rename then
              if ops.fullpath then .calls index [some oldfullpath, some newfullpath]
              else .calls index [dfsSubdir mount oldfullpath, dfsSubdir mount newfullpath]
            else .returns .enosys
      else .returns .exdev

/-! ## The scan of the table -/

/-- The entry at `index` is mounted at `mount`. -/
def Mounted (table : List Filesystem) (index : ℕ) (mount : CString) : Prop :=
  ∃ ops, mountedAt table index = some (mount, ops)

variable {table : List Filesystem} {index : ℕ} {mount : CString}

theorem mountedAt_eq_some_iff {ops : FilesystemOps} : mountedAt table index = some (mount, ops) ↔
      ∃ fs, table[index]? = some fs ∧ fs.path = some mount ∧ fs.ops = some ops := by
  simp only [mountedAt, Option.bind_eq_bind, Option.bind_eq_some_iff, Option.pure_def,
    Option.some.injEq, Prod.mk.injEq]
  constructor
  · rintro ⟨fs, hfs, path, hpath, found, hops, rfl, rfl⟩
    exact ⟨fs, hfs, hpath, hops⟩
  · rintro ⟨fs, hfs, hpath, hops⟩
    exact ⟨fs, hfs, mount, hpath, ops, hops, rfl, rfl⟩

theorem Mounted.mount_eq {left right : CString} (hleft : Mounted table index left)
    (hright : Mounted table index right) : left = right := by
  obtain ⟨leftOps, hleft⟩ := hleft
  obtain ⟨rightOps, hright⟩ := hright
  rw [hleft, Option.some.injEq, Prod.mk.injEq] at hright
  exact hright.1

theorem mounted_concat_iff {fs : Filesystem} : Mounted (table ++ [fs]) index mount ↔
      Mounted table index mount ∨
        index = table.length ∧ fs.path = some mount ∧ fs.ops.isSome := by
  simp only [Mounted, mountedAt_eq_some_iff]
  rcases lt_trichotomy index table.length with hlt | rfl | hgt
  · rw [List.getElem?_append_left hlt]
    simp [hlt.ne]
  · simp [Option.isSome_iff_exists]
  · rw [List.getElem?_eq_none (by rw [List.length_append, List.length_singleton]; omega),
      List.getElem?_eq_none hgt.le]
    simp [hgt.ne']

/-- What the scan has found in the entries it has passed. -/
def Lookup.Chosen (table : List Filesystem) (path : CString) (lookup : Lookup) : Prop :=
  (∀ index mount, Mounted table index mount → Matches mount path →
      lookup.fs.isSome ∧ mount.length ≤ lookup.prefixlen) ∧
    (∀ index ∈ lookup.fs, ∃ mount, Mounted table index mount ∧ Matches mount path ∧
      mount.length = lookup.prefixlen) ∧
    (lookup.fs = none → lookup.prefixlen = 0)

variable {path : CString}

theorem Lookup.Chosen.step {lookup : Lookup} (h : lookup.Chosen table path) (fs : Filesystem) :
    (lookupStep path lookup (fs, table.length)).Chosen (table ++ [fs]) path := by
  obtain ⟨hbound, hfound, hnone⟩ := h
  have hkeep : ∀ index ∈ lookup.fs, ∃ mount, Mounted (table ++ [fs]) index mount ∧
      Matches mount path ∧ mount.length = lookup.prefixlen := by
    intro index hindex
    obtain ⟨mount, hmounted, hmatches⟩ := hfound index hindex
    exact ⟨mount, mounted_concat_iff.2 (Or.inl hmounted), hmatches⟩
  unfold lookupStep
  split
  · rename_i mount ops hpath hops
    split
    · rename_i hshorter
      refine ⟨fun index other hmounted hmatches => ?_, hkeep, hnone⟩
      rcases mounted_concat_iff.1 hmounted with hmounted | ⟨-, hother, -⟩
      · exact hbound index other hmounted hmatches
      · rw [hpath, Option.some.injEq] at hother
        subst hother
        refine ⟨?_, hshorter.le⟩
        rw [Option.isSome_iff_ne_none]
        intro hfs
        rw [hnone hfs] at hshorter
        exact absurd hshorter (Nat.not_lt_zero _)
    · rename_i hlonger
      rw [not_lt] at hlonger
      split
      · rename_i hmatches
        refine ⟨fun index other hmounted hother => ⟨rfl, ?_⟩, ?_, nofun⟩
        · rcases mounted_concat_iff.1 hmounted with hmounted | ⟨-, heq, -⟩
          · exact (hbound index other hmounted hother).2.trans hlonger
          · rw [hpath, Option.some.injEq] at heq
            exact (congrArg List.length heq.symm).le
        · intro index hindex
          rw [Option.mem_def, Option.some.injEq] at hindex
          subst hindex
          have hops : fs.ops.isSome := Option.isSome_iff_exists.2 ⟨ops, hops⟩
          exact ⟨mount, mounted_concat_iff.2 (Or.inr ⟨rfl, hpath, hops⟩), hmatches, rfl⟩
      · rename_i hmatches
        refine ⟨fun index other hmounted hother => ?_, hkeep, hnone⟩
        rcases mounted_concat_iff.1 hmounted with hmounted | ⟨-, heq, -⟩
        · exact hbound index other hmounted hother
        · rw [hpath, Option.some.injEq] at heq
          exact absurd (heq ▸ hother) hmatches
  · rename_i hempty
    refine ⟨fun index other hmounted hother => ?_, hkeep, hnone⟩
    rcases mounted_concat_iff.1 hmounted with hmounted | ⟨-, hpath, hops⟩
    · exact hbound index other hmounted hother
    · obtain ⟨ops, hops⟩ := Option.isSome_iff_exists.1 hops
      exact absurd hops (hempty other ops hpath)

theorem lookup_chosen (table : List Filesystem) (path : CString) :
    (table.zipIdx.foldl (lookupStep path) ⟨none, 0⟩).Chosen table path := by
  induction table using List.reverseRecOn with
  | nil => exact ⟨by simp [Mounted, mountedAt], nofun, fun _ => rfl⟩
  | append_singleton table fs ih =>
    rw [List.zipIdx_append, List.foldl_append]
    simpa using ih.step fs

theorem dfsFilesystemLookup_eq_none (hnone : dfsFilesystemLookup table path = none)
    (hmounted : Mounted table index mount) : ¬Matches mount path := by
  intro hmatches
  have hfound := ((lookup_chosen table path).1 index mount hmounted hmatches).1
  change (dfsFilesystemLookup table path).isSome at hfound
  rw [hnone] at hfound
  exact Bool.false_ne_true hfound

theorem dfsFilesystemLookup_eq_some (hsome : dfsFilesystemLookup table path = some index) :
    ∃ mount, Mounted table index mount ∧ Matches mount path ∧
      ∀ other otherMount, Mounted table other otherMount → Matches otherMount path →
        otherMount.length ≤ mount.length := by
  obtain ⟨hbound, hfound, -⟩ := lookup_chosen table path
  obtain ⟨mount, hmounted, hmatches, hlength⟩ := hfound index hsome
  exact ⟨mount, hmounted, hmatches,
    fun other otherMount hother hmatch => hlength ▸ (hbound other otherMount hother hmatch).2⟩

/-! ## Routing -/

/-- A filesystem table whose mounted paths are distinct and normalized. -/
structure MountTable where
  entries : List Filesystem
  normalized : ∀ index mount, Mounted entries index mount → ∃ path : NormalPath, path.text = mount
  distinct : ∀ i j mount, Mounted entries i mount → Mounted entries j mount → i = j

/-- The entry at `index` has the longest mount path that is `path` or one of
its ancestors. -/
def MountTable.Serves (table : MountTable) (index : ℕ) (path : NormalPath) : Prop :=
  ∃ mount : NormalPath, Mounted table.entries index mount.text ∧ mount.Covers path ∧
    ∀ other (otherMount : NormalPath), Mounted table.entries other otherMount.text →
      otherMount.Covers path → otherMount.text.length ≤ mount.text.length

/-- The separator test keeps the string prefixes that are ancestors. -/
theorem matches_iff_covers (mount path : NormalPath) :
    Matches mount.text path.text ↔ mount.Covers path := by
  rw [NormalPath.Covers, prefix_iff_render mount.clean path.clean, Matches]
  refine and_congr_right fun hfront => ?_
  have hroot : mount.components = [] ↔ ¬1 < mount.text.length := by
    constructor
    · intro hnil
      simp [NormalPath.text, hnil]
    · intro hshort
      by_contra hne
      rw [NormalPath.text, render_of_ne_nil hne] at hshort
      exact hshort (one_lt_length_body mount.clean hne)
  rw [hroot, AtBoundary, List.head?_drop]
  change _ ↔ _ ∨ ∀ a ∈ path.text[mount.text.length]?, a = '/'
  have hend : path.text[mount.text.length]? = none ↔ ¬mount.text.length < path.text.length := by
    rw [List.getElem?_eq_none_iff, not_lt]
  cases hat : path.text[mount.text.length]? with
  | none => simp [hend.1 hat]
  | some c =>
    have hlt : mount.text.length < path.text.length := by
      by_contra hge
      rw [hend.2 hge] at hat
      cases hat
    simp only [hlt, Option.mem_some_iff, forall_eq', Option.some.injEq, ne_eq, true_and]
    tauto

namespace MountTable

variable (table : MountTable)

theorem serves_of_lookup {index : ℕ} {path : NormalPath}
    (hsome : dfsFilesystemLookup table.entries path.text = some index) :
    table.Serves index path := by
  obtain ⟨text, hmounted, hmatches, hlongest⟩ := dfsFilesystemLookup_eq_some hsome
  obtain ⟨mount, rfl⟩ := table.normalized index text hmounted
  exact ⟨mount, hmounted, (matches_iff_covers mount path).1 hmatches,
    fun other otherMount hother hcovers =>
      hlongest other otherMount.text hother ((matches_iff_covers otherMount path).2 hcovers)⟩

variable {table}

variable {path : NormalPath}

/-- Two mount points of the same length that cover one path are the same. -/
theorem Serves.unique {i j : ℕ} (hi : table.Serves i path) (hj : table.Serves j path) : i = j := by
  obtain ⟨left, hleft, hleftCovers, hleftLongest⟩ := hi
  obtain ⟨right, hright, hrightCovers, hrightLongest⟩ := hj
  have hlength : left.text.length = right.text.length :=
    le_antisymm (hrightLongest i left hleft hleftCovers) (hleftLongest j right hright hrightCovers)
  have heq : left = right := NormalPath.ext
    (eq_of_prefix_of_length_render_eq path.clean hleftCovers hrightCovers hlength)
  subst heq
  exact table.distinct i j left.text hleft hright

theorem lookup_eq_some_iff {index : ℕ} :
    dfsFilesystemLookup table.entries path.text = some index ↔ table.Serves index path := by
  refine ⟨table.serves_of_lookup, fun hserves => ?_⟩
  cases hlookup : dfsFilesystemLookup table.entries path.text with
  | none =>
    obtain ⟨mount, hmounted, hcovers, -⟩ := hserves
    exact absurd ((matches_iff_covers mount path).2 hcovers)
      (dfsFilesystemLookup_eq_none hlookup hmounted)
  | some found => rw [(table.serves_of_lookup hlookup).unique hserves]

theorem lookup_eq_none_iff : dfsFilesystemLookup table.entries path.text = none ↔
      ∀ index (mount : NormalPath), Mounted table.entries index mount.text →
        ¬mount.Covers path := by
  constructor
  · intro hnone index mount hmounted hcovers
    exact dfsFilesystemLookup_eq_none hnone hmounted ((matches_iff_covers mount path).2 hcovers)
  · intro hnone
    rw [Option.eq_none_iff_forall_ne_some]
    intro index hsome
    obtain ⟨mount, hmounted, hcovers, -⟩ := table.serves_of_lookup hsome
    exact hnone index mount hmounted hcovers

end MountTable

/-! ## The paths handed to a filesystem -/

/-- The filesystem at `index` takes paths below its mount point and has the
operation. -/
def Takes (table : List Filesystem) (index : ℕ) (operation : FilesystemOps → Bool) : Prop :=
  ∃ mount ops, mountedAt table index = some (mount, ops) ∧ ops.fullpath = false ∧
    operation ops = true

/-- Where a filesystem without `DFS_FS_FLAG_FULLPATH` is called, every argument
is what its mount point leaves of the path. -/
def HandsRemainder (table : List Filesystem) (outcome : Outcome) (paths : List CString) : Prop :=
  ∀ index arguments, outcome = .calls index arguments →
    ∀ mount ops, mountedAt table index = some (mount, ops) → ops.fullpath = false →
      List.Forall₂ (fun argument path => ∃ rest, argument = some rest ∧ IsRemainder mount path rest)
        arguments paths

theorem Environment.fullpath_text (env : Environment) (n : ℕ) (path : NormalPath) :
    env.fullpath n path.text = if env.memory n then some path.text else none := by
  rw [fullpath]
  cases env.memory n with
  | true => exact dfsNormalizePath_text env.workingDirectory path
  | false => rw [dfsNormalizePath, path.text_head?]; rfl

theorem subpath_of_covers {mount path : NormalPath} (hcovers : mount.Covers path) :
    IsRemainder mount.text path.text (subpath mount.text path.text) := by
  by_cases heq : path = mount
  · subst heq
    rw [subpath, dfsSubdir_self, IsRemainder, if_pos rfl]
  · obtain ⟨rest, hsubdir, hrest⟩ := dfsSubdir_of_covers hcovers heq
    rw [subpath, hsubdir]
    exact hrest

/-- `dfs_subdir` gives the remainder except at the mount point itself. -/
theorem dfsSubdir_isRemainder_iff {mount path : NormalPath} (hcovers : mount.Covers path) :
    (∃ rest, dfsSubdir mount.text path.text = some rest ∧ IsRemainder mount.text path.text rest) ↔
      path ≠ mount := by
  refine ⟨?_, dfsSubdir_of_covers hcovers⟩
  rintro ⟨rest, hsubdir, -⟩ rfl
  rw [dfsSubdir_self] at hsubdir
  cases hsubdir

namespace MountTable

variable {table : MountTable} {env : Environment}

variable {index : ℕ} {path : NormalPath} {mount : CString} {ops : FilesystemOps}

/-- The mount point of the filesystem that serves a path covers it. -/
theorem Serves.covers (hserves : table.Serves index path)
    (hat : mountedAt table.entries index = some (mount, ops)) :
    ∃ point : NormalPath, point.text = mount ∧ point.Covers path := by
  obtain ⟨point, hmounted, hcovers, -⟩ := hserves
  exact ⟨point, hmounted.mount_eq ⟨ops, hat⟩, hcovers⟩

/-- The lookup finds nothing, or the filesystem that serves the path. -/
theorem lookup_cases (table : MountTable) (path : NormalPath) :
    dfsFilesystemLookup table.entries path.text = none ∨
      ∃ index mount ops, dfsFilesystemLookup table.entries path.text = some index ∧
        table.Serves index path ∧ mountedAt table.entries index = some (mount, ops) := by
  cases hlookup : dfsFilesystemLookup table.entries path.text with
  | none => exact Or.inl rfl
  | some index =>
    have hserves := table.serves_of_lookup hlookup
    obtain ⟨mount, ⟨ops, hat⟩, -⟩ := id hserves
    exact Or.inr ⟨index, mount.text, ops, rfl, hserves, hat⟩

theorem dfsFileOpen_of_serves (hmemory : env.memory 0 = true) (hserves : table.Serves index path)
    (hat : mountedAt table.entries index = some (mount, ops)) (hopen : ops.open = true) :
    dfsFileOpen env table.entries path.text =
      .calls index [if ops.fullpath then some path.text
        else if env.memory 1 then some (subpath mount path.text) else none] := by
  simp [dfsFileOpen, env.fullpath_text, hmemory, lookup_eq_some_iff.2 hserves, hat, hopen]

variable {arguments : List (Option CString)}

theorem dfsFileOpen_calls
    (hcalls : dfsFileOpen env table.entries path.text = .calls index arguments) :
    env.memory 0 = true ∧ table.Serves index path ∧
      ∃ mount ops, mountedAt table.entries index = some (mount, ops) ∧ ops.open = true ∧
        arguments = [if ops.fullpath then some path.text
          else if env.memory 1 then some (subpath mount path.text) else none] := by
  cases hmemory : env.memory 0 with
  | false => simp [dfsFileOpen, env.fullpath_text, hmemory] at hcalls
  | true =>
    rcases table.lookup_cases path with hlookup | ⟨found, mount, ops, hlookup, hserves, hat⟩
    · simp [dfsFileOpen, env.fullpath_text, hmemory, hlookup] at hcalls
    · simp only [dfsFileOpen, env.fullpath_text, hmemory, hlookup, hat, if_true] at hcalls
      split at hcalls
      · rename_i hopen
        cases hcalls
        exact ⟨rfl, hserves, mount, ops, hat, hopen, rfl⟩
      · cases hcalls

theorem dfsFileUnlink_calls
    (hcalls : dfsFileUnlink env table.entries path.text = .calls index arguments) :
    table.Serves index path ∧
      ∃ mount ops, mountedAt table.entries index = some (mount, ops) ∧
        (ops.fullpath = false → arguments = [some (subpath mount path.text)]) := by
  cases hmemory : env.memory 0 with
  | false => simp [dfsFileUnlink, env.fullpath_text, hmemory] at hcalls
  | true =>
    rcases table.lookup_cases path with hlookup | ⟨found, mount, ops, hlookup, hserves, hat⟩
    · simp [dfsFileUnlink, env.fullpath_text, hmemory, hlookup] at hcalls
    · simp only [dfsFileUnlink, env.fullpath_text, hmemory, hlookup, hat, if_true] at hcalls
      split at hcalls
      · cases hcalls
      · split at hcalls
        · split at hcalls <;> cases hcalls
          · rename_i hfull
            exact ⟨hserves, mount, ops, hat, fun hsub => by simp [hsub] at hfull⟩
          · exact ⟨hserves, mount, ops, hat, fun _ => rfl⟩
        · cases hcalls

theorem dfsFileStat_calls
    (hcalls : dfsFileStat env table.entries path.text = .calls index arguments) :
    table.Serves index path ∧
      ∃ mount ops, mountedAt table.entries index = some (mount, ops) ∧
        dfsSubdir mount path.text ≠ none ∧
          (ops.fullpath = false → arguments = [dfsSubdir mount path.text]) := by
  cases hmemory : env.memory 0 with
  | false => simp [dfsFileStat, env.fullpath_text, hmemory] at hcalls
  | true =>
    rcases table.lookup_cases path with hlookup | ⟨found, mount, ops, hlookup, hserves, hat⟩
    · simp [dfsFileStat, env.fullpath_text, hmemory, hlookup] at hcalls
    · simp only [dfsFileStat, env.fullpath_text, hmemory, hlookup, hat, if_true] at hcalls
      split at hcalls
      · cases hcalls
      · rename_i hbelow
        rw [not_or] at hbelow
        split at hcalls
        · split at hcalls <;> cases hcalls
          · rename_i hfull
            exact ⟨hserves, mount, ops, hat, hbelow.2, fun hsub => by simp [hsub] at hfull⟩
          · exact ⟨hserves, mount, ops, hat, hbelow.2, fun _ => rfl⟩
        · cases hcalls

variable {oldpath newpath : NormalPath}

theorem dfsFileRename_of_serves (hold : env.memory 0 = true) (hnew : env.memory 1 = true)
    (holdServes : table.Serves index oldpath) (hnewServes : table.Serves index newpath)
    (hat : mountedAt table.entries index = some (mount, ops)) (hrename : ops.rename = true)
    (hsub : ops.fullpath = false) : dfsFileRename env table.entries oldpath.text newpath.text =
      .calls index [dfsSubdir mount oldpath.text, dfsSubdir mount newpath.text] := by
  simp [dfsFileRename, env.fullpath_text, hold, hnew, lookup_eq_some_iff.2 holdServes,
    lookup_eq_some_iff.2 hnewServes, hat, hrename, hsub]

theorem dfsFileRename_calls
    (hcalls : dfsFileRename env table.entries oldpath.text newpath.text = .calls index arguments) :
    env.memory 0 = true ∧ env.memory 1 = true ∧
      table.Serves index oldpath ∧ table.Serves index newpath ∧
        ∃ mount ops, mountedAt table.entries index = some (mount, ops) ∧ ops.rename = true ∧
          (ops.fullpath = false →
            arguments = [dfsSubdir mount oldpath.text, dfsSubdir mount newpath.text]) := by
  cases hold : env.memory 0 with
  | false => simp [dfsFileRename, env.fullpath_text, hold] at hcalls
  | true =>
    cases hnew : env.memory 1 with
    | false => simp [dfsFileRename, env.fullpath_text, hold, hnew] at hcalls
    | true =>
      simp only [dfsFileRename, env.fullpath_text, hold, hnew, if_true] at hcalls
      split at hcalls
      · rename_i hsame
        rcases table.lookup_cases oldpath with hlookup | ⟨found, mount, ops, hlookup, hserves, hat⟩
        · simp [hlookup] at hcalls
        · simp only [hlookup, hat] at hcalls
          split at hcalls
          · rename_i hrename
            have hother := table.serves_of_lookup (hsame.symm.trans hlookup)
            split at hcalls <;> cases hcalls
            · rename_i hfull
              exact ⟨rfl, rfl, hserves, hother, mount, ops, hat, hrename,
                fun hsub => by simp [hsub] at hfull⟩
            · exact ⟨rfl, rfl, hserves, hother, mount, ops, hat, hrename, fun _ => rfl⟩
          · cases hcalls
      · cases hcalls

/-- The copy of the path for a descriptor can be allocated where the filesystem
is going to be asked to open it. -/
def CopyAllocated (table : MountTable) (env : Environment) (path : NormalPath) : Prop :=
  ∀ index, table.Serves index path → Takes table.entries index FilesystemOps.open →
    env.memory 0 = true → env.memory 1 = true

/-- Where one filesystem is asked to rename a path, neither name is its mount
point. -/
def RenamesBelowMount (table : MountTable) (env : Environment) (oldpath newpath : NormalPath) :
    Prop :=
  ∀ index, table.Serves index oldpath → table.Serves index newpath →
    Takes table.entries index FilesystemOps.rename → env.memory 0 = true → env.memory 1 = true →
      ¬Mounted table.entries index oldpath.text ∧ ¬Mounted table.entries index newpath.text

theorem open_handsRemainder_iff :
    HandsRemainder table.entries (dfsFileOpen env table.entries path.text) [path.text] ↔
      table.CopyAllocated env path := by
  constructor
  · rintro hhands index hserves ⟨mount, ops, hat, hsub, hopen⟩ hmemory
    have hargument := hhands index _ (dfsFileOpen_of_serves hmemory hserves hat hopen) mount ops
      hat hsub
    rw [List.forall₂_cons] at hargument
    obtain ⟨rest, hrest, -⟩ := hargument.1
    by_contra hcopy
    simp [hsub, hcopy] at hrest
  · intro hallocated index arguments hcalls mount ops hat hsub
    obtain ⟨hmemory, hserves, found, foundOps, hfound, hopen, rfl⟩ := dfsFileOpen_calls hcalls
    rw [hat, Option.some.injEq, Prod.mk.injEq] at hfound
    obtain ⟨rfl, rfl⟩ := hfound
    obtain ⟨point, rfl, hcovers⟩ := hserves.covers hat
    have hcopy := hallocated index hserves ⟨_, _, hat, hsub, hopen⟩ hmemory
    refine List.Forall₂.cons ⟨subpath point.text path.text, ?_, subpath_of_covers hcovers⟩ .nil
    simp [hsub, hcopy]

theorem unlink_handsRemainder (table : MountTable) (env : Environment) (path : NormalPath) :
    HandsRemainder table.entries (dfsFileUnlink env table.entries path.text) [path.text] := by
  intro index arguments hcalls mount ops hat hsub
  obtain ⟨hserves, found, foundOps, hfound, hargument⟩ := dfsFileUnlink_calls hcalls
  rw [hat, Option.some.injEq, Prod.mk.injEq] at hfound
  obtain ⟨rfl, rfl⟩ := hfound
  obtain ⟨point, rfl, hcovers⟩ := hserves.covers hat
  rw [hargument hsub]
  exact List.Forall₂.cons ⟨_, rfl, subpath_of_covers hcovers⟩ .nil

theorem stat_handsRemainder (table : MountTable) (env : Environment) (path : NormalPath) :
    HandsRemainder table.entries (dfsFileStat env table.entries path.text) [path.text] := by
  intro index arguments hcalls mount ops hat hsub
  obtain ⟨hserves, found, foundOps, hfound, hbelow, hargument⟩ := dfsFileStat_calls hcalls
  rw [hat, Option.some.injEq, Prod.mk.injEq] at hfound
  obtain ⟨rfl, rfl⟩ := hfound
  obtain ⟨point, rfl, hcovers⟩ := hserves.covers hat
  have hne : path ≠ point := by
    rintro rfl
    exact hbelow (dfsSubdir_self _)
  rw [hargument hsub]
  exact List.Forall₂.cons ((dfsSubdir_isRemainder_iff hcovers).2 hne) .nil

theorem rename_handsRemainder_iff :
    HandsRemainder table.entries (dfsFileRename env table.entries oldpath.text newpath.text)
        [oldpath.text, newpath.text] ↔
      table.RenamesBelowMount env oldpath newpath := by
  have hpoint : ∀ (point path : NormalPath) {index : ℕ} {ops : FilesystemOps},
      mountedAt table.entries index = some (point.text, ops) →
        (path ≠ point ↔ ¬Mounted table.entries index path.text) := by
    intro point path index ops hat
    rw [not_iff_not]
    constructor
    · rintro rfl
      exact ⟨ops, hat⟩
    · exact fun hmounted => NormalPath.text_injective (hmounted.mount_eq ⟨ops, hat⟩)
  constructor
  · rintro hhands index hold hnew ⟨mount, ops, hat, hsub, hrename⟩ holdMemory hnewMemory
    have harguments := hhands index _
      (dfsFileRename_of_serves holdMemory hnewMemory hold hnew hat hrename hsub) mount ops hat hsub
    rw [List.forall₂_cons, List.forall₂_cons] at harguments
    obtain ⟨holdArgument, hnewArgument, -⟩ := harguments
    obtain ⟨point, rfl, holdCovers⟩ := hold.covers hat
    obtain ⟨other, hother, hnewCovers⟩ := hnew.covers hat
    obtain rfl : other = point := NormalPath.text_injective hother
    exact ⟨(hpoint other oldpath hat).1 ((dfsSubdir_isRemainder_iff holdCovers).1 holdArgument),
      (hpoint other newpath hat).1 ((dfsSubdir_isRemainder_iff hnewCovers).1 hnewArgument)⟩
  · intro hbelow index arguments hcalls mount ops hat hsub
    obtain ⟨holdMemory, hnewMemory, hold, hnew, found, foundOps, hfound, hrename, harguments⟩ :=
      dfsFileRename_calls hcalls
    rw [hat, Option.some.injEq, Prod.mk.injEq] at hfound
    obtain ⟨rfl, rfl⟩ := hfound
    obtain ⟨point, rfl, holdCovers⟩ := hold.covers hat
    obtain ⟨other, hother, hnewCovers⟩ := hnew.covers hat
    obtain rfl : other = point := NormalPath.text_injective hother
    obtain ⟨holdBelow, hnewBelow⟩ :=
      hbelow index hold hnew ⟨_, _, hat, hsub, hrename⟩ holdMemory hnewMemory
    rw [harguments hsub]
    exact .cons ((dfsSubdir_isRemainder_iff holdCovers).2 ((hpoint other oldpath hat).2 holdBelow))
      (.cons ((dfsSubdir_isRemainder_iff hnewCovers).2 ((hpoint other newpath hat).2 hnewBelow))
        .nil)

end MountTable

/-! ## Routing as a whole -/

/-- The file functions that hand a path on. -/
inductive Operation
  | «open»
  | unlink
  | stat
  | rename

/-- The path is looked up at its longest ancestor and handed on as what its
mount point leaves of it. -/
structure Routed (table : MountTable) (env : Operation → Environment)
    (path oldpath newpath : NormalPath) : Prop where
  found : ∀ index,
    dfsFilesystemLookup table.entries path.text = some index ↔ table.Serves index path
  missing : dfsFilesystemLookup table.entries path.text = none ↔
    ∀ index (mount : NormalPath), Mounted table.entries index mount.text → ¬mount.Covers path
  opened : HandsRemainder table.entries
    (dfsFileOpen (env .open) table.entries path.text) [path.text]
  unlinked : HandsRemainder table.entries
    (dfsFileUnlink (env .unlink) table.entries path.text) [path.text]
  examined : HandsRemainder table.entries
    (dfsFileStat (env .stat) table.entries path.text) [path.text]
  renamed : HandsRemainder table.entries
    (dfsFileRename (env .rename) table.entries oldpath.text newpath.text)
      [oldpath.text, newpath.text]

/-- Every normalized path is routed to the filesystem mounted nearest above it,
except that the sub-path of a descriptor may find no memory and that renaming a
mount point hands over a null path. -/
theorem mount_routing (table : MountTable) (env : Operation → Environment)
    (path oldpath newpath : NormalPath) :
    Routed table env path oldpath newpath ↔
      table.CopyAllocated (env .open) path ∧
        table.RenamesBelowMount (env .rename) oldpath newpath := by
  constructor
  · intro hrouted
    exact ⟨MountTable.open_handsRemainder_iff.1 hrouted.opened,
      MountTable.rename_handsRemainder_iff.1 hrouted.renamed⟩
  · rintro ⟨hallocated, hbelow⟩
    exact {
      found := fun _ => MountTable.lookup_eq_some_iff
      missing := MountTable.lookup_eq_none_iff
      opened := MountTable.open_handsRemainder_iff.2 hallocated
      unlinked := table.unlink_handsRemainder (env .unlink) path
      examined := table.stat_handsRemainder (env .stat) path
      renamed := MountTable.rename_handsRemainder_iff.2 hbelow }

theorem mounted_singleton {fs : Filesystem} {index : ℕ} {mount : CString}
    (hmounted : Mounted [fs] index mount) : index = 0 ∧ fs.path = some mount := by
  rw [← List.nil_append [fs]] at hmounted
  rcases mounted_concat_iff.1 hmounted with ⟨ops, hat⟩ | ⟨hindex, hpath, -⟩
  · simp [mountedAt] at hat
  · exact ⟨hindex, hpath⟩

/-- A card mounted at `/sd`. -/
def cardTable : MountTable where
  entries := [⟨none, some ['/', 's', 'd'],
    some ⟨['e', 'l', 'm'], false, true, true, true, true, true, true⟩, none⟩]
  normalized := by
    intro index mount hmounted
    cases (mounted_singleton hmounted).2
    exact ⟨⟨[['s', 'd']], by simp [IsName]⟩, rfl⟩
  distinct := by
    intro i j mount hi hj
    rw [(mounted_singleton hi).1, (mounted_singleton hj).1]

/-- Renaming the mount point calls the filesystem with a null path. -/
theorem rename_of_mount_point_hands_null :
    let card : NormalPath := ⟨[['s', 'd']], by simp [IsName]⟩
    let file : NormalPath := ⟨[['s', 'd'], ['a']], by simp [IsName]⟩
    let env : Environment := ⟨none, [], fun _ => true⟩
    dfsFileRename env cardTable.entries card.text file.text = .calls 0 [none, some ['/', 'a']] ∧
      ¬Routed cardTable (fun _ => env) file card file := by
  refine ⟨by decide, fun hrouted => ?_⟩
  have harguments := hrouted.renamed 0 [none, some ['/', 'a']] (by decide) _ _ rfl rfl
  rw [List.forall₂_cons] at harguments
  obtain ⟨rest, hrest, -⟩ := harguments.1
  cases hrest

end RtThread.Dfs
