import RtThread.Core.Machine
import RtThread.Dfs.MountTable

set_option linter.all false

/-!
# Mounting and unmounting

`dfs_mount` and `dfs_unmount` of `dfs_fs.c` over the filesystem table.  What
they meet outside the table (devices, memory, the answers of the filesystems)
is chosen with each call.  The table is cleared when the device file system is
initialised, and every exit of `dfs_mount` after the entry has been filled
clears it again.
-/

namespace RtThread.Dfs

open RtThread.Core

/-- An entry after `memset`. -/
def Filesystem.cleared : Filesystem := ⟨none, none, none, none⟩

/-- The path belongs to an entry in use. -/
def Occupied (table : List Filesystem) (path : CString) : Prop :=
  ∃ index, Mounted table index path

/-- A call of `dfs_mount` and what it meets.  `device` is absent when
`device_name` is `NULL`, and `some none` when there is no such device;
`operationTable` holds the registered types, `opens`, `deviceOpens` and `mounts`
say whether the filesystem opens the directory, the device opens and the `mount`
operation succeeds, and `data` is what that leaves in the entry. -/
structure MountRequest where
  device : Option (Option ℕ)
  path : CString
  filesystemtype : CString
  operationTable : List (Option FilesystemOps)
  env : Environment
  openEnv : Environment
  opens : Bool
  deviceOpens : Bool
  mounts : Bool
  data : Option ℕ

/-- A call of `dfs_unmount`: whether the `unmount` operation succeeds, and what
it leaves in the entry. -/
structure UnmountRequest where
  specialfile : CString
  env : Environment
  unmounts : Bool
  data : Option ℕ

/-- The value returned, with the error number of a failed call where one is
set. -/
inductive Result
  | zero
  | minusOne (errno : Option Code)
deriving DecidableEq

namespace MountRequest

/-- The search for the filesystem type. -/
def operations (request : MountRequest) : Option FilesystemOps :=
  request.operationTable.findSome? fun
    | none => none
    | some ops => if ops.name = request.filesystemtype then some ops else none

/-- `dfs_file_open` of the mount point. -/
def opensDirectory (request : MountRequest) (table : List Filesystem) (fullpath : CString) : Bool :=
  match dfsFileOpen request.openEnv table fullpath with
  | .calls _ _ => request.opens
  | _ => false

/-- `/` and `/dev` are mounted without a directory to hold them. -/
def pathExists (request : MountRequest) (table : List Filesystem) (fullpath : CString) : Bool :=
  fullpath = ['/'] || fullpath = ['/', 'd', 'e', 'v'] || request.opensDirectory table fullpath

/-- The device opens, where there is one. -/
def deviceReady (request : MountRequest) : Bool :=
  request.device.isNone || request.deviceOpens

end MountRequest

/-- The outcome of the search for an empty entry. -/
inductive Search
  | mounted
  | full
  | empty (index : ℕ)
deriving DecidableEq

/-- The loop of `dfs_mount` over the table: `fs` is the first empty entry passed,
and the path of an entry in use is compared with `path`. -/
def searchEntry (path : CString) : (entries : List (Filesystem × ℕ)) → (fs : Option ℕ) → Search
  | [], none => .full
  | [], some index => .empty index
  | (iter, index) :: entries, fs =>
    if iter.ops = none then searchEntry path entries (fs.or (some index))
    else if iter.path = some path then .mounted
    else searchEntry path entries fs

/-- The checks of `dfs_mount` before the table is locked for the search. -/
def checkMount (table : List Filesystem) (request : MountRequest) :
    Except Code (FilesystemOps × CString) :=
  if request.device = some none then .error .enodev
  else
    match request.operations with
    | none => .error .enodev
    | some ops =>
      if ops.mount = false then .error .enosys
      else
        match request.env.fullpath 0 request.path with
        | none => .error .enotdir
        | some fullpath =>
          if request.pathExists table fullpath then .ok (ops, fullpath) else .error .enotdir

/-- The search for an entry and the mount in it.  The search is given the path as
the caller spelled it, and the entry records the normalized path. -/
def registerMount (table : List Filesystem) (request : MountRequest) (ops : FilesystemOps)
    (fullpath : CString) : List Filesystem × Result :=
  match searchEntry request.path table.zipIdx none with
  | .mounted => (table, .minusOne (some .einval))
  | .full => (table, .minusOne (some .enospc))
  | .empty index =>
    let devId := request.device.join
    let data := (table[index]?.getD .cleared).data
    let registered := table.set index ⟨devId, some fullpath, some ops, data⟩
    if request.deviceReady = false then (registered.set index .cleared, .minusOne none)
    else if request.mounts = false then (registered.set index .cleared, .minusOne none)
    else (registered.set index ⟨devId, some fullpath, some ops, request.data⟩, .zero)

/-- `dfs_mount`. -/
def dfsMount (table : List Filesystem) (request : MountRequest) : List Filesystem × Result :=
  match checkMount table request with
  | .error errno => (table, .minusOne (some errno))
  | .ok (ops, fullpath) => registerMount table request ops fullpath

/-- `dfs_unmount`. -/
def dfsUnmount (table : List Filesystem) (request : UnmountRequest) : List Filesystem × Result :=
  match request.env.fullpath 0 request.specialfile with
  | none => (table, .minusOne (some .enotdir))
  | some fullpath =>
    match table.findIdx? fun iter => iter.path = some fullpath with
    | none => (table, .minusOne none)
    | some index =>
      match mountedAt table index, table[index]? with
      | some (_, ops), some fs =>
        if ops.unmount = false then (table, .minusOne none)
        else if request.unmounts = false then
          (table.set index { fs with data := request.data }, .minusOne none)
        else (table.set index .cleared, .zero)
      -- an entry with a path has operations
      | _, _ => (table, .minusOne none)

inductive MountAction
  | mount (request : MountRequest)
  | unmount (request : UnmountRequest)

def mountMachine : Machine (List Filesystem) MountAction Result where
  step table
    | .mount request => some (dfsMount table request)
    | .unmount request => some (dfsUnmount table request)

/-- The table after `dfs_init`. -/
def initTable (filesystemsMax : ℕ) : List Filesystem := List.replicate filesystemsMax .cleared

/-- No two entries in use have the same path. -/
def UniquePaths (table : List Filesystem) : Prop :=
  ∀ i j mount, Mounted table i mount → Mounted table j mount → i = j

/-- A `dfs_mount` that returns -1 leaves the table as it was. -/
def RolledBack (table : List Filesystem) : MountAction → Prop
  | .mount request =>
    ∀ next errno, dfsMount table request = (next, .minusOne errno) → next = table
  | .unmount _ => True

/-! ## The entries of the table -/

/-- An entry is in use or cleared as a whole. -/
def Clear (table : List Filesystem) : Prop :=
  ∀ fs ∈ table, fs = .cleared ∨ fs.path.isSome ∧ fs.ops.isSome

variable {table : List Filesystem}

theorem Clear.set (h : Clear table) (index : ℕ) {fs : Filesystem}
    (hfs : fs = .cleared ∨ fs.path.isSome ∧ fs.ops.isSome) : Clear (table.set index fs) := by
  intro other hother
  rcases List.mem_or_eq_of_mem_set hother with hmem | rfl
  · exact h other hmem
  · exact hfs

theorem clear_initTable (filesystemsMax : ℕ) : Clear (initTable filesystemsMax) :=
  fun _ hfs => Or.inl (List.eq_of_mem_replicate hfs)

theorem not_mounted_cleared {index : ℕ} {mount : CString} (hat : table[index]? = some .cleared) :
    ¬Mounted table index mount := by
  rintro ⟨ops, hmounted⟩
  obtain ⟨fs, hfs, hpath, -⟩ := mountedAt_eq_some_iff.1 hmounted
  rw [hat, Option.some.injEq] at hfs
  rw [← hfs] at hpath
  cases hpath

theorem not_mounted_initTable (filesystemsMax index : ℕ) (mount : CString) :
    ¬Mounted (initTable filesystemsMax) index mount := by
  intro hmounted
  obtain ⟨ops, hat⟩ := id hmounted
  obtain ⟨fs, hfs, -⟩ := mountedAt_eq_some_iff.1 hat
  rw [List.eq_of_mem_replicate (List.mem_of_getElem? hfs)] at hfs
  exact not_mounted_cleared hfs hmounted

theorem mounted_set_iff {index other : ℕ} {fs : Filesystem} {mount : CString}
    (hindex : index < table.length) : Mounted (table.set index fs) other mount ↔
      other = index ∧ fs.path = some mount ∧ fs.ops.isSome ∨
        other ≠ index ∧ Mounted table other mount := by
  simp only [Mounted, mountedAt_eq_some_iff]
  by_cases heq : other = index
  · subst heq
    rw [List.getElem?_set_self hindex]
    simp [Option.isSome_iff_exists]
  · rw [List.getElem?_set_ne (Ne.symm heq)]
    simp [heq]

/-- An entry that keeps its path or loses it keeps the paths unique. -/
theorem UniquePaths.set (h : UniquePaths table) {index : ℕ} {fs : Filesystem}
    (hindex : index < table.length)
    (hpath : ∀ mount, fs.path = some mount → fs.ops.isSome → ∀ other, other ≠ index →
      ¬Mounted table other mount) :
    UniquePaths (table.set index fs) := by
  intro i j mount hi hj
  rcases (mounted_set_iff hindex).1 hi with ⟨rfl, hmount, hops⟩ | ⟨hi, hiMounted⟩
  · rcases (mounted_set_iff hindex).1 hj with ⟨rfl, -⟩ | ⟨hj, hjMounted⟩
    · rfl
    · exact absurd hjMounted (hpath mount hmount hops j hj)
  · rcases (mounted_set_iff hindex).1 hj with ⟨rfl, hmount, hops⟩ | ⟨hj, hjMounted⟩
    · exact absurd hiMounted (hpath mount hmount hops i hi)
    · exact h i j mount hiMounted hjMounted

/-! ## Mounting -/

section Search

variable {path : CString} {entries : List (Filesystem × ℕ)} {fs : Option ℕ}

theorem searchEntry_cons (entry : Filesystem × ℕ) :
    searchEntry path (entry :: entries) fs =
      if entry.1.ops = none then searchEntry path entries (fs.or (some entry.2))
      else if entry.1.path = some path then .mounted
      else searchEntry path entries fs := rfl

theorem searchEntry_eq_mounted_iff :
    searchEntry path entries fs = .mounted ↔
      ∃ entry ∈ entries, entry.1.ops ≠ none ∧ entry.1.path = some path := by
  induction entries generalizing fs with
  | nil =>
    cases fs with
    | none => exact iff_of_false (by rintro ⟨⟩) (by simp)
    | some found => exact iff_of_false (by rintro ⟨⟩) (by simp)
  | cons entry entries ih =>
    rw [searchEntry_cons, List.exists_mem_cons_iff]
    split
    · rename_i hempty
      simp [ih, hempty]
    · rename_i hused
      split
      · rename_i hpath
        simp [hused, hpath]
      · rename_i hpath
        simp [ih, hpath]

theorem searchEntry_eq_empty {index : ℕ} (hempty : searchEntry path entries fs = .empty index) :
    fs = some index ∨ ∃ iter, (iter, index) ∈ entries ∧ iter.ops = none := by
  induction entries generalizing fs with
  | nil =>
    cases fs with
    | none => cases hempty
    | some found => cases hempty; exact Or.inl rfl
  | cons entry entries ih =>
    rw [searchEntry_cons] at hempty
    split at hempty
    · rename_i hops
      rcases ih hempty with hfs | ⟨iter, hmem, hnone⟩
      · cases fs with
        | none =>
          rw [Option.none_or, Option.some.injEq] at hfs
          subst hfs
          exact Or.inr ⟨entry.1, List.mem_cons_self, hops⟩
        | some found => exact Or.inl hfs
      · exact Or.inr ⟨iter, List.mem_cons_of_mem _ hmem, hnone⟩
    · split at hempty
      · cases hempty
      · rcases ih hempty with hfs | ⟨iter, hmem, hnone⟩
        · exact Or.inl hfs
        · exact Or.inr ⟨iter, List.mem_cons_of_mem _ hmem, hnone⟩

theorem searchEntry_eq_full (hfull : searchEntry path entries fs = .full) :
    fs = none ∧ ∀ entry ∈ entries, entry.1.ops ≠ none := by
  induction entries generalizing fs with
  | nil =>
    cases fs with
    | none => exact ⟨rfl, fun _ hentry => absurd hentry List.not_mem_nil⟩
    | some found => cases hfull
  | cons entry entries ih =>
    rw [searchEntry_cons] at hfull
    split at hfull
    · cases fs with
      | none => cases (ih hfull).1
      | some found => cases (ih hfull).1
    · rename_i hused
      split at hfull
      · cases hfull
      · obtain ⟨hfs, hrest⟩ := ih hfull
        exact ⟨hfs, List.forall_mem_cons.2 ⟨hused, hrest⟩⟩

end Search

variable {table : List Filesystem}

/-- The loop sees a mounted path exactly when an entry in use has it. -/
theorem searchEntry_table_eq_mounted_iff {path : CString} :
    searchEntry path table.zipIdx none = .mounted ↔ Occupied table path := by
  rw [searchEntry_eq_mounted_iff]
  simp only [Occupied, Mounted, mountedAt_eq_some_iff, List.mem_zipIdx_iff_getElem?, Prod.exists,
    ne_eq, ← Option.isSome_iff_ne_none, Option.isSome_iff_exists]
  constructor
  · rintro ⟨fs, index, hat, ⟨ops, hops⟩, hpath⟩
    exact ⟨index, ops, fs, hat, hpath, hops⟩
  · rintro ⟨index, ops, fs, hat, hpath, hops⟩
    exact ⟨fs, index, hat, ⟨ops, hops⟩, hpath⟩

/-- What a call of `dfs_mount` has to meet to reach the table. -/
structure MountRequest.Checked (request : MountRequest) (table : List Filesystem)
    (ops : FilesystemOps) (fullpath : CString) : Prop where
  device : request.device ≠ some none
  operations : request.operations = some ops
  mount : ops.mount = true
  normalized : request.env.fullpath 0 request.path = some fullpath
  pathExists : request.pathExists table fullpath = true

/-- What it then has to meet to fill an entry. -/
structure MountRequest.Accepted (request : MountRequest) (table : List Filesystem) : Prop where
  unmounted : ¬Occupied table request.path
  room : ∃ fs ∈ table, fs.ops = none
  deviceReady : request.deviceReady = true
  mounts : request.mounts = true

theorem checkMount_eq_ok_iff {request : MountRequest} {ops : FilesystemOps} {fullpath : CString} :
    checkMount table request = .ok (ops, fullpath) ↔ request.Checked table ops fullpath := by
  constructor
  · intro hok
    rw [checkMount] at hok
    split at hok
    · cases hok
    · rename_i hdevice
      split at hok
      · cases hok
      · rename_i found hfound
        split at hok
        · cases hok
        · rename_i hmount
          split at hok
          · cases hok
          · rename_i path hpath
            split at hok
            · rename_i hexists
              cases hok
              exact ⟨hdevice, hfound, by simpa using hmount, hpath, hexists⟩
            · cases hok
  · rintro ⟨hdevice, hoperations, hmount, hnormalized, hexists⟩
    simp [checkMount, hdevice, hoperations, hmount, hnormalized, hexists]

theorem set_cleared_of_cleared {index : ℕ} (hat : table[index]? = some .cleared) (fs : Filesystem) :
    (table.set index fs).set index .cleared = table := by
  obtain ⟨hindex, hentry⟩ := List.getElem?_eq_some_iff.1 hat
  rw [List.set_set, ← hentry, List.set_getElem_self]

/-- A call that is accepted fills a cleared entry with the normalized path; any
other call fails and leaves the table as it was. -/
theorem registerMount_cases (hclear : Clear table) (request : MountRequest) (ops : FilesystemOps)
    (fullpath : CString) : (request.Accepted table ∧ ∃ index fs, table[index]? = some .cleared ∧
        fs.path = some fullpath ∧ fs.ops.isSome ∧
          registerMount table request ops fullpath = (table.set index fs, .zero)) ∨
      (¬request.Accepted table ∧
        ∃ errno, registerMount table request ops fullpath = (table, .minusOne errno)) := by
  cases hsearch : searchEntry request.path table.zipIdx none with
  | mounted =>
    exact Or.inr ⟨fun h => h.unmounted (searchEntry_table_eq_mounted_iff.1 hsearch), _,
      by rw [registerMount, hsearch]⟩
  | full =>
    refine Or.inr ⟨fun h => ?_, _, by rw [registerMount, hsearch]⟩
    obtain ⟨fs, hmem, hops⟩ := h.room
    obtain ⟨index, hindex⟩ := List.getElem?_of_mem hmem
    exact (searchEntry_eq_full hsearch).2 (fs, index)
      (List.mem_zipIdx_iff_getElem?.2 hindex) hops
  | empty index =>
    have hunmounted : ¬Occupied table request.path := fun hoccupied => by
      rw [searchEntry_table_eq_mounted_iff.2 hoccupied] at hsearch
      cases hsearch
    obtain ⟨iter, hiter, hops⟩ := (searchEntry_eq_empty hsearch).resolve_left nofun
    have hat : table[index]? = some iter := List.mem_zipIdx_iff_getElem?.1 hiter
    have hmem : iter ∈ table := List.mem_of_getElem? hat
    obtain rfl : iter = .cleared := by
      refine (hclear iter hmem).resolve_right fun hused => ?_
      simp [hops] at hused
    simp only [registerMount, hsearch, set_cleared_of_cleared hat]
    split
    · rename_i hready
      exact Or.inr ⟨fun h => Bool.false_ne_true (hready.symm.trans h.deviceReady), _, rfl⟩
    · rename_i hready
      split
      · rename_i hmounts
        exact Or.inr ⟨fun h => Bool.false_ne_true (hmounts.symm.trans h.mounts), _, rfl⟩
      · rename_i hmounts
        refine Or.inl ⟨⟨hunmounted, ⟨_, hmem, hops⟩, by simpa using hready,
          by simpa using hmounts⟩, index, _, hat, ?_, ?_, by rw [List.set_set]⟩ <;> rfl

/-- `dfs_mount` fills a cleared entry, or fails and leaves the table as it was. -/
theorem dfsMount_cases (hclear : Clear table) (request : MountRequest) :
    (∃ ops fullpath index fs, request.Checked table ops fullpath ∧ request.Accepted table ∧
        table[index]? = some .cleared ∧ fs.path = some fullpath ∧ fs.ops.isSome ∧
          dfsMount table request = (table.set index fs, .zero)) ∨
      ((∀ ops fullpath, request.Checked table ops fullpath → ¬request.Accepted table) ∧
        ∃ errno, dfsMount table request = (table, .minusOne errno)) := by
  cases hcheck : checkMount table request with
  | error errno =>
    refine Or.inr ⟨fun ops fullpath hchecked => ?_, some errno, by rw [dfsMount, hcheck]⟩
    rw [checkMount_eq_ok_iff.2 hchecked] at hcheck
    cases hcheck
  | ok found =>
    obtain ⟨ops, fullpath⟩ := found
    have hmount : dfsMount table request = registerMount table request ops fullpath := by
      rw [dfsMount, hcheck]
    rw [hmount]
    rcases registerMount_cases hclear request ops fullpath with
      ⟨haccepted, index, fs, hat, hpath, hops, hregister⟩ | ⟨hrefused, hregister⟩
    · exact Or.inl ⟨ops, fullpath, index, fs, checkMount_eq_ok_iff.1 hcheck, haccepted, hat,
        hpath, hops, hregister⟩
    · exact Or.inr ⟨fun _ _ _ => hrefused, hregister⟩

/-- `dfs_unmount` changes at most one entry in use, which it clears or leaves
mounted where it was. -/
theorem dfsUnmount_cases (table : List Filesystem) (request : UnmountRequest) :
    (dfsUnmount table request).1 = table ∨
      ∃ index mount ops fs, mountedAt table index = some (mount, ops) ∧
        (dfsUnmount table request).1 = table.set index fs ∧
          (fs = .cleared ∨ fs.path = some mount ∧ fs.ops = some ops) := by
  rw [dfsUnmount]
  split
  · exact Or.inl rfl
  · split
    · exact Or.inl rfl
    · split
      · rename_i mount ops fs hmounted hfs
        obtain ⟨found, hfound, hpath, hops⟩ := mountedAt_eq_some_iff.1 hmounted
        rw [hfs, Option.some.injEq] at hfound
        subst hfound
        split
        · exact Or.inl rfl
        · split
          · exact Or.inr ⟨_, mount, ops, _, hmounted, rfl, Or.inr ⟨hpath, hops⟩⟩
          · exact Or.inr ⟨_, mount, ops, _, hmounted, rfl, Or.inl rfl⟩
      · exact Or.inl rfl

/-! ## Runs -/

/-- A `dfs_mount` that gets through and whose path is not mounted as it is
spelled has a normalized path that is not mounted either. -/
def NoSecondSpelling (table : List Filesystem) : MountAction → Prop
  | .mount request =>
    ∀ ops fullpath, request.Checked table ops fullpath → request.Accepted table →
      ¬Occupied table fullpath
  | .unmount _ => True

theorem lt_length_of_mountedAt {index : ℕ} {mount : CString} {ops : FilesystemOps}
    (hat : mountedAt table index = some (mount, ops)) : index < table.length := by
  obtain ⟨fs, hfs, -⟩ := mountedAt_eq_some_iff.1 hat
  exact (List.getElem?_eq_some_iff.1 hfs).1

variable {next : List Filesystem} {act : MountAction} {result : Result}

theorem clear_step (hclear : Clear table)
    (hstep : mountMachine.step table act = some (next, result)) : Clear next := by
  cases act with
  | mount request =>
    have hnext : (dfsMount table request).1 = next := congrArg Prod.fst (Option.some.inj hstep)
    rcases dfsMount_cases hclear request with
      ⟨ops, fullpath, index, fs, -, -, -, hpath, hops, hmount⟩ | ⟨-, errno, hmount⟩
    · rw [← hnext, hmount]
      exact hclear.set index (Or.inr ⟨by rw [hpath]; rfl, hops⟩)
    · rw [← hnext, hmount]
      exact hclear
  | unmount request =>
    have hnext : (dfsUnmount table request).1 = next := congrArg Prod.fst (Option.some.inj hstep)
    rcases dfsUnmount_cases table request with hsame | ⟨index, mount, ops, fs, hat, hset, hfs⟩
    · rw [← hnext, hsame]
      exact hclear
    · rw [← hnext, hset]
      refine hclear.set index (hfs.imp_right ?_)
      rintro ⟨hpath, hops⟩
      exact ⟨by rw [hpath]; rfl, by rw [hops]; rfl⟩

theorem unique_step (hclear : Clear table) (hunique : UniquePaths table)
    (hgood : NoSecondSpelling table act)
    (hstep : mountMachine.step table act = some (next, result)) :
    UniquePaths next := by
  cases act with
  | mount request =>
    have hnext : (dfsMount table request).1 = next := congrArg Prod.fst (Option.some.inj hstep)
    rcases dfsMount_cases hclear request with
      ⟨ops, fullpath, index, fs, hchecked, haccepted, hat, hpath, -, hmount⟩ | ⟨-, errno, hmount⟩
    · rw [← hnext, hmount]
      refine hunique.set (List.getElem?_eq_some_iff.1 hat).1 fun mount hfs _ other _ hother => ?_
      rw [hpath, Option.some.injEq] at hfs
      subst hfs
      exact hgood ops fullpath hchecked haccepted ⟨other, hother⟩
    · rw [← hnext, hmount]
      exact hunique
  | unmount request =>
    have hnext : (dfsUnmount table request).1 = next := congrArg Prod.fst (Option.some.inj hstep)
    rcases dfsUnmount_cases table request with hsame | ⟨index, mount, ops, fs, hat, hset, hfs⟩
    · rw [← hnext, hsame]
      exact hunique
    · rw [← hnext, hset]
      refine hunique.set (lt_length_of_mountedAt hat) fun path hpath _ other hne hother => ?_
      rcases hfs with rfl | ⟨hsame, -⟩
      · cases hpath
      · rw [hsame, Option.some.injEq] at hpath
        subst hpath
        exact hne (hunique other index mount hother ⟨ops, hat⟩)

/-- A second spelling of a mounted path is mounted a second time. -/
theorem not_unique_of_second_spelling (hclear : Clear table) (hbad : ¬NoSecondSpelling table act)
    (hstep : mountMachine.step table act = some (next, result)) : ¬UniquePaths next := by
  cases act with
  | mount request =>
    have hnext : (dfsMount table request).1 = next := congrArg Prod.fst (Option.some.inj hstep)
    simp only [NoSecondSpelling, not_forall, not_not] at hbad
    obtain ⟨ops, fullpath, hchecked, haccepted, other, hother⟩ := hbad
    rcases dfsMount_cases hclear request with
      ⟨_, found, index, fs, hfound, -, hat, hpath, hfsOps, hmount⟩ | ⟨hrefused, -⟩
    · have hsame := hfound.normalized
      rw [hchecked.normalized, Option.some.injEq] at hsame
      subst hsame
      have hindex := (List.getElem?_eq_some_iff.1 hat).1
      have hne : other ≠ index := by
        rintro rfl
        exact not_mounted_cleared hat hother
      rw [← hnext, hmount]
      intro hunique
      exact hne (hunique other index fullpath
        ((mounted_set_iff hindex).2 (Or.inr ⟨hne, hother⟩))
        ((mounted_set_iff hindex).2 (Or.inl ⟨rfl, hpath, hfsOps⟩)))
    · exact absurd haccepted (hrefused ops fullpath hchecked)
  | unmount request => exact absurd trivial hbad

theorem rolledBack (hclear : Clear table) (act : MountAction) : RolledBack table act := by
  cases act with
  | mount request =>
    intro next errno hfailed
    rcases dfsMount_cases hclear request with
      ⟨ops, fullpath, index, fs, -, -, -, -, -, hmount⟩ | ⟨-, found, hmount⟩
    · rw [hmount] at hfailed
      cases hfailed
    · rw [hmount] at hfailed
      cases hfailed
      rfl
  | unmount request => trivial

/-- In every run of mounts and unmounts from the cleared table, the paths in use
stay distinct and every failed mount is undone, exactly when no mounted path is
mounted again under a second spelling. -/
theorem mount_table_unique_and_rolled_back {filesystemsMax : ℕ} {last : List Filesystem}
    {trace : List (MountAction × Result)}
    (hrun : mountMachine.Run (initTable filesystemsMax) trace last) :
    (mountMachine.RunWith (fun table action => UniquePaths table ∧ RolledBack table action)
        (initTable filesystemsMax) trace last ∧ UniquePaths last) ↔
      mountMachine.RunWith NoSecondSpelling (initTable filesystemsMax) trace last := by
  have hinit : UniquePaths (initTable filesystemsMax) :=
    fun _ _ _ hi _ => absurd hi (not_mounted_initTable filesystemsMax _ _)
  have hiff := hrun.always_iff (fun table => Clear table ∧ UniquePaths table) UniquePaths
    (fun _ hinv => hinv.2)
    (fun _ _ _ _ hinv hgood hstep =>
      ⟨clear_step hinv.1 hstep, unique_step hinv.1 hinv.2 hgood hstep⟩)
    (fun _ _ _ _ hinv hbad hstep => not_unique_of_second_spelling hinv.1 hbad hstep)
    ⟨clear_initTable filesystemsMax, hinit⟩
  constructor
  · rintro ⟨hvisited, hlast⟩
    exact hiff.1 ⟨hvisited.mono fun _ _ h => h.1, hlast⟩
  · intro hgood
    obtain ⟨hvisited, hlast⟩ := hiff.2 hgood
    exact ⟨hvisited.weaken Clear (fun _ _ _ _ hclear _ hstep => clear_step hclear hstep)
      (fun _ action hclear hunique => ⟨hunique, rolledBack hclear action⟩)
      (clear_initTable filesystemsMax), hlast⟩

/-- A filesystem without a device is mounted, everything being at hand. -/
def plainMount (path : CString) : MountRequest where
  device := none
  path := path
  filesystemtype := ['e', 'l', 'm']
  operationTable := [some ⟨['e', 'l', 'm'], false, true, true, true, true, true, true⟩]
  env := ⟨none, [], fun _ => true⟩
  openEnv := ⟨none, [], fun _ => true⟩
  opens := true
  deviceOpens := true
  mounts := true
  data := none

/-- Mounting the root twice under one spelling is refused and changes nothing. -/
theorem root_mounted_once :
    ∃ trace last, mountMachine.Run (initTable 2) trace last ∧
      trace.map Prod.snd = [.zero, .minusOne (some .einval)] ∧
        mountMachine.RunWith (fun table action => UniquePaths table ∧ RolledBack table action)
            (initTable 2) trace last ∧ UniquePaths last := by
  have hrefused : NoSecondSpelling (dfsMount (initTable 2) (plainMount ['/'])).1
      (.mount (plainMount ['/'])) :=
    fun _ _ _ haccepted => absurd ⟨0, _, rfl⟩ haccepted.unmounted
  have hgood : mountMachine.RunWith NoSecondSpelling (initTable 2)
      [(.mount (plainMount ['/']), .zero),
        (.mount (plainMount ['/']), .minusOne (some .einval))]
      (dfsMount (initTable 2) (plainMount ['/'])).1 :=
    .cons (fun _ _ _ _ hoccupied => hoccupied.elim fun _ => not_mounted_initTable 2 _ _) rfl
      (.cons hrefused rfl (.nil _))
  exact ⟨_, _, hgood.run, rfl, (mount_table_unique_and_rolled_back hgood.run).2 hgood⟩

/-- The root mounted as `/` and again as `//` takes two entries. -/
theorem root_mounted_under_two_spellings :
    ∃ trace last, mountMachine.Run (initTable 2) trace last ∧
      trace.map Prod.snd = [.zero, .zero] ∧ ¬UniquePaths last := by
  refine ⟨[(.mount (plainMount ['/']), .zero), (.mount (plainMount ['/', '/']), .zero)], _,
    .cons trivial rfl (.cons trivial rfl (.nil _)), rfl, fun hunique => ?_⟩
  exact absurd (hunique 0 1 ['/'] ⟨_, rfl⟩ ⟨_, rfl⟩) (by decide)

end RtThread.Dfs
