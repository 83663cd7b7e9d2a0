import RtThread.Core.ComponentPath

set_option linter.all false

/-!
# Path texts of the device file system

`dfs_normalize_path` and `dfs_subdir` of `dfs.c`.  A C string is the list of
its characters up to the terminator.
-/

namespace RtThread.Dfs

open ComponentPath

abbrev CString := List Char

/-- `up_one`: the characters written so far, last first, lose the separator
and the component before it; `none` where nothing has been written. -/
def upOne : List Char → Option (List Char)
  | [] => none
  | _ :: written => some (written.dropWhile (· ≠ '/'))

mutual

/-- The head of the loop of `dfs_normalize_path`, at the start of a component:
`src` is what remains to be read and `written` what lies before `dst`, last
character first. -/
def nextComponent : (src written : List Char) → Option (List Char)
  | [], written => some written
  | ['.'], written => some written
  | ['.', '.'], written => upOne written
  | '.' :: '/' :: src, written => nextComponent src written
  | '.' :: '.' :: '/' :: src, written =>
    match upOne written with
    | none => none
    | some written => nextComponent src written
  -- the slashes after a separator or a dot component are skipped
  | '/' :: src, written => nextComponent src written
  | c :: src, written => copyComponent src (c :: written)

/-- The copy up to the next separator. -/
def copyComponent : (src written : List Char) → Option (List Char)
  | [], written => some written
  | '/' :: src, written => nextComponent src ('/' :: written)
  | c :: src, written => copyComponent src (c :: written)

end

/-- What is left of the written text once it is terminated: a separator at its
end is removed unless it is the whole text, and the empty text is the root. -/
def terminate : (written : List Char) → CString
  | [] => ['/']
  | ['/'] => ['/']
  | '/' :: written => written.reverse
  | written => written.reverse

/-- The rewriting of a joined path by `dfs_normalize_path`.  A separator at
the very start is copied, since no component has been read before it. -/
def normalizeText : CString → Option CString
  | '/' :: src => (nextComponent src ['/']).map terminate
  | src => (nextComponent src []).map terminate

/-- `dfs_normalize_path`.  `workingDirectory` is absent when
`DFS_USING_WORKDIR` is not defined, and `memory` says whether the copy of the
path can be allocated. -/
def dfsNormalizePath (workingDirectory : Option CString) (memory : Bool)
    (directory : Option CString) (filename : CString) : Option CString :=
  match directory.or workingDirectory, filename.head? with
  | _, some '/' => if memory then normalizeText filename else none
  | none, _ => none
  | some directory, _ =>
    if memory then normalizeText (directory ++ '/' :: filename) else none

/-- `dfs_subdir`: the text below `directory`, `none` standing for `NULL`.  The
pointer steps back by one where it does not stand on a separator. -/
def dfsSubdir (directory filename : CString) : Option CString :=
  if directory.length = filename.length then none
  else if filename[directory.length]? ≠ some '/' ∧ directory.length ≠ 0 then
    some (filename.drop (directory.length - 1))
  else some (filename.drop directory.length)

/-! ## Normalized paths -/

/-- A component that `dfs_normalize_path` copies as it stands. -/
def IsName (component : CString) : Prop :=
  component ≠ [] ∧ '/' ∉ component ∧ component ≠ ['.'] ∧ component ≠ ['.', '.']

/-- A normalized absolute path. -/
@[ext]
structure NormalPath where
  components : List CString
  names : ∀ component ∈ components, IsName component

namespace NormalPath

def text (path : NormalPath) : CString := render '/' path.components

theorem clean (path : NormalPath) : Clean '/' path.components :=
  fun component hmem => ⟨(path.names component hmem).1, (path.names component hmem).2.1⟩

theorem text_injective : Function.Injective text :=
  fun left right heq =>
    NormalPath.ext (render_injective_of_clean left.clean right.clean heq)

theorem text_head? (path : NormalPath) : path.text.head? = some '/' :=
  render_head? path.components

/-- `mount` is `path` or one of its ancestor directories. -/
def Covers (mount path : NormalPath) : Prop := mount.components <+: path.components

instance (mount path : NormalPath) : Decidable (mount.Covers path) :=
  inferInstanceAs (Decidable (_ <+: _))

end NormalPath

theorem copyComponent_append {component : CString} (hslash : '/' ∉ component)
    (rest written : List Char) :
    copyComponent (component ++ rest) written =
      copyComponent rest (component.reverse ++ written) := by
  induction component generalizing written with
  | nil => rfl
  | cons c component ih =>
    rw [List.mem_cons, not_or] at hslash
    rw [List.cons_append, copyComponent.eq_3 _ _ _ (fun hc => hslash.1 hc.symm),
      ih hslash.2, List.reverse_cons, List.append_assoc, List.singleton_append]

theorem nextComponent_append {component : CString} (hname : IsName component)
    (rest written : List Char) :
    nextComponent (component ++ rest) written =
      copyComponent rest (component.reverse ++ written) := by
  obtain ⟨hne, hslash, hdot, hdots⟩ := hname
  cases component with
  | nil => exact absurd rfl hne
  | cons c component =>
    rw [List.mem_cons, not_or] at hslash
    -- a text that starts like a dot component would make the name one
    rw [List.cons_append, nextComponent.eq_7]
    · rw [copyComponent_append hslash.2, List.reverse_cons, List.append_assoc,
        List.singleton_append]
    · rintro rfl hnil
      exact hdot (by simp [(List.append_eq_nil_iff.1 hnil).1])
    · rintro rfl heq
      cases component with
      | nil => exact hdot rfl
      | cons d component =>
        rw [List.cons_append, List.cons.injEq, List.append_eq_nil_iff] at heq
        exact hdots (by simp [heq.1, heq.2.1])
    · rintro src rfl heq
      cases component with
      | nil => exact hdot rfl
      | cons d component =>
        rw [List.cons_append, List.cons.injEq] at heq
        exact hslash.2 (by simp [heq.1])
    · rintro src rfl heq
      cases component with
      | nil => exact hdot rfl
      | cons d component =>
        rw [List.cons_append, List.cons.injEq] at heq
        cases component with
        | nil => exact hdots (by simp [heq.1])
        | cons e component =>
          rw [List.cons_append, List.cons.injEq] at heq
          exact hslash.2 (by simp [heq.2.1])
    · exact fun hc => hslash.1 hc.symm

theorem nextComponent_body (component : CString) (components : List CString)
    (hnames : ∀ name ∈ component :: components, IsName name) (written : List Char) :
    nextComponent (component ++ body '/' components) written =
      some ((component ++ body '/' components).reverse ++ written) := by
  induction components generalizing component written with
  | nil =>
    rw [nextComponent_append (hnames component List.mem_cons_self)]
    simp [copyComponent]
  | cons next components ih =>
    rw [nextComponent_append (hnames component List.mem_cons_self),
      body_cons, copyComponent,
      ih next (fun name hmem => hnames name (List.mem_cons_of_mem _ hmem))]
    simp

theorem getLast?_body_ne (components : List CString) (hclean : Clean '/' components) :
    (body '/' components).getLast? ≠ some '/' := by
  induction components using List.reverseRecOn with
  | nil => nofun
  | append_singleton components component ih =>
    obtain ⟨hne, hslash⟩ := hclean component (by simp)
    rw [body_append, body_cons, body_nil, List.append_nil,
      List.getLast?_append_of_ne_nil _ (List.cons_ne_nil _ _),
      List.getLast?_cons_of_ne_nil hne]
    exact fun hlast => hslash (List.mem_of_getLast? hlast)

theorem terminate_reverse {path : CString} (hne : path ≠ []) (hlast : path.getLast? ≠ some '/') :
    terminate path.reverse = path := by
  rw [← List.head?_reverse] at hlast
  rw [← List.reverse_ne_nil_iff] at hne
  rw [← List.reverse_reverse path]
  generalize path.reverse = written at *
  rw [List.reverse_reverse]
  unfold terminate
  split <;> simp_all

theorem normalizeText_text (path : NormalPath) : normalizeText path.text = some path.text := by
  obtain ⟨components, names⟩ := path
  have hclean := NormalPath.clean ⟨components, names⟩
  cases components with
  | nil => rfl
  | cons component components =>
    change (nextComponent (component ++ body '/' components) ['/']).map terminate =
      some (body '/' (component :: components))
    rw [nextComponent_body component components names, Option.map_some, ← List.reverse_cons]
    congr 1
    exact terminate_reverse (List.cons_ne_nil _ _) (getLast?_body_ne _ hclean)

theorem dfsNormalizePath_text (workingDirectory : Option CString) (path : NormalPath) :
    dfsNormalizePath workingDirectory true none path.text = some path.text := by
  rw [dfsNormalizePath, path.text_head?]
  exact normalizeText_text path

/-! ## The text below a mount point -/

/-- A mount path without a trailing separator. -/
def stem (mount : CString) : CString :=
  if mount.getLast? = some '/' then mount.dropLast else mount

/-- What a path is called inside the filesystem mounted at `mount`. -/
def IsRemainder (mount path rest : CString) : Prop :=
  if path = mount then rest = ['/'] else rest.head? = some '/' ∧ stem mount ++ rest = path

theorem stem_text (mount : NormalPath) : stem mount.text = body '/' mount.components := by
  by_cases hroot : mount.components = []
  · simp [stem, NormalPath.text, hroot]
  · rw [NormalPath.text, render_of_ne_nil hroot, stem, if_neg (getLast?_body_ne _ mount.clean)]

theorem dfsSubdir_self (mount : CString) : dfsSubdir mount mount = none :=
  if_pos rfl

/-- Below a mount point that covers the path, the pointer stands on the
separator before the rest, whether or not it has stepped back. -/
theorem dfsSubdir_of_covers {mount path : NormalPath} (hcovers : mount.Covers path)
    (hne : path ≠ mount) :
    ∃ rest, dfsSubdir mount.text path.text = some rest ∧ IsRemainder mount.text path.text rest := by
  obtain ⟨tail, htail⟩ := hcovers
  have hnonempty : tail ≠ [] := fun hnil => hne (NormalPath.ext (by simp [← htail, hnil]))
  have hpath : path.text = body '/' mount.components ++ body '/' tail := by
    rw [NormalPath.text, render_of_ne_nil (by simp [← htail, hnonempty]), ← htail, body_append]
  have hlonger : 1 < (body '/' tail).length :=
    one_lt_length_body (fun name hmem => path.clean name (by simp [← htail, hmem])) hnonempty
  refine ⟨body '/' tail, ?_, ?_⟩
  · by_cases hroot : mount.components = []
    · have hmount : mount.text = ['/'] := by rw [NormalPath.text, hroot, render_nil]
      rw [hroot, body_nil, List.nil_append] at hpath
      have hstep : path.text[1]? ≠ some '/' := by
        obtain ⟨component, tail, rfl⟩ := List.exists_cons_of_ne_nil hnonempty
        have hname := path.clean component (by simp [← htail])
        obtain ⟨c, component, rfl⟩ := List.exists_cons_of_ne_nil hname.1
        rw [hpath]
        exact fun hc => hname.2 (by simp [Option.some.inj hc])
      rw [dfsSubdir, hmount, List.length_singleton, if_neg (by rw [hpath]; omega),
        if_pos ⟨hstep, Nat.one_ne_zero⟩, hpath]
      rfl
    · have hmount : mount.text = body '/' mount.components := render_of_ne_nil hroot
      have hslash : path.text[mount.text.length]? = some '/' := by
        obtain ⟨component, tail, rfl⟩ := List.exists_cons_of_ne_nil hnonempty
        rw [hpath, hmount, List.getElem?_append_right le_rfl, Nat.sub_self]
        rfl
      rw [dfsSubdir, if_neg (by rw [hpath, hmount, List.length_append]; omega),
        if_neg (fun h => h.1 hslash), hpath, hmount, List.drop_left]
  · rw [IsRemainder, if_neg (fun heq => hne (NormalPath.text_injective heq)), stem_text, hpath]
    refine ⟨?_, rfl⟩
    cases tail with
    | nil => exact absurd rfl hnonempty
    | cons component tail => rfl

end RtThread.Dfs
