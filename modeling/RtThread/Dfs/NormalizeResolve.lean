import RtThread.Dfs.NormalizeCursors

set_option linter.all false

/-!
# The path that `dfs_normalize_path` should return

The components of the joined path are resolved from left to right, and the
loop of `dfs_normalize_path` keeps the names resolved so far before `dst`.
Going up at the root takes the separator of the root away: after one such step
the result is not absolute, and where it is empty the character before the
string is read.
-/

namespace RtThread.Dfs

open ComponentPath

/-- The components resolved so far: the names, innermost first, and how often
`..` was met at the root. -/
structure Resolution where
  names : List CString
  climbs : ℕ

namespace Resolution

def component (resolution : Resolution) (component : CString) : Resolution :=
  if component = [] ∨ component = ['.'] then resolution
  else if component = ['.', '.'] then
    match resolution.names with
    | [] => { resolution with climbs := resolution.climbs + 1 }
    | _ :: names => { resolution with names := names }
  else { resolution with names := component :: resolution.names }

def components (resolution : Resolution) (parts : List CString) : Resolution :=
  parts.foldl Resolution.component resolution

@[simp] theorem components_nil (resolution : Resolution) : resolution.components [] = resolution :=
  rfl

@[simp] theorem components_cons (resolution : Resolution) (part : CString)
    (parts : List CString) :
    resolution.components (part :: parts) = (resolution.component part).components parts := rfl

/-- The resolved path. -/
def path (resolution : Resolution) : CString :=
  render '/' resolution.names.reverse

end Resolution

def resolve (text : CString) : Resolution :=
  (Resolution.mk [] 0).components (text.splitOn '/')

example : (resolve "/a//b/./../c/".toList).path = "/a/c".toList := by decide

example : (resolve "/../a".toList).path = "/a".toList ∧ (resolve "/../a".toList).climbs = 1 := by
  decide

namespace Resolution

theorem component_name (resolution : Resolution) {name : CString} (hname : IsName name) :
    resolution.component name = { resolution with names := name :: resolution.names } := by
  obtain ⟨hne, -, hdot, hdots⟩ := hname
  rw [component, if_neg (by simp [hne, hdot]), if_neg hdots]

theorem component_nil (resolution : Resolution) : resolution.component [] = resolution :=
  if_pos (Or.inl rfl)

theorem component_dot (resolution : Resolution) : resolution.component ['.'] = resolution :=
  if_pos (Or.inr rfl)

theorem climbs_le_component (resolution : Resolution) (part : CString) :
    resolution.climbs ≤ (resolution.component part).climbs := by
  unfold component
  split
  · exact le_rfl
  · split
    · split
      · exact Nat.le_succ _
      · exact le_rfl
    · exact le_rfl

theorem climbs_le_components (resolution : Resolution) (parts : List CString) :
    resolution.climbs ≤ (resolution.components parts).climbs := by
  induction parts generalizing resolution with
  | nil => exact le_rfl
  | cons part parts ih => exact (climbs_le_component resolution part).trans (ih _)

/-- The names are names, and no second climb has been made. -/
structure Standing (resolution : Resolution) : Prop where
  names : ∀ name ∈ resolution.names, IsName name
  climbs : resolution.climbs ≤ 1

/-- What lies before `dst` at the start of a component. -/
def before (resolution : Resolution) : List Char :=
  passed (resolution.climbs = 0) resolution.names

/-- What the loop leaves: `NULL` at the second climb, and else the names, with
or without the separator after the last. -/
def Leaves (resolution : Resolution) : Option (List Char) → Prop
  | none => 2 ≤ resolution.climbs
  | some written => resolution.Standing ∧
    (written = resolution.before ∨ resolution.names ≠ [] ∧ '/' :: written = resolution.before)

end Resolution

namespace Resolution

variable {resolution : Resolution}

/-- The first step above the root leaves nothing before `dst`, and the second
one is refused. -/
theorem upOne_before (hstanding : resolution.Standing) :
    upOne resolution.before = none ∧ 2 ≤ (resolution.component ['.', '.']).climbs ∨
      upOne resolution.before = some (resolution.component ['.', '.']).before ∧
        (resolution.component ['.', '.']).Standing := by
  obtain ⟨names, climbs⟩ := resolution
  obtain ⟨hnames, hclimbs⟩ := hstanding
  cases names with
  | nil =>
    have hcases : climbs = 0 ∨ climbs = 1 := Nat.le_one_iff_eq_zero_or_eq_one.1 hclimbs
    rcases hcases with rfl | rfl
    · exact Or.inr ⟨rfl, hnames, le_rfl⟩
    · exact Or.inl ⟨rfl, le_refl 2⟩
  | cons name names =>
    refine Or.inr ⟨?_, fun other hother => hnames other (List.mem_cons_of_mem _ hother), hclimbs⟩
    exact upOne_passed_cons (climbs = 0) names (hnames name List.mem_cons_self).2.1

variable {name : CString}

theorem Standing.component_name (hstanding : resolution.Standing) (hname : IsName name) :
    (resolution.component name).Standing := by
  rw [Resolution.component_name resolution hname]
  exact ⟨List.forall_mem_cons.2 ⟨hname, hstanding.names⟩, hstanding.climbs⟩

theorem before_component_name (resolution : Resolution) (hname : IsName name) :
    (resolution.component name).before = '/' :: (name.reverse ++ resolution.before) := by
  rw [component_name resolution hname]
  rfl

/-- A name at the end of the text has no separator after it. -/
theorem leaves_name (hstanding : resolution.Standing) (hname : IsName name) :
    (resolution.components (name.splitOn '/')).Leaves
      (some (name.reverse ++ resolution.before)) := by
  rw [List.splitOn_eq_singleton hname.2.1, components_cons, components_nil]
  refine ⟨hstanding.component_name hname, Or.inr ⟨?_, ?_⟩⟩
  · rw [Resolution.component_name resolution hname]
    exact List.cons_ne_nil _ _
  · rw [before_component_name resolution hname]

/-- The two halves of the loop, by induction on what remains to be read. -/
theorem leaves_of_length_le (n : ℕ) :
    (∀ (src : CString) (resolution : Resolution), src.length ≤ n → resolution.Standing →
      (resolution.components (src.splitOn '/')).Leaves (nextComponent src resolution.before)) ∧
    ∀ (src part : CString) (resolution : Resolution), src.length ≤ n → resolution.Standing →
      IsName (part ++ src.takeWhile (· ≠ '/')) →
        (resolution.components ((part ++ src).splitOn '/')).Leaves
          (copyComponent src (part.reverse ++ resolution.before)) := by
  induction n with
  | zero =>
    constructor
    · intro src resolution hlength hstanding
      obtain rfl := List.length_eq_zero_iff.1 (Nat.le_zero.1 hlength)
      exact ⟨hstanding, Or.inl rfl⟩
    · intro src part resolution hlength hstanding hpart
      obtain rfl := List.length_eq_zero_iff.1 (Nat.le_zero.1 hlength)
      rw [List.takeWhile_nil, List.append_nil] at hpart
      rw [List.append_nil, copyComponent]
      exact leaves_name hstanding hpart
  | succ n ih =>
    obtain ⟨ihNext, ihCopy⟩ := ih
    constructor
    · intro src resolution hlength hstanding
      rw [nextComponent.eq_def]
      split
      · exact ⟨hstanding, Or.inl rfl⟩
      · exact ⟨hstanding, Or.inl rfl⟩
      · rcases upOne_before hstanding with ⟨hup, hclimbs⟩ | ⟨hup, hstanding'⟩
        · rw [hup]
          exact hclimbs
        · rw [hup]
          exact ⟨hstanding', Or.inl rfl⟩
      · rename_i src
        rw [List.length_cons, List.length_cons] at hlength
        have hparts := List.splitOn_append_cons_self_of_not_mem (by simp : '/' ∉ ['.']) src
        rw [List.singleton_append] at hparts
        rw [hparts, components_cons, component_dot]
        exact ihNext src resolution (by omega) hstanding
      · rename_i src
        rw [List.length_cons, List.length_cons, List.length_cons] at hlength
        have hparts := List.splitOn_append_cons_self_of_not_mem (by simp : '/' ∉ ['.', '.']) src
        rw [List.cons_append, List.singleton_append] at hparts
        rw [hparts, components_cons]
        rcases upOne_before hstanding with ⟨hup, hclimbs⟩ | ⟨hup, hstanding'⟩
        · rw [hup]
          exact hclimbs.trans (climbs_le_components _ _)
        · rw [hup]
          exact ihNext src _ (by omega) hstanding'
      · rename_i src
        rw [List.length_cons] at hlength
        have hparts := List.splitOn_append_cons_self_of_not_mem (by simp : '/' ∉ ([] : CString)) src
        rw [List.nil_append] at hparts
        rw [hparts, components_cons, component_nil]
        exact ihNext src resolution (by omega) hstanding
      · rename_i c src hdot hdots hdotSlash hdotsSlash hslash
        rw [List.length_cons] at hlength
        refine ihCopy src [c] resolution (by omega) hstanding ?_
        exact isName_of_not_dots hslash hdot hdots hdotSlash hdotsSlash
    · intro src part resolution hlength hstanding hpart
      rw [copyComponent.eq_def]
      split
      · rw [List.takeWhile_nil, List.append_nil] at hpart
        rw [List.append_nil]
        exact leaves_name hstanding hpart
      · rename_i src
        rw [List.length_cons] at hlength
        rw [List.takeWhile_cons_of_neg (by simp), List.append_nil] at hpart
        rw [List.splitOn_append_cons_self_of_not_mem hpart.2.1, components_cons,
          ← before_component_name resolution hpart]
        exact ihNext src _ (by omega) (hstanding.component_name hpart)
      · rename_i c src hslash
        rw [List.length_cons] at hlength
        rw [List.takeWhile_cons_of_pos (by simpa using hslash)] at hpart
        have hcopy := ihCopy src (part ++ [c]) resolution (by omega) hstanding
        rw [List.append_assoc, List.append_assoc, List.reverse_append] at hcopy
        exact hcopy hpart

/-- The text that is left once it is terminated: the separator of the root is
missing after a step above it. -/
theorem terminate_leaves {written : List Char} (hleaves : resolution.Leaves (some written))
    (hnames : resolution.names ≠ []) : written ≠ [] ∧ terminate written =
      if resolution.climbs = 0 then resolution.path else resolution.path.tail := by
  obtain ⟨names, climbs⟩ := resolution
  obtain ⟨hstanding, hwritten⟩ := hleaves
  cases names with
  | nil => exact absurd rfl hnames
  | cons name names =>
    have hname := hstanding.names name List.mem_cons_self
    have hreverse := reverse_name (climbs = 0) names name
    have hpath : (Resolution.mk (name :: names) climbs).path =
        body '/' (names.reverse ++ [name]) := by
      rw [path, List.reverse_cons]
      exact render_of_ne_nil (by simp)
    rw [hpath]
    rcases hwritten with rfl | ⟨-, hbefore⟩
    · refine ⟨List.cons_ne_nil _ _, ?_⟩
      rw [before, terminate_passed_cons _ hname.1, hreverse]
      simp
    · obtain rfl : written = name.reverse ++ passed (climbs = 0) names :=
        (List.cons.inj hbefore).2
      refine ⟨by simp [hname.1], ?_⟩
      rw [terminate_name _ hname, hreverse]
      simp

end Resolution

variable {text : CString}

theorem leaves_writtenText (hhead : text.head? = some '/') :
    (resolve text).Leaves (writtenText text) := by
  obtain ⟨src, rfl⟩ := List.head?_eq_some_iff.1 hhead
  have hparts := List.splitOn_append_cons_self_of_not_mem (by simp : '/' ∉ ([] : CString)) src
  rw [List.nil_append] at hparts
  rw [resolve, hparts, Resolution.components_cons, Resolution.component_nil]
  exact (Resolution.leaves_of_length_le src.length).1 src ⟨[], 0⟩ le_rfl
    ⟨by simp, Nat.zero_le 1⟩

variable {ending : Ending}

/-- How the call ends, by the number of steps above the root. -/
theorem Cursors.Ends.cases_climbs (hhead : text.head? = some '/')
    (hends : (start text).Ends ending) :
    (resolve text).climbs = 0 ∧
        (∃ fullpath, ending = .returned fullpath ∧ fullpath.cString = (resolve text).path) ∨
      (resolve text).climbs = 1 ∧
        ((resolve text).names = [] ∧ ending = .outside ∨
          ∃ fullpath, ending = .returned fullpath ∧ fullpath.cString = (resolve text).path.tail) ∨
      2 ≤ (resolve text).climbs ∧ ending = .null := by
  have hleaves := leaves_writtenText hhead
  obtain ⟨other, hother, hmatches⟩ := gives_start text
  obtain rfl := hends.unique hother
  generalize resolve text = resolution at *
  cases hwritten : writtenText text with
  | none =>
    rw [hwritten] at hleaves hmatches
    exact Or.inr (Or.inr ⟨hleaves, hmatches⟩)
  | some written =>
    rw [hwritten] at hleaves hmatches
    have hclimbs := Nat.le_one_iff_eq_zero_or_eq_one.1 hleaves.1.climbs
    by_cases hnames : resolution.names = []
    · have hbefore : written = resolution.before :=
        hleaves.2.resolve_right fun h => h.1 hnames
      rcases hclimbs with hzero | hone
      · have hroot : written = ['/'] := by
          rw [hbefore, Resolution.before, hnames, hzero]
          rfl
        subst hroot
        obtain ⟨fullpath, hreturned, hcString⟩ := hmatches
        refine Or.inl ⟨hzero, fullpath, hreturned, ?_⟩
        rw [hcString, Resolution.path, hnames]
        rfl
      · have hempty : written = [] := by
          rw [hbefore, Resolution.before, hnames, hone]
          rfl
        subst hempty
        exact Or.inr (Or.inl ⟨hone, Or.inl ⟨hnames, hmatches⟩⟩)
    · obtain ⟨hne, hterminate⟩ := Resolution.terminate_leaves hleaves hnames
      obtain ⟨c, written, rfl⟩ := List.exists_cons_of_ne_nil hne
      obtain ⟨fullpath, hreturned, hcString⟩ := hmatches
      rw [hterminate] at hcString
      rcases hclimbs with hzero | hone
      · rw [if_pos hzero] at hcString
        exact Or.inl ⟨hzero, fullpath, hreturned, hcString⟩
      · rw [if_neg (by omega)] at hcString
        exact Or.inr (Or.inl ⟨hone, Or.inr ⟨fullpath, hreturned, hcString⟩⟩)

/-! ## Normalized paths resolve to themselves -/

theorem splitOn_body (components : List CString) (hclean : Clean '/' components)
    {front : CString} (hslash : '/' ∉ front) :
    (front ++ body '/' components).splitOn '/' = front :: components := by
  induction components generalizing front with
  | nil => rw [body_nil, List.append_nil, List.splitOn_eq_singleton hslash]
  | cons component components ih =>
    rw [body_cons, List.splitOn_append_cons_self_of_not_mem hslash,
      ih hclean.of_cons (hclean component List.mem_cons_self).2]

theorem Resolution.components_names (resolution : Resolution) {names : List CString}
    (hnames : ∀ name ∈ names, IsName name) :
    resolution.components names =
      { resolution with names := names.reverse ++ resolution.names } := by
  induction names generalizing resolution with
  | nil => rfl
  | cons name names ih =>
    rw [components_cons, component_name resolution (hnames name List.mem_cons_self),
      ih _ fun other hother => hnames other (List.mem_cons_of_mem _ hother)]
    simp

theorem resolve_text (path : NormalPath) :
    resolve path.text = ⟨path.components.reverse, 0⟩ := by
  obtain ⟨components, names⟩ := path
  cases components with
  | nil => rfl
  | cons component components =>
    have hparts := splitOn_body (component :: components)
      (NormalPath.clean ⟨component :: components, names⟩) (by simp : '/' ∉ ([] : CString))
    rw [List.nil_append] at hparts
    change (Resolution.mk [] 0).components ((body '/' (component :: components)).splitOn '/') = _
    rw [hparts, Resolution.components_cons, Resolution.component_nil,
      Resolution.components_names _ names]
    simp

theorem exists_path (hhead : text.head? = some '/') (hclimbs : (resolve text).climbs ≤ 1) :
    ∃ path : NormalPath, path.text = (resolve text).path := by
  have hleaves := leaves_writtenText hhead
  generalize resolve text = resolution at *
  cases hwritten : writtenText text with
  | none =>
    rw [hwritten] at hleaves
    exact absurd (hleaves.trans hclimbs) (by decide)
  | some written =>
    rw [hwritten] at hleaves
    exact ⟨⟨resolution.names.reverse, fun name hname =>
      hleaves.1.names name (List.mem_reverse.1 hname)⟩, rfl⟩

/-! ## The call -/

variable {workingDirectory : Option NormalPath} {filename : CString}

theorem joinedPath_head? {directory : Option NormalPath}
    (hjoined : joinedPath (workingDirectory.map NormalPath.text)
      (directory.map NormalPath.text) filename = some text) :
    text.head? = some '/' := by
  unfold joinedPath at hjoined
  split at hjoined
  · rename_i hhead
    rw [← Option.some.inj hjoined]
    exact hhead
  · cases hjoined
  · rename_i path hpath _
    rw [← Option.some.inj hjoined]
    have habsolute : path.head? = some '/' := by
      cases directory with
      | some directory =>
        rw [← Option.some.inj hpath]
        exact directory.text_head?
      | none =>
        cases workingDirectory with
        | some directory =>
          rw [← Option.some.inj hpath]
          exact directory.text_head?
        | none => cases hpath
    rw [List.head?_append, habsolute]
    rfl

/-- What a caller may rely on: a string that is returned is the absolute path
that the joined path resolves to, a second call returns it again, and no cell
outside the allocated string is touched. -/
structure NormalizesRight (workingDirectory : Option CString) (memory : Bool)
    (directory : Option CString) (filename : CString) : Prop where
  ends : ∃ ending, DfsNormalizePathEnds workingDirectory memory directory filename ending
  inside : ¬ DfsNormalizePathEnds workingDirectory memory directory filename .outside
  absolute : ∀ fullpath,
    DfsNormalizePathEnds workingDirectory memory directory filename (.returned fullpath) →
      fullpath.cString.head? = some '/'
  resolved : ∀ fullpath text, joinedPath workingDirectory directory filename = some text →
    DfsNormalizePathEnds workingDirectory memory directory filename (.returned fullpath) →
      fullpath.cString = (resolve text).path
  idempotent : ∀ fullpath,
    DfsNormalizePathEnds workingDirectory memory directory filename (.returned fullpath) →
      ∀ otherWorkingDirectory otherDirectory, ∃ again,
        DfsNormalizePathEnds otherWorkingDirectory true otherDirectory fullpath.cString
          (.returned again) ∧ again.cString = fullpath.cString

theorem exists_dfsNormalizePathEnds (workingDirectory directory : Option CString) (memory : Bool)
    (filename : CString) :
    ∃ ending, DfsNormalizePathEnds workingDirectory memory directory filename ending := by
  simp only [dfsNormalizePathEnds_iff]
  split
  · exact ⟨.null, rfl⟩
  · rename_i text _
    cases memory with
    | false => exact ⟨.null, rfl⟩
    | true =>
      obtain ⟨ending, hends, -⟩ := Cursors.gives_start text
      exact ⟨ending, hends⟩

/-- A call that has a path and memory runs on the joined path. -/
theorem dfsNormalizePathEnds_of_joined {workingDirectory directory : Option CString}
    (hjoined : joinedPath workingDirectory directory filename = some text) :
    DfsNormalizePathEnds workingDirectory true directory filename ending ↔
      (Cursors.start text).Ends ending := by
  rw [dfsNormalizePathEnds_iff, hjoined]
  rfl

theorem joinedPath_of_head? (workingDirectory directory : Option CString)
    (hhead : filename.head? = some '/') :
    joinedPath workingDirectory directory filename = some filename := by
  rw [joinedPath, hhead]
  cases directory.or workingDirectory <;> rfl

/-- A normalized path comes back, whatever the directories are. -/
theorem dfsNormalizePathEnds_text (workingDirectory directory : Option CString)
    (path : NormalPath) :
    ∃ again, DfsNormalizePathEnds workingDirectory true directory path.text (.returned again) ∧
      again.cString = path.text := by
  obtain ⟨ending, hends, -⟩ := Cursors.gives_start path.text
  have hcall := (dfsNormalizePathEnds_of_joined
    (joinedPath_of_head? workingDirectory directory path.text_head?)).2 hends
  have hclimbs : (resolve path.text).climbs = 0 := by rw [resolve_text]
  rcases hends.cases_climbs path.text_head? with ⟨-, again, rfl, hagain⟩ | ⟨hone, -⟩ | ⟨htwo, -⟩
  · refine ⟨again, hcall, ?_⟩
    rw [hagain, resolve_text, Resolution.path, List.reverse_reverse]
    rfl
  · omega
  · omega

/-- A call that returns a string or leaves the string has run on a path, and
after no step above the root it returns the path resolved. -/
theorem returned_of_climbs_ne_one {directory : Option NormalPath} {memory : Bool}
    (hclimbs : memory = true → ∀ text, joinedPath (workingDirectory.map NormalPath.text)
      (directory.map NormalPath.text) filename = some text → (resolve text).climbs ≠ 1)
    (hends : DfsNormalizePathEnds (workingDirectory.map NormalPath.text) memory
      (directory.map NormalPath.text) filename ending) :
    ending = .null ∨ ∃ text fullpath,
      joinedPath (workingDirectory.map NormalPath.text) (directory.map NormalPath.text) filename =
        some text ∧ ending = .returned fullpath ∧ fullpath.cString = (resolve text).path ∧
        ∃ path : NormalPath, path.text = (resolve text).path := by
  rw [dfsNormalizePathEnds_iff] at hends
  split at hends
  · exact Or.inl hends
  · rename_i text hjoined
    cases memory with
    | false => exact Or.inl hends
    | true =>
      have hhead := joinedPath_head? hjoined
      rcases hends.cases_climbs hhead with ⟨hzero, fullpath, rfl, hcString⟩ | ⟨hone, -⟩ | ⟨-, hnull⟩
      · exact Or.inr ⟨text, fullpath, hjoined, rfl, hcString, exists_path hhead (by omega)⟩
      · exact absurd hone (hclimbs rfl text hjoined)
      · exact Or.inl hnull

/-- The result is right unless the joined path steps above the root exactly
once. -/
theorem normalizesRight_iff_climbs_ne_one (workingDirectory directory : Option NormalPath)
    (memory : Bool) (filename : CString) :
    NormalizesRight (workingDirectory.map NormalPath.text) memory (directory.map NormalPath.text)
        filename ↔
      (memory = true → ∀ text, joinedPath (workingDirectory.map NormalPath.text)
        (directory.map NormalPath.text) filename = some text → (resolve text).climbs ≠ 1) := by
  constructor
  · intro hright hmemory text hjoined hone
    subst hmemory
    have hhead := joinedPath_head? hjoined
    obtain ⟨ending, hends, -⟩ := Cursors.gives_start text
    have hcall := (dfsNormalizePathEnds_of_joined hjoined).2 hends
    rcases hends.cases_climbs hhead with ⟨hzero, -⟩ | ⟨-, hfails⟩ | ⟨htwo, -⟩
    · omega
    · rcases hfails with ⟨-, rfl⟩ | ⟨fullpath, rfl, hcString⟩
      · exact hright.inside hcall
      · have habsolute := hright.absolute fullpath hcall
        obtain ⟨path, hpath⟩ := exists_path hhead hone.le
        rw [hcString, ← hpath, List.head?_tail] at habsolute
        exact path.text_second habsolute
    · omega
  · intro hclimbs
    constructor
    · exact exists_dfsNormalizePathEnds _ _ memory filename
    · intro houtside
      rcases returned_of_climbs_ne_one hclimbs houtside with hnull | ⟨_, _, _, hreturned, -⟩
      · cases hnull
      · cases hreturned
    · intro fullpath hends
      rcases returned_of_climbs_ne_one hclimbs hends with
        hnull | ⟨text, other, hjoined, hreturned, hcString, path, hpath⟩
      · cases hnull
      · obtain rfl := Ending.returned.inj hreturned
        rw [hcString, ← hpath]
        exact path.text_head?
    · intro fullpath text hjoined hends
      rcases returned_of_climbs_ne_one hclimbs hends with
        hnull | ⟨other, _, hother, hreturned, hcString, -⟩
      · cases hnull
      · obtain rfl := Ending.returned.inj hreturned
        obtain rfl := Option.some.inj (hjoined.symm.trans hother)
        exact hcString
    · intro fullpath hends otherWorkingDirectory otherDirectory
      rcases returned_of_climbs_ne_one hclimbs hends with
        hnull | ⟨_, _, _, hreturned, hcString, path, hpath⟩
      · cases hnull
      · obtain rfl := Ending.returned.inj hreturned
        rw [hcString, ← hpath]
        exact dfsNormalizePathEnds_text otherWorkingDirectory otherDirectory path

/-- One step above the root and a name: the string returned is not absolute. -/
def climbingName : CString := ['/', '.', '.', '/', 'a']

/-- One step above the root alone. -/
def climbing : CString := ['/', '.', '.']

theorem climbingName_ends :
    DfsNormalizePathEnds none true none climbingName
      (.returned [some 'a', none, some '.', some '/', some 'a', none]) :=
  ⟨20, by decide⟩

theorem climbing_ends : DfsNormalizePathEnds none true none climbing .outside :=
  ⟨20, by decide⟩

theorem not_normalizesRight_climbing :
    ¬ NormalizesRight none true none climbingName ∧ ¬ NormalizesRight none true none climbing :=
  ⟨fun hright => absurd (hright.absolute _ climbingName_ends) (by decide),
    fun hright => hright.inside climbing_ends⟩

end RtThread.Dfs
