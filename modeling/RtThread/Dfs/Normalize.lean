import RtThread.Dfs.Path

set_option linter.all false

/-!
# What `dfs_normalize_path` returns

The loop of `dfs_normalize_path` keeps the names it has passed, each with the
separator after it.  A text that climbs above the root loses the separator at
its start, so the result is a normalized path or such a path without its first
character.
-/

namespace RtThread.Dfs

open ComponentPath

/-- The characters before `dst` at the start of a component, last first: the
names passed, innermost first, and the separator of the root. -/
def passed (absolute : Bool) : (names : List CString) → List Char
  | [] => if absolute then ['/'] else []
  | name :: names => '/' :: (name.reverse ++ passed absolute names)

/-- What the loop has written when it stops: the last name has no separator. -/
def Ended (out : List Char) : Prop :=
  ∃ absolute names last, (∀ name ∈ names, IsName name) ∧ (last = [] ∨ IsName last) ∧
    out = last.reverse ++ passed absolute names

theorem passed_nil (absolute : Bool) : passed absolute [] = if absolute then ['/'] else [] := rfl

theorem passed_cons (absolute : Bool) (name : CString) (names : List CString) :
    passed absolute (name :: names) = '/' :: (name.reverse ++ passed absolute names) := rfl

theorem passed_append (names : List CString) : passed true names = passed false names ++ ['/'] := by
  induction names with
  | nil => rfl
  | cons name names ih => simp [passed_cons, ih]

theorem passed_head? (absolute : Bool) (names : List CString) :
    ∀ c ∈ (passed absolute names).head?, c = '/' := by
  cases names with
  | nil => cases absolute <;> simp [passed_nil]
  | cons name names => simp [passed_cons]

theorem reverse_passed (names : List CString) :
    (passed true names).reverse = body '/' names.reverse ++ ['/'] := by
  induction names with
  | nil => rfl
  | cons name names ih => simp [passed_cons, ih, body_append]

theorem upOne_passed_cons (absolute : Bool) {name : CString} (names : List CString)
    (hslash : '/' ∉ name) :
    upOne (passed absolute (name :: names)) = some (passed absolute names) := by
  have hcopied : ∀ c ∈ name.reverse, decide (c ≠ '/') = true := by
    intro c hc
    rw [List.mem_reverse] at hc
    simpa using fun h : c = '/' => hslash (h ▸ hc)
  rw [passed_cons, upOne, List.dropWhile_append_of_pos hcopied]
  cases hpassed : passed absolute names with
  | nil => rfl
  | cons c rest =>
    have hc := passed_head? absolute names c (by rw [hpassed]; rfl)
    simp [hc]

theorem upOne_passed {absolute : Bool} {names : List CString} {written : List Char}
    (hnames : ∀ name ∈ names, IsName name)
    (hup : upOne (passed absolute names) = some written) :
    ∃ absolute' names', (∀ name ∈ names', IsName name) ∧ written = passed absolute' names' := by
  cases names with
  | nil =>
    cases absolute with
    | false => simp [passed_nil, upOne] at hup
    | true =>
      cases hup
      exact ⟨false, [], by simp, rfl⟩
  | cons name names =>
    refine ⟨absolute, names, fun other hother => hnames other (List.mem_cons_of_mem _ hother), ?_⟩
    rw [upOne_passed_cons absolute names (hnames name List.mem_cons_self).2.1] at hup
    exact (Option.some.inj hup).symm

theorem takeWhile_eq_nil {src : List Char} (hnil : src.takeWhile (· ≠ '/') = []) :
    src = [] ∨ ∃ rest, src = '/' :: rest := by
  cases src with
  | nil => exact Or.inl rfl
  | cons c src =>
    by_cases hc : c = '/'
    · exact Or.inr ⟨src, by rw [hc]⟩
    · simp [hc] at hnil

/-- A component that is neither a dot component nor empty is a name. -/
theorem isName_of_not_dots {c : Char} {src : List Char} (hslash : c ≠ '/')
    (hdot : c = '.' → src ≠ []) (hdots : c = '.' → src ≠ ['.'])
    (hdotSlash : ∀ rest, c = '.' → src ≠ '/' :: rest)
    (hdotsSlash : ∀ rest, c = '.' → src ≠ '.' :: '/' :: rest) :
    IsName (c :: src.takeWhile (· ≠ '/')) := by
  refine ⟨List.cons_ne_nil _ _, ?_, ?_, ?_⟩
  · rw [List.mem_cons, not_or]
    refine ⟨hslash.symm, fun hmem => ?_⟩
    simpa using List.mem_takeWhile_imp hmem
  · intro heq
    obtain ⟨hc, hnil⟩ := List.cons.inj heq
    rcases takeWhile_eq_nil hnil with hsrc | ⟨rest, hsrc⟩
    · exact hdot hc hsrc
    · exact hdotSlash rest hc hsrc
  · intro heq
    obtain ⟨hc, hrest⟩ := List.cons.inj heq
    cases src with
    | nil => cases hrest
    | cons d src =>
      by_cases hd : d = '/'
      · exact hdotSlash src hc (by rw [hd])
      · rw [List.takeWhile_cons_of_pos (by simpa using hd), List.cons.injEq] at hrest
        rcases takeWhile_eq_nil hrest.2 with rfl | ⟨rest, rfl⟩
        · exact hdots hc (by rw [hrest.1])
        · exact hdotsSlash rest hc (by rw [hrest.1])

/-- The two halves of the loop, by induction on what remains to be read. -/
theorem ended_of_length_le (n : ℕ) :
    (∀ src absolute names out, src.length ≤ n → (∀ name ∈ names, IsName name) →
      nextComponent src (passed absolute names) = some out → Ended out) ∧
    ∀ src part absolute names out, src.length ≤ n → (∀ name ∈ names, IsName name) →
      IsName (part ++ src.takeWhile (· ≠ '/')) →
        copyComponent src (part.reverse ++ passed absolute names) = some out → Ended out := by
  induction n with
  | zero =>
    constructor
    · intro src absolute names out hlength hnames hnext
      obtain rfl := List.length_eq_zero_iff.1 (Nat.le_zero.1 hlength)
      exact ⟨absolute, names, [], hnames, Or.inl rfl, (Option.some.inj hnext).symm⟩
    · intro src part absolute names out hlength hnames hpart hcopy
      obtain rfl := List.length_eq_zero_iff.1 (Nat.le_zero.1 hlength)
      rw [List.takeWhile_nil, List.append_nil] at hpart
      exact ⟨absolute, names, part, hnames, Or.inr hpart, (Option.some.inj hcopy).symm⟩
  | succ n ih =>
    obtain ⟨ihNext, ihCopy⟩ := ih
    constructor
    · intro src absolute names out hlength hnames hnext
      rw [nextComponent.eq_def] at hnext
      split at hnext
      · exact ⟨absolute, names, [], hnames, Or.inl rfl, (Option.some.inj hnext).symm⟩
      · exact ⟨absolute, names, [], hnames, Or.inl rfl, (Option.some.inj hnext).symm⟩
      · obtain ⟨absolute', names', hnames', rfl⟩ := upOne_passed hnames hnext
        exact ⟨absolute', names', [], hnames', Or.inl rfl, rfl⟩
      · rename_i src
        rw [List.length_cons, List.length_cons] at hlength
        exact ihNext src absolute names out (by omega) hnames hnext
      · rename_i src
        rw [List.length_cons, List.length_cons, List.length_cons] at hlength
        split at hnext
        · cases hnext
        · rename_i written hup
          obtain ⟨absolute', names', hnames', rfl⟩ := upOne_passed hnames hup
          exact ihNext src absolute' names' out (by omega) hnames' hnext
      · rename_i src
        rw [List.length_cons] at hlength
        exact ihNext src absolute names out (by omega) hnames hnext
      · rename_i c src hdot hdots hdotSlash hdotsSlash hslash
        rw [List.length_cons] at hlength
        refine ihCopy src [c] absolute names out (by omega) hnames ?_ hnext
        exact isName_of_not_dots hslash hdot hdots hdotSlash hdotsSlash
    · intro src part absolute names out hlength hnames hpart hcopy
      rw [copyComponent.eq_def] at hcopy
      split at hcopy
      · rw [List.takeWhile_nil, List.append_nil] at hpart
        exact ⟨absolute, names, part, hnames, Or.inr hpart, (Option.some.inj hcopy).symm⟩
      · rename_i src
        rw [List.length_cons] at hlength
        rw [List.takeWhile_cons_of_neg (by simp), List.append_nil] at hpart
        refine ihNext src absolute (part :: names) out (by omega) ?_ hcopy
        intro name hname
        rcases List.mem_cons.1 hname with rfl | hname
        · exact hpart
        · exact hnames name hname
      · rename_i c src hslash
        rw [List.length_cons] at hlength
        rw [List.takeWhile_cons_of_pos (by simpa using hslash)] at hpart
        refine ihCopy src (part ++ [c]) absolute names out (by omega) hnames ?_ ?_
        · rw [List.append_assoc]
          exact hpart
        · rw [List.reverse_append]
          exact hcopy

/-- A normalized path, or one whose first character is gone. -/
def Normalized (text : CString) : Prop :=
  ∃ path : NormalPath, text = path.text ∨ path.components ≠ [] ∧ text = path.text.tail

theorem normalized_of_names {absolute : Bool} {names : List CString} (hne : names ≠ [])
    (hnames : ∀ name ∈ names, IsName name) :
    Normalized (if absolute then body '/' names else (body '/' names).tail) := by
  have htext : (NormalPath.mk names hnames).text = body '/' names := render_of_ne_nil hne
  refine ⟨⟨names, hnames⟩, ?_⟩
  rw [htext]
  cases absolute with
  | false => exact Or.inr ⟨hne, rfl⟩
  | true => exact Or.inl rfl

theorem reverse_name (absolute : Bool) (names : List CString) (name : CString) :
    (name.reverse ++ passed absolute names).reverse =
      if absolute then body '/' (names.reverse ++ [name])
      else (body '/' (names.reverse ++ [name])).tail := by
  have htrue : (name.reverse ++ passed true names).reverse =
      body '/' (names.reverse ++ [name]) := by
    rw [List.reverse_append, List.reverse_reverse, reverse_passed, body_append]
    simp
  cases absolute with
  | true => exact htrue
  | false =>
    rw [passed_append] at htrue
    simp only [Bool.false_eq_true, if_false, ← htrue]
    simp

theorem normalized_name {absolute : Bool} {names : List CString} {name : CString}
    (hnames : ∀ name ∈ names, IsName name) (hname : IsName name) :
    Normalized (name.reverse ++ passed absolute names).reverse := by
  rw [reverse_name]
  refine normalized_of_names (by simp) fun other hother => ?_
  rcases List.mem_append.1 hother with hmem | hmem
  · exact hnames other (List.mem_reverse.1 hmem)
  · rw [List.mem_singleton.1 hmem]
    exact hname

theorem terminate_passed_cons (absolute : Bool) {name : CString} (hne : name ≠ [])
    (names : List CString) :
    terminate (passed absolute (name :: names)) =
      (name.reverse ++ passed absolute names).reverse := by
  have hnonempty : name.reverse ++ passed absolute names ≠ [] := by simp [hne]
  obtain ⟨c, rest, hrest⟩ := List.exists_cons_of_ne_nil hnonempty
  rw [passed_cons, hrest]
  rfl

theorem terminate_name (absolute : Bool) {name : CString} (hname : IsName name)
    (names : List CString) :
    terminate (name.reverse ++ passed absolute names) =
      (name.reverse ++ passed absolute names).reverse := by
  rw [← List.reverse_reverse (name.reverse ++ passed absolute names), terminate_reverse]
  · rw [List.reverse_reverse]
  · simp [hname.1]
  · rw [List.getLast?_reverse, List.head?_append_of_ne_nil _ (by simp [hname.1]),
      List.head?_reverse]
    exact fun hslash => hname.2.1 (List.mem_of_getLast? hslash)

theorem Ended.normalized {out : List Char} (hended : Ended out) : Normalized (terminate out) := by
  obtain ⟨absolute, names, last, hnames, hlast, rfl⟩ := hended
  have hroot : Normalized ['/'] := ⟨⟨[], by simp⟩, Or.inl rfl⟩
  rcases hlast with rfl | hlast
  · cases names with
    | nil => cases absolute <;> exact hroot
    | cons name names =>
      have hname := hnames name List.mem_cons_self
      rw [List.reverse_nil, List.nil_append, terminate_passed_cons absolute hname.1]
      exact normalized_name (fun other hother => hnames other (List.mem_cons_of_mem _ hother))
        hname
  · rw [terminate_name absolute hlast]
    exact normalized_name hnames hlast

theorem normalized_normalizeText {src text : CString} (hsome : normalizeText src = some text) :
    Normalized text := by
  have hended : ∀ (absolute : Bool) (src : CString),
      (nextComponent src (passed absolute [])).map terminate = some text → Normalized text := by
    intro absolute src hmap
    obtain ⟨out, hout, rfl⟩ := Option.map_eq_some_iff.1 hmap
    exact ((ended_of_length_le src.length).1 src absolute [] out le_rfl (by simp) hout).normalized
  rw [normalizeText.eq_def] at hsome
  split at hsome
  · exact hended true _ hsome
  · exact hended false _ hsome

theorem normalized_dfsNormalizePath {workingDirectory : Option CString} {memory : Bool}
    {directory : Option CString} {filename text : CString}
    (hsome : dfsNormalizePath workingDirectory memory directory filename = some text) :
    Normalized text := by
  rw [dfsNormalizePath.eq_def] at hsome
  split at hsome
  · split at hsome
    · exact normalized_normalizeText hsome
    · cases hsome
  · cases hsome
  · split at hsome
    · exact normalized_normalizeText hsome
    · cases hsome

/-- A result that starts with a separator is a normalized path. -/
theorem Normalized.absolute {text : CString} (hnormalized : Normalized text)
    (hhead : text.head? = some '/') : ∃ path : NormalPath, text = path.text := by
  obtain ⟨path, heq | ⟨hne, heq⟩⟩ := hnormalized
  · exact ⟨path, heq⟩
  · obtain ⟨component, components, hcomponents⟩ := List.exists_cons_of_ne_nil hne
    have hname := path.names component (by simp [hcomponents])
    obtain ⟨c, component, rfl⟩ := List.exists_cons_of_ne_nil hname.1
    rw [heq, NormalPath.text, render_of_ne_nil hne, hcomponents] at hhead
    obtain rfl : c = '/' := by simpa using hhead
    exact absurd List.mem_cons_self hname.2.1

/-- No separator follows the one at the start of a path. -/
theorem NormalPath.text_second (path : NormalPath) : path.text[1]? ≠ some '/' := by
  rw [NormalPath.text]
  by_cases hroot : path.components = []
  · simp [hroot]
  · rw [render_of_ne_nil hroot]
    obtain ⟨component, components, hcomponents⟩ := List.exists_cons_of_ne_nil hroot
    have hname := path.names component (by simp [hcomponents])
    obtain ⟨c, component, rfl⟩ := List.exists_cons_of_ne_nil hname.1
    rw [hcomponents]
    exact fun hc => hname.2.1 (by simp [Option.some.inj hc])

end RtThread.Dfs
