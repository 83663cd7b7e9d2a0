import RtThread.Dfs.Normalize

set_option linter.all false

/-!
# `dfs_normalize_path` in its own buffer

The loop of `dfs_normalize_path` of `dfs.c` with the allocated string, the read
cursor `src` and the write cursor `dst`.  An access outside the string ends
the run, so what the text level computes can be compared with what the buffer
holds at the end.
-/

namespace RtThread.Dfs

/-- The allocated string; a cell without a character is a terminator. -/
abbrev Buffer := List (Option Char)

/-- How a call ends. -/
inductive Ending
  | null
  | returned (fullpath : Buffer)
  | outside
deriving DecidableEq

/-- The loops of the function, by what they do next. -/
inductive Place
  | head
  | skip
  | skipUp
  | upOne
  | back
  | copy
  | erase
deriving DecidableEq

structure Cursors where
  place : Place
  fullpath : Buffer
  src : ℕ
  dst : ℕ
deriving DecidableEq

namespace Buffer

def read (fullpath : Buffer) (index : ℕ) : Except Ending (Option Char) :=
  match fullpath[index]? with
  | some c => .ok c
  | none => .error .outside

def write (fullpath : Buffer) (index : ℕ) (c : Option Char) : Except Ending Buffer :=
  if index < fullpath.length then .ok (fullpath.set index c) else .error .outside

/-- The C string at the start of the buffer. -/
def cString : Buffer → CString
  | some c :: fullpath => c :: cString fullpath
  | _ => []

/-- The copy of a text, which fills the memory allocated for it. -/
def ofText (text : CString) : Buffer :=
  text.map some ++ [none]

end Buffer

namespace Cursors

/-- The head of `while (1)`: the dot components. -/
def head (st : Cursors) : Except Ending Cursors := do
  let c ← st.fullpath.read st.src
  if c ≠ some '.' then
    return { st with place := .copy }
  let next ← st.fullpath.read (st.src + 1)
  if next = none then
    return { st with place := .copy, src := st.src + 1 }
  else if next = some '/' then
    return { st with place := .skip, src := st.src + 2 }
  else if next = some '.' then
    let last ← st.fullpath.read (st.src + 2)
    if last = none then
      return { st with place := .upOne, src := st.src + 2 }
    else if last = some '/' then
      return { st with place := .skipUp, src := st.src + 3 }
    else
      return { st with place := .copy }
  else
    return { st with place := .copy }

/-- One round of a loop over slashes, and the place after it. -/
def skipTo (place : Place) (st : Cursors) : Except Ending Cursors := do
  let c ← st.fullpath.read st.src
  if c = some '/' then
    return { st with src := st.src + 1 }
  else
    return { st with place := place }

/-- `up_one`: `dst --`, and `NULL` below the start of the string. -/
def up (st : Cursors) : Except Ending Cursors :=
  if st.dst = 0 then throw .null
  else return { st with place := .back, dst := st.dst - 1 }

/-- One round of `while (dst0 < dst && dst[-1] != '/')`. -/
def goBack (st : Cursors) : Except Ending Cursors := do
  if st.dst = 0 then
    return { st with place := .head }
  let c ← st.fullpath.read (st.dst - 1)
  if c = some '/' then
    return { st with place := .head }
  else
    return { st with dst := st.dst - 1 }

/-- The separator at the end.  `dst --` may leave the string, and what it then
points to is read. -/
def dropSlash (fullpath : Buffer) (dst : ℕ) : Except Ending Buffer :=
  if dst = 0 then throw .outside
  else if dst - 1 = 0 then return fullpath
  else do
    let c ← fullpath.read (dst - 1)
    if c = some '/' then fullpath.write (dst - 1) none else return fullpath

/-- The final check that `fullpath` is not empty. -/
def rootIfEmpty (fullpath : Buffer) : Except Ending Buffer := do
  let first ← fullpath.read 0
  if first = none then
    let fullpath ← fullpath.write 0 (some '/')
    fullpath.write 1 none
  else return fullpath

/-- From `*dst = '\0'` to the end of the function. -/
def finish (fullpath : Buffer) (dst : ℕ) : Except Ending Cursors := do
  let fullpath ← fullpath.write dst none
  let fullpath ← dropSlash fullpath dst
  let fullpath ← rootIfEmpty fullpath
  throw (.returned fullpath)

/-- One round of the copy up to the next separator. -/
def copyOne (st : Cursors) : Except Ending Cursors := do
  match ← st.fullpath.read st.src with
  | none => finish st.fullpath st.dst
  | some c =>
    let fullpath ← st.fullpath.write st.dst (some c)
    return ⟨if c = '/' then .erase else .copy, fullpath, st.src + 1, st.dst + 1⟩

def step (st : Cursors) : Except Ending Cursors :=
  match st.place with
  | .head => st.head
  | .skip => st.skipTo .head
  | .skipUp => st.skipTo .upOne
  | .upOne => st.up
  | .back => st.goBack
  | .copy => st.copyOne
  | .erase => st.skipTo .head

def run : ℕ → Cursors → Option Ending
  | 0, _ => none
  | fuel + 1, st =>
    match st.step with
    | .error ending => some ending
    | .ok st => run fuel st

def Ends (st : Cursors) (ending : Ending) : Prop :=
  ∃ fuel, run fuel st = some ending

variable {st : Cursors} {ending : Ending}

theorem run_of_step {next : Cursors} (hstep : st.step = .ok next) (fuel : ℕ) :
    run (fuel + 1) st = run fuel next := by
  rw [run, hstep]

theorem run_of_error (hstep : st.step = .error ending) (fuel : ℕ) :
    run (fuel + 1) st = some ending := by
  rw [run, hstep]

theorem Ends.of_step {next : Cursors} (hstep : st.step = .ok next) (hends : next.Ends ending) :
    st.Ends ending := by
  obtain ⟨fuel, hrun⟩ := hends
  exact ⟨fuel + 1, (run_of_step hstep fuel).trans hrun⟩

theorem Ends.of_error (hstep : st.step = .error ending) : st.Ends ending :=
  ⟨1, run_of_error hstep 0⟩

theorem run_add {fuel : ℕ} (hrun : run fuel st = some ending) (more : ℕ) :
    run (fuel + more) st = some ending := by
  induction fuel generalizing st with
  | zero => cases hrun
  | succ fuel ih =>
    rw [Nat.add_right_comm]
    cases hstep : st.step with
    | error other =>
      rw [run_of_error hstep] at hrun ⊢
      exact hrun
    | ok next =>
      rw [run_of_step hstep] at hrun ⊢
      exact ih hrun

theorem Ends.unique {left right : Ending} (hleft : st.Ends left) (hright : st.Ends right) :
    left = right := by
  obtain ⟨leftFuel, hleft⟩ := hleft
  obtain ⟨rightFuel, hright⟩ := hright
  have hsame := run_add hleft rightFuel
  rw [Nat.add_comm, run_add hright] at hsame
  exact (Option.some.inj hsame).symm

/-! ## What the buffer holds -/

/-- The buffer between two rounds: `written` lies before `dst`, last character
first, `rest` from `src` on, and the cells of `gap` are dead. -/
def standing (place : Place) (written : List Char) (gap : Buffer) (rest : List Char) : Cursors :=
  ⟨place, (written.reverse.map some ++ gap) ++ Buffer.ofText rest,
    written.length + gap.length, written.length⟩

@[simp] theorem standing_place (place : Place) (written : List Char) (gap : Buffer)
    (rest : List Char) : (standing place written gap rest).place = place := rfl

theorem read_ofText {text : CString} {index : ℕ} (hindex : index ≤ text.length) :
    (Buffer.ofText text)[index]? = some text[index]? := by
  rw [Buffer.ofText]
  rcases Nat.lt_or_eq_of_le hindex with hlt | rfl
  · rw [List.getElem?_append_left (by simpa using hlt), List.getElem?_map,
      List.getElem?_eq_getElem hlt]
    rfl
  · rw [List.getElem?_append_right (by simp), List.getElem?_eq_none le_rfl]
    simp

variable {rest : List Char}

/-- Up to the terminator the characters to be read are in their place. -/
theorem read_src (place : Place) (written : List Char) (gap : Buffer) {ahead : ℕ}
    (hahead : ahead ≤ rest.length) : (standing place written gap rest).fullpath.read
      ((standing place written gap rest).src + ahead) = .ok rest[ahead]? := by
  have hcell : (standing place written gap rest).fullpath[
      (standing place written gap rest).src + ahead]? = some rest[ahead]? := by
    dsimp only [standing]
    rw [List.getElem?_append_right (by simp), ← read_ofText hahead]
    congr 1
    simp
  rw [Buffer.read, hcell]

/-- The character before `dst` is the one written last. -/
theorem read_dst (place : Place) (c : Char) (written : List Char) (gap : Buffer)
    (rest : List Char) :
    (standing place (c :: written) gap rest).fullpath.read written.length = .ok (some c) := by
  have hcell : (standing place (c :: written) gap rest).fullpath[written.length]? =
      some (some c) := by
    dsimp only [standing]
    rw [List.append_assoc, List.getElem?_append_left (by simp)]
    simp
  rw [Buffer.read, hcell]

theorem standing_advance (place : Place) (written : List Char) (gap : Buffer)
    (front rest : List Char) :
    standing place written (gap ++ front.map some) rest =
      { standing place written gap (front ++ rest) with
        place := place, src := written.length + gap.length + front.length } := by
  simp [standing, Buffer.ofText, Nat.add_assoc]

/-- `dst` moves back over the character written last. -/
theorem standing_back (place : Place) (c : Char) (written : List Char) (gap : Buffer)
    (rest : List Char) :
    standing place written (some c :: gap) rest =
      { standing place (c :: written) gap rest with place := place, dst := written.length } := by
  simp only [standing, List.reverse_cons, List.map_append, List.map_cons, List.map_nil,
    List.append_assoc, List.singleton_append, List.length_cons, Cursors.mk.injEq, true_and,
      and_true]
  omega

/-- The write after a read reuses a dead cell, or the one just read. -/
theorem copyOne_cons (c : Char) (written : List Char) (gap : Buffer) (rest : List Char) :
    (standing .copy written gap (c :: rest)).copyOne =
      .ok (standing (if c = '/' then .erase else .copy) (c :: written)
        (gap ++ [some c]).tail rest) := by
  have hread := read_src .copy written gap (Nat.zero_le (c :: rest).length)
  rw [Nat.add_zero] at hread
  have hroom : (standing .copy written gap (c :: rest)).dst <
      (standing .copy written gap (c :: rest)).fullpath.length := by
    simp only [standing, Buffer.ofText, List.length_append, List.length_map, List.length_reverse,
      List.length_cons]
    omega
  rw [copyOne, hread]
  change ((standing .copy written gap (c :: rest)).fullpath.write
    (standing .copy written gap (c :: rest)).dst (some c)).bind _ = _
  rw [Buffer.write, if_pos hroom]
  cases gap with
  | nil => simp [standing, Buffer.ofText, Except.bind, pure, Except.pure]
  | cons cell gap =>
    simp [standing, Buffer.ofText, Except.bind, pure, Except.pure]
    omega

/-! ## The end of the text -/

theorem cString_append (text : CString) (rest : Buffer) :
    Buffer.cString (text.map some ++ none :: rest) = text := by
  induction text with
  | nil => rfl
  | cons c text ih => rw [List.map_cons, List.cons_append, Buffer.cString, ih]

theorem write_terminator (written : List Char) (gap : Buffer) :
    (standing .copy written gap []).fullpath.write written.length none =
      .ok (written.reverse.map some ++ none :: (gap ++ [none]).tail) := by
  have hroom : written.length < (standing .copy written gap []).fullpath.length := by
    simp only [standing, Buffer.ofText, List.length_append, List.length_map, List.length_reverse,
      List.map_nil, List.length_cons]
    omega
  rw [Buffer.write, if_pos hroom]
  cases gap <;> simp [standing, Buffer.ofText]

theorem rootIfEmpty_of_ne_nil {text : CString} (hne : text ≠ []) (rest : Buffer) :
    rootIfEmpty (text.map some ++ rest) = .ok (text.map some ++ rest) := by
  obtain ⟨c, text, rfl⟩ := List.exists_cons_of_ne_nil hne
  rfl

/-- A separator at the end is overwritten unless it is the whole text. -/
theorem dropSlash_cons (c d : Char) (written : List Char) (rest : Buffer) :
    dropSlash ((c :: d :: written).reverse.map some ++ none :: rest)
      (c :: d :: written).length =
      .ok (if c = '/' then (d :: written).reverse.map some ++ none :: none :: rest
        else (c :: d :: written).reverse.map some ++ none :: rest) := by
  have hread : Buffer.read ((c :: d :: written).reverse.map some ++ none :: rest)
      ((c :: d :: written).length - 1) = .ok (some c) := by
    rw [Buffer.read, List.getElem?_append_left (by simp)]
    simp
  rw [dropSlash, if_neg (by simp), if_neg (by simp), hread]
  change (if some c = some '/' then _ else _) = _
  by_cases hc : c = '/'
  · rw [if_pos (by rw [hc]), if_pos hc, Buffer.write, if_pos (by simp)]
    simp [hc]
  · rw [if_neg (by simpa using hc), if_neg hc]
    rfl

/-- What the text level leaves in `written` against the end of the run: where
nothing is left, the character before the string is read. -/
def Matches : Option (List Char) → Ending → Prop
  | none, ending => ending = .null
  | some [], ending => ending = .outside
  | some written, ending =>
    ∃ fullpath, ending = .returned fullpath ∧ fullpath.cString = terminate written

def Gives (st : Cursors) (out : Option (List Char)) : Prop :=
  ∃ ending, st.Ends ending ∧ Matches out ending

theorem Gives.of_step {next : Cursors} {out : Option (List Char)} (hstep : st.step = .ok next)
    (hgives : next.Gives out) : st.Gives out := by
  obtain ⟨ending, hends, hmatches⟩ := hgives
  exact ⟨ending, hends.of_step hstep, hmatches⟩

theorem finish_standing (written : List Char) (gap : Buffer) :
    ∃ ending, finish (standing .copy written gap []).fullpath written.length = .error ending ∧
      Matches (some written) ending := by
  have hwrite := write_terminator written gap
  generalize (gap ++ [none]).tail = rest at hwrite
  rw [finish, hwrite]
  change ∃ ending, (dropSlash _ _).bind _ = _ ∧ _
  match written with
  | [] => exact ⟨.outside, rfl, rfl⟩
  | [c] =>
    refine ⟨.returned (some c :: none :: rest), rfl, _, rfl, ?_⟩
    by_cases hc : c = '/'
    · rw [hc]
      rfl
    · simp [Buffer.cString, terminate, hc]
  | c :: d :: written =>
    rw [dropSlash_cons]
    change ∃ ending, (rootIfEmpty _).bind _ = _ ∧ _
    by_cases hc : c = '/'
    · rw [if_pos hc, rootIfEmpty_of_ne_nil (by simp)]
      refine ⟨_, rfl, _, rfl, ?_⟩
      rw [cString_append, hc]
      rfl
    · rw [if_neg hc, rootIfEmpty_of_ne_nil (by simp)]
      refine ⟨_, rfl, _, rfl, ?_⟩
      have hterminate : terminate (c :: d :: written).reverse.reverse =
          (c :: d :: written).reverse :=
        terminate_reverse (by simp) (by simpa using hc)
      rw [List.reverse_reverse] at hterminate
      rw [cString_append, hterminate]

/-! ## The loop against the text level -/

/-- Where the dot components lead. -/
def afterHead (written : List Char) (gap : Buffer) : List Char → Cursors
  | ['.'] => standing .copy written (gap ++ ['.'].map some) []
  | ['.', '.'] => standing .upOne written (gap ++ ['.', '.'].map some) []
  | '.' :: '/' :: rest => standing .skip written (gap ++ ['.', '/'].map some) rest
  | '.' :: '.' :: '/' :: rest => standing .skipUp written (gap ++ ['.', '.', '/'].map some) rest
  | rest => standing .copy written gap rest

theorem head_standing (written : List Char) (gap : Buffer) (rest : List Char) :
    (standing .head written gap rest).step = .ok (afterHead written gap rest) := by
  have hfirst := read_src .head written gap (Nat.zero_le rest.length)
  rw [Nat.add_zero] at hfirst
  rw [step, standing_place]
  change head _ = _
  rw [head, hfirst]
  unfold afterHead
  split
  · rw [standing_advance, read_src .head written gap (le_rfl : 1 ≤ ['.'].length)]
    rfl
  · rw [standing_advance, read_src .head written gap (by simp : 1 ≤ ['.', '.'].length),
      read_src .head written gap (le_rfl : 2 ≤ ['.', '.'].length)]
    rfl
  · rename_i rest
    rw [standing_advance, read_src .head written gap
      (by simp : 1 ≤ ('.' :: '/' :: rest).length)]
    rfl
  · rename_i rest
    rw [standing_advance, read_src .head written gap
      (by simp : 1 ≤ ('.' :: '.' :: '/' :: rest).length), read_src .head written gap
      (by simp : 2 ≤ ('.' :: '.' :: '/' :: rest).length)]
    rfl
  · rename_i hdot hdots hdotSlash hdotsSlash
    cases rest with
    | nil => rfl
    | cons c rest =>
      by_cases hc : c = '.'
      · subst hc
        cases rest with
        | nil => exact absurd rfl hdot
        | cons d rest =>
          rw [read_src .head written gap (by simp : 1 ≤ ('.' :: d :: rest).length)]
          have hd : d ≠ '/' := fun heq => hdotSlash rest (by rw [heq])
          by_cases hdotsHead : d = '.'
          · subst hdotsHead
            cases rest with
            | nil => exact absurd rfl hdots
            | cons e rest =>
              have he : e ≠ '/' := fun heq => hdotsSlash rest (by rw [heq])
              rw [read_src .head written gap (by simp : 2 ≤ ('.' :: '.' :: e :: rest).length)]
              simp [bind, Except.bind, pure, Except.pure, he, standing]
          · simp [bind, Except.bind, pure, Except.pure, hd, hdotsHead, standing]
      · simp [bind, Except.bind, pure, Except.pure, hc, standing]

theorem skipTo_slash (place next : Place) (written : List Char) (gap : Buffer)
    (rest : List Char) :
    (standing place written gap ('/' :: rest)).skipTo next =
      .ok (standing place written (gap ++ ['/'].map some) rest) := by
  have hread := read_src place written gap (Nat.zero_le ('/' :: rest).length)
  rw [Nat.add_zero] at hread
  rw [skipTo, hread, standing_advance]
  rfl

theorem skipTo_of_head?_ne (place next : Place) (written : List Char) (gap : Buffer)
    (hslash : rest.head? ≠ some '/') :
    (standing place written gap rest).skipTo next = .ok (standing next written gap rest) := by
  have hread := read_src place written gap (Nat.zero_le rest.length)
  rw [Nat.add_zero, ← List.head?_eq_getElem?] at hread
  rw [skipTo, hread]
  change (if rest.head? = some '/' then _ else _) = _
  rw [if_neg hslash]
  rfl

theorem head?_dropWhile_slash (rest : List Char) :
    (rest.dropWhile (· = '/')).head? ≠ some '/' := by
  intro hhead
  have hnot := List.head?_dropWhile_not (· = '/') rest
  rw [hhead] at hnot
  simp at hnot

/-- A loop over slashes stops at the first other character. -/
theorem gives_skip {place next : Place}
    (hplace : ∀ st : Cursors, st.place = place → st.step = st.skipTo next) {written : List Char}
    {out : Option (List Char)}
    (hnext : ∀ gap, (standing next written gap
      (rest.dropWhile (· = '/'))).Gives out) (gap : Buffer) :
    (standing place written gap rest).Gives out := by
  induction rest generalizing gap with
  | nil =>
    refine (hnext gap).of_step ?_
    rw [hplace _ rfl]
    exact skipTo_of_head?_ne place next written gap (by simp)
  | cons c rest ih =>
    by_cases hc : c = '/'
    · subst hc
      refine (ih hnext (gap ++ ['/'].map some)).of_step ?_
      rw [hplace _ rfl]
      exact skipTo_slash place next written gap rest
    · rw [List.dropWhile_cons_of_neg (by simpa using hc)] at hnext
      refine (hnext gap).of_step ?_
      rw [hplace _ rfl]
      exact skipTo_of_head?_ne place next written gap (by simpa using hc)

theorem nextComponent_dropWhile (rest written : List Char) :
    nextComponent (rest.dropWhile (· = '/')) written = nextComponent rest written := by
  induction rest with
  | nil => rfl
  | cons c rest ih =>
    by_cases hc : c = '/'
    · subst hc
      rw [List.dropWhile_cons_of_pos (by simp), ih, nextComponent]
    · rw [List.dropWhile_cons_of_neg (by simpa using hc)]

theorem gives_back
    (hhead : ∀ written gap, (standing .head written gap rest).Gives (nextComponent rest written))
    (written : List Char) (gap : Buffer) : (standing .back written gap rest).Gives
      (nextComponent rest (written.dropWhile (· ≠ '/'))) := by
  induction written generalizing gap with
  | nil => exact (hhead [] gap).of_step rfl
  | cons c written ih =>
    have hstep : (standing .back (c :: written) gap rest).step =
        if c = '/' then .ok (standing .head (c :: written) gap rest)
        else .ok (standing .back written (some c :: gap) rest) := by
      rw [step, standing_place]
      rw [goBack, if_neg (by simp [standing])]
      change (Buffer.read _ written.length).bind _ = _
      rw [read_dst, standing_back]
      by_cases hc : c = '/'
      · rw [if_pos hc, hc]
        rfl
      · rw [if_neg hc]
        change (if some c = some '/' then _ else _) = _
        rw [if_neg (by simpa using hc)]
        rfl
    by_cases hc : c = '/'
    · rw [if_pos hc] at hstep
      rw [List.dropWhile_cons_of_neg (by simpa using hc)]
      exact (hhead (c :: written) gap).of_step hstep
    · rw [if_neg hc] at hstep
      rw [List.dropWhile_cons_of_pos (by simpa using hc)]
      exact (ih (some c :: gap)).of_step hstep

/-- `up_one`, and what follows at the head of the loop. -/
theorem gives_upOne
    (hhead : ∀ written gap, (standing .head written gap rest).Gives (nextComponent rest written))
    (written : List Char) (gap : Buffer) :
    (standing .upOne written gap rest).Gives ((upOne written).bind (nextComponent rest)) := by
  cases written with
  | nil => exact ⟨.null, .of_error rfl, rfl⟩
  | cons c written =>
    have hstep : (standing .upOne (c :: written) gap rest).step =
        .ok (standing .back written (some c :: gap) rest) := by
      rw [standing_back]
      rfl
    exact (gives_back hhead written (some c :: gap)).of_step hstep

theorem gives_end (written : List Char) (gap : Buffer) :
    (standing .copy written gap []).Gives (some written) := by
  obtain ⟨ending, hfinish, hmatches⟩ := finish_standing written gap
  refine ⟨ending, .of_error ?_, hmatches⟩
  have hread := read_src .copy written gap (Nat.zero_le ([] : List Char).length)
  rw [Nat.add_zero] at hread
  change copyOne _ = _
  rw [copyOne, hread]
  exact hfinish

/-- The head of the loop, where the text level stands at the start of a
component and no slash is left to skip. -/
def HeadGives (rest : List Char) : Prop :=
  ∀ written gap, (standing .head written gap rest).Gives (nextComponent rest written)

theorem headGives_nil : HeadGives [] := fun written gap =>
  (gives_end written gap).of_step (head_standing written gap [])

theorem gives_head_of_skip {place : Place}
    (hplace : ∀ st : Cursors, st.place = place → st.step = st.skipTo .head)
    (hhead : HeadGives (rest.dropWhile (· = '/'))) (written : List Char) (gap : Buffer) :
    (standing place written gap rest).Gives (nextComponent rest written) := by
  rw [← nextComponent_dropWhile]
  exact gives_skip hplace (fun gap => hhead written gap) gap

theorem step_of_skip (st : Cursors) (hplace : st.place = .skip) :
    st.step = st.skipTo .head := by rw [step, hplace]

theorem step_of_skipUp (st : Cursors) (hplace : st.place = .skipUp) :
    st.step = st.skipTo .upOne := by rw [step, hplace]

theorem step_of_erase (st : Cursors) (hplace : st.place = .erase) :
    st.step = st.skipTo .head := by rw [step, hplace]

/-- The two halves of the loop, by induction on what remains to be read. -/
theorem gives_of_length_le (n : ℕ) :
    (∀ rest : List Char, rest.length ≤ n → rest.head? ≠ some '/' → HeadGives rest) ∧
    ∀ rest : List Char, rest.length ≤ n → ∀ written gap,
      (standing .copy written gap rest).Gives (copyComponent rest written) := by
  induction n with
  | zero =>
    constructor
    · intro rest hlength hslash
      obtain rfl := List.length_eq_zero_iff.1 (Nat.le_zero.1 hlength)
      exact headGives_nil
    · intro rest hlength written gap
      obtain rfl := List.length_eq_zero_iff.1 (Nat.le_zero.1 hlength)
      exact gives_end written gap
  | succ n ih =>
    obtain ⟨ihHead, ihCopy⟩ := ih
    have hskipped : ∀ rest : List Char, rest.length ≤ n →
        HeadGives (rest.dropWhile (· = '/')) := fun rest hlength =>
      ihHead _ ((List.length_dropWhile_le _ _).trans hlength) (head?_dropWhile_slash rest)
    constructor
    · intro rest hlength hslash written gap
      refine Gives.of_step (head_standing written gap rest) ?_
      unfold afterHead
      split
      · exact gives_end written _
      · have hup := gives_upOne headGives_nil written (gap ++ ['.', '.'].map some)
        have hnil : nextComponent [] = some := funext fun written => by rw [nextComponent]
        rw [hnil, Option.bind_fun_some] at hup
        rwa [nextComponent]
      · rename_i rest
        rw [List.length_cons, List.length_cons] at hlength
        rw [nextComponent]
        exact gives_head_of_skip step_of_skip (hskipped rest (by omega)) written _
      · rename_i rest
        rw [List.length_cons, List.length_cons, List.length_cons] at hlength
        refine gives_skip step_of_skipUp (fun gap => ?_) _
        have hup := gives_upOne (hskipped rest (by omega)) written gap
        rw [nextComponent]
        cases hwritten : upOne written with
        | none =>
          rw [hwritten] at hup
          exact hup
        | some written' =>
          rw [hwritten, Option.bind_some, nextComponent_dropWhile] at hup
          exact hup
      · rename_i hdot hdots hdotSlash hdotsSlash
        cases rest with
        | nil => exact gives_end written gap
        | cons c rest =>
          have hc : c ≠ '/' := fun heq => hslash (by rw [heq]; rfl)
          rw [List.length_cons] at hlength
          refine Gives.of_step (copyOne_cons c written gap rest) ?_
          rw [if_neg hc, nextComponent.eq_7]
          · exact ihCopy rest (by omega) _ _
          · exact fun heq hnil => hdot (by rw [heq, hnil])
          · exact fun heq hnil => hdots (by rw [heq, hnil])
          · exact fun src heq hrest => hdotSlash src (by rw [heq, hrest])
          · exact fun src heq hrest => hdotsSlash src (by rw [heq, hrest])
          · exact hc
    · intro rest hlength written gap
      cases rest with
      | nil => exact gives_end written gap
      | cons c rest =>
        rw [List.length_cons] at hlength
        refine Gives.of_step (copyOne_cons c written gap rest) ?_
        by_cases hc : c = '/'
        · subst hc
          rw [if_pos rfl, copyComponent]
          exact gives_head_of_skip step_of_erase (hskipped rest (by omega)) _ _
        · rw [if_neg hc, copyComponent.eq_3 _ _ _ hc]
          exact ihCopy rest (by omega) _ _

/-- The state before the loop. -/
def start (text : CString) : Cursors :=
  ⟨.head, Buffer.ofText text, 0, 0⟩

end Cursors

/-- What the loop has written when it is left, last character first. -/
def writtenText : CString → Option (List Char)
  | '/' :: src => nextComponent src ['/']
  | src => nextComponent src []

theorem normalizeText_eq (text : CString) :
    normalizeText text = (writtenText text).map terminate := by
  unfold normalizeText
  split
  · rfl
  · rename_i hslash
    rw [writtenText.eq_2 _ hslash]

theorem Cursors.gives_start (text : CString) : (start text).Gives (writtenText text) := by
  by_cases hslash : text.head? = some '/'
  · obtain ⟨rest, rfl⟩ := List.head?_eq_some_iff.1 hslash
    -- a separator at the very start is copied
    refine Gives.of_step (head_standing [] [] ('/' :: rest)) ?_
    refine Gives.of_step (copyOne_cons '/' [] [] rest) ?_
    refine gives_head_of_skip step_of_erase ?_ _ _
    exact (gives_of_length_le rest.length).1 _ (List.length_dropWhile_le _ _)
      (head?_dropWhile_slash rest)
  · have hwritten : writtenText text = nextComponent text [] := by
      refine writtenText.eq_2 _ fun src heq => hslash ?_
      rw [heq, List.head?_cons]
    rw [hwritten]
    exact (gives_of_length_le text.length).1 text le_rfl hslash [] []

/-- The path that is copied to `fullpath`, absent where there is no directory
to start from. -/
def joinedPath (workingDirectory directory : Option CString) (filename : CString) :
    Option CString :=
  match directory.or workingDirectory, filename.head? with
  | _, some '/' => some filename
  | none, _ => none
  | some directory, _ => some (directory ++ '/' :: filename)

/-- A call of `dfs_normalize_path`: how many rounds it may take, and how it
ends. -/
def dfsNormalizePathRun (workingDirectory : Option CString) (memory : Bool)
    (directory : Option CString) (filename : CString) (rounds : ℕ) : Option Ending :=
  match joinedPath workingDirectory directory filename with
  | none => some .null
  | some text => if memory then (Cursors.start text).run rounds else some .null

def DfsNormalizePathEnds (workingDirectory : Option CString) (memory : Bool)
    (directory : Option CString) (filename : CString) (ending : Ending) : Prop :=
  ∃ rounds, dfsNormalizePathRun workingDirectory memory directory filename rounds = some ending

variable {workingDirectory : Option CString}

theorem dfsNormalizePathEnds_iff {directory : Option CString} {memory : Bool} {filename : CString}
    {ending : Ending} : DfsNormalizePathEnds workingDirectory memory directory filename ending ↔
      match joinedPath workingDirectory directory filename with
      | none => ending = .null
      | some text => if memory then (Cursors.start text).Ends ending else ending = .null := by
  unfold DfsNormalizePathEnds dfsNormalizePathRun
  split
  · simp [eq_comm]
  · cases memory
    · simp [eq_comm]
    · rfl

/-- The text of the model without a buffer is what the caller finds in the
returned string. -/
theorem dfsNormalizePath_eq_cString {directory : Option CString} {memory : Bool}
    {filename : CString} {fullpath : Buffer}
    (hends : DfsNormalizePathEnds workingDirectory memory directory filename (.returned fullpath)) :
    dfsNormalizePath workingDirectory memory directory filename = some fullpath.cString := by
  rw [dfsNormalizePathEnds_iff] at hends
  have hjoined : dfsNormalizePath workingDirectory memory directory filename =
      if memory then (joinedPath workingDirectory directory filename).bind normalizeText
      else none := by
    unfold dfsNormalizePath joinedPath
    split <;> cases memory <;> simp [*]
  rw [hjoined]
  split at hends
  · cases hends
  · rename_i text htext
    cases memory with
    | false => cases hends
    | true =>
      obtain ⟨ending, hending, hmatches⟩ := Cursors.gives_start text
      rw [if_pos rfl, htext, Option.bind_some, normalizeText_eq]
      obtain rfl := hends.unique hending
      cases hwritten : writtenText text with
      | none =>
        rw [hwritten] at hmatches
        cases hmatches
      | some written =>
        rw [hwritten] at hmatches
        cases written with
        | nil => cases hmatches
        | cons c written =>
          obtain ⟨other, hother, hcString⟩ := hmatches
          obtain rfl := Ending.returned.inj hother
          rw [hcString]
          rfl

/-- The dot components of a path below a directory. -/
theorem dfsNormalizePath_eq_cString_dots : ∃ fullpath,
    DfsNormalizePathEnds none true (some ['/', 'a']) ['b', '/', '.', '.', '/', 'c']
      (.returned fullpath) ∧
    dfsNormalizePath none true (some ['/', 'a']) ['b', '/', '.', '.', '/', 'c'] =
      some fullpath.cString := by
  have hends : ∃ fullpath, dfsNormalizePathRun none true (some ['/', 'a'])
      ['b', '/', '.', '.', '/', 'c'] 60 = some (.returned fullpath) := ⟨_, rfl⟩
  obtain ⟨fullpath, hrun⟩ := hends
  exact ⟨fullpath, ⟨60, hrun⟩, dfsNormalizePath_eq_cString ⟨60, hrun⟩⟩

end RtThread.Dfs
