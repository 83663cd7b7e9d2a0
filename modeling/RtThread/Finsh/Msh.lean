import Mathlib.Algebra.Order.Ring.Nat
import Mathlib.Data.List.TakeWhile

set_option linter.all false

/-!
# Splitting a command line

`msh_split` of `msh.c` turns the blanks of a command into zeros and returns where the arguments
begin.  The command is a list of bytes with its closing zero as the last one, a pointer into it
is a distance, and an access behind that zero has no result.
-/

namespace RtThread.Msh

def quote : UInt8 := 0x22
def backslash : UInt8 := 0x5c

/-- A space or a tab. -/
def Blank (ch : UInt8) : Prop :=
  ch = 0x20 ∨ ch = 0x09

instance (ch : UInt8) : Decidable (Blank ch) :=
  inferInstanceAs (Decidable (_ ∨ _))

/-- The local variables of `msh_split`; `argc` is the length of `argv`.  `printed` are the
arguments that its message about too many of them shows. -/
structure SplitState where
  cmd : List UInt8
  ptr : ℕ
  position : ℕ
  argv : List ℕ
  printed : List (List UInt8)

namespace SplitState

def advance (st : SplitState) (count : ℕ) : SplitState :=
  { st with ptr := st.ptr + count, position := st.position + count }

/-- `*ptr = '\0'`. -/
def clear (st : SplitState) : Option SplitState :=
  if st.ptr < st.cmd.length then some { st with cmd := st.cmd.set st.ptr 0 } else none

/-- `argv[argc] = ptr; argc ++`. -/
def pushArg (st : SplitState) : SplitState :=
  { st with argv := st.argv ++ [st.ptr] }

end SplitState

/-- The text from a pointer on, up to the next zero. -/
def readString (cmd : List UInt8) (start : ℕ) : Option (List UInt8) :=
  if 0 ∈ cmd.drop start then some ((cmd.drop start).takeWhile (· ≠ 0)) else none

def stripBlanks (length : ℕ) (st : SplitState) : Option SplitState := do
  let ch ← st.cmd[st.ptr]?
  if Blank ch ∧ st.position < length then
    stripBlanks length ({ st with cmd := st.cmd.set st.ptr 0 }.advance 1)
  else return st
termination_by length - st.position
decreasing_by
  simp only [SplitState.advance]
  omega

/-- The loop over a quoted text. -/
def skipString (length : ℕ) (st : SplitState) : Option SplitState := do
  let ch ← st.cmd[st.ptr]?
  if ch ≠ quote ∧ st.position < length then
    if ch = backslash then
      let next ← st.cmd[st.ptr + 1]?
      if next = quote then skipString length (st.advance 2) else skipString length (st.advance 1)
    else skipString length (st.advance 1)
  else return st
termination_by length - st.position
decreasing_by
  all_goals
    simp only [SplitState.advance]
    omega

def skipWord (length : ℕ) (st : SplitState) : Option SplitState := do
  let ch ← st.cmd[st.ptr]?
  if ¬ Blank ch ∧ st.position < length then skipWord length (st.advance 1) else return st
termination_by length - st.position
decreasing_by
  simp only [SplitState.advance]
  omega

/-- The loop, for a number of turns. -/
def splitLoop (finshArgMax length : ℕ) : ℕ → SplitState → Option SplitState
  | 0, _ => none
  | turns + 1, st =>
    if st.position < length then do
      let st ← stripBlanks length st
      if finshArgMax ≤ st.argv.length then
        let printed ← st.argv.mapM (readString st.cmd)
        return { st with printed }
      else if length ≤ st.position then return st
      else do
        let ch ← st.cmd[st.ptr]?
        if ch = quote then
          let st ← skipString length (st.advance 1).pushArg
          if length ≤ st.position then return st
          else do
            let st ← st.clear
            splitLoop finshArgMax length turns (st.advance 1)
        else
          let st ← skipWord length st.pushArg
          if length ≤ st.position then return st
          else splitLoop finshArgMax length turns st
    else some st

def mshSplit (finshArgMax : ℕ) (cmd : List UInt8) (length : ℕ) : Option SplitState :=
  splitLoop finshArgMax length (length + 1) ⟨cmd, 0, 0, [], []⟩

/-! ## Every command -/

/-- The two cursors are in step, and the closing zero is still there. -/
structure Inv (finshArgMax length : ℕ) (st : SplitState) : Prop where
  length_eq : st.cmd.length = length + 1
  closed : st.cmd[length]? = some 0
  step : st.position = st.ptr
  bound : st.ptr ≤ length
  argc : st.argv.length ≤ finshArgMax
  argv : ∀ start ∈ st.argv, start ≤ length

variable {finshArgMax length : ℕ} {st : SplitState}

theorem Inv.exists_read (hinv : Inv finshArgMax length st) (place : ℕ) (hplace : place ≤ length) :
    ∃ ch, st.cmd[place]? = some ch := by
  have hlength := hinv.length_eq
  exact ⟨_, List.getElem?_eq_getElem (by omega)⟩

variable {ch : UInt8}

theorem Inv.lt_of_read (hinv : Inv finshArgMax length st) {place : ℕ} (hplace : place ≤ length)
    (hread : st.cmd[place]? = some ch) (hch : ch ≠ 0) : place < length := by
  refine lt_of_le_of_ne hplace fun hlast => hch ?_
  rw [hlast, hinv.closed] at hread
  exact (Option.some.inj hread).symm

theorem Inv.advance (hinv : Inv finshArgMax length st) (count : ℕ)
    (hcount : st.ptr + count ≤ length) : Inv finshArgMax length (st.advance count) where
  length_eq := hinv.length_eq
  closed := hinv.closed
  step := congrArg (· + count) hinv.step
  bound := hcount
  argc := hinv.argc
  argv := hinv.argv

theorem Inv.set (hinv : Inv finshArgMax length st) (hlt : st.ptr < length) :
    Inv finshArgMax length { st with cmd := st.cmd.set st.ptr 0 } where
  length_eq := by rw [List.length_set, hinv.length_eq]
  closed := by rw [List.getElem?_set_ne (by omega), hinv.closed]
  step := hinv.step
  bound := hinv.bound
  argc := hinv.argc
  argv := hinv.argv

theorem Inv.pushArg (hinv : Inv finshArgMax length st) (hroom : st.argv.length < finshArgMax) :
    Inv finshArgMax length st.pushArg where
  length_eq := hinv.length_eq
  closed := hinv.closed
  step := hinv.step
  bound := hinv.bound
  argc := by
    rw [SplitState.pushArg, List.length_append]
    exact hroom
  argv := by
    intro start hstart
    rcases List.mem_append.1 hstart with hold | hnew
    · exact hinv.argv start hold
    · exact (List.mem_singleton.1 hnew).trans_le hinv.bound

theorem stripBlanks_eq (hread : st.cmd[st.ptr]? = some ch) :
    stripBlanks length st = if Blank ch ∧ st.position < length then
      stripBlanks length ({ st with cmd := st.cmd.set st.ptr 0 }.advance 1) else some st := by
  rw [stripBlanks, hread]
  rfl

theorem skipWord_eq (hread : st.cmd[st.ptr]? = some ch) :
    skipWord length st = if ¬ Blank ch ∧ st.position < length then
      skipWord length (st.advance 1) else some st := by
  rw [skipWord, hread]
  rfl

theorem skipString_stop (hread : st.cmd[st.ptr]? = some ch)
    (hstop : ch = quote ∨ length ≤ st.position) : skipString length st = some st := by
  rw [skipString, hread]
  exact if_neg fun hmore => hstop.elim hmore.1 (Nat.not_le.2 hmore.2)

theorem skipString_plain (hread : st.cmd[st.ptr]? = some ch) (hquote : ch ≠ quote)
    (hplain : ch ≠ backslash) (hlt : st.position < length) :
    skipString length st = skipString length (st.advance 1) := by
  rw [skipString, hread]
  exact (if_pos ⟨hquote, hlt⟩).trans (if_neg hplain)

theorem skipString_escape {next : UInt8} (hread : st.cmd[st.ptr]? = some backslash)
    (hnext : st.cmd[st.ptr + 1]? = some next) (hlt : st.position < length) :
    skipString length st = if next = quote then skipString length (st.advance 2)
      else skipString length (st.advance 1) := by
  rw [skipString, hread]
  refine (if_pos ⟨by decide, hlt⟩).trans ((if_pos rfl).trans ?_)
  rw [hnext]
  rfl

theorem Inv.exists_strip (hinv : Inv finshArgMax length st) :
    ∃ next, stripBlanks length st = some next ∧ Inv finshArgMax length next ∧
      st.ptr ≤ next.ptr ∧ next.argv = st.argv ∧
      (next.ptr < length → ∃ ch, next.cmd[next.ptr]? = some ch ∧ ¬ Blank ch) := by
  induction hleft : length - st.ptr generalizing st with
  | zero =>
    have hstep := hinv.step
    obtain ⟨ch, hread⟩ := hinv.exists_read st.ptr hinv.bound
    refine ⟨st, ?_, hinv, le_rfl, rfl, by omega⟩
    rw [stripBlanks_eq hread, if_neg (by omega)]
  | succ left ih =>
    have hstep := hinv.step
    obtain ⟨ch, hread⟩ := hinv.exists_read st.ptr hinv.bound
    rw [stripBlanks_eq hread]
    by_cases hblank : Blank ch
    · have hnext := (hinv.set (by omega)).advance 1 (by dsimp only; omega)
      obtain ⟨next, hstrip, hinv', hle, hargv, hstop⟩ :=
        ih hnext (by dsimp only [SplitState.advance]; omega)
      dsimp only [SplitState.advance] at hle
      refine ⟨next, ?_, hinv', by omega, hargv, hstop⟩
      rw [if_pos ⟨hblank, by omega⟩, hstrip]
    · refine ⟨st, if_neg fun hmore => hblank hmore.1, hinv, le_rfl, rfl, fun _ => ?_⟩
      exact ⟨ch, hread, hblank⟩

theorem Inv.exists_skipWord (hinv : Inv finshArgMax length st) :
    ∃ next, skipWord length st = some next ∧ Inv finshArgMax length next ∧ st.ptr ≤ next.ptr ∧
      (∀ ch, st.cmd[st.ptr]? = some ch → ¬ Blank ch → st.ptr < length → st.ptr < next.ptr) := by
  induction hleft : length - st.ptr generalizing st with
  | zero =>
    have hstep := hinv.step
    obtain ⟨ch, hread⟩ := hinv.exists_read st.ptr hinv.bound
    refine ⟨st, ?_, hinv, le_rfl, fun _ _ _ hlt => by omega⟩
    rw [skipWord_eq hread, if_neg (by omega)]
  | succ left ih =>
    have hstep := hinv.step
    obtain ⟨ch, hread⟩ := hinv.exists_read st.ptr hinv.bound
    rw [skipWord_eq hread]
    by_cases hblank : Blank ch
    · refine ⟨st, if_neg fun hmore => hmore.1 hblank, hinv, le_rfl, fun other hother hnot => ?_⟩
      rw [hread] at hother
      exact absurd (Option.some.inj hother ▸ hblank) hnot
    · obtain ⟨next, hskip, hinv', hle, -⟩ :=
        ih (hinv.advance 1 (by omega)) (by dsimp only [SplitState.advance]; omega)
      dsimp only [SplitState.advance] at hle
      refine ⟨next, ?_, hinv', by omega, fun _ _ _ _ => by omega⟩
      rw [if_pos ⟨hblank, by omega⟩, hskip]

/-- An escaped quote moves both cursors by two, which stays in front of the closing zero. -/
theorem Inv.exists_skipString (hinv : Inv finshArgMax length st) :
    ∃ next, skipString length st = some next ∧ Inv finshArgMax length next ∧
      st.ptr ≤ next.ptr := by
  induction hleft : length - st.ptr using Nat.strong_induction_on generalizing st with
  | _ left ih =>
    have hstep := hinv.step
    obtain ⟨ch, hread⟩ := hinv.exists_read st.ptr hinv.bound
    by_cases hstop : ch = quote ∨ length ≤ st.position
    · exact ⟨st, skipString_stop hread hstop, hinv, le_rfl⟩
    · obtain ⟨hquote, hmore⟩ := not_or.1 hstop
      have hone : ∃ next, skipString length (st.advance 1) = some next ∧
          Inv finshArgMax length next ∧ st.ptr ≤ next.ptr := by
        obtain ⟨next, hskip, hinv', hle⟩ := ih (length - (st.ptr + 1)) (by omega)
          (hinv.advance 1 (by omega)) rfl
        exact ⟨next, hskip, hinv', Nat.le_of_succ_le hle⟩
      by_cases hplain : ch = backslash
      · subst hplain
        obtain ⟨next, hnext⟩ := hinv.exists_read (st.ptr + 1) (by omega)
        rw [skipString_escape hread hnext (by omega)]
        split_ifs with hescaped
        · have hlt := hinv.lt_of_read (by omega) hnext (hescaped ▸ by decide)
          obtain ⟨last, hskip, hinv', hle⟩ := ih (length - (st.ptr + 2)) (by omega)
            (hinv.advance 2 (by omega)) rfl
          exact ⟨last, hskip, hinv', Nat.le_of_succ_le (Nat.le_of_succ_le hle)⟩
        · exact hone
      · rw [skipString_plain hread hquote hplain (by omega)]
        exact hone

theorem Inv.exists_printed (hinv : Inv finshArgMax length st) :
    ∃ printed, st.argv.mapM (readString st.cmd) = some printed := by
  have hread : ∀ start ∈ st.argv, ∃ text, readString st.cmd start = some text := by
    intro start hstart
    have hle := hinv.argv start hstart
    have hzero : 0 ∈ st.cmd.drop start := by
      refine List.mem_of_getElem? (i := length - start) ?_
      rw [List.getElem?_drop, Nat.add_sub_cancel' hle, hinv.closed]
    exact ⟨_, if_pos hzero⟩
  generalize st.argv = argv at hread
  induction argv with
  | nil => exact ⟨[], rfl⟩
  | cons start argv ih =>
    obtain ⟨text, htext⟩ := hread start List.mem_cons_self
    obtain ⟨printed, hprinted⟩ :=
      ih fun other hother => hread other (List.mem_cons_of_mem _ hother)
    refine ⟨text :: printed, ?_⟩
    rw [List.mapM_cons, htext, hprinted]
    rfl

theorem Inv.exists_splitLoop (hinv : Inv finshArgMax length st) {turns : ℕ}
    (hturns : length - st.ptr < turns) :
    ∃ last, splitLoop finshArgMax length turns st = some last ∧
      last.argv.length ≤ finshArgMax := by
  induction turns generalizing st with
  | zero => omega
  | succ turns ih =>
    rw [splitLoop]
    split_ifs with hmore
    · obtain ⟨st', hstrip, hinv', hle, hargv, hstop⟩ := hinv.exists_strip
      have hstep := hinv'.step
      rw [hstrip]
      change ∃ last, ite _ _ _ = some last ∧ _
      split_ifs with hfull hend
      · obtain ⟨printed, hprinted⟩ := hinv'.exists_printed
        rw [hprinted]
        exact ⟨_, rfl, hinv'.argc⟩
      · exact ⟨_, rfl, hinv'.argc⟩
      · obtain ⟨ch, hread, hblank⟩ := hstop (by omega)
        rw [hread]
        change ∃ last, ite _ _ _ = some last ∧ _
        split_ifs with hquote
        · subst hquote
          have hlt := hinv'.lt_of_read hinv'.bound hread (by decide)
          obtain ⟨st₁, hskip, hinv₁, hle₁⟩ :=
            ((hinv'.advance 1 hlt).pushArg (Nat.lt_of_not_le hfull)).exists_skipString
          have hstep₁ := hinv₁.step
          have hle₁ : st'.ptr + 1 ≤ st₁.ptr := hle₁
          rw [hskip]
          change ∃ last, ite _ _ _ = some last ∧ _
          split_ifs with hend₁
          · exact ⟨st₁, rfl, hinv₁.argc⟩
          · have hlength := hinv₁.length_eq
            have hclear : st₁.clear = some { st₁ with cmd := st₁.cmd.set st₁.ptr 0 } :=
              if_pos (by omega)
            rw [hclear]
            refine ih ((hinv₁.set (by omega)).advance 1 (by dsimp only; omega)) ?_
            dsimp only [SplitState.advance]
            omega
        · obtain ⟨st₁, hskip, hinv₁, hle₁, hlt⟩ :=
            (hinv'.pushArg (Nat.lt_of_not_le hfull)).exists_skipWord
          have hinside : st'.pushArg.ptr < length := Nat.lt_of_not_le (hstep ▸ hend)
          have hlt : st'.ptr < st₁.ptr := hlt ch hread hblank hinside
          rw [hskip]
          change ∃ last, ite _ _ _ = some last ∧ _
          split_ifs with hend₁
          · exact ⟨st₁, rfl, hinv₁.argc⟩
          · exact ih hinv₁ (by omega)
    · exact ⟨st, rfl, hinv.argc⟩

/-! ## Joined words -/

inductive Word
  | plain (text : List UInt8)
  | quoted (text : List UInt8)

namespace Word

def text : Word → List UInt8
  | plain text => text
  | quoted text => text

/-- As it stands in the command. -/
def shown : Word → List UInt8
  | plain text => text
  | quoted text => quote :: text ++ [quote]

/-- No text of a command has a zero in it. -/
def WellFormed : Word → Prop
  | plain text => text ≠ [] ∧ text.head? ≠ some quote ∧ ∀ ch ∈ text, ch ≠ 0 ∧ ¬ Blank ch
  | quoted text => ∀ ch ∈ text, ch ≠ 0 ∧ ch ≠ quote ∧ ch ≠ backslash

end Word

/-- Words with the blanks in front of them, and the blanks behind the last one. -/
def joined : List (List UInt8 × Word) → List UInt8 → List UInt8
  | [], trailing => trailing
  | (gap, word) :: words, trailing => gap ++ (word.shown ++ joined words trailing)

/-- The text that an argument will read as once a zero follows `done`. -/
def textAt (done : List UInt8) (start : ℕ) : List UInt8 :=
  (done.drop start).takeWhile (· ≠ 0)

variable {done : List UInt8}

theorem readString_append_zero {start : ℕ} (hstart : start ≤ done.length) (more : List UInt8) :
    readString (done ++ 0 :: more) start = some (textAt done start) := by
  have hdrop : (done ++ 0 :: more).drop start = done.drop start ++ 0 :: more :=
    List.drop_append_of_le_length hstart
  rw [readString, hdrop, if_pos (by simp), textAt]
  congr 1
  induction done.drop start with
  | nil => simp
  | cons ch text ih =>
    rw [List.cons_append, List.takeWhile_cons, List.takeWhile_cons, ih]

theorem textAt_append_zero {start : ℕ} (hstart : start ≤ done.length) (more : List UInt8) :
    textAt (done ++ 0 :: more) start = textAt done start := by
  have hread := readString_append_zero hstart more
  rw [readString] at hread
  split_ifs at hread with hzero
  exact Option.some.inj hread

theorem textAt_length {text : List UInt8} (htext : ∀ ch ∈ text, ch ≠ 0) :
    textAt (done ++ text) done.length = text := by
  rw [textAt, List.drop_left, List.takeWhile_eq_self_iff]
  simpa using htext

/-- `done` is behind the cursors, `rest` in front of them. -/
def cursor (done rest : List UInt8) (argv : List ℕ) : SplitState :=
  ⟨done ++ rest, done.length, done.length, argv, []⟩

section Cursor

variable {done rest : List UInt8} {argv : List ℕ} {ch : UInt8}

theorem cursor_read : (cursor done (ch :: rest) argv).cmd[(cursor done (ch :: rest) argv).ptr]? =
    some ch := by
  simp [cursor]

theorem cursor_advance :
    (cursor done (ch :: rest) argv).advance 1 = cursor (done ++ [ch]) rest argv := by
  simp [cursor, SplitState.advance]

theorem cursor_clear :
    (cursor done (ch :: rest) argv).clear = some (cursor done (0 :: rest) argv) := by
  simp [cursor, SplitState.clear]

theorem stripBlanks_cursor {gap : List UInt8} (hgap : ∀ blank ∈ gap, Blank blank)
    (hch : ¬ Blank ch) (hlength : done.length + gap.length ≤ length) :
    stripBlanks length (cursor done (gap ++ ch :: rest) argv) =
      some (cursor (done ++ List.replicate gap.length 0) (ch :: rest) argv) := by
  induction gap generalizing done with
  | nil =>
    rw [List.nil_append, stripBlanks_eq cursor_read, if_neg fun hmore => hch hmore.1]
    simp
  | cons blank gap ih =>
    rw [List.length_cons] at hlength
    have hblank := hgap blank List.mem_cons_self
    have hclear : ({ cursor done (blank :: (gap ++ ch :: rest)) argv with
        cmd := (cursor done (blank :: (gap ++ ch :: rest)) argv).cmd.set done.length 0 } :
          SplitState) = cursor done (0 :: (gap ++ ch :: rest)) argv := by
      simp [cursor]
    have hmore : done.length < length := by omega
    have hlength' : (done ++ [0]).length + gap.length ≤ length := by
      rw [List.length_append, List.length_singleton]
      omega
    rw [List.cons_append, stripBlanks_eq cursor_read, if_pos ⟨hblank, hmore⟩]
    refine (congrArg (fun st => stripBlanks length (st.advance 1)) hclear).trans ?_
    rw [cursor_advance, ih (fun other hother => hgap other (List.mem_cons_of_mem _ hother))
      hlength']
    simp [List.replicate_succ]

theorem skipWord_cursor {text : List UInt8} (htext : ∀ ch ∈ text, ¬ Blank ch)
    (hlength : done.length + text.length ≤ length)
    (hstop : Blank ch ∨ length = done.length + text.length) :
    skipWord length (cursor done (text ++ ch :: rest) argv) =
      some (cursor (done ++ text) (ch :: rest) argv) := by
  induction text generalizing done with
  | nil =>
    rw [List.nil_append, List.append_nil, skipWord_eq cursor_read, if_neg]
    rintro ⟨hch, hlt⟩
    rcases hstop with hblank | hend
    · exact hch hblank
    · exact absurd hlt (by rw [hend]; simp [cursor])
  | cons first text ih =>
    rw [List.length_cons] at hlength hstop
    rw [List.cons_append, skipWord_eq cursor_read, if_pos, cursor_advance,
      ih (fun other hother => htext other (List.mem_cons_of_mem _ hother))]
    · rw [List.append_assoc, List.singleton_append]
    · rw [List.length_append, List.length_singleton]
      omega
    · rw [List.length_append, List.length_singleton]
      exact hstop.imp_right fun hend => by omega
    · refine ⟨htext first List.mem_cons_self, ?_⟩
      change done.length < length
      omega

theorem skipString_cursor {text : List UInt8} (htext : ∀ ch ∈ text, ch ≠ quote ∧ ch ≠ backslash)
    (hlength : done.length + text.length ≤ length) :
    skipString length (cursor done (text ++ quote :: rest) argv) =
      some (cursor (done ++ text) (quote :: rest) argv) := by
  induction text generalizing done with
  | nil => rw [List.nil_append, List.append_nil, skipString_stop cursor_read (Or.inl rfl)]
  | cons first text ih =>
    rw [List.length_cons] at hlength
    obtain ⟨hquote, hplain⟩ := htext first List.mem_cons_self
    rw [List.cons_append, skipString_plain cursor_read hquote hplain, cursor_advance,
      ih (fun other hother => htext other (List.mem_cons_of_mem _ hother))]
    · rw [List.append_assoc, List.singleton_append]
    · rw [List.length_append, List.length_singleton]
      omega
    · change done.length < length
      omega

end Cursor

/-- What `msh_split` has made of a word when it is behind it. -/
def Word.passed : Word → List UInt8
  | plain text => text
  | quoted text => quote :: text ++ [0]

/-- The distance of the text from the blanks in front of it. -/
def Word.skew : Word → ℕ
  | plain _ => 0
  | quoted _ => 1

theorem Word.WellFormed.exists_shown {word : Word} (hword : word.WellFormed) :
    ∃ ch more, word.shown = ch :: more ∧ ¬ Blank ch ∧ (ch = quote ↔ word.skew = 1) := by
  cases word with
  | quoted text => exact ⟨quote, text ++ [quote], rfl, by decide, by simp [Word.skew]⟩
  | plain text =>
    obtain ⟨hne, hhead, htext⟩ := hword
    obtain ⟨ch, more, rfl⟩ := List.exists_cons_of_ne_nil hne
    refine ⟨ch, more, rfl, (htext ch List.mem_cons_self).2, ?_⟩
    have hquote : ch ≠ quote := fun heq => hhead (congrArg some heq)
    simp [Word.skew, hquote]

theorem Word.length_passed (word : Word) : word.passed.length = word.shown.length := by
  cases word <;> simp [Word.passed, Word.shown]

section Turn

variable {st' last : SplitState} {ch : UInt8} {turns : ℕ}

theorem splitLoop_done (hdone : length ≤ st.position) (turns : ℕ) :
    splitLoop finshArgMax length (turns + 1) st = some st := by
  rw [splitLoop, if_neg (Nat.not_lt.2 hdone)]

/-- Behind a word the loop goes on, also where the word ends the command. -/
theorem splitLoop_continue (turns : ℕ) (st : SplitState) :
    (if length ≤ st.position then some st else splitLoop finshArgMax length (turns + 1) st) =
      splitLoop finshArgMax length (turns + 1) st := by
  split_ifs with hdone
  · rw [splitLoop_done hdone]
  · rfl

theorem splitLoop_plain (hmore : st.position < length) (hstrip : stripBlanks length st = some st')
    (hroom : st'.argv.length < finshArgMax) (hinside : st'.position < length)
    (hread : st'.cmd[st'.ptr]? = some ch) (hplain : ch ≠ quote)
    (hskip : skipWord length st'.pushArg = some last) :
    splitLoop finshArgMax length (turns + 2) st =
      splitLoop finshArgMax length (turns + 1) last := by
  rw [splitLoop, if_pos hmore, hstrip]
  refine (if_neg (Nat.not_le.2 hroom)).trans ((if_neg (Nat.not_le.2 hinside)).trans ?_)
  rw [hread]
  refine (if_neg hplain).trans ?_
  rw [hskip]
  exact splitLoop_continue turns last

theorem splitLoop_quoted {cleared : SplitState} (hmore : st.position < length)
    (hstrip : stripBlanks length st = some st') (hroom : st'.argv.length < finshArgMax)
    (hinside : st'.position < length) (hread : st'.cmd[st'.ptr]? = some ch) (hquote : ch = quote)
    (hskip : skipString length (st'.advance 1).pushArg = some last)
    (hlast : last.position < length) (hclear : last.clear = some cleared) :
    splitLoop finshArgMax length (turns + 1) st =
      splitLoop finshArgMax length turns (cleared.advance 1) := by
  rw [splitLoop, if_pos hmore, hstrip]
  refine (if_neg (Nat.not_le.2 hroom)).trans ((if_neg (Nat.not_le.2 hinside)).trans ?_)
  rw [hread]
  refine (if_pos hquote).trans ?_
  rw [hskip]
  refine (if_neg (Nat.not_le.2 hlast)).trans ?_
  rw [hclear]
  rfl

end Turn

variable {done : List UInt8} {argv : List ℕ}

/-- One turn passes the blanks and the word behind them. -/
theorem splitLoop_word {gap rest : List UInt8} {word : Word} {ch : UInt8}
    (hroom : argv.length < finshArgMax) (hgap : ∀ blank ∈ gap, Blank blank)
    (hword : word.WellFormed)
    (hlength : done.length + gap.length + word.shown.length + rest.length = length)
    (hrest : rest = [] ∨ Blank ch) (turns : ℕ) : splitLoop finshArgMax length (turns + 2)
        (cursor done (gap ++ (word.shown ++ ch :: rest)) argv) =
      splitLoop finshArgMax length (turns + 1)
        (cursor (done ++ List.replicate gap.length 0 ++ word.passed) (ch :: rest)
          (argv ++ [done.length + gap.length + word.skew])) := by
  obtain ⟨first, more, hshown, hblank, hfirst⟩ := hword.exists_shown
  have hinside : 0 < word.shown.length := by
    rw [hshown]
    exact Nat.succ_pos _
  have hzeros : (done ++ List.replicate gap.length (0 : UInt8)).length =
      done.length + gap.length := by
    rw [List.length_append, List.length_replicate]
  have hmore : done.length < length := by omega
  have hbefore : (done ++ List.replicate gap.length (0 : UInt8)).length < length := by omega
  have hstrip : stripBlanks length (cursor done (gap ++ (word.shown ++ ch :: rest)) argv) =
      some (cursor (done ++ List.replicate gap.length 0) (first :: (more ++ ch :: rest)) argv) := by
    rw [hshown]
    exact stripBlanks_cursor hgap hblank (by omega)
  cases word with
  | plain text =>
    have hpush : (cursor (done ++ List.replicate gap.length 0) (first :: (more ++ ch :: rest))
        argv).pushArg = cursor (done ++ List.replicate gap.length 0) (text ++ ch :: rest)
          (argv ++ [done.length + gap.length]) := by
      rw [← List.cons_append, ← hshown]
      simp [cursor, SplitState.pushArg, Word.shown]
    have hfits : (done ++ List.replicate gap.length (0 : UInt8)).length + text.length ≤
        length := by
      rw [hzeros, ← hlength]
      exact Nat.le_add_right _ _
    have hstop : Blank ch ∨
        length = (done ++ List.replicate gap.length (0 : UInt8)).length + text.length := by
      refine hrest.symm.imp_right fun hnil => ?_
      rw [hzeros, ← hlength, hnil]
      rfl
    have hskip : skipWord length (cursor _ (text ++ ch :: rest)
        (argv ++ [done.length + gap.length])) = _ :=
      skipWord_cursor (fun ch hch => (hword.2.2 ch hch).2) hfits hstop
    exact splitLoop_plain hmore hstrip hroom hbefore cursor_read
      (fun heq => Nat.zero_ne_one (hfirst.1 heq)) (hpush ▸ hskip)
  | quoted text =>
    obtain ⟨rfl, rfl⟩ : quote = first ∧ text ++ [quote] = more := by
      simpa [Word.shown] using hshown
    have hpush : ((cursor (done ++ List.replicate gap.length 0)
        (quote :: (text ++ [quote] ++ ch :: rest)) argv).advance 1).pushArg =
        cursor (done ++ List.replicate gap.length 0 ++ [quote]) (text ++ quote :: ch :: rest)
          (argv ++ [done.length + gap.length + 1]) := by
      rw [cursor_advance]
      simp [cursor, SplitState.pushArg, Nat.add_assoc]
    have hshort : done.length + gap.length + (text.length + 2) + rest.length = length := by
      simpa [Word.shown] using hlength
    have hlast : (done ++ List.replicate gap.length (0 : UInt8) ++ [quote] ++ text).length <
        length := by
      rw [List.length_append, List.length_append, hzeros, List.length_singleton]
      omega
    have hskip : skipString length (cursor (done ++ List.replicate gap.length 0 ++ [quote])
        (text ++ quote :: ch :: rest) (argv ++ [done.length + gap.length + 1])) = _ :=
      skipString_cursor (fun ch hch => (hword ch hch).2) (List.length_append ▸ hlast).le
    rw [splitLoop_quoted hmore hstrip hroom hbefore cursor_read rfl (hpush ▸ hskip) hlast
      cursor_clear, cursor_advance]
    simp [Word.passed, Word.skew]

/-- What the arguments read as once a zero follows. -/
structure Reads (done : List UInt8) (argv : List ℕ) (texts : List (List UInt8)) : Prop where
  bound : ∀ start ∈ argv, start ≤ done.length
  texts_eq : argv.map (textAt done) = texts

variable {texts : List (List UInt8)}

/-- A zero behind the passed text shows the arguments. -/
theorem Reads.readString (hreads : Reads done argv texts) (more : List UInt8) :
    argv.map (Msh.readString (done ++ 0 :: more)) = texts.map some := by
  rw [← hreads.texts_eq, List.map_map]
  exact List.map_congr_left fun start hstart =>
    readString_append_zero (hreads.bound start hstart) more

/-- The zeros written over the blanks end the word in front of them. -/
theorem Reads.strip {count : ℕ} (hreads : Reads done argv texts) (hcount : argv = [] ∨ count ≠ 0)
    (more : List UInt8) : Reads (done ++ List.replicate count 0 ++ more) argv texts := by
  refine ⟨fun start hstart => ?_, ?_⟩
  · have hbound := hreads.bound start hstart
    rw [List.length_append, List.length_append]
    omega
  · rcases hcount with rfl | hcount
    · exact hreads.texts_eq
    · obtain ⟨count, rfl⟩ := Nat.exists_eq_succ_of_ne_zero hcount
      rw [← hreads.texts_eq]
      refine List.map_congr_left fun start hstart => ?_
      rw [List.append_assoc, List.replicate_succ, List.cons_append]
      exact textAt_append_zero (hreads.bound start hstart) _

theorem Word.WellFormed.textAt_passed {word : Word} (hword : word.WellFormed)
    (done : List UInt8) : textAt (done ++ word.passed) (done.length + word.skew) = word.text := by
  cases word with
  | plain text => exact textAt_length fun ch hch => (hword.2.2 ch hch).1
  | quoted text =>
    have hsplit : done ++ (quote :: text ++ [0]) = done ++ [quote] ++ text ++ 0 :: [] := by simp
    have hlength : done.length + 1 = (done ++ [quote]).length := by
      rw [List.length_append, List.length_singleton]
    change textAt (done ++ (quote :: text ++ [0])) (done.length + 1) = text
    rw [hsplit, hlength, textAt_append_zero (by simp)]
    exact textAt_length fun ch hch => (hword ch hch).1

theorem Reads.word {gap : List UInt8} {word : Word} (hreads : Reads done argv texts)
    (hgap : argv = [] ∨ gap.length ≠ 0) (hword : word.WellFormed) :
    Reads (done ++ List.replicate gap.length 0 ++ word.passed)
      (argv ++ [done.length + gap.length + word.skew]) (texts ++ [word.text]) := by
  have hold := hreads.strip hgap word.passed
  have hzeros : (done ++ List.replicate gap.length (0 : UInt8)).length =
      done.length + gap.length := by
    rw [List.length_append, List.length_replicate]
  refine ⟨fun start hstart => ?_, ?_⟩
  · rcases List.mem_append.1 hstart with hstart | hstart
    · exact hold.bound start hstart
    · rw [List.mem_singleton.1 hstart, List.length_append, hzeros]
      cases word <;> simp [Word.passed, Word.skew]
  · rw [List.map_append, hold.texts_eq, List.map_singleton, ← hzeros, hword.textAt_passed]

variable {trailing : List UInt8}

theorem splitLoop_trailing (hreads : Reads done argv texts)
    (htrailing : ∀ blank ∈ trailing, Blank blank) (hargc : argv.length ≤ finshArgMax)
    (hlength : done.length + trailing.length = length) (turns : ℕ) :
    ∃ last, splitLoop finshArgMax length (turns + 1) (cursor done (trailing ++ [0]) argv) =
        some last ∧ last.argv = argv ∧ argv.map (readString last.cmd) = texts.map some := by
  by_cases hnone : length ≤ done.length
  · have htrailing : trailing = [] := List.eq_nil_of_length_eq_zero (by omega)
    subst htrailing
    exact ⟨_, splitLoop_done hnone turns, rfl, hreads.readString []⟩
  · have hstripped := hreads.strip (Or.inr (show trailing.length ≠ 0 by omega)) []
    have hread := hstripped.readString []
    rw [List.append_nil] at hstripped hread
    have hzeros : (done ++ List.replicate trailing.length (0 : UInt8)).length = length := by
      rw [List.length_append, List.length_replicate, hlength]
    have hinv : Inv finshArgMax length
        (cursor (done ++ List.replicate trailing.length 0) [0] argv) := by
      refine ⟨?_, ?_, rfl, hzeros.le, hargc, fun start hstart => ?_⟩
      · exact List.length_append.trans (congrArg (· + 1) hzeros)
      · change (done ++ List.replicate trailing.length 0 ++ [0])[length]? = _
        rw [← hzeros, List.getElem?_concat_length]
      · exact hzeros ▸ hstripped.bound start hstart
    obtain ⟨printed, hprinted⟩ := hinv.exists_printed
    have hmore : (cursor done (trailing ++ [0]) argv).position < length := Nat.lt_of_not_le hnone
    rw [splitLoop, if_pos hmore,
      stripBlanks_cursor htrailing (show ¬ Blank 0 by decide) hlength.le]
    change ∃ last, ite _ _ _ = some last ∧ _
    split_ifs with hfull hend
    · rw [hprinted]
      exact ⟨_, rfl, rfl, hread⟩
    · exact ⟨_, rfl, rfl, hread⟩
    · exact absurd hzeros.ge hend

theorem splitLoop_words {words : List (List UInt8 × Word)} (hreads : Reads done argv texts)
    (hwords : ∀ item ∈ words, (∀ blank ∈ item.1, Blank blank) ∧ item.2.WellFormed)
    (hfirst : argv = [] ∨ ∀ item ∈ words, item.1 ≠ []) (hgaps : ∀ item ∈ words.tail, item.1 ≠ [])
    (htrailing : ∀ blank ∈ trailing, Blank blank) (hargc : argv.length + words.length ≤ finshArgMax)
    (hlength : done.length + (joined words trailing).length = length) (turns : ℕ) :
    ∃ last, splitLoop finshArgMax length (turns + words.length + 1)
        (cursor done (joined words trailing ++ [0]) argv) = some last ∧
      last.argv.map (readString last.cmd) =
        (texts ++ words.map fun item => item.2.text).map some := by
  induction words generalizing done argv texts with
  | nil =>
    obtain ⟨last, hloop, hargv, hread⟩ :=
      splitLoop_trailing hreads htrailing hargc hlength turns
    refine ⟨last, hloop, ?_⟩
    rw [hargv, hread, List.map_nil, List.append_nil]
  | cons item words ih =>
    obtain ⟨gap, word⟩ := item
    obtain ⟨hgap, hword⟩ := hwords (gap, word) List.mem_cons_self
    rw [List.length_cons] at hargc
    have hempty : argv = [] ∨ gap.length ≠ 0 := hfirst.imp_right fun hall =>
      List.length_pos_iff.2 (hall (gap, word) List.mem_cons_self) |>.ne'
    obtain ⟨ch, rest, hrest, hstop⟩ : ∃ ch rest, joined words trailing ++ [0] = ch :: rest ∧
        (rest = [] ∨ Blank ch) := by
      cases words with
      | nil =>
        cases trailing with
        | nil => exact ⟨0, [], rfl, Or.inl rfl⟩
        | cons blank trailing =>
          exact ⟨blank, trailing ++ [0], rfl, Or.inr (htrailing blank List.mem_cons_self)⟩
      | cons next words =>
        obtain ⟨blank, gap', hnext⟩ :=
          List.exists_cons_of_ne_nil (hgaps next List.mem_cons_self)
        refine ⟨blank, gap' ++ (next.2.shown ++ joined words trailing) ++ [0], ?_, Or.inr ?_⟩
        · rw [joined, hnext]
          rfl
        · refine (hwords next (List.mem_cons_of_mem _ List.mem_cons_self)).1 blank ?_
          rw [hnext]
          exact List.mem_cons_self
    have hcount : rest.length = (joined words trailing).length := by
      have hboth := congrArg List.length hrest
      rw [List.length_append, List.length_cons] at hboth
      exact (Nat.succ.inj hboth).symm
    have htotal : done.length + gap.length + word.shown.length +
        (joined words trailing).length = length := by
      rw [← hlength, joined, List.length_append, List.length_append]
      omega
    have hroom : argv.length < finshArgMax := by omega
    have hturn := splitLoop_word hroom hgap hword (hcount ▸ htotal) hstop (turns + words.length)
    obtain ⟨last, hloop, hread⟩ := ih (hreads.word hempty hword)
      (fun item hitem => hwords item (List.mem_cons_of_mem _ hitem)) (Or.inr hgaps)
      (fun item hitem => hgaps item (List.mem_of_mem_tail hitem))
      (by rw [List.length_append, List.length_singleton]; omega)
      (by
        rw [List.length_append, List.length_append, List.length_replicate, word.length_passed,
          htotal])
    refine ⟨last, ?_, ?_⟩
    · rw [joined, List.append_assoc, List.append_assoc, hrest, List.length_cons]
      rw [← hrest] at hturn
      rw [← hloop, ← hturn, hrest]
      rfl
    · rw [hread, List.append_assoc]
      rfl

theorem length_le_length_joined {words : List (List UInt8 × Word)}
    (hwords : ∀ item ∈ words, (∀ blank ∈ item.1, Blank blank) ∧ item.2.WellFormed) :
    words.length ≤ (joined words trailing).length := by
  induction words with
  | nil => exact Nat.zero_le _
  | cons item words ih =>
    have hrest := ih fun other hother => hwords other (List.mem_cons_of_mem _ hother)
    obtain ⟨first, more, hshown, -⟩ := (hwords item List.mem_cons_self).2.exists_shown
    rw [joined, hshown, List.length_append, List.length_append, List.length_cons,
      List.length_cons]
    omega

/-- Words joined by blanks come back as the arguments, and every command is read within its
closing zero and gives no more arguments than the table holds. -/
theorem mshSplit_words (finshArgMax : ℕ) :
    (∀ (words : List (List UInt8 × Word)) (trailing : List UInt8),
      words ≠ [] → words.length ≤ finshArgMax →
      (∀ item ∈ words, (∀ blank ∈ item.1, Blank blank) ∧ item.2.WellFormed) →
      (∀ item ∈ words.tail, item.1 ≠ []) → (∀ blank ∈ trailing, Blank blank) →
      ∃ last, mshSplit finshArgMax (joined words trailing ++ [0]) (joined words trailing).length =
          some last ∧ last.argv.length = words.length ∧
        last.argv.map (readString last.cmd) = words.map fun item => some item.2.text) ∧
    ∀ (cmd : List UInt8) (length : ℕ), cmd.length = length + 1 → cmd[length]? = some 0 →
      ∃ last, mshSplit finshArgMax cmd length = some last ∧ last.argv.length ≤ finshArgMax := by
  constructor
  · intro words trailing _ hargc hwords hgaps htrailing
    have hshort : words.length ≤ (joined words trailing).length := length_le_length_joined hwords
    have hnone : Reads [] [] [] := ⟨fun _ hnone => absurd hnone List.not_mem_nil, rfl⟩
    obtain ⟨last, hloop, hread⟩ := splitLoop_words hnone hwords (Or.inl rfl) hgaps htrailing
      ((Nat.zero_add _).trans_le hargc) (Nat.zero_add _)
      ((joined words trailing).length - words.length)
    rw [Nat.sub_add_cancel hshort] at hloop
    refine ⟨last, hloop, ?_, ?_⟩
    · simpa using congrArg List.length hread
    · rw [hread, List.nil_append, List.map_map]
      rfl
  · intro cmd length hlength hclosed
    have hinv : Inv finshArgMax length ⟨cmd, 0, 0, [], []⟩ :=
      ⟨hlength, hclosed, rfl, Nat.zero_le _, Nat.zero_le _,
        fun _ hnone => absurd hnone List.not_mem_nil⟩
    exact hinv.exists_splitLoop (Nat.lt_succ_of_le (Nat.sub_le _ _))

/-- `ls "my file"` with blanks around it. -/
theorem mshSplit_words_ls :
    ∃ last, mshSplit 10 (joined [([], .plain [0x6c, 0x73]),
          ([0x20, 0x09], .quoted [0x6d, 0x79, 0x20, 0x66])] [0x20] ++ [0])
        (joined [([], .plain [0x6c, 0x73]),
          ([0x20, 0x09], .quoted [0x6d, 0x79, 0x20, 0x66])] [0x20]).length = some last ∧
      last.argv.length = 2 ∧
      last.argv.map (readString last.cmd) =
        [some [0x6c, 0x73], some [0x6d, 0x79, 0x20, 0x66]] :=
  (mshSplit_words 10).1 [([], .plain [0x6c, 0x73]),
      ([0x20, 0x09], .quoted [0x6d, 0x79, 0x20, 0x66])] [0x20]
    (by decide) (by decide)
    (by simp [Word.WellFormed, Blank, quote, backslash]) (by decide)
    (by simp [Blank])

end RtThread.Msh
