import RtThread.Core.NewestFifo

set_option linter.all false

/-!
# Editing a line of text

A text with a cursor, the operations of an editor on it, and their counterparts on a buffer
that holds the text and zeros behind it.
-/

namespace RtThread.Core

open Function

/-! ## The text and its cursor -/

@[ext]
structure EditLine (Symbol : Type*) where
  text : List Symbol
  cursor : ℕ
  cursor_le : cursor ≤ text.length

namespace EditLine

variable {Symbol : Type*} (line : EditLine Symbol)

def empty : EditLine Symbol :=
  ⟨[], 0, le_rfl⟩

/-- A new text, with the cursor at its end. -/
def ofText (text : List Symbol) : EditLine Symbol :=
  ⟨text, text.length, le_rfl⟩

def insert (symbol : Symbol) : EditLine Symbol where
  text := line.text.insertIdx line.cursor symbol
  cursor := line.cursor + 1
  cursor_le := by
    rw [List.length_insertIdx, if_pos line.cursor_le]
    exact Nat.succ_le_succ line.cursor_le

/-- Delete the symbol in front of the cursor. -/
def delete : EditLine Symbol :=
  if hcursor : 0 < line.cursor then
    { text := line.text.eraseIdx (line.cursor - 1)
      cursor := line.cursor - 1
      cursor_le := by
        have hle := line.cursor_le
        rw [List.length_eraseIdx, if_pos (by omega)]
        omega }
  else line

def left : EditLine Symbol :=
  ⟨line.text, line.cursor - 1, (Nat.sub_le _ _).trans line.cursor_le⟩

def right : EditLine Symbol :=
  if hcursor : line.cursor < line.text.length then ⟨line.text, line.cursor + 1, hcursor⟩ else line

@[simp]
theorem text_insert (symbol : Symbol) :
    (line.insert symbol).text = line.text.insertIdx line.cursor symbol := rfl

@[simp]
theorem cursor_insert (symbol : Symbol) : (line.insert symbol).cursor = line.cursor + 1 := rfl

theorem length_insert (symbol : Symbol) :
    (line.insert symbol).text.length = line.text.length + 1 := by
  rw [text_insert, List.length_insertIdx, if_pos line.cursor_le]

theorem delete_of_pos (hcursor : 0 < line.cursor) :
    line.delete.text = line.text.eraseIdx (line.cursor - 1) ∧
      line.delete.cursor = line.cursor - 1 := by
  rw [delete, dif_pos hcursor]
  exact ⟨rfl, rfl⟩

theorem delete_of_zero (hcursor : line.cursor = 0) : line.delete = line := by
  rw [delete, dif_neg (by omega)]

theorem text_right : line.right.text = line.text := by
  rw [right]
  split_ifs <;> rfl

theorem cursor_right :
    line.right.cursor =
      if line.cursor < line.text.length then line.cursor + 1 else line.cursor := by
  rw [right]
  split_ifs <;> rfl

end EditLine

/-! ## Lines without repetitions -/

section Destutter

variable {Line : Type*} [DecidableEq Line]

theorem destutter'_ne_concat (first : Line) (lines : List Line) (line : Line) :
    (lines ++ [line]).destutter' (· ≠ ·) first =
      if (lines.destutter' (· ≠ ·) first).getLast? = some line then
        lines.destutter' (· ≠ ·) first
      else lines.destutter' (· ≠ ·) first ++ [line] := by
  induction lines generalizing first with
  | nil =>
    rw [List.nil_append, List.destutter'_singleton, List.destutter'_nil]
    by_cases hsame : first = line
    · simp [hsame]
    · simp [hsame]
  | cons next lines ih =>
    rw [List.cons_append]
    by_cases hdiffers : first ≠ next
    · rw [List.destutter'_cons_pos _ hdiffers, List.destutter'_cons_pos _ hdiffers, ih,
        List.getLast?_cons_of_ne_nil (List.destutter'_ne_nil lines _)]
      split_ifs <;> rfl
    · rw [List.destutter'_cons_neg _ hdiffers, List.destutter'_cons_neg _ hdiffers, ih]

/-- A further line stays unless it repeats the last one. -/
theorem destutter_ne_concat (lines : List Line) (line : Line) :
    (lines ++ [line]).destutter (· ≠ ·) =
      if (lines.destutter (· ≠ ·)).getLast? = some line then lines.destutter (· ≠ ·)
      else lines.destutter (· ≠ ·) ++ [line] := by
  cases lines with
  | nil => simp
  | cons first lines => exact destutter'_ne_concat first lines line

end Destutter

/-! ## Buffers -/

section Buffers

variable {Byte : Type} {memory other : ℕ → Byte} {text text' : List Byte} {size cursor : ℕ}

def memmove (memory : ℕ → Byte) (dst src count : ℕ) : ℕ → Byte :=
  fun slot => if dst ≤ slot ∧ slot < dst + count then memory (src + (slot - dst)) else memory slot

def memcpy (dst src : ℕ → Byte) (count : ℕ) : ℕ → Byte :=
  fun slot => if slot < count then src slot else dst slot

@[simp]
theorem memmove_zero (memory : ℕ → Byte) (dst src : ℕ) : memmove memory dst src 0 = memory :=
  funext fun _ => if_neg (by omega)

variable [Zero Byte]

def memzero (memory : ℕ → Byte) (count : ℕ) : ℕ → Byte :=
  fun slot => if slot < count then 0 else memory slot

/-- The index of the first zero in a buffer of the given size. -/
def strlen [DecidableEq Byte] (memory : ℕ → Byte) (size : ℕ) : Option ℕ :=
  (List.range size).find? fun slot => memory slot = 0

/-- The buffer holds the text, and zeros behind it. -/
def Padded (size : ℕ) (memory : ℕ → Byte) (text : List Byte) : Prop :=
  ∀ slot < size, memory slot = (text[slot]?).getD 0

instance [DecidableEq Byte] : Decidable (Padded size memory text) :=
  inferInstanceAs (Decidable (∀ slot < size, _))

theorem padded_memzero : Padded size (memzero memory size) [] :=
  fun _ hslot => if_pos hslot

theorem Padded.memcpy (hpadded : Padded size memory text) :
    Padded size (memcpy other memory size) text := by
  intro slot hslot
  rw [Core.memcpy, if_pos hslot]
  exact hpadded slot hslot

theorem Padded.memcpy_text (hpadded : Padded size memory text) :
    Padded size (Core.memcpy (memzero other size) memory text.length) text := by
  intro slot hslot
  rw [Core.memcpy]
  split_ifs with htext
  · exact hpadded slot hslot
  · rw [memzero, if_pos hslot, List.getElem?_eq_none (by omega)]
    rfl

theorem Padded.insert {symbol : Byte} (hpadded : Padded size memory text)
    (hcursor : cursor ≤ text.length) :
    Padded size (update (memmove memory (cursor + 1) cursor (text.length - cursor))
      cursor symbol) (text.insertIdx cursor symbol) := by
  intro slot hslot
  rw [List.getElem?_insertIdx]
  rcases lt_trichotomy slot cursor with hfront | rfl | hbehind
  · rw [update_of_ne hfront.ne, memmove, if_neg (by omega), if_pos hfront]
    exact hpadded slot hslot
  · rw [update_self, if_neg (lt_irrefl _), if_pos rfl, if_pos hcursor]
    rfl
  · rw [update_of_ne hbehind.ne', memmove, if_neg hbehind.not_gt, if_neg hbehind.ne']
    split_ifs with hmoved
    · have hsource : cursor + (slot - (cursor + 1)) = slot - 1 := by omega
      rw [hsource]
      exact hpadded (slot - 1) (by omega)
    · rw [hpadded slot hslot, List.getElem?_eq_none (by omega), List.getElem?_eq_none (by omega)]

theorem Padded.delete (hpadded : Padded size memory text) (hfits : text.length ≤ size)
    (hpos : 0 < cursor) (hcursor : cursor ≤ text.length) :
    Padded size (update (memmove memory (cursor - 1) cursor (text.length - cursor))
      (text.length - 1) 0) (text.eraseIdx (cursor - 1)) := by
  intro slot hslot
  rw [List.getElem?_eraseIdx]
  by_cases hlast : slot = text.length - 1
  · rw [hlast, update_self, if_neg (by omega), List.getElem?_eq_none (by omega)]
    rfl
  · rw [update_of_ne hlast, memmove]
    split_ifs with hmoved hfront hfront
    · omega
    · have hsource : cursor + (slot - (cursor - 1)) = slot + 1 := by omega
      rw [hsource]
      exact hpadded (slot + 1) (by omega)
    · exact hpadded slot hslot
    · rw [hpadded slot hslot, List.getElem?_eq_none (by omega), List.getElem?_eq_none (by omega)]

/-- The length of the text is that of the string in the buffer. -/
theorem Padded.strlen [DecidableEq Byte] (hpadded : Padded size memory text)
    (htext : (0 : Byte) ∉ text) (hfits : text.length < size) :
    strlen memory size = some text.length := by
  rw [Core.strlen, List.find?_range_eq_some]
  refine ⟨?_, List.mem_range.2 hfits, fun slot hslot => ?_⟩
  · rw [hpadded _ hfits, List.getElem?_eq_none le_rfl]
    exact decide_eq_true rfl
  · rw [hpadded slot (by omega), List.getElem?_eq_getElem hslot]
    have hne : text[slot] ≠ 0 := fun hzero => htext (hzero ▸ List.getElem_mem hslot)
    simpa using hne

/-- The string in a buffer of the given size. -/
def textOf [DecidableEq Byte] (memory : ℕ → Byte) (size : ℕ) : List Byte :=
  ((List.range size).map memory).takeWhile (· ≠ 0)

theorem Padded.map_range (hpadded : Padded size memory text) (hfits : text.length ≤ size) :
    (List.range text.length).map memory = text := by
  refine List.ext_getElem (by simp) fun slot hleft hright => ?_
  rw [List.getElem_map, List.getElem_range, hpadded slot (by omega),
    List.getElem?_eq_getElem hright]
  rfl

theorem Padded.textOf [DecidableEq Byte] (hpadded : Padded size memory text)
    (htext : (0 : Byte) ∉ text) (hfits : text.length < size) : textOf memory size = text := by
  obtain ⟨rest, hsize⟩ := Nat.exists_eq_add_of_lt hfits
  have hzero : memory text.length = 0 := by
    rw [hpadded _ hfits, List.getElem?_eq_none le_rfl]
    rfl
  rw [Core.textOf, hsize, Nat.add_assoc, List.range_add, List.map_append,
    hpadded.map_range hfits.le,
    List.takeWhile_append_of_pos]
  · rw [List.range_succ_eq_map, List.map_cons, List.map_cons, Nat.add_zero,
      List.takeWhile_cons_of_neg (by simpa using hzero), List.append_nil]
  · intro byte hbyte
    have hne : byte ≠ 0 := fun heq => htext (heq ▸ hbyte)
    simpa using hne

theorem Padded.eq_iff (hpadded : Padded size memory text) (hpadded' : Padded size other text')
    (htext : (0 : Byte) ∉ text) (htext' : (0 : Byte) ∉ text') (hfits : text.length ≤ size)
    (hfits' : text'.length ≤ size) :
    (∀ slot < size, memory slot = other slot) ↔ text = text' := by
  constructor
  · intro hsame
    refine List.ext_getElem? fun slot => ?_
    by_cases hslot : slot < size
    · have heq := hsame slot hslot
      rw [hpadded slot hslot, hpadded' slot hslot] at heq
      cases hget : text[slot]? with
      | none =>
        cases hget' : text'[slot]? with
        | none => rfl
        | some byte =>
          rw [hget, hget', Option.getD_none, Option.getD_some] at heq
          exact absurd (heq ▸ List.mem_of_getElem? hget') htext'
      | some byte =>
        cases hget' : text'[slot]? with
        | none =>
          rw [hget, hget', Option.getD_none, Option.getD_some] at heq
          exact absurd (heq ▸ List.mem_of_getElem? hget) htext
        | some byte' =>
          rw [hget, hget'] at heq
          exact congrArg some heq
    · rw [List.getElem?_eq_none (by omega), List.getElem?_eq_none (by omega)]
  · rintro rfl slot hslot
    rw [hpadded slot hslot, hpadded' slot hslot]

end Buffers

end RtThread.Core
