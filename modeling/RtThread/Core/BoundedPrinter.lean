import Mathlib

set_option linter.all false

/-!
# Printing into a bounded buffer

A printer writes symbols one by one through a cursor.  The cursor moves on with every symbol, but
a symbol that would lie behind the end of the buffer is not written.  What a printer prints does
not depend on the buffer: this is a property of single writes that is kept by composition, and
from it follows at once what a buffer of any size holds in the end.
-/

namespace RtThread.Core

open Function

/-- The memory from the start of the buffer on, the cursor and the end of the buffer. -/
structure Printed (Symbol : Type) where
  memory : ℕ → Symbol
  cursor : ℕ
  stop : ℕ

/-- A printer may fail, and has a result. -/
abbrev Printer (Symbol Result : Type) :=
  StateT (Printed Symbol) Option Result

namespace Printed

variable {Symbol : Type} (out : Printed Symbol) {slot : ℕ}

def put (symbol : Symbol) : Printed Symbol :=
  { out with
    memory := if out.cursor < out.stop then update out.memory out.cursor symbol
      else out.memory
    cursor := out.cursor + 1 }

def puts (symbols : List Symbol) : Printed Symbol :=
  symbols.foldl put out

@[simp]
theorem puts_cons (symbol : Symbol) (symbols : List Symbol) :
    out.puts (symbol :: symbols) = (out.put symbol).puts symbols := rfl

theorem puts_append (symbols more : List Symbol) :
    out.puts (symbols ++ more) = (out.puts symbols).puts more :=
  List.foldl_append

@[simp]
theorem stop_puts (symbols : List Symbol) : (out.puts symbols).stop = out.stop := by
  induction symbols generalizing out with
  | nil => rfl
  | cons symbol symbols ih => rw [puts_cons, ih, put]

@[simp]
theorem cursor_puts (symbols : List Symbol) :
    (out.puts symbols).cursor = out.cursor + symbols.length := by
  induction symbols generalizing out with
  | nil => rfl
  | cons symbol symbols ih =>
    rw [puts_cons, ih, List.length_cons]
    change out.cursor + 1 + symbols.length = _
    omega

/-- Nothing is written in front of the cursor or behind the end. -/
theorem memory_puts_outside (symbols : List Symbol) (hslot : slot < out.cursor ∨ out.stop ≤ slot) :
    (out.puts symbols).memory slot = out.memory slot := by
  induction symbols generalizing out with
  | nil => rfl
  | cons symbol symbols ih =>
    rw [puts_cons, ih]
    · rw [put]
      split_ifs with hin
      · exact update_of_ne (by omega) ..
      · rfl
    · rw [put]
      dsimp only
      omega

theorem memory_puts (symbols : List Symbol) {index : ℕ} (hindex : index < symbols.length)
    (hfits : out.cursor + index < out.stop) :
    (out.puts symbols).memory (out.cursor + index) = symbols[index] := by
  induction symbols generalizing out index with
  | nil => cases hindex
  | cons symbol symbols ih =>
    rw [puts_cons]
    cases index with
    | zero =>
      have hin : out.cursor < out.stop := by omega
      rw [memory_puts_outside _ _ (.inl (Nat.lt_succ_self _)), put, if_pos hin]
      exact update_self ..
    | succ index =>
      have hshift : out.cursor + (index + 1) = (out.put symbol).cursor + index := by
        rw [put]
        dsimp only
        omega
      rw [hshift, List.getElem_cons_succ]
      refine ih (out.put symbol) (by simpa using hindex) ?_
      rw [← hshift]
      exact hfits

end Printed

/-! ## What a printer prints -/

section Emits

variable {Symbol Result More : Type} {post : Result → Prop} {next : More → Prop}

def putSymbol (symbol : Symbol) : Printer Symbol Unit :=
  modify fun out => out.put symbol

/-- The printer does not fail, and prints the same symbols and has the same result in every
buffer. -/
def Emits (printer : Printer Symbol Result) (post : Result → Prop) : Prop :=
  ∃ symbols result, post result ∧ ∀ out, printer.run out = some (result, out.puts symbols)

theorem Emits.pure {result : Result} (hpost : post result) :
    Emits (pure result : Printer Symbol Result) post :=
  ⟨[], result, hpost, fun _ => rfl⟩

theorem Emits.put (symbol : Symbol) : Emits (putSymbol symbol) fun _ => True :=
  ⟨[symbol], (), trivial, fun _ => rfl⟩

theorem Emits.lift {value : Option Result} {result : Result} (hvalue : value = some result) :
    Emits (StateT.lift value : Printer Symbol Result) fun result => value = some result := by
  refine ⟨[], result, hvalue, fun out => ?_⟩
  rw [hvalue]
  rfl

theorem Emits.bind {printer : Printer Symbol Result} {rest : Result → Printer Symbol More}
    (hprinter : Emits printer post) (hrest : ∀ result, post result → Emits (rest result) next) :
    Emits (printer >>= rest) next := by
  obtain ⟨symbols, result, hpost, hrun⟩ := hprinter
  obtain ⟨more, last, hnext, hrun'⟩ := hrest result hpost
  refine ⟨symbols ++ more, last, hnext, fun out => ?_⟩
  rw [StateT.run_bind, hrun, Printed.puts_append]
  exact hrun' (out.puts symbols)

theorem Emits.ite {condition : Prop} [Decidable condition] {printer other : Printer Symbol Result}
    (hprinter : condition → Emits printer post) (hother : ¬ condition → Emits other post) :
    Emits (if condition then printer else other) post := by
  split_ifs with hcondition
  · exact hprinter hcondition
  · exact hother hcondition

end Emits

/-! ## Closing the buffer -/

section Close

variable {Symbol : Type} {memory : ℕ → Symbol} {size slot : ℕ}

/-- The symbol that closes a string goes behind what was printed, or to the last place. -/
def Printed.close (out : Printed Symbol) (last : Symbol) : ℕ → Symbol :=
  if 0 < out.stop then
    if out.cursor < out.stop then update out.memory out.cursor last
    else update out.memory (out.stop - 1) last
  else out.memory

theorem Printed.close_outside {symbols : List Symbol} (last : Symbol) (hslot : size ≤ slot) :
    ((⟨memory, 0, size⟩ : Printed Symbol).puts symbols).close last slot = memory slot := by
  have hsame := Printed.memory_puts_outside ⟨memory, 0, size⟩ symbols (.inr hslot)
  rw [Printed.close, stop_puts]
  dsimp only
  split_ifs with hsize hcursor
  · rw [update_of_ne (by omega)]
    exact hsame
  · rw [update_of_ne (by omega)]
    exact hsame
  · exact hsame

/-- A buffer holds as many symbols as there is room for, and then the closing one. -/
theorem Printed.close_inside {symbols : List Symbol} (last : Symbol) (hsize : 0 < size) :
    (List.range (min symbols.length (size - 1) + 1)).map
        (((⟨memory, 0, size⟩ : Printed Symbol).puts symbols).close last) =
      symbols.take (size - 1) ++ [last] := by
  rw [List.range_succ, List.map_append]
  have hclose : ∀ slot, ((⟨memory, 0, size⟩ : Printed Symbol).puts symbols).close last slot =
      if slot = min symbols.length (size - 1) then last
      else ((⟨memory, 0, size⟩ : Printed Symbol).puts symbols).memory slot := by
    intro slot
    rw [Printed.close, stop_puts, if_pos hsize, cursor_puts]
    dsimp only
    split_ifs with hcursor hslot hslot
    · rw [hslot, Nat.zero_add, Nat.min_eq_left (by omega), update_self]
    · exact update_of_ne (by omega) ..
    · rw [hslot, Nat.min_eq_right (by omega), update_self]
    · exact update_of_ne (by omega) ..
  congr 1
  · refine List.ext_getElem (by simp [Nat.min_comm]) fun index hleft hright => ?_
    rw [List.length_map, List.length_range] at hleft
    rw [List.getElem_map, List.getElem_range, hclose, if_neg (by omega), List.getElem_take]
    have hfits : 0 + index < size := by omega
    have hmemory := @Printed.memory_puts Symbol ⟨memory, 0, size⟩ symbols index (by omega) hfits
    simpa using hmemory
  · simp [hclose]

end Close

end RtThread.Core
