import Mathlib

set_option linter.all false

/-!
# Sorted lists of extents

An extent is a nonempty interval of numbers.  A list of extents is separated when it is
sorted and no two of them touch, which makes it the only such list with its cells.  Taking
cells from the first extent that is long enough and putting an interval back keep a list
separated, and change its cells by exactly that interval.
-/

namespace RtThread.Core

structure Extent where
  first : ℕ
  count : ℕ
  deriving DecidableEq

namespace Extent

/-- The first number after an extent. -/
def stop (extent : Extent) : ℕ :=
  extent.first + extent.count

def cells (extent : Extent) : Set ℕ :=
  Set.Ico extent.first extent.stop

@[simp]
theorem mem_cells {extent : Extent} {cell : ℕ} :
    cell ∈ extent.cells ↔ extent.first ≤ cell ∧ cell < extent.stop := Iff.rfl

end Extent

variable {extents rest : List Extent} {extent given : Extent} {count cell : ℕ}

/-- Nonempty extents in ascending order, with a gap after each. -/
def Separated (extents : List Extent) : Prop :=
  (∀ extent ∈ extents, 0 < extent.count) ∧
    extents.Pairwise fun left right => left.stop < right.first

/-- The cells of a list of extents. -/
def cellsOf (extents : List Extent) : Set ℕ :=
  {cell | ∃ extent ∈ extents, cell ∈ extent.cells}

theorem separated_cons : Separated (extent :: rest) ↔
    0 < extent.count ∧ (∀ later ∈ rest, extent.stop < later.first) ∧ Separated rest := by
  rw [Separated, Separated, List.forall_mem_cons, List.pairwise_cons]
  tauto

@[simp]
theorem cellsOf_nil : cellsOf [] = ∅ := by
  simp [cellsOf]

theorem mem_cellsOf_cons : cell ∈ cellsOf (extent :: rest) ↔
    (extent.first ≤ cell ∧ cell < extent.stop) ∨ cell ∈ cellsOf rest := by
  simp [cellsOf]

/-- The cells after a separated head lie beyond a gap. -/
theorem lt_of_mem_cellsOf (hgap : ∀ later ∈ rest, extent.stop < later.first)
    (hcell : cell ∈ cellsOf rest) : extent.stop < cell := by
  obtain ⟨later, hlater, hlow, -⟩ := hcell
  exact (hgap later hlater).trans_le hlow

theorem mem_cellsOf_perm {extents' : List Extent} (hperm : extents.Perm extents') :
    cell ∈ cellsOf extents ↔ cell ∈ cellsOf extents' := by
  simp only [cellsOf, Set.mem_ofPred_eq, hperm.mem_iff]

/-- Nonempty extents end below a limit exactly when their cells lie below it. -/
theorem stop_le_iff {limit : ℕ} (hseparated : Separated extents) :
    (∀ extent ∈ extents, extent.stop ≤ limit) ↔ ∀ cell ∈ cellsOf extents, cell < limit := by
  constructor
  · rintro hstop cell ⟨extent, hextent, -, hcell⟩
    exact hcell.trans_le (hstop extent hextent)
  · intro hcells extent hextent
    have hpos := hseparated.1 extent hextent
    have hlast : extent.stop - 1 ∈ cellsOf extents :=
      ⟨extent, hextent, by simp only [Extent.mem_cells, Extent.stop]; omega⟩
    have hlt := hcells _ hlast
    omega

/-- There are no more separated extents than numbers to begin at. -/
theorem add_length_le {low limit : ℕ} (hseparated : Separated extents)
    (hlow : ∀ extent ∈ extents, low ≤ extent.first)
    (hstop : ∀ extent ∈ extents, extent.stop ≤ limit) (hle : low ≤ limit) :
    low + extents.length ≤ limit := by
  induction extents generalizing low with
  | nil => simpa using hle
  | cons extent rest ih =>
    obtain ⟨hpos, hgap, hrest⟩ := separated_cons.1 hseparated
    obtain ⟨hfirst, -⟩ := List.forall_mem_cons.1 hlow
    obtain ⟨hextent, hstop⟩ := List.forall_mem_cons.1 hstop
    simp only [Extent.stop] at hextent hgap
    have hlow' : ∀ later ∈ rest, low + 1 ≤ later.first := fun later hlater => by
      have hlt := hgap later hlater
      omega
    have hlength := ih hrest hlow' hstop (by omega)
    rw [List.length_cons]
    omega

/-! ## Taking cells -/

/-- The first extent that is long enough gives its first cells. -/
def takeCells (count : ℕ) : List Extent → Option (ℕ × List Extent)
  | [] => none
  | extent :: rest =>
    if count < extent.count then
      some (extent.first, ⟨extent.first + count, extent.count - count⟩ :: rest)
    else if extent.count = count then some (extent.first, rest)
    else (takeCells count rest).map fun taken => (taken.1, extent :: taken.2)

theorem takeCells_nil : takeCells count [] = none := rfl

theorem takeCells_cons : takeCells count (extent :: rest) =
    if count < extent.count then
      some (extent.first, ⟨extent.first + count, extent.count - count⟩ :: rest)
    else if extent.count = count then some (extent.first, rest)
    else (takeCells count rest).map fun taken => (taken.1, extent :: taken.2) := rfl

/-- Nothing is taken exactly when every extent is too short. -/
theorem takeCells_eq_none_iff :
    takeCells count extents = none ↔ ∀ extent ∈ extents, extent.count < count := by
  induction extents with
  | nil => simp [takeCells_nil]
  | cons extent rest ih =>
    rw [takeCells_cons, List.forall_mem_cons]
    split
    · simp only [reduceCtorEq, false_iff, not_and]
      omega
    · split
      · simp only [reduceCtorEq, false_iff, not_and]
        omega
      · rw [Option.map_eq_none_iff, ih]
        constructor
        · intro hrest
          exact ⟨by omega, hrest⟩
        · exact And.right

/-- What remains begins no earlier than what was there. -/
theorem le_first_of_takeCells {first low : ℕ} {after : List Extent}
    (htake : takeCells count extents = some (first, after))
    (hlow : ∀ extent ∈ extents, low < extent.first) :
    low < first ∧ ∀ extent ∈ after, low < extent.first := by
  induction extents generalizing first after with
  | nil => simp [takeCells_nil] at htake
  | cons extent rest ih =>
    rw [List.forall_mem_cons] at hlow
    rw [takeCells_cons] at htake
    split at htake
    · cases htake
      rw [List.forall_mem_cons]
      exact ⟨hlow.1, by dsimp only; omega, hlow.2⟩
    · split at htake
      · cases htake
        exact hlow
      · obtain ⟨⟨first', after'⟩, hrest, hpair⟩ := Option.map_eq_some_iff.1 htake
        cases hpair
        obtain ⟨hfirst, hafter⟩ := ih hrest hlow.2
        exact ⟨hfirst, List.forall_mem_cons.2 ⟨hlow.1, hafter⟩⟩

theorem separated_takeCells {first : ℕ} {after : List Extent} (hseparated : Separated extents)
    (htake : takeCells count extents = some (first, after)) : Separated after := by
  induction extents generalizing first after with
  | nil => simp [takeCells_nil] at htake
  | cons extent rest ih =>
    obtain ⟨hpos, hgap, hrest⟩ := separated_cons.1 hseparated
    rw [takeCells_cons] at htake
    split at htake
    · cases htake
      refine separated_cons.2 ⟨by dsimp only; omega, fun later hlater => ?_, hrest⟩
      have hstop := hgap later hlater
      simp only [Extent.stop] at hstop ⊢
      omega
    · split at htake
      · cases htake
        exact hrest
      · obtain ⟨⟨first', after'⟩, htaken, hpair⟩ := Option.map_eq_some_iff.1 htake
        cases hpair
        exact separated_cons.2
          ⟨hpos, (le_first_of_takeCells htaken hgap).2, ih hrest htaken⟩

/-- The cells are those that are taken and those that remain, and no cell is both. -/
theorem mem_cellsOf_takeCells {first : ℕ} {after : List Extent} (hseparated : Separated extents)
    (hcount : 0 < count) (htake : takeCells count extents = some (first, after)) :
    (cell ∈ cellsOf extents ↔ (first ≤ cell ∧ cell < first + count) ∨ cell ∈ cellsOf after) ∧
      ¬ ((first ≤ cell ∧ cell < first + count) ∧ cell ∈ cellsOf after) := by
  induction extents generalizing first after with
  | nil => simp [takeCells_nil] at htake
  | cons extent rest ih =>
    obtain ⟨hpos, hgap, hrest⟩ := separated_cons.1 hseparated
    have hbeyond := fun hmem : cell ∈ cellsOf rest => lt_of_mem_cellsOf hgap hmem
    rw [takeCells_cons] at htake
    split at htake
    · cases htake
      simp only [mem_cellsOf_cons, Extent.stop] at hbeyond ⊢
      by_cases hmem : cell ∈ cellsOf rest
      · have hlt := hbeyond hmem
        refine ⟨by simp [hmem], ?_⟩
        omega
      · simp only [hmem, or_false]
        omega
    · split at htake
      · cases htake
        simp only [mem_cellsOf_cons, Extent.stop] at hbeyond ⊢
        by_cases hmem : cell ∈ cellsOf rest
        · have hlt := hbeyond hmem
          refine ⟨by simp [hmem], ?_⟩
          omega
        · simp only [hmem, or_false, and_false, not_false_eq_true, and_true]
          omega
      · obtain ⟨⟨first', after'⟩, htaken, hpair⟩ := Option.map_eq_some_iff.1 htake
        cases hpair
        obtain ⟨hcells, hapart⟩ := ih hrest htaken
        have hfirst := (le_first_of_takeCells htaken hgap).1
        simp only [mem_cellsOf_cons, Extent.stop] at hbeyond hfirst ⊢
        rw [hcells]
        refine ⟨or_left_comm, ?_⟩
        rintro ⟨htaken', hhead | hmem⟩
        · omega
        · exact hapart ⟨htaken', hmem⟩

/-! ## Giving cells back -/

/-- An extent in front of others, merged with the next one if they touch. -/
def mergeNext (extent : Extent) : List Extent → List Extent
  | [] => [extent]
  | after :: rest =>
    if extent.stop = after.first then ⟨extent.first, extent.count + after.count⟩ :: rest
    else extent :: after :: rest

/-- An interval is put back, and merged with the extents it touches. -/
def giveCells (given : Extent) : List Extent → List Extent
  | [] => [given]
  | extent :: rest =>
    if extent.stop = given.first then
      mergeNext ⟨extent.first, extent.count + given.count⟩ rest
    else if extent.first = given.stop then
      ⟨given.first, extent.count + given.count⟩ :: rest
    else if given.stop < extent.first then given :: extent :: rest
    else extent :: giveCells given rest

theorem giveCells_nil : giveCells given [] = [given] := rfl

theorem giveCells_cons : giveCells given (extent :: rest) =
    if extent.stop = given.first then
      mergeNext ⟨extent.first, extent.count + given.count⟩ rest
    else if extent.first = given.stop then
      ⟨given.first, extent.count + given.count⟩ :: rest
    else if given.stop < extent.first then given :: extent :: rest
    else extent :: giveCells given rest := rfl

/-- The interval and the extents have no cell in common. -/
def Apart (given : Extent) (extents : List Extent) : Prop :=
  ∀ extent ∈ extents, given.stop ≤ extent.first ∨ extent.stop ≤ given.first

theorem lt_first_mergeNext {low : ℕ} (hfirst : low < extent.first)
    (hlow : ∀ later ∈ rest, low < later.first) :
    ∀ later ∈ mergeNext extent rest, low < later.first := by
  cases rest with
  | nil => simpa [mergeNext] using hfirst
  | cons after rest =>
    rw [mergeNext]
    split
    · exact List.forall_mem_cons.2 ⟨hfirst, (List.forall_mem_cons.1 hlow).2⟩
    · exact List.forall_mem_cons.2 ⟨hfirst, hlow⟩

theorem separated_mergeNext (hpos : 0 < extent.count) (hrest : Separated rest)
    (hle : ∀ later ∈ rest, extent.stop ≤ later.first) : Separated (mergeNext extent rest) := by
  cases rest with
  | nil => exact separated_cons.2 ⟨hpos, by simp, hrest⟩
  | cons after rest =>
    obtain ⟨hafter, hgap, hmore⟩ := separated_cons.1 hrest
    obtain ⟨hstop, -⟩ := List.forall_mem_cons.1 hle
    rw [mergeNext]
    split
    · next htouch =>
        refine separated_cons.2 ⟨by dsimp only; omega, fun later hlater => ?_, hmore⟩
        have hlt := hgap later hlater
        simp only [Extent.stop] at *
        omega
    · next htouch =>
        refine separated_cons.2 ⟨hpos, List.forall_mem_cons.2 ⟨by omega, ?_⟩, hrest⟩
        intro later hlater
        have hlt := hgap later hlater
        simp only [Extent.stop] at *
        omega

theorem mem_cellsOf_mergeNext : cell ∈ cellsOf (mergeNext extent rest) ↔
    (extent.first ≤ cell ∧ cell < extent.stop) ∨ cell ∈ cellsOf rest := by
  cases rest with
  | nil => simp [mergeNext, mem_cellsOf_cons]
  | cons after rest =>
    rw [mergeNext]
    split
    · by_cases hmem : cell ∈ cellsOf rest
      · simp [mem_cellsOf_cons, hmem]
      · simp only [mem_cellsOf_cons, hmem, Extent.stop, or_false] at *
        omega
    · rw [mem_cellsOf_cons]

theorem lt_first_giveCells {low : ℕ} (hlow : ∀ extent ∈ extents, low < extent.first)
    (hgiven : low < given.first) : ∀ extent ∈ giveCells given extents, low < extent.first := by
  induction extents with
  | nil => simpa [giveCells_nil] using hgiven
  | cons extent rest ih =>
    obtain ⟨hhead, hrest⟩ := List.forall_mem_cons.1 hlow
    rw [giveCells_cons]
    split
    · exact lt_first_mergeNext hhead hrest
    · split
      · exact List.forall_mem_cons.2 ⟨hgiven, hrest⟩
      · split
        · exact List.forall_mem_cons.2 ⟨hgiven, hlow⟩
        · exact List.forall_mem_cons.2 ⟨hhead, ih hrest⟩

theorem separated_giveCells (hseparated : Separated extents) (hpos : 0 < given.count)
    (hapart : Apart given extents) : Separated (giveCells given extents) := by
  induction extents with
  | nil => exact separated_cons.2 ⟨hpos, by simp, hseparated⟩
  | cons extent rest ih =>
    obtain ⟨hcount, hgap, hrest⟩ := separated_cons.1 hseparated
    obtain ⟨hhead, hapart⟩ := List.forall_mem_cons.1 hapart
    rw [giveCells_cons]
    split
    · refine separated_mergeNext (by dsimp only; omega) hrest fun later hlater => ?_
      have hlt := hgap later hlater
      have hside := hapart later hlater
      simp only [Extent.stop] at *
      omega
    · split
      · refine separated_cons.2 ⟨by dsimp only; omega, fun later hlater => ?_, hrest⟩
        have hlt := hgap later hlater
        simp only [Extent.stop] at *
        omega
      · split
        · next hbefore =>
            refine separated_cons.2 ⟨hpos, List.forall_mem_cons.2 ⟨hbefore, ?_⟩, hseparated⟩
            intro later hlater
            have hlt := hgap later hlater
            simp only [Extent.stop] at *
            omega
        · refine separated_cons.2 ⟨hcount, lt_first_giveCells hgap ?_, ih hrest hapart⟩
          omega

theorem mem_cellsOf_giveCells : cell ∈ cellsOf (giveCells given extents) ↔
    (given.first ≤ cell ∧ cell < given.stop) ∨ cell ∈ cellsOf extents := by
  induction extents with
  | nil => simp [giveCells_nil, mem_cellsOf_cons]
  | cons extent rest ih =>
    rw [giveCells_cons]
    split
    · rw [mem_cellsOf_mergeNext, mem_cellsOf_cons]
      by_cases hmem : cell ∈ cellsOf rest
      · simp [hmem]
      · simp only [hmem, Extent.stop, or_false] at *
        omega
    · split
      · rw [mem_cellsOf_cons, mem_cellsOf_cons]
        by_cases hmem : cell ∈ cellsOf rest
        · simp [hmem]
        · simp only [hmem, Extent.stop, or_false] at *
          omega
      · split
        · rw [mem_cellsOf_cons]
        · rw [mem_cellsOf_cons, mem_cellsOf_cons, ih, or_left_comm]

end RtThread.Core
