import Mathlib

set_option linter.all false

/-!
# Cells in linked lists and their owners

A list that lives in a pool of cells is a start pointer and the `next` pointer of
each cell.  The cells are shared out among owners, some of which are such lists;
whatever moves one cell from one owner to another leaves a partition of the pool.
-/

namespace RtThread.Core

open Function

/-! ## Linked lists -/

section Chain

variable {α : Type*} {next : α → Option α} {start : Option α} {cells : List α}

/-- Following `next` from `start` visits exactly `cells` and ends. -/
def Chain (next : α → Option α) : Option α → List α → Prop
  | start, [] => start = none
  | start, cell :: rest => start = some cell ∧ Chain next (next cell) rest

theorem Chain.exists_rest {cell : α} (hchain : Chain next (some cell) cells) :
    ∃ rest, cells = cell :: rest ∧ Chain next (next cell) rest := by
  cases cells with
  | nil => exact absurd hchain (Option.some_ne_none cell)
  | cons head rest =>
    obtain ⟨hhead, hrest⟩ := hchain
    rw [Option.some.injEq] at hhead
    exact ⟨rest, by rw [hhead], hhead ▸ hrest⟩

theorem Chain.start_eq_none_iff (hchain : Chain next start cells) :
    start = none ↔ cells = [] := by
  cases cells with
  | nil => simpa [Chain] using hchain
  | cons head rest => simp [hchain.1]

theorem Chain.head_eq (hchain : Chain next start cells) : start = cells.head? := by
  cases cells with
  | nil => exact hchain
  | cons head rest => exact hchain.1

theorem Chain.unique {other : List α} (hcells : Chain next start cells)
    (hother : Chain next start other) : cells = other := by
  induction cells generalizing start other with
  | nil => exact (hother.start_eq_none_iff.1 hcells).symm
  | cons head tail ih =>
    obtain ⟨rfl, hrest⟩ := hcells
    obtain ⟨rest, rfl, hnext⟩ := hother.exists_rest
    rw [ih hrest hnext]

theorem Chain.drop {front rest : List α} (hchain : Chain next start (front ++ rest)) :
    Chain next rest.head? rest := by
  induction front generalizing start with
  | nil =>
    have heq : start = rest.head? := hchain.head_eq
    rw [← heq]
    exact hchain
  | cons head front ih => exact ih hchain.2

theorem Chain.next_eq {front rest : List α} {cell : α}
    (hchain : Chain next start (front ++ cell :: rest)) : next cell = rest.head? :=
  hchain.drop.2.head_eq

variable [DecidableEq α]

/-- The pointer of a cell outside the list can be written. -/
theorem Chain.update_of_not_mem {cell : α} (link : Option α) (hnot : cell ∉ cells)
    (hchain : Chain next start cells) : Chain (update next cell link) start cells := by
  induction cells generalizing start with
  | nil => exact hchain
  | cons head rest ih =>
    rw [List.mem_cons, not_or] at hnot
    obtain ⟨hhead, hrest⟩ := hchain
    refine ⟨hhead, ?_⟩
    rw [update_of_ne (Ne.symm hnot.1)]
    exact ih hnot.2 hrest

theorem Chain.push {cell : α} (hnot : cell ∉ cells) (hchain : Chain next start cells) :
    Chain (update next cell start) (some cell) (cell :: cells) := by
  refine ⟨rfl, ?_⟩
  rw [update_self]
  exact hchain.update_of_not_mem start hnot

theorem Chain.append {last cell : α} (hchain : Chain next start cells) (hnodup : cells.Nodup)
    (hlast : cells.getLast? = some last) (hnot : cell ∉ cells) (hend : next cell = none) :
    Chain (update next last (some cell)) start (cells ++ [cell]) := by
  induction cells generalizing start with
  | nil => simp at hlast
  | cons head rest ih =>
    rw [List.mem_cons, not_or] at hnot
    obtain ⟨hhead, hrest⟩ := hchain
    refine ⟨hhead, ?_⟩
    cases rest with
    | nil =>
      -- the list has one cell, which is the last
      have hlast : head = last := by simpa using hlast
      subst hlast
      rw [update_self]
      refine ⟨rfl, ?_⟩
      rw [update_of_ne hnot.1]
      exact hend
    | cons second more =>
      have hmem : last ∈ second :: more := List.mem_of_getLast? hlast
      have hne : head ≠ last := fun heq => (List.nodup_cons.1 hnodup).1 (heq ▸ hmem)
      rw [update_of_ne hne]
      exact ih hrest (List.nodup_cons.1 hnodup).2 hlast hnot.2

/-- The pointer of a cell is set to lead somewhere else. -/
theorem Chain.relink {front rest rest' : List α} {cell : α} {link : Option α}
    (hchain : Chain next start (front ++ cell :: rest)) (hfront : cell ∉ front)
    (hlink : Chain next link rest') (hrest : cell ∉ rest') :
    Chain (update next cell link) start (front ++ cell :: rest') := by
  induction front generalizing start with
  | nil =>
    refine ⟨hchain.1, ?_⟩
    rw [update_self]
    exact hlink.update_of_not_mem link hrest
  | cons head front ih =>
    rw [List.mem_cons, not_or] at hfront
    obtain ⟨hhead, htail⟩ := hchain
    refine ⟨hhead, ?_⟩
    rw [update_of_ne (Ne.symm hfront.1)]
    exact ih htail hfront.2

end Chain

/-! ## Owners -/

section Owners

variable {Owner α : Type*}

/-- Every cell of the pool has exactly one owner, which has it once. -/
structure Partitions (cells : Owner → List α) (pool : Set α) : Prop where
  nodup : ∀ owner, (cells owner).Nodup
  cover : ∀ cell, cell ∈ pool ↔ ∃ owner, cell ∈ cells owner
  unique : ∀ owner owner' cell, cell ∈ cells owner → cell ∈ cells owner' → owner = owner'

variable {cells cells' : Owner → List α} {pool : Set α} {source target : Owner} {moved : α}

/-- The cell `moved` goes from `source` to `target`, and nothing else changes hands. -/
structure Moves (cells cells' : Owner → List α) (source target : Owner) (moved : α) :
    Prop where
  ne : source ≠ target
  leaves : (cells source).Perm (moved :: cells' source)
  enters : (cells' target).Perm (moved :: cells target)
  others : ∀ owner, owner ≠ source → owner ≠ target → cells' owner = cells owner

theorem Moves.mem (hmoves : Moves cells cells' source target moved) : moved ∈ cells source :=
  hmoves.leaves.mem_iff.2 List.mem_cons_self

theorem Partitions.not_mem_of_moves (hparts : Partitions cells pool)
    (hmoves : Moves cells cells' source target moved) {owner : Owner} (hne : owner ≠ source) :
    moved ∉ cells owner := fun hmem => hne (hparts.unique _ _ _ hmem hmoves.mem)

theorem Partitions.mem_moves_iff (hparts : Partitions cells pool)
    (hmoves : Moves cells cells' source target moved) (owner : Owner) (cell : α) :
    cell ∈ cells' owner ↔ cell = moved ∧ owner = target ∨ cell ≠ moved ∧ cell ∈ cells owner := by
  by_cases hsource : owner = source
  · subst hsource
    have hnodup := hmoves.leaves.nodup_iff.1 (hparts.nodup owner)
    have hmem := hmoves.leaves.mem_iff (a := cell)
    have hne := hmoves.ne
    rw [List.nodup_cons] at hnodup
    by_cases hcell : cell = moved
    · simp [hcell, hnodup.1, hne]
    · simp [hcell, hmem]
  · have hnot := hparts.not_mem_of_moves hmoves hsource
    by_cases htarget : owner = target
    · subst htarget
      rw [hmoves.enters.mem_iff, List.mem_cons]
      by_cases hcell : cell = moved <;> simp [hcell]
    · rw [hmoves.others owner hsource htarget]
      by_cases hcell : cell = moved
      · simp [hcell, hnot, htarget]
      · simp [hcell]

theorem Partitions.move (hparts : Partitions cells pool)
    (hmoves : Moves cells cells' source target moved) : Partitions cells' pool where
  nodup owner := by
    by_cases hsource : owner = source
    · subst hsource
      exact (List.nodup_cons.1 (hmoves.leaves.nodup_iff.1 (hparts.nodup owner))).2
    · by_cases htarget : owner = target
      · subst htarget
        rw [hmoves.enters.nodup_iff, List.nodup_cons]
        exact ⟨hparts.not_mem_of_moves hmoves hsource, hparts.nodup owner⟩
      · rw [hmoves.others owner hsource htarget]
        exact hparts.nodup owner
  cover cell := by
    rw [hparts.cover]
    simp only [hparts.mem_moves_iff hmoves]
    by_cases hcell : cell = moved
    · subst hcell
      simpa using ⟨source, hmoves.mem⟩
    · simp [hcell]
  unique := by
    intro owner owner' cell hmem hmem'
    rw [hparts.mem_moves_iff hmoves] at hmem hmem'
    rcases hmem with ⟨hcell, howner⟩ | ⟨hcell, hmem⟩
    · rcases hmem' with ⟨-, howner'⟩ | ⟨hcell', -⟩
      · rw [howner, howner']
      · exact absurd hcell hcell'
    · rcases hmem' with ⟨hcell', -⟩ | ⟨-, hmem'⟩
      · exact absurd hcell' hcell
      · exact hparts.unique _ _ _ hmem hmem'

end Owners

end RtThread.Core
