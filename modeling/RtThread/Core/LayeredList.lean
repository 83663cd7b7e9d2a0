import RtThread.Core.StableOrder

set_option linter.all false

/-!
# Layered ordered lists

A skip list keeps several rows, each a sublist of the row below.  A search walks
a row from the node it has reached in the row above, up to the first element that
stops it, and a new element is put behind the nodes where the walks ended.  When
every row is ordered, the walk ends where an ordered insertion would, so a row
gets the new element by `List.orderedInsert` no matter where the search entered it.
-/

namespace RtThread.Core.LayeredList

variable {α : Type*}

/-- The node the walk ends at: it goes on from `node` until `stop` holds of the next
element.  `none` is the head of the list. -/
def walk (stop : α → Bool) (node : Option α) : List α → Option α
  | [] => node
  | next :: rest => if stop next then node else walk stop (some next) rest

theorem walk_eq (stop : α → Bool) (node : Option α) (row : List α) :
    walk stop node row = ((row.takeWhile fun next => !stop next).getLast?).or node := by
  induction row generalizing node with
  | nil => rfl
  | cons next rest ih =>
    rw [walk, List.takeWhile_cons]
    by_cases hstop : stop next = true
    · simp [hstop]
    · rw [Bool.not_eq_true] at hstop
      rw [hstop, if_neg Bool.false_ne_true, ih]
      cases hlast : (rest.takeWhile fun next => !stop next).getLast? with
      | none =>
        rw [List.getLast?_eq_none_iff] at hlast
        simp [hlast]
      | some last => simp [List.getLast?_cons, hlast]

variable [DecidableEq α]

/-- The elements behind a node. -/
def behind (row : List α) : Option α → List α
  | none => row
  | some node => (row.dropWhile fun element => element ≠ node).tail

/-- Link `element` behind a node. -/
def insertAfter (row : List α) (node : Option α) (element : α) : List α :=
  match node with
  | none => element :: row
  | some node =>
    match row with
    | [] => [element]
    | head :: rest =>
      if head = node then head :: element :: rest
      else head :: insertAfter rest (some node) element

theorem perm_insertAfter (row : List α) (node : Option α) (element : α) :
    (insertAfter row node element).Perm (element :: row) := by
  cases node with
  | none => rw [insertAfter]
  | some node =>
    induction row with
    | nil => rw [insertAfter]
    | cons head rest ih =>
      rw [insertAfter]
      split
      · exact List.Perm.swap _ _ _
      · exact (ih.cons head).trans (List.Perm.swap _ _ _)

variable {row : List α}

theorem erase_insertAfter {element : α} (hnot : element ∉ row) (node : Option α) :
    (insertAfter row node element).erase element = row := by
  cases node with
  | none =>
    rw [insertAfter]
    exact List.erase_cons_head element row
  | some node =>
    induction row with
    | nil =>
      rw [insertAfter]
      exact List.erase_cons_head element []
    | cons head rest ih =>
      have hne : head ≠ element := fun heq => hnot (heq ▸ List.mem_cons_self)
      have hrest : element ∉ rest := fun hmem => hnot (List.mem_cons_of_mem head hmem)
      have hhead : (head == element) = false := beq_eq_false_iff_ne.2 hne
      rw [insertAfter]
      split
      · rw [List.erase_cons, hhead, List.erase_cons_head]
        simp
      · rw [List.erase_cons, hhead, ih hrest]
        simp

/-- Where the search ends in each row: it starts at the head of row 0, and enters the
next row at the node it has reached. -/
def search (stop : α → Bool) (rows : ℕ → List α) : ℕ → Option α
  | 0 => walk stop none (rows 0)
  | row + 1 => walk stop (search stop rows row) (behind (rows (row + 1)) (search stop rows row))

/-- Once an element stops the walk, all later ones do. -/
def Monotone (stop : α → Bool) (row : List α) : Prop :=
  row.Pairwise fun left right => stop left = true → stop right = true

variable {stop : α → Bool}

omit [DecidableEq α] in
theorem Monotone.takeWhile_eq (hmonotone : Monotone stop row) :
    (row.takeWhile fun next => !stop next) = row.filter fun next => !stop next := by
  induction row with
  | nil => rfl
  | cons head rest ih =>
    obtain ⟨hhead, hrest⟩ := List.pairwise_cons.1 hmonotone
    by_cases hstop : stop head = true
    · have hnone : rest.filter (fun next => !stop next) = [] := by
        rw [List.filter_eq_nil_iff]
        intro other hother
        simp [hhead other hother hstop]
      simp [hstop, hnone]
    · simp [hstop, ih hrest]

omit [DecidableEq α] in
theorem Monotone.dropWhile_eq (hmonotone : Monotone stop row) :
    (row.dropWhile fun next => !stop next) = row.filter stop := by
  induction row with
  | nil => rfl
  | cons head rest ih =>
    obtain ⟨hhead, hrest⟩ := List.pairwise_cons.1 hmonotone
    by_cases hstop : stop head = true
    · have hall : rest.filter stop = rest := by
        rw [List.filter_eq_self]
        intro other hother
        exact hhead other hother hstop
      simp [hstop, hall]
    · simp [hstop, ih hrest]

/-- Entering a row at a node before the end of the walk makes no difference. -/
theorem walk_behind {node : α} (hmem : node ∈ row.takeWhile fun next => !stop next) :
    walk stop (some node) (behind row (some node)) =
      (row.takeWhile fun next => !stop next).getLast? := by
  induction row with
  | nil => simp at hmem
  | cons head rest ih =>
    rw [List.takeWhile_cons] at hmem ⊢
    by_cases hstop : stop head = true
    · simp [hstop] at hmem
    · rw [Bool.not_eq_true] at hstop
      simp only [hstop, Bool.not_false, if_true] at hmem ⊢
      by_cases heq : head = node
      · subst heq
        simp only [behind, ne_eq, not_true_eq_false, decide_false, Bool.false_eq_true,
          not_false_eq_true, List.dropWhile_cons_of_neg, List.tail_cons]
        rw [walk_eq, List.getLast?_cons]
        cases (rest.takeWhile fun next => !stop next).getLast? <;> rfl
      · have hrest : node ∈ rest.takeWhile fun next => !stop next :=
          (List.mem_cons.1 hmem).resolve_left fun hsame => heq hsame.symm
        have hbehind : behind (head :: rest) (some node) = behind rest (some node) := by
          simp [behind, heq]
        rw [hbehind, ih hrest, List.getLast?_cons]
        cases hlast : (rest.takeWhile fun next => !stop next).getLast? with
        | none =>
          rw [List.getLast?_eq_none_iff] at hlast
          simp [hlast] at hrest
        | some last => rfl

/-- The rows up to the bottom one: each is a sublist of the next. -/
def Layered (rows : ℕ → List α) (levels : ℕ) : Prop :=
  ∀ row, row + 1 < levels → (rows row).Sublist (rows (row + 1))

variable {rows : ℕ → List α} {levels : ℕ}

theorem Layered.erase (hlayered : Layered rows levels) (element : α) :
    Layered (fun row => (rows row).erase element) levels :=
  fun row hrow => (hlayered row hrow).erase element

omit [DecidableEq α] in
theorem Layered.sublist_bottom {row : ℕ} (hlayered : Layered rows (levels + 1))
    (hrow : row ≤ levels) : (rows row).Sublist (rows levels) := by
  induction levels with
  | zero =>
    obtain rfl : row = 0 := by omega
    exact List.Sublist.refl _
  | succ levels ih =>
    rcases Nat.lt_or_ge row (levels + 1) with hlt | hge
    · have hupper : Layered rows (levels + 1) := fun row hrow => hlayered row (by omega)
      exact (ih hupper (by omega)).trans (hlayered levels (by omega))
    · obtain rfl : row = levels + 1 := by omega
      exact List.Sublist.refl _

/-- The search ends in every row at the last element that does not stop it. -/
theorem search_eq (hlayered : Layered rows levels)
    (hmonotone : ∀ row, row < levels → Monotone stop (rows row)) {row : ℕ} (hrow : row < levels) :
    search stop rows row = ((rows row).takeWhile fun next => !stop next).getLast? := by
  induction row with
  | zero => rw [search, walk_eq, Option.or_none]
  | succ row ih =>
    rw [search, ih (by omega)]
    cases hlast : ((rows row).takeWhile fun next => !stop next).getLast? with
    | none => rw [behind, walk_eq, Option.or_none]
    | some node =>
      have hnode := List.mem_of_getLast? hlast
      rw [(hmonotone row (by omega)).takeWhile_eq, List.mem_filter] at hnode
      apply walk_behind
      rw [(hmonotone (row + 1) hrow).takeWhile_eq, List.mem_filter]
      exact ⟨(hlayered row hrow).subset hnode.1, hnode.2⟩

/-- Linking behind the last element that does not stop is an ordered insertion. -/
theorem insertAfter_takeWhile (hnodup : row.Nodup) (element : α) :
    insertAfter row (row.takeWhile fun next => !stop next).getLast? element =
      row.orderedInsert (fun _ next => stop next = true) element := by
  induction row with
  | nil => rfl
  | cons head rest ih =>
    rw [List.takeWhile_cons, List.orderedInsert_cons]
    by_cases hstop : stop head = true
    · simp [hstop, insertAfter]
    · have hrest := ih (List.nodup_cons.1 hnodup).2
      simp only [hstop, Bool.not_false, if_true, Bool.false_eq_true, if_false,
        List.getLast?_cons]
      cases hlast : (rest.takeWhile fun next => !stop next).getLast? with
      | none =>
        rw [hlast, insertAfter] at hrest
        simp [insertAfter, ← hrest]
      | some last =>
        have hmem : last ∈ rest :=
          (List.takeWhile_sublist _).subset (List.mem_of_getLast? hlast)
        have hne : head ≠ last := fun heq => (List.nodup_cons.1 hnodup).1 (heq ▸ hmem)
        rw [hlast] at hrest
        simp [insertAfter, hne, hrest]

omit [DecidableEq α] in
/-- Ordered insertion into two rows keeps one a sublist of the other. -/
theorem sublist_orderedInsert {upper lower : List α} {element : α} (hsublist : upper.Sublist lower)
    (hlower : Monotone stop lower) :
    (upper.orderedInsert (fun _ next => stop next = true) element).Sublist
      (lower.orderedInsert (fun _ next => stop next = true) element) := by
  have hupper : Monotone stop upper := List.Pairwise.sublist hsublist hlower
  have hsplit : ∀ row : List α, Monotone stop row →
      row.orderedInsert (fun _ next => stop next = true) element =
        row.filter (fun next => !stop next) ++ element :: row.filter stop := by
    intro row hrow
    rw [List.orderedInsert_eq_take_drop, ← hrow.takeWhile_eq, ← hrow.dropWhile_eq]
    simp
  rw [hsplit upper hupper, hsplit lower hlower]
  exact (hsublist.filter _).append ((hsublist.filter _).cons_cons element)

/-- Linking an element where the search has ended is an ordered insertion, in every
row. -/
theorem insertAfter_search {row : ℕ} (hlayered : Layered rows levels)
    (hmonotone : ∀ row, row < levels → Monotone stop (rows row)) (hrow : row < levels)
    (hnodup : (rows row).Nodup) (element : α) :
    insertAfter (rows row) (search stop rows row) element =
      (rows row).orderedInsert (fun _ next => stop next = true) element := by
  rw [search_eq hlayered hmonotone hrow, insertAfter_takeWhile hnodup]

omit [DecidableEq α] in
/-- Inserting into the bottom row and some rows right above it keeps the layers. -/
theorem Layered.orderedInsert {linked : ℕ → Prop} [DecidablePred linked]
    (hlayered : Layered rows levels) (hmonotone : ∀ row, row < levels → Monotone stop (rows row))
    (hlinked : ∀ row, row + 1 < levels → linked row → linked (row + 1)) (element : α) :
    Layered (fun row =>
      if linked row then (rows row).orderedInsert (fun _ next => stop next = true) element
      else rows row) levels := by
  intro row hrow
  have hsublist := hlayered row hrow
  by_cases hupper : linked row
  · simp only [hupper, hlinked row hrow hupper, if_true]
    exact sublist_orderedInsert hsublist (hmonotone (row + 1) hrow)
  · simp only [hupper, if_false]
    split
    · exact hsublist.trans (List.sublist_orderedInsert _ _)
    · exact hsublist

end RtThread.Core.LayeredList
