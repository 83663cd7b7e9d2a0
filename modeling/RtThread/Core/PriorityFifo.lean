import Mathlib

set_option linter.all false

/-!
# Queues with priorities

A queue in the order of arrival, in which every item has a level.  The item that is
taken is the oldest one of the lowest level that is present.  A program keeps one
list for each level instead; `level` is what such a list contains.
-/

namespace RtThread.Core.PriorityFifo

variable {α β : Type*}

/-- The items of one level, the oldest first. -/
def level (queue : List (ℕ × α)) (number : ℕ) : List α :=
  (queue.filter fun item => item.1 = number).map Prod.snd

/-- The oldest item of the lowest level, and the queue without it. -/
def pop (queue : List (ℕ × α)) : Option ((ℕ × α) × List (ℕ × α)) :=
  match (queue.map Prod.fst).min? with
  | none => none
  | some number => (queue.find? fun item => item.1 = number).map fun item =>
    (item, queue.eraseP fun item => item.1 = number)

@[simp]
theorem level_nil (number : ℕ) : level ([] : List (ℕ × α)) number = [] := rfl

theorem level_cons (head : ℕ × α) (queue : List (ℕ × α)) (number : ℕ) :
    level (head :: queue) number =
      if head.1 = number then head.2 :: level queue number else level queue number := by
  by_cases hhead : head.1 = number <;> simp [level, hhead]

theorem level_append (queue : List (ℕ × α)) (item : ℕ × α) (number : ℕ) :
    level (queue ++ [item]) number =
      if item.1 = number then level queue number ++ [item.2] else level queue number := by
  rw [level, List.filter_append, List.map_append]
  split
  · rename_i heq
    simp [heq, level]
  · rename_i hne
    simp [hne, level]

theorem level_map (f : α → β) (queue : List (ℕ × α)) (number : ℕ) :
    level (queue.map (Prod.map id f)) number = (level queue number).map f := by
  rw [level, level, List.filter_map, List.map_map, List.map_map]
  rfl

variable {queue : List (ℕ × α)} {number : ℕ}

theorem mem_level {item : α} : item ∈ level queue number ↔ (number, item) ∈ queue := by
  simp only [level, List.mem_map, List.mem_filter, decide_eq_true_eq, Prod.exists]
  constructor
  · rintro ⟨_, _, ⟨hmem, rfl⟩, rfl⟩
    exact hmem
  · intro hmem
    exact ⟨number, item, ⟨hmem, rfl⟩, rfl⟩

/-- Taking the first item of one level leaves the other levels alone. -/
theorem level_eraseP {first : α} {rest : List α} (hlevel : level queue number = first :: rest) :
    queue.find? (fun item => item.1 = number) = some (number, first) ∧
      (∀ other, level (queue.eraseP fun item => item.1 = number) other =
        if other = number then rest else level queue other) ∧
      queue.Perm ((number, first) :: queue.eraseP fun item => item.1 = number) := by
  induction queue with
  | nil => cases hlevel
  | cons head tail ih =>
    rw [level_cons] at hlevel
    by_cases heq : head.1 = number
    · rw [if_pos heq, List.cons.injEq] at hlevel
      obtain ⟨rfl, hrest⟩ := hlevel
      have hhead : (number, head.2) = head := by rw [← heq]
      rw [List.find?_cons_of_pos (by simpa using heq), List.eraseP_cons_of_pos (by simpa using heq),
        hhead]
      refine ⟨rfl, fun other => ?_, List.Perm.refl _⟩
      rw [level_cons]
      split
      · rename_i hother
        rw [hother]
        exact hrest
      · rename_i hother
        rw [if_neg fun h => hother (h.symm.trans heq)]
    · rw [if_neg heq] at hlevel
      obtain ⟨hfind, hlevels, hperm⟩ := ih hlevel
      rw [List.find?_cons_of_neg (by simpa using heq), List.eraseP_cons_of_neg (by simpa using heq)]
      refine ⟨hfind, fun other => ?_, (hperm.cons head).trans (List.Perm.swap ..)⟩
      rw [level_cons, level_cons, hlevels]
      by_cases hnumber : other = number
      · rw [hnumber, if_neg heq, if_pos rfl, if_pos rfl]
      · rw [if_neg hnumber, if_neg hnumber]

/-- Where the lowest level that has items is known, it is the first of them that is
taken. -/
theorem pop_of_lowest {first : α} {rest : List α} (hlevel : level queue number = first :: rest)
    (hlowest : ∀ other < number, level queue other = []) :
    ∃ after, pop queue = some ((number, first), after) ∧
      (∀ other, level after other = if other = number then rest else level queue other) ∧
      queue.Perm ((number, first) :: after) := by
  obtain ⟨hfind, hlevels, hperm⟩ := level_eraseP hlevel
  refine ⟨_, ?_, hlevels, hperm⟩
  have hmin : (queue.map Prod.fst).min? = some number := by
    rw [List.min?_eq_some_iff]
    constructor
    · exact List.mem_map.2 ⟨_, hperm.mem_iff.2 List.mem_cons_self, rfl⟩
    · intro other hother
      obtain ⟨item, hitem, rfl⟩ := List.mem_map.1 hother
      by_contra hlt
      have hmem : item.2 ∈ level queue item.1 := mem_level.2 hitem
      rw [hlowest item.1 (by omega)] at hmem
      cases hmem
  simp only [pop, hmin, hfind, Option.map_some]

/-- What is taken leaves the queue, and nothing else does. -/
theorem perm_of_pop {after : List (ℕ × α)} {item : ℕ × α} (hpop : pop queue = some (item, after)) :
    queue.Perm (item :: after) := by
  rw [pop] at hpop
  split at hpop
  · cases hpop
  · rename_i number _
    obtain ⟨found, hfound, heq⟩ := Option.map_eq_some_iff.1 hpop
    cases heq
    obtain ⟨first, before, rest, hbefore, hfirst, hqueue, herase⟩ :=
      List.exists_of_eraseP (List.mem_of_find?_eq_some hfound) (List.find?_some hfound)
    have hsame : queue.find? (fun item => item.1 = number) = some first := by
      rw [hqueue, List.find?_append, List.find?_eq_none.2 hbefore, Option.none_or,
        List.find?_cons_of_pos (by simpa using hfirst)]
    rw [hfound, Option.some.injEq] at hsame
    rw [herase, hsame]
    conv_lhs => rw [hqueue]
    exact List.perm_middle

theorem perm_of_level_eq [DecidableEq α] {other : List (ℕ × α)}
    (hlevel : ∀ number, level queue number = level other number) : queue.Perm other := by
  have hcount : ∀ (items : List (ℕ × α)) (item : ℕ × α),
      items.count item = (level items item.1).count item.2 := by
    intro items item
    induction items with
    | nil => rfl
    | cons head tail ih =>
      rw [level_cons, List.count_cons, ih]
      by_cases hnumber : head.1 = item.1
      · rw [if_pos hnumber, List.count_cons]
        have heq : head = item ↔ head.2 = item.2 :=
          ⟨fun h => by rw [h], fun h => Prod.ext hnumber h⟩
        simp only [beq_iff_eq, heq]
      · have hne : head ≠ item := fun h => hnumber (by rw [h])
        simp [hnumber, hne]
  rw [List.perm_iff_count]
  intro item
  rw [hcount, hcount, hlevel]

/-- The contents of the items do not matter for what is taken. -/
theorem pop_map (f : α → β) (queue : List (ℕ × α)) :
    pop (queue.map (Prod.map id f)) =
      (pop queue).map fun result => (Prod.map id f result.1, result.2.map (Prod.map id f)) := by
  have hnumbers : (queue.map (Prod.map id f)).map Prod.fst = queue.map Prod.fst := by
    rw [List.map_map]
    rfl
  rw [pop, pop, hnumbers]
  cases (queue.map Prod.fst).min? with
  | none => rfl
  | some number =>
    simp only [List.find?_map, List.eraseP_map, Option.map_map, Function.comp_def, Prod.map_fst,
      id_eq]

end RtThread.Core.PriorityFifo
