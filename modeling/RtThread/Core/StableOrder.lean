import Mathlib

set_option linter.all false

/-!
# Queues ordered by key, then by arrival

A stable priority queue keeps its elements by increasing key, and elements of
one key by increasing arrival stamp.  Inserting the newest element before the
first strictly larger key keeps that order; changing the key of one element
keeps it exactly when the element still fits between its neighbours.
-/

namespace RtThread.Core.StableOrder

open Function

variable {α κ : Type*} [LinearOrder κ]

/-- `left` has the smaller key, or the same key and the earlier stamp. -/
def Before (key : α → κ) (stamp : α → ℕ) (left right : α) : Prop :=
  key left < key right ∨ key left = key right ∧ stamp left < stamp right

/-- The whole queue is in key order, ties in stamp order. -/
def Ordered (key : α → κ) (stamp : α → ℕ) (queue : List α) : Prop :=
  queue.Pairwise (Before key stamp)

instance (key : α → κ) (stamp : α → ℕ) : DecidableRel (Before key stamp) :=
  fun _ _ => inferInstanceAs (Decidable (_ ∨ _))

instance (key : α → κ) (stamp : α → ℕ) : DecidablePred (Ordered key stamp) :=
  fun _ => inferInstanceAs (Decidable (List.Pairwise _ _))

variable {key : α → κ} {stamp : α → ℕ}

theorem Before.trans {left middle right : α} (hleft : Before key stamp left middle)
    (hright : Before key stamp middle right) : Before key stamp left right := by
  unfold Before at *
  grind

variable {queue : List α}

/-- The order depends only on the keys and stamps of the queued elements. -/
theorem Ordered.congr {key' : α → κ} {stamp' : α → ℕ}
    (hkey : ∀ element ∈ queue, key' element = key element)
    (hstamp : ∀ element ∈ queue, stamp' element = stamp element)
    (hordered : Ordered key stamp queue) : Ordered key' stamp' queue := by
  refine List.Pairwise.imp_of_mem (fun {left right} hleft hright hbefore => ?_) hordered
  unfold Before at *
  rw [hkey _ hleft, hkey _ hright, hstamp _ hleft, hstamp _ hright]
  exact hbefore

theorem Ordered.sublist {part : List α} (hpart : part.Sublist queue)
    (hordered : Ordered key stamp queue) : Ordered key stamp part :=
  List.Pairwise.sublist hpart hordered

/-- The head of an ordered queue precedes every other element. -/
theorem Ordered.head_before {head : α} {rest : List α}
    (hordered : Ordered key stamp (head :: rest)) :
    ∀ element ∈ rest, Before key stamp head element :=
  (List.pairwise_cons.1 hordered).1

/-- Inserting the newest element before the first strictly larger key. -/
theorem Ordered.orderedInsert {element : α} (hlatest : ∀ other ∈ queue, stamp other < stamp element)
    (hordered : Ordered key stamp queue) : Ordered key stamp
      (queue.orderedInsert (fun left right => key left < key right) element) := by
  induction queue with
  | nil => exact List.pairwise_singleton _ _
  | cons head rest ih =>
    have hhead := hordered.head_before
    have hrest := ih (fun other hother => hlatest other (List.mem_cons_of_mem _ hother))
      (List.pairwise_cons.1 hordered).2
    rw [List.orderedInsert]
    split_ifs with hless
    · refine List.pairwise_cons.2 ⟨fun other hother => ?_, hordered⟩
      have hfirst : Before key stamp element head := .inl hless
      rcases List.mem_cons.1 hother with rfl | hother
      · exact hfirst
      · exact hfirst.trans (hhead other hother)
    · refine List.pairwise_cons.2 ⟨fun other hother => ?_, hrest⟩
      rcases (List.mem_orderedInsert _).1 hother with rfl | hother
      · rcases (not_lt.1 hless).lt_or_eq with hlt | heq
        · exact .inl hlt
        · exact .inr ⟨heq, hlatest head List.mem_cons_self⟩
      · exact hhead other hother

/-- Inserting before the first strictly larger key, without regard to arrival. -/
theorem pairwise_le_orderedInsert (hsorted : queue.Pairwise fun left right => key left ≤ key right)
    (element : α) : (queue.orderedInsert (fun left right => key left < key right) element).Pairwise
      fun left right => key left ≤ key right := by
  induction queue with
  | nil => exact List.pairwise_singleton _ _
  | cons head rest ih =>
    obtain ⟨hhead, hrest⟩ := List.pairwise_cons.1 hsorted
    rw [List.orderedInsert]
    split_ifs with hless
    · refine List.pairwise_cons.2 ⟨fun other hother => ?_, hsorted⟩
      rcases List.mem_cons.1 hother with rfl | hother
      · exact hless.le
      · exact hless.le.trans (hhead other hother)
    · refine List.pairwise_cons.2 ⟨fun other hother => ?_, ih hrest⟩
      rcases (List.mem_orderedInsert _).1 hother with rfl | hother
      · exact not_lt.1 hless
      · exact hhead other hother

/-- An ordered insertion depends only on how the new element compares. -/
theorem orderedInsert_congr {before before' : α → α → Prop} [DecidableRel before]
    [DecidableRel before'] {element : α}
    (hsame : ∀ other ∈ queue, before element other ↔ before' element other) :
    queue.orderedInsert before element = queue.orderedInsert before' element := by
  induction queue with
  | nil => rfl
  | cons head rest ih =>
    have hhead := hsame head List.mem_cons_self
    rw [List.orderedInsert_cons, List.orderedInsert_cons,
      ih fun other hother => hsame other (List.mem_cons_of_mem _ hother)]
    simp only [hhead]

section Rekey

variable [DecidableEq α]

/-- The place of `element` is still right if its key becomes `value`. -/
def Fits (key : α → κ) (stamp : α → ℕ) (queue : List α) (element : α) (value : κ) :
    Prop :=
  ∀ front back, queue = front ++ element :: back →
    (∀ other ∈ front, key other < value ∨ key other = value ∧ stamp other < stamp element) ∧
    (∀ other ∈ back, value < key other ∨ value = key other ∧ stamp element < stamp other)

/-- The order of a queue after a key change, seen from the changed element. -/
private theorem ordered_update_split {front back : List α} {element : α} {value : κ}
    (hnodup : (front ++ element :: back).Nodup)
    (hordered : Ordered key stamp (front ++ element :: back)) :
    Ordered (update key element value) stamp (front ++ element :: back) ↔
      (∀ other ∈ front,
        key other < value ∨ key other = value ∧ stamp other < stamp element) ∧
      (∀ other ∈ back,
        value < key other ∨ value = key other ∧ stamp element < stamp other) := by
  have hnotMem : element ∉ front ++ back :=
    (List.nodup_cons.1 (List.nodup_middle.1 hnodup)).1
  rw [List.mem_append, not_or] at hnotMem
  have hfront : ∀ other ∈ front, update key element value other = key other :=
    fun other hother => update_of_ne (ne_of_mem_of_not_mem hother hnotMem.1) _ _
  have hback : ∀ other ∈ back, update key element value other = key other :=
    fun other hother => update_of_ne (ne_of_mem_of_not_mem hother hnotMem.2) _ _
  have hself : update key element value element = value :=
    update_self _ _ _
  -- pairs that do not involve the changed element keep their order
  have hrest : Ordered (update key element value) stamp (front ++ back) :=
    (hordered.sublist
      (List.Sublist.append_left (List.sublist_cons_self element back) front)).congr
      (fun other hother => (List.mem_append.1 hother).elim (hfront other) (hback other))
      (fun _ _ => rfl)
  have hparts := List.pairwise_append.1 hrest
  rw [Ordered]
  rw [List.pairwise_append, List.pairwise_cons]
  constructor
  · rintro ⟨-, ⟨hafter, -⟩, hacross⟩
    refine ⟨fun other hother => ?_, fun other hother => ?_⟩
    · have hbefore := hacross other hother element List.mem_cons_self
      rwa [Before, hfront other hother, hself] at hbefore
    · have hbefore := hafter other hother
      rwa [Before, hback other hother, hself] at hbefore
  · rintro ⟨hbefore, hafter⟩
    refine ⟨hparts.1, ⟨fun other hother => ?_, hparts.2.1⟩, fun other hother right hright => ?_⟩
    · rw [Before, hback other hother, hself]
      exact hafter other hother
    · rcases List.mem_cons.1 hright with rfl | hright
      · rw [Before, hfront other hother, hself]
        exact hbefore other hother
      · exact hparts.2.2 other hother right hright

/-- Changing one key keeps an ordered queue ordered exactly when the element
still fits where it stands. -/
theorem Ordered.update_iff {queue : List α} {element : α} {value : κ}
    (hnodup : queue.Nodup) (hordered : Ordered key stamp queue) :
    Ordered (update key element value) stamp queue ↔
      Fits key stamp queue element value := by
  constructor
  · rintro hupdated front back rfl
    exact (ordered_update_split hnodup hordered).1 hupdated
  · intro hfits
    by_cases hmem : element ∈ queue
    · obtain ⟨front, back, rfl⟩ := List.append_of_mem hmem
      exact (ordered_update_split hnodup hordered).2 (hfits front back rfl)
    · exact hordered.congr
        (fun other hother => update_of_ne (ne_of_mem_of_not_mem hother hmem) _ _)
        (fun _ _ => rfl)

end Rekey

end RtThread.Core.StableOrder
