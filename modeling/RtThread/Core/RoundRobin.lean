import RtThread.Core.Machine

set_option linter.all false

/-!
# Turns in a queue

Elements enter a queue at its end and may leave it anywhere.  What stands ahead of an
element that stays can then only become less, and an element that has had its turn
from the front is not ahead any more.
-/

namespace RtThread.Core

namespace RoundRobin

variable {α : Type*} [DecidableEq α]

/-- The elements ahead of `element`. -/
def ahead (element : α) (queue : List α) : List α :=
  queue.takeWhile fun other => other ≠ element

@[simp]
theorem ahead_cons_self (element : α) (rest : List α) : ahead element (element :: rest) = [] := by
  simp [ahead]

variable {element : α}

theorem ahead_cons_of_ne {head : α} (hne : head ≠ element) (rest : List α) :
    ahead element (head :: rest) = head :: ahead element rest := by
  simp [ahead, hne]

variable {queue : List α}

theorem mem_of_mem_ahead {other : α} (hahead : other ∈ ahead element queue) : other ∈ queue :=
  (List.takeWhile_prefix _).subset hahead

/-- What enters at the end is not ahead of an element of the queue. -/
theorem ahead_append (hmem : element ∈ queue) (new : List α) :
    ahead element (queue ++ new) = ahead element queue := by
  induction queue with
  | nil => exact absurd hmem List.not_mem_nil
  | cons head rest ih =>
    rw [List.cons_append]
    by_cases hne : head = element
    · rw [hne, ahead_cons_self, ahead_cons_self]
    · have hrest : element ∈ rest := (List.mem_cons.1 hmem).resolve_left (Ne.symm hne)
      rw [ahead_cons_of_ne hne, ahead_cons_of_ne hne, ih hrest]

/-- What leaves the queue uncovers nothing new ahead of the others. -/
theorem ahead_erase_subset {gone : α} (hne : gone ≠ element) (queue : List α) :
    ahead element (queue.erase gone) ⊆ ahead element queue := by
  induction queue with
  | nil => exact List.Subset.refl _
  | cons head rest ih =>
    by_cases hgone : head = gone
    · have hhead : head ≠ element := hgone ▸ hne
      rw [hgone, List.erase_cons_head, ← hgone, ahead_cons_of_ne hhead]
      exact List.subset_cons_self _ _
    · rw [List.erase_cons_tail (by simpa using hgone)]
      by_cases hself : head = element
      · rw [hself, ahead_cons_self]
        exact List.nil_subset _
      · rw [ahead_cons_of_ne hself, ahead_cons_of_ne hself]
        exact List.cons_subset_cons head ih

/-- As long as the element stays, nothing gets ahead of it. -/
def KeepsTurn (element : α) (queue next : List α) : Prop :=
  element ∈ queue → element ∈ next → ahead element next ⊆ ahead element queue

theorem KeepsTurn.refl (element : α) (queue : List α) : KeepsTurn element queue queue :=
  fun _ _ => List.Subset.refl _

theorem KeepsTurn.trans {middle next : List α} (hleft : KeepsTurn element queue middle)
    (hright : KeepsTurn element middle next)
    (hmiddle : element ∈ queue → element ∈ next → element ∈ middle) :
    KeepsTurn element queue next := by
  intro hqueue hnext
  have hmem := hmiddle hqueue hnext
  exact List.Subset.trans (hright hmem hnext) (hleft hqueue hmem)

theorem KeepsTurn.append (element : α) (queue new : List α) :
    KeepsTurn element queue (queue ++ new) := by
  intro hqueue _
  rw [ahead_append hqueue]
  exact List.Subset.refl _

theorem KeepsTurn.erase (hnodup : queue.Nodup) (element gone : α) :
    KeepsTurn element queue (queue.erase gone) := by
  intro _ hnext
  have hne : gone ≠ element := by
    intro heq
    rw [heq] at hnext
    exact hnodup.not_mem_erase hnext
  exact ahead_erase_subset hne queue

end RoundRobin

namespace Machine.RunWith

variable {State Action Event : Type*} {machine : Machine State Action Event}
variable {good : State → Action → Prop} {first last : State} {trace : List (Action × Event)}

/-- At most once: a condition that never comes back, and that every counted step needs and
ends. -/
theorem countP_le_one (condition : State → Prop) (counted : Action × Event → Bool)
    (inv : State → Prop)
    (hpreserve : ∀ st act next event, inv st → good st act →
      machine.step st act = some (next, event) → inv next)
    (hkeep : ∀ st act next event, inv st → good st act →
      machine.step st act = some (next, event) → condition next → condition st)
    (hcounted : ∀ st act next event, inv st → good st act →
      machine.step st act = some (next, event) → counted (act, event) = true →
        condition st ∧ ¬ condition next)
    (hfirst : inv first) (hrun : machine.RunWith good first trace last) :
    trace.countP counted ≤ 1 ∧ (¬ condition first → trace.countP counted = 0) := by
  induction hrun with
  | nil _ => simp
  | @cons first next last act event trace hgood hstep _ ih =>
    obtain ⟨honce, hnever⟩ := ih (hpreserve _ _ _ _ hfirst hgood hstep)
    by_cases hcount : counted (act, event) = true
    · obtain ⟨hbefore, hafter⟩ := hcounted _ _ _ _ hfirst hgood hstep hcount
      rw [List.countP_cons_of_pos hcount, hnever hafter]
      exact ⟨le_rfl, fun hnot => absurd hbefore hnot⟩
    · rw [List.countP_cons_of_neg hcount]
      refine ⟨honce, fun hnot => hnever fun hafter => hnot ?_⟩
      exact hkeep _ _ _ _ hfirst hgood hstep hafter

end Machine.RunWith

end RtThread.Core
