import Mathlib

set_option linter.all false

/-!
# Doubly linked rings

A ring is a circular list of nodes with a forward and a backward link each.  The links do not
say where the ring begins, so every rotation of its list is the same ring, and the two edits
of a ring, a node linked in behind another one and a node taken out, need to be studied at
the front of the list only.
-/

namespace RtThread.Core

open Function

variable {α : Type*} {next prev next' prev' : α → α} {nodes before rest : List α} {node fresh : α}

/-- Consecutive nodes are linked both ways. -/
def Linked (next prev : α → α) (nodes : List α) : Prop :=
  nodes.IsChain fun left right => next left = right ∧ prev right = left

/-- The nodes are linked, and the last one is linked to the first. -/
def Ring (next prev : α → α) : List α → Prop
  | [] => True
  | node :: rest => Linked next prev (node :: rest ++ [node])

theorem Linked.congr {last : α} (hlinked : Linked next prev (node :: rest ++ [last]))
    (hnext : ∀ left ∈ node :: rest, next' left = next left)
    (hprev : ∀ right, right ∈ rest ∨ right = last → prev' right = prev right) :
    Linked next' prev' (node :: rest ++ [last]) := by
  induction rest generalizing node with
  | nil =>
    obtain ⟨⟨hforward, hback⟩, hrest⟩ := List.isChain_cons_cons.1 hlinked
    refine List.isChain_cons_cons.2 ⟨⟨?_, ?_⟩, List.isChain_singleton last⟩
    · exact (hnext node List.mem_cons_self).trans hforward
    · exact (hprev last (.inr rfl)).trans hback
  | cons other rest ih =>
    obtain ⟨⟨hforward, hback⟩, hrest⟩ := List.isChain_cons_cons.1 hlinked
    obtain ⟨hnode, hnext⟩ := List.forall_mem_cons.1 hnext
    have hother := hprev other (.inl List.mem_cons_self)
    refine List.isChain_cons_cons.2 ⟨⟨hnode.trans hforward, hother.trans hback⟩, ?_⟩
    refine ih hrest hnext fun right hright => hprev right ?_
    exact hright.imp (List.mem_cons_of_mem other) id

/-- A ring that does not see the links that were written is still there. -/
theorem Ring.congr (hring : Ring next prev nodes) (hnext : ∀ node ∈ nodes, next' node = next node)
    (hprev : ∀ node ∈ nodes, prev' node = prev node) : Ring next' prev' nodes := by
  cases nodes with
  | nil => trivial
  | cons node rest =>
    refine Linked.congr hring hnext fun right hright => hprev right ?_
    rw [List.mem_cons]
    exact hright.symm

theorem ring_cons_cons : Ring next prev (node :: fresh :: rest) ↔
    Ring next prev (fresh :: rest ++ [node]) := by
  have hleft : Ring next prev (node :: fresh :: rest) ↔
      (next node = fresh ∧ prev fresh = node) ∧ Linked next prev (fresh :: (rest ++ [node])) :=
    List.isChain_cons_cons
  have hright : Ring next prev (fresh :: rest ++ [node]) ↔
      Linked next prev (fresh :: (rest ++ [node])) ∧ (next node = fresh ∧ prev fresh = node) := by
    change Linked next prev (fresh :: rest ++ [node] ++ [fresh]) ↔ _
    rw [Linked, List.append_assoc, List.singleton_append, List.isChain_split]
    simp [Linked]
  rw [hleft, hright, and_comm]

theorem ring_append_comm {after : List α} :
    Ring next prev (before ++ after) ↔ Ring next prev (after ++ before) := by
  induction before generalizing after with
  | nil => rw [List.nil_append, List.append_nil]
  | cons node before ih =>
    cases hrest : before ++ after with
    | nil =>
      obtain ⟨rfl, rfl⟩ := List.append_eq_nil_iff.1 hrest
      exact Iff.rfl
    | cons other rest =>
      have hrotated : Ring next prev (other :: rest ++ [node]) ↔
          Ring next prev (before ++ (after ++ [node])) := by
        rw [← hrest, List.append_assoc]
      rw [List.cons_append, hrest, ring_cons_cons, hrotated, ih, List.append_assoc,
        List.singleton_append]

theorem Ring.next_eq {other : α} (hring : Ring next prev (node :: other :: rest)) :
    next node = other ∧ prev other = node :=
  (List.isChain_cons_cons.1 hring).1

theorem Ring.next_singleton (hring : Ring next prev [node]) : next node = node ∧ prev node = node :=
  (List.isChain_cons_cons.1 hring).1

/-- The links between two neighbours anywhere in the list. -/
theorem Ring.next_eq_of_append {other : α}
    (hring : Ring next prev (before ++ node :: other :: rest)) :
    next node = other ∧ prev other = node :=
  (ring_append_comm.1 hring).next_eq

/-- The last node of the list is linked to the first one. -/
theorem Ring.next_last {last : α} (hring : Ring next prev (node :: rest ++ [last])) :
    next last = node ∧ prev node = last :=
  (ring_append_comm.1 hring).next_eq

variable [DecidableEq α]

theorem Ring.insert (hring : Ring next prev (node :: rest)) (hnodup : (node :: rest).Nodup)
    (hfresh : fresh ∉ node :: rest) :
    Ring (update (update next fresh (next node)) node fresh)
      (update (update prev fresh node) (next node) fresh)
      (node :: fresh :: rest) := by
  rw [List.mem_cons, not_or] at hfresh
  obtain ⟨hnode, hfresh⟩ := hfresh
  obtain ⟨hnot, hrest⟩ := List.nodup_cons.1 hnodup
  cases rest with
  | nil =>
    have hself := hring.next_singleton
    simp [Ring, Linked, hself.1, hnode]
  | cons other rest =>
    rw [List.mem_cons, not_or] at hnot hfresh
    obtain ⟨⟨hnext, hprev⟩, hlinked⟩ := List.isChain_cons_cons.1 hring
    rw [hnext]
    refine List.isChain_cons_cons.2 ⟨⟨update_self .., ?_⟩,
      List.isChain_cons_cons.2 ⟨⟨?_, update_self ..⟩, ?_⟩⟩
    · rw [update_of_ne hfresh.1, update_self]
    · rw [update_of_ne hnode, update_self]
    · refine Linked.congr hlinked (fun left hleft => ?_) fun right hright => ?_
      · have hne : left ≠ node := by
          rintro rfl
          rcases List.mem_cons.1 hleft with heq | hmem
          · exact hnot.1 heq
          · exact hnot.2 hmem
        have hne' : left ≠ fresh := by
          rintro rfl
          rcases List.mem_cons.1 hleft with heq | hmem
          · exact hfresh.1 heq
          · exact hfresh.2 hmem
        rw [update_of_ne hne, update_of_ne hne']
      · have hne : right ≠ other := by
          rintro rfl
          rcases hright with hmem | heq
          · exact (List.nodup_cons.1 hrest).1 hmem
          · exact hnot.1 heq.symm
        have hne' : right ≠ fresh := by
          rintro rfl
          rcases hright with hmem | heq
          · exact hfresh.2 hmem
          · exact hnode heq
        rw [update_of_ne hne, update_of_ne hne']

theorem Ring.remove {gone : α} (hring : Ring next prev (node :: gone :: rest))
    (hnodup : (node :: gone :: rest).Nodup) :
    Ring (update next node (next gone)) (update prev (next gone) node)
      (node :: rest) := by
  obtain ⟨hnot, hrest⟩ := List.nodup_cons.1 hnodup
  obtain ⟨-, hlinked⟩ := List.isChain_cons_cons.1 hring
  cases rest with
  | nil =>
    have hnext : next gone = node := (List.isChain_cons_cons.1 hlinked).1.1
    simp [Ring, Linked, hnext]
  | cons other rest =>
    obtain ⟨⟨hnext, -⟩, hlinked⟩ := List.isChain_cons_cons.1 hlinked
    rw [hnext]
    simp only [List.mem_cons, not_or] at hnot
    refine List.isChain_cons_cons.2 ⟨⟨update_self .., update_self ..⟩, ?_⟩
    refine Linked.congr hlinked (fun left hleft => ?_) fun right hright => ?_
    · refine update_of_ne ?_ ..
      rintro rfl
      rcases List.mem_cons.1 hleft with heq | hmem
      · exact hnot.2.1 heq
      · exact hnot.2.2 hmem
    · refine update_of_ne ?_ ..
      rintro rfl
      rcases hright with hmem | heq
      · exact (List.nodup_cons.1 (List.nodup_cons.1 hrest).2).1 hmem
      · exact hnot.2.1 heq.symm

theorem Ring.insert_append (hring : Ring next prev (before ++ node :: rest))
    (hnodup : (before ++ node :: rest).Nodup) (hfresh : fresh ∉ before ++ node :: rest) :
    Ring (update (update next fresh (next node)) node fresh)
      (update (update prev fresh node) (next node) fresh)
      (before ++ node :: fresh :: rest) := by
  have hperm : (before ++ node :: rest).Perm (node :: rest ++ before) := List.perm_append_comm
  have hfresh' : fresh ∉ node :: (rest ++ before) := fun hmem => hfresh (hperm.mem_iff.2 hmem)
  have hedit := (ring_append_comm.1 hring).insert (hperm.nodup_iff.1 hnodup) hfresh'
  exact ring_append_comm.2 hedit

/-- Any node but the first one of the list is taken out. -/
theorem Ring.remove_append {gone : α} (hring : Ring next prev (node :: before ++ gone :: rest))
    (hnodup : (node :: before ++ gone :: rest).Nodup) :
    Ring (update next (prev gone) (next gone))
      (update prev (next gone) (prev gone))
      (node :: before ++ rest) := by
  obtain ⟨front, left, hfront⟩ : ∃ front left, node :: before = front ++ [left] :=
    ⟨_, _, (List.dropLast_append_getLast (List.cons_ne_nil node before)).symm⟩
  rw [hfront, List.append_assoc] at hring hnodup ⊢
  have hperm : (front ++ left :: gone :: rest).Perm (left :: gone :: rest ++ front) :=
    List.perm_append_comm
  have hleft : prev gone = left := hring.next_eq_of_append.2
  rw [hleft]
  have hedit := (ring_append_comm.1 hring).remove (hperm.nodup_iff.1 hnodup)
  exact ring_append_comm.2 hedit

end RtThread.Core
