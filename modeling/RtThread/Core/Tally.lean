import Mathlib

set_option linter.all false

/-!
# Shares of a counter

A shared counter is often the sum of what every agent has contributed to it at
its own place in the code.  `tally weight place` is that sum; one agent moving
changes it by the difference of two weights, and an agent with a share in it is
seen in the sum.
-/

namespace RtThread.Core

open Function

variable {Agent Place : Type*} [Fintype Agent]

/-- What all agents together contribute. -/
def tally (weight : Place → ℕ) (place : Agent → Place) : ℕ :=
  ∑ agent, weight (place agent)

variable {weight : Place → ℕ} {place : Agent → Place}

theorem tally_update [DecidableEq Agent] (weight : Place → ℕ) (place : Agent → Place)
    (agent : Agent) (next : Place) :
    tally weight (update place agent next) + weight (place agent) =
      tally weight place + weight next := by
  have hmem := Finset.mem_univ agent
  have hsum : tally weight (update place agent next) =
      ∑ other, update (fun other => weight (place other)) agent (weight next) other := by
    refine Finset.sum_congr rfl fun other _ => ?_
    by_cases heq : other = agent
    · subst heq
      rw [update_self, update_self]
    · rw [update_of_ne heq, update_of_ne heq]
  rw [hsum, Finset.sum_update_of_mem hmem, tally, ← Finset.add_sum_erase _ _ hmem,
    Finset.sdiff_singleton_eq_erase]
  omega

theorem le_tally (weight : Place → ℕ) (place : Agent → Place) (agent : Agent) :
    weight (place agent) ≤ tally weight place :=
  Finset.single_le_sum (f := fun other => weight (place other)) (fun _ _ => Nat.zero_le _)
    (Finset.mem_univ agent)

theorem tally_eq_zero_iff : tally weight place = 0 ↔ ∀ agent, weight (place agent) = 0 := by
  simp [tally]

end RtThread.Core
