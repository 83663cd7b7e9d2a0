import Mathlib

set_option linter.all false

/-!
# A clock that starts again

The values of a clock go from zero to a period and start again.  Every value is reached
again within one period; the present one is reached last.

A loop that looks for the value that is reached first keeps the least one behind the present
value and the least one before it: a least key of the elements seen so far, and the element
it belongs to.
-/

namespace RtThread.Core.CyclicClock

/-- The number of steps, at least one, after which a clock at `now` shows `target`. -/
def wait (period now target : ℕ) : ℕ :=
  (target + period - now - 1) % period + 1

variable {period now target : ℕ}

theorem wait_of_lt (hlt : now < target) (htarget : target < period) :
    wait period now target = target - now := by
  have hsplit : target + period - now - 1 = target - now - 1 + period := by omega
  rw [wait, hsplit, Nat.add_mod_right, Nat.mod_eq_of_lt (by omega)]
  omega

theorem wait_of_le (hle : target ≤ now) (hnow : now < period) :
    wait period now target = target + period - now := by
  rw [wait, Nat.mod_eq_of_lt (by omega)]
  omega

theorem wait_le (hperiod : 0 < period) : wait period now target ≤ period :=
  Nat.mod_lt _ hperiod

/-- The clock goes on by one step, and not to the target. -/
theorem wait_succ (hnow : now < period) (htarget : target < period)
    (hne : target ≠ (now + 1) % period) :
    wait period ((now + 1) % period) target + 1 = wait period now target := by
  rcases Nat.lt_or_ge (now + 1) period with hinside | hlast
  · rw [Nat.mod_eq_of_lt hinside] at hne ⊢
    rcases Nat.lt_or_ge (now + 1) target with hlt | hle
    · rw [wait_of_lt hlt htarget, wait_of_lt (by omega) htarget]
      omega
    · rw [wait_of_le hle hinside, wait_of_le (by omega) hnow]
      omega
  · obtain rfl : period = now + 1 := by omega
    rw [Nat.mod_self] at hne ⊢
    rw [wait_of_lt (by omega) htarget, wait_of_le (by omega) hnow]
    omega

/-- Values that are not reached in this step keep their order. -/
theorem wait_succ_le_iff {other : ℕ} (hnow : now < period) (htarget : target < period)
    (hother : other < period) (hne : target ≠ (now + 1) % period)
    (hne' : other ≠ (now + 1) % period) :
    wait period ((now + 1) % period) target ≤ wait period ((now + 1) % period) other ↔
      wait period now target ≤ wait period now other := by
  have hstep := wait_succ hnow htarget hne
  have hstep' := wait_succ hnow hother hne'
  omega

/-- Two values behind the present one, or two before it, are reached in their order, and
those behind it first. -/
theorem wait_lt_wait_iff {other : ℕ} (hnow : now < period) (htarget : target < period)
    (hother : other < period) : wait period now target < wait period now other ↔
      (now < target ∧ target < other) ∨ (now < target ∧ other ≤ now) ∨
        (target < other ∧ other ≤ now) := by
  rcases Nat.lt_or_ge now target with hlt | hle <;>
    rcases Nat.lt_or_ge now other with hlt' | hle'
  · rw [wait_of_lt hlt htarget, wait_of_lt hlt' hother]
    omega
  · rw [wait_of_lt hlt htarget, wait_of_le hle' hnow]
    omega
  · rw [wait_of_le hle hnow, wait_of_lt hlt' hother]
    omega
  · rw [wait_of_le hle hnow, wait_of_le hle' hnow]
    omega

/-! ## The least key of a list -/

/-- The least key of the eligible elements of a list, and an element that has it; the bound
stands for no element. -/
structure Least {Element : Type*} (key : Element → ℤ) (eligible : Element → Prop) (bound : ℤ)
    (seen : List Element) (value : ℤ) (found : Option Element) : Prop where
  value_le : value ≤ bound
  mem : value < bound → ∃ element ∈ seen, found = some element ∧ eligible element ∧
    key element = value
  least : ∀ element ∈ seen, eligible element → value ≤ key element

namespace Least

variable {Element : Type*} {key : Element → ℤ} {eligible : Element → Prop} {bound value : ℤ}
variable {seen : List Element} {found : Option Element} {element : Element}

theorem nil (key : Element → ℤ) (eligible : Element → Prop) (bound : ℤ) :
    Least key eligible bound [] bound none :=
  ⟨le_rfl, fun hlt => absurd hlt (lt_irrefl bound), by simp⟩

theorem pass (element : Element) (hleast : Least key eligible bound seen value found)
    (hnot : eligible element → value ≤ key element) :
    Least key eligible bound (seen ++ [element]) value found where
  value_le := hleast.value_le
  mem := by
    intro hlt
    obtain ⟨other, hmem, hother⟩ := hleast.mem hlt
    exact ⟨other, List.mem_append_left _ hmem, hother⟩
  least := by
    intro other hmem heligible
    rcases List.mem_append.1 hmem with hold | hnew
    · exact hleast.least other hold heligible
    · obtain rfl := List.mem_singleton.1 hnew
      exact hnot heligible

theorem take (hleast : Least key eligible bound seen value found) (heligible : eligible element)
    (hlt : key element < value) :
    Least key eligible bound (seen ++ [element]) (key element) (some element) where
  value_le := hlt.le.trans hleast.value_le
  mem := fun _ => ⟨element, by simp, rfl, heligible, rfl⟩
  least := by
    intro other hmem heligible'
    rcases List.mem_append.1 hmem with hold | hnew
    · exact hlt.le.trans (hleast.least other hold heligible')
    · obtain rfl := List.mem_singleton.1 hnew
      exact le_rfl

end Least

end RtThread.Core.CyclicClock
