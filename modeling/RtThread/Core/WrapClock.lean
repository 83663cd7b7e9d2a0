import Mathlib

set_option linter.all false

/-!
# A 32-bit clock that wraps around

Ticks are compared by subtraction.  Seen from the present tick, every tick has a
signed distance, and as long as all distances lie in one half of the range the
comparison by subtraction orders them as their distances do, also when some of the
ticks lie beyond the wrap-around.
-/

namespace RtThread.Core.WrapClock

/-- Half the range of ticks, as the bound of a comparison by subtraction. -/
def half : BitVec 32 := 0x7fffffff

/-- The signed distance of a tick from the present one. -/
def distance (now tick : BitVec 32) : ℤ :=
  (tick - now).toInt

/-- The tick is at most one tick in the past, and less than half the range ahead. -/
def InWindow (now tick : BitVec 32) : Prop :=
  -1 ≤ distance now tick ∧ distance now tick ≤ 0x7ffffffe

theorem toNat_half : half.toNat = 0x7fffffff := rfl

/-- The unsigned value is the signed one modulo the range. -/
theorem toNat_eq_emod (value : BitVec 32) : (value.toNat : ℤ) = value.toInt % 0x100000000 := by
  rw [BitVec.toInt_eq_toNat_cond]
  split <;> omega

theorem distance_le (now tick : BitVec 32) : distance now tick ≤ 0x7fffffff := by
  have hlt := BitVec.toInt_lt (x := tick - now)
  rw [distance]
  omega

theorem le_distance (now tick : BitVec 32) : -0x80000000 ≤ distance now tick := by
  have hle := BitVec.le_toInt (tick - now)
  rw [distance]
  omega

/-- The difference of two ticks, from their distances. -/
theorem toNat_sub_eq (now left right : BitVec 32) :
    ((right - left).toNat : ℤ) = (distance now right - distance now left) % 0x100000000 := by
  have hright := toNat_eq_emod (right - now)
  have hleft := toNat_eq_emod (left - now)
  rw [BitVec.toNat_sub] at hright hleft ⊢
  rw [distance, distance]
  omega

/-- Two ticks that are less than half the range apart are compared by their difference. -/
theorem lt_iff_sub_of_span {now left right : BitVec 32}
    (hlow : -0x80000001 ≤ distance now right - distance now left)
    (hhigh : distance now right - distance now left ≤ 0x7ffffffe) :
    (right - left ≠ 0 ∧ right - left < half) ↔ distance now left < distance now right := by
  have hsub := toNat_sub_eq now left right
  have hzero : right - left ≠ 0 ↔ (right - left).toNat ≠ 0 := by
    rw [ne_eq, ne_eq, ← BitVec.toNat_inj]
    rfl
  rw [hzero, BitVec.lt_def, toNat_half]
  omega

/-- Two ticks of the window are compared by their difference. -/
theorem lt_iff_sub {now left right : BitVec 32} (hleft : InWindow now left)
    (hright : InWindow now right) (hpresent : 0 ≤ distance now left) :
    (right - left ≠ 0 ∧ right - left < half) ↔ distance now left < distance now right := by
  obtain ⟨hleftLow, hleftHigh⟩ := hleft
  obtain ⟨hrightLow, hrightHigh⟩ := hright
  exact lt_iff_sub_of_span (by omega) (by omega)

/-- A tick of the window has been reached when it is not ahead. -/
theorem reached_iff {now tick : BitVec 32} (hwindow : InWindow now tick) :
    now - tick < half ↔ distance now tick ≤ 0 := by
  have hsub := toNat_sub_eq now tick now
  obtain ⟨hlow, hhigh⟩ := hwindow
  have hself : distance now now = 0 := by simp [distance]
  rw [BitVec.lt_def, toNat_half]
  omega

/-- When the clock advances, a tick that is not half the range back comes one closer. -/
theorem distance_succ {now tick : BitVec 32} (hlow : -0x80000000 < distance now tick) :
    distance (now + 1) tick = distance now tick - 1 := by
  have hbefore := toNat_eq_emod (tick - now)
  have hafter := toNat_eq_emod (tick - (now + 1))
  have hhigh := distance_le now tick
  have hhigh' := distance_le (now + 1) tick
  have hlow' := le_distance (now + 1) tick
  rw [BitVec.toNat_sub] at hbefore hafter
  rw [BitVec.toNat_add] at hafter
  have hone : BitVec.toNat (1 : BitVec 32) = 1 := rfl
  simp only [distance] at *
  omega

theorem distance_add {now ahead : BitVec 32} (hlt : ahead < half) :
    distance now (now + ahead) = ahead.toNat := by
  have hsub : now + ahead - now = ahead := by
    rw [add_sub_cancel_left]
  rw [BitVec.lt_def, toNat_half] at hlt
  rw [distance, hsub, BitVec.toInt_eq_toNat_cond]
  split <;> omega

end RtThread.Core.WrapClock
