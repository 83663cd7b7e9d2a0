import Mathlib

set_option linter.all false

/-!
# Bitmaps of one and of two levels

A bitmap of one level is a word with one bit for each position.  One of two levels
keeps the bits in a table of words, and a group word tells which words of the table
are not zero.  Setting and clearing one position keeps the two levels in step, and the
lowest set bits of the group and of one word of the table give the lowest position.
-/

namespace RtThread.Core.Bitmap

open Function

variable {w v : ℕ}

theorem getLsbD_mask {i : ℕ} (hi : i < w) (j : ℕ) :
    (1#w <<< i).getLsbD j = true ↔ j = i := by
  rw [← BitVec.twoPow_eq, BitVec.getLsbD_twoPow]
  simp [hi, eq_comm]

theorem getLsbD_set {word : BitVec w} {i : ℕ} (hi : i < w) (j : ℕ) :
    (word ||| 1#w <<< i).getLsbD j = true ↔ word.getLsbD j = true ∨ j = i := by
  rw [BitVec.getLsbD_or, Bool.or_eq_true, getLsbD_mask hi]

theorem getLsbD_clear {word : BitVec w} {i : ℕ} (hi : i < w) (j : ℕ) :
    (word &&& ~~~(1#w <<< i)).getLsbD j = true ↔ word.getLsbD j = true ∧ j ≠ i := by
  rw [BitVec.getLsbD_and, BitVec.getLsbD_not, Bool.and_eq_true]
  refine and_congr_right fun hword => ?_
  have hj : j < w := BitVec.lt_of_getLsbD hword
  rw [decide_eq_true hj, Bool.true_and, Bool.not_eq_true', ← Bool.not_eq_true, getLsbD_mask hi]

theorem ne_zero_iff {word : BitVec w} : word ≠ 0 ↔ ∃ i, word.getLsbD i = true := by
  constructor
  · intro hne
    by_contra hnone
    push Not at hnone
    apply hne
    apply BitVec.eq_of_getLsbD_eq
    intro i _
    rw [Bool.eq_false_iff.2 (hnone i)]
    simp
  · rintro ⟨i, hi⟩ rfl
    simp at hi

/-- The lowest set bit. -/
def IsFirst (word : BitVec w) (i : ℕ) : Prop :=
  word.getLsbD i = true ∧ ∀ j < i, word.getLsbD j = false

def OneLevel (group : BitVec w) (present : ℕ → Prop) : Prop :=
  ∀ position, group.getLsbD position = true ↔ present position

structure TwoLevel (group : BitVec w) (table : ℕ → BitVec v) (present : ℕ → Prop) : Prop where
  group_iff : ∀ number, group.getLsbD number = true ↔ table number ≠ 0
  table_iff : ∀ position,
    (table (position / v)).getLsbD (position % v) = true ↔ present position

section OneLevel

variable {group : BitVec w} {present present' : ℕ → Prop} {position : ℕ}

theorem OneLevel.set (hbits : OneLevel group present) (hposition : position < w)
    (hpresent : ∀ other, present' other ↔ present other ∨ other = position) :
    OneLevel (group ||| 1#w <<< position) present' := by
  intro other
  rw [getLsbD_set hposition, hbits other, hpresent]

theorem OneLevel.clear (hbits : OneLevel group present) (hposition : position < w)
    (hpresent : ∀ other, present' other ↔ present other ∧ other ≠ position) :
    OneLevel (group &&& ~~~(1#w <<< position)) present' := by
  intro other
  rw [getLsbD_clear hposition, hbits other, hpresent]

theorem OneLevel.ne_zero_iff (hbits : OneLevel group present) :
    group ≠ 0 ↔ ∃ position, present position := by
  rw [Bitmap.ne_zero_iff]
  exact exists_congr hbits

theorem OneLevel.first (hbits : OneLevel group present) (hfirst : IsFirst group position) :
    present position ∧ ∀ other < position, ¬ present other := by
  refine ⟨(hbits position).1 hfirst.1, fun other hlt hpresent => ?_⟩
  rw [← hbits other, hfirst.2 other hlt] at hpresent
  exact Bool.false_ne_true hpresent

end OneLevel

section TwoLevel

variable {group : BitVec w} {table : ℕ → BitVec v} {present present' : ℕ → Prop} {position : ℕ}

/-- Two positions are equal when they are the same bit of the same word. -/
theorem position_eq_iff {left right : ℕ} (hnumber : left / v = right / v) :
    left % v = right % v ↔ left = right := by
  constructor
  · intro hbit
    rw [← Nat.div_add_mod left v, ← Nat.div_add_mod right v, hnumber, hbit]
  · intro heq
    rw [heq]

theorem position_div_mod (number : ℕ) {bit : ℕ} (hlt : bit < v) :
    (number * v + bit) / v = number ∧ (number * v + bit) % v = bit := by
  rw [Nat.mul_comm, Nat.mul_add_div (by omega), Nat.mul_add_mod, Nat.div_eq_of_lt hlt,
    Nat.mod_eq_of_lt hlt, Nat.add_zero]
  exact ⟨rfl, rfl⟩

theorem TwoLevel.set (hbits : TwoLevel group table present) (hv : 0 < v)
    (hnumber : position / v < w)
    (hpresent : ∀ other, present' other ↔ present other ∨ other = position) :
    TwoLevel (group ||| 1#w <<< (position / v))
      (update table (position / v)
        (table (position / v) ||| 1#v <<< (position % v))) present' := by
  have hbit : position % v < v := Nat.mod_lt position hv
  constructor
  · intro number
    rw [getLsbD_set hnumber, hbits.group_iff]
    by_cases hsame : number = position / v
    · subst hsame
      have hset : table (position / v) ||| 1#v <<< (position % v) ≠ 0 :=
        Bitmap.ne_zero_iff.2 ⟨position % v, (getLsbD_set hbit _).2 (.inr rfl)⟩
      simp only [update_self]
      exact ⟨fun _ => hset, fun _ => .inr trivial⟩
    · simp [hsame]
  · intro other
    rw [hpresent, ← hbits.table_iff other]
    by_cases hsame : other / v = position / v
    · rw [hsame, update_self, getLsbD_set hbit, position_eq_iff hsame]
    · have hne : other ≠ position := fun heq => hsame (heq ▸ rfl)
      simp [hsame, hne]

/-- The bit of the group is cleared with the last bit of its word. -/
theorem TwoLevel.clear (hbits : TwoLevel group table present) (hv : 0 < v)
    (hnumber : position / v < w)
    (hpresent : ∀ other, present' other ↔ present other ∧ other ≠ position) :
    TwoLevel
      (if table (position / v) &&& ~~~(1#v <<< (position % v)) = 0 then
        group &&& ~~~(1#w <<< (position / v))
      else group)
      (update table (position / v)
        (table (position / v) &&& ~~~(1#v <<< (position % v)))) present' := by
  have hbit : position % v < v := Nat.mod_lt position hv
  constructor
  · intro number
    by_cases hsame : number = position / v
    · subst hsame
      rw [update_self]
      split
      · next hzero =>
          rw [getLsbD_clear hnumber, hzero]
          simp
      · next hne =>
          have hold : table (position / v) ≠ 0 := by
            intro hzero
            rw [hzero] at hne
            simp at hne
          rw [hbits.group_iff]
          exact ⟨fun _ => hne, fun _ => hold⟩
    · rw [update_of_ne hsame, ← hbits.group_iff]
      split
      · rw [getLsbD_clear hnumber]
        exact and_iff_left hsame
      · exact Iff.rfl
  · intro other
    rw [hpresent, ← hbits.table_iff other]
    by_cases hsame : other / v = position / v
    · rw [hsame, update_self, getLsbD_clear hbit, ne_eq, position_eq_iff hsame]
    · have hne : other ≠ position := fun heq => hsame (heq ▸ rfl)
      simp [hsame, hne]

/-- A word of the table is zero when none of its positions is present. -/
theorem TwoLevel.word_ne_zero_iff (hbits : TwoLevel group table present) (number : ℕ) :
    table number ≠ 0 ↔ ∃ position, position / v = number ∧ present position := by
  rw [Bitmap.ne_zero_iff]
  constructor
  · rintro ⟨i, hi⟩
    have hlt : i < v := BitVec.lt_of_getLsbD hi
    obtain ⟨hdiv, hmod⟩ := position_div_mod number hlt
    refine ⟨number * v + i, hdiv, ?_⟩
    rw [← hbits.table_iff, hdiv, hmod]
    exact hi
  · rintro ⟨position, rfl, hpresent⟩
    exact ⟨position % v, (hbits.table_iff position).2 hpresent⟩

theorem TwoLevel.ne_zero_iff (hbits : TwoLevel group table present) :
    group ≠ 0 ↔ ∃ position, present position := by
  rw [Bitmap.ne_zero_iff]
  constructor
  · rintro ⟨number, hnumber⟩
    obtain ⟨position, -, hpresent⟩ :=
      (hbits.word_ne_zero_iff number).1 ((hbits.group_iff number).1 hnumber)
    exact ⟨position, hpresent⟩
  · rintro ⟨position, hpresent⟩
    refine ⟨position / v, (hbits.group_iff _).2 ?_⟩
    exact (hbits.word_ne_zero_iff _).2 ⟨position, rfl, hpresent⟩

/-- The lowest bit of the group and the lowest bit of its word. -/
theorem TwoLevel.first (hbits : TwoLevel group table present) {number bit : ℕ}
    (hnumber : IsFirst group number) (hbit : IsFirst (table number) bit) :
    present (number * v + bit) ∧ ∀ other < number * v + bit, ¬ present other := by
  have hlt : bit < v := BitVec.lt_of_getLsbD hbit.1
  obtain ⟨hdiv, hmod⟩ := position_div_mod number hlt
  constructor
  · rw [← hbits.table_iff, hdiv, hmod]
    exact hbit.1
  · intro other hother hpresent
    have hword := (hbits.table_iff other).2 hpresent
    have hle : other / v ≤ number := by
      rw [← hdiv]
      exact Nat.div_le_div_right hother.le
    rcases hle.lt_or_eq with hlower | hsame
    · have hgroup := (hbits.group_iff (other / v)).2
        ((hbits.word_ne_zero_iff _).2 ⟨other, rfl, hpresent⟩)
      rw [hnumber.2 _ hlower] at hgroup
      exact Bool.false_ne_true hgroup
    · rw [hsame] at hword
      have hmodLt : other % v < bit := by
        have hother' := Nat.div_add_mod other v
        rw [hsame, Nat.mul_comm] at hother'
        omega
      rw [hbit.2 _ hmodLt] at hword
      exact Bool.false_ne_true hword

end TwoLevel

end RtThread.Core.Bitmap
