import Mathlib

/-!
# Rounding half up

`round` takes a number to the closest integer, and a half to the integer above, so it keeps the order
and tells two numbers apart where a half lies between them. Complementary parts rounded on their own
add up to the whole, or to one more if both end on a half.
-/

namespace Rounding

variable {α : Type*} [Field α] [LinearOrder α] [IsStrictOrderedRing α] [FloorRing α] {x y : α}

theorem round_mono (h : x ≤ y) : round x ≤ round y := by
  rw [round_eq, round_eq]
  exact Int.floor_mono (by linarith)

/-- Two numbers with a half above the first and not above the second. -/
def HalfBetween (x y : α) : Prop := ∃ n : ℤ, x < n + 1 / 2 ∧ n + 1 / 2 ≤ y

theorem round_lt_round_iff : round x < round y ↔ HalfBetween x y := by
  rw [round_eq, round_eq]
  constructor
  · intro hlt
    refine ⟨⌊y + 1 / 2⌋ - 1, ?_, ?_⟩
    · have hx := Int.floor_lt.mp hlt
      push_cast
      linarith
    · have hy := Int.floor_le (y + 1 / 2)
      push_cast
      linarith
  · rintro ⟨n, hx, hy⟩
    have hbelow : ⌊x + 1 / 2⌋ < n + 1 := by
      refine Int.floor_lt.mpr ?_
      push_cast
      linarith
    have habove : n + 1 ≤ ⌊y + 1 / 2⌋ := by
      refine Int.le_floor.mpr ?_
      push_cast
      linarith
    omega

/-- Below a half the fraction is dropped, from a half on it counts as one. -/
theorem round_eq_floor : round x = ⌊x⌋ + if 2 * Int.fract x < 1 then 0 else 1 := by
  have hsplit := Int.floor_add_fract x
  have hlow := Int.fract_nonneg x
  have hhigh := Int.fract_lt_one x
  split_ifs with hhalf
  · rw [round_eq_iff, Set.mem_Ico]
    push_cast
    constructor <;> linarith
  · rw [round_eq_iff, Set.mem_Ico]
    push_cast
    constructor <;> linarith

/-- A part and the rest, each rounded. -/
theorem round_add_round_sub (n : ℤ) (x : α) :
    round x + round (n - x) = n + if 2 * Int.fract x = 1 then 1 else 0 := by
  have hsplit := Int.floor_add_fract x
  have hlow := Int.fract_nonneg x
  have hhigh := Int.fract_lt_one x
  have hrest : round ((n : α) - x) = n - ⌊x⌋ - if 1 < 2 * Int.fract x then 1 else 0 := by
    split_ifs with habove
    · rw [round_eq_iff, Set.mem_Ico]
      push_cast
      constructor <;> linarith
    · rw [round_eq_iff, Set.mem_Ico]
      push_cast
      constructor <;> linarith
  rw [round_eq_floor, hrest]
  rcases lt_trichotomy (2 * Int.fract x) 1 with hlt | heq | hgt
  · rw [if_pos hlt, if_neg hlt.not_gt, if_neg hlt.ne]
    omega
  · rw [if_neg heq.not_lt, if_neg heq.not_gt, if_pos heq]
    omega
  · rw [if_neg hgt.not_gt, if_pos hgt, if_neg hgt.ne']
    omega

/-- A quotient ends on a half when twice the remainder is the divisor. -/
theorem two_mul_fract_div_eq_one {m n : ℕ} (hn : 0 < n) :
    2 * Int.fract ((m : α) / n) = 1 ↔ 2 * (m % n) = n := by
  have hne : (n : α) ≠ 0 := Nat.cast_ne_zero.mpr hn.ne'
  rw [Int.fract_div_natCast_eq_div_natCast_mod, ← mul_div_assoc, div_eq_one_iff_eq hne]
  exact_mod_cast Iff.rfl

theorem abs_round_sub_le_one : |(round x : α) - x| ≤ 1 := by
  rw [abs_sub_comm]
  exact (abs_sub_round x).trans (by linarith)

end Rounding
