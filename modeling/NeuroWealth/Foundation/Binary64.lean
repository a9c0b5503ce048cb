import Mathlib

/-!
# Numbers rounded to binary64

A finite double is taken as the rational it denotes. An operation computes exactly and rounds the
result to 53 significant bits, half to even. Overflow to an infinity is left out.
-/

namespace Binary64

variable {q : ℚ} {n : ℤ}

/-- The integer nearest to `q`, the even one of two. -/
def roundHalfEven (q : ℚ) : ℤ :=
  if Int.fract q < 1 / 2 then ⌊q⌋
  else if 1 / 2 < Int.fract q then ⌊q⌋ + 1
  else if Even ⌊q⌋ then ⌊q⌋
  else ⌊q⌋ + 1

/-- Doubles around `q` are `2 ^ spacing q` apart; below `2 ^ -1022` the spacing stays the same. -/
def spacing (q : ℚ) : ℤ := max (Int.log 2 |q| - 52) (-1074)

/-- The double nearest to `q`. -/
def toDouble (q : ℚ) : ℚ := roundHalfEven (q / 2 ^ spacing q) * 2 ^ spacing q

/-! ## Rounding to an integer -/

theorem roundHalfEven_cases (q : ℚ) :
    (roundHalfEven q = ⌊q⌋ ∧ Int.fract q ≤ 1 / 2) ∨
      (roundHalfEven q = ⌊q⌋ + 1 ∧ 1 / 2 ≤ Int.fract q) := by
  unfold roundHalfEven
  split_ifs with hbelow habove heven
  · exact .inl ⟨rfl, hbelow.le⟩
  · exact .inr ⟨rfl, habove.le⟩
  · exact .inl ⟨rfl, not_lt.mp habove⟩
  · exact .inr ⟨rfl, not_lt.mp hbelow⟩

theorem abs_roundHalfEven_sub_le (q : ℚ) : |roundHalfEven q - q| ≤ 1 / 2 := by
  have hsplit := Int.floor_add_fract q
  have hlow := Int.fract_nonneg q
  have hhigh := Int.fract_lt_one q
  rw [abs_le]
  rcases roundHalfEven_cases q with ⟨hround, hle⟩ | ⟨hround, hge⟩
  · rw [hround]
    constructor <;> linarith
  · rw [hround]
    push_cast
    constructor <;> linarith

theorem le_roundHalfEven (h : n ≤ q) : n ≤ roundHalfEven q := by
  have hfloor : n ≤ ⌊q⌋ := Int.le_floor.mpr h
  rcases roundHalfEven_cases q with ⟨hround, -⟩ | ⟨hround, -⟩
  · omega
  · omega

/-- A tie goes up to an even integer. -/
theorem even_le_roundHalfEven (heven : Even n) (h : n - 1 / 2 ≤ q) : n ≤ roundHalfEven q := by
  by_cases hn : n ≤ q
  · exact le_roundHalfEven hn
  · have hfloor : ⌊q⌋ = n - 1 := by
      rw [Int.floor_eq_iff]
      push_cast
      constructor <;> linarith
    have hfract : Int.fract q = q - (n - 1) := by
      rw [Int.fract, hfloor]
      push_cast
      ring
    have hodd : ¬ Even (n - 1) := by
      rw [Int.even_sub_one, not_not]
      exact heven
    have hhalf : ¬ Int.fract q < 1 / 2 := by
      rw [hfract]
      linarith
    unfold roundHalfEven
    rw [if_neg hhalf, hfloor, if_neg hodd]
    split_ifs <;> omega

/-! ## Rounding to a double -/

theorem toDouble_zero : toDouble 0 = 0 := by
  simp [toDouble, roundHalfEven]

/-- The rounding error is at most half the spacing. -/
theorem abs_toDouble_sub_le (q : ℚ) : |toDouble q - q| ≤ 2 ^ spacing q / 2 := by
  have hpos : (0 : ℚ) < 2 ^ spacing q := by positivity
  have hscale : toDouble q - q =
      (roundHalfEven (q / 2 ^ spacing q) - q / 2 ^ spacing q) * 2 ^ spacing q := by
    rw [toDouble, sub_mul, div_mul_cancel₀ q hpos.ne']
  rw [hscale, abs_mul, abs_of_pos hpos]
  have herror := abs_roundHalfEven_sub_le (q / 2 ^ spacing q)
  calc |roundHalfEven (q / 2 ^ spacing q) - q / 2 ^ spacing q| * 2 ^ spacing q
      ≤ 1 / 2 * 2 ^ spacing q := mul_le_mul_of_nonneg_right herror hpos.le
    _ = 2 ^ spacing q / 2 := by ring

theorem toDouble_nonneg (h : 0 ≤ q) : 0 ≤ toDouble q := by
  have hscaled : ((0 : ℤ) : ℚ) ≤ q / 2 ^ spacing q := by
    push_cast
    positivity
  have hround := le_roundHalfEven hscaled
  unfold toDouble
  positivity

/-- Rounding does not go below a power of two. -/
theorem zpow_log_le_toDouble (hq : 0 < q) (hnormal : -1022 ≤ Int.log 2 q) :
    2 ^ Int.log 2 q ≤ toDouble q := by
  have hspacing : spacing q = Int.log 2 q - 52 := by
    rw [spacing, abs_of_pos hq]
    omega
  have hlog : (2 : ℚ) ^ Int.log 2 q ≤ q := by
    exact_mod_cast Int.zpow_log_le_self (by norm_num) hq
  have hsplit : (2 : ℚ) ^ Int.log 2 q = 2 ^ (52 : ℤ) * 2 ^ spacing q := by
    rw [hspacing, ← zpow_add₀ (by norm_num)]
    congr 1
    ring
  have hpos : (0 : ℚ) < 2 ^ spacing q := by positivity
  have hscaled : ((2 ^ 52 : ℤ) : ℚ) ≤ q / 2 ^ spacing q := by
    rw [le_div_iff₀ hpos]
    push_cast
    rw [hsplit] at hlog
    exact_mod_cast hlog
  have hround : ((2 ^ 52 : ℤ) : ℚ) ≤ roundHalfEven (q / 2 ^ spacing q) := by
    exact_mod_cast le_roundHalfEven hscaled
  rw [hsplit, toDouble]
  refine mul_le_mul_of_nonneg_right ?_ hpos.le
  exact_mod_cast hround

/-- What rounds below one half: everything below the middle between one half and the double before
    it. -/
theorem toDouble_lt_half (hq : 0 ≤ q) : toDouble q < 1 / 2 ↔ q < 1 / 2 - 2 ^ (-55 : ℤ) := by
  constructor
  · intro hlt
    by_contra! hge
    have hpos : 0 < q := lt_of_lt_of_le (by norm_num) hge
    by_cases hhalf : 1 / 2 ≤ q
    · have hlog : (-1 : ℤ) ≤ Int.log 2 q := by
        refine (Int.zpow_le_iff_le_log (by norm_num) hpos).mp ?_
        norm_num
        linarith
      have hpow : (2 : ℚ) ^ (-1 : ℤ) ≤ 2 ^ Int.log 2 q := zpow_le_zpow_right₀ (by norm_num) hlog
      have hround := zpow_log_le_toDouble hpos (by omega)
      norm_num at hpow
      linarith
    · have hlog : Int.log 2 q = -2 := by
        apply le_antisymm
        · have := (Int.lt_zpow_iff_log_lt (b := 2) (x := (-1 : ℤ)) (by norm_num) hpos).mp
            (by norm_num; linarith)
          omega
        · refine (Int.zpow_le_iff_le_log (by norm_num) hpos).mp ?_
          norm_num at hge ⊢
          linarith
      have hspacing : spacing q = -54 := by
        rw [spacing, abs_of_pos hpos, hlog]
        norm_num
      have hscaled : ((2 ^ 53 : ℤ) : ℚ) - 1 / 2 ≤ q / 2 ^ (-54 : ℤ) := by
        rw [le_div_iff₀ (by positivity)]
        norm_num at hge ⊢
        linarith
      have hround := even_le_roundHalfEven (by decide) hscaled
      have hvalue : (1 : ℚ) / 2 = ((2 ^ 53 : ℤ) : ℚ) * 2 ^ (-54 : ℤ) := by norm_num
      have hle : (1 : ℚ) / 2 ≤ toDouble q := by
        rw [toDouble, hspacing, hvalue]
        refine mul_le_mul_of_nonneg_right ?_ (by positivity)
        exact_mod_cast hround
      linarith
  · intro hlt
    rcases hq.eq_or_lt with rfl | hpos
    · rw [toDouble_zero]
      norm_num
    · have hlog : Int.log 2 q < -1 := by
        refine (Int.lt_zpow_iff_log_lt (by norm_num) hpos).mp ?_
        norm_num at hlt ⊢
        linarith
      have hspacing : spacing q ≤ -54 := by
        rw [spacing, abs_of_pos hpos]
        omega
      have hpow : (2 : ℚ) ^ spacing q ≤ 2 ^ (-54 : ℤ) := zpow_le_zpow_right₀ (by norm_num) hspacing
      have herror := abs_le.mp (abs_toDouble_sub_le q)
      norm_num at hlt hpow ⊢
      linarith [herror.2]

/-- Above the middle before one half, rounding at most halves a number. -/
theorem le_two_mul_toDouble (h : 1 / 2 ≤ toDouble q) (hq : 0 < q) : q ≤ 2 * toDouble q := by
  by_cases hsmall : q < 1
  · linarith
  · have hlog : (0 : ℤ) ≤ Int.log 2 q := by
      refine (Int.zpow_le_iff_le_log (by norm_num) hq).mp ?_
      norm_num
      linarith
    have hround := zpow_log_le_toDouble hq (by omega)
    have hlt : q < (2 : ℚ) ^ (Int.log 2 q + 1) := by
      exact_mod_cast Int.lt_zpow_succ_log_self (by norm_num) q
    rw [zpow_add_one₀ (by norm_num)] at hlt
    linarith

end Binary64
