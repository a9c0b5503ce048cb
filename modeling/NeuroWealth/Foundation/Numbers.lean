import NeuroWealth.Foundation.Binary64

/-!
# Numbers of binary64

The finite doubles with the infinities and NaN, and what becomes of a rational among them. A
negative zero counts as zero.
-/

namespace Binary64

variable {p q : ℚ} {n z s : ℤ} {d : ℕ}

/-! ## Rounding to an integer -/

theorem roundHalfEven_intCast : roundHalfEven n = n := by
  unfold roundHalfEven
  rw [Int.fract_intCast, if_pos (by norm_num), Int.floor_intCast]

theorem roundHalfEven_le (h : q ≤ n) : roundHalfEven q ≤ n := by
  have hsplit := Int.floor_add_fract q
  have hlow := Int.fract_nonneg q
  rcases roundHalfEven_cases q with ⟨hround, -⟩ | ⟨hround, hhalf⟩
  · rw [hround]
    exact_mod_cast (Int.floor_le q).trans h
  · rw [hround]
    have hlt : (⌊q⌋ : ℚ) < n := by linarith
    have hlt' : ⌊q⌋ < n := by exact_mod_cast hlt
    omega

/-- Less than a half below an integer, the integer is not reached. -/
theorem roundHalfEven_lt (h : q < n - 1 / 2) : roundHalfEven q < n := by
  have hsplit := Int.floor_add_fract q
  have hlow := Int.fract_nonneg q
  rcases roundHalfEven_cases q with ⟨hround, -⟩ | ⟨hround, hhalf⟩
  · have hlt : (⌊q⌋ : ℚ) < n := by linarith
    rw [hround]
    exact_mod_cast hlt
  · have hlt : ((⌊q⌋ + 1 : ℤ) : ℚ) < n := by
      push_cast
      linarith
    rw [hround]
    exact_mod_cast hlt

theorem roundHalfEven_neg : roundHalfEven (-q) = -roundHalfEven q := by
  rcases eq_or_ne (Int.fract q) 0 with hint | hfract
  · obtain ⟨m, rfl⟩ : ∃ m : ℤ, q = m := ⟨⌊q⌋, by linarith [Int.floor_add_fract q]⟩
    rw [← Int.cast_neg, roundHalfEven_intCast, roundHalfEven_intCast]
  · have hneg : Int.fract (-q) = 1 - Int.fract q := Int.fract_neg hfract
    have hsplit := Int.floor_add_fract q
    have hsplit' := Int.floor_add_fract (-q)
    have hfloor : ⌊-q⌋ = -⌊q⌋ - 1 := by
      have : (⌊-q⌋ : ℚ) = ((-⌊q⌋ - 1 : ℤ) : ℚ) := by
        push_cast
        linarith
      exact_mod_cast this
    have heven : Even (-⌊q⌋ - 1) ↔ ¬ Even ⌊q⌋ := by
      rw [Int.even_sub_one, even_neg]
    unfold roundHalfEven
    rw [hneg, hfloor]
    rcases lt_trichotomy (Int.fract q) (1 / 2) with hlt | heq | hgt
    · rw [if_pos hlt, if_neg (by linarith), if_pos (by linarith)]
      omega
    · rw [if_neg (by linarith), if_neg (by linarith), if_neg heq.not_lt, if_neg heq.not_gt]
      by_cases hfloor : Even ⌊q⌋
      · rw [if_neg (by rwa [heven, not_not]), if_pos hfloor]
        omega
      · rw [if_pos (by rwa [heven]), if_neg hfloor]
        omega
    · rw [if_neg hgt.not_gt, if_pos hgt, if_pos (by linarith)]
      omega

/-! ## Rounding to a double -/

theorem toDouble_neg : toDouble (-q) = -toDouble q := by
  have hspacing : spacing (-q) = spacing q := by
    unfold spacing
    rw [abs_neg]
  unfold toDouble
  rw [hspacing, neg_div, roundHalfEven_neg]
  push_cast
  ring

/-- A number is less than `2 ^ 53` spacings. -/
theorem abs_lt_spacing : |q| < 2 ^ (spacing q + 53) := by
  rcases eq_or_ne q 0 with rfl | hne
  · rw [abs_zero]
    positivity
  · have hlog : |q| < (2 : ℚ) ^ (Int.log 2 |q| + 1) := by
      exact_mod_cast Int.lt_zpow_succ_log_self (by norm_num) |q|
    refine hlog.trans_le (zpow_le_zpow_right₀ (by norm_num) ?_)
    unfold spacing
    omega

/-- An integer of 53 bits, scaled, is a double. -/
theorem toDouble_scaled (hz : |z| < 2 ^ 53) (hs : -1074 ≤ s) :
    toDouble (z * 2 ^ s) = z * 2 ^ s := by
  rcases eq_or_ne z 0 with rfl | hne
  · simp [toDouble_zero]
  · have hpos : (0 : ℚ) < 2 ^ s := by positivity
    have hscaled : 0 < |(z : ℚ) * 2 ^ s| :=
      abs_pos.mpr (mul_ne_zero (by exact_mod_cast hne) hpos.ne')
    have hlt : |(z : ℚ) * 2 ^ s| < (2 : ℚ) ^ (53 + s) := by
      rw [abs_mul, abs_of_pos hpos, zpow_add₀ (by norm_num)]
      refine mul_lt_mul_of_pos_right ?_ hpos
      exact_mod_cast hz
    have hlog : Int.log 2 |(z : ℚ) * 2 ^ s| < 53 + s :=
      (Int.lt_zpow_iff_log_lt (by norm_num) hscaled).mp (by exact_mod_cast hlt)
    obtain ⟨k, hk⟩ : ∃ k : ℕ, s = spacing ((z : ℚ) * 2 ^ s) + k := by
      refine ⟨(s - spacing ((z : ℚ) * 2 ^ s)).toNat, ?_⟩
      have hle : spacing ((z : ℚ) * 2 ^ s) ≤ s := by
        unfold spacing
        omega
      omega
    have hquotient : (z : ℚ) * 2 ^ s / 2 ^ spacing ((z : ℚ) * 2 ^ s) = ((z * 2 ^ k : ℤ) : ℚ) := by
      rw [div_eq_iff (by positivity)]
      push_cast
      rw [mul_assoc, ← zpow_natCast, ← zpow_add₀ (by norm_num), add_comm, ← hk]
    unfold toDouble
    rw [hquotient, roundHalfEven_intCast, ← hquotient, div_mul_cancel₀ _ (by positivity)]

/-- Whole numbers of up to 53 bits are doubles. -/
theorem toDouble_natCast {m : ℕ} (h : m < 2 ^ 53) : toDouble m = m := by
  have hscaled : toDouble ((m : ℤ) * 2 ^ (0 : ℤ)) = (m : ℤ) * 2 ^ (0 : ℤ) :=
    toDouble_scaled (by rw [abs_of_nonneg (by omega)]; exact_mod_cast h) (by norm_num)
  simpa using hscaled

theorem toDouble_toDouble : toDouble (toDouble q) = toDouble q := by
  have hpos : (0 : ℚ) < 2 ^ spacing q := by positivity
  have hspacing : -1074 ≤ spacing q := le_max_right _ _
  have hquotient : |q / 2 ^ spacing q| < 2 ^ 53 := by
    rw [abs_div, abs_of_pos hpos, div_lt_iff₀ hpos, mul_comm]
    have hlt := abs_lt_spacing (q := q)
    rwa [zpow_add₀ (by norm_num)] at hlt
  obtain ⟨hlow, hhigh⟩ := abs_lt.mp hquotient
  have hle : |roundHalfEven (q / 2 ^ spacing q)| ≤ 2 ^ 53 := by
    refine abs_le.mpr ⟨le_roundHalfEven ?_, roundHalfEven_le ?_⟩
    · push_cast
      exact hlow.le
    · push_cast
      exact hhigh.le
  rcases hle.lt_or_eq with hlt | heq
  · exact toDouble_scaled hlt hspacing
  · -- the power of two above is an integer of fewer bits in the next spacing
    obtain ⟨m, hm, hround⟩ : ∃ m : ℤ, |m| < 2 ^ 53 ∧
        roundHalfEven (q / 2 ^ spacing q) = m * 2 := by
      rcases abs_eq (by norm_num) |>.mp heq with hval | hval
      · exact ⟨2 ^ 52, by norm_num, by rw [hval]; norm_num⟩
      · exact ⟨-2 ^ 52, by norm_num, by rw [hval]; norm_num⟩
    have hvalue : toDouble q = m * 2 ^ (spacing q + 1) := by
      rw [toDouble, hround, zpow_add_one₀ (by norm_num)]
      push_cast
      ring
    rw [hvalue]
    exact toDouble_scaled hm (by omega)

/-! ## Underflow and overflow -/

/-- Half of the least positive double still rounds to zero. -/
theorem toDouble_pos_iff : 0 < toDouble q ↔ 2 ^ (-1075 : ℤ) < q := by
  have hnegative : q ≤ 0 → toDouble q ≤ 0 := fun h => by
    have hneg := toDouble_nonneg (neg_nonneg.mpr h)
    rw [toDouble_neg] at hneg
    linarith
  by_cases hq : 0 < q
  · by_cases hnormal : -1022 ≤ Int.log 2 q
    · have hlow : (2 : ℚ) ^ (-1022 : ℤ) ≤ q := by
        refine le_trans (zpow_le_zpow_right₀ (by norm_num) hnormal) ?_
        exact_mod_cast Int.zpow_log_le_self (by norm_num) hq
      have hstep : (2 : ℚ) ^ (-1075 : ℤ) < 2 ^ (-1022 : ℤ) :=
        zpow_lt_zpow_right₀ (by norm_num) (by norm_num)
      have hpos : (0 : ℚ) < 2 ^ Int.log 2 q := by positivity
      exact iff_of_true (hpos.trans_le (zpow_log_le_toDouble hq hnormal)) (hstep.trans_le hlow)
    · have hspacing : spacing q = -1074 := by
        rw [spacing, abs_of_pos hq]
        omega
      have hpos : (0 : ℚ) < 2 ^ (-1074 : ℤ) := by positivity
      have hdouble : (2 : ℚ) ^ (-1074 : ℤ) = 2 ^ (-1075 : ℤ) * 2 :=
        zpow_add_one₀ (by norm_num) (-1075)
      have hhalf : (2 : ℚ) ^ (-1075 : ℤ) = 1 / 2 * 2 ^ (-1074 : ℤ) := by
        rw [hdouble]
        generalize (2 : ℚ) ^ (-1075 : ℤ) = x
        ring
      have hscaled : 2 ^ (-1075 : ℤ) < q ↔ 1 / 2 < q / 2 ^ (-1074 : ℤ) := by
        rw [hhalf, lt_div_iff₀ hpos]
      have hround : 0 < toDouble q ↔ 0 < roundHalfEven (q / 2 ^ (-1074 : ℤ)) := by
        unfold toDouble
        rw [hspacing, mul_pos_iff_of_pos_right hpos]
        exact Int.cast_pos
      rw [hround, hscaled]
      constructor
      · intro hrounded
        by_contra! hle
        have hneg : (0 : ℤ) - 1 / 2 ≤ -(q / 2 ^ (-1074 : ℤ)) := by
          rw [Int.cast_zero, zero_sub]
          exact neg_le_neg hle
        have hlow := even_le_roundHalfEven (by decide) hneg
        rw [roundHalfEven_neg] at hlow
        omega
      · intro hlt
        have hneg : -(q / 2 ^ (-1074 : ℤ)) < (0 : ℤ) - 1 / 2 := by
          rw [Int.cast_zero, zero_sub]
          exact neg_lt_neg hlt
        have hlow := roundHalfEven_lt hneg
        rw [roundHalfEven_neg] at hlow
        omega
  · have hle := not_lt.mp hq
    have hpos : (0 : ℚ) < 2 ^ (-1075 : ℤ) := by positivity
    exact iff_of_false (hnegative hle).not_gt (by linarith)

theorem toDouble_le (hq : 0 ≤ q) : toDouble q ≤ 2 ^ (spacing q + 53) := by
  have hpos : (0 : ℚ) < 2 ^ spacing q := by positivity
  have hquotient : q / 2 ^ spacing q ≤ ((2 ^ 53 : ℤ) : ℚ) := by
    have hlt := abs_lt_spacing (q := q)
    rw [abs_of_nonneg hq, zpow_add₀ (by norm_num), mul_comm] at hlt
    rw [div_le_iff₀ hpos]
    push_cast
    exact_mod_cast hlt.le
  have hround : (roundHalfEven (q / 2 ^ spacing q) : ℚ) ≤ ((2 ^ 53 : ℤ) : ℚ) := by
    exact_mod_cast roundHalfEven_le hquotient
  rw [toDouble, zpow_add₀ (by norm_num), mul_comm _ ((2 : ℚ) ^ (53 : ℤ))]
  refine mul_le_mul_of_nonneg_right ?_ hpos.le
  exact_mod_cast hround

theorem roundHalfEven_mono (h : p ≤ q) : roundHalfEven p ≤ roundHalfEven q := by
  rcases (Int.floor_mono h).eq_or_lt with hfloor | hfloor
  · have hfract : Int.fract p ≤ Int.fract q := by
      rw [Int.fract, Int.fract, hfloor]
      linarith
    unfold roundHalfEven
    rw [hfloor]
    split_ifs <;> first | omega | (exfalso; linarith)
  · have hp : roundHalfEven p ≤ ⌊p⌋ + 1 := by
      rcases roundHalfEven_cases p with ⟨hround, -⟩ | ⟨hround, -⟩ <;> omega
    have hq : ⌊q⌋ ≤ roundHalfEven q := by
      rcases roundHalfEven_cases q with ⟨hround, -⟩ | ⟨hround, -⟩ <;> omega
    omega

/-- Rounding keeps the order. -/
theorem toDouble_mono (hp : 0 ≤ p) (h : p ≤ q) : toDouble p ≤ toDouble q := by
  rcases hp.eq_or_lt with rfl | hpos
  · rw [toDouble_zero]
    exact toDouble_nonneg h
  · have hlog : Int.log 2 p ≤ Int.log 2 q := Int.log_mono_right hpos h
    have hspacing : spacing p ≤ spacing q := by
      unfold spacing
      rw [abs_of_pos hpos, abs_of_pos (hpos.trans_le h)]
      omega
    rcases hspacing.eq_or_lt with heq | hlt
    · have hscaled : p / 2 ^ spacing q ≤ q / 2 ^ spacing q := by gcongr
      unfold toDouble
      rw [heq]
      gcongr
      exact roundHalfEven_mono hscaled
    · have hnormal : spacing q = Int.log 2 q - 52 := by
        unfold spacing at hlt ⊢
        rw [abs_of_pos (hpos.trans_le h)] at hlt ⊢
        omega
      have hleast : -1074 ≤ spacing p := le_max_right _ _
      calc toDouble p ≤ 2 ^ (spacing p + 53) := toDouble_le hp
        _ ≤ 2 ^ Int.log 2 q := zpow_le_zpow_right₀ (by norm_num) (by omega)
        _ ≤ toDouble q := zpow_log_le_toDouble (hpos.trans_le h) (by omega)

/-- From the middle between the greatest double and the next power of two on, rounding overflows. -/
theorem toDouble_lt_iff (hq : 0 ≤ q) :
    toDouble q < 2 ^ (1024 : ℤ) ↔ q < 2 ^ (1024 : ℤ) - 2 ^ (970 : ℤ) := by
  have hstep : ∀ {a b : ℤ}, a < b → (2 : ℚ) ^ a < 2 ^ b := fun h =>
    zpow_lt_zpow_right₀ (by norm_num) h
  have hdouble : (2 : ℚ) ^ (1024 : ℤ) = 2 ^ (1023 : ℤ) * 2 := zpow_add_one₀ (by norm_num) 1023
  have hgap : (2 : ℚ) ^ (970 : ℤ) < 2 ^ (1023 : ℤ) := hstep (by norm_num)
  have hpos1023 : (0 : ℚ) < 2 ^ (1023 : ℤ) := by positivity
  have hpos970 : (0 : ℚ) < 2 ^ (970 : ℤ) := by positivity
  have hbound : (2 : ℚ) ^ (1023 : ℤ) < 2 ^ (1024 : ℤ) - 2 ^ (970 : ℤ) := by
    rw [lt_sub_iff_add_lt, hdouble, mul_two]
    exact add_lt_add_right hgap _
  rcases hq.eq_or_lt with rfl | hpos
  · rw [toDouble_zero]
    exact iff_of_true (by positivity) (hpos1023.trans hbound)
  · have hlog : (2 : ℚ) ^ Int.log 2 q ≤ q := by
      exact_mod_cast Int.zpow_log_le_self (by norm_num) hpos
    have hlog' : q < (2 : ℚ) ^ (Int.log 2 q + 1) := by
      exact_mod_cast Int.lt_zpow_succ_log_self (by norm_num) q
    rcases lt_trichotomy (Int.log 2 q) 1023 with hlt | heq | hgt
    · have hupper : toDouble q ≤ 2 ^ (1023 : ℤ) := by
        refine (toDouble_le hq).trans (zpow_le_zpow_right₀ (by norm_num) ?_)
        rw [spacing, abs_of_pos hpos]
        omega
      have hbelow : q ≤ 2 ^ (1023 : ℤ) :=
        hlog'.le.trans (zpow_le_zpow_right₀ (by norm_num) (by omega))
      exact iff_of_true (hupper.trans_lt (hstep (by norm_num))) (hbelow.trans_lt hbound)
    · -- the last binade: the quotient by the spacing decides
      have hspacing : spacing q = 971 := by
        rw [spacing, abs_of_pos hpos, heq]
        norm_num
      have hpos971 : (0 : ℚ) < 2 ^ (971 : ℤ) := by positivity
      have htop : (2 : ℚ) ^ (1024 : ℤ) = ((2 ^ 53 : ℤ) : ℚ) * 2 ^ (971 : ℤ) := by
        rw [Int.cast_pow, Int.cast_ofNat]
        exact zpow_add₀ (by norm_num) 53 971
      have hhalf : (2 : ℚ) ^ (970 : ℤ) = 1 / 2 * 2 ^ (971 : ℤ) := by
        have hnext : (2 : ℚ) ^ (971 : ℤ) = 2 ^ (970 : ℤ) * 2 := zpow_add_one₀ (by norm_num) 970
        rw [hnext]
        generalize (2 : ℚ) ^ (970 : ℤ) = x
        ring
      have hround : toDouble q < 2 ^ (1024 : ℤ) ↔ roundHalfEven (q / 2 ^ (971 : ℤ)) < 2 ^ 53 := by
        rw [toDouble, hspacing, htop, mul_lt_mul_iff_of_pos_right hpos971]
        exact Int.cast_lt
      rw [hround, htop, hhalf, ← sub_mul, ← div_lt_iff₀ hpos971]
      constructor
      · intro hrounded
        by_contra! hle
        have hlow := even_le_roundHalfEven (by decide) hle
        omega
      · intro hlt
        exact roundHalfEven_lt hlt
    · have habove : (2 : ℚ) ^ (1024 : ℤ) ≤ 2 ^ Int.log 2 q :=
        zpow_le_zpow_right₀ (by norm_num) (by omega)
      have hrounded := zpow_log_le_toDouble hpos (by omega)
      exact iff_of_false (habove.trans hrounded).not_gt
        ((sub_lt_self _ hpos970).trans_le (habove.trans hlog)).not_gt

/-! ## Relative errors -/

/-- Away from the least doubles the rounding error is at most `2 ^ -53` of the number. -/
theorem abs_toDouble_sub_le_mul (h : 2 ^ (-1022 : ℤ) ≤ |q|) :
    |toDouble q - q| ≤ |q| * 2 ^ (-53 : ℤ) := by
  have hpos : 0 < |q| := lt_of_lt_of_le (by positivity) h
  have hlog : -1022 ≤ Int.log 2 |q| :=
    (Int.zpow_le_iff_le_log (by norm_num) hpos).mp (by exact_mod_cast h)
  have hspacing : spacing q = Int.log 2 |q| + -52 := by
    unfold spacing
    omega
  have hle : (2 : ℚ) ^ Int.log 2 |q| ≤ |q| := by
    exact_mod_cast Int.zpow_log_le_self (by norm_num) hpos
  have hhalf : (2 : ℚ) ^ (-53 : ℤ) = 2 ^ (-52 : ℤ) / 2 := by norm_num
  calc |toDouble q - q| ≤ 2 ^ spacing q / 2 := abs_toDouble_sub_le q
    _ = 2 ^ Int.log 2 |q| * 2 ^ (-53 : ℤ) := by
      rw [hspacing, zpow_add₀ (by norm_num), hhalf, mul_div_assoc]
    _ ≤ |q| * 2 ^ (-53 : ℤ) := mul_le_mul_of_nonneg_right hle (by positivity)

/-- A number that stays below another one by more than its rounding error. -/
theorem toDouble_lt (hnormal : 2 ^ (-1022 : ℤ) ≤ q) (h : q * (1 + 2 ^ (-53 : ℤ)) < p) :
    toDouble q < p := by
  have hpos : 0 < q := lt_of_lt_of_le (by positivity) hnormal
  have herror := abs_toDouble_sub_le_mul (q := q) (by rwa [abs_of_pos hpos])
  rw [abs_of_pos hpos] at herror
  linarith [(abs_le.mp herror).2]

theorem lt_toDouble (hnormal : 2 ^ (-1022 : ℤ) ≤ q) (h : p < q * (1 - 2 ^ (-53 : ℤ))) :
    p < toDouble q := by
  have hpos : 0 < q := lt_of_lt_of_le (by positivity) hnormal
  have herror := abs_toDouble_sub_le_mul (q := q) (by rwa [abs_of_pos hpos])
  rw [abs_of_pos hpos] at herror
  linarith [(abs_le.mp herror).1]

/-- The quotient of two whole numbers is rounded to the same side of every integer. -/
theorem floor_toDouble_div {m : ℕ} (hm : m < 2 ^ 53) (hd : 0 < d) (hscale : (d : ℚ) ≤ 2 ^ 200) :
    ⌊toDouble ((m : ℚ) / d)⌋ = (m / d : ℕ) := by
  have hdpos : (0 : ℚ) < d := by exact_mod_cast hd
  have hlow : ((m / d : ℕ) : ℚ) ≤ (m : ℚ) / d := Nat.cast_div_le
  have hsmall : m / d < 2 ^ 53 := (Nat.div_le_self m d).trans_lt hm
  have hhigh : (m : ℚ) / d + 1 / d ≤ (m / d : ℕ) + 1 := by
    rw [← add_div, div_le_iff₀ hdpos]
    have hnext : m + 1 ≤ (m / d + 1) * d := Nat.lt_mul_of_div_lt (Nat.lt_succ_self _) hd
    exact_mod_cast hnext
  rw [Int.floor_eq_iff]
  constructor
  · have hmono := toDouble_mono (by positivity) hlow
    rw [toDouble_natCast hsmall] at hmono
    exact_mod_cast hmono
  · rcases Nat.eq_zero_or_pos m with rfl | hpos
    · simp [toDouble_zero]
    · have hone : (1 : ℚ) ≤ m := by exact_mod_cast hpos
      have hnormal : (2 : ℚ) ^ (-1022 : ℤ) ≤ |(m : ℚ) / d| := by
        rw [abs_of_nonneg (by positivity), le_div_iff₀ hdpos]
        calc (2 : ℚ) ^ (-1022 : ℤ) * d ≤ 2 ^ (-200 : ℤ) * 2 ^ 200 :=
              mul_le_mul (zpow_le_zpow_right₀ (by norm_num) (by norm_num)) hscale hdpos.le
                (by positivity)
          _ = 1 := by norm_num
          _ ≤ m := hone
      have herror := (abs_le.mp (abs_toDouble_sub_le_mul hnormal)).2
      rw [abs_of_nonneg (by positivity)] at herror
      have hstep : (m : ℚ) / d * 2 ^ (-53 : ℤ) < 1 / d := by
        rw [div_mul_eq_mul_div, div_lt_div_iff_of_pos_right hdpos, zpow_neg, ← div_eq_mul_inv,
          div_lt_one (by positivity)]
        exact_mod_cast hm
      have hlt : toDouble ((m : ℚ) / d) < (m / d : ℕ) + 1 := by linarith
      exact_mod_cast hlt

/-- An integer of 51 bits is found again after a division and a multiplication by a scale. -/
theorem round_toDouble_scaled (hn : |n| < 2 ^ 51) (hd : 0 < d) (hscale : (d : ℚ) ≤ 2 ^ 200) :
    round (toDouble (toDouble (n / d) * d)) = n := by
  rcases eq_or_ne n 0 with rfl | hne
  · simp [toDouble_zero]
  have hdpos : (0 : ℚ) < d := by exact_mod_cast hd
  have hone : (1 : ℚ) ≤ |(n : ℚ)| := by exact_mod_cast Int.one_le_abs hne
  have hbits : |(n : ℚ)| ≤ 2 ^ 51 - 1 := by
    have hle : |n| ≤ 2 ^ 51 - 1 := by omega
    exact_mod_cast hle
  have hquotient : |(n : ℚ) / d| = |(n : ℚ)| / d := by rw [abs_div, abs_of_pos hdpos]
  have hlow : (2 : ℚ) ^ (-1022 : ℤ) ≤ |(n : ℚ) / d| := by
    rw [hquotient, le_div_iff₀ hdpos]
    calc (2 : ℚ) ^ (-1022 : ℤ) * d ≤ 2 ^ (-200 : ℤ) * 2 ^ 200 :=
          mul_le_mul (zpow_le_zpow_right₀ (by norm_num) (by norm_num)) hscale hdpos.le
            (by positivity)
      _ = 1 := by norm_num
      _ ≤ |(n : ℚ)| := hone
  -- the error of the quotient, scaled back up
  have hfirst : |toDouble (n / d) * d - n| ≤ |(n : ℚ)| * 2 ^ (-53 : ℤ) := by
    have herror := abs_toDouble_sub_le_mul hlow
    rw [hquotient] at herror
    have hscaled : toDouble (n / d) * d - n = (toDouble (n / d) - n / d) * d := by
      rw [sub_mul, div_mul_cancel₀ _ hdpos.ne']
    rw [hscaled, abs_mul, abs_of_pos hdpos]
    calc |toDouble (n / d) - n / d| * d ≤ |(n : ℚ)| / d * 2 ^ (-53 : ℤ) * d :=
          mul_le_mul_of_nonneg_right herror hdpos.le
      _ = |(n : ℚ)| * 2 ^ (-53 : ℤ) := by field_simp
  generalize toDouble (n / d) * d = x at hfirst ⊢
  have hupper : |x| ≤ |(n : ℚ)| * (1 + 2 ^ (-53 : ℤ)) := by
    have := abs_sub_abs_le_abs_sub x n
    linarith
  have hlower : 1 / 2 ≤ |x| := by
    have hrev := abs_sub_abs_le_abs_sub (n : ℚ) x
    rw [abs_sub_comm] at hrev
    norm_num at hfirst ⊢
    linarith
  have hnormal : (2 : ℚ) ^ (-1022 : ℤ) ≤ |x| := by
    have hpow : (2 : ℚ) ^ (-1022 : ℤ) ≤ 2 ^ (-1 : ℤ) :=
      zpow_le_zpow_right₀ (by norm_num) (by norm_num)
    exact (hpow.trans (by norm_num)).trans hlower
  have hsecond := abs_toDouble_sub_le_mul hnormal
  have htotal : |toDouble x - n| < 1 / 2 := by
    have hsum := abs_sub_le (toDouble x) x n
    norm_num at hfirst hupper hsecond hbits ⊢
    linarith
  rw [round_eq_iff, Set.mem_Ico]
  obtain ⟨hleft, hright⟩ := abs_lt.mp htotal
  constructor <;> linarith

/-! ## Doubles -/

/-- A finite double. -/
structure Double where
  val : ℚ
  rounded : toDouble val = val
  bounded : |val| < 2 ^ (1024 : ℤ)
deriving DecidableEq

inductive Number where
  | nan
  | infinity
  | negInfinity
  | finite (x : Double)
deriving DecidableEq

/-- The number nearest to a rational. -/
def Number.ofRat (q : ℚ) : Number :=
  if h : |toDouble q| < 2 ^ (1024 : ℤ) then .finite ⟨toDouble q, toDouble_toDouble, h⟩
  else if 0 < q then .infinity
  else .negInfinity

/-- An integer of 53 bits. -/
def Double.ofInt (z : ℤ) (hz : |z| < 2 ^ 53) : Double where
  val := z
  rounded := by
    have hscaled := toDouble_scaled hz (s := 0) (by norm_num)
    rwa [zpow_zero, mul_one] at hscaled
  bounded := by
    have hsmall : |(z : ℚ)| < 2 ^ (53 : ℤ) := by exact_mod_cast hz
    exact hsmall.trans (zpow_lt_zpow_right₀ (by norm_num) (by norm_num))

theorem toDouble_abs (x : Double) : toDouble |x.val| = |x.val| := by
  rcases abs_cases x.val with ⟨habs, -⟩ | ⟨habs, -⟩
  · rw [habs, x.rounded]
  · rw [habs, toDouble_neg, x.rounded]

/-- The greatest double is one spacing below the next power of two. -/
theorem abs_val_le (x : Double) : |x.val| ≤ 2 ^ (1024 : ℤ) - 2 ^ (971 : ℤ) := by
  have hrounded := toDouble_abs x
  have hbounded := x.bounded
  have hnonneg := abs_nonneg x.val
  generalize |x.val| = q at hrounded hbounded hnonneg
  have hstep : ∀ {a b : ℤ}, a ≤ b → (2 : ℚ) ^ a ≤ 2 ^ b := fun h =>
    zpow_le_zpow_right₀ (by norm_num) h
  have hdouble : (2 : ℚ) ^ (1024 : ℤ) = 2 ^ (1023 : ℤ) * 2 := zpow_add_one₀ (by norm_num) 1023
  have hhalf : (2 : ℚ) ^ (1023 : ℤ) ≤ 2 ^ (1024 : ℤ) - 2 ^ (971 : ℤ) := by
    rw [le_sub_iff_add_le, hdouble, mul_two]
    exact add_le_add_right (hstep (by norm_num)) _
  have hpos1023 : (0 : ℚ) < 2 ^ (1023 : ℤ) := by positivity
  rcases hnonneg.eq_or_lt with rfl | hpos
  · exact hpos1023.le.trans hhalf
  · have hlog : Int.log 2 q < 1024 :=
      (Int.lt_zpow_iff_log_lt (by norm_num) hpos).mp (by exact_mod_cast hbounded)
    rcases (show Int.log 2 q ≤ 1023 by omega).lt_or_eq with hlt | heq
    · have hlog' : q < (2 : ℚ) ^ (Int.log 2 q + 1) := by
        exact_mod_cast Int.lt_zpow_succ_log_self (by norm_num) q
      exact (hlog'.le.trans (hstep (by omega))).trans hhalf
    · have hspacing : spacing q = 971 := by
        rw [spacing, abs_of_pos hpos, heq]
        norm_num
      have hpos971 : (0 : ℚ) < 2 ^ (971 : ℤ) := by positivity
      have htop : (2 : ℚ) ^ (1024 : ℤ) = ((2 ^ 53 : ℤ) : ℚ) * 2 ^ (971 : ℤ) := by
        rw [Int.cast_pow, Int.cast_ofNat]
        exact zpow_add₀ (by norm_num) 53 971
      rw [toDouble, hspacing] at hrounded
      rw [← hrounded, htop] at hbounded
      have hlt : roundHalfEven (q / 2 ^ (971 : ℤ)) < 2 ^ 53 := by
        exact_mod_cast lt_of_mul_lt_mul_right hbounded hpos971.le
      have hle : (roundHalfEven (q / 2 ^ (971 : ℤ)) : ℚ) ≤ ((2 ^ 53 - 1 : ℤ) : ℚ) := by
        exact_mod_cast Int.le_sub_one_of_lt hlt
      rw [← hrounded, htop, ← sub_one_mul]
      refine mul_le_mul_of_nonneg_right (hle.trans (le_of_eq ?_)) hpos971.le
      rw [Int.cast_sub, Int.cast_one]

/-- More than half the least double, and not rounded past the greatest. -/
def InRange (q : ℚ) : Prop := 2 ^ (-1075 : ℤ) < q ∧ q < 2 ^ (1024 : ℤ) - 2 ^ (970 : ℤ)

theorem ofRat_eq_finite {x : Double} : Number.ofRat q = .finite x ↔ toDouble q = x.val := by
  unfold Number.ofRat
  constructor
  · intro hx
    split_ifs at hx
    rw [← Number.finite.inj hx]
  · intro hx
    have hbounded : |toDouble q| < 2 ^ (1024 : ℤ) := by
      rw [hx]
      exact x.bounded
    rw [dif_pos hbounded]
    obtain ⟨val, hrounded, hval⟩ := x
    dsimp only at hx
    subst hx
    rfl

/-- The numbers that `Number.ofRat` rounds to a positive finite double. -/
theorem ofRat_pos_iff : (∃ x : Double, Number.ofRat q = .finite x ∧ 0 < x.val) ↔ InRange q := by
  constructor
  · rintro ⟨x, hx, hpos⟩
    unfold Number.ofRat at hx
    split_ifs at hx with hbounded
    obtain rfl := Number.finite.inj hx
    have hq := toDouble_pos_iff.mp hpos
    have hnonneg : 0 ≤ q := le_trans (by positivity) hq.le
    rw [abs_of_pos hpos] at hbounded
    exact ⟨hq, (toDouble_lt_iff hnonneg).mp hbounded⟩
  · rintro ⟨hlow, hhigh⟩
    have hnonneg : 0 ≤ q := le_trans (by positivity) hlow.le
    have hpos := toDouble_pos_iff.mpr hlow
    have hbounded : |toDouble q| < 2 ^ (1024 : ℤ) := by
      rw [abs_of_pos hpos]
      exact (toDouble_lt_iff hnonneg).mpr hhigh
    exact ⟨⟨toDouble q, toDouble_toDouble, hbounded⟩, dif_pos hbounded, hpos⟩

/-- A rational that does not round to an infinity. -/
theorem ofRat_finite (h : |q| < 2 ^ (1024 : ℤ) - 2 ^ (970 : ℤ)) :
    ∃ x : Double, Number.ofRat q = .finite x := by
  have habs : |toDouble q| = toDouble |q| := by
    rcases le_total 0 q with hq | hq
    · rw [abs_of_nonneg hq, abs_of_nonneg (toDouble_nonneg hq)]
    · have hneg := toDouble_nonneg (neg_nonneg.mpr hq)
      rw [abs_of_nonpos hq, toDouble_neg, abs_of_nonpos (by rw [toDouble_neg] at hneg; linarith)]
  have hbounded : |toDouble q| < 2 ^ (1024 : ℤ) := by
    rw [habs]
    exact (toDouble_lt_iff (abs_nonneg q)).mpr h
  exact ⟨_, dif_pos hbounded⟩

/-- Numbers of everyday size do not overflow. -/
theorem ofRat_of_small (h : |q| ≤ 2 ^ 100) :
    ∃ x : Double, Number.ofRat q = .finite x ∧ x.val = toDouble q := by
  have hsmall : |q| < 2 ^ (1024 : ℤ) - 2 ^ (970 : ℤ) := by
    have hdouble : (2 : ℚ) ^ (1024 : ℤ) = 2 ^ (54 : ℤ) * 2 ^ (970 : ℤ) := by
      rw [← zpow_add₀ (by norm_num)]
      norm_num
    have hlarge : (2 : ℚ) ^ (100 : ℤ) ≤ 2 ^ (970 : ℤ) :=
      zpow_le_zpow_right₀ (by norm_num) (by norm_num)
    have hpos : (0 : ℚ) < 2 ^ (970 : ℤ) := by positivity
    rw [hdouble]
    generalize (2 : ℚ) ^ (970 : ℤ) = y at hlarge hpos
    norm_num at h hlarge ⊢
    linarith
  obtain ⟨x, hx⟩ := ofRat_finite hsmall
  exact ⟨x, hx, (ofRat_eq_finite.mp hx).symm⟩

/-- A step that is small beside the greatest double does not leave the doubles. -/
theorem add_finite (x : Double) {step : ℚ} (hstep : |step| < 2 ^ (970 : ℤ)) :
    ∃ y : Double, Number.ofRat (x.val + step) = .finite y := by
  have hdouble : (2 : ℚ) ^ (971 : ℤ) = 2 ^ (970 : ℤ) * 2 := zpow_add_one₀ (by norm_num) 970
  have hle := abs_val_le x
  refine ofRat_finite ((abs_add_le _ _).trans_lt ?_)
  rw [hdouble, mul_two] at hle
  calc |x.val| + |step| < 2 ^ (1024 : ℤ) - (2 ^ (970 : ℤ) + 2 ^ (970 : ℤ)) + 2 ^ (970 : ℤ) :=
        add_lt_add_of_le_of_lt hle hstep
    _ = 2 ^ (1024 : ℤ) - 2 ^ (970 : ℤ) := by
      rw [← sub_sub, sub_add_cancel]

end Binary64
