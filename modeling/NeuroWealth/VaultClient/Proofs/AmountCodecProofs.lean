import NeuroWealth.VaultClient.AmountCodec

/-!
# The amount codecs round trip

A text that is accepted denotes the number of units it is read as, and of all texts with a value the
one that is printed is the shortest.
-/

namespace NeuroWealth.AmountCodec

open Decimal Regex Text

variable {v whole fraction s : List Char} {d : ℕ} {maxI128 u : ℤ}

/-! ## Accepted texts -/

/-- A run of digits, or one with a point and more digits behind it. -/
structure Written (v whole fraction : List Char) : Prop where
  ne_nil : whole ≠ []
  wholeDigits : Digits whole
  fractionDigits : Digits fraction
  text : v = whole ∧ fraction = [] ∨ v = whole ++ '.' :: fraction

theorem test_iff_written : decimalFormat.test v ↔ ∃ whole fraction, Written v whole fraction := by
  unfold decimalFormat
  simp only [test_iff, takes_seq, takes_start, takes_some, takes_opt, takes_word, takes_many,
    takes_stop, List.getLast?_eq_none_iff]
  constructor
  · rintro ⟨before, _, rest, rfl, _, _, rfl, ⟨rfl, rfl⟩, whole, _, rfl, ⟨hne, hwhole⟩, point, _,
      rfl, hpoint, rfl, hrest⟩
    obtain rfl : rest = [] := by simpa using hrest
    rcases hpoint with ⟨_, fraction, rfl, rfl, hfraction⟩ | rfl
    · exact ⟨whole, fraction, hne, hwhole, hfraction, .inr (by simp)⟩
    · exact ⟨whole, [], hne, hwhole, by simp [Digits], .inl (by simp)⟩
  · rintro ⟨whole, fraction, hne, hwhole, hfraction, ⟨rfl, rfl⟩ | rfl⟩
    · exact ⟨[], v, [], by simp, [], v, rfl, ⟨rfl, rfl⟩, v, [], by simp, ⟨hne, hwhole⟩, [], [], rfl,
        .inr rfl, rfl, rfl⟩
    · exact ⟨[], whole ++ '.' :: fraction, [], by simp, [], _, rfl, ⟨rfl, rfl⟩, whole,
        '.' :: fraction, rfl, ⟨hne, hwhole⟩, '.' :: fraction, [], by simp,
        .inl ⟨['.'], fraction, rfl, rfl, hfraction⟩, rfl, rfl⟩

namespace Written

theorem splitPoint (h : Written v whole fraction) :
    AmountCodec.splitPoint v = (whole, fraction) := by
  have hpoint : ∀ l : List Char, Digits l → l.splitOn '.' = [l] := fun l hl =>
    List.splitOn_eq_singleton (hl.not_mem (by decide))
  unfold AmountCodec.splitPoint
  rcases h.text with ⟨rfl, rfl⟩ | rfl
  · rw [hpoint _ h.wholeDigits]
  · rw [List.splitOn_append_cons_self_of_not_mem (h.wholeDigits.not_mem (by decide)),
      hpoint _ h.fractionDigits]

/-- Digits and points only. -/
theorem isSpace_eq_false (h : Written v whole fraction) : ∀ c ∈ v, isSpace c = false := by
  intro c hc
  have hdigits : Digits (whole ++ fraction) := h.wholeDigits.append h.fractionDigits
  have hcase : c ∈ whole ++ fraction ∨ c = '.' := by
    rcases h.text with ⟨rfl, rfl⟩ | rfl
    · exact .inl (by simpa using hc)
    · simp only [List.mem_append, List.mem_cons] at hc ⊢
      tauto
  rcases hcase with hdigit | rfl
  · exact isSpace_of_isDigit (hdigits c hdigit)
  · decide

theorem trim_eq (h : Written v whole fraction) : trim v = v := trim_eq_self h.isSpace_eq_false

theorem isDigit_head (h : Written v whole fraction) : ∃ c l, v = c :: l ∧ c.isDigit = true := by
  obtain ⟨c, l, hwhole⟩ := List.exists_cons_of_ne_nil h.ne_nil
  have hc : c.isDigit = true := h.wholeDigits c (by simp [hwhole])
  rcases h.text with ⟨rfl, -⟩ | rfl
  · exact ⟨c, l, hwhole, hc⟩
  · exact ⟨c, l ++ '.' :: fraction, by simp [hwhole], hc⟩

end Written

/-! ## Parsing -/

/-- The units of a text with at most `d` decimals. -/
def units (d : ℕ) (whole fraction : List Char) : ℕ :=
  value whole * 10 ^ d + value fraction * 10 ^ (d - fraction.length)

theorem value_orZero : value (orZero s) = value s := by
  unfold orZero
  split_ifs with hnil
  · rw [hnil]
    decide
  · rfl

theorem take_padded (h : fraction.length ≤ d) : (fraction ++ List.replicate d '0').take d =
    fraction ++ List.replicate (d - fraction.length) '0' := by
  rw [List.take_append, List.take_of_length_le h, List.take_replicate]
  congr 2
  omega

/-- What is accepted, and what it is read as. -/
theorem parse_eq_ok_iff : parse d (10 ^ d) maxI128 s = .ok u ↔ ∃ whole fraction,
    Written (trim s) whole fraction ∧ fraction.length ≤ d ∧ u = units d whole fraction ∧
      u ≤ maxI128 := by
  unfold parse
  dsimp only
  by_cases htest : decimalFormat.test (trim s)
  · obtain ⟨whole, fraction, h⟩ := test_iff_written.mp htest
    have hunique : ∀ whole' fraction', Written (trim s) whole' fraction' →
        whole' = whole ∧ fraction' = fraction := fun _ _ h' =>
      Prod.mk.inj (h'.splitPoint.symm.trans h.splitPoint)
    obtain ⟨c, l, hv, hc⟩ := h.isDigit_head
    have hnil : trim s ≠ [] := by simp [hv]
    have hsign : ¬ ['-'] <+: trim s := by
      rw [hv, List.cons_prefix_cons]
      rintro ⟨rfl, -⟩
      cases hc
    rw [if_neg hnil, if_neg hsign, if_neg (not_not.mpr htest), h.splitPoint]
    dsimp only
    rw [value_orZero]
    by_cases hlong : fraction.length > d
    · rw [if_pos hlong]
      refine ⟨nofun, ?_⟩
      rintro ⟨whole', fraction', h', hlength, -⟩
      rw [(hunique _ _ h').2] at hlength
      omega
    · have hlength : fraction.length ≤ d := by omega
      have hunits : (value whole : ℤ) * (10 ^ d : ℕ) +
          value ((fraction ++ List.replicate d '0').take d) = units d whole fraction := by
        rw [take_padded hlength, value_append_zeros]
        unfold units
        push_cast
        rfl
      rw [if_neg hlong, hunits]
      split_ifs with hover
      · refine ⟨nofun, ?_⟩
        rintro ⟨whole', fraction', h', -, hu, hle⟩
        obtain ⟨rfl, rfl⟩ := hunique _ _ h'
        omega
      · constructor
        · intro hok
          obtain rfl := Except.ok.inj hok
          exact ⟨whole, fraction, h, hlength, rfl, by omega⟩
        · rintro ⟨whole', fraction', h', -, hu, -⟩
          obtain ⟨rfl, rfl⟩ := hunique _ _ h'
          rw [hu]
  · constructor
    · intro hok
      split_ifs at hok
    · rintro ⟨whole, fraction, h, -⟩
      exact absurd (test_iff_written.mpr ⟨whole, fraction, h⟩) htest

/-! ## Printing -/

/-- The decimals that are printed. -/
def decimals (d n : ℕ) : List Char :=
  ((Nat.toDigits 10 (n % 10 ^ d)).leftpad d '0').rdropWhile (· = '0')

def printed (d n : ℕ) : List Char :=
  if decimals d n ≠ [] then Nat.toDigits 10 (n / 10 ^ d) ++ '.' :: decimals d n
  else Nat.toDigits 10 (n / 10 ^ d)

theorem format_eq (hnonneg : 0 ≤ u) (hle : u ≤ maxI128) :
    format d (10 ^ d) maxI128 u = .ok (printed d u.toNat) := by
  unfold format
  rw [if_neg (by omega), if_neg (by omega)]
  rfl

theorem written_printed {n : ℕ} :
    Written (printed d n) (Nat.toDigits 10 (n / 10 ^ d)) (decimals d n) := by
  refine ⟨Nat.toDigits_ne_nil, digits_toDigits, (digits_leftpad digits_toDigits).rdropWhile, ?_⟩
  unfold printed
  split_ifs with hnil
  · exact .inr rfl
  · exact .inl ⟨rfl, not_not.mp hnil⟩

/-- The decimals with their zeros put back. -/
theorem decimals_append_zeros {n : ℕ} (hd : 0 < d) : (decimals d n).length ≤ d ∧
    decimals d n ++ List.replicate (d - (decimals d n).length) '0' =
      (Nat.toDigits 10 (n % 10 ^ d)).leftpad d '0' := by
  obtain ⟨k, hk⟩ := exists_zeros (l := (Nat.toDigits 10 (n % 10 ^ d)).leftpad d '0')
  have hlength := congrArg List.length hk
  rw [length_decimals hd, List.length_append, List.length_replicate] at hlength
  change d = (decimals d n).length + k at hlength
  have hzeros : d - (decimals d n).length = k := by omega
  refine ⟨by omega, ?_⟩
  rw [hzeros]
  exact hk.symm

theorem units_printed {n : ℕ} (hd : 0 < d) :
    units d (Nat.toDigits 10 (n / 10 ^ d)) (decimals d n) = n := by
  have hvalue := congrArg value (decimals_append_zeros (n := n) hd).2
  rw [value_append_zeros, value_leftpad, value_toDigits] at hvalue
  unfold units
  rw [hvalue, value_toDigits]
  exact Nat.div_add_mod' n (10 ^ d)

/-- Both parts of the units of a text. -/
theorem units_split (h : Written v whole fraction) (hlength : fraction.length ≤ d) (hd : 0 < d) :
    units d whole fraction / 10 ^ d = value whole ∧
      decimals d (units d whole fraction) = fraction.rdropWhile (· = '0') := by
  have hdigits : Digits (fraction ++ List.replicate (d - fraction.length) '0') :=
    h.fractionDigits.append digits_replicate_zero
  have hlength' : (fraction ++ List.replicate (d - fraction.length) '0').length = d := by
    rw [List.length_append, List.length_replicate]
    omega
  have hlt := value_lt hdigits
  rw [hlength', value_append_zeros] at hlt
  constructor
  · unfold units
    rw [Nat.add_comm, Nat.add_mul_div_right _ _ (by positivity), Nat.div_eq_of_lt hlt, Nat.zero_add]
  · have hmod : units d whole fraction % 10 ^ d =
        value (fraction ++ List.replicate (d - fraction.length) '0') := by
      unfold units
      rw [Nat.add_comm, Nat.add_mul_mod_self_right, Nat.mod_eq_of_lt hlt, value_append_zeros]
    have hne : fraction ++ List.replicate (d - fraction.length) '0' ≠ [] := by
      rw [← List.length_pos_iff, hlength']
      exact hd
    have hpad := leftpad_toDigits_value hdigits hne
    rw [hlength'] at hpad
    unfold decimals
    rw [hmod, hpad, rdropWhile_append_zeros]

/-- No other text with the same units is as short. -/
theorem printed_shortest (h : Written v whole fraction) (hlength : fraction.length ≤ d)
    (hd : 0 < d) : v = printed d (units d whole fraction) ∨
      (printed d (units d whole fraction)).length < v.length := by
  obtain ⟨hquotient, hdecimals⟩ := units_split h hlength hd
  obtain ⟨hwhole, hwhole'⟩ := length_toDigits_value_le h.wholeDigits h.ne_nil
  have hprefix := List.rdropWhile_prefix (· = '0') fraction
  have hfraction := hprefix.length_le
  unfold printed
  rw [hquotient, hdecimals]
  rcases h.text with ⟨rfl, rfl⟩ | rfl
  · rw [List.rdropWhile_nil, if_neg (by simp)]
    rcases hwhole.eq_or_lt with heq | hlt
    · exact .inl (hwhole' heq).symm
    · exact .inr hlt
  · split_ifs with hnil
    · rcases hwhole.eq_or_lt with heq | hlt
      · rcases hfraction.eq_or_lt with heq' | hlt'
        · exact .inl (by rw [hwhole' heq, hprefix.eq_of_length heq'])
        · exact .inr (by simp only [List.length_append, List.length_cons]; omega)
      · exact .inr (by simp only [List.length_append, List.length_cons]; omega)
    · exact .inr (by simp only [List.length_append, List.length_cons]; omega)

/-! ## Round trips -/

/-- The text denotes the number `x`, with at most `d` decimals. -/
def Denotes (d : ℕ) (v : List Char) (x : ℚ) : Prop :=
  ∃ whole fraction, Written v whole fraction ∧ fraction.length ≤ d ∧
    x = value whole + value fraction / 10 ^ fraction.length

/-- A codec is exact: what is printed reads back; a text is accepted if and only if, trimmed, it
    denotes a number within the maximum, and is read as this number; and what is printed for an
    accepted text is the one shortest accepted text with its value. -/
structure Exact (d : ℕ) (maxI128 : ℤ) (parse : List Char → Except AmountErrorCode ℤ)
    (format : ℤ → Except AmountErrorCode (List Char)) : Prop where
  roundTrip : ∀ u, 0 ≤ u → u ≤ maxI128 → ∃ v, format u = .ok v ∧ parse v = .ok u
  accepts : ∀ s u, parse s = .ok u ↔
    ∃ x : ℚ, Denotes d (trim s) x ∧ x ≤ maxI128 / 10 ^ d ∧ (u : ℚ) = x * 10 ^ d
  shortest : ∀ s u, parse s = .ok u → ∃ v, format u = .ok v ∧ parse v = .ok u ∧
    ∀ s', parse s' = .ok u → s' = v ∨ v.length < s'.length

theorem units_eq (hlength : fraction.length ≤ d) : (units d whole fraction : ℚ) =
    (value whole + value fraction / 10 ^ fraction.length) * 10 ^ d := by
  have hpow : (10 : ℚ) ^ d = 10 ^ fraction.length * 10 ^ (d - fraction.length) := by
    rw [← pow_add]
    congr 1
    omega
  unfold units
  push_cast
  rw [add_mul, div_mul_eq_mul_div, hpow]
  field_simp

theorem exact_codec (hd : 0 < d) :
    Exact d maxI128 (parse d (10 ^ d) maxI128) (format d (10 ^ d) maxI128) := by
  have hround : ∀ u, 0 ≤ u → u ≤ maxI128 →
      parse d (10 ^ d) maxI128 (printed d u.toNat) = .ok u := by
    intro u hnonneg hle
    have hwritten : Written (trim (printed d u.toNat)) (Nat.toDigits 10 (u.toNat / 10 ^ d))
        (decimals d u.toNat) := by
      rw [written_printed.trim_eq]
      exact written_printed
    refine parse_eq_ok_iff.mpr ⟨_, _, hwritten, (decimals_append_zeros hd).1, ?_, hle⟩
    rw [units_printed hd]
    omega
  refine ⟨fun u hnonneg hle => ⟨_, format_eq hnonneg hle, hround u hnonneg hle⟩, fun s u => ?_,
    fun s u hok => ?_⟩
  · rw [parse_eq_ok_iff]
    constructor
    · rintro ⟨whole, fraction, h, hlength, rfl, hle⟩
      refine ⟨_, ⟨whole, fraction, h, hlength, rfl⟩, ?_, ?_⟩
      · rw [le_div_iff₀ (by positivity), ← units_eq hlength]
        exact_mod_cast hle
      · exact_mod_cast units_eq hlength
    · rintro ⟨x, ⟨whole, fraction, h, hlength, rfl⟩, hle, hu⟩
      rw [← units_eq hlength] at hu
      rw [le_div_iff₀ (by positivity), ← units_eq hlength] at hle
      have hu' : u = units d whole fraction := by exact_mod_cast hu
      refine ⟨whole, fraction, h, hlength, hu', ?_⟩
      rw [hu']
      exact_mod_cast hle
  · obtain ⟨_, _, -, -, hu, hle⟩ := parse_eq_ok_iff.mp hok
    refine ⟨_, format_eq (by omega) hle, hround u (by omega) hle, fun s' hok' => ?_⟩
    obtain ⟨whole, fraction, h, hlength, hu', -⟩ := parse_eq_ok_iff.mp hok'
    have hunits : u.toNat = units d whole fraction := by omega
    rw [hunits]
    have hshortest := printed_shortest h hlength hd
    by_cases htrim : trim s' = s'
    · rwa [htrim] at hshortest
    · have hlt := trim_length_lt htrim
      rcases hshortest with heq | hshorter
      · exact .inr (by rwa [heq] at hlt)
      · exact .inr (by omega)

end NeuroWealth.AmountCodec

namespace NeuroWealth

open AmountCodec (Exact)

/-- Both codecs are exact, and the same. -/
theorem amountCodec_exact :
    Exact 7 (2 ^ 127 - 1) VaultClient.parseAmountToUnits VaultClient.formatUnitsToAmount ∧
      (∀ s, Frontend.parseAmountToUnits s = VaultClient.parseAmountToUnits s) ∧
      ∀ u, Frontend.formatUnitsToAmount u = VaultClient.formatUnitsToAmount u :=
  ⟨AmountCodec.exact_codec (by decide), fun _ => rfl, fun _ => rfl⟩

end NeuroWealth
