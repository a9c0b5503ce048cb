import Mathlib

/-!
# Decimal texts

The value of a run of decimal digits, the digits of a number, and numbers written with a fixed
number of decimals.
-/

namespace Decimal

open Nat (toDigits ofDigitChars)

variable {l m : List Char} {n k : ℕ}

def value (l : List Char) : ℕ := ofDigitChars 10 l 0

/-- A text of digits only. -/
def Digits (l : List Char) : Prop := ∀ c ∈ l, c.isDigit = true

instance (l : List Char) : Decidable (Digits l) := inferInstanceAs (Decidable (∀ c ∈ l, _))

/-- `n / 10^k`, written with `k` decimals. -/
def pointed (k n : ℕ) : List Char :=
  toDigits 10 (n / 10 ^ k) ++ '.' :: (toDigits 10 (n % 10 ^ k)).leftpad k '0'

/-! ## Values -/

@[simp]
theorem value_nil : value [] = 0 := Nat.ofDigitChars_nil

theorem value_append : value (l ++ m) = 10 ^ m.length * value l + value m := by
  unfold value
  rw [Nat.ofDigitChars_append, Nat.ofDigitChars_eq_ofDigitChars_zero]

theorem value_toDigits : value (toDigits 10 n) = n := Nat.ofDigitChars_ten_toDigits

theorem value_replicate_zero : value (List.replicate n '0') = 0 := by
  unfold value
  rw [Nat.ofDigitChars_replicate_zero, Nat.mul_zero]

theorem value_leftpad : value (l.leftpad n '0') = value l := by
  unfold List.leftpad
  rw [value_append, value_replicate_zero, Nat.mul_zero, Nat.zero_add]

/-- Zeros in front do not count. -/
theorem value_dropWhile : value (l.dropWhile (· = '0')) = value l := by
  induction l with
  | nil => rfl
  | cons c l ih =>
    by_cases hc : c = '0'
    · have hzero : value ('0' :: l) = value l := by simp [value, Nat.ofDigitChars_cons]
      rw [List.dropWhile_cons_of_pos (by simpa using hc), ih, hc, hzero]
    · rw [List.dropWhile_cons_of_neg (by simpa using hc)]

/-! ## Digits -/

theorem digits_toDigits : Digits (toDigits 10 n) := fun _ hc =>
  Nat.isDigit_of_mem_toDigits (by decide) (by decide) hc

theorem Digits.append (hl : Digits l) (hm : Digits m) : Digits (l ++ m) := by
  intro c hc
  rcases List.mem_append.mp hc with hc | hc
  · exact hl c hc
  · exact hm c hc

theorem digits_replicate_zero : Digits (List.replicate n '0') := by
  intro c hc
  rw [List.eq_of_mem_replicate hc]
  decide

theorem digits_leftpad (hl : Digits l) : Digits (l.leftpad n '0') :=
  digits_replicate_zero.append hl

theorem Digits.not_mem {c : Char} (hl : Digits l) (hc : c.isDigit = false) : c ∉ l := by
  intro hmem
  rw [hl c hmem] at hc
  cases hc

/-! ## Texts from values -/

theorem value_cons {c : Char} : value (c :: l) = 10 ^ l.length * (c.toNat - 48) + value l := by
  have hone : value [c] = c.toNat - 48 := by
    have hzero : '0'.toNat = 48 := rfl
    unfold value
    rw [Nat.ofDigitChars_cons, Nat.ofDigitChars_nil, hzero, Nat.mul_zero, Nat.zero_add]
  rw [← List.singleton_append, value_append, hone]

theorem toNat_of_isDigit {c : Char} (hc : c.isDigit = true) : 48 ≤ c.toNat ∧ c.toNat ≤ 57 := by
  simpa [Char.isDigit, UInt32.le_iff_toNat_le] using hc

theorem Digits.tail {c : Char} (hl : Digits (c :: l)) : Digits l := fun d hd =>
  hl d (List.mem_cons_of_mem _ hd)

theorem value_lt (hl : Digits l) : value l < 10 ^ l.length := by
  induction l with
  | nil => decide
  | cons c l ih =>
    have hrest := ih hl.tail
    have hdigit := toNat_of_isDigit (hl c (by simp))
    have hle : 10 ^ l.length * (c.toNat - 48) ≤ 10 ^ l.length * 9 :=
      Nat.mul_le_mul_left _ (by omega)
    rw [value_cons, List.length_cons, pow_succ]
    omega

/-- Runs of digits of one length are told apart by their values. -/
theorem eq_of_value (hl : Digits l) (hm : Digits m) (hlength : l.length = m.length)
    (hvalue : value l = value m) : l = m := by
  induction l generalizing m with
  | nil => exact (List.length_eq_zero_iff.mp hlength.symm).symm
  | cons c l ih =>
    obtain ⟨d, m, rfl⟩ := List.exists_cons_of_length_eq_add_one hlength.symm
    have htail : l.length = m.length := by simpa using hlength
    have hc := toNat_of_isDigit (hl c (by simp))
    have hd := toNat_of_isDigit (hm d (by simp))
    have hpos : 0 < 10 ^ m.length := by positivity
    have hltl := value_lt hl.tail
    have hltm := value_lt hm.tail
    rw [value_cons, value_cons, htail] at hvalue
    rw [htail] at hltl
    have hquotient := congrArg (· / 10 ^ m.length) hvalue
    simp only [Nat.mul_add_div hpos, Nat.div_eq_of_lt hltl, Nat.div_eq_of_lt hltm,
      Nat.add_zero] at hquotient
    have hchar : c = d := by
      apply Char.toNat_inj.mp
      omega
    rw [hchar, ih hl.tail hm.tail htail (by rw [hquotient] at hvalue; omega)]

/-- A run of digits is its value's digits behind zeros. -/
theorem leftpad_toDigits_value (hl : Digits l) (hne : l ≠ []) :
    (toDigits 10 (value l)).leftpad l.length '0' = l := by
  have hle : (toDigits 10 (value l)).length ≤ l.length :=
    (Nat.length_toDigits_le_iff (by decide) (List.length_pos_iff.mpr hne)).mpr (value_lt hl)
  refine eq_of_value (digits_leftpad digits_toDigits) hl ?_ ?_
  · simp only [List.leftpad, List.length_append, List.length_replicate]
    omega
  · rw [value_leftpad, value_toDigits]

/-- Nothing shorter than the digits of a number has that value, and nothing else is as short. -/
theorem length_toDigits_value_le (hl : Digits l) (hne : l ≠ []) :
    (toDigits 10 (value l)).length ≤ l.length ∧
      ((toDigits 10 (value l)).length = l.length → toDigits 10 (value l) = l) := by
  have hpad := leftpad_toDigits_value hl hne
  constructor
  · exact (Nat.length_toDigits_le_iff (by decide) (List.length_pos_iff.mpr hne)).mpr (value_lt hl)
  · intro hlength
    rw [List.leftpad, hlength, Nat.sub_self, List.replicate_zero, List.nil_append] at hpad
    exact hpad

/-! ## Trailing zeros -/

theorem rdropWhile_append_zeros :
    (l ++ List.replicate n '0').rdropWhile (· = '0') = l.rdropWhile (· = '0') := by
  induction n with
  | zero => rw [List.replicate_zero, List.append_nil]
  | succ n ih =>
    rw [List.replicate_succ', ← List.append_assoc, List.rdropWhile_concat_pos _ _ _ (by simp), ih]

/-- The zeros a text ends with can be put back. -/
theorem exists_zeros : ∃ k, l = l.rdropWhile (· = '0') ++ List.replicate k '0' := by
  refine ⟨(l.rtakeWhile (· = '0')).length, ?_⟩
  have hzeros : l.rtakeWhile (· = '0') = List.replicate (l.rtakeWhile (· = '0')).length '0' :=
    List.eq_replicate_iff.mpr ⟨rfl, fun c hc => by simpa using List.mem_rtakeWhile_imp hc⟩
  rw [← hzeros, List.rdropWhile_append_rtakeWhile]

theorem value_append_zeros : value (l ++ List.replicate n '0') = value l * 10 ^ n := by
  rw [value_append, List.length_replicate, value_replicate_zero, Nat.add_zero, Nat.mul_comm]

theorem Digits.rdropWhile (hl : Digits l) : Digits (l.rdropWhile (· = '0')) := fun c hc =>
  hl c ((List.rdropWhile_prefix _ _).subset hc)

/-! ## Fixed decimals -/

/-- The digits of the decimals fill their places. -/
theorem length_decimals (hk : 0 < k) :
    ((toDigits 10 (n % 10 ^ k)).leftpad k '0').length = k := by
  have hle : (toDigits 10 (n % 10 ^ k)).length ≤ k :=
    (Nat.length_toDigits_le_iff (by decide) hk).mpr (Nat.mod_lt _ (by positivity))
  simp only [List.leftpad, List.length_append, List.length_replicate]
  omega

/-- Without its point the text is the number itself. -/
theorem value_pointed (hk : 0 < k) : value ((pointed k n).erase '.') = n := by
  have hnot : '.' ∉ toDigits 10 (n / 10 ^ k) := digits_toDigits.not_mem (by decide)
  unfold pointed
  rw [List.erase_append_right _ hnot, List.erase_cons_head, value_append, length_decimals hk,
    value_toDigits, value_leftpad, value_toDigits]
  exact Nat.div_add_mod n (10 ^ k)

theorem digits_pointed : Digits ((pointed k n).erase '.') := by
  have hnot : '.' ∉ toDigits 10 (n / 10 ^ k) := digits_toDigits.not_mem (by decide)
  unfold pointed
  rw [List.erase_append_right _ hnot, List.erase_cons_head]
  exact digits_toDigits.append (digits_leftpad digits_toDigits)

end Decimal
