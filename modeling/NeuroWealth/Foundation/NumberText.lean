import NeuroWealth.Foundation.Decimal
import NeuroWealth.Foundation.Numbers
import NeuroWealth.Foundation.Text

/-!
# Numbers as texts

Reading a number from the front of a text, and printing a double with as few digits as tell it from
the others. What is printed denotes a decimal that rounds to the double, so no two have one text.
-/

namespace Binary64

open Decimal Text

variable {x y : Double} {D whole fraction : List Char}

/-- The number written with these digits before and behind a point. -/
def numeral (whole fraction : List Char) : ℚ :=
  value whole + value fraction / 10 ^ fraction.length

theorem numeral_nonneg : 0 ≤ numeral whole fraction := by
  unfold numeral
  positivity

/-! ## Reading -/

/-- The digits of a text behind its point, if there is one. -/
def pointDigits : List Char → List Char
  | '.' :: rest => rest.takeWhile Char.isDigit
  | _ => []

/-- `parseFloat` of a text that starts with digits and points: the longest numeral is read, the rest
    is ignored. -/
def parseFloat (s : List Char) : Number :=
  let whole := s.takeWhile Char.isDigit
  let fraction := pointDigits (s.dropWhile Char.isDigit)
  if whole = [] ∧ fraction = [] then .nan else .ofRat (numeral whole fraction)

/-! ## Printing -/

/-- The exponent of the last of `k` digits. -/
def lastExponent (q : ℚ) (k : ℕ) : ℤ := Int.log 10 q + 1 - k

/-- The decimals of `k` digits below and above a number, the nearer one first. -/
def neighbours (q : ℚ) (k : ℕ) : List ℕ :=
  let scaled := q / 10 ^ lastExponent q k
  if Int.fract scaled ≤ 1 / 2 then [⌊scaled⌋.toNat, ⌊scaled⌋.toNat + 1]
  else [⌊scaled⌋.toNat + 1, ⌊scaled⌋.toNat]

/-- The nearest decimal of `k` digits, if it rounds to the number. -/
def withDigits (q : ℚ) (k : ℕ) : Option ℕ :=
  (neighbours q k).find? fun m => toDouble (m * 10 ^ lastExponent q k) = q

/-- Powers of two down to a negative exponent are decimals with as many places. -/
theorem scaled_div {z s : ℤ} {j : ℕ} (hs : -(j : ℤ) ≤ s) :
    ((z : ℚ) * 2 ^ s) / 10 ^ (-(j : ℤ)) = ((z * 2 ^ (s + j).toNat * 5 ^ j : ℤ) : ℚ) := by
  have hten : (10 : ℚ) ^ j = 2 ^ j * 5 ^ j := by
    rw [← mul_pow]
    norm_num
  have htwo : (2 : ℚ) ^ s * 2 ^ j = 2 ^ (s + j).toNat := by
    rw [← zpow_natCast, ← zpow_natCast, ← zpow_add₀ (by norm_num), Int.toNat_of_nonneg (by omega)]
  rw [zpow_neg, div_inv_eq_mul, zpow_natCast, hten]
  push_cast
  rw [← htwo]
  ring

/-- Every positive double is a decimal. -/
theorem exists_withDigits (hx : 0 < x.val) : ∃ k, (withDigits x.val (k + 1)).isSome := by
  have hspacing : -((1074 : ℕ) : ℤ) ≤ spacing x.val := le_max_right _ _
  have hpos : (0 : ℚ) < 2 ^ spacing x.val := by positivity
  obtain ⟨z, hz⟩ : ∃ z : ℤ, x.val = z * 2 ^ spacing x.val := ⟨_, x.rounded.symm⟩
  have hzpos : 0 < z := by
    rw [hz, mul_pos_iff_of_pos_right hpos] at hx
    exact_mod_cast hx
  have hlog : -((1074 : ℕ) : ℤ) ≤ Int.log 10 x.val := by
    refine (Int.zpow_le_iff_le_log (by norm_num) hx).mp ?_
    have hbase : (10 : ℚ) ^ (-((1074 : ℕ) : ℤ)) ≤ 2 ^ (-((1074 : ℕ) : ℤ)) := by
      rw [zpow_neg, zpow_neg, zpow_natCast, zpow_natCast]
      exact inv_anti₀ (by positivity) (pow_le_pow_left₀ (by norm_num) (by norm_num) _)
    have hexp : (2 : ℚ) ^ (-((1074 : ℕ) : ℤ)) ≤ 2 ^ spacing x.val :=
      zpow_le_zpow_right₀ (by norm_num) hspacing
    have hone : (2 : ℚ) ^ spacing x.val ≤ x.val :=
      calc (2 : ℚ) ^ spacing x.val ≤ z * 2 ^ spacing x.val :=
            le_mul_of_one_le_left hpos.le (by exact_mod_cast hzpos)
        _ = x.val := hz.symm
    rw [Nat.cast_ofNat]
    exact hbase.trans (hexp.trans hone)
  refine ⟨(Int.log 10 x.val + (1074 : ℕ)).toNat, ?_⟩
  have hlast : lastExponent x.val ((Int.log 10 x.val + (1074 : ℕ)).toNat + 1) =
      -((1074 : ℕ) : ℤ) := by
    unfold lastExponent
    push_cast
    omega
  obtain ⟨m, hm⟩ : ∃ m : ℤ, x.val / 10 ^ (-((1074 : ℕ) : ℤ)) = m := by
    refine ⟨_, Eq.trans ?_ (scaled_div (z := z) hspacing)⟩
    rw [← hz]
  have hten : (0 : ℚ) < 10 ^ (-((1074 : ℕ) : ℤ)) := by positivity
  have hnonneg : 0 ≤ m := by
    have hdiv : 0 ≤ x.val / 10 ^ (-((1074 : ℕ) : ℤ)) := (div_pos hx hten).le
    rw [hm] at hdiv
    exact_mod_cast hdiv
  have hwhole : (m.toNat : ℚ) * 10 ^ (-((1074 : ℕ) : ℤ)) = x.val := by
    have hcast : (m.toNat : ℚ) = m := by exact_mod_cast Int.toNat_of_nonneg hnonneg
    rw [hcast, ← hm, div_mul_cancel₀ _ hten.ne']
  unfold withDigits neighbours
  rw [hlast]
  dsimp only
  rw [hm, Int.fract_intCast, if_pos (by norm_num), Int.floor_intCast, List.find?_isSome]
  refine ⟨_, List.mem_cons_self, ?_⟩
  rw [decide_eq_true_iff, hwhole, x.rounded]

/-- The shortest decimal that rounds to a positive double, as a whole number and an exponent. -/
def shortest (x : Double) (hx : 0 < x.val) : ℕ × ℤ :=
  let k := Nat.find (exists_withDigits hx) + 1
  ((withDigits x.val k).get (Nat.find_spec (exists_withDigits hx)), lastExponent x.val k)

def exponentText (k : ℤ) : List Char :=
  'e' :: (if k < 0 then '-' else '+') :: Nat.toDigits 10 k.natAbs

/-- The digits `D` with the point behind the `n`-th of them. -/
def layout (D : List Char) (n : ℤ) : List Char :=
  if D.length ≤ n ∧ n ≤ 21 then D ++ List.replicate (n - D.length).toNat '0'
  else if 0 < n ∧ n ≤ 21 then D.take n.toNat ++ '.' :: D.drop n.toNat
  else if -6 < n ∧ n ≤ 0 then ['0'] ++ '.' :: (List.replicate (-n).toNat '0' ++ D)
  else
    (if D.length = 1 then D else D.take 1 ++ '.' :: D.drop 1) ++ exponentText (n - 1)

def positiveText (x : Double) (hx : 0 < x.val) : List Char :=
  let digits := Nat.toDigits 10 (shortest x hx).1
  layout (digits.rdropWhile (· = '0')) ((shortest x hx).2 + digits.length)

/-! ## Reading back what is printed -/

def readMantissa (m : List Char) : ℚ :=
  numeral (m.takeWhile Char.isDigit) (pointDigits (m.dropWhile Char.isDigit))

def readExponent : List Char → ℤ
  | 'e' :: '-' :: l => -value l
  | 'e' :: '+' :: l => value l
  | _ => 0

/-- The number a printed text denotes. -/
def read (t : List Char) : ℚ :=
  readMantissa (t.takeWhile (· ≠ 'e')) * 10 ^ readExponent (t.dropWhile (· ≠ 'e'))

theorem readMantissa_digits (hD : Digits D) : readMantissa D = value D := by
  obtain ⟨htake, hdrop⟩ := takeWhile_append_of_head (t := []) hD (by simp)
  rw [List.append_nil] at htake hdrop
  unfold readMantissa numeral
  rw [htake, hdrop]
  simp [pointDigits]

theorem readMantissa_pointed (hwhole : Digits whole) (hfraction : Digits fraction) :
    readMantissa (whole ++ '.' :: fraction) = numeral whole fraction := by
  obtain ⟨htake, hdrop⟩ := takeWhile_append_of_head (t := '.' :: fraction) hwhole (by simp)
  obtain ⟨htake', -⟩ := takeWhile_append_of_head (t := []) hfraction (by simp)
  rw [List.append_nil] at htake'
  unfold readMantissa
  rw [htake, hdrop, pointDigits, htake']

theorem read_mantissa {m : List Char} (hm : 'e' ∉ m) : read m = readMantissa m := by
  have hne : ∀ c ∈ m, (decide (c ≠ 'e')) = true := fun c hc => by
    rw [decide_eq_true_iff]
    rintro rfl
    exact hm hc
  unfold read
  rw [List.takeWhile_eq_self_iff.mpr hne, List.dropWhile_eq_nil_iff.mpr hne]
  simp [readExponent]

theorem read_exponent {m : List Char} {k : ℤ} (hm : 'e' ∉ m) :
    read (m ++ exponentText k) = readMantissa m * 10 ^ k := by
  have hne : ∀ c ∈ m, (decide (c ≠ 'e')) = true := fun c hc => by
    rw [decide_eq_true_iff]
    rintro rfl
    exact hm hc
  have hexponent : readExponent (exponentText k) = k := by
    unfold exponentText
    split_ifs with hneg
    · rw [readExponent, value_toDigits]
      omega
    · rw [readExponent, value_toDigits]
      omega
  have htail : (exponentText k).takeWhile (· ≠ 'e') = [] ∧
      (exponentText k).dropWhile (· ≠ 'e') = exponentText k :=
    ⟨List.takeWhile_cons_of_neg (by simp), List.dropWhile_cons_of_neg (by simp)⟩
  unfold read
  rw [List.takeWhile_append_of_pos hne, List.dropWhile_append_of_pos hne, htail.1, htail.2,
    List.append_nil, hexponent]

theorem numeral_take_drop {j : ℕ} (hj : j ≤ D.length) :
    numeral (D.take j) (D.drop j) = value D * 10 ^ ((j : ℤ) - D.length) := by
  have hvalue : value D = 10 ^ (D.length - j) * value (D.take j) + value (D.drop j) := by
    conv_lhs => rw [← List.take_append_drop j D]
    rw [value_append, List.length_drop]
  have hpow : (10 : ℚ) ^ ((j : ℤ) - D.length) = (10 ^ (D.length - j))⁻¹ := by
    rw [← zpow_natCast, ← zpow_neg]
    congr 1
    omega
  unfold numeral
  rw [List.length_drop, hpow, hvalue]
  push_cast
  field_simp

/-- The layout denotes its digits with their last place at `n - D.length`. -/
theorem read_layout {n : ℤ} (hD : Digits D) (hne : D ≠ []) :
    read (layout D n) = value D * 10 ^ (n - D.length) := by
  have hlength := List.length_pos_iff.mpr hne
  have hnot : ∀ {l : List Char}, Digits l → 'e' ∉ l := fun hl => hl.not_mem (by decide)
  have hpointed : ∀ {l m : List Char}, Digits l → Digits m → 'e' ∉ l ++ '.' :: m := by
    intro l m hl hm hmem
    rcases List.mem_append.mp hmem with h | h
    · exact hnot hl h
    · rcases List.mem_cons.mp h with h | h
      · exact absurd h (by decide)
      · exact hnot hm h
  have htake : ∀ j, Digits (D.take j) := fun j c hc => hD c (List.mem_of_mem_take hc)
  have hdrop : ∀ j, Digits (D.drop j) := fun j c hc => hD c (List.mem_of_mem_drop hc)
  unfold layout
  by_cases hinteger : D.length ≤ n ∧ n ≤ 21
  · have hdigits := hD.append (digits_replicate_zero (n := (n - D.length).toNat))
    rw [if_pos hinteger, read_mantissa (hnot hdigits), readMantissa_digits hdigits,
      value_append_zeros]
    push_cast
    rw [← zpow_natCast, Int.toNat_of_nonneg (by omega)]
  by_cases hinside : 0 < n ∧ n ≤ 21
  · rw [if_neg hinteger, if_pos hinside, read_mantissa (hpointed (htake _) (hdrop _)),
      readMantissa_pointed (htake _) (hdrop _), numeral_take_drop (by omega),
      Int.toNat_of_nonneg (by omega)]
  by_cases hsmall : -6 < n ∧ n ≤ 0
  · have hfraction := (digits_replicate_zero (n := (-n).toNat)).append hD
    have hzero : Digits ['0'] := digits_replicate_zero (n := 1)
    have hvalue : value ['0'] = 0 := value_replicate_zero (n := 1)
    have hpow : (10 : ℚ) ^ (n - D.length) = (10 ^ ((-n).toNat + D.length))⁻¹ := by
      rw [← zpow_natCast, ← zpow_neg]
      congr 1
      omega
    rw [if_neg hinteger, if_neg hinside, if_pos hsmall, read_mantissa (hpointed hzero hfraction),
      readMantissa_pointed hzero hfraction, numeral, hvalue, value_append, value_replicate_zero,
      List.length_append, List.length_replicate, hpow, Nat.mul_zero, Nat.zero_add, Nat.cast_zero,
      zero_add, div_eq_mul_inv]
  rw [if_neg hinteger, if_neg hinside, if_neg hsmall]
  by_cases hone : D.length = 1
  · rw [if_pos hone, read_exponent (hnot hD), readMantissa_digits hD, hone]
    rfl
  · rw [if_neg hone, read_exponent (hpointed (htake 1) (hdrop 1)),
      readMantissa_pointed (htake 1) (hdrop 1), numeral_take_drop hlength, mul_assoc,
      ← zpow_add₀ (by norm_num)]
    congr 2
    push_cast
    ring

/-! ## The text of a double -/

/-- A character of a printed number, its sign apart. -/
def isNumberChar (c : Char) : Bool := c.isDigit || c ∈ ['.', 'e', '+', '-']

theorem layout_chars {n : ℤ} (hD : Digits D) : ∀ c ∈ layout D n, isNumberChar c := by
  have hdigits : ∀ {l : List Char}, Digits l → ∀ c ∈ l, isNumberChar c := fun hl c hc => by
    simp [isNumberChar, hl c hc]
  have happend : ∀ {l m : List Char}, (∀ c ∈ l, isNumberChar c) → (∀ c ∈ m, isNumberChar c) →
      ∀ c ∈ l ++ m, isNumberChar c := fun hl hm c hc =>
    (List.mem_append.mp hc).elim (hl c) (hm c)
  have hcons : ∀ {d : Char} {l : List Char}, isNumberChar d → (∀ c ∈ l, isNumberChar c) →
      ∀ c ∈ d :: l, isNumberChar c := fun hd hl c hc => by
    rcases List.mem_cons.mp hc with rfl | hc
    · exact hd
    · exact hl c hc
  have htake : ∀ j, Digits (D.take j) := fun j c hc => hD c (List.mem_of_mem_take hc)
  have hdrop : ∀ j, Digits (D.drop j) := fun j c hc => hD c (List.mem_of_mem_drop hc)
  have hexponent : ∀ c ∈ exponentText (n - 1), isNumberChar c := by
    unfold exponentText
    refine hcons (by decide) (hcons ?_ (hdigits digits_toDigits))
    split_ifs <;> decide
  unfold layout
  split_ifs
  · exact hdigits (hD.append digits_replicate_zero)
  · exact happend (hdigits (htake _)) (hcons (by decide) (hdigits (hdrop _)))
  · exact happend (hdigits (digits_replicate_zero (n := 1)))
      (hcons (by decide) (hdigits (digits_replicate_zero.append hD)))
  · exact happend (hdigits hD) hexponent
  · exact happend (happend (hdigits (htake 1)) (hcons (by decide) (hdigits (hdrop 1)))) hexponent

/-- A layout starts with a digit. -/
theorem head_layout {n : ℤ} (hD : Digits D) (hne : D ≠ []) :
    ∃ c ∈ (layout D n).head?, c.isDigit = true := by
  obtain ⟨c, l, rfl⟩ := List.exists_cons_of_ne_nil hne
  have hc : c.isDigit = true := hD c (by simp)
  unfold layout
  split_ifs with hinteger hinside
  · exact ⟨c, rfl, hc⟩
  · obtain ⟨k, hk⟩ : ∃ k, n.toNat = k + 1 := ⟨n.toNat - 1, by omega⟩
    rw [hk]
    exact ⟨c, rfl, hc⟩
  · exact ⟨'0', rfl, by decide⟩
  · exact ⟨c, rfl, hc⟩
  · exact ⟨c, rfl, hc⟩

theorem toDouble_shortest (hx : 0 < x.val) :
    toDouble ((shortest x hx).1 * 10 ^ (shortest x hx).2) = x.val := by
  have hfound := Option.get_mem (Nat.find_spec (exists_withDigits hx))
  have hrounds := List.find?_some hfound
  exact of_decide_eq_true hrounds

/-- The digits printed for a positive double. -/
theorem exists_positiveText (hx : 0 < x.val) : ∃ D n, Digits D ∧ D ≠ [] ∧
    positiveText x hx = layout D n ∧ toDouble (value D * 10 ^ (n - (D.length : ℤ))) = x.val := by
  have hrounds := toDouble_shortest hx
  obtain ⟨k, hk⟩ := exists_zeros (l := Nat.toDigits 10 (shortest x hx).1)
  have hvalue := congrArg value hk
  rw [value_toDigits, value_append_zeros] at hvalue
  have hlength := congrArg List.length hk
  rw [List.length_append, List.length_replicate] at hlength
  refine ⟨_, _, digits_toDigits.rdropWhile, ?_, rfl, ?_⟩
  · intro hnil
    rw [hnil, value_nil, Nat.zero_mul] at hvalue
    rw [hvalue, Nat.cast_zero, zero_mul, toDouble_zero] at hrounds
    exact hx.ne hrounds
  · rw [← hrounds, hlength]
    have hexponent : (shortest x hx).2 + ((((Nat.toDigits 10 (shortest x hx).1).rdropWhile
        (· = '0')).length + k : ℕ) : ℤ) - (((Nat.toDigits 10 (shortest x hx).1).rdropWhile
          (· = '0')).length : ℤ) = k + (shortest x hx).2 := by
      push_cast
      ring
    rw [hexponent, zpow_add₀ (by norm_num), ← mul_assoc, zpow_natCast]
    congr 2
    exact_mod_cast hvalue.symm

/-- What a printed positive double denotes rounds to it. -/
theorem toDouble_read (hx : 0 < x.val) : toDouble (read (positiveText x hx)) = x.val := by
  obtain ⟨D, n, hD, hne, htext, hrounds⟩ := exists_positiveText hx
  rw [htext, read_layout hD hne, hrounds]

theorem positiveText_chars (hx : 0 < x.val) : ∀ c ∈ positiveText x hx, isNumberChar c := by
  obtain ⟨D, n, hD, -, htext, -⟩ := exists_positiveText hx
  rw [htext]
  exact layout_chars hD

theorem head_positiveText (hx : 0 < x.val) :
    ∃ c ∈ (positiveText x hx).head?, c.isDigit = true := by
  obtain ⟨D, n, hD, hne, htext, -⟩ := exists_positiveText hx
  rw [htext]
  exact head_layout hD hne

def Double.neg (x : Double) : Double where
  val := -x.val
  rounded := by rw [toDouble_neg, x.rounded]
  bounded := by rw [abs_neg]; exact x.bounded

/-- `String(x)`. -/
def Double.toText (x : Double) : List Char :=
  if hpos : 0 < x.val then positiveText x hpos
  else if hneg : x.val < 0 then '-' :: positiveText x.neg (neg_pos.mpr hneg)
  else ['0']

theorem toText_chars : ∀ c ∈ x.toText, isNumberChar c := by
  unfold Double.toText
  split_ifs with hpos hneg
  · exact positiveText_chars hpos
  · intro c hc
    rcases List.mem_cons.mp hc with rfl | hc
    · decide
    · exact positiveText_chars (x := x.neg) (neg_pos.mpr hneg) c hc
  · intro c hc
    rw [List.mem_singleton.mp hc]
    decide

/-- No two doubles are printed alike. -/
theorem toText_injective (h : x.toText = y.toText) : x = y := by
  have hval : x.val = y.val → x = y := fun hv => by
    cases x
    cases y
    simpa using hv
  have hread : ∀ {a b : Double} (ha : 0 < a.val) (hb : 0 < b.val),
      positiveText a ha = positiveText b hb → a.val = b.val := fun ha hb heq => by
    rw [← toDouble_read ha, ← toDouble_read hb, heq]
  have hsign : ∀ {a : Double} (ha : 0 < a.val) (l : List Char),
      positiveText a ha ≠ '-' :: l := fun ha l heq => by
    obtain ⟨c, hc, hdigit⟩ := head_positiveText ha
    rw [heq, List.head?_cons, Option.mem_some_iff] at hc
    rw [← hc] at hdigit
    cases hdigit
  have hzero : ∀ {a : Double} (ha : 0 < a.val), positiveText a ha ≠ ['0'] := fun ha heq => by
    have hrounds := toDouble_read ha
    have hdigits : Digits ['0'] := digits_replicate_zero (n := 1)
    have hvalue : value ['0'] = 0 := value_replicate_zero (n := 1)
    rw [heq, read_mantissa (by simp), readMantissa_digits hdigits, hvalue, Nat.cast_zero,
      toDouble_zero] at hrounds
    exact ha.ne hrounds
  unfold Double.toText at h
  refine hval ?_
  split_ifs at h with hx hy hy' hx' hy hy' hy hy'
  · exact hread hx hy h
  · exact absurd h (hsign hx _)
  · exact absurd h (hzero hx)
  · exact absurd h.symm (hsign hy _)
  · have hneg := hread (neg_pos.mpr hx') (neg_pos.mpr hy') (List.cons.inj h).2
    exact neg_injective hneg
  · exact absurd (List.cons.inj h).1 (by decide)
  · exact absurd h.symm (hzero hy)
  · exact absurd (List.cons.inj h).1 (by decide)
  · linarith

end Binary64
