import NeuroWealth.Foundation.Aborts
import NeuroWealth.Foundation.Numerals
import NeuroWealth.Foundation.Runs
import NeuroWealth.Frontend.DepositForm
import NeuroWealth.VaultClient.Proofs.AmountCodecProofs
import NeuroWealth.Vault.Properties.Configuration
import NeuroWealth.Vault.Properties.Previews

/-!
# What the deposit form submits

A text that passes the schema denotes a whole number of stroops, which the way through a double does
not change. While nobody edits the amount behind its preview, what is confirmed has been validated.
-/

namespace NeuroWealth.Frontend

open Binary64 Decimal MachineInt Numerals Regex Text Transaction
open AmountCodec (splitPoint)
open Vault (Address Call Env VaultError World)

variable {val v whole fraction before behind : List Char} {raw : ℤ}

/-! ## Accepted texts -/

theorem test_usdcFormat : usdcFormat.test v ↔ ∃ whole fraction, whole ≠ [] ∧ Digits whole ∧
    Digits fraction ∧ fraction.length ≤ 7 ∧ v = whole ++ pointText fraction := by
  unfold usdcFormat
  simp only [test_iff, takes_seq, takes_start, takes_some, takes_opt, takes_word, takes_one,
    takes_atMost, takes_stop, List.getLast?_eq_none_iff]
  constructor
  · rintro ⟨front, _, rest, rfl, _, _, rfl, ⟨rfl, rfl⟩, whole, _, rfl, ⟨hne, hwhole⟩, point, _,
      rfl, hpoint, rfl, hrest⟩
    obtain rfl : rest = [] := by simpa using hrest
    rcases hpoint with ⟨_, _, rfl, rfl, _, more, rfl, ⟨c, rfl, hc⟩, hlength, hmore⟩ | rfl
    · refine ⟨whole, c :: more, hne, hwhole, ?_, Nat.succ_le_succ hlength, by simp [pointText]⟩
      exact fun d hd => (List.mem_cons.mp hd).elim (fun he => he ▸ hc) (hmore d)
    · exact ⟨whole, [], hne, hwhole, by simp [Digits], by simp, by simp [pointText]⟩
  · rintro ⟨whole, fraction, hne, hwhole, hfraction, hlength, rfl⟩
    refine ⟨[], whole ++ pointText fraction, [], by simp, [], _, rfl, ⟨rfl, rfl⟩, whole,
      pointText fraction, rfl, ⟨hne, hwhole⟩, pointText fraction, [], by simp, ?_, rfl, rfl⟩
    cases fraction with
    | nil => exact .inr rfl
    | cons c more =>
      refine .inl ⟨['.'], c :: more, by simp [pointText], rfl, [c], more, rfl,
        ⟨c, rfl, hfraction c List.mem_cons_self⟩, Nat.le_of_succ_le_succ hlength, ?_⟩
      exact fun d hd => hfraction d (List.mem_cons_of_mem _ hd)

/-- `val` is the decimal `whole.fraction` between white space. The schema counts the white space
    behind a fraction among its places. -/
structure Typed (val before whole fraction behind : List Char) : Prop where
  text : val = before ++ (whole ++ pointText fraction) ++ behind
  before_space : ∀ c ∈ before, isSpace c = true
  behind_space : ∀ c ∈ behind, isSpace c = true
  ne_nil : whole ≠ []
  whole_digits : Digits whole
  fraction_digits : Digits fraction

namespace Typed

/-- A numeral has no white space. -/
theorem visible (h : Typed val before whole fraction behind) :
    ∀ c ∈ whole ++ pointText fraction, isSpace c = false := by
  intro c hc
  rcases List.mem_append.mp hc with hwhole | hpoint
  · exact isSpace_of_isDigit (h.whole_digits c hwhole)
  · unfold pointText at hpoint
    split_ifs at hpoint
    · cases hpoint
    · rcases List.mem_cons.mp hpoint with rfl | hfraction
      · decide
      · exact isSpace_of_isDigit (h.fraction_digits c hfraction)

theorem dropWhile_eq (h : Typed val before whole fraction behind) :
    val.dropWhile isSpace = whole ++ pointText fraction ++ behind := by
  have hhead : ∀ c ∈ (whole ++ pointText fraction ++ behind).head?, isSpace c = false := by
    intro c hc
    obtain ⟨d, t, hwhole⟩ := List.exists_cons_of_ne_nil h.ne_nil
    rw [hwhole] at hc
    obtain rfl := Option.some.inj hc
    exact h.visible d (by simp [hwhole])
  rw [h.text, List.append_assoc]
  exact (takeWhile_append_of_head h.before_space hhead).2

theorem trim_eq (h : Typed val before whole fraction behind) :
    trim val = whole ++ pointText fraction := by
  unfold trim
  rw [h.dropWhile_eq, rdropWhile_append_of_pos h.behind_space, List.rdropWhile_eq_self_iff]
  intro hne
  simp [h.visible _ (List.getLast_mem hne)]

theorem behind_head (h : Typed val before whole fraction behind) :
    ∀ c ∈ behind.head?, c.isDigit = false ∧ c ≠ '.' := by
  intro c hc
  have hspace := h.behind_space c (List.mem_of_mem_head? hc)
  constructor
  · by_contra hdigit
    rw [isSpace_of_isDigit (Bool.not_eq_false _ ▸ hdigit)] at hspace
    cases hspace
  · rintro rfl
    exact absurd hspace (by decide)

/-- Behind a numeral comes no exponent. -/
theorem exponentOf_behind (h : Typed val before whole fraction behind) : exponentOf behind = 0 := by
  cases hb : behind with
  | nil => rfl
  | cons c rest =>
    have hspace : isSpace c = true := h.behind_space c (by simp [hb])
    have hno : ¬ (c = 'e' ∨ c = 'E') := by
      rintro (rfl | rfl)
      · exact absurd hspace (by decide)
      · exact absurd hspace (by decide)
    exact if_neg hno

theorem behindPoint_eq (h : Typed val before whole fraction behind) :
    behindPoint (pointText fraction ++ behind) = behind := by
  unfold pointText
  split_ifs with hnil
  · rw [List.nil_append]
    cases hb : behind with
    | nil => rfl
    | cons c rest =>
      have hc : c ≠ '.' := (h.behind_head c (by simp [hb])).2
      unfold behindPoint
      split
      · rename_i heq
        exact absurd (List.cons.inj heq).1 hc
      · rfl
  · exact (takeWhile_append_of_head h.fraction_digits fun c hc => (h.behind_head c hc).1).2

theorem parseFloat_eq (h : Typed val before whole fraction behind) :
    parseFloat val = .ofRat (numeral whole fraction) := by
  obtain ⟨d, t, hwhole⟩ := List.exists_cons_of_ne_nil h.ne_nil
  have hd : d.isDigit = true := h.whole_digits d (by simp [hwhole])
  have hdigit : ∀ c : Char, c.isDigit = false → d ≠ c := by
    rintro c hc rfl
    rw [hd] at hc
    cases hc
  have hsign : takeSign (val.dropWhile isSpace) = (1, whole ++ (pointText fraction ++ behind)) := by
    rw [h.dropWhile_eq, List.append_assoc, hwhole]
    unfold takeSign
    split
    · rename_i heq
      exact absurd (List.cons.inj heq).1 (hdigit _ (by decide))
    · rename_i heq
      exact absurd (List.cons.inj heq).1 (hdigit _ (by decide))
    · rfl
  have hinfinity : ¬ "Infinity".toList <+: whole ++ (pointText fraction ++ behind) := by
    rw [hwhole]
    intro hprefix
    exact absurd (List.cons_prefix_cons.mp hprefix).1.symm (hdigit _ (by decide))
  have hends : ∀ c ∈ (pointText fraction ++ behind).head?, c.isDigit = false :=
    head_pointText_append fun c hc => (h.behind_head c hc).1
  obtain ⟨htake, hdrop⟩ := takeWhile_append_of_head h.whole_digits hends
  have hpoint : pointDigits (pointText fraction ++ behind) = fraction := by
    refine pointDigits_pointText h.fraction_digits (fun c hc => (h.behind_head c hc).1) fun _ => ?_
    cases hb : behind with
    | nil => rfl
    | cons c rest => exact pointDigits_of_ne (h.behind_head c (by simp [hb])).2
  unfold parseFloat
  rw [hsign]
  dsimp only
  rw [if_neg hinfinity, htake, hdrop, hpoint, if_neg fun hnone => h.ne_nil hnone.1,
    h.behindPoint_eq, h.exponentOf_behind]
  norm_num

theorem parseFloat_trim (h : Typed val before whole fraction behind) :
    Binary64.parseFloat (trim val) = .ofRat (numeral whole fraction) := by
  have hread : Binary64.parseFloat (whole ++ (pointText fraction ++ [])) = _ :=
    parseFloat_numeral h.whole_digits h.fraction_digits (.inl h.ne_nil) (by simp) fun _ => rfl
  rw [h.trim_eq]
  rwa [List.append_nil] at hread

/-- The places the schema counts. -/
theorem places (h : Typed val before whole fraction behind) :
    (splitPoint val).2.length = if fraction = [] then 0 else fraction.length + behind.length := by
  have hpoint : ∀ l : List Char, (∀ c ∈ l, isSpace c = true ∨ c.isDigit = true) → '.' ∉ l := by
    intro l hl hmem
    rcases hl '.' hmem with hc | hc
    · exact absurd hc (by decide)
    · exact absurd hc (by decide)
  have hfront : '.' ∉ before ++ whole := hpoint _ fun c hc =>
    (List.mem_append.mp hc).imp (h.before_space c) (h.whole_digits c)
  have hback : '.' ∉ fraction ++ behind := hpoint _ fun c hc =>
    (List.mem_append.mp hc).symm.imp (h.behind_space c) (h.fraction_digits c)
  unfold splitPoint
  split_ifs with hnil
  · have hnone : '.' ∉ val := by
      simp only [List.mem_append, not_or] at hfront hback
      simp [h.text, hnil, pointText, hfront, hback]
    rw [List.splitOn_eq_singleton hnone]
    rfl
  · have htext : val = (before ++ whole) ++ '.' :: (fraction ++ behind) := by
      rw [h.text, pointText, if_neg hnil]
      simp
    rw [htext, List.splitOn_append_cons_self_of_not_mem hfront, List.splitOn_eq_singleton hback]
    exact List.length_append

end Typed

/-! ## Doubles of USDC -/

theorem stroop_eq : (STROOP : ℚ) = 10000000 := by norm_num [STROOP, DECIMAL_PLACES]

/-- The double of USDC nearest to an amount of stroops. -/
theorem exists_usdc (hnonneg : 0 ≤ raw) (hraw : raw < 2 ^ 51) : ∃ x : Double,
    Number.ofRat (raw / STROOP) = .finite x ∧ x.val = toDouble (raw / STROOP) ∧
      0 ≤ x.val ∧ x.val ≤ 2 ^ 51 := by
  have hcast : (raw : ℚ) < 2 ^ 51 := by exact_mod_cast hraw
  have hcast' : (0 : ℚ) ≤ raw := by exact_mod_cast hnonneg
  have hpositive : 0 ≤ (raw : ℚ) / STROOP := by positivity
  have hquotient : (raw : ℚ) / STROOP ≤ ((2 ^ 51 : ℕ) : ℚ) := by
    rw [stroop_eq]
    push_cast
    linarith
  obtain ⟨x, hx, hval⟩ := ofRat_of_small (q := raw / STROOP) (by
    rw [abs_of_nonneg hpositive]
    push_cast at hquotient
    linarith)
  have hhigh := toDouble_mono hpositive hquotient
  rw [toDouble_natCast (by norm_num)] at hhigh
  refine ⟨x, hx, hval, hval ▸ toDouble_nonneg hpositive, ?_⟩
  rw [hval]
  exact_mod_cast hhigh

/-- An amount of stroops below `2 ^ 51` survives the way through a double of USDC. -/
theorem toRawUnits_ofRat (hnonneg : 0 ≤ raw) (hraw : raw < 2 ^ 51) :
    toRawUnits (.ofRat (raw / STROOP)) = some raw := by
  obtain ⟨x, hx, hval, hlow, hhigh⟩ := exists_usdc hnonneg hraw
  obtain ⟨y, hy, hval'⟩ := ofRat_of_small (q := x.val * STROOP) (by
    rw [stroop_eq, abs_of_nonneg (by positivity)]
    linarith)
  have hscale : (STROOP : ℚ) ≤ 2 ^ 200 := by
    rw [stroop_eq]
    norm_num
  have hround := round_toDouble_scaled (n := raw) (d := STROOP)
    (by rw [abs_of_nonneg hnonneg]; exact hraw) (by decide) hscale
  unfold toRawUnits
  rw [hx]
  dsimp only
  rw [hy]
  dsimp only
  rw [hval', hval, hround]

/-- And back: the double is the one the raw amount is shown as. -/
theorem fromRawUnits_eq (hnonneg : 0 ≤ raw) (hraw : raw < 2 ^ 51) :
    fromRawUnits raw = .ofRat (raw / STROOP) := by
  have hexact : toDouble raw = raw := by
    obtain ⟨n, rfl⟩ := Int.eq_ofNat_of_zero_le hnonneg
    exact toDouble_natCast (by omega)
  have hcast : (raw : ℚ) < 2 ^ 51 := by exact_mod_cast hraw
  have hcast' : (0 : ℚ) ≤ raw := by exact_mod_cast hnonneg
  obtain ⟨x, hx, hval⟩ := ofRat_of_small (q := raw) (by
    rw [abs_of_nonneg hcast']
    linarith)
  unfold fromRawUnits
  rw [hx]
  dsimp only
  rw [hval, hexact]

/-! ## Accepted amounts -/

/-- Rounding does not carry an amount across the minimum. -/
theorem one_le_toDouble (hnonneg : 0 ≤ raw) :
    1 ≤ toDouble (raw / STROOP) ↔ 10000000 ≤ raw := by
  have hcast : (0 : ℚ) ≤ raw := by exact_mod_cast hnonneg
  rw [stroop_eq]
  constructor
  · intro hle
    by_contra! hlt
    have hbelow : (raw : ℚ) ≤ 9999999 := by exact_mod_cast Int.le_sub_one_of_lt hlt
    have hmono : toDouble ((raw : ℚ) / 10000000) ≤ toDouble (9999999 / 10000000) :=
      toDouble_mono (by positivity) (by linarith)
    have hround : toDouble (9999999 / 10000000) < 1 := by
      refine toDouble_lt ?_ (by norm_num)
      have hpow : (2 : ℚ) ^ (-1022 : ℤ) ≤ 2 ^ (-1 : ℤ) :=
        zpow_le_zpow_right₀ (by norm_num) (by norm_num)
      exact hpow.trans (by norm_num)
    linarith
  · intro hle
    have hcast' : (10000000 : ℚ) ≤ raw := by exact_mod_cast hle
    have hmono : toDouble ((1 : ℕ) : ℚ) ≤ toDouble (raw / 10000000) :=
      toDouble_mono (by norm_num) (by push_cast; linarith)
    rw [toDouble_natCast (by norm_num)] at hmono
    simpa using hmono

/-- Nor across the maximum. -/
theorem toDouble_le_thousand (hnonneg : 0 ≤ raw) :
    toDouble (raw / STROOP) ≤ 1000 ↔ raw ≤ 10000000000 := by
  have hcast : (0 : ℚ) ≤ raw := by exact_mod_cast hnonneg
  rw [stroop_eq]
  constructor
  · intro hle
    by_contra! hlt
    have habove : (10000000001 : ℚ) ≤ raw := by exact_mod_cast hlt
    have hmono : toDouble (10000000001 / 10000000) ≤ toDouble ((raw : ℚ) / 10000000) :=
      toDouble_mono (by norm_num) (by linarith)
    have hround : 1000 < toDouble (10000000001 / 10000000) := by
      refine lt_toDouble ?_ (by norm_num)
      have hpow : (2 : ℚ) ^ (-1022 : ℤ) ≤ 2 ^ (0 : ℤ) :=
        zpow_le_zpow_right₀ (by norm_num) (by norm_num)
      exact hpow.trans (by norm_num)
    linarith
  · intro hle
    have hcast' : (raw : ℚ) ≤ 10000000000 := by exact_mod_cast hle
    have hmono : toDouble (raw / 10000000) ≤ toDouble ((1000 : ℕ) : ℚ) :=
      toDouble_mono (by positivity) (by push_cast; linarith)
    rw [toDouble_natCast (by norm_num)] at hmono
    simpa using hmono

/-- `val` is a decimal of USDC that stands for `raw` stroops. -/
def Shows (val : List Char) (raw : ℤ) : Prop :=
  ∃ before whole fraction behind, Typed val before whole fraction behind ∧
    (fraction ≠ [] → fraction.length + behind.length ≤ 7) ∧
      (raw : ℚ) = numeral whole fraction * STROOP

/-- A decimal with at most seven places is a whole number of stroops. -/
theorem exists_units (whole : List Char) (hlength : fraction.length ≤ 7) :
    ∃ raw : ℤ, (raw : ℚ) = numeral whole fraction * STROOP := by
  refine ⟨AmountCodec.units 7 whole fraction, ?_⟩
  push_cast
  rw [AmountCodec.units_eq hlength, stroop_eq]
  norm_num [numeral]

theorem Shows.nonneg (h : Shows val raw) : 0 ≤ raw := by
  obtain ⟨before, whole, fraction, behind, -, -, hraw⟩ := h
  have hcast : (0 : ℚ) ≤ raw := by
    rw [hraw]
    exact mul_nonneg numeral_nonneg (by positivity)
  exact_mod_cast hcast

theorem numeral_eq (hraw : (raw : ℚ) = numeral whole fraction * STROOP) :
    numeral whole fraction = raw / STROOP := by
  rw [hraw, mul_div_cancel_right₀ _ (by rw [stroop_eq]; norm_num)]

/-- What is typed is read as the double nearest to the amount. -/
theorem Shows.parseFloat_eq (h : Shows val raw) : parseFloat val = .ofRat (raw / STROOP) := by
  obtain ⟨before, whole, fraction, behind, htyped, -, hraw⟩ := h
  rw [htyped.parseFloat_eq, numeral_eq hraw]

theorem exists_shows_of_depositSchema (h : DepositSchema val) :
    ∃ raw : ℤ, Shows val raw ∧ 10000000 ≤ raw ∧ raw ≤ 10000000000 := by
  obtain ⟨-, hparse, -, hmin, hmax, hplaces⟩ := h
  unfold parseUsdcAmount at hparse
  dsimp only at hparse
  by_cases htest : usdcFormat.test (trim val) = true
  · rw [if_neg (not_not.mpr htest)] at hparse
    obtain ⟨whole, fraction, hne, hwhole, hfraction, hlength, htrim⟩ :=
      test_usdcFormat.mp htest
    obtain ⟨before, behind, htext, hbefore, hbehind⟩ := exists_trim val
    rw [htrim] at htext
    have htyped : Typed val before whole fraction behind :=
      ⟨htext, hbefore, hbehind, hne, hwhole, hfraction⟩
    obtain ⟨raw, hraw⟩ := exists_units whole hlength
    have hshows : Shows val raw := by
      refine ⟨before, whole, fraction, behind, htyped, fun hsome => ?_, hraw⟩
      rwa [htyped.places, if_neg hsome] at hplaces
    have hquotient := numeral_eq hraw
    rw [htyped.parseFloat_trim] at hparse
    rw [htyped.parseFloat_eq] at hmin hmax
    cases hnumber : Number.ofRat (numeral whole fraction) with
    | finite x =>
      rw [hnumber] at hmin hmax
      have hval : toDouble (raw / STROOP) = x.val := hquotient ▸ ofRat_eq_finite.mp hnumber
      refine ⟨raw, hshows, ?_, ?_⟩
      · refine (one_le_toDouble hshows.nonneg).mp ?_
        rw [hval]
        exact of_decide_eq_true hmin
      · refine (toDouble_le_thousand hshows.nonneg).mp ?_
        rw [hval]
        exact of_decide_eq_true hmax
    | nan => simp [hnumber] at hparse
    | infinity => simp [hnumber] at hparse
    | negInfinity => simp [hnumber] at hparse
  · rw [if_pos htest] at hparse
    cases hparse

theorem depositSchema_of_shows (hshows : Shows val raw) (hmin : 10000000 ≤ raw)
    (hmax : raw ≤ 10000000000) : DepositSchema val := by
  have hnonneg := hshows.nonneg
  obtain ⟨x, hnumber, hval, -⟩ := exists_usdc hnonneg (by omega)
  have hread : parseFloat val = .finite x := hshows.parseFloat_eq.trans hnumber
  have hlow := (one_le_toDouble hnonneg).mpr hmin
  have hhigh := (toDouble_le_thousand hnonneg).mpr hmax
  rw [← hval] at hlow hhigh
  obtain ⟨before, whole, fraction, behind, htyped, hplaces, hraw⟩ := hshows
  have hquotient := numeral_eq hraw
  refine ⟨?_, ?_, ?_, ?_, ?_, ?_⟩
  · rintro rfl
    have hnil := congrArg List.length htyped.text
    have hpos := List.length_pos_iff.mpr htyped.ne_nil
    simp only [List.length_nil, List.length_append] at hnil
    omega
  · have htest : usdcFormat.test (trim val) := test_usdcFormat.mpr ⟨whole, fraction,
      htyped.ne_nil, htyped.whole_digits, htyped.fraction_digits, ?_, htyped.trim_eq⟩
    · unfold parseUsdcAmount
      dsimp only
      rw [if_neg (not_not.mpr htest), htyped.parseFloat_trim, hquotient, hnumber]
      rfl
    · by_cases hnil : fraction = []
      · simp [hnil]
      · have := hplaces hnil
        omega
  · rw [hread]
    exact decide_eq_true (by linarith)
  · rw [hread]
    exact decide_eq_true hlow
  · rw [hread]
    exact decide_eq_true hhigh
  · rw [htyped.places]
    split_ifs with hnil
    · exact Nat.zero_le _
    · exact hplaces hnil

/-- The schema accepts the decimals from 1 to 1,000 USDC, and nothing else. -/
theorem depositSchema_iff : DepositSchema val ↔
    ∃ raw : ℤ, Shows val raw ∧ 10000000 ≤ raw ∧ raw ≤ 10000000000 := by
  constructor
  · exact exists_shows_of_depositSchema
  · rintro ⟨raw, hshows, hmin, hmax⟩
    exact depositSchema_of_shows hshows hmin hmax

/-! ## Submitting -/

theorem nativeToScVal_of_small (hnonneg : 0 ≤ raw) (hraw : raw < 2 ^ 51) :
    nativeToScVal raw = some raw := by
  have hfits : i128.Fits raw := by
    unfold Format.Fits
    dsimp only [i128]
    omega
  exact if_pos hfits

/-- A typed amount reaches the vault unrounded. -/
theorem executeDeposit_eq {user : Address} {strategy : Strategy} (h : Shows val raw)
    (hraw : raw < 2 ^ 51) : executeDeposit user (parseFloat val) strategy =
      some [.setUserStrategy user (strategyToSymbol strategy), .deposit user raw] := by
  unfold executeDeposit
  rw [h.parseFloat_eq, toRawUnits_ofRat h.nonneg hraw, Option.map_some,
    nativeToScVal_of_small h.nonneg hraw]
  rfl

namespace DepositForm

variable {form : DepositForm} {event : FormEvent} {key opener : Option Address} {user : Address}
  {calls : List Call}

/-- The amount is not changed while its preview is open. -/
def Unedited (form : DepositForm) : FormEvent → Prop
  | .type amount => form.showPreview = true → amount = form.values.amount
  | _ => True

/-- An open preview shows an amount that passes the schema. -/
def Validated (form : DepositForm) : Prop :=
  form.showPreview = true → DepositSchema form.values.amount

theorem validated_after (h : form.Validated) (hevent : form.Unedited event) :
    (form.after event).Validated := by
  cases event with
  | type amount =>
    dsimp only [after]
    split_ifs
    · intro hopen
      rw [hevent hopen]
      exact h hopen
    · exact h
  | pick strategy =>
    dsimp only [after]
    split_ifs <;> exact h
  | submit =>
    dsimp only [after, onSubmit]
    split_ifs with _ hschema
    · exact fun _ => hschema
    · exact h
    · exact h
  | cancel => exact nofun
  | confirm key =>
    dsimp only [after]
    split_ifs
    · exact nofun
    · exact h
  | settle succeeded =>
    dsimp only [after]
    split_ifs <;> exact h
  | retry =>
    dsimp only [after]
    split_ifs <;> exact h
  | close =>
    dsimp only [after]
    split_ifs
    · exact h
    · exact nofun
  | switchAccount userPublicKey => exact nofun

theorem validated_of_reaches (hrun : Runs.Reaches after Unedited { userPublicKey := opener } form) :
    form.Validated :=
  hrun.invariant nofun fun _ _ hevent h => validated_after h hevent

/-- A confirmation sets off the calls of the text in the field, whatever the preview was opened
    for. -/
theorem submitted_confirm : form.submitted (.confirm key) = some calls ↔ form.Confirmable ∧
    ∃ user, form.userPublicKey = some user ∧ (key = none ∨ key = some user) ∧
      executeDeposit user (parseFloat form.values.amount) form.values.strategy = some calls := by
  unfold submitted handleConfirmDeposit
  simp only [Option.ite_none_right_eq_some, Option.bind_eq_some_iff, Option.filter_eq_some_iff,
    decide_eq_true_eq, and_assoc]

/-- Also an amount the schema would refuse, typed behind the preview. -/
theorem edited_amount_submitted (hopen : form.Confirmable) (huser : form.userPublicKey = some user)
    (hkey : key = none ∨ key = some user) (h : Shows form.values.amount raw) (hraw : raw < 2 ^ 51) :
    form.submitted (.confirm key) = some
      [.setUserStrategy user (strategyToSymbol form.values.strategy), .deposit user raw] :=
  submitted_confirm.mpr ⟨hopen, user, huser, hkey, executeDeposit_eq h hraw⟩

theorem submitted_of_validated (h : form.Validated)
    (hsubmitted : form.submitted (.confirm key) = some calls) :
    form.Confirmable ∧ ∃ user raw, form.userPublicKey = some user ∧ (key = none ∨ key = some user) ∧
      Shows form.values.amount raw ∧ 10000000 ≤ raw ∧ raw ≤ 10000000000 ∧
      calls = [.setUserStrategy user (strategyToSymbol form.values.strategy),
        .deposit user raw] := by
  obtain ⟨hopen, user, huser, hkey, hcalls⟩ := submitted_confirm.mp hsubmitted
  obtain ⟨raw, hshows, hmin, hmax⟩ := depositSchema_iff.mp (h hopen.1)
  rw [executeDeposit_eq hshows (by omega)] at hcalls
  exact ⟨hopen, user, raw, huser, hkey, hshows, hmin, hmax, (Option.some.inj hcalls).symm⟩

end DepositForm

open DepositForm

variable {form : DepositForm} {key opener : Option Address} {user : Address} {calls : List Call}

namespace Sample

open Vault.Sample (alice bob honest opened opened_opened owner)

/-- Twelve and a half USDC, with white space in front. -/
def typed : List Char := " 12.5".toList

theorem typed_shows : Shows typed 125000000 := by
  refine ⟨[' '], ['1', '2'], ['5'], [], ⟨rfl, ?_, by simp, by simp, ?_, ?_⟩, by simp, ?_⟩
  · simp [isSpace]
  · simp [Digits]
  · simp [Digits]
  · have hwhole : value ['1', '2'] = 12 := by decide +kernel
    have hfraction : value ['5'] = 5 := by decide +kernel
    rw [stroop_eq, numeral, hwhole, hfraction]
    norm_num

/-- Alice types, looks at the preview and cancels it, and opens it again. -/
def previewed : DepositForm :=
  [.type typed, .pick .Growth, .submit, .cancel, .submit].foldl DepositForm.after
    { userPublicKey := some alice }

theorem previewed_eq : previewed =
    { userPublicKey := some alice, values := ⟨typed, .Growth⟩, showPreview := true } := by
  have hschema : DepositSchema typed :=
    depositSchema_iff.mpr ⟨125000000, typed_shows, by decide, by decide⟩
  simp [previewed, DepositForm.after, DepositForm.onSubmit, hschema]

theorem previewed_reached :
    Runs.Reaches DepositForm.after Unedited { userPublicKey := some alice } previewed :=
  .of_admits ⟨nofun, trivial, trivial, trivial, trivial, trivial⟩

end Sample

variable {w0 w : World} {env : Env} {e : VaultError} {call : Call}

theorem strategyToSymbol_valid {strategy : Strategy} :
    (strategyToSymbol strategy).isValid = true := by
  cases strategy <;> rfl

/-- If the amount is not edited behind its preview and the owner leaves the deposit limits alone,
    the vault turns no submitted deposit down over its amount or its strategy. -/
theorem deposit_form_accepted (h0 : w0.Opened)
    (hrun : Vault.Reaches (fun _ step => step.KeepsDepositLimits) w0 w)
    (hform : Runs.Reaches DepositForm.after Unedited { userPublicKey := opener } form)
    (hsubmitted : form.submitted (.confirm key) = some calls) (hcall : call ∈ calls)
    (h : (Vault.invoke call).Aborts env w e) : ¬ e.BlamesInput := by
  obtain ⟨-, user, raw, -, -, -, hmin, hmax, rfl⟩ :=
    submitted_of_validated (validated_of_reaches hform) hsubmitted
  obtain ⟨hlow, hhigh⟩ := Vault.depositLimits_of_reaches h0 hrun
  have hcalled := Vault.aborts_invoke.mp h
  rcases List.mem_pair.mp hcall with rfl | rfl
  · exact Vault.unblamed_setUserStrategy strategyToSymbol_valid hcalled
  · refine Vault.unblamed_deposit (w := w.entered) (by omega) ?_ ?_ hcalled
    · show w.limits.minDeposit ≤ raw
      omega
    · show raw ≤ w.limits.maxDeposit
      omega

namespace Sample

open Vault.Sample (alice bob honest opened opened_opened owner)

/-- Bob deposits, and the owner pauses. -/
def closing : List Vault.Step :=
  [.call honest (.deposit bob 5000000), .call honest (.pause owner)]

/-- A paused vault turns the deposit down, but not over what was typed. -/
theorem typed_accepted : ∃ e,
    (Vault.invoke (.deposit alice 125000000)).Aborts honest (opened.replay closing) e ∧
      ¬ e.BlamesInput := by
  have hrun : Vault.Reaches (fun _ step => step.KeepsDepositLimits) opened
      (opened.replay closing) := .of_admits ⟨rfl, rfl, trivial⟩
  have hsubmitted : previewed.submitted (.confirm none) =
      some [.setUserStrategy alice (strategyToSymbol .Growth), .deposit alice 125000000] := by
    rw [previewed_eq]
    exact edited_amount_submitted (by decide) rfl (.inl rfl) typed_shows (by decide)
  rcases Tx.ok_or_aborts (Vault.invoke (.deposit alice 125000000)) honest
    (opened.replay closing) with ⟨_, _, hok⟩ | ⟨e, habort⟩
  · have hfails : (Vault.invoke (.deposit alice 125000000)).succeeds honest
        (opened.replay closing) = false := by decide +kernel
    exact Bool.noConfusion (hfails.symm.trans (Tx.succeeds_of_ok hok))
  · exact ⟨e, habort, deposit_form_accepted opened_opened hrun previewed_reached hsubmitted
      (List.mem_cons_of_mem _ List.mem_cons_self) habort⟩

end Sample

/-! ## Withdrawing -/

theorem executeWithdrawal_eq (hpositive : 0 < raw) (hraw : raw < 2 ^ 51) :
    executeWithdrawal user (fromRawUnits raw) false = some (.withdraw user raw) := by
  obtain ⟨x, hx, hval, -⟩ := exists_usdc hpositive.le hraw
  have hround := toRawUnits_ofRat hpositive.le hraw
  have hone : (1 : ℚ) ≤ raw := by exact_mod_cast hpositive
  have hnonzero : 0 < x.val := by
    rw [hval, toDouble_pos_iff, stroop_eq]
    have htiny : (2 : ℚ) ^ (-1075 : ℤ) ≤ 2 ^ (-30 : ℤ) :=
      zpow_le_zpow_right₀ (by norm_num) (by norm_num)
    refine htiny.trans_lt ?_
    rw [lt_div_iff₀ (by norm_num)]
    exact lt_of_lt_of_le (by norm_num) hone
  rw [hx] at hround
  unfold executeWithdrawal
  rw [fromRawUnits_eq hpositive.le hraw, hx, if_neg (by decide)]
  dsimp only
  rw [if_neg (not_le.mpr hnonzero), hround, Option.bind_some,
    nativeToScVal_of_small hpositive.le hraw]
  rfl

variable {t : World} {user : Address}

/-- A balance below `2 ^ 51` stroops is asked back as it is, although the page holds it as a double
    of USDC. The vault pays no more than was shown, and shows nothing once it has paid in full. -/
theorem shown_balance_withdrawn (h0 : w0.Opened)
    (hrun : Vault.Reaches (fun _ step => step.ReportsNonNegative) w0 w)
    (hshown : (Vault.getBalance user).Ok env w raw t) (hpositive : 0 < raw) (hraw : raw < 2 ^ 51) :
    executeWithdrawal user (fromRawUnits raw) false = some (.withdraw user raw) ∧
      ∀ env' w', (Vault.invoke (.withdraw user raw)).Ok env' t () w' →
        w'.paidOut ≤ raw ∧ (w'.paidOut = raw →
          ∀ env n t', (Vault.getBalance user).Ok env w' n t' → n = 0) := by
  refine ⟨executeWithdrawal_eq hpositive hraw, fun env' w' hpaid => ?_⟩
  obtain ⟨hb, -⟩ := Vault.sound_of_reaches h0 hrun fun _ _ hstep => hstep
  obtain ⟨rfl, hvalue⟩ := Vault.getBalance_ok hshown
  obtain ⟨hle, hrest⟩ := Vault.withdraw_balance (w := t.entered) hb rfl hpositive hvalue
    (Vault.ok_invoke.mp hpaid)
  refine ⟨hle, fun hfull env n t' hafter => ?_⟩
  rw [(Vault.getBalance_ok hafter).2, hrest hfull]

namespace Sample

open Vault.Sample (alice gained gained_reached honest opened_opened)

/-- Alice's deposit of half a USDC has gained a twelfth, rounded. -/
theorem gained_shown : ∃ w',
    (Vault.invoke (.withdraw alice 5416667)).Ok honest gained () w' ∧ w'.paidOut = 5416667 ∧
      executeWithdrawal alice (fromRawUnits 5416667) false = some (.withdraw alice 5416667) ∧
        ∀ env n t', (Vault.getBalance alice).Ok env w' n t' → n = 0 := by
  have hok : (Vault.invoke (.withdraw alice 5416667)).Ok honest gained ()
      (gained.after (.call honest (.withdraw alice 5416667))) := Vault.ok_after (by decide +kernel)
  have hpaid : (gained.after (.call honest (.withdraw alice 5416667))).paidOut = 5416667 := by
    decide +kernel
  obtain ⟨n, t, hshown⟩ := Tx.exists_ok_of_succeeds (x := Vault.getBalance alice) (r := honest)
    (s := gained) (by decide +kernel)
  obtain ⟨rfl, hn⟩ := Vault.getBalance_ok hshown
  have hbalance : n = 5416667 := by
    rw [hn]
    decide +kernel
  subst hbalance
  obtain ⟨hcall, hrest⟩ := shown_balance_withdrawn opened_opened gained_reached hshown (by decide)
    (by norm_num)
  exact ⟨_, hok, hpaid, hcall, (hrest honest _ hok).2 hpaid⟩

end Sample

end NeuroWealth.Frontend
