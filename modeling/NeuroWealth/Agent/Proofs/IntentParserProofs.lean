import NeuroWealth.Agent.IntentParser
import NeuroWealth.Foundation.Numerals
import NeuroWealth.Foundation.Phrases

/-!
# What the fallback parser makes of numbers

The text that is taken as an amount starts behind the first verb that digits or commas follow. It
may be commas only, zero, or out of the range of a double, and its commas may stand anywhere.
-/

namespace NeuroWealth.IntentParser

open Binary64 Decimal Numerals Phrases Regex Text

variable {zod : Zod} {verb : String} {lower message text before behind spaces whole commas fraction
  rest : List Char}

/-! ## The place of the amount -/

/-- The verb starts a word, and white space and a digit or a comma follow it. -/
structure VerbPlace (verb : String) (lower before behind : List Char) : Prop extends
    Place digitOrComma verb.toList lower before behind where
  word : ∀ c ∈ before.getLast?, isWord c = false

/-- The characters of the class at the front of a text, and the point and digits behind them. -/
def amountAt (s : List Char) : List Char :=
  s.takeWhile digitOrComma ++ pointText (pointDigits (s.dropWhile digitOrComma))

theorem not_space_of_digitOrComma {c : Char} (hc : digitOrComma c = true) : isSpace c = false := by
  unfold digitOrComma at hc
  rcases Bool.or_eq_true _ _ ▸ hc with hdigit | hcomma
  · exact isSpace_of_isDigit hdigit
  · obtain rfl := of_decide_eq_true hcomma
    decide

theorem opens_amount : Opens amountPattern digitOrComma :=
  ⟨numeral_ne_nil, not_space_of_digitOrComma⟩

/-- Where the pattern with a verb matches. -/
theorem run_verb_ne_nil (hverb : ∃ v ∈ verb.toList.head?, isWord v = true) {after : List Char}
    (hlower : lower = before ++ after) : (verbPattern verb).run (lastOf none before) after ≠ [] ↔
      ∃ behind, VerbPlace verb lower before behind := by
  obtain ⟨v, hv, hvword⟩ := hverb
  obtain ⟨w, hw⟩ := List.head?_eq_some_iff.mp hv
  have hlast : lastOf none before = before.getLast? := by simp [lastOf]
  have hword : ∀ behind, (before.getLast?.any isWord ≠ (verb.toList ++ behind).head?.any isWord) ↔
      ∀ c ∈ before.getLast?, isWord c = false := by
    intro behind
    rw [hw]
    cases before.getLast? <;> simp [hvword]
  have hphrase : verbPattern verb = .seq .boundary (phrase verb.toList amountPattern) := rfl
  rw [hphrase, run_boundary_seq, hlast]
  constructor
  · intro hne
    split_ifs at hne with hboundary
    · obtain ⟨behind, rfl, hbehind⟩ := (phrase_ne_nil opens_amount).mp hne
      exact ⟨behind, ⟨hlower, hbehind⟩, (hword behind).mp hboundary⟩
    · exact absurd rfl hne
  · rintro ⟨behind, hplace⟩
    obtain rfl := List.append_cancel_left (hlower.symm.trans hplace.text)
    rw [if_pos ((hword behind).mpr hplace.word)]
    exact (phrase_ne_nil opens_amount).mpr ⟨behind, rfl, hplace.follows⟩

/-- What the pattern with a verb captures. -/
theorem capture_verb (hverb : ∃ v ∈ verb.toList.head?, isWord v = true)
    (h : (verbPattern verb).capture lower = some text) :
    ∃ before behind, Leftmost (VerbPlace verb lower) before behind ∧
      text = amountAt (behind.dropWhile isSpace) := by
  obtain ⟨hit, hexec, hgroup⟩ := Option.bind_eq_some_iff.mp h
  obtain ⟨before, behind, hplace, hhead⟩ :=
    exec_leftmost VerbPlace.toPlace (fun hlower => run_verb_ne_nil hverb hlower) hexec
  have hphrase : verbPattern verb = .seq .boundary (phrase verb.toList amountPattern) := rfl
  rw [hphrase, run_boundary_seq] at hhead
  split_ifs at hhead with hboundary
  · exact ⟨before, behind, hplace, captured_phrase opens_amount text_numeral hhead hgroup⟩
  · cases hhead

/-! ## The number that is written -/

/-- Digits, or groups of three digits behind one to three digits, with commas between them. -/
def Separated (whole : List Char) : Prop :=
  ∃ (first : List Char) (groups : List (List Char)),
    whole = first ++ groups.flatMap (',' :: ·) ∧ first ≠ [] ∧ Digits first ∧
      (∀ g ∈ groups, Digits g ∧ g.length = 3) ∧ (groups ≠ [] → first.length ≤ 3)

/-- The number `whole.fraction` stands in front of `rest`. It goes on as far as it can: commas
    behind it are punctuation only if nothing of a number follows them. -/
structure NumberAt (whole fraction rest : List Char) : Prop where
  separated : Separated whole
  digits : Digits fraction
  pointed : fraction ≠ [] → ∀ c ∈ rest.head?, c.isDigit = false
  unpointed : fraction = [] → (∀ c ∈ (rest.dropWhile (· = ',')).head?, c.isDigit = false) ∧
    pointDigits (rest.dropWhile (· = ',')) = []

/-- The parts of an amount that is a number, with commas only between groups or behind it. -/
structure Grouped (whole commas fraction : List Char) : Prop where
  separated : Separated whole
  separators : ∀ c ∈ commas, c = ','
  digits : Digits fraction
  behind : commas = [] ∨ fraction = []

theorem Separated.digitOrComma (h : Separated whole) :
    ∀ c ∈ whole, IntentParser.digitOrComma c = true := by
  obtain ⟨first, groups, rfl, -, hfirst, hgroups, -⟩ := h
  unfold IntentParser.digitOrComma
  intro c hc
  rcases List.mem_append.mp hc with hc | hc
  · rw [hfirst c hc, Bool.true_or]
  · obtain ⟨g, hg, hc⟩ := List.mem_flatMap.mp hc
    rcases List.mem_cons.mp hc with rfl | hc
    · simp
    · rw [(hgroups g hg).1 c hc, Bool.true_or]

theorem Grouped.digitOrComma (h : Grouped whole commas fraction) :
    ∀ c ∈ whole ++ commas, IntentParser.digitOrComma c = true := by
  intro c hc
  rcases List.mem_append.mp hc with hc | hc
  · exact h.separated.digitOrComma c hc
  · rw [h.separators c hc]
    decide

theorem not_digit_of_not_digitOrComma {c : Char} (hc : digitOrComma c = false) :
    c.isDigit = false ∧ c ≠ ',' := by
  unfold digitOrComma at hc
  simpa using hc

/-- A number is written in front of the text just if its amount has these parts. -/
theorem exists_numberAt {s : List Char} :
    (∃ rest, s = whole ++ (pointText fraction ++ rest) ∧ NumberAt whole fraction rest) ↔
      ∃ commas, Grouped whole commas fraction ∧ s.takeWhile digitOrComma = whole ++ commas ∧
        pointDigits (s.dropWhile digitOrComma) = fraction := by
  constructor
  · rintro ⟨rest, rfl, hnumber⟩
    by_cases hnil : fraction = []
    · subst hnil
      obtain ⟨hdigit, hpoint⟩ := hnumber.unpointed rfl
      have hsplit := List.takeWhile_append_dropWhile (p := (· = ',')) (l := rest)
      have hcommas : ∀ c ∈ rest.takeWhile (· = ','), c = ',' := fun c hc => by
        simpa using List.mem_takeWhile_imp hc
      have hgrouped : Grouped whole (rest.takeWhile (· = ',')) [] :=
        ⟨hnumber.separated, hcommas, hnumber.digits, .inr rfl⟩
      have hends : ∀ c ∈ (rest.dropWhile (· = ',')).head?, digitOrComma c = false := by
        intro c hc
        have hcomma := head_dropWhile c hc
        unfold digitOrComma
        rw [hdigit c hc, Bool.false_or, hcomma]
      have hall := takeWhile_append_of_head hgrouped.digitOrComma hends
      rw [List.append_assoc, hsplit] at hall
      refine ⟨_, hgrouped, hall.1, ?_⟩
      show pointDigits ((whole ++ rest).dropWhile digitOrComma) = []
      rw [hall.2, hpoint]
    · have hpoint : ∀ c ∈ (pointText fraction ++ rest).head?, digitOrComma c = false := by
        intro c hc
        unfold pointText at hc
        rw [if_neg hnil] at hc
        rw [← Option.some.inj hc]
        decide
      have hall := takeWhile_append_of_head hnumber.separated.digitOrComma hpoint
      refine ⟨[], ⟨hnumber.separated, by simp, hnumber.digits, .inl rfl⟩, ?_, ?_⟩
      · rw [hall.1, List.append_nil]
      · rw [hall.2]
        exact pointDigits_pointText hnumber.digits (hnumber.pointed hnil) fun h => absurd h hnil
  · rintro ⟨commas, hgrouped, htake, hpoint⟩
    have hs : s = whole ++
        (commas ++ (pointText fraction ++ afterPoint (s.dropWhile digitOrComma))) := by
      rw [← hpoint, pointText_append_afterPoint, ← List.append_assoc, ← htake,
        List.takeWhile_append_dropWhile]
    have hends := head_dropWhile (p := digitOrComma) (s := s)
    by_cases hnil : fraction = []
    · subst hnil
      have hafter : afterPoint (s.dropWhile digitOrComma) = s.dropWhile digitOrComma :=
        if_pos hpoint
      rw [hafter] at hs
      have hdrop : (commas ++ s.dropWhile digitOrComma).dropWhile (· = ',') =
          s.dropWhile digitOrComma := by
        refine (takeWhile_append_of_head (fun c hc => ?_) fun c hc => ?_).2
        · simpa using hgrouped.separators c hc
        · simpa using (not_digit_of_not_digitOrComma (hends c hc)).2
      refine ⟨commas ++ s.dropWhile digitOrComma, hs, hgrouped.separated, hgrouped.digits,
        fun hne => absurd rfl hne, fun _ => ?_⟩
      rw [hdrop]
      exact ⟨fun c hc => (not_digit_of_not_digitOrComma (hends c hc)).1, hpoint⟩
    · obtain rfl := hgrouped.behind.resolve_right hnil
      refine ⟨_, hs, hgrouped.separated, hgrouped.digits, fun _ c hc => ?_, fun h => absurd h hnil⟩
      have hne : pointDigits (s.dropWhile digitOrComma) ≠ [] := by rwa [hpoint]
      unfold afterPoint at hc
      rw [if_neg hne] at hc
      exact head_dropWhile c hc

/-! ## Its value -/

/-- The number written, its commas left out. -/
def writtenValue (whole fraction : List Char) : ℚ := numeral (whole.filter (· ≠ ',')) fraction

theorem Grouped.filter_eq (h : Grouped whole commas fraction) :
    (whole ++ commas).filter (· ≠ ',') = whole.filter (· ≠ ',') := by
  have hnone : commas.filter (· ≠ ',') = [] := by
    refine List.filter_eq_nil_iff.mpr fun c hc => ?_
    simpa using h.separators c hc
  rw [List.filter_append, hnone, List.append_nil]

/-- A number has a digit. -/
theorem Separated.filter_ne_nil (h : Separated whole) : whole.filter (· ≠ ',') ≠ [] := by
  obtain ⟨first, groups, rfl, hne, hfirst, -, -⟩ := h
  obtain ⟨c, first, rfl⟩ := List.exists_cons_of_ne_nil hne
  have hc : c ≠ ',' := by
    rintro rfl
    exact absurd (hfirst ',' (by simp)) (by decide)
  simp [hc]

theorem Grouped.amountOf_eq (h : Grouped whole commas fraction) :
    amountOf (whole ++ commas ++ pointText fraction) = .ofRat (writtenValue whole fraction) := by
  have hdigits : Digits (whole.filter (· ≠ ',')) := by
    intro c hc
    obtain ⟨hmem, hne⟩ := List.mem_filter.mp hc
    have hclass := h.separated.digitOrComma c hmem
    unfold IntentParser.digitOrComma at hclass
    simpa [of_decide_eq_true hne] using hclass
  have hpoint : (pointText fraction).filter (· ≠ ',') = pointText fraction := by
    refine List.filter_eq_self.mpr fun c hc => ?_
    rw [decide_eq_true_iff]
    rintro rfl
    unfold pointText at hc
    split_ifs at hc
    · cases hc
    · rcases List.mem_cons.mp hc with heq | hc
      · exact absurd heq (by decide)
      · exact h.digits.not_mem (by decide) hc
  have hread : parseFloat (whole.filter (· ≠ ',') ++ (pointText fraction ++ [])) = _ :=
    parseFloat_numeral hdigits h.digits (.inl h.separated.filter_ne_nil) (by simp) fun _ => rfl
  unfold amountOf
  rw [List.filter_append, h.filter_eq, hpoint]
  rwa [List.append_nil] at hread

/-- The text is a number with commas only between groups or behind it, and a double can hold it. -/
def Readable (text : List Char) : Prop :=
  ∃ whole commas fraction, text = whole ++ commas ++ pointText fraction ∧
    Grouped whole commas fraction ∧ InRange (writtenValue whole fraction)

/-! ## Messages -/

/-- The message as the patterns see it. -/
def lowered (message : List Char) : List Char := trim (toLowerCase message)

/-- The text the parser takes as an amount, if any. -/
def amountText (message : List Char) : Option (List Char) :=
  if withdrawAllPattern.test (lowered message) then none
  else ((verbPattern "withdraw").capture (lowered message)).or
    ((verbPattern "deposit").capture (lowered message))

/-- The amount is the positive and finite value of the number that is written behind the first such
    verb, up to the rounding to a double. -/
def ActsOn (verb : String) (message : List Char) (amount : Option Number) : Prop :=
  ∃ before behind whole fraction rest, Leftmost (VerbPlace verb (lowered message)) before behind ∧
    behind.dropWhile isSpace = whole ++ (pointText fraction ++ rest) ∧
    NumberAt whole fraction rest ∧ ∃ x : Double, amount = some (.finite x) ∧ 0 < x.val ∧
      x.val = toDouble (writtenValue whole fraction)

/-- The intent has the form of its schema, and an amount of its own is one the message has. -/
structure Faithful (zod : Zod) (message : List Char) : Prop where
  valid : (parseIntentWithRegex message).Valid zod
  withdraw : (parseIntentWithRegex message).action = .withdraw →
    ActsOn "withdraw" message (parseIntentWithRegex message).amount
  deposit : (parseIntentWithRegex message).action = .deposit →
    ActsOn "deposit" message (parseIntentWithRegex message).amount
  other : isFinancialAction (parseIntentWithRegex message).action = true →
    (parseIntentWithRegex message).action ∈ [Action.withdraw, .deposit, .withdraw_all]

/-- The parts of an amount can be told from it. -/
theorem amountAt_eq_iff {s : List Char} (h : Grouped whole commas fraction) :
    amountAt s = whole ++ commas ++ pointText fraction ↔
      s.takeWhile digitOrComma = whole ++ commas ∧
        pointDigits (s.dropWhile digitOrComma) = fraction := by
  unfold amountAt
  constructor
  · intro heq
    have hpoint : ∀ {fraction : List Char}, ∀ c ∈ (pointText fraction).head?,
        digitOrComma c = false := head_pointText (by decide)
    have hleft := takeWhile_append_of_head (s := s.takeWhile digitOrComma)
      (t := pointText (pointDigits (s.dropWhile digitOrComma)))
      (fun c hc => List.mem_takeWhile_imp hc) hpoint
    have hright := takeWhile_append_of_head (t := pointText fraction) h.digitOrComma hpoint
    rw [heq] at hleft
    refine ⟨hleft.1.symm.trans hright.1, ?_⟩
    have hdigits := congrArg pointDigits (hleft.2.symm.trans hright.2)
    rwa [pointDigits_pointText_nil digits_pointDigits,
      pointDigits_pointText_nil h.digits] at hdigits
  · rintro ⟨htake, hpoint⟩
    rw [htake, hpoint]

/-- The amount is faithful just if its text is readable. -/
theorem actsOn_iff (hverb : ∃ v ∈ verb.toList.head?, isWord v = true)
    (htext : (verbPattern verb).capture (lowered message) = some text) :
    ActsOn verb message (some (amountOf text)) ↔ Readable text := by
  obtain ⟨before, behind, hplace, rfl⟩ := capture_verb hverb htext
  constructor
  · rintro ⟨t, u, whole, fraction, rest, hplace', hbehind, hnumber, x, hx, hpos, -⟩
    obtain ⟨rfl, rfl⟩ := hplace.unique VerbPlace.toPlace hplace'
    obtain ⟨commas, hgrouped, hparts⟩ := exists_numberAt.mp ⟨rest, hbehind, hnumber⟩
    have heq := (amountAt_eq_iff hgrouped).mpr hparts
    refine ⟨whole, commas, fraction, heq, hgrouped, ofRat_pos_iff.mp ⟨x, ?_, hpos⟩⟩
    rw [← hgrouped.amountOf_eq, ← heq]
    exact Option.some.inj hx
  · rintro ⟨whole, commas, fraction, heq, hgrouped, hrange⟩
    obtain ⟨rest, hbehind, hnumber⟩ :=
      exists_numberAt.mpr ⟨commas, hgrouped, (amountAt_eq_iff hgrouped).mp heq⟩
    obtain ⟨x, hx, hpos⟩ := ofRat_pos_iff.mpr hrange
    refine ⟨before, behind, whole, fraction, rest, hplace, hbehind, hnumber, x, ?_, hpos, ?_⟩
    · rw [heq, hgrouped.amountOf_eq, hx]
    · exact (ofRat_eq_finite.mp hx).symm

/-- A readable amount is one the schema takes. -/
theorem Readable.valid (h : Readable text) :
    zod.number (amountOf text) = true ∧ isPositive (amountOf text) = true := by
  obtain ⟨whole, commas, fraction, rfl, hgrouped, hrange⟩ := h
  obtain ⟨x, hx, hpos⟩ := ofRat_pos_iff.mpr hrange
  rw [hgrouped.amountOf_eq, hx]
  exact ⟨zod.number_finite x, decide_eq_true hpos⟩

/-- A question has no amount and moves nothing. -/
theorem parseQuestion_quiet (zod : Zod) (message lower : List Char) :
    isFinancialAction (parseQuestion message lower).action = false ∧
      (parseQuestion message lower).Valid zod := by
  have hvalid : ∀ {intent : ParsedIntent}, intent.amount = none →
      0 ≤ intent.confidence → intent.confidence ≤ 1 → intent.Valid zod := by
    intro intent hnone hlow hhigh
    refine ⟨fun amount hamount => ?_, hlow, hhigh⟩
    rw [hnone] at hamount
    cases hamount
  unfold parseQuestion
  split_ifs
  · exact ⟨rfl, hvalid rfl (by norm_num [plainIntent]) (by norm_num [plainIntent])⟩
  · exact ⟨rfl, hvalid rfl (by norm_num [plainIntent]) (by norm_num [plainIntent])⟩
  · exact ⟨rfl, hvalid rfl (by norm_num [plainIntent]) (by norm_num [plainIntent])⟩
  · split
    · exact ⟨rfl, hvalid rfl (by norm_num [plainIntent]) (by norm_num [plainIntent])⟩
    · exact ⟨rfl, hvalid rfl (by norm_num [plainIntent]) (by norm_num [plainIntent])⟩

/-- An amount that was taken behind the verb of the action. -/
theorem faithful_iff_of_amount {action : Action}
    (hverb : ∃ v ∈ verb.toList.head?, isWord v = true)
    (htext : (verbPattern verb).capture (lowered message) = some text)
    (hparse : parseIntentWithRegex message =
      { plainIntent action (90 / 100) message with amount := some (amountOf text) })
    (haction : action = .withdraw ∧ verb = "withdraw" ∨ action = .deposit ∧ verb = "deposit") :
    Faithful zod message ↔ Readable text := by
  have hacts := actsOn_iff hverb htext
  constructor
  · intro h
    rcases haction with ⟨rfl, rfl⟩ | ⟨rfl, rfl⟩
    · have hwithdraw := h.withdraw
      rw [hparse] at hwithdraw
      exact hacts.mp (hwithdraw rfl)
    · have hdeposit := h.deposit
      rw [hparse] at hdeposit
      exact hacts.mp (hdeposit rfl)
  · intro h
    refine ⟨?_, ?_, ?_, ?_⟩ <;> rw [hparse]
    · refine ⟨fun amount hamount => ?_, by norm_num [plainIntent], by norm_num [plainIntent]⟩
      obtain rfl := Option.some.inj hamount
      exact h.valid
    · intro hwithdraw
      have hthis : action = .withdraw := hwithdraw
      rcases haction with ⟨-, rfl⟩ | ⟨rfl, -⟩
      · exact hacts.mpr h
      · cases hthis
    · intro hdeposit
      have hthis : action = .deposit := hdeposit
      rcases haction with ⟨rfl, -⟩ | ⟨-, rfl⟩
      · cases hthis
      · exact hacts.mpr h
    · intro _
      show action ∈ _
      rcases haction with ⟨rfl, -⟩ | ⟨rfl, -⟩
      · simp
      · simp

/-- An intent without an amount that is valid and neither a deposit nor a withdrawal. -/
theorem faithful_of_no_amount {intent : ParsedIntent}
    (hparse : parseIntentWithRegex message = intent) (hvalid : intent.Valid zod)
    (haction : isFinancialAction intent.action = false ∨ intent.action = .withdraw_all) :
    Faithful zod message := by
  refine ⟨?_, ?_, ?_, ?_⟩ <;> rw [hparse]
  · exact hvalid
  · intro hwithdraw
    rw [hwithdraw] at haction
    simp [isFinancialAction] at haction
  · intro hdeposit
    rw [hdeposit] at haction
    simp [isFinancialAction] at haction
  · intro hfinancial
    rcases haction with hquiet | hall
    · rw [hquiet] at hfinancial
      cases hfinancial
    · rw [hall]
      simp

/-- The parser is faithful just if what it takes as an amount is a number in its usual form, in the
    range of the positive doubles. -/
theorem parseIntentWithRegex_faithful_iff (zod : Zod) (message : List Char) :
    Faithful zod message ↔ ∀ text ∈ amountText message, Readable text := by
  have hlower : trim (toLowerCase message) = lowered message := rfl
  have hparse := parseIntentWithRegex.eq_def message
  dsimp only at hparse
  rw [hlower] at hparse
  by_cases hall : withdrawAllPattern.test (lowered message) = true
  · have hnone : amountText message = none := if_pos hall
    rw [if_pos hall] at hparse
    rw [hnone]
    refine iff_of_true (faithful_of_no_amount hparse ⟨?_, ?_, ?_⟩ (.inr rfl)) (by simp)
    · intro amount hamount
      cases hamount
    · norm_num [plainIntent]
    · norm_num [plainIntent]
  · have htaken : amountText message = ((verbPattern "withdraw").capture (lowered message)).or
        ((verbPattern "deposit").capture (lowered message)) := if_neg hall
    rw [if_neg hall] at hparse
    cases hwithdraw : (verbPattern "withdraw").capture (lowered message) with
    | some text =>
      rw [hwithdraw] at hparse htaken
      have hiff : Faithful zod message ↔ Readable text :=
        faithful_iff_of_amount ⟨'w', rfl, rfl⟩ hwithdraw hparse (.inl ⟨rfl, rfl⟩)
      rw [hiff, htaken]
      simp
    | none =>
      cases hdeposit : (verbPattern "deposit").capture (lowered message) with
      | some text =>
        rw [hwithdraw, hdeposit] at hparse htaken
        have hiff : Faithful zod message ↔ Readable text :=
          faithful_iff_of_amount ⟨'d', rfl, rfl⟩ hdeposit hparse (.inr ⟨rfl, rfl⟩)
        rw [hiff, htaken]
        simp
      | none =>
        rw [hwithdraw, hdeposit] at hparse htaken
        obtain ⟨hquiet, hvalid⟩ := parseQuestion_quiet zod message (lowered message)
        rw [htaken]
        exact iff_of_true (faithful_of_no_amount hparse hvalid (.inl hquiet)) (by simp)

namespace Sample

/-- A comma behind the verb, and no digit. -/
def commaOnly : List Char := "deposit ,".toList

/-- The comma is taken as an amount, and its value is no number. -/
theorem comma_unfaithful : ¬ ∃ zod, Faithful zod commaOnly := by
  rintro ⟨zod, h⟩
  have hparse : parseIntentWithRegex commaOnly =
      { plainIntent .deposit (90 / 100) commaOnly with amount := some .nan } := by
    decide +kernel
  have hvalid := h.valid.1
  rw [hparse] at hvalid
  have hnan := (hvalid .nan rfl).1
  rw [zod.number_nan] at hnan
  cases hnan

end Sample

end NeuroWealth.IntentParser
