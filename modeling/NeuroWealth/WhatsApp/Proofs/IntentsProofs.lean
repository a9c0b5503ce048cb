import NeuroWealth.Foundation.Numerals
import NeuroWealth.Foundation.Phrases
import NeuroWealth.WhatsApp.Intents

/-!
# The two readers of a message

The worker and the parser agree where both see no request or the same one, and the amount is safe
where the number behind the verb is complete and the first one in the message has its value.
-/

namespace NeuroWealth.WhatsAppIntents

open Binary64 Decimal Numerals Phrases Regex Text

variable {verb : String} {message t before behind whole fraction rest text : List Char}

/-- The message as both readers see it. -/
def lowered (message : List Char) : List Char := trim (toLowerCase message)

/-! ## The number behind the verb -/

/-- Points and commas. -/
def punctuation (c : Char) : Bool := c = '.' || c = ','

/-- The number `whole.fraction` stands in front of `rest`. It goes on as far as it can: points and
    commas behind it are punctuation only if no digit follows them. -/
structure NumberAt (whole fraction rest : List Char) : Prop where
  whole_digits : Digits whole
  fraction_digits : Digits fraction
  ne_nil : whole ≠ [] ∨ fraction ≠ []
  ends : ∀ c ∈ (rest.dropWhile punctuation).head?, c.isDigit = false

/-- The number `whole.fraction` is written behind the first place of the verb, where it starts a
    word. -/
def NumberBehind (verb : String) (t whole fraction : List Char) : Prop :=
  ∃ before behind rest, Leftmost (Place digitOrPoint verb.toList t) before behind ∧
    (∀ c ∈ before.getLast?, isWord c = false) ∧
    behind.dropWhile isSpace = whole ++ (pointText fraction ++ rest) ∧ NumberAt whole fraction rest

theorem not_space_of_digitOrPoint {c : Char} (hc : digitOrPoint c = true) : isSpace c = false := by
  unfold digitOrPoint at hc
  rcases Bool.or_eq_true _ _ ▸ hc with hdigit | hpoint
  · exact isSpace_of_isDigit hdigit
  · obtain rfl := of_decide_eq_true hpoint
    decide

theorem opens_number : Opens (.some digitOrPoint) digitOrPoint :=
  opens_some not_space_of_digitOrPoint

theorem run_verb_ne_nil {u : List Char} (ht : t = before ++ u) :
    (verbPattern verb).run (lastOf none before) u ≠ [] ↔
      ∃ behind, Place digitOrPoint verb.toList t before behind := by
  have hphrase : verbPattern verb = phrase verb.toList (.some digitOrPoint) := rfl
  rw [hphrase, phrase_ne_nil opens_number]
  constructor
  · rintro ⟨behind, rfl, hbehind⟩
    exact ⟨behind, ht, hbehind⟩
  · rintro ⟨behind, hplace⟩
    exact ⟨behind, List.append_cancel_left (ht.symm.trans hplace.text), hplace.follows⟩

/-- What the pattern with a verb captures. -/
theorem capture_verb (h : (verbPattern verb).capture t = some text) :
    ∃ before behind, Leftmost (Place digitOrPoint verb.toList t) before behind ∧
      text = (behind.dropWhile isSpace).takeWhile digitOrPoint := by
  obtain ⟨hit, hexec, hgroup⟩ := Option.bind_eq_some_iff.mp h
  obtain ⟨before, behind, hplace, hhead⟩ := exec_leftmost id (fun ht => run_verb_ne_nil ht) hexec
  exact ⟨before, behind, hplace, captured_phrase opens_number text_some hhead hgroup⟩

/-! ## Its value -/

theorem digitOrPoint_of_digit {c : Char} (hc : c.isDigit = true) : digitOrPoint c = true := by
  unfold digitOrPoint
  rw [hc, Bool.true_or]

theorem pointText_chars (hfraction : Digits fraction) :
    ∀ c ∈ pointText fraction, digitOrPoint c = true := by
  unfold pointText
  split_ifs
  · exact fun c hc => absurd hc List.not_mem_nil
  · intro c hc
    rcases List.mem_cons.mp hc with rfl | hc
    · decide
    · exact digitOrPoint_of_digit (hfraction c hc)

theorem not_punctuation_of_digit {c : Char} (hc : c.isDigit = true) : ¬ punctuation c = true := by
  unfold punctuation
  simp only [Bool.or_eq_true, decide_eq_true_eq]
  rintro (rfl | rfl) <;> exact absurd hc (by decide)

namespace NumberAt

theorem not_digit (h : NumberAt whole fraction rest) : ∀ c ∈ rest.head?, c.isDigit = false := by
  intro c hc
  by_contra hdigit
  rw [Bool.not_eq_false] at hdigit
  obtain ⟨s, rfl⟩ := List.head?_eq_some_iff.mp hc
  have hends := h.ends
  rw [List.dropWhile_cons_of_neg (not_punctuation_of_digit hdigit)] at hends
  rw [hends c rfl] at hdigit
  cases hdigit

/-- Behind the points that follow the number, there is no fraction. -/
theorem pointDigits_behind (h : NumberAt whole fraction rest) :
    pointDigits (rest.takeWhile digitOrPoint) = [] := by
  cases rest with
  | nil => rfl
  | cons c s =>
    by_cases hc : c = '.'
    · subst hc
      have hpoint : digitOrPoint '.' = true := by decide
      rw [List.takeWhile_cons_of_pos hpoint]
      show (s.takeWhile digitOrPoint).takeWhile Char.isDigit = []
      cases s with
      | nil => rfl
      | cons d s =>
        have hd : ¬ d.isDigit = true := by
          intro hdigit
          have hends := h.ends
          rw [List.dropWhile_cons_of_pos (by decide),
            List.dropWhile_cons_of_neg (not_punctuation_of_digit hdigit)] at hends
          rw [hends d rfl] at hdigit
          cases hdigit
        by_cases hclass : digitOrPoint d = true
        · rw [List.takeWhile_cons_of_pos hclass, List.takeWhile_cons_of_neg hd]
        · rw [List.takeWhile_cons_of_neg hclass, List.takeWhile_nil]
    · have hclass : ¬ digitOrPoint c = true := by
        unfold digitOrPoint
        rw [h.not_digit c rfl]
        simpa using hc
      rw [List.takeWhile_cons_of_neg hclass]
      rfl

/-- What is read in front of a text that starts with the number. -/
theorem parseFloat_eq (h : NumberAt whole fraction rest) :
    parseFloat ((whole ++ (pointText fraction ++ rest)).takeWhile digitOrPoint) =
      .ofRat (numeral whole fraction) := by
  rw [List.takeWhile_append_of_pos fun c hc => digitOrPoint_of_digit (h.whole_digits c hc),
    List.takeWhile_append_of_pos (pointText_chars h.fraction_digits)]
  refine parseFloat_numeral h.whole_digits h.fraction_digits h.ne_nil (fun c hc => ?_)
    fun _ => h.pointDigits_behind
  refine h.not_digit c ?_
  cases rest with
  | nil => exact hc
  | cons d s =>
    by_cases hclass : digitOrPoint d = true
    · rwa [List.takeWhile_cons_of_pos hclass] at hc
    · rw [List.takeWhile_cons_of_neg hclass] at hc
      cases hc

end NumberAt

/-- The worker reads the number behind the verb. -/
theorem parseFloat_captured (h : (verbPattern verb).capture t = some text)
    (hnumber : NumberBehind verb t whole fraction) :
    parseFloat text = .ofRat (numeral whole fraction) := by
  obtain ⟨before, behind, hleft, rfl⟩ := capture_verb h
  obtain ⟨before', behind', rest, hleft', -, hbehind, hat⟩ := hnumber
  obtain ⟨rfl, rfl⟩ := hleft.unique id hleft'
  rw [hbehind, hat.parseFloat_eq]

/-- The value of a text that the parser takes as a number. -/
def textValue (text : List Char) : ℚ :=
  numeral (text.takeWhile Char.isDigit) (pointDigits (text.dropWhile Char.isDigit))

theorem parseFloat_first (h : numberPattern.capture t = some text) :
    parseFloat text = .ofRat (textValue text) := by
  obtain ⟨before, rest, -, htakes⟩ := capture_group h
  simp only [takes_seq, takes_some] at htakes
  obtain ⟨u, v, rfl, ⟨hne, hdigits⟩, -⟩ := htakes
  refine if_neg fun hnone => hne ?_
  have htake := hnone.1
  rw [List.takeWhile_append_of_pos hdigits] at htake
  exact (List.append_eq_nil_iff.mp htake).1

/-! ## Which request each reader sees -/

/-- The worker shows the portfolio. -/
def showsPortfolio (t : List Char) : Bool :=
  includesAny t ["balance", "portfolio", "how much", "my account"]

/-- The worker sees a withdrawal of everything. -/
def includesAll (t : List Char) : Bool := includesAny t ["withdraw all", "withdraw everything"]

structure WorkerDeposits (t : List Char) : Prop where
  money : showsPortfolio t = false
  verb : ((verbPattern "deposit").capture t).isSome = true

structure WorkerEmpties (t : List Char) : Prop where
  money : showsPortfolio t = false
  no_deposit : (verbPattern "deposit").capture t = none
  all : includesAll t = true

structure WorkerWithdraws (t : List Char) : Prop where
  money : showsPortfolio t = false
  no_deposit : (verbPattern "deposit").capture t = none
  not_all : includesAll t = false
  verb : ((verbPattern "withdraw").capture t).isSome = true

/-- The parser sees a code, a greeting or a question, or a change of strategy. -/
def asksOther (t : List Char) : Bool :=
  otpPattern.test t || greetingPattern.test t ||
    includesAny t ["balance", "how much do i have", "my funds"] ||
    includesAny t ["earnings", "how much have i made", "profit", "yield"] ||
    includesAny t ["apy", "rate", "interest rate"] || (chosenStrategy t).isSome

structure ParserDeposits (t : List Char) : Prop where
  money : asksOther t = false
  opens : opensDeposit t = true
  number : (numberPattern.capture t).isSome = true

structure ParserEmpties (t : List Char) : Prop where
  money : asksOther t = false
  no_deposit : opensDeposit t = false
  opens : opensWithdrawal t = true
  all : includesAny t ["all", "everything"] = true

structure ParserWithdraws (t : List Char) : Prop where
  money : asksOther t = false
  no_deposit : opensDeposit t = false
  opens : opensWithdrawal t = true
  not_all : includesAny t ["all", "everything"] = false
  number : (numberPattern.capture t).isSome = true

theorem money_replyOnly : (replyOnly t).money = .nothing := by
  unfold replyOnly
  split
  · rfl
  · split_ifs <;> rfl

/-- What the worker does, by the request it sees. -/
theorem worker_cases (message : List Char) :
    (WorkerDeposits (lowered message) ∧
      ∃ text, (verbPattern "deposit").capture (lowered message) = some text ∧
        (processVerifiedIntent message).money = .deposit (parseFloat text)) ∨
    (WorkerEmpties (lowered message) ∧ (processVerifiedIntent message).money = .withdrawAll) ∨
    (WorkerWithdraws (lowered message) ∧
      ∃ text, (verbPattern "withdraw").capture (lowered message) = some text ∧
        (processVerifiedIntent message).money = .withdraw (parseFloat text)) ∨
    ((¬ WorkerDeposits (lowered message) ∧ ¬ WorkerEmpties (lowered message) ∧
      ¬ WorkerWithdraws (lowered message)) ∧
        (processVerifiedIntent message).money = .nothing) := by
  have hlower : trim (toLowerCase message) = lowered message := rfl
  unfold processVerifiedIntent
  dsimp only
  rw [hlower]
  generalize lowered message = t
  cases hshows : includesAny t ["balance", "portfolio", "how much", "my account"] with
  | true =>
    refine .inr (.inr (.inr ⟨⟨fun h => ?_, fun h => ?_, fun h => ?_⟩, rfl⟩))
    · exact absurd (hshows.symm.trans h.money) (by decide)
    · exact absurd (hshows.symm.trans h.money) (by decide)
    · exact absurd (hshows.symm.trans h.money) (by decide)
  | false =>
    cases hdeposit : (verbPattern "deposit").capture t with
    | some text => exact .inl ⟨⟨hshows, by rw [hdeposit]; rfl⟩, text, rfl, rfl⟩
    | none =>
      cases hall : includesAny t ["withdraw all", "withdraw everything"] with
      | true => exact .inr (.inl ⟨⟨hshows, hdeposit, hall⟩, rfl⟩)
      | false =>
        cases hwithdraw : (verbPattern "withdraw").capture t with
        | some text =>
          exact .inr (.inr (.inl
            ⟨⟨hshows, hdeposit, hall, by rw [hwithdraw]; rfl⟩, text, rfl, rfl⟩))
        | none =>
          refine .inr (.inr (.inr ⟨⟨fun h => ?_, fun h => ?_, fun h => ?_⟩, money_replyOnly⟩))
          · have hverb := h.verb
            rw [hdeposit] at hverb
            cases hverb
          · exact absurd (hall.symm.trans h.all) (by decide)
          · have hverb := h.verb
            rw [hwithdraw] at hverb
            cases hverb

/-- Codes, greetings, questions and changes of strategy come before requests. -/
theorem money_parseIntent (message : List Char) : (parseIntent message).money =
    if asksOther (lowered message) then .nothing
    else (parseMoney (lowered message) (trim message)).money := by
  have hclean : toLowerCase (trim message) = lowered message := toLowerCase_trim
  unfold parseIntent asksOther
  dsimp only
  rw [hclean]
  generalize lowered message = t
  cases otpPattern.test t with
  | true => rfl
  | false =>
    cases greetingPattern.test t with
    | true => rfl
    | false =>
      cases includesAny t ["balance", "how much do i have", "my funds"] with
      | true => rfl
      | false =>
        cases includesAny t ["earnings", "how much have i made", "profit", "yield"] with
        | true => rfl
        | false =>
          cases includesAny t ["apy", "rate", "interest rate"] with
          | true => rfl
          | false =>
            cases chosenStrategy t with
            | some strategy => rfl
            | none => rfl

/-- What the parser reports, by the request it sees. -/
theorem parser_cases (message : List Char) :
    (ParserDeposits (lowered message) ∧
      ∃ text, numberPattern.capture (lowered message) = some text ∧
        (parseIntent message).money = .deposit (parseFloat text)) ∨
    (ParserEmpties (lowered message) ∧ (parseIntent message).money = .withdrawAll) ∨
    (ParserWithdraws (lowered message) ∧
      ∃ text, numberPattern.capture (lowered message) = some text ∧
        (parseIntent message).money = .withdraw (parseFloat text)) ∨
    ((¬ ParserDeposits (lowered message) ∧ ¬ ParserEmpties (lowered message) ∧
      ¬ ParserWithdraws (lowered message)) ∧ (parseIntent message).money = .nothing) := by
  rw [money_parseIntent]
  generalize lowered message = t
  cases hother : asksOther t with
  | true =>
    refine .inr (.inr (.inr ⟨⟨fun h => ?_, fun h => ?_, fun h => ?_⟩, rfl⟩))
    · exact absurd (hother.symm.trans h.money) (by decide)
    · exact absurd (hother.symm.trans h.money) (by decide)
    · exact absurd (hother.symm.trans h.money) (by decide)
  | false =>
    rw [if_neg (by decide)]
    unfold parseMoney firstNumber
    cases hdeposit : opensDeposit t with
    | true =>
      rw [if_pos rfl]
      cases hnumber : numberPattern.capture t with
      | some text => exact .inl ⟨⟨hother, hdeposit, by rw [hnumber]; rfl⟩, text, rfl, rfl⟩
      | none =>
        refine .inr (.inr (.inr ⟨⟨fun h => ?_, fun h => ?_, fun h => ?_⟩, rfl⟩))
        · have hsome := h.number
          rw [hnumber] at hsome
          cases hsome
        · exact absurd (hdeposit.symm.trans h.no_deposit) (by decide)
        · exact absurd (hdeposit.symm.trans h.no_deposit) (by decide)
    | false =>
      rw [if_neg (by decide)]
      cases hopens : opensWithdrawal t with
      | false =>
        refine .inr (.inr (.inr ⟨⟨fun h => ?_, fun h => ?_, fun h => ?_⟩, rfl⟩))
        · exact absurd (hdeposit.symm.trans h.opens) (by decide)
        · exact absurd (hopens.symm.trans h.opens) (by decide)
        · exact absurd (hopens.symm.trans h.opens) (by decide)
      | true =>
        rw [if_pos rfl]
        cases hall : includesAny t ["all", "everything"] with
        | true => exact .inr (.inl ⟨⟨hother, hdeposit, hopens, hall⟩, rfl⟩)
        | false =>
          rw [if_neg (by decide)]
          cases hnumber : numberPattern.capture t with
          | some text =>
            exact .inr (.inr (.inl
              ⟨⟨hother, hdeposit, hopens, hall, by rw [hnumber]; rfl⟩, text, rfl, rfl⟩))
          | none =>
            refine .inr (.inr (.inr ⟨⟨fun h => ?_, fun h => ?_, fun h => ?_⟩, rfl⟩))
            · exact absurd (hdeposit.symm.trans h.opens) (by decide)
            · exact absurd (hall.symm.trans h.all) (by decide)
            · have hsome := h.number
              rw [hnumber] at hsome
              cases hsome

/-! ## Agreement -/

/-- The amount is the positive and finite value of the number that is written behind the first such
    verb, up to the rounding to a double. -/
def WrittenAmount (verb : String) (message : List Char) (amount : Number) : Prop :=
  ∃ whole fraction, NumberBehind verb (lowered message) whole fraction ∧
    ∃ x : Double, amount = .finite x ∧ 0 < x.val ∧ x.val = toDouble (numeral whole fraction)

/-- The word stands somewhere in the text, and is no part of a longer one. -/
def HasWord (w : String) (t : List Char) : Prop :=
  ∃ k ∈ List.range t.length, w.toList <+: t.drop k ∧
    (t.take k).getLast?.any isWord = false ∧
    (t.drop (k + w.toList.length)).head?.any isWord = false
deriving Decidable

/-- What is performed is what is reported, with an amount of the message, and everything only where
    the message says so. -/
structure Safe (message : List Char) : Prop where
  consistent : (processVerifiedIntent message).money = (parseIntent message).money
  deposit : ∀ {amount}, (processVerifiedIntent message).money = .deposit amount →
    WrittenAmount "deposit" message amount
  withdraw : ∀ {amount}, (processVerifiedIntent message).money = .withdraw amount →
    WrittenAmount "withdraw" message amount
  everything : (processVerifiedIntent message).money = .withdrawAll →
    HasWord "all" (lowered message) ∨ HasWord "everything" (lowered message)

/-- The number behind the verb is complete and in range, and the first number of the text has the
    same value as a double. -/
def SameNumber (verb : String) (t : List Char) : Prop :=
  ∃ whole fraction, NumberBehind verb t whole fraction ∧ InRange (numeral whole fraction) ∧
    ∃ text ∈ numberPattern.capture t, toDouble (textValue text) = toDouble (numeral whole fraction)

/-- Both readers see no request, or the same one with a number that both read the same way, or
    everything as a word. -/
inductive Agreed (t : List Char) : Prop where
  | nothing (worker : ¬ WorkerDeposits t ∧ ¬ WorkerEmpties t ∧ ¬ WorkerWithdraws t)
      (parser : ¬ ParserDeposits t ∧ ¬ ParserEmpties t ∧ ¬ ParserWithdraws t)
  | deposit (worker : WorkerDeposits t) (parser : ParserDeposits t)
      (number : SameNumber "deposit" t)
  | withdraw (worker : WorkerWithdraws t) (parser : ParserWithdraws t)
      (number : SameNumber "withdraw" t)
  | everything (worker : WorkerEmpties t) (parser : ParserEmpties t)
      (word : HasWord "all" t ∨ HasWord "everything" t)

/-- Both readers get the number behind the verb. -/
theorem sameNumber_iff {first : List Char}
    (hverb : (verbPattern verb).capture (lowered message) = some text)
    (hfirst : numberPattern.capture (lowered message) = some first) :
    SameNumber verb (lowered message) ↔
      WrittenAmount verb message (parseFloat text) ∧ parseFloat text = parseFloat first := by
  constructor
  · rintro ⟨whole, fraction, hbehind, hrange, first', hfirst', heq⟩
    obtain rfl := Option.some.inj (hfirst.symm.trans hfirst')
    obtain ⟨x, hx, hpos⟩ := ofRat_pos_iff.mpr hrange
    have hval := ofRat_eq_finite.mp hx
    have htext : parseFloat text = .finite x := (parseFloat_captured hverb hbehind).trans hx
    refine ⟨⟨whole, fraction, hbehind, x, htext, hpos, hval.symm⟩, ?_⟩
    rw [htext, parseFloat_first hfirst]
    exact (ofRat_eq_finite.mpr (heq.trans hval)).symm
  · rintro ⟨⟨whole, fraction, hbehind, x, hx, hpos, hval⟩, hsame⟩
    have hread : Number.ofRat (numeral whole fraction) = .finite x :=
      (parseFloat_captured hverb hbehind).symm.trans hx
    refine ⟨whole, fraction, hbehind, ofRat_pos_iff.mp ⟨x, hread, hpos⟩, first, hfirst, ?_⟩
    have hvalue : toDouble (textValue first) = x.val := by
      refine ofRat_eq_finite.mp ?_
      rw [← parseFloat_first hfirst, ← hsame, hx]
    rw [hvalue, hval]

/-- A reader sees one request at most. -/
theorem WorkerDeposits.only (h : WorkerDeposits t) : ¬ WorkerEmpties t ∧ ¬ WorkerWithdraws t := by
  have hverb := h.verb
  constructor
  · intro hother
    rw [hother.no_deposit] at hverb
    cases hverb
  · intro hother
    rw [hother.no_deposit] at hverb
    cases hverb

theorem WorkerEmpties.not_withdraws (h : WorkerEmpties t) : ¬ WorkerWithdraws t := fun hother =>
  absurd (h.all.symm.trans hother.not_all) (by decide)

theorem ParserDeposits.only (h : ParserDeposits t) : ¬ ParserEmpties t ∧ ¬ ParserWithdraws t :=
  ⟨fun hother => absurd (h.opens.symm.trans hother.no_deposit) (by decide),
    fun hother => absurd (h.opens.symm.trans hother.no_deposit) (by decide)⟩

theorem ParserEmpties.not_withdraws (h : ParserEmpties t) : ¬ ParserWithdraws t := fun hother =>
  absurd (h.all.symm.trans hother.not_all) (by decide)

theorem money_of_workerDeposits (h : WorkerDeposits (lowered message)) :
    ∃ text, (verbPattern "deposit").capture (lowered message) = some text ∧
      (processVerifiedIntent message).money = .deposit (parseFloat text) := by
  rcases worker_cases message with hcase | hcase | hcase | hcase
  · exact hcase.2
  · exact absurd hcase.1 h.only.1
  · exact absurd hcase.1 h.only.2
  · exact absurd h hcase.1.1

theorem money_of_workerEmpties (h : WorkerEmpties (lowered message)) :
    (processVerifiedIntent message).money = .withdrawAll := by
  rcases worker_cases message with hcase | hcase | hcase | hcase
  · exact absurd h hcase.1.only.1
  · exact hcase.2
  · exact absurd hcase.1 h.not_withdraws
  · exact absurd h hcase.1.2.1

theorem money_of_workerWithdraws (h : WorkerWithdraws (lowered message)) :
    ∃ text, (verbPattern "withdraw").capture (lowered message) = some text ∧
      (processVerifiedIntent message).money = .withdraw (parseFloat text) := by
  rcases worker_cases message with hcase | hcase | hcase | hcase
  · exact absurd h hcase.1.only.2
  · exact absurd h hcase.1.not_withdraws
  · exact hcase.2
  · exact absurd h hcase.1.2.2

theorem money_of_parserDeposits (h : ParserDeposits (lowered message)) :
    ∃ text, numberPattern.capture (lowered message) = some text ∧
      (parseIntent message).money = .deposit (parseFloat text) := by
  rcases parser_cases message with hcase | hcase | hcase | hcase
  · exact hcase.2
  · exact absurd hcase.1 h.only.1
  · exact absurd hcase.1 h.only.2
  · exact absurd h hcase.1.1

theorem money_of_parserEmpties (h : ParserEmpties (lowered message)) :
    (parseIntent message).money = .withdrawAll := by
  rcases parser_cases message with hcase | hcase | hcase | hcase
  · exact absurd h hcase.1.only.1
  · exact hcase.2
  · exact absurd hcase.1 h.not_withdraws
  · exact absurd h hcase.1.2.1

theorem money_of_parserWithdraws (h : ParserWithdraws (lowered message)) :
    ∃ text, numberPattern.capture (lowered message) = some text ∧
      (parseIntent message).money = .withdraw (parseFloat text) := by
  rcases parser_cases message with hcase | hcase | hcase | hcase
  · exact absurd h hcase.1.only.2
  · exact absurd h hcase.1.not_withdraws
  · exact hcase.2
  · exact absurd h hcase.1.2.2

/-- What the worker does is safe where both readers agree. -/
theorem safe_of_agreed (h : Agreed (lowered message)) : Safe message := by
  cases h with
  | nothing hworker hparser =>
    have hw : (processVerifiedIntent message).money = .nothing := by
      rcases worker_cases message with hcase | hcase | hcase | hcase
      · exact absurd hcase.1 hworker.1
      · exact absurd hcase.1 hworker.2.1
      · exact absurd hcase.1 hworker.2.2
      · exact hcase.2
    have hp : (parseIntent message).money = .nothing := by
      rcases parser_cases message with hcase | hcase | hcase | hcase
      · exact absurd hcase.1 hparser.1
      · exact absurd hcase.1 hparser.2.1
      · exact absurd hcase.1 hparser.2.2
      · exact hcase.2
    refine ⟨hw.trans hp.symm, fun hd => ?_, fun hd => ?_, fun hd => ?_⟩
    · cases hw.symm.trans hd
    · cases hw.symm.trans hd
    · cases hw.symm.trans hd
  | deposit hworker hparser hnumber =>
    obtain ⟨text, htext, hw⟩ := money_of_workerDeposits hworker
    obtain ⟨first, hfirst, hp⟩ := money_of_parserDeposits hparser
    obtain ⟨hwritten, hsame⟩ := (sameNumber_iff htext hfirst).mp hnumber
    refine ⟨by rw [hw, hp, hsame], fun hd => ?_, fun hd => ?_, fun hd => ?_⟩
    · rwa [← MoneyAction.deposit.inj (hw.symm.trans hd)]
    · cases hw.symm.trans hd
    · cases hw.symm.trans hd
  | withdraw hworker hparser hnumber =>
    obtain ⟨text, htext, hw⟩ := money_of_workerWithdraws hworker
    obtain ⟨first, hfirst, hp⟩ := money_of_parserWithdraws hparser
    obtain ⟨hwritten, hsame⟩ := (sameNumber_iff htext hfirst).mp hnumber
    refine ⟨by rw [hw, hp, hsame], fun hd => ?_, fun hd => ?_, fun hd => ?_⟩
    · cases hw.symm.trans hd
    · rwa [← MoneyAction.withdraw.inj (hw.symm.trans hd)]
    · cases hw.symm.trans hd
  | everything hworker hparser hword =>
    have hw := money_of_workerEmpties hworker
    have hp := money_of_parserEmpties hparser
    refine ⟨hw.trans hp.symm, fun hd => ?_, fun hd => ?_, fun _ => hword⟩
    · cases hw.symm.trans hd
    · cases hw.symm.trans hd

/-- The two readers act alike, on an amount of the message and on everything only where it is asked
    for, just where they see the same request and the same number. -/
theorem processVerifiedIntent_safe_iff (message : List Char) :
    Safe message ↔ Agreed (lowered message) := by
  refine ⟨fun h => ?_, safe_of_agreed⟩
  have hconsistent := h.consistent
  rcases worker_cases message with ⟨hworker, text, htext, hw⟩ | ⟨hworker, hw⟩ |
    ⟨hworker, text, htext, hw⟩ | ⟨hworker, hw⟩
  · rcases parser_cases message with ⟨hparser, first, hfirst, hp⟩ | ⟨-, hp⟩ | ⟨-, _, -, hp⟩ |
      ⟨-, hp⟩ <;> rw [hw, hp] at hconsistent
    · have hsame := MoneyAction.deposit.inj hconsistent
      exact .deposit hworker hparser ((sameNumber_iff htext hfirst).mpr ⟨h.deposit hw, hsame⟩)
    all_goals cases hconsistent
  · rcases parser_cases message with ⟨-, _, -, hp⟩ | ⟨hparser, hp⟩ | ⟨-, _, -, hp⟩ |
      ⟨-, hp⟩ <;> rw [hw, hp] at hconsistent
    · cases hconsistent
    · exact .everything hworker hparser (h.everything hw)
    all_goals cases hconsistent
  · rcases parser_cases message with ⟨-, _, -, hp⟩ | ⟨-, hp⟩ | ⟨hparser, first, hfirst, hp⟩ |
      ⟨-, hp⟩ <;> rw [hw, hp] at hconsistent
    · cases hconsistent
    · cases hconsistent
    · have hsame := MoneyAction.withdraw.inj hconsistent
      exact .withdraw hworker hparser ((sameNumber_iff htext hfirst).mpr ⟨h.withdraw hw, hsame⟩)
    · cases hconsistent
  · rcases parser_cases message with ⟨-, _, -, hp⟩ | ⟨-, hp⟩ | ⟨-, _, -, hp⟩ |
      ⟨hparser, hp⟩ <;> rw [hw, hp] at hconsistent
    · cases hconsistent
    · cases hconsistent
    · cases hconsistent
    · exact .nothing hworker hparser

namespace Sample

/-- The word only starts like "all". -/
def allowance : List Char := "withdraw allowance".toList

/-- Everything is withdrawn. -/
theorem allowance_unsafe : ¬ Safe allowance := by
  intro h
  have hall : (processVerifiedIntent allowance).money = .withdrawAll := by decide +kernel
  have hword := h.everything hall
  have hlowered : lowered allowance = allowance := by decide +kernel
  rw [hlowered] at hword
  have hnone : ¬ HasWord "all" allowance ∧ ¬ HasWord "everything" allowance := by decide +kernel
  exact hword.elim hnone.1 hnone.2

end Sample

end NeuroWealth.WhatsAppIntents
