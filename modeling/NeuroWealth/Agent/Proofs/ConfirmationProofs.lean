import NeuroWealth.Agent.IntentParser

/-!
# What a confirmation binds

Two operations have one fingerprint only if they have the same fields, so a confirmation is accepted
only for the operation its fingerprint was made of. That is the operation the user reviewed if the
fingerprint has the fields of the confirmation.
-/

namespace NeuroWealth.IntentParser

open Binary64

variable {zod : Zod} {intent : ParsedIntent} {details : Details} {c : IntentConfirmation}
  {f g : Fingerprint} {now x : Double} {asset destination network : List Char}

/-! ## Fingerprints -/

theorem name_injective {a b : Action} (h : a.name = b.name) : a = b := by
  cases a <;> cases b <;> first | rfl | exact absurd h (by decide)

/-- A fingerprint's text determines its fields. -/
theorem text_injective (h : f.text = g.text) : f = g := by
  have hmembers := Json.object_injective h
  simp only [List.cons.injEq, Prod.mk.injEq, Json.Value.string.injEq, Json.Value.bool.injEq,
    true_and, and_true] at hmembers
  obtain ⟨haction, hamount, hall, hasset, hdestination, hnetwork⟩ := hmembers
  have hamount' : f.amount = g.amount := by
    cases hf : f.amount with
    | none =>
      cases hg : g.amount with
      | none => rfl
      | some y => simp [hf, hg] at hamount
    | some x =>
      cases hg : g.amount with
      | none => simp [hf, hg] at hamount
      | some y =>
        rw [hf, hg] at hamount
        exact congrArg some (Json.Value.number.inj hamount)
  obtain ⟨faction, famount, fall, ⟨fasset, fdestination, fnetwork⟩⟩ := f
  obtain ⟨gaction, gamount, gall, ⟨gasset, gdestination, gnetwork⟩⟩ := g
  obtain rfl := name_injective haction
  dsimp only at *
  subst hamount' hall hasset hdestination hnetwork
  rfl

/-! ## Issuing -/

theorem number_expiry : zod.number (.ofRat (now.val + CONFIRMATION_TTL_MS)) = true := by
  have hstep : |CONFIRMATION_TTL_MS| < 2 ^ (970 : ℤ) := by
    have hsmall : |CONFIRMATION_TTL_MS| < 2 ^ (19 : ℤ) := by
      unfold CONFIRMATION_TTL_MS
      norm_num
    exact hsmall.trans (zpow_lt_zpow_right₀ (by norm_num) (by norm_num))
  obtain ⟨y, hy⟩ := add_finite now hstep
  rw [hy]
  exact zod.number_finite y

/-- What is issued, for details that are all there. -/
theorem buildConfirmation_eq (hfinancial : isFinancialAction intent.action = true)
    (hasset : asset ≠ []) (hdestination : destination ≠ []) (hnetwork : network ≠ []) :
    buildConfirmation intent (some asset) (some destination) (some network) now =
      if intent.action = .withdraw_all ∨ intent.amount.isSome then
        some
          { id := intent.action.name ++ ':' :: (now.toText ++
              ':' :: fingerprintIntent intent ⟨asset, destination, network⟩)
            action := intent.action
            amount := intent.amount.getD zero
            asset := asset
            destination := destination
            network := network
            intentFingerprint := fingerprintIntent intent ⟨asset, destination, network⟩
            createdAt := .finite now
            expiresAt := .ofRat (now.val + CONFIRMATION_TTL_MS) }
      else none := by
  have hpresent : ∀ {t : List Char}, t ≠ [] → present (some t) = some t := fun ht => by
    simp [present, ht]
  unfold buildConfirmation
  rw [hpresent hasset, hpresent hdestination, hpresent hnetwork]
  by_cases hamount : intent.action = .withdraw_all ∨ intent.amount.isSome
  · rw [if_pos hamount]
    simp [guard, hfinancial, hamount]
  · rw [if_neg hamount]
    simp [guard, hfinancial, hamount]

/-- A confirmation is issued as its schema has it, unless it withdraws everything with no amount. -/
theorem buildConfirmation_valid_iff (hvalid : intent.Valid zod)
    (hfinancial : isFinancialAction intent.action = true) (hasset : asset ≠ [])
    (hdestination : destination ≠ []) (hnetwork : network ≠ []) :
    (∀ c, buildConfirmation intent (some asset) (some destination) (some network) now = some c →
      c.Valid zod) ↔ (intent.action = .withdraw_all → intent.amount ≠ none) := by
  rw [buildConfirmation_eq hfinancial hasset hdestination hnetwork]
  by_cases hamount : intent.action = .withdraw_all ∨ intent.amount.isSome
  · rw [if_pos hamount]
    constructor
    · intro h hall hnone
      have hpositive := (h _ rfl).1.2
      rw [hnone] at hpositive
      have hzero : isPositive zero = false := by
        unfold zero Number.ofRat
        simp [toDouble_zero, isPositive]
      exact absurd hpositive (by simp [hzero])
    · intro h c hc
      obtain rfl := Option.some.inj hc
      cases hintent : intent.amount with
      | none =>
        rcases hamount with hall | hsome
        · exact absurd hintent (h hall)
        · simp [hintent] at hsome
      | some amount =>
        refine ⟨?_, hasset, hdestination, hnetwork, zod.number_finite now, number_expiry⟩
        simpa [hintent] using hvalid.1 amount hintent
  · rw [if_neg hamount]
    refine ⟨fun _ hall => absurd (.inl hall) hamount, fun _ c hc => ?_⟩
    cases hc

/-! ## Accepting -/

/-- The comparison `a <= b`. -/
def lessOrEqual : Number → Number → Bool
  | .finite x, .finite y => x.val ≤ y.val
  | .nan, _ => false
  | _, .nan => false
  | .negInfinity, _ => true
  | _, .infinity => true
  | _, _ => false

/-- The confirmation shows the operation: its own action, asset, destination and network, and its
    own amount, or the flag if everything is withdrawn. -/
structure Shows (c : IntentConfirmation) (intent : ParsedIntent) (details : Details) : Prop where
  action : c.action = intent.action
  amount : c.action ≠ .withdraw_all → intent.amount = some c.amount
  withdrawAll : c.action = .withdraw_all → intent.withdrawAll = some true
  asset : c.asset = details.asset
  destination : c.destination = details.destination
  network : c.network = details.network

/-- An accepted confirmation has not expired and shows the operation. -/
def Binds (zod : Zod) (c : IntentConfirmation) : Prop :=
  ∀ intent details now, intent.Valid zod → verifyConfirmation c intent details now = .ok () →
    lessOrEqual (.finite now) c.expiresAt ∧ Shows c intent details

/-- The fields of a fingerprint are those of the confirmation. -/
structure Fingerprint.Of (f : Fingerprint) (c : IntentConfirmation) : Prop where
  action : f.action = c.action
  amount : c.action ≠ .withdraw_all → ∃ x, f.amount = some x ∧ c.amount = .finite x
  withdrawAll : c.action = .withdraw_all → f.withdrawAll = true
  details : f.details = ⟨c.asset, c.destination, c.network⟩

/-- The fields of some operation with the action of the confirmation. -/
structure Fingerprint.Possible (f : Fingerprint) (c : IntentConfirmation) : Prop where
  action : f.action = c.action
  positive : ∀ x ∈ f.amount, 0 < x.val

/-- The fingerprint is the text of the confirmation's own fields, or of no operation with its
    action; or the confirmation expired before all time. -/
def Coherent (c : IntentConfirmation) : Prop :=
  (∃ f : Fingerprint, f.Of c ∧ c.intentFingerprint = f.text) ∨
    (∀ f : Fingerprint, f.Possible c → c.intentFingerprint ≠ f.text) ∨
    c.expiresAt = .negInfinity

theorem verifyConfirmation_eq_ok : verifyConfirmation c intent details now = .ok () ↔
    less c.expiresAt (.finite now) = false ∧ c.action = intent.action ∧
      c.intentFingerprint = fingerprintIntent intent details := by
  unfold verifyConfirmation
  split_ifs with hexpired haction hchanged
  · simp [hexpired]
  · simp [haction]
  · simp [hchanged]
  · simp only [ne_eq, not_not] at haction hchanged
    simp [hexpired, haction, hchanged]

theorem lessOrEqual_of_not_less {b : Number} (hb : b ≠ .nan) (h : less b (.finite x) = false) :
    lessOrEqual (.finite x) b = true := by
  cases b with
  | nan => exact absurd rfl hb
  | infinity => rfl
  | negInfinity => cases h
  | finite y => simpa [less, lessOrEqual] using h

/-- The operation a fingerprint is of. -/
def operation (f : Fingerprint) : ParsedIntent where
  action := f.action
  amount := f.amount.map .finite
  withdrawAll := some f.withdrawAll
  strategy := none
  clarifyingQuestion := none
  confidence := 1
  raw := []

theorem fingerprint_operation : fingerprint (operation f) f.details = f := by
  obtain ⟨action, amount, withdrawAll, details⟩ := f
  cases amount with
  | none => rfl
  | some x => rfl

theorem valid_operation (h : ∀ x ∈ f.amount, 0 < x.val) : (operation f).Valid zod := by
  refine ⟨fun amount hamount => ?_, by norm_num [operation], by norm_num [operation]⟩
  obtain ⟨x, hx, rfl⟩ := Option.map_eq_some_iff.mp hamount
  exact ⟨zod.number_finite x, decide_eq_true (h x hx)⟩

/-- Some time is not past the expiry. -/
theorem exists_not_less {b : Number} (hb : b ≠ .negInfinity) (hnan : b ≠ .nan) :
    ∃ now : Double, less b (.finite now) = false := by
  cases b with
  | nan => exact absurd rfl hnan
  | negInfinity => exact absurd rfl hb
  | infinity => exact ⟨⟨0, toDouble_zero, by simp⟩, rfl⟩
  | finite y => exact ⟨y, by simp [less]⟩

/-- A valid confirmation binds the operation if and only if it is coherent. -/
theorem binds_iff_coherent (hc : c.Valid zod) : Binds zod c ↔ Coherent c := by
  have hnan : c.expiresAt ≠ .nan := by
    intro hexpires
    have hnumber := hc.2.2.2.2.2
    rw [hexpires, zod.number_nan] at hnumber
    cases hnumber
  constructor
  · intro h
    by_cases hpossible : ∀ f : Fingerprint, f.Possible c → c.intentFingerprint ≠ f.text
    · exact .inr (.inl hpossible)
    by_cases hexpires : c.expiresAt = .negInfinity
    · exact .inr (.inr hexpires)
    push Not at hpossible
    obtain ⟨f, hf, htext⟩ := hpossible
    obtain ⟨now, hnow⟩ := exists_not_less hexpires hnan
    have hok : verifyConfirmation c (operation f) f.details now = .ok () := by
      refine verifyConfirmation_eq_ok.mpr ⟨hnow, hf.action.symm, ?_⟩
      unfold fingerprintIntent
      rw [fingerprint_operation, htext]
    obtain ⟨-, hshows⟩ := h _ _ _ (valid_operation hf.positive) hok
    refine .inl ⟨f, ⟨hf.action, fun hne => ?_, fun hall => ?_, ?_⟩, htext⟩
    · obtain ⟨x, hx, hfinite⟩ := Option.map_eq_some_iff.mp (hshows.amount hne)
      exact ⟨x, hx, hfinite.symm⟩
    · exact Option.some.inj (hshows.withdrawAll hall)
    · rw [hshows.asset, hshows.destination, hshows.network]
  · intro h intent details now hvalid hok
    obtain ⟨hnow, haction, htext⟩ := verifyConfirmation_eq_ok.mp hok
    have hle := lessOrEqual_of_not_less hnan hnow
    refine ⟨hle, ?_⟩
    rcases h with ⟨f, hf, hown⟩ | hnone | hexpires
    · -- the texts are equal, so the fields of the operation are the confirmation's
      have hsame : f = fingerprint intent details := text_injective (hown.symm.trans htext)
      have hdetails : details = ⟨c.asset, c.destination, c.network⟩ := by
        have hfields := hf.details
        rw [hsame] at hfields
        exact hfields
      refine ⟨haction, fun hne => ?_, fun hall => ?_, ?_, ?_, ?_⟩
      · obtain ⟨x, hx, hamount⟩ := hf.amount hne
        rw [hsame] at hx
        obtain ⟨amount, hintent, hfinite⟩ := Option.bind_eq_some_iff.mp hx
        cases amount with
        | finite y => rw [hintent, hamount, Option.some.inj hfinite]
        | _ => cases hfinite
      · have hflag := hf.withdrawAll hall
        rw [hsame] at hflag
        have hgetD : intent.withdrawAll.getD false = true := hflag
        cases hw : intent.withdrawAll with
        | none => rw [hw] at hgetD; cases hgetD
        | some b => rw [hw] at hgetD; rw [show b = true from hgetD]
      all_goals rw [hdetails]
    · refine absurd htext (hnone (fingerprint intent details) ⟨haction.symm, fun x hx => ?_⟩)
      obtain ⟨amount, hintent, hfinite⟩ := Option.bind_eq_some_iff.mp hx
      cases amount with
      | finite y =>
        have hpositive := (hvalid.1 _ hintent).2
        rw [← Option.some.inj hfinite]
        exact of_decide_eq_true hpositive
      | _ => cases hfinite
    · rw [hexpires] at hle
      cases hle

/-- What is issued for a finite amount, or for everything with the flag, binds. -/
theorem issued_binds (hfinancial : isFinancialAction intent.action = true) (hasset : asset ≠ [])
    (hdestination : destination ≠ []) (hnetwork : network ≠ [])
    (hissued : buildConfirmation intent (some asset) (some destination) (some network) now = some c)
    (hc : c.Valid zod)
    (hamount : intent.action ≠ .withdraw_all → ∃ x, intent.amount = some (.finite x))
    (hflag : intent.action = .withdraw_all → intent.withdrawAll = some true) : Binds zod c := by
  rw [buildConfirmation_eq hfinancial hasset hdestination hnetwork] at hissued
  split_ifs at hissued
  obtain rfl := Option.some.inj hissued
  refine (binds_iff_coherent hc).mpr (.inl ⟨fingerprint intent _, ⟨rfl, fun hne => ?_,
    fun hall => ?_, rfl⟩, rfl⟩)
  · obtain ⟨x, hx⟩ := hamount hne
    exact ⟨x, by simp [fingerprint, hx, finite?], by simp [hx]⟩
  · simp [fingerprint, hflag hall]

/-- Which confirmations are issued as they should be, and which bind the operation. -/
theorem confirmation_binds_iff (zod : Zod) :
    (∀ intent asset destination network now, intent.Valid zod →
      isFinancialAction intent.action = true → asset ≠ [] → destination ≠ [] → network ≠ [] →
        ((∀ c, buildConfirmation intent (some asset) (some destination) (some network) now =
          some c → c.Valid zod) ↔ (intent.action = .withdraw_all → intent.amount ≠ none))) ∧
      ∀ c, c.Valid zod → (Binds zod c ↔ Coherent c) :=
  ⟨fun _ _ _ _ _ hvalid hfinancial hasset hdestination hnetwork =>
      buildConfirmation_valid_iff hvalid hfinancial hasset hdestination hnetwork,
    fun _ hc => binds_iff_coherent hc⟩

namespace Sample

/-- A version that takes no infinities. -/
def strict : Zod where
  number
    | .finite _ => true
    | _ => false
  number_finite _ := rfl
  number_nan := rfl

def one : Double := .ofInt 1 (by decide)

def hundred : Double := .ofInt 100 (by decide)

def depositHundred : ParsedIntent :=
  { plainIntent .deposit 1 [] with amount := some (.finite hundred) }

def vault : Details := ⟨['U', 'S', 'D', 'C'], ['C'], ['m', 'a', 'i', 'n']⟩

/-- It shows one unit, with the fingerprint of a deposit of a hundred. -/
def forged : IntentConfirmation where
  id := []
  action := .deposit
  amount := .finite one
  asset := vault.asset
  destination := vault.destination
  network := vault.network
  intentFingerprint := fingerprintIntent depositHundred vault
  createdAt := .finite one
  expiresAt := .finite hundred

theorem forged_binds_iff : Binds strict forged ↔ Coherent forged :=
  (confirmation_binds_iff strict).2 forged
    ⟨⟨rfl, rfl⟩, by decide, by decide, by decide, rfl, rfl⟩

/-- Everything is to be withdrawn, with no amount. -/
def withdrawEverything : ParsedIntent :=
  { plainIntent .withdraw_all 1 [] with withdrawAll := some true }

/-- The forged confirmation of one unit is accepted for a hundred, and the one that is issued for a
    withdrawal of everything breaks its schema. -/
theorem forged_accepted : forged.Valid strict ∧ depositHundred.Valid strict ∧
    verifyConfirmation forged depositHundred vault one = .ok () ∧ ¬ Binds strict forged ∧
    ∃ c, buildConfirmation withdrawEverything (some vault.asset) (some vault.destination)
      (some vault.network) one = some c ∧ ¬ c.Valid strict := by
  have hvalid : depositHundred.Valid strict := by
    refine ⟨fun amount hamount => ?_, by decide +kernel, by decide +kernel⟩
    obtain rfl := Option.some.inj hamount
    exact ⟨rfl, rfl⟩
  have hok : verifyConfirmation forged depositHundred vault one = .ok () :=
    verifyConfirmation_eq_ok.mpr ⟨rfl, rfl, rfl⟩
  refine ⟨⟨⟨rfl, rfl⟩, by decide, by decide, by decide, rfl, rfl⟩, hvalid, hok, fun h => ?_,
    _, rfl, fun hissued => ?_⟩
  · have hamount := (h _ _ _ hvalid hok).2.amount (by decide)
    have hval := congrArg Double.val (Number.finite.inj (Option.some.inj hamount))
    exact absurd hval (by decide +kernel)
  · have hpositive := hissued.1.2
    exact absurd hpositive (by decide +kernel)

end Sample

end NeuroWealth.IntentParser
