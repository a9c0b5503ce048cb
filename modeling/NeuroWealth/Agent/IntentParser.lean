import NeuroWealth.Foundation.Json
import NeuroWealth.Foundation.Regex
import NeuroWealth.Foundation.Text

/-!
# Intents and their confirmations

What the agent makes of a message, and the confirmation that an operation on funds waits for. A text
is the list of its characters.
-/

namespace NeuroWealth.IntentParser

open Binary64 Regex Text

inductive Action where
  | deposit
  | withdraw
  | withdraw_all
  | check_balance
  | check_earnings
  | set_strategy
  | get_apy
  | clarify
deriving DecidableEq

inductive Strategy where
  | conservative
  | balanced
  | growth
deriving DecidableEq

structure ParsedIntent where
  action : Action
  amount : Option Number
  withdrawAll : Option Bool
  strategy : Option Strategy
  clarifyingQuestion : Option String
  confidence : ℚ
  raw : List Char
deriving DecidableEq

/-! ## Schemas -/

/-- The numbers `z.number()` takes: all finite ones and not NaN. Whether an infinity is a number
    depends on the version of the library. -/
structure Zod where
  number : Number → Bool
  number_finite : ∀ x, number (.finite x) = true
  number_nan : number .nan = false

/-- `positive()`. -/
def isPositive : Number → Bool
  | .finite x => 0 < x.val
  | .infinity => true
  | _ => false

/-- `ParsedIntentSchema`. -/
def ParsedIntent.Valid (zod : Zod) (intent : ParsedIntent) : Prop :=
  (∀ amount ∈ intent.amount, zod.number amount ∧ isPositive amount) ∧
    0 ≤ intent.confidence ∧ intent.confidence ≤ 1
deriving Decidable

structure IntentConfirmation where
  id : List Char
  action : Action
  amount : Number
  asset : List Char
  destination : List Char
  network : List Char
  intentFingerprint : List Char
  createdAt : Number
  expiresAt : Number
deriving DecidableEq

/-- `IntentConfirmationSchema`. -/
def IntentConfirmation.Valid (zod : Zod) (c : IntentConfirmation) : Prop :=
  (zod.number c.amount ∧ isPositive c.amount) ∧ c.asset ≠ [] ∧ c.destination ≠ [] ∧
    c.network ≠ [] ∧ zod.number c.createdAt ∧ zod.number c.expiresAt
deriving Decidable

/-! ## Confirmations -/

/-- `FINANCIAL_ACTIONS`. -/
def isFinancialAction (action : Action) : Bool := action ∈ [.deposit, .withdraw, .withdraw_all]

def CONFIRMATION_TTL_MS : ℚ := 5 * 60 * 1000

structure Details where
  asset : List Char
  destination : List Char
  network : List Char
deriving DecidableEq

def Action.name : Action → List Char
  | deposit => "deposit".toList
  | withdraw => "withdraw".toList
  | withdraw_all => "withdraw_all".toList
  | check_balance => "check_balance".toList
  | check_earnings => "check_earnings".toList
  | set_strategy => "set_strategy".toList
  | get_apy => "get_apy".toList
  | clarify => "clarify".toList

/-- The fields a fingerprint is made of. -/
structure Fingerprint where
  action : Action
  amount : Option Double
  withdrawAll : Bool
  details : Details
deriving DecidableEq

/-- `JSON.stringify` of the fields. -/
def Fingerprint.text (f : Fingerprint) : List Char :=
  Json.object
    [("action".toList, .string f.action.name),
      ("amount".toList, f.amount.elim .null .number),
      ("withdrawAll".toList, .bool f.withdrawAll),
      ("asset".toList, .string f.details.asset),
      ("destination".toList, .string f.details.destination),
      ("network".toList, .string f.details.network)]

/-- A number as it is stringified: what is not finite is written as null. -/
def finite? : Number → Option Double
  | .finite x => some x
  | _ => none

def fingerprint (intent : ParsedIntent) (details : Details) : Fingerprint where
  action := intent.action
  amount := intent.amount.bind finite?
  withdrawAll := intent.withdrawAll.getD false
  details := details

def fingerprintIntent (intent : ParsedIntent) (details : Details) : List Char :=
  (fingerprint intent details).text

/-- Details that may be missing; an empty one counts as missing. -/
def present (text : Option (List Char)) : Option (List Char) := text.filter (· ≠ [])

/-- The amount zero. -/
def zero : Number := .ofRat 0

def buildConfirmation (intent : ParsedIntent) (asset destination network : Option (List Char))
    (now : Double) : Option IntentConfirmation := do
  guard (isFinancialAction intent.action)
  guard (intent.action = .withdraw_all ∨ intent.amount.isSome)
  let details : Details := ⟨← present asset, ← present destination, ← present network⟩
  let intentFingerprint := fingerprintIntent intent details
  pure
    { id := intent.action.name ++ ':' :: (now.toText ++ ':' :: intentFingerprint)
      action := intent.action
      amount := intent.amount.getD zero
      asset := details.asset
      destination := details.destination
      network := details.network
      intentFingerprint := intentFingerprint
      createdAt := .finite now
      expiresAt := .ofRat (now.val + CONFIRMATION_TTL_MS) }

/-- `a < b` -/
def less : Number → Number → Bool
  | .finite x, .finite y => x.val < y.val
  | .finite _, .infinity => true
  | .negInfinity, .finite _ => true
  | .negInfinity, .infinity => true
  | _, _ => false

/-- An error is the reason that is given. -/
def verifyConfirmation (c : IntentConfirmation) (intent : ParsedIntent) (details : Details)
    (now : Double) : Except String Unit :=
  if less c.expiresAt (.finite now) then .error "confirmation_expired"
  else if c.action ≠ intent.action then .error "action_mismatch"
  else if c.intentFingerprint ≠ fingerprintIntent intent details then .error "intent_changed"
  else .ok ()

/-! ## The fallback parser -/

/-- `\s` -/
def space : Char → Bool := isSpace

/-- `[\d,]` -/
def digitOrComma (c : Char) : Bool := c.isDigit || c = ','

/-- `/\bwithdraw\s+(all|everything)\b/` -/
def withdrawAllPattern : Pattern :=
  .seq .boundary (.seq (.word "withdraw".toList) (.seq (.some space)
    (.seq (.group (oneOf ["all", "everything"])) .boundary)))

/-- `[\d,]+(?:\.\d+)?` -/
def amountPattern : Pattern :=
  .seq (.some digitOrComma) (.opt (.seq (.word ['.']) (.some Char.isDigit)))

/-- `/\bwithdraw\s+([\d,]+(?:\.\d+)?)/`, or the same with another verb. -/
def verbPattern (verb : String) : Pattern :=
  .seq .boundary (.seq (.word verb.toList) (.seq (.some space) (.group amountPattern)))

/-- `/\b(balance|how much do i have)\b/`, or the same with other words. -/
def wordsPattern (words : List String) : Pattern :=
  .seq .boundary (.seq (.group (oneOf words)) .boundary)

def strategyOf (text : List Char) : Option Strategy :=
  if text = "conservative".toList then some .conservative
  else if text = "balanced".toList then some .balanced
  else if text = "growth".toList then some .growth
  else none

/-- `parseFloat(text.replace(/,/g, ''))` -/
def amountOf (text : List Char) : Number := parseFloat (text.filter (· ≠ ','))

/-- An intent with nothing but an action. -/
def plainIntent (action : Action) (confidence : ℚ) (message : List Char) : ParsedIntent where
  action := action
  amount := none
  withdrawAll := none
  strategy := none
  clarifyingQuestion := none
  confidence := confidence
  raw := message

/-- The rules behind those for amounts. -/
def parseQuestion (message lower : List Char) : ParsedIntent :=
  if (wordsPattern ["balance", "how much do i have"]).test lower then
    plainIntent .check_balance (90 / 100) message
  else if (wordsPattern ["earnings", "yield", "interest"]).test lower then
    plainIntent .check_earnings (85 / 100) message
  else if (wordsPattern ["apy", "rate", "return"]).test lower then
    plainIntent .get_apy (85 / 100) message
  else
    match (wordsPattern ["conservative", "balanced", "growth"]).capture lower with
    | some text => { plainIntent .set_strategy (85 / 100) message with strategy := strategyOf text }
    | none =>
      { plainIntent .clarify (20 / 100) message with
        clarifyingQuestion := some "Could you clarify what you would like to do?" }

def parseIntentWithRegex (message : List Char) : ParsedIntent :=
  let lower := trim (toLowerCase message)
  if withdrawAllPattern.test lower then
    { plainIntent .withdraw_all (95 / 100) message with withdrawAll := some true }
  else
    match (verbPattern "withdraw").capture lower with
    | some text =>
      { plainIntent .withdraw (90 / 100) message with amount := some (amountOf text) }
    | none =>
      match (verbPattern "deposit").capture lower with
      | some text =>
        { plainIntent .deposit (90 / 100) message with amount := some (amountOf text) }
      | none => parseQuestion message lower

end NeuroWealth.IntentParser
