import NeuroWealth.Foundation.NumberText
import NeuroWealth.Foundation.Regex
import NeuroWealth.VaultClient.AmountCodec
import NeuroWealth.Vault.Machine

/-!
# The deposit form

From the text a user types to the calls the frontend submits. In between an amount is a double of
USDC; the vault counts stroops, ten millions to one USDC. The form validates the text when the
preview opens, and reads it again when the preview is confirmed.
-/

namespace NeuroWealth.Frontend

open Binary64 Decimal MachineInt Regex Text
open AmountCodec (splitPoint)
open Vault (Address Call)

/-! ## Reading an amount -/

/-- `/^\d+(?:\.\d{1,7})?$/` -/
def usdcFormat : Pattern :=
  .seq .start (.seq (.some Char.isDigit) (.seq
    (.opt (.seq (.word ['.']) (.seq (.one Char.isDigit) (.atMost Char.isDigit 6)))) .stop))

/-- A text of the format is read by `Number` as by `parseFloat`, to its end. -/
def parseUsdcAmount (input : List Char) : Option Double :=
  let value := trim input
  if ¬ usdcFormat.test value then none
  else match Binary64.parseFloat value with
    | .finite amount => some amount
    | _ => none

/-- The factor of a sign in front, and the rest. -/
def takeSign : List Char → ℤ × List Char
  | '-' :: rest => (-1, rest)
  | '+' :: rest => (1, rest)
  | s => (1, s)

/-- The exponent in front of a text; without digits it counts for nothing. -/
def exponentOf : List Char → ℤ
  | c :: rest =>
    if c = 'e' ∨ c = 'E' then
      (takeSign rest).1 * value ((takeSign rest).2.takeWhile Char.isDigit)
    else 0
  | [] => 0

/-- What follows a point and its digits. -/
def behindPoint : List Char → List Char
  | '.' :: rest => rest.dropWhile Char.isDigit
  | s => s

/-- `parseFloat` skips white space in front and reads the longest numeral. -/
def parseFloat (val : List Char) : Number :=
  let (sign, s) := takeSign (val.dropWhile isSpace)
  if "Infinity".toList <+: s then if sign < 0 then .negInfinity else .infinity
  else
    let whole := s.takeWhile Char.isDigit
    let rest := s.dropWhile Char.isDigit
    if whole = [] ∧ pointDigits rest = [] then .nan
    else .ofRat (sign * numeral whole (pointDigits rest) * 10 ^ exponentOf (behindPoint rest))

/-- `x > q` -/
def above (q : ℚ) : Number → Bool
  | .finite x => q < x.val
  | .infinity => true
  | _ => false

/-- `x >= q` -/
def atLeast (q : ℚ) : Number → Bool
  | .finite x => q ≤ x.val
  | .infinity => true
  | _ => false

/-- `x <= q` -/
def atMost (q : ℚ) : Number → Bool
  | .finite x => x.val ≤ q
  | .negInfinity => true
  | _ => false

def MIN_DEPOSIT_USDC : ℚ := 1

def MAX_DEPOSIT_USDC : ℚ := 1000

/-- What the schema asks of the amount. -/
def DepositSchema (val : List Char) : Prop :=
  val ≠ [] ∧ (parseUsdcAmount val).isSome ∧ above 0 (parseFloat val) ∧
    atLeast MIN_DEPOSIT_USDC (parseFloat val) ∧ atMost MAX_DEPOSIT_USDC (parseFloat val) ∧
    (splitPoint val).2.length ≤ 7
deriving Decidable

/-! ## Units -/

def DECIMAL_PLACES : ℕ := 7

def STROOP : ℕ := 10 ^ DECIMAL_PLACES

/-- `BigInt` of NaN or of an infinity throws. -/
def toRawUnits : Number → Option ℤ
  | .finite usdc =>
    match Number.ofRat (usdc.val * STROOP) with
    | .finite x => some (round x.val)
    | _ => none
  | _ => none

def fromRawUnits (raw : ℤ) : Number :=
  match Number.ofRat raw with
  | .finite x => .ofRat (x.val / STROOP)
  | x => x

/-! ## Calls -/

inductive Strategy where
  | Conservative
  | Balanced
  | Growth
deriving DecidableEq, Repr

/-- The contract's symbols are the names in lower case. -/
def strategyToSymbol : Strategy → Vault.Strategy
  | .Conservative => .conservative
  | .Balanced => .balanced
  | .Growth => .growth

/-- An amount as an argument of a call. The SDK throws for what is no `i128`. -/
def nativeToScVal (rawAmount : ℤ) : Option ℤ := i128.checked rawAmount

/-- The calls to sign and submit, in this order; each is built once the one before it is done. -/
def executeDeposit (user : Address) (amountUsdc : Number) (strategy : Strategy) :
    Option (List Call) :=
  (toRawUnits amountUsdc).map fun rawAmount =>
    .setUserStrategy user (strategyToSymbol strategy) ::
      (nativeToScVal rawAmount).toList.map (.deposit user)

def executeWithdrawal (user : Address) (amountUsdc : Number) (withdrawAll : Bool) : Option Call :=
  if withdrawAll = true then some (.withdrawAll user)
  else match amountUsdc with
    | .finite x =>
      if x.val ≤ 0 then none
      else ((toRawUnits amountUsdc).bind nativeToScVal).map (.withdraw user)
    | _ => none

/-! ## The form -/

structure DepositFormValues where
  amount : List Char
  strategy : Strategy

inductive FormView where
  | form
  | signing
  | success
  | error
deriving DecidableEq

/-- The component while it is open. `none` stands for an empty key. -/
structure DepositForm where
  userPublicKey : Option Address
  values : DepositFormValues := ⟨[], .Balanced⟩
  view : FormView := .form
  showPreview : Bool := false

/-- What the user does, and how a deposit ends. `type` is also what the Max button does. -/
inductive FormEvent where
  | type (amount : List Char)
  | pick (strategy : Strategy)
  | submit
  | cancel
  | confirm (currentWalletKey : Option Address)
  | settle (succeeded : Bool)
  | retry
  | close
  | switchAccount (userPublicKey : Option Address)

namespace DepositForm

variable (form : DepositForm)

/-- The preview opens for an amount that passes the schema. -/
def onSubmit : DepositForm :=
  if DepositSchema form.values.amount then { form with showPreview := true } else form

/-- The fields are read as they are now, without another check. Another connected account than the
    one the form was opened for ends the deposit, as an amount that is no number does. -/
def handleConfirmDeposit (currentWalletKey : Option Address) : DepositForm × Option (List Call) :=
  let calls :=
    (form.userPublicKey.filter fun user =>
      currentWalletKey = none ∨ currentWalletKey = some user).bind fun user =>
        executeDeposit user (parseFloat form.values.amount) form.values.strategy
  ({ form with
    showPreview := false
    view := if calls.isSome then .signing else .error }, calls)

/-- The preview is open and its button enabled. -/
def Confirmable : Prop := form.showPreview = true ∧ form.view ≠ .signing
deriving Decidable

/-- The form after an event. The fields are there in the form's view, also behind a preview; the
    window does not close while a deposit is signed. -/
def after : FormEvent → DepositForm
  | .type amount =>
    if form.view = .form then { form with values := { form.values with amount := amount } }
    else form
  | .pick strategy =>
    if form.view = .form then { form with values := { form.values with strategy := strategy } }
    else form
  | .submit => if form.view = .form then form.onSubmit else form
  | .cancel => { form with showPreview := false }
  | .confirm currentWalletKey =>
    if form.Confirmable then (form.handleConfirmDeposit currentWalletKey).1 else form
  | .settle succeeded =>
    if form.view = .signing then { form with view := if succeeded then .success else .error }
    else form
  | .retry => if form.view = .error then { form with view := .form } else form
  | .close => if form.view = .signing then form else { userPublicKey := form.userPublicKey }
  | .switchAccount userPublicKey =>
    { form with
      userPublicKey := userPublicKey
      view := if form.view = .signing then .signing else .form
      showPreview := false }

/-- The calls an event sets off. -/
def submitted : FormEvent → Option (List Call)
  | .confirm currentWalletKey =>
    if form.Confirmable then (form.handleConfirmDeposit currentWalletKey).2 else none
  | _ => none

end DepositForm

end NeuroWealth.Frontend
