import NeuroWealth.Foundation.Decimal
import NeuroWealth.Foundation.Regex
import NeuroWealth.Foundation.Text

/-!
# The amount codecs

Token amounts as texts and as native units, in the vault client and, written a second time, in the
frontend. A text is the list of its characters.
-/

namespace NeuroWealth.AmountCodec

open Decimal Regex Text

inductive AmountErrorCode where
  | EMPTY_AMOUNT
  | INVALID_FORMAT
  | NEGATIVE_AMOUNT
  | TOO_MANY_DECIMALS
  | AMOUNT_OVERFLOW
deriving DecidableEq

/-- `/^\d+(?:\.\d*)?$/` -/
def decimalFormat : Pattern :=
  .seq .start (.seq (.some Char.isDigit)
    (.seq (.opt (.seq (.word ['.']) (.many Char.isDigit))) .stop))

/-- `const [whole, fraction = ''] = value.split('.')`. -/
def splitPoint (value : List Char) : List Char × List Char :=
  match value.splitOn '.' with
  | whole :: fraction :: _ => (whole, fraction)
  | [whole] => (whole, [])
  | [] => ([], [])

/-- `text || '0'`. -/
def orZero (text : List Char) : List Char := if text = [] then ['0'] else text

/-- The steps of both `parseAmountToUnits`. -/
def parse (decimals scale : ℕ) (maxI128 : ℤ) (input : List Char) : Except AmountErrorCode ℤ :=
  let value := trim input
  if value = [] then .error .EMPTY_AMOUNT
  else if ['-'] <+: value then .error .NEGATIVE_AMOUNT
  else if ¬ decimalFormat.test value then .error .INVALID_FORMAT
  else
    let (whole, fraction) := splitPoint value
    if fraction.length > decimals then .error .TOO_MANY_DECIMALS
    else
      let padded := (fraction ++ List.replicate decimals '0').take decimals
      let units : ℤ := Decimal.value whole * scale + Decimal.value (orZero padded)
      if units > maxI128 then .error .AMOUNT_OVERFLOW else .ok units

/-- The steps of both `formatUnitsToAmount`. -/
def format (decimals scale : ℕ) (maxI128 : ℤ) (units : ℤ) : Except AmountErrorCode (List Char) :=
  if units < 0 then .error .NEGATIVE_AMOUNT
  else if units > maxI128 then .error .AMOUNT_OVERFLOW
  else
    let whole := units.toNat / scale
    let padded := (Nat.toDigits 10 (units.toNat % scale)).leftpad decimals '0'
    let fraction := padded.rdropWhile (· = '0')
    .ok (if fraction ≠ [] then Nat.toDigits 10 whole ++ '.' :: fraction else Nat.toDigits 10 whole)

end NeuroWealth.AmountCodec

namespace NeuroWealth.VaultClient

open AmountCodec (AmountErrorCode)

def AMOUNT_DECIMALS : ℕ := 7

def AMOUNT_SCALE : ℕ := 10 ^ AMOUNT_DECIMALS

def MAX_I128 : ℤ := 2 ^ 127 - 1

def parseAmountToUnits : List Char → Except AmountErrorCode ℤ :=
  AmountCodec.parse AMOUNT_DECIMALS AMOUNT_SCALE MAX_I128

def formatUnitsToAmount : ℤ → Except AmountErrorCode (List Char) :=
  AmountCodec.format AMOUNT_DECIMALS AMOUNT_SCALE MAX_I128

end NeuroWealth.VaultClient

namespace NeuroWealth.Frontend

open AmountCodec (AmountErrorCode)

def DECIMALS : ℕ := 7

def SCALE : ℕ := 10000000

def MAX_I128 : ℤ := 2 ^ 127 - 1

def parseAmountToUnits : List Char → Except AmountErrorCode ℤ :=
  AmountCodec.parse DECIMALS SCALE MAX_I128

def formatUnitsToAmount : ℤ → Except AmountErrorCode (List Char) :=
  AmountCodec.format DECIMALS SCALE MAX_I128

end NeuroWealth.Frontend
