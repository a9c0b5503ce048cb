import NeuroWealth.Foundation.NumberText
import NeuroWealth.Foundation.Regex
import NeuroWealth.Foundation.Text

/-!
# What a WhatsApp message asks for

The worker that serves a verified user reads the message with rules of its own, beside the parser of
the service. A text is the list of its characters.
-/

namespace NeuroWealth.WhatsAppIntents

open Binary64 Regex Text

inductive IntentType where
  | GREETING
  | OTP_CODE
  | DEPOSIT
  | WITHDRAW
  | BALANCE
  | EARNINGS
  | STRATEGY
  | APY
  | UNKNOWN
deriving DecidableEq

inductive Action where
  | deposit
  | withdraw
  | withdraw_all
  | balance
  | earnings
  | strategy
  | apy
  | greeting
  | otp
  | unknown
deriving DecidableEq

inductive Strategy where
  | conservative
  | balanced
  | growth
deriving DecidableEq

structure ParsedIntent where
  type : IntentType
  action : Action
  amount : Option Number
  withdrawAll : Option Bool
  strategy : Option Strategy
  otpCode : Option (List Char)
  rawText : List Char
deriving DecidableEq

/-! ## Tests on a text -/

/-- `text.includes(w)` -/
def includes (text : List Char) (w : String) : Bool := w.toList <:+: text

/-- One of the words is included. -/
def includesAny (text : List Char) (words : List String) : Bool := words.any (includes text)

/-- `text.startsWith(w)` -/
def startsWith (text : List Char) (w : String) : Bool := w.toList <+: text

/-- `[\d.]` -/
def digitOrPoint (c : Char) : Bool := c.isDigit || c = '.'

/-- `/^\d{6}$/` -/
def otpPattern : Pattern :=
  .seq .start (.seq (.one Char.isDigit) (.seq (.one Char.isDigit) (.seq (.one Char.isDigit)
    (.seq (.one Char.isDigit) (.seq (.one Char.isDigit) (.seq (.one Char.isDigit) .stop))))))

/-- `/^(hi|hello|hey|start|menu|help)$/` -/
def greetingPattern : Pattern :=
  .seq .start (.seq (.group (oneOf ["hi", "hello", "hey", "start", "menu", "help"])) .stop)

/-- `/(\d+(\.\d+)?)/` -/
def numberPattern : Pattern :=
  .group (.seq (.some Char.isDigit) (.opt (.group (.seq (.word ['.']) (.some Char.isDigit)))))

/-- `/deposit\s+([\d.]+)/`, or the same with another verb. -/
def verbPattern (verb : String) : Pattern :=
  .seq (.word verb.toList) (.seq (.some isSpace) (.group (.some digitOrPoint)))

/-- `/\b(conservative|balanced|growth)\b/` -/
def strategyPattern : Pattern :=
  .seq .boundary (.seq (.group (oneOf ["conservative", "balanced", "growth"])) .boundary)

/-- `/switch\s+(?:to\s+)?(conservative|balanced|growth)/` -/
def switchPattern : Pattern :=
  .seq (.word "switch".toList) (.seq (.some isSpace)
    (.seq (.opt (.seq (.word "to".toList) (.some isSpace)))
      (.group (oneOf ["conservative", "balanced", "growth"]))))

/-! ## The parser of the service -/

/-- An intent with nothing but a type and an action. -/
def plainIntent (type : IntentType) (action : Action) (rawText : List Char) : ParsedIntent where
  type := type
  action := action
  amount := none
  withdrawAll := none
  strategy := none
  otpCode := none
  rawText := rawText

/-- The strategy to change to. -/
def chosenStrategy (clean : List Char) : Option Strategy :=
  if includesAny clean ["switch to", "change strategy"] then
    if includes clean "conservative" then some .conservative
    else if includes clean "growth" then some .growth
    else if includes clean "balanced" then some .balanced
    else none
  else none

/-- The strategy of a deposit: the last one that is assigned. -/
def depositStrategy (clean : List Char) : Option Strategy :=
  if includes clean "balanced" then some .balanced
  else if includes clean "growth" then some .growth
  else if includes clean "conservative" then some .conservative
  else none

def firstNumber (clean : List Char) : Option Number :=
  (numberPattern.capture clean).map parseFloat

def opensDeposit (clean : List Char) : Bool :=
  startsWith clean "deposit" || includesAny clean ["add money", "put in"]

def opensWithdrawal (clean : List Char) : Bool :=
  startsWith clean "withdraw" || includesAny clean ["take out", "cash out"]

/-- The rules for deposits and withdrawals. -/
def parseMoney (clean rawText : List Char) : ParsedIntent :=
  if opensDeposit clean then
    { plainIntent .DEPOSIT .deposit rawText with
      amount := firstNumber clean
      strategy := depositStrategy clean }
  else if opensWithdrawal clean then
    if includesAny clean ["all", "everything"] then
      { plainIntent .WITHDRAW .withdraw_all rawText with withdrawAll := some true }
    else
      { plainIntent .WITHDRAW .withdraw rawText with
        amount := firstNumber clean
        withdrawAll := some false }
  else plainIntent .UNKNOWN .unknown rawText

def parseIntent (message : List Char) : ParsedIntent :=
  let clean := toLowerCase (trim message)
  let rawText := trim message
  if otpPattern.test clean then { plainIntent .OTP_CODE .otp rawText with otpCode := some clean }
  else if greetingPattern.test clean then plainIntent .GREETING .greeting rawText
  else if includesAny clean ["balance", "how much do i have", "my funds"] then
    plainIntent .BALANCE .balance rawText
  else if includesAny clean ["earnings", "how much have i made", "profit", "yield"] then
    plainIntent .EARNINGS .earnings rawText
  else if includesAny clean ["apy", "rate", "interest rate"] then plainIntent .APY .apy rawText
  else
    match chosenStrategy clean with
    | some strategy => { plainIntent .STRATEGY .strategy rawText with strategy := some strategy }
    | none => parseMoney clean rawText

/-! ## The worker -/

/-- What the worker does with a message: the call on the vault it makes, or the reply it gives. -/
inductive Reply where
  | portfolio
  | handleDeposit (amount : Number) (strategy : Option (List Char))
  | handleWithdraw (amount : Option Number) (withdrawAll : Bool)
  | switched (strategy : List Char)
  | earnings
  | commands
  | unclear
deriving DecidableEq

/-- The rules behind those for deposits and withdrawals. -/
def replyOnly (lower : List Char) : Reply :=
  match switchPattern.capture lower with
  | some strategy => .switched strategy
  | none =>
    if includesAny lower ["earn", "yield", "apy"] then .earnings
    else if lower = "hi".toList ∨ lower = "hello".toList ∨ lower = "help".toList then .commands
    else .unclear

def processVerifiedIntent (messageBody : List Char) : Reply :=
  let lower := trim (toLowerCase messageBody)
  if includesAny lower ["balance", "portfolio", "how much", "my account"] then .portfolio
  else
    match (verbPattern "deposit").capture lower with
    | some text => .handleDeposit (parseFloat text) (strategyPattern.capture lower)
    | none =>
      if includesAny lower ["withdraw all", "withdraw everything"] then .handleWithdraw none true
      else
        match (verbPattern "withdraw").capture lower with
        | some text => .handleWithdraw (some (parseFloat text)) false
        | none => replyOnly lower

/-! ## Money actions -/

inductive MoneyAction where
  | nothing
  | deposit (amount : Number)
  | withdraw (amount : Number)
  | withdrawAll
deriving DecidableEq

/-- The money action that is performed. -/
def Reply.money : Reply → MoneyAction
  | handleDeposit amount _ => .deposit amount
  | handleWithdraw _ true => .withdrawAll
  | handleWithdraw (some amount) false => .withdraw amount
  | _ => .nothing

/-- The money action that is reported. Without an amount there is none. -/
def ParsedIntent.money (intent : ParsedIntent) : MoneyAction :=
  match intent.action, intent.amount with
  | .deposit, some amount => .deposit amount
  | .withdraw, some amount => .withdraw amount
  | .withdraw_all, _ => .withdrawAll
  | _, _ => .nothing

end NeuroWealth.WhatsAppIntents
