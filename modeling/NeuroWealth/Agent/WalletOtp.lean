import NeuroWealth.Foundation.Interleaving

/-!
# One-time passwords of a wallet address

`issueOtp` and `verifyAndConsumeOtp` for one address, over Redis commands, MULTI blocks and scripts
that are atomic one by one. Times are in milliseconds. A key can be gone once its time to live has
passed, not before.
-/

namespace NeuroWealth.WalletOtp

open Interleaving

variable {ι : Type} [DecidableEq ι]

def OTP_TTL_S : ℕ := 5 * 60

def OTP_MAX_ATTEMPTS : ℕ := 5

def OTP_RESEND_COOLDOWN_S : ℕ := 30

/-- What `issueOtp` stores under the code key, with the number of the issue on record. -/
structure Stored where
  code : String
  expiresAt : ℕ
  issue : ℕ
  deriving DecidableEq

/-- The stored texts are equal; the record of the issue is not part of the text. -/
def Stored.sameText (a b : Stored) : Prop := a.code = b.code ∧ a.expiresAt = b.expiresAt

instance (a b : Stored) : Decidable (a.sameText b) := inferInstanceAs (Decidable (_ ∧ _))

/-- The attempts key: its count, and when it expires once it was told to. -/
structure Attempts where
  count : ℕ
  expires : Option ℕ

/-- The clock and the three keys of the address. On record are the number of issues, the attempt
    numbers of the submissions compared against each issue, and the accepted codes with the time
    their key was deleted. -/
structure Shared where
  clock : ℕ
  code : Option Stored
  codeExpires : ℕ
  attempts : Option Attempts
  cooldown : Option ℕ
  issued : ℕ
  compared : ℕ → List ℕ
  accepted : List (Stored × ℕ)

inductive VerifyReason where
  | expired
  | consumed
  | invalid
  | tooManyAttempts
  deriving DecidableEq

inductive Result where
  | issued (code : String) (expiresAt : ℕ)
  | cooldown (retryAfterS : ℤ)
  | verified
  | refused (reason : VerifyReason)
  | threw
  deriving DecidableEq

/-- How far a call has come: the Redis command it sends next, or the code it runs next. -/
inductive Stage where
  | idle
  /-- `issueOtp`: SET NX of the cooldown key. -/
  | acquiring
  /-- TTL of the cooldown key. -/
  | refusing
  /-- The code is drawn. -/
  | drawing
  /-- MULTI: store the code, delete the attempts. -/
  | saving (code : String) (expiresAt : ℕ)
  /-- `verifyAndConsumeOtp`: INCR of the attempts. -/
  | counting (submittedCode : String)
  /-- EXPIRE of the attempts; this is attempt 1. -/
  | expiring (submittedCode : String)
  /-- GET of the code. -/
  | reading (submittedCode : String) (attempts : ℕ)
  /-- The code was read. -/
  | checking (submittedCode : String) (attempts : ℕ) (stored : Stored)
  /-- DEL of the code. -/
  | dropping
  /-- The compare-and-delete script. -/
  | consuming (stored : Stored)
  /-- DEL of the attempts. -/
  | clearing
  | done (result : Result)

/-- A call is made, a number is drawn, or a command succeeds, or fails with or without effect. -/
inductive Outcome where
  | issueOtp
  | verifyAndConsumeOtp (submittedCode : String)
  | randomInt (n : Fin 1000000)
  | ok
  | fails (effect : Bool)

inductive Key where
  | code
  | attempts
  | cooldown
  deriving DecidableEq

/-- Time passes, or a key whose time to live has passed disappears. -/
inductive Change where
  | elapse (milliseconds : ℕ)
  | expire (key : Key)

namespace Shared

/-- SET NX of the cooldown key. -/
def acquire (x : Shared) : Shared :=
  if x.cooldown.isNone then { x with cooldown := some (x.clock + OTP_RESEND_COOLDOWN_S * 1000) }
  else x

/-- TTL of the cooldown key, in seconds; `-2` without the key. -/
def cooldownTtl (x : Shared) : ℤ :=
  match x.cooldown with
  | none => -2
  | some expires => ((expires : ℤ) - x.clock + 500) / 1000

/-- MULTI: the code with its time to live, and no attempts. -/
def save (x : Shared) (code : String) (expiresAt : ℕ) : Shared :=
  { x with
    code := some ⟨code, expiresAt, x.issued⟩
    codeExpires := x.clock + OTP_TTL_S * 1000
    attempts := none
    issued := x.issued + 1 }

/-- The attempts so far; none without the key. -/
def count (x : Shared) : ℕ := (x.attempts.map Attempts.count).getD 0

/-- INCR of the attempts. -/
def incr (x : Shared) : Shared :=
  { x with attempts := some ⟨x.count + 1, x.attempts.bind Attempts.expires⟩ }

/-- EXPIRE of the attempts. -/
def extend (x : Shared) : Shared :=
  { x with attempts := x.attempts.map fun attempts =>
      { attempts with expires := some (x.clock + OTP_TTL_S * 1000) } }

/-- DEL of the code. -/
def drop (x : Shared) : Shared := { x with code := none }

/-- DEL of the attempts. -/
def clear (x : Shared) : Shared := { x with attempts := none }

/-- The submission with this attempt number is compared against an issue. -/
def compare (x : Shared) (issue attempts : ℕ) : Shared :=
  { x with compared := Function.update x.compared issue (attempts :: x.compared issue) }

/-- The compare-and-delete script: the code it deletes, if its text is the expected one. -/
def consumed (x : Shared) (expected : Stored) : Option Stored :=
  x.code.filter fun stored => stored.sameText expected

/-- The script has deleted `stored`. -/
def accept (x : Shared) (stored : Stored) : Shared :=
  { x with code := none, accepted := (stored, x.clock) :: x.accepted }

end Shared

/-- `crypto.randomInt(0, 1_000_000).toString().padStart(6, '0')`. -/
def codeOf (n : Fin 1000000) : String :=
  let digits := (toString n.val).toList
  String.ofList (List.replicate (6 - digits.length) '0' ++ digits)

/-- The answer of INCR: attempt 1 sets the expiry; attempts past the maximum are refused. -/
def counted (submittedCode : String) (attempts : ℕ) : Stage :=
  if attempts = 1 then .expiring submittedCode
  else if attempts > OTP_MAX_ATTEMPTS then .done (.refused .tooManyAttempts)
  else .reading submittedCode attempts

/-- The answer of GET, up to the next command. -/
def checked (x : Shared) (submittedCode : String) (attempts : ℕ) (stored : Stored) :
    Shared × Stage :=
  if stored.expiresAt < x.clock then (x, .dropping)
  else
    (x.compare stored.issue attempts,
      if stored.code = submittedCode then .consuming stored else .done (.refused .invalid))

/-- What the compare-and-delete script does. -/
def consume (x : Shared) (expected : Stored) : Shared × Stage :=
  match x.consumed expected with
  | none => (x, .done (.refused .consumed))
  | some stored => (x.accept stored, .clearing)

/-- One step of a call. -/
def step (x : Shared) : Stage → Outcome → Option (Shared × Stage)
  | .idle, .issueOtp => some (x, .acquiring)
  | .acquiring, .ok => some (x.acquire, if x.cooldown.isNone then .drawing else .refusing)
  | .acquiring, .fails effect => some (if effect then x.acquire else x, .done .threw)
  | .refusing, .ok =>
    let ttl := x.cooldownTtl
    some (x, .done (.cooldown (if ttl > 0 then ttl else OTP_RESEND_COOLDOWN_S)))
  | .refusing, .fails _ => some (x, .done .threw)
  | .drawing, .randomInt n => some (x, .saving (codeOf n) (x.clock + OTP_TTL_S * 1000))
  | .saving code expiresAt, .ok => some (x.save code expiresAt, .done (.issued code expiresAt))
  | .saving code expiresAt, .fails effect =>
    some (if effect then x.save code expiresAt else x, .done .threw)
  | .idle, .verifyAndConsumeOtp submittedCode => some (x, .counting submittedCode)
  | .counting submittedCode, .ok => some (x.incr, counted submittedCode (x.count + 1))
  | .counting _, .fails effect => some (if effect then x.incr else x, .done .threw)
  | .expiring submittedCode, .ok => some (x.extend, .reading submittedCode 1)
  | .expiring _, .fails effect => some (if effect then x.extend else x, .done .threw)
  | .reading submittedCode attempts, .ok =>
    some (x, match x.code with
      | none => .done (.refused .consumed)
      | some stored => .checking submittedCode attempts stored)
  | .reading _ _, .fails _ => some (x, .done .threw)
  | .checking submittedCode attempts stored, .ok =>
    some (checked x submittedCode attempts stored)
  | .dropping, .ok => some (x.drop, .done (.refused .expired))
  | .dropping, .fails effect => some (if effect then x.drop else x, .done .threw)
  | .consuming expected, .ok => some (consume x expected)
  | .consuming expected, .fails effect =>
    some (if effect then (x.consumed expected).elim x (fun _ => x.drop) else x, .done .threw)
  | .clearing, .ok => some (x.clear, .done .verified)
  | .clearing, .fails effect => some (if effect then x.clear else x, .done .threw)
  | _, _ => none

/-- Time passes; a key may disappear after its time to live. -/
def around (x : Shared) : Change → Option Shared
  | .elapse milliseconds => some { x with clock := x.clock + milliseconds }
  | .expire .code => if x.codeExpires < x.clock then some x.drop else none
  | .expire .attempts =>
    if (x.attempts.bind Attempts.expires).any (· < x.clock) then some x.clear else none
  | .expire .cooldown =>
    if x.cooldown.any (· < x.clock) then some { x with cooldown := none } else none

/-- Any calls for the address. -/
def rules (ι : Type) : Rules ι Shared Stage Outcome Change where
  act _ := step
  world := around

/-- Nothing was issued for the address. -/
def fresh (clock : ℕ) : System ι Shared Stage :=
  ⟨⟨clock, none, 0, none, none, 0, fun _ => [], []⟩, fun _ => .idle⟩

/-- The attempt number of a call that has counted its attempt and not read the code yet. -/
def Stage.ticket : Stage → Option ℕ
  | expiring _ => some 1
  | reading _ attempts => some attempts
  | _ => none

/-- A new code is stored while no call stands between its attempt and its read of the code; the
    attempts are deleted after a success while no code is stored; and time does not pass the expiry
    of a code that a call has checked and is about to consume. -/
def Undisturbed (s : System ι Shared Stage) : Move ι Outcome Change → Prop
  | .act i _ => (∀ code expiresAt, s.proc i = .saving code expiresAt →
      ∀ j, (s.proc j).ticket = none) ∧ (s.proc i = .clearing → s.shared.code = none)
  | .world (.elapse milliseconds) => ∀ i stored, s.proc i = .consuming stored →
      s.shared.clock + milliseconds ≤ stored.expiresAt
  | .world (.expire _) => True

end NeuroWealth.WalletOtp
