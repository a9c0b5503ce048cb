import NeuroWealth.Foundation.Interleaving
import NeuroWealth.Foundation.Text

/-!
# One-time passwords of a phone

`generateOTP` and `verifyOTP` for one phone hash. Each Redis command, pipeline and script is one
step, and so is each bcrypt computation. Times are in milliseconds; a key is visible up to its
expiry. A bcrypt hash is known by the code and the salt under it.
-/

namespace NeuroWealth.PhoneOtp

open Interleaving

variable {ι : Type} [DecidableEq ι]

def OTP_TTL_S : ℕ := 600

def MAX_ATTEMPTS : ℕ := 3

def LOCKOUT_TTL_S : ℕ := 30 * 60

def RESEND_COOLDOWN_S : ℕ := 60

/-- A stored hash, with the number of its issue on record. -/
structure Stored where
  code : String
  salt : String
  issue : ℕ
  deriving DecidableEq

/-- The hash texts are equal; the record of the issue is not part of the text. -/
def Stored.sameText (a b : Stored) : Prop := a.code = b.code ∧ a.salt = b.salt

instance (a b : Stored) : Decidable (a.sameText b) := inferInstanceAs (Decidable (_ ∧ _))

/-- A key's value and its expiry. -/
structure Entry (α : Type) where
  value : α
  expires : ℕ

/-- The clock and the four keys of the phone hash. On record are the number of issues; for each
    issue the calls that fetched it and have not compared, found the submission wrong and have not
    counted it, and counted it; the accepted hashes; and the issues that ended in a lockout, with
    its time. -/
structure Shared (ι : Type) where
  clock : ℕ
  otp : Option (Entry Stored)
  lockout : Option (Entry Unit)
  attempts : Option (Entry ℕ)
  cooldown : Option (Entry Unit)
  issued : ℕ
  comparing : ℕ → List ι
  uncounted : ℕ → List ι
  counted : ℕ → List ι
  accepted : List Stored
  lockouts : List (ℕ × ℕ)

/-- What a call returns or throws; a time is the one its message names. -/
inductive Result where
  | generated (code : String)
  | lockedError (lockedUntil : ℤ)
  | cooldownError (retryAfter : ℤ)
  | locked (lockedUntil : ℤ)
  | notFound
  | invalid (remaining : ℤ)
  | lockedOut (lockedUntil : ℕ)
  | used
  | verified
  deriving DecidableEq

/-- How far a call has come: what it does next. -/
inductive Stage where
  | idle
  /-- `generateOTP`: GET of the lockout. -/
  | generating
  /-- TTL of the lockout. -/
  | rejecting
  /-- SET NX of the cooldown. -/
  | acquiring
  /-- TTL of the cooldown. -/
  | cooling
  /-- The code is drawn and hashed. -/
  | hashing
  /-- The pipeline that stores the hash and deletes the attempts. -/
  | storing (code salt : String)
  /-- `verifyOTP`: GET of the lockout. -/
  | verifying (inputCode : String)
  /-- TTL of the lockout. -/
  | refusing
  /-- GET of the hash. -/
  | fetching (inputCode : String)
  /-- `bcrypt.compare`. -/
  | comparing (inputCode : String) (stored : Stored)
  /-- The pipeline that increments the attempts. -/
  | counting (issue : ℕ)
  /-- The pipeline that locks out. -/
  | locking (issue : ℕ)
  /-- The compare-and-delete script. -/
  | consuming (stored : Stored)
  /-- DEL of the attempts. -/
  | clearing
  | done (result : Result)

/-- A call is made, a code is drawn and hashed, or the next step is taken. -/
inductive Outcome where
  | generateOTP
  | verifyOTP (inputCode : String)
  | draw (n : Fin 899999) (salt : String)
  | ok

/-- Time passes. -/
inductive Change where
  | elapse (milliseconds : ℕ)

/-- What Redis answers about a key: nothing once it has expired. -/
def visible {α : Type} (now : ℕ) (key : Option (Entry α)) : Option α :=
  (key.filter fun entry => now ≤ entry.expires).map Entry.value

/-- TTL of a key in seconds; `-2` without the key. -/
def ttl {α : Type} (now : ℕ) (key : Option (Entry α)) : ℤ :=
  match key.filter fun entry => now ≤ entry.expires with
  | none => -2
  | some entry => ((entry.expires : ℤ) - now + 500) / 1000

namespace Shared

/-- The stored hash, if it has not expired. -/
def hash (x : Shared ι) : Option Stored := visible x.clock x.otp

/-- The attempts so far; none without the key. -/
def count (x : Shared ι) : ℕ := (visible x.clock x.attempts).getD 0

def lockedOut (x : Shared ι) : Bool := (visible x.clock x.lockout).isSome

/-- SET NX of the cooldown. -/
def acquire (x : Shared ι) : Shared ι :=
  if (visible x.clock x.cooldown).isNone then
    { x with cooldown := some ⟨(), x.clock + RESEND_COOLDOWN_S * 1000⟩ }
  else x

/-- The pipeline of `generateOTP`. -/
def store (x : Shared ι) (code salt : String) : Shared ι :=
  { x with
    otp := some ⟨⟨code, salt, x.issued⟩, x.clock + OTP_TTL_S * 1000⟩
    attempts := none
    issued := x.issued + 1 }

/-- On record: call `i` has fetched the hash of an issue. -/
def fetch (x : Shared ι) (i : ι) (issue : ℕ) : Shared ι :=
  { x with comparing := Function.update x.comparing issue (i :: x.comparing issue) }

/-- On record: call `i` has compared its submission with an issue. -/
def compare (x : Shared ι) (i : ι) (issue : ℕ) (isMatch : Bool) : Shared ι :=
  { x with
    comparing := Function.update x.comparing issue ((x.comparing issue).erase i)
    uncounted := if isMatch then x.uncounted
      else Function.update x.uncounted issue (i :: x.uncounted issue) }

/-- The pipeline that increments the attempts and renews their expiry. -/
def incr (x : Shared ι) (i : ι) (issue : ℕ) : Shared ι :=
  { x with
    attempts := some ⟨x.count + 1, x.clock + OTP_TTL_S * 1000⟩
    uncounted := Function.update x.uncounted issue ((x.uncounted issue).erase i)
    counted := Function.update x.counted issue (i :: x.counted issue) }

/-- The pipeline that locks out. -/
def lock (x : Shared ι) (issue : ℕ) : Shared ι :=
  { x with
    otp := none
    attempts := none
    lockout := some ⟨(), x.clock + LOCKOUT_TTL_S * 1000⟩
    lockouts := (issue, x.clock) :: x.lockouts }

/-- The compare-and-delete script: the hash it deletes, if it is the expected text. -/
def consumed (x : Shared ι) (expected : Stored) : Option Stored :=
  x.hash.filter fun stored => stored.sameText expected

/-- The script has deleted `stored`. -/
def accept (x : Shared ι) (stored : Stored) : Shared ι :=
  { x with otp := none, accepted := stored :: x.accepted }

/-- DEL of the attempts. -/
def clear (x : Shared ι) : Shared ι := { x with attempts := none }

end Shared

/-- `bcrypt.compare(inputCode.trim(), storedHash)`. -/
def bcryptCompare (inputCode : String) (stored : Stored) : Bool :=
  Text.trimmed inputCode = stored.code

/-- `verifyOTP` after the hash is fetched. -/
def fetched (i : ι) (x : Shared ι) (inputCode : String) : Shared ι × Stage :=
  match x.hash with
  | none => (x, .done .notFound)
  | some stored => (x.fetch i stored.issue, .comparing inputCode stored)

/-- `verifyOTP` after the comparison. -/
def compared (i : ι) (x : Shared ι) (inputCode : String) (stored : Stored) : Shared ι × Stage :=
  let isMatch := bcryptCompare inputCode stored
  (x.compare i stored.issue isMatch, if isMatch then .consuming stored else .counting stored.issue)

/-- `verifyOTP` after the attempts are incremented to `attemptCount`. -/
def afterCount (issue attemptCount : ℕ) : Stage :=
  let remaining : ℤ := MAX_ATTEMPTS - attemptCount
  if remaining ≤ 0 then .locking issue else .done (.invalid remaining)

/-- `verifyOTP` at its script. -/
def consume (x : Shared ι) (expected : Stored) : Shared ι × Stage :=
  match x.consumed expected with
  | none => (x, .done .used)
  | some stored => (x.accept stored, .clearing)

/-- One step of a call. -/
def step (i : ι) (x : Shared ι) : Stage → Outcome → Option (Shared ι × Stage)
  | .idle, .generateOTP => some (x, .generating)
  | .generating, .ok => some (x, if x.lockedOut then .rejecting else .acquiring)
  | .rejecting, .ok => some (x, .done (.lockedError (x.clock + ttl x.clock x.lockout * 1000)))
  | .acquiring, .ok =>
    some (x.acquire, if (visible x.clock x.cooldown).isNone then .hashing else .cooling)
  | .cooling, .ok =>
    let ttl := ttl x.clock x.cooldown
    some (x, .done (.cooldownError (if ttl > 0 then ttl else RESEND_COOLDOWN_S)))
  | .hashing, .draw n salt => some (x, .storing (toString (100000 + n.val)) salt)
  | .storing code salt, .ok => some (x.store code salt, .done (.generated code))
  | .idle, .verifyOTP inputCode => some (x, .verifying inputCode)
  | .verifying inputCode, .ok => some (x, if x.lockedOut then .refusing else .fetching inputCode)
  | .refusing, .ok => some (x, .done (.locked (x.clock + ttl x.clock x.lockout * 1000)))
  | .fetching inputCode, .ok => some (fetched i x inputCode)
  | .comparing inputCode stored, .ok => some (compared i x inputCode stored)
  | .counting issue, .ok => some (x.incr i issue, afterCount issue (x.count + 1))
  | .locking issue, .ok =>
    some (x.lock issue, .done (.lockedOut (x.clock + LOCKOUT_TTL_S * 1000)))
  | .consuming expected, .ok => some (consume x expected)
  | .clearing, .ok => some (x.clear, .done .verified)
  | _, _ => none

def around (x : Shared ι) : Change → Option (Shared ι)
  | .elapse milliseconds => some { x with clock := x.clock + milliseconds }

/-- Any calls for the phone hash. -/
def rules (ι : Type) [DecidableEq ι] : Rules ι (Shared ι) Stage Outcome Change where
  act := step
  world := around

/-- Nothing was generated for the phone hash. -/
def fresh (clock : ℕ) : System ι (Shared ι) Stage :=
  ⟨⟨clock, none, none, none, none, 0, fun _ => [], fun _ => [], fun _ => [], [], []⟩,
    fun _ => .idle⟩

/-- A hash is fetched only while the attempts and the submissions of its code that are still to be
    compared or counted are fewer than the maximum; the attempts are deleted after a success while
    no code is stored; a code is stored while no lockout is in force; and when the last allowed
    wrong submission of a code is counted, the attempts still hold the others. -/
def Undisturbed (s : System ι (Shared ι) Stage) : Move ι Outcome Change → Prop
  | .act i _ =>
    (∀ inputCode, s.proc i = .fetching inputCode → ∀ stored ∈ s.shared.hash,
      s.shared.count + (s.shared.uncounted stored.issue).length +
        (s.shared.comparing stored.issue).length < MAX_ATTEMPTS) ∧
    (s.proc i = .clearing → s.shared.hash = none) ∧
    (∀ code salt, s.proc i = .storing code salt → s.shared.lockedOut = false) ∧
    (∀ issue, s.proc i = .counting issue →
      (s.shared.counted issue).length + 1 = MAX_ATTEMPTS → MAX_ATTEMPTS ≤ s.shared.count + 1)
  | .world _ => True

end NeuroWealth.PhoneOtp
