import NeuroWealth.Foundation.Interleaving
import NeuroWealth.Foundation.Text

/-!
# The WhatsApp webhook

Messages from any phones, handled in any order after they were logged, and the worker that runs the
intents of verified users. Sessions, codes and wallets are three maps by phone hash; distinct phones
have distinct hashes, so a phone stands for its hash.
-/

namespace NeuroWealth.WhatsApp

open Interleaving
open Text (trimmed)

variable {ι φ : Type} [DecidableEq ι] [DecidableEq φ]

inductive UserState where
  | unverified
  | awaitingOtp
  | awaitingCustodialConsent
  | verified
deriving DecidableEq

structure ConversationSession where
  state : UserState
  lastMessageTime : ℕ
  messageCount : ℕ
  rateLimitWindowStart : ℕ
deriving DecidableEq

structure OTPRecord where
  code : String
  expiresAt : ℕ
  attempts : ℕ
deriving DecidableEq

/-- A wallet, by the number of the keypair drawn for it. -/
structure UserWallet where
  keypair : ℕ
  createdAt : ℕ
deriving DecidableEq

structure RateLimit where
  count : ℕ
  windowStart : ℕ

def SESSION_TIMEOUT_MS : ℕ := 15 * 60 * 1000

def OTP_TTL_MS : ℕ := 5 * 60 * 1000

def MAX_ATTEMPTS : ℕ := 3

def RATE_LIMIT_MAX : ℕ := 10

def RATE_LIMIT_WINDOW_MS : ℕ := 60000

/-- A message past the checks of the request. -/
structure Message (φ : Type) where
  phoneHash : φ
  messageBody : String
  messageSid : String

/-- An intent of a verified user. -/
structure Job (φ : Type) where
  phoneHash : φ
  messageBody : String
  messageSid : String

/-- What happened to a phone: its session was reset, a code was generated for it, one of its
    messages was compared with the code, it agreed to custody, or an intent of it was executed with
    the wallet it had. -/
inductive Event where
  | reset
  | generated (code : String) (time : ℕ)
  | wrong
  | accepted (code : String) (time : ℕ)
  | agreed
  | executed (wallet : Option UserWallet)
deriving DecidableEq

/-- The clock, the maps of the service, the keypairs drawn so far, and the intent queue with the ids
    it has seen. `trace` keeps the events of each phone, newest first. -/
structure Shared (φ : Type) where
  clock : ℕ
  sessions : φ → Option ConversationSession
  otpStore : φ → Option OTPRecord
  userWallets : φ → Option UserWallet
  rateLimitMap : φ → Option RateLimit
  keypairs : ℕ
  jobs : List (Job φ)
  jobIds : List String
  trace : φ → List Event

/-! ## Text -/

/-- `text.toLowerCase().trim()`, as far as a comparison with a word in ASCII without `k` can tell.
    -/
def normalise (text : String) : String := trimmed (String.ofList (text.toList.map Char.toLower))

/-- `text.replace(/\D/g, '')`. -/
def digitsOf (text : String) : String := String.ofList (text.toList.filter Char.isDigit)

namespace Shared

variable (x : Shared φ) (p : φ)

def note (e : Event) : Shared φ := { x with trace := Function.update x.trace p (e :: x.trace p) }

/-! ## Sessions -/

/-- The phone has no session, or one that has timed out. -/
def TimedOut : Prop :=
  ∀ session ∈ x.sessions p, x.clock - session.lastMessageTime > SESSION_TIMEOUT_MS

instance : Decidable (x.TimedOut p) :=
  inferInstanceAs (Decidable (∀ session ∈ x.sessions p, _))

def setSession (session : ConversationSession) : Shared φ :=
  { x with sessions := Function.update x.sessions p (some session) }

/-- The session that `getSession` returns. -/
def session : ConversationSession :=
  match x.sessions p with
  | none => ⟨.unverified, x.clock, 0, x.clock⟩
  | some session =>
    if x.clock - session.lastMessageTime > SESSION_TIMEOUT_MS then
      ⟨.unverified, x.clock, 0, x.clock⟩
    else { session with lastMessageTime := x.clock }

/-- What `getSession` leaves: a new or timed-out session starts as unverified. -/
def getSession : Shared φ :=
  if x.TimedOut p then (x.setSession p (x.session p)).note p .reset
  else x.setSession p (x.session p)

def updateState (newState : UserState) : Shared φ :=
  let y := (x.getSession p).setSession p { x.session p with state := newState }
  if newState = .unverified then y.note p .reset else y

/-! ## Codes and wallets -/

/-- `crypto.randomInt(100000, 999999).toString()`. -/
def codeOf (n : Fin 899999) : String := toString (100000 + n.val)

def generateOTP (n : Fin 899999) : Shared φ :=
  { x with otpStore :=
      Function.update x.otpStore p (some ⟨codeOf n, x.clock + OTP_TTL_MS, 0⟩) }.note p
    (.generated (codeOf n) x.clock)

def deleteOTP : Shared φ := { x with otpStore := Function.update x.otpStore p none }

def verifyOTP (inputCode : String) : Shared φ × Bool :=
  match x.otpStore p with
  | none => (x, false)
  | some record =>
    if x.clock > record.expiresAt then (x.deleteOTP p, false)
    else if record.attempts ≥ MAX_ATTEMPTS then (x.deleteOTP p, false)
    else if record.code ≠ trimmed inputCode then
      ({ x with otpStore :=
          Function.update x.otpStore p (some { record with attempts := record.attempts + 1 }) }.note
        p .wrong, false)
    else ((x.deleteOTP p).note p (.accepted record.code x.clock), true)

def createCustodialWallet : Shared φ :=
  { x with
    userWallets := Function.update x.userWallets p (some ⟨x.keypairs, x.clock⟩)
    keypairs := x.keypairs + 1 }

/-! ## The worker -/

/-- The answer of `canExecuteIntent`; it leaves what `getSession` leaves. -/
def canExecuteIntent : Bool :=
  (x.session p).state = .verified && (x.userWallets p).isSome

/-- The worker runs an intent, unless the session has expired. -/
def process (job : Job φ) : Shared φ :=
  if x.canExecuteIntent job.phoneHash then
    (x.getSession job.phoneHash).note job.phoneHash (.executed (x.userWallets job.phoneHash))
  else x.getSession job.phoneHash

/-- `intentQueue.add`: an id that the queue has seen adds nothing. -/
def add (job : Job φ) : Shared φ :=
  if job.messageSid ∈ x.jobIds then x
  else { x with jobs := x.jobs ++ [job], jobIds := job.messageSid :: x.jobIds }

/-! ## The handler -/

/-- The answer of `checkWebhookRateLimit`. -/
def withinRateLimit : Bool :=
  match x.rateLimitMap p with
  | none => true
  | some entry =>
    x.clock - entry.windowStart > RATE_LIMIT_WINDOW_MS || entry.count < RATE_LIMIT_MAX

/-- What `checkWebhookRateLimit` leaves. -/
def countMessage : Shared φ :=
  match x.rateLimitMap p with
  | none => { x with rateLimitMap := Function.update x.rateLimitMap p (some ⟨1, x.clock⟩) }
  | some entry =>
    if x.clock - entry.windowStart > RATE_LIMIT_WINDOW_MS then
      { x with rateLimitMap := Function.update x.rateLimitMap p (some ⟨1, x.clock⟩) }
    else if entry.count ≥ RATE_LIMIT_MAX then x
    else
      { x with rateLimitMap :=
          Function.update x.rateLimitMap p (some { entry with count := entry.count + 1 }) }

/-- A message in an unverified session. -/
def greet (body : String) (n : Fin 899999) : Shared φ :=
  if normalise body ∈ ["hi", "hello", "start", ""] then
    (x.generateOTP p n).updateState p .awaitingOtp
  else x

/-- A message while a code is awaited. -/
def enterCode (body : String) : Shared φ :=
  if (digitsOf body).length = 6 then
    if (x.verifyOTP p (digitsOf body)).2 then
      (x.verifyOTP p (digitsOf body)).1.updateState p .awaitingCustodialConsent
    else (x.verifyOTP p (digitsOf body)).1
  else x

/-- The words that agree to custody. -/
def Agrees (body : String) : Prop := normalise body ∈ ["agree", "yes"]
deriving Decidable

/-- A message while consent is awaited. -/
def consent (body : String) : Shared φ :=
  if normalise body = "help" then x
  else if Agrees body then
    ((x.createCustodialWallet p).updateState p .verified).note p .agreed
  else if normalise body ∈ ["decline", "no"] then x.updateState p .unverified
  else x

/-- The handler after `getSession` to its reply, with the intent it enqueues then. -/
def dispatch (m : Message φ) (n : Fin 899999) : UserState → Shared φ × Option (Job φ)
  | .unverified => (x.greet m.phoneHash m.messageBody n, none)
  | .awaitingOtp => (x.enterCode m.phoneHash m.messageBody, none)
  | .awaitingCustodialConsent => (x.consent m.phoneHash m.messageBody, none)
  | .verified =>
    if (x.userWallets m.phoneHash).isSome then
      (x, some ⟨m.phoneHash, m.messageBody, m.messageSid⟩)
    else (x.updateState m.phoneHash .unverified, none)

def handle (m : Message φ) (n : Fin 899999) : Shared φ × Option (Job φ) :=
  (x.getSession m.phoneHash).dispatch m n (x.session m.phoneHash).state

end Shared

/-! ## The system -/

/-- How far the handling of a request has come. -/
inductive Stage (φ : Type) where
  | idle
  /-- The inbound message is being logged. -/
  | logging (m : Message φ)
  /-- The reply is sent; the intent is to be enqueued. -/
  | enqueuing (job : Job φ)
  | done

/-- The phone whose message is handled next. -/
def Stage.phone : Stage φ → Option φ
  | logging m => some m.phoneHash
  | _ => none

/-- A request arrives; the message was logged, and a number may be drawn; or the intent is enqueued,
    or not with or without effect. -/
inductive Outcome (φ : Type) where
  | receive (sender : Option φ) (body sid : String)
  | logged (n : Fin 899999)
  | added
  | fails (effect : Bool)

/-- Time passes, or the worker takes a job of the queue. -/
inductive Change where
  | elapse (milliseconds : ℕ)
  | work (position : ℕ)

/-- The checks of a request. -/
def receive (x : Shared φ) (sender : Option φ) (body sid : String) : Shared φ × Stage φ :=
  match sender with
  | none => (x, .done)
  | some p =>
    if trimmed sid = "" then (x, .done)
    else
      (x.countMessage p,
        if x.withinRateLimit p then .logging ⟨p, trimmed body, trimmed sid⟩ else .done)

/-- One step of the handling of a request. -/
def step (x : Shared φ) : Stage φ → Outcome φ → Option (Shared φ × Stage φ)
  | .idle, .receive sender body sid => some (receive x sender body sid)
  | .logging m, .logged n =>
    some ((x.handle m n).1, ((x.handle m n).2.map Stage.enqueuing).getD .done)
  | .enqueuing job, .added => some (x.add job, .done)
  | .enqueuing job, .fails effect => some (if effect then x.add job else x, .done)
  | _, _ => none

def around (x : Shared φ) : Change → Option (Shared φ)
  | .elapse milliseconds => some { x with clock := x.clock + milliseconds }
  | .work position =>
    (x.jobs[position]?).map fun job =>
      { x with jobs := x.jobs.eraseIdx position }.process job

def rules (ι φ : Type) [DecidableEq φ] :
    Rules ι (Shared φ) (Stage φ) (Outcome φ) Change where
  act _ := step
  world := around

/-- No message has arrived. -/
def fresh (clock : ℕ) : System ι (Shared φ) (Stage φ) :=
  ⟨⟨clock, fun _ => none, fun _ => none, fun _ => none, fun _ => none, 0, [], [], fun _ => []⟩,
    fun _ => .idle⟩

/-- The message agrees to custody for a phone that has a wallet. -/
def Stage.Recreates (x : Shared φ) : Stage φ → Prop
  | logging m => (x.session m.phoneHash).state = .awaitingCustodialConsent ∧
      Shared.Agrees m.messageBody ∧ (x.userWallets m.phoneHash).isSome
  | _ => False

instance (x : Shared φ) (r : Stage φ) : Decidable (r.Recreates x) := by
  unfold Stage.Recreates
  split <;> infer_instance

/-- No phone that has a wallet agrees to custody again. -/
def Undisturbed (s : System ι (Shared φ) (Stage φ)) : Move ι (Outcome φ) Change → Prop
  | .act i (.logged _) => ¬ (s.proc i).Recreates s.shared
  | _ => True

instance (s : System ι (Shared φ) (Stage φ)) (m : Move ι (Outcome φ) Change) :
    Decidable (Undisturbed s m) := by
  unfold Undisturbed
  split <;> infer_instance

/-! ## What the events of a phone say, read from the newest on -/

/-- The last code generated for the phone and its time, unless it was used since. -/
def outstanding : List Event → Option (String × ℕ)
  | [] => none
  | .generated code time :: _ => some (code, time)
  | .accepted _ _ :: _ => none
  | _ :: rest => outstanding rest

/-- The wrong codes compared since the last code was generated. -/
def wrongSince : List Event → ℕ
  | [] => 0
  | .generated _ _ :: _ => 0
  | .wrong :: rest => wrongSince rest + 1
  | _ :: rest => wrongSince rest

/-- A code is the one outstanding, at most five minutes old and not exhausted. -/
def Live (before : List Event) (code : String) (time : ℕ) : Prop :=
  (∃ generatedAt, outstanding before = some (code, generatedAt) ∧
    time ≤ generatedAt + OTP_TTL_MS) ∧ wrongSince before < MAX_ATTEMPTS

/-- Since the last reset a message carried a live code. -/
def PhoneVerified : List Event → Prop
  | [] => False
  | .reset :: _ => False
  | .accepted code time :: rest => Live rest code time ∨ PhoneVerified rest
  | _ :: rest => PhoneVerified rest

/-- Since the last reset a message carried a live code and a later one agreed to custody. -/
def Authorised : List Event → Prop
  | [] => False
  | .reset :: _ => False
  | .agreed :: rest => PhoneVerified rest ∨ Authorised rest
  | _ :: rest => Authorised rest

/-- Every intent was executed with a wallet after an authorisation, and at most three wrong codes
    were compared with each code. -/
def Lawful : List Event → Prop
  | [] => True
  | .executed wallet :: rest => wallet.isSome ∧ Authorised rest ∧ Lawful rest
  | .wrong :: rest => wrongSince rest < MAX_ATTEMPTS ∧ Lawful rest
  | _ :: rest => Lawful rest

end NeuroWealth.WhatsApp
