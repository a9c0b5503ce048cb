import NeuroWealth.Foundation.Interleaving

/-!
# Wallet login nonces

The challenge and verify routes for any addresses. A request takes one Redis command at a time; the
commands of different requests interleave. Signatures are ideal: one verifies for the key and the
message it was made for, and no random bytes are drawn twice.
-/

namespace NeuroWealth.LoginNonce

open Interleaving

variable {ι : Type} [DecidableEq ι]

def NONCE_TTL_S : ℕ := 5 * 60

/-- A signature by its signer and its message, or any other text. -/
inductive Signature where
  | of (signer message : String)
  | other (text : String)
deriving DecidableEq

/-- The body of a verify request with all three fields. -/
structure VerifyRequest where
  address : String
  nonce : String
  signature : Signature
deriving DecidableEq

structure StoredNonce where
  nonce : String
  expires : ℕ

/-- A nonce was stored for an address, or deleted by a request that consumed it. -/
inductive Event (ι : Type) where
  | issued (address nonce : String) (time : ℕ)
  | consumed (i : ι) (address nonce : String) (time : ℕ)

/-- The clock in milliseconds, the nonce keys, and the nonces drawn so far. `log` keeps what happened
    to the nonces, newest first. -/
structure Shared (ι : Type) where
  clock : ℕ
  nonces : String → Option StoredNonce
  drawn : List String
  log : List (Event ι)

inductive Response where
  | challenge (address nonce message : String)
  | error (status : ℕ) (message : String)
deriving DecidableEq

/-- How far a request has come: the Redis command it sends next. -/
inductive Stage where
  | idle
  /-- The nonce of a challenge is drawn. -/
  | drawing (address : String)
  /-- SET EX of the nonce. -/
  | setting (address nonce : String)
  /-- The get-and-delete script. -/
  | consuming (r : VerifyRequest)
  /-- The refresh token is stored. -/
  | storing (r : VerifyRequest)
  | done (response : Response)
  /-- The token pair is returned. -/
  | granted (r : VerifyRequest)

/-- A request arrives, its fields possibly missing; bytes are drawn; or a command succeeds, or fails
    with or without effect. -/
inductive Outcome where
  | challenge (address : String)
  | verify (address nonce : String) (signature : Option Signature)
  | randomBytes (nonce : String)
  | ok
  | fails (effect : Bool)

def buildChallengeMessage (address nonce : String) : String :=
  "NeuroWealth Authentication\nAddress: " ++ address ++ "\nNonce: " ++ nonce ++
    "\nSign this message to prove ownership of your Stellar wallet."

/-- The length of a string in UTF-16 code units. -/
def utf16Length (text : String) : ℕ :=
  (text.toList.map fun c => if c.val < 0x10000 then 1 else 2).sum

def verifyStellarSignature (address message : String) (signature : Signature) : Bool :=
  signature = .of address message

namespace Shared

variable (x : Shared ι)

/-- SET EX of the nonce of an address. -/
def set (address nonce : String) : Shared ι :=
  { x with
    nonces := Function.update x.nonces address (some ⟨nonce, x.clock + NONCE_TTL_S * 1000⟩)
    log := .issued address nonce x.clock :: x.log }

/-- GET of the nonce of an address. -/
def get (address : String) : Option String :=
  ((x.nonces address).filter fun stored => x.clock ≤ stored.expires).map StoredNonce.nonce

/-- The script has deleted the nonce it got. -/
def del (i : ι) (address nonce : String) : Shared ι :=
  { x with
    nonces := Function.update x.nonces address none
    log := .consumed i address nonce x.clock :: x.log }

end Shared

/-- The verification after the script. -/
def verified (r : VerifyRequest) (storedNonce : String) : Stage :=
  if storedNonce ≠ r.nonce then .done (.error 401 "Nonce mismatch.")
  else if verifyStellarSignature r.address (buildChallengeMessage r.address r.nonce) r.signature then
    .storing r
  else .done (.error 401 "Invalid signature.")

/-- One step of a request. -/
def step (i : ι) (x : Shared ι) : Stage → Outcome → Option (Shared ι × Stage)
  | .idle, .challenge address =>
    some (x, if utf16Length address < 56 then
      .done (.error 400 "Valid Stellar address (G...) required as ?address=")
      else .drawing address)
  | .drawing address, .randomBytes nonce =>
    if nonce ∈ x.drawn then none
    else some ({ x with drawn := nonce :: x.drawn }, .setting address nonce)
  | .setting address nonce, .ok =>
    some (x.set address nonce,
      .done (.challenge address nonce (buildChallengeMessage address nonce)))
  | .setting address nonce, .fails effect =>
    some (if effect then x.set address nonce else x,
      .done (.error 503 "Challenge service unavailable"))
  | .idle, .verify address nonce signature =>
    some (x, match signature with
      | some signature =>
        if address = "" ∨ nonce = "" then
          .done (.error 400 "address, nonce, and signature are required")
        else .consuming ⟨address, nonce, signature⟩
      | none => .done (.error 400 "address, nonce, and signature are required"))
  | .consuming r, .ok =>
    match x.get r.address with
    | none => some (x, .done (.error 401 "Nonce expired or not found. Request a new challenge."))
    | some storedNonce => some (x.del i r.address storedNonce, verified r storedNonce)
  | .consuming r, .fails effect =>
    some (match x.get r.address with
      | none => x
      | some storedNonce => if effect then x.del i r.address storedNonce else x,
      .done (.error 503 "Authentication service unavailable"))
  | .storing r, .ok => some (x, .granted r)
  | .storing _, .fails _ => some (x, .done (.error 503 "Authentication service unavailable"))
  | _, _ => none

/-- Time passes. -/
def around (x : Shared ι) (milliseconds : ℕ) : Option (Shared ι) :=
  some { x with clock := x.clock + milliseconds }

def rules (ι : Type) : Rules ι (Shared ι) Stage Outcome ℕ where
  act := step
  world := around

/-- No request has arrived. -/
def fresh (clock : ℕ) : System ι (Shared ι) Stage :=
  ⟨⟨clock, fun _ => none, [], []⟩, fun _ => .idle⟩

/-- The nonce issued last for an address, with its time. -/
def latest (address : String) : List (Event ι) → Option (String × ℕ)
  | [] => none
  | .issued other nonce time :: older =>
    if other = address then some (nonce, time) else latest address older
  | .consumed _ _ _ _ :: older => latest address older

/-- The request consumed the nonce issued last for its address, at most five minutes old, and no
    other request consumed it; its signature is that of the address over the challenge. -/
structure Proper (log : List (Event ι)) (i : ι) (r : VerifyRequest) : Prop where
  consumed : ∃ newer older time issuedAt,
    log = newer ++ .consumed i r.address r.nonce time :: older ∧
    latest r.address older = some (r.nonce, issuedAt) ∧ time ≤ issuedAt + NONCE_TTL_S * 1000
  only : ∀ j address time, .consumed j address r.nonce time ∈ log → j = i ∧ address = r.address
  signed : r.signature = .of r.address (buildChallengeMessage r.address r.nonce)

end NeuroWealth.LoginNonce
