import NeuroWealth.Foundation.Interleaving

/-!
# Refresh token rotation

`rotateRefreshToken` and the sign-in that starts a login, over Redis commands that are atomic one by
one. A verifiable token is known by its payload, and a Redis key `siws:refresh:<hash>` by the token
under the hash.
-/

namespace NeuroWealth.RefreshTokens

open Interleaving

variable {ι : Type} [DecidableEq ι]

def ACCESS_TOKEN_TTL_S : ℕ := 15 * 60

def REFRESH_TOKEN_TTL_S : ℕ := 7 * 24 * 60 * 60

inductive TokenType where
  | access
  | refresh
  deriving DecidableEq

/-- The payload of a token; `operator` is `role === 'operator'`. Times are in seconds. -/
structure JWTPayload where
  sub : String
  iat : ℕ
  exp : ℕ
  type : TokenType
  operator : Bool
  deriving DecidableEq

/-- A token as a caller presents it: one that `jwt.sign` made, or any other text. -/
inductive Token where
  | signed (payload : JWTPayload)
  | other (text : String)
  deriving DecidableEq

structure AuthTokenPair where
  accessToken : Token
  refreshToken : Token
  expiresIn : ℕ
  deriving DecidableEq

/-- `jwt.verify`: the payload of a signed token that has not expired. -/
def jwtVerify (now : ℕ) : Token → Option JWTPayload
  | .signed payload => if now < payload.exp then some payload else none
  | .other _ => none

/-- `signToken` at time `now`. -/
def signToken (now : ℕ) (sub : String) (type : TokenType) (operator : Bool) (ttlSeconds : ℕ) :
    Token :=
  .signed ⟨sub, now, now + ttlSeconds, type, operator⟩

/-- `issueTokenPair` at time `now`. -/
def issueTokenPair (now : ℕ) (address : String) (operator : Bool) : AuthTokenPair where
  accessToken := signToken now address .access operator ACCESS_TOKEN_TTL_S
  refreshToken := signToken now address .refresh operator REFRESH_TOKEN_TTL_S
  expiresIn := ACCESS_TOKEN_TTL_S

/-- The clock and the refresh keys of Redis. On record are how often each token was stored, and the
    logins whose token a stored token is. -/
structure Shared (ι : Type) where
  clock : ℕ
  redis : Token → Option String
  stored : Token → ℕ
  owners : Token → List ι

/-- A redeemed token: which one, the how many-th time it was stored, and for which logins. -/
structure Redeemed (ι : Type) where
  token : Token
  storing : ℕ
  owners : List ι

/-- How far a call has come. A sign-in redeems no token. -/
inductive Stage (ι : Type) where
  | idle
  /-- The token was verified; `redis.get` is next. -/
  | getting (raw : Token) (payload : JWTPayload)
  /-- The token is stored for its owner; `redis.del` is next. -/
  | deleting (redeemed : Redeemed ι) (payload : JWTPayload)
  /-- The key is deleted; the new pair is issued next. -/
  | issuing (redeemed : Redeemed ι) (payload : JWTPayload)
  /-- `storeRefreshToken` is next. -/
  | storing (redeemed : Option (Redeemed ι)) (address : String) (pair : AuthTokenPair)
  | done (redeemed : Option (Redeemed ι)) (result : Option AuthTokenPair)
  | threw

/-- A sign-in succeeds or a token is presented; then each command succeeds, or fails with or without
    effect. -/
inductive Outcome where
  | signIn (address : String) (operator : Bool)
  | rotate (raw : Token)
  | ok
  | fails (effect : Bool)

/-- Time passes, or a key leaves Redis. -/
inductive Change where
  | elapse (seconds : ℕ)
  | drop (token : Token)

namespace Shared

/-- `redis.del` of a token's key. -/
def del (x : Shared ι) (token : Token) : Shared ι :=
  { x with redis := Function.update x.redis token none }

/-- `redis.set` of a token's key: the token is one more time stored, for `logins` as well. -/
def set (x : Shared ι) (token : Token) (address : String) (logins : List ι) : Shared ι :=
  { x with
    redis := Function.update x.redis token (some address)
    stored := Function.update x.stored token (x.stored token + 1)
    owners := Function.update x.owners token
      (if (x.redis token).isSome then logins ++ x.owners token else logins) }

end Shared

/-- `rotateRefreshToken` up to its first Redis command. -/
def rotateRefreshToken (x : Shared ι) (raw : Token) : Stage ι :=
  match jwtVerify x.clock raw with
  | none => .done none none
  | some payload => if payload.type ≠ .refresh then .done none none else .getting raw payload

/-- The answer of `redis.get`: go on only if the key names the token's subject. -/
def readStored (x : Shared ι) (raw : Token) (payload : JWTPayload) : Stage ι :=
  match x.redis raw with
  | none => .done none none
  | some storedAddress =>
    if storedAddress = "" ∨ storedAddress ≠ payload.sub then .done none none
    else .deleting ⟨raw, x.stored raw, x.owners raw⟩ payload

/-- The logins a new token belongs to: those of the redeemed one, or the sign-in itself. -/
def loginsOf (i : ι) : Option (Redeemed ι) → List ι
  | some redeemed => redeemed.owners
  | none => [i]

/-- One step of a call. -/
def step (i : ι) (x : Shared ι) : Stage ι → Outcome → Option (Shared ι × Stage ι)
  | .idle, .signIn address operator =>
    some (x, .storing none address (issueTokenPair x.clock address operator))
  | .idle, .rotate raw => some (x, rotateRefreshToken x raw)
  | .getting raw payload, .ok => some (x, readStored x raw payload)
  | .getting _ _, .fails _ => some (x, .threw)
  | .deleting redeemed payload, .ok => some (x.del redeemed.token, .issuing redeemed payload)
  | .deleting redeemed _, .fails effect =>
    some (if effect then x.del redeemed.token else x, .threw)
  | .issuing redeemed payload, .ok =>
    some (x, .storing (some redeemed) payload.sub
      (issueTokenPair x.clock payload.sub payload.operator))
  | .storing redeemed address pair, .ok =>
    some (x.set pair.refreshToken address (loginsOf i redeemed), .done redeemed (some pair))
  | .storing redeemed address pair, .fails effect =>
    some (if effect then x.set pair.refreshToken address (loginsOf i redeemed) else x, .threw)
  | _, _ => none

def around (x : Shared ι) : Change → Option (Shared ι)
  | .elapse seconds => some { x with clock := x.clock + seconds }
  | .drop token => some (x.del token)

/-- Any sign-ins and any rotations of any tokens. -/
def rules (ι : Type) : Rules ι (Shared ι) (Stage ι) Outcome Change where
  act := step
  world := around

/-- No token was ever stored. -/
def fresh (clock : ℕ) : System ι (Shared ι) (Stage ι) :=
  ⟨⟨clock, fun _ => none, fun _ => 0, fun _ => []⟩, fun _ => .idle⟩

/-- Login `login` can redeem `token` now. -/
def Redeemable (x : Shared ι) (login : ι) (token : Token) : Prop :=
  (x.redis token).isSome ∧ login ∈ x.owners token

/-- The call is between its `get` and its `del` of the token's key. -/
def Stage.Deleting (p : Stage ι) (token : Token) : Prop :=
  ∃ redeemed payload, p = .deleting redeemed payload ∧ redeemed.token = token

/-- When a rotation reads a stored token, no other one is between its `get` and its `del` of that
    token. -/
def Undisturbed (s : System ι (Shared ι) (Stage ι)) : Move ι Outcome Change → Prop
  | .act i .ok => ∀ raw payload, s.proc i = .getting raw payload → (s.shared.redis raw).isSome →
      ∀ j, j ≠ i → ¬ (s.proc j).Deleting raw
  | _ => True

end NeuroWealth.RefreshTokens
