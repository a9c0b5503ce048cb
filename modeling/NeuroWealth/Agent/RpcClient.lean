import NeuroWealth.Foundation.Interleaving

/-!
# The circuit breaker of the RPC client

Calls of `rpcCall` interleave where they await an endpoint. A call asks the endpoint for its network
first, unless that was verified a short time ago, and then runs its function there.
-/

namespace NeuroWealth.RpcClient

open Interleaving

variable {ι α : Type} [DecidableEq ι]

/-- The number of failures in the window before the circuit opens. -/
def failureThreshold : ℕ := 3

/-- The window in which failures are counted, in milliseconds. -/
def failureWindowMs : ℕ := 60000

/-- How long the circuit stays open before probing again. -/
def resetIntervalMs : ℕ := 30000

def networkVerificationTtlMs : ℕ := 300000

inductive CircuitState where
  | closed
  | opened
  | halfOpen
deriving DecidableEq

structure EndpointState where
  state : CircuitState
  failureTimes : List ℕ
  openedAt : Option ℕ
  networkVerifiedAt : ℕ
deriving DecidableEq

inductive Endpoint where
  | primary
  | fallback
deriving DecidableEq

/-- The environment, with the printable form of each URL. The module does not load with a fallback
    and no passphrase. -/
structure Settings where
  passphrase : Option String
  primary : String
  fallback : Option String
  required : fallback.isSome → passphrase.isSome

/-! ## Circuit-breaker logic -/

def makeEndpoint : EndpointState := ⟨.closed, [], none, 0⟩

namespace EndpointState

variable (ep : EndpointState)

def pruneOldFailures (now : ℕ) : EndpointState :=
  { ep with failureTimes := ep.failureTimes.filter (now ≤ · + failureWindowMs) }

def recordSuccess : EndpointState :=
  { ep with
    failureTimes := []
    state := .closed
    openedAt := none }

def recordFailure (now : ℕ) : EndpointState :=
  let pruned := { ep with failureTimes := ep.failureTimes ++ [now] }.pruneOldFailures now
  if failureThreshold ≤ pruned.failureTimes.length ∧ ep.state = .closed then
    { pruned with
      state := .opened
      openedAt := some now }
  else pruned

/-- The circuit has been open for the reset interval. -/
def Rested (now : ℕ) : Prop := ep.openedAt.getD 0 + resetIntervalMs ≤ now
deriving Decidable

/-- Whether a call may use the endpoint, which makes a rested circuit half-open. -/
def isAvailable (now : ℕ) : Bool × EndpointState :=
  match ep.state with
  | .closed => (true, ep)
  | .opened => if ep.Rested now then (true, { ep with state := .halfOpen }) else (false, ep)
  | .halfOpen => (true, ep)

/-- `verifyNetwork` returns at once. -/
def Verified (settings : Settings) (now : ℕ) : Prop :=
  settings.passphrase = none ∨ now < ep.networkVerifiedAt + networkVerificationTtlMs
deriving Decidable

/-- The failures of the last window. -/
def recentFailures (now : ℕ) : ℕ := ep.failureTimes.countP (now ≤ · + failureWindowMs)

end EndpointState

/-! ## The system -/

/-- A request is sent to an endpoint, or a call fails or succeeds there. A probe is a call that was
    let through although the circuit was not closed; `earlier` are the failures since the last
    success. -/
inductive Event where
  | contacted (endpoint : Endpoint) (before : EndpointState) (now : ℕ) (retryOnFallback : Bool)
  | failed (endpoint : Endpoint) (probe : Bool) (earlier : List ℕ) (now : ℕ)
      (after : EndpointState)
  | succeeded (endpoint : Endpoint) (probe : Bool) (after : EndpointState)

/-- The clock and the endpoints. `failures` are the times of the failures since the last success,
    newest first, and `log` keeps the events, newest first. -/
structure Shared where
  clock : ℕ
  endpoints : Endpoint → EndpointState
  failures : Endpoint → List ℕ
  log : List Event

/-- How far a call has come. -/
inductive Stage (α : Type) where
  | idle
  /-- The network of the endpoint was asked for. -/
  | verifying (endpoint : Endpoint) (probe retryOnFallback : Bool)
  /-- The function was run on the endpoint. -/
  | calling (endpoint : Endpoint) (probe retryOnFallback : Bool)
  | done (result : Except String α)

/-- A call starts, the network is answered, or the function returns; each request may fail. -/
inductive Outcome (α : Type) where
  | rpcCall (retryOnFallback : Bool)
  | network (passphrase : String)
  | returned (result : α)
  | threw (message : String)

/-- Time passes, or the health endpoint prunes the failures. -/
inductive Change where
  | elapse (milliseconds : ℕ)
  | prune (endpoint : Endpoint)

namespace Shared

variable (x : Shared) (endpoint : Endpoint)

def update (ep : EndpointState) : Shared :=
  { x with endpoints := Function.update x.endpoints endpoint ep }

/-- A request is sent to the endpoint, which the step found as `before`. -/
def contact (before : EndpointState) (retryOnFallback : Bool) : Shared :=
  { x with log := .contacted endpoint before x.clock retryOnFallback :: x.log }

def recordSuccess (probe : Bool) : Shared :=
  let after := (x.endpoints endpoint).recordSuccess
  { x.update endpoint after with
    failures := Function.update x.failures endpoint []
    log := .succeeded endpoint probe after :: x.log }

def recordFailure (probe : Bool) : Shared :=
  let after := (x.endpoints endpoint).recordFailure x.clock
  { x.update endpoint after with
    failures := Function.update x.failures endpoint (x.clock :: x.failures endpoint)
    log := .failed endpoint probe (x.failures endpoint) x.clock after :: x.log }

/-- A call is let through although the circuit is not closed. -/
def Probes : Prop :=
  (x.endpoints .primary).state = .halfOpen ∨
    (x.endpoints .primary).state = .opened ∧ (x.endpoints .primary).Rested x.clock
deriving Decidable

end Shared

/-- `timedCall`, up to its first request. -/
def timedCall (settings : Settings) (x : Shared) (endpoint : Endpoint) (before : EndpointState)
    (probe retryOnFallback : Bool) : Shared × Stage α :=
  (x.contact endpoint before retryOnFallback,
    if (x.endpoints endpoint).Verified settings x.clock then
      .calling endpoint probe retryOnFallback
    else .verifying endpoint probe retryOnFallback)

/-- The call goes on with the fallback, if it may. -/
def failOver (settings : Settings) (x : Shared) (retryOnFallback : Bool) (message : String) :
    Shared × Stage α :=
  if settings.fallback.isSome ∧ retryOnFallback then
    timedCall settings x .fallback (x.endpoints .fallback) false retryOnFallback
  else (x, .done (.error message))

/-- `rpcCall`, up to its first request. -/
def rpcCall (settings : Settings) (x : Shared) (retryOnFallback : Bool) : Shared × Stage α :=
  let pruned := (x.endpoints .primary).pruneOldFailures x.clock
  let y := x.update .primary (pruned.isAvailable x.clock).2
  if (pruned.isAvailable x.clock).1 then
    timedCall settings y .primary pruned (decide x.Probes) retryOnFallback
  else
    failOver settings y retryOnFallback
      "Primary RPC circuit is unavailable; automatic failover is disabled for this call"

/-- The `catch` of `timedCall`, and what `rpcCall` does then. -/
def callFailed (settings : Settings) (x : Shared) (endpoint : Endpoint)
    (probe retryOnFallback : Bool) (message : String) : Shared × Stage α :=
  match endpoint with
  | .primary => failOver settings (x.recordFailure .primary probe) retryOnFallback message
  | .fallback => (x.recordFailure .fallback probe, .done (.error message))

def mismatchMessage (settings : Settings) (endpoint : Endpoint) : String :=
  let label := match endpoint with
    | .primary => settings.primary
    | .fallback => settings.fallback.getD ""
  "RPC network mismatch for " ++ label ++ "; refusing to use a different Stellar network"

/-- The endpoint answered with its network. -/
def networkAnswered (settings : Settings) (x : Shared) (endpoint : Endpoint)
    (probe retryOnFallback : Bool) (passphrase : String) : Shared × Stage α :=
  let ep := x.endpoints endpoint
  if settings.passphrase = some passphrase then
    ((x.update endpoint { ep with networkVerifiedAt := x.clock }).contact endpoint ep
      retryOnFallback, .calling endpoint probe retryOnFallback)
  else
    callFailed settings (x.update endpoint { ep with networkVerifiedAt := 0 }) endpoint probe
      retryOnFallback (mismatchMessage settings endpoint)

/-- One step of a call. -/
def step (settings : Settings) (x : Shared) :
    Stage α → Outcome α → Option (Shared × Stage α)
  | .idle, .rpcCall retryOnFallback => some (rpcCall settings x retryOnFallback)
  | .verifying endpoint probe retryOnFallback, .network passphrase =>
    some (networkAnswered settings x endpoint probe retryOnFallback passphrase)
  | .verifying endpoint probe retryOnFallback, .threw message =>
    some (callFailed settings x endpoint probe retryOnFallback message)
  | .calling endpoint probe _, .returned result =>
    some (x.recordSuccess endpoint probe, .done (.ok result))
  | .calling endpoint probe retryOnFallback, .threw message =>
    some (callFailed settings x endpoint probe retryOnFallback message)
  | _, _ => none

def around (x : Shared) : Change → Option Shared
  | .elapse milliseconds => some { x with clock := x.clock + milliseconds }
  | .prune endpoint =>
    some (x.update endpoint ((x.endpoints endpoint).pruneOldFailures x.clock))

def rules (ι α : Type) (settings : Settings) : Rules ι Shared (Stage α) (Outcome α) Change where
  act _ := step settings
  world := around

/-- No call was made. -/
def fresh (clock : ℕ) : System ι Shared (Stage α) :=
  ⟨⟨clock, fun _ => makeEndpoint, fun _ => [], []⟩, fun _ => .idle⟩

/-! ## The law of the circuit breaker -/

/-- An open primary is contacted only when it has rested, and the fallback only by calls that opted
    in. The third failure in a window leaves the circuit open; a failed probe opens it for another
    interval, and a successful one closes it. -/
def Event.Lawful : Event → Prop
  | contacted .primary before now _ =>
    before.state = .opened → ∃ openedAt ∈ before.openedAt, openedAt + resetIntervalMs ≤ now
  | contacted .fallback _ _ retryOnFallback => retryOnFallback
  | failed .primary probe earlier now after =>
    (failureThreshold ≤ earlier.countP (now ≤ · + failureWindowMs) + 1 → after.state = .opened) ∧
      (probe → after.state = .opened ∧ after.openedAt = some now)
  | succeeded .primary probe after => probe → after.state = .closed
  | _ => True

/-- A probe is in flight. -/
def Stage.Probing : Stage α → Prop
  | verifying _ probe _ => probe
  | calling _ probe _ => probe
  | _ => False

instance (p : Stage α) : Decidable p.Probing := by
  unfold Stage.Probing
  split <;> infer_instance

structure Orderly (s : System ι Shared (Stage α)) : Prop where
  lawful : ∀ e ∈ s.shared.log, e.Lawful
  single : ∀ i j, (s.proc i).Probing → (s.proc j).Probing → i = j

/-- A failure of the primary finds a circuit that it opens, if it is the failure of a probe; any other
    failure that makes three in a window does not find the circuit half-open. -/
def Shared.MayFail (x : Shared) (probe : Bool) : Prop :=
  let ep := x.endpoints .primary
  if probe then ep.state = .closed ∧ failureThreshold ≤ ep.recentFailures x.clock + 1
  else ep.state = .halfOpen → ep.recentFailures x.clock + 1 < failureThreshold
deriving Decidable

/-- No failure finds the circuit in the wrong state, and no answer of the network finds it open for
    less than the interval. -/
def Allowed (settings : Settings) (x : Shared) : Stage α → Outcome α → Prop
  | .verifying .primary probe _, .network passphrase =>
    if settings.passphrase = some passphrase then
      (x.endpoints .primary).state = .opened → (x.endpoints .primary).Rested x.clock
    else x.MayFail probe
  | .verifying .primary probe _, .threw _ => x.MayFail probe
  | .calling .primary probe _, .threw _ => x.MayFail probe
  | _, _ => True

instance (settings : Settings) (x : Shared) (p : Stage α) (o : Outcome α) :
    Decidable (Allowed settings x p o) := by
  unfold Allowed
  split <;> infer_instance

/-- No call is let through as a probe while another one is in flight. -/
def Alone (s : System ι Shared (Stage α)) : Stage α → Outcome α → Prop
  | .idle, .rpcCall _ => s.shared.Probes → ∀ j, ¬ (s.proc j).Probing
  | _, _ => True

instance [Fintype ι] (s : System ι Shared (Stage α)) (p : Stage α) (o : Outcome α) :
    Decidable (Alone s p o) := by
  unfold Alone
  split <;> infer_instance

def Undisturbed (settings : Settings) (s : System ι Shared (Stage α)) :
    Move ι (Outcome α) Change → Prop
  | .act i o => Allowed settings s.shared (s.proc i) o ∧ Alone s (s.proc i) o
  | .world _ => True

instance [Fintype ι] (settings : Settings) (s : System ι Shared (Stage α))
    (m : Move ι (Outcome α) Change) : Decidable (Undisturbed settings s m) := by
  unfold Undisturbed
  split <;> infer_instance

end NeuroWealth.RpcClient
