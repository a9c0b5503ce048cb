import Mathlib

/-!
# Recovery from failed rebalances

The manager's answer to a reported failure: record it, retry the rebalance, and after the last retry
alert the owner and leave the protocol. Every hook may resolve or reject, differently at each call.
-/

namespace NeuroWealth.RebalanceRecovery

variable {V : Type}

inductive AgentHealthStatus where
  | healthy
  | degraded
  | failed
deriving DecidableEq

/-- What a call of `executeRebalance` came to. It throws when it rejects, and when what it resolved
    to has no properties to read; then `message` is the text of the error, or `none` where the value
    thrown cannot be converted to a string. -/
inductive Attempt where
  | resolves (success : Bool) (error : Option String)
  | throws (message : Option String)
deriving DecidableEq

def Attempt.Succeeds : Attempt → Prop
  | .resolves true _ => True
  | _ => False

instance (a : Attempt) : Decidable a.Succeeds :=
  match a with
  | .resolves true _ => isTrue trivial
  | .resolves false _ => isFalse id
  | .throws _ => isFalse id

/-- The vault state a failure is recorded with: what the hook resolved to, or the placeholder. -/
inductive VaultState (V : Type) where
  | known (state : V)
  | unknown
deriving DecidableEq

structure RebalanceFailure (V : Type) where
  attemptNumber : ℕ
  reason : String
  ledger : ℕ
  vaultState : VaultState V
  timestamp : ℤ
deriving DecidableEq

/-- The hooks, each with the number of its call: what `getVaultState` resolves to unless it rejects,
    and whether the others resolve. `stringify` is `JSON.stringify`, which may throw. -/
structure RecoveryHooks (V : Type) where
  executeRebalance : ℕ → Attempt
  getVaultState : ℕ → Option V
  logFailureToDb : ℕ → Bool
  sendAlert : Bool
  setProtocolToNone : Bool
  now : ℕ → ℤ
  stringify : V → Option String

structure Manager (V : Type) where
  status : AgentHealthStatus := .healthy
  consecutiveFailures : ℕ := 0
  failureHistory : List (RebalanceFailure V) := []
deriving DecidableEq

/-- The manager within one `handleFailure`, with the calls of its hooks so far. `logged` are the
    failures that reached the database. -/
structure Run (V : Type) where
  manager : Manager V
  executions : ℕ := 0
  recorded : ℕ := 0
  logged : List (RebalanceFailure V) := []
  alerts : List (String × String) := []
  exits : ℕ := 0
  protocolCleared : Bool := false

def safeGetVaultState (hooks : RecoveryHooks V) (call : ℕ) : VaultState V :=
  match hooks.getVaultState call with
  | some state => .known state
  | none => .unknown

/-- `JSON.stringify(vaultState, null, 2)`. -/
def VaultState.stringify (hooks : RecoveryHooks V) : VaultState V → Option String
  | .known state => hooks.stringify state
  | .unknown => some
      "\x7b\n  \"currentProtocol\": \"unknown\",\n  \"totalAssets\": 0,\n  \"idleBalance\": 0\n\x7d"

def safeLogFailure (hooks : RecoveryHooks V) (run : Run V) (failure : RebalanceFailure V) : Run V :=
  if hooks.logFailureToDb run.recorded then { run with logged := run.logged ++ [failure] } else run

/-- A failure enters the history and, if the database takes it, the log. -/
def recordFailure (hooks : RecoveryHooks V) (run : Run V) (attemptNumber : ℕ) (reason : String)
    (ledger : ℕ) : Run V :=
  let failure : RebalanceFailure V :=
    { attemptNumber := attemptNumber
      reason := reason
      ledger := ledger
      vaultState := safeGetVaultState hooks run.recorded
      timestamp := hooks.now run.recorded }
  let pushed := { run with manager := { run.manager with
    failureHistory := run.manager.failureHistory ++ [failure] } }
  { safeLogFailure hooks pushed failure with recorded := run.recorded + 1 }

/-- The retry loop from its attempt `i` on. `some recovered` unless it throws. -/
def retry (hooks : RecoveryHooks V) (ledger : ℕ) : ℕ → ℕ → Run V → Run V × Option Bool
  | 0, _, run => (run, some false)
  | attempts + 1, i, run =>
    let called := { run with executions := run.executions + 1 }
    let attemptNumber := run.manager.consecutiveFailures + i + 1
    match hooks.executeRebalance run.executions with
    | .resolves true _ =>
      ({ called with manager := { called.manager with
          consecutiveFailures := 0
          status := .healthy } }, some true)
    | .resolves false error =>
      retry hooks ledger attempts (i + 1)
        (recordFailure hooks called attemptNumber (error.getD "retry failed") ledger)
    | .throws (some message) =>
      retry hooks ledger attempts (i + 1) (recordFailure hooks called attemptNumber message ledger)
    | .throws none => (called, none)

def enterRecoveryMode (hooks : RecoveryHooks V) (run : Run V) : Run V :=
  { run with
    exits := run.exits + 1
    protocolCleared := hooks.setProtocolToNone }

def alertBody (maxAttempts : ℕ) (reason : String) (ledger : ℕ) (state : String) : String :=
  "The NeuroWealth rebalancer has failed " ++ toString maxAttempts ++ " consecutive times.\n\n" ++
    "Last failure reason: " ++ reason ++ "\nLedger: " ++ toString ledger ++ "\nVault state: " ++
    state ++ "\n\nRecovery mode has been activated — CurrentProtocol set to \"none\".\n" ++
    "Please investigate and reset the agent health status."

/-- The end after the last retry. `false`: it rejects. -/
def giveUp (hooks : RecoveryHooks V) (maxAttempts : ℕ) (reason : String) (ledger : ℕ)
    (vaultState : VaultState V) (run : Run V) : Run V × Bool :=
  let failed := { run with manager := { run.manager with status := .failed } }
  match vaultState.stringify hooks with
  | none => (failed, false)
  | some state =>
    let alerted := { failed with alerts := failed.alerts ++
      [("[NeuroWealth] CRITICAL: Rebalance failed after 3 retries",
        alertBody maxAttempts reason ledger state)] }
    if hooks.sendAlert then (enterRecoveryMode hooks alerted, true) else (alerted, false)

/-- What follows the retries. `false`: it rejects. -/
def conclude (hooks : RecoveryHooks V) (maxAttempts : ℕ) (reason : String) (ledger : ℕ) :
    Run V × Option Bool → Run V × Bool
  | (run, none) => (run, false)
  | (run, some true) => (run, true)
  | (run, some false) =>
    giveUp hooks maxAttempts reason ledger (safeGetVaultState hooks 0) run

/-- The reported failure is counted, degrades the status and is recorded. -/
def report (hooks : RecoveryHooks V) (manager : Manager V) (reason : String) (ledger : ℕ) : Run V :=
  let failures := manager.consecutiveFailures + 1
  recordFailure hooks
    { manager := { manager with consecutiveFailures := failures, status := .degraded } }
    failures reason ledger

/-- `handleFailure`, with whether its promise resolves. -/
def handleFailure (hooks : RecoveryHooks V) (maxAttempts : ℕ) (manager : Manager V)
    (reason : String) (ledger : ℕ) : Run V × Bool :=
  conclude hooks maxAttempts reason ledger
    (retry hooks ledger maxAttempts 0 (report hooks manager reason ledger))

end NeuroWealth.RebalanceRecovery
