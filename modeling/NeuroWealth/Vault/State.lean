import NeuroWealth.Foundation.Transaction
import NeuroWealth.Vault.Events

/-!
# The contract's world

A `World` is one vault: its storage, grouped by purpose, and the chain it runs on. Storage keys
the code always reads with a default are stored with that default; keys whose absence the code
distinguishes are options.
-/

namespace NeuroWealth.Vault

open Transaction MachineInt

/-! ## The chain -/

/-- A token allowance and the last ledger at which it may be spent. -/
structure Allowance where
  amount : Int := 0
  expirationLedger : Nat := 0
deriving DecidableEq, Repr

/-- The part of the ledger the vault shares with others. `balances token holder` are token
    balances and `positions venue pool owner` is what a pool's `balance` reports; no contract is
    taken to be the pool of both venues. -/
structure Chain where
  sequence : Nat := 0
  timestamp : Nat := 0
  balances : Address → Address → Int := fun _ _ => 0
  allowances : Address → Address → Address → Allowance := fun _ _ _ => {}
  positions : Venue → Address → Address → Int := fun _ _ _ => 0

namespace Chain

def setBalance (c : Chain) (token holder : Address) (x : Int) : Chain :=
  { c with balances := fun t h => if t = token ∧ h = holder then x else c.balances t h }

def setAllowance (c : Chain) (token owner spender : Address) (x : Allowance) : Chain :=
  { c with allowances := fun t o s =>
      if t = token ∧ o = owner ∧ s = spender then x else c.allowances t o s }

def setPosition (c : Chain) (venue : Venue) (pool owner : Address) (x : Int) : Chain :=
  { c with positions := fun v p o =>
      if v = venue ∧ p = pool ∧ o = owner then x else c.positions v p o }

end Chain

/-! ## Storage -/

/-- The share ledger of the USDC pool. `totalAssets` is an option because its reader falls back
    to `totalDeposits` while the key is missing. -/
structure Book where
  shares : Address → Int := fun _ => 0
  totalShares : Int := 0
  totalAssets : Option Int := none
  totalDeposits : Int := 0

/-- The per-asset share pools. -/
structure AssetPools where
  config : Symbol → Option AssetConfig := fun _ => none
  totals : Symbol → AssetTotals := fun _ => {}
  shares : Address → Symbol → Int := fun _ _ => 0
  supported : List Symbol := []

/-- Shares locked for a boosted APY. -/
structure Locks where
  lockedShares : Address → Int := fun _ => 0
  lockExpiry : Address → Option Nat := fun _ => none

/-- The minimum holding period and each user's latest deposit. -/
structure Holding where
  minHoldingPeriod : Nat := 0
  lastDepositLedger : Address → Option Nat := fun _ => none

/-- Where the vault believes its funds are. -/
structure Deployment where
  currentProtocol : Protocol := .none
  pool : Venue → Option Address := fun _ => none
  multiProtocolEnabled : Bool := false
  allocationBps : Venue → Nat := fun _ => 0
  deployed : Venue → Int := fun _ => 0

/-- Addresses with a role, and their pending changes. `wasmHash` is the build the host runs, once
    an upgrade replaced the deployed one. -/
structure Roles where
  deployer : Option Address := none
  owner : Option Address := none
  agent : Option Address := none
  pendingOwner : Option Address := none
  standbyAgent : Option Address := none
  guardian : Option Address := none
  pendingAgent : Option Address := none
  agentTimelockExpiry : Nat := 0
  pendingUpgradeHash : Option Nat := none
  upgradeTimelockExpiry : Nat := 0
  version : Nat := 1
  wasmHash : Option Nat := none

/-- Owner-configured limits. -/
structure Limits where
  tvlCap : Int := 0
  userDepositCap : Int := 0
  minDeposit : Int := 1000000
  maxDeposit : Int := 10000000000
  approvalTtl : Option Nat := none
  blendApprovalTtl : Option Nat := none
  minRebalanceInterval : Option Nat := none
  lastRebalanceLedger : Option Nat := none
  maxBatchSize : Nat := 50
  rateLimitConfig : RateLimitCategory → Option RateLimitConfig := fun _ => none

/-- Consumed rate-limit allowance: one global bucket (`none`) and one for each user. -/
structure Buckets where
  state : Option Address → RateLimitCategory → Option RateLimitState := fun _ _ => none

/-- The pause flag and the circuit breaker that may set it. -/
structure Breaker where
  paused : Bool := false
  maxConsecutiveFailures : Nat := 3
  consecutiveFailures : Nat := 0

structure Migration where
  target : Option Address := none
  paused : Bool := false

/-- Per-user records the accounting does not read. -/
structure Profiles where
  userSharesIndex : List Address := []
  depositSnapshot : Address → Option DepositSnapshot := fun _ => none
  userStrategy : Address → Option Strategy := fun _ => none

/-- Figures reported by the agent. -/
structure Reports where
  apyBps : Venue → Nat := fun _ => 0
  apyPrediction : Protocol → Option ApyPrediction := fun _ => none
  cumulativeMevLoss : Int := 0
  mevIncidentCount : Nat := 0
  maxAcceptableMevLoss : Int := 0

/-- One vault. `legs` counts the pool calls of the running invocation and `events` are those it
    has published, oldest first. -/
structure World where
  self : Address
  chain : Chain := {}
  usdcToken : Option Address := none
  book : Book := {}
  assets : AssetPools := {}
  locks : Locks := {}
  holding : Holding := {}
  deployment : Deployment := {}
  roles : Roles := {}
  limits : Limits := {}
  buckets : Buckets := {}
  breaker : Breaker := {}
  migration : Migration := {}
  profiles : Profiles := {}
  reports : Reports := {}
  legs : Nat := 0
  events : List Event := []

/-! ## The environment of a call -/

inductive LegKind where
  | supply
  | withdraw
deriving DecidableEq, Repr

/-- A call of the vault to a pool: the `leg`-th of the invocation, for the vault's `position`. -/
structure PoolCall where
  leg : Nat
  kind : LegKind
  venue : Venue
  pool : Address
  amount : Int
  minOut : Int
  position : Int

/-- What the pool does: the USDC it moves in the direction of the call, and the position it
    reports afterwards. -/
structure PoolReply where
  moved : Int
  position : Int

/-- Everything a call depends on besides the vault's own state. `pool` answers the vault's pool
    calls and `targetDeposit` is the migration target's `deposit`, run on the chain as the vault
    leaves it; `none` stands for a trap. `uploaded` says which builds the network has. -/
structure Env where
  auths : List Address := []
  pool : PoolCall → Option PoolReply := fun _ => none
  targetDeposit : Chain → Address → Address → Int → Option Chain := fun _ _ _ _ => none
  deployedAddress : Address → Nat → Address := fun _ _ => .zero
  uploaded : Nat → Bool := fun _ => true

/-- A piece of contract code. -/
abbrev Contract : Type → Type := Tx Env World VaultError

/-! ## Storage access -/

def putBook (b : Book) : Contract Unit := modify fun w => { w with book := b }

def putAssets (a : AssetPools) : Contract Unit := modify fun w => { w with assets := a }

def putLocks (l : Locks) : Contract Unit := modify fun w => { w with locks := l }

def putHolding (h : Holding) : Contract Unit := modify fun w => { w with holding := h }

def putDeployment (d : Deployment) : Contract Unit := modify fun w => { w with deployment := d }

def modifyRoles (f : Roles → Roles) : Contract Unit := modify fun w => { w with roles := f w.roles }

def modifyLimits (f : Limits → Limits) : Contract Unit :=
  modify fun w => { w with limits := f w.limits }

def modifyBreaker (f : Breaker → Breaker) : Contract Unit :=
  modify fun w => { w with breaker := f w.breaker }

def modifyMigration (f : Migration → Migration) : Contract Unit :=
  modify fun w => { w with migration := f w.migration }

def modifyProfiles (f : Profiles → Profiles) : Contract Unit :=
  modify fun w => { w with profiles := f w.profiles }

def modifyReports (f : Reports → Reports) : Contract Unit :=
  modify fun w => { w with reports := f w.reports }

def publish (e : Event) : Contract Unit := modify fun w => { w with events := w.events ++ [e] }

end NeuroWealth.Vault
