import NeuroWealth.Foundation.SharePool
import NeuroWealth.ShareMath.VaultModel
import NeuroWealth.Vault.Frames
import NeuroWealth.Vault.Machine

/-!
# The contract as the share model sees it

A vault of two users whose funds are idle, next to the model of the `share-math` crate. Both are
asked for the same operations, one after the other.
-/

namespace NeuroWealth.ShareMath

open Vault MachineInt SharePool

/-- The addresses behind the model's user indices, and the agent that reports yield. -/
structure Parties where
  users : Fin 2 → Address
  agent : Address

/-- Idle funds only, and no user cap, lock, holding period or rate limit. -/
structure Plain (c : Parties) (w : World) : Prop where
  initialized : w.Initialized
  distinct : c.users 0 ≠ c.users 1
  foreign : ∀ i, c.users i ≠ w.self
  agent : w.roles.agent = some c.agent
  agent_foreign : c.agent ≠ w.self
  live : w.breaker.paused = false
  marker : w.deployment.currentProtocol = .none
  noUserCap : w.limits.userDepositCap ≤ 0
  noLock : ∀ i, w.locks.lockedShares (c.users i) = 0
  noHoldingPeriod : w.holding.minHoldingPeriod = 0
  noDepositRate : ((w.limits.rateLimitConfig .deposit).getD
    (defaultRateLimitConfig .deposit)).maxCalls = 0
  noWithdrawRate : ((w.limits.rateLimitConfig .withdraw).getD
    (defaultRateLimitConfig .withdraw)).maxCalls = 0

/-- The fields of the model are those of the contract, and nobody else holds shares. -/
structure Matches (c : Parties) (m : VaultModel) (w : World) : Prop where
  totalShares : w.book.totalShares = m.totalShares
  totalAssets : w.book.totalAssets = some m.totalAssets
  userShares : ∀ i, w.book.shares (c.users i) = m.userShares i
  others : ∀ u, (∀ i, u ≠ c.users i) → w.book.shares u = 0
  totalDeposits : w.book.totalDeposits = m.totalDeposits
  tvlCap : w.limits.tvlCap = m.tvlCap

/-- The call that stands for an operation; for an unknown user there is none. Yield is reported as
    the total it leads to. -/
def Parties.call (c : Parties) (w : World) : Operation → Option Call
  | .deposit user assets => (VaultModel.slot user).map fun i => .deposit (c.users i) assets
  | .withdraw user assets => (VaultModel.slot user).map fun i => .withdraw (c.users i) assets
  | .accrueYield yieldAmount =>
    some (.updateTotalAssets c.agent (w.book.assets + yieldAmount) false 0)

/-- An operation asked of both, of the contract by a call in `env` once the chain is `chain`. -/
structure Turn where
  op : Operation
  env : Env
  chain : Chain

namespace Parties

variable (c : Parties)

/-- Whether the contract accepts an operation. -/
def accepts (w : World) (t : Turn) : Bool :=
  match c.call w t.op with
  | some call => (invoke call).succeeds t.env (w.after (.ambient t.chain))
  | none => false

/-- The contract after an operation; a rejected one changes nothing of the vault. -/
def answer (w : World) (t : Turn) : World :=
  match c.call w t.op with
  | some call => (w.after (.ambient t.chain)).after (.call t.env call)
  | none => w.after (.ambient t.chain)

/-- Both after a turn. -/
def after (s : VaultModel × World) (t : Turn) : VaultModel × World :=
  (s.1.after t.op, c.answer s.2 t)

end Parties

/-! ## What a turn is granted -/

/-- What the model abstracts from is there: the signatures, the deposited USDC within the deposit
    bounds, and the USDC a report speaks of. Nobody takes the vault's balance away. -/
structure Supports (c : Parties) (w : World) (t : Turn) : Prop where
  kept : w.idle ≤ (w.after (.ambient t.chain)).idle
  representable : i128.Fits (w.after (.ambient t.chain)).idle
  signed : (∀ i, c.users i ∈ t.env.auths) ∧ c.agent ∈ t.env.auths
  unbounded : ∀ user assets, t.op = .deposit user assets → 0 < assets →
    w.limits.minDeposit ≤ assets ∧ assets ≤ w.limits.maxDeposit
  funded : ∀ user assets i token, t.op = .deposit user assets → 0 < assets →
    VaultModel.slot user = some i → w.usdcToken = some token →
    assets ≤ t.chain.balances token (c.users i)
  arrived : ∀ yieldAmount, t.op = .accrueYield yieldAmount →
    w.book.assets + yieldAmount ≤ (w.after (.ambient t.chain)).idle

/-- The branches on which the model and the contract part are not taken: the cap leaves room for
    the assets where it does for the principal, a deposit is worth a share, a withdrawal returns
    no more than the recorded principal, and yield can be attributed. -/
def Agreeable (m : VaultModel) : Operation → Prop
  | .deposit _ assets => 0 < assets →
    Pool.sharesFor m.totalShares m.totalAssets assets ≠ 0 ∧
      (0 < m.tvlCap → m.totalDeposits + assets ≤ m.tvlCap → m.totalAssets + assets ≤ m.tvlCap)
  | .withdraw user assets => ∀ i, VaultModel.slot user = some i → 0 < assets →
    Pool.sharesForUp m.totalShares m.totalAssets assets ≤ m.userShares i →
      Pool.assetsFor m.totalShares m.totalAssets
        (Pool.sharesForUp m.totalShares m.totalAssets assets) ≤ m.totalDeposits
  | .accrueYield yieldAmount => 0 ≤ yieldAmount → ∀ i, i128.Fits (yieldAmount * m.userShares i)

end NeuroWealth.ShareMath
