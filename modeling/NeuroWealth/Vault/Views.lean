import NeuroWealth.Vault.Guards

/-!
# Read-only entrypoints

The getters off-chain indexers use. They change nothing.
-/

namespace NeuroWealth.Vault

open Transaction MachineInt

/-- The holders among the users in `index`, with their balances. -/
def Book.holdersIn (b : Book) (index : List Address) : List (Address × Int) :=
  index.filterMap fun user => if 0 < b.shares user then some (user, b.shares user) else none

/-- One page of the holder index: the slots `[start, start + limit)`, without those of users who
    left. -/
def getUsersWithShares (start limit : Nat) : Contract (List (Address × Int)) := do
  requireInitialized
  let w ← get
  let index := w.profiles.userSharesIndex
  if limit = 0 then pure []
  else if index.length ≤ start then pure []
  else
    let stop := min (saturatingAddU32 start limit) index.length
    pure (w.book.holdersIn ((index.take stop).drop start))

/-- What the user's shares are worth. -/
def getBalance (user : Address) : Contract Int := do
  requireInitialized
  let shares ← readShares user
  convertToAssetsInternal shares

/-! ## Realized yield -/

/-- The yearly growth, in basis points, of a position opened with `snapshot` whose shares are worth
    `currentValue` after `heldSeconds`. A product or quotient outside the type counts as zero. -/
def realizedApy (snapshot : DepositSnapshot) (currentValue : Int) (heldSeconds : Nat) : Int :=
  let growthBps := i128.saturatingSub
    (((i128.checkedMul currentValue 10000).bind fun v =>
      i128.checkedDiv v snapshot.principal).getD 0) 10000
  let daysHeld := heldSeconds / 86400
  ((i128.checkedMul growthBps 365).bind fun v => i128.checkedDiv v daysHeld).getD 0

/-- The user's realized APY since the deposit its snapshot was taken by. The shares the user holds
    now are not looked at. -/
def getUserApy (user : Address) : Contract Int := do
  requireInitialized
  let w ← get
  match w.profiles.depositSnapshot user with
  | none => pure 0
  | some snapshot =>
    if snapshot.shares ≤ 0 ∨ snapshot.principal ≤ 0 then pure 0
    else
      let heldSeconds := w.chain.timestamp - snapshot.depositedAt
      if heldSeconds < 86400 then pure 0
      else do
        let currentValue ← convertToAssetsInternal snapshot.shares
        pure (realizedApy snapshot currentValue heldSeconds)

/-! ## The rebalance cooldown -/

def getRebalanceCooldown : Contract Nat := do
  requireInitialized
  let w ← get
  pure (w.limits.minRebalanceInterval.getD 0)

/-- Zero before the first rebalance. -/
def getLastRebalanceLedger : Contract Nat := do
  requireInitialized
  let w ← get
  pure (w.limits.lastRebalanceLedger.getD 0)

end NeuroWealth.Vault
