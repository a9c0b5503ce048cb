import NeuroWealth.Vault.Withdrawals

/-!
# Share migration and share locks
-/

namespace NeuroWealth.Vault

open Transaction MachineInt

/-! ## Migration -/

/-- Burns all of a user's shares, sends their value to the target vault and calls the target's
    `deposit` for the user. -/
def migrateShares (user : Address) : Contract Unit := do
  requireInitialized
  requireAuth user
  let w ← get
  Tx.require (w.migration.paused = false) .migrationPaused
  let migrationTarget ← Tx.expect .invalidMigrationTarget w.migration.target
  let userShares := w.book.shares user
  Tx.require (0 < userShares) .noSharesToMigrate
  let totalShares ← getTotalSharesInternal
  let totalAssets ← getTotalAssetsInternal
  let assetsToTransfer ← convertToAssetsInternal userShares
  setUserShares user 0
  let newTotalShares ← checkedSub totalShares userShares "vault: migration underflow"
  setTotalShares newTotalShares
  let newTotalAssets ← checkedSub totalAssets assetsToTransfer "vault: migration underflow"
  setTotalAssets newTotalAssets
  let usdcToken ← getUsdcToken
  transfer usdcToken w.self migrationTarget assetsToTransfer
  invokeTargetDeposit migrationTarget user assetsToTransfer
  publish (.sharesMigrated user w.self migrationTarget userShares assetsToTransfer)

def setMigrationTarget (target : Address) : Contract Unit := do
  requireInitialized
  requireIsOwner
  let w ← get
  modifyMigration fun m => { m with target := some target }
  let owner ← getOwnerInternal
  publish (.migrationTargetUpdated w.migration.target target owner)

def setMigrationPaused (paused : Bool) : Contract Unit := do
  requireInitialized
  requireIsOwner
  modifyMigration fun m => { m with paused := paused }
  let owner ← getOwnerInternal
  publish (.migrationPaused paused owner)

/-! ## Locks -/

/-- Ledgers and boost of a lock duration in days, at five seconds a ledger. -/
def lockTerms : Nat → Option (Nat × Nat)
  | 30 => some (518400, 11000)
  | 90 => some (1555200, 12500)
  | 180 => some (3110400, 15000)
  | _ => none

def Locks.set (l : Locks) (user : Address) (shares : Int) (expiry : Option Nat) : Locks where
  lockedShares u := if u = user then shares else l.lockedShares u
  lockExpiry u := if u = user then expiry else l.lockExpiry u

/-- Native `u32` addition aborts on overflow. -/
def nativeAddU32 (a b : Nat) : Contract Nat := do
  Tx.require (a + b ≤ 4294967295) (.panic "attempt to add with overflow")
  pure (a + b)

def lockShares (user : Address) (shares : Int) (lockDurationDays : Nat) : Contract Unit := do
  requireInitialized
  requireAuth user
  let w ← get
  let existingLocked := w.locks.lockedShares user
  Tx.require (existingLocked = 0) .sharesAlreadyLocked
  let terms ← Tx.expect .invalidLockDuration (lockTerms lockDurationDays)
  let unlockedShares ← nativeSub (w.book.shares user) existingLocked
  Tx.require (shares ≤ unlockedShares) .insufficientUnlockedShares
  let expiryLedger ← nativeAddU32 w.chain.sequence terms.1
  putLocks (w.locks.set user shares (some expiryLedger))
  publish (.sharesLocked user shares lockDurationDays terms.2 expiryLedger)

def unlockShares (user : Address) : Contract Unit := do
  requireInitialized
  requireAuth user
  let w ← get
  let lockedShares := w.locks.lockedShares user
  Tx.require (0 < lockedShares) .noSharesToMigrate
  let expiryLedger ← Tx.expect (.panic "called `Option::unwrap()` on a `None` value")
    (w.locks.lockExpiry user)
  Tx.require (expiryLedger ≤ w.chain.sequence) .lockPeriodNotEnded
  putLocks (w.locks.set user 0 none)
  publish (.sharesUnlocked user lockedShares)

end NeuroWealth.Vault
