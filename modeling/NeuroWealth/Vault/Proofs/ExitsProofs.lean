import NeuroWealth.Vault.Exits
import NeuroWealth.Vault.Proofs.DepositsProofs

/-!
# What migrations and locks do
-/

namespace NeuroWealth.Vault

open Transaction MachineInt SharePool

variable {env : Env} {w w' : World} {user : Address}

/-! ## Migration -/

/-- The migration target's `deposit` ran and left the chain as it liked. -/
structure TargetCalled (env : Env) (w w' : World) (target user : Address) (amount : Int) :
    Prop where
  foreign : target ≠ w.self
  frame : ∃ chain, env.targetDeposit w.chain target user amount = some chain ∧
    Quiet { w with
      chain := { chain with sequence := w.chain.sequence, timestamp := w.chain.timestamp } } w'

/-- The vault after all shares of a user were burned for `amount`; the principal stays. -/
def World.emptied (w : World) (user : Address) (amount : Int) : World :=
  let book := w.book.debited user amount (w.book.shares user) w.book.totalDeposits
  { w with book }

/-- All shares of a user were burned, their value sent to the target, and its `deposit` called. -/
structure Migrated (env : Env) (w w' : World) (user target : Address) (amount : Int) : Prop where
  foreign : user ≠ w.self
  configured : w.migration.target = some target
  holder : 0 < w.book.shares user
  value : amount = Pool.assetsFor w.book.totalShares w.book.assets (w.book.shares user)
  fits : i128.Fits (w.book.totalShares - w.book.shares user)
  steps : ∃ token t, w.usdcToken = some token ∧
    Paid token (w.emptied user amount) t w.self target amount ∧
    TargetCalled env t w' target user amount

theorem invokeTargetDeposit_ok {target : Address} {amount : Int} {u : Unit} {t : World}
    (h : (invokeTargetDeposit target user amount).Ok env w u t) (hq : Quiet t w') :
    TargetCalled env w w' target user amount := by
  simp only [invokeTargetDeposit, Tx.ok_bind, Tx.ok_read, Tx.ok_get, Tx.ok_require, Tx.ok_expect,
    Tx.ok_modify, existsAndEq, exists_const, and_assoc, true_and] at h
  obtain ⟨hself, chain, hchain, rfl⟩ := h
  exact ⟨hself, chain, hchain, hq⟩

theorem migrateShares_ok {u : Unit} (h : (migrateShares user).Ok env w u w') :
    ∃ target amount, Migrated env w w' user target amount := by
  simp only [migrateShares, Tx.ok_bind, Tx.ok_get, ok_requireInitialized, ok_requireAuth,
    Tx.ok_require, Tx.ok_expect, ok_getTotalSharesInternal, ok_getTotalAssetsInternal,
    ok_checkedSub, ok_getUsdcToken, existsAndEq, exists_const, and_assoc, true_and] at h
  obtain ⟨-, -, hself, -, target, htarget, hpos, amount, t0, hconv, _, t1, h1, hfits, _, t2, h2, -,
    _, t3, h3, token, htoken, _, t4, hpay, _, t5, hcall, hpub⟩ := h
  obtain ⟨hamount, rfl⟩ := ok_convertToAssetsInternal hconv
  have hemptied : t3 = t0.emptied user amount := by
    have hshares : (t0.book.setShares user 0).shares =
        (t0.book.debited user amount (t0.book.shares user) 0).shares := by
      funext v
      by_cases hv : v = user
      · simp [Book.setShares, Book.debited, hv]
      · simp [Book.setShares, Book.debited, hv]
    have hbook : t3 = { t0 with book := ⟨(t0.book.setShares user 0).shares,
        t0.book.totalShares - t0.book.shares user, some (t0.book.assets - amount),
        t0.book.totalDeposits⟩ } := by
      rw [ok_setUserShares.mp h1] at h2
      rw [ok_setTotalShares.mp h2] at h3
      exact ok_setTotalAssets.mp h3
    rw [hbook, hshares]
    rfl
  rw [hemptied] at htoken hpay
  exact ⟨target, amount, hself, htarget, hpos, hamount, hfits, token, t4, htoken,
    transfer_ok hpay, invokeTargetDeposit_ok hcall (quiet_publish rfl hpub)⟩

/-! ## Locks -/

/-- A lock starts from no lock, on shares the user has, and expires after its duration. -/
theorem lockShares_ok {shares : Int} {days : Nat} {u : Unit}
    (h : (lockShares user shares days).Ok env w u w') :
    ∃ ledgers boost, user ≠ w.self ∧ lockTerms days = some (ledgers, boost) ∧
      w.locks.lockedShares user = 0 ∧ shares ≤ w.book.shares user ∧
      Quiet { w with locks := w.locks.set user shares (some (w.chain.sequence + ledgers)) } w' := by
  simp only [lockShares, nativeAddU32, Tx.ok_bind, Tx.ok_get, ok_requireInitialized,
    ok_requireAuth, Tx.ok_require, Tx.ok_expect, ok_nativeSub, Tx.ok_pure, ok_putLocks,
    existsAndEq, exists_const, and_assoc, true_and] at h
  obtain ⟨-, -, hself, hnone, terms, hterms, -, hle, -, hpub⟩ := h
  rw [hnone, sub_zero] at hle
  exact ⟨terms.1, terms.2, hself, hterms, hnone, hle, quiet_publish rfl hpub⟩

/-- A lock is released whole, and not before it expires. -/
theorem unlockShares_ok {u : Unit} (h : (unlockShares user).Ok env w u w') :
    ∃ expiry, w.locks.lockExpiry user = some expiry ∧ expiry ≤ w.chain.sequence ∧
      0 < w.locks.lockedShares user ∧ Quiet { w with locks := w.locks.set user 0 none } w' := by
  simp only [unlockShares, Tx.ok_bind, Tx.ok_get, ok_requireInitialized, ok_requireAuth,
    Tx.ok_require, Tx.ok_expect, ok_putLocks, existsAndEq, exists_const, and_assoc, true_and] at h
  obtain ⟨-, -, -, hpos, expiry, hexpiry, hle, hpub⟩ := h
  exact ⟨expiry, hexpiry, hle, hpos, quiet_publish rfl hpub⟩

end NeuroWealth.Vault
