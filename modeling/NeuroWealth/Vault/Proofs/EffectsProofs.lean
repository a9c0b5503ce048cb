import NeuroWealth.Vault.Proofs.AdministrationProofs
import NeuroWealth.Vault.Proofs.ExitsProofs
import NeuroWealth.Vault.Proofs.MultiAssetProofs
import NeuroWealth.Vault.Proofs.RebalancingProofs
import NeuroWealth.Vault.Proofs.ReportingProofs

/-!
# What one call can do

`Effect` says once what a successful call of an initialised vault can do. Properties of runs are
proved by cases on it.
-/

namespace NeuroWealth.Vault

open Transaction MachineInt SharePool

variable {env : Env} {w w' : World}

/-- Calls that only move funds between the vault and the pools. -/
def Call.movesFunds : Call → Bool
  | .rebalance .. => true
  | .enableMultiProtocol .. => true
  | .rebalanceMulti .. => true
  | .harvest .. => true
  | .emergencyHarvest .. => true
  | _ => false

/-- Calls that administer the registered assets. -/
def Call.administersAssets : Call → Bool
  | .addSupportedAsset .. => true
  | .updateAssetLimits .. => true
  | .removeSupportedAsset .. => true
  | _ => false

theorem rebooked_of_run {call : Call} {u : Unit} (hcall : call.administersAssets = true)
    (h : call.run.Ok env w u w') : Rebooked w w' w.book := by
  cases call
  case addSupportedAsset => exact assetsOnly_addSupportedAsset h
  case updateAssetLimits => exact assetsOnly_updateAssetLimits h
  case removeSupportedAsset => exact assetsOnly_removeSupportedAsset h
  all_goals cases hcall

inductive Effect (env : Env) (w w' : World) : Call → Prop
  | quiet {call : Call} (hcall : call.isConfiguration = true) (h : Quiet w w') : Effect env w w' call
  | deposit {user : Address} {amount minted : Int} {t : World} (hq : Quiet w t)
      (h : Deposited t w' user user amount minted) (hminted : 0 < minted) :
      Effect env w w' (.deposit user amount)
  | batchDeposit {agent : Address} {entries : List BatchDepositItem} (h : BatchRun agent w w') :
      Effect env w w' (.batchDeposit agent entries)
  | withdraw {user : Address} {amount paid burned : Int} (h : Withdrawal env w w' user paid burned)
      (hvalue : paid = Pool.assetsFor w.book.totalShares w.book.assets burned)
      (helapsed : w.HoldingElapsed user)
      (hunlocked : 0 < w.locks.lockedShares user → w.locks.lockedShares user ≤ w.book.shares user →
        burned ≤ w.book.shares user - w.locks.lockedShares user) :
      Effect env w w' (.withdraw user amount)
  | withdrawAll {user : Address} {paid burned : Int} (h : Withdrawal env w w' user paid burned)
      (hunlocked : burned ≤ w.unlockedShares user)
      (hvalue : (paid = w.entitlement user ∧ burned = w.unlockedShares user) ∨
        ∃ t0 t, Quiet w t0 ∧ Shortfall env t0 t user paid burned) :
      Effect env w w' (.withdrawAll user)
  | emergencyWithdraw {user : Address} {amount paid burned : Int}
      (h : Withdrawal env w w' user paid burned)
      (hvalue : paid = Pool.assetsFor w.book.totalShares w.book.assets burned) :
      Effect env w w' (.emergencyWithdraw user amount)
  | migrateShares {user target : Address} {amount : Int} (h : Migrated env w w' user target amount) :
      Effect env w w' (.migrateShares user)
  | depositAsset {user token : Address} {asset : Symbol} {amount : Int} {t0 t : World}
      (hself : user ≠ w.self) (hpos : 0 < amount) (hq : Quiet w t0)
      (hpaid : Paid token t0 t user t0.self amount)
      (h : Rebooked t w' (w.book.addGlobal amount)) : Effect env w w' (.depositAsset user asset amount)
  | withdrawAsset {user : Address} {asset : Symbol} {amount actual : Int} {config : AssetConfig}
      (hconfig : w.assets.config asset = some config)
      (h : AssetPayout env w w' user config.tokenAddress (w.assetsOwed asset amount) actual) :
      Effect env w w' (.withdrawAsset user asset amount)
  | lockShares {user : Address} {shares : Int} {days ledgers boost : Nat} (hself : user ≠ w.self)
      (hterms : lockTerms days = some (ledgers, boost)) (hnone : w.locks.lockedShares user = 0)
      (hle : shares ≤ w.book.shares user)
      (h : Quiet
        { w with locks := w.locks.set user shares (some (w.chain.sequence + ledgers)) } w') :
      Effect env w w' (.lockShares user shares days)
  | unlockShares {user : Address} {expiry : Nat} (hexpiry : w.locks.lockExpiry user = some expiry)
      (hle : expiry ≤ w.chain.sequence) (hpos : 0 < w.locks.lockedShares user)
      (h : Quiet { w with locks := w.locks.set user 0 none } w') :
      Effect env w w' (.unlockShares user)
  | funds {call : Call} (hcall : call.movesFunds = true) (h : FundsMove env w w') :
      Effect env w w' call
  | updateTotalAssets {agent : Address} {new : Int} {allow : Bool} {bps : Nat}
      (hle : new ≤ w.visible)
      (h : Quiet { w with book := { w.book with totalAssets := some new } } w') :
      Effect env w w' (.updateTotalAssets agent new allow bps)
  | setVenuePool {venue : Venue} {owner pool : Address}
      (h : Quiet { w with deployment := w.deployment.setPool venue pool } w') :
      Effect env w w' (.setVenuePool venue owner pool)
  | setMinHoldingPeriod {n : Nat}
      (h : Quiet { w with holding := { w.holding with minHoldingPeriod := n } } w') :
      Effect env w w' (.setMinHoldingPeriod n)
  | assets {call : Call} (hcall : call.administersAssets = true) (h : Rebooked w w' w.book) :
      Effect env w w' call

/-- A call that succeeds on an initialised vault has one of the effects. -/
theorem effect_of_run {call : Call} {u : Unit} (hi : w.Initialized)
    (h : call.run.Ok env w u w') : Effect env w w' call := by
  by_cases hc : call.isConfiguration = true
  · exact .quiet hc (quiet_run hc h)
  cases call
  case initializeVault => exact absurd h (not_initializeVault_ok hi)
  case deposit =>
    obtain ⟨t, minted, hq, hd, hminted, -⟩ := deposit_ok h
    exact .deposit hq hd hminted
  case batchDeposit => exact .batchDeposit (batchDeposit_ok h)
  case withdraw =>
    obtain ⟨paid, burned, hw, hvalue, helapsed, hunlocked, -⟩ := withdraw_ok h
    exact .withdraw hw hvalue helapsed hunlocked
  case withdrawAll =>
    obtain ⟨paid, t, hpaid, hpure⟩ := Tx.ok_bind.mp h
    obtain rfl : w' = t := (Tx.ok_pure.mp hpure).2
    obtain ⟨burned, hw, hunlocked, hvalue, -⟩ := withdrawAll_ok hpaid
    exact .withdrawAll hw hunlocked hvalue
  case emergencyWithdraw =>
    obtain ⟨paid, burned, hw, hvalue, -⟩ := emergencyWithdraw_ok h
    exact .emergencyWithdraw hw hvalue
  case migrateShares =>
    obtain ⟨target, amount, hm⟩ := migrateShares_ok h
    exact .migrateShares hm
  case depositAsset =>
    obtain ⟨config, t0, t, -, hq, hpaid, hr, -, hself, hpos, -⟩ := depositAsset_ok h
    exact .depositAsset hself hpos hq hpaid hr
  case withdrawAsset =>
    obtain ⟨config, actual, hconfig, hp, -⟩ := withdrawAsset_ok h
    exact .withdrawAsset hconfig hp
  case lockShares =>
    obtain ⟨ledgers, boost, hself, hterms, hnone, hle, hq⟩ := lockShares_ok h
    exact .lockShares hself hterms hnone hle hq
  case unlockShares =>
    obtain ⟨expiry, hexpiry, hle, hpos, hq⟩ := unlockShares_ok h
    exact .unlockShares hexpiry hle hpos hq
  case rebalance => exact .funds rfl (movesFunds_rebalance h)
  case enableMultiProtocol =>
    exact .funds rfl (movesFunds_of_settled settled_enableMultiProtocol h)
  case rebalanceMulti => exact .funds rfl (movesFunds_rebalanceMulti h)
  case harvest => exact .funds rfl (movesFunds_harvest h)
  case emergencyHarvest => exact .funds rfl (movesFunds_emergencyHarvest h)
  case updateTotalAssets =>
    obtain ⟨hle, hq, -⟩ := updateTotalAssets_ok h
    exact .updateTotalAssets hle hq
  case setVenuePool => exact .setVenuePool (setVenuePool_ok h)
  case setMinHoldingPeriod => exact .setMinHoldingPeriod (setMinHoldingPeriod_ok h)
  case addSupportedAsset => exact .assets rfl (rebooked_of_run rfl h)
  case updateAssetLimits => exact .assets rfl (rebooked_of_run rfl h)
  case removeSupportedAsset => exact .assets rfl (rebooked_of_run rfl h)
  all_goals exact absurd rfl hc

end NeuroWealth.Vault
