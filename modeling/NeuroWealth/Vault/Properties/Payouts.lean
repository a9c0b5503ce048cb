import NeuroWealth.Vault.Proofs.LiquidityProofs
import NeuroWealth.Vault.Properties.Dilution

/-!
# Payouts

What `withdraw` and `emergency_withdraw` pay of a requested amount, and how `withdraw_all` settles
an entitlement, whatever a pull from the active protocol delivers.
-/

namespace NeuroWealth.Vault

open Transaction MachineInt SharePool

variable {env : Env} {w w' t : World} {call : Call} {user token : Address}
variable {amount available x : Int}

/-! ## Liquidity -/

/-- What the vault holds once the missing part of `amount` was pulled from the active protocol. -/
def World.onHand (w : World) (env : Env) (amount : Int) : Int :=
  if w.deployment.currentProtocol.isActive = true ∧ w.idle < amount then
    w.idle + w.delivery env (amount - w.idle)
  else w.idle

theorem Quiet.onHand (h : Quiet w t) : t.onHand env amount = w.onHand env amount := by
  unfold World.onHand World.delivery World.answer World.proportionalLegs
  simp only [h.deployment, h.settled.idle, h.settled.position]

/-- A pull leaves what is on hand. -/
theorem pullMissing_onHand (htoken : w.usdcToken = some token) (hlegs : w.legs = 0)
    (hactive : w.deployment.currentProtocol.isActive = true) (hmissing : w.idle < amount)
    (h : (pullMissing w.deployment.currentProtocol token amount w.idle).Ok env w x t) :
    Pulled env w t ∧ t.idle = w.onHand env amount ∧ x = t.idle := by
  obtain ⟨hpulled, hx⟩ := pullMissing_ok hactive hmissing h
  have hany : Pulled env w t := .inr ⟨_, hpulled⟩
  refine ⟨hany, ?_, ?_⟩
  · unfold World.onHand
    rw [if_pos ⟨hactive, hmissing⟩, hpulled.delivery hlegs]
  · rw [hx, idle_eq (hany.poolStep.usdcToken.trans htoken)]

theorem onHand_idle (h : ¬ (w.deployment.currentProtocol.isActive = true ∧ w.idle < amount)) :
    w.onHand env amount = w.idle :=
  if_neg h

/-! ## Requests -/

/-- The user and the amount of a call that asks for an amount. -/
def Call.request : Call → Option (Address × Int)
  | .withdraw user amount => some (user, amount)
  | .emergencyWithdraw user amount => some (user, amount)
  | _ => none

/-- What `withdraw` checks before it looks for liquidity. -/
def withdrawChecks (user : Address) (amount : Int) : Contract Unit := do
  requireInitialized
  requireAuth user
  requireNotPaused
  requirePositiveAmount amount
  enforceUserRateLimit user .withdraw
  requireHoldingPeriodElapsed user
  requireWithinUnlocked user amount

/-- What `emergency_withdraw` checks before it looks for liquidity. -/
def emergencyChecks (user : Address) (amount : Int) : Contract Unit := do
  requireInitialized
  requireAuth user
  let w ← get
  Tx.require (w.breaker.paused = true) .emergencyWithdrawalNotAllowed
  requirePositiveAmount amount

/-- The checks of a request. -/
def Call.checks : Call → Contract Unit
  | .withdraw user amount => withdrawChecks user amount
  | .emergencyWithdraw user amount => emergencyChecks user amount
  | _ => pure ()

/-- How much of its amount a request finds. -/
def Call.liquidity (token : Address) : Call → Contract Int
  | .withdraw _ amount => availableForWithdraw token amount
  | .emergencyWithdraw _ amount => Prod.fst <$> availableForEmergency token amount
  | _ => pure 0

/-- A request is its checks, then a search for liquidity, then a redemption of what was found. -/
theorem withdraw_eq : withdraw user amount = (do
    withdrawChecks user amount
    let usdcToken ← getUsdcToken
    let found ← availableForWithdraw usdcToken amount
    Tx.require (0 < found) .insufficientLiquidity
    let paid ← redeem user usdcToken found
    publish (.withdraw user paid.1 paid.2)) := by
  simp only [withdraw, withdrawChecks, bind_assoc]

theorem emergencyWithdraw_eq : emergencyWithdraw user amount = (do
    emergencyChecks user amount
    let usdcToken ← getUsdcToken
    let found ← availableForEmergency usdcToken amount
    Tx.require (0 < found.1) .insufficientLiquidity
    let paid ← redeem user usdcToken found.1
    publish (.emergencyWithdrawal user paid.1 paid.2 found.2)) := by
  simp only [emergencyWithdraw, emergencyChecks, bind_assoc]

/-- The run of a request up to its event: it found `x` and redeemed it. -/
structure RequestRun (env : Env) (w t0 t w' : World) (call : Call) (user token : Address) (x : Int)
    (paid : Int × Int) : Prop where
  checked : call.checks.Ok env w () t0
  asset : t0.usdcToken = some token
  found : (call.liquidity token).Ok env t0 x t
  positive : 0 < x
  redeemed : (redeem user token x).Ok env t paid w'

theorem request_ok (hcall : call.request = some (user, amount)) (h : call.run.Ok env w () w') :
    ∃ t0 t t' token x paid, RequestRun env w t0 t t' call user token x paid ∧ Quiet t' w' := by
  cases call
  case withdraw =>
    cases hcall
    have hrun : (withdraw user amount).Ok env w () w' := h
    simp only [withdraw_eq, Tx.ok_bind, ok_getUsdcToken, Tx.ok_require, existsAndEq, exists_const,
      and_assoc, true_and] at hrun
    obtain ⟨_, t0, hchecks, token, htoken, x, t, hfound, hpos, paid, t', hredeem, hpub⟩ := hrun
    exact ⟨t0, t, t', token, x, paid, ⟨hchecks, htoken, hfound, hpos, hredeem⟩,
      quiet_publish rfl hpub⟩
  case emergencyWithdraw =>
    cases hcall
    have hrun : (emergencyWithdraw user amount).Ok env w () w' := h
    simp only [emergencyWithdraw_eq, Tx.ok_bind, ok_getUsdcToken, Tx.ok_require, existsAndEq,
      exists_const, and_assoc, true_and] at hrun
    obtain ⟨_, t0, hchecks, token, htoken, x, t, hfound, hpos, paid, t', hredeem, hpub⟩ := hrun
    have hliquidity : (Call.liquidity token (.emergencyWithdraw user amount)).Ok env t0 x.1 t :=
      Tx.ok_map.mpr ⟨x, hfound, rfl⟩
    exact ⟨t0, t, t', token, x.1, paid, ⟨hchecks, htoken, hliquidity, hpos, hredeem⟩,
      quiet_publish rfl hpub⟩
  all_goals cases hcall

/-- A request whose parts succeed succeeds. -/
theorem RequestRun.succeeds {t0 : World} {paid : Int × Int} (hcall : call.request = some (user, amount))
    (h : RequestRun env w t0 t w' call user token x paid) : ∃ w'', call.run.Ok env w () w'' := by
  cases call
  case withdraw =>
    cases hcall
    suffices hrun : ∃ u w'', (withdraw user amount).Ok env w u w'' from
      ⟨hrun.choose_spec.choose, hrun.choose_spec.choose_spec⟩
    rw [withdraw_eq]
    apply Tx.exists_ok_bind h.checked
    apply Tx.exists_ok_bind (ok_getUsdcToken.mpr ⟨h.asset, rfl⟩)
    apply Tx.exists_ok_bind h.found
    apply Tx.exists_ok_bind (a := ()) (Tx.ok_require.mpr ⟨h.positive, rfl⟩)
    apply Tx.exists_ok_bind h.redeemed
    exact ⟨(), _, ok_publish.mpr rfl⟩
  case emergencyWithdraw =>
    cases hcall
    obtain ⟨y, hfound, rfl⟩ := Tx.ok_map.mp h.found
    suffices hrun : ∃ u w'', (emergencyWithdraw user amount).Ok env w u w'' from
      ⟨hrun.choose_spec.choose, hrun.choose_spec.choose_spec⟩
    rw [emergencyWithdraw_eq]
    apply Tx.exists_ok_bind h.checked
    apply Tx.exists_ok_bind (ok_getUsdcToken.mpr ⟨h.asset, rfl⟩)
    apply Tx.exists_ok_bind hfound
    apply Tx.exists_ok_bind (a := ()) (Tx.ok_require.mpr ⟨h.positive, rfl⟩)
    apply Tx.exists_ok_bind h.redeemed
    exact ⟨(), _, ok_publish.mpr rfl⟩
  all_goals cases hcall

/-- The checks touch nothing but the rate-limit bucket. -/
theorem quiet_checks : Keeps quiet call.checks := by
  cases call
  case withdraw user amount =>
    exact .bind (.of_unchanged unchanged_requireInitialized) fun _ =>
      .bind (.of_unchanged unchanged_requireAuth) fun _ =>
      .bind (.of_unchanged unchanged_requireNotPaused) fun _ =>
      .bind .require fun _ => .bind quiet_enforceRateLimit fun _ =>
      .bind (.of_unchanged fun _ _ _ _ h => (requireHoldingPeriodElapsed_ok h).2) fun _ =>
      .of_unchanged fun _ _ _ _ h => (requireWithinUnlocked_ok h).2
  case emergencyWithdraw user amount =>
    exact .bind (.of_unchanged unchanged_requireInitialized) fun _ =>
      .bind (.of_unchanged unchanged_requireAuth) fun _ =>
      .bind .get fun _ => .bind .require fun _ => .require
  all_goals exact .pure _

/-- Who asks has signed, and is not the vault. -/
theorem foreign_of_checks (hcall : call.request = some (user, amount))
    (h : call.checks.Ok env w () t) : user ≠ w.self := by
  cases call
  case withdraw =>
    cases hcall
    simp only [Call.checks, withdrawChecks, Tx.ok_bind, ok_requireInitialized, ok_requireAuth,
      existsAndEq, exists_const, and_assoc, true_and] at h
    exact h.2.2.1
  case emergencyWithdraw =>
    cases hcall
    simp only [Call.checks, emergencyChecks, Tx.ok_bind, ok_requireInitialized, ok_requireAuth,
      existsAndEq, exists_const, and_assoc, true_and] at h
    exact h.2.2.1
  all_goals cases hcall

/-- A request looks for its amount, and after a pull settles for what is on hand. -/
theorem liquidity_ok (hcall : call.request = some (user, amount)) (htoken : w.usdcToken = some token)
    (hlegs : w.legs = 0) (h : (call.liquidity token).Ok env w x t) :
    Pulled env w t ∧ t.idle = w.onHand env amount ∧
      (x = min amount (w.onHand env amount) ∨ x = amount) := by
  have hheld : w.chain.balances token w.self = w.idle := (idle_eq htoken).symm
  have hstay : ¬ (w.deployment.currentProtocol.isActive = true ∧ w.idle < amount) →
      Pulled env w w ∧ w.idle = w.onHand env amount := fun hnone =>
    ⟨.inl rfl, (onHand_idle hnone).symm⟩
  cases call
  case withdraw =>
    cases hcall
    simp only [Call.liquidity, availableForWithdraw, Tx.ok_bind, Tx.ok_get, Tx.ok_ite,
      ok_vaultBalance, Tx.ok_pure, existsAndEq, true_and, and_true, hheld] at h
    rcases h with ⟨hactive, ⟨hmissing, a, hpull, rfl⟩ | ⟨hcovered, rfl, rfl⟩⟩ | ⟨hactive, rfl, rfl⟩
    · obtain ⟨hpulled, hidle, rfl⟩ := pullMissing_onHand htoken hlegs hactive hmissing hpull
      exact ⟨hpulled, hidle, .inl (by rw [hidle])⟩
    · obtain ⟨hpulled, hidle⟩ := hstay fun h => hcovered h.2
      exact ⟨hpulled, hidle, .inr rfl⟩
    · obtain ⟨hpulled, hidle⟩ := hstay fun h => hactive h.1
      exact ⟨hpulled, hidle, .inr rfl⟩
  case emergencyWithdraw =>
    cases hcall
    simp only [Call.liquidity, availableForEmergency, Tx.ok_map, Tx.ok_bind, Tx.ok_get, Tx.ok_ite,
      ok_vaultBalance, Tx.ok_pure, existsAndEq, true_and, and_true, hheld] at h
    obtain ⟨y, ⟨hmissing, ⟨hactive, a, hpull, rfl⟩ | ⟨hactive, rfl, rfl⟩⟩ | ⟨hcovered, rfl, rfl⟩,
      rfl⟩ := h
    · obtain ⟨hpulled, hidle, rfl⟩ := pullMissing_onHand htoken hlegs hactive hmissing hpull
      exact ⟨hpulled, hidle, .inl (by rw [hidle])⟩
    · obtain ⟨hpulled, hidle⟩ := hstay fun h => hactive h.1
      refine ⟨hpulled, hidle, .inl ?_⟩
      rw [← hidle, min_eq_right hmissing.le]
    · obtain ⟨hpulled, hidle⟩ := hstay fun h => hcovered h.2
      exact ⟨hpulled, hidle, .inr rfl⟩
  all_goals cases hcall

/-- After a pull that leaves less than the amount, a request redeems what is there. -/
theorem liquidity_of_pull (hcall : call.request = some (user, amount))
    (htoken : w.usdcToken = some token) (hactive : w.deployment.currentProtocol.isActive = true)
    (hmissing : w.idle < amount) (hshort : available ≤ amount)
    (h : (pullMissing w.deployment.currentProtocol token amount w.idle).Ok env w available t) :
    (call.liquidity token).Ok env w available t := by
  have hheld : w.chain.balances token w.self = w.idle := (idle_eq htoken).symm
  cases call
  case withdraw =>
    cases hcall
    simp only [Call.liquidity, availableForWithdraw, Tx.ok_bind, Tx.ok_get, Tx.ok_ite,
      ok_vaultBalance, Tx.ok_pure, existsAndEq, true_and, and_true, hheld]
    exact .inl ⟨hactive, .inl ⟨hmissing, available, h, (min_eq_right hshort).symm⟩⟩
  case emergencyWithdraw =>
    cases hcall
    simp only [Call.liquidity, availableForEmergency, Tx.ok_map, Tx.ok_bind, Tx.ok_get, Tx.ok_ite,
      ok_vaultBalance, Tx.ok_pure, existsAndEq, true_and, and_true, hheld]
    refine ⟨(min amount available, false), .inl ⟨hmissing, .inl ⟨hactive, available, h, rfl⟩⟩, ?_⟩
    exact (min_eq_right hshort).symm
  all_goals cases hcall

/-! ## Redeeming what was found -/

/-- A redemption pays what the burned shares are worth, out of what the vault holds. -/
theorem redeem_pays {paid : Int × Int} (hself : user ≠ w.self) (htoken : w.usdcToken = some token)
    (h : (redeem user token x).Ok env w paid w') :
    paid.1 = Pool.assetsFor w.book.totalShares w.book.assets
        (Pool.sharesForUp w.book.totalShares w.book.assets x) ∧
      paid.1 ≤ w.idle := by
  obtain ⟨hred, hburned, hpaid⟩ := redeem_ok hself htoken h
  rw [hburned] at hpaid
  obtain ⟨token', s, htoken', hdebit, hpayment⟩ := hred.steps
  refine ⟨hpaid, ?_⟩
  have hfunded := hpayment.funded
  rw [← hdebit.accounting.self, ← idle_eq (hdebit.accounting.usdcToken.trans htoken'),
    hdebit.accounting.idle] at hfunded
  exact hfunded

/-- The conversions of a redemption stay within the type. -/
def Book.Convertible (b : Book) (x : Int) : Prop :=
  i128.Fits (x * b.totalShares + (b.assets - 1))

instance (b : Book) : Decidable (b.Convertible x) := inferInstanceAs (Decidable (i128.Fits _))

/-- A redemption of an amount whose shares the user holds goes through exactly when there are
    totals to price it by, the conversions fit and the vault holds what the shares are worth. -/
theorem redeem_succeeds_iff (hself : user ≠ w.self) (htoken : w.usdcToken = some token)
    (hx : 0 < x) (htyped : i128.Fits (w.book.shares user))
    (hheld : Pool.sharesForUp w.book.totalShares w.book.assets x ≤ w.book.shares user) :
    (∃ paid w', (redeem user token x).Ok env w paid w') ↔
      0 < w.book.totalShares ∧ 0 < w.book.assets ∧ w.book.Convertible x ∧
        Pool.assetsFor w.book.totalShares w.book.assets
          (Pool.sharesForUp w.book.totalShares w.book.assets x) ≤ w.idle := by
  constructor
  · rintro ⟨paid, w', h⟩
    obtain ⟨hvalue, hfunded⟩ := redeem_pays hself htoken h
    obtain ⟨hred, -, -⟩ := redeem_ok hself htoken h
    have hS := hred.terms.supply_pos
    have hA := hred.terms.assets_pos
    refine ⟨hS, hA, ?_, hvalue ▸ hfunded⟩
    simp only [redeem, Tx.ok_bind, Tx.ok_get, Tx.ok_require, ok_getTotalSharesInternal,
      ok_getTotalAssetsInternal, existsAndEq, exists_const, and_assoc, true_and] at h
    obtain ⟨-, -, -, b, t0, hceil, -⟩ := h
    exact ((convertToSharesCeilAt_ok_iff hS hA hx).mp hceil).1.2
  · rintro ⟨hS, hA, hfits, hfunded⟩
    have hburned := Pool.sharesForUp_pos hS hA hx
    have hvalue_nonneg : 0 ≤ Pool.assetsFor w.book.totalShares w.book.assets
        (Pool.sharesForUp w.book.totalShares w.book.assets x) :=
      Pool.assetsFor_nonneg hS.le hA.le hburned.le
    have hless := Pool.sharesForUp_mul_lt hS hA hx.le
    have hworth := Pool.assetsFor_mul_le hS.le hA.le hburned.le
    generalize hb : Pool.sharesForUp w.book.totalShares w.book.assets x = b at *
    generalize hv : Pool.assetsFor w.book.totalShares w.book.assets b = v at *
    have hproduct : b * w.book.assets ≤ x * w.book.totalShares + (w.book.assets - 1) := by omega
    have hproduct_nonneg : 0 ≤ b * w.book.assets := mul_nonneg hburned.le hA.le
    have hburned_le : b ≤ b * w.book.assets := le_mul_of_one_le_right hburned.le hA
    have hassets_le : w.book.assets ≤ b * w.book.assets := le_mul_of_one_le_left hA.le hburned
    have hsupply_le : w.book.totalShares ≤ x * w.book.totalShares :=
      le_mul_of_one_le_left hS.le hx
    have hv_le : v ≤ v * w.book.totalShares := le_mul_of_one_le_right hvalue_nonneg hS
    have hsum : i128.Fits (x * w.book.totalShares + (w.book.assets - 1)) := hfits
    have hproduct_fits : i128.Fits (b * w.book.assets) :=
      fits_of_le hproduct_nonneg hproduct hsum
    have hv_fits : i128.Fits v := fits_of_le hvalue_nonneg (by omega) hsum
    have hconvert : (convertToSharesInternalCeil x).Ok env w b w :=
      (convertToSharesCeilAt_ok_iff hS hA hx).mpr ⟨⟨hb.symm, hfits⟩, rfl⟩
    have hback : (convertToAssetsInternal b).Ok env w v w := by
      refine convertToAssetsAt_ok_iff.mpr ⟨⟨hv.symm, ?_⟩, rfl⟩
      intro hb0 hA0 hS0
      refine ⟨hproduct_fits, ?_⟩
      have hquotient : (b * w.book.assets).tdiv w.book.totalShares = v := by
        rw [← hv]
        unfold Pool.assetsFor
        rw [if_neg hb0, if_neg (by omega)]
      rwa [hquotient]
    rw [idle_eq htoken] at hfunded
    apply Tx.exists_ok_bind (Tx.ok_get.mpr ⟨rfl, rfl⟩)
    apply Tx.exists_ok_bind (a := ()) (Tx.ok_require.mpr ⟨hburned.trans_le hheld, rfl⟩)
    apply Tx.exists_ok_bind (ok_getTotalSharesInternal.mpr ⟨rfl, rfl⟩)
    apply Tx.exists_ok_bind (ok_getTotalAssetsInternal.mpr ⟨rfl, rfl⟩)
    apply Tx.exists_ok_bind (a := ()) (Tx.ok_require.mpr ⟨⟨hS, hA⟩, rfl⟩)
    apply Tx.exists_ok_bind hconvert
    apply Tx.exists_ok_bind (a := ()) (Tx.ok_require.mpr ⟨hburned, rfl⟩)
    apply Tx.exists_ok_bind (a := ()) (Tx.ok_require.mpr ⟨hheld, rfl⟩)
    apply Tx.exists_ok_bind hback
    simp only [Tx.ok_bind, ok_checkedSub, ok_setUserShares, ok_setTotalShares,
      ok_setTotalAssets, ok_reduceTotalDepositsOnWithdraw, ok_transfer, Tx.ok_pure, existsAndEq,
      exists_const, and_assoc, true_and]
    have hleast := i128.least_nonpos
    obtain ⟨hsum_lo, hsum_hi⟩ := hsum
    obtain ⟨htyped_lo, htyped_hi⟩ := htyped
    have hshares_left : i128.Fits (w.book.shares user - b) := ⟨by omega, by omega⟩
    have hsupply_left : i128.Fits (w.book.totalShares - b) := by
      refine ⟨?_, by omega⟩
      have hwide : i128.least + i128.greatest ≤ 0 := by decide
      omega
    have hassets_left : i128.Fits (w.book.assets - v) := by
      refine ⟨?_, by omega⟩
      have hwide : i128.least + i128.greatest ≤ 0 := by decide
      omega
    exact ⟨hshares_left, hsupply_left, hassets_left, hvalue_nonneg, hfunded, trivial⟩

/-! ## No request is paid too much -/

/-- Some number of shares is worth exactly `x`. -/
def Book.Prices (b : Book) (x : Int) : Prop := Pool.WholeValue b.totalShares b.assets x

/-- A request pays at least what it settled for, and no more than is on hand. -/
structure RequestPaid (env : Env) (w w' : World) (user : Address) (amount x paid : Int) : Prop where
  positive : 0 < x
  supply_pos : 0 < w.book.totalShares
  assets_pos : 0 < w.book.assets
  value : paid = Pool.assetsFor w.book.totalShares w.book.assets
    (Pool.sharesForUp w.book.totalShares w.book.assets x)
  funded : paid ≤ w.onHand env amount
  settled : x = min amount (w.onHand env amount) ∨ x = amount
  moved : ∃ burned, Withdrawal env w w' user paid burned

theorem request_paid (hcall : call.request = some (user, amount)) (hlegs : w.legs = 0)
    (h : call.run.Ok env w () w') : ∃ x paid, RequestPaid env w w' user amount x paid := by
  obtain ⟨t0, t, t', token, x, paid, hrun, hq⟩ := request_ok hcall h
  have h0 : Quiet w t0 := quiet_checks hrun.checked
  have hself : user ≠ w.self := foreign_of_checks hcall hrun.checked
  obtain ⟨hpulled, hidle, hx⟩ :=
    liquidity_ok hcall hrun.asset (h0.legs.trans hlegs) hrun.found
  have hstep := hpulled.poolStep
  have hbook : t.book = w.book := hstep.book.trans h0.book
  have hself' : user ≠ t.self := by rwa [hstep.self, h0.self]
  have htoken' : t.usdcToken = some token := hstep.usdcToken.trans hrun.asset
  obtain ⟨hred, -, -⟩ := redeem_ok hself' htoken' hrun.redeemed
  obtain ⟨hvalue, hfunded⟩ := redeem_pays hself' htoken' hrun.redeemed
  have hterms := hred.terms
  rw [hbook] at hvalue hterms
  rw [hidle, h0.onHand] at hfunded
  rw [h0.onHand] at hx
  exact ⟨x, paid.1, hrun.positive, hterms.supply_pos, hterms.assets_pos, hvalue, hfunded, hx,
    paid.2, t0, t, h0, hpulled, hred.of_quiet hq⟩

/-- What is paid stays within the request and the liquidity exactly when the lesser of the two is
    the value of some number of shares. -/
theorem RequestPaid.within_iff {paid : Int} (h : RequestPaid env w w' user amount x paid) :
    (paid ≤ amount ∧ paid ≤ w.onHand env amount) ↔
      w.book.Prices (min amount (w.onHand env amount)) := by
  have hworth : x ≤ paid := by
    rw [h.value]
    exact (Pool.le_assetsFor_iff h.supply_pos h.assets_pos h.positive).mpr le_rfl
  have hfunded := h.funded
  have hx : x = min amount (w.onHand env amount) := by
    rcases h.settled with hmin | hall
    · exact hmin
    · omega
  have hexact := Pool.assetsFor_sharesForUp_eq_iff h.supply_pos h.assets_pos h.positive
  rw [← h.value] at hexact
  unfold Book.Prices
  rw [← hx, ← hexact]
  omega

/-- The checks of a request pass, and its pull from the active protocol leaves `available`. -/
def PullLeaves (env : Env) (w : World) (call : Call) (amount available : Int) : Prop :=
  ∃ t0 t token, call.checks.Ok env w () t0 ∧ t0.usdcToken = some token ∧
    t0.deployment.currentProtocol.isActive = true ∧ t0.idle < amount ∧
    (pullMissing t0.deployment.currentProtocol token amount t0.idle).Ok env t0 available t

/-- After a pull that leaves less than the amount, a request of a user with enough shares succeeds
    exactly when what is left is the value of some number of shares. -/
theorem partial_succeeds_iff (hcall : call.request = some (user, amount)) (hlegs : w.legs = 0)
    (hpull : PullLeaves env w call amount available) (hpos : 0 < available)
    (hshort : available < amount) (htyped : i128.Fits (w.book.shares user))
    (hheld : Pool.sharesForUp w.book.totalShares w.book.assets available ≤ w.book.shares user) :
    (∃ w', call.run.Ok env w () w') ↔
      0 < w.book.totalShares ∧ 0 < w.book.assets ∧ w.book.Convertible available ∧
        w.book.Prices available := by
  obtain ⟨t0, t, token, hchecks, htoken, hactive, hmissing, hmissed⟩ := hpull
  have h0 : Quiet w t0 := quiet_checks hchecks
  have hself : user ≠ w.self := foreign_of_checks hcall hchecks
  obtain ⟨hpulled, hidle, havailable⟩ :=
    pullMissing_onHand htoken (h0.legs.trans hlegs) hactive hmissing hmissed
  have hfound := liquidity_of_pull hcall htoken hactive hmissing hshort.le hmissed
  have hstep := hpulled.poolStep
  have hbook : t.book = w.book := hstep.book.trans h0.book
  have hself' : user ≠ t.self := by rwa [hstep.self, h0.self]
  have htoken' : t.usdcToken = some token := hstep.usdcToken.trans htoken
  have hredeem : (∃ paid w', (redeem user token available).Ok env t paid w') ↔ _ :=
    redeem_succeeds_iff hself' htoken' hpos (by rwa [hbook]) (by rwa [hbook])
  rw [hbook, ← havailable] at hredeem
  have hiff : (∃ w', call.run.Ok env w () w') ↔
      ∃ paid w', (redeem user token available).Ok env t paid w' := by
    constructor
    · rintro ⟨w', h⟩
      obtain ⟨s0, s, s', token', x, paid, hrun, -⟩ := request_ok hcall h
      obtain ⟨-, rfl⟩ := hrun.checked.unique hchecks
      obtain rfl : token = token' := Option.some.inj (htoken.symm.trans hrun.asset)
      obtain ⟨rfl, rfl⟩ := hrun.found.unique hfound
      exact ⟨paid, s', hrun.redeemed⟩
    · rintro ⟨paid, w', h⟩
      exact RequestRun.succeeds hcall ⟨hchecks, htoken, hfound, hpos, h⟩
  rw [hiff, hredeem]
  constructor
  · rintro ⟨hS, hA, hfits, hle⟩
    have hworth := (Pool.le_assetsFor_iff hS hA hpos).mpr le_rfl
    exact ⟨hS, hA, hfits, (Pool.assetsFor_sharesForUp_eq_iff hS hA hpos).mp (by omega)⟩
  · rintro ⟨hS, hA, hfits, hwhole⟩
    exact ⟨hS, hA, hfits, ((Pool.assetsFor_sharesForUp_eq_iff hS hA hpos).mpr hwhole).le⟩

theorem PullLeaves.onHand (h : PullLeaves env w call amount available) (hlegs : w.legs = 0) :
    available = w.onHand env amount := by
  obtain ⟨t0, t, token, hchecks, htoken, hactive, hmissing, hmissed⟩ := h
  have h0 : Quiet w t0 := quiet_checks hchecks
  obtain ⟨-, hidle, havailable⟩ :=
    pullMissing_onHand htoken (h0.legs.trans hlegs) hactive hmissing hmissed
  rw [havailable, hidle, h0.onHand]

theorem RequestPaid.le_paid {paid : Int} (h : RequestPaid env w w' user amount x paid) :
    min amount (w.onHand env amount) ≤ paid := by
  have hworth : x ≤ paid := by
    rw [h.value]
    exact (Pool.le_assetsFor_iff h.supply_pos h.assets_pos h.positive).mpr le_rfl
  rcases h.settled with hmin | hall
  · rwa [← hmin]
  · omega

/-- A request stays within its amount and the liquidity, and a short pull makes it a partial
    withdrawal of all that is left, exactly when what it settles for is the value of some number of
    shares. -/
theorem requests_exact_iff (hcall : call.request = some (user, amount))
    (htyped : i128.Fits (w.book.shares user)) :
    (∀ w', (invoke call).Ok env w () w' →
      ((w'.paidOut ≤ amount ∧ w'.paidOut ≤ w.onHand env amount) ↔
        w.book.Prices (min amount (w.onHand env amount)))) ∧
    ∀ available, PullLeaves env w.entered call amount available → 0 < available →
      available < amount →
      Pool.sharesForUp w.book.totalShares w.book.assets available ≤ w.book.shares user →
      ((∃ w', (invoke call).Ok env w () w' ∧ w'.PaidOnce w'.self user available) ↔
        0 < w.book.totalShares ∧ 0 < w.book.assets ∧ w.book.Convertible available ∧
          w.book.Prices available) := by
  constructor
  · intro w' h
    obtain ⟨x, paid, hpaid⟩ := request_paid hcall rfl (ok_invoke.mp h)
    obtain ⟨burned, hwithdrawal⟩ := hpaid.moved
    have honce := hwithdrawal.paidOnce rfl
    obtain ⟨hout, -⟩ := paid_out honce hwithdrawal.foreign
    rw [hout]
    exact hpaid.within_iff
  · intro available hpull hpos hshort hheld
    have hsucceeds :=
      partial_succeeds_iff (w := w.entered) hcall rfl hpull hpos hshort htyped hheld
    constructor
    · rintro ⟨w', h, -⟩
      exact hsucceeds.mp ⟨w', ok_invoke.mp h⟩
    · intro hcondition
      obtain ⟨w', h⟩ := hsucceeds.mpr hcondition
      obtain ⟨x, paid, hpaid⟩ := request_paid hcall rfl h
      obtain ⟨burned, hwithdrawal⟩ := hpaid.moved
      have hleft := hpull.onHand rfl
      have hlow := hpaid.le_paid
      have hhigh := hpaid.funded
      rw [← hleft] at hlow hhigh
      have hall : paid = available := by omega
      refine ⟨w', ok_invoke.mpr h, ?_⟩
      rw [← hall]
      exact hwithdrawal.paidOnce rfl

namespace Sample

/-- A share is worth one and a half: alice's deposit has earned half of what she paid. -/
def priced : World :=
  opened.replay [.call honest (.deposit alice 1000000),
    .ambient { opened.chain with balances := fun _ _ => 1500000 },
    .call honest (.updateTotalAssets agent 1500000 false 0)]

/-- The same, with everything in Blend. -/
def pricedInBlend : World :=
  priced.replay [.call honest (.setVenuePool .blend owner blendPool),
    .call honest (.rebalance .blend 0 0)]

/-- Pools that can pay two units at most. -/
def trickle : Env :=
  { honest with pool := fun c => match c.kind with
    | .supply => some ⟨c.amount, c.position + c.amount⟩
    | .withdraw => some ⟨min 2 c.amount, c.position - min 2 c.amount⟩ }

/-- Two shares are worth exactly 3. -/
theorem priced_request_exact :
    (priced.after (.call honest (.withdraw alice 3))).paidOut ≤ 3 ∧
      (priced.after (.call honest (.withdraw alice 3))).paidOut ≤ priced.onHand honest 3 := by
  have hexact := @requests_exact_iff honest priced (.withdraw alice 3) alice 3 rfl (by decide +kernel)
  refine (hexact.1 _ (ok_after (by decide +kernel))).mpr ⟨2, by decide +kernel, ?_⟩
  decide +kernel

def checked : World := (withdrawChecks alice 1000).commit trickle pricedInBlend.entered

/-- Alice asks for 2 and is paid 3; when the pool can only deliver 2, she is paid nothing. -/
theorem requests_not_exact :
    ((invoke (.withdraw alice 2)).Ok honest priced ()
        (priced.after (.call honest (.withdraw alice 2))) ∧
      (priced.after (.call honest (.withdraw alice 2))).paidOut = 3) ∧
    PullLeaves trickle pricedInBlend.entered (.withdraw alice 1000) 1000 2 ∧
      Pool.sharesForUp pricedInBlend.book.totalShares pricedInBlend.book.assets 2 ≤
        pricedInBlend.book.shares alice ∧
      ¬ ∃ w', (invoke (.withdraw alice 1000)).Ok trickle pricedInBlend () w' := by
  have hpull : PullLeaves trickle pricedInBlend.entered (.withdraw alice 1000) 1000 2 := by
    have hchecks : (withdrawChecks alice 1000).Ok trickle pricedInBlend.entered () checked :=
      Tx.ok_commit (by decide +kernel)
    have htoken : checked.usdcToken = some usdc := by decide +kernel
    have hactive : checked.deployment.currentProtocol.isActive = true := by decide +kernel
    have hmissing : checked.idle < 1000 := by decide +kernel
    obtain ⟨x, t, hpulled⟩ := Tx.exists_ok_of_succeeds (r := trickle) (s := checked)
      (x := pullMissing checked.deployment.currentProtocol usdc 1000 checked.idle)
      (by decide +kernel)
    obtain ⟨-, hidle, hx⟩ :=
      pullMissing_onHand htoken (by decide +kernel) hactive hmissing hpulled
    have htwo : x = 2 := by
      rw [hx, hidle]
      decide +kernel
    rw [htwo] at hpulled
    exact ⟨checked, t, usdc, hchecks, htoken, hactive, hmissing, hpulled⟩
  refine ⟨⟨ok_after (by decide +kernel), by decide +kernel⟩, hpull, by decide +kernel, ?_⟩
  rintro ⟨w', h⟩
  have hfails : (invoke (.withdraw alice 1000)).succeeds trickle pricedInBlend = false := by
    decide +kernel
  rw [Tx.succeeds_of_ok h] at hfails
  cases hfails

end Sample

end NeuroWealth.Vault
