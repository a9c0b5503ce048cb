import NeuroWealth.ShareMath.PlainVault
import NeuroWealth.ShareMath.Invariants
import NeuroWealth.Vault.Properties.Batch
import NeuroWealth.Vault.Proofs.GovernanceProofs
import NeuroWealth.Vault.Proofs.LiquidityProofs
import NeuroWealth.Vault.Proofs.OutcomesProofs

/-!
# When the contract accepts an operation on a plain vault

The contract's conversions are those of the model, and its checks come down to those about funds,
the cap and the size of its integers.
-/

namespace NeuroWealth.ShareMath

open Transaction Vault MachineInt SharePool

variable {env : Env} {w w' : World} {c : Parties} {user : Address} {amount x z A : Int}

/-! ## Conversions -/

theorem convertToSharesInternal_iff :
    (convertToSharesInternal x).Ok env w z w' ↔
      sharesFloor x w.book.totalShares w.book.assets = some z ∧ w' = w := by
  simp only [convertToSharesInternal, Tx.ok_bind, Tx.ok_get, existsAndEq, true_and]
  unfold convertToSharesAt sharesFloor mulDivDown
  split_ifs
  · simp [eq_comm]
  · simp [eq_comm]
  · simp only [Tx.ok_bind, ok_checkedMul, ok_checkedDiv, existsAndEq, and_assoc, true_and,
      Option.bind_eq_bind, Option.bind_eq_some_iff, checkedMul_eq_some, checkedDiv_eq_some]

theorem convertToSharesInternalCeil_iff :
    (convertToSharesInternalCeil x).Ok env w z w' ↔
      sharesCeil x w.book.totalShares w.book.assets = some z ∧ w' = w := by
  simp only [convertToSharesInternalCeil, Tx.ok_bind, Tx.ok_get, existsAndEq, true_and]
  unfold convertToSharesCeilAt sharesCeil mulDivUp
  split_ifs
  · simp [eq_comm]
  · simp [eq_comm]
  · simp only [Tx.ok_bind, ok_checkedMul, ok_checkedSub, ok_checkedAdd, ok_checkedDiv, existsAndEq,
      and_assoc, true_and, Option.bind_eq_bind, Option.bind_eq_some_iff, checkedMul_eq_some,
      checkedSub_eq_some, checkedAdd_eq_some, checkedDiv_eq_some]

theorem convertToAssetsInternal_iff :
    (convertToAssetsInternal x).Ok env w z w' ↔
      assetsFromShares x w.book.totalShares w.book.assets = some z ∧ w' = w := by
  simp only [convertToAssetsInternal, Tx.ok_bind, Tx.ok_get, existsAndEq, true_and]
  unfold convertToAssetsAt assetsFromShares mulDivDown
  split_ifs
  · simp [eq_comm]
  · simp [eq_comm]
  · simp only [Tx.ok_bind, ok_checkedMul, ok_checkedDiv, existsAndEq, and_assoc, true_and,
      Option.bind_eq_bind, Option.bind_eq_some_iff, checkedMul_eq_some, checkedDiv_eq_some]

/-! ## Deposits -/

/-- A limit of no calls never stands in the way. -/
theorem enforceUserRateLimit_off {k : RateLimitCategory} {u : Unit} (hk : k.isValid = true)
    (hoff : ((w.limits.rateLimitConfig k).getD (defaultRateLimitConfig k)).maxCalls = 0) :
    (enforceUserRateLimit user k).Ok env w u w' ↔ w' = w := by
  simp only [enforceUserRateLimit, enforceRateLimit, getRateLimitConfigInternal,
    requireValidRateLimitCategory, Tx.ok_bind, Tx.ok_get, Tx.ok_require, Tx.ok_pure, existsAndEq,
    exists_const, and_assoc, true_and, hk, if_pos hoff]

/-- What the accounting of a deposit checks. -/
structure Credits (w : World) (user : Address) (amount A minted : Int) : Prop where
  conversion : sharesFloor amount w.book.totalShares A = some minted
  positive : 0 < minted
  takes : w.book.Takes user amount minted

theorem credits_of_ok {u : Unit} (hA : w.book.totalAssets = some A)
    (h : (creditDeposit user amount).Ok env w u w') :
    ∃ minted, Credits w user amount A minted ∧ Credit w w' user amount minted := by
  have hassets : ∀ s S D, (Book.mk s S w.book.totalAssets D).assets = A := by
    intro s S D
    unfold Book.assets
    rw [hA]
    rfl
  obtain ⟨minted, hcredit, -, hminted⟩ := creditDeposit_ok h
  rw [hA] at hminted
  simp only [creditDeposit, Tx.ok_bind, Tx.ok_get, Tx.ok_require, ok_checkedAdd, ok_readShares,
    convertToSharesInternal_iff, ok_getTotalSharesInternal, ok_getTotalAssetsInternal,
    ok_setUserShares, ok_setTotalDeposits, ok_setTotalShares, ok_setTotalAssets,
    ok_recordDepositLedger, ok_publish, existsAndEq, exists_const, and_assoc, true_and,
    hassets] at h
  obtain ⟨hdeposits, minted', hconv, hpos, hshares, _, t, hfirst, hsupply, hfits, -⟩ := h
  obtain rfl : minted' = minted := (sharesFloor_some hconv).trans hminted.symm
  have hq := (Keeps.onlyIf quiet_recordFirstDeposit : Keeps quiet _) hfirst
  have hbook := hq.book
  rw [hbook] at hsupply hfits
  refine ⟨minted', ⟨hconv, hpos, hshares, hsupply, hdeposits, ?_⟩, hcredit⟩
  rw [hA]
  exact (hassets _ _ _) ▸ hfits

theorem Credits.succeeds {minted : Int} (hA : w.book.totalAssets = some A)
    (h : Credits w user amount A minted) : ∃ w', (creditDeposit user amount).Ok env w () w' := by
  have hminted := sharesFloor_some h.conversion
  refine creditDeposit_succeeds hA ?_ hminted h.positive h.takes
  intro hx hS hne
  have hconv := h.conversion
  unfold sharesFloor at hconv
  rw [if_neg hx, if_neg (not_or.mpr ⟨hS, hne⟩)] at hconv
  simp only [Option.bind_eq_bind, Option.bind_eq_some_iff, checkedMul_eq_some,
    checkedDiv_eq_some, existsAndEq, and_assoc, true_and] at hconv
  exact ⟨hconv.1, hconv.2.2.2⟩

theorem Plain.deposit_iff (hp : Plain c w) {i : Fin 2} :
    (Vault.deposit (c.users i) amount).Ok env w () w' ↔
      c.users i ∈ env.auths ∧ (depositFrom (c.users i) (c.users i) amount).Ok env w () w' := by
  simp only [Vault.deposit_iff, enforceUserRateLimit_off rfl hp.noDepositRate, existsAndEq,
    true_and]
  have hi := hp.initialized
  have hself := hp.foreign i
  have hlive := hp.live
  tauto

/-! ## Withdrawals -/

theorem requireHoldingPeriodElapsed_off {u : Unit} (hoff : w.holding.minHoldingPeriod = 0) :
    (requireHoldingPeriodElapsed user).Ok env w u w' ↔ w' = w := by
  simp only [requireHoldingPeriodElapsed, Tx.ok_bind, Tx.ok_get, existsAndEq, true_and]
  split
  · simp [hoff]
  · simp

theorem requireWithinUnlocked_off {u : Unit} (hoff : w.locks.lockedShares user = 0) :
    (requireWithinUnlocked user amount).Ok env w u w' ↔ w' = w := by
  simp [requireWithinUnlocked, hoff]

theorem availableForWithdraw_idle {token : Address} (hidle : w.deployment.currentProtocol = .none) :
    (availableForWithdraw token amount).Ok env w x w' ↔ x = amount ∧ w' = w := by
  simp [availableForWithdraw, hidle, Protocol.isActive]

theorem Plain.withdraw_iff (hp : Plain c w) {i : Fin 2} :
    (Vault.withdraw (c.users i) amount).Ok env w () w' ↔
      c.users i ∈ env.auths ∧ 0 < amount ∧ ∃ token paid t, w.usdcToken = some token ∧
        (redeem (c.users i) token amount).Ok env w paid t ∧
          (publish (.withdraw (c.users i) paid.1 paid.2)).Ok env t () w' := by
  have hi := hp.initialized
  have hself := hp.foreign i
  have hlive := hp.live
  simp only [Vault.withdraw, Tx.ok_bind, ok_requireInitialized, ok_requireAuth,
    ok_requireNotPaused, ok_requirePositiveAmount, enforceUserRateLimit_off rfl hp.noWithdrawRate,
    requireHoldingPeriodElapsed_off hp.noHoldingPeriod, requireWithinUnlocked_off (hp.noLock i),
    availableForWithdraw_idle hp.marker, ok_getUsdcToken, Tx.ok_require, existsAndEq, exists_const,
    and_assoc, true_and]
  constructor
  · rintro ⟨-, hauth, -, -, hpos, token, htoken, -, paid, t, hredeem, hpub⟩
    exact ⟨hauth, hpos, token, paid, t, htoken, hredeem, hpub⟩
  · rintro ⟨hauth, hpos, token, paid, t, htoken, hredeem, hpub⟩
    exact ⟨hi, hauth, hself, hlive, hpos, token, htoken, hpos, paid, t, hredeem, hpub⟩

/-- What a redemption of `x` checks, for shares `burned` and a payment of `paid`. -/
structure Redeemable (w : World) (user token : Address) (x paid burned : Int) : Prop where
  holds : 0 < w.book.shares user
  supply_pos : 0 < w.book.totalShares
  assets_pos : 0 < w.book.assets
  conversion : sharesCeil x w.book.totalShares w.book.assets = some burned
  burned_pos : 0 < burned
  covered : burned ≤ w.book.shares user
  value : assetsFromShares burned w.book.totalShares w.book.assets = some paid
  shares_fit : i128.Fits (w.book.shares user - burned)
  supply_fits : i128.Fits (w.book.totalShares - burned)
  assets_fit : i128.Fits (w.book.assets - paid)
  paid_nonneg : 0 ≤ paid
  paid_le : paid ≤ w.chain.balances token w.self

theorem redeem_iff {token : Address} {paid burned : Int} :
    (∃ w', (redeem user token x).Ok env w (paid, burned) w') ↔
      Redeemable w user token x paid burned := by
  simp only [redeem, Tx.ok_bind, Tx.ok_get, Tx.ok_require, ok_getTotalSharesInternal,
    ok_getTotalAssetsInternal, convertToSharesInternalCeil_iff, convertToAssetsInternal_iff,
    ok_checkedSub, ok_setUserShares, ok_setTotalShares, ok_setTotalAssets,
    ok_reduceTotalDepositsOnWithdraw, ok_transfer, Tx.ok_pure, Prod.mk.injEq, existsAndEq,
    exists_const, and_assoc, true_and, and_true]
  constructor
  · rintro ⟨h1, h2, h3, h4, h5, h6, h7, h8, h9, h10, h11, h12⟩
    exact ⟨h1, h2, h3, h4, h5, h6, h7, h8, h9, h10, h11, h12⟩
  · rintro ⟨h1, h2, h3, h4, h5, h6, h7, h8, h9, h10, h11, h12⟩
    exact ⟨h1, h2, h3, h4, h5, h6, h7, h8, h9, h10, h11, h12⟩

/-! ## Reports -/

/-- A report of no less than the stored total goes through if the yield can be attributed. -/
theorem Plain.updateTotalAssets_succeeds {new : Int} (hp : Plain c w) (hA : w.book.totalAssets = some A)
    (hauth : c.agent ∈ env.auths) (hge : A ≤ new) (hle : new ≤ w.idle) (hfits : i128.Fits (new - A))
    (hS : 0 ≤ w.book.totalShares) (hshares : ∀ u, 0 ≤ w.book.shares u)
    (hproducts : ∀ u, i128.Fits ((new - A) * w.book.shares u)) :
    ∃ u w', (Vault.updateTotalAssets c.agent new false 0).Ok env w u w' := by
  have hassets : w.book.assets = A := by
    unfold Book.assets
    rw [hA]
    rfl
  subst hassets
  have hunmarked : ∀ v : Venue, w.deployment.currentProtocol ≠ v.protocol := fun v => by
    rw [hp.marker]
    cases v with
    | blend => decide
    | dex => decide
  have hvisible : w.visible = w.idle := by
    unfold World.visible
    simp [hp.marker]
  have hattributable : w.Attributable (new - w.book.assets) := by
    intro hy hsupply user _ _
    have hproduct : 0 ≤ (new - w.book.assets) * w.book.shares user :=
      mul_nonneg hy.le (hshares user)
    refine ⟨hproducts user, ?_⟩
    unfold Book.yieldOf
    rw [Int.tdiv_eq_ediv_of_nonneg hproduct]
    exact fits_of_le (Int.ediv_nonneg hproduct hS) (Int.ediv_le_self _ hproduct) (hproducts user)
  have hsub : i128.saturatingSub new w.book.assets = new - w.book.assets := saturate_of_fits hfits
  refine ⟨(), w.reported new, (ok_updateTotalAssets hp.initialized hge).mpr ⟨?_, ?_, ?_, rfl⟩⟩
  · exact ⟨.inl hp.agent, hauth, hp.agent_foreign⟩
  · exact ⟨fun v hmark => absurd hmark (hunmarked v), hsub ▸ hattributable⟩
  · rwa [hvisible]

/-- A report that is accepted without leave to go down does not. -/
theorem updateTotalAssets_up {agent : Address} {new : Int} {u : Unit}
    (h : (Vault.updateTotalAssets agent new false 0).Ok env w u w') : w.book.assets ≤ new := by
  obtain ⟨-, -, hdown⟩ := updateTotalAssets_ok h
  by_contra hlt
  have := (hdown (not_le.mp hlt)).1
  simp at this

end NeuroWealth.ShareMath
