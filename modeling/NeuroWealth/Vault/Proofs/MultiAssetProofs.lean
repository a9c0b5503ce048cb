import NeuroWealth.Vault.Proofs.WithdrawalsProofs

/-!
# What the asset pools do

An asset call moves one token amount between the user and the vault, and the global totals of
the USDC pool with it.
-/

namespace NeuroWealth.Vault

open Transaction MachineInt SharePool

variable {env : Env} {w w' : World} {user : Address} {asset : Symbol} {amount : Int}

/-! ## Bookkeeping -/

/-- The asset pools and the totals of the book may change, no share of the book. -/
structure Rebooked (w w' : World) (book : Book) : Prop where
  self : w'.self = w.self
  chain : w'.chain = w.chain
  usdcToken : w'.usdcToken = w.usdcToken
  book : w'.book = book
  locks : w'.locks = w.locks
  holding : w'.holding = w.holding
  deployment : w'.deployment = w.deployment
  transfers : w'.transfers = w.transfers
  initialized : w.Initialized → w'.Initialized
  legs : w'.legs = w.legs

@[simp]
theorem ok_setAssetShares {x : Int} {u : Unit} :
    (setAssetShares user asset x).Ok env w u w' ↔
      w' = { w with assets := w.assets.setShares user asset x } := by
  simp only [setAssetShares, Tx.ok_bind, Tx.ok_get, ok_putAssets, existsAndEq, true_and]

@[simp]
theorem ok_setAssetTotals {t : AssetTotals} {u : Unit} :
    (setAssetTotals asset t).Ok env w u w' ↔
      w' = { w with assets := w.assets.setTotals asset t } := by
  simp only [setAssetTotals, Tx.ok_bind, Tx.ok_get, ok_putAssets, existsAndEq, true_and]

@[simp]
theorem ok_addToGlobalTotalsOnDeposit {u : Unit} :
    (addToGlobalTotalsOnDeposit amount).Ok env w u w' ↔
      w' = { w with book := w.book.addGlobal amount } := by
  simp only [addToGlobalTotalsOnDeposit, Tx.ok_bind, Tx.ok_get, ok_putBook, existsAndEq, true_and]

@[simp]
theorem ok_reduceGlobalTotalsOnWithdraw {u : Unit} :
    (reduceGlobalTotalsOnWithdraw amount).Ok env w u w' ↔
      w' = { w with book := w.book.reduceGlobal amount } := by
  simp only [reduceGlobalTotalsOnWithdraw, Tx.ok_bind, Tx.ok_get, ok_putBook, existsAndEq,
    true_and]

@[simp]
theorem ok_readAssetTotals {t : AssetTotals} :
    (readAssetTotals asset).Ok env w t w' ↔ t = w.assets.totals asset ∧ w' = w := by
  simp only [readAssetTotals, Tx.ok_bind, Tx.ok_get, Tx.ok_pure, existsAndEq, true_and]

@[simp]
theorem ok_getAssetConfigOr {m : String} {c : AssetConfig} :
    (getAssetConfigOr asset m).Ok env w c w' ↔ w.assets.config asset = some c ∧ w' = w := by
  simp only [getAssetConfigOr, Tx.ok_bind, Tx.ok_get, Tx.ok_expect, existsAndEq, true_and]

theorem ok_convertToAssetSharesInternal {x z : Int}
    (h : (convertToAssetSharesInternal asset x).Ok env w z w') :
    z = Pool.sharesFor (w.assets.totals asset).shares (w.assets.totals asset).assets x ∧
      w' = w := by
  simp only [convertToAssetSharesInternal, Tx.ok_bind, ok_readAssetTotals, existsAndEq,
    true_and] at h
  exact ok_convertToSharesAt h

theorem ok_convertToAssetSharesInternalCeil {x z : Int}
    (h : (convertToAssetSharesInternalCeil asset x).Ok env w z w') :
    z = Pool.sharesForUp (w.assets.totals asset).shares (w.assets.totals asset).assets x ∧
      w' = w := by
  simp only [convertToAssetSharesInternalCeil, Tx.ok_bind, ok_readAssetTotals, existsAndEq,
    true_and] at h
  exact ok_convertToSharesCeilAt h

theorem ok_convertToAssetAssetsInternal {x z : Int}
    (h : (convertToAssetAssetsInternal asset x).Ok env w z w') :
    z = Pool.assetsFor (w.assets.totals asset).shares (w.assets.totals asset).assets x ∧
      w' = w := by
  simp only [convertToAssetAssetsInternal, Tx.ok_bind, ok_readAssetTotals, existsAndEq,
    true_and] at h
  exact ok_convertToAssetsAt h

theorem unchanged_requireAssetLimits {c : AssetConfig} {t : AssetTotals} :
    Keeps unchanged (requireAssetLimits c t amount) :=
  .bind .require fun _ => .bind .require fun _ =>
    .ite (.bind .expect fun _ => .require) (.pure _)

/-! ## Calls -/

/-- The asset pools after `amount` was paid in for `minted` shares. -/
def AssetPools.credited (a : AssetPools) (user : Address) (asset : Symbol) (amount minted : Int) :
    AssetPools :=
  let t := a.totals asset
  (a.setShares user asset (a.shares user asset + minted)).setTotals asset
    ⟨t.assets + amount, t.shares + minted, t.deposits + amount⟩

/-- The asset pools after `burned` shares were redeemed for `amount`. -/
def AssetPools.debited (a : AssetPools) (user : Address) (asset : Symbol) (amount burned : Int) :
    AssetPools :=
  let t := a.totals asset
  (a.setShares user asset (a.shares user asset - burned)).setTotals asset
    ⟨t.assets - amount, t.shares - burned, max (i128.saturatingSub t.deposits amount) 0⟩

/-- What a deposit of an asset writes to its pool. -/
structure AssetCredit (w w' : World) (user : Address) (asset : Symbol) (amount : Int) : Prop where
  minted_pos : 0 < Pool.sharesFor (w.assets.totals asset).shares (w.assets.totals asset).assets amount
  fits : i128.Fits ((w.assets.totals asset).deposits + amount)
  assets : w'.assets = w.assets.credited user asset amount
    (Pool.sharesFor (w.assets.totals asset).shares (w.assets.totals asset).assets amount)

/-- A deposit of an asset, with what it adds to the global totals. -/
theorem depositAsset_ok {u : Unit} (h : (depositAsset user asset amount).Ok env w u w') :
    ∃ config t0 t, w.assets.config asset = some config ∧ Quiet w t0 ∧
      Paid config.tokenAddress t0 t user t0.self amount ∧
      Rebooked t w' (w.book.addGlobal amount) ∧ AssetCredit w w' user asset amount ∧
      user ≠ w.self ∧ 0 < amount ∧ w.breaker.paused = false := by
  simp only [depositAsset, Tx.ok_bind, Tx.ok_get, ok_requireInitialized, ok_requireAuth,
    ok_requireNotPaused, ok_requirePositiveAmount, ok_getAssetConfigOr, ok_readAssetTotals,
    Tx.ok_require, ok_checkedAdd, existsAndEq, exists_const, and_assoc, true_and] at h
  obtain ⟨-, -, hself, hpaused, hpos, _, t0, hrate, config, hconfig, _, t1, hlimits, minted, t2,
    hconv, hpositive, _, t3, hpay, hfits, -, -, -, _, t4, h4, _, t5, h5, _, t6, h6, hpub⟩ := h
  have h0 : Quiet w t0 := quiet_enforceRateLimit hrate
  obtain rfl : t1 = t0 := unchanged_requireAssetLimits hlimits
  obtain ⟨hminted, rfl⟩ := ok_convertToAssetSharesInternal hconv
  have hpaid := transfer_ok hpay
  have hq : Quiet t6 w' := quiet_publish rfl hpub
  rw [ok_addToGlobalTotalsOnDeposit.mp h6, ok_setAssetTotals.mp h5, ok_setAssetShares.mp h4] at hq
  have hrebooked : Rebooked t3 w' (w.book.addGlobal amount) := by
    refine ⟨hq.self, hq.chain, hq.usdcToken, hq.book.trans ?_, hq.locks, hq.holding, hq.deployment,
      hq.transfers, hq.initialized, hq.legs⟩
    show t3.book.addGlobal amount = _
    rw [hpaid.book, h0.book]
  have hassets := hq.assets
  rw [hminted, hpaid.assets, h0.assets] at hassets
  rw [hminted, h0.assets] at hpositive
  rw [h0.assets] at hconfig hfits
  exact ⟨config, t2, t3, hconfig, h0, hpaid, hrebooked, ⟨hpositive, hfits, hassets⟩, hself, hpos,
    hpaused⟩

/-- Whether `withdraw_asset` pulls before it pays: only a single marked venue, and only if the
    vault's own balance of the token falls short. -/
def World.PullsFor (w : World) (token : Address) (owed : Int) : Prop :=
  (w.deployment.currentProtocol = .blend ∨ w.deployment.currentProtocol = .dex) ∧
    w.chain.balances token w.self < owed

instance (w : World) (token : Address) (owed : Int) : Decidable (w.PullsFor token owed) :=
  inferInstanceAs (Decidable (_ ∧ _))

/-- What `withdraw_asset` can pay of `x`: all of it, or what is there after a pull. -/
theorem availableForAsset_ok {token : Address} {x y : Int}
    (h : (availableForAsset token x).Ok env w y w') :
    (¬ w.PullsFor token x ∧ y = x ∧ w' = w) ∨
      (w.PullsFor token x ∧ PulledFor env w w' (x - w.chain.balances token w.self) ∧
        y = min x (w'.chain.balances token w'.self)) := by
  simp only [availableForAsset, Tx.ok_bind, Tx.ok_get, Tx.ok_ite, ok_vaultBalance, ok_checkedSub,
    Tx.ok_pure, existsAndEq, and_assoc, true_and, and_true] at h
  unfold World.PullsFor
  rcases h with ⟨hsingle, ⟨hmissing, -, a, hpull, rfl⟩ | ⟨hcovered, rfl, rfl⟩⟩ | ⟨hother, rfl, rfl⟩
  · have hactive : w.deployment.currentProtocol.isActive = true := by
      rcases hsingle with hp | hp
      · rw [hp]
        rfl
      · rw [hp]
        rfl
    exact .inr ⟨⟨hsingle, hmissing⟩, ⟨hactive, by omega, a, hpull⟩, rfl⟩
  · exact .inl ⟨fun hp => hcovered hp.2, rfl, rfl⟩
  · exact .inl ⟨fun hp => hother hp.1, rfl, rfl⟩

theorem settleAssetWithdraw_ok {shares final : Int} {t : AssetTotals} {u : Unit}
    (h : (settleAssetWithdraw user asset shares t amount final).Ok env w u w') :
    Rebooked w w' (w.book.reduceGlobal amount) ∧
      w'.assets = (w.assets.setShares user asset (shares - final)).setTotals asset
        ⟨t.assets - amount, t.shares - final,
          max (i128.saturatingSub t.deposits amount) 0⟩ := by
  simp only [settleAssetWithdraw, Tx.ok_bind, ok_checkedSub, existsAndEq, and_assoc, true_and] at h
  obtain ⟨-, _, t1, h1, -, -, _, t2, h2, h3⟩ := h
  rw [ok_setAssetShares.mp h1] at h2
  rw [ok_setAssetTotals.mp h2] at h3
  rw [ok_reduceGlobalTotalsOnWithdraw.mp h3]
  exact ⟨⟨rfl, rfl, rfl, rfl, rfl, rfl, rfl, rfl, id, rfl⟩, rfl⟩

/-- What `withdraw_asset` owes for an amount: the value of the shares it burns. -/
def World.assetsOwed (w : World) (asset : Symbol) (amount : Int) : Int :=
  let t := w.assets.totals asset
  Pool.assetsFor t.shares t.assets (Pool.sharesForUp t.shares t.assets amount)

/-- `actual` of the owed amount was paid, after a pull if the idle balance fell short. -/
structure AssetPayout (env : Env) (w w' : World) (user token : Address) (owed actual : Int) :
    Prop where
  foreign : user ≠ w.self
  positive : 0 < actual
  steps : ∃ t0 t1 t2, Quiet w t0 ∧
    ((¬ t0.PullsFor token owed ∧ actual = owed ∧ t1 = t0) ∨ (t0.PullsFor token owed ∧
      PulledFor env t0 t1 (owed - t0.chain.balances token t0.self) ∧
      actual = min owed (t1.chain.balances token t1.self))) ∧
    Rebooked t1 t2 (w.book.reduceGlobal actual) ∧ Paid token t2 w' t2.self user actual

/-- What a withdrawal of an asset takes from its pool, after the checks on what was asked for. -/
structure AssetDebit (w w' : World) (user : Address) (asset : Symbol) (amount actual : Int) :
    Prop where
  positive : 0 < amount
  supply_pos : 0 < (w.assets.totals asset).shares
  asked_le : Pool.sharesForUp (w.assets.totals asset).shares (w.assets.totals asset).assets amount ≤
    w.assets.shares user asset
  assets : w'.assets = w.assets.debited user asset actual
    (Pool.sharesForUp (w.assets.totals asset).shares (w.assets.totals asset).assets actual)

/-- A withdrawal of an asset, with what it takes off the global totals. -/
theorem withdrawAsset_ok {u : Unit} (h : (withdrawAsset user asset amount).Ok env w u w') :
    ∃ config actual, w.assets.config asset = some config ∧
      AssetPayout env w w' user config.tokenAddress (w.assetsOwed asset amount) actual ∧
      AssetDebit w w' user asset amount actual ∧ w.breaker.paused = false := by
  simp only [withdrawAsset, Tx.ok_bind, Tx.ok_get, ok_requireInitialized, ok_requireAuth,
    ok_requireNotPaused, ok_requirePositiveAmount, ok_getAssetConfigOr, ok_readAssetTotals,
    Tx.ok_require, existsAndEq, exists_const, and_assoc, true_and] at h
  obtain ⟨-, -, hself, hpaused, hamount, _, t0, hrate, config, hconfig, -, hsupply, -, b, t1, hceil,
    -, hasked, a, t2, hfloor, x, t3, havail, hpos, final, t4, hfinal, _, t5, hsettle, _, t6, hpay,
    hpub⟩ := h
  have h0 : Quiet w t0 := quiet_enforceRateLimit hrate
  obtain ⟨hb, rfl⟩ := ok_convertToAssetSharesInternalCeil hceil
  obtain ⟨ha, rfl⟩ := ok_convertToAssetAssetsInternal hfloor
  obtain ⟨hf, rfl⟩ := ok_convertToAssetSharesInternalCeil hfinal
  have howed : a = w.assetsOwed asset amount := by
    rw [ha, hb, h0.assets]
    rfl
  have hsource := availableForAsset_ok havail
  have hstep : PoolStep t2 t4 := by
    rcases hsource with ⟨-, -, rfl⟩ | ⟨-, hpulled, -⟩
    · exact poolStep.refl env _
    · exact Pulled.poolStep (.inr ⟨_, hpulled⟩)
  obtain ⟨hrebooked, hassets⟩ := settleAssetWithdraw_ok hsettle
  have hbook : t4.book = w.book := hstep.book.trans h0.book
  have hself6 : t2.self = t5.self := by rw [hrebooked.self, hstep.self]
  rw [hself6] at hpay
  rw [hbook] at hrebooked
  rw [howed] at hsource
  have hpaid := (transfer_ok hpay).of_quiet (quiet_publish rfl hpub)
  have hdebit : AssetDebit w w' user asset amount x := by
    rw [hf, hstep.assets, h0.assets] at hassets
    rw [hb, h0.assets] at hasked
    rw [h0.assets] at hsupply
    exact ⟨hamount, hsupply, hasked, hpaid.assets.trans hassets⟩
  exact ⟨config, x, h0.assets ▸ hconfig, ⟨hself, hpos, t2, t4, t5, h0, hsource, hrebooked, hpaid⟩,
    hdebit, hpaused⟩

/-! ## Administration -/

/-- Only the asset pools may change, besides what quiet code changes. -/
def assetsOnly : Footprint Env World where
  rel _ w w' := Rebooked w w' w.book
  refl _ _ := ⟨rfl, rfl, rfl, rfl, rfl, rfl, rfl, rfl, id, rfl⟩
  trans h1 h2 :=
    ⟨h2.self.trans h1.self, h2.chain.trans h1.chain, h2.usdcToken.trans h1.usdcToken,
      h2.book.trans h1.book, h2.locks.trans h1.locks, h2.holding.trans h1.holding,
      h2.deployment.trans h1.deployment, h2.transfers.trans h1.transfers,
      h2.initialized ∘ h1.initialized, h2.legs.trans h1.legs⟩

theorem assetsOnly_of_quiet {α : Type} {x : Contract α} (h : Keeps quiet x) :
    Keeps assetsOnly x :=
  h.mono fun hq => ⟨hq.self, hq.chain, hq.usdcToken, hq.book, hq.locks, hq.holding,
    hq.deployment, hq.transfers, hq.initialized, hq.legs⟩

theorem assetsOnly_putAssets {a : AssetPools} : Keeps assetsOnly (putAssets a) :=
  .modify fun _ _ => ⟨rfl, rfl, rfl, rfl, rfl, rfl, rfl, rfl, id, rfl⟩

theorem unchanged_requireValidAssetLimits {x y z : Int} :
    Keeps unchanged (requireValidAssetLimits x y z) :=
  .bind .require fun _ => .bind .require fun _ => .bind .require fun _ => .require

theorem assetsOnly_addSupportedAsset {token : Address} {x y z : Int} :
    Keeps assetsOnly (addSupportedAsset asset token x y z) :=
  .bind (.of_unchanged unchanged_requireInitialized) fun _ =>
    .bind (.of_unchanged unchanged_requireIsOwner) fun _ => .bind .get fun _ => .bind .require fun _ =>
    .bind (.of_unchanged unchanged_requireValidAssetLimits) fun _ =>
    .bind assetsOnly_putAssets fun _ => .bind (.bind .get fun _ => .expect) fun _ =>
    assetsOnly_of_quiet (quiet_publish rfl)

theorem assetsOnly_updateAssetLimits {x y z : Int} :
    Keeps assetsOnly (updateAssetLimits asset x y z) :=
  .bind (.of_unchanged unchanged_requireInitialized) fun _ =>
    .bind (.of_unchanged unchanged_requireIsOwner) fun _ =>
    .bind (.of_unchanged unchanged_requireValidAssetLimits) fun _ =>
    .bind (.bind .get fun _ => .expect) fun _ => .bind .get fun _ => assetsOnly_putAssets

theorem assetsOnly_removeSupportedAsset : Keeps assetsOnly (removeSupportedAsset asset) :=
  .bind (.of_unchanged unchanged_requireInitialized) fun _ =>
    .bind (.of_unchanged unchanged_requireIsOwner) fun _ =>
    .bind (.bind .get fun _ => .pure _) fun _ => .bind .require fun _ => .bind .get fun _ =>
    .bind assetsOnly_putAssets fun _ => .bind (.bind .get fun _ => .expect) fun _ =>
    assetsOnly_of_quiet (quiet_publish rfl)

/-- An asset is added with limits of its own, and only once. -/
theorem addSupportedAsset_ok {token : Address} {x y z : Int} {u : Unit}
    (h : (addSupportedAsset asset token x y z).Ok env w u w') :
    w.assets.config asset = none ∧
      w'.assets = (w.assets.setConfig asset (some ⟨token, x, y, z⟩)).addToIndex asset := by
  simp only [addSupportedAsset, requireValidAssetLimits, Tx.ok_bind, Tx.ok_get,
    ok_requireInitialized, ok_requireIsOwner, Tx.ok_require, ok_putAssets, ok_getOwnerInternal,
    ok_publish, Option.isNone_iff_eq_none, existsAndEq, exists_const, and_assoc, true_and] at h
  obtain ⟨-, -, -, hnone, -, -, -, -, -, -, rfl⟩ := h
  exact ⟨hnone, rfl⟩

/-- New limits leave an asset on its token. -/
theorem updateAssetLimits_ok {x y z : Int} {u : Unit}
    (h : (updateAssetLimits asset x y z).Ok env w u w') :
    ∃ config, w.assets.config asset = some config ∧
      w'.assets = w.assets.setConfig asset (some ⟨config.tokenAddress, x, y, z⟩) := by
  simp only [updateAssetLimits, requireValidAssetLimits, Tx.ok_bind, Tx.ok_get,
    ok_requireInitialized, ok_requireIsOwner, Tx.ok_require, ok_getAssetConfigOr, ok_putAssets,
    existsAndEq, exists_const, and_assoc, true_and] at h
  obtain ⟨-, -, -, -, -, -, -, config, hconfig, rfl⟩ := h
  exact ⟨config, hconfig, rfl⟩

/-- Only an asset without shares and assets is removed. -/
theorem removeSupportedAsset_ok {u : Unit} (h : (removeSupportedAsset asset).Ok env w u w') :
    (w.assets.totals asset).shares = 0 ∧ (w.assets.totals asset).assets = 0 ∧
      w'.assets =
        ((w.assets.setConfig asset none).setTotals asset {}).removeFromIndex asset := by
  simp only [removeSupportedAsset, Tx.ok_bind, Tx.ok_get, ok_requireInitialized,
    ok_requireIsOwner, ok_readAssetTotals, Tx.ok_require, ok_putAssets, ok_getOwnerInternal,
    ok_publish, existsAndEq, exists_const, and_assoc, true_and] at h
  obtain ⟨-, -, -, hshares, hassets, -, -, rfl⟩ := h
  exact ⟨hshares, hassets, rfl⟩

end NeuroWealth.Vault
