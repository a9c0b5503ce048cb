import NeuroWealth.Vault.Properties.AssetIsolation
import NeuroWealth.Vault.Proofs.AccountsProofs

/-!
# The ledger of the asset pools

An asset pool never earns anything: its shares are worth one each for as long as it exists. So its
totals stay equal to the sum of the holdings, and the vault holds what the pools account for.
-/

namespace NeuroWealth.Vault

open Transaction MachineInt SharePool

variable {env : Env} {w w0 w' : World} {a : AssetPools} {user token : Address} {asset : Symbol}
  {amount x : Int}

/-! ## Balanced pools -/

/-- The asset's share pool. -/
def AssetPools.pool (a : AssetPools) (asset : Symbol) : Pool Address :=
  ⟨fun u => a.shares u asset, (a.totals asset).shares, (a.totals asset).assets⟩

/-- What the vault keeps of a token for an asset: its total if it is registered on the token. -/
def AssetPools.custody (a : AssetPools) (token : Address) (asset : Symbol) : Int :=
  if (a.config asset).map AssetConfig.tokenAddress = some token then (a.totals asset).assets else 0

/-- Every pool is at par with its principal recorded, and empty while not registered. -/
structure AssetPools.Balanced (a : AssetPools) : Prop where
  par : ∀ s, (a.pool s).AtPar
  deposits : ∀ s, (a.totals s).deposits = (a.totals s).shares
  fits : ∀ s, i128.Fits (a.totals s).deposits
  unregistered : ∀ s, a.config s = none → a.totals s = {}
  finite : { s | a.config s ≠ none }.Finite

theorem AssetPools.Balanced.shares_nonneg (h : a.Balanced) (u : Address) (s : Symbol) :
    0 ≤ a.shares u s :=
  (h.par s).nonneg u

theorem AssetPools.Balanced.assets_eq (h : a.Balanced) (s : Symbol) :
    (a.totals s).assets = (a.totals s).shares :=
  (h.par s).par

/-- Nobody has shares of a pool without shares. -/
theorem AssetPools.Balanced.shares_eq_zero (h : a.Balanced) {s : Symbol}
    (hs : (a.totals s).shares = 0) (u : Address) : a.shares u s = 0 := by
  have hle : a.shares u s ≤ (a.totals s).shares := (h.par s).shares_le u
  have hnn := h.shares_nonneg u s
  omega

theorem AssetPools.Balanced.finite_custody (h : a.Balanced) :
    (Function.support (a.custody token)).Finite := by
  refine h.finite.subset fun s hs hnone => hs ?_
  unfold AssetPools.custody
  rw [hnone]
  rfl

/-! ## Deposits and withdrawals -/

/-- A holding of one pool and its totals are written together. -/
def AssetPools.write (a : AssetPools) (user : Address) (asset : Symbol) (x : Int)
    (t : AssetTotals) : AssetPools :=
  (a.setShares user asset (a.shares user asset + x)).setTotals asset t

theorem pool_write {t : AssetTotals} :
    (a.write user asset x t).pool asset =
      ⟨(a.pool asset).addShares user x, t.shares, t.assets⟩ := by
  ext u
  · by_cases hu : u = user
    · simp [AssetPools.pool, AssetPools.write, AssetPools.setTotals, AssetPools.setShares,
        Pool.addShares, hu]
    · simp [AssetPools.pool, AssetPools.write, AssetPools.setTotals, AssetPools.setShares,
        Pool.addShares, hu]
  · simp [AssetPools.pool, AssetPools.write, AssetPools.setTotals]
  · simp [AssetPools.pool, AssetPools.write, AssetPools.setTotals]

theorem totals_write {t : AssetTotals} (s : Symbol) :
    (a.write user asset x t).totals s = if s = asset then t else a.totals s := rfl

theorem pool_write_other {t : AssetTotals} {s : Symbol} (hs : s ≠ asset) :
    (a.write user asset x t).pool s = a.pool s := by
  simp [AssetPools.pool, AssetPools.write, AssetPools.setTotals, AssetPools.setShares, hs]

/-- A registered pool that is at par again keeps all of them balanced. -/
theorem AssetPools.Balanced.write {c : AssetConfig} {t : AssetTotals} (h : a.Balanced)
    (hconfig : a.config asset = some c) (hpar : ((a.write user asset x t).pool asset).AtPar)
    (hdeposits : t.deposits = t.shares) (hfits : i128.Fits t.deposits) :
    (a.write user asset x t).Balanced := by
  refine ⟨fun s => ?_, fun s => ?_, fun s => ?_, fun s hs => ?_, h.finite⟩
  · by_cases hs : s = asset
    · rwa [hs]
    · rw [pool_write_other hs]
      exact h.par s
  · rw [totals_write]
    split_ifs
    · exact hdeposits
    · exact h.deposits s
  · rw [totals_write]
    split_ifs
    · exact hfits
    · exact h.fits s
  · have hne : s ≠ asset := fun he => by
      rw [he] at hs
      exact Option.some_ne_none c (hconfig.symm.trans hs)
    rw [totals_write, if_neg hne]
    exact h.unregistered s hs

/-- At par a deposit buys as many shares as it is worth. -/
theorem AssetPools.Balanced.credited {c : AssetConfig} (h : a.Balanced)
    (hconfig : a.config asset = some c) (hpos : 0 ≤ amount)
    (hfits : i128.Fits ((a.totals asset).deposits + amount)) :
    (a.credited user asset amount amount).Balanced := by
  refine h.write (x := amount) hconfig ?_ ?_ hfits
  · rw [pool_write]
    exact (h.par asset).mint hpos
  · show (a.totals asset).deposits + amount = (a.totals asset).shares + amount
    rw [h.deposits]

/-- At par a withdrawal costs as many shares as it pays. -/
theorem AssetPools.Balanced.debited {c : AssetConfig} (h : a.Balanced)
    (hconfig : a.config asset = some c) (hx : 0 ≤ x) (hle : x ≤ a.shares user asset) :
    (a.debited user asset x x).Balanced := by
  have hsupply : x ≤ (a.totals asset).shares := hle.trans ((h.par asset).shares_le user)
  have hdeposits := h.deposits asset
  have hfits : i128.Fits ((a.totals asset).deposits - x) :=
    fits_of_le (by omega) (by omega) (h.fits asset)
  have hrest : max (i128.saturatingSub (a.totals asset).deposits x) 0 =
      (a.totals asset).deposits - x := by
    unfold Format.saturatingSub
    rw [saturate_of_fits hfits]
    omega
  refine h.write (x := -x) hconfig ?_ ?_ ?_
  · rw [pool_write]
    exact (h.par asset).burn hle
  · show max (i128.saturatingSub (a.totals asset).deposits x) 0 = (a.totals asset).shares - x
    omega
  · show i128.Fits (max (i128.saturatingSub (a.totals asset).deposits x) 0)
    rwa [hrest]

/-! ## Custody -/

/-- New totals of a registered asset change what is kept of its token. -/
theorem custody_write {c : AssetConfig} {t : AssetTotals} (hconfig : a.config asset = some c) :
    (a.write user asset x t).custody token = if c.tokenAddress = token then
      fun s => if s = asset then a.custody token s + (t.assets - (a.totals asset).assets)
        else a.custody token s
      else a.custody token := by
  by_cases htoken : c.tokenAddress = token
  · rw [if_pos htoken]
    funext s
    by_cases hs : s = asset
    · subst hs
      simp [AssetPools.custody, AssetPools.write, AssetPools.setTotals, AssetPools.setShares,
        hconfig, htoken]
    · simp [AssetPools.custody, AssetPools.write, AssetPools.setTotals, AssetPools.setShares, hs]
  · rw [if_neg htoken]
    funext s
    by_cases hs : s = asset
    · subst hs
      simp [AssetPools.custody, AssetPools.write, AssetPools.setTotals, AssetPools.setShares,
        hconfig, htoken]
    · simp [AssetPools.custody, AssetPools.write, AssetPools.setTotals, AssetPools.setShares, hs]

theorem finsum_custody_write {c : AssetConfig} {t : AssetTotals} (h : a.Balanced)
    (hconfig : a.config asset = some c) :
    ∑ᶠ s, (a.write user asset x t).custody token s = ∑ᶠ s, a.custody token s +
      if c.tokenAddress = token then t.assets - (a.totals asset).assets else 0 := by
  rw [custody_write hconfig]
  by_cases htoken : c.tokenAddress = token
  · rw [if_pos htoken, if_pos htoken]
    exact (Pool.finsum_add_at h.finite_custody).2
  · rw [if_neg htoken, if_neg htoken, add_zero]

theorem finsum_custody_credited {c : AssetConfig} {minted : Int} (h : a.Balanced)
    (hconfig : a.config asset = some c) :
    ∑ᶠ s, (a.credited user asset amount minted).custody token s =
      ∑ᶠ s, a.custody token s + if c.tokenAddress = token then amount else 0 := by
  refine (finsum_custody_write (x := minted) h hconfig).trans ?_
  rw [add_sub_cancel_left]

theorem finsum_custody_debited {c : AssetConfig} {burned : Int} (h : a.Balanced)
    (hconfig : a.config asset = some c) :
    ∑ᶠ s, (a.debited user asset amount burned).custody token s =
      ∑ᶠ s, a.custody token s - if c.tokenAddress = token then amount else 0 := by
  refine (finsum_custody_write (x := -burned) h hconfig).trans ?_
  split_ifs
  · show _ + ((a.totals asset).assets - amount - (a.totals asset).assets) = _
    omega
  · omega

/-! ## Registrations -/

/-- The registration of one asset changed, not its token unless its pool is empty. -/
structure AssetPools.Relisted (a a' : AssetPools) (asset : Symbol) : Prop where
  shares : a'.shares = a.shares
  totals : a'.totals = a.totals
  others : ∀ s, s ≠ asset → a'.config s = a.config s
  token : (a'.config asset).map AssetConfig.tokenAddress =
    (a.config asset).map AssetConfig.tokenAddress ∨ a.totals asset = {}

/-- Registrations move nothing between the pools and keep what is held for them. -/
theorem AssetPools.Balanced.relisted {a' : AssetPools} (h : a.Balanced)
    (hr : a.Relisted a' asset) : a'.Balanced ∧ a'.custody = a.custody := by
  have hpool : ∀ s, a'.pool s = a.pool s := fun s => by
    unfold AssetPools.pool
    rw [hr.shares, hr.totals]
  have hempty : ∀ s, a'.config s = none → a.config s = none ∨ a.totals s = {} := by
    intro s hs
    by_cases he : s = asset
    · subst he
      rcases hr.token with htoken | hempty
      · rw [hs] at htoken
        exact .inl (Option.map_eq_none_iff.mp htoken.symm)
      · exact .inr hempty
    · rw [hr.others s he] at hs
      exact .inl hs
  constructor
  · refine ⟨fun s => hpool s ▸ h.par s, ?_, ?_, fun s hs => ?_, ?_⟩
    · rw [hr.totals]
      exact h.deposits
    · rw [hr.totals]
      exact h.fits
    · rw [hr.totals]
      rcases hempty s hs with hnone | hz
      · exact h.unregistered s hnone
      · exact hz
    · refine (h.finite.insert asset).subset fun s hs => ?_
      by_cases he : s = asset
      · exact .inl he
      · refine .inr fun hnone => hs ?_
        rw [hr.others s he]
        exact hnone
  · funext token s
    unfold AssetPools.custody
    rw [hr.totals]
    by_cases he : s = asset
    · subst he
      rcases hr.token with htoken | hz
      · rw [htoken]
      · rw [hz, ite_self, ite_self]
    · rw [hr.others s he]

@[simp]
theorem addToIndex_eq : (a.addToIndex asset).config = a.config ∧
    (a.addToIndex asset).shares = a.shares ∧ (a.addToIndex asset).totals = a.totals := by
  unfold AssetPools.addToIndex
  split_ifs
  · exact ⟨rfl, rfl, rfl⟩
  · exact ⟨rfl, rfl, rfl⟩

theorem relisted_add {c : AssetConfig} (h : a.Balanced) (hnone : a.config asset = none) :
    a.Relisted ((a.setConfig asset (some c)).addToIndex asset) asset := by
  obtain ⟨hconfig, hshares, htotals⟩ :=
    @addToIndex_eq (a.setConfig asset (some c)) asset
  refine ⟨hshares, htotals, fun s hs => ?_, .inr (h.unregistered asset hnone)⟩
  rw [hconfig]
  exact if_neg hs

theorem relisted_limits {c c' : AssetConfig} (hconfig : a.config asset = some c)
    (htoken : c'.tokenAddress = c.tokenAddress) :
    a.Relisted (a.setConfig asset (some c')) asset := by
  refine ⟨rfl, rfl, fun s hs => if_neg hs, .inl ?_⟩
  simp [AssetPools.setConfig, hconfig, htoken]

theorem relisted_remove (h : a.Balanced) (hshares : (a.totals asset).shares = 0) :
    a.Relisted (((a.setConfig asset none).setTotals asset {}).removeFromIndex asset) asset := by
  have hempty : a.totals asset = {} := by
    have hassets := h.assets_eq asset
    have hdeposits := h.deposits asset
    rw [hshares] at hassets hdeposits
    cases ht : a.totals asset
    rw [ht] at hshares hassets hdeposits
    simp only at hshares hassets hdeposits
    rw [hshares, hassets, hdeposits]
  refine ⟨rfl, ?_, fun s hs => if_neg hs, .inr hempty⟩
  funext s
  show (if s = asset then {} else a.totals s) = a.totals s
  split_ifs with hs
  · rw [hs, hempty]
  · rfl

/-- The asset administration relists one asset. -/
theorem relisted_of_run {call : Call} {u : Unit} (h : w.assets.Balanced)
    (hcall : call.administersAssets = true) (hok : call.run.Ok env w u w') :
    ∃ s, w.assets.Relisted w'.assets s := by
  cases call
  case addSupportedAsset asset _ _ _ _ =>
    obtain ⟨hnone, hassets⟩ := addSupportedAsset_ok hok
    exact ⟨asset, hassets ▸ relisted_add h hnone⟩
  case updateAssetLimits asset _ _ _ =>
    obtain ⟨c, hconfig, hassets⟩ := updateAssetLimits_ok hok
    exact ⟨asset, hassets ▸ relisted_limits hconfig rfl⟩
  case removeSupportedAsset asset =>
    obtain ⟨hshares, -, hassets⟩ := removeSupportedAsset_ok hok
    exact ⟨asset, hassets ▸ relisted_remove h hshares⟩
  all_goals cases hcall

/-! ## Runs keep the pools balanced -/

/-- At par a withdrawal owes what was asked for. -/
theorem AssetPools.Balanced.owed (h : w.assets.Balanced)
    (hsupply : 0 < (w.assets.totals asset).shares) (hpos : 0 < amount) :
    w.assetsOwed asset amount = amount := by
  unfold World.assetsOwed
  simp only [h.assets_eq]
  rw [Pool.sharesForUp_par hsupply.le hpos.le, Pool.assetsFor_par hsupply]

/-- At par a deposit is credited one share for one. -/
theorem AssetPools.Balanced.depositAsset {u : Unit} (h : w.assets.Balanced)
    (hok : (depositAsset user asset amount).Ok env w u w') :
    w'.assets = w.assets.credited user asset amount amount ∧ w'.assets.Balanced := by
  obtain ⟨c, t0, t, hconfig, -, -, -, hcredit, -, hpos, -⟩ := depositAsset_ok hok
  have hassets := hcredit.assets
  rw [h.assets_eq, Pool.sharesFor_par] at hassets
  refine ⟨hassets, ?_⟩
  rw [hassets]
  exact h.credited hconfig hpos.le hcredit.fits

/-- A withdrawal debits what it pays, and no more than the user asked for. -/
theorem AssetPools.Balanced.withdrawAsset {u : Unit} (h : w.assets.Balanced)
    (hok : (withdrawAsset user asset amount).Ok env w u w') :
    ∃ c actual, w.assets.config asset = some c ∧
      AssetPayout env w w' user c.tokenAddress amount actual ∧
      w'.assets = w.assets.debited user asset actual actual ∧ w'.assets.Balanced := by
  obtain ⟨c, actual, hconfig, hpay, hdebit, -⟩ := withdrawAsset_ok hok
  have hpos := hpay.positive
  have hsupply := hdebit.supply_pos
  have hassets := hdebit.assets
  have hasked := hdebit.asked_le
  rw [h.assets_eq, Pool.sharesForUp_par hsupply.le hpos.le] at hassets
  rw [h.assets_eq, Pool.sharesForUp_par hsupply.le hdebit.positive.le] at hasked
  rw [h.owed hsupply hdebit.positive] at hpay
  have hle : actual ≤ amount := by
    obtain ⟨t0, t1, t2, -, hsource, -⟩ := hpay.steps
    rcases hsource with ⟨-, heq, -⟩ | ⟨-, -, heq⟩
    · exact heq.le
    · exact heq.trans_le (min_le_left _ _)
  refine ⟨c, actual, hconfig, hpay, hassets, ?_⟩
  rw [hassets]
  exact h.debited hconfig hpos.le (hle.trans hasked)

/-- One step of a run. -/
theorem balanced_after (step : Step) (hi : w.Initialized) (h : w.assets.Balanced) :
    (w.after step).assets.Balanced := by
  refine after_cases (P := fun t => t.assets.Balanced) step hi h ?_ ?_
  · rintro env call w' rfl hok heffect
    have hentered : w.entered.assets.Balanced := h
    have hrun := ok_invoke.mp hok
    by_cases hplain : call.isPlain = true
    · rwa [assetsFrame.effect (fun _ _ _ _ _ _ hcalled => hcalled.assets_eq)
        (fun _ hmove => hmove.poolStep.assets) heffect hplain]
    by_cases hadmin : call.administersAssets = true
    · obtain ⟨s, hr⟩ := relisted_of_run hentered hadmin hrun
      exact (hentered.relisted hr).1
    cases call
    case depositAsset => exact (hentered.depositAsset hrun).2
    case withdrawAsset =>
      obtain ⟨-, -, -, -, -, hbalanced⟩ := hentered.withdrawAsset hrun
      exact hbalanced
    case setVenuePool => rwa [(setVenuePool_ok hrun).assets]
    all_goals first
      | exact absurd rfl hplain
      | exact absurd rfl hadmin
  · rintro chain rfl
    exact h

/-- A vault starts without asset pools. -/
theorem World.Fresh.balanced (h : w.Fresh) : w.assets.Balanced := by
  rw [h.assets]
  refine ⟨fun s => ⟨⟨?_, ?_, fun u => le_rfl⟩, rfl⟩, fun s => rfl, fun s => ?_,
    fun s _ => rfl, ?_⟩
  · simp [AssetPools.pool, Function.support]
  · simp [AssetPools.pool]
  · show i128.Fits 0
    decide
  · simp

theorem balanced_of_reaches (h0 : w0.Opened) (h : Reaches (fun _ _ => True) w0 w) :
    w.assets.Balanced ∧ w.Initialized := by
  refine h.invariant (P := fun t => t.assets.Balanced) h0 h0.fresh.balanced ?_
  intro t step _ hi hbalanced
  exact balanced_after step hi hbalanced

/-! ## The ledger -/

/-- The pools are balanced and the vault holds what they keep, of every token but USDC. -/
structure World.AssetLedger (w : World) : Prop where
  balanced : w.assets.Balanced
  covered : ∀ t, w.usdcToken ≠ some t →
    ∑ᶠ s, w.assets.custody t s ≤ w.chain.balances t w.self

/-- The tokens around the vault take nothing from it. -/
def Step.SparesTokens (w : World) : Step → Prop
  | .call env _ => env.TargetSparesTokens w.usdcToken w.self
  | .ambient chain =>
    ∀ t, w.usdcToken ≠ some t → w.chain.balances t w.self ≤ chain.balances t w.self

theorem World.AssetLedger.of_kept (h : w.AssetLedger) (hk : CustodyKept w w') :
    w'.AssetLedger := by
  refine ⟨hk.assets ▸ h.balanced, fun t ht => ?_⟩
  rw [hk.usdcToken] at ht
  rw [hk.assets]
  exact (h.covered t ht).trans (hk.balances t ht)

theorem World.AssetLedger.of_relisted (h : w.AssetLedger)
    (hr : w.assets.Relisted w'.assets asset) (hbook : Rebooked w w' w.book) :
    w'.AssetLedger := by
  obtain ⟨hbalanced, hcustody⟩ := h.balanced.relisted hr
  refine ⟨hbalanced, fun t ht => ?_⟩
  rw [hbook.usdcToken] at ht
  rw [hcustody, hbook.chain, hbook.self]
  exact h.covered t ht

/-- A deposit brings what it credits. -/
theorem World.AssetLedger.depositAsset {u : Unit} (h : w.AssetLedger)
    (hok : (depositAsset user asset amount).Ok env w u w') : w'.AssetLedger := by
  obtain ⟨c, t0, t, hconfig, hq, hpaid, hbook, -, hself, -⟩ := depositAsset_ok hok
  obtain ⟨hassets, hbalanced⟩ := h.balanced.depositAsset hok
  refine ⟨hbalanced, fun token htoken => ?_⟩
  rw [hbook.usdcToken, hpaid.usdcToken, hq.usdcToken] at htoken
  have hcovered := h.covered token htoken
  have hbalance := hpaid.balance_in (hq.self ▸ hself) token
  rw [hq.chain, hq.self] at hbalance
  rw [hassets, finsum_custody_credited h.balanced hconfig, hbook.chain, hbook.self, hbalance]
  omega

/-- What is pulled for a withdrawal is no token but USDC. -/
theorem AssetPayout.balance {owed actual : Int}
    (h : AssetPayout env w w' user token owed actual) {t : Address} (ht : w.usdcToken ≠ some t) :
    w'.chain.balances t w'.self =
      w.chain.balances t w.self - if token = t then actual else 0 := by
  obtain ⟨t0, t1, t2, hq, hsource, hbook, hpaid⟩ := h.steps
  have hmove : FundsMove env t0 t1 := by
    rcases hsource with ⟨-, -, rfl⟩ | ⟨-, hpulled, -⟩
    · exact movesFunds.refl env _
    · exact Pulled.fundsMove (.inr ⟨_, hpulled⟩)
  have hself : t2.self = w.self := by rw [hbook.self, hmove.poolStep.self, hq.self]
  rw [hpaid.balance_out (hself ▸ h.foreign) t, hbook.chain, hbook.self,
    hmove.otherTokens (hq.usdcToken ▸ ht), hq.chain, hq.self]

/-- A withdrawal pays what it debits. -/
theorem World.AssetLedger.withdrawAsset {u : Unit} (h : w.AssetLedger)
    (hok : (withdrawAsset user asset amount).Ok env w u w') : w'.AssetLedger := by
  obtain ⟨c, actual, hconfig, hpay, hassets, hbalanced⟩ := h.balanced.withdrawAsset hok
  refine ⟨hbalanced, fun token htoken => ?_⟩
  rw [hpay.anchored.usdcToken] at htoken
  have hbalance := hpay.balance htoken
  have hcovered := h.covered token htoken
  rw [hassets, finsum_custody_debited h.balanced hconfig, hbalance]
  omega

/-- One step of a run. -/
theorem assetLedger_after (step : Step) (hi : w.Initialized) (hstep : step.SparesTokens w)
    (h : w.AssetLedger) : (w.after step).AssetLedger := by
  refine after_cases (P := World.AssetLedger) step hi h ?_ ?_
  · rintro env call w' rfl hok heffect
    have hentered : w.entered.AssetLedger := ⟨h.balanced, h.covered⟩
    have hrun := ok_invoke.mp hok
    by_cases hplain : call.isPlain = true
    · exact hentered.of_kept (heffect.custodyKept hplain hstep)
    by_cases hadmin : call.administersAssets = true
    · obtain ⟨s, hr⟩ := relisted_of_run hentered.balanced hadmin hrun
      exact hentered.of_relisted hr (rebooked_of_run hadmin hrun)
    cases call
    case depositAsset => exact hentered.depositAsset hrun
    case withdrawAsset => exact hentered.withdrawAsset hrun
    case setVenuePool =>
      have hq := setVenuePool_ok hrun
      exact hentered.of_kept (.of_chain hq.self hq.usdcToken hq.assets hq.chain)
    all_goals first
      | exact absurd rfl hplain
      | exact absurd rfl hadmin
  · rintro chain rfl
    exact ⟨h.balanced, fun t ht => (h.covered t ht).trans (hstep t ht)⟩

theorem World.Fresh.assetLedger (h : w.Fresh)
    (hfunds : ∀ t, w.usdcToken ≠ some t → 0 ≤ w.chain.balances t w.self) : w.AssetLedger := by
  refine ⟨h.balanced, fun t ht => ?_⟩
  have hcustody : ∀ s, w.assets.custody t s = 0 := fun s => by
    rw [h.assets]
    rfl
  simpa only [hcustody, finsum_zero] using hfunds t ht

/-- In every reachable state the totals of a registered asset are the sum of its holdings, nobody
    has shares of an asset that is not registered, and of every token but USDC the vault holds
    what the assets registered on it account for. -/
theorem asset_pools_balanced (h0 : w0.Opened)
    (hfunds : ∀ t, w0.usdcToken ≠ some t → 0 ≤ w0.chain.balances t w0.self)
    (h : Reaches (fun t step => step.SparesTokens t) w0 w) :
    (∀ s c, w.assets.config s = some c →
      (Function.support fun u => w.assets.shares u s).Finite ∧
        ∑ᶠ u, w.assets.shares u s = (w.assets.totals s).shares ∧
        (w.assets.totals s).assets = (w.assets.totals s).shares ∧
        (w.assets.totals s).deposits = (w.assets.totals s).shares) ∧
      (∀ s u, 0 ≤ w.assets.shares u s) ∧
      (∀ s u, w.assets.config s = none → w.assets.shares u s = 0) ∧
      ∀ t, w.usdcToken ≠ some t → (Function.support (w.assets.custody t)).Finite ∧
        ∑ᶠ s, w.assets.custody t s ≤ w.chain.balances t w.self := by
  have hledger : w.AssetLedger := by
    refine (h.invariant (P := World.AssetLedger) h0 (h0.fresh.assetLedger hfunds) ?_).1
    intro t step hstep hi hledger
    exact assetLedger_after step hi hstep hledger
  have hb := hledger.balanced
  refine ⟨fun s c _ => ⟨(hb.par s).finite, (hb.par s).sum, hb.assets_eq s, hb.deposits s⟩,
    fun s u => hb.shares_nonneg u s, fun s u hnone => ?_, fun t ht => ⟨hb.finite_custody, ?_⟩⟩
  · apply hb.shares_eq_zero
    rw [hb.unregistered s hnone]
  · exact hledger.covered t ht

namespace Sample

/-- Bob deposits euros, takes some back, and the owner changes the limits in between. -/
def euroRun : List Step :=
  listEuro ++ [.call honest (.depositAsset bob euro 3000000),
    .call honest (.updateAssetLimits euro 1 0 0), .call honest (.withdrawAsset bob euro 1000000)]

/-- Bob's two remaining euros are on the books and in the vault. -/
theorem euro_pool_balanced :
    ((opened.replay euroRun).assets.totals euro).shares = 2000000 ∧
      (opened.replay euroRun).chain.balances euroToken vault = 2000000 ∧
      ∑ᶠ s, (opened.replay euroRun).assets.custody euroToken s ≤ 2000000 := by
  have hspares : ∀ w : World, honest.TargetSparesTokens w.usdcToken w.self := by
    intro w chain target user amount chain' hsome
    cases hsome
  have hreach : Reaches (fun t step => step.SparesTokens t) opened (opened.replay euroRun) :=
    .of_admits ⟨hspares _, hspares _, hspares _, hspares _, trivial⟩
  have hfunds : ∀ t, opened.usdcToken ≠ some t → 0 ≤ opened.chain.balances t opened.self :=
    fun t _ => le_rfl
  obtain ⟨-, -, -, hcovered⟩ := asset_pools_balanced opened_opened hfunds hreach
  have hbalance : (opened.replay euroRun).chain.balances euroToken vault = 2000000 := by
    decide +kernel
  refine ⟨by decide +kernel, hbalance, ?_⟩
  exact hbalance ▸ (hcovered euroToken (by decide +kernel)).2

end Sample

end NeuroWealth.Vault
