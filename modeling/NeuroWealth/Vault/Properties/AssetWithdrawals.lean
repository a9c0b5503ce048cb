import NeuroWealth.Vault.Properties.AssetLedger
import NeuroWealth.Vault.Properties.Withdrawability

/-!
# Withdrawals of an asset kept in USDC

`withdraw_asset` pulls from a single marked venue and from no other: USDC that is deployed in both
venues at once is out of its reach.
-/

namespace NeuroWealth.Vault

open Transaction MachineInt SharePool

variable {env : Env} {w w' w0 t : World} {user token : Address} {asset : Symbol} {amount x : Int}
variable {venue : Venue}

/-! ## Pools that pay exactly what is asked -/

/-- A withdrawal that the position covers is paid in full, and none is paid beyond the position. -/
structure Env.PaysExactly (env : Env) : Prop where
  full : env.PayingPools
  capped : ∀ (c : PoolCall) r, c.kind = .withdraw → env.pool c = some r → r.moved ≤ max c.position 0

/-- The idle balance, or with it the position of the one venue the marker names, covers an
    amount. -/
def World.WithinReach (w : World) (amount : Int) : Prop :=
  amount ≤ w.idle ∨
    ∃ v : Venue, w.deployment.currentProtocol = v.protocol ∧ amount ≤ w.idle + w.position v

theorem Quiet.withinReach (h : Quiet w t) : t.WithinReach amount ↔ w.WithinReach amount := by
  unfold World.WithinReach
  simp only [h.deployment, h.settled.idle, h.settled.position]

/-! ## Liquidity -/

/-- An amount within reach is found. -/
theorem availableForAsset_succeeds (hpools : env.PaysExactly) (htoken : w.usdcToken = some token)
    (hidle : 0 ≤ w.idle) (hfits : i128.Fits amount) (hreach : w.WithinReach amount) :
    ∃ t, (availableForAsset token amount).Ok env w amount t ∧ PoolStep w t ∧ amount ≤ t.idle := by
  have hheld : w.chain.balances token w.self = w.idle := (idle_eq htoken).symm
  by_cases hcovered : amount ≤ w.idle
  · refine ⟨w, ?_, poolStep.refl env w, hcovered⟩
    unfold availableForAsset
    refine Tx.ok_bind.mpr ⟨w, w, Tx.ok_get.mpr ⟨rfl, rfl⟩, ?_⟩
    simp only [Tx.ok_ite, Tx.ok_bind, ok_vaultBalance, hheld, existsAndEq, true_and, Tx.ok_pure,
      and_true]
    by_cases hsingle : w.deployment.currentProtocol = .blend ∨ w.deployment.currentProtocol = .dex
    · exact .inl ⟨hsingle, .inr (not_lt.mpr hcovered)⟩
    · exact .inr hsingle
  · obtain ⟨v, hmarker, hle⟩ := hreach.resolve_left hcovered
    have hneeded : i128.Fits (amount - w.idle) := fits_of_le (by omega) (by omega) hfits
    have hmissing : 0 < amount - w.idle := by omega
    have hposition : amount - w.idle ≤ w.position v := by omega
    obtain ⟨y, t, hrun, hdelivered⟩ :=
      withdrawFromVenue_succeeds hpools.full htoken hmissing hposition
    have hleft : t.idle = amount := by
      rw [hdelivered.idle]
      omega
    have hpull : (withdrawAmountFromProtocol v.protocol (amount - w.idle) 0).Ok env w y t := by
      cases v with
      | blend => exact hrun
      | dex => exact hrun
    have hsingle : w.deployment.currentProtocol = .blend ∨ w.deployment.currentProtocol = .dex := by
      rw [hmarker]
      cases v with
      | blend => exact .inl rfl
      | dex => exact .inr rfl
    refine ⟨t, ?_, hdelivered.frame, hleft.ge⟩
    unfold availableForAsset
    refine Tx.ok_bind.mpr ⟨w, w, Tx.ok_get.mpr ⟨rfl, rfl⟩, ?_⟩
    rw [if_pos hsingle]
    refine Tx.ok_bind.mpr ⟨w.idle, w, ok_vaultBalance.mpr ⟨hheld.symm, rfl⟩, ?_⟩
    rw [if_pos (not_le.mp hcovered), hmarker]
    refine Tx.ok_bind.mpr ⟨_, w, ok_checkedSub.mpr ⟨⟨rfl, hneeded⟩, rfl⟩, ?_⟩
    refine Tx.ok_bind.mpr ⟨y, t, hpull, ?_⟩
    refine Tx.ok_bind.mpr ⟨t.idle, t, ok_vaultBalance.mpr ⟨?_, rfl⟩, Tx.ok_pure.mpr ⟨?_, rfl⟩⟩
    · exact idle_eq (hdelivered.frame.usdcToken.trans htoken)
    · rw [hleft, min_self]

/-- A pull leaves as much as was asked for exactly when that is within reach. -/
theorem pulled_covers_iff (hpools : env.PaysExactly) (htoken : w.usdcToken = some token)
    (hpulls : w.PullsFor token amount)
    (hpulled : PulledFor env w t (amount - w.chain.balances token w.self)) :
    amount ≤ t.idle ↔ w.WithinReach amount := by
  obtain ⟨v, hmarker⟩ : ∃ v : Venue, w.deployment.currentProtocol = v.protocol := by
    rcases hpulls.1 with hblend | hdex
    · exact ⟨.blend, hblend⟩
    · exact ⟨.dex, hdex⟩
  obtain ⟨-, hneeded, y, hrun⟩ := hpulled
  rw [← idle_eq htoken] at hneeded hrun
  have hvenue : (withdrawFromVenue v (amount - w.idle) 0).Ok env w y t := by
    rw [hmarker] at hrun
    cases v with
    | blend => exact hrun
    | dex => exact hrun
  have hasked : w.asked v (amount - w.idle) = amount - w.idle := if_neg hneeded.ne'
  rcases withdrawFromVenue_ok hvenue with ⟨hnone, -⟩ | ⟨-, reply, hleg, -⟩
  · rw [hasked] at hnone
    omega
  rw [hasked] at hleg
  have hidle : t.idle = w.idle - -reply.moved := hleg.idle
  constructor
  · intro hleft
    obtain ⟨pool, -, hanswer⟩ := hleg.answered
    have hmoved : reply.moved ≤ max (w.position v) 0 := hpools.capped _ _ rfl hanswer
    exact .inr ⟨v, hmarker, by omega⟩
  · intro hreach
    obtain ⟨v', hmarker', hle⟩ := hreach.resolve_left (by omega)
    obtain rfl : v = v' := Venue.protocol_injective (hmarker.symm.trans hmarker')
    have hmoved := hleg.paid hpools.full hneeded (by omega)
    omega

/-! ## The call -/

/-- What a withdrawal of an asset needs besides liquidity: the guards pass, the asset is kept in
    USDC, and the amount is no more than the holding is worth. -/
structure World.MayWithdrawAsset (w : World) (env : Env) (user : Address) (asset : Symbol)
    (amount : Int) : Prop where
  signed : user ∈ env.auths
  foreign : user ≠ w.self
  live : w.breaker.paused = false
  allowed : w.HasAllowance user .withdraw
  inUsdc : ∃ c, w.assets.config asset = some c ∧ w.usdcToken = some c.tokenAddress
  positive : 0 < amount
  within : amount ≤ Pool.assetsFor (w.assets.totals asset).shares (w.assets.totals asset).assets
    (w.assets.shares user asset)
  idle : 0 ≤ w.idle

/-- The conversion of the amount into shares of the asset's pool stays within the type. -/
def World.AssetConvertible (w : World) (asset : Symbol) (amount : Int) : Prop :=
  i128.Fits (amount * (w.assets.totals asset).shares + ((w.assets.totals asset).assets - 1))

/-- At par an amount costs as many shares, if the conversion stays within the type. -/
theorem convertCeil_par (h : w.assets.Balanced) (hsupply : 0 < (w.assets.totals asset).shares)
    (hpos : 0 < amount) :
    (convertToAssetSharesInternalCeil asset amount).Ok env w x t ↔
      (x = amount ∧ w.AssetConvertible asset amount) ∧ t = w := by
  have hassets : 0 < (w.assets.totals asset).assets := h.assets_eq asset ▸ hsupply
  simp only [convertToAssetSharesInternalCeil, Tx.ok_bind, ok_readAssetTotals, existsAndEq,
    true_and]
  rw [convertToSharesCeilAt_ok_iff hsupply hassets hpos, h.assets_eq,
    Pool.sharesForUp_par hsupply.le hpos.le]
  unfold World.AssetConvertible
  rw [h.assets_eq]

/-- What the holder of an asset at par may take. -/
theorem World.MayWithdrawAsset.within_shares (h : w.MayWithdrawAsset env user asset amount)
    (hb : w.assets.Balanced) :
    0 < (w.assets.totals asset).shares ∧ amount ≤ w.assets.shares user asset := by
  have hwithin := h.within
  have hpos := h.positive
  have hle : w.assets.shares user asset ≤ (w.assets.totals asset).shares :=
    (hb.par asset).shares_le user
  by_cases hsupply : 0 < (w.assets.totals asset).shares
  · rw [hb.assets_eq, Pool.assetsFor_par hsupply] at hwithin
    exact ⟨hsupply, hwithin⟩
  · have hzero : w.assets.shares user asset = 0 := by
      have hnonneg := hb.shares_nonneg user asset
      omega
    rw [hzero] at hwithin
    unfold Pool.assetsFor at hwithin
    rw [if_pos rfl] at hwithin
    omega

theorem withdrawAsset_reaches (hpools : env.PaysExactly) (hi : w.Initialized)
    (hb : w.assets.Balanced) (h : w.MayWithdrawAsset env user asset amount)
    (hfits : w.AssetConvertible asset amount) (hreach : w.WithinReach amount) :
    ∃ u w', (withdrawAsset user asset amount).Ok env w u w' := by
  obtain ⟨c, hconfig, htoken⟩ := h.inUsdc
  obtain ⟨hsupply, hheld⟩ := h.within_shares hb
  have hpos := h.positive
  have hassets : 0 < (w.assets.totals asset).assets := hb.assets_eq asset ▸ hsupply
  have hamount_fits : i128.Fits amount := by
    apply fits_of_le hpos.le _ hfits
    have hone : amount ≤ amount * (w.assets.totals asset).shares :=
      le_mul_of_one_le_right hpos.le hsupply
    omega
  obtain ⟨b, htoll⟩ :
      ∃ b, (enforceUserRateLimit user .withdraw).Ok env w () { w with buckets := b } :=
    enforceRateLimit_succeeds h.allowed
  let w1 : World := { w with buckets := b }
  have hq : Quiet w w1 := ⟨rfl, rfl, rfl, rfl, rfl, rfl, rfl, rfl, rfl, id, rfl⟩
  have htoken1 : w1.usdcToken = some c.tokenAddress := htoken
  have hconfig1 : w1.assets.config asset = some c := hconfig
  have hceil : (convertToAssetSharesInternalCeil asset amount).Ok env w1 amount w1 :=
    (convertCeil_par (w := w1) hb hsupply hpos).mpr ⟨⟨rfl, hfits⟩, rfl⟩
  obtain ⟨t, havailable, hstep, hleft⟩ := availableForAsset_succeeds (w := w1) hpools htoken1
    h.idle hamount_fits (hq.withinReach.mpr hreach)
  have hfloor : (convertToAssetAssetsInternal asset amount).Ok env w1 amount w1 := by
    refine Tx.ok_bind.mpr ⟨_, w1, ok_readAssetTotals.mpr ⟨rfl, rfl⟩, ?_⟩
    refine convertToAssetsAt_ok_iff.mpr ⟨⟨?_, fun _ _ _ => ?_⟩, rfl⟩
    · show amount = Pool.assetsFor (w.assets.totals asset).shares (w.assets.totals asset).assets amount
      rw [hb.assets_eq, Pool.assetsFor_par hsupply]
    · show i128.Fits (amount * (w.assets.totals asset).assets) ∧
        i128.Fits ((amount * (w.assets.totals asset).assets).tdiv (w.assets.totals asset).shares)
      have hproduct : i128.Fits (amount * (w.assets.totals asset).shares) := by
        refine fits_of_le (mul_nonneg hpos.le hsupply.le) ?_ hfits
        omega
      rw [hb.assets_eq, Int.mul_tdiv_cancel _ hsupply.ne']
      exact ⟨hproduct, hamount_fits⟩
  have hsame : t.assets = w.assets := hstep.assets
  have hfinal : (convertToAssetSharesInternalCeil asset amount).Ok env t amount t := by
    refine (convertCeil_par (hsame ▸ hb) (hsame ▸ hsupply) hpos).mpr ⟨⟨rfl, ?_⟩, rfl⟩
    unfold World.AssetConvertible
    rw [hsame]
    exact hfits
  apply Tx.exists_ok_bind (a := ()) (ok_requireInitialized.mpr ⟨hi, rfl⟩)
  apply Tx.exists_ok_bind (a := ()) (ok_requireAuth.mpr ⟨⟨h.signed, h.foreign⟩, rfl⟩)
  apply Tx.exists_ok_bind (a := ()) (ok_requireNotPaused.mpr ⟨h.live, rfl⟩)
  apply Tx.exists_ok_bind (a := ()) (ok_requirePositiveAmount.mpr ⟨hpos, rfl⟩)
  apply Tx.exists_ok_bind htoll
  apply Tx.exists_ok_bind (ok_getAssetConfigOr.mpr ⟨hconfig1, rfl⟩)
  apply Tx.exists_ok_bind (Tx.ok_get.mpr ⟨rfl, rfl⟩)
  apply Tx.exists_ok_bind (a := ()) (Tx.ok_require.mpr ⟨hpos.trans_le hheld, rfl⟩)
  apply Tx.exists_ok_bind (ok_readAssetTotals.mpr ⟨rfl, rfl⟩)
  apply Tx.exists_ok_bind (a := ()) (Tx.ok_require.mpr ⟨⟨hsupply, hassets⟩, rfl⟩)
  apply Tx.exists_ok_bind hceil
  apply Tx.exists_ok_bind (a := ()) (Tx.ok_require.mpr ⟨hpos, rfl⟩)
  apply Tx.exists_ok_bind (a := ()) (Tx.ok_require.mpr ⟨hheld, rfl⟩)
  apply Tx.exists_ok_bind hfloor
  apply Tx.exists_ok_bind havailable
  apply Tx.exists_ok_bind (a := ()) (Tx.ok_require.mpr ⟨hpos, rfl⟩)
  apply Tx.exists_ok_bind hfinal
  have hshares_fit : i128.Fits (w.assets.shares user asset - amount) ∧
      i128.Fits ((w.assets.totals asset).shares - amount) ∧
      i128.Fits ((w.assets.totals asset).assets - amount) := by
    have htotal : i128.Fits (w.assets.totals asset).shares := hb.deposits asset ▸ hb.fits asset
    have hle : w.assets.shares user asset ≤ (w.assets.totals asset).shares :=
      (hb.par asset).shares_le user
    rw [hb.assets_eq]
    exact ⟨fits_of_le (by omega) (by omega) htotal, fits_of_le (by omega) (by omega) htotal,
      fits_of_le (by omega) (by omega) htotal⟩
  have hfunded : amount ≤ t.chain.balances c.tokenAddress t.self := by
    rwa [idle_eq (hstep.usdcToken.trans htoken1)] at hleft
  obtain ⟨hfit1, hfit2, hfit3⟩ := hshares_fit
  have hself : w1.self = t.self := hstep.self.symm
  simp only [settleAssetWithdraw, Tx.ok_bind, ok_checkedSub, ok_setAssetShares, ok_setAssetTotals,
    ok_reduceGlobalTotalsOnWithdraw, ok_transfer, ok_publish, existsAndEq, exists_const, and_assoc,
    true_and]
  rw [hself]
  exact ⟨hfit1, hfit2, hfit3, hpos.le, hfunded, trivial⟩

/-- A withdrawal that goes through has converted the amount. -/
theorem assetConvertible_of_ok {u : Unit} (hb : w.assets.Balanced)
    (h : (withdrawAsset user asset amount).Ok env w u w') : w.AssetConvertible asset amount := by
  simp only [withdrawAsset, Tx.ok_bind, Tx.ok_get, ok_requireInitialized, ok_requireAuth,
    ok_requireNotPaused, ok_requirePositiveAmount, ok_getAssetConfigOr, ok_readAssetTotals,
    Tx.ok_require, existsAndEq, exists_const, and_assoc, true_and] at h
  obtain ⟨-, -, -, -, hpos, _, t0, hrate, c, -, -, hsupply, -, x, t1, hceil, -⟩ := h
  have hq : Quiet w t0 := quiet_enforceRateLimit hrate
  obtain ⟨⟨-, hfits⟩, -⟩ := (convertCeil_par (hq.assets ▸ hb) hsupply hpos).mp hceil
  unfold World.AssetConvertible at hfits ⊢
  rwa [← hq.assets]

/-- An amount that is owed is paid in full exactly when it is within reach. -/
theorem AssetPayout.full_iff {actual : Int} (hpools : env.PaysExactly)
    (htoken : w.usdcToken = some token) (hnone : w.transfers = [])
    (h : AssetPayout env w w' user token amount actual) :
    w'.PaidOnce w'.self user amount ↔ w.WithinReach amount := by
  obtain ⟨t0, t1, t2, hq, hsource, hbook, hmove⟩ := h.steps
  have hstep : PoolStep t0 t1 := by
    rcases hsource with ⟨-, -, rfl⟩ | ⟨-, hpulled, -⟩
    · exact poolStep.refl env _
    · exact Pulled.poolStep (.inr ⟨_, hpulled⟩)
  have htoken0 : t0.usdcToken = some token := hq.usdcToken.trans htoken
  have htoken1 : t1.usdcToken = some token := hstep.usdcToken.trans htoken0
  have hpaid : w'.PaidOnce w'.self user amount ↔ actual = amount := by
    have htransfers : w'.transfers = [⟨token, w'.self, user, actual⟩] := by
      rw [hmove.transfers, hbook.transfers, hstep.transfers, hq.transfers, hnone, hmove.self]
      rfl
    constructor
    · rintro ⟨token', -, hsame⟩
      rw [htransfers] at hsame
      injection hsame with hfirst
      injection hfirst
    · rintro rfl
      exact ⟨token, by rw [hmove.usdcToken, hbook.usdcToken, htoken1], htransfers⟩
  rw [hpaid, ← hq.withinReach]
  rcases hsource with ⟨hpulls, hall, rfl⟩ | ⟨hpulls, hpulled, hactual⟩
  · have hfunded := hmove.funded
    rw [hbook.chain, hbook.self, ← idle_eq htoken1, hall] at hfunded
    exact ⟨fun _ => .inl hfunded, fun _ => hall⟩
  · rw [← pulled_covers_iff hpools htoken0 hpulls hpulled, hactual, ← idle_eq htoken1]
    exact min_eq_left_iff

/-- In every reachable state a withdrawal of an asset kept in USDC, of no more than the holding is
    worth, pays the amount exactly when the idle balance, or with it the position of the single
    venue the marker names, covers it and the conversion stays within the type. -/
theorem withdrawAsset_pays_iff (h0 : w0.Opened) (hrun : Reaches (fun _ _ => True) w0 w)
    (hpools : env.PaysExactly) (h : w.MayWithdrawAsset env user asset amount) :
    (∃ w', (invoke (.withdrawAsset user asset amount)).Ok env w () w' ∧
        w'.PaidOnce w'.self user amount) ↔
      w.AssetConvertible asset amount ∧ w.WithinReach amount := by
  obtain ⟨hb, hi⟩ := balanced_of_reaches h0 hrun
  obtain ⟨c, hconfig, htoken⟩ := h.inUsdc
  have hentered : w.entered.MayWithdrawAsset env user asset amount :=
    ⟨h.signed, h.foreign, h.live, h.allowed, h.inUsdc, h.positive, h.within, h.idle⟩
  have hfull : ∀ {u w'}, (withdrawAsset user asset amount).Ok env w.entered u w' →
      (w'.PaidOnce w'.self user amount ↔ w.WithinReach amount) := by
    intro u w' hcall
    obtain ⟨c', actual, hconfig', hpay, -⟩ := hb.withdrawAsset (w := w.entered) hcall
    obtain rfl : c = c' := Option.some.inj (hconfig.symm.trans hconfig')
    exact AssetPayout.full_iff (w := w.entered) hpools htoken rfl hpay
  constructor
  · rintro ⟨w', hok, hpaid⟩
    have hcall := ok_invoke.mp hok
    exact ⟨assetConvertible_of_ok (w := w.entered) hb hcall, (hfull hcall).mp hpaid⟩
  · rintro ⟨hfits, hreach⟩
    obtain ⟨u, w', hcall⟩ :=
      withdrawAsset_reaches (w := w.entered) hpools hi hb hentered hfits hreach
    exact ⟨w', ok_invoke.mpr hcall, (hfull hcall).mpr hreach⟩

namespace Sample

theorem tame_paysExactly : tame.PaysExactly := by
  refine ⟨tame_payingPools, fun c r hkind hanswer => ?_⟩
  have hr : tamePool c = some r := hanswer
  unfold tamePool at hr
  simp only [hkind, Option.some.injEq] at hr
  subst hr
  exact (min_le_right _ _).trans (le_max_left _ _)

/-- Bob's deposit of an asset that is kept in USDC. -/
def keptInUsdc : List Step :=
  [.call tame (.addSupportedAsset euro usdc 0 0 0), .call tame (.depositAsset bob euro 3000000),
    .call tame (.setVenuePool .blend owner blendPool),
    .call tame (.setVenuePool .dex owner dexPool)]

/-- All of it lies in Blend. -/
def keptInBlend : World := opened.replay (keptInUsdc ++ [.call tame (.rebalance .blend 0 0)])

/-- It is split between the two venues. -/
def keptInBoth : World :=
  opened.replay (keptInUsdc ++ [.call tame (.enableMultiProtocol true),
    .call tame (.rebalanceMulti 5000 5000 0)])

theorem keptInBlend_pays :
    (∃ w', (invoke (.withdrawAsset bob euro 1000000)).Ok tame keptInBlend () w' ∧
        w'.PaidOnce w'.self bob 1000000) ↔
      keptInBlend.AssetConvertible euro 1000000 ∧ keptInBlend.WithinReach 1000000 := by
  have hreach : Reaches (fun _ _ => True) opened keptInBlend :=
    .of_admits ⟨trivial, trivial, trivial, trivial, trivial, trivial⟩
  refine withdrawAsset_pays_iff opened_opened hreach tame_paysExactly ?_
  exact ⟨by decide +kernel, by decide +kernel, by decide +kernel, .inr (by decide +kernel),
    ⟨⟨usdc, 0, 0, 0⟩, by decide +kernel, by decide +kernel⟩, by decide, by decide +kernel,
    by decide +kernel⟩

/-- With both venues funded bob gets nothing of his holding, although the positions cover it. -/
theorem keptInBoth_out_of_reach :
    opened.Opened ∧ Reaches (fun _ _ => True) opened keptInBoth ∧ tame.PaysExactly ∧
      keptInBoth.MayWithdrawAsset tame bob euro 1000000 ∧
      1000000 ≤ keptInBoth.idle + keptInBoth.position .blend + keptInBoth.position .dex ∧
      ¬ ∃ w', (invoke (.withdrawAsset bob euro 1000000)).Ok tame keptInBoth () w' := by
  have hreach : Reaches (fun _ _ => True) opened keptInBoth :=
    .of_admits ⟨trivial, trivial, trivial, trivial, trivial, trivial, trivial⟩
  refine ⟨opened_opened, hreach, tame_paysExactly, ⟨by decide +kernel, by decide +kernel,
    by decide +kernel, .inr (by decide +kernel),
    ⟨⟨usdc, 0, 0, 0⟩, by decide +kernel, by decide +kernel⟩, by decide, by decide +kernel,
    by decide +kernel⟩, by decide +kernel, ?_⟩
  rintro ⟨w', h⟩
  have hfails : (invoke (.withdrawAsset bob euro 1000000)).succeeds tame keptInBoth = false := by
    decide +kernel
  rw [Tx.succeeds_of_ok h] at hfails
  cases hfails

end Sample

end NeuroWealth.Vault
