import NeuroWealth.Vault.Proofs.AccountsProofs
import NeuroWealth.Vault.Proofs.LiquidityProofs
import NeuroWealth.Vault.Proofs.RateLimitsProofs
import NeuroWealth.Vault.Properties.Dilution
import NeuroWealth.Vault.Properties.Solvency

/-!
# Withdrawability

In every run through tame pools a holder can withdraw everything in one call, wherever the marker
says that the funds are, as long as the pools pay what they hold.
-/

namespace NeuroWealth.Vault

open Transaction MachineInt SharePool

variable {env : Env} {w w0 w' t : World} {call : Call} {user token : Address} {amount needed : Int}

/-- Pools are tame, none is replaced, no asset pool is used, nobody migrates and no report is
    negative. Between the calls positions only drift, and what leaves the vault's balance is found
    in its positions. -/
def Step.KeepsWithdrawable (w : World) : Step → Prop
  | .call env call => env.TamePools ∧ (Step.call env call).KeepsPools w ∧
      call.isAssetCall = false ∧ call.isMigration = false ∧
      (Step.call env call).ReportsNonNegative
  | .ambient chain => w.chain.Drifts w.self chain ∧
      w.backing ≤ World.backing { w with chain := chain } ∧
      0 ≤ World.idle { w with chain := chain }

/-- The user has calls of the category left in the current window. -/
def World.HasAllowance (w : World) (user : Address) (category : RateLimitCategory) : Prop :=
  (w.rateLimit category).maxCalls = 0 ∨
    (w.running (some user) category).calls < (w.rateLimit category).maxCalls

/-- The products of a full withdrawal are within the type: that of the conversion, and in
    multi-protocol mode that of the split between the venues. -/
structure World.ProductsFit (w : World) (user : Address) : Prop where
  conversion : i128.Fits (w.book.shares user * w.book.assets)
  split : w.deployment.currentProtocol = .multi → w.idle < w.claim user →
    i128.Fits ((w.claim user - w.idle) * w.position .blend)

/-! ## The run -/

theorem Paid.idle_nonneg {sender recipient : Address}
    (h : Paid token w w' sender recipient amount) (htoken : w.usdcToken = some token)
    (hidle : 0 ≤ w.idle) : 0 ≤ w'.idle := by
  have hnonneg := h.nonneg
  have hfunded := h.funded
  rw [idle_eq htoken] at hidle
  rw [idle_eq (h.usdcToken.trans htoken), h.chain, h.self]
  unfold Chain.move Chain.setBalance
  simp only [true_and]
  by_cases hr : w.self = recipient
  · rw [if_pos hr, ← hr]
    split_ifs <;> omega
  · rw [if_neg hr]
    by_cases hs : w.self = sender
    · rw [if_pos hs]
      omega
    · rwa [if_neg hs]

theorem FundsMove.idle_nonneg (h : FundsMove env w w') (hidle : 0 ≤ w.idle) : 0 ≤ w'.idle := by
  induction h with
  | settled h => rwa [h.idle]
  | leg _ h =>
    have hleft := h.idle
    rcases h.affordable with hpaid | htaken
    · omega
    · omega
  | trans _ _ ih1 ih2 => exact ih2 (ih1 hidle)

theorem idleFrame : CallFrame env fun w w' => 0 ≤ w.idle → 0 ≤ w'.idle where
  trans h1 h2 := h2 ∘ h1
  quiet h hidle := by rwa [h.settled.idle]
  pulled h := h.fundsMove.idle_nonneg
  accounting h hidle := by rwa [h.idle]
  locks _ _ hidle := hidle
  paid htoken h := h.idle_nonneg htoken

/-- No call but a migration or an asset call overdraws the vault. -/
theorem Effect.idle_nonneg (h : Effect env w w' call) (hasset : call.isAssetCall = false)
    (hmig : call.isMigration = false) (hidle : 0 ≤ w.idle) : 0 ≤ w'.idle := by
  by_cases hplain : call.isPlain = true
  · exact idleFrame.effect (fun hyes => absurd hyes (Bool.eq_false_iff.mp hmig))
      (fun _ hmove => hmove.idle_nonneg) h hplain hidle
  cases h with
  | depositAsset => cases hasset
  | withdrawAsset => cases hasset
  | setVenuePool h =>
    rw [h.settled.idle]
    exact hidle
  | assets _ h =>
    have hsame : w'.idle = w.idle := by
      unfold World.idle
      rw [h.usdcToken, h.chain, h.self]
    rwa [hsame]
  | quiet _ h => rwa [h.settled.idle]
  | funds _ h => exact h.idle_nonneg hidle
  | _ => exact absurd rfl hplain

/-- What a holder needs of the vault: the marker tells where the funds are, they cover the total,
    and the book is sound. -/
structure World.Withdrawable (w : World) : Prop where
  truthful : w.Truthful
  backed : w.Backed
  sound : w.book.Sound
  idle : 0 ≤ w.idle

theorem Chain.Drifts.le {vault : Address} {c c' : Chain} (h : c.Drifts vault c') (v : Venue)
    (p : Address) : c.positions v p vault ≤ c'.positions v p vault := by
  rcases h v p with hsame | ⟨-, hle⟩
  · exact hsame.ge
  · exact hle

theorem Step.KeepsWithdrawable.keepsBacking {step : Step} (h : step.KeepsWithdrawable w) :
    step.KeepsBacking w := by
  cases step with
  | ambient chain => exact ⟨h.1.le, h.2.1⟩
  | call env call =>
    obtain ⟨hpools, hkeeps, hasset, hmig, -⟩ := h
    exact ⟨hpools.exact, fun hyes => absurd hyes (Bool.eq_false_iff.mp hmig), hkeeps, hasset⟩

theorem Step.KeepsWithdrawable.reports {step : Step} (h : step.KeepsWithdrawable w) :
    step.ReportsNonNegative := by
  cases step with
  | ambient chain => trivial
  | call env call => exact h.2.2.2.2

theorem withdrawable_after (step : Step) (hi : w.Initialized) (hw : w.Withdrawable)
    (hstep : step.KeepsWithdrawable w) : (w.after step).Withdrawable := by
  have hbacked := backed_after step hi hw.backed hstep.keepsBacking
  have hsound : (w.after step).book.Sound := by
    refine after_cases (P := fun t => t.book.Sound) step hi hw.sound ?_ ?_
    · rintro env call w' rfl _ heffect
      exact heffect.sound hstep.reports hw.sound
    · intro chain _
      exact hw.sound
  have hidle : 0 ≤ (w.after step).idle := by
    refine after_cases (P := fun t => 0 ≤ t.idle) step hi hw.idle ?_ ?_
    · rintro env call w' rfl _ heffect
      obtain ⟨-, -, hasset, hmig, -⟩ := hstep
      exact heffect.idle_nonneg hasset hmig hw.idle
    · rintro chain rfl
      exact hstep.2.2
  refine ⟨?_, hbacked, hsound, hidle⟩
  refine after_cases (P := World.Truthful) step hi hw.truthful ?_ ?_
  · rintro env call w' rfl hok _
    obtain ⟨hpools, hkeeps, -, hmig, -⟩ := hstep
    have hentered : w.entered.Truthful := hw.truthful.of_same rfl rfl rfl
    exact truthful_run (w := w.entered) hi hentered hpools
      (fun hyes => absurd hyes (Bool.eq_false_iff.mp hmig)) hkeeps (ok_invoke.mp hok)
  · rintro chain rfl
    exact hw.truthful.of_drifts hstep.1

theorem withdrawable_of_reaches (h0 : w0.Opened) (hidle : 0 ≤ w0.idle) (hnone : w0.NeverDeployed)
    (h : Reaches (fun t step => step.KeepsWithdrawable t) w0 w) : w.Withdrawable ∧ w.Initialized := by
  have hopened : w0.Withdrawable :=
    ⟨h0.truthful hnone, h0.backed hidle fun v p => (hnone v p).ge, h0.fresh.sound, hidle⟩
  exact h.invariant h0 hopened fun _ step hstep hi hw => withdrawable_after step hi hw hstep

/-! ## The withdrawal -/

/-- The venues the marker names hold what is missing, so it arrives. -/
theorem pull_succeeds (hw : w.Truthful) (hpaying : env.PayingPools)
    (htoken : w.usdcToken = some token) (hactive : w.deployment.currentProtocol.isActive = true)
    (hpos : 0 < needed) (hle : needed ≤ w.position .blend + w.position .dex)
    (hfits : i128.Fits needed)
    (hproduct : w.deployment.currentProtocol = .multi →
      i128.Fits (needed * w.position .blend)) :
    ∃ x w', (withdrawAmountFromProtocol w.deployment.currentProtocol needed 0).Ok env w x w' ∧
      PoolStep w w' ∧ w'.idle = w.idle + needed := by
  have hsingle : ∀ venue : Venue, w.deployment.currentProtocol = venue.protocol →
      needed ≤ w.position venue → ∃ x w', (withdrawFromVenue venue needed 0).Ok env w x w' ∧
        PoolStep w w' ∧ w'.idle = w.idle + needed := by
    intro venue _ hheld
    obtain ⟨x, w', hrun, hd⟩ := withdrawFromVenue_succeeds hpaying htoken hpos hheld
    exact ⟨x, w', hrun, hd.frame, hd.idle⟩
  cases hmarker : w.deployment.currentProtocol with
  | none =>
    rw [hmarker] at hactive
    cases hactive
  | other s =>
    rw [hmarker] at hactive
    cases hactive
  | blend =>
    have honly : w.OnlyAt .blend := hw.onlyAt hmarker
    have hdex : w.position .dex = 0 := honly .dex (by decide)
    exact hsingle .blend hmarker (by omega)
  | dex =>
    have honly : w.OnlyAt .dex := hw.onlyAt hmarker
    have hblend : w.position .blend = 0 := honly .blend (by decide)
    exact hsingle .dex hmarker (by omega)
  | multi =>
    exact withdrawProportionally_succeeds hpaying htoken hpos
      (fun v => hw.toGrounded.position_nonneg v) hle hfits (hproduct hmarker)

/-- A claim is covered by the total, and within the type if the product behind it is. -/
theorem World.Withdrawable.claim_bounds (hw : w.Withdrawable) (hfits : w.ProductsFit user) :
    0 ≤ w.claim user ∧ w.claim user ≤ w.book.assets ∧ i128.Fits (w.claim user) := by
  have hA := hw.sound.assets_nonneg
  have hshares := hw.sound.conserved.nonneg user
  have hnonneg : 0 ≤ w.claim user := Pool.claim_nonneg hw.sound.conserved hA
  have hproduct : w.claim user ≤ w.book.shares user * w.book.assets :=
    Int.ediv_le_self _ (mul_nonneg hshares hA)
  refine ⟨hnonneg, ?_, fits_of_le hnonneg hproduct hfits.conversion⟩
  have hvalue : w.claim user = Pool.assetsFor w.book.totalShares w.book.assets (w.book.shares user) :=
    Pool.claim_eq_assetsFor hw.sound.conserved hA
  rw [hvalue]
  exact Pool.assetsFor_le hw.sound.supply_nonneg hA hshares (hw.sound.shares_le user)

/-- A pull of what is missing from the claim of a holder. -/
theorem World.Withdrawable.pull (hw : w.Withdrawable) (hpaying : env.PayingPools)
    (htoken : w.usdcToken = some token) (hactive : w.deployment.currentProtocol.isActive = true)
    (hmissing : w.idle < w.claim user) (hfits : w.ProductsFit user) :
    ∃ x w', (withdrawAmountFromProtocol w.deployment.currentProtocol (w.claim user - w.idle) 0).Ok
        env w x w' ∧ PoolStep w w' ∧ w'.idle = w.claim user := by
  have hidle := hw.idle
  have hcovered := hw.backed.covered
  obtain ⟨-, hclaim, hclaim_fits⟩ := hw.claim_bounds hfits
  unfold World.backing at hcovered
  have hneeded : 0 < w.claim user - w.idle := by omega
  obtain ⟨x, w', hrun, hstep, hafter⟩ := pull_succeeds hw.truthful hpaying htoken hactive hneeded
    (by omega) (fits_of_le hneeded.le (by omega) hclaim_fits)
    (fun hmulti => hfits.split hmulti hmissing)
  exact ⟨x, w', hrun, hstep, by omega⟩

/-- A holder's claim is settled in full. -/
theorem settleWithdrawAll_succeeds {s : Int} (hw : w.Withdrawable) (hpaying : env.PayingPools)
    (htoken : w.usdcToken = some token) (hfits : w.ProductsFit user) :
    ∃ w', (settleWithdrawAll token (w.claim user) s).Ok env w (w.claim user, s) w' ∧
      PoolStep w w' ∧ w.claim user ≤ w'.idle := by
  have hheld := idle_eq htoken
  simp only [settleWithdrawAll, Tx.ok_bind, Tx.ok_get, existsAndEq, true_and]
  by_cases hactive : w.deployment.currentProtocol.isActive = true
  · rw [if_pos hactive]
    simp only [Tx.ok_bind, ok_vaultBalance, existsAndEq, true_and, ← hheld]
    by_cases hmissing : w.idle < w.claim user
    · obtain ⟨x, w', hrun, hstep, hafter⟩ := hw.pull hpaying htoken hactive hmissing hfits
      obtain ⟨-, -, hclaim_fits⟩ := hw.claim_bounds hfits
      have hidle := hw.idle
      have hneeded : i128.Fits (w.claim user - w.idle) :=
        fits_of_le (by omega) (by omega) hclaim_fits
      have hafter' : w'.chain.balances token w'.self = w.claim user := by
        rw [← idle_eq (hstep.usdcToken.trans htoken), hafter]
      refine ⟨w', ?_, hstep, hafter.ge⟩
      rw [if_pos hmissing]
      refine Tx.ok_bind.mpr ⟨w.claim user, w', ?_, ?_⟩
      · simp only [pullMissing, Tx.ok_bind, ok_checkedSub, ok_vaultBalance, existsAndEq, and_assoc,
          true_and, and_true]
        exact ⟨hneeded, x, hrun, hafter'.symm⟩
      · unfold settleAfterPull
        rw [if_neg (lt_irrefl _)]
        exact Tx.ok_pure.mpr ⟨rfl, rfl⟩
    · refine ⟨w, ?_, poolStep.refl env w, not_lt.mp hmissing⟩
      rw [if_neg hmissing]
      exact Tx.ok_pure.mpr ⟨rfl, rfl⟩
  · have hmarker : w.deployment.currentProtocol = .none := by
      cases hp : w.deployment.currentProtocol with
      | none => rfl
      | other s => exact absurd hp (hw.truthful.marker.known s)
      | _ =>
        rw [hp] at hactive
        exact absurd rfl hactive
    have hundeployed := hw.truthful.undeployed hmarker
    have hcovered := hw.backed.covered
    obtain ⟨-, hclaim, -⟩ := hw.claim_bounds hfits
    unfold World.backing at hcovered
    rw [hundeployed .blend, hundeployed .dex] at hcovered
    refine ⟨w, ?_, poolStep.refl env w, by omega⟩
    rw [if_neg hactive]
    exact Tx.ok_pure.mpr ⟨rfl, rfl⟩

/-- Shares within the book are burned for an amount within the balance. -/
theorem payOut_succeeds {userShares totalShares totalAssets burned : Int}
    (htoken : w.usdcToken = some token) (hshares : i128.Fits (userShares - burned))
    (hsupply : i128.Fits (totalShares - burned)) (hassets : i128.Fits (totalAssets - amount))
    (hnonneg : 0 ≤ amount) (hfunded : amount ≤ w.idle) :
    ∃ w', (payOut user token userShares totalShares totalAssets amount burned).Ok env w () w' := by
  rw [idle_eq htoken] at hfunded
  simp only [payOut, Tx.ok_bind, Tx.ok_get, ok_checkedSub, ok_setUserShares, ok_setTotalShares,
    ok_setTotalAssets, ok_reduceTotalDepositsOnWithdraw, ok_transfer, existsAndEq, exists_const,
    and_assoc, true_and]
  exact ⟨hshares, hsupply, hassets, hnonneg, hfunded, trivial⟩

theorem enforceRateLimit_succeeds (hallowed : w.HasAllowance user .withdraw) :
    ∃ b, (enforceUserRateLimit user .withdraw).Ok env w () { w with buckets := b } := by
  by_cases henabled : (w.rateLimit .withdraw).maxCalls = 0
  · refine ⟨w.buckets, ?_⟩
    simp only [enforceUserRateLimit, enforceRateLimit, Tx.ok_bind, ok_getRateLimitConfigInternal,
      Tx.ok_get, existsAndEq, true_and, if_pos henabled, Tx.ok_pure, and_true]
    rfl
  · have hcalls := hallowed.resolve_left henabled
    exact ⟨_, (ok_enforceRateLimit rfl henabled).mpr ⟨hcalls, rfl⟩⟩

/-- `withdraw_all` of a holder without a lock goes through. -/
theorem withdrawAll_succeeds (hi : w.Initialized) (hw : w.Withdrawable)
    (hpaying : env.PayingPools) (hauth : user ∈ env.auths) (hself : user ≠ w.self)
    (hlive : w.breaker.paused = false) (hlock : w.locks.lockedShares user = 0)
    (hallowed : w.HasAllowance user .withdraw) (hclaim : 0 < w.claim user)
    (hfits : w.ProductsFit user) :
    ∃ x w', (withdrawAll user).Ok env w x w' := by
  have hA := hw.sound.assets_nonneg
  have hshares_nonneg : 0 ≤ w.book.shares user := hw.sound.conserved.nonneg user
  have hle := hw.sound.shares_le user
  obtain ⟨-, hcovered, hclaim_fits⟩ := hw.claim_bounds hfits
  have hApos : 0 < w.book.assets := hclaim.trans_le hcovered
  have hspos : 0 < w.book.shares user := by
    rcases hshares_nonneg.eq_or_lt with hz | hpos
    · have hnone : w.claim user = w.book.shares user * w.book.assets / w.book.totalShares := rfl
      rw [← hz, zero_mul, Int.zero_ediv] at hnone
      omega
    · exact hpos
  have hSpos : 0 < w.book.totalShares := hspos.trans_le hle
  have hassets_fits : i128.Fits w.book.assets := by
    apply fits_of_le hA _ hfits.conversion
    exact le_mul_of_one_le_left hA hspos
  have hvalue : w.claim user = Pool.assetsFor w.book.totalShares w.book.assets (w.book.shares user) :=
    Pool.claim_eq_assetsFor hw.sound.conserved hA
  have hquotient : (w.book.shares user * w.book.assets).tdiv w.book.totalShares = w.claim user :=
    Int.tdiv_eq_ediv_of_nonneg (mul_nonneg hshares_nonneg hA)
  have hconvertible : Convertible (w.book.shares user) w.book.assets w.book.totalShares := by
    intro _ _ _
    rw [hquotient]
    exact ⟨hfits.conversion, hclaim_fits⟩
  obtain ⟨token, htoken⟩ := Option.isSome_iff_exists.mp hi.2.1
  obtain ⟨b, htoll⟩ :
      ∃ b, (enforceUserRateLimit user .withdraw).Ok env w () { w with buckets := b } :=
    enforceRateLimit_succeeds hallowed
  let w1 : World := { w with buckets := b }
  have hw1 : w1.Withdrawable :=
    ⟨hw.truthful.of_same rfl rfl rfl, ⟨hw.backed.positions, hw.backed.stored, hw.backed.covered⟩,
      hw.sound, hw.idle⟩
  have hfits1 : w1.ProductsFit user := ⟨hfits.conversion, hfits.split⟩
  have htoken1 : w1.usdcToken = some token := htoken
  obtain ⟨w2, hsettle, hstep, hfunded⟩ := settleWithdrawAll_succeeds (w := w1)
    (s := w.book.shares user) hw1 hpaying htoken1 hfits1
  have hself2 : i128.Fits (w.book.shares user - w.book.shares user) := by
    rw [sub_self]
    decide
  have hsupply2 : i128.Fits (w.book.totalShares - w.book.shares user) :=
    fits_of_le (by omega) (by omega) hw.sound.fits
  have hassets2 : i128.Fits (w.book.assets - w.claim user) :=
    fits_of_le (by omega) (by omega) hassets_fits
  obtain ⟨w3, hpay⟩ : ∃ w3, (payOut user token (w.book.shares user) w.book.totalShares
      w.book.assets (w.claim user) (w.book.shares user)).Ok env w2 () w3 :=
    payOut_succeeds (hstep.usdcToken.trans htoken1) hself2 hsupply2 hassets2 hclaim.le hfunded
  apply Tx.exists_ok_bind (a := ()) (ok_requireInitialized.mpr ⟨hi, rfl⟩)
  apply Tx.exists_ok_bind (a := ()) (ok_requireAuth.mpr ⟨⟨hauth, hself⟩, rfl⟩)
  apply Tx.exists_ok_bind (a := ()) (ok_requireNotPaused.mpr ⟨hlive, rfl⟩)
  apply Tx.exists_ok_bind htoll
  apply Tx.exists_ok_bind (Tx.ok_get.mpr ⟨rfl, rfl⟩)
  have hunlocked : (sharesToWithdrawAll (w1.book.shares user) (w1.locks.lockedShares user)).Ok
      env w1 (w.book.shares user) w1 := by
    have hnone : w1.locks.lockedShares user = 0 := hlock
    unfold sharesToWithdrawAll
    rw [hnone, if_neg (lt_irrefl _)]
    exact Tx.ok_pure.mpr ⟨rfl, rfl⟩
  have hconvert : (convertToAssetsInternal (w.book.shares user)).Ok env w1 (w.claim user) w1 :=
    convertToAssetsAt_ok_iff.mpr ⟨⟨hvalue, hconvertible⟩, rfl⟩
  apply Tx.exists_ok_bind hunlocked
  apply Tx.exists_ok_bind (ok_getUsdcToken.mpr ⟨htoken1, rfl⟩)
  apply Tx.exists_ok_bind (a := ()) (Tx.ok_require.mpr ⟨hspos, rfl⟩)
  apply Tx.exists_ok_bind (ok_getTotalSharesInternal.mpr ⟨rfl, rfl⟩)
  apply Tx.exists_ok_bind (ok_getTotalAssetsInternal.mpr ⟨rfl, rfl⟩)
  apply Tx.exists_ok_bind (a := ()) (Tx.ok_require.mpr ⟨⟨hSpos, hApos⟩, rfl⟩)
  apply Tx.exists_ok_bind hconvert
  apply Tx.exists_ok_bind hsettle
  apply Tx.exists_ok_bind (a := ()) (Tx.ok_require.mpr ⟨hclaim, rfl⟩)
  apply Tx.exists_ok_bind (a := ()) (Tx.ok_require.mpr ⟨hspos, rfl⟩)
  apply Tx.exists_ok_bind hpay
  exact Tx.exists_ok_bind (a := ()) (ok_publish.mpr rfl) Tx.exists_ok_pure

/-- It pays the whole claim for all shares: a pull that succeeds never falls short. -/
theorem withdrawAll_whole_claim {x : Int} (hw : w.Withdrawable) (hpaying : env.PayingPools)
    (hi : w.Initialized) (hlock : w.locks.lockedShares user = 0) (hfits : w.ProductsFit user)
    (h : (withdrawAll user).Ok env w x w') :
    Withdrawal env w w' user (w.claim user) (w.book.shares user) := by
  have hunlocked : w.unlockedShares user = w.book.shares user := by
    unfold World.unlockedShares
    rw [hlock, if_neg (lt_irrefl _)]
  have hentitled : w.entitlement user = w.claim user := by
    unfold World.entitlement
    rw [hunlocked]
    exact (Pool.claim_eq_assetsFor hw.sound.conserved hw.sound.assets_nonneg).symm
  obtain ⟨burned, hwithdrawal, -, hvalue, -⟩ := withdrawAll_ok h
  rcases hvalue with ⟨hpaid, hburned⟩ | ⟨t0, t, hq, hshort⟩
  · rwa [hpaid, hburned, hentitled, hunlocked] at hwithdrawal
  · exfalso
    obtain ⟨token, htoken⟩ := Option.isSome_iff_exists.mp hi.2.1
    have hidle0 : t0.idle = w.idle := hq.settled.idle
    have hentitled0 : t0.entitlement user = w.claim user := by
      rw [← hentitled]
      unfold World.entitlement World.unlockedShares
      rw [hq.book, hq.locks]
    have hclaim0 : t0.claim user = w.claim user := by
      unfold World.claim
      rw [hq.book]
    have hw0 : t0.Withdrawable := by
      refine ⟨?_, hq.backed hw.backed, ?_, ?_⟩
      · exact hw.truthful.of_same hq.self hq.deployment (by rw [hq.chain])
      · rw [hq.book]
        exact hw.sound
      · rw [hidle0]
        exact hw.idle
    have hfits0 : t0.ProductsFit user := by
      refine ⟨?_, fun hmulti hmissing => ?_⟩
      · rw [hq.book]
        exact hfits.conversion
      · rw [hq.deployment] at hmulti
        rw [hclaim0, hidle0] at hmissing ⊢
        rw [hq.settled.position]
        exact hfits.split hmulti hmissing
    obtain ⟨hactive, hneeded, y, hpull⟩ := hshort.pulled
    have hlt := hshort.short
    have hdelivered := hshort.delivered
    rw [hentitled0, ← hclaim0] at hpull hneeded hlt
    obtain ⟨z, t', hrun, -, hwhole⟩ :=
      hw0.pull hpaying (hq.usdcToken.trans htoken) hactive (by omega) hfits0
    obtain ⟨-, rfl⟩ := hrun.unique hpull
    omega

/-- In every run through tame pools, a user without a lock who has a positive claim and a call
    left withdraws all of it from an unpaused vault, whatever the marker is. -/
theorem withdrawable (h0 : w0.Opened) (hidle : 0 ≤ w0.idle) (hnone : w0.NeverDeployed)
    (h : Reaches (fun t step => step.KeepsWithdrawable t) w0 w) (hpaying : env.PayingPools)
    (hauth : user ∈ env.auths) (hself : user ≠ w.self) (hlive : w.breaker.paused = false)
    (hlock : w.locks.lockedShares user = 0) (hallowed : w.HasAllowance user .withdraw)
    (hclaim : 0 < w.claim user) (hfits : w.ProductsFit user) :
    ∃ w', (invoke (.withdrawAll user)).Ok env w () w' ∧
      w'.PaidOnce w.self user (w.claim user) ∧ w'.book.shares user = 0 := by
  obtain ⟨hw, hi⟩ := withdrawable_of_reaches h0 hidle hnone h
  have hw1 : w.entered.Withdrawable :=
    ⟨hw.truthful.of_same rfl rfl rfl, ⟨hw.backed.positions, hw.backed.stored, hw.backed.covered⟩,
      hw.sound, hw.idle⟩
  have hfits1 : w.entered.ProductsFit user := ⟨hfits.conversion, hfits.split⟩
  obtain ⟨x, w', hrun⟩ := withdrawAll_succeeds (w := w.entered) hi hw1 hpaying hauth hself hlive
    hlock hallowed hclaim hfits1
  have hwithdrawal := withdrawAll_whole_claim (w := w.entered) hw1 hpaying hi hlock hfits1 hrun
  refine ⟨w', ?_, ?_, ?_⟩
  · apply ok_invoke.mpr
    exact Tx.ok_bind.mpr ⟨x, w', hrun, Tx.ok_pure.mpr ⟨rfl, rfl⟩⟩
  · have hself' : w'.self = w.self := hwithdrawal.anchored.self
    rw [← hself']
    exact hwithdrawal.paidOnce rfl
  · have hburned := hwithdrawal.shares.1
    rw [hburned]
    exact sub_self _

namespace Sample

theorem tame_payingPools : tame.PayingPools := by
  intro c hc hkind hle
  have hanswer : tame.pool c = some ⟨min c.amount c.position, c.position - min c.amount c.position⟩ := by
    show tamePool c = _
    unfold tamePool
    rw [hkind]
  exact ⟨_, hanswer, min_eq_left hle⟩

theorem spread_withdrawable : ∃ w',
    (invoke (.withdrawAll alice)).Ok tame (opened.replay spread) () w' ∧
      w'.PaidOnce (opened.replay spread).self alice ((opened.replay spread).claim alice) ∧
      w'.book.shares alice = 0 := by
  have hreach : Reaches (fun t step => step.KeepsWithdrawable t) opened (opened.replay spread) := by
    refine .of_admits ⟨⟨tame_tamePools, trivial, rfl, rfl, trivial⟩, ⟨tame_tamePools, ?_, rfl, rfl,
      trivial⟩, ⟨tame_tamePools, ?_, rfl, rfl, trivial⟩, ⟨tame_tamePools, trivial, rfl, rfl, trivial⟩,
      ⟨tame_tamePools, trivial, rfl, rfl, trivial⟩, trivial⟩
    · intro p hp
      cases hp
    · intro p hp
      cases hp
  refine withdrawable opened_opened (by decide +kernel) opened_neverDeployed hreach
    tame_payingPools (by decide +kernel) (by decide +kernel) (by decide +kernel)
    (by decide +kernel) (.inr (by decide +kernel)) (by decide +kernel) ⟨by decide +kernel, ?_⟩
  intro _ _
  decide +kernel

end Sample

end NeuroWealth.Vault
