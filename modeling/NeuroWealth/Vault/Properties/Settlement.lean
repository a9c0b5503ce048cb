import NeuroWealth.Vault.Properties.Payouts
import NeuroWealth.Vault.Properties.Withdrawability

/-!
# The settlement of `withdraw_all`

`withdraw_all` pays the entitlement of a user, or what is on hand after a pull that fell short, for
the fewest shares worth it, and reverts only when there is nothing to pay.
-/

namespace NeuroWealth.Vault

open Transaction MachineInt SharePool

variable {env : Env} {w w' t : World} {user token : Address} {entitled s x : Int}

/-- What `withdraw_all` is to pay. -/
def World.payable (w : World) (env : Env) (user : Address) : Int :=
  if w.deployment.currentProtocol.isActive = true then
    min (w.entitlement user) (w.onHand env (w.entitlement user))
  else w.entitlement user

/-! ## The settlement -/

/-- A pull fell short of the entitlement. -/
def World.FallsShort (w : World) (env : Env) (entitled : Int) : Prop :=
  w.deployment.currentProtocol.isActive = true ∧ w.onHand env entitled < entitled

instance : Decidable (w.FallsShort env entitled) := inferInstanceAs (Decidable (_ ∧ _))

/-- What is paid and burned for an entitlement `entitled` of `s` shares. -/
def World.settlement (w : World) (env : Env) (entitled s : Int) : Int × Int :=
  if w.FallsShort env entitled then
    (w.onHand env entitled,
      Pool.sharesForUp w.book.totalShares w.book.assets (w.onHand env entitled))
  else (entitled, s)

theorem settlement_short (h : w.FallsShort env entitled) :
    w.settlement env entitled s = (w.onHand env entitled,
      Pool.sharesForUp w.book.totalShares w.book.assets (w.onHand env entitled)) :=
  if_pos h

theorem settlement_covered (h : ¬ w.FallsShort env entitled) :
    w.settlement env entitled s = (entitled, s) :=
  if_neg h

theorem Quiet.settlement (h : Quiet w t) :
    t.settlement env entitled s = w.settlement env entitled s := by
  have hshort : t.FallsShort env entitled ↔ w.FallsShort env entitled := by
    unfold World.FallsShort
    rw [h.deployment, h.onHand]
  by_cases hw : w.FallsShort env entitled
  · rw [settlement_short hw, settlement_short (hshort.mpr hw), h.onHand, h.book]
  · rw [settlement_covered hw, settlement_covered fun ht => hw (hshort.mp ht)]

/-- Without a pull nothing falls short of what the idle balance covers. -/
theorem World.FallsShort.missing (h : w.FallsShort env entitled) : w.idle < entitled := by
  obtain ⟨-, hshort⟩ := h
  unfold World.onHand at hshort
  split_ifs at hshort with hpull
  · exact hpull.2
  · exact hshort

theorem settleWithdrawAll_settles {paid : Int × Int} (htoken : w.usdcToken = some token)
    (hlegs : w.legs = 0) (h : (settleWithdrawAll token entitled s).Ok env w paid t) :
    Pulled env w t ∧ t.idle = w.onHand env entitled ∧ paid = w.settlement env entitled s := by
  have hheld : w.chain.balances token w.self = w.idle := (idle_eq htoken).symm
  simp only [settleWithdrawAll, settleAfterPull, Tx.ok_bind, Tx.ok_get, Tx.ok_ite, ok_vaultBalance,
    Tx.ok_require, Tx.ok_pure, existsAndEq, exists_const, and_assoc, true_and, and_true, hheld] at h
  rcases h with ⟨hactive, ⟨hmissing, a, t, hpull, hsettle⟩ | ⟨hcovered, rfl, rfl⟩⟩ |
    ⟨hinactive, rfl, rfl⟩
  · obtain ⟨hpulled, hidle, rfl⟩ := pullMissing_onHand htoken hlegs hactive hmissing hpull
    rcases hsettle with ⟨hshort, hpos, b, hconv, hpaid⟩ | ⟨hfull, hpaid, rfl⟩
    · obtain ⟨rfl, rfl⟩ := ok_convertToSharesInternalCeil hconv
      rw [hidle] at hshort hpaid
      rw [hpulled.poolStep.book] at hpaid
      rw [settlement_short ⟨hactive, hshort⟩]
      exact ⟨hpulled, hidle, hpaid⟩
    · rw [hidle] at hfull
      rw [settlement_covered fun hshort => hfull hshort.2]
      exact ⟨hpulled, hidle, hpaid⟩
  · rw [settlement_covered fun hshort => hcovered hshort.missing]
    exact ⟨.inl rfl, (onHand_idle fun h => hcovered h.2).symm, rfl⟩
  · rw [settlement_covered fun hshort => hinactive hshort.1]
    exact ⟨.inl rfl, (onHand_idle fun h => hinactive h.1).symm, rfl⟩

/-- The pull for an entitlement goes through. -/
def World.PullSucceeds (w : World) (env : Env) (entitled : Int) : Prop :=
  w.deployment.currentProtocol.isActive = true → w.idle < entitled →
    ∃ x t, (withdrawAmountFromProtocol w.deployment.currentProtocol (entitled - w.idle) 0).Ok
      env w x t

/-- A settlement goes through after a pull that leaves something to pay. -/
theorem settleWithdrawAll_reaches (htoken : w.usdcToken = some token) (hlegs : w.legs = 0)
    (hS : 0 < w.book.totalShares) (hA : 0 < w.book.assets) (hidle : 0 ≤ w.idle)
    (htyped : i128.Fits entitled) (hpull : w.PullSucceeds env entitled)
    (hshort : w.FallsShort env entitled →
      0 < w.onHand env entitled ∧ w.book.Convertible (w.onHand env entitled)) :
    ∃ t, (settleWithdrawAll token entitled s).Ok env w (w.settlement env entitled s) t := by
  have hheld : w.chain.balances token w.self = w.idle := (idle_eq htoken).symm
  have hpulled : w.deployment.currentProtocol.isActive = true → w.idle < entitled →
      ∃ x t, (pullMissing w.deployment.currentProtocol token entitled w.idle).Ok env w x t := by
    intro hactive hmissing
    obtain ⟨x, t, hrun⟩ := hpull hactive hmissing
    refine ⟨t.chain.balances token t.self, t, ?_⟩
    simp only [pullMissing, Tx.ok_bind, ok_checkedSub, ok_vaultBalance, existsAndEq, and_assoc,
      true_and, and_true]
    exact ⟨fits_of_le (by omega) (by omega) htyped, x, hrun⟩
  simp only [settleWithdrawAll, Tx.ok_bind, Tx.ok_get, existsAndEq, true_and]
  by_cases hactive : w.deployment.currentProtocol.isActive = true
  · rw [if_pos hactive]
    simp only [Tx.ok_bind, ok_vaultBalance, existsAndEq, true_and, hheld]
    by_cases hmissing : w.idle < entitled
    · rw [if_pos hmissing]
      obtain ⟨x, t, hrun⟩ := hpulled hactive hmissing
      obtain ⟨hany, hleft, rfl⟩ := pullMissing_onHand htoken hlegs hactive hmissing hrun
      refine ⟨t, Tx.ok_bind.mpr ⟨t.idle, t, hrun, ?_⟩⟩
      unfold settleAfterPull
      rw [hleft]
      by_cases hless : w.onHand env entitled < entitled
      · obtain ⟨hpos, hfits⟩ := hshort ⟨hactive, hless⟩
        rw [if_pos hless, settlement_short ⟨hactive, hless⟩]
        refine Tx.ok_bind.mpr ⟨(), t, Tx.ok_require.mpr ⟨hpos, rfl⟩, ?_⟩
        refine Tx.ok_bind.mpr ⟨_, t, ?_, Tx.ok_pure.mpr ⟨rfl, rfl⟩⟩
        have hbook : t.book = w.book := hany.poolStep.book
        apply (convertToSharesCeilAt_ok_iff (hbook ▸ hS) (hbook ▸ hA) hpos).mpr
        rw [hbook]
        exact ⟨⟨rfl, hfits⟩, rfl⟩
      · rw [if_neg hless, settlement_covered fun h => hless h.2]
        exact Tx.ok_pure.mpr ⟨rfl, rfl⟩
    · refine ⟨w, ?_⟩
      rw [if_neg hmissing, settlement_covered fun h => hmissing h.missing]
      exact Tx.ok_pure.mpr ⟨rfl, rfl⟩
  · refine ⟨w, ?_⟩
    rw [if_neg hactive, settlement_covered fun h => hactive h.1]
    exact Tx.ok_pure.mpr ⟨rfl, rfl⟩

/-- A settlement pays what is payable, and burns no more shares than there are. -/
theorem settlement_payable :
    (w.settlement env (w.entitlement user) s).1 = w.payable env user := by
  unfold World.payable
  by_cases hshort : w.FallsShort env (w.entitlement user)
  · rw [settlement_short hshort, if_pos hshort.1]
    exact (min_eq_right hshort.2.le).symm
  · rw [settlement_covered hshort]
    by_cases hactive : w.deployment.currentProtocol.isActive = true
    · rw [if_pos hactive]
      exact (min_eq_left (not_lt.mp fun hlt => hshort ⟨hactive, hlt⟩)).symm
    · rw [if_neg hactive]

theorem settlement_burned_le (hS : 0 < w.book.totalShares) (hA : 0 < w.book.assets)
    (hs : 0 ≤ w.unlockedShares user)
    (hpos : 0 < (w.settlement env (w.entitlement user) (w.unlockedShares user)).1) :
    (w.settlement env (w.entitlement user) (w.unlockedShares user)).2 ≤ w.unlockedShares user := by
  by_cases hshort : w.FallsShort env (w.entitlement user)
  · rw [settlement_short hshort] at hpos ⊢
    exact burn_le_unlocked hS hA hpos hs hshort.2.le
  · rw [settlement_covered hshort]

/-! ## What a successful call does -/

/-- `withdraw_all` paid what was payable and burned what that costs. -/
structure SettledInFull (env : Env) (w w' : World) (user : Address) (paid burned : Int) : Prop where
  paid_eq : paid = w.payable env user
  positive : 0 < paid
  funded : paid ≤ w.onHand env (w.entitlement user)
  transferred : w'.PaidOnce w'.self user paid
  shares : w'.book.shares user = w.book.shares user - burned
  supply : w'.book.totalShares = w.book.totalShares - burned
  assets : w'.book.assets = w.book.assets - paid
  burned_le : burned ≤ w.unlockedShares user
  whole : paid = w.entitlement user → burned = w.unlockedShares user
  least : paid ≠ w.entitlement user →
    IsLeast {b | paid ≤ Pool.assetsFor w.book.totalShares w.book.assets b} burned

theorem withdrawAll_settled {paid : Int} (hlegs : w.legs = 0) (hnone : w.transfers = [])
    (h : (withdrawAll user).Ok env w paid w') :
    ∃ burned, SettledInFull env w w' user paid burned := by
  obtain ⟨burned, hwithdrawal, -⟩ := withdrawAll_ok h
  simp only [withdrawAll, Tx.ok_bind, Tx.ok_get, ok_requireInitialized, ok_requireAuth,
    ok_requireNotPaused, Tx.ok_require, ok_getUsdcToken, ok_getTotalSharesInternal,
    ok_getTotalAssetsInternal, Tx.ok_pure, existsAndEq, exists_const, and_assoc, true_and,
    and_true] at h
  obtain ⟨-, -, hself, -, _, t0, hrate, s, t1, hs, token, htoken, hspos, hS, hA, e, t2, hvalue,
    p, t3, hsettle, hppos, hbpos, _, t4, hpay, _, hpub, rfl⟩ := h
  have h0 : Quiet w t0 := quiet_enforceRateLimit hrate
  obtain ⟨hs, rfl⟩ := sharesToWithdrawAll_ok hs
  obtain ⟨he, rfl⟩ := ok_convertToAssetsInternal hvalue
  have hunlocked : s = w.unlockedShares user := by
    rw [hs, h0.locks, h0.book]
    rfl
  have hentitled : e = w.entitlement user := by
    rw [he, hunlocked, h0.book]
    rfl
  rw [h0.book] at hS hA
  rw [hunlocked] at hspos
  obtain ⟨hpull, hleft, hp⟩ := settleWithdrawAll_settles htoken (h0.legs.trans hlegs) hsettle
  have hstep := hpull.poolStep
  have hbook : t3.book = w.book := hstep.book.trans h0.book
  have hsettled : t2.settlement env e s = w.settlement env (w.entitlement user)
      (w.unlockedShares user) := by
    rw [hentitled, hunlocked, h0.settlement]
  rw [hsettled] at hp
  rw [← hstep.book] at hpay
  obtain ⟨-, t, hdebit, hpaid⟩ := payOut_ok hpay
  have hpayable : p.1 = w.payable env user := by rw [hp, settlement_payable]
  have hburned_le : p.2 ≤ w.unlockedShares user := by
    rw [hp] at hppos ⊢
    exact settlement_burned_le hS hA hspos.le hppos
  have hsame : burned = p.2 := by
    have hshares := hwithdrawal.shares.1
    have hafter : t4.book.shares user = t3.book.shares user - p.2 := by
      rw [hpaid.book, hdebit.book]
      exact if_pos rfl
    have hquiet : Quiet t4 _ := quiet_publish rfl hpub
    rw [hquiet.book, hafter, hbook] at hshares
    omega
  have hbookAfter := hwithdrawal.terms.2
  rw [hsame] at hbookAfter hwithdrawal
  have hfunded : p.1 ≤ w.onHand env (w.entitlement user) := by
    have hpaid_funded := hpaid.funded
    rw [← hdebit.accounting.self, ← idle_eq (hdebit.accounting.usdcToken.trans
      (hstep.usdcToken.trans htoken)), hdebit.accounting.idle, hleft, h0.onHand, hentitled]
      at hpaid_funded
    exact hpaid_funded
  refine ⟨p.2, hpayable, hppos, hfunded, hwithdrawal.paidOnce hnone, hwithdrawal.shares.1, ?_, ?_,
    hburned_le, ?_, ?_⟩
  · rw [hbookAfter]
    rfl
  · rw [hbookAfter]
    rfl
  · intro hfull
    have hcovered : ¬ w.FallsShort env (w.entitlement user) := by
      intro hshort
      rw [hp, settlement_short hshort] at hfull
      exact absurd hfull hshort.2.ne
    rw [hp, settlement_covered hcovered]
  · intro hpartial
    have hshort : w.FallsShort env (w.entitlement user) := by
      by_contra hcovered
      apply hpartial
      rw [hp, settlement_covered hcovered]
    have hburned : p.2 = Pool.sharesForUp w.book.totalShares w.book.assets p.1 := by
      rw [hp, settlement_short hshort]
    rw [hburned]
    exact Pool.isLeast_sharesForUp hS hA hppos

/-! ## When the call reverts -/

/-- The user may settle now: the guards pass, there are totals and unlocked shares, the amounts are
    within the type, and a pull goes through whatever the rate limiter records. -/
structure World.MaySettle (w : World) (env : Env) (user : Address) : Prop where
  initialized : w.Initialized
  signed : user ∈ env.auths
  foreign : user ≠ w.self
  live : w.breaker.paused = false
  allowed : w.HasAllowance user .withdraw
  unlocked : 0 < w.unlockedShares user
  supply_pos : 0 < w.book.totalShares
  assets_pos : 0 < w.book.assets
  idle : 0 ≤ w.idle
  shares_fit : i128.Fits (w.book.shares user)
  supply_fits : i128.Fits w.book.totalShares
  product : i128.Fits (w.unlockedShares user * w.book.assets)
  partialProduct : w.FallsShort env (w.entitlement user) →
    w.book.Convertible (w.onHand env (w.entitlement user))
  pull : ∀ b, World.PullSucceeds { w with buckets := b } env (w.entitlement user)

theorem World.MaySettle.entitlement_bounds (h : w.MaySettle env user) :
    0 ≤ w.entitlement user ∧ i128.Fits (w.entitlement user) := by
  have hnonneg : 0 ≤ w.entitlement user :=
    Pool.assetsFor_nonneg h.supply_pos.le h.assets_pos.le h.unlocked.le
  have hvalue : w.entitlement user * w.book.totalShares ≤ w.unlockedShares user * w.book.assets :=
    Pool.assetsFor_mul_le h.supply_pos.le h.assets_pos.le h.unlocked.le
  have hle : w.entitlement user ≤ w.entitlement user * w.book.totalShares :=
    le_mul_of_one_le_right hnonneg h.supply_pos
  exact ⟨hnonneg, fits_of_le hnonneg (hle.trans hvalue) h.product⟩

/-- A pull that goes through leaves no negative balance. -/
theorem World.MaySettle.onHand_nonneg (h : w.MaySettle env user) (hlegs : w.legs = 0) :
    0 ≤ w.onHand env (w.entitlement user) := by
  by_cases hpull : w.deployment.currentProtocol.isActive = true ∧ w.idle < w.entitlement user
  · obtain ⟨x, t, hrun⟩ := h.pull w.buckets hpull.1 hpull.2
    have hpulled : PulledFor env w t (w.entitlement user - w.idle) :=
      ⟨hpull.1, by omega, x, hrun⟩
    have hleft := hpulled.delivery hlegs
    have hnonneg := (Pulled.fundsMove (.inr ⟨_, hpulled⟩)).idle_nonneg h.idle
    unfold World.onHand
    rw [if_pos hpull]
    omega
  · rw [onHand_idle hpull]
    exact h.idle

/-- Whatever is payable is covered once the idle balance covers what no pull can add to. -/
theorem payable_le_onHand
    (hcovered : ¬ w.deployment.currentProtocol.isActive = true → w.entitlement user ≤ w.idle) :
    w.payable env user ≤ w.onHand env (w.entitlement user) := by
  unfold World.payable
  by_cases hactive : w.deployment.currentProtocol.isActive = true
  · rw [if_pos hactive]
    exact min_le_right _ _
  · rw [if_neg hactive, onHand_idle fun h => hactive h.1]
    exact hcovered hactive

theorem World.MaySettle.sharesToWithdrawAll {t : World} (h : w.MaySettle env user)
    (hbook : t.book = w.book) (hlocks : t.locks = w.locks) :
    (sharesToWithdrawAll (t.book.shares user) (t.locks.lockedShares user)).Ok env t
      (w.unlockedShares user) t := by
  have hpos := h.unlocked
  rw [hbook, hlocks]
  unfold Vault.sharesToWithdrawAll
  unfold World.unlockedShares at hpos ⊢
  by_cases hlock : 0 < w.locks.lockedShares user
  · rw [if_pos hlock] at hpos ⊢
    rw [if_pos hlock]
    simp only [Tx.ok_bind, ok_nativeSub, Tx.ok_require, Tx.ok_pure, existsAndEq, exists_const,
      and_assoc, true_and, and_true]
    exact ⟨fits_of_le hpos.le (by omega) h.shares_fit, hpos.ne'⟩
  · rw [if_neg hlock, if_neg hlock]
    exact Tx.ok_pure.mpr ⟨rfl, rfl⟩

/-- What a settlement pays and burns is positive and leaves the book within the type. -/
theorem World.MaySettle.settlement_fits (h : w.MaySettle env user)
    (hpos : 0 < w.payable env user) :
    let paid := w.settlement env (w.entitlement user) (w.unlockedShares user)
    (0 < paid.1 ∧ 0 < paid.2) ∧ i128.Fits (w.book.shares user - paid.2) ∧
      i128.Fits (w.book.totalShares - paid.2) ∧ i128.Fits (w.book.assets - paid.1) := by
  have hamount : (w.settlement env (w.entitlement user) (w.unlockedShares user)).1 =
      w.payable env user := settlement_payable
  have hburned_pos : 0 < (w.settlement env (w.entitlement user) (w.unlockedShares user)).2 := by
    by_cases hless : w.FallsShort env (w.entitlement user)
    · rw [settlement_short hless] at hamount ⊢
      exact Pool.sharesForUp_pos h.supply_pos h.assets_pos (by omega)
    · rw [settlement_covered hless]
      exact h.unlocked
  have hburned_le : (w.settlement env (w.entitlement user) (w.unlockedShares user)).2 ≤
      w.unlockedShares user :=
    settlement_burned_le h.supply_pos h.assets_pos h.unlocked.le (by rwa [hamount])
  have hunlocked_le : w.unlockedShares user ≤ w.book.shares user := by
    unfold World.unlockedShares
    split_ifs <;> omega
  have hpayable_le : w.payable env user ≤ w.entitlement user := by
    rw [← hamount]
    by_cases hless : w.FallsShort env (w.entitlement user)
    · rw [settlement_short hless]
      exact hless.2.le
    · rw [settlement_covered hless]
  obtain ⟨hent_nonneg, hent_fits⟩ := h.entitlement_bounds
  have hassets_fit : i128.Fits w.book.assets := by
    apply fits_of_le h.assets_pos.le _ h.product
    exact le_mul_of_one_le_left h.assets_pos.le h.unlocked
  generalize w.settlement env (w.entitlement user) (w.unlockedShares user) = p at *
  have hwide : i128.least + i128.greatest ≤ 0 := by decide
  have hleast := i128.least_nonpos
  obtain ⟨hshares_lo, hshares_hi⟩ := h.shares_fit
  obtain ⟨hsupply_lo, hsupply_hi⟩ := h.supply_fits
  obtain ⟨hassets_lo, hassets_hi⟩ := hassets_fit
  obtain ⟨hent_lo, hent_hi⟩ := hent_fits
  have hsupply_pos := h.supply_pos
  have hassets_pos := h.assets_pos
  exact ⟨⟨by omega, hburned_pos⟩, ⟨by omega, by omega⟩, ⟨by omega, by omega⟩, by omega, by omega⟩

theorem withdrawAll_goes_through (h : w.MaySettle env user) (hlegs : w.legs = 0)
    (hpos : 0 < w.payable env user)
    (hcovered : ¬ w.deployment.currentProtocol.isActive = true → w.entitlement user ≤ w.idle) :
    ∃ paid w', (withdrawAll user).Ok env w paid w' := by
  obtain ⟨hent_nonneg, hent_fits⟩ := h.entitlement_bounds
  obtain ⟨token, htoken⟩ := Option.isSome_iff_exists.mp h.initialized.2.1
  obtain ⟨b, htoll⟩ :
      ∃ b, (enforceUserRateLimit user .withdraw).Ok env w () { w with buckets := b } :=
    enforceRateLimit_succeeds h.allowed
  let w1 : World := { w with buckets := b }
  have htoken1 : w1.usdcToken = some token := htoken
  have hq : Quiet w w1 := ⟨rfl, rfl, rfl, rfl, rfl, rfl, rfl, rfl, rfl, id, rfl⟩
  have hshort : w1.FallsShort env (w.entitlement user) →
      0 < w1.onHand env (w.entitlement user) ∧
        w1.book.Convertible (w1.onHand env (w.entitlement user)) := by
    intro hless
    have hleft : w1.onHand env (w.entitlement user) = w.onHand env (w.entitlement user) := hq.onHand
    have hless' : w.FallsShort env (w.entitlement user) := ⟨hless.1, hleft ▸ hless.2⟩
    rw [hleft]
    refine ⟨?_, h.partialProduct hless'⟩
    exact hpos.trans_le (payable_le_onHand hcovered)
  obtain ⟨w2, hsettle⟩ := settleWithdrawAll_reaches (w := w1) (s := w.unlockedShares user) htoken1
    hlegs h.supply_pos h.assets_pos h.idle hent_fits (h.pull b) hshort
  obtain ⟨hpull, hleft, -⟩ := settleWithdrawAll_settles (w := w1) htoken1 hlegs hsettle
  rw [hq.settlement] at hsettle
  have hleft' : w2.idle = w.onHand env (w.entitlement user) := hleft.trans hq.onHand
  obtain ⟨⟨hpaid_pos, hburned_pos⟩, hshares_fit, hsupply_fit, hassets_fit⟩ :=
    h.settlement_fits hpos
  have hamount : (w.settlement env (w.entitlement user) (w.unlockedShares user)).1 =
      w.payable env user := settlement_payable
  generalize w.settlement env (w.entitlement user) (w.unlockedShares user) = p at *
  obtain ⟨w3, hpay⟩ : ∃ w3, (payOut user token (w.book.shares user) w.book.totalShares
      w.book.assets p.1 p.2).Ok env w2 () w3 := by
    refine payOut_succeeds (hpull.poolStep.usdcToken.trans htoken1) hshares_fit hsupply_fit
      hassets_fit hpaid_pos.le ?_
    rw [hamount, hleft']
    exact payable_le_onHand hcovered
  have hconvert : (convertToAssetsInternal (w.unlockedShares user)).Ok env w1
      (w.entitlement user) w1 := by
    refine convertToAssetsAt_ok_iff.mpr ⟨⟨rfl, fun hs hA hS => ⟨h.product, ?_⟩⟩, rfl⟩
    have hquotient : (w.unlockedShares user * w.book.assets).tdiv w.book.totalShares =
        w.entitlement user := by
      unfold World.entitlement Pool.assetsFor
      rw [if_neg hs, if_neg (not_or.mpr ⟨hS, hA⟩)]
    show i128.Fits ((w.unlockedShares user * w.book.assets).tdiv w.book.totalShares)
    rwa [hquotient]
  apply Tx.exists_ok_bind (a := ()) (ok_requireInitialized.mpr ⟨h.initialized, rfl⟩)
  apply Tx.exists_ok_bind (a := ()) (ok_requireAuth.mpr ⟨⟨h.signed, h.foreign⟩, rfl⟩)
  apply Tx.exists_ok_bind (a := ()) (ok_requireNotPaused.mpr ⟨h.live, rfl⟩)
  apply Tx.exists_ok_bind htoll
  apply Tx.exists_ok_bind (Tx.ok_get.mpr ⟨rfl, rfl⟩)
  apply Tx.exists_ok_bind (h.sharesToWithdrawAll (t := w1) rfl rfl)
  apply Tx.exists_ok_bind (ok_getUsdcToken.mpr ⟨htoken1, rfl⟩)
  apply Tx.exists_ok_bind (a := ()) (Tx.ok_require.mpr ⟨h.unlocked, rfl⟩)
  apply Tx.exists_ok_bind (ok_getTotalSharesInternal.mpr ⟨rfl, rfl⟩)
  apply Tx.exists_ok_bind (ok_getTotalAssetsInternal.mpr ⟨rfl, rfl⟩)
  apply Tx.exists_ok_bind (a := ()) (Tx.ok_require.mpr ⟨⟨h.supply_pos, h.assets_pos⟩, rfl⟩)
  apply Tx.exists_ok_bind hconvert
  apply Tx.exists_ok_bind hsettle
  apply Tx.exists_ok_bind (a := ()) (Tx.ok_require.mpr ⟨hpaid_pos, rfl⟩)
  apply Tx.exists_ok_bind (a := ()) (Tx.ok_require.mpr ⟨hburned_pos, rfl⟩)
  apply Tx.exists_ok_bind hpay
  exact Tx.exists_ok_bind (a := ()) (ok_publish.mpr rfl) Tx.exists_ok_pure

/-- A user who may settle is turned down exactly when nothing is payable, or when no protocol is
    active and the idle balance does not cover the entitlement. -/
theorem withdrawAll_fails_iff (h : w.MaySettle env user) (hlegs : w.legs = 0)
    (hnone : w.transfers = []) :
    (¬ ∃ paid w', (withdrawAll user).Ok env w paid w') ↔
      w.payable env user = 0 ∨
        ¬ w.deployment.currentProtocol.isActive = true ∧ w.idle < w.entitlement user := by
  obtain ⟨hent_nonneg, -⟩ := h.entitlement_bounds
  have hpayable_nonneg : 0 ≤ w.payable env user := by
    unfold World.payable
    by_cases hactive : w.deployment.currentProtocol.isActive = true
    · rw [if_pos hactive]
      exact le_min hent_nonneg (h.onHand_nonneg hlegs)
    · rwa [if_neg hactive]
  constructor
  · intro hfails
    by_contra hneither
    obtain ⟨hsome, hcovered⟩ := not_or.mp hneither
    apply hfails
    refine withdrawAll_goes_through h hlegs (by omega) fun hinactive => ?_
    exact not_lt.mp fun hless => hcovered ⟨hinactive, hless⟩
  · rintro hnothing ⟨paid, w', hrun⟩
    obtain ⟨burned, hsettled⟩ := withdrawAll_settled hlegs hnone hrun
    have hpaid := hsettled.paid_eq
    have hpos := hsettled.positive
    have hfunded := hsettled.funded
    rcases hnothing with hzero | ⟨hinactive, hless⟩
    · omega
    · have hwhole : w.payable env user = w.entitlement user := if_neg hinactive
      rw [onHand_idle fun hpull => hinactive hpull.1] at hfunded
      omega

/-- `withdraw_all` pays and burns as stated, whatever a pull delivers; and a user who may settle is
    turned down, with no effect, exactly when there is nothing to pay or, without an active
    protocol, the idle balance does not cover the entitlement. -/
theorem withdrawAll_settlement :
    (∀ paid w', (withdrawAll user).Ok env w.entered paid w' →
      ∃ burned, SettledInFull env w w' user paid burned) ∧
    (w.entered.MaySettle env user →
      ((invoke (.withdrawAll user)).succeeds env w = false ↔
        w.payable env user = 0 ∨
          ¬ w.deployment.currentProtocol.isActive = true ∧ w.idle < w.entitlement user) ∧
      ((invoke (.withdrawAll user)).succeeds env w = false →
        w.after (.call env (.withdrawAll user)) = w)) := by
  refine ⟨fun paid w' h => ?_, fun h => ⟨?_, Tx.commit_of_fails⟩⟩
  · obtain ⟨burned, hs⟩ := withdrawAll_settled (w := w.entered) rfl rfl h
    exact ⟨burned, hs.paid_eq, hs.positive, hs.funded, hs.transferred, hs.shares, hs.supply,
      hs.assets, hs.burned_le, hs.whole, hs.least⟩
  · refine Iff.trans ?_ (withdrawAll_fails_iff (w := w.entered) h rfl rfl)
    rw [← Bool.not_eq_true, not_iff_not]
    constructor
    · intro hsucceeds
      obtain ⟨u, w', hrun⟩ := Tx.exists_ok_of_succeeds hsucceeds
      obtain ⟨paid, t, hpaid, -⟩ := Tx.ok_bind.mp (ok_invoke.mp hrun)
      exact ⟨paid, t, hpaid⟩
    · rintro ⟨paid, w', hrun⟩
      have hcall : (invoke (.withdrawAll user)).Ok env w () w' :=
        ok_invoke.mpr (Tx.ok_bind.mpr ⟨paid, w', hrun, Tx.ok_pure.mpr ⟨rfl, rfl⟩⟩)
      exact Tx.succeeds_of_ok hcall

namespace Sample

/-- Alice's deposit lies in Blend; she is not turned down. -/
theorem settled_from_blend :
    ((invoke (.withdrawAll alice)).succeeds tame pricedInBlend = false ↔
      pricedInBlend.payable tame alice = 0 ∨
        ¬ pricedInBlend.deployment.currentProtocol.isActive = true ∧
          pricedInBlend.idle < pricedInBlend.entitlement alice) ∧
    ((invoke (.withdrawAll alice)).succeeds tame pricedInBlend = false →
      pricedInBlend.after (.call tame (.withdrawAll alice)) = pricedInBlend) := by
  apply withdrawAll_settlement.2
  have hmarker : pricedInBlend.entered.deployment.currentProtocol = .blend := by decide +kernel
  refine ⟨by decide +kernel, by decide +kernel, by decide +kernel, by decide +kernel,
    .inr (by decide +kernel), by decide +kernel, by decide +kernel, by decide +kernel,
    by decide +kernel, by decide +kernel, by decide +kernel, by decide +kernel,
    fun _ => by decide +kernel, ?_⟩
  intro b _ _
  let w : World := { pricedInBlend.entered with buckets := b }
  have htoken : w.usdcToken = some usdc := by
    show pricedInBlend.entered.usdcToken = some usdc
    decide +kernel
  have hheld : (1500000 : Int) ≤ w.position .blend := by
    show (1500000 : Int) ≤ pricedInBlend.entered.position .blend
    decide +kernel
  have hmissing : pricedInBlend.entered.entitlement alice - pricedInBlend.entered.idle =
      1500000 := by
    decide +kernel
  obtain ⟨x, t, hrun, -⟩ :=
    withdrawFromVenue_succeeds tame_payingPools htoken (by decide) hheld
  refine ⟨x, t, ?_⟩
  show (withdrawAmountFromProtocol pricedInBlend.entered.deployment.currentProtocol
    (pricedInBlend.entered.entitlement alice - pricedInBlend.entered.idle) 0).Ok tame w x t
  rw [hmarker, hmissing]
  exact hrun

end Sample

end NeuroWealth.Vault
