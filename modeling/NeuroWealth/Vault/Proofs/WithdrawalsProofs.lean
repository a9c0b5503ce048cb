import NeuroWealth.Foundation.Proofs.SharePoolProofs
import NeuroWealth.Vault.Proofs.DepositsProofs
import NeuroWealth.Vault.Proofs.VenuesProofs

/-!
# What withdrawals do

Every withdrawal of the USDC pool is a pull from the active protocol, a burn that is worth at
least what it pays, and one transfer to the user.
-/

namespace NeuroWealth.Vault

open Transaction MachineInt SharePool

variable {env : Env} {w w' : World} {user : Address} {amount burned : Int}

/-! ## Pulling -/

/-- A positive amount was pulled from the active protocol. -/
def PulledFor (env : Env) (w w' : World) (needed : Int) : Prop :=
  w.deployment.currentProtocol.isActive = true ∧ 0 < needed ∧
    ∃ x, (withdrawAmountFromProtocol w.deployment.currentProtocol needed 0).Ok env w x w'

/-- Either nothing was pulled or what was missing. -/
def Pulled (env : Env) (w w' : World) : Prop := w' = w ∨ ∃ needed, PulledFor env w w' needed

theorem Pulled.fundsMove (h : Pulled env w w') : FundsMove env w w' := by
  rcases h with rfl | ⟨needed, -, -, x, h⟩
  · exact movesFunds.refl env _
  · exact movesFunds_withdrawAmountFromProtocol h

/-- The idle balance grows by what the pools deliver. -/
theorem PulledFor.delivery {needed : Int} (h : PulledFor env w w' needed) (hlegs : w.legs = 0) :
    w'.idle = w.idle + w.delivery env needed := by
  obtain ⟨-, hpos, x, hpull⟩ := h
  exact withdrawAmountFromProtocol_delivery hlegs hpos hpull

theorem Pulled.poolStep (h : Pulled env w w') : PoolStep w w' := h.fundsMove.poolStep

theorem pullMissing_ok {token : Address} {balance x : Int}
    (hactive : w.deployment.currentProtocol.isActive = true) (hmissing : balance < amount)
    (h : (pullMissing w.deployment.currentProtocol token amount balance).Ok env w x w') :
    PulledFor env w w' (amount - balance) ∧ x = w'.chain.balances token w'.self := by
  simp only [pullMissing, Tx.ok_bind, ok_checkedSub, ok_vaultBalance, existsAndEq, and_assoc,
    true_and, and_true] at h
  obtain ⟨-, s, hpull, hx⟩ := h
  exact ⟨⟨hactive, by omega, s, hpull⟩, hx⟩

/-- `withdraw` pays no more than was asked for. -/
theorem availableForWithdraw_ok {token : Address} {x : Int}
    (h : (availableForWithdraw token amount).Ok env w x w') : Pulled env w w' ∧ x ≤ amount := by
  simp only [availableForWithdraw, Tx.ok_bind, Tx.ok_get, Tx.ok_ite, ok_vaultBalance, Tx.ok_pure,
    existsAndEq, true_and, and_true] at h
  rcases h with ⟨hactive, ⟨hmissing, a, hpull, rfl⟩ | ⟨-, rfl, rfl⟩⟩ | ⟨-, rfl, rfl⟩
  · exact ⟨.inr ⟨_, (pullMissing_ok hactive hmissing hpull).1⟩, min_le_left _ _⟩
  · exact ⟨.inl rfl, le_rfl⟩
  · exact ⟨.inl rfl, le_rfl⟩

theorem availableForEmergency_ok {token : Address} {x : Int × Bool}
    (h : (availableForEmergency token amount).Ok env w x w') : Pulled env w w' := by
  simp only [availableForEmergency, Tx.ok_bind, Tx.ok_get, Tx.ok_ite, ok_vaultBalance, Tx.ok_pure,
    existsAndEq, true_and, and_true] at h
  rcases h with ⟨hmissing, ⟨hactive, a, hpull, -⟩ | ⟨-, -, rfl⟩⟩ | ⟨-, -, rfl⟩
  · exact .inr ⟨_, (pullMissing_ok hactive hmissing hpull).1⟩
  · exact .inl rfl
  · exact .inl rfl

/-! ## Redeeming -/

/-- `burned` shares of a user left the book for `amount`. -/
structure Debit (w w' : World) (user : Address) (amount burned : Int) : Prop where
  accounting : Accounting w w'
  book : w'.book = w.book.debited user amount burned (w.book.depositsAfterWithdraw amount)
  holding : w'.holding = w.holding

/-- Terms of a burn: shares the user owns, for USDC worth no more than they are. -/
structure Book.Redeems (b : Book) (user : Address) (amount burned : Int) : Prop where
  supply_pos : 0 < b.totalShares
  assets_pos : 0 < b.assets
  burned_pos : 0 < burned
  burned_le : burned ≤ b.shares user
  price : amount * b.totalShares ≤ burned * b.assets
  fits : i128.Fits (b.totalShares - burned)

/-- A burn on those terms and the payment for it. -/
structure Redeemed (w w' : World) (user : Address) (amount burned : Int) : Prop where
  foreign : user ≠ w.self
  terms : w.book.Redeems user amount burned
  steps : ∃ token t, w.usdcToken = some token ∧ Debit w t user amount burned ∧
    Paid token t w' w.self user amount

theorem Paid.of_quiet {token sender recipient : Address} {t : World}
    (h : Paid token w t sender recipient amount) (hq : Quiet t w') :
    Paid token w w' sender recipient amount where
  self := hq.self.trans h.self
  chain := hq.chain.trans h.chain
  usdcToken := hq.usdcToken.trans h.usdcToken
  book := hq.book.trans h.book
  assets := hq.assets.trans h.assets
  locks := hq.locks.trans h.locks
  holding := hq.holding.trans h.holding
  deployment := hq.deployment.trans h.deployment
  transfers := hq.transfers.trans h.transfers
  initialized hi := hq.initialized (h.initialized hi)
  nonneg := h.nonneg
  funded := h.funded
  legs := hq.legs.trans h.legs

theorem Redeemed.of_quiet {t : World} (h : Redeemed w t user amount burned) (hq : Quiet t w') :
    Redeemed w w' user amount burned := by
  obtain ⟨token, t1, htoken, hdebit, hpaid⟩ := h.steps
  exact { h with steps := ⟨token, t1, htoken, hdebit, hpaid.of_quiet hq⟩ }

@[simp]
theorem ok_reduceTotalDepositsOnWithdraw {u : Unit} :
    (reduceTotalDepositsOnWithdraw amount).Ok env w u w' ↔
      w' = { w with book :=
        { w.book with totalDeposits := w.book.depositsAfterWithdraw amount } } := by
  simp only [reduceTotalDepositsOnWithdraw, Tx.ok_bind, Tx.ok_get, ok_putBook, existsAndEq,
    true_and]

/-- The four storage writes of every burn make one debit. -/
theorem debit_of_steps {t1 t2 t3 t4 : World}
    (h1 : t1 = { w with book := w.book.setShares user (w.book.shares user - burned) })
    (h2 : t2 = { t1 with book := { t1.book with totalShares := w.book.totalShares - burned } })
    (h3 : t3 = { t2 with book := { t2.book with totalAssets := some (w.book.assets - amount) } })
    (h4 : t4 = { t3 with book :=
      { t3.book with totalDeposits := t3.book.depositsAfterWithdraw amount } }) :
    Debit w t4 user amount burned := by
  have hshares : (w.book.setShares user (w.book.shares user - burned)).shares =
      (w.book.debited user amount burned 0).shares := by
    funext u
    by_cases hu : u = user
    · simp [Book.setShares, Book.debited, hu]
    · simp [Book.setShares, Book.debited, hu]
  subst h4 h3 h2 h1
  refine ⟨⟨rfl, rfl, rfl, rfl, rfl, rfl, rfl, id, rfl⟩, ?_, rfl⟩
  exact congrArg (fun s => Book.mk s _ _ _) hshares

/-- `redeem` burns the least number of shares worth the amount and pays what they are worth. -/
theorem redeem_ok {token : Address} {x : Int} {paid : Int × Int} (hself : user ≠ w.self)
    (htoken : w.usdcToken = some token)
    (h : (redeem user token x).Ok env w paid w') :
    Redeemed w w' user paid.1 paid.2 ∧
      paid.2 = Pool.sharesForUp w.book.totalShares w.book.assets x ∧
      paid.1 = Pool.assetsFor w.book.totalShares w.book.assets paid.2 := by
  simp only [redeem, Tx.ok_bind, Tx.ok_get, Tx.ok_require, ok_getTotalSharesInternal,
    ok_getTotalAssetsInternal, ok_checkedSub, Tx.ok_pure, existsAndEq, exists_const, and_assoc,
    true_and, and_true] at h
  obtain ⟨-, hS, hA, b, t0, hceil, hb, hle, a, t1, hfloor, -, _, t2, h2, hfits, _, t3, h3, -, _, t4,
    h4, _, t5, h5, _, hpay, rfl⟩ := h
  obtain ⟨hbval, rfl⟩ := ok_convertToSharesInternalCeil hceil
  obtain ⟨haval, rfl⟩ := ok_convertToAssetsInternal hfloor
  have hdebit : Debit t1 t5 user a b :=
    debit_of_steps (ok_setUserShares.mp h2) (ok_setTotalShares.mp h3) (ok_setTotalAssets.mp h4)
      (ok_reduceTotalDepositsOnWithdraw.mp h5)
  have hprice : a * t1.book.totalShares ≤ b * t1.book.assets := by
    rw [haval]
    exact Pool.assetsFor_mul_le hS.le hA.le hb.le
  exact ⟨⟨hself, ⟨hS, hA, hb, hle, hprice, hfits⟩, token, t5, htoken, hdebit, transfer_ok hpay⟩,
    hbval, haval⟩

/-! ## Withdrawals -/

/-- Quiet checks, a pull, and a redemption by the user. -/
structure Withdrawal (env : Env) (w w' : World) (user : Address) (amount burned : Int) : Prop where
  steps : ∃ t0 t, Quiet w t0 ∧ Pulled env t0 t ∧ Redeemed t w' user amount burned

theorem Redeemed.book (h : Redeemed w w' user amount burned) :
    w'.book = w.book.debited user amount burned (w.book.depositsAfterWithdraw amount) := by
  obtain ⟨token, t, -, hdebit, hpaid⟩ := h.steps
  rw [hpaid.book, hdebit.book]

/-- The pull leaves the book alone, so the terms are those of the book before the call. -/
theorem Withdrawal.terms (h : Withdrawal env w w' user amount burned) :
    w.book.Redeems user amount burned ∧
      w'.book = w.book.debited user amount burned (w.book.depositsAfterWithdraw amount) := by
  obtain ⟨t0, t, hq, hpull, hred⟩ := h.steps
  have hbook : t.book = w.book := hpull.poolStep.book.trans hq.book
  rw [← hbook]
  exact ⟨hred.terms, hred.book⟩

/-- The user's latest deposit is at least the minimum holding period old. -/
def World.HoldingElapsed (w : World) (user : Address) : Prop :=
  ∀ last, w.holding.lastDepositLedger user = some last → 0 < w.holding.minHoldingPeriod →
    last + w.holding.minHoldingPeriod ≤ w.chain.sequence

theorem requireHoldingPeriodElapsed_ok {u : Unit}
    (h : (requireHoldingPeriodElapsed user).Ok env w u w') : w.HoldingElapsed user ∧ w' = w := by
  simp only [requireHoldingPeriodElapsed, Tx.ok_bind, Tx.ok_get, existsAndEq, true_and, and_true] at h
  unfold World.HoldingElapsed
  split at h
  · rename_i last hlast
    obtain ⟨hguard, rfl⟩ := Tx.ok_require.mp h
    refine ⟨fun l hl hpos => ?_, rfl⟩
    rw [hlast] at hl
    cases hl
    omega
  · rename_i hnone
    refine ⟨fun l hl => ?_, (Tx.ok_pure.mp h).2⟩
    rw [hnone] at hl
    cases hl

/-- A user with a lock may ask for no more than the unlocked shares are worth. -/
theorem requireWithinUnlocked_ok {u : Unit} (h : (requireWithinUnlocked user amount).Ok env w u w') :
    (0 < w.locks.lockedShares user → 0 < w.book.totalShares → 0 < w.book.assets →
      amount ≤ Pool.assetsFor w.book.totalShares w.book.assets
        (w.book.shares user - w.locks.lockedShares user)) ∧ w' = w := by
  simp only [requireWithinUnlocked, maxWithdrawable, Tx.ok_bind, Tx.ok_get, Tx.ok_ite,
    ok_nativeSub, ok_getTotalSharesInternal, ok_getTotalAssetsInternal, Tx.ok_require, Tx.ok_pure,
    existsAndEq, and_assoc, true_and, and_true] at h
  rcases h with ⟨-, -, x, hlimit, hle⟩ | ⟨hlock, rfl⟩
  · rcases hlimit with ⟨-, -, hconv⟩ | ⟨hzero, -, rfl⟩
    · obtain ⟨rfl, rfl⟩ := ok_convertToAssetsInternal hconv
      exact ⟨fun _ _ _ => hle, rfl⟩
    · exact ⟨fun _ hS hA => absurd ⟨hS, hA⟩ hzero, rfl⟩
  · exact ⟨fun h => absurd h hlock, rfl⟩

/-- Unlocked shares bound the burn once they bound the amount. -/
theorem burn_le_unlocked {S A unlocked x : Int} (hS : 0 < S) (hA : 0 < A) (hx : 0 < x)
    (hunlocked : 0 ≤ unlocked) (hle : x ≤ Pool.assetsFor S A unlocked) :
    Pool.sharesForUp S A x ≤ unlocked := by
  have hvalue : Pool.assetsFor S A unlocked * S ≤ unlocked * A :=
    Pool.assetsFor_mul_le hS.le hA.le hunlocked
  have hmul : x * S ≤ Pool.assetsFor S A unlocked * S := Int.mul_le_mul_of_nonneg_right hle hS.le
  exact (Pool.sharesForUp_le_iff hS hA hx.le).mpr (hmul.trans hvalue)

/-- `withdraw` waits for the holding period, leaves locked shares alone, and pays exactly what the
    burned shares are worth. -/
theorem withdraw_ok {u : Unit} (h : (withdraw user amount).Ok env w u w') :
    ∃ paid burned, Withdrawal env w w' user paid burned ∧
      paid = Pool.assetsFor w.book.totalShares w.book.assets burned ∧
      w.HoldingElapsed user ∧
      (0 < w.locks.lockedShares user → w.locks.lockedShares user ≤ w.book.shares user →
        burned ≤ w.book.shares user - w.locks.lockedShares user) ∧
      w.breaker.paused = false := by
  simp only [withdraw, Tx.ok_bind, ok_requireInitialized, ok_requireAuth, ok_requireNotPaused,
    ok_requirePositiveAmount, Tx.ok_require, ok_getUsdcToken, existsAndEq, exists_const, and_assoc,
    true_and] at h
  obtain ⟨-, -, hself, hpaused, -, _, t1, hrate, _, t2, hhold, _, t3, hlock, token, htoken, x, t4,
    havail, hx, paid, t5, hredeem, hpub⟩ := h
  have h1 : Quiet w t1 := quiet_enforceRateLimit hrate
  obtain ⟨helapsed, rfl⟩ := requireHoldingPeriodElapsed_ok hhold
  obtain ⟨hunlocked, rfl⟩ := requireWithinUnlocked_ok hlock
  obtain ⟨hpull, hle⟩ := availableForWithdraw_ok havail
  have hstep := hpull.poolStep
  obtain ⟨hred, hburned, hpaid⟩ := redeem_ok (by rwa [hstep.self, h1.self])
    (by rw [hstep.usdcToken, htoken]) hredeem
  have hbook : t4.book = w.book := hstep.book.trans h1.book
  refine ⟨paid.1, paid.2, ⟨_, t4, h1, hpull, hred.of_quiet (quiet_publish rfl hpub)⟩, ?_, ?_, ?_,
    hpaused⟩
  · rw [hpaid, hbook]
  · intro last
    have := helapsed last
    rwa [h1.holding, h1.chain] at this
  · intro hlocked hbound
    rw [h1.locks, h1.book] at hunlocked
    have hS := hred.terms.supply_pos
    have hA := hred.terms.assets_pos
    rw [hbook] at hS hA hburned
    rw [hburned]
    exact burn_le_unlocked hS hA hx (by omega) (hle.trans (hunlocked hlocked hS hA))

/-- `emergency_withdraw` pays exactly what the burned shares are worth. -/
theorem emergencyWithdraw_ok {u : Unit} (h : (emergencyWithdraw user amount).Ok env w u w') :
    ∃ paid burned, Withdrawal env w w' user paid burned ∧
      paid = Pool.assetsFor w.book.totalShares w.book.assets burned ∧
      w.breaker.paused = true := by
  simp only [emergencyWithdraw, Tx.ok_bind, Tx.ok_get, ok_requireInitialized, ok_requireAuth,
    ok_requirePositiveAmount, Tx.ok_require, ok_getUsdcToken, existsAndEq, exists_const, and_assoc,
    true_and] at h
  obtain ⟨-, -, hself, hpaused, -, token, htoken, x, t1, havail, hx, paid, t2, hredeem, hpub⟩ := h
  have hpull := availableForEmergency_ok havail
  have hstep := hpull.poolStep
  obtain ⟨hred, -, hpaid⟩ := redeem_ok (by rwa [hstep.self]) (by rw [hstep.usdcToken, htoken])
    hredeem
  refine ⟨paid.1, paid.2,
    ⟨w, t1, quiet.refl env w, hpull, hred.of_quiet (quiet_publish rfl hpub)⟩, ?_, hpaused⟩
  rw [hpaid, hstep.book]

/-! ## `withdraw_all` -/

/-- The shares a user may redeem: all, or under a lock those not locked. -/
def World.unlockedShares (w : World) (user : Address) : Int :=
  if 0 < w.locks.lockedShares user then w.book.shares user - w.locks.lockedShares user
  else w.book.shares user

theorem sharesToWithdrawAll_ok {shares locked s : Int}
    (h : (sharesToWithdrawAll shares locked).Ok env w s w') :
    s = (if 0 < locked then shares - locked else shares) ∧ w' = w := by
  unfold sharesToWithdrawAll at h
  split_ifs at h ⊢
  · simp only [Tx.ok_bind, ok_nativeSub, Tx.ok_require, Tx.ok_pure, existsAndEq, exists_const,
      and_assoc, true_and] at h
    exact ⟨h.2.2.1, h.2.2.2⟩
  · exact Tx.ok_pure.mp h

/-- The entitlement is paid in full, or what is there after the pull is paid for the least number
    of shares worth it. -/
theorem settleWithdrawAll_ok {token : Address} {entitled s : Int} {paid : Int × Int}
    (h : (settleWithdrawAll token entitled s).Ok env w paid w') :
    Pulled env w w' ∧ (paid = (entitled, s) ∨
      ∃ available, PulledFor env w w' (entitled - w.chain.balances token w.self) ∧
        available = w'.chain.balances token w'.self ∧ 0 < available ∧ available < entitled ∧
        paid = (available, Pool.sharesForUp w.book.totalShares w.book.assets available)) := by
  simp only [settleWithdrawAll, settleAfterPull, Tx.ok_bind, Tx.ok_get, Tx.ok_ite, ok_vaultBalance,
    Tx.ok_require, Tx.ok_pure, existsAndEq, exists_const, and_assoc, true_and, and_true] at h
  rcases h with ⟨hactive, ⟨hmissing, a, t, hpull, hsettle⟩ | ⟨-, rfl, rfl⟩⟩ | ⟨-, rfl, rfl⟩
  · obtain ⟨hpulled, rfl⟩ := pullMissing_ok hactive hmissing hpull
    have hany : Pulled env w t := .inr ⟨_, hpulled⟩
    rcases hsettle with ⟨hshort, hpos, b, hconv, hpaid⟩ | ⟨-, rfl, rfl⟩
    · obtain ⟨rfl, rfl⟩ := ok_convertToSharesInternalCeil hconv
      rw [hany.poolStep.book] at hpaid
      exact ⟨hany, .inr ⟨_, hpulled, rfl, hpos, hshort, hpaid⟩⟩
    · exact ⟨hany, .inl rfl⟩
  · exact ⟨.inl rfl, .inl rfl⟩
  · exact ⟨.inl rfl, .inl rfl⟩

/-- The burn of `withdraw_all` at the totals read before the pull. -/
theorem payOut_ok {token : Address} {u : Unit}
    (h : (payOut user token (w.book.shares user) w.book.totalShares w.book.assets amount
      burned).Ok env w u w') :
    i128.Fits (w.book.totalShares - burned) ∧
      ∃ t, Debit w t user amount burned ∧ Paid token t w' w.self user amount := by
  simp only [payOut, Tx.ok_bind, Tx.ok_get, ok_checkedSub, existsAndEq, and_assoc, true_and] at h
  obtain ⟨-, _, t1, h1, hfits, _, t2, h2, -, _, t3, h3, _, t4, h4, hpay⟩ := h
  have hdebit : Debit w t4 user amount burned :=
    debit_of_steps (ok_setUserShares.mp h1) (ok_setTotalShares.mp h2) (ok_setTotalAssets.mp h3)
      (ok_reduceTotalDepositsOnWithdraw.mp h4)
  rw [hdebit.accounting.self] at hpay
  exact ⟨hfits, t4, hdebit, transfer_ok hpay⟩

/-- What `withdraw_all` entitles a user to. -/
def World.entitlement (w : World) (user : Address) : Int :=
  Pool.assetsFor w.book.totalShares w.book.assets (w.unlockedShares user)

/-- A pull for an entitlement left less than that. -/
structure Shortfall (env : Env) (w t : World) (user : Address) (amount burned : Int) : Prop where
  pulled : PulledFor env w t (w.entitlement user - w.idle)
  delivered : amount = t.idle
  positive : 0 < amount
  short : amount < w.entitlement user
  least : burned = Pool.sharesForUp w.book.totalShares w.book.assets amount

/-- `withdraw_all` redeems all unlocked shares, or after a pull that fell short as many as what
    is there is worth. -/
theorem withdrawAll_ok {paid : Int} (h : (withdrawAll user).Ok env w paid w') :
    ∃ burned, Withdrawal env w w' user paid burned ∧ burned ≤ w.unlockedShares user ∧
      ((paid = w.entitlement user ∧ burned = w.unlockedShares user) ∨
        ∃ t0 t, Quiet w t0 ∧ Shortfall env t0 t user paid burned) ∧
      w.breaker.paused = false := by
  simp only [withdrawAll, Tx.ok_bind, Tx.ok_get, ok_requireInitialized, ok_requireAuth,
    ok_requireNotPaused, Tx.ok_require, ok_getUsdcToken, ok_getTotalSharesInternal,
    ok_getTotalAssetsInternal, Tx.ok_pure, existsAndEq, exists_const, and_assoc, true_and,
    and_true] at h
  obtain ⟨-, -, hself, hpaused, _, t0, hrate, s, t1, hs, token, htoken, hspos, hS, hA, e, t2, hent,
    p, t3, hsettle, hppos, hbpos, _, t4, hpay, _, hpub, rfl⟩ := h
  have h0 : Quiet w t0 := quiet_enforceRateLimit hrate
  obtain ⟨hs, rfl⟩ := sharesToWithdrawAll_ok hs
  obtain ⟨he, rfl⟩ := ok_convertToAssetsInternal hent
  obtain ⟨hpull, hsettle⟩ := settleWithdrawAll_ok hsettle
  have hstep := hpull.poolStep
  have hbook : t2.book = w.book := h0.book
  rw [← hstep.book] at hpay
  obtain ⟨hfits, t, hdebit, hpaid⟩ := payOut_ok hpay
  have hunlocked : s = w.unlockedShares user := by
    rw [hs, h0.locks, hbook]
    rfl
  have hle : p.2 ≤ s ∧ p.1 * t3.book.totalShares ≤ p.2 * t3.book.assets := by
    rw [hstep.book]
    have hvalue := Pool.assetsFor_mul_le hS.le hA.le hspos.le
    rcases hsettle with rfl | ⟨available, -, -, hpos, hshort, rfl⟩
    · rw [he]
      exact ⟨le_rfl, hvalue⟩
    · rw [he] at hshort
      exact ⟨burn_le_unlocked hS hA hpos hspos.le hshort.le, Pool.le_sharesForUp_mul hS hA hpos.le⟩
  have hsle : s ≤ w.book.shares user := by
    rw [hunlocked]
    unfold World.unlockedShares
    split_ifs <;> omega
  have hred : Redeemed t3 w' user p.1 p.2 := by
    refine Redeemed.of_quiet ⟨?_, ⟨?_, ?_, hbpos, ?_, hle.2, hfits⟩, token, t, ?_, hdebit, hpaid⟩
      (quiet_publish rfl hpub)
    · rwa [hstep.self, h0.self]
    · rwa [hstep.book]
    · rwa [hstep.book]
    · rw [hstep.book, hbook]
      exact hle.1.trans hsle
    · rw [hstep.usdcToken, htoken]
  refine ⟨p.2, ⟨t2, t3, h0, hpull, hred⟩, hunlocked ▸ hle.1, ?_, hpaused⟩
  have hent : t2.entitlement user = e := by
    rw [he, hunlocked, hbook]
    unfold World.entitlement World.unlockedShares
    rw [h0.locks, hbook]
  rcases hsettle with rfl | ⟨available, hpulled, havail, hpos, hshort, rfl⟩
  · refine .inl ⟨?_, hunlocked⟩
    rw [he, hunlocked, hbook]
    rfl
  · refine .inr ⟨t2, t3, h0, ?_, ?_, hpos, ?_, rfl⟩
    · rwa [hent, idle_eq htoken]
    · rw [havail, idle_eq (by rw [hstep.usdcToken, htoken])]
    · rwa [hent]

end NeuroWealth.Vault
