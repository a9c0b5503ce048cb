import NeuroWealth.Vault.Proofs.PricesProofs
import NeuroWealth.Vault.Proofs.AccountsProofs
import NeuroWealth.Vault.Properties.Dilution
import NeuroWealth.Vault.Views

/-!
# How long a preview holds

A preview of a deposit or a withdrawal bounds what the call does later, whatever others do in
between, as long as nothing is written off and the vault does not empty. On the same book it is
exact.
-/

namespace NeuroWealth.Vault

open Transaction MachineInt SharePool

variable {env env' : Env} {w0 w w' w'' t : World} {user : Address} {amount n paid burned : Int}

/-! ## Views -/

theorem preview_parts {conversion : Int → Contract Int} {x : Int}
    (hconversion : Keeps unchanged (conversion amount))
    (h : (preview conversion amount).Ok env w x t) :
    Quiet w t ∧ (conversion amount).Ok env t x t := by
  simp only [preview, Tx.ok_bind, ok_requireInitialized, existsAndEq, exists_const, and_assoc,
    true_and] at h
  obtain ⟨-, _, t', hrate, hconverted⟩ := h
  obtain rfl : t = t' := hconversion hconverted
  exact ⟨quiet_enforceRateLimit hrate, hconverted⟩

theorem previewDepositToShares_ok (h : (previewDepositToShares amount).Ok env w n t) :
    Quiet w t ∧ n = Pool.sharesFor w.book.totalShares w.book.assets amount := by
  obtain ⟨hq, hconverted⟩ := preview_parts (unchanged_convertToSharesInternal _) h
  refine ⟨hq, ?_⟩
  rw [(ok_convertToSharesInternal hconverted).1, hq.book]

theorem previewWithdraw_ok (h : (previewWithdraw amount).Ok env w n t) :
    Quiet w t ∧ n = Pool.sharesForUp w.book.totalShares w.book.assets amount := by
  obtain ⟨hq, hconverted⟩ := preview_parts (unchanged_convertToSharesInternalCeil _) h
  refine ⟨hq, ?_⟩
  rw [(ok_convertToSharesInternalCeil hconverted).1, hq.book]

/-! ## Calls -/

theorem depositShares (hi : w.Initialized) (hb : w.book.Sound)
    (h : (invoke (.deposit user amount)).Ok env w () w') : 0 < amount ∧
      w'.book.shares user =
        w.book.shares user + Pool.sharesFor w.book.totalShares w.book.assets amount := by
  cases effect_of_invoke hi h with
  | @deposit _ _ minted t hq hdeposited _ =>
    have hbook : t.book = w.book := hq.book
    have hprice := hdeposited.price w.book.assets (by rw [hbook, hb.stored])
    refine ⟨hdeposited.positive, ?_⟩
    rw [hdeposited.shares.1, hprice, hbook]
  | quiet hcall => exact Bool.noConfusion hcall
  | funds hcall => exact Bool.noConfusion hcall
  | assets hcall => exact Bool.noConfusion hcall

/-- `withdraw` burns what the amount it can pay costs. -/
theorem withdraw_burned (h : (withdraw user amount).Ok env w () w') :
    ∃ actual paid burned, actual ≤ amount ∧ 0 < actual ∧ Withdrawal env w w' user paid burned ∧
      burned = Pool.sharesForUp w.book.totalShares w.book.assets actual ∧
      paid = Pool.assetsFor w.book.totalShares w.book.assets burned := by
  simp only [withdraw, Tx.ok_bind, ok_requireInitialized, ok_requireAuth, ok_requireNotPaused,
    ok_requirePositiveAmount, Tx.ok_require, ok_getUsdcToken, existsAndEq, exists_const, and_assoc,
    true_and] at h
  obtain ⟨-, -, hself, -, -, _, t1, hrate, _, t2, hhold, _, t3, hlock, token, htoken, x, t4,
    havail, hx, paid, t5, hredeem, hpub⟩ := h
  have h1 : Quiet w t1 := quiet_enforceRateLimit hrate
  obtain ⟨-, rfl⟩ := requireHoldingPeriodElapsed_ok hhold
  obtain ⟨-, rfl⟩ := requireWithinUnlocked_ok hlock
  obtain ⟨hpull, hle⟩ := availableForWithdraw_ok havail
  have hstep := hpull.poolStep
  obtain ⟨hred, hburned, hpaid⟩ := redeem_ok (by rwa [hstep.self, h1.self])
    (by rw [hstep.usdcToken, htoken]) hredeem
  have hbook : t4.book = w.book := hstep.book.trans h1.book
  rw [hbook] at hburned hpaid
  exact ⟨x, paid.1, paid.2, hle, hx, ⟨_, t4, h1, hpull, hred.of_quiet (quiet_publish rfl hpub)⟩,
    hburned, hpaid⟩

/-! ## Prices since the preview -/

/-- The vault has not emptied, and no share is worth less than in the first state. -/
structure Priced (w t : World) : Prop where
  sound : t.book.Sound
  supply : 0 < t.book.totalShares
  price : w.book.pool.PriceLe t.book.pool

/-- Nothing is written off, and somebody stays. -/
def Step.KeepsHolders (w : World) (step : Step) : Prop :=
  step.KeepsPrice w ∧ 0 < (w.after step).book.totalShares

theorem Priced.after {step : Step} (h : Priced w t) (hS : 0 < w.book.totalShares)
    (hi : t.Initialized) (hstep : step.KeepsHolders t) : Priced w (t.after step) := by
  have hsound := sound_after step hi (hstep.1.reports h.sound) h.sound
  exact ⟨hsound, hstep.2, .trans h.supply hS.le hstep.2.le h.price
    (priceLe_after step hi hstep.1 h.sound h.supply)⟩

theorem Priced.assets_pos (h : Priced w t) (hS : 0 < w.book.totalShares)
    (hA : 0 < w.book.assets) : 0 < t.book.assets := by
  have hprice : w.book.assets * t.book.totalShares ≤ t.book.assets * w.book.totalShares := h.price
  have hpos : 0 < w.book.assets * t.book.totalShares := mul_pos hA h.supply
  exact (mul_pos_iff_of_pos_right hS).mp (hpos.trans_le hprice)

theorem priced_of_reaches (h0 : w0.Opened)
    (hreached : Reaches (fun _ step => step.ReportsNonNegative) w0 w)
    (hS : 0 < w.book.totalShares) (hq : Quiet w t)
    (hrun : Reaches (fun t step => step.KeepsHolders t) t w') : Priced w w' ∧ w'.Initialized := by
  obtain ⟨hb, hi⟩ := sound_of_reaches h0 hreached fun _ _ hstep => hstep
  refine Reaches.keeps (P := Priced w) hrun (hq.initialized hi) ⟨?_, ?_, ?_⟩ ?_
  · rw [hq.book]
    exact hb
  · rw [hq.book]
    exact hS
  · rw [hq.book]
    exact .refl
  · intro t step hstep hi h
    exact h.after hS hi hstep

/-- A previewed deposit mints no more shares than the preview said, and exactly as many on the same
    book. -/
theorem preview_bounds_deposit (h0 : w0.Opened)
    (hreached : Reaches (fun _ step => step.ReportsNonNegative) w0 w)
    (hS : 0 < w.book.totalShares) (hA : 0 < w.book.assets)
    (hpreview : (previewDepositToShares amount).Ok env w n t)
    (hrun : Reaches (fun t step => step.KeepsHolders t) t w')
    (hdeposit : (invoke (.deposit user amount)).Ok env' w' () w'') :
    w''.book.shares user ≤ w'.book.shares user + n ∧
      (w'.book = w.book → w''.book.shares user = w'.book.shares user + n) := by
  obtain ⟨hq, rfl⟩ := previewDepositToShares_ok hpreview
  obtain ⟨hpriced, hi⟩ := priced_of_reaches h0 hreached hS hq hrun
  obtain ⟨hamount, hminted⟩ := depositShares hi hpriced.sound hdeposit
  have hle : Pool.sharesFor w'.book.totalShares w'.book.assets amount ≤
      Pool.sharesFor w.book.totalShares w.book.assets amount :=
    Pool.sharesFor_le_of_price (p := w.book.pool) (q := w'.book.pool) hS hA hpriced.supply
      (hpriced.assets_pos hS hA).le hamount.le hpriced.price
  refine ⟨by omega, fun hsame => ?_⟩
  rw [hminted, hsame]

namespace Sample

/-- Alice holds shares that have gained. -/
def gained : World :=
  opened.replay [.call honest (.deposit alice 5000000),
    .ambient { opened.chain with balances := fun _ _ => 30000000 },
    .call honest (.updateTotalAssets agent 5416667 false 0)]

theorem gained_reached : Reaches (fun _ step => step.ReportsNonNegative) opened gained :=
  .of_admits ⟨trivial, trivial, (by decide : (0 : Int) ≤ 5416667), trivial⟩

/-- Another gain. -/
def gainMore : Step := .call honest (.updateTotalAssets agent 6000000 false 0)

def enterBob : Step := .call honest (.deposit bob 7000001)

/-- The price rises between the preview and the deposit. -/
theorem enterBob_bounded : ∃ n t, (previewDepositToShares 7000001).Ok honest gained n t ∧
    ((t.after gainMore).after enterBob).book.shares bob ≤ (t.after gainMore).book.shares bob + n ∧
      ((t.after gainMore).book = gained.book → ((t.after gainMore).after enterBob).book.shares bob =
        (t.after gainMore).book.shares bob + n) := by
  obtain ⟨n, t, hok⟩ := Tx.exists_ok_of_succeeds (x := previewDepositToShares 7000001)
    (r := honest) (s := gained) (by decide +kernel)
  obtain rfl := Tx.commit_of_ok hok
  have hgain : ((previewDepositToShares 7000001).commit honest gained).book.assets ≤ 6000000 := by
    decide +kernel
  have hrun : Reaches (fun t step => step.KeepsHolders t)
      ((previewDepositToShares 7000001).commit honest gained)
      (((previewDepositToShares 7000001).commit honest gained).replay [gainMore]) :=
    .of_admits ⟨⟨hgain, by decide +kernel⟩, trivial⟩
  exact ⟨n, _, hok, preview_bounds_deposit opened_opened gained_reached (by decide +kernel)
    (by decide +kernel) hok hrun (ok_after (by decide +kernel))⟩

end Sample

/-- A previewed withdrawal burns no more shares than the preview said, and exactly as many if it
    pays the whole amount on the same book. -/
theorem preview_bounds_withdraw (h0 : w0.Opened)
    (hreached : Reaches (fun _ step => step.ReportsNonNegative) w0 w)
    (hS : 0 < w.book.totalShares) (hA : 0 < w.book.assets)
    (hpreview : (previewWithdraw amount).Ok env w n t)
    (hrun : Reaches (fun t step => step.KeepsHolders t) t w')
    (hwithdraw : (invoke (.withdraw user amount)).Ok env' w' () w'') :
    w'.book.shares user - n ≤ w''.book.shares user ∧
      (w'.book = w.book → amount ≤ w''.paidOut →
        w''.book.shares user = w'.book.shares user - n) := by
  obtain ⟨hq, rfl⟩ := previewWithdraw_ok hpreview
  obtain ⟨hpriced, hi⟩ := priced_of_reaches h0 hreached hS hq hrun
  obtain ⟨actual, paid, burned, hle, hpos, hw, hburned, hpaid⟩ :=
    withdraw_burned (w := w'.entered) (ok_invoke.mp hwithdraw)
  have hA' := hpriced.assets_pos hS hA
  have hshares : w''.book.shares user = w'.book.shares user - burned := hw.shares.1
  have hnow : burned ≤ Pool.sharesForUp w'.book.totalShares w'.book.assets amount := by
    have hup := Pool.le_sharesForUp_mul hpriced.supply hA' (hpos.le.trans hle)
    rw [hburned]
    refine (Pool.sharesForUp_le_iff hpriced.supply hA' hpos.le).mpr ?_
    exact (Int.mul_le_mul_of_nonneg_right hle hpriced.supply.le).trans hup
  have hthen : Pool.sharesForUp w'.book.totalShares w'.book.assets amount ≤
      Pool.sharesForUp w.book.totalShares w.book.assets amount :=
    Pool.sharesForUp_le_of_price (p := w.book.pool) (q := w'.book.pool) hS hA hpriced.supply hA'
      (hpos.le.trans hle) hpriced.price
  refine ⟨by omega, fun hsame hfull => ?_⟩
  -- what was paid is worth the burned shares, so they are enough for the amount
  have honce : w''.PaidOnce w''.self user paid := hw.paidOnce rfl
  rw [(paid_out honce hw.foreign).1, hpaid] at hfull
  have hcost : Pool.sharesForUp w'.book.totalShares w'.book.assets amount ≤ burned :=
    (Pool.le_assetsFor_iff hpriced.supply hA' (hpos.trans_le hle)).mp hfull
  rw [hshares]
  rw [hsame] at hnow hcost
  omega

namespace Sample

def leaveAlice : Step := .call honest (.withdraw alice 3000000)

theorem leaveAlice_bounded : ∃ n t, (previewWithdraw 3000000).Ok honest gained n t ∧
    (t.after gainMore).book.shares alice - n ≤
        ((t.after gainMore).after leaveAlice).book.shares alice ∧
      ((t.after gainMore).book = gained.book →
        3000000 ≤ ((t.after gainMore).after leaveAlice).paidOut →
        ((t.after gainMore).after leaveAlice).book.shares alice =
          (t.after gainMore).book.shares alice - n) := by
  obtain ⟨n, t, hok⟩ := Tx.exists_ok_of_succeeds (x := previewWithdraw 3000000)
    (r := honest) (s := gained) (by decide +kernel)
  obtain rfl := Tx.commit_of_ok hok
  have hgain : ((previewWithdraw 3000000).commit honest gained).book.assets ≤ 6000000 := by
    decide +kernel
  have hrun : Reaches (fun t step => step.KeepsHolders t)
      ((previewWithdraw 3000000).commit honest gained)
      (((previewWithdraw 3000000).commit honest gained).replay [gainMore]) :=
    .of_admits ⟨⟨hgain, by decide +kernel⟩, trivial⟩
  exact ⟨n, _, hok, preview_bounds_withdraw opened_opened gained_reached (by decide +kernel)
    (by decide +kernel) hok hrun (ok_after (by decide +kernel))⟩

end Sample

/-! ## Balances -/

theorem getBalance_ok (h : (getBalance user).Ok env w n t) :
    t = w ∧ n = Pool.assetsFor w.book.totalShares w.book.assets (w.book.shares user) := by
  simp only [getBalance, readShares, Tx.ok_bind, Tx.ok_get, Tx.ok_pure, ok_requireInitialized,
    existsAndEq, exists_const, and_assoc, true_and] at h
  obtain ⟨-, hconverted⟩ := h
  obtain ⟨rfl, rfl⟩ := ok_convertToAssetsInternal hconverted
  exact ⟨rfl, rfl⟩

/-- A withdrawal of the balance shown pays no more than that. Paid in full, it leaves a balance of
    zero. -/
theorem withdraw_balance (hb : w.book.Sound) (hfresh : w.transfers = []) (hpositive : 0 < n)
    (hn : n = Pool.assetsFor w.book.totalShares w.book.assets (w.book.shares user))
    (h : (withdraw user n).Ok env w () w') : w'.paidOut ≤ n ∧ (w'.paidOut = n →
      Pool.assetsFor w'.book.totalShares w'.book.assets (w'.book.shares user) = 0) := by
  obtain ⟨actual, paid, burned, hle, hactual, hw, hburned, hpaid⟩ := withdraw_burned h
  obtain ⟨hterms, hbook⟩ := hw.terms
  have hS := hterms.supply_pos
  have hA := hterms.assets_pos
  rw [(paid_out (hw.paidOnce hfresh) hw.foreign).1]
  constructor
  · have hheld : 0 ≤ w.book.shares user := hb.conserved.nonneg user
    rw [hn, Pool.assetsFor_eq hA.le hheld, Int.le_ediv_iff_mul_le hS]
    exact hterms.price.trans (Int.mul_le_mul_of_nonneg_right hterms.burned_le hA.le)
  · intro hfull
    -- the shares burned are those the whole balance costs
    have hup : burned ≤ Pool.sharesForUp w.book.totalShares w.book.assets n := by
      rw [hburned, Pool.sharesForUp_le_iff hS hA hactual.le]
      exact (Int.mul_le_mul_of_nonneg_right hle hS.le).trans
        (Pool.le_sharesForUp_mul hS hA hpositive.le)
    have hdown : Pool.sharesForUp w.book.totalShares w.book.assets n ≤ burned :=
      (Pool.le_assetsFor_iff hS hA hpositive).mp (by rw [← hpaid, hfull])
    have hexact : burned = Pool.sharesForUp w.book.totalShares w.book.assets n :=
      le_antisymm hup hdown
    have hshares := hw.shares.1
    rw [hbook] at hshares ⊢
    rw [hshares]
    show Pool.assetsFor (w.book.totalShares - burned) (w.book.assets - paid) _ = 0
    rw [hfull, hexact]
    exact Pool.assetsFor_rest hS hA hpositive (hb.conserved.shares_le user) hn.symm

end NeuroWealth.Vault
