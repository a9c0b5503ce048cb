import NeuroWealth.Foundation.Coalitions
import NeuroWealth.Vault.Proofs.BookProofs

/-!
# What calls do to the share price

No call lowers the price of an outstanding share, except for a report of less and the calls of the
asset pools, which move the global total without shares.
-/

namespace NeuroWealth.Vault

open Transaction MachineInt SharePool

variable {env : Env} {w w' : World} {call : Call} {user : Address} {amount minted burned : Int}

theorem Deposited.priceLe {payer : Address} (h : Deposited w w' payer user amount minted)
    (hb : w.book.Sound) (hS : 0 < w.book.totalShares) : w.book.pool.PriceLe w'.book.pool := by
  obtain ⟨token, t, -, hpaid, hcredit⟩ := h.steps
  rw [hcredit.book, hpaid.book, pool_credited hb.stored]
  refine Pool.priceLe_mint ?_
  rw [h.price _ hb.stored]
  exact Pool.sharesFor_mul_le hS h.positive.le

theorem Deposited.supply_pos {payer : Address} (h : Deposited w w' payer user amount minted)
    (hb : w.book.Sound) : 0 < w'.book.totalShares := by
  have hminted := hb.minted_pos h.positive h.nonzero h.price
  have hS := hb.supply_nonneg
  obtain ⟨token, t, -, hpaid, hcredit⟩ := h.steps
  rw [hcredit.book, hpaid.book]
  show 0 < w.book.totalShares + minted
  omega

theorem BatchRun.priceLe {agent : Address} (h : BatchRun agent w w') (hb : w.book.Sound)
    (hS : 0 < w.book.totalShares) :
    w.book.pool.PriceLe w'.book.pool ∧ 0 < w'.book.totalShares := by
  induction h with
  | quiet h =>
    rw [h.book]
    exact ⟨.refl, hS⟩
  | deposited h => exact ⟨h.priceLe hb hS, h.supply_pos hb⟩
  | returned _ _ h1 h2 =>
    rw [h2.book, h1.book]
    exact ⟨.refl, hS⟩
  | trans h1 h2 ih1 ih2 =>
    obtain ⟨hfirst, hmid⟩ := ih1 hb hS
    obtain ⟨hsecond, hlast⟩ := ih2 (h1.sound hb) hmid
    exact ⟨.trans hmid hS.le hlast.le hfirst hsecond, hlast⟩

theorem Withdrawal.priceLe (h : Withdrawal env w w' user amount burned) :
    w.book.pool.PriceLe w'.book.pool := by
  obtain ⟨hterms, hbook⟩ := h.terms
  rw [hbook, pool_debited]
  exact Pool.priceLe_burn hterms.price

theorem Migrated.priceLe {target : Address} (h : Migrated env w w' user target amount)
    (hb : w.book.Sound) : w.book.pool.PriceLe w'.book.pool := by
  rw [h.book, pool_debited]
  refine Pool.priceLe_burn ?_
  rw [h.value]
  exact Pool.assetsFor_mul_le hb.supply_nonneg hb.assets_nonneg (hb.conserved.nonneg user)

/-- Steps that do not write the total down: reports of less and the calls of the asset pools are
    left out. -/
def Step.KeepsPrice (w : World) : Step → Prop
  | .call _ (.updateTotalAssets _ newTotal _ _) => w.book.assets ≤ newTotal
  | .call _ (.depositAsset ..) => False
  | .call _ (.withdrawAsset ..) => False
  | _ => True

theorem Step.KeepsPrice.reports {step : Step} (h : step.KeepsPrice w) (hb : w.book.Sound) :
    step.ReportsNonNegative := by
  cases step with
  | ambient chain => trivial
  | call env call =>
    cases call
    case updateTotalAssets => exact hb.assets_nonneg.trans h
    all_goals trivial

theorem Effect.priceLe (h : Effect env w w' call) (hstep : (Step.call env call).KeepsPrice w)
    (hb : w.book.Sound) (hS : 0 < w.book.totalShares) : w.book.pool.PriceLe w'.book.pool := by
  cases h with
  | quiet _ h => exact h.book ▸ .refl
  | deposit hq h _ =>
    rw [← hq.book] at hb hS ⊢
    exact h.priceLe hb hS
  | batchDeposit h => exact (h.priceLe hb hS).1
  | withdraw h => exact h.priceLe
  | withdrawAll h => exact h.priceLe
  | emergencyWithdraw h => exact h.priceLe
  | migrateShares h => exact h.priceLe hb
  | depositAsset => exact hstep.elim
  | withdrawAsset => exact hstep.elim
  | lockShares _ _ _ _ h => exact h.book ▸ .refl
  | unlockShares _ _ _ h => exact h.book ▸ .refl
  | funds _ h => exact h.poolStep.book ▸ .refl
  | updateTotalAssets _ h =>
    rw [h.book]
    exact Pool.priceLe_revalue hS.le hstep
  | setVenuePool h => exact h.book ▸ .refl
  | setMinHoldingPeriod h => exact h.book ▸ .refl
  | assets _ h => exact h.book ▸ .refl

/-- The same of a step of the machine. -/
theorem priceLe_after (step : Step) (hi : w.Initialized) (hstep : step.KeepsPrice w)
    (hb : w.book.Sound) (hS : 0 < w.book.totalShares) :
    w.book.pool.PriceLe (w.after step).book.pool := by
  refine after_cases (P := fun t => w.book.pool.PriceLe t.book.pool) step hi .refl ?_ ?_
  · rintro env call w' rfl _ heffect
    exact heffect.priceLe (w := w.entered) hstep hb hS
  · intro chain _
    exact .refl

end NeuroWealth.Vault
