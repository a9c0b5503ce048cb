import NeuroWealth.Vault.Proofs.BookProofs

/-!
# Principal and assets

`TotalDeposits` stays between zero and `TotalAssets` in every run without loss reports whose
migrations take no principal. A migration lowers the total only, so it has to be covered by yield.
-/

namespace NeuroWealth.Vault

open Transaction MachineInt SharePool

variable {env : Env} {w w0 w' : World} {b : Book} {user : Address} {amount minted burned : Int}

/-- A sound book whose principal is covered by its assets. -/
structure Book.Principled (b : Book) : Prop extends b.Sound where
  deposits_nonneg : 0 ≤ b.totalDeposits
  deposits_le : b.totalDeposits ≤ b.assets

/-- A report does not lower the total. -/
def Step.ReportsNoLoss (w : World) : Step → Prop
  | .call _ (.updateTotalAssets _ newTotal _ _) => w.book.assets ≤ newTotal
  | _ => True

/-- A migrating user's shares are worth no more than the yield of the whole pool. -/
def Step.MigratesYield (w : World) : Step → Prop
  | .call _ (.migrateShares user) =>
    Pool.assetsFor w.book.totalShares w.book.assets (w.book.shares user) ≤
      w.book.assets - w.book.totalDeposits
  | _ => True

/-! ## Operations on the counters -/

theorem Book.depositsAfterWithdraw_nonneg : 0 ≤ b.depositsAfterWithdraw amount :=
  le_max_right _ _

theorem Book.depositsAfterWithdraw_le (hle : b.totalDeposits ≤ b.assets)
    (hamount : amount ≤ b.assets) : b.depositsAfterWithdraw amount ≤ b.assets - amount := by
  unfold Book.depositsAfterWithdraw Format.saturatingSub
  by_cases hcovered : 0 ≤ b.totalDeposits - amount
  · have hsat : i128.saturate (b.totalDeposits - amount) ≤ b.totalDeposits - amount :=
      saturate_le hcovered
    omega
  · have hpos : ¬ 0 < i128.saturate (b.totalDeposits - amount) := by
      rw [saturate_pos (by decide)]
      omega
    omega

theorem Book.Principled.credited (h : b.Principled) (hpos : 0 < amount) (hminted : 0 < minted)
    (hfits : i128.Fits (b.totalShares + minted)) : (b.credited user amount minted).Principled := by
  have hnonneg := h.deposits_nonneg
  have hle := h.deposits_le
  refine ⟨h.toSound.credited hpos hminted hfits, ?_, ?_⟩
  · show 0 ≤ b.totalDeposits + amount
    omega
  · rw [h.tallied.assets_credited]
    show b.totalDeposits + amount ≤ b.assets + amount
    omega

/-- A redemption takes as much principal as there is, up to what it pays. -/
theorem Book.Principled.debited (h : b.Principled) (hle : burned ≤ b.shares user)
    (hamount : amount ≤ b.assets) (hfits : i128.Fits (b.totalShares - burned)) :
    (b.debited user amount burned (b.depositsAfterWithdraw amount)).Principled :=
  ⟨h.toSound.debited hle hamount hfits, Book.depositsAfterWithdraw_nonneg,
    Book.depositsAfterWithdraw_le h.deposits_le hamount⟩

/-! ## Calls -/

theorem Deposited.principled {payer : Address} (h : Deposited w w' payer user amount minted)
    (hb : w.book.Principled) : w'.book.Principled := by
  have hminted := hb.minted_pos h.positive h.nonzero h.price
  obtain ⟨token, t, -, hpaid, hcredit⟩ := h.steps
  have hfits := hcredit.fits
  rw [hcredit.book, hpaid.book] at hfits ⊢
  exact hb.credited h.positive hminted hfits

theorem BatchRun.principled {agent : Address} (h : BatchRun agent w w')
    (hb : w.book.Principled) : w'.book.Principled := by
  induction h with
  | quiet h => rwa [h.book]
  | deposited h => exact h.principled hb
  | returned _ _ h1 h2 => rwa [h2.book, h1.book]
  | trans _ _ ih1 ih2 => exact ih2 (ih1 hb)

theorem Withdrawal.principled (h : Withdrawal env w w' user amount burned)
    (hb : w.book.Principled) : w'.book.Principled := by
  obtain ⟨hterms, hbook⟩ := h.terms
  rw [hbook]
  exact hb.debited hterms.burned_le (hterms.amount_le hb.conserved hb.assets_nonneg) hterms.fits

/-- A migration keeps the principal covered exactly if the yield pays for it. -/
theorem Migrated.principled_iff {target : Address} (h : Migrated env w w' user target amount)
    (hb : w.book.Principled) :
    w'.book.Principled ↔ amount ≤ w.book.assets - w.book.totalDeposits := by
  have hassets : w'.book.assets = w.book.assets - amount := by
    rw [h.book]
    rfl
  have hdeposits : w'.book.totalDeposits = w.book.totalDeposits := by
    rw [h.book]
    rfl
  constructor
  · intro hprincipled
    have hle := hprincipled.deposits_le
    omega
  · intro hyield
    have hnonneg := hb.deposits_nonneg
    exact ⟨h.sound hb.toSound, by omega, by omega⟩

/-- Every call that reports no loss and migrates yield only keeps the principal covered. -/
theorem Effect.principled {call : Call} (h : Effect env w w' call)
    (hreport : (Step.call env call).ReportsNoLoss w)
    (hmigrates : (Step.call env call).MigratesYield w) (hb : w.book.Principled) :
    w'.book.Principled := by
  have hA := hb.assets_nonneg
  have hstored := hb.stored
  cases h with
  | quiet _ h => rwa [h.book]
  | deposit hq h _ =>
    rw [← hq.book] at hb
    exact h.principled hb
  | batchDeposit h => exact h.principled hb
  | withdraw h => exact h.principled hb
  | withdrawAll h => exact h.principled hb
  | emergencyWithdraw h => exact h.principled hb
  | migrateShares h =>
    apply (h.principled_iff hb).mpr
    rw [h.value]
    exact hmigrates
  | @depositAsset _ _ _ amount _ _ _ hpos _ _ h =>
    have hnonneg := hb.deposits_nonneg
    have hle := hb.deposits_le
    rw [h.book]
    refine ⟨hb.toSound.withTotals (saturate_nonneg ?_), saturate_nonneg ?_, saturate_mono ?_⟩
    · rw [hstored]
      show 0 ≤ w.book.assets + amount
      omega
    · omega
    · rw [hstored]
      show w.book.totalDeposits + amount ≤ w.book.assets + amount
      omega
  | @withdrawAsset _ _ _ actual _ _ h =>
    have hle := hb.deposits_le
    rw [h.book]
    refine ⟨hb.toSound.withTotals (le_max_right _ _), Book.depositsAfterWithdraw_nonneg, ?_⟩
    show max (i128.saturate (w.book.totalDeposits - actual)) 0 ≤
      max (i128.saturate (w.book.totalAssets.getD 0 - actual)) 0
    rw [hstored]
    apply max_le_max (saturate_mono _) le_rfl
    show w.book.totalDeposits - actual ≤ w.book.assets - actual
    omega
  | lockShares _ _ _ _ h => rwa [h.book]
  | unlockShares _ _ _ h => rwa [h.book]
  | funds _ h => rwa [h.poolStep.book]
  | @updateTotalAssets _ new _ _ _ h =>
    have hle := hb.deposits_le
    have hnew : w.book.assets ≤ new := hreport
    rw [h.book]
    refine ⟨hb.toSound.withTotals (hA.trans hnew), hb.deposits_nonneg, ?_⟩
    exact hle.trans hnew
  | setVenuePool h => rwa [h.book]
  | setMinHoldingPeriod h => rwa [h.book]
  | assets _ h => rwa [h.book]

/-! ## Runs -/

theorem World.Fresh.principled (h : w.Fresh) : w.book.Principled := by
  refine ⟨h.sound, ?_, ?_⟩
  · rw [h.book]
  · rw [h.book]
    exact le_rfl

/-- In every run without loss reports, whose migrations are each worth no more than the yield of
    the pool, the principal is between zero and the stored total. -/
theorem principal_covered (h0 : w0.Opened)
    (h : Reaches (fun t step => step.ReportsNoLoss t ∧ step.MigratesYield t) w0 w) :
    0 ≤ w.book.totalDeposits ∧
      ∃ A, w.book.totalAssets = some A ∧ w.book.totalDeposits ≤ A := by
  have hprincipled : w.book.Principled := by
    refine (h.invariant (P := fun t => t.book.Principled) h0 h0.fresh.principled ?_).1
    intro t step hadm hi hb
    obtain ⟨hreport, hmigrates⟩ := hadm
    refine after_cases (P := fun t => t.book.Principled) step hi hb ?_ ?_
    · rintro env call w' rfl _ heffect
      exact heffect.principled hreport hmigrates hb
    · intro chain _
      exact hb
  exact ⟨hprincipled.deposits_nonneg, w.book.assets, hprincipled.stored, hprincipled.deposits_le⟩

namespace Sample

def newVault : Address := ⟨9⟩

/-- A target that pulls the migrated amount from the user, as a vault's `deposit` does. -/
def collect (chain : Chain) (target user : Address) (amount : Int) : Option Chain :=
  some (chain.move usdc user target amount)

def collecting : Env := { honest with targetDeposit := collect }

/-- Bob's migration leaves five USDC of principal over two of assets. -/
def migratePrincipal : List Step :=
  [.call honest (.deposit alice 2000000), .call honest (.deposit bob 3000000),
    .call honest (.setMigrationTarget newVault), .call collecting (.migrateShares bob)]

theorem principal_not_covered :
    opened.Opened ∧
      Reaches (fun t step => step.ReportsNoLoss t) opened (opened.replay migratePrincipal) ∧
      (opened.replay migratePrincipal).book.totalDeposits = 5000000 ∧
      (opened.replay migratePrincipal).book.totalAssets = some 2000000 :=
  ⟨opened_opened, .of_admits ⟨trivial, trivial, trivial, trivial, trivial⟩, by decide +kernel,
    by decide +kernel⟩

/-- Five USDC of yield on five of principal let alice, who owns two fifths, migrate four. -/
def migrateYield : List Step :=
  [.call honest (.deposit alice 2000000), .call honest (.deposit bob 3000000),
    .ambient { opened.chain with balances := fun _ _ => 10000000 },
    .call honest (.updateTotalAssets agent 10000000 true 10000),
    .call honest (.setMigrationTarget newVault), .call collecting (.migrateShares alice)]

theorem principal_covered_migrated :
    (opened.replay migrateYield).book.totalShares = 3000000 ∧
      (0 ≤ (opened.replay migrateYield).book.totalDeposits ∧
        ∃ A, (opened.replay migrateYield).book.totalAssets = some A ∧
          (opened.replay migrateYield).book.totalDeposits ≤ A) := by
  have hreach : Reaches (fun t step => step.ReportsNoLoss t ∧ step.MigratesYield t) opened
      (opened.replay migrateYield) := by
    refine .of_admits ⟨⟨trivial, trivial⟩, ⟨trivial, trivial⟩, ⟨trivial, trivial⟩, ⟨?_, trivial⟩,
      ⟨trivial, trivial⟩, ⟨trivial, ?_⟩, trivial⟩
    · unfold Step.ReportsNoLoss
      decide +kernel
    · unfold Step.MigratesYield
      decide +kernel
  exact ⟨by decide +kernel, principal_covered opened_opened hreach⟩

end Sample

end NeuroWealth.Vault
