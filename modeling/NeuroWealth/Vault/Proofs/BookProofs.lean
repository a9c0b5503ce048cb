import NeuroWealth.Vault.Proofs.MachineProofs

/-!
# The book as a share pool

Deposits are mints and withdrawals are burns of the pool behind the book. A book is sound when
its shares add up and its total is stored and not negative; every call keeps it so as long as
no report is negative.
-/

namespace NeuroWealth.Vault

open Transaction MachineInt SharePool

variable {env : Env} {w w' : World} {b b' : Book} {user : Address} {amount minted burned : Int}

/-! ## Mints and burns -/

theorem pool_credited {A : Int} (hA : b.totalAssets = some A) :
    (b.credited user amount minted).pool = b.pool.mint user amount minted := by
  have hassets : b.assets = A := by
    unfold Book.assets
    rw [hA]
    rfl
  ext
  · rfl
  · rfl
  · show b.totalAssets.getD (b.totalDeposits + amount) + amount = b.assets + amount
    rw [hassets, hA]
    rfl

theorem pool_debited {deposits : Int} :
    (b.debited user amount burned deposits).pool = b.pool.burn user amount burned := by
  ext v
  · show (if v = user then b.shares v - burned else b.shares v) =
      if v = user then b.shares v + -burned else b.shares v
    by_cases hv : v = user
    · rw [if_pos hv, if_pos hv]
      omega
    · rw [if_neg hv, if_neg hv]
  · rfl
  · rfl

/-! ## Sound books -/

structure Book.Sound (b : Book) : Prop where
  stored : b.totalAssets = some b.assets
  conserved : b.pool.Conserved
  assets_nonneg : 0 ≤ b.assets
  fits : i128.Fits b.totalShares

/-- The same of a book whose total may have any sign. -/
structure Book.Tallied (b : Book) : Prop where
  stored : b.totalAssets = some b.assets
  conserved : b.pool.Conserved
  fits : i128.Fits b.totalShares

theorem Book.Sound.tallied (h : b.Sound) : b.Tallied := ⟨h.stored, h.conserved, h.fits⟩

theorem Book.Tallied.sound (h : b.Tallied) (hA : 0 ≤ b.assets) : b.Sound :=
  ⟨h.stored, h.conserved, hA, h.fits⟩

theorem Book.Sound.supply_nonneg (h : b.Sound) : 0 ≤ b.totalShares := h.conserved.supply_nonneg

theorem Book.Sound.shares_le (h : b.Sound) (u : Address) : b.shares u ≤ b.totalShares :=
  h.conserved.shares_le u

/-- The stored total can be replaced by any other. -/
theorem Book.Tallied.withTotals {A D : Int} (h : b.Tallied) :
    ({ b with totalAssets := some A, totalDeposits := D } : Book).Tallied :=
  ⟨rfl, ⟨h.conserved.finite, h.conserved.sum, h.conserved.nonneg⟩, h.fits⟩

theorem Book.Sound.withTotals {A D : Int} (h : b.Sound) (hA : 0 ≤ A) :
    ({ b with totalAssets := some A, totalDeposits := D } : Book).Sound :=
  h.tallied.withTotals.sound hA

/-- A deposit into a sound book mints a positive number of shares. -/
theorem Book.Sound.minted_pos (h : b.Sound) (hpos : 0 < amount) (hne : minted ≠ 0)
    (hprice : ∀ A, b.totalAssets = some A → minted = Pool.sharesFor b.totalShares A amount) :
    0 < minted := by
  have hnonneg : 0 ≤ Pool.sharesFor b.totalShares b.assets amount :=
    Pool.sharesFor_nonneg h.supply_nonneg h.assets_nonneg hpos.le
  rw [← hprice _ h.stored] at hnonneg
  omega

theorem Book.Tallied.assets_credited (h : b.Tallied) :
    (b.credited user amount minted).assets = b.assets + amount :=
  congrArg Pool.assets (pool_credited h.stored : (b.credited user amount minted).pool = _)

theorem Book.Tallied.credited (h : b.Tallied) (hminted : 0 ≤ minted)
    (hfits : i128.Fits (b.totalShares + minted)) : (b.credited user amount minted).Tallied := by
  refine ⟨?_, ?_, hfits⟩
  · rw [h.assets_credited]
    show some (b.totalAssets.getD _ + amount) = _
    rw [h.stored]
    rfl
  · rw [pool_credited h.stored]
    exact h.conserved.mint hminted

theorem Book.Sound.credited (h : b.Sound) (hpos : 0 < amount) (hminted : 0 < minted)
    (hfits : i128.Fits (b.totalShares + minted)) : (b.credited user amount minted).Sound := by
  have hA := h.assets_nonneg
  apply (h.tallied.credited hminted.le hfits).sound
  rw [h.tallied.assets_credited]
  omega

/-- A burn pays no more than the whole total. -/
theorem Book.Redeems.amount_le (hr : b.Redeems user amount burned) (h : b.pool.Conserved)
    (hA : 0 ≤ b.assets) : amount ≤ b.assets := by
  have hS := hr.supply_pos
  have hsupply : burned ≤ b.totalShares := hr.burned_le.trans (h.shares_le user)
  have hmul : amount * b.totalShares ≤ b.assets * b.totalShares :=
    calc amount * b.totalShares ≤ burned * b.assets := hr.price
      _ ≤ b.totalShares * b.assets := Int.mul_le_mul_of_nonneg_right hsupply hA
      _ = b.assets * b.totalShares := mul_comm _ _
  exact le_of_mul_le_mul_right hmul hS

theorem Book.Tallied.debited {deposits : Int} (h : b.Tallied) (hle : burned ≤ b.shares user)
    (hfits : i128.Fits (b.totalShares - burned)) :
    (b.debited user amount burned deposits).Tallied := by
  refine ⟨rfl, ?_, hfits⟩
  rw [pool_debited]
  exact h.conserved.burn hle

theorem Book.Sound.debited {deposits : Int} (h : b.Sound) (hle : burned ≤ b.shares user)
    (hamount : amount ≤ b.assets) (hfits : i128.Fits (b.totalShares - burned)) :
    (b.debited user amount burned deposits).Sound := by
  apply (h.tallied.debited hle hfits).sound
  show 0 ≤ b.assets - amount
  omega

/-! ## One call -/

theorem Credit.sound (h : Credit w w' user amount minted) (hb : w.book.Sound) (hpos : 0 < amount)
    (hminted : 0 < minted) : w'.book.Sound := by
  have hfits := h.fits
  rw [h.book] at hfits ⊢
  exact hb.credited hpos hminted hfits

theorem Deposited.sound {payer : Address} (h : Deposited w w' payer user amount minted)
    (hb : w.book.Sound) : w'.book.Sound := by
  obtain ⟨token, t, -, hpaid, hcredit⟩ := h.steps
  have hminted := hb.minted_pos h.positive h.nonzero h.price
  rw [← hpaid.book] at hb
  exact hcredit.sound hb h.positive hminted

theorem BatchRun.sound {agent : Address} (h : BatchRun agent w w') (hb : w.book.Sound) :
    w'.book.Sound := by
  induction h with
  | quiet h => rwa [h.book]
  | deposited h => exact h.sound hb
  | returned _ _ h1 h2 => rwa [h2.book, h1.book]
  | trans _ _ ih1 ih2 => exact ih2 (ih1 hb)

theorem Withdrawal.tallied (h : Withdrawal env w w' user amount burned) (hb : w.book.Tallied) :
    w'.book.Tallied := by
  obtain ⟨hterms, hbook⟩ := h.terms
  rw [hbook]
  exact hb.debited hterms.burned_le hterms.fits

theorem Withdrawal.sound (h : Withdrawal env w w' user amount burned) (hb : w.book.Sound) :
    w'.book.Sound := by
  obtain ⟨hterms, hbook⟩ := h.terms
  rw [hbook]
  exact hb.debited hterms.burned_le (hterms.amount_le hb.conserved hb.assets_nonneg) hterms.fits

/-- A migration burns all shares of the user for their value. -/
theorem Migrated.book {target : Address} (h : Migrated env w w' user target amount) :
    w'.book = w.book.debited user amount (w.book.shares user) w.book.totalDeposits := by
  obtain ⟨token, t, -, hpaid, hcalled⟩ := h.steps
  obtain ⟨chain, -, hframe⟩ := hcalled.frame
  rw [hframe.book]
  exact hpaid.book

theorem Migrated.amount_le {target : Address} (h : Migrated env w w' user target amount)
    (hb : w.book.Sound) : amount ≤ w.book.assets := by
  rw [h.value]
  exact Pool.assetsFor_le hb.supply_nonneg hb.assets_nonneg (hb.conserved.nonneg user)
    (hb.shares_le user)

theorem Migrated.sound {target : Address} (h : Migrated env w w' user target amount)
    (hb : w.book.Sound) : w'.book.Sound := by
  rw [h.book]
  exact hb.debited le_rfl (h.amount_le hb) h.fits

theorem Migrated.tallied {target : Address} (h : Migrated env w w' user target amount)
    (hb : w.book.Tallied) : w'.book.Tallied := by
  rw [h.book]
  exact hb.debited le_rfl h.fits

theorem AssetPayout.book {token : Address} {owed actual : Int}
    (h : AssetPayout env w w' user token owed actual) : w'.book = w.book.reduceGlobal actual := by
  obtain ⟨t0, t1, t2, -, -, hrebooked, hpaid⟩ := h.steps
  rw [hpaid.book, hrebooked.book]

/-- The report of the total in a step, if it is one, is not negative. -/
def Step.ReportsNonNegative : Step → Prop
  | .call _ (.updateTotalAssets _ newTotal _ _) => 0 ≤ newTotal
  | _ => True

/-- No call makes a sound book unsound, except for a negative report. -/
theorem Effect.sound {call : Call} (h : Effect env w w' call)
    (hreport : (Step.call env call).ReportsNonNegative) (hb : w.book.Sound) : w'.book.Sound := by
  cases h with
  | quiet _ h => rwa [h.book]
  | deposit hq h _ =>
    rw [← hq.book] at hb
    exact h.sound hb
  | batchDeposit h => exact h.sound hb
  | withdraw h => exact h.sound hb
  | withdrawAll h => exact h.sound hb
  | emergencyWithdraw h => exact h.sound hb
  | migrateShares h => exact h.sound hb
  | depositAsset _ hpos _ _ h =>
    rw [h.book]
    refine hb.withTotals (saturate_nonneg ?_)
    rw [hb.stored]
    have hA := hb.assets_nonneg
    show 0 ≤ w.book.assets + _
    omega
  | withdrawAsset _ h =>
    rw [h.book]
    exact hb.withTotals (le_max_right _ _)
  | lockShares _ _ _ _ h => rwa [h.book]
  | unlockShares _ _ _ h => rwa [h.book]
  | funds _ h => rwa [h.poolStep.book]
  | updateTotalAssets _ h =>
    rw [h.book]
    exact hb.withTotals (D := w.book.totalDeposits) hreport
  | setVenuePool h => rwa [h.book]
  | setMinHoldingPeriod h => rwa [h.book]
  | assets _ h => rwa [h.book]

/-- A batch, which may mint for its entries at any sign of the total. -/
def Call.isBatch : Call → Bool
  | .batchDeposit .. => true
  | _ => false

/-- The books add up after every call, except for a batch while the total is negative. -/
theorem Effect.tallied {call : Call} (h : Effect env w w' call)
    (hbatch : call.isBatch = true → 0 ≤ w.book.assets) (hb : w.book.Tallied) :
    w'.book.Tallied := by
  cases h with
  | quiet _ h => rwa [h.book]
  | deposit hq h hminted =>
    obtain ⟨token, t, -, hpaid, hcredit⟩ := h.steps
    have hfits := hcredit.fits
    rw [hcredit.book, hpaid.book, hq.book] at hfits ⊢
    exact hb.credited hminted.le hfits
  | batchDeposit h => exact (h.sound (hb.sound (hbatch rfl))).tallied
  | withdraw h => exact h.tallied hb
  | withdrawAll h => exact h.tallied hb
  | emergencyWithdraw h => exact h.tallied hb
  | migrateShares h => exact h.tallied hb
  | depositAsset _ _ _ _ h =>
    rw [h.book]
    exact hb.withTotals
  | withdrawAsset _ h =>
    rw [h.book]
    exact hb.withTotals
  | lockShares _ _ _ _ h => rwa [h.book]
  | unlockShares _ _ _ h => rwa [h.book]
  | funds _ h => rwa [h.poolStep.book]
  | updateTotalAssets _ h =>
    rw [h.book]
    exact hb.withTotals (D := w.book.totalDeposits)
  | setVenuePool h => rwa [h.book]
  | setMinHoldingPeriod h => rwa [h.book]
  | assets _ h => rwa [h.book]

/-! ## Runs -/

theorem World.Fresh.sound (h : w.Fresh) : w.book.Sound := by
  rw [h.book]
  refine ⟨rfl, ⟨?_, ?_, ?_⟩, ?_, ?_⟩
  · simp [Book.pool, Function.support]
  · simp [Book.pool]
  · intro u
    exact le_rfl
  · exact le_rfl
  · decide

/-- One step of a run. -/
theorem sound_after (step : Step) (hi : w.Initialized) (hreport : step.ReportsNonNegative)
    (hb : w.book.Sound) : (w.after step).book.Sound := by
  refine after_cases (P := fun t => t.book.Sound) step hi hb ?_ ?_
  · rintro env call w' rfl _ heffect
    exact heffect.sound hreport hb
  · intro chain _
    exact hb

/-- Along every run without negative reports the book stays sound. -/
theorem sound_of_reaches {w0 : World} {admissible : World → Step → Prop} (h0 : w0.Opened)
    (h : Reaches admissible w0 w)
    (hreport : ∀ t step, admissible t step → step.ReportsNonNegative) :
    w.book.Sound ∧ w.Initialized :=
  h.invariant h0 h0.fresh.sound fun t step hadm hi hb => sound_after step hi (hreport t step hadm) hb

/-- No batch is attempted while the total is negative. -/
def Step.BatchesSolvent (w : World) : Step → Prop
  | .call _ (.batchDeposit ..) => 0 ≤ w.book.assets
  | _ => True

theorem solvent_of_isBatch {call : Call} (hstep : (Step.call env call).BatchesSolvent w)
    (hcall : call.isBatch = true) : 0 ≤ w.book.assets := by
  cases call
  case batchDeposit => exact hstep
  all_goals exact absurd hcall Bool.false_ne_true

theorem tallied_after (step : Step) (hi : w.Initialized) (hstep : step.BatchesSolvent w)
    (hb : w.book.Tallied) : (w.after step).book.Tallied := by
  refine after_cases (P := fun t => t.book.Tallied) step hi hb ?_ ?_
  · rintro env call w' rfl _ heffect
    exact heffect.tallied (solvent_of_isBatch hstep) hb
  · intro chain _
    exact hb

/-- Along every run without a batch at a negative total the books add up. -/
theorem tallied_of_reaches {w0 : World} (h0 : w0.Opened)
    (h : Reaches (fun t step => step.BatchesSolvent t) w0 w) : w.book.Tallied ∧ w.Initialized :=
  h.invariant (P := fun t => t.book.Tallied) h0 h0.fresh.sound.tallied
    fun _ step hstep hi hb => tallied_after step hi hstep hb

end NeuroWealth.Vault
