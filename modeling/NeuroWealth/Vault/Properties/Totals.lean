import NeuroWealth.Vault.Proofs.BookProofs

/-!
# The totals of the USDC pool

The supply is the sum of all holdings in every run without negative reports. The total is never
negative, and zero without shares, in every run that stays clear of four kinds of step.
-/

namespace NeuroWealth.Vault

open Transaction MachineInt SharePool

variable {env : Env} {w w0 w' : World} {b : Book} {user : Address} {amount minted burned : Int}

/-! ## Conservation -/

/-- Along every run without negative reports, shares are not negative and add up to the supply. -/
theorem shares_conserved (h0 : w0.Opened)
    (h : Reaches (fun _ step => step.ReportsNonNegative) w0 w) :
    (Function.support w.book.shares).Finite ∧ ∑ᶠ u, w.book.shares u = w.book.totalShares ∧
      ∀ u, 0 ≤ w.book.shares u := by
  obtain ⟨hsound, -⟩ := sound_of_reaches h0 h fun _ _ hadm => hadm
  exact ⟨hsound.conserved.finite, hsound.conserved.sum, hsound.conserved.nonneg⟩

namespace Sample

/-- Two deposits and a withdrawal. -/
def busy : List Step :=
  [.call honest (.deposit alice 5000000), .call honest (.deposit bob 7000000),
    .call honest (.withdraw alice 2000000)]

theorem busy_conserved :
    (opened.replay busy).book.totalShares = 10000000 ∧
      ((Function.support (opened.replay busy).book.shares).Finite ∧
        ∑ᶠ u, (opened.replay busy).book.shares u = (opened.replay busy).book.totalShares ∧
        ∀ u, 0 ≤ (opened.replay busy).book.shares u) :=
  ⟨by decide +kernel,
    shares_conserved opened_opened (.of_admits ⟨trivial, trivial, trivial, trivial⟩)⟩

end Sample

/-! ## Sane totals -/

/-- A sound book without assets when it has no shares. -/
structure Book.Sane (b : Book) : Prop extends b.Sound where
  no_orphans : b.totalShares = 0 → b.assets = 0

theorem Book.Sane.wellFormed (h : b.Sane) : b.pool.WellFormed :=
  ⟨h.conserved, h.assets_nonneg, h.no_orphans⟩

/-- The user owns every share, none of them locked. -/
def World.SoleHolder (w : World) (user : Address) : Prop :=
  w.book.shares user = w.book.totalShares ∧ w.locks.lockedShares user ≤ 0

/-- Steps clear of the defects: no report is negative or of assets without shares, no asset is
    deposited while there are no shares, and the pools never answer a full exit of the sole holder
    with less than the total but so much that every share is burned for it. -/
def Step.KeepsTotalsSane (w : World) : Step → Prop
  | .call _ (.updateTotalAssets _ newTotal _ _) =>
    0 ≤ newTotal ∧ (w.book.totalShares = 0 → newTotal = 0)
  | .call _ (.depositAsset ..) => w.book.totalShares ≠ 0
  | .call env (.withdrawAll user) =>
    w.SoleHolder user → w.idle < w.book.assets → w.deployment.currentProtocol.isActive = true →
      let available := w.idle + w.delivery env (w.book.assets - w.idle)
      w.book.assets ≤ available ∨
        available * w.book.totalShares ≤ (w.book.totalShares - 1) * w.book.assets
  | _ => True

theorem Book.Sane.of_supply_pos (h : b.Sound) (hpos : 0 < b.totalShares) : b.Sane :=
  ⟨h, fun hz => absurd hz hpos.ne'⟩

/-- A burn of the whole supply that pays its value leaves nothing. -/
theorem Book.Sane.debited {deposits : Int} (h : b.Sane) (hle : burned ≤ b.shares user)
    (hamount : amount ≤ b.assets) (hfits : i128.Fits (b.totalShares - burned))
    (hwhole : burned = b.totalShares → amount = b.assets) :
    (b.debited user amount burned deposits).Sane := by
  refine ⟨h.toSound.debited hle hamount hfits, fun hz => ?_⟩
  have hall : burned = b.totalShares := by
    change b.totalShares - burned = 0 at hz
    omega
  show b.assets - amount = 0
  rw [hwhole hall]
  omega

theorem Deposited.sane {payer : Address} (h : Deposited w w' payer user amount minted)
    (hb : w.book.Sane) : w'.book.Sane := by
  refine .of_supply_pos (h.sound hb.toSound) ?_
  obtain ⟨token, t, -, hpaid, hcredit⟩ := h.steps
  have hminted := hb.minted_pos h.positive h.nonzero h.price
  have hsupply := hb.supply_nonneg
  rw [hcredit.book]
  show 0 < t.book.totalShares + minted
  rw [hpaid.book]
  omega

theorem BatchRun.sane {agent : Address} (h : BatchRun agent w w') (hb : w.book.Sane) :
    w'.book.Sane := by
  induction h with
  | quiet h => rwa [h.book]
  | deposited h => exact h.sane hb
  | returned _ _ h1 h2 => rwa [h2.book, h1.book]
  | trans _ _ ih1 ih2 => exact ih2 (ih1 hb)

theorem Withdrawal.sane (h : Withdrawal env w w' user amount burned) (hb : w.book.Sane)
    (hwhole : burned = w.book.totalShares → amount = w.book.assets) : w'.book.Sane := by
  obtain ⟨hterms, hbook⟩ := h.terms
  rw [hbook]
  exact hb.debited hterms.burned_le (hterms.amount_le hb.conserved hb.assets_nonneg) hterms.fits
    hwhole

/-- The whole supply is worth the whole total. -/
theorem Withdrawal.whole_of_value (h : Withdrawal env w w' user amount burned) (hb : w.book.Sane)
    (hvalue : amount = Pool.assetsFor w.book.totalShares w.book.assets burned)
    (hall : burned = w.book.totalShares) : amount = w.book.assets := by
  rw [hvalue, hall]
  exact Pool.assetsFor_self h.terms.1.supply_pos hb.assets_nonneg

/-- Who redeems the whole supply owns it unlocked, and is entitled to the whole total. -/
theorem soleHolder_of_burned (hb : w.book.Sane) (hS : 0 < w.book.totalShares)
    (hle : w.book.totalShares ≤ w.unlockedShares user) :
    w.SoleHolder user ∧ w.entitlement user = w.book.assets := by
  have hshares := hb.shares_le user
  have hcases : ¬ 0 < w.locks.lockedShares user ∧ w.unlockedShares user = w.book.shares user := by
    unfold World.unlockedShares at hle ⊢
    split_ifs at hle ⊢ with hlock
    · omega
    · exact ⟨hlock, rfl⟩
  have hall : w.unlockedShares user = w.book.totalShares := by omega
  refine ⟨⟨by omega, by omega⟩, ?_⟩
  unfold World.entitlement
  rw [hall]
  exact Pool.assetsFor_self hS hb.assets_nonneg

/-- `withdraw_all` of the whole supply pays the whole total while the pools do not fall short. -/
theorem withdrawAll_whole (h : Withdrawal env w w' user amount burned) (hb : w.book.Sane)
    (hunlocked : burned ≤ w.unlockedShares user)
    (hvalue : (amount = w.entitlement user ∧ burned = w.unlockedShares user) ∨
      ∃ t0 t, Quiet w t0 ∧ Shortfall env t0 t user amount burned)
    (hlegs : w.legs = 0) (hsafe : (Step.call env (.withdrawAll user)).KeepsTotalsSane w)
    (hall : burned = w.book.totalShares) : amount = w.book.assets := by
  have hS := h.terms.1.supply_pos
  have hA := h.terms.1.assets_pos
  obtain ⟨hsole, hent⟩ := soleHolder_of_burned hb hS (hall ▸ hunlocked)
  rcases hvalue with ⟨hpaid, -⟩ | ⟨t0, t, hq, hshort⟩
  · rw [hpaid, hent]
  · exfalso
    have hidle : t0.idle = w.idle := hq.settled.idle
    have hent0 : t0.entitlement user = w.book.assets := by
      rw [← hent]
      unfold World.entitlement World.unlockedShares
      rw [hq.book, hq.locks]
    have hdelivery := hshort.pulled.delivery (hq.legs.trans hlegs)
    have hactive := hshort.pulled.1
    have hneeded := hshort.pulled.2.1
    have hlt := hshort.short
    have hleast := hshort.least
    have hpos : 0 < amount := hshort.positive
    have hsame : t0.delivery env (w.book.assets - w.idle) =
        w.delivery env (w.book.assets - w.idle) := by
      unfold World.delivery World.answer World.proportionalLegs
      simp only [hq.deployment, hq.settled.position]
    rw [hent0, hidle] at hneeded hdelivery
    rw [hent0] at hlt
    rw [hsame, ← hshort.delivered] at hdelivery
    rw [hq.book, hall] at hleast
    rw [hq.deployment] at hactive
    have hbound := hsafe hsole (by omega) hactive
    simp only [← hdelivery] at hbound
    rcases hbound with hfull | hfew
    · omega
    · have hle := (Pool.sharesForUp_le_iff hS hA hpos.le).mpr hfew
      omega

theorem Step.KeepsTotalsSane.reports {step : Step} (h : step.KeepsTotalsSane w) :
    step.ReportsNonNegative := by
  cases step with
  | ambient chain => trivial
  | call env call =>
    cases call
    case updateTotalAssets => exact h.1
    all_goals trivial

/-- Sane totals survive every call that meets the condition. -/
theorem Effect.sane {call : Call} (h : Effect env w w' call) (hlegs : w.legs = 0)
    (hsafe : (Step.call env call).KeepsTotalsSane w) (hb : w.book.Sane) : w'.book.Sane := by
  have hsound : w'.book.Sound := h.sound hsafe.reports hb.toSound
  cases h with
  | quiet _ h => rwa [h.book]
  | deposit hq h _ =>
    rw [← hq.book] at hb
    exact h.sane hb
  | batchDeposit h => exact h.sane hb
  | withdraw h hvalue => exact h.sane hb (h.whole_of_value hb hvalue)
  | withdrawAll h hunlocked hvalue =>
    exact h.sane hb (withdrawAll_whole h hb hunlocked hvalue hlegs hsafe)
  | emergencyWithdraw h hvalue => exact h.sane hb (h.whole_of_value hb hvalue)
  | @migrateShares user target amount h =>
    rw [h.book]
    refine hb.debited le_rfl (h.amount_le hb.toSound) h.fits fun hall => ?_
    have hS : 0 < w.book.totalShares := hall ▸ h.holder
    rw [h.value, hall]
    exact Pool.assetsFor_self hS hb.assets_nonneg
  | depositAsset _ _ _ _ h =>
    have hS : w'.book.totalShares = w.book.totalShares := by rw [h.book]; rfl
    exact ⟨hsound, fun hz => absurd (hS ▸ hz) hsafe⟩
  | @withdrawAsset user asset amount actual config _ h =>
    have hS : w'.book.totalShares = w.book.totalShares := by rw [h.book]; rfl
    refine ⟨hsound, fun hz => ?_⟩
    have hA : w.book.assets = 0 := hb.no_orphans (hS ▸ hz)
    have hpos := h.positive
    rw [h.book]
    show max (i128.saturate (w.book.totalAssets.getD 0 - actual)) 0 = 0
    rw [hb.stored, hA]
    have hneg : ¬ 0 < i128.saturate (0 - actual) := by
      rw [saturate_pos (by decide)]
      omega
    show max (i128.saturate (0 - actual)) 0 = 0
    omega
  | lockShares _ _ _ _ h => rwa [h.book]
  | unlockShares _ _ _ h => rwa [h.book]
  | funds _ h => rwa [h.poolStep.book]
  | updateTotalAssets _ h =>
    rw [h.book]
    exact ⟨hb.toSound.withTotals (D := w.book.totalDeposits) hsafe.1, hsafe.2⟩
  | setVenuePool h => rwa [h.book]
  | setMinHoldingPeriod h => rwa [h.book]
  | assets _ h => rwa [h.book]

theorem World.Fresh.sane (h : w.Fresh) : w.book.Sane := by
  refine ⟨h.sound, fun _ => ?_⟩
  rw [h.book]
  rfl

theorem sane_after (step : Step) (hi : w.Initialized) (hsafe : step.KeepsTotalsSane w)
    (hb : w.book.Sane) : (w.after step).book.Sane := by
  refine after_cases (P := fun t => t.book.Sane) step hi hb ?_ ?_
  · rintro env call w' rfl _ heffect
    exact heffect.sane rfl hsafe hb
  · intro chain _
    exact hb

theorem sane_of_reaches (h0 : w0.Opened)
    (h : Reaches (fun t step => step.KeepsTotalsSane t) w0 w) : w.book.Sane :=
  (h.invariant h0 h0.fresh.sane fun _ step hsafe hi hb => sane_after step hi hsafe hb).1

/-- In every run of steps clear of the defects, the total is stored, not negative, and zero while
    there are no shares. -/
theorem totals_sane (h0 : w0.Opened) (h : Reaches (fun t step => step.KeepsTotalsSane t) w0 w) :
    ∃ A, w.book.totalAssets = some A ∧ 0 ≤ A ∧ (w.book.totalShares = 0 → A = 0) := by
  have hsane := sane_of_reaches h0 h
  exact ⟨w.book.assets, hsane.stored, hsane.assets_nonneg, hsane.no_orphans⟩

namespace Sample

theorem busy_sane : ∃ A, (opened.replay busy).book.totalAssets = some A ∧ 0 ≤ A ∧
    ((opened.replay busy).book.totalShares = 0 → A = 0) :=
  totals_sane opened_opened (.of_admits ⟨trivial, trivial, trivial, trivial⟩)

/-- A co-signed report of -1 after one deposit. -/
def negativeReport : List Step :=
  [.call honest (.deposit alice 5000000), .call honest (.updateTotalAssets agent (-1) true 20000)]

/-- A report of USDC sent to a vault nobody has shares of. -/
def orphanReport : List Step :=
  [.ambient { opened.chain with balances := fun _ _ => 5 },
    .call honest (.updateTotalAssets agent 5 false 0)]

/-- Both halves fail: a reachable total is negative, and one is positive without shares. -/
theorem totals_not_sane :
    opened.Opened ∧
      (Reaches (fun _ _ => True) opened (opened.replay negativeReport) ∧
        (opened.replay negativeReport).book.totalAssets = some (-1)) ∧
      (Reaches (fun _ _ => True) opened (opened.replay orphanReport) ∧
        (opened.replay orphanReport).book.totalShares = 0 ∧
        (opened.replay orphanReport).book.totalAssets = some 5) :=
  ⟨opened_opened, ⟨.of_admits ⟨trivial, trivial, trivial⟩, by decide +kernel⟩,
    .of_admits ⟨trivial, trivial, trivial⟩, by decide +kernel, by decide +kernel⟩

end Sample

end NeuroWealth.Vault
