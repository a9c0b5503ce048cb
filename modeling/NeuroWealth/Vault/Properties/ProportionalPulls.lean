import NeuroWealth.Vault.Proofs.LiquidityProofs

/-!
# Proportional pulls

A pull in multi-protocol mode asks both venues for their shares of the target, rounded to whole
stroops. Neither share is ever more than the venue holds, so nothing is spilled over.
-/

namespace NeuroWealth.Vault

open Transaction MachineInt

variable {env : Env} {w : World} {needed blend dex target total minOut : Int}

/-! ## The split -/

/-- What a pull asks of Blend before anything is spilled over. -/
def blendShare (needed blend dex : Int) : Int :=
  let total := i128.saturatingAdd blend dex
  (min needed total * blend).tdiv total

/-- One of the two spill branches of the split is taken. -/
def Spills (needed blend dex : Int) : Prop :=
  dex < min needed (i128.saturatingAdd blend dex) - blendShare needed blend dex ∨
    blend < blendShare needed blend dex

/-- `x` of Blend and `y` of the DEX are in proportion to what they hold, up to rounding, and
    together all that is needed or all there is. -/
structure Proportional (needed blend dex x y : Int) : Prop where
  from_blend : 0 ≤ x ∧ x ≤ blend
  from_dex : 0 ≤ y ∧ y ≤ dex
  whole : x + y = min needed (blend + dex)
  share : |x * (blend + dex) - min needed (blend + dex) * blend| < blend + dex

theorem min_saturatingAdd (hfits : i128.Fits needed) (hblend : 0 ≤ blend) (hdex : 0 ≤ dex) :
    min needed (i128.saturatingAdd blend dex) = min needed (blend + dex) := by
  obtain ⟨-, hgreatest⟩ := hfits
  rcases saturatingAdd_cases hblend hdex with htotal | ⟨htotal, hless⟩
  · rw [htotal]
  · rw [htotal]
    omega

/-- A share of an exact total leaves the rest within the other holding. -/
theorem proportional_exact (hneeded : 0 ≤ needed) (hblend : 0 ≤ blend) (hdex : 0 ≤ dex)
    (hpos : 0 < blend + dex) (htarget : target = min needed (blend + dex)) :
    Proportional needed blend dex (target * blend / (blend + dex))
      (target - target * blend / (blend + dex)) := by
  have hnonneg : 0 ≤ target := by omega
  have hle : target ≤ blend + dex := by omega
  have hshare : 0 ≤ target * blend / (blend + dex) :=
    Int.ediv_nonneg (mul_nonneg hnonneg hblend) hpos.le
  have hupper : target * blend / (blend + dex) ≤ blend := by
    apply Int.ediv_le_of_le_mul hpos
    rw [mul_comm blend]
    exact mul_le_mul_of_nonneg_right hle hblend
  have hwhole : target * blend / (blend + dex) ≤ target := by
    apply Int.ediv_le_of_le_mul hpos
    exact mul_le_mul_of_nonneg_left (by omega) hnonneg
  have hrest : target - dex ≤ target * blend / (blend + dex) := by
    rw [Int.le_ediv_iff_mul_le hpos]
    have hgap : 0 ≤ dex * (blend + dex - target) := mul_nonneg hdex (by omega)
    linarith [hgap, mul_comm dex target, mul_comm dex blend]
  have hmod := Int.emod_nonneg (target * blend) hpos.ne'
  have hlt := Int.emod_lt_of_pos (target * blend) hpos
  have hdiv := Int.mul_ediv_add_emod (target * blend) (blend + dex)
  refine ⟨⟨hshare, hupper⟩, ⟨by omega, by omega⟩, by omega, ?_⟩
  rw [← htarget, abs_lt, mul_comm _ (blend + dex)]
  omega

/-- Under a total that was cut off, a product that fits is at most one share of it, and the target
    is within the other holding. -/
theorem proportional_cut {M : Int} (hneeded : 0 < needed) (hblend : 0 ≤ blend)
    (hprod : target * blend ≤ M) (hle : needed ≤ M) (hless : M < blend + dex)
    (htarget : target = min needed (blend + dex)) :
    Proportional needed blend dex (target * blend / M) (target - target * blend / M) := by
  have hpos : 0 < target := by omega
  have hM : 0 < M := by omega
  have hnonneg : 0 ≤ target * blend := mul_nonneg hpos.le hblend
  have hfew : blend ≤ M := (le_mul_of_one_le_left hblend hpos).trans hprod
  have hshare : 0 ≤ target * blend / M := Int.ediv_nonneg hnonneg hM.le
  have hupper : target * blend / M ≤ blend := by
    apply Int.ediv_le_of_le_mul hM
    rw [mul_comm blend]
    exact mul_le_mul_of_nonneg_right (by omega) hblend
  have hwhole : target * blend / M ≤ target := by
    apply Int.ediv_le_of_le_mul hM
    exact mul_le_mul_of_nonneg_left hfew hpos.le
  have hdex : target ≤ dex := by
    by_contra hmore
    have hgap : 0 ≤ (blend - 1) * (target - 1) := mul_nonneg (by omega) (by omega)
    have hexpand : (blend - 1) * (target - 1) = target * blend - blend - target + 1 := by ring
    omega
  refine ⟨⟨hshare, hupper⟩, ⟨by omega, by omega⟩, by omega, ?_⟩
  rw [← htarget]
  rcases hprod.eq_or_lt with heq | hlt
  · rw [heq, Int.ediv_self hM.ne', one_mul, abs_lt]
    omega
  · rw [Int.ediv_eq_zero_of_lt hnonneg hlt, zero_mul, zero_sub, abs_neg, abs_of_nonneg hnonneg]
    omega

/-- The split without its spill branches is proportional. -/
theorem blendShare_spec (hneeded : 0 < needed) (hfits : i128.Fits needed) (hblend : 0 ≤ blend)
    (hdex : 0 ≤ dex) (hpos : 0 < blend + dex)
    (hprod : i128.Fits (min needed (blend + dex) * blend)) :
    Proportional needed blend dex (blendShare needed blend dex)
      (min needed (i128.saturatingAdd blend dex) - blendShare needed blend dex) := by
  have hnonneg : 0 ≤ min needed (blend + dex) * blend :=
    mul_nonneg (lt_min hneeded hpos).le hblend
  have hshare : blendShare needed blend dex =
      min needed (blend + dex) * blend / i128.saturatingAdd blend dex := by
    unfold blendShare
    simp only [min_saturatingAdd hfits hblend hdex, Int.tdiv_eq_ediv_of_nonneg hnonneg]
  rw [hshare, min_saturatingAdd hfits hblend hdex]
  rcases saturatingAdd_cases (F := i128) hblend hdex with hexact | ⟨hcut, hless⟩
  · rw [hexact]
    exact proportional_exact hneeded.le hblend hdex hpos rfl
  · rw [hcut]
    exact proportional_cut hneeded hblend hprod.2 hfits.2 hless rfl

/-- A proportional split spills nothing. -/
theorem Proportional.not_spills
    (h : Proportional needed blend dex (blendShare needed blend dex)
      (min needed (i128.saturatingAdd blend dex) - blendShare needed blend dex)) :
    ¬ Spills needed blend dex := by
  rintro (hspill | hspill)
  · exact absurd h.from_dex.2 (not_le.mpr hspill)
  · exact absurd h.from_blend.2 (not_le.mpr hspill)

theorem proportionalSplit_of_not_spills (h : ¬ Spills needed blend dex) :
    proportionalSplit (min needed (i128.saturatingAdd blend dex)) blend dex
      (blendShare needed blend dex) = (blendShare needed blend dex,
        min needed (i128.saturatingAdd blend dex) - blendShare needed blend dex) := by
  obtain ⟨hdex, hblend⟩ := not_or.mp h
  unfold proportionalSplit
  simp only [if_neg hdex, if_neg hblend]

/-! ## The pull -/

/-- Both legs of a pull and the bookkeeping behind them. -/
def pullLegs (fromBlend fromDex minOut : Int) : Contract Int := do
  let blend ← withdrawShare .blend fromBlend minOut
  let dex ← withdrawShare .dex fromDex minOut
  let after ← syncDeployedSplit
  setCurrentProtocol (deriveProtocolSummary after.1 after.2)
  pure (i128.saturatingAdd blend dex)

/-- A pull from two positions asks each venue for its share of what is needed, up to rounding and
    never for more than it holds, and neither spill branch is taken. -/
theorem withdrawProportionally_split (hneeded : 0 < needed) (hfits : i128.Fits needed)
    (hblend : 0 ≤ blend) (hdex : 0 ≤ dex) (hpos : 0 < blend + dex)
    (hprod : i128.Fits (min needed (blend + dex) * blend))
    (hreadBlend : (getVenueBalance .blend).Ok env w blend w)
    (hreadDex : (getVenueBalance .dex).Ok env w dex w) :
    ¬ Spills needed blend dex ∧ ∃ x y, Proportional needed blend dex x y ∧
      ((withdrawProportionally needed minOut).run env).run w =
        ((pullLegs x y minOut).run env).run w := by
  have hspec := blendShare_spec hneeded hfits hblend hdex hpos hprod
  have hspills := hspec.not_spills
  have htotal : 0 < i128.saturatingAdd blend dex := by
    have hzero := saturatingAdd_eq_zero (F := i128) (by decide) hblend hdex
    have hge := saturatingAdd_nonneg (F := i128) hblend hdex
    omega
  have hproduct : i128.Fits (min needed (i128.saturatingAdd blend dex) * blend) := by
    rwa [min_saturatingAdd hfits hblend hdex]
  have hx := hspec.from_blend.1
  have hy := hspec.from_dex.1
  have hsum := hspec.whole
  have hfrom : i128.Fits (blendShare needed blend dex) := fits_of_le hx (by omega) hfits
  have hrest : i128.Fits
      (min needed (i128.saturatingAdd blend dex) - blendShare needed blend dex) :=
    fits_of_le hy (by omega) hfits
  refine ⟨hspills, _, _, hspec, ?_⟩
  unfold withdrawProportionally
  rw [if_neg (not_le.mpr hneeded), Tx.Ok.run_bind hreadBlend, Tx.Ok.run_bind hreadDex]
  simp only [if_neg (not_le.mpr htotal)]
  refine (Tx.Ok.run_bind (ok_checkedMul.mpr ⟨⟨rfl, hproduct⟩, rfl⟩)).trans ?_
  refine (Tx.Ok.run_bind (ok_checkedDiv.mpr ⟨⟨htotal.ne', rfl, hfrom⟩, rfl⟩)).trans ?_
  refine (Tx.Ok.run_bind (ok_checkedSub.mpr ⟨⟨rfl, hrest⟩, rfl⟩)).trans ?_
  have hlegs := proportionalSplit_of_not_spills hspills
  unfold blendShare at hlegs
  simp only [hlegs]
  rfl

namespace Sample

/-- Ten stroops lie in Blend and twenty in the DEX. -/
def lopsided : World :=
  { opened with
    deployment := { pool := fun _ => some blendPool }
    chain := { opened.chain with
      positions := fun venue _ _ => match venue with | .blend => 10 | .dex => 20 } }

/-- Seven stroops are split between them. -/
theorem lopsided_split : ¬ Spills 7 10 20 ∧ ∃ x y, Proportional 7 10 20 x y ∧
    ((withdrawProportionally 7 0).run honest).run lopsided =
      ((pullLegs x y 0).run honest).run lopsided := by
  have htoken : lopsided.usdcToken = some usdc := rfl
  exact withdrawProportionally_split (by decide) (by decide) (by decide) (by decide) (by decide)
    (by decide) (getVenueBalance_succeeds htoken) (getVenueBalance_succeeds htoken)

end Sample

end NeuroWealth.Vault
