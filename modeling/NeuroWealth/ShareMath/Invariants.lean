import NeuroWealth.ShareMath.Proofs.VaultModelProofs

/-!
# Invariants of the share model

Whatever is asked of the model, in any order and number: its supply stays the sum of its users'
shares, nothing goes negative, the principal respects the cap and no operation lowers the rate.
-/

namespace NeuroWealth.ShareMath.VaultModel

open MachineInt SharePool

variable {m m' : VaultModel} {user : Nat} {assets minted burned returned : Int} {i : Fin 2}

/-- The pool is conserved, its assets are not negative, and the principal respects the cap. -/
structure Sound (m : VaultModel) : Prop extends m.pool.Conserved where
  assets_nonneg : 0 ≤ m.totalAssets
  capped : 0 < m.tvlCap → m.totalDeposits ≤ m.tvlCap

theorem Sound.shares_nonneg (h : m.Sound) (i : Fin 2) : 0 ≤ m.userShares i := h.nonneg i

theorem Sound.totalShares_nonneg (h : m.Sound) : 0 ≤ m.totalShares :=
  h.toConserved.supply_nonneg

/-- The supply is the sum of the two balances. -/
theorem Sound.totalShares_eq (h : m.Sound) : m.totalShares = m.userShares 0 + m.userShares 1 := by
  have hsum : ∑ᶠ i, m.userShares i = m.totalShares := h.sum
  rw [← hsum, finsum_eq_sum_of_fintype, Fin.sum_univ_two]

theorem sound_withTvlCap {c : Int} : (withTvlCap c).Sound := by
  refine ⟨⟨Set.toFinite _, ?_, fun _ => le_rfl⟩, le_rfl, fun hc => hc.le⟩
  show ∑ᶠ _ : Fin 2, (0 : Int) = 0
  exact finsum_zero

/-- No accepted operation lowers the value of a share. -/
def RateKept (m m' : VaultModel) : Prop :=
  0 < m.totalShares → 0 < m'.totalShares →
    m.totalAssets * m'.totalShares ≤ m'.totalAssets * m.totalShares

/-! ## One operation -/

theorem Deposited.sound (h : Deposited m m' user assets i minted) (hm : m.Sound) : m'.Sound := by
  have hpool : m'.pool = m.pool.mint i assets minted := by
    rw [h.after]
    exact pool_mint
  have hconserved : m'.pool.Conserved := by
    rw [hpool]
    exact hm.toConserved.mint h.minted_nonneg
  refine ⟨hconserved, ?_, ?_⟩
  · rw [h.after]
    exact add_nonneg hm.assets_nonneg h.positive.le
  · rw [h.after]
    exact fun hcap => (h.cap hcap).2

theorem Deposited.rate (h : Deposited m m' user assets i minted) : RateKept m m' := by
  intro hS _
  have hprice : minted * m.totalAssets ≤ assets * m.totalShares := by
    rw [sharesFloor_some h.conversion]
    exact Pool.sharesFor_mul_le hS h.positive.le
  rw [h.after]
  show m.totalAssets * (m.totalShares + minted) ≤ (m.totalAssets + assets) * m.totalShares
  calc m.totalAssets * (m.totalShares + minted)
      = m.totalAssets * m.totalShares + minted * m.totalAssets := by ring
    _ ≤ m.totalAssets * m.totalShares + assets * m.totalShares := by omega
    _ = (m.totalAssets + assets) * m.totalShares := by ring

theorem Withdrawn.returned_eq (h : Withdrawn m m' user assets i burned returned) :
    returned = Pool.assetsFor m.totalShares m.totalAssets burned :=
  assetsFromShares_some h.value

theorem Withdrawn.returned_nonneg (h : Withdrawn m m' user assets i burned returned)
    (hm : m.Sound) : 0 ≤ returned := by
  rw [h.returned_eq]
  exact Pool.assetsFor_nonneg hm.totalShares_nonneg hm.assets_nonneg h.burned_nonneg

theorem Withdrawn.returned_le (h : Withdrawn m m' user assets i burned returned)
    (hm : m.Sound) : returned ≤ m.totalAssets := by
  have hheld : m.userShares i ≤ m.totalShares := hm.toConserved.shares_le i
  rw [h.returned_eq]
  apply Pool.assetsFor_le hm.totalShares_nonneg hm.assets_nonneg h.burned_nonneg
  exact h.covered.trans hheld

theorem Withdrawn.sound (h : Withdrawn m m' user assets i burned returned) (hm : m.Sound) :
    m'.Sound := by
  have hpool : m'.pool = m.pool.burn i returned burned := by
    rw [h.after]
    exact pool_burn
  have hconserved : m'.pool.Conserved := by
    rw [hpool]
    exact hm.toConserved.burn h.covered
  have hreturned := h.returned_nonneg hm
  refine ⟨hconserved, ?_, ?_⟩
  · rw [h.after]
    exact sub_nonneg.mpr (h.returned_le hm)
  · rw [h.after]
    intro hcap
    have hcap' : 0 < m.tvlCap := hcap
    have hbefore : m.totalDeposits ≤ m.tvlCap := hm.capped hcap
    have hleast := i128.least_nonpos
    show i128.saturate (m.totalDeposits - returned) ≤ m.tvlCap
    unfold Format.saturate
    omega

theorem Withdrawn.rate (h : Withdrawn m m' user assets i burned returned) (hm : m.Sound) :
    RateKept m m' := by
  intro hS _
  have hprice : returned * m.totalShares ≤ burned * m.totalAssets := by
    rw [h.returned_eq]
    exact Pool.assetsFor_mul_le hS.le hm.assets_nonneg h.burned_nonneg
  rw [h.after]
  show m.totalAssets * (m.totalShares - burned) ≤ (m.totalAssets - returned) * m.totalShares
  calc m.totalAssets * (m.totalShares - burned)
      = m.totalAssets * m.totalShares - burned * m.totalAssets := by ring
    _ ≤ m.totalAssets * m.totalShares - returned * m.totalShares := by omega
    _ = (m.totalAssets - returned) * m.totalShares := by ring

theorem accrueYield_sound {yieldAmount : Int} (h : m.accrueYield yieldAmount = some m')
    (hm : m.Sound) : m'.Sound := by
  obtain ⟨hnonneg, -, rfl⟩ := accrueYield_some.mp h
  exact ⟨⟨hm.finite, hm.sum, hm.nonneg⟩, add_nonneg hm.assets_nonneg hnonneg, hm.capped⟩

theorem accrueYield_rate {yieldAmount : Int} (h : m.accrueYield yieldAmount = some m') :
    RateKept m m' := by
  obtain ⟨hnonneg, -, rfl⟩ := accrueYield_some.mp h
  intro hS _
  show m.totalAssets * m.totalShares ≤ (m.totalAssets + yieldAmount) * m.totalShares
  apply mul_le_mul_of_nonneg_right _ hS.le
  omega

theorem run_sound {op : Operation} (h : op.run m = some m') (hm : m.Sound) : m'.Sound := by
  cases op with
  | deposit user assets =>
    obtain ⟨i, minted, hdep⟩ := deposit_some.mp h
    exact hdep.sound hm
  | withdraw user assets =>
    obtain ⟨i, burned, returned, hwd⟩ := withdraw_some.mp h
    exact hwd.sound hm
  | accrueYield yieldAmount => exact accrueYield_sound h hm

theorem run_rate {op : Operation} (h : op.run m = some m') (hm : m.Sound) : RateKept m m' := by
  cases op with
  | deposit user assets =>
    obtain ⟨i, minted, hdep⟩ := deposit_some.mp h
    exact hdep.rate
  | withdraw user assets =>
    obtain ⟨i, burned, returned, hwd⟩ := withdraw_some.mp h
    exact hwd.rate hm
  | accrueYield yieldAmount => exact accrueYield_rate h

theorem run_tvlCap {op : Operation} (h : op.run m = some m') : m'.tvlCap = m.tvlCap := by
  cases op with
  | deposit user assets =>
    obtain ⟨i, minted, hdep⟩ := deposit_some.mp h
    rw [hdep.after]
  | withdraw user assets =>
    obtain ⟨i, burned, returned, hwd⟩ := withdraw_some.mp h
    rw [hwd.after]
  | accrueYield yieldAmount =>
    obtain ⟨-, -, rfl⟩ := accrueYield_some.mp h
    rfl

/-! ## Any number of operations -/

/-- A rejected operation leaves everything as it was. -/
theorem after_cases (m : VaultModel) (op : Operation) :
    op.run m = some (m.after op) ∨ m.after op = m := by
  unfold after
  cases h : op.run m with
  | none => exact .inr rfl
  | some m' => exact .inl rfl

theorem replay_sound (ops : List Operation) (hm : m.Sound) :
    (m.replay ops).Sound ∧ (m.replay ops).tvlCap = m.tvlCap := by
  induction ops generalizing m with
  | nil => exact ⟨hm, rfl⟩
  | cons op ops ih =>
    show ((m.after op).replay ops).Sound ∧ ((m.after op).replay ops).tvlCap = m.tvlCap
    rcases m.after_cases op with h | h
    · obtain ⟨hsound, hcap⟩ := ih (run_sound h hm)
      exact ⟨hsound, hcap.trans (run_tvlCap h)⟩
    · rw [h]
      exact ih hm

/-- The model after any operations from an empty vault: the supply is the sum of the balances,
    nothing is negative, the principal respects the cap and no further operation lowers the rate. -/
theorem model_invariants (start : VaultModel)
    (hstart : start = empty ∨ ∃ c, 0 ≤ c ∧ start = withTvlCap c) (ops : List Operation) :
    let m := start.replay ops
    m.totalShares = m.userShares 0 + m.userShares 1 ∧
      (0 ≤ m.userShares 0 ∧ 0 ≤ m.userShares 1 ∧ 0 ≤ m.totalShares) ∧ 0 ≤ m.totalAssets ∧
      (0 < start.tvlCap → m.totalDeposits ≤ start.tvlCap) ∧
      ∀ (op : Operation) m', op.run m = some m' → 0 < m.totalShares → 0 < m'.totalShares →
        m.totalAssets * m'.totalShares ≤ m'.totalAssets * m.totalShares := by
  intro m
  have hsound : start.Sound := by
    rcases hstart with rfl | ⟨c, -, rfl⟩
    · exact sound_withTvlCap
    · exact sound_withTvlCap
  obtain ⟨hm, hcap⟩ := replay_sound ops hsound
  refine ⟨hm.totalShares_eq, ⟨hm.shares_nonneg 0, hm.shares_nonneg 1, hm.totalShares_nonneg⟩,
    hm.assets_nonneg, ?_, fun op m' h => run_rate h hm⟩
  intro hpos
  rw [← hcap]
  apply hm.capped
  rw [hcap]
  exact hpos

theorem model_invariants_busy :
    let m := (withTvlCap 100).replay [.deposit 0 60, .accrueYield 7, .deposit 1 30, .deposit 1 30,
      .withdraw 0 13, .withdraw 5 1]
    m.userShares 0 = 48 ∧ m.userShares 1 = 26 ∧ m.totalShares = m.userShares 0 + m.userShares 1 :=
  ⟨by decide, by decide, (model_invariants (withTvlCap 100) (.inr ⟨100, by decide, rfl⟩) _).1⟩

end NeuroWealth.ShareMath.VaultModel
