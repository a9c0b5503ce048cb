import NeuroWealth.ShareMath.VaultModel
import NeuroWealth.Foundation.Proofs.MachineIntProofs
import NeuroWealth.Foundation.Proofs.SharePoolProofs

/-!
# What the share model's operations do

The conversions are those of a share pool. An accepted deposit mints, an accepted withdrawal burns
and accrued yield revalues the pool of the model's two users.
-/

namespace NeuroWealth.ShareMath

open MachineInt SharePool

/-! ## Conversions -/

section Conversions

variable {S A x z : Int}

theorem sharesFloor_some (h : sharesFloor x S A = some z) : z = Pool.sharesFor S A x := by
  unfold sharesFloor at h
  unfold Pool.sharesFor
  split_ifs at h ⊢
  · cases h
    rfl
  · cases h
    rfl
  · simp only [Option.bind_eq_bind, Option.bind_eq_some_iff, checkedMul_eq_some,
      checkedDiv_eq_some] at h
    obtain ⟨product, ⟨rfl, -⟩, -, hz, -⟩ := h
    exact hz

theorem sharesCeil_some (h : sharesCeil x S A = some z) : z = Pool.sharesForUp S A x := by
  unfold sharesCeil at h
  unfold Pool.sharesForUp
  split_ifs at h ⊢
  · cases h
    rfl
  · cases h
    rfl
  · simp only [Option.bind_eq_bind, Option.bind_eq_some_iff, checkedMul_eq_some,
      checkedSub_eq_some, checkedAdd_eq_some, checkedDiv_eq_some] at h
    obtain ⟨product, ⟨rfl, -⟩, round, ⟨rfl, -⟩, numerator, ⟨rfl, -⟩, -, hz, -⟩ := h
    exact hz

theorem assetsFromShares_some (h : assetsFromShares x S A = some z) :
    z = Pool.assetsFor S A x := by
  unfold assetsFromShares at h
  unfold Pool.assetsFor
  split_ifs at h ⊢
  · cases h
    rfl
  · cases h
    rfl
  · simp only [Option.bind_eq_bind, Option.bind_eq_some_iff, checkedMul_eq_some,
      checkedDiv_eq_some] at h
    obtain ⟨product, ⟨rfl, -⟩, -, hz, -⟩ := h
    exact hz

end Conversions

/-! ## Operations -/

namespace VaultModel

variable {m m' : VaultModel} {user : Nat} {assets : Int}

/-- The share pool of the model's two users. -/
def pool (m : VaultModel) : Pool (Fin 2) := ⟨m.userShares, m.totalShares, m.totalAssets⟩

/-- The pool for which shares of user `i` were minted. -/
theorem pool_mint {i : Fin 2} {minted d : Int} :
    (⟨m.totalShares + minted, m.totalAssets + assets, m.setShares i (m.userShares i + minted), d,
      m.tvlCap⟩ : VaultModel).pool = m.pool.mint i assets minted := by
  ext j
  · show (if j = i then m.userShares i + minted else m.userShares j) =
      if j = i then m.userShares j + minted else m.userShares j
    split_ifs with hj
    · rw [hj]
    · rfl
  · rfl
  · rfl

/-- The pool of which shares of user `i` were burned. -/
theorem pool_burn {i : Fin 2} {burned returned d : Int} :
    (⟨m.totalShares - burned, m.totalAssets - returned, m.setShares i (m.userShares i - burned), d,
      m.tvlCap⟩ : VaultModel).pool = m.pool.burn i returned burned := by
  ext j
  · show (if j = i then m.userShares i - burned else m.userShares j) =
      if j = i then m.userShares j + -burned else m.userShares j
    split_ifs with hj
    · rw [hj, sub_eq_add_neg]
    · rfl
  · rfl
  · rfl

/-- What an accepted deposit was checked for, and the model it leaves. -/
structure Deposited (m m' : VaultModel) (user : Nat) (assets : Int) (i : Fin 2) (minted : Int) :
    Prop where
  slot : slot user = some i
  positive : 0 < assets
  cap : 0 < m.tvlCap → i128.Fits (m.totalDeposits + assets) ∧ m.totalDeposits + assets ≤ m.tvlCap
  conversion : sharesFloor assets m.totalShares m.totalAssets = some minted
  minted_nonneg : 0 ≤ minted
  shares_fit : i128.Fits (m.userShares i + minted)
  supply_fits : i128.Fits (m.totalShares + minted)
  assets_fit : i128.Fits (m.totalAssets + assets)
  deposits_fit : i128.Fits (m.totalDeposits + assets)
  after : m' = ⟨m.totalShares + minted, m.totalAssets + assets,
    m.setShares i (m.userShares i + minted), m.totalDeposits + assets, m.tvlCap⟩

theorem capAllows_some {u : Unit} : m.capAllows assets = some u ↔
    (0 < m.tvlCap →
      i128.Fits (m.totalDeposits + assets) ∧ m.totalDeposits + assets ≤ m.tvlCap) := by
  unfold capAllows
  split_ifs with hcap
  · simp only [Option.bind_eq_bind, Option.bind_eq_some_iff, checkedAdd_eq_some,
      Option.guard_eq_some', existsAndEq, and_assoc, true_and]
    tauto
  · simp [hcap]

/-- A deposit is accepted exactly when all its checks pass. -/
theorem deposit_some : m.deposit user assets = some m' ↔
    ∃ i minted, Deposited m m' user assets i minted := by
  simp only [deposit, Option.bind_eq_bind, Option.bind_eq_some_iff, Option.guard_eq_some', capAllows_some,
    checkedAdd_eq_some, Option.some.injEq, exists_const, existsAndEq, and_assoc, true_and]
  constructor
  · rintro ⟨i, hslot, hpos, hcap, minted, hminted, hnonneg, h1, h2, h3, h4, rfl⟩
    exact ⟨i, minted, hslot, hpos, hcap, hminted, hnonneg, h1, h2, h3, h4, rfl⟩
  · rintro ⟨i, minted, hslot, hpos, hcap, hminted, hnonneg, h1, h2, h3, h4, rfl⟩
    exact ⟨i, hslot, hpos, hcap, minted, hminted, hnonneg, h1, h2, h3, h4, rfl⟩

/-- What an accepted withdrawal was checked for, and the model it leaves. -/
structure Withdrawn (m m' : VaultModel) (user : Nat) (assets : Int) (i : Fin 2)
    (burned returned : Int) : Prop where
  slot : slot user = some i
  positive : 0 < assets
  conversion : sharesCeil assets m.totalShares m.totalAssets = some burned
  burned_nonneg : 0 ≤ burned
  covered : burned ≤ m.userShares i
  value : assetsFromShares burned m.totalShares m.totalAssets = some returned
  shares_fit : i128.Fits (m.userShares i - burned)
  supply_fits : i128.Fits (m.totalShares - burned)
  assets_fit : i128.Fits (m.totalAssets - returned)
  after : m' = ⟨m.totalShares - burned, m.totalAssets - returned,
    m.setShares i (m.userShares i - burned), i128.saturatingSub m.totalDeposits returned, m.tvlCap⟩

/-- A withdrawal is accepted exactly when all its checks pass. -/
theorem withdraw_some : m.withdraw user assets = some m' ↔
    ∃ i burned returned, Withdrawn m m' user assets i burned returned := by
  simp only [withdraw, Option.bind_eq_bind, Option.bind_eq_some_iff, Option.guard_eq_some',
    checkedSub_eq_some, Option.some.injEq, exists_const, existsAndEq, and_assoc, true_and]
  constructor
  · rintro ⟨i, hslot, hpos, burned, hburned, hnonneg, hle, returned, hreturned, h1, h2, h3, rfl⟩
    exact ⟨i, burned, returned, hslot, hpos, hburned, hnonneg, hle, hreturned, h1, h2, h3, rfl⟩
  · rintro ⟨i, burned, returned, hslot, hpos, hburned, hnonneg, hle, hreturned, h1, h2, h3, rfl⟩
    exact ⟨i, hslot, hpos, burned, hburned, hnonneg, hle, returned, hreturned, h1, h2, h3, rfl⟩

theorem accrueYield_some {yieldAmount : Int} : m.accrueYield yieldAmount = some m' ↔
    0 ≤ yieldAmount ∧ i128.Fits (m.totalAssets + yieldAmount) ∧
      m' = { m with totalAssets := m.totalAssets + yieldAmount } := by
  unfold accrueYield
  split_ifs with hneg
  · constructor
    · intro h
      cases h
    · rintro ⟨hnonneg, -⟩
      omega
  · simp only [Option.bind_eq_bind, Option.bind_eq_some_iff, checkedAdd_eq_some,
      Option.some.injEq, existsAndEq, and_assoc, true_and]
    constructor
    · rintro ⟨hfits, rfl⟩
      exact ⟨not_lt.mp hneg, hfits, rfl⟩
    · rintro ⟨-, hfits, rfl⟩
      exact ⟨hfits, rfl⟩

end VaultModel

end NeuroWealth.ShareMath
