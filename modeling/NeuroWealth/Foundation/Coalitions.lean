import NeuroWealth.Foundation.Proofs.SharePoolProofs

/-!
# Coalitions of holders

Prices of a share pool are compared without division. Where the price does not fall, what a
coalition's shares are worth grows by no more than the assets of the pool: outsiders who keep their
shares lose nothing to it.
-/

namespace SharePool

namespace Pool

variable {ι : Type*} {p q r : Pool ι} {i : ι} {K : Set ι} {amount x : ℤ}

/-- A share of the second pool is worth no less than one of the first. -/
def PriceLe (p q : Pool ι) : Prop := p.assets * q.supply ≤ q.assets * p.supply

theorem PriceLe.refl : p.PriceLe p := le_rfl

theorem PriceLe.trans (hq : 0 < q.supply) (hp : 0 ≤ p.supply) (hr : 0 ≤ r.supply)
    (h1 : p.PriceLe q) (h2 : q.PriceLe r) : p.PriceLe r := by
  have hscaled : p.assets * r.supply * q.supply ≤ r.assets * p.supply * q.supply :=
    calc p.assets * r.supply * q.supply = p.assets * q.supply * r.supply := by ring
      _ ≤ q.assets * p.supply * r.supply := Int.mul_le_mul_of_nonneg_right h1 hr
      _ = q.assets * r.supply * p.supply := by ring
      _ ≤ r.assets * q.supply * p.supply := Int.mul_le_mul_of_nonneg_right h2 hp
      _ = r.assets * p.supply * q.supply := by ring
  exact le_of_mul_le_mul_right hscaled hq

/-- Minting at no better than the price does not lower it. -/
theorem priceLe_mint [DecidableEq ι] (h : x * p.assets ≤ amount * p.supply) :
    p.PriceLe (p.mint i amount x) := by
  show p.assets * (p.supply + x) ≤ (p.assets + amount) * p.supply
  linarith

/-- Burning at no better than the price does not lower it. -/
theorem priceLe_burn [DecidableEq ι] (h : amount * p.supply ≤ x * p.assets) :
    p.PriceLe (p.burn i amount x) := by
  show p.assets * (p.supply - x) ≤ (p.assets - amount) * p.supply
  linarith

/-- A higher valuation raises the price. -/
theorem priceLe_revalue {a : ℤ} (hS : 0 ≤ p.supply) (h : p.assets ≤ a) : p.PriceLe (p.revalue a) :=
  Int.mul_le_mul_of_nonneg_right h hS

/-- A holder who keeps at least the same shares keeps its claim. -/
theorem claim_le_of_price (hp : 0 < p.supply) (hq : 0 < q.supply) (hA : 0 ≤ q.assets)
    (hshares : p.shares i ≤ q.shares i) (hnonneg : 0 ≤ p.shares i) (h : p.PriceLe q) :
    p.claim i ≤ q.claim i := by
  refine ediv_le_ediv_of_mul_le hp hq ?_
  calc p.shares i * p.assets * q.supply = p.shares i * (p.assets * q.supply) := mul_assoc ..
    _ ≤ p.shares i * (q.assets * p.supply) := Int.mul_le_mul_of_nonneg_left h hnonneg
    _ = p.shares i * q.assets * p.supply := (mul_assoc ..).symm
    _ ≤ q.shares i * q.assets * p.supply :=
      Int.mul_le_mul_of_nonneg_right (Int.mul_le_mul_of_nonneg_right hshares hA) hp.le

/-- At a price that has not fallen an amount buys no more shares. -/
theorem sharesFor_le_of_price {a : ℤ} (hp : 0 < p.supply) (hpA : 0 < p.assets) (hq : 0 < q.supply)
    (hqA : 0 ≤ q.assets) (ha : 0 ≤ a) (h : p.PriceLe q) :
    sharesFor q.supply q.assets a ≤ sharesFor p.supply p.assets a := by
  have hx : 0 ≤ sharesFor q.supply q.assets a := sharesFor_nonneg hq.le hqA ha
  have hscaled : sharesFor q.supply q.assets a * p.assets * q.supply ≤ a * p.supply * q.supply :=
    calc sharesFor q.supply q.assets a * p.assets * q.supply
        = sharesFor q.supply q.assets a * (p.assets * q.supply) := mul_assoc ..
      _ ≤ sharesFor q.supply q.assets a * (q.assets * p.supply) :=
        Int.mul_le_mul_of_nonneg_left h hx
      _ = sharesFor q.supply q.assets a * q.assets * p.supply := (mul_assoc ..).symm
      _ ≤ a * q.supply * p.supply :=
        Int.mul_le_mul_of_nonneg_right (sharesFor_mul_le hq ha) hp.le
      _ = a * p.supply * q.supply := by ring
  exact (le_sharesFor_iff hp hpA ha).mpr (le_of_mul_le_mul_right hscaled hq)

/-- It costs no more of them either. -/
theorem sharesForUp_le_of_price {a : ℤ} (hp : 0 < p.supply) (hpA : 0 < p.assets)
    (hq : 0 < q.supply) (hqA : 0 < q.assets) (ha : 0 ≤ a) (h : p.PriceLe q) :
    sharesForUp q.supply q.assets a ≤ sharesForUp p.supply p.assets a := by
  have hx : 0 ≤ sharesForUp p.supply p.assets a := sharesForUp_nonneg hp hpA ha
  have hscaled : a * q.supply * p.supply ≤ sharesForUp p.supply p.assets a * q.assets * p.supply :=
    calc a * q.supply * p.supply = a * p.supply * q.supply := by ring
      _ ≤ sharesForUp p.supply p.assets a * p.assets * q.supply :=
        Int.mul_le_mul_of_nonneg_right (le_sharesForUp_mul hp hpA ha) hq.le
      _ = sharesForUp p.supply p.assets a * (p.assets * q.supply) := mul_assoc ..
      _ ≤ sharesForUp p.supply p.assets a * (q.assets * p.supply) :=
        Int.mul_le_mul_of_nonneg_left h hx
      _ = sharesForUp p.supply p.assets a * q.assets * p.supply := (mul_assoc ..).symm
  exact (sharesForUp_le_iff hq hqA ha).mpr (le_of_mul_le_mul_right hscaled hp)

/-! ## Coalitions -/

/-- The shares of a coalition. -/
noncomputable def held (p : Pool ι) (K : Set ι) : ℤ := ∑ᶠ i ∈ K, p.shares i

/-- What they are worth, exactly. -/
noncomputable def worth (p : Pool ι) (K : Set ι) : ℚ := p.held K * p.assets / p.supply

theorem held_nonneg (h : p.Conserved) : 0 ≤ p.held K :=
  finsum_nonneg fun i => finsum_nonneg fun _ => h.nonneg i

/-- A coalition and its outsiders hold all shares. -/
theorem held_add_held_compl (h : p.Conserved) : p.held K + p.held Kᶜ = p.supply := by
  have hsplit := finsum_mem_union' (f := p.shares) (disjoint_compl_right (a := K))
    (h.finite.inter_of_right K) (h.finite.inter_of_right Kᶜ)
  rw [Set.union_compl_self, finsum_mem_univ, h.sum] at hsplit
  exact hsplit.symm

theorem held_congr (h : ∀ i ∈ K, q.shares i = p.shares i) : q.held K = p.held K :=
  finsum_mem_congr rfl h

/-- With shares outstanding, coalition and outsiders own all assets. -/
theorem worth_eq_sub (h : p.Conserved) (hS : 0 < p.supply) :
    p.worth K = p.assets - p.worth Kᶜ := by
  have hne : (p.supply : ℚ) ≠ 0 := by exact_mod_cast hS.ne'
  have hheld : (p.held K : ℚ) = p.supply - p.held Kᶜ := by
    have hsum := held_add_held_compl (K := K) h
    push_cast [← hsum]
    ring
  unfold worth
  rw [hheld]
  field_simp

theorem worth_le_assets (h : p.Conserved) (hA : 0 ≤ p.assets) : p.worth K ≤ p.assets := by
  have hA' : (0 : ℚ) ≤ p.assets := by exact_mod_cast hA
  rcases h.supply_nonneg.eq_or_lt with hS | hS
  · unfold worth
    rw [← hS, Int.cast_zero, div_zero]
    exact hA'
  · rw [worth_eq_sub h hS]
    have hS' : (0 : ℚ) < p.supply := by exact_mod_cast hS
    have hout : (0 : ℚ) ≤ p.held Kᶜ := by exact_mod_cast held_nonneg h
    have hworth : 0 ≤ p.worth Kᶜ := div_nonneg (mul_nonneg hout hA') hS'.le
    linarith

/-- Shares that are kept are worth no less at no lower a price. -/
theorem worth_le_worth (hp : 0 < p.supply) (hq : 0 < q.supply) (hheld : q.held K = p.held K)
    (hnonneg : 0 ≤ p.held K) (h : p.PriceLe q) : p.worth K ≤ q.worth K := by
  have hp' : (0 : ℚ) < p.supply := by exact_mod_cast hp
  have hq' : (0 : ℚ) < q.supply := by exact_mod_cast hq
  have hn : (0 : ℚ) ≤ p.held K := by exact_mod_cast hnonneg
  have h' : (p.assets : ℚ) * q.supply ≤ q.assets * p.supply := by exact_mod_cast h
  unfold worth
  rw [hheld, div_le_div_iff₀ hp' hq']
  calc (p.held K : ℚ) * p.assets * q.supply = p.held K * (p.assets * q.supply) := mul_assoc ..
    _ ≤ p.held K * (q.assets * p.supply) := mul_le_mul_of_nonneg_left h' hn
    _ = p.held K * q.assets * p.supply := (mul_assoc ..).symm

/-- The worth of a coalition grows by no more than the assets, if the outsiders keep their shares
    and the price does not fall while they hold any. -/
theorem coalition_bound (hp : p.Conserved) (hq : q.Conserved) (hA : 0 ≤ q.assets)
    (horphans : p.supply = 0 → p.assets = 0) (hout : ∀ i ∈ Kᶜ, q.shares i = p.shares i)
    (hprice : 0 < p.held Kᶜ → p.PriceLe q) :
    q.worth K - p.worth K ≤ q.assets - p.assets := by
  have hheld : q.held Kᶜ = p.held Kᶜ := held_congr hout
  have hsum := held_add_held_compl (K := K) hp
  have hsum' := held_add_held_compl (K := K) hq
  have hK : 0 ≤ p.held K := held_nonneg hp
  have hK' : 0 ≤ q.held K := held_nonneg hq
  rcases (held_nonneg (K := Kᶜ) hp).eq_or_lt with hnone | hsome
  · -- the coalition owns everything
    have hworth : p.worth K = p.assets := by
      rcases hp.supply_nonneg.eq_or_lt with hS | hS
      · unfold worth
        rw [horphans hS.symm, ← hS]
        simp
      · rw [worth_eq_sub hp hS]
        unfold worth
        rw [← hnone]
        simp
    have hle := worth_le_assets (K := K) hq hA
    linarith
  · have hS : 0 < p.supply := by omega
    have hS' : 0 < q.supply := by omega
    have hkept := worth_le_worth hS hS' hheld hsome.le (hprice hsome)
    rw [worth_eq_sub hp hS, worth_eq_sub hq hS']
    linarith

end Pool

end SharePool
