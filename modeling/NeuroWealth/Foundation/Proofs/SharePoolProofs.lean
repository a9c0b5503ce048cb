import NeuroWealth.Foundation.SharePool

/-!
# Share pools: conservation and fairness

Minting and burning keep a ledger conserved. A mint or burn at a price no better than the pool's
lowers nobody else's claim and gains its holder nothing, and the claims never exceed the assets.
-/

namespace SharePool.Pool

variable {ι : Type*} [DecidableEq ι] {p : Pool ι} {i j : ι} {amount x : ℤ}

/-! ## Conservation -/

@[simp]
theorem mint_shares_self : (p.mint i amount x).shares i = p.shares i + x := by
  simp [mint, addShares]

@[simp]
theorem mint_shares_other (h : j ≠ i) : (p.mint i amount x).shares j = p.shares j := by
  simp [mint, addShares, h]

@[simp]
theorem mint_supply : (p.mint i amount x).supply = p.supply + x := rfl

@[simp]
theorem mint_assets : (p.mint i amount x).assets = p.assets + amount := rfl

@[simp]
theorem burn_shares_self : (p.burn i amount x).shares i = p.shares i - x := by
  simp [burn, addShares, sub_eq_add_neg]

@[simp]
theorem burn_shares_other (h : j ≠ i) : (p.burn i amount x).shares j = p.shares j := by
  simp [burn, addShares, h]

@[simp]
theorem burn_supply : (p.burn i amount x).supply = p.supply - x := rfl

@[simp]
theorem burn_assets : (p.burn i amount x).assets = p.assets - amount := rfl

/-- Changing one summand changes the sum by as much. -/
theorem finsum_add_at {f : ι → ℤ} (h : (Function.support f).Finite) :
    (Function.support fun j => if j = i then f j + x else f j).Finite ∧
      ∑ᶠ j, (if j = i then f j + x else f j) = ∑ᶠ j, f j + x := by
  have hsplit : (fun j => if j = i then f j + x else f j) =
      fun j => f j + if j = i then x else 0 := by
    funext j
    split_ifs <;> simp
  have hsingle : (Function.support fun j => if j = i then x else 0).Finite :=
    (Set.finite_singleton i).subset fun j hj => by
      by_contra hne
      exact hj (if_neg hne)
  have hone : ∑ᶠ j, (if j = i then x else 0) = x := by
    rw [finsum_eq_single _ i fun j hj => if_neg hj]
    exact if_pos rfl
  constructor
  · rw [hsplit]
    exact (h.union hsingle).subset (Function.support_add _ _)
  · rw [hsplit, finsum_add_distrib h hsingle, hone]

theorem Conserved.mint (h : p.Conserved) (hx : 0 ≤ x) : (p.mint i amount x).Conserved := by
  obtain ⟨hfin, hsum⟩ := finsum_add_at (i := i) (x := x) h.finite
  refine ⟨hfin, hsum.trans (by rw [h.sum]; rfl), fun j => ?_⟩
  by_cases hj : j = i
  · subst hj
    rw [mint_shares_self]
    have := h.nonneg j
    omega
  · rw [mint_shares_other hj]
    exact h.nonneg j

theorem Conserved.burn (h : p.Conserved) (hx : x ≤ p.shares i) : (p.burn i amount x).Conserved := by
  obtain ⟨hfin, hsum⟩ := finsum_add_at (i := i) (x := -x) h.finite
  refine ⟨hfin, hsum.trans (by rw [h.sum]; rfl), fun j => ?_⟩
  by_cases hj : j = i
  · subst hj
    rw [burn_shares_self]
    omega
  · rw [burn_shares_other hj]
    exact h.nonneg j

/-- No holding exceeds the supply, nor do two together. -/
theorem Conserved.shares_le (h : p.Conserved) (i : ι) : p.shares i ≤ p.supply := by
  rw [← h.sum, finsum_eq_sum _ h.finite]
  by_cases hi : i ∈ h.finite.toFinset
  · exact Finset.single_le_sum (f := p.shares) (fun j _ => h.nonneg j) hi
  · have hzero : p.shares i = 0 := by simpa using hi
    rw [hzero]
    exact Finset.sum_nonneg fun j _ => h.nonneg j

omit [DecidableEq ι] in
theorem Conserved.supply_nonneg (h : p.Conserved) : 0 ≤ p.supply := by
  rw [← h.sum]
  exact finsum_nonneg h.nonneg

/-- Others hold nothing once a holder owns the whole supply. -/
theorem Conserved.shares_eq_zero (h : p.Conserved) (hi : p.shares i = p.supply) (hj : j ≠ i) :
    p.shares j = 0 := by
  have hburned : (p.burn i 0 (p.shares i)).Conserved := h.burn le_rfl
  have hle := hburned.shares_le j
  have hnn := h.nonneg j
  rw [burn_shares_other hj, burn_supply, hi] at hle
  omega

/-! ## Claims -/

omit [DecidableEq ι] in
theorem claim_nonneg (h : p.Conserved) (hA : 0 ≤ p.assets) : 0 ≤ p.claim i :=
  Int.ediv_nonneg (mul_nonneg (h.nonneg i) hA) h.supply_nonneg

omit [DecidableEq ι] in
theorem support_claim (h : p.Conserved) : Function.support p.claim ⊆ h.finite.toFinset := by
  intro i hi
  simp only [Set.Finite.coe_toFinset, Function.mem_support]
  intro hz
  exact hi (by simp [claim, hz])

omit [DecidableEq ι] in
/-- The claims of all holders together never exceed the assets. -/
theorem finsum_claim_le (h : p.Conserved) (hA : 0 ≤ p.assets) : ∑ᶠ i, p.claim i ≤ p.assets := by
  rcases h.supply_nonneg.eq_or_lt with hS | hS
  · have hzero : ∀ i, p.claim i = 0 := fun i => by simp [claim, ← hS]
    simpa [hzero] using hA
  · have hfloor : p.supply * ∑ i ∈ h.finite.toFinset, p.claim i ≤ p.supply * p.assets := by
      rw [Finset.mul_sum]
      calc ∑ i ∈ h.finite.toFinset, p.supply * p.claim i
          ≤ ∑ i ∈ h.finite.toFinset, p.shares i * p.assets :=
            Finset.sum_le_sum fun i _ => Int.mul_ediv_self_le hS.ne'
        _ = (∑ᶠ i, p.shares i) * p.assets := by
            rw [finsum_eq_sum _ h.finite, Finset.sum_mul]
        _ = p.supply * p.assets := by rw [h.sum]
    rw [finsum_eq_sum_of_support_subset _ (support_claim h)]
    exact le_of_mul_le_mul_left hfloor hS

omit [DecidableEq ι] in
/-- They fall short of the assets by less than one for each holder. -/
theorem lt_finsum_claim_add (h : p.Conserved) (hS : 0 < p.supply) :
    p.assets < ∑ᶠ i, p.claim i + ((Function.support p.shares).ncard : ℤ) := by
  have hcard : (Function.support p.shares).ncard = h.finite.toFinset.card :=
    Set.ncard_eq_toFinset_card _ h.finite
  have hsome : h.finite.toFinset.Nonempty := by
    by_contra hnone
    have hempty : h.finite.toFinset = ∅ := Finset.not_nonempty_iff_eq_empty.mp hnone
    have hsum := h.sum
    rw [finsum_eq_sum _ h.finite, hempty, Finset.sum_empty] at hsum
    omega
  have hbelow : p.supply * p.assets <
      p.supply * (∑ i ∈ h.finite.toFinset, p.claim i + h.finite.toFinset.card) := by
    calc p.supply * p.assets = ∑ i ∈ h.finite.toFinset, p.shares i * p.assets := by
          rw [← Finset.sum_mul, ← finsum_eq_sum _ h.finite, h.sum]
      _ < ∑ i ∈ h.finite.toFinset, p.supply * (p.claim i + 1) :=
          Finset.sum_lt_sum_of_nonempty hsome fun i _ => Int.lt_mul_ediv_self_add hS |>.trans_eq
            (by unfold claim; ring)
      _ = p.supply * (∑ i ∈ h.finite.toFinset, p.claim i + h.finite.toFinset.card) := by
          rw [← Finset.mul_sum, Finset.sum_add_distrib, Finset.sum_const, nsmul_one]
  rw [finsum_eq_sum_of_support_subset _ (support_claim h), hcard]
  exact lt_of_mul_lt_mul_left hbelow hS.le

omit [DecidableEq ι] in
/-- Floors of quotients are ordered like the quotients. -/
theorem ediv_le_ediv_of_mul_le {a b c d : ℤ} (hb : 0 < b) (hd : 0 < d) (h : a * d ≤ c * b) :
    a / b ≤ c / d := by
  have hfloor : a / b * b ≤ a := Int.ediv_mul_le a hb.ne'
  have hlow : a / b * d * b ≤ c * b := by nlinarith
  exact (Int.le_ediv_iff_mul_le hd).mpr (le_of_mul_le_mul_right hlow hb)

/-- A mint that gives no more shares than the amount is worth lowers nobody's claim. -/
theorem claim_le_claim_mint (h : p.Conserved) (hA : 0 ≤ p.assets) (hx : 0 ≤ x)
    (hamount : 0 ≤ amount) (hprice : 0 < p.supply → x * p.assets ≤ amount * p.supply) :
    p.claim j ≤ (p.mint i amount x).claim j := by
  have hs := h.nonneg j
  have hle := h.shares_le j
  have hgrown : p.shares j ≤ (p.mint i amount x).shares j := by
    by_cases hj : j = i
    · rw [hj, mint_shares_self]
      omega
    · exact (mint_shares_other hj).ge
  rcases h.supply_nonneg.eq_or_lt with hS | hS
  · have hz : p.shares j = 0 := le_antisymm (hS ▸ hle) hs
    have hclaim : p.claim j = 0 := by simp [claim, hz]
    rw [hclaim]
    refine claim_nonneg (h.mint hx) ?_
    rw [mint_assets]
    omega
  · have hworth := hprice hS
    unfold claim
    rw [mint_supply, mint_assets]
    refine ediv_le_ediv_of_mul_le hS (by omega) ?_
    have hall : p.shares j * (x * p.assets) ≤ p.shares j * (amount * p.supply) :=
      mul_le_mul_of_nonneg_left hworth hs
    have hmore : p.shares j * ((p.assets + amount) * p.supply) ≤
        (p.mint i amount x).shares j * ((p.assets + amount) * p.supply) :=
      mul_le_mul_of_nonneg_right hgrown (mul_nonneg (by omega) hS.le)
    calc p.shares j * p.assets * (p.supply + x)
        = p.shares j * p.assets * p.supply + p.shares j * (x * p.assets) := by ring
      _ ≤ p.shares j * p.assets * p.supply + p.shares j * (amount * p.supply) := by omega
      _ = p.shares j * ((p.assets + amount) * p.supply) := by ring
      _ ≤ (p.mint i amount x).shares j * ((p.assets + amount) * p.supply) := hmore
      _ = (p.mint i amount x).shares j * (p.assets + amount) * p.supply := by ring

/-- A burn that pays no more than the shares are worth lowers nobody else's claim. -/
theorem claim_le_claim_burn (h : p.WellFormed) (hx : x ≤ p.shares i)
    (hprice : amount * p.supply ≤ x * p.assets) (hj : j ≠ i) :
    p.claim j ≤ (p.burn i amount x).claim j := by
  have hs := h.nonneg j
  rcases (hx.trans (h.shares_le i)).eq_or_lt with hS | hS
  · have hall : p.shares i = p.supply := le_antisymm (h.shares_le i) (hS ▸ hx)
    have hz : p.shares j = 0 := h.shares_eq_zero hall hj
    simp [claim, hz, burn_shares_other hj]
  · rcases h.supply_nonneg.eq_or_lt with hS0 | hS0
    · have hz : p.shares j = 0 := le_antisymm (hS0 ▸ h.shares_le j) hs
      simp [claim, hz, burn_shares_other hj]
    · unfold claim
      rw [burn_shares_other hj, burn_supply, burn_assets]
      refine ediv_le_ediv_of_mul_le hS0 (by omega) ?_
      nlinarith

/-- Minting at a price no better than the pool's gains its holder nothing. -/
theorem claim_mint_le (h : p.WellFormed) (hx : 0 ≤ x) (hamount : 0 ≤ amount)
    (hprice : x * p.assets ≤ amount * p.supply) :
    (p.mint i amount x).claim i ≤ p.claim i + amount := by
  have hs := h.nonneg i
  have hsle := h.shares_le i
  have hA := h.assets_nonneg
  unfold claim
  rw [mint_shares_self, mint_supply, mint_assets]
  rcases h.supply_nonneg.eq_or_lt with hS | hS
  · have hA0 : p.assets = 0 := h.no_orphans hS.symm
    have hz : p.shares i = 0 := le_antisymm (hS ▸ hsle) hs
    rw [hA0, hz, ← hS]
    rcases hx.eq_or_lt with hx0 | hx0
    · simpa [← hx0] using hamount
    · simp [Int.mul_ediv_cancel_left _ hx0.ne']
  · rw [← Int.add_mul_ediv_right _ _ hS.ne']
    refine ediv_le_ediv_of_mul_le (by omega) hS ?_
    nlinarith [mul_nonneg (sub_nonneg.mpr hsle) (sub_nonneg.mpr hprice)]

/-- Burning at a price no better than the pool's gains its holder nothing. -/
theorem claim_burn_add_le (h : p.Conserved) (hS : 0 < p.supply) (hx : x ≤ p.shares i)
    (hle : amount ≤ p.assets) (hprice : amount * p.supply ≤ x * p.assets) :
    (p.burn i amount x).claim i + amount ≤ p.claim i := by
  have hsle := h.shares_le i
  unfold claim
  rw [burn_shares_self, burn_supply, burn_assets]
  rcases (hx.trans hsle).eq_or_lt with hall | hlt
  · have hs : p.shares i = p.supply := le_antisymm hsle (hall ▸ hx)
    rw [hs, hall, sub_self, zero_mul, Int.zero_ediv, zero_add, Int.mul_ediv_cancel_left _ hS.ne']
    exact hle
  · have hrest : 0 < p.supply - x := by omega
    rw [← Int.add_mul_ediv_right _ _ hrest.ne']
    refine ediv_le_ediv_of_mul_le hrest hS ?_
    nlinarith [mul_nonneg (sub_nonneg.mpr hsle) (sub_nonneg.mpr hprice)]

omit [DecidableEq ι] in
/-- A quotient stays the same as long as the remainder has room for what is added. -/
theorem add_ediv_eq_iff {a b e : ℤ} (hb : b ≠ 0) :
    (a + e) / b = a / b ↔ 0 ≤ a % b + e ∧ a % b + e < |b| := by
  have hdiv : b * (a / b) + a % b = a := Int.mul_ediv_add_emod a b
  constructor
  · intro heq
    have hrem : (a + e) % b = a % b + e := by
      have := Int.mul_ediv_add_emod (a + e) b
      rw [heq] at this
      omega
    rw [← hrem]
    exact ⟨Int.emod_nonneg _ hb, Int.emod_lt_abs _ hb⟩
  · intro ⟨hlow, hhigh⟩
    have hsplit : a + e = (a % b + e) + b * (a / b) := by omega
    rw [hsplit, Int.add_mul_ediv_left _ _ hb, Int.ediv_eq_zero_of_lt_abs hlow hhigh, zero_add]

omit [DecidableEq ι] in
/-- A new valuation leaves all claims alone exactly when rounding absorbs the change. -/
theorem claim_revalue_eq_iff {a : ℤ} :
    (∀ i, (p.revalue a).claim i = p.claim i) ↔ p.Absorbs (a - p.assets) := by
  by_cases hS : p.supply = 0
  · have hzero : ∀ i, (p.revalue a).claim i = p.claim i := fun i => by
      show p.shares i * a / p.supply = p.shares i * p.assets / p.supply
      rw [hS, Int.ediv_zero, Int.ediv_zero]
    exact ⟨fun _ hne => absurd hS hne, fun _ => hzero⟩
  · have hone : ∀ i, (p.revalue a).claim i = p.claim i ↔
        0 ≤ p.shares i * p.assets % p.supply + p.shares i * (a - p.assets) ∧
          p.shares i * p.assets % p.supply + p.shares i * (a - p.assets) < |p.supply| := by
      intro i
      have hsum : p.shares i * a = p.shares i * p.assets + p.shares i * (a - p.assets) := by ring
      show p.shares i * a / p.supply = p.shares i * p.assets / p.supply ↔ _
      rw [hsum]
      exact add_ediv_eq_iff hS
    constructor
    · intro h _ i
      exact (hone i).mp (h i)
    · intro h i
      exact (hone i).mpr (h hS i)

/-! ## Conversions -/

section Conversions

variable {S A a s : ℤ}

omit [DecidableEq ι]

theorem sharesFor_nonneg (hS : 0 ≤ S) (hA : 0 ≤ A) (ha : 0 ≤ a) : 0 ≤ sharesFor S A a := by
  unfold sharesFor
  split_ifs
  · exact le_rfl
  · exact ha
  · exact Int.tdiv_nonneg (mul_nonneg ha hS) hA

/-- Shares of a pool that has some are minted at a price no better than its own. -/
theorem sharesFor_mul_le (hS : 0 < S) (ha : 0 ≤ a) : sharesFor S A a * A ≤ a * S := by
  unfold sharesFor
  split_ifs with h0 hboot
  · simp [h0]
  · rcases hboot with hz | hz
    · omega
    · rw [hz, mul_zero]
      exact mul_nonneg ha hS.le
  · rw [Int.tdiv_eq_ediv_of_nonneg (mul_nonneg ha hS.le)]
    exact Int.ediv_mul_le _ fun hz => hboot (.inr hz)

/-- `sharesFor` is the greatest number of shares an amount pays for. -/
theorem le_sharesFor_iff (hS : 0 < S) (hA : 0 < A) (ha : 0 ≤ a) :
    s ≤ sharesFor S A a ↔ s * A ≤ a * S := by
  unfold sharesFor
  by_cases h0 : a = 0
  · rw [if_pos h0, h0, zero_mul, ← not_lt, ← not_lt, mul_pos_iff_of_pos_right hA]
  · rw [if_neg h0, if_neg (by omega), Int.tdiv_eq_ediv_of_nonneg (mul_nonneg ha hS.le)]
    exact Int.le_ediv_iff_mul_le hA

/-- Without shares there are none to dilute: each is worth one. -/
theorem sharesFor_empty : sharesFor 0 A a = a := by
  unfold sharesFor
  split_ifs with h0
  · exact h0.symm
  · rfl
  · rename_i hboot
    exact absurd (.inl rfl) hboot

/-- `sharesForUp` is the least number of shares worth the amount. -/
theorem sharesForUp_le_iff (hS : 0 < S) (hA : 0 < A) (ha : 0 ≤ a) :
    sharesForUp S A a ≤ s ↔ a * S ≤ s * A := by
  have hprod : 0 ≤ a * S := mul_nonneg ha hS.le
  unfold sharesForUp
  by_cases h0 : a = 0
  · rw [if_pos h0, h0, zero_mul]
    exact (mul_nonneg_iff_of_pos_right hA).symm
  · rw [if_neg h0, if_neg (by omega), Int.tdiv_eq_ediv_of_nonneg (by omega), ← Int.lt_add_one_iff,
      Int.ediv_lt_iff_lt_mul hA, add_mul, one_mul]
    omega

/-- Burned shares are worth at least the amount they are burned for. -/
theorem le_sharesForUp_mul (hS : 0 < S) (hA : 0 < A) (ha : 0 ≤ a) :
    a * S ≤ sharesForUp S A a * A :=
  (sharesForUp_le_iff hS hA ha).mp le_rfl

theorem sharesForUp_pos (hS : 0 < S) (hA : 0 < A) (ha : 0 < a) : 0 < sharesForUp S A a := by
  by_contra hle
  have h := (sharesForUp_le_iff hS hA ha.le).mp (not_lt.mp hle)
  have hprod : 0 < a * S := mul_pos ha hS
  omega

theorem sharesForUp_nonneg (hS : 0 < S) (hA : 0 < A) (ha : 0 ≤ a) : 0 ≤ sharesForUp S A a := by
  rcases ha.eq_or_lt with rfl | hpos
  · rw [sharesForUp, if_pos rfl]
  · exact (sharesForUp_pos hS hA hpos).le

/-- For totals that are not negative, the value of shares is one floor division. -/
theorem assetsFor_eq (hA : 0 ≤ A) (hs : 0 ≤ s) : assetsFor S A s = s * A / S := by
  unfold assetsFor
  split_ifs with h0 hboot
  · simp [h0]
  · rcases hboot with hz | hz
    · simp [hz]
    · simp [hz]
  · exact Int.tdiv_eq_ediv_of_nonneg (mul_nonneg hs hA)

theorem assetsFor_nonneg (hS : 0 ≤ S) (hA : 0 ≤ A) (hs : 0 ≤ s) : 0 ≤ assetsFor S A s := by
  rw [assetsFor_eq hA hs]
  exact Int.ediv_nonneg (mul_nonneg hs hA) hS

theorem assetsFor_mul_le (hS : 0 ≤ S) (hA : 0 ≤ A) (hs : 0 ≤ s) :
    assetsFor S A s * S ≤ s * A := by
  rw [assetsFor_eq hA hs]
  rcases hS.eq_or_lt with hz | hpos
  · rw [← hz, mul_zero]
    exact mul_nonneg hs hA
  · exact Int.ediv_mul_le _ hpos.ne'

/-- Shares that exist are worth no more than all assets. -/
theorem assetsFor_le (hS : 0 ≤ S) (hA : 0 ≤ A) (hs : 0 ≤ s) (hle : s ≤ S) :
    assetsFor S A s ≤ A := by
  have h := assetsFor_mul_le hS hA hs
  rcases hS.eq_or_lt with hz | hpos
  · have hs0 : s = 0 := le_antisymm (hz ▸ hle) hs
    simpa [assetsFor, hs0] using hA
  · have hmul : assetsFor S A s * S ≤ A * S := by nlinarith
    exact le_of_mul_le_mul_right hmul hpos

/-- The whole supply is worth all assets. -/
theorem assetsFor_self (hS : 0 < S) (hA : 0 ≤ A) : assetsFor S A S = A := by
  rw [assetsFor_eq hA hS.le, Int.mul_ediv_cancel_left _ hS.ne']

/-- Shares are worth an amount exactly when they are at least those burned for it. -/
theorem le_assetsFor_iff (hS : 0 < S) (hA : 0 < A) (ha : 0 < a) :
    a ≤ assetsFor S A s ↔ sharesForUp S A a ≤ s := by
  rw [sharesForUp_le_iff hS hA ha.le]
  rcases le_or_gt 0 s with hs | hs
  · rw [assetsFor_eq hA.le hs, Int.le_ediv_iff_mul_le hS]
  · have hvalue : assetsFor S A s ≤ 0 := by
      unfold assetsFor
      rw [if_neg hs.ne, if_neg (by omega)]
      have hopposite : 0 ≤ (-(s * A)).tdiv S :=
        Int.tdiv_nonneg (by rw [← neg_mul]; exact mul_nonneg (by omega) hA.le) hS.le
      rw [Int.neg_tdiv] at hopposite
      omega
    have hless : s * A < 0 := mul_neg_of_neg_of_pos hs hA
    have hmore : 0 < a * S := mul_pos ha hS
    constructor
    · omega
    · omega

/-- The shares burned for an amount are the fewest worth it. -/
theorem isLeast_sharesForUp (hS : 0 < S) (hA : 0 < A) (ha : 0 < a) :
    IsLeast {s | a ≤ assetsFor S A s} (sharesForUp S A a) :=
  ⟨(le_assetsFor_iff hS hA ha).mpr le_rfl, fun _ hs => (le_assetsFor_iff hS hA ha).mp hs⟩

theorem le_assetsFor_sharesForUp (hS : 0 < S) (hA : 0 < A) (ha : 0 ≤ a) :
    a ≤ assetsFor S A (sharesForUp S A a) := by
  rw [assetsFor_eq hA.le (sharesForUp_nonneg hS hA ha), Int.le_ediv_iff_mul_le hS]
  exact le_sharesForUp_mul hS hA ha

/-- The shares burned for an amount are worth less than the amount and one more share. -/
theorem sharesForUp_mul_lt (hS : 0 < S) (hA : 0 < A) (ha : 0 ≤ a) :
    sharesForUp S A a * A < a * S + A := by
  have hfewer : ¬ sharesForUp S A a ≤ sharesForUp S A a - 1 := by omega
  rw [sharesForUp_le_iff hS hA ha, sub_mul, one_mul] at hfewer
  omega

theorem sharesFor_le_sharesForUp (hS : 0 < S) (hA : 0 < A) (ha : 0 ≤ a) :
    sharesFor S A a ≤ sharesForUp S A a := by
  have hle : sharesFor S A a * A ≤ sharesForUp S A a * A :=
    (sharesFor_mul_le hS ha).trans (le_sharesForUp_mul hS hA ha)
  exact le_of_mul_le_mul_right hle hA

/-- The two roundings are at most one share apart. -/
theorem sharesForUp_le_sharesFor_add_one (hS : 0 < S) (hA : 0 < A) (ha : 0 ≤ a) :
    sharesForUp S A a ≤ sharesFor S A a + 1 := by
  have hmore : ¬ sharesFor S A a + 1 ≤ sharesFor S A a := by omega
  rw [le_sharesFor_iff hS hA ha, not_le] at hmore
  exact (sharesForUp_le_iff hS hA ha).mpr hmore.le

/-- Minted shares are worth at most the amount they are minted for. -/
theorem assetsFor_sharesFor_le (hS : 0 < S) (hA : 0 < A) (ha : 0 ≤ a) :
    assetsFor S A (sharesFor S A a) ≤ a := by
  rw [assetsFor_eq hA.le (sharesFor_nonneg hS.le hA.le ha)]
  exact Int.ediv_le_of_le_mul hS (sharesFor_mul_le hS ha)

/-- The shares burned for an amount are worth exactly that when some number of shares is. -/
theorem assetsFor_sharesForUp_eq_iff (hS : 0 < S) (hA : 0 < A) (ha : 0 < a) :
    assetsFor S A (sharesForUp S A a) = a ↔ WholeValue S A a := by
  have hb := sharesForUp_pos hS hA ha
  have hlow := le_sharesForUp_mul hS hA ha.le
  have hvalue : assetsFor S A (sharesForUp S A a) = a ↔
      sharesForUp S A a * A < (a + 1) * S := by
    rw [← Int.ediv_lt_iff_lt_mul hS, ← assetsFor_eq hA.le hb.le]
    have hworth := (le_assetsFor_iff hS hA ha).mpr le_rfl
    omega
  rw [hvalue]
  constructor
  · intro hlt
    exact ⟨_, hlow, hlt⟩
  · rintro ⟨k, hk, hlt⟩
    have hle : sharesForUp S A a ≤ k := (sharesForUp_le_iff hS hA ha.le).mpr hk
    exact (mul_le_mul_of_nonneg_right hle hA.le).trans_lt hlt

/-- What is left after all that some shares are worth has been paid is worth nothing. -/
theorem assetsFor_rest (hS : 0 < S) (hA : 0 < A) (ha : 0 < a) (hs : s ≤ S)
    (hworth : assetsFor S A s = a) :
    assetsFor (S - sharesForUp S A a) (A - a) (s - sharesForUp S A a) = 0 := by
  have hcost : sharesForUp S A a ≤ s := (le_assetsFor_iff hS hA ha).mp hworth.ge
  have hpaid := le_sharesForUp_mul hS hA ha.le
  have hnonneg : 0 ≤ s := (sharesForUp_nonneg hS hA ha.le).trans hcost
  have hworth' : s * A / S = a := by rw [← assetsFor_eq hA.le hnonneg, hworth]
  have hlt : s * A < (a + 1) * S := by
    rw [← hworth']
    exact Int.lt_mul_of_ediv_lt hS (Int.lt_add_one_of_le le_rfl)
  have hle : a ≤ A := hworth ▸ assetsFor_le hS.le hA.le hnonneg hs
  generalize sharesForUp S A a = b at hcost hpaid ⊢
  rcases (hcost.trans hs).eq_or_lt with rfl | hb
  · unfold assetsFor
    simp
  · rw [assetsFor_eq (by omega) (by omega)]
    refine Int.ediv_eq_zero_of_lt (mul_nonneg (by omega) (by omega)) ?_
    -- the rounding in favour of the others does not make up for the share lost in it
    have hrest : (s - b) * A < S - (b * A - a * S) := by linarith
    have hgain : (b * A - a * S) * (s - b) ≤ (b * A - a * S) * (S - b) :=
      mul_le_mul_of_nonneg_left (by omega) (by omega)
    have hscaled : S * ((s - b) * (A - a)) < S * (S - b) := by
      calc S * ((s - b) * (A - a)) = (s - b) * A * (S - b) + (b * A - a * S) * (s - b) := by ring
        _ < (S - (b * A - a * S)) * (S - b) + (b * A - a * S) * (s - b) := by
          have := mul_lt_mul_of_pos_right hrest (sub_pos.mpr hb)
          omega
        _ ≤ S * (S - b) := by linarith
    exact lt_of_mul_lt_mul_left hscaled hS.le

/-- At par an amount buys as many shares. -/
theorem sharesFor_par : sharesFor S S a = a := by
  unfold sharesFor
  split_ifs with h0 hboot
  · exact h0.symm
  · rfl
  · exact Int.mul_tdiv_cancel a fun hz => hboot (.inl hz)

/-- At par an amount costs as many shares. -/
theorem sharesForUp_par (hS : 0 ≤ S) (ha : 0 ≤ a) : sharesForUp S S a = a := by
  unfold sharesForUp
  split_ifs with h0 hboot
  · exact h0.symm
  · rfl
  · have hpos : 0 < S := lt_of_le_of_ne hS fun hz => hboot (.inl hz.symm)
    have hprod : 0 ≤ a * S := mul_nonneg ha hS
    rw [Int.tdiv_eq_ediv_of_nonneg (by omega), add_comm, Int.add_mul_ediv_right _ _ hpos.ne',
      Int.ediv_eq_zero_of_lt (by omega) (by omega), zero_add]

/-- At par shares are worth as much as there are of them. -/
theorem assetsFor_par (hS : 0 < S) : assetsFor S S s = s := by
  unfold assetsFor
  split_ifs with h0 hboot
  · exact h0.symm
  · omega
  · exact Int.mul_tdiv_cancel s hS.ne'

end Conversions

/-! ## At par -/

theorem AtPar.mint (h : p.AtPar) (hx : 0 ≤ x) : (p.mint i x x).AtPar :=
  ⟨h.toConserved.mint hx, congrArg (· + x) h.par⟩

theorem AtPar.burn (h : p.AtPar) (hx : x ≤ p.shares i) : (p.burn i x x).AtPar :=
  ⟨h.toConserved.burn hx, congrArg (· - x) h.par⟩

omit [DecidableEq ι] in
/-- A pool without orphaned assets mints at a price no better than its own. -/
theorem WellFormed.sharesFor_mul_le {a : ℤ} (h : p.WellFormed) (ha : 0 ≤ a) :
    sharesFor p.supply p.assets a * p.assets ≤ a * p.supply := by
  rcases h.supply_nonneg.eq_or_lt with hS | hS
  · rw [h.no_orphans hS.symm, ← hS, mul_zero, mul_zero]
  · exact Pool.sharesFor_mul_le hS ha

omit [DecidableEq ι] in
/-- The claim of a holder is the value of its shares. -/
theorem claim_eq_assetsFor (h : p.Conserved) (hA : 0 ≤ p.assets) :
    p.claim i = assetsFor p.supply p.assets (p.shares i) :=
  (assetsFor_eq hA (h.nonneg i)).symm

end SharePool.Pool
