import NeuroWealth.Foundation.MachineInt

/-!
# Facts about machine integers
-/

namespace MachineInt

variable {F : Format} {x y z : Int}

@[simp]
theorem checked_eq_some : F.checked x = some z ↔ z = x ∧ F.Fits x := by
  unfold Format.checked
  split_ifs with h
  · simp [h, eq_comm]
  · simp [h]

@[simp]
theorem checkedAdd_eq_some : F.checkedAdd x y = some z ↔ z = x + y ∧ F.Fits (x + y) :=
  checked_eq_some

@[simp]
theorem checkedSub_eq_some : F.checkedSub x y = some z ↔ z = x - y ∧ F.Fits (x - y) :=
  checked_eq_some

@[simp]
theorem checkedMul_eq_some : F.checkedMul x y = some z ↔ z = x * y ∧ F.Fits (x * y) :=
  checked_eq_some

@[simp]
theorem checkedDiv_eq_some :
    F.checkedDiv x y = some z ↔ y ≠ 0 ∧ z = x.tdiv y ∧ F.Fits (x.tdiv y) := by
  unfold Format.checkedDiv
  split_ifs with h
  · simp [h]
  · simp [h]

theorem saturate_of_fits (h : F.Fits x) : F.saturate x = x := by
  obtain ⟨h1, h2⟩ := h
  unfold Format.saturate
  omega

theorem saturate_pos (hF : 0 < F.greatest) : 0 < F.saturate x ↔ 0 < x := by
  have := F.least_nonpos
  unfold Format.saturate
  omega

theorem saturate_nonneg (h : 0 ≤ x) : 0 ≤ F.saturate x := by
  have := F.greatest_nonneg
  unfold Format.saturate
  omega

theorem saturate_of_nonneg (h : 0 ≤ x) : F.saturate x = min F.greatest x := by
  have := F.least_nonpos
  have := F.greatest_nonneg
  unfold Format.saturate
  omega

theorem saturatingAdd_nonneg (hx : 0 ≤ x) (hy : 0 ≤ y) : 0 ≤ F.saturatingAdd x y :=
  saturate_nonneg (add_nonneg hx hy)

/-- A sum of amounts is exact, or it is cut off at the greatest value. -/
theorem saturatingAdd_cases (hx : 0 ≤ x) (hy : 0 ≤ y) :
    F.saturatingAdd x y = x + y ∨
      F.saturatingAdd x y = F.greatest ∧ F.greatest < x + y := by
  unfold Format.saturatingAdd
  rw [saturate_of_nonneg (add_nonneg hx hy)]
  omega

/-- A sum of amounts is zero only if both are. -/
theorem saturatingAdd_eq_zero (hF : 0 < F.greatest) (hx : 0 ≤ x) (hy : 0 ≤ y) :
    F.saturatingAdd x y = 0 ↔ x = 0 ∧ y = 0 := by
  unfold Format.saturatingAdd
  rw [saturate_of_nonneg (add_nonneg hx hy)]
  omega

theorem saturate_mono (h : x ≤ y) : F.saturate x ≤ F.saturate y := by
  unfold Format.saturate
  omega

/-- A subtraction floored at zero is at most the exact one. -/
theorem saturate_le (h : 0 ≤ x) : F.saturate x ≤ x := by
  have := F.least_nonpos
  unfold Format.saturate
  omega

/-- A value between zero and one that fits, fits. -/
theorem fits_of_le (hx : 0 ≤ x) (hxy : x ≤ y) (hy : F.Fits y) : F.Fits x :=
  ⟨F.least_nonpos.trans hx, hxy.trans hy.2⟩

end MachineInt
