import NeuroWealth.Foundation.Binary64
import NeuroWealth.Vault.Proofs.RebalancingProofs

/-!
# The rebalance call of the yield check

How the agent gets from a rate and a deployed amount to the arguments of the vault's `rebalance`,
and what the vault asks of them. A JavaScript number is taken as the rational it denotes; NaN and
the infinities fail the checks made here.
-/

namespace NeuroWealth.YieldCheck

open Binary64 Transaction
open Vault (Protocol Env World Contract)

def MAX_APY_DECIMAL : ℚ := 10

def MAX_SAFE_INTEGER : ℤ := 2 ^ 53 - 1

/-- What `isUsableApy` asks of a rate. -/
def IsUsableApy (apy : ℚ) : Prop := 0 ≤ apy ∧ apy ≤ MAX_APY_DECIMAL
deriving Decidable

/-- JavaScript's `Math.round`. -/
def mathRound (x : ℚ) : ℤ := ⌊x + 1 / 2⌋

/-- The deployed amount less the slippage; every operation rounds to a double. -/
def minOut (deployedAmountStroops slippageBps : ℚ) : ℤ :=
  ⌊toDouble (deployedAmountStroops * toDouble (1 - toDouble (slippageBps / 10000)))⌋

/-- Anything else is skipped with `invalid_rebalance_bounds`. -/
def InBounds (minOut : ℤ) (slippageBps : ℚ) : Prop :=
  |minOut| ≤ MAX_SAFE_INTEGER ∧ 0 < minOut ∧ 0 ≤ slippageBps ∧ slippageBps < 10000
deriving Decidable

/-- The arguments of the contract call. -/
structure RebalanceCall where
  protocol : Protocol
  expectedApy : ℤ
  minOut : ℤ
deriving DecidableEq

/-- The call `submitRebalance` builds. -/
def submitRebalance (protocol : Protocol) (expectedApy : ℚ) (minOut : ℤ) : RebalanceCall :=
  ⟨protocol, mathRound (toDouble (expectedApy * 10000000)), minOut⟩

/-- The end of `execute`, once it has decided to rebalance. -/
def execute (bestProtocol : Protocol) (bestApy deployedAmountStroops slippageBps : ℚ) :
    Option RebalanceCall :=
  let minOut := minOut deployedAmountStroops slippageBps
  if InBounds minOut slippageBps then some (submitRebalance bestProtocol bestApy minOut) else none

namespace RebalanceCall

/-- The vault's checks on the arguments. -/
def Valid (c : RebalanceCall) : Prop :=
  (0 ≤ c.expectedApy ∧ c.expectedApy ≤ 10000) ∧ 0 ≤ c.minOut ∧ c.protocol.isSupported = true
deriving Decidable

/-- The call's rate, in basis points, is `apy` to the nearest one. -/
def Denotes (c : RebalanceCall) (apy : ℚ) : Prop := |apy * 10000 - c.expectedApy| ≤ 1 / 2
deriving Decidable

/-- The vault's `rebalance` with these arguments. -/
def invoke (c : RebalanceCall) : Contract Unit :=
  Vault.rebalance c.protocol c.expectedApy c.minOut

/-- The vault refuses every other call. -/
theorem valid_of_ok {c : RebalanceCall} {env : Env} {w w' : World} {u : Unit}
    (h : c.invoke.Ok env w u w') : c.Valid := by
  simp only [invoke, Vault.rebalance, Tx.ok_bind, Tx.ok_require, existsAndEq, exists_const,
    and_assoc, true_and] at h
  obtain ⟨_, _, -, _, _, -, _, _, -, hlow, hhigh, _, _, -, hminOut, hprotocol, -⟩ := h
  exact ⟨⟨hlow, hhigh⟩, hminOut, hprotocol⟩

end RebalanceCall

/-! ## What the agent encodes -/

section Encoded

variable {protocol : Protocol} {apy deployed slippageBps : ℚ} {c : RebalanceCall}

theorem execute_eq_some (h : execute protocol apy deployed slippageBps = some c) :
    0 ≤ c.minOut ∧ c = submitRebalance protocol apy c.minOut := by
  unfold execute at h
  by_cases hbounds : InBounds (minOut deployed slippageBps) slippageBps
  · rw [if_pos hbounds] at h
    obtain rfl := Option.some.inj h
    exact ⟨hbounds.2.1.le, rfl⟩
  · rw [if_neg hbounds] at h
    exact absurd h nofun

/-- Only a rate that rounds below one half is encoded as zero. -/
theorem mathRound_toDouble_le_zero {x : ℚ} (hx : 0 ≤ x) :
    mathRound (toDouble x) ≤ 0 ↔ x < 1 / 2 - 2 ^ (-55 : ℤ) := by
  rw [← toDouble_lt_half hx]
  have hfloor : mathRound (toDouble x) < 1 ↔ toDouble x + 1 / 2 < ((1 : ℤ) : ℚ) := Int.floor_lt
  push_cast at hfloor
  constructor
  · intro h
    have := hfloor.mp (by omega)
    linarith
  · intro h
    have := hfloor.mpr (by linarith)
    omega

theorem mathRound_toDouble_nonneg {x : ℚ} (hx : 0 ≤ x) : 0 ≤ mathRound (toDouble x) := by
  have := toDouble_nonneg hx
  refine Int.floor_nonneg.mpr ?_
  linarith

/-- A number with a positive encoding is not much more than twice its encoding. -/
theorem le_of_mathRound_pos {x : ℚ} (hx : 0 ≤ x) (h : 0 < mathRound (toDouble x)) :
    x ≤ 2 * mathRound (toDouble x) + 1 := by
  have hhalf : ¬ toDouble x < 1 / 2 := by
    rw [toDouble_lt_half hx, ← mathRound_toDouble_le_zero hx]
    omega
  have hpos : 0 < x := by
    refine lt_of_le_of_ne hx ?_
    rintro rfl
    rw [toDouble_zero] at hhalf
    norm_num at hhalf
  have hdouble := le_two_mul_toDouble (not_lt.mp hhalf) hpos
  have hround : toDouble x + 1 / 2 < mathRound (toDouble x) + 1 := Int.lt_floor_add_one _
  linarith

/-- The agent's unit is a thousandth of a basis point, so a nonzero encoding denotes another
    rate. -/
theorem not_denotes_of_pos (hapy : 0 ≤ apy) {m : ℤ}
    (h : 0 < (submitRebalance protocol apy m).expectedApy) :
    ¬ (submitRebalance protocol apy m).Denotes apy := by
  have hx : 0 ≤ apy * 10000000 := by positivity
  have hle := le_of_mathRound_pos hx h
  have hone : (1 : ℚ) ≤ (mathRound (toDouble (apy * 10000000)) : ℤ) := by exact_mod_cast h
  intro hnear
  have hclose := (abs_le.mp hnear).1
  simp only [submitRebalance] at hclose
  linarith

/-- The call the agent builds passes the vault's checks and denotes the agent's rate exactly when
    that rate is encoded as zero. -/
theorem call_agrees_iff (hapy : IsUsableApy apy) (hprotocol : protocol = .blend ∨ protocol = .dex)
    (hcall : execute protocol apy deployed slippageBps = some c) :
    (c.Valid ∧ c.Denotes apy) ↔ apy * 10000000 < 1 / 2 - 2 ^ (-55 : ℤ) := by
  obtain ⟨hminOut, hc⟩ := execute_eq_some hcall
  have hx : 0 ≤ apy * 10000000 := by
    have := hapy.1
    positivity
  have hrate : c.expectedApy = mathRound (toDouble (apy * 10000000)) := by rw [hc]; rfl
  rw [← mathRound_toDouble_le_zero hx, ← hrate]
  constructor
  · rintro ⟨-, hdenotes⟩
    by_contra hpos
    rw [hc] at hpos hdenotes
    exact not_denotes_of_pos hapy.1 (not_le.mp hpos) hdenotes
  · intro hle
    have hzero : c.expectedApy = 0 := by
      have := mathRound_toDouble_nonneg hx
      omega
    refine ⟨⟨by omega, hminOut, ?_⟩, ?_⟩
    · have hp : c.protocol = protocol := by rw [hc]; rfl
      rw [hp]
      rcases hprotocol with rfl | rfl <;> rfl
    · have hsmall : apy * 10000000 < 1 / 2 - 2 ^ (-55 : ℤ) := by
        rw [← mathRound_toDouble_le_zero hx, ← hrate]
        exact hle
      have hpow : (0 : ℚ) < 2 ^ (-55 : ℤ) := by positivity
      have hlow := hapy.1
      rw [RebalanceCall.Denotes, hzero, abs_le]
      push_cast
      constructor <;> linarith

/-- The vault refuses every rate from a quarter of a percent. -/
theorem not_valid_of_le (hapy : 1 / 400 ≤ apy)
    (hcall : execute protocol apy deployed slippageBps = some c) : ¬ c.Valid := by
  obtain ⟨-, hc⟩ := execute_eq_some hcall
  have hrate : c.expectedApy = mathRound (toDouble (apy * 10000000)) := by rw [hc]; rfl
  have hx : 0 ≤ apy * 10000000 := by linarith
  have hpos : 0 < mathRound (toDouble (apy * 10000000)) := by
    by_contra hle
    have hsmall := (mathRound_toDouble_le_zero hx).mp (by omega)
    have hpow : (0 : ℚ) < 2 ^ (-55 : ℤ) := by positivity
    linarith
  have hlarge := le_of_mathRound_pos hx hpos
  rintro ⟨⟨-, hhigh⟩, -⟩
  have hbound : (c.expectedApy : ℚ) ≤ 10000 := by exact_mod_cast hhigh
  rw [hrate] at hbound
  linarith

end Encoded

/-- A rate far below a basis point is encoded as zero. -/
theorem tiny_rate_agrees :
    RebalanceCall.Valid ⟨.dex, 0, 99500000⟩ ∧
      RebalanceCall.Denotes ⟨.dex, 0, 99500000⟩ (1 / 2 ^ 26) := by
  have hcall : execute .dex (1 / 2 ^ 26) 100000000 50 = some ⟨.dex, 0, 99500000⟩ := by
    decide +kernel
  exact (call_agrees_iff (by decide +kernel) (.inr rfl) hcall).mpr (by norm_num)

/-- Six and a quarter percent is encoded as 6250 %. -/
theorem six_percent_refused :
    IsUsableApy (1 / 16) ∧
      execute .blend (1 / 16) 100000000 50 = some ⟨.blend, 625000, 99500000⟩ ∧
      ¬ RebalanceCall.Valid ⟨.blend, 625000, 99500000⟩ ∧
      ¬ RebalanceCall.Denotes ⟨.blend, 625000, 99500000⟩ (1 / 16) := by
  decide +kernel

end NeuroWealth.YieldCheck
