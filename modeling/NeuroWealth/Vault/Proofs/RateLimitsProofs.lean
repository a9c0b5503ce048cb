import NeuroWealth.Foundation.RateWindow
import NeuroWealth.Vault.Proofs.OutcomesProofs

/-!
# Rate-limit buckets

A bucket of an enabled category is a fixed-window limiter. Its read-only view agrees with it on how
many calls are left.
-/

namespace NeuroWealth.Vault

open Transaction MachineInt RateWindow

variable {env : Env} {w w' : World} {category : RateLimitCategory} {user : Option Address}

theorem currentWindow_eq (config : RateLimitConfig) (ledger : ℕ) (s : Option RateLimitState) :
    current config.windowLedgers ledger (s.map fun s => ⟨s.windowStart, s.calls⟩) =
      ⟨(currentWindow config ledger s).windowStart, (currentWindow config ledger s).calls⟩ := by
  cases s with
  | none => rfl
  | some s =>
    have hwindow : currentWindow config ledger (some s) =
        if ledger - s.windowStart < config.windowLedgers then s else ⟨ledger, 0⟩ := rfl
    rw [hwindow, Option.map_some, current_some]
    by_cases hin : ledger - s.windowStart < config.windowLedgers
    · rw [if_pos hin, if_pos hin]
    · rw [if_neg hin, if_neg hin]

/-- The bucket, as a window. -/
def World.window (w : World) (user : Option Address) (category : RateLimitCategory) :
    Option Window :=
  (w.buckets.state user category).map fun s => ⟨s.windowStart, s.calls⟩

/-- The window a call of the bucket would fall into. -/
def World.running (w : World) (user : Option Address) (category : RateLimitCategory) :
    RateLimitState :=
  currentWindow (w.rateLimit category) w.chain.sequence (w.buckets.state user category)

theorem current_window {M W : ℕ} (hpolicy : w.rateLimit category = ⟨M, W⟩) :
    current W w.chain.sequence (w.window user category) =
      ⟨(w.running user category).windowStart, (w.running user category).calls⟩ := by
  unfold World.running
  rw [hpolicy]
  exact currentWindow_eq ⟨M, W⟩ w.chain.sequence (w.buckets.state user category)

theorem ok_getRateLimitConfigInternal {config : RateLimitConfig} :
    (getRateLimitConfigInternal category).Ok env w config w' ↔
      (category.isValid = true ∧ config = w.rateLimit category) ∧ w' = w := by
  simp only [getRateLimitConfigInternal, requireValidRateLimitCategory, Tx.ok_bind, Tx.ok_require,
    Tx.ok_get, Tx.ok_pure, existsAndEq, exists_const, and_assoc, true_and]
  rfl

/-- A call of an enabled category passes exactly when its window has calls left. -/
theorem ok_enforceRateLimit {u : Unit} (hvalid : category.isValid = true)
    (henabled : (w.rateLimit category).maxCalls ≠ 0) :
    let state := w.running user category
    let spent := { state with calls := saturatingAddU32 state.calls 1 }
    (enforceRateLimit category user).Ok env w u w' ↔
      state.calls < (w.rateLimit category).maxCalls ∧
        w' = { w with buckets := w.buckets.set user category (some spent) } := by
  intro state spent
  simp only [enforceRateLimit, Tx.ok_bind, ok_getRateLimitConfigInternal, Tx.ok_get, Tx.ok_ite,
    Tx.ok_require, Tx.ok_modify, existsAndEq, exists_const, and_assoc, true_and, hvalid, henabled,
    false_and, false_or, not_false_eq_true]
  rfl

theorem ok_readRateLimitState {state : RateLimitState} (hvalid : category.isValid = true)
    (henabled : (w.rateLimit category).maxCalls ≠ 0) :
    (readRateLimitState category user).Ok env w state w' ↔
      state = viewedWindow (w.rateLimit category) w.chain.sequence
        (w.buckets.state user category) ∧ w' = w := by
  simp only [readRateLimitState, Tx.ok_bind, ok_getRateLimitConfigInternal, Tx.ok_get, Tx.ok_ite,
    Tx.ok_pure, existsAndEq, and_assoc, true_and, hvalid, henabled, false_and, false_or,
    not_false_eq_true]

/-- The view and the limiter differ only in where an unused window starts. -/
theorem viewedWindow_calls (config : RateLimitConfig) (ledger : ℕ) (s : Option RateLimitState) :
    (viewedWindow config ledger s).calls = (currentWindow config ledger s).calls := by
  cases s with
  | none => rfl
  | some s => rfl

end NeuroWealth.Vault
