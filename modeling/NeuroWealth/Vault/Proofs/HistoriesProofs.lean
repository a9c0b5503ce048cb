import NeuroWealth.Foundation.Timelock
import NeuroWealth.Vault.Proofs.AccountsProofs
import NeuroWealth.Vault.Proofs.RolesProofs

/-!
# Histories of proposals

A history lists the steps of a run, each with the state it was taken in. What the successful
calls in it proposed and closed decides which proposal is open.
-/

namespace NeuroWealth.Vault

open Transaction Timelock

variable {w : World} {call : Call} {step : Step}

/-- The steps of a run with the states they are taken in. -/
def World.history (w : World) (steps : List Step) : List (World × Step) :=
  Runs.history World.after w steps

/-- What each step of a run preserves of its history and its state. -/
theorem Admits.invariant {admissible : World → Step → Prop} {P : List (World × Step) → World → Prop}
    {steps : List Step} (h : Admits admissible w steps) (h0 : P [] w)
    (hstep : ∀ past t step, admissible t step → P past t → P (past ++ [(t, step)]) (t.after step)) :
    P (w.history steps) (w.replay steps) :=
  show P ([] ++ w.history steps) (w.replay steps) from Runs.Admits.invariant h h0 hstep

/-- What a step does to a slot, and when; failed calls do nothing. -/
def Step.act {α : Type} (acts : World → Call → Act α) (w : World) : Step → ℕ × Act α
  | .call env call =>
    (w.chain.sequence, if (invoke call).succeeds env w = true then acts w call else .idle)
  | .ambient _ => (w.chain.sequence, .idle)

/-- The proposal that steps, each in its state, leave open. -/
def openProposal {α : Type} (act : World → Step → ℕ × Act α) (past : List (World × Step)) :
    Option (Proposal α) :=
  latest (past.map fun e => act e.1 e.2)

theorem openProposal_concat {α : Type} {act : World → Step → ℕ × Act α}
    {past : List (World × Step)} :
    openProposal act (past ++ [(w, step)]) =
      (act w step).2.next (act w step).1 (openProposal act past) := by
  unfold openProposal
  rw [List.map_append]
  exact latest_concat _ _ _

/-- Nothing happens to a slot in a step that performs no call acting on it. -/
theorem act_idle {α : Type} {acts : World → Call → Act α}
    (h : ∀ call, step.Performs w call → acts w call = .idle) : (step.act acts w).2 = .idle := by
  cases step with
  | ambient chain => rfl
  | call env call =>
    show (if (invoke call).succeeds env w = true then acts w call else .idle) = .idle
    by_cases hok : (invoke call).succeeds env w = true
    · rw [if_pos hok, h call ⟨env, rfl, hok⟩]
    · rw [if_neg hok]

theorem act_of_succeeds {α : Type} {acts : World → Call → Act α} {env : Env}
    (hok : (invoke call).succeeds env w = true) :
    ((Step.call env call).act acts w).2 = acts w call :=
  if_pos hok

theorem act_ledger {α : Type} {acts : World → Call → Act α} :
    (step.act acts w).1 = w.chain.sequence := by
  cases step <;> rfl

theorem not_performs {env : Env} {call' : Call} (h : call ≠ call') :
    ¬ (Step.call env call).Performs w call' := by
  rintro ⟨env', hcall, -⟩
  exact h (Step.call.inj hcall).2

/-! ## Expiries -/

instance (w : World) : (step : Step) → Decidable (step.Forward w)
  | .call .. => isTrue trivial
  | .ambient chain => inferInstanceAs (Decidable (w.chain.sequence ≤ chain.sequence))

/-- Calls that start a timelock. -/
def Call.startsTimelock : Call → Bool
  | .updateAgent _ => true
  | .scheduleUpgrade .. => true
  | _ => false

/-- A timelock starts early enough for its expiry to be a ledger. -/
def Step.StartsInTime (w : World) : Step → Prop
  | .call _ call => call.startsTimelock = true → w.chain.sequence + timelockLedgers ≤ 4294967295
  | .ambient _ => True

/-- A fresh expiry does not saturate. -/
theorem timelockExpiry_of_inTime (h : w.chain.sequence + timelockLedgers ≤ 4294967295) :
    w.timelockExpiry = w.chain.sequence + timelockLedgers :=
  Nat.min_eq_left h

end NeuroWealth.Vault
