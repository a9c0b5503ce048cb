import Mathlib

/-!
# The specification of the timelocks

`formal-methods/TimelockStateMachines.tla`: the agent-update and the upgrade timelock on one ledger
clock. The model checker explores it for one choice of small constants; here they are arbitrary.
-/

namespace NeuroWealth.Vault.TimelockSpec

/-- The constants of the module. `none` of an option stands for its `NoValue`. -/
structure Constants (V : Type) where
  maxLedger : Nat
  delay : Nat
  values : Set V

/-- The variables. The two flags are witnesses of an application before its time. -/
structure State (V : Type) where
  ledger : Nat
  agentPending : Option V
  agentExpiry : Nat
  agentActive : V
  agentAppliedEarly : Bool
  upgradePending : Option V
  upgradeExpiry : Nat
  upgradeVersion : Nat
  upgradeAppliedEarly : Bool

variable {V : Type} {c : Constants V} {s s' : State V}

structure Init (c : Constants V) (s : State V) : Prop where
  ledger : s.ledger = 0
  agentPending : s.agentPending = none
  agentExpiry : s.agentExpiry = 0
  agentActive : s.agentActive ∈ c.values
  agentAppliedEarly : s.agentAppliedEarly = false
  upgradePending : s.upgradePending = none
  upgradeExpiry : s.upgradeExpiry = 0
  upgradeVersion : s.upgradeVersion = 1
  upgradeAppliedEarly : s.upgradeAppliedEarly = false

/-- The actions. Carrying out a proposal leaves its expiry behind, cancelling it does not. -/
inductive Next (c : Constants V) (s : State V) : State V → Prop
  | scheduleAgentUpdate {v : V} (hv : v ∈ c.values) (hfree : s.agentPending = none) :
      Next c s { s with agentPending := some v, agentExpiry := s.ledger + c.delay }
  | confirmAgentUpdate {v : V} (hpending : s.agentPending = some v)
      (helapsed : s.agentExpiry ≤ s.ledger) :
      Next c s { s with
        agentActive := v
        agentPending := none
        agentAppliedEarly := s.agentAppliedEarly || decide (s.ledger < s.agentExpiry) }
  | cancelAgentUpdate {v : V} (hpending : s.agentPending = some v) :
      Next c s { s with agentPending := none, agentExpiry := 0 }
  | scheduleUpgrade {v : V} (hv : v ∈ c.values) (hfree : s.upgradePending = none) :
      Next c s { s with upgradePending := some v, upgradeExpiry := s.ledger + c.delay }
  | executeUpgrade {v : V} (hpending : s.upgradePending = some v)
      (helapsed : s.upgradeExpiry ≤ s.ledger) :
      Next c s { s with
        upgradeVersion := s.upgradeVersion + 1
        upgradePending := none
        upgradeAppliedEarly := s.upgradeAppliedEarly || decide (s.ledger < s.upgradeExpiry) }
  | cancelUpgrade {v : V} (hpending : s.upgradePending = some v) :
      Next c s { s with upgradePending := none, upgradeExpiry := 0 }
  | advanceLedger (hbound : s.ledger < c.maxLedger) : Next c s { s with ledger := s.ledger + 1 }

/-- A state of some behaviour of the specification. -/
def Reachable (c : Constants V) (s : State V) : Prop :=
  ∃ s0, Init c s0 ∧ Relation.ReflTransGen (Next c) s0 s

/-! ## The invariants -/

/-- The invariants the model checker is given: `TypeOK`, `AgentNoEarlyApply`,
    `UpgradeNoEarlyApply`, `NonInterference`, `VersionMonotonic` and `LedgerMonotonic`. Natural
    numbers and Booleans are so by their types. -/
structure Invariants (c : Constants V) (s : State V) : Prop where
  agentPending : ∀ v, s.agentPending = some v → v ∈ c.values
  agentActive : s.agentActive ∈ c.values
  upgradePending : ∀ v, s.upgradePending = some v → v ∈ c.values
  agentNoEarlyApply : s.agentAppliedEarly = false
  upgradeNoEarlyApply : s.upgradeAppliedEarly = false
  versionMonotonic : 1 ≤ s.upgradeVersion
  ledgerMonotonic : s.ledger ≤ c.maxLedger

theorem Init.invariants (h : Init c s) : Invariants c s := by
  refine ⟨fun v hv => ?_, h.agentActive, fun v hv => ?_, h.agentAppliedEarly,
    h.upgradeAppliedEarly, h.upgradeVersion.ge, h.ledger.trans_le (Nat.zero_le _)⟩
  · rw [h.agentPending] at hv
    cases hv
  · rw [h.upgradePending] at hv
    cases hv

theorem Invariants.next (h : Invariants c s) (hnext : Next c s s') : Invariants c s' := by
  cases hnext with
  | scheduleAgentUpdate hv =>
    exact { h with agentPending := fun u hu => Option.some.inj hu ▸ hv }
  | confirmAgentUpdate hpending helapsed =>
    refine { h with
      agentPending := fun u hu => by cases hu
      agentActive := h.agentPending _ hpending
      agentNoEarlyApply := ?_ }
    show (s.agentAppliedEarly || decide (s.ledger < s.agentExpiry)) = false
    rw [h.agentNoEarlyApply, decide_eq_false (Nat.not_lt.mpr helapsed)]
    rfl
  | cancelAgentUpdate => exact { h with agentPending := fun u hu => by cases hu }
  | scheduleUpgrade hv =>
    exact { h with upgradePending := fun u hu => Option.some.inj hu ▸ hv }
  | executeUpgrade hpending helapsed =>
    refine { h with
      upgradePending := fun u hu => by cases hu
      versionMonotonic := Nat.le_add_left 1 _
      upgradeNoEarlyApply := ?_ }
    show (s.upgradeAppliedEarly || decide (s.ledger < s.upgradeExpiry)) = false
    rw [h.upgradeNoEarlyApply, decide_eq_false (Nat.not_lt.mpr helapsed)]
    rfl
  | cancelUpgrade => exact { h with upgradePending := fun u hu => by cases hu }
  | advanceLedger hbound => exact { h with ledgerMonotonic := hbound }

theorem Reachable.invariants (h : Reachable c s) : Invariants c s := by
  obtain ⟨s0, hinit, hpath⟩ := h
  induction hpath with
  | refl => exact hinit.invariants
  | tail _ hnext ih => exact ih.next hnext

/-- The clock can move to any later ledger within the bound. -/
theorem advances {n : Nat} (hle : s.ledger ≤ n) (hbound : n ≤ c.maxLedger) :
    Relation.ReflTransGen (Next c) s { s with ledger := n } := by
  induction n, hle using Nat.le_induction with
  | base => exact .refl
  | succ n hle ih => exact (ih (Nat.le_of_succ_le hbound)).tail (.advanceLedger hbound)

end NeuroWealth.Vault.TimelockSpec
