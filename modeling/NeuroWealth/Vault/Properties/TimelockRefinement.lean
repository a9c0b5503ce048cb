import NeuroWealth.Vault.Proofs.HistoriesProofs
import NeuroWealth.Vault.TimelockSpec

/-!
# The vault implements the specification of its timelocks

Every run of the contract is a behaviour of the specification up to stuttering, so that the checked
invariants hold of it with the contract's own delay, addresses and builds.
-/

namespace NeuroWealth.Vault

open Transaction TimelockSpec
open Runs (Simulates Tracks)

variable {env : Env} {w w0 : World} {call : Call} {r : Roles} {n : Nat} {steps : List Step}
  {agent : Address}

/-- Proposed agents and proposed builds. -/
abbrev TimelockValue : Type := Address ⊕ Nat

/-- The constants of the contract: ledgers are `u32`. -/
def contractConstants : Constants TimelockValue where
  maxLedger := 4294967295
  delay := timelockLedgers
  values := Set.univ

variable {s : State TimelockValue}

/-- The state of the specification the stored roles stand for. An expiry only counts while its
    proposal is pending. -/
structure Implements (r : Roles) (ledger : Nat) (s : State TimelockValue) : Prop where
  ledger : s.ledger = ledger
  agentPending : s.agentPending = r.pendingAgent.map Sum.inl
  agentExpiry : r.pendingAgent ≠ none → s.agentExpiry = r.agentTimelockExpiry
  agentActive : r.agent.map Sum.inl = some s.agentActive
  upgradePending : s.upgradePending = r.pendingUpgradeHash.map Sum.inr
  upgradeExpiry : r.pendingUpgradeHash ≠ none → s.upgradeExpiry = r.upgradeTimelockExpiry
  upgradeVersion : s.upgradeVersion = r.version

/-- What the roles calls may do in one step of a behaviour. -/
def Matched (r : Roles) (ledger : Nat) (s : State TimelockValue) : Prop :=
  ∃ s', Relation.ReflTransGen (Next contractConstants) s s' ∧ Implements r ledger s'

theorem Implements.stutters (h : Implements r n s) : Matched r n s := ⟨s, .refl, h⟩

theorem Matched.of_next {s' : State TimelockValue} (hnext : Next contractConstants s s')
    (h : Implements r n s') : Matched r n s :=
  ⟨s', .single hnext, h⟩

/-! ## One step -/

/-- A role call other than the switch to the standby key is an action of the specification, or
    none. -/
theorem matched_of_roleStep (h : Implements w.roles w.chain.sequence s)
    (htime : call.startsTimelock = true → w.chain.sequence + timelockLedgers ≤ 4294967295)
    (hswitch : call ≠ .switchToStandbyAgent) (hstep : RoleStep env w call r) :
    Matched r w.chain.sequence s := by
  cases hstep with
  | updateAgent _ hfree =>
    have hexpiry := timelockExpiry_of_inTime (htime rfl)
    have hnone : s.agentPending = none := by rw [h.agentPending, hfree]; rfl
    refine .of_next (.scheduleAgentUpdate (Set.mem_univ (Sum.inl _)) hnone) { h with
      agentPending := rfl
      agentExpiry := fun _ => ?_ }
    show s.ledger + timelockLedgers = w.timelockExpiry
    rw [hexpiry, h.ledger]
  | @confirmAgentUpdate newAgent _ hpending helapsed =>
    have hsome : s.agentPending = some (Sum.inl newAgent) := by rw [h.agentPending, hpending]; rfl
    have hexpiry : s.agentExpiry ≤ s.ledger := by
      rw [h.agentExpiry (by simp [hpending]), h.ledger]
      exact helapsed
    exact .of_next (.confirmAgentUpdate hsome hexpiry) { h with
      agentPending := rfl
      agentExpiry := fun hne => absurd rfl hne
      agentActive := rfl }
  | cancelAgentUpdate =>
    cases hpending : w.roles.pendingAgent with
    | none =>
      -- nothing was pending: the specification stays where it is
      refine Implements.stutters ⟨h.ledger, ?_, fun hne => absurd rfl hne, h.agentActive,
        h.upgradePending, h.upgradeExpiry, h.upgradeVersion⟩
      rw [h.agentPending, hpending]
    | some v =>
      have hsome : s.agentPending = some (Sum.inl v) := by rw [h.agentPending, hpending]; rfl
      exact .of_next (.cancelAgentUpdate hsome) { h with
        agentPending := rfl
        agentExpiry := fun hne => absurd rfl hne }
  | switchToStandbyAgent => exact absurd rfl hswitch
  | scheduleUpgrade _ hfree =>
    have hexpiry := timelockExpiry_of_inTime (htime rfl)
    have hnone : s.upgradePending = none := by rw [h.upgradePending, hfree]; rfl
    refine .of_next (.scheduleUpgrade (Set.mem_univ (Sum.inr _)) hnone) { h with
      upgradePending := rfl
      upgradeExpiry := fun _ => ?_ }
    show s.ledger + timelockLedgers = w.timelockExpiry
    rw [hexpiry, h.ledger]
  | @executeUpgrade _ hash _ _ hpending helapsed =>
    have hsome : s.upgradePending = some (Sum.inr hash) := by rw [h.upgradePending, hpending]; rfl
    have hexpiry : s.upgradeExpiry ≤ s.ledger := by
      rw [h.upgradeExpiry (by simp [hpending]), h.ledger]
      exact helapsed
    refine .of_next (.executeUpgrade hsome hexpiry) { h with
      upgradePending := rfl
      upgradeExpiry := fun hne => absurd rfl hne
      upgradeVersion := ?_ }
    show s.upgradeVersion + 1 = w.roles.version + 1
    rw [h.upgradeVersion]
  | cancelUpgrade =>
    cases hpending : w.roles.pendingUpgradeHash with
    | none =>
      refine Implements.stutters ⟨h.ledger, h.agentPending, h.agentExpiry, h.agentActive, ?_,
        fun hne => absurd rfl hne, h.upgradeVersion⟩
      rw [h.upgradePending, hpending]
    | some v =>
      have hsome : s.upgradePending = some (Sum.inr v) := by rw [h.upgradePending, hpending]; rfl
      exact .of_next (.cancelUpgrade hsome) { h with
        upgradePending := rfl
        upgradeExpiry := fun hne => absurd rfl hne }
  | _ =>
    exact Implements.stutters ⟨h.ledger, h.agentPending, h.agentExpiry, h.agentActive,
      h.upgradePending, h.upgradeExpiry, h.upgradeVersion⟩

/-- Steps the specification speaks of: the ledger does not go back or leave its type, timelocks end
    within it, and the agent is not replaced by the standby key, which has no timelock. -/
def Step.WithinSpec (w : World) (step : Step) : Prop :=
  step.StartsInTime w ∧ step.Forward w ∧ ¬ step.Performs w .switchToStandbyAgent ∧
    (w.after step).chain.sequence ≤ 4294967295

/-- The vault at a ledger of its type, and a state of the specification it implements. -/
def World.Refines (w : World) (s : State TimelockValue) : Prop :=
  w.Initialized ∧ Implements w.roles w.chain.sequence s

/-- A step of the machine is matched by the specification: a call by at most one action, a change
    of the chain by as many ticks as ledgers have closed. -/
theorem simulates_spec :
    Simulates World.after Step.WithinSpec (Next contractConstants) World.Refines := by
  rintro w s step ⟨hi, h⟩ ⟨htime, hforward, hswitch, hbound⟩
  have hinit : (w.after step).Initialized := (anchored_after step hi).initialized hi
  rcases roles_after step hi with ⟨hroles, -⟩ | ⟨env, call, rfl, hok, hstep⟩
  · have hle : s.ledger ≤ (w.after step).chain.sequence := by
      rw [h.ledger]
      exact sequence_le_after step hi hforward
    refine ⟨_, advances hle hbound, hinit, ?_⟩
    rw [hroles]
    exact { h with ledger := rfl }
  · have hok' := ok_after hok
    have hsequence : (w.after (.call env call)).chain.sequence = w.chain.sequence :=
      (effect_of_invoke hi hok').sequence
    have hne : call ≠ .switchToStandbyAgent := fun heq => hswitch (heq ▸ ⟨env, rfl, hok⟩)
    obtain ⟨s', hpath, himplements⟩ := matched_of_roleStep (w := w.entered) h htime hne hstep
    refine ⟨s', hpath, hinit, ?_⟩
    rw [hsequence]
    exact himplements

/-- The initial state of the specification for the agent a vault is deployed with. -/
def initialSpec (agent : Address) : State TimelockValue where
  ledger := 0
  agentPending := none
  agentExpiry := 0
  agentActive := .inl agent
  agentAppliedEarly := false
  upgradePending := none
  upgradeExpiry := 0
  upgradeVersion := 1
  upgradeAppliedEarly := false

theorem initialSpec_init : Init contractConstants (initialSpec agent) :=
  ⟨rfl, rfl, rfl, Set.mem_univ _, rfl, rfl, rfl, rfl, rfl⟩

theorem World.Fresh.refines (h : w.Fresh) (hagent : w.roles.agent = some agent) :
    w.Refines { initialSpec agent with ledger := w.chain.sequence } := by
  obtain ⟨deployer, owner, first, hroles⟩ := h.roles
  obtain rfl : first = agent := by
    rw [hroles] at hagent
    exact Option.some.inj hagent
  refine ⟨h.initialized, ?_⟩
  rw [hroles]
  exact ⟨rfl, rfl, fun hne => absurd rfl hne, rfl, rfl, fun hne => absurd rfl hne, rfl⟩

/-- Every run of the vault, state by state, is a behaviour of the specification: it starts from the
    initial state with the deployed agent, whose clock ticks up to the first ledger, and the
    invariants hold all along. -/
theorem vault_refines_spec (h0 : w0.Opened) (hagent : w0.roles.agent = some agent)
    (hbound : w0.chain.sequence ≤ 4294967295) (h : Admits Step.WithinSpec w0 steps) :
    Init contractConstants (initialSpec agent) ∧
      Relation.ReflTransGen (Next contractConstants) (initialSpec agent)
        { initialSpec agent with ledger := w0.chain.sequence } ∧
      Tracks World.after (Next contractConstants)
        (fun w s => Implements w.roles w.chain.sequence s ∧ Invariants contractConstants s) w0
        { initialSpec agent with ledger := w0.chain.sequence } steps := by
  have hticks : Relation.ReflTransGen (Next contractConstants) (initialSpec agent)
      { initialSpec agent with ledger := w0.chain.sequence } := advances (Nat.zero_le _) hbound
  have hinvariants : Invariants contractConstants
      { initialSpec agent with ledger := w0.chain.sequence } :=
    Reachable.invariants ⟨initialSpec agent, initialSpec_init, hticks⟩
  refine ⟨initialSpec_init, hticks, ?_⟩
  have htracks := (simulates_spec.and_invariant fun _ _ => Invariants.next).tracks h
    ⟨h0.fresh.refines hagent, hinvariants⟩
  exact htracks.imp fun _ _ hrel => ⟨hrel.1.2, hrel.2⟩

namespace Sample

/-- A new agent is proposed, a day passes, and the proposal is confirmed. -/
def handover : List Step :=
  [.call honest (.updateAgent bob), .ambient { blank.chain with sequence := 18280 },
    .call honest .confirmAgentUpdate]

theorem handover_refines :
    Tracks World.after (Next contractConstants)
      (fun w s => Implements w.roles w.chain.sequence s ∧ Invariants contractConstants s) opened
      { initialSpec Sample.agent with ledger := opened.chain.sequence } handover := by
  have hrun : Admits Step.WithinSpec opened handover := by
    refine ⟨?_, ?_, ?_, trivial⟩
    · exact ⟨fun _ => by decide +kernel, trivial, not_performs (by simp), by decide +kernel⟩
    · exact ⟨trivial, by decide +kernel, fun ⟨_, hcall, _⟩ => Step.noConfusion hcall,
        by decide +kernel⟩
    · exact ⟨fun hstarts => Bool.noConfusion hstarts, trivial, not_performs (by simp),
        by decide +kernel⟩
  exact (vault_refines_spec opened_opened rfl (by decide +kernel) hrun).2.2

end Sample

end NeuroWealth.Vault
