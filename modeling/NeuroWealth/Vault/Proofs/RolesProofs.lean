import NeuroWealth.Vault.Proofs.GovernanceProofs
import NeuroWealth.Vault.Proofs.MachineProofs

/-!
# What the role calls do

`RoleStep` says once what a successful call that writes the roles can do, guards included.
-/

namespace NeuroWealth.Vault

open Transaction MachineInt

variable {env : Env} {w w' : World} {call : Call} {u : Unit}

/-- The owner has signed. -/
def World.OwnerSigns (w : World) (env : Env) : Prop :=
  ∃ owner, w.roles.owner = some owner ∧ owner ∈ env.auths

/-- A fresh timelock's expiry. -/
def World.timelockExpiry (w : World) : Nat := saturatingAddU32 w.chain.sequence timelockLedgers

inductive RoleStep (env : Env) (w : World) : Call → Roles → Prop
  | updateAgent {newAgent : Address} (howner : w.OwnerSigns env)
      (hfree : w.roles.pendingAgent = none) :
      RoleStep env w (.updateAgent newAgent)
        { w.roles with pendingAgent := some newAgent, agentTimelockExpiry := w.timelockExpiry }
  | confirmAgentUpdate {newAgent : Address} (howner : w.OwnerSigns env)
      (hpending : w.roles.pendingAgent = some newAgent)
      (helapsed : w.roles.agentTimelockExpiry ≤ w.chain.sequence) :
      RoleStep env w .confirmAgentUpdate
        { w.roles with agent := some newAgent, pendingAgent := none, agentTimelockExpiry := 0 }
  | cancelAgentUpdate (howner : w.OwnerSigns env) :
      RoleStep env w .cancelAgentUpdate { w.roles with pendingAgent := none, agentTimelockExpiry := 0 }
  | updateStandbyAgent {newStandby primary : Address} (howner : w.OwnerSigns env)
      (hagent : w.roles.agent = some primary) (hne : newStandby ≠ primary) :
      RoleStep env w (.updateStandbyAgent newStandby) { w.roles with standbyAgent := some newStandby }
  | switchToStandbyAgent {primary standby : Address} (howner : w.OwnerSigns env)
      (hagent : w.roles.agent = some primary) (hstandby : w.roles.standbyAgent = some standby) :
      RoleStep env w .switchToStandbyAgent
        { w.roles with agent := some standby, standbyAgent := some primary }
  | setGuardian {newGuardian : Address} (howner : w.OwnerSigns env) :
      RoleStep env w (.setGuardian newGuardian) { w.roles with guardian := some newGuardian }
  | removeGuardian (howner : w.OwnerSigns env) :
      RoleStep env w .removeGuardian { w.roles with guardian := none }
  | transferOwnership {newOwner : Address} (howner : w.OwnerSigns env) :
      RoleStep env w (.transferOwnership newOwner) { w.roles with pendingOwner := some newOwner }
  | acceptOwnership {newOwner : Address} (hsigned : newOwner ∈ env.auths)
      (hpending : w.roles.pendingOwner = some newOwner) :
      RoleStep env w (.acceptOwnership newOwner)
        { w.roles with owner := some newOwner, pendingOwner := none }
  | cancelOwnershipTransfer (howner : w.OwnerSigns env) :
      RoleStep env w .cancelOwnershipTransfer { w.roles with pendingOwner := none }
  | scheduleUpgrade {owner : Address} {hash : Nat} (howner : w.OwnerSigns env)
      (hfree : w.roles.pendingUpgradeHash = none) :
      RoleStep env w (.scheduleUpgrade owner hash)
        { w.roles with pendingUpgradeHash := some hash, upgradeTimelockExpiry := w.timelockExpiry }
  | executeUpgrade {owner : Address} {hash : Nat} (howner : w.OwnerSigns env)
      (hguardian : ∀ g, w.roles.guardian = some g → g ∈ env.auths)
      (hpending : w.roles.pendingUpgradeHash = some hash)
      (helapsed : w.roles.upgradeTimelockExpiry ≤ w.chain.sequence) :
      RoleStep env w (.executeUpgrade owner)
        { w.roles with
          pendingUpgradeHash := none, upgradeTimelockExpiry := 0, wasmHash := some hash,
          version := w.roles.version + 1 }
  | cancelUpgrade {owner : Address} (howner : w.OwnerSigns env) :
      RoleStep env w (.cancelUpgrade owner)
        { w.roles with pendingUpgradeHash := none, upgradeTimelockExpiry := 0 }

@[simp]
theorem ok_modifyRoles {f : Roles → Roles} :
    (modifyRoles f).Ok env w u w' ↔ w' = { w with roles := f w.roles } := by
  simp [modifyRoles]

theorem requireGuardianAuth_ok (h : requireGuardianAuth.Ok env w u w') :
    (∀ g, w.roles.guardian = some g → g ∈ env.auths) ∧ w' = w := by
  simp only [requireGuardianAuth, Tx.ok_bind, Tx.ok_get, existsAndEq, true_and] at h
  split at h
  · rename_i guardian hguardian
    obtain ⟨⟨hsigned, -⟩, rfl⟩ := ok_requireAuth.mp h
    refine ⟨fun g hg => ?_, rfl⟩
    rw [hguardian] at hg
    cases hg
    exact hsigned
  · rename_i hnone
    refine ⟨fun g hg => ?_, (Tx.ok_pure.mp h).2⟩
    rw [hnone] at hg
    cases hg

theorem changeGuardian_ok {newGuardian : Option Address}
    (h : (changeGuardian newGuardian).Ok env w u w') :
    w.OwnerSigns env ∧ w'.roles = { w.roles with guardian := newGuardian } := by
  simp only [changeGuardian, Tx.ok_bind, Tx.ok_get, ok_requireInitialized, ok_requireIsOwner,
    ok_getOwnerInternal, ok_modifyRoles, ok_publish, existsAndEq, exists_const, and_assoc,
    true_and] at h
  obtain ⟨-, -, ⟨owner, howner, hsigned, -⟩, -, -, rfl⟩ := h
  exact ⟨⟨owner, howner, hsigned⟩, rfl⟩

/-- A successful call that writes the roles of an initialised vault is one of the role steps. -/
theorem roleStep_of_run (hi : w.Initialized) (hcall : .roles ∈ call.writes)
    (h : call.run.Ok env w u w') : RoleStep env w call w'.roles := by
  cases call
  case initializeVault => exact absurd h (not_initializeVault_ok hi)
  case updateAgent =>
    simp only [Call.run, updateAgent, Tx.ok_bind, Tx.ok_get, ok_requireInitialized,
      ok_requireIsOwner, Tx.ok_require, ok_getAgentInternal, ok_modifyRoles, ok_publish,
      Option.isNone_iff_eq_none, existsAndEq, exists_const, and_assoc, true_and] at h
    obtain ⟨-, -, ⟨owner, howner, hsigned, -⟩, hfree, -, -, rfl⟩ := h
    exact .updateAgent ⟨owner, howner, hsigned⟩ hfree
  case confirmAgentUpdate =>
    simp only [Call.run, confirmAgentUpdate, Tx.ok_bind, Tx.ok_get, ok_requireInitialized,
      ok_requireIsOwner, Tx.ok_require, Tx.ok_expect, ok_getAgentInternal, ok_modifyRoles,
      ok_publish, existsAndEq, exists_const, and_assoc, true_and] at h
    obtain ⟨-, -, ⟨owner, howner, hsigned, -⟩, agent, hpending, helapsed, -, -, rfl⟩ := h
    exact .confirmAgentUpdate ⟨owner, howner, hsigned⟩ hpending helapsed
  case cancelAgentUpdate =>
    simp only [Call.run, cancelAgentUpdate, Tx.ok_bind, Tx.ok_get, ok_requireInitialized,
      ok_requireIsOwner, Tx.ok_expect, ok_getAgentInternal, ok_modifyRoles, ok_publish,
      existsAndEq, exists_const, and_assoc, true_and] at h
    obtain ⟨-, -, ⟨owner, howner, hsigned, -⟩, proposed, -, -, -, rfl⟩ := h
    exact .cancelAgentUpdate ⟨owner, howner, hsigned⟩
  case updateStandbyAgent =>
    simp only [Call.run, updateStandbyAgent, Tx.ok_bind, Tx.ok_get, ok_requireInitialized,
      ok_requireIsOwner, Tx.ok_require, ok_getAgentInternal, ok_getOwnerInternal, ok_modifyRoles,
      ok_publish, existsAndEq, exists_const, and_assoc, true_and] at h
    obtain ⟨-, -, ⟨owner, howner, hsigned, -⟩, primary, hagent, hne, -, -, rfl⟩ := h
    exact .updateStandbyAgent ⟨owner, howner, hsigned⟩ hagent hne
  case switchToStandbyAgent =>
    simp only [Call.run, switchToStandbyAgent, Tx.ok_bind, Tx.ok_get, ok_requireInitialized,
      ok_requireIsOwner, Tx.ok_expect, ok_getAgentInternal, ok_getOwnerInternal, ok_modifyRoles,
      ok_publish, existsAndEq, exists_const, and_assoc, true_and] at h
    obtain ⟨-, -, ⟨owner, howner, hsigned, -⟩, primary, hagent, standby, hstandby, -, -, rfl⟩ := h
    exact .switchToStandbyAgent ⟨owner, howner, hsigned⟩ hagent hstandby
  case setGuardian =>
    obtain ⟨howner, hroles⟩ := changeGuardian_ok h
    rw [hroles]
    exact .setGuardian howner
  case removeGuardian =>
    obtain ⟨howner, hroles⟩ := changeGuardian_ok h
    rw [hroles]
    exact .removeGuardian howner
  case transferOwnership =>
    simp only [Call.run, transferOwnership, Tx.ok_bind, ok_requireInitialized, ok_requireIsOwner,
      ok_getOwnerInternal, ok_modifyRoles, ok_publish, existsAndEq, exists_const, and_assoc,
      true_and] at h
    obtain ⟨-, -, ⟨owner, howner, hsigned, -⟩, -, -, rfl⟩ := h
    exact .transferOwnership ⟨owner, howner, hsigned⟩
  case acceptOwnership =>
    simp only [Call.run, acceptOwnership, Tx.ok_bind, Tx.ok_get, ok_requireInitialized,
      ok_requireAuth, Tx.ok_require, Tx.ok_expect, ok_getOwnerInternal, ok_modifyRoles, ok_publish,
      existsAndEq, exists_const, and_assoc, true_and] at h
    obtain ⟨-, hsigned, -, hpending, -, -, rfl⟩ := h
    exact .acceptOwnership hsigned hpending
  case cancelOwnershipTransfer =>
    simp only [Call.run, cancelOwnershipTransfer, Tx.ok_bind, Tx.ok_get, ok_requireInitialized,
      ok_requireIsOwner, Tx.ok_expect, ok_getOwnerInternal, ok_modifyRoles, ok_publish,
      existsAndEq, exists_const, and_assoc, true_and] at h
    obtain ⟨-, -, ⟨owner, howner, hsigned, -⟩, pending, -, -, -, rfl⟩ := h
    exact .cancelOwnershipTransfer ⟨owner, howner, hsigned⟩
  case scheduleUpgrade =>
    simp only [Call.run, scheduleUpgrade, Tx.ok_bind, Tx.ok_get, ok_requireInitialized,
      ok_requireAuth, ok_requireNotPaused, Tx.ok_require, ok_getOwnerInternal, ok_modifyRoles,
      ok_publish, Option.isNone_iff_eq_none, existsAndEq, exists_const, and_assoc, true_and] at h
    obtain ⟨-, hsigned, -, -, howner, hfree, -, rfl⟩ := h
    exact .scheduleUpgrade ⟨_, howner, hsigned⟩ hfree
  case executeUpgrade =>
    simp only [Call.run, executeUpgrade, updateCurrentContractWasm, Tx.ok_bind, Tx.ok_get,
      Tx.ok_read, ok_requireInitialized, ok_requireAuth, ok_requireNotPaused, Tx.ok_require,
      Tx.ok_expect, ok_getOwnerInternal, ok_modifyRoles, ok_publish, existsAndEq, exists_const,
      and_assoc, true_and] at h
    obtain ⟨-, hsigned, -, -, howner, _, t, hguardian, hash, hpending, helapsed, -, -, rfl⟩ := h
    obtain ⟨hguardian, rfl⟩ := requireGuardianAuth_ok hguardian
    exact .executeUpgrade ⟨_, howner, hsigned⟩ hguardian hpending helapsed
  case cancelUpgrade =>
    simp only [Call.run, cancelUpgrade, Tx.ok_bind, Tx.ok_get, ok_requireInitialized,
      ok_requireOwnerArg, Tx.ok_expect, ok_modifyRoles, ok_publish, existsAndEq, exists_const,
      and_assoc, true_and] at h
    obtain ⟨-, hsigned, -, howner, hash, -, rfl⟩ := h
    exact .cancelUpgrade ⟨_, howner, hsigned⟩
  all_goals exact absurd hcall (by simp [Call.writes])

/-- A successful call that writes the roles, as a step of the machine. -/
theorem roleStep_of_invoke (hi : w.Initialized) (hcall : .roles ∈ call.writes)
    (h : (invoke call).Ok env w u w') : RoleStep env w.entered call w'.roles :=
  roleStep_of_run hi hcall (ok_invoke.mp h)

/-- A step changes a governing part only through a successful call that lists it. -/
theorem same_after {p : Part} (step : Step)
    (h : ∀ call, step.Performs w call → p ∉ call.writes) : p.Same w (w.after step) := by
  cases step with
  | ambient chain => exact .of_governing p rfl
  | call env call =>
    show p.Same w ((invoke call).commit env w)
    cases hok : (invoke call).succeeds env w with
    | false =>
      rw [Tx.commit_of_fails hok]
      exact .refl p
    | true => exact same_of_invoke (h call ⟨env, rfl, hok⟩) (ok_after hok)

/-- A step either leaves the roles alone or is a successful role call. -/
theorem roles_after (step : Step) (hi : w.Initialized) :
    ((w.after step).roles = w.roles ∧ ∀ call, step.Performs w call → .roles ∉ call.writes) ∨
      ∃ env call, step = .call env call ∧ (invoke call).succeeds env w = true ∧
        RoleStep env w.entered call (w.after step).roles := by
  by_cases hroles : ∃ call, step.Performs w call ∧ .roles ∈ call.writes
  · obtain ⟨call, ⟨env, rfl, hok⟩, hwrites⟩ := hroles
    exact .inr ⟨env, call, rfl, hok, roleStep_of_invoke hi hwrites (ok_after hok)⟩
  · have hnone : ∀ call, step.Performs w call → .roles ∉ call.writes :=
      fun call hperforms hwrites => hroles ⟨call, hperforms, hwrites⟩
    exact .inl ⟨same_after step hnone, hnone⟩

end NeuroWealth.Vault
