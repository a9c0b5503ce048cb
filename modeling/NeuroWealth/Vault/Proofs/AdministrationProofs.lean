import NeuroWealth.Vault.Proofs.GuardsProofs

/-!
# Configuration calls are quiet

None of them touches an account, a position or the chain.
-/

namespace NeuroWealth.Vault

open Transaction MachineInt

/-- The owner's guard at the head of most setters. -/
theorem quiet_ownerGuarded {α : Type} {x : Contract α} (hx : Keeps quiet x) :
    Keeps quiet (do requireInitialized; requireIsOwner; x) :=
  .bind (.of_unchanged unchanged_requireInitialized) fun _ =>
    .bind (.of_unchanged unchanged_requireIsOwner) fun _ => hx

/-- The guard of the calls that take the owner as an argument. -/
theorem quiet_ownerArgGuarded {α : Type} {owner : Address} {e : VaultError} {x : Contract α}
    (hx : Keeps quiet x) : Keeps quiet (do requireInitialized; requireOwnerArg owner e; x) :=
  .bind (.of_unchanged unchanged_requireInitialized) fun _ =>
    .bind (.of_unchanged unchanged_requireOwnerArg) fun _ => hx

/-- The agent's guard. -/
theorem quiet_agentGuarded {α : Type} {x : Contract α} (hx : Keeps quiet x) :
    Keeps quiet (do requireInitialized; requireIsAgent; x) :=
  .bind (.of_unchanged unchanged_requireInitialized) fun _ =>
    .bind (.of_unchanged unchanged_requireIsAgent) fun _ => hx

theorem quiet_getOwnerInternal : Keeps quiet getOwnerInternal := .bind .get fun _ => .expect

theorem quiet_getAgentInternal : Keeps quiet getAgentInternal := .bind .get fun _ => .expect

/-! ## Pausing -/

theorem quiet_pause {owner : Address} : Keeps quiet (pause owner) :=
  quiet_ownerArgGuarded (.bind quiet_modifyBreaker fun _ => quiet_publish rfl)

theorem quiet_unpause {owner : Address} : Keeps quiet (unpause owner) :=
  quiet_ownerArgGuarded (.bind .get fun _ => .bind .require fun _ =>
    .bind quiet_modifyBreaker fun _ => quiet_publish rfl)

theorem quiet_emergencyPause {owner : Address} : Keeps quiet (emergencyPause owner) :=
  quiet_ownerArgGuarded (.bind .get fun _ =>
    .ite (.pure _) (.bind quiet_modifyBreaker fun _ => quiet_publish rfl))

theorem quiet_resetCircuitBreaker {owner : Address} : Keeps quiet (resetCircuitBreaker owner) :=
  quiet_ownerArgGuarded (.bind quiet_modifyBreaker fun _ => quiet_publish rfl)

/-! ## Limits -/

theorem quiet_setTvlCap {cap : Int} : Keeps quiet (setTvlCap cap) :=
  quiet_ownerGuarded (.bind .require fun _ => .bind .get fun _ =>
    .bind quiet_modifyLimits fun _ => quiet_publish rfl)

theorem quiet_setUserDepositCap {cap : Int} : Keeps quiet (setUserDepositCap cap) :=
  quiet_ownerGuarded (.bind .require fun _ => .bind .get fun _ =>
    .bind quiet_modifyLimits fun _ => quiet_publish rfl)

theorem quiet_setCaps {userDepositCap tvlCap : Int} : Keeps quiet (setCaps userDepositCap tvlCap) :=
  quiet_ownerGuarded (.bind .require fun _ => .bind .require fun _ => .bind .require fun _ =>
    .bind .get fun _ => .bind quiet_modifyLimits fun _ => .bind (quiet_publish rfl) fun _ =>
      .bind (quiet_publish rfl) fun _ => quiet_publish rfl)

theorem quiet_setLimits {min max : Int} : Keeps quiet (setLimits min max) :=
  quiet_ownerGuarded (.bind .require fun _ => .bind .require fun _ => .bind .require fun _ =>
    .bind .get fun _ => .bind quiet_modifyLimits fun _ => quiet_publish rfl)

theorem quiet_setDepositLimits {min max : Int} : Keeps quiet (setDepositLimits min max) :=
  quiet_ownerGuarded (.bind .require fun _ => .bind .require fun _ => .bind .require fun _ =>
    .bind .get fun _ => .bind quiet_modifyLimits fun _ => quiet_publish rfl)

theorem quiet_setRebalanceCooldown {n : Nat} : Keeps quiet (setRebalanceCooldown n) :=
  quiet_ownerGuarded (.bind .get fun _ => .bind quiet_modifyLimits fun _ => quiet_publish rfl)

theorem quiet_setRateLimit {c : RateLimitCategory} {m n : Nat} :
    Keeps quiet (setRateLimit c m n) :=
  quiet_ownerGuarded (.bind .require fun _ => .bind .require fun _ =>
    .bind (.bind .require fun _ => .bind .get fun _ => .pure _) fun _ =>
      .bind quiet_modifyLimits fun _ =>
        .bind (.onlyIf (.modify fun _ _ => ⟨rfl, rfl, rfl, rfl, rfl, rfl, rfl, rfl, rfl, id, rfl⟩))
          fun _ => .bind quiet_getOwnerInternal fun _ => quiet_publish rfl)

theorem quiet_setMaxBatchSize {n : Nat} : Keeps quiet (setMaxBatchSize n) :=
  quiet_ownerGuarded (.bind .get fun _ => .bind quiet_modifyLimits fun _ =>
    .bind quiet_getOwnerInternal fun _ => quiet_publish rfl)

theorem quiet_setMaxConsecutiveFailures {n : Nat} : Keeps quiet (setMaxConsecutiveFailures n) :=
  quiet_ownerGuarded (.bind .require fun _ => .bind .get fun _ =>
    .bind quiet_modifyBreaker fun _ => quiet_publish rfl)

theorem quiet_getApprovalTtlInternal : Keeps quiet getApprovalTtlInternal :=
  .bind .get fun _ => .pure _

theorem quiet_setApprovalTtl {n : Nat} : Keeps quiet (setApprovalTtl n) :=
  quiet_ownerGuarded (.bind .require fun _ => .bind .require fun _ =>
    .bind quiet_getApprovalTtlInternal fun _ => .bind quiet_modifyLimits fun _ =>
      quiet_publish rfl)

theorem quiet_setBlendApprovalTtl {owner : Address} {n : Nat} :
    Keeps quiet (setBlendApprovalTtl owner n) :=
  quiet_ownerArgGuarded (.bind quiet_getApprovalTtlInternal fun _ =>
    .bind quiet_modifyLimits fun _ => quiet_publish rfl)

/-! ## Users and views -/

theorem quiet_setUserStrategy {user : Address} {s : Strategy} :
    Keeps quiet (setUserStrategy user s) :=
  .bind (.of_unchanged unchanged_requireInitialized) fun _ =>
    .bind (.of_unchanged unchanged_requireAuth) fun _ => .bind .require fun _ =>
      .bind .get fun _ => .bind quiet_modifyProfiles fun _ => quiet_publish rfl

theorem quiet_touchUserTtl {user : Address} : Keeps quiet (touchUserTtl user) :=
  .bind (.of_unchanged unchanged_requireInitialized) fun _ => quiet_enforceRateLimit

theorem quiet_batchTouchTtl {users : List Address} : Keeps quiet (batchTouchTtl users) :=
  .bind (.of_unchanged unchanged_requireInitialized) fun _ =>
    .bind (.bind .get fun _ => .require) fun _ => .each (fun _ => quiet_enforceRateLimit) users

/-- A view whose conversion changes nothing spends its allowance and no more. -/
theorem quiet_preview {conversion : Int → Contract Int} (h : ∀ x, Keeps unchanged (conversion x))
    {x : Int} : Keeps quiet (discard (preview conversion x)) :=
  .bind (.bind (.of_unchanged unchanged_requireInitialized) fun _ =>
    .bind quiet_enforceRateLimit fun _ => .of_unchanged (h x)) fun _ => .pure _

theorem unchanged_convertToSharesInternal (x : Int) :
    Keeps unchanged (convertToSharesInternal x) :=
  fun _ _ _ _ h => (ok_convertToSharesInternal h).2

theorem unchanged_convertToSharesInternalCeil (x : Int) :
    Keeps unchanged (convertToSharesInternalCeil x) :=
  fun _ _ _ _ h => (ok_convertToSharesInternalCeil h).2

/-! ## Telemetry -/

theorem quiet_setProtocolApy {p : Protocol} {n : Nat} : Keeps quiet (setProtocolApy p n) :=
  quiet_agentGuarded (.bind .require fun _ => .bind .expect fun _ =>
    .bind quiet_modifyReports fun _ => quiet_publish rfl)

theorem quiet_submitMevReport {p : Protocol} {x y : Int} : Keeps quiet (submitMevReport p x y) :=
  quiet_agentGuarded (.bind .require fun _ => .bind .get fun _ => .bind .expect fun _ =>
    .bind quiet_modifyReports fun _ => quiet_publish rfl)

theorem quiet_setMaxAcceptableMevLoss {x : Int} : Keeps quiet (setMaxAcceptableMevLoss x) :=
  quiet_ownerGuarded (.bind .require fun _ => quiet_modifyReports)

theorem quiet_submitApyPrediction {p : ApyPrediction} : Keeps quiet (submitApyPrediction p) :=
  quiet_agentGuarded (.bind .get fun _ => quiet_modifyReports)

/-! ## Migration flags -/

theorem quiet_setMigrationTarget {a : Address} : Keeps quiet (setMigrationTarget a) :=
  quiet_ownerGuarded (.bind .get fun _ => .bind quiet_modifyMigration fun _ =>
    .bind quiet_getOwnerInternal fun _ => quiet_publish rfl)

theorem quiet_setMigrationPaused {b : Bool} : Keeps quiet (setMigrationPaused b) :=
  quiet_ownerGuarded (.bind quiet_modifyMigration fun _ =>
    .bind quiet_getOwnerInternal fun _ => quiet_publish rfl)

/-! ## Roles -/

theorem quiet_updateAgent {a : Address} : Keeps quiet (updateAgent a) :=
  quiet_ownerGuarded (.bind .get fun _ => .bind .require fun _ =>
    .bind quiet_getAgentInternal fun _ =>
      .bind (quiet_modifyRoles (fun _ => id) fun _ => id) fun _ => quiet_publish rfl)

theorem quiet_confirmAgentUpdate : Keeps quiet confirmAgentUpdate :=
  quiet_ownerGuarded (.bind .get fun _ => .bind .expect fun _ => .bind .require fun _ =>
    .bind quiet_getAgentInternal fun _ =>
      .bind (quiet_modifyRoles (fun _ _ => rfl) fun _ => id) fun _ =>
        .bind (quiet_publish rfl) fun _ => quiet_publish rfl)

theorem quiet_cancelAgentUpdate : Keeps quiet cancelAgentUpdate :=
  quiet_ownerGuarded (.bind .get fun _ => .bind .expect fun _ =>
    .bind quiet_getAgentInternal fun _ =>
      .bind (quiet_modifyRoles (fun _ => id) fun _ => id) fun _ => quiet_publish rfl)

theorem quiet_updateStandbyAgent {a : Address} : Keeps quiet (updateStandbyAgent a) :=
  quiet_ownerGuarded (.bind quiet_getAgentInternal fun _ => .bind .require fun _ =>
    .bind .get fun _ => .bind (quiet_modifyRoles (fun _ => id) fun _ => id) fun _ =>
      .bind quiet_getOwnerInternal fun _ => quiet_publish rfl)

theorem quiet_switchToStandbyAgent : Keeps quiet switchToStandbyAgent :=
  quiet_ownerGuarded (.bind quiet_getAgentInternal fun _ => .bind .get fun _ =>
    .bind .expect fun _ => .bind (quiet_modifyRoles (fun _ _ => rfl) fun _ => id) fun _ =>
      .bind quiet_getOwnerInternal fun _ => quiet_publish rfl)

theorem quiet_changeGuardian {g : Option Address} : Keeps quiet (changeGuardian g) :=
  quiet_ownerGuarded (.bind .get fun _ =>
    .bind (quiet_modifyRoles (fun _ => id) fun _ => id) fun _ =>
      .bind quiet_getOwnerInternal fun _ => quiet_publish rfl)

theorem quiet_transferOwnership {a : Address} : Keeps quiet (transferOwnership a) :=
  quiet_ownerGuarded (.bind quiet_getOwnerInternal fun _ =>
    .bind (quiet_modifyRoles (fun _ => id) fun _ => id) fun _ => quiet_publish rfl)

theorem quiet_acceptOwnership {a : Address} : Keeps quiet (acceptOwnership a) :=
  .bind (.of_unchanged unchanged_requireInitialized) fun _ =>
    .bind (.of_unchanged unchanged_requireAuth) fun _ => .bind .get fun _ =>
      .bind .expect fun _ => .bind .require fun _ => .bind quiet_getOwnerInternal fun _ =>
        .bind (quiet_modifyRoles (fun _ => id) fun _ _ => rfl) fun _ => quiet_publish rfl

theorem quiet_cancelOwnershipTransfer : Keeps quiet cancelOwnershipTransfer :=
  quiet_ownerGuarded (.bind .get fun _ => .bind .expect fun _ =>
    .bind quiet_getOwnerInternal fun _ =>
      .bind (quiet_modifyRoles (fun _ => id) fun _ => id) fun _ => quiet_publish rfl)

/-! ## Upgrades -/

theorem quiet_scheduleUpgrade {owner : Address} {n : Nat} : Keeps quiet (scheduleUpgrade owner n) :=
  .bind (.of_unchanged unchanged_requireInitialized) fun _ =>
    .bind (.of_unchanged unchanged_requireAuth) fun _ =>
      .bind (.of_unchanged unchanged_requireNotPaused) fun _ =>
        .bind quiet_getOwnerInternal fun _ => .bind .require fun _ => .bind .get fun _ =>
          .bind .require fun _ => .bind .require fun _ =>
            .bind (quiet_modifyRoles (fun _ => id) fun _ => id) fun _ => quiet_publish rfl

theorem unchanged_requireGuardianAuth : Keeps unchanged requireGuardianAuth := by
  refine .bind .get fun w => ?_
  split
  · exact unchanged_requireAuth
  · exact .pure _

theorem quiet_updateCurrentContractWasm {n : Nat} : Keeps quiet (updateCurrentContractWasm n) :=
  .bind .read fun _ => .bind .require fun _ => quiet_modifyRoles (fun _ => id) fun _ => id

theorem quiet_executeUpgrade {owner : Address} : Keeps quiet (executeUpgrade owner) :=
  .bind (.of_unchanged unchanged_requireInitialized) fun _ =>
    .bind (.of_unchanged unchanged_requireAuth) fun _ =>
      .bind (.of_unchanged unchanged_requireNotPaused) fun _ =>
        .bind quiet_getOwnerInternal fun _ => .bind .require fun _ =>
          .bind (.of_unchanged unchanged_requireGuardianAuth) fun _ => .bind .get fun _ =>
            .bind .expect fun _ => .bind .require fun _ =>
              .bind (quiet_modifyRoles (fun _ => id) fun _ => id) fun _ =>
                .bind quiet_updateCurrentContractWasm fun _ => .bind .require fun _ =>
                  .bind (quiet_modifyRoles (fun _ => id) fun _ => id) fun _ => quiet_publish rfl

theorem quiet_cancelUpgrade {owner : Address} : Keeps quiet (cancelUpgrade owner) :=
  quiet_ownerArgGuarded (.bind .get fun _ => .bind .expect fun _ =>
    .bind (quiet_modifyRoles (fun _ => id) fun _ => id) fun _ => quiet_publish rfl)

/-! ## Other administration -/

/-- What `initialize` stores, and that it runs on a vault without an agent. -/
theorem initializeVault_ok {deployer owner agent usdcToken : Address} {salt : Nat} {u : Unit}
    (h : (initializeVault deployer owner agent usdcToken salt).Ok env w u w') :
    w.roles.agent = none ∧ w' = { w.initialized deployer owner agent usdcToken with
      events := w.events ++ [.initialized owner agent usdcToken 100000000000] } := by
  simp only [initializeVault, Tx.ok_bind, Tx.ok_read, Tx.ok_get, Tx.ok_require, ok_requireAuth,
    Tx.ok_modify, ok_publish, Option.isNone_iff_eq_none, existsAndEq, exists_const, and_assoc,
    true_and] at h
  obtain ⟨hnone, -, -, -, -, -, -, -, hw⟩ := h
  exact ⟨hnone, hw⟩

/-- `initialize` has no second success. -/
theorem not_initializeVault_ok {deployer owner agent usdcToken : Address} {salt : Nat} {u : Unit}
    (hi : w.Initialized) :
    ¬ (initializeVault deployer owner agent usdcToken salt).Ok env w u w' := by
  intro h
  have hnone := (initializeVault_ok h).1
  have hsome := hi.1
  rw [hnone] at hsome
  cases hsome

/-- Re-pointing a venue changes its configured pool and nothing else. -/
theorem setVenuePool_ok {venue : Venue} {owner pool : Address} {u : Unit}
    (h : (setVenuePool venue owner pool).Ok env w u w') :
    Quiet { w with deployment := w.deployment.setPool venue pool } w' := by
  simp only [setVenuePool, Tx.ok_bind, Tx.ok_get, ok_requireInitialized, ok_requireOwnerArg,
    Tx.ok_ite, Tx.ok_pure, ok_getUsdcToken, ok_poolBalance, ok_putDeployment, existsAndEq,
    exists_const, and_assoc, true_and] at h
  obtain ⟨-, -, -, -, ⟨hsame, rfl⟩ | ⟨-, _, -, hpub⟩⟩ := h
  · have hdep : w'.deployment.setPool venue pool = w'.deployment := by
      have hpool : (fun v => if v = venue then some pool else w'.deployment.pool v) =
          w'.deployment.pool := by
        funext v
        by_cases hv : v = venue
        · rw [if_pos hv, hv, hsame]
        · rw [if_neg hv]
      exact congrArg (fun p => { w'.deployment with pool := p }) hpool
    rw [hdep]
    exact quiet.refl env _
  · exact quiet_publish rfl hpub

theorem setMinHoldingPeriod_ok {n : Nat} {u : Unit} (h : (setMinHoldingPeriod n).Ok env w u w') :
    Quiet { w with holding := { w.holding with minHoldingPeriod := n } } w' := by
  simp only [setMinHoldingPeriod, Tx.ok_bind, Tx.ok_get, ok_requireInitialized, ok_requireIsOwner,
    ok_putHolding, existsAndEq, exists_const, and_assoc, true_and] at h
  obtain ⟨-, -, -, rfl⟩ := h
  exact quiet.refl env _

/-! ## All configuration calls -/

theorem quiet_run {call : Call} (h : call.isConfiguration = true) : Keeps quiet call.run := by
  cases call
  case setProtocolApy => exact quiet_setProtocolApy
  case submitMevReport => exact quiet_submitMevReport
  case setMaxAcceptableMevLoss => exact quiet_setMaxAcceptableMevLoss
  case submitApyPrediction => exact quiet_submitApyPrediction
  case pause => exact quiet_pause
  case unpause => exact quiet_unpause
  case emergencyPause => exact quiet_emergencyPause
  case resetCircuitBreaker => exact quiet_resetCircuitBreaker
  case setMigrationTarget => exact quiet_setMigrationTarget
  case setMigrationPaused => exact quiet_setMigrationPaused
  case setTvlCap => exact quiet_setTvlCap
  case setUserDepositCap => exact quiet_setUserDepositCap
  case setCaps => exact quiet_setCaps
  case setLimits => exact quiet_setLimits
  case setDepositLimits => exact quiet_setDepositLimits
  case setRebalanceCooldown => exact quiet_setRebalanceCooldown
  case setRateLimit => exact quiet_setRateLimit
  case setMaxBatchSize => exact quiet_setMaxBatchSize
  case setMaxConsecutiveFailures => exact quiet_setMaxConsecutiveFailures
  case setApprovalTtl => exact quiet_setApprovalTtl
  case setBlendApprovalTtl => exact quiet_setBlendApprovalTtl
  case setUserStrategy => exact quiet_setUserStrategy
  case touchUserTtl => exact quiet_touchUserTtl
  case batchTouchTtl => exact quiet_batchTouchTtl
  case previewDepositToShares => exact quiet_preview unchanged_convertToSharesInternal
  case previewSharesToAssets => exact quiet_preview fun _ => unchanged_convertToAssetsInternal
  case previewWithdraw => exact quiet_preview unchanged_convertToSharesInternalCeil
  case convertToShares => exact quiet_preview unchanged_convertToSharesInternal
  case convertToAssets => exact quiet_preview fun _ => unchanged_convertToAssetsInternal
  case updateAgent => exact quiet_updateAgent
  case confirmAgentUpdate => exact quiet_confirmAgentUpdate
  case cancelAgentUpdate => exact quiet_cancelAgentUpdate
  case updateStandbyAgent => exact quiet_updateStandbyAgent
  case switchToStandbyAgent => exact quiet_switchToStandbyAgent
  case setGuardian => exact quiet_changeGuardian
  case removeGuardian => exact quiet_changeGuardian
  case transferOwnership => exact quiet_transferOwnership
  case acceptOwnership => exact quiet_acceptOwnership
  case cancelOwnershipTransfer => exact quiet_cancelOwnershipTransfer
  case scheduleUpgrade => exact quiet_scheduleUpgrade
  case executeUpgrade => exact quiet_executeUpgrade
  case cancelUpgrade => exact quiet_cancelUpgrade
  all_goals exact nomatch h

end NeuroWealth.Vault
