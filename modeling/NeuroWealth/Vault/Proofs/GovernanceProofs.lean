import NeuroWealth.Vault.Proofs.EffectsProofs

/-!
# Who writes what governs the vault

The roles, limits, switches and reports, and which entrypoints may write each of them. What an
entrypoint does not list, no run of it changes.
-/

namespace NeuroWealth.Vault

open Transaction MachineInt

variable {env : Env} {w w' : World} {venue : Venue} {user : Address} {minOut : Int}

/-! ## Parts -/

/-- The parts of the state that govern the vault, the index of its holders and their snapshots. The
    ledger of the latest rebalance and the shared rebalance bucket are written by the agent's calls,
    index and snapshots by deposits, the others by the owner's calls. -/
inductive Part where
  | roles
  | limits
  | lastRebalance
  | rebalanceBucket
  | breaker
  | migration
  | reports
  | holders
  | snapshots
deriving DecidableEq

/-- The limits without the ledger of the latest rebalance. -/
def Limits.configured (l : Limits) : Limits := { l with lastRebalanceLedger := none }

/-- Both states agree on a part. -/
def Part.Same : Part → World → World → Prop
  | .roles, w, w' => w'.roles = w.roles
  | .limits, w, w' => w'.limits.configured = w.limits.configured
  | .lastRebalance, w, w' => w'.limits.lastRebalanceLedger = w.limits.lastRebalanceLedger
  | .rebalanceBucket, w, w' => w'.buckets.state none .rebalance = w.buckets.state none .rebalance
  | .breaker, w, w' => w'.breaker = w.breaker
  | .migration, w, w' => w'.migration = w.migration
  | .reports, w, w' => w'.reports = w.reports
  | .holders, w, w' => w'.profiles.userSharesIndex = w.profiles.userSharesIndex
  | .snapshots, w, w' => w'.profiles.depositSnapshot = w.profiles.depositSnapshot

theorem Part.Same.refl (p : Part) : p.Same w w := by
  cases p <;> rfl

theorem Part.Same.trans {p : Part} {t : World} (h1 : p.Same w t) (h2 : p.Same t w') :
    p.Same w w' := by
  cases p <;> exact Eq.trans h2 h1

/-- Only the listed parts may change. -/
def writes (S : List Part) : Footprint Env World where
  rel _ w w' := ∀ p, p ∉ S → p.Same w w'
  refl _ _ := fun p _ => .refl p
  trans h1 h2 := fun p hp => (h1 p hp).trans (h2 p hp)

variable {S : List Part}

/-! ## Primitives -/

/-- All storage the parts are read from. -/
def World.governing (w : World) :
    Roles × Limits × Buckets × Breaker × Migration × Reports × List Address ×
      (Address → Option DepositSnapshot) :=
  (w.roles, w.limits, w.buckets, w.breaker, w.migration, w.reports, w.profiles.userSharesIndex,
    w.profiles.depositSnapshot)

theorem Part.Same.of_governing (p : Part) (h : w'.governing = w.governing) : p.Same w w' := by
  obtain ⟨hroles, hlimits, hbuckets, hbreaker, hmigration, hreports, hholders, hsnapshots⟩ :
      w'.roles = w.roles ∧ w'.limits = w.limits ∧ w'.buckets = w.buckets ∧
        w'.breaker = w.breaker ∧ w'.migration = w.migration ∧ w'.reports = w.reports ∧
        w'.profiles.userSharesIndex = w.profiles.userSharesIndex ∧
        w'.profiles.depositSnapshot = w.profiles.depositSnapshot := by
    simpa only [World.governing, Prod.mk.injEq] using h
  cases p with
  | roles => exact hroles
  | limits => exact congrArg Limits.configured hlimits
  | lastRebalance => exact congrArg Limits.lastRebalanceLedger hlimits
  | rebalanceBucket => exact congrArg (fun b => b.state none .rebalance) hbuckets
  | breaker => exact hbreaker
  | migration => exact hmigration
  | reports => exact hreports
  | holders => exact hholders
  | snapshots => exact hsnapshots

/-- Storage outside the governing parts. -/
theorem writes_modify {f : World → World} (h : ∀ w, (f w).governing = w.governing) :
    Keeps (writes S) (modify f : Contract PUnit) :=
  .modify fun _ w p _ => .of_governing p (h w)

theorem writes_putBook {b : Book} : Keeps (writes S) (putBook b) :=
  writes_modify fun _ => rfl

theorem writes_putAssets {a : AssetPools} : Keeps (writes S) (putAssets a) :=
  writes_modify fun _ => rfl

theorem writes_putLocks {l : Locks} : Keeps (writes S) (putLocks l) :=
  writes_modify fun _ => rfl

theorem writes_putHolding {h : Holding} : Keeps (writes S) (putHolding h) :=
  writes_modify fun _ => rfl

theorem writes_putDeployment {d : Deployment} : Keeps (writes S) (putDeployment d) :=
  writes_modify fun _ => rfl

theorem writes_modifyProfiles {f : Profiles → Profiles}
    (hholders : .holders ∈ S ∨ ∀ p, (f p).userSharesIndex = p.userSharesIndex)
    (hsnapshots : .snapshots ∈ S ∨ ∀ p, (f p).depositSnapshot = p.depositSnapshot) :
    Keeps (writes S) (modifyProfiles f) := by
  refine .modify fun _ w p hp => ?_
  cases p with
  | holders =>
    rcases hholders with h | h
    · exact absurd h hp
    · exact h w.profiles
  | snapshots =>
    rcases hsnapshots with h | h
    · exact absurd h hp
    · exact h w.profiles
  | _ => rfl

theorem writes_addToUserIndex (h : .holders ∈ S) : Keeps (writes S) (addToUserIndex user) := by
  refine writes_modifyProfiles (.inl h) (.inr fun p => ?_)
  split_ifs
  · rfl
  · rfl

theorem writes_publish {e : Event} : Keeps (writes S) (publish e) :=
  writes_modify fun _ => rfl

theorem writes_modifyRoles {f : Roles → Roles} (h : .roles ∈ S) :
    Keeps (writes S) (modifyRoles f) := by
  refine .modify fun _ w p hp => ?_
  cases p with
  | roles => exact absurd h hp
  | _ => rfl

theorem writes_modifyLimits {f : Limits → Limits} (h : .limits ∈ S)
    (hlast : ∀ l, (f l).lastRebalanceLedger = l.lastRebalanceLedger) :
    Keeps (writes S) (modifyLimits f) := by
  refine .modify fun _ w p hp => ?_
  cases p with
  | limits => exact absurd h hp
  | lastRebalance => exact hlast _
  | _ => rfl

theorem writes_modifyBreaker {f : Breaker → Breaker} (h : .breaker ∈ S) :
    Keeps (writes S) (modifyBreaker f) := by
  refine .modify fun _ w p hp => ?_
  cases p with
  | breaker => exact absurd h hp
  | _ => rfl

theorem writes_modifyMigration {f : Migration → Migration} (h : .migration ∈ S) :
    Keeps (writes S) (modifyMigration f) := by
  refine .modify fun _ w p hp => ?_
  cases p with
  | migration => exact absurd h hp
  | _ => rfl

theorem writes_modifyReports {f : Reports → Reports} (h : .reports ∈ S) :
    Keeps (writes S) (modifyReports f) := by
  refine .modify fun _ w p hp => ?_
  cases p with
  | reports => exact absurd h hp
  | _ => rfl

/-- The shared rebalance bucket is one of many. -/
theorem writes_setBucket {u : Option Address} {c : RateLimitCategory}
    {state : World → Option RateLimitState}
    (h : .rebalanceBucket ∈ S ∨ u ≠ none ∨ c ≠ .rebalance) :
    Keeps (writes S)
      (modify fun w => { w with buckets := w.buckets.set u c (state w) } : Contract PUnit) := by
  refine .modify fun _ w p hp => ?_
  cases p with
  | rebalanceBucket =>
    have hother : ¬ (none = u ∧ RateLimitCategory.rebalance = c) := by
      rintro ⟨rfl, rfl⟩
      rcases h with h | h | h
      · exact hp h
      · exact h rfl
      · exact h rfl
    exact if_neg hother
  | _ => rfl

theorem writes_enforceRateLimit {c : RateLimitCategory} {u : Option Address}
    (h : .rebalanceBucket ∈ S ∨ u ≠ none ∨ c ≠ .rebalance) :
    Keeps (writes S) (enforceRateLimit c u) :=
  .bind (.bind .require fun _ => .bind .get fun _ => .pure _) fun _ => .bind .get fun _ =>
    .ite (.pure _) (.bind .require fun _ => writes_setBucket h)

theorem writes_enforceUserRateLimit {c : RateLimitCategory} :
    Keeps (writes S) (enforceUserRateLimit user c) :=
  writes_enforceRateLimit (.inr (.inl (Option.some_ne_none user)))

theorem writes_transfer {token sender recipient : Address} {amount : Int} :
    Keeps (writes S) (transfer token sender recipient amount) :=
  .bind .get fun _ => .bind .require fun _ => .bind
    (writes_modify fun _ => rfl) fun _ => writes_publish

theorem writes_approve {token spender : Address} {amount : Int} {n : Nat} :
    Keeps (writes S) (approve token spender amount n) :=
  .bind .get fun _ => .bind .require fun _ => .bind
    (writes_modify fun _ => rfl) fun _ => writes_publish

theorem writes_callPool {kind : LegKind} {pool token : Address} {amount : Int} :
    Keeps (writes S) (callPool kind venue pool token amount minOut) :=
  .bind .read fun _ => .bind .get fun _ => .bind .expect fun _ => .bind .require fun _ =>
    writes_modify fun _ => rfl

theorem writes_invokeTargetDeposit {target : Address} {amount : Int} :
    Keeps (writes S) (invokeTargetDeposit target user amount) :=
  .bind .read fun _ => .bind .get fun _ => .bind .require fun _ => .bind .expect fun _ =>
    writes_modify fun _ => rfl

/-- Reading the vault's own balance, the stored token and the stored owner. -/
theorem writes_vaultBalance {token : Address} : Keeps (writes S) (vaultBalance token) :=
  .bind .get fun _ => .pure _

theorem writes_getUsdcToken : Keeps (writes S) getUsdcToken := .bind .get fun _ => .expect

theorem writes_getOwnerInternal : Keeps (writes S) getOwnerInternal := .bind .get fun _ => .expect

theorem writes_getAgentInternal : Keeps (writes S) getAgentInternal := .bind .get fun _ => .expect

/-! ## Guards -/

/-- The owner's guard at the head of most setters. -/
theorem writes_ownerGuarded {α : Type} {x : Contract α} (hx : Keeps (writes S) x) :
    Keeps (writes S) (do requireInitialized; requireIsOwner; x) :=
  .bind (.of_unchanged unchanged_requireInitialized) fun _ =>
    .bind (.of_unchanged unchanged_requireIsOwner) fun _ => hx

/-- The guard of the calls that take the owner as an argument. -/
theorem writes_ownerArgGuarded {α : Type} {owner : Address} {e : VaultError} {x : Contract α}
    (hx : Keeps (writes S) x) :
    Keeps (writes S) (do requireInitialized; requireOwnerArg owner e; x) :=
  .bind (.of_unchanged unchanged_requireInitialized) fun _ =>
    .bind (.of_unchanged unchanged_requireOwnerArg) fun _ => hx

/-- The agent's guard. -/
theorem writes_agentGuarded {α : Type} {x : Contract α} (hx : Keeps (writes S) x) :
    Keeps (writes S) (do requireInitialized; requireIsAgent; x) :=
  .bind (.of_unchanged unchanged_requireInitialized) fun _ =>
    .bind (.of_unchanged unchanged_requireIsAgent) fun _ => hx

/-- The guard of the agent's calls that move funds. -/
theorem writes_liveAgentGuarded {α : Type} {x : Contract α} (hx : Keeps (writes S) x) :
    Keeps (writes S) (do requireInitialized; requireNotPaused; requireIsAgent; x) :=
  .bind (.of_unchanged unchanged_requireInitialized) fun _ =>
    .bind (.of_unchanged unchanged_requireNotPaused) fun _ =>
    .bind (.of_unchanged unchanged_requireIsAgent) fun _ => hx

/-- The guard of the users' calls. -/
theorem writes_userGuarded {α : Type} {x : Contract α} (hx : Keeps (writes S) x) :
    Keeps (writes S) (do requireInitialized; requireAuth user; x) :=
  .bind (.of_unchanged unchanged_requireInitialized) fun _ =>
    .bind (.of_unchanged unchanged_requireAuth) fun _ => hx

theorem writes_liveUserGuarded {α : Type} {x : Contract α} (hx : Keeps (writes S) x) :
    Keeps (writes S) (do requireInitialized; requireAuth user; requireNotPaused; x) :=
  writes_userGuarded (.bind (.of_unchanged unchanged_requireNotPaused) fun _ => hx)

/-! ## Pools -/

theorem writes_setCurrentProtocol {p : Protocol} : Keeps (writes S) (setCurrentProtocol p) :=
  .bind .get fun _ => .ite (.pure _) (.bind writes_putDeployment fun _ => writes_publish)

theorem writes_syncDeployedSplit : Keeps (writes S) syncDeployedSplit :=
  .bind (.of_unchanged unchanged_getVenueBalance) fun _ =>
    .bind (.of_unchanged unchanged_getVenueBalance) fun _ => .bind .get fun _ =>
    .bind writes_putDeployment fun _ => .pure _

theorem writes_supplyToVenue {amount : Int} :
    Keeps (writes S) (supplyToVenue venue amount minOut) :=
  .ite (.pure _) <| .bind (.bind .get fun _ => .expect) fun _ => .bind writes_getUsdcToken fun _ =>
    .bind (.bind .get fun _ => .pure _) fun _ => .bind (.bind .get fun _ => .pure _) fun _ =>
    .bind writes_approve fun _ => .bind writes_vaultBalance fun _ => .bind writes_callPool fun _ =>
    .bind writes_vaultBalance fun _ => .bind .require fun _ =>
    .bind (.onlyIf writes_setCurrentProtocol) fun _ => .bind writes_publish fun _ => .pure _

theorem writes_withdrawFromVenue {amount : Int} :
    Keeps (writes S) (withdrawFromVenue venue amount minOut) :=
  .bind (.bind .get fun _ => .expect) fun _ => .bind writes_getUsdcToken fun _ =>
    .bind (.ite (.bind .get fun _ => .pure _) (.pure _)) fun _ => .ite (.pure _) <|
    .bind writes_vaultBalance fun _ => .bind writes_callPool fun _ =>
    .bind writes_vaultBalance fun _ => .bind .require fun _ =>
    .bind (.onlyIf (.bind (.bind .get fun _ => .pure _) fun _ =>
      .onlyIf writes_setCurrentProtocol)) fun _ =>
    .bind writes_publish fun _ => .pure _

theorem writes_withdrawProportionally {needed : Int} :
    Keeps (writes S) (withdrawProportionally needed minOut) :=
  .ite (.pure _) <| .bind (.of_unchanged unchanged_getVenueBalance) fun _ =>
    .bind (.of_unchanged unchanged_getVenueBalance) fun _ => .ite (.pure _) <|
    .bind .expect fun _ => .bind .expect fun _ => .bind .expect fun _ =>
    .bind (.ite writes_withdrawFromVenue (.pure _)) fun _ =>
    .bind (.ite writes_withdrawFromVenue (.pure _)) fun _ =>
    .bind writes_syncDeployedSplit fun _ => .bind writes_setCurrentProtocol fun _ => .pure _

theorem writes_withdrawFromProtocol {p : Protocol} :
    Keeps (writes S) (withdrawFromProtocol p minOut) := by
  refine .bind .get fun w => .ite ?_ (.pure _)
  cases p with
  | blend => exact writes_withdrawFromVenue
  | dex => exact writes_withdrawFromVenue
  | multi =>
    exact .bind writes_withdrawFromVenue fun _ => .bind writes_withdrawFromVenue fun _ =>
      .bind writes_syncDeployedSplit fun _ => .bind writes_setCurrentProtocol fun _ => .pure _
  | none => exact .pure _
  | other => exact .pure _

theorem writes_withdrawAmountFromProtocol {p : Protocol} {amount : Int} :
    Keeps (writes S) (withdrawAmountFromProtocol p amount minOut) := by
  cases p with
  | blend => exact writes_withdrawFromVenue
  | dex => exact writes_withdrawFromVenue
  | multi => exact writes_withdrawProportionally
  | none => exact .pure _
  | other => exact .pure _

/-! ## Deposits -/

theorem writes_book {f : World → Book} : Keeps (writes S) (do let w ← get; putBook (f w)) :=
  .bind .get fun _ => writes_putBook

theorem writes_recordDepositLedger : Keeps (writes S) (recordDepositLedger user) :=
  .bind .get fun _ => writes_putHolding

theorem writes_setDefaultStrategy : Keeps (writes S) (setDefaultStrategy user) :=
  .bind .get fun _ => .ite
    (.bind (writes_modifyProfiles (.inr fun _ => rfl) (.inr fun _ => rfl)) fun _ => writes_publish)
    (.pure _)

theorem writes_recordFirstDeposit {x y : Int} (hholders : .holders ∈ S)
    (hsnapshots : .snapshots ∈ S) : Keeps (writes S) (recordFirstDeposit user x y) :=
  .bind (writes_addToUserIndex hholders) fun _ => .bind .get fun _ =>
    .bind (writes_modifyProfiles (.inr fun _ => rfl) (.inl hsnapshots)) fun _ =>
    writes_setDefaultStrategy

theorem writes_creditDeposit {amount : Int} (hholders : .holders ∈ S)
    (hsnapshots : .snapshots ∈ S) :
    Keeps (writes S) (creditDeposit user amount) :=
  .bind .get fun _ => .bind .expect fun _ => .bind writes_book fun _ =>
    .bind (.of_unchanged (unchanged_convertToSharesInternal _)) fun _ => .bind .require fun _ =>
    .bind (.bind .get fun _ => .pure _) fun _ => .bind .expect fun _ => .bind writes_book fun _ =>
    .bind (.onlyIf (writes_recordFirstDeposit hholders hsnapshots)) fun _ =>
    .bind (.bind .get fun _ => .pure _) fun _ => .bind .expect fun _ => .bind writes_book fun _ =>
    .bind (.bind .get fun _ => .pure _) fun _ => .bind .expect fun _ => .bind writes_book fun _ =>
    .bind writes_recordDepositLedger fun _ => writes_publish

theorem writes_deposit {amount : Int} (hholders : .holders ∈ S) (hsnapshots : .snapshots ∈ S) :
    Keeps (writes S) (deposit user amount) :=
  writes_liveUserGuarded <| .bind .require fun _ => .bind (.bind .get fun _ => .require) fun _ =>
    .bind (.bind .get fun _ => .require) fun _ =>
    .bind (.of_unchanged unchanged_requireWithinDepositCap) fun _ =>
    .bind (.of_unchanged unchanged_requireWithinTvlCap) fun _ =>
    .bind writes_enforceUserRateLimit fun _ => .bind writes_getUsdcToken fun _ =>
    .bind .get fun _ => .bind writes_transfer fun _ =>
    writes_creditDeposit hholders hsnapshots

theorem writes_creditBatchItem {item : BatchDepositItem} {shares : Int} (h : .holders ∈ S) :
    Keeps (writes S) (creditBatchItem item shares) :=
  .bind (.bind .get fun _ => .pure _) fun _ => .bind .expect fun _ => .bind writes_book fun _ =>
    .bind (.onlyIf (.bind (writes_addToUserIndex h) fun _ => writes_setDefaultStrategy)) fun _ =>
    .bind .get fun _ => .bind .expect fun _ => .bind writes_book fun _ =>
    .bind (.bind .get fun _ => .pure _) fun _ => .bind .expect fun _ => .bind writes_book fun _ =>
    .bind (.bind .get fun _ => .pure _) fun _ => .bind .expect fun _ => .bind writes_book fun _ =>
    .bind writes_recordDepositLedger fun _ => writes_publish

theorem writes_depositBatchItem {agent : Address} {item : BatchDepositItem}
    (h : .holders ∈ S) : Keeps (writes S) (depositBatchItem agent item) :=
  .bind (.of_unchanged fun _ _ _ _ h => (batchItemValid_ok h).2) fun _ => .onlyIf <|
    .bind writes_getUsdcToken fun _ => .bind .get fun _ => .bind writes_transfer fun _ =>
    .bind (.of_unchanged (unchanged_convertToSharesInternal _)) fun _ =>
    .ite writes_transfer (writes_creditBatchItem h)

theorem writes_batchDeposit {agent : Address} {entries : List BatchDepositItem}
    (h : .holders ∈ S) : Keeps (writes S) (batchDeposit agent entries) :=
  writes_liveUserGuarded <| .bind (.of_unchanged unchanged_requireIsAgent) fun _ =>
    .bind (.bind .get fun _ => .require) fun _ => .bind writes_enforceUserRateLimit fun _ =>
    .bind writes_getUsdcToken fun _ => .bind (.of_unchanged unchanged_tallyBatch) fun _ =>
    .bind (.onlyIf (.of_unchanged unchanged_requireWithinTvlCap)) fun _ =>
    .bind (.each (fun _ => writes_depositBatchItem h) entries) fun _ => writes_publish

/-! ## Withdrawals -/

theorem writes_pullMissing {p : Protocol} {token : Address} {amount balance : Int} :
    Keeps (writes S) (pullMissing p token amount balance) :=
  .bind .expect fun _ => .bind writes_withdrawAmountFromProtocol fun _ => writes_vaultBalance

theorem writes_availableForWithdraw {token : Address} {amount : Int} :
    Keeps (writes S) (availableForWithdraw token amount) :=
  .bind .get fun _ => .ite (.bind writes_vaultBalance fun _ =>
    .ite (.bind writes_pullMissing fun _ => .pure _) (.pure _)) (.pure _)

theorem writes_redeem {token : Address} {amount : Int} :
    Keeps (writes S) (redeem user token amount) :=
  .bind .get fun _ => .bind .require fun _ => .bind (.bind .get fun _ => .pure _) fun _ =>
    .bind (.bind .get fun _ => .pure _) fun _ => .bind .require fun _ =>
    .bind (.of_unchanged (unchanged_convertToSharesInternalCeil _)) fun _ =>
    .bind .require fun _ => .bind .require fun _ =>
    .bind (.of_unchanged unchanged_convertToAssetsInternal) fun _ => .bind .expect fun _ =>
    .bind writes_book fun _ => .bind .expect fun _ => .bind writes_book fun _ =>
    .bind .expect fun _ => .bind writes_book fun _ => .bind writes_book fun _ =>
    .bind writes_transfer fun _ => .pure _

theorem writes_requireHoldingPeriodElapsed :
    Keeps (writes S) (requireHoldingPeriodElapsed user) :=
  .of_unchanged fun _ _ _ _ h => (requireHoldingPeriodElapsed_ok h).2

theorem writes_requireWithinUnlocked {amount : Int} :
    Keeps (writes S) (requireWithinUnlocked user amount) :=
  .of_unchanged fun _ _ _ _ h => (requireWithinUnlocked_ok h).2

theorem writes_withdraw {amount : Int} : Keeps (writes S) (withdraw user amount) :=
  writes_liveUserGuarded <| .bind .require fun _ => .bind writes_enforceUserRateLimit fun _ =>
    .bind writes_requireHoldingPeriodElapsed fun _ => .bind writes_requireWithinUnlocked fun _ =>
    .bind writes_getUsdcToken fun _ => .bind writes_availableForWithdraw fun _ =>
    .bind .require fun _ => .bind writes_redeem fun _ => writes_publish

theorem writes_settleWithdrawAll {token : Address} {entitled s : Int} :
    Keeps (writes S) (settleWithdrawAll token entitled s) :=
  .bind .get fun _ => .ite (.bind writes_vaultBalance fun _ =>
    .ite (.bind writes_pullMissing fun _ => .ite (.bind .require fun _ =>
      .bind (.of_unchanged (unchanged_convertToSharesInternalCeil _)) fun _ => .pure _)
      (.pure _)) (.pure _)) (.pure _)

theorem writes_payOut {token : Address} {s TS TA x b : Int} :
    Keeps (writes S) (payOut user token s TS TA x b) :=
  .bind .expect fun _ => .bind writes_book fun _ => .bind .expect fun _ =>
    .bind writes_book fun _ => .bind .expect fun _ => .bind writes_book fun _ =>
    .bind writes_book fun _ => .bind .get fun _ => writes_transfer

theorem writes_withdrawAll : Keeps (writes S) (withdrawAll user) :=
  writes_liveUserGuarded <| .bind writes_enforceUserRateLimit fun _ => .bind .get fun _ =>
    .bind (.of_unchanged fun _ _ _ _ h => (sharesToWithdrawAll_ok h).2) fun _ =>
    .bind writes_getUsdcToken fun _ => .bind .require fun _ =>
    .bind (.bind .get fun _ => .pure _) fun _ => .bind (.bind .get fun _ => .pure _) fun _ =>
    .bind .require fun _ => .bind (.of_unchanged unchanged_convertToAssetsInternal) fun _ =>
    .bind writes_settleWithdrawAll fun _ => .bind .require fun _ => .bind .require fun _ =>
    .bind writes_payOut fun _ => .bind writes_publish fun _ => .pure _

theorem writes_availableForEmergency {token : Address} {amount : Int} :
    Keeps (writes S) (availableForEmergency token amount) :=
  .bind .get fun _ => .bind writes_vaultBalance fun _ =>
    .ite (.ite (.bind writes_pullMissing fun _ => .pure _) (.pure _)) (.pure _)

theorem writes_emergencyWithdraw {amount : Int} :
    Keeps (writes S) (emergencyWithdraw user amount) :=
  writes_userGuarded <| .bind .get fun _ => .bind .require fun _ => .bind .require fun _ =>
    .bind writes_getUsdcToken fun _ => .bind writes_availableForEmergency fun _ =>
    .bind .require fun _ => .bind writes_redeem fun _ => writes_publish

/-! ## Assets, migration and locks -/

section Assets

variable {asset : Symbol} {amount : Int}

theorem writes_assets {f : World → AssetPools} :
    Keeps (writes S) (do let w ← get; putAssets (f w)) :=
  .bind .get fun _ => writes_putAssets

theorem writes_readAssetTotals : Keeps (writes S) (readAssetTotals asset) :=
  .bind .get fun _ => .pure _

theorem writes_getAssetConfigOr {message : String} :
    Keeps (writes S) (getAssetConfigOr asset message) :=
  .bind .get fun _ => .expect

theorem writes_depositAsset : Keeps (writes S) (depositAsset user asset amount) :=
  writes_liveUserGuarded <| .bind .require fun _ => .bind writes_enforceUserRateLimit fun _ =>
    .bind writes_getAssetConfigOr fun _ => .bind writes_readAssetTotals fun _ =>
    .bind (.of_unchanged unchanged_requireAssetLimits) fun _ =>
    .bind (.of_unchanged fun _ _ _ _ h => (ok_convertToAssetSharesInternal h).2) fun _ =>
    .bind .require fun _ => .bind .get fun _ => .bind writes_transfer fun _ =>
    .bind .expect fun _ => .bind .expect fun _ => .bind .expect fun _ => .bind .expect fun _ =>
    .bind writes_assets fun _ => .bind writes_assets fun _ => .bind writes_book fun _ =>
    writes_publish

theorem writes_availableForAsset {token : Address} :
    Keeps (writes S) (availableForAsset token amount) :=
  .bind .get fun _ => .ite (.bind writes_vaultBalance fun _ => .ite (.bind .expect fun _ =>
    .bind writes_withdrawAmountFromProtocol fun _ => .bind writes_vaultBalance fun _ => .pure _)
    (.pure _)) (.pure _)

theorem writes_withdrawAsset : Keeps (writes S) (withdrawAsset user asset amount) :=
  writes_liveUserGuarded <| .bind .require fun _ => .bind writes_enforceUserRateLimit fun _ =>
    .bind writes_getAssetConfigOr fun _ => .bind .get fun _ => .bind .require fun _ =>
    .bind writes_readAssetTotals fun _ => .bind .require fun _ =>
    .bind (.of_unchanged fun _ _ _ _ h => (ok_convertToAssetSharesInternalCeil h).2) fun _ =>
    .bind .require fun _ => .bind .require fun _ =>
    .bind (.of_unchanged fun _ _ _ _ h => (ok_convertToAssetAssetsInternal h).2) fun _ =>
    .bind writes_availableForAsset fun _ => .bind .require fun _ =>
    .bind (.of_unchanged fun _ _ _ _ h => (ok_convertToAssetSharesInternalCeil h).2) fun _ =>
    .bind (.bind .expect fun _ => .bind writes_assets fun _ => .bind .expect fun _ =>
      .bind .expect fun _ => .bind writes_assets fun _ => writes_book) fun _ =>
    .bind writes_transfer fun _ => writes_publish

theorem writes_addSupportedAsset {token : Address} {x y z : Int} :
    Keeps (writes S) (addSupportedAsset asset token x y z) :=
  writes_ownerGuarded <| .bind .get fun _ => .bind .require fun _ =>
    .bind (.of_unchanged unchanged_requireValidAssetLimits) fun _ =>
    .bind writes_putAssets fun _ => .bind writes_getOwnerInternal fun _ => writes_publish

theorem writes_updateAssetLimits {x y z : Int} :
    Keeps (writes S) (updateAssetLimits asset x y z) :=
  writes_ownerGuarded <| .bind (.of_unchanged unchanged_requireValidAssetLimits) fun _ =>
    .bind writes_getAssetConfigOr fun _ => writes_assets

theorem writes_removeSupportedAsset : Keeps (writes S) (removeSupportedAsset asset) :=
  writes_ownerGuarded <| .bind writes_readAssetTotals fun _ => .bind .require fun _ =>
    .bind .get fun _ => .bind writes_putAssets fun _ => .bind writes_getOwnerInternal fun _ =>
    writes_publish

end Assets

theorem writes_migrateShares : Keeps (writes S) (migrateShares user) :=
  writes_userGuarded <| .bind .get fun _ => .bind .require fun _ => .bind .expect fun _ =>
    .bind .require fun _ => .bind (.bind .get fun _ => .pure _) fun _ =>
    .bind (.bind .get fun _ => .pure _) fun _ =>
    .bind (.of_unchanged unchanged_convertToAssetsInternal) fun _ => .bind writes_book fun _ =>
    .bind .expect fun _ => .bind writes_book fun _ => .bind .expect fun _ =>
    .bind writes_book fun _ => .bind writes_getUsdcToken fun _ => .bind writes_transfer fun _ =>
    .bind writes_invokeTargetDeposit fun _ => writes_publish

theorem writes_lockShares {shares : Int} {days : Nat} :
    Keeps (writes S) (lockShares user shares days) :=
  writes_userGuarded <| .bind .get fun _ => .bind .require fun _ => .bind .expect fun _ =>
    .bind .expect fun _ => .bind .require fun _ => .bind (.bind .require fun _ => .pure _) fun _ =>
    .bind writes_putLocks fun _ => writes_publish

theorem writes_unlockShares : Keeps (writes S) (unlockShares user) :=
  writes_userGuarded <| .bind .get fun _ => .bind .require fun _ => .bind .expect fun _ =>
    .bind .require fun _ => .bind writes_putLocks fun _ => writes_publish

/-! ## Rebalancing and harvesting -/

theorem writes_recordRebalanceOutcome {status : Status} (h : .breaker ∈ S) :
    Keeps (writes S) (recordRebalanceOutcome status) := by
  refine .bind .get fun w => ?_
  cases status with
  | failed =>
    exact .bind (writes_modifyBreaker h) fun _ => .ite (.bind (writes_modifyBreaker h) fun _ =>
      .bind writes_getOwnerInternal fun _ => writes_publish) (.pure _)
  | success => exact writes_modifyBreaker h
  | noop => exact .pure _
  | partially => exact .pure _

theorem writes_recordRebalanceLedger (h : .lastRebalance ∈ S) :
    Keeps (writes S) recordRebalanceLedger := by
  refine .bind .get fun w => .modify fun _ w p hp => ?_
  cases p with
  | lastRebalance => exact absurd h hp
  | _ => rfl

theorem writes_finishRebalance {p : Protocol} {apy : Int} {s : Status} {a : RebalanceAmounts}
    (hb : .breaker ∈ S) (hl : .lastRebalance ∈ S) : Keeps (writes S) (finishRebalance p apy s a) :=
  .bind writes_publish fun _ => .bind (writes_recordRebalanceOutcome hb) fun _ =>
    .bind (writes_recordRebalanceLedger hl) fun _ => .bind writes_syncDeployedSplit fun _ =>
    .pure _

theorem writes_exitProtocol {p : Protocol} {a : RebalanceAmounts} :
    Keeps (writes S) (exitProtocol p minOut a) :=
  .bind (.of_unchanged unchanged_getProtocolBalance) fun _ =>
    .bind writes_withdrawFromProtocol fun _ => .ite
      (.bind (.of_unchanged unchanged_getProtocolBalance) fun _ =>
        .ite (.bind writes_publish fun _ => .pure _) (.pure _))
      (.pure _)

theorem writes_supplyIdle {a : RebalanceAmounts} : Keeps (writes S) (supplyIdle venue minOut a) :=
  .bind (.bind .get fun _ => .expect) fun _ => .bind writes_getUsdcToken fun _ =>
    .bind writes_vaultBalance fun _ => .ite (.bind writes_supplyToVenue fun _ => .pure _)
      (.ite (.bind writes_setCurrentProtocol fun _ => .pure _) (.pure _))

theorem writes_enterProtocol {p current : Protocol} {apy : Int} {a : RebalanceAmounts}
    (hb : .breaker ∈ S) (hl : .lastRebalance ∈ S) :
    Keeps (writes S) (enterProtocol p current apy minOut a) := by
  have hnone : Keeps (writes S) (rebalanceToNone current apy minOut a) := by
    refine .ite (.bind writes_exitProtocol fun exited => ?_) (writes_finishRebalance hb hl)
    cases exited with
    | none => exact .pure _
    | some a' => exact .bind writes_setCurrentProtocol fun _ => writes_finishRebalance hb hl
  have hvenue : ∀ venue, Keeps (writes S) (rebalanceToVenue venue apy minOut a) := fun _ =>
    .bind writes_supplyIdle fun _ => writes_finishRebalance hb hl
  cases p with
  | blend => exact hvenue .blend
  | dex => exact hvenue .dex
  | none => exact hnone
  | multi => exact hnone
  | other => exact hnone

theorem writes_rebalance {p : Protocol} {apy : Int} (hb : .breaker ∈ S) (hl : .lastRebalance ∈ S)
    (hr : .rebalanceBucket ∈ S) : Keeps (writes S) (rebalance p apy minOut) := by
  refine writes_liveAgentGuarded <| .bind .require fun _ =>
    .bind (.of_unchanged unchanged_requireCooldownElapsed) fun _ => .bind .require fun _ =>
    .bind .require fun _ => .bind (writes_enforceRateLimit (.inl hr)) fun _ => .bind .get fun w =>
    .ite (.bind writes_exitProtocol fun exited => ?_) (writes_enterProtocol hb hl)
  cases exited with
  | none => exact .pure _
  | some a => exact writes_enterProtocol hb hl

theorem writes_enableMultiProtocol {b : Bool} : Keeps (writes S) (enableMultiProtocol b) :=
  writes_ownerGuarded <| .bind writes_syncDeployedSplit fun _ => .bind .get fun _ =>
    .bind (.of_unchanged unchanged_initialAllocation) fun _ =>
    .bind (.bind .get fun _ => writes_putDeployment) fun _ =>
    .bind (.bind .get fun _ => writes_putDeployment) fun _ =>
    .bind writes_setCurrentProtocol fun _ => writes_publish

theorem writes_trimVenue {balance target : Int} :
    Keeps (writes S) (trimVenue venue balance target minOut) :=
  .ite (.bind .expect fun _ => .bind writes_withdrawFromVenue fun _ => .pure _) (.pure _)

theorem writes_topUpVenue {target available : Int} :
    Keeps (writes S) (topUpVenue venue target available minOut) :=
  .bind (.of_unchanged unchanged_getVenueBalance) fun _ => .ite
    (.bind .expect fun _ => .ite (.bind writes_supplyToVenue fun _ => .pure _) (.pure _))
    (.pure _)

theorem writes_multiLegs {x y : Nat} : Keeps (writes S) (multiLegs x y minOut) :=
  .bind writes_getUsdcToken fun _ => .bind writes_vaultBalance fun _ =>
    .bind (.of_unchanged unchanged_getVenueBalance) fun _ =>
    .bind (.of_unchanged unchanged_getVenueBalance) fun _ =>
    .bind (.of_unchanged unchanged_splitByBps) fun _ => .bind writes_trimVenue fun _ =>
    .bind writes_trimVenue fun _ => .bind writes_vaultBalance fun _ =>
    .bind writes_topUpVenue fun _ => .bind writes_topUpVenue fun _ => .pure _

theorem writes_multiRecord {x y : Nat} {old : World} {l : MultiLegs} (hb : .breaker ∈ S)
    (hl : .lastRebalance ∈ S) : Keeps (writes S) (multiRecord x y old l) :=
  .bind (.bind .get fun _ => writes_putDeployment) fun _ =>
    .bind writes_syncDeployedSplit fun _ => .bind writes_setCurrentProtocol fun _ =>
    .bind writes_publish fun _ => .bind .get fun _ => .bind writes_publish fun _ =>
    .bind (writes_recordRebalanceOutcome hb) fun _ => writes_recordRebalanceLedger hl

theorem writes_rebalanceMulti {x y : Nat} (hb : .breaker ∈ S) (hl : .lastRebalance ∈ S) :
    Keeps (writes S) (rebalanceMulti x y minOut) := by
  rw [rebalanceMulti_eq]
  exact .bind (.of_unchanged unchanged_multiChecks) fun _ => .bind writes_multiLegs fun _ =>
    writes_multiRecord hb hl

theorem writes_resupply {p : Protocol} {x : Int} : Keeps (writes S) (resupply p x minOut) := by
  refine .ite ?_ (.pure _)
  cases p with
  | blend => exact .bind writes_supplyToVenue fun _ => .pure _
  | dex => exact .bind writes_supplyToVenue fun _ => .pure _
  | none => exact .pure _
  | multi => exact .pure _
  | other => exact .pure _

theorem writes_harvestRoundTrip {event : Protocol → Int → Event} (hl : .lastRebalance ∈ S)
    (hr : .rebalanceBucket ∈ S) : Keeps (writes S) (harvestRoundTrip minOut event) :=
  .bind .require fun _ => .bind (.of_unchanged unchanged_requireCooldownElapsed) fun _ =>
    .bind .get fun _ => .bind .require fun _ =>
    .bind (writes_enforceRateLimit (.inl hr)) fun _ => .bind writes_withdrawFromProtocol fun _ =>
    .bind writes_resupply fun _ => .bind writes_publish fun _ => writes_recordRebalanceLedger hl

theorem writes_emergencyHarvest (hl : .lastRebalance ∈ S) (hr : .rebalanceBucket ∈ S) :
    Keeps (writes S) (emergencyHarvest minOut) :=
  .bind (.of_unchanged unchanged_requireInitialized) fun _ => .bind writes_getOwnerInternal fun _ =>
    .bind (.of_unchanged unchanged_requireOwnerArg) fun _ => writes_harvestRoundTrip hl hr

/-! ## Reports -/

theorem writes_addDeployed {total : Int} : Keeps (writes S) (addDeployed venue total) := by
  refine .bind .get fun w => .ite ?_ (.pure _)
  split
  · exact .bind (.bind .get fun _ => .pure _) fun _ => .expect
  · exact .pure _

theorem writes_updateTotalAssets {agent : Address} {new : Int} {allow : Bool} {bps : Nat} :
    Keeps (writes S) (updateTotalAssets agent new allow bps) :=
  .bind (.of_unchanged unchanged_requireInitialized) fun _ =>
    .bind (.bind writes_getAgentInternal fun _ => .bind .get fun _ => .bind .require fun _ =>
      .of_unchanged unchanged_requireAuth) fun _ =>
    .bind .get fun _ => .bind (.onlyIf (.bind .require fun _ =>
      .bind (.of_unchanged unchanged_requireIsOwner) fun _ =>
      .bind (.bind .expect fun _ => .expect) fun _ => .bind .expect fun _ => .require)) fun _ =>
    .bind (.bind writes_getUsdcToken fun _ => .bind writes_vaultBalance fun _ =>
      .bind writes_addDeployed fun _ => writes_addDeployed) fun _ =>
    .bind .require fun _ => .bind writes_putBook fun _ => .bind (.onlyIf <| .bind .get fun w =>
      .ite (.pure _) (.each (fun _ => .bind (.bind .get fun _ => .pure _) fun _ =>
        .ite (.pure _) (.bind .expect fun _ => .bind .expect fun _ => .onlyIf writes_publish))
        w.profiles.userSharesIndex)) fun _ => writes_publish

theorem writes_setProtocolApy {p : Protocol} {n : Nat} (h : .reports ∈ S) :
    Keeps (writes S) (setProtocolApy p n) :=
  writes_agentGuarded <| .bind .require fun _ => .bind .expect fun _ =>
    .bind (writes_modifyReports h) fun _ => writes_publish

theorem writes_submitMevReport {p : Protocol} {x y : Int} (h : .reports ∈ S) :
    Keeps (writes S) (submitMevReport p x y) :=
  writes_agentGuarded <| .bind .require fun _ => .bind .get fun _ => .bind .expect fun _ =>
    .bind (writes_modifyReports h) fun _ => writes_publish

theorem writes_setMaxAcceptableMevLoss {x : Int} (h : .reports ∈ S) :
    Keeps (writes S) (setMaxAcceptableMevLoss x) :=
  writes_ownerGuarded <| .bind .require fun _ => writes_modifyReports h

theorem writes_submitApyPrediction {p : ApyPrediction} (h : .reports ∈ S) :
    Keeps (writes S) (submitApyPrediction p) :=
  writes_agentGuarded <| .bind .get fun _ => writes_modifyReports h

/-! ## Pausing -/

section Pausing

variable {owner : Address} (h : Part.breaker ∈ S)

include h

theorem writes_pause : Keeps (writes S) (pause owner) :=
  writes_ownerArgGuarded <| .bind (writes_modifyBreaker h) fun _ => writes_publish

theorem writes_unpause : Keeps (writes S) (unpause owner) :=
  writes_ownerArgGuarded <| .bind .get fun _ => .bind .require fun _ =>
    .bind (writes_modifyBreaker h) fun _ => writes_publish

theorem writes_emergencyPause : Keeps (writes S) (emergencyPause owner) :=
  writes_ownerArgGuarded <| .bind .get fun _ =>
    .ite (.pure _) (.bind (writes_modifyBreaker h) fun _ => writes_publish)

theorem writes_resetCircuitBreaker : Keeps (writes S) (resetCircuitBreaker owner) :=
  writes_ownerArgGuarded <| .bind (writes_modifyBreaker h) fun _ => writes_publish

theorem writes_setMaxConsecutiveFailures {n : Nat} :
    Keeps (writes S) (setMaxConsecutiveFailures n) :=
  writes_ownerGuarded <| .bind .require fun _ => .bind .get fun _ =>
    .bind (writes_modifyBreaker h) fun _ => writes_publish

end Pausing

/-! ## Limits -/

section Limits

variable (h : Part.limits ∈ S)

include h

/-- Limits that do not touch the ledger of the latest rebalance. -/
theorem writes_limits {f : Limits → Limits} {e : World → Event}
    (hlast : ∀ l, (f l).lastRebalanceLedger = l.lastRebalanceLedger) :
    Keeps (writes S) (do let w ← get; modifyLimits f; publish (e w)) :=
  .bind .get fun _ => .bind (writes_modifyLimits h hlast) fun _ => writes_publish

theorem writes_setTvlCap {cap : Int} : Keeps (writes S) (setTvlCap cap) :=
  writes_ownerGuarded <| .bind .require fun _ => writes_limits h fun _ => rfl

theorem writes_setUserDepositCap {cap : Int} : Keeps (writes S) (setUserDepositCap cap) :=
  writes_ownerGuarded <| .bind .require fun _ => writes_limits h fun _ => rfl

theorem writes_setCaps {userCap tvlCap : Int} : Keeps (writes S) (setCaps userCap tvlCap) :=
  writes_ownerGuarded <| .bind .require fun _ => .bind .require fun _ => .bind .require fun _ =>
    .bind .get fun _ => .bind (writes_modifyLimits h fun _ => rfl) fun _ =>
    .bind writes_publish fun _ => .bind writes_publish fun _ => writes_publish

theorem writes_setLimits {min max : Int} : Keeps (writes S) (setLimits min max) :=
  writes_ownerGuarded <| .bind .require fun _ => .bind .require fun _ => .bind .require fun _ =>
    writes_limits h fun _ => rfl

theorem writes_setDepositLimits {min max : Int} : Keeps (writes S) (setDepositLimits min max) :=
  writes_ownerGuarded <| .bind .require fun _ => .bind .require fun _ => .bind .require fun _ =>
    writes_limits h fun _ => rfl

theorem writes_setRebalanceCooldown {n : Nat} : Keeps (writes S) (setRebalanceCooldown n) :=
  writes_ownerGuarded <| writes_limits h fun _ => rfl

theorem writes_setMaxBatchSize {n : Nat} : Keeps (writes S) (setMaxBatchSize n) :=
  writes_ownerGuarded <| .bind .get fun _ => .bind (writes_modifyLimits h fun _ => rfl) fun _ =>
    .bind writes_getOwnerInternal fun _ => writes_publish

theorem writes_setApprovalTtl {n : Nat} : Keeps (writes S) (setApprovalTtl n) :=
  writes_ownerGuarded <| .bind .require fun _ => .bind .require fun _ =>
    .bind (.bind .get fun _ => .pure _) fun _ =>
    .bind (writes_modifyLimits h fun _ => rfl) fun _ => writes_publish

theorem writes_setBlendApprovalTtl {owner : Address} {n : Nat} :
    Keeps (writes S) (setBlendApprovalTtl owner n) :=
  writes_ownerArgGuarded <| .bind (.bind .get fun _ => .pure _) fun _ =>
    .bind (writes_modifyLimits h fun _ => rfl) fun _ => writes_publish

theorem writes_setRateLimit {c : RateLimitCategory} {m n : Nat}
    (hr : .rebalanceBucket ∈ S ∨ c ≠ .rebalance) : Keeps (writes S) (setRateLimit c m n) :=
  writes_ownerGuarded <| .bind .require fun _ => .bind .require fun _ =>
    .bind (.bind .require fun _ => .bind .get fun _ => .pure _) fun _ =>
    .bind (writes_modifyLimits h fun _ => rfl) fun _ =>
    .bind (.onlyIf (writes_setBucket (hr.imp id .inr))) fun _ =>
    .bind writes_getOwnerInternal fun _ => writes_publish

end Limits

/-! ## Migration flags and roles -/

theorem writes_setMigrationTarget {a : Address} (h : .migration ∈ S) :
    Keeps (writes S) (setMigrationTarget a) :=
  writes_ownerGuarded <| .bind .get fun _ => .bind (writes_modifyMigration h) fun _ =>
    .bind writes_getOwnerInternal fun _ => writes_publish

theorem writes_setMigrationPaused {b : Bool} (h : .migration ∈ S) :
    Keeps (writes S) (setMigrationPaused b) :=
  writes_ownerGuarded <| .bind (writes_modifyMigration h) fun _ =>
    .bind writes_getOwnerInternal fun _ => writes_publish

section Roles

variable (h : Part.roles ∈ S)

include h

theorem writes_updateAgent {a : Address} : Keeps (writes S) (updateAgent a) :=
  writes_ownerGuarded <| .bind .get fun _ => .bind .require fun _ =>
    .bind writes_getAgentInternal fun _ => .bind (writes_modifyRoles h) fun _ => writes_publish

theorem writes_confirmAgentUpdate : Keeps (writes S) confirmAgentUpdate :=
  writes_ownerGuarded <| .bind .get fun _ => .bind .expect fun _ => .bind .require fun _ =>
    .bind writes_getAgentInternal fun _ => .bind (writes_modifyRoles h) fun _ =>
    .bind writes_publish fun _ => writes_publish

theorem writes_cancelAgentUpdate : Keeps (writes S) cancelAgentUpdate :=
  writes_ownerGuarded <| .bind .get fun _ => .bind .expect fun _ =>
    .bind writes_getAgentInternal fun _ => .bind (writes_modifyRoles h) fun _ => writes_publish

theorem writes_updateStandbyAgent {a : Address} : Keeps (writes S) (updateStandbyAgent a) :=
  writes_ownerGuarded <| .bind writes_getAgentInternal fun _ => .bind .require fun _ =>
    .bind .get fun _ => .bind (writes_modifyRoles h) fun _ =>
    .bind writes_getOwnerInternal fun _ => writes_publish

theorem writes_switchToStandbyAgent : Keeps (writes S) switchToStandbyAgent :=
  writes_ownerGuarded <| .bind writes_getAgentInternal fun _ => .bind .get fun _ =>
    .bind .expect fun _ => .bind (writes_modifyRoles h) fun _ =>
    .bind writes_getOwnerInternal fun _ => writes_publish

theorem writes_changeGuardian {g : Option Address} : Keeps (writes S) (changeGuardian g) :=
  writes_ownerGuarded <| .bind .get fun _ => .bind (writes_modifyRoles h) fun _ =>
    .bind writes_getOwnerInternal fun _ => writes_publish

theorem writes_transferOwnership {a : Address} : Keeps (writes S) (transferOwnership a) :=
  writes_ownerGuarded <| .bind writes_getOwnerInternal fun _ =>
    .bind (writes_modifyRoles h) fun _ => writes_publish

theorem writes_acceptOwnership {a : Address} : Keeps (writes S) (acceptOwnership a) :=
  writes_userGuarded <| .bind .get fun _ => .bind .expect fun _ => .bind .require fun _ =>
    .bind writes_getOwnerInternal fun _ => .bind (writes_modifyRoles h) fun _ => writes_publish

theorem writes_cancelOwnershipTransfer : Keeps (writes S) cancelOwnershipTransfer :=
  writes_ownerGuarded <| .bind .get fun _ => .bind .expect fun _ =>
    .bind writes_getOwnerInternal fun _ => .bind (writes_modifyRoles h) fun _ => writes_publish

theorem writes_scheduleUpgrade {owner : Address} {n : Nat} :
    Keeps (writes S) (scheduleUpgrade owner n) :=
  writes_liveUserGuarded <| .bind writes_getOwnerInternal fun _ => .bind .require fun _ =>
    .bind .get fun _ => .bind .require fun _ => .bind .require fun _ =>
    .bind (writes_modifyRoles h) fun _ => writes_publish

theorem writes_executeUpgrade {owner : Address} : Keeps (writes S) (executeUpgrade owner) :=
  writes_liveUserGuarded <| .bind writes_getOwnerInternal fun _ => .bind .require fun _ =>
    .bind (.of_unchanged unchanged_requireGuardianAuth) fun _ => .bind .get fun _ =>
    .bind .expect fun _ => .bind .require fun _ => .bind (writes_modifyRoles h) fun _ =>
    .bind (.bind .read fun _ => .bind .require fun _ => writes_modifyRoles h) fun _ =>
    .bind .require fun _ => .bind (writes_modifyRoles h) fun _ => writes_publish

theorem writes_cancelUpgrade {owner : Address} : Keeps (writes S) (cancelUpgrade owner) :=
  writes_ownerArgGuarded <| .bind .get fun _ => .bind .expect fun _ =>
    .bind (writes_modifyRoles h) fun _ => writes_publish

end Roles

/-! ## The other calls -/

theorem writes_setVenuePool {owner pool : Address} : Keeps (writes S) (setVenuePool venue owner pool) :=
  writes_ownerArgGuarded <| .bind .get fun _ => .ite (.pure _) <| .bind writes_getUsdcToken fun _ =>
    .bind (.bind .get fun _ => .pure _) fun _ => .bind writes_putDeployment fun _ => writes_publish

theorem writes_setMinHoldingPeriod {n : Nat} : Keeps (writes S) (setMinHoldingPeriod n) :=
  writes_ownerGuarded <| .bind .get fun _ => writes_putHolding

theorem writes_setUserStrategy {s : Strategy} : Keeps (writes S) (setUserStrategy user s) :=
  writes_userGuarded <| .bind .require fun _ => .bind .get fun _ =>
    .bind (writes_modifyProfiles (.inr fun _ => rfl) (.inr fun _ => rfl)) fun _ => writes_publish

theorem writes_touchUserTtl : Keeps (writes S) (touchUserTtl user) :=
  .bind (.of_unchanged unchanged_requireInitialized) fun _ => writes_enforceUserRateLimit

theorem writes_batchTouchTtl {users : List Address} : Keeps (writes S) (batchTouchTtl users) :=
  .bind (.of_unchanged unchanged_requireInitialized) fun _ =>
    .bind (.bind .get fun _ => .require) fun _ =>
    .each (fun _ => writes_enforceUserRateLimit) users

theorem writes_preview {conversion : Int → Contract Int} {x : Int}
    (h : ∀ x, Keeps unchanged (conversion x)) :
    Keeps (writes S) (discard (preview conversion x)) :=
  .bind (.bind (.of_unchanged unchanged_requireInitialized) fun _ =>
    .bind (writes_enforceRateLimit (.inr (.inr (by decide)))) fun _ => .of_unchanged (h x))
    fun _ => .pure _

/-- The governing parts each entrypoint may write. -/
def Call.writes : Call → List Part
  | .initializeVault .. =>
    [.roles, .limits, .lastRebalance, .rebalanceBucket, .breaker, .migration, .reports, .holders,
      .snapshots]
  | .deposit .. => [.holders, .snapshots]
  | .batchDeposit .. => [.holders]
  | .rebalance .. => [.lastRebalance, .rebalanceBucket, .breaker]
  | .rebalanceMulti .. => [.lastRebalance, .breaker]
  | .harvest .. => [.lastRebalance, .rebalanceBucket]
  | .emergencyHarvest .. => [.lastRebalance, .rebalanceBucket]
  | .setProtocolApy .. => [.reports]
  | .submitMevReport .. => [.reports]
  | .setMaxAcceptableMevLoss .. => [.reports]
  | .submitApyPrediction .. => [.reports]
  | .pause .. => [.breaker]
  | .unpause .. => [.breaker]
  | .emergencyPause .. => [.breaker]
  | .resetCircuitBreaker .. => [.breaker]
  | .setMaxConsecutiveFailures .. => [.breaker]
  | .setMigrationTarget .. => [.migration]
  | .setMigrationPaused .. => [.migration]
  | .setTvlCap .. => [.limits]
  | .setUserDepositCap .. => [.limits]
  | .setCaps .. => [.limits]
  | .setLimits .. => [.limits]
  | .setDepositLimits .. => [.limits]
  | .setRebalanceCooldown .. => [.limits]
  | .setRateLimit category .. =>
    .limits :: if category = .rebalance then [.rebalanceBucket] else []
  | .setMaxBatchSize .. => [.limits]
  | .setApprovalTtl .. => [.limits]
  | .setBlendApprovalTtl .. => [.limits]
  | .updateAgent .. => [.roles]
  | .confirmAgentUpdate => [.roles]
  | .cancelAgentUpdate => [.roles]
  | .updateStandbyAgent .. => [.roles]
  | .switchToStandbyAgent => [.roles]
  | .setGuardian .. => [.roles]
  | .removeGuardian => [.roles]
  | .transferOwnership .. => [.roles]
  | .acceptOwnership .. => [.roles]
  | .cancelOwnershipTransfer => [.roles]
  | .scheduleUpgrade .. => [.roles]
  | .executeUpgrade .. => [.roles]
  | .cancelUpgrade .. => [.roles]
  | _ => []

/-- No entrypoint writes a governing part it does not list. -/
theorem writes_run (call : Call) : Keeps (Vault.writes call.writes) call.run := by
  cases call
  case initializeVault =>
    intro env w u w' _ p hp
    cases p <;> exact absurd (by simp [Call.writes]) hp
  case deposit => exact writes_deposit (.head _) (.tail _ (.head _))
  case batchDeposit => exact writes_batchDeposit (.head _)
  case withdraw => exact writes_withdraw
  case withdrawAll => exact .bind writes_withdrawAll fun _ => .pure _
  case depositAsset => exact writes_depositAsset
  case withdrawAsset => exact writes_withdrawAsset
  case migrateShares => exact writes_migrateShares
  case lockShares => exact writes_lockShares
  case unlockShares => exact writes_unlockShares
  case emergencyWithdraw => exact writes_emergencyWithdraw
  case rebalance => exact writes_rebalance (.tail _ (.tail _ (.head _))) (.head _) (.tail _ (.head _))
  case enableMultiProtocol => exact writes_enableMultiProtocol
  case rebalanceMulti => exact writes_rebalanceMulti (.tail _ (.head _)) (.head _)
  case harvest =>
    exact writes_liveAgentGuarded (writes_harvestRoundTrip (.head _) (.tail _ (.head _)))
  case emergencyHarvest => exact writes_emergencyHarvest (.head _) (.tail _ (.head _))
  case updateTotalAssets => exact writes_updateTotalAssets
  case setVenuePool => exact writes_setVenuePool
  case setProtocolApy => exact writes_setProtocolApy (.head _)
  case submitMevReport => exact writes_submitMevReport (.head _)
  case setMaxAcceptableMevLoss => exact writes_setMaxAcceptableMevLoss (.head _)
  case submitApyPrediction => exact writes_submitApyPrediction (.head _)
  case pause => exact writes_pause (.head _)
  case unpause => exact writes_unpause (.head _)
  case emergencyPause => exact writes_emergencyPause (.head _)
  case resetCircuitBreaker => exact writes_resetCircuitBreaker (.head _)
  case setMigrationTarget => exact writes_setMigrationTarget (.head _)
  case setMigrationPaused => exact writes_setMigrationPaused (.head _)
  case setTvlCap => exact writes_setTvlCap (.head _)
  case setUserDepositCap => exact writes_setUserDepositCap (.head _)
  case setCaps => exact writes_setCaps (.head _)
  case setLimits => exact writes_setLimits (.head _)
  case setDepositLimits => exact writes_setDepositLimits (.head _)
  case setRebalanceCooldown => exact writes_setRebalanceCooldown (.head _)
  case setRateLimit c _ _ =>
    refine writes_setRateLimit (.head _) ?_
    by_cases hc : c = .rebalance
    · exact .inl (by simp [hc])
    · exact .inr hc
  case setMaxBatchSize => exact writes_setMaxBatchSize (.head _)
  case setMinHoldingPeriod => exact writes_setMinHoldingPeriod
  case setMaxConsecutiveFailures => exact writes_setMaxConsecutiveFailures (.head _)
  case setApprovalTtl => exact writes_setApprovalTtl (.head _)
  case setBlendApprovalTtl => exact writes_setBlendApprovalTtl (.head _)
  case setUserStrategy => exact writes_setUserStrategy
  case touchUserTtl => exact writes_touchUserTtl
  case batchTouchTtl => exact writes_batchTouchTtl
  case previewDepositToShares => exact writes_preview unchanged_convertToSharesInternal
  case previewSharesToAssets => exact writes_preview fun _ => unchanged_convertToAssetsInternal
  case previewWithdraw => exact writes_preview unchanged_convertToSharesInternalCeil
  case convertToShares => exact writes_preview unchanged_convertToSharesInternal
  case convertToAssets => exact writes_preview fun _ => unchanged_convertToAssetsInternal
  case updateAgent => exact writes_updateAgent (.head _)
  case confirmAgentUpdate => exact writes_confirmAgentUpdate (.head _)
  case cancelAgentUpdate => exact writes_cancelAgentUpdate (.head _)
  case updateStandbyAgent => exact writes_updateStandbyAgent (.head _)
  case switchToStandbyAgent => exact writes_switchToStandbyAgent (.head _)
  case setGuardian => exact writes_changeGuardian (.head _)
  case removeGuardian => exact writes_changeGuardian (.head _)
  case addSupportedAsset => exact writes_addSupportedAsset
  case updateAssetLimits => exact writes_updateAssetLimits
  case removeSupportedAsset => exact writes_removeSupportedAsset
  case transferOwnership => exact writes_transferOwnership (.head _)
  case acceptOwnership => exact writes_acceptOwnership (.head _)
  case cancelOwnershipTransfer => exact writes_cancelOwnershipTransfer (.head _)
  case scheduleUpgrade => exact writes_scheduleUpgrade (.head _)
  case executeUpgrade => exact writes_executeUpgrade (.head _)
  case cancelUpgrade => exact writes_cancelUpgrade (.head _)

theorem same_of_invoke {p : Part} {call : Call} {u : Unit} (hp : p ∉ call.writes)
    (h : (invoke call).Ok env w u w') : p.Same w w' := by
  obtain ⟨_, t, hentered, hrun⟩ := Tx.ok_bind.mp h
  obtain rfl := Tx.ok_modify.mp hentered
  have hkept : p.Same w w.entered := .of_governing p rfl
  have hsame : p.Same w.entered w' := writes_run call hrun p hp
  exact hkept.trans hsame

end NeuroWealth.Vault
