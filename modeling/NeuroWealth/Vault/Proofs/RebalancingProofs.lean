import NeuroWealth.Vault.Rebalancing
import NeuroWealth.Vault.Proofs.VenuesProofs

/-!
# Rebalancing only moves funds

Every call of the agent that goes through the pools is a sequence of legs and settled code.
-/

namespace NeuroWealth.Vault

open Transaction MachineInt

variable {env : Env} {w w' : World} {venue : Venue} {minOut : Int} {blendBps dexBps : Nat}

/-! ## Bookkeeping of a rebalance -/

theorem quiet_recordRebalanceOutcome {s : Status} : Keeps quiet (recordRebalanceOutcome s) := by
  refine .bind .get fun w => ?_
  cases s with
  | failed =>
    exact .bind quiet_modifyBreaker fun _ => .ite (.bind quiet_modifyBreaker fun _ =>
      .bind (.bind .get fun _ => .expect) fun _ => quiet_publish rfl) (.pure _)
  | success => exact quiet_modifyBreaker
  | noop => exact .pure _
  | partially => exact .pure _

theorem quiet_recordRebalanceLedger : Keeps quiet recordRebalanceLedger :=
  .bind .get fun _ => quiet_modifyLimits

theorem settled_finishRebalance {p : Protocol} {apy : Int} {s : Status} {a : RebalanceAmounts} :
    Keeps settled (finishRebalance p apy s a) :=
  .bind (settled_publish rfl) fun _ =>
    .bind (settled_of_quiet quiet_recordRebalanceOutcome) fun _ =>
    .bind (settled_of_quiet quiet_recordRebalanceLedger) fun _ =>
    .bind settled_syncDeployedSplit fun _ => .pure _

/-! ## Single-venue rebalancing -/

theorem movesFunds_exitProtocol {p : Protocol} {a : RebalanceAmounts} :
    Keeps movesFunds (exitProtocol p minOut a) :=
  .bind (.of_unchanged unchanged_getProtocolBalance) fun _ =>
    .bind movesFunds_withdrawFromProtocol fun _ => .ite
      (.bind (.of_unchanged unchanged_getProtocolBalance) fun _ =>
        .ite (.bind (movesFunds_publish rfl) fun _ => .pure _) (.pure _))
      (.pure _)

/-- An exit is abandoned, and says so, if the protocol held funds before it and still does. -/
theorem exitProtocol_cases {p : Protocol} {a : RebalanceAmounts} {r : Option RebalanceAmounts}
    (h : (exitProtocol p minOut a).Ok env w r w') :
    ∃ t x, (withdrawFromProtocol p minOut).Ok env w x t ∧
      ((r.isSome ∧ w' = t ∧ ¬ (0 < w.protocolBalance p ∧ 0 < t.protocolBalance p)) ∨
        (r = none ∧ (0 < w.protocolBalance p ∧ 0 < t.protocolBalance p) ∧
          (publish (.rebalanceFailed p)).Ok env t () w')) := by
  obtain ⟨expected, t0, hexpected, h1⟩ := Tx.ok_bind.mp h
  obtain ⟨rfl, rfl⟩ := getProtocolBalance_ok hexpected
  obtain ⟨x, t, hexit, h2⟩ := Tx.ok_bind.mp h1
  refine ⟨t, x, hexit, ?_⟩
  rcases Tx.ok_ite.mp h2 with ⟨hheld, h3⟩ | ⟨hempty, h3⟩
  · obtain ⟨remaining, t1, hremaining, h4⟩ := Tx.ok_bind.mp h3
    obtain ⟨rfl, rfl⟩ := getProtocolBalance_ok hremaining
    rcases Tx.ok_ite.mp h4 with ⟨hleft, h5⟩ | ⟨hgone, h5⟩
    · obtain ⟨_, t2, hpub, hnone⟩ := Tx.ok_bind.mp h5
      obtain ⟨rfl, rfl⟩ := Tx.ok_pure.mp hnone
      exact .inr ⟨rfl, ⟨hheld, hleft⟩, hpub⟩
    · obtain ⟨rfl, rfl⟩ := Tx.ok_pure.mp h5
      exact .inl ⟨rfl, rfl, fun hboth => hgone hboth.2⟩
  · obtain ⟨rfl, rfl⟩ := Tx.ok_pure.mp h3
    exact .inl ⟨rfl, rfl, fun hboth => hempty hboth.1⟩

theorem exitProtocol_steps {p : Protocol} {a : RebalanceAmounts}
    {r : Option RebalanceAmounts}
    (h : (exitProtocol p minOut a).Ok env w r w') :
    ∃ t x, (withdrawFromProtocol p minOut).Ok env w x t ∧ Quiet t w' ∧
      (r = none ↔ 0 < w.protocolBalance p ∧ 0 < t.protocolBalance p) ∧
      (r = none → .rebalanceFailed p ∈ w'.events) := by
  obtain ⟨t, x, hexit, ⟨hsome, rfl, hdone⟩ | ⟨rfl, hheld, hpub⟩⟩ := exitProtocol_cases h
  · have hne : r ≠ none := Option.isSome_iff_ne_none.mp hsome
    exact ⟨w', x, hexit, quiet.refl env _, iff_of_false hne hdone, fun hnone => absurd hnone hne⟩
  · refine ⟨t, x, hexit, quiet_publish rfl hpub, iff_of_true rfl hheld, fun _ => ?_⟩
    rw [ok_publish.mp hpub]
    exact List.mem_append_right _ (List.mem_singleton_self _)

theorem movesFunds_supplyIdle {a : RebalanceAmounts} :
    Keeps movesFunds (supplyIdle venue minOut a) :=
  .bind (.bind .get fun _ => .expect) fun _ => .bind (.bind .get fun _ => .expect) fun _ =>
    .bind (.bind .get fun _ => .pure _) fun _ => .ite
      (.bind movesFunds_supplyToVenue fun _ => .pure _)
      (.ite (.bind (movesFunds_of_settled settled_setCurrentProtocol) fun _ => .pure _) (.pure _))

theorem movesFunds_rebalanceToVenue {apy : Int} {a : RebalanceAmounts} :
    Keeps movesFunds (rebalanceToVenue venue apy minOut a) :=
  .bind movesFunds_supplyIdle fun _ => movesFunds_of_settled settled_finishRebalance

theorem movesFunds_rebalanceToNone {p : Protocol} {apy : Int} {a : RebalanceAmounts} :
    Keeps movesFunds (rebalanceToNone p apy minOut a) := by
  refine .ite (.bind movesFunds_exitProtocol fun exited => ?_)
    (movesFunds_of_settled settled_finishRebalance)
  cases exited with
  | none => exact .pure _
  | some a' =>
    exact .bind (movesFunds_of_settled settled_setCurrentProtocol) fun _ =>
      movesFunds_of_settled settled_finishRebalance

theorem movesFunds_enterProtocol {p current : Protocol} {apy : Int} {a : RebalanceAmounts} :
    Keeps movesFunds (enterProtocol p current apy minOut a) := by
  cases p with
  | blend => exact movesFunds_rebalanceToVenue
  | dex => exact movesFunds_rebalanceToVenue
  | none => exact movesFunds_rebalanceToNone
  | multi => exact movesFunds_rebalanceToNone
  | other => exact movesFunds_rebalanceToNone

theorem movesFunds_rebalance {p : Protocol} {apy : Int} :
    Keeps movesFunds (rebalance p apy minOut) := by
  refine .bind (.of_unchanged unchanged_requireInitialized) fun _ =>
    .bind (.of_unchanged unchanged_requireNotPaused) fun _ =>
    .bind (.of_unchanged unchanged_requireIsAgent) fun _ => .bind .require fun _ =>
    .bind (.of_unchanged unchanged_requireCooldownElapsed) fun _ => .bind .require fun _ =>
    .bind .require fun _ => .bind (movesFunds_of_quiet quiet_enforceRateLimit) fun _ =>
    .bind .get fun w => .ite (.bind movesFunds_exitProtocol fun exited => ?_)
      movesFunds_enterProtocol
  cases exited with
  | none => exact .pure _
  | some a => exact movesFunds_enterProtocol

/-- After its checks a rebalance leaves the marked protocol, if it is another one, and deploys if
    that succeeds. -/
theorem rebalance_parts {p : Protocol} {apy : Int} {u : Unit}
    (h : (rebalance p apy minOut).Ok env w u w') :
    ∃ t, w.breaker.paused = false ∧ requireCooldownElapsed.Ok env w () w ∧
      (enforceRateLimit .rebalance none).Ok env w () t ∧ p.isSupported = true ∧
      (((t.deployment.currentProtocol = p ∨ t.deployment.currentProtocol = .none) ∧
          (enterProtocol p t.deployment.currentProtocol apy minOut {}).Ok env t u w') ∨
        (t.deployment.currentProtocol ≠ p ∧ t.deployment.currentProtocol ≠ .none ∧
          ∃ r t1, (exitProtocol t.deployment.currentProtocol minOut {}).Ok env t r t1 ∧
            match r with
            | none => w' = t1
            | some a =>
              (enterProtocol p t.deployment.currentProtocol apy minOut a).Ok env t1 u w')) := by
  simp only [rebalance, Tx.ok_bind, Tx.ok_get, ok_requireInitialized, ok_requireNotPaused,
    Tx.ok_require, existsAndEq, exists_const, and_assoc, true_and] at h
  obtain ⟨-, hlive, _, t1, hagent, -, -, _, t2, hcooldown, -, hp, _, t, hrate, h⟩ := h
  obtain rfl : t1 = w := unchanged_requireIsAgent hagent
  obtain rfl : t2 = t1 := unchanged_requireCooldownElapsed hcooldown
  refine ⟨t, hlive, hcooldown, hrate, hp, ?_⟩
  rcases Tx.ok_ite.mp h with ⟨⟨hleaves, hactive⟩, h1⟩ | ⟨hstays, h1⟩
  · refine .inr ⟨hleaves, hactive, ?_⟩
    obtain ⟨r, t1, hexit, h2⟩ := Tx.ok_bind.mp h1
    refine ⟨r, t1, hexit, ?_⟩
    cases r with
    | none => exact (Tx.ok_pure.mp h2).2
    | some a => exact h2
  · exact .inl ⟨by tauto, h1⟩

/-! ## Multi-protocol mode -/

theorem settled_setAllocation {x y : Nat} : Keeps settled (setAllocation x y) := by
  intro env w u w' h
  obtain ⟨_, t, h1, h2⟩ := Tx.ok_bind.mp h
  obtain ⟨rfl, rfl⟩ := Tx.ok_get.mp h1
  exact (settled_putDeployment h2 rfl).1

theorem settled_setMultiProtocolEnabled {b : Bool} :
    Keeps settled (setMultiProtocolEnabled b) := by
  intro env w u w' h
  obtain ⟨_, t, h1, h2⟩ := Tx.ok_bind.mp h
  obtain ⟨rfl, rfl⟩ := Tx.ok_get.mp h1
  exact (settled_putDeployment h2 rfl).1

theorem unchanged_liveAllocation {x y : Int} : Keeps unchanged (liveAllocation x y) :=
  .ite (.bind .expect fun _ => .bind .expect fun _ => .bind .require fun _ => .pure _) (.pure _)

theorem unchanged_initialAllocation {b : Bool} {p : Protocol} {x y : Int} :
    Keeps unchanged (initialAllocation b p x y) := by
  refine .ite ?_ (.bind .require fun _ => .pure _)
  cases p with
  | blend => exact .pure _
  | dex => exact .pure _
  | none => exact unchanged_liveAllocation
  | multi => exact unchanged_liveAllocation
  | other => exact unchanged_liveAllocation

theorem settled_enableMultiProtocol {b : Bool} : Keeps settled (enableMultiProtocol b) :=
  .bind (.of_unchanged unchanged_requireInitialized) fun _ =>
    .bind (.of_unchanged unchanged_requireIsOwner) fun _ =>
    .bind settled_syncDeployedSplit fun _ => .bind .get fun _ =>
    .bind (.of_unchanged unchanged_initialAllocation) fun _ =>
    .bind settled_setMultiProtocolEnabled fun _ => .bind settled_setAllocation fun _ =>
    .bind settled_setCurrentProtocol fun _ => settled_publish rfl

theorem unchanged_splitByBps {x : Int} {a b : Nat} : Keeps unchanged (splitByBps x a b) :=
  .ite (.pure _) (.bind .expect fun _ => .bind .expect fun _ => .pure _)

theorem movesFunds_trimVenue {balance target : Int} :
    Keeps movesFunds (trimVenue venue balance target minOut) :=
  .ite (.bind .expect fun _ => .bind movesFunds_withdrawFromVenue fun _ => .pure _) (.pure _)

theorem movesFunds_topUpVenue {target available : Int} :
    Keeps movesFunds (topUpVenue venue target available minOut) :=
  .bind (.of_unchanged unchanged_getVenueBalance) fun _ => .ite
    (.bind .expect fun _ => .ite (.bind movesFunds_supplyToVenue fun _ => .pure _) (.pure _))
    (.pure _)

/-! ## Multi-protocol rebalancing -/

/-- The checks of `rebalance_multi`. -/
def multiChecks (blendBps dexBps : Nat) (minOut : Int) : Contract World := do
  requireInitialized
  requireNotPaused
  requireIsAgent
  let w ← get
  Tx.require (w.deployment.multiProtocolEnabled = true) .multiProtocolNotEnabled
  requireValidAllocation blendBps dexBps
  Tx.require (0 ≤ minOut) .minOutMustBeNonNegative
  requireCooldownElapsed
  requirePoolForAllocation .blend blendBps
  requirePoolForAllocation .dex dexBps
  pure w

/-- What was asked for and what moved in each leg. -/
structure MultiLegs where
  trimBlend : Int × Int
  trimDex : Int × Int
  topBlend : Int × Int
  topDex : Int × Int

/-- The reads and the legs. -/
def multiLegs (blendBps dexBps : Nat) (minOut : Int) : Contract MultiLegs := do
  let usdcToken ← getUsdcToken
  let idle ← vaultBalance usdcToken
  let blendBal ← getVenueBalance .blend
  let dexBal ← getVenueBalance .dex
  let deployable := i128.saturatingAdd (i128.saturatingAdd idle blendBal) dexBal
  let target ← splitByBps deployable blendBps dexBps
  let trimBlend ← trimVenue .blend blendBal target.1 minOut
  let trimDex ← trimVenue .dex dexBal target.2 minOut
  let available ← vaultBalance usdcToken
  let topBlend ← topUpVenue .blend target.1 available minOut
  let topDex ← topUpVenue .dex target.2 (i128.saturatingSub available topBlend.2) minOut
  pure ⟨trimBlend, trimDex, topBlend, topDex⟩

def MultiLegs.attempted (l : MultiLegs) : Int :=
  [l.trimDex.1, l.topBlend.1, l.topDex.1].foldl i128.saturatingAdd
    (i128.saturatingAdd 0 l.trimBlend.1)

def MultiLegs.supplied (l : MultiLegs) : Int :=
  i128.saturatingAdd (i128.saturatingAdd 0 l.topBlend.2) l.topDex.2

def MultiLegs.withdrawn (l : MultiLegs) : Int :=
  i128.saturatingAdd (i128.saturatingAdd 0 l.trimBlend.2) l.trimDex.2

def MultiLegs.moved (l : MultiLegs) : Int := i128.saturatingAdd l.supplied l.withdrawn

/-- The record of the outcome; `old` is the world before the legs. -/
def multiRecord (blendBps dexBps : Nat) (old : World) (l : MultiLegs) : Contract Unit := do
  setAllocation blendBps dexBps
  let deployed ← syncDeployedSplit
  setCurrentProtocol (deriveProtocolSummary deployed.1 deployed.2)
  publish (.protocolAllocationChanged (old.deployment.allocationBps .blend)
    (old.deployment.allocationBps .dex) blendBps dexBps deployed.1 deployed.2)
  let w ← get
  publishRebalance .multi w.compositeApy (multiStatus l.attempted l.moved)
    ⟨l.attempted, l.moved, l.supplied, l.withdrawn⟩
  recordRebalanceOutcome (multiStatus l.attempted l.moved)
  recordRebalanceLedger

theorem rebalanceMulti_eq : rebalanceMulti blendBps dexBps minOut = (do
    let old ← multiChecks blendBps dexBps minOut
    let legs ← multiLegs blendBps dexBps minOut
    multiRecord blendBps dexBps old legs) := by
  simp only [rebalanceMulti, multiChecks, multiLegs, multiRecord, MultiLegs.attempted,
    MultiLegs.moved, MultiLegs.supplied, MultiLegs.withdrawn, bind_assoc, pure_bind]

theorem unchanged_multiChecks : Keeps unchanged (multiChecks blendBps dexBps minOut) :=
  .bind unchanged_requireInitialized fun _ => .bind unchanged_requireNotPaused fun _ =>
    .bind unchanged_requireIsAgent fun _ => .bind .get fun _ => .bind .require fun _ =>
    .bind .require fun _ => .bind .require fun _ => .bind unchanged_requireCooldownElapsed fun _ =>
    .bind (.bind .get fun _ => .require) fun _ => .bind (.bind .get fun _ => .require) fun _ =>
    .pure _

theorem movesFunds_multiLegs : Keeps movesFunds (multiLegs blendBps dexBps minOut) :=
  .bind (.bind .get fun _ => .expect) fun _ => .bind (.bind .get fun _ => .pure _) fun _ =>
    .bind (.of_unchanged unchanged_getVenueBalance) fun _ =>
    .bind (.of_unchanged unchanged_getVenueBalance) fun _ =>
    .bind (.of_unchanged unchanged_splitByBps) fun _ => .bind movesFunds_trimVenue fun _ =>
    .bind movesFunds_trimVenue fun _ => .bind (.bind .get fun _ => .pure _) fun _ =>
    .bind movesFunds_topUpVenue fun _ => .bind movesFunds_topUpVenue fun _ => .pure _

theorem settled_multiRecord {old : World} {l : MultiLegs} :
    Keeps settled (multiRecord blendBps dexBps old l) :=
  .bind settled_setAllocation fun _ => .bind settled_syncDeployedSplit fun _ =>
    .bind settled_setCurrentProtocol fun _ => .bind (settled_publish rfl) fun _ =>
    .bind .get fun _ => .bind (settled_publish rfl) fun _ =>
    .bind (settled_of_quiet quiet_recordRebalanceOutcome) fun _ =>
    settled_of_quiet quiet_recordRebalanceLedger

theorem rebalanceMulti_parts {u : Unit}
    (h : (rebalanceMulti blendBps dexBps minOut).Ok env w u w') :
    ∃ old l t, (multiChecks blendBps dexBps minOut).Ok env w old w ∧
      (multiLegs blendBps dexBps minOut).Ok env w l t ∧
      (multiRecord blendBps dexBps old l).Ok env t u w' := by
  rw [rebalanceMulti_eq] at h
  obtain ⟨old, t0, hchecks, h1⟩ := Tx.ok_bind.mp h
  obtain rfl : t0 = w := unchanged_multiChecks hchecks
  obtain ⟨l, t, hlegs, hrecord⟩ := Tx.ok_bind.mp h1
  exact ⟨old, l, t, hchecks, hlegs, hrecord⟩

theorem movesFunds_rebalanceMulti : Keeps movesFunds (rebalanceMulti blendBps dexBps minOut) := by
  rw [rebalanceMulti_eq]
  exact .bind (.of_unchanged unchanged_multiChecks) fun _ => .bind movesFunds_multiLegs fun _ =>
    movesFunds_of_settled settled_multiRecord

/-! ## Harvests -/

theorem movesFunds_resupply {p : Protocol} {x : Int} : Keeps movesFunds (resupply p x minOut) := by
  refine .ite ?_ (.pure _)
  cases p with
  | blend => exact .bind movesFunds_supplyToVenue fun _ => .pure _
  | dex => exact .bind movesFunds_supplyToVenue fun _ => .pure _
  | none => exact .pure _
  | multi => exact .pure _
  | other => exact .pure _

theorem movesFunds_harvestRoundTrip {event : Protocol → Int → Event}
    (he : ∀ p x, (event p x).toTransfer = none) :
    Keeps movesFunds (harvestRoundTrip minOut event) :=
  .bind .require fun _ => .bind (.of_unchanged unchanged_requireCooldownElapsed) fun _ =>
    .bind .get fun _ => .bind .require fun _ =>
    .bind (movesFunds_of_quiet quiet_enforceRateLimit) fun _ =>
    .bind movesFunds_withdrawFromProtocol fun _ => .bind movesFunds_resupply fun _ =>
    .bind (movesFunds_publish (he _ _)) fun _ => movesFunds_of_quiet quiet_recordRebalanceLedger

/-- After its checks a harvest leaves the marked protocol and puts back what came out. -/
theorem harvestRoundTrip_parts {event : Protocol → Int → Event} {u : Unit}
    (h : (harvestRoundTrip minOut event).Ok env w u w') :
    ∃ t x t1 t2 t3, requireCooldownElapsed.Ok env w () w ∧
      (enforceRateLimit .rebalance none).Ok env w () t ∧
      (withdrawFromProtocol w.deployment.currentProtocol minOut).Ok env t x t1 ∧
      (resupply w.deployment.currentProtocol x minOut).Ok env t1 () t2 ∧
      (publish (event w.deployment.currentProtocol x)).Ok env t2 () t3 ∧
      recordRebalanceLedger.Ok env t3 () w' := by
  simp only [harvestRoundTrip, Tx.ok_bind, Tx.ok_require, Tx.ok_get, existsAndEq, exists_const,
    and_assoc, true_and] at h
  obtain ⟨-, _, t0, hcooldown, -, _, t, hcharge, x, t1, hexit, _, t2, hsupply, _, t3, hpub,
    hledger⟩ := h
  obtain rfl : t0 = w := unchanged_requireCooldownElapsed hcooldown
  exact ⟨t, x, t1, t2, t3, hcooldown, hcharge, hexit, hsupply, hpub, hledger⟩

theorem harvestRoundTrip_steps {event : Protocol → Int → Event} {u : Unit}
    (he : ∀ p x, (event p x).toTransfer = none)
    (h : (harvestRoundTrip minOut event).Ok env w u w') :
    ∃ t x t1 t2, Quiet w t ∧
      (withdrawFromProtocol w.deployment.currentProtocol minOut).Ok env t x t1 ∧
      (resupply w.deployment.currentProtocol x minOut).Ok env t1 () t2 ∧ Quiet t2 w' := by
  obtain ⟨t, x, t1, t2, t3, -, hcharge, hexit, hsupply, hpub, hledger⟩ := harvestRoundTrip_parts h
  have hlast : Quiet t2 w' := quiet.trans (r := env) (quiet_publish (he _ _) hpub)
    (quiet_recordRebalanceLedger hledger)
  exact ⟨t, x, t1, t2, quiet_enforceRateLimit hcharge, hexit, hsupply, hlast⟩

theorem movesFunds_harvest : Keeps movesFunds (harvest minOut) :=
  .bind (.of_unchanged unchanged_requireInitialized) fun _ =>
    .bind (.of_unchanged unchanged_requireNotPaused) fun _ =>
    .bind (.of_unchanged unchanged_requireIsAgent) fun _ =>
    movesFunds_harvestRoundTrip fun _ _ => rfl

theorem movesFunds_emergencyHarvest : Keeps movesFunds (emergencyHarvest minOut) :=
  .bind (.of_unchanged unchanged_requireInitialized) fun _ =>
    .bind (.bind .get fun _ => .expect) fun _ =>
    .bind (.of_unchanged unchanged_requireOwnerArg) fun _ =>
    movesFunds_harvestRoundTrip fun _ _ => rfl

end NeuroWealth.Vault
