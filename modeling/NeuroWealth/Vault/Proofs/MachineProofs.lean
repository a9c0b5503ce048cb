import NeuroWealth.Vault.Proofs.EffectsProofs

/-!
# Steps and runs

A step is the effect of a successful call, nothing, or a change of the chain. What no step can
change, no run can.
-/

namespace NeuroWealth.Vault

open Transaction MachineInt SharePool

variable {env : Env} {w w' : World} {call : Call}

/-! ## One step -/

theorem ok_invoke {u : Unit} : (invoke call).Ok env w u w' ↔ call.run.Ok env w.entered u w' := by
  simp only [invoke, Tx.ok_bind, Tx.ok_modify, exists_const, existsAndEq, true_and]

/-- A call that succeeds leads to the state after its step. -/
theorem ok_after (h : (invoke call).succeeds env w = true) :
    (invoke call).Ok env w () (w.after (.call env call)) :=
  Tx.ok_commit h

/-- The step is a successful run of a call. -/
def Step.Performs (step : Step) (w : World) (call : Call) : Prop :=
  ∃ env, step = .call env call ∧ (invoke call).succeeds env w = true

/-- A call takes effect from the state it starts in. -/
theorem effect_of_invoke {u : Unit} (hi : w.Initialized) (h : (invoke call).Ok env w u w') :
    Effect env w.entered w' call :=
  effect_of_run hi (ok_invoke.mp h)

/-- To show something of the state after a step, show it of the state before, of the outcome of a
    successful call and of a changed chain. -/
theorem after_cases {P : World → Prop} (step : Step) (hi : w.Initialized) (hkept : P w)
    (hcall : ∀ env call w', step = .call env call → (invoke call).Ok env w () w' →
      Effect env w.entered w' call → P w')
    (hambient : ∀ chain, step = .ambient chain → P { w with chain := chain }) :
    P (w.after step) := by
  cases step with
  | ambient chain => exact hambient chain rfl
  | call env call =>
    show P ((invoke call).commit env w)
    rcases (invoke call).commit_cases env w with ⟨_, hok⟩ | hfail
    · exact hcall env call _ rfl hok (effect_of_invoke hi hok)
    · rw [hfail]
      exact hkept

/-! ## What never changes -/

/-- Identity, token and the fact of initialisation. -/
structure Anchored (w w' : World) : Prop where
  self : w'.self = w.self
  usdcToken : w'.usdcToken = w.usdcToken
  initialized : w.Initialized → w'.Initialized

theorem Anchored.refl : Anchored w w := ⟨rfl, rfl, id⟩

theorem Anchored.trans {t : World} (h1 : Anchored w t) (h2 : Anchored t w') : Anchored w w' :=
  ⟨h2.self.trans h1.self, h2.usdcToken.trans h1.usdcToken, h2.initialized ∘ h1.initialized⟩

theorem Quiet.anchored (h : Quiet w w') : Anchored w w' := ⟨h.self, h.usdcToken, h.initialized⟩

theorem PoolStep.anchored (h : PoolStep w w') : Anchored w w' :=
  ⟨h.self, h.usdcToken, h.initialized⟩

theorem Accounting.anchored (h : Accounting w w') : Anchored w w' :=
  ⟨h.self, h.usdcToken, h.initialized⟩

theorem Rebooked.anchored {b : Book} (h : Rebooked w w' b) : Anchored w w' :=
  ⟨h.self, h.usdcToken, h.initialized⟩

theorem Paid.anchored {token sender recipient : Address} {amount : Int}
    (h : Paid token w w' sender recipient amount) : Anchored w w' :=
  ⟨h.self, h.usdcToken, h.initialized⟩

theorem Deposited.anchored {payer user : Address} {amount minted : Int}
    (h : Deposited w w' payer user amount minted) : Anchored w w' := by
  obtain ⟨token, t, -, hpaid, hcredit⟩ := h.steps
  exact hpaid.anchored.trans hcredit.accounting.anchored

theorem BatchRun.anchored {agent : Address} (h : BatchRun agent w w') : Anchored w w' := by
  induction h with
  | quiet h => exact h.anchored
  | deposited h => exact h.anchored
  | returned _ _ h1 h2 => exact h1.anchored.trans h2.anchored
  | trans _ _ ih1 ih2 => exact ih1.trans ih2

theorem Redeemed.anchored {user : Address} {amount burned : Int}
    (h : Redeemed w w' user amount burned) : Anchored w w' := by
  obtain ⟨token, t, -, hdebit, hpaid⟩ := h.steps
  exact hdebit.accounting.anchored.trans hpaid.anchored

theorem Withdrawal.anchored {user : Address} {amount burned : Int}
    (h : Withdrawal env w w' user amount burned) : Anchored w w' := by
  obtain ⟨t0, t, hq, hpull, hred⟩ := h.steps
  exact (hq.anchored.trans hpull.poolStep.anchored).trans hred.anchored

theorem Migrated.anchored {user target : Address} {amount : Int}
    (h : Migrated env w w' user target amount) : Anchored w w' := by
  obtain ⟨token, t, -, hpaid, hcalled⟩ := h.steps
  obtain ⟨chain, -, hframe⟩ := hcalled.frame
  have h1 : Anchored w t := ⟨hpaid.self, hpaid.usdcToken, hpaid.initialized⟩
  have h2 : Anchored t w' := ⟨hframe.self, hframe.usdcToken, hframe.initialized⟩
  exact h1.trans h2

theorem AssetPayout.anchored {user token : Address} {owed actual : Int}
    (h : AssetPayout env w w' user token owed actual) : Anchored w w' := by
  obtain ⟨t0, t1, t2, hq, hsource, hrebooked, hpaid⟩ := h.steps
  have hpull : Anchored t0 t1 := by
    rcases hsource with ⟨-, -, rfl⟩ | ⟨-, hpulled, -⟩
    · exact .refl
    · exact (Pulled.poolStep (.inr ⟨_, hpulled⟩)).anchored
  exact ((hq.anchored.trans hpull).trans hrebooked.anchored).trans hpaid.anchored

theorem Effect.anchored (h : Effect env w w' call) : Anchored w w' := by
  cases h with
  | quiet _ h => exact h.anchored
  | deposit hq h _ => exact hq.anchored.trans h.anchored
  | batchDeposit h => exact h.anchored
  | withdraw h => exact h.anchored
  | withdrawAll h => exact h.anchored
  | emergencyWithdraw h => exact h.anchored
  | migrateShares h => exact h.anchored
  | depositAsset _ _ hq hpaid h => exact (hq.anchored.trans hpaid.anchored).trans h.anchored
  | withdrawAsset _ h => exact h.anchored
  | lockShares _ _ _ _ h => exact ⟨h.self, h.usdcToken, h.initialized⟩
  | unlockShares _ _ _ h => exact ⟨h.self, h.usdcToken, h.initialized⟩
  | funds _ h => exact h.poolStep.anchored
  | updateTotalAssets _ h => exact ⟨h.self, h.usdcToken, h.initialized⟩
  | setVenuePool h => exact ⟨h.self, h.usdcToken, h.initialized⟩
  | setMinHoldingPeriod h => exact ⟨h.self, h.usdcToken, h.initialized⟩
  | assets _ h => exact h.anchored

theorem anchored_after (step : Step) (hi : w.Initialized) : Anchored w (w.after step) := by
  refine after_cases (P := Anchored w) step hi .refl ?_ ?_
  · intro env call w' _ _ heffect
    have h := heffect.anchored
    exact ⟨h.self, h.usdcToken, h.initialized⟩
  · intro chain _
    exact ⟨rfl, rfl, id⟩

/-! ## Fresh vaults -/

/-- What `initialize` leaves: no shares, no assets, no deployment, no proposals, no history of
    calls, and the chain as it was. -/
structure World.Fresh (w : World) : Prop where
  initialized : w.Initialized
  book : w.book = { totalAssets := some 0 }
  assets : w.assets = {}
  locks : w.locks = {}
  holding : w.holding = {}
  deployment : w.deployment = {}
  roles : ∃ deployer owner agent,
    w.roles = { deployer := some deployer, owner := some owner, agent := some agent }
  lastRebalance : w.limits.lastRebalanceLedger = none
  buckets : w.buckets = {}
  breaker : w.breaker = {}

theorem World.Opened.fresh (h : w.Opened) : w.Fresh := by
  obtain ⟨env, blank, deployer, owner, agent, usdcToken, salt, hblank, hok⟩ := h
  obtain ⟨-, rfl⟩ := initializeVault_ok (ok_invoke.mp hok)
  refine ⟨⟨rfl, rfl, rfl⟩, ?_, hblank.assets, hblank.locks, hblank.holding, hblank.deployment,
    ⟨deployer, owner, agent, ?_⟩, ?_, hblank.buckets, ?_⟩
  · show { blank.book with totalDeposits := 0, totalShares := 0, totalAssets := some 0 } = _
    rw [hblank.book]
  · show { blank.roles with
      deployer := some deployer, agent := some agent, owner := some owner, version := 1 } = _
    rw [hblank.roles]
  · show blank.limits.lastRebalanceLedger = none
    rw [hblank.limits]
  · show { blank.breaker with paused := false, maxConsecutiveFailures := 3 } = _
    rw [hblank.breaker]

theorem Reaches.of_admits {admissible : World → Step → Prop} {steps : List Step}
    (h : Admits admissible w steps) : Reaches admissible w (w.replay steps) :=
  Runs.Reaches.of_admits h

/-- An invariant of initialised vaults, along a run. -/
theorem Reaches.keeps {admissible : World → Step → Prop} {P : World → Prop}
    (h : Reaches admissible w w') (hi : w.Initialized) (h0 : P w)
    (hstep : ∀ t step, admissible t step → t.Initialized → P t → P (t.after step)) :
    P w' ∧ w'.Initialized := by
  refine Runs.Reaches.invariant (P := fun t => P t ∧ t.Initialized) h ⟨h0, hi⟩ ?_
  intro t step hadm ⟨hp, hi⟩
  exact ⟨hstep t step hadm hi hp, (anchored_after step hi).initialized hi⟩

/-- The same from a fresh vault. -/
theorem Reaches.invariant {admissible : World → Step → Prop} {P : World → Prop}
    (h : Reaches admissible w w') (hopened : w.Opened) (h0 : P w)
    (hstep : ∀ t step, admissible t step → t.Initialized → P t → P (t.after step)) :
    P w' ∧ w'.Initialized :=
  h.keeps hopened.fresh.initialized h0 hstep

end NeuroWealth.Vault
