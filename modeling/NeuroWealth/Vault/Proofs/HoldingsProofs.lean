import NeuroWealth.Vault.Proofs.MachineProofs

/-!
# What calls leave alone

A relation that every piece of a call keeps is kept by the call. So a call keeps its hands off
the tokens that are not USDC and off the pools that are not configured.
-/

namespace NeuroWealth.Vault

open Transaction MachineInt SharePool

variable {env : Env} {w w' : World} {call : Call} {user : Address} {amount burned : Int}

/-! ## Frames of calls -/

/-- A relation between states that every piece of a call keeps, the migration target apart. -/
structure CallFrame (env : Env) (R : World → World → Prop) : Prop where
  trans : ∀ {w t w'}, R w t → R t w' → R w w'
  quiet : ∀ {w w'}, Quiet w w' → R w w'
  pulled : ∀ {w w'}, Pulled env w w' → R w w'
  accounting : ∀ {w w'}, Accounting w w' → R w w'
  locks : ∀ (w : World) (l : Locks), R w { w with locks := l }
  paid : ∀ {w w' token sender recipient amount}, w.usdcToken = some token →
    Paid token w w' sender recipient amount → R w w'

/-- The migration target's `deposit` keeps the relation too. -/
def TargetKeeps (env : Env) (R : World → World → Prop) : Prop :=
  ∀ {w w' target user amount}, TargetCalled env w w' target user amount → R w w'

namespace CallFrame

variable {R : World → World → Prop}

theorem deposited {payer : Address} {minted : Int} (hR : CallFrame env R)
    (h : Deposited w w' payer user amount minted) : R w w' := by
  obtain ⟨token, t, htoken, hpaid, hcredit⟩ := h.steps
  exact hR.trans (hR.paid htoken hpaid) (hR.accounting hcredit.accounting)

theorem batchRun {agent : Address} (hR : CallFrame env R) (h : BatchRun agent w w') : R w w' := by
  induction h with
  | quiet h => exact hR.quiet h
  | deposited h => exact hR.deposited h
  | returned _ htoken h1 h2 =>
    exact hR.trans (hR.paid htoken h1) (hR.paid (h1.usdcToken.trans htoken) h2)
  | trans _ _ ih1 ih2 => exact hR.trans ih1 ih2

theorem redeemed (hR : CallFrame env R) (h : Redeemed w w' user amount burned) : R w w' := by
  obtain ⟨token, t, htoken, hdebit, hpaid⟩ := h.steps
  have hacc := hdebit.accounting
  exact hR.trans (hR.accounting hacc) (hR.paid (hacc.usdcToken.trans htoken) hpaid)

theorem withdrawal (hR : CallFrame env R) (h : Withdrawal env w w' user amount burned) :
    R w w' := by
  obtain ⟨t0, t, hq, hpull, hred⟩ := h.steps
  exact hR.trans (hR.trans (hR.quiet hq) (hR.pulled hpull)) (hR.redeemed hred)

theorem migrated {target : Address} (hR : CallFrame env R) (htarget : TargetKeeps env R)
    (h : Migrated env w w' user target amount) : R w w' := by
  obtain ⟨token, t, htoken, hpaid, hcalled⟩ := h.steps
  have hacc : Accounting w (w.emptied user amount) := ⟨rfl, rfl, rfl, rfl, rfl, rfl, rfl, id, rfl⟩
  exact hR.trans (hR.trans (hR.accounting hacc) (hR.paid htoken hpaid)) (htarget hcalled)

end CallFrame

/-- Calls that neither use nor administer an asset pool nor re-point a venue. -/
def Call.isPlain : Call → Bool
  | .depositAsset .. => false
  | .withdrawAsset .. => false
  | .setVenuePool .. => false
  | call => !call.administersAssets

def Call.isMigration : Call → Bool
  | .migrateShares .. => true
  | _ => false

/-- A plain call keeps what its pieces keep. -/
theorem CallFrame.effect {R : World → World → Prop} (hR : CallFrame env R)
    (htarget : call.isMigration = true → TargetKeeps env R)
    (hfunds : call.movesFunds = true → FundsMove env w w' → R w w')
    (h : Effect env w w' call) (hcall : call.isPlain = true) : R w w' := by
  cases h with
  | quiet _ h => exact hR.quiet h
  | deposit hq h _ => exact hR.trans (hR.quiet hq) (hR.deposited h)
  | batchDeposit h => exact hR.batchRun h
  | withdraw h => exact hR.withdrawal h
  | withdrawAll h => exact hR.withdrawal h
  | emergencyWithdraw h => exact hR.withdrawal h
  | migrateShares h => exact hR.migrated (htarget rfl) h
  | depositAsset => exact absurd hcall Bool.false_ne_true
  | withdrawAsset => exact absurd hcall Bool.false_ne_true
  | lockShares _ _ _ _ h => exact hR.trans (hR.locks w _) (hR.quiet h)
  | unlockShares _ _ _ h => exact hR.trans (hR.locks w _) (hR.quiet h)
  | funds hmoves h => exact hfunds hmoves h
  | updateTotalAssets _ h =>
    refine hR.trans (hR.accounting ?_) (hR.quiet h)
    exact ⟨rfl, rfl, rfl, rfl, rfl, rfl, rfl, id, rfl⟩
  | setVenuePool => exact absurd hcall Bool.false_ne_true
  | setMinHoldingPeriod h =>
    refine hR.trans (hR.accounting ?_) (hR.quiet h)
    exact ⟨rfl, rfl, rfl, rfl, rfl, rfl, rfl, id, rfl⟩
  | assets hadmin h =>
    have hnot : call.isPlain = false := by
      cases call <;> first | rfl | exact absurd hadmin Bool.false_ne_true
    rw [hnot] at hcall
    exact absurd hcall Bool.false_ne_true

/-- The same for all calls: payments may be of any token, and the asset pools may change. -/
structure WideFrame (env : Env) (R : World → World → Prop) : Prop where
  trans : ∀ {w t w'}, R w t → R t w' → R w w'
  quiet : ∀ {w w'}, Quiet w w' → R w w'
  moves : ∀ {w w'}, FundsMove env w w' → R w w'
  accounting : ∀ {w w'}, Accounting w w' → R w w'
  locks : ∀ (w : World) (l : Locks), R w { w with locks := l }
  paid : ∀ {w w' token sender recipient amount}, Paid token w w' sender recipient amount → R w w'
  rebooked : ∀ {w w' b}, Rebooked w w' b → R w w'
  target : TargetKeeps env R

namespace WideFrame

variable {R : World → World → Prop}

theorem callFrame (hR : WideFrame env R) : CallFrame env R where
  trans := hR.trans
  quiet := hR.quiet
  pulled h := hR.moves h.fundsMove
  accounting := hR.accounting
  locks := hR.locks
  paid _ h := hR.paid h

theorem assetPayout {token : Address} {owed actual : Int} (hR : WideFrame env R)
    (h : AssetPayout env w w' user token owed actual) : R w w' := by
  obtain ⟨t0, t1, t2, hq, hsource, hbook, hpaid⟩ := h.steps
  have hmove : FundsMove env t0 t1 := by
    rcases hsource with ⟨-, -, rfl⟩ | ⟨-, hpulled, -⟩
    · exact movesFunds.refl env _
    · exact Pulled.fundsMove (.inr ⟨_, hpulled⟩)
  exact hR.trans (hR.trans (hR.quiet hq) (hR.moves hmove))
    (hR.trans (hR.rebooked hbook) (hR.paid hpaid))

/-- A call keeps what its pieces keep, if re-pointing a venue does. -/
theorem effect (hR : WideFrame env R)
    (hpointed : ∀ venue owner pool, call = .setVenuePool venue owner pool →
      R w { w with deployment := w.deployment.setPool venue pool })
    (h : Effect env w w' call) : R w w' := by
  by_cases hplain : call.isPlain = true
  · exact hR.callFrame.effect (fun _ => hR.target) (fun _ hmove => hR.moves hmove) h hplain
  cases h with
  | depositAsset _ _ hq hpaid hbook =>
    exact hR.trans (hR.trans (hR.quiet hq) (hR.paid hpaid)) (hR.rebooked hbook)
  | withdrawAsset _ hpay => exact hR.assetPayout hpay
  | setVenuePool hq => exact hR.trans (hpointed _ _ _ rfl) (hR.quiet hq)
  | assets _ hbook => exact hR.rebooked hbook
  | quiet _ hq => exact hR.quiet hq
  | funds _ hmove => exact hR.moves hmove
  | _ => exact absurd rfl hplain

end WideFrame

/-! ## Tokens other than USDC -/

/-- The asset pools stay as they are, and the vault loses no token but USDC. -/
structure CustodyKept (w w' : World) : Prop where
  self : w'.self = w.self
  usdcToken : w'.usdcToken = w.usdcToken
  assets : w'.assets = w.assets
  balances : ∀ t, w.usdcToken ≠ some t →
    w.chain.balances t w.self ≤ w'.chain.balances t w'.self

theorem CustodyKept.of_chain (hself : w'.self = w.self) (htoken : w'.usdcToken = w.usdcToken)
    (hassets : w'.assets = w.assets) (hchain : w'.chain = w.chain) : CustodyKept w w' :=
  ⟨hself, htoken, hassets, fun t _ => by rw [hchain, hself]⟩

/-- A transfer leaves the other tokens alone. -/
theorem Chain.move_otherToken {c : Chain} {token t sender recipient holder : Address}
    (ht : t ≠ token) :
    (c.move token sender recipient amount).balances t holder = c.balances t holder := by
  simp [Chain.move, Chain.setBalance, ht]

/-- The migration target takes none of the vault's tokens other than USDC. -/
def Env.TargetSparesTokens (env : Env) (usdcToken : Option Address) (vault : Address) : Prop :=
  ∀ chain target user amount chain', env.targetDeposit chain target user amount = some chain' →
    ∀ t, usdcToken ≠ some t → chain.balances t vault ≤ chain'.balances t vault

theorem FundsMove.custodyKept (h : FundsMove env w w') : CustodyKept w w' := by
  have hstep := h.poolStep
  exact ⟨hstep.self, hstep.usdcToken, hstep.assets, fun t ht => (h.otherTokens ht).ge⟩

theorem custodyFrame {usdcToken : Option Address} {vault : Address} :
    CallFrame env fun w w' => w.usdcToken = usdcToken → w.self = vault → CustodyKept w w' where
  trans h1 h2 htoken hself := by
    have hk1 := h1 htoken hself
    have hk2 := h2 (hk1.usdcToken.trans htoken) (hk1.self.trans hself)
    refine ⟨hk2.self.trans hk1.self, hk2.usdcToken.trans hk1.usdcToken,
      hk2.assets.trans hk1.assets, fun t ht => ?_⟩
    exact (hk1.balances t ht).trans (hk2.balances t (hk1.usdcToken ▸ ht))
  quiet h _ _ := .of_chain h.self h.usdcToken h.assets h.chain
  pulled h _ _ := h.fundsMove.custodyKept
  accounting h _ _ := .of_chain h.self h.usdcToken h.assets h.chain
  locks w l _ _ := .of_chain rfl rfl rfl rfl
  paid htoken h _ _ := by
    refine ⟨h.self, h.usdcToken, h.assets, fun t ht => ?_⟩
    have hne : t ≠ _ := fun he => ht (by rw [he]; exact htoken)
    rw [h.chain, h.self, Chain.move_otherToken hne]

theorem TargetCalled.custodyKept {target : Address}
    (h : TargetCalled env w w' target user amount)
    (htarget : env.TargetSparesTokens w.usdcToken w.self) : CustodyKept w w' := by
  obtain ⟨chain, hchain, hq⟩ := h.frame
  refine ⟨hq.self, hq.usdcToken, hq.assets, fun t ht => ?_⟩
  rw [hq.chain, hq.self]
  exact htarget _ _ _ _ _ hchain t ht

/-- A plain call keeps the asset pools and what they hold. -/
theorem Effect.custodyKept (h : Effect env w w' call) (hcall : call.isPlain = true)
    (htarget : env.TargetSparesTokens w.usdcToken w.self) : CustodyKept w w' := by
  refine custodyFrame.effect (fun _ _ _ _ _ _ hcalled htoken hself => ?_)
    (fun _ hmove _ _ => hmove.custodyKept) h hcall rfl rfl
  rw [← htoken, ← hself] at htarget
  exact hcalled.custodyKept htarget

end NeuroWealth.Vault
