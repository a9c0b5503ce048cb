import NeuroWealth.Vault.Proofs.BookProofs
import NeuroWealth.Vault.Proofs.HoldingsProofs

/-!
# What a call does to one account

Only the holder's own redemptions take shares, only deposits add them, and only the holder's own
lock calls touch the lock. No call moves the ledger.
-/

namespace NeuroWealth.Vault

open Transaction MachineInt SharePool

variable {env : Env} {w w' : World} {call : Call} {user : Address} {amount minted burned : Int}

/-! ## The ledger and the locks -/

/-- The ledger and the locks stay as they are. -/
structure LockFrame (w w' : World) : Prop where
  sequence : w'.chain.sequence = w.chain.sequence
  locks : w'.locks = w.locks

theorem LockFrame.refl : LockFrame w w := ⟨rfl, rfl⟩

theorem LockFrame.trans {t : World} (h1 : LockFrame w t) (h2 : LockFrame t w') : LockFrame w w' :=
  ⟨h2.sequence.trans h1.sequence, h2.locks.trans h1.locks⟩

theorem Quiet.lockFrame (h : Quiet w w') : LockFrame w w' := ⟨by rw [h.chain], h.locks⟩

theorem PoolStep.lockFrame (h : PoolStep w w') : LockFrame w w' := ⟨h.sequence, h.locks⟩

theorem Accounting.lockFrame (h : Accounting w w') : LockFrame w w' := ⟨by rw [h.chain], h.locks⟩

theorem Rebooked.lockFrame {b : Book} (h : Rebooked w w' b) : LockFrame w w' :=
  ⟨by rw [h.chain], h.locks⟩

theorem Paid.lockFrame {token sender recipient : Address}
    (h : Paid token w w' sender recipient amount) : LockFrame w w' :=
  ⟨by rw [h.chain]; rfl, h.locks⟩

theorem Deposited.lockFrame {payer : Address} (h : Deposited w w' payer user amount minted) :
    LockFrame w w' := by
  obtain ⟨token, t, -, hpaid, hcredit⟩ := h.steps
  exact hpaid.lockFrame.trans hcredit.accounting.lockFrame

theorem BatchRun.lockFrame {agent : Address} (h : BatchRun agent w w') : LockFrame w w' := by
  induction h with
  | quiet h => exact h.lockFrame
  | deposited h => exact h.lockFrame
  | returned _ _ h1 h2 => exact h1.lockFrame.trans h2.lockFrame
  | trans _ _ ih1 ih2 => exact ih1.trans ih2

theorem Withdrawal.lockFrame (h : Withdrawal env w w' user amount burned) : LockFrame w w' := by
  obtain ⟨t0, t, hq, hpull, hred⟩ := h.steps
  obtain ⟨token, t1, -, hdebit, hpaid⟩ := hred.steps
  have h1 : LockFrame w t := hq.lockFrame.trans hpull.poolStep.lockFrame
  exact (h1.trans hdebit.accounting.lockFrame).trans hpaid.lockFrame

theorem Migrated.lockFrame {target : Address} (h : Migrated env w w' user target amount) :
    LockFrame w w' := by
  obtain ⟨token, t, -, hpaid, hcalled⟩ := h.steps
  obtain ⟨chain, -, hframe⟩ := hcalled.frame
  have h1 : LockFrame (w.emptied user amount) t := hpaid.lockFrame
  have h2 : LockFrame t w' := ⟨by rw [hframe.chain], hframe.locks⟩
  exact ⟨(h1.trans h2).sequence, (h1.trans h2).locks⟩

theorem AssetPayout.lockFrame {token : Address} {owed actual : Int}
    (h : AssetPayout env w w' user token owed actual) : LockFrame w w' := by
  obtain ⟨t0, t1, t2, hq, hsource, hrebooked, hpaid⟩ := h.steps
  have hpull : LockFrame t0 t1 := by
    rcases hsource with ⟨-, -, rfl⟩ | ⟨-, hpulled, -⟩
    · exact .refl
    · exact (Pulled.poolStep (.inr ⟨_, hpulled⟩)).lockFrame
  exact ((hq.lockFrame.trans hpull).trans hrebooked.lockFrame).trans hpaid.lockFrame

/-- The user whose lock a call sets or releases. -/
def Call.locker : Call → Option Address
  | .lockShares user .. => some user
  | .unlockShares user => some user
  | _ => none

/-- A call that is no lock call leaves the ledger and the locks alone. -/
theorem Effect.lockFrame (h : Effect env w w' call) (hcall : call.locker = none) :
    LockFrame w w' := by
  cases h with
  | quiet _ h => exact h.lockFrame
  | deposit hq h _ => exact hq.lockFrame.trans h.lockFrame
  | batchDeposit h => exact h.lockFrame
  | withdraw h => exact h.lockFrame
  | withdrawAll h => exact h.lockFrame
  | emergencyWithdraw h => exact h.lockFrame
  | migrateShares h => exact h.lockFrame
  | depositAsset _ _ hq hpaid h => exact (hq.lockFrame.trans hpaid.lockFrame).trans h.lockFrame
  | withdrawAsset _ h => exact h.lockFrame
  | lockShares => cases hcall
  | unlockShares => cases hcall
  | funds _ h => exact h.poolStep.lockFrame
  | updateTotalAssets _ h => exact ⟨by rw [h.chain], h.locks⟩
  | setVenuePool h => exact ⟨by rw [h.chain], h.locks⟩
  | setMinHoldingPeriod h => exact ⟨by rw [h.chain], h.locks⟩
  | assets _ h => exact h.lockFrame

/-- No call moves the ledger. -/
theorem Effect.sequence (h : Effect env w w' call) : w'.chain.sequence = w.chain.sequence := by
  cases hcall : call.locker with
  | none => exact (h.lockFrame hcall).sequence
  | some user =>
    cases h with
    | lockShares _ _ _ _ h => rw [h.chain]
    | unlockShares _ _ _ h => rw [h.chain]
    | quiet hquiet h => rw [h.chain]
    | funds _ h => exact h.poolStep.sequence
    | assets _ h => rw [h.chain]
    | _ => cases hcall

/-- A step does not take the ledger back. -/
def Step.Forward (w : World) : Step → Prop
  | .call .. => True
  | .ambient chain => w.chain.sequence ≤ chain.sequence

theorem sequence_le_after (step : Step) (hi : w.Initialized) (h : step.Forward w) :
    w.chain.sequence ≤ (w.after step).chain.sequence := by
  refine after_cases (P := fun t => w.chain.sequence ≤ t.chain.sequence) step hi le_rfl ?_ ?_
  · intro env call w' _ _ heffect
    exact heffect.sequence.ge
  · rintro chain rfl
    exact h

/-! ## Shares -/

/-- The user whose USDC-pool shares a call redeems. -/
def Call.redeemer : Call → Option Address
  | .withdraw user _ => some user
  | .withdrawAll user => some user
  | .emergencyWithdraw user _ => some user
  | .migrateShares user => some user
  | _ => none

theorem Withdrawal.shares (h : Withdrawal env w w' user amount burned) :
    w'.book.shares user = w.book.shares user - burned ∧
      ∀ v, v ≠ user → w'.book.shares v = w.book.shares v := by
  rw [h.terms.2]
  exact ⟨if_pos rfl, fun v hv => if_neg hv⟩

theorem Migrated.shares {target : Address} (h : Migrated env w w' user target amount) :
    w'.book.shares user = 0 ∧ ∀ v, v ≠ user → w'.book.shares v = w.book.shares v := by
  rw [h.book]
  refine ⟨?_, fun v hv => if_neg hv⟩
  show (if user = user then w.book.shares user - w.book.shares user else w.book.shares user) = 0
  rw [if_pos rfl, sub_self]

theorem Deposited.shares {payer : Address} (h : Deposited w w' payer user amount minted) :
    w'.book.shares user = w.book.shares user + minted ∧
      ∀ v, v ≠ user → w'.book.shares v = w.book.shares v := by
  obtain ⟨token, t, -, hpaid, hcredit⟩ := h.steps
  rw [hcredit.book, ← hpaid.book]
  exact ⟨if_pos rfl, fun v hv => if_neg hv⟩

/-- A deposit takes nobody's shares. -/
theorem Deposited.shares_le {payer v : Address} (h : Deposited w w' payer user amount minted)
    (hb : w.book.Sound) : w.book.shares v ≤ w'.book.shares v := by
  have hminted := hb.minted_pos h.positive h.nonzero h.price
  by_cases hv : v = user
  · rw [hv, h.shares.1]
    omega
  · exact (h.shares.2 v hv).ge

theorem BatchRun.shares_le {agent v : Address} (h : BatchRun agent w w') (hb : w.book.Sound) :
    w.book.shares v ≤ w'.book.shares v := by
  induction h with
  | quiet h => rw [h.book]
  | deposited h => exact h.shares_le hb
  | returned _ _ h1 h2 => rw [h2.book, h1.book]
  | trans h1 _ ih1 ih2 => exact (ih1 hb).trans (ih2 (h1.sound hb))

/-- Only a user's own redemptions take shares from the user, unless a batch is credited while the
    total is negative. -/
theorem Effect.shares_le (h : Effect env w w' call)
    (hbatch : call.isBatch = true → w.book.Sound) (hcall : call.redeemer ≠ some user) :
    w.book.shares user ≤ w'.book.shares user := by
  have hother : ∀ {v}, call.redeemer = some v → user ≠ v := fun hv he => hcall (he ▸ hv)
  cases h with
  | quiet _ h => rw [h.book]
  | @deposit payer amount minted t hq h hminted =>
    rw [← hq.book]
    by_cases hu : user = payer
    · rw [hu, h.shares.1]
      omega
    · exact (h.shares.2 user hu).ge
  | batchDeposit h => exact h.shares_le (hbatch rfl)
  | withdraw h => exact (h.shares.2 user (hother rfl)).ge
  | withdrawAll h => exact (h.shares.2 user (hother rfl)).ge
  | emergencyWithdraw h => exact (h.shares.2 user (hother rfl)).ge
  | migrateShares h => exact (h.shares.2 user (hother rfl)).ge
  | depositAsset _ _ _ _ h =>
    rw [h.book]
    exact le_rfl
  | withdrawAsset _ h =>
    rw [h.book]
    exact le_rfl
  | lockShares _ _ _ _ h => rw [h.book]
  | unlockShares _ _ _ h => rw [h.book]
  | funds _ h => rw [h.poolStep.book]
  | updateTotalAssets _ h => rw [h.book]
  | setVenuePool h => rw [h.book]
  | setMinHoldingPeriod h => rw [h.book]
  | assets _ h => rw [h.book]

/-! ## Signatures -/

/-- Every entrypoint of a user's own funds begins by asking for the user's signature. -/
theorem signed_of_ok {α : Type} {x : α} {f : Unit → Contract α}
    (h : (requireInitialized >>= fun _ => requireAuth user >>= f).Ok env w x w') :
    user ∈ env.auths := by
  obtain ⟨_, t, -, hrest⟩ := Tx.ok_bind.mp h
  obtain ⟨_, t', hauth, -⟩ := Tx.ok_bind.mp hrest
  exact (ok_requireAuth.mp hauth).1.1

theorem redeemer_signs {u : Unit} (hcall : call.redeemer = some user)
    (h : call.run.Ok env w u w') : user ∈ env.auths := by
  cases call
  case withdraw =>
    cases hcall
    exact signed_of_ok h
  case withdrawAll =>
    cases hcall
    obtain ⟨paid, t, hpaid, -⟩ := Tx.ok_bind.mp h
    exact signed_of_ok hpaid
  case emergencyWithdraw =>
    cases hcall
    exact signed_of_ok h
  case migrateShares =>
    cases hcall
    exact signed_of_ok h
  all_goals cases hcall

/-! ## Shares of the asset pools -/

theorem assetsFrame : CallFrame env fun w w' => w'.assets = w.assets where
  trans h1 h2 := h2.trans h1
  quiet h := h.assets
  pulled h := h.poolStep.assets
  accounting h := h.assets
  locks _ _ := rfl
  paid _ h := h.assets

theorem TargetCalled.assets_eq {target : Address} (h : TargetCalled env w w' target user amount) :
    w'.assets = w.assets := by
  obtain ⟨chain, -, hq⟩ := h.frame
  exact hq.assets

/-- Only a withdrawal the user has signed takes shares of an asset pool from the user. -/
theorem assetShares_le {u : Unit} {asset : Symbol} (heffect : Effect env w w' call)
    (h : call.run.Ok env w u w') (hunsigned : user ∉ env.auths) :
    w.assets.shares user asset ≤ w'.assets.shares user asset := by
  by_cases hplain : call.isPlain = true
  · rw [assetsFrame.effect (fun _ _ _ _ _ _ hcalled => hcalled.assets_eq)
      (fun _ hmove => hmove.poolStep.assets) heffect hplain]
  cases call
  case depositAsset payer deposited _ =>
    obtain ⟨c, t0, t, -, -, -, -, hcredit, -⟩ := depositAsset_ok h
    have hminted := hcredit.minted_pos
    rw [hcredit.assets]
    show _ ≤ if user = payer ∧ asset = deposited then _ else w.assets.shares user asset
    split_ifs with hsame
    · rw [hsame.1, hsame.2]
      omega
    · exact le_rfl
  case withdrawAsset owner withdrawn _ =>
    obtain ⟨c, actual, -, -, hdebit, -⟩ := withdrawAsset_ok h
    have hne : ¬ (user = owner ∧ asset = withdrawn) := fun hsame =>
      hunsigned (hsame.1 ▸ signed_of_ok h)
    rw [hdebit.assets]
    exact (if_neg hne).ge
  case setVenuePool => rw [(setVenuePool_ok h).assets]
  case addSupportedAsset =>
    rw [(addSupportedAsset_ok h).2]
    unfold AssetPools.addToIndex
    split_ifs
    · exact le_rfl
    · exact le_rfl
  case updateAssetLimits =>
    obtain ⟨c, -, hassets⟩ := updateAssetLimits_ok h
    rw [hassets]
    exact le_rfl
  case removeSupportedAsset =>
    rw [(removeSupportedAsset_ok h).2.2]
    exact le_rfl
  all_goals exact absurd rfl hplain

end NeuroWealth.Vault
