import NeuroWealth.Foundation.Proofs.TransactionProofs
import NeuroWealth.Foundation.Proofs.MachineIntProofs
import NeuroWealth.Vault.Frames

/-!
# Guards and primitives

What a successful guard establishes, and that guards stay within the quiet frame.
-/

namespace NeuroWealth.Vault

open Transaction MachineInt SharePool

variable {env : Env} {w w' : World}

/-! ## Storage primitives -/

@[simp]
theorem ok_putBook {b : Book} {u : Unit} :
    (putBook b).Ok env w u w' ↔ w' = { w with book := b } := by
  simp [putBook]

@[simp]
theorem ok_putLocks {l : Locks} {u : Unit} :
    (putLocks l).Ok env w u w' ↔ w' = { w with locks := l } := by
  simp [putLocks]

@[simp]
theorem ok_putHolding {h : Holding} {u : Unit} :
    (putHolding h).Ok env w u w' ↔ w' = { w with holding := h } := by
  simp [putHolding]

@[simp]
theorem ok_putAssets {a : AssetPools} {u : Unit} :
    (putAssets a).Ok env w u w' ↔ w' = { w with assets := a } := by
  simp [putAssets]

@[simp]
theorem ok_putDeployment {d : Deployment} {u : Unit} :
    (putDeployment d).Ok env w u w' ↔ w' = { w with deployment := d } := by
  simp [putDeployment]

@[simp]
theorem ok_publish {e : Event} {u : Unit} :
    (publish e).Ok env w u w' ↔ w' = { w with events := w.events ++ [e] } := by
  simp [publish]

/-- An event that is no transfer. -/
theorem quiet_publish {e : Event} (he : e.toTransfer = none) : Keeps quiet (publish e) := by
  refine .modify fun _ w => ⟨rfl, rfl, rfl, rfl, rfl, rfl, rfl, rfl, ?_, id, rfl⟩
  simp [World.transfers, he]

theorem quiet_modifyLimits {f : Limits → Limits} : Keeps quiet (modifyLimits f) :=
  .modify fun _ _ => ⟨rfl, rfl, rfl, rfl, rfl, rfl, rfl, rfl, rfl, id, rfl⟩

theorem quiet_modifyBreaker {f : Breaker → Breaker} : Keeps quiet (modifyBreaker f) :=
  .modify fun _ _ => ⟨rfl, rfl, rfl, rfl, rfl, rfl, rfl, rfl, rfl, id, rfl⟩

theorem quiet_modifyMigration {f : Migration → Migration} : Keeps quiet (modifyMigration f) :=
  .modify fun _ _ => ⟨rfl, rfl, rfl, rfl, rfl, rfl, rfl, rfl, rfl, id, rfl⟩

theorem quiet_modifyProfiles {f : Profiles → Profiles} : Keeps quiet (modifyProfiles f) :=
  .modify fun _ _ => ⟨rfl, rfl, rfl, rfl, rfl, rfl, rfl, rfl, rfl, id, rfl⟩

theorem quiet_modifyReports {f : Reports → Reports} : Keeps quiet (modifyReports f) :=
  .modify fun _ _ => ⟨rfl, rfl, rfl, rfl, rfl, rfl, rfl, rfl, rfl, id, rfl⟩

/-- A change of roles that leaves an agent and an owner in place. -/
theorem quiet_modifyRoles {f : Roles → Roles} (ha : ∀ r, r.agent.isSome → (f r).agent.isSome)
    (ho : ∀ r, r.owner.isSome → (f r).owner.isSome) : Keeps quiet (modifyRoles f) :=
  .modify fun _ w => ⟨rfl, rfl, rfl, rfl, rfl, rfl, rfl, rfl, rfl,
    fun h => ⟨ha w.roles h.1, h.2.1, ho w.roles h.2.2⟩, rfl⟩

/-! ## Callers and state checks -/

@[simp]
theorem ok_requireAuth {a : Address} {u : Unit} :
    (requireAuth a).Ok env w u w' ↔ (a ∈ env.auths ∧ a ≠ w.self) ∧ w' = w := by
  simp only [requireAuth, Tx.ok_bind, Tx.ok_read, Tx.ok_get, Tx.ok_require, existsAndEq, true_and]

@[simp]
theorem ok_requireInitialized {u : Unit} :
    requireInitialized.Ok env w u w' ↔ w.Initialized ∧ w' = w := by
  simp only [requireInitialized, Tx.ok_bind, Tx.ok_get, Tx.ok_require, existsAndEq, true_and]

@[simp]
theorem ok_requireNotPaused {u : Unit} :
    requireNotPaused.Ok env w u w' ↔ w.breaker.paused = false ∧ w' = w := by
  simp only [requireNotPaused, Tx.ok_bind, Tx.ok_get, Tx.ok_require, existsAndEq, true_and]

@[simp]
theorem ok_getUsdcToken {a : Address} :
    getUsdcToken.Ok env w a w' ↔ w.usdcToken = some a ∧ w' = w := by
  simp only [getUsdcToken, Tx.ok_bind, Tx.ok_get, Tx.ok_expect, existsAndEq, true_and]

@[simp]
theorem ok_getOwnerInternal {a : Address} :
    getOwnerInternal.Ok env w a w' ↔ w.roles.owner = some a ∧ w' = w := by
  simp only [getOwnerInternal, Tx.ok_bind, Tx.ok_get, Tx.ok_expect, existsAndEq, true_and]

@[simp]
theorem ok_getAgentInternal {a : Address} :
    getAgentInternal.Ok env w a w' ↔ w.roles.agent = some a ∧ w' = w := by
  simp only [getAgentInternal, Tx.ok_bind, Tx.ok_get, Tx.ok_expect, existsAndEq, true_and]

@[simp]
theorem ok_requireIsOwner {u : Unit} :
    requireIsOwner.Ok env w u w' ↔
      (w.Initialized ∧ ∃ owner, w.roles.owner = some owner ∧ owner ∈ env.auths ∧
        owner ≠ w.self) ∧ w' = w := by
  simp only [requireIsOwner, Tx.ok_bind, ok_requireInitialized, ok_getOwnerInternal,
    ok_requireAuth, existsAndEq, exists_const, exists_and_left, and_assoc, true_and]
  constructor
  · rintro ⟨hi, owner, ho, ha, hs, rfl⟩
    exact ⟨hi, ⟨owner, ho, ha, hs⟩, rfl⟩
  · rintro ⟨hi, ⟨owner, ho, ha, hs⟩, rfl⟩
    exact ⟨hi, owner, ho, ha, hs, rfl⟩

@[simp]
theorem ok_requireOwnerArg {owner : Address} {e : VaultError} {u : Unit} :
    (requireOwnerArg owner e).Ok env w u w' ↔
      (owner ∈ env.auths ∧ owner ≠ w.self ∧ w.roles.owner = some owner) ∧ w' = w := by
  simp only [requireOwnerArg, Tx.ok_bind, ok_requireAuth, ok_getOwnerInternal, Tx.ok_require,
    existsAndEq, exists_const, and_assoc, true_and]

/-- The address holds one of the two agent slots. -/
def World.Accepts (w : World) (a : Address) : Prop :=
  w.roles.agent = some a ∨ w.roles.standbyAgent = some a

/-- `require_is_agent` passes exactly when an accepted address has signed. -/
theorem ok_requireIsAgent {u : Unit} :
    requireIsAgent.Ok env w u w' ↔ (w.Initialized ∧ ∃ a, w.Accepts a ∧ a ∈ env.auths) ∧ w' = w := by
  simp only [requireIsAgent, Tx.ok_bind, ok_requireInitialized, ok_getAgentInternal, Tx.ok_read,
    Tx.ok_get, Tx.ok_ite, Tx.ok_pure, ok_requireAuth, Option.any_eq_true, decide_eq_true_eq,
    existsAndEq, exists_const, and_assoc, true_and]
  constructor
  · rintro ⟨hi, agent, hagent, ⟨hsigned | ⟨standby, hstandby, hsigned⟩, rfl⟩ | ⟨-, hsigned, -, rfl⟩⟩
    · exact ⟨hi, ⟨agent, .inl hagent, hsigned⟩, rfl⟩
    · exact ⟨hi, ⟨standby, .inr hstandby, hsigned⟩, rfl⟩
    · exact ⟨hi, ⟨agent, .inl hagent, hsigned⟩, rfl⟩
  · rintro ⟨hi, ⟨a, ha, hsigned⟩, rfl⟩
    obtain ⟨agent, hagent⟩ := Option.isSome_iff_exists.mp hi.1
    refine ⟨hi, agent, hagent, .inl ⟨?_, rfl⟩⟩
    rcases ha with ha | ha
    · rw [hagent] at ha
      cases ha
      exact .inl hsigned
    · exact .inr ⟨a, ha, hsigned⟩

theorem unchanged_requireInitialized : Keeps unchanged requireInitialized :=
  fun _ _ _ _ h => (ok_requireInitialized.mp h).2

theorem unchanged_requireAuth {a : Address} : Keeps unchanged (requireAuth a) :=
  fun _ _ _ _ h => (ok_requireAuth.mp h).2

theorem unchanged_requireNotPaused : Keeps unchanged requireNotPaused :=
  fun _ _ _ _ h => (ok_requireNotPaused.mp h).2

theorem unchanged_requireIsOwner : Keeps unchanged requireIsOwner :=
  fun _ _ _ _ h => (ok_requireIsOwner.mp h).2

theorem unchanged_requireOwnerArg {owner : Address} {e : VaultError} :
    Keeps unchanged (requireOwnerArg owner e) :=
  fun _ _ _ _ h => (ok_requireOwnerArg.mp h).2

theorem unchanged_requireIsAgent : Keeps unchanged requireIsAgent :=
  .bind unchanged_requireInitialized fun _ => .bind (.bind .get fun _ => .expect) fun _ =>
    .bind .read fun _ => .bind .get fun _ => .ite (.pure _) unchanged_requireAuth

theorem unchanged_requireCooldownElapsed : Keeps unchanged requireCooldownElapsed := by
  refine .bind .get fun w => ?_
  split
  · exact .require
  · exact .pure _

@[simp]
theorem ok_requirePositiveAmount {amount : Int} {u : Unit} :
    (requirePositiveAmount amount).Ok env w u w' ↔ 0 < amount ∧ w' = w := by
  simp [requirePositiveAmount]

@[simp]
theorem ok_requireMinOut {actual minOut : Int} {u : Unit} :
    (requireMinOut actual minOut).Ok env w u w' ↔ ¬ (0 < minOut ∧ actual < minOut) ∧ w' = w :=
  Tx.ok_require

@[simp]
theorem ok_vaultBalance {token : Address} {x : Int} :
    (vaultBalance token).Ok env w x w' ↔ x = w.chain.balances token w.self ∧ w' = w := by
  simp only [vaultBalance, Tx.ok_bind, Tx.ok_get, Tx.ok_pure, existsAndEq, true_and]

@[simp]
theorem ok_poolBalance {venue : Venue} {pool : Address} {x : Int} :
    (poolBalance venue pool).Ok env w x w' ↔
      x = w.chain.positions venue pool w.self ∧ w' = w := by
  simp only [poolBalance, Tx.ok_bind, Tx.ok_get, Tx.ok_pure, existsAndEq, true_and]

@[simp]
theorem ok_ledgerSequence {n : Nat} :
    ledgerSequence.Ok env w n w' ↔ n = w.chain.sequence ∧ w' = w := by
  simp only [ledgerSequence, Tx.ok_bind, Tx.ok_get, Tx.ok_pure, existsAndEq, true_and]

@[simp]
theorem ok_readShares {user : Address} {x : Int} :
    (readShares user).Ok env w x w' ↔ x = w.book.shares user ∧ w' = w := by
  simp only [readShares, Tx.ok_bind, Tx.ok_get, Tx.ok_pure, existsAndEq, true_and]

@[simp]
theorem ok_getTotalSharesInternal {x : Int} :
    getTotalSharesInternal.Ok env w x w' ↔ x = w.book.totalShares ∧ w' = w := by
  simp only [getTotalSharesInternal, Tx.ok_bind, Tx.ok_get, Tx.ok_pure, existsAndEq, true_and]

@[simp]
theorem ok_getTotalAssetsInternal {x : Int} :
    getTotalAssetsInternal.Ok env w x w' ↔ x = w.book.assets ∧ w' = w := by
  simp only [getTotalAssetsInternal, Tx.ok_bind, Tx.ok_get, Tx.ok_pure, existsAndEq, true_and]

/-! ## Payments -/

/-- The world after a transfer. -/
def World.paying (w : World) (token sender recipient : Address) (amount : Int) : World :=
  { w with
    chain := w.chain.move token sender recipient amount
    events := w.events ++ [.transfer token sender recipient amount] }

theorem ok_transfer {token sender recipient : Address} {amount : Int} {u : Unit} :
    (transfer token sender recipient amount).Ok env w u w' ↔
      (0 ≤ amount ∧ amount ≤ w.chain.balances token sender) ∧
        w' = w.paying token sender recipient amount := by
  simp only [transfer, Tx.ok_bind, Tx.ok_get, Tx.ok_require, Tx.ok_modify, ok_publish,
    existsAndEq, exists_const, and_assoc, true_and]
  rfl

/-- A transfer moves exactly the amount, which the sender has. -/
theorem transfer_ok {token sender recipient : Address} {amount : Int} {u : Unit}
    (h : (transfer token sender recipient amount).Ok env w u w') :
    Paid token w w' sender recipient amount := by
  obtain ⟨⟨hnonneg, hfunded⟩, rfl⟩ := ok_transfer.mp h
  refine ⟨rfl, rfl, rfl, rfl, rfl, rfl, rfl, rfl, ?_, id, hnonneg, hfunded, rfl⟩
  simp [World.transfers, World.paying, Event.toTransfer]

section Payments

variable {token sender recipient : Address} {amount : Int} {venue : Venue}

theorem Paid.positions (h : Paid token w w' sender recipient amount) :
    w'.chain.positions = w.chain.positions := by
  rw [h.chain]
  rfl

theorem Paid.position (h : Paid token w w' sender recipient amount) :
    w'.position venue = w.position venue := by
  unfold World.position
  rw [h.deployment, h.positions, h.self]

/-- What a payment to the vault adds to its balances. -/
theorem Paid.balance_in (h : Paid token w w' sender w.self amount) (hs : sender ≠ w.self)
    (t : Address) : w'.chain.balances t w'.self =
      w.chain.balances t w.self + if token = t then amount else 0 := by
  rw [h.chain, h.self]
  by_cases ht : token = t
  · simp [Chain.move, Chain.setBalance, hs.symm, ht]
  · simp [Chain.move, Chain.setBalance, ht, Ne.symm ht]

/-- What a payment by the vault takes from its balances. -/
theorem Paid.balance_out (h : Paid token w w' w.self recipient amount) (hr : recipient ≠ w.self)
    (t : Address) : w'.chain.balances t w'.self =
      w.chain.balances t w.self - if token = t then amount else 0 := by
  rw [h.chain, h.self]
  by_cases ht : token = t
  · simp [Chain.move, Chain.setBalance, hr.symm, ht]
  · simp [Chain.move, Chain.setBalance, ht, Ne.symm ht]

/-- Receiving a payment in USDC. -/
theorem Paid.idle_in (h : Paid token w w' sender w.self amount) (htoken : w.usdcToken = some token)
    (hs : sender ≠ w.self) : w'.idle = w.idle + amount := by
  unfold World.idle
  rw [h.usdcToken, htoken]
  simp only [h.balance_in hs token, if_pos]

/-- Making a payment in USDC. -/
theorem Paid.idle_out (h : Paid token w w' w.self recipient amount)
    (htoken : w.usdcToken = some token) (hr : recipient ≠ w.self) :
    w'.idle = w.idle - amount := by
  unfold World.idle
  rw [h.usdcToken, htoken]
  simp only [h.balance_out hr token, if_pos]

/-- Booking moves no funds. -/
theorem Accounting.idle (h : Accounting w w') : w'.idle = w.idle := by
  unfold World.idle
  rw [h.usdcToken, h.chain, h.self]

theorem Accounting.position (h : Accounting w w') : w'.position venue = w.position venue := by
  unfold World.position
  rw [h.deployment, h.chain, h.self]

end Payments

/-! ## Arithmetic -/

@[simp]
theorem ok_checkedAdd {x y z : Int} {m : String} :
    (checkedAdd x y m).Ok env w z w' ↔ (z = x + y ∧ i128.Fits (x + y)) ∧ w' = w := by
  simp [checkedAdd]

@[simp]
theorem ok_checkedSub {x y z : Int} {m : String} :
    (checkedSub x y m).Ok env w z w' ↔ (z = x - y ∧ i128.Fits (x - y)) ∧ w' = w := by
  simp [checkedSub]

@[simp]
theorem ok_checkedMul {x y z : Int} {m : String} :
    (checkedMul x y m).Ok env w z w' ↔ (z = x * y ∧ i128.Fits (x * y)) ∧ w' = w := by
  simp [checkedMul]

@[simp]
theorem ok_checkedDiv {x y z : Int} {m : String} :
    (checkedDiv x y m).Ok env w z w' ↔
      (y ≠ 0 ∧ z = x.tdiv y ∧ i128.Fits (x.tdiv y)) ∧ w' = w := by
  simp [checkedDiv]

@[simp]
theorem ok_nativeSub {x y z : Int} :
    (nativeSub x y).Ok env w z w' ↔ (z = x - y ∧ i128.Fits (x - y)) ∧ w' = w :=
  ok_checkedSub

/-- A conversion that returns, returns the quotient rounded down. -/
theorem ok_mulDivDown {t : ConversionTexts} {x n d z : Int} :
    (mulDivDown t x n d).Ok env w z w' ↔
      (i128.Fits (x * n) ∧ d ≠ 0 ∧ z = (x * n).tdiv d ∧ i128.Fits ((x * n).tdiv d)) ∧
        w' = w := by
  simp only [mulDivDown, Tx.ok_bind, ok_checkedMul, ok_checkedDiv, existsAndEq, and_assoc,
    true_and]

theorem mulDivUp_ok_iff {t : ConversionTexts} {x n d z : Int} :
    (mulDivUp t x n d).Ok env w z w' ↔
      (i128.Fits (x * n) ∧ i128.Fits (d - 1) ∧ i128.Fits (x * n + (d - 1)) ∧ d ≠ 0 ∧
        z = (x * n + (d - 1)).tdiv d ∧ i128.Fits ((x * n + (d - 1)).tdiv d)) ∧ w' = w := by
  simp only [mulDivUp, Tx.ok_bind, ok_checkedMul, ok_checkedSub, ok_checkedAdd, ok_checkedDiv,
    existsAndEq, and_assoc, true_and]

theorem ok_mulDivUp {t : ConversionTexts} {x n d z : Int}
    (h : (mulDivUp t x n d).Ok env w z w') : z = (x * n + (d - 1)).tdiv d ∧ w' = w := by
  obtain ⟨⟨-, -, -, -, hz, -⟩, hw⟩ := mulDivUp_ok_iff.mp h
  exact ⟨hz, hw⟩

/-! ## Conversions -/

section Conversions

variable {t : ConversionTexts} {S A x z : Int}

/-- The arithmetic of a conversion stays within the type. -/
def Convertible (x numerator denominator : Int) : Prop :=
  x ≠ 0 → numerator ≠ 0 → denominator ≠ 0 →
    i128.Fits (x * numerator) ∧ i128.Fits ((x * numerator).tdiv denominator)

theorem convertToSharesAt_ok_iff :
    (convertToSharesAt t S A x).Ok env w z w' ↔
      (z = Pool.sharesFor S A x ∧ Convertible x S A) ∧ w' = w := by
  unfold convertToSharesAt Pool.sharesFor Convertible
  by_cases hx : x = 0
  · simp [hx]
  by_cases hboot : S = 0 ∨ A = 0
  · rw [if_neg hx, if_pos hboot, if_neg hx, if_pos hboot, Tx.ok_pure]
    tauto
  · rw [if_neg hx, if_neg hboot, if_neg hx, if_neg hboot, ok_mulDivDown]
    have hS : S ≠ 0 := fun h => hboot (.inl h)
    have hA : A ≠ 0 := fun h => hboot (.inr h)
    tauto

theorem ok_convertToSharesAt (h : (convertToSharesAt t S A x).Ok env w z w') :
    z = Pool.sharesFor S A x ∧ w' = w := by
  obtain ⟨⟨hz, -⟩, hw⟩ := convertToSharesAt_ok_iff.mp h
  exact ⟨hz, hw⟩

theorem ok_convertToSharesCeilAt (h : (convertToSharesCeilAt t S A x).Ok env w z w') :
    z = Pool.sharesForUp S A x ∧ w' = w := by
  unfold convertToSharesCeilAt at h
  unfold Pool.sharesForUp
  split_ifs at h ⊢
  · exact Tx.ok_pure.mp h
  · exact Tx.ok_pure.mp h
  · exact ok_mulDivUp h

/-- Between positive totals only the largest sum on the way up has to stay within the type. -/
theorem convertToSharesCeilAt_ok_iff (hS : 0 < S) (hA : 0 < A) (hx : 0 < x) :
    (convertToSharesCeilAt t S A x).Ok env w z w' ↔
      (z = Pool.sharesForUp S A x ∧ i128.Fits (x * S + (A - 1))) ∧ w' = w := by
  have hproduct : 0 < x * S := mul_pos hx hS
  have hboot : ¬ (S = 0 ∨ A = 0) := by omega
  unfold convertToSharesCeilAt Pool.sharesForUp
  rw [if_neg hx.ne', if_neg hboot, if_neg hx.ne', if_neg hboot, mulDivUp_ok_iff]
  constructor
  · rintro ⟨⟨-, -, hsum, -, hz, -⟩, rfl⟩
    exact ⟨⟨hz, hsum⟩, rfl⟩
  · rintro ⟨⟨hz, hsum⟩, rfl⟩
    have hquotient : 0 ≤ (x * S + (A - 1)).tdiv A := Int.tdiv_nonneg (by omega) hA.le
    have hle : (x * S + (A - 1)).tdiv A ≤ x * S + (A - 1) := Int.tdiv_le_self _ (by omega)
    exact ⟨⟨fits_of_le hproduct.le (by omega) hsum, fits_of_le (by omega) (by omega) hsum, hsum,
      hA.ne', hz, fits_of_le hquotient hle hsum⟩, rfl⟩

theorem convertToAssetsAt_ok_iff :
    (convertToAssetsAt t S A x).Ok env w z w' ↔
      (z = Pool.assetsFor S A x ∧ Convertible x A S) ∧ w' = w := by
  unfold convertToAssetsAt Pool.assetsFor Convertible
  by_cases hx : x = 0
  · simp [hx]
  by_cases hboot : S = 0 ∨ A = 0
  · rw [if_neg hx, if_pos hboot, if_neg hx, if_pos hboot, Tx.ok_pure]
    tauto
  · rw [if_neg hx, if_neg hboot, if_neg hx, if_neg hboot, ok_mulDivDown]
    have hS : S ≠ 0 := fun h => hboot (.inl h)
    have hA : A ≠ 0 := fun h => hboot (.inr h)
    tauto

theorem ok_convertToAssetsAt (h : (convertToAssetsAt t S A x).Ok env w z w') :
    z = Pool.assetsFor S A x ∧ w' = w := by
  obtain ⟨⟨hz, -⟩, hw⟩ := convertToAssetsAt_ok_iff.mp h
  exact ⟨hz, hw⟩

theorem ok_convertToSharesInternal (h : (convertToSharesInternal x).Ok env w z w') :
    z = Pool.sharesFor w.book.totalShares w.book.assets x ∧ w' = w := by
  exact ok_convertToSharesAt h

theorem ok_convertToSharesInternalCeil (h : (convertToSharesInternalCeil x).Ok env w z w') :
    z = Pool.sharesForUp w.book.totalShares w.book.assets x ∧ w' = w := by
  exact ok_convertToSharesCeilAt h

theorem ok_convertToAssetsInternal (h : (convertToAssetsInternal x).Ok env w z w') :
    z = Pool.assetsFor w.book.totalShares w.book.assets x ∧ w' = w := by
  exact ok_convertToAssetsAt h

end Conversions

/-! ## Rate limits and caps -/

theorem quiet_enforceRateLimit {c : RateLimitCategory} {user : Option Address} :
    Keeps quiet (enforceRateLimit c user) :=
  .bind (.bind .require fun _ => .bind .get fun _ => .pure _) fun _ => .bind .get fun _ =>
    .ite (.pure _) (.bind .require fun _ =>
      .modify fun _ _ => ⟨rfl, rfl, rfl, rfl, rfl, rfl, rfl, rfl, rfl, id, rfl⟩)

/-- What a user's shares are worth to the deposit caps. -/
def World.exposure (w : World) (user : Address) : Int :=
  Pool.assetsFor w.book.totalShares w.book.assets (w.book.shares user)

theorem ok_requireWithinTvlCap {amount : Int} {u : Unit} :
    (requireWithinTvlCap amount).Ok env w u w' ↔
      (0 < w.limits.tvlCap →
        i128.Fits (w.book.assets + amount) ∧ w.book.assets + amount ≤ w.limits.tvlCap) ∧
        w' = w := by
  simp only [requireWithinTvlCap, Tx.ok_bind, Tx.ok_get, Tx.ok_ite, ok_getTotalAssetsInternal,
    ok_checkedAdd, Tx.ok_require, Tx.ok_pure, existsAndEq, and_assoc, true_and]
  tauto

theorem ok_requireWithinDepositCap {user : Address} {amount : Int} {u : Unit} :
    (requireWithinDepositCap user amount).Ok env w u w' ↔
      (0 < w.limits.userDepositCap →
        Convertible (w.book.shares user) w.book.assets w.book.totalShares ∧
          i128.Fits (w.exposure user + amount) ∧
          w.exposure user + amount ≤ w.limits.userDepositCap) ∧ w' = w := by
  simp only [requireWithinDepositCap, convertToAssetsInternal, convertToAssetsAt_ok_iff, Tx.ok_bind,
    Tx.ok_get, Tx.ok_ite, ok_readShares, ok_checkedAdd, Tx.ok_require, Tx.ok_pure, existsAndEq,
    and_assoc, true_and]
  unfold World.exposure
  tauto

theorem unchanged_convertToAssetsInternal {x : Int} :
    Keeps unchanged (convertToAssetsInternal x) :=
  fun _ _ _ _ h => (ok_convertToAssetsInternal h).2

theorem unchanged_requireWithinTvlCap {amount : Int} :
    Keeps unchanged (requireWithinTvlCap amount) :=
  fun _ _ _ _ h => (ok_requireWithinTvlCap.mp h).2

theorem unchanged_requireWithinDepositCap {user : Address} {amount : Int} :
    Keeps unchanged (requireWithinDepositCap user amount) :=
  fun _ _ _ _ h => (ok_requireWithinDepositCap.mp h).2

end NeuroWealth.Vault
