import NeuroWealth.Vault.Proofs.GuardsProofs

/-!
# What deposits do

A deposit is one transfer to the vault and one credit of the book; a batch is a sequence of
those.
-/

namespace NeuroWealth.Vault

open Transaction MachineInt SharePool

variable {env : Env} {w w' : World} {user : Address} {amount : Int}

/-! ## Storage steps -/

@[simp]
theorem ok_setTotalDeposits {x : Int} {u : Unit} :
    (setTotalDeposits x).Ok env w u w' ↔
      w' = { w with book := { w.book with totalDeposits := x } } := by
  simp only [setTotalDeposits, Tx.ok_bind, Tx.ok_get, ok_putBook, existsAndEq, true_and]

@[simp]
theorem ok_setUserShares {x : Int} {u : Unit} :
    (setUserShares user x).Ok env w u w' ↔ w' = { w with book := w.book.setShares user x } := by
  simp only [setUserShares, Tx.ok_bind, Tx.ok_get, ok_putBook, existsAndEq, true_and]

@[simp]
theorem ok_setTotalShares {x : Int} {u : Unit} :
    (setTotalShares x).Ok env w u w' ↔
      w' = { w with book := { w.book with totalShares := x } } := by
  simp only [setTotalShares, Tx.ok_bind, Tx.ok_get, ok_putBook, existsAndEq, true_and]

@[simp]
theorem ok_setTotalAssets {x : Int} {u : Unit} :
    (setTotalAssets x).Ok env w u w' ↔
      w' = { w with book := { w.book with totalAssets := some x } } := by
  simp only [setTotalAssets, Tx.ok_bind, Tx.ok_get, ok_putBook, existsAndEq, true_and]

@[simp]
theorem ok_recordDepositLedger {u : Unit} :
    (recordDepositLedger user).Ok env w u w' ↔
      w' = { w with holding := w.holding.recordDeposit user w.chain.sequence } := by
  simp only [recordDepositLedger, Tx.ok_bind, Tx.ok_get, ok_putHolding, existsAndEq, true_and]

/-! ## Crediting -/

/-- A credit of `amount` for `minted` shares, recorded at the current ledger. -/
structure Credit (w w' : World) (user : Address) (amount minted : Int) : Prop where
  accounting : Accounting w w'
  book : w'.book = w.book.credited user amount minted
  holding : w'.holding = w.holding.recordDeposit user w.chain.sequence
  fits : i128.Fits w'.book.totalShares

theorem quiet_addToUserIndex : Keeps quiet (addToUserIndex user) := quiet_modifyProfiles

theorem quiet_setDefaultStrategy : Keeps quiet (setDefaultStrategy user) :=
  .bind .get fun _ => .ite (.bind quiet_modifyProfiles fun _ => quiet_publish rfl) (.pure _)

theorem quiet_recordFirstDeposit {x y : Int} : Keeps quiet (recordFirstDeposit user x y) :=
  .bind quiet_addToUserIndex fun _ => .bind .get fun _ => .bind quiet_modifyProfiles fun _ =>
    quiet_setDefaultStrategy

theorem quiet_recordFirstBatchDeposit : Keeps quiet (recordFirstBatchDeposit user) :=
  .bind quiet_addToUserIndex fun _ => quiet_setDefaultStrategy

/-- The common end of both credits, after the user's shares and the principal were booked. -/
theorem Credit.of_steps {t1 t2 t3 t4 t5 : World} {minted : Int}
    (h1 : Quiet { w with book := { (w.book.setShares user (w.book.shares user + minted)) with
      totalDeposits := w.book.totalDeposits + amount } } t1)
    (h2 : t2 = { t1 with book := { t1.book with totalShares := t1.book.totalShares + minted } })
    (h3 : t3 = { t2 with book := { t2.book with totalAssets := some (t2.book.assets + amount) } })
    (h4 : t4 = { t3 with holding := t3.holding.recordDeposit user t3.chain.sequence })
    (h5 : Quiet t4 t5) (hfits : i128.Fits (t1.book.totalShares + minted)) :
    Credit w t5 user amount minted := by
  have hbook1 := h1.book
  have hholding : t4.holding = t1.holding.recordDeposit user t1.chain.sequence := by
    subst h4 h3 h2
    rfl
  have htotals : t4.book = ⟨t1.book.shares, t1.book.totalShares + minted,
      some (t1.book.assets + amount), t1.book.totalDeposits⟩ := by
    subst h4 h3 h2
    rfl
  have hbook : t4.book = w.book.credited user amount minted := by
    have hshares : (w.book.setShares user (w.book.shares user + minted)).shares =
        (w.book.credited user amount minted).shares := by
      funext u
      by_cases hu : u = user
      · simp [Book.setShares, Book.credited, hu]
      · simp [Book.setShares, Book.credited, hu]
    rw [htotals, hbook1]
    exact congrArg (fun s => Book.mk s _ _ _) hshares
  refine ⟨?_, h5.book.trans hbook, ?_, ?_⟩
  · subst h4 h3 h2
    exact ⟨h5.self.trans h1.self, h5.chain.trans h1.chain, h5.usdcToken.trans h1.usdcToken,
      h5.assets.trans h1.assets, h5.locks.trans h1.locks, h5.deployment.trans h1.deployment,
      h5.transfers.trans h1.transfers, fun h => h5.initialized (h1.initialized h),
      h5.legs.trans h1.legs⟩
  · rw [h5.holding, hholding, h1.holding, h1.chain]
  · rw [h5.book, hbook]
    rw [hbook1] at hfits
    exact hfits

/-- `deposit` mints at the price after its principal is booked. -/
theorem creditDeposit_ok {u : Unit} (h : (creditDeposit user amount).Ok env w u w') :
    ∃ minted, Credit w w' user amount minted ∧ 0 < minted ∧
      minted = Pool.sharesFor w.book.totalShares
        (w.book.totalAssets.getD (w.book.totalDeposits + amount)) amount := by
  simp only [creditDeposit, Tx.ok_bind, Tx.ok_get, Tx.ok_require, Tx.ok_onlyIf, ok_checkedAdd,
    ok_readShares, ok_getTotalSharesInternal, ok_getTotalAssetsInternal, existsAndEq,
    exists_const, and_assoc, true_and] at h
  obtain ⟨-, _, t0, h0, minted, t1, hconv, hpos, -, _, t2, hset, _, t3, hfirst, hfits, _, t4, hTS,
    -, _, t5, hTA, _, t6, hhold, hpub⟩ := h
  obtain ⟨hminted, rfl⟩ := ok_convertToSharesInternal hconv
  have h23 : Quiet t2 t3 := by
    rcases hfirst with ⟨-, hfirst⟩ | ⟨-, rfl⟩
    · exact quiet_recordFirstDeposit hfirst
    · exact quiet.refl env _
  rw [ok_setTotalDeposits.mp h0] at hminted hset
  rw [ok_setUserShares.mp hset] at h23
  exact ⟨minted, .of_steps h23 (ok_setTotalShares.mp hTS) (ok_setTotalAssets.mp hTA)
    (ok_recordDepositLedger.mp hhold) (quiet_publish rfl hpub) hfits, hpos, hminted⟩

/-- Besides the books a credit writes the records of a first deposit. -/
theorem creditDeposit_records {u : Unit} (h : (creditDeposit user amount).Ok env w u w') :
    ∃ minted s t,
      s = { w with
        book := Book.setShares { w.book with totalDeposits := w.book.totalDeposits + amount }
          user (w.book.shares user + minted) } ∧
      (Tx.onlyIf (w.book.shares user = 0)
        (recordFirstDeposit user (w.book.shares user + minted) amount)).Ok env s () t ∧
      w'.profiles = t.profiles ∧ w'.book.shares user = w.book.shares user + minted := by
  simp only [creditDeposit, Tx.ok_bind, Tx.ok_get, Tx.ok_require, ok_checkedAdd, ok_readShares,
    ok_getTotalSharesInternal, ok_getTotalAssetsInternal, ok_setUserShares, ok_setTotalDeposits,
    ok_setTotalShares, ok_setTotalAssets, ok_recordDepositLedger, ok_publish, existsAndEq,
    exists_const, and_assoc, true_and] at h
  obtain ⟨-, minted, _, hconv, -, -, _, t, hfirst, -, -, rfl⟩ := h
  obtain ⟨-, rfl⟩ := ok_convertToSharesInternal hconv
  have hquiet : Quiet _ t := (Keeps.onlyIf quiet_recordFirstDeposit : Keeps quiet _) hfirst
  refine ⟨minted, _, t, rfl, hfirst, rfl, ?_⟩
  show t.book.shares user = _
  rw [hquiet.book]
  exact if_pos rfl

/-- An entry of a batch mints at the price it finds. -/
theorem creditBatchItem_ok {item : BatchDepositItem} {minted : Int} {u : Unit}
    (h : (creditBatchItem item minted).Ok env w u w') :
    Credit w w' item.user item.amount minted := by
  simp only [creditBatchItem, Tx.ok_bind, Tx.ok_get, Tx.ok_onlyIf, ok_checkedAdd,
    ok_readShares, ok_getTotalSharesInternal, ok_getTotalAssetsInternal, existsAndEq,
    and_assoc, true_and] at h
  obtain ⟨-, _, t1, hset, _, t2, hfirst, -, _, t3, hTD, hfits, _, t4, hTS, -, _, t5, hTA, _, t6,
    hhold, hpub⟩ := h
  have h12 : Quiet t1 t2 := by
    rcases hfirst with ⟨-, hfirst⟩ | ⟨-, rfl⟩
    · exact quiet_recordFirstBatchDeposit hfirst
    · exact quiet.refl env _
  rw [ok_setUserShares.mp hset] at h12
  have hdeposits : t2.book.totalDeposits = w.book.totalDeposits := by rw [h12.book]; rfl
  have h23 : Quiet { w with book :=
      { (w.book.setShares item.user (w.book.shares item.user + minted)) with
        totalDeposits := w.book.totalDeposits + item.amount } } t3 := by
    rw [ok_setTotalDeposits.mp hTD]
    exact ⟨h12.self, h12.chain, h12.usdcToken, by rw [hdeposits, h12.book], h12.assets, h12.locks,
      h12.holding, h12.deployment, h12.transfers, h12.initialized, h12.legs⟩
  exact .of_steps h23 (ok_setTotalShares.mp hTS) (ok_setTotalAssets.mp hTA)
    (ok_recordDepositLedger.mp hhold) (quiet_publish rfl hpub) hfits

/-! ## Deposits -/

/-- `payer` hands over `amount` USDC, for which `user` is credited `minted` shares. -/
structure Deposited (w w' : World) (payer user : Address) (amount minted : Int) : Prop where
  positive : 0 < amount
  foreign : payer ≠ w.self
  nonzero : minted ≠ 0
  steps : ∃ token t, w.usdcToken = some token ∧ Paid token w t payer w.self amount ∧
    Credit t w' user amount minted
  price : ∀ A, w.book.totalAssets = some A →
    minted = Pool.sharesFor w.book.totalShares A amount

/-- The checks, the toll, the payment and the credit of `deposit`. -/
theorem deposit_parts {u : Unit} (h : (deposit user amount).Ok env w u w') :
    (w.Initialized ∧ user ≠ w.self ∧ w.breaker.paused = false ∧ 0 < amount) ∧
      ∃ token t t', (enforceUserRateLimit user .deposit).Ok env w () t ∧
        t.usdcToken = some token ∧ (transfer token user t.self amount).Ok env t () t' ∧
        (creditDeposit user amount).Ok env t' u w' := by
  simp only [deposit, Tx.ok_bind, Tx.ok_get, ok_requireInitialized, ok_requireAuth,
    ok_requireNotPaused, ok_requirePositiveAmount, requireMinimumDeposit, requireMaximumDeposit,
    Tx.ok_require, ok_getUsdcToken, existsAndEq, exists_const, and_assoc, true_and] at h
  obtain ⟨hinit, -, hself, hlive, hpos, -, -, _, t1, hcap, _, t2, htvl, _, t, htoll, token,
    htoken, _, t', htransfer, hcredit⟩ := h
  obtain rfl : t1 = w := unchanged_requireWithinDepositCap hcap
  obtain rfl : t2 = t1 := unchanged_requireWithinTvlCap htvl
  exact ⟨⟨hinit, hself, hlive, hpos⟩, token, t, t', htoll, htoken, htransfer, hcredit⟩

/-- `deposit` is one deposit by the user. -/
theorem deposit_ok {u : Unit} (h : (deposit user amount).Ok env w u w') :
    ∃ t minted, Quiet w t ∧ Deposited t w' user user amount minted ∧ 0 < minted ∧
      w.Initialized ∧ w.breaker.paused = false := by
  obtain ⟨⟨hinit, hself, hlive, hpos⟩, token, t, t', htoll, htoken, htransfer, hcredit⟩ :=
    deposit_parts h
  have hquiet : Quiet w t := quiet_enforceRateLimit htoll
  have hpaid := transfer_ok htransfer
  obtain ⟨minted, hc, hmint, hminted⟩ := creditDeposit_ok hcredit
  refine ⟨t, minted, hquiet, ⟨hpos, ?_, hmint.ne', ⟨token, t', htoken, hpaid, hc⟩, ?_⟩, hmint,
    hinit, hlive⟩
  · rw [hquiet.self]
    exact hself
  · intro A hA
    rw [hminted, hpaid.book, hA]
    rfl

/-- `deposit` is within both caps, as priced before it. -/
theorem deposit_capped {u : Unit} (h : (deposit user amount).Ok env w u w') :
    (0 < w.limits.userDepositCap → w.exposure user + amount ≤ w.limits.userDepositCap) ∧
      (0 < w.limits.tvlCap → w.book.assets + amount ≤ w.limits.tvlCap) := by
  simp only [deposit, Tx.ok_bind, ok_requireInitialized, ok_requireAuth, ok_requireNotPaused,
    ok_requirePositiveAmount, requireMinimumDeposit, requireMaximumDeposit, Tx.ok_get,
    Tx.ok_require, ok_requireWithinDepositCap, ok_requireWithinTvlCap, existsAndEq, exists_const,
    and_assoc, true_and] at h
  obtain ⟨-, -, -, -, -, -, -, hcap, htvl, -⟩ := h
  exact ⟨fun hon => (hcap hon).2.2, fun hon => (htvl hon).2⟩

/-! ## Batches -/

/-- A batch is a sequence of deposits paid by the agent, who gets back what buys no share. -/
inductive BatchRun (agent : Address) : World → World → Prop
  | quiet {w w' : World} (h : Quiet w w') : BatchRun agent w w'
  | deposited {w w' : World} {user : Address} {amount minted : Int}
      (h : Deposited w w' agent user amount minted) : BatchRun agent w w'
  | returned {w t w' : World} {token : Address} {amount : Int} (hself : agent ≠ w.self)
      (htoken : w.usdcToken = some token) (h1 : Paid token w t agent w.self amount)
      (h2 : Paid token t w' t.self agent amount) : BatchRun agent w w'
  | trans {w t w' : World} (h1 : BatchRun agent w t) (h2 : BatchRun agent t w') :
      BatchRun agent w w'

/-- The entry is within the deposit bounds and the cap of its user. -/
def World.AdmitsEntry (w : World) (item : BatchDepositItem) : Prop :=
  (0 < item.amount ∧ w.limits.minDeposit ≤ item.amount ∧ item.amount ≤ w.limits.maxDeposit) ∧
    (0 < w.limits.userDepositCap →
      i128.saturatingAdd (w.exposure item.user) item.amount ≤ w.limits.userDepositCap)

instance (w : World) (item : BatchDepositItem) : Decidable (w.AdmitsEntry item) :=
  inferInstanceAs (Decidable (_ ∧ _))

theorem batchItemValid_ok_iff {item : BatchDepositItem} {b : Bool} :
    (batchItemValid item).Ok env w b w' ↔
      (b = decide (w.AdmitsEntry item) ∧
        (0 < item.amount ∧ w.limits.minDeposit ≤ item.amount ∧
          item.amount ≤ w.limits.maxDeposit → 0 < w.limits.userDepositCap →
          Convertible (w.book.shares item.user) w.book.assets w.book.totalShares)) ∧ w' = w := by
  simp only [batchItemValid, convertToAssetsInternal, Tx.ok_bind, Tx.ok_get, existsAndEq, true_and]
  unfold World.AdmitsEntry World.exposure
  by_cases hbounds : 0 < item.amount ∧ w.limits.minDeposit ≤ item.amount ∧
      item.amount ≤ w.limits.maxDeposit
  · rw [if_pos hbounds]
    by_cases hcap : 0 < w.limits.userDepositCap
    · rw [if_pos hcap]
      simp only [Tx.ok_bind, ok_readShares, convertToAssetsAt_ok_iff, Tx.ok_get, Tx.ok_pure,
        existsAndEq, and_assoc, true_and, hbounds, hcap, true_implies]
      tauto
    · rw [if_neg hcap, Tx.ok_pure]
      simp only [hbounds, hcap, false_implies, implies_true, and_true, decide_true]
  · rw [if_neg hbounds, Tx.ok_pure]
    simp only [hbounds, false_and, decide_false, false_implies, and_true]

theorem batchItemValid_ok {item : BatchDepositItem} {b : Bool}
    (h : (batchItemValid item).Ok env w b w') : b = decide (w.AdmitsEntry item) ∧ w' = w := by
  obtain ⟨⟨hb, -⟩, hw⟩ := batchItemValid_ok_iff.mp h
  exact ⟨hb, hw⟩

/-- What the effects pass does with an entry: it skips it, hands back what would mint nothing, or
    credits it. -/
inductive EntryStep (env : Env) (agent : Address) (item : BatchDepositItem) (w w' : World) : Prop
  | skipped (hrejects : ¬ w.AdmitsEntry item) (heq : w' = w)
  | returned {token : Address} {t : World} (hvalid : (batchItemValid item).Ok env w true w)
      (htoken : w.usdcToken = some token)
      (h1 : (transfer token agent w.self item.amount).Ok env w () t)
      (hzero : Pool.sharesFor w.book.totalShares w.book.assets item.amount = 0)
      (h2 : (transfer token w.self agent item.amount).Ok env t () w')
  | credited {token : Address} {t : World} {minted : Int}
      (hvalid : (batchItemValid item).Ok env w true w) (htoken : w.usdcToken = some token)
      (h1 : (transfer token agent w.self item.amount).Ok env w () t)
      (hminted : minted = Pool.sharesFor w.book.totalShares w.book.assets item.amount)
      (hconv : Convertible item.amount w.book.totalShares w.book.assets) (hne : minted ≠ 0)
      (h2 : (creditBatchItem item minted).Ok env t () w')

theorem depositBatchItem_ok {agent : Address} {item : BatchDepositItem} {u : Unit}
    (h : (depositBatchItem agent item).Ok env w u w') : EntryStep env agent item w w' := by
  simp only [depositBatchItem, Tx.ok_bind, Tx.ok_onlyIf] at h
  obtain ⟨b, t, hvalid, hfill⟩ := h
  obtain ⟨hb, rfl⟩ := batchItemValid_ok hvalid
  rcases hfill with ⟨rfl, hfill⟩ | ⟨hfalse, rfl⟩
  · simp only [fillBatchItem, convertToSharesInternal, convertToSharesAt_ok_iff, Tx.ok_bind,
      Tx.ok_get, ok_getUsdcToken, Tx.ok_ite, existsAndEq, and_assoc, true_and] at hfill
    obtain ⟨token, htoken, _, t1, hin, hconv, hfill⟩ := hfill
    have hbook : t1.book = t.book := (transfer_ok hin).book
    rw [hbook] at hconv hfill
    rcases hfill with ⟨hzero, hout⟩ | ⟨hne, hcredit⟩
    · exact .returned hvalid htoken hin hzero hout
    · exact .credited hvalid htoken hin rfl hconv hne hcredit
  · refine .skipped (fun hadmits => hfalse ?_) rfl
    rw [hb]
    exact decide_eq_true hadmits

/-- A valid entry is admitted. -/
theorem admitsEntry_of_valid {item : BatchDepositItem}
    (h : (batchItemValid item).Ok env w true w) : w.AdmitsEntry item :=
  of_decide_eq_true (batchItemValid_ok h).1.symm

theorem EntryStep.batchRun {agent : Address} {item : BatchDepositItem} (hself : agent ≠ w.self)
    (h : EntryStep env agent item w w') : BatchRun agent w w' := by
  cases h with
  | skipped _ heq => exact .quiet (heq ▸ quiet.refl env w)
  | returned hvalid htoken h1 _ h2 =>
    have hpaid := transfer_ok h1
    rw [← hpaid.self] at h2
    exact .returned hself htoken hpaid (transfer_ok h2)
  | credited hvalid htoken h1 hminted _ hne h2 =>
    refine .deposited ⟨(admitsEntry_of_valid hvalid).1.1, hself, hne,
      ⟨_, _, htoken, transfer_ok h1, creditBatchItem_ok h2⟩, ?_⟩
    intro A hA
    rw [hminted]
    unfold Book.assets
    rw [hA]
    rfl

theorem BatchRun.self {agent : Address} (h : BatchRun agent w w') : w'.self = w.self := by
  induction h with
  | quiet h => exact h.self
  | deposited h =>
    obtain ⟨token, t, -, hpaid, hcredit⟩ := h.steps
    rw [hcredit.accounting.self, hpaid.self]
  | returned _ _ h1 h2 => rw [h2.self, h1.self]
  | trans _ _ ih1 ih2 => rw [ih2, ih1]

/-- Deposits leave the positions alone. -/
theorem Deposited.position {payer : Address} {minted : Int} {v : Venue}
    (h : Deposited w w' payer user amount minted) : w'.position v = w.position v := by
  obtain ⟨token, t, -, hpaid, hcredit⟩ := h.steps
  rw [hcredit.accounting.position, hpaid.position]

theorem BatchRun.position {agent : Address} {v : Venue} (h : BatchRun agent w w') :
    w'.position v = w.position v := by
  induction h with
  | quiet h => exact h.accounting.position
  | deposited h => exact h.position
  | returned _ _ h1 h2 => rw [h2.position, h1.position]
  | trans _ _ ih1 ih2 => rw [ih2, ih1]

/-- The effects pass, by induction on the entries. -/
theorem depositBatch_ok {agent : Address} {entries : List BatchDepositItem} {u : Unit}
    (hself : agent ≠ w.self) (h : (Tx.each (depositBatchItem agent) entries).Ok env w u w') :
    BatchRun agent w w' := by
  induction entries generalizing w with
  | nil =>
    obtain rfl := Tx.ok_each_nil.mp h
    exact .quiet (quiet.refl env _)
  | cons item rest ih =>
    obtain ⟨t, hitem, hrest⟩ := Tx.ok_each_cons.mp h
    have hfirst : BatchRun agent w t := (depositBatchItem_ok hitem).batchRun hself
    have hself' : agent ≠ t.self := by rwa [hfirst.self]
    exact hfirst.trans (ih hself' hrest)

theorem unchanged_tallyBatch {entries : List BatchDepositItem} {tally : BatchTally} :
    Keeps unchanged (tallyBatch entries tally) := by
  induction entries generalizing tally with
  | nil => exact .pure _
  | cons item rest ih =>
    refine .bind (fun _ _ _ _ h => (batchItemValid_ok h).2) fun ok => ?_
    exact .ite (.bind .expect fun _ => ih) ih

/-- The toll, the entries and the report of `batch_deposit`. -/
theorem batchDeposit_parts {agent : Address} {entries : List BatchDepositItem} {u : Unit}
    (h : (batchDeposit agent entries).Ok env w u w') :
    agent ≠ w.self ∧ ∃ t t', ∃ tally : BatchTally,
      (enforceUserRateLimit agent .batchDeposit).Ok env w () t ∧
      (Tx.each (depositBatchItem agent) entries).Ok env t () t' ∧
      (publish (.batchDeposited agent tally.validCount tally.totalValidAmount
        tally.skipCount)).Ok env t' u w' := by
  simp only [batchDeposit, Tx.ok_bind, ok_requireInitialized, ok_requireAuth, ok_requireNotPaused,
    ok_getUsdcToken, existsAndEq, exists_const, and_assoc, true_and] at h
  obtain ⟨-, -, hself, -, _, t1, hagent, _, t2, hsize, _, t3, htoll, token, -, tally, t4, htally, _,
    t5, hcap, _, t6, heach, hpub⟩ := h
  obtain rfl : t1 = w := unchanged_requireIsAgent hagent
  obtain rfl : t2 = t1 := (Keeps.bind .get fun _ => .require : Keeps unchanged _) hsize
  obtain rfl : t4 = t3 := unchanged_tallyBatch htally
  obtain rfl : t5 = t4 := (Keeps.onlyIf unchanged_requireWithinTvlCap : Keeps unchanged _) hcap
  exact ⟨hself, t5, t6, tally, htoll, heach, hpub⟩

/-- `batch_deposit` is one batch paid by the agent. -/
theorem batchDeposit_ok {agent : Address} {entries : List BatchDepositItem} {u : Unit}
    (h : (batchDeposit agent entries).Ok env w u w') : BatchRun agent w w' := by
  obtain ⟨hself, t, t', tally, htoll, heach, hpub⟩ := batchDeposit_parts h
  have hquiet : Quiet w t := quiet_enforceRateLimit htoll
  have hself' : agent ≠ t.self := by rwa [hquiet.self]
  exact ((BatchRun.quiet hquiet).trans (depositBatch_ok hself' heach)).trans
    (.quiet (quiet_publish rfl hpub))

end NeuroWealth.Vault
