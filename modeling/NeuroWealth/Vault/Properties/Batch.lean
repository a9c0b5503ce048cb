import NeuroWealth.Vault.Proofs.BatchesProofs

/-!
# A batch is a sequence of deposits

`batch_deposit` judges its entries twice and books them with its own code. On a well-formed vault
it leaves what single deposits of the entries leave, each judged by `deposit`'s own checks.
-/

namespace NeuroWealth.Vault

open Transaction MachineInt SharePool

variable {env : Env} {w w0 w' t t' : World} {agent payer user : Address} {item : BatchDepositItem}
  {entries pre rest : List BatchDepositItem} {amount minted budget : Int}

/-! ## Single deposits -/

/-- What `deposit` checks and books of an amount, whoever pays it. -/
def depositFrom (payer user : Address) (amount : Int) : Contract Unit := do
  requirePositiveAmount amount
  requireMinimumDeposit amount
  requireMaximumDeposit amount
  requireWithinDepositCap user amount
  requireWithinTvlCap amount
  let usdcToken ← getUsdcToken
  let w ← get
  transfer usdcToken payer w.self amount
  creditDeposit user amount

/-- The single deposits of a list, one after the other; a rejected one changes nothing. -/
def World.depositedFrom (w : World) (env : Env) (payer : Address)
    (entries : List BatchDepositItem) : World :=
  entries.foldl (fun t item => (depositFrom payer item.user item.amount).commit env t) w

theorem ok_depositFrom {u : Unit} :
    (depositFrom payer user amount).Ok env w u w' ↔
      0 < amount ∧ w.limits.minDeposit ≤ amount ∧ amount ≤ w.limits.maxDeposit ∧
      (requireWithinDepositCap user amount).Ok env w () w ∧
      (requireWithinTvlCap amount).Ok env w () w ∧
      ∃ token, w.usdcToken = some token ∧
        (0 ≤ amount ∧ amount ≤ w.chain.balances token payer) ∧
        (creditDeposit user amount).Ok env (w.paying token payer w.self amount) u w' := by
  simp only [depositFrom, Tx.ok_bind, Tx.ok_get, ok_requirePositiveAmount, requireMinimumDeposit,
    requireMaximumDeposit, Tx.ok_require, ok_requireWithinDepositCap, ok_requireWithinTvlCap,
    ok_getUsdcToken, ok_transfer, existsAndEq, exists_const, and_assoc, true_and, and_true]

/-- A call of `deposit` is its access checks, its toll, and a deposit paid by the user. -/
theorem deposit_iff :
    (deposit user amount).Ok env w () w' ↔
      w.Initialized ∧ (user ∈ env.auths ∧ user ≠ w.self) ∧ w.breaker.paused = false ∧
      ∃ t, (enforceUserRateLimit user .deposit).Ok env w () t ∧
        (depositFrom user user amount).Ok env t () w' := by
  simp only [deposit, Tx.ok_bind, Tx.ok_get, ok_requireInitialized, ok_requireAuth,
    ok_requireNotPaused, ok_requirePositiveAmount, requireMinimumDeposit, requireMaximumDeposit,
    Tx.ok_require, ok_requireWithinDepositCap, ok_requireWithinTvlCap, ok_getUsdcToken,
    ok_transfer, existsAndEq, exists_const, and_assoc, true_and, ok_depositFrom, and_true]
  constructor
  · rintro ⟨hi, hauth, hself, hlive, hpos, hmin, hmax, hcap, htvl, _, t, htoll, h⟩
    have ht : t = { w with buckets := t.buckets } := tollOnly_enforceRateLimit htoll
    refine ⟨hi, hauth, hself, hlive, t, htoll, hpos, ?_, ?_, ?_, ?_, h⟩
    all_goals
      rw [ht]
      assumption
  · rintro ⟨hi, hauth, hself, hlive, t, htoll, hpos, hmin, hmax, hcap, htvl, h⟩
    have ht : t = { w with buckets := t.buckets } := tollOnly_enforceRateLimit htoll
    rw [ht] at hmin hmax hcap htvl
    exact ⟨hi, hauth, hself, hlive, hpos, hmin, hmax, hcap, htvl, (), t, htoll, h⟩

/-! ## Booking one deposit -/

/-- The index of holders after a credit to one who held `shares`. -/
def Profiles.indexAfter (p : Profiles) (user : Address) (shares : Int) : List Address :=
  if shares = 0 ∧ user ∉ p.userSharesIndex then p.userSharesIndex ++ [user] else p.userSharesIndex

theorem index_setDefaultStrategy {u : Unit} (h : (setDefaultStrategy user).Ok env w u w') :
    w'.profiles.userSharesIndex = w.profiles.userSharesIndex := by
  simp only [setDefaultStrategy, modifyProfiles, Tx.ok_bind, Tx.ok_get, Tx.ok_ite, Tx.ok_modify,
    ok_publish, Tx.ok_pure, existsAndEq, exists_const, true_and] at h
  rcases h with ⟨-, rfl⟩ | ⟨-, rfl⟩
  · rfl
  · rfl

theorem index_addToUserIndex {u : Unit} (h : (addToUserIndex user).Ok env w u w') :
    w'.profiles.userSharesIndex = w.profiles.indexAfter user 0 := by
  obtain rfl := Tx.ok_modify.mp h
  unfold Profiles.indexAfter
  by_cases hmem : user ∈ w.profiles.userSharesIndex
  · simp [hmem]
  · simp [hmem]

theorem index_of_first {u : Unit} {c : Contract Unit} (hc : ∀ s s' : World, c.Ok env s u s' →
      s'.profiles.userSharesIndex = s.profiles.indexAfter user 0)
    (h : (Tx.onlyIf (amount = 0) c).Ok env w u w') :
    w'.profiles.userSharesIndex = w.profiles.indexAfter user amount := by
  rcases Tx.ok_onlyIf.mp h with ⟨rfl, h⟩ | ⟨hne, rfl⟩
  · exact hc w w' h
  · unfold Profiles.indexAfter
    rw [if_neg fun hzero => hne hzero.1]

theorem index_recordFirstBatchDeposit {u : Unit}
    (h : (recordFirstBatchDeposit user).Ok env w u w') :
    w'.profiles.userSharesIndex = w.profiles.indexAfter user 0 := by
  obtain ⟨_, t, hadd, hstrategy⟩ := Tx.ok_bind.mp h
  rw [index_setDefaultStrategy hstrategy, index_addToUserIndex hadd]

theorem index_recordFirstDeposit {x y : Int} {u : Unit}
    (h : (recordFirstDeposit user x y).Ok env w u w') :
    w'.profiles.userSharesIndex = w.profiles.indexAfter user 0 := by
  simp only [recordFirstDeposit, modifyProfiles, Tx.ok_bind, Tx.ok_get, Tx.ok_modify, existsAndEq,
    exists_const, true_and] at h
  obtain ⟨_, t, hadd, hstrategy⟩ := h
  rw [index_setDefaultStrategy hstrategy, ← index_addToUserIndex hadd]
  rfl

/-- Every sum of the credit is within the type. -/
structure Book.Takes (b : Book) (user : Address) (amount minted : Int) : Prop where
  shares : i128.Fits (b.shares user + minted)
  supply : i128.Fits (b.totalShares + minted)
  deposits : i128.Fits (b.totalDeposits + amount)
  assets : i128.Fits (b.totalAssets.getD (b.totalDeposits + amount) + amount)

theorem creditBatchItem_index {u : Unit} (h : (creditBatchItem item minted).Ok env w u w') :
    w'.profiles.userSharesIndex = w.profiles.indexAfter item.user (w.book.shares item.user) ∧
      w.book.Takes item.user item.amount minted := by
  simp only [creditBatchItem, Tx.ok_bind, Tx.ok_get, ok_checkedAdd, ok_readShares,
    ok_getTotalSharesInternal, ok_getTotalAssetsInternal, ok_setUserShares, ok_setTotalDeposits,
    ok_setTotalShares, ok_setTotalAssets, ok_recordDepositLedger, ok_publish, existsAndEq,
    exists_const, and_assoc, true_and] at h
  obtain ⟨hshares, _, t, hfirst, hdeposits, hsupply, hassets, rfl⟩ := h
  have hq := (Keeps.onlyIf quiet_recordFirstBatchDeposit : Keeps quiet _) hfirst
  have hbook : t.book = w.book.setShares item.user (w.book.shares item.user + minted) := hq.book
  rw [hbook] at hdeposits hsupply hassets
  have hindex := index_of_first (fun _ _ => index_recordFirstBatchDeposit) hfirst
  exact ⟨hindex, hshares, hsupply, hdeposits, hassets⟩

theorem creditDeposit_index {u : Unit} (h : (creditDeposit user amount).Ok env w u w') :
    w'.profiles.userSharesIndex = w.profiles.indexAfter user (w.book.shares user) := by
  obtain ⟨minted, _, t, rfl, hfirst, hprofiles, -⟩ := creditDeposit_records h
  have hindex := index_of_first (fun _ _ => index_recordFirstDeposit) hfirst
  rw [hprofiles]
  exact hindex

theorem total_setDefaultStrategy : Total (setDefaultStrategy user) :=
  .bind .get fun _ => .ite (.bind .modify fun _ => .modify) (.pure _)

theorem total_recordFirstDeposit {x y : Int} : Total (recordFirstDeposit user x y) :=
  .bind .modify fun _ => .bind .get fun _ => .bind .modify fun _ => total_setDefaultStrategy

/-- A deposit whose sums and price are within the type is booked. -/
theorem creditDeposit_succeeds {A : Int} (hA : w.book.totalAssets = some A)
    (hconv : Convertible amount w.book.totalShares A)
    (hminted : minted = Pool.sharesFor w.book.totalShares A amount) (hpos : 0 < minted)
    (h : w.book.Takes user amount minted) : ∃ w', (creditDeposit user amount).Ok env w () w' := by
  have hassets : ∀ s S D, (Book.mk s S w.book.totalAssets D).assets = A := by
    intro s S D
    unfold Book.assets
    rw [hA]
    rfl
  have hfits := h.assets
  rw [hA] at hfits
  simp only [creditDeposit, convertToSharesInternal, convertToSharesAt_ok_iff, Tx.ok_bind,
    Tx.ok_get, Tx.ok_require, ok_checkedAdd, ok_readShares, ok_getTotalSharesInternal,
    ok_getTotalAssetsInternal, ok_setUserShares, ok_setTotalDeposits, ok_setTotalShares,
    ok_setTotalAssets, ok_recordDepositLedger, ok_publish, existsAndEq, exists_const, and_assoc,
    true_and, hassets, ← hminted]
  let booked := Book.setShares { w.book with totalDeposits := w.book.totalDeposits + amount } user
    (w.book.shares user + minted)
  have hrecord : Total (Tx.onlyIf (w.book.shares user = 0)
      (recordFirstDeposit user (w.book.shares user + minted) amount) : Contract Unit) :=
    .onlyIf total_recordFirstDeposit
  obtain ⟨_, s, hrecord⟩ := hrecord env { w with book := booked }
  have hq := (Keeps.onlyIf quiet_recordFirstDeposit : Keeps quiet _) hrecord
  have hbook : s.book = booked := hq.book
  refine ⟨(), s, h.deposits, hconv, hpos, h.shares, hrecord, ?_, ?_, trivial⟩
  · rw [hbook]
    exact h.supply
  · rw [hbook]
    show i128.Fits (Book.assets ⟨_, _, w.book.totalAssets, _⟩ + amount)
    rw [hassets]
    exact hfits

/-! ## One entry of each -/

/-- The fields both ways of depositing read and write. -/
structure Mirrors (w t : World) : Prop where
  self : t.self = w.self
  usdcToken : t.usdcToken = w.usdcToken
  limits : t.limits = w.limits
  sequence : t.chain.sequence = w.chain.sequence
  balances : t.chain.balances = w.chain.balances
  book : t.book = w.book
  holding : t.holding = w.holding
  index : t.profiles.userSharesIndex = w.profiles.userSharesIndex

theorem move_congr {c d : Chain} {token a b : Address} {x : Int} (h : c.balances = d.balances) :
    (c.move token a b x).balances = (d.move token a b x).balances := by
  simp only [Chain.move, Chain.setBalance, h]

theorem move_back {c : Chain} {token a b : Address} {x : Int} (hne : a ≠ b) :
    ((c.move token a b x).move token b a x).balances = c.balances := by
  funext s v
  simp only [Chain.move, Chain.setBalance]
  by_cases ha : s = token ∧ v = a
  · obtain ⟨rfl, rfl⟩ := ha
    simp [hne]
  · by_cases hb : s = token ∧ v = b
    · obtain ⟨rfl, rfl⟩ := hb
      simp [hne.symm]
    · simp [ha, hb]

theorem Mirrors.exposure (h : Mirrors w t) : t.exposure user = w.exposure user := by
  unfold World.exposure
  rw [h.book]

/-- A single deposit asks for everything the batch asks of an entry. -/
theorem Mirrors.admits (h : Mirrors w t)
    (hok : (depositFrom payer item.user item.amount).Ok env t () t') : w.AdmitsEntry item := by
  obtain ⟨hpos, hmin, hmax, hcap, -⟩ := ok_depositFrom.mp hok
  obtain ⟨hcap, -⟩ := ok_requireWithinDepositCap.mp hcap
  rw [h.limits] at hmin hmax hcap
  rw [h.exposure] at hcap
  refine ⟨⟨hpos, hmin, hmax⟩, fun hon => ?_⟩
  obtain ⟨-, hfits, hle⟩ := hcap hon
  unfold Format.saturatingAdd
  rwa [saturate_of_fits hfits]

/-- A single deposit mints something. -/
theorem Mirrors.mints (h : Mirrors w t) (hb : w.book.Regular)
    (hok : (depositFrom payer user amount).Ok env t () t') :
    0 < Pool.sharesFor w.book.totalShares w.book.assets amount := by
  obtain ⟨-, -, -, -, -, token, -, -, hcredit⟩ := ok_depositFrom.mp hok
  obtain ⟨minted, -, hpos, hminted⟩ := creditDeposit_ok hcredit
  change minted = Pool.sharesFor t.book.totalShares (t.book.totalAssets.getD _) amount at hminted
  rw [h.book, hb.stored] at hminted
  rwa [hminted] at hpos

theorem crediting_creditDeposit : Keeps crediting (creditDeposit user amount) :=
  .bind .get fun _ => .bind .expect fun _ => .bind (.bind .get fun _ => crediting_putBook) fun _ =>
    .bind (fun _ _ _ _ h => by rw [(ok_convertToSharesInternal h).2]; exact crediting.refl _ _)
    fun _ => .bind .require fun _ => .bind (.bind .get fun _ => .pure _) fun _ =>
    .bind .expect fun _ => .bind (.bind .get fun _ => crediting_putBook) fun _ =>
    .bind (.onlyIf (.bind crediting_modifyProfiles fun _ => .bind .get fun _ =>
      .bind crediting_modifyProfiles fun _ => crediting_setDefaultStrategy)) fun _ =>
    .bind (.bind .get fun _ => .pure _) fun _ => .bind .expect fun _ =>
    .bind (.bind .get fun _ => crediting_putBook) fun _ =>
    .bind (.bind .get fun _ => .pure _) fun _ => .bind .expect fun _ =>
    .bind (.bind .get fun _ => crediting_putBook) fun _ =>
    .bind crediting_recordDepositLedger fun _ => crediting_publish

/-- An admitted entry is within the deposit cap, as `deposit` checks it. -/
theorem Mirrors.withinCap (h : Mirrors w t) (hb : w.book.Regular)
    (hvalid : (batchItemValid item).Ok env w true w)
    (hfits : i128.Fits (w.book.assets + item.amount)) :
    (requireWithinDepositCap item.user item.amount).Ok env t () t := by
  obtain ⟨⟨-, hconv⟩, -⟩ := batchItemValid_ok_iff.mp hvalid
  obtain ⟨hbounds, hcap⟩ := admitsEntry_of_valid hvalid
  have hS := hb.conserved.supply_nonneg
  have hs := hb.conserved.nonneg item.user
  have hlow : 0 ≤ w.exposure item.user := Pool.assetsFor_nonneg hS hb.assets_nonneg hs
  have hhigh : w.exposure item.user ≤ w.book.assets :=
    Pool.assetsFor_le hS hb.assets_nonneg hs (hb.conserved.shares_le item.user)
  have hpos := hbounds.1
  have hsum : i128.Fits (w.exposure item.user + item.amount) :=
    fits_of_le (by omega) (by omega) hfits
  unfold Format.saturatingAdd at hcap
  rw [saturate_of_fits hsum] at hcap
  refine ok_requireWithinDepositCap.mpr ⟨?_, rfl⟩
  rw [h.limits, h.book, h.exposure]
  intro hon
  exact ⟨hconv hbounds hon, hsum, hcap hon⟩

/-- An entry the batch credits is a deposit that succeeds, with the same outcome. -/
theorem Mirrors.credited {token : Address} (h : Mirrors w t) (hb : w.book.Regular)
    (hroom : 0 < w.limits.tvlCap → w.book.assets + item.amount ≤ w.limits.tvlCap)
    (hvalid : (batchItemValid item).Ok env w true w) (htoken : w.usdcToken = some token)
    (h1 : (transfer token agent w.self item.amount).Ok env w () t')
    (hminted : minted = Pool.sharesFor w.book.totalShares w.book.assets item.amount)
    (hconv : Convertible item.amount w.book.totalShares w.book.assets) (hne : minted ≠ 0)
    (h2 : (creditBatchItem item minted).Ok env t' () w') :
    ∃ s, (depositFrom agent item.user item.amount).Ok env t () s ∧ Mirrors w' s := by
  obtain ⟨⟨hpos, hmin, hmax⟩, -⟩ := admitsEntry_of_valid hvalid
  obtain ⟨hfunds, rfl⟩ := ok_transfer.mp h1
  obtain ⟨hindex, htakes⟩ := creditBatchItem_index h2
  have hcredit := creditBatchItem_ok h2
  have hframe := crediting_creditBatchItem h2
  have hnonneg := hb.sharesFor_nonneg hpos.le
  have hassets : i128.Fits (w.book.assets + item.amount) := by
    have hfits := htakes.assets
    change i128.Fits (w.book.totalAssets.getD _ + item.amount) at hfits
    rwa [hb.stored] at hfits
  obtain ⟨s, hs⟩ : ∃ s, (creditDeposit item.user item.amount).Ok env
      (t.paying token agent t.self item.amount) () s := by
    refine creditDeposit_succeeds (A := w.book.assets) ?_ ?_ (?_ : minted = _) ?_ ?_
    · show t.book.totalAssets = _
      rw [h.book, hb.stored]
    · show Convertible item.amount t.book.totalShares _
      rwa [h.book]
    · show minted = Pool.sharesFor t.book.totalShares _ _
      rwa [h.book]
    · omega
    · show t.book.Takes _ _ _
      rwa [h.book]
  refine ⟨s, ?_, ?_⟩
  · apply ok_depositFrom.mpr
    rw [h.limits, h.usdcToken, h.balances]
    refine ⟨hpos, hmin, hmax, h.withinCap hb hvalid hassets, ?_, token, htoken, hfunds, hs⟩
    refine ok_requireWithinTvlCap.mpr ⟨?_, rfl⟩
    rw [h.limits, h.book]
    exact fun hon => ⟨hassets, hroom hon⟩
  · obtain ⟨minted', hcredit', -, hminted'⟩ := creditDeposit_ok hs
    have hsame : minted' = minted := by
      rw [hminted', hminted]
      show Pool.sharesFor t.book.totalShares (t.book.totalAssets.getD _) _ = _
      rw [h.book, hb.stored]
      rfl
    have hframe' := crediting_creditDeposit hs
    have hindex' := creditDeposit_index hs
    subst hsame
    constructor
    · rw [hframe'.self, hframe.self]
      exact h.self
    · rw [hframe'.usdcToken, hframe.usdcToken]
      exact h.usdcToken
    · rw [hframe'.limits, hframe.limits]
      exact h.limits
    · rw [hframe'.sequence, hframe.sequence]
      exact h.sequence
    · rw [hcredit'.accounting.chain, hcredit.accounting.chain]
      show (t.chain.move token agent t.self item.amount).balances = _
      rw [h.self]
      exact move_congr h.balances
    · rw [hcredit'.book, hcredit.book]
      show t.book.credited _ _ _ = _
      rw [h.book]
      rfl
    · rw [hcredit'.holding, hcredit.holding]
      show t.holding.recordDeposit _ t.chain.sequence = _
      rw [h.holding, h.sequence]
      rfl
    · rw [hindex', hindex]
      show t.profiles.indexAfter _ (t.book.shares _) = w.profiles.indexAfter _ (w.book.shares _)
      unfold Profiles.indexAfter
      rw [h.index, h.book]

/-- What the batch does with an entry, a single deposit does, if the cap on the total has room for
    what the batch admits. -/
theorem Mirrors.step (h : Mirrors w t) (hb : w.book.Regular) (hself : agent ≠ w.self)
    (hroom : w.AdmitsEntry item → 0 < w.limits.tvlCap →
      w.book.assets + item.amount ≤ w.limits.tvlCap)
    (hstep : EntryStep env agent item w w') :
    Mirrors w' ((depositFrom agent item.user item.amount).commit env t) := by
  cases hstep with
  | skipped hrejects heq =>
    rcases Tx.commit_cases (depositFrom agent item.user item.amount) env t with ⟨_, hok⟩ | hfail
    · exact absurd (h.admits hok) hrejects
    · rw [hfail, heq]
      exact h
  | @returned token s hvalid htoken h1 hzero h2 =>
    rcases Tx.commit_cases (depositFrom agent item.user item.amount) env t with ⟨_, hok⟩ | hfail
    · have hpos := h.mints hb hok
      omega
    · obtain ⟨-, rfl⟩ := ok_transfer.mp h1
      obtain ⟨-, rfl⟩ := ok_transfer.mp h2
      rw [hfail]
      refine ⟨h.self, h.usdcToken, h.limits, h.sequence, ?_, h.book, h.holding, h.index⟩
      show t.chain.balances = ((w.chain.move token agent w.self item.amount).move token w.self
        agent item.amount).balances
      rw [move_back hself]
      exact h.balances
  | credited hvalid htoken h1 hminted hconv hne h2 =>
    obtain ⟨s, hok, hmirrors⟩ :=
      h.credited hb (hroom (admitsEntry_of_valid hvalid)) hvalid htoken h1 hminted hconv hne h2
    rwa [Tx.commit_of_ok hok]

/-! ## The batch -/

/-- The effects pass and the single deposits of the same entries run side by side. -/
theorem mirrors_run (hpass : InPass w0 w entries budget) (h0 : w0.book.Regular)
    (hcap : ∀ item ∈ entries, w0.AdmitsEntry item → 0 < w0.limits.tvlCap →
      budget ≤ w0.limits.tvlCap)
    (hself : agent ≠ w.self) (hmirrors : Mirrors w t)
    (heach : (Tx.each (depositBatchItem agent) entries).Ok env w () w') :
    Mirrors w' (t.depositedFrom env agent entries) := by
  induction entries generalizing w t with
  | nil =>
    obtain rfl := Tx.ok_each_nil.mp heach
    exact hmirrors
  | cons item rest ih =>
    obtain ⟨s, hitem, heach⟩ := Tx.ok_each_cons.mp heach
    have hstep := depositBatchItem_ok hitem
    have hnext : Mirrors s ((depositFrom agent item.user item.amount).commit env t) := by
      refine hmirrors.step hpass.regular hself ?_ hstep
      intro hadmits hon
      rw [hpass.frame.limits] at hon ⊢
      have hroom := hpass.entry_room h0 hadmits
      have hbudget := hcap item List.mem_cons_self (hpass.admits h0 hadmits) hon
      omega
    refine ih (hpass.step h0 hstep) ?_ ?_ hnext heach
    · intro other hmem
      exact hcap other (List.mem_cons_of_mem item hmem)
    · rw [hstep.crediting.self]
      exact hself

/-- On every well-formed vault, a successful batch leaves the accounts, the deposit ledgers, the
    index and the USDC that single deposits of its entries would leave, one after the other and
    without the rejected ones. Every entry it processes was admitted by the validation pass and is
    within the cap on the total. -/
theorem batch_is_sequence {u : Unit} (hstored : w.book.totalAssets = some w.book.assets)
    (hw : w.book.pool.WellFormed) (h : (invoke (.batchDeposit agent entries)).Ok env w u w') :
    w'.book = (w.depositedFrom env agent entries).book ∧
      w'.holding = (w.depositedFrom env agent entries).holding ∧
      w'.profiles.userSharesIndex = (w.depositedFrom env agent entries).profiles.userSharesIndex ∧
      w'.idle = (w.depositedFrom env agent entries).idle ∧
      ∀ pre item rest t, entries = pre ++ item :: rest → w.BatchReaches env agent pre t →
        t.AdmitsEntry item →
        w.AdmitsEntry item ∧ (requireWithinTvlCap item.amount).Ok env t () t := by
  obtain ⟨w0, hself, htoll, hcapped, s, heach, skipped, -, rfl⟩ := batchDeposit_passes (ok_invoke.mp h)
  have hsame : w0 = { w.entered with buckets := w0.buckets } := tollOnly_enforceRateLimit htoll
  have hbook : w0.book = w.book := by rw [hsame]; rfl
  have h0 : w0.book.Regular := by
    rw [hbook]
    exact ⟨hstored, hw.toConserved, hw.assets_nonneg⟩
  have hmirrors : Mirrors w0 w := by
    rw [hsame]
    exact ⟨rfl, rfl, rfl, rfl, rfl, rfl, rfl, rfl⟩
  have hself0 : agent ≠ w0.self := by
    rw [← hmirrors.self]
    exact hself
  have hbudget : ∀ item ∈ entries, w0.AdmitsEntry item → 0 < w0.limits.tvlCap →
      i128.Fits (w0.book.assets + w0.admitted entries) ∧
        w0.book.assets + w0.admitted entries ≤ w0.limits.tvlCap := by
    intro item hmem hadmits
    exact hcapped (admitted_pos hmem hadmits)
  have hfinal : Mirrors s (w.depositedFrom env agent entries) := by
    refine mirrors_run (.start h0) h0 ?_ hself0 hmirrors heach
    intro item hmem hadmits hon
    exact (hbudget item hmem hadmits hon).2
  refine ⟨hfinal.book.symm, hfinal.holding.symm, hfinal.index.symm, ?_, ?_⟩
  · unfold World.idle
    rw [hfinal.usdcToken, hfinal.balances, hfinal.self]
  · rintro pre item rest t rfl ⟨w1, htoll1, hpre⟩ hadmits
    obtain rfl : w1 = w0 := (Tx.Ok.unique htoll1 htoll).2
    have hpass : InPass w1 t (item :: rest) _ := .within h0 hpre
    have hadmits1 := hpass.admits h0 hadmits
    refine ⟨?_, ok_requireWithinTvlCap.mpr ⟨?_, rfl⟩⟩
    · rw [hsame] at hadmits1
      exact hadmits1
    · rw [hpass.frame.limits]
      intro hon
      have hmem : item ∈ pre ++ item :: rest := List.mem_append_right _ List.mem_cons_self
      obtain ⟨hfits, hle⟩ := hbudget item hmem hadmits1 hon
      have hroom := hpass.entry_room h0 hadmits
      have hassets := hpass.regular.assets_nonneg
      have hpos := hadmits.1.1
      exact ⟨fits_of_le (by omega) hroom hfits, by omega⟩

namespace Sample

/-- Two depositors, one of them twice, and an entry below the minimum. -/
def gathered : List BatchDepositItem :=
  [⟨alice, 5000000⟩, ⟨bob, 1⟩, ⟨bob, 7000000⟩, ⟨alice, 2000000⟩]

theorem opened_wellFormed : opened.book.pool.WellFormed :=
  ⟨opened_opened.fresh.sound.conserved, le_rfl, fun _ => rfl⟩

theorem gathered_is_sequence :
    (opened.after (.call honest (.batchDeposit Sample.agent gathered))).book =
      (opened.depositedFrom honest Sample.agent gathered).book :=
  have hok : (invoke (.batchDeposit Sample.agent gathered)).Ok honest opened ()
      (opened.after (.call honest (.batchDeposit Sample.agent gathered))) := ok_after (by decide +kernel)
  (batch_is_sequence opened_opened.fresh.sound.stored opened_wellFormed hok).1

end Sample

end NeuroWealth.Vault
