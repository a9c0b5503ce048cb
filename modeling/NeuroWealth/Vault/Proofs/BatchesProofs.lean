import NeuroWealth.Vault.Proofs.BookProofs

/-!
# The two passes of a batch

The validation pass adds up the entries it admits. Along the effects pass claims only grow, so
whatever it credits was admitted before.
-/

namespace NeuroWealth.Vault

open Transaction MachineInt SharePool

variable {env : Env} {w w0 w' t : World} {agent user v : Address} {item : BatchDepositItem}
  {entries pre rest : List BatchDepositItem} {amount minted budget : Int}

/-! ## Regular books -/

/-- The shares add up, and the total is stored and not negative. -/
structure Book.Regular (b : Book) : Prop where
  stored : b.totalAssets = some b.assets
  conserved : b.pool.Conserved
  assets_nonneg : 0 ≤ b.assets

theorem Book.Sound.regular {b : Book} (h : b.Sound) : b.Regular :=
  ⟨h.stored, h.conserved, h.assets_nonneg⟩

theorem Book.Regular.pool_credited {b : Book} (h : b.Regular) :
    (b.credited user amount minted).pool = b.pool.mint user amount minted :=
  Vault.pool_credited h.stored

theorem Book.Regular.assets_credited {b : Book} (h : b.Regular) :
    (b.credited user amount minted).assets = b.assets + amount :=
  congrArg Pool.assets (h.pool_credited : (b.credited user amount minted).pool = _)

theorem Book.Regular.credited {b : Book} (h : b.Regular) (hamount : 0 ≤ amount)
    (hminted : 0 ≤ minted) : (b.credited user amount minted).Regular := by
  have hassets : (b.credited user amount minted).assets = b.assets + amount := h.assets_credited
  have hA := h.assets_nonneg
  refine ⟨?_, ?_, ?_⟩
  · rw [hassets]
    show some (b.totalAssets.getD _ + amount) = _
    rw [h.stored]
    rfl
  · rw [h.pool_credited]
    exact h.conserved.mint hminted
  · rw [hassets]
    omega

theorem exposure_eq_claim (h : w.book.Regular) : w.exposure user = w.claim user :=
  (Pool.claim_eq_assetsFor h.conserved h.assets_nonneg).symm

theorem Book.Regular.sharesFor_nonneg {b : Book} (h : b.Regular) (hamount : 0 ≤ amount) :
    0 ≤ Pool.sharesFor b.totalShares b.assets amount :=
  Pool.sharesFor_nonneg h.conserved.supply_nonneg h.assets_nonneg hamount

/-- A credit at the price of a regular book lowers nobody's claim. -/
theorem claim_le_of_credited (h : w.book.Regular) (hamount : 0 ≤ amount)
    (hprice : minted = Pool.sharesFor w.book.totalShares w.book.assets amount)
    (hbook : w'.book = w.book.credited user amount minted) : w.claim v ≤ w'.claim v := by
  have hminted : 0 ≤ minted := by
    rw [hprice]
    exact h.sharesFor_nonneg hamount
  unfold World.claim
  rw [hbook, h.pool_credited]
  apply Pool.claim_le_claim_mint h.conserved h.assets_nonneg hminted hamount
  intro hS
  rw [hprice]
  exact Pool.sharesFor_mul_le hS hamount

/-! ## One entry -/

/-- Balances, the book and the records of depositors may change, and nothing a check reads. -/
structure Crediting (w w' : World) : Prop where
  self : w'.self = w.self
  usdcToken : w'.usdcToken = w.usdcToken
  limits : w'.limits = w.limits
  sequence : w'.chain.sequence = w.chain.sequence

def crediting : Footprint Env World where
  rel _ w w' := Crediting w w'
  refl _ _ := ⟨rfl, rfl, rfl, rfl⟩
  trans h1 h2 :=
    ⟨h2.self.trans h1.self, h2.usdcToken.trans h1.usdcToken, h2.limits.trans h1.limits,
      h2.sequence.trans h1.sequence⟩

theorem crediting_putBook {b : Book} : Keeps crediting (putBook b) :=
  .modify fun _ _ => ⟨rfl, rfl, rfl, rfl⟩

theorem crediting_modifyProfiles {f : Profiles → Profiles} : Keeps crediting (modifyProfiles f) :=
  .modify fun _ _ => ⟨rfl, rfl, rfl, rfl⟩

theorem crediting_publish {e : Event} : Keeps crediting (publish e) :=
  .modify fun _ _ => ⟨rfl, rfl, rfl, rfl⟩

theorem crediting_transfer {token sender recipient : Address} :
    Keeps crediting (transfer token sender recipient amount) := by
  intro env w u w' h
  obtain ⟨-, rfl⟩ := ok_transfer.mp h
  exact ⟨rfl, rfl, rfl, rfl⟩

theorem crediting_recordDepositLedger : Keeps crediting (recordDepositLedger user) :=
  .bind .get fun _ => .modify fun _ _ => ⟨rfl, rfl, rfl, rfl⟩

theorem crediting_setDefaultStrategy : Keeps crediting (setDefaultStrategy user) :=
  .bind .get fun _ =>
    .ite (.bind crediting_modifyProfiles fun _ => crediting_publish) (.pure _)

theorem crediting_recordFirstBatchDeposit : Keeps crediting (recordFirstBatchDeposit user) :=
  .bind crediting_modifyProfiles fun _ => crediting_setDefaultStrategy

theorem crediting_creditBatchItem : Keeps crediting (creditBatchItem item minted) :=
  .bind (.bind .get fun _ => .pure _) fun _ => .bind .expect fun _ =>
    .bind (.bind .get fun _ => crediting_putBook) fun _ =>
    .bind (.onlyIf crediting_recordFirstBatchDeposit) fun _ => .bind .get fun _ =>
    .bind .expect fun _ => .bind (.bind .get fun _ => crediting_putBook) fun _ =>
    .bind (.bind .get fun _ => .pure _) fun _ => .bind .expect fun _ =>
    .bind (.bind .get fun _ => crediting_putBook) fun _ =>
    .bind (.bind .get fun _ => .pure _) fun _ => .bind .expect fun _ =>
    .bind (.bind .get fun _ => crediting_putBook) fun _ =>
    .bind crediting_recordDepositLedger fun _ => crediting_publish

theorem EntryStep.crediting (h : EntryStep env agent item w w') : Crediting w w' := by
  cases h with
  | skipped _ heq =>
    rw [heq]
    exact ⟨rfl, rfl, rfl, rfl⟩
  | returned _ _ h1 _ h2 =>
    exact Vault.crediting.trans (r := env) (crediting_transfer h1) (crediting_transfer h2)
  | credited _ _ h1 _ _ _ h2 =>
    exact Vault.crediting.trans (r := env) (crediting_transfer h1) (crediting_creditBatchItem h2)

/-- An entry leaves the book alone or is credited at the price it finds. -/
theorem EntryStep.book (h : EntryStep env agent item w w') (hb : w.book.Regular) :
    w'.book = w.book ∨ w.AdmitsEntry item ∧ ∃ minted, 0 < minted ∧
      minted = Pool.sharesFor w.book.totalShares w.book.assets item.amount ∧
      w'.book = w.book.credited item.user item.amount minted := by
  cases h with
  | skipped _ heq => exact .inl (by rw [heq])
  | returned _ _ h1 _ h2 =>
    refine .inl ?_
    rw [(transfer_ok h2).book, (transfer_ok h1).book]
  | @credited token t minted hvalid _ h1 hminted _ hne h2 =>
    have hadmits := admitsEntry_of_valid hvalid
    have hnonneg := hb.sharesFor_nonneg hadmits.1.1.le
    refine .inr ⟨hadmits, minted, by omega, hminted, ?_⟩
    rw [(creditBatchItem_ok h2).book, (transfer_ok h1).book]

theorem EntryStep.regular (h : EntryStep env agent item w w') (hb : w.book.Regular) :
    w'.book.Regular := by
  rcases h.book hb with heq | ⟨hadmits, minted, hpos, -, heq⟩
  · rwa [heq]
  · rw [heq]
    exact hb.credited hadmits.1.1.le hpos.le

theorem EntryStep.claim_le (h : EntryStep env agent item w w') (hb : w.book.Regular) :
    w.claim v ≤ w'.claim v := by
  rcases h.book hb with heq | ⟨hadmits, minted, hpos, hprice, heq⟩
  · unfold World.claim
    rw [heq]
  · exact claim_le_of_credited hb hadmits.1.1.le hprice heq

theorem EntryStep.totals_le (h : EntryStep env agent item w w') (hb : w.book.Regular) :
    w.book.totalShares ≤ w'.book.totalShares ∧ w.book.assets ≤ w'.book.assets := by
  rcases h.book hb with heq | ⟨hadmits, minted, hpos, -, heq⟩
  · rw [heq]
    exact ⟨le_rfl, le_rfl⟩
  · have hamount := hadmits.1.1
    rw [heq, hb.assets_credited]
    show w.book.totalShares ≤ w.book.totalShares + minted ∧ _
    omega

/-- Entries that are not admitted leave no trace. -/
theorem pass_idle {u : Unit} (hnone : ∀ item ∈ entries, ¬ w.AdmitsEntry item)
    (h : (Tx.each (depositBatchItem agent) entries).Ok env w u w') : w' = w := by
  induction entries with
  | nil => exact Tx.ok_each_nil.mp h
  | cons item rest ih =>
    obtain ⟨t, hitem, hrest⟩ := Tx.ok_each_cons.mp h
    have hrejects := hnone item List.mem_cons_self
    cases depositBatchItem_ok hitem with
    | skipped _ heq =>
      rw [heq] at hrest
      exact ih (fun x hx => hnone x (List.mem_cons_of_mem item hx)) hrest
    | returned hvalid => exact absurd (admitsEntry_of_valid hvalid) hrejects
    | credited hvalid => exact absurd (admitsEntry_of_valid hvalid) hrejects

/-! ## The validation pass -/

/-- What the admitted entries of a list add up to. -/
def World.admitted (w : World) : List BatchDepositItem → Int
  | [] => 0
  | item :: rest => (if w.AdmitsEntry item then item.amount else 0) + w.admitted rest

theorem admitted_nonneg : 0 ≤ w.admitted entries := by
  induction entries with
  | nil => exact le_rfl
  | cons item rest ih =>
    unfold World.admitted
    split_ifs with hadmits
    · have hpos := hadmits.1.1
      omega
    · omega

theorem admitted_append :
    w.admitted (pre ++ rest) = w.admitted pre + w.admitted rest := by
  induction pre with
  | nil => exact (zero_add _).symm
  | cons item pre ih =>
    show _ + w.admitted (pre ++ rest) = _ + w.admitted pre + w.admitted rest
    rw [ih, add_assoc]

/-- A list with an admitted entry has a positive total. -/
theorem admitted_pos (hmem : item ∈ entries) (hadmits : w.AdmitsEntry item) :
    0 < w.admitted entries := by
  obtain ⟨pre, rest, rfl⟩ := List.append_of_mem hmem
  have hpre : 0 ≤ w.admitted pre := admitted_nonneg
  have hrest : 0 ≤ w.admitted rest := admitted_nonneg
  have hpos := hadmits.1.1
  rw [admitted_append]
  show 0 < _ + ((if w.AdmitsEntry item then item.amount else 0) + w.admitted rest)
  rw [if_pos hadmits]
  omega

/-- The entries the validation pass admits. -/
def World.valid (w : World) (entries : List BatchDepositItem) : List BatchDepositItem :=
  entries.filter fun item => w.AdmitsEntry item

theorem valid_cons_of_pos (h : w.AdmitsEntry item) :
    w.valid (item :: rest) = item :: w.valid rest :=
  List.filter_cons_of_pos (decide_eq_true h)

theorem valid_cons_of_neg (h : ¬ w.AdmitsEntry item) : w.valid (item :: rest) = w.valid rest :=
  List.filter_cons_of_neg fun hadmits => h (of_decide_eq_true hadmits)

theorem admitted_eq_sum :
    w.admitted entries = ((w.valid entries).map BatchDepositItem.amount).sum := by
  induction entries with
  | nil => rfl
  | cons item rest ih =>
    unfold World.admitted
    by_cases hadmits : w.AdmitsEntry item
    · rw [if_pos hadmits, valid_cons_of_pos hadmits, ih, List.map_cons, List.sum_cons]
    · rw [if_neg hadmits, valid_cons_of_neg hadmits, ih, zero_add]

/-- The validation pass adds up and counts what it admits, and counts the others. -/
structure Tallied (w : World) (entries : List BatchDepositItem) (tally result : BatchTally) :
    Prop where
  total : result.totalValidAmount = tally.totalValidAmount + w.admitted entries
  valid : result.validCount = tally.validCount + (w.valid entries).length
  all : result.validCount + result.skipCount =
    tally.validCount + tally.skipCount + entries.length

theorem tallyBatch_ok {tally result : BatchTally}
    (h : (tallyBatch entries tally).Ok env w result w') :
    Tallied w entries tally result ∧ w' = w := by
  induction entries generalizing tally with
  | nil =>
    obtain ⟨rfl, rfl⟩ := Tx.ok_pure.mp h
    exact ⟨⟨(add_zero _).symm, rfl, rfl⟩, rfl⟩
  | cons item rest ih =>
    obtain ⟨b, t, hvalid, h⟩ := Tx.ok_bind.mp h
    obtain ⟨rfl, rfl⟩ := batchItemValid_ok hvalid
    by_cases hadmits : t.AdmitsEntry item
    · rw [if_pos (decide_eq_true hadmits)] at h
      simp only [Tx.ok_bind, ok_checkedAdd, existsAndEq, and_assoc, true_and] at h
      obtain ⟨⟨htotal, hcount, hall⟩, hw⟩ := ih h.2
      dsimp only at htotal hcount hall
      refine ⟨⟨?_, ?_, ?_⟩, hw⟩
      · unfold World.admitted
        rw [if_pos hadmits, htotal, add_assoc]
      · rw [valid_cons_of_pos hadmits, hcount, List.length_cons]
        omega
      · rw [hall, List.length_cons]
        omega
    · rw [if_neg fun hb => hadmits (of_decide_eq_true hb)] at h
      obtain ⟨⟨htotal, hcount, hall⟩, hw⟩ := ih h
      dsimp only at htotal hcount hall
      refine ⟨⟨?_, ?_, ?_⟩, hw⟩
      · unfold World.admitted
        rw [if_neg hadmits, zero_add, htotal]
      · rw [valid_cons_of_neg hadmits, hcount]
      · rw [hall, List.length_cons]
        omega

/-! ## The effects pass -/

/-- The effects pass that started in `w0` has reached `w` and has `rest` ahead; the total stays
    within the budget. -/
structure InPass (w0 w : World) (rest : List BatchDepositItem) (budget : Int) : Prop where
  frame : Crediting w0 w
  regular : w.book.Regular
  claims : ∀ v, w0.claim v ≤ w.claim v
  supply : w0.book.totalShares ≤ w.book.totalShares
  assets : w0.book.assets ≤ w.book.assets
  room : w.book.assets + w0.admitted rest ≤ budget

theorem saturatingAdd_mono {x y z : Int} (h : x ≤ y) :
    i128.saturatingAdd x z ≤ i128.saturatingAdd y z := by
  unfold Format.saturatingAdd Format.saturate
  omega

/-- Claims that only grew admit no entry that was not admitted before. -/
theorem admits_of_claims (h0 : w0.book.Regular) (h : w.book.Regular) (hlimits : w.limits = w0.limits)
    (hclaims : ∀ v, w0.claim v ≤ w.claim v) (hadmits : w.AdmitsEntry item) :
    w0.AdmitsEntry item := by
  obtain ⟨hbounds, hcap⟩ := hadmits
  unfold World.AdmitsEntry
  rw [hlimits, exposure_eq_claim h] at hcap
  rw [hlimits] at hbounds
  rw [exposure_eq_claim h0]
  refine ⟨hbounds, fun hpos => ?_⟩
  exact (saturatingAdd_mono (hclaims item.user)).trans (hcap hpos)

/-- What is admitted during the pass was admitted before it. -/
theorem InPass.admits (h : InPass w0 w rest budget) (h0 : w0.book.Regular)
    (hadmits : w.AdmitsEntry item) : w0.AdmitsEntry item :=
  admits_of_claims h0 h.regular h.frame.limits h.claims hadmits

theorem InPass.step (h : InPass w0 w (item :: rest) budget) (h0 : w0.book.Regular)
    (hstep : EntryStep env agent item w w') : InPass w0 w' rest budget := by
  have hroom : w.book.assets + ((if w0.AdmitsEntry item then item.amount else 0) +
      w0.admitted rest) ≤ budget := h.room
  refine ⟨crediting.trans (r := env) h.frame hstep.crediting, hstep.regular h.regular, ?_,
    h.supply.trans (hstep.totals_le h.regular).1, h.assets.trans (hstep.totals_le h.regular).2, ?_⟩
  · intro v
    exact (h.claims v).trans (hstep.claim_le h.regular)
  · rcases hstep.book h.regular with heq | ⟨hadmits, minted, -, -, heq⟩
    · have hsame : w'.book.assets = w.book.assets := by rw [heq]
      have hpositive : 0 ≤ if w0.AdmitsEntry item then item.amount else 0 := by
        split_ifs with hadmits
        · exact hadmits.1.1.le
        · exact le_rfl
      omega
    · have hgrown : w'.book.assets = w.book.assets + item.amount := by
        rw [heq, h.regular.assets_credited]
      rw [if_pos (h.admits h0 hadmits)] at hroom
      omega

/-- The total has room for what is admitted. -/
theorem InPass.entry_room (h : InPass w0 w (item :: rest) budget) (h0 : w0.book.Regular)
    (hadmits : w.AdmitsEntry item) : w.book.assets + item.amount ≤ budget := by
  have hroom : w.book.assets + ((if w0.AdmitsEntry item then item.amount else 0) +
      w0.admitted rest) ≤ budget := h.room
  have hrest : 0 ≤ w0.admitted rest := admitted_nonneg
  rw [if_pos (h.admits h0 hadmits)] at hroom
  omega

theorem InPass.run (h : InPass w0 w (pre ++ rest) budget) (h0 : w0.book.Regular)
    (heach : (Tx.each (depositBatchItem agent) pre).Ok env w () w') : InPass w0 w' rest budget := by
  induction pre generalizing w with
  | nil =>
    obtain rfl := Tx.ok_each_nil.mp heach
    exact h
  | cons item pre ih =>
    obtain ⟨t, hitem, heach⟩ := Tx.ok_each_cons.mp heach
    exact ih (h.step h0 (depositBatchItem_ok hitem)) heach

/-- The pass at its start. -/
theorem InPass.start (h0 : w0.book.Regular) :
    InPass w0 w0 entries (w0.book.assets + w0.admitted entries) :=
  ⟨⟨rfl, rfl, rfl, rfl⟩, h0, fun _ => le_rfl, le_rfl, le_rfl, le_rfl⟩

/-- The pass after its first entries. -/
theorem InPass.within (h0 : w0.book.Regular)
    (heach : (Tx.each (depositBatchItem agent) pre).Ok env w0 () w) :
    InPass w0 w rest (w0.book.assets + w0.admitted (pre ++ rest)) :=
  (InPass.start h0).run h0 heach

/-- The pass at its end. -/
theorem InPass.finish (h0 : w0.book.Regular)
    (heach : (Tx.each (depositBatchItem agent) entries).Ok env w0 () w) :
    InPass w0 w [] (w0.book.assets + w0.admitted entries) := by
  have h : InPass w0 w [] (w0.book.assets + w0.admitted (entries ++ [])) := .within h0 heach
  rwa [List.append_nil] at h

/-! ## The whole batch -/

/-- The effects pass of a batch has been through `pre` and is at `t`. -/
def World.BatchReaches (w : World) (env : Env) (agent : Address) (pre : List BatchDepositItem)
    (t : World) : Prop :=
  ∃ w0, (enforceUserRateLimit agent .batchDeposit).Ok env w.entered () w0 ∧
    (Tx.each (depositBatchItem agent) pre).Ok env w0 () t

/-- The allowance of the whole batch is taken, and nothing else. -/
def tollOnly : Footprint Env World where
  rel _ w w' := w' = { w with buckets := w'.buckets }
  refl _ _ := rfl
  trans h1 h2 := by
    rw [h2, h1]

theorem tollOnly_enforceRateLimit {c : RateLimitCategory} {u : Option Address} :
    Keeps tollOnly (enforceRateLimit c u) :=
  .bind (.bind .require fun _ => .bind .get fun _ => .pure _) fun _ => .bind .get fun _ =>
    .ite (.pure _) (.bind .require fun _ => .modify fun _ _ => rfl)

/-- A batch, pass by pass. -/
structure BatchPasses (env : Env) (agent : Address) (entries : List BatchDepositItem)
    (w w0 w' : World) : Prop where
  foreign : agent ≠ w.self
  toll : (enforceUserRateLimit agent .batchDeposit).Ok env w () w0
  capped : 0 < w0.admitted entries → 0 < w0.limits.tvlCap →
    i128.Fits (w0.book.assets + w0.admitted entries) ∧
      w0.book.assets + w0.admitted entries ≤ w0.limits.tvlCap
  effects : ∃ t, (Tx.each (depositBatchItem agent) entries).Ok env w0 () t ∧
    ∃ skipped, (w0.valid entries).length + skipped = entries.length ∧
      w' = { t with events := t.events ++
        [.batchDeposited agent (w0.valid entries).length (w0.admitted entries) skipped] }

theorem batchDeposit_passes {u : Unit} (h : (batchDeposit agent entries).Ok env w u w') :
    ∃ w0, BatchPasses env agent entries w w0 w' := by
  simp only [batchDeposit, Tx.ok_bind, ok_requireInitialized, ok_requireAuth, ok_requireNotPaused,
    ok_requireIsAgent, ok_getUsdcToken, Tx.ok_onlyIf, ok_requireWithinTvlCap, ok_publish,
    requireBatchSize, Tx.ok_get, Tx.ok_require, existsAndEq, exists_const, and_assoc,
    true_and] at h
  obtain ⟨-, -, hself, -, -, -, -, _, w0, htoll, token, -, tally, t1, htally, t2, hcap, _, t,
    heach, rfl⟩ := h
  obtain ⟨⟨htotal, hvalid, hall⟩, rfl⟩ := tallyBatch_ok htally
  have htotal' : tally.totalValidAmount = t1.admitted entries := htotal.trans (zero_add _)
  have hvalid' : tally.validCount = (t1.valid entries).length := hvalid.trans (zero_add _)
  have hall' : tally.validCount + tally.skipCount = entries.length := hall.trans (zero_add _)
  rw [hvalid'] at hall'
  rw [htotal'] at hcap
  rw [htotal', hvalid']
  rcases hcap with ⟨-, hcap, rfl⟩ | ⟨hnone, rfl⟩
  · exact ⟨t2, hself, htoll, fun _ => hcap, t, heach, _, hall', rfl⟩
  · exact ⟨t2, hself, htoll, fun hpos => absurd hpos hnone, t, heach, _, hall', rfl⟩

end NeuroWealth.Vault
