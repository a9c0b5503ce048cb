import NeuroWealth.Vault.Proofs.GovernanceProofs
import NeuroWealth.Vault.Proofs.MachineProofs
import NeuroWealth.Vault.Replica

/-!
# Calls record what they do

Every entrypoint of an initialised vault leaves a log from which an indexer's copy follows the
storage.
-/

namespace NeuroWealth.Vault

open Transaction MachineInt SharePool Recording

variable {env : Env} {w w' : World} {venue : Venue} {user : Address} {amount minOut : Int}

/-- The vault's code, seen from its event log. -/
def records : Footprint Env World := indexed.recorded

/-! ## Primitives -/

theorem records_modify {f : World → World} (hlog : ∀ w, (f w).events = w.events)
    (hbook : ∀ w, (f w).book = w.book) (hview : ∀ w, (f w).replica = w.replica) :
    Keeps records (modify f : Contract PUnit) :=
  Replication.keeps_silent hlog hview fun w h => by
    show World.Booked (f w)
    rw [World.Booked, hbook]
    exact h

/-- An event that changes nothing an indexer keeps. -/
theorem records_publish {e : Event} (he : ∀ r : Replica, r.apply e = r) :
    Keeps records (publish e) :=
  Replication.keeps_remark e (fun _ => rfl) (fun w => (he w.replica).symm) fun _ h => h

/-- A setting and the event that announces it. -/
theorem records_announced {f : World → World} {e : Event} (hlog : ∀ w, (f w).events = w.events)
    (hbook : ∀ w, (f w).book = w.book) (hview : ∀ w, (f w).replica = w.replica.apply e) :
    Keeps records (do modify f; publish e : Contract Unit) := by
  intro env w u w' h
  obtain ⟨_, t, hset, hpub⟩ := Tx.ok_bind.mp h
  obtain rfl := Tx.ok_modify.mp hset
  obtain rfl := ok_publish.mp hpub
  refine .event e ?_ (fun _ => hview w) fun hready => ?_
  · show (f w).events ++ [e] = _
    rw [hlog]
    rfl
  · show World.Booked _
    rw [World.Booked]
    show (f w).book.totalAssets.isSome = true
    rw [hbook]
    exact hready

theorem records_getUsdcToken : Keeps records getUsdcToken := .bind .get fun _ => .expect

theorem records_getOwnerInternal : Keeps records getOwnerInternal := .bind .get fun _ => .expect

theorem records_getAgentInternal : Keeps records getAgentInternal := .bind .get fun _ => .expect

theorem records_vaultBalance {token : Address} : Keeps records (vaultBalance token) :=
  .bind .get fun _ => .pure _

/-- The same where the event also names the owner. -/
theorem records_announced_owner {f : World → World} {e : Address → Event}
    (hlog : ∀ w, (f w).events = w.events) (hbook : ∀ w, (f w).book = w.book)
    (hview : ∀ w owner, (f w).replica = w.replica.apply (e owner)) :
    Keeps records (do modify f; let owner ← getOwnerInternal; publish (e owner) : Contract Unit) := by
  intro env w u w' h
  obtain ⟨_, t, hset, hrest⟩ := Tx.ok_bind.mp h
  obtain ⟨owner, t', howner, hpub⟩ := Tx.ok_bind.mp hrest
  obtain ⟨-, rfl⟩ := ok_getOwnerInternal.mp howner
  exact records_announced hlog hbook (fun w => hview w owner) (Tx.ok_bind.mpr ⟨_, _, hset, hpub⟩)

/-! ## Guards -/

theorem records_ownerGuarded {α : Type} {x : Contract α} (hx : Keeps records x) :
    Keeps records (do requireInitialized; requireIsOwner; x) :=
  .bind (.of_unchanged unchanged_requireInitialized) fun _ =>
    .bind (.of_unchanged unchanged_requireIsOwner) fun _ => hx

theorem records_ownerArgGuarded {α : Type} {owner : Address} {e : VaultError} {x : Contract α}
    (hx : Keeps records x) : Keeps records (do requireInitialized; requireOwnerArg owner e; x) :=
  .bind (.of_unchanged unchanged_requireInitialized) fun _ =>
    .bind (.of_unchanged unchanged_requireOwnerArg) fun _ => hx

theorem records_agentGuarded {α : Type} {x : Contract α} (hx : Keeps records x) :
    Keeps records (do requireInitialized; requireIsAgent; x) :=
  .bind (.of_unchanged unchanged_requireInitialized) fun _ =>
    .bind (.of_unchanged unchanged_requireIsAgent) fun _ => hx

theorem records_liveAgentGuarded {α : Type} {x : Contract α} (hx : Keeps records x) :
    Keeps records (do requireInitialized; requireNotPaused; requireIsAgent; x) :=
  .bind (.of_unchanged unchanged_requireInitialized) fun _ =>
    .bind (.of_unchanged unchanged_requireNotPaused) fun _ =>
    .bind (.of_unchanged unchanged_requireIsAgent) fun _ => hx

theorem records_enforceRateLimit {c : RateLimitCategory} {u : Option Address} :
    Keeps records (enforceRateLimit c u) :=
  .bind (.bind .require fun _ => .bind .get fun _ => .pure _) fun _ => .bind .get fun _ =>
    .ite (.pure _) (.bind .require fun _ =>
      records_modify (fun _ => rfl) (fun _ => rfl) fun _ => rfl)

theorem records_transfer {token sender recipient : Address} :
    Keeps records (transfer token sender recipient amount) :=
  .bind .get fun _ => .bind .require fun _ =>
    .bind (records_modify (fun _ => rfl) (fun _ => rfl) fun _ => rfl) fun _ =>
    records_publish fun _ => rfl

/-! ## Pools -/

/-- The marker is announced whenever it changes. -/
theorem records_setCurrentProtocol {p : Protocol} : Keeps records (setCurrentProtocol p) := by
  intro env w u w' h
  simp only [setCurrentProtocol, Tx.ok_bind, Tx.ok_get, Tx.ok_ite, Tx.ok_pure, ok_putDeployment,
    ok_publish, existsAndEq, exists_const, true_and] at h
  rcases h with ⟨-, rfl⟩ | ⟨-, rfl⟩
  · exact .refl
  · exact .event _ rfl (fun _ => rfl) id

theorem records_syncDeployedSplit : Keeps records syncDeployedSplit := by
  intro env w u w' h
  simp only [syncDeployedSplit, Tx.ok_bind, Tx.ok_get, ok_putDeployment, Tx.ok_pure, existsAndEq,
    exists_const, true_and] at h
  obtain ⟨blend, t1, hblend, dex, t2, hdex, -, rfl⟩ := h
  obtain rfl : t1 = w := unchanged_getVenueBalance hblend
  obtain rfl : t2 = t1 := unchanged_getVenueBalance hdex
  exact .silent rfl rfl id

theorem records_approve {token spender : Address} {n : Nat} :
    Keeps records (approve token spender amount n) :=
  .bind .get fun _ => .bind .require fun _ =>
    .bind (records_modify (fun _ => rfl) (fun _ => rfl) fun _ => rfl) fun _ =>
    records_publish fun _ => rfl

theorem records_callPool {kind : LegKind} {pool token : Address} :
    Keeps records (callPool kind venue pool token amount minOut) :=
  .bind .read fun _ => .bind .get fun _ => .bind .expect fun _ => .bind .require fun _ =>
    records_modify (fun _ => rfl) (fun _ => rfl) fun _ => rfl

theorem records_supplyToVenue : Keeps records (supplyToVenue venue amount minOut) :=
  .ite (.pure _) <| .bind (.bind .get fun _ => .expect) fun _ => .bind records_getUsdcToken fun _ =>
    .bind (.bind .get fun _ => .pure _) fun _ => .bind (.bind .get fun _ => .pure _) fun _ =>
    .bind records_approve fun _ => .bind records_vaultBalance fun _ =>
    .bind records_callPool fun _ => .bind records_vaultBalance fun _ => .bind .require fun _ =>
    .bind (.onlyIf records_setCurrentProtocol) fun _ =>
    .bind (records_publish fun _ => rfl) fun _ => .pure _

theorem records_withdrawFromVenue : Keeps records (withdrawFromVenue venue amount minOut) :=
  .bind (.bind .get fun _ => .expect) fun _ => .bind records_getUsdcToken fun _ =>
    .bind (.ite (.bind .get fun _ => .pure _) (.pure _)) fun _ => .ite (.pure _) <|
    .bind records_vaultBalance fun _ => .bind records_callPool fun _ =>
    .bind records_vaultBalance fun _ => .bind .require fun _ =>
    .bind (.onlyIf (.bind (.bind .get fun _ => .pure _) fun _ =>
      .onlyIf records_setCurrentProtocol)) fun _ =>
    .bind (records_publish fun _ => rfl) fun _ => .pure _

theorem records_withdrawProportionally :
    Keeps records (withdrawProportionally amount minOut) :=
  .ite (.pure _) <| .bind (.of_unchanged unchanged_getVenueBalance) fun _ =>
    .bind (.of_unchanged unchanged_getVenueBalance) fun _ => .ite (.pure _) <|
    .bind .expect fun _ => .bind .expect fun _ => .bind .expect fun _ =>
    .bind (.ite records_withdrawFromVenue (.pure _)) fun _ =>
    .bind (.ite records_withdrawFromVenue (.pure _)) fun _ =>
    .bind records_syncDeployedSplit fun _ => .bind records_setCurrentProtocol fun _ => .pure _

theorem records_withdrawFromProtocol {p : Protocol} :
    Keeps records (withdrawFromProtocol p minOut) := by
  refine .bind .get fun w => .ite ?_ (.pure _)
  cases p with
  | blend => exact records_withdrawFromVenue
  | dex => exact records_withdrawFromVenue
  | multi =>
    exact .bind records_withdrawFromVenue fun _ => .bind records_withdrawFromVenue fun _ =>
      .bind records_syncDeployedSplit fun _ => .bind records_setCurrentProtocol fun _ => .pure _
  | none => exact .pure _
  | other => exact .pure _

theorem records_withdrawAmountFromProtocol {p : Protocol} :
    Keeps records (withdrawAmountFromProtocol p amount minOut) := by
  cases p with
  | blend => exact records_withdrawFromVenue
  | dex => exact records_withdrawFromVenue
  | multi => exact records_withdrawProportionally
  | none => exact .pure _
  | other => exact .pure _

theorem records_pullMissing {p : Protocol} {token : Address} {balance : Int} :
    Keeps records (pullMissing p token amount balance) :=
  .bind .expect fun _ => .bind records_withdrawAmountFromProtocol fun _ => records_vaultBalance

/-! ## Deposits -/

/-- Records of a first deposit change profiles only, and are recorded whatever the book says in the
    meantime. -/
def NotesProfile (x : Contract Unit) : Prop :=
  ∀ ⦃env w u w'⦄, x.Ok env w u w' → w' = { w with profiles := w'.profiles, events := w'.events } ∧
    ∀ b : Book, indexed.Follows { w with book := b } { w' with book := b }

theorem NotesProfile.bind {x y : Contract Unit} (hx : NotesProfile x) (hy : NotesProfile y) :
    NotesProfile (do x; y) := by
  intro env w u w' h
  obtain ⟨_, t, h1, h2⟩ := Tx.ok_bind.mp h
  obtain ⟨ht, hfirst⟩ := hx h1
  obtain ⟨hw', hsecond⟩ := hy h2
  refine ⟨?_, fun b => (hfirst b).trans (hsecond b)⟩
  rw [hw', ht]

theorem NotesProfile.onlyIf {c : Prop} [Decidable c] {x : Contract Unit} (hx : NotesProfile x) :
    NotesProfile (Tx.onlyIf c x) := by
  intro env w u w' h
  rcases Tx.ok_onlyIf.mp h with ⟨-, h⟩ | ⟨-, rfl⟩
  · exact hx h
  · exact ⟨rfl, fun _ => .refl⟩

/-- The index and the snapshots are not published. -/
theorem notes_modifyProfiles {f : Profiles → Profiles}
    (hf : ∀ p, (f p).userStrategy = p.userStrategy) : NotesProfile (modifyProfiles f) := by
  intro env w u w' h
  obtain rfl := Tx.ok_modify.mp h
  refine ⟨rfl, fun b => .silent rfl ?_ id⟩
  show Replica.mk .. = Replica.mk ..
  rw [hf]

theorem notes_addToUserIndex : NotesProfile (addToUserIndex user) := by
  refine notes_modifyProfiles fun p => ?_
  split_ifs
  · rfl
  · rfl

theorem notes_setDefaultStrategy : NotesProfile (setDefaultStrategy user) := by
  intro env w u w' h
  simp only [setDefaultStrategy, modifyProfiles, Tx.ok_bind, Tx.ok_get, Tx.ok_ite, Tx.ok_modify,
    Tx.ok_pure, ok_publish, existsAndEq, exists_const, true_and] at h
  rcases h with ⟨-, rfl⟩ | ⟨-, rfl⟩
  · exact ⟨rfl, fun b => .event _ rfl (fun _ => rfl) id⟩
  · exact ⟨rfl, fun _ => .refl⟩

theorem notes_recordFirstDeposit {x y : Int} : NotesProfile (recordFirstDeposit user x y) := by
  intro env w u w' h
  obtain ⟨_, t, hindex, hrest⟩ := Tx.ok_bind.mp h
  obtain ⟨w0, t0, hget, hrest⟩ := Tx.ok_bind.mp hrest
  obtain ⟨rfl, rfl⟩ := Tx.ok_get.mp hget
  have hnotes : NotesProfile (do
      modifyProfiles fun p => p.setSnapshot user ⟨x, y, t0.chain.timestamp⟩
      setDefaultStrategy user) :=
    .bind (notes_modifyProfiles fun _ => rfl) notes_setDefaultStrategy
  exact (notes_addToUserIndex.bind hnotes) (Tx.ok_bind.mpr ⟨_, _, hindex, hrest⟩)

/-- A credit is announced by its event. -/
theorem follows_credit {t : World} {minted : Int}
    (hnote : indexed.Follows w { t with book := w.book })
    (hbook : w'.book = w.book.credited user amount minted)
    (hlog : w'.events = t.events ++ [.deposit user amount minted])
    (hview : ∀ b, World.replica { w' with book := b } = World.replica { t with book := b }) :
    indexed.Follows w w' := by
  refine hnote.trans (.event (.deposit user amount minted) hlog (fun hready => ?_) fun _ => ?_)
  · obtain ⟨A, hA⟩ := Option.isSome_iff_exists.mp hready
    have hassets : (w.book.credited user amount minted).assets = w.book.assets + amount := by
      show w.book.totalAssets.getD (w.book.totalDeposits + amount) + amount =
        w.book.totalAssets.getD w.book.totalDeposits + amount
      rw [hA]
      rfl
    have hw' : w'.replica = World.replica { t with book := w'.book } := hview w'.book
    rw [show indexed.view w' = w'.replica from rfl, hw', hbook]
    show Replica.mk .. = Replica.mk ..
    rw [hassets]
    rfl
  · show World.Booked w'
    rw [World.Booked, hbook]
    rfl

/-- Setting a user's shares to more than before, with the totals, is a credit. -/
theorem book_credited {b : Book} {minted A : Int}
    (hA : A = b.totalAssets.getD (b.totalDeposits + amount) + amount) :
    Book.mk (b.setShares user (b.shares user + minted)).shares (b.totalShares + minted) (some A)
      (b.totalDeposits + amount) = b.credited user amount minted := by
  have hshares : (b.setShares user (b.shares user + minted)).shares =
      (b.credited user amount minted).shares := by
    funext u
    by_cases hu : u = user
    · simp [Book.setShares, Book.credited, hu]
    · simp [Book.setShares, Book.credited, hu]
  rw [hshares, hA]
  rfl

theorem records_creditDeposit : Keeps records (creditDeposit user amount) := by
  intro env w u w' h
  simp only [creditDeposit, Tx.ok_bind, Tx.ok_get, Tx.ok_require, ok_checkedAdd, ok_readShares,
    ok_getTotalSharesInternal, ok_getTotalAssetsInternal, ok_setUserShares, ok_setTotalDeposits,
    ok_setTotalShares, ok_setTotalAssets, ok_recordDepositLedger, ok_publish, existsAndEq,
    exists_const, and_assoc, true_and] at h
  obtain ⟨-, minted, s, hconv, -, -, _, t, hfirst, -, -, rfl⟩ := h
  obtain ⟨-, rfl⟩ := ok_convertToSharesInternal hconv
  obtain ⟨ht, hnote⟩ := notes_recordFirstDeposit.onlyIf hfirst
  refine follows_credit (hnote w.book) ?_ rfl fun _ => rfl
  rw [ht]
  exact book_credited (b := w.book) rfl

theorem records_creditBatchItem {item : BatchDepositItem} {minted : Int} :
    Keeps records (creditBatchItem item minted) := by
  intro env w u w' h
  simp only [creditBatchItem, Tx.ok_bind, Tx.ok_get, ok_checkedAdd, ok_readShares,
    ok_getTotalSharesInternal, ok_getTotalAssetsInternal, ok_setUserShares, ok_setTotalDeposits,
    ok_setTotalShares, ok_setTotalAssets, ok_recordDepositLedger, ok_publish, existsAndEq,
    exists_const, and_assoc, true_and] at h
  obtain ⟨-, _, t, hfirst, -, -, -, rfl⟩ := h
  have hnotes : NotesProfile (recordFirstBatchDeposit item.user) :=
    notes_addToUserIndex.bind notes_setDefaultStrategy
  obtain ⟨ht, hnote⟩ := hnotes.onlyIf hfirst
  refine follows_credit (hnote w.book) ?_ rfl fun _ => rfl
  rw [ht]
  exact book_credited (b := w.book) rfl

theorem records_deposit : Keeps records (deposit user amount) := by
  intro env w u w' h
  obtain ⟨-, token, t, t', htoll, -, htransfer, hcredit⟩ := deposit_parts h
  have htoll : indexed.Follows w t := records_enforceRateLimit htoll
  have htransfer : indexed.Follows t t' := records_transfer htransfer
  exact (htoll.trans htransfer).trans (records_creditDeposit hcredit)

theorem records_depositBatchItem {agent : Address} {item : BatchDepositItem} :
    Keeps records (depositBatchItem agent item) := by
  intro env w u w' h
  cases depositBatchItem_ok h with
  | skipped _ heq =>
    rw [heq]
    exact .refl
  | @returned _ t _ _ h1 _ h2 =>
    have hin : indexed.Follows w t := records_transfer h1
    exact hin.trans (records_transfer h2)
  | @credited _ t _ _ _ h1 _ _ _ h2 =>
    have hin : indexed.Follows w t := records_transfer h1
    exact hin.trans (records_creditBatchItem h2)

theorem records_batchDeposit {agent : Address} {entries : List BatchDepositItem} :
    Keeps records (batchDeposit agent entries) := by
  intro env w u w' h
  obtain ⟨-, t, t', tally, htoll, heach, hpub⟩ := batchDeposit_parts h
  have htoll : indexed.Follows w t := records_enforceRateLimit htoll
  have heach : indexed.Follows t t' :=
    (Keeps.each (fun _ => records_depositBatchItem) entries : Keeps records _) heach
  have hpub : indexed.Follows t' w' := records_publish (fun _ => rfl) hpub
  exact (htoll.trans heach).trans hpub

/-! ## Withdrawals -/

/-- The world after `burned` shares of a user were redeemed for `amount` of a token. -/
def World.redeemed (w : World) (token user : Address) (amount burned : Int) : World :=
  World.paying
    { w with book := w.book.debited user amount burned (w.book.depositsAfterWithdraw amount) }
    token w.self user amount

theorem redeemed_of_debit {t : World} {token : Address} {burned : Int} {u : Unit}
    (hdebit : t = { w with
      book := w.book.debited user amount burned (w.book.depositsAfterWithdraw amount) })
    (hpay : (transfer token t.self user amount).Ok env t u w') :
    w' = w.redeemed token user amount burned := by
  obtain ⟨-, rfl⟩ := ok_transfer.mp hpay
  rw [hdebit]
  rfl

/-- The four storage writes of a burn. -/
theorem book_debited {b : Book} {burned : Int} :
    Book.mk (b.setShares user (b.shares user - burned)).shares (b.totalShares - burned)
      (some (b.assets - amount)) (b.depositsAfterWithdraw amount) =
      b.debited user amount burned (b.depositsAfterWithdraw amount) := by
  have hshares : (b.setShares user (b.shares user - burned)).shares =
      (b.debited user amount burned 0).shares := by
    funext u
    by_cases hu : u = user
    · simp [Book.setShares, Book.debited, hu]
    · simp [Book.setShares, Book.debited, hu]
  rw [hshares]
  rfl

theorem redeem_leaves {token : Address} {x : Int} {paid : Int × Int}
    (h : (redeem user token x).Ok env w paid w') :
    w' = w.redeemed token user paid.1 paid.2 := by
  simp only [redeem, Tx.ok_bind, Tx.ok_get, Tx.ok_require, ok_getTotalSharesInternal,
    ok_getTotalAssetsInternal, ok_checkedSub, ok_setUserShares, ok_setTotalShares,
    ok_setTotalAssets, ok_reduceTotalDepositsOnWithdraw, Tx.ok_pure, existsAndEq, exists_const,
    and_assoc, true_and, and_true] at h
  obtain ⟨-, -, -, b, t0, hceil, -, -, a, t1, hfloor, -, -, -, _, hpay, rfl⟩ := h
  obtain ⟨-, rfl⟩ := ok_convertToSharesInternalCeil hceil
  obtain ⟨-, rfl⟩ := ok_convertToAssetsInternal hfloor
  exact redeemed_of_debit (congrArg (fun book => { t1 with book := book }) book_debited) hpay

theorem payOut_leaves {token : Address} {burned : Int} {u : Unit}
    (h : (payOut user token (w.book.shares user) w.book.totalShares w.book.assets amount
      burned).Ok env w u w') : w' = w.redeemed token user amount burned := by
  simp only [payOut, Tx.ok_bind, Tx.ok_get, ok_checkedSub, ok_setUserShares, ok_setTotalShares,
    ok_setTotalAssets, ok_reduceTotalDepositsOnWithdraw, existsAndEq, exists_const, and_assoc,
    true_and] at h
  obtain ⟨-, -, -, hpay⟩ := h
  exact redeemed_of_debit (congrArg (fun book => { w with book := book }) book_debited) hpay

/-- A burn is announced by the event after its payment. -/
theorem follows_burn {t : World} {e : Event} {burned deposits : Int}
    (hpay : indexed.Follows w { t with book := w.book })
    (hbook : t.book = w.book.debited user amount burned deposits)
    (he : ∀ r : Replica, r.totalDeposits = w.book.totalDeposits →
      r.apply e = r.burn user amount burned deposits)
    (hview : ∀ b, World.replica { w' with book := b } = World.replica { t with book := b })
    (hlog : w'.events = t.events ++ [e]) (hw' : w'.book = t.book) : indexed.Follows w w' := by
  refine hpay.trans (.event e hlog (fun _ => ?_) fun _ => ?_)
  · have hreplica : w'.replica = World.replica { t with book := w'.book } := hview w'.book
    rw [show indexed.view w' = w'.replica from rfl, hreplica, hw', hbook]
    exact (he (World.replica { t with book := w.book }) rfl).symm
  · show World.Booked w'
    rw [World.Booked, hw', hbook]
    rfl

/-- A redemption and the event that announces it. -/
theorem follows_redeemed {token : Address} {e : Event} {burned : Int} {u : Unit}
    (he : ∀ r : Replica,
      r.apply e = r.burn user amount burned (Replica.depositsAfter r.totalDeposits amount))
    (hpub : (publish e).Ok env (w.redeemed token user amount burned) u w') :
    indexed.Follows w w' := by
  obtain rfl := ok_publish.mp hpub
  have hpay : indexed.Follows w { w.redeemed token user amount burned with book := w.book } :=
    .event (.transfer token w.self user amount) rfl (fun _ => rfl) id
  refine follows_burn hpay rfl (fun r hr => ?_) (fun _ => rfl) rfl rfl
  rw [he, hr]
  rfl

theorem records_availableForWithdraw {token : Address} :
    Keeps records (availableForWithdraw token amount) :=
  .bind .get fun _ => .ite (.bind records_vaultBalance fun _ =>
    .ite (.bind records_pullMissing fun _ => .pure _) (.pure _)) (.pure _)

theorem records_availableForEmergency {token : Address} :
    Keeps records (availableForEmergency token amount) :=
  .bind .get fun _ => .bind records_vaultBalance fun _ =>
    .ite (.ite (.bind records_pullMissing fun _ => .pure _) (.pure _)) (.pure _)

theorem records_settleWithdrawAll {token : Address} {entitled s : Int} :
    Keeps records (settleWithdrawAll token entitled s) :=
  .bind .get fun _ => .ite (.bind records_vaultBalance fun _ =>
    .ite (.bind records_pullMissing fun _ => .ite (.bind .require fun _ =>
      .bind (.of_unchanged (unchanged_convertToSharesInternalCeil _)) fun _ => .pure _)
      (.pure _)) (.pure _)) (.pure _)

theorem records_withdraw : Keeps records (withdraw user amount) := by
  intro env w u w' h
  simp only [withdraw, Tx.ok_bind, ok_requireInitialized, ok_requireAuth, ok_requireNotPaused,
    ok_requirePositiveAmount, Tx.ok_require, ok_getUsdcToken, existsAndEq, exists_const, and_assoc,
    true_and] at h
  obtain ⟨-, -, -, -, -, _, t1, hrate, _, t2, hhold, _, t3, hlock, token, -, x, t4, havail, -, paid,
    t5, hredeem, hpub⟩ := h
  obtain ⟨-, rfl⟩ := requireHoldingPeriodElapsed_ok hhold
  obtain ⟨-, rfl⟩ := requireWithinUnlocked_ok hlock
  have hrate : indexed.Follows w t3 := records_enforceRateLimit hrate
  have hpull : indexed.Follows t3 t4 := records_availableForWithdraw havail
  obtain rfl := redeem_leaves hredeem
  exact (hrate.trans hpull).trans (follows_redeemed (fun _ => rfl) hpub)

theorem records_withdrawAll : Keeps records (withdrawAll user) := by
  intro env w paid w' h
  simp only [withdrawAll, Tx.ok_bind, Tx.ok_get, ok_requireInitialized, ok_requireAuth,
    ok_requireNotPaused, Tx.ok_require, ok_getUsdcToken, ok_getTotalSharesInternal,
    ok_getTotalAssetsInternal, Tx.ok_pure, existsAndEq, exists_const, and_assoc, true_and,
    and_true] at h
  obtain ⟨-, -, -, -, _, t0, hrate, s, t1, hs, token, -, -, -, -, e, t2, hent, p, t3, hsettle, -, -,
    _, t4, hpay, _, hpub, rfl⟩ := h
  obtain ⟨-, rfl⟩ := sharesToWithdrawAll_ok hs
  obtain ⟨-, rfl⟩ := ok_convertToAssetsInternal hent
  have hrate : indexed.Follows w t2 := records_enforceRateLimit hrate
  have hpull : indexed.Follows t2 t3 := records_settleWithdrawAll hsettle
  rw [← (settleWithdrawAll_ok hsettle).1.poolStep.book] at hpay
  obtain rfl := payOut_leaves hpay
  exact (hrate.trans hpull).trans (follows_redeemed (fun _ => rfl) hpub)

theorem records_emergencyWithdraw : Keeps records (emergencyWithdraw user amount) := by
  intro env w u w' h
  simp only [emergencyWithdraw, Tx.ok_bind, Tx.ok_get, ok_requireInitialized, ok_requireAuth,
    ok_requirePositiveAmount, Tx.ok_require, ok_getUsdcToken, existsAndEq, exists_const, and_assoc,
    true_and] at h
  obtain ⟨-, -, -, -, -, token, -, x, t1, havail, -, paid, t2, hredeem, hpub⟩ := h
  have hpull : indexed.Follows w t1 := records_availableForEmergency havail
  obtain rfl := redeem_leaves hredeem
  exact hpull.trans (follows_redeemed (fun _ => rfl) hpub)

/-! ## Migration and locks -/

/-- Setting the migrating user's shares to zero burns all of them; the principal stays. -/
theorem book_emptied {b : Book} :
    Book.mk (b.setShares user 0).shares (b.totalShares - b.shares user) (some (b.assets - amount))
      b.totalDeposits = b.debited user amount (b.shares user) b.totalDeposits := by
  have hshares : (b.setShares user 0).shares = (b.debited user amount (b.shares user) 0).shares := by
    funext u
    by_cases hu : u = user
    · simp [Book.setShares, Book.debited, hu]
    · simp [Book.setShares, Book.debited, hu]
  rw [hshares]
  rfl

theorem records_migrateShares : Keeps records (migrateShares user) := by
  intro env w u w' h
  simp only [migrateShares, Tx.ok_bind, Tx.ok_get, ok_requireInitialized, ok_requireAuth,
    Tx.ok_require, Tx.ok_expect, ok_getTotalSharesInternal, ok_getTotalAssetsInternal,
    ok_checkedSub, ok_getUsdcToken, ok_setUserShares, ok_setTotalShares, ok_setTotalAssets,
    ok_transfer, ok_publish, existsAndEq, exists_const, and_assoc, true_and] at h
  obtain ⟨-, -, -, -, target, -, -, amount, t0, hconv, -, -, token, -, -, -, _, t, hcall, rfl⟩ := h
  obtain ⟨-, rfl⟩ := ok_convertToAssetsInternal hconv
  simp only [invokeTargetDeposit, Tx.ok_bind, Tx.ok_read, Tx.ok_get, Tx.ok_require, Tx.ok_expect,
    Tx.ok_modify, existsAndEq, exists_const, and_assoc, true_and] at hcall
  obtain ⟨-, chain, -, rfl⟩ := hcall
  let t := (t0.emptied user amount).paying token t0.self target amount
  have hpay : indexed.Follows t0 { t with book := t0.book } :=
    .event (.transfer token t0.self target amount) rfl (fun _ => rfl) id
  refine follows_burn hpay rfl (fun r hr => ?_) (fun _ => rfl) rfl book_emptied
  show r.burn user amount (t0.book.shares user) r.totalDeposits = _
  rw [hr]

theorem records_lockShares {shares : Int} {days : Nat} :
    Keeps records (lockShares user shares days) := by
  intro env w u w' h
  simp only [lockShares, Tx.ok_bind, Tx.ok_get, ok_requireInitialized, ok_requireAuth,
    Tx.ok_require, Tx.ok_expect, ok_nativeSub, nativeAddU32, Tx.ok_pure, ok_putLocks, ok_publish,
    existsAndEq, exists_const, and_assoc, true_and] at h
  obtain ⟨-, -, -, -, terms, -, -, -, -, rfl⟩ := h
  exact .event _ rfl (fun _ => rfl) id

theorem records_unlockShares : Keeps records (unlockShares user) := by
  intro env w u w' h
  simp only [unlockShares, Tx.ok_bind, Tx.ok_get, ok_requireInitialized, ok_requireAuth,
    Tx.ok_require, Tx.ok_expect, ok_putLocks, ok_publish, existsAndEq, exists_const, and_assoc,
    true_and] at h
  obtain ⟨-, -, -, -, expiry, -, -, rfl⟩ := h
  exact .event _ rfl (fun _ => rfl) id

/-! ## Asset pools -/

section Assets

variable {asset : Symbol}

/-- A payment and the event of an asset pool that follows it. -/
theorem follows_asset {t : World} {e : Event} {token sender recipient : Address}
    (hlog : w'.events = (t.paying token sender recipient amount).events ++ [e])
    (hview : t.Booked → w'.replica = t.replica.apply e) (hbook : w'.Booked) :
    indexed.Follows t w' :=
  Replication.Follows.trans (t := t.paying token sender recipient amount)
    (.event (.transfer token sender recipient amount) rfl (fun _ => rfl) id)
    (.event e hlog hview fun _ => hbook)

/-- The stored total of an initialised book is its value. -/
theorem stored_assets {b : Book} (h : b.totalAssets.isSome = true) (d : Int) :
    b.totalAssets.getD d = b.assets := by
  obtain ⟨A, hA⟩ := Option.isSome_iff_exists.mp h
  rw [Book.assets, hA]
  rfl

theorem records_depositAsset : Keeps records (depositAsset user asset amount) := by
  intro env w u w' h
  simp only [depositAsset, Tx.ok_bind, Tx.ok_get, ok_requireInitialized, ok_requireAuth,
    ok_requireNotPaused, ok_requirePositiveAmount, getAssetConfigOr, Tx.ok_expect,
    readAssetTotals, Tx.ok_pure, Tx.ok_require, ok_checkedAdd, ok_transfer, setAssetShares,
    setAssetTotals, addToGlobalTotalsOnDeposit, ok_putAssets, ok_putBook, ok_publish, existsAndEq,
    exists_const, and_assoc, true_and] at h
  obtain ⟨-, -, -, -, -, _, t, hrate, config, -, _, t1, hlimits, minted, t2, hconv, -, -, -, -, -,
    -, -, rfl⟩ := h
  obtain rfl : t1 = t := unchanged_requireAssetLimits hlimits
  obtain ⟨-, rfl⟩ := ok_convertToAssetSharesInternal hconv
  have hrate : indexed.Follows w t2 := records_enforceRateLimit hrate
  refine hrate.trans (follows_asset rfl (fun hready => ?_) rfl)
  show Replica.mk .. = Replica.mk ..
  congr 1
  show i128.saturatingAdd (t2.book.totalAssets.getD 0) amount = _
  rw [stored_assets hready]
  rfl

theorem records_availableForAsset {token : Address} :
    Keeps records (availableForAsset token amount) :=
  .bind .get fun _ => .ite (.bind records_vaultBalance fun _ => .ite (.bind .expect fun _ =>
    .bind records_withdrawAmountFromProtocol fun _ => .bind records_vaultBalance fun _ => .pure _)
    (.pure _)) (.pure _)

/-- Neither path to the funds of an asset touches its pool. -/
theorem assets_availableForAsset {token : Address} {x : Int}
    (h : (availableForAsset token amount).Ok env w x w') : w'.assets = w.assets := by
  rcases availableForAsset_ok h with ⟨-, -, rfl⟩ | ⟨-, hpull, -⟩
  · rfl
  · exact (Pulled.poolStep (.inr ⟨_, hpull⟩)).assets

theorem records_withdrawAsset : Keeps records (withdrawAsset user asset amount) := by
  intro env w u w' h
  simp only [withdrawAsset, Tx.ok_bind, Tx.ok_get, ok_requireInitialized, ok_requireAuth,
    ok_requireNotPaused, ok_requirePositiveAmount, getAssetConfigOr, Tx.ok_expect,
    readAssetTotals, Tx.ok_pure, Tx.ok_require, settleAssetWithdraw, ok_checkedSub, ok_transfer,
    setAssetShares, setAssetTotals, reduceGlobalTotalsOnWithdraw, ok_putAssets, ok_putBook,
    ok_publish, existsAndEq, exists_const, and_assoc, true_and] at h
  obtain ⟨-, -, -, -, -, _, t, hrate, config, -, -, -, -, b, t1, hceil, -, -, a, t2, hfloor, x, t3,
    hpull, -, c, t4, hfinal, -, -, -, -, -, rfl⟩ := h
  obtain ⟨-, rfl⟩ := ok_convertToAssetSharesInternalCeil hceil
  obtain ⟨-, rfl⟩ := ok_convertToAssetAssetsInternal hfloor
  obtain ⟨-, rfl⟩ := ok_convertToAssetSharesInternalCeil hfinal
  have hrate : indexed.Follows w t2 := records_enforceRateLimit hrate
  have hassets : t4.assets = t2.assets := assets_availableForAsset hpull
  have hpull : indexed.Follows t2 t4 := records_availableForAsset hpull
  refine (hrate.trans hpull).trans (follows_asset rfl (fun hready => ?_) rfl)
  show Replica.mk .. = Replica.mk ..
  rw [← hassets]
  congr 1
  show max (i128.saturatingSub (t4.book.totalAssets.getD 0) x) 0 = _
  rw [stored_assets hready]
  rfl

end Assets

/-! ## Rebalancing -/

section Rebalancing

variable {status : Status} {u : Unit} {t : World}

/-- A completed rebalance is announced before its outcome is recorded; the copy does both at
    once. -/
theorem follows_outcome {protocol : Protocol} {apy : Int} {a : RebalanceAmounts}
    (hpub : (publishRebalance protocol apy status a).Ok env w u t)
    (hrecord : (recordRebalanceOutcome status).Ok env t u w') : indexed.Follows w w' := by
  obtain rfl := ok_publish.mp hpub
  simp only [recordRebalanceOutcome, Tx.ok_bind, Tx.ok_get, existsAndEq, true_and] at hrecord
  cases status with
  | failed =>
    simp only [modifyBreaker, Tx.ok_bind, Tx.ok_modify, Tx.ok_ite, Tx.ok_pure,
      ok_getOwnerInternal, ok_publish, existsAndEq, exists_const, and_assoc, true_and] at hrecord
    rcases hrecord with ⟨-, -, owner, -, rfl⟩ | ⟨-, rfl⟩
    · refine fun hready => ⟨hready, [.rebalance protocol apy .failed a.attempted a.moved a.supplied
        a.withdrawn, .emergencyPaused owner], ?_, rfl⟩
      exact List.append_assoc ..
    · exact .event _ rfl (fun _ => rfl) id
  | success =>
    obtain rfl := Tx.ok_modify.mp hrecord
    exact .event _ rfl (fun _ => rfl) id
  | noop =>
    obtain ⟨-, rfl⟩ := Tx.ok_pure.mp hrecord
    exact .event _ rfl (fun _ => rfl) id
  | partially =>
    obtain ⟨-, rfl⟩ := Tx.ok_pure.mp hrecord
    exact .event _ rfl (fun _ => rfl) id

theorem records_recordRebalanceLedger : Keeps records recordRebalanceLedger :=
  .bind .get fun _ => records_modify (fun _ => rfl) (fun _ => rfl) fun _ => rfl

theorem records_finishRebalance {p : Protocol} {apy : Int} {a : RebalanceAmounts} :
    Keeps records (finishRebalance p apy status a) := by
  intro env w u w' h
  obtain ⟨_, t1, hpub, hrest⟩ := Tx.ok_bind.mp h
  obtain ⟨_, t2, hrecord, hrest⟩ := Tx.ok_bind.mp hrest
  have htail : Keeps records (do recordRebalanceLedger; let _ ← syncDeployedSplit) :=
    .bind records_recordRebalanceLedger fun _ => .bind records_syncDeployedSplit fun _ => .pure _
  have htail : indexed.Follows t2 w' := htail hrest
  exact (follows_outcome hpub hrecord).trans htail

theorem records_exitProtocol {p : Protocol} {a : RebalanceAmounts} :
    Keeps records (exitProtocol p minOut a) :=
  .bind (.of_unchanged unchanged_getProtocolBalance) fun _ =>
    .bind records_withdrawFromProtocol fun _ => .ite
      (.bind (.of_unchanged unchanged_getProtocolBalance) fun _ =>
        .ite (.bind (records_publish fun _ => rfl) fun _ => .pure _) (.pure _))
      (.pure _)

theorem records_supplyIdle {a : RebalanceAmounts} : Keeps records (supplyIdle venue minOut a) :=
  .bind (.bind .get fun _ => .expect) fun _ => .bind records_getUsdcToken fun _ =>
    .bind records_vaultBalance fun _ => .ite (.bind records_supplyToVenue fun _ => .pure _)
      (.ite (.bind records_setCurrentProtocol fun _ => .pure _) (.pure _))

theorem records_enterProtocol {p current : Protocol} {apy : Int} {a : RebalanceAmounts} :
    Keeps records (enterProtocol p current apy minOut a) := by
  have hnone : Keeps records (rebalanceToNone current apy minOut a) := by
    refine .ite (.bind records_exitProtocol fun exited => ?_) records_finishRebalance
    cases exited with
    | none => exact .pure _
    | some a' => exact .bind records_setCurrentProtocol fun _ => records_finishRebalance
  have hvenue : ∀ venue, Keeps records (rebalanceToVenue venue apy minOut a) := fun _ =>
    .bind records_supplyIdle fun _ => records_finishRebalance
  cases p with
  | blend => exact hvenue .blend
  | dex => exact hvenue .dex
  | none => exact hnone
  | multi => exact hnone
  | other => exact hnone

theorem records_rebalance {p : Protocol} {apy : Int} : Keeps records (rebalance p apy minOut) := by
  refine records_liveAgentGuarded <| .bind .require fun _ =>
    .bind (.of_unchanged unchanged_requireCooldownElapsed) fun _ => .bind .require fun _ =>
    .bind .require fun _ => .bind records_enforceRateLimit fun _ => .bind .get fun w =>
    .ite (.bind records_exitProtocol fun exited => ?_) records_enterProtocol
  cases exited with
  | none => exact .pure _
  | some a => exact records_enterProtocol

/-- A new allocation is stored first and announced last, after a change of the marker. -/
theorem follows_allocation {m : Bool} {b : Venue → Nat} {s : Venue → Int} {p : Protocol} {e : Event}
    (hset : (setCurrentProtocol p).Ok env { w with
      deployment := { w.deployment with
        multiProtocolEnabled := m
        allocationBps := b
        deployed := s } } u t)
    (hpub : (publish e).Ok env t u w')
    (he : ∀ r : Replica, r.multiProtocolEnabled = w.deployment.multiProtocolEnabled →
      r.apply e = { r with multiProtocolEnabled := m, allocationBps := b }) :
    indexed.Follows w w' := by
  simp only [setCurrentProtocol, Tx.ok_bind, Tx.ok_get, Tx.ok_ite, Tx.ok_pure, ok_putDeployment,
    ok_publish, existsAndEq, exists_const, true_and] at hset
  obtain rfl := ok_publish.mp hpub
  rcases hset with ⟨-, rfl⟩ | ⟨-, rfl⟩
  · exact .event e rfl (fun _ => (he w.replica rfl).symm) id
  · have hmarker : indexed.Follows w
        { w with
          deployment := { w.deployment with currentProtocol := p }
          events := w.events ++ [.protocolChanged w.deployment.currentProtocol p] } :=
      .event (.protocolChanged w.deployment.currentProtocol p) rfl (fun _ => rfl) id
    exact hmarker.trans (.event e rfl
      (fun _ => (he { w.replica with currentProtocol := p } rfl).symm) id)

theorem records_enableMultiProtocol {enabled : Bool} :
    Keeps records (enableMultiProtocol enabled) := by
  refine records_ownerGuarded fun env w u w' h => ?_
  obtain ⟨live, t1, hsync, hrest⟩ := Tx.ok_bind.mp h
  have hsync : indexed.Follows w t1 := records_syncDeployedSplit hsync
  simp only [Tx.ok_bind, Tx.ok_get, existsAndEq, true_and] at hrest
  obtain ⟨bps, t2, hbps, hrest⟩ := hrest
  obtain rfl := unchanged_initialAllocation hbps
  simp only [setMultiProtocolEnabled, setAllocation, Tx.ok_bind, Tx.ok_get, ok_putDeployment,
    existsAndEq, exists_const, true_and] at hrest
  obtain ⟨_, t3, hset, hpub⟩ := hrest
  exact hsync.trans (follows_allocation hset hpub fun r _ => rfl)

theorem records_trimVenue {balance target : Int} :
    Keeps records (trimVenue venue balance target minOut) :=
  .ite (.bind .expect fun _ => .bind records_withdrawFromVenue fun _ => .pure _) (.pure _)

theorem records_topUpVenue {target available : Int} :
    Keeps records (topUpVenue venue target available minOut) :=
  .bind (.of_unchanged unchanged_getVenueBalance) fun _ => .ite
    (.bind .expect fun _ => .ite (.bind records_supplyToVenue fun _ => .pure _) (.pure _))
    (.pure _)

theorem records_multiLegs {x y : Nat} : Keeps records (multiLegs x y minOut) :=
  .bind records_getUsdcToken fun _ => .bind records_vaultBalance fun _ =>
    .bind (.of_unchanged unchanged_getVenueBalance) fun _ =>
    .bind (.of_unchanged unchanged_getVenueBalance) fun _ =>
    .bind (.of_unchanged unchanged_splitByBps) fun _ => .bind records_trimVenue fun _ =>
    .bind records_trimVenue fun _ => .bind records_vaultBalance fun _ =>
    .bind records_topUpVenue fun _ => .bind records_topUpVenue fun _ => .pure _

theorem records_multiRecord {x y : Nat} {old : World} {l : MultiLegs} :
    Keeps records (multiRecord x y old l) := by
  intro env w u w' h
  simp only [multiRecord, setAllocation, syncDeployedSplit, Tx.ok_bind, Tx.ok_get,
    ok_putDeployment, Tx.ok_pure, existsAndEq, exists_const, and_assoc, true_and] at h
  obtain ⟨blend, t1, dex, t2, hblend, hdex, _, t3, hset, _, t4, hpub, _, t5, hreb, _, t6, hrecord,
    hledger⟩ := h
  obtain rfl := unchanged_getVenueBalance hblend
  obtain rfl := unchanged_getVenueBalance hdex
  have halloc : indexed.Follows w t4 := follows_allocation hset hpub fun r hr => by
    rw [← hr]
    rfl
  have hledger : indexed.Follows t6 w' := records_recordRebalanceLedger hledger
  exact (halloc.trans (follows_outcome hreb hrecord)).trans hledger

theorem records_rebalanceMulti {x y : Nat} : Keeps records (rebalanceMulti x y minOut) := by
  rw [rebalanceMulti_eq]
  exact .bind (.of_unchanged unchanged_multiChecks) fun _ => .bind records_multiLegs fun _ =>
    records_multiRecord

theorem records_resupply {p : Protocol} {x : Int} : Keeps records (resupply p x minOut) := by
  refine .ite ?_ (.pure _)
  cases p with
  | blend => exact .bind records_supplyToVenue fun _ => .pure _
  | dex => exact .bind records_supplyToVenue fun _ => .pure _
  | none => exact .pure _
  | multi => exact .pure _
  | other => exact .pure _

theorem records_harvestRoundTrip {event : Protocol → Int → Event}
    (he : ∀ p x (r : Replica), r.apply (event p x) = r) :
    Keeps records (harvestRoundTrip minOut event) :=
  .bind .require fun _ => .bind (.of_unchanged unchanged_requireCooldownElapsed) fun _ =>
    .bind .get fun _ => .bind .require fun _ => .bind records_enforceRateLimit fun _ =>
    .bind records_withdrawFromProtocol fun _ => .bind records_resupply fun _ =>
    .bind (records_publish fun _ => he ..) fun _ => records_recordRebalanceLedger

theorem records_emergencyHarvest : Keeps records (emergencyHarvest minOut) :=
  .bind (.of_unchanged unchanged_requireInitialized) fun _ =>
    .bind records_getOwnerInternal fun _ => .bind (.of_unchanged unchanged_requireOwnerArg) fun _ =>
    records_harvestRoundTrip fun _ _ _ => rfl

end Rebalancing

/-! ## Reports -/

theorem attributions_remarks {y : Int} {e : Event} (he : e ∈ w.attributions y) (r : Replica) :
    r.apply e = r := by
  unfold World.attributions at he
  split_ifs at he
  · obtain ⟨user, -, he⟩ := List.mem_flatMap.mp he
    unfold World.attribution at he
    split_ifs at he
    · cases he
    · obtain rfl := List.mem_singleton.mp he
      rfl
  · cases he

/-- A report tells the holders first and the new total last. -/
theorem records_updateTotalAssets {agent : Address} {new : Int} {allow : Bool} {bps : Nat} :
    Keeps records (updateTotalAssets agent new allow bps) := by
  intro env w u w' h
  simp only [updateTotalAssets, ok_requireReporter, Tx.ok_bind, Tx.ok_get, ok_requireInitialized,
    Tx.ok_require, Tx.ok_onlyIf, ok_putBook, ok_publish, existsAndEq, exists_const, and_assoc,
    true_and] at h
  obtain ⟨-, -, -, -, -, _, t1, hdecrease, x, t2, hvisible, -, _, t3, hyield, rfl⟩ := h
  obtain rfl : t1 = w := by
    rcases hdecrease with ⟨-, hdecrease⟩ | ⟨-, rfl⟩
    · exact (requireDecreaseAllowed_ok hdecrease).2
    · rfl
  obtain ⟨-, rfl⟩ := totalAvailable_ok hvisible
  obtain ⟨es, hremarks, rfl⟩ : ∃ es, (∀ e ∈ es, ∀ r : Replica, r.apply e = r) ∧ t3 =
      World.announce { t2 with book := { t2.book with totalAssets := some new } } es := by
    rcases hyield with ⟨-, hyield⟩ | ⟨-, rfl⟩
    · exact ⟨_, fun e he => attributions_remarks he, (ok_emitYieldAttribution.mp hyield).2⟩
    · exact ⟨[], fun _ he => (List.not_mem_nil he).elim, announce_nil.symm⟩
  have htold : indexed.Follows t2 (t2.announce es) := fun hready =>
    ⟨hready, es, rfl, (Replication.rebuild_of_remarks hremarks).symm⟩
  exact htold.trans (.event (.assetsUpdated t2.book.assets new) rfl (fun _ => rfl) fun _ => rfl)

theorem records_setProtocolApy {p : Protocol} {n : Nat} : Keeps records (setProtocolApy p n) := by
  intro env w u w' h
  simp only [setProtocolApy, modifyReports, Tx.ok_bind, ok_requireInitialized, ok_requireIsAgent,
    Tx.ok_require, Tx.ok_expect, Tx.ok_modify, ok_publish, existsAndEq, exists_const, and_assoc,
    true_and] at h
  obtain ⟨-, -, -, -, venue, hvenue, rfl⟩ := h
  cases p with
  | blend =>
    obtain rfl := Option.some.inj hvenue
    exact .event (.protocolApyUpdated .blend n) rfl (fun _ => rfl) id
  | dex =>
    obtain rfl := Option.some.inj hvenue
    exact .event (.protocolApyUpdated .dex n) rfl (fun _ => rfl) id
  | none => cases hvenue
  | multi => cases hvenue
  | other => cases hvenue

theorem records_submitMevReport {p : Protocol} {x y : Int} :
    Keeps records (submitMevReport p x y) :=
  records_agentGuarded <| .bind .require fun _ => .bind .get fun _ => .bind .expect fun _ =>
    records_announced (fun _ => rfl) (fun _ => rfl) fun _ => rfl

theorem records_setMaxAcceptableMevLoss {x : Int} : Keeps records (setMaxAcceptableMevLoss x) :=
  records_ownerGuarded <| .bind .require fun _ =>
    records_modify (fun _ => rfl) (fun _ => rfl) fun _ => rfl

theorem records_submitApyPrediction {p : ApyPrediction} : Keeps records (submitApyPrediction p) :=
  records_agentGuarded <| .bind .get fun _ =>
    records_modify (fun _ => rfl) (fun _ => rfl) fun _ => rfl

/-! ## Pausing -/

section Pausing

variable {owner : Address}

theorem records_pause : Keeps records (pause owner) :=
  records_ownerArgGuarded <| records_announced (fun _ => rfl) (fun _ => rfl) fun _ => rfl

theorem records_unpause : Keeps records (unpause owner) :=
  records_ownerArgGuarded <| .bind .get fun _ => .bind .require fun _ =>
    records_announced (fun _ => rfl) (fun _ => rfl) fun _ => rfl

theorem records_emergencyPause : Keeps records (emergencyPause owner) :=
  records_ownerArgGuarded <| .bind .get fun _ =>
    .ite (.pure _) (records_announced (fun _ => rfl) (fun _ => rfl) fun _ => rfl)

theorem records_resetCircuitBreaker : Keeps records (resetCircuitBreaker owner) :=
  records_ownerArgGuarded <| records_announced (fun _ => rfl) (fun _ => rfl) fun _ => rfl

theorem records_setMaxConsecutiveFailures {n : Nat} :
    Keeps records (setMaxConsecutiveFailures n) :=
  records_ownerGuarded <| .bind .require fun _ => .bind .get fun _ =>
    records_announced (fun _ => rfl) (fun _ => rfl) fun _ => rfl

end Pausing

/-! ## Limits -/

theorem records_setTvlCap {cap : Int} : Keeps records (setTvlCap cap) :=
  records_ownerGuarded <| .bind .require fun _ => .bind .get fun _ =>
    records_announced (fun _ => rfl) (fun _ => rfl) fun _ => rfl

theorem records_setUserDepositCap {cap : Int} : Keeps records (setUserDepositCap cap) :=
  records_ownerGuarded <| .bind .require fun _ => .bind .get fun _ =>
    records_announced (fun _ => rfl) (fun _ => rfl) fun _ => rfl

/-- Both caps are announced one by one and then together. -/
theorem records_setCaps {userCap tvlCap : Int} : Keeps records (setCaps userCap tvlCap) := by
  intro env w u w' h
  simp only [setCaps, modifyLimits, Tx.ok_bind, Tx.ok_get, ok_requireInitialized,
    ok_requireIsOwner, Tx.ok_require, Tx.ok_modify, ok_publish, existsAndEq, exists_const,
    and_assoc, true_and] at h
  obtain ⟨-, -, -, -, -, -, rfl⟩ := h
  refine fun hready => ⟨hready, [.userDepositCapUpdated w.limits.userDepositCap userCap
    w.chain.timestamp, .tvlCapUpdated w.limits.tvlCap tvlCap w.chain.timestamp,
    .capsUpdated w.limits.userDepositCap userCap w.limits.tvlCap tvlCap], ?_, rfl⟩
  show (w.events ++ [_]) ++ [_] ++ [_] = w.events ++ _
  rw [List.append_assoc, List.append_assoc]
  rfl

theorem records_setLimits {min max : Int} : Keeps records (setLimits min max) :=
  records_ownerGuarded <| .bind .require fun _ => .bind .require fun _ => .bind .require fun _ =>
    .bind .get fun _ => records_announced (fun _ => rfl) (fun _ => rfl) fun _ => rfl

theorem records_setDepositLimits {min max : Int} : Keeps records (setDepositLimits min max) :=
  records_ownerGuarded <| .bind .require fun _ => .bind .require fun _ => .bind .require fun _ =>
    .bind .get fun _ => records_announced (fun _ => rfl) (fun _ => rfl) fun _ => rfl

theorem records_setRebalanceCooldown {n : Nat} : Keeps records (setRebalanceCooldown n) :=
  records_ownerGuarded <| .bind .get fun _ =>
    records_announced (fun _ => rfl) (fun _ => rfl) fun _ => rfl

theorem records_setMaxBatchSize {n : Nat} : Keeps records (setMaxBatchSize n) :=
  records_ownerGuarded <| .bind .get fun _ =>
    records_announced_owner (fun _ => rfl) (fun _ => rfl) fun _ _ => rfl

theorem records_setMinHoldingPeriod {n : Nat} : Keeps records (setMinHoldingPeriod n) :=
  records_ownerGuarded <| .bind .get fun _ =>
    records_modify (fun _ => rfl) (fun _ => rfl) fun _ => rfl

theorem records_setApprovalTtl {n : Nat} : Keeps records (setApprovalTtl n) :=
  records_ownerGuarded <| .bind .require fun _ => .bind .require fun _ =>
    .bind (.bind .get fun _ => .pure _) fun _ =>
    records_announced (fun _ => rfl) (fun _ => rfl) fun _ => rfl

theorem records_setBlendApprovalTtl {owner : Address} {n : Nat} :
    Keeps records (setBlendApprovalTtl owner n) :=
  records_ownerArgGuarded <| .bind (.bind .get fun _ => .pure _) fun _ =>
    records_announced (fun _ => rfl) (fun _ => rfl) fun _ => rfl

/-- Spent allowances are not published, so that resetting a bucket may come between the setting and
    its event. -/
theorem records_setRateLimit {c : RateLimitCategory} {m n : Nat} :
    Keeps records (setRateLimit c m n) := by
  intro env w u w' h
  simp only [setRateLimit, resetGlobalBucket, modifyLimits, Tx.ok_bind, ok_requireInitialized,
    ok_requireIsOwner, Tx.ok_require, Tx.ok_modify, Tx.ok_onlyIf, ok_getOwnerInternal, ok_publish,
    existsAndEq, exists_const, and_assoc, true_and] at h
  obtain ⟨-, -, -, _, t, hvalid, -, old, t', hold, t1, hreset, owner, -, rfl⟩ := h
  obtain ⟨-, rfl⟩ := Tx.ok_require.mp hvalid
  have hread : Keeps unchanged (getRateLimitConfigInternal c) :=
    .bind .require fun _ => .bind .get fun _ => .pure _
  obtain rfl : t' = t := hread hold
  let new : RateLimitConfig := if m = 0 then ⟨0, 0⟩ else ⟨m, n⟩
  let e : Event := .rateLimitConfigUpdated c old.maxCalls old.windowLedgers new.maxCalls
    new.windowLedgers owner
  rcases hreset with ⟨-, rfl⟩ | ⟨-, rfl⟩
  · exact .event e rfl (fun _ => rfl) id
  · exact .event e rfl (fun _ => rfl) id

/-! ## Roles, migration flags and upgrades -/

theorem records_setMigrationTarget {a : Address} : Keeps records (setMigrationTarget a) :=
  records_ownerGuarded <| .bind .get fun _ =>
    records_announced_owner (fun _ => rfl) (fun _ => rfl) fun _ _ => rfl

theorem records_setMigrationPaused {b : Bool} : Keeps records (setMigrationPaused b) :=
  records_ownerGuarded <| records_announced_owner (fun _ => rfl) (fun _ => rfl) fun _ _ => rfl

theorem records_updateAgent {a : Address} : Keeps records (updateAgent a) :=
  records_ownerGuarded <| .bind .get fun _ => .bind .require fun _ =>
    .bind records_getAgentInternal fun _ =>
    records_announced (fun _ => rfl) (fun _ => rfl) fun _ => rfl

/-- The confirmation also publishes the older `AgentUpdated`. -/
theorem records_confirmAgentUpdate : Keeps records confirmAgentUpdate := by
  intro env w u w' h
  simp only [confirmAgentUpdate, modifyRoles, Tx.ok_bind, Tx.ok_get, ok_requireInitialized,
    ok_requireIsOwner, Tx.ok_expect, Tx.ok_require, ok_getAgentInternal, Tx.ok_modify, ok_publish,
    existsAndEq, exists_const, and_assoc, true_and] at h
  obtain ⟨-, -, -, new, -, -, old, -, rfl⟩ := h
  refine fun hready =>
    ⟨hready, [.agentUpdateConfirmed old new, .agentUpdated old new], ?_, rfl⟩
  exact List.append_assoc ..

theorem records_cancelAgentUpdate : Keeps records cancelAgentUpdate :=
  records_ownerGuarded <| .bind .get fun _ => .bind .expect fun _ =>
    .bind records_getAgentInternal fun _ =>
    records_announced (fun _ => rfl) (fun _ => rfl) fun _ => rfl

theorem records_updateStandbyAgent {a : Address} : Keeps records (updateStandbyAgent a) :=
  records_ownerGuarded <| .bind records_getAgentInternal fun _ => .bind .require fun _ =>
    .bind .get fun _ => records_announced_owner (fun _ => rfl) (fun _ => rfl) fun _ _ => rfl

theorem records_switchToStandbyAgent : Keeps records switchToStandbyAgent :=
  records_ownerGuarded <| .bind records_getAgentInternal fun _ => .bind .get fun _ =>
    .bind .expect fun _ =>
    records_announced_owner (fun _ => rfl) (fun _ => rfl) fun _ _ => rfl

theorem records_changeGuardian {g : Option Address} : Keeps records (changeGuardian g) :=
  records_ownerGuarded <| .bind .get fun _ =>
    records_announced_owner (fun _ => rfl) (fun _ => rfl) fun _ _ => rfl

theorem records_transferOwnership {a : Address} : Keeps records (transferOwnership a) :=
  records_ownerGuarded <| .bind records_getOwnerInternal fun _ =>
    records_announced (fun _ => rfl) (fun _ => rfl) fun _ => rfl

theorem records_acceptOwnership {a : Address} : Keeps records (acceptOwnership a) :=
  .bind (.of_unchanged unchanged_requireInitialized) fun _ =>
    .bind (.of_unchanged unchanged_requireAuth) fun _ => .bind .get fun _ => .bind .expect fun _ =>
    .bind .require fun _ => .bind records_getOwnerInternal fun _ =>
    records_announced (fun _ => rfl) (fun _ => rfl) fun _ => rfl

theorem records_cancelOwnershipTransfer : Keeps records cancelOwnershipTransfer :=
  records_ownerGuarded <| .bind .get fun _ => .bind .expect fun _ =>
    .bind records_getOwnerInternal fun _ =>
    records_announced (fun _ => rfl) (fun _ => rfl) fun _ => rfl

theorem records_scheduleUpgrade {owner : Address} {n : Nat} :
    Keeps records (scheduleUpgrade owner n) :=
  .bind (.of_unchanged unchanged_requireInitialized) fun _ =>
    .bind (.of_unchanged unchanged_requireAuth) fun _ =>
    .bind (.of_unchanged unchanged_requireNotPaused) fun _ =>
    .bind records_getOwnerInternal fun _ => .bind .require fun _ => .bind .get fun _ =>
    .bind .require fun _ => .bind .require fun _ =>
    records_announced (fun _ => rfl) (fun _ => rfl) fun _ => rfl

theorem records_executeUpgrade {owner : Address} : Keeps records (executeUpgrade owner) := by
  intro env w u w' h
  simp only [executeUpgrade, updateCurrentContractWasm, modifyRoles, Tx.ok_bind, Tx.ok_get,
    Tx.ok_read, ok_requireInitialized, ok_requireAuth, ok_requireNotPaused, ok_getOwnerInternal,
    Tx.ok_expect, Tx.ok_require, Tx.ok_modify, ok_publish, existsAndEq, exists_const, and_assoc,
    true_and] at h
  obtain ⟨-, -, -, -, -, _, t, hguardian, hash, hpending, -, -, -, rfl⟩ := h
  obtain rfl : t = w := unchanged_requireGuardianAuth hguardian
  refine .event (.upgraded t.roles.version (t.roles.version + 1)) rfl (fun _ => ?_) id
  show Replica.mk .. = Replica.mk ..
  rw [← hpending]
  rfl

theorem records_cancelUpgrade {owner : Address} : Keeps records (cancelUpgrade owner) :=
  records_ownerArgGuarded <| .bind .get fun _ => .bind .expect fun _ =>
    records_announced (fun _ => rfl) (fun _ => rfl) fun _ => rfl

/-! ## The other calls -/

theorem addToIndex_supported {a : AssetPools} {asset : Symbol} :
    a.addToIndex asset = { a with
      supported := if asset ∈ a.supported then a.supported else a.supported ++ [asset] } := by
  unfold AssetPools.addToIndex
  split_ifs
  · rfl
  · rfl

/-- The asset registry is announced by name. -/
theorem records_addSupportedAsset {asset : Symbol} {token : Address} {x y z : Int} :
    Keeps records (addSupportedAsset asset token x y z) := by
  refine records_ownerGuarded fun env w u w' h => ?_
  simp only [Tx.ok_bind, Tx.ok_get, Tx.ok_require, ok_putAssets, ok_getOwnerInternal, ok_publish,
    existsAndEq, exists_const, and_assoc, true_and] at h
  obtain ⟨-, _, t, hvalid, owner, -, rfl⟩ := h
  obtain rfl := unchanged_requireValidAssetLimits hvalid
  refine .event (.supportedAssetsUpdated asset true owner t.chain.timestamp) rfl (fun _ => ?_) id
  rw [addToIndex_supported]
  rfl

theorem records_updateAssetLimits {asset : Symbol} {x y z : Int} :
    Keeps records (updateAssetLimits asset x y z) := by
  refine records_ownerGuarded <| .bind (.of_unchanged unchanged_requireValidAssetLimits) fun _ =>
    .bind (.bind .get fun _ => .expect) fun config env w u w' h => ?_
  simp only [Tx.ok_bind, Tx.ok_get, ok_putAssets, existsAndEq, true_and] at h
  rw [h]
  exact .silent rfl rfl id

theorem records_removeSupportedAsset {asset : Symbol} :
    Keeps records (removeSupportedAsset asset) := by
  refine records_ownerGuarded <| .bind (.bind .get fun _ => .pure _) fun totals =>
    .bind .require fun _ env w u w' h => ?_
  simp only [Tx.ok_bind, Tx.ok_get, ok_putAssets, ok_getOwnerInternal, ok_publish, existsAndEq,
    exists_const, true_and] at h
  obtain ⟨owner, -, rfl⟩ := h
  exact .event (.supportedAssetsUpdated asset false owner w.chain.timestamp) rfl (fun _ => rfl) id

theorem records_setVenuePool {owner pool : Address} :
    Keeps records (setVenuePool venue owner pool) := by
  intro env w u w' h
  simp only [setVenuePool, Tx.ok_bind, Tx.ok_get, ok_requireInitialized, ok_requireOwnerArg,
    Tx.ok_ite, Tx.ok_pure, ok_getUsdcToken, ok_poolBalance, ok_putDeployment, ok_publish,
    existsAndEq, exists_const, and_assoc, true_and] at h
  obtain ⟨-, -, -, -, ⟨-, rfl⟩ | ⟨-, _, -, rfl⟩⟩ := h
  · exact .refl
  · exact .event (.poolConfigured venue (w.deployment.pool venue) pool owner) rfl (fun _ => rfl) id

theorem records_setUserStrategy {s : Strategy} : Keeps records (setUserStrategy user s) :=
  .bind (.of_unchanged unchanged_requireInitialized) fun _ =>
    .bind (.of_unchanged unchanged_requireAuth) fun _ => .bind .require fun _ => .bind .get fun _ =>
    records_announced (fun _ => rfl) (fun _ => rfl) fun _ => rfl

theorem records_touchUserTtl : Keeps records (touchUserTtl user) :=
  .bind (.of_unchanged unchanged_requireInitialized) fun _ => records_enforceRateLimit

theorem records_batchTouchTtl {users : List Address} : Keeps records (batchTouchTtl users) :=
  .bind (.of_unchanged unchanged_requireInitialized) fun _ =>
    .bind (.bind .get fun _ => .require) fun _ => .each (fun _ => records_enforceRateLimit) users

theorem records_preview {conversion : Int → Contract Int} {x : Int}
    (h : ∀ x, Keeps unchanged (conversion x)) :
    Keeps records (discard (preview conversion x)) :=
  .bind (.bind (.of_unchanged unchanged_requireInitialized) fun _ =>
    .bind records_enforceRateLimit fun _ => .of_unchanged (h x)) fun _ => .pure _

/-- Every entrypoint of an initialised vault records what it does. -/
theorem follows_of_run {call : Call} {u : Unit} (hi : w.Initialized)
    (h : call.run.Ok env w u w') : indexed.Follows w w' := by
  cases call
  case initializeVault => exact absurd h (not_initializeVault_ok hi)
  case deposit => exact records_deposit h
  case batchDeposit => exact records_batchDeposit h
  case withdraw => exact records_withdraw h
  case withdrawAll => exact (Keeps.bind records_withdrawAll fun _ => .pure _) h
  case depositAsset => exact records_depositAsset h
  case withdrawAsset => exact records_withdrawAsset h
  case migrateShares => exact records_migrateShares h
  case lockShares => exact records_lockShares h
  case unlockShares => exact records_unlockShares h
  case emergencyWithdraw => exact records_emergencyWithdraw h
  case rebalance => exact records_rebalance h
  case enableMultiProtocol => exact records_enableMultiProtocol h
  case rebalanceMulti => exact records_rebalanceMulti h
  case harvest => exact records_liveAgentGuarded (records_harvestRoundTrip fun _ _ _ => rfl) h
  case emergencyHarvest => exact records_emergencyHarvest h
  case updateTotalAssets => exact records_updateTotalAssets h
  case setVenuePool => exact records_setVenuePool h
  case setProtocolApy => exact records_setProtocolApy h
  case submitMevReport => exact records_submitMevReport h
  case setMaxAcceptableMevLoss => exact records_setMaxAcceptableMevLoss h
  case submitApyPrediction => exact records_submitApyPrediction h
  case pause => exact records_pause h
  case unpause => exact records_unpause h
  case emergencyPause => exact records_emergencyPause h
  case resetCircuitBreaker => exact records_resetCircuitBreaker h
  case setMigrationTarget => exact records_setMigrationTarget h
  case setMigrationPaused => exact records_setMigrationPaused h
  case setTvlCap => exact records_setTvlCap h
  case setUserDepositCap => exact records_setUserDepositCap h
  case setCaps => exact records_setCaps h
  case setLimits => exact records_setLimits h
  case setDepositLimits => exact records_setDepositLimits h
  case setRebalanceCooldown => exact records_setRebalanceCooldown h
  case setRateLimit => exact records_setRateLimit h
  case setMaxBatchSize => exact records_setMaxBatchSize h
  case setMinHoldingPeriod => exact records_setMinHoldingPeriod h
  case setMaxConsecutiveFailures => exact records_setMaxConsecutiveFailures h
  case setApprovalTtl => exact records_setApprovalTtl h
  case setBlendApprovalTtl => exact records_setBlendApprovalTtl h
  case setUserStrategy => exact records_setUserStrategy h
  case touchUserTtl => exact records_touchUserTtl h
  case batchTouchTtl => exact records_batchTouchTtl h
  case previewDepositToShares => exact records_preview unchanged_convertToSharesInternal h
  case previewSharesToAssets => exact records_preview (fun _ => unchanged_convertToAssetsInternal) h
  case previewWithdraw => exact records_preview unchanged_convertToSharesInternalCeil h
  case convertToShares => exact records_preview unchanged_convertToSharesInternal h
  case convertToAssets => exact records_preview (fun _ => unchanged_convertToAssetsInternal) h
  case updateAgent => exact records_updateAgent h
  case confirmAgentUpdate => exact records_confirmAgentUpdate h
  case cancelAgentUpdate => exact records_cancelAgentUpdate h
  case updateStandbyAgent => exact records_updateStandbyAgent h
  case switchToStandbyAgent => exact records_switchToStandbyAgent h
  case setGuardian => exact records_changeGuardian h
  case removeGuardian => exact records_changeGuardian h
  case addSupportedAsset => exact records_addSupportedAsset h
  case updateAssetLimits => exact records_updateAssetLimits h
  case removeSupportedAsset => exact records_removeSupportedAsset h
  case transferOwnership => exact records_transferOwnership h
  case acceptOwnership => exact records_acceptOwnership h
  case cancelOwnershipTransfer => exact records_cancelOwnershipTransfer h
  case scheduleUpgrade => exact records_scheduleUpgrade h
  case executeUpgrade => exact records_executeUpgrade h
  case cancelUpgrade => exact records_cancelUpgrade h

/-! ## Steps -/

/-- Only `initialize` works on a vault that is not initialised. -/
theorem initialized_of_run {call : Call} {u : Unit} (h : call.run.Ok env w u w') :
    (∃ deployer owner agent usdcToken salt,
      call = .initializeVault deployer owner agent usdcToken salt) ∨ w.Initialized := by
  have hfirst : ∀ {α : Type} {x : Contract α} {a : α},
      (do requireInitialized; x : Contract α).Ok env w a w' → w.Initialized := by
    intro α x a h
    obtain ⟨_, t, hinit, -⟩ := Tx.ok_bind.mp h
    exact (ok_requireInitialized.mp hinit).1
  have hdiscard : ∀ {α : Type} {x : Contract α},
      (discard (do requireInitialized; x)).Ok env w u w' → w.Initialized := by
    intro α x h
    obtain ⟨_, t, hx, -⟩ := Tx.ok_bind.mp h
    obtain ⟨_, t', hinit, -⟩ := Tx.ok_bind.mp hx
    exact (ok_requireInitialized.mp hinit).1
  cases call with
  | initializeVault deployer owner agent usdcToken salt => exact .inl ⟨_, _, _, _, _, rfl⟩
  | withdrawAll => exact .inr (hdiscard h)
  | previewDepositToShares => exact .inr (hdiscard h)
  | previewSharesToAssets => exact .inr (hdiscard h)
  | previewWithdraw => exact .inr (hdiscard h)
  | convertToShares => exact .inr (hdiscard h)
  | convertToAssets => exact .inr (hdiscard h)
  | _ => exact .inr (hfirst h)

/-- A vault an indexer can follow: nothing is stored yet, or `initialize` has been there. -/
def World.Followable (w : World) : Prop := w.Blank ∨ (w.Initialized ∧ w.Booked)

theorem World.Blank.not_initialized (h : w.Blank) : ¬ w.Initialized := by
  intro hi
  rw [World.Initialized, h.roles] at hi
  exact Bool.false_ne_true hi.1

/-- Nothing is stored, so that nothing is copied. -/
theorem World.Blank.replica_eq (h : w.Blank) : w.replica = {} := by
  unfold World.replica
  rw [h.usdcToken, h.book, h.assets, h.locks, h.deployment, h.roles, h.limits, h.breaker,
    h.migration, h.profiles, h.reports]
  rfl

/-- The events of a successful call lead the copy to the storage it leaves. -/
theorem replica_of_invoke {call : Call} {u : Unit} (h : w.Followable)
    (hok : (invoke call).Ok env w u w') :
    w'.Followable ∧ w'.replica = indexed.rebuild w.replica w'.events := by
  have hrun : call.run.Ok env w.entered u w' := ok_invoke.mp hok
  rcases h with hblank | ⟨hi, hbooked⟩
  · rcases initialized_of_run hrun with ⟨deployer, owner, agent, usdcToken, salt, rfl⟩ | hi
    · obtain ⟨-, rfl⟩ := initializeVault_ok hrun
      refine ⟨.inr ⟨⟨rfl, rfl, rfl⟩, rfl⟩, ?_⟩
      show World.replica _ = w.replica.opened owner agent usdcToken 100000000000
      unfold World.replica Replica.opened World.initialized World.entered
      rw [hblank.book]
      rfl
    · exact absurd hi hblank.not_initialized
  · have hanchored := (effect_of_invoke hi hok).anchored
    obtain ⟨hbooked', es, hlog, hview⟩ := follows_of_run (w := w.entered) hi hrun hbooked
    obtain rfl : w'.events = es := hlog
    exact ⟨.inr ⟨hanchored.initialized hi, hbooked'⟩, hview⟩

theorem World.Blank.ambient {chain : Chain} (h : w.Blank) :
    World.Blank { w with chain := chain } :=
  ⟨h.usdcToken, h.book, h.assets, h.locks, h.holding, h.deployment, h.roles, h.limits, h.buckets,
    h.breaker, h.migration, h.profiles, h.reports⟩

/-- What a step publishes leads the copy to the storage after it. -/
theorem replica_after (step : Step) (h : w.Followable) :
    (w.after step).Followable ∧
      (w.after step).replica = indexed.rebuild w.replica (w.emitted step) := by
  cases step with
  | ambient chain => exact ⟨h.imp World.Blank.ambient id, rfl⟩
  | call env call =>
    show World.Followable ((invoke call).commit env w) ∧
      World.replica ((invoke call).commit env w) = indexed.rebuild w.replica
        (if (invoke call).succeeds env w = true then ((invoke call).commit env w).events else [])
    by_cases hok : (invoke call).succeeds env w = true
    · rw [if_pos hok]
      exact replica_of_invoke h (Tx.ok_commit hok)
    · rw [if_neg hok, Tx.commit_of_fails (Bool.not_eq_true _ ▸ hok)]
      exact ⟨h, rfl⟩

/-- From nothing stored, and through any run, the log of all events leads an empty copy to the
    storage. -/
theorem replica_of_replay {steps : List Step} (h : w.Blank) :
    (w.replay steps).replica = indexed.rebuild {} (w.log steps) := by
  have hstep : ∀ t step, World.Followable t → (t.after step).Followable ∧
      indexed.view (t.after step) = indexed.rebuild (indexed.view t) (t.emitted step) :=
    fun _ step ht => replica_after step ht
  rw [← h.replica_eq]
  exact Replication.view_of_run (.inl h) hstep steps

end NeuroWealth.Vault
