import NeuroWealth.Vault.Views
import NeuroWealth.Vault.Proofs.AccountsProofs
import NeuroWealth.Vault.Proofs.GovernanceProofs

/-!
# The holder index

The index lists every user whose shares are not zero, once. Both mint paths add a user who had
none, and nothing else writes it.
-/

namespace NeuroWealth.Vault

open Transaction MachineInt SharePool

variable {env : Env} {w w' : World} {call : Call} {user : Address} {amount : Int}

def World.holders (w : World) : List Address := w.profiles.userSharesIndex

/-- The index lists each user once, and all those with shares. -/
structure World.Indexed (w : World) : Prop where
  nodup : w.holders.Nodup
  listed : ∀ u, w.book.shares u ≠ 0 → u ∈ w.holders

/-- The index only gains users it did not list. -/
structure IndexGrows (w w' : World) : Prop where
  subset : w.holders ⊆ w'.holders
  nodup : w.holders.Nodup → w'.holders.Nodup

def indexGrows : Footprint Env World where
  rel _ w w' := IndexGrows w w'
  refl _ _ := ⟨fun _ h => h, id⟩
  trans h1 h2 := ⟨fun _ h => h2.subset (h1.subset h), h2.nodup ∘ h1.nodup⟩

/-! ## Code of the mint paths -/

theorem IndexGrows.of_same (h : w'.holders = w.holders) : IndexGrows w w' :=
  ⟨h ▸ fun _ hu => hu, fun hn => h ▸ hn⟩

/-- Code that does not write the index. -/
theorem holders_of_writes {α : Type} {x : Contract α} {a : α} (hx : Keeps (writes []) x)
    (h : x.Ok env w a w') : w'.holders = w.holders :=
  hx h .holders List.not_mem_nil

theorem indexGrows_of_writes {α : Type} {x : Contract α} (hx : Keeps (writes []) x) :
    Keeps indexGrows x :=
  fun _ _ _ _ h => .of_same (holders_of_writes hx h)

/-- The user is listed afterwards. -/
theorem addToUserIndex_ok {u : Unit} (h : (addToUserIndex user).Ok env w u w') :
    IndexGrows w w' ∧ user ∈ w'.holders := by
  have hindex : w'.holders =
      if user ∈ w.holders then w.holders else w.holders ++ [user] := by
    rw [Tx.ok_modify.mp h]
    exact apply_ite Profiles.userSharesIndex _ _ _
  by_cases huser : user ∈ w.holders
  · rw [if_pos huser] at hindex
    exact ⟨.of_same hindex, hindex ▸ huser⟩
  · rw [if_neg huser] at hindex
    refine ⟨⟨?_, fun hnodup => ?_⟩, ?_⟩
    · rw [hindex]
      exact List.subset_append_left _ _
    · rw [hindex]
      refine List.nodup_append.mpr ⟨hnodup, List.nodup_singleton user, ?_⟩
      rintro v hv x hx rfl
      rw [List.mem_singleton.mp hx] at hv
      exact huser hv
    · rw [hindex]
      exact List.mem_append_right _ (List.mem_singleton_self user)

theorem recordFirstDeposit_ok {x y : Int} {u : Unit}
    (h : (recordFirstDeposit user x y).Ok env w u w') : IndexGrows w w' ∧ user ∈ w'.holders := by
  obtain ⟨_, t, hadd, hrest⟩ := Tx.ok_bind.mp h
  obtain ⟨hgrows, huser⟩ := addToUserIndex_ok hadd
  simp only [Tx.ok_bind, Tx.ok_get, existsAndEq, true_and] at hrest
  obtain ⟨_, t', hsnapshot, hstrategy⟩ := hrest
  have hrecorded : IndexGrows t t' := by
    obtain rfl := Tx.ok_modify.mp hsnapshot
    exact .of_same rfl
  have hlater : IndexGrows t w' :=
    indexGrows.trans (r := env) hrecorded (indexGrows_of_writes writes_setDefaultStrategy hstrategy)
  exact ⟨indexGrows.trans (r := env) hgrows hlater, hlater.subset huser⟩

theorem recordFirstBatchDeposit_ok {u : Unit}
    (h : (recordFirstBatchDeposit user).Ok env w u w') :
    IndexGrows w w' ∧ user ∈ w'.holders := by
  obtain ⟨_, t, hadd, hrest⟩ := Tx.ok_bind.mp h
  obtain ⟨hgrows, huser⟩ := addToUserIndex_ok hadd
  have hlater : IndexGrows t w' := indexGrows_of_writes writes_setDefaultStrategy hrest
  exact ⟨indexGrows.trans (r := env) hgrows hlater, hlater.subset huser⟩

/-- What a mint path does to the index: it lists the user if the user had no shares. -/
structure Enlists (w w' : World) (user : Address) : Prop extends IndexGrows w w' where
  first : w.book.shares user = 0 → user ∈ w'.holders

/-- The common shape of both credits: code before and after the first-deposit records that leaves
    the index alone. -/
theorem Enlists.of_steps {t t' : World} (hbefore : t.holders = w.holders)
    (hrecord : (w.book.shares user = 0 ∧ IndexGrows t t' ∧ user ∈ t'.holders) ∨
      (w.book.shares user ≠ 0 ∧ t' = t)) (hafter : w'.holders = t'.holders) :
    Enlists w w' user := by
  have h1 : IndexGrows w t := .of_same hbefore
  have h3 : IndexGrows t' w' := .of_same hafter
  rcases hrecord with ⟨-, h2, huser⟩ | ⟨hne, rfl⟩
  · refine ⟨indexGrows.trans (r := ({} : Env)) (indexGrows.trans (r := {}) h1 h2) h3, fun _ => ?_⟩
    exact h3.subset huser
  · exact ⟨indexGrows.trans (r := ({} : Env)) h1 h3, fun hzero => absurd hzero hne⟩

theorem creditDeposit_enlists {u : Unit} (h : (creditDeposit user amount).Ok env w u w') :
    Enlists w w' user := by
  obtain ⟨minted, s, t, hs, hfirst, hprofiles, -⟩ := creditDeposit_records h
  have hbefore : s.holders = w.holders := by
    rw [hs]
    rfl
  have hafter : w'.holders = t.holders := congrArg Profiles.userSharesIndex hprofiles
  apply Enlists.of_steps hbefore _ hafter
  rcases Tx.ok_onlyIf.mp hfirst with ⟨hzero, hfirst⟩ | ⟨hne, rfl⟩
  · exact .inl ⟨hzero, recordFirstDeposit_ok hfirst⟩
  · exact .inr ⟨hne, rfl⟩

theorem creditBatchItem_enlists {item : BatchDepositItem} {minted : Int} {u : Unit}
    (h : (creditBatchItem item minted).Ok env w u w') : Enlists w w' item.user := by
  simp only [creditBatchItem, Tx.ok_bind, Tx.ok_get, Tx.ok_onlyIf, ok_checkedAdd,
    ok_readShares, ok_getTotalSharesInternal, ok_getTotalAssetsInternal, existsAndEq,
    and_assoc, true_and] at h
  obtain ⟨-, _, t1, hset, _, t2, hfirst, -, _, t3, hTD, -, _, t4, hTS, -, _, t5, hTA, _, t6,
    hhold, hpub⟩ := h
  have hafter : w'.holders = t2.holders :=
    calc w'.holders = t6.holders := holders_of_writes writes_publish hpub
      _ = t5.holders := holders_of_writes writes_recordDepositLedger hhold
      _ = t4.holders := holders_of_writes writes_book hTA
      _ = t3.holders := holders_of_writes writes_book hTS
      _ = t2.holders := holders_of_writes writes_book hTD
  apply Enlists.of_steps (holders_of_writes writes_book hset) _ hafter
  rcases hfirst with ⟨hzero, hfirst⟩ | ⟨hne, rfl⟩
  · exact .inl ⟨hzero, recordFirstBatchDeposit_ok hfirst⟩
  · exact .inr ⟨hne, rfl⟩

/-! ## Calls -/

/-- A credit keeps the index complete. -/
theorem World.Indexed.credited (h : w.Indexed) (henlists : Enlists w w' user)
    (hothers : ∀ v, v ≠ user → w'.book.shares v = w.book.shares v) : w'.Indexed := by
  refine ⟨henlists.nodup h.nodup, fun v hv => ?_⟩
  by_cases hvu : v = user
  · rw [hvu]
    by_cases hzero : w.book.shares user = 0
    · exact henlists.first hzero
    · exact henlists.subset (h.listed user hzero)
  · rw [hothers v hvu] at hv
    exact henlists.subset (h.listed v hv)

/-- So does whatever gives nobody shares who had none. -/
theorem World.Indexed.of_same (h : w.Indexed) (hholders : w'.holders = w.holders)
    (hshares : ∀ v, w'.book.shares v ≠ 0 → w.book.shares v ≠ 0) : w'.Indexed := by
  refine ⟨hholders ▸ h.nodup, fun v hv => ?_⟩
  rw [hholders]
  exact h.listed v (hshares v hv)

theorem deposit_indexed {u : Unit} (hw : w.Indexed) (h : (deposit user amount).Ok env w u w') :
    w'.Indexed := by
  obtain ⟨-, token, t, t', htoll, -, htransfer, hcredit⟩ := deposit_parts h
  have hholders : t'.holders = w.holders :=
    (holders_of_writes writes_transfer htransfer).trans
      (holders_of_writes writes_enforceUserRateLimit htoll)
  have hbook : t'.book = w.book :=
    (transfer_ok htransfer).book.trans (quiet_enforceRateLimit htoll).book
  have hready : t'.Indexed := hw.of_same hholders fun v hv => by rwa [hbook] at hv
  obtain ⟨minted, hc, -, -⟩ := creditDeposit_ok hcredit
  apply hready.credited (creditDeposit_enlists hcredit)
  intro v hv
  rw [hc.book]
  exact if_neg hv

/-- One entry of a batch. -/
theorem EntryStep.indexed {agent : Address} {item : BatchDepositItem} (hw : w.Indexed)
    (h : EntryStep env agent item w w') : w'.Indexed := by
  have hpaid : ∀ {token sender recipient : Address} {amount : Int} {x y : World}, x.Indexed →
      (transfer token sender recipient amount).Ok env x () y → y.Indexed := by
    intro token sender recipient amount x y hx htransfer
    apply hx.of_same (holders_of_writes writes_transfer htransfer)
    intro v hv
    rwa [(transfer_ok htransfer).book] at hv
  cases h with
  | skipped _ heq => exact heq ▸ hw
  | returned _ _ h1 _ h2 => exact hpaid (hpaid hw h1) h2
  | credited _ _ h1 _ _ _ h2 =>
    apply (hpaid hw h1).credited (creditBatchItem_enlists h2)
    intro v hv
    rw [(creditBatchItem_ok h2).book]
    exact if_neg hv

theorem depositBatch_indexed {agent : Address} {entries : List BatchDepositItem} {u : Unit}
    (hw : w.Indexed) (h : (Tx.each (depositBatchItem agent) entries).Ok env w u w') :
    w'.Indexed := by
  induction entries generalizing w with
  | nil =>
    obtain rfl := Tx.ok_each_nil.mp h
    exact hw
  | cons item rest ih =>
    obtain ⟨t, hitem, hrest⟩ := Tx.ok_each_cons.mp h
    exact ih ((depositBatchItem_ok hitem).indexed hw) hrest

theorem batchDeposit_indexed {agent : Address} {entries : List BatchDepositItem} {u : Unit}
    (hw : w.Indexed) (h : (batchDeposit agent entries).Ok env w u w') : w'.Indexed := by
  obtain ⟨-, t, t', tally, htoll, heach, hpub⟩ := batchDeposit_parts h
  have hcharged : t.Indexed := by
    apply hw.of_same (holders_of_writes writes_enforceUserRateLimit htoll)
    intro v hv
    rwa [(quiet_enforceRateLimit htoll).book] at hv
  apply (depositBatch_indexed hcharged heach).of_same (holders_of_writes writes_publish hpub)
  intro v hv
  rwa [(quiet_publish rfl hpub).book] at hv

/-- Calls that mint shares of the USDC pool. -/
def Call.mints : Call → Bool
  | .deposit .. => true
  | .batchDeposit .. => true
  | _ => false

theorem Withdrawal.shares_ne_zero {paid burned : Int} {v : Address}
    (h : Withdrawal env w w' user paid burned) (hv : w'.book.shares v ≠ 0) :
    w.book.shares v ≠ 0 := by
  obtain ⟨hterms, -⟩ := h.terms
  by_cases hvu : v = user
  · have hburned := hterms.burned_pos
    have hle := hterms.burned_le
    rw [hvu]
    omega
  · rwa [h.shares.2 v hvu] at hv

/-- Only a mint gives shares to a user without any. -/
theorem Effect.shares_ne_zero {v : Address} (h : Effect env w w' call)
    (hcall : call.mints = false) (hv : w'.book.shares v ≠ 0) : w.book.shares v ≠ 0 := by
  cases h with
  | quiet _ h => rwa [h.book] at hv
  | deposit => cases hcall
  | batchDeposit => cases hcall
  | withdraw h => exact h.shares_ne_zero hv
  | withdrawAll h => exact h.shares_ne_zero hv
  | emergencyWithdraw h => exact h.shares_ne_zero hv
  | @migrateShares user target amount h =>
    by_cases hvu : v = user
    · rw [hvu]
      exact h.holder.ne'
    · rwa [h.shares.2 v hvu] at hv
  | depositAsset _ _ _ _ h => rwa [h.book] at hv
  | withdrawAsset _ h => rwa [h.book] at hv
  | lockShares _ _ _ _ h => rwa [h.book] at hv
  | unlockShares _ _ _ h => rwa [h.book] at hv
  | funds _ h => rwa [h.poolStep.book] at hv
  | updateTotalAssets _ h => rwa [h.book] at hv
  | setVenuePool h => rwa [h.book] at hv
  | setMinHoldingPeriod h => rwa [h.book] at hv
  | assets _ h => rwa [h.book] at hv

theorem Withdrawal.shares_between {paid burned : Int} {v : Address}
    (h : Withdrawal env w w' user paid burned) (hv : 0 ≤ w.book.shares v) :
    0 ≤ w'.book.shares v ∧ w'.book.shares v ≤ w.book.shares v := by
  obtain ⟨hterms, -⟩ := h.terms
  by_cases hvu : v = user
  · have hburned := hterms.burned_pos
    have hle := hterms.burned_le
    rw [hvu, h.shares.1]
    omega
  · rw [h.shares.2 v hvu]
    omega

/-- Without a mint nobody's shares rise, and nobody's fall below zero. -/
theorem Effect.shares_between {v : Address} (h : Effect env w w' call)
    (hcall : call.mints = false) (hv : 0 ≤ w.book.shares v) :
    0 ≤ w'.book.shares v ∧ w'.book.shares v ≤ w.book.shares v := by
  have hsame : w'.book.shares v = w.book.shares v →
      0 ≤ w'.book.shares v ∧ w'.book.shares v ≤ w.book.shares v := by
    intro heq
    omega
  cases h with
  | quiet _ h => exact hsame (by rw [h.book])
  | deposit => cases hcall
  | batchDeposit => cases hcall
  | withdraw h => exact h.shares_between hv
  | withdrawAll h => exact h.shares_between hv
  | emergencyWithdraw h => exact h.shares_between hv
  | @migrateShares user target amount h =>
    by_cases hvu : v = user
    · rw [hvu, h.shares.1]
      exact ⟨le_rfl, h.holder.le⟩
    · exact hsame (h.shares.2 v hvu)
  | depositAsset _ _ _ _ h =>
    refine hsame ?_
    rw [h.book]
    rfl
  | withdrawAsset _ h =>
    refine hsame ?_
    rw [h.book]
    rfl
  | lockShares _ _ _ _ h => exact hsame (by rw [h.book])
  | unlockShares _ _ _ h => exact hsame (by rw [h.book])
  | funds _ h => exact hsame (by rw [h.poolStep.book])
  | updateTotalAssets _ h => exact hsame (by rw [h.book])
  | setVenuePool h => exact hsame (by rw [h.book])
  | setMinHoldingPeriod h => exact hsame (by rw [h.book])
  | assets _ h => exact hsame (by rw [h.book])

/-- Only the mint paths write the index of an initialized vault. -/
theorem Call.holders_unwritten {u : Unit} (hi : w.Initialized) (hcall : call.mints = false)
    (h : call.run.Ok env w u w') : .holders ∉ call.writes := by
  cases call
  case initializeVault => exact absurd h (not_initializeVault_ok hi)
  case deposit => cases hcall
  case batchDeposit => cases hcall
  case setRateLimit category _ _ =>
    by_cases hc : category = .rebalance <;> simp [Call.writes, hc]
  all_goals simp [Call.writes]

/-- Every step keeps the index complete. -/
theorem indexed_after (step : Step) (hi : w.Initialized) (hw : w.Indexed) :
    (w.after step).Indexed := by
  refine after_cases (P := World.Indexed) step hi hw ?_ ?_
  · intro env call w' _ hok heffect
    have hentered : w.entered.Indexed := ⟨hw.nodup, hw.listed⟩
    have hrun := ok_invoke.mp hok
    by_cases hmints : call.mints = true
    · cases call
      case deposit => exact deposit_indexed hentered hrun
      case batchDeposit => exact batchDeposit_indexed hentered hrun
      all_goals cases hmints
    · have hmints' := Bool.eq_false_of_not_eq_true hmints
      have hunwritten := Call.holders_unwritten (w := w.entered) hi hmints' hrun
      have hholders : w'.holders = w.holders := same_of_invoke hunwritten hok
      exact hw.of_same hholders fun _ hv => heffect.shares_ne_zero hmints' hv
  · intro chain _
    exact ⟨hw.nodup, hw.listed⟩

theorem World.Opened.indexed (h : w.Opened) : w.Indexed := by
  have hbook := h.fresh.book
  obtain ⟨env, blank, deployer, owner, agent, usdcToken, salt, hblank, hok⟩ := h
  obtain ⟨-, rfl⟩ := initializeVault_ok (ok_invoke.mp hok)
  have hempty : World.holders (blank.entered.initialized deployer owner agent usdcToken) = [] := by
    show blank.profiles.userSharesIndex = []
    rw [hblank.profiles]
  refine ⟨?_, fun v hv => ?_⟩
  · exact hempty ▸ List.nodup_nil
  · rw [hbook] at hv
    exact absurd rfl hv

/-- Along every run the index is complete and free of duplicates. -/
theorem indexed_of_reaches {w0 : World} {admissible : World → Step → Prop} (h0 : w0.Opened)
    (h : Reaches admissible w0 w) : w.Indexed :=
  (h.invariant h0 h0.indexed fun _ step _ hi hw => indexed_after step hi hw).1

/-! ## Pages -/

theorem ok_getUsersWithShares {start limit : Nat} {page : List (Address × Int)}
    (hlimit : 1 ≤ limit) (hstart : start < w.holders.length) :
    (getUsersWithShares start limit).Ok env w page w' ↔ w.Initialized ∧ w' = w ∧
      page = w.book.holdersIn
        ((w.holders.take (min (saturatingAddU32 start limit) w.holders.length)).drop start) := by
  have hpositive : limit ≠ 0 := by omega
  have hinside : ¬ w.profiles.userSharesIndex.length ≤ start := Nat.not_le.mpr hstart
  simp only [getUsersWithShares, Tx.ok_bind, Tx.ok_get, ok_requireInitialized, Tx.ok_pure,
    if_neg hpositive, if_neg hinside, existsAndEq, exists_const, and_assoc, true_and]
  constructor
  · rintro ⟨hi, rfl, rfl⟩
    exact ⟨hi, rfl, rfl⟩
  · rintro ⟨hi, rfl, rfl⟩
    exact ⟨hi, rfl, rfl⟩

/-- A page's window and what follows it. -/
theorem window_append {α : Type} (l : List α) {start limit : Nat}
    (hlen : u32.Fits (l.length : Int)) :
    (l.take (min (saturatingAddU32 start limit) l.length)).drop start ++ l.drop (start + limit) =
      l.drop start := by
  have hlen' : (l.length : Int) ≤ 4294967295 := hlen.2
  have hstop : min (saturatingAddU32 start limit) l.length = min (start + limit) l.length := by
    unfold saturatingAddU32
    omega
  have hwindow : (l.take (start + limit)).drop start = (l.drop start).take limit := by
    rw [List.drop_take, Nat.add_sub_cancel_left]
  rw [hstop, ← List.take_eq_take_min, hwindow, ← List.drop_drop]
  exact List.take_append_drop limit (l.drop start)

theorem holdersIn_append (b : Book) (l1 l2 : List Address) :
    b.holdersIn (l1 ++ l2) = b.holdersIn l1 ++ b.holdersIn l2 :=
  List.filterMap_append

end NeuroWealth.Vault
