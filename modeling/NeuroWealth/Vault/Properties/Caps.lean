import NeuroWealth.Vault.Proofs.BatchesProofs
import NeuroWealth.Vault.Properties.AssetIsolation

/-!
# The deposit caps

The cap on the total and the cap on each user, after every deposit. `deposit_asset` does not look
at the first, and the first shares of a vault that already has assets are priced past the second.
-/

namespace NeuroWealth.Vault

open Transaction MachineInt SharePool

variable {env : Env} {w w0 w' t t' : World} {agent user : Address} {item first : BatchDepositItem}
  {entries pre rest : List BatchDepositItem} {amount minted cap budget : Int}

/-! ## One credit -/

/-- The first shares are worth all assets. -/
theorem claim_of_first (hb : w.book.Regular) (hS : w.book.totalShares = 0) (hpos : 0 < amount)
    (hprice : minted = Pool.sharesFor w.book.totalShares w.book.assets amount)
    (hbook : w'.book = w.book.credited user amount minted) :
    w'.claim user = w.book.assets + amount := by
  have hminted : minted = amount := by
    rw [hprice, hS]
    exact Pool.sharesFor_empty
  have hnone : w.book.shares user = 0 := by
    have hle := hb.conserved.shares_le user
    have hnonneg := hb.conserved.nonneg user
    change w.book.shares user ≤ w.book.totalShares at hle
    change 0 ≤ w.book.shares user at hnonneg
    omega
  unfold World.claim Pool.claim
  rw [hbook, hb.pool_credited, Pool.mint_shares_self, Pool.mint_supply, Pool.mint_assets]
  show (w.book.shares user + minted) * (w.book.assets + amount) / (w.book.totalShares + minted) = _
  rw [hnone, hS, hminted]
  simp [Int.mul_ediv_cancel_left _ hpos.ne']

/-- Later shares are worth what is paid for them, at most. -/
theorem claim_of_later (hb : w.book.Regular) (hS : w.book.totalShares ≠ 0) (hpos : 0 < amount)
    (hprice : minted = Pool.sharesFor w.book.totalShares w.book.assets amount)
    (hbook : w'.book = w.book.credited user amount minted) :
    w'.claim user ≤ w.claim user + amount := by
  have hw : w.book.pool.WellFormed := ⟨hb.conserved, hb.assets_nonneg, fun hz => absurd hz hS⟩
  unfold World.claim
  rw [hbook, hb.pool_credited, hprice]
  exact Pool.claim_mint_le hw (hb.sharesFor_nonneg hpos.le) hpos.le (hw.sharesFor_mul_le hpos.le)

/-- A credit that was within the cap when it was judged stays within it, unless it creates the
    first shares. -/
theorem claim_within_iff (hb : w.book.Regular) (hpos : 0 < amount)
    (hprice : minted = Pool.sharesFor w.book.totalShares w.book.assets amount)
    (hbook : w'.book = w.book.credited user amount minted)
    (hcap : w.exposure user + amount ≤ cap) :
    w'.claim user ≤ cap ↔ (w.book.totalShares = 0 → w.book.assets + amount ≤ cap) := by
  by_cases hS : w.book.totalShares = 0
  · rw [claim_of_first hb hS hpos hprice hbook]
    exact ⟨fun h _ => h, fun h => h hS⟩
  · have hle := claim_of_later hb hS hpos hprice hbook
    rw [exposure_eq_claim hb] at hcap
    exact ⟨fun _ hz => absurd hz hS, fun _ => by omega⟩

/-! ## What the caps promise -/

/-- After a deposit the total is within its cap, and right after each credit the claim of its user
    is within the user's. -/
def World.CapsHold (w : World) (env : Env) (w' : World) : Call → Prop
  | .deposit user _ =>
    w'.book.assets ≤ w.limits.tvlCap ∧ w'.claim user ≤ w.limits.userDepositCap
  | .batchDeposit agent entries =>
    w'.book.assets ≤ w.limits.tvlCap ∧
      ∀ pre item rest t t', entries = pre ++ item :: rest → w.BatchReaches env agent pre t →
        (depositBatchItem agent item).Ok env t () t' →
        t'.book.shares item.user ≠ t.book.shares item.user →
        t'.claim item.user ≤ w.limits.userDepositCap
  | .depositAsset _ asset _ =>
    ∀ config, w.assets.config asset = some config → config.tvlCap = 0 →
      w'.book.assets ≤ w.limits.tvlCap
  | _ => True

/-- What the calls do not check: a deposit of an asset without a cap of its own fits under the cap
    on the total, the first shares fit under the user's cap with all assets there are, and a batch
    that deposits nothing finds the total within its cap. -/
def World.CapsApply (w : World) : Call → Prop
  | .deposit _ amount =>
    w.book.totalShares = 0 → w.book.assets + amount ≤ w.limits.userDepositCap
  | .batchDeposit _ entries =>
    match entries.find? fun item => decide (w.AdmitsEntry item) with
    | some first =>
      w.book.totalShares = 0 → w.book.assets + first.amount ≤ w.limits.userDepositCap
    | none => w.book.assets ≤ w.limits.tvlCap
  | .depositAsset _ asset amount =>
    ∀ config, w.assets.config asset = some config → config.tvlCap = 0 →
      i128.saturatingAdd w.book.assets amount ≤ w.limits.tvlCap
  | _ => True

/-! ## Single deposits -/

theorem caps_of_deposit (hb : w.book.Regular) (hT : 0 < w.limits.tvlCap)
    (hU : 0 < w.limits.userDepositCap) (h : (deposit user amount).Ok env w () w') :
    w'.book.assets ≤ w.limits.tvlCap ∧ (w'.claim user ≤ w.limits.userDepositCap ↔
      (w.book.totalShares = 0 → w.book.assets + amount ≤ w.limits.userDepositCap)) := by
  obtain ⟨hcap, htvl⟩ := deposit_capped h
  obtain ⟨s, minted, hq, hd, -⟩ := deposit_ok h
  obtain ⟨token, s', -, hpaid, hcredit⟩ := hd.steps
  have hbook : w'.book = w.book.credited user amount minted := by
    rw [hcredit.book, hpaid.book, hq.book]
  have hprice : minted = Pool.sharesFor w.book.totalShares w.book.assets amount := by
    rw [← hq.book]
    refine hd.price _ ?_
    rw [hq.book]
    exact hb.stored
  refine ⟨?_, claim_within_iff hb hd.positive hprice hbook (hcap hU)⟩
  rw [hbook, hb.assets_credited]
  exact htvl hT

/-! ## Batches -/

/-- An entry that changes its user's shares was admitted and credited. -/
theorem credited_of_shares_ne (h : EntryStep env agent item t t') (hb : t.book.Regular)
    (hne : t'.book.shares item.user ≠ t.book.shares item.user) :
    t.AdmitsEntry item ∧ ∃ minted, 0 < minted ∧
      minted = Pool.sharesFor t.book.totalShares t.book.assets item.amount ∧
      t'.book = t.book.credited item.user item.amount minted := by
  rcases h.book hb with heq | hcredited
  · rw [heq] at hne
    exact absurd rfl hne
  · exact hcredited

/-- The first admitted entry of a vault without shares creates them. -/
theorem credits_of_first (h : EntryStep env agent item t t')
    (hS : t.book.totalShares = 0) (hadmits : t.AdmitsEntry item) :
    ∃ minted, 0 < minted ∧ minted = Pool.sharesFor t.book.totalShares t.book.assets item.amount ∧
      t'.book = t.book.credited item.user item.amount minted := by
  have hpos := hadmits.1.1
  have hminted : Pool.sharesFor t.book.totalShares t.book.assets item.amount = item.amount := by
    rw [hS]
    exact Pool.sharesFor_empty
  cases h with
  | skipped hrejects => exact absurd hadmits hrejects
  | returned _ _ _ hzero => omega
  | @credited token s minted _ _ h1 hprice _ hne h2 =>
    refine ⟨minted, by omega, hprice, ?_⟩
    rw [(creditBatchItem_ok h2).book, (transfer_ok h1).book]

/-- While a pass finds no shares, it has admitted nothing. -/
theorem none_admitted (h0 : w0.book.Regular) (hS : t.book.totalShares = 0)
    (hpre : (Tx.each (depositBatchItem agent) pre).Ok env w0 () t) :
    ∀ item ∈ pre, ¬ w0.AdmitsEntry item := by
  intro item hmem hadmits
  have hfound : ∃ first, pre.find? (fun item => decide (w0.AdmitsEntry item)) = some first :=
    Option.isSome_iff_exists.mp
      (List.find?_isSome.mpr ⟨item, hmem, decide_eq_true hadmits⟩)
  obtain ⟨first, hfirst⟩ := hfound
  obtain ⟨hadmits, before, after, rfl, hnone⟩ := List.find?_eq_some_iff_append.mp hfirst
  obtain ⟨s, hbefore, hrest⟩ := Tx.ok_each_append.mp hpre
  have hidle : s = w0 := by
    refine pass_idle ?_ hbefore
    intro x hx hx'
    have hrejects := hnone x hx
    simp [hx'] at hrejects
  subst hidle
  obtain ⟨s', hentry, hafter⟩ := Tx.ok_each_cons.mp hrest
  have hstep := depositBatchItem_ok hentry
  have hgrow : InPass s t [] _ := .finish h0 hpre
  have hsupply := hgrow.supply
  have hnonneg := h0.conserved.supply_nonneg
  change 0 ≤ s.book.totalShares at hnonneg
  have hS0 : s.book.totalShares = 0 := by omega
  obtain ⟨minted, hpos, -, hbook⟩ :=
    credits_of_first hstep hS0 (of_decide_eq_true hadmits)
  have hsome : s'.book.totalShares = minted := by
    rw [hbook]
    show s.book.totalShares + minted = minted
    omega
  have hlater : InPass s' t [] _ := .finish (hstep.regular h0) hafter
  have hmore := hlater.supply
  omega

/-- What was judged admissible within a total that fits is within the user's cap. -/
theorem exposure_le_of_admits (hb : t.book.Regular) (hU : 0 < t.limits.userDepositCap)
    (hadmits : t.AdmitsEntry item) (hfits : i128.Fits budget)
    (hle : t.book.assets + item.amount ≤ budget) :
    t.exposure item.user + item.amount ≤ t.limits.userDepositCap := by
  obtain ⟨⟨hpos, -⟩, hcap⟩ := hadmits
  have hs := hb.conserved.nonneg item.user
  have hlow : 0 ≤ t.exposure item.user :=
    Pool.assetsFor_nonneg hb.conserved.supply_nonneg hb.assets_nonneg hs
  have hhigh : t.exposure item.user ≤ t.book.assets :=
    Pool.assetsFor_le hb.conserved.supply_nonneg hb.assets_nonneg hs
      (hb.conserved.shares_le item.user)
  have hsum : i128.Fits (t.exposure item.user + item.amount) :=
    fits_of_le (by omega) (by omega) hfits
  have hle := hcap hU
  unfold Format.saturatingAdd at hle
  rwa [saturate_of_fits hsum] at hle

/-- The claims after the credits of a pass, given what its first entry finds. -/
theorem claims_of_pass (h0 : w0.book.Regular) (hU : 0 < w0.limits.userDepositCap)
    (hfits : i128.Fits (w0.book.assets + w0.admitted entries))
    (hfirst : entries.find? (fun item => decide (w0.AdmitsEntry item)) = some first)
    (happly : w0.book.totalShares = 0 →
      w0.book.assets + first.amount ≤ w0.limits.userDepositCap)
    (hsplit : entries = pre ++ item :: rest)
    (hpre : (Tx.each (depositBatchItem agent) pre).Ok env w0 () t)
    (hstep : EntryStep env agent item t t')
    (hne : t'.book.shares item.user ≠ t.book.shares item.user) :
    t'.claim item.user ≤ w0.limits.userDepositCap := by
  subst hsplit
  have hpass : InPass w0 t (item :: rest) _ := .within h0 hpre
  obtain ⟨hadmits, minted, -, hprice, hbook⟩ := credited_of_shares_ne hstep hpass.regular hne
  have hcap : t.exposure item.user + item.amount ≤ t.limits.userDepositCap := by
    refine exposure_le_of_admits hpass.regular ?_ hadmits hfits (hpass.entry_room h0 hadmits)
    rwa [hpass.frame.limits]
  rw [hpass.frame.limits] at hcap
  refine (claim_within_iff hpass.regular hadmits.1.1 hprice hbook hcap).mpr fun hS => ?_
  have hnone := none_admitted h0 hS hpre
  obtain rfl : t = w0 := pass_idle hnone hpre
  have hskip : pre.find? (fun item => decide (t.AdmitsEntry item)) = none := by
    apply List.find?_eq_none.mpr
    intro x hx hx'
    exact hnone x hx (of_decide_eq_true hx')
  have hhead : (item :: rest).find? (fun item => decide (t.AdmitsEntry item)) = some item :=
    List.find?_cons_of_pos (decide_eq_true hadmits)
  rw [List.find?_append, hskip, Option.none_or, hhead] at hfirst
  cases hfirst
  exact happly hS

/-- An effects pass keeps to the caps exactly when its first entry, or the total if it has none,
    does. -/
theorem caps_of_pass (h0 : w0.book.Regular) (hT : 0 < w0.limits.tvlCap)
    (hU : 0 < w0.limits.userDepositCap)
    (hcapped : 0 < w0.admitted entries → i128.Fits (w0.book.assets + w0.admitted entries) ∧
      w0.book.assets + w0.admitted entries ≤ w0.limits.tvlCap)
    (heach : (Tx.each (depositBatchItem agent) entries).Ok env w0 () w') :
    (w'.book.assets ≤ w0.limits.tvlCap ∧
      ∀ pre item rest t t', entries = pre ++ item :: rest →
        (Tx.each (depositBatchItem agent) pre).Ok env w0 () t →
        (depositBatchItem agent item).Ok env t () t' →
        t'.book.shares item.user ≠ t.book.shares item.user →
        t'.claim item.user ≤ w0.limits.userDepositCap) ↔
    match entries.find? fun item => decide (w0.AdmitsEntry item) with
    | some first =>
      w0.book.totalShares = 0 → w0.book.assets + first.amount ≤ w0.limits.userDepositCap
    | none => w0.book.assets ≤ w0.limits.tvlCap := by
  cases hfirst : entries.find? fun item => decide (w0.AdmitsEntry item) with
  | none =>
    have hnone : ∀ item ∈ entries, ¬ w0.AdmitsEntry item := fun item hmem hadmits =>
      List.find?_eq_none.mp hfirst item hmem (decide_eq_true hadmits)
    rw [pass_idle hnone heach]
    refine ⟨fun h => h.1, fun h => ⟨h, ?_⟩⟩
    rintro pre item rest t t' rfl hpre hentry hne
    have hrejects := hnone item (List.mem_append_right pre List.mem_cons_self)
    obtain rfl : t = w0 := pass_idle (fun x hx => hnone x (List.mem_append_left _ hx)) hpre
    exact absurd (credited_of_shares_ne (depositBatchItem_ok hentry) h0 hne).1 hrejects
  | some first =>
    obtain ⟨hadmits, before, after, hsplit, hnone⟩ := List.find?_eq_some_iff_append.mp hfirst
    have hadmits := of_decide_eq_true hadmits
    have hmem : first ∈ entries := by
      rw [hsplit]
      exact List.mem_append_right _ List.mem_cons_self
    obtain ⟨hfits, hcap⟩ := hcapped (admitted_pos hmem hadmits)
    have hend : InPass w0 w' [] _ := .finish h0 heach
    have htotal : w'.book.assets + 0 ≤ w0.book.assets + w0.admitted entries := hend.room
    constructor
    · rintro ⟨-, hclaims⟩ hS
      rw [hsplit] at heach
      obtain ⟨t, hbefore, hafter⟩ := Tx.ok_each_append.mp heach
      obtain ⟨t', hentry, -⟩ := Tx.ok_each_cons.mp hafter
      have hidle : t = w0 := by
        refine pass_idle ?_ hbefore
        intro x hx hx'
        have hrejects := hnone x hx
        simp [hx'] at hrejects
      subst hidle
      obtain ⟨minted, hpos, hprice, hbook⟩ :=
        credits_of_first (depositBatchItem_ok hentry) hS hadmits
      have hne : t'.book.shares first.user ≠ t.book.shares first.user := by
        rw [hbook]
        show (if first.user = first.user then t.book.shares first.user + minted else _) ≠ _
        rw [if_pos rfl]
        omega
      have hclaim := hclaims before first after t t' hsplit hbefore hentry hne
      rwa [claim_of_first h0 hS hadmits.1.1 hprice hbook] at hclaim
    · intro happly
      refine ⟨by omega, ?_⟩
      intro pre item rest t t' hsplit hpre hentry hne
      exact claims_of_pass h0 hU hfits hfirst happly hsplit hpre (depositBatchItem_ok hentry) hne

theorem caps_of_batch (hb : w.book.Regular) (hT : 0 < w.limits.tvlCap)
    (hU : 0 < w.limits.userDepositCap) (h : (invoke (.batchDeposit agent entries)).Ok env w () w') :
    w.CapsHold env w' (.batchDeposit agent entries) ↔ w.CapsApply (.batchDeposit agent entries) := by
  obtain ⟨w0, -, htoll, hcapped, s, heach, skipped, -, rfl⟩ := batchDeposit_passes (ok_invoke.mp h)
  have hreaches : ∀ {pre t}, w.BatchReaches env agent pre t ↔
      (Tx.each (depositBatchItem agent) pre).Ok env w0 () t := by
    intro pre t
    constructor
    · rintro ⟨w1, htoll1, hpre⟩
      obtain rfl := (Tx.Ok.unique htoll1 htoll).2
      exact hpre
    · exact fun hpre => ⟨w0, htoll, hpre⟩
  have hsame : w0 = { w.entered with buckets := w0.buckets } := tollOnly_enforceRateLimit htoll
  have hbook : w0.book = w.book := by rw [hsame]; rfl
  have hlimits : w0.limits = w.limits := by rw [hsame]; rfl
  rw [← hlimits] at hT hU
  rw [← hbook] at hb
  have hpass := caps_of_pass hb hT hU (fun hpos => hcapped hpos hT) heach
  unfold World.CapsHold
  simp only [hreaches]
  generalize w0.buckets = b at hsame
  subst hsame
  exact hpass

/-! ## Every deposit -/

/-- In every state reachable without negative reports, both caps hold after a successful deposit,
    batch or deposit of an asset exactly when what these calls do not check is true. -/
theorem caps_hold_iff {call : Call} (h0 : w0.Opened)
    (h : Reaches (fun _ step => step.ReportsNonNegative) w0 w) (hT : 0 < w.limits.tvlCap)
    (hU : 0 < w.limits.userDepositCap) (hok : (invoke call).Ok env w () w') :
    w.CapsHold env w' call ↔ w.CapsApply call := by
  have hb := (sound_of_reaches h0 h fun _ _ hadm => hadm).1.regular
  have hrun := ok_invoke.mp hok
  cases call
  case deposit user amount =>
    obtain ⟨htotal, hclaim⟩ := caps_of_deposit (w := w.entered) hb hT hU hrun
    unfold World.CapsHold World.CapsApply
    exact ⟨fun hcaps => hclaim.mp hcaps.2, fun happly => ⟨htotal, hclaim.mpr happly⟩⟩
  case batchDeposit agent entries => exact caps_of_batch hb hT hU hok
  case depositAsset user asset amount =>
    obtain ⟨config, t0, t, -, -, -, hrebooked, -⟩ := depositAsset_ok hrun
    have hassets : w'.book.assets = i128.saturatingAdd w.book.assets amount := by
      rw [hrebooked.book]
      show i128.saturatingAdd (w.book.totalAssets.getD 0) amount = _
      rw [hb.stored]
      rfl
    unfold World.CapsHold World.CapsApply
    rw [hassets]
  all_goals exact Iff.rfl

namespace Sample

/-- Caps of 8 and 10 after the euro asset was listed without a cap of its own. -/
def cappedRun : List Step := listEuro ++ [.call honest (.setCaps 8000000 10000000)]

theorem capped_deposit_within :
    (opened.replay cappedRun).CapsHold honest
      ((opened.replay cappedRun).after (.call honest (.deposit alice 5000000)))
      (.deposit alice 5000000) :=
  have hok : (invoke (.deposit alice 5000000)).Ok honest (opened.replay cappedRun) ()
      ((opened.replay cappedRun).after (.call honest (.deposit alice 5000000))) :=
    ok_after (by decide +kernel)
  have hreach : Reaches (fun _ step => step.ReportsNonNegative) opened (opened.replay cappedRun) :=
    .of_admits ⟨trivial, trivial, trivial⟩
  (caps_hold_iff opened_opened hreach (by decide +kernel) (by decide +kernel) hok).mpr
    fun _ => by decide +kernel

/-- A deposit of 12 euro passes, and so does a first USDC deposit of 5 next to 4 euro. -/
theorem caps_not_held :
    opened.Opened ∧ Reaches (fun _ _ => True) opened (opened.replay cappedRun) ∧
      ((invoke (.depositAsset bob euro 12000000)).Ok honest (opened.replay cappedRun) ()
          ((opened.replay cappedRun).after (.call honest (.depositAsset bob euro 12000000))) ∧
        (opened.replay cappedRun).limits.tvlCap = 10000000 ∧
        (opened.replay cappedRun).assets.config euro = some ⟨euroToken, 0, 0, 0⟩ ∧
        ((opened.replay cappedRun).after
          (.call honest (.depositAsset bob euro 12000000))).book.assets = 12000000) ∧
      (opened.replay cappedRun).limits.userDepositCap = 8000000 ∧
      ((opened.replay cappedRun).replay
        [.call honest (.depositAsset bob euro 4000000),
          .call honest (.deposit alice 5000000)]).claim alice = 9000000 :=
  ⟨opened_opened, .of_admits ⟨trivial, trivial, trivial⟩,
    ⟨ok_after (by decide +kernel), by decide +kernel, by decide +kernel, by decide +kernel⟩,
    by decide +kernel, by decide +kernel⟩

end Sample

end NeuroWealth.Vault
