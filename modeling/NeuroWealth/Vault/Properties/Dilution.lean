import NeuroWealth.Vault.Properties.Totals

/-!
# No dilution, no profit from rounding

A call of one user lowers nobody else's claim, and what the user takes out and still owns after
it is no more than what the user owned before it and paid in.
-/

namespace NeuroWealth.Vault

open Transaction MachineInt SharePool

variable {env : Env} {w w' t : World} {user v : Address} {amount minted burned : Int}

/-! ## Payments of a call -/

/-- The last call made one transfer. -/
def World.PaidOnce (w : World) (sender recipient : Address) (amount : Int) : Prop :=
  ∃ token, w.usdcToken = some token ∧ w.transfers = [⟨token, sender, recipient, amount⟩]

theorem moved_of_paidOnce {sender recipient s : Address} {r : Option Address}
    (h : w.PaidOnce sender recipient amount) :
    w.moved s r = if sender = s ∧ ∀ x ∈ r, recipient = x then amount else 0 := by
  obtain ⟨token, htoken, htransfers⟩ := h
  unfold World.moved
  rw [htransfers, htoken, List.filter_cons, List.filter_nil]
  by_cases hmatch : sender = s ∧ ∀ x ∈ r, recipient = x
  · rw [if_pos hmatch, if_pos (decide_eq_true ⟨rfl, hmatch⟩)]
    exact List.sum_singleton
  · rw [if_neg hmatch, if_neg fun hm => hmatch (of_decide_eq_true hm).2]
    rfl

/-- A payment by the user to the vault. -/
theorem paid_in (h : w.PaidOnce user w.self amount) (hself : user ≠ w.self) :
    w.paidOut = 0 ∧ w.paidIn user = amount := by
  constructor
  · unfold World.paidOut
    rw [moved_of_paidOnce h, if_neg fun hm => hself hm.1]
  · unfold World.paidIn
    rw [moved_of_paidOnce h, if_pos ⟨rfl, fun x hx => Option.mem_some.mp hx⟩]

/-- A payment by the vault. -/
theorem paid_out {recipient : Address} (h : w.PaidOnce w.self recipient amount)
    (hself : user ≠ w.self) : w.paidOut = amount ∧ w.paidIn user = 0 := by
  constructor
  · unfold World.paidOut
    rw [moved_of_paidOnce h, if_pos ⟨rfl, fun x hx => nomatch hx⟩]
  · unfold World.paidIn
    rw [moved_of_paidOnce h, if_neg fun hm => hself hm.1.symm]

/-! ## Fair calls -/

/-- No other claim falls, and the user gains nothing beyond what was paid in. -/
structure FairTo (w w' : World) (user : Address) : Prop where
  others : ∀ v, v ≠ user → w.claim v ≤ w'.claim v
  user : w'.paidOut + w'.claim user ≤ w.claim user + w'.paidIn user

/-- A mint for an amount paid in, at a price no better than the pool's. -/
theorem fair_of_mint (hw : w.book.pool.WellFormed) (hself : user ≠ w'.self)
    (hpool : w'.book.pool = w.book.pool.mint user amount minted)
    (hpaid : w'.PaidOnce user w'.self amount) (hminted : 0 ≤ minted) (hamount : 0 ≤ amount)
    (hprice : minted * w.book.assets ≤ amount * w.book.totalShares) : FairTo w w' user := by
  obtain ⟨hout, hin⟩ := paid_in hpaid hself
  constructor
  · intro v hv
    unfold World.claim
    rw [hpool]
    exact Pool.claim_le_claim_mint hw.toConserved hw.assets_nonneg hminted hamount fun _ => hprice
  · have hclaim := Pool.claim_mint_le (i := user) hw hminted hamount hprice
    unfold World.claim
    rw [hpool, hout, hin]
    omega

/-- A burn for an amount paid out, at a price no better than the pool's. -/
theorem fair_of_burn {recipient : Address} (hw : w.book.pool.WellFormed) (hself : user ≠ w'.self)
    (hpool : w'.book.pool = w.book.pool.burn user amount burned)
    (hpaid : w'.PaidOnce w'.self recipient amount) (hS : 0 < w.book.totalShares)
    (hle : burned ≤ w.book.shares user) (hamount : amount ≤ w.book.assets)
    (hprice : amount * w.book.totalShares ≤ burned * w.book.assets) : FairTo w w' user := by
  obtain ⟨hout, hin⟩ := paid_out hpaid hself
  constructor
  · intro v hv
    unfold World.claim
    rw [hpool]
    exact Pool.claim_le_claim_burn hw hle hprice hv
  · have hclaim := Pool.claim_burn_add_le hw.toConserved hS hle hamount hprice
    unfold World.claim
    rw [hpool, hout, hin]
    omega

/-! ## The calls of one user -/

/-- The user of a call that mints or burns shares of the USDC pool. -/
def Call.poolUser : Call → Option Address
  | .deposit user _ => some user
  | .withdraw user _ => some user
  | .withdrawAll user => some user
  | .emergencyWithdraw user _ => some user
  | .migrateShares user => some user
  | _ => none

theorem Paid.paidOnce {token sender recipient : Address} (h : Paid token w t sender recipient amount)
    (htoken : w.usdcToken = some token) (hnone : w.transfers = []) (ht : w'.usdcToken = t.usdcToken)
    (hsame : w'.transfers = t.transfers) : w'.PaidOnce sender recipient amount := by
  refine ⟨token, ?_, ?_⟩
  · rw [ht, h.usdcToken, htoken]
  · rw [hsame, h.transfers, hnone]
    rfl

theorem Deposited.fair (h : Deposited t w' user user amount minted) (hq : Quiet w t)
    (hstored : w.book.totalAssets = some w.book.assets) (hw : w.book.pool.WellFormed)
    (hnone : w.transfers = []) : FairTo w w' user := by
  obtain ⟨token, t1, htoken, hpaid, hcredit⟩ := h.steps
  have hS : 0 ≤ w.book.totalShares := hw.supply_nonneg
  have hminted : minted = Pool.sharesFor w.book.totalShares w.book.assets amount := by
    have := h.price w.book.assets (by rw [hq.book, hstored])
    rwa [hq.book] at this
  have hself : w'.self = t.self := by rw [hcredit.accounting.self, hpaid.self]
  have hbook : t1.book = w.book := hpaid.book.trans hq.book
  have hpool : w'.book.pool = w.book.pool.mint user amount minted := by
    rw [hcredit.book, hbook]
    exact pool_credited hstored
  refine fair_of_mint hw (hself ▸ h.foreign) hpool ?_ ?_ h.positive.le ?_
  · rw [hself]
    exact hpaid.paidOnce htoken (by rw [hq.transfers, hnone]) hcredit.accounting.usdcToken
      hcredit.accounting.transfers
  · rw [hminted]
    exact Pool.sharesFor_nonneg hS hw.assets_nonneg h.positive.le
  · rw [hminted]
    exact hw.sharesFor_mul_le h.positive.le

/-- The only transfer of a withdrawal is the payment to the user. -/
theorem Withdrawal.paidOnce (h : Withdrawal env w w' user amount burned)
    (hnone : w.transfers = []) : w'.PaidOnce w'.self user amount := by
  obtain ⟨t0, t, hq, hpull, hred⟩ := h.steps
  obtain ⟨token, t1, htoken, hdebit, hpaid⟩ := hred.steps
  have hself : w'.self = t.self := by rw [hpaid.self, hdebit.accounting.self]
  rw [hself]
  refine hpaid.paidOnce ?_ ?_ rfl rfl
  · rw [hdebit.accounting.usdcToken, htoken]
  · rw [hdebit.accounting.transfers, hpull.poolStep.transfers, hq.transfers, hnone]

theorem Withdrawal.foreign (h : Withdrawal env w w' user amount burned) : user ≠ w'.self := by
  obtain ⟨t0, t, hq, hpull, hred⟩ := h.steps
  obtain ⟨token, t1, htoken, hdebit, hpaid⟩ := hred.steps
  rw [hpaid.self, hdebit.accounting.self]
  exact hred.foreign

theorem Withdrawal.fair (h : Withdrawal env w w' user amount burned)
    (hw : w.book.pool.WellFormed) (hnone : w.transfers = []) : FairTo w w' user := by
  obtain ⟨hterms, hbook⟩ := h.terms
  have hpool : w'.book.pool = w.book.pool.burn user amount burned := by
    rw [hbook, pool_debited]
  exact fair_of_burn hw h.foreign hpool (h.paidOnce hnone) hterms.supply_pos hterms.burned_le
    (hterms.amount_le hw.toConserved hw.assets_nonneg) hterms.price

theorem Migrated.fair {target : Address} (h : Migrated env w w' user target amount)
    (hw : w.book.pool.WellFormed) (hnone : w.transfers = []) : FairTo w w' user := by
  have hbook := h.book
  obtain ⟨token, t, htoken, hpaid, hcalled⟩ := h.steps
  obtain ⟨chain, -, hframe⟩ := hcalled.frame
  have hS : 0 ≤ w.book.totalShares := hw.supply_nonneg
  have hs : 0 ≤ w.book.shares user := hw.nonneg user
  have hle : w.book.shares user ≤ w.book.totalShares := hw.shares_le user
  have hself : w'.self = w.self := by
    rw [hframe.self]
    exact hpaid.self
  have hpool : w'.book.pool = w.book.pool.burn user amount (w.book.shares user) := by
    rw [hbook, pool_debited]
  have honce : w'.PaidOnce w'.self target amount := by
    rw [hself]
    exact hpaid.paidOnce htoken hnone hframe.usdcToken hframe.transfers
  refine fair_of_burn hw (hself ▸ h.foreign) hpool honce (h.holder.trans_le hle) le_rfl ?_ ?_
  · rw [h.value]
    exact Pool.assetsFor_le hS hw.assets_nonneg hs hle
  · rw [h.value]
    exact Pool.assetsFor_mul_le hS hw.assets_nonneg hs

/-- In every state whose shares add up and whose total is stored, not negative, and zero without
    shares, the five calls of one user are fair, whatever the pools do. -/
theorem user_call_fair {call : Call} {u : Unit} (hcall : call.poolUser = some user)
    (hstored : w.book.totalAssets = some w.book.assets) (hw : w.book.pool.WellFormed)
    (h : (invoke call).Ok env w u w') :
    (∀ v, v ≠ user → w.claim v ≤ w'.claim v) ∧
      w'.paidOut + w'.claim user ≤ w.claim user + w'.paidIn user := by
  have hrun := ok_invoke.mp h
  have hfair : FairTo w.entered w' user := by
    cases call
    case deposit =>
      cases hcall
      obtain ⟨t, minted, hq, hd, -⟩ := deposit_ok hrun
      exact hd.fair hq hstored hw rfl
    case withdraw =>
      cases hcall
      obtain ⟨paid, burned, hwd, -⟩ := withdraw_ok hrun
      exact hwd.fair hw rfl
    case withdrawAll =>
      cases hcall
      obtain ⟨paid, t, hpaid, hpure⟩ := Tx.ok_bind.mp hrun
      obtain rfl : w' = t := (Tx.ok_pure.mp hpure).2
      obtain ⟨burned, hwd, -⟩ := withdrawAll_ok hpaid
      exact hwd.fair hw rfl
    case emergencyWithdraw =>
      cases hcall
      obtain ⟨paid, burned, hwd, -⟩ := emergencyWithdraw_ok hrun
      exact hwd.fair hw rfl
    case migrateShares =>
      cases hcall
      obtain ⟨target, amount, hm⟩ := migrateShares_ok hrun
      exact hm.fair hw rfl
    all_goals cases hcall
  exact ⟨hfair.others, hfair.user⟩

namespace Sample

/-- The vault after two deposits and a withdrawal. -/
def shared : World := opened.replay busy

theorem shared_sane : shared.book.Sane :=
  sane_of_reaches opened_opened (.of_admits ⟨trivial, trivial, trivial, trivial⟩)

theorem shared_withdraw_fair :
    (∀ v, v ≠ bob →
        shared.claim v ≤ (shared.after (.call honest (.withdraw bob 3000000))).claim v) ∧
      (shared.after (.call honest (.withdraw bob 3000000))).paidOut +
          (shared.after (.call honest (.withdraw bob 3000000))).claim bob ≤
        shared.claim bob + (shared.after (.call honest (.withdraw bob 3000000))).paidIn bob :=
  have hok : (invoke (.withdraw bob 3000000)).Ok honest shared ()
      (shared.after (.call honest (.withdraw bob 3000000))) := ok_after (by decide +kernel)
  user_call_fair rfl shared_sane.stored shared_sane.wellFormed hok

end Sample

end NeuroWealth.Vault
