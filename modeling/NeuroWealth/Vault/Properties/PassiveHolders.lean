import NeuroWealth.Vault.Proofs.PricesProofs
import NeuroWealth.Vault.Properties.Dilution
import NeuroWealth.Vault.Properties.LeastAuthority
import NeuroWealth.Vault.Replica

/-!
# Holders who do nothing

Over whole runs: who signs nothing keeps shares and claim as long as nothing is written off, and
users who act together take no more USDC out of the vault than they pay in and own.
-/

namespace NeuroWealth.Vault

open Transaction MachineInt SharePool

variable {env : Env} {w w0 w' t : World} {call : Call} {user : Address} {K : Set Address}
  {amount minted burned : Int} {steps : List Step}

/-! ## One holder -/

theorem Book.Sound.batchesSolvent {step : Step} (hb : w.book.Sound) : step.BatchesSolvent w := by
  cases step with
  | ambient chain => trivial
  | call env call =>
    cases call
    case batchDeposit => exact hb.assets_nonneg
    all_goals trivial

theorem shares_le_of_unsigned {step : Step} (hi : w.Initialized) (hb : w.book.Sound)
    (hunsigned : ¬ step.SignedBy user) : w.book.shares user ≤ (w.after step).book.shares user := by
  by_contra hless
  exact hunsigned (signed_of_takesShares step hi hb.batchesSolvent hb.tallied (.inl (not_le.mp hless)))

/-- Nothing was taken from the user since the first state. -/
structure Undiluted (user : Address) (w w' : World) : Prop where
  sound : w'.book.Sound
  shares : w.book.shares user ≤ w'.book.shares user
  price : 0 < w.book.shares user → w.book.pool.PriceLe w'.book.pool

theorem Undiluted.after {step : Step} (h : Undiluted user w t) (hb : w.book.Sound)
    (hi : t.Initialized) (hprice : step.KeepsPrice t) (hunsigned : ¬ step.SignedBy user) :
    Undiluted user w (t.after step) := by
  have hsound := sound_after step hi (hprice.reports h.sound) h.sound
  have hkept := shares_le_of_unsigned hi h.sound hunsigned
  refine ⟨hsound, h.shares.trans hkept, fun hpos => ?_⟩
  have hsupply : 0 < t.book.totalShares := by
    have hle := h.sound.shares_le user
    have hshares := h.shares
    omega
  exact .trans hsupply hb.supply_nonneg hsound.supply_nonneg (h.price hpos)
    (priceLe_after step hi hprice h.sound hsupply)

theorem Undiluted.claim_le (h : Undiluted user w w') (hb : w.book.Sound) :
    w.claim user ≤ w'.claim user := by
  have hheld : 0 ≤ w.book.shares user := hb.conserved.nonneg user
  have hle := hb.shares_le user
  have hle' := h.sound.shares_le user
  have hshares := h.shares
  rcases hheld.eq_or_lt with hnone | hsome
  · have hzero : w.claim user = 0 := by
      show w.book.shares user * w.book.assets / w.book.totalShares = 0
      rw [← hnone, zero_mul, Int.zero_ediv]
    have hshares' : 0 ≤ w'.book.shares user := h.sound.conserved.nonneg user
    rw [hzero]
    exact Int.ediv_nonneg (mul_nonneg hshares' h.sound.assets_nonneg) h.sound.supply_nonneg
  · have hS : 0 < w.book.totalShares := by omega
    have hS' : 0 < w'.book.totalShares := by omega
    exact Pool.claim_le_of_price hS hS' h.sound.assets_nonneg h.shares hheld (h.price hsome)

/-- From every state reached without negative reports, a user who signs nothing keeps shares, claim
    and share price in every run without reports of less and calls of the asset pools, whatever
    the other users, the agent, the owner and the venues do. -/
theorem passive_holder_keeps_claim (h0 : w0.Opened)
    (h : Reaches (fun _ step => step.ReportsNonNegative) w0 w)
    (hrun : Reaches (fun t step => step.KeepsPrice t ∧ ¬ step.SignedBy user) w w') :
    w.book.shares user ≤ w'.book.shares user ∧ w.claim user ≤ w'.claim user ∧
      (0 < w.book.shares user → w.book.pool.PriceLe w'.book.pool) := by
  obtain ⟨hb, hi⟩ := sound_of_reaches h0 h fun _ _ hadm => hadm
  obtain ⟨hkept, -⟩ := hrun.keeps (P := Undiluted user w) hi ⟨hb, le_rfl, fun _ => .refl⟩
    fun _ _ hstep hi h => h.after hb hi hstep.1 hstep.2
  exact ⟨hkept.shares, hkept.claim_le hb, hkept.price⟩

namespace Sample

/-- Everybody but alice signs. -/
def withoutAlice : Env := { honest with auths := [owner, agent, bob] }

def heldByAlice : World := opened.replay [.call honest (.deposit alice 5000000)]

/-- Bob deposits, a gain is reported, and bob leaves with his part of it. -/
def aroundAlice : List Step :=
  [.call withoutAlice (.deposit bob 7000001),
    .ambient { heldByAlice.chain with balances := fun _ _ => 30000000 },
    .call withoutAlice (.updateTotalAssets agent 13000003 false 0),
    .call withoutAlice (.withdrawAll bob)]

theorem aroundAlice_keeps_claim :
    heldByAlice.claim alice = 5000000 ∧ (heldByAlice.replay aroundAlice).claim alice = 5416668 ∧
      (heldByAlice.book.shares alice ≤ (heldByAlice.replay aroundAlice).book.shares alice ∧
        heldByAlice.claim alice ≤ (heldByAlice.replay aroundAlice).claim alice ∧
        (0 < heldByAlice.book.shares alice →
          heldByAlice.book.pool.PriceLe (heldByAlice.replay aroundAlice).book.pool)) := by
  have hunsigned : alice ∉ withoutAlice.auths := by decide
  have hreport : (heldByAlice.replay (aroundAlice.take 2)).book.assets ≤ 13000003 := by
    decide +kernel
  refine ⟨by decide +kernel, by decide +kernel, ?_⟩
  refine passive_holder_keeps_claim opened_opened (.of_admits ⟨trivial, trivial⟩) (.of_admits ?_)
  exact ⟨⟨trivial, hunsigned⟩, ⟨trivial, not_false⟩, ⟨hreport, hunsigned⟩,
    ⟨trivial, hunsigned⟩, trivial⟩

end Sample

/-! ## Coalitions -/

/-- Calls of a coalition: neither reports, batches nor calls of the asset pools, and shares are
    only bought and redeemed by its members. -/
def Call.Within (K : Set Address) : Call → Prop
  | .batchDeposit .. => False
  | .updateTotalAssets .. => False
  | .depositAsset .. => False
  | .withdrawAsset .. => False
  | call => ∀ user, call.poolUser = some user → user ∈ K

def Step.Within (K : Set Address) : Step → Prop
  | .call _ call => call.Within K
  | .ambient _ => True

/-- The USDC a transfer takes out of the vault. -/
def World.net (w : World) (tr : Transfer) : Int :=
  if w.usdcToken = some tr.token then
    (if tr.sender = w.self then tr.amount else 0) - (if tr.recipient = w.self then tr.amount else 0)
  else 0

/-- The USDC that some events take out of the vault. -/
def World.netOf (w : World) (es : List Event) : Int :=
  ((es.filterMap Event.toTransfer).map w.net).sum

/-- The USDC that left the vault in a run, less what came in. -/
def World.drained (w : World) (steps : List Step) : Int := w.netOf (w.log steps)

theorem netOf_append {es es' : List Event} : w.netOf (es ++ es') = w.netOf es + w.netOf es' := by
  unfold World.netOf
  rw [List.filterMap_append, List.map_append, List.sum_append]

theorem net_congr (h : Anchored w w') : w'.net = w.net := by
  funext tr
  unfold World.net
  rw [h.self, h.usdcToken]

/-- What a step of a coalition does: outsiders keep their shares, and the total falls by what leaves
    the vault. -/
structure Traded (K : Set Address) (w w' : World) (es : List Event) : Prop where
  sound : w'.book.Sound
  anchored : Anchored w w'
  outsiders : ∀ v ∈ Kᶜ, w'.book.shares v = w.book.shares v
  assets : w'.book.assets = w.book.assets - w.netOf es
  price : 0 < w.book.pool.held Kᶜ → w.book.pool.PriceLe w'.book.pool

/-- One payment by or to the vault. -/
theorem netOf_paidOnce {sender recipient : Address} (h : w'.PaidOnce sender recipient amount)
    (hanchored : Anchored w w') : w.netOf w'.events =
      (if sender = w.self then amount else 0) - (if recipient = w.self then amount else 0) := by
  obtain ⟨token, htoken, htransfers⟩ := h
  show ((w'.transfers).map w.net).sum = _
  rw [htransfers, List.map_singleton, List.sum_singleton]
  unfold World.net
  rw [if_pos (hanchored.usdcToken.symm.trans htoken)]

theorem Deposited.paidOnce (h : Deposited t w' user user amount minted) (hq : Quiet w t)
    (hnone : w.transfers = []) : w'.PaidOnce user w.self amount := by
  obtain ⟨token, t1, htoken, hpaid, hcredit⟩ := h.steps
  rw [← hq.self]
  exact hpaid.paidOnce htoken (hq.transfers.trans hnone) hcredit.accounting.usdcToken
    hcredit.accounting.transfers

theorem Migrated.paidOnce {target : Address} (h : Migrated env w w' user target amount)
    (hnone : w.transfers = []) : w'.PaidOnce w.self target amount ∧ target ≠ w.self := by
  obtain ⟨token, t, htoken, hpaid, hcalled⟩ := h.steps
  obtain ⟨chain, -, hframe⟩ := hcalled.frame
  have hself : t.self = w.self := hpaid.self
  exact ⟨hpaid.paidOnce htoken hnone hframe.usdcToken hframe.transfers, hself ▸ hcalled.foreign⟩

/-- A call that leaves book and transfers alone. -/
theorem Traded.idle (hb : w.book.Sound) (hanchored : Anchored w w') (hbook : w'.book = w.book)
    (htransfers : w'.transfers = []) : Traded K w w' w'.events := by
  have hnet : w.netOf w'.events = 0 := by
    show ((w'.transfers).map w.net).sum = 0
    rw [htransfers]
    rfl
  refine ⟨hbook ▸ hb, hanchored, fun v _ => by rw [hbook], ?_, fun _ => hbook ▸ .refl⟩
  rw [hbook, hnet, sub_zero]

/-- Whoever holds shares does so of a positive supply. -/
theorem supply_pos_of_held (hb : w.book.Sound) (h : 0 < w.book.pool.held K) :
    0 < w.book.totalShares := by
  have hsum : w.book.pool.held K + w.book.pool.held Kᶜ = w.book.totalShares :=
    Pool.held_add_held_compl hb.conserved
  have hrest : 0 ≤ w.book.pool.held Kᶜ := Pool.held_nonneg hb.conserved
  omega

theorem Withdrawal.traded (h : Withdrawal env w w' user amount burned) (hb : w.book.Sound)
    (hanchored : Anchored w w') (hnone : w.transfers = []) (huser : user ∈ K) :
    Traded K w w' w'.events := by
  obtain ⟨-, hbook⟩ := h.terms
  have hforeign : user ≠ w.self := hanchored.self ▸ h.foreign
  have honce : w'.PaidOnce w.self user amount := hanchored.self ▸ h.paidOnce hnone
  refine ⟨h.sound hb, hanchored, fun v hv => ?_, ?_, fun _ => h.priceLe⟩
  · have hother : v ≠ user := fun heq => hv (heq ▸ huser)
    rw [hbook]
    exact if_neg hother
  · rw [netOf_paidOnce honce hanchored, if_pos rfl, if_neg hforeign, hbook]
    show w.book.assets - amount = _
    rw [sub_zero]

theorem Effect.traded (h : Effect env w w' call) (hcall : call.Within K) (hb : w.book.Sound)
    (hnone : w.transfers = []) : Traded K w w' w'.events := by
  have hanchored : Anchored w w' := h.anchored
  have hkeeps : (Step.call env call).KeepsPrice w := by
    cases call
    case updateTotalAssets => exact hcall.elim
    case depositAsset => exact hcall.elim
    case withdrawAsset => exact hcall.elim
    all_goals trivial
  have hprice (hout : 0 < w.book.pool.held Kᶜ) : w.book.pool.PriceLe w'.book.pool :=
    h.priceLe hkeeps hb (supply_pos_of_held hb hout)
  have hsound : w'.book.Sound := h.sound (hkeeps.reports hb) hb
  cases h with
  | quiet _ h => exact .idle hb hanchored h.book (h.transfers.trans hnone)
  | @deposit user amount minted t hq h _ =>
    have huser : user ∈ K := hcall user rfl
    have hforeign : user ≠ w.self := hq.self ▸ h.foreign
    obtain ⟨token, t1, -, hpaid, hcredit⟩ := id h.steps
    have hbook : w'.book = w.book.credited user amount minted := by
      rw [hcredit.book, hpaid.book, hq.book]
    refine ⟨hsound, hanchored, fun v hv => ?_, ?_, hprice⟩
    · have hother : v ≠ user := fun heq => hv (heq ▸ huser)
      rw [hbook]
      exact if_neg hother
    · rw [netOf_paidOnce (h.paidOnce hq hnone) hanchored, if_neg hforeign, if_pos rfl, hbook,
        hb.tallied.assets_credited]
      ring
  | batchDeposit => exact hcall.elim
  | withdraw h => exact h.traded hb hanchored hnone (hcall _ rfl)
  | withdrawAll h => exact h.traded hb hanchored hnone (hcall _ rfl)
  | emergencyWithdraw h => exact h.traded hb hanchored hnone (hcall _ rfl)
  | @migrateShares user target amount h =>
    have huser : user ∈ K := hcall user rfl
    obtain ⟨honce, hforeign⟩ := h.paidOnce hnone
    refine ⟨hsound, hanchored, fun v hv => ?_, ?_, hprice⟩
    · have hother : v ≠ user := fun heq => hv (heq ▸ huser)
      rw [h.book]
      exact if_neg hother
    · rw [netOf_paidOnce honce hanchored, if_pos rfl, if_neg hforeign, h.book]
      show w.book.assets - amount = _
      rw [sub_zero]
  | depositAsset => exact hcall.elim
  | withdrawAsset => exact hcall.elim
  | lockShares _ _ _ _ h => exact .idle hb hanchored h.book (h.transfers.trans hnone)
  | unlockShares _ _ _ h => exact .idle hb hanchored h.book (h.transfers.trans hnone)
  | funds _ h =>
    exact .idle hb hanchored h.poolStep.book (h.poolStep.transfers.trans hnone)
  | updateTotalAssets => exact hcall.elim
  | setVenuePool h => exact .idle hb hanchored h.book (h.transfers.trans hnone)
  | setMinHoldingPeriod h => exact .idle hb hanchored h.book (h.transfers.trans hnone)
  | assets _ h => exact .idle hb hanchored h.book (h.transfers.trans hnone)

/-- One step of a coalition. -/
theorem traded_after (step : Step) (hi : w.Initialized) (hb : w.book.Sound)
    (hstep : step.Within K) : Traded K w (w.after step) (w.emitted step) := by
  cases step with
  | ambient chain => exact ⟨hb, ⟨rfl, rfl, id⟩, fun _ _ => rfl, (sub_zero _).symm, fun _ => .refl⟩
  | call env call =>
    show Traded K w ((invoke call).commit env w)
      (if (invoke call).succeeds env w = true then ((invoke call).commit env w).events else [])
    by_cases hok : (invoke call).succeeds env w = true
    · rw [if_pos hok]
      have heffect := effect_of_invoke hi (Tx.ok_commit hok)
      have htraded := heffect.traded (K := K) hstep hb rfl
      exact ⟨htraded.sound, ⟨htraded.anchored.self, htraded.anchored.usdcToken,
        htraded.anchored.initialized⟩, htraded.outsiders, htraded.assets, htraded.price⟩
    · rw [if_neg hok, Tx.commit_of_fails (Bool.not_eq_true _ ▸ hok)]
      exact ⟨hb, .refl, fun _ _ => rfl, (sub_zero _).symm, fun _ => .refl⟩

theorem Traded.trans {es es' : List Event} (h1 : Traded K w t es) (h2 : Traded K t w' es')
    (hb : w.book.Sound) : Traded K w w' (es ++ es') := by
  have hheld : t.book.pool.held Kᶜ = w.book.pool.held Kᶜ := Pool.held_congr h1.outsiders
  refine ⟨h2.sound, h1.anchored.trans h2.anchored, fun v hv => ?_, ?_, fun hout => ?_⟩
  · rw [h2.outsiders v hv, h1.outsiders v hv]
  · have hnet : t.netOf es' = w.netOf es' := by
      unfold World.netOf
      rw [net_congr h1.anchored]
    rw [h2.assets, h1.assets, netOf_append, hnet]
    ring
  · have hout' : 0 < t.book.pool.held Kᶜ := hheld.symm ▸ hout
    exact .trans (supply_pos_of_held h1.sound hout') hb.supply_nonneg h2.sound.supply_nonneg
      (h1.price hout) (h2.price hout')

/-- A run of a coalition. -/
theorem traded_of_replay (hi : w.Initialized) (hb : w.book.Sound)
    (hrun : Admits (fun _ step => step.Within K) w steps) :
    Traded K w (w.replay steps) (w.log steps) := by
  induction steps generalizing w with
  | nil => exact ⟨hb, .refl, fun _ _ => rfl, (sub_zero _).symm, fun _ => .refl⟩
  | cons step steps ih =>
    obtain ⟨hstep, hrest⟩ := hrun
    have hfirst := traded_after step hi hb hstep
    exact hfirst.trans (ih (hfirst.anchored.initialized hi) hfirst.sound hrest) hb

/-- From every state reached by steps clear of the defects, users who act together, with the keys of
    the agent and the owner on their side, take no more USDC out of the vault than they pay in and
    their shares lose in worth, as long as the outsiders do nothing and nothing is reported. -/
theorem coalition_gains_nothing (h0 : w0.Opened)
    (h : Reaches (fun t step => step.KeepsTotalsSane t) w0 w)
    (hrun : Admits (fun _ step => step.Within K) w steps) :
    w.drained steps + (w.replay steps).book.pool.worth K ≤ w.book.pool.worth K := by
  have hsane := sane_of_reaches h0 h
  have hi : w.Initialized := (sound_of_reaches h0 h fun _ _ hstep => hstep.reports).2
  have htraded := traded_of_replay hi hsane.toSound hrun
  have hbound := Pool.coalition_bound hsane.conserved htraded.sound.conserved
    htraded.sound.assets_nonneg hsane.no_orphans htraded.outsiders htraded.price
  have hdrained : ((w.replay steps).book.pool.assets : ℚ) =
      w.book.pool.assets - w.drained steps := by
    exact_mod_cast htraded.assets
  linarith

namespace Sample

/-- A gain for alice, the only holder. -/
def gainForAlice : List Step :=
  [.call honest (.deposit alice 5000000),
    .ambient { opened.chain with balances := fun _ _ => 30000000 },
    .call honest (.updateTotalAssets agent 5416667 false 0)]

/-- Bob buys shares at the new price and leaves at once. -/
def inAndOut : List Step :=
  [.call honest (.deposit bob 7000001), .call honest (.withdrawAll bob)]

/-- Bob pays for the rounding. -/
theorem inAndOut_gains_nothing :
    (opened.replay gainForAlice).drained inAndOut = -1 ∧
      (opened.replay gainForAlice).drained inAndOut +
          ((opened.replay gainForAlice).replay inAndOut).book.pool.worth {bob} ≤
        (opened.replay gainForAlice).book.pool.worth {bob} := by
  have hshares : (opened.replay (gainForAlice.take 2)).book.totalShares ≠ 0 := by decide +kernel
  refine ⟨by decide +kernel, coalition_gains_nothing (K := {bob}) opened_opened
    (.of_admits ⟨trivial, trivial, ⟨by decide, fun hz => absurd hz hshares⟩, trivial⟩) ?_⟩
  exact ⟨fun user h => Option.some.inj h.symm, fun user h => Option.some.inj h.symm, trivial⟩

end Sample

end NeuroWealth.Vault
