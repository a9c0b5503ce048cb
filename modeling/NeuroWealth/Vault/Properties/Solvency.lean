import NeuroWealth.Vault.Properties.AssetIsolation
import NeuroWealth.Vault.Properties.VenueMarker

/-!
# Solvency

The vault's USDC and its positions cover `TotalAssets` in every run through exact pools, and
`TotalAssets` covers the claims as long as no report is negative.
-/

namespace NeuroWealth.Vault

open Transaction MachineInt SharePool

variable {env : Env} {w w0 w' : World} {call : Call} {venue : Venue} {kind : LegKind}
  {user : Address} {amount minted burned asked minOut : Int} {reply : PoolReply}

def World.PositionsNonneg (w : World) : Prop := ∀ v p, 0 ≤ w.chain.positions v p w.self

/-- The stored total is covered by the idle USDC and the positions. -/
structure World.Backed (w : World) : Prop where
  positions : w.PositionsNonneg
  stored : w.book.totalAssets = some w.book.assets
  covered : w.book.assets ≤ w.backing

/-- The migration target's `deposit` takes neither tokens nor positions from the vault. -/
def Env.TargetSpares (env : Env) (vault : Address) : Prop :=
  ∀ chain target user amount chain', env.targetDeposit chain target user amount = some chain' →
    (∀ t, chain.balances t vault ≤ chain'.balances t vault) ∧
    ∀ v p, chain.positions v p vault ≤ chain'.positions v p vault

/-- Pools are exact, no pool is replaced and no asset pool is used. Between the calls positions
    only grow, and what leaves the vault's balance is found in its positions. -/
def Step.KeepsBacking (w : World) : Step → Prop
  | .call env call => env.ExactPools ∧ (call.isMigration = true → env.TargetSpares w.self) ∧
      (Step.call env call).KeepsPools w ∧ call.isAssetCall = false
  | .ambient chain => (∀ v p, w.chain.positions v p w.self ≤ chain.positions v p w.self) ∧
      w.backing ≤ World.backing { w with chain := chain }

/-! ## Moves through the pools -/

theorem World.PositionsNonneg.position (h : w.PositionsNonneg) (v : Venue) : 0 ≤ w.position v := by
  unfold World.position
  split
  · exact h _ _
  · exact le_rfl

theorem World.PositionsNonneg.of_same (h : w.PositionsNonneg) (hself : w'.self = w.self)
    (hpositions : w'.chain.positions = w.chain.positions) : w'.PositionsNonneg := by
  intro v p
  rw [hpositions, hself]
  exact h v p

theorem backing_of_same (hself : w'.self = w.self) (htoken : w'.usdcToken = w.usdcToken)
    (hpool : w'.deployment.pool = w.deployment.pool) (hbalances : w'.chain.balances = w.chain.balances)
    (hpositions : w'.chain.positions = w.chain.positions) : w'.backing = w.backing := by
  unfold World.backing World.idle World.position
  rw [hself, htoken, hpool, hbalances, hpositions]

/-- A leg of an exact pool loses nothing: what it takes is in the position. -/
theorem Leg.backing_le (h : Leg kind env w w' venue asked minOut reply) (hasked : 0 < asked)
    (hpools : env.ExactPools) (hpos : w.PositionsNonneg) :
    w'.PositionsNonneg ∧ w.backing ≤ w'.backing := by
  obtain ⟨pool, hpool, hreply⟩ := h.answered
  have hexact := hpools _ _ ⟨hasked, hpos.position venue⟩ hreply
  have hsettled : w.position venue + kind.taken reply.moved ≤ reply.position := hexact.settled_le
  have hidle := h.idle
  have hposition := h.position
  constructor
  · intro v p
    rw [h.frame.self]
    by_cases hp : w.deployment.pool v = some p
    · have hp' : w'.deployment.pool v = some p := by rw [h.frame.pool, hp]
      have hheld : w'.chain.positions v p w.self = w'.position v := by
        rw [position_eq hp', h.frame.self]
      rw [hheld]
      by_cases hv : v = venue
      · rw [hv, hposition]
        exact hexact.nonneg
      · rw [h.elsewhere v hv]
        exact hpos.position v
    · rw [h.unconfigured v p hp]
      exact hpos v p
  · unfold World.backing
    cases venue with
    | blend =>
      have hother := h.elsewhere .dex (by decide)
      omega
    | dex =>
      have hother := h.elsewhere .blend (by decide)
      omega

theorem FundsMove.backing_le (h : FundsMove env w w') (hpools : env.ExactPools)
    (hpos : w.PositionsNonneg) : w'.PositionsNonneg ∧ w.backing ≤ w'.backing := by
  induction h with
  | settled h =>
    refine ⟨hpos.of_same h.self h.positions, ?_⟩
    exact (backing_of_same h.self h.usdcToken h.pool h.balances h.positions).ge
  | leg hasked h => exact h.backing_le hasked hpools hpos
  | trans _ _ ih1 ih2 =>
    obtain ⟨hpos1, hle1⟩ := ih1 hpos
    obtain ⟨hpos2, hle2⟩ := ih2 hpos1
    exact ⟨hpos2, hle1.trans hle2⟩

/-! ## Pieces of calls -/

theorem World.Backed.of_moved (h : w.Backed) (hbook : w'.book = w.book)
    (hpos : w'.PositionsNonneg) (hle : w.backing ≤ w'.backing) : w'.Backed := by
  refine ⟨hpos, ?_, ?_⟩
  · rw [hbook]
    exact h.stored
  · rw [hbook]
    exact h.covered.trans hle

theorem World.Backed.of_settled (h : w.Backed) (hs : Settled w w') : w'.Backed := by
  apply h.of_moved hs.book (h.positions.of_same hs.self hs.positions)
  exact (backing_of_same hs.self hs.usdcToken hs.pool hs.balances hs.positions).ge

theorem Quiet.backed (h : Quiet w w') (hw : w.Backed) : w'.Backed := hw.of_settled h.settled

/-- A deposit adds as much to the total as to the balance. -/
theorem Deposited.backed {payer : Address} (h : Deposited w w' payer user amount minted)
    (hw : w.Backed) : w'.Backed := by
  have hforeign := h.foreign
  have hcovered := hw.covered
  have hposition : ∀ v, w'.position v = w.position v := fun v => h.position
  obtain ⟨token, t, htoken, hpaid, hcredit⟩ := h.steps
  have hidle : w'.idle = w.idle + amount := by
    rw [hcredit.accounting.idle, hpaid.idle_in htoken hforeign]
  have hassets : w'.book.assets = w.book.assets + amount := by
    rw [hcredit.book, hpaid.book]
    exact congrArg Pool.assets
      (pool_credited hw.stored : (w.book.credited user amount minted).pool = _)
  refine ⟨?_, ?_, ?_⟩
  · apply (hw.positions.of_same hpaid.self hpaid.positions).of_same hcredit.accounting.self
    rw [hcredit.accounting.chain]
  · rw [hassets, hcredit.book, hpaid.book]
    show some (w.book.totalAssets.getD _ + amount) = _
    rw [hw.stored]
    rfl
  · unfold World.backing at hcovered ⊢
    rw [hassets, hidle, hposition, hposition]
    omega

theorem BatchRun.backed {agent : Address} (h : BatchRun agent w w') (hw : w.Backed) :
    w'.Backed := by
  induction h with
  | quiet h => exact h.backed hw
  | deposited h => exact h.backed hw
  | @returned w t w' token amount hself htoken h1 h2 =>
    have hidle : w'.idle = w.idle := by
      rw [h2.idle_out (h1.usdcToken.trans htoken) (h1.self ▸ hself), h1.idle_in htoken hself]
      omega
    have hposition : ∀ v, w'.position v = w.position v := fun v => h2.position.trans h1.position
    apply hw.of_moved (h2.book.trans h1.book)
    · exact (hw.positions.of_same h1.self h1.positions).of_same h2.self h2.positions
    · unfold World.backing
      rw [hidle, hposition, hposition]
  | trans _ _ ih1 ih2 => exact ih2 (ih1 hw)

/-- A redemption takes as much from the total as from the balance. -/
theorem Redeemed.backed (h : Redeemed w w' user amount burned) (hw : w.Backed) : w'.Backed := by
  have hforeign := h.foreign
  have hcovered := hw.covered
  have hbook := h.book
  obtain ⟨token, t, htoken, hdebit, hpaid⟩ := h.steps
  have hacc := hdebit.accounting
  have hidle : w'.idle = w.idle - amount := by
    rw [← hacc.self] at hpaid hforeign
    rw [hpaid.idle_out (hacc.usdcToken.trans htoken) hforeign, hacc.idle]
  have hposition : ∀ v, w'.position v = w.position v := fun v => hpaid.position.trans hacc.position
  have hassets : w'.book.assets = w.book.assets - amount := by
    rw [hbook]
    rfl
  refine ⟨?_, ?_, ?_⟩
  · refine World.PositionsNonneg.of_same (w := t) ?_ hpaid.self hpaid.positions
    exact hw.positions.of_same hacc.self (by rw [hacc.chain])
  · rw [hassets, hbook]
    rfl
  · unfold World.backing at hcovered ⊢
    rw [hassets, hidle, hposition, hposition]
    omega

theorem Withdrawal.backed (h : Withdrawal env w w' user amount burned) (hpools : env.ExactPools)
    (hw : w.Backed) : w'.Backed := by
  obtain ⟨t0, t, hq, hpull, hred⟩ := h.steps
  have h0 := hq.backed hw
  obtain ⟨hpos, hle⟩ := hpull.fundsMove.backing_le hpools h0.positions
  exact hred.backed (h0.of_moved hpull.poolStep.book hpos hle)

/-- The target's `deposit` may add to the vault's holdings. -/
theorem TargetCalled.backed {target : Address} (h : TargetCalled env w w' target user amount)
    (hspares : env.TargetSpares w.self) (hw : w.Backed) : w'.Backed := by
  obtain ⟨chain, hchain, hq⟩ := h.frame
  obtain ⟨hbalances, hpositions⟩ := hspares _ _ _ _ _ hchain
  let c := { chain with sequence := w.chain.sequence, timestamp := w.chain.timestamp }
  have hcalled : World.Backed { w with chain := c } := by
    refine hw.of_moved rfl (fun v p => (hw.positions v p).trans (hpositions v p)) ?_
    have hidle : w.idle ≤ World.idle { w with chain := c } := by
      obtain htoken | ⟨token, htoken⟩ := Option.eq_none_or_eq_some w.usdcToken
      · have hnew : World.idle { w with chain := c } = 0 := idle_unset htoken
        rw [hnew, idle_unset htoken]
      · have hnew : World.idle { w with chain := c } = chain.balances token w.self :=
          idle_eq htoken
        rw [hnew, idle_eq htoken]
        exact hbalances token
    have hposition : ∀ v, w.position v ≤ World.position { w with chain := c } v := by
      intro v
      obtain hpool | ⟨p, hpool⟩ := Option.eq_none_or_eq_some (w.deployment.pool v)
      · have hnew : World.position { w with chain := c } v = 0 := position_unset hpool
        rw [hnew, position_unset hpool]
      · have hnew : World.position { w with chain := c } v = chain.positions v p w.self :=
          position_eq hpool
        rw [hnew, position_eq hpool]
        exact hpositions v p
    have hblend := hposition .blend
    have hdex := hposition .dex
    unfold World.backing
    omega
  exact hq.backed hcalled

theorem Migrated.backed {target : Address} (h : Migrated env w w' user target amount)
    (hspares : env.TargetSpares w.self) (hw : w.Backed) : w'.Backed := by
  have hcovered := hw.covered
  obtain ⟨token, t, htoken, hpaid, hcalled⟩ := h.steps
  have hidle : t.idle = w.idle - amount := by
    have hne : target ≠ (w.emptied user amount).self := fun he => hcalled.foreign
      (he.trans hpaid.self.symm)
    exact hpaid.idle_out htoken hne
  have hposition : ∀ v, t.position v = w.position v := fun v => hpaid.position
  have hpushed : t.Backed := by
    refine ⟨?_, ?_, ?_⟩
    · have hpositions : t.PositionsNonneg := hw.positions.of_same hpaid.self hpaid.positions
      exact hpositions
    · rw [hpaid.book]
      rfl
    · rw [hpaid.book]
      show w.book.assets - amount ≤ t.backing
      unfold World.backing at hcovered ⊢
      rw [hidle, hposition, hposition]
      omega
  exact hcalled.backed (hpaid.self ▸ hspares) hpushed

/-- A first pool adds its position, if there is one. -/
theorem World.Backed.setPool {pool : Address} (h : w.Backed)
    (hkeeps : ∀ p, w.deployment.pool venue = some p → p = pool) :
    World.Backed { w with deployment := w.deployment.setPool venue pool } := by
  refine h.of_moved rfl h.positions ?_
  have hposition : ∀ v, w.position v ≤
      World.position { w with deployment := w.deployment.setPool venue pool } v := by
    intro v
    by_cases hv : v = venue
    · have hnew : World.position { w with deployment := w.deployment.setPool venue pool } venue =
          w.chain.positions venue pool w.self := position_eq (if_pos rfl)
      rw [hv, hnew]
      cases hold : w.deployment.pool venue with
      | some p =>
        rw [position_eq hold, hkeeps p hold]
      | none =>
        have hzero : w.position venue = 0 := by simp only [World.position, hold]
        rw [hzero]
        exact h.positions venue pool
    · have hsame : (w.deployment.setPool venue pool).pool v = w.deployment.pool v := if_neg hv
      unfold World.position
      simp only [hsame]
      exact le_rfl
  have hidle : World.idle { w with deployment := w.deployment.setPool venue pool } = w.idle := rfl
  have hblend := hposition .blend
  have hdex := hposition .dex
  unfold World.backing
  omega

theorem visible_le_backing (hpos : w.PositionsNonneg) : w.visible ≤ w.backing := by
  have hblend := hpos.position .blend
  have hdex := hpos.position .dex
  unfold World.visible World.backing
  split_ifs <;> omega

/-! ## Calls and runs -/

theorem Effect.backed (h : Effect env w w' call) (hstep : (Step.call env call).KeepsBacking w)
    (hw : w.Backed) : w'.Backed := by
  obtain ⟨hpools, hspares, hkeeps, hasset⟩ := hstep
  cases h with
  | quiet _ h => exact h.backed hw
  | deposit hq h _ => exact h.backed (hq.backed hw)
  | batchDeposit h => exact h.backed hw
  | withdraw h => exact h.backed hpools hw
  | withdrawAll h => exact h.backed hpools hw
  | emergencyWithdraw h => exact h.backed hpools hw
  | migrateShares h => exact h.backed (hspares rfl) hw
  | depositAsset => cases hasset
  | withdrawAsset => cases hasset
  | lockShares _ _ _ _ h => exact h.backed ⟨hw.positions, hw.stored, hw.covered⟩
  | unlockShares _ _ _ h => exact h.backed ⟨hw.positions, hw.stored, hw.covered⟩
  | funds _ h =>
    obtain ⟨hpos, hle⟩ := h.backing_le hpools hw.positions
    exact hw.of_moved h.poolStep.book hpos hle
  | updateTotalAssets hle h =>
    exact h.backed ⟨hw.positions, rfl, hle.trans (visible_le_backing hw.positions)⟩
  | setVenuePool h => exact h.backed (hw.setPool hkeeps)
  | setMinHoldingPeriod h => exact h.backed ⟨hw.positions, hw.stored, hw.covered⟩
  | assets _ h =>
    refine hw.of_moved h.book (hw.positions.of_same h.self (by rw [h.chain])) ?_
    apply (backing_of_same h.self h.usdcToken _ _ _).ge
    · rw [h.deployment]
    · rw [h.chain]
    · rw [h.chain]

theorem backed_after (step : Step) (hi : w.Initialized) (hw : w.Backed)
    (hstep : step.KeepsBacking w) : (w.after step).Backed := by
  refine after_cases (P := World.Backed) step hi hw ?_ ?_
  · rintro env call w' rfl _ heffect
    exact heffect.backed hstep ⟨hw.positions, hw.stored, hw.covered⟩
  · rintro chain rfl
    exact hw.of_moved rfl (fun v p => (hw.positions v p).trans (hstep.1 v p)) hstep.2

theorem World.Opened.backed (h0 : w0.Opened) (hidle : 0 ≤ w0.idle) (hpos : w0.PositionsNonneg) :
    w0.Backed := by
  have hassets : w0.book.assets = 0 := by rw [h0.fresh.book]; rfl
  have hblend := hpos.position .blend
  have hdex := hpos.position .dex
  refine ⟨hpos, ?_, ?_⟩
  · rw [h0.fresh.book]
    rfl
  · unfold World.backing
    omega

theorem backed_of_reaches (h0 : w0.Opened) (hidle : 0 ≤ w0.idle) (hpos : w0.PositionsNonneg)
    (h : Reaches (fun t step => step.KeepsBacking t) w0 w) : w.Backed :=
  (h.invariant h0 (h0.backed hidle hpos) fun _ step hstep hi hw => backed_after step hi hw hstep).1

/-- In every run through exact pools the USDC and the positions cover the stored total; and if no
    report was negative, the total covers all claims. -/
theorem solvent (h0 : w0.Opened) (hidle : 0 ≤ w0.idle) (hpos : w0.PositionsNonneg)
    (h : Reaches (fun t step => step.KeepsBacking t) w0 w) :
    ∃ A, w.book.totalAssets = some A ∧ A ≤ w.idle + w.position .blend + w.position .dex ∧
      (Reaches (fun t step => step.KeepsBacking t ∧ step.ReportsNonNegative) w0 w →
        (Function.support w.claim).Finite ∧ ∑ᶠ u, w.claim u ≤ A) := by
  have hbacked := backed_of_reaches h0 hidle hpos h
  refine ⟨w.book.assets, hbacked.stored, hbacked.covered, fun hreports => ?_⟩
  obtain ⟨hsound, -⟩ := sound_of_reaches h0 hreports fun _ _ hadm => hadm.2
  constructor
  · refine hsound.conserved.finite.subset fun u hu hzero => hu ?_
    have hnone : w.book.shares u = 0 := hzero
    show w.book.shares u * w.book.assets / w.book.totalShares = 0
    rw [hnone, zero_mul, Int.zero_ediv]
  · exact Pool.finsum_claim_le hsound.conserved hsound.assets_nonneg

namespace Sample

theorem opened_positionsNonneg : opened.PositionsNonneg := fun v p => (opened_neverDeployed v p).ge

theorem tame_exactPools : tame.ExactPools := tame_tamePools.exact

/-- Alice's five USDC lie in both pools. -/
theorem spread_solvent :
    (opened.replay spread).position .dex = 2500000 ∧
      ∃ A, (opened.replay spread).book.totalAssets = some A ∧
        A ≤ (opened.replay spread).idle + (opened.replay spread).position .blend +
          (opened.replay spread).position .dex ∧
        (Reaches (fun t step => step.KeepsBacking t ∧ step.ReportsNonNegative) opened
            (opened.replay spread) →
          (Function.support (opened.replay spread).claim).Finite ∧
            ∑ᶠ u, (opened.replay spread).claim u ≤ A) := by
  have hreach : Reaches (fun t step => step.KeepsBacking t) opened (opened.replay spread) := by
    refine .of_admits ⟨⟨tame_exactPools, nofun, trivial, rfl⟩, ⟨tame_exactPools,
      nofun, ?_, rfl⟩, ⟨tame_exactPools, nofun, ?_, rfl⟩,
      ⟨tame_exactPools, nofun, trivial, rfl⟩,
      ⟨tame_exactPools, nofun, trivial, rfl⟩, trivial⟩
    · intro p hp
      cases hp
    · intro p hp
      cases hp
  exact ⟨by decide +kernel,
    solvent opened_opened (by decide +kernel) opened_positionsNonneg hreach⟩

/-- Five donated units are reported without a share in existence, then a loss of six. -/
def deficit : List Step :=
  [.ambient { opened.chain with balances := fun _ _ => 5 },
    .call tame (.updateTotalAssets agent 5 false 0),
    .call tame (.updateTotalAssets agent (-1) true 20000)]

/-- The claims are all zero, which is more than the total. -/
theorem claims_not_covered :
    opened.Opened ∧ 0 ≤ opened.idle ∧ opened.PositionsNonneg ∧
      Reaches (fun t step => step.KeepsBacking t) opened (opened.replay deficit) ∧
      (opened.replay deficit).book.totalAssets = some (-1) ∧
      ∑ᶠ u, (opened.replay deficit).claim u = 0 := by
  have hsupply : (opened.replay deficit).book.totalShares = 0 := by decide +kernel
  have hclaim : ∀ u, (opened.replay deficit).claim u = 0 := by
    intro u
    show (opened.replay deficit).book.shares u * _ / (opened.replay deficit).book.totalShares = 0
    rw [hsupply, Int.ediv_zero]
  refine ⟨opened_opened, by decide +kernel, opened_positionsNonneg, ?_, by decide +kernel,
    finsum_eq_zero_of_forall_eq_zero hclaim⟩
  refine .of_admits ⟨⟨fun v p => le_rfl, ?_⟩, ⟨tame_exactPools, nofun, trivial, rfl⟩,
    ⟨tame_exactPools, nofun, trivial, rfl⟩, trivial⟩
  decide +kernel

end Sample

end NeuroWealth.Vault
