import NeuroWealth.Vault.Proofs.AccountsProofs
import NeuroWealth.Vault.Proofs.BatchesProofs
import NeuroWealth.Vault.Properties.AssetIsolation
import NeuroWealth.Vault.Properties.Totals
import NeuroWealth.Vault.Properties.Trackers

/-!
# What the agent's keys can do

The calls of the agent lower nobody's shares and nobody's claim, and take no USDC anywhere but to
the configured pools. Nobody's shares are taken without a signature, unless a batch is credited
while the total is negative.
-/

namespace NeuroWealth.Vault

open Transaction MachineInt SharePool

variable {env : Env} {w w0 w1 w' : World} {call : Call} {agent user : Address}
  {entries : List BatchDepositItem}

/-! ## Pool calls -/

/-- Some pool calls with their answers, made one after the other: each is numbered by those before
    it, goes to a configured pool and carries the position its venue has by then, which the answer
    replaces. -/
def Answered (env : Env) (pool : Venue → Option Address) :
    Nat → (Venue → Int) → List (PoolCall × PoolReply) → Nat → (Venue → Int) → Prop
  | made, position, [], made', position' => made' = made ∧ position' = position
  | made, position, (call, reply) :: rest, made', position' =>
    call.leg = made ∧ pool call.venue = some call.pool ∧ call.position = position call.venue ∧
      env.pool call = some reply ∧
      Answered env pool (made + 1) (Function.update position call.venue reply.position) rest
        made' position'

/-- The pool calls on the way from `w` to `w'`, with their answers. -/
def World.Legs (w : World) (env : Env) (legs : List (PoolCall × PoolReply)) (w' : World) : Prop :=
  Answered env w.deployment.pool w.legs w.position legs w'.legs w'.position

/-- What the pools took in some calls, less what they paid. -/
def poolsTook (legs : List (PoolCall × PoolReply)) : Int :=
  (legs.map fun leg => leg.1.kind.taken leg.2.moved).sum

theorem poolsTook_append (legs1 legs2 : List (PoolCall × PoolReply)) :
    poolsTook (legs1 ++ legs2) = poolsTook legs1 + poolsTook legs2 := by
  unfold poolsTook
  rw [List.map_append, List.sum_append]

theorem Answered.append {pool : Venue → Option Address} {n1 n2 n3 : Nat} {p1 p2 p3 : Venue → Int}
    {legs1 legs2 : List (PoolCall × PoolReply)} (h1 : Answered env pool n1 p1 legs1 n2 p2)
    (h2 : Answered env pool n2 p2 legs2 n3 p3) :
    Answered env pool n1 p1 (legs1 ++ legs2) n3 p3 := by
  induction legs1 generalizing n1 p1 with
  | nil =>
    obtain ⟨rfl, rfl⟩ := h1
    exact h2
  | cons leg rest ih =>
    obtain ⟨hleg, hpool, hposition, hreply, hrest⟩ := h1
    exact ⟨hleg, hpool, hposition, hreply, ih hrest⟩

/-- Nothing was called. -/
theorem World.legs_nil (hlegs : w'.legs = w.legs) (hposition : ∀ v, w'.position v = w.position v) :
    w.Legs env [] w' :=
  ⟨hlegs, funext hposition⟩

/-- Moving funds changes the idle USDC by what the configured pools took. -/
theorem FundsMove.ledger (h : FundsMove env w w') :
    ∃ legs, w.Legs env legs w' ∧ w'.idle = w.idle - poolsTook legs := by
  induction h with
  | settled h =>
    refine ⟨[], World.legs_nil h.legs fun _ => h.position, ?_⟩
    rw [h.idle]
    exact (sub_zero _).symm
  | @leg w w' kind venue asked minOut reply _ h =>
    obtain ⟨pool, hpool, hreply⟩ := h.answered
    refine ⟨[(⟨w.legs, kind, venue, pool, asked, venue.forwardedMinOut minOut,
      w.position venue⟩, reply)], ⟨rfl, hpool, rfl, hreply, h.legs, ?_⟩, ?_⟩
    · funext v
      by_cases hv : v = venue
      · rw [hv, h.position, Function.update_self]
      · rw [h.elsewhere v hv, Function.update_of_ne hv]
    · rw [h.idle]
      simp [poolsTook]
  | @trans w t w' h1 _ ih1 ih2 =>
    obtain ⟨legs1, hlegs1, hidle1⟩ := ih1
    obtain ⟨legs2, hlegs2, hidle2⟩ := ih2
    refine ⟨legs1 ++ legs2, hlegs1.append ?_, ?_⟩
    · unfold World.Legs at hlegs2
      rwa [h1.poolStep.pool] at hlegs2
    · rw [poolsTook_append, hidle2, hidle1]
      omega

/-- Pools that report no negative position leave none. -/
theorem FundsMove.position_nonneg (h : FundsMove env w w')
    (hreply : ∀ c reply, env.pool c = some reply → 0 ≤ reply.position)
    (hpos : ∀ v, 0 ≤ w.position v) : ∀ v, 0 ≤ w'.position v := by
  induction h with
  | settled h =>
    intro v
    rw [h.position]
    exact hpos v
  | @leg w w' kind venue asked minOut reply _ h =>
    intro v
    by_cases hv : v = venue
    · obtain ⟨pool, -, hanswer⟩ := h.answered
      rw [hv, h.position]
      exact hreply _ _ hanswer
    · rw [h.elsewhere v hv]
      exact hpos v
  | trans _ _ ih1 ih2 => exact ih2 (ih1 hpos)

/-! ## Refunds -/

/-- The transfer hands back what the agent paid for an entry that bought no share. -/
def World.Refunds (w : World) (env : Env) (call : Call) (tr : Transfer) : Prop :=
  ∃ agent pre item rest s, call = .batchDeposit agent (pre ++ item :: rest) ∧
    w.BatchReaches env agent pre s ∧ s.AdmitsEntry item ∧
    Pool.sharesFor s.book.totalShares s.book.assets item.amount = 0 ∧
    w.usdcToken = some tr.token ∧ tr.sender = w.self ∧ tr.recipient = agent ∧
    tr.amount = item.amount

/-- What an entry transfers: the payment for it, and if it buys nothing the same back. -/
theorem EntryStep.transfers {item : BatchDepositItem} {tr : Transfer}
    (h : EntryStep env agent item w w') (hself : agent ≠ w.self) (htr : tr ∈ w'.transfers)
    (hsender : tr.sender = w.self) :
    tr ∈ w.transfers ∨ w.AdmitsEntry item ∧
      Pool.sharesFor w.book.totalShares w.book.assets item.amount = 0 ∧
      ∃ token, w.usdcToken = some token ∧ tr = ⟨token, w.self, agent, item.amount⟩ := by
  cases h with
  | skipped _ heq =>
    rw [heq] at htr
    exact .inl htr
  | returned hvalid htoken h1 hzero h2 =>
    rw [(transfer_ok h2).transfers, (transfer_ok h1).transfers, List.mem_append,
      List.mem_append, List.mem_singleton, List.mem_singleton] at htr
    rcases htr with (hold | rfl) | rfl
    · exact .inl hold
    · exact absurd hsender hself
    · exact .inr ⟨admitsEntry_of_valid hvalid, hzero, _, htoken, rfl⟩
  | credited _ _ h1 _ _ _ h2 =>
    rw [(creditBatchItem_ok h2).accounting.transfers, (transfer_ok h1).transfers,
      List.mem_append, List.mem_singleton] at htr
    rcases htr with hold | rfl
    · exact .inl hold
    · exact absurd hsender hself

/-- An entry takes nothing from the vault. -/
theorem EntryStep.idle_le {item : BatchDepositItem} (h : EntryStep env agent item w w')
    (hself : agent ≠ w.self) : w.idle ≤ w'.idle := by
  cases h with
  | skipped _ heq => rw [heq]
  | returned hvalid htoken h1 _ h2 =>
    have hin := transfer_ok h1
    have hout := transfer_ok h2
    rw [← hin.self] at hout
    rw [hout.idle_out (hin.usdcToken.trans htoken) (hin.self ▸ hself), hin.idle_in htoken hself]
    omega
  | credited hvalid htoken h1 _ _ _ h2 =>
    have hin := transfer_ok h1
    have hpos := (admitsEntry_of_valid hvalid).1.1
    rw [(creditBatchItem_ok h2).accounting.idle, hin.idle_in htoken hself]
    omega

/-- Along the effects pass only refunds leave the vault. -/
theorem pass_transfers (hself : agent ≠ w.self)
    (h : (Tx.each (depositBatchItem agent) entries).Ok env w () w') :
    w'.self = w.self ∧ w.idle ≤ w'.idle ∧ ∀ tr ∈ w'.transfers, tr.sender = w.self →
      tr ∈ w.transfers ∨ ∃ pre item rest s, entries = pre ++ item :: rest ∧
        (Tx.each (depositBatchItem agent) pre).Ok env w () s ∧ s.AdmitsEntry item ∧
        Pool.sharesFor s.book.totalShares s.book.assets item.amount = 0 ∧
        ∃ token, w.usdcToken = some token ∧ tr = ⟨token, w.self, agent, item.amount⟩ := by
  induction entries generalizing w with
  | nil =>
    obtain rfl := Tx.ok_each_nil.mp h
    exact ⟨rfl, le_rfl, fun tr htr _ => .inl htr⟩
  | cons item rest ih =>
    obtain ⟨t, hitem, hrest⟩ := Tx.ok_each_cons.mp h
    have hentry := depositBatchItem_ok hitem
    have hframe := hentry.crediting
    obtain ⟨hself', hidle, htransfers⟩ := ih (hframe.self ▸ hself) hrest
    refine ⟨hself'.trans hframe.self, (hentry.idle_le hself).trans hidle, ?_⟩
    intro tr htr hsender
    rcases htransfers tr htr (hsender.trans hframe.self.symm) with hold | hlater
    · rcases hentry.transfers hself hold hsender with hold | ⟨hadmits, hzero, hrefund⟩
      · exact .inl hold
      · exact .inr ⟨[], item, rest, w, rfl, Tx.ok_each_nil.mpr rfl, hadmits, hzero, hrefund⟩
    · obtain ⟨pre, item', rest', s, rfl, hpre, hadmits, hzero, token, htoken, heq⟩ := hlater
      rw [hframe.usdcToken] at htoken
      rw [hframe.self] at heq
      exact .inr ⟨item :: pre, item', rest', s, rfl, Tx.ok_each_cons.mpr ⟨t, hitem, hpre⟩,
        hadmits, hzero, token, htoken, heq⟩

/-! ## The agent's calls -/

/-- The calls an agent key suffices for. -/
def Call.isAgents : Call → Bool
  | .batchDeposit .. => true
  | .rebalance .. => true
  | .rebalanceMulti .. => true
  | .harvest .. => true
  | .setProtocolApy .. => true
  | .updateTotalAssets .. => true
  | _ => false

/-- The books are sound and no position is negative. -/
structure World.WellFormed (w : World) : Prop where
  sound : w.book.Sound
  positions : ∀ v, 0 ≤ w.position v

/-- A call of the agent that the owner has not signed, or a change around the vault; positions are
    never reported negative. -/
def Step.ByAgents (w : World) : Step → Prop
  | .call env call => call.isAgents = true ∧ ¬ w.OwnerSigned env ∧
      ∀ c reply, env.pool c = some reply → 0 ≤ reply.position
  | .ambient chain => ∀ v, 0 ≤ World.position { w with chain := chain } v

/-- What a call of the agent leaves intact: shares and claims do not fall, a report is backed, the
    vault transfers nothing but refunds, and loses no more than the configured pools took in the
    calls it made to them. -/
structure AgentOutcome (env : Env) (w w' : World) (call : Call) : Prop where
  shares : ∀ u, w.book.shares u ≤ w'.book.shares u
  claims : ∀ u, w.claim u ≤ w'.claim u
  reported : ∀ a n allow bps, call = .updateTotalAssets a n allow bps →
    w'.book.assets ≤ w'.backing
  refunds : ∀ tr ∈ w'.transfers, tr.sender = w.self → w.Refunds env call tr
  funds : ∃ legs, w.entered.Legs env legs w' ∧ w.idle - poolsTook legs ≤ w'.idle

/-- A larger total raises every claim. -/
theorem claim_le_of_assets_le (hb : w.book.Sound) (hshares : w'.book.shares = w.book.shares)
    (hsupply : w'.book.totalShares = w.book.totalShares) (hle : w.book.assets ≤ w'.book.assets)
    (u : Address) : w.claim u ≤ w'.claim u := by
  show w.book.shares u * w.book.assets / w.book.totalShares ≤
    w'.book.shares u * w'.book.assets / w'.book.totalShares
  rw [hshares, hsupply]
  have hmul : w.book.shares u * w.book.assets ≤ w.book.shares u * w'.book.assets :=
    mul_le_mul_of_nonneg_left hle (hb.conserved.nonneg u)
  rcases hb.supply_nonneg.eq_or_lt with hS | hS
  · rw [← hS, Int.ediv_zero, Int.ediv_zero]
  · exact Int.ediv_le_ediv hS hmul

theorem AgentOutcome.of_funds (hsame : w'.book = w.book) (htransfers : w'.transfers = [])
    (hfunds : ∃ legs, w.entered.Legs env legs w' ∧ w.idle - poolsTook legs ≤ w'.idle)
    (hcall : ∀ a n allow bps, call ≠ .updateTotalAssets a n allow bps) :
    AgentOutcome env w w' call := by
  refine ⟨fun u => by rw [hsame], fun u => ?_, ?_, ?_, hfunds⟩
  · unfold World.claim
    rw [hsame]
  · intro a n allow bps heq
    exact absurd heq (hcall a n allow bps)
  · intro tr htr
    rw [htransfers] at htr
    exact absurd htr List.not_mem_nil

theorem agentOutcome_batchDeposit {u : Unit} (hw : w.WellFormed)
    (h : (batchDeposit agent entries).Ok env w.entered u w') :
    AgentOutcome env w w' (.batchDeposit agent entries) := by
  have hbatch := batchDeposit_ok h
  obtain ⟨w0, hpasses⟩ := batchDeposit_passes h
  obtain ⟨t, heach, skipped, -, hfinal⟩ := hpasses.effects
  have htoll : w0 = { w.entered with buckets := w0.buckets } :=
    tollOnly_enforceRateLimit hpasses.toll
  have hregular : w0.book.Regular := by
    rw [htoll]
    exact hw.sound.regular
  have hself : w0.self = w.self := by rw [htoll]; rfl
  obtain ⟨-, hidle, htransfers⟩ := pass_transfers (hself ▸ hpasses.foreign) heach
  refine ⟨fun u => hbatch.shares_le hw.sound, fun u => ?_, ?_, ?_, [], ?_, ?_⟩
  · have hclaim := (InPass.finish hregular heach).claims u
    rw [htoll] at hclaim
    rw [hfinal]
    exact hclaim
  · intro a n allow bps heq
    cases heq
  · intro tr htr hsender
    have hnone : w0.transfers = [] := by rw [htoll]; rfl
    have hin : tr ∈ t.transfers := by
      rw [hfinal] at htr
      simpa [World.transfers, Event.toTransfer] using htr
    rcases htransfers tr hin (hsender.trans hself.symm) with hold | hrefund
    · rw [hnone] at hold
      exact absurd hold List.not_mem_nil
    · obtain ⟨pre, item, rest, s, rfl, hpre, hadmits, hzero, token, htoken, rfl⟩ := hrefund
      rw [htoll] at htoken
      exact ⟨agent, pre, item, rest, s, rfl, ⟨w0, hpasses.toll, hpre⟩, hadmits, hzero, htoken,
        hself, rfl, rfl⟩
  · exact World.legs_nil hbatch.legs fun _ => hbatch.position
  · rw [htoll] at hidle
    rw [hfinal]
    exact (sub_zero w.idle).le.trans hidle

/-- A report the owner has not signed is no decrease. -/
theorem report_grows {u : Unit} {a : Address} {new : Int} {allow : Bool} {bps : Nat}
    (howner : ¬ w.OwnerSigned env)
    (h : (updateTotalAssets a new allow bps).Ok env w.entered u w') : w.book.assets ≤ new := by
  obtain ⟨-, -, hdrop⟩ := updateTotalAssets_ok h
  by_contra hlt
  exact howner (hdrop (not_le.mp hlt)).2.2

theorem agentOutcome_updateTotalAssets {u : Unit} {a : Address} {new : Int} {allow : Bool}
    {bps : Nat} (hw : w.WellFormed) (howner : ¬ w.OwnerSigned env)
    (h : (updateTotalAssets a new allow bps).Ok env w.entered u w') :
    AgentOutcome env w w' (.updateTotalAssets a new allow bps) := by
  obtain ⟨hvisible, hq, -⟩ := updateTotalAssets_ok h
  have hgrown := report_grows howner h
  have hassets : w'.book.assets = new := by
    rw [hq.book]
    rfl
  refine ⟨fun u => ?_, ?_, ?_, ?_, [],
    World.legs_nil hq.settled.legs fun _ => hq.settled.position, ?_⟩
  · rw [hq.book]
    exact le_rfl
  · apply claim_le_of_assets_le hw.sound
    · rw [hq.book]
      rfl
    · rw [hq.book]
      rfl
    · rwa [hassets]
  · intro _ _ _ _ _
    have hbacking : w'.backing = w.backing := by
      unfold World.backing World.idle World.position
      rw [hq.usdcToken, hq.chain, hq.self, hq.deployment]
      rfl
    have hblend := hw.positions .blend
    have hdex := hw.positions .dex
    have hseen : w.entered.visible ≤ w.backing := by
      show w.idle + (if _ then w.position .blend else 0) + (if _ then w.position .dex else 0) ≤
        w.idle + w.position .blend + w.position .dex
      split_ifs <;> omega
    rw [hbacking, hassets]
    exact hvisible.trans hseen
  · intro tr htr
    rw [hq.transfers] at htr
    exact absurd htr List.not_mem_nil
  · have hidle : w'.idle = w.idle := by
      unfold World.idle
      rw [hq.usdcToken, hq.chain, hq.self]
      rfl
    rw [hidle]
    exact (sub_zero w.idle).le

/-- Every successful call of the agent has that outcome. -/
theorem agentOutcome_of_ok {u : Unit} (hi : w.Initialized) (hw : w.WellFormed)
    (hstep : (Step.call env call).ByAgents w) (h : (invoke call).Ok env w u w') :
    AgentOutcome env w w' call := by
  obtain ⟨hagents, howner, -⟩ := hstep
  have heffect := effect_of_invoke hi h
  have hrun := ok_invoke.mp h
  have hmoved : FundsMove env w.entered w' →
      (∀ a n allow bps, call ≠ .updateTotalAssets a n allow bps) → AgentOutcome env w w' call := by
    intro hmove hcall
    obtain ⟨legs, hanswered, hidle⟩ := hmove.ledger
    exact .of_funds hmove.poolStep.book hmove.poolStep.transfers ⟨legs, hanswered, hidle.ge⟩ hcall
  cases call
  case batchDeposit => exact agentOutcome_batchDeposit hw hrun
  case updateTotalAssets => exact agentOutcome_updateTotalAssets hw howner hrun
  case rebalance => exact hmoved (movesFunds_rebalance hrun) nofun
  case rebalanceMulti => exact hmoved (movesFunds_rebalanceMulti hrun) nofun
  case harvest => exact hmoved (movesFunds_harvest hrun) nofun
  case setProtocolApy =>
    have hq : Quiet w.entered w' := quiet_run rfl hrun
    exact hmoved (.settled hq.settled) nofun
  all_goals exact absurd hagents Bool.false_ne_true

/-- The agent's calls keep a vault well formed. -/
theorem wellFormed_after (step : Step) (hi : w.Initialized) (hstep : step.ByAgents w)
    (hw : w.WellFormed) : (w.after step).WellFormed := by
  refine after_cases (P := World.WellFormed) step hi hw ?_ ?_
  · rintro env call w' rfl hok heffect
    obtain ⟨hagents, howner, hreply⟩ := hstep
    have hrun := ok_invoke.mp hok
    have hmoved : FundsMove env w.entered w' → w'.WellFormed := fun hmove => by
      refine ⟨?_, hmove.position_nonneg hreply hw.positions⟩
      rw [hmove.poolStep.book]
      exact hw.sound
    cases call
    case batchDeposit =>
      refine ⟨heffect.sound trivial hw.sound, fun v => ?_⟩
      rw [(batchDeposit_ok hrun).position]
      exact hw.positions v
    case updateTotalAssets a new allow bps =>
      obtain ⟨-, hq, -⟩ := updateTotalAssets_ok hrun
      have hgrown := report_grows howner hrun
      refine ⟨heffect.sound (hw.sound.assets_nonneg.trans hgrown) hw.sound, fun v => ?_⟩
      rw [hq.settled.position]
      exact hw.positions v
    case rebalance => exact hmoved (movesFunds_rebalance hrun)
    case rebalanceMulti => exact hmoved (movesFunds_rebalanceMulti hrun)
    case harvest => exact hmoved (movesFunds_harvest hrun)
    case setProtocolApy =>
      have hq : Quiet w.entered w' := quiet_run rfl hrun
      exact hmoved (.settled hq.settled)
    all_goals exact absurd hagents Bool.false_ne_true
  · rintro chain rfl
    exact ⟨hw.sound, hstep⟩

/-! ## Signatures -/

def Step.SignedBy (user : Address) : Step → Prop
  | .call env _ => user ∈ env.auths
  | .ambient _ => False

/-- The user has fewer shares after the step, of the USDC pool or of an asset. -/
def Step.TakesShares (w : World) (user : Address) (step : Step) : Prop :=
  (w.after step).book.shares user < w.book.shares user ∨
    ∃ s, (w.after step).assets.shares user s < w.assets.shares user s

/-- Without a batch at a negative total, only a signed call takes shares. -/
theorem signed_of_takesShares (step : Step) (hi : w.Initialized) (hstep : step.BatchesSolvent w)
    (hb : w.book.Tallied) (htakes : step.TakesShares w user) : step.SignedBy user := by
  by_contra hunsigned
  have hkept : w.book.shares user ≤ (w.after step).book.shares user ∧
      ∀ s, w.assets.shares user s ≤ (w.after step).assets.shares user s := by
    refine after_cases (P := fun t => w.book.shares user ≤ t.book.shares user ∧
      ∀ s, w.assets.shares user s ≤ t.assets.shares user s) step hi ⟨le_rfl, fun _ => le_rfl⟩ ?_ ?_
    · rintro env call w' rfl hok heffect
      have hrun := ok_invoke.mp hok
      refine ⟨heffect.shares_le (fun hbatch => ?_) ?_, fun s => ?_⟩
      · exact hb.sound (solvent_of_isBatch hstep hbatch)
      · intro hredeemer
        exact hunsigned (redeemer_signs hredeemer hrun)
      · exact assetShares_le (w := w.entered) heffect hrun hunsigned
    · intro chain _
      exact ⟨le_rfl, fun _ => le_rfl⟩
  rcases htakes with hless | ⟨s, hless⟩
  · exact absurd hkept.1 (not_le.mpr hless)
  · exact absurd (hkept.2 s) (not_le.mpr hless)

/-- From every reachable well-formed state the agent's keys alone lower no shares and no claim,
    report nothing that is not backed, and take USDC only to the configured pools and back to the
    agent. In every run without a batch at a negative total, shares are only taken from users who
    signed. -/
theorem agent_has_least_authority (h0 : w0.Opened) :
    (∀ w w1 env call w', Reaches (fun _ _ => True) w0 w → w.WellFormed →
      Reaches (fun t step => step.ByAgents t) w w1 → (Step.call env call).ByAgents w1 →
      (invoke call).Ok env w1 () w' → AgentOutcome env w1 w' call) ∧
    ∀ w (step : Step) user, Reaches (fun t step => step.BatchesSolvent t) w0 w →
      step.BatchesSolvent w →
      step.TakesShares w user → step.SignedBy user := by
  constructor
  · intro w w1 env call w' hw hwell hrun hstep hok
    have hi : w.Initialized := (stored_of_reaches h0 hw).2
    obtain ⟨hwell1, hi1⟩ := hrun.keeps (P := World.WellFormed) hi hwell
      fun t step hstep hi hwell => wellFormed_after step hi hstep hwell
    exact agentOutcome_of_ok hi1 hwell1 hstep hok
  · intro w step user hw hstep htakes
    obtain ⟨hb, hi⟩ := tallied_of_reaches h0 hw
    exact signed_of_takesShares step hi hstep hb htakes

namespace Sample

/-- The agent credits Alice's account with five USDC of its own. -/
def agentBatch : Call := .batchDeposit Sample.agent [⟨alice, 5000000⟩]

/-- Only the agent signs. -/
def agentAlone : Env := { auths := [Sample.agent] }

/-- Its batch lowers no claim, and takes shares from nobody else. -/
theorem agentBatch_outcome :
    (∀ u, (opened.replay busy).claim u ≤
      ((opened.replay busy).after (.call agentAlone agentBatch)).claim u) ∧
      ∀ user, (Step.call agentAlone agentBatch).TakesShares (opened.replay busy) user →
        user = Sample.agent := by
  have hreach : Reaches (fun _ _ => True) opened (opened.replay busy) :=
    .of_admits ⟨trivial, trivial, trivial, trivial⟩
  have hsolvent : Reaches (fun t step => step.BatchesSolvent t) opened (opened.replay busy) :=
    .of_admits ⟨trivial, trivial, trivial, trivial⟩
  have hreports : Reaches (fun _ step => step.ReportsNonNegative) opened (opened.replay busy) :=
    .of_admits ⟨trivial, trivial, trivial, trivial⟩
  have hsound : (opened.replay busy).book.Sound :=
    (sound_of_reaches opened_opened hreports fun _ _ h => h).1
  have hwell : (opened.replay busy).WellFormed := by
    refine ⟨hsound, fun v => ?_⟩
    cases v
    · decide +kernel
    · decide +kernel
  have hagents : (Step.call agentAlone agentBatch).ByAgents (opened.replay busy) := by
    refine ⟨rfl, ?_, fun c reply hreply => nomatch hreply⟩
    rintro ⟨o, howner, hsigned⟩
    obtain rfl := List.mem_singleton.mp hsigned
    exact absurd howner (by decide +kernel)
  obtain ⟨hagent, hsigned⟩ := agent_has_least_authority opened_opened
  constructor
  · exact (hagent _ _ _ _ _ hreach hwell .refl hagents (ok_after (by decide +kernel))).claims
  · intro user htakes
    have hstep : (Step.call agentAlone agentBatch).BatchesSolvent (opened.replay busy) :=
      hsound.assets_nonneg
    exact List.mem_singleton.mp (hsigned _ _ user hsolvent hstep htakes)

/-- After a co-signed negative report the agent's batch takes Alice's shares without her. -/
theorem agentBatch_takes_shares :
    opened.Opened ∧ Reaches (fun _ _ => True) opened (opened.replay negativeReport) ∧
      (Step.call agentAlone agentBatch).TakesShares (opened.replay negativeReport) alice ∧
      ¬ (Step.call agentAlone agentBatch).SignedBy alice :=
  ⟨opened_opened, .of_admits ⟨trivial, trivial, trivial⟩, .inl (by decide +kernel),
    show alice ∉ [Sample.agent] by decide⟩

end Sample

end NeuroWealth.Vault
