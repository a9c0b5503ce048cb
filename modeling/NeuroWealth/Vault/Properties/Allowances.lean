import NeuroWealth.Vault.Proofs.HoldingsProofs

/-!
# Allowances of the pools

A supply approves all it asks for and never clears what the pool leaves. So it leaves no allowance
exactly if the pool pulls all it was approved for.
-/

namespace NeuroWealth.Vault

open Transaction MachineInt SharePool

variable {env : Env} {w w0 w' : World} {call : Call}

/-- No address may pull USDC of the vault. -/
def World.NoAllowance (w : World) : Prop :=
  ∀ token spender, w.usdcToken = some token → w.allowed token spender = 0

/-- The allowances a vault granted can be spent, but nobody else can raise them. -/
def Chain.SpendsOnly (vault : Address) (c c' : Chain) : Prop :=
  ∀ token spender, 0 ≤ (c.allowances token vault spender).amount →
    0 ≤ (c'.allowances token vault spender).amount ∧
      (c'.allowances token vault spender).amount ≤ (c.allowances token vault spender).amount

/-- Nor does the migration target's `deposit` raise them. -/
def Env.TargetSpendsOnly (env : Env) (vault : Address) : Prop :=
  ∀ chain target user amount chain', env.targetDeposit chain target user amount = some chain' →
    chain.SpendsOnly vault chain'

/-- The chain around the vault respects its allowances. -/
def Step.RespectsAllowances (w : World) : Step → Prop
  | .call env _ => env.TargetSpendsOnly w.self
  | .ambient chain => w.chain.SpendsOnly w.self chain

/-- Pools pull all they are approved for when they are supplied. -/
def Env.FullSupplies (env : Env) : Prop :=
  ∀ (c : PoolCall) r, c.kind = .supply → env.pool c = some r → r.moved = c.amount

def Step.SuppliesInFull : Step → Prop
  | .call env _ => env.FullSupplies
  | .ambient _ => True

/-! ## One call -/

/-- The vault and its token stay, and no allowance appears. -/
structure AllowsNoMore (w w' : World) : Prop where
  self : w'.self = w.self
  usdcToken : w'.usdcToken = w.usdcToken
  noAllowance : w.NoAllowance → w'.NoAllowance

theorem AllowsNoMore.of_allowed (hself : w'.self = w.self) (htoken : w'.usdcToken = w.usdcToken)
    (hallowed : w'.chain.allowances = w.chain.allowances) : AllowsNoMore w w' := by
  refine ⟨hself, htoken, fun h token spender ht => ?_⟩
  have hzero := h token spender (htoken ▸ ht)
  unfold World.allowed at hzero ⊢
  rwa [hallowed, hself]

theorem AllowsNoMore.trans {t : World} (h1 : AllowsNoMore w t) (h2 : AllowsNoMore t w') :
    AllowsNoMore w w' :=
  ⟨h2.self.trans h1.self, h2.usdcToken.trans h1.usdcToken, h2.noAllowance ∘ h1.noAllowance⟩

/-- Who spends only, leaves nothing where there was nothing. -/
theorem AllowsNoMore.of_spendsOnly {chain : Chain} (h : w.chain.SpendsOnly w.self chain) :
    AllowsNoMore w { w with chain := chain } := by
  refine ⟨rfl, rfl, fun hnone token spender ht => ?_⟩
  have hzero : (w.chain.allowances token w.self spender).amount = 0 := hnone token spender ht
  have hspent := h token spender hzero.ge
  show (chain.allowances token w.self spender).amount = 0
  omega

/-- A supply uses up what it approves exactly if the pool pulls all of it. -/
theorem Leg.supply_allowed_iff {venue : Venue} {token pool : Address} {asked minOut : Int}
    {reply : PoolReply} (h : Leg .supply env w w' venue asked minOut reply) (hasked : 0 < asked)
    (htoken : w.usdcToken = some token) (hpool : w.deployment.pool venue = some pool) :
    w'.allowed token pool = 0 ↔ reply.moved = asked := by
  have hpermitted : reply.moved ≤ 0 ∨ reply.moved ≤ asked := h.permitted token pool htoken hpool
  have hleft : w'.allowed token pool = asked - max reply.moved 0 := by
    rw [h.allowed, if_pos ⟨htoken, hpool⟩]
    rfl
  rw [hleft]
  omega

/-- A supply in full uses up what it approves, and a withdrawal finds nothing to pull. -/
theorem Leg.allowsNoMore {kind : LegKind} {venue : Venue} {asked minOut : Int} {reply : PoolReply}
    (h : Leg kind env w w' venue asked minOut reply) (hasked : 0 < asked)
    (hfull : env.FullSupplies) : AllowsNoMore w w' := by
  refine ⟨h.frame.self, h.frame.usdcToken, fun hnone token spender ht => ?_⟩
  rw [h.frame.usdcToken] at ht
  have hzero := hnone token spender ht
  by_cases hpool : w.deployment.pool venue = some spender
  · cases kind with
    | supply =>
      obtain ⟨pool, -, hreply⟩ := h.answered
      exact (h.supply_allowed_iff hasked ht hpool).mpr (hfull _ _ rfl hreply)
    | withdraw =>
      have htaken : -reply.moved ≤ 0 ∨ -reply.moved ≤ w.allowed token spender :=
        h.permitted token spender ht hpool
      rw [h.allowed, if_pos ⟨ht, hpool⟩]
      show w.allowed token spender - max (-reply.moved) 0 = 0
      omega
  · rw [h.allowed, if_neg fun hboth => hpool hboth.2]
    exact hzero

theorem FundsMove.allowsNoMore (h : FundsMove env w w') (hfull : env.FullSupplies) :
    AllowsNoMore w w' := by
  induction h with
  | settled hs => exact .of_allowed hs.self hs.usdcToken hs.allowances
  | leg hasked hleg => exact hleg.allowsNoMore hasked hfull
  | trans _ _ ih1 ih2 => exact ih1.trans ih2

theorem allowanceFrame {vault : Address} (hfull : env.FullSupplies)
    (htarget : env.TargetSpendsOnly vault) :
    WideFrame env fun w w' => w.self = vault → AllowsNoMore w w' where
  trans h1 h2 hself := (h1 hself).trans (h2 ((h1 hself).self.trans hself))
  quiet h _ := .of_allowed h.self h.usdcToken (by rw [h.chain])
  moves h _ := h.allowsNoMore hfull
  accounting h _ := .of_allowed h.self h.usdcToken (by rw [h.chain])
  locks _ _ _ := .of_allowed rfl rfl rfl
  paid h _ := .of_allowed h.self h.usdcToken (by rw [h.chain]; rfl)
  rebooked h _ := .of_allowed h.self h.usdcToken (by rw [h.chain])
  target {w w' target user amount} h hself := by
    obtain ⟨chain, hchain, hq⟩ := h.frame
    have hspends : w.chain.SpendsOnly w.self chain := hself ▸ htarget _ _ _ _ _ hchain
    have h1 := AllowsNoMore.of_spendsOnly hspends
    exact h1.trans (.of_allowed hq.self hq.usdcToken (by rw [hq.chain]))

/-- A call whose supplies are pulled in full leaves no allowance. -/
theorem Effect.allowsNoMore (h : Effect env w w' call) (hfull : env.FullSupplies)
    (htarget : env.TargetSpendsOnly w.self) : AllowsNoMore w w' := by
  refine (allowanceFrame hfull htarget).effect ?_ h rfl
  rintro venue owner pool - -
  exact .of_allowed rfl rfl rfl

/-! ## Runs -/

/-- In every run from a vault that has granted nothing, whose supplies are all pulled in full,
    no state has an allowance of the vault's USDC. -/
theorem no_standing_allowance (h0 : w0.Opened) (hnone : w0.NoAllowance)
    (h : Reaches (fun t step => step.RespectsAllowances t ∧ step.SuppliesInFull) w0 w) :
    w.NoAllowance := by
  refine (h.invariant (P := World.NoAllowance) h0 hnone ?_).1
  intro t step hadm hi ht
  obtain ⟨hrespects, hfull⟩ := hadm
  refine after_cases (P := World.NoAllowance) step hi ht ?_ ?_
  · rintro env call w' rfl _ heffect
    have hentered : t.entered.NoAllowance := ht
    exact (heffect.allowsNoMore hfull hrespects).noAllowance hentered
  · rintro chain rfl
    exact (AllowsNoMore.of_spendsOnly hrespects).noAllowance ht

namespace Sample

theorem opened_noAllowance : opened.NoAllowance := by
  intro token spender _
  rfl

/-- The honest pools pull what they are approved for. -/
theorem honest_fullSupplies : honest.FullSupplies := by
  rintro c r hkind hreply
  simp only [honest, hkind, Option.some.injEq] at hreply
  rw [← hreply]

theorem honest_targetSpendsOnly {v : Address} : honest.TargetSpendsOnly v := by
  intro chain target user amount chain' h
  cases h

/-- Alice's five USDC go to the Blend pool, which is harvested. -/
def fullySupplied : List Step :=
  [.call honest (.deposit alice 5000000), .call honest (.setVenuePool .blend owner blendPool),
    .call honest (.rebalance .blend 0 0), .call honest (.harvest 0)]

theorem fullySupplied_noAllowance :
    (opened.replay fullySupplied).position .blend = 5000000 ∧
      (opened.replay fullySupplied).NoAllowance := by
  refine ⟨by decide +kernel, no_standing_allowance opened_opened opened_noAllowance ?_⟩
  refine .of_admits ⟨⟨?_, ?_⟩, ⟨?_, ?_⟩, ⟨?_, ?_⟩, ⟨?_, ?_⟩, trivial⟩
  all_goals first | exact honest_fullSupplies | exact honest_targetSpendsOnly

/-- A pool that pulls two USDC of what it is approved for. -/
def pullTwo (c : PoolCall) : Option PoolReply :=
  match c.kind with
  | .supply => some ⟨2000000, c.position + 2000000⟩
  | .withdraw => some ⟨c.amount, c.position - c.amount⟩

def reluctant : Env := { honest with pool := pullTwo }

/-- Alice's five USDC are offered to it, and the venue is pointed elsewhere. -/
def partlySupplied : List Step :=
  [.call honest (.deposit alice 5000000), .call honest (.setVenuePool .blend owner blendPool),
    .call reluctant (.rebalance .blend 0 0), .call honest (.setVenuePool .blend owner bob)]

/-- The replaced pool may still pull the three USDC left idle, for many ledgers. -/
theorem standing_allowance :
    opened.Opened ∧ opened.NoAllowance ∧
      Reaches (fun t step => step.RespectsAllowances t) opened (opened.replay partlySupplied) ∧
      (opened.replay partlySupplied).deployment.pool .blend ≠ some blendPool ∧
      (opened.replay partlySupplied).idle = 3000000 ∧
      (opened.replay partlySupplied).chain.allowances usdc vault blendPool = ⟨3000000, 101000⟩ ∧
      ¬ (opened.replay partlySupplied).NoAllowance := by
  have hleft : (opened.replay partlySupplied).chain.allowances usdc vault blendPool =
      ⟨3000000, 101000⟩ := by
    decide +kernel
  refine ⟨opened_opened, opened_noAllowance, ?_, by decide +kernel, by decide +kernel, hleft, ?_⟩
  · refine .of_admits ⟨?_, ?_, ?_, ?_, trivial⟩
    all_goals
      intro chain target user amount chain' h
      cases h
  · intro hnone
    have hself : (opened.replay partlySupplied).self = vault := by decide +kernel
    have hzero := hnone usdc blendPool (by decide +kernel)
    unfold World.allowed at hzero
    rw [hself, hleft] at hzero
    cases hzero

end Sample

end NeuroWealth.Vault
