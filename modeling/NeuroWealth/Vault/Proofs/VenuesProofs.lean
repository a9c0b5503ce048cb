import NeuroWealth.Vault.Proofs.GuardsProofs

/-!
# What the pool legs do

Every leg stays within the pool frame. A leg that reaches a pool changes the vault's idle balance
by what the pool moved, and the position to what the pool reports.
-/

namespace NeuroWealth.Vault

open Transaction MachineInt

variable {env : Env} {w w' : World} {venue : Venue}

/-! ## Settled code -/

theorem Unmoved.idle (h : Unmoved w w') : w'.idle = w.idle := by
  unfold World.idle
  rw [h.usdcToken, h.balances, h.self]

theorem Unmoved.position (h : Unmoved w w') : w'.position venue = w.position venue := by
  unfold World.position
  rw [h.pool, h.positions, h.self]

theorem Settled.idle (h : Settled w w') : w'.idle = w.idle := h.toUnmoved.idle

theorem Settled.position (h : Settled w w') : w'.position venue = w.position venue :=
  h.toUnmoved.position

theorem settled_of_quiet {α : Type} {x : Contract α} (h : Keeps quiet x) : Keeps settled x :=
  h.mono Quiet.settled

theorem settled_publish {e : Event} (he : e.toTransfer = none) : Keeps settled (publish e) :=
  settled_of_quiet (quiet_publish he)

/-- Deployment records other than the configured pools. -/
theorem settled_putDeployment {d : Deployment} {u : Unit} (h : (putDeployment d).Ok env w u w')
    (hd : d.pool = w.deployment.pool) : Settled w w' ∧ w'.deployment = d := by
  obtain rfl := ok_putDeployment.mp h
  exact ⟨⟨⟨⟨rfl, rfl, rfl, rfl, rfl, rfl, rfl, hd, rfl, id⟩, rfl, rfl, rfl⟩, rfl⟩, rfl⟩

/-- The USDC the vault allows an address to pull. -/
def World.allowed (w : World) (token spender : Address) : Int :=
  (w.chain.allowances token w.self spender).amount

theorem Settled.allowed (h : Settled w w') {token spender : Address} :
    w'.allowed token spender = w.allowed token spender := by
  unfold World.allowed
  rw [h.allowances, h.self]

/-- An approval sets one allowance. -/
theorem approve_ok {token spender : Address} {amount : Int} {n : Nat} {u : Unit}
    (h : (approve token spender amount n).Ok env w u w') :
    Unmoved w w' ∧ w'.deployment = w.deployment ∧ w'.allowed token spender = amount ∧
      ∀ t s, ¬ (t = token ∧ s = spender) → w'.allowed t s = w.allowed t s := by
  simp only [approve, Tx.ok_bind, Tx.ok_get, Tx.ok_require, Tx.ok_modify, ok_publish, existsAndEq,
    exists_const, and_assoc, true_and] at h
  obtain ⟨-, -, rfl⟩ := h
  refine ⟨⟨⟨rfl, rfl, rfl, rfl, rfl, rfl, rfl, rfl, ?_, id⟩, rfl, rfl, rfl⟩, rfl, ?_, ?_⟩
  · simp [World.transfers, Event.toTransfer]
  · simp [World.allowed, Chain.setAllowance]
  · intro t s hts
    simp [World.allowed, Chain.setAllowance, hts]

/-- The marker is what it was set to. -/
theorem setCurrentProtocol_ok {p : Protocol} {u : Unit} (h : (setCurrentProtocol p).Ok env w u w') :
    Settled w w' ∧ w'.deployment = { w.deployment with currentProtocol := p } := by
  simp only [setCurrentProtocol, Tx.ok_bind, Tx.ok_get, Tx.ok_ite, Tx.ok_pure, existsAndEq,
    true_and] at h
  rcases h with ⟨hp, rfl⟩ | ⟨-, _, t, hd, hpub⟩
  · subst hp
    exact ⟨settled.refl env _, rfl⟩
  · obtain ⟨h1, hd1⟩ := settled_putDeployment hd rfl
    have h2 : Quiet t w' := quiet_publish rfl hpub
    exact ⟨settled.trans (r := env) h1 h2.settled, h2.deployment.trans hd1⟩

theorem settled_setCurrentProtocol {p : Protocol} : Keeps settled (setCurrentProtocol p) :=
  fun _ _ _ _ h => (setCurrentProtocol_ok h).1

/-! ## Reading positions -/

@[simp]
theorem ok_getPool {pool : Address} :
    (getPool venue).Ok env w pool w' ↔ w.deployment.pool venue = some pool ∧ w' = w := by
  simp only [getPool, Tx.ok_bind, Tx.ok_get, Tx.ok_expect, existsAndEq, true_and]

theorem position_eq {pool : Address} (h : w.deployment.pool venue = some pool) :
    w.position venue = w.chain.positions venue pool w.self := by
  simp only [World.position, h]

/-- A venue without a pool holds nothing. -/
theorem position_unset (h : w.deployment.pool venue = none) : w.position venue = 0 := by
  simp only [World.position, h]

/-- A read of a venue's balance returns the position. -/
theorem getVenueBalance_ok {x : Int} (h : (getVenueBalance venue).Ok env w x w') :
    x = w.position venue ∧ w' = w := by
  simp only [getVenueBalance, Tx.ok_bind, Tx.ok_get, existsAndEq, true_and] at h
  split at h
  · rename_i pool hp
    simp only [Tx.ok_bind, ok_getUsdcToken, ok_poolBalance] at h
    obtain ⟨-, t, ⟨-, rfl⟩, rfl, rfl⟩ := h
    exact ⟨(position_eq hp).symm, rfl⟩
  · rename_i hp
    obtain ⟨rfl, rfl⟩ := Tx.ok_pure.mp h
    exact ⟨by simp only [World.position, hp], rfl⟩

/-- The balance a protocol symbol stands for. -/
def World.protocolBalance (w : World) : Protocol → Int
  | .blend => w.position .blend
  | .dex => w.position .dex
  | .multi => i128.saturatingAdd (w.position .blend) (w.position .dex)
  | _ => 0

theorem getProtocolBalance_ok {p : Protocol} {x : Int}
    (h : (getProtocolBalance p).Ok env w x w') : x = w.protocolBalance p ∧ w' = w := by
  cases p with
  | blend => exact getVenueBalance_ok h
  | dex => exact getVenueBalance_ok h
  | multi =>
    obtain ⟨b, t, hb, h⟩ := Tx.ok_bind.mp h
    obtain ⟨d, t', hd, h⟩ := Tx.ok_bind.mp h
    obtain ⟨rfl, rfl⟩ := getVenueBalance_ok hb
    obtain ⟨rfl, rfl⟩ := getVenueBalance_ok hd
    exact Tx.ok_pure.mp h
  | none => exact Tx.ok_pure.mp h
  | other => exact Tx.ok_pure.mp h

/-- The trackers are set to the live positions, and returned. -/
theorem syncDeployedSplit_ok {x : Int × Int} (h : syncDeployedSplit.Ok env w x w') :
    Settled w w' ∧ x = (w.position .blend, w.position .dex) ∧
      w'.deployment = w.deployment.setDeployed (w.position .blend) (w.position .dex) := by
  obtain ⟨b, t, hb, h⟩ := Tx.ok_bind.mp h
  obtain ⟨d, t', hd, h⟩ := Tx.ok_bind.mp h
  obtain ⟨rfl, rfl⟩ := getVenueBalance_ok hb
  obtain ⟨rfl, rfl⟩ := getVenueBalance_ok hd
  simp only [Tx.ok_bind, Tx.ok_get, Tx.ok_pure, existsAndEq, true_and] at h
  obtain ⟨_, hput, hx, -⟩ := h
  obtain ⟨hset, hdep⟩ := settled_putDeployment hput rfl
  exact ⟨hset, hx, hdep⟩

/-! ## One leg -/

/-- The allowance of a pool when it is called: a supply approves what it asks for. -/
def LegKind.granted : LegKind → Int → Int → Int
  | .supply, asked, _ => asked
  | .withdraw, _, before => before

/-- A pool answered a call for `asked` with `reply`, and the funds moved accordingly. -/
structure Leg (kind : LegKind) (env : Env) (w w' : World) (venue : Venue) (asked minOut : Int)
    (reply : PoolReply) : Prop where
  frame : PoolStep w w'
  legs : w'.legs = w.legs + 1
  answered : ∃ pool, w.deployment.pool venue = some pool ∧
    env.pool ⟨w.legs, kind, venue, pool, asked, venue.forwardedMinOut minOut,
      w.position venue⟩ = some reply
  affordable : kind.taken reply.moved ≤ 0 ∨ kind.taken reply.moved ≤ w.idle
  idle : w'.idle = w.idle - kind.taken reply.moved
  position : w'.position venue = reply.position
  elsewhere : ∀ v, v ≠ venue → w'.position v = w.position v
  unconfigured : ∀ v p, w.deployment.pool v ≠ some p →
    w'.chain.positions v p w.self = w.chain.positions v p w.self
  otherTokens : ∀ t, w.usdcToken ≠ some t → w'.chain.balances t w.self = w.chain.balances t w.self
  permitted : ∀ t s, w.usdcToken = some t → w.deployment.pool venue = some s →
    kind.taken reply.moved ≤ 0 ∨ kind.taken reply.moved ≤ kind.granted asked (w.allowed t s)
  allowed : ∀ t s, w'.allowed t s =
    if w.usdcToken = some t ∧ w.deployment.pool venue = some s then
      kind.granted asked (w.allowed t s) - max (kind.taken reply.moved) 0
    else w.allowed t s

theorem callPool_ok {kind : LegKind} {pool token : Address} {amount minOut : Int} {u : Unit}
    (hpool : w.deployment.pool venue = some pool) (htoken : w.usdcToken = some token)
    (hgranted : kind = .supply → w.allowed token pool = amount)
    (h : (callPool kind venue pool token amount (venue.forwardedMinOut minOut)).Ok env w u w') :
    ∃ reply, Leg kind env w w' venue amount minOut reply ∧ w'.deployment = w.deployment := by
  simp only [callPool, Tx.ok_bind, Tx.ok_read, Tx.ok_get, Tx.ok_expect, Tx.ok_require,
    Tx.ok_modify, existsAndEq, exists_const, and_assoc, true_and] at h
  obtain ⟨reply, hreply, haff, rfl⟩ := h
  refine ⟨reply, ?_, rfl⟩
  have hidle : w.idle = w.chain.balances token w.self := by simp only [World.idle, htoken]
  have hkind : kind.granted amount (w.allowed token pool) = w.allowed token pool := by
    cases kind with
    | supply => exact (hgranted rfl).symm
    | withdraw => rfl
  constructor
  · exact ⟨rfl, rfl, rfl, rfl, rfl, rfl, rfl, rfl, rfl, id⟩
  · rfl
  · exact ⟨pool, hpool, by rw [position_eq hpool]; exact hreply⟩
  · rw [hidle]
    exact haff.imp id And.left
  · simp only [World.idle, htoken]
    simp [Chain.settle, Chain.setPosition, Chain.setAllowance, Chain.setBalance]
  · simp only [World.position, hpool]
    simp [Chain.settle, Chain.setPosition]
  · intro v hv
    simp only [World.position]
    cases w.deployment.pool v with
    | none => rfl
    | some p => simp [Chain.settle, Chain.setPosition, Chain.setAllowance, Chain.setBalance, hv]
  · intro v p hp
    have hne : ¬ (v = venue ∧ p = pool) := fun hvp => hp (by rw [hvp.1, hvp.2, hpool])
    simp [Chain.settle, Chain.setPosition, Chain.setAllowance, Chain.setBalance, hne]
  · intro t ht
    have hne : t ≠ token := fun htt => ht (by rw [htt, htoken])
    simp [Chain.settle, Chain.setPosition, Chain.setAllowance, Chain.setBalance, hne]
  · intro t s ht hs
    obtain rfl : token = t := Option.some.inj (htoken.symm.trans ht)
    obtain rfl : pool = s := Option.some.inj (hpool.symm.trans hs)
    rw [hkind]
    exact haff.imp id And.right
  · intro t s
    simp only [hpool, htoken, Option.some.injEq]
    by_cases hts : token = t ∧ pool = s
    · obtain ⟨rfl, rfl⟩ := hts
      rw [if_pos ⟨rfl, rfl⟩, hkind]
      simp [World.allowed, Chain.settle, Chain.setPosition, Chain.setAllowance, Chain.setBalance]
    · have hts' : ¬ (t = token ∧ s = pool) := fun h => hts ⟨h.1.symm, h.2.symm⟩
      rw [if_neg hts]
      simp [World.allowed, Chain.settle, Chain.setPosition, Chain.setAllowance, Chain.setBalance,
        hts']

/-- An approval of a supply before a leg, and settled code after it, do not disturb it. -/
theorem Leg.of_unmoved {kind : LegKind} {w1 w2 : World} {asked minOut : Int} {reply : PoolReply}
    (h1 : Unmoved w w1) (hallowed : ∀ t s, w1.allowed t s = w.allowed t s ∨
      kind = .supply ∧ w.usdcToken = some t ∧ w.deployment.pool venue = some s)
    (h : Leg kind env w1 w2 venue asked minOut reply) (h2 : Settled w2 w') :
    Leg kind env w w' venue asked minOut reply where
  frame := poolStep.trans (r := env) (poolStep.trans (r := env) h1.toPoolStep h.frame)
    h2.toPoolStep
  legs := by rw [h2.legs, h.legs, h1.legs]
  answered := by rw [← h1.position, ← h1.pool, ← h1.legs]; exact h.answered
  affordable := by rw [← h1.idle]; exact h.affordable
  idle := by rw [h2.idle, h.idle, h1.idle]
  position := by rw [h2.position, h.position]
  elsewhere v hv := by rw [h2.position, h.elsewhere v hv, h1.position]
  unconfigured v p hp := by
    rw [h2.positions, ← h1.self, h.unconfigured v p (by rwa [h1.pool]), h1.positions]
  otherTokens t ht := by
    rw [h2.balances, ← h1.self, h.otherTokens t (by rwa [h1.usdcToken]), h1.balances]
  permitted t s ht hs := by
    have hpermitted := h.permitted t s (by rwa [h1.usdcToken]) (by rwa [h1.pool])
    rcases hallowed t s with hsame | ⟨rfl, -, -⟩
    · rwa [hsame] at hpermitted
    · exact hpermitted
  allowed t s := by
    rw [h2.allowed, h.allowed, h1.usdcToken, h1.pool]
    rcases hallowed t s with hsame | ⟨rfl, htoken, hpool⟩
    · rw [hsame]
    · rw [if_pos ⟨htoken, hpool⟩, if_pos ⟨htoken, hpool⟩]
      rfl

/-- Settled code after a leg does not disturb it. -/
theorem Leg.of_settled {kind : LegKind} {t : World} {asked minOut : Int} {reply : PoolReply}
    (h : Leg kind env w t venue asked minOut reply) (h2 : Settled t w') :
    Leg kind env w w' venue asked minOut reply :=
  .of_unmoved (settled.refl env w).toUnmoved (fun _ _ => .inl rfl) h h2

theorem idle_eq {token : Address} (h : w.usdcToken = some token) :
    w.idle = w.chain.balances token w.self := by
  simp only [World.idle, h]

theorem idle_unset (h : w.usdcToken = none) : w.idle = 0 := by
  simp only [World.idle, h]

/-- `w'` is `w` with another marker. -/
def Marked (w w' : World) (p : Protocol) : Prop :=
  w'.deployment = { w.deployment with currentProtocol := p }

theorem Marked.refl : Marked w w w.deployment.currentProtocol := rfl

/-! ## Supplying -/

/-- A supply asks for a positive amount, and marks its venue if anything moved. -/
theorem supplyToVenue_ok {amount minOut s : Int}
    (h : (supplyToVenue venue amount minOut).Ok env w s w') :
    (amount ≤ 0 ∧ s = 0 ∧ w' = w) ∨
      (0 < amount ∧ ∃ reply, Leg .supply env w w' venue amount minOut reply ∧
        s = i128.saturate reply.moved ∧
        Marked w w' (if 0 < reply.moved then venue.protocol else w.deployment.currentProtocol)) := by
  unfold supplyToVenue at h
  split_ifs at h with hamount
  · exact .inl ⟨hamount, Tx.ok_pure.mp h⟩
  · refine .inr ⟨by omega, ?_⟩
    simp only [getApprovalTtlInternal, Tx.ok_bind, Tx.ok_get, Tx.ok_onlyIf, Tx.ok_pure, ok_getPool,
      ok_getUsdcToken, ok_ledgerSequence, ok_vaultBalance, ok_requireMinOut, existsAndEq,
      exists_const, and_assoc, true_and] at h
    obtain ⟨pool, hpool, token, htoken, _, t1, happrove, _, t2, hcall, -, _, t3, hmark, _, hpub,
      hs, -⟩ := h
    obtain ⟨h1, hd1, hgranted, hothers⟩ := approve_ok happrove
    obtain ⟨reply, hleg, hd2⟩ := callPool_ok (by rw [h1.pool]; exact hpool)
      (by rw [h1.usdcToken]; exact htoken) (fun _ => hgranted) hcall
    have hallowed : ∀ t s, t1.allowed t s = w.allowed t s ∨
        LegKind.supply = .supply ∧ w.usdcToken = some t ∧ w.deployment.pool venue = some s := by
      intro t s
      by_cases hts : t = token ∧ s = pool
      · obtain ⟨rfl, rfl⟩ := hts
        exact .inr ⟨rfl, htoken, hpool⟩
      · exact .inl (hothers t s hts)
    have htoken1 : t1.usdcToken = some token := by rw [h1.usdcToken, htoken]
    have htoken2 : t2.usdcToken = some token := by rw [hleg.frame.usdcToken, htoken1]
    have hmoved : i128.saturatingSub (t1.chain.balances token t1.self)
        (t2.chain.balances token t2.self) = i128.saturate reply.moved := by
      rw [← idle_eq htoken1, ← idle_eq htoken2, hleg.idle]
      unfold Format.saturatingSub LegKind.taken
      congr 1
      ring
    rw [hmoved] at hmark hs
    rw [saturate_pos (by decide)] at hmark
    have h4 : Quiet t3 w' := quiet_publish rfl hpub
    have hd12 : t2.deployment = w.deployment := hd2.trans hd1
    refine ⟨reply, ?_⟩
    rcases hmark with ⟨hpos, hset⟩ | ⟨hpos, rfl⟩
    · obtain ⟨h3, hd3⟩ := setCurrentProtocol_ok hset
      refine ⟨.of_unmoved h1 hallowed hleg (settled.trans (r := env) h3 h4.settled), hs, ?_⟩
      unfold Marked
      rw [if_pos hpos, h4.deployment, hd3, hd12]
    · refine ⟨.of_unmoved h1 hallowed hleg h4.settled, hs, ?_⟩
      unfold Marked
      rw [if_neg hpos, h4.deployment, hd12]

/-! ## Withdrawing -/

/-- A withdrawal of zero asks for the whole position. -/
def World.asked (w : World) (venue : Venue) (amount : Int) : Int :=
  if amount = 0 then w.position venue else amount

theorem requestedAmount_ok {pool : Address} {amount x : Int}
    (hpool : w.deployment.pool venue = some pool)
    (h : (requestedAmount venue pool amount).Ok env w x w') :
    x = w.asked venue amount ∧ w' = w := by
  unfold requestedAmount at h
  unfold World.asked
  split_ifs at h ⊢
  · rw [position_eq hpool]
    exact ok_poolBalance.mp h
  · exact Tx.ok_pure.mp h

/-- The marker falls back to `none` exactly when the position is gone. -/
theorem clearMarkerIfEmptied_ok {pool : Address} {u : Unit}
    (hpool : w.deployment.pool venue = some pool)
    (h : (clearMarkerIfEmptied venue pool).Ok env w u w') :
    Settled w w' ∧
      Marked w w' (if w.position venue = 0 then .none else w.deployment.currentProtocol) := by
  simp only [clearMarkerIfEmptied, Tx.ok_bind, ok_poolBalance, Tx.ok_onlyIf, existsAndEq,
    true_and] at h
  rw [position_eq hpool]
  rcases h with ⟨hz, hset⟩ | ⟨hz, rfl⟩
  · rw [if_pos hz]
    exact setCurrentProtocol_ok hset
  · rw [if_neg hz]
    exact ⟨settled.refl env _, Marked.refl⟩

/-- A withdrawal asks for a positive amount, and clears the marker if it emptied the position. -/
theorem withdrawFromVenue_ok {amount minOut s : Int}
    (h : (withdrawFromVenue venue amount minOut).Ok env w s w') :
    (w.asked venue amount ≤ 0 ∧ s = 0 ∧ w' = w) ∨
      (0 < w.asked venue amount ∧ ∃ reply,
        Leg .withdraw env w w' venue (w.asked venue amount) minOut reply ∧
        s = i128.saturate reply.moved ∧
        Marked w w' (if 0 < reply.moved ∧ reply.position = 0 then .none
          else w.deployment.currentProtocol)) := by
  simp only [withdrawFromVenue, Tx.ok_bind, ok_getPool, ok_getUsdcToken, existsAndEq, and_assoc,
    true_and] at h
  obtain ⟨pool, hpool, token, htoken, x, t0, hreq, h⟩ := h
  obtain ⟨rfl, rfl⟩ := requestedAmount_ok hpool hreq
  split_ifs at h with hasked
  · exact .inl ⟨hasked, Tx.ok_pure.mp h⟩
  · refine .inr ⟨by omega, ?_⟩
    simp only [Tx.ok_bind, ok_vaultBalance, ok_requireMinOut, Tx.ok_onlyIf, Tx.ok_pure,
      existsAndEq, exists_const, and_assoc, true_and] at h
    obtain ⟨_, t2, hcall, -, _, t3, hmark, _, hpub, hs, -⟩ := h
    obtain ⟨reply, hleg, hd2⟩ := callPool_ok hpool htoken (by rintro ⟨⟩) hcall
    have htoken2 : t2.usdcToken = some token := by rw [hleg.frame.usdcToken, htoken]
    have hmoved : i128.saturatingSub (t2.chain.balances token t2.self)
        (t0.chain.balances token t0.self) = i128.saturate reply.moved := by
      rw [← idle_eq htoken, ← idle_eq htoken2, hleg.idle]
      unfold Format.saturatingSub LegKind.taken
      congr 1
      ring
    rw [hmoved] at hmark hs
    rw [saturate_pos (by decide)] at hmark
    have h4 : Quiet t3 w' := quiet_publish rfl hpub
    have hpool2 : t2.deployment.pool venue = some pool := by rw [hd2]; exact hpool
    refine ⟨reply, ?_⟩
    rcases hmark with ⟨hpos, hclear⟩ | ⟨hpos, rfl⟩
    · obtain ⟨h3, hd3⟩ := clearMarkerIfEmptied_ok hpool2 hclear
      refine ⟨hleg.of_settled (settled.trans (r := env) h3 h4.settled), hs, ?_⟩
      unfold Marked at hd3 ⊢
      rw [h4.deployment, hd3, hd2, hleg.position]
      simp only [hpos, true_and]
    · refine ⟨hleg.of_settled h4.settled, hs, ?_⟩
      unfold Marked
      rw [if_neg fun hp => hpos hp.1, h4.deployment, hd2]

/-! ## Moving funds -/

/-- Any sequence of pool legs and settled code. -/
inductive FundsMove (env : Env) : World → World → Prop
  | settled {w w' : World} (h : Settled w w') : FundsMove env w w'
  | leg {w w' : World} {kind : LegKind} {venue : Venue} {asked minOut : Int} {reply : PoolReply}
      (hasked : 0 < asked) (h : Leg kind env w w' venue asked minOut reply) : FundsMove env w w'
  | trans {w t w' : World} (h1 : FundsMove env w t) (h2 : FundsMove env t w') :
      FundsMove env w w'

def movesFunds : Footprint Env World where
  rel := FundsMove
  refl env w := .settled (settled.refl env w)
  trans := .trans

theorem FundsMove.poolStep (h : FundsMove env w w') : PoolStep w w' := by
  induction h with
  | settled h => exact h.toPoolStep
  | leg _ h => exact h.frame
  | trans _ _ ih1 ih2 => exact NeuroWealth.Vault.poolStep.trans (r := env) ih1 ih2

/-- Pools only ever move USDC. -/
theorem FundsMove.otherTokens {token : Address} (h : FundsMove env w w')
    (htoken : w.usdcToken ≠ some token) :
    w'.chain.balances token w'.self = w.chain.balances token w.self := by
  induction h with
  | settled h => rw [h.balances, h.self]
  | leg _ h => rw [h.frame.self, h.otherTokens token htoken]
  | trans h1 _ ih1 ih2 => rw [ih2 (h1.poolStep.usdcToken ▸ htoken), ih1 htoken]

theorem movesFunds_of_settled {α : Type} {x : Contract α} (h : Keeps settled x) :
    Keeps movesFunds x :=
  h.mono .settled

theorem movesFunds_of_quiet {α : Type} {x : Contract α} (h : Keeps quiet x) :
    Keeps movesFunds x :=
  movesFunds_of_settled (settled_of_quiet h)

theorem movesFunds_publish {e : Event} (he : e.toTransfer = none) :
    Keeps movesFunds (publish e) :=
  movesFunds_of_quiet (quiet_publish he)

theorem unchanged_getVenueBalance : Keeps unchanged (getVenueBalance venue) :=
  fun _ _ _ _ h => (getVenueBalance_ok h).2

theorem unchanged_getProtocolBalance {p : Protocol} : Keeps unchanged (getProtocolBalance p) :=
  fun _ _ _ _ h => (getProtocolBalance_ok h).2

theorem settled_syncDeployedSplit : Keeps settled syncDeployedSplit :=
  fun _ _ _ _ h => (syncDeployedSplit_ok h).1

theorem movesFunds_supplyToVenue {amount minOut : Int} :
    Keeps movesFunds (supplyToVenue venue amount minOut) := by
  intro env w s w' h
  rcases supplyToVenue_ok h with ⟨-, -, rfl⟩ | ⟨hamount, reply, hleg, -, -⟩
  · exact movesFunds.refl env _
  · exact .leg hamount hleg

theorem movesFunds_withdrawFromVenue {amount minOut : Int} :
    Keeps movesFunds (withdrawFromVenue venue amount minOut) := by
  intro env w s w' h
  rcases withdrawFromVenue_ok h with ⟨-, -, rfl⟩ | ⟨hasked, reply, hleg, -, -⟩
  · exact movesFunds.refl env _
  · exact .leg hasked hleg

/-- Code that goes on after re-reading the positions. -/
theorem movesFunds_resync {α : Type} {f : Int × Int → Contract α}
    (hf : ∀ x, Keeps movesFunds (f x)) : Keeps movesFunds (syncDeployedSplit >>= f) :=
  .bind (movesFunds_of_settled settled_syncDeployedSplit) hf

theorem movesFunds_withdrawShare {amount minOut : Int} :
    Keeps movesFunds (withdrawShare venue amount minOut) :=
  .ite movesFunds_withdrawFromVenue (.pure _)

/-- Every way of leaving the active protocol only moves funds. -/
theorem movesFunds_withdrawProportionally {needed minOut : Int} :
    Keeps movesFunds (withdrawProportionally needed minOut) :=
  .ite (.pure _) <| .bind (.of_unchanged unchanged_getVenueBalance) fun _ =>
    .bind (.of_unchanged unchanged_getVenueBalance) fun _ => .ite (.pure _) <|
    .bind .expect fun _ => .bind .expect fun _ => .bind .expect fun _ =>
    .bind movesFunds_withdrawShare fun _ => .bind movesFunds_withdrawShare fun _ =>
    movesFunds_resync fun _ =>
    .bind (movesFunds_of_settled settled_setCurrentProtocol) fun _ => .pure _

theorem movesFunds_withdrawFromProtocol {p : Protocol} {minOut : Int} :
    Keeps movesFunds (withdrawFromProtocol p minOut) := by
  refine .bind .get fun w => .ite ?_ (.pure _)
  cases p with
  | blend => exact movesFunds_withdrawFromVenue
  | dex => exact movesFunds_withdrawFromVenue
  | multi =>
    exact .bind movesFunds_withdrawFromVenue fun _ => .bind movesFunds_withdrawFromVenue fun _ =>
      movesFunds_resync fun _ =>
        .bind (movesFunds_of_settled settled_setCurrentProtocol) fun _ => .pure _
  | none => exact .pure _
  | other => exact .pure _

/-- A full exit leaves the venue of the marked protocol, or both with a refresh; of any other
    protocol it does nothing. -/
theorem withdrawFromProtocol_cases {p : Protocol} {x minOut : Int}
    (h : (withdrawFromProtocol p minOut).Ok env w x w') :
    (w' = w ∧ (w.deployment.currentProtocol = p → p.isActive = false)) ∨
      (∃ v : Venue, p = v.protocol ∧ w.deployment.currentProtocol = p ∧
        (withdrawFromVenue v 0 minOut).Ok env w x w') ∨
      p = .multi ∧ w.deployment.currentProtocol = p ∧
        ∃ b d t1 t2 t3, ∃ after : Int × Int, (withdrawFromVenue .blend 0 minOut).Ok env w b t1 ∧
          (withdrawFromVenue .dex 0 minOut).Ok env t1 d t2 ∧ syncDeployedSplit.Ok env t2 after t3 ∧
          (setCurrentProtocol (deriveProtocolSummary after.1 after.2)).Ok env t3 () w' := by
  simp only [withdrawFromProtocol, Tx.ok_bind, Tx.ok_get, existsAndEq, true_and] at h
  rcases Tx.ok_ite.mp h with ⟨hmark, h1⟩ | ⟨hmark, h1⟩
  · cases p with
    | blend => exact .inr (.inl ⟨.blend, rfl, hmark, h1⟩)
    | dex => exact .inr (.inl ⟨.dex, rfl, hmark, h1⟩)
    | multi =>
      simp only [Tx.ok_bind, Tx.ok_pure] at h1
      obtain ⟨b, t1, hb, d, t2, hd, after, t3, hsync, _, t4, hmarked, -, rfl⟩ := h1
      exact .inr (.inr ⟨rfl, hmark, b, d, t1, t2, t3, after, hb, hd, hsync, hmarked⟩)
    | none => exact .inl ⟨(Tx.ok_pure.mp h1).2, fun _ => rfl⟩
    | other => exact .inl ⟨(Tx.ok_pure.mp h1).2, fun _ => rfl⟩
  · exact .inl ⟨(Tx.ok_pure.mp h1).2, fun hsame => absurd hsame hmark⟩

theorem withdrawFromProtocol_venue {x minOut : Int}
    (hmark : w.deployment.currentProtocol = venue.protocol)
    (h : (withdrawFromProtocol venue.protocol minOut).Ok env w x w') :
    (withdrawFromVenue venue 0 minOut).Ok env w x w' := by
  rcases withdrawFromProtocol_cases h with ⟨-, hinactive⟩ | ⟨v, hv, -, hleg⟩ | ⟨hmulti, -⟩
  · have hnot := hinactive hmark
    cases venue <;> cases hnot
  · cases venue <;> cases v <;> first | exact hleg | cases hv
  · cases venue <;> cases hmulti

/-- The legs and the refresh of a full exit in multi-protocol mode. -/
theorem withdrawFromProtocol_multi {x minOut : Int} (hmark : w.deployment.currentProtocol = .multi)
    (h : (withdrawFromProtocol .multi minOut).Ok env w x w') :
    ∃ b d t1 t2 t3, ∃ after : Int × Int, (withdrawFromVenue .blend 0 minOut).Ok env w b t1 ∧
      (withdrawFromVenue .dex 0 minOut).Ok env t1 d t2 ∧ syncDeployedSplit.Ok env t2 after t3 ∧
      (setCurrentProtocol (deriveProtocolSummary after.1 after.2)).Ok env t3 () w' := by
  rcases withdrawFromProtocol_cases h with ⟨-, hinactive⟩ | ⟨v, hv, -⟩ | ⟨-, -, hlegs⟩
  · cases hinactive hmark
  · cases v <;> cases hv
  · exact hlegs

theorem movesFunds_withdrawAmountFromProtocol {p : Protocol} {amount minOut : Int} :
    Keeps movesFunds (withdrawAmountFromProtocol p amount minOut) := by
  cases p with
  | blend => exact movesFunds_withdrawFromVenue
  | dex => exact movesFunds_withdrawFromVenue
  | multi => exact movesFunds_withdrawProportionally
  | none => exact .pure _
  | other => exact .pure _

/-! ## What a pull delivers -/

/-- One leg of a proportional withdrawal. -/
theorem withdrawShare_ok {amount minOut s : Int}
    (h : (withdrawShare venue amount minOut).Ok env w s w') :
    (amount ≤ 0 ∧ w' = w) ∨
      (0 < amount ∧ ∃ reply, Leg .withdraw env w w' venue amount minOut reply) := by
  unfold withdrawShare at h
  split_ifs at h with hpos
  · have hasked : w.asked venue amount = amount := if_neg hpos.ne'
    rcases withdrawFromVenue_ok h with ⟨hle, -, -⟩ | ⟨-, reply, hleg, -, -⟩
    · omega
    · rw [hasked] at hleg
      exact .inr ⟨hpos, reply, hleg⟩
  · exact .inl ⟨by omega, (Tx.ok_pure.mp h).2⟩

/-- What a proportional withdrawal of `needed` asks of Blend and of the DEX. -/
def World.proportionalLegs (w : World) (needed : Int) : Int × Int :=
  let total := i128.saturatingAdd (w.position .blend) (w.position .dex)
  let target := min needed total
  proportionalSplit target (w.position .blend) (w.position .dex)
    ((target * w.position .blend).tdiv total)

/-- Without positions nothing is pulled; else both legs run and the marker is derived anew. -/
theorem withdrawProportionally_ok {needed minOut x : Int} (hneeded : 0 < needed)
    (h : (withdrawProportionally needed minOut).Ok env w x w') :
    (i128.saturatingAdd (w.position .blend) (w.position .dex) ≤ 0 ∧ w' = w) ∨
      (0 < i128.saturatingAdd (w.position .blend) (w.position .dex) ∧ ∃ s1 s2 t1 t2,
        (withdrawShare .blend (w.proportionalLegs needed).1 minOut).Ok env w s1 t1 ∧
        (withdrawShare .dex (w.proportionalLegs needed).2 minOut).Ok env t1 s2 t2 ∧
        Settled t2 w' ∧ w'.deployment.currentProtocol =
          deriveProtocolSummary (t2.position .blend) (t2.position .dex)) := by
  unfold withdrawProportionally at h
  rw [if_neg (not_le.mpr hneeded)] at h
  obtain ⟨b, t, hb, h⟩ := Tx.ok_bind.mp h
  obtain ⟨rfl, rfl⟩ := getVenueBalance_ok hb
  obtain ⟨d, t', hd, h⟩ := Tx.ok_bind.mp h
  obtain ⟨rfl, rfl⟩ := getVenueBalance_ok hd
  rcases Tx.ok_ite.mp h with ⟨htotal, h⟩ | ⟨htotal, h⟩
  · exact .inl ⟨htotal, (Tx.ok_pure.mp h).2⟩
  · simp only [Tx.ok_bind, ok_checkedMul, ok_checkedDiv, ok_checkedSub, Tx.ok_pure, existsAndEq,
      and_assoc, true_and, and_true] at h
    obtain ⟨-, -, -, -, s1, t1, h1, s2, t2, h2, after, t3, hsync, _, hmark, -⟩ := h
    obtain ⟨h3, rfl, hd3⟩ := syncDeployedSplit_ok hsync
    obtain ⟨h4, hd4⟩ := setCurrentProtocol_ok hmark
    refine .inr ⟨not_le.mp htotal, s1, s2, t1, t2, h1, h2, settled.trans (r := env) h3 h4, ?_⟩
    rw [hd4]

/-- What the configured pool of a venue pays when the `leg`-th pool call asks it for `asked`. -/
def World.answer (w : World) (env : Env) (venue : Venue) (leg : Nat) (asked : Int) : Int :=
  if asked ≤ 0 then 0
  else match w.deployment.pool venue with
    | some pool =>
      match env.pool ⟨leg, .withdraw, venue, pool, asked, 0, w.position venue⟩ with
      | some reply => reply.moved
      | none => 0
    | none => 0

/-- What the pools pay when a call starts by pulling `needed` from the active protocol. -/
def World.delivery (w : World) (env : Env) (needed : Int) : Int :=
  match w.deployment.currentProtocol with
  | .blend => w.answer env .blend 0 needed
  | .dex => w.answer env .dex 0 needed
  | .multi =>
    if i128.saturatingAdd (w.position .blend) (w.position .dex) ≤ 0 then 0
    else
      let legs := w.proportionalLegs needed
      w.answer env .blend 0 legs.1 + w.answer env .dex (if 0 < legs.1 then 1 else 0) legs.2
  | _ => 0

theorem forwardedMinOut_zero : venue.forwardedMinOut 0 = 0 := by
  cases venue <;> rfl

theorem withdrawShare_answer {amount s : Int}
    (h : (withdrawShare venue amount 0).Ok env w s w') :
    w'.idle = w.idle + w.answer env venue w.legs amount ∧
      w'.legs = w.legs + (if 0 < amount then 1 else 0) := by
  unfold World.answer
  rcases withdrawShare_ok h with ⟨hle, rfl⟩ | ⟨hpos, reply, hleg⟩
  · rw [if_pos hle, if_neg (not_lt.mpr hle)]
    exact ⟨(add_zero _).symm, rfl⟩
  · obtain ⟨pool, hpool, hreply⟩ := hleg.answered
    rw [forwardedMinOut_zero] at hreply
    rw [if_neg (not_le.mpr hpos), if_pos hpos, hpool]
    simp only [hreply]
    refine ⟨?_, hleg.legs⟩
    rw [hleg.idle]
    show w.idle - -reply.moved = w.idle + reply.moved
    omega

/-- A leg at one venue leaves the answers of the other one as they are. -/
theorem withdrawShare_elsewhere {v : Venue} {amount minOut s asked : Int} {leg : Nat}
    (hv : v ≠ venue) (h : (withdrawShare venue amount minOut).Ok env w s w') :
    w'.answer env v leg asked = w.answer env v leg asked := by
  rcases withdrawShare_ok h with ⟨-, rfl⟩ | ⟨-, reply, hleg⟩
  · rfl
  · unfold World.answer
    rw [hleg.elsewhere v hv, hleg.frame.pool]

/-- A pull changes the idle balance by what the pools deliver. -/
theorem withdrawAmountFromProtocol_delivery {needed x : Int} (hlegs : w.legs = 0)
    (hneeded : 0 < needed)
    (h : (withdrawAmountFromProtocol w.deployment.currentProtocol needed 0).Ok env w x w') :
    w'.idle = w.idle + w.delivery env needed := by
  unfold World.delivery
  have hsingle : ∀ {v}, (withdrawFromVenue v needed 0).Ok env w x w' →
      w'.idle = w.idle + w.answer env v 0 needed := by
    intro v hv
    have hshare : (withdrawShare v needed 0).Ok env w x w' := by
      unfold withdrawShare
      rwa [if_pos hneeded]
    rw [← hlegs]
    exact (withdrawShare_answer hshare).1
  cases hp : w.deployment.currentProtocol with
  | blend =>
    rw [hp] at h
    exact hsingle h
  | dex =>
    rw [hp] at h
    exact hsingle h
  | multi =>
    rw [hp] at h
    rcases withdrawProportionally_ok hneeded h with
      ⟨htotal, rfl⟩ | ⟨htotal, s1, s2, t1, t2, h1, h2, h3, -⟩
    · simp only [if_pos htotal, add_zero]
    · obtain ⟨hidle1, hlegs1⟩ := withdrawShare_answer h1
      obtain ⟨hidle2, -⟩ := withdrawShare_answer h2
      rw [withdrawShare_elsewhere (by decide) h1, hlegs1, hlegs, Nat.zero_add] at hidle2
      rw [hlegs] at hidle1
      simp only [if_neg (not_le.mpr htotal)]
      rw [h3.idle, hidle2, hidle1, add_assoc]
  | none =>
    rw [hp] at h
    rw [(Tx.ok_pure.mp h).2]
    exact (add_zero _).symm
  | other =>
    rw [hp] at h
    rw [(Tx.ok_pure.mp h).2]
    exact (add_zero _).symm

end NeuroWealth.Vault
