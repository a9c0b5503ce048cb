import NeuroWealth.Vault.Pools
import NeuroWealth.Vault.Proofs.HoldingsProofs

/-!
# The marker and the positions

`CurrentProtocol` is written by every leg and by the calls around them, each on its own condition.
What it says about the positions is kept by every call, as long as the pools are tame.
-/

namespace NeuroWealth.Vault

open Transaction MachineInt

variable {env : Env} {w w' : World} {venue : Venue} {p : Protocol} {minOut : Int}

/-! ## Positions -/

/-- No position is negative, and there is none in a pool that is not configured. -/
structure World.Grounded (w : World) : Prop where
  nonneg : ∀ v p, 0 ≤ w.chain.positions v p w.self
  unconfigured : ∀ v p, w.deployment.pool v ≠ some p → w.chain.positions v p w.self = 0

theorem World.Grounded.position_nonneg (h : w.Grounded) (v : Venue) : 0 ≤ w.position v := by
  unfold World.position
  split
  · exact h.nonneg _ _
  · exact le_rfl

theorem World.Grounded.of_settled (h : w.Grounded) (hs : Settled w w') : w'.Grounded := by
  refine ⟨fun v p => ?_, fun v p hp => ?_⟩
  · rw [hs.positions, hs.self]
    exact h.nonneg v p
  · rw [hs.positions, hs.self]
    rw [hs.pool] at hp
    exact h.unconfigured v p hp

/-- What a tame pool's answer says about the position of the leg. -/
structure TameLeg (kind : LegKind) (w w' : World) (venue : Venue) (asked : Int)
    (reply : PoolReply) : Prop where
  moved_nonneg : 0 ≤ reply.moved
  moved_le : reply.moved ≤ asked
  settled_nonneg : 0 ≤ w.position venue + kind.taken reply.moved
  settled_le : w.position venue + kind.taken reply.moved ≤ w'.position venue
  grounded : w.position venue + kind.taken reply.moved = 0 → w'.position venue = 0

theorem Leg.tame {kind : LegKind} {asked : Int} {reply : PoolReply}
    (h : Leg kind env w w' venue asked minOut reply) (hasked : 0 < asked)
    (hpools : env.TamePools) (hg : w.Grounded) : TameLeg kind w w' venue asked reply := by
  obtain ⟨pool, -, hreply⟩ := h.answered
  have htame := hpools _ _ ⟨hasked, hg.position_nonneg venue⟩ hreply
  refine ⟨htame.moved_nonneg, htame.moved_le, htame.settled_nonneg, ?_, ?_⟩
  · rw [h.position]
    exact htame.settled_le
  · rw [h.position]
    exact htame.grounded

theorem World.Grounded.of_leg {kind : LegKind} {asked : Int} {reply : PoolReply}
    (hg : w.Grounded) (h : Leg kind env w w' venue asked minOut reply) (hasked : 0 < asked)
    (hpools : env.TamePools) : w'.Grounded := by
  have htame := h.tame hasked hpools hg
  obtain ⟨pool, hpool, -⟩ := h.answered
  have hpool' : w'.deployment.pool venue = some pool := by rw [h.frame.pool, hpool]
  have helsewhere : ∀ v p, w.deployment.pool v ≠ some p →
      w'.chain.positions v p w'.self = w.chain.positions v p w.self := fun v p hp => by
    rw [h.frame.self, h.unconfigured v p hp]
  refine ⟨fun v p => ?_, fun v p hp => ?_⟩
  · by_cases hp : w.deployment.pool v = some p
    · have hposition : w'.position v = w'.chain.positions v p w'.self := by
        apply position_eq
        rw [h.frame.pool, hp]
      rw [← hposition]
      by_cases hv : v = venue
      · rw [hv]
        exact htame.settled_nonneg.trans htame.settled_le
      · rw [h.elsewhere v hv]
        exact hg.position_nonneg v
    · rw [helsewhere v p hp]
      exact hg.nonneg v p
  · rw [h.frame.pool] at hp
    rw [helsewhere v p hp]
    exact hg.unconfigured v p hp

theorem FundsMove.grounded (h : FundsMove env w w') (hpools : env.TamePools) (hg : w.Grounded) :
    w'.Grounded := by
  induction h with
  | settled h => exact hg.of_settled h
  | leg hasked h => exact hg.of_leg h hasked hpools
  | trans _ _ ih1 ih2 => exact ih2 (ih1 hg)

/-! ## The marker -/

/-- A protocol symbol describes the positions: outside multi-protocol mode only the venue it names
    has one. -/
structure World.Describes (w : World) (p : Protocol) : Prop where
  known : ∀ s, p ≠ .other s
  exclusive : p ≠ .multi → ∀ v : Venue, v.protocol ≠ p → w.position v = 0

/-- The stored marker describes the positions. -/
structure World.Truthful (w : World) : Prop extends w.Grounded where
  marker : w.Describes w.deployment.currentProtocol

/-- No funds are deployed. -/
def World.Undeployed (w : World) : Prop := ∀ v, w.position v = 0

theorem Venue.protocol_known (v : Venue) (s : Symbol) : v.protocol ≠ .other s := by
  cases v <;> exact Protocol.noConfusion

theorem Venue.protocol_ne_multi (v : Venue) : v.protocol ≠ .multi := by
  cases v <;> decide

theorem World.Undeployed.describes (h : w.Undeployed) (hp : ∀ s, p ≠ .other s) : w.Describes p :=
  ⟨hp, fun _ v _ => h v⟩

theorem World.Describes.of_positions (h : w.Describes p)
    (hsame : ∀ v, w'.position v = w.position v) : w'.Describes p :=
  ⟨h.known, fun hp v hv => (hsame v).trans (h.exclusive hp v hv)⟩

/-- Funds and marker stay as they are. -/
structure Steady (w w' : World) : Prop extends Settled w w' where
  marker : w'.deployment.currentProtocol = w.deployment.currentProtocol

def steady : Footprint Env World where
  rel _ w w' := Steady w w'
  refl env w := ⟨settled.refl env w, rfl⟩
  trans {env _ _ _} h1 h2 :=
    ⟨settled.trans (r := env) h1.toSettled h2.toSettled, h2.marker.trans h1.marker⟩

theorem Quiet.steady (h : Quiet w w') : Steady w w' := ⟨h.settled, by rw [h.deployment]⟩

theorem steady_of_quiet {α : Type} {x : Contract α} (h : Keeps quiet x) : Keeps steady x :=
  h.mono Quiet.steady

theorem steady_syncDeployedSplit : Keeps steady syncDeployedSplit := by
  intro env w x w' h
  obtain ⟨hs, -, hd⟩ := syncDeployedSplit_ok h
  exact ⟨hs, by rw [hd]; rfl⟩

theorem World.Truthful.of_steady (h : w.Truthful) (hs : Steady w w') : w'.Truthful := by
  refine ⟨h.toGrounded.of_settled hs.toSettled, ?_⟩
  rw [hs.marker]
  exact h.marker.of_positions fun v => hs.position

theorem World.Undeployed.of_settled (h : w.Undeployed) (hs : Settled w w') : w'.Undeployed :=
  fun v => hs.position.trans (h v)

/-- The marker derived from two positions describes them. -/
theorem describes_derived (h : w.Grounded) :
    w.Describes (deriveProtocolSummary (w.position .blend) (w.position .dex)) := by
  have hb := h.position_nonneg .blend
  have hd := h.position_nonneg .dex
  unfold deriveProtocolSummary
  split_ifs with hboth hblend hdex
  · exact ⟨fun _ => Protocol.noConfusion, fun hp => absurd rfl hp⟩
  · refine ⟨Venue.blend.protocol_known, fun _ v hv => ?_⟩
    cases v with
    | blend => exact absurd rfl hv
    | dex => omega
  · refine ⟨Venue.dex.protocol_known, fun _ v hv => ?_⟩
    cases v with
    | blend => omega
    | dex => exact absurd rfl hv
  · refine ⟨fun _ => Protocol.noConfusion, fun _ v _ => ?_⟩
    cases v with
    | blend => omega
    | dex => omega

/-- Setting the marker to what describes the positions. -/
theorem truthful_of_marked {t : World} {u : Unit} (hg : w.Grounded) (hs : Settled w t)
    (hp : w.Describes p) (h : (setCurrentProtocol p).Ok env t u w') : w'.Truthful := by
  obtain ⟨hset, hd⟩ := setCurrentProtocol_ok h
  have hs' : Settled w w' := settled.trans (r := env) hs hset
  refine ⟨hg.of_settled hs', ?_⟩
  rw [hd]
  exact hp.of_positions fun v => hs'.position

/-- Re-reading the positions and deriving the marker from them. -/
theorem truthful_of_resync {x : Int × Int} {t t1 t2 : World} {u : Unit} (hg : w.Grounded)
    (hs : Settled w t) (hsync : syncDeployedSplit.Ok env t x t1) (hs1 : Settled t1 t2)
    (hmark : (setCurrentProtocol (deriveProtocolSummary x.1 x.2)).Ok env t2 u w') :
    w'.Truthful := by
  obtain ⟨hsynced, rfl, -⟩ := syncDeployedSplit_ok hsync
  have hgt : t.Grounded := hg.of_settled hs
  apply truthful_of_marked hgt (settled.trans (r := env) hsynced hs1) ?_ hmark
  exact describes_derived hgt

/-! ## Single legs -/

/-- A supply to the only venue that may have funds. -/
theorem supply_truthful {amount s : Int} (hw : w.Truthful) (hpools : env.TamePools)
    (hothers : ∀ v, v ≠ venue → w.position v = 0)
    (h : (supplyToVenue venue amount minOut).Ok env w s w') :
    w'.Truthful ∧ ∀ v, v ≠ venue → w'.position v = 0 := by
  rcases supplyToVenue_ok h with ⟨-, -, rfl⟩ | ⟨hpos, reply, hleg, -, hmarked⟩
  · exact ⟨hw, hothers⟩
  · have hothers' : ∀ v, v ≠ venue → w'.position v = 0 := fun v hv => by
      rw [hleg.elsewhere v hv, hothers v hv]
    have hg' := hw.toGrounded.of_leg hleg hpos hpools
    have htame := hleg.tame hpos hpools hw.toGrounded
    refine ⟨⟨hg', ?_⟩, hothers'⟩
    rw [hmarked]
    by_cases hmoved : 0 < reply.moved
    · rw [if_pos hmoved]
      refine ⟨venue.protocol_known, fun _ v hv => hothers' v fun he => hv ?_⟩
      rw [he]
    · rw [if_neg hmoved]
      refine ⟨hw.marker.known, fun hmulti v hv => ?_⟩
      by_cases hvenue : v = venue
      · have hzero : w.position venue = 0 := by
          rw [← hvenue]
          exact hw.marker.exclusive hmulti v hv
        have hnone : reply.moved = 0 := le_antisymm (not_lt.mp hmoved) htame.moved_nonneg
        rw [hvenue]
        apply htame.grounded
        rw [hzero, hnone]
        rfl
      · exact hothers' v hvenue

/-- A withdrawal from the venue the marker names. -/
theorem withdraw_truthful {amount s : Int} (hw : w.Truthful) (hpools : env.TamePools)
    (hmarker : w.deployment.currentProtocol = venue.protocol)
    (h : (withdrawFromVenue venue amount minOut).Ok env w s w') : w'.Truthful := by
  rcases withdrawFromVenue_ok h with ⟨-, -, rfl⟩ | ⟨hpos, reply, hleg, -, hmarked⟩
  · exact hw
  · have hg' := hw.toGrounded.of_leg hleg hpos hpools
    have hothers : ∀ v, v ≠ venue → w'.position v = 0 := fun v hv => by
      rw [hleg.elsewhere v hv]
      apply hw.marker.exclusive
      · rw [hmarker]
        exact venue.protocol_ne_multi
      · rw [hmarker]
        intro hsame
        exact hv (by cases v <;> cases venue <;> first | rfl | cases hsame)
    refine ⟨hg', ?_⟩
    rw [hmarked]
    split_ifs with hemptied
    · refine ⟨fun _ => Protocol.noConfusion, fun _ v _ => ?_⟩
      by_cases hv : v = venue
      · rw [hv, hleg.position, hemptied.2]
      · exact hothers v hv
    · rw [hmarker]
      refine ⟨venue.protocol_known, fun _ v hv => hothers v fun he => hv ?_⟩
      rw [he]

end NeuroWealth.Vault
