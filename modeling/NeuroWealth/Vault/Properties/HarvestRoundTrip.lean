import NeuroWealth.Vault.Pools
import NeuroWealth.Vault.Proofs.MarkerCallsProofs
import NeuroWealth.Vault.Properties.VenueMarker

/-!
# The round trip of a harvest

With pools that answer to the letter a harvest of a single venue changes no funds and no marker. A
harvest in multi-protocol mode leaves both venues and never returns.
-/

namespace NeuroWealth.Vault

open Transaction MachineInt

variable {env : Env} {w w' t : World} {venue : Venue} {minOut x : Int} {call : Call} {p : Protocol}

/-- The marker, the funds wherever they are and the book are the same. -/
structure SameFunds (w w' : World) : Prop where
  marker : w'.deployment.currentProtocol = w.deployment.currentProtocol
  idle : w'.idle = w.idle
  position : ∀ v, w'.position v = w.position v
  book : w'.book = w.book

theorem SameFunds.trans {w1 w2 w3 : World} (h1 : SameFunds w1 w2) (h2 : SameFunds w2 w3) :
    SameFunds w1 w3 :=
  ⟨h2.marker.trans h1.marker, h2.idle.trans h1.idle,
    fun v => (h2.position v).trans (h1.position v), h2.book.trans h1.book⟩

theorem Quiet.sameFunds (h : Quiet w w') : SameFunds w w' :=
  ⟨by rw [h.deployment], h.settled.idle, fun _ => h.settled.position, h.book⟩

/-! ## Legs of honest pools -/

/-- A full withdrawal from an honest pool leaves nothing behind. -/
theorem withdrawAll_of_honest (hpools : env.HonestPools)
    (h : (withdrawFromVenue venue 0 minOut).Ok env w x t) :
    (w.position venue ≤ 0 ∧ x = 0 ∧ t = w) ∨
      (0 < w.position venue ∧ x = i128.saturate (w.position venue) ∧
        t.idle = w.idle + w.position venue ∧ t.position venue = 0 ∧
        (∀ v, v ≠ venue → t.position v = w.position v) ∧ t.book = w.book) := by
  have hasked : w.asked venue 0 = w.position venue := if_pos rfl
  rcases withdrawFromVenue_ok h with ⟨hnone, hx, hsame⟩ | ⟨hpos, reply, hleg, hx, -⟩
  · exact .inl ⟨hasked ▸ hnone, hx, hsame⟩
  · rw [hasked] at hpos hleg
    obtain ⟨pool, -, hanswer⟩ := hleg.answered
    obtain ⟨hmoved, hposition⟩ := hpools _ _ ⟨hpos, hpos.le⟩ (fun _ => le_rfl) hanswer
    have hmoved' : reply.moved = w.position venue := hmoved
    have hposition' : reply.position = w.position venue + -reply.moved := hposition
    have hidle : t.idle = w.idle - -reply.moved := hleg.idle
    refine .inr ⟨hpos, hmoved' ▸ hx, by omega, ?_, hleg.elsewhere, hleg.frame.book⟩
    rw [hleg.position]
    omega

/-- A supply to an honest pool moves all of it and marks the venue. -/
theorem supply_of_honest (hpools : env.HonestPools) (hpos : 0 < x) (hheld : 0 ≤ w.position venue)
    {s : Int} (h : (supplyToVenue venue x minOut).Ok env w s t) :
    t.deployment.currentProtocol = venue.protocol ∧ t.idle = w.idle - x ∧
      t.position venue = w.position venue + x ∧ (∀ v, v ≠ venue → t.position v = w.position v) ∧
      t.book = w.book := by
  rcases supplyToVenue_ok h with ⟨hnone, -⟩ | ⟨-, reply, hleg, -, hmark⟩
  · omega
  · obtain ⟨pool, -, hanswer⟩ := hleg.answered
    obtain ⟨hmoved, hposition⟩ := hpools _ _ ⟨hpos, hheld⟩ (by rintro ⟨⟩) hanswer
    have hmoved' : reply.moved = x := hmoved
    have hposition' : reply.position = w.position venue + reply.moved := hposition
    have hidle : t.idle = w.idle - reply.moved := hleg.idle
    unfold Marked at hmark
    rw [if_pos (by omega)] at hmark
    refine ⟨by rw [hmark], by omega, ?_, hleg.elsewhere, hleg.frame.book⟩
    rw [hleg.position]
    omega

/-! ## Round trips -/

/-- A single venue is left and entered again. -/
theorem roundTrip_venue (hpools : env.HonestPools) (htyped : i128.Fits (w.position venue))
    (hmark : w.deployment.currentProtocol = venue.protocol)
    (hexit : (withdrawFromProtocol venue.protocol minOut).Ok env w x t)
    (hsupply : (resupply venue.protocol x minOut).Ok env t () w') : SameFunds w w' := by
  obtain ⟨s, hleg⟩ := resupply_venue hsupply
  rcases withdrawAll_of_honest hpools (withdrawFromProtocol_venue hmark hexit) with
    ⟨-, rfl, rfl⟩ | ⟨hpos, hx, hidle, hgone, helsewhere, hbook⟩
  · have hsame : w' = t := by
      rcases supplyToVenue_ok hleg with ⟨-, -, hsame⟩ | ⟨hpos, -⟩
      · exact hsame
      · omega
    subst hsame
    exact ⟨rfl, rfl, fun _ => rfl, rfl⟩
  · rw [saturate_of_fits htyped] at hx
    obtain ⟨hmarked, hidle', hback, helsewhere', hbook'⟩ :=
      supply_of_honest hpools (by omega) hgone.ge hleg
    refine ⟨hmarked.trans hmark.symm, by omega, fun v => ?_, hbook'.trans hbook⟩
    by_cases hv : v = venue
    · rw [hv, hback, hgone, hx, zero_add]
    · rw [helsewhere' v hv, helsewhere v hv]

theorem withdrawAll_empties (hpools : env.HonestPools)
    (h : (withdrawFromVenue venue 0 minOut).Ok env w x t) : t.position venue ≤ 0 := by
  rcases withdrawAll_of_honest hpools h with ⟨hnone, -, rfl⟩ | ⟨-, -, -, hgone, -⟩
  · exact hnone
  · exact hgone.le

/-- Leaving both venues clears the marker, and nothing is supplied again. -/
theorem roundTrip_multi (hpools : env.HonestPools)
    (hmark : w.deployment.currentProtocol = .multi)
    (hexit : (withdrawFromProtocol .multi minOut).Ok env w x t)
    (hsupply : (resupply .multi x minOut).Ok env t () w') :
    w'.deployment.currentProtocol = .none := by
  obtain rfl := resupply_idle (by decide) hsupply
  obtain ⟨b, d, t1, t2, t3, after, hblend, hdex, hsync, hmarked⟩ :=
    withdrawFromProtocol_multi hmark hexit
  have hblend_gone : t2.position .blend ≤ 0 := by
    rw [withdrawFromVenue_elsewhere (by decide) hdex]
    exact withdrawAll_empties hpools hblend
  have hdex_gone : t2.position .dex ≤ 0 := withdrawAll_empties hpools hdex
  obtain ⟨-, rfl, -⟩ := syncDeployedSplit_ok hsync
  obtain ⟨-, hdeployment⟩ := setCurrentProtocol_ok hmarked
  rw [hdeployment]
  show deriveProtocolSummary (t2.position .blend) (t2.position .dex) = .none
  unfold deriveProtocolSummary
  rw [if_neg (by omega), if_neg (by omega), if_neg (by omega)]

/-- A marker that names no venue is not harvested. -/
theorem roundTrip_unnamed (hp : p ≠ .multi) (hv : ¬ ∃ v : Venue, p = v.protocol)
    (hexit : (withdrawFromProtocol p minOut).Ok env w x t)
    (hsupply : (resupply p x minOut).Ok env t () w') : w' = w := by
  have hsingle : ¬ p.isSingle = true := fun h => hv (Protocol.isSingle_iff.mp h)
  obtain rfl := resupply_idle hsingle hsupply
  rcases withdrawFromProtocol_deployed hexit with hsame | ⟨hmulti, -⟩ | ⟨hone, -⟩
  · exact hsame
  · exact absurd hmulti hp
  · exact absurd hone hsingle

/-! ## Both entrypoints -/

def Call.harvests : Call → Bool
  | .harvest .. => true
  | .emergencyHarvest .. => true
  | _ => false

/-- Behind its own checks each entrypoint makes the round trip. -/
theorem roundTrip_of_run {u : Unit} (hcall : call.harvests = true) (h : call.run.Ok env w u w') :
    ∃ minOut event, (∀ p x, (event p x).toTransfer = none) ∧
      (harvestRoundTrip minOut event).Ok env w u w' := by
  cases call
  case harvest minOut =>
    simp only [Call.run, harvest, Tx.ok_bind, ok_requireInitialized, ok_requireNotPaused,
      existsAndEq, exists_const, and_assoc, true_and] at h
    obtain ⟨-, -, _, t0, hagent, htrip⟩ := h
    obtain rfl : t0 = w := unchanged_requireIsAgent hagent
    exact ⟨minOut, .harvest, fun _ _ => rfl, htrip⟩
  case emergencyHarvest minOut =>
    simp only [Call.run, emergencyHarvest, Tx.ok_bind, ok_requireInitialized, ok_getOwnerInternal,
      ok_requireOwnerArg, existsAndEq, exists_const, and_assoc, true_and] at h
    obtain ⟨-, owner, -, -, -, -, htrip⟩ := h
    exact ⟨minOut, .emergencyHarvest, fun _ _ => rfl, htrip⟩
  all_goals cases hcall

/-- A harvest puts everything back where it was exactly when the marker is not `multi`. -/
theorem harvest_roundTrip_iff (hpools : env.HonestPools)
    (htyped : ∀ v, i128.Fits (w.position v)) (hcall : call.harvests = true)
    (h : (invoke call).Ok env w () w') :
    SameFunds w w' ↔ w.deployment.currentProtocol ≠ .multi := by
  obtain ⟨minOut, event, he, htrip⟩ := roundTrip_of_run hcall (ok_invoke.mp h)
  obtain ⟨t, x, t1, t2, hq, hexit, hsupply, hlast⟩ := harvestRoundTrip_steps he htrip
  have hmark : t.deployment.currentProtocol = w.deployment.currentProtocol := by
    rw [hq.deployment]
    rfl
  have hentered : SameFunds w t :=
    ⟨hmark, hq.sameFunds.idle, hq.sameFunds.position, hq.sameFunds.book⟩
  have hsame : SameFunds t t2 → SameFunds w w' := fun hround =>
    (hentered.trans hround).trans hlast.sameFunds
  have hpositions : ∀ v, i128.Fits (t.position v) := fun v => by
    rw [hentered.position]
    exact htyped v
  change (withdrawFromProtocol w.deployment.currentProtocol minOut).Ok env t x t1 at hexit
  change (resupply w.deployment.currentProtocol x minOut).Ok env t1 () t2 at hsupply
  constructor
  · intro hround hmulti
    rw [hmulti] at hexit hsupply hmark
    have hnone := roundTrip_multi hpools hmark hexit hsupply
    have hafter := hround.marker
    rw [hlast.sameFunds.marker, hnone, hmulti] at hafter
    cases hafter
  · intro hother
    by_cases hvenue : ∃ v : Venue, w.deployment.currentProtocol = v.protocol
    · obtain ⟨v, hv⟩ := hvenue
      rw [hv] at hexit hsupply hmark
      exact hsame (roundTrip_venue hpools (hpositions v) hmark hexit hsupply)
    · obtain rfl := roundTrip_unnamed hother hvenue hexit hsupply
      exact hentered.trans hlast.sameFunds

namespace Sample

theorem harvest_of_blend :
    SameFunds inBlend (inBlend.after (.call tame (.harvest 0))) ↔
      inBlend.deployment.currentProtocol ≠ .multi := by
  refine harvest_roundTrip_iff tame_honestPools (fun v => ?_) rfl (ok_after (by decide +kernel))
  cases v with
  | blend => decide +kernel
  | dex => decide +kernel

/-- A harvest of both venues leaves everything idle, and the vault unmarked. -/
theorem harvest_strands_both :
    opened.Opened ∧ Reaches (fun _ _ => True) opened (opened.replay spread) ∧ tame.HonestPools ∧
      (opened.replay spread).deployment.currentProtocol = .multi ∧
      (opened.replay spread).idle = 0 ∧
      (invoke (.harvest 0)).Ok tame (opened.replay spread) ()
        ((opened.replay spread).after (.call tame (.harvest 0))) ∧
      ((opened.replay spread).after (.call tame (.harvest 0))).deployment.currentProtocol = .none ∧
      ((opened.replay spread).after (.call tame (.harvest 0))).idle = 5000000 :=
  ⟨opened_opened, .of_admits ⟨trivial, trivial, trivial, trivial, trivial, trivial⟩,
    tame_honestPools, by decide +kernel, by decide +kernel, ok_after (by decide +kernel), by decide +kernel,
    by decide +kernel⟩

end Sample

end NeuroWealth.Vault
