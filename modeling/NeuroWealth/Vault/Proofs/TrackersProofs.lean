import NeuroWealth.Vault.Proofs.MarkersProofs

/-!
# The deployment trackers

A refresh makes the trackers the live positions. The legs leave them alone, so they are right
after a call that ends with a refresh and stale after one that does not.
-/

namespace NeuroWealth.Vault

open Transaction MachineInt

variable {env : Env} {w w' : World} {venue : Venue} {p : Protocol} {minOut : Int}

/-- The marker names one venue. -/
def Protocol.isSingle : Protocol → Bool
  | .blend => true
  | .dex => true
  | _ => false

theorem Protocol.isSingle_iff : p.isSingle = true ↔ ∃ v : Venue, p = v.protocol := by
  constructor
  · intro h
    cases p with
    | blend => exact ⟨.blend, rfl⟩
    | dex => exact ⟨.dex, rfl⟩
    | none => cases h
    | multi => cases h
    | other => cases h
  · rintro ⟨v, rfl⟩
    cases v <;> rfl

/-- The trackers are the live positions. -/
def World.Synced (w : World) : Prop := ∀ v, w.deployment.deployed v = w.position v

/-- No pool is called; positions and trackers stay. -/
structure Undisturbed (w w' : World) : Prop where
  position : ∀ v, w'.position v = w.position v
  deployed : w'.deployment.deployed = w.deployment.deployed
  legs : w'.legs = w.legs

def undisturbed : Footprint Env World where
  rel _ w w' := Undisturbed w w'
  refl _ _ := ⟨fun _ => rfl, rfl, rfl⟩
  trans h1 h2 :=
    ⟨fun v => (h2.position v).trans (h1.position v), h2.deployed.trans h1.deployed,
      h2.legs.trans h1.legs⟩

theorem World.Synced.of_undisturbed (h : w.Synced) (hu : Undisturbed w w') : w'.Synced := by
  intro v
  rw [hu.deployed, hu.position]
  exact h v

theorem Quiet.undisturbed (h : Quiet w w') : Undisturbed w w' :=
  ⟨fun _ => h.settled.position, by rw [h.deployment], h.legs⟩

theorem undisturbed_of_quiet {α : Type} {x : Contract α} (h : Keeps quiet x) :
    Keeps undisturbed x :=
  h.mono Quiet.undisturbed

theorem undisturbed_setCurrentProtocol : Keeps undisturbed (setCurrentProtocol p) := by
  intro env w u w' h
  obtain ⟨hs, hd⟩ := setCurrentProtocol_ok h
  exact ⟨fun _ => hs.position, by rw [hd], hs.legs⟩

/-! ## Refreshes -/

theorem synced_syncDeployedSplit : Ensures World.Synced syncDeployedSplit := by
  intro env w x w' h v
  obtain ⟨hs, -, hd⟩ := syncDeployedSplit_ok h
  rw [hd, hs.position]
  cases v with
  | blend => rfl
  | dex => rfl

/-- Code after a refresh that does not disturb it. -/
theorem synced_then {α : Type} {f : Int × Int → Contract α} (hf : ∀ x, Keeps undisturbed (f x)) :
    Ensures World.Synced (syncDeployedSplit >>= f) :=
  synced_syncDeployedSplit.then_keeps hf fun hu h => h.of_undisturbed hu

theorem synced_finishRebalance {apy : Int} {s : Status} {a : RebalanceAmounts} :
    Ensures World.Synced (finishRebalance p apy s a) :=
  .bind fun _ => .bind fun _ => .bind fun _ => synced_then fun _ => .pure _

theorem synced_rebalanceToVenue {apy : Int} {a : RebalanceAmounts} :
    Ensures World.Synced (rebalanceToVenue venue apy minOut a) :=
  .bind fun _ => synced_finishRebalance

theorem synced_multiRecord {x y : Nat} {old : World} {l : MultiLegs} :
    Ensures World.Synced (multiRecord x y old l) :=
  .bind fun _ => synced_then fun _ => .bind undisturbed_setCurrentProtocol fun _ =>
    .bind (undisturbed_of_quiet (quiet_publish rfl)) fun _ => .bind .get fun _ =>
    .bind (undisturbed_of_quiet (quiet_publish rfl)) fun _ =>
    .bind (undisturbed_of_quiet quiet_recordRebalanceOutcome) fun _ =>
    undisturbed_of_quiet quiet_recordRebalanceLedger

theorem synced_rebalanceMulti {x y : Nat} : Ensures World.Synced (rebalanceMulti x y minOut) := by
  rw [rebalanceMulti_eq]
  exact .bind fun _ => .bind fun _ => synced_multiRecord

/-! ## Legs -/

theorem Marked.deployed (h : Marked w w' p) :
    w'.deployment.deployed = w.deployment.deployed := by
  unfold Marked at h
  rw [h]

theorem withdrawFromVenue_deployed {amount s : Int}
    (h : (withdrawFromVenue venue amount minOut).Ok env w s w') :
    w'.deployment.deployed = w.deployment.deployed := by
  rcases withdrawFromVenue_ok h with ⟨-, -, rfl⟩ | ⟨-, reply, -, -, hmark⟩
  · rfl
  · exact hmark.deployed

theorem supplyToVenue_deployed {amount s : Int}
    (h : (supplyToVenue venue amount minOut).Ok env w s w') :
    w'.deployment.deployed = w.deployment.deployed := by
  rcases supplyToVenue_ok h with ⟨-, -, rfl⟩ | ⟨-, reply, -, -, hmark⟩
  · rfl
  · exact hmark.deployed

/-- A proportional withdrawal calls no pool, or ends with a refresh. -/
theorem withdrawProportionally_synced {needed x : Int}
    (h : (withdrawProportionally needed minOut).Ok env w x w') : w' = w ∨ w'.Synced := by
  unfold withdrawProportionally at h
  split_ifs at h with hneeded
  · exact .inl (Tx.ok_pure.mp h).2
  · obtain ⟨b, t, hb, h1⟩ := Tx.ok_bind.mp h
    obtain ⟨d, t', hd, h2⟩ := Tx.ok_bind.mp h1
    obtain ⟨-, rfl⟩ := getVenueBalance_ok hb
    obtain ⟨-, rfl⟩ := getVenueBalance_ok hd
    rcases Tx.ok_ite.mp h2 with ⟨-, hnone⟩ | ⟨-, hlegs⟩
    · exact .inl (Tx.ok_pure.mp hnone).2
    · refine .inr ((?_ : Ensures World.Synced _) hlegs)
      exact .bind fun _ => .bind fun _ => .bind fun _ => .bind fun _ => .bind fun _ =>
        synced_then fun _ => .bind undisturbed_setCurrentProtocol fun _ => .pure _

/-- A withdrawal from the active protocol calls no pool, ends with a refresh in multi-protocol
    mode, and leaves the trackers alone otherwise. -/
theorem withdrawAmountFromProtocol_deployed {amount x : Int}
    (h : (withdrawAmountFromProtocol p amount minOut).Ok env w x w') :
    w' = w ∨ p = .multi ∧ w'.Synced ∨
      p.isSingle = true ∧ w'.deployment.deployed = w.deployment.deployed := by
  cases p with
  | blend => exact .inr (.inr ⟨rfl, withdrawFromVenue_deployed h⟩)
  | dex => exact .inr (.inr ⟨rfl, withdrawFromVenue_deployed h⟩)
  | multi =>
    rcases withdrawProportionally_synced h with hsame | hsynced
    · exact .inl hsame
    · exact .inr (.inl ⟨rfl, hsynced⟩)
  | none => exact .inl (Tx.ok_pure.mp h).2
  | other => exact .inl (Tx.ok_pure.mp h).2

/-- A full exit in multi-protocol mode ends with a refresh. -/
theorem withdrawFromProtocol_synced {x : Int} (hmark : w.deployment.currentProtocol = .multi)
    (h : (withdrawFromProtocol .multi minOut).Ok env w x w') : w'.Synced := by
  obtain ⟨_, _, _, _, _, _, -, -, hsync, hmarked⟩ := withdrawFromProtocol_multi hmark h
  exact (synced_syncDeployedSplit hsync).of_undisturbed (undisturbed_setCurrentProtocol hmarked)

/-- A full exit calls no pool, ends with a refresh in multi-protocol mode, and leaves the trackers
    alone otherwise. -/
theorem withdrawFromProtocol_deployed {x : Int}
    (h : (withdrawFromProtocol p minOut).Ok env w x w') :
    w' = w ∨ p = .multi ∧ w'.Synced ∨
      p.isSingle = true ∧ w'.deployment.deployed = w.deployment.deployed := by
  rcases withdrawFromProtocol_cases h with
    ⟨hsame, -⟩ | ⟨v, rfl, -, hleg⟩ | ⟨hmulti, -, _, _, _, _, _, _, -, -, hsync, hmarked⟩
  · exact .inl hsame
  · exact .inr (.inr ⟨Protocol.isSingle_iff.mpr ⟨v, rfl⟩, withdrawFromVenue_deployed hleg⟩)
  · exact .inr (.inl ⟨hmulti,
      (synced_syncDeployedSplit hsync).of_undisturbed (undisturbed_setCurrentProtocol hmarked)⟩)

/-- A harvest that is not of a single venue stays idle. -/
theorem resupply_idle {x : Int} {u : Unit} (hp : ¬ p.isSingle = true)
    (h : (resupply p x minOut).Ok env w u w') : w' = w := by
  rcases Tx.ok_ite.mp h with ⟨-, h1⟩ | ⟨-, h1⟩
  · cases p with
    | blend => exact absurd rfl hp
    | dex => exact absurd rfl hp
    | none => exact (Tx.ok_pure.mp h1).2
    | multi => exact (Tx.ok_pure.mp h1).2
    | other => exact (Tx.ok_pure.mp h1).2
  · exact (Tx.ok_pure.mp h1).2

/-- A harvest of a single venue goes back to it. -/
theorem resupply_venue {x : Int} {u : Unit} (h : (resupply venue.protocol x minOut).Ok env w u w') :
    ∃ s, (supplyToVenue venue x minOut).Ok env w s w' := by
  rcases Tx.ok_ite.mp h with ⟨hpos, h1⟩ | ⟨hnone, h1⟩
  · cases venue with
    | blend =>
      obtain ⟨s, t, hsupply, hdone⟩ := Tx.ok_bind.mp h1
      obtain ⟨-, rfl⟩ := Tx.ok_pure.mp hdone
      exact ⟨s, hsupply⟩
    | dex =>
      obtain ⟨s, t, hsupply, hdone⟩ := Tx.ok_bind.mp h1
      obtain ⟨-, rfl⟩ := Tx.ok_pure.mp hdone
      exact ⟨s, hsupply⟩
  · refine ⟨0, ?_⟩
    unfold supplyToVenue
    rw [if_pos (not_lt.mp hnone)]
    exact Tx.ok_pure.mpr ⟨rfl, (Tx.ok_pure.mp h1).2⟩

/-! ## Leaving a protocol -/

/-- The first pool call of a rebalance empties a funded venue, and the pool reports that funds
    are left. -/
def World.ExitFails (w : World) (env : Env) (venue : Venue) (minOut : Int) : Prop :=
  0 < w.position venue ∧ ∃ pool reply, w.deployment.pool venue = some pool ∧
    env.pool ⟨0, .withdraw, venue, pool, w.position venue, venue.forwardedMinOut minOut,
      w.position venue⟩ = some reply ∧ 0 < reply.position

theorem protocolBalance_venue : w.protocolBalance venue.protocol = w.position venue := by
  cases venue with
  | blend => rfl
  | dex => rfl

/-- An exit from a single venue fails exactly if the pool reports funds left. -/
theorem exitProtocol_venue {a : RebalanceAmounts} {r : Option RebalanceAmounts}
    (hmark : w.deployment.currentProtocol = venue.protocol) (hlegs : w.legs = 0)
    (h : (exitProtocol venue.protocol minOut a).Ok env w r w') :
    w'.deployment.deployed = w.deployment.deployed ∧ (r = none ↔ w.ExitFails env venue minOut) ∧
      (r ≠ none → w'.position venue ≤ 0) := by
  obtain ⟨t, x, hexit, hq, hnone, -⟩ := exitProtocol_steps h
  have hwithdraw := withdrawFromProtocol_venue hmark hexit
  have hasked : w.asked venue 0 = w.position venue := if_pos rfl
  rw [protocolBalance_venue, protocolBalance_venue] at hnone
  have hposition : w'.position venue = t.position venue := hq.undisturbed.position venue
  refine ⟨?_, ?_, fun hsome => ?_⟩
  · rw [hq.deployment]
    exact withdrawFromVenue_deployed hwithdraw
  · rw [hnone]
    have hwithdrawn := withdrawFromVenue_ok hwithdraw
    rw [hasked] at hwithdrawn
    constructor
    · rintro ⟨hheld, hleft⟩
      rcases hwithdrawn with ⟨hempty, -, -⟩ | ⟨-, reply, hleg, -, -⟩
      · omega
      · obtain ⟨pool, hpool, hreply⟩ := hleg.answered
        rw [hlegs] at hreply
        rw [hleg.position] at hleft
        exact ⟨hheld, pool, reply, hpool, hreply, hleft⟩
    · rintro ⟨hheld, pool, reply, hpool, hreply, hleft⟩
      refine ⟨hheld, ?_⟩
      rcases hwithdrawn with ⟨hempty, -, -⟩ | ⟨-, reply', hleg, -, -⟩
      · omega
      · obtain ⟨pool', hpool', hreply'⟩ := hleg.answered
        obtain rfl : pool' = pool := Option.some.inj (hpool'.symm.trans hpool)
        rw [hlegs] at hreply'
        obtain rfl : reply' = reply := Option.some.inj (hreply'.symm.trans hreply)
        rwa [hleg.position]
  · rw [hposition]
    by_contra hleft
    have hheld : ¬ 0 < w.position venue := fun hheld => hsome (hnone.mpr ⟨hheld, by omega⟩)
    rcases withdrawFromVenue_ok hwithdraw with ⟨-, -, rfl⟩ | ⟨hpos, -⟩
    · omega
    · omega

/-! ## Rebalances -/

theorem synced_enterVenue {apy : Int} {a : RebalanceAmounts} {current : Protocol} {u : Unit}
    (h : (enterProtocol venue.protocol current apy minOut a).Ok env w u w') : w'.Synced := by
  cases venue with
  | blend => exact synced_rebalanceToVenue h
  | dex => exact synced_rebalanceToVenue h

/-- The `none` target refreshes unless its own exit fails. -/
theorem rebalanceToNone_synced {apy : Int} {a : RebalanceAmounts} {u : Unit}
    (hcurrent : p = .none ∨ w.protocolBalance p ≤ 0 ∨ p = .multi ∧ w.Synced)
    (h : (rebalanceToNone p apy minOut a).Ok env w u w') : w'.Synced := by
  rcases Tx.ok_ite.mp h with ⟨hactive, h1⟩ | ⟨-, h1⟩
  · obtain ⟨r, t, hexit, h2⟩ := Tx.ok_bind.mp h1
    cases r with
    | some a' =>
      obtain ⟨_, t1, -, hfinish⟩ := Tx.ok_bind.mp h2
      exact synced_finishRebalance hfinish
    | none =>
      obtain ⟨-, rfl⟩ := Tx.ok_pure.mp h2
      obtain ⟨t1, x, hwithdraw, hq, hnone, -⟩ := exitProtocol_steps hexit
      obtain ⟨hheld, -⟩ := hnone.mp rfl
      rcases hcurrent with hidle | hempty | ⟨hmulti, hsynced⟩
      · exact absurd hidle hactive
      · omega
      · apply World.Synced.of_undisturbed _ hq.undisturbed
        rcases withdrawFromProtocol_deployed hwithdraw with rfl | ⟨-, hdone⟩ | ⟨hsingle, -⟩
        · exact hsynced
        · exact hdone
        · rw [hmulti] at hsingle
          cases hsingle
  · exact synced_finishRebalance h1

theorem Protocol.eq_venue_of_isSupported (h : p.isSupported = true) :
    p = .none ∨ ∃ v : Venue, p = v.protocol := by
  cases p with
  | blend => exact .inr ⟨.blend, rfl⟩
  | dex => exact .inr ⟨.dex, rfl⟩
  | none => exact .inl rfl
  | multi => cases h
  | other => cases h

theorem enterProtocol_synced {apy : Int} {a : RebalanceAmounts} {current : Protocol} {u : Unit}
    (hp : p.isSupported = true)
    (hcurrent : p = .none → current = .none ∨ w.protocolBalance current ≤ 0 ∨
      current = .multi ∧ w.Synced)
    (h : (enterProtocol p current apy minOut a).Ok env w u w') : w'.Synced := by
  rcases Protocol.eq_venue_of_isSupported hp with rfl | ⟨v, rfl⟩
  · exact rebalanceToNone_synced (hcurrent rfl) h
  · exact synced_enterVenue h

/-- A rebalance that leaves a single venue without emptying it. -/
def World.LeavesFunds (w : World) (env : Env) (p : Protocol) (minOut : Int) : Prop :=
  ∃ venue : Venue, w.deployment.currentProtocol = venue.protocol ∧ p ≠ venue.protocol ∧
    w.ExitFails env venue minOut

theorem Venue.protocol_active (v : Venue) : v.protocol ≠ .none := by
  cases v <;> exact nofun

theorem Protocol.cases_marker (p : Protocol) :
    p = .none ∨ (∃ v : Venue, p = v.protocol) ∨ p = .multi ∨ ∃ s, p = .other s := by
  cases p with
  | blend => exact .inr (.inl ⟨.blend, rfl⟩)
  | dex => exact .inr (.inl ⟨.dex, rfl⟩)
  | none => exact .inl rfl
  | multi => exact .inr (.inr (.inl rfl))
  | other s => exact .inr (.inr (.inr ⟨s, rfl⟩))

theorem Quiet.exitFails_iff {t : World} (h : Quiet w t) :
    t.ExitFails env venue minOut ↔ w.ExitFails env venue minOut := by
  unfold World.ExitFails
  rw [h.settled.position, h.deployment]

theorem Venue.protocol_injective {v v' : Venue} (h : v.protocol = v'.protocol) : v = v' := by
  cases v <;> cases v' <;> first | rfl | cases h

/-- A rebalance ends with a refresh, unless the exit from a single venue fails. -/
theorem rebalance_tracks {apy : Int} {u : Unit} (hlegs : w.legs = 0)
    (h : (rebalance p apy minOut).Ok env w u w') :
    (w.LeavesFunds env p minOut ∧ w'.deployment.deployed = w.deployment.deployed) ∨
      (¬ w.LeavesFunds env p minOut ∧ w'.Synced) := by
  obtain ⟨t, -, -, hrate, hp, hcases⟩ := rebalance_parts h
  have hq : Quiet w t := quiet_enforceRateLimit hrate
  have hmark : t.deployment.currentProtocol = w.deployment.currentProtocol := by
    rw [hq.deployment]
  rcases hcases with ⟨hstays, henter⟩ | ⟨hleaves, hactive, r, t1, hexit, hrest⟩
  · refine .inr ⟨?_, enterProtocol_synced hp ?_ henter⟩
    · rintro ⟨v, hv, hpv, -⟩
      rw [hmark, hv] at hstays
      rcases hstays with hsame | hnone
      · exact hpv hsame.symm
      · exact v.protocol_active hnone
    · rintro rfl
      exact .inl (hstays.elim id id)
  · by_cases hsingle : ∃ v : Venue, t.deployment.currentProtocol = v.protocol
    · obtain ⟨v, hv⟩ := hsingle
      rw [hv] at hexit hrest hleaves
      have hlegs' : t.legs = 0 := hq.legs.trans hlegs
      obtain ⟨hdeployed, hfails, hleft⟩ := exitProtocol_venue hv hlegs' hexit
      rw [hq.exitFails_iff] at hfails
      cases r with
      | none =>
        obtain rfl := hrest
        refine .inl ⟨⟨v, hmark ▸ hv, hleaves.symm, hfails.mp rfl⟩, ?_⟩
        rw [hdeployed, hq.deployment]
      | some a =>
        refine .inr ⟨?_, enterProtocol_synced hp (fun _ => .inr (.inl ?_)) hrest⟩
        · rintro ⟨v', hv', -, hfail⟩
          obtain rfl : v = v' := Venue.protocol_injective (hv.symm.trans (hmark.trans hv'))
          cases hfails.mpr hfail
        · rw [protocolBalance_venue]
          exact hleft nofun
    · have hnot : ¬ w.LeavesFunds env p minOut := by
        rintro ⟨v, hv, -⟩
        exact hsingle ⟨v, hmark.trans hv⟩
      refine .inr ⟨hnot, ?_⟩
      obtain ⟨t2, x, hwithdraw, hq2, hnone, -⟩ := exitProtocol_steps hexit
      rcases Protocol.cases_marker t.deployment.currentProtocol with hz | hv | hmulti | ⟨s, hs⟩
      · exact absurd hz hactive
      · exact absurd hv hsingle
      · rw [hmulti] at hwithdraw hrest
        have hsynced : t1.Synced :=
          (withdrawFromProtocol_synced hmulti hwithdraw).of_undisturbed hq2.undisturbed
        cases r with
        | none =>
          obtain rfl := hrest
          exact hsynced
        | some a => exact enterProtocol_synced hp (fun _ => .inr (.inr ⟨rfl, hsynced⟩)) hrest
      · rw [hs] at hrest hnone
        cases r with
        | none => exact absurd (hnone.mp rfl).1 (lt_irrefl 0)
        | some a => exact enterProtocol_synced hp (fun _ => .inr (.inl le_rfl)) hrest

end NeuroWealth.Vault
