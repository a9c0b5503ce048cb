import NeuroWealth.Vault.Proofs.TrackersProofs

/-!
# Calls keep the marker truthful

Exits, entries, harvests and pulls write the marker in different places. Each leaves it describing
the positions.
-/

namespace NeuroWealth.Vault

open Transaction MachineInt

variable {env : Env} {w w' : World} {venue : Venue} {p : Protocol} {minOut : Int}

/-- Only one venue may have funds. -/
def World.OnlyAt (w : World) (venue : Venue) : Prop := ∀ v, v ≠ venue → w.position v = 0

theorem World.Describes.onlyAt (h : w.Describes venue.protocol) : w.OnlyAt venue := by
  intro v hv
  apply h.exclusive venue.protocol_ne_multi
  intro hsame
  exact hv (Venue.protocol_injective hsame)

theorem World.OnlyAt.describes (h : w.OnlyAt venue) : w.Describes venue.protocol := by
  refine ⟨venue.protocol_known, fun _ v hv => h v fun he => hv ?_⟩
  rw [he]

theorem World.Undeployed.onlyAt (h : w.Undeployed) : w.OnlyAt venue := fun v _ => h v

theorem World.OnlyAt.of_settled (h : w.OnlyAt venue) (hs : Settled w w') : w'.OnlyAt venue :=
  fun v hv => hs.position.trans (h v hv)

/-- The marker `none` says that nothing is deployed. -/
theorem World.Truthful.undeployed (h : w.Truthful) (hmark : w.deployment.currentProtocol = .none) :
    w.Undeployed := by
  intro v
  apply h.marker.exclusive
  · rw [hmark]
    decide
  · rw [hmark]
    exact v.protocol_active

theorem World.Truthful.onlyAt (h : w.Truthful)
    (hmark : w.deployment.currentProtocol = venue.protocol) : w.OnlyAt venue := by
  have hmarker := h.marker
  rw [hmark] at hmarker
  exact hmarker.onlyAt

/-- A withdrawal stays at its venue. -/
theorem withdrawFromVenue_elsewhere {amount s : Int} {v : Venue} (hv : v ≠ venue)
    (h : (withdrawFromVenue venue amount minOut).Ok env w s w') : w'.position v = w.position v := by
  rcases withdrawFromVenue_ok h with ⟨-, -, rfl⟩ | ⟨-, reply, hleg, -, -⟩
  · rfl
  · exact hleg.elsewhere v hv

/-- Nothing is asked of a venue without funds. -/
theorem withdrawFromVenue_empty {s : Int} (hempty : w.position venue = 0)
    (h : (withdrawFromVenue venue 0 minOut).Ok env w s w') : w' = w := by
  have hasked : w.asked venue 0 = w.position venue := if_pos rfl
  rcases withdrawFromVenue_ok h with ⟨-, -, hsame⟩ | ⟨hpos, -⟩
  · exact hsame
  · omega

/-! ## Full exits -/

/-- A full exit keeps the marker truthful. -/
theorem withdrawFromProtocol_truthful {x : Int} (hw : w.Truthful) (hpools : env.TamePools)
    (h : (withdrawFromProtocol p minOut).Ok env w x w') : w'.Truthful := by
  rcases withdrawFromProtocol_cases h with
    ⟨rfl, -⟩ | ⟨v, rfl, hmark, hleg⟩ | ⟨-, -, _, _, _, _, _, _, hb, hd, hsync, hmarked⟩
  · exact hw
  · exact withdraw_truthful hw hpools hmark hleg
  · have hg1 := (movesFunds_withdrawFromVenue hb).grounded hpools hw.toGrounded
    have hg2 := (movesFunds_withdrawFromVenue hd).grounded hpools hg1
    exact truthful_of_resync hg2 (settled.refl env _) hsync (settled.refl env _) hmarked

/-- Without deployed funds a full exit calls no pool. -/
theorem withdrawFromProtocol_undeployed {x : Int} (hw : w.Undeployed)
    (h : (withdrawFromProtocol p minOut).Ok env w x w') : Settled w w' := by
  rcases withdrawFromProtocol_cases h with
    ⟨rfl, -⟩ | ⟨v, rfl, -, hleg⟩ | ⟨-, -, _, _, _, _, _, _, hb, hd, hsync, hmarked⟩
  · exact settled.refl env _
  · obtain rfl := withdrawFromVenue_empty (hw v) hleg
    exact settled.refl env _
  · obtain rfl := withdrawFromVenue_empty (hw .blend) hb
    obtain rfl := withdrawFromVenue_empty (hw .dex) hd
    exact settled.trans (r := env) (syncDeployedSplit_ok hsync).1 (setCurrentProtocol_ok hmarked).1

/-- A protocol without balance, of a truthful marker, has no funds deployed. -/
theorem World.Truthful.undeployed_of_balance (hw : w.Truthful) {q : Protocol}
    (hq : w.Describes q) (hbalance : w.protocolBalance q ≤ 0) : w.Undeployed := by
  have hb := hw.position_nonneg .blend
  have hd := hw.position_nonneg .dex
  rcases Protocol.cases_marker q with rfl | ⟨v, rfl⟩ | rfl | ⟨s, rfl⟩
  · intro v
    exact hq.exclusive (by decide) v v.protocol_active
  · intro v'
    rw [protocolBalance_venue] at hbalance
    by_cases hv : v' = v
    · have hnonneg := hw.position_nonneg v
      rw [hv]
      omega
    · exact hq.onlyAt v' hv
  · have hsum : ¬ 0 < w.position .blend + w.position .dex := fun hpos => by
      have hsaturated : 0 < i128.saturate (w.position .blend + w.position .dex) :=
        (saturate_pos (by decide)).mpr hpos
      exact absurd hsaturated (not_lt.mpr hbalance)
    intro v
    cases v with
    | blend => omega
    | dex => omega
  · exact absurd rfl (hq.known s)

/-- An exit from the marked protocol leaves nothing deployed, or is abandoned. -/
theorem exitProtocol_truthful {a : RebalanceAmounts} {r : Option RebalanceAmounts}
    (hw : w.Truthful) (hpools : env.TamePools) (hmark : w.deployment.currentProtocol = p)
    (h : (exitProtocol p minOut a).Ok env w r w') :
    w'.Truthful ∧ (r ≠ none → w'.Undeployed) := by
  obtain ⟨t, x, hexit, hq, hnone, -⟩ := exitProtocol_steps h
  have ht := withdrawFromProtocol_truthful hw hpools hexit
  refine ⟨ht.of_steady hq.steady, fun hsome => ?_⟩
  apply World.Undeployed.of_settled _ hq.settled
  have hmarker := hw.marker
  rw [hmark] at hmarker
  by_cases hheld : 0 < w.protocolBalance p
  · have hgone : t.protocolBalance p ≤ 0 := by
      by_contra hleft
      exact hsome (hnone.mpr ⟨hheld, not_le.mp hleft⟩)
    -- what the marker described before the exit, it still does: the exit stays within it
    have hq' : t.Describes p := by
      refine ⟨hmarker.known, fun hmulti v hv => ?_⟩
      rcases Protocol.cases_marker p with rfl | ⟨v', rfl⟩ | rfl | ⟨s, rfl⟩
      · exact absurd hheld (lt_irrefl 0)
      · have hne : v ≠ v' := fun he => hv (by rw [he])
        rw [withdrawFromVenue_elsewhere hne (withdrawFromProtocol_venue hmark hexit)]
        exact hmarker.onlyAt v hne
      · exact absurd rfl hmulti
      · exact absurd rfl (hmarker.known s)
    exact ht.undeployed_of_balance hq' hgone
  · have hundeployed := hw.undeployed_of_balance hmarker (not_lt.mp hheld)
    exact hundeployed.of_settled (withdrawFromProtocol_undeployed hundeployed hexit)

/-- An exit from a venue leaves funds there at most. -/
theorem exitProtocol_onlyAt {a : RebalanceAmounts} {r : Option RebalanceAmounts}
    (honly : w.OnlyAt venue) (hmark : w.deployment.currentProtocol = venue.protocol)
    (h : (exitProtocol venue.protocol minOut a).Ok env w r w') : w'.OnlyAt venue := by
  obtain ⟨t, x, hexit, hq, -, -⟩ := exitProtocol_steps h
  have ht : t.OnlyAt venue := fun v hv => by
    rw [withdrawFromVenue_elsewhere hv (withdrawFromProtocol_venue hmark hexit)]
    exact honly v hv
  exact ht.of_settled hq.settled

/-! ## Rebalances -/

/-- What a rebalance establishes: a truthful marker and funds in one venue at most. -/
def World.Settles (w : World) : Prop := w.Truthful ∧ ∃ venue, w.OnlyAt venue

theorem World.Settles.of_steady (h : w.Settles) (hs : Steady w w') : w'.Settles := by
  obtain ⟨htruthful, v, honly⟩ := h
  exact ⟨htruthful.of_steady hs, v, honly.of_settled hs.toSettled⟩

theorem steady_finishRebalance {apy : Int} {s : Status} {a : RebalanceAmounts} :
    Keeps steady (finishRebalance p apy s a) :=
  .bind (steady_of_quiet (quiet_publish rfl)) fun _ =>
    .bind (steady_of_quiet quiet_recordRebalanceOutcome) fun _ =>
    .bind (steady_of_quiet quiet_recordRebalanceLedger) fun _ =>
    .bind steady_syncDeployedSplit fun _ => .pure _

/-- Supplying all idle funds to the only venue that may have some. -/
theorem supplyIdle_truthful {a : RebalanceAmounts} {r : Status × RebalanceAmounts}
    (hw : w.Truthful) (honly : w.OnlyAt venue) (hpools : env.TamePools)
    (h : (supplyIdle venue minOut a).Ok env w r w') : w'.Truthful ∧ w'.OnlyAt venue := by
  simp only [supplyIdle, Tx.ok_bind, ok_getPool, ok_getUsdcToken, ok_vaultBalance, existsAndEq,
    and_assoc, true_and] at h
  obtain ⟨pool, -, token, -, h1⟩ := h
  rcases Tx.ok_ite.mp h1 with ⟨-, h2⟩ | ⟨-, h2⟩
  · obtain ⟨x, t, hsupply, hdone⟩ := Tx.ok_bind.mp h2
    obtain ⟨-, rfl⟩ := Tx.ok_pure.mp hdone
    exact supply_truthful hw hpools honly hsupply
  · rcases Tx.ok_ite.mp h2 with ⟨-, h3⟩ | ⟨-, h3⟩
    · obtain ⟨_, t, hmarked, hdone⟩ := Tx.ok_bind.mp h3
      obtain ⟨-, rfl⟩ := Tx.ok_pure.mp hdone
      have hs := (setCurrentProtocol_ok hmarked).1
      exact ⟨truthful_of_marked hw.toGrounded (settled.refl env _) honly.describes hmarked,
        honly.of_settled hs⟩
    · obtain ⟨-, rfl⟩ := Tx.ok_pure.mp h3
      exact ⟨hw, honly⟩

theorem rebalanceToVenue_settles {apy : Int} {a : RebalanceAmounts} {u : Unit} (hw : w.Truthful)
    (honly : w.OnlyAt venue) (hpools : env.TamePools)
    (h : (rebalanceToVenue venue apy minOut a).Ok env w u w') : w'.Settles := by
  obtain ⟨r, t, hsupply, hfinish⟩ := Tx.ok_bind.mp h
  obtain ⟨ht, honly'⟩ := supplyIdle_truthful hw honly hpools hsupply
  exact World.Settles.of_steady ⟨ht, venue, honly'⟩ (steady_finishRebalance hfinish)

/-- The `none` target finds nothing deployed. -/
theorem rebalanceToNone_settles {apy : Int} {a : RebalanceAmounts} {u : Unit} (hw : w.Truthful)
    (hundeployed : w.Undeployed) (h : (rebalanceToNone p apy minOut a).Ok env w u w') :
    w'.Settles := by
  have hsettles : ∀ {t : World}, t.Truthful → t.Undeployed → t.Settles :=
    fun ht hun => ⟨ht, .blend, hun.onlyAt⟩
  rcases Tx.ok_ite.mp h with ⟨-, h1⟩ | ⟨-, h1⟩
  · obtain ⟨r, t, hexit, h2⟩ := Tx.ok_bind.mp h1
    obtain ⟨t1, x, hwithdraw, hq, hnone, -⟩ := exitProtocol_steps hexit
    have hs : Settled w t := settled.trans (r := env)
      (withdrawFromProtocol_undeployed hundeployed hwithdraw) hq.settled
    have hun := hundeployed.of_settled hs
    have hg := hw.toGrounded.of_settled hs
    cases r with
    | none =>
      have hempty : w.protocolBalance p ≤ 0 := by
        rcases Protocol.cases_marker p with rfl | ⟨v, rfl⟩ | rfl | ⟨s, rfl⟩
        · exact le_rfl
        · rw [protocolBalance_venue, hundeployed v]
        · show i128.saturatingAdd (w.position .blend) (w.position .dex) ≤ 0
          rw [hundeployed .blend, hundeployed .dex]
          decide
        · exact le_rfl
      exact absurd (hnone.mp rfl).1 (not_lt.mpr hempty)
    | some a' =>
      obtain ⟨_, t2, hmarked, hfinish⟩ := Tx.ok_bind.mp h2
      have hdescribes : t.Describes .none := hun.describes fun _ => Protocol.noConfusion
      have ht2 := truthful_of_marked hg (settled.refl env _) hdescribes hmarked
      have hun2 := hun.of_settled (setCurrentProtocol_ok hmarked).1
      exact (hsettles ht2 hun2).of_steady (steady_finishRebalance hfinish)
  · exact (hsettles hw hundeployed).of_steady (steady_finishRebalance h1)

/-- Entering a protocol from a state that has funds there at most. -/
theorem enterProtocol_settles {current : Protocol} {apy : Int} {a : RebalanceAmounts} {u : Unit}
    (hw : w.Truthful) (hp : p.isSupported = true) (hpools : env.TamePools)
    (hdescribes : w.Describes p) (h : (enterProtocol p current apy minOut a).Ok env w u w') :
    w'.Settles := by
  rcases Protocol.eq_venue_of_isSupported hp with rfl | ⟨v, rfl⟩
  · apply rebalanceToNone_settles hw (fun v => ?_) h
    exact hdescribes.exclusive (by decide) v v.protocol_active
  · cases v with
    | blend => exact rebalanceToVenue_settles hw hdescribes.onlyAt hpools h
    | dex => exact rebalanceToVenue_settles hw hdescribes.onlyAt hpools h

theorem Protocol.known_of_isSupported (hp : p.isSupported = true) (s : Symbol) : p ≠ .other s := by
  rintro rfl
  cases hp

/-- A rebalance keeps the marker truthful, and leaves funds in one venue at most unless it could
    not leave multi-protocol mode. -/
theorem rebalance_truthful {apy : Int} {u : Unit} (hw : w.Truthful) (hpools : env.TamePools)
    (h : (rebalance p apy minOut).Ok env w u w') :
    w'.Truthful ∧ ((∃ venue, w'.OnlyAt venue) ∨
      w.deployment.currentProtocol = .multi ∧ .rebalanceFailed .multi ∈ w'.events) := by
  obtain ⟨t, -, -, hrate, hp, hcases⟩ := rebalance_parts h
  have hq : Quiet w t := quiet_enforceRateLimit hrate
  have ht := hw.of_steady hq.steady
  have hmark : t.deployment.currentProtocol = w.deployment.currentProtocol := by
    rw [hq.deployment]
  rcases hcases with ⟨hstays, henter⟩ | ⟨-, hactive, r, t1, hexit, hrest⟩
  · have hdescribes : t.Describes p := by
      rcases hstays with hsame | hnone
      · have hmarker := ht.marker
        rwa [hsame] at hmarker
      · exact (ht.undeployed hnone).describes (Protocol.known_of_isSupported hp)
    obtain ⟨htruthful, honly⟩ := enterProtocol_settles ht hp hpools hdescribes henter
    exact ⟨htruthful, .inl honly⟩
  · obtain ⟨ht1, hundeployed⟩ := exitProtocol_truthful ht hpools rfl hexit
    cases r with
    | some a =>
      have hdescribes : t1.Describes p :=
        (hundeployed nofun).describes (Protocol.known_of_isSupported hp)
      obtain ⟨htruthful, honly⟩ := enterProtocol_settles ht1 hp hpools hdescribes hrest
      exact ⟨htruthful, .inl honly⟩
    | none =>
      obtain rfl := hrest
      refine ⟨ht1, ?_⟩
      rcases Protocol.cases_marker t.deployment.currentProtocol with hz | ⟨v, hv⟩ | hmulti | ⟨s, hs⟩
      · exact absurd hz hactive
      · rw [hv] at hexit
        exact .inl ⟨v, exitProtocol_onlyAt (ht.onlyAt hv) hv hexit⟩
      · obtain ⟨_, _, _, _, _, hfailed⟩ := exitProtocol_steps hexit
        rw [hmulti] at hfailed
        exact .inr ⟨hmark.symm.trans hmulti, hfailed rfl⟩
      · exact absurd hs (ht.marker.known s)

/-! ## Refreshes -/

theorem rebalanceMulti_truthful {x y : Nat} {u : Unit} (hw : w.Truthful) (hpools : env.TamePools)
    (h : (rebalanceMulti x y minOut).Ok env w u w') : w'.Truthful := by
  obtain ⟨old, l, t, -, hlegs, hrecord⟩ := rebalanceMulti_parts h
  simp only [multiRecord, Tx.ok_bind, Tx.ok_get, existsAndEq, true_and] at hrecord
  obtain ⟨_, t1, hallocation, _, t2, hsync, _, t3, hmark, _, t4, hpub, _, t5, hannounce, _, t6,
    houtcome, hledger⟩ := hrecord
  have hg := (movesFunds_multiLegs hlegs).grounded hpools hw.toGrounded
  have ht := truthful_of_resync hg (settled_setAllocation hallocation) hsync (settled.refl env _)
    hmark
  have hannounced : Steady t3 t5 := steady.trans (r := env)
    (steady_of_quiet (quiet_publish rfl) hpub) (steady_of_quiet (quiet_publish rfl) hannounce)
  have hrecorded : Steady t5 w' := steady.trans (r := env)
    (steady_of_quiet quiet_recordRebalanceOutcome houtcome)
    (steady_of_quiet quiet_recordRebalanceLedger hledger)
  exact ht.of_steady (steady.trans (r := env) hannounced hrecorded)

theorem enableMultiProtocol_truthful {b : Bool} {u : Unit} (hw : w.Truthful)
    (h : (enableMultiProtocol b).Ok env w u w') : w'.Truthful := by
  simp only [enableMultiProtocol, Tx.ok_bind, ok_requireInitialized, Tx.ok_get, existsAndEq,
    exists_const, and_assoc, true_and] at h
  obtain ⟨-, _, t0, howner, live, t1, hsync, bps, t2, hbps, _, t3, henable, _, t4, hallocation, _,
    t5, hmark, hpub⟩ := h
  obtain rfl := unchanged_requireIsOwner howner
  obtain rfl := unchanged_initialAllocation hbps
  have hs : Settled t2 t4 := settled.trans (r := env) (settled_setMultiProtocolEnabled henable)
    (settled_setAllocation hallocation)
  have ht := truthful_of_resync hw.toGrounded (settled.refl env _) hsync hs hmark
  exact ht.of_steady (steady_of_quiet (quiet_publish rfl) hpub)

/-! ## Harvests and pulls -/

/-- A harvest puts back where it took from. -/
theorem harvestRoundTrip_truthful {event : Protocol → Int → Event} {u : Unit} (hw : w.Truthful)
    (hpools : env.TamePools) (he : ∀ p x, (event p x).toTransfer = none)
    (h : (harvestRoundTrip minOut event).Ok env w u w') : w'.Truthful := by
  obtain ⟨t, x, t1, t2, hq, hexit, hsupply, hlast⟩ := harvestRoundTrip_steps he h
  have ht := hw.of_steady hq.steady
  have ht1 := withdrawFromProtocol_truthful ht hpools hexit
  apply World.Truthful.of_steady _ hlast.steady
  by_cases hvenue : ∃ v : Venue, w.deployment.currentProtocol = v.protocol
  · obtain ⟨v, hv⟩ := hvenue
    rw [hv] at hexit hsupply
    have hmark : t.deployment.currentProtocol = v.protocol := by
      rw [hq.deployment, hv]
    have honly : t1.OnlyAt v := fun v' hv' => by
      rw [withdrawFromVenue_elsewhere hv' (withdrawFromProtocol_venue hmark hexit)]
      exact ht.onlyAt hmark v' hv'
    obtain ⟨s, hleg⟩ := resupply_venue hsupply
    exact (supply_truthful ht1 hpools honly hleg).1
  · have hnot : ¬ w.deployment.currentProtocol.isSingle = true := fun hsingle =>
      hvenue (Protocol.isSingle_iff.mp hsingle)
    obtain rfl := resupply_idle hnot hsupply
    exact ht1

theorem withdrawProportionally_truthful {needed x : Int} (hw : w.Truthful)
    (hpools : env.TamePools) (h : (withdrawProportionally needed minOut).Ok env w x w') :
    w'.Truthful := by
  rcases Tx.ok_ite.mp h with ⟨-, h1⟩ | ⟨-, h1⟩
  · obtain ⟨-, rfl⟩ := Tx.ok_pure.mp h1
    exact hw
  · obtain ⟨b, t, hb, h2⟩ := Tx.ok_bind.mp h1
    obtain ⟨d, t', hd, h3⟩ := Tx.ok_bind.mp h2
    obtain ⟨-, rfl⟩ := getVenueBalance_ok hb
    obtain ⟨-, rfl⟩ := getVenueBalance_ok hd
    rcases Tx.ok_ite.mp h3 with ⟨-, hnone⟩ | ⟨-, hlegs⟩
    · obtain ⟨-, rfl⟩ := Tx.ok_pure.mp hnone
      exact hw
    · simp only [Tx.ok_bind, checkedMul, checkedDiv, checkedSub, Tx.ok_expect, existsAndEq,
        and_assoc, true_and] at hlegs
      obtain ⟨product, -, fromBlend, -, _, -, x1, t1, hblend, x2, t2, hdex, after, t3, hsync, _, t4,
        hmark, hdone⟩ := hlegs
      obtain ⟨-, rfl⟩ := Tx.ok_pure.mp hdone
      have hmoves := (movesFunds_withdrawShare hblend).trans (movesFunds_withdrawShare hdex)
      have hg := hmoves.grounded hpools hw.toGrounded
      exact truthful_of_resync hg (settled.refl env _) hsync (settled.refl env _) hmark

theorem PulledFor.truthful {needed : Int} (h : PulledFor env w w' needed) (hw : w.Truthful)
    (hpools : env.TamePools) : w'.Truthful := by
  obtain ⟨-, -, x, hpull⟩ := h
  rcases Protocol.cases_marker w.deployment.currentProtocol with hp | ⟨v, hp⟩ | hp | ⟨s, hp⟩
  · rw [hp] at hpull
    obtain ⟨-, rfl⟩ := Tx.ok_pure.mp hpull
    exact hw
  · rw [hp] at hpull
    cases v with
    | blend => exact withdraw_truthful hw hpools hp hpull
    | dex => exact withdraw_truthful hw hpools hp hpull
  · rw [hp] at hpull
    exact withdrawProportionally_truthful hw hpools hpull
  · exact absurd hp (hw.marker.known s)

theorem Pulled.truthful (h : Pulled env w w') (hw : w.Truthful) (hpools : env.TamePools) :
    w'.Truthful := by
  rcases h with rfl | ⟨needed, hneeded⟩
  · exact hw
  · exact hneeded.truthful hw hpools

end NeuroWealth.Vault
