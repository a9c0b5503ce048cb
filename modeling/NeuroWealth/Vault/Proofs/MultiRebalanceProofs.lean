import NeuroWealth.Vault.Proofs.LiquidityProofs
import NeuroWealth.Vault.Proofs.OutcomesProofs

/-!
# The legs of a multi-protocol rebalance

What the checks, the four legs and the record of `rebalance_multi` do; each leg may be skipped.
-/

namespace NeuroWealth.Vault

open Transaction MachineInt

variable {env : Env} {w w' t : World} {venue : Venue} {kind : LegKind}
variable {asked minOut target available : Int} {blendBps dexBps bps : Nat}

/-! ## Checks -/

/-- The conditions of a multi-protocol rebalance. -/
structure World.MayRebalanceMulti (w : World) (env : Env) (blendBps dexBps : Nat) (minOut : Int) :
    Prop where
  initialized : w.Initialized
  live : w.breaker.paused = false
  signed : ∃ a, w.Accepts a ∧ a ∈ env.auths
  enabled : w.deployment.multiProtocolEnabled = true
  split : blendBps ≤ bpsDenominator ∧ dexBps ≤ bpsDenominator ∧
    saturatingAddU32 blendBps dexBps ≤ bpsDenominator
  floor : 0 ≤ minOut
  cooldown : w.CooldownElapsed
  blendPool : ¬ (0 < blendBps ∧ w.deployment.pool .blend = none)
  dexPool : ¬ (0 < dexBps ∧ w.deployment.pool .dex = none)

theorem ok_multiChecks {x : World} :
    (multiChecks blendBps dexBps minOut).Ok env w x w' ↔
      (w.MayRebalanceMulti env blendBps dexBps minOut ∧ x = w) ∧ w' = w := by
  simp only [multiChecks, requirePoolForAllocation, requireValidAllocation, Tx.ok_bind, Tx.ok_get,
    Tx.ok_require, Tx.ok_pure, ok_requireInitialized, ok_requireNotPaused, ok_requireIsAgent,
    ok_requireCooldownElapsed, existsAndEq, exists_const, and_assoc, true_and]
  constructor
  · rintro ⟨hi, hlive, -, hsigned, henabled, hblend, hdex, hsum, hfloor, hcooldown, hpool, hpool',
      rfl, rfl⟩
    exact ⟨⟨hi, hlive, hsigned, henabled, ⟨hblend, hdex, hsum⟩, hfloor, hcooldown, hpool, hpool'⟩,
      rfl, rfl⟩
  · rintro ⟨h, rfl, rfl⟩
    obtain ⟨hblend, hdex, hsum⟩ := h.split
    exact ⟨h.initialized, h.live, h.initialized, h.signed, h.enabled, hblend, hdex, hsum, h.floor,
      h.cooldown, h.blendPool, h.dexPool, rfl, rfl⟩

/-- A legal split does not exceed the whole. -/
theorem World.MayRebalanceMulti.add_le (h : w.MayRebalanceMulti env blendBps dexBps minOut) :
    blendBps + dexBps ≤ 10000 := by
  obtain ⟨-, -, hsum⟩ := h.split
  unfold saturatingAddU32 bpsDenominator at hsum
  omega

/-! ## Targets -/

/-- A venue's part of a total, rounded down. -/
def bpsShare (total : Int) (bps : Nat) : Int :=
  if total ≤ 0 then 0 else (total * bps).tdiv bpsDenominator

theorem ok_splitByBps {total : Int} {x : Int × Int} :
    (splitByBps total blendBps dexBps).Ok env w x w' ↔
      (x = (bpsShare total blendBps, bpsShare total dexBps) ∧
        (0 < total → i128.Fits (total * blendBps) ∧ i128.Fits (total * dexBps))) ∧ w' = w := by
  unfold splitByBps bpsShare
  by_cases hnone : total ≤ 0
  · simp only [if_pos hnone, Tx.ok_pure]
    constructor
    · rintro ⟨rfl, rfl⟩
      exact ⟨⟨rfl, fun h => absurd h (not_lt.mpr hnone)⟩, rfl⟩
    · rintro ⟨⟨rfl, -⟩, rfl⟩
      exact ⟨rfl, rfl⟩
  · simp only [if_neg hnone, Tx.ok_bind, ok_checkedMul, Tx.ok_pure, existsAndEq, and_assoc, true_and]
    have hpos : 0 < total := not_le.mp hnone
    simp only [hpos, true_implies]
    tauto

theorem bpsShare_nonneg {total : Int} : 0 ≤ bpsShare total bps := by
  unfold bpsShare
  split_ifs with hnone
  · exact le_rfl
  · have hproduct : 0 ≤ total * bps := mul_nonneg (not_le.mp hnone).le (Int.natCast_nonneg bps)
    exact Int.tdiv_nonneg hproduct (Int.natCast_nonneg _)

/-- A part of a total that is not negative is its share in ten thousandths, rounded down. -/
theorem bpsShare_eq {total : Int} (h : 0 ≤ total) : bpsShare total bps = total * bps / 10000 := by
  unfold bpsShare
  split_ifs with hnone
  · rw [le_antisymm hnone h, zero_mul, Int.zero_ediv]
  · exact Int.tdiv_eq_ediv_of_nonneg (mul_nonneg h (Int.natCast_nonneg bps))

/-- The parts of a legal split do not exceed the total. -/
theorem bpsShare_add_le {total : Int} (h : 0 ≤ total) (hsplit : blendBps + dexBps ≤ 10000) :
    bpsShare total blendBps + bpsShare total dexBps ≤ total := by
  rw [bpsShare_eq h, bpsShare_eq h]
  have hblend : total * blendBps / 10000 * 10000 ≤ total * blendBps := Int.ediv_mul_le _ (by decide)
  have hdex : total * dexBps / 10000 * 10000 ≤ total * dexBps := Int.ediv_mul_le _ (by decide)
  have hsum : total * blendBps + total * dexBps ≤ total * 10000 := by
    rw [← mul_add]
    exact mul_le_mul_of_nonneg_left (by exact_mod_cast hsplit) h
  omega

/-! ## One leg -/

/-- At most one call of a venue, none if nothing is asked for. -/
structure AtMostLeg (kind : LegKind) (env : Env) (w w' : World) (venue : Venue)
    (asked minOut moved : Int) : Prop where
  made : (asked ≤ 0 ∧ moved = 0 ∧ w' = w) ∨
    (0 < asked ∧ i128.Fits asked ∧
      ∃ reply, Leg kind env w w' venue asked minOut reply ∧ reply.moved = moved)
  enabled : w'.deployment.multiProtocolEnabled = w.deployment.multiProtocolEnabled

theorem Marked.enabled {p : Protocol} (h : Marked w w' p) :
    w'.deployment.multiProtocolEnabled = w.deployment.multiProtocolEnabled := by
  rw [h]

theorem trimVenue_ok {balance : Int} {x : Int × Int} (hbalance : w.position venue = balance)
    (h : (trimVenue venue balance target minOut).Ok env w x w') :
    ∃ moved, AtMostLeg .withdraw env w w' venue (balance - target) minOut moved ∧
      x = (max (balance - target) 0, i128.saturate moved) := by
  rcases Tx.ok_ite.mp h with ⟨hover, h1⟩ | ⟨hunder, h1⟩
  · simp only [Tx.ok_bind, ok_nativeSub, Tx.ok_pure, existsAndEq, and_assoc, true_and,
      and_true] at h1
    obtain ⟨hfits, s, hleg, rfl⟩ := h1
    have hasked : w.asked venue (balance - target) = balance - target := if_neg (by omega)
    rcases withdrawFromVenue_ok hleg with ⟨hnone, -⟩ | ⟨hpos, reply, hmade, rfl, hmark⟩
    · rw [hasked] at hnone
      omega
    · rw [hasked] at hpos hmade
      refine ⟨reply.moved, ⟨.inr ⟨hpos, hfits, reply, hmade, rfl⟩, hmark.enabled⟩, ?_⟩
      rw [max_eq_left hpos.le]
  · obtain ⟨rfl, rfl⟩ := Tx.ok_pure.mp h1
    refine ⟨0, ⟨.inl ⟨by omega, rfl, rfl⟩, rfl⟩, ?_⟩
    rw [max_eq_right (by omega), saturate_of_fits (by decide)]

theorem topUpVenue_ok {x : Int × Int}
    (h : (topUpVenue venue target available minOut).Ok env w x w') :
    ∃ moved, AtMostLeg .supply env w w' venue (min (target - w.position venue) available) minOut
        moved ∧
      x = (max (min (target - w.position venue) available) 0, i128.saturate moved) := by
  obtain ⟨now, t, hnow, h0⟩ := Tx.ok_bind.mp h
  obtain ⟨rfl, rfl⟩ := getVenueBalance_ok hnow
  rcases Tx.ok_ite.mp h0 with ⟨⟨hunder, hsome⟩, h1⟩ | ⟨hskipped, h1⟩
  · simp only [Tx.ok_bind, ok_nativeSub, existsAndEq, and_assoc, true_and] at h1
    obtain ⟨hfits, h2⟩ := h1
    have hwant : 0 < min (target - t.position venue) available := by omega
    rw [if_pos hwant] at h2
    simp only [Tx.ok_bind, Tx.ok_pure, existsAndEq, and_true] at h2
    obtain ⟨s, hleg, rfl⟩ := h2
    rcases supplyToVenue_ok hleg with ⟨hnone, -⟩ | ⟨hpos, reply, hmade, rfl, hmark⟩
    · omega
    · have hfits' : i128.Fits (min (target - t.position venue) available) :=
        fits_of_le hpos.le (min_le_left _ _) hfits
      refine ⟨reply.moved, ⟨.inr ⟨hpos, hfits', reply, hmade, rfl⟩, hmark.enabled⟩, ?_⟩
      rw [max_eq_left hpos.le]
  · obtain ⟨rfl, rfl⟩ := Tx.ok_pure.mp h1
    refine ⟨0, ⟨.inl ⟨by omega, rfl, rfl⟩, rfl⟩, ?_⟩
    rw [max_eq_right (by omega), saturate_of_fits (by decide)]

theorem AtMostLeg.frame {asked moved : Int} (h : AtMostLeg kind env w w' venue asked minOut moved) :
    PoolStep w w' := by
  rcases h.made with ⟨-, -, rfl⟩ | ⟨-, -, reply, hleg, -⟩
  · exact poolStep.refl env _
  · exact hleg.frame

theorem AtMostLeg.elsewhere {asked moved : Int} {v : Venue}
    (h : AtMostLeg kind env w w' venue asked minOut moved) (hv : v ≠ venue) :
    w'.position v = w.position v := by
  rcases h.made with ⟨-, -, rfl⟩ | ⟨-, -, reply, hleg, -⟩
  · rfl
  · exact hleg.elsewhere v hv

/-! ## The legs together -/

/-- The USDC the call spreads, as its own sum. -/
def World.deployable (w : World) : Int :=
  i128.saturatingAdd (i128.saturatingAdd w.idle (w.position .blend)) (w.position .dex)

/-- The four legs, with what each of them asked for and moved. -/
def MultiRun (env : Env) (w w' : World) (blendTarget dexTarget minOut : Int) (l : MultiLegs) :
    Prop :=
  ∃ t1 t2 t3 m1 m2 m3 m4,
    AtMostLeg .withdraw env w t1 .blend (w.position .blend - blendTarget) minOut m1 ∧
    AtMostLeg .withdraw env t1 t2 .dex (t1.position .dex - dexTarget) minOut m2 ∧
    AtMostLeg .supply env t2 t3 .blend (min (blendTarget - t2.position .blend) t2.idle) minOut m3 ∧
    AtMostLeg .supply env t3 w' .dex
      (min (dexTarget - t3.position .dex) (i128.saturatingSub t2.idle (i128.saturate m3))) minOut
      m4 ∧
    l = ⟨(max (w.position .blend - blendTarget) 0, i128.saturate m1),
      (max (t1.position .dex - dexTarget) 0, i128.saturate m2),
      (max (min (blendTarget - t2.position .blend) t2.idle) 0, i128.saturate m3),
      (max (min (dexTarget - t3.position .dex)
        (i128.saturatingSub t2.idle (i128.saturate m3))) 0, i128.saturate m4)⟩

theorem multiLegs_ok {l : MultiLegs}
    (h : (multiLegs blendBps dexBps minOut).Ok env w l w') :
    (0 < w.deployable → i128.Fits (w.deployable * blendBps) ∧ i128.Fits (w.deployable * dexBps)) ∧
      MultiRun env w w' (bpsShare w.deployable blendBps) (bpsShare w.deployable dexBps) minOut l := by
  simp only [multiLegs, Tx.ok_bind, ok_getUsdcToken, ok_vaultBalance, existsAndEq, and_assoc,
    true_and] at h
  obtain ⟨token, htoken, _, t, hblend, _, t', hdex, target, t'', hsplit, x1, t1, h1, x2, t2, h2, x3,
    t3, h3, x4, t4, h4, hpure⟩ := h
  obtain ⟨rfl, rfl⟩ := getVenueBalance_ok hblend
  obtain ⟨rfl, rfl⟩ := getVenueBalance_ok hdex
  rw [← idle_eq htoken] at hsplit
  change (splitByBps t'.deployable blendBps dexBps).Ok env t' target t'' at hsplit
  obtain ⟨⟨rfl, hfits⟩, rfl⟩ := ok_splitByBps.mp hsplit
  obtain ⟨m1, hm1, rfl⟩ := trimVenue_ok rfl h1
  have hdex1 : t1.position .dex = t''.position .dex := hm1.elsewhere (by decide)
  rw [← hdex1] at h2
  obtain ⟨m2, hm2, rfl⟩ := trimVenue_ok rfl h2
  have htoken2 : t2.usdcToken = some token :=
    hm2.frame.usdcToken.trans (hm1.frame.usdcToken.trans htoken)
  rw [← idle_eq htoken2] at h3 h4
  obtain ⟨m3, hm3, rfl⟩ := topUpVenue_ok h3
  obtain ⟨m4, hm4, rfl⟩ := topUpVenue_ok h4
  obtain ⟨rfl, rfl⟩ := Tx.ok_pure.mp hpure
  exact ⟨hfits, t1, t2, t3, m1, m2, m3, m4, hm1, hm2, hm3, hm4, rfl⟩

theorem trimVenue_level : (trimVenue venue target target minOut).Ok env w (0, 0) w :=
  Tx.ok_ite.mpr (.inr ⟨lt_irrefl target, Tx.ok_pure.mpr ⟨rfl, rfl⟩⟩)

theorem topUpVenue_level {token : Address} (htoken : w.usdcToken = some token)
    (hlevel : w.position venue = target) :
    (topUpVenue venue target available minOut).Ok env w (0, 0) w := by
  apply Tx.ok_bind.mpr ⟨_, w, getVenueBalance_succeeds htoken, ?_⟩
  rw [if_neg fun hunder => hunder.1.ne hlevel]
  exact Tx.ok_pure.mpr ⟨rfl, rfl⟩

/-- Nothing is moved while both venues hold their targets. -/
theorem multiLegs_level {token : Address} (htoken : w.usdcToken = some token)
    (hfits : 0 < w.deployable →
      i128.Fits (w.deployable * blendBps) ∧ i128.Fits (w.deployable * dexBps))
    (hblend : w.position .blend = bpsShare w.deployable blendBps)
    (hdex : w.position .dex = bpsShare w.deployable dexBps) :
    (multiLegs blendBps dexBps minOut).Ok env w ⟨(0, 0), (0, 0), (0, 0), (0, 0)⟩ w := by
  have hsplit : (splitByBps w.deployable blendBps dexBps).Ok env w
      (w.position .blend, w.position .dex) w := by
    rw [hblend, hdex]
    exact ok_splitByBps.mpr ⟨⟨rfl, hfits⟩, rfl⟩
  have hidle : (vaultBalance token).Ok env w w.idle w := ok_vaultBalance.mpr ⟨idle_eq htoken, rfl⟩
  refine Tx.ok_bind.mpr ⟨token, w, ok_getUsdcToken.mpr ⟨htoken, rfl⟩, ?_⟩
  refine Tx.ok_bind.mpr ⟨_, w, hidle, ?_⟩
  refine Tx.ok_bind.mpr ⟨_, w, getVenueBalance_succeeds htoken, ?_⟩
  refine Tx.ok_bind.mpr ⟨_, w, getVenueBalance_succeeds htoken, ?_⟩
  refine Tx.ok_bind.mpr ⟨_, w, hsplit, ?_⟩
  refine Tx.ok_bind.mpr ⟨_, w, trimVenue_level, ?_⟩
  refine Tx.ok_bind.mpr ⟨_, w, trimVenue_level, ?_⟩
  refine Tx.ok_bind.mpr ⟨_, w, hidle, ?_⟩
  refine Tx.ok_bind.mpr ⟨_, w, topUpVenue_level htoken rfl, ?_⟩
  refine Tx.ok_bind.mpr ⟨_, w, topUpVenue_level htoken rfl, ?_⟩
  exact Tx.ok_pure.mpr ⟨rfl, rfl⟩

/-! ## The record -/

theorem interim_multiLegs : Keeps interim (multiLegs blendBps dexBps minOut) :=
  .bind (.bind .get fun _ => .expect) fun _ => .bind (.bind .get fun _ => .pure _) fun _ =>
    .bind (.of_unchanged unchanged_getVenueBalance) fun _ =>
    .bind (.of_unchanged unchanged_getVenueBalance) fun _ =>
    .bind (.of_unchanged unchanged_splitByBps) fun _ => .bind interim_trimVenue fun _ =>
    .bind interim_trimVenue fun _ => .bind (.bind .get fun _ => .pure _) fun _ =>
    .bind interim_topUpVenue fun _ => .bind interim_topUpVenue fun _ => .pure _

/-- The breaker may add an event of its own. -/
theorem recordRebalanceOutcome_keepsEvents {status : Status} {u : Unit}
    (h : (recordRebalanceOutcome status).Ok env w u w') {e : Event} (he : e ∈ w.events) :
    e ∈ w'.events := by
  simp only [recordRebalanceOutcome, Tx.ok_bind, Tx.ok_get, existsAndEq, true_and] at h
  cases status with
  | failed =>
    simp only [modifyBreaker, Tx.ok_bind, Tx.ok_modify, Tx.ok_ite, Tx.ok_pure,
      ok_getOwnerInternal, ok_publish, existsAndEq, exists_const, and_assoc, true_and] at h
    rcases h with ⟨-, -, owner, -, rfl⟩ | ⟨-, rfl⟩
    · exact List.mem_append_left _ he
    · exact he
  | success =>
    obtain rfl := Tx.ok_modify.mp h
    exact he
  | noop =>
    obtain ⟨-, rfl⟩ := Tx.ok_pure.mp h
    exact he
  | partially =>
    obtain ⟨-, rfl⟩ := Tx.ok_pure.mp h
    exact he

theorem total_recordRebalanceOutcome {status : Status} (h : status ≠ .failed) :
    Total (recordRebalanceOutcome status) := by
  refine .bind .get fun w => ?_
  cases status with
  | failed => exact absurd rfl h
  | success => exact .modify
  | noop => exact .pure _
  | partially => exact .pure _

/-- What the record of a multi-protocol rebalance establishes. -/
structure MultiRecorded (w w' : World) (l : MultiLegs) : Prop where
  settled : Settled w w'
  marker : w'.deployment.currentProtocol =
    deriveProtocolSummary (w'.position .blend) (w'.position .dex)
  enabled : w'.deployment.multiProtocolEnabled = w.deployment.multiProtocolEnabled
  announced : ∃ apy, .rebalance .multi apy (multiStatus l.attempted l.moved) l.attempted l.moved
    l.supplied l.withdrawn ∈ w'.events
  concluded : Concluded w w' (multiStatus l.attempted l.moved)

theorem multiRecord_ok {old : World} {l : MultiLegs} {u : Unit}
    (h : (multiRecord blendBps dexBps old l).Ok env w u w') : MultiRecorded w w' l := by
  simp only [multiRecord, setAllocation, Tx.ok_bind, Tx.ok_get, existsAndEq, true_and] at h
  obtain ⟨_, t1, hallocation, x, t2, hsync, _, t3, hmark, _, t4, hpub, _, t5, hannounce, _, t6,
    houtcome, hledger⟩ := h
  obtain ⟨hs1, hd1⟩ := settled_putDeployment hallocation rfl
  obtain ⟨hs2, rfl, hd2⟩ := syncDeployedSplit_ok hsync
  obtain ⟨hs3, hd3⟩ := setCurrentProtocol_ok hmark
  have hquiet : Quiet t3 w' := quiet.trans (r := env)
    (quiet.trans (r := env) (quiet_publish rfl hpub) (quiet_publish rfl hannounce))
    (quiet.trans (r := env) (quiet_recordRebalanceOutcome houtcome)
      (quiet_recordRebalanceLedger hledger))
  have hinterim : Interim w t4 := interim.trans (r := env)
    (interim.trans (r := env) (interim_putDeployment hallocation) (interim_syncDeployedSplit hsync))
    (interim.trans (r := env) (interim_setCurrentProtocol hmark) (interim_publish rfl hpub))
  have hlast : Settled t1 w' := settled.trans (r := env) (settled.trans (r := env) hs2 hs3)
    hquiet.settled
  refine ⟨settled.trans (r := env) hs1 hlast, ?_, ?_, ?_,
    (concluded_of_announced hannounce houtcome hledger).of_interim hinterim⟩
  · rw [hquiet.deployment, hd3, hlast.position, hlast.position]
  · rw [hquiet.deployment, hd3, hd2, hd1]
    rfl
  · simp only [recordRebalanceLedger, modifyLimits, Tx.ok_bind, Tx.ok_get, Tx.ok_modify,
      existsAndEq, true_and] at hledger
    rw [hledger]
    refine ⟨t4.compositeApy, recordRebalanceOutcome_keepsEvents houtcome ?_⟩
    rw [ok_publish.mp hannounce]
    exact List.mem_append_right _ (List.mem_singleton_self _)

/-- Only a failed outcome can keep the record from being written. -/
theorem multiRecord_succeeds {token : Address} {old : World} {l : MultiLegs}
    (htoken : w.usdcToken = some token) (hok : multiStatus l.attempted l.moved ≠ .failed) :
    ∃ u w', (multiRecord blendBps dexBps old l).Ok env w u w' := by
  have hset : Total (setAllocation blendBps dexBps) := .bind .get fun _ => .modify
  obtain ⟨_, t, hallocation⟩ := hset env w
  apply Tx.exists_ok_bind hallocation
  obtain ⟨x, t', hsync⟩ := @syncDeployedSplit_succeeds env _ _
    ((settled_setAllocation hallocation).usdcToken.trans htoken)
  apply Tx.exists_ok_bind hsync
  exact Total.bind total_setCurrentProtocol (fun _ => .bind total_publish fun _ => .bind .get fun _ =>
    .bind total_publish fun _ => .bind (total_recordRebalanceOutcome hok) fun _ =>
    .bind .get fun _ => .modify) env t'

/-! ## The call -/

theorem MultiRun.enabled {blendTarget dexTarget : Int} {l : MultiLegs}
    (h : MultiRun env w w' blendTarget dexTarget minOut l) :
    w'.deployment.multiProtocolEnabled = w.deployment.multiProtocolEnabled := by
  obtain ⟨t1, t2, t3, m1, m2, m3, m4, h1, h2, h3, h4, -⟩ := h
  rw [h4.enabled, h3.enabled, h2.enabled, h1.enabled]

theorem MultiRun.frame {blendTarget dexTarget : Int} {l : MultiLegs}
    (h : MultiRun env w w' blendTarget dexTarget minOut l) : PoolStep w w' := by
  obtain ⟨t1, t2, t3, m1, m2, m3, m4, h1, h2, h3, h4, -⟩ := h
  exact poolStep.trans (r := env) (poolStep.trans (r := env) h1.frame h2.frame)
    (poolStep.trans (r := env) h3.frame h4.frame)

theorem rebalanceMulti_steps {u : Unit} (h : (rebalanceMulti blendBps dexBps minOut).Ok env w u w') :
    w.MayRebalanceMulti env blendBps dexBps minOut ∧ ∃ t l,
      (multiLegs blendBps dexBps minOut).Ok env w l t ∧ MultiRecorded t w' l := by
  obtain ⟨old, l, t, hchecks, hlegs, hrecord⟩ := rebalanceMulti_parts h
  obtain ⟨⟨hmay, -⟩, -⟩ := ok_multiChecks.mp hchecks
  exact ⟨hmay, t, l, hlegs, multiRecord_ok hrecord⟩

theorem rebalanceMulti_ok {u : Unit} (h : (rebalanceMulti blendBps dexBps minOut).Ok env w u w') :
    w.breaker.paused = false ∧ w.CooldownElapsed ∧ ∃ status, Concluded w w' status := by
  obtain ⟨hmay, t, l, hlegs, hrecorded⟩ := rebalanceMulti_steps h
  exact ⟨hmay.live, hmay.cooldown, _, hrecorded.concluded.of_interim (interim_multiLegs hlegs)⟩

theorem Breaker.record_paused {b : Breaker} {status : Status} (h : status ≠ .failed) :
    (b.record status).paused = b.paused := by
  cases status with
  | failed => exact absurd rfl h
  | success => rfl
  | noop => rfl
  | partially => rfl

end NeuroWealth.Vault
