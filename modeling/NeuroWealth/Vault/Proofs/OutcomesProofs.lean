import NeuroWealth.Vault.Proofs.GovernanceProofs

/-!
# How rebalances and harvests end

A rebalance either concludes, which records its outcome and its ledger, or is abandoned after an
incomplete exit, which records neither. Until then nothing that governs the vault changes.
-/

namespace NeuroWealth.Vault

open Transaction MachineInt

variable {env : Env} {w w' : World} {venue : Venue} {minOut : Int} {u : Unit}

/-! ## Outcomes -/

/-- The outcome of a rebalance that an event announces. -/
def Event.outcome : Event → Option Status
  | .rebalance _ _ status _ _ _ _ => some status
  | .rebalanceFailed _ => some .failed
  | _ => none

/-- The outcomes the last call announced. -/
def World.outcomes (w : World) : List Status := w.events.filterMap Event.outcome

theorem outcomes_append {events : List Event} {e : Event} (hw : w'.events = events ++ [e]) :
    w'.outcomes = events.filterMap Event.outcome ++ e.outcome.toList := by
  unfold World.outcomes
  rw [hw, List.filterMap_append]
  cases h : e.outcome with
  | none => simp [h]
  | some s => simp [h]

/-! ## Until the end -/

/-- Nothing that governs the vault changes, and no outcome is announced. -/
structure Interim (w w' : World) : Prop where
  governing : w'.governing = w.governing
  outcomes : w'.outcomes = w.outcomes
  sequence : w'.chain.sequence = w.chain.sequence

def interim : Footprint Env World where
  rel _ w w' := Interim w w'
  refl _ _ := ⟨rfl, rfl, rfl⟩
  trans h1 h2 := ⟨h2.governing.trans h1.governing, h2.outcomes.trans h1.outcomes,
    h2.sequence.trans h1.sequence⟩

theorem Interim.parts (h : Interim w w') :
    w'.limits = w.limits ∧ w'.buckets = w.buckets ∧ w'.breaker = w.breaker := by
  have hg := h.governing
  simp only [World.governing, Prod.mk.injEq] at hg
  exact ⟨hg.2.1, hg.2.2.1, hg.2.2.2.1⟩

theorem interim_publish {e : Event} (he : e.outcome = none) : Keeps interim (publish e) := by
  refine .modify fun _ w => ⟨rfl, ?_, rfl⟩
  rw [outcomes_append rfl, he]
  exact List.append_nil _

theorem interim_putDeployment {d : Deployment} : Keeps interim (putDeployment d) :=
  .modify fun _ _ => ⟨rfl, rfl, rfl⟩

theorem interim_approve {token spender : Address} {amount : Int} {n : Nat} :
    Keeps interim (approve token spender amount n) :=
  .bind .get fun _ => .bind .require fun _ => .bind (.modify fun _ _ => ⟨rfl, rfl, rfl⟩) fun _ =>
    interim_publish rfl

theorem interim_callPool {kind : LegKind} {pool token : Address} {amount : Int} :
    Keeps interim (callPool kind venue pool token amount minOut) :=
  .bind .read fun _ => .bind .get fun _ => .bind .expect fun _ => .bind .require fun _ =>
    .modify fun _ _ => ⟨rfl, rfl, rfl⟩

theorem interim_setCurrentProtocol {p : Protocol} : Keeps interim (setCurrentProtocol p) :=
  .bind .get fun _ => .ite (.pure _) (.bind interim_putDeployment fun _ => interim_publish rfl)

theorem interim_syncDeployedSplit : Keeps interim syncDeployedSplit :=
  .bind (.of_unchanged unchanged_getVenueBalance) fun _ =>
    .bind (.of_unchanged unchanged_getVenueBalance) fun _ => .bind .get fun _ =>
    .bind interim_putDeployment fun _ => .pure _

theorem interim_supplyToVenue {amount : Int} : Keeps interim (supplyToVenue venue amount minOut) :=
  .ite (.pure _) <| .bind (.bind .get fun _ => .expect) fun _ =>
    .bind (.bind .get fun _ => .expect) fun _ =>
    .bind (.bind .get fun _ => .pure _) fun _ => .bind (.bind .get fun _ => .pure _) fun _ =>
    .bind interim_approve fun _ => .bind (.bind .get fun _ => .pure _) fun _ =>
    .bind interim_callPool fun _ => .bind (.bind .get fun _ => .pure _) fun _ =>
    .bind .require fun _ => .bind (.onlyIf interim_setCurrentProtocol) fun _ =>
    .bind (interim_publish rfl) fun _ => .pure _

theorem interim_withdrawFromVenue {amount : Int} :
    Keeps interim (withdrawFromVenue venue amount minOut) :=
  .bind (.bind .get fun _ => .expect) fun _ => .bind (.bind .get fun _ => .expect) fun _ =>
    .bind (.ite (.bind .get fun _ => .pure _) (.pure _)) fun _ => .ite (.pure _) <|
    .bind (.bind .get fun _ => .pure _) fun _ => .bind interim_callPool fun _ =>
    .bind (.bind .get fun _ => .pure _) fun _ => .bind .require fun _ =>
    .bind (.onlyIf (.bind (.bind .get fun _ => .pure _) fun _ =>
      .onlyIf interim_setCurrentProtocol)) fun _ =>
    .bind (interim_publish rfl) fun _ => .pure _

theorem interim_withdrawFromProtocol {p : Protocol} :
    Keeps interim (withdrawFromProtocol p minOut) := by
  refine .bind .get fun w => .ite ?_ (.pure _)
  cases p with
  | blend => exact interim_withdrawFromVenue
  | dex => exact interim_withdrawFromVenue
  | multi =>
    exact .bind interim_withdrawFromVenue fun _ => .bind interim_withdrawFromVenue fun _ =>
      .bind interim_syncDeployedSplit fun _ => .bind interim_setCurrentProtocol fun _ => .pure _
  | none => exact .pure _
  | other => exact .pure _

theorem interim_supplyIdle {a : RebalanceAmounts} : Keeps interim (supplyIdle venue minOut a) :=
  .bind (.bind .get fun _ => .expect) fun _ => .bind (.bind .get fun _ => .expect) fun _ =>
    .bind (.bind .get fun _ => .pure _) fun _ => .ite (.bind interim_supplyToVenue fun _ => .pure _)
      (.ite (.bind interim_setCurrentProtocol fun _ => .pure _) (.pure _))

theorem interim_trimVenue {balance target : Int} :
    Keeps interim (trimVenue venue balance target minOut) :=
  .ite (.bind .expect fun _ => .bind interim_withdrawFromVenue fun _ => .pure _) (.pure _)

theorem interim_topUpVenue {target available : Int} :
    Keeps interim (topUpVenue venue target available minOut) :=
  .bind (.of_unchanged unchanged_getVenueBalance) fun _ => .ite
    (.bind .expect fun _ => .ite (.bind interim_supplyToVenue fun _ => .pure _) (.pure _))
    (.pure _)

theorem interim_resupply {p : Protocol} {x : Int} : Keeps interim (resupply p x minOut) := by
  refine .ite ?_ (.pure _)
  cases p with
  | blend => exact .bind interim_supplyToVenue fun _ => .pure _
  | dex => exact .bind interim_supplyToVenue fun _ => .pure _
  | none => exact .pure _
  | multi => exact .pure _
  | other => exact .pure _

/-! ## Guards -/

/-- The cooldown since the latest recorded rebalance is over. -/
def World.CooldownElapsed (w : World) : Prop :=
  ∀ m last, w.limits.minRebalanceInterval = some m → w.limits.lastRebalanceLedger = some last →
    0 < m → m ≤ w.chain.sequence - last

theorem ok_requireCooldownElapsed :
    requireCooldownElapsed.Ok env w u w' ↔ w.CooldownElapsed ∧ w' = w := by
  simp only [requireCooldownElapsed, Tx.ok_bind, Tx.ok_get, existsAndEq, true_and,
    World.CooldownElapsed]
  split
  · rename_i m last hm hlast
    simp only [Tx.ok_require, hm, hlast, Option.some.injEq]
    refine and_congr_left fun _ => ⟨?_, fun h hactive => ?_⟩
    · rintro hover _ _ rfl rfl hpos
      omega
    · have hwaited := h m last rfl rfl hactive.1
      omega
  · rename_i hnone
    simp only [Tx.ok_pure, true_and]
    exact (and_iff_right fun m last hm hlast => absurd hlast (hnone m last hm)).symm

/-- The configured allowance of a category. -/
def World.rateLimit (w : World) (category : RateLimitCategory) : RateLimitConfig :=
  (w.limits.rateLimitConfig category).getD (defaultRateLimitConfig category)

/-- One call of a bucket is used up, unless its category is not limited. -/
structure Charged (w w' : World) (user : Option Address) (category : RateLimitCategory) : Prop where
  limits : w'.limits = w.limits
  breaker : w'.breaker = w.breaker
  outcomes : w'.outcomes = w.outcomes
  sequence : w'.chain.sequence = w.chain.sequence
  bucket : (w.rateLimit category).maxCalls ≠ 0 →
    (currentWindow (w.rateLimit category) w.chain.sequence (w.buckets.state user category)).calls <
        (w.rateLimit category).maxCalls ∧
      w'.buckets.state user category = some
        { currentWindow (w.rateLimit category) w.chain.sequence (w.buckets.state user category) with
          calls := saturatingAddU32 (currentWindow (w.rateLimit category) w.chain.sequence
            (w.buckets.state user category)).calls 1 }

theorem enforceRateLimit_ok {user : Option Address} {category : RateLimitCategory}
    (h : (enforceRateLimit category user).Ok env w u w') : Charged w w' user category := by
  simp only [enforceRateLimit, getRateLimitConfigInternal, requireValidRateLimitCategory,
    Tx.ok_bind, Tx.ok_get, Tx.ok_require, Tx.ok_pure, Tx.ok_ite, Tx.ok_modify, existsAndEq,
    exists_const, and_assoc, true_and] at h
  obtain ⟨-, ⟨hzero, rfl⟩ | ⟨-, hcalls, rfl⟩⟩ := h
  · exact ⟨rfl, rfl, rfl, rfl, fun hmax => absurd hzero hmax⟩
  · refine ⟨rfl, rfl, rfl, rfl, fun _ => ⟨hcalls, ?_⟩⟩
    exact if_pos ⟨rfl, rfl⟩

/-! ## The end of a rebalance -/

/-- The breaker after an outcome. -/
def Breaker.record (b : Breaker) : Status → Breaker
  | .failed =>
    { b with
      consecutiveFailures := saturatingAddU32 b.consecutiveFailures 1
      paused := b.paused ||
        decide (b.maxConsecutiveFailures ≤ saturatingAddU32 b.consecutiveFailures 1) }
  | .success => { b with consecutiveFailures := 0 }
  | _ => b

theorem recordRebalanceOutcome_ok {status : Status}
    (h : (recordRebalanceOutcome status).Ok env w u w') :
    w'.breaker = w.breaker.record status ∧ w'.limits = w.limits ∧ w'.buckets = w.buckets ∧
      w'.outcomes = w.outcomes ∧ w'.chain.sequence = w.chain.sequence := by
  simp only [recordRebalanceOutcome, Tx.ok_bind, Tx.ok_get, existsAndEq, true_and] at h
  cases status with
  | failed =>
    simp only [modifyBreaker, Tx.ok_bind, Tx.ok_modify, Tx.ok_ite, Tx.ok_pure,
      ok_getOwnerInternal, ok_publish, existsAndEq, exists_const, and_assoc, true_and] at h
    rcases h with ⟨hreached, -, owner, -, rfl⟩ | ⟨hnot, rfl⟩
    · refine ⟨?_, rfl, rfl, ?_, rfl⟩
      · simp [Breaker.record, hreached]
      · rw [outcomes_append rfl]
        exact List.append_nil _
    · refine ⟨?_, rfl, rfl, rfl, rfl⟩
      cases hpaused : w.breaker.paused with
      | true => simp [Breaker.record, hpaused]
      | false =>
        have hbelow : ¬ w.breaker.maxConsecutiveFailures ≤
            saturatingAddU32 w.breaker.consecutiveFailures 1 := fun hle => hnot ⟨hle, hpaused⟩
        simp [Breaker.record, hpaused, hbelow]
  | success =>
    obtain rfl := Tx.ok_modify.mp h
    exact ⟨rfl, rfl, rfl, rfl, rfl⟩
  | noop =>
    obtain ⟨-, rfl⟩ := Tx.ok_pure.mp h
    exact ⟨rfl, rfl, rfl, rfl, rfl⟩
  | partially =>
    obtain ⟨-, rfl⟩ := Tx.ok_pure.mp h
    exact ⟨rfl, rfl, rfl, rfl, rfl⟩

/-- The outcome and the ledger are recorded. -/
structure Concluded (w w' : World) (status : Status) : Prop where
  outcomes : w'.outcomes = w.outcomes ++ [status]
  breaker : w'.breaker = w.breaker.record status
  lastRebalance : w'.limits.lastRebalanceLedger = some w.chain.sequence
  buckets : w'.buckets = w.buckets

/-- The failure is announced and nothing is recorded. -/
structure Abandoned (w w' : World) : Prop where
  outcomes : w'.outcomes = w.outcomes ++ [.failed]
  breaker : w'.breaker = w.breaker
  limits : w'.limits = w.limits
  buckets : w'.buckets = w.buckets

/-- What happens before a conclusion does not disturb it. -/
theorem Concluded.of_interim {t : World} {status : Status} (h : Interim w t)
    (hc : Concluded t w' status) : Concluded w w' status := by
  obtain ⟨-, hbuckets, hbreaker⟩ := h.parts
  refine ⟨?_, ?_, ?_, ?_⟩
  · rw [hc.outcomes, h.outcomes]
  · rw [hc.breaker, hbreaker]
  · rw [hc.lastRebalance, h.sequence]
  · rw [hc.buckets, hbuckets]

/-- Nor does what happens after it. -/
theorem Concluded.interim {t : World} {status : Status} (hc : Concluded w t status)
    (h : Interim t w') : Concluded w w' status := by
  obtain ⟨hlimits, hbuckets, hbreaker⟩ := h.parts
  refine ⟨?_, ?_, ?_, ?_⟩
  · rw [h.outcomes, hc.outcomes]
  · rw [hbreaker, hc.breaker]
  · rw [hlimits, hc.lastRebalance]
  · rw [hbuckets, hc.buckets]

theorem Abandoned.of_interim {t : World} (h : Interim w t) (ha : Abandoned t w') :
    Abandoned w w' := by
  obtain ⟨hlimits, hbuckets, hbreaker⟩ := h.parts
  refine ⟨?_, ?_, ?_, ?_⟩
  · rw [ha.outcomes, h.outcomes]
  · rw [ha.breaker, hbreaker]
  · rw [ha.limits, hlimits]
  · rw [ha.buckets, hbuckets]

/-- The announcement, the breaker and the ledger, in the order of both rebalances. -/
theorem concluded_of_announced {p : Protocol} {apy : Int} {status : Status} {a : RebalanceAmounts}
    {t1 t2 : World} {u1 u2 u3 : Unit} (hpublish : (publishRebalance p apy status a).Ok env w u1 t1)
    (houtcome : (recordRebalanceOutcome status).Ok env t1 u2 t2)
    (hledger : recordRebalanceLedger.Ok env t2 u3 w') : Concluded w w' status := by
  obtain rfl := ok_publish.mp hpublish
  obtain ⟨hbreaker, -, hbuckets, houtcomes, hsequence⟩ := recordRebalanceOutcome_ok houtcome
  simp only [recordRebalanceLedger, modifyLimits, Tx.ok_bind, Tx.ok_get, Tx.ok_modify, existsAndEq,
    true_and] at hledger
  subst hledger
  refine ⟨?_, hbreaker, ?_, hbuckets⟩
  · show t2.outcomes = _
    rw [houtcomes, outcomes_append rfl]
    rfl
  · show some t2.chain.sequence = _
    rw [hsequence]

theorem finishRebalance_ok {p : Protocol} {apy : Int} {status : Status} {a : RebalanceAmounts}
    (h : (finishRebalance p apy status a).Ok env w u w') : Concluded w w' status := by
  simp only [finishRebalance, Tx.ok_bind, Tx.ok_pure, existsAndEq] at h
  obtain ⟨x1, t1, hpublish, x2, t2, houtcome, x3, t3, hledger, _, hsync, -⟩ := h
  have hconcluded : Concluded w t3 status := concluded_of_announced hpublish houtcome hledger
  exact hconcluded.interim (interim_syncDeployedSplit hsync)

/-! ## Incomplete exits -/

/-- A pool that is asked for the whole position leaves nothing of it. -/
def Env.HonoursExits (env : Env) : Prop :=
  ∀ c r, c.kind = .withdraw → c.amount = c.position → env.pool c = some r → r.position ≤ 0

theorem exitedVenue {s : Int} (hpools : env.HonoursExits)
    (h : (withdrawFromVenue venue 0 minOut).Ok env w s w') :
    w'.position venue ≤ 0 ∧ ∀ v, v ≠ venue → w'.position v = w.position v := by
  have hasked : w.asked venue 0 = w.position venue := if_pos rfl
  rcases withdrawFromVenue_ok h with ⟨hle, -, rfl⟩ | ⟨-, reply, hleg, -, -⟩
  · rw [hasked] at hle
    exact ⟨hle, fun _ _ => rfl⟩
  · obtain ⟨pool, -, hreply⟩ := hleg.answered
    rw [hasked] at hreply
    refine ⟨?_, hleg.elsewhere⟩
    rw [hleg.position]
    exact hpools _ _ rfl rfl hreply

/-- Leaving the active protocol through honest pools leaves nothing there. -/
theorem exitedProtocol {p : Protocol} {x : Int} (hpools : env.HonoursExits)
    (hcurrent : w.deployment.currentProtocol = p)
    (h : (withdrawFromProtocol p minOut).Ok env w x w') : w'.protocolBalance p ≤ 0 := by
  rcases withdrawFromProtocol_cases h with
    ⟨rfl, hinactive⟩ | ⟨v, rfl, -, hleg⟩ | ⟨rfl, -, _, _, t1, t2, _, _, hblend, hdex, hsync, hmark⟩
  · have hnot := hinactive hcurrent
    cases p with
    | blend => cases hnot
    | dex => cases hnot
    | multi => cases hnot
    | none => exact le_rfl
    | other => exact le_rfl
  · have hleft := (exitedVenue hpools hleg).1
    cases v with
    | blend => exact hleft
    | dex => exact hleft
  · obtain ⟨hb, -⟩ := exitedVenue hpools hblend
    obtain ⟨hd, hother⟩ := exitedVenue hpools hdex
    have hsettled := settled.trans (r := env) (syncDeployedSplit_ok hsync).1
      (setCurrentProtocol_ok hmark).1
    show i128.saturatingAdd (w'.position .blend) (w'.position .dex) ≤ 0
    rw [hsettled.position, hsettled.position, hother .blend (by decide)]
    have hpositive : ¬ 0 < t2.position .dex + t1.position .blend := by omega
    rw [add_comm] at hpositive
    exact not_lt.mp fun hlt => hpositive ((saturate_pos (by decide)).mp hlt)

/-- An exit leaves the protocol, or is abandoned because something is left there. -/
theorem exitProtocol_ok {p : Protocol} {a : RebalanceAmounts} {r : Option RebalanceAmounts}
    (h : (exitProtocol p minOut a).Ok env w r w') :
    ∃ x t, (withdrawFromProtocol p minOut).Ok env w x t ∧
      ((r.isSome ∧ w' = t) ∨ (r = none ∧ 0 < w.protocolBalance p ∧ 0 < t.protocolBalance p ∧
        Abandoned t w')) := by
  obtain ⟨t, x, hexit, ⟨hsome, rfl, -⟩ | ⟨rfl, ⟨hheld, hleft⟩, hpub⟩⟩ := exitProtocol_cases h
  · exact ⟨x, w', hexit, .inl ⟨hsome, rfl⟩⟩
  · obtain rfl := ok_publish.mp hpub
    refine ⟨x, t, hexit, .inr ⟨rfl, hheld, hleft, ?_, rfl, rfl, rfl⟩⟩
    rw [outcomes_append rfl]
    rfl

/-! ## The calls -/

/-- A rebalance that has left the old protocol concludes, or is abandoned at the second exit of
    the `none` target. -/
theorem enterProtocol_ok {p current : Protocol} {apy : Int} {a : RebalanceAmounts}
    (h : (enterProtocol p current apy minOut a).Ok env w u w') :
    (∃ status, Concluded w w' status) ∨
      (Abandoned w w' ∧ 0 < w.protocolBalance current ∧ ∃ x t,
        (withdrawFromProtocol current minOut).Ok env w x t ∧ 0 < t.protocolBalance current) := by
  have hvenue : ∀ {venue}, (rebalanceToVenue venue apy minOut a).Ok env w u w' →
      ∃ status, Concluded w w' status := by
    intro venue h
    obtain ⟨_, t, hsupply, hfinish⟩ := Tx.ok_bind.mp h
    exact ⟨_, .of_interim (interim_supplyIdle hsupply) (finishRebalance_ok hfinish)⟩
  have hnone : (rebalanceToNone current apy minOut a).Ok env w u w' →
      (∃ status, Concluded w w' status) ∨
        (Abandoned w w' ∧ 0 < w.protocolBalance current ∧ ∃ x t,
          (withdrawFromProtocol current minOut).Ok env w x t ∧ 0 < t.protocolBalance current) := by
    intro h
    unfold rebalanceToNone at h
    by_cases hcurrent : current ≠ .none
    · rw [if_pos hcurrent] at h
      obtain ⟨exited, t1, hexit, h⟩ := Tx.ok_bind.mp h
      obtain ⟨x, t, hwithdraw, ⟨hsome, rfl⟩ | ⟨rfl, hpos, hleft, hab⟩⟩ := exitProtocol_ok hexit
      · obtain ⟨a', rfl⟩ := Option.isSome_iff_exists.mp hsome
        obtain ⟨_, t2, hmark, hfinish⟩ := Tx.ok_bind.mp h
        have hinterim := interim.trans (r := env) (interim_withdrawFromProtocol hwithdraw)
          (interim_setCurrentProtocol hmark)
        exact .inl ⟨_, .of_interim hinterim (finishRebalance_ok hfinish)⟩
      · obtain ⟨-, rfl⟩ := Tx.ok_pure.mp h
        exact .inr ⟨.of_interim (interim_withdrawFromProtocol hwithdraw) hab, hpos, x, t,
          hwithdraw, hleft⟩
    · rw [if_neg hcurrent] at h
      exact .inl ⟨_, finishRebalance_ok h⟩
  cases p with
  | blend => exact .inl (hvenue h)
  | dex => exact .inl (hvenue h)
  | none => exact hnone h
  | multi => exact hnone h
  | other => exact hnone h

/-- A rebalance passes the pause, the agent check and the cooldown, uses up one call of the shared
    bucket, and concludes; through pools that honour exits it is never abandoned. -/
theorem rebalance_ok {p : Protocol} {apy : Int} (h : (rebalance p apy minOut).Ok env w u w') :
    w.breaker.paused = false ∧ w.CooldownElapsed ∧ ∃ t, Charged w t none .rebalance ∧
      ((∃ status, Concluded t w' status) ∨ (Abandoned t w' ∧ ¬ env.HonoursExits)) := by
  obtain ⟨t, hlive, hcooldown, hcharge, -, hcases⟩ := rebalance_parts h
  refine ⟨hlive, (ok_requireCooldownElapsed.mp hcooldown).1, t, enforceRateLimit_ok hcharge, ?_⟩
  rcases hcases with ⟨-, henter⟩ | ⟨-, -, exited, t2, hexit, hrest⟩
  · rcases enterProtocol_ok henter with hc | ⟨hab, -, x, t3, hwithdraw, hleft⟩
    · exact .inl hc
    · refine .inr ⟨hab, fun hpools => ?_⟩
      have hempty := exitedProtocol hpools rfl hwithdraw
      omega
  · obtain ⟨x, t3, hwithdraw, ⟨hsome, rfl⟩ | ⟨rfl, -, hleft, hab⟩⟩ := exitProtocol_ok hexit
    · obtain ⟨a, rfl⟩ := Option.isSome_iff_exists.mp hsome
      have hinterim := interim_withdrawFromProtocol hwithdraw
      rcases enterProtocol_ok hrest with ⟨status, hc⟩ | ⟨hab, hpos, -⟩
      · exact .inl ⟨status, hc.of_interim hinterim⟩
      · refine .inr ⟨hab.of_interim hinterim, fun hpools => ?_⟩
        have hempty := exitedProtocol hpools rfl hwithdraw
        omega
    · obtain rfl := hrest
      refine .inr ⟨hab.of_interim (interim_withdrawFromProtocol hwithdraw), fun hpools => ?_⟩
      have hempty := exitedProtocol hpools rfl hwithdraw
      omega

/-- The round trip of a harvest passes the cooldown, uses up one call of the shared bucket and
    records its ledger. -/
theorem harvestRoundTrip_ok {event : Protocol → Int → Event}
    (he : ∀ p x, (event p x).outcome = none)
    (h : (harvestRoundTrip minOut event).Ok env w u w') :
    w.CooldownElapsed ∧ ∃ t, Charged w t none .rebalance ∧ w'.buckets = t.buckets ∧
      w'.limits.lastRebalanceLedger = some t.chain.sequence := by
  obtain ⟨t, x, t1, t2, t3, hcooldown, hcharge, hexit, hsupply, hpub, hledger⟩ :=
    harvestRoundTrip_parts h
  have hinterim : Interim t t3 := interim.trans (r := env) (interim.trans (r := env)
    (interim_withdrawFromProtocol hexit) (interim_resupply hsupply)) (interim_publish (he _ _) hpub)
  simp only [recordRebalanceLedger, modifyLimits, Tx.ok_bind, Tx.ok_get, Tx.ok_modify, existsAndEq,
    true_and] at hledger
  subst hledger
  refine ⟨(ok_requireCooldownElapsed.mp hcooldown).1, t, enforceRateLimit_ok hcharge,
    hinterim.parts.2.1, ?_⟩
  show some t3.chain.sequence = _
  rw [hinterim.sequence]

theorem harvest_ok (h : (harvest minOut).Ok env w u w') :
    w.CooldownElapsed ∧ ∃ t, Charged w t none .rebalance ∧ w'.buckets = t.buckets ∧
      w'.limits.lastRebalanceLedger = some t.chain.sequence := by
  simp only [harvest, Tx.ok_bind, ok_requireInitialized, ok_requireNotPaused, existsAndEq,
    exists_const, and_assoc, true_and] at h
  obtain ⟨-, -, _, t0, hagent, h⟩ := h
  obtain ⟨-, rfl⟩ := ok_requireIsAgent.mp hagent
  exact harvestRoundTrip_ok (fun _ _ => rfl) h

theorem emergencyHarvest_ok (h : (emergencyHarvest minOut).Ok env w u w') :
    w.CooldownElapsed ∧ ∃ t, Charged w t none .rebalance ∧ w'.buckets = t.buckets ∧
      w'.limits.lastRebalanceLedger = some t.chain.sequence := by
  simp only [emergencyHarvest, Tx.ok_bind, ok_requireInitialized, ok_getOwnerInternal,
    ok_requireOwnerArg, existsAndEq, exists_const, and_assoc, true_and] at h
  obtain ⟨-, owner, -, -, -, -, h⟩ := h
  exact harvestRoundTrip_ok (fun _ _ => rfl) h

end NeuroWealth.Vault
