import NeuroWealth.Foundation.Aborts
import NeuroWealth.Vault.Proofs.LiquidityProofs
import NeuroWealth.Vault.Proofs.MarkerCallsProofs
import NeuroWealth.Vault.Properties.HarvestRoundTrip
import NeuroWealth.Vault.Proofs.RateLimitsProofs
import NeuroWealth.Vault.Properties.MultiRebalance

/-!
# Rejections by the slippage floor

A harvest aborts with an error of its `min_out` checks exactly when the floor is negative, or above
the position of a venue it leaves.
-/

namespace NeuroWealth.Vault

open Transaction MachineInt

variable {env : Env} {w w' t : World} {venue : Venue} {minOut x : Int} {p : Protocol}
  {e : VaultError} {token : Address}

/-- The errors of the `min_out` checks. -/
def VaultError.isMinOut : VaultError → Bool
  | .minOutNotMet => true
  | .minOutMustBeNonNegative => true
  | _ => false

def VaultError.IsMinOut (e : VaultError) : Prop := e.isMinOut = true
deriving Decidable

/-- Run from `w`, `x` is turned away by a `min_out` check. -/
def Rejects {α : Type} (x : Contract α) (env : Env) (w : World) : Prop :=
  ∃ e, x.Aborts env w e ∧ e.IsMinOut

theorem Rejects.of_ok {α β : Type} {x : Contract α} {f : α → Contract β} {a : α}
    (h : x.Ok env w a t) : Rejects (x >>= f) env w ↔ Rejects (f a) env t :=
  exists_congr fun _ => and_congr_left fun _ => Tx.aborts_bind_of_ok h

/-- A part without a check only passes on to the rest. -/
theorem Rejects.of_never {α β : Type} {x : Contract α} {f : α → Contract β}
    (hx : Never VaultError.IsMinOut x) :
    Rejects (x >>= f) env w ↔ ∃ a t, x.Ok env w a t ∧ Rejects (f a) env t := by
  constructor
  · rintro ⟨e, h, he⟩
    rcases Tx.aborts_bind.mp h with h1 | ⟨a, t, hok, h2⟩
    · exact absurd he (hx h1)
    · exact ⟨a, t, hok, e, h2, he⟩
  · rintro ⟨a, t, hok, e, h2, he⟩
    exact ⟨e, Tx.aborts_bind.mpr (.inr ⟨a, t, hok, h2⟩), he⟩

theorem Rejects.not_of_never {α : Type} {x : Contract α} (hx : Never VaultError.IsMinOut x) :
    ¬ Rejects x env w := by
  rintro ⟨e, h, he⟩
  exact hx h he

/-! ## Code without a check -/

theorem never_getUsdcToken : Never VaultError.IsMinOut getUsdcToken :=
  .bind .get fun _ => .expect (by decide)

theorem never_getPool : Never VaultError.IsMinOut (getPool venue) := by
  refine .bind .get fun _ => .expect ?_
  cases venue <;> decide

theorem never_publish {event : Event} : Never VaultError.IsMinOut (publish event) := .modify

theorem never_setCurrentProtocol : Never VaultError.IsMinOut (setCurrentProtocol p) :=
  .bind .get fun _ => .ite (.pure _) (.bind .modify fun _ => never_publish)

theorem never_getVenueBalance : Never VaultError.IsMinOut (getVenueBalance venue) := by
  refine .bind .get fun w => ?_
  cases w.deployment.pool venue with
  | none => exact .pure _
  | some pool => exact .bind never_getUsdcToken fun _ => .bind .get fun _ => .pure _

theorem never_syncDeployedSplit : Never VaultError.IsMinOut syncDeployedSplit :=
  .bind never_getVenueBalance fun _ => .bind never_getVenueBalance fun _ => .bind .get fun _ =>
    .bind .modify fun _ => .pure _

theorem never_approve {spender : Address} {amount : Int} {n : Nat} :
    Never VaultError.IsMinOut (approve token spender amount n) :=
  .bind .get fun _ => .bind (.require (by decide)) fun _ => .bind .modify fun _ => never_publish

theorem never_callPool {kind : LegKind} {pool : Address} {amount : Int} :
    Never VaultError.IsMinOut (callPool kind venue pool token amount minOut) :=
  .bind .read fun _ => .bind .get fun _ => .bind (.expect (by decide)) fun _ =>
    .bind (.require (by decide)) fun _ => .modify

theorem never_recordRebalanceLedger : Never VaultError.IsMinOut recordRebalanceLedger :=
  .bind .get fun _ => .modify

/-! ## Legs -/

/-- The floor is above what the venue holds. -/
def World.Short (w : World) (venue : Venue) (minOut : Int) : Prop :=
  0 < w.position venue ∧ w.position venue < minOut

theorem aborts_requireMinOut {actual : Int} :
    (requireMinOut actual minOut).Aborts env w e ↔
      (0 < minOut ∧ actual < minOut) ∧ e = .minOutNotMet := by
  unfold requireMinOut
  rw [Tx.aborts_require, not_not]

/-- A full withdrawal from a pool that pays in full aborts only on the floor. -/
theorem aborts_withdrawAll (hpaying : env.PayingPools) (htoken : w.usdcToken = some token)
    (hpool : (w.deployment.pool venue).isSome) (htyped : i128.Fits (w.position venue)) :
    (withdrawFromVenue venue 0 minOut).Aborts env w e ↔
      w.Short venue minOut ∧ e = .minOutNotMet := by
  obtain ⟨pool, hpool⟩ := Option.isSome_iff_exists.mp hpool
  have hasked : (requestedAmount venue pool 0).Ok env w (w.position venue) w := by
    unfold requestedAmount
    rw [if_pos rfl, ok_poolBalance, position_eq hpool]
    exact ⟨rfl, rfl⟩
  unfold withdrawFromVenue
  rw [Tx.aborts_bind_of_ok (ok_getPool.mpr ⟨hpool, rfl⟩),
    Tx.aborts_bind_of_ok (ok_getUsdcToken.mpr ⟨htoken, rfl⟩), Tx.aborts_bind_of_ok hasked]
  by_cases hnone : w.position venue ≤ 0
  · rw [if_pos hnone]
    refine ⟨fun h => absurd h Tx.aborts_pure, ?_⟩
    rintro ⟨⟨hpos, -⟩, -⟩
    exact absurd hpos (not_lt.mpr hnone)
  · rw [if_neg hnone]
    have hpos : 0 < w.position venue := not_le.mp hnone
    obtain ⟨r, hr, hmoved⟩ := hpaying.answer hpos le_rfl
    have hcall : ∃ t, (callPool .withdraw venue pool token (w.position venue)
        (venue.forwardedMinOut minOut)).Ok env w () t := by
      simp only [callPool, Tx.ok_bind, Tx.ok_read, Tx.ok_get, Tx.ok_expect, Tx.ok_require,
        Tx.ok_modify, existsAndEq, exists_const, and_assoc, true_and, exists_and_left]
      refine ⟨r, ?_, .inl ?_, trivial⟩
      · rw [← position_eq hpool]
        exact hr
      · show -r.moved ≤ 0
        omega
    obtain ⟨t, hcall⟩ := hcall
    obtain ⟨reply, hleg, -⟩ := callPool_ok hpool htoken (by rintro ⟨⟩) hcall
    have hpaid : reply.moved = w.position venue := hleg.paid hpaying hpos le_rfl
    have hmoved : i128.saturatingSub (t.chain.balances token t.self)
        (w.chain.balances token w.self) = w.position venue := by
      have htoken' : t.usdcToken = some token := by rw [hleg.frame.usdcToken, htoken]
      have hidle : t.idle = w.idle - -reply.moved := hleg.idle
      rw [← idle_eq htoken, ← idle_eq htoken']
      have hdiff : t.idle - w.idle = w.position venue := by omega
      unfold Format.saturatingSub
      rw [hdiff]
      exact saturate_of_fits htyped
    have hrest : ∀ {t' : World}, ¬ (do
        Tx.onlyIf (0 < w.position venue) (clearMarkerIfEmptied venue pool)
        publish (.poolWithdraw venue token (w.position venue) (0 < w.position venue))
        pure (w.position venue) : Contract Int).Aborts env t' e := by
      intro t'
      have htotal : Total (do
          Tx.onlyIf (0 < w.position venue) (clearMarkerIfEmptied venue pool)
          publish (.poolWithdraw venue token (w.position venue) (0 < w.position venue))
          pure (w.position venue) : Contract Int) :=
        .bind (.onlyIf total_clearMarkerIfEmptied) fun _ => .bind total_publish fun _ => .pure _
      obtain ⟨a, s', hok⟩ := htotal env t'
      exact hok.not_aborts
    rw [Tx.aborts_bind_of_ok (ok_vaultBalance.mpr ⟨rfl, rfl⟩), Tx.aborts_bind_of_ok hcall,
      Tx.aborts_bind_of_ok (ok_vaultBalance.mpr ⟨rfl, rfl⟩), hmoved, Tx.aborts_bind,
      aborts_requireMinOut]
    constructor
    · rintro (⟨⟨-, hfloor⟩, he⟩ | ⟨u, t', -, h⟩)
      · exact ⟨⟨hpos, hfloor⟩, he⟩
      · exact absurd h hrest
    · rintro ⟨⟨-, hfloor⟩, he⟩
      exact .inl ⟨⟨hpos.trans hfloor, hfloor⟩, he⟩

theorem rejects_withdrawAll (hpaying : env.PayingPools) (htoken : w.usdcToken = some token)
    (htyped : i128.Fits (w.position venue)) :
    Rejects (withdrawFromVenue venue 0 minOut) env w ↔ w.Short venue minOut := by
  by_cases hpool : (w.deployment.pool venue).isSome
  · constructor
    · rintro ⟨e, h, -⟩
      exact ((aborts_withdrawAll hpaying htoken hpool htyped).mp h).1
    · intro hshort
      exact ⟨_, (aborts_withdrawAll hpaying htoken hpool htyped).mpr ⟨hshort, rfl⟩, by decide⟩
  · have hnone : w.deployment.pool venue = none := Option.not_isSome_iff_eq_none.mp hpool
    unfold withdrawFromVenue
    rw [Rejects.of_never never_getPool]
    constructor
    · rintro ⟨pool, t, hget, -⟩
      rw [(ok_getPool.mp hget).1] at hnone
      cases hnone
    · rintro ⟨hpos, -⟩
      rw [position_unset hnone] at hpos
      omega

/-- A floor below the position lets the withdrawal through. -/
theorem withdrawAll_passes (hpaying : env.PayingPools) (htoken : w.usdcToken = some token)
    (hpool : (w.deployment.pool venue).isSome) (htyped : i128.Fits (w.position venue))
    (hfloor : ¬ w.Short venue minOut) : ∃ x t, (withdrawFromVenue venue 0 minOut).Ok env w x t := by
  rcases Tx.ok_or_aborts (withdrawFromVenue venue 0 minOut) env w with hok | ⟨e, haborts⟩
  · exact hok
  · exact absurd ((aborts_withdrawAll hpaying htoken hpool htyped).mp haborts).1 hfloor

/-- A supply to an honest pool is rejected by the floor only if the floor is above the amount. -/
theorem supply_rejected (hpools : env.HonestPools) {amount : Int} (hheld : 0 ≤ w.position venue)
    (htyped : i128.Fits amount) (h : (supplyToVenue venue amount minOut).Aborts env w e)
    (he : e.IsMinOut) : 0 < amount ∧ amount < minOut := by
  unfold supplyToVenue at h
  by_cases hnone : amount ≤ 0
  · rw [if_pos hnone] at h
    exact absurd h Tx.aborts_pure
  · rw [if_neg hnone] at h
    have hpos : 0 < amount := not_le.mp hnone
    refine ⟨hpos, ?_⟩
    rcases Tx.aborts_bind.mp h with h0 | ⟨pool, t0, hpool, h1⟩
    · exact absurd he (never_getPool h0)
    obtain ⟨hpool, rfl⟩ := ok_getPool.mp hpool
    rcases Tx.aborts_bind.mp h1 with h0 | ⟨token, t1, htoken, h2⟩
    · exact absurd he (never_getUsdcToken h0)
    obtain ⟨htoken, rfl⟩ := ok_getUsdcToken.mp htoken
    rw [Tx.aborts_bind_of_ok (ok_ledgerSequence.mpr ⟨rfl, rfl⟩)] at h2
    obtain ⟨ttl, httl⟩ : ∃ ttl, getApprovalTtlInternal.Ok env t1 ttl t1 :=
      ⟨_, Tx.ok_bind.mpr ⟨_, _, Tx.ok_get.mpr ⟨rfl, rfl⟩, Tx.ok_pure.mpr ⟨rfl, rfl⟩⟩⟩
    rw [Tx.aborts_bind_of_ok httl] at h2
    rcases Tx.aborts_bind.mp h2 with h0 | ⟨u, t2, happrove, h3⟩
    · exact absurd he (never_approve h0)
    obtain ⟨hs, hd1, hgranted, hothers⟩ := approve_ok happrove
    have hpool2 : t2.deployment.pool venue = some pool := by rw [hs.pool, hpool]
    have htoken2 : t2.usdcToken = some token := by rw [hs.usdcToken, htoken]
    rw [Tx.aborts_bind_of_ok (ok_vaultBalance.mpr ⟨rfl, rfl⟩)] at h3
    rcases Tx.aborts_bind.mp h3 with h0 | ⟨u', t3, hcall, h4⟩
    · exact absurd he (never_callPool h0)
    obtain ⟨reply, hleg, -⟩ := callPool_ok hpool2 htoken2 (fun _ => hgranted) hcall
    obtain ⟨pool', -, hanswer⟩ := hleg.answered
    have hheld2 : 0 ≤ t2.position venue := by
      rw [hs.position]
      exact hheld
    have hmoved : reply.moved = amount :=
      (hpools _ _ ⟨hpos, hheld2⟩ (by rintro ⟨⟩) hanswer).moved
    have hsupplied : i128.saturatingSub (t2.chain.balances token t2.self)
        (t3.chain.balances token t3.self) = amount := by
      have htoken3 : t3.usdcToken = some token := by rw [hleg.frame.usdcToken, htoken2]
      have hidle : t3.idle = t2.idle - reply.moved := hleg.idle
      rw [← idle_eq htoken2, ← idle_eq htoken3]
      have hdiff : t2.idle - t3.idle = amount := by omega
      unfold Format.saturatingSub
      rw [hdiff]
      exact saturate_of_fits htyped
    rw [Tx.aborts_bind_of_ok (ok_vaultBalance.mpr ⟨rfl, rfl⟩), hsupplied] at h4
    rcases Tx.aborts_bind.mp h4 with h0 | ⟨u'', t4, -, h5⟩
    · exact (aborts_requireMinOut.mp h0).1.2
    have hrest : Never VaultError.IsMinOut (do
        Tx.onlyIf (0 < amount) (setCurrentProtocol venue.protocol)
        publish (.supply venue token amount (0 < amount))
        pure amount : Contract Int) :=
      .bind (.onlyIf never_setCurrentProtocol) fun _ => .bind never_publish fun _ => .pure _
    exact absurd he (hrest h5)

/-! ## Full exits -/

theorem rejects_exit (hpaying : env.PayingPools) (htoken : w.usdcToken = some token)
    (htyped : i128.Fits (w.position venue))
    (hmark : w.deployment.currentProtocol = venue.protocol) :
    Rejects (withdrawFromProtocol venue.protocol minOut) env w ↔ w.Short venue minOut := by
  rw [← rejects_withdrawAll hpaying htoken htyped]
  unfold withdrawFromProtocol
  rw [Rejects.of_ok (Tx.ok_get.mpr ⟨rfl, rfl⟩), if_pos hmark]
  cases venue with
  | blend => exact Iff.rfl
  | dex => exact Iff.rfl

/-- In multi-protocol mode Blend is left first, and only a configured pool can be left. -/
theorem rejects_exit_multi (hpaying : env.PayingPools) (htoken : w.usdcToken = some token)
    (htyped : ∀ v, i128.Fits (w.position v)) (hmark : w.deployment.currentProtocol = .multi) :
    Rejects (withdrawFromProtocol .multi minOut) env w ↔
      w.Short .blend minOut ∨ (w.deployment.pool .blend).isSome ∧ w.Short .dex minOut := by
  have hrest : ∀ {b d : Int}, Never VaultError.IsMinOut (do
      let after ← syncDeployedSplit
      setCurrentProtocol (deriveProtocolSummary after.1 after.2)
      pure (i128.saturatingAdd b d) : Contract Int) := fun {_ _} =>
    .bind never_syncDeployedSplit fun _ => .bind never_setCurrentProtocol fun _ => .pure _
  have hsecond : ∀ {b : Int} {t : World}, (withdrawFromVenue .blend 0 minOut).Ok env w b t →
      (Rejects (do
        let dex ← withdrawFromDex 0 minOut
        let after ← syncDeployedSplit
        setCurrentProtocol (deriveProtocolSummary after.1 after.2)
        pure (i128.saturatingAdd b dex) : Contract Int) env t ↔ w.Short .dex minOut) := by
    intro b t hok
    have hposition : t.position .dex = w.position .dex :=
      withdrawFromVenue_elsewhere (by decide) hok
    have htoken' : t.usdcToken = some token := by
      rw [(movesFunds_withdrawFromVenue hok).poolStep.usdcToken, htoken]
    have hshort : t.Short .dex minOut ↔ w.Short .dex minOut := by
      unfold World.Short
      rw [hposition]
    rw [← hshort, ← rejects_withdrawAll hpaying htoken' (hposition ▸ htyped .dex)]
    constructor
    · rintro ⟨e, h, he⟩
      rcases Tx.aborts_bind.mp h with h1 | ⟨d, t1, -, h2⟩
      · exact ⟨e, h1, he⟩
      · exact absurd he (hrest h2)
    · rintro ⟨e, h, he⟩
      exact ⟨e, Tx.aborts_bind.mpr (.inl h), he⟩
  unfold withdrawFromProtocol
  rw [Rejects.of_ok (Tx.ok_get.mpr ⟨rfl, rfl⟩), if_pos hmark]
  constructor
  · rintro ⟨e, h, he⟩
    rcases Tx.aborts_bind.mp h with h1 | ⟨b, t, hok, h2⟩
    · exact .inl ((rejects_withdrawAll hpaying htoken (htyped .blend)).mp ⟨e, h1, he⟩)
    · obtain ⟨pool, t0, hpool, -⟩ := Tx.ok_bind.mp hok
      refine .inr ⟨?_, (hsecond hok).mp ⟨e, h2, he⟩⟩
      rw [(ok_getPool.mp hpool).1]
      rfl
  · intro hshort
    by_cases hblend : w.Short .blend minOut
    · obtain ⟨e, h, he⟩ := (rejects_withdrawAll hpaying htoken (htyped .blend)).mpr hblend
      exact ⟨e, Tx.aborts_bind.mpr (.inl h), he⟩
    · obtain ⟨hpool, hdex⟩ := hshort.resolve_left hblend
      obtain ⟨b, t, hok⟩ := withdrawAll_passes hpaying htoken hpool (htyped .blend) hblend
      exact (Rejects.of_ok hok).mpr ((hsecond hok).mpr hdex)

/-- What an exit brought back is enough for the way in. -/
theorem resupply_not_rejected (hpools : env.HonestPools) (hpaying : env.PayingPools)
    (htoken : w.usdcToken = some token) (htyped : ∀ v, i128.Fits (w.position v))
    (hexit : (withdrawFromProtocol w.deployment.currentProtocol minOut).Ok env w x t) :
    ¬ Rejects (resupply w.deployment.currentProtocol x minOut) env t := by
  unfold resupply
  by_cases hx : 0 < x
  · rw [if_pos hx]
    have hvenue : ∀ v : Venue, w.deployment.currentProtocol = v.protocol →
        ¬ Rejects (do let _ ← supplyToVenue v x minOut : Contract Unit) env t := by
      rintro v hmark ⟨e, h, he⟩
      rw [hmark] at hexit
      have hshort : ¬ w.Short v minOut := by
        intro hshort
        obtain ⟨e', h', -⟩ := (rejects_exit hpaying htoken (htyped v) hmark).mpr hshort
        exact hexit.not_aborts h'
      rcases withdrawAll_of_honest hpools (withdrawFromProtocol_venue hmark hexit) with
        ⟨-, rfl, -⟩ | ⟨hpos, hmoved, -, hgone, -⟩
      · exact absurd hx (lt_irrefl 0)
      · rw [saturate_of_fits (htyped v)] at hmoved
        rcases Tx.aborts_bind.mp h with h1 | ⟨s, t1, -, h2⟩
        · have hfits : i128.Fits x := hmoved ▸ htyped v
          have hfloor := (supply_rejected hpools hgone.ge hfits h1 he).2
          exact hshort ⟨hpos, hmoved ▸ hfloor⟩
        · exact absurd h2 Tx.aborts_pure
    cases hmark : w.deployment.currentProtocol with
    | blend => exact hvenue .blend hmark
    | dex => exact hvenue .dex hmark
    | none => exact Rejects.not_of_never (.pure _)
    | multi => exact Rejects.not_of_never (.pure _)
    | other => exact Rejects.not_of_never (.pure _)
  · rw [if_neg hx]
    exact Rejects.not_of_never (.pure _)

/-! ## Harvests -/

/-- Nothing but the floor can turn a harvest away: the vault is live, an agent has signed, the
    marker is set, the cooldown is over, a call is left in the window, and the pools take and pay
    what they are asked for. -/
structure World.MayHarvest (env : Env) (w : World) : Prop where
  initialized : w.Initialized
  live : w.breaker.paused = false
  signed : ∃ a, w.Accepts a ∧ a ∈ env.auths
  active : ∃ v, w.deployment.currentProtocol.names v = true
  cooldown : w.CooldownElapsed
  allowance : (w.rateLimit .rebalance).maxCalls ≠ 0 →
    (w.running none .rebalance).calls < (w.rateLimit .rebalance).maxCalls
  honest : env.HonestPools
  paying : env.PayingPools
  typed : ∀ v, i128.Fits (w.position v)

/-- The floor is no more than what any leg finds. In multi-protocol mode the call ends before the
    second leg where Blend has no pool. -/
structure World.MeetsFloor (w : World) (minOut : Int) : Prop where
  nonneg : 0 ≤ minOut
  covered : (w.deployment.currentProtocol = .multi → (w.deployment.pool .blend).isSome) →
    ∀ v, w.deployment.currentProtocol.names v = true → 0 < w.position v → minOut ≤ w.position v

theorem rejects_withdrawFromProtocol (hpaying : env.PayingPools)
    (htoken : w.usdcToken = some token) (htyped : ∀ v, i128.Fits (w.position v))
    (hfloor : 0 ≤ minOut) (hactive : ∃ v, w.deployment.currentProtocol.names v = true) :
    Rejects (withdrawFromProtocol w.deployment.currentProtocol minOut) env w ↔
      ¬ w.MeetsFloor minOut := by
  have hmeets : w.MeetsFloor minOut ↔
      ((w.deployment.currentProtocol = .multi → (w.deployment.pool .blend).isSome) →
        ∀ v, w.deployment.currentProtocol.names v = true → ¬ w.Short v minOut) := by
    constructor
    · rintro h hblend v hv ⟨hpos, hshort⟩
      exact absurd (h.covered hblend v hv hpos) (not_le.mpr hshort)
    · intro h
      refine ⟨hfloor, fun hblend v hv hpos => ?_⟩
      by_contra hshort
      exact h hblend v hv ⟨hpos, not_le.mp hshort⟩
  rw [hmeets]
  have hsingle : ∀ v : Venue, w.deployment.currentProtocol = v.protocol →
      (Rejects (withdrawFromProtocol w.deployment.currentProtocol minOut) env w ↔
        ¬ ((w.deployment.currentProtocol = .multi → (w.deployment.pool .blend).isSome) →
          ∀ v, w.deployment.currentProtocol.names v = true → ¬ w.Short v minOut)) := by
    intro v hmark
    have hnames : ∀ v', w.deployment.currentProtocol.names v' = true ↔ v' = v := by
      intro v'
      rw [hmark]
      cases v <;> cases v' <;> decide
    have hmulti : w.deployment.currentProtocol ≠ .multi := by
      rw [hmark]
      cases v <;> decide
    have hexit : Rejects (withdrawFromProtocol w.deployment.currentProtocol minOut) env w ↔
        w.Short v minOut := by
      rw [hmark]
      exact rejects_exit hpaying htoken (htyped v) hmark
    rw [hexit]
    constructor
    · intro hshort h
      exact h (fun hm => absurd hm hmulti) v ((hnames v).mpr rfl) hshort
    · intro h
      by_contra hshort
      refine h fun _ v' hv' => ?_
      rw [(hnames v').mp hv']
      exact hshort
  cases hmark : w.deployment.currentProtocol with
  | blend => exact hmark ▸ hsingle .blend hmark
  | dex => exact hmark ▸ hsingle .dex hmark
  | multi =>
    rw [rejects_exit_multi hpaying htoken htyped hmark]
    constructor
    · rintro (hshort | ⟨hpool, hshort⟩) h
      · refine h (fun _ => ?_) .blend rfl hshort
        by_contra hnone
        have hzero := position_unset (Option.not_isSome_iff_eq_none.mp hnone)
        exact absurd hshort.1 (by omega)
      · exact h (fun _ => hpool) .dex rfl hshort
    · intro h
      by_contra hshort
      rw [not_or, not_and] at hshort
      refine h fun hpool v _ => ?_
      cases v with
      | blend => exact hshort.1
      | dex => exact hshort.2 (hpool rfl)
  | none =>
    obtain ⟨v, hv⟩ := hactive
    rw [hmark] at hv
    cases v <;> cases hv
  | other =>
    obtain ⟨v, hv⟩ := hactive
    rw [hmark] at hv
    cases v <;> cases hv

/-- Behind its checks a harvest is turned away on its way out or not at all. -/
theorem rejects_trip {event : Protocol → Int → Event} (hpools : env.HonestPools)
    (hpaying : env.PayingPools) (htoken : w.usdcToken = some token)
    (htyped : ∀ v, i128.Fits (w.position v)) :
    Rejects (do
      let withdrawn ← withdrawFromProtocol w.deployment.currentProtocol minOut
      resupply w.deployment.currentProtocol withdrawn minOut
      publish (event w.deployment.currentProtocol withdrawn)
      recordRebalanceLedger : Contract Unit) env w ↔
      Rejects (withdrawFromProtocol w.deployment.currentProtocol minOut) env w := by
  constructor
  · rintro ⟨e, h, he⟩
    rcases Tx.aborts_bind.mp h with h1 | ⟨x, t, hexit, h2⟩
    · exact ⟨e, h1, he⟩
    · rcases Tx.aborts_bind.mp h2 with h3 | ⟨_, t1, -, h4⟩
      · exact absurd ⟨e, h3, he⟩ (resupply_not_rejected hpools hpaying htoken htyped hexit)
      · have hrest : Never VaultError.IsMinOut (do
            publish (event w.deployment.currentProtocol x)
            recordRebalanceLedger : Contract Unit) :=
          .bind never_publish fun _ => never_recordRebalanceLedger
        exact absurd he (hrest h4)
  · rintro ⟨e, h, he⟩
    exact ⟨e, Tx.aborts_bind.mpr (.inl h), he⟩

theorem enforceRebalanceLimit_passes
    (hallowance : (w.rateLimit .rebalance).maxCalls ≠ 0 →
      (w.running none .rebalance).calls < (w.rateLimit .rebalance).maxCalls) :
    ∃ b, (enforceGlobalRateLimit .rebalance).Ok env w () { w with buckets := b } := by
  by_cases henabled : (w.rateLimit .rebalance).maxCalls = 0
  · refine ⟨w.buckets, ?_⟩
    simp only [enforceGlobalRateLimit, enforceRateLimit, Tx.ok_bind, ok_getRateLimitConfigInternal,
      Tx.ok_get, Tx.ok_ite, Tx.ok_pure, existsAndEq, and_assoc, true_and, henabled]
    exact ⟨rfl, .inl trivial⟩
  · exact ⟨_, (ok_enforceRateLimit rfl henabled).mpr ⟨hallowance henabled, rfl⟩⟩

/-- A harvest that nothing else turns away is turned away by the floor exactly when some leg finds
    less than it. -/
theorem rejects_harvest (h : w.MayHarvest env) :
    Rejects (invoke (.harvest minOut)) env w ↔ ¬ w.MeetsFloor minOut := by
  have hentered : (invoke (.harvest minOut)) = (modify World.entered >>= fun _ => do
      requireInitialized
      requireNotPaused
      requireIsAgent
      harvestRoundTrip minOut .harvest : Contract Unit) := rfl
  have hactive : w.entered.deployment.currentProtocol ≠ .none := by
    obtain ⟨v, hv⟩ := h.active
    intro hnone
    have hnone' : w.deployment.currentProtocol = .none := hnone
    rw [hnone'] at hv
    cases v <;> cases hv
  have hinitialized : requireInitialized.Ok env w.entered () w.entered :=
    ok_requireInitialized.mpr ⟨h.initialized, rfl⟩
  have hlive : requireNotPaused.Ok env w.entered () w.entered :=
    ok_requireNotPaused.mpr ⟨h.live, rfl⟩
  have hagent : requireIsAgent.Ok env w.entered () w.entered :=
    ok_requireIsAgent.mpr ⟨⟨h.initialized, h.signed⟩, rfl⟩
  have hstart : (modify World.entered : Contract Unit).Ok env w () w.entered :=
    Tx.ok_modify.mpr rfl
  rw [hentered, Rejects.of_ok hstart, Rejects.of_ok hinitialized,
    Rejects.of_ok hlive, Rejects.of_ok hagent]
  unfold harvestRoundTrip
  by_cases hfloor : 0 ≤ minOut
  · obtain ⟨b, hcharged⟩ : ∃ b, (enforceGlobalRateLimit .rebalance).Ok env w.entered ()
        { w.entered with buckets := b } := enforceRebalanceLimit_passes h.allowance
    obtain ⟨token, htoken⟩ := Option.isSome_iff_exists.mp h.initialized.2.1
    have hcooldown : requireCooldownElapsed.Ok env w.entered () w.entered :=
      ok_requireCooldownElapsed.mpr ⟨h.cooldown, rfl⟩
    have hnonneg : (Tx.require (0 ≤ minOut) .minOutMustBeNonNegative : Contract Unit).Ok env
        w.entered () w.entered := Tx.ok_require.mpr ⟨hfloor, rfl⟩
    have hmarked : (Tx.require (w.entered.deployment.currentProtocol ≠ .none)
        .unsupportedProtocol : Contract Unit).Ok env w.entered () w.entered :=
      Tx.ok_require.mpr ⟨hactive, rfl⟩
    rw [Rejects.of_ok hnonneg, Rejects.of_ok hcooldown, Rejects.of_ok (Tx.ok_get.mpr ⟨rfl, rfl⟩),
      Rejects.of_ok hmarked, Rejects.of_ok hcharged]
    have hmeets : World.MeetsFloor { w.entered with buckets := b } minOut ↔ w.MeetsFloor minOut :=
      ⟨fun hm => ⟨hm.nonneg, hm.covered⟩, fun hm => ⟨hm.nonneg, hm.covered⟩⟩
    refine (rejects_trip (w := { w.entered with buckets := b }) h.honest h.paying htoken
      h.typed).trans ?_
    rw [← hmeets]
    exact rejects_withdrawFromProtocol (w := { w.entered with buckets := b }) h.paying htoken
      h.typed hfloor h.active
  · refine ⟨fun _ hmeets => hfloor hmeets.nonneg, fun _ => ?_⟩
    refine ⟨.minOutMustBeNonNegative, ?_, by decide⟩
    exact Tx.aborts_bind.mpr (.inl (Tx.aborts_require.mpr ⟨hfloor, rfl⟩))

end NeuroWealth.Vault
