import NeuroWealth.Vault.Proofs.MarkerCallsProofs

/-!
# The venue marker

`CurrentProtocol` tells where the funds are in every run through tame pools: outside
multi-protocol mode only the venue it names has a position.
-/

namespace NeuroWealth.Vault

open Transaction MachineInt SharePool

variable {env : Env} {w w0 w' : World} {call : Call} {user : Address} {amount burned : Int}

/-- Pools are tame, positions only drift between the legs, and no pool is replaced. -/
def Step.KeepsPositions (w : World) : Step → Prop
  | .call env call => env.TamePools ∧ env.TargetDrifts w.self ∧ (Step.call env call).KeepsPools w
  | .ambient chain => w.chain.Drifts w.self chain

/-- No pool has a position for the vault yet. -/
def World.NeverDeployed (w : World) : Prop := ∀ v p, w.chain.positions v p w.self = 0

/-! ## Pieces of calls -/

theorem World.Truthful.of_same (h : w.Truthful) (hself : w'.self = w.self)
    (hdeployment : w'.deployment = w.deployment)
    (hpositions : w'.chain.positions = w.chain.positions) : w'.Truthful := by
  have hposition : ∀ v, w'.position v = w.position v := fun v => by
    unfold World.position
    rw [hdeployment, hpositions, hself]
  refine ⟨⟨fun v p => ?_, fun v p hp => ?_⟩, ?_⟩
  · rw [hpositions, hself]
    exact h.nonneg v p
  · rw [hpositions, hself]
    rw [hdeployment] at hp
    exact h.unconfigured v p hp
  · rw [hdeployment]
    exact h.marker.of_positions hposition

/-- Positions that are zero stay so when they drift. -/
theorem World.Truthful.of_drifts {chain : Chain} (h : w.Truthful)
    (hdrifts : w.chain.Drifts w.self chain) : World.Truthful { w with chain := chain } := by
  have hzero : ∀ v p, w.chain.positions v p w.self = 0 → chain.positions v p w.self = 0 := by
    intro v p hz
    rcases hdrifts v p with hsame | ⟨hpos, -⟩
    · rw [hsame, hz]
    · omega
  refine ⟨⟨fun v p => ?_, fun v p hp => hzero v p (h.unconfigured v p hp)⟩, h.marker.known, ?_⟩
  · have hnonneg := h.nonneg v p
    show 0 ≤ chain.positions v p w.self
    rcases hdrifts v p with hsame | ⟨-, hle⟩
    · rwa [hsame]
    · omega
  · intro hmulti v hv
    have hposition := h.marker.exclusive hmulti v hv
    obtain hpool | ⟨p, hpool⟩ := Option.eq_none_or_eq_some (w.deployment.pool v)
    · exact position_unset hpool
    · have hnew : World.position { w with chain := chain } v = chain.positions v p w.self :=
        position_eq hpool
      rw [position_eq hpool] at hposition
      rw [hnew, hzero v p hposition]

/-- A venue may be pointed at its first pool. -/
theorem World.Truthful.setPool {venue : Venue} {pool : Address} (h : w.Truthful)
    (hkeeps : ∀ p, w.deployment.pool venue = some p → p = pool) :
    World.Truthful { w with deployment := w.deployment.setPool venue pool } := by
  have hpool : ∀ v p, (w.deployment.setPool venue pool).pool v ≠ some p →
      w.deployment.pool v ≠ some p := by
    intro v p hp hold
    apply hp
    show (if v = venue then some pool else w.deployment.pool v) = some p
    by_cases hv : v = venue
    · rw [if_pos hv]
      rw [hv] at hold
      rw [hkeeps p hold]
    · rw [if_neg hv, hold]
  refine ⟨⟨h.nonneg, fun v p hp => h.unconfigured v p (hpool v p hp)⟩, ?_⟩
  apply h.marker.of_positions
  intro v
  by_cases hv : v = venue
  · have hnew : World.position { w with deployment := w.deployment.setPool venue pool } venue =
        w.chain.positions venue pool w.self := position_eq (if_pos rfl)
    rw [hv, hnew]
    cases hold : w.deployment.pool venue with
    | some p => rw [position_eq hold, hkeeps p hold]
    | none =>
      have hzero : w.position venue = 0 := by simp only [World.position, hold]
      rw [hzero]
      apply h.unconfigured
      rw [hold]
      simp
  · have hsame : (w.deployment.setPool venue pool).pool v = w.deployment.pool v := if_neg hv
    unfold World.position
    simp only [hsame]

/-- The vault stays, and so does the truth of its marker. -/
structure KeepsMarker (w w' : World) : Prop where
  self : w'.self = w.self
  truthful : w.Truthful → w'.Truthful

theorem KeepsMarker.of_same (hself : w'.self = w.self) (hdeployment : w'.deployment = w.deployment)
    (hpositions : w'.chain.positions = w.chain.positions) : KeepsMarker w w' :=
  ⟨hself, fun h => h.of_same hself hdeployment hpositions⟩

theorem KeepsMarker.trans {t : World} (h1 : KeepsMarker w t) (h2 : KeepsMarker t w') :
    KeepsMarker w w' :=
  ⟨h2.self.trans h1.self, h2.truthful ∘ h1.truthful⟩

theorem markerFrame {vault : Address} (hpools : env.TamePools) :
    CallFrame env fun w w' => w.self = vault → KeepsMarker w w' where
  trans h1 h2 hself := (h1 hself).trans (h2 ((h1 hself).self.trans hself))
  quiet h _ := .of_same h.self h.deployment (by rw [h.chain])
  pulled h _ := ⟨h.poolStep.self, fun hw => h.truthful hw hpools⟩
  accounting h _ := .of_same h.self h.deployment (by rw [h.chain])
  locks _ _ _ := .of_same rfl rfl rfl
  paid _ h _ := .of_same h.self h.deployment h.positions

theorem TargetCalled.keepsMarker {target : Address}
    (h : TargetCalled env w w' target user amount) (htarget : env.TargetDrifts w.self) :
    KeepsMarker w w' := by
  obtain ⟨chain, hchain, hq⟩ := h.frame
  have hdrifts : w.chain.Drifts w.self chain := htarget _ _ _ _ _ hchain
  refine ⟨hq.self, fun hw => ?_⟩
  exact (hw.of_drifts hdrifts).of_same hq.self hq.deployment (by rw [hq.chain])

theorem AssetPayout.keepsMarker {token : Address} {owed actual : Int}
    (h : AssetPayout env w w' user token owed actual) (hpools : env.TamePools) :
    KeepsMarker w w' := by
  obtain ⟨t0, t1, t2, hq, hsource, hbook, hpaid⟩ := h.steps
  have hpull : KeepsMarker t0 t1 := by
    rcases hsource with ⟨-, -, rfl⟩ | ⟨-, hneeded, -⟩
    · exact .of_same rfl rfl rfl
    · exact ⟨(Pulled.poolStep (.inr ⟨_, hneeded⟩)).self, fun hw => hneeded.truthful hw hpools⟩
  have h0 : KeepsMarker w t0 := .of_same hq.self hq.deployment (by rw [hq.chain])
  have h2 : KeepsMarker t1 t2 := .of_same hbook.self hbook.deployment (by rw [hbook.chain])
  have h3 : KeepsMarker t2 w' := .of_same hpaid.self hpaid.deployment hpaid.positions
  exact (h0.trans hpull).trans (h2.trans h3)

/-! ## Calls -/

/-- Calls that move funds through the pools. -/
theorem truthful_of_movesFunds {u : Unit} (hw : w.Truthful) (hpools : env.TamePools)
    (hmoves : call.movesFunds = true) (h : call.run.Ok env w u w') : w'.Truthful := by
  cases call
  case rebalance => exact (rebalance_truthful hw hpools h).1
  case rebalanceMulti => exact rebalanceMulti_truthful hw hpools h
  case enableMultiProtocol => exact enableMultiProtocol_truthful hw h
  case harvest =>
    simp only [Call.run, harvest, Tx.ok_bind, ok_requireInitialized, ok_requireNotPaused,
      existsAndEq, exists_const, and_assoc, true_and] at h
    obtain ⟨-, -, _, t0, hagent, htrip⟩ := h
    obtain rfl : t0 = w := unchanged_requireIsAgent hagent
    exact harvestRoundTrip_truthful hw hpools (fun _ _ => rfl) htrip
  case emergencyHarvest =>
    simp only [Call.run, emergencyHarvest, Tx.ok_bind, ok_requireInitialized, ok_getOwnerInternal,
      ok_requireOwnerArg, existsAndEq, exists_const, and_assoc, true_and] at h
    obtain ⟨-, owner, -, -, -, -, htrip⟩ := h
    exact harvestRoundTrip_truthful hw hpools (fun _ _ => rfl) htrip
  all_goals cases hmoves

theorem truthful_run {u : Unit} (hi : w.Initialized) (hw : w.Truthful) (hpools : env.TamePools)
    (htarget : call.isMigration = true → env.TargetDrifts w.self)
    (hkeeps : (Step.call env call).KeepsPools w) (h : call.run.Ok env w u w') : w'.Truthful := by
  by_cases hmoves : call.movesFunds = true
  · exact truthful_of_movesFunds hw hpools hmoves h
  have heffect := effect_of_run hi h
  by_cases hplain : call.isPlain = true
  · have hkept : w.self = w.self → KeepsMarker w w' := by
      refine (markerFrame hpools).effect (fun hmig _ _ _ _ _ hcalled hself => ?_)
        (fun hyes => absurd hyes hmoves) heffect hplain
      exact hcalled.keepsMarker (hself ▸ htarget hmig)
    exact (hkept rfl).truthful hw
  cases heffect with
  | depositAsset _ _ hq hpaid hbook =>
    have h1 := hw.of_same hq.self hq.deployment (by rw [hq.chain])
    have h2 := h1.of_same hpaid.self hpaid.deployment hpaid.positions
    exact h2.of_same hbook.self hbook.deployment (by rw [hbook.chain])
  | withdrawAsset _ hpay => exact (hpay.keepsMarker hpools).truthful hw
  | setVenuePool hq =>
    exact (hw.setPool hkeeps).of_same hq.self hq.deployment (by rw [hq.chain])
  | assets _ hbook => exact hw.of_same hbook.self hbook.deployment (by rw [hbook.chain])
  | quiet _ hq => exact hw.of_same hq.self hq.deployment (by rw [hq.chain])
  | funds hyes _ => exact absurd hyes hmoves
  | _ => exact absurd rfl hplain

theorem truthful_after (step : Step) (hi : w.Initialized) (hw : w.Truthful)
    (hstep : step.KeepsPositions w) : (w.after step).Truthful := by
  refine after_cases (P := World.Truthful) step hi hw ?_ ?_
  · rintro env call w' rfl hok _
    have hentered : w.entered.Truthful := hw.of_same rfl rfl rfl
    obtain ⟨hpools, htarget, hkeeps⟩ := hstep
    exact truthful_run (w := w.entered) hi hentered hpools (fun _ => htarget) hkeeps
      (ok_invoke.mp hok)
  · rintro chain rfl
    exact hw.of_drifts hstep

theorem World.Opened.truthful (h0 : w0.Opened) (hnone : w0.NeverDeployed) : w0.Truthful := by
  have hdeployment := h0.fresh.deployment
  have hun : w0.Undeployed := fun v => by
    unfold World.position
    rw [hdeployment]
  refine ⟨⟨fun v p => (hnone v p).ge, fun v p _ => hnone v p⟩, ?_⟩
  rw [hdeployment]
  exact hun.describes fun _ => Protocol.noConfusion

theorem truthful_of_reaches (h0 : w0.Opened) (hnone : w0.NeverDeployed)
    (h : Reaches (fun t step => step.KeepsPositions t) w0 w) : w.Truthful ∧ w.Initialized :=
  h.invariant h0 (h0.truthful hnone) fun _ step hstep hi hw => truthful_after step hi hw hstep

/-- In every run through tame pools the marker describes the positions; and a rebalance to a
    single protocol leaves funds in one venue at most, unless it could not leave multi-protocol
    mode and said so. -/
theorem marker_truthful (h0 : w0.Opened) (hnone : w0.NeverDeployed)
    (h : Reaches (fun t step => step.KeepsPositions t) w0 w) :
    ((w.deployment.currentProtocol = .none → w.position .blend = 0 ∧ w.position .dex = 0) ∧
      (w.deployment.currentProtocol = .blend → w.position .dex = 0) ∧
      (w.deployment.currentProtocol = .dex → w.position .blend = 0)) ∧
    ∀ env protocol apy minOut w', env.TamePools →
      (invoke (.rebalance protocol apy minOut)).Ok env w () w' →
        (w'.position .blend = 0 ∨ w'.position .dex = 0) ∨
          w.deployment.currentProtocol = .multi ∧ .rebalanceFailed .multi ∈ w'.events := by
  obtain ⟨hw, -⟩ := truthful_of_reaches h0 hnone h
  refine ⟨⟨fun hmark => ?_, fun hmark => ?_, fun hmark => ?_⟩, ?_⟩
  · exact ⟨hw.undeployed hmark .blend, hw.undeployed hmark .dex⟩
  · have honly : w.OnlyAt .blend := hw.onlyAt hmark
    exact honly .dex (by decide)
  · have honly : w.OnlyAt .dex := hw.onlyAt hmark
    exact honly .blend (by decide)
  · intro env protocol apy minOut w' hpools hok
    have hentered : w.entered.Truthful := hw.of_same rfl rfl rfl
    rcases (rebalance_truthful hentered hpools (ok_invoke.mp hok)).2 with ⟨v, honly⟩ | hfailed
    · cases v with
      | blend => exact .inl (.inr (honly .dex (by decide)))
      | dex => exact .inl (.inl (honly .blend (by decide)))
    · exact .inr hfailed

namespace Sample

theorem opened_neverDeployed : opened.NeverDeployed := by
  intro v p
  rfl

/-- Alice's five USDC are spread over both pools in equal parts. -/
def spread : List Step :=
  [.call tame (.deposit alice 5000000), .call tame (.setVenuePool .blend owner blendPool),
    .call tame (.setVenuePool .dex owner dexPool), .call tame (.enableMultiProtocol true),
    .call tame (.rebalanceMulti 5000 5000 0)]

/-- Alice's five USDC lie in Blend. -/
def inBlend : World :=
  opened.replay [.call tame (.deposit alice 5000000),
    .call tame (.setVenuePool .blend owner blendPool), .call tame (.rebalance .blend 0 0)]

theorem spread_reached : Reaches (fun t step => step.KeepsPositions t) opened
    (opened.replay spread) := by
  refine .of_admits ⟨⟨tame_tamePools, tame_targetDrifts, trivial⟩, ⟨tame_tamePools,
    tame_targetDrifts, ?_⟩, ⟨tame_tamePools, tame_targetDrifts, ?_⟩, ⟨tame_tamePools,
    tame_targetDrifts, trivial⟩, ⟨tame_tamePools, tame_targetDrifts, trivial⟩, trivial⟩
  · intro p hp
    cases hp
  · intro p hp
    cases hp

theorem spread_truthful :
    (opened.replay spread).position .blend = 2500000 ∧
      (((opened.replay spread).deployment.currentProtocol = .none →
          (opened.replay spread).position .blend = 0 ∧ (opened.replay spread).position .dex = 0) ∧
        ((opened.replay spread).deployment.currentProtocol = .blend →
          (opened.replay spread).position .dex = 0) ∧
        ((opened.replay spread).deployment.currentProtocol = .dex →
          (opened.replay spread).position .blend = 0)) ∧
      ∀ env protocol apy minOut w', env.TamePools →
        (invoke (.rebalance protocol apy minOut)).Ok env (opened.replay spread) () w' →
          (w'.position .blend = 0 ∨ w'.position .dex = 0) ∨
            (opened.replay spread).deployment.currentProtocol = .multi ∧
              .rebalanceFailed .multi ∈ w'.events :=
  ⟨by decide +kernel, marker_truthful opened_opened opened_neverDeployed spread_reached⟩

/-- A rebalance to Blend that no pool pays for succeeds and leaves both positions. -/
theorem rebalance_leaves_two :
    opened.Opened ∧ opened.NeverDeployed ∧ drained.TamePools ∧
      Reaches (fun t step => step.KeepsPositions t) opened (opened.replay spread) ∧
      (invoke (.rebalance .blend 0 0)).Ok drained (opened.replay spread) ()
        ((opened.replay spread).after (.call drained (.rebalance .blend 0 0))) ∧
      ((opened.replay spread).after (.call drained (.rebalance .blend 0 0))).position .blend =
        2500000 ∧
      ((opened.replay spread).after (.call drained (.rebalance .blend 0 0))).position .dex =
        2500000 :=
  ⟨opened_opened, opened_neverDeployed, drained_tamePools, spread_reached,
    ok_after (by decide +kernel), by decide +kernel, by decide +kernel⟩

end Sample

end NeuroWealth.Vault
