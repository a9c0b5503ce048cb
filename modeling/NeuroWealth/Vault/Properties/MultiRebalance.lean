import NeuroWealth.Vault.Proofs.MultiRebalanceProofs
import NeuroWealth.Vault.Properties.VenueMarker

/-!
# Convergence of a multi-protocol rebalance

`rebalance_multi` withdraws and supplies only what is there, and funds stay the vault's. With pools
that answer to the letter the positions are the targets afterwards, and a second call has nothing
to do.
-/

namespace NeuroWealth.Vault

open Transaction MachineInt

variable {env : Env} {w w' t : World} {venue : Venue} {kind : LegKind}
variable {asked minOut amount blendTarget dexTarget : Int} {blendBps dexBps : Nat} {l : MultiLegs}

/-! ## Assumptions and vocabulary -/

/-- The funds a leg draws on. -/
def LegKind.stock (kind : LegKind) (w : World) (venue : Venue) : Int :=
  match kind with
  | .supply => w.idle
  | .withdraw => w.position venue

/-- Legs that ask for no more than there is, and code that moves no funds. -/
inductive CoveredMove (env : Env) : World → World → Prop
  | settled {w w' : World} (h : Settled w w') : CoveredMove env w w'
  | leg {w w' : World} {kind : LegKind} {venue : Venue} {asked minOut : Int} {reply : PoolReply}
      (hpos : 0 < asked) (hcovered : asked ≤ kind.stock w venue)
      (h : Leg kind env w w' venue asked minOut reply) : CoveredMove env w w'
  | trans {w t w' : World} (h1 : CoveredMove env w t) (h2 : CoveredMove env t w') :
      CoveredMove env w w'

/-- The venues a marker names. -/
def Protocol.names : Protocol → Venue → Bool
  | .blend, .blend => true
  | .dex, .dex => true
  | .multi, _ => true
  | _, _ => false

theorem names_deriveProtocolSummary :
    (deriveProtocolSummary (w.position .blend) (w.position .dex)).names venue = true ↔
      0 < w.position venue := by
  unfold deriveProtocolSummary
  cases venue with
  | blend => split_ifs <;> simp_all [Protocol.names]
  | dex => split_ifs <;> simp_all [Protocol.names]

/-- The funds of `w` are spread by a split: each venue has its part, rounded down, the rest is idle
    and the marker names the funded venues. -/
structure Allocated (w w' : World) (blendBps dexBps : Nat) : Prop where
  total : w.deployable = min i128.greatest w.backing
  blend : w'.position .blend = w.deployable * blendBps / 10000
  dex : w'.position .dex = w.deployable * dexBps / 10000
  idle : w'.idle = w.backing - w'.position .blend - w'.position .dex
  marker : ∀ v, w'.deployment.currentProtocol.names v = true ↔ 0 < w'.position v

/-- A further call with the same split, by the same signers and after the cooldown, succeeds,
    reaches no pool and reports that there was nothing to do. -/
def RepeatsIdly (env : Env) (w : World) (blendBps dexBps : Nat) : Prop :=
  ∀ env' chain minOut, env'.auths = env.auths → 0 ≤ minOut →
    World.idle { w with chain := chain } = w.idle →
    (∀ v, World.position { w with chain := chain } v = w.position v) →
    World.CooldownElapsed { w with chain := chain } →
    ∃ w', (invoke (.rebalanceMulti blendBps dexBps minOut)).Ok env' { w with chain := chain } () w' ∧
      w'.legs = 0 ∧ w'.idle = w.idle ∧ (∀ v, w'.position v = w.position v) ∧
      ∃ apy, .rebalance .multi apy .noop 0 0 0 0 ∈ w'.events

/-- Funds changed places between the idle balance and one venue. -/
structure Shifted (kind : LegKind) (w w' : World) (venue : Venue) (amount : Int) : Prop where
  idle : w'.idle = w.idle - kind.taken amount
  position : w'.position venue = w.position venue + kind.taken amount
  elsewhere : ∀ v, v ≠ venue → w'.position v = w.position v

theorem Shifted.backing (h : Shifted kind w w' venue amount) : w'.backing = w.backing := by
  have hidle := h.idle
  have hposition := h.position
  unfold World.backing
  cases venue with
  | blend =>
    have hother := h.elsewhere .dex (by decide)
    omega
  | dex =>
    have hother := h.elsewhere .blend (by decide)
    omega

/-! ## One leg -/

/-- A covered leg of a metered pool. -/
theorem AtMostLeg.metered (h : AtMostLeg kind env w w' venue asked minOut amount)
    (hpools : env.MeteredPools) (hcovered : 0 < asked → asked ≤ kind.stock w venue) :
    CoveredMove env w w' ∧ Shifted kind w w' venue amount ∧ 0 ≤ amount ∧ amount ≤ max asked 0 ∧
      i128.saturate amount = amount := by
  rcases h.made with ⟨hnone, rfl, rfl⟩ | ⟨hpos, hfits, reply, hleg, rfl⟩
  · refine ⟨.settled (settled.refl env _), ⟨?_, ?_, fun _ _ => rfl⟩, le_rfl, le_max_right _ _, ?_⟩
    · cases kind <;> simp [LegKind.taken]
    · cases kind <;> simp [LegKind.taken]
    · exact saturate_of_fits (by decide)
  · have hle := hcovered hpos
    obtain ⟨pool, -, hanswer⟩ := hleg.answered
    obtain ⟨hnonneg, hmost, hposition⟩ := hpools _ _ hpos (by rintro rfl; exact hle) hanswer
    have hmost' : reply.moved ≤ asked := hmost
    refine ⟨.leg hpos hle hleg, ⟨hleg.idle, ?_, hleg.elsewhere⟩, hnonneg, by omega, ?_⟩
    · rw [hleg.position]
      exact hposition
    · exact saturate_of_fits (fits_of_le hnonneg hmost' hfits)

/-- A covered leg of an honest pool. -/
theorem AtMostLeg.honest (h : AtMostLeg kind env w w' venue asked minOut amount)
    (hpools : env.HonestPools) (hheld : 0 ≤ w.position venue)
    (hcovered : 0 < asked → asked ≤ kind.stock w venue) :
    Shifted kind w w' venue (max asked 0) ∧ amount = max asked 0 ∧
      i128.saturate amount = amount := by
  rcases h.made with ⟨hnone, rfl, rfl⟩ | ⟨hpos, hfits, reply, hleg, rfl⟩
  · rw [max_eq_right hnone]
    refine ⟨⟨?_, ?_, fun _ _ => rfl⟩, rfl, saturate_of_fits (by decide)⟩
    · cases kind <;> simp [LegKind.taken]
    · cases kind <;> simp [LegKind.taken]
  · have hle := hcovered hpos
    obtain ⟨pool, -, hanswer⟩ := hleg.answered
    obtain ⟨hmoved, hposition⟩ := hpools _ _ ⟨hpos, hheld⟩ (by rintro rfl; exact hle) hanswer
    have hmoved' : reply.moved = asked := hmoved
    rw [max_eq_left hpos.le, ← hmoved']
    refine ⟨⟨hleg.idle, ?_, hleg.elsewhere⟩, rfl, ?_⟩
    · rw [hleg.position]
      exact hposition
    · rw [hmoved']
      exact saturate_of_fits hfits

/-! ## The four legs -/

/-- The legs withdraw no more than the positions and supply no more than is idle at their turn. -/
theorem MultiRun.metered (h : MultiRun env w w' blendTarget dexTarget minOut l)
    (hpools : env.MeteredPools) (hblend : 0 ≤ blendTarget) (hdex : 0 ≤ dexTarget) :
    CoveredMove env w w' ∧ w'.backing = w.backing := by
  obtain ⟨t1, t2, t3, m1, m2, m3, m4, h1, h2, h3, h4, -⟩ := h
  obtain ⟨hc1, hs1, -, -, -⟩ := h1.metered hpools fun _ => by
    show _ ≤ w.position .blend
    omega
  obtain ⟨hc2, hs2, -, -, -⟩ := h2.metered hpools fun _ => by
    show _ ≤ t1.position .dex
    omega
  obtain ⟨hc3, hs3, hnonneg, hmost, hexact⟩ := h3.metered hpools fun _ => min_le_right _ _
  rw [hexact] at h4
  have hidle : t3.idle = t2.idle - m3 := hs3.idle
  obtain ⟨hc4, hs4, -, -, -⟩ := h4.metered hpools fun hpos => by
    show _ ≤ t3.idle
    have hleft : 0 < i128.saturatingSub t2.idle m3 := lt_of_lt_of_le hpos (min_le_right _ _)
    have hle : i128.saturatingSub t2.idle m3 ≤ t2.idle - m3 :=
      saturate_le ((saturate_pos (by decide)).mp hleft).le
    omega
  refine ⟨(hc1.trans hc2).trans (hc3.trans hc4), ?_⟩
  rw [hs4.backing, hs3.backing, hs2.backing, hs1.backing]

/-- Legs that move exactly what they ask for do not count as failed. -/
theorem multiStatus_of_exact {a1 a2 a3 a4 : Int} (h1 : 0 ≤ a1) (h2 : 0 ≤ a2) (h3 : 0 ≤ a3)
    (h4 : 0 ≤ a4) (hl : l = ⟨(a1, a1), (a2, a2), (a3, a3), (a4, a4)⟩) :
    multiStatus l.attempted l.moved ≠ .failed := by
  have hgreatest : 0 < i128.greatest := by decide
  have h01 : 0 ≤ i128.saturatingAdd 0 a1 := saturatingAdd_nonneg le_rfl h1
  have h03 : 0 ≤ i128.saturatingAdd 0 a3 := saturatingAdd_nonneg le_rfl h3
  have h34 : 0 ≤ i128.saturatingAdd (i128.saturatingAdd 0 a3) a4 := saturatingAdd_nonneg h03 h4
  have h12 : 0 ≤ i128.saturatingAdd (i128.saturatingAdd 0 a1) a2 := saturatingAdd_nonneg h01 h2
  have hnothing : l.moved = 0 → l.attempted = 0 := by
    subst hl
    intro hmoved
    change i128.saturatingAdd (i128.saturatingAdd (i128.saturatingAdd 0 a3) a4)
      (i128.saturatingAdd (i128.saturatingAdd 0 a1) a2) = 0 at hmoved
    simp only [saturatingAdd_eq_zero hgreatest, h01, h03, h12, h34, h1, h2, h3, h4, le_refl,
      true_and] at hmoved
    obtain ⟨⟨rfl, rfl⟩, rfl, rfl⟩ := hmoved
    rfl
  unfold multiStatus
  split_ifs with hnone hfailed hpart
  · decide
  · exact absurd (hnothing hfailed) hnone
  · decide
  · decide

/-- Targets that are not below zero and together not above the funds are met. -/
theorem MultiRun.honest (h : MultiRun env w w' blendTarget dexTarget minOut l)
    (hpools : env.HonestPools) (hidle : 0 ≤ w.idle) (hheld : ∀ v, 0 ≤ w.position v)
    (hblend : 0 ≤ blendTarget) (hdex : 0 ≤ dexTarget) (hfits : dexTarget ≤ i128.greatest)
    (hsum : blendTarget + dexTarget ≤ w.backing) :
    w'.position .blend = blendTarget ∧ w'.position .dex = dexTarget ∧ w'.backing = w.backing ∧
      multiStatus l.attempted l.moved ≠ .failed := by
  obtain ⟨t1, t2, t3, m1, m2, m3, m4, h1, h2, h3, h4, hl⟩ := h
  have hheld_blend := hheld .blend
  have hheld_dex := hheld .dex
  unfold World.backing at hsum
  -- the venues above their targets come down to them
  obtain ⟨hs1, rfl, he1⟩ := h1.honest hpools hheld_blend fun _ => by
    show _ ≤ w.position .blend
    omega
  have hblend1 : t1.position .blend = w.position .blend + -max _ 0 := hs1.position
  have hidle1 : t1.idle = w.idle - -max _ 0 := hs1.idle
  have hdex1 : t1.position .dex = w.position .dex := hs1.elsewhere .dex (by decide)
  obtain ⟨hs2, rfl, he2⟩ := h2.honest hpools (by omega) fun _ => by
    show _ ≤ t1.position .dex
    omega
  have hblend2 : t2.position .blend = t1.position .blend := hs2.elsewhere .blend (by decide)
  have hidle2 : t2.idle = t1.idle - -max _ 0 := hs2.idle
  have hdex2 : t2.position .dex = t1.position .dex + -max _ 0 := hs2.position
  -- what is idle then covers what the other venues miss
  obtain ⟨hs3, rfl, he3⟩ := h3.honest hpools (by omega) fun _ => min_le_right _ _
  have hblend3 : t3.position .blend = t2.position .blend + max _ 0 := hs3.position
  have hidle3 : t3.idle = t2.idle - max _ 0 := hs3.idle
  have hdex3 : t3.position .dex = t2.position .dex := hs3.elsewhere .dex (by decide)
  have hleft : i128.saturatingSub t2.idle (max (min (blendTarget - t2.position .blend) t2.idle) 0) =
      min i128.greatest t3.idle := by
    rw [hidle3]
    exact saturate_of_nonneg (by omega)
  rw [he3, hleft] at h4 hl
  obtain ⟨hs4, rfl, he4⟩ := h4.honest hpools (by omega) fun _ => by
    show _ ≤ t3.idle
    omega
  have hblend4 : w'.position .blend = t3.position .blend := hs4.elsewhere .blend (by decide)
  have hdex4 : w'.position .dex = t3.position .dex + max _ 0 := hs4.position
  rw [he1, he2, he4] at hl
  refine ⟨by omega, by omega, ?_, multiStatus_of_exact (le_max_right _ _) (le_max_right _ _)
    (le_max_right _ _) (le_max_right _ _) hl⟩
  rw [hs4.backing, hs3.backing, hs2.backing, hs1.backing]

/-! ## The whole call -/

/-- The call's own sum of the funds. -/
theorem deployable_eq (hidle : 0 ≤ w.idle) (hheld : ∀ v, 0 ≤ w.position v) :
    w.deployable = min i128.greatest w.backing := by
  have hblend := hheld .blend
  have hdex := hheld .dex
  have hgreatest := i128.greatest_nonneg
  have hsum : i128.saturatingAdd w.idle (w.position .blend) =
      min i128.greatest (w.idle + w.position .blend) := saturate_of_nonneg (by omega)
  unfold World.deployable World.backing
  rw [hsum]
  unfold Format.saturatingAdd
  rw [saturate_of_nonneg (by omega)]
  omega

/-- A call on positions that are the targets moves nothing. -/
theorem rebalanceMulti_level (hmay : w.entered.MayRebalanceMulti env blendBps dexBps minOut)
    (hfits : 0 < w.deployable →
      i128.Fits (w.deployable * blendBps) ∧ i128.Fits (w.deployable * dexBps))
    (hblend : w.position .blend = bpsShare w.deployable blendBps)
    (hdex : w.position .dex = bpsShare w.deployable dexBps) :
    ∃ w', (invoke (.rebalanceMulti blendBps dexBps minOut)).Ok env w () w' ∧ w'.legs = 0 ∧
      w'.idle = w.idle ∧ (∀ v, w'.position v = w.position v) ∧
      ∃ apy, .rebalance .multi apy .noop 0 0 0 0 ∈ w'.events := by
  obtain ⟨token, htoken⟩ := Option.isSome_iff_exists.mp hmay.initialized.2.1
  have hlegs : (multiLegs blendBps dexBps minOut).Ok env w.entered
      ⟨(0, 0), (0, 0), (0, 0), (0, 0)⟩ w.entered := multiLegs_level htoken hfits hblend hdex
  obtain ⟨u, w', hrecord⟩ := @multiRecord_succeeds env w.entered blendBps dexBps token w.entered
    ⟨(0, 0), (0, 0), (0, 0), (0, 0)⟩ htoken (by decide)
  have hrecorded := multiRecord_ok hrecord
  refine ⟨w', ok_invoke.mpr ?_, hrecorded.settled.legs, hrecorded.settled.idle,
    fun v => hrecorded.settled.position, hrecorded.announced⟩
  show (rebalanceMulti blendBps dexBps minOut).Ok env w.entered () w'
  rw [rebalanceMulti_eq]
  exact Tx.ok_bind.mpr ⟨w.entered, w.entered, ok_multiChecks.mpr ⟨⟨hmay, rfl⟩, rfl⟩,
    Tx.ok_bind.mpr ⟨_, w.entered, hlegs, hrecord⟩⟩

/-- Unless it failed, a call may be made again once the cooldown is over. -/
theorem mayRebalanceMulti_again {env' : Env} {chain : Chain} {minOut' : Int}
    (hmay : w.MayRebalanceMulti env blendBps dexBps minOut)
    (hrun : MultiRun env w t blendTarget dexTarget minOut l) (hinterim : Interim w t)
    (hrecorded : MultiRecorded t w' l) (hroles : w'.roles = w.roles)
    (hstatus : multiStatus l.attempted l.moved ≠ .failed) (hauths : env'.auths = env.auths)
    (hfloor : 0 ≤ minOut') (hcooldown : World.CooldownElapsed { w' with chain := chain }) :
    (World.entered { w' with chain := chain }).MayRebalanceMulti env' blendBps dexBps minOut' := by
  have hframe : PoolStep w w' :=
    poolStep.trans (r := env) hrun.frame hrecorded.settled.toPoolStep
  have hpool : w'.deployment.pool = w.deployment.pool := hframe.pool
  constructor
  · exact hframe.initialized hmay.initialized
  · show w'.breaker.paused = false
    rw [hrecorded.concluded.breaker, Breaker.record_paused hstatus, hinterim.parts.2.2]
    exact hmay.live
  · obtain ⟨a, ha, hsigned⟩ := hmay.signed
    refine ⟨a, ?_, hauths ▸ hsigned⟩
    unfold World.Accepts at ha ⊢
    rwa [← hroles] at ha
  · show w'.deployment.multiProtocolEnabled = true
    rw [hrecorded.enabled, hrun.enabled, hmay.enabled]
  · exact hmay.split
  · exact hfloor
  · exact hcooldown
  · show ¬ (_ ∧ w'.deployment.pool .blend = none)
    rw [hpool]
    exact hmay.blendPool
  · show ¬ (_ ∧ w'.deployment.pool .dex = none)
    rw [hpool]
    exact hmay.dexPool

/-- Where the positions are the targets and the call may be made again, it has nothing to do. -/
theorem repeatsIdly_of_level
    (hmay : ∀ env' chain minOut', env'.auths = env.auths → 0 ≤ minOut' →
      World.CooldownElapsed { w with chain := chain } →
      (World.entered { w with chain := chain }).MayRebalanceMulti env' blendBps dexBps minOut')
    (hfits : 0 < w.deployable →
      i128.Fits (w.deployable * blendBps) ∧ i128.Fits (w.deployable * dexBps))
    (hblend : w.position .blend = bpsShare w.deployable blendBps)
    (hdex : w.position .dex = bpsShare w.deployable dexBps) :
    RepeatsIdly env w blendBps dexBps := by
  intro env' chain minOut' hauths hfloor hidle hposition hcooldown
  have hsame : World.deployable { w with chain := chain } = w.deployable := by
    unfold World.deployable
    rw [hidle, hposition, hposition]
  obtain ⟨w', hok, hlegs, hidle', hposition', hnoop⟩ := rebalanceMulti_level
    (hmay env' chain minOut' hauths hfloor hcooldown) (by rw [hsame]; exact hfits)
    (by rw [hsame, hposition]; exact hblend) (by rw [hsame, hposition]; exact hdex)
  exact ⟨w', hok, hlegs, hidle'.trans hidle, fun v => (hposition' v).trans (hposition v), hnoop⟩

/-- A multi-protocol rebalance asks for no more than there is and keeps the funds, through pools
    that move at most what they are asked for. Through pools that move just that the positions are
    the targets afterwards and the marker names the funded venues; and once the cooldown is over a
    second call with the same split moves nothing and says so. -/
theorem rebalanceMulti_converges
    (h : (invoke (.rebalanceMulti blendBps dexBps minOut)).Ok env w () w') :
    (env.MeteredPools → CoveredMove env w.entered w' ∧ w'.backing = w.backing) ∧
    (env.HonestPools → 0 ≤ w.idle → (∀ v, 0 ≤ w.position v) →
      Allocated w w' blendBps dexBps ∧ RepeatsIdly env w' blendBps dexBps) := by
  have hroles : w'.roles = w.roles :=
    writes_rebalanceMulti (S := [.breaker, .lastRebalance]) (.head _) (.tail _ (.head _))
      (ok_invoke.mp h) .roles (by decide)
  obtain ⟨hmay, t, l, hlegs, hrecorded⟩ := rebalanceMulti_steps (ok_invoke.mp h)
  obtain ⟨hfits, hrun⟩ := multiLegs_ok hlegs
  have hbacking : w'.backing = t.backing := by
    unfold World.backing
    rw [hrecorded.settled.idle, hrecorded.settled.position, hrecorded.settled.position]
  refine ⟨fun hpools => ?_, fun hpools hidle hheld => ?_⟩
  · obtain ⟨hcovered, hkept⟩ := hrun.metered hpools bpsShare_nonneg bpsShare_nonneg
    exact ⟨hcovered.trans (.settled hrecorded.settled), hbacking.trans hkept⟩
  · have hsum : w.deployable = min i128.greatest w.backing := deployable_eq hidle hheld
    have hnonneg : 0 ≤ w.deployable := saturate_nonneg (add_nonneg
      (saturatingAdd_nonneg hidle (hheld .blend)) (hheld .dex))
    have hparts : bpsShare w.deployable blendBps + bpsShare w.deployable dexBps ≤ w.deployable :=
      bpsShare_add_le hnonneg hmay.add_le
    have hblend_nonneg : 0 ≤ bpsShare w.deployable blendBps := bpsShare_nonneg
    have hdex_nonneg : 0 ≤ bpsShare w.deployable dexBps := bpsShare_nonneg
    obtain ⟨hblend, hdex, hkept, hstatus⟩ := hrun.honest hpools hidle hheld hblend_nonneg
      hdex_nonneg (by change bpsShare w.deployable dexBps ≤ _; omega)
      (by change bpsShare w.deployable blendBps + bpsShare w.deployable dexBps ≤ w.backing; omega)
    rw [← hrecorded.settled.position] at hblend hdex
    change w'.position .blend = bpsShare w.deployable blendBps at hblend
    change w'.position .dex = bpsShare w.deployable dexBps at hdex
    have hkept' : w'.backing = w.backing := hbacking.trans hkept
    refine ⟨⟨hsum, hblend.trans (bpsShare_eq hnonneg), hdex.trans (bpsShare_eq hnonneg), ?_, ?_⟩, ?_⟩
    · unfold World.backing at hkept' ⊢
      omega
    · intro v
      rw [hrecorded.marker]
      exact names_deriveProtocolSummary
    · have hless : w.deployable ≤ w.backing := hsum ▸ min_le_right _ _
      have hidle' : 0 ≤ w'.idle := by
        rw [← hkept'] at hless
        unfold World.backing at hless
        omega
      have hheld' : ∀ v, 0 ≤ w'.position v := by
        intro v
        cases v with
        | blend => omega
        | dex => omega
      have hagain : w'.deployable = w.deployable := by
        rw [deployable_eq hidle' hheld', hkept', hsum]
      apply repeatsIdly_of_level
      · intro env' chain minOut' hauths hfloor hcooldown
        exact mayRebalanceMulti_again hmay hrun (interim_multiLegs hlegs) hrecorded hroles hstatus
          hauths hfloor hcooldown
      · rw [hagain]
        exact hfits
      · rw [hagain, hblend]
      · rw [hagain, hdex]

namespace Sample

/-- Alice's five USDC are idle, and both pools are configured. -/
def twoPools : World := opened.replay
  [.call tame (.deposit alice 5000000), .call tame (.setVenuePool .blend owner blendPool),
    .call tame (.setVenuePool .dex owner dexPool), .call tame (.enableMultiProtocol true)]

theorem twoPools_converge :
    (CoveredMove tame twoPools.entered (twoPools.after (.call tame (.rebalanceMulti 3333 6666 0))) ∧
      (twoPools.after (.call tame (.rebalanceMulti 3333 6666 0))).backing = twoPools.backing) ∧
    Allocated twoPools (twoPools.after (.call tame (.rebalanceMulti 3333 6666 0))) 3333 6666 ∧
    RepeatsIdly tame (twoPools.after (.call tame (.rebalanceMulti 3333 6666 0))) 3333 6666 := by
  have hok : (invoke (.rebalanceMulti 3333 6666 0)).Ok tame twoPools ()
      (twoPools.after (.call tame (.rebalanceMulti 3333 6666 0))) := ok_after (by decide +kernel)
  obtain ⟨hmetered, hhonest⟩ := rebalanceMulti_converges hok
  refine ⟨hmetered tame_meteredPools, hhonest tame_honestPools (by decide +kernel) fun v => ?_⟩
  cases v with
  | blend => decide +kernel
  | dex => decide +kernel

end Sample

end NeuroWealth.Vault
