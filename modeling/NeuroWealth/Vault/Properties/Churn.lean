import NeuroWealth.Vault.Proofs.HistoriesProofs
import NeuroWealth.Vault.Proofs.RateLimitsProofs

/-!
# Protocol churn

The calls that move USDC through the pools share a cooldown and a rate-limit bucket. Both hold as
long as no rebalance is abandoned and the multi-protocol rebalance, which spends nothing, is not
used.
-/

namespace NeuroWealth.Vault

open Transaction MachineInt RateWindow

variable {env : Env} {w w' w0 : World} {step : Step} {steps : List Step} {m M W : ℕ}

/-- Calls that move USDC through the pools on behalf of everybody. -/
def Call.churns : Call → Bool
  | .rebalance .. => true
  | .rebalanceMulti .. => true
  | .harvest .. => true
  | .emergencyHarvest .. => true
  | _ => false

/-- The step is a successful call of these. -/
def Step.churns (w : World) : Step → Bool
  | .call env c => c.churns && (invoke c).succeeds env w
  | .ambient _ => false

/-- The ledgers of the churning calls of a history, oldest first. -/
def churnLedgers (past : List (World × Step)) : List ℕ :=
  (past.filter fun e => e.2.churns e.1).map fun e => e.1.chain.sequence

/-- Steps under a cooldown of `m` and an allowance of `M` calls in `W` ledgers, both unchanged,
    that neither abandon a rebalance nor use the multi-protocol one. -/
structure Step.GuardedChurn (m M W : ℕ) (w : World) (step : Step) : Prop where
  cooldown : w.limits.minRebalanceInterval = some m
  allowance : w.rateLimit .rebalance = ⟨M, W⟩
  kept : ∀ maxCalls windowLedgers, ¬ step.Performs w (.setRateLimit .rebalance maxCalls windowLedgers)
  single : ∀ blendBps dexBps minOut, ¬ step.Performs w (.rebalanceMulti blendBps dexBps minOut)
  exits : ∀ env protocol expectedApy minOut,
    step = .call env (.rebalance protocol expectedApy minOut) → env.HonoursExits

/-- The shared bucket, as a window. -/
def World.rebalanceWindow (w : World) : Option Window :=
  (w.buckets.state none .rebalance).map fun s => ⟨s.windowStart, s.calls⟩

/-! ## One step -/

/-- A churning call waits for the cooldown, records its ledger and spends one call. -/
structure ChurnStep (m M W : ℕ) (w w' : World) : Prop where
  waited : ∀ last, w.limits.lastRebalanceLedger = some last → last + m ≤ w.chain.sequence
  recorded : w'.limits.lastRebalanceLedger = some w.chain.sequence
  allowed : (current W w.chain.sequence w.rebalanceWindow).calls < M
  spent : w'.rebalanceWindow = some (current W w.chain.sequence w.rebalanceWindow).spend

/-- A charge of the shared bucket spends one call of the window. -/
theorem Charged.spend {t : World} (h : Charged w t none .rebalance)
    (hlimit : w.rateLimit .rebalance = ⟨M, W⟩) (hM : 0 < M) (hmax : M ≤ 4294967295) :
    (current W w.chain.sequence w.rebalanceWindow).calls < M ∧
      t.rebalanceWindow = some (current W w.chain.sequence w.rebalanceWindow).spend := by
  obtain ⟨hcalls, hbucket⟩ := h.bucket (by rw [hlimit]; exact hM.ne')
  rw [hlimit] at hcalls hbucket
  have hbelow : (currentWindow ⟨M, W⟩ w.chain.sequence
      (w.buckets.state none .rebalance)).calls < M := hcalls
  have hwindow := currentWindow_eq ⟨M, W⟩ w.chain.sequence (w.buckets.state none .rebalance)
  have hcurrent : current W w.chain.sequence w.rebalanceWindow = _ := hwindow
  rw [hcurrent]
  refine ⟨hcalls, ?_⟩
  unfold World.rebalanceWindow
  rw [hbucket]
  have hsum : saturatingAddU32 (currentWindow ⟨M, W⟩ w.chain.sequence
      (w.buckets.state none .rebalance)).calls 1 = _ := Nat.min_eq_left (by omega)
  rw [hsum]
  rfl

theorem waited_of_cooldownElapsed (h : w.CooldownElapsed)
    (hm : w.limits.minRebalanceInterval = some m) (hpos : 0 < m) :
    ∀ last, w.limits.lastRebalanceLedger = some last → last + m ≤ w.chain.sequence := by
  intro last hlast
  have hle := h m last hm hlast hpos
  omega

/-- A call that concludes, or a harvest: charged first, and recorded at the end. -/
theorem churnStep_of_charged {t : World} (hinterval : w.limits.minRebalanceInterval = some m)
    (hallowance : w.rateLimit .rebalance = ⟨M, W⟩) (hm : 0 < m) (hM : 0 < M) (hmax : M ≤ 4294967295) (hcooldown : w.CooldownElapsed)
    (hcharged : Charged w t none .rebalance) (hbuckets : w'.buckets = t.buckets)
    (hrecorded : w'.limits.lastRebalanceLedger = some t.chain.sequence) :
    ChurnStep m M W w w' := by
  obtain ⟨hallowed, hspent⟩ := hcharged.spend hallowance hM hmax
  refine ⟨waited_of_cooldownElapsed hcooldown hinterval hm, ?_, hallowed, ?_⟩
  · rw [hrecorded, hcharged.sequence]
  · unfold World.rebalanceWindow at hspent ⊢
    rw [hbuckets]
    exact hspent

theorem churnStep_of_invoke {call : Call} (hguarded : (Step.call env call).GuardedChurn m M W w)
    (hm : 0 < m) (hM : 0 < M) (hmax : M ≤ 4294967295) (hchurns : call.churns = true)
    (hok : (invoke call).succeeds env w = true) :
    ChurnStep m M W w (w.after (.call env call)) := by
  have hrun := ok_invoke.mp (ok_after hok)
  generalize w.after (.call env call) = w' at hrun
  have hend : ∀ t, w.entered.CooldownElapsed → Charged w.entered t none .rebalance →
      w'.buckets = t.buckets → w'.limits.lastRebalanceLedger = some t.chain.sequence →
      ChurnStep m M W w w' := by
    intro t hcooldown hcharged hbuckets hrecorded
    have h : ChurnStep m M W w.entered w' := churnStep_of_charged hguarded.cooldown
      hguarded.allowance hm hM hmax hcooldown hcharged hbuckets hrecorded
    exact ⟨h.waited, h.recorded, h.allowed, h.spent⟩
  cases call
  case rebalance protocol apy minOut =>
    obtain ⟨-, hcooldown, t, hcharged, ⟨status, hc⟩ | ⟨-, hpools⟩⟩ := rebalance_ok hrun
    · exact hend t hcooldown hcharged hc.buckets hc.lastRebalance
    · exact absurd (hguarded.exits env protocol apy minOut rfl) hpools
  case rebalanceMulti => exact absurd ⟨env, rfl, hok⟩ (hguarded.single _ _ _)
  case harvest =>
    obtain ⟨hcooldown, t, hcharged, hbuckets, hrecorded⟩ := harvest_ok hrun
    exact hend t hcooldown hcharged hbuckets hrecorded
  case emergencyHarvest =>
    obtain ⟨hcooldown, t, hcharged, hbuckets, hrecorded⟩ := emergencyHarvest_ok hrun
    exact hend t hcooldown hcharged hbuckets hrecorded
  all_goals cases hchurns

/-- Other steps leave the recorded ledger and the shared bucket alone. -/
theorem kept_of_not_churns (hi : w.Initialized) (hguarded : step.GuardedChurn m M W w)
    (hno : step.churns w = false) :
    (w.after step).limits.lastRebalanceLedger = w.limits.lastRebalanceLedger ∧
      (w.after step).rebalanceWindow = w.rebalanceWindow := by
  have hquiet : ∀ call, step.Performs w call →
      .lastRebalance ∉ call.writes ∧ .rebalanceBucket ∉ call.writes := by
    rintro call ⟨env, rfl, hok⟩
    have hnot : call.churns = false := by
      rw [Step.churns, hok, Bool.and_true] at hno
      exact hno
    cases call
    case initializeVault => exact absurd (ok_invoke.mp (ok_after hok)) (not_initializeVault_ok hi)
    case setRateLimit category _ _ =>
      have hne : category ≠ .rebalance := by
        rintro rfl
        exact hguarded.kept _ _ ⟨env, rfl, hok⟩
      simp [Call.writes, hne]
    all_goals first
      | (simp [Call.writes]; done)
      | cases hnot
  have hlast : Part.lastRebalance.Same w (w.after step) :=
    same_after step fun call hperforms => (hquiet call hperforms).1
  have hbucket : Part.rebalanceBucket.Same w (w.after step) :=
    same_after step fun call hperforms => (hquiet call hperforms).2
  refine ⟨hlast, ?_⟩
  unfold World.rebalanceWindow
  rw [show (w.after step).buckets.state none .rebalance = _ from hbucket]

/-! ## Runs -/

theorem churnLedgers_concat {past : List (World × Step)} :
    churnLedgers (past ++ [(w, step)]) =
      churnLedgers past ++ if step.churns w = true then [w.chain.sequence] else [] := by
  unfold churnLedgers
  rw [List.filter_append, List.map_append]
  by_cases hchurns : step.churns w = true
  · simp [hchurns]
  · simp [hchurns]

/-- The churning calls so far keep their distance and were admitted by the bucket. -/
structure ChurnTracked (m M W : ℕ) (s : Option Window) (past : List (World × Step)) (w : World) :
    Prop where
  initialized : w.Initialized
  spaced : (churnLedgers past).Pairwise fun a b => a + m ≤ b
  last : churnLedgers past = [] ∨ ∃ last, w.limits.lastRebalanceLedger = some last ∧
    ∀ n ∈ churnLedgers past, n ≤ last
  admitted : Admitted M W s (churnLedgers past) w.rebalanceWindow
  charged : ∀ e ∈ past, e.2.churns e.1 = true → ChurnStep m M W e.1 (e.1.after e.2)

theorem ChurnTracked.after {s : Option Window} {past : List (World × Step)}
    (h : ChurnTracked m M W s past w) (hm : 0 < m) (hM : 0 < M) (hmax : M ≤ 4294967295)
    (step : Step) (hguarded : step.GuardedChurn m M W w) :
    ChurnTracked m M W s (past ++ [(w, step)]) (w.after step) := by
  have hi := (anchored_after step h.initialized).initialized h.initialized
  by_cases hchurns : step.churns w = true
  · have hstep : ChurnStep m M W w (w.after step) := by
      cases step with
      | ambient chain => cases hchurns
      | call env call =>
        obtain ⟨hcall, hok⟩ := Bool.and_eq_true_iff.mp hchurns
        exact churnStep_of_invoke hguarded hm hM hmax hcall hok
    have hledgers : churnLedgers (past ++ [(w, step)]) = churnLedgers past ++ [w.chain.sequence] := by
      rw [churnLedgers_concat, if_pos hchurns]
    have hbefore : ∀ n ∈ churnLedgers past, n + m ≤ w.chain.sequence := by
      intro n hn
      rcases h.last with hempty | ⟨last, hlast, hle⟩
      · rw [hempty] at hn
        cases hn
      · have hwaited := hstep.waited last hlast
        have hnle := hle n hn
        omega
    refine ⟨hi, ?_, .inr ⟨w.chain.sequence, hstep.recorded, ?_⟩, ?_, ?_⟩
    · rw [hledgers]
      refine List.pairwise_append.mpr ⟨h.spaced, List.pairwise_singleton _ _, ?_⟩
      intro n hn k hk
      rw [List.mem_singleton.mp hk]
      exact hbefore n hn
    · rw [hledgers]
      intro n hn
      rcases List.mem_append.mp hn with hn | hn
      · have hle := hbefore n hn
        omega
      · exact (List.mem_singleton.mp hn).le
    · rw [hledgers, hstep.spent]
      refine h.admitted.call ?_ hstep.allowed
      intro n hn
      have hle := hbefore n hn
      omega
    · intro e he hce
      rcases List.mem_append.mp he with he | he
      · exact h.charged e he hce
      · rw [List.mem_singleton.mp he]
        exact hstep
  · obtain ⟨hlast, hwindow⟩ := kept_of_not_churns h.initialized hguarded
      (Bool.eq_false_of_not_eq_true hchurns)
    have hledgers : churnLedgers (past ++ [(w, step)]) = churnLedgers past := by
      rw [churnLedgers_concat, if_neg hchurns, List.append_nil]
    refine ⟨hi, ?_, ?_, ?_, ?_⟩
    · rw [hledgers]
      exact h.spaced
    · rw [hledgers, hlast]
      exact h.last
    · rw [hledgers, hwindow]
      exact h.admitted
    · intro e he hce
      rcases List.mem_append.mp he with he | he
      · exact h.charged e he hce
      · rw [List.mem_singleton.mp he] at hce
        exact absurd hce hchurns

/-- In every guarded run from a reachable state the churning calls are `m` ledgers apart, each of
    them spends one call of the shared bucket, and no `W` ledgers hold more than `2 * M` of them. -/
theorem churn_guarded (h0 : w0.Opened) (hreach : Reaches (fun _ _ => True) w0 w) (hm : 0 < m)
    (hM : 0 < M) (hmax : M ≤ 4294967295)
    (h : Admits (fun t step => step.GuardedChurn m M W t) w steps) :
    ((churnLedgers (w.history steps)).Pairwise fun a b => a + m ≤ b) ∧
      (∀ e ∈ w.history steps, e.2.churns e.1 = true →
        (current W e.1.chain.sequence e.1.rebalanceWindow).calls < M ∧
          (e.1.after e.2).rebalanceWindow =
            some (current W e.1.chain.sequence e.1.rebalanceWindow).spend) ∧
      ∀ n, countFrom W n (churnLedgers (w.history steps)) ≤ 2 * M := by
  obtain ⟨-, hi⟩ := hreach.invariant (P := fun _ => True) h0 trivial fun _ _ _ _ _ => trivial
  have hfirst : ChurnTracked m M W w.rebalanceWindow [] w :=
    ⟨hi, .nil, .inl rfl, .nil, fun _ he => absurd he List.not_mem_nil⟩
  have htracked : ChurnTracked m M W w.rebalanceWindow (w.history steps) (w.replay steps) :=
    h.invariant (P := ChurnTracked m M W w.rebalanceWindow) hfirst
      fun _ _ step hguarded htracked => htracked.after hm hM hmax step hguarded
  refine ⟨htracked.spaced, ?_, htracked.admitted.countFrom_le⟩
  intro e he hchurns
  have hstep := htracked.charged e he hchurns
  exact ⟨hstep.allowed, hstep.spent⟩

namespace Sample

/-- A cooldown of ten ledgers, a Blend pool and a deposit. -/
def churning : World :=
  opened.replay [.call honest (.setRebalanceCooldown 10),
    .call honest (.setVenuePool .blend owner blendPool), .call honest (.deposit alice 5000000)]

theorem churning_reached : Reaches (fun _ _ => True) opened churning :=
  .of_admits ⟨trivial, trivial, trivial, trivial⟩

def deployToBlend : Step := .call honest (.rebalance .blend 500 0)

/-- Ten ledgers later. -/
def tenLater : Step := .ambient { (churning.after deployToBlend).chain with sequence := 1010 }

theorem honest_exits : honest.HonoursExits := by
  intro c r hkind hamount hreply
  simp only [honest, hkind, Option.some.injEq] at hreply
  subst hreply
  show c.position - c.amount ≤ 0
  omega

/-- The funds are deployed and harvested ten ledgers later. -/
def paced : List Step := [deployToBlend, tenLater, .call honest (.harvest 0)]

theorem paced_guarded :
    churnLedgers (churning.history paced) = [1000, 1010] ∧
      ∀ n, countFrom 720 n (churnLedgers (churning.history paced)) ≤ 2 * 100 := by
  have hrun : Admits (fun t step => step.GuardedChurn 10 100 720 t) churning paced := by
    refine ⟨⟨by decide +kernel, by decide +kernel, ?_, ?_, ?_⟩,
      ⟨by decide +kernel, by decide +kernel, ?_, ?_, ?_⟩,
      ⟨by decide +kernel, by decide +kernel, ?_, ?_, ?_⟩, trivial⟩
    · rintro _ _ ⟨_, hstep, -⟩
      cases hstep
    · rintro _ _ _ ⟨_, hstep, -⟩
      cases hstep
    · intro env protocol apy minOut hstep
      cases hstep
      exact honest_exits
    · rintro _ _ ⟨_, hstep, -⟩
      cases hstep
    · rintro _ _ _ ⟨_, hstep, -⟩
      cases hstep
    · intro env protocol apy minOut hstep
      cases hstep
    · rintro _ _ ⟨_, hstep, -⟩
      cases hstep
    · rintro _ _ _ ⟨_, hstep, -⟩
      cases hstep
    · intro env protocol apy minOut hstep
      cases hstep
  obtain ⟨-, -, hcount⟩ := churn_guarded opened_opened churning_reached (by decide) (by decide)
    (by decide) hrun
  exact ⟨by decide +kernel, hcount⟩

/-- Pools that pay a thousand units of whatever they are asked for. -/
def stingy : Env :=
  { honest with pool := fun c => match c.kind with
      | .supply => some ⟨c.amount, c.position + c.amount⟩
      | .withdraw => some ⟨1000, c.position - 1000⟩ }

/-- An exit that stays incomplete. -/
def leaveBlend : Step := .call stingy (.rebalance .none 500 0)

/-- The vault before two such exits at one ledger. -/
def waiting : World := churning.replay [deployToBlend, tenLater]

/-- Multi-protocol mode is on. -/
def splitting : World := churning.after (.call honest (.enableMultiProtocol true))

def deploySplit : Step := .call honest (.rebalanceMulti 10000 0 0)

/-- Two calls at one ledger can each withdraw from the pool despite the cooldown, and a
    multi-protocol rebalance moves funds without spending a call. -/
theorem churn_not_guarded :
    opened.Opened ∧ Reaches (fun _ _ => True) opened churning ∧
      (waiting.limits.minRebalanceInterval = some 10 ∧ leaveBlend.churns waiting = true ∧
        leaveBlend.churns (waiting.after leaveBlend) = true ∧
        (waiting.after leaveBlend).chain.sequence = waiting.chain.sequence ∧
        (waiting.after leaveBlend).idle = waiting.idle + 1000 ∧
        ((waiting.after leaveBlend).after leaveBlend).idle = waiting.idle + 2000) ∧
      (splitting.rateLimit .rebalance = ⟨100, 720⟩ ∧ deploySplit.churns splitting = true ∧
        (splitting.after deploySplit).idle = splitting.idle - 5000000 ∧
        ((splitting.after deploySplit).buckets.state none .rebalance = none)) :=
  ⟨opened_opened, churning_reached,
    ⟨by decide +kernel, by decide +kernel, by decide +kernel, by decide +kernel, by decide +kernel,
      by decide +kernel⟩,
    by decide +kernel, by decide +kernel, by decide +kernel, by decide +kernel⟩

end Sample

end NeuroWealth.Vault
