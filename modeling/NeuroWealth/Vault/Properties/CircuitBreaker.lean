import NeuroWealth.Vault.Proofs.HistoriesProofs
import NeuroWealth.Vault.Proofs.MultiRebalanceProofs

/-!
# The circuit breaker

The breaker counts failed rebalances and pauses the vault at its threshold. It counts all of them
as long as no rebalance is abandoned, which announces a failure that is not recorded.
-/

namespace NeuroWealth.Vault

open Transaction MachineInt

variable {env : Env} {w w' w0 : World} {step : Step} {steps : List Step} {call : Call}

/-! ## Failures of a history -/

def Call.rebalances : Call → Bool
  | .rebalance .. => true
  | .rebalanceMulti .. => true
  | _ => false

/-- The step is a successful rebalance. -/
def Step.rebalances (w : World) : Step → Bool
  | .call env call => call.rebalances && (invoke call).succeeds env w
  | .ambient _ => false

/-- The step is a rebalance that announces the outcome. -/
def Step.ends (w : World) (status : Status) (step : Step) : Bool :=
  step.rebalances w && decide (status ∈ (w.after step).outcomes)

/-- The owner resets the breaker. -/
def Step.resets (w : World) : Step → Bool
  | .call env (.resetCircuitBreaker owner) => (invoke (.resetCircuitBreaker owner)).succeeds env w
  | _ => false

/-- The failed attempts since the last success or reset, after one more step. -/
def countFailure (n : ℕ) (e : World × Step) : ℕ :=
  if e.2.ends e.1 .failed then n + 1
  else if e.2.ends e.1 .success || e.2.resets e.1 then 0
  else n

/-- The failed attempts of a history since its last success or reset. -/
def failures (past : List (World × Step)) : ℕ := past.foldl countFailure 0

/-- No rebalance is abandoned, and the counter does not saturate. -/
structure Step.Counted (w : World) (step : Step) : Prop where
  exits : ∀ env protocol expectedApy minOut,
    step = .call env (.rebalance protocol expectedApy minOut) → env.HonoursExits
  room : w.breaker.consecutiveFailures < 4294967295

/-! ## One call -/

/-- What a successful call does to the breaker. -/
def Call.Switches (call : Call) (w w' : World) : Prop :=
  match call with
  | .rebalance .. => w.breaker.paused = false ∧
      ∃ status, w'.outcomes = [status] ∧ w'.breaker = w.breaker.record status
  | .rebalanceMulti .. => w.breaker.paused = false ∧
      ∃ status, w'.outcomes = [status] ∧ w'.breaker = w.breaker.record status
  | .pause _ => w'.breaker = { w.breaker with paused := true }
  | .emergencyPause _ => w'.breaker = { w.breaker with paused := true }
  | .unpause _ => w'.breaker = { w.breaker with paused := false }
  | .resetCircuitBreaker _ =>
      w'.breaker = { w.breaker with consecutiveFailures := 0, paused := false }
  | .setMaxConsecutiveFailures threshold =>
      w'.breaker = { w.breaker with maxConsecutiveFailures := threshold }
  | _ => w'.breaker = w.breaker

theorem switches_of_run {u : Unit} (hi : w.Initialized) (houtcomes : w.outcomes = [])
    (hexits : ∀ protocol expectedApy minOut,
      call = .rebalance protocol expectedApy minOut → env.HonoursExits)
    (h : call.run.Ok env w u w') : call.Switches w w' := by
  have hkept : .breaker ∉ call.writes → w'.breaker = w.breaker := writes_run call h .breaker
  cases call
  case initializeVault => exact absurd h (not_initializeVault_ok hi)
  case rebalance protocol apy minOut =>
    obtain ⟨hlive, -, t, hcharged, ⟨status, hc⟩ | ⟨-, hpools⟩⟩ := rebalance_ok h
    · refine ⟨hlive, status, ?_, ?_⟩
      · rw [hc.outcomes, hcharged.outcomes, houtcomes]
        rfl
      · rw [hc.breaker, hcharged.breaker]
    · exact absurd (hexits protocol apy minOut rfl) hpools
  case rebalanceMulti =>
    obtain ⟨hlive, -, status, hc⟩ := rebalanceMulti_ok h
    refine ⟨hlive, status, ?_, hc.breaker⟩
    rw [hc.outcomes, houtcomes]
    rfl
  case pause =>
    simp only [Call.run, pause, modifyBreaker, Tx.ok_bind, ok_requireInitialized,
      ok_requireOwnerArg, Tx.ok_modify, ok_publish, existsAndEq, exists_const, and_assoc,
      true_and] at h
    obtain ⟨-, -, -, -, rfl⟩ := h
    rfl
  case unpause =>
    simp only [Call.run, unpause, modifyBreaker, Tx.ok_bind, Tx.ok_get, ok_requireInitialized,
      ok_requireOwnerArg, Tx.ok_require, Tx.ok_modify, ok_publish, existsAndEq, exists_const,
      and_assoc, true_and] at h
    obtain ⟨-, -, -, -, -, rfl⟩ := h
    rfl
  case emergencyPause =>
    simp only [Call.run, emergencyPause, modifyBreaker, Tx.ok_bind, Tx.ok_get,
      ok_requireInitialized, ok_requireOwnerArg, Tx.ok_ite, Tx.ok_pure, Tx.ok_modify, ok_publish,
      existsAndEq, exists_const, and_assoc, true_and] at h
    obtain ⟨-, -, -, -, ⟨hpaused, rfl⟩ | ⟨-, rfl⟩⟩ := h
    · show w'.breaker = { w'.breaker with paused := true }
      rw [← hpaused]
    · rfl
  case resetCircuitBreaker =>
    simp only [Call.run, resetCircuitBreaker, modifyBreaker, Tx.ok_bind, ok_requireInitialized,
      ok_requireOwnerArg, Tx.ok_modify, ok_publish, existsAndEq, exists_const, and_assoc,
      true_and] at h
    obtain ⟨-, -, -, -, rfl⟩ := h
    rfl
  case setMaxConsecutiveFailures =>
    simp only [Call.run, setMaxConsecutiveFailures, modifyBreaker, Tx.ok_bind, Tx.ok_get,
      ok_requireInitialized, ok_requireIsOwner, Tx.ok_require, Tx.ok_modify, ok_publish,
      existsAndEq, exists_const, and_assoc, true_and] at h
    obtain ⟨-, -, -, -, rfl⟩ := h
    rfl
  all_goals exact hkept (by simp [Call.writes])

/-! ## One step -/

/-- What a step does to the breaker: an attempt records its outcome, the owner's switches set the
    flag, and everything else leaves the flag and the counter alone. -/
inductive BreakerMove (w : World) (step : Step) (b : Breaker) : Prop
  | attempt {status : Status} (hends : ∀ s, step.ends w s = decide (s = status))
      (hresets : step.resets w = false) (hlive : w.breaker.paused = false)
      (hb : b = w.breaker.record status)
  | reset (hends : ∀ s, step.ends w s = false) (hresets : step.resets w = true)
      (hcount : b.consecutiveFailures = 0) (hflag : b.paused = false)
  | paused {owner : Address}
      (hperforms : step.Performs w (.pause owner) ∨ step.Performs w (.emergencyPause owner))
      (hends : ∀ s, step.ends w s = false) (hresets : step.resets w = false)
      (hcount : b.consecutiveFailures = w.breaker.consecutiveFailures)
  | kept (hends : ∀ s, step.ends w s = false) (hresets : step.resets w = false)
      (hcount : b.consecutiveFailures = w.breaker.consecutiveFailures)
      (hflag : b.paused = true → w.breaker.paused = true)

/-- A step that is no rebalance ends none. -/
theorem ends_of_other {env : Env} (hcall : call.rebalances = false) (s : Status) :
    (Step.call env call).ends w s = false := by
  show (call.rebalances && _ && _) = false
  rw [hcall, Bool.false_and, Bool.false_and]

theorem ends_of_rebalance {env : Env} {status : Status} (hcall : call.rebalances = true)
    (hok : (invoke call).succeeds env w = true)
    (houtcomes : (w.after (.call env call)).outcomes = [status]) (s : Status) :
    (Step.call env call).ends w s = decide (s = status) := by
  show (call.rebalances && (invoke call).succeeds env w && decide (s ∈ World.outcomes _)) = _
  rw [hcall, hok, houtcomes, Bool.and_true, Bool.true_and]
  simp only [List.mem_singleton]

/-- A failed call leaves no outcome behind that counts. -/
theorem ends_of_fails {env : Env} (hok : (invoke call).succeeds env w = false) (s : Status) :
    (Step.call env call).ends w s = false := by
  show (call.rebalances && (invoke call).succeeds env w && _) = false
  rw [hok, Bool.and_false, Bool.false_and]

theorem breakerMove (step : Step) (hi : w.Initialized) (hcounted : step.Counted w) :
    BreakerMove w step (w.after step).breaker := by
  cases step with
  | ambient chain => exact .kept (fun _ => rfl) rfl rfl id
  | call env call =>
    cases hok : (invoke call).succeeds env w with
    | false =>
      have hafter : w.after (.call env call) = w := Tx.commit_of_fails hok
      rw [hafter]
      refine .kept (ends_of_fails hok) ?_ rfl id
      cases call
      case resetCircuitBreaker => exact hok
      all_goals rfl
    | true =>
      have hswitch : call.Switches w.entered (w.after (.call env call)) :=
        switches_of_run hi rfl (fun p a m hcall => hcounted.exits env p a m (congrArg _ hcall))
          (ok_invoke.mp (ok_after hok))
      cases call
      case rebalance =>
        obtain ⟨hlive, status, houtcomes, hb⟩ := hswitch
        exact .attempt (ends_of_rebalance rfl hok houtcomes) rfl hlive hb
      case rebalanceMulti =>
        obtain ⟨hlive, status, houtcomes, hb⟩ := hswitch
        exact .attempt (ends_of_rebalance rfl hok houtcomes) rfl hlive hb
      case pause =>
        rw [show (w.after _).breaker = _ from hswitch]
        exact .paused (.inl ⟨env, rfl, hok⟩) (ends_of_other rfl) rfl rfl
      case emergencyPause =>
        rw [show (w.after _).breaker = _ from hswitch]
        exact .paused (.inr ⟨env, rfl, hok⟩) (ends_of_other rfl) rfl rfl
      case unpause =>
        rw [show (w.after _).breaker = _ from hswitch]
        exact .kept (ends_of_other rfl) rfl rfl fun h => absurd h Bool.false_ne_true
      case resetCircuitBreaker =>
        rw [show (w.after _).breaker = _ from hswitch]
        exact .reset (ends_of_other rfl) hok rfl rfl
      case setMaxConsecutiveFailures =>
        rw [show (w.after _).breaker = _ from hswitch]
        exact .kept (ends_of_other rfl) rfl rfl id
      all_goals
        rw [show (w.after _).breaker = _ from hswitch]
        exact .kept (ends_of_other rfl) rfl rfl id

/-- The counter follows the failures. -/
theorem count_after (step : Step) (hi : w.Initialized) (hcounted : step.Counted w) :
    (w.after step).breaker.consecutiveFailures =
      countFailure w.breaker.consecutiveFailures (w, step) := by
  unfold countFailure
  cases breakerMove step hi hcounted with
  | @attempt status hends hresets _ hb =>
    rw [hb, hends, hends, hresets]
    cases status with
    | failed =>
      have hroom := hcounted.room
      exact Nat.min_eq_left (by omega)
    | success => rfl
    | partially => rfl
    | noop => rfl
  | reset hends hresets hcount _ =>
    rw [hends, hends, hresets, hcount]
    rfl
  | paused _ hends hresets hcount =>
    rw [hends, hends, hresets, hcount]
    rfl
  | kept hends hresets hcount _ =>
    rw [hends, hends, hresets, hcount]
    rfl

/-- A failed attempt trips the breaker exactly at the threshold. -/
theorem trip_after (step : Step) (hi : w.Initialized) (hcounted : step.Counted w)
    (hfailed : step.ends w .failed = true) :
    (w.after step).breaker.paused = true ↔
      w.breaker.maxConsecutiveFailures ≤ countFailure w.breaker.consecutiveFailures (w, step) := by
  rw [← count_after step hi hcounted]
  cases breakerMove step hi hcounted with
  | @attempt status hends _ hlive hb =>
    rw [hends] at hfailed
    obtain rfl := of_decide_eq_true hfailed
    rw [hb]
    show (w.breaker.paused || decide _) = true ↔ _
    rw [hlive, Bool.false_or, decide_eq_true_eq]
    rfl
  | reset hends => exact absurd ((hends _).symm.trans hfailed) Bool.false_ne_true
  | paused _ hends => exact absurd ((hends _).symm.trans hfailed) Bool.false_ne_true
  | kept hends => exact absurd ((hends _).symm.trans hfailed) Bool.false_ne_true

/-- Nothing but a pause of the owner or a trip pauses the vault. -/
theorem pause_after (step : Step) (hi : w.Initialized) (hcounted : step.Counted w)
    (hlive : w.breaker.paused = false) (hpaused : (w.after step).breaker.paused = true) :
    (∃ owner, step.Performs w (.pause owner) ∨ step.Performs w (.emergencyPause owner)) ∨
      step.ends w .failed = true := by
  cases breakerMove step hi hcounted with
  | @attempt status hends _ _ hb =>
    rw [hb] at hpaused
    cases status with
    | failed => exact .inr (hends .failed)
    | success => exact absurd (hlive.symm.trans hpaused) Bool.false_ne_true
    | partially => exact absurd (hlive.symm.trans hpaused) Bool.false_ne_true
    | noop => exact absurd (hlive.symm.trans hpaused) Bool.false_ne_true
  | reset _ _ _ hflag => exact absurd (hflag.symm.trans hpaused) Bool.false_ne_true
  | paused hperforms => exact .inl ⟨_, hperforms⟩
  | kept _ _ _ hflag => exact absurd (hlive.symm.trans (hflag hpaused)) Bool.false_ne_true

/-- The owner unpauses the vault or resets the breaker. -/
def Step.Releases (step : Step) (w : World) : Prop :=
  ∃ owner, step.Performs w (.unpause owner) ∨ step.Performs w (.resetCircuitBreaker owner)

/-- A paused vault rejects every rebalance. -/
theorem not_rebalance_ok {u : Unit} (hpaused : w.breaker.paused = true)
    (hcall : call.rebalances = true) : ¬ (invoke call).Ok env w u w' := by
  intro hok
  have hrun := ok_invoke.mp hok
  cases call
  case rebalance =>
    have hlive : w.breaker.paused = false := (rebalance_ok hrun).1
    exact absurd (hlive.symm.trans hpaused) Bool.false_ne_true
  case rebalanceMulti =>
    have hlive : w.breaker.paused = false := (rebalanceMulti_ok hrun).1
    exact absurd (hlive.symm.trans hpaused) Bool.false_ne_true
  all_goals cases hcall

/-- A paused vault stays paused until it is released. -/
theorem paused_after (step : Step) (hi : w.Initialized) (hnot : ¬ step.Releases w)
    (hpaused : w.breaker.paused = true) : (w.after step).breaker.paused = true := by
  cases step with
  | ambient chain => exact hpaused
  | call env call =>
    cases hok : (invoke call).succeeds env w with
    | false =>
      have hafter : w.after (.call env call) = w := Tx.commit_of_fails hok
      rw [hafter]
      exact hpaused
    | true =>
      have hrejects : call.rebalances ≠ true := fun hcall =>
        not_rebalance_ok hpaused hcall (ok_after hok)
      have hswitch : call.Switches w.entered (w.after (.call env call)) := by
        refine switches_of_run hi rfl (fun p a m hcall => ?_) (ok_invoke.mp (ok_after hok))
        rw [hcall] at hrejects
        exact absurd rfl hrejects
      cases call
      case rebalance => exact absurd rfl hrejects
      case rebalanceMulti => exact absurd rfl hrejects
      case unpause owner => exact absurd ⟨owner, .inl ⟨env, rfl, hok⟩⟩ hnot
      case resetCircuitBreaker owner => exact absurd ⟨owner, .inr ⟨env, rfl, hok⟩⟩ hnot
      case pause =>
        rw [show (w.after _).breaker = _ from hswitch]
      case emergencyPause =>
        rw [show (w.after _).breaker = _ from hswitch]
      case setMaxConsecutiveFailures =>
        rw [show (w.after _).breaker = _ from hswitch]
        exact hpaused
      all_goals
        rw [show (w.after _).breaker = _ from hswitch]
        exact hpaused

/-! ## Runs -/

theorem failures_concat {past : List (World × Step)} {e : World × Step} :
    failures (past ++ [e]) = countFailure (failures past) e :=
  List.foldl_concat ..

/-- Along every run the counter counts the failures. -/
theorem count_of_run (h0 : w0.Opened) (h : Admits (fun t step => step.Counted t) w0 steps) :
    (w0.replay steps).breaker.consecutiveFailures = failures (w0.history steps) ∧
      (w0.replay steps).Initialized := by
  have hfirst : w0.breaker.consecutiveFailures = failures [] := by
    rw [h0.fresh.breaker]
    rfl
  refine h.invariant (P := fun past t =>
    t.breaker.consecutiveFailures = failures past ∧ t.Initialized)
    ⟨hfirst, h0.fresh.initialized⟩ ?_
  intro past t step hcounted ⟨hcount, hi⟩
  refine ⟨?_, (anchored_after step hi).initialized hi⟩
  rw [count_after step hi hcounted, failures_concat, hcount]

/-- In every run without abandoned rebalances the counter counts the failures, a failed attempt
    that reaches the threshold leaves the vault paused until the owner releases it, and the
    breaker pauses it in no other case. -/
theorem breaker_trips (h0 : w0.Opened) (h : Admits (fun t step => step.Counted t) w0 steps)
    (hcounted : step.Counted (w0.replay steps)) :
    (w0.replay steps).breaker.consecutiveFailures = failures (w0.history steps) ∧
      (step.ends (w0.replay steps) .failed = true →
        (w0.replay steps).breaker.maxConsecutiveFailures ≤
          failures (w0.history steps ++ [(w0.replay steps, step)]) →
        ∀ w, Reaches (fun t s => ¬ s.Releases t) ((w0.replay steps).after step) w →
          w.breaker.paused = true ∧ ∀ env call w', call.rebalances = true →
            ¬ (invoke call).Ok env w () w') ∧
      ((w0.replay steps).breaker.paused = false →
        ((w0.replay steps).after step).breaker.paused = true →
        (∃ owner, step.Performs (w0.replay steps) (.pause owner) ∨
          step.Performs (w0.replay steps) (.emergencyPause owner)) ∨
        (step.ends (w0.replay steps) .failed = true ∧
          (w0.replay steps).breaker.maxConsecutiveFailures ≤
            failures (w0.history steps ++ [(w0.replay steps, step)]))) := by
  obtain ⟨hcount, hi⟩ := count_of_run h0 h
  refine ⟨hcount, ?_⟩
  rw [failures_concat, ← hcount]
  generalize w0.replay steps = w at hi hcounted ⊢
  have hi' := (anchored_after step hi).initialized hi
  constructor
  · intro hfailed hreached t hrun
    have htripped := (trip_after step hi hcounted hfailed).mpr hreached
    obtain ⟨hpaused, -⟩ := hrun.keeps (P := fun t => t.breaker.paused = true) hi' htripped
      fun _ step hnot hi hpaused => paused_after step hi hnot hpaused
    exact ⟨hpaused, fun env call w' hcall => not_rebalance_ok hpaused hcall⟩
  · intro hlive hpaused
    rcases pause_after step hi hcounted hlive hpaused with howner | hfailed
    · exact .inl howner
    · exact .inr ⟨hfailed, (trip_after step hi hcounted hfailed).mp hpaused⟩

namespace Sample

/-- Pools that move nothing. -/
def stuck : Env :=
  { honest with pool := fun c => some ⟨0, if c.kind = .withdraw then 0 else c.position⟩ }

theorem stuck_exits : stuck.HonoursExits := by
  intro c r hkind _ hreply
  simp only [stuck, hkind, Option.some.injEq] at hreply
  subst hreply
  exact le_rfl

/-- The breaker trips at the first failure. -/
def touchy : List Step :=
  [.call honest (.setMaxConsecutiveFailures 1),
    .call honest (.setVenuePool .blend owner blendPool), .call honest (.deposit alice 5000000)]

def failing : Step := .call stuck (.rebalance .blend 500 0)

theorem touchy_trips :
    failing.ends (opened.replay touchy) .failed = true ∧
      ((opened.replay touchy).after failing).breaker.paused = true := by
  have hother : ∀ env call t, t.breaker.consecutiveFailures < 4294967295 →
      (∀ p a m, call ≠ .rebalance p a m) → (Step.call env call).Counted t := by
    intro env call t hroom hne
    refine ⟨?_, hroom⟩
    intro _ p a m hstep
    cases hstep
    exact absurd rfl (hne p a m)
  have hrun : Admits (fun t step => step.Counted t) opened touchy :=
    ⟨hother _ _ _ (by decide +kernel) nofun, hother _ _ _ (by decide +kernel) nofun,
      hother _ _ _ (by decide +kernel) nofun, trivial⟩
  have hcounted : failing.Counted (opened.replay touchy) := by
    refine ⟨?_, by decide +kernel⟩
    intro env p a m hstep
    cases hstep
    exact stuck_exits
  have hfailed : failing.ends (opened.replay touchy) .failed = true := by decide +kernel
  obtain ⟨-, htrip, -⟩ := breaker_trips opened_opened hrun hcounted
  exact ⟨hfailed, (htrip hfailed (by decide +kernel) _ Runs.Reaches.refl).1⟩

/-- Pools that pay a single unit. -/
def dripping : Env :=
  { honest with pool := fun c => some ⟨1, c.position - 1⟩ }

/-- The funds are deployed, and a rebalance cannot leave the pool. -/
def abandoning : List Step :=
  touchy ++ [.call honest (.rebalance .blend 500 0), .call dripping (.rebalance .none 500 0)]

/-- An abandoned rebalance is a failed attempt that the breaker, set to trip at the first one,
    does not count. -/
theorem breaker_misses_failure :
    opened.Opened ∧ Reaches (fun _ _ => True) opened (opened.replay abandoning) ∧
      failures (opened.history abandoning) = 1 ∧
      (opened.replay abandoning).breaker.maxConsecutiveFailures = 1 ∧
      (opened.replay abandoning).breaker.consecutiveFailures = 0 ∧
      (opened.replay abandoning).breaker.paused = false :=
  ⟨opened_opened, .of_admits ⟨trivial, trivial, trivial, trivial, trivial, trivial⟩,
    by decide +kernel, by decide +kernel, by decide +kernel, by decide +kernel⟩

end Sample

end NeuroWealth.Vault
