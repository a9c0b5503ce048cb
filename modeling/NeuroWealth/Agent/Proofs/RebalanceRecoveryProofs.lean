import NeuroWealth.Agent.RebalanceRecovery

/-!
# How a recovery ends

The retries end with a success, with all attempts used up, or with an error that has no text. After
the last retry the way into recovery mode passes the alert, so an alert that fails blocks it.
-/

namespace NeuroWealth.RebalanceRecovery

variable {V : Type} {hooks : RecoveryHooks V} {run run' : Run V} {manager : Manager V}
  {maxAttempts attempts number ledger i : ℕ} {reason : String} {outcome : Option Bool}

/-- The attempt fails, and what it failed with has a text. -/
def Attempt.FailsReadably : Attempt → Prop
  | .resolves false _ => True
  | .throws (some _) => True
  | _ => False

/-- The safe end of a recovery from `start`: the calls of the executor stop at the first success, a
    success leaves a healthy manager and no trace of an alarm, and a failed recovery leaves the
    status `failed`, one alert and one call of `setProtocolToNone`. -/
structure SafeEnd (hooks : RecoveryHooks V) (maxAttempts : ℕ) (start : Manager V) (run : Run V) :
    Prop where
  bounded : run.executions ≤ maxAttempts
  stops : ∀ j, j + 1 < run.executions → ¬ (hooks.executeRebalance j).Succeeds
  persists : run.executions = maxAttempts ∨
    ∃ j, run.executions = j + 1 ∧ (hooks.executeRebalance j).Succeeds
  recovered : (∃ j < maxAttempts, (hooks.executeRebalance j).Succeeds) →
    run.manager.status = .healthy ∧ run.manager.consecutiveFailures = 0 ∧ run.alerts = [] ∧
      run.exits = 0
  failed : (∀ j < maxAttempts, ¬ (hooks.executeRebalance j).Succeeds) →
    run.manager.status = .failed ∧ run.alerts.length = 1 ∧ run.exits = 1
  history : run.manager.failureHistory.length = start.failureHistory.length + 1 +
    ((List.range run.executions).filter fun j => ¬ (hooks.executeRebalance j).Succeeds).length

/-- No error before the first success is without a text; and without a success the vault state read
    first can be stringified and the alert is sent. -/
structure Reportable (hooks : RecoveryHooks V) (maxAttempts : ℕ) : Prop where
  readable : ∀ i < maxAttempts, (∀ j < i, ¬ (hooks.executeRebalance j).Succeeds) →
    hooks.executeRebalance i ≠ .throws none
  alerted : (∀ j < maxAttempts, ¬ (hooks.executeRebalance j).Succeeds) →
    ((safeGetVaultState hooks 0).stringify hooks).isSome ∧ hooks.sendAlert = true

theorem Attempt.FailsReadably.not_succeeds {a : Attempt} (h : a.FailsReadably) : ¬ a.Succeeds := by
  intro hs
  cases a with
  | resolves success error =>
    cases success with
    | true => exact h
    | false => exact hs
  | throws message => exact hs

/-! ## Recording -/

/-- A recorded failure is one more entry and changes no other count. -/
structure Recorded (run run' : Run V) : Prop where
  history : run'.manager.failureHistory.length = run.manager.failureHistory.length + 1
  status : run'.manager.status = run.manager.status
  counter : run'.manager.consecutiveFailures = run.manager.consecutiveFailures
  executions : run'.executions = run.executions
  alerts : run'.alerts = run.alerts
  exits : run'.exits = run.exits

theorem recordFailure_recorded : Recorded run (recordFailure hooks run number reason ledger) := by
  unfold recordFailure safeLogFailure
  constructor <;> dsimp only <;> split <;> simp

/-! ## The retry loop -/

/-- How the loop ends after `made` failures with a text. -/
structure Retried (hooks : RecoveryHooks V) (made : ℕ) (run run' : Run V) : Prop where
  failed : ∀ j < made, (hooks.executeRebalance (run.executions + j)).FailsReadably
  history : run'.manager.failureHistory.length = run.manager.failureHistory.length + made
  alerts : run'.alerts = run.alerts
  exits : run'.exits = run.exits

/-- The three ends: the last call succeeded, every call was made and failed, or the last call threw
    something without a text. -/
inductive Ended (hooks : RecoveryHooks V) (attempts : ℕ) (run run' : Run V) : Option Bool → Prop
  | recovered {made : ℕ} (hmade : made < attempts) (h : Retried hooks made run run')
      (hlast : (hooks.executeRebalance (run.executions + made)).Succeeds)
      (hcalls : run'.executions = run.executions + made + 1)
      (hstatus : run'.manager.status = .healthy)
      (hcounter : run'.manager.consecutiveFailures = 0) : Ended hooks attempts run run' (some true)
  | exhausted (h : Retried hooks attempts run run')
      (hcalls : run'.executions = run.executions + attempts) :
      Ended hooks attempts run run' (some false)
  | thrown {made : ℕ} (hmade : made < attempts) (h : Retried hooks made run run')
      (hlast : hooks.executeRebalance (run.executions + made) = .throws none)
      (hcalls : run'.executions = run.executions + made + 1)
      (hstatus : run'.manager.status = run.manager.status) : Ended hooks attempts run run' none

theorem Retried.refl (hhistory : run'.manager.failureHistory = run.manager.failureHistory)
    (halerts : run'.alerts = run.alerts) (hexits : run'.exits = run.exits) :
    Retried hooks 0 run run' :=
  ⟨nofun, by rw [hhistory, Nat.add_zero], halerts, hexits⟩

/-- One failure with a text before the rest of the loop. -/
theorem Retried.cons {t : Run V} {made : ℕ}
    (hfirst : (hooks.executeRebalance run.executions).FailsReadably)
    (hr : Recorded { run with executions := run.executions + 1 } t)
    (h : Retried hooks made t run') : Retried hooks (made + 1) run run' := by
  have hcalls : t.executions = run.executions + 1 := hr.executions
  refine ⟨fun j hj => ?_, ?_, h.alerts.trans hr.alerts, h.exits.trans hr.exits⟩
  · cases j with
    | zero => exact hfirst
    | succ j =>
      have hfailed := h.failed j (by omega)
      rw [hcalls] at hfailed
      have hindex : run.executions + 1 + j = run.executions + (j + 1) := by omega
      rwa [hindex] at hfailed
  · rw [h.history, hr.history]
    show run.manager.failureHistory.length + 1 + made = _
    omega

theorem Ended.cons {t : Run V} (hfirst : (hooks.executeRebalance run.executions).FailsReadably)
    (hr : Recorded { run with executions := run.executions + 1 } t)
    (h : Ended hooks attempts t run' outcome) : Ended hooks (attempts + 1) run run' outcome := by
  have hcalls : t.executions = run.executions + 1 := hr.executions
  have hstart : t.manager.status = run.manager.status := hr.status
  cases h with
  | @recovered made hmade hrest hlast hlen hstatus hcounter =>
    have hindex : t.executions + made = run.executions + (made + 1) := by omega
    rw [hindex] at hlast
    exact .recovered (by omega) (hrest.cons hfirst hr) hlast (by omega) hstatus hcounter
  | exhausted hrest hlen => exact .exhausted (hrest.cons hfirst hr) (by omega)
  | @thrown made hmade hrest hlast hlen hstatus =>
    have hindex : t.executions + made = run.executions + (made + 1) := by omega
    rw [hindex] at hlast
    exact .thrown (by omega) (hrest.cons hfirst hr) hlast (by omega) (hstatus.trans hstart)

theorem retry_ended : Ended hooks attempts run (retry hooks ledger attempts i run).1
    (retry hooks ledger attempts i run).2 := by
  induction attempts generalizing i run with
  | zero => exact .exhausted (.refl rfl rfl rfl) rfl
  | succ attempts ih =>
    unfold retry
    cases hcall : hooks.executeRebalance run.executions with
    | resolves success error =>
      cases success with
      | true =>
        refine .recovered (Nat.succ_pos _) (.refl rfl rfl rfl) ?_ rfl rfl rfl
        rw [Nat.add_zero, hcall]
        trivial
      | false => exact ih.cons (by rw [hcall]; trivial) recordFailure_recorded
    | throws message =>
      cases message with
      | some text => exact ih.cons (by rw [hcall]; trivial) recordFailure_recorded
      | none =>
        refine .thrown (Nat.succ_pos _) (.refl rfl rfl rfl) ?_ rfl rfl
        rw [Nat.add_zero, hcall]

/-! ## The end of a recovery -/

/-- Calls that all fail are all counted. -/
theorem failures_of_failed {S : ℕ → Prop} [DecidablePred S] {m : ℕ} (h : ∀ j < m, ¬ S j) :
    ((List.range m).filter fun j => ¬ S j).length = m := by
  rw [List.filter_eq_self.mpr, List.length_range]
  intro j hj
  exact decide_eq_true (h j (List.mem_range.mp hj))

theorem failures_of_recovered {S : ℕ → Prop} [DecidablePred S] {m : ℕ} (h : ∀ j < m, ¬ S j)
    (hlast : S m) : ((List.range (m + 1)).filter fun j => ¬ S j).length = m := by
  rw [List.range_succ, List.filter_append, List.length_append, failures_of_failed h,
    List.filter_cons_of_neg (by simpa using hlast), List.filter_nil, List.length_nil, Nat.add_zero]

/-- The failure reported to `start` is in the history, and no hook but the recording ones was
    called. -/
structure Fresh (start : Manager V) (run : Run V) : Prop where
  executions : run.executions = 0
  alerts : run.alerts = []
  exits : run.exits = 0
  history : run.manager.failureHistory.length = start.failureHistory.length + 1

theorem report_fresh : Fresh manager (report hooks manager reason ledger) := by
  have h : Recorded _ (report hooks manager reason ledger) := recordFailure_recorded
  exact ⟨h.executions, h.alerts, h.exits, h.history⟩

variable {t : Run V} {made : ℕ}

/-- The failures before the end, with the calls numbered from the start. -/
theorem Retried.failsReadably (h : Retried hooks made t run) (ht : Fresh manager t) :
    ∀ j < made, (hooks.executeRebalance j).FailsReadably := by
  intro j hj
  have hfailed := h.failed j hj
  rwa [ht.executions, Nat.zero_add] at hfailed

/-- After a success both sides hold. -/
theorem safe_of_recovered (ht : Fresh manager t) (hmade : made < maxAttempts)
    (h : Retried hooks made t run) (hlast : (hooks.executeRebalance made).Succeeds)
    (hcalls : run.executions = made + 1) (hstatus : run.manager.status = .healthy)
    (hcounter : run.manager.consecutiveFailures = 0) :
    SafeEnd hooks maxAttempts manager run ∧ Reportable hooks maxAttempts := by
  have hfailed := h.failsReadably ht
  have hnot : ∀ j < made, ¬ (hooks.executeRebalance j).Succeeds := fun j hj =>
    (hfailed j hj).not_succeeds
  constructor
  · refine ⟨by omega, fun j hj => hnot j (by omega), .inr ⟨made, hcalls, hlast⟩, fun _ => ?_,
      fun hall => absurd hlast (hall made hmade), ?_⟩
    · exact ⟨hstatus, hcounter, h.alerts.trans ht.alerts, h.exits.trans ht.exits⟩
    · rw [h.history, ht.history, hcalls, failures_of_recovered hnot hlast]
  · refine ⟨fun i _ hi hthrows => ?_, fun hall => absurd hlast (hall made hmade)⟩
    rcases lt_trichotomy i made with hlt | rfl | hgt
    · have hreadable := hfailed i hlt
      rw [hthrows] at hreadable
      exact hreadable
    · rw [hthrows] at hlast
      exact hlast
    · exact absurd hlast (hi made hgt)

/-- After the last retry the alert decides. -/
theorem giveUp_safe_iff (ht : Fresh manager t) (h : Retried hooks maxAttempts t run)
    (hcalls : run.executions = maxAttempts) :
    SafeEnd hooks maxAttempts manager
        (giveUp hooks maxAttempts reason ledger (safeGetVaultState hooks 0) run).1 ↔
      Reportable hooks maxAttempts := by
  have hfailed := h.failsReadably ht
  have hnot : ∀ j < maxAttempts, ¬ (hooks.executeRebalance j).Succeeds := fun j hj =>
    (hfailed j hj).not_succeeds
  have halerts : run.alerts = [] := h.alerts.trans ht.alerts
  have hexits : run.exits = 0 := h.exits.trans ht.exits
  unfold giveUp
  cases hstate : (safeGetVaultState hooks 0).stringify hooks with
  | none =>
    constructor
    · intro hsafe
      have hone : run.alerts.length = 1 := (hsafe.failed hnot).2.1
      rw [halerts] at hone
      cases hone
    · intro hreportable
      have hsome := (hreportable.alerted hnot).1
      rw [hstate] at hsome
      cases hsome
  | some state =>
    cases hsent : hooks.sendAlert with
    | true =>
      constructor
      · intro _
        refine ⟨fun i hi _ hthrows => ?_, fun _ => ⟨by rw [hstate]; rfl, hsent⟩⟩
        have hreadable := hfailed i hi
        rw [hthrows] at hreadable
        exact hreadable
      · intro _
        refine ⟨hcalls.le, fun j hj => hnot j ?_, .inl hcalls, ?_, fun _ => ⟨rfl, ?_, ?_⟩, ?_⟩
        · have hlt : j + 1 < run.executions := hj
          omega
        · rintro ⟨j, hj, hok⟩
          exact absurd hok (hnot j hj)
        · show (run.alerts ++ _).length = 1
          rw [halerts]
          rfl
        · show run.exits + 1 = 1
          rw [hexits]
        · show run.manager.failureHistory.length = manager.failureHistory.length + 1 +
            ((List.range run.executions).filter fun j =>
              ¬ (hooks.executeRebalance j).Succeeds).length
          rw [h.history, ht.history, hcalls, failures_of_failed hnot]
    | false =>
      constructor
      · intro hsafe
        have hone : run.exits = 1 := (hsafe.failed hnot).2.2
        omega
      · intro hreportable
        rw [(hreportable.alerted hnot).2] at hsent
        cases hsent

/-- An error without a text ends the loop before the alarm. -/
theorem unsafe_of_thrown (ht : Fresh manager t) (hmade : made < maxAttempts)
    (h : Retried hooks made t run) (hlast : hooks.executeRebalance made = .throws none)
    (hcalls : run.executions = made + 1) :
    ¬ SafeEnd hooks maxAttempts manager run ∧ ¬ Reportable hooks maxAttempts := by
  have hfailed := h.failsReadably ht
  have hnot : ∀ j < made + 1, ¬ (hooks.executeRebalance j).Succeeds := by
    intro j hj hok
    rcases Nat.lt_succ_iff_lt_or_eq.mp hj with hlt | rfl
    · exact (hfailed j hlt).not_succeeds hok
    · rw [hlast] at hok
      exact hok
  constructor
  · intro hsafe
    rcases hsafe.persists with hall | ⟨j, hj, hok⟩
    · have hone : run.alerts.length = 1 := (hsafe.failed fun j hj => hnot j (by omega)).2.1
      rw [h.alerts, ht.alerts] at hone
      cases hone
    · exact hnot j (by omega) hok
  · intro hreportable
    exact absurd hlast (hreportable.readable made hmade fun j hj => hnot j (by omega))

/-- A recovery ends safely exactly when its failures can be reported. -/
theorem handleFailure_safe_iff :
    SafeEnd hooks maxAttempts manager
        (handleFailure hooks maxAttempts manager reason ledger).1 ↔
      Reportable hooks maxAttempts := by
  have ht : Fresh manager (report hooks manager reason ledger) := report_fresh
  have hended : Ended hooks maxAttempts (report hooks manager reason ledger)
      (retry hooks ledger maxAttempts 0 (report hooks manager reason ledger)).1
      (retry hooks ledger maxAttempts 0 (report hooks manager reason ledger)).2 := retry_ended
  unfold handleFailure
  generalize retry hooks ledger maxAttempts 0 (report hooks manager reason ledger) = retried
    at hended ⊢
  obtain ⟨run, outcome⟩ := retried
  cases hended with
  | recovered hmade h hlast hcalls hstatus hcounter =>
    rw [ht.executions, Nat.zero_add] at hlast hcalls
    have hboth := safe_of_recovered ht hmade h hlast hcalls hstatus hcounter
    exact iff_of_true hboth.1 hboth.2
  | exhausted h hcalls =>
    rw [ht.executions, Nat.zero_add] at hcalls
    exact giveUp_safe_iff ht h hcalls
  | thrown hmade h hlast hcalls _ =>
    rw [ht.executions, Nat.zero_add] at hlast hcalls
    have hneither := unsafe_of_thrown ht hmade h hlast hcalls
    exact iff_of_false hneither.1 hneither.2

namespace Sample

/-- Every rebalance fails, the state is read, and the alert cannot be sent. -/
def unreachable : RecoveryHooks ℕ where
  executeRebalance _ := .resolves false (some "slippage")
  getVaultState _ := some 0
  logFailureToDb _ := true
  sendAlert := false
  setProtocolToNone := true
  now _ := 0
  stringify _ := some "0"

/-- The protocol is never left. -/
theorem unreachable_unsafe :
    (handleFailure unreachable 3 {} "tx failed" 7).1.exits = 0 ∧
      ¬ SafeEnd unreachable 3 {} (handleFailure unreachable 3 {} "tx failed" 7).1 := by
  have hexits : (handleFailure unreachable 3 {} "tx failed" 7).1.exits = 0 := by decide +kernel
  refine ⟨hexits, fun hsafe => ?_⟩
  have hone := (hsafe.failed fun j _ => id).2.2
  rw [hexits] at hone
  cases hone

end Sample

end NeuroWealth.RebalanceRecovery
