import NeuroWealth.Foundation.PriorityQueue
import NeuroWealth.Agent.YieldCheckJob
import NeuroWealth.Vault.Views
import NeuroWealth.Vault.Proofs.OutcomesProofs
import NeuroWealth.Vault.Proofs.MachineProofs
import NeuroWealth.Vault.Proofs.AccountsProofs

/-!
# What a yield check submits, and what it reports

Each step of the job either returns or hands on to the next, so the calls of a run are read off step
by step from the last one.
-/

namespace NeuroWealth.YieldCheckJob

open Binary64 YieldComparison PriorityQueue Transaction
open YieldCheck (InBounds)
open Vault (World Step Reaches requireCooldownElapsed getRebalanceCooldown getLastRebalanceLedger)

variable {config : Config} {hooks : Hooks} {result : YieldCheckResult} {s s' : Submission}
  {best : YieldOpportunity} {deployed checkedAt : ℚ} {jobId : String} {jobCounter : ℕ}
  {wallClock : ℤ} {stored : Answer Unit} {p q : ProtocolYieldData}

/-! ## What is known of the yields -/

theorem withTimeout_eq_ok {α : Type} {answer : Answer α} {dependency : String} {timeoutMs : ℤ}
    {value : α} : withTimeout answer dependency timeoutMs = .ok value ↔
      answer = .resolves value := by
  cases answer with
  | resolves value' => simp [withTimeout]
  | rejects message => simp [withTimeout]
  | late => simp [withTimeout]

/-- A fetcher delivered the data, and it is usable. -/
def Observed (config : Config) (hooks : Hooks) (p : ProtocolYieldData) : Prop :=
  ∃ o ∈ hooks.apyFetchers, o.answer = .resolves p ∧
    IsUsableApy o.now (config.maxApyAgeMs.getD 900000) p o.protocolId

theorem fetch_eq_some {o : Observation} : config.fetch o = some p ↔
    o.answer = .resolves p ∧
      IsUsableApy o.now (config.maxApyAgeMs.getD 900000) p o.protocolId := by
  have hage : (15 * 60000 : ℚ) = 900000 := by norm_num
  unfold Config.fetch
  rw [hage]
  cases hanswer : o.answer with
  | resolves data =>
    simp only [withTimeout, Option.ite_none_right_eq_some, Option.some.injEq, Answer.resolves.injEq]
    constructor
    · rintro ⟨husable, rfl⟩
      exact ⟨rfl, husable⟩
    · rintro ⟨rfl, husable⟩
      exact ⟨husable, rfl⟩
  | rejects message => simp [withTimeout]
  | late => simp [withTimeout]

theorem mem_fetchAllApys : p ∈ config.fetchAllApys hooks ↔ Observed config hooks p := by
  unfold Config.fetchAllApys Observed
  rw [List.mem_filterMap]
  refine exists_congr fun o => and_congr_right fun _ => fetch_eq_some

/-- No two usable observations are of one protocol. -/
theorem eq_of_observed (hp : Observed config hooks p) (hq : Observed config hooks q)
    (hid : p.protocolId = q.protocolId) : p = q := by
  obtain ⟨o, ho, hop, husable⟩ := hp
  obtain ⟨o', ho', hoq, husable'⟩ := hq
  have hsame : o.protocolId = o'.protocolId := by rw [← husable.1, ← husable'.1, hid]
  obtain rfl := List.inj_on_of_nodup_map hooks.distinct ho ho' hsame
  exact Answer.resolves.inj (hop.symm.trans hoq)

theorem find_fetchAllApys {protocolId : String} :
    ((config.fetchAllApys hooks).find? fun s => s.protocolId = protocolId) = some p ↔
      Observed config hooks p ∧ p.protocolId = protocolId := by
  constructor
  · intro h
    exact ⟨mem_fetchAllApys.mp (List.mem_of_find?_eq_some h), by simpa using List.find?_some h⟩
  · rintro ⟨hp, hid⟩
    have hmem := mem_fetchAllApys.mpr hp
    cases hfind : (config.fetchAllApys hooks).find? fun s => s.protocolId = protocolId with
    | none =>
      have hnone := List.find?_eq_none.mp hfind p hmem
      exact absurd hid (by simpa using hnone)
    | some q =>
      have hq := mem_fetchAllApys.mp (List.mem_of_find?_eq_some hfind)
      have hqid : q.protocolId = protocolId := by simpa using List.find?_some hfind
      rw [eq_of_observed hp hq (hid.trans hqid.symm)]

/-- The score the ranking goes by. -/
def score (config : Config) (p : ProtocolYieldData) : ℚ :=
  (opportunity config.engine p).riskAdjustedScore

theorem head_rankOpportunities {protocols : List ProtocolYieldData} :
    (rankOpportunities config.engine protocols).head? = some best ↔
      ∃ p, FirstBest (score config) protocols p ∧ opportunity config.engine p = best := by
  have hsorted : rankOpportunities config.engine protocols =
      (protocols.insertionSort fun a b => score config b ≤ score config a).map
        (opportunity config.engine) := by
    unfold rankOpportunities
    exact (List.map_insertionSort (fun a b => score config b ≤ score config a)
      (fun a b => b.riskAdjustedScore ≤ a.riskAdjustedScore) (opportunity config.engine) protocols
      fun _ _ _ _ => Iff.rfl).symm
  rw [hsorted, List.head?_map, Option.map_eq_some_iff]
  refine exists_congr fun p => and_congr_left fun _ => head?_insertionSort_eq_some

/-! ## The calls of a run -/

theorem submit_calls : (submit config hooks result s).2 = [.submitRebalance s] ∨
    (submit config hooks result s).2 = [.submitRebalance s, .reconcileRebalance s.protocol] := by
  unfold submit
  split
  · exact .inl rfl
  · split
    · exact .inr rfl
    · exact .inl rfl

theorem mem_submit : .submitRebalance s ∈ (submit config hooks result s').2 ↔ s = s' := by
  have hcalls : (submit config hooks result s').2 = [.submitRebalance s'] ∨
      (submit config hooks result s').2 = [.submitRebalance s', .reconcileRebalance s'.protocol] :=
    submit_calls
  rcases hcalls with h | h
  · rw [h]
    simp
  · rw [h]
    simp

theorem mem_decideRebalance :
    .submitRebalance s ∈ (decideRebalance config hooks result deployed best).2 ↔
      best.protocolId ≠ result.currentProtocol ∧
        config.minImprovementThreshold ≤ toDouble (best.netApy - result.currentApy) ∧
        InBounds (YieldCheck.minOut deployed config.slippageBps) config.slippageBps ∧
        s = ⟨best.protocolId, best.netApy, YieldCheck.minOut deployed config.slippageBps⟩ := by
  unfold decideRebalance
  by_cases hsame : best.protocolId = result.currentProtocol
  · simp [hsame]
  · by_cases himproves : shouldRebalance config.engine result.currentApy best.netApy
    · by_cases hbounds : InBounds (YieldCheck.minOut deployed config.slippageBps) config.slippageBps
      · rw [if_neg hsame, if_neg (not_not.mpr himproves)]
        simp only [hbounds, not_true, if_false, mem_submit]
        exact ⟨fun h => ⟨hsame, himproves, trivial, h⟩, fun h => h.2.2.2⟩
      · simp [hsame, himproves, hbounds]
    · have hbelow : ¬ config.minImprovementThreshold ≤
          toDouble (best.netApy - result.currentApy) := himproves
      simp [hsame, himproves, hbelow]

theorem mem_compareYields :
    .submitRebalance s ∈ (compareYields config hooks result deployed).2 ↔
      ∃ snapshot best, Observed config hooks snapshot ∧
        snapshot.protocolId = result.currentProtocol ∧
        FirstBest (score config) (config.fetchAllApys hooks) best ∧
        best.protocolId ≠ snapshot.protocolId ∧
        config.minImprovementThreshold ≤ toDouble (best.currentApy - snapshot.currentApy) ∧
        InBounds (YieldCheck.minOut deployed config.slippageBps) config.slippageBps ∧
        s = ⟨best.protocolId, best.currentApy,
          YieldCheck.minOut deployed config.slippageBps⟩ := by
  unfold compareYields
  by_cases hnone : config.fetchAllApys hooks = []
  · simp only [hnone, if_true, List.not_mem_nil, false_iff, not_exists, not_and]
    intro snapshot best hsnapshot
    have hmem := mem_fetchAllApys.mpr hsnapshot
    rw [hnone] at hmem
    exact absurd hmem List.not_mem_nil
  · simp only [hnone, if_false]
    split
    · rename_i hfind
      simp only [List.not_mem_nil, false_iff, not_exists, not_and]
      intro snapshot best hsnapshot hid
      rw [find_fetchAllApys.mpr ⟨hsnapshot, hid⟩] at hfind
      exact absurd hfind nofun
    · rename_i snapshot hfind
      obtain ⟨hsnapshot, hid⟩ := find_fetchAllApys.mp hfind
      split
      · rename_i hhead
        simp only [List.not_mem_nil, false_iff, not_exists, not_and]
        intro _ best _ _ hbest
        rw [head_rankOpportunities.mpr ⟨best, hbest, rfl⟩] at hhead
        exact absurd hhead nofun
      · rename_i opportunity hhead
        obtain ⟨best, hbest, rfl⟩ := head_rankOpportunities.mp hhead
        rw [mem_decideRebalance]
        constructor
        · rintro ⟨hother, himproves, hbounds, hs⟩
          refine ⟨snapshot, best, hsnapshot, hid, hbest, ?_, himproves, hbounds, hs⟩
          rw [hid]
          exact hother
        · rintro ⟨snapshot', best', hsnapshot', hid', hbest', hother, himproves, hbounds, rfl⟩
          obtain rfl := eq_of_observed hsnapshot hsnapshot' (hid.trans hid'.symm)
          have hsame := (head?_insertionSort_eq_some.mpr hbest).symm.trans
            (head?_insertionSort_eq_some.mpr hbest')
          obtain rfl := Option.some.inj hsame
          rw [hid] at hother
          exact ⟨hother, himproves, hbounds, rfl⟩

/-- What has to hold for a run to submit `s`: a position, a cooldown that is over, and another
    protocol that is the first of the best and improves enough on the current one. -/
def Warranted (config : Config) (hooks : Hooks) (s : Submission) : Prop :=
  ∃ current cooldown, hooks.getCurrentProtocol = .resolves current ∧ current.IsValid ∧
    hooks.checkCooldown = .resolves cooldown ∧ cooldown.IsValid ∧ ¬ cooldown.IsActive ∧
    ∃ snapshot best, Observed config hooks snapshot ∧
      snapshot.protocolId = current.protocolId ∧
      FirstBest (score config) (config.fetchAllApys hooks) best ∧
      best.protocolId ≠ snapshot.protocolId ∧
      config.minImprovementThreshold ≤ toDouble (best.currentApy - snapshot.currentApy) ∧
      InBounds (YieldCheck.minOut current.deployedAmountStroops config.slippageBps)
        config.slippageBps ∧
      s = ⟨best.protocolId, best.currentApy,
        YieldCheck.minOut current.deployedAmountStroops config.slippageBps⟩

theorem mem_attempt : .submitRebalance s ∈ (attempt config hooks jobId checkedAt).2 ↔
    Warranted config hooks s := by
  unfold attempt execute Warranted
  cases hcurrent : hooks.getCurrentProtocol with
  | rejects message => simp [withTimeout, Except.bind, bind]
  | late => simp [withTimeout, Except.bind, bind]
  | resolves current =>
    by_cases hposition : current.IsValid
    · cases hcooldown : hooks.checkCooldown with
      | rejects message => simp [withTimeout, Except.bind, bind, hposition]
      | late => simp [withTimeout, Except.bind, bind, hposition]
      | resolves cooldown =>
        by_cases hvalid : cooldown.IsValid
        · by_cases hactive : cooldown.IsActive
          · simp [withTimeout, Except.bind, bind, pure, Except.pure, hposition, hvalid, hactive]
          · simp only [withTimeout, Except.bind, bind, pure, Except.pure, hposition, hvalid,
              hactive, not_true, if_false, mem_compareYields, Answer.resolves.injEq]
            simp [idleResult, hposition, hvalid, hactive]
        · simp [withTimeout, Except.bind, bind, pure, Except.pure, hposition, hvalid]
    · simp [withTimeout, Except.bind, bind, pure, Except.pure, hposition]

/-! ## The report -/

/-- Nothing is reported yet. -/
structure YieldCheckResult.Idle (result : YieldCheckResult) : Prop where
  triggered : result.rebalanceTriggered = false
  txHash : result.txHash = none

/-- What a run with these calls may report. It submits at most once, reports a rebalance if and only
    if it has a hash for it, which the submission or the reconciliation returned, never forgets the
    hash of a submission and never calls one failed that it gave up. -/
structure Reported (hooks : Hooks) (done : YieldCheckResult × List HookCall) : Prop where
  once : done.2 = [] ∨ ∃ s, done.2 = [.submitRebalance s] ∨
    done.2 = [.submitRebalance s, .reconcileRebalance s.protocol]
  triggered : done.1.rebalanceTriggered = true ↔ ∃ hash, done.1.txHash = some hash
  backed : ∀ hash, done.1.txHash = some hash → ∃ s, .submitRebalance s ∈ done.2 ∧
    (hooks.submitRebalance s = .resolves hash ∨
      .reconcileRebalance s.protocol ∈ done.2 ∧ ∃ reconcile, hooks.reconcileRebalance =
        some reconcile ∧ reconcile s.protocol = .resolves (some hash))
  accepted : ∀ s hash, .submitRebalance s ∈ done.2 → hooks.submitRebalance s = .resolves hash →
    done.1.txHash = some hash ∧ ∀ p, .reconcileRebalance p ∉ done.2
  abandoned : ∀ s, .submitRebalance s ∈ done.2 → hooks.submitRebalance s = .late →
    hooks.reconcileRebalance.isSome = true → .reconcileRebalance s.protocol ∈ done.2 ∧
      done.1.skipReason ≠ some "rebalance_submission_failed"

/-- A submission that was given up counts as uncertain. -/
theorem isUncertain_timeout {dependency : String} {timeoutMs : ℤ} : isUncertainSubmissionError
    (dependency ++ " timed out after " ++ toString timeoutMs ++ "ms") := by
  refine ⟨"timed out", by simp, ?_⟩
  have hmiddle : "timed out".toList <:+: " timed out after ".toList.map Char.toLower := by decide
  simp only [String.toList_append, List.map_append, List.append_assoc]
  refine hmiddle.trans ?_
  exact ⟨_, _, List.append_assoc _ _ _⟩

theorem reported_of_idle (h : result.Idle) : Reported hooks (result, []) where
  once := .inl rfl
  triggered := by simp [h.triggered, h.txHash]
  backed := by simp [h.txHash]
  accepted := nofun
  abandoned := nofun

/-- The chain is asked about a submission whose error is uncertain. -/
theorem reported_reconcile {error : String} {f : String → Answer (Option String)}
    (h : result.Idle) (hf : hooks.reconcileRebalance = some f)
    (hfailed : ∀ hash, hooks.submitRebalance s ≠ .resolves hash) :
    Reported hooks (reconcile config result error (f s.protocol),
      [.submitRebalance s, .reconcileRebalance s.protocol]) := by
  have hcalls : ∀ s', HookCall.submitRebalance s' ∈
      [.submitRebalance s, .reconcileRebalance s.protocol] → s' = s := by simp
  unfold reconcile
  cases hanswer : withTimeout (f s.protocol) "uncertain transaction reconciliation"
    config.timeoutMs with
  | error reconcileError =>
    refine ⟨.inr ⟨s, .inr rfl⟩, ?_, ?_, ?_, ?_⟩
    · simp [h.triggered, h.txHash]
    · simp [h.txHash]
    · intro s' hash hs' hok
      rw [hcalls s' hs'] at hok
      exact absurd hok (hfailed hash)
    · intro s' hs' _ _
      rw [hcalls s' hs']
      simp
  | ok reconciled =>
    cases hhash : reconciled.filter fun txHash => txHash ≠ "" with
    | none =>
      simp only [hhash]
      refine ⟨.inr ⟨s, .inr rfl⟩, ?_, ?_, ?_, ?_⟩
      · simp [h.triggered, h.txHash]
      · simp [h.txHash]
      · intro s' hash hs' hok
        rw [hcalls s' hs'] at hok
        exact absurd hok (hfailed hash)
      · intro s' hs' _ _
        rw [hcalls s' hs']
        simp
    | some txHash =>
      simp only [hhash]
      refine ⟨.inr ⟨s, .inr rfl⟩, by simp, ?_, ?_, ?_⟩
      · intro hash hsome
        obtain rfl : txHash = hash := Option.some.inj hsome
        refine ⟨s, by simp, .inr ⟨by simp, f, hf, ?_⟩⟩
        rw [withTimeout_eq_ok.mp hanswer, (Option.filter_eq_some_iff.mp hhash).1]
      · intro s' hash hs' hok
        rw [hcalls s' hs'] at hok
        exact absurd hok (hfailed hash)
      · intro s' hs' _ _
        rw [hcalls s' hs']
        simp

theorem reported_submit (h : result.Idle) : Reported hooks (submit config hooks result s) := by
  have hidle : { result with minOut := some s.minOut }.Idle := ⟨h.triggered, h.txHash⟩
  have hcalls : ∀ s', HookCall.submitRebalance s' ∈ [.submitRebalance s] → s' = s := by simp
  unfold submit
  cases hanswer : withTimeout (hooks.submitRebalance s) "rebalance submission"
    config.timeoutMs with
  | ok txHash =>
    have hok := withTimeout_eq_ok.mp hanswer
    refine ⟨.inr ⟨s, .inl rfl⟩, by simp, ?_, ?_, ?_⟩
    · intro hash hsome
      obtain rfl : txHash = hash := Option.some.inj hsome
      exact ⟨s, by simp, .inl hok⟩
    · intro s' hash hs' hok'
      rw [hcalls s' hs', hok] at hok'
      exact ⟨congrArg some (Answer.resolves.inj hok'), by simp⟩
    · intro s' hs' hlate
      rw [hcalls s' hs', hok] at hlate
      exact absurd hlate nofun
  | error error =>
    have hfailed : ∀ hash, hooks.submitRebalance s ≠ .resolves hash := by
      intro hash hok
      rw [hok] at hanswer
      exact absurd hanswer nofun
    by_cases huncertain : isUncertainSubmissionError error
    · cases hf : hooks.reconcileRebalance with
      | some f =>
        simp only [huncertain, if_true]
        exact reported_reconcile hidle hf hfailed
      | none =>
        simp only [huncertain, if_true]
        refine ⟨.inr ⟨s, .inl rfl⟩, by simp [h.triggered, h.txHash], by simp [h.txHash], ?_, ?_⟩
        · intro s' hash hs' hok
          rw [hcalls s' hs'] at hok
          exact absurd hok (hfailed hash)
        · intro s' _ _ hsome
          rw [hf] at hsome
          exact absurd hsome nofun
    · simp only [huncertain, if_false]
      refine ⟨.inr ⟨s, .inl rfl⟩, by simp [h.triggered, h.txHash], by simp [h.txHash], ?_, ?_⟩
      · intro s' hash hs' hok
        rw [hcalls s' hs'] at hok
        exact absurd hok (hfailed hash)
      · intro s' hs' hlate
        rw [hcalls s' hs'] at hlate
        rw [hlate] at hanswer
        obtain rfl := Except.error.inj hanswer
        exact absurd isUncertain_timeout huncertain

theorem reported_decideRebalance (h : result.Idle) :
    Reported hooks (decideRebalance config hooks result deployed best) := by
  unfold decideRebalance
  dsimp only
  split_ifs
  · exact reported_of_idle ⟨h.triggered, h.txHash⟩
  · exact reported_submit ⟨h.triggered, h.txHash⟩
  · exact reported_of_idle ⟨h.triggered, h.txHash⟩
  · exact reported_of_idle ⟨h.triggered, h.txHash⟩

theorem reported_compareYields (h : result.Idle) :
    Reported hooks (compareYields config hooks result deployed) := by
  unfold compareYields
  dsimp only
  split
  · exact reported_of_idle ⟨h.triggered, h.txHash⟩
  · split
    · exact reported_of_idle ⟨h.triggered, h.txHash⟩
    · split
      · exact reported_of_idle ⟨h.triggered, h.txHash⟩
      · exact reported_decideRebalance ⟨h.triggered, h.txHash⟩

theorem reported_attempt : Reported hooks (attempt config hooks jobId checkedAt) := by
  unfold attempt execute
  cases withTimeout hooks.getCurrentProtocol "current vault state" config.timeoutMs with
  | error error => exact reported_of_idle ⟨rfl, rfl⟩
  | ok current =>
    simp only [bind, Except.bind, pure, Except.pure]
    by_cases hposition : current.IsValid
    · cases withTimeout hooks.checkCooldown "rebalance cooldown state" config.timeoutMs with
      | error error =>
        simp only [hposition, not_true, if_false]
        exact reported_of_idle ⟨rfl, rfl⟩
      | ok cooldown =>
        by_cases hvalid : cooldown.IsValid
        · by_cases hactive : cooldown.IsActive
          · simp only [hposition, hvalid, hactive, not_true, if_true, if_false]
            exact reported_of_idle ⟨rfl, rfl⟩
          · simp only [hposition, hvalid, hactive, not_true, if_false]
            exact reported_compareYields ⟨rfl, rfl⟩
        · simp only [hposition, hvalid, not_true, not_false_iff, if_true, if_false]
          exact reported_of_idle ⟨rfl, rfl⟩
    · simp only [hposition, not_false_iff, if_true]
      exact reported_of_idle ⟨rfl, rfl⟩

/-- A result that cannot be stored is reported all the same. -/
theorem Reported.persist {done : YieldCheckResult × List HookCall} (h : Reported hooks done) :
    Reported hooks (YieldCheckJob.persist config stored done.1, done.2) := by
  unfold YieldCheckJob.persist
  split
  · exact h
  · exact ⟨h.once, h.triggered, h.backed, h.accepted, h.abandoned⟩

/-! ## Main results -/

theorem submits_iff_warranted :
    .submitRebalance s ∈ (runOnce config hooks jobCounter wallClock checkedAt stored).2 ↔
      Warranted config hooks s :=
  mem_attempt

theorem outcome_reported :
    Reported hooks (runOnce config hooks jobCounter wallClock checkedAt stored) :=
  reported_attempt.persist

/-! ## The vault's own cooldown -/

section OnChain

variable {w w' : World} {m last : ℕ}

/-- Calls that change neither the limits nor the ledger of the latest rebalance, while the ledger
    does not go back. -/
def SparesCooldown (w : World) : Step → Prop
  | .call _ call => .limits ∉ call.writes ∧ .lastRebalance ∉ call.writes
  | .ambient chain => w.chain.sequence ≤ chain.sequence

theorem ok_getRebalanceCooldown {env : Vault.Env} :
    getRebalanceCooldown.Ok env w m w ↔
      w.Initialized ∧ m = w.limits.minRebalanceInterval.getD 0 := by
  simp [getRebalanceCooldown, Tx.ok_bind, Vault.ok_requireInitialized, eq_comm]

theorem ok_getLastRebalanceLedger {env : Vault.Env} :
    getLastRebalanceLedger.Ok env w last w ↔
      w.Initialized ∧ last = w.limits.lastRebalanceLedger.getD 0 := by
  simp [getLastRebalanceLedger, Tx.ok_bind, Vault.ok_requireInitialized, eq_comm]

/-- The cooldown is still that of `w`, and the ledger is no earlier one. -/
structure Spared (w t : World) : Prop where
  interval : t.limits.minRebalanceInterval = w.limits.minRebalanceInterval
  latest : t.limits.lastRebalanceLedger = w.limits.lastRebalanceLedger
  forward : w.chain.sequence ≤ t.chain.sequence

theorem spared_of_reaches (hi : w.Initialized) (hrun : Reaches SparesCooldown w w') :
    Spared w w' := by
  refine (Vault.Reaches.keeps (P := Spared w) hrun hi ⟨rfl, rfl, le_rfl⟩ ?_).1
  intro t step hspares hit ht
  refine Vault.after_cases (P := Spared w) step hit ht ?_ ?_
  · intro env call t' hstep hok heffect
    subst hstep
    have hlimits : t'.limits.configured = t.limits.configured :=
      Vault.same_of_invoke (p := .limits) hspares.1 hok
    have hlatest : t'.limits.lastRebalanceLedger = t.limits.lastRebalanceLedger :=
      Vault.same_of_invoke (p := .lastRebalance) hspares.2 hok
    have hinterval : t'.limits.configured.minRebalanceInterval =
        t.limits.configured.minRebalanceInterval := by
      rw [hlimits]
    exact ⟨Eq.trans hinterval ht.interval, hlatest.trans ht.latest,
      ht.forward.trans heffect.sequence.ge⟩
  · rintro chain rfl
    exact ⟨ht.interval, ht.latest, ht.forward.trans hspares⟩

/-- The vault does not refuse a submitted rebalance for its cooldown, if the job read the cooldown
    from the vault and nobody else rebalanced it since. -/
theorem cooldown_over_on_chain {env env' : Vault.Env}
    (hinterval : getRebalanceCooldown.Ok env w m w)
    (hlast : getLastRebalanceLedger.Ok env w last w)
    (hread : hooks.checkCooldown = .resolves ⟨m, last, w.chain.sequence⟩)
    (hsubmitted : .submitRebalance s ∈
      (runOnce config hooks jobCounter wallClock checkedAt stored).2)
    (hrun : Reaches SparesCooldown w w') : requireCooldownElapsed.Ok env' w' () w' := by
  obtain ⟨hi, rfl⟩ := ok_getRebalanceCooldown.mp hinterval
  obtain ⟨-, rfl⟩ := ok_getLastRebalanceLedger.mp hlast
  obtain ⟨_, cooldown, -, -, hresolved, hvalid, hactive, -⟩ := mem_attempt.mp hsubmitted
  obtain rfl := Answer.resolves.inj (hread.symm.trans hresolved)
  have hspared := spared_of_reaches hi hrun
  have hle := hspared.forward
  refine Vault.ok_requireCooldownElapsed.mpr ⟨?_, rfl⟩
  intro interval latest hsome hlatest hpos
  rw [hspared.interval] at hsome
  rw [hspared.latest] at hlatest
  rw [hsome, hlatest] at hactive
  simp only [Cooldown.IsActive, Cooldown.ledgersSinceRebalance, Option.getD_some, not_and,
    not_lt] at hactive
  have hwaited : (interval : ℚ) ≤ w.chain.sequence - latest := hactive (by exact_mod_cast hpos)
  have hsum : interval + latest ≤ w.chain.sequence := by
    have : ((interval + latest : ℕ) : ℚ) ≤ (w.chain.sequence : ℕ) := by
      push_cast
      linarith
    exact_mod_cast this
  omega

end OnChain

namespace Sample

open Vault.Sample (opened honest owner alice blendPool)

/-- A cooldown of ten ledgers, and a rebalance ten ledgers ago. -/
def rebalanced : World :=
  opened.replay [.call honest (.setRebalanceCooldown 10),
    .call honest (.setVenuePool .blend owner blendPool), .call honest (.deposit alice 5000000),
    .call honest (.rebalance .blend 500 0), .ambient { opened.chain with sequence := 1010 }]

def yield (protocolId : String) (apy : ℚ) : ProtocolYieldData where
  protocolId := protocolId
  name := protocolId
  currentApy := apy
  historicalApy7d := apy
  historicalApy30d := apy
  tvlUsdc := 1000000
  volatility := 0
  riskScore := 20
  fetchedAt := none

/-- The funds are in Blend, and the DEX pays half as much again. -/
def paying : Hooks where
  getCurrentProtocol := .resolves ⟨"blend", 5000000⟩
  checkCooldown := .resolves ⟨(10 : ℕ), (1000 : ℕ), (1010 : ℕ)⟩
  apyFetchers := [⟨"blend", .resolves (yield "blend" (1 / 16)), 0⟩,
    ⟨"dex", .resolves (yield "dex" (3 / 32)), 0⟩]
  distinct := by decide
  submitRebalance _ := .resolves "a1"
  reconcileRebalance := none

/-- After another deposit the vault takes the call. -/
theorem paying_not_refused :
    requireCooldownElapsed.Ok honest (rebalanced.replay [.call honest (.deposit alice 3000000)]) ()
      (rebalanced.replay [.call honest (.deposit alice 3000000)]) := by
  have hsubmitted : .submitRebalance ⟨"dex", 3 / 32, 4975000⟩ ∈
      (runOnce ⟨50, 1 / 128, none, none⟩ paying 0 0 0 (.resolves ())).2 := by
    decide +kernel
  have hcooldown : getRebalanceCooldown.Ok honest rebalanced 10 rebalanced :=
    ok_getRebalanceCooldown.mpr ⟨by decide +kernel, by decide +kernel⟩
  have hlast : getLastRebalanceLedger.Ok honest rebalanced 1000 rebalanced :=
    ok_getLastRebalanceLedger.mpr ⟨by decide +kernel, by decide +kernel⟩
  exact cooldown_over_on_chain hcooldown hlast rfl hsubmitted
    (.of_admits ⟨⟨by decide, by decide⟩, trivial⟩)

end Sample

end NeuroWealth.YieldCheckJob
