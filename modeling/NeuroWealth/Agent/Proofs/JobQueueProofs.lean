import NeuroWealth.Agent.JobQueue
import NeuroWealth.Foundation.Runs

/-!
# What a tick takes from the queue

While the breaker stays closed a tick runs the due jobs at the head of the queue. It leaves a due
job behind exactly when a job that is not due is more urgent than it.
-/

namespace NeuroWealth.JobQueue

open Scheduler PriorityQueue Runs

variable {config : SchedulerConfig} {hooks : SchedulerHooks} {now : ℚ} {h : Health}
  {job : RebalanceJob} {queue : List RebalanceJob} {s : RebalanceScheduler}

/-- Earlier in the order of priority, due time and enqueueing. -/
def RebalanceJob.Precedes : RebalanceJob → RebalanceJob → Prop := keys.Precedes RebalanceJob.id

/-- A tick at `now` ran `ran` and left `queue`: nothing due is left, no job ran early, twice or out
    of order. -/
structure Drained (now : ℚ) (ran queue : List RebalanceJob) : Prop where
  complete : ∀ job ∈ queue, now < job.dueAt
  punctual : ∀ job ∈ ran, job.dueAt ≤ now
  once : (ran.map RebalanceJob.id).Nodup
  gone : ∀ job ∈ ran, ∀ left ∈ queue, job.id ≠ left.id
  ordered : ran.Pairwise RebalanceJob.Precedes

/-- No due job of the queue has a more urgent job before it that is not due, and if the tick emits
    a due job then all of the queue is due. -/
structure RebalanceScheduler.Unblocked (s : RebalanceScheduler) (config : SchedulerConfig)
    (hooks : SchedulerHooks) (now : ℚ) : Prop where
  queued : ∀ a ∈ s.queue, ∀ b ∈ s.queue, now < a.dueAt → b.dueAt ≤ now → b.priority ≤ a.priority
  emitted : s.IntervalElapsed config now → hooks.acquireLease = true → hooks.now ≤ now →
    ∀ a ∈ s.queue, a.dueAt ≤ now

/-- The queue is in order, its ids are distinct and used up, and each job has the priority of its
    trigger. -/
structure RebalanceScheduler.Sorted (s : RebalanceScheduler) : Prop where
  ordered : s.queue.Pairwise RebalanceJob.Precedes
  distinct : (s.queue.map RebalanceJob.id).Nodup
  numbered : ∀ job ∈ s.queue, job.id ≤ s.jobCounter
  priority : ∀ job ∈ s.queue, job.priority = PRIORITY job.trigger

/-! ## The loop -/

theorem runJob_jobId : (runJob config hooks now h job).2.jobId = job.id := by
  unfold runJob
  split_ifs
  · rfl
  · rfl

/-- An open breaker stops the loop. -/
theorem drain_tripped (htripped : h.circuitBreakerTripped = true) :
    drain config hooks now queue h = ((queue, h), []) := by
  cases queue with
  | nil => rfl
  | cons job queue =>
    refine if_neg ?_
    rintro ⟨-, hclosed⟩
    rw [htripped] at hclosed
    cases hclosed

/-- With the breaker closed throughout, the loop runs the due jobs at the head. -/
theorem drain_closed
    (hclosed : (drain config hooks now queue h).1.2.circuitBreakerTripped = false) :
    (drain config hooks now queue h).1.1 = queue.dropWhile (fun job => job.dueAt ≤ now) ∧
      (drain config hooks now queue h).2.map RebalanceExecution.jobId =
        (queue.takeWhile fun job => job.dueAt ≤ now).map RebalanceJob.id := by
  induction queue generalizing h with
  | nil => exact ⟨rfl, rfl⟩
  | cons job queue ih =>
    unfold drain at hclosed ⊢
    by_cases hdue : job.dueAt ≤ now
    · by_cases hopen : h.circuitBreakerTripped = false
      · rw [if_pos ⟨hdue, hopen⟩] at hclosed ⊢
        obtain ⟨hleft, hran⟩ := ih hclosed
        rw [List.dropWhile_cons_of_pos (by simpa using hdue),
          List.takeWhile_cons_of_pos (by simpa using hdue)]
        refine ⟨hleft, ?_⟩
        rw [List.map_cons, List.map_cons, runJob_jobId, hran]
      · rw [if_neg fun hc => hopen hc.2] at hclosed
        exact absurd hclosed hopen
    · rw [if_neg fun hc => hdue hc.1]
      rw [List.dropWhile_cons_of_neg (by simpa using hdue),
        List.takeWhile_cons_of_neg (by simpa using hdue)]
      exact ⟨rfl, rfl⟩

/-- Whatever happens, the loop only takes jobs from the head. -/
theorem drain_suffix : (drain config hooks now queue h).1.1 <:+ queue := by
  induction queue generalizing h with
  | nil => exact List.suffix_refl _
  | cons job queue ih =>
    unfold drain
    split_ifs
    · exact ih.trans (List.suffix_cons _ _)
    · exact List.suffix_refl _

/-! ## The queue in every run -/

theorem sorted_enqueue {trigger : RebalanceTrigger} {dueAt : Option ℚ} (hs : s.Sorted) :
    (s.enqueue now trigger dueAt).Sorted := by
  have hmem : ∀ job ∈ (s.enqueue now trigger dueAt).queue, job ∈ s.queue ∨
      job = ⟨s.jobCounter + 1, trigger, PRIORITY trigger, dueAt.getD now, now⟩ := by
    intro job hjob
    exact mem_push.mp hjob
  have hnew : ∀ job ∈ s.queue, job.id < s.jobCounter + 1 := fun job hjob =>
    Nat.lt_succ_of_le (hs.numbered job hjob)
  refine ⟨pairwise_push hs.ordered hnew, ?_, fun job hjob => ?_, fun job hjob => ?_⟩
  · refine (push_perm.map RebalanceJob.id).nodup_iff.mpr ?_
    rw [List.map_append]
    refine List.nodup_append.mpr ⟨hs.distinct, List.nodup_singleton _, ?_⟩
    intro i hi j hj hij
    obtain ⟨job, hjob, rfl⟩ := List.mem_map.mp hi
    have hnumber : job.id = s.jobCounter + 1 := hij.trans (List.mem_singleton.mp hj)
    exact absurd (hnew job hjob) (by omega)
  · rcases hmem job hjob with hold | rfl
    · exact (hs.numbered job hold).trans (Nat.le_succ _)
    · exact le_rfl
  · rcases hmem job hjob with hold | rfl
    · exact hs.priority job hold
    · rfl

theorem sorted_emit (hs : s.Sorted) : (s.emit config hooks now).Sorted := by
  unfold RebalanceScheduler.emit
  split_ifs
  · exact sorted_enqueue hs
  · exact hs

theorem sorted_tick (hs : s.Sorted) : (s.tick config hooks now).1.Sorted := by
  unfold RebalanceScheduler.tick
  split_ifs
  · exact hs
  · have hemitted : (s.emit config hooks now).Sorted := sorted_emit hs
    have hsuffix : (drain config hooks now (s.emit config hooks now).queue
        (s.emit config hooks now).health).1.1 <:+ (s.emit config hooks now).queue := drain_suffix
    refine ⟨hemitted.ordered.sublist hsuffix.sublist,
      hemitted.distinct.sublist (hsuffix.sublist.map _), fun job hjob => ?_, fun job hjob => ?_⟩
    · exact hemitted.numbered job (hsuffix.subset hjob)
    · exact hemitted.priority job (hsuffix.subset hjob)

theorem sorted_of_reaches (hreach : Reaches RebalanceScheduler.after (fun _ _ => True) {} s) :
    s.Sorted := by
  refine hreach.invariant ⟨List.Pairwise.nil, List.nodup_nil, nofun, nofun⟩ fun t step _ ht => ?_
  cases step with
  | enqueue now trigger dueAt => exact sorted_enqueue ht
  | tick config hooks now => exact sorted_tick ht

/-! ## One tick -/

theorem priority_lt_scheduled {trigger : RebalanceTrigger} (ht : trigger ≠ .scheduled) :
    PRIORITY trigger < PRIORITY .scheduled := by
  cases trigger with
  | scheduled => exact absurd rfl ht
  | tvlChange => decide
  | utilizationSpike => decide
  | manual => decide

theorem priority_le_scheduled (trigger : RebalanceTrigger) :
    PRIORITY trigger ≤ PRIORITY .scheduled := by
  cases trigger <;> decide

/-- The jobs the loop finds block each other exactly when the ones before the tick do. -/
theorem unblocked_iff (hs : s.Sorted) :
    (∀ a ∈ (s.emit config hooks now).queue, ∀ b ∈ (s.emit config hooks now).queue,
      now < a.dueAt → b.dueAt ≤ now → b.priority ≤ a.priority) ↔ s.Unblocked config hooks now := by
  by_cases hemits : s.IntervalElapsed config now ∧ hooks.acquireLease = true
  · have hemit : s.emit config hooks now = s.enqueue hooks.now .scheduled none := if_pos hemits
    set emitted : RebalanceJob :=
      ⟨s.jobCounter + 1, .scheduled, PRIORITY .scheduled, hooks.now, hooks.now⟩ with hjob
    have hmem : ∀ job, job ∈ (s.emit config hooks now).queue ↔ job ∈ s.queue ∨ job = emitted := by
      intro job
      rw [hemit]
      exact mem_push
    constructor
    · intro hall
      refine ⟨fun a ha b hb => hall a ((hmem a).mpr (.inl ha)) b ((hmem b).mpr (.inl hb)), ?_⟩
      intro _ _ hdue a ha
      by_contra hlate
      have hle : PRIORITY .scheduled ≤ a.priority :=
        hall a ((hmem a).mpr (.inl ha)) emitted ((hmem _).mpr (.inr rfl)) (not_le.mp hlate) hdue
      rw [hs.priority a ha] at hle
      exact absurd (priority_lt_scheduled (hemits.1.1 a ha)) hle.not_gt
    · intro hu a ha b hb hlate hdue
      rcases (hmem a).mp ha with ha | rfl
      · rcases (hmem b).mp hb with hb | rfl
        · exact hu.queued a ha b hb hlate hdue
        · exact absurd (hu.emitted hemits.1 hemits.2 hdue a ha) (not_le.mpr hlate)
      · rcases (hmem b).mp hb with hb | rfl
        · rw [hs.priority b hb]
          exact priority_le_scheduled _
        · exact le_rfl
  · have hemit : s.emit config hooks now = s := if_neg hemits
    rw [hemit]
    constructor
    · intro hall
      exact ⟨hall, fun helapsed hlease => absurd ⟨helapsed, hlease⟩ hemits⟩
    · intro hu
      exact hu.queued

/-- In every run of enqueues and ticks, a tick through which the breaker stays closed drains the
    queue exactly when no due job is blocked. -/
theorem tick_drains_iff (hreach : Reaches RebalanceScheduler.after (fun _ _ => True) {} s)
    (hclosed : (s.tick config hooks now).1.health.circuitBreakerTripped = false) :
    ∃ ran : List RebalanceJob, (∀ job ∈ ran, job ∈ (s.emit config hooks now).queue) ∧
      (s.tick config hooks now).2.map RebalanceExecution.jobId = ran.map RebalanceJob.id ∧
      (Drained now ran (s.tick config hooks now).1.queue ↔ s.Unblocked config hooks now) := by
  have hs := sorted_of_reaches hreach
  have hemitted : (s.emit config hooks now).Sorted := sorted_emit hs
  unfold RebalanceScheduler.tick at hclosed ⊢
  by_cases htripped : s.health.circuitBreakerTripped = true
  · rw [if_pos htripped, htripped] at hclosed
    cases hclosed
  rw [if_neg htripped] at hclosed ⊢
  obtain ⟨hleft, hran⟩ := drain_closed hclosed
  set q := (s.emit config hooks now).queue with hq
  refine ⟨q.takeWhile fun job => job.dueAt ≤ now, fun job hjob => List.takeWhile_subset _ hjob,
    hran, ?_⟩
  show Drained now _ (drain config hooks now q _).1.1 ↔ _
  rw [hleft, ← unblocked_iff hs]
  have hdrained : (∀ job ∈ q.dropWhile fun job => job.dueAt ≤ now, now < job.dueAt) ↔
      ∀ a ∈ q, ∀ b ∈ q, now < a.dueAt → b.dueAt ≤ now → b.priority ≤ a.priority :=
    drained_iff (k := keys) (hemitted.ordered.imp fun h => h.before)
  have hsplit : q.takeWhile (fun job => job.dueAt ≤ now) ++
      q.dropWhile (fun job => job.dueAt ≤ now) = q := List.takeWhile_append_dropWhile
  have hordered : q.Pairwise RebalanceJob.Precedes := hemitted.ordered
  have hdistinct : (q.map RebalanceJob.id).Nodup := hemitted.distinct
  rw [← hsplit] at hordered hdistinct
  rw [List.map_append] at hdistinct
  obtain ⟨htaken, -, -⟩ := List.pairwise_append.mp hordered
  obtain ⟨honce, -, hacross⟩ := List.nodup_append.mp hdistinct
  constructor
  · intro h
    exact hdrained.mp h.complete
  · intro hfree
    refine ⟨hdrained.mpr hfree, fun job hjob => ?_, honce, fun job hjob left hleft => ?_, htaken⟩
    · simpa using List.mem_takeWhile_imp hjob
    · exact hacross _ (List.mem_map_of_mem hjob) _ (List.mem_map_of_mem hleft)

namespace Sample

/-- A tick at 10 o'clock, with the lease to be had and an executor that succeeds. -/
def quick : SchedulerHooks :=
  { now := 10, acquireLease := true, gasPriceProvider := none, executor := fun _ => some true }

/-- Another replica has the lease. -/
def alone : SchedulerHooks := { quick with acquireLease := false }

def everyFour : SchedulerConfig :=
  { intervalMs := 4, maxGasPriceStroops := some 100000, circuitBreakerThreshold := 3 }

/-- A manual job for later before a scheduled one that is due. -/
def blocked : RebalanceScheduler :=
  [Step.enqueue 0 .manual (some 20), .enqueue 0 .scheduled (some 5)].foldl
    RebalanceScheduler.after {}

/-- The due job is left behind. -/
theorem blocked_left :
    Reaches RebalanceScheduler.after (fun _ _ => True) {} blocked ∧
      (blocked.tick everyFour quick 10).1.health.circuitBreakerTripped = false ∧
      ∀ ran, ¬ Drained 10 ran (blocked.tick everyFour quick 10).1.queue := by
  refine ⟨.of_steps _, by decide +kernel, fun ran h => ?_⟩
  have hleft : (⟨2, .scheduled, 3, 5, 0⟩ : RebalanceJob) ∈
      (blocked.tick everyFour quick 10).1.queue := by decide +kernel
  exact absurd (h.complete _ hleft) (by decide +kernel)

/-- A manual job that is due and one for later of the same priority. -/
def orderly : RebalanceScheduler :=
  [Step.enqueue 0 .manual (some 20), .enqueue 0 .manual (some 5), .enqueue 0 .tvlChange none].foldl
    RebalanceScheduler.after {}

theorem orderly_drained : ∃ ran : List RebalanceJob,
    (∀ job ∈ ran, job ∈ (orderly.emit everyFour alone 10).queue) ∧
      (orderly.tick everyFour alone 10).2.map RebalanceExecution.jobId =
        ran.map RebalanceJob.id ∧
      (Drained 10 ran (orderly.tick everyFour alone 10).1.queue ↔
        orderly.Unblocked everyFour alone 10) :=
  tick_drains_iff (.of_steps _) (by decide +kernel)

end Sample

end NeuroWealth.JobQueue
