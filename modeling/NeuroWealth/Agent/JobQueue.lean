import NeuroWealth.Agent.Scheduler
import NeuroWealth.Foundation.PriorityQueue

/-!
# The scheduler's job queue

One scheduler on its own: what is enqueued, and what a tick takes from the queue. Times are
milliseconds. The lease of an interval is the business of the scheduler's replicas; here a tick is
told whether it got it.
-/

namespace NeuroWealth.JobQueue

open Scheduler PriorityQueue

structure RebalanceJob where
  id : ℕ
  trigger : RebalanceTrigger
  priority : ℕ
  dueAt : ℚ
  createdAt : ℚ
deriving DecidableEq

structure RebalanceExecution where
  jobId : ℕ
  trigger : RebalanceTrigger
  executedAt : ℚ
  success : Bool
  skipped : Bool := false
deriving DecidableEq

structure SchedulerConfig where
  intervalMs : ℚ
  maxGasPriceStroops : Option ℚ
  circuitBreakerThreshold : ℕ

/-- The hooks during one tick. Without a `gasPriceProvider` there is no gas gate; a lookup that
    fails and an executor that throws give `none`. `onAlert` returns: one that throws would end the
    tick before the rest of the queue is drained. -/
structure SchedulerHooks where
  now : ℚ
  acquireLease : Bool
  gasPriceProvider : Option (RebalanceJob → Option ℚ)
  executor : RebalanceJob → Option Bool

/-- What a run of a job changes. -/
structure Health where
  consecutiveFailures : ℕ := 0
  circuitBreakerTripped : Bool := false
  lastRunAt : Option ℚ := none

structure RebalanceScheduler where
  queue : List RebalanceJob := []
  jobCounter : ℕ := 0
  health : Health := {}

/-- The queue stays sorted by priority and due time. -/
def keys : Keys RebalanceJob ℕ ℚ where
  priority := RebalanceJob.priority
  dueAt := RebalanceJob.dueAt

/-- Without a due time of its own a job is due at once. -/
def RebalanceScheduler.enqueue (s : RebalanceScheduler) (now : ℚ) (trigger : RebalanceTrigger)
    (dueAt : Option ℚ) : RebalanceScheduler :=
  let job : RebalanceJob :=
    { id := s.jobCounter + 1
      trigger := trigger
      priority := PRIORITY trigger
      dueAt := dueAt.getD now
      createdAt := now }
  { s with queue := keys.push s.queue job, jobCounter := s.jobCounter + 1 }

/-- The gas price is known and too high for a scheduled job. -/
def TooExpensive (config : SchedulerConfig) (hooks : SchedulerHooks) (job : RebalanceJob) : Prop :=
  job.trigger = .scheduled ∧ ∃ provider ∈ hooks.gasPriceProvider, ∃ gasPrice ∈ provider job,
    ∃ max ∈ config.maxGasPriceStroops, max < gasPrice

instance (config : SchedulerConfig) (hooks : SchedulerHooks) (job : RebalanceJob) :
    Decidable (TooExpensive config hooks job) :=
  inferInstanceAs (Decidable (_ ∧ ∃ provider ∈ _, ∃ gasPrice ∈ _, ∃ max ∈ _, _))

def runJob (config : SchedulerConfig) (hooks : SchedulerHooks) (now : ℚ) (h : Health)
    (job : RebalanceJob) : Health × RebalanceExecution :=
  if TooExpensive config hooks job then
    (h, { jobId := job.id, trigger := job.trigger, executedAt := now, success := true,
          skipped := true })
  else
    let success := (hooks.executor job).getD false
    let failures := if success = true then 0 else h.consecutiveFailures + 1
    ({ consecutiveFailures := failures
       circuitBreakerTripped := h.circuitBreakerTripped ||
         (!success && decide (config.circuitBreakerThreshold ≤ failures))
       lastRunAt := some now },
     { jobId := job.id, trigger := job.trigger, executedAt := now, success := success })

/-- The `while` loop: the head runs while it is due and the breaker is closed. Returns what is left
    of the queue. -/
def drain (config : SchedulerConfig) (hooks : SchedulerHooks) (now : ℚ) :
    List RebalanceJob → Health → (List RebalanceJob × Health) × List RebalanceExecution
  | [], h => (([], h), [])
  | job :: queue, h =>
    if job.dueAt ≤ now ∧ h.circuitBreakerTripped = false then
      let run := runJob config hooks now h job
      let rest := drain config hooks now queue run.1
      (rest.1, run.2 :: rest.2)
    else ((job :: queue, h), [])

/-- No scheduled job is pending and the interval has elapsed. -/
def RebalanceScheduler.IntervalElapsed (s : RebalanceScheduler) (config : SchedulerConfig)
    (now : ℚ) : Prop :=
  (∀ job ∈ s.queue, job.trigger ≠ .scheduled) ∧
    ∀ lastRunAt ∈ s.health.lastRunAt, config.intervalMs ≤ now - lastRunAt

instance (s : RebalanceScheduler) (config : SchedulerConfig) (now : ℚ) :
    Decidable (s.IntervalElapsed config now) :=
  inferInstanceAs (Decidable ((∀ job ∈ s.queue, _) ∧ ∀ lastRunAt ∈ s.health.lastRunAt, _))

/-- The interval-based emission: the job is due at the clock's reading. -/
def RebalanceScheduler.emit (s : RebalanceScheduler) (config : SchedulerConfig)
    (hooks : SchedulerHooks) (now : ℚ) : RebalanceScheduler :=
  if s.IntervalElapsed config now ∧ hooks.acquireLease = true then
    s.enqueue hooks.now .scheduled none
  else s

/-- One tick at `now`, with the executions it returns. -/
def RebalanceScheduler.tick (s : RebalanceScheduler) (config : SchedulerConfig)
    (hooks : SchedulerHooks) (now : ℚ) : RebalanceScheduler × List RebalanceExecution :=
  if s.health.circuitBreakerTripped = true then (s, [])
  else
    let emitted := s.emit config hooks now
    let drained := drain config hooks now emitted.queue emitted.health
    ({ emitted with queue := drained.1.1, health := drained.1.2 }, drained.2)

/-- What happens to a scheduler. -/
inductive Step where
  | enqueue (now : ℚ) (trigger : RebalanceTrigger) (dueAt : Option ℚ)
  | tick (config : SchedulerConfig) (hooks : SchedulerHooks) (now : ℚ)

def RebalanceScheduler.after (s : RebalanceScheduler) : Step → RebalanceScheduler
  | .enqueue now trigger dueAt => s.enqueue now trigger dueAt
  | .tick config hooks now => (s.tick config hooks now).1

end NeuroWealth.JobQueue
