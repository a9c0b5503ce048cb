import NeuroWealth.Foundation.Interleaving

/-!
# The rebalance scheduler

Replicas of the scheduler, their ticks and the lease they share. A tick runs from await to await;
ticks of one replica may overlap. The store answers a request before or after the tick hears of it,
and any answer may be lost. A restarted process is another replica.
-/

namespace NeuroWealth.Scheduler

open Interleaving

variable {ι ρ : Type} [DecidableEq ι] [DecidableEq ρ]

inductive RebalanceTrigger where
  | scheduled
  | tvlChange
  | utilizationSpike
  | manual
deriving DecidableEq

/-- Event-driven before manual before scheduled. -/
def PRIORITY : RebalanceTrigger → ℕ
  | .utilizationSpike => 0
  | .tvlChange => 1
  | .manual => 2
  | .scheduled => 3

/-- A queued job. For a scheduled one `grantedAt` is the clock reading of the tick that got the
    lease for it. -/
structure RebalanceJob where
  trigger : RebalanceTrigger
  dueAt : ℕ
  grantedAt : ℕ
deriving DecidableEq

/-- What a replica keeps to itself. -/
structure Replica where
  queue : List RebalanceJob
  consecutiveFailures : ℕ
  circuitBreakerTripped : Bool
  lastRunAt : Option ℕ
  leaseHeld : Bool
  crashed : Bool

/-- The call of the executor for a scheduled job. `now` is the clock reading of the tick that makes
    it, `grantedAt` that of the tick that got the lease. -/
structure Start (ρ : Type) where
  number : ℕ
  replica : ρ
  time : ℕ
  now : ℕ
  grantedAt : ℕ
deriving DecidableEq

/-- The replica of each tick, and the configuration all replicas share. -/
structure Env (ι ρ : Type) where
  replica : ι → ρ
  interval : ℕ
  leaseTtlMs : ℕ
  circuitBreakerThreshold : ℕ
  hasGasPriceProvider : Bool
  maxGasPriceStroops : Option ℕ

/-- The clock, the lease with its owner and expiry, the replicas, all starts, newest first, and the
    numbers of those whose executor came back. -/
structure Shared (ρ : Type) where
  clock : ℕ
  lease : Option (ρ × ℕ)
  replica : ρ → Replica
  starts : List (Start ρ)
  finished : List ℕ

/-- Where a tick stands; `now` is its reading of the clock. -/
inductive Stage where
  | idle
  /-- `leaseStore.renew` is on its way, then answered. -/
  | renewing (now : ℕ)
  | renewed (now : ℕ) (ok : Bool)
  /-- `leaseStore.acquire` is on its way, then answered. -/
  | acquiring (now : ℕ)
  | acquired (now : ℕ) (ok : Bool)
  /-- `acquireLease` has returned. -/
  | emitting (now : ℕ) (owned : Bool)
  | pricing (now : ℕ) (job : RebalanceJob)
  /-- The executor is running; `number` is that of a scheduled job's start. -/
  | executing (now : ℕ) (job : RebalanceJob) (number : ℕ)
  /-- `leaseStore.release` is on its way, then answered. -/
  | releasing (now : ℕ)
  | released (now : ℕ)
  /-- At the condition of the `while` loop. -/
  | looping (now : ℕ)
  | done
deriving DecidableEq

/-- A tick starts or goes on; the store grants or refuses; a promise resolves or rejects. -/
inductive Outcome where
  | start
  | ok
  | throws
  | granted
  | refused
  | price (stroops : ℕ)
  | finished (success : Bool)
deriving DecidableEq

/-- Time passes, a replica crashes, or an observation or a person enqueues a job. -/
inductive Change (ρ : Type) where
  | passes (time : ℕ)
  | crash (r : ρ)
  | enqueue (r : ρ) (trigger : RebalanceTrigger)

/-- The order of the queue. -/
def RebalanceJob.before (a b : RebalanceJob) : Bool :=
  PRIORITY a.trigger < PRIORITY b.trigger ∨
    PRIORITY a.trigger = PRIORITY b.trigger ∧ a.dueAt ≤ b.dueAt

namespace Shared

variable (x : Shared ρ)

/-- Replica `r` changes. -/
def set (r : ρ) (rep : Replica) : Shared ρ :=
  { x with replica := Function.update x.replica r rep }

def enqueue (r : ρ) (trigger : RebalanceTrigger) (grantedAt : ℕ) : Shared ρ :=
  let rep := x.replica r
  let job : RebalanceJob := ⟨trigger, x.clock, grantedAt⟩
  x.set r { rep with queue := (rep.queue ++ [job]).mergeSort RebalanceJob.before }

/-- The store gives the lease to nobody who finds another owner's lease unexpired. -/
def Free (r : ρ) : Prop := ∀ lease ∈ x.lease, lease.2 ≤ x.clock ∨ lease.1 = r

instance (r : ρ) : Decidable (x.Free r) :=
  inferInstanceAs (Decidable (∀ lease ∈ x.lease, _))

/-- Replica `r` owns the lease. -/
def Owns (r : ρ) : Prop := ∃ lease ∈ x.lease, lease.1 = r

instance (r : ρ) : Decidable (x.Owns r) :=
  inferInstanceAs (Decidable (∃ lease ∈ x.lease, _))

def grant (r : ρ) (expiresAt : ℕ) : Shared ρ := { x with lease := some (r, expiresAt) }

/-- The store drops the lease if `r` owns it. -/
def release (r : ρ) : Shared ρ := if x.Owns r then { x with lease := none } else x

end Shared

/-- The executor is called. -/
def execute (env : Env ι ρ) (i : ι) (x : Shared ρ) (now : ℕ) (job : RebalanceJob) :
    Shared ρ × Stage :=
  if job.trigger = .scheduled then
    let start := ⟨x.starts.length, env.replica i, x.clock, now, job.grantedAt⟩
    ({ x with starts := start :: x.starts }, .executing now job x.starts.length)
  else (x, .executing now job x.starts.length)

/-- `runJob` up to its first await. -/
def runJob (env : Env ι ρ) (i : ι) (x : Shared ρ) (now : ℕ) (job : RebalanceJob) :
    Shared ρ × Stage :=
  if job.trigger = .scheduled ∧ env.hasGasPriceProvider then (x, .pricing now job)
  else execute env i x now job

/-- The `while` loop up to its next await. -/
def drain (env : Env ι ρ) (i : ι) (x : Shared ρ) (now : ℕ) : Shared ρ × Stage :=
  let rep := x.replica (env.replica i)
  match rep.queue with
  | [] => (x, .done)
  | job :: rest =>
    if job.dueAt ≤ now ∧ rep.circuitBreakerTripped = false then
      runJob env i (x.set (env.replica i) { rep with queue := rest }) now job
    else (x, .done)

/-- The tick up to its first await. -/
def tick (env : Env ι ρ) (i : ι) (x : Shared ρ) : Shared ρ × Stage :=
  let rep := x.replica (env.replica i)
  if rep.circuitBreakerTripped then (x, .done)
  else if (∀ job ∈ rep.queue, job.trigger ≠ .scheduled) ∧
      ∀ lastRunAt ∈ rep.lastRunAt, lastRunAt + env.interval ≤ x.clock then
    (x, if rep.leaseHeld then .renewing x.clock else .acquiring x.clock)
  else drain env i x x.clock

/-- `runJob` once the executor has returned or thrown, up to its next await. -/
def afterRun (env : Env ι ρ) (i : ι) (x : Shared ρ) (now : ℕ) (job : RebalanceJob) (number : ℕ)
    (success : Bool) : Shared ρ × Stage :=
  let rep := x.replica (env.replica i)
  let failures := if success then 0 else rep.consecutiveFailures + 1
  let tripped := rep.circuitBreakerTripped ||
    (!success && decide (env.circuitBreakerThreshold ≤ failures))
  let y := x.set (env.replica i) { rep with
    lastRunAt := some now, consecutiveFailures := failures, circuitBreakerTripped := tripped }
  if job.trigger = .scheduled then
    ({ y with finished := number :: x.finished },
      if rep.leaseHeld then .releasing now else .looping now)
  else (y, .looping now)

/-- One step of tick `i`, from one await to the next. -/
def step (env : Env ι ρ) (i : ι) (x : Shared ρ) : Stage → Outcome → Option (Shared ρ × Stage)
  | .idle, .start => some (tick env i x)
  | .renewing now, .granted =>
    if x.Owns (env.replica i) then
      some (x.grant (env.replica i) (now + env.leaseTtlMs), .renewed now true)
    else none
  | .renewing now, .refused => some (x, .renewed now false)
  | .renewing now, .throws => some (x, .emitting now false)
  | .renewed now true, .ok => some (x, .emitting now true)
  | .renewed now false, .ok =>
    let rep := x.replica (env.replica i)
    some (x.set (env.replica i) { rep with leaseHeld := false }, .acquiring now)
  | .renewed now _, .throws => some (x, .emitting now false)
  | .acquiring now, .granted =>
    if x.Free (env.replica i) then
      some (x.grant (env.replica i) (now + env.leaseTtlMs), .acquired now true)
    else none
  | .acquiring now, .refused => some (x, .acquired now false)
  | .acquiring now, .throws => some (x, .emitting now false)
  | .acquired now true, .ok =>
    let rep := x.replica (env.replica i)
    some (x.set (env.replica i) { rep with leaseHeld := true }, .emitting now true)
  | .acquired now false, .ok => some (x, .emitting now false)
  | .acquired now _, .throws => some (x, .emitting now false)
  | .emitting now true, .ok =>
    some (drain env i (x.enqueue (env.replica i) .scheduled now) now)
  | .emitting now false, .ok => some (drain env i x now)
  | .pricing now job, .price stroops =>
    if ∃ max ∈ env.maxGasPriceStroops, max < stroops then some (x, .looping now)
    else some (execute env i x now job)
  | .pricing now job, .throws => some (execute env i x now job)
  | .executing now job number, .finished success =>
    some (afterRun env i x now job number success)
  | .releasing now, .ok => some (x.release (env.replica i), .released now)
  | .releasing now, .throws => some (x, .looping now)
  | .released now, .ok =>
    let rep := x.replica (env.replica i)
    some (x.set (env.replica i) { rep with leaseHeld := false }, .looping now)
  | .released now, .throws => some (x, .looping now)
  | .looping now, .ok => some (drain env i x now)
  | _, _ => none

/-- A crashed replica takes no step. -/
def act (env : Env ι ρ) (i : ι) (x : Shared ρ) (p : Stage) (o : Outcome) :
    Option (Shared ρ × Stage) :=
  if (x.replica (env.replica i)).crashed then none else step env i x p o

def around (x : Shared ρ) : Change ρ → Option (Shared ρ)
  | .passes time => some { x with clock := x.clock + time }
  | .crash r => some (x.set r { x.replica r with crashed := true })
  | .enqueue r trigger =>
    -- only a tick emits a scheduled job
    if trigger = .scheduled then none else some (x.enqueue r trigger 0)

def rules (env : Env ι ρ) : Rules ι (Shared ρ) Stage Outcome (Change ρ) where
  act := act env
  world := around

/-- No replica has run. -/
def fresh : System ι (Shared ρ) Stage :=
  ⟨⟨0, none, fun _ => ⟨[], 0, false, none, false, false⟩, [], []⟩, fun _ => .idle⟩

/-- The clock reading of a tick that asks for the lease. -/
def Stage.asking : Stage → Option ℕ
  | renewing now => some now
  | renewed now _ => some now
  | acquiring now => some now
  | _ => none

/-- A tick has a scheduled job: from the lease to its release. -/
def Stage.busy : Stage → Bool
  | renewed _ ok => ok
  | acquired _ ok => ok
  | emitting _ owned => owned
  | pricing _ job => job.trigger = .scheduled
  | executing _ job _ => job.trigger = .scheduled
  | releasing _ => true
  | _ => false

/-- A replica runs. -/
def Shared.Live (x : Shared ρ) (r : ρ) : Prop := (x.replica r).crashed = false

instance (x : Shared ρ) (r : ρ) : Decidable (x.Live r) := inferInstanceAs (Decidable (_ = false))

/-- The start's replica crashed before the executor came back. -/
def Shared.Abandoned (x : Shared ρ) (a : Start ρ) : Prop :=
  ¬ x.Live a.replica ∧ a.number ∉ x.finished
deriving Decidable

/-! ## Undisturbed runs -/

/-- The clock reading of a tick that is under way. -/
def Stage.now : Stage → Option ℕ
  | idle => none
  | renewing now => some now
  | renewed now _ => some now
  | acquiring now => some now
  | acquired now _ => some now
  | emitting now _ => some now
  | pricing now _ => some now
  | executing now _ _ => some now
  | releasing now => some now
  | released now => some now
  | looping now => some now
  | done => none

/-- The clock reading of a tick that may call the executor in its next step. -/
def Stage.calling (clock : ℕ) : Stage → Option ℕ
  | idle => some clock
  | emitting now _ => some now
  | pricing now _ => some now
  | looping now => some now
  | _ => none

/-- A scheduled job is in the replica's queue. -/
def Shared.Pending (x : Shared ρ) (r : ρ) : Prop :=
  ∃ job ∈ (x.replica r).queue, job.trigger = .scheduled

instance (x : Shared ρ) (r : ρ) : Decidable (x.Pending r) :=
  inferInstanceAs (Decidable (∃ job ∈ _, _))

/-- A replica has a scheduled job, from the lease to its release. -/
def Working (env : Env ι ρ) (s : System ι (Shared ρ) Stage) (r : ρ) : Prop :=
  s.shared.Pending r ∨ ∃ i, env.replica i = r ∧ (s.proc i).busy = true

instance [Fintype ι] (env : Env ι ρ) (s : System ι (Shared ρ) Stage) (r : ρ) :
    Decidable (Working env s r) :=
  inferInstanceAs (Decidable (_ ∨ ∃ _, _))

/-- No tick of the replica of tick `i` is under way. -/
def Alone (env : Env ι ρ) (s : System ι (Shared ρ) Stage) (i : ι) : Prop :=
  ∀ j, env.replica j = env.replica i → (s.proc j).now = none

instance [Fintype ι] (env : Env ι ρ) (s : System ι (Shared ρ) Stage) (i : ι) :
    Decidable (Alone env s i) :=
  inferInstanceAs (Decidable (∀ _, _))

/-- The lease is not expired, or it is that of a replica that crashed or has no scheduled job, or
    the tick's own; and the tick began at least an interval after every other replica's start that
    was not abandoned. -/
def TakesOver (env : Env ι ρ) (s : System ι (Shared ρ) Stage) (i : ι) : Prop :=
  (∀ lease ∈ s.shared.lease, lease.2 ≤ s.shared.clock → s.shared.Live lease.1 →
    lease.1 = env.replica i ∨ ¬ Working env s lease.1) ∧
  ∀ now ∈ (s.proc i).asking, ∀ a ∈ s.shared.starts,
    a.replica = env.replica i ∨ s.shared.Abandoned a ∨ a.time + env.interval ≤ now

instance [Fintype ι] (env : Env ι ρ) (s : System ι (Shared ρ) Stage) (i : ι) :
    Decidable (TakesOver env s i) :=
  inferInstanceAs (Decidable ((∀ lease ∈ s.shared.lease, _) ∧ ∀ now ∈ (s.proc i).asking, _))

/-- The replica's earlier starts came no later after the beginning of their ticks than the clock is
    after the tick's. -/
def Punctual (env : Env ι ρ) (x : Shared ρ) (i : ι) (now : ℕ) : Prop :=
  ∀ a ∈ x.starts, a.replica = env.replica i → a.time + now ≤ a.now + x.clock

instance (env : Env ι ρ) (x : Shared ρ) (i : ι) (now : ℕ) : Decidable (Punctual env x i now) :=
  inferInstanceAs (Decidable (∀ a ∈ _, _))

/-- The ticks of a replica do not overlap, the lease is taken over from no working replica and not
    within an interval of another replica's start, and the delay from the beginning of a tick to its
    scheduled start does not shrink. -/
def Undisturbed (env : Env ι ρ) (s : System ι (Shared ρ) Stage) :
    Move ι Outcome (Change ρ) → Prop
  | .act i o =>
    (o = .start → Alone env s i) ∧ (o = .granted → TakesOver env s i) ∧
      ∀ now ∈ (s.proc i).calling s.shared.clock,
        (s.proc i).busy = true ∨ s.shared.Pending (env.replica i) → Punctual env s.shared i now
  | .world _ => True

instance [Fintype ι] (env : Env ι ρ) (s : System ι (Shared ρ) Stage)
    (m : Move ι Outcome (Change ρ)) : Decidable (Undisturbed env s m) :=
  match m with
  | .act i o => inferInstanceAs (Decidable
      ((o = .start → _) ∧ (o = .granted → _) ∧ ∀ now ∈ (s.proc i).calling s.shared.clock, _))
  | .world _ => inferInstanceAs (Decidable True)

end NeuroWealth.Scheduler
