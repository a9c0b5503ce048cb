import NeuroWealth.Foundation.Runs

/-!
# Service recovery

`runRecovery` as its adapter calls, one after the other, over what Redis, the database and the chain
hold. A run may end at any call, by an exception or a crash; another run may follow. The phases
before and after the queue's deduplication only report data gaps.
-/

namespace NeuroWealth.Recovery

inductive FinancialActionKind where
  | deposit
  | withdraw
  | rebalance
  | harvest
deriving DecidableEq

inductive AuthorizationRole where
  | user
  | agent
  | owner
deriving DecidableEq

def REQUIRED_AUTH_BY_ACTION : FinancialActionKind → AuthorizationRole
  | .deposit => .user
  | .withdraw => .user
  | .rebalance => .agent
  | .harvest => .agent

inductive QueuedTransactionStatus where
  | queued
  | inFlight
  | confirmed
  | skippedDuplicate
  | blocked
deriving DecidableEq

structure QueuedFinancialTransaction where
  jobId : String
  idempotencyKey : String
  action : FinancialActionKind
  amountStroops : ℚ
  assetSymbol : String
  networkPassphrase : String
  contractId : String
  authorizedActor : String
  requiredRole : AuthorizationRole
  status : QueuedTransactionStatus
  txHash : Option String
deriving DecidableEq

/-- The kind of a data gap. -/
inductive DataGap where
  | missingLedgerEvents
  | accountingMismatch
  | ambiguousInflightTx
  | networkMismatch
  | authorizationViolation
  | checkpointRegression
deriving DecidableEq

structure RecoveryOrchestratorConfig where
  expectedNetworkPassphrase : String
  contractId : String

def MAX_SAFE_INTEGER : ℚ := 2 ^ 53 - 1

def isSafeInteger (q : ℚ) : Prop := q.den = 1 ∧ |q| ≤ MAX_SAFE_INTEGER
deriving Decidable

def validateQueuedTransaction (tx : QueuedFinancialTransaction)
    (config : RecoveryOrchestratorConfig) : Option DataGap :=
  if tx.networkPassphrase ≠ config.expectedNetworkPassphrase then some .networkMismatch
  else if tx.contractId ≠ config.contractId then some .networkMismatch
  else if tx.requiredRole ≠ REQUIRED_AUTH_BY_ACTION tx.action ∨ tx.authorizedActor = "" then
    some .authorizationViolation
  else if tx.assetSymbol ≠ "USDC" ∨ ¬ isSafeInteger tx.amountStroops ∨ tx.amountStroops < 0 ∨
      (tx.action ≠ .harvest ∧ tx.amountStroops ≤ 0) then some .accountingMismatch
  else none

/-- What outlives a run: the queue and the processed keys in Redis, the key and hash of each action
    recorded in the database, and the hash of each key confirmed on chain.

    `opened` are the keys submitted or found in flight and not known to have failed, `executed`
    those whose execution returned, `retired` those of the jobs a run marked as done, and `calls`
    every call of `executeFinancialAction` with whether its key was open then. -/
structure Store where
  jobs : List QueuedFinancialTransaction
  processed : List String
  records : List (String × String)
  confirmed : String → Option String
  opened : List String
  executed : List String
  retired : List String
  calls : List (String × Bool)

/-- What a run has read. -/
structure Reads where
  redisProcessedKeys : List String
  dbRecordedKeys : List String
  dbRecordedHashes : List String
  chainConfirmedMap : String → Option String

/-- The variables of a run. -/
structure Run where
  pendingJobs : List QueuedFinancialTransaction
  reads : Reads
  unresolvedGaps : List DataGap
  seenInCurrentBatch : List String
  readyToExecute : List QueuedFinancialTransaction

/-- The adapter call a run makes next; `rest` are the jobs of the loop after the current one. -/
inductive Stage where
  | idle
  /-- Phases 1 and 2. -/
  | connecting
  | listing (gaps : List DataGap)
  | readingProcessedKeys (run : Run)
  | readingRecordedKeys (run : Run)
  | readingRecordedHashes (run : Run)
  | readingConfirmed (run : Run)
  /-- `markJobStatus` of an invalid or in-flight job. -/
  | rejecting (run : Run) (job : QueuedFinancialTransaction)
      (rest : List QueuedFinancialTransaction)
  /-- `markJobStatus`, `recordIdempotencyKey` and `recordExecutedTransaction` of a duplicate. -/
  | skipping (run : Run) (job : QueuedFinancialTransaction)
      (rest : List QueuedFinancialTransaction)
  | recordingDuplicate (run : Run) (job : QueuedFinancialTransaction)
      (rest : List QueuedFinancialTransaction)
  | storingDuplicate (run : Run) (job : QueuedFinancialTransaction) (hash : String)
      (rest : List QueuedFinancialTransaction)
  /-- Phase 4. -/
  | reconciling (run : Run)
  /-- `markJobStatus` of a ready job when there are gaps. -/
  | blocking (job : QueuedFinancialTransaction) (rest : List QueuedFinancialTransaction)
  | blocked
  /-- `executeFinancialAction` is called next, then running. -/
  | executing (run : Run) (job : QueuedFinancialTransaction)
      (rest : List QueuedFinancialTransaction)
  | submitted (run : Run) (job : QueuedFinancialTransaction)
      (rest : List QueuedFinancialTransaction)
  /-- The three writes after it. -/
  | recordingKey (run : Run) (job : QueuedFinancialTransaction) (hash : String)
      (rest : List QueuedFinancialTransaction)
  | confirming (run : Run) (job : QueuedFinancialTransaction) (hash : String)
      (rest : List QueuedFinancialTransaction)
  | storing (run : Run) (job : QueuedFinancialTransaction) (hash : String)
      (rest : List QueuedFinancialTransaction)
  /-- The checkpoint is saved, the state backed up and the worker resumed. -/
  | finishing (run : Run)
  | recovered (run : Run)

/-- A run starts; its call returns, with the gaps of a phase or the hash of an executed action; the
    action fails for certain; or the run ends, by an exception of unknown outcome or a crash. -/
inductive Outcome where
  | start
  | ok
  | found (gaps : List DataGap)
  | executed (hash : String)
  | failed
  | cut

/-- A job is enqueued, an action becomes visible on chain, or one becomes known to have failed. -/
inductive Change where
  | enqueue (job : QueuedFinancialTransaction)
  | confirm (key hash : String)
  | fails (key : String)

inductive Move where
  | act (outcome : Outcome)
  | world (change : Change)

structure System where
  store : Store
  stage : Stage

/-- A hash that JavaScript takes for true. -/
def truthy (hash : Option String) : Option String := hash.filter fun text => text ≠ ""

namespace Store

variable (x : Store)

/-- Not yet confirmed or skipped. -/
def pendingJobs : List QueuedFinancialTransaction :=
  x.jobs.filter fun job => job.status ≠ .confirmed ∧ job.status ≠ .skippedDuplicate

def markJobStatus (job : QueuedFinancialTransaction) (status : QueuedTransactionStatus)
    (hash : Option String) : Store :=
  { x with jobs := x.jobs.map fun other =>
      if other.jobId = job.jobId then
        { other with status := status, txHash := (truthy hash).or other.txHash }
      else other }

/-- The job is marked as done. -/
def retire (job : QueuedFinancialTransaction) (status : QueuedTransactionStatus) (hash : String) :
    Store :=
  { x.markJobStatus job status (some hash) with retired := job.idempotencyKey :: x.retired }

def recordIdempotencyKey (key : String) : Store := { x with processed := key :: x.processed }

def recordExecutedTransaction (job : QueuedFinancialTransaction) (hash : String) : Store :=
  { x with records := (job.idempotencyKey, hash) :: x.records }

/-- The keys of in-flight jobs that are found count as submitted. -/
def find : Store :=
  { x with opened :=
      (x.pendingJobs.filter (·.status = .inFlight)).map (·.idempotencyKey) ++ x.opened }

def submit (key : String) : Store :=
  { x with opened := key :: x.opened, calls := (key, decide (key ∈ x.opened)) :: x.calls }

def fail (key : String) : Store := { x with opened := x.opened.filter (· ≠ key) }

/-- The key's action is on record in Redis, in the database or on chain. -/
def OnRecord (key : String) : Prop :=
  key ∈ x.processed ∨ key ∈ x.records.map Prod.fst ∨ (truthy (x.confirmed key)).isSome

instance (key : String) : Decidable (x.OnRecord key) := inferInstanceAs (Decidable (_ ∨ _))

/-- The action of a key was executed or is confirmed on chain. -/
def Happened (key : String) : Prop := key ∈ x.executed ∨ (truthy (x.confirmed key)).isSome

end Store

namespace Run

variable (run : Run)

def confirmedOnChainTxHash (job : QueuedFinancialTransaction) : Option String :=
  truthy (run.reads.chainConfirmedMap job.idempotencyKey)

def alreadyInDb (job : QueuedFinancialTransaction) : Prop :=
  job.idempotencyKey ∈ run.reads.dbRecordedKeys ∨
    ∃ hash ∈ job.txHash, hash ∈ run.reads.dbRecordedHashes

/-- The job's own key was found. -/
def Found (key : String) : Prop :=
  key ∈ run.reads.redisProcessedKeys ∨ key ∈ run.reads.dbRecordedKeys ∨
    (truthy (run.reads.chainConfirmedMap key)).isSome

instance (key : String) : Decidable (run.Found key) := inferInstanceAs (Decidable (_ ∨ _))

instance (job : QueuedFinancialTransaction) : Decidable (run.alreadyInDb job) :=
  inferInstanceAs (Decidable (_ ∨ ∃ hash ∈ job.txHash, _))

/-- One of the four duplicate tests succeeds. -/
def Duplicate (job : QueuedFinancialTransaction) : Prop :=
  job.idempotencyKey ∈ run.reads.redisProcessedKeys ∨ run.alreadyInDb job ∨
    (run.confirmedOnChainTxHash job).isSome ∨ job.idempotencyKey ∈ run.seenInCurrentBatch
deriving Decidable

def canonicalHash (job : QueuedFinancialTransaction) : String :=
  (run.reads.chainConfirmedMap job.idempotencyKey).getD
    (job.txHash.getD "confirmed_prior_to_recovery")

/-- The deduplication loop up to its next adapter call. -/
def deduplicate (config : RecoveryOrchestratorConfig) (run : Run) :
    List QueuedFinancialTransaction → Stage
  | [] => .reconciling run
  | job :: rest =>
    match validateQueuedTransaction job config with
    | some gap => .rejecting { run with unresolvedGaps := gap :: run.unresolvedGaps } job rest
    | none =>
      if run.Duplicate job then .skipping run job rest
      else if job.status = .inFlight then
        .rejecting { run with unresolvedGaps := .ambiguousInflightTx :: run.unresolvedGaps } job rest
      else
        deduplicate config { run with
          seenInCurrentBatch := job.idempotencyKey :: run.seenInCurrentBatch
          readyToExecute := run.readyToExecute ++ [job] } rest

end Run

/-- The next ready job is blocked, if there is one. -/
def block : List QueuedFinancialTransaction → Stage
  | [] => .blocked
  | job :: rest => .blocking job rest

/-- The next ready job is executed, if there is one. -/
def execute (run : Run) : List QueuedFinancialTransaction → Stage
  | [] => .finishing run
  | job :: rest => .executing run job rest

/-- The gate of phase 5. -/
def gate (run : Run) : Stage :=
  if run.unresolvedGaps ≠ [] then block run.readyToExecute else execute run run.readyToExecute

/-- The run has ended. -/
def Stage.ended : Stage → Bool
  | idle => true
  | blocked => true
  | recovered _ => true
  | _ => false

/-- A run that has just listed the pending jobs. -/
def Run.begin (gaps : List DataGap) (jobs : List QueuedFinancialTransaction) : Run :=
  ⟨jobs, ⟨[], [], [], fun _ => none⟩, gaps, [], []⟩

/-- One adapter call. -/
def step (config : RecoveryOrchestratorConfig) (x : Store) :
    Stage → Outcome → Option (Store × Stage)
  | p, .start => if p.ended then some (x, .connecting) else none
  | p, .cut => if p.ended then none else some (x, .idle)
  | .connecting, .found gaps => some (x, .listing gaps)
  | .listing gaps, .ok => some (x.find, .readingProcessedKeys (.begin gaps x.pendingJobs))
  | .readingProcessedKeys run, .ok =>
    some (x, .readingRecordedKeys
      { run with reads := { run.reads with redisProcessedKeys := x.processed } })
  | .readingRecordedKeys run, .ok =>
    some (x, .readingRecordedHashes
      { run with reads := { run.reads with dbRecordedKeys := x.records.map Prod.fst } })
  | .readingRecordedHashes run, .ok =>
    some (x, .readingConfirmed
      { run with reads := { run.reads with dbRecordedHashes := x.records.map Prod.snd } })
  | .readingConfirmed run, .ok =>
    some (x, Run.deduplicate config
      { run with reads := { run.reads with chainConfirmedMap := x.confirmed } } run.pendingJobs)
  | .rejecting run job rest, .ok =>
    some (x.markJobStatus job .blocked none, run.deduplicate config rest)
  | .skipping run job rest, .ok =>
    some (x.retire job .skippedDuplicate (run.canonicalHash job),
      .recordingDuplicate run job rest)
  | .recordingDuplicate run job rest, .ok =>
    some (x.recordIdempotencyKey job.idempotencyKey,
      match run.confirmedOnChainTxHash job with
      | some hash =>
        if run.alreadyInDb job then run.deduplicate config rest
        else .storingDuplicate run job hash rest
      | none => run.deduplicate config rest)
  | .storingDuplicate run job hash rest, .ok =>
    some (x.recordExecutedTransaction job hash, run.deduplicate config rest)
  | .reconciling run, .found gaps =>
    some (x, gate { run with unresolvedGaps := gaps ++ run.unresolvedGaps })
  | .blocking job rest, .ok => some (x.markJobStatus job .blocked none, block rest)
  | .executing run job rest, .ok => some (x.submit job.idempotencyKey, .submitted run job rest)
  | .submitted run job rest, .executed hash =>
    some ({ x with executed := job.idempotencyKey :: x.executed }, .recordingKey run job hash rest)
  | .submitted _ job _, .failed => some (x.fail job.idempotencyKey, .idle)
  | .recordingKey run job hash rest, .ok =>
    some (x.recordIdempotencyKey job.idempotencyKey, .confirming run job hash rest)
  | .confirming run job hash rest, .ok =>
    some (x.retire job .confirmed hash, .storing run job hash rest)
  | .storing run job hash rest, .ok =>
    some (x.recordExecutedTransaction job hash, execute run rest)
  | .finishing run, .ok => some (x, .recovered run)
  | _, _ => none

/-- The chain keeps what it has confirmed. -/
def around (x : Store) : Change → Option Store
  | .enqueue job => some { x with jobs := x.jobs ++ [job] }
  | .confirm key hash =>
    if hash ≠ "" then some { x with confirmed := Function.update x.confirmed key (some hash) }
    else none
  | .fails key => if (truthy (x.confirmed key)).isSome then none else some (x.fail key)

/-- The system after a move; an impossible one changes nothing. -/
def after (config : RecoveryOrchestratorConfig) (s : System) : Move → System
  | .act outcome =>
    match step config s.store s.stage outcome with
    | some (x, p) => ⟨x, p⟩
    | none => s
  | .world change =>
    match around s.store change with
    | some x => ⟨x, s.stage⟩
    | none => s

def Reaches (config : RecoveryOrchestratorConfig) (ok : System → Move → Prop) :
    System → System → Prop :=
  Runs.Reaches (after config) ok

/-- No run is on its way and nothing was submitted that is still open. -/
structure Fresh (s : System) : Prop where
  stage : s.stage = .idle
  opened : s.store.opened = []
  calls : s.store.calls = []

/-- The key of a submitted action that is not on record yet. -/
def Stage.unrecorded : Stage → Option String
  | submitted _ job _ => some job.idempotencyKey
  | recordingKey _ job _ _ => some job.idempotencyKey
  | _ => none

/-- The next call lists the pending jobs. -/
def Stage.lists : Stage → Bool
  | listing _ => true
  | _ => false

/-- The job that the next call marks as a duplicate, with its run. -/
def Stage.skips : Stage → Option (Run × QueuedFinancialTransaction)
  | skipping run job _ => some (run, job)
  | _ => none

/-- Every in-flight job that a run finds is on record, and so is a submitted action when its run
    ends before it is recorded. -/
def Undisturbed (s : System) : Move → Prop
  | .act .ok => s.stage.lists = true →
      ∀ job ∈ s.store.pendingJobs, job.status = .inFlight → s.store.OnRecord job.idempotencyKey
  | .act .cut => ∀ key ∈ s.stage.unrecorded, s.store.OnRecord key
  | _ => True

instance (s : System) (m : Move) : Decidable (Undisturbed s m) := by
  unfold Undisturbed
  split <;> infer_instance

/-- A job that a run is about to skip has its own key among the processed keys, in the database or
    on chain. -/
def Proper (s : System) : Move → Prop
  | .act .ok => ∀ skip ∈ s.stage.skips, skip.1.Found skip.2.idempotencyKey
  | _ => True

instance (s : System) (m : Move) : Decidable (Proper s m) := by
  unfold Proper
  split <;> infer_instance

end NeuroWealth.Recovery
