import NeuroWealth.Agent.TransactionDedup

/-!
# Submission of a queued transaction

The queue worker's runs of one job. A run loads the account, signs a transaction with the next
sequence number and submits it; what Horizon answers and when the network includes what it was sent
is open. A transaction's time bound only rules out later inclusions and is left out.
-/

namespace NeuroWealth.TransactionQueue.Submission

open Interleaving

variable {ι : Type} [DecidableEq ι]

def MAX_SEQUENCE_RETRIES : ℕ := 3

/-- `attempts` of the queue's default job options. -/
def ATTEMPTS : ℕ := 3

inductive Operation where
  | payment (destination amount : String)
  | manageData (name : String)
  | envelope (xdr : String)
  deriving DecidableEq

structure Transaction where
  sequence : ℕ
  operation : Operation
  deriving DecidableEq

/-- The job, the agent's public key if its secret is set, and what the SDK computes: the amount in
    asset units, and the sequence number in an envelope that parses. -/
structure Env where
  data : TransactionJobData
  agent : Option String
  toAmount : String → String
  sequenceOf : String → Option ℕ

/-- What Bull does with the job. -/
inductive JobState (ι : Type) where
  | waiting
  | active (run : ι)
  | completed
  | failed
  deriving DecidableEq

/-- The account's sequence number, what the network was sent and what it included, and the job. -/
structure Shared (ι : Type) where
  sequence : ℕ
  sent : List Transaction
  included : List Transaction
  job : JobState ι
  attemptsMade : ℕ

/-- How far a run of the handler has come; `attempt` counts its tries. -/
inductive Stage where
  | idle
  /-- `server.loadAccount`. -/
  | loading (agent : String) (attempt : ℕ)
  /-- The transaction is signed; it is sent next. -/
  | signed (agent : String) (attempt : ℕ) (transaction : Transaction)
  /-- At `await server.submitTransaction`. -/
  | submitting (agent : String) (attempt : ℕ) (transaction : Transaction)
  /-- The handler's promise has resolved, or rejected; Bull takes note next. -/
  | resolved
  | rejected
  | done

/-- A run starts; Horizon answers the load with a sequence number or the submission with success;
    a call throws; or the next step is taken. -/
inductive Outcome where
  | start
  | account (sequence : ℕ)
  | ok
  | throws (message : String)

/-- The network includes a transaction of the job, or another one of the account; or Bull gives the
    active run up after its timeout. -/
inductive Change where
  | includes (transaction : Transaction)
  | other
  | timeout

/-- `isSequenceMismatch` of an error's message. -/
def isSequenceMismatch (message : String) : Bool :=
  let msg := message.toLower.toList
  "tx_bad_seq".toList <:+: msg ∨ "sequence".toList <:+: msg ∨ "bad_seq".toList <:+: msg

/-- A field that is set and not empty. -/
def truthy (field : Option String) : Option String := field.filter fun text => text ≠ ""

/-- The operation of a job without an envelope. -/
def operation (env : Env) (agent : String) : Operation :=
  match env.data.type with
  | .rebalance => .manageData "noop"
  | _ => .payment ((truthy env.data.destinationAddress).getD agent)
      (env.toAmount env.data.amountStroops)

/-- `buildAndSignTransaction` once the account is loaded; `none` when the envelope does not
    parse. -/
def buildAndSignTransaction (env : Env) (agent : String) (sequence : ℕ) : Option Transaction :=
  match truthy env.data.xdrEnvelope with
  | some xdr => (env.sequenceOf xdr).map fun sequence => ⟨sequence, .envelope xdr⟩
  | none => some ⟨sequence + 1, operation env agent⟩

/-- The `catch` of `submitWithSequenceRetry`: try again on a sequence mismatch, or rethrow. -/
def caught (agent : String) (attempt : ℕ) (message : String) : Stage :=
  if isSequenceMismatch message ∧ attempt + 1 < MAX_SEQUENCE_RETRIES then
    .loading agent (attempt + 1)
  else .rejected

/-- Bull after a failed run: wait for the next one, or give the job up. -/
def Shared.fail (x : Shared ι) : Shared ι :=
  { x with
    attemptsMade := x.attemptsMade + 1
    job := if x.attemptsMade + 1 < ATTEMPTS then .waiting else .failed }

/-- One step of run `i`. -/
def step (env : Env) (i : ι) (x : Shared ι) : Stage → Outcome → Option (Shared ι × Stage)
  | .idle, .start =>
    if x.job = .waiting then
      some ({ x with job := .active i }, match env.agent with
        | none => .rejected
        | some agent => .loading agent 0)
    else none
  | .loading agent attempt, .account sequence =>
    -- Horizon may lag behind the ledger
    if sequence ≤ x.sequence then
      some (x, match buildAndSignTransaction env agent sequence with
        | none => caught agent attempt "invalid envelope"
        | some transaction => .signed agent attempt transaction)
    else none
  | .loading agent attempt, .throws message => some (x, caught agent attempt message)
  | .signed agent attempt transaction, .ok =>
    some ({ x with sent := transaction :: x.sent }, .submitting agent attempt transaction)
  | .submitting _ _ transaction, .ok =>
    if transaction ∈ x.included then some (x, .resolved) else none
  | .submitting agent attempt _, .throws message => some (x, caught agent attempt message)
  | .resolved, .ok => some (if x.job = .active i then { x with job := .completed } else x, .done)
  | .rejected, .ok => some (if x.job = .active i then x.fail else x, .done)
  | _, _ => none

/-- A transaction is included only with the account's next sequence number. -/
def around (x : Shared ι) : Change → Option (Shared ι)
  | .includes transaction =>
    if transaction ∈ x.sent ∧ transaction.sequence = x.sequence + 1 then
      some { x with sequence := x.sequence + 1, included := transaction :: x.included }
    else none
  | .other => some { x with sequence := x.sequence + 1 }
  | .timeout =>
    match x.job with
    | .active _ => some x.fail
    | _ => none

/-- The runs of the job. -/
def rules (ι : Type) [DecidableEq ι] (env : Env) :
    Rules ι (Shared ι) Stage Outcome Change where
  act := step env
  world := around

/-- The job was added. -/
def fresh (sequence : ℕ) : System ι (Shared ι) Stage :=
  ⟨⟨sequence, [], [], .waiting, 0⟩, fun _ => .idle⟩

/-- When Horizon answers a load, no transaction of the job was included yet. -/
def Undisturbed (s : System ι (Shared ι) Stage) : Move ι Outcome Change → Prop
  | .act _ (.account _) => s.shared.included = []
  | _ => True

end NeuroWealth.TransactionQueue.Submission
