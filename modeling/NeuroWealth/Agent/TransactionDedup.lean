import NeuroWealth.Foundation.Interleaving

/-!
# Deduplication at the transaction queue

`enqueueTransaction` tests a mark in Redis, sets it, and adds the job: three steps, each of which
may throw. Times are in milliseconds; a mark is visible up to its expiry.
-/

namespace NeuroWealth.TransactionQueue

open Interleaving

variable {ι : Type} [DecidableEq ι]

inductive TransactionType where
  | deposit
  | withdrawal
  | rebalance
  deriving DecidableEq

structure TransactionJobData where
  deduplicationKey : String
  type : TransactionType
  amountStroops : String
  destinationAddress : Option String
  xdrEnvelope : Option String
  deriving DecidableEq

def DEDUP_TTL_MS : ℕ := 60000

namespace Dedup

/-- A call of `enqueueTransaction`; on record are when it started and how many started before. -/
structure Call where
  data : TransactionJobData
  startedAt : ℕ
  number : ℕ
  deriving DecidableEq

/-- A mark, with the call that set it on record. -/
structure Mark where
  expires : ℕ
  owner : Call

/-- The clock, the marks and the queue. On record are the number of calls and all marks ever set. -/
structure Shared where
  clock : ℕ
  marks : String → Option Mark
  queue : List Call
  started : ℕ
  marked : List Mark

inductive Result where
  | job
  /-- `null`: the transaction was deduplicated. -/
  | duplicate
  | threw
  deriving DecidableEq

/-- How far a call has come: the command it sends next. -/
inductive Stage where
  | idle
  /-- `isDuplicate`. -/
  | reading (call : Call)
  /-- `markSeen`. -/
  | marking (call : Call)
  /-- `transactionQueue.add`. -/
  | adding (call : Call)
  | done (call : Call) (result : Result)

/-- A call is made, or a command succeeds, or throws with or without effect. -/
inductive Outcome where
  | enqueueTransaction (data : TransactionJobData)
  | ok
  | throws (effect : Bool)

inductive Change where
  | elapse (milliseconds : ℕ)

namespace Shared

/-- `client.get(dedupKey(key))`. -/
def seen (x : Shared) (key : String) : Option Mark :=
  (x.marks key).filter fun mark => x.clock ≤ mark.expires

/-- `markSeen`. -/
def mark (x : Shared) (call : Call) : Shared :=
  let mark : Mark := ⟨x.clock + DEDUP_TTL_MS, call⟩
  { x with
    marks := Function.update x.marks call.data.deduplicationKey (some mark)
    marked := mark :: x.marked }

/-- `transactionQueue.add(data)`. -/
def add (x : Shared) (call : Call) : Shared := { x with queue := call :: x.queue }

end Shared

/-- One step of a call. -/
def step (x : Shared) : Stage → Outcome → Option (Shared × Stage)
  | .idle, .enqueueTransaction data =>
    some ({ x with started := x.started + 1 }, .reading ⟨data, x.clock, x.started⟩)
  | .reading call, .ok =>
    some (x, if (x.seen call.data.deduplicationKey).isSome then .done call .duplicate
      else .marking call)
  | .reading call, .throws _ => some (x, .done call .threw)
  | .marking call, .ok => some (x.mark call, .adding call)
  | .marking call, .throws effect => some (if effect then x.mark call else x, .done call .threw)
  | .adding call, .ok => some (x.add call, .done call .job)
  | .adding call, .throws effect => some (if effect then x.add call else x, .done call .threw)
  | _, _ => none

def around (x : Shared) : Change → Option Shared
  | .elapse milliseconds => some { x with clock := x.clock + milliseconds }

/-- Any calls with any keys. -/
def rules (ι : Type) : Rules ι Shared Stage Outcome Change where
  act _ := step
  world := around

def fresh (clock : ℕ) : System ι Shared Stage :=
  ⟨⟨clock, fun _ => none, [], 0, []⟩, fun _ => .idle⟩

/-- Two calls with the same key that start less than the time to live apart. -/
def Near (c d : Call) : Prop :=
  c.data.deduplicationKey = d.data.deduplicationKey ∧
    c.startedAt < d.startedAt + DEDUP_TTL_MS ∧ d.startedAt < c.startedAt + DEDUP_TTL_MS

/-- When a call runs its `get`, no other call of its key is between its own `get` and `set`, the
    mark of no near call has expired, and a later-started call of its key has no mark that has not;
    a `set` that throws leaves no mark, and an `add` that throws has added. -/
def Undisturbed (s : System ι Shared Stage) : Move ι Outcome Change → Prop
  | .act i .ok => ∀ call, s.proc i = .reading call →
      (∀ j other, s.proc j = .marking other →
        other.data.deduplicationKey ≠ call.data.deduplicationKey) ∧
      ∀ mark ∈ s.shared.marked, mark.owner.data.deduplicationKey = call.data.deduplicationKey →
        (Near mark.owner call → s.shared.clock ≤ mark.expires) ∧
        (s.shared.clock ≤ mark.expires → mark.owner.number < call.number)
  | .act i (.throws effect) =>
    (∀ call, s.proc i = .marking call → effect = false) ∧
    (∀ call, s.proc i = .adding call → effect = true)
  | _ => True

end Dedup

end NeuroWealth.TransactionQueue
