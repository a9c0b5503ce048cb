import NeuroWealth.Bridge.Manager

/-!
# The bridge monitor

Cycles of `checkPendingTransfers` over a store that holds a copy of the manager's transfers. A cycle
works on the pending transfers as it read them, and cycles interleave where they await the store or
Axelar.
-/

namespace NeuroWealth.Bridge.Monitor

open Interleaving

variable {ι : Type} [DecidableEq ι]

def bridgeTimeoutMs : ℕ := 30 * 60 * 1000

def retryBackoffMs : ℕ := 5 * 60 * 1000

/-- The last retry was long enough ago, if there was one. -/
def RetryDue (transfer : StoredBridgeTransfer) (now : ℕ) : Prop :=
  transfer.lastRetryTime.getD 0 = 0 ∨ transfer.lastRetryTime.getD 0 + retryBackoffMs < now
deriving Decidable

/-- The transfer awaits its confirmation. -/
def IsPending (transfer : StoredBridgeTransfer) : Prop :=
  transfer.status = .pending ∨ transfer.status = .confirming
deriving Decidable

/-- The transfers of a store, in the order in which they were saved. -/
structure Saved where
  transfers : List StoredBridgeTransfer
  nodup : (transfers.map StoredBridgeTransfer.id).Nodup

def Saved.ids (saved : Saved) : List String := saved.transfers.map StoredBridgeTransfer.id

def Saved.get (saved : Saved) (id : String) : Option StoredBridgeTransfer :=
  saved.transfers.find? fun transfer => transfer.id = id

/-! ## The system -/

/-- What a cycle wrote a stored transfer for. -/
inductive Writer where
  | timeout
  | poll
  | retry
deriving DecidableEq

/-- A stored status is written, or a transfer is retried: the retries remaining in the store before
    and after, and those in the manager. -/
inductive Event where
  | written (id : String) (before after : BridgeStatus)
  | retried (id : String) (stored storedAfter managed managedAfter : ℤ)
deriving DecidableEq

/-- A cycle that has ended: the transfers that were due for a retry when it started, and the events
    since then. -/
structure Cycle where
  due : List String
  events : List Event

/-- The clock, the manager's transfers and the stored ones. `executed` are the transfers that Axelar
    has executed, `lastWriter` is what a stored transfer was last written for, and `log` and
    `cycles` keep the events and the cycles that have ended, newest first. -/
structure Shared where
  clock : ℕ
  bridgeTransfers : String → Option StoredBridgeTransfer
  stored : String → Option StoredBridgeTransfer
  executed : String → Bool
  lastWriter : String → Option Writer
  log : List Event
  cycles : List Cycle

/-- The start of a cycle: the transfers that were due for a retry, and the length of the log. -/
structure Begun where
  due : List String
  logged : ℕ

/-- How far a cycle has come; `rest` are the transfers after the one that it works on, whose
    processing began at `now`. -/
inductive Stage where
  | idle
  | checking (begun : Begun) (pending : List StoredBridgeTransfer)
  /-- The GET was sent. -/
  | polling (begun : Begun) (transfer : StoredBridgeTransfer) (now : ℕ)
      (rest : List StoredBridgeTransfer)
  /-- The manager has returned a status. -/
  | polled (begun : Begun) (transfer : StoredBridgeTransfer) (now : ℕ) (status : BridgeStatus)
      (rest : List StoredBridgeTransfer)
  /-- The manager has retried the transfer, which had `managed` retries remaining there. -/
  | retrying (begun : Begun) (transfer : StoredBridgeTransfer) (now : ℕ) (managed : ℤ)
      (rest : List StoredBridgeTransfer)
  | done

/-- A cycle starts, goes on after a call that has returned, or its GET is answered. -/
inductive Outcome where
  | checkPendingTransfers
  | resume
  | answered (axelarStatus : String) (destinationTxHash : Option String)
  | getFailed

/-- Time passes, or Axelar executes a transfer. -/
inductive Change where
  | elapse (milliseconds : ℕ)
  | execute (id : String)

namespace Shared

variable (x : Shared)

/-- `getPending` of the store, whose transfers were saved in the order of `ids`. -/
def getPending (ids : List String) : List StoredBridgeTransfer :=
  (ids.filterMap x.stored).filter fun transfer => IsPending transfer

/-- `update` of the store, which throws for an unknown transfer. -/
def update (writer : Writer) (id : String)
    (updates : StoredBridgeTransfer → StoredBridgeTransfer) : Option Shared :=
  match x.stored id with
  | none => none
  | some transfer =>
    let updated := { updates transfer with updatedAt := x.clock }
    some { x with
      stored := Function.update x.stored id (some updated)
      lastWriter := Function.update x.lastWriter id (some writer)
      log := .written id transfer.status updated.status :: x.log }

/-- The manager's transfer is replaced. -/
def manage (id : String) (transfer : StoredBridgeTransfer) : Shared :=
  { x with bridgeTransfers := Function.update x.bridgeTransfers id (some transfer) }

/-- The transfer is stored as failed by a poll and should be retried now. -/
def Due (id : String) : Prop :=
  x.lastWriter id = some .poll ∧ ∃ transfer ∈ x.stored id,
    transfer.status = .failed ∧ 0 < transfer.retriesRemaining ∧ RetryDue transfer x.clock

instance (id : String) : Decidable (x.Due id) := by
  unfold Due
  cases x.stored id with
  | none => exact .isFalse (by simp)
  | some transfer => exact decidable_of_iff (x.lastWriter id = some .poll ∧
      transfer.status = .failed ∧ 0 < transfer.retriesRemaining ∧ RetryDue transfer x.clock) (by simp)

/-- The cycle has ended. -/
def finish (begun : Begun) : Shared :=
  { x with cycles := ⟨begun.due, x.log.take (x.log.length - begun.logged)⟩ :: x.cycles }

end Shared

/-! ## `processTransfer` -/

/-- The last branch, which retries a transfer that was read as failed. -/
def retryIfDue (x : Shared) (begun : Begun) (transfer : StoredBridgeTransfer) (now : ℕ)
    (rest : List StoredBridgeTransfer) : Shared × Stage :=
  if transfer.status = .failed ∧ 0 < transfer.retriesRemaining ∧ RetryDue transfer now then
    match x.bridgeTransfers transfer.id with
    | none => (x, .checking begun rest)
    | some managed =>
      if managed.retriesRemaining ≤ 0 then (x, .checking begun rest)
      else (x.manage transfer.id (managed.retried x.clock),
        .retrying begun transfer now managed.retriesRemaining rest)
  else (x, .checking begun rest)

/-- The store is told of a retry. -/
def storeRetry (x : Shared) (begun : Begun) (transfer : StoredBridgeTransfer) (now : ℕ)
    (managed : ℤ) (rest : List StoredBridgeTransfer) : Shared × Stage :=
  let y := x.update .retry transfer.id fun stored =>
    { stored with
      status := .pending
      lastRetryTime := some now
      retriesRemaining := transfer.retriesRemaining - 1 }
  match x.stored transfer.id, y, x.bridgeTransfers transfer.id with
  | some stored, some y, some managedAfter =>
    ({ y with
        log := .retried transfer.id stored.retriesRemaining (transfer.retriesRemaining - 1)
          managed managedAfter.retriesRemaining :: y.log },
      .checking begun rest)
  | _, _, _ => (x, .checking begun rest)

/-- The manager returns a status from `pollTransferStatus`, after a change to its transfer. -/
def pollReturns (x : Shared) (begun : Begun) (transfer : StoredBridgeTransfer) (now : ℕ)
    (rest : List StoredBridgeTransfer) (change : StoredBridgeTransfer → StoredBridgeTransfer) :
    Shared × Stage :=
  match x.bridgeTransfers transfer.id with
  | none => retryIfDue x begun transfer now rest
  | some managed =>
    (x.manage transfer.id (change managed),
      .polled begun transfer now (change managed).status rest)

/-- `pollTransferStatus`, up to its request. -/
def pollTransferStatus (x : Shared) (begun : Begun) (transfer : StoredBridgeTransfer)
    (rest : List StoredBridgeTransfer) : Shared × Stage :=
  match x.bridgeTransfers transfer.id with
  | none => retryIfDue x begun transfer x.clock rest
  | some managed =>
    if (truthy managed.bridgeTxHash).isSome then (x, .polling begun transfer x.clock rest)
    else (x, .polled begun transfer x.clock managed.status rest)

/-- The transfer has timed out. -/
def timedOut (transfer : StoredBridgeTransfer) : StoredBridgeTransfer :=
  { transfer with
    status := .failed
    errorMessage := some "Bridge transfer timeout after 30 minutes" }

/-- `processTransfer`, up to its first call that is awaited. -/
def processTransfer (x : Shared) (begun : Begun) (transfer : StoredBridgeTransfer)
    (rest : List StoredBridgeTransfer) : Shared × Stage :=
  if transfer.createdAt + bridgeTimeoutMs < x.clock then
    match x.update .timeout transfer.id timedOut with
    | some y => (y, .checking begun rest)
    | none => (x.finish begun, .done)
  else if transfer.status = .confirming ∧ (truthy transfer.bridgeTxHash).isSome then
    pollTransferStatus x begun transfer rest
  else retryIfDue x begun transfer x.clock rest

/-- The store is told of a polled status; if it throws, the status is lost. -/
def storeStatus (x : Shared) (begun : Begun) (transfer : StoredBridgeTransfer) (now : ℕ)
    (status : BridgeStatus) (rest : List StoredBridgeTransfer) : Shared × Stage :=
  let y := x.update .poll transfer.id fun stored => { stored with status := status }
  retryIfDue (y.getD x) begun transfer now rest

/-- One step of a cycle. -/
def step (ids : List String) (x : Shared) : Stage → Outcome → Option (Shared × Stage)
  | .idle, .checkPendingTransfers =>
    some (x, .checking ⟨ids.filter (fun id => x.Due id), x.log.length⟩ (x.getPending ids))
  | .checking begun [], .resume => some (x.finish begun, .done)
  | .checking begun (transfer :: rest), .resume => some (processTransfer x begun transfer rest)
  | .polling begun transfer now rest, .answered axelarStatus destinationTxHash =>
    some (pollReturns x begun transfer now rest fun managed =>
      managed.polled axelarStatus destinationTxHash x.clock)
  | .polling begun transfer now rest, .getFailed =>
    some (pollReturns x begun transfer now rest id)
  | .polled begun transfer now status rest, .resume =>
    some (storeStatus x begun transfer now status rest)
  | .retrying begun transfer now managed rest, .resume =>
    some (storeRetry x begun transfer now managed rest)
  | _, _ => none

def around (x : Shared) : Change → Option Shared
  | .elapse milliseconds => some { x with clock := x.clock + milliseconds }
  | .execute id => some { x with executed := Function.update x.executed id true }

def rules (ι : Type) (ids : List String) : Rules ι Shared Stage Outcome Change where
  act _ := step ids
  world := around

/-- The store holds a copy of the manager's transfers, and no cycle has started. -/
def fresh (clock : ℕ) (saved : Saved) (executed : String → Bool) : System ι Shared Stage :=
  ⟨⟨clock, saved.get, saved.get, executed, fun _ => none, [], []⟩, fun _ => .idle⟩

/-! ## What the monitor should do -/

/-- A terminal status stays. -/
def Event.Lawful : Event → Prop
  | written _ before after => before.Terminal → after = before
  | retried _ _ _ _ _ => True

/-- The transfer is put back to pending with one retry less, in the store and in the manager. -/
def Event.PutsBack (id : String) : Event → Prop
  | retried other stored storedAfter managed managedAfter =>
    other = id ∧ storedAfter = stored - 1 ∧ managedAfter = managed - 1
  | written _ _ _ => False

/-- A stored terminal status never changes, no executed transfer is stored as failed by the timeout,
    and a cycle puts back every transfer that was due when it started. -/
structure Orderly (x : Shared) : Prop where
  lawful : ∀ e ∈ x.log, e.Lawful
  timed : ∀ id transfer, x.stored id = some transfer → transfer.status = .failed →
    x.lastWriter id = some .timeout → x.executed id = false
  retried : ∀ cycle ∈ x.cycles, ∀ id ∈ cycle.due, ∃ e ∈ cycle.events, e.PutsBack id

/-! ## When it does -/

/-- A cycle has started and has not ended. -/
def Stage.UnderWay : Stage → Prop
  | idle => False
  | done => False
  | _ => True

instance : (p : Stage) → Decidable p.UnderWay
  | .idle => .isFalse id
  | .checking _ _ => .isTrue trivial
  | .polling _ _ _ _ => .isTrue trivial
  | .polled _ _ _ _ _ => .isTrue trivial
  | .retrying _ _ _ _ _ => .isTrue trivial
  | .done => .isFalse id

namespace Shared

variable (x : Shared)

/-- At this time, every transfer that Axelar has executed and that is still pending in the store is
    at most 30 minutes old. -/
def InTime (ids : List String) (now : ℕ) : Prop :=
  ∀ id ∈ ids, x.executed id → ∀ transfer ∈ x.stored id, IsPending transfer →
    now ≤ transfer.createdAt + bridgeTimeoutMs

instance (ids : List String) (now : ℕ) : Decidable (x.InTime ids now) :=
  inferInstanceAs (Decidable (∀ id ∈ ids, x.executed id → ∀ transfer ∈ x.stored id, _))

/-- The transfer is at most 30 minutes old. -/
def Recent (id : String) : Prop :=
  ∀ transfer ∈ x.stored id, x.clock ≤ transfer.createdAt + bridgeTimeoutMs

instance (id : String) : Decidable (x.Recent id) :=
  inferInstanceAs (Decidable (∀ transfer ∈ x.stored id, _))

end Shared

/-- A cycle starts when no other one is under way, no transfer is due for a retry, and every
    executed transfer that is still pending is at most 30 minutes old; no cycle lasts longer than
    that. Axelar executes no transfer that is older. -/
def Undisturbed (ids : List String) (s : System ι Shared Stage) : Move ι Outcome Change → Prop
  | .act _ .checkPendingTransfers =>
    (∀ j, ¬ (s.proc j).UnderWay) ∧ (∀ id ∈ ids, ¬ s.shared.Due id) ∧
      s.shared.InTime ids s.shared.clock
  | .act _ _ => True
  | .world (.elapse milliseconds) =>
    (∃ j, (s.proc j).UnderWay) → s.shared.InTime ids (s.shared.clock + milliseconds)
  | .world (.execute id) => s.shared.Recent id

instance [Fintype ι] (ids : List String) (s : System ι Shared Stage) (m : Move ι Outcome Change) :
    Decidable (Undisturbed ids s m) := by
  unfold Undisturbed
  split <;> infer_instance

end NeuroWealth.Bridge.Monitor
