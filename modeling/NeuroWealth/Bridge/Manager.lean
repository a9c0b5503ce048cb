import NeuroWealth.Foundation.Interleaving

/-!
# The bridge manager

The lifecycle of transfers under the manager's operations, which interleave where they await Axelar.
A POST may be accepted although the call fails, and a GET may answer any status.
-/

namespace NeuroWealth.Bridge

open Interleaving

variable {ι : Type} [DecidableEq ι]

inductive BridgeChain where
  | stellar
  | ethereum
deriving DecidableEq

inductive BridgeDirection where
  | deposit
  | withdraw
deriving DecidableEq

inductive BridgeStatus where
  | pending
  | confirming
  | confirmed
  | failed
  | cancelled
deriving DecidableEq

def BridgeStatus.name : BridgeStatus → String
  | pending => "pending"
  | confirming => "confirming"
  | confirmed => "confirmed"
  | failed => "failed"
  | cancelled => "cancelled"

/-- `feePoints` is `Math.floor(bridgeFeePercentage * 100)`. -/
structure BridgeConfig where
  feePoints : ℤ
  minBridgeAmount : ℤ
  maxBridgeAmount : ℤ

structure StoredBridgeTransfer where
  id : String
  status : BridgeStatus
  direction : BridgeDirection
  sourceChain : BridgeChain
  destinationChain : BridgeChain
  user : String
  amount : ℤ
  bridgeFee : ℤ
  netAmount : ℤ
  createdAt : ℕ
  updatedAt : ℕ
  estimatedArrivalTime : Option ℕ
  sourceChainTxHash : Option String
  bridgeTxHash : Option String
  destinationTxHash : Option String
  errorMessage : Option String
  retriesRemaining : ℤ
  lastRetryTime : Option ℕ
deriving DecidableEq

/-- A value that JavaScript takes for true. -/
def truthy (text : Option String) : Option String := text.filter (· ≠ "")

/-! ## What the operations do to a transfer -/

/-- The bridge fee. -/
def bridgeFeeOf (config : BridgeConfig) (usdcAmount : ℤ) : ℤ :=
  (usdcAmount * config.feePoints).tdiv 10000

/-- The amount is refused, with a message. -/
def amountError (config : BridgeConfig) (usdcAmount : ℤ) : Option String :=
  if usdcAmount < config.minBridgeAmount then
    some ("Amount below minimum: " ++ toString config.minBridgeAmount)
  else if usdcAmount > config.maxBridgeAmount then
    some ("Amount above maximum: " ++ toString config.maxBridgeAmount)
  else none

/-- A new transfer. -/
def newTransfer (config : BridgeConfig) (direction : BridgeDirection) (sourceChain : BridgeChain)
    (destinationChain : BridgeChain) (arrival : Option ℕ) (id user : String) (usdcAmount : ℤ)
    (now : ℕ) : StoredBridgeTransfer where
  id := id
  status := .pending
  direction := direction
  sourceChain := sourceChain
  destinationChain := destinationChain
  user := user
  amount := usdcAmount
  bridgeFee := bridgeFeeOf config usdcAmount
  netAmount := usdcAmount - bridgeFeeOf config usdcAmount
  createdAt := now
  updatedAt := now
  estimatedArrivalTime := arrival
  sourceChainTxHash := none
  bridgeTxHash := none
  destinationTxHash := none
  errorMessage := none
  retriesRemaining := 3
  lastRetryTime := none

def initiateEthereumDeposit (config : BridgeConfig) (id user : String) (usdcAmount : ℤ) (now : ℕ) :
    StoredBridgeTransfer :=
  newTransfer config .deposit .ethereum .stellar none id user usdcAmount now

def initiateStellarWithdraw (config : BridgeConfig) (id user : String) (usdcAmount : ℤ) (now : ℕ) :
    StoredBridgeTransfer :=
  newTransfer config .withdraw .stellar .ethereum (some (now + 15 * 60 * 1000)) id user usdcAmount
    now

namespace StoredBridgeTransfer

variable (transfer : StoredBridgeTransfer)

/-- The POST of `executeAxelarTransfer` has returned. -/
def submitted (sourceChainTxHash : String) (bridgeTxHash : Option String) (now : ℕ) :
    StoredBridgeTransfer :=
  { transfer with
    status := .confirming
    sourceChainTxHash := some sourceChainTxHash
    bridgeTxHash := bridgeTxHash
    updatedAt := now }

/-- The POST has failed. -/
def submissionFailed (message : Option String) (now : ℕ) : StoredBridgeTransfer :=
  { transfer with
    status := .failed
    errorMessage := some (message.getD "Unknown error")
    updatedAt := now }

/-- The status that `pollTransferStatus` stores for an answer. -/
def polledStatus (axelarStatus : String) : BridgeStatus :=
  if axelarStatus = "executed" then .confirmed
  else if axelarStatus = "failed" then .failed
  else transfer.status

/-- The GET of `pollTransferStatus` has returned. -/
def polled (axelarStatus : String) (destinationTxHash : Option String) (now : ℕ) :
    StoredBridgeTransfer :=
  { transfer with
    status := transfer.polledStatus axelarStatus
    destinationTxHash :=
      if axelarStatus = "executed" then destinationTxHash else transfer.destinationTxHash
    updatedAt := now }

def retried (now : ℕ) : StoredBridgeTransfer :=
  { transfer with
    retriesRemaining := transfer.retriesRemaining - 1
    status := .pending
    lastRetryTime := some now
    updatedAt := now }

def cancelled (now : ℕ) : StoredBridgeTransfer :=
  { transfer with status := .cancelled, updatedAt := now }

end StoredBridgeTransfer

/-! ## The system -/

/-- A submission may still execute, has executed, or never will. -/
inductive SubmissionState where
  | live
  | executed
  | dead
deriving DecidableEq

/-- A status is written, the net amount of a transfer is submitted, or a transfer is retried; with
    the status before, and the states of the earlier submissions. -/
inductive Event where
  | written (id : String) (before after : BridgeStatus)
  | submitted (id : String) (before : BridgeStatus) (earlier : List SubmissionState)
  | retried (id : String) (before : BridgeStatus)
deriving DecidableEq

/-- The latest operation on a transfer that was not refused, or answer that says something. -/
inductive Latest where
  /-- It was initiated or retried. -/
  | opened
  /-- The POST was sent. -/
  | posting
  /-- The POST was answered. -/
  | accepted
  /-- The POST failed, or a GET was answered with `failed`. -/
  | failed
  /-- A GET was answered with `executed`. -/
  | executed
  | cancelled
deriving DecidableEq

/-- The clock and the manager's transfers. `submissions` are the POSTs sent for each transfer,
    newest first; `latest` and `log` keep the calls and the events, newest first. -/
structure Shared where
  clock : ℕ
  bridgeTransfers : String → Option StoredBridgeTransfer
  submissions : String → List SubmissionState
  latest : String → Option Latest
  log : List Event

/-- How far an operation has come. -/
inductive Stage where
  | idle
  /-- The POST was sent. -/
  | posting (id sourceChainTxHash : String)
  /-- The GET was sent. -/
  | polling (id : String)
  | done (error : Option String)

/-- An operation is called, or its request is answered. -/
inductive Outcome where
  | initiateEthereumDeposit (id user : String) (usdcAmount : ℤ)
  | initiateStellarWithdraw (id user : String) (usdcAmount : ℤ)
  | executeAxelarTransfer (id sourceChainTxHash : String)
  | posted (transactionHash : Option String)
  | postFailed (message : Option String)
  | pollTransferStatus (id : String)
  | answered (axelarStatus : String) (destinationTxHash : Option String)
  | getFailed
  | retryTransfer (id : String)
  | cancelTransfer (id : String)

/-- Time passes, or a submission executes or turns out never to execute. -/
inductive Change where
  | elapse (milliseconds : ℕ)
  | settle (id : String) (position : ℕ) (executes : Bool)

namespace Shared

variable (x : Shared)

def put (transfer : StoredBridgeTransfer) : Shared :=
  { x with
    bridgeTransfers := Function.update x.bridgeTransfers transfer.id (some transfer)
    latest := Function.update x.latest transfer.id (some .opened) }

/-- A transfer found under its id is replaced. -/
def write (id : String) (before after : StoredBridgeTransfer) : Shared :=
  { x with
    bridgeTransfers := Function.update x.bridgeTransfers id (some after)
    log := .written id before.status after.status :: x.log }

/-- For the record. -/
def hear (id : String) (latest : Latest) : Shared :=
  { x with latest := Function.update x.latest id (some latest) }

/-- The net amount of a transfer is sent to Axelar. -/
def submit (id : String) (transfer : StoredBridgeTransfer) : Shared :=
  { x with
    submissions := Function.update x.submissions id (.live :: x.submissions id)
    latest := Function.update x.latest id (some .posting)
    log := .submitted id transfer.status (x.submissions id) :: x.log }

def retry (id : String) (transfer : StoredBridgeTransfer) : Shared :=
  let y := (x.write id transfer (transfer.retried x.clock)).hear id .opened
  { y with log := .retried id transfer.status :: y.log }

end Shared

/-- A new transfer is stored under a fresh id, unless its amount is refused. -/
def initiate (config : BridgeConfig) (x : Shared) (transfer : StoredBridgeTransfer) :
    Option (Shared × Stage) :=
  match amountError config transfer.amount with
  | some error => some (x, .done (some error))
  | none =>
    if (x.bridgeTransfers transfer.id).isNone then some (x.put transfer, .done none) else none

/-- An operation starts on a transfer that must exist. -/
def onTransfer (x : Shared) (id : String)
    (operation : StoredBridgeTransfer → Shared × Stage) : Shared × Stage :=
  match x.bridgeTransfers id with
  | none => (x, .done (some ("Transfer not found: " ++ id)))
  | some transfer => operation transfer

/-- The answer to a request changes the transfer. -/
def answer (x : Shared) (id : String) (change : StoredBridgeTransfer → StoredBridgeTransfer)
    (latest : Option Latest) (error : Option String) : Shared × Stage :=
  match x.bridgeTransfers id with
  | none => (x, .done error)
  | some transfer =>
    let y := x.write id transfer (change transfer)
    (match latest with
      | none => y
      | some latest => y.hear id latest, .done error)

/-- What a GET says of a transfer. -/
def answered (axelarStatus : String) : Option Latest :=
  if axelarStatus = "executed" then some .executed
  else if axelarStatus = "failed" then some .failed
  else none

/-- One step of an operation. -/
def step (config : BridgeConfig) (x : Shared) : Stage → Outcome → Option (Shared × Stage)
  | .idle, .initiateEthereumDeposit id user usdcAmount =>
    initiate config x (initiateEthereumDeposit config id user usdcAmount x.clock)
  | .idle, .initiateStellarWithdraw id user usdcAmount =>
    initiate config x (initiateStellarWithdraw config id user usdcAmount x.clock)
  | .idle, .executeAxelarTransfer id sourceChainTxHash =>
    some (onTransfer x id fun transfer =>
      (x.submit id transfer, .posting id sourceChainTxHash))
  | .posting id sourceChainTxHash, .posted transactionHash =>
    some (answer x id (fun transfer =>
      transfer.submitted sourceChainTxHash transactionHash x.clock) (some .accepted) none)
  | .posting id _, .postFailed message =>
    some (answer x id (fun transfer => transfer.submissionFailed message x.clock) (some .failed)
      (some (message.getD "Unknown error")))
  | .idle, .pollTransferStatus id =>
    some (onTransfer x id fun transfer =>
      (x, if (truthy transfer.bridgeTxHash).isSome then .polling id else .done none))
  | .polling id, .answered axelarStatus destinationTxHash =>
    some (answer x id (fun transfer => transfer.polled axelarStatus destinationTxHash x.clock)
      (answered axelarStatus) none)
  | .polling _, .getFailed => some (x, .done none)
  | .idle, .retryTransfer id =>
    some (onTransfer x id fun transfer =>
      if transfer.retriesRemaining ≤ 0 then
        (x, .done (some ("No retries remaining for transfer " ++ id)))
      else (x.retry id transfer, .done none))
  | .idle, .cancelTransfer id =>
    some (onTransfer x id fun transfer =>
      if transfer.status = .confirmed ∨ transfer.status = .failed then
        (x, .done (some ("Cannot cancel transfer in status: " ++ transfer.status.name)))
      else ((x.write id transfer (transfer.cancelled x.clock)).hear id .cancelled, .done none))
  | _, _ => none

/-- A live submission executes or dies. -/
def SubmissionState.settle (executes : Bool) : SubmissionState → SubmissionState
  | live => if executes then executed else dead
  | state => state

def around (x : Shared) : Change → Option Shared
  | .elapse milliseconds => some { x with clock := x.clock + milliseconds }
  | .settle id position executes =>
    some { x with
      submissions := Function.update x.submissions id
        ((x.submissions id).modify position (SubmissionState.settle executes)) }

def rules (ι : Type) (config : BridgeConfig) : Rules ι Shared Stage Outcome Change where
  act _ := step config
  world := around

/-- No transfer was initiated. -/
def fresh (clock : ℕ) : System ι Shared Stage :=
  ⟨⟨clock, fun _ => none, fun _ => [], fun _ => none, []⟩, fun _ => .idle⟩

/-- A status that is never to change. -/
def BridgeStatus.Terminal (status : BridgeStatus) : Prop :=
  status = .confirmed ∨ status = .cancelled
deriving Decidable

/-- A terminal status stays; the net amount is submitted while the transfer is pending and no
    earlier submission can execute or has executed; and only a failed transfer is retried. -/
def Event.Lawful : Event → Prop
  | written _ before after => before.Terminal → after = before
  | submitted _ before earlier => before = .pending ∧ ∀ state ∈ earlier, state = .dead
  | retried _ before => before = .failed

instance (e : Event) : Decidable e.Lawful := by
  unfold Event.Lawful
  split <;> infer_instance

/-- The event is a retry of the transfer. -/
def Event.retries (id : String) : Event → Bool
  | retried other _ => other = id
  | _ => false

/-- The lifecycle of every transfer. -/
structure Orderly (x : Shared) : Prop where
  lawful : ∀ e ∈ x.log, e.Lawful
  once : ∀ id, (x.submissions id).countP (· = .executed) ≤ 1
  cancelled : ∀ id transfer, x.bridgeTransfers id = some transfer → transfer.status = .cancelled →
    .live ∉ x.submissions id
  retries : ∀ id, x.log.countP (Event.retries id) ≤ 3

/-- What holds of the transfer with this id, if there is one. -/
def Shared.Finds (x : Shared) (id : String) (P : StoredBridgeTransfer → Prop) : Prop :=
  ∀ transfer ∈ x.bridgeTransfers id, P transfer

instance (x : Shared) (id : String) (P : StoredBridgeTransfer → Prop) [DecidablePred P] :
    Decidable (x.Finds id P) :=
  inferInstanceAs (Decidable (∀ transfer ∈ x.bridgeTransfers id, P transfer))

/-- The order of the calls on a transfer, and what Axelar answers. It is executed once after it was
    initiated or retried; it is retried after it failed; it is not cancelled while its POST is
    awaited, nor once Axelar has accepted it and may execute it. A POST that fails was not accepted;
    and `executed` or `failed` is answered truly, not before the POST is answered or after a
    cancellation. -/
def Allowed (x : Shared) : Stage → Outcome → Prop
  | .idle, .executeAxelarTransfer id _ => ∀ latest ∈ x.latest id, latest = .opened
  | .idle, .retryTransfer id =>
    x.Finds id fun transfer => 0 < transfer.retriesRemaining → x.latest id = some .failed
  | .idle, .cancelTransfer id => x.latest id ≠ some .posting ∧
    (x.latest id = some .accepted → .live ∉ x.submissions id)
  | .posting id _, .postFailed _ => (x.submissions id).head? = some .dead
  | .polling id, .answered axelarStatus _ => ∀ latest ∈ answered axelarStatus,
    x.latest id ≠ some .posting ∧ x.latest id ≠ some .cancelled ∧
      (x.submissions id).head? = some (if latest = .executed then .executed else .dead)
  | _, _ => True

instance (x : Shared) (p : Stage) (o : Outcome) : Decidable (Allowed x p o) := by
  unfold Allowed
  split <;> infer_instance

def Undisturbed (s : System ι Shared Stage) : Move ι Outcome Change → Prop
  | .act i o => Allowed s.shared (s.proc i) o
  | .world _ => True

instance (s : System ι Shared Stage) (m : Move ι Outcome Change) : Decidable (Undisturbed s m) := by
  unfold Undisturbed
  split <;> infer_instance

end NeuroWealth.Bridge
