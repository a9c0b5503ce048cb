import NeuroWealth.Foundation.Interleaving
import NeuroWealth.Foundation.OrderedStream

/-!
# The agent's event listener

`startEventListener` and the polls of its intervals, which interleave where they await the RPC, the
database or the handling of an event. A restart of the process loses what is in memory.
-/

namespace NeuroWealth.EventListener

open Interleaving OrderedStream

variable {ι : Type} [DecidableEq ι]

def eventPageLimit : ℕ := 1000

/-- `topic` is what `toString` gives for each topic; an empty `cursor` is a missing one. -/
structure EventResponse where
  id : String
  ledger : ℕ
  topic : List String
  cursor : String
deriving DecidableEq

/-- The events of the vault contract, in chain order. -/
structure Chain where
  events : List EventResponse
  ordered : Ordered EventResponse.ledger events

/-- The environment. -/
structure Config where
  contractId : String
  databaseUrl : Bool

/-- `text` includes `part`. -/
def includes (text part : String) : Bool := text.toList.tails.any fun rest =>
  part.toList.isPrefixOf rest

inductive EventType where
  | deposit
  | withdraw
deriving DecidableEq

def EventResponse.type (event : EventResponse) : Option EventType :=
  if event.topic.any (includes · "deposit") then some .deposit
  else if event.topic.any (includes · "withdraw") then some .withdraw
  else none

/-! ## The system -/

/-- A poll that has read some pages: the interval it belongs to, the ledger it started from, the
    greatest `latestLedger` so far, and the last page with its own one. `position` is the number of
    the chain's events before the next page, and `listed` are the events of all its pages. -/
structure Poll where
  interval : ℕ
  start : ℕ
  latestLedger : ℕ
  page : List EventResponse
  pageLatest : ℕ
  position : ℕ
  listed : List EventResponse

/-- What a call awaits. -/
inductive Task where
  /-- `getLatestLedger`. -/
  | locating
  /-- The first page, from a ledger on. -/
  | polling (interval start : ℕ)
  /-- The insert of an event. -/
  | logging (poll : Poll) (event : EventResponse) (rest : List EventResponse)
  /-- The evaluation of the yield and the alerts for an event. -/
  | handling (poll : Poll) (event : EventResponse) (rest : List EventResponse)
  /-- The next page. -/
  | paging (poll : Poll)

/-- How far a call has come, and the start of the process that it belongs to. -/
inductive Stage where
  | idle
  | running (epoch : ℕ) (task : Task)
  | done

/-- The intervals of all calls of `startEventListener`, numbered in their order, each with its
    variable `startLedger`; `live` are those that were not cleared. `rows` are the event ids in
    `vault_events`, and `epoch` is the number of restarts. -/
structure Shared where
  epoch : ℕ
  intervals : ℕ
  startLedger : ℕ → ℕ
  eventInterval : Option ℕ
  live : List ℕ
  lastProcessedLedger : ℕ
  rows : String → Bool

/-- The listener is started, an interval fires, or what a call awaits returns or throws. -/
inductive Outcome where
  | startEventListener (checkpointLedger : Option ℕ)
  | latest (sequence : ℕ)
  | tick (interval : ℕ)
  | page (latestLedger : ℕ)
  /-- An attempt of `getEvents` failed, and `withRetry` makes another one. -/
  | retried
  | logged (stored : Bool)
  | handled
  | threw

/-- The listener is stopped, or the process is restarted. -/
inductive Change where
  | stopEventListener
  | restart

namespace Shared

variable (x : Shared)

def recordEventCheckpoint (processedLedger : ℕ) : Shared :=
  { x with lastProcessedLedger := max x.lastProcessedLedger processedLedger }

/-- `INSERT` ... `ON CONFLICT DO NOTHING`, unless there is no database or the query fails. -/
def logEventToDb (config : Config) (event : EventResponse) (stored : Bool) : Shared :=
  if config.databaseUrl && stored then
    { x with rows := Function.update x.rows event.id true }
  else x

/-- The interval of a new call. -/
def setInterval (startLedger : ℕ) : Shared :=
  { x with
    intervals := x.intervals + 1
    startLedger := Function.update x.startLedger x.intervals startLedger
    eventInterval := some x.intervals
    live := x.intervals :: x.live }

/-- A poll has scanned up to its latest ledger. -/
def advance (poll : Poll) : Shared :=
  { x with
    startLedger := Function.update x.startLedger poll.interval
      (max (x.startLedger poll.interval) (poll.latestLedger + 1)) }.recordEventCheckpoint
        poll.latestLedger

end Shared

/-! ## The polls -/

/-- The first page of a poll: the events from the start ledger on. -/
def firstPage (chain : Chain) (interval start latestLedger : ℕ) : Poll :=
  let page := (span EventResponse.ledger chain.events start (latestLedger + 1)).take eventPageLimit
  { interval := interval
    start := start
    latestLedger := latestLedger
    page := page
    pageLatest := latestLedger
    position := chain.events.countP (fun e => e.ledger < start) + page.length
    listed := page }

/-- The next page: the events after the cursor. -/
def Poll.nextPage (poll : Poll) (chain : Chain) (latestLedger : ℕ) : Poll :=
  let page := pageAt EventResponse.ledger chain.events poll.position (latestLedger + 1)
    eventPageLimit
  { poll with
    latestLedger := max poll.latestLedger latestLedger
    page := page
    pageLatest := latestLedger
    position := poll.position + page.length
    listed := poll.listed ++ page }

/-- All events of the page were processed: the poll ends, or asks for the next page. -/
def Poll.finish (poll : Poll) (x : Shared) : Shared × Option Task :=
  if poll.page.length < eventPageLimit then (x.advance poll, none)
  else
    match poll.page.getLast? with
    | none => (x, none)
    | some last => (x, if last.cursor = "" then none else some (.paging poll))

/-- The events of the page from here on are processed, up to the next deposit or withdrawal. -/
def Poll.process (poll : Poll) (x : Shared) : List EventResponse → Shared × Option Task
  | [] => poll.finish x
  | event :: rest =>
    match event.type with
    | none => poll.process x rest
    | some _ => (x, some (.logging poll event rest))

/-- A call goes on with what it awaited. -/
def work (config : Config) (chain : Chain) (x : Shared) :
    Task → Outcome → Option (Shared × Option Task)
  | .locating, .latest sequence =>
    some ((x.recordEventCheckpoint sequence).setInterval sequence, none)
  | .locating, .threw => some (x, none)
  | .polling interval start, .page latestLedger =>
    let poll := firstPage chain interval start latestLedger
    some (poll.process x poll.page)
  | .polling interval _, .retried => some (x, some (.polling interval (x.startLedger interval)))
  | .polling _ _, .threw => some (x, none)
  | .logging poll event rest, .logged stored =>
    some (x.logEventToDb config event stored, some (.handling poll event rest))
  | .handling poll _ rest, .handled => some (poll.process x rest)
  | .handling _ _ _, .threw => some (x, none)
  | .paging poll, .page latestLedger =>
    let next := poll.nextPage chain latestLedger
    some (next.process x next.page)
  | .paging _, .threw => some (x, none)
  | _, _ => none

/-- What a call does next; a restart has ended those of earlier processes. -/
def Stage.of (epoch : ℕ) : Option Task → Stage
  | none => .done
  | some task => .running epoch task

/-- One step of a call. -/
def step (config : Config) (chain : Chain) (x : Shared) : Stage → Outcome → Option (Shared × Stage)
  | .idle, .startEventListener _ =>
    some (x, if config.contractId = "" then .done else .running x.epoch .locating)
  | .idle, .tick interval =>
    if interval ∈ x.live then
      some (x, .running x.epoch (.polling interval (x.startLedger interval)))
    else none
  | .running epoch task, o =>
    if epoch = x.epoch then
      (work config chain x task o).map fun z => (z.1, Stage.of epoch z.2)
    else none
  | _, _ => none

def around (x : Shared) : Change → Option Shared
  | .stopEventListener =>
    match x.eventInterval with
    | none => some x
    | some interval => some { x with
        live := x.live.erase interval
        eventInterval := none }
  | .restart => some { x with
      epoch := x.epoch + 1
      eventInterval := none
      live := []
      lastProcessedLedger := 0 }

def rules (ι : Type) (config : Config) (chain : Chain) : Rules ι Shared Stage Outcome Change where
  act _ := step config chain
  world := around

/-- The listener was never started; the table may hold some rows. -/
def fresh (rows : String → Bool) : System ι Shared Stage :=
  ⟨⟨0, 0, fun _ => 0, none, [], 0, rows⟩, fun _ => .idle⟩

/-! ## Completeness -/

/-- Every deposit and withdrawal after the checkpoint and up to the recorded ledger has a row. -/
def Complete (chain : Chain) (checkpoint : ℕ) (x : Shared) : Prop :=
  ∀ event ∈ chain.events, event.type.isSome → checkpoint < event.ledger →
    event.ledger ≤ x.lastProcessedLedger → x.rows event.id = true

/-- Polls have advanced over every deposit and withdrawal after the checkpoint and up to the ledger
    `n`: it lies before the start ledger of an interval. -/
def Scanned (chain : Chain) (checkpoint : ℕ) (x : Shared) (n : ℕ) : Prop :=
  ∀ event ∈ chain.events, event.type.isSome → checkpoint < event.ledger → event.ledger ≤ n →
    ∃ interval ∈ List.range x.intervals, event.ledger < x.startLedger interval
deriving Decidable

/-- No deposit or withdrawal is after ledger `a` and not after ledger `b`. -/
def Quiet (chain : Chain) (a b : ℕ) : Prop :=
  ∀ event ∈ chain.events, event.type.isSome → a < event.ledger → b < event.ledger
deriving Decidable

/-- A start finds the chain where the polls have been, or with nothing emitted since; there is a
    database, and no insert of an event after the checkpoint fails; and the last page of a poll does
    not lag behind the pages before it, or by ledgers without a deposit or a withdrawal only. -/
def Allowed (config : Config) (chain : Chain) (checkpoint : ℕ) (x : Shared) :
    Stage → Outcome → Prop
  | .running _ .locating, .latest sequence => Scanned chain checkpoint x sequence
  | .running _ (.logging _ event _), .logged stored =>
    checkpoint < event.ledger → config.databaseUrl = true ∧ stored = true
  | .running _ (.paging poll), .page latestLedger =>
    (poll.nextPage chain latestLedger).page.length < eventPageLimit →
      Quiet chain latestLedger poll.latestLedger
  | _, _ => True

instance (config : Config) (chain : Chain) (checkpoint : ℕ) (x : Shared) (p : Stage) (o : Outcome) :
    Decidable (Allowed config chain checkpoint x p o) := by
  unfold Allowed
  split <;> infer_instance

def Undisturbed (config : Config) (chain : Chain) (checkpoint : ℕ) (s : System ι Shared Stage) :
    Move ι Outcome Change → Prop
  | .act i o => Allowed config chain checkpoint s.shared (s.proc i) o
  | .world _ => True

instance (config : Config) (chain : Chain) (checkpoint : ℕ) (s : System ι Shared Stage)
    (m : Move ι Outcome Change) : Decidable (Undisturbed config chain checkpoint s m) := by
  unfold Undisturbed
  split <;> infer_instance

end NeuroWealth.EventListener
