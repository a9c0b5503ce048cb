import NeuroWealth.Foundation.OrderedStream
import NeuroWealth.Foundation.Runs

/-!
# The client's event stream

The loop of `VaultEventListener.start`, which reads the contract's events in pages and dispatches
them to the registered handlers, while the chain grows and handlers are added. One call of `start`
is followed; another one, also after `stop`, is ignored.
-/

namespace NeuroWealth.VaultClient

open OrderedStream

variable {σ π η : Type}

/-- What the listener uses of the SDK: the conversion of a contract value, which may throw, and the
    text of a converted value that is a string. -/
structure Sdk (σ π : Type) where
  scValToNative : σ → Option π
  text : π → Option String

structure EventResponse (σ : Type) where
  ledger : ℕ
  topic : List σ
  value : σ
deriving DecidableEq

/-- The events of the contract, in chain order. Ledgers are numbered from one. -/
structure Chain (σ : Type) where
  events : List (EventResponse σ)
  ordered : Ordered EventResponse.ledger events
  positive : ∀ e ∈ events, 0 < e.ledger

/-- Topic symbols emitted by the contract, keyed by event name. -/
def eventTopics : List (String × String) :=
  [("deposit", "deposit"),
    ("withdraw", "withdraw"),
    ("rebalance", "rebalance"),
    ("rebalance_failed", "reb_fail"),
    ("protocol_changed", "proto_chg"),
    ("initialized", "init"),
    ("paused", "paused"),
    ("unpaused", "unpaused"),
    ("emergency_paused", "emerg"),
    ("tvl_cap_updated", "tvl_cap"),
    ("user_cap_updated", "user_cap"),
    ("limits_updated", "l_upd"),
    ("deposit_limits_updated", "dep_lim"),
    ("caps_updated", "caps_upd"),
    ("agent_updated", "agent"),
    ("agent_update_proposed", "agt_prop"),
    ("agent_update_confirmed", "agt_conf"),
    ("agent_update_cancelled", "agt_cncl"),
    ("ownership_initiated", "own_init"),
    ("ownership_transferred", "own_xfer"),
    ("ownership_cancelled", "own_cncl"),
    ("assets_updated", "assets"),
    ("upgraded", "upgraded"),
    ("upgrade_scheduled", "upg_sched"),
    ("upgrade_cancelled", "upg_cncl"),
    ("blend_supply", "blend_sup"),
    ("blend_withdraw", "blend_wd"),
    ("blend_pool_configured", "blend_cfg"),
    ("dex_supply", "dex_sup"),
    ("dex_withdraw", "dex_wd"),
    ("dex_pool_configured", "dex_cfg"),
    ("user_strategy_updated", "usr_strat")]

/-- How far the loop has come. -/
inductive Stage (σ : Type) where
  | idle
  /-- `getLatestLedger` is awaited. -/
  | locating
  /-- The condition of the loop is next. -/
  | looping (cursorLedger : ℕ)
  /-- `getEvents` is awaited. -/
  | requesting (cursorLedger : ℕ)
  /-- The rest of a page is still to be dispatched. -/
  | dispatching (cursorLedger : ℕ) (events rest : List (EventResponse σ))
  | ended (cursorLedger : ℕ)
  /-- `start` was rejected. -/
  | rejected

/-- An event that `dispatchEvent` returned for: what was registered at the time, the handlers that
    were called, and the payload they were given. -/
structure Dispatch (σ π η : Type) where
  event : EventResponse σ
  handlers : String → List η
  userFilters : String → List String
  calls : List (η × π)

/-- The listener and the latest closed ledger. `startLedger` is where the stream starts, and
    `dispatched` are the dispatches, oldest first. -/
structure Listener (σ π η : Type) where
  latest : ℕ
  running : Bool
  handlers : String → List η
  userFilters : String → List String
  stage : Stage σ
  startLedger : Option ℕ
  dispatched : List (Dispatch σ π η)

/-- The loop takes its next step, an RPC call is answered or fails, a handler is registered, the
    listener is stopped, or a ledger closes. -/
inductive Step (η : Type) where
  | start (startLedger : Option ℕ)
  | located
  | locateFailed
  | iterate
  | answered
  | getEventsFailed
  | dispatch
  | on (topicKey : String) (handler : η) (userFilter : Option String)
  | stop
  | close

section Listener

variable (sdk : Sdk σ π) (x : Listener σ π η)

/-- The user address in topic 1, if there is one. Throws if the topic cannot be converted. -/
def extractUserTopic (event : EventResponse σ) : Option (Option String) :=
  match event.topic[1]? with
  | none => some none
  | some topic =>
    match sdk.scValToNative topic with
    | none => none
    | some native => some (sdk.text native)

/-- The user filter lets the event through. -/
def Listener.admits (topicKey : String) (event : EventResponse σ) : Option Bool :=
  if x.userFilters topicKey = [] then some true
  else
    match extractUserTopic sdk event with
    | none => none
    | some none => some false
    | some (some userAddr) => some (userAddr ≠ "" ∧ userAddr ∈ x.userFilters topicKey)

/-- The key whose symbol is the event's first topic. -/
def matchedKey (primaryTopic : π) : Option String :=
  match sdk.text primaryTopic with
  | none => none
  | some symbol => (eventTopics.find? fun entry => entry.2 = symbol).map Prod.fst

/-- The handlers that an event is given to, with its payload. Throws if a topic or the payload
    cannot be converted. -/
def Listener.dispatchEvent (event : EventResponse σ) : Option (List (η × π)) :=
  match event.topic with
  | [] => some []
  | first :: _ =>
    match sdk.scValToNative first with
    | none => none
    | some primaryTopic =>
      match matchedKey sdk primaryTopic with
      | none => some []
      | some key =>
        if (x.handlers key).isEmpty then some []
        else
          match x.admits sdk key event with
          | none => none
          | some false => some []
          | some true =>
            match sdk.scValToNative event.value with
            | none => none
            | some payload => some ((x.handlers key).map fun handler => (handler, payload))

/-- The contract's events from a ledger on, truncated to the limit. -/
def Listener.getEvents (chain : Chain σ) (batchSize cursorLedger : ℕ) : List (EventResponse σ) :=
  (span EventResponse.ledger chain.events cursorLedger (x.latest + 1)).take batchSize

/-- The cursor after a page. -/
def nextCursor (cursorLedger : ℕ) (events : List (EventResponse σ)) : ℕ :=
  match events.getLast? with
  | none => cursorLedger
  | some lastEvent => if lastEvent.ledger ≠ 0 then lastEvent.ledger + 1 else cursorLedger

/-- The next event of a page is dispatched, or the page is finished. An exception ends the page, and
    leaves the cursor as it was. -/
def Listener.dispatch (cursorLedger : ℕ) (events : List (EventResponse σ)) :
    List (EventResponse σ) → Listener σ π η
  | [] => { x with stage := .looping (nextCursor cursorLedger events) }
  | event :: rest =>
    match x.dispatchEvent sdk event with
    | none => { x with stage := .looping cursorLedger }
    | some calls => { x with
        stage := .dispatching cursorLedger events rest
        dispatched := x.dispatched ++ [⟨event, x.handlers, x.userFilters, calls⟩] }

/-- `start`, up to its first call that is awaited. -/
def Listener.start (startLedger : Option ℕ) : Listener σ π η :=
  match startLedger with
  | none => { x with
      running := true
      stage := .locating }
  | some ledger => { x with
      running := true
      stage := .looping ledger
      startLedger := some ledger }

/-- `on`. -/
def Listener.on (topicKey : String) (handler : η) (userFilter : Option String) :
    Listener σ π η :=
  { x with
    handlers := Function.update x.handlers topicKey (x.handlers topicKey ++ [handler])
    userFilters :=
      match userFilter.filter (· ≠ "") with
      | none => x.userFilters
      | some user => Function.update x.userFilters topicKey (x.userFilters topicKey ++ [user]) }

/-- The listener after a step; an impossible one changes nothing. -/
def after (chain : Chain σ) (batchSize : ℕ) (x : Listener σ π η) : Step η → Listener σ π η
  | .close => { x with latest := x.latest + 1 }
  | .stop => { x with running := false }
  | .on topicKey handler userFilter => x.on topicKey handler userFilter
  | .start startLedger =>
    match x.stage with
    | .idle => x.start startLedger
    | _ => x
  | .located =>
    match x.stage with
    | .locating => { x with
        stage := .looping x.latest
        startLedger := some x.latest }
    | _ => x
  | .locateFailed =>
    match x.stage with
    | .locating => { x with stage := .rejected }
    | _ => x
  | .iterate =>
    match x.stage with
    | .looping cursorLedger =>
      if x.running then { x with stage := .requesting cursorLedger }
      else { x with stage := .ended cursorLedger }
    | _ => x
  | .answered =>
    match x.stage with
    | .requesting cursorLedger =>
      let events := x.getEvents chain batchSize cursorLedger
      { x with stage := .dispatching cursorLedger events events }
    | _ => x
  | .getEventsFailed =>
    match x.stage with
    | .requesting cursorLedger => { x with stage := .looping cursorLedger }
    | _ => x
  | .dispatch =>
    match x.stage with
    | .dispatching cursorLedger events rest => x.dispatch sdk cursorLedger events rest
    | _ => x

end Listener

/-- No handler is registered, and the listener was not started. -/
def fresh (latest : ℕ) : Listener σ π η where
  latest := latest
  running := false
  handlers _ := []
  userFilters _ := []
  stage := .idle
  startLedger := none
  dispatched := []

/-- The listener's cursor, once it has one. -/
def Stage.cursor : Stage σ → Option ℕ
  | looping cursorLedger => some cursorLedger
  | requesting cursorLedger => some cursorLedger
  | dispatching cursorLedger _ _ => some cursorLedger
  | ended cursorLedger => some cursorLedger
  | _ => none

/-- The handlers that were called, with the payload, are those that what was registered at the time
    chooses for the event. Registrations are only ever added. -/
def Listener.Gave (sdk : Sdk σ π) (x : Listener σ π η) (d : Dispatch σ π η) : Prop :=
  (∀ key, d.handlers key <+: x.handlers key) ∧
  (∀ key, d.userFilters key <+: x.userFilters key) ∧
  Listener.dispatchEvent sdk
    { (fresh 0 : Listener σ π η) with handlers := d.handlers, userFilters := d.userFilters }
    d.event = some d.calls

/-- The events before the cursor that were dispatched are those from the start ledger on, each of
    them once and in chain order; each was given to the handlers registered for it at the time. -/
structure Complete (sdk : Sdk σ π) (chain : Chain σ) (x : Listener σ π η) : Prop where
  events : ∀ startLedger ∈ x.startLedger, ∀ cursorLedger ∈ x.stage.cursor,
    (x.dispatched.map Dispatch.event).filter (fun e => e.ledger < cursorLedger) =
      span EventResponse.ledger chain.events startLedger cursorLedger
  calls : ∀ d ∈ x.dispatched, x.Gave sdk d

/-- An event throws only as the first one of its page, and the cursor moves only after a page with
    all the events of its last ledger. -/
def Undisturbed (sdk : Sdk σ π) (chain : Chain σ) (batchSize : ℕ) (x : Listener σ π η) :
    Step η → Prop
  | .dispatch =>
    match x.stage with
    | .dispatching _ events (event :: rest) =>
      x.dispatchEvent sdk event = none → events.length = (event :: rest).length
    | .dispatching cursorLedger events [] =>
      ∀ lastEvent ∈ events.getLast?,
        (span EventResponse.ledger chain.events cursorLedger (lastEvent.ledger + 1)).length ≤
          batchSize
    | _ => True
  | _ => True

instance (sdk : Sdk σ π) (chain : Chain σ) (batchSize : ℕ) (x : Listener σ π η) (m : Step η) :
    Decidable (Undisturbed sdk chain batchSize x m) := by
  unfold Undisturbed
  split
  · split <;> infer_instance
  · infer_instance

end NeuroWealth.VaultClient
