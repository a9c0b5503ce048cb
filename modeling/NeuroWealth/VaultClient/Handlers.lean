import NeuroWealth.VaultClient.EventListener

/-!
# The client's handlers

Registrations of `VaultEventListener`, the events they ask for, and the calls an event leads to.
-/

namespace NeuroWealth.VaultClient

variable {σ π η : Type}

/-- The arguments of a call to `on`. -/
structure Registration (η : Type) where
  topicKey : String
  handler : η
  userFilter : Option String

/-- The listener after its registrations. -/
def register (registrations : List (Registration η)) : Listener σ π η :=
  registrations.foldl (fun x r => x.on r.topicKey r.handler r.userFilter) (fresh 0)

/-- The loop over the handlers, each in a `try` of its own: who was called, and what was logged. -/
def runHandlers (run : η → π → Except String Unit) : List (η × π) → List η × List String
  | [] => ([], [])
  | (handler, payload) :: rest =>
    let (called, errors) := runHandlers run rest
    match run handler payload with
    | .ok _ => (handler :: called, errors)
    | .error err => (handler :: called, err :: errors)

section Events

variable (sdk : Sdk σ π) (event : EventResponse σ)

/-- The handlers an event calls. None, where `dispatchEvent` throws. -/
def invoked (run : η → π → Except String Unit) (registrations : List (Registration η)) : List η :=
  (runHandlers run (((register registrations).dispatchEvent sdk event).getD [])).1

def primaryTopic : Option String := (event.topic[0]?.bind sdk.scValToNative).bind sdk.text

def userTopic : Option String := (event.topic[1]?.bind sdk.scValToNative).bind sdk.text

/-- The topic key names the event's primary topic. -/
def Registration.Names (r : Registration η) : Prop :=
  ∃ symbol ∈ primaryTopic sdk event, (r.topicKey, symbol) ∈ eventTopics

/-- The event is for the registration, which has no user filter or the event's user topic as
    filter. -/
def Registration.Matches (r : Registration η) : Prop :=
  r.Names sdk event ∧ ∀ user ∈ r.userFilter, userTopic sdk event = some user

instance (r : Registration η) : Decidable (r.Names sdk event) :=
  inferInstanceAs (Decidable (∃ symbol ∈ _, _))

instance (r : Registration η) : Decidable (r.Matches sdk event) :=
  inferInstanceAs (Decidable (_ ∧ ∀ user ∈ _, _))

/-- Each matching registration has its handler called, and no other one. -/
def Exact (run : η → π → Except String Unit) (registrations : List (Registration η)) : Prop :=
  invoked sdk event run registrations =
    (registrations.filter fun r => r.Matches sdk event).map Registration.handler

end Events

end NeuroWealth.VaultClient
