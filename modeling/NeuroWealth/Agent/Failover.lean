import NeuroWealth.Foundation.Interleaving

/-!
# Failover of the agent

Instances of `FailoverManager` share one store with one lease record. A call of an instance is cut
at the load and the save of the store; what runs between two of them is one step at one time.
-/

namespace NeuroWealth.Failover

open Interleaving

variable {ι α : Type} [DecidableEq ι] [LinearOrder α] {ttl : ℕ}

inductive FailoverAction where
  | promoted
  | primary
  | standby
  deriving DecidableEq

/-- Lease and heartbeat record persisted to the shared store; `beatAt` is the source's `at`. -/
structure FailoverLease (α : Type) where
  primaryId : α
  beatAt : ℕ
  seq : ℕ

/-- Whether the process of an instance was started and has not died. -/
inductive Life where
  | unborn
  | live
  | dead
  deriving DecidableEq

/-- The store's lease, the clock, and the private fields of each instance. -/
structure Shared (α : Type) where
  lease : Option (FailoverLease α)
  clock : ℕ
  life : α → Life
  primary : α → Bool
  seq : α → ℕ

inductive Method where
  | bootstrap
  | checkAndFailover
  | beat
  | stepDown
  deriving DecidableEq

/-- What a call resolves with; `threw` when it rejects. -/
inductive Answer (α : Type) where
  | action (a : FailoverAction)
  | beaten (lease : FailoverLease α)
  | steppedDown
  | threw

/-- How far a call of instance `agentId` has come. -/
inductive Stage (α : Type) where
  | idle
  | loading (agentId : α) (method : Method)
  | loaded (agentId : α) (method : Method) (lease : Option (FailoverLease α))
  | saving (lease : FailoverLease α) (answer : Answer α)
  | done (answer : Answer α)

/-- A method is called, a pending store call succeeds, or it fails; a failed save may have been
    written all the same. -/
inductive Outcome (α : Type) where
  | invoke (agentId : α) (method : Method)
  | ok
  | fails (written : Bool)

/-- What happens around the calls. -/
inductive Change (α : Type) where
  | elapse (now : ℕ)
  | boot (agentId : α)
  | die (agentId : α)

/-! ## The methods -/

/-- `!lease || now - lease.at > heartbeatTtlMs`. -/
def stale (ttl now : ℕ) : Option (FailoverLease α) → Prop
  | none => True
  | some lease => lease.beatAt + ttl < now

instance (now : ℕ) (lease : Option (FailoverLease α)) : Decidable (stale ttl now lease) := by
  cases lease <;> unfold stale <;> infer_instance

namespace Shared

/-- `beat`, up to its save: the next sequence number and the record to save. -/
def beat (x : Shared α) (agentId : α) : Shared α × FailoverLease α :=
  let seq := x.seq agentId + 1
  ({ x with seq := Function.update x.seq agentId seq }, ⟨agentId, x.clock, seq⟩)

/-- `stepDown`. -/
def stepDown (x : Shared α) (agentId : α) : Shared α :=
  { x with primary := Function.update x.primary agentId false }

/-- `acquireLease`, up to its save: a fresh lease of an instance with a lower id is not taken. -/
def acquireLease (ttl : ℕ) (x : Shared α) (agentId : α) (previous : Option (FailoverLease α)) :
    Shared α × Option (FailoverLease α) :=
  let refused := previous.any fun lease =>
    lease.primaryId ≠ agentId ∧ ¬ lease.beatAt + ttl < x.clock ∧ lease.primaryId < agentId
  if refused then (x.stepDown agentId, none)
  else
    let x := { x with
      primary := Function.update x.primary agentId true
      seq := Function.update x.seq agentId 0 }
    let (x, lease) := x.beat agentId
    (x, some lease)

/-- `bootstrap` from the answer of its load to its save. -/
def bootstrap (ttl : ℕ) (x : Shared α) (agentId : α) (lease : Option (FailoverLease α)) :
    Shared α × Option (FailoverLease α) × FailoverAction :=
  if stale ttl x.clock lease then
    let (x, saved) := x.acquireLease ttl agentId lease
    (x, saved, .promoted)
  else ({ x with primary := Function.update x.primary agentId false }, none, .standby)

/-- `checkAndFailover` from the answer of its load to its save. -/
def checkAndFailover (ttl : ℕ) (x : Shared α) (agentId : α) (lease : Option (FailoverLease α)) :
    Shared α × Option (FailoverLease α) × FailoverAction :=
  if x.primary agentId then
    -- the winner of a write race is the lower id
    if lease.any fun lease => lease.primaryId ≠ agentId ∧ min lease.primaryId agentId =
        lease.primaryId then (x.stepDown agentId, none, .standby)
    else
      let (x, saved) := x.beat agentId
      (x, some saved, .primary)
  else if stale ttl x.clock lease then
    let (x, saved) := x.acquireLease ttl agentId lease
    (x, saved, .promoted)
  else (x, none, .standby)

end Shared

/-! ## The steps of a call -/

/-- A call that has nothing to save has its answer. -/
def proceed (next : Shared α × Option (FailoverLease α) × FailoverAction) : Shared α × Stage α :=
  match next with
  | (x, some lease, answer) => (x, .saving lease (.action answer))
  | (x, none, answer) => (x, .done (.action answer))

/-- A call of a method by a live instance, up to its first store call. -/
def invoke (x : Shared α) (agentId : α) : Method → Shared α × Stage α
  | .beat =>
    if x.primary agentId then
      let (x, lease) := x.beat agentId
      (x, .saving lease (.beaten lease))
    else (x, .done .threw)
  | .stepDown =>
    (if x.primary agentId then x.stepDown agentId else x, .done .steppedDown)
  | method => (x, .loading agentId method)

/-- One step of a call. A dead instance's code does not run on, but a save it has sent may still
    arrive. -/
def step (ttl : ℕ) (x : Shared α) : Stage α → Outcome α → Option (Shared α × Stage α)
  | .idle, .invoke agentId method =>
    if x.life agentId = .live then some (invoke x agentId method) else none
  | .loading agentId method, .ok => some (x, .loaded agentId method x.lease)
  | .loading _ _, .fails _ => some (x, .done .threw)
  | .loaded agentId .bootstrap lease, .ok =>
    if x.life agentId = .live then some (proceed (x.bootstrap ttl agentId lease)) else none
  | .loaded agentId .checkAndFailover lease, .ok =>
    if x.life agentId = .live then some (proceed (x.checkAndFailover ttl agentId lease)) else none
  | .saving lease answer, .ok => some ({ x with lease := some lease }, .done answer)
  | .saving lease _, .fails written =>
    some (if written then { x with lease := some lease } else x, .done .threw)
  | _, _ => none

/-- Time passes, an instance starts, or one dies. -/
def around (x : Shared α) : Change α → Option (Shared α)
  | .elapse now => if x.clock ≤ now then some { x with clock := now } else none
  | .boot agentId =>
    if x.life agentId = .unborn then
      some { x with life := Function.update x.life agentId .live } else none
  | .die agentId =>
    if x.life agentId = .live then
      some { x with life := Function.update x.life agentId .dead } else none

/-- Any calls of any instances. -/
def rules (ι : Type) (ttl : ℕ) : Rules ι (Shared α) (Stage α) (Outcome α) (Change α) where
  act _ := step ttl
  world := around

/-- An empty store, and no instance started. -/
def fresh (clock : ℕ) : System ι (Shared α) (Stage α) :=
  ⟨⟨none, clock, fun _ => .unborn, fun _ => false, fun _ => 0⟩, fun _ => .idle⟩

/-! ## Rounds of checks -/

/-- A call of `checkAndFailover` that runs from start to end at one time. -/
structure Check (ι α : Type) where
  call : ι
  agentId : α
  now : ℕ

/-- The moves of an undisturbed check whose load and save succeed. -/
def Check.moves (c : Check ι α) : List (Move ι (Outcome α) (Change α)) :=
  [.world (.elapse c.now), .act c.call (.invoke c.agentId .checkAndFailover), .act c.call .ok,
    .act c.call .ok, .act c.call .ok]

/-- Checks, one after the other. -/
def runChecks (ttl : ℕ) (s : System ι (Shared α) (Stage α)) (cs : List (Check ι α)) :
    System ι (Shared α) (Stage α) :=
  (cs.flatMap Check.moves).foldl (rules ι ttl).after s

/-- Each live instance checks exactly once. -/
structure Round (x : Shared α) (cs : List (Check ι α)) : Prop where
  covers : ∀ a, x.life a = .live ↔ a ∈ cs.map Check.agentId
  once : (cs.map Check.agentId).Nodup

end NeuroWealth.Failover
