import NeuroWealth.Agent.RebalanceCall
import NeuroWealth.Foundation.Interleaving

/-!
# Submitting and reconciling a rebalance

The production hooks share one pending hash. A call runs to its end even when its caller has given
it up, so any number of calls interleave at their awaits. What the RPC answers is open, as long as
a transaction it calls successful or failed is so on chain. A hash determines its transaction.
-/

namespace NeuroWealth.YieldCheck.Submission

open Interleaving
open Vault (Protocol)

variable {ι η : Type} [DecidableEq ι] [DecidableEq η]

/-- Rounds of the confirmation loop. -/
def MAX_POLLS : ℕ := 30

/-- A call of one of the two hooks. -/
inductive Call where
  | submitRebalance (protocol : Protocol) (expectedApy : ℚ) (minOut : ℤ)
  | reconcileRebalance (protocol : Protocol)

/-- A contract call is what a hook was called for. -/
def Call.Fits (c : RebalanceCall) : Call → Prop
  | submitRebalance protocol expectedApy minOut =>
    c = YieldCheck.submitRebalance protocol expectedApy minOut
  | reconcileRebalance protocol => c.protocol = protocol

instance (call : Call) (c : RebalanceCall) : Decidable (call.Fits c) :=
  match call with
  | .submitRebalance _ _ _ => inferInstanceAs (Decidable (_ = _))
  | .reconcileRebalance _ => inferInstanceAs (Decidable (_ = _))

/-- A call asks for the rebalance that a submission asks for. -/
def Call.Repeats : Call → Call → Prop
  | submitRebalance protocol expectedApy minOut, submitRebalance protocol' expectedApy' minOut' =>
    YieldCheck.submitRebalance protocol expectedApy minOut =
      YieldCheck.submitRebalance protocol' expectedApy' minOut'
  | reconcileRebalance protocol, submitRebalance protocol' _ _ => protocol = protocol'
  | _, reconcileRebalance _ => False

instance (call sender : Call) : Decidable (call.Repeats sender) :=
  match call, sender with
  | .submitRebalance _ _ _, .submitRebalance _ _ _ => inferInstanceAs (Decidable (_ = _))
  | .reconcileRebalance _, .submitRebalance _ _ _ => inferInstanceAs (Decidable (_ = _))
  | .submitRebalance _ _ _, .reconcileRebalance _ => inferInstanceAs (Decidable False)
  | .reconcileRebalance _, .reconcileRebalance _ => inferInstanceAs (Decidable False)

/-- The calls, and the contract call in the transaction with a hash. -/
structure Env (ι η : Type) where
  call : ι → Call
  agentSecret : Option String
  carries : η → RebalanceCall

/-- A status `getTransaction` answers. -/
inductive Status where
  | success
  | failed
  | notFound
deriving DecidableEq

/-- A transaction sent, the call that sent it, and the earlier ones whose end was not known then. -/
structure Send (η : Type) where
  hash : η
  call : Call
  unresolved : List η

/-- The pending hash and the chain. `known` are the hashes a call was told the end of; `sends` are
    all transactions sent. -/
structure Shared (η : Type) where
  pendingRebalanceHash : Option η
  ledger : η → Status
  known : List η
  sends : List (Send η)

/-- Where a hook's call stands. -/
inductive Stage (η : Type) where
  | idle
  /-- A submission asks about the pending hash. -/
  | prior (hash : η)
  /-- `server.getAccount`. -/
  | loading
  /-- `server.prepareTransaction`. -/
  | preparing
  /-- `server.sendTransaction`. -/
  | sending (hash : η)
  | polling (txHash : Option η) (round : ℕ)
  /-- A reconciliation loads the SDK. -/
  | importing
  | reconciling (pendingHash : Option η)
  /-- Resolved with a hash or with none. -/
  | resolved (hash : Option η)
  | rejected
deriving DecidableEq

/-- How an await ends. -/
inductive Outcome (η : Type) where
  | start
  | ok
  | throws
  | prepared (hash : η)
  /-- `sendTransaction` answers `ERROR`. -/
  | error
  /-- `sendTransaction` answers with another status. -/
  | response (hash : Option η)
  | answer (status : Status)

/-- The network includes a transaction. -/
inductive Change (η : Type) where
  | includes (hash : η) (succeeded : Bool)

namespace Shared

variable (x : Shared η)

/-- The transactions sent whose end nobody was told. -/
def unresolved : List η := (x.sends.map Send.hash).filter fun hash => hash ∉ x.known

/-- The RPC may lag, but what it finds is on chain. -/
def Answers (asked : Option η) (status : Status) : Prop :=
  status = .notFound ∨ ∃ hash ∈ asked, x.ledger hash = status

instance (asked : Option η) (status : Status) : Decidable (x.Answers asked status) :=
  match asked with
  | none => decidable_of_iff (status = .notFound) (by simp [Answers])
  | some hash => decidable_of_iff (status = .notFound ∨ x.ledger hash = status) (by simp [Answers])

/-- The slot is cleared: the end of `asked` is known. -/
def settle (asked : Option η) : Shared η :=
  { x with pendingRebalanceHash := none, known := asked.toList ++ x.known }

/-- Success and failure clear the slot. -/
def learn (asked : Option η) : Status → Shared η
  | .notFound => x
  | _ => x.settle asked

def send (call : Call) (hash : η) : Shared η :=
  { x with
    pendingRebalanceHash := some hash
    known := x.known.filter fun other => other ≠ hash
    sends := ⟨hash, call, x.unresolved⟩ :: x.sends }

end Shared

/-- The next round of the loop, or the error after the last one. -/
def nextPoll (txHash : Option η) (round : ℕ) : Stage η :=
  if round + 1 < MAX_POLLS then .polling txHash (round + 1) else .rejected

/-- A submission is told about the pending hash it asked for; it returns what is in the slot. -/
def afterPrior (slot : Option η) : Status → Stage η
  | .success => .resolved slot
  | .failed => .loading
  | .notFound => .rejected

/-- The error thrown for a failed transaction is caught by the loop itself. -/
def afterPoll (txHash : Option η) (round : ℕ) : Status → Stage η
  | .success => .resolved txHash
  | _ => nextPoll txHash round

def afterReconcile (pendingHash : Option η) : Status → Stage η
  | .success => .resolved pendingHash
  | _ => .resolved none

/-- A call starts. -/
def start (env : Env ι η) (i : ι) (x : Shared η) : Stage η :=
  match env.call i with
  | .submitRebalance _ _ _ =>
    match env.agentSecret, x.pendingRebalanceHash with
    | none, _ => .rejected
    | some _, some hash => .prior hash
    | some _, none => .loading
  | .reconcileRebalance _ =>
    if x.pendingRebalanceHash = none then .resolved none else .importing

/-- One step of call `i`, from one await to the next. -/
def step (env : Env ι η) (i : ι) (x : Shared η) :
    Stage η → Outcome η → Option (Shared η × Stage η)
  | .idle, .start => some (x, start env i x)
  | .prior hash, .answer status =>
    if x.Answers (some hash) status then
      some (x.learn (some hash) status, afterPrior x.pendingRebalanceHash status)
    else none
  | .prior _, .throws => some (x, .rejected)
  | .loading, .ok => some (x, .preparing)
  | .loading, .throws => some (x, .rejected)
  | .preparing, .prepared hash =>
    if (env.call i).Fits (env.carries hash) then some (x.send (env.call i) hash, .sending hash)
    else none
  | .preparing, .throws => some (x, .rejected)
  | .sending hash, .error => some (x.settle (some hash), .rejected)
  | .sending hash, .response txHash =>
    -- an answer may lack the hash, and then the slot is left as it is
    if txHash = none ∨ txHash = some hash then
      some ({ x with pendingRebalanceHash := txHash.or x.pendingRebalanceHash }, .polling txHash 0)
    else none
  | .sending _, .throws => some (x, .rejected)
  | .polling txHash round, .answer status =>
    if x.Answers txHash status then
      some (x.learn txHash status, afterPoll txHash round status)
    else none
  | .polling txHash round, .throws => some (x, nextPoll txHash round)
  | .importing, .ok => some (x, .reconciling x.pendingRebalanceHash)
  | .reconciling pendingHash, .answer status =>
    if x.Answers pendingHash status then
      some (x.learn pendingHash status, afterReconcile pendingHash status)
    else none
  | .reconciling _, .throws => some (x, .rejected)
  | _, _ => none

/-- A transaction that was sent is included once. -/
def around (x : Shared η) : Change η → Option (Shared η)
  | .includes hash succeeded =>
    if hash ∈ x.sends.map Send.hash ∧ x.ledger hash = .notFound then
      some { x with
        ledger := Function.update x.ledger hash (if succeeded then .success else .failed) }
    else none

def rules (env : Env ι η) : Rules ι (Shared η) (Stage η) (Outcome η) (Change η) where
  act := step env
  world := around

/-- Nothing was sent. -/
def fresh : System ι (Shared η) (Stage η) :=
  ⟨⟨none, fun _ => .notFound, [], []⟩, fun _ => .idle⟩

/-! ## Undisturbed runs -/

/-- A call has read the slot and has not ended. -/
def Stage.active : Stage η → Bool
  | prior _ => true
  | loading => true
  | preparing => true
  | sending _ => true
  | polling _ _ => true
  | reconciling _ => true
  | _ => false

/-- The pending hash that a call asks about. -/
def Stage.asks : Stage η → Option η
  | prior hash => some hash
  | reconciling pendingHash => pendingHash
  | _ => none

/-- When a call sends, no other has read the slot and not ended yet; and where a call is told that a
    pending transaction succeeded, it asks for the rebalance that the sender of it asked for. -/
def Undisturbed (env : Env ι η) (s : System ι (Shared η) (Stage η)) :
    Move ι (Outcome η) (Change η) → Prop
  | .act i (.prepared _) => ∀ j, j ≠ i → (s.proc j).active = false
  | .act i (.answer .success) => ∀ hash ∈ (s.proc i).asks, ∀ send ∈ s.shared.sends,
      send.hash = hash → (env.call i).Repeats send.call
  | _ => True

instance [Fintype ι] (env : Env ι η) (s : System ι (Shared η) (Stage η))
    (m : Move ι (Outcome η) (Change η)) : Decidable (Undisturbed env s m) :=
  match m with
  | .act i (.prepared _) => inferInstanceAs (Decidable (∀ j, j ≠ i → _))
  | .act i (.answer .success) => inferInstanceAs (Decidable (∀ hash ∈ (s.proc i).asks,
      ∀ send ∈ s.shared.sends, send.hash = hash → (env.call i).Repeats send.call))
  | .act _ (.answer .failed) => inferInstanceAs (Decidable True)
  | .act _ (.answer .notFound) => inferInstanceAs (Decidable True)
  | .act _ .start => inferInstanceAs (Decidable True)
  | .act _ .ok => inferInstanceAs (Decidable True)
  | .act _ .throws => inferInstanceAs (Decidable True)
  | .act _ .error => inferInstanceAs (Decidable True)
  | .act _ (.response _) => inferInstanceAs (Decidable True)
  | .world _ => inferInstanceAs (Decidable True)

end NeuroWealth.YieldCheck.Submission
