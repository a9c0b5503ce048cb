import NeuroWealth.Foundation.Interleaving

/-!
# The account sequence lock

`withAccountSequenceLock` serialises the operations on one account with a chain of promises: each
call waits for the promise of the call before it and leaves its own promise as the account's tail.
No Redis client is given. A call is cut at its `await`s.
-/

namespace NeuroWealth.AccountSequence

open Interleaving

variable {ι A ε τ : Type} [DecidableEq ι] [DecidableEq A]

/-- How far a call has come. The promise `current` of a call goes by the call's name. -/
inductive Stage (ι ε τ : Type) where
  | idle
  /-- At `await preceding`; without a tail that is `Promise.resolve()`. -/
  | waiting (preceding : Option ι)
  /-- At `await operation()`. -/
  | running
  /-- At `await releaseDistributed?.()`: the operation has settled. -/
  | finishing (result : Except ε τ)
  | done (result : Except ε τ)

namespace Stage

/-- The call was made and has not returned. -/
def InProgress : Stage ι ε τ → Prop
  | idle => False
  | done _ => False
  | _ => True

/-- The operation was invoked. -/
def Started : Stage ι ε τ → Prop
  | idle => False
  | waiting _ => False
  | _ => True

def Done (p : Stage ι ε τ) : Prop := ∃ result, p = .done result

end Stage

/-- The map of tails and the resolved promises, with a record of each account's calls in the order
    they were made and of how each operation settled. -/
structure Shared (ι A ε τ : Type) where
  accountTails : A → Option ι
  released : ι → Bool
  calls : A → List ι
  settled : ι → Option (Except ε τ)

/-- No call was made yet. -/
def fresh : System ι (Shared ι A ε τ) (Stage ι ε τ) :=
  ⟨⟨fun _ => none, fun _ => false, fun _ => [], fun _ => none⟩, fun _ => .idle⟩

/-- A promise to wait for is resolved; `Promise.resolve()` is. -/
def Shared.resolved (x : Shared ι A ε τ) : Option ι → Bool
  | none => true
  | some p => x.released p

/-- The call enters: it reads the account's tail and becomes the tail. -/
def Shared.enter (x : Shared ι A ε τ) (account : A) (current : ι) : Shared ι A ε τ :=
  { x with
    accountTails := Function.update x.accountTails account (some current)
    calls := Function.update x.calls account (x.calls account ++ [current]) }

/-- The `finally` block: release the promise, and forget the tail if it is this call's. -/
def Shared.leave (x : Shared ι A ε τ) (account : A) (current : ι) : Shared ι A ε τ :=
  { x with
    accountTails := if x.accountTails account = some current
      then Function.update x.accountTails account none else x.accountTails
    released := Function.update x.released current true }

/-- `withAccountSequenceLock(account, operation)`, one stretch between two awaits at a time.
    `settles` is how the operation settles when that is what comes next. -/
def withAccountSequenceLock (account : ι → A) (i : ι) (x : Shared ι A ε τ) :
    Stage ι ε τ → Except ε τ → Option (Shared ι A ε τ × Stage ι ε τ)
  | .idle, _ => some (x.enter (account i) i, .waiting (x.accountTails (account i)))
  | .waiting preceding, _ => if x.resolved preceding then some (x, .running) else none
  | .running, settles =>
    some ({ x with settled := Function.update x.settled i (some settles) }, .finishing settles)
  | .finishing result, _ => some (x.leave (account i) i, .done result)
  | .done _, _ => none

/-- Any calls on any accounts, scheduled in any way. -/
def rules (account : ι → A) :
    Rules ι (Shared ι A ε τ) (Stage ι ε τ) (Except ε τ) Empty where
  act := withAccountSequenceLock account
  world _ change := nomatch change

end NeuroWealth.AccountSequence
