import NeuroWealth.Foundation.Interleaving
import NeuroWealth.Foundation.RoundRobin

/-!
# Rotation of the OpenAI keys

`OpenAIKeyManager`, shared by any number of `executeWithRotation` calls. Between two operations a
call runs without `await`: what it does with an answer and the choice of the next key are one step.
Times are in milliseconds.
-/

namespace NeuroWealth.KeyManager

open Interleaving RoundRobin

def defaultCooldownMs : ℕ := 60 * 1000

structure KeyState where
  isHealthy : Bool := true
  failureCount : ℕ := 0
  lastFailedAt : Option ℕ := none
  lastError : Option String := none

/-- The keys are given at the construction; only an empty list has no place for the index. -/
structure OpenAIKeyManager where
  keys : List String
  keyState : ℕ → KeyState
  currentIndex : ℕ
  inRange : keys = [] ∨ currentIndex < keys.length

/-- What an operation throws. `status` is that of the error or of its response. -/
structure OpError where
  status : Option ℕ
  message : String

/-- Errors that mark the key unhealthy. -/
def OpError.marksUnhealthy (e : OpError) : Prop :=
  e.status = some 401 ∨ e.status = some 429 ∨ (∃ s ∈ e.status, 500 ≤ s ∧ s < 600) ∨
    "rate limit".toList <:+: e.message.toList ∨ "quota".toList <:+: e.message.toList

instance (e : OpError) : Decidable e.marksUnhealthy := inferInstanceAs (Decidable (_ ∨ _))

namespace KeyState

/-- The auto-recovery; a `lastFailedAt` of 0 counts as missing. -/
def recovered (now : ℕ) (s : KeyState) : KeyState :=
  if s.isHealthy = false ∧ ∃ last ∈ s.lastFailedAt, last ≠ 0 ∧ last + defaultCooldownMs ≤ now then
    { s with isHealthy := true }
  else s

/-- Whether the search takes the key. -/
def available (now : ℕ) (s : KeyState) : Bool := (s.recovered now).isHealthy

def succeeded (s : KeyState) : KeyState := { s with isHealthy := true, failureCount := 0 }

def failed (now : ℕ) (e : OpError) (s : KeyState) : KeyState where
  isHealthy := if e.marksUnhealthy then false else s.isHealthy
  failureCount := s.failureCount + 1
  lastFailedAt := some now
  lastError := some e.message

end KeyState

def maskKey (key : String) : String :=
  if key.length ≤ 8 then "***"
  else String.ofList (key.toList.take 4) ++ "..." ++
    String.ofList (key.toList.drop (key.length - 4))

namespace OpenAIKeyManager

variable (m : OpenAIKeyManager)

/-- A manager of some keys, all healthy. -/
def ofKeys (keys : List String) : OpenAIKeyManager where
  keys := keys
  keyState _ := {}
  currentIndex := 0
  inRange := keys.eq_nil_or_concat.imp id fun ⟨_, _, h⟩ => by simp [h]

def modify (k : ℕ) (f : KeyState → KeyState) : OpenAIKeyManager :=
  { m with keyState := Function.update m.keyState k (f (m.keyState k)) }

/-- The key `attempt` places after the index. -/
def keyAt (attempt : ℕ) : ℕ := slot m.keys.length m.currentIndex attempt

/-- The index moves behind the key taken. -/
def advance (k : ℕ) : OpenAIKeyManager :=
  { m with
    currentIndex := slot m.keys.length k 1
    inRange := m.keys.length.eq_zero_or_pos.imp List.eq_nil_of_length_eq_zero (Nat.mod_lt _) }

/-- The loop of `getNextAvailableKeyIndex` over some attempts. -/
def search (now : ℕ) : List ℕ → OpenAIKeyManager → Option ℕ × OpenAIKeyManager
  | [], m => (none, m)
  | attempt :: rest, m =>
    let idx := m.keyAt attempt
    let m := m.modify idx (KeyState.recovered now)
    if (m.keyState idx).isHealthy = true then (some idx, m.advance idx) else search now rest m

/-- The key that failed longest ago; the first one of several. -/
def oldestFailed : ℕ :=
  ((List.range m.keys.length).foldl (fun (best : ℕ × Option ℕ) i =>
    let time := (m.keyState i).lastFailedAt.getD 0
    if ∀ oldest ∈ best.2, time < oldest then (i, some time) else best) (0, none)).1

def getNextAvailableKeyIndex (now : ℕ) : Option ℕ × OpenAIKeyManager :=
  if m.keys = [] then (none, m)
  else match search now (List.range m.keys.length) m with
    | (some idx, m) => (some idx, m)
    | (none, m) => (some m.oldestFailed, m)

end OpenAIKeyManager

/-! ## Calls -/

structure Shared where
  clock : ℕ
  manager : OpenAIKeyManager

/-- How far a call of `executeWithRotation` has come: an operation with a key is under way, `left`
    attempts remain after it, and `errors` are the keys that failed with their messages. -/
inductive Stage (α : Type) where
  | idle
  | calling (left : ℕ) (errors : List (ℕ × String)) (keyIndex : ℕ)
  | done (result : Except String α)

/-- A call is made, or its operation settles. -/
inductive Outcome (α : Type) where
  | start
  | returns (value : α)
  | throws (error : OpError)

/-- Time passes. -/
inductive Change where
  | elapse (milliseconds : ℕ)

/-- The error of a call that is out of attempts. -/
def allFailed (keys : List String) (errors : List (ℕ × String)) : String :=
  "All OpenAI API keys failed: " ++ "; ".intercalate (errors.map fun (k, message) =>
    "Key " ++ maskKey (keys.getD k "") ++ " failed: " ++ message)

variable {α : Type}

/-- The head of the loop, with the attempts that remain. -/
def nextAttempt (x : Shared) (errors : List (ℕ × String)) : ℕ → Shared × Stage α
  | 0 => (x, .done (.error (allFailed x.manager.keys errors)))
  | left + 1 =>
    match x.manager.getNextAvailableKeyIndex x.clock with
    | (none, m) => ({ x with manager := m }, .done (.error (allFailed x.manager.keys errors)))
    | (some k, m) => ({ x with manager := m }, .calling left errors k)

/-- `executeWithRotation` up to its first operation. -/
def executeWithRotation (x : Shared) : Shared × Stage α :=
  if x.manager.keys = [] then (x, .done (.error "No OpenAI API keys configured"))
  else nextAttempt x [] x.manager.keys.length

def step (x : Shared) : Stage α → Outcome α → Option (Shared × Stage α)
  | .idle, .start => some (executeWithRotation x)
  | .calling _ _ k, .returns value =>
    some ({ x with manager := x.manager.modify k KeyState.succeeded }, .done (.ok value))
  | .calling left errors k, .throws e =>
    some (nextAttempt { x with manager := x.manager.modify k (KeyState.failed x.clock e) }
      (errors ++ [(k, e.message)]) left)
  | _, _ => none

def around (x : Shared) : Change → Option Shared
  | .elapse milliseconds => some { x with clock := x.clock + milliseconds }

/-- Any calls of one manager. -/
def rules (ι α : Type) [DecidableEq ι] : Rules ι Shared (Stage α) (Outcome α) Change where
  act _ := step
  world := around

end NeuroWealth.KeyManager
