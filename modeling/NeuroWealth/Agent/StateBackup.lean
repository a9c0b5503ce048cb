import Mathlib

/-!
# Backups of the agent's state

The backup manager over a list of stores, and the store that keeps one file.

A backup is written to every store, best effort; a restore takes the first value that a store
yields and validates it.
-/

namespace NeuroWealth.StateBackup

/-- A JSON value; an object by its properties. -/
inductive Json where
  | null
  | bool (value : Bool)
  | num (value : ℚ)
  | str (value : String)
  | arr (items : List Json)
  | obj (fields : String → Option Json)

namespace Json

/-- `value?.name`; `none` is `undefined`. Of the values without properties, none has one of the
    names that are read here. -/
def get (name : String) : Json → Option Json
  | obj fields => fields name
  | _ => none

/-- `value ?? fallback`. -/
def orElse (fallback : Json) : Option Json → Json
  | none => fallback
  | some null => fallback
  | some value => value

/-- An object from a list of properties. -/
def record (fields : List (String × Json)) : Json := obj fun name => fields.lookup name

/-- A load that yields `null` yields no value. -/
def loaded : Option Json → Option Json
  | some null => none
  | value => value

/-- A number, or `null`. -/
def ofOption : Option ℚ → Json
  | none => null
  | some value => num value

end Json

def AGENT_STATE_VERSION : ℚ := 1

structure Allocation where
  protocol : String
  amount : ℚ

/-- The state that a backup is given: `AgentState` without `version` and `savedAt`. -/
structure OperationalState where
  lastLedger : ℚ
  lastRebalanceAt : Option ℚ
  interval : String
  lastRunAt : Option ℚ
  consecutiveFailures : ℚ
  tvl : ℚ
  apy : ℚ
  allocations : List Allocation

structure Scheduler where
  interval : Json
  lastRunAt : Json
  consecutiveFailures : Json

structure Metrics where
  tvl : Json
  apy : Json
  allocations : Json

/-- The fields that the validation does not look at may hold any JSON value. -/
structure AgentState where
  version : ℚ
  savedAt : ℚ
  lastLedger : ℚ
  lastRebalanceAt : Json
  scheduler : Scheduler
  metrics : Metrics

def Allocation.toJson (allocation : Allocation) : Json :=
  .record [("protocol", .str allocation.protocol), ("amount", .num allocation.amount)]

/-- The version-stamped state that a backup persists. -/
def OperationalState.stamp (state : OperationalState) (now : ℚ) : AgentState where
  version := AGENT_STATE_VERSION
  savedAt := now
  lastLedger := state.lastLedger
  lastRebalanceAt := .ofOption state.lastRebalanceAt
  scheduler := ⟨.str state.interval, .ofOption state.lastRunAt, .num state.consecutiveFailures⟩
  metrics := ⟨.num state.tvl, .num state.apy, .arr (state.allocations.map Allocation.toJson)⟩

def Scheduler.toJson (scheduler : Scheduler) : Json :=
  .record [("interval", scheduler.interval), ("lastRunAt", scheduler.lastRunAt),
    ("consecutiveFailures", scheduler.consecutiveFailures)]

def Metrics.toJson (metrics : Metrics) : Json :=
  .record [("tvl", metrics.tvl), ("apy", metrics.apy), ("allocations", metrics.allocations)]

def AgentState.toJson (state : AgentState) : Json :=
  .record [("version", .num state.version), ("savedAt", .num state.savedAt),
    ("lastLedger", .num state.lastLedger), ("lastRebalanceAt", state.lastRebalanceAt),
    ("scheduler", state.scheduler.toJson), ("metrics", state.metrics.toJson)]

def parseScheduler (raw : Option Json) : Scheduler :=
  ⟨.orElse (.str "4h") (raw.bind (Json.get "interval")),
    .orElse .null (raw.bind (Json.get "lastRunAt")),
    .orElse (.num 0) (raw.bind (Json.get "consecutiveFailures"))⟩

def parseMetrics (raw : Option Json) : Metrics :=
  ⟨.orElse (.num 0) (raw.bind (Json.get "tvl")), .orElse (.num 0) (raw.bind (Json.get "apy")),
    .orElse (.arr []) (raw.bind (Json.get "allocations"))⟩

/-- The version-checked state of a loaded value. -/
def parseAgentState (candidate : Json) : Option AgentState :=
  match candidate.get "version", candidate.get "savedAt", candidate.get "lastLedger" with
  | some (.num version), some (.num savedAt), some (.num lastLedger) =>
    if version = AGENT_STATE_VERSION then
      some ⟨version, savedAt, lastLedger, .orElse .null (candidate.get "lastRebalanceAt"),
        parseScheduler (candidate.get "scheduler"), parseMetrics (candidate.get "metrics")⟩
    else none
  | _, _, _ => none

/-- An exact key-value map. -/
abbrev KeyValue (T : Type) := String → Option T

/-- A save returns, or fails with or without effect. -/
inductive SaveOutcome where
  | ok
  | fails (effect : Bool)
deriving DecidableEq

/-- The value was written. -/
def SaveOutcome.effective : SaveOutcome → Bool
  | ok => true
  | fails effect => effect

namespace MultiStateStore

variable {T : Type}

/-- The value under the key in the store at a position. -/
def held (stores : List (KeyValue T)) (key : String) (i : ℕ) : Option T :=
  stores[i]?.bind fun store => store key

/-- The stores after a save whose part at each position has the given outcome. -/
def save (stores : List (KeyValue T)) (outcome : ℕ → SaveOutcome) (key : String) (value : T) :
    List (KeyValue T) :=
  stores.mapIdx fun i store =>
    if (outcome i).effective then Function.update store key (some value) else store

/-- A save throws when every store fails, unless there is none. -/
def Throws (count : ℕ) (outcome : ℕ → SaveOutcome) : Prop :=
  0 < count ∧ ∀ i < count, outcome i ≠ .ok

instance (count : ℕ) (outcome : ℕ → SaveOutcome) : Decidable (Throws count outcome) :=
  inferInstanceAs (Decidable (_ ∧ _))

/-- The first value that a store yields; `loads` says at which positions the load succeeds. -/
def load (key : String) : (ℕ → Bool) → List (KeyValue T) → Option T
  | _, [] => none
  | loads, store :: rest =>
    match if loads 0 then store key else none with
    | some value => some value
    | none => load key (fun i => loads (i + 1)) rest

end MultiStateStore

/-- A call of `backup`, with the time it reads and what becomes of its part in each store. -/
structure Backup where
  state : OperationalState
  now : ℚ
  outcome : ℕ → SaveOutcome

def Backup.stamped (b : Backup) : AgentState := b.state.stamp b.now

/-- A stored value with the number of the backup that wrote it, if one did. -/
structure Copy where
  value : Json
  backup : Option ℕ

/-- What a restore returns, with the number of the backup it comes from. -/
structure Restored where
  state : AgentState
  backup : Option ℕ

/-- Stores as the manager finds them: their values under the key are in no valid form, such as
    those of an older version. -/
structure Installation (key : String) where
  stores : List (KeyValue Json)
  old : ∀ store ∈ stores, ∀ value ∈ store key, parseAgentState value = none

namespace StateBackupManager

variable {key : String}

/-- The stores before the first backup. -/
def start (installation : Installation key) : List (KeyValue Copy) :=
  installation.stores.map fun store name =>
    (Json.loaded (store name)).map fun value => ⟨value, none⟩

def backup (key : String) (stores : List (KeyValue Copy)) (b : Backup × ℕ) :
    List (KeyValue Copy) :=
  MultiStateStore.save stores b.1.outcome key ⟨b.1.stamped.toJson, some b.2⟩

/-- The stores after backups, numbered from the oldest. -/
def backups (installation : Installation key) (history : List Backup) : List (KeyValue Copy) :=
  history.zipIdx.foldl (backup key) (start installation)

def restore (key : String) (loads : ℕ → Bool) (stores : List (KeyValue Copy)) : Option Restored :=
  (MultiStateStore.load key loads stores).bind fun copy =>
    (parseAgentState copy.value).map fun state => ⟨state, copy.backup⟩

variable (installation : Installation key) (history : List Backup) (loads : ℕ → Bool)

/-- The backup with this number returned. -/
def Succeeded (n : ℕ) : Prop :=
  ∃ b, history[n]? = some b ∧ ¬ MultiStateStore.Throws installation.stores.length b.outcome

/-- A loadable store holds a successful backup in valid form. -/
def Holds (n : ℕ) (state : AgentState) : Prop :=
  Succeeded installation history n ∧ ∃ i copy, loads i = true ∧
    MultiStateStore.held (backups installation history) key i = some copy ∧
    copy.backup = some n ∧ parseAgentState copy.value = some state

/-- A restore returns the most recent successful backup that a loadable store holds in valid form,
    and `null` only when there is none. -/
def RestoresLatest : Prop :=
  match restore key loads (backups installation history) with
  | none => ∀ n state, ¬ Holds installation history loads n state
  | some restored => ∃ n, restored.backup = some n ∧
      Holds installation history loads n restored.state ∧
      ∀ m state, Holds installation history loads m state → m ≤ n

/-- The number of the last backup written to the store at a position. -/
def lastWritten (history : List Backup) (i : ℕ) : Option ℕ :=
  ((history.zipIdx.filter fun b => (b.1.outcome i).effective).getLast?).map Prod.snd

/-- The store at a position was given a value under the key. -/
def Filled (i : ℕ) : Prop :=
  i < installation.stores.length ∧
    ((lastWritten history i).isSome ∨ (MultiStateStore.held (start installation) key i).isSome)

/-- The first loadable store with a value under the key. -/
def Leads (i : ℕ) : Prop :=
  Filled installation history i ∧ loads i = true ∧
    ∀ j < i, loads j = true → ¬ Filled installation history j

/-- The last backup written to the first loadable store with a value is a successful one, and none
    that was written last to another loadable store is more recent. -/
def LeaderIsCurrent : Prop :=
  ∀ i, Leads installation history loads i →
    (∀ n, lastWritten history i = some n → Succeeded installation history n) ∧
    ∀ j m, j < installation.stores.length → loads j = true → lastWritten history j = some m →
      Succeeded installation history m → ∃ n, lastWritten history i = some n ∧ m ≤ n

end StateBackupManager

namespace FileStateStore

variable {T : Type}

/-- What the file holds. -/
inductive Content (T : Type) where
  | absent
  | unreadable
  | wrapper (key : String) (value : T)

/-- What a save leaves in the file, whatever it reports. -/
inductive WriteOutcome where
  | written
  | untouched
  | damaged
deriving DecidableEq

structure Save (T : Type) where
  key : String
  value : T
  outcome : WriteOutcome

def save (content : Content T) (s : Save T) : Content T :=
  match s.outcome with
  | .written => .wrapper s.key s.value
  | .untouched => content
  | .damaged => .unreadable

/-- A load; `readable` says whether the read succeeds. -/
def load (readable : Bool) (content : Content T) (key : String) : Option T :=
  match content with
  | .wrapper name value => if readable ∧ name = key then some value else none
  | _ => none

/-- The file after saves into a new one. -/
def saves (history : List (Save T)) : Content T := history.foldl save .absent

/-- The last value saved under the key. -/
def lastSaved (history : List (Save T)) (key : String) : Option T :=
  ((history.filter fun s => s.key = key ∧ s.outcome = .written).getLast?).map Save.value

/-- The last save to reach the file. -/
def lastTouch (history : List (Save T)) : Option (Save T) :=
  (history.filter fun s => s.outcome ≠ .untouched).getLast?

/-- Nothing was saved under the key, or the file can be read and the last save to reach it was a
    complete one under the key. -/
def Undisplaced (readable : Bool) (history : List (Save T)) (key : String) : Prop :=
  (∃ s ∈ history, s.key = key ∧ s.outcome = .written) →
    readable = true ∧ ∃ s, lastTouch history = some s ∧ s.key = key ∧ s.outcome = .written

end FileStateStore

end NeuroWealth.StateBackup
