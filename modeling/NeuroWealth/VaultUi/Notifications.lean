import NeuroWealth.Foundation.Recording

/-!
# Notifications of the dashboard

`NotificationService` groups the notifications of a type that arrive within a window and hands each
group to `deliver`. Times are in milliseconds.
-/

namespace NeuroWealth.VaultUi

inductive NotificationEventType where
  | depositConfirmed
  | withdrawalComplete
  | rebalanceExecuted
  | yieldMilestone
  | securityAlert
deriving DecidableEq

structure VaultNotification where
  type : NotificationEventType
  title : String
  body : String
  url : Option String
  createdAt : ℕ
deriving DecidableEq

/-- What of the stored preferences the batching reads. -/
structure NotificationPreferences where
  enabled : Bool
  batchWindowMs : ℕ
  types : NotificationEventType → Bool

def isTypeEnabled (prefs : NotificationPreferences) (type : NotificationEventType) : Bool :=
  prefs.enabled && prefs.types type

/-- A notification in its bucket; on record is when its window ends. -/
structure Waiting where
  event : VaultNotification
  deadline : ℕ
deriving DecidableEq

/-- What `onFlush` was given, and when. -/
structure BatchFlush where
  type : NotificationEventType
  events : List Waiting
  flushedAt : ℕ

/-- The service with its batcher: a bucket and the due time of a timer for each type, the types
    with a bucket in the order they got it, and all flushes so far. -/
structure NotificationService where
  clock : ℕ
  windowMs : ℕ
  buckets : NotificationEventType → List Waiting := fun _ => []
  types : List NotificationEventType := []
  timers : NotificationEventType → Option ℕ := fun _ => none
  flushes : List BatchFlush := []

namespace NotificationService

variable (s : NotificationService)

/-- Security alerts ignore the window. -/
def delay (type : NotificationEventType) : ℕ := if type = .securityAlert then 0 else s.windowMs

def enqueue (event : VaultNotification) : NotificationService :=
  { s with
    buckets := Function.update s.buckets event.type
      (s.buckets event.type ++ [⟨event, s.clock + s.delay event.type⟩])
    types := if event.type ∈ s.types then s.types else s.types ++ [event.type]
    timers := if (s.timers event.type).isSome then s.timers
      else Function.update s.timers event.type (some (s.clock + s.delay event.type)) }

/-- `flush` of one type. -/
def flushType (type : NotificationEventType) : NotificationService :=
  { s with
    buckets := Function.update s.buckets type []
    types := s.types.erase type
    timers := Function.update s.timers type none
    flushes := if s.buckets type = [] then s.flushes
      else s.flushes ++ [⟨type, s.buckets type, s.clock⟩] }

/-- `flush` of all types. -/
def flush : NotificationService := s.types.foldl flushType s

/-- A new batcher. -/
def renewed (windowMs : ℕ) : NotificationService where
  clock := s.clock
  windowMs := windowMs
  flushes := s.flushes

/-- A change of the window flushes what waits and starts over. -/
def rewindow (windowMs : ℕ) : NotificationService :=
  if windowMs ≠ s.windowMs then s.flush.renewed windowMs else s

end NotificationService

/-- `notify` with the preferences stored at the time, `flush`, a timer that fires, or time. -/
inductive Step where
  | notify (prefs : NotificationPreferences) (type : NotificationEventType) (title body : String)
      (url : Option String) (createdAt : Option ℕ)
  | flush
  | fire (type : NotificationEventType)
  | elapse (milliseconds : ℕ)

namespace NotificationService

variable (s : NotificationService)

def notify (prefs : NotificationPreferences) (event : VaultNotification) : NotificationService :=
  if isTypeEnabled prefs event.type = true then (s.rewindow prefs.batchWindowMs).enqueue event
  else s

/-- The service after a step; only a timer that is due fires. -/
def after : Step → NotificationService
  | .notify prefs type title body url createdAt =>
    s.notify prefs ⟨type, title, body, url, createdAt.getD s.clock⟩
  | .flush => s.flush
  | .fire type => if ∃ due ∈ s.timers type, due ≤ s.clock then s.flushType type else s
  | .elapse milliseconds => { s with clock := s.clock + milliseconds }

/-- What a step accepts: an enabled notification, with the window of its preferences. -/
def accepted : Step → List Waiting
  | .notify prefs type title body url createdAt =>
    if isTypeEnabled prefs type = true then
      [⟨⟨type, title, body, url, createdAt.getD s.clock⟩,
        s.clock + if type = .securityAlert then 0 else prefs.batchWindowMs⟩]
    else []
  | _ => []

def replay (steps : List Step) : NotificationService := steps.foldl after s

/-- All notifications that a run accepts. -/
def notified (steps : List Step) : List Waiting :=
  Recording.Replication.published after accepted s steps

/-- The notifications of a type: those handed on, then those that wait. -/
def history (type : NotificationEventType) : List Waiting :=
  (s.flushes.filter fun f => f.type = type).flatMap BatchFlush.events ++ s.buckets type

end NotificationService

/-- Time does not pass a timer that is due. -/
def Step.Prompt (s : NotificationService) : Step → Prop
  | .elapse milliseconds => ∀ type, ∀ due ∈ s.timers type, s.clock + milliseconds ≤ due
  | _ => True

end NeuroWealth.VaultUi
