import NeuroWealth.Foundation.Runs
import NeuroWealth.VaultUi.Notifications

/-!
# Every notification is delivered once, in order and in time

A type has a timer exactly while notifications of it wait, and the timer is due before the window
of any of them ends.
-/

namespace NeuroWealth.VaultUi

open Recording

variable {s : NotificationService} {type t : NotificationEventType} {event : VaultNotification}
  {prefs : NotificationPreferences} {step : Step} {steps : List Step} {n : ℕ}

namespace NotificationService

/-! ## Flushes -/

@[simp]
theorem history_flushType : (s.flushType type).history t = s.history t := by
  unfold history flushType
  by_cases ht : t = type
  · subst ht
    by_cases hnone : s.buckets t = []
    · simp [hnone]
    · simp [hnone, List.filter_append]
  · by_cases hnone : s.buckets type = []
    · simp [hnone, ht]
    · simp [hnone, ht, Ne.symm ht, List.filter_append]

/-- What holds of a service and is kept by the flush of a type holds after a flush. -/
theorem flush_induction {P : NotificationService → Prop} (h : P s)
    (hstep : ∀ s type, P s → P (s.flushType type)) : P s.flush := by
  unfold flush
  generalize s.types = types
  induction types generalizing s with
  | nil => exact h
  | cons type types ih => exact ih (hstep s type h)

@[simp]
theorem history_flush : s.flush.history t = s.history t :=
  flush_induction (P := fun s' => s'.history t = s.history t) rfl fun _ _ h =>
    history_flushType.trans h

theorem flush_clock : s.flush.clock = s.clock :=
  flush_induction (P := fun s' => s'.clock = s.clock) rfl fun _ _ h => h

/-! ## Timers -/

/-- Buckets, types and timers go together, and no timer is due after a window ends. -/
structure Ordered (s : NotificationService) : Prop where
  types : ∀ type, type ∈ s.types ↔ s.buckets type ≠ []
  nodup : s.types.Nodup
  timers : ∀ type, (s.timers type).isSome ↔ s.buckets type ≠ []
  due : ∀ type, ∀ due ∈ s.timers type,
    due ≤ s.clock + s.delay type ∧ ∀ w ∈ s.buckets type, due ≤ w.deadline

theorem Ordered.flushType (h : s.Ordered) (type : NotificationEventType) :
    (s.flushType type).Ordered := by
  constructor
  · intro t
    show t ∈ s.types.erase type ↔ Function.update s.buckets type [] t ≠ []
    by_cases ht : t = type
    · subst ht
      simp [h.nodup.not_mem_erase]
    · rw [List.mem_erase_of_ne ht, Function.update_of_ne ht]
      exact h.types t
  · exact h.nodup.erase type
  · intro t
    show (Function.update s.timers type none t).isSome ↔ Function.update s.buckets type [] t ≠ []
    by_cases ht : t = type
    · subst ht
      simp
    · rw [Function.update_of_ne ht, Function.update_of_ne ht]
      exact h.timers t
  · intro t due hdue
    have hdue : due ∈ Function.update s.timers type none t := hdue
    have ht : t ≠ type := by
      rintro rfl
      rw [Function.update_self] at hdue
      cases hdue
    rw [Function.update_of_ne ht] at hdue
    obtain ⟨hsoon, hall⟩ := h.due t due hdue
    refine ⟨hsoon, fun w hw => hall w ?_⟩
    have hw : w ∈ Function.update s.buckets type [] t := hw
    rwa [Function.update_of_ne ht] at hw

theorem Ordered.flush (h : s.Ordered) : s.flush.Ordered :=
  flush_induction h fun _ type h => h.flushType type

/-- A flush leaves nothing behind. -/
theorem Ordered.flush_buckets (h : s.Ordered) : s.flush.buckets t = [] := by
  have hgone : ∀ (types : List NotificationEventType) (s : NotificationService), s.types = types →
      s.Ordered → ((types.foldl NotificationService.flushType s).types = []) := by
    intro types
    induction types with
    | nil => exact fun s hs _ => hs
    | cons type types ih =>
      intro s hs h
      refine ih (s.flushType type) ?_ (h.flushType type)
      show s.types.erase type = types
      rw [hs, List.erase_cons_head]
  have hnone : s.flush.types = [] := hgone s.types s rfl h
  by_contra hsome
  have hmem := (h.flush.types t).mpr hsome
  rw [hnone] at hmem
  exact absurd hmem List.not_mem_nil

theorem ordered_renewed : (s.renewed n).Ordered :=
  ⟨fun _ => by simp [renewed], List.nodup_nil, fun _ => by simp [renewed], nofun⟩

theorem Ordered.rewindow (h : s.Ordered) : (s.rewindow n).Ordered := by
  unfold NotificationService.rewindow
  split_ifs
  · exact ordered_renewed
  · exact h

/-- A new window loses nothing. -/
theorem Ordered.history_rewindow (h : s.Ordered) : (s.rewindow n).history t = s.history t := by
  unfold NotificationService.rewindow
  split_ifs with hnew
  · have hold : s.flush.history t = s.history t := history_flush
    rw [← hold]
    show _ ++ [] = _ ++ s.flush.buckets t
    rw [h.flush_buckets]
    rfl
  · rfl

theorem rewindow_clock : (s.rewindow n).clock = s.clock := by
  unfold rewindow
  split_ifs
  · exact flush_clock
  · rfl

theorem rewindow_windowMs : (s.rewindow n).windowMs = n := by
  unfold rewindow
  split_ifs with hnew
  · rfl
  · exact (not_not.mp hnew).symm

/-! ## Steps -/

theorem Ordered.enqueue (h : s.Ordered) : (s.enqueue event).Ordered := by
  have hdue := h.due event.type
  constructor
  · intro t
    show t ∈ (if event.type ∈ s.types then s.types else s.types ++ [event.type]) ↔
      Function.update s.buckets event.type _ t ≠ []
    by_cases ht : t = event.type
    · subst ht
      rw [Function.update_self]
      split_ifs with hmem
      · simp [hmem]
      · simp
    · rw [Function.update_of_ne ht, ← h.types t]
      split_ifs with hmem
      · rfl
      · simp [ht]
  · show (if event.type ∈ s.types then s.types else s.types ++ [event.type]).Nodup
    split_ifs with hmem
    · exact h.nodup
    · exact h.nodup.append (List.nodup_singleton _) (List.disjoint_singleton.mpr hmem)
  · intro t
    show ((if (s.timers event.type).isSome then s.timers else
      Function.update s.timers event.type _) t).isSome ↔
        Function.update s.buckets event.type _ t ≠ []
    by_cases ht : t = event.type
    · subst ht
      rw [Function.update_self]
      split_ifs with hset
      · simp [hset]
      · simp
    · rw [Function.update_of_ne ht, ← h.timers t]
      split_ifs with hset
      · rfl
      · rw [Function.update_of_ne ht]
  · intro t due hmem
    have hmem : due ∈ (if (s.timers event.type).isSome then s.timers else
      Function.update s.timers event.type (some (s.clock + s.delay event.type))) t := hmem
    show due ≤ s.clock + s.delay t ∧ ∀ w ∈ Function.update s.buckets event.type
      (s.buckets event.type ++ [⟨event, s.clock + s.delay event.type⟩]) t, due ≤ w.deadline
    by_cases ht : t = event.type
    · subst ht
      rw [Function.update_self]
      split_ifs at hmem with hset
      · obtain ⟨hsoon, hall⟩ := h.due _ due hmem
        refine ⟨hsoon, fun w hw => ?_⟩
        rcases List.mem_append.mp hw with hw | hw
        · exact hall w hw
        · rw [List.mem_singleton.mp hw]
          exact hsoon
      · have hnone : s.buckets event.type = [] := by
          by_contra hsome
          exact hset ((h.timers _).mpr hsome)
        rw [Function.update_self] at hmem
        obtain rfl := Option.some.inj hmem
        rw [hnone]
        refine ⟨le_rfl, fun w hw => ?_⟩
        rw [List.mem_singleton.mp hw]
    · rw [Function.update_of_ne ht]
      split_ifs at hmem with hset
      · exact h.due t due hmem
      · rw [Function.update_of_ne ht] at hmem
        exact h.due t due hmem

theorem Ordered.after (h : s.Ordered) (step : Step) : (s.after step).Ordered := by
  cases step with
  | notify prefs type title body url createdAt =>
    show (s.notify prefs _).Ordered
    unfold NotificationService.notify
    split_ifs
    · exact h.rewindow.enqueue
    · exact h
  | flush => exact h.flush
  | fire type =>
    show (if _ then s.flushType type else s).Ordered
    split_ifs
    · exact h.flushType type
    · exact h
  | elapse milliseconds =>
    refine ⟨h.types, h.nodup, h.timers, fun t due hdue => ?_⟩
    obtain ⟨hsoon, hall⟩ := h.due t due hdue
    refine ⟨hsoon.trans ?_, hall⟩
    show s.clock + s.delay t ≤ s.clock + milliseconds + s.delay t
    omega

theorem history_enqueue : (s.enqueue event).history t =
    s.history t ++ if event.type = t then [⟨event, s.clock + s.delay event.type⟩] else [] := by
  show _ ++ Function.update s.buckets event.type _ t = _
  unfold history
  by_cases ht : event.type = t
  · rw [if_pos ht, ← ht, Function.update_self, List.append_assoc]
    rfl
  · rw [if_neg ht, Function.update_of_ne (Ne.symm ht), List.append_nil]
    rfl

/-- A step adds what it accepts. -/
theorem Ordered.history_after (h : s.Ordered) (step : Step) : (s.after step).history t =
    s.history t ++ (s.accepted step).filter fun w => w.event.type = t := by
  cases step with
  | notify prefs type title body url createdAt =>
    show (s.notify prefs _).history t = s.history t ++ (if isTypeEnabled prefs type = true then _
      else []).filter _
    unfold NotificationService.notify
    by_cases henabled : isTypeEnabled prefs type = true
    · have hdelay : (s.rewindow prefs.batchWindowMs).delay type =
          if type = .securityAlert then 0 else prefs.batchWindowMs := by
        unfold delay
        rw [rewindow_windowMs]
      rw [if_pos henabled, if_pos henabled, history_enqueue, h.history_rewindow, rewindow_clock,
        hdelay]
      by_cases ht : type = t
      · simp [ht]
      · simp [ht]
    · rw [if_neg henabled, if_neg henabled]
      exact (List.append_nil _).symm
  | flush =>
    show s.flush.history t = s.history t ++ [].filter _
    rw [history_flush]
    simp
  | fire type =>
    show (if _ then s.flushType type else s).history t = s.history t ++ [].filter _
    split_ifs <;> simp
  | elapse milliseconds => exact (List.append_nil _).symm

/-- Runs keep the order and account for all they accept. -/
theorem Ordered.replay (h : s.Ordered) (steps : List Step) : (s.replay steps).Ordered ∧
    ∀ t, (s.replay steps).history t =
      s.history t ++ (s.notified steps).filter fun w => w.event.type = t := by
  induction steps generalizing s with
  | nil => exact ⟨h, fun t => (List.append_nil _).symm⟩
  | cons step steps ih =>
    obtain ⟨hordered, hhistory⟩ := ih (h.after step)
    refine ⟨hordered, fun t => ?_⟩
    show ((s.after step).replay steps).history t =
      s.history t ++ (s.accepted step ++ (s.after step).notified steps).filter _
    rw [hhistory t, h.history_after, List.filter_append, List.append_assoc]

/-! ## In time -/

/-- Nothing waits past its window, and nothing was handed on after it. -/
structure InTime (s : NotificationService) : Prop where
  ordered : s.Ordered
  timers : ∀ type, ∀ due ∈ s.timers type, s.clock ≤ due
  flushed : ∀ f ∈ s.flushes, ∀ w ∈ f.events, f.flushedAt ≤ w.deadline

theorem InTime.waiting (h : s.InTime) : ∀ w ∈ s.buckets type, s.clock ≤ w.deadline := by
  intro w hw
  have hsome : (s.timers type).isSome := (h.ordered.timers type).mpr (List.ne_nil_of_mem hw)
  obtain ⟨due, hdue⟩ := Option.isSome_iff_exists.mp hsome
  exact (h.timers type due hdue).trans ((h.ordered.due type due hdue).2 w hw)

theorem InTime.flushType (h : s.InTime) (type : NotificationEventType) :
    (s.flushType type).InTime := by
  refine ⟨h.ordered.flushType type, fun t due hdue => ?_, ?_⟩
  · have hdue : due ∈ Function.update s.timers type none t := hdue
    by_cases ht : t = type
    · subst ht
      rw [Function.update_self] at hdue
      cases hdue
    · rw [Function.update_of_ne ht] at hdue
      exact h.timers t due hdue
  · intro f hf
    have hf : f ∈ (if s.buckets type = [] then s.flushes
      else s.flushes ++ [⟨type, s.buckets type, s.clock⟩]) := hf
    split_ifs at hf
    · exact h.flushed f hf
    · rcases List.mem_append.mp hf with hf | hf
      · exact h.flushed f hf
      · rw [List.mem_singleton.mp hf]
        exact h.waiting

theorem InTime.rewindow (h : s.InTime) : (s.rewindow n).InTime := by
  unfold NotificationService.rewindow
  split_ifs
  · have hflush : s.flush.InTime := flush_induction h fun _ type h => h.flushType type
    exact ⟨ordered_renewed, nofun, hflush.flushed⟩
  · exact h

theorem InTime.enqueue (h : s.InTime) : (s.enqueue event).InTime := by
  refine ⟨h.ordered.enqueue, fun t due hdue => ?_, h.flushed⟩
  have hdue : due ∈ (if (s.timers event.type).isSome then s.timers else
    Function.update s.timers event.type (some (s.clock + s.delay event.type))) t := hdue
  show s.clock ≤ due
  split_ifs at hdue
  · exact h.timers t due hdue
  · by_cases ht : t = event.type
    · subst ht
      rw [Function.update_self] at hdue
      rw [← Option.some.inj hdue]
      exact Nat.le_add_right _ _
    · rw [Function.update_of_ne ht] at hdue
      exact h.timers t due hdue

theorem InTime.after (h : s.InTime) (hprompt : step.Prompt s) : (s.after step).InTime := by
  cases step with
  | notify prefs type title body url createdAt =>
    show (s.notify prefs _).InTime
    unfold NotificationService.notify
    split_ifs
    · exact h.rewindow.enqueue
    · exact h
  | flush => exact flush_induction h fun _ type h => h.flushType type
  | fire type =>
    show (if _ then s.flushType type else s).InTime
    split_ifs
    · exact h.flushType type
    · exact h
  | elapse milliseconds => exact ⟨h.ordered.after (.elapse milliseconds), hprompt, h.flushed⟩

/-! ## From a new service -/

/-- A service without notifications. -/
def started (clock windowMs : ℕ) : NotificationService where
  clock := clock
  windowMs := windowMs

theorem inTime_started {clock : ℕ} : (started clock n).InTime :=
  ⟨⟨fun _ => by simp [started], List.nodup_nil, fun _ => by simp [started], nofun⟩, nofun, nofun⟩

/-- In every history of notifications with any preferences, flushes and timers, the notifications
    of a type that were handed on, in the order of the flushes, and those that wait are together
    all enabled ones, each once and in the order they came; and those that wait have a timer that is
    due before their window ends. -/
theorem notifications_kept (clock windowMs : ℕ) (steps : List Step)
    (type : NotificationEventType) :
    let s := (started clock windowMs).replay steps
    (s.flushes.filter fun f => f.type = type).flatMap BatchFlush.events ++ s.buckets type =
        ((started clock windowMs).notified steps).filter (fun w => w.event.type = type) ∧
      (s.buckets type ≠ [] → ∃ due ∈ s.timers type, ∀ w ∈ s.buckets type, due ≤ w.deadline) := by
  have hstarted : (started clock windowMs).InTime := inTime_started
  obtain ⟨hordered, hhistory⟩ := hstarted.ordered.replay steps
  refine ⟨hhistory type, fun hwaiting => ?_⟩
  obtain ⟨due, hdue⟩ := Option.isSome_iff_exists.mp ((hordered.timers type).mpr hwaiting)
  exact ⟨due, hdue, (hordered.due type due hdue).2⟩

/-- While time does not pass a timer that is due, no notification is handed on after its window, and
    none waits past it. -/
theorem notifications_in_time {clock windowMs : ℕ}
    (h : Runs.Admits NotificationService.after Step.Prompt (started clock windowMs) steps) :
    let s := (started clock windowMs).replay steps
    (∀ f ∈ s.flushes, ∀ w ∈ f.events, f.flushedAt ≤ w.deadline) ∧
      ∀ type, ∀ w ∈ s.buckets type, s.clock ≤ w.deadline := by
  have hin : ((started clock windowMs).replay steps).InTime :=
    Runs.Reaches.invariant (Runs.Reaches.of_admits h) inTime_started
      fun _ _ hprompt hin => hin.after hprompt
  exact ⟨hin.flushed, fun type => hin.waiting⟩

end NotificationService

namespace Sample

open NotificationService

def everything : NotificationPreferences := ⟨true, 60000, fun _ => true⟩

/-- Two deposits and an alert; the alert's timer fires at once, that of the deposits in a minute. -/
def busyMinute : List Step :=
  [.notify everything .depositConfirmed "Deposit" "10 USDC" none none, .elapse 20000,
    .notify everything .securityAlert "Paused" "The vault is paused" none none,
    .fire .securityAlert, .notify everything .depositConfirmed "Deposit" "5 USDC" none none,
    .elapse 40000, .fire .depositConfirmed]

theorem busyMinute_in_time :
    let s := (started 0 60000).replay busyMinute
    s.flushes.map (fun f => f.events.length) = [1, 2] ∧
      ((∀ f ∈ s.flushes, ∀ w ∈ f.events, f.flushedAt ≤ w.deadline) ∧
        ∀ type, ∀ w ∈ s.buckets type, s.clock ≤ w.deadline) := by
  refine ⟨by decide, notifications_in_time ?_⟩
  refine ⟨trivial, ?_, trivial, trivial, trivial, ?_, trivial, trivial⟩
  all_goals
    intro type due hdue
    cases type
    all_goals cases hdue
    decide

end Sample

end NeuroWealth.VaultUi
