import NeuroWealth.VaultClient.EventListener

/-!
# Completeness of the event stream

What was dispatched is the span of the chain from the start ledger up to the cursor, followed by the
part of the current page that was dispatched. A page that holds all the events of its last ledger
extends the span.
-/

namespace NeuroWealth.VaultClient

open OrderedStream

variable {σ π η : Type} {sdk : Sdk σ π} {chain : Chain σ} {batchSize cursorLedger : ℕ}
  {x : Listener σ π η} {events rest done : List (EventResponse σ)} {m : Step η}

/-- The span up to the cursor was dispatched, and then these. -/
def Streamed (chain : Chain σ) (x : Listener σ π η) (cursorLedger : ℕ)
    (done : List (EventResponse σ)) : Prop :=
  ∃ startLedger, x.startLedger = some startLedger ∧ startLedger ≤ cursorLedger ∧
    x.dispatched.map Dispatch.event =
      span EventResponse.ledger chain.events startLedger cursorLedger ++ done

/-- The events are a page of the chain from the cursor on. -/
def Page (chain : Chain σ) (batchSize cursorLedger : ℕ) (events : List (EventResponse σ)) : Prop :=
  ∃ latest, events = (span EventResponse.ledger chain.events cursorLedger latest).take batchSize

/-- What every state of an undisturbed run keeps. -/
def Sound (chain : Chain σ) (batchSize : ℕ) (x : Listener σ π η) : Prop :=
  match x.stage with
  | .idle => x.dispatched = []
  | .locating => x.dispatched = []
  | .looping cursorLedger => Streamed chain x cursorLedger []
  | .requesting cursorLedger => Streamed chain x cursorLedger []
  | .dispatching cursorLedger events rest =>
    Page chain batchSize cursorLedger events ∧
      ∃ done, events = done ++ rest ∧ Streamed chain x cursorLedger done
  | .ended cursorLedger => Streamed chain x cursorLedger []
  | .rejected => True

theorem sound_fresh (latest : ℕ) : Sound chain batchSize (fresh latest : Listener σ π η) := rfl

/-- A stream starts. -/
theorem Streamed.start (ledger : ℕ) (hstart : x.startLedger = some ledger)
    (hnone : x.dispatched = []) : Streamed chain x ledger [] := by
  refine ⟨ledger, hstart, le_rfl, ?_⟩
  rw [hnone, span_self]
  rfl

/-- The events that were dispatched before the cursor. -/
theorem Streamed.complete (h : Streamed chain x cursorLedger done)
    (hdone : ∀ e ∈ done, cursorLedger ≤ e.ledger) :
    ∀ startLedger ∈ x.startLedger,
      (x.dispatched.map Dispatch.event).filter (fun e => e.ledger < cursorLedger) =
        span EventResponse.ledger chain.events startLedger cursorLedger := by
  obtain ⟨startLedger, hstart, -, hdispatched⟩ := h
  intro other hother
  obtain rfl := Option.some.inj (hstart.symm.trans hother)
  have hbefore : (span EventResponse.ledger chain.events startLedger cursorLedger).filter
      (fun e => e.ledger < cursorLedger) =
        span EventResponse.ledger chain.events startLedger cursorLedger := by
    rw [List.filter_eq_self]
    intro e he
    exact decide_eq_true (mem_span.mp he).2.2
  have hafter : done.filter (fun e => e.ledger < cursorLedger) = [] := by
    rw [List.filter_eq_nil_iff]
    intro e he hlt
    have hle := hdone e he
    have hless := of_decide_eq_true hlt
    omega
  rw [hdispatched, List.filter_append, hbefore, hafter, List.append_nil]

theorem Page.le_ledger (h : Page chain batchSize cursorLedger events) {e : EventResponse σ}
    (he : e ∈ events) : e ∈ chain.events ∧ cursorLedger ≤ e.ledger := by
  obtain ⟨latest, rfl⟩ := h
  obtain ⟨hchain, hle, -⟩ := mem_span.mp (List.mem_of_mem_take he)
  exact ⟨hchain, hle⟩

theorem Sound.complete (h : Sound chain batchSize x)
    (hcalls : ∀ d ∈ x.dispatched, x.Gave sdk d) : Complete sdk chain x := by
  refine ⟨?_, hcalls⟩
  intro startLedger hstart cursorLedger hcursor
  unfold Sound at h
  cases hstage : x.stage with
  | idle => simp [hstage, Stage.cursor] at hcursor
  | locating => simp [hstage, Stage.cursor] at hcursor
  | rejected => simp [hstage, Stage.cursor] at hcursor
  | looping ledger =>
    simp only [hstage] at h hcursor
    obtain rfl := Option.some.inj hcursor
    exact h.complete nofun startLedger hstart
  | requesting ledger =>
    simp only [hstage] at h hcursor
    obtain rfl := Option.some.inj hcursor
    exact h.complete nofun startLedger hstart
  | ended ledger =>
    simp only [hstage] at h hcursor
    obtain rfl := Option.some.inj hcursor
    exact h.complete nofun startLedger hstart
  | dispatching ledger events rest =>
    simp only [hstage] at h hcursor
    obtain rfl := Option.some.inj hcursor
    obtain ⟨hpage, done, hevents, hstreamed⟩ := h
    refine hstreamed.complete ?_ startLedger hstart
    intro e he
    exact (hpage.le_ledger (hevents ▸ List.mem_append_left _ he)).2

/-! ## Every step -/

/-- A page that holds all the events of its last ledger moves the cursor past them. -/
theorem Streamed.nextCursor (h : Streamed chain x cursorLedger events)
    (hpage : Page chain batchSize cursorLedger events)
    (hwhole : ∀ lastEvent ∈ events.getLast?,
      (span EventResponse.ledger chain.events cursorLedger (lastEvent.ledger + 1)).length ≤
        batchSize) :
    Streamed chain x (nextCursor cursorLedger events) [] := by
  unfold VaultClient.nextCursor
  cases hlast : events.getLast? with
  | none =>
    rw [List.getLast?_eq_none_iff] at hlast
    rw [hlast] at h
    exact h
  | some lastEvent =>
    obtain ⟨hchain, hle⟩ := hpage.le_ledger (List.mem_of_getLast? hlast)
    have hpositive : lastEvent.ledger ≠ 0 := (chain.positive lastEvent hchain).ne'
    have hwholeevents : events =
        span EventResponse.ledger chain.events cursorLedger (lastEvent.ledger + 1) := by
      obtain ⟨latest, rfl⟩ := hpage
      exact take_span_eq chain.ordered hlast (hwhole lastEvent hlast)
    obtain ⟨startLedger, hstart, hbefore, hdispatched⟩ := h
    simp only [if_pos hpositive]
    refine ⟨startLedger, hstart, by omega, ?_⟩
    rw [hdispatched, hwholeevents, List.append_nil]
    exact span_append chain.ordered hbefore (by omega)

theorem dispatch_sound (hpage : Page chain batchSize cursorLedger events)
    (hevents : events = done ++ rest) (h : Streamed chain x cursorLedger done)
    (hstage : x.stage = .dispatching cursorLedger events rest)
    (hok : Undisturbed sdk chain batchSize x .dispatch) :
    Sound chain batchSize (x.dispatch sdk cursorLedger events rest) := by
  unfold Undisturbed at hok
  rw [hstage] at hok
  cases rest with
  | nil =>
    rw [List.append_nil] at hevents
    rw [← hevents] at h
    exact h.nextCursor hpage hok
  | cons event rest =>
    cases hcalls : x.dispatchEvent sdk event with
    | none =>
      simp only [Listener.dispatch, hcalls]
      -- the event is the first one of its page, so nothing was dispatched of the page
      have hlength := hok hcalls
      have hnone : done = [] := by
        rw [hevents, List.length_append] at hlength
        exact List.eq_nil_of_length_eq_zero (by omega)
      rw [hnone] at h
      exact h
    | some calls =>
      simp only [Listener.dispatch, hcalls]
      obtain ⟨startLedger, hstart, hbefore, hdispatched⟩ := h
      refine ⟨hpage, done ++ [event], by simp [hevents], startLedger, hstart, hbefore, ?_⟩
      simp [hdispatched]

theorem sound_after (h : Sound chain batchSize x) (hok : Undisturbed sdk chain batchSize x m) :
    Sound chain batchSize (after sdk chain batchSize x m) := by
  cases m with
  | close => exact h
  | stop => exact h
  | on topicKey handler userFilter => exact h
  | start ledger =>
    unfold after
    dsimp only
    split
    · rename_i hstage
      unfold Sound at h
      rw [hstage] at h
      cases ledger with
      | none => exact h
      | some ledger => exact Streamed.start ledger rfl h
    · exact h
  | located =>
    unfold after
    dsimp only
    split
    · rename_i hstage
      unfold Sound at h
      rw [hstage] at h
      exact Streamed.start x.latest rfl h
    · exact h
  | locateFailed =>
    unfold after
    dsimp only
    split
    · trivial
    · exact h
  | iterate =>
    unfold after
    dsimp only
    split
    · rename_i cursorLedger hstage
      unfold Sound at h
      rw [hstage] at h
      split_ifs
      · exact h
      · exact h
    · exact h
  | answered =>
    unfold after
    dsimp only
    split
    · rename_i cursorLedger hstage
      unfold Sound at h
      rw [hstage] at h
      exact ⟨⟨x.latest + 1, rfl⟩, [], rfl, h⟩
    · exact h
  | getEventsFailed =>
    unfold after
    dsimp only
    split
    · rename_i cursorLedger hstage
      unfold Sound at h
      rw [hstage] at h
      exact h
    · exact h
  | dispatch =>
    unfold after
    dsimp only
    split
    · rename_i cursorLedger events rest hstage
      unfold Sound at h
      rw [hstage] at h
      obtain ⟨hpage, done, hevents, hstreamed⟩ := h
      exact dispatch_sound hpage hevents hstreamed hstage hok
    · exact h

/-! ## The calls of the handlers -/

theorem prefix_update {α : Type} {f : String → List α} {topicKey : String} {new : List α}
    (key : String) : f key <+: Function.update f topicKey (f topicKey ++ new) key := by
  by_cases hkey : key = topicKey
  · rw [hkey, Function.update_self]
    exact List.prefix_append _ _
  · rw [Function.update_of_ne hkey]

theorem prefix_userFilters_on {topicKey : String} {handler : η} {userFilter : Option String}
    (key : String) : x.userFilters key <+: (x.on topicKey handler userFilter).userFilters key := by
  unfold Listener.on
  dsimp only
  cases userFilter.filter (· ≠ "") with
  | none => exact List.prefix_rfl
  | some user => exact prefix_update key

/-- The registrations are the same, and at most one event was given to the handlers. -/
def Dispatches (sdk : Sdk σ π) (x y : Listener σ π η) : Prop :=
  y.handlers = x.handlers ∧ y.userFilters = x.userFilters ∧
    (y.dispatched = x.dispatched ∨ ∃ event calls, x.dispatchEvent sdk event = some calls ∧
      y.dispatched = x.dispatched ++ [⟨event, x.handlers, x.userFilters, calls⟩])

theorem Dispatches.kept {y : Listener σ π η} (hhandlers : y.handlers = x.handlers)
    (hfilters : y.userFilters = x.userFilters) (hdispatched : y.dispatched = x.dispatched) :
    Dispatches sdk x y :=
  ⟨hhandlers, hfilters, .inl hdispatched⟩

theorem dispatches_dispatch :
    Dispatches sdk x (x.dispatch sdk cursorLedger events rest) := by
  cases rest with
  | nil => exact .kept rfl rfl rfl
  | cons event rest =>
    cases hcalls : x.dispatchEvent sdk event with
    | none =>
      simp only [Listener.dispatch, hcalls]
      exact .kept rfl rfl rfl
    | some calls =>
      simp only [Listener.dispatch, hcalls]
      exact ⟨rfl, rfl, .inr ⟨event, calls, hcalls, rfl⟩⟩

variable (sdk chain batchSize x m) in
/-- Only `on` changes the registrations, and only `dispatch` gives an event to handlers. -/
theorem after_cases :
    (∃ topicKey handler userFilter,
      after sdk chain batchSize x m = x.on topicKey handler userFilter) ∨
    Dispatches sdk x (after sdk chain batchSize x m) := by
  have hsame : Dispatches sdk x x := .kept rfl rfl rfl
  cases m with
  | on topicKey handler userFilter => exact .inl ⟨topicKey, handler, userFilter, rfl⟩
  | close => exact .inr (.kept rfl rfl rfl)
  | stop => exact .inr (.kept rfl rfl rfl)
  | start startLedger =>
    refine .inr ?_
    dsimp only [after]
    split
    · cases startLedger <;> exact .kept rfl rfl rfl
    · exact hsame
  | iterate =>
    refine .inr ?_
    dsimp only [after]
    split
    · split_ifs <;> exact .kept rfl rfl rfl
    · exact hsame
  | dispatch =>
    refine .inr ?_
    dsimp only [after]
    split
    · exact dispatches_dispatch
    · exact hsame
  | _ =>
    refine .inr ?_
    dsimp only [after]
    split <;> exact .kept rfl rfl rfl

theorem gave_after (h : ∀ d ∈ x.dispatched, x.Gave sdk d) :
    ∀ d ∈ (after sdk chain batchSize x m).dispatched,
      (after sdk chain batchSize x m).Gave sdk d := by
  intro d hd
  rcases after_cases sdk chain batchSize x m with
    ⟨topicKey, handler, userFilter, hon⟩ | ⟨hhandlers, hfilters, hdispatched⟩
  · rw [hon] at hd ⊢
    obtain ⟨hbefore, hfiltered, hcalls⟩ := h d hd
    exact ⟨fun key => (hbefore key).trans (prefix_update key),
      fun key => (hfiltered key).trans (prefix_userFilters_on key), hcalls⟩
  · unfold Listener.Gave
    rw [hhandlers, hfilters]
    rcases hdispatched with hsame | ⟨event, calls, hcalls, hnew⟩
    · rw [hsame] at hd
      exact h d hd
    · rw [hnew] at hd
      rcases List.mem_append.mp hd with hold | hlast
      · exact h d hold
      · rw [List.mem_singleton.mp hlast]
        exact ⟨fun _ => List.prefix_rfl, fun _ => List.prefix_rfl, hcalls⟩

/-- The stream is complete in every run in which an event throws only as the first one of its page,
    and the cursor moves only after a page with all the events of its last ledger. -/
theorem stream_complete_when_undisturbed {latest : ℕ}
    (h : Runs.Reaches (after sdk chain batchSize) (Undisturbed sdk chain batchSize)
      (fresh latest) x) :
    Complete sdk chain x := by
  have hkept : Sound chain batchSize x ∧ ∀ d ∈ x.dispatched, x.Gave sdk d := by
    apply Runs.Reaches.invariant h ⟨sound_fresh latest, nofun⟩
    rintro t m hok ⟨hsound, hcalls⟩
    exact ⟨sound_after hsound hok, gave_after hcalls⟩
  exact hkept.1.complete hkept.2

namespace Sample

/-- Values are strings; `"bad"` stands for one that cannot be converted. -/
def strings : Sdk String String where
  scValToNative value := if value = "bad" then none else some value
  text := some

/-- Two events of ledger 7, and one of ledger 9. -/
def history : Chain String where
  events := [⟨7, ["paused"], "a"⟩, ⟨7, ["unpaused"], "b"⟩, ⟨9, ["deposit", "G"], "c"⟩]
  ordered := by unfold Ordered; decide
  positive := by decide

/-- The second event of ledger 7 is a deposit that cannot be decoded. -/
def undecodable : Chain String where
  events := [⟨7, ["paused"], "a"⟩, ⟨7, ["deposit", "G"], "bad"⟩, ⟨9, ["unpaused"], "b"⟩]
  ordered := by unfold Ordered; decide
  positive := by decide

def start : Listener String String ℕ := fresh 9

def registered : List (Step ℕ) := [.on "paused" 1 none, .on "deposit" 2 none, .start (some 5)]

/-- Pages of two events: the first ends with ledger 7, the second with ledger 9. -/
def streamed : List (Step ℕ) :=
  registered ++ [.iterate, .answered, .dispatch, .dispatch, .dispatch, .iterate, .getEventsFailed,
    .iterate, .answered, .dispatch, .dispatch]

theorem streamed_complete :
    Complete strings history (streamed.foldl (after strings history 2) start) :=
  stream_complete_when_undisturbed (.of_admits (by decide +kernel))

/-- Pages of one event: the cursor moves past the second event of ledger 7. -/
def skipped : List (Step ℕ) := registered ++ [.iterate, .answered, .dispatch, .dispatch]

/-- The deposit throws after the first event was dispatched; then it is filtered out, and the page
    succeeds. -/
def repeated : List (Step ℕ) :=
  registered ++ [.iterate, .answered, .dispatch, .dispatch, .on "deposit" 3 (some "H"), .iterate,
    .answered, .dispatch, .dispatch, .dispatch, .dispatch]

theorem skipped_and_repeated :
    ((skipped.foldl (after strings history 1) start).stage.cursor = some 8 ∧
        (skipped.foldl (after strings history 1) start).dispatched.map (·.event.value) = ["a"]) ∧
      ((repeated.foldl (after strings undecodable 3) start).stage.cursor = some 10 ∧
        (repeated.foldl (after strings undecodable 3) start).dispatched.map (·.event.value) =
          ["a", "a", "bad", "b"]) ∧
      ¬ Complete strings history (skipped.foldl (after strings history 1) start) := by
  refine ⟨by decide +kernel, by decide +kernel, ?_⟩
  intro h
  have hall := h.events 5 (by decide +kernel) 8 (by decide +kernel)
  revert hall
  decide +kernel

end Sample

end NeuroWealth.VaultClient
