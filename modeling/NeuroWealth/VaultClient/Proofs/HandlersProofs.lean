import NeuroWealth.VaultClient.Handlers

/-!
# Which handlers an event calls

The filters of a topic are kept together, so that an event calls all handlers of its topic or none.
-/

namespace NeuroWealth.VaultClient

variable {σ π η : Type} {sdk : Sdk σ π} {event : EventResponse σ}
  {run : η → π → Except String Unit} {registrations : List (Registration η)} {key : String}
  {x : Listener σ π η} {r : Registration η}

/-! ## The maps after the registrations -/

theorem handlers_on {handler : η} {topicKey : String} {userFilter : Option String} :
    (x.on topicKey handler userFilter).handlers key =
      x.handlers key ++ if topicKey = key then [handler] else [] := by
  unfold Listener.on
  dsimp only
  by_cases hkey : topicKey = key
  · rw [hkey, Function.update_self, if_pos rfl]
  · rw [Function.update_of_ne (Ne.symm hkey), if_neg hkey, List.append_nil]

/-- The filter that `on` keeps. -/
def Registration.kept (r : Registration η) : Option String := r.userFilter.filter (· ≠ "")

theorem userFilters_on : (x.on r.topicKey r.handler r.userFilter).userFilters key =
    x.userFilters key ++ if r.topicKey = key then r.kept.toList else [] := by
  unfold Listener.on Registration.kept
  dsimp only
  cases hkept : r.userFilter.filter (· ≠ "") with
  | none => simp
  | some user =>
    by_cases hkey : r.topicKey = key
    · rw [hkey, if_pos rfl]
      exact Function.update_self _ _ _
    · rw [if_neg hkey, List.append_nil]
      exact Function.update_of_ne (Ne.symm hkey) _ _

theorem register_append : (register (registrations ++ [r]) : Listener σ π η) =
    (register registrations).on r.topicKey r.handler r.userFilter := by
  unfold register
  rw [List.foldl_append]
  rfl

theorem handlers_register : (register registrations : Listener σ π η).handlers key =
    (registrations.filter fun r => r.topicKey = key).map Registration.handler := by
  induction registrations using List.reverseRecOn with
  | nil => rfl
  | append_singleton registrations r ih =>
    rw [register_append, handlers_on, ih, List.filter_append, List.map_append]
    by_cases hkey : r.topicKey = key
    · simp [hkey]
    · simp [hkey]

theorem userFilters_register : (register registrations : Listener σ π η).userFilters key =
    (registrations.filter fun r => r.topicKey = key).filterMap Registration.kept := by
  induction registrations using List.reverseRecOn with
  | nil => rfl
  | append_singleton registrations r ih =>
    rw [register_append, userFilters_on, ih, List.filter_append, List.filterMap_append]
    by_cases hkey : r.topicKey = key
    · cases hkept : r.kept with
      | none => simp [hkey, hkept]
      | some user => simp [hkey, hkept]
    · simp [hkey]

/-! ## The event -/

/-- A handler that throws does not stop the others. -/
theorem runHandlers_fst (calls : List (η × π)) :
    (runHandlers run calls).1 = calls.map Prod.fst := by
  induction calls with
  | nil => rfl
  | cons call calls ih =>
    unfold runHandlers
    cases hrun : run call.1 call.2 with
    | ok => simp [ih]
    | error err => simp [ih]

/-- No two keys have the same symbol. -/
theorem eventTopics_symbols : (eventTopics.map Prod.snd).Nodup := by decide +kernel

theorem find_symbol {symbol : String} :
    ((eventTopics.find? fun entry => entry.2 = symbol).map Prod.fst) = some key ↔
      (key, symbol) ∈ eventTopics := by
  constructor
  · intro h
    obtain ⟨entry, hfind, rfl⟩ := Option.map_eq_some_iff.mp h
    have hsymbol : entry.2 = symbol := by simpa using List.find?_some hfind
    rw [← hsymbol]
    exact List.mem_of_find?_eq_some hfind
  · intro h
    cases hfind : eventTopics.find? fun entry => entry.2 = symbol with
    | none => exact absurd (List.find?_eq_none.mp hfind _ h) (by simp)
    | some entry =>
      have hsymbol : entry.2 = symbol := by simpa using List.find?_some hfind
      have hentry : entry = (key, symbol) :=
        List.inj_on_of_nodup_map eventTopics_symbols (List.mem_of_find?_eq_some hfind) h hsymbol
      rw [hentry]
      rfl

/-- The registrations for the event's topic. -/
def named (sdk : Sdk σ π) (event : EventResponse σ) (registrations : List (Registration η)) :
    List (Registration η) :=
  registrations.filter fun r => r.Names sdk event

/-- The filters kept for the topic let the event through, and its payload can be converted. -/
structure Delivered (sdk : Sdk σ π) (event : EventResponse σ)
    (registrations : List (Registration η)) : Prop where
  admitted : (named sdk event registrations).filterMap Registration.kept = [] ∨
    ∃ user ∈ userTopic sdk event,
      user ≠ "" ∧ user ∈ (named sdk event registrations).filterMap Registration.kept
  decoded : sdk.scValToNative event.value ≠ none

theorem admits_iff {registered : Listener σ π η} : registered.admits sdk key event = some true ↔
    registered.userFilters key = [] ∨ ∃ user ∈ userTopic sdk event,
      user ≠ "" ∧ user ∈ registered.userFilters key := by
  unfold Listener.admits extractUserTopic userTopic
  by_cases hnone : registered.userFilters key = []
  · simp [hnone]
  · rw [if_neg hnone]
    cases htopic : event.topic[1]? with
    | none => simp [hnone]
    | some topic =>
      cases hnative : sdk.scValToNative topic with
      | none => simp [hnone, hnative]
      | some native =>
        cases htext : sdk.text native with
        | none => simp [hnone, hnative, htext]
        | some user => simp [hnone, hnative, htext]

/-! ## The calls -/

/-- An event whose topic is no key's is for nobody. -/
theorem named_eq_nil (h : ∀ symbol ∈ primaryTopic sdk event, ∀ key, (key, symbol) ∉ eventTopics) :
    named sdk event registrations = [] := by
  refine List.filter_eq_nil_iff.mpr fun r _ => ?_
  rw [decide_eq_true_iff]
  rintro ⟨symbol, hsymbol, hentry⟩
  exact h symbol hsymbol r.topicKey hentry

theorem named_eq {symbol : String} (hsymbol : primaryTopic sdk event = some symbol)
    (hentry : (key, symbol) ∈ eventTopics) :
    named sdk event registrations = registrations.filter fun r => r.topicKey = key := by
  refine List.filter_congr fun r _ => decide_eq_decide.mpr ?_
  constructor
  · rintro ⟨symbol', hsymbol', hentry'⟩
    obtain rfl : symbol = symbol' := Option.some.inj (hsymbol.symm.trans hsymbol')
    exact Option.some.inj ((find_symbol.mpr hentry').symm.trans (find_symbol.mpr hentry))
  · rintro rfl
    exact ⟨symbol, hsymbol, hentry⟩

theorem matchedKey_eq_some {primary : π} : matchedKey sdk primary = some key ↔
    ∃ symbol ∈ sdk.text primary, (key, symbol) ∈ eventTopics := by
  unfold matchedKey
  cases htext : sdk.text primary with
  | none => simp
  | some symbol =>
    dsimp only
    rw [find_symbol]
    simp

theorem dispatchEvent_of_nobody
    (h : ∀ symbol ∈ primaryTopic sdk event, ∀ key, (key, symbol) ∉ eventTopics) :
    (x.dispatchEvent sdk event).getD [] = [] := by
  unfold Listener.dispatchEvent
  cases htopic : event.topic with
  | nil => rfl
  | cons first rest =>
    cases hnative : sdk.scValToNative first with
    | none => simp only [hnative, Option.getD_none]
    | some primary =>
      cases hmatched : matchedKey sdk primary with
      | none => simp only [hnative, hmatched, Option.getD_some]
      | some key =>
        obtain ⟨symbol, hsymbol, hentry⟩ := matchedKey_eq_some.mp hmatched
        refine absurd hentry (h symbol ?_ key)
        simpa [primaryTopic, htopic, hnative] using hsymbol

/-- The handlers of a topic are called if its filters admit the event and the payload converts. -/
theorem dispatchEvent_of_key {symbol : String} (hsymbol : primaryTopic sdk event = some symbol)
    (hentry : (key, symbol) ∈ eventTopics) :
    ((x.dispatchEvent sdk event).getD []).map Prod.fst =
      if x.admits sdk key event = some true ∧ sdk.scValToNative event.value ≠ none then
        x.handlers key
      else [] := by
  unfold Listener.dispatchEvent
  cases htopic : event.topic with
  | nil => simp [primaryTopic, htopic] at hsymbol
  | cons first rest =>
    cases hnative : sdk.scValToNative first with
    | none => simp [primaryTopic, htopic, hnative] at hsymbol
    | some primary =>
      have htext : sdk.text primary = some symbol := by
        simpa [primaryTopic, htopic, hnative] using hsymbol
      have hmatched : matchedKey sdk primary = some key :=
        matchedKey_eq_some.mpr ⟨symbol, htext, hentry⟩
      simp only [hnative, hmatched]
      by_cases hempty : x.handlers key = []
      · simp [hempty]
      · rw [if_neg (by simpa using hempty)]
        cases hadmits : x.admits sdk key event with
        | none => simp
        | some admitted =>
          cases admitted with
          | false => simp
          | true =>
            cases hvalue : sdk.scValToNative event.value with
            | none => simp
            | some payload =>
              rw [if_pos ⟨rfl, by simp⟩, Option.getD_some, List.map_map]
              exact List.map_id _

/-- An event calls all handlers of its topic or none. -/
theorem invoked_spec :
    (Delivered sdk event registrations →
      invoked sdk event run registrations =
        (named sdk event registrations).map Registration.handler) ∧
    (¬ Delivered sdk event registrations → invoked sdk event run registrations = []) := by
  unfold invoked
  rw [runHandlers_fst]
  by_cases hnobody : ∀ symbol ∈ primaryTopic sdk event, ∀ key, (key, symbol) ∉ eventTopics
  · rw [dispatchEvent_of_nobody hnobody, named_eq_nil hnobody]
    exact ⟨fun _ => rfl, fun _ => rfl⟩
  · push Not at hnobody
    obtain ⟨symbol, hsymbol, key, hentry⟩ := hnobody
    have hnamed : named sdk event registrations = _ := named_eq hsymbol hentry
    have hadmits : (register registrations : Listener σ π η).admits sdk key event = some true ↔ _ :=
      admits_iff
    rw [userFilters_register, ← hnamed] at hadmits
    rw [dispatchEvent_of_key hsymbol hentry, handlers_register, ← hnamed]
    exact ⟨fun h => if_pos ⟨hadmits.mpr h.admitted, h.decoded⟩,
      fun h => if_neg fun h' => h ⟨hadmits.mp h'.1, h'.2⟩⟩

/-! ## Exactness -/

/-- The registrations for the event's topic all match, and its payload converts; or none matches,
    and one of them has a filter that is kept, or the payload does not convert. -/
def Agreed (sdk : Sdk σ π) (event : EventResponse σ) (registrations : List (Registration η)) :
    Prop :=
  (∀ r ∈ registrations, r.Names sdk event → r.Matches sdk event) ∧
      sdk.scValToNative event.value ≠ none ∨
    (∀ r ∈ registrations, ¬ r.Matches sdk event) ∧
      ((∃ r ∈ registrations, r.Names sdk event ∧ ∃ user ∈ r.userFilter, user ≠ "") ∨
        sdk.scValToNative event.value = none)

theorem mem_named : r ∈ named sdk event registrations ↔
    r ∈ registrations ∧ r.Names sdk event := by
  unfold named
  rw [List.mem_filter, decide_eq_true_iff]

theorem matching_eq : registrations.filter (fun r => r.Matches sdk event) =
    (named sdk event registrations).filter fun r => r.Matches sdk event := by
  unfold named
  rw [List.filter_filter]
  refine List.filter_congr fun r _ => ?_
  by_cases hmatches : r.Matches sdk event
  · simp [hmatches, hmatches.1]
  · simp [hmatches]

theorem mem_kept {user : String} :
    user ∈ (named sdk event registrations).filterMap Registration.kept ↔
      ∃ r ∈ registrations, r.Names sdk event ∧ r.userFilter = some user ∧ user ≠ "" := by
  unfold Registration.kept
  rw [List.mem_filterMap]
  simp only [mem_named, Option.filter_eq_some_iff, and_assoc, decide_eq_true_iff]

/-- An event calls exactly the handlers of its matching registrations if and only if the
    registrations for its topic agree on it. -/
theorem exact_iff : Exact sdk event run registrations ↔ Agreed sdk event registrations := by
  unfold Exact
  rw [matching_eq]
  by_cases hdelivered : Delivered sdk event registrations
  · rw [invoked_spec.1 hdelivered]
    constructor
    · intro hexact
      refine .inl ⟨fun r hr hnames => ?_, hdelivered.decoded⟩
      have hlength := congrArg List.length hexact
      rw [List.length_map, List.length_map] at hlength
      have hall := List.length_filter_eq_length_iff.mp hlength.symm r (mem_named.mpr ⟨hr, hnames⟩)
      exact of_decide_eq_true hall
    · rintro (⟨hall, -⟩ | ⟨hnone, ⟨r, hr, hnames, user, hfilter, hne⟩ | hvalue⟩)
      · rw [List.filter_eq_self.mpr]
        intro r hr
        exact decide_eq_true (hall r (mem_named.mp hr).1 (mem_named.mp hr).2)
      · -- a filter that is kept has let the event through, so its registration matches
        have hkept := mem_kept.mpr ⟨r, hr, hnames, hfilter, hne⟩
        rcases hdelivered.admitted with hnil | ⟨user', huser, -, hmem⟩
        · rw [hnil] at hkept
          cases hkept
        · obtain ⟨r', hr', hnames', hfilter', -⟩ := mem_kept.mp hmem
          refine absurd ⟨hnames', fun u hu => ?_⟩ (hnone r' hr')
          rw [hfilter'] at hu
          rw [← Option.some.inj hu]
          exact huser
      · exact absurd hvalue hdelivered.decoded
  · rw [invoked_spec.2 hdelivered]
    constructor
    · intro hexact
      have hnil := List.map_eq_nil_iff.mp hexact.symm
      have hnone : ∀ r ∈ registrations, ¬ r.Matches sdk event := fun r hr hmatches =>
        List.filter_eq_nil_iff.mp hnil r (mem_named.mpr ⟨hr, hmatches.1⟩) (decide_eq_true hmatches)
      refine .inr ⟨hnone, ?_⟩
      by_contra! h
      refine hdelivered ⟨.inl ?_, h.2⟩
      refine List.eq_nil_iff_forall_not_mem.mpr fun user huser => ?_
      obtain ⟨r, hr, hnames, hfilter, hne⟩ := mem_kept.mp huser
      exact hne (h.1 r hr hnames user hfilter)
    · rintro (⟨hall, hvalue⟩ | ⟨hnone, -⟩)
      · -- with all of them matching, a kept filter is the user topic
        refine absurd ⟨?_, hvalue⟩ hdelivered
        by_contra! h
        obtain ⟨user, huser⟩ := List.exists_mem_of_ne_nil _ h.1
        obtain ⟨r, hr, hnames, hfilter, hne⟩ := mem_kept.mp huser
        exact h.2 user ((hall r hr hnames).2 user hfilter) hne huser
      · have hnil : (named sdk event registrations).filter (fun r => r.Matches sdk event) = [] :=
          List.filter_eq_nil_iff.mpr fun r hr hmatches =>
            hnone r (mem_named.mp hr).1 (of_decide_eq_true hmatches)
        rw [hnil]
        rfl

namespace Sample

/-- Contract values are strings here. -/
def plainSdk : Sdk String String where
  scValToNative := some
  text := some

/-- A deposit of alice. -/
def deposit : EventResponse String := ⟨1, ["deposit", "alice"], "100"⟩

/-- One handler for the deposits of bob, one for all deposits. -/
def bobAndAll : List (Registration String) :=
  [⟨"deposit", "bobs", some "bob"⟩, ⟨"deposit", "all", none⟩]

/-- The filter for bob keeps the deposit of alice from the other handler too. -/
theorem all_missed : ¬ Exact plainSdk deposit (fun _ _ => .ok ()) bobAndAll ∧
    invoked plainSdk deposit (fun _ _ => .ok ()) bobAndAll = [] := by
  constructor
  · unfold Exact
    decide +kernel
  · decide +kernel

end Sample

end NeuroWealth.VaultClient
