import NeuroWealth.Agent.StateBackup

/-!
# When a restore returns the latest backup

What a store holds is the last backup written to it, so the first loadable store decides what a
restore returns. What the file holds is the last save to reach it.
-/

namespace NeuroWealth.StateBackup

/-! ## The validation -/

theorem Json.orElse_ofOption (value : Option ℚ) :
    Json.orElse .null (some (.ofOption value)) = .ofOption value := by
  cases value <;> rfl

theorem parseScheduler_toJson (state : OperationalState) (now : ℚ) :
    parseScheduler (some (state.stamp now).scheduler.toJson) = (state.stamp now).scheduler := by
  have hrun := Json.orElse_ofOption state.lastRunAt
  unfold parseScheduler
  congr 1

theorem parseMetrics_toJson (state : OperationalState) (now : ℚ) :
    parseMetrics (some (state.stamp now).metrics.toJson) = (state.stamp now).metrics := rfl

/-- What a backup persists is in valid form, and is read back as it was written. -/
theorem parse_stamp (state : OperationalState) (now : ℚ) :
    parseAgentState (state.stamp now).toJson = some (state.stamp now) := by
  have hrebalance := Json.orElse_ofOption state.lastRebalanceAt
  have hscheduler := parseScheduler_toJson state now
  have hmetrics := parseMetrics_toJson state now
  show (if AGENT_STATE_VERSION = AGENT_STATE_VERSION then some (AgentState.mk _ _ _ _ _ _)
    else none) = _
  rw [if_pos rfl]
  congr 2

/-! ## One store -/

namespace MultiStateStore

variable {T : Type} {stores : List (KeyValue T)} {outcome : ℕ → SaveOutcome} {key : String}
  {value : T} {loads : ℕ → Bool} {i : ℕ}

@[simp]
theorem length_save : (save stores outcome key value).length = stores.length := by
  simp [save]

/-- A save reaches the stores where it is effective. -/
theorem held_save (hi : i < stores.length) :
    held (save stores outcome key value) key i =
      if (outcome i).effective then some value else held stores key i := by
  have hget : stores[i]? = some stores[i] := List.getElem?_eq_getElem hi
  unfold held save
  rw [List.getElem?_mapIdx, hget]
  by_cases heffective : (outcome i).effective
  · simp [heffective]
  · simp [heffective]

/-- A load that no store answers. -/
theorem load_eq_none (h : ∀ i, loads i = true → held stores key i = none) :
    load key loads stores = none := by
  induction stores generalizing loads with
  | nil => rfl
  | cons store rest ih =>
    have hfirst : (if loads 0 then store key else none) = none := by
      split_ifs with hload
      · exact h 0 hload
      · rfl
    rw [load, hfirst]
    exact ih fun i hi => h (i + 1) hi

/-- A load returns the value of the first store that answers. -/
theorem load_eq_held (hload : loads i = true) (hsome : (held stores key i).isSome)
    (hfirst : ∀ j < i, loads j = true → held stores key j = none) :
    load key loads stores = held stores key i := by
  induction stores generalizing loads i with
  | nil => simp [held] at hsome
  | cons store rest ih =>
    cases i with
    | zero =>
      obtain ⟨value, hvalue⟩ := Option.isSome_iff_exists.mp hsome
      have hanswer : (if loads 0 then store key else none) = some value := by
        rw [if_pos hload]
        exact hvalue
      rw [load, hanswer, hvalue]
    | succ i =>
      have hskip : (if loads 0 then store key else none) = none := by
        split_ifs with hzero
        · exact hfirst 0 (Nat.succ_pos i) hzero
        · rfl
      rw [load, hskip]
      refine ih (i := i) hload hsome ?_
      intro j hj hloads
      exact hfirst (j + 1) (Nat.succ_lt_succ hj) hloads

end MultiStateStore

/-! ## What the stores hold -/

namespace StateBackupManager

open MultiStateStore

variable {key : String} {installation : Installation key} {history : List Backup}
  {loads : ℕ → Bool} {i n : ℕ} {copy : Copy} {state : AgentState}

theorem backups_snoc (b : Backup) :
    backups installation (history ++ [b]) =
      backup key (backups installation history) (b, history.length) := by
  unfold backups
  rw [List.zipIdx_append, List.foldl_append]
  simp

theorem lastWritten_snoc (b : Backup) :
    lastWritten (history ++ [b]) i =
      if (b.outcome i).effective then some history.length else lastWritten history i := by
  unfold lastWritten
  rw [List.zipIdx_append, List.filter_append]
  by_cases heffective : (b.outcome i).effective
  · simp [heffective]
  · simp [heffective]

theorem lastWritten_lt (h : lastWritten history i = some n) : n < history.length := by
  induction history using List.reverseRecOn with
  | nil => simp [lastWritten] at h
  | append_singleton history b ih =>
    rw [lastWritten_snoc] at h
    rw [List.length_append, List.length_singleton]
    split_ifs at h
    · have hn := Option.some.inj h
      omega
    · have hn := ih h
      omega

@[simp]
theorem length_backups : (backups installation history).length = installation.stores.length := by
  induction history using List.reverseRecOn with
  | nil => simp [backups, start]
  | append_singleton history b ih =>
    rw [backups_snoc, backup, length_save]
    exact ih

/-- The store at a position holds the last backup written to it, or what it was found with. -/
theorem held_backups (hi : i < installation.stores.length) :
    held (backups installation history) key i =
      match lastWritten history i with
      | none => held (start installation) key i
      | some n => history[n]?.map fun b => ⟨b.stamped.toJson, some n⟩ := by
  induction history using List.reverseRecOn with
  | nil => rfl
  | append_singleton history b ih =>
    have hlength : i < (backups installation history).length := by
      rw [length_backups]
      exact hi
    rw [backups_snoc, backup, held_save hlength, lastWritten_snoc]
    by_cases heffective : (b.outcome i).effective
    · simp [heffective]
    · rw [if_neg heffective, if_neg heffective, ih]
      cases hlast : lastWritten history i with
      | none => rfl
      | some n =>
        have hn := lastWritten_lt hlast
        simp only [List.getElem?_append_left hn]

/-- The store holds the backup last written to it. -/
theorem held_written (hi : i < installation.stores.length) (h : lastWritten history i = some n) :
    ∃ b, history[n]? = some b ∧
      held (backups installation history) key i = some ⟨b.stamped.toJson, some n⟩ := by
  have hget := List.getElem?_eq_getElem (lastWritten_lt h)
  refine ⟨_, hget, ?_⟩
  rw [held_backups hi, h]
  simp [hget]

/-- A store that no backup was written to holds nothing in valid form, and no backup. -/
theorem held_unwritten (hi : i < installation.stores.length) (h : lastWritten history i = none)
    (hheld : held (backups installation history) key i = some copy) :
    parseAgentState copy.value = none ∧ copy.backup = none := by
  rw [held_backups hi, h] at hheld
  have hget := List.getElem?_eq_getElem hi
  simp only [held, start, List.getElem?_map, hget, Option.map_some, Option.bind_some] at hheld
  obtain ⟨value, hvalue, rfl⟩ := Option.map_eq_some_iff.mp hheld
  have hstored : installation.stores[i] key = some value := by
    unfold Json.loaded at hvalue
    split at hvalue
    · cases hvalue
    · exact hvalue
  exact ⟨installation.old _ (List.getElem_mem hi) value hstored, rfl⟩

theorem lt_of_held (h : held (backups installation history) key i = some copy) :
    i < installation.stores.length := by
  by_contra hge
  have hlength : (backups installation history).length = installation.stores.length := length_backups
  rw [← hlength, not_lt] at hge
  simp [held, List.getElem?_eq_none hge] at h

/-- A successful backup is held exactly where it was the last one written. -/
theorem holds_iff : Holds installation history loads n state ↔
    Succeeded installation history n ∧ (∃ b, history[n]? = some b ∧ b.stamped = state) ∧
      ∃ i < installation.stores.length, loads i = true ∧ lastWritten history i = some n := by
  constructor
  · rintro ⟨hsucceeded, i, copy, hload, hheld, hbackup, hparse⟩
    have hi := lt_of_held hheld
    cases hlast : lastWritten history i with
    | none =>
      obtain ⟨hnone, -⟩ := held_unwritten hi hlast hheld
      rw [hnone] at hparse
      cases hparse
    | some m =>
      obtain ⟨b, hb, hcopy⟩ := held_written hi hlast
      obtain rfl := Option.some.inj (hcopy.symm.trans hheld)
      obtain rfl := Option.some.inj hbackup
      rw [Backup.stamped, parse_stamp] at hparse
      exact ⟨hsucceeded, ⟨b, hb, Option.some.inj hparse⟩, i, hi, hload, hlast⟩
  · rintro ⟨hsucceeded, ⟨b, hb, rfl⟩, i, hi, hload, hlast⟩
    obtain ⟨b', hb', hheld⟩ := held_written hi hlast
    obtain rfl := Option.some.inj (hb'.symm.trans hb)
    exact ⟨hsucceeded, i, _, hload, hheld, rfl, parse_stamp _ _⟩

/-- A store was filled exactly when it holds something. -/
theorem filled_iff (hi : i < installation.stores.length) : Filled installation history i ↔
    (held (backups installation history) key i).isSome := by
  rw [held_backups hi]
  cases hlast : lastWritten history i with
  | none => simp [Filled, hi, hlast]
  | some n =>
    have hget := List.getElem?_eq_getElem (lastWritten_lt hlast)
    simp [Filled, hi, hlast, hget]

theorem held_of_not_filled (h : ¬ Filled installation history i) :
    held (backups installation history) key i = none := by
  by_contra hheld
  obtain ⟨copy, hcopy⟩ := Option.ne_none_iff_exists'.mp hheld
  refine h ((filled_iff (lt_of_held hcopy)).mpr ?_)
  rw [hcopy]
  rfl

/-! ## The leader decides -/

/-- Among loadable stores that were filled there is a first. -/
theorem exists_leads (hload : loads i = true) (hfilled : Filled installation history i) :
    ∃ j, Leads installation history loads j := by
  classical
  have hexists : ∃ j, loads j = true ∧ Filled installation history j := ⟨i, hload, hfilled⟩
  refine ⟨Nat.find hexists, (Nat.find_spec hexists).2, (Nat.find_spec hexists).1, ?_⟩
  intro j hj hloads hother
  exact Nat.find_min hexists hj ⟨hloads, hother⟩

theorem restore_unled (h : ∀ i, ¬ Leads installation history loads i) :
    restore key loads (backups installation history) = none := by
  have hnone : ∀ i, loads i = true → held (backups installation history) key i = none := by
    intro i hload
    apply held_of_not_filled
    intro hfilled
    obtain ⟨j, hj⟩ := exists_leads hload hfilled
    exact h j hj
  rw [restore, load_eq_none hnone]
  rfl

/-- A restore returns what the leading store holds, once validated. -/
theorem restore_led (h : Leads installation history loads i) :
    restore key loads (backups installation history) =
      (held (backups installation history) key i).bind fun copy =>
        (parseAgentState copy.value).map fun state => ⟨state, copy.backup⟩ := by
  obtain ⟨hfilled, hload, hfirst⟩ := h
  have hsome := (filled_iff hfilled.1).mp hfilled
  rw [restore, load_eq_held hload hsome]
  intro j hj hloads
  exact held_of_not_filled (hfirst j hj hloads)

theorem restore_led_written {b : Backup} (h : Leads installation history loads i)
    (hlast : lastWritten history i = some n) (hb : history[n]? = some b) :
    restore key loads (backups installation history) = some ⟨b.stamped, some n⟩ := by
  obtain ⟨b', hb', hheld⟩ := held_written h.1.1 hlast
  obtain rfl := Option.some.inj (hb'.symm.trans hb)
  rw [restore_led h, hheld, Option.bind_some, Backup.stamped, parse_stamp]
  rfl

theorem restore_led_unwritten (h : Leads installation history loads i)
    (hlast : lastWritten history i = none) :
    restore key loads (backups installation history) = none := by
  rw [restore_led h]
  cases hheld : held (backups installation history) key i with
  | none => rfl
  | some copy =>
    rw [Option.bind_some, (held_unwritten h.1.1 hlast hheld).1]
    rfl

/-- A restore returns the latest backup exactly when the leading store is current. -/
theorem restoresLatest_iff : RestoresLatest installation history loads ↔
    LeaderIsCurrent installation history loads := by
  constructor
  · intro h i hlead
    cases hlast : lastWritten history i with
    | none =>
      rw [RestoresLatest, restore_led_unwritten hlead hlast] at h
      refine ⟨nofun, ?_⟩
      intro j m hj hload hm hsucceeded
      obtain ⟨b, hb, -⟩ := held_written hj hm
      exact absurd (holds_iff.mpr ⟨hsucceeded, ⟨b, hb, rfl⟩, j, hj, hload, hm⟩) (h m _)
    | some n =>
      obtain ⟨b, hb, -⟩ := held_written hlead.1.1 hlast
      rw [RestoresLatest, restore_led_written hlead hlast hb] at h
      obtain ⟨n', hn', hholds, hlatest⟩ := h
      obtain rfl := Option.some.inj hn'
      constructor
      · rintro n' hn'
        obtain rfl := Option.some.inj hn'
        exact hholds.1
      · intro j m hj hload hm hsucceeded
        obtain ⟨c, hc, -⟩ := held_written hj hm
        exact ⟨n, rfl, hlatest m _ (holds_iff.mpr ⟨hsucceeded, ⟨c, hc, rfl⟩, j, hj, hload, hm⟩)⟩
  · intro h
    by_cases hlead : ∃ i, Leads installation history loads i
    · obtain ⟨i, hlead⟩ := hlead
      obtain ⟨hown, hothers⟩ := h i hlead
      cases hlast : lastWritten history i with
      | none =>
        rw [RestoresLatest, restore_led_unwritten hlead hlast]
        intro m state hholds
        obtain ⟨hsucceeded, -, j, hj, hload, hm⟩ := holds_iff.mp hholds
        obtain ⟨n, hn, -⟩ := hothers j m hj hload hm hsucceeded
        rw [hlast] at hn
        cases hn
      | some n =>
        obtain ⟨b, hb, -⟩ := held_written hlead.1.1 hlast
        rw [RestoresLatest, restore_led_written hlead hlast hb]
        refine ⟨n, rfl, ?_, ?_⟩
        · exact holds_iff.mpr ⟨hown n hlast, ⟨b, hb, rfl⟩, i, hlead.1.1, hlead.2.1, hlast⟩
        · intro m state hholds
          obtain ⟨hsucceeded, -, j, hj, hload, hm⟩ := holds_iff.mp hholds
          obtain ⟨n', hn', hle⟩ := hothers j m hj hload hm hsucceeded
          obtain rfl := Option.some.inj (hlast.symm.trans hn')
          exact hle
    · have hnone : ∀ i, ¬ Leads installation history loads i := by simpa using hlead
      rw [RestoresLatest, restore_unled hnone]
      intro m state hholds
      obtain ⟨-, -, j, hj, hload, hm⟩ := holds_iff.mp hholds
      have hfilled : Filled installation history j := ⟨hj, .inl (by rw [hm]; rfl)⟩
      exact hlead (exists_leads hload hfilled)

end StateBackupManager

/-! ## One file -/

namespace FileStateStore

variable {T : Type} {history : List (Save T)} {readable : Bool} {key : String} {s : Save T}

theorem saves_snoc : saves (history ++ [s]) = save (saves history) s := by
  simp [saves]

theorem lastTouch_snoc : lastTouch (history ++ [s]) =
    if s.outcome = .untouched then lastTouch history else some s := by
  unfold lastTouch
  rw [List.filter_append]
  by_cases h : s.outcome = .untouched
  · simp [h]
  · simp [h]

theorem lastSaved_snoc : lastSaved (history ++ [s]) key =
    if s.key = key ∧ s.outcome = .written then some s.value else lastSaved history key := by
  unfold lastSaved
  rw [List.filter_append]
  by_cases h : s.key = key ∧ s.outcome = .written
  · simp [h]
  · simp [h]

/-- The file holds what the last save to reach it left. -/
theorem saves_eq : saves history =
    match lastTouch history with
    | none => .absent
    | some s => save .absent s := by
  induction history using List.reverseRecOn with
  | nil => rfl
  | append_singleton history s ih =>
    rw [saves_snoc, lastTouch_snoc]
    by_cases h : s.outcome = .untouched
    · rw [if_pos h, save, h]
      exact ih
    · rw [if_neg h]
      cases houtcome : s.outcome with
      | untouched => exact absurd houtcome h
      | written => simp [save, houtcome]
      | damaged => simp [save, houtcome]

theorem mem_of_lastTouch (h : lastTouch history = some s) : s ∈ history :=
  List.mem_of_mem_filter (List.mem_of_getLast? h)

/-- Something was saved under the key exactly when a save under it was complete. -/
theorem lastSaved_eq_none : lastSaved history key = none ↔
    ¬ ∃ s ∈ history, s.key = key ∧ s.outcome = .written := by
  simp [lastSaved]

/-- A complete save that was the last to reach the file is the last one under its key. -/
theorem lastSaved_of_lastTouch (h : lastTouch history = some s) (hwritten : s.outcome = .written) :
    lastSaved history s.key = some s.value := by
  induction history using List.reverseRecOn with
  | nil => simp [lastTouch] at h
  | append_singleton history last ih =>
    rw [lastTouch_snoc] at h
    rw [lastSaved_snoc]
    split_ifs at h with huntouched
    · have hother : ¬ (last.key = s.key ∧ last.outcome = .written) := by
        rintro ⟨-, hlast⟩
        rw [huntouched] at hlast
        cases hlast
      rw [if_neg hother]
      exact ih h
    · obtain rfl := Option.some.inj h
      rw [if_pos ⟨rfl, hwritten⟩]

/-- A load returns a value exactly when the file is readable and its last save was a complete one
    under the key. -/
theorem load_saves : load readable (saves history) key =
    match lastTouch history with
    | none => none
    | some s => if readable = true ∧ s.key = key ∧ s.outcome = .written then some s.value else none := by
  rw [saves_eq]
  cases lastTouch history with
  | none => rfl
  | some s =>
    cases houtcome : s.outcome with
    | written => simp [save, load, houtcome]
    | untouched => simp [save, load, houtcome]
    | damaged => simp [save, load, houtcome]

/-- A load returns the last value saved under the key exactly when the file still holds it. -/
theorem load_eq_lastSaved_iff : load readable (saves history) key = lastSaved history key ↔
    Undisplaced readable history key := by
  rw [load_saves]
  constructor
  · intro h hsaved
    have hsome : lastSaved history key ≠ none := fun hnone => lastSaved_eq_none.mp hnone hsaved
    rw [← h] at hsome
    cases hlast : lastTouch history with
    | none => simp [hlast] at hsome
    | some s =>
      simp only [hlast, ne_eq, ite_eq_right_iff, reduceCtorEq, imp_false, not_not] at hsome
      exact ⟨hsome.1, s, rfl, hsome.2⟩
  · intro h
    by_cases hsaved : ∃ s ∈ history, s.key = key ∧ s.outcome = .written
    · obtain ⟨hreadable, s, hlast, rfl, hwritten⟩ := h hsaved
      rw [hlast, lastSaved_of_lastTouch hlast hwritten]
      simp [hreadable, hwritten]
    · rw [lastSaved_eq_none.mpr hsaved]
      cases hlast : lastTouch history with
      | none => rfl
      | some s =>
        refine if_neg ?_
        rintro ⟨-, hkey, hwritten⟩
        exact hsaved ⟨s, mem_of_lastTouch hlast, hkey, hwritten⟩

end FileStateStore

/-- A restore from a list of stores returns the latest backup exactly when the leading store is
    current; a load from a file returns the last value exactly when the file still holds it. -/
theorem latest_state_iff {key : String} (installation : Installation key) (history : List Backup)
    (loads : ℕ → Bool) {T : Type} (saves : List (FileStateStore.Save T)) (readable : Bool)
    (fileKey : String) :
    (StateBackupManager.RestoresLatest installation history loads ↔
      StateBackupManager.LeaderIsCurrent installation history loads) ∧
    (FileStateStore.load readable (FileStateStore.saves saves) fileKey =
        FileStateStore.lastSaved saves fileKey ↔
      FileStateStore.Undisplaced readable saves fileKey) :=
  ⟨StateBackupManager.restoresLatest_iff, FileStateStore.load_eq_lastSaved_iff⟩

namespace Sample

open StateBackupManager

def state (lastLedger : ℚ) : OperationalState :=
  ⟨lastLedger, none, "4h", none, 0, 1000, 5, [⟨"Blend", 1000⟩]⟩

/-- Two empty stores. -/
def installation : Installation "agent:state" := ⟨[fun _ => none, fun _ => none], by simp⟩

/-- The second backup misses the first store. -/
def history : List Backup :=
  [⟨state 100, 1, fun _ => .ok⟩, ⟨state 200, 2, fun i => if i = 0 then .fails false else .ok⟩]

/-- Two keys of one file. -/
def fileHistory : List (FileStateStore.Save ℕ) :=
  [⟨"agent:state", 100, .written⟩, ⟨"agent:leader", 1, .written⟩]

/-- With every store loadable, the restore returns the older of two successful backups; and a save
    under another key makes the file forget the first one. -/
theorem older_backup_restored :
    ¬ RestoresLatest installation history (fun _ => true) ∧
      FileStateStore.load true (FileStateStore.saves fileHistory) "agent:state" ≠
        FileStateStore.lastSaved fileHistory "agent:state" := by
  constructor
  · have hrestored : restore "agent:state" (fun _ => true) (backups installation history) =
        some ⟨(state 100).stamp 1, some 0⟩ := rfl
    rw [RestoresLatest, hrestored]
    rintro ⟨n, hn, -, hlatest⟩
    obtain rfl := Option.some.inj hn
    have hsecond : Succeeded installation history 1 := ⟨_, rfl, by decide⟩
    have hheld : lastWritten history 1 = some 1 := rfl
    have hholds : Holds installation history (fun _ => true) 1 ((state 200).stamp 2) :=
      holds_iff.mpr ⟨hsecond, ⟨_, rfl, rfl⟩, 1, by decide, rfl, hheld⟩
    exact absurd (hlatest 1 _ hholds) (by decide)
  · decide

end Sample

end NeuroWealth.StateBackup
