import NeuroWealth.Agent.Recovery

/-!
# Recovery repeats no action and loses none

What is open is on record while no action runs, so a run that reads the records finds it. What is on
record has happened, so a run that skips a job for its own key loses nothing.
-/

namespace NeuroWealth.Recovery

variable {config : RecoveryOrchestratorConfig} {s t : System} {x y : Store} {p q : Stage}
  {run : Run} {job : QueuedFinancialTransaction} {jobs rest : List QueuedFinancialTransaction}
  {key hash : String}

/-- A run keeps what every admissible call and every admissible change keeps. -/
theorem Reaches.invariant {ok : System → Move → Prop} {P : System → Prop}
    (h : Reaches config ok s t) (h0 : P s)
    (hact : ∀ s o x p, ok s (.act o) → P s → step config s.store s.stage o = some (x, p) →
      P ⟨x, p⟩)
    (hworld : ∀ s c x, P s → around s.store c = some x → P ⟨x, s.stage⟩) : P t := by
  apply Runs.Reaches.invariant h h0
  intro s m hm hs
  cases m with
  | act o =>
    rw [after]
    split
    · exact hact s o _ _ hm hs (by assumption)
    · exact hs
  | world c =>
    rw [after]
    split
    · exact hworld s c _ hs (by assumption)
    · exact hs

/-! ## What is confirmed stays confirmed -/

/-- Nothing that was confirmed is lost. -/
def Grows (x y : Store) : Prop :=
  ∀ key, (truthy (x.confirmed key)).isSome → (truthy (y.confirmed key)).isSome

theorem Grows.refl : Grows x x := fun _ h => h

theorem grows_around {c : Change} (h : around x c = some y) : Grows x y := by
  cases c with
  | enqueue job =>
    obtain rfl := Option.some.inj h
    exact .refl
  | confirm key hash =>
    obtain ⟨hhash, rfl⟩ : hash ≠ "" ∧ _ = y := by simpa [around] using h
    intro other hother
    by_cases hsame : other = key
    · simp [hsame, truthy, hhash]
    · simpa [hsame] using hother
  | fails key =>
    simp only [around] at h
    split_ifs at h
    obtain rfl := Option.some.inj h
    exact .refl

/-- A change around a run writes no key, no record and no ghost but `opened`, which shrinks. -/
theorem around_frame {c : Change} (h : around x c = some y) :
    y.processed = x.processed ∧ y.records = x.records ∧ y.executed = x.executed ∧
      y.retired = x.retired ∧ y.calls = x.calls ∧ ∀ key ∈ y.opened, key ∈ x.opened := by
  cases c with
  | enqueue job =>
    obtain rfl := Option.some.inj h
    exact ⟨rfl, rfl, rfl, rfl, rfl, fun _ hkey => hkey⟩
  | confirm key hash =>
    obtain ⟨-, rfl⟩ : hash ≠ "" ∧ _ = y := by simpa [around] using h
    exact ⟨rfl, rfl, rfl, rfl, rfl, fun _ hkey => hkey⟩
  | fails key =>
    simp only [around] at h
    split_ifs at h
    obtain rfl := Option.some.inj h
    exact ⟨rfl, rfl, rfl, rfl, rfl, fun _ hkey => List.mem_of_mem_filter hkey⟩

/-! ## No action is repeated -/

/-- The ready jobs have keys of their own, none of them found on record. -/
structure Batch (run : Run) : Prop where
  fresh : ∀ job ∈ run.readyToExecute, ¬ run.Found job.idempotencyKey
  seen : ∀ job ∈ run.readyToExecute, job.idempotencyKey ∈ run.seenInCurrentBatch
  nodup : (run.readyToExecute.map (·.idempotencyKey)).Nodup

/-- The jobs are not open and have keys of their own. -/
structure Unopened (opened : List String) (jobs : List QueuedFinancialTransaction) : Prop where
  fresh : ∀ job ∈ jobs, job.idempotencyKey ∉ opened
  nodup : (jobs.map (·.idempotencyKey)).Nodup

/-- What a stage knows about the open keys. -/
def Stage.Clear (x : Store) : Stage → Prop
  | readingProcessedKeys run => run.readyToExecute = []
  | readingRecordedKeys run => run.readyToExecute = [] ∧ ∀ key ∈ x.opened,
      key ∈ run.reads.redisProcessedKeys ∨ key ∈ x.records.map Prod.fst ∨
        (truthy (x.confirmed key)).isSome
  | readingRecordedHashes run => run.readyToExecute = [] ∧ ∀ key ∈ x.opened,
      key ∈ run.reads.redisProcessedKeys ∨ key ∈ run.reads.dbRecordedKeys ∨
        (truthy (x.confirmed key)).isSome
  | readingConfirmed run => run.readyToExecute = [] ∧ ∀ key ∈ x.opened,
      key ∈ run.reads.redisProcessedKeys ∨ key ∈ run.reads.dbRecordedKeys ∨
        (truthy (x.confirmed key)).isSome
  | rejecting run _ _ => Batch run ∧ ∀ key ∈ x.opened, run.Found key
  | skipping run _ _ => Batch run ∧ ∀ key ∈ x.opened, run.Found key
  | recordingDuplicate run _ _ => Batch run ∧ ∀ key ∈ x.opened, run.Found key
  | storingDuplicate run _ _ _ => Batch run ∧ ∀ key ∈ x.opened, run.Found key
  | reconciling run => Batch run ∧ ∀ key ∈ x.opened, run.Found key
  | executing _ job rest => Unopened x.opened (job :: rest)
  | submitted _ job rest => Unopened x.opened rest ∧ job.idempotencyKey ∉ rest.map (·.idempotencyKey)
  | recordingKey _ _ _ rest => Unopened x.opened rest
  | confirming _ _ _ rest => Unopened x.opened rest
  | storing _ _ _ rest => Unopened x.opened rest
  | _ => True

/-- What is open is on record, or its action is running; no call was made for an open key. -/
structure Single (s : System) : Prop where
  onRecord : ∀ key ∈ s.store.opened, s.store.OnRecord key ∨ key ∈ s.stage.unrecorded
  clear : s.stage.Clear s.store
  calls : ∀ call ∈ s.store.calls, call.2 = false

/-- A run that has read the records and not looked at a job. -/
theorem Batch.empty (hready : run.readyToExecute = []) : Batch run := by
  refine ⟨?_, ?_, ?_⟩ <;> rw [hready]
  · nofun
  · nofun
  · exact List.nodup_nil

/-- A job that passes the duplicate tests joins the batch. -/
theorem Batch.push (h : Batch run) (hjob : ¬ run.Duplicate job) :
    Batch { run with
      seenInCurrentBatch := job.idempotencyKey :: run.seenInCurrentBatch
      readyToExecute := run.readyToExecute ++ [job] } := by
  have hnot : ¬ run.Found job.idempotencyKey := by
    rintro (hprocessed | hrecorded | hconfirmed)
    · exact hjob (.inl hprocessed)
    · exact hjob (.inr (.inl (.inl hrecorded)))
    · exact hjob (.inr (.inr (.inl hconfirmed)))
  have hnew : job.idempotencyKey ∉ run.readyToExecute.map (·.idempotencyKey) := by
    intro hmem
    obtain ⟨other, hother, hsame⟩ := List.mem_map.mp hmem
    have hseen := h.seen other hother
    rw [hsame] at hseen
    exact hjob (.inr (.inr (.inr hseen)))
  refine ⟨?_, ?_, ?_⟩
  · intro other hother
    rcases List.mem_append.mp hother with hold | hlast
    · exact h.fresh other hold
    · rw [List.mem_singleton.mp hlast]
      exact hnot
  · intro other hother
    rcases List.mem_append.mp hother with hold | hlast
    · exact List.mem_cons_of_mem _ (h.seen other hold)
    · rw [List.mem_singleton.mp hlast]
      exact List.mem_cons_self
  · rw [List.map_append]
    refine h.nodup.append (List.nodup_singleton _) ?_
    rintro other hother hlast
    rw [List.mem_singleton.mp hlast] at hother
    exact hnew hother

/-- The deduplication loop stops at a call with the batch intact. -/
theorem clear_deduplicate (h : Batch run) (hfound : ∀ key ∈ x.opened, run.Found key) :
    (run.deduplicate config jobs).Clear x := by
  induction jobs generalizing run with
  | nil => exact ⟨h, hfound⟩
  | cons job rest ih =>
    unfold Run.deduplicate
    cases validateQueuedTransaction job config with
    | some gap => exact ⟨⟨h.fresh, h.seen, h.nodup⟩, hfound⟩
    | none =>
      by_cases hduplicate : run.Duplicate job
      · simp only [if_pos hduplicate]
        exact ⟨h, hfound⟩
      · simp only [if_neg hduplicate]
        split_ifs
        · exact ⟨⟨h.fresh, h.seen, h.nodup⟩, hfound⟩
        · exact ih (h.push hduplicate) hfound

theorem clear_block : (block jobs).Clear x := by
  cases jobs <;> trivial

theorem clear_execute (h : Unopened x.opened jobs) : (execute run jobs).Clear x := by
  cases jobs with
  | nil => trivial
  | cons job rest => exact h

/-- The ready jobs of a batch are not open. -/
theorem Batch.unopened (h : Batch run) (hfound : ∀ key ∈ x.opened, run.Found key) :
    Unopened x.opened run.readyToExecute :=
  ⟨fun job hjob hopen => h.fresh job hjob (hfound _ hopen), h.nodup⟩

/-- Fewer open keys and more records leave a stage clear. -/
theorem Stage.Clear.mono (h : p.Clear x) (hopened : ∀ key ∈ y.opened, key ∈ x.opened)
    (hrecords : ∀ key ∈ x.records.map Prod.fst, key ∈ y.records.map Prod.fst)
    (hgrows : Grows x y) : p.Clear y := by
  have hunopened : ∀ {jobs}, Unopened x.opened jobs → Unopened y.opened jobs :=
    fun hjobs => ⟨fun job hjob hopen => hjobs.fresh job hjob (hopened _ hopen), hjobs.nodup⟩
  cases p with
  | readingProcessedKeys run => exact h
  | readingRecordedKeys run =>
    refine ⟨h.1, fun key hkey => (h.2 key (hopened key hkey)).imp_right fun hrest => ?_⟩
    exact hrest.imp (hrecords key) (hgrows key)
  | readingRecordedHashes run =>
    refine ⟨h.1, fun key hkey => (h.2 key (hopened key hkey)).imp_right fun hrest => ?_⟩
    exact hrest.imp_right (hgrows key)
  | readingConfirmed run =>
    refine ⟨h.1, fun key hkey => (h.2 key (hopened key hkey)).imp_right fun hrest => ?_⟩
    exact hrest.imp_right (hgrows key)
  | rejecting run job rest => exact ⟨h.1, fun key hkey => h.2 key (hopened key hkey)⟩
  | skipping run job rest => exact ⟨h.1, fun key hkey => h.2 key (hopened key hkey)⟩
  | recordingDuplicate run job rest => exact ⟨h.1, fun key hkey => h.2 key (hopened key hkey)⟩
  | storingDuplicate run job hash rest => exact ⟨h.1, fun key hkey => h.2 key (hopened key hkey)⟩
  | reconciling run => exact ⟨h.1, fun key hkey => h.2 key (hopened key hkey)⟩
  | executing run job rest => exact hunopened h
  | submitted run job rest => exact ⟨hunopened h.1, h.2⟩
  | recordingKey run job hash rest => exact hunopened h
  | confirming run job hash rest => exact hunopened h
  | storing run job hash rest => exact hunopened h
  | _ => trivial

/-- A call that opens no key and forgets no record. -/
theorem Single.keep (h : Single s) (hopened : y.opened = s.store.opened)
    (hcalls : y.calls = s.store.calls)
    (hrecord : ∀ key, s.store.OnRecord key → y.OnRecord key)
    (hpassed : ∀ key ∈ s.stage.unrecorded, y.OnRecord key ∨ key ∈ q.unrecorded)
    (hclear : q.Clear y) : Single ⟨y, q⟩ := by
  refine ⟨?_, hclear, ?_⟩
  · intro key hkey
    have hkey : key ∈ y.opened := hkey
    rw [hopened] at hkey
    rcases h.onRecord key hkey with hold | hrunning
    · exact .inl (hrecord key hold)
    · exact hpassed key hrunning
  · intro call hcall
    have hcall : call ∈ y.calls := hcall
    rw [hcalls] at hcall
    exact h.calls call hcall

/-- What is open is on record where no action runs. -/
theorem Single.all_onRecord (h : Single s) (hnone : s.stage.unrecorded = none) :
    ∀ key ∈ s.store.opened, s.store.OnRecord key := by
  intro key hkey
  rcases h.onRecord key hkey with hrecord | hrunning
  · exact hrecord
  · rw [hnone] at hrunning
    cases hrunning

/-- The in-flight jobs a run finds are on record. -/
theorem Single.find (h : Single s) {gaps : List DataGap} (hi : s.stage = .listing gaps)
    (hfound : ∀ job ∈ s.store.pendingJobs, job.status = .inFlight →
      s.store.OnRecord job.idempotencyKey) :
    Single ⟨s.store.find, .readingProcessedKeys (.begin gaps s.store.pendingJobs)⟩ := by
  refine ⟨?_, rfl, h.calls⟩
  intro key hkey
  rcases List.mem_append.mp hkey with hnew | hold
  · obtain ⟨job, hjob, rfl⟩ := List.mem_map.mp hnew
    obtain ⟨hpending, hflight⟩ := List.mem_filter.mp hjob
    exact .inl (hfound job hpending (by simpa using hflight))
  · exact .inl (h.all_onRecord (by rw [hi]; rfl) key hold)

/-- `executeFinancialAction` is called for a key that is not open. -/
theorem Single.submit (h : Single s) (hi : s.stage = .executing run job rest) :
    Single ⟨s.store.submit job.idempotencyKey, .submitted run job rest⟩ := by
  have hclear := h.clear
  rw [hi] at hclear
  have hnot : job.idempotencyKey ∉ s.store.opened := hclear.fresh job List.mem_cons_self
  obtain ⟨hother, hnodup⟩ := List.nodup_cons.mp hclear.nodup
  refine ⟨?_, ⟨⟨?_, hnodup⟩, hother⟩, ?_⟩
  · intro key hkey
    rcases List.mem_cons.mp hkey with rfl | hold
    · exact .inr rfl
    · exact .inl (h.all_onRecord (by rw [hi]; rfl) key hold)
  · intro other hmem hopen
    rcases List.mem_cons.mp hopen with hsame | hold
    · exact hother (List.mem_map.mpr ⟨other, hmem, hsame⟩)
    · exact hclear.fresh other (List.mem_cons_of_mem _ hmem) hold
  · intro call hcall
    rcases List.mem_cons.mp hcall with rfl | hold
    · exact decide_eq_false hnot
    · exact h.calls call hold

/-- The action failed for certain: its key is no longer open. -/
theorem Single.fail (h : Single s) (hi : s.stage = .submitted run job rest) :
    Single ⟨s.store.fail job.idempotencyKey, .idle⟩ := by
  refine ⟨?_, trivial, h.calls⟩
  intro key hkey
  obtain ⟨hopen, hne⟩ := List.mem_filter.mp hkey
  rcases h.onRecord key hopen with hold | hrunning
  · exact .inl hold
  · rw [hi] at hrunning
    obtain rfl := Option.some.inj hrunning
    simp at hne

/-- A run ends where what it submitted is on record. -/
theorem Single.cut (h : Single s)
    (hrecorded : ∀ key ∈ s.stage.unrecorded, s.store.OnRecord key) : Single ⟨s.store, .idle⟩ :=
  h.keep rfl rfl (fun _ hold => hold) (fun key hkey => .inl (hrecorded key hkey)) trivial

theorem onRecord_recordKey (h : x.OnRecord key) {other : String} :
    (x.recordIdempotencyKey other).OnRecord key :=
  h.imp_left fun hprocessed => List.mem_cons_of_mem _ hprocessed

theorem onRecord_recordAction (h : x.OnRecord key) :
    (x.recordExecutedTransaction job hash).OnRecord key :=
  h.imp_right fun hrest => hrest.imp_left fun hrecorded => List.mem_cons_of_mem _ hrecorded

/-- Phase 4 and the gate. -/
theorem Single.gate (h : Single s) (hi : s.stage = .reconciling run) (gaps : List DataGap) :
    Single ⟨s.store, gate { run with unresolvedGaps := gaps ++ run.unresolvedGaps }⟩ := by
  have hclear := h.clear
  rw [hi] at hclear
  apply h.keep rfl rfl (fun _ hold => hold) (by rw [hi]; nofun)
  unfold Recovery.gate
  split_ifs
  · exact clear_block
  · exact clear_execute (hclear.1.unopened hclear.2)

/-- The next job of the deduplication loop is looked at. -/
theorem Single.loop (h : Single s) (hopened : y.opened = s.store.opened)
    (hcalls : y.calls = s.store.calls)
    (hrecord : ∀ key, s.store.OnRecord key → y.OnRecord key)
    (hnone : s.stage.unrecorded = none) (hbatch : Batch run)
    (hfound : ∀ key ∈ s.store.opened, run.Found key) :
    Single ⟨y, run.deduplicate config rest⟩ := by
  refine h.keep hopened hcalls hrecord ?_ (clear_deduplicate hbatch ?_)
  · rw [hnone]
    nofun
  · rw [hopened]
    exact hfound

/-- A call that returns without a value. -/
theorem Single.ok (h : Single s) (hok : Undisturbed s (.act .ok))
    (hstep : step config s.store s.stage .ok = some (x, q)) : Single ⟨x, q⟩ := by
  have hclear := h.clear
  have hrecords := h.all_onRecord
  cases hi : s.stage with
  | listing gaps =>
    rw [hi] at hstep
    obtain ⟨rfl, rfl⟩ := Prod.mk.inj (Option.some.inj hstep)
    exact h.find hi (hok (by rw [hi]; rfl))
  | readingProcessedKeys run =>
    rw [hi] at hstep hrecords hclear
    obtain ⟨rfl, rfl⟩ := Prod.mk.inj (Option.some.inj hstep)
    exact h.keep rfl rfl (fun _ hold => hold) (by rw [hi]; nofun) ⟨hclear, hrecords rfl⟩
  | readingRecordedKeys run =>
    rw [hi] at hstep hclear
    obtain ⟨rfl, rfl⟩ := Prod.mk.inj (Option.some.inj hstep)
    exact h.keep rfl rfl (fun _ hold => hold) (by rw [hi]; nofun) hclear
  | readingRecordedHashes run =>
    rw [hi] at hstep hclear
    obtain ⟨rfl, rfl⟩ := Prod.mk.inj (Option.some.inj hstep)
    exact h.keep rfl rfl (fun _ hold => hold) (by rw [hi]; nofun) hclear
  | readingConfirmed run =>
    rw [hi] at hstep hclear
    obtain ⟨rfl, rfl⟩ := Prod.mk.inj (Option.some.inj hstep)
    exact h.loop rfl rfl (fun _ hold => hold) (by rw [hi]; rfl) (.empty hclear.1) hclear.2
  | rejecting run job rest =>
    rw [hi] at hstep hclear
    obtain ⟨rfl, rfl⟩ := Prod.mk.inj (Option.some.inj hstep)
    exact h.loop rfl rfl (fun _ hold => hold) (by rw [hi]; rfl) hclear.1 hclear.2
  | skipping run job rest =>
    rw [hi] at hstep hclear
    obtain ⟨rfl, rfl⟩ := Prod.mk.inj (Option.some.inj hstep)
    exact h.keep rfl rfl (fun _ hold => hold) (by rw [hi]; nofun) hclear
  | recordingDuplicate run job rest =>
    rw [hi] at hstep hclear
    obtain ⟨rfl, rfl⟩ := Prod.mk.inj (Option.some.inj hstep)
    have hloop : Single ⟨s.store.recordIdempotencyKey job.idempotencyKey,
        run.deduplicate config rest⟩ :=
      h.loop rfl rfl (fun _ hold => onRecord_recordKey hold) (by rw [hi]; rfl) hclear.1 hclear.2
    split
    · split_ifs
      · exact hloop
      · exact h.keep rfl rfl (fun _ hold => onRecord_recordKey hold) (by rw [hi]; nofun) hclear
    · exact hloop
  | storingDuplicate run job hash rest =>
    rw [hi] at hstep hclear
    obtain ⟨rfl, rfl⟩ := Prod.mk.inj (Option.some.inj hstep)
    exact h.loop rfl rfl (fun _ hold => onRecord_recordAction hold) (by rw [hi]; rfl) hclear.1
      hclear.2
  | blocking job rest =>
    rw [hi] at hstep
    obtain ⟨rfl, rfl⟩ := Prod.mk.inj (Option.some.inj hstep)
    exact h.keep rfl rfl (fun _ hold => hold) (by rw [hi]; nofun) clear_block
  | executing run job rest =>
    rw [hi] at hstep
    obtain ⟨rfl, rfl⟩ := Prod.mk.inj (Option.some.inj hstep)
    exact h.submit hi
  | recordingKey run job hash rest =>
    rw [hi] at hstep hclear
    obtain ⟨rfl, rfl⟩ := Prod.mk.inj (Option.some.inj hstep)
    refine h.keep rfl rfl (fun _ hold => onRecord_recordKey hold) ?_ hclear
    intro key hkey
    rw [hi] at hkey
    obtain rfl := Option.some.inj hkey
    exact .inl (.inl List.mem_cons_self)
  | confirming run job hash rest =>
    rw [hi] at hstep hclear
    obtain ⟨rfl, rfl⟩ := Prod.mk.inj (Option.some.inj hstep)
    exact h.keep rfl rfl (fun _ hold => hold) (by rw [hi]; nofun) hclear
  | storing run job hash rest =>
    rw [hi] at hstep hclear
    obtain ⟨rfl, rfl⟩ := Prod.mk.inj (Option.some.inj hstep)
    exact h.keep rfl rfl (fun _ hold => onRecord_recordAction hold) (by rw [hi]; nofun)
      (clear_execute hclear)
  | finishing run =>
    rw [hi] at hstep
    obtain ⟨rfl, rfl⟩ := Prod.mk.inj (Option.some.inj hstep)
    exact h.keep rfl rfl (fun _ hold => hold) (by rw [hi]; nofun) trivial
  | _ =>
    rw [hi] at hstep
    cases hstep

/-- One call of a run. -/
theorem Single.act (h : Single s) {o : Outcome} (hok : Undisturbed s (.act o))
    (hstep : step config s.store s.stage o = some (x, q)) : Single ⟨x, q⟩ := by
  have hclear := h.clear
  cases o with
  | start =>
    simp only [step] at hstep
    split_ifs at hstep with hended
    obtain ⟨rfl, rfl⟩ := Prod.mk.inj (Option.some.inj hstep)
    refine h.keep rfl rfl (fun _ hold => hold) ?_ trivial
    intro key hkey
    cases hi : s.stage <;> rw [hi] at hkey hended <;> simp_all [Stage.unrecorded, Stage.ended]
  | cut =>
    simp only [step] at hstep
    split_ifs at hstep
    obtain ⟨rfl, rfl⟩ := Prod.mk.inj (Option.some.inj hstep)
    exact h.cut hok
  | found gaps =>
    cases hi : s.stage with
    | connecting =>
      rw [hi] at hstep
      obtain ⟨rfl, rfl⟩ := Prod.mk.inj (Option.some.inj hstep)
      exact h.keep rfl rfl (fun _ hold => hold) (by rw [hi]; nofun) trivial
    | reconciling run =>
      rw [hi] at hstep
      obtain ⟨rfl, rfl⟩ := Prod.mk.inj (Option.some.inj hstep)
      exact h.gate hi gaps
    | _ =>
      rw [hi] at hstep
      cases hstep
  | executed hash =>
    cases hi : s.stage with
    | submitted run job rest =>
      rw [hi] at hstep hclear
      obtain ⟨rfl, rfl⟩ := Prod.mk.inj (Option.some.inj hstep)
      exact h.keep rfl rfl (fun _ hold => hold) (by rw [hi]; exact fun _ hkey => .inr hkey)
        hclear.1
    | _ =>
      rw [hi] at hstep
      cases hstep
  | failed =>
    cases hi : s.stage with
    | submitted run job rest =>
      rw [hi] at hstep
      obtain ⟨rfl, rfl⟩ := Prod.mk.inj (Option.some.inj hstep)
      exact h.fail hi
    | _ =>
      rw [hi] at hstep
      cases hstep
  | ok => exact h.ok hok hstep

theorem Single.world (h : Single s) {c : Change} (hc : around s.store c = some x) :
    Single ⟨x, s.stage⟩ := by
  have hgrows := grows_around hc
  obtain ⟨hprocessed, hrecords, -, -, hcalls, hopened⟩ := around_frame hc
  refine ⟨?_, h.clear.mono hopened ?_ hgrows, ?_⟩
  · intro key hkey
    refine (h.onRecord key (hopened key hkey)).imp_left ?_
    rintro (hprocess | hrecord | hconfirmed)
    · exact .inl (by rw [hprocessed]; exact hprocess)
    · exact .inr (.inl (by rw [hrecords]; exact hrecord))
    · exact .inr (.inr (hgrows key hconfirmed))
  · rw [hrecords]
    exact fun _ hkey => hkey
  · intro call hcall
    have hcall : call ∈ x.calls := hcall
    rw [hcalls] at hcall
    exact h.calls call hcall

/-- While every in-flight job that is found is on record, and runs end only with their submissions
    on record, `executeFinancialAction` is never called for an open key. -/
theorem never_repeated_when_undisturbed (hs : Fresh s) (h : Reaches config Undisturbed s t) :
    ∀ call ∈ t.store.calls, call.2 = false := by
  have ht : Single t := by
    apply h.invariant
    · refine ⟨?_, ?_, ?_⟩
      · rw [hs.opened]
        nofun
      · rw [hs.stage]
        trivial
      · rw [hs.calls]
        nofun
    · intro s o x p hok hs hstep
      exact hs.act hok hstep
    · intro s c x hs hc
      exact hs.world hc
  exact ht.calls

/-! ## No action is lost -/

/-- What a run has found has happened. Each of its jobs is still to be looked at or has happened or
    is ready, unless there is a gap. -/
structure Honest (x : Store) (run : Run) (rest : List QueuedFinancialTransaction) : Prop where
  found : ∀ key, run.Found key → x.Happened key
  covered : ∀ job ∈ run.pendingJobs, job ∈ rest ∨ run.unresolvedGaps ≠ [] ∨
    x.Happened job.idempotencyKey ∨
      job.idempotencyKey ∈ run.readyToExecute.map (·.idempotencyKey)

/-- Each job of a run has happened or is among the rest. -/
def Settled (x : Store) (run : Run) (rest : List QueuedFinancialTransaction) : Prop :=
  ∀ job ∈ run.pendingJobs, x.Happened job.idempotencyKey ∨
    job.idempotencyKey ∈ rest.map (·.idempotencyKey)

/-- What a stage knows of the actions that have happened. -/
def Stage.Faithful (x : Store) : Stage → Prop
  | readingRecordedKeys run => ∀ key ∈ run.reads.redisProcessedKeys, x.Happened key
  | readingRecordedHashes run => ∀ key,
      key ∈ run.reads.redisProcessedKeys ∨ key ∈ run.reads.dbRecordedKeys → x.Happened key
  | readingConfirmed run => ∀ key,
      key ∈ run.reads.redisProcessedKeys ∨ key ∈ run.reads.dbRecordedKeys → x.Happened key
  | rejecting run _ rest => Honest x run rest
  | skipping run job rest => Honest x run (job :: rest)
  | recordingDuplicate run job rest => Honest x run rest ∧ run.Found job.idempotencyKey
  | storingDuplicate run job _ rest => Honest x run rest ∧ run.Found job.idempotencyKey
  | reconciling run => Honest x run []
  | executing run job rest => Settled x run (job :: rest)
  | submitted run job rest => Settled x run (job :: rest)
  | recordingKey run job _ rest => x.Happened job.idempotencyKey ∧ Settled x run rest
  | confirming run job _ rest => x.Happened job.idempotencyKey ∧ Settled x run rest
  | storing run job _ rest => x.Happened job.idempotencyKey ∧ Settled x run rest
  | finishing run => Settled x run []
  | recovered run => Settled x run []
  | _ => True

/-- What is on record, and every job marked as done, has happened. -/
structure Truthful (s : System) : Prop where
  processed : ∀ key ∈ s.store.processed, s.store.Happened key
  records : ∀ key ∈ s.store.records.map Prod.fst, s.store.Happened key
  retired : ∀ key ∈ s.store.retired, s.store.Happened key
  faithful : s.stage.Faithful s.store

theorem Honest.mono (h : Honest x run rest) (hhappened : ∀ key, x.Happened key → y.Happened key) :
    Honest y run rest := by
  refine ⟨fun key hkey => hhappened key (h.found key hkey), fun job hjob => ?_⟩
  exact (h.covered job hjob).imp_right fun hrest =>
    hrest.imp_right fun hdone => hdone.imp_left (hhappened _)

theorem Settled.mono (h : Settled x run rest)
    (hhappened : ∀ key, x.Happened key → y.Happened key) : Settled y run rest :=
  fun job hjob => (h job hjob).imp_left (hhappened _)

/-- What has happened stays so, and a stage stays faithful. -/
theorem Stage.Faithful.mono (h : p.Faithful x)
    (hhappened : ∀ key, x.Happened key → y.Happened key) : p.Faithful y := by
  cases p with
  | readingRecordedKeys run => exact fun key hkey => hhappened key (h key hkey)
  | readingRecordedHashes run => exact fun key hkey => hhappened key (h key hkey)
  | readingConfirmed run => exact fun key hkey => hhappened key (h key hkey)
  | rejecting run job rest => exact Honest.mono h hhappened
  | skipping run job rest => exact Honest.mono h hhappened
  | recordingDuplicate run job rest => exact ⟨h.1.mono hhappened, h.2⟩
  | storingDuplicate run job hash rest => exact ⟨h.1.mono hhappened, h.2⟩
  | reconciling run => exact Honest.mono h hhappened
  | executing run job rest => exact Settled.mono h hhappened
  | submitted run job rest => exact Settled.mono h hhappened
  | recordingKey run job hash rest => exact ⟨hhappened _ h.1, h.2.mono hhappened⟩
  | confirming run job hash rest => exact ⟨hhappened _ h.1, h.2.mono hhappened⟩
  | storing run job hash rest => exact ⟨hhappened _ h.1, h.2.mono hhappened⟩
  | finishing run => exact Settled.mono h hhappened
  | recovered run => exact Settled.mono h hhappened
  | _ => trivial

/-- A call that records no key and marks no job as done. -/
theorem Truthful.keep (h : Truthful s) (hprocessed : y.processed = s.store.processed)
    (hrecords : y.records = s.store.records) (hretired : y.retired = s.store.retired)
    (hhappened : ∀ key, s.store.Happened key → y.Happened key) (hq : q.Faithful y) :
    Truthful ⟨y, q⟩ := by
  refine ⟨?_, ?_, ?_, hq⟩
  · intro key hkey
    have hkey : key ∈ y.processed := hkey
    rw [hprocessed] at hkey
    exact hhappened key (h.processed key hkey)
  · intro key hkey
    have hkey : key ∈ y.records.map Prod.fst := hkey
    rw [hrecords] at hkey
    exact hhappened key (h.records key hkey)
  · intro key hkey
    have hkey : key ∈ y.retired := hkey
    rw [hretired] at hkey
    exact hhappened key (h.retired key hkey)

/-- A key is recorded whose action has happened. -/
theorem Truthful.recordKey (h : Truthful s) (hkey : s.store.Happened key)
    (hq : q.Faithful s.store) : Truthful ⟨s.store.recordIdempotencyKey key, q⟩ := by
  refine ⟨?_, h.records, h.retired, hq.mono fun _ hold => hold⟩
  intro other hother
  rcases List.mem_cons.mp hother with rfl | hold
  · exact hkey
  · exact h.processed other hold

theorem Truthful.recordAction (h : Truthful s) (hkey : s.store.Happened job.idempotencyKey)
    (hq : q.Faithful s.store) : Truthful ⟨s.store.recordExecutedTransaction job hash, q⟩ := by
  refine ⟨h.processed, ?_, h.retired, hq.mono fun _ hold => hold⟩
  intro other hother
  rcases List.mem_cons.mp hother with rfl | hold
  · exact hkey
  · exact h.records other hold

/-- A job is marked as done whose action has happened. -/
theorem Truthful.retire (h : Truthful s) {status : QueuedTransactionStatus}
    (hkey : s.store.Happened job.idempotencyKey) (hq : q.Faithful s.store) :
    Truthful ⟨s.store.retire job status hash, q⟩ := by
  refine ⟨h.processed, h.records, ?_, hq.mono fun _ hold => hold⟩
  intro other hother
  rcases List.mem_cons.mp hother with rfl | hold
  · exact hkey
  · exact h.retired other hold

/-- The deduplication loop stops at a call with every job accounted for. -/
theorem faithful_deduplicate (h : Honest x run jobs) :
    (run.deduplicate config jobs).Faithful x := by
  induction jobs generalizing run with
  | nil => exact h
  | cons job rest ih =>
    have hgap : ∀ gap, Honest x { run with unresolvedGaps := gap :: run.unresolvedGaps } rest :=
      fun gap => ⟨h.found, fun _ _ => .inr (.inl nofun)⟩
    unfold Run.deduplicate
    cases validateQueuedTransaction job config with
    | some gap => exact hgap gap
    | none =>
      by_cases hduplicate : run.Duplicate job
      · simp only [if_pos hduplicate]
        exact h
      · simp only [if_neg hduplicate]
        split_ifs
        · exact hgap _
        · apply ih
          refine ⟨h.found, fun other hother => ?_⟩
          rw [List.map_append]
          rcases h.covered other hother with hrest | hgaps | hhappened | hready
          · rcases List.mem_cons.mp hrest with rfl | hrest
            · exact .inr (.inr (.inr (List.mem_append_right _ List.mem_cons_self)))
            · exact .inl hrest
          · exact .inr (.inl hgaps)
          · exact .inr (.inr (.inl hhappened))
          · exact .inr (.inr (.inr (List.mem_append_left _ hready)))

theorem faithful_block : (block jobs).Faithful x := by
  cases jobs <;> trivial

theorem faithful_execute (h : Settled x run jobs) : (execute run jobs).Faithful x := by
  cases jobs with
  | nil => exact h
  | cons job rest => exact h

/-- Without a gap every job has happened or is ready. -/
theorem Honest.gate (h : Honest x run []) (gaps : List DataGap) :
    (gate { run with unresolvedGaps := gaps ++ run.unresolvedGaps }).Faithful x := by
  unfold Recovery.gate
  split_ifs with hgaps
  · exact faithful_block
  · apply faithful_execute
    intro job hjob
    obtain ⟨-, hnone⟩ := List.append_eq_nil_iff.mp (not_not.mp hgaps)
    rcases h.covered job hjob with hrest | hsome | hdone
    · cases hrest
    · exact absurd hnone hsome
    · exact hdone

/-- A call that returns without a value. -/
theorem Truthful.ok (h : Truthful s) (hok : Proper s (.act .ok))
    (hstep : step config s.store s.stage .ok = some (x, q)) : Truthful ⟨x, q⟩ := by
  have hfaithful := h.faithful
  cases hi : s.stage with
  | listing gaps =>
    rw [hi] at hstep
    obtain ⟨rfl, rfl⟩ := Prod.mk.inj (Option.some.inj hstep)
    exact h.keep rfl rfl rfl (fun _ hold => hold) trivial
  | readingProcessedKeys run =>
    rw [hi] at hstep
    obtain ⟨rfl, rfl⟩ := Prod.mk.inj (Option.some.inj hstep)
    exact h.keep rfl rfl rfl (fun _ hold => hold) h.processed
  | readingRecordedKeys run =>
    rw [hi] at hstep hfaithful
    obtain ⟨rfl, rfl⟩ := Prod.mk.inj (Option.some.inj hstep)
    refine h.keep rfl rfl rfl (fun _ hold => hold) ?_
    rintro key (hprocessed | hrecorded)
    · exact hfaithful key hprocessed
    · exact h.records key hrecorded
  | readingRecordedHashes run =>
    rw [hi] at hstep hfaithful
    obtain ⟨rfl, rfl⟩ := Prod.mk.inj (Option.some.inj hstep)
    exact h.keep rfl rfl rfl (fun _ hold => hold) hfaithful
  | readingConfirmed run =>
    rw [hi] at hstep hfaithful
    obtain ⟨rfl, rfl⟩ := Prod.mk.inj (Option.some.inj hstep)
    refine h.keep rfl rfl rfl (fun _ hold => hold) (faithful_deduplicate ⟨?_, fun _ => .inl⟩)
    rintro key (hprocessed | hrecorded | hconfirmed)
    · exact hfaithful key (.inl hprocessed)
    · exact hfaithful key (.inr hrecorded)
    · exact .inr hconfirmed
  | rejecting run job rest =>
    rw [hi] at hstep hfaithful
    obtain ⟨rfl, rfl⟩ := Prod.mk.inj (Option.some.inj hstep)
    have hhonest : Honest (s.store.markJobStatus job .blocked none) run rest :=
      Honest.mono hfaithful fun _ hold => hold
    exact h.keep rfl rfl rfl (fun _ hold => hold) (faithful_deduplicate hhonest)
  | skipping run job rest =>
    have hfound : run.Found job.idempotencyKey := hok (run, job) (by rw [hi]; rfl)
    rw [hi] at hstep hfaithful
    obtain ⟨rfl, rfl⟩ := Prod.mk.inj (Option.some.inj hstep)
    have hhonest : Honest s.store run (job :: rest) := hfaithful
    refine h.retire (hhonest.found _ hfound) ⟨⟨hhonest.found, ?_⟩, hfound⟩
    intro other hother
    rcases hhonest.covered other hother with hrest | hdone
    · rcases List.mem_cons.mp hrest with rfl | hrest
      · exact .inr (.inr (.inl (hhonest.found _ hfound)))
      · exact .inl hrest
    · exact .inr hdone
  | recordingDuplicate run job rest =>
    rw [hi] at hstep hfaithful
    obtain ⟨rfl, rfl⟩ := Prod.mk.inj (Option.some.inj hstep)
    obtain ⟨hhonest, hfound⟩ := hfaithful
    refine h.recordKey (hhonest.found _ hfound) ?_
    split
    · split_ifs
      · exact faithful_deduplicate hhonest
      · exact ⟨hhonest, hfound⟩
    · exact faithful_deduplicate hhonest
  | storingDuplicate run job hash rest =>
    rw [hi] at hstep hfaithful
    obtain ⟨rfl, rfl⟩ := Prod.mk.inj (Option.some.inj hstep)
    obtain ⟨hhonest, hfound⟩ := hfaithful
    exact h.recordAction (hhonest.found _ hfound) (faithful_deduplicate hhonest)
  | blocking job rest =>
    rw [hi] at hstep
    obtain ⟨rfl, rfl⟩ := Prod.mk.inj (Option.some.inj hstep)
    exact h.keep rfl rfl rfl (fun _ hold => hold) faithful_block
  | executing run job rest =>
    rw [hi] at hstep hfaithful
    obtain ⟨rfl, rfl⟩ := Prod.mk.inj (Option.some.inj hstep)
    exact h.keep rfl rfl rfl (fun _ hold => hold) (Settled.mono hfaithful fun _ hold => hold)
  | recordingKey run job hash rest =>
    rw [hi] at hstep hfaithful
    obtain ⟨rfl, rfl⟩ := Prod.mk.inj (Option.some.inj hstep)
    exact h.recordKey hfaithful.1 hfaithful
  | confirming run job hash rest =>
    rw [hi] at hstep hfaithful
    obtain ⟨rfl, rfl⟩ := Prod.mk.inj (Option.some.inj hstep)
    exact h.retire hfaithful.1 hfaithful
  | storing run job hash rest =>
    rw [hi] at hstep hfaithful
    obtain ⟨rfl, rfl⟩ := Prod.mk.inj (Option.some.inj hstep)
    exact h.recordAction hfaithful.1 (faithful_execute hfaithful.2)
  | finishing run =>
    rw [hi] at hstep hfaithful
    obtain ⟨rfl, rfl⟩ := Prod.mk.inj (Option.some.inj hstep)
    exact h.keep rfl rfl rfl (fun _ hold => hold) hfaithful
  | _ =>
    rw [hi] at hstep
    cases hstep

/-- One call of a run. -/
theorem Truthful.act (h : Truthful s) {o : Outcome} (hok : Proper s (.act o))
    (hstep : step config s.store s.stage o = some (x, q)) : Truthful ⟨x, q⟩ := by
  have hfaithful := h.faithful
  cases o with
  | start =>
    simp only [step] at hstep
    split_ifs at hstep
    obtain ⟨rfl, rfl⟩ := Prod.mk.inj (Option.some.inj hstep)
    exact h.keep rfl rfl rfl (fun _ hold => hold) trivial
  | cut =>
    simp only [step] at hstep
    split_ifs at hstep
    obtain ⟨rfl, rfl⟩ := Prod.mk.inj (Option.some.inj hstep)
    exact h.keep rfl rfl rfl (fun _ hold => hold) trivial
  | found gaps =>
    cases hi : s.stage with
    | connecting =>
      rw [hi] at hstep
      obtain ⟨rfl, rfl⟩ := Prod.mk.inj (Option.some.inj hstep)
      exact h.keep rfl rfl rfl (fun _ hold => hold) trivial
    | reconciling run =>
      rw [hi] at hstep hfaithful
      obtain ⟨rfl, rfl⟩ := Prod.mk.inj (Option.some.inj hstep)
      exact h.keep rfl rfl rfl (fun _ hold => hold) (Honest.gate hfaithful gaps)
    | _ =>
      rw [hi] at hstep
      cases hstep
  | executed hash =>
    cases hi : s.stage with
    | submitted run job rest =>
      rw [hi] at hstep hfaithful
      obtain ⟨rfl, rfl⟩ := Prod.mk.inj (Option.some.inj hstep)
      refine h.keep rfl rfl rfl (fun _ hold => hold.imp_left (List.mem_cons_of_mem _))
        ⟨.inl List.mem_cons_self, ?_⟩
      intro other hother
      rcases hfaithful other hother with hhappened | hrest
      · exact .inl (hhappened.imp_left (List.mem_cons_of_mem _))
      · rcases List.mem_cons.mp hrest with hsame | hrest
        · refine .inl (.inl ?_)
          rw [hsame]
          exact List.mem_cons_self
        · exact .inr hrest
    | _ =>
      rw [hi] at hstep
      cases hstep
  | failed =>
    cases hi : s.stage with
    | submitted run job rest =>
      rw [hi] at hstep
      obtain ⟨rfl, rfl⟩ := Prod.mk.inj (Option.some.inj hstep)
      exact h.keep rfl rfl rfl (fun _ hold => hold) trivial
    | _ =>
      rw [hi] at hstep
      cases hstep
  | ok => exact h.ok hok hstep

theorem Truthful.world (h : Truthful s) {c : Change} (hc : around s.store c = some x) :
    Truthful ⟨x, s.stage⟩ := by
  have hgrows := grows_around hc
  obtain ⟨hprocessed, hrecords, hexecuted, hretired, -, -⟩ := around_frame hc
  have hhappened : ∀ key, s.store.Happened key → x.Happened key := by
    intro key hkey
    unfold Store.Happened
    rw [hexecuted]
    exact hkey.imp_right (hgrows key)
  exact h.keep hprocessed hrecords hretired hhappened (h.faithful.mono hhappened)

/-- While a run skips a job only for the job's own key, a key on record or of a job marked as done
    has happened, and a run that completes leaves no job it found undone. -/
theorem never_lost_when_proper (hidle : s.stage = .idle) (hretired : s.store.retired = [])
    (hrecords : ∀ key, key ∈ s.store.processed ∨ key ∈ s.store.records.map Prod.fst →
      s.store.Happened key)
    (h : Reaches config Proper s t) :
    (∀ key, key ∈ t.store.processed ∨ key ∈ t.store.records.map Prod.fst →
        t.store.Happened key) ∧
      (∀ key ∈ t.store.retired, t.store.Happened key) ∧
      ∀ run, t.stage = .recovered run →
        ∀ job ∈ run.pendingJobs, t.store.Happened job.idempotencyKey := by
  have ht : Truthful t := by
    apply h.invariant
    · refine ⟨fun key hkey => hrecords key (.inl hkey), fun key hkey => hrecords key (.inr hkey),
        ?_, ?_⟩
      · rw [hretired]
        nofun
      · rw [hidle]
        trivial
    · intro s o x p hok hs hstep
      exact hs.act hok hstep
    · intro s c x hs hc
      exact hs.world hc
  refine ⟨?_, ht.retired, ?_⟩
  · rintro key (hprocessed | hrecorded)
    · exact ht.processed key hprocessed
    · exact ht.records key hrecorded
  · intro run hrun job hjob
    have hfaithful := ht.faithful
    rw [hrun] at hfaithful
    rcases hfaithful job hjob with hhappened | hrest
    · exact hhappened
    · cases hrest

namespace Sample

def testnet : RecoveryOrchestratorConfig := ⟨"Test SDF Network ; September 2015", "CVAULT"⟩

/-- A deposit of one unit. -/
def deposit (jobId key : String) (status : QueuedTransactionStatus) : QueuedFinancialTransaction :=
  ⟨jobId, key, .deposit, 10000000, "USDC", testnet.expectedNetworkPassphrase, testnet.contractId,
    "GUSER", .user, status, none⟩

/-- Redis holds the jobs and nothing has run. -/
def stored (jobs : List QueuedFinancialTransaction) : System :=
  ⟨⟨jobs, [], [], fun _ => none, [], [], [], []⟩, .idle⟩

/-- The moves, from there. -/
def history (jobs : List QueuedFinancialTransaction) (moves : List Move) : System :=
  moves.foldl (after testnet) (stored jobs)

/-- A run up to the gate, with the gaps its first phases find and `n` calls of the loop. -/
def upToGate (gaps : List DataGap) (n : ℕ) : List Move :=
  [.act .start, .act (.found gaps)] ++ List.replicate (5 + n) (.act .ok) ++ [.act (.found [])]

/-- A deposit is executed; its key comes again and is skipped. -/
def executedOnce : System :=
  history [deposit "job1" "k1" .queued] (upToGate [] 0 ++
    [.act .ok, .act (.executed "h1"), .act .ok, .act .ok, .act .ok, .act .ok] ++
    [.world (.enqueue (deposit "job2" "k1" .queued))] ++ upToGate [] 2 ++ [.act .ok])

theorem executedOnce_not_repeated : executedOnce.store.calls = [("k1", false)] ∧
    ∀ call ∈ executedOnce.store.calls, call.2 = false := by
  have hreaches : Reaches testnet Undisturbed (stored [deposit "job1" "k1" .queued]) executedOnce :=
    .of_admits (by decide +kernel)
  exact ⟨by decide +kernel, never_repeated_when_undisturbed ⟨rfl, rfl, rfl⟩ hreaches⟩

theorem executedOnce_happened : executedOnce.store.processed = ["k1", "k1"] ∧
    executedOnce.store.Happened "k1" := by
  have hreaches : Reaches testnet Proper (stored [deposit "job1" "k1" .queued]) executedOnce :=
    .of_admits (by decide +kernel)
  have hprocessed : executedOnce.store.processed = ["k1", "k1"] := by decide +kernel
  obtain ⟨hrecords, -, -⟩ := never_lost_when_proper rfl rfl
    (by rintro key (hkey | hkey) <;> cases hkey) hreaches
  exact ⟨hprocessed, hrecords "k1" (.inl (by rw [hprocessed]; exact List.mem_cons_self))⟩

/-- A deposit found in flight is blocked; the next run takes it for a queued one. -/
def inFlight : System :=
  history [deposit "job1" "k1" .inFlight] (upToGate [] 1 ++ upToGate [] 0 ++ [.act .ok])

theorem inFlight_repeated : Fresh (stored [deposit "job1" "k1" .inFlight]) ∧
    Reaches testnet (fun _ _ => True) (stored [deposit "job1" "k1" .inFlight]) inFlight ∧
      inFlight.store.calls = [("k1", true)] :=
  ⟨⟨rfl, rfl, rfl⟩, .of_steps _, by decide +kernel⟩

/-- Two deposits with one key while there is a gap: the second records the key, the first is
    blocked; the next run finds the key and completes. -/
def batch : System :=
  history [deposit "job1" "k1" .queued, deposit "job2" "k1" .queued]
    (upToGate [.missingLedgerEvents] 2 ++ [.act .ok] ++ upToGate [] 2 ++ [.act .ok])

/-- The keys of the jobs of a completed run. -/
def completed : Stage → List String
  | .recovered run => run.pendingJobs.map (·.idempotencyKey)
  | _ => []

theorem batch_lost :
    Reaches testnet (fun _ _ => True)
        (stored [deposit "job1" "k1" .queued, deposit "job2" "k1" .queued]) batch ∧
      batch.store.processed = ["k1", "k1"] ∧ completed batch.stage = ["k1"] ∧
      batch.store.calls = [] ∧ ¬ batch.store.Happened "k1" :=
  ⟨.of_steps _, by decide +kernel, by decide +kernel, by decide +kernel,
    by unfold Store.Happened; decide +kernel⟩

end Sample

end NeuroWealth.Recovery
