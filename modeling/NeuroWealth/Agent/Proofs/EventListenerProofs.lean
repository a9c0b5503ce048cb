import NeuroWealth.Agent.EventListener

/-!
# Completeness of the event index

A poll lists every event from its start ledger up to the latest ledger of its last page and inserts
each deposit and withdrawal before it goes on, so the table is complete up to what is recorded, as
long as a start skips nothing, no insert fails and no last page lags.
-/

namespace NeuroWealth.EventListener

open Interleaving OrderedStream

variable {ι : Type} [DecidableEq ι] {config : Config} {chain : Chain} {checkpoint : ℕ}
  {s : System ι Shared Stage} {x y : Shared} {p q : Stage} {o : Outcome} {poll : Poll} {task : Task}
  {event : EventResponse} {rest : List EventResponse} {n : ℕ}

/-! ## Rows -/

/-- The event has a row, if it is a deposit or a withdrawal after the checkpoint. -/
def Shared.Stored (x : Shared) (checkpoint : ℕ) (event : EventResponse) : Prop :=
  event.type.isSome → checkpoint < event.ledger → x.rows event.id = true

/-- So have all events before the ledger `n`. -/
def Covered (chain : Chain) (checkpoint : ℕ) (x : Shared) (n : ℕ) : Prop :=
  ∀ event ∈ chain.events, event.ledger < n → x.Stored checkpoint event

/-- No row is lost. -/
def Grows (x y : Shared) : Prop := ∀ id, x.rows id = true → y.rows id = true

theorem Grows.stored (h : Grows x y) (hstored : x.Stored checkpoint event) :
    y.Stored checkpoint event :=
  fun htype hlater => h _ (hstored htype hlater)

theorem Covered.grows (h : Covered chain checkpoint x n) (hrows : Grows x y) :
    Covered chain checkpoint y n :=
  fun event hevent hbefore => hrows.stored (h event hevent hbefore)

theorem covered_max {a b : ℕ} (ha : Covered chain checkpoint x a)
    (hb : Covered chain checkpoint x b) :
    Covered chain checkpoint x (max a b) := by
  intro event hevent hbefore
  rcases lt_max_iff.mp hbefore with hless | hless
  · exact ha event hevent hless
  · exact hb event hevent hless

/-- Ledger 0 is not after any checkpoint. -/
theorem covered_one : Covered chain checkpoint x 1 := by
  intro event _ hbefore _ hafter
  omega

theorem logEventToDb_grows (stored : Bool) : Grows x (x.logEventToDb config event stored) := by
  intro id hid
  unfold Shared.logEventToDb
  split_ifs
  · by_cases hsame : id = event.id
    · rw [hsame]
      exact Function.update_self _ _ _
    · rw [← hid]
      exact Function.update_of_ne hsame _ _
  · exact hid

/-- An insert that does not fail leaves a row. -/
theorem logEventToDb_stored {stored : Bool}
    (h : checkpoint < event.ledger → config.databaseUrl = true ∧ stored = true) :
    (x.logEventToDb config event stored).Stored checkpoint event := by
  intro _ hafter
  obtain ⟨hdatabase, hstored⟩ := h hafter
  unfold Shared.logEventToDb
  rw [hdatabase, hstored, Bool.and_self, if_pos rfl]
  exact Function.update_self _ _ _

/-! ## The invariant -/

/-- The table is complete up to what is recorded, and before the start ledger of every interval. -/
structure Kept (chain : Chain) (checkpoint : ℕ) (x : Shared) : Prop where
  recorded : Covered chain checkpoint x (x.lastProcessedLedger + 1)
  started : ∀ interval, Covered chain checkpoint x (x.startLedger interval)

/-- Where the polls have advanced, the table is complete. -/
theorem Kept.covered (h : Kept chain checkpoint x) (hscanned : Scanned chain checkpoint x n) :
    Covered chain checkpoint x (n + 1) := by
  intro event hevent hbefore htype hafter
  obtain ⟨interval, -, hless⟩ := hscanned event hevent htype hafter (Nat.le_of_lt_succ hbefore)
  exact h.started interval event hevent hless htype hafter

/-- What a poll has listed. -/
structure Poll.Sound (poll : Poll) (chain : Chain) (checkpoint : ℕ) (x : Shared) : Prop where
  before : Covered chain checkpoint x poll.start
  listed : ∀ event ∈ chain.events.take poll.position, poll.start ≤ event.ledger →
    event ∈ poll.listed
  scanned : poll.page.length < eventPageLimit → ∀ event ∈ chain.events.drop poll.position,
    poll.pageLatest < event.ledger
  current : poll.page.length < eventPageLimit → Quiet chain poll.pageLatest poll.latestLedger

/-- Every event that the poll has listed is stored or still to be processed. -/
def Poll.Stores (poll : Poll) (checkpoint : ℕ) (x : Shared) (rest : List EventResponse) : Prop :=
  ∀ event ∈ poll.listed, x.Stored checkpoint event ∨ event ∈ rest

def Task.Sound (chain : Chain) (checkpoint : ℕ) (x : Shared) : Task → Prop
  | locating => True
  | polling _ start => Covered chain checkpoint x start
  | logging poll event rest =>
    poll.Sound chain checkpoint x ∧ poll.Stores checkpoint x (event :: rest)
  | handling poll _ rest => poll.Sound chain checkpoint x ∧ poll.Stores checkpoint x rest
  | paging poll => poll.Sound chain checkpoint x ∧ poll.Stores checkpoint x []

def Stage.Sound (chain : Chain) (checkpoint : ℕ) (x : Shared) : Stage → Prop
  | running _ task => task.Sound chain checkpoint x
  | _ => True

theorem Poll.Sound.grows (h : poll.Sound chain checkpoint x) (hrows : Grows x y) :
    poll.Sound chain checkpoint y :=
  ⟨h.before.grows hrows, h.listed, h.scanned, h.current⟩

theorem Poll.Stores.grows (h : poll.Stores checkpoint x rest) (hrows : Grows x y) :
    poll.Stores checkpoint y rest := by
  intro event hevent
  rcases h event hevent with hstored | hlater
  · exact .inl (hrows.stored hstored)
  · exact .inr hlater

theorem Stage.Sound.grows (h : p.Sound chain checkpoint x) (hrows : Grows x y) :
    p.Sound chain checkpoint y := by
  cases p with
  | idle => trivial
  | done => trivial
  | running epoch task =>
    cases task with
    | locating => trivial
    | polling interval start => exact Covered.grows h hrows
    | logging poll event rest => exact ⟨h.1.grows hrows, h.2.grows hrows⟩
    | handling poll event rest => exact ⟨h.1.grows hrows, h.2.grows hrows⟩
    | paging poll => exact ⟨h.1.grows hrows, h.2.grows hrows⟩

/-! ## Pages -/

/-- The events before the position of the start ledger are older. -/
theorem firstPage_sound {interval start latestLedger : ℕ} (h : Covered chain checkpoint x start) :
    (firstPage chain interval start latestLedger).Sound chain checkpoint x := by
  have hpage := pageAt_countP chain.ordered start (latestLedger + 1) eventPageLimit
  have htake := take_countP chain.ordered start
  unfold firstPage
  dsimp only
  rw [← hpage]
  refine ⟨h, ?_, ?_, fun _ event _ _ hafter => hafter⟩
  · intro event hevent hstart
    replace hstart : start ≤ event.ledger := hstart
    dsimp only at hevent
    rw [take_pageAt chain.ordered, htake] at hevent
    rcases List.mem_append.mp hevent with hold | hnew
    · have hless := of_decide_eq_true (List.mem_filter.mp hold).2
      omega
    · exact hnew
  · intro hshort event hevent
    exact Nat.lt_of_succ_le (le_of_short_page chain.ordered hshort hevent)

theorem nextPage_sound {latestLedger : ℕ} (h : poll.Sound chain checkpoint x)
    (hcurrent : (poll.nextPage chain latestLedger).page.length < eventPageLimit →
      Quiet chain latestLedger poll.latestLedger) :
    (poll.nextPage chain latestLedger).Sound chain checkpoint x := by
  refine ⟨h.before, ?_, ?_, ?_⟩
  · intro event hevent hstart
    unfold Poll.nextPage at hevent ⊢
    dsimp only at hevent ⊢
    rw [take_pageAt chain.ordered] at hevent
    rcases List.mem_append.mp hevent with hold | hnew
    · exact List.mem_append_left _ (h.listed event hold hstart)
    · exact List.mem_append_right _ hnew
  · intro hshort event hevent
    exact Nat.lt_of_succ_le (le_of_short_page chain.ordered hshort hevent)
  · intro hshort event hevent htype hafter
    exact max_lt (hcurrent hshort event hevent htype hafter) hafter

/-- The events of a new page are still to be processed. -/
theorem nextPage_stores {latestLedger : ℕ} (h : poll.Stores checkpoint x []) :
    (poll.nextPage chain latestLedger).Stores checkpoint x
      (poll.nextPage chain latestLedger).page := by
  intro event hevent
  rcases List.mem_append.mp hevent with hold | hnew
  · rcases h event hold with hstored | hnone
    · exact .inl hstored
    · cases hnone
  · exact .inr hnew

/-- A poll that ends has covered everything up to its greatest latest ledger. -/
theorem covered_of_end (h : poll.Sound chain checkpoint x) (hstores : poll.Stores checkpoint x [])
    (hshort : poll.page.length < eventPageLimit) :
    Covered chain checkpoint x (poll.latestLedger + 1) := by
  intro event hevent hbefore htype hafter
  by_cases hstart : event.ledger < poll.start
  · exact h.before event hevent hstart htype hafter
  · have hsplit := hevent
    rw [← List.take_append_drop poll.position chain.events] at hsplit
    rcases List.mem_append.mp hsplit with hread | hunread
    · rcases hstores event (h.listed event hread (not_lt.mp hstart)) with hstored | hnone
      · exact hstored htype hafter
      · cases hnone
    · have hlater := h.scanned hshort event hunread
      have hbeyond := h.current hshort event hevent htype hlater
      omega

/-! ## Every step -/

/-- What a call leads to. -/
structure Good (chain : Chain) (checkpoint : ℕ) (x : Shared) (z : Shared × Option Task) : Prop where
  kept : Kept chain checkpoint z.1
  sound : ∀ task ∈ z.2, task.Sound chain checkpoint z.1
  grows : Grows x z.1

theorem finish_good (hx : Kept chain checkpoint x) (h : poll.Sound chain checkpoint x)
    (hstores : poll.Stores checkpoint x []) : Good chain checkpoint x (poll.finish x) := by
  unfold Poll.finish
  split_ifs with hshort
  · have hcovered := covered_of_end h hstores hshort
    refine ⟨⟨?_, ?_⟩, nofun, fun id hid => hid⟩
    · have hmax := covered_max hx.recorded hcovered
      rw [Nat.add_max_add_right] at hmax
      exact hmax
    · intro interval
      by_cases hsame : interval = poll.interval
      · rw [hsame]
        simp only [Shared.advance, Shared.recordEventCheckpoint, Function.update_self]
        exact covered_max (hx.started poll.interval) hcovered
      · simp only [Shared.advance, Shared.recordEventCheckpoint, Function.update_of_ne hsame]
        exact hx.started interval
  · cases poll.page.getLast? with
    | none => exact ⟨hx, nofun, fun id hid => hid⟩
    | some last =>
      refine ⟨hx, ?_, fun id hid => hid⟩
      intro task htask
      dsimp only at htask
      split_ifs at htask
      · cases htask
      · obtain rfl := Option.some.inj htask
        exact ⟨h, hstores⟩

/-- Only a deposit or a withdrawal needs a row. -/
theorem Poll.Stores.skip (h : poll.Stores checkpoint x (event :: rest)) (htype : event.type = none) :
    poll.Stores checkpoint x rest := by
  intro other hother
  rcases h other hother with hstored | hlater
  · exact .inl hstored
  · rcases List.mem_cons.mp hlater with rfl | hrest
    · left
      intro hsome
      rw [htype] at hsome
      cases hsome
    · exact .inr hrest

theorem process_good (hx : Kept chain checkpoint x) (h : poll.Sound chain checkpoint x)
    (hstores : poll.Stores checkpoint x rest) :
    Good chain checkpoint x (poll.process x rest) := by
  induction rest with
  | nil => exact finish_good hx h hstores
  | cons event rest ih =>
    unfold Poll.process
    cases htype : event.type with
    | none => exact ih (hstores.skip htype)
    | some type =>
      refine ⟨hx, ?_, fun id hid => hid⟩
      intro task htask
      obtain rfl := Option.some.inj htask
      exact ⟨h, hstores⟩

/-- The interval of a new call starts after what was covered. -/
theorem start_good {sequence : ℕ} (hx : Kept chain checkpoint x)
    (hcovered : Covered chain checkpoint x (sequence + 1)) :
    Good chain checkpoint x ((x.recordEventCheckpoint sequence).setInterval sequence, none) := by
  refine ⟨⟨?_, ?_⟩, nofun, fun id hid => hid⟩
  · have hmax := covered_max hx.recorded hcovered
    rw [Nat.add_max_add_right] at hmax
    exact hmax
  · intro interval
    by_cases hsame : interval = x.intervals
    · rw [hsame]
      simp only [Shared.setInterval, Shared.recordEventCheckpoint, Function.update_self]
      intro event hevent hbefore
      exact hcovered event hevent (Nat.lt_succ_of_lt hbefore)
    · simp only [Shared.setInterval, Shared.recordEventCheckpoint, Function.update_of_ne hsame]
      exact hx.started interval

/-- The event that was inserted is stored. -/
theorem logged_good {stored : Bool} (hx : Kept chain checkpoint x)
    (h : poll.Sound chain checkpoint x) (hstores : poll.Stores checkpoint x (event :: rest))
    (hstored : checkpoint < event.ledger → config.databaseUrl = true ∧ stored = true) :
    Good chain checkpoint x
      (x.logEventToDb config event stored, some (.handling poll event rest)) := by
  have hrows : Grows x (x.logEventToDb config event stored) := logEventToDb_grows stored
  have hsame : (x.logEventToDb config event stored).lastProcessedLedger = x.lastProcessedLedger ∧
      (x.logEventToDb config event stored).startLedger = x.startLedger := by
    unfold Shared.logEventToDb
    split_ifs
    · exact ⟨rfl, rfl⟩
    · exact ⟨rfl, rfl⟩
  refine ⟨⟨?_, ?_⟩, ?_, hrows⟩
  · rw [hsame.1]
    exact hx.recorded.grows hrows
  · intro interval
    rw [hsame.2]
    exact (hx.started interval).grows hrows
  · intro task htask
    obtain rfl := Option.some.inj htask
    refine ⟨h.grows hrows, ?_⟩
    intro other hother
    rcases hstores other hother with hold | hlater
    · exact .inl (hrows.stored hold)
    · rcases List.mem_cons.mp hlater with rfl | hrest
      · exact .inl (logEventToDb_stored hstored)
      · exact .inr hrest

theorem work_good {epoch : ℕ} {z : Shared × Option Task} (hx : Kept chain checkpoint x)
    (h : task.Sound chain checkpoint x)
    (hallowed : Allowed config chain checkpoint x (.running epoch task) o)
    (hwork : work config chain x task o = some z) : Good chain checkpoint x z := by
  have hsame : Good chain checkpoint x (x, none) := ⟨hx, nofun, fun id hid => hid⟩
  cases task with
  | locating =>
    cases o <;> simp only [work, Option.some.injEq, reduceCtorEq] at hwork <;> subst hwork
    · exact start_good hx (hx.covered hallowed)
    · exact hsame
  | polling interval start =>
    cases o <;> simp only [work, Option.some.injEq, reduceCtorEq] at hwork <;> subst hwork
    · exact process_good hx (firstPage_sound h) fun event hevent => .inr hevent
    · refine ⟨hx, ?_, fun id hid => hid⟩
      intro task htask
      obtain rfl := Option.some.inj htask
      exact hx.started interval
    · exact hsame
  | logging poll event rest =>
    cases o <;> simp only [work, Option.some.injEq, reduceCtorEq] at hwork
    subst hwork
    exact logged_good hx h.1 h.2 hallowed
  | handling poll event rest =>
    cases o <;> simp only [work, Option.some.injEq, reduceCtorEq] at hwork <;> subst hwork
    · exact process_good hx h.1 h.2
    · exact hsame
  | paging poll =>
    cases o <;> simp only [work, Option.some.injEq, reduceCtorEq] at hwork <;> subst hwork
    · exact process_good hx (nextPage_sound h.1 hallowed) (nextPage_stores h.2)
    · exact hsame

theorem step_good (hx : Kept chain checkpoint x) (h : p.Sound chain checkpoint x)
    (hallowed : Allowed config chain checkpoint x p o)
    (hstep : step config chain x p o = some (y, q)) :
    Kept chain checkpoint y ∧ q.Sound chain checkpoint y ∧ Grows x y := by
  cases p with
  | idle =>
    cases o <;> simp only [step, Option.some.injEq, Prod.mk.injEq, reduceCtorEq] at hstep
    · obtain ⟨rfl, rfl⟩ := hstep
      refine ⟨hx, ?_, fun id hid => hid⟩
      split_ifs <;> trivial
    · rename_i interval
      split_ifs at hstep
      obtain ⟨rfl, rfl⟩ := Prod.mk.inj (Option.some.inj hstep)
      exact ⟨hx, hx.started interval, fun id hid => hid⟩
  | running epoch task =>
    unfold step at hstep
    dsimp only at hstep
    split_ifs at hstep
    obtain ⟨z, hwork, hz⟩ := Option.map_eq_some_iff.mp hstep
    obtain ⟨rfl, rfl⟩ := Prod.mk.inj hz
    have hgood := work_good hx h hallowed hwork
    refine ⟨hgood.kept, ?_, hgood.grows⟩
    cases hnext : z.2 with
    | none => trivial
    | some task => exact hgood.sound task hnext
  | done => cases o <;> simp [step] at hstep

/-! ## Every run -/

/-- What every state of an undisturbed run keeps. -/
structure Sound (chain : Chain) (checkpoint : ℕ) (s : System ι Shared Stage) : Prop where
  kept : Kept chain checkpoint s.shared
  calls : ∀ i, (s.proc i).Sound chain checkpoint s.shared

omit [DecidableEq ι] in
theorem sound_fresh (rows : String → Bool) :
    Sound chain checkpoint (fresh rows : System ι Shared Stage) where
  kept := by
    refine ⟨covered_one, ?_⟩
    intro interval event _ hbefore
    exact absurd hbefore (Nat.not_lt_zero _)
  calls i := trivial

theorem kept_around {change : Change} (hx : Kept chain checkpoint x)
    (hchange : around x change = some y) : Kept chain checkpoint y ∧ Grows x y := by
  cases change with
  | stopEventListener =>
    unfold around at hchange
    dsimp only at hchange
    split at hchange
    · obtain rfl := Option.some.inj hchange
      exact ⟨hx, fun id hid => hid⟩
    · obtain rfl := Option.some.inj hchange
      exact ⟨⟨hx.recorded, hx.started⟩, fun id hid => hid⟩
  | restart =>
    obtain rfl := Option.some.inj hchange
    exact ⟨⟨covered_one, hx.started⟩, fun id hid => hid⟩

/-- The index is complete after the checkpoint in every run in which each start finds the chain
    where the polls have been, there is a database and no insert fails, and no last page lags. -/
theorem index_complete_when_undisturbed {rows : String → Bool}
    (h : Reaches (rules ι config chain) (Undisturbed config chain checkpoint)
      (fresh rows) s) :
    Complete chain checkpoint s.shared := by
  have hsound : Sound chain checkpoint s := by
    apply Reaches.invariant h (sound_fresh rows)
    · intro t i o y q hok ht hstep
      obtain ⟨hkept, hmover, hgrows⟩ := step_good ht.kept (ht.calls i) hok hstep
      refine ⟨hkept, ?_⟩
      exact System.put_forall (P := fun _ (p : Stage) => p.Sound chain checkpoint y) hmover
        fun j _ => (ht.calls j).grows hgrows
    · intro t change y _ ht hchange
      obtain ⟨hkept, hgrows⟩ := kept_around ht.kept hchange
      exact ⟨hkept, fun i => (ht.calls i).grows hgrows⟩
  intro event hevent htype hafter hrecorded
  exact hsound.kept.recorded event hevent (Nat.lt_succ_of_le hrecorded) htype hafter

namespace Sample

def environment : Config := ⟨"C", true⟩

/-- A deposit of ledger 7, an event of another kind, and a withdrawal of ledger 9. -/
def vault : Chain where
  events := [⟨"a", 7, ["deposit", "G"], "1"⟩, ⟨"b", 8, ["rebalance"], "2"⟩,
    ⟨"c", 9, ["withdraw", "G"], "3"⟩]
  ordered := by unfold Ordered; decide

def start : System ℕ Shared Stage := fresh fun _ => false

/-- Two overlapping polls index both events; then the listener is restarted at ledger 9. -/
def indexed : List (Move ℕ Outcome Change) :=
  [.act 0 (.startEventListener (some 5)), .act 0 (.latest 5), .act 1 (.tick 0), .act 2 (.tick 0),
    .act 1 (.page 8), .act 1 (.logged true), .act 2 (.page 9), .act 1 .handled,
    .act 2 (.logged true), .act 2 .handled, .act 2 (.logged true), .act 2 .handled, .world .restart,
    .act 3 (.startEventListener (some 9)), .act 3 (.latest 9)]

theorem indexed_complete :
    Complete vault 5 (indexed.foldl (rules ℕ environment vault).after start).shared :=
  index_complete_when_undisturbed (.of_admits (by decide +kernel))

/-- The listener is restarted from ledger 5 when the chain is at ledger 8. -/
def ignored : List (Move ℕ Outcome Change) :=
  [.act 0 (.startEventListener (some 5)), .act 0 (.latest 8)]

/-- The insert of the deposit fails, and the poll goes on. -/
def swallowed : List (Move ℕ Outcome Change) :=
  [.act 0 (.startEventListener (some 5)), .act 0 (.latest 5), .act 1 (.tick 0), .act 1 (.page 8),
    .act 1 (.logged false), .act 1 .handled]

theorem ignored_and_swallowed :
    (∀ moves ∈ [ignored, swallowed],
        (moves.foldl (rules ℕ environment vault).after start).shared.lastProcessedLedger = 8 ∧
        (moves.foldl (rules ℕ environment vault).after start).shared.rows "a" = false) ∧
      ¬ Complete vault 5 (ignored.foldl (rules ℕ environment vault).after start).shared := by
  refine ⟨by decide +kernel, ?_⟩
  intro h
  have hrow := h ⟨"a", 7, ["deposit", "G"], "1"⟩ (by decide +kernel) (by decide +kernel) (by decide)
    (by decide +kernel)
  revert hrow
  decide +kernel

end Sample

end NeuroWealth.EventListener
