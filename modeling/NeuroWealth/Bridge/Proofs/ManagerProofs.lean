import NeuroWealth.Bridge.Manager

/-!
# The lifecycle of a transfer

The status of a transfer follows from the latest call on it or answer about it. All its submissions
but the newest are dead, as long as the calls on a transfer come in order and Axelar's answers are
true.
-/

namespace NeuroWealth.Bridge

open Interleaving

variable {ι : Type} [DecidableEq ι] {config : BridgeConfig} {s : System ι Shared Stage}
  {x y : Shared} {p q : Stage} {o : Outcome} {id other : String}
  {transfer before after : StoredBridgeTransfer}

/-! ## Submissions -/

theorem mem_of_mem_modify {α : Type} {a : α} {f : α → α} (hf : ∀ b, f b = a → b = a)
    (l : List α) (position : ℕ) (h : a ∈ l.modify position f) : a ∈ l := by
  induction l generalizing position with
  | nil => simp at h
  | cons b rest ih =>
    cases position with
    | zero =>
      rw [List.modify_zero_cons] at h
      rcases List.mem_cons.mp h with hfirst | hrest
      · rw [hf b hfirst.symm]
        exact List.mem_cons_self
      · exact List.mem_cons_of_mem _ hrest
    | succ position =>
      rw [List.modify_succ_cons] at h
      rcases List.mem_cons.mp h with rfl | hrest
      · exact List.mem_cons_self
      · exact List.mem_cons_of_mem _ (ih position hrest)

theorem settle_live {executes : Bool} {state : SubmissionState}
    (h : state.settle executes = .live) : state = .live := by
  cases state with
  | live => rfl
  | executed => cases h
  | dead => cases h

/-- The dead stay dead. -/
theorem modify_settle_eq {executes : Bool} {l : List SubmissionState}
    (hdead : ∀ state ∈ l, state = .dead) (position : ℕ) :
    l.modify position (SubmissionState.settle executes) = l := by
  induction l generalizing position with
  | nil => cases position <;> rfl
  | cons a rest ih =>
    cases position with
    | zero =>
      rw [List.modify_zero_cons, hdead a List.mem_cons_self]
      rfl
    | succ position =>
      have hrest : ∀ state ∈ rest, state = .dead :=
        fun state hstate => hdead state (List.mem_cons_of_mem _ hstate)
      rw [List.modify_succ_cons, ih hrest]

/-- All submissions but the newest are dead. -/
theorem tail_modify_settle {executes : Bool} {l : List SubmissionState}
    (hdead : ∀ state ∈ l.tail, state = .dead) (position : ℕ) :
    (l.modify position (SubmissionState.settle executes)).tail = l.tail := by
  cases l with
  | nil => cases position <;> rfl
  | cons a rest =>
    cases position with
    | zero => rfl
    | succ position => exact modify_settle_eq hdead position

theorem head?_modify_settle {executes : Bool} {l : List SubmissionState} {state : SubmissionState}
    (hstate : state.settle executes = state) (hhead : l.head? = some state) (position : ℕ) :
    (l.modify position (SubmissionState.settle executes)).head? = some state := by
  cases l with
  | nil => cases hhead
  | cons a rest =>
    obtain rfl := Option.some.inj hhead
    cases position with
    | zero => exact congrArg some hstate
    | succ position => rfl

theorem all_dead {l : List SubmissionState} (hhead : l.head? = some .dead)
    (htail : ∀ state ∈ l.tail, state = .dead) : ∀ state ∈ l, state = .dead := by
  cases l with
  | nil => nofun
  | cons a rest =>
    obtain rfl := Option.some.inj hhead
    intro state hstate
    rcases List.mem_cons.mp hstate with rfl | hrest
    · rfl
    · exact htail state hrest

/-! ## The invariant -/

/-- The status and the submissions of a transfer agree with what was last heard of it. -/
def Latest.Agrees (transfer : StoredBridgeTransfer) (submissions : List SubmissionState) :
    Latest → Prop
  | opened => transfer.status = .pending ∧ ∀ state ∈ submissions, state = .dead
  | posting => transfer.status = .pending
  | accepted => transfer.status = .confirming
  | failed => transfer.status = .failed ∧ ∀ state ∈ submissions, state = .dead
  | executed => transfer.status = .confirmed ∧ submissions.head? = some .executed
  | cancelled => transfer.status = .cancelled ∧ .live ∉ submissions

/-- What every state of an undisturbed run keeps. -/
structure Sound (x : Shared) : Prop where
  lawful : ∀ e ∈ x.log, e.Lawful
  settled : ∀ id, ∀ state ∈ (x.submissions id).tail, state = .dead
  agrees : ∀ id transfer, x.bridgeTransfers id = some transfer →
    ∃ latest ∈ x.latest id, latest.Agrees transfer (x.submissions id)
  retries : ∀ id transfer, x.bridgeTransfers id = some transfer → 0 ≤ transfer.retriesRemaining ∧
    (x.log.countP (Event.retries id) : ℤ) + transfer.retriesRemaining = 3
  unknown : ∀ id, x.bridgeTransfers id = none →
    x.log.countP (Event.retries id) = 0 ∧ x.submissions id = [] ∧ x.latest id = none

omit [DecidableEq ι] in
theorem sound_fresh (clock : ℕ) : Sound (fresh clock : System ι Shared Stage).shared where
  lawful e he := by simp [fresh] at he
  settled id state hstate := by simp [fresh] at hstate
  agrees id transfer hget := by simp [fresh] at hget
  retries id transfer hget := by simp [fresh] at hget
  unknown id hnone := by simp [fresh]

/-- What was last heard of a transfer. -/
theorem Sound.agrees_of {latest : Latest} (h : Sound x)
    (hget : x.bridgeTransfers id = some transfer) (hlatest : x.latest id = some latest) :
    latest.Agrees transfer (x.submissions id) := by
  obtain ⟨other, hother, hagrees⟩ := h.agrees id transfer hget
  obtain rfl : latest = other := Option.some.inj (hlatest.symm.trans hother)
  exact hagrees

theorem Sound.orderly (h : Sound x) : Orderly x := by
  refine ⟨h.lawful, ?_, ?_, ?_⟩
  · intro id
    have htail : ((x.submissions id).tail).countP (· = .executed) = 0 := by
      rw [List.countP_eq_zero]
      intro state hstate
      simp [h.settled id state hstate]
    cases hall : x.submissions id with
    | nil => simp
    | cons newest older =>
      rw [hall, List.tail_cons] at htail
      rw [List.countP_cons, htail]
      split_ifs <;> omega
  · intro id transfer hget hcancelled
    obtain ⟨latest, -, hagrees⟩ := h.agrees id transfer hget
    cases latest with
    | cancelled => exact hagrees.2
    | posting =>
      rw [show transfer.status = .pending from hagrees] at hcancelled
      cases hcancelled
    | accepted =>
      rw [show transfer.status = .confirming from hagrees] at hcancelled
      cases hcancelled
    | _ =>
      rw [hagrees.1] at hcancelled
      cases hcancelled
  · intro id
    cases hget : x.bridgeTransfers id with
    | none =>
      rw [(h.unknown id hget).1]
      omega
    | some transfer =>
      obtain ⟨hnonneg, hsum⟩ := h.retries id transfer hget
      omega

/-- A new pending transfer with all its retries. -/
theorem Sound.put (h : Sound x) (hnew : x.bridgeTransfers transfer.id = none)
    (hpending : transfer.status = .pending) (hretries : transfer.retriesRemaining = 3) :
    Sound (x.put transfer) := by
  obtain ⟨hnone, hempty, -⟩ := h.unknown _ hnew
  have hother : ∀ {id t}, (x.put transfer).bridgeTransfers id = some t →
      id = transfer.id ∧ t = transfer ∨ id ≠ transfer.id ∧ x.bridgeTransfers id = some t := by
    intro id t ht
    by_cases hsame : id = transfer.id
    · subst hsame
      simp only [Shared.put, Function.update_self] at ht
      exact .inl ⟨rfl, (Option.some.inj ht).symm⟩
    · simp only [Shared.put, Function.update_of_ne hsame] at ht
      exact .inr ⟨hsame, ht⟩
  refine ⟨h.lawful, h.settled, ?_, ?_, ?_⟩
  · intro id t ht
    rcases hother ht with ⟨rfl, rfl⟩ | ⟨hne, hold⟩
    · refine ⟨.opened, Function.update_self _ _ _, hpending, ?_⟩
      intro state hstate
      rw [show (x.put t).submissions t.id = [] from hempty] at hstate
      cases hstate
    · simp only [Shared.put, Function.update_of_ne hne]
      exact h.agrees id t hold
  · intro id t ht
    rcases hother ht with ⟨rfl, rfl⟩ | ⟨-, hold⟩
    · simp [Shared.put, hnone, hretries]
    · exact h.retries id t hold
  · intro id ht
    by_cases hsame : id = transfer.id
    · subst hsame
      simp [Shared.put] at ht
    · simp only [Shared.put, Function.update_of_ne hsame] at ht ⊢
      exact h.unknown id ht

/-- The status of a transfer is written, with what was heard of it; its retries are left alone. -/
theorem Sound.write {latest : Latest} (h : Sound x) (hget : x.bridgeTransfers id = some before)
    (hterminal : before.status.Terminal → after.status = before.status)
    (hagrees : latest.Agrees after (x.submissions id))
    (hretries : after.retriesRemaining = before.retriesRemaining) :
    Sound ((x.write id before after).hear id latest) := by
  have hother : ∀ {name t}, (x.write id before after).bridgeTransfers name = some t →
      name = id ∧ t = after ∨ name ≠ id ∧ x.bridgeTransfers name = some t := by
    intro name t ht
    by_cases hsame : name = id
    · subst hsame
      simp only [Shared.write, Function.update_self] at ht
      exact .inl ⟨rfl, (Option.some.inj ht).symm⟩
    · simp only [Shared.write, Function.update_of_ne hsame] at ht
      exact .inr ⟨hsame, ht⟩
  have hcount : ∀ name, (x.write id before after).log.countP (Event.retries name) =
      x.log.countP (Event.retries name) := by
    intro name
    simp [Shared.write, Event.retries]
  refine ⟨?_, h.settled, ?_, ?_, ?_⟩
  · intro e he
    rcases List.mem_cons.mp he with rfl | hold
    · exact hterminal
    · exact h.lawful e hold
  · intro name t ht
    rcases hother ht with ⟨rfl, rfl⟩ | ⟨hne, hold⟩
    · exact ⟨latest, Function.update_self _ _ _, hagrees⟩
    · simp only [Shared.hear, Shared.write, Function.update_of_ne hne]
      exact h.agrees name t hold
  · intro name t ht
    show 0 ≤ t.retriesRemaining ∧
      ((x.write id before after).log.countP (Event.retries name) : ℤ) + _ = 3
    rw [hcount]
    rcases hother ht with ⟨rfl, rfl⟩ | ⟨-, hold⟩
    · rw [hretries]
      exact h.retries name before hget
    · exact h.retries name t hold
  · intro name ht
    have hsame : name ≠ id := by
      rintro rfl
      simp [Shared.hear, Shared.write] at ht
    simp only [Shared.hear, Shared.write, Function.update_of_ne hsame] at ht ⊢
    rw [List.countP_cons_of_neg (by simp [Event.retries])]
    exact h.unknown name ht

/-- A pending transfer whose submissions are dead is submitted. -/
theorem Sound.submit (h : Sound x) (hget : x.bridgeTransfers id = some transfer)
    (hopened : x.latest id = some .opened) : Sound (x.submit id transfer) := by
  obtain ⟨hpending, hdead⟩ := h.agrees_of hget hopened
  have hcount : ∀ name, (x.submit id transfer).log.countP (Event.retries name) =
      x.log.countP (Event.retries name) := by
    intro name
    simp [Shared.submit, Event.retries]
  refine ⟨?_, ?_, ?_, ?_, ?_⟩
  · intro e he
    rcases List.mem_cons.mp he with rfl | hold
    · exact ⟨hpending, hdead⟩
    · exact h.lawful e hold
  · intro name
    by_cases hsame : name = id
    · subst hsame
      simp only [Shared.submit, Function.update_self, List.tail_cons]
      exact hdead
    · simp only [Shared.submit, Function.update_of_ne hsame]
      exact h.settled name
  · intro name t ht
    by_cases hsame : name = id
    · subst hsame
      obtain rfl : transfer = t := Option.some.inj (hget.symm.trans ht)
      exact ⟨.posting, Function.update_self _ _ _, hpending⟩
    · simp only [Shared.submit, Function.update_of_ne hsame]
      exact h.agrees name t ht
  · intro name t ht
    rw [hcount]
    exact h.retries name t ht
  · intro name ht
    rw [hcount]
    have hsame : name ≠ id := by
      rintro rfl
      rw [show x.bridgeTransfers name = none from ht] at hget
      cases hget
    simp only [Shared.submit, Function.update_of_ne hsame]
    exact h.unknown name ht

/-- A failed transfer with retries left is retried. -/
theorem Sound.retry (h : Sound x) (hget : x.bridgeTransfers id = some transfer)
    (hlatest : x.latest id = some .failed) (hremaining : 0 < transfer.retriesRemaining) :
    Sound (x.retry id transfer) := by
  obtain ⟨hfailed, hdead⟩ := h.agrees_of hget hlatest
  obtain ⟨hnonneg, hsum⟩ := h.retries id transfer hget
  have hother : ∀ {name t}, (x.retry id transfer).bridgeTransfers name = some t →
      name = id ∧ t = transfer.retried x.clock ∨ name ≠ id ∧ x.bridgeTransfers name = some t := by
    intro name t ht
    by_cases hsame : name = id
    · subst hsame
      simp only [Shared.retry, Shared.hear, Shared.write, Function.update_self] at ht
      exact .inl ⟨rfl, (Option.some.inj ht).symm⟩
    · simp only [Shared.retry, Shared.hear, Shared.write, Function.update_of_ne hsame] at ht
      exact .inr ⟨hsame, ht⟩
  have hcount : ∀ name, (x.retry id transfer).log.countP (Event.retries name) =
      x.log.countP (Event.retries name) + if id = name then 1 else 0 := by
    intro name
    simp [Shared.retry, Shared.hear, Shared.write, List.countP_cons, Event.retries]
  refine ⟨?_, h.settled, ?_, ?_, ?_⟩
  · intro e he
    rcases List.mem_cons.mp he with rfl | hrest
    · exact hfailed
    · rcases List.mem_cons.mp hrest with rfl | hold
      · intro hterminal
        rcases hterminal with hconfirmed | hcancelled
        · rw [hfailed] at hconfirmed
          cases hconfirmed
        · rw [hfailed] at hcancelled
          cases hcancelled
      · exact h.lawful e hold
  · intro name t ht
    rcases hother ht with ⟨rfl, rfl⟩ | ⟨hne, hold⟩
    · exact ⟨.opened, Function.update_self _ _ _, rfl, hdead⟩
    · simp only [Shared.retry, Shared.hear, Shared.write, Function.update_of_ne hne]
      exact h.agrees name t hold
  · intro name t ht
    rw [hcount]
    rcases hother ht with ⟨rfl, rfl⟩ | ⟨hne, hold⟩
    · have hremains : (transfer.retried x.clock).retriesRemaining =
          transfer.retriesRemaining - 1 := rfl
      rw [if_pos rfl, hremains]
      push_cast
      omega
    · rw [if_neg (fun heq => hne heq.symm), Nat.add_zero]
      exact h.retries name t hold
  · intro name ht
    rw [hcount]
    have hsame : name ≠ id := by
      rintro rfl
      simp [Shared.retry, Shared.hear, Shared.write] at ht
    simp only [Shared.retry, Shared.hear, Shared.write, Function.update_of_ne hsame] at ht ⊢
    rw [if_neg (fun heq => hsame heq.symm), Nat.add_zero]
    exact h.unknown name ht

theorem Latest.Agrees.settle {latest : Latest} {l : List SubmissionState} {executes : Bool}
    (h : latest.Agrees transfer l) (position : ℕ) :
    latest.Agrees transfer (l.modify position (SubmissionState.settle executes)) := by
  cases latest with
  | opened => exact ⟨h.1, by rw [modify_settle_eq h.2]; exact h.2⟩
  | posting => exact h
  | accepted => exact h
  | failed => exact ⟨h.1, by rw [modify_settle_eq h.2]; exact h.2⟩
  | executed => exact ⟨h.1, head?_modify_settle rfl h.2 position⟩
  | cancelled =>
    refine ⟨h.1, ?_⟩
    intro hlive
    exact h.2 (mem_of_mem_modify (fun state => settle_live) _ _ hlive)

/-- A submission executes or dies. -/
theorem Sound.settle (h : Sound x) (position : ℕ) (executes : Bool) :
    Sound { x with
      submissions := Function.update x.submissions id
        ((x.submissions id).modify position (SubmissionState.settle executes)) } := by
  refine ⟨h.lawful, ?_, ?_, h.retries, ?_⟩
  · intro name
    by_cases hsame : name = id
    · subst hsame
      simp only [Function.update_self]
      rw [tail_modify_settle (h.settled name)]
      exact h.settled name
    · simp only [Function.update_of_ne hsame]
      exact h.settled name
  · intro name t ht
    obtain ⟨latest, hlatest, hagrees⟩ := h.agrees name t ht
    refine ⟨latest, hlatest, ?_⟩
    by_cases hsame : name = id
    · subst hsame
      simp only [Function.update_self]
      exact hagrees.settle position
    · simp only [Function.update_of_ne hsame]
      exact hagrees
  · intro name ht
    obtain ⟨hcount, hempty, hlatest⟩ := h.unknown name ht
    refine ⟨hcount, ?_, hlatest⟩
    by_cases hsame : name = id
    · subst hsame
      simp [hempty]
    · simp only [Function.update_of_ne hsame]
      exact hempty

/-! ## Every step -/

/-- What a step leads to: POSTs that are awaited stay so, except that of the call itself, and a call
    sends one where none is awaited. -/
structure Leads (x : Shared) (p : Stage) (y : Shared) (q : Stage) : Prop where
  sound : Sound y
  awaited : ∀ id, x.latest id = some .posting →
    (∃ sourceChainTxHash, p = .posting id sourceChainTxHash) ∨ y.latest id = some .posting
  sent : ∀ id sourceChainTxHash, q = .posting id sourceChainTxHash →
    x.latest id ≠ some .posting ∧ y.latest id = some .posting

/-- A step that hears nothing. -/
theorem Leads.quiet (h : Sound y) (hlatest : y.latest = x.latest)
    (hq : ∀ id sourceChainTxHash, q ≠ .posting id sourceChainTxHash) : Leads x p y q := by
  refine ⟨h, ?_, fun id sourceChainTxHash hposting => absurd hposting (hq id sourceChainTxHash)⟩
  intro id hid
  right
  rw [hlatest]
  exact hid

/-- A step that hears of a transfer whose POST is not awaited, or is the call's own. -/
theorem Leads.hears {latest : Latest} (h : Sound y)
    (hlatest : y.latest = Function.update x.latest id (some latest))
    (hown : x.latest id = some .posting → ∃ sourceChainTxHash, p = .posting id sourceChainTxHash)
    (hq : ∀ id sourceChainTxHash, q ≠ .posting id sourceChainTxHash) : Leads x p y q := by
  refine ⟨h, ?_, fun id sourceChainTxHash hposting => absurd hposting (hq id sourceChainTxHash)⟩
  intro name hname
  by_cases hsame : name = id
  · rw [hsame] at hname ⊢
    exact .inl (hown hname)
  · right
    rw [hlatest, Function.update_of_ne hsame]
    exact hname

theorem Leads.initiate (h : Sound x) (hpending : transfer.status = .pending)
    (hretries : transfer.retriesRemaining = 3) (hstep : initiate config x transfer = some (y, q)) :
    Leads x p y q := by
  unfold Bridge.initiate at hstep
  split at hstep
  · obtain ⟨rfl, rfl⟩ := Prod.mk.inj (Option.some.inj hstep)
    exact .quiet h rfl nofun
  · split_ifs at hstep with hnew
    obtain ⟨rfl, rfl⟩ := Prod.mk.inj (Option.some.inj hstep)
    have hnone := Option.isNone_iff_eq_none.mp hnew
    refine .hears (h.put hnone hpending hretries) rfl ?_ nofun
    intro hposting
    rw [(h.unknown _ hnone).2.2] at hposting
    cases hposting

/-- An operation on a transfer that is not found changes nothing. -/
theorem Leads.onTransfer {operation : StoredBridgeTransfer → Shared × Stage} (h : Sound x)
    (hfound : ∀ transfer, x.bridgeTransfers id = some transfer →
      Leads x p (operation transfer).1 (operation transfer).2)
    (hstep : some (onTransfer x id operation) = some (y, q)) : Leads x p y q := by
  unfold Bridge.onTransfer at hstep
  cases hget : x.bridgeTransfers id with
  | none =>
    rw [hget] at hstep
    obtain ⟨rfl, rfl⟩ := Prod.mk.inj (Option.some.inj hstep)
    exact .quiet h rfl nofun
  | some transfer =>
    rw [hget] at hstep
    obtain ⟨rfl, rfl⟩ := Prod.mk.inj (Option.some.inj hstep)
    exact hfound transfer hget

/-- The answer to a POST, which finds a pending transfer. -/
theorem Leads.posted {change : StoredBridgeTransfer → StoredBridgeTransfer} {latest : Latest}
    {error : Option String} {sourceChainTxHash : String} (h : Sound x)
    (hposting : x.latest id = some .posting)
    (hagrees : ∀ transfer, latest.Agrees (change transfer) (x.submissions id))
    (hretries : ∀ transfer, (change transfer).retriesRemaining = transfer.retriesRemaining)
    (hstep : some (answer x id change (some latest) error) = some (y, q)) :
    Leads x (.posting id sourceChainTxHash) y q := by
  unfold Bridge.answer at hstep
  cases hget : x.bridgeTransfers id with
  | none =>
    rw [hget] at hstep
    obtain ⟨rfl, rfl⟩ := Prod.mk.inj (Option.some.inj hstep)
    exact .quiet h rfl nofun
  | some transfer =>
    rw [hget] at hstep
    obtain ⟨rfl, rfl⟩ := Prod.mk.inj (Option.some.inj hstep)
    have hpending : transfer.status = .pending := h.agrees_of hget hposting
    refine .hears (h.write hget ?_ (hagrees transfer) (hretries transfer)) rfl
      (fun _ => ⟨sourceChainTxHash, rfl⟩) nofun
    rintro (hconfirmed | hcancelled)
    · rw [hpending] at hconfirmed
      cases hconfirmed
    · rw [hpending] at hcancelled
      cases hcancelled

/-- An answer that says nothing of the transfer. -/
theorem Sound.unchanged (h : Sound x) (hget : x.bridgeTransfers id = some before)
    (hstatus : after.status = before.status)
    (hretries : after.retriesRemaining = before.retriesRemaining) :
    Sound (x.write id before after) := by
  obtain ⟨latest, hlatest, hagrees⟩ := h.agrees id before hget
  have hsame : latest.Agrees after (x.submissions id) := by
    cases latest <;> simpa only [Latest.Agrees, hstatus] using hagrees
  have hwritten := h.write hget (fun _ => hstatus) hsame hretries
  have heard : (x.write id before after).hear id latest = x.write id before after := by
    unfold Shared.hear Shared.write
    rw [show some latest = x.latest id from hlatest.symm, Function.update_eq_self]
  rw [heard] at hwritten
  exact hwritten

/-- A GET is answered: what it says is true, and the POST is not awaited. -/
theorem Leads.answered {axelarStatus : String} {destinationTxHash error : Option String}
    (h : Sound x) (hallowed : Allowed x (.polling id) (.answered axelarStatus destinationTxHash))
    (hstep : some (answer x id
      (fun transfer => transfer.polled axelarStatus destinationTxHash x.clock)
      (Bridge.answered axelarStatus) error) = some (y, q)) : Leads x p y q := by
  unfold Bridge.answer at hstep
  cases hget : x.bridgeTransfers id with
  | none =>
    rw [hget] at hstep
    obtain ⟨rfl, rfl⟩ := Prod.mk.inj (Option.some.inj hstep)
    exact .quiet h rfl nofun
  | some transfer =>
    rw [hget] at hstep
    obtain ⟨rfl, rfl⟩ := Prod.mk.inj (Option.some.inj hstep)
    obtain ⟨latest, hlatest, hagrees⟩ := h.agrees id transfer hget
    by_cases hexecuted : axelarStatus = "executed"
    · have hheard : Bridge.answered axelarStatus = some .executed := if_pos hexecuted
      obtain ⟨hposting, hcancelled, hhead⟩ := hallowed _ hheard
      have hstatus : (transfer.polled axelarStatus destinationTxHash x.clock).status = .confirmed :=
        if_pos hexecuted
      rw [hheard]
      refine .hears (h.write hget ?_ ⟨hstatus, hhead⟩ rfl) rfl
        (fun hown => absurd hown hposting) nofun
      rintro (hterminal | hterminal)
      · exact hstatus.trans hterminal.symm
      · cases latest with
        | cancelled => exact absurd hlatest hcancelled
        | posting => cases (show transfer.status = .pending from hagrees).symm.trans hterminal
        | accepted => cases (show transfer.status = .confirming from hagrees).symm.trans hterminal
        | _ => cases hagrees.1.symm.trans hterminal
    · by_cases hfailed : axelarStatus = "failed"
      · have hheard : Bridge.answered axelarStatus = some .failed := by
          unfold Bridge.answered
          rw [if_neg hexecuted, if_pos hfailed]
        obtain ⟨hposting, hcancelled, hhead⟩ := hallowed _ hheard
        have hstatus : (transfer.polled axelarStatus destinationTxHash x.clock).status = .failed := by
          show transfer.polledStatus axelarStatus = .failed
          unfold StoredBridgeTransfer.polledStatus
          rw [if_neg hexecuted, if_pos hfailed]
        rw [hheard]
        refine .hears (h.write hget ?_ ⟨hstatus, all_dead hhead (h.settled id)⟩ rfl) rfl
          (fun hown => absurd hown hposting) nofun
        rintro (hterminal | hterminal)
        · cases latest with
          | executed => cases hagrees.2.symm.trans hhead
          | posting => cases (show transfer.status = .pending from hagrees).symm.trans hterminal
          | accepted => cases (show transfer.status = .confirming from hagrees).symm.trans hterminal
          | _ => cases hagrees.1.symm.trans hterminal
        · cases latest with
          | cancelled => exact absurd hlatest hcancelled
          | posting => cases (show transfer.status = .pending from hagrees).symm.trans hterminal
          | accepted => cases (show transfer.status = .confirming from hagrees).symm.trans hterminal
          | _ => cases hagrees.1.symm.trans hterminal
      · have hheard : Bridge.answered axelarStatus = none := by
          unfold Bridge.answered
          rw [if_neg hexecuted, if_neg hfailed]
        have hstatus : (transfer.polled axelarStatus destinationTxHash x.clock).status =
            transfer.status := by
          show transfer.polledStatus axelarStatus = transfer.status
          unfold StoredBridgeTransfer.polledStatus
          rw [if_neg hexecuted, if_neg hfailed]
        rw [hheard]
        exact .quiet (h.unchanged hget hstatus rfl) rfl nofun

theorem step_leads (h : Sound x) (hallowed : Allowed x p o)
    (hposting : ∀ id sourceChainTxHash, p = .posting id sourceChainTxHash →
      x.latest id = some .posting)
    (hstep : step config x p o = some (y, q)) : Leads x p y q := by
  cases p with
  | idle =>
    cases o with
    | initiateEthereumDeposit id user usdcAmount => exact .initiate h rfl rfl hstep
    | initiateStellarWithdraw id user usdcAmount => exact .initiate h rfl rfl hstep
    | executeAxelarTransfer id sourceChainTxHash =>
      refine .onTransfer h ?_ hstep
      intro transfer hget
      obtain ⟨latest, hlatest, -⟩ := h.agrees id transfer hget
      obtain rfl := hallowed latest hlatest
      refine ⟨h.submit hget hlatest, ?_, ?_⟩
      · intro name hname
        by_cases hsame : name = id
        · rw [hsame, show x.latest id = some .opened from hlatest] at hname
          cases hname
        · right
          simp only [Shared.submit, Function.update_of_ne hsame]
          exact hname
      · rintro _ _ ⟨⟩
        rw [show x.latest id = some .opened from hlatest]
        exact ⟨nofun, Function.update_self _ _ _⟩
    | pollTransferStatus id =>
      refine .onTransfer h ?_ hstep
      intro transfer _
      refine .quiet h rfl ?_
      intro id sourceChainTxHash
      split_ifs <;> nofun
    | retryTransfer id =>
      refine .onTransfer h ?_ hstep
      intro transfer hget
      split_ifs with hremaining
      · exact .quiet h rfl nofun
      · have hpositive : 0 < transfer.retriesRemaining := not_le.mp hremaining
        have hfailed := hallowed transfer hget hpositive
        refine .hears (h.retry hget hfailed hpositive) rfl ?_ nofun
        intro hcontra
        rw [hfailed] at hcontra
        cases hcontra
    | cancelTransfer id =>
      obtain ⟨hposting, haccepted⟩ := hallowed
      refine .onTransfer h ?_ hstep
      intro transfer hget
      split_ifs with hrefused
      · exact .quiet h rfl nofun
      · obtain ⟨hconfirmed, hfailed⟩ := not_or.mp hrefused
        refine .hears (h.write hget ?_ ⟨rfl, ?_⟩ rfl) rfl (fun hown => absurd hown hposting) nofun
        · rintro (hterminal | hterminal)
          · exact absurd hterminal hconfirmed
          · exact hterminal.symm
        · obtain ⟨latest, hlatest, hagrees⟩ := h.agrees id transfer hget
          cases latest with
          | opened =>
            intro hlive
            cases hagrees.2 _ hlive
          | posting => exact absurd hlatest hposting
          | accepted => exact haccepted hlatest
          | failed => exact absurd hagrees.1 hfailed
          | executed => exact absurd hagrees.1 hconfirmed
          | cancelled => exact hagrees.2
    | posted transactionHash => simp [step] at hstep
    | postFailed message => simp [step] at hstep
    | answered axelarStatus destinationTxHash => simp [step] at hstep
    | getFailed => simp [step] at hstep
  | posting id sourceChainTxHash =>
    have hlatest := hposting id sourceChainTxHash rfl
    cases o with
    | posted transactionHash =>
      refine .posted h hlatest ?_ ?_ hstep
      · intro transfer
        exact rfl
      · intro transfer
        rfl
    | postFailed message =>
      have hdead := all_dead hallowed (h.settled id)
      refine .posted h hlatest ?_ ?_ hstep
      · intro transfer
        exact ⟨rfl, hdead⟩
      · intro transfer
        rfl
    | _ => simp [step] at hstep
  | polling id =>
    cases o with
    | answered axelarStatus destinationTxHash => exact .answered h hallowed hstep
    | getFailed =>
      obtain ⟨rfl, rfl⟩ := Prod.mk.inj (Option.some.inj hstep)
      exact .quiet h rfl nofun
    | _ => simp [step] at hstep
  | done error => cases o <;> simp [step] at hstep

theorem sound_around {change : Change} (h : Sound x) (hchange : around x change = some y) :
    Sound y := by
  cases change with
  | elapse milliseconds =>
    obtain rfl := Option.some.inj hchange
    exact ⟨h.lawful, h.settled, h.agrees, h.retries, h.unknown⟩
  | settle id position executes =>
    obtain rfl := Option.some.inj hchange
    exact h.settle position executes

/-! ## Every run -/

/-- Of each transfer at most one call awaits the POST, and then nothing else was heard of it since.
    -/
structure Posts (s : System ι Shared Stage) : Prop where
  sound : Sound s.shared
  latest : ∀ i id sourceChainTxHash, s.proc i = .posting id sourceChainTxHash →
    s.shared.latest id = some .posting
  alone : ∀ i j id sourceChainTxHash other, s.proc i = .posting id sourceChainTxHash →
    s.proc j = .posting id other → i = j

theorem Posts.act {i : ι} (h : Posts s) (hok : Undisturbed s (.act i o))
    (hstep : step config s.shared (s.proc i) o = some (y, q)) : Posts (s.put y i q) := by
  have hleads := step_leads h.sound hok (h.latest i) hstep
  have hkept : ∀ j, j ≠ i → ∀ id sourceChainTxHash, s.proc j = .posting id sourceChainTxHash →
      y.latest id = some .posting := by
    intro j hj id sourceChainTxHash hposting
    rcases hleads.awaited id (h.latest j id sourceChainTxHash hposting) with ⟨other, hown⟩ | hawaited
    · exact absurd (h.alone j i id sourceChainTxHash other hposting hown) hj
    · exact hawaited
  refine ⟨hleads.sound, ?_, ?_⟩
  · exact System.put_forall (P := fun _ (p : Stage) => ∀ id sourceChainTxHash,
      p = .posting id sourceChainTxHash → y.latest id = some .posting)
      (fun id sourceChainTxHash hq => (hleads.sent id sourceChainTxHash hq).2) hkept
  · -- the POST of another call was awaited before, so this call has sent none
    have hnew : ∀ j, j ≠ i → ∀ id sourceChainTxHash other, q = .posting id sourceChainTxHash →
        s.proc j ≠ .posting id other := by
      intro j _ id sourceChainTxHash other hq hposting
      exact (hleads.sent id sourceChainTxHash hq).1 (h.latest j id other hposting)
    intro j k id sourceChainTxHash other hj hk
    by_cases hji : j = i
    · by_cases hki : k = i
      · rw [hji, hki]
      · rw [hji, System.put_self] at hj
        rw [System.put_other hki] at hk
        exact absurd hk (hnew k hki id sourceChainTxHash other hj)
    · by_cases hki : k = i
      · rw [System.put_other hji] at hj
        rw [hki, System.put_self] at hk
        exact absurd hj (hnew j hji id other sourceChainTxHash hk)
      · rw [System.put_other hji] at hj
        rw [System.put_other hki] at hk
        exact h.alone j k id sourceChainTxHash other hj hk

omit [DecidableEq ι] in
theorem Posts.world {change : Change} (h : Posts s) (hchange : around s.shared change = some y) :
    Posts ⟨y, s.proc⟩ := by
  have hlatest : y.latest = s.shared.latest := by
    cases change with
    | elapse milliseconds =>
      obtain rfl := Option.some.inj hchange
      rfl
    | settle id position executes =>
      obtain rfl := Option.some.inj hchange
      rfl
  refine ⟨sound_around h.sound hchange, ?_, h.alone⟩
  show ∀ i id sourceChainTxHash, s.proc i = .posting id sourceChainTxHash →
    y.latest id = some .posting
  rw [hlatest]
  exact h.latest

/-- While the calls on a transfer come in order, no failed POST was accepted and Axelar's answers
    are true, the lifecycle of every transfer is orderly. -/
theorem lifecycle_orderly_when_undisturbed {clock : ℕ}
    (h : Reaches (rules ι config) Undisturbed (fresh clock) s) : Orderly s.shared := by
  have hposts : Posts s := by
    apply Reaches.invariant h
    · exact ⟨sound_fresh clock, nofun, nofun⟩
    · intro t i o x p hok ht hstep
      exact ht.act hok hstep
    · intro t change x _ ht hchange
      exact ht.world hchange
  exact hposts.sound.orderly

namespace Sample

def settings : BridgeConfig := ⟨50, 1, 1000000⟩

def start : System ℕ Shared Stage := fresh 1000

/-- A withdrawal whose POST fails for certain; it is retried, submitted and executed. Another one is
    cancelled. -/
def retried : List (Move ℕ Outcome Change) :=
  [.act 0 (.initiateStellarWithdraw "t" "G" 100000), .act 1 (.executeAxelarTransfer "t" "0x"),
    .world (.settle "t" 0 false), .act 1 (.postFailed none), .act 2 (.retryTransfer "t"),
    .act 3 (.executeAxelarTransfer "t" "0x"), .act 3 (.posted (some "0xa")),
    .world (.settle "t" 0 true), .act 4 (.pollTransferStatus "t"),
    .act 4 (.answered "executed" none), .act 5 (.initiateStellarWithdraw "u" "G" 100000),
    .act 6 (.cancelTransfer "u")]

theorem retried_orderly : Orderly (retried.foldl (rules ℕ settings).after start).shared :=
  lifecycle_orderly_when_undisturbed (.of_admits (by decide +kernel))

/-- The POST was accepted although it failed; the transfer is retried and paid twice. -/
def paidTwice : List (Move ℕ Outcome Change) :=
  [.act 0 (.initiateStellarWithdraw "t" "G" 100000), .act 1 (.executeAxelarTransfer "t" "0x"),
    .act 1 (.postFailed none), .act 2 (.retryTransfer "t"),
    .act 3 (.executeAxelarTransfer "t" "0x"), .act 3 (.posted (some "0xa")),
    .world (.settle "t" 0 true), .world (.settle "t" 1 true)]

/-- A transfer is cancelled while its POST is answered, and submitted once more after that. -/
def revived : List (Move ℕ Outcome Change) :=
  [.act 0 (.initiateStellarWithdraw "t" "G" 100000), .act 1 (.executeAxelarTransfer "t" "0x"),
    .act 2 (.cancelTransfer "t"), .act 1 (.posted (some "0xa"))]

theorem paid_twice_and_revived :
    (paidTwice.foldl (rules ℕ settings).after start).shared.submissions "t" =
        [.executed, .executed] ∧
      Event.written "t" .cancelled .confirming ∈
        (revived.foldl (rules ℕ settings).after start).shared.log ∧
      ¬ Orderly (paidTwice.foldl (rules ℕ settings).after start).shared := by
  have hpaid : (paidTwice.foldl (rules ℕ settings).after start).shared.submissions "t" =
      [.executed, .executed] := by decide +kernel
  refine ⟨hpaid, by decide +kernel, ?_⟩
  intro h
  have honce := h.once "t"
  rw [hpaid] at honce
  exact absurd honce (by decide)

end Sample

end NeuroWealth.Bridge
