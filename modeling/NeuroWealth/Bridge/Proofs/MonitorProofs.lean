import NeuroWealth.Bridge.Monitor

/-!
# What the monitor does

A cycle only reads transfers that are not failed, so it never retries one. While no other cycle is
under way it holds each of them as the store does, so it writes no terminal status, and the timeout
fails only what was not executed.
-/

namespace NeuroWealth.Bridge.Monitor

open Interleaving

variable {ι : Type} [DecidableEq ι] {ids : List String} {s : System ι Shared Stage} {x y : Shared}
  {p q : Stage} {o : Outcome} {begun : Begun} {transfer : StoredBridgeTransfer}
  {rest : List StoredBridgeTransfer} {now : ℕ} {status : BridgeStatus} {writer : Writer}
  {updates : StoredBridgeTransfer → StoredBridgeTransfer} {name : String}

/-! ## One step -/

/-- The transfers that a cycle still works on. -/
def Stage.work : Stage → List StoredBridgeTransfer
  | checking _ pending => pending
  | polling _ transfer _ rest => transfer :: rest
  | polled _ transfer _ _ rest => transfer :: rest
  | retrying _ transfer _ _ rest => transfer :: rest
  | _ => []

/-- The transfers that a cycle still works on were not read as failed. -/
def Stage.Unfailed : Stage → Prop
  | retrying _ _ _ _ _ => False
  | p => ∀ t ∈ p.work, t.status ≠ .failed

/-- The transfers that were due when the cycle started. -/
def Stage.due : Stage → List String
  | checking begun _ => begun.due
  | polling begun _ _ _ => begun.due
  | polled begun _ _ _ _ => begun.due
  | retrying begun _ _ _ _ => begun.due
  | _ => []

/-- A step starts a cycle or ends it, leaves the store alone, or writes the transfer that the cycle
    works on; the timeout writes an old one. -/
inductive Effect (ids : List String) (x : Shared) : Stage → Outcome → Shared → Stage → Prop where
  | start : Effect ids x .idle .checkPendingTransfers x
      (.checking ⟨ids.filter (fun id => x.Due id), x.log.length⟩ (x.getPending ids))
  | finish (p : Stage) (o : Outcome) (begun : Begun) (hp : p.UnderWay) (hdue : begun.due = p.due) :
    Effect ids x p o (x.finish begun) .done
  | move (p : Stage) (o : Outcome) (q : Stage) (hp : p.UnderWay) (hwork : q.work.Sublist p.work)
      (hdue : q.due = p.due) :
    Effect ids x p o x q
  | manage (p : Stage) (o : Outcome) (q : Stage) (id : String) (managed : StoredBridgeTransfer)
      (hp : p.UnderWay) (hwork : q.work.Sublist p.work) (hdue : q.due = p.due) :
    Effect ids x p o (x.manage id managed) q
  | write (p : Stage) (o : Outcome) (begun : Begun) (transfer : StoredBridgeTransfer)
      (rest : List StoredBridgeTransfer) (writer : Writer)
      (updates : StoredBridgeTransfer → StoredBridgeTransfer) (y : Shared) (hp : p.UnderWay)
      (hwork : p.work = transfer :: rest) (hdue : begun.due = p.due)
      (hkeeps : ∀ stored, (updates stored).id = stored.id ∧
        (updates stored).createdAt = stored.createdAt)
      (hold : writer = .timeout → transfer.createdAt + bridgeTimeoutMs < x.clock)
      (hy : x.update writer transfer.id updates = some y) :
    Effect ids x p o y (.checking begun rest)

theorem getPending_unfailed (h : transfer ∈ x.getPending ids) : transfer.status ≠ .failed := by
  obtain ⟨-, hpending⟩ := List.mem_filter.mp h
  rcases of_decide_eq_true hpending with hstatus | hstatus
  · rw [hstatus]
    simp
  · rw [hstatus]
    simp

/-- A transfer that was not read as failed is not retried. -/
theorem retryIfDue_unfailed (h : transfer.status ≠ .failed) :
    retryIfDue x begun transfer now rest = (x, .checking begun rest) := by
  unfold retryIfDue
  rw [if_neg]
  intro hdue
  exact h hdue.1

/-- What a step leads to. -/
def Leads (ids : List String) (x : Shared) (p : Stage) (o : Outcome) (z : Shared × Stage) : Prop :=
  z.2.Unfailed ∧ Effect ids x p o z.1 z.2

/-- A cycle at work on the first of these transfers, none of which was read as failed. -/
structure At (p : Stage) (begun : Begun) (pending : List StoredBridgeTransfer) : Prop where
  underWay : p.UnderWay
  work : p.work = pending
  due : p.due = begun.due
  unfailed : ∀ t ∈ pending, t.status ≠ .failed

theorem At.skips (h : At p begun (transfer :: rest)) :
    Leads ids x p o (x, .checking begun rest) := by
  refine ⟨fun t ht => h.unfailed t (List.mem_cons_of_mem _ ht), ?_⟩
  refine .move _ _ _ h.underWay ?_ h.due.symm
  rw [h.work]
  exact List.sublist_cons_self _ _

theorem At.stays (h : At p begun (transfer :: rest)) (hq : q.work = transfer :: rest)
    (hdue : q.due = begun.due) (hunfailed : q.Unfailed) : Leads ids x p o (x, q) := by
  refine ⟨hunfailed, .move _ _ _ h.underWay ?_ (hdue.trans h.due.symm)⟩
  rw [h.work, hq]

theorem pollTransferStatus_leads (h : At p begun (transfer :: rest)) :
    Leads ids x p o (pollTransferStatus x begun transfer rest) := by
  unfold pollTransferStatus
  split
  · rw [retryIfDue_unfailed (h.unfailed transfer List.mem_cons_self)]
    exact h.skips
  · split_ifs
    · exact h.stays rfl rfl h.unfailed
    · exact h.stays rfl rfl h.unfailed

theorem pollReturns_leads {change : StoredBridgeTransfer → StoredBridgeTransfer}
    (h : At p begun (transfer :: rest)) :
    Leads ids x p o (pollReturns x begun transfer now rest change) := by
  unfold pollReturns
  split
  · rw [retryIfDue_unfailed (h.unfailed transfer List.mem_cons_self)]
    exact h.skips
  · refine ⟨h.unfailed, .manage _ _ _ _ _ h.underWay ?_ h.due.symm⟩
    rw [h.work]
    exact List.Sublist.refl _

theorem processTransfer_leads (h : At p begun (transfer :: rest)) :
    Leads ids x p o (processTransfer x begun transfer rest) := by
  unfold processTransfer
  split_ifs with hold hpolls
  · split
    · rename_i y hy
      refine ⟨fun t ht => h.unfailed t (List.mem_cons_of_mem _ ht), ?_⟩
      exact .write _ _ _ _ _ _ timedOut _ h.underWay h.work h.due.symm (fun _ => ⟨rfl, rfl⟩)
        (fun _ => hold) hy
    · exact ⟨fun t ht => absurd ht List.not_mem_nil, .finish _ _ _ h.underWay h.due.symm⟩
  · exact pollTransferStatus_leads h
  · rw [retryIfDue_unfailed (h.unfailed transfer List.mem_cons_self)]
    exact h.skips

theorem storeStatus_leads (h : At p begun (transfer :: rest)) :
    Leads ids x p o (storeStatus x begun transfer now status rest) := by
  unfold storeStatus
  dsimp only
  rw [retryIfDue_unfailed (h.unfailed transfer List.mem_cons_self)]
  cases hy : x.update .poll transfer.id (fun stored => { stored with status := status }) with
  | none => exact h.skips
  | some y =>
    refine ⟨fun t ht => h.unfailed t (List.mem_cons_of_mem _ ht), ?_⟩
    refine .write _ _ _ _ _ _ (fun stored => { stored with status := status }) _ h.underWay h.work
      h.due.symm (fun _ => ⟨rfl, rfl⟩) ?_ hy
    intro htimeout
    cases htimeout

theorem step_leads (hp : p.Unfailed) (hstep : step ids x p o = some (y, q)) :
    Leads ids x p o (y, q) := by
  have hresult : ∀ {z}, Leads ids x p o z → some z = some (y, q) → Leads ids x p o (y, q) := by
    intro z hz heq
    exact Option.some.inj heq ▸ hz
  cases p with
  | idle =>
    cases o <;> simp only [step, reduceCtorEq] at hstep
    refine hresult ⟨?_, .start⟩ hstep
    intro t ht
    exact getPending_unfailed ht
  | checking begun pending =>
    cases pending with
    | nil =>
      cases o <;> simp only [step, reduceCtorEq] at hstep
      refine hresult (z := (x.finish begun, .done)) ⟨?_, .finish _ _ _ trivial rfl⟩ hstep
      exact fun t ht => absurd ht List.not_mem_nil
    | cons transfer rest =>
      cases o <;> simp only [step, reduceCtorEq] at hstep
      exact hresult (processTransfer_leads ⟨trivial, rfl, rfl, hp⟩) hstep
  | polling begun transfer now rest =>
    cases o <;> simp only [step, reduceCtorEq] at hstep
    · exact hresult (pollReturns_leads ⟨trivial, rfl, rfl, hp⟩) hstep
    · exact hresult (pollReturns_leads ⟨trivial, rfl, rfl, hp⟩) hstep
  | polled begun transfer now status rest =>
    cases o <;> simp only [step, reduceCtorEq] at hstep
    exact hresult (storeStatus_leads ⟨trivial, rfl, rfl, hp⟩) hstep
  | retrying begun transfer now managed rest => exact absurd hp id
  | done => cases o <;> simp [step] at hstep

/-! ## No retry -/

/-- The event is no retry. -/
def Event.IsWrite : Event → Prop
  | written _ _ _ => True
  | retried _ _ _ _ _ => False

/-- A write replaces the stored transfer and adds one event. -/
theorem update_some (h : x.update writer name updates = some y) :
    ∃ stored updated, x.stored name = some stored ∧
      updated = { updates stored with updatedAt := x.clock } ∧
      y = { x with
        stored := Function.update x.stored name (some updated)
        lastWriter := Function.update x.lastWriter name (some writer)
        log := .written name stored.status updated.status :: x.log } := by
  unfold Shared.update at h
  split at h
  · cases h
  · rename_i stored hstored
    exact ⟨stored, _, hstored, rfl, (Option.some.inj h).symm⟩

/-- A step adds no retry to the log. -/
theorem effect_writes (h : Effect ids x p o y q) (hx : ∀ e ∈ x.log, e.IsWrite) :
    ∀ e ∈ y.log, e.IsWrite := by
  cases h with
  | start => exact hx
  | finish p o begun hp hdue => exact hx
  | move p o q hp hwork hdue => exact hx
  | manage p o q id managed hp hwork hdue => exact hx
  | write p o begun transfer rest writer updates y hp hwork hdue hkeeps hold hy =>
    obtain ⟨stored, updated, -, -, rfl⟩ := update_some hy
    intro e he
    rcases List.mem_cons.mp he with rfl | hold
    · trivial
    · exact hx e hold

/-- In every run whatever, no transfer is ever retried. -/
theorem never_retries {ok : System ι Shared Stage → Move ι Outcome Change → Prop} {clock : ℕ}
    {saved : Saved} {executed : String → Bool}
    (h : Reaches (rules ι ids) ok (fresh clock saved executed) s) :
    (∀ e ∈ s.shared.log, e.IsWrite) ∧ ∀ i, (s.proc i).Unfailed := by
  apply Reaches.invariant h
  · refine ⟨fun e he => absurd he List.not_mem_nil, fun i => ?_⟩
    exact fun t ht => absurd ht List.not_mem_nil
  · intro t i o y q _ ht hstep
    obtain ⟨hunfailed, heffect⟩ := step_leads (ht.2 i) hstep
    refine ⟨effect_writes heffect ht.1, ?_⟩
    exact System.put_forall (P := fun _ (p : Stage) => p.Unfailed) hunfailed fun j _ => ht.2 j
  · intro t change x _ ht hchange
    cases change with
    | elapse milliseconds =>
      obtain rfl := Option.some.inj hchange
      exact ht
    | execute id =>
      obtain rfl := Option.some.inj hchange
      exact ht

/-! ## What a cycle holds -/

/-- The store holds the transfer as it was read, pending. -/
structure Shared.Holds (ids : List String) (x : Shared) (transfer : StoredBridgeTransfer) :
    Prop where
  known : transfer.id ∈ ids
  stored : x.stored transfer.id = some transfer
  pending : IsPending transfer

/-- The store still holds every transfer that a cycle works on, and the cycle comes to each once. -/
structure Stage.Current (ids : List String) (x : Shared) (p : Stage) : Prop where
  once : (p.work.map StoredBridgeTransfer.id).Nodup
  held : ∀ t ∈ p.work, x.Holds ids t

/-- Every transfer is stored under its own id. -/
def Keyed (stored : String → Option StoredBridgeTransfer) : Prop :=
  ∀ id transfer, stored id = some transfer → transfer.id = id

theorem Saved.keyed (saved : Saved) : Keyed saved.get := by
  intro id transfer h
  have hid := List.find?_some h
  exact of_decide_eq_true hid

theorem IsPending.not_terminal (h : IsPending transfer) : ¬ transfer.status.Terminal := by
  rcases h with hstatus | hstatus
  · rw [hstatus]
    decide
  · rw [hstatus]
    decide

/-- The transfers stored under some ids have these ids, in their order. -/
theorem Keyed.ids_sublist {stored : String → Option StoredBridgeTransfer} (h : Keyed stored)
    (ids : List String) :
    ((ids.filterMap stored).map StoredBridgeTransfer.id).Sublist ids := by
  induction ids with
  | nil => exact List.Sublist.refl _
  | cons id ids ih =>
    cases hstored : stored id with
    | none =>
      rw [List.filterMap_cons_none hstored]
      exact ih.cons _
    | some transfer =>
      rw [List.filterMap_cons_some hstored, List.map_cons, h id transfer hstored]
      exact ih.cons_cons _

/-- What a cycle reads when it starts is what the store holds. -/
theorem getPending_current (hids : ids.Nodup) (hkeyed : Keyed x.stored) {begun : Begun} :
    (Stage.checking begun (x.getPending ids)).Current ids x := by
  have hsublist : ((x.getPending ids).map StoredBridgeTransfer.id).Sublist ids :=
    (List.Sublist.map _ List.filter_sublist).trans (hkeyed.ids_sublist ids)
  refine ⟨hids.sublist hsublist, ?_⟩
  intro t ht
  obtain ⟨hmem, hpending⟩ := List.mem_filter.mp ht
  obtain ⟨id, -, hstored⟩ := List.mem_filterMap.mp hmem
  refine ⟨hsublist.subset (List.mem_map_of_mem ht), ?_, of_decide_eq_true hpending⟩
  rw [hkeyed id t hstored]
  exact hstored

theorem Stage.Current.of_sublist (h : p.Current ids x) (hwork : q.work.Sublist p.work)
    (hstored : y.stored = x.stored) : q.Current ids y := by
  refine ⟨h.once.sublist (hwork.map _), fun t ht => ?_⟩
  have hheld := h.held t (hwork.subset ht)
  exact ⟨hheld.known, hstored ▸ hheld.stored, hheld.pending⟩

/-- A cycle that is not under way works on nothing. -/
theorem Stage.Current.of_not_underWay (h : ¬ p.UnderWay) : p.Current ids x := by
  cases p with
  | idle => exact ⟨List.nodup_nil, fun t ht => absurd ht List.not_mem_nil⟩
  | done => exact ⟨List.nodup_nil, fun t ht => absurd ht List.not_mem_nil⟩
  | checking | polling | polled | retrying => exact absurd trivial h

/-! ## Every run -/

/-- What every state of an undisturbed run keeps: at most one cycle is under way, the store holds
    what it works on, and the timeout has failed only old transfers that were not executed. -/
structure Sound (ids : List String) (s : System ι Shared Stage) : Prop where
  lawful : ∀ e ∈ s.shared.log, e.Lawful
  keyed : Keyed s.shared.stored
  timed : ∀ id, s.shared.lastWriter id = some .timeout →
    s.shared.executed id = false ∧ ¬ s.shared.Recent id
  ended : ∀ cycle ∈ s.shared.cycles, cycle.due = []
  due : ∀ i, (s.proc i).due = []
  unfailed : ∀ i, (s.proc i).Unfailed
  alone : ∀ i, (s.proc i).UnderWay → ∀ j, j ≠ i → ¬ (s.proc j).UnderWay
  current : ∀ i, (s.proc i).Current ids s.shared
  inTime : (∃ i, (s.proc i).UnderWay) → s.shared.InTime ids s.shared.clock

omit [DecidableEq ι] in
theorem sound_fresh (clock : ℕ) (saved : Saved) (executed : String → Bool) :
    Sound ids (fresh clock saved executed : System ι Shared Stage) where
  lawful e he := absurd he List.not_mem_nil
  keyed := saved.keyed
  timed id htimeout := by cases htimeout
  ended cycle hcycle := absurd hcycle List.not_mem_nil
  due i := rfl
  unfailed i t ht := absurd ht List.not_mem_nil
  alone i hi := absurd hi id
  current i := .of_not_underWay id
  inTime := by
    rintro ⟨i, hi⟩
    exact absurd hi id

/-- What a step of the only cycle under way keeps. -/
structure Kept (ids : List String) (y : Shared) (q : Stage) : Prop where
  lawful : ∀ e ∈ y.log, e.Lawful
  keyed : Keyed y.stored
  timed : ∀ id, y.lastWriter id = some .timeout → y.executed id = false ∧ ¬ y.Recent id
  ended : ∀ cycle ∈ y.cycles, cycle.due = []
  due : q.due = []
  current : q.Current ids y
  inTime : y.InTime ids y.clock

/-- A cycle writes the transfer that it holds: no terminal status is changed, and the timeout fails
    it only if Axelar has not executed it. -/
theorem Kept.write (h : Kept ids x p) (hwork : p.work = transfer :: rest)
    (hdue : begun.due = p.due)
    (hkeeps : ∀ stored, (updates stored).id = stored.id ∧
      (updates stored).createdAt = stored.createdAt)
    (hold : writer = .timeout → transfer.createdAt + bridgeTimeoutMs < x.clock)
    (hy : x.update writer transfer.id updates = some y) : Kept ids y (.checking begun rest) := by
  have hheld := h.current.held transfer (hwork ▸ List.mem_cons_self)
  obtain ⟨stored, updated, hstored, hupdated, rfl⟩ := update_some hy
  obtain rfl : stored = transfer := Option.some.inj (hstored.symm.trans hheld.stored)
  have hid : updated.id = stored.id := by
    rw [hupdated]
    exact (hkeeps stored).1
  have hcreated : updated.createdAt = stored.createdAt := by
    rw [hupdated]
    exact (hkeeps stored).2
  have honce := h.current.once
  rw [hwork, List.map_cons, List.nodup_cons] at honce
  refine ⟨?_, ?_, ?_, h.ended, hdue.trans h.due, ⟨honce.2, ?_⟩, ?_⟩
  · intro e he
    rcases List.mem_cons.mp he with rfl | hmem
    · exact fun hterminal => absurd hterminal hheld.pending.not_terminal
    · exact h.lawful e hmem
  · intro id t ht
    by_cases hsame : id = stored.id
    · subst hsame
      simp only [Function.update_self, Option.some.injEq] at ht
      rw [← ht, hid]
    · simp only [Function.update_of_ne hsame] at ht
      exact h.keyed id t ht
  · intro id htimeout
    by_cases hsame : id = stored.id
    · subst hsame
      simp only [Function.update_self, Option.some.injEq] at htimeout
      have hlate := hold htimeout
      refine ⟨?_, ?_⟩
      · -- an executed transfer that is still pending is not old
        by_contra hexecuted
        have hrecent := h.inTime stored.id hheld.known (by simpa using hexecuted) stored
          hheld.stored hheld.pending
        omega
      · intro hrecent
        have := hrecent updated (Function.update_self ..)
        rw [hcreated] at this
        simp only at this
        omega
    · simp only [Function.update_of_ne hsame] at htimeout
      refine ⟨(h.timed id htimeout).1, ?_⟩
      unfold Shared.Recent
      simp only [Function.update_of_ne hsame]
      exact (h.timed id htimeout).2
  · intro t ht
    have hbefore := h.current.held t (hwork ▸ List.mem_cons_of_mem _ ht)
    have hother : t.id ≠ stored.id := by
      intro hsame
      exact honce.1 (hsame ▸ List.mem_map_of_mem ht)
    refine ⟨hbefore.known, ?_, hbefore.pending⟩
    simp only [Function.update_of_ne hother]
    exact hbefore.stored
  · intro id hknown hexecuted t ht hpending
    by_cases hsame : id = stored.id
    · subst hsame
      simp only [Function.update_self, Option.mem_def, Option.some.injEq] at ht
      rw [← ht, hcreated]
      exact h.inTime stored.id hknown hexecuted stored hheld.stored hheld.pending
    · simp only [Function.update_of_ne hsame] at ht
      exact h.inTime id hknown hexecuted t ht hpending

theorem effect_kept (h : Effect ids x p o y q) (hp : p.UnderWay) (hx : Kept ids x p) :
    Kept ids y q := by
  cases h with
  | start => exact absurd hp id
  | finish p o begun hp hdue =>
    refine { hx with ended := ?_, due := rfl, current := .of_not_underWay id }
    intro cycle hcycle
    rcases List.mem_cons.mp hcycle with rfl | hmem
    · exact hdue.trans hx.due
    · exact hx.ended cycle hmem
  | move p o q hp hwork hdue =>
    exact { hx with due := hdue.trans hx.due, current := hx.current.of_sublist hwork rfl }
  | manage p o q id managed hp hwork hdue =>
    exact { hx with due := hdue.trans hx.due, current := hx.current.of_sublist hwork rfl }
  | write p o begun transfer rest writer updates y hp hwork hdue hkeeps hold hy =>
    exact hx.write hwork hdue hkeeps hold hy

/-- A step of one cycle while no other is under way. -/
theorem Sound.put {i : ι} (h : Sound ids s) (hothers : ∀ j, j ≠ i → ¬ (s.proc j).UnderWay)
    (hunfailed : q.Unfailed) (hkept : Kept ids y q) : Sound ids (s.put y i q) where
  lawful := hkept.lawful
  keyed := hkept.keyed
  timed := hkept.timed
  ended := hkept.ended
  due := System.put_forall (P := fun _ (p : Stage) => p.due = []) hkept.due fun j _ => h.due j
  unfailed :=
    System.put_forall (P := fun _ (p : Stage) => p.Unfailed) hunfailed fun j _ => h.unfailed j
  alone j hj k hk := by
    have hmover : ∀ j, j ≠ i → ¬ ((s.put y i q).proc j).UnderWay := by
      intro j hj
      rw [System.put_other hj]
      exact hothers j hj
    by_cases hji : j = i
    · exact hmover k (hji ▸ hk)
    · exact absurd hj (hmover j hji)
  current := by
    refine System.put_forall (P := fun _ (p : Stage) => p.Current ids y) hkept.current ?_
    intro j hj
    exact .of_not_underWay (hothers j hj)
  inTime _ := hkept.inTime

theorem sound_act {i : ι} (hids : ids.Nodup) (h : Sound ids s)
    (hok : Undisturbed ids s (.act i o))
    (hstep : step ids s.shared (s.proc i) o = some (y, q)) : Sound ids (s.put y i q) := by
  obtain ⟨hunfailed, heffect⟩ := step_leads (h.unfailed i) hstep
  by_cases hi : (s.proc i).UnderWay
  · apply h.put (h.alone i hi) hunfailed
    exact effect_kept heffect hi
      ⟨h.lawful, h.keyed, h.timed, h.ended, h.due i, h.current i, h.inTime ⟨i, hi⟩⟩
  · -- the cycle starts
    generalize hp : s.proc i = p at heffect hi
    cases heffect with
    | start =>
      obtain ⟨hnone, hdue, hinTime⟩ := hok
      apply h.put (fun j _ => hnone j) hunfailed
      refine ⟨h.lawful, h.keyed, h.timed, h.ended, ?_, getPending_current hids h.keyed, hinTime⟩
      show ids.filter (fun id => s.shared.Due id) = []
      rw [List.filter_eq_nil_iff]
      intro id hid
      simpa using hdue id hid
    | finish p o begun hp' hdue => exact absurd hp' hi
    | move p o q hp' hwork hdue => exact absurd hp' hi
    | manage p o q id managed hp' hwork hdue => exact absurd hp' hi
    | write p o begun transfer rest writer updates y hp' hwork hdue hkeeps hold hy =>
      exact absurd hp' hi

omit [DecidableEq ι] in
theorem sound_world {change : Change} (h : Sound ids s)
    (hok : Undisturbed ids s (.world change)) (hchange : around s.shared change = some y) :
    Sound ids ⟨y, s.proc⟩ := by
  have hcurrent : ∀ {y : Shared}, y.stored = s.shared.stored →
      ∀ i, (s.proc i).Current ids y := fun hstored i =>
    (h.current i).of_sublist (List.Sublist.refl _) hstored
  cases change with
  | elapse milliseconds =>
    obtain rfl := Option.some.inj hchange
    refine { h with timed := ?_, current := hcurrent rfl, inTime := hok }
    intro id htimeout
    obtain ⟨hexecuted, hlate⟩ := h.timed id htimeout
    refine ⟨hexecuted, fun hrecent => hlate fun t ht => ?_⟩
    exact (Nat.le_add_right _ _).trans (hrecent t ht)
  | execute name =>
    obtain rfl := Option.some.inj hchange
    refine { h with timed := ?_, current := hcurrent rfl, inTime := ?_ }
    · intro id htimeout
      obtain ⟨hexecuted, hlate⟩ := h.timed id htimeout
      have hid : id ≠ name := by
        rintro rfl
        exact hlate hok
      refine ⟨?_, hlate⟩
      simp only [Function.update_of_ne hid]
      exact hexecuted
    · intro hunderWay id hknown hexecuted t ht hpending
      by_cases hid : id = name
      · subst hid
        exact hok t ht
      · simp only [Function.update_of_ne hid] at hexecuted
        exact h.inTime hunderWay id hknown hexecuted t ht hpending

/-- The stored statuses are in order in every run in which cycles do not overlap, no transfer is due
    when a cycle starts, and Axelar executes and the monitor polls a transfer within 30 minutes. -/
theorem store_orderly_when_undisturbed {clock : ℕ} {saved : Saved} {executed : String → Bool}
    (h : Reaches (rules ι saved.ids) (Undisturbed saved.ids) (fresh clock saved executed) s) :
    Orderly s.shared := by
  have hsound : Sound saved.ids s := by
    apply Reaches.invariant h (sound_fresh clock saved executed)
    · intro t i o x p hok ht hstep
      exact sound_act saved.nodup ht hok hstep
    · intro t change x hok ht hchange
      exact sound_world ht hok hchange
  refine ⟨hsound.lawful, ?_, ?_⟩
  · intro id transfer _ _ htimeout
    exact (hsound.timed id htimeout).1
  · intro cycle hcycle id hid
    rw [hsound.ended cycle hcycle] at hid
    cases hid

namespace Sample

/-- A withdrawal that was submitted at time 1000, and one that never was. -/
def submitted : StoredBridgeTransfer :=
  { newTransfer ⟨50, 1, 1000000⟩ .withdraw .stellar .ethereum none "t" "G" 100000 1000 with
    status := .confirming
    bridgeTxHash := some "0xa" }

def forgotten : StoredBridgeTransfer :=
  newTransfer ⟨50, 1, 1000000⟩ .withdraw .stellar .ethereum none "u" "G" 100000 1000

def both : Saved := ⟨[submitted, forgotten], by decide⟩

def one : Saved := ⟨[submitted], by decide⟩

def start (saved : Saved) : System (Fin 2) Shared Stage := fresh 2000 saved fun _ => false

/-- One transfer is executed and confirmed; the other one times out in the second cycle. -/
def settled : List (Move (Fin 2) Outcome Change) :=
  [.world (.execute "t"), .act 0 .checkPendingTransfers, .act 0 .resume,
    .act 0 (.answered "executed" none), .act 0 .resume, .act 0 .resume, .act 0 .resume,
    .world (.elapse 1800000), .act 1 .checkPendingTransfers, .act 1 .resume, .act 1 .resume]

theorem settled_orderly :
    Orderly (settled.foldl (rules (Fin 2) both.ids).after (start both)).shared :=
  store_orderly_when_undisturbed (.of_admits (by decide +kernel))

/-- A transfer is stored as failed by a poll; the next cycle does not retry it. -/
def abandoned : List (Move (Fin 2) Outcome Change) :=
  [.act 0 .checkPendingTransfers, .act 0 .resume, .act 0 (.answered "failed" none),
    .act 0 .resume, .act 0 .resume, .act 1 .checkPendingTransfers, .act 1 .resume]

/-- Axelar executes a transfer, and the timeout stores it as failed. -/
def lost : List (Move (Fin 2) Outcome Change) :=
  [.world (.execute "t"), .world (.elapse 1800000), .act 0 .checkPendingTransfers,
    .act 0 .resume]

/-- Two cycles overlap, and the second one stores a confirmed transfer as failed. -/
def overwritten : List (Move (Fin 2) Outcome Change) :=
  [.act 0 .checkPendingTransfers, .act 1 .checkPendingTransfers, .act 0 .resume,
    .act 0 (.answered "executed" none), .act 0 .resume, .world (.elapse 1800000), .act 1 .resume]

theorem abandoned_lost_and_overwritten :
    ((abandoned.foldl (rules (Fin 2) one.ids).after (start one)).shared.cycles.head?.map
        fun cycle => (cycle.due, cycle.events)) = some (["t"], []) ∧
      (((lost.foldl (rules (Fin 2) one.ids).after (start one)).shared.stored "t").map
        StoredBridgeTransfer.status = some .failed ∧
        (lost.foldl (rules (Fin 2) one.ids).after (start one)).shared.executed "t") ∧
      Event.written "t" .confirmed .failed ∈
        (overwritten.foldl (rules (Fin 2) one.ids).after (start one)).shared.log ∧
      ¬ Orderly (overwritten.foldl (rules (Fin 2) one.ids).after (start one)).shared := by
  have hwritten : Event.written "t" .confirmed .failed ∈
      (overwritten.foldl (rules (Fin 2) one.ids).after (start one)).shared.log := by
    decide +kernel
  refine ⟨by decide +kernel, by decide +kernel, hwritten, ?_⟩
  intro h
  have hsame := h.lawful _ hwritten (.inl rfl)
  cases hsame

end Sample

end NeuroWealth.Bridge.Monitor
