import NeuroWealth.Foundation.Proofs.TransactionProofs

/-!
# Recorded states

A state publishes events into a log. A replica is kept from the events alone: it starts as the view
of some state and is updated event by event. Code that records what it does leaves a log from which
the replica follows the state.
-/

namespace Recording

open Transaction

/-- What of a state is replicated, and what one event does to a replica. Replicas are kept of the
    states that are `ready`. -/
structure Replication (σ η μ : Type) where
  log : σ → List η
  ready : σ → Prop
  view : σ → μ
  apply : μ → η → μ

namespace Replication

variable {ρ σ ε η μ α β κ : Type} {R : Replication σ η μ} {m : μ} {s s' t : σ} {es es' : List η}

/-- A replica after some events, oldest first. -/
def rebuild (R : Replication σ η μ) (m : μ) (es : List η) : μ := es.foldl R.apply m

@[simp]
theorem rebuild_nil : R.rebuild m [] = m := rfl

@[simp]
theorem rebuild_singleton {e : η} : R.rebuild m [e] = R.apply m e := rfl

theorem rebuild_append : R.rebuild m (es ++ es') = R.rebuild (R.rebuild m es) es' :=
  List.foldl_append

/-- Events that say nothing about the view. -/
theorem rebuild_of_remarks (h : ∀ e ∈ es, ∀ m, R.apply m e = m) : R.rebuild m es = m := by
  induction es generalizing m with
  | nil => rfl
  | cons e es ih =>
    show R.rebuild (R.apply m e) es = m
    rw [h e List.mem_cons_self]
    exact ih fun x hx => h x (List.mem_cons_of_mem e hx)

/-- A figure of the view to which every event adds its part. -/
theorem figure_of_rebuild {f : μ → Int} {d : η → Int} (h : ∀ m e, f (R.apply m e) = f m + d e) :
    f (R.rebuild m es) = f m + (es.map d).sum := by
  induction es generalizing m with
  | nil => exact (Int.add_zero _).symm
  | cons e es ih =>
    show f (R.rebuild (R.apply m e) es) = f m + (d e + (es.map d).sum)
    rw [ih, h, Int.add_assoc]

/-- The log grows by events that lead a replica from the first state to the second. -/
def Follows (R : Replication σ η μ) (s s' : σ) : Prop :=
  R.ready s → R.ready s' ∧ ∃ es, R.log s' = R.log s ++ es ∧ R.view s' = R.rebuild (R.view s) es

theorem Follows.refl : R.Follows s s :=
  fun h => ⟨h, [], (List.append_nil _).symm, rfl⟩

theorem Follows.trans (h1 : R.Follows s t) (h2 : R.Follows t s') : R.Follows s s' := by
  intro h
  obtain ⟨hready, es, hlog, hview⟩ := h1 h
  obtain ⟨hready', es', hlog', hview'⟩ := h2 hready
  refine ⟨hready', es ++ es', ?_, ?_⟩
  · rw [hlog', hlog, List.append_assoc]
  · rw [hview', hview, rebuild_append]

/-- Nothing replicated changes and nothing is published. -/
theorem Follows.silent (hlog : R.log s' = R.log s) (hview : R.view s' = R.view s)
    (hready : R.ready s → R.ready s') : R.Follows s s' := by
  intro h
  refine ⟨hready h, [], ?_, hview⟩
  rw [hlog, List.append_nil]

/-- One event announces what changed. -/
theorem Follows.event (e : η) (hlog : R.log s' = R.log s ++ [e])
    (hview : R.ready s → R.view s' = R.apply (R.view s) e) (hready : R.ready s → R.ready s') :
    R.Follows s s' :=
  fun h => ⟨hready h, [e], hlog, hview h⟩

/-- Code that records what it does. -/
def recorded (R : Replication σ η μ) : Footprint ρ σ where
  rel _ s s' := R.Follows s s'
  refl _ _ := .refl
  trans h1 h2 := h1.trans h2

/-- A change outside the view. -/
theorem keeps_silent {f : σ → σ} (hlog : ∀ s, R.log (f s) = R.log s)
    (hview : ∀ s, R.view (f s) = R.view s) (hready : ∀ s, R.ready s → R.ready (f s)) :
    Keeps R.recorded (modify f : Tx ρ σ ε PUnit) :=
  .modify fun _ s => .silent (hlog s) (hview s) (hready s)

/-- An event that says nothing about the view. -/
theorem keeps_remark {f : σ → σ} (e : η) (hlog : ∀ s, R.log (f s) = R.log s ++ [e])
    (hview : ∀ s, R.view (f s) = R.apply (R.view s) e) (hready : ∀ s, R.ready s → R.ready (f s)) :
    Keeps R.recorded (modify f : Tx ρ σ ε PUnit) :=
  .modify fun _ s => .event e (hlog s) (fun _ => hview s) (hready s)

/-! ## Runs -/

variable {after : σ → κ → σ} {emitted : σ → κ → List η}

/-- What the steps of a run publish, one after the other. -/
def published (after : σ → κ → σ) (emitted : σ → κ → List η) : σ → List κ → List η
  | _, [] => []
  | s, k :: ks => emitted s k ++ published after emitted (after s k) ks

/-- If every step is recorded, what a run publishes leads the replica to its end. -/
theorem view_of_run {I : σ → Prop} (h0 : I s)
    (hstep : ∀ s k, I s → I (after s k) ∧
      R.view (after s k) = R.rebuild (R.view s) (emitted s k)) (ks : List κ) :
    R.view (ks.foldl after s) = R.rebuild (R.view s) (published after emitted s ks) := by
  induction ks generalizing s with
  | nil => rfl
  | cons k ks ih =>
    obtain ⟨hnext, hview⟩ := hstep s k h0
    show R.view (ks.foldl after (after s k)) =
      R.rebuild (R.view s) (emitted s k ++ published after emitted (after s k) ks)
    rw [ih hnext, hview, rebuild_append]

end Replication

end Recording
