import Mathlib

/-!
# Runs of a state machine

A machine is a function from a state and a step to the next state. A run is a finite sequence of
steps, each admissible in the state it is taken in. A machine may implement a specification, of
which its runs are then behaviours.
-/

namespace Runs

variable {σ κ : Type} {after : σ → κ → σ} {ok : σ → κ → Prop} {s s' t : σ}

/-- States connected by a run. -/
def Reaches (after : σ → κ → σ) (ok : σ → κ → Prop) : σ → σ → Prop :=
  Relation.ReflTransGen fun s s' => ∃ k, ok s k ∧ s' = after s k

/-- Each step of a list is admissible in the state the earlier ones lead to. -/
def Admits (after : σ → κ → σ) (ok : σ → κ → Prop) : σ → List κ → Prop
  | _, [] => True
  | s, k :: ks => ok s k ∧ Admits after ok (after s k) ks

instance Admits.decidable [∀ s k, Decidable (ok s k)] :
    (s : σ) → (ks : List κ) → Decidable (Admits after ok s ks)
  | _, [] => isTrue trivial
  | s, k :: ks =>
    haveI := Admits.decidable (after s k) ks
    inferInstanceAs (Decidable (ok s k ∧ Admits after ok (after s k) ks))

/-- The steps of a list, each with the state it is taken in. -/
def history (after : σ → κ → σ) : σ → List κ → List (σ × κ)
  | _, [] => []
  | s, k :: ks => (s, k) :: history after (after s k) ks

namespace Reaches

theorem refl : Reaches after ok s s := Relation.ReflTransGen.refl

/-- One more step at the end of a run. -/
theorem step (h : Reaches after ok s t) (k : κ) (hk : ok t k) : Reaches after ok s (after t k) :=
  h.tail ⟨k, hk, rfl⟩

theorem trans (h1 : Reaches after ok s t) (h2 : Reaches after ok t s') :
    Reaches after ok s s' :=
  Relation.ReflTransGen.trans h1 h2

/-- Admissible steps, taken one after the other, make a run. -/
theorem of_admits {ks : List κ} (h : Admits after ok s ks) : Reaches after ok s (ks.foldl after s) := by
  induction ks generalizing s with
  | nil => exact refl
  | cons k ks ih =>
    obtain ⟨hk, hks⟩ := h
    exact trans (refl.step k hk) (ih hks)

/-- Any steps make a run when every step is admissible. -/
theorem of_steps (ks : List κ) : Reaches after (fun _ _ => True) s (ks.foldl after s) := by
  induction ks generalizing s with
  | nil => exact refl
  | cons k ks ih => exact trans (refl.step k trivial) ih

/-- What one admissible step preserves, a run preserves. -/
theorem invariant {P : σ → Prop} (h : Reaches after ok s s') (h0 : P s)
    (hstep : ∀ t k, ok t k → P t → P (after t k)) : P s' := by
  induction h with
  | refl => exact h0
  | tail _ hlast ih =>
    obtain ⟨k, hk, rfl⟩ := hlast
    exact hstep _ k hk ih

end Reaches

theorem history_concat {ks : List κ} {k : κ} :
    history after s (ks ++ [k]) = history after s ks ++ [(ks.foldl after s, k)] := by
  induction ks generalizing s with
  | nil => rfl
  | cons k' ks ih =>
    show (s, k') :: history after (after s k') (ks ++ [k]) = _
    rw [ih]
    rfl

theorem admits_append {ks ks' : List κ} :
    Admits after ok s (ks ++ ks') ↔
      Admits after ok s ks ∧ Admits after ok (ks.foldl after s) ks' := by
  induction ks generalizing s with
  | nil => exact (and_iff_right trivial).symm
  | cons k ks ih =>
    show ok s k ∧ Admits after ok (after s k) (ks ++ ks') ↔ _
    rw [ih, ← and_assoc]
    exact Iff.rfl

/-- What one admissible step preserves of the past and the present, a run preserves. -/
theorem Admits.invariant {P : List (σ × κ) → σ → Prop} {ks : List κ} {past : List (σ × κ)}
    (h : Admits after ok s ks) (h0 : P past s)
    (hstep : ∀ past t k, ok t k → P past t → P (past ++ [(t, k)]) (after t k)) :
    P (past ++ history after s ks) (ks.foldl after s) := by
  induction ks generalizing s past with
  | nil =>
    rw [history, List.append_nil]
    exact h0
  | cons k ks ih =>
    obtain ⟨hk, hks⟩ := h
    have hnext : P (past ++ [(s, k)]) (after s k) := hstep past s k hk h0
    have hrest := ih hks hnext
    rw [List.append_assoc] at hrest
    exact hrest

/-! ## Since -/

/-- A step of the past opened something, and a property has held in every state since. -/
def Since (opens : σ → κ → Prop) (holds : σ → Prop) (past : List (σ × κ)) (s : σ) : Prop :=
  ∃ before t k later, past = before ++ (t, k) :: later ∧ opens t k ∧ (∀ e ∈ later, holds e.1) ∧
    holds s

namespace Since

variable {opens : σ → κ → Prop} {holds : σ → Prop} {past : List (σ × κ)} {k : κ}

/-- The latest step opens. -/
theorem start (hopens : opens s k) (hholds : holds t) :
    Since opens holds (past ++ [(s, k)]) t :=
  ⟨past, s, k, [], rfl, hopens, fun _ he => absurd he List.not_mem_nil, hholds⟩

/-- The latest step leaves the property in place. -/
theorem extend (h : Since opens holds past s) (hholds : holds t) :
    Since opens holds (past ++ [(s, k)]) t := by
  obtain ⟨before, s', k', later, rfl, hopens, hlater, hs⟩ := h
  refine ⟨before, s', k', later ++ [(s, k)], by simp, hopens, fun e he => ?_, hholds⟩
  rcases List.mem_append.mp he with he | he
  · exact hlater e he
  · rw [List.mem_singleton.mp he]
    exact hs

end Since

/-! ## Simulation up to stuttering -/

section Simulation

variable {τ : Type} {next : τ → τ → Prop} {R : σ → τ → Prop} {a : τ}

/-- Every admissible step is matched by any number of steps of a specification, which is a relation
    on states of its own. -/
def Simulates (after : σ → κ → σ) (ok : σ → κ → Prop) (next : τ → τ → Prop) (R : σ → τ → Prop) :
    Prop :=
  ∀ s a k, R s a → ok s k → ∃ a', Relation.ReflTransGen next a a' ∧ R (after s k) a'

/-- A behaviour of the specification from `a` on goes along with a run, state by state. -/
def Tracks (after : σ → κ → σ) (next : τ → τ → Prop) (R : σ → τ → Prop) : σ → τ → List κ → Prop
  | s, a, [] => R s a
  | s, a, k :: ks =>
    R s a ∧ ∃ a', Relation.ReflTransGen next a a' ∧ Tracks after next R (after s k) a' ks

/-- What the specification keeps may be part of the relation. -/
theorem Simulates.and_invariant {I : τ → Prop} (h : Simulates after ok next R)
    (hI : ∀ a a', I a → next a a' → I a') : Simulates after ok next fun s a => R s a ∧ I a := by
  rintro s a k ⟨hrel, ha⟩ hk
  obtain ⟨a', hpath, hrel'⟩ := h s a k hrel hk
  refine ⟨a', hpath, hrel', ?_⟩
  clear hrel'
  induction hpath with
  | refl => exact ha
  | tail _ hnext ih => exact hI _ _ ih hnext

/-- Whole runs are behaviours of the specification. -/
theorem Simulates.tracks (h : Simulates after ok next R) {ks : List κ} (hks : Admits after ok s ks)
    (h0 : R s a) : Tracks after next R s a ks := by
  induction ks generalizing s a with
  | nil => exact h0
  | cons k ks ih =>
    obtain ⟨hk, hrest⟩ := hks
    obtain ⟨a', hpath, hrel⟩ := h s a k h0 hk
    exact ⟨h0, a', hpath, ih hrest hrel⟩

theorem Tracks.imp {R' : σ → τ → Prop} (himp : ∀ s a, R s a → R' s a) {ks : List κ}
    (h : Tracks after next R s a ks) : Tracks after next R' s a ks := by
  induction ks generalizing s a with
  | nil => exact himp s a h
  | cons k ks ih =>
    obtain ⟨hrel, a', hpath, hrest⟩ := h
    exact ⟨himp s a hrel, a', hpath, ih hrest⟩

end Simulation

end Runs
