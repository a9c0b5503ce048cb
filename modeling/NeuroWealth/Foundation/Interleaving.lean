import NeuroWealth.Foundation.Runs

/-!
# Interleaved processes

Processes that share a state and take atomic steps in any order. A process is what it will do
next; the world around them may move as well.
-/

namespace Interleaving

/-- The shared state, and where each process stands. -/
@[ext]
structure System (ι σ π : Type) where
  shared : σ
  proc : ι → π

/-- One process takes its next step with some outcome, or the world moves. -/
inductive Move (ι κ ν : Type) where
  | act (i : ι) (outcome : κ)
  | world (change : ν)

/-- What a process and the world can do. `none` is a step that is not possible. -/
structure Rules (ι σ π κ ν : Type) where
  act : ι → σ → π → κ → Option (σ × π)
  world : σ → ν → Option σ

variable {ι σ π κ ν : Type} [DecidableEq ι] {R : Rules ι σ π κ ν} {s s' t : System ι σ π}

/-- The system with process `i` at `p` and the shared state `x`. -/
def System.put (s : System ι σ π) (x : σ) (i : ι) (p : π) : System ι σ π :=
  ⟨x, fun j => if j = i then p else s.proc j⟩

/-- The system after a move; an impossible one changes nothing. -/
def Rules.after (R : Rules ι σ π κ ν) (s : System ι σ π) : Move ι κ ν → System ι σ π
  | .act i outcome =>
    match R.act i s.shared (s.proc i) outcome with
    | some (x, p) => s.put x i p
    | none => s
  | .world change =>
    match R.world s.shared change with
    | some x => ⟨x, s.proc⟩
    | none => s

/-- A run of the processes whose moves are all admissible. -/
def Reaches (R : Rules ι σ π κ ν) (ok : System ι σ π → Move ι κ ν → Prop) :
    System ι σ π → System ι σ π → Prop :=
  Runs.Reaches R.after ok

section Put

variable {x : σ} {i j : ι} {p : π}

@[simp]
theorem System.put_shared : (s.put x i p).shared = x := rfl

@[simp]
theorem System.put_self : (s.put x i p).proc i = p := if_pos rfl

@[simp]
theorem System.put_other (h : j ≠ i) : (s.put x i p).proc j = s.proc j := if_neg h

@[simp]
theorem System.put_put {y : σ} {q : π} : (s.put x i p).put y i q = s.put y i q := by
  unfold System.put
  congr 1
  funext k
  by_cases h : k = i <;> simp [h]

/-- What holds of the mover and of every bystander holds of every process. -/
theorem System.put_forall {P : ι → π → Prop} (hself : P i p)
    (hother : ∀ j, j ≠ i → P j (s.proc j)) (j : ι) : P j ((s.put x i p).proc j) := by
  by_cases h : j = i
  · rw [h, put_self]
    exact hself
  · rw [put_other h]
    exact hother j h

end Put

/-- A move is a step of one process, a change of the world, or nothing. -/
theorem after_cases {P : System ι σ π → Prop} (m : Move ι κ ν) (hkept : P s)
    (hact : ∀ i outcome x p, m = .act i outcome →
      R.act i s.shared (s.proc i) outcome = some (x, p) → P (s.put x i p))
    (hworld : ∀ change x, m = .world change → R.world s.shared change = some x →
      P ⟨x, s.proc⟩) : P (R.after s m) := by
  cases m with
  | act i outcome =>
    rw [Rules.after]
    split
    · exact hact i outcome _ _ rfl (by assumption)
    · exact hkept
  | world change =>
    rw [Rules.after]
    split
    · exact hworld change _ rfl (by assumption)
    · exact hkept

/-- What every admissible step of a process and every change of the world preserves, a run
    preserves. -/
theorem Reaches.invariant {ok : System ι σ π → Move ι κ ν → Prop} {P : System ι σ π → Prop}
    (h : Reaches R ok s s') (h0 : P s)
    (hact : ∀ t i outcome x p, ok t (.act i outcome) → P t →
      R.act i t.shared (t.proc i) outcome = some (x, p) → P (t.put x i p))
    (hworld : ∀ t change x, ok t (.world change) → P t → R.world t.shared change = some x →
      P ⟨x, t.proc⟩) : P s' := by
  apply Runs.Reaches.invariant h h0
  intro t m hm ht
  apply after_cases m ht
  · rintro i outcome x p rfl hstep
    exact hact t i outcome x p hm ht hstep
  · rintro change x rfl hstep
    exact hworld t change x hm ht hstep

theorem after_act {i : ι} {outcome : κ} {x : σ} {p : π}
    (h : R.act i s.shared (s.proc i) outcome = some (x, p)) :
    R.after s (.act i outcome) = s.put x i p := by
  simp only [Rules.after, h]

theorem after_stuck {i : ι} {outcome : κ} (h : R.act i s.shared (s.proc i) outcome = none) :
    R.after s (.act i outcome) = s := by
  simp only [Rules.after, h]

/-- What every move preserves of the past and the present, even an impossible one, a run keeps. -/
theorem history_invariant {ok : System ι σ π → Move ι κ ν → Prop}
    {P : List (System ι σ π × Move ι κ ν) → System ι σ π → Prop} {moves : List (Move ι κ ν)}
    (h : Runs.Admits R.after ok s moves) (h0 : P [] s)
    (hact : ∀ past t i outcome x p, ok t (.act i outcome) → P past t →
      R.act i t.shared (t.proc i) outcome = some (x, p) →
        P (past ++ [(t, .act i outcome)]) (t.put x i p))
    (hstuck : ∀ past t i outcome, P past t → R.act i t.shared (t.proc i) outcome = none →
      P (past ++ [(t, .act i outcome)]) t)
    (hworld : ∀ past t change, ok t (.world change) → P past t →
      P (past ++ [(t, .world change)]) (R.after t (.world change))) :
    P (Runs.history R.after s moves) (moves.foldl R.after s) := by
  apply Runs.Admits.invariant h h0
  rintro past t (⟨i, outcome⟩ | change) hm ht
  · rcases hstep : R.act i t.shared (t.proc i) outcome with _ | ⟨x, p⟩
    · rw [after_stuck hstep]
      exact hstuck past t i outcome ht hstep
    · rw [after_act hstep]
      exact hact past t i outcome x p hm ht hstep
  · exact hworld past t change hm ht

end Interleaving
