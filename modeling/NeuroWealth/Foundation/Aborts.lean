import NeuroWealth.Foundation.Proofs.TransactionProofs

/-!
# How a transaction aborts

The error a transaction aborts with, one bind at a time, and code that never aborts with errors of a
kind.
-/

namespace Transaction

variable {ρ σ ε α β : Type} {r : ρ} {s s' : σ} {e e' : ε}

namespace Tx

/-- Run from environment `r` and state `s`, `x` aborts with `e`. -/
def Aborts (x : Tx ρ σ ε α) (r : ρ) (s : σ) (e : ε) : Prop :=
  (x.run r).run s = .error e

theorem aborts_pure {a : α} : ¬ (pure a : Tx ρ σ ε α).Aborts r s e := by
  intro h
  cases h

/-- A sequence aborts in its first part, or in its second part once the first has succeeded. -/
theorem aborts_bind {x : Tx ρ σ ε α} {f : α → Tx ρ σ ε β} :
    (x >>= f).Aborts r s e ↔ x.Aborts r s e ∨ ∃ a t, x.Ok r s a t ∧ (f a).Aborts r t e := by
  have hrun : ((x >>= f).run r).run s = (x.run r).run s >>= fun p => ((f p.1).run r).run p.2 := rfl
  unfold Aborts Ok
  rw [hrun]
  cases h : (x.run r).run s with
  | error e' => simp [bind, Except.bind]
  | ok p =>
    constructor
    · intro hf
      exact .inr ⟨p.1, p.2, rfl, hf⟩
    · rintro (hx | ⟨a, t, hp, hf⟩)
      · cases hx
      · cases hp
        exact hf

theorem aborts_require {c : Prop} [Decidable c] :
    (require c e : Tx ρ σ ε Unit).Aborts r s e' ↔ ¬ c ∧ e' = e := by
  unfold require
  by_cases hc : c
  · rw [if_pos hc]
    exact ⟨fun h => absurd h aborts_pure, fun h => absurd hc h.1⟩
  · rw [if_neg hc]
    constructor
    · intro h
      cases h
      exact ⟨hc, rfl⟩
    · rintro ⟨-, rfl⟩
      rfl

theorem Ok.not_aborts {x : Tx ρ σ ε α} {a : α} (h : x.Ok r s a s') : ¬ x.Aborts r s e := by
  intro ha
  unfold Ok at h
  unfold Aborts at ha
  rw [ha] at h
  cases h

theorem ok_or_aborts (x : Tx ρ σ ε α) (r : ρ) (s : σ) :
    (∃ a s', x.Ok r s a s') ∨ ∃ e, x.Aborts r s e := by
  unfold Ok Aborts
  cases h : (x.run r).run s with
  | ok p => exact .inl ⟨p.1, p.2, rfl⟩
  | error e => exact .inr ⟨e, rfl⟩

/-- After a part that succeeds only the rest can abort. -/
theorem aborts_bind_of_ok {x : Tx ρ σ ε α} {f : α → Tx ρ σ ε β} {a : α} (h : x.Ok r s a s') :
    (x >>= f).Aborts r s e ↔ (f a).Aborts r s' e := by
  rw [aborts_bind]
  constructor
  · rintro (hx | ⟨b, t, hok, hf⟩)
    · exact absurd hx h.not_aborts
    · obtain ⟨rfl, rfl⟩ := h.unique hok
      exact hf
  · intro hf
    exact .inr ⟨a, s', h, hf⟩

end Tx

/-- `x` never aborts with an error of the kind `E`. -/
def Never {ρ σ ε α : Type} (E : ε → Prop) (x : Tx ρ σ ε α) : Prop :=
  ∀ ⦃r s e⦄, x.Aborts r s e → ¬ E e

namespace Never

variable {E : ε → Prop}

theorem pure (a : α) : Never E (Pure.pure a : Tx ρ σ ε α) :=
  fun _ _ _ h => absurd h Tx.aborts_pure

theorem get : Never E (MonadState.get : Tx ρ σ ε σ) := by
  intro r s e h
  cases h

theorem read : Never E (MonadReader.read : Tx ρ σ ε ρ) := by
  intro r s e h
  cases h

theorem modify {f : σ → σ} : Never E (modify f : Tx ρ σ ε PUnit) := by
  intro r s e h
  cases h

theorem bind {x : Tx ρ σ ε α} {f : α → Tx ρ σ ε β} (hx : Never E x) (hf : ∀ a, Never E (f a)) :
    Never E (x >>= f) := by
  intro r s e h
  rcases Tx.aborts_bind.mp h with h1 | ⟨a, t, -, h2⟩
  · exact hx h1
  · exact hf a h2

theorem require {c : Prop} [Decidable c] (he : ¬ E e) :
    Never E (Tx.require c e : Tx ρ σ ε Unit) := by
  intro r s e' h
  rw [(Tx.aborts_require.mp h).2]
  exact he

theorem expect {o : Option α} (he : ¬ E e) : Never E (Tx.expect e o : Tx ρ σ ε α) := by
  cases o with
  | some a => exact pure a
  | none =>
    intro r s e' h
    cases h
    exact he

theorem ite {c : Prop} [Decidable c] {x y : Tx ρ σ ε α} (hx : Never E x) (hy : Never E y) :
    Never E (if c then x else y) := by
  split
  · exact hx
  · exact hy

theorem onlyIf {c : Prop} [Decidable c] {x : Tx ρ σ ε Unit} (hx : Never E x) :
    Never E (Tx.onlyIf c x) :=
  ite hx (pure ())

end Never

end Transaction
