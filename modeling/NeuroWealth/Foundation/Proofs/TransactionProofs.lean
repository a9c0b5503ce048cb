import NeuroWealth.Foundation.Transaction

/-!
# Reasoning about transactions

The `ok_` lemmas turn a successful run into the facts it establishes, one bind at a time; the
`Keeps` rules compose footprints.
-/

namespace Transaction

variable {ρ σ ε α β : Type} {r : ρ} {s s' : σ}

namespace Tx

@[simp]
theorem ok_pure {a b : α} : (pure a : Tx ρ σ ε α).Ok r s b s' ↔ b = a ∧ s' = s := by
  constructor
  · intro h
    cases h
    exact ⟨rfl, rfl⟩
  · rintro ⟨rfl, rfl⟩
    rfl

/-- A sequence succeeds exactly when its first part does and its second part does from there. -/
@[simp]
theorem ok_bind {x : Tx ρ σ ε α} {f : α → Tx ρ σ ε β} {b : β} :
    (x >>= f).Ok r s b s' ↔ ∃ a t, x.Ok r s a t ∧ (f a).Ok r t b s' := by
  have hrun : ((x >>= f).run r).run s = (x.run r).run s >>= fun p => ((f p.1).run r).run p.2 := rfl
  unfold Ok
  rw [hrun]
  cases h : (x.run r).run s with
  | error e => simp [bind, Except.bind]
  | ok p => exact ⟨fun hf => ⟨p.1, p.2, rfl, hf⟩, fun ⟨a, t, hp, hf⟩ => by cases hp; exact hf⟩

/-- After a first part that succeeds, a sequence does what its second part does. -/
theorem Ok.run_bind {x : Tx ρ σ ε α} {f : α → Tx ρ σ ε β} {a : α} (h : x.Ok r s a s') :
    ((x >>= f).run r).run s = ((f a).run r).run s' := by
  have hrun : ((x >>= f).run r).run s = (x.run r).run s >>= fun p => ((f p.1).run r).run p.2 := rfl
  rw [hrun, h]
  rfl

/-- A sequence succeeds once its first part has and its second part does from there. -/
theorem exists_ok_bind {x : Tx ρ σ ε α} {f : α → Tx ρ σ ε β} {a : α} {t : σ} (h1 : x.Ok r s a t)
    (h2 : ∃ b s', (f a).Ok r t b s') : ∃ b s', (x >>= f).Ok r s b s' := by
  obtain ⟨b, s', h2⟩ := h2
  exact ⟨b, s', ok_bind.mpr ⟨a, t, h1, h2⟩⟩

theorem exists_ok_pure {a : α} : ∃ b s', (pure a : Tx ρ σ ε α).Ok r s b s' :=
  ⟨a, s, ok_pure.mpr ⟨rfl, rfl⟩⟩

@[simp]
theorem ok_map {x : Tx ρ σ ε α} {f : α → β} {b : β} :
    (f <$> x).Ok r s b s' ↔ ∃ a, x.Ok r s a s' ∧ b = f a := by
  have hmap : f <$> x = x >>= fun a => pure (f a) := rfl
  simp only [hmap, ok_bind, ok_pure]
  constructor
  · rintro ⟨a, t, hx, rfl, rfl⟩
    exact ⟨a, hx, rfl⟩
  · rintro ⟨a, hx, rfl⟩
    exact ⟨a, s', hx, rfl, rfl⟩

@[simp]
theorem ok_read {a : ρ} : (read : Tx ρ σ ε ρ).Ok r s a s' ↔ a = r ∧ s' = s := by
  constructor
  · intro h
    cases h
    exact ⟨rfl, rfl⟩
  · rintro ⟨rfl, rfl⟩
    rfl

@[simp]
theorem ok_get {a : σ} : (get : Tx ρ σ ε σ).Ok r s a s' ↔ a = s ∧ s' = s := by
  constructor
  · intro h
    cases h
    exact ⟨rfl, rfl⟩
  · rintro ⟨rfl, rfl⟩
    rfl

@[simp]
theorem ok_modify {f : σ → σ} {u : PUnit} :
    (modify f : Tx ρ σ ε PUnit).Ok r s u s' ↔ s' = f s := by
  constructor
  · intro h
    cases h
    rfl
  · rintro rfl
    rfl

@[simp]
theorem ok_throw {e : ε} {a : α} : ¬ (throw e : Tx ρ σ ε α).Ok r s a s' :=
  fun h => nomatch h

@[simp]
theorem ok_require {c : Prop} [Decidable c] {e : ε} {u : Unit} :
    (require c e : Tx ρ σ ε Unit).Ok r s u s' ↔ c ∧ s' = s := by
  unfold require
  by_cases hc : c
  · simp [hc]
  · simp [hc]

@[simp]
theorem ok_expect {e : ε} {o : Option α} {a : α} :
    (expect e o : Tx ρ σ ε α).Ok r s a s' ↔ o = some a ∧ s' = s := by
  cases o with
  | none => simp [expect]
  | some b => simp [expect, eq_comm]

@[simp]
theorem ok_ite {c : Prop} [Decidable c] {x y : Tx ρ σ ε α} {a : α} :
    (if c then x else y).Ok r s a s' ↔ (c ∧ x.Ok r s a s') ∨ (¬ c ∧ y.Ok r s a s') := by
  by_cases hc : c
  · simp [hc]
  · simp [hc]

@[simp]
theorem ok_onlyIf {c : Prop} [Decidable c] {x : Tx ρ σ ε Unit} {u : Unit} :
    (onlyIf c x).Ok r s u s' ↔ (c ∧ x.Ok r s u s') ∨ (¬ c ∧ s' = s) := by
  simp [onlyIf]

@[simp]
theorem ok_each_nil {f : β → Tx ρ σ ε Unit} {u : Unit} :
    (each f []).Ok r s u s' ↔ s' = s := by
  simp [each]

@[simp]
theorem ok_each_cons {f : β → Tx ρ σ ε Unit} {b : β} {bs : List β} {u : Unit} :
    (each f (b :: bs)).Ok r s u s' ↔ ∃ t, (f b).Ok r s () t ∧ (each f bs).Ok r t u s' := by
  simp only [each, ok_bind]
  constructor
  · rintro ⟨_, t, h1, h2⟩
    exact ⟨t, h1, h2⟩
  · rintro ⟨t, h1, h2⟩
    exact ⟨(), t, h1, h2⟩

theorem ok_each_append {f : β → Tx ρ σ ε Unit} {bs cs : List β} {u : Unit} :
    (each f (bs ++ cs)).Ok r s u s' ↔ ∃ t, (each f bs).Ok r s () t ∧ (each f cs).Ok r t u s' := by
  induction bs generalizing s with
  | nil =>
    simp only [List.nil_append, ok_each_nil]
    exact ⟨fun h => ⟨s, rfl, h⟩, fun ⟨t, ht, h⟩ => ht ▸ h⟩
  | cons b bs ih =>
    simp only [List.cons_append, ok_each_cons, ih]
    constructor
    · rintro ⟨t, h1, t', h2, h3⟩
      exact ⟨t', ⟨t, h1, h2⟩, h3⟩
    · rintro ⟨t', ⟨t, h1, h2⟩, h3⟩
      exact ⟨t, h1, t', h2, h3⟩

/-- A transaction has one outcome. -/
theorem Ok.unique {x : Tx ρ σ ε α} {a b : α} {t : σ} (h1 : x.Ok r s a s') (h2 : x.Ok r s b t) :
    a = b ∧ s' = t := by
  unfold Ok at h1 h2
  rw [h1] at h2
  cases h2
  exact ⟨rfl, rfl⟩

/-- A transaction either commits the state of a successful run or changes nothing. -/
theorem commit_cases (x : Tx ρ σ ε α) (r : ρ) (s : σ) :
    (∃ a, x.Ok r s a (x.commit r s)) ∨ x.commit r s = s := by
  unfold commit Ok
  cases h : (x.run r).run s with
  | error e => exact .inr rfl
  | ok p => exact .inl ⟨p.1, rfl⟩

theorem commit_of_ok {x : Tx ρ σ ε α} {a : α} (h : x.Ok r s a s') : x.commit r s = s' := by
  unfold Ok at h
  unfold commit
  rw [h]

/-- A transaction that fails changes nothing. -/
theorem commit_of_fails {x : Tx ρ σ ε α} (h : x.succeeds r s = false) : x.commit r s = s := by
  unfold succeeds at h
  unfold commit
  cases hrun : (x.run r).run s with
  | error e => rfl
  | ok p =>
    rw [hrun] at h
    exact Bool.noConfusion h

theorem succeeds_of_ok {x : Tx ρ σ ε α} {a : α} (h : x.Ok r s a s') : x.succeeds r s = true := by
  unfold Ok at h
  unfold succeeds
  rw [h]

theorem exists_ok_of_succeeds {x : Tx ρ σ ε α} (h : x.succeeds r s = true) :
    ∃ a s', x.Ok r s a s' := by
  unfold succeeds at h
  unfold Ok
  cases hrun : (x.run r).run s with
  | error e =>
    rw [hrun] at h
    exact Bool.noConfusion h
  | ok p => exact ⟨p.1, p.2, rfl⟩

theorem ok_commit {x : Tx ρ σ ε Unit} (h : x.succeeds r s = true) :
    x.Ok r s () (x.commit r s) := by
  unfold succeeds at h
  unfold Ok commit
  cases hrun : (x.run r).run s with
  | error e =>
    rw [hrun] at h
    exact Bool.noConfusion h
  | ok p => rfl

end Tx

namespace Keeps

variable {F : Footprint ρ σ}

theorem pure (a : α) : Keeps F (Pure.pure a : Tx ρ σ ε α) := by
  intro r s b s' h
  obtain ⟨-, rfl⟩ := Tx.ok_pure.mp h
  exact F.refl _ _

theorem bind {x : Tx ρ σ ε α} {f : α → Tx ρ σ ε β} (hx : Keeps F x) (hf : ∀ a, Keeps F (f a)) :
    Keeps F (x >>= f) := by
  intro r s b s' h
  obtain ⟨a, t, h1, h2⟩ := Tx.ok_bind.mp h
  exact F.trans (hx h1) (hf a h2)

theorem require {c : Prop} [Decidable c] {e : ε} : Keeps F (Tx.require c e : Tx ρ σ ε Unit) := by
  intro r s b s' h
  obtain ⟨-, rfl⟩ := Tx.ok_require.mp h
  exact F.refl _ _

theorem expect {e : ε} {o : Option α} : Keeps F (Tx.expect e o : Tx ρ σ ε α) := by
  intro r s b s' h
  obtain ⟨-, rfl⟩ := Tx.ok_expect.mp h
  exact F.refl _ _

theorem get : Keeps F (MonadState.get : Tx ρ σ ε σ) := by
  intro r s b s' h
  obtain ⟨-, rfl⟩ := Tx.ok_get.mp h
  exact F.refl _ _

theorem read : Keeps F (MonadReader.read : Tx ρ σ ε ρ) := by
  intro r s b s' h
  obtain ⟨-, rfl⟩ := Tx.ok_read.mp h
  exact F.refl _ _

theorem modify {f : σ → σ} (hf : ∀ r s, F.rel r s (f s)) :
    Keeps F (modify f : Tx ρ σ ε PUnit) := by
  intro r s b s' h
  obtain rfl := Tx.ok_modify.mp h
  exact hf r s

theorem ite {c : Prop} [Decidable c] {x y : Tx ρ σ ε α} (hx : Keeps F x) (hy : Keeps F y) :
    Keeps F (if c then x else y) := by
  intro r s b s' h
  rcases Tx.ok_ite.mp h with ⟨-, h⟩ | ⟨-, h⟩
  · exact hx h
  · exact hy h

theorem onlyIf {c : Prop} [Decidable c] {x : Tx ρ σ ε Unit} (hx : Keeps F x) :
    Keeps F (Tx.onlyIf c x) :=
  ite hx (pure ())

theorem each {f : β → Tx ρ σ ε Unit} (hf : ∀ b, Keeps F (f b)) :
    ∀ bs : List β, Keeps F (Tx.each f bs)
  | [] => pure ()
  | b :: bs => bind (hf b) fun _ => each hf bs

/-- A footprint may be widened. -/
theorem mono {G : Footprint ρ σ} {x : Tx ρ σ ε α} (hx : Keeps F x)
    (hFG : ∀ {r s s'}, F.rel r s s' → G.rel r s s') : Keeps G x :=
  fun _ _ _ _ h => hFG (hx h)

/-- Code that changes nothing stays within every footprint. -/
theorem of_unchanged {x : Tx ρ σ ε α} (hx : Keeps unchanged x) : Keeps F x := by
  intro r s a s' h
  obtain rfl := hx h
  exact F.refl _ _

end Keeps

namespace Ensures

variable {P : σ → Prop}

/-- What comes last decides. -/
theorem bind {x : Tx ρ σ ε α} {f : α → Tx ρ σ ε β} (hf : ∀ a, Ensures P (f a)) :
    Ensures P (x >>= f) := by
  intro r s b s' h
  obtain ⟨a, t, -, h2⟩ := Tx.ok_bind.mp h
  exact hf a h2

/-- What comes after may keep the property. -/
theorem then_keeps {F : Footprint ρ σ} {x : Tx ρ σ ε α} {f : α → Tx ρ σ ε β} (hx : Ensures P x)
    (hf : ∀ a, Keeps F (f a)) (hF : ∀ {r s s'}, F.rel r s s' → P s → P s') :
    Ensures P (x >>= f) := by
  intro r s b s' h
  obtain ⟨a, t, h1, h2⟩ := Tx.ok_bind.mp h
  exact hF (hf a h2) (hx h1)

end Ensures

namespace Total

theorem pure (a : α) : Total (Pure.pure a : Tx ρ σ ε α) :=
  fun _ s => ⟨a, s, Tx.ok_pure.mpr ⟨rfl, rfl⟩⟩

theorem get : Total (MonadState.get : Tx ρ σ ε σ) :=
  fun _ s => ⟨s, s, Tx.ok_get.mpr ⟨rfl, rfl⟩⟩

theorem modify {f : σ → σ} : Total (modify f : Tx ρ σ ε PUnit) :=
  fun _ s => ⟨⟨⟩, f s, Tx.ok_modify.mpr rfl⟩

theorem bind {x : Tx ρ σ ε α} {f : α → Tx ρ σ ε β} (hx : Total x) (hf : ∀ a, Total (f a)) :
    Total (x >>= f) := by
  intro r s
  obtain ⟨a, t, h1⟩ := hx r s
  obtain ⟨b, s', h2⟩ := hf a r t
  exact ⟨b, s', Tx.ok_bind.mpr ⟨a, t, h1, h2⟩⟩

theorem ite {c : Prop} [Decidable c] {x y : Tx ρ σ ε α} (hx : Total x) (hy : Total y) :
    Total (if c then x else y) := by
  by_cases hc : c
  · rwa [if_pos hc]
  · rwa [if_neg hc]

theorem onlyIf {c : Prop} [Decidable c] {x : Tx ρ σ ε Unit} (hx : Total x) :
    Total (Tx.onlyIf c x) :=
  ite hx (pure ())

end Total

end Transaction
