import Mathlib

/-!
# Transactions

Code that reads an environment, updates a state and may abort. An aborted transaction has no
effect: `commit` is the state its caller is left with.
-/

namespace Transaction

/-- Computations reading `ρ`, threading `σ` and aborting with `ε`. -/
abbrev Tx (ρ σ ε : Type) : Type → Type := ReaderT ρ (StateT σ (Except ε))

namespace Tx

variable {ρ σ ε α : Type}

/-- Run from environment `r` and state `s`, `x` returns `a` and leaves the state `s'`. -/
def Ok (x : Tx ρ σ ε α) (r : ρ) (s : σ) (a : α) (s' : σ) : Prop :=
  (x.run r).run s = .ok (a, s')

/-- Abort with `e` unless `c` holds. -/
def require (c : Prop) [Decidable c] (e : ε) : Tx ρ σ ε Unit :=
  if c then pure () else throw e

/-- The value of an option, or abort with `e`. -/
def expect (e : ε) : Option α → Tx ρ σ ε α
  | some a => pure a
  | none => throw e

/-- Run `x` only if `c` holds. -/
def onlyIf (c : Prop) [Decidable c] (x : Tx ρ σ ε Unit) : Tx ρ σ ε Unit :=
  if c then x else pure ()

/-- Run `f` on every element of a list, from left to right. -/
def each {β : Type} (f : β → Tx ρ σ ε Unit) : List β → Tx ρ σ ε Unit
  | [] => pure ()
  | b :: bs => do
    f b
    each f bs

/-- The state after trying `x`: an abort leaves it as it was. -/
def commit (x : Tx ρ σ ε α) (r : ρ) (s : σ) : σ :=
  match (x.run r).run s with
  | .ok (_, s') => s'
  | .error _ => s

/-- Whether `x` succeeds. -/
def succeeds (x : Tx ρ σ ε α) (r : ρ) (s : σ) : Bool :=
  match (x.run r).run s with
  | .ok _ => true
  | .error _ => false

end Tx

/-- What a piece of code may do to the state in each environment: a reflexive and transitive
    relation. -/
structure Footprint (ρ σ : Type) where
  /-- The pairs of states before and after. -/
  rel : ρ → σ → σ → Prop
  refl : ∀ r s, rel r s s
  trans : ∀ {r s t u}, rel r s t → rel r t u → rel r s u

/-- The state stays as it is. -/
def unchanged {ρ σ : Type} : Footprint ρ σ where
  rel _ s s' := s' = s
  refl _ _ := rfl
  trans h1 h2 := h2.trans h1

/-- Every successful run of `x` stays within the footprint `F`. -/
def Keeps {ρ σ ε α : Type} (F : Footprint ρ σ) (x : Tx ρ σ ε α) : Prop :=
  ∀ ⦃r s a s'⦄, x.Ok r s a s' → F.rel r s s'

/-- Every successful run of `x` ends in a state with the property, wherever it starts. -/
def Ensures {ρ σ ε α : Type} (P : σ → Prop) (x : Tx ρ σ ε α) : Prop :=
  ∀ ⦃r s a s'⦄, x.Ok r s a s' → P s'

/-- Code that never aborts. -/
def Total {ρ σ ε α : Type} (x : Tx ρ σ ε α) : Prop :=
  ∀ r s, ∃ a s', x.Ok r s a s'

end Transaction
