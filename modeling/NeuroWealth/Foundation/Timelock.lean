import Mathlib

/-!
# Timelocks

A slot holds one proposal and the ledger from which it may be carried out. The history of the
actions on it decides which proposal is open: the latest one, unless it was closed since.
-/

namespace Timelock

variable {α : Type*}

/-- What happens to a slot: a proposal, the end of one (carried out or cancelled), or nothing. -/
inductive Act (α : Type*) where
  | propose (value : α)
  | close
  | idle

/-- A proposal and the ledger it was made at. -/
structure Proposal (α : Type*) where
  value : α
  made : ℕ

/-- The open proposal after one more action. -/
def Act.next (now : ℕ) : Act α → Option (Proposal α) → Option (Proposal α)
  | .propose value, _ => some ⟨value, now⟩
  | .close, _ => none
  | .idle, current => current

/-- The open proposal after a history of actions, oldest first. -/
def latest (acts : List (ℕ × Act α)) : Option (Proposal α) :=
  acts.foldl (fun current act => act.2.next act.1 current) none

/-- What is stored for a proposal; an empty slot has expiry zero. -/
@[ext]
structure Slot (α : Type*) where
  value : Option α
  expiry : ℕ

/-- The slot after an action: a proposal gets the full delay, and its end clears both fields. -/
def Slot.after (slot : Slot α) (delay now : ℕ) : Act α → Slot α
  | .propose value => ⟨some value, now + delay⟩
  | .close => ⟨none, 0⟩
  | .idle => slot

/-- The slot that stores the open proposal. -/
def slotFor (delay : ℕ) : Option (Proposal α) → Slot α
  | none => ⟨none, 0⟩
  | some p => ⟨some p.value, p.made + delay⟩

theorem slotFor_next (delay now : ℕ) (act : Act α) (current : Option (Proposal α)) :
    slotFor delay (act.next now current) = (slotFor delay current).after delay now act := by
  cases act <;> rfl

theorem latest_concat (acts : List (ℕ × Act α)) (now : ℕ) (act : Act α) :
    latest (acts ++ [(now, act)]) = act.next now (latest acts) :=
  List.foldl_concat ..

/-- The open proposal is the last one made, and nothing happened since. -/
theorem latest_eq_some {acts : List (ℕ × Act α)} {p : Proposal α} :
    latest acts = some p ↔ ∃ before since,
      acts = before ++ (p.made, .propose p.value) :: since ∧ ∀ act ∈ since, act.2 = .idle := by
  induction acts using List.reverseRecOn with
  | nil => simp [latest]
  | append_singleton acts last ih =>
    obtain ⟨now, act⟩ := last
    rw [latest_concat]
    constructor
    · intro h
      cases act with
      | propose value =>
        obtain rfl := Option.some.inj h
        exact ⟨acts, [], rfl, by simp⟩
      | close => cases h
      | idle =>
        obtain ⟨before, since, rfl, hidle⟩ := ih.mp h
        refine ⟨before, since ++ [(now, .idle)], by simp, ?_⟩
        intro a ha
        rcases List.mem_append.mp ha with ha | ha
        · exact hidle a ha
        · rw [List.mem_singleton.mp ha]
    · rintro ⟨before, since, hacts, hidle⟩
      rcases List.eq_nil_or_concat since with rfl | ⟨since, last, rfl⟩
      · obtain ⟨-, hlast⟩ := List.append_inj' hacts rfl
        obtain ⟨rfl, rfl⟩ : now = p.made ∧ act = .propose p.value := by simpa using hlast
        rfl
      · have hsplit : acts ++ [(now, act)] =
            (before ++ (p.made, .propose p.value) :: since) ++ [last] := by simpa using hacts
        obtain ⟨hinit, hlast⟩ := List.append_inj' hsplit rfl
        obtain rfl : (now, act) = last := by simpa using hlast
        have hact : act = .idle := hidle (now, act) (by simp)
        subst hact
        refine ih.mpr ⟨before, since, hinit, fun a ha => hidle a ?_⟩
        simp [ha]

end Timelock
