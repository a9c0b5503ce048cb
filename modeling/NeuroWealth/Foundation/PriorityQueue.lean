import Mathlib

/-!
# A queue sorted by priority and time

New entries are appended and the list is sorted again, stably. Entries are taken from the head while
it is due. A head that is not due hides every due entry behind it.
-/

namespace PriorityQueue

variable {α κ τ : Type} [LinearOrder κ] [LinearOrder τ]

/-- What the queue is sorted by: first the priority, smaller first, then the time. -/
structure Keys (α κ τ : Type) where
  priority : α → κ
  dueAt : α → τ

variable (k : Keys α κ τ) {q : List α} {a b c : α} {number : α → ℕ} {now : τ}

/-- `a` may stand before `b`. -/
def Keys.Before (a b : α) : Prop :=
  k.priority a < k.priority b ∨ k.priority a = k.priority b ∧ k.dueAt a ≤ k.dueAt b

instance : DecidableRel k.Before := fun _ _ => inferInstanceAs (Decidable (_ ∨ _))

/-- The order by priority, time and number. -/
def Keys.Precedes (number : α → ℕ) (a b : α) : Prop :=
  k.priority a < k.priority b ∨ k.priority a = k.priority b ∧
    (k.dueAt a < k.dueAt b ∨ k.dueAt a = k.dueAt b ∧ number a < number b)

def Keys.push (q : List α) (a : α) : List α := (q ++ [a]).insertionSort k.Before

/-! ## Order -/

variable {k}

instance : IsTrans α k.Before where
  trans := by
    intro a b c hab hbc
    rcases hab with hab | ⟨hab, hab'⟩ <;> rcases hbc with hbc | ⟨hbc, hbc'⟩
    · exact .inl (hab.trans hbc)
    · exact .inl (hbc ▸ hab)
    · exact .inl (hab ▸ hbc)
    · exact .inr ⟨hab.trans hbc, hab'.trans hbc'⟩

instance : Std.Total k.Before where
  total := by
    intro a b
    rcases lt_trichotomy (k.priority a) (k.priority b) with h | h | h
    · exact .inl (.inl h)
    · rcases le_total (k.dueAt a) (k.dueAt b) with h' | h'
      · exact .inl (.inr ⟨h, h'⟩)
      · exact .inr (.inr ⟨h.symm, h'⟩)
    · exact .inr (.inl h)

theorem Keys.Precedes.before (h : k.Precedes number a b) : k.Before a b := by
  rcases h with h | ⟨h, h' | ⟨h', -⟩⟩
  · exact .inl h
  · exact .inr ⟨h, h'.le⟩
  · exact .inr ⟨h, h'.le⟩

/-- Entries that may stand either way are told apart by their numbers. -/
theorem precedes_of_before (hab : k.Before a b)
    (htied : k.Before b a → number a < number b) : k.Precedes number a b := by
  rcases hab with h | ⟨h, h'⟩
  · exact .inl h
  · refine .inr ⟨h, ?_⟩
    rcases lt_or_eq_of_le h' with hlt | heq
    · exact .inl hlt
    · exact .inr ⟨heq, htied (.inr ⟨h.symm, heq.ge⟩)⟩

theorem Keys.Precedes.number_lt (h : k.Precedes number a b) (hba : k.Before b a) :
    number a < number b := by
  rcases h with h | ⟨h, h' | ⟨-, hnumber⟩⟩
  · rcases hba with hba | ⟨hba, -⟩
    · exact absurd h hba.asymm
    · exact absurd h hba.le.not_gt
  · rcases hba with hba | ⟨-, hba⟩
    · exact absurd h hba.ne'
    · exact absurd h' hba.not_gt
  · exact hnumber

theorem Keys.Precedes.ne (h : k.Precedes number a b) : a ≠ b := by
  rintro rfl
  exact absurd (h.number_lt h.before) (lt_irrefl _)

/-! ## Pushing -/

theorem push_perm : (k.push q a).Perm (q ++ [a]) := List.perm_insertionSort _ _

theorem mem_push {x : α} : x ∈ k.push q a ↔ x ∈ q ∨ x = a := by
  rw [push_perm.mem_iff, List.mem_append, List.mem_singleton]

/-- Two entries of a list stand in one order or the other. -/
theorem sublist_or_sublist {l : List α} (ha : a ∈ l) (hb : b ∈ l) (hne : a ≠ b) :
    [a, b].Sublist l ∨ [b, a].Sublist l := by
  induction l with
  | nil => cases ha
  | cons x l ih =>
    rcases List.mem_cons.mp ha with rfl | ha'
    · rcases List.mem_cons.mp hb with rfl | hb'
      · exact absurd rfl hne
      · exact .inl (List.cons_sublist_cons.mpr (List.singleton_sublist.mpr hb'))
    · rcases List.mem_cons.mp hb with rfl | hb'
      · exact .inr (List.cons_sublist_cons.mpr (List.singleton_sublist.mpr ha'))
      · rcases ih ha' hb' with h | h
        · exact .inl (h.cons x)
        · exact .inr (h.cons x)

theorem not_sublist_swap {l : List α} (hl : l.Nodup) (hab : [a, b].Sublist l) :
    ¬ [b, a].Sublist l := by
  induction l with
  | nil => cases hab
  | cons x l ih =>
    intro hba
    obtain ⟨hx, hl⟩ := List.nodup_cons.mp hl
    rcases List.cons_sublist_cons'.mp hab with hab | ⟨hax, hb⟩
    · rcases List.cons_sublist_cons'.mp hba with hba | ⟨hbx, -⟩
      · exact ih hl hab hba
      · rw [← hbx] at hx
        exact hx (hab.subset (by simp))
    · rw [← hax] at hx
      rcases List.cons_sublist_cons'.mp hba with hba | ⟨hbx, -⟩
      · exact hx (hba.subset (by simp))
      · rw [hax, ← hbx] at hx
        exact hx (List.singleton_sublist.mp hb)

/-- An entry with a new number goes behind the entries it is tied with. -/
theorem pairwise_push (hq : q.Pairwise (k.Precedes number)) (hnew : ∀ x ∈ q, number x < number a) :
    (k.push q a).Pairwise (k.Precedes number) := by
  have hadded : (q ++ [a]).Pairwise fun x y => k.Before y x → number x < number y := by
    refine List.pairwise_append.mpr ⟨hq.imp fun h => h.number_lt, List.pairwise_singleton _ _, ?_⟩
    intro x hx y hy _
    rw [List.mem_singleton.mp hy]
    exact hnew x hx
  have hnodup : (q ++ [a]).Nodup := by
    refine List.nodup_append.mpr ⟨hq.imp fun h => h.ne, List.nodup_singleton _, ?_⟩
    intro x hx y hy hxy
    rw [hxy, List.mem_singleton.mp hy] at hx
    exact absurd (hnew a hx) (lt_irrefl _)
  have hsorted : (k.push q a).Pairwise fun x y => k.Before x y :=
    List.pairwise_insertionSort _ _
  have hdistinct : (k.push q a).Nodup := push_perm.nodup_iff.mpr hnodup
  rw [List.pairwise_iff_forall_sublist] at hsorted hadded ⊢
  intro x y hxy
  have hne : x ≠ y := (List.pairwise_iff_forall_sublist.mp hdistinct) hxy
  refine precedes_of_before (hsorted hxy) fun hyx => ?_
  -- the pair stood in this order before the sort, which swaps no tied entries
  have hmem : ∀ z ∈ [x, y], z ∈ q ++ [a] := fun z hz => push_perm.mem_iff.mp (hxy.subset hz)
  rcases sublist_or_sublist (hmem x (by simp)) (hmem y (by simp)) hne with h | h
  · exact hadded h hyx
  · have hswapped : [y, x].Sublist (k.push q a) := List.pair_sublist_insertionSort hyx h
    exact absurd hswapped (not_sublist_swap hdistinct hxy)

/-! ## Draining -/

/-- Draining the head leaves nothing due exactly when no entry that is not due has a smaller
    priority number than a due one. -/
theorem drained_iff (hq : q.Pairwise fun a b => k.Before a b) :
    (∀ x ∈ q.dropWhile fun x => k.dueAt x ≤ now, now < k.dueAt x) ↔
      ∀ a ∈ q, ∀ b ∈ q, now < k.dueAt a → k.dueAt b ≤ now → k.priority b ≤ k.priority a := by
  induction q with
  | nil => simp
  | cons x q ih =>
    obtain ⟨hx, hq⟩ := List.pairwise_cons.mp hq
    by_cases hdue : k.dueAt x ≤ now
    · rw [List.dropWhile_cons_of_pos (by simpa using hdue), ih hq]
      constructor
      · intro h a ha b hb hlate hdueb
        rcases List.mem_cons.mp ha with rfl | ha'
        · exact absurd hdue (not_le.mpr hlate)
        · rcases List.mem_cons.mp hb with rfl | hb'
          · rcases hx a ha' with hlt | ⟨heq, -⟩
            · exact hlt.le
            · exact heq.le
          · exact h a ha' b hb' hlate hdueb
      · intro h a ha b hb
        exact h a (List.mem_cons_of_mem _ ha) b (List.mem_cons_of_mem _ hb)
    · rw [List.dropWhile_cons_of_neg (by simpa using hdue)]
      constructor
      · intro h a _ b hb _ hdueb
        exact absurd hdueb (not_le.mpr (h b hb))
      · intro h b hb
        by_contra hdueb
        rw [not_lt] at hdueb
        rcases List.mem_cons.mp hb with rfl | hb'
        · exact hdue hdueb
        · have hle := h x (by simp) b hb (not_le.mp hdue) hdueb
          rcases hx b hb' with hlt | ⟨-, htime⟩
          · exact absurd hlt hle.not_gt
          · exact hdue (htime.trans hdueb)

/-! ## The head of a ranking -/

/-- The first of the elements with the highest score. -/
def FirstBest (score : α → κ) (l : List α) (a : α) : Prop :=
  ∃ before after, l = before ++ a :: after ∧ (∀ b ∈ before, score b < score a) ∧
    ∀ b ∈ after, score b ≤ score a

variable {score : α → κ} {l : List α} {x : α}

theorem FirstBest.mem (h : FirstBest score l a) : a ∈ l := by
  obtain ⟨before, after, rfl, -, -⟩ := h
  simp

theorem FirstBest.le (h : FirstBest score l a) (hb : b ∈ l) : score b ≤ score a := by
  obtain ⟨before, after, rfl, hbefore, hafter⟩ := h
  rcases List.mem_append.mp hb with hb | hb
  · exact (hbefore b hb).le
  · rcases List.mem_cons.mp hb with rfl | hb
    · exact le_rfl
    · exact hafter b hb

theorem firstBest_cons : FirstBest score (x :: l) a ↔
    a = x ∧ (∀ b ∈ l, score b ≤ score x) ∨ FirstBest score l a ∧ score x < score a := by
  constructor
  · rintro ⟨before, after, heq, hbefore, hafter⟩
    cases before with
    | nil =>
      obtain ⟨rfl, rfl⟩ := List.cons.inj heq
      exact .inl ⟨rfl, hafter⟩
    | cons y before =>
      obtain ⟨rfl, rfl⟩ := List.cons.inj heq
      exact .inr ⟨⟨before, after, rfl, fun b hb => hbefore b (by simp [hb]), hafter⟩,
        hbefore x (by simp)⟩
  · rintro (⟨rfl, hle⟩ | ⟨⟨before, after, rfl, hbefore, hafter⟩, hlt⟩)
    · exact ⟨[], l, rfl, by simp, hle⟩
    · refine ⟨x :: before, after, rfl, ?_, hafter⟩
      intro b hb
      rcases List.mem_cons.mp hb with rfl | hb
      · exact hlt
      · exact hbefore b hb

/-- A stable sort by score, highest first, puts the first of the best at the head. -/
theorem head?_insertionSort_eq_some :
    (l.insertionSort fun a b => score b ≤ score a).head? = some a ↔ FirstBest score l a := by
  induction l generalizing a with
  | nil => simp [FirstBest]
  | cons x l ih =>
    rw [firstBest_cons, List.insertionSort_cons]
    cases hsort : l.insertionSort fun a b => score b ≤ score a with
    | nil =>
      have hnil : l = [] := by
        have hlength := List.length_insertionSort (fun a b => score b ≤ score a) l
        rw [hsort] at hlength
        exact List.length_eq_zero_iff.mp hlength.symm
      subst hnil
      simp [FirstBest, eq_comm]
    | cons y rest =>
      rw [hsort] at ih
      have hy : FirstBest score l y := ih.mp rfl
      rw [List.orderedInsert_cons]
      by_cases hyx : score y ≤ score x
      · rw [if_pos hyx]
        constructor
        · intro h
          exact .inl ⟨(Option.some.inj h).symm, fun b hb => (hy.le hb).trans hyx⟩
        · rintro (⟨rfl, -⟩ | ⟨ha, hlt⟩)
          · rfl
          · exact absurd ((hy.le ha.mem).trans hyx) hlt.not_ge
      · rw [if_neg hyx]
        constructor
        · intro h
          obtain rfl : y = a := Option.some.inj h
          exact .inr ⟨hy, not_le.mp hyx⟩
        · rintro (⟨-, hle⟩ | ⟨ha, -⟩)
          · exact absurd (hle y hy.mem) hyx
          · exact ih.mpr ha

end PriorityQueue
