import Mathlib

/-!
# Bounded logs

A log that keeps its last entries and drops the oldest ones. Of entries in the order of time those
of a window that ends now are the last ones, so the log has lost some of them only if they are more
than its bound.
-/

namespace BoundedLog

variable {α : Type*} {l : List α} {a : α} {n : ℕ} {p : α → Bool}

/-- The log with one more entry; beyond the bound the oldest ones are dropped. -/
def push (n : ℕ) (l : List α) (a : α) : List α :=
  if n < (l ++ [a]).length then (l ++ [a]).drop ((l ++ [a]).length - n) else l ++ [a]

theorem push_eq_rtake : push n l a = (l ++ [a]).rtake n := by
  unfold push List.rtake
  split_ifs with hlong
  · rfl
  · rw [Nat.sub_eq_zero_of_le (not_lt.mp hlong), List.drop_zero]

/-- What was dropped before plays no part in what is kept. -/
theorem push_rtake : push n (l.rtake n) a = (l ++ [a]).rtake n := by
  rw [push_eq_rtake]
  cases n with
  | zero => simp
  | succ n =>
    rw [List.rtake_concat_succ, List.rtake_concat_succ]
    simp [List.rtake_eq_reverse_take_reverse, List.take_take]

/-- The log of the entries that a history makes: its last ones. -/
theorem foldl_push {β : Type*} {f : β → Option α} (h : List β) :
    h.foldl (fun log b => ((f b).map (push n log)).getD log) [] = (h.filterMap f).rtake n := by
  induction h using List.reverseRecOn with
  | nil => simp
  | append_singleton h b ih =>
    rw [List.foldl_append, List.filterMap_append, ih]
    cases hb : f b with
    | none => simp [hb]
    | some a => simp [hb, push_rtake]

/-- The last entries of a log and its entries in a window up to now. -/
theorem length_filter_rtake (h : l.Pairwise fun a b => p a = true → p b = true) :
    ((l.rtake n).filter p).length = min (l.filter p).length n := by
  induction l with
  | nil => simp
  | cons a l ih =>
    obtain ⟨hfirst, hrest⟩ := List.pairwise_cons.mp h
    by_cases hlong : n ≤ l.length
    · have hsame : (a :: l).rtake n = l.rtake n := by
        unfold List.rtake
        rw [List.length_cons, Nat.succ_sub hlong, List.drop_succ_cons]
      rw [hsame, ih hrest]
      by_cases ha : p a = true
      · have hall : l.filter p = l := List.filter_eq_self.mpr fun b hb => hfirst b hb ha
        rw [List.filter_cons_of_pos ha, hall, List.length_cons]
        omega
      · rw [List.filter_cons_of_neg ha]
    · have hwhole : (a :: l).rtake n = a :: l := by
        unfold List.rtake
        rw [List.length_cons, Nat.sub_eq_zero_of_le (by omega), List.drop_zero]
      have hle : ((a :: l).filter p).length ≤ (a :: l).length := List.length_filter_le _ _
      rw [hwhole]
      rw [List.length_cons] at hle
      omega

end BoundedLog
