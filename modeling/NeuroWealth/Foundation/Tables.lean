import Mathlib

/-!
# Rows of joins, sums over them, and pages of a table

A left join pads a row without a partner with nulls. Two left joins on one row multiply the
partners, so a sum over one side counts each of its rows once for every partner on the other. A page
is the first rows after a key.
-/

namespace Tables

variable {α β : Type}

/-- The partners of a row in a left join; none makes one null row. -/
def outer : List α → List (Option α)
  | [] => [none]
  | a :: l => (a :: l).map some

/-- One row, joined with its partners in two tables. -/
def joined (l : List α) (m : List β) : List (Option α × Option β) :=
  (outer l).flatMap fun a => (outer m).map fun b => (a, b)

/-- The sum of a column over the rows where it is not null; null if it is null everywhere. -/
def sumOf (f : α → ℤ) (rows : List (Option α)) : Option ℤ :=
  match rows.filterMap id with
  | [] => none
  | a :: l => some ((a :: l).map f).sum

/-! ## Sums over joins -/

variable {l : List α} {m : List β} {f : α → ℤ} {g : β → ℤ}

theorem length_outer : (outer l).length = max 1 l.length := by
  cases l with
  | nil => rfl
  | cons a l =>
    unfold outer
    rw [List.length_map, List.length_cons]
    omega

theorem filterMap_outer : (outer l).filterMap id = l := by
  cases l with
  | nil => rfl
  | cons a l =>
    unfold outer
    rw [List.filterMap_map]
    exact List.filterMap_some

/-- The column of the first table: each row once for every partner in the second. -/
theorem filterMap_joined_fst :
    ((joined l m).map Prod.fst).filterMap id =
      l.flatMap fun a => List.replicate (max 1 m.length) a := by
  have hrow : ∀ a : Option α, ((outer m).map fun b => (a, b)).map Prod.fst =
      List.replicate (max 1 m.length) a := by
    intro a
    rw [List.map_map, ← length_outer (l := m)]
    exact List.map_const'
  have hsome : ∀ n (a : α), (List.replicate n (some a)).filterMap id = List.replicate n a :=
    fun n a => List.filterMap_replicate_of_some rfl
  unfold joined
  rw [List.map_flatMap]
  simp only [hrow]
  cases l with
  | nil => simp [outer]
  | cons a l =>
    unfold outer
    rw [List.flatMap_map, List.filterMap_flatMap]
    simp only [hsome]

/-- The column of the second table: all its rows once for every partner in the first. -/
theorem filterMap_joined_snd :
    ((joined l m).map Prod.snd).filterMap id =
      (List.replicate (max 1 l.length) m).flatten := by
  have hrow : ∀ a : Option α, (((outer m).map fun b => (a, b)).map Prod.snd).filterMap id = m := by
    intro a
    rw [List.map_map]
    exact (congrArg _ (List.map_id _)).trans filterMap_outer
  unfold joined
  rw [List.map_flatMap, List.filterMap_flatMap]
  simp only [hrow]
  rw [← length_outer, List.flatMap_def, List.map_const']

theorem sumOf_eq {rows : List (Option α)} (h : rows.filterMap id ≠ []) :
    sumOf f rows = some ((rows.filterMap id).map f).sum := by
  unfold sumOf
  cases hrows : rows.filterMap id with
  | nil => exact absurd hrows h
  | cons a l => rfl

theorem sumOf_null {rows : List (Option α)} (h : rows.filterMap id = []) : sumOf f rows = none := by
  unfold sumOf
  rw [h]

/-- A sum over a join, with null read as zero: the sum of the table, times the partners. -/
theorem sumOf_joined_fst :
    (sumOf f ((joined l m).map Prod.fst)).getD 0 = (l.map f).sum * max 1 m.length := by
  have hsum : ((l.flatMap fun a => List.replicate (max 1 m.length) a).map f).sum =
      (l.map f).sum * max 1 m.length := by
    induction l with
    | nil => simp
    | cons a l ih =>
      rw [List.flatMap_cons, List.map_append, List.sum_append, ih, List.map_replicate,
        List.sum_replicate, List.map_cons, List.sum_cons, add_mul, nsmul_eq_mul, mul_comm (f a)]
  by_cases hnil : ((joined l m).map Prod.fst).filterMap id = []
  · rw [sumOf_null hnil, Option.getD_none, ← hsum, ← filterMap_joined_fst, hnil]
    rfl
  · rw [sumOf_eq hnil, Option.getD_some, filterMap_joined_fst, hsum]

theorem sumOf_joined_snd :
    (sumOf g ((joined l m).map Prod.snd)).getD 0 = (m.map g).sum * max 1 l.length := by
  have hsum : (((List.replicate (max 1 l.length) m).flatten).map g).sum =
      (m.map g).sum * max 1 l.length := by
    rw [List.map_flatten, List.sum_flatten, List.map_map, List.map_replicate, List.sum_replicate]
    simp [mul_comm]
  by_cases hnil : ((joined l m).map Prod.snd).filterMap id = []
  · rw [sumOf_null hnil, Option.getD_none, ← hsum, ← filterMap_joined_snd, hnil]
    rfl
  · rw [sumOf_eq hnil, Option.getD_some, filterMap_joined_snd, hsum]

/-! ## Pages -/

variable {κ : Type} [LinearOrder κ] [OrderBot κ] {key : α → κ} {start : Option κ} {limit fuel : ℕ}

/-- The rows after `start`, the bottom key standing for no start. -/
def after (key : α → κ) (start : Option κ) (rows : List α) : List α :=
  rows.filter fun a => ∀ k ∈ start, k ≠ ⊥ → k < key a

/-- Page after page, each from the key the last one ended with, until one is empty. -/
def pages (key : α → κ) (limit : ℕ) (rows : List α) : ℕ → Option κ → List (List α)
  | 0, _ => []
  | fuel + 1, start =>
    let page := (after key start rows).take limit
    match page.getLast? with
    | none => []
    | some last => page :: pages key limit rows fuel (some (key last))

/-- The rows after the last of a page are the rows the page left. -/
theorem after_getLast {rows before left : List α} {last : α}
    (hsorted : rows.Pairwise fun a b => key a < key b) (hrows : rows = before ++ last :: left)
    (hlast : key last ≠ ⊥) : after key (some (key last)) rows = left := by
  subst hrows
  obtain ⟨-, hleft, hacross⟩ := List.pairwise_append.mp hsorted
  have hbefore : after key (some (key last)) before = [] := by
    refine List.filter_eq_nil_iff.mpr fun a ha => ?_
    have hlt := hacross a ha last (by simp)
    simpa [hlast] using hlt.le
  have hself : after key (some (key last)) (last :: left) = left := by
    unfold after
    rw [List.filter_cons_of_neg (by simp [hlast]), List.filter_eq_self]
    intro a ha
    simpa [hlast] using (List.pairwise_cons.mp hleft).1 a ha
  unfold after at hbefore hself ⊢
  rw [List.filter_append, hbefore, hself, List.nil_append]

/-- A page that is not empty, its last row and what it leaves. -/
theorem take_eq_append {rest : List α} {last : α}
    (h : (rest.take limit).getLast? = some last) :
    ∃ before, rest.take limit = before ++ [last] ∧
      rest = before ++ last :: rest.drop limit := by
  obtain ⟨before, hbefore⟩ := List.getLast?_eq_some_iff.mp h
  refine ⟨before, hbefore, ?_⟩
  calc rest = rest.take limit ++ rest.drop limit := (List.take_append_drop limit rest).symm
    _ = before ++ last :: rest.drop limit := by
      rw [hbefore, List.append_assoc, List.singleton_append]

theorem pages_nil {rows : List α} (h : ((after key start rows).take limit).getLast? = none) :
    pages key limit rows (fuel + 1) start = [] := by
  simp only [pages, h]

theorem pages_cons {rows : List α} {last : α}
    (h : ((after key start rows).take limit).getLast? = some last) :
    pages key limit rows (fuel + 1) start =
      (after key start rows).take limit :: pages key limit rows fuel (some (key last)) := by
  simp only [pages, h]

/-- From a start that has left `rest`, the pages are `rest`, unless the first ends at the bottom. -/
theorem flatten_pages_of {rows before rest : List α}
    (hsorted : rows.Pairwise fun a b => key a < key b) (hlimit : 0 < limit)
    (hrows : rows = before ++ rest) (hafter : after key start rows = rest)
    (hfuel : rest.length ≤ fuel)
    (hfirst : ∀ last ∈ (rest.take limit).getLast?, key last ≠ ⊥) :
    (pages key limit rows fuel start).flatten = rest := by
  induction fuel generalizing start before rest with
  | zero =>
    rw [List.length_eq_zero_iff.mp (Nat.le_zero.mp hfuel)]
    rfl
  | succ fuel ih =>
    cases hlast : (rest.take limit).getLast? with
    | none =>
      have hempty : rest.take limit = [] := List.getLast?_eq_none_iff.mp hlast
      rw [pages_nil (by rw [hafter, hlast])]
      rcases List.take_eq_nil_iff.mp hempty with hzero | hnil
      · omega
      · rw [hnil]
        rfl
    | some last =>
      obtain ⟨taken, hpage, hrest⟩ := take_eq_append hlast
      have hkey : key last ≠ ⊥ := hfirst last hlast
      have hsplit : rows = (before ++ taken) ++ last :: rest.drop limit := by
        rw [List.append_assoc, ← hrest, hrows]
      have hleft : after key (some (key last)) rows = rest.drop limit :=
        after_getLast hsorted hsplit hkey
      have hbelow : ∀ a ∈ rest.drop limit, key last < key a := by
        rw [hsplit] at hsorted
        exact (List.pairwise_cons.mp (List.pairwise_append.mp hsorted).2.1).1
      have hshorter : (rest.drop limit).length ≤ fuel := by
        rw [List.length_drop]
        omega
      have hsplit' : rows = (before ++ taken ++ [last]) ++ rest.drop limit := by
        rw [List.append_assoc _ [last], List.singleton_append, ← hsplit]
      have hnext : (pages key limit rows fuel (some (key last))).flatten = rest.drop limit := by
        refine ih hsplit' hleft hshorter fun a ha => ?_
        have hmem : a ∈ rest.drop limit := List.mem_of_mem_take (List.mem_of_getLast? ha)
        exact (lt_of_le_of_lt bot_le (hbelow a hmem)).ne'
      rw [pages_cons (by rw [hafter, hlast]), List.flatten_cons, hafter, hnext,
        List.take_append_drop]

theorem after_none {rows : List α} : after key none rows = rows := by
  unfold after
  refine List.filter_eq_self.mpr fun a _ => ?_
  simp

theorem after_bot {rows : List α} : after key (some ⊥) rows = rows := by
  unfold after
  refine List.filter_eq_self.mpr fun a _ => ?_
  simp

/-- When the first page ends at the bottom key, it comes again. -/
theorem not_nodup_pages {rows : List α} {last : α} (hlast : (rows.take limit).getLast? = some last)
    (hbot : key last = ⊥) (hfuel : rows.length < fuel) :
    ¬ (pages key limit rows fuel none).flatten.Nodup := by
  intro hnodup
  have hmem : last ∈ rows.take limit := List.mem_of_getLast? hlast
  obtain ⟨n, rfl⟩ : ∃ n, fuel = n + 2 := by
    have hpos := List.length_pos_of_mem (List.mem_of_mem_take hmem)
    exact ⟨fuel - 2, by omega⟩
  have hfirst : ((after key none rows).take limit).getLast? = some last := by rw [after_none, hlast]
  have hsecond : ((after key (some ⊥) rows).take limit).getLast? = some last := by
    rw [after_bot, hlast]
  rw [pages_cons hfirst, hbot, pages_cons hsecond, hbot, after_none, after_bot, List.flatten_cons,
    List.flatten_cons] at hnodup
  exact (List.nodup_append.mp hnodup).2.2 last hmem last (List.mem_append_left _ hmem) rfl

theorem flatten_pages {rows : List α} (hsorted : rows.Pairwise fun a b => key a < key b)
    (hlimit : 0 < limit) (hfuel : rows.length < fuel)
    (hfirst : ∀ last ∈ (rows.take limit).getLast?, key last ≠ ⊥) :
    (pages key limit rows fuel none).flatten = rows :=
  flatten_pages_of hsorted hlimit (List.nil_append rows).symm after_none hfuel.le hfirst

end Tables
