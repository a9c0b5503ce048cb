import Mathlib

/-!
# Regular expressions

Matching with backtracking: a pattern yields its matches from a position in the order in which they
are tried, and a search takes the first match from the leftmost position that has one. `Takes` is
what a pattern means, whatever the order.
-/

namespace Regex

inductive Pattern where
  | word (w : List Char)
  | one (p : Char → Bool)
  /-- Any number of characters of a class, as many as possible first. -/
  | many (p : Char → Bool)
  /-- The pattern, or else nothing. -/
  | opt (a : Pattern)
  | seq (a b : Pattern)
  | alt (a b : Pattern)
  /-- `\b` -/
  | boundary
  /-- `^` -/
  | start
  /-- `$` -/
  | stop
  /-- A group that is captured. -/
  | group (a : Pattern)

/-- A match: its text, the texts of its groups that took part, and what follows. -/
structure Hit where
  text : List Char
  groups : List (List Char)
  rest : List Char
deriving DecidableEq

/-- A match followed by another one. -/
def Hit.andThen (h k : Hit) : Hit := ⟨h.text ++ k.text, h.groups ++ k.groups, k.rest⟩

/-- `\w` -/
def isWord (c : Char) : Bool := c.isAlphanum || c = '_'

/-- The character before `rest`, after `text` was read behind `prev`. -/
def lastOf (prev : Option Char) (text : List Char) : Option Char := text.getLast?.or prev

/-- All beginnings of a text within a class, the longest first. -/
def runs (p : Char → Bool) : List Char → List Hit
  | [] => [⟨[], [], []⟩]
  | c :: s =>
    (if p c then (runs p s).map (Hit.andThen ⟨[c], [], s⟩) else []) ++ [⟨[], [], c :: s⟩]

namespace Pattern

/-- The matches at a position, given the character before it. -/
def run : Pattern → Option Char → List Char → List Hit
  | word w, _, s => if w <+: s then [⟨w, [], s.drop w.length⟩] else []
  | one _, _, [] => []
  | one p, _, c :: s => if p c then [⟨[c], [], s⟩] else []
  | many p, _, s => runs p s
  | opt a, prev, s => a.run prev s ++ [⟨[], [], s⟩]
  | seq a b, prev, s =>
    (a.run prev s).flatMap fun h => (b.run (lastOf prev h.text) h.rest).map h.andThen
  | alt a b, prev, s => a.run prev s ++ b.run prev s
  | boundary, prev, s => if prev.any isWord ≠ s.head?.any isWord then [⟨[], [], s⟩] else []
  | start, prev, s => if prev = none then [⟨[], [], s⟩] else []
  | stop, _, s => if s = [] then [⟨[], [], s⟩] else []
  | group a, prev, s => (a.run prev s).map fun h => ⟨h.text, h.text :: h.groups, h.rest⟩

/-- One or more characters of a class. -/
def some (p : Char → Bool) : Pattern := seq (one p) (many p)

/-- Up to `n` characters of a class. -/
def atMost (p : Char → Bool) : ℕ → Pattern
  | 0 => word []
  | n + 1 => opt (seq (one p) (atMost p n))

/-- The first match. -/
def search (a : Pattern) : Option Char → List Char → Option Hit
  | prev, [] => (a.run prev []).head?
  | prev, c :: s => (a.run prev (c :: s)).head?.or (a.search (Option.some c) s)

/-- `a.exec(s)`. -/
def exec (a : Pattern) (s : List Char) : Option Hit := a.search none s

/-- `a.test(s)`. -/
def test (a : Pattern) (s : List Char) : Bool := (a.exec s).isSome

/-- The text of the first group of the first match. -/
def capture (a : Pattern) (s : List Char) : Option (List Char) :=
  (a.exec s).bind fun h => h.groups.head?

/-- Behind `prev` and before `rest`, the pattern can match `text`. -/
def Takes (a : Pattern) (prev : Option Char) (text rest : List Char) : Prop :=
  ∃ h ∈ a.run prev (text ++ rest), h.text = text ∧ h.rest = rest

end Pattern

/-- One of the words, in their order. -/
def oneOf : List String → Pattern
  | [] => .one fun _ => false
  | w :: words => .alt (.word w.toList) (oneOf words)

open Pattern

attribute [local simp] run

variable {a b d : Pattern} {p : Char → Bool} {prev : Option Char} {s text rest w : List Char}
  {h : Hit}

/-! ## What a pattern takes -/

theorem lastOf_nil : lastOf prev [] = prev := by simp [lastOf]

theorem lastOf_append : lastOf prev (s ++ text) = lastOf (lastOf prev s) text := by
  unfold lastOf
  rw [List.getLast?_append, Option.or_assoc]

theorem mem_runs : h ∈ runs p s ↔ h.text ++ h.rest = s ∧ h.groups = [] ∧ ∀ c ∈ h.text, p c := by
  induction s generalizing h with
  | nil =>
    obtain ⟨text, groups, rest⟩ := h
    simp only [runs, List.mem_singleton, Hit.mk.injEq, List.append_eq_nil_iff]
    constructor
    · rintro ⟨rfl, rfl, rfl⟩
      simp
    · rintro ⟨⟨rfl, rfl⟩, rfl, -⟩
      simp
  | cons c s ih =>
    obtain ⟨text, groups, rest⟩ := h
    rw [runs, List.mem_append, List.mem_singleton]
    by_cases hc : p c
    · rw [if_pos hc, List.mem_map]
      constructor
      · rintro (⟨k, hk, heq⟩ | heq)
        · obtain ⟨happend, hgroups, hall⟩ := ih.mp hk
          rw [← heq]
          refine ⟨congrArg (c :: ·) happend, hgroups, fun d hd => ?_⟩
          rcases List.mem_cons.mp hd with rfl | hd
          · exact hc
          · exact hall d hd
        · rw [heq]
          simp
      · rintro ⟨happend, hgroups, hall⟩
        dsimp only at happend hgroups hall
        subst hgroups
        cases text with
        | nil => exact .inr (by rw [← happend, List.nil_append])
        | cons d text =>
          obtain ⟨rfl, htail⟩ := List.cons.inj happend
          refine .inl ⟨⟨text, [], rest⟩, ih.mpr ⟨htail, rfl, fun e he => ?_⟩, rfl⟩
          exact hall e (List.mem_cons_of_mem _ he)
    · rw [if_neg hc]
      constructor
      · rintro (hmem | heq)
        · cases hmem
        · rw [heq]
          simp
      · rintro ⟨happend, hgroups, hall⟩
        dsimp only at happend hgroups hall
        subst hgroups
        cases text with
        | nil => exact .inr (by rw [← happend, List.nil_append])
        | cons d text =>
          obtain ⟨rfl, -⟩ := List.cons.inj happend
          exact absurd (hall d (by simp)) hc

/-- A match is a piece of the text. -/
theorem run_sound (hh : h ∈ a.run prev s) : h.text ++ h.rest = s := by
  induction a generalizing prev s h with
  | word w =>
    simp only [run] at hh
    split_ifs at hh with hprefix
    · obtain rfl := List.mem_singleton.mp hh
      obtain ⟨r, rfl⟩ := hprefix
      simp
    · cases hh
  | one p =>
    cases s with
    | nil => cases hh
    | cons c s =>
      simp only [run] at hh
      split_ifs at hh
      · obtain rfl := List.mem_singleton.mp hh
        rfl
      · cases hh
  | many p => exact (mem_runs.mp hh).1
  | opt a ih =>
    rcases List.mem_append.mp hh with hh | hh
    · exact ih hh
    · obtain rfl := List.mem_singleton.mp hh
      rfl
  | seq a b iha ihb =>
    obtain ⟨k, hk, hh⟩ := List.mem_flatMap.mp hh
    obtain ⟨l, hl, rfl⟩ := List.mem_map.mp hh
    rw [← iha hk, ← ihb hl]
    exact List.append_assoc _ _ _
  | alt a b iha ihb =>
    rcases List.mem_append.mp hh with hh | hh
    · exact iha hh
    · exact ihb hh
  | boundary | start | stop =>
    simp only [run] at hh
    split_ifs at hh
    · obtain rfl := List.mem_singleton.mp hh
      rfl
    · cases hh
  | group a ih =>
    obtain ⟨k, hk, rfl⟩ := List.mem_map.mp hh
    have hs := ih hk
    exact hs

theorem run_ne_nil :
    a.run prev s ≠ [] ↔ ∃ text rest, s = text ++ rest ∧ a.Takes prev text rest := by
  constructor
  · intro hne
    obtain ⟨h, hh⟩ := List.exists_mem_of_ne_nil _ hne
    have hs := run_sound hh
    refine ⟨h.text, h.rest, hs.symm, h, ?_, rfl, rfl⟩
    rwa [hs]
  · rintro ⟨text, rest, rfl, h, hh, -⟩ hnil
    rw [hnil] at hh
    cases hh

@[simp]
theorem takes_word : (word w).Takes prev text rest ↔ text = w := by
  unfold Takes
  constructor
  · rintro ⟨h, hh, rfl, -⟩
    simp only [run] at hh
    split_ifs at hh
    · rw [List.mem_singleton.mp hh]
    · cases hh
  · rintro rfl
    refine ⟨⟨text, [], rest⟩, ?_, rfl, rfl⟩
    simp

@[simp]
theorem takes_one : (one p).Takes prev text rest ↔ ∃ c, text = [c] ∧ p c := by
  unfold Takes
  constructor
  · rintro ⟨h, hh, rfl, hrest⟩
    cases hs : h.text ++ rest with
    | nil =>
      rw [hs] at hh
      cases hh
    | cons c s =>
      rw [hs] at hh
      simp only [run] at hh
      split_ifs at hh with hc
      · exact ⟨c, by rw [List.mem_singleton.mp hh], hc⟩
      · cases hh
  · rintro ⟨c, rfl, hc⟩
    exact ⟨⟨[c], [], rest⟩, by simp [run, hc], rfl, rfl⟩

@[simp]
theorem takes_many : (many p).Takes prev text rest ↔ ∀ c ∈ text, p c := by
  unfold Takes
  constructor
  · rintro ⟨h, hh, rfl, -⟩
    exact (mem_runs.mp hh).2.2
  · intro hall
    exact ⟨⟨text, [], rest⟩, mem_runs.mpr ⟨rfl, rfl, hall⟩, rfl, rfl⟩

@[simp]
theorem takes_opt : (opt a).Takes prev text rest ↔ a.Takes prev text rest ∨ text = [] := by
  unfold Takes
  constructor
  · rintro ⟨h, hh, htext, hrest⟩
    rcases List.mem_append.mp hh with hh | hh
    · exact .inl ⟨h, hh, htext, hrest⟩
    · rw [← htext, List.mem_singleton.mp hh]
      exact .inr rfl
  · rintro (⟨h, hh, htext, hrest⟩ | rfl)
    · exact ⟨h, List.mem_append_left _ hh, htext, hrest⟩
    · exact ⟨⟨[], [], rest⟩, by simp, rfl, rfl⟩

@[simp]
theorem takes_seq : (seq a b).Takes prev text rest ↔ ∃ t u, text = t ++ u ∧
    a.Takes prev t (u ++ rest) ∧ b.Takes (lastOf prev t) u rest := by
  unfold Takes
  constructor
  · rintro ⟨h, hh, rfl, rfl⟩
    obtain ⟨k, hk, hh⟩ := List.mem_flatMap.mp hh
    obtain ⟨l, hl, rfl⟩ := List.mem_map.mp hh
    have hmid := run_sound hl
    refine ⟨k.text, l.text, rfl, ⟨k, ?_, rfl, hmid.symm⟩, ⟨l, ?_, rfl, rfl⟩⟩
    · simpa [Hit.andThen] using hk
    · change l ∈ b.run (lastOf prev k.text) (l.text ++ l.rest)
      rwa [hmid]
  · rintro ⟨t, u, rfl, ⟨k, hk, rfl, hkr⟩, ⟨l, hl, rfl, rfl⟩⟩
    refine ⟨k.andThen l, List.mem_flatMap.mpr ⟨k, ?_, List.mem_map_of_mem ?_⟩, rfl, rfl⟩
    · rwa [List.append_assoc]
    · rwa [hkr]

@[simp]
theorem takes_alt : (alt a b).Takes prev text rest ↔
    a.Takes prev text rest ∨ b.Takes prev text rest := by
  unfold Takes
  simp only [run, List.mem_append, or_and_right, exists_or]

@[simp]
theorem takes_boundary : boundary.Takes prev text rest ↔
    text = [] ∧ prev.any isWord ≠ rest.head?.any isWord := by
  unfold Takes
  constructor
  · rintro ⟨h, hh, rfl, rfl⟩
    simp only [run] at hh
    split_ifs at hh with hne
    · have hnil : h.text = [] := by rw [List.mem_singleton.mp hh]
      rw [hnil, List.nil_append] at hne
      exact ⟨hnil, hne⟩
    · cases hh
  · rintro ⟨rfl, hne⟩
    exact ⟨⟨[], [], rest⟩, by simp [run, hne], rfl, rfl⟩

@[simp]
theorem takes_start : start.Takes prev text rest ↔ text = [] ∧ prev = none := by
  unfold Takes
  constructor
  · rintro ⟨h, hh, rfl, rfl⟩
    simp only [run] at hh
    split_ifs at hh with hprev
    · exact ⟨by rw [List.mem_singleton.mp hh], hprev⟩
    · cases hh
  · rintro ⟨rfl, rfl⟩
    exact ⟨⟨[], [], rest⟩, by simp, rfl, rfl⟩

@[simp]
theorem takes_stop : stop.Takes prev text rest ↔ text = [] ∧ rest = [] := by
  unfold Takes
  constructor
  · rintro ⟨h, hh, rfl, rfl⟩
    simp only [run] at hh
    split_ifs at hh with hnil
    · exact List.append_eq_nil_iff.mp hnil
    · cases hh
  · rintro ⟨rfl, rfl⟩
    exact ⟨⟨[], [], []⟩, by simp, rfl, rfl⟩

@[simp]
theorem takes_group : (group a).Takes prev text rest ↔ a.Takes prev text rest := by
  unfold Takes
  constructor
  · rintro ⟨h, hh, rfl, rfl⟩
    obtain ⟨k, hk, rfl⟩ := List.mem_map.mp hh
    exact ⟨k, hk, rfl, rfl⟩
  · rintro ⟨h, hh, rfl, rfl⟩
    exact ⟨_, List.mem_map_of_mem hh, rfl, rfl⟩

@[simp]
theorem takes_some : (Pattern.some p).Takes prev text rest ↔ text ≠ [] ∧ ∀ c ∈ text, p c := by
  unfold Pattern.some
  rw [takes_seq]
  simp only [takes_one, takes_many]
  constructor
  · rintro ⟨t, u, rfl, ⟨c, rfl, hc⟩, hall⟩
    simpa [hc] using hall
  · rintro ⟨hne, hall⟩
    obtain ⟨c, u, rfl⟩ := List.exists_cons_of_ne_nil hne
    exact ⟨[c], u, rfl, ⟨c, rfl, hall c (by simp)⟩, fun d hd => hall d (List.mem_cons_of_mem _ hd)⟩

@[simp]
theorem takes_atMost {n : ℕ} : (Pattern.atMost p n).Takes prev text rest ↔
    text.length ≤ n ∧ ∀ c ∈ text, p c := by
  induction n generalizing prev text with
  | zero =>
    rw [Pattern.atMost, takes_word, Nat.le_zero, List.length_eq_zero_iff]
    constructor
    · rintro rfl
      exact ⟨rfl, by simp⟩
    · exact fun h => h.1
  | succ n ih =>
    rw [Pattern.atMost, takes_opt, takes_seq]
    simp only [takes_one, ih]
    constructor
    · rintro (⟨t, u, rfl, ⟨c, rfl, hc⟩, hlength, hall⟩ | rfl)
      · exact ⟨by simpa using hlength, by simpa [hc] using hall⟩
      · simp
    · rintro ⟨hlength, hall⟩
      cases text with
      | nil => exact .inr rfl
      | cons c u =>
        refine .inl ⟨[c], u, rfl, ⟨c, rfl, hall c List.mem_cons_self⟩, by simpa using hlength, ?_⟩
        exact fun d hd => hall d (List.mem_cons_of_mem _ hd)

/-! ## Searching -/

/-- A search finds the first match at the leftmost position that has one. -/
theorem search_eq_some (hs : a.search prev s = Option.some h) :
    ∃ before after, s = before ++ after ∧
      (a.run (lastOf prev before) after).head? = Option.some h ∧
      ∀ t u, s = t ++ u → t.length < before.length → a.run (lastOf prev t) u = [] := by
  induction s generalizing prev with
  | nil => exact ⟨[], [], rfl, by rwa [lastOf_nil], fun _ _ _ hlt => absurd hlt (Nat.not_lt_zero _)⟩
  | cons c s ih =>
    unfold search at hs
    rcases Option.or_eq_some_iff.mp hs with hhead | ⟨hnone, hlater⟩
    · exact ⟨[], c :: s, rfl, by rwa [lastOf_nil], fun _ _ _ hlt => absurd hlt (Nat.not_lt_zero _)⟩
    · obtain ⟨before, after, rfl, hrun, hfirst⟩ := ih hlater
      refine ⟨c :: before, after, rfl, by rwa [← List.singleton_append, lastOf_append], ?_⟩
      intro t u heq hlt
      cases t with
      | nil =>
        rw [lastOf_nil, ← List.nil_append u, ← heq]
        exact List.head?_eq_none_iff.mp hnone
      | cons d t =>
        obtain ⟨rfl, htail⟩ := List.cons.inj heq
        rw [← List.singleton_append, lastOf_append]
        exact hfirst t u htail (Nat.lt_of_succ_lt_succ hlt)

theorem isSome_search : (a.search prev s).isSome ↔
    ∃ before after, s = before ++ after ∧ a.run (lastOf prev before) after ≠ [] := by
  constructor
  · intro hs
    obtain ⟨h, hs⟩ := Option.isSome_iff_exists.mp hs
    obtain ⟨before, after, happend, hrun, -⟩ := search_eq_some hs
    refine ⟨before, after, happend, fun hnil => ?_⟩
    rw [hnil] at hrun
    cases hrun
  · rintro ⟨before, after, rfl, hne⟩
    induction before generalizing prev with
    | nil =>
      rw [lastOf_nil] at hne
      have hhead : ((a.run prev after).head?).isSome := by simpa using hne
      cases after with
      | nil => exact hhead
      | cons c after =>
        rw [List.nil_append, search, Option.isSome_or, hhead, Bool.true_or]
    | cons c before ih =>
      rw [← List.singleton_append, lastOf_append] at hne
      have hlater : (a.search (Option.some c) (before ++ after)).isSome := ih hne
      rw [List.cons_append, search, Option.isSome_or, hlater, Bool.or_true]

/-- A pattern is found where it can match a piece of the text. -/
theorem test_iff : a.test s ↔
    ∃ before text rest, s = before ++ (text ++ rest) ∧ a.Takes before.getLast? text rest := by
  have hlast : ∀ before : List Char, lastOf none before = before.getLast? := fun before => by
    simp [lastOf]
  unfold test exec
  simp only [isSome_search, run_ne_nil, hlast]
  constructor
  · rintro ⟨before, after, rfl, text, rest, rfl, htakes⟩
    exact ⟨before, text, rest, rfl, htakes⟩
  · rintro ⟨before, text, rest, rfl, htakes⟩
    exact ⟨before, _, rfl, text, rest, rfl, htakes⟩

theorem takes_of_mem (hh : h ∈ a.run prev s) : a.Takes prev h.text h.rest := by
  refine ⟨h, ?_, rfl, rfl⟩
  rwa [run_sound hh]

/-- What a search for a group captures is a piece of the text that the group takes. -/
theorem capture_group (hs : (group a).capture s = Option.some text) :
    ∃ before rest, s = before ++ (text ++ rest) ∧ a.Takes (lastOf none before) text rest := by
  obtain ⟨hit, hexec, hgroup⟩ := Option.bind_eq_some_iff.mp hs
  obtain ⟨before, after, rfl, hhead, -⟩ := search_eq_some hexec
  obtain ⟨k, hk, rfl⟩ := List.mem_map.mp (List.mem_of_head? hhead)
  obtain rfl := Option.some.inj hgroup
  exact ⟨before, k.rest, by rw [run_sound hk], takes_of_mem hk⟩

/-! ## First matches -/

theorem run_seq : (seq a b).run prev s =
    (a.run prev s).flatMap fun h => (b.run (lastOf prev h.text) h.rest).map h.andThen := rfl

theorem map_empty_andThen {l : List Hit} : l.map (Hit.andThen ⟨[], [], s⟩) = l :=
  List.map_id _

theorem andThen_assoc {k l : Hit} : (h.andThen k).andThen l = h.andThen (k.andThen l) := by
  simp [Hit.andThen]

theorem run_seq_assoc : (seq (seq a b) d).run prev s = (seq a (seq b d)).run prev s := by
  rw [run_seq, run_seq, run_seq, List.flatMap_assoc]
  refine List.flatMap_congr fun h _ => ?_
  rw [run_seq, List.flatMap_map, List.map_flatMap]
  refine List.flatMap_congr fun k _ => ?_
  rw [List.map_map]
  have hlast : lastOf prev (h.andThen k).text = lastOf (lastOf prev h.text) k.text := lastOf_append
  rw [hlast]
  exact List.map_congr_left fun l _ => andThen_assoc

theorem run_boundary_seq : (seq boundary a).run prev s =
    if prev.any isWord ≠ s.head?.any isWord then a.run prev s else [] := by
  rw [run_seq, run]
  split_ifs with hne
  · rw [List.flatMap_singleton, lastOf_nil]
    exact map_empty_andThen
  · rfl

theorem run_word_seq : (seq (word w) a).run prev s =
    if w <+: s then (a.run (lastOf prev w) (s.drop w.length)).map
      (Hit.andThen ⟨w, [], s.drop w.length⟩) else [] := by
  rw [run_seq, run]
  split_ifs with hprefix
  · rw [List.flatMap_singleton]
  · rfl

theorem head_runs : (runs p s).head? = Option.some ⟨s.takeWhile p, [], s.dropWhile p⟩ := by
  induction s with
  | nil => rfl
  | cons c s ih =>
    by_cases hc : p c
    · rw [runs, if_pos hc, List.head?_append, List.head?_map, ih, List.takeWhile_cons_of_pos hc,
        List.dropWhile_cons_of_pos hc]
      rfl
    · rw [runs, if_neg hc, List.takeWhile_cons_of_neg hc, List.dropWhile_cons_of_neg hc]
      rfl

/-- What follows a class but cannot start in it comes after all of its characters. -/
theorem run_many_seq (hdisjoint : ∀ c prev s, p c → a.run prev (c :: s) = []) :
    (seq (many p) a).run prev s = (a.run (lastOf prev (s.takeWhile p)) (s.dropWhile p)).map
      (Hit.andThen ⟨s.takeWhile p, [], s.dropWhile p⟩) := by
  rw [run_seq, run]
  induction s generalizing prev with
  | nil => exact List.flatMap_singleton _ _
  | cons c s ih =>
    by_cases hc : p c
    · have hshort : (a.run (lastOf prev []) (c :: s)).map (Hit.andThen ⟨[], [], c :: s⟩) = [] := by
        rw [hdisjoint c _ s hc]
        rfl
      have hlong : ∀ h : Hit, lastOf prev (Hit.andThen ⟨[c], [], s⟩ h).text =
          lastOf (lastOf prev [c]) h.text := fun _ => lastOf_append
      have hlast : lastOf prev (c :: s.takeWhile p) = lastOf (lastOf prev [c]) (s.takeWhile p) :=
        lastOf_append (s := [c])
      rw [runs, if_pos hc, List.flatMap_append, List.flatMap_singleton, hshort, List.append_nil,
        List.flatMap_map, List.takeWhile_cons_of_pos hc, List.dropWhile_cons_of_pos hc, hlast]
      have hmap := congrArg (List.map (Hit.andThen ⟨[c], [], s⟩)) (@ih (lastOf prev [c]))
      rw [List.map_flatMap, List.map_map] at hmap
      refine Eq.trans (List.flatMap_congr fun h _ => ?_) (hmap.trans ?_)
      · rw [hlong, List.map_map]
        exact List.map_congr_left fun l _ => andThen_assoc
      · exact List.map_congr_left fun l _ => andThen_assoc.symm
    · rw [runs, if_neg hc, List.nil_append, List.flatMap_singleton, List.takeWhile_cons_of_neg hc,
        List.dropWhile_cons_of_neg hc]

/-- What follows a class and can match behind its longest run is tried there first. -/
theorem head_many_seq (hne : a.run (lastOf prev (s.takeWhile p)) (s.dropWhile p) ≠ []) :
    ((seq (many p) a).run prev s).head? =
      (a.run (lastOf prev (s.takeWhile p)) (s.dropWhile p)).head?.map
        (Hit.andThen ⟨s.takeWhile p, [], s.dropWhile p⟩) := by
  obtain ⟨tail, hruns⟩ := List.head?_eq_some_iff.mp (head_runs (p := p) (s := s))
  rw [run_seq, run, hruns, List.flatMap_cons, List.head?_append_of_ne_nil, List.head?_map]
  simpa using hne

theorem run_some_seq_cons {c : Char} (hc : p c) : (seq (Pattern.some p) a).run prev (c :: s) =
    ((seq (many p) a).run (Option.some c) s).map (Hit.andThen ⟨[c], [], s⟩) := by
  rw [Pattern.some, run_seq_assoc, run_seq, run, if_pos hc, List.flatMap_singleton]
  rfl

theorem run_some_seq_of_neg (hs : ∀ c ∈ s.head?, ¬ p c) :
    (seq (Pattern.some p) a).run prev s = [] := by
  rw [Pattern.some, run_seq_assoc, run_seq]
  cases s with
  | nil => rfl
  | cons c s =>
    rw [run, if_neg (hs c rfl)]
    rfl

theorem head_some {c : Char} (hc : p c) : ((Pattern.some p).run prev (c :: s)).head? =
    Option.some ⟨c :: s.takeWhile p, [], s.dropWhile p⟩ := by
  rw [Pattern.some, run_seq, run, if_pos hc, List.flatMap_singleton, List.head?_map, run, head_runs]
  rfl

theorem some_ne_nil : (Pattern.some p).run prev s ≠ [] ↔ ∃ c ∈ s.head?, p c = true := by
  constructor
  · intro hne
    cases s with
    | nil => exact absurd rfl hne
    | cons c s =>
      by_contra hnone
      refine hne ?_
      rw [Pattern.some, run_seq, run, if_neg fun hc => hnone ⟨c, rfl, hc⟩]
      rfl
  · rintro ⟨c, hc, hpc⟩ hnil
    obtain ⟨s, rfl⟩ := List.head?_eq_some_iff.mp hc
    have hhead : ((Pattern.some p).run prev (c :: s)).head? = _ := head_some hpc
    rw [hnil] at hhead
    cases hhead

/-- The first match of a class takes all there is. -/
theorem text_some (hh : ((Pattern.some p).run prev s).head? = Option.some h) :
    h.text = s.takeWhile p := by
  have hne : (Pattern.some p).run prev s ≠ [] := by
    intro hnil
    rw [hnil] at hh
    cases hh
  obtain ⟨c, hc, hpc⟩ := some_ne_nil.mp hne
  obtain ⟨s, rfl⟩ := List.head?_eq_some_iff.mp hc
  rw [head_some hpc] at hh
  obtain rfl := Option.some.inj hh
  rw [List.takeWhile_cons_of_pos hpc]

theorem head_opt : ((opt a).run prev s).head? =
    (a.run prev s).head?.or (Option.some ⟨[], [], s⟩) := by
  rw [run, List.head?_append]
  rfl

theorem run_opt_ne_nil : (opt a).run prev s ≠ [] := by simp

theorem head_group : ((group a).run prev s).head? =
    (a.run prev s).head?.map fun h => ⟨h.text, h.text :: h.groups, h.rest⟩ := by
  rw [run, List.head?_map]

end Regex
