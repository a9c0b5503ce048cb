import NeuroWealth.Foundation.Regex
import NeuroWealth.Foundation.Text

/-!
# Phrases

A word, white space, and something that starts with a character of a class: where a pattern of this
form matches, and what it captures at the leftmost place.
-/

namespace Phrases

open Regex Text

variable {a b : Pattern} {p : Char → Bool} {prev : Option Char} {hit : Hit}
  {w s before behind : List Char}

/-- White space, and then what is captured. -/
def spaced (a : Pattern) : Pattern := .seq (.some isSpace) (.group a)

/-- White space, and then a character of the class. -/
def Behind (p : Char → Bool) (behind : List Char) : Prop :=
  ∃ spaces e s, behind = spaces ++ e :: s ∧ spaces ≠ [] ∧ (∀ c ∈ spaces, isSpace c = true) ∧
    p e = true

/-- The pattern matches just where a character of the class stands, which is no white space. -/
structure Opens (a : Pattern) (p : Char → Bool) : Prop where
  run_ne_nil : ∀ {prev s}, a.run prev s ≠ [] ↔ ∃ c ∈ s.head?, p c = true
  not_space : ∀ {c}, p c = true → isSpace c = false

theorem opens_some (hp : ∀ {c}, p c = true → isSpace c = false) : Opens (.some p) p :=
  ⟨some_ne_nil, hp⟩

namespace Opens

theorem run_of_space (h : Opens a p) {c : Char} (hc : isSpace c = true) :
    (Pattern.group a).run prev (c :: s) = [] := by
  have hnone : a.run prev (c :: s) = [] := by
    by_contra hne
    obtain ⟨d, hd, hpd⟩ := h.run_ne_nil.mp hne
    rw [← Option.some.inj hd] at hpd
    rw [h.not_space hpd] at hc
    cases hc
  rw [Pattern.run, hnone]
  rfl

theorem spaced_ne_nil (h : Opens a p) : (spaced a).run prev behind ≠ [] ↔ Behind p behind := by
  unfold spaced
  rw [Regex.run_ne_nil]
  simp only [takes_seq, takes_some, takes_group]
  constructor
  · rintro ⟨-, rest, rfl, spaces, text, rfl, ⟨hne, hspaces⟩, htakes⟩
    obtain ⟨e, he, hpe⟩ := h.run_ne_nil.mp (Regex.run_ne_nil.mpr ⟨text, rest, rfl, htakes⟩)
    obtain ⟨s, hs⟩ := List.head?_eq_some_iff.mp he
    refine ⟨spaces, e, s, ?_, hne, hspaces, hpe⟩
    rw [List.append_assoc, hs]
  · rintro ⟨spaces, e, s, rfl, hne, hspaces, hpe⟩
    have hrun : a.run (lastOf prev spaces) (e :: s) ≠ [] := h.run_ne_nil.mpr ⟨e, rfl, hpe⟩
    obtain ⟨text, rest, heq, htakes⟩ := Regex.run_ne_nil.mp hrun
    refine ⟨spaces ++ text, rest, ?_, spaces, text, rfl, ⟨hne, hspaces⟩, htakes⟩
    rw [List.append_assoc, ← heq]

/-- What is captured is the first match behind the white space. -/
theorem head_spaced (h : Opens a p) (hhead : ((spaced a).run prev behind).head? = some hit) :
    ∃ before, hit.groups.head? =
      (a.run before (behind.dropWhile isSpace)).head?.map Hit.text := by
  have hne : (spaced a).run prev behind ≠ [] := by
    intro hnil
    rw [hnil] at hhead
    cases hhead
  obtain ⟨spaces, e, s, rfl, hnonempty, hspaces, -⟩ := h.spaced_ne_nil.mp hne
  obtain ⟨c, t, rfl⟩ := List.exists_cons_of_ne_nil hnonempty
  have hc : isSpace c = true := hspaces c (by simp)
  unfold spaced at hhead
  rw [List.cons_append, run_some_seq_cons hc, run_many_seq fun d prev s hd => h.run_of_space hd,
    List.head?_map, List.head?_map] at hhead
  obtain ⟨inner, hinner, rfl⟩ := Option.map_eq_some_iff.mp hhead
  obtain ⟨last, hlast, rfl⟩ := Option.map_eq_some_iff.mp hinner
  rw [head_group] at hlast
  obtain ⟨found, hfound, rfl⟩ := Option.map_eq_some_iff.mp hlast
  refine ⟨lastOf (some c) ((t ++ e :: s).takeWhile isSpace), ?_⟩
  rw [List.cons_append, List.dropWhile_cons_of_pos hc, hfound]
  rfl

end Opens

/-! ## Places -/

/-- A place with the property and none further left. -/
structure Leftmost (P : List Char → List Char → Prop) (before behind : List Char) : Prop where
  here : P before behind
  first : ∀ {t u}, P t u → before.length ≤ t.length

/-- The word, and behind it white space and a character of the class. -/
structure Place (p : Char → Bool) (w s before behind : List Char) : Prop where
  text : s = before ++ (w ++ behind)
  follows : Behind p behind

/-- There is only one leftmost place. -/
theorem Leftmost.unique {P : List Char → List Char → Prop} {t u : List Char}
    (hplace : ∀ {t u}, P t u → Place p w s t u) (h : Leftmost P before behind)
    (h' : Leftmost P t u) : before = t ∧ behind = u := by
  have hlength : before.length = t.length := le_antisymm (h.first h'.here) (h'.first h.here)
  obtain ⟨hbefore, htail⟩ := List.append_inj
    ((hplace h.here).text.symm.trans (hplace h'.here).text) hlength
  exact ⟨hbefore, List.append_cancel_left htail⟩

/-- A pattern that matches just at the places of a kind captures at the leftmost one. -/
theorem exec_leftmost {P : List Char → List Char → Prop}
    (hplace : ∀ {t u}, P t u → Place p w s t u)
    (hrun : ∀ {t u}, s = t ++ u → (b.run (lastOf none t) u ≠ [] ↔ ∃ behind, P t behind))
    (h : b.exec s = some hit) : ∃ before behind, Leftmost P before behind ∧
      (b.run (lastOf none before) (w ++ behind)).head? = some hit := by
  obtain ⟨before, after, hs, hhead, hfirst⟩ := search_eq_some h
  have hne : b.run (lastOf none before) after ≠ [] := by
    intro hnil
    rw [hnil] at hhead
    cases hhead
  obtain ⟨behind, hhere⟩ := (hrun hs).mp hne
  obtain rfl := List.append_cancel_left (hs.symm.trans (hplace hhere).text)
  refine ⟨before, behind, ⟨hhere, fun {t u} hother => ?_⟩, hhead⟩
  by_contra! hlt
  have htext := (hplace hother).text
  exact (hrun htext).mpr ⟨u, hother⟩ (hfirst t _ htext hlt)

/-! ## A word with something behind it -/

/-- The word, white space, and what is captured. -/
def phrase (w : List Char) (a : Pattern) : Pattern := .seq (.word w) (spaced a)

theorem phrase_ne_nil (h : Opens a p) : (phrase w a).run prev s ≠ [] ↔
    ∃ behind, s = w ++ behind ∧ Behind p behind := by
  unfold phrase
  rw [run_word_seq]
  constructor
  · intro hne
    split_ifs at hne with hprefix
    · obtain ⟨behind, rfl⟩ := hprefix
      rw [List.drop_left] at hne
      exact ⟨behind, rfl, h.spaced_ne_nil.mp fun hnil => hne (by rw [hnil]; rfl)⟩
    · exact absurd rfl hne
  · rintro ⟨behind, rfl, hbehind⟩
    rw [if_pos (List.prefix_append _ _), List.drop_left]
    exact fun hnil => h.spaced_ne_nil.mpr hbehind (List.map_eq_nil_iff.mp hnil)

theorem head_phrase (h : Opens a p)
    (hhead : ((phrase w a).run prev (w ++ behind)).head? = some hit) : ∃ before,
      hit.groups.head? = (a.run before (behind.dropWhile isSpace)).head?.map Hit.text := by
  unfold phrase at hhead
  rw [run_word_seq, if_pos (List.prefix_append _ _), List.drop_left, List.head?_map] at hhead
  obtain ⟨inner, hinner, rfl⟩ := Option.map_eq_some_iff.mp hhead
  obtain ⟨before, heq⟩ := h.head_spaced hinner
  exact ⟨before, heq⟩

/-- What the first match captures, where the texts of the pattern's first matches are known. -/
theorem captured_phrase {text : List Char} {f : List Char → List Char} (h : Opens a p)
    (hread : ∀ {prev s hit}, (a.run prev s).head? = some hit → hit.text = f s)
    (hhead : ((phrase w a).run prev (w ++ behind)).head? = some hit)
    (hgroup : hit.groups.head? = some text) : text = f (behind.dropWhile isSpace) := by
  obtain ⟨before, hcaptured⟩ := head_phrase h hhead
  rw [hgroup] at hcaptured
  obtain ⟨found, hfound, rfl⟩ := Option.map_eq_some_iff.mp hcaptured.symm
  exact hread hfound

end Phrases
