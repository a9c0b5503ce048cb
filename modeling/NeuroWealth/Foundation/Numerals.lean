import NeuroWealth.Foundation.NumberText
import NeuroWealth.Foundation.Regex
import NeuroWealth.Foundation.Text

/-!
# Numerals in a text

The pattern of a numeral takes all characters of its class, and a point only with digits behind it.
-/

namespace Numerals

open Binary64 Decimal Regex Text

variable {p : Char → Bool} {prev : Option Char} {s whole fraction rest : List Char}

/-- `(?:\.\d+)?` -/
def fractionPattern : Pattern := .opt (.seq (.word ['.']) (.some Char.isDigit))

/-- Characters of a class, and perhaps a point with digits. -/
def numeralPattern (p : Char → Bool) : Pattern := .seq (.some p) fractionPattern

/-- A point with its digits. -/
def pointText (fraction : List Char) : List Char := if fraction = [] then [] else '.' :: fraction

/-- What follows the point and its digits. -/
def afterPoint (s : List Char) : List Char :=
  if pointDigits s = [] then s else s.tail.dropWhile Char.isDigit

theorem pointDigits_of_ne {c : Char} (hc : c ≠ '.') : pointDigits (c :: s) = [] := by
  unfold pointDigits
  split
  · rename_i rest heq
    exact absurd (List.cons.inj heq).1 hc
  · rfl

theorem head_fraction : (fractionPattern.run prev s).head? =
    some ⟨pointText (pointDigits s), [], afterPoint s⟩ := by
  have hnone : pointDigits s = [] →
      (Pattern.seq (.word ['.']) (.some Char.isDigit)).run prev s = [] →
        (fractionPattern.run prev s).head? =
          some ⟨pointText (pointDigits s), [], afterPoint s⟩ := by
    intro hdigits hrun
    unfold fractionPattern
    rw [head_opt, hrun, afterPoint, hdigits, if_pos rfl]
    rfl
  have hrun : (Pattern.seq (.word ['.']) (.some Char.isDigit)).run prev s = _ := run_word_seq
  cases s with
  | nil => exact hnone rfl hrun
  | cons c t =>
    by_cases hc : c = '.'
    · subst hc
      have hprefix : ['.'] <+: '.' :: t := List.prefix_append ['.'] t
      rw [if_pos hprefix] at hrun
      have hdigits : pointDigits ('.' :: t) = t.takeWhile Char.isDigit := rfl
      have hdrop : ('.' :: t).drop (['.'] : List Char).length = t := rfl
      rw [hdrop] at hrun
      cases t with
      | nil => exact hnone rfl hrun
      | cons d t =>
        by_cases hd : d.isDigit
        · have hsome : pointDigits ('.' :: d :: t) = d :: t.takeWhile Char.isDigit :=
            List.takeWhile_cons_of_pos hd
          unfold fractionPattern
          rw [head_opt, hrun, List.head?_map, head_some hd, afterPoint, hsome, List.tail_cons,
            List.dropWhile_cons_of_pos hd]
          rfl
        · refine hnone (List.takeWhile_cons_of_neg hd) (hrun.trans ?_)
          rw [Pattern.some, run_seq, Pattern.run, if_neg hd]
          rfl
    · refine hnone (pointDigits_of_ne hc) (hrun.trans (if_neg fun hprefix => hc ?_))
      exact ((List.cons_prefix_cons.mp hprefix).1).symm

/-- A numeral is read to its end. -/
theorem head_numeral {c : Char} (hc : p c) :
    ((numeralPattern p).run prev (c :: s)).head? =
      some ⟨c :: s.takeWhile p ++ pointText (pointDigits (s.dropWhile p)), [],
        afterPoint (s.dropWhile p)⟩ := by
  have hne : fractionPattern.run (lastOf (some c) (s.takeWhile p)) (s.dropWhile p) ≠ [] :=
    run_opt_ne_nil
  unfold numeralPattern
  rw [run_some_seq_cons hc, List.head?_map, head_many_seq hne, head_fraction]
  rfl

theorem run_numeral_of_neg (hs : ∀ c ∈ s.head?, ¬ p c) : (numeralPattern p).run prev s = [] :=
  run_some_seq_of_neg hs

theorem numeral_ne_nil : (numeralPattern p).run prev s ≠ [] ↔ ∃ c ∈ s.head?, p c = true := by
  constructor
  · intro hne
    by_contra hnone
    exact hne (run_numeral_of_neg fun c hc hp => hnone ⟨c, hc, hp⟩)
  · rintro ⟨c, hc, hp⟩ hnil
    obtain ⟨t, rfl⟩ := List.head?_eq_some_iff.mp hc
    have hhead : ((numeralPattern p).run prev (c :: t)).head? = _ := head_numeral hp
    rw [hnil] at hhead
    cases hhead

/-- The first match of a numeral, as a piece of the text. -/
theorem text_numeral {hit : Hit} (h : ((numeralPattern p).run prev s).head? = some hit) :
    hit.text = s.takeWhile p ++ pointText (pointDigits (s.dropWhile p)) := by
  have hne : (numeralPattern p).run prev s ≠ [] := by
    intro hnil
    rw [hnil] at h
    cases h
  obtain ⟨c, hc, hpc⟩ := numeral_ne_nil.mp hne
  obtain ⟨t, rfl⟩ := List.head?_eq_some_iff.mp hc
  rw [head_numeral hpc] at h
  obtain rfl := Option.some.inj h
  rw [List.takeWhile_cons_of_pos hpc, List.dropWhile_cons_of_pos hpc]

/-- The rest of a text behind a point and its digits. -/
theorem pointText_append_afterPoint : pointText (pointDigits s) ++ afterPoint s = s := by
  have hhead : (fractionPattern.run none s).head? = _ := head_fraction
  exact run_sound (List.mem_of_head? hhead)

/-! ## Reading it back -/

theorem digits_pointDigits : Digits (pointDigits s) := by
  unfold pointDigits
  split
  · exact fun c hc => List.mem_takeWhile_imp hc
  · exact fun c hc => absurd hc List.not_mem_nil

theorem head_pointText (hp : p '.' = false) : ∀ c ∈ (pointText fraction).head?, p c = false := by
  intro c hc
  unfold pointText at hc
  split_ifs at hc
  · cases hc
  · rw [← Option.some.inj hc, hp]

/-- What ends the fraction is no digit. -/
theorem pointDigits_pointText (hfraction : Digits fraction)
    (hrest : ∀ c ∈ rest.head?, c.isDigit = false) (hnil : fraction = [] → pointDigits rest = []) :
    pointDigits (pointText fraction ++ rest) = fraction := by
  unfold pointText
  split_ifs with h
  · rw [List.nil_append, hnil h, h]
  · exact (takeWhile_append_of_head hfraction hrest).1

theorem pointDigits_pointText_nil (hfraction : Digits fraction) :
    pointDigits (pointText fraction) = fraction := by
  have hread : pointDigits (pointText fraction ++ []) = fraction :=
    pointDigits_pointText hfraction (by simp) fun _ => rfl
  rwa [List.append_nil] at hread

theorem head_pointText_append (hrest : ∀ c ∈ rest.head?, c.isDigit = false) :
    ∀ c ∈ (pointText fraction ++ rest).head?, c.isDigit = false := by
  unfold pointText
  split_ifs
  · rwa [List.nil_append]
  · intro c hc
    rw [← Option.some.inj hc]
    decide

/-- A number is read up to where it ends. -/
theorem parseFloat_numeral (hwhole : Digits whole) (hfraction : Digits fraction)
    (hne : whole ≠ [] ∨ fraction ≠ []) (hrest : ∀ c ∈ rest.head?, c.isDigit = false)
    (hnil : fraction = [] → pointDigits rest = []) :
    parseFloat (whole ++ (pointText fraction ++ rest)) = .ofRat (numeral whole fraction) := by
  have hends : ∀ c ∈ (pointText fraction ++ rest).head?, c.isDigit = false :=
    head_pointText_append hrest
  obtain ⟨htake, hdrop⟩ := takeWhile_append_of_head hwhole hends
  unfold parseFloat
  dsimp only
  rw [htake, hdrop, pointDigits_pointText hfraction hrest hnil, if_neg]
  rintro ⟨rfl, rfl⟩
  simp at hne

end Numerals
