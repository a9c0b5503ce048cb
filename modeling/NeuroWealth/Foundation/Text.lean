import Mathlib

/-!
# Texts

White space at the ends of a text, lower case, and where a class of characters ends.
-/

namespace Text

variable {s t : List Char} {c : Char} {p : Char → Bool}

/-- White space and line terminators. -/
def isSpace (c : Char) : Bool :=
  c.val ∈ [0x9, 0xA, 0xB, 0xC, 0xD, 0x20, 0xA0, 0x1680, 0x2028, 0x2029, 0x202F, 0x205F, 0x3000,
    0xFEFF] || (0x2000 ≤ c.val && c.val ≤ 0x200A)

def trim (s : List Char) : List Char := (s.dropWhile isSpace).rdropWhile isSpace

def trimmed (text : String) : String := String.ofList (trim text.toList)

/-- A character in lower case, as far as patterns in ASCII can tell: only two characters outside it
    have a lower case that reaches into it. -/
def lowerChar (c : Char) : List Char :=
  if c.val = 0x130 then ['i', '\u0307']
  else if c.val = 0x212A then ['k']
  else [c.toLower]

def toLowerCase (s : List Char) : List Char := s.flatMap lowerChar

theorem trim_eq_self (h : ∀ c ∈ s, isSpace c = false) : trim s = s := by
  have hfront : s.dropWhile isSpace = s := by
    cases s with
    | nil => rfl
    | cons c s => exact List.dropWhile_cons_of_neg (by simp [h c])
  unfold trim
  rw [hfront, List.rdropWhile_eq_self_iff]
  intro hne
  simp [h _ (List.getLast_mem hne)]

theorem trim_sublist : (trim s).Sublist s :=
  (List.rdropWhile_prefix _ _).sublist.trans (List.dropWhile_suffix _).sublist

/-- A text longer than its trimmed form is another one. -/
theorem trim_length_lt (h : trim s ≠ s) : (trim s).length < s.length := by
  refine lt_of_le_of_ne trim_sublist.length_le fun heq => h ?_
  exact trim_sublist.eq_of_length heq

theorem rdropWhile_append_of_pos (ht : ∀ c ∈ t, p c = true) :
    (s ++ t).rdropWhile p = s.rdropWhile p := by
  unfold List.rdropWhile
  rw [List.reverse_append, List.dropWhile_append_of_pos (by simpa using ht)]

/-- A text is its trimmed form between white space. -/
theorem exists_trim (s : List Char) : ∃ before behind, s = before ++ trim s ++ behind ∧
    (∀ c ∈ before, isSpace c = true) ∧ ∀ c ∈ behind, isSpace c = true := by
  refine ⟨s.takeWhile isSpace, (s.dropWhile isSpace).rtakeWhile isSpace, ?_,
    fun c hc => List.mem_takeWhile_imp hc, fun c hc => List.mem_rtakeWhile_imp hc⟩
  unfold trim
  rw [List.append_assoc, List.rdropWhile_append_rtakeWhile, List.takeWhile_append_dropWhile]

/-- No visible character of ASCII is white space. -/
theorem isSpace_eq_false (hlow : 33 ≤ c.toNat) (hhigh : c.toNat < 128) : isSpace c = false := by
  simp only [isSpace, List.mem_cons, List.not_mem_nil, ← UInt32.toNat_inj, UInt32.le_iff_toNat_le,
    or_false, Bool.or_eq_false_iff, decide_eq_false_iff_not, Bool.and_eq_false_iff]
  simp
  omega

theorem isSpace_of_isDigit (h : c.isDigit = true) : isSpace c = false := by
  have hdigit : 48 ≤ c.toNat ∧ c.toNat ≤ 57 := by
    simpa [Char.isDigit, UInt32.le_iff_toNat_le] using h
  exact isSpace_eq_false (by omega) (by omega)

/-! ## Lower case and white space -/

theorem isSpace_toLower : isSpace c.toLower = isSpace c := by
  unfold Char.toLower
  split_ifs with hupper
  · have hlow : 65 ≤ c.toNat := by simpa [UInt32.le_iff_toNat_le] using hupper.1
    have hhigh : c.toNat ≤ 90 := by simpa [UInt32.le_iff_toNat_le] using hupper.2
    have hsum : (c.val + ('a'.val - 'A'.val)).toNat = c.toNat + 32 := by
      rw [UInt32.toNat_add]
      exact Nat.mod_eq_of_lt (by change c.toNat + 32 < _; omega)
    refine (isSpace_eq_false ?_ ?_).trans (isSpace_eq_false (by omega) (by omega)).symm
    · change 33 ≤ (c.val + ('a'.val - 'A'.val)).toNat
      omega
    · change (c.val + ('a'.val - 'A'.val)).toNat < 128
      omega
  · rfl

theorem isSpace_lowerChar : lowerChar c ≠ [] ∧ ∀ d ∈ lowerChar c, isSpace d = isSpace c := by
  unfold lowerChar
  split_ifs with hdot hkelvin
  · have hc : isSpace c = false := by
      unfold isSpace
      rw [hdot]
      decide
    rw [hc]
    refine ⟨List.cons_ne_nil _ _, fun d hd => ?_⟩
    rcases List.mem_pair.mp hd with rfl | rfl <;> decide
  · have hc : isSpace c = false := by
      unfold isSpace
      rw [hkelvin]
      decide
    rw [hc]
    refine ⟨List.cons_ne_nil _ _, fun d hd => ?_⟩
    obtain rfl := List.mem_singleton.mp hd
    decide
  · refine ⟨List.cons_ne_nil _ _, fun d hd => ?_⟩
    obtain rfl := List.mem_singleton.mp hd
    exact isSpace_toLower

theorem dropWhile_flatMap {f : Char → List Char} (hf : ∀ c, f c ≠ [] ∧ ∀ d ∈ f c, p d = p c) :
    (s.flatMap f).dropWhile p = (s.dropWhile p).flatMap f := by
  induction s with
  | nil => rfl
  | cons c s ih =>
    obtain ⟨hne, hall⟩ := hf c
    rw [List.flatMap_cons]
    by_cases hc : p c = true
    · rw [List.dropWhile_cons_of_pos hc, ← ih]
      exact List.dropWhile_append_of_pos fun d hd => (hall d hd).trans hc
    · obtain ⟨d, t, hd⟩ := List.exists_cons_of_ne_nil hne
      have hpd : ¬ p d = true := by
        rw [hall d (by rw [hd]; simp)]
        exact hc
      rw [List.dropWhile_cons_of_neg hc, List.flatMap_cons, hd, List.cons_append,
        List.dropWhile_cons_of_neg hpd]

/-- It does not matter what comes first. -/
theorem toLowerCase_trim : toLowerCase (trim s) = trim (toLowerCase s) := by
  unfold toLowerCase trim
  rw [dropWhile_flatMap fun _ => isSpace_lowerChar]
  unfold List.rdropWhile
  rw [List.reverse_flatMap, dropWhile_flatMap, List.reverse_flatMap]
  · refine List.flatMap_congr fun c _ => ?_
    simp
  · intro c
    obtain ⟨hne, hall⟩ := isSpace_lowerChar (c := c)
    exact ⟨by simpa using hne, fun d hd => hall d (by simpa using hd)⟩

/-! ## Classes at the front of a text -/

theorem head_dropWhile : ∀ c ∈ (s.dropWhile p).head?, p c = false := by
  intro c hc
  have hnot := List.head?_dropWhile_not p s
  rw [hc] at hnot
  simpa using hnot

theorem takeWhile_of_head (hs : ∀ c ∈ s.head?, p c = false) :
    s.takeWhile p = [] ∧ s.dropWhile p = s := by
  cases s with
  | nil => exact ⟨rfl, rfl⟩
  | cons c s =>
    have hc : ¬ p c = true := by simp [hs c rfl]
    exact ⟨List.takeWhile_cons_of_neg hc, List.dropWhile_cons_of_neg hc⟩

/-- A text falls apart where a class ends. -/
theorem takeWhile_append_of_head (hs : ∀ c ∈ s, p c = true) (ht : ∀ c ∈ t.head?, p c = false) :
    (s ++ t).takeWhile p = s ∧ (s ++ t).dropWhile p = t := by
  obtain ⟨htake, hdrop⟩ := takeWhile_of_head ht
  rw [List.takeWhile_append_of_pos hs, List.dropWhile_append_of_pos hs, htake, hdrop,
    List.append_nil]
  exact ⟨rfl, rfl⟩

end Text
