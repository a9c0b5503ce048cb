import NeuroWealth.Foundation.NumberText

/-!
# Texts of flat objects

What `JSON.stringify` writes for an object without nested ones. The text determines the members,
their order and their values: strings are quoted so that their end can be told, and no number,
boolean or null contains a comma or a brace.
-/

namespace Json

open Binary64

variable {c d : Char} {s t r r' : List Char}

def quoteMark : Char := '\x22'

def backslash : Char := '\x5c'

def openBrace : Char := '\x7b'

def closeBrace : Char := '\x7d'

inductive Value where
  | null
  | bool (b : Bool)
  | number (x : Double)
  | string (s : List Char)
deriving DecidableEq

/-! ## Writing -/

/-- A character of a quoted string; control characters by name or by number. -/
def escape (c : Char) : List Char :=
  if c = quoteMark then [backslash, quoteMark]
  else if c = backslash then [backslash, backslash]
  else if c = '\x08' then [backslash, 'b']
  else if c = '\x0c' then [backslash, 'f']
  else if c = '\n' then [backslash, 'n']
  else if c = '\r' then [backslash, 'r']
  else if c = '\t' then [backslash, 't']
  else if c.toNat < 32 then
    [backslash, 'u', '0', '0', Nat.digitChar (c.toNat / 16), Nat.digitChar (c.toNat % 16)]
  else [c]

def quote (s : List Char) : List Char := quoteMark :: (s.flatMap escape ++ [quoteMark])

def Value.text : Value → List Char
  | null => ['n', 'u', 'l', 'l']
  | bool true => ['t', 'r', 'u', 'e']
  | bool false => ['f', 'a', 'l', 's', 'e']
  | number x => x.toText
  | string s => quote s

/-- The members and the brace behind them. -/
def members : List (List Char × Value) → List Char
  | [] => [closeBrace]
  | [(key, v)] => quote key ++ ':' :: (v.text ++ [closeBrace])
  | (key, v) :: rest => quote key ++ ':' :: (v.text ++ ',' :: members rest)

def object (l : List (List Char × Value)) : List Char := openBrace :: members l

/-! ## Strings -/

def hexValue (c : Char) : ℕ := if c.isDigit then c.toNat - 48 else c.toNat - 87

/-- The character that a backslash and `c` stand for. -/
def escaped (c : Char) : Char :=
  if c = 'b' then '\x08'
  else if c = 'f' then '\x0c'
  else if c = 'n' then '\n'
  else if c = 'r' then '\r'
  else if c = 't' then '\t'
  else c

/-- The character a quoted string goes on with, and what follows it. -/
def unescape : List Char → Option (Char × List Char)
  | [] => none
  | c :: r =>
    if c ≠ backslash then some (c, r)
    else
      match r with
      | 'u' :: _ :: _ :: h :: l :: r => some (Char.ofNat (16 * hexValue h + hexValue l), r)
      | c :: r => some (escaped c, r)
      | [] => none

theorem unescape_escape : unescape (escape c ++ r) = some (c, r) := by
  unfold escape
  split_ifs with hquote hslash hb hf hn hr ht hcontrol
  · rw [hquote]
    rfl
  · rw [hslash]
    rfl
  · rw [hb]
    rfl
  · rw [hf]
    rfl
  · rw [hn]
    rfl
  · rw [hr]
    rfl
  · rw [ht]
    rfl
  · have hhex : ∀ n < 32, Char.ofNat (16 * hexValue (Nat.digitChar (n / 16)) +
        hexValue (Nat.digitChar (n % 16))) = Char.ofNat n := by decide
    have hchar := hhex c.toNat hcontrol
    rw [Char.ofNat_toNat] at hchar
    exact congrArg (fun d => some (d, r)) hchar
  · exact if_pos hslash

/-- Which characters stand in a quoted string can be told one by one. -/
theorem escape_append_inj (h : escape c ++ r = escape d ++ r') : c = d ∧ r = r' := by
  have hboth := congrArg unescape h
  rw [unescape_escape, unescape_escape] at hboth
  exact Prod.mk.inj (Option.some.inj hboth)

/-- No character is written starting with a quote. -/
theorem exists_escape : ∃ e l, escape c = e :: l ∧ e ≠ quoteMark := by
  unfold escape
  split_ifs with hquote
  all_goals
    refine ⟨_, _, rfl, ?_⟩
    first
    | decide
    | exact hquote

/-- A quoted string ends where it ends. -/
theorem quote_append_inj (h : quote s ++ r = quote t ++ r') : s = t ∧ r = r' := by
  have hbody : s.flatMap escape ++ quoteMark :: r = t.flatMap escape ++ quoteMark :: r' := by
    simpa [quote] using h
  clear h
  induction s generalizing t with
  | nil =>
    cases t with
    | nil => exact ⟨rfl, (List.cons.inj hbody).2⟩
    | cons d t =>
      obtain ⟨e, l, hescape, hne⟩ := exists_escape (c := d)
      rw [List.flatMap_cons, hescape] at hbody
      exact absurd (List.cons.inj hbody).1.symm hne
  | cons c s ih =>
    cases t with
    | nil =>
      obtain ⟨e, l, hescape, hne⟩ := exists_escape (c := c)
      rw [List.flatMap_cons, hescape] at hbody
      exact absurd (List.cons.inj hbody).1 hne
    | cons d t =>
      rw [List.flatMap_cons, List.flatMap_cons, List.append_assoc, List.append_assoc] at hbody
      obtain ⟨rfl, hrest⟩ := escape_append_inj hbody
      obtain ⟨rfl, rfl⟩ := ih hrest
      exact ⟨rfl, rfl⟩

/-! ## Values -/

def isPlain (c : Char) : Bool := c ≠ ',' ∧ c ≠ closeBrace ∧ c ≠ quoteMark

def Value.isString : Value → Bool
  | string _ => true
  | _ => false

theorem isPlain_of_isNumberChar (h : isNumberChar c) : isPlain c := by
  unfold isPlain
  rw [decide_eq_true_iff]
  refine ⟨?_, ?_, ?_⟩
  all_goals
    rintro rfl
    exact absurd h (by decide)

/-- Only strings have quotes, commas and braces in their text. -/
theorem text_isPlain {v : Value} (hv : v.isString = false) : ∀ c ∈ v.text, isPlain c := by
  cases v with
  | null => simp [Value.text, isPlain, closeBrace, quoteMark]
  | bool b => cases b <;> simp [Value.text, isPlain, closeBrace, quoteMark]
  | number x => exact fun c hc => isPlain_of_isNumberChar (toText_chars c hc)
  | string s => cases hv

theorem text_injective {v w : Value} (hv : v.isString = false) (hw : w.isString = false)
    (h : v.text = w.text) : v = w := by
  have hnumber : ∀ {x : Double} {e : Char} {l : List Char}, x.toText = e :: l → isNumberChar e :=
    fun hx => toText_chars _ (by rw [hx]; exact List.mem_cons_self)
  cases v with
  | null =>
    cases w with
    | null => rfl
    | bool b => cases b <;> exact absurd h (by decide)
    | number x => exact absurd (hnumber h.symm) (by decide)
    | string s => cases hw
  | bool b =>
    cases w with
    | null => cases b <;> exact absurd h (by decide)
    | bool b' => cases b <;> cases b' <;> first | rfl | exact absurd h (by decide)
    | number x => cases b <;> exact absurd (hnumber h.symm) (by decide)
    | string s => cases hw
  | number x =>
    cases w with
    | null => exact absurd (hnumber h) (by decide)
    | bool b => cases b <;> exact absurd (hnumber h) (by decide)
    | number y => rw [toText_injective h]
    | string s => cases hw
  | string s => cases hv

/-- What stands behind a value. -/
def IsEnd (c : Char) : Prop := c = ',' ∨ c = closeBrace

theorem IsEnd.not_isPlain (hc : IsEnd c) : isPlain c = false := by
  rcases hc with rfl | rfl
  · decide
  · decide

/-- The text of a value that is no string ends at the first comma or brace. -/
theorem takeWhile_text {v : Value} (hv : v.isString = false) (hc : IsEnd c) :
    (v.text ++ c :: r).takeWhile isPlain = v.text ∧
      (v.text ++ c :: r).dropWhile isPlain = c :: r := by
  have hend : ¬ isPlain c = true := by simp [hc.not_isPlain]
  rw [List.takeWhile_append_of_pos (text_isPlain hv),
    List.dropWhile_append_of_pos (text_isPlain hv), List.takeWhile_cons_of_neg hend,
    List.dropWhile_cons_of_neg hend, List.append_nil]
  exact ⟨rfl, rfl⟩

/-- A value that is no string does not start with a quote. -/
theorem text_append_ne_quote {v : Value} (hv : v.isString = false) (hc : IsEnd c) :
    v.text ++ c :: r ≠ quoteMark :: s := by
  intro h
  cases htext : v.text with
  | nil =>
    rw [htext] at h
    obtain rfl := (List.cons.inj h).1
    rcases hc with hc | hc
    · exact absurd hc (by decide)
    · exact absurd hc (by decide)
  | cons e l =>
    rw [htext] at h
    have hplain := text_isPlain hv e (by simp [htext])
    rw [(List.cons.inj h).1] at hplain
    exact absurd hplain (by decide)

/-- A value and what follows it can be told from their text. -/
theorem text_append_inj {v w : Value} (hc : IsEnd c) (hd : IsEnd d)
    (h : v.text ++ c :: r = w.text ++ d :: r') : v = w ∧ c = d ∧ r = r' := by
  cases hv : v.isString with
  | false =>
    cases hw : w.isString with
    | false =>
      obtain ⟨htake, hdrop⟩ := takeWhile_text (r := r) hv hc
      obtain ⟨htake', hdrop'⟩ := takeWhile_text (r := r') hw hd
      rw [h] at htake hdrop
      obtain ⟨rfl, rfl⟩ := List.cons.inj (hdrop.symm.trans hdrop')
      exact ⟨text_injective hv hw (htake.symm.trans htake'), rfl, rfl⟩
    | true =>
      cases w with
      | string t => exact absurd h (text_append_ne_quote hv hc)
      | _ => cases hw
  | true =>
    cases v with
    | string s =>
      cases hw : w.isString with
      | false => exact absurd h.symm (text_append_ne_quote hw hd)
      | true =>
        cases w with
        | string t =>
          obtain ⟨rfl, hrest⟩ := quote_append_inj h
          exact ⟨rfl, List.cons.inj hrest⟩
        | _ => cases hw
    | _ => cases hv

/-! ## Objects -/

/-- The first member of an object, what ends it, and what follows. -/
theorem members_cons (key : List Char) (v : Value) (rest : List (List Char × Value)) :
    ∃ e r, IsEnd e ∧ members ((key, v) :: rest) = quote key ++ ':' :: (v.text ++ e :: r) ∧
      (e = closeBrace → rest = []) ∧ (e = ',' → r = members rest) := by
  cases rest with
  | nil => exact ⟨closeBrace, [], .inr rfl, rfl, fun _ => rfl, fun h => absurd h (by decide)⟩
  | cons p rest => exact ⟨',', members (p :: rest), .inl rfl, rfl, fun h => absurd h (by decide),
      fun _ => rfl⟩

theorem members_injective {l m : List (List Char × Value)} (h : members l = members m) : l = m := by
  induction l generalizing m with
  | nil =>
    cases m with
    | nil => rfl
    | cons q m =>
      obtain ⟨e, r, -, hmembers, -⟩ := members_cons q.1 q.2 m
      rw [hmembers] at h
      exact absurd (List.cons.inj h).1 (by decide)
  | cons p l ih =>
    obtain ⟨e, r, he, hmembers, hclose, hcomma⟩ :=
      members_cons p.1 p.2 l
    rw [hmembers] at h
    cases m with
    | nil => exact absurd (List.cons.inj h).1 (by decide)
    | cons q m =>
      obtain ⟨e', r', he', hmembers', hclose', hcomma'⟩ :=
        members_cons q.1 q.2 m
      rw [hmembers'] at h
      obtain ⟨hkey, hrest⟩ := quote_append_inj h
      obtain ⟨hvalue, hend, htail⟩ := text_append_inj he he' (List.cons.inj hrest).2
      have hlists : l = m := by
        rcases he with hcase | hcase
        · rw [hcomma hcase, hcomma' (hend.symm.trans hcase)] at htail
          exact ih htail
        · rw [hclose hcase, hclose' (hend.symm.trans hcase)]
      rw [hlists, Prod.ext hkey hvalue]

theorem object_injective {l m : List (List Char × Value)} (h : object l = object m) : l = m :=
  members_injective (List.cons.inj h).2

end Json
