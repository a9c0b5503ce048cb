import Mathlib.Data.List.Basic
import Mathlib.Order.Basic

/-!
# Ordered streams

Elements in the order of their keys, such as the events of a chain with the blocks they belong to,
read in pages: a page starts at a key or at a position and is cut after a number of elements.
-/

namespace OrderedStream

variable {ε : Type} {key : ε → ℕ} {l : List ε} {a b c n : ℕ}

/-- The elements are in the order of their keys. -/
def Ordered (key : ε → ℕ) (l : List ε) : Prop := l.Pairwise fun e f => key e ≤ key f

/-- The elements whose keys are at least `a` and less than `b`. -/
def span (key : ε → ℕ) (l : List ε) (a b : ℕ) : List ε :=
  l.filter fun e => a ≤ key e ∧ key e < b

@[simp]
theorem mem_span {e : ε} : e ∈ span key l a b ↔ e ∈ l ∧ a ≤ key e ∧ key e < b := by
  simp [span]

@[simp]
theorem span_self : span key l a a = [] := by
  rw [span, List.filter_eq_nil_iff]
  intro e _ h
  have hboth := of_decide_eq_true h
  omega

theorem Ordered.tail {e : ε} (h : Ordered key (e :: l)) : Ordered key l := (List.pairwise_cons.mp h).2

theorem Ordered.head_le {e f : ε} (h : Ordered key (e :: l)) (hf : f ∈ l) : key e ≤ key f :=
  (List.pairwise_cons.mp h).1 f hf

/-- Nothing before the first element is in a span. -/
theorem span_eq_nil {e : ε} (h : Ordered key (e :: l)) (hb : b ≤ key e) : span key l a b = [] := by
  rw [span, List.filter_eq_nil_iff]
  intro f hf hspan
  have hle := h.head_le hf
  have hboth := of_decide_eq_true hspan
  omega

/-- Two spans that meet make one. -/
theorem span_append (h : Ordered key l) (hab : a ≤ b) (hbc : b ≤ c) :
    span key l a b ++ span key l b c = span key l a c := by
  induction l with
  | nil => rfl
  | cons e l ih =>
    have hrest := ih h.tail
    by_cases hb : key e < b
    · have hnot : ¬ b ≤ key e := Nat.not_le_of_lt hb
      have hc : key e < c := Nat.lt_of_lt_of_le hb hbc
      by_cases ha : a ≤ key e
      · simpa [span, List.filter_cons, ha, hb, hnot, hc] using hrest
      · simpa [span, List.filter_cons, ha, hnot] using hrest
    · have hle : b ≤ key e := Nat.le_of_not_lt hb
      have hempty : span key (e :: l) a b = [] := by
        have hnone : span key l a b = [] := span_eq_nil h hle
        unfold span at hnone ⊢
        rw [List.filter_cons_of_neg (by simp [hb]), hnone]
      have hrestempty : span key l a b = [] := span_eq_nil h hle
      rw [hrestempty, List.nil_append] at hrest
      rw [hempty, List.nil_append]
      have ha : a ≤ key e := Nat.le_trans hab hle
      by_cases hc : key e < c
      · simpa [span, List.filter_cons, ha, hle, hc] using hrest
      · simpa [span, List.filter_cons, hc] using hrest

/-! ## Pages -/

/-- A page that ends with the key `b` and holds all its elements is the span up to and with `b`. -/
theorem take_span_eq (h : Ordered key l) {e : ε}
    (hlast : e ∈ ((span key l a c).take n).getLast?)
    (hfits : (span key l a (key e + 1)).length ≤ n) :
    (span key l a c).take n = span key l a (key e + 1) := by
  have hmem : e ∈ span key l a c := List.mem_of_mem_take (List.mem_of_getLast? hlast)
  obtain ⟨-, hae, hec⟩ := mem_span.mp hmem
  have hsplit := span_append h (Nat.le_succ_of_le hae) (Nat.succ_le_of_lt hec)
  rw [← hsplit, List.take_append, List.take_of_length_le hfits] at hlast ⊢
  cases hrest : (span key l (key e + 1) c).take (n - (span key l a (key e + 1)).length) with
  | nil => rw [List.append_nil]
  | cons f rest =>
    exfalso
    rw [hrest, List.getLast?_append_of_ne_nil _ (by simp)] at hlast
    have hin : e ∈ (span key l (key e + 1) c).take _ := hrest ▸ List.mem_of_getLast? hlast
    have hlater := (mem_span.mp (List.mem_of_mem_take hin)).2.1
    omega

/-- The elements with smaller keys come first. -/
theorem filter_append_filter (h : Ordered key l) (a : ℕ) :
    l.filter (fun e => key e < a) ++ l.filter (fun e => a ≤ key e) = l := by
  induction l with
  | nil => rfl
  | cons e l ih =>
    have hrest := ih h.tail
    by_cases ha : key e < a
    · have hnot : ¬ a ≤ key e := Nat.not_le_of_lt ha
      simpa [List.filter_cons, ha, hnot] using hrest
    · have hle : a ≤ key e := Nat.le_of_not_lt ha
      have hnone : l.filter (fun f => key f < a) = [] := by
        rw [List.filter_eq_nil_iff]
        intro f hf hless
        have hfirst := h.head_le hf
        have hlt := of_decide_eq_true hless
        omega
      rw [hnone, List.nil_append] at hrest
      simp [hnone, hle, ha, hrest]

/-- The page that starts at a position: the elements with keys less than `b`, cut after `n`. -/
def pageAt (key : ε → ℕ) (l : List ε) (position b n : ℕ) : List ε :=
  ((l.drop position).filter fun e => key e < b).take n

theorem Ordered.drop (h : Ordered key l) (position : ℕ) : Ordered key (l.drop position) :=
  List.Pairwise.sublist (List.drop_sublist position l) h

/-- What lies before the first element with a key from `a` on. -/
theorem take_countP (h : Ordered key l) (a : ℕ) :
    l.take (l.countP fun e => key e < a) = l.filter fun e => key e < a := by
  have hleft : (l.filter (fun e => key e < a) ++ l.filter fun e => a ≤ key e).take
      (l.filter fun e => key e < a).length = l.filter fun e => key e < a := List.take_left
  rw [filter_append_filter h] at hleft
  rw [List.countP_eq_length_filter]
  exact hleft

theorem drop_countP (h : Ordered key l) (a : ℕ) :
    l.drop (l.countP fun e => key e < a) = l.filter fun e => a ≤ key e := by
  have hright : (l.filter (fun e => key e < a) ++ l.filter fun e => a ≤ key e).drop
      (l.filter fun e => key e < a).length = l.filter fun e => a ≤ key e := List.drop_left
  rw [filter_append_filter h] at hright
  rw [List.countP_eq_length_filter]
  exact hright

/-- A page that starts at a key starts at the position of the first element from there on. -/
theorem pageAt_countP (h : Ordered key l) (a b n : ℕ) :
    pageAt key l (l.countP fun e => key e < a) b n = (span key l a b).take n := by
  rw [pageAt, drop_countP h, List.filter_filter, span]
  congr 2
  funext e
  rw [Bool.and_comm, ← Bool.decide_and]

section Page

variable {position : ℕ}

/-- A page holds the first elements from its position on. -/
theorem pageAt_initial (h : Ordered key l) (position b n : ℕ) :
    pageAt key l position b n <+: l.drop position := by
  have hsplit := filter_append_filter (h.drop position) b
  have hfirst : (l.drop position).filter (fun e => key e < b) <+: l.drop position := by
    conv_rhs => rw [← hsplit]
    exact List.prefix_append _ _
  have hcut : pageAt key l position b n <+: (l.drop position).filter fun e => key e < b :=
    List.take_prefix n _
  exact hcut.trans hfirst

/-- A reader that goes on after a page has read what it had read before, and the page. -/
theorem take_pageAt (h : Ordered key l) :
    l.take (position + (pageAt key l position b n).length) =
      l.take position ++ pageAt key l position b n := by
  have hpage := List.prefix_iff_eq_take.mp (pageAt_initial h position b n)
  rw [List.take_add, ← hpage]

/-- A page that was not cut leaves no elements with keys less than `b`. -/
theorem le_of_short_page (h : Ordered key l) (hshort : (pageAt key l position b n).length < n)
    {e : ε} (he : e ∈ l.drop (position + (pageAt key l position b n).length)) : b ≤ key e := by
  have hall : pageAt key l position b n = (l.drop position).filter fun e => key e < b := by
    apply List.take_of_length_le
    by_contra hlong
    rw [pageAt, List.length_take] at hshort
    omega
  have hsplit := filter_append_filter (h.drop position) b
  rw [← List.drop_drop, ← hsplit, ← hall, List.drop_left] at he
  exact of_decide_eq_true (List.mem_filter.mp he).2

end Page

end OrderedStream
