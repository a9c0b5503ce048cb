import Mathlib

/-!
# Fixed-window rate limits

A limiter counts calls in windows of fixed length, each starting with the first call after the
previous one ended. Any interval of that length meets at most two windows, so it holds at most
twice the allowance.
-/

namespace RateWindow

/-- A window: where it starts and how many calls it has taken. -/
structure Window where
  start : ℕ
  calls : ℕ

/-- The window a call at `now` falls into. -/
def current (length now : ℕ) : Option Window → Window
  | some w => if now - w.start < length then w else ⟨now, 0⟩
  | none => ⟨now, 0⟩

def Window.spend (w : Window) : Window := { w with calls := w.calls + 1 }

/-- Calls admitted at the listed times, in this order. -/
inductive Admitted (limit length : ℕ) (s : Option Window) : List ℕ → Option Window → Prop
  | nil : Admitted limit length s [] s
  | call {times : List ℕ} {s' : Option Window} {now : ℕ} (h : Admitted limit length s times s')
      (hle : ∀ t ∈ times, t ≤ now) (hcalls : (current length now s').calls < limit) :
      Admitted limit length s (times ++ [now]) (some (current length now s').spend)

variable {limit length now n : ℕ} {s s' : Option Window} {times older recent : List ℕ} {w : Window}

theorem current_some :
    current length now (some w) = if now - w.start < length then w else ⟨now, 0⟩ := rfl

/-- How many of the times lie in `length` consecutive ones from `n` on. -/
def countFrom (length n : ℕ) (times : List ℕ) : ℕ :=
  times.countP fun t => decide (n ≤ t ∧ t < n + length)

/-- The calls of the running window and those of the earlier ones. -/
structure Split (limit length : ℕ) (older recent : List ℕ) (w : Window) : Prop where
  recent_le_calls : recent.length ≤ w.calls
  recent_le_limit : recent.length ≤ limit
  older_le : ∀ t ∈ older, t ≤ w.start
  started : older ≠ [] → w.start ∈ recent ∧ ∀ t ∈ recent, w.start ≤ t
  carried : older.countP (fun t => decide (w.start < t + length)) ≤ limit
  bounded : ∀ n, countFrom length n older ≤ 2 * limit

/-- An interval that meets the running window meets at most one earlier window. -/
theorem Split.countFrom_le (h : Split limit length older recent w) (n : ℕ) :
    countFrom length n (older ++ recent) ≤ 2 * limit := by
  unfold countFrom
  rw [List.countP_append]
  by_cases hmeets : ∃ t ∈ recent, n ≤ t ∧ t < n + length
  · have hrecent : recent.countP (fun t => decide (n ≤ t ∧ t < n + length)) ≤ limit :=
      List.countP_le_length.trans h.recent_le_limit
    have holder : older.countP (fun t => decide (n ≤ t ∧ t < n + length)) ≤ limit := by
      by_cases hempty : older = []
      · rw [hempty]
        exact Nat.zero_le _
      · obtain ⟨x, hx, -, hlt⟩ := hmeets
        have hstart : w.start ≤ x := (h.started hempty).2 x hx
        refine le_trans (List.countP_mono_left ?_) h.carried
        intro t _ ht
        have hin := of_decide_eq_true ht
        exact decide_eq_true (by omega)
    omega
  · have hrecent : recent.countP (fun t => decide (n ≤ t ∧ t < n + length)) = 0 := by
      apply List.countP_eq_zero.mpr
      intro t ht hin
      exact hmeets ⟨t, ht, of_decide_eq_true hin⟩
    rw [hrecent]
    exact h.bounded n

/-- One more call in the running window. -/
theorem Split.stay (h : Split limit length older recent w) (hle : ∀ t ∈ older ++ recent, t ≤ now)
    (hcalls : w.calls < limit) : Split limit length older (recent ++ [now]) w.spend := by
  have hrecent := h.recent_le_calls
  refine ⟨?_, ?_, h.older_le, ?_, h.carried, h.bounded⟩
  · rw [List.length_append]
    exact Nat.add_le_add_right hrecent 1
  · rw [List.length_append]
    exact le_trans (Nat.add_le_add_right hrecent 1) hcalls
  · intro hempty
    obtain ⟨hmem, hge⟩ := h.started hempty
    refine ⟨List.mem_append_left _ hmem, ?_⟩
    intro t ht
    rcases List.mem_append.mp ht with ht | ht
    · exact hge t ht
    · rw [List.mem_singleton.mp ht]
      exact hle w.start (List.mem_append_right _ hmem)

/-- The first call of a new window. -/
theorem Split.renew (h : Split limit length older recent w) (hle : ∀ t ∈ older ++ recent, t ≤ now)
    (hover : ¬ now - w.start < length) (hlimit : 0 < limit) :
    Split limit length (older ++ recent) [now] (Window.spend ⟨now, 0⟩) := by
  refine ⟨le_rfl, hlimit, hle, ?_, ?_, h.countFrom_le⟩
  · intro _
    refine ⟨List.mem_singleton_self now, ?_⟩
    intro t ht
    exact (List.mem_singleton.mp ht).ge
  · rw [List.countP_append]
    have holder : older.countP (fun t => decide (now < t + length)) = 0 := by
      apply List.countP_eq_zero.mpr
      intro t ht hlt
      have hstart := h.older_le t ht
      have hnow := hle t (List.mem_append_left _ ht)
      have hlate := of_decide_eq_true hlt
      omega
    have hrecent : recent.countP (fun t => decide (now < t + length)) ≤ limit :=
      List.countP_le_length.trans h.recent_le_limit
    show older.countP (fun t => decide (now < t + length)) +
      recent.countP (fun t => decide (now < t + length)) ≤ limit
    omega

/-- A limiter that has started has its calls split by windows. -/
theorem Admitted.split (h : Admitted limit length s times s') :
    (s' = none ∧ times = []) ∨
      ∃ w older recent, s' = some w ∧ times = older ++ recent ∧ Split limit length older recent w := by
  have hfirst : ∀ w : Window, Split limit length [] [] w := fun w =>
    ⟨Nat.zero_le _, Nat.zero_le _, fun _ ht => absurd ht List.not_mem_nil, fun hne => absurd rfl hne,
      Nat.zero_le _, fun _ => Nat.zero_le _⟩
  induction h with
  | nil =>
    cases s with
    | none => exact .inl ⟨rfl, rfl⟩
    | some w => exact .inr ⟨w, [], [], rfl, rfl, hfirst w⟩
  | @call times s' now h hle hcalls ih =>
    have hlimit : 0 < limit := Nat.zero_lt_of_lt hcalls
    rcases ih with ⟨rfl, rfl⟩ | ⟨w, older, recent, rfl, rfl, hsplit⟩
    · exact .inr ⟨_, [], [now], rfl, rfl, (hfirst ⟨now, 0⟩).stay (by simp) hlimit⟩
    · rw [current_some] at hcalls ⊢
      by_cases hin : now - w.start < length
      · rw [if_pos hin] at hcalls ⊢
        refine .inr ⟨_, older, recent ++ [now], rfl, ?_, hsplit.stay hle hcalls⟩
        rw [List.append_assoc]
      · rw [if_neg hin]
        exact .inr ⟨_, older ++ recent, [now], rfl, rfl, hsplit.renew hle hin hlimit⟩

/-- No `length` consecutive times hold more than twice the allowance. -/
theorem Admitted.countFrom_le (h : Admitted limit length s times s') (n : ℕ) :
    countFrom length n times ≤ 2 * limit := by
  rcases h.split with ⟨-, rfl⟩ | ⟨w, older, recent, -, rfl, hsplit⟩
  · exact Nat.zero_le _
  · exact hsplit.countFrom_le n

/-! ## Attempts -/

/-- An attempt: when it was made, whether it was admitted and whether it found no running window. -/
structure Attempt where
  time : ℕ
  admitted : Bool
  opens : Bool
deriving DecidableEq, Repr

/-- What the limiter makes of an attempt. -/
def attemptAt (limit length now : ℕ) (s : Option Window) : Attempt :=
  ⟨now, decide ((current length now s).calls < limit), decide ((current length now s).calls = 0)⟩

/-- The window after an attempt; a rejected one leaves it as it was. -/
def afterAttempt (limit length now : ℕ) (s : Option Window) : Option Window :=
  if (current length now s).calls < limit then some (current length now s).spend else s

/-- Attempts at a limiter that was never used, oldest first, and the window they leave. -/
inductive Attempted (limit length : ℕ) : List Attempt → Option Window → Prop
  | nil : Attempted limit length [] none
  | next {log : List Attempt} {s : Option Window} {now : ℕ} (h : Attempted limit length log s)
      (hle : ∀ a ∈ log, a.time ≤ now) :
      Attempted limit length (log ++ [attemptAt limit length now s])
        (afterAttempt limit length now s)

/-- The times of the admitted attempts. -/
def admittedTimes (log : List Attempt) : List ℕ := (log.filter (·.admitted)).map (·.time)

/-- How many of the times lie in the `length` consecutive ones that end at `now`. -/
def countUntil (length now : ℕ) (times : List ℕ) : ℕ :=
  times.countP fun t => decide (t ≤ now ∧ now < t + length)

/-- How the attempts so far relate to the running window. -/
structure Windowed (limit length : ℕ) (log : List Attempt) (w : Window) : Prop where
  calls_pos : 0 < w.calls
  calls_le : w.calls ≤ limit
  counted : (admittedTimes log).countP (fun t => decide (w.start ≤ t)) = w.calls
  recent : ∀ t ∈ admittedTimes log, t < w.start + length
  opened : ∀ a ∈ log, a.admitted = true → a.opens = true →
    countFrom length a.time (admittedTimes log) ≤ limit ∧
      (a.time = w.start ∨ a.time + length ≤ w.start)
  rejected : ∀ pre a post, log = pre ++ a :: post → a.admitted = false →
    limit ≤ countUntil length a.time (admittedTimes pre)

section Attempts

variable {log pre post : List Attempt} {a : Attempt}

theorem admittedTimes_concat : admittedTimes (log ++ [a]) =
    admittedTimes log ++ if a.admitted = true then [a.time] else [] := by
  unfold admittedTimes
  rw [List.filter_append, List.map_append]
  by_cases ha : a.admitted = true
  · simp [ha]
  · simp [ha]

theorem mem_admittedTimes {t : ℕ} (h : t ∈ admittedTimes log) : ∃ a ∈ log, a.time = t := by
  obtain ⟨a, ha, rfl⟩ := List.mem_map.mp h
  exact ⟨a, (List.mem_filter.mp ha).1, rfl⟩

/-- An admitted time outside the interval is not counted. -/
theorem countFrom_concat_outside (h : ¬ (n ≤ now ∧ now < n + length)) :
    countFrom length n (times ++ [now]) = countFrom length n times := by
  unfold countFrom
  rw [List.countP_append, List.countP_singleton, if_neg (by simpa using h), Nat.add_zero]

/-- A log that ends in another attempt splits at an earlier one, or at the last. -/
theorem split_concat {b : Attempt} (h : log ++ [b] = pre ++ a :: post) :
    (∃ post', log = pre ++ a :: post') ∨ pre = log ∧ a = b := by
  rcases List.eq_nil_or_concat post with rfl | ⟨post', c, rfl⟩
  · obtain ⟨h1, h2⟩ := List.append_inj' h rfl
    exact .inr ⟨h1.symm, (List.singleton_inj.mp h2).symm⟩
  · refine .inl ⟨post', ?_⟩
    have hassoc : log ++ [b] = (pre ++ a :: post') ++ [c] := by
      rw [h, List.append_assoc, List.cons_append, List.concat_eq_append]
    exact (List.append_inj' hassoc rfl).1

/-- The start of the running window is the time of an admitted attempt. -/
theorem Windowed.start_le (h : Windowed limit length log w) (hle : ∀ a ∈ log, a.time ≤ now) :
    w.start ≤ now := by
  have hsome : 0 < (admittedTimes log).countP fun t => decide (w.start ≤ t) := by
    rw [h.counted]
    exact h.calls_pos
  obtain ⟨t, ht, hstart⟩ := List.countP_pos_iff.mp hsome
  obtain ⟨a, ha, rfl⟩ := mem_admittedTimes ht
  exact (of_decide_eq_true hstart).trans (hle a ha)

/-- Rejections seen so far keep their count when another attempt is admitted. -/
theorem Windowed.rejected_concat (h : Windowed limit length log w) {b : Attempt}
    (hb : b.admitted = true) (heq : log ++ [b] = pre ++ a :: post) (ha : a.admitted = false) :
    limit ≤ countUntil length a.time (admittedTimes pre) := by
  rcases split_concat heq with ⟨post', hlog⟩ | ⟨-, rfl⟩
  · exact h.rejected pre a post' hlog ha
  · rw [hb] at ha
    exact Bool.noConfusion ha

/-- Another call in the running window. -/
theorem Windowed.stay (h : Windowed limit length log w) (hle : ∀ a ∈ log, a.time ≤ now)
    (hin : now - w.start < length) (hcalls : w.calls < limit) :
    Windowed limit length (log ++ [⟨now, true, false⟩]) w.spend := by
  have hstart := h.start_le hle
  have htimes : admittedTimes (log ++ [⟨now, true, false⟩]) = admittedTimes log ++ [now] := by
    rw [admittedTimes_concat, if_pos rfl]
  have hcount : (admittedTimes log ++ [now]).countP (fun t => decide (w.start ≤ t)) =
      w.calls + 1 := by
    rw [List.countP_append, h.counted, List.countP_singleton, if_pos (by simpa using hstart)]
  refine ⟨Nat.succ_pos _, hcalls, ?_, ?_, ?_, ?_⟩
  · rw [htimes]
    exact hcount
  · rw [htimes]
    intro t ht
    show t < w.start + length
    rcases List.mem_append.mp ht with ht | ht
    · exact h.recent t ht
    · rw [List.mem_singleton.mp ht]
      omega
  · rw [htimes]
    intro a ha hadmitted hopens
    rcases List.mem_append.mp ha with ha | ha
    · obtain ⟨hbound, hold | hold⟩ := h.opened a ha hadmitted hopens
      · refine ⟨le_trans ?_ (hcount.le.trans hcalls), .inl hold⟩
        apply List.countP_mono_left
        intro t _ ht
        have hrange := of_decide_eq_true ht
        exact decide_eq_true (by omega)
      · rw [countFrom_concat_outside (by omega)]
        exact ⟨hbound, .inr hold⟩
    · rw [List.mem_singleton.mp ha] at hopens
      exact Bool.noConfusion hopens
  · exact fun pre a post heq ha => h.rejected_concat rfl heq ha

/-- The first call of the next window. -/
theorem Windowed.renew (h : Windowed limit length log w) (hover : ¬ now - w.start < length)
    (hlimit : 0 < limit) (hlength : 0 < length) :
    Windowed limit length (log ++ [⟨now, true, true⟩]) (Window.spend ⟨now, 0⟩) := by
  have htimes : admittedTimes (log ++ [⟨now, true, true⟩]) = admittedTimes log ++ [now] := by
    rw [admittedTimes_concat, if_pos rfl]
  have hearlier : ∀ t ∈ admittedTimes log, t < now := by
    intro t ht
    have hrecent := h.recent t ht
    omega
  have hfirst : ∀ p : ℕ → Bool, (∀ t, p t = true → now ≤ t) →
      (admittedTimes log ++ [now]).countP p ≤ 1 := by
    intro p hp
    have hnone : (admittedTimes log).countP p = 0 := by
      apply List.countP_eq_zero.mpr
      intro t ht hpt
      have hlate := hp t hpt
      have hearly := hearlier t ht
      omega
    rw [List.countP_append, hnone, List.countP_singleton, Nat.zero_add]
    split_ifs
    · exact le_rfl
    · exact Nat.zero_le 1
  refine ⟨Nat.one_pos, hlimit, ?_, ?_, ?_, ?_⟩
  · rw [htimes]
    apply le_antisymm (hfirst _ fun t ht => of_decide_eq_true ht)
    rw [List.countP_append, List.countP_singleton, if_pos (by simp)]
    exact Nat.le_add_left 1 _
  · rw [htimes]
    intro t ht
    show t < now + length
    rcases List.mem_append.mp ht with ht | ht
    · have hearly := hearlier t ht
      omega
    · rw [List.mem_singleton.mp ht]
      omega
  · rw [htimes]
    intro a ha hadmitted hopens
    rcases List.mem_append.mp ha with ha | ha
    · obtain ⟨hbound, hold⟩ := h.opened a ha hadmitted hopens
      have hbefore : a.time + length ≤ now := by
        rcases hold with hold | hold
        · omega
        · omega
      rw [countFrom_concat_outside (by omega)]
      exact ⟨hbound, .inr hbefore⟩
    · rw [List.mem_singleton.mp ha]
      refine ⟨le_trans (hfirst _ fun t ht => ?_) hlimit, .inl rfl⟩
      exact (of_decide_eq_true ht).1
  · exact fun pre a post heq ha => h.rejected_concat rfl heq ha

/-- A rejection finds the window used up. -/
theorem Windowed.reject (h : Windowed limit length log w) (hle : ∀ a ∈ log, a.time ≤ now)
    (hin : now - w.start < length) (hcalls : ¬ w.calls < limit) (o : Bool) :
    Windowed limit length (log ++ [⟨now, false, o⟩]) w := by
  have htimes : admittedTimes (log ++ [⟨now, false, o⟩]) = admittedTimes log := by
    rw [admittedTimes_concat, if_neg Bool.false_ne_true, List.append_nil]
  refine ⟨h.calls_pos, h.calls_le, ?_, ?_, ?_, ?_⟩
  · rw [htimes]
    exact h.counted
  · rw [htimes]
    exact h.recent
  · rw [htimes]
    intro a ha hadmitted
    rcases List.mem_append.mp ha with ha | ha
    · exact h.opened a ha hadmitted
    · rw [List.mem_singleton.mp ha] at hadmitted
      exact Bool.noConfusion hadmitted
  · intro pre a post heq ha
    rcases split_concat heq with ⟨post', hlog⟩ | ⟨rfl, rfl⟩
    · exact h.rejected pre a post' hlog ha
    · apply (not_lt.mp hcalls).trans
      rw [← h.counted]
      apply List.countP_mono_left
      intro t ht hafter
      obtain ⟨b, hb, rfl⟩ := mem_admittedTimes ht
      have hbefore := hle b hb
      have hstart := of_decide_eq_true hafter
      have hlate : now < b.time + length := by omega
      exact decide_eq_true ⟨hbefore, hlate⟩

/-- The very first call. -/
theorem windowed_first (hlimit : 0 < limit) (hlength : 0 < length) :
    Windowed limit length [⟨now, true, true⟩] (Window.spend ⟨now, 0⟩) := by
  have htimes : admittedTimes [⟨now, true, true⟩] = [now] := rfl
  refine ⟨Nat.one_pos, hlimit, ?_, ?_, ?_, ?_⟩
  · simp [htimes, Window.spend]
  · simp [htimes, Window.spend, hlength]
  · intro a ha _ _
    rw [List.mem_singleton.mp ha, htimes]
    exact ⟨List.countP_le_length.trans hlimit, .inl rfl⟩
  · intro pre a post heq ha
    have hfirst : [] ++ [⟨now, true, true⟩] = pre ++ a :: post := heq
    rcases split_concat hfirst with ⟨post', hlog⟩ | ⟨-, rfl⟩
    · simp at hlog
    · exact Bool.noConfusion ha

/-- A limiter that was used has its attempts related to its window. -/
theorem Attempted.windowed (h : Attempted limit length log s) (hlimit : 0 < limit)
    (hlength : 0 < length) :
    (s = none ∧ log = []) ∨ ∃ w, s = some w ∧ Windowed limit length log w := by
  induction h with
  | nil => exact .inl ⟨rfl, rfl⟩
  | @next log s now h hle ih =>
    right
    rcases ih with ⟨rfl, rfl⟩ | ⟨w, rfl, hw⟩
    · have hfresh : attemptAt limit length now none = ⟨now, true, true⟩ := by
        simp [attemptAt, current, hlimit]
      have hafter : afterAttempt limit length now none = some (Window.spend ⟨now, 0⟩) := by
        simp [afterAttempt, current, hlimit]
      rw [hfresh, hafter]
      exact ⟨_, rfl, windowed_first hlimit hlength⟩
    · unfold attemptAt afterAttempt
      rw [current_some]
      by_cases hin : now - w.start < length
      · rw [if_pos hin]
        by_cases hcalls : w.calls < limit
        · rw [if_pos hcalls, decide_eq_true hcalls, decide_eq_false hw.calls_pos.ne']
          exact ⟨_, rfl, hw.stay hle hin hcalls⟩
        · rw [if_neg hcalls, decide_eq_false hcalls]
          exact ⟨_, rfl, hw.reject hle hin hcalls _⟩
      · rw [if_neg hin, if_pos hlimit, decide_eq_true hlimit, decide_eq_true rfl]
        exact ⟨_, rfl, hw.renew hin hlimit hlength⟩

/-- The admitted attempts are admitted calls. -/
theorem Attempted.toAdmitted (h : Attempted limit length log s) :
    Admitted limit length none (admittedTimes log) s := by
  induction h with
  | nil => exact .nil
  | @next log s now h hle ih =>
    rw [admittedTimes_concat]
    unfold attemptAt afterAttempt
    by_cases hcalls : (current length now s).calls < limit
    · rw [if_pos hcalls, if_pos (decide_eq_true hcalls)]
      refine ih.call ?_ hcalls
      intro t ht
      obtain ⟨a, ha, rfl⟩ := mem_admittedTimes ht
      exact hle a ha
    · rw [if_neg hcalls, if_neg (by simpa using hcalls), List.append_nil]
      exact ih

end Attempts

end RateWindow
