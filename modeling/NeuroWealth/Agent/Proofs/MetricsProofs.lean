import NeuroWealth.Foundation.Numbers
import NeuroWealth.Foundation.Rounding
import NeuroWealth.Agent.Metrics

/-!
# The reported error rate

The engine counts the errors of the window, as long as its history holds them, but divides them by
all operations it has ever seen. So an operation that has left the window still lowers the rate.
-/

namespace NeuroWealth.Metrics

open Binary64 Rounding MetricsEngine

variable {t : AlertThresholds} {h : List (ℤ × Call)} {now : ℤ} {a b a' b' : ℕ} {x y x' y' : ℚ}

/-! ## What was recorded -/

/-- The calls that count as operations. -/
def Call.isOperation : Call → Bool
  | .flow _ _ _ => true
  | .error _ _ => true
  | .operation => true
  | _ => false

def Call.isError : Call → Bool
  | .error _ _ => true
  | _ => false

/-- The call is not longer ago than the window. -/
def AlertThresholds.within (t : AlertThresholds) (now : ℤ) (c : ℤ × Call) : Bool :=
  ((now - c.1 : ℤ) : ℚ) ≤ t.windowMs

def operations (h : List (ℤ × Call)) : ℕ := h.countP fun c => c.2.isOperation

def operationsWithin (t : AlertThresholds) (h : List (ℤ × Call)) (now : ℤ) : ℕ :=
  h.countP fun c => c.2.isOperation && t.within now c

def errorsWithin (t : AlertThresholds) (h : List (ℤ × Call)) (now : ℤ) : ℕ :=
  h.countP fun c => c.2.isError && t.within now c

/-- The error rate of the window. -/
def windowedRateBps (t : AlertThresholds) (h : List (ℤ × Call)) (now : ℤ) : ℤ :=
  rateBps (errorsWithin t h now) (operationsWithin t h now)

/-- The engine reports the error rate of the window and raises its alert by it. -/
structure Faithful (t : AlertThresholds) (h : List (ℤ × Call)) (now : ℤ) : Prop where
  reported : ∀ later, ((after t h).getSnapshot now later).errorRate.rateBps =
    windowedRateBps t h now
  alerted : (∃ alert ∈ (after t h).checkAlerts now, alert.type = .errorRate) ↔
    t.errorRateLimit ≤ windowedRateBps t h now

/-! ## The state of the engine -/

/-- The entry that a call adds to the errors. -/
def errorEvent (c : ℤ × Call) : Option ErrorEvent :=
  match c.2 with
  | .error kind message => some ⟨c.1, kind, message⟩
  | _ => none

theorem errors_record (e : MetricsEngine) (c : ℤ × Call) :
    (e.record c).errors = ((errorEvent c).map (push e.errors)).getD e.errors := by
  obtain ⟨time, call⟩ := c
  cases call <;> rfl

theorem operationCount_record (e : MetricsEngine) (c : ℤ × Call) :
    (e.record c).operationCount = e.operationCount + if c.2.isOperation then 1 else 0 := by
  obtain ⟨time, call⟩ := c
  cases call <;> rfl

theorem thresholds_record (e : MetricsEngine) (c : ℤ × Call) :
    (e.record c).thresholds = e.thresholds := by
  obtain ⟨time, call⟩ := c
  cases call <;> rfl

theorem after_snoc (c : ℤ × Call) : after t (h ++ [c]) = (after t h).record c := by
  unfold after
  rw [List.foldl_append]
  rfl

theorem thresholds_after : (after t h).thresholds = t := by
  induction h using List.reverseRecOn with
  | nil => rfl
  | append_singleton h c ih => rw [after_snoc, thresholds_record, ih]

theorem operationCount_after : (after t h).operationCount = operations h := by
  induction h using List.reverseRecOn with
  | nil => rfl
  | append_singleton h c ih =>
    rw [after_snoc, operationCount_record, ih]
    unfold operations
    rw [List.countP_append, List.countP_singleton]

/-- The engine keeps the last errors. -/
theorem errors_after : (after t h).errors = (h.filterMap errorEvent).rtake MAX_HISTORY := by
  rw [← BoundedLog.foldl_push]
  induction h using List.reverseRecOn with
  | nil => rfl
  | append_singleton h c ih =>
    rw [after_snoc, errors_record, ih, List.foldl_append]
    rfl

theorem isSome_errorEvent (c : ℤ × Call) : (errorEvent c).isSome = c.2.isError := by
  obtain ⟨time, call⟩ := c
  cases call <;> rfl

theorem time_of_errorEvent {c : ℤ × Call} {e : ErrorEvent} (he : errorEvent c = some e) :
    e.time = c.1 := by
  obtain ⟨time, call⟩ := c
  cases call <;> cases he
  rfl

/-- The errors in the window are those the engine still keeps of them. -/
theorem windowErrors_after (hsorted : h.Pairwise fun c d => c.1 ≤ d.1) :
    (after t h).windowErrors now = min (errorsWithin t h now) MAX_HISTORY := by
  have hordered : (h.filterMap errorEvent).Pairwise fun d e => d.time ≤ e.time := by
    apply hsorted.filterMap
    intro c d hcd e he f hf
    rw [time_of_errorEvent he, time_of_errorEvent hf]
    exact hcd
  unfold MetricsEngine.windowErrors
  rw [errors_after, thresholds_after, BoundedLog.length_filter_rtake]
  · congr 1
    rw [← List.countP_eq_length_filter, List.countP_filterMap]
    unfold errorsWithin
    congr 1
    funext c
    rw [← isSome_errorEvent]
    cases he : errorEvent c with
    | none => rfl
    | some e =>
      simp only [Option.map_some, Option.getD_some, Option.isSome_some, Bool.true_and,
        AlertThresholds.within, time_of_errorEvent he]
  · refine hordered.imp ?_
    intro d e hde hd
    have hlater : now - e.time ≤ now - d.time := by omega
    have hcast : ((now - e.time : ℤ) : ℚ) ≤ ((now - d.time : ℤ) : ℚ) := by exact_mod_cast hlater
    exact decide_eq_true (hcast.trans (of_decide_eq_true hd))

/-! ## Rates -/

theorem rateBps_eq : rateBps a b = round (basisPoints a b) := by
  unfold rateBps
  split_ifs with hpos
  · rfl
  · obtain rfl : b = 0 := by omega
    simp [basisPoints, toDouble_zero]

theorem basisPoints_mono (hnonneg : 0 ≤ x / y) (hle : x / y ≤ x' / y') :
    basisPoints x y ≤ basisPoints x' y' := by
  have hquotient : toDouble (x / y) ≤ toDouble (x' / y') := toDouble_mono hnonneg hle
  have hstart : 0 ≤ toDouble (x / y) * 10000 := mul_nonneg (toDouble_nonneg hnonneg) (by norm_num)
  exact toDouble_mono hstart (by linarith)

/-- With fewer errors of more operations the rate is lower, unless it rounds to the same. -/
theorem rateBps_eq_iff (herrors : a ≤ a') (hle : a' ≤ b') (hoperations : b' ≤ b) :
    rateBps a b = rateBps a' b' ↔ ¬ HalfBetween (basisPoints a b) (basisPoints a' b') := by
  have hratio : (a : ℚ) / b ≤ a' / b' := by
    rcases Nat.eq_zero_or_pos b' with rfl | hpos
    · obtain rfl : a' = 0 := by omega
      obtain rfl : a = 0 := by omega
      simp
    · gcongr
  have hmono : basisPoints a b ≤ basisPoints a' b' := basisPoints_mono (by positivity) hratio
  rw [rateBps_eq, rateBps_eq, ← round_lt_round_iff]
  have hround := round_mono hmono
  omega

/-! ## The report -/

/-- The alert is raised by the reported rate. -/
theorem errorRate_alerted_iff (e : MetricsEngine) :
    (∃ alert ∈ e.checkAlerts now, alert.type = .errorRate) ↔
      e.thresholds.errorRateLimit ≤ rateBps (e.windowErrors now) e.operationCount := by
  unfold checkAlerts
  simp only [List.mem_append, or_and_right, exists_or]
  constructor
  · rintro (((⟨alert, hmem, htype⟩ | ⟨alert, hmem, htype⟩) | ⟨alert, hmem, htype⟩) |
      ⟨alert, hmem, htype⟩)
    · split_ifs at hmem
      · rw [List.mem_singleton.mp hmem] at htype
        cases htype
      · cases hmem
    · split_ifs at hmem
      · rw [List.mem_singleton.mp hmem] at htype
        cases htype
      · cases hmem
    · split_ifs at hmem with hrate
      · exact hrate
      · cases hmem
    · obtain ⟨last, -, rfl⟩ := List.mem_map.mp hmem
      cases htype
  · intro hrate
    refine .inl (.inr ?_)
    rw [if_pos hrate]
    exact ⟨_, List.mem_singleton_self _, rfl⟩

theorem faithful_iff (hsorted : h.Pairwise fun c d => c.1 ≤ d.1) :
    Faithful t h now ↔
      rateBps (min (errorsWithin t h now) MAX_HISTORY) (operations h) =
        windowedRateBps t h now := by
  have hreported : ∀ later, ((after t h).getSnapshot now later).errorRate.rateBps =
      rateBps (min (errorsWithin t h now) MAX_HISTORY) (operations h) := by
    intro later
    show rateBps ((after t h).windowErrors now) (after t h).operationCount = _
    rw [windowErrors_after hsorted, operationCount_after]
  have halerted : (∃ alert ∈ (after t h).checkAlerts now, alert.type = .errorRate) ↔ _ :=
    errorRate_alerted_iff (after t h)
  rw [thresholds_after, windowErrors_after hsorted, operationCount_after] at halerted
  constructor
  · intro hfaithful
    exact (hreported now).symm.trans (hfaithful.reported now)
  · intro hrate
    refine ⟨fun later => (hreported later).trans hrate, ?_⟩
    rw [halerted, hrate]

/-- The engine is faithful exactly when no half of a basis point parts the share of the errors it
    still holds in all operations from that of the window's errors in the window's operations. It is
    so when the window has no error, or holds all operations and no more errors than the history. -/
theorem errorRate_windowed_iff (hsorted : h.Pairwise fun c d => c.1 ≤ d.1) :
    (Faithful t h now ↔ ¬ HalfBetween
      (basisPoints (min (errorsWithin t h now) MAX_HISTORY : ℕ) (operations h))
      (basisPoints (errorsWithin t h now) (operationsWithin t h now))) ∧
    (errorsWithin t h now = 0 ∨ operationsWithin t h now = operations h ∧
      errorsWithin t h now ≤ MAX_HISTORY → Faithful t h now) := by
  have hcounted : errorsWithin t h now ≤ operationsWithin t h now := by
    refine List.countP_mono_left fun c _ hc => ?_
    obtain ⟨time, call⟩ := c
    cases call <;> simp_all [Call.isError, Call.isOperation]
  have hwithin : operationsWithin t h now ≤ operations h := by
    refine List.countP_mono_left fun c _ hc => ?_
    exact (Bool.and_eq_true_iff.mp hc).1
  have hkept : min (errorsWithin t h now) MAX_HISTORY ≤ errorsWithin t h now := min_le_left _ _
  rw [faithful_iff hsorted]
  refine ⟨rateBps_eq_iff hkept hcounted hwithin, ?_⟩
  rintro (hnone | ⟨hall, hfew⟩)
  · rw [windowedRateBps, hnone, Nat.zero_min, rateBps_eq, rateBps_eq]
    simp [basisPoints]
  · rw [windowedRateBps, hall, min_eq_left hfew]

namespace Sample

/-- An operation, and an error more than an hour later. -/
def aged : List (ℤ × Call) := [(0, .operation), (4000000, .error "rpc" none)]

/-- All there was in the last hour failed; half of it all is reported. -/
theorem aged_unfaithful : aged.Pairwise (fun c d => c.1 ≤ d.1) ∧
    ¬ Faithful DEFAULT_ALERT_THRESHOLDS aged 4000000 := by
  have hsorted : aged.Pairwise fun c d => c.1 ≤ d.1 := by decide
  have hexact : ∀ n : ℤ, |n| < 2 ^ 53 → toDouble n = n := by
    intro n hn
    have hscaled := toDouble_scaled hn (by norm_num : (-1074 : ℤ) ≤ 0)
    rwa [zpow_zero, mul_one] at hscaled
  have hhalf : toDouble (1 / 2) = 1 / 2 := by
    have hscaled := toDouble_scaled (z := 1) (s := -1) (by norm_num) (by norm_num)
    norm_num at hscaled ⊢
    exact hscaled
  refine ⟨hsorted, fun hfaithful => ?_⟩
  have hrates := (faithful_iff hsorted).mp hfaithful
  have herrors : errorsWithin DEFAULT_ALERT_THRESHOLDS aged 4000000 = 1 := by decide +kernel
  have hwithin : operationsWithin DEFAULT_ALERT_THRESHOLDS aged 4000000 = 1 := by decide +kernel
  have hall : operations aged = 2 := rfl
  have hreported : basisPoints 1 2 = 5000 := by
    have hfive := hexact 5000 (by norm_num)
    rw [basisPoints, hhalf]
    norm_num at hfive ⊢
    exact hfive
  have hwindowed : basisPoints 1 1 = 10000 := by
    have hone := hexact 1 (by norm_num)
    have hten := hexact 10000 (by norm_num)
    norm_num at hone hten
    rw [basisPoints, div_one, hone, one_mul, hten]
  rw [windowedRateBps, herrors, hwithin, hall, rateBps_eq, rateBps_eq] at hrates
  norm_num [MAX_HISTORY, hreported, hwindowed] at hrates

/-- A failure among three operations of the hour. -/
def young : List (ℤ × Call) :=
  [(0, .operation), (5, .error "rpc" none), (5, .flow .deposit "a" 7)]

theorem young_faithful : Faithful DEFAULT_ALERT_THRESHOLDS young 10 :=
  (errorRate_windowed_iff (by decide)).2 (.inr ⟨by decide +kernel, by decide +kernel⟩)

end Sample

end NeuroWealth.Metrics
