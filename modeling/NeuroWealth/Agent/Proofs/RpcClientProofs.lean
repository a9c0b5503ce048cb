import NeuroWealth.Agent.RpcClient

/-!
# The law of the circuit breaker

The code's failure list agrees with the failures since the last success on every window that is still
to come. The law of the circuit follows as long as no failure finds it in the wrong state, no answer
of the network finds it open, and no probe starts while another one is in flight.
-/

namespace NeuroWealth.RpcClient

open Interleaving

variable {ι α : Type} [DecidableEq ι] {settings : Settings} {s : System ι Shared (Stage α)}
  {x y : Shared} {p q : Stage α} {o : Outcome α} {ep : EndpointState} {endpoint : Endpoint}
  {probe retryOnFallback : Bool} {message : String} {now : ℕ}

/-! ## One endpoint -/

/-- A shorter window may be counted after the older failures were dropped. -/
theorem countP_window {l : List ℕ} {a b w : ℕ} (h : a ≤ b) :
    (l.filter (a ≤ · + w)).countP (b ≤ · + w) = l.countP (b ≤ · + w) := by
  rw [List.countP_filter]
  apply List.countP_congr
  intro t _
  simp only [Bool.and_eq_true, decide_eq_true_eq]
  constructor
  · intro hboth
    exact hboth.1
  · intro hb
    exact ⟨hb, h.trans hb⟩

theorem recentFailures_prune {later : ℕ} (hlater : now ≤ later) :
    (ep.pruneOldFailures now).recentFailures later = ep.recentFailures later :=
  countP_window hlater

theorem countP_push (l : List ℕ) (later : ℕ) :
    (l ++ [now]).countP (later ≤ · + failureWindowMs) =
      (now :: l).countP (later ≤ · + failureWindowMs) := by
  rw [List.countP_append, List.countP_cons, List.countP_cons, List.countP_nil]
  omega

/-- The length that `recordFailure` compares with the threshold. -/
theorem pruned_length (ep : EndpointState) (now : ℕ) :
    ((ep.failureTimes ++ [now]).filter (now ≤ · + failureWindowMs)).length =
      ep.recentFailures now + 1 := by
  rw [← List.countP_eq_length_filter, countP_push, List.countP_cons]
  simp [EndpointState.recentFailures]

/-- The third failure in a window opens a closed circuit. -/
theorem recordFailure_opens (hclosed : ep.state = .closed)
    (hthird : failureThreshold ≤ ep.recentFailures now + 1) :
    (ep.recordFailure now).state = .opened ∧ (ep.recordFailure now).openedAt = some now := by
  unfold EndpointState.recordFailure
  simp only [EndpointState.pruneOldFailures, pruned_length]
  rw [if_pos ⟨hthird, hclosed⟩]
  exact ⟨rfl, rfl⟩

/-- Any other failure leaves the circuit as it is. -/
theorem recordFailure_keeps
    (h : ¬ (failureThreshold ≤ ep.recentFailures now + 1 ∧ ep.state = .closed)) :
    (ep.recordFailure now).state = ep.state ∧ (ep.recordFailure now).openedAt = ep.openedAt := by
  unfold EndpointState.recordFailure
  simp only [EndpointState.pruneOldFailures, pruned_length]
  rw [if_neg h]
  exact ⟨rfl, rfl⟩

theorem recordFailure_failureTimes (ep : EndpointState) (now : ℕ) :
    (ep.recordFailure now).failureTimes =
      (ep.failureTimes ++ [now]).filter (now ≤ · + failureWindowMs) := by
  unfold EndpointState.recordFailure
  rw [apply_ite EndpointState.failureTimes]
  exact ite_self _

theorem recordFailure_recentFailures {later : ℕ} (h : now ≤ later) :
    (ep.recordFailure now).recentFailures later =
      (now :: ep.failureTimes).countP (later ≤ · + failureWindowMs) := by
  unfold EndpointState.recentFailures
  rw [recordFailure_failureTimes, countP_window h, countP_push]

/-- An open circuit says since when. -/
def EndpointState.Dated (ep : EndpointState) : Prop := ep.state = .opened → ep.openedAt.isSome

theorem dated_recordFailure (h : ep.Dated) : (ep.recordFailure now).Dated := by
  by_cases hopens : failureThreshold ≤ ep.recentFailures now + 1 ∧ ep.state = .closed
  · obtain ⟨-, hopenedAt⟩ := recordFailure_opens hopens.2 hopens.1
    intro _
    rw [hopenedAt]
    rfl
  · obtain ⟨hstate, hopenedAt⟩ := recordFailure_keeps hopens
    intro hopened
    rw [hopenedAt]
    exact h (hstate ▸ hopened)

/-- A rested circuit has been open for the interval. -/
theorem rested_openedAt (h : ep.Dated) (hopened : ep.state = .opened) (hrested : ep.Rested now) :
    ∃ openedAt ∈ ep.openedAt, openedAt + resetIntervalMs ≤ now := by
  obtain ⟨openedAt, hopenedAt⟩ := Option.isSome_iff_exists.mp (h hopened)
  refine ⟨openedAt, hopenedAt, ?_⟩
  unfold EndpointState.Rested at hrested
  rw [hopenedAt] at hrested
  exact hrested

/-! ## The invariant -/

/-- The code counts the failures since the last success, in every window from now on. -/
def Shared.Counts (x : Shared) : Prop :=
  ∀ later, x.clock ≤ later → (x.endpoints .primary).recentFailures later =
    (x.failures .primary).countP (later ≤ · + failureWindowMs)

/-- What holds of the shared state. -/
structure Kept (x : Shared) : Prop where
  lawful : ∀ e ∈ x.log, e.Lawful
  counts : x.Counts
  dated : (x.endpoints .primary).Dated

/-- A call goes to the fallback only when it opted in, and not as a probe. -/
def Stage.OptedIn : Stage α → Prop
  | verifying .fallback probe retryOnFallback => retryOnFallback ∧ ¬ probe
  | calling .fallback probe retryOnFallback => retryOnFallback ∧ ¬ probe
  | _ => True

/-- The primary is replaced by one with the same circuit and the same failures in every window to
    come. -/
theorem Kept.update (h : Kept x) (hstate : ep.Dated)
    (hrecent : ∀ later, x.clock ≤ later →
      ep.recentFailures later = (x.endpoints .primary).recentFailures later) :
    Kept (x.update .primary ep) := by
  refine ⟨h.lawful, ?_, ?_⟩
  · intro later hlater
    have hnew : ((x.update .primary ep).endpoints .primary).recentFailures later =
        ep.recentFailures later := by
      simp [Shared.update]
    rw [hnew, hrecent later hlater]
    exact h.counts later hlater
  · simpa [Shared.update] using hstate

theorem Kept.update_fallback (h : Kept x) : Kept (x.update .fallback ep) := by
  refine ⟨h.lawful, ?_, ?_⟩
  · intro later hlater
    simpa [Shared.update] using h.counts later hlater
  · simpa [Shared.update] using h.dated

theorem Kept.contact (h : Kept x)
    (hlawful : (Event.contacted endpoint ep x.clock retryOnFallback).Lawful) :
    Kept (x.contact endpoint ep retryOnFallback) := by
  refine ⟨?_, h.counts, h.dated⟩
  intro e he
  rcases List.mem_cons.mp he with rfl | hold
  · exact hlawful
  · exact h.lawful e hold

theorem Kept.recordSuccess (h : Kept x) : Kept (x.recordSuccess endpoint probe) := by
  refine ⟨?_, ?_, ?_⟩
  · intro e he
    rcases List.mem_cons.mp he with rfl | hold
    · cases endpoint with
      | primary => exact fun _ => rfl
      | fallback => trivial
    · exact h.lawful e hold
  · intro later hlater
    cases endpoint with
    | primary =>
      simp [Shared.recordSuccess, Shared.update, EndpointState.recordSuccess,
        EndpointState.recentFailures]
    | fallback => simpa [Shared.recordSuccess, Shared.update] using h.counts later hlater
  · cases endpoint with
    | primary =>
      intro hopened
      simp [Shared.recordSuccess, Shared.update, EndpointState.recordSuccess] at hopened
    | fallback => simpa [Shared.recordSuccess, Shared.update] using h.dated

/-- A failure of the primary in a state where it may fail. -/
theorem Kept.recordFailure (h : Kept x) (hmay : x.MayFail probe) :
    Kept (x.recordFailure .primary probe) := by
  have hcount : (x.endpoints .primary).recentFailures x.clock =
      (x.failures .primary).countP (x.clock ≤ · + failureWindowMs) := h.counts x.clock le_rfl
  unfold Shared.MayFail at hmay
  refine ⟨?_, ?_, ?_⟩
  · intro e he
    rcases List.mem_cons.mp he with rfl | hold
    · constructor
      · intro hthird
        rw [← hcount] at hthird
        cases hstate : (x.endpoints .primary).state with
        | closed => exact (recordFailure_opens hstate hthird).1
        | opened =>
          rw [(recordFailure_keeps (by simp [hstate])).1]
          exact hstate
        | halfOpen =>
          exfalso
          cases probe with
          | true =>
            obtain ⟨hclosed, -⟩ := hmay
            rw [hstate] at hclosed
            cases hclosed
          | false =>
            have hfew := hmay hstate
            omega
      · rintro rfl
        exact recordFailure_opens hmay.1 hmay.2
    · exact h.lawful e hold
  · intro later hlater
    replace hlater : x.clock ≤ later := hlater
    have hnew : ((x.recordFailure .primary probe).endpoints .primary).recentFailures later =
        ((x.endpoints .primary).recordFailure x.clock).recentFailures later := by
      simp [Shared.recordFailure, Shared.update]
    have hold := h.counts later hlater
    unfold EndpointState.recentFailures at hold
    rw [hnew, recordFailure_recentFailures hlater, List.countP_cons, hold]
    simp [Shared.recordFailure, List.countP_cons]
  · simpa [Shared.recordFailure, Shared.update] using dated_recordFailure h.dated

theorem Kept.recordFailure_fallback (h : Kept x) : Kept (x.recordFailure .fallback probe) := by
  refine ⟨?_, ?_, ?_⟩
  · intro e he
    rcases List.mem_cons.mp he with rfl | hold
    · trivial
    · exact h.lawful e hold
  · intro later hlater
    simpa [Shared.recordFailure, Shared.update] using h.counts later hlater
  · simpa [Shared.recordFailure, Shared.update] using h.dated

/-! ## Every step -/

/-- What a step of a call leads to. -/
structure Good (z : Shared × Stage α) : Prop where
  kept : Kept z.1
  optedIn : z.2.OptedIn

theorem timedCall_good (h : Kept x)
    (hlawful : (Event.contacted endpoint ep x.clock retryOnFallback).Lawful)
    (hopted : endpoint = .fallback → retryOnFallback ∧ ¬ probe) :
    Good (timedCall settings x endpoint ep probe retryOnFallback : Shared × Stage α) := by
  refine ⟨h.contact hlawful, ?_⟩
  unfold timedCall
  cases endpoint with
  | primary => split_ifs <;> trivial
  | fallback =>
    split_ifs
    · exact hopted rfl
    · exact hopted rfl

theorem failOver_good (h : Kept x) :
    Good (failOver settings x retryOnFallback message : Shared × Stage α) := by
  unfold failOver
  split_ifs with hmay
  · exact timedCall_good h hmay.2 (fun _ => ⟨hmay.2, by simp⟩)
  · exact ⟨h, trivial⟩

/-- Pruning, and the step from open to half-open. -/
theorem isAvailable_keeps (h : Kept x) :
    Kept (x.update .primary
      (((x.endpoints .primary).pruneOldFailures x.clock).isAvailable x.clock).2) := by
  have hrecent : ∀ later, x.clock ≤ later →
      ((x.endpoints .primary).pruneOldFailures x.clock).recentFailures later =
        (x.endpoints .primary).recentFailures later := fun later => recentFailures_prune
  unfold EndpointState.isAvailable
  split
  · exact h.update h.dated hrecent
  · split_ifs
    · exact h.update nofun hrecent
    · exact h.update h.dated hrecent
  · exact h.update h.dated hrecent

/-- A call that is let through finds the circuit rested, if it is open. -/
theorem isAvailable_rested (h : (ep.isAvailable now).1) (hopened : ep.state = .opened) :
    ep.Rested now := by
  unfold EndpointState.isAvailable at h
  rw [hopened] at h
  by_contra hrested
  simp [hrested] at h

theorem rpcCall_good (h : Kept x) :
    Good (rpcCall settings x retryOnFallback : Shared × Stage α) := by
  have hkept := isAvailable_keeps h
  unfold rpcCall
  dsimp only
  split_ifs with havailable
  · refine timedCall_good hkept ?_ nofun
    intro hopened
    exact rested_openedAt h.dated hopened (isAvailable_rested havailable hopened)
  · exact failOver_good hkept

theorem callFailed_good (h : Kept x) (hmay : endpoint = .primary → x.MayFail probe) :
    Good (callFailed settings x endpoint probe retryOnFallback message : Shared × Stage α) := by
  cases endpoint with
  | primary => exact failOver_good (h.recordFailure (hmay rfl))
  | fallback => exact ⟨h.recordFailure_fallback, trivial⟩

/-- The time of a network check is no concern of the circuit. -/
theorem Kept.verifiedAt (h : Kept x) (time : ℕ) :
    Kept (x.update .primary { x.endpoints .primary with networkVerifiedAt := time }) := by
  apply h.update
  · exact h.dated
  · intro later _
    rfl

theorem Shared.MayFail.verifiedAt (h : x.MayFail probe) (time : ℕ) :
    (x.update .primary { x.endpoints .primary with networkVerifiedAt := time }).MayFail probe := by
  simp only [Shared.MayFail, Shared.update, Function.update_self]
  exact h

theorem networkAnswered_good {passphrase : String} (h : Kept x)
    (hopted : endpoint = .fallback → retryOnFallback ∧ ¬ probe)
    (hallowed : endpoint = .primary → if settings.passphrase = some passphrase then
      (x.endpoints .primary).state = .opened → (x.endpoints .primary).Rested x.clock
      else x.MayFail probe) :
    Good (networkAnswered settings x endpoint probe retryOnFallback passphrase :
      Shared × Stage α) := by
  unfold networkAnswered
  dsimp only
  split_ifs with hmatch
  · cases endpoint with
    | primary =>
      refine ⟨(h.verifiedAt x.clock).contact ?_, trivial⟩
      intro hopened
      have hrested := hallowed rfl
      rw [if_pos hmatch] at hrested
      exact rested_openedAt h.dated hopened (hrested hopened)
    | fallback => exact ⟨h.update_fallback.contact (hopted rfl).1, hopted rfl⟩
  · cases endpoint with
    | primary =>
      refine callFailed_good (h.verifiedAt 0) ?_
      intro _
      have hmay := hallowed rfl
      rw [if_neg hmatch] at hmay
      exact hmay.verifiedAt 0
    | fallback => exact callFailed_good h.update_fallback nofun

/-- What a call keeps that goes to an endpoint. -/
theorem Stage.OptedIn.fallback (h : p.OptedIn)
    (hp : p = .verifying endpoint probe retryOnFallback ∨
      p = .calling endpoint probe retryOnFallback) (hfallback : endpoint = .fallback) :
    retryOnFallback ∧ ¬ probe := by
  subst hfallback
  rcases hp with rfl | rfl
  · exact h
  · exact h

theorem step_good (h : Kept x) (hopted : p.OptedIn) (hallowed : Allowed settings x p o)
    (hstep : step settings x p o = some (y, q)) : Kept y ∧ q.OptedIn := by
  have hgood : ∀ {z : Shared × Stage α}, Good z → some z = some (y, q) → Kept y ∧ q.OptedIn := by
    intro z hz heq
    obtain rfl := Option.some.inj heq
    exact ⟨hz.kept, hz.optedIn⟩
  cases p with
  | idle =>
    cases o <;> simp only [step, reduceCtorEq] at hstep
    exact hgood (rpcCall_good h) hstep
  | verifying endpoint probe retryOnFallback =>
    cases o with
    | rpcCall retry => simp [step] at hstep
    | returned result => simp [step] at hstep
    | network passphrase =>
      refine hgood (networkAnswered_good h (hopted.fallback (.inl rfl)) ?_) hstep
      rintro rfl
      exact hallowed
    | threw message =>
      refine hgood (callFailed_good h ?_) hstep
      rintro rfl
      exact hallowed
  | calling endpoint probe retryOnFallback =>
    cases o with
    | rpcCall retry => simp [step] at hstep
    | network passphrase => simp [step] at hstep
    | returned result =>
      refine hgood (z := (x.recordSuccess endpoint probe, .done (.ok result))) ⟨?_, ?_⟩ hstep
      · exact h.recordSuccess
      · trivial
    | threw message =>
      refine hgood (callFailed_good h ?_) hstep
      rintro rfl
      exact hallowed
  | done result => cases o <;> simp [step] at hstep

/-! ## Probes -/

theorem failOver_not_probing :
    ¬ (failOver settings x retryOnFallback message : Shared × Stage α).2.Probing := by
  unfold failOver
  split_ifs
  · unfold timedCall
    split_ifs <;> simp [Stage.Probing]
  · exact id

theorem callFailed_not_probing :
    ¬ (callFailed settings x endpoint probe retryOnFallback message :
      Shared × Stage α).2.Probing := by
  cases endpoint with
  | primary => exact failOver_not_probing
  | fallback => exact id

/-- Only a call that is let through becomes a probe. -/
theorem step_probing (hstep : step settings x p o = some (y, q)) (hprobing : q.Probing) :
    p.Probing ∨ ∃ retryOnFallback, p = .idle ∧ o = .rpcCall retryOnFallback ∧ x.Probes := by
  have hnever : ∀ {z : Shared × Stage α}, ¬ z.2.Probing → some z ≠ some (y, q) := by
    intro z hz heq
    obtain rfl := Option.some.inj heq
    exact hz hprobing
  cases p with
  | idle =>
    cases o <;> simp only [step, reduceCtorEq] at hstep
    rename_i retryOnFallback
    refine .inr ⟨retryOnFallback, rfl, rfl, ?_⟩
    unfold rpcCall at hstep
    dsimp only at hstep
    split_ifs at hstep
    · by_contra hprobes
      refine hnever ?_ hstep
      unfold timedCall
      split_ifs <;> simp [Stage.Probing, hprobes]
    · exact absurd hstep (hnever failOver_not_probing)
  | verifying endpoint probe retryOnFallback =>
    cases o <;> simp only [step, reduceCtorEq] at hstep
    · unfold networkAnswered at hstep
      dsimp only at hstep
      split_ifs at hstep
      · obtain ⟨-, rfl⟩ := Prod.mk.inj (Option.some.inj hstep)
        exact .inl hprobing
      · exact absurd hstep (hnever callFailed_not_probing)
    · exact absurd hstep (hnever callFailed_not_probing)
  | calling endpoint probe retryOnFallback =>
    cases o <;> simp only [step, reduceCtorEq] at hstep
    · exact absurd hstep (hnever id)
    · exact absurd hstep (hnever callFailed_not_probing)
  | done result => cases o <;> simp [step] at hstep

/-! ## Every run -/

/-- What every state of an undisturbed run keeps. -/
structure Sound (s : System ι Shared (Stage α)) : Prop where
  kept : Kept s.shared
  optedIn : ∀ i, (s.proc i).OptedIn
  single : ∀ i j, (s.proc i).Probing → (s.proc j).Probing → i = j

omit [DecidableEq ι] in
theorem sound_fresh (clock : ℕ) : Sound (fresh clock : System ι Shared (Stage α)) := by
  refine ⟨⟨?_, ?_, nofun⟩, fun _ => trivial, ?_⟩
  · intro e he
    simp [fresh] at he
  · intro later _
    simp [fresh, makeEndpoint, EndpointState.recentFailures]
  · intro i j hprobing
    cases hprobing

theorem sound_act {i : ι} (h : Sound s) (hok : Undisturbed settings s (.act i o))
    (hstep : step settings s.shared (s.proc i) o = some (y, q)) : Sound (s.put y i q) := by
  obtain ⟨hallowed, halone⟩ := hok
  obtain ⟨hkept, hopted⟩ := step_good h.kept (h.optedIn i) hallowed hstep
  -- if the mover probes now, no bystander does
  have hothers : q.Probing → ∀ j, j ≠ i → ¬ (s.proc j).Probing := by
    intro hprobing j hj hother
    rcases step_probing hstep hprobing with hbefore | ⟨retryOnFallback, hidle, rfl, hprobes⟩
    · exact hj (h.single j i hother hbefore)
    · rw [hidle] at halone
      exact halone hprobes j hother
  refine ⟨hkept, ?_, ?_⟩
  · exact System.put_forall (P := fun _ (p : Stage α) => p.OptedIn) hopted
      fun j _ => h.optedIn j
  · intro j k hj hk
    by_cases hji : j = i
    · by_cases hki : k = i
      · rw [hji, hki]
      · subst hji
        rw [System.put_self] at hj
        rw [System.put_other hki] at hk
        exact absurd hk (hothers hj k hki)
    · rw [System.put_other hji] at hj
      by_cases hki : k = i
      · subst hki
        rw [System.put_self] at hk
        exact absurd hj (hothers hk j hji)
      · rw [System.put_other hki] at hk
        exact h.single j k hj hk

theorem kept_around {change : Change} (h : Kept x) (hchange : around x change = some y) :
    Kept y := by
  cases change with
  | elapse milliseconds =>
    obtain rfl := Option.some.inj hchange
    refine ⟨h.lawful, ?_, h.dated⟩
    intro later hlater
    exact h.counts later ((Nat.le_add_right x.clock milliseconds).trans hlater)
  | prune endpoint =>
    obtain rfl := Option.some.inj hchange
    cases endpoint with
    | primary => exact h.update h.dated fun later => recentFailures_prune
    | fallback => exact h.update_fallback

/-- The law of the circuit holds in every run in which no failure and no answer of the network finds
    the primary's circuit in the wrong state, and no probe starts while another one is in flight. -/
theorem circuit_lawful_when_undisturbed {clock : ℕ}
    (h : Reaches (rules ι α settings) (Undisturbed settings) (fresh clock) s) : Orderly s := by
  have hsound : Sound s := by
    apply Reaches.invariant h (sound_fresh clock)
    · intro t i o x p hok ht hstep
      exact sound_act ht hok hstep
    · intro t change x _ ht hchange
      exact ⟨kept_around ht.kept hchange, ht.optedIn, ht.single⟩
  exact ⟨hsound.kept.lawful, hsound.single⟩

namespace Sample

def environment : Settings := ⟨some "net", "primary", some "fallback", fun _ => rfl⟩

inductive Caller where
  | reader
  | first
  | second
  | probe
  | late
deriving DecidableEq

instance : Fintype Caller where
  elems := {.reader, .first, .second, .probe, .late}
  complete := by
    intro caller
    cases caller <;> simp

def start : System Caller Shared (Stage ℕ) := fresh 1000000

/-- A call that fails on the primary, whose network is verified. -/
def failing (i : Caller) : List (Move Caller (Outcome ℕ) Change) :=
  [.act i (.rpcCall false), .act i (.threw "timeout")]

/-- Three calls fail, the first of them after its network check; it opted in to the fallback. -/
def outage : List (Move Caller (Outcome ℕ) Change) :=
  [.act .reader (.rpcCall true), .act .reader (.network "net"), .act .reader (.threw "timeout"),
    .act .reader (.network "net"), .act .reader (.returned 7)] ++ failing .first ++ failing .second

/-- A call is refused, and a probe succeeds after the interval. -/
def recovered : List (Move Caller (Outcome ℕ) Change) :=
  outage ++ [.act .late (.rpcCall false), .world (.elapse 30000), .act .probe (.rpcCall false),
    .act .probe (.returned 7)]

theorem recovered_orderly :
    Orderly (recovered.foldl (rules Caller ℕ environment).after start) :=
  circuit_lawful_when_undisturbed (.of_admits (by decide +kernel))

/-- Two calls are let through after the interval. -/
def probedTwice : List (Move Caller (Outcome ℕ) Change) :=
  outage ++ [.world (.elapse 30000), .act .late (.rpcCall false), .act .probe (.rpcCall false)]

/-- The probe fails, and the next call reaches the primary at once. -/
def probeFailed : List (Move Caller (Outcome ℕ) Change) :=
  outage ++ [.world (.elapse 30000)] ++ failing .late ++ [.act .probe (.rpcCall false)]

theorem two_probes_and_no_reopening :
    (∀ i ∈ [Caller.late, .probe],
        ((probedTwice.foldl (rules Caller ℕ environment).after start).proc i).Probing) ∧
      ((probeFailed.foldl (rules Caller ℕ environment).after start).shared.endpoints
        .primary).state = .halfOpen ∧
      ((probeFailed.foldl (rules Caller ℕ environment).after start).proc .probe).Probing ∧
      ¬ Orderly (probedTwice.foldl (rules Caller ℕ environment).after start) := by
  have htwo : ∀ i ∈ [Caller.late, .probe],
      ((probedTwice.foldl (rules Caller ℕ environment).after start).proc i).Probing := by
    decide +kernel
  refine ⟨htwo, by decide +kernel, by decide +kernel, ?_⟩
  intro h
  have hsame : Caller.late = .probe :=
    h.single .late .probe (htwo _ (by simp)) (htwo _ (by simp))
  cases hsame

end Sample

end NeuroWealth.RpcClient
