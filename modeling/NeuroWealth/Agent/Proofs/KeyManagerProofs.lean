import NeuroWealth.Agent.KeyManager

/-!
# A working key is found

The choice of a key takes the first available one from the index on. A call therefore meets a
working key before its attempts end: in any interleaving if the other keys are marked unhealthy when
they fail, and for any errors if no other call interferes.
-/

namespace NeuroWealth.KeyManager

open Interleaving RoundRobin

variable {m m' t : OpenAIKeyManager} {x y : Shared} {k j g now start left : ℕ} {e : OpError}
  {errors : List (ℕ × String)} {works : ℕ → Bool}

/-! ## Health of a key -/

namespace KeyState

variable {s : KeyState}

theorem recovered_cases (now : ℕ) (s : KeyState) : s.recovered now = s ∨
    s.recovered now = { s with isHealthy := true } ∧ s.isHealthy = false ∧
      ∃ last ∈ s.lastFailedAt, last ≠ 0 ∧ last + defaultCooldownMs ≤ now := by
  unfold recovered
  split_ifs with h
  · exact .inr ⟨rfl, h⟩
  · exact .inl rfl

theorem available_iff : s.available now = true ↔ s.isHealthy = true ∨
    ∃ last ∈ s.lastFailedAt, last ≠ 0 ∧ last + defaultCooldownMs ≤ now := by
  unfold available recovered
  by_cases hhealthy : s.isHealthy = true
  · simp [hhealthy]
  · simp only [Bool.not_eq_true] at hhealthy
    split_ifs with h
    · exact ⟨fun _ => .inr h.2, fun _ => rfl⟩
    · constructor
      · intro hs
        rw [hhealthy] at hs
        exact absurd hs (by decide)
      · rintro (hs | hs)
        · exact hs
        · exact absurd ⟨hhealthy, hs⟩ h

theorem available_mono {later : ℕ} (h : s.available now = true) (hle : now ≤ later) :
    s.available later = true := by
  rw [available_iff] at h ⊢
  rcases h with h | ⟨last, hlast, hne, hcool⟩
  · exact .inl h
  · exact .inr ⟨last, hlast, hne, hcool.trans hle⟩

/-- The auto-recovery changes nothing about who is available. -/
theorem available_recovered : (s.recovered now).available now = s.available now := by
  rcases recovered_cases now s with h | ⟨h, -, hcool⟩
  · rw [h]
  · have hs : s.available now = true := available_iff.mpr (.inr hcool)
    rw [hs, h]
    exact available_iff.mpr (.inl rfl)

theorem recovered_recovered : (s.recovered now).recovered now = s.recovered now := by
  rcases recovered_cases now (s.recovered now) with h | ⟨-, hno, hcool⟩
  · exact h
  · have hyes : (s.recovered now).isHealthy = true := by
      show s.available now = true
      rw [← available_recovered]
      exact available_iff.mpr (.inr hcool)
    rw [hno] at hyes
    exact absurd hyes (by decide)

theorem available_succeeded : s.succeeded.available now = true := available_iff.mpr (.inl rfl)

/-- Marked unhealthy at `start` or later. -/
def Cooling (start : ℕ) (s : KeyState) : Prop :=
  s.isHealthy = false ∧ ∃ last ∈ s.lastFailedAt, start ≤ last

theorem Cooling.not_available (h : s.Cooling start) (hnow : now < start + defaultCooldownMs) :
    s.available now ≠ true := by
  obtain ⟨hunhealthy, last, hlast, hle⟩ := h
  rw [Ne, available_iff, hunhealthy]
  rintro (hs | ⟨last', hlast', -, hcool⟩)
  · exact absurd hs (by decide)
  · have hsame : last' = last := Option.mem_unique hlast' hlast
    omega

theorem Cooling.recovered (h : s.Cooling start) (hnow : now < start + defaultCooldownMs) :
    (s.recovered now).Cooling start := by
  rcases recovered_cases now s with heq | ⟨-, -, hcool⟩
  · rwa [heq]
  · exact absurd (available_iff.mpr (.inr hcool)) (h.not_available hnow)

theorem cooling_failed (he : e.marksUnhealthy) (hle : start ≤ now) :
    (s.failed now e).Cooling start :=
  ⟨if_pos he, now, rfl, hle⟩

end KeyState

/-! ## The choice of a key -/

namespace OpenAIKeyManager

def free (m : OpenAIKeyManager) (now k : ℕ) : Bool := (m.keyState k).available now

@[simp]
theorem modify_keys {f : KeyState → KeyState} : (m.modify k f).keys = m.keys := rfl

@[simp]
theorem modify_currentIndex {f : KeyState → KeyState} :
    (m.modify k f).currentIndex = m.currentIndex := rfl

@[simp]
theorem modify_self {f : KeyState → KeyState} :
    (m.modify k f).keyState k = f (m.keyState k) := Function.update_self ..

@[simp]
theorem modify_other {f : KeyState → KeyState} (h : j ≠ k) :
    (m.modify k f).keyState j = m.keyState j := Function.update_of_ne h ..

/-- States are kept, or recovered from a cooldown that is over. -/
structure Recovered (now : ℕ) (m m' : OpenAIKeyManager) : Prop where
  keys : m'.keys = m.keys
  states : ∀ k, m'.keyState k = m.keyState k ∨ m'.keyState k = (m.keyState k).recovered now

theorem Recovered.free (h : Recovered now m m') : m'.free now = m.free now := by
  funext k
  unfold OpenAIKeyManager.free
  rcases h.states k with hk | hk
  · rw [hk]
  · rw [hk, KeyState.available_recovered]

theorem recovered_modify : Recovered now m (m.modify k (KeyState.recovered now)) := by
  refine ⟨rfl, fun j => ?_⟩
  by_cases hj : j = k
  · rw [hj]
    exact .inr modify_self
  · exact .inl (modify_other hj)

theorem Recovered.trans (h1 : Recovered now m t) (h2 : Recovered now t m') :
    Recovered now m m' := by
  refine ⟨h2.keys.trans h1.keys, fun k => ?_⟩
  rcases h2.states k with hk | hk
  · rw [hk]
    exact h1.states k
  · rcases h1.states k with hk' | hk'
    · rw [hk, hk']
      exact .inr rfl
    · rw [hk, hk', KeyState.recovered_recovered]
      exact .inr rfl

/-- One attempt of the loop. -/
theorem search_cons {attempt : ℕ} {rest : List ℕ} : search now (attempt :: rest) m =
    if m.free now (m.keyAt attempt) = true then
      (some (m.keyAt attempt),
        (m.modify (m.keyAt attempt) (KeyState.recovered now)).advance (m.keyAt attempt))
    else search now rest (m.modify (m.keyAt attempt) (KeyState.recovered now)) := by
  have hhealthy : ((m.modify (m.keyAt attempt) (KeyState.recovered now)).keyState
      (m.keyAt attempt)).isHealthy = m.free now (m.keyAt attempt) := by
    rw [modify_self]
    rfl
  rw [← hhealthy]
  rfl

/-- What the loop over some attempts finds and leaves. -/
theorem search_spec (now : ℕ) (attempts : List ℕ) (m : OpenAIKeyManager) :
    (search now attempts m).1 = (attempts.map m.keyAt).find? (m.free now) ∧
      Recovered now m (search now attempts m).2 ∧
      ∀ k, (search now attempts m).1 = some k →
        (search now attempts m).2.currentIndex = slot m.keys.length k 1 := by
  induction attempts generalizing m with
  | nil => exact ⟨rfl, ⟨rfl, fun _ => .inl rfl⟩, nofun⟩
  | cons attempt rest ih =>
    have hrec : Recovered now m (m.modify (m.keyAt attempt) (KeyState.recovered now)) :=
      recovered_modify
    rw [search_cons, List.map_cons]
    by_cases hfree : m.free now (m.keyAt attempt) = true
    · rw [if_pos hfree, List.find?_cons_of_pos hfree]
      refine ⟨rfl, ⟨rfl, hrec.states⟩, ?_⟩
      rintro k ⟨⟩
      rfl
    · rw [if_neg hfree, List.find?_cons_of_neg hfree]
      obtain ⟨hfound, hleft, hindex⟩ := ih (m.modify (m.keyAt attempt) (KeyState.recovered now))
      refine ⟨?_, hrec.trans hleft, hindex⟩
      rw [hfound, hrec.free]
      rfl

theorem recovered_getNext : Recovered now m (m.getNextAvailableKeyIndex now).2 := by
  obtain ⟨-, hleft, -⟩ := search_spec now (List.range m.keys.length) m
  unfold getNextAvailableKeyIndex
  split_ifs with hkeys
  · exact ⟨rfl, fun _ => .inl rfl⟩
  · rcases hsearch : search now (List.range m.keys.length) m with ⟨_ | k, m'⟩
    · rwa [hsearch] at hleft
    · rwa [hsearch] at hleft

/-- An available key was chosen: the first one from the index on. -/
structure Chosen (now : ℕ) (m m' : OpenAIKeyManager) (k : ℕ) : Prop where
  recovered : Recovered now m m'
  picked : pick (m.free now) m.keys.length m.currentIndex = some k
  index : m'.currentIndex = slot m.keys.length k 1

theorem index_lt (hg : g < m.keys.length) : m.currentIndex < m.keys.length := by
  rcases m.inRange with hnone | hlt
  · rw [hnone] at hg
    exact absurd hg (Nat.not_lt_zero _)
  · exact hlt

/-- As long as a key is available, an available key is chosen. -/
theorem chosen_of_free (hg : g < m.keys.length) (hfree : m.free now g = true) :
    ∃ k m', m.getNextAvailableKeyIndex now = (some k, m') ∧ Chosen now m m' k := by
  have hkeys : m.keys ≠ [] := List.ne_nil_of_length_pos (Nat.zero_lt_of_lt hg)
  obtain ⟨hfound, hleft, hindex⟩ := search_spec now (List.range m.keys.length) m
  have hpick : (search now (List.range m.keys.length) m).1 =
      pick (m.free now) m.keys.length m.currentIndex := hfound
  unfold getNextAvailableKeyIndex
  rw [if_neg hkeys]
  rcases hsearch : search now (List.range m.keys.length) m with ⟨_ | k, m'⟩
  · rw [hsearch] at hpick
    exact absurd hpick.symm (pick_ne_none (index_lt hg) hg hfree)
  · rw [hsearch] at hpick hleft hindex
    exact ⟨k, m', rfl, hleft, hpick.symm, hindex k rfl⟩

end OpenAIKeyManager

open OpenAIKeyManager

variable {ι α : Type} [DecidableEq ι] {i : ι} {s s' : System ι Shared (Stage α)} {q : Stage α}

/-- With a key available and attempts left, another operation starts. -/
theorem nextAttempt_of_free (errors : List (ℕ × String)) (left : ℕ)
    (hg : g < x.manager.keys.length) (hfree : x.manager.free x.clock g = true) :
    ∃ k m', Chosen x.clock x.manager m' k ∧
      nextAttempt (α := α) x errors (left + 1) = (⟨x.clock, m'⟩, .calling left errors k) := by
  obtain ⟨k, m', hnext, hchosen⟩ := chosen_of_free hg hfree
  refine ⟨k, m', hchosen, ?_⟩
  unfold nextAttempt
  rw [hnext]

/-! ## The keys a call takes -/

/-- The outcomes after which a call looks for a key. -/
def Stage.searches : Stage α → Outcome α → Bool
  | .idle, .start => true
  | .calling _ _ _, .throws _ => true
  | _, _ => false

def Stage.key? : Stage α → Option ℕ
  | .calling _ _ k => some k
  | _ => none

/-- The key that call `i` takes with a move. -/
def taken (i : ι) : System ι Shared (Stage α) × Move ι (Outcome α) Change → Option ℕ
  | (s, .act j outcome) =>
    if j = i ∧ (s.proc i).searches outcome = true then
      (((rules ι α).after s (.act i outcome)).proc i).key?
    else none
  | (_, .world _) => none

theorem taken_other {j : ι} {outcome : Outcome α} (h : j ≠ i) :
    taken i (s, .act j outcome) = none :=
  if_neg fun hboth => h hboth.1

theorem taken_step {outcome : Outcome α}
    (hstep : step s.shared (s.proc i) outcome = some (y, q)) :
    taken i (s, .act i outcome) = if (s.proc i).searches outcome = true then q.key? else none := by
  have hafter : (rules ι α).after s (.act i outcome) = s.put y i q := after_act hstep
  simp only [taken, true_and, hafter, System.put_self]

/-- A call only looks for a key in a step. -/
theorem searches_stuck {p : Stage α} {outcome : Outcome α} (hstep : step x p outcome = none) :
    p.searches outcome = false := by
  cases p with
  | idle =>
    cases outcome with
    | start => cases hstep
    | returns value => rfl
    | throws e => rfl
  | calling left errors k =>
    cases outcome with
    | start => rfl
    | returns value => rfl
    | throws e => cases hstep
  | done result => rfl

theorem taken_stuck {j : ι} {outcome : Outcome α}
    (hstep : step s.shared (s.proc j) outcome = none) : taken i (s, .act j outcome) = none := by
  refine if_neg ?_
  rintro ⟨rfl, hsearches⟩
  rw [searches_stuck hstep] at hsearches
  cases hsearches

/-! ## Any interleaving -/

/-- An operation with a key that works returns; with another key it fails, and marks it. -/
def Fits (works : ℕ → Bool) : Stage α → Outcome α → Prop
  | .calling _ _ k, .returns _ => works k = true
  | .calling _ _ k, .throws e => works k = false ∧ e.marksUnhealthy
  | _, _ => True

/-- All operations fit, and the clock stays before a deadline. -/
def Consistent (works : ℕ → Bool) (deadline : ℕ) (s : System ι Shared (Stage α)) :
    Move ι (Outcome α) Change → Prop
  | .act i outcome => Fits works (s.proc i) outcome
  | .world (.elapse milliseconds) => s.shared.clock + milliseconds < deadline

/-- What the steps of all calls leave intact: working keys stay available, marked keys marked. -/
structure Turned (works : ℕ → Bool) (start now : ℕ) (m m' : OpenAIKeyManager) : Prop where
  keys : m'.keys = m.keys
  available : ∀ k, works k = true → m.free now k = true → m'.free now k = true
  cooling : ∀ k, works k = false → (m.keyState k).Cooling start → (m'.keyState k).Cooling start

theorem Turned.refl : Turned works start now m m := ⟨rfl, fun _ _ h => h, fun _ _ h => h⟩

theorem Turned.trans (h1 : Turned works start now m t) (h2 : Turned works start now t m') :
    Turned works start now m m' :=
  ⟨h2.keys.trans h1.keys, fun k hk h => h2.available k hk (h1.available k hk h),
    fun k hk h => h2.cooling k hk (h1.cooling k hk h)⟩

theorem OpenAIKeyManager.Recovered.turned (h : Recovered now m m')
    (hnow : now < start + defaultCooldownMs) : Turned works start now m m' := by
  refine ⟨h.keys, fun k _ hfree => by rwa [h.free], fun k _ hcooling => ?_⟩
  rcases h.states k with hk | hk
  · rwa [hk]
  · rw [hk]
    exact hcooling.recovered hnow

theorem turned_succeeded (hk : works k = true) :
    Turned works start now m (m.modify k KeyState.succeeded) := by
  refine ⟨rfl, fun j _ hfree => ?_, fun j hj hcooling => ?_⟩
  · by_cases h : j = k
    · unfold free
      rw [h, modify_self]
      exact KeyState.available_succeeded
    · unfold free
      rwa [modify_other h]
  · have h : j ≠ k := by
      rintro rfl
      rw [hk] at hj
      exact absurd hj (by decide)
    rwa [modify_other h]

theorem turned_failed (hk : works k = false) (he : e.marksUnhealthy) (hle : start ≤ now) :
    Turned works start now m (m.modify k (KeyState.failed now e)) := by
  refine ⟨rfl, fun j hj hfree => ?_, fun j _ hcooling => ?_⟩
  · have h : j ≠ k := by
      rintro rfl
      rw [hk] at hj
      exact absurd hj (by decide)
    unfold free
    rwa [modify_other h]
  · by_cases h : j = k
    · rw [h, modify_self]
      exact KeyState.cooling_failed he hle
    · rwa [modify_other h]

/-- A call has tried some keys, the last of them `k`: each of them once, and those before do not
    work. -/
structure Tried (works : ℕ → Bool) (tried : List ℕ) (k : ℕ) : Prop where
  distinct : tried.Nodup
  last : tried.getLast? = some k
  failing : ∀ j ∈ tried.dropLast, works j = false

/-- A call that has been made tries the last key, or is done with the answer of that one. -/
def Stage.Meets (works : ℕ → Bool) (tried : List ℕ) : Stage α → Prop
  | .idle => False
  | .calling _ _ k => Tried works tried k
  | .done result => ∃ k value, Tried works tried k ∧ works k = true ∧ result = .ok value

/-- The keys a call has tried are marked, and with the attempts that are left they are all keys. -/
def Stage.OnTrack (works : ℕ → Bool) (start : ℕ) (m : OpenAIKeyManager) (tried : List ℕ) :
    Stage α → Prop
  | .idle => tried = []
  | .calling left errors k => tried = errors.map Prod.fst ++ [k] ∧ k < m.keys.length ∧
      k ∉ errors.map Prod.fst ∧
      (errors.map Prod.fst).Nodup ∧ left + errors.length + 1 = m.keys.length ∧
      ∀ j ∈ errors.map Prod.fst, j < m.keys.length ∧ works j = false ∧
        (m.keyState j).Cooling start
  | .done result => ∃ k value, Tried works tried k ∧ works k = true ∧ result = .ok value

theorem tried_concat {failed : List ℕ} (hnodup : failed.Nodup) (hnew : k ∉ failed)
    (hfailed : ∀ j ∈ failed, works j = false) : Tried works (failed ++ [k]) k := by
  refine ⟨?_, List.getLast?_concat, ?_⟩
  · exact hnodup.append (List.nodup_singleton k) (List.disjoint_singleton.mpr hnew)
  · rwa [List.dropLast_concat]

theorem Stage.OnTrack.tried {left : ℕ} {tried : List ℕ}
    (h : (Stage.calling left errors k : Stage α).OnTrack works start m tried) :
    Tried works tried k := by
  obtain ⟨rfl, -, hnew, hnodup, -, hmarked⟩ := h
  exact tried_concat hnodup hnew fun j hj => (hmarked j hj).2.1

theorem Stage.OnTrack.meets {tried : List ℕ} (h : q.OnTrack works start m tried)
    (hmade : tried ≠ []) : q.Meets works tried := by
  cases q with
  | idle => exact absurd h hmade
  | calling left errors k => exact h.tried
  | done result => exact h

theorem Stage.OnTrack.turned {tried : List ℕ} (h : q.OnTrack works start m tried)
    (ht : Turned works start now m m') : q.OnTrack works start m' tried := by
  cases q with
  | idle => exact h
  | done result => exact h
  | calling left errors k =>
    obtain ⟨htried, hk, hnew, hnodup, hsize, hmarked⟩ := h
    refine ⟨htried, ht.keys ▸ hk, hnew, hnodup, ht.keys ▸ hsize, fun j hj => ?_⟩
    obtain ⟨hlt, hfails, hcooling⟩ := hmarked j hj
    exact ⟨ht.keys ▸ hlt, hfails, ht.cooling j hfails hcooling⟩

/-- Marked keys are no longer all keys while one works. -/
theorem attempts_left (hg : g < m.keys.length) (hworks : works g = true)
    (hnodup : (errors.map Prod.fst).Nodup)
    (hmarked : ∀ j ∈ errors.map Prod.fst, j < m.keys.length ∧ works j = false) :
    errors.length < m.keys.length := by
  have hnot : g ∉ errors.map Prod.fst := by
    intro hmem
    rw [(hmarked g hmem).2] at hworks
    exact absurd hworks (by decide)
  have hsub : g :: errors.map Prod.fst ⊆ List.range m.keys.length := by
    intro j hj
    rcases List.mem_cons.mp hj with rfl | hj
    · exact List.mem_range.mpr hg
    · exact List.mem_range.mpr (hmarked j hj).1
  have hle := (List.nodup_cons.mpr ⟨hnot, hnodup⟩).subperm hsub |>.length_le
  simpa using hle

/-- The next attempt of a call on track takes a key it has not tried. -/
theorem onTrack_nextAttempt (hg : g < x.manager.keys.length) (hworks : works g = true)
    (hfree : x.manager.free x.clock g = true) (hnow : x.clock < start + defaultCooldownMs)
    (hnodup : (errors.map Prod.fst).Nodup)
    (hsize : left + errors.length = x.manager.keys.length)
    (hmarked : ∀ j ∈ errors.map Prod.fst, j < x.manager.keys.length ∧ works j = false ∧
      (x.manager.keyState j).Cooling start)
    (hstep : nextAttempt x errors left = (y, q)) :
    ∃ k, q.key? = some k ∧ q.OnTrack works start y.manager (errors.map Prod.fst ++ [k]) := by
  have hfew := attempts_left hg hworks hnodup fun j hj => ⟨(hmarked j hj).1, (hmarked j hj).2.1⟩
  obtain ⟨left, rfl⟩ : ∃ l, left = l + 1 := ⟨left - 1, by omega⟩
  obtain ⟨k, m', hchosen, hnext⟩ := nextAttempt_of_free (α := α) errors left hg hfree
  rw [hnext] at hstep
  obtain ⟨rfl, rfl⟩ := Prod.mk.inj hstep
  have hturned : Turned works start x.clock x.manager m' := hchosen.recovered.turned hnow
  obtain ⟨hk, havailable⟩ := pick_some hchosen.picked
  refine ⟨k, rfl, rfl, hturned.keys ▸ hk, fun hmem => ?_, hnodup, ?_, fun j hj => ?_⟩
  · exact (hmarked k hmem).2.2.not_available hnow havailable
  · rw [hturned.keys]
    omega
  · obtain ⟨hlt, hfails, hcooling⟩ := hmarked j hj
    exact ⟨hturned.keys ▸ hlt, hfails, hturned.cooling j hfails hcooling⟩

theorem turned_nextAttempt (hnow : x.clock < start + defaultCooldownMs)
    (hstep : nextAttempt x errors left = (y, q)) :
    y.clock = x.clock ∧ Turned works start x.clock x.manager y.manager := by
  have hturned : Turned works start x.clock x.manager
      (x.manager.getNextAvailableKeyIndex x.clock).2 := recovered_getNext.turned hnow
  cases left with
  | zero =>
    obtain ⟨rfl, -⟩ := Prod.mk.inj hstep
    exact ⟨rfl, .refl⟩
  | succ left =>
    unfold nextAttempt at hstep
    rcases hnext : x.manager.getNextAvailableKeyIndex x.clock with ⟨_ | k, m'⟩
    all_goals
      rw [hnext] at hstep hturned
      obtain ⟨rfl, -⟩ := Prod.mk.inj hstep
      exact ⟨rfl, hturned⟩

/-- A step of any call. -/
theorem turned_step {p : Stage α} {outcome : Outcome α} (hfits : Fits works p outcome)
    (hstart : start ≤ x.clock) (hnow : x.clock < start + defaultCooldownMs)
    (hstep : step x p outcome = some (y, q)) :
    y.clock = x.clock ∧ Turned works start x.clock x.manager y.manager := by
  cases p with
  | done result => cases hstep
  | idle =>
    cases outcome with
    | start =>
      have hstep : executeWithRotation x = (y, q) := Option.some.inj hstep
      unfold executeWithRotation at hstep
      split_ifs at hstep with hkeys
      · obtain ⟨rfl, -⟩ := Prod.mk.inj hstep
        exact ⟨rfl, .refl⟩
      · exact turned_nextAttempt hnow hstep
    | returns value => cases hstep
    | throws e => cases hstep
  | calling left errors k =>
    cases outcome with
    | start => cases hstep
    | returns value =>
      obtain ⟨rfl, -⟩ := Prod.mk.inj (Option.some.inj hstep)
      exact ⟨rfl, turned_succeeded hfits⟩
    | throws e =>
      have hmarked : Turned works start x.clock x.manager
          (x.manager.modify k (KeyState.failed x.clock e)) :=
        turned_failed hfits.1 hfits.2 hstart
      obtain ⟨hclock, hturned⟩ : y.clock = x.clock ∧ Turned works start x.clock
          (x.manager.modify k (KeyState.failed x.clock e)) y.manager :=
        turned_nextAttempt
          (x := { x with manager := x.manager.modify k (KeyState.failed x.clock e) })
          hnow (Option.some.inj hstep)
      exact ⟨hclock, hmarked.trans hturned⟩

theorem onTrack_start (hg : g < x.manager.keys.length) (hworks : works g = true)
    (hfree : x.manager.free x.clock g = true) (hnow : x.clock < start + defaultCooldownMs)
    (hstep : executeWithRotation x = (y, q)) :
    ∃ k, q.key? = some k ∧ q.OnTrack works start y.manager [k] := by
  have hkeys : x.manager.keys ≠ [] := List.ne_nil_of_length_pos (Nat.zero_lt_of_lt hg)
  unfold executeWithRotation at hstep
  rw [if_neg hkeys] at hstep
  have hnone : (([] : List (ℕ × String)).map Prod.fst).Nodup := List.nodup_nil
  refine onTrack_nextAttempt hg hworks hfree hnow hnone ?_ ?_ hstep
  · exact Nat.add_zero _
  · exact fun _ hj => absurd hj List.not_mem_nil

/-- A step of the call that is followed. -/
theorem onTrack_step {p : Stage α} {outcome : Outcome α} {tried : List ℕ}
    (hg : g < x.manager.keys.length)
    (hworks : works g = true) (hfree : x.manager.free x.clock g = true)
    (hfits : Fits works p outcome) (hstart : start ≤ x.clock)
    (hnow : x.clock < start + defaultCooldownMs) (hp : p.OnTrack works start x.manager tried)
    (hstep : step x p outcome = some (y, q)) : q.OnTrack works start y.manager
      (tried ++ (if p.searches outcome = true then q.key? else none).toList) := by
  cases p with
  | done result => cases hstep
  | idle =>
    cases outcome with
    | start =>
      obtain ⟨k, hk, htrack⟩ := onTrack_start hg hworks hfree hnow (Option.some.inj hstep)
      obtain rfl : tried = [] := hp
      show q.OnTrack works start y.manager q.key?.toList
      rw [hk]
      exact htrack
    | returns value => cases hstep
    | throws e => cases hstep
  | calling left errors k =>
    cases outcome with
    | start => cases hstep
    | returns value =>
      obtain ⟨-, rfl⟩ := Prod.mk.inj (Option.some.inj hstep)
      show Stage.OnTrack works start _ (tried ++ []) _
      rw [List.append_nil]
      exact ⟨k, value, hp.tried, hfits, rfl⟩
    | throws e =>
      obtain ⟨rfl, hk, hnew, hnodup, hsize, hmarked⟩ := hp
      have hturned : Turned works start x.clock x.manager
          (x.manager.modify k (KeyState.failed x.clock e)) :=
        turned_failed hfits.1 hfits.2 hstart
      have hkeys : (errors ++ [(k, e.message)]).map Prod.fst = errors.map Prod.fst ++ [k] :=
        List.map_append
      obtain ⟨k', hk', htrack⟩ : ∃ k', q.key? = some k' ∧ q.OnTrack works start y.manager
          ((errors ++ [(k, e.message)]).map Prod.fst ++ [k']) := by
        refine onTrack_nextAttempt (x := { x with
            manager := x.manager.modify k (KeyState.failed x.clock e) }) hg hworks
          (hturned.available g hworks hfree) hnow ?_ ?_ ?_ (Option.some.inj hstep)
        · rw [hkeys]
          exact hnodup.append (List.nodup_singleton k) (List.disjoint_singleton.mpr hnew)
        · rw [List.length_append, List.length_singleton]
          show left + (errors.length + 1) = x.manager.keys.length
          omega
        · intro j hj
          rw [hkeys, List.mem_append, List.mem_singleton] at hj
          rcases hj with hj | hj
          · obtain ⟨hlt, hfails, hcooling⟩ := hmarked j hj
            exact ⟨hlt, hfails, hturned.cooling j hfails hcooling⟩
          · rw [hj]
            refine ⟨hk, hfits.1, ?_⟩
            show (OpenAIKeyManager.keyState _ k).Cooling start
            rw [modify_self]
            exact KeyState.cooling_failed hfits.2 hstart
      show q.OnTrack works start y.manager (errors.map Prod.fst ++ [k] ++ q.key?.toList)
      rw [hk', ← hkeys]
      exact htrack

/-- What a run keeps while the clock stays before the end of the cooldown. -/
structure Followed (works : ℕ → Bool) (start g : ℕ) (i : ι) (tried : List ℕ)
    (s : System ι Shared (Stage α)) : Prop where
  started : start ≤ s.shared.clock
  before : s.shared.clock < start + defaultCooldownMs
  exists_key : g < s.shared.manager.keys.length
  free : s.shared.manager.free s.shared.clock g = true
  onTrack : (s.proc i).OnTrack works start s.shared.manager tried

theorem Followed.step {tried : List ℕ} {j : ι} {outcome : Outcome α}
    (h : Followed works start g i tried s) (hworks : works g = true)
    (hfits : Fits works (s.proc j) outcome) (hstep : step s.shared (s.proc j) outcome = some (y, q)) :
    Followed works start g i (tried ++ (taken i (s, .act j outcome)).toList) (s.put y j q) := by
  obtain ⟨hclock, hturned⟩ := turned_step hfits h.started h.before hstep
  refine ⟨hclock ▸ h.started, hclock ▸ h.before, hturned.keys ▸ h.exists_key, ?_, ?_⟩
  · show y.manager.free y.clock g = true
    rw [hclock]
    exact hturned.available g hworks h.free
  · by_cases hj : i = j
    · subst hj
      rw [System.put_self, taken_step hstep]
      exact onTrack_step h.exists_key hworks h.free hfits h.started h.before h.onTrack hstep
    · rw [System.put_other hj, taken_other (Ne.symm hj), Option.toList_none, List.append_nil]
      exact h.onTrack.turned hturned

/-- In any interleaving of calls that takes less than the cooldown from when a call is made, with
    keys that either work or fail so that they are marked: while some key works and was available
    at first, the call tries pairwise distinct keys, of which only the last one may work, and ends
    with the answer of a key that works. -/
theorem rotation_reaches_working_key {moves : List (Move ι (Outcome α) Change)}
    (hi : s.proc i = .idle) (hg : g < s.shared.manager.keys.length) (hworks : works g = true)
    (hfree : s.shared.manager.free s.shared.clock g = true)
    (h : Runs.Admits (rules ι α).after
      (Consistent works (s.shared.clock + defaultCooldownMs)) s (.act i .start :: moves)) :
    ((moves.foldl (rules ι α).after ((rules ι α).after s (.act i .start))).proc i).Meets works
      ((Runs.history (rules ι α).after s (.act i .start :: moves)).filterMap (taken i)) := by
  have hnow : s.shared.clock < s.shared.clock + defaultCooldownMs := by
    unfold defaultCooldownMs
    omega
  have hfirst : Followed works s.shared.clock g i [] s := by
    refine ⟨le_rfl, hnow, hg, hfree, ?_⟩
    rw [hi]
    rfl
  have hlast := history_invariant
    (P := fun past t => Followed works s.shared.clock g i (past.filterMap (taken i)) t) h hfirst
    ?_ ?_ ?_
  · refine hlast.onTrack.meets ?_
    have hstep : step s.shared (s.proc i) .start = some (executeWithRotation s.shared) := by
      rw [hi]
      rfl
    obtain ⟨k, hk, -⟩ := onTrack_start (α := α) hg hworks hfree hnow rfl
    have htaken : taken i (s, .act i .start) = some k := by
      rw [taken_step hstep, hi]
      exact hk
    rw [Runs.history, List.filterMap_cons_some htaken]
    exact List.cons_ne_nil _ _
  · intro past t j outcome y q hfits ht hstep
    have hkept := ht.step hworks hfits hstep
    rw [List.filterMap_append]
    cases htaken : taken i (t, .act j outcome) with
    | none => simpa [htaken] using hkept
    | some k => simpa [htaken] using hkept
  · intro past t j outcome ht hstep
    rw [List.filterMap_append, List.filterMap_cons_none (taken_stuck hstep), List.filterMap_nil,
      List.append_nil]
    exact ht
  · rintro past t ⟨milliseconds⟩ hdeadline ht
    rw [List.filterMap_append, List.filterMap_cons_none rfl, List.filterMap_nil, List.append_nil]
    exact ⟨ht.started.trans (Nat.le_add_right _ _), hdeadline, ht.exists_key,
      KeyState.available_mono ht.free (Nat.le_add_right _ _), ht.onTrack⟩

namespace Sample

/-- Two keys and two calls that have not begun. -/
def idle : System Bool Shared (Stage ℕ) :=
  ⟨⟨5000, .ofKeys ["sk-first", "sk-second"]⟩, fun _ => .idle⟩

def rateLimited : OpError := ⟨some 429, "Too Many Requests"⟩

/-- Both calls begin. The first key is rate limited, and its call goes on with the second one. -/
def overlapping : List (Move Bool (Outcome ℕ) Change) :=
  [.act true .start, .world (.elapse 1000), .act false (.throws rateLimited),
    .act false (.returns 7)]

def worksSecond (k : ℕ) : Bool := k == 1

theorem overlapping_reaches_second :
    ((overlapping.foldl (rules Bool ℕ).after
      ((rules Bool ℕ).after idle (.act false .start))).proc false).Meets worksSecond
        ((Runs.history (rules Bool ℕ).after idle (.act false .start :: overlapping)).filterMap
          (taken false)) := by
  have hkey : 1 < idle.shared.manager.keys.length := by decide
  refine rotation_reaches_working_key (s := idle) rfl hkey (rfl : worksSecond 1 = true) rfl ?_
  refine ⟨trivial, trivial, ?_, ⟨rfl, ?_⟩, rfl, trivial⟩
  · show 5000 + 1000 < 5000 + defaultCooldownMs
    decide
  · exact .inr (.inl rfl)

end Sample

/-! ## One call alone -/

/-- Only one call moves, and one key never fails it. -/
def Alone (i : ι) (g : ℕ) (s : System ι Shared (Stage α)) : Move ι (Outcome α) Change → Prop
  | .act j outcome => j = i ∧
      ∀ left errors k e, s.proc i = .calling left errors k → outcome = .throws e → k ≠ g
  | .world _ => True

/-- How many keys the search meets before a key. -/
def OpenAIKeyManager.gap (m : OpenAIKeyManager) (g : ℕ) : ℕ :=
  distance m.keys.length m.currentIndex g

/-- Whenever call `i` looks for a key, it takes `g` or the index comes strictly closer to `g`. -/
def Closing (g : ℕ) (i : ι) (past : List (System ι Shared (Stage α) × Move ι (Outcome α) Change)) :
    Prop :=
  ∀ t outcome, (t, .act i outcome) ∈ past → (t.proc i).searches outcome = true →
    ∃ k, taken i (t, .act i outcome) = some k ∧
      (k = g ∨ ((rules ι α).after t (.act i outcome)).shared.manager.gap g <
        t.shared.manager.gap g)

/-- The call is at the key, or meets it before its attempts end. -/
def Stage.Approaches (g : ℕ) (m : OpenAIKeyManager) : Stage α → Prop
  | .idle => True
  | .calling left _ k => k = g ∨ m.gap g < left
  | .done result => ∃ value, result = .ok value

/-- What the steps of the call preserve. -/
structure Approaching (g : ℕ) (x : Shared) (p : Stage α) : Prop where
  exists_key : g < x.manager.keys.length
  free : x.manager.free x.clock g = true
  approaches : p.Approaches g x.manager

/-- A key that is met before the attempts end is tried next, or is closer by one attempt. -/
theorem approaching_nextAttempt (hg : g < x.manager.keys.length)
    (hfree : x.manager.free x.clock g = true) (hnear : x.manager.gap g < left)
    (hstep : nextAttempt x errors left = (y, q)) : Approaching g y q ∧
      ∃ k, q.key? = some k ∧ (k = g ∨ y.manager.gap g < x.manager.gap g) := by
  obtain ⟨left, rfl⟩ : ∃ l, left = l + 1 := ⟨left - 1, by omega⟩
  obtain ⟨k, m', hchosen, hnext⟩ := nextAttempt_of_free (α := α) errors left hg hfree
  rw [hnext] at hstep
  obtain ⟨rfl, rfl⟩ := Prod.mk.inj hstep
  have hcloser : k = g ∨ m'.gap g < x.manager.gap g := by
    by_cases hk : k = g
    · exact .inl hk
    · right
      unfold gap
      rw [hchosen.recovered.keys, hchosen.index]
      exact distance_succ_lt (index_lt hg) hg hfree hchosen.picked hk
  refine ⟨⟨hchosen.recovered.keys ▸ hg, hchosen.recovered.free ▸ hfree, ?_⟩, k, rfl, hcloser⟩
  exact hcloser.imp id fun hlt => lt_of_lt_of_le hlt (Nat.le_of_lt_succ hnear)

/-- A step of the call, which takes the key or comes closer to it whenever it looks for one. -/
theorem approaching_step {p : Stage α} {outcome : Outcome α} (hp : Approaching g x p)
    (hnever : ∀ left errors k e, p = .calling left errors k → outcome = .throws e → k ≠ g)
    (hstep : step x p outcome = some (y, q)) : Approaching g y q ∧
      (p.searches outcome = true →
        ∃ k, q.key? = some k ∧ (k = g ∨ y.manager.gap g < x.manager.gap g)) := by
  obtain ⟨hg, hfree, hnear⟩ := hp
  cases p with
  | done result => cases hstep
  | idle =>
    cases outcome with
    | start =>
      have hstep : executeWithRotation x = (y, q) := Option.some.inj hstep
      have hkeys : x.manager.keys ≠ [] := List.ne_nil_of_length_pos (Nat.zero_lt_of_lt hg)
      unfold executeWithRotation at hstep
      rw [if_neg hkeys] at hstep
      obtain ⟨hnext, hcloser⟩ :=
        approaching_nextAttempt hg hfree (distance_lt (index_lt hg) hg) hstep
      exact ⟨hnext, fun _ => hcloser⟩
    | returns value => cases hstep
    | throws e => cases hstep
  | calling left errors k =>
    cases outcome with
    | start => cases hstep
    | returns value =>
      obtain ⟨rfl, rfl⟩ := Prod.mk.inj (Option.some.inj hstep)
      refine ⟨⟨hg, ?_, value, rfl⟩, nofun⟩
      by_cases hk : g = k
      · show (OpenAIKeyManager.keyState _ g).available x.clock = true
        rw [hk, modify_self]
        exact KeyState.available_succeeded
      · show (OpenAIKeyManager.keyState _ g).available x.clock = true
        rwa [modify_other hk]
    | throws e =>
      have hk : k ≠ g := hnever left errors k e rfl rfl
      have hnext := approaching_nextAttempt (x := { x with
        manager := x.manager.modify k (KeyState.failed x.clock e) }) hg ?_ ?_
        (Option.some.inj hstep)
      · exact ⟨hnext.1, fun _ => hnext.2⟩
      · show (OpenAIKeyManager.keyState _ g).available x.clock = true
        rwa [modify_other hk.symm]
      · exact hnear.resolve_left hk

theorem Closing.concat {past : List (System ι Shared (Stage α) × Move ι (Outcome α) Change)}
    {m : Move ι (Outcome α) Change} (h : Closing g i past)
    (hm : ∀ outcome, m = .act i outcome → (s.proc i).searches outcome = true →
      ∃ k, taken i (s, .act i outcome) = some k ∧
        (k = g ∨ ((rules ι α).after s (.act i outcome)).shared.manager.gap g <
          s.shared.manager.gap g)) : Closing g i (past ++ [(s, m)]) := by
  intro t outcome hmem hsearches
  rcases List.mem_append.mp hmem with hmem | hmem
  · exact h t outcome hmem hsearches
  · obtain ⟨rfl, hmove⟩ := Prod.mk.inj (List.mem_singleton.mp hmem)
    exact hm outcome hmove.symm hsearches

/-- A call that no other one interferes with, while some key works for it and was available at
    first, whatever the errors of the other keys are and however long they take: each search takes
    the key or brings the index strictly closer to it, and the call does not fail. -/
theorem rotation_alone_reaches_working_key {moves : List (Move ι (Outcome α) Change)}
    (hi : s.proc i = .idle) (hg : g < s.shared.manager.keys.length)
    (hfree : s.shared.manager.free s.shared.clock g = true)
    (h : Runs.Admits (rules ι α).after (Alone i g) s moves) :
    Closing g i (Runs.history (rules ι α).after s moves) ∧
      ∀ message, (moves.foldl (rules ι α).after s).proc i ≠ .done (.error message) := by
  have hlast := history_invariant
    (P := fun past t => Approaching g t.shared (t.proc i) ∧ Closing g i past) h ?_ ?_ ?_ ?_
  · obtain ⟨⟨-, -, hnear⟩, hclosing⟩ := hlast
    refine ⟨hclosing, fun message hdone => ?_⟩
    rw [hdone] at hnear
    obtain ⟨value, hvalue⟩ := hnear
    cases hvalue
  · refine ⟨⟨hg, hfree, ?_⟩, nofun⟩
    rw [hi]
    trivial
  · rintro past t j outcome y q ⟨rfl, hnever⟩ ⟨ht, hpast⟩ hstep
    obtain ⟨hnext, hcloser⟩ := approaching_step ht hnever hstep
    refine ⟨?_, hpast.concat fun outcome' hmove hsearches => ?_⟩
    · rw [System.put_self]
      exact hnext
    · cases hmove
      have hafter : (rules ι α).after t (.act j outcome) = t.put y j q := after_act hstep
      rw [taken_step hstep, if_pos hsearches, hafter]
      exact hcloser hsearches
  · rintro past t j outcome ⟨ht, hpast⟩ hstep
    refine ⟨ht, hpast.concat fun outcome' hmove hsearches => ?_⟩
    cases hmove
    rw [searches_stuck hstep] at hsearches
    cases hsearches
  · rintro past t ⟨milliseconds⟩ - ⟨⟨hg, hfree, hnear⟩, hpast⟩
    exact ⟨⟨hg, KeyState.available_mono hfree (Nat.le_add_right _ _), hnear⟩,
      hpast.concat nofun⟩

namespace Sample

def badRequest : OpError := ⟨some 400, "Bad Request"⟩

/-- The first key fails without being marked, long after the call was made. -/
def alone : List (Move Bool (Outcome ℕ) Change) :=
  [.act false .start, .world (.elapse 90000), .act false (.throws badRequest),
    .act false (.returns 7)]

theorem alone_reaches_second :
    Closing 1 false (Runs.history (rules Bool ℕ).after idle alone) ∧
      ∀ message, (alone.foldl (rules Bool ℕ).after idle).proc false ≠ .done (.error message) := by
  have hkey : 1 < idle.shared.manager.keys.length := by decide
  refine rotation_alone_reaches_working_key (s := idle) rfl hkey rfl ?_
  refine ⟨⟨rfl, nofun⟩, trivial, ⟨rfl, ?_⟩, ⟨rfl, nofun⟩, trivial⟩
  rintro left errors k e ⟨⟩ -
  decide

end Sample

end NeuroWealth.KeyManager
