import NeuroWealth.Agent.AccountSequence

/-!
# The account sequence lock keeps its promises

The calls made on one account split into those that are done and a chain of pending ones, in call
order. Only the first pending call can be past its wait.
-/

namespace NeuroWealth.AccountSequence

open Interleaving

variable {ι A ε τ : Type} {account : ι → A} {s t : System ι (Shared ι A ε τ) (Stage ι ε τ)}
  {i j : ι} {a : A}

/-! ## The chain of an account -/

/-- The calls of account `a`: `past` ones are done; each of the `pending` ones waits for the one
    before it, and the last of them is the account's tail. -/
structure Lined (s : System ι (Shared ι A ε τ) (Stage ι ε τ)) (a : A) (past pending : List ι) :
    Prop where
  calls : s.shared.calls a = past ++ pending
  nodup : (past ++ pending).Nodup
  past_done : ∀ i ∈ past, (s.proc i).Done
  pending_open : ∀ i ∈ pending, (s.proc i).InProgress
  head_free : ∀ i ∈ pending.head?, ∀ w, s.proc i = .waiting w → s.shared.resolved w = true
  chain : pending.IsChain fun p q => s.proc q = .waiting (some p)
  tail : s.shared.accountTails a = pending.getLast?

/-- What every reachable state keeps. -/
structure Orderly (account : ι → A) (s : System ι (Shared ι A ε τ) (Stage ι ε τ)) : Prop where
  lined : ∀ a, ∃ past pending, Lined s a past pending
  called : ∀ a i, i ∈ s.shared.calls a ↔ account i = a ∧ s.proc i ≠ .idle
  released : ∀ i, s.shared.released i = true ↔ (s.proc i).Done
  settled : ∀ i r, s.proc i = .finishing r ∨ s.proc i = .done r → s.shared.settled i = some r

theorem inProgress_iff {p : Stage ι ε τ} : p.InProgress ↔ p ≠ .idle ∧ ¬ p.Done := by
  cases p <;> simp [Stage.InProgress, Stage.Done]

theorem not_done_of_inProgress {p : Stage ι ε τ} (h : p.InProgress) : ¬ p.Done :=
  (inProgress_iff.mp h).2

/-- A call of a pending chain that is not its first waits for an earlier one of the chain. -/
theorem waits_for_earlier {before after : List ι}
    (h : (before ++ i :: after).IsChain fun p q => s.proc q = .waiting (some p))
    (hne : before ≠ []) : ∃ p ∈ before, s.proc i = .waiting (some p) := by
  obtain ⟨front, p, rfl⟩ : ∃ front p, before = front ++ [p] :=
    ⟨_, _, (List.dropLast_append_getLast hne).symm⟩
  refine ⟨p, by simp, ?_⟩
  rw [List.append_assoc, List.isChain_append] at h
  have hrest := h.2.1
  simp only [List.cons_append, List.nil_append, List.isChain_cons_cons] at hrest
  exact hrest.1

/-- A pending call that is not waiting for an unresolved promise is the first of its chain. -/
theorem Lined.first {past pending : List ι} (hl : Lined s a past pending)
    (ho : Orderly account s) (hi : i ∈ pending)
    (hfree : ∀ w, s.proc i = .waiting w → s.shared.resolved w = true) :
    ∃ rest, pending = i :: rest := by
  obtain ⟨before, after, rfl⟩ := List.append_of_mem hi
  by_cases hne : before = []
  · exact ⟨after, by rw [hne, List.nil_append]⟩
  · obtain ⟨p, hp, hwait⟩ := waits_for_earlier hl.chain hne
    have hopen := hl.pending_open p (by simp [hp])
    have hreleased : s.shared.released p = true := hfree _ hwait
    exact absurd ((ho.released p).mp hreleased) (not_done_of_inProgress hopen)

/-- A call in progress is pending on its account. -/
theorem Orderly.pending (ho : Orderly account s) (hi : (s.proc i).InProgress) :
    ∃ past pending, Lined s (account i) past pending ∧ i ∈ pending := by
  obtain ⟨past, pending, hl⟩ := ho.lined (account i)
  have hcalled : i ∈ s.shared.calls (account i) :=
    (ho.called _ i).mpr ⟨rfl, (inProgress_iff.mp hi).1⟩
  rw [hl.calls] at hcalled
  rcases List.mem_append.mp hcalled with h | h
  · exact absurd (hl.past_done i h) (not_done_of_inProgress hi)
  · exact ⟨past, pending, hl, h⟩

/-- The call that moves on from its wait or its operation is the first of its account's chain. -/
theorem Orderly.mover_first (ho : Orderly account s) (hi : (s.proc i).InProgress)
    (hfree : ∀ w, s.proc i = .waiting w → s.shared.resolved w = true) :
    ∃ past rest, Lined s (account i) past (i :: rest) := by
  obtain ⟨past, pending, hl, hmem⟩ := ho.pending hi
  obtain ⟨rest, rfl⟩ := hl.first ho hmem hfree
  exact ⟨past, rest, hl⟩

/-! ## Preservation -/

theorem orderly_fresh : Orderly account (fresh : System ι (Shared ι A ε τ) (Stage ι ε τ)) where
  lined a := ⟨[], [], rfl, List.nodup_nil, nofun, nofun, nofun, .nil, rfl⟩
  called a i := by simp [fresh]
  released i := by simp [fresh, Stage.Done]
  settled i r h := by simp [fresh] at h

/-- An account's line only depends on the calls in it, its tail and the promises they wait for. -/
theorem Lined.frame {past pending : List ι} (hl : Lined s a past pending)
    (hcalls : t.shared.calls a = s.shared.calls a)
    (htail : t.shared.accountTails a = s.shared.accountTails a)
    (hreleased : ∀ w, s.shared.resolved w = true → t.shared.resolved w = true)
    (hproc : ∀ j ∈ s.shared.calls a, t.proc j = s.proc j) : Lined t a past pending := by
  have hpast : ∀ j ∈ past, t.proc j = s.proc j := by
    intro j hj
    exact hproc j (by rw [hl.calls]; exact List.mem_append_left _ hj)
  have hpending : ∀ j ∈ pending, t.proc j = s.proc j := by
    intro j hj
    exact hproc j (by rw [hl.calls]; exact List.mem_append_right _ hj)
  refine ⟨hcalls.trans hl.calls, hl.nodup, ?_, ?_, ?_, ?_, htail.trans hl.tail⟩
  · intro j hj
    rw [hpast j hj]
    exact hl.past_done j hj
  · intro j hj
    rw [hpending j hj]
    exact hl.pending_open j hj
  · intro j hj w hw
    rw [hpending j (List.mem_of_head? hj)] at hw
    exact hreleased w (hl.head_free j hj w hw)
  · apply hl.chain.imp_of_mem_imp
    intro p q _ hq hpq
    rw [hpending q hq]
    exact hpq

/-- The first call of a chain is in no other place of its account's line. -/
theorem Lined.first_apart {past rest : List ι} (hl : Lined s a past (i :: rest)) :
    (∀ j ∈ past, j ≠ i) ∧ ∀ j ∈ rest, j ≠ i := by
  have hnodup := List.nodup_append.mp hl.nodup
  refine ⟨?_, ?_⟩
  · intro j hj
    exact hnodup.2.2 j hj i List.mem_cons_self
  · rintro j hj rfl
    exact (List.nodup_cons.mp hnodup.2.1).1 hj

section Steps

variable [DecidableEq ι]

/-- A step of call `i` leaves the lines of the other accounts as they were. -/
theorem Orderly.other_line (ho : Orderly account s) {x : Shared ι A ε τ} {p : Stage ι ε τ}
    (ha : a ≠ account i) (hcalls : x.calls a = s.shared.calls a)
    (htail : x.accountTails a = s.shared.accountTails a)
    (hreleased : ∀ w, s.shared.resolved w = true → x.resolved w = true) :
    ∃ past pending, Lined (s.put x i p) a past pending := by
  obtain ⟨past, pending, hl⟩ := ho.lined a
  refine ⟨past, pending, hl.frame hcalls htail hreleased ?_⟩
  intro j hj
  apply System.put_other
  rintro rfl
  exact ha ((ho.called a j).mp hj).1.symm

/-- The first call of a chain moves on and stays in progress. -/
theorem orderly_advance (ho : Orderly account s) (hi : (s.proc i).InProgress)
    (hfree : ∀ w, s.proc i = .waiting w → s.shared.resolved w = true)
    {p : Stage ι ε τ} {settled : ι → Option (Except ε τ)} (hp : p.InProgress)
    (hwait : ∀ w, p ≠ .waiting w) (hsettled : ∀ r, p = .finishing r → settled i = some r)
    (hkept : ∀ j, j ≠ i → settled j = s.shared.settled j) :
    Orderly account (s.put { s.shared with settled := settled } i p) := by
  refine ⟨?_, ?_, ?_, ?_⟩
  · intro a
    by_cases ha : a = account i
    · subst ha
      obtain ⟨past, rest, hl⟩ := ho.mover_first hi hfree
      obtain ⟨hpast, hrest⟩ := hl.first_apart
      refine ⟨past, i :: rest, hl.calls, hl.nodup, ?_, ?_, ?_, ?_, hl.tail⟩
      · intro j hj
        rw [System.put_other (hpast j hj)]
        exact hl.past_done j hj
      · intro j hj
        rcases List.mem_cons.mp hj with rfl | hj
        · rw [System.put_self]
          exact hp
        · rw [System.put_other (hrest j hj)]
          exact hl.pending_open j (List.mem_cons_of_mem _ hj)
      · intro j hj w hw
        obtain rfl : i = j := by simpa using hj
        rw [System.put_self] at hw
        exact absurd hw (hwait w)
      · apply hl.chain.imp_of_mem_tail_imp
        intro q k _ hk hqk
        rw [System.put_other (hrest k hk)]
        exact hqk
    · exact ho.other_line ha rfl rfl fun w hw => hw
  · intro a j
    by_cases hj : j = i
    · subst hj
      rw [System.put_self, System.put_shared]
      have hcalled := ho.called a j
      have hidle := (inProgress_iff.mp hi).1
      have hidle' := (inProgress_iff.mp hp).1
      simp only [hidle, ne_eq, not_false_eq_true, and_true] at hcalled
      simp only [hidle', ne_eq, not_false_eq_true, and_true]
      exact hcalled
    · rw [System.put_other hj]
      exact ho.called a j
  · intro j
    by_cases hj : j = i
    · subst hj
      rw [System.put_self, System.put_shared]
      have hdone := not_done_of_inProgress hi
      have hdone' := not_done_of_inProgress hp
      have hreleased := ho.released j
      simp only [hdone, iff_false] at hreleased
      simp only [hdone', iff_false]
      exact hreleased
    · rw [System.put_other hj]
      exact ho.released j
  · intro j r h
    by_cases hj : j = i
    · subst hj
      rw [System.put_self] at h
      rcases h with h | h
      · exact hsettled r h
      · exact absurd ⟨r, h⟩ (not_done_of_inProgress hp)
    · rw [System.put_other hj] at h
      exact (hkept j hj).trans (ho.settled j r h)

variable [DecidableEq A]

/-- The first call of a chain returns: the next one becomes the first. -/
theorem orderly_leave (ho : Orderly account s) {r : Except ε τ} (hi : s.proc i = .finishing r) :
    Orderly account (s.put (s.shared.leave (account i) i) i (.done r)) := by
  have hopen : (s.proc i).InProgress := by
    rw [hi]
    trivial
  have hresolved : ∀ w, s.shared.resolved w = true →
      (s.shared.leave (account i) i).resolved w = true := by
    intro w hw
    cases w with
    | none => rfl
    | some k =>
      by_cases hk : k = i
      · simp [Shared.resolved, Shared.leave, hk]
      · simpa [Shared.resolved, Shared.leave, hk] using hw
  refine ⟨?_, ?_, ?_, ?_⟩
  · intro a
    by_cases ha : a = account i
    · subst ha
      obtain ⟨past, rest, hl⟩ := ho.mover_first hopen (by
        intro w hw
        rw [hi] at hw
        cases hw)
      obtain ⟨hpast, hrest⟩ := hl.first_apart
      refine ⟨past ++ [i], rest, ?_, ?_, ?_, ?_, ?_, ?_, ?_⟩
      · have := hl.calls
        simpa [Shared.leave] using this
      · have := hl.nodup
        simpa using this
      · intro j hj
        rcases List.mem_append.mp hj with hj | hj
        · rw [System.put_other (hpast j hj)]
          exact hl.past_done j hj
        · rw [List.mem_singleton.mp hj, System.put_self]
          exact ⟨r, rfl⟩
      · intro j hj
        rw [System.put_other (hrest j hj)]
        exact hl.pending_open j (List.mem_cons_of_mem _ hj)
      · intro j hj w hw
        rw [System.put_other (hrest j (List.mem_of_head? hj))] at hw
        cases rest with
        | nil => cases hj
        | cons k rest =>
          obtain rfl : k = j := by simpa using hj
          have hfirst := (List.isChain_cons_cons.mp hl.chain).1
          rw [hfirst] at hw
          obtain rfl : some i = w := Stage.waiting.inj hw
          simp [Shared.resolved, Shared.leave]
      · apply hl.chain.tail.imp_of_mem_imp
        intro q k _ hk hqk
        rw [System.put_other (hrest k hk)]
        exact hqk
      · -- the tail is forgotten exactly when nobody queued behind this call
        have htail := hl.tail
        cases rest with
        | nil => simp [Shared.leave, htail]
        | cons k rest =>
          have hlast : ∃ l, (k :: rest).getLast? = some l ∧ l ∈ k :: rest :=
            ⟨_, List.getLast?_eq_some_getLast (by simp), List.getLast_mem _⟩
          obtain ⟨l, hl1, hl2⟩ := hlast
          have hne := hrest l hl2
          rw [List.getLast?_cons_cons, hl1] at htail
          simp [Shared.leave, htail, hne, hl1]
    · apply ho.other_line (x := s.shared.leave (account i) i) ha rfl ?_ hresolved
      by_cases htail : s.shared.accountTails (account i) = some i
      · simp [Shared.leave, htail, Function.update_of_ne ha]
      · simp [Shared.leave, htail]
  · intro a j
    by_cases hj : j = i
    · subst hj
      have hcalled := ho.called a j
      rw [hi] at hcalled
      simpa [Shared.leave] using hcalled
    · rw [System.put_other hj]
      exact ho.called a j
  · intro j
    by_cases hj : j = i
    · subst hj
      simp [Shared.leave, Stage.Done]
    · rw [System.put_other hj]
      have hreleased := ho.released j
      simpa [Shared.leave, Function.update_of_ne hj] using hreleased
  · intro j r' h
    by_cases hj : j = i
    · subst hj
      rw [System.put_self] at h
      obtain rfl : r = r' := by simpa using h
      exact ho.settled j r (.inl hi)
    · rw [System.put_other hj] at h
      exact ho.settled j r' h

/-- The call joins the end of its account's chain. -/
theorem orderly_enter (ho : Orderly account s) (hi : s.proc i = .idle) :
    Orderly account (s.put (s.shared.enter (account i) i) i
      (.waiting (s.shared.accountTails (account i)))) := by
  have hnew : ∀ a, i ∉ s.shared.calls a := fun a h => ((ho.called a i).mp h).2 hi
  refine ⟨?_, ?_, ?_, ?_⟩
  · intro a
    by_cases ha : a = account i
    · subst ha
      obtain ⟨past, pending, hl⟩ := ho.lined (account i)
      have hother : ∀ j ∈ past ++ pending, j ≠ i := by
        rintro j hj rfl
        exact hnew _ (by rw [hl.calls]; exact hj)
      refine ⟨past, pending ++ [i], ?_, ?_, ?_, ?_, ?_, ?_, ?_⟩
      · simp [Shared.enter, hl.calls]
      · rw [← List.append_assoc]
        exact hl.nodup.append (List.nodup_singleton i) (by
          intro j hj hji
          exact hother j hj (List.mem_singleton.mp hji))
      · intro j hj
        rw [System.put_other (hother j (List.mem_append_left _ hj))]
        exact hl.past_done j hj
      · intro j hj
        rcases List.mem_append.mp hj with hj | hj
        · rw [System.put_other (hother j (List.mem_append_right _ hj))]
          exact hl.pending_open j hj
        · rw [List.mem_singleton.mp hj, System.put_self]
          trivial
      · intro j hj w hw
        cases pending with
        | nil =>
          obtain rfl : i = j := by simpa using hj
          rw [System.put_self, hl.tail] at hw
          obtain rfl : none = w := by simpa using hw
          rfl
        | cons k rest =>
          obtain rfl : k = j := by simpa using hj
          rw [System.put_other (hother k (by simp))] at hw
          exact hl.head_free k (by simp) w hw
      · rw [List.isChain_append]
        refine ⟨?_, .singleton _, ?_⟩
        · apply hl.chain.imp_of_mem_imp
          intro p q _ hq hpq
          rw [System.put_other (hother q (List.mem_append_right _ hq))]
          exact hpq
        · intro q hq j hj
          obtain rfl : i = j := by simpa using hj
          rw [System.put_self, hl.tail, hq]
      · simp [Shared.enter]
    · apply ho.other_line ha
      · simp [Shared.enter, Function.update_of_ne ha]
      · simp [Shared.enter, Function.update_of_ne ha]
      · exact fun w hw => hw
  · intro a j
    by_cases hj : j = i
    · subst hj
      by_cases ha : a = account j
      · subst ha
        simp [Shared.enter]
      · have := hnew a
        simp [Shared.enter, Function.update_of_ne ha, this, Ne.symm ha]
    · rw [System.put_other hj, ← ho.called a j]
      by_cases ha : a = account i
      · subst ha
        simp [Shared.enter, hj]
      · simp [Shared.enter, Function.update_of_ne ha]
  · intro j
    by_cases hj : j = i
    · subst hj
      have := ho.released j
      rw [hi] at this
      simpa [Shared.enter, Stage.Done] using this
    · rw [System.put_other hj]
      exact ho.released j
  · intro j r h
    by_cases hj : j = i
    · subst hj
      simp at h
    · rw [System.put_other hj] at h
      exact ho.settled j r h

/-- One stretch of a call keeps the accounts in order. -/
theorem orderly_step (ho : Orderly account s) {settles : Except ε τ} {x : Shared ι A ε τ}
    {p : Stage ι ε τ}
    (h : withAccountSequenceLock account i s.shared (s.proc i) settles = some (x, p)) :
    Orderly account (s.put x i p) := by
  cases hi : s.proc i with
  | idle =>
    rw [hi] at h
    obtain ⟨rfl, rfl⟩ : _ = x ∧ _ = p := by simpa [withAccountSequenceLock] using h
    exact orderly_enter ho hi
  | waiting preceding =>
    rw [hi] at h
    obtain ⟨hfree, rfl, rfl⟩ : s.shared.resolved preceding = true ∧ s.shared = x ∧ _ = p := by
      simpa [withAccountSequenceLock] using h
    show Orderly account (s.put { s.shared with settled := s.shared.settled } i .running)
    apply orderly_advance ho
    all_goals simp [hi, Stage.InProgress, hfree]
  | running =>
    rw [hi] at h
    obtain ⟨rfl, rfl⟩ : _ = x ∧ _ = p := by simpa [withAccountSequenceLock] using h
    apply orderly_advance ho
    all_goals simp +contextual [hi, Stage.InProgress]
  | finishing result =>
    rw [hi] at h
    obtain ⟨rfl, rfl⟩ : _ = x ∧ _ = p := by simpa [withAccountSequenceLock] using h
    exact orderly_leave ho hi
  | done result =>
    rw [hi] at h
    simp [withAccountSequenceLock] at h

/-- The accounts are in order after any calls, scheduled in any way. -/
theorem orderly_of_reaches (h : Reaches (rules account) (fun _ _ => True) fresh s) :
    Orderly account s := by
  apply h.invariant orderly_fresh
  · intro t i settles x p _ ht hstep
    exact orderly_step ht hstep
  · intro t change
    exact nomatch change

end Steps

/-! ## Order, progress and results -/

/-- The calls of an account before one that has passed its wait are done. -/
theorem Orderly.earlier_done (ho : Orderly account s) {earlier later : List ι}
    (hcalls : s.shared.calls a = earlier ++ i :: later)
    (hfree : ∀ w, s.proc i = .waiting w → s.shared.resolved w = true) :
    ∀ j ∈ earlier, (s.proc j).Done := by
  obtain ⟨rfl, hcalled⟩ := (ho.called a i).mp (by simp [hcalls])
  by_cases hdone : (s.proc i).Done
  · obtain ⟨past, pending, hl⟩ := ho.lined (account i)
    have hsplit := hl.calls.symm.trans hcalls
    rcases List.append_eq_append_iff.mp hsplit with ⟨front, rfl, hfront⟩ | ⟨front, rfl, hfront⟩
    · have hmem : i ∈ pending := by
        rw [hfront]
        simp
      exact absurd hdone (not_done_of_inProgress (hl.pending_open i hmem))
    · intro j hj
      exact hl.past_done j (List.mem_append_left _ hj)
  · obtain ⟨past, rest, hl⟩ := ho.mover_first (inProgress_iff.mpr ⟨hcalled, hdone⟩) hfree
    have hsplit := hl.calls.symm.trans hcalls
    obtain ⟨hpast, hrest⟩ := hl.first_apart
    have hparts := (List.append_cons_inj_of_notMem (fun hi => hpast i hi rfl)
      (fun hi => hrest i hi rfl)).mp hsplit
    rw [← hparts.1]
    exact hl.past_done

/-- A call whose account's earlier calls are all done waits for nobody. -/
theorem Orderly.free_of_earlier_done (ho : Orderly account s) {earlier later : List ι}
    (hcalls : s.shared.calls a = earlier ++ i :: later) (hdone : ∀ j ∈ earlier, (s.proc j).Done)
    {w : Option ι} (hwait : s.proc i = .waiting w) : s.shared.resolved w = true := by
  have hopen : (s.proc i).InProgress := by
    rw [hwait]
    trivial
  obtain ⟨rfl, -⟩ := (ho.called a i).mp (by simp [hcalls])
  obtain ⟨past, pending, hl, hmem⟩ := ho.pending hopen
  obtain ⟨before, after, rfl⟩ := List.append_of_mem hmem
  have hsplit := hl.calls.symm.trans hcalls
  have hnodup := hl.nodup
  rw [← List.append_assoc] at hsplit hnodup
  have happart := List.nodup_append.mp hnodup
  have hparts := (List.append_cons_inj_of_notMem
    (fun hi => happart.2.2 i hi i List.mem_cons_self rfl)
    (List.nodup_cons.mp happart.2.1).1).mp hsplit
  by_cases hne : before = []
  · subst hne
    exact hl.head_free i rfl w hwait
  · obtain ⟨p, hp, hwait'⟩ := waits_for_earlier hl.chain hne
    have hpdone : (s.proc p).Done := hdone p (by
      rw [← hparts.1]
      exact List.mem_append_right _ hp)
    rw [hwait] at hwait'
    obtain rfl : w = some p := Stage.waiting.inj hwait'
    exact (ho.released p).mpr hpdone

/-- Two calls of one account that are past their wait and not done are the same call. -/
theorem Orderly.exclusive (ho : Orderly account s) (hsame : account i = account j)
    (hi : (s.proc i).InProgress) (hfree : ∀ w, s.proc i = .waiting w → s.shared.resolved w = true)
    (hj : (s.proc j).InProgress)
    (hfree' : ∀ w, s.proc j = .waiting w → s.shared.resolved w = true) : i = j := by
  obtain ⟨past, rest, hl⟩ := ho.mover_first hi hfree
  obtain ⟨past', rest', hl'⟩ := ho.mover_first hj hfree'
  rw [← hsame] at hl'
  have hsplit := hl.calls.symm.trans hl'.calls
  by_contra hne
  have hmem : i ∈ past' ∨ i ∈ rest' := by
    have : i ∈ past' ++ j :: rest' := by
      rw [← hsplit]
      simp
    simpa [hne] using this
  rcases hmem with h | h
  · exact not_done_of_inProgress hi (hl'.past_done i h)
  · obtain ⟨before, after, rfl⟩ := List.append_of_mem h
    have hlater : s.shared.calls (account i) = (past' ++ j :: before) ++ i :: after := by
      rw [hl'.calls]
      simp
    exact not_done_of_inProgress hj (ho.earlier_done hlater hfree j (by simp))

/-- The operations on one account never overlap and run in call order; the earliest call that is
    not done always has a step to take, whatever the earlier ones ended with; a call returns what
    its operation settled with; a tail belongs to a call in progress. -/
theorem account_sequence_lock [DecidableEq ι] [DecidableEq A]
    (h : Reaches (rules account) (fun _ _ => True) fresh s) :
    (∀ a i, i ∈ s.shared.calls a ↔ account i = a ∧ s.proc i ≠ .idle) ∧
    (∀ i j, account i = account j → s.proc i = .running → s.proc j = .running → i = j) ∧
    (∀ a earlier i later, s.shared.calls a = earlier ++ i :: later → (s.proc i).Started →
      ∀ j ∈ earlier, (s.proc j).Done) ∧
    (∀ a earlier i later, s.shared.calls a = earlier ++ i :: later → ¬ (s.proc i).Done →
      (∀ j ∈ earlier, (s.proc j).Done) →
      ∀ settles, (withAccountSequenceLock account i s.shared (s.proc i) settles).isSome) ∧
    (∀ i r, s.proc i = .done r → s.shared.settled i = some r) ∧
    (∀ a i, s.shared.accountTails a = some i → account i = a ∧ (s.proc i).InProgress) := by
  have ho := orderly_of_reaches h
  refine ⟨ho.called, ?_, ?_, ?_, ?_, ?_⟩
  · intro i j hsame hi hj
    apply ho.exclusive hsame
    all_goals simp [hi, hj, Stage.InProgress]
  · intro a earlier i later hcalls hstarted
    apply ho.earlier_done hcalls
    intro w hw
    rw [hw] at hstarted
    exact hstarted.elim
  · intro a earlier i later hcalls hopen hearlier settles
    cases hi : s.proc i with
    | waiting w =>
      have hfree := ho.free_of_earlier_done hcalls hearlier hi
      simp [withAccountSequenceLock, hfree]
    | done r => exact absurd ⟨r, hi⟩ hopen
    | idle => rfl
    | running => rfl
    | finishing r => rfl
  · intro i r hi
    exact ho.settled i r (.inr hi)
  · intro a i htail
    obtain ⟨past, pending, hl⟩ := ho.lined a
    rw [hl.tail] at htail
    have hmem := List.mem_of_getLast? htail
    refine ⟨((ho.called a i).mp ?_).1, hl.pending_open i hmem⟩
    rw [hl.calls]
    exact List.mem_append_right _ hmem

namespace Sample

/-- Three calls on one account and one on another: the first rejects, the second then runs. -/
def crowd : System ℕ (Shared ℕ String String ℕ) (Stage ℕ String ℕ) :=
  [.act 0 (.ok 0), .act 1 (.ok 0), .act 0 (.ok 0), .act 2 (.ok 0), .act 7 (.ok 0), .act 7 (.ok 0),
    .act 0 (.error "tx_failed"), .act 0 (.ok 0), .act 1 (.ok 0)].foldl
    (rules fun i => if i < 3 then "hot" else "cold").after fresh

theorem crowd_in_order : crowd.proc 1 = .running ∧ (crowd.proc 0).Done := by
  refine ⟨rfl, ?_⟩
  have h := account_sequence_lock (s := crowd) (.of_steps _)
  exact h.2.2.1 "hot" [0] 1 [2] (by decide) trivial 0 (by decide)

end Sample

end NeuroWealth.AccountSequence
