import NeuroWealth.Agent.PhoneOtp

/-!
# Phone codes: single use, three wrong guesses, then the lockout

While a code is stored, the attempts hold at least its counted wrong submissions.
-/

namespace NeuroWealth.PhoneOtp

open Interleaving

variable {ι : Type} [DecidableEq ι] {s : System ι (Shared ι) Stage} {x y : Shared ι}
  {p q : Stage} {i j : ι} {stored : Stored} {k : ℕ}

/-! ## What a step can do -/

namespace Stage

/-- The issue a submission is about to be compared with. -/
def compares : Stage → Option ℕ
  | comparing _ stored => some stored.issue
  | _ => none

/-- The issue a wrong submission is about to be counted for. -/
def counts : Stage → Option ℕ
  | counting issue => some issue
  | _ => none

/-- The issue that is about to end in a lockout. -/
def locks : Stage → Option ℕ
  | locking issue => some issue
  | _ => none

/-- A stage with nothing to compare, count or lock. -/
structure Quiet (q : Stage) : Prop where
  compares : q.compares = none
  counts : q.counts = none
  locks : q.locks = none

end Stage

/-- Everything a step of call `i` can do to the keys and the records. -/
inductive Effect (i : ι) (x : Shared ι) (p : Stage) : Shared ι → Stage → Prop
  | cooldown (c : Option (Entry Unit)) (q : Stage) (before : p.locks = none) (after : q.Quiet) :
      Effect i x p { x with cooldown := c } q
  | store (code salt : String) (q : Stage) (from_ : p = .storing code salt) (after : q.Quiet) :
      Effect i x p (x.store code salt) q
  | fetch (inputCode : String) (stored : Stored) (from_ : p = .fetching inputCode)
      (present : x.hash = some stored) :
      Effect i x p (x.fetch i stored.issue) (.comparing inputCode stored)
  | wrong (inputCode : String) (stored : Stored) (from_ : p = .comparing inputCode stored) :
      Effect i x p (x.compare i stored.issue false) (.counting stored.issue)
  | right (inputCode : String) (stored : Stored) (q : Stage)
      (from_ : p = .comparing inputCode stored) (after : q.Quiet) :
      Effect i x p (x.compare i stored.issue true) q
  | count (issue : ℕ) (from_ : p = .counting issue) :
      Effect i x p (x.incr i issue) (afterCount issue (x.count + 1))
  | lock (issue : ℕ) (q : Stage) (from_ : p = .locking issue) (after : q.Quiet) :
      Effect i x p (x.lock issue) q
  | accept (expected stored : Stored) (q : Stage) (from_ : p = .consuming expected)
      (present : x.hash = some stored) (after : q.Quiet) : Effect i x p (x.accept stored) q
  | clear (q : Stage) (from_ : p = .clearing) (after : q.Quiet) : Effect i x p x.clear q

/-- A step that leaves the keys alone. -/
theorem Effect.none (before : p.locks = none) (after : q.Quiet) : Effect i x p x q :=
  .cooldown x.cooldown q before after

theorem consume_effect (expected : Stored) (h : consume x expected = (y, q)) :
    Effect i x (.consuming expected) y q := by
  unfold consume Shared.consumed at h
  cases hhash : x.hash with
  | none =>
    simp only [hhash, Option.filter_none, Prod.mk.injEq] at h
    obtain ⟨rfl, rfl⟩ := h
    exact .none rfl ⟨rfl, rfl, rfl⟩
  | some stored =>
    by_cases hsame : stored.sameText expected
    · simp only [hhash, Option.filter, hsame, decide_true, if_true, Prod.mk.injEq] at h
      obtain ⟨rfl, rfl⟩ := h
      exact .accept expected stored _ rfl hhash ⟨rfl, rfl, rfl⟩
    · simp only [hhash, Option.filter, hsame, decide_false, Bool.false_eq_true, if_false,
        Prod.mk.injEq] at h
      obtain ⟨rfl, rfl⟩ := h
      exact .none rfl ⟨rfl, rfl, rfl⟩

/-- Every step has one of the effects. -/
theorem step_effect {o : Outcome} (h : step i x p o = some (y, q)) : Effect i x p y q := by
  cases p with
  | idle =>
    cases o with
    | generateOTP =>
      obtain ⟨rfl, rfl⟩ : x = y ∧ .generating = q := by simpa [step] using h
      exact .none rfl ⟨rfl, rfl, rfl⟩
    | verifyOTP inputCode =>
      obtain ⟨rfl, rfl⟩ : x = y ∧ .verifying inputCode = q := by simpa [step] using h
      exact .none rfl ⟨rfl, rfl, rfl⟩
    | _ => cases h
  | generating =>
    cases o with
    | ok =>
      obtain ⟨rfl, rfl⟩ : x = y ∧ _ = q := by simpa [step] using h
      refine .none rfl ?_
      split <;> exact ⟨rfl, rfl, rfl⟩
    | _ => cases h
  | rejecting =>
    cases o with
    | ok =>
      obtain ⟨rfl, rfl⟩ : x = y ∧ _ = q := by simpa [step] using h
      exact .none rfl ⟨rfl, rfl, rfl⟩
    | _ => cases h
  | acquiring =>
    cases o with
    | ok =>
      obtain ⟨rfl, rfl⟩ : x.acquire = y ∧ _ = q := by simpa [step] using h
      have hacquire : ∃ c, x.acquire = { x with cooldown := c } := by
        unfold Shared.acquire
        split
        · exact ⟨_, rfl⟩
        · exact ⟨x.cooldown, rfl⟩
      obtain ⟨c, hc⟩ := hacquire
      rw [hc]
      apply Effect.cooldown
      · rfl
      · split <;> exact ⟨rfl, rfl, rfl⟩
    | _ => cases h
  | cooling =>
    cases o with
    | ok =>
      obtain ⟨rfl, rfl⟩ : x = y ∧ _ = q := by simpa [step] using h
      exact .none rfl ⟨rfl, rfl, rfl⟩
    | _ => cases h
  | hashing =>
    cases o with
    | draw n salt =>
      obtain ⟨rfl, rfl⟩ : x = y ∧ _ = q := by simpa [step] using h
      exact .none rfl ⟨rfl, rfl, rfl⟩
    | _ => cases h
  | storing code salt =>
    cases o with
    | ok =>
      obtain ⟨rfl, rfl⟩ : x.store code salt = y ∧ _ = q := by simpa [step] using h
      exact .store code salt _ rfl ⟨rfl, rfl, rfl⟩
    | _ => cases h
  | verifying inputCode =>
    cases o with
    | ok =>
      obtain ⟨rfl, rfl⟩ : x = y ∧ _ = q := by simpa [step] using h
      refine .none rfl ?_
      split <;> exact ⟨rfl, rfl, rfl⟩
    | _ => cases h
  | refusing =>
    cases o with
    | ok =>
      obtain ⟨rfl, rfl⟩ : x = y ∧ _ = q := by simpa [step] using h
      exact .none rfl ⟨rfl, rfl, rfl⟩
    | _ => cases h
  | fetching inputCode =>
    cases o with
    | ok =>
      have h' : fetched i x inputCode = (y, q) := by simpa [step] using h
      unfold fetched at h'
      cases hhash : x.hash with
      | none =>
        simp only [hhash, Prod.mk.injEq] at h'
        obtain ⟨rfl, rfl⟩ := h'
        exact .none rfl ⟨rfl, rfl, rfl⟩
      | some stored =>
        simp only [hhash, Prod.mk.injEq] at h'
        obtain ⟨rfl, rfl⟩ := h'
        exact .fetch inputCode stored rfl hhash
    | _ => cases h
  | comparing inputCode stored =>
    cases o with
    | ok =>
      have h' : compared i x inputCode stored = (y, q) := by simpa [step] using h
      unfold compared at h'
      by_cases hmatch : bcryptCompare inputCode stored = true
      · simp only [hmatch, if_true, Prod.mk.injEq] at h'
        obtain ⟨rfl, rfl⟩ := h'
        exact .right inputCode stored _ rfl ⟨rfl, rfl, rfl⟩
      · simp only [hmatch, Bool.false_eq_true, if_false, Prod.mk.injEq] at h'
        obtain ⟨rfl, rfl⟩ := h'
        exact .wrong inputCode stored rfl
    | _ => cases h
  | counting issue =>
    cases o with
    | ok =>
      obtain ⟨rfl, rfl⟩ : x.incr i issue = y ∧ afterCount issue (x.count + 1) = q := by
        simpa [step] using h
      exact .count issue rfl
    | _ => cases h
  | locking issue =>
    cases o with
    | ok =>
      obtain ⟨rfl, rfl⟩ : x.lock issue = y ∧ _ = q := by simpa [step] using h
      exact .lock issue _ rfl ⟨rfl, rfl, rfl⟩
    | _ => cases h
  | consuming expected =>
    cases o with
    | ok => exact consume_effect expected (by simpa [step] using h)
    | _ => cases h
  | clearing =>
    cases o with
    | ok =>
      obtain ⟨rfl, rfl⟩ : x.clear = y ∧ _ = q := by simpa [step] using h
      exact .clear _ rfl ⟨rfl, rfl, rfl⟩
    | _ => cases h
  | done result => cases o <;> cases h

/-! ## Keys and their expiry -/

omit [DecidableEq ι] in
theorem hash_eq_some : x.hash = some stored ↔
    ∃ e, x.otp = some e ∧ x.clock ≤ e.expires ∧ e.value = stored := by
  unfold Shared.hash visible
  cases x.otp with
  | none => simp
  | some e =>
    by_cases hle : x.clock ≤ e.expires
    · simp [Option.filter, hle]
    · simp [Option.filter, hle]

/-- The stored hash expires within its time to live, and before the attempts do. -/
structure Timed (x : Shared ι) : Prop where
  otp_bound : ∀ e ∈ x.otp, e.expires ≤ x.clock + OTP_TTL_S * 1000
  outlives : ∀ e ∈ x.otp, ∀ a ∈ x.attempts, e.expires ≤ a.expires

omit [DecidableEq ι] in
/-- While the hash is visible, so are the attempts. -/
theorem Timed.count_eq (h : Timed x) {e : Entry Stored} (he : x.otp = some e)
    (hle : x.clock ≤ e.expires) : x.count = (x.attempts.map Entry.value).getD 0 := by
  unfold Shared.count visible
  cases hattempts : x.attempts with
  | none => rfl
  | some a =>
    have hlive : x.clock ≤ a.expires := hle.trans (h.outlives e he a hattempts)
    simp [Option.filter, hlive]

theorem Timed.effect (h : Timed x) (he : Effect i x p y q) : Timed y := by
  cases he with
  | store code salt =>
    refine ⟨?_, ?_⟩
    · intro e he
      obtain rfl : _ = e := Option.some.inj he
      exact le_rfl
    · intro e _ a ha
      cases ha
  | count issue =>
    refine ⟨h.otp_bound, ?_⟩
    intro e he a ha
    obtain rfl : _ = a := Option.some.inj ha
    exact h.otp_bound e he
  | lock => exact ⟨nofun, nofun⟩
  | accept => exact ⟨nofun, nofun⟩
  | clear =>
    refine ⟨h.otp_bound, ?_⟩
    intro e _ a ha
    cases ha
  | _ => exact ⟨h.otp_bound, h.outlives⟩

omit [DecidableEq ι] in
theorem Timed.elapse (h : Timed x) (ms : ℕ) : Timed { x with clock := x.clock + ms } := by
  refine ⟨?_, h.outlives⟩
  intro e he
  exact (h.otp_bound e he).trans (Nat.add_le_add_right (Nat.le_add_right _ ms) _)

/-! ## Single use -/

/-- An accepted issue is not stored, and will not be again. -/
structure Once (x : Shared ι) : Prop where
  accepted_once : (x.accepted.map Stored.issue).Nodup
  accepted_issued : ∀ r ∈ x.accepted, r.issue < x.issued
  stored_issued : ∀ e ∈ x.otp, e.value.issue < x.issued
  stored_unused : ∀ e ∈ x.otp, ∀ r ∈ x.accepted, r.issue ≠ e.value.issue

theorem Once.effect (h : Once x) (he : Effect i x p y q) : Once y := by
  cases he with
  | store code salt =>
    refine ⟨h.accepted_once, ?_, ?_, ?_⟩
    · intro r hr
      exact (h.accepted_issued r hr).trans (Nat.lt_succ_self _)
    · intro e he
      obtain rfl : _ = e := Option.some.inj he
      exact Nat.lt_succ_self _
    · intro e he r hr
      obtain rfl : _ = e := Option.some.inj he
      exact (h.accepted_issued r hr).ne
  | lock => exact ⟨h.accepted_once, h.accepted_issued, nofun, nofun⟩
  | accept expected stored _ _ hhash =>
    obtain ⟨e, he, -, rfl⟩ := hash_eq_some.mp hhash
    refine ⟨?_, ?_, nofun, nofun⟩
    · show (e.value.issue :: x.accepted.map Stored.issue).Nodup
      rw [List.nodup_cons, List.mem_map]
      refine ⟨?_, h.accepted_once⟩
      rintro ⟨r, hr, heq⟩
      exact h.stored_unused e he r hr heq
    · intro r hr
      rcases List.mem_cons.mp hr with rfl | hr
      · exact h.stored_issued e he
      · exact h.accepted_issued r hr
  | _ => exact ⟨h.accepted_once, h.accepted_issued, h.stored_issued, h.stored_unused⟩

/-! ## Three wrong submissions -/

/-- Every submission of a code that is compared, or found wrong and not counted, is on record; the
    records of a code are within the maximum; and while a code is stored the attempts hold what was
    counted for it. -/
structure Tallied (s : System ι (Shared ι) Stage) : Prop where
  comparing : ∀ i, ∀ k ∈ (s.proc i).compares, i ∈ s.shared.comparing k ∧ k < s.shared.issued
  uncounted : ∀ i, ∀ k ∈ (s.proc i).counts, i ∈ s.shared.uncounted k ∧ k < s.shared.issued
  bound : ∀ k, (s.shared.counted k).length + (s.shared.uncounted k).length +
    (s.shared.comparing k).length ≤ MAX_ATTEMPTS
  counted_issued : ∀ k, s.shared.issued ≤ k → s.shared.counted k = []
  held : ∀ stored ∈ s.shared.hash, (s.shared.counted stored.issue).length ≤ s.shared.count

/-- The records stay, and the hash does, or goes. -/
theorem Tallied.keep (h : Tallied s) (hissued : y.issued = s.shared.issued)
    (hcomparing : y.comparing = s.shared.comparing) (huncounted : y.uncounted = s.shared.uncounted)
    (hcounted : y.counted = s.shared.counted)
    (hhash : y.hash = none ∨ y.hash = s.shared.hash ∧ y.count = s.shared.count) (hq : q.Quiet) :
    Tallied (s.put y i q) := by
  refine ⟨?_, ?_, ?_, ?_, ?_⟩
  · rw [System.put_shared, hcomparing, hissued]
    apply System.put_forall (P := fun j (q : Stage) => ∀ k ∈ q.compares,
      j ∈ s.shared.comparing k ∧ k < s.shared.issued)
    · rw [hq.compares]
      nofun
    · exact fun j _ => h.comparing j
  · rw [System.put_shared, huncounted, hissued]
    apply System.put_forall (P := fun j (q : Stage) => ∀ k ∈ q.counts,
      j ∈ s.shared.uncounted k ∧ k < s.shared.issued)
    · rw [hq.counts]
      nofun
    · exact fun j _ => h.uncounted j
  · rw [System.put_shared, hcomparing, huncounted, hcounted]
    exact h.bound
  · rw [System.put_shared, hcounted, hissued]
    exact h.counted_issued
  · intro stored hstored
    rw [System.put_shared] at hstored
    rw [System.put_shared, hcounted]
    rcases hhash with hnone | ⟨hsame, hcount⟩
    · rw [hnone] at hstored
      cases hstored
    · rw [hsame] at hstored
      rw [hcount]
      exact h.held stored hstored

theorem Tallied.store (h : Tallied s) (code salt : String) (hq : q.Quiet) :
    Tallied (s.put (s.shared.store code salt) i q) := by
  refine ⟨?_, ?_, h.bound, ?_, ?_⟩
  · apply System.put_forall (P := fun j (q : Stage) => ∀ k ∈ q.compares,
      j ∈ s.shared.comparing k ∧ k < s.shared.issued + 1)
    · rw [hq.compares]
      nofun
    · exact fun j _ k hk => (h.comparing j k hk).imp_right Nat.lt_succ_of_lt
  · apply System.put_forall (P := fun j (q : Stage) => ∀ k ∈ q.counts,
      j ∈ s.shared.uncounted k ∧ k < s.shared.issued + 1)
    · rw [hq.counts]
      nofun
    · exact fun j _ k hk => (h.uncounted j k hk).imp_right Nat.lt_succ_of_lt
  · intro k hk
    exact h.counted_issued k ((Nat.le_succ _).trans hk)
  · intro stored hstored
    obtain ⟨e, he, -, rfl⟩ := hash_eq_some.mp hstored
    obtain rfl : _ = e := Option.some.inj he
    have hnone : s.shared.counted s.shared.issued = [] := h.counted_issued _ le_rfl
    show (s.shared.counted s.shared.issued).length ≤ _
    rw [hnone]
    exact Nat.zero_le _

/-- A hash is fetched while there is room for one more wrong submission. -/
theorem Tallied.fetch (h : Tallied s) (inputCode : String) (hhash : s.shared.hash = some stored)
    (hissued : stored.issue < s.shared.issued)
    (hroom : s.shared.count + (s.shared.uncounted stored.issue).length +
      (s.shared.comparing stored.issue).length < MAX_ATTEMPTS) :
    Tallied (s.put (s.shared.fetch i stored.issue) i (.comparing inputCode stored)) := by
  have hmem : ∀ j k, j ∈ s.shared.comparing k →
      j ∈ (s.shared.fetch i stored.issue).comparing k := by
    intro j k hj
    by_cases hk : k = stored.issue
    · subst hk
      simp [Shared.fetch, hj]
    · simpa [Shared.fetch, hk] using hj
  refine ⟨?_, ?_, ?_, h.counted_issued, h.held⟩
  · apply System.put_forall (P := fun j (q : Stage) => ∀ k ∈ q.compares,
      j ∈ (s.shared.fetch i stored.issue).comparing k ∧ k < s.shared.issued)
    · intro k hk
      obtain rfl : stored.issue = k := Option.some.inj hk
      exact ⟨by simp [Shared.fetch], hissued⟩
    · exact fun j _ k hk => (h.comparing j k hk).imp_left (hmem j k)
  · exact System.put_forall (P := fun j (q : Stage) => ∀ k ∈ q.counts,
      j ∈ s.shared.uncounted k ∧ k < s.shared.issued) nofun fun j _ => h.uncounted j
  · intro k
    have hbound := h.bound k
    by_cases hk : k = stored.issue
    · subst hk
      have hheld := h.held stored hhash
      simp only [System.put_shared, Shared.fetch, Function.update_self, List.length_cons]
      omega
    · simpa [Shared.fetch, hk] using hbound

/-- A submission is compared. -/
theorem Tallied.compare (h : Tallied s) (hi : (s.proc i).compares = some k) (isMatch : Bool)
    (hcompares : q.compares = none)
    (hcounts : q.counts = none ∨ isMatch = false ∧ q.counts = some k) :
    Tallied (s.put (s.shared.compare i k isMatch) i q) := by
  obtain ⟨hmem, hissued⟩ := h.comparing i k hi
  have hlength := List.length_erase_of_mem hmem
  have hpos := List.length_pos_of_mem hmem
  refine ⟨?_, ?_, ?_, h.counted_issued, h.held⟩
  · apply System.put_forall (P := fun j (q : Stage) => ∀ l ∈ q.compares,
      j ∈ (s.shared.compare i k isMatch).comparing l ∧ l < s.shared.issued)
    · rw [hcompares]
      nofun
    · intro j hj l hl
      obtain ⟨hold, hlt⟩ := h.comparing j l hl
      refine ⟨?_, hlt⟩
      by_cases hlk : l = k
      · subst hlk
        simpa [Shared.compare, List.mem_erase_of_ne hj] using hold
      · simpa [Shared.compare, hlk] using hold
  · apply System.put_forall (P := fun j (q : Stage) => ∀ l ∈ q.counts,
      j ∈ (s.shared.compare i k isMatch).uncounted l ∧ l < s.shared.issued)
    · intro l hl
      rcases hcounts with hnone | ⟨rfl, hsome⟩
      · rw [hnone] at hl
        cases hl
      · rw [hsome] at hl
        obtain rfl : k = l := Option.some.inj hl
        exact ⟨by simp [Shared.compare], hissued⟩
    · intro j _ l hl
      obtain ⟨hold, hlt⟩ := h.uncounted j l hl
      refine ⟨?_, hlt⟩
      cases isMatch with
      | true => exact hold
      | false =>
        by_cases hlk : l = k
        · subst hlk
          simp [Shared.compare, hold]
        · simpa [Shared.compare, hlk] using hold
  · intro l
    have hbound := h.bound l
    by_cases hlk : l = k
    · subst hlk
      cases isMatch with
      | true =>
        simp only [System.put_shared, Shared.compare, Function.update_self, hlength, if_true]
        omega
      | false =>
        simp only [System.put_shared, Shared.compare, Function.update_self, hlength,
          Bool.false_eq_true, if_false, List.length_cons]
        omega
    · cases isMatch with
      | true => simpa [Shared.compare, hlk] using hbound
      | false => simpa [Shared.compare, hlk] using hbound

/-- A wrong submission is counted. -/
theorem Tallied.incr (h : Tallied s) (ht : Timed s.shared) (hi : (s.proc i).counts = some k)
    (hcompares : q.compares = none) (hcounts : q.counts = none) :
    Tallied (s.put (s.shared.incr i k) i q) := by
  obtain ⟨hmem, hissued⟩ := h.uncounted i k hi
  have hlength := List.length_erase_of_mem hmem
  have hpos := List.length_pos_of_mem hmem
  refine ⟨?_, ?_, ?_, ?_, ?_⟩
  · apply System.put_forall (P := fun j (q : Stage) => ∀ l ∈ q.compares,
      j ∈ s.shared.comparing l ∧ l < s.shared.issued)
    · rw [hcompares]
      nofun
    · exact fun j _ => h.comparing j
  · apply System.put_forall (P := fun j (q : Stage) => ∀ l ∈ q.counts,
      j ∈ (s.shared.incr i k).uncounted l ∧ l < s.shared.issued)
    · rw [hcounts]
      nofun
    · intro j hj l hl
      obtain ⟨hold, hlt⟩ := h.uncounted j l hl
      refine ⟨?_, hlt⟩
      by_cases hlk : l = k
      · subst hlk
        simpa [Shared.incr, List.mem_erase_of_ne hj] using hold
      · simpa [Shared.incr, hlk] using hold
  · intro l
    have hbound := h.bound l
    by_cases hlk : l = k
    · subst hlk
      simp only [System.put_shared, Shared.incr, Function.update_self, hlength, List.length_cons]
      omega
    · simpa [Shared.incr, hlk] using hbound
  · intro l hl
    have hne : l ≠ k := (hissued.trans_le hl).ne'
    simpa [Shared.incr, hne] using h.counted_issued l hl
  · intro stored hstored
    have hheld := h.held stored hstored
    obtain ⟨e, he, hle, rfl⟩ := hash_eq_some.mp hstored
    have hcount : (s.shared.incr i k).count = s.shared.count + 1 := by
      have hafter : Timed (s.shared.incr i k) :=
        ht.effect (p := .counting k) (q := afterCount k (s.shared.count + 1)) (.count k rfl)
      exact hafter.count_eq he hle
    rw [System.put_shared, hcount]
    by_cases hlk : e.value.issue = k
    · simp only [Shared.incr, hlk, Function.update_self, List.length_cons]
      rw [hlk] at hheld
      omega
    · simp only [Shared.incr, Function.update_of_ne hlk]
      omega

theorem afterCount_compares (issue attemptCount : ℕ) :
    (afterCount issue attemptCount).compares = none ∧
      (afterCount issue attemptCount).counts = none := by
  unfold afterCount
  dsimp only
  split <;> exact ⟨rfl, rfl⟩

theorem Tallied.effect (h : Tallied s) (ho : Once s.shared) (ht : Timed s.shared)
    (he : Effect i s.shared (s.proc i) y q) (hok : Undisturbed s (.act i .ok)) :
    Tallied (s.put y i q) := by
  obtain ⟨hroom, hclear, -, -⟩ := hok
  cases he with
  | cooldown c _ _ hq => exact h.keep rfl rfl rfl rfl (.inr ⟨rfl, rfl⟩) hq
  | store code salt _ _ hq => exact h.store code salt hq
  | fetch inputCode stored hfrom hhash =>
    obtain ⟨e, hotp, -, rfl⟩ := hash_eq_some.mp hhash
    exact h.fetch inputCode hhash (ho.stored_issued e hotp) (hroom inputCode hfrom _ hhash)
  | wrong inputCode stored hfrom =>
    exact h.compare (by rw [hfrom]; rfl) false rfl (.inr ⟨rfl, rfl⟩)
  | right inputCode stored _ hfrom hq =>
    exact h.compare (by rw [hfrom]; rfl) true hq.compares (.inl hq.counts)
  | count issue hfrom =>
    obtain ⟨hcompares, hcounts⟩ := afterCount_compares issue (s.shared.count + 1)
    exact h.incr ht (by rw [hfrom]; rfl) hcompares hcounts
  | lock _ _ _ hq => exact h.keep rfl rfl rfl rfl (.inl rfl) hq
  | accept _ _ _ _ _ hq => exact h.keep rfl rfl rfl rfl (.inl rfl) hq
  | clear _ hfrom hq => exact h.keep rfl rfl rfl rfl (.inl (hclear hfrom)) hq

omit [DecidableEq ι] in
theorem Tallied.elapse (h : Tallied s) (ht : Timed s.shared) (ms : ℕ) :
    Tallied ⟨{ s.shared with clock := s.shared.clock + ms }, s.proc⟩ := by
  refine ⟨h.comparing, h.uncounted, h.bound, h.counted_issued, ?_⟩
  intro stored hstored
  obtain ⟨e, he, hle, rfl⟩ := hash_eq_some.mp hstored
  have hbefore : s.shared.clock ≤ e.expires := (Nat.le_add_right _ ms).trans hle
  have hheld := h.held e.value (hash_eq_some.mpr ⟨e, he, hbefore, rfl⟩)
  rw [ht.count_eq he hbefore] at hheld
  rw [(ht.elapse ms).count_eq he hle]
  exact hheld

/-! ## The lockout -/

omit [DecidableEq ι] in
theorem lockedOut_iff : x.lockedOut = true ↔ ∃ e, x.lockout = some e ∧ x.clock ≤ e.expires := by
  unfold Shared.lockedOut visible
  cases x.lockout with
  | none => simp
  | some e =>
    by_cases hle : x.clock ≤ e.expires
    · simp [Option.filter, hle]
    · simp [Option.filter, hle]

/-- No code is stored during a lockout, a lockout lasts its time to live, and an issue whose last
    allowed wrong submission was counted has ended in a lockout or is about to. -/
structure Locked (s : System ι (Shared ι) Stage) : Prop where
  closed : s.shared.lockedOut = true → s.shared.otp = none
  lasts : ∀ r ∈ s.shared.lockouts, r.2 ≤ s.shared.clock ∧
    ∃ e, s.shared.lockout = some e ∧ r.2 + LOCKOUT_TTL_S * 1000 ≤ e.expires
  reached : ∀ k, (s.shared.counted k).length = MAX_ATTEMPTS →
    (∃ i, (s.proc i).locks = some k) ∨ ∃ t, (k, t) ∈ s.shared.lockouts

/-- The lockout stays, and the mover was not about to lock. -/
theorem Locked.keep (h : Locked s) (hotp : y.otp = none ∨ y.otp = s.shared.otp)
    (hlockout : y.lockout = s.shared.lockout) (hclock : y.clock = s.shared.clock)
    (hlockouts : y.lockouts = s.shared.lockouts)
    (hcounted : ∀ k, (y.counted k).length = MAX_ATTEMPTS →
      (s.shared.counted k).length = MAX_ATTEMPTS ∨ q.locks = some k)
    (hi : (s.proc i).locks = none) : Locked (s.put y i q) := by
  refine ⟨?_, ?_, ?_⟩
  · intro hlock
    rw [lockedOut_iff, System.put_shared, hlockout, hclock, ← lockedOut_iff] at hlock
    rcases hotp with hnone | hsame
    · exact hnone
    · exact hsame.trans (h.closed hlock)
  · rw [System.put_shared, hlockout, hclock, hlockouts]
    exact h.lasts
  · intro k hk
    rw [System.put_shared] at hk ⊢
    rcases hcounted k hk with hold | hnew
    · rcases h.reached k hold with ⟨j, hj⟩ | ⟨t, ht⟩
      · left
        have hji : j ≠ i := by
          rintro rfl
          rw [hi] at hj
          cases hj
        refine ⟨j, ?_⟩
        rw [System.put_other hji]
        exact hj
      · right
        rw [hlockouts]
        exact ⟨t, ht⟩
    · left
      refine ⟨i, ?_⟩
      rw [System.put_self]
      exact hnew

theorem Locked.lock (h : Locked s) (hi : s.proc i = .locking k) :
    Locked (s.put (s.shared.lock k) i q) := by
  refine ⟨fun _ => rfl, ?_, ?_⟩
  · intro r hr
    have hpast : r.2 ≤ s.shared.clock := by
      rcases List.mem_cons.mp hr with rfl | hr
      · exact le_rfl
      · exact (h.lasts r hr).1
    exact ⟨hpast, _, rfl, Nat.add_le_add_right hpast _⟩
  · intro l hl
    rw [System.put_shared] at hl ⊢
    rcases h.reached l hl with ⟨j, hj⟩ | ⟨t, ht⟩
    · by_cases hji : j = i
      · right
        rw [hji, hi] at hj
        obtain rfl : k = l := Option.some.inj hj
        exact ⟨_, List.mem_cons_self⟩
      · left
        refine ⟨j, ?_⟩
        rw [System.put_other hji]
        exact hj
    · exact .inr ⟨t, List.mem_cons_of_mem _ ht⟩

/-- The last allowed wrong submission of a code leads to the lockout. -/
theorem incr_reaches {issue l : ℕ}
    (hok : (s.shared.counted issue).length + 1 = MAX_ATTEMPTS →
      MAX_ATTEMPTS ≤ s.shared.count + 1)
    (hl : ((s.shared.incr i issue).counted l).length = MAX_ATTEMPTS) :
    (s.shared.counted l).length = MAX_ATTEMPTS ∨
      (afterCount issue (s.shared.count + 1)).locks = some l := by
  by_cases hli : l = issue
  · right
    subst hli
    simp only [Shared.incr, Function.update_self, List.length_cons] at hl
    have hcount := hok hl
    have hremaining : (MAX_ATTEMPTS : ℤ) - ((s.shared.count + 1 : ℕ) : ℤ) ≤ 0 := by omega
    simp only [afterCount, hremaining, if_true]
    rfl
  · left
    simpa only [Shared.incr, Function.update_of_ne hli] using hl

theorem Locked.effect (h : Locked s) (he : Effect i s.shared (s.proc i) y q)
    (hok : Undisturbed s (.act i .ok)) : Locked (s.put y i q) := by
  obtain ⟨-, -, hopen, hlast⟩ := hok
  cases he with
  | cooldown c _ hi _ => exact h.keep (.inr rfl) rfl rfl rfl (fun _ hk => .inl hk) hi
  | store code salt _ hfrom =>
    have hunlocked : s.shared.lockedOut = false := hopen code salt hfrom
    have hi : (s.proc i).locks = none := by
      rw [hfrom]
      rfl
    have hkept : Locked (s.put { s.shared with otp := none } i q) :=
      h.keep (.inl rfl) rfl rfl rfl (fun _ hk => .inl hk) hi
    refine ⟨?_, hkept.lasts, hkept.reached⟩
    intro hlocked
    have : s.shared.lockedOut = true := hlocked
    rw [hunlocked] at this
    exact absurd this (by decide)
  | fetch inputCode stored hfrom =>
    exact h.keep (.inr rfl) rfl rfl rfl (fun _ hk => .inl hk) (by rw [hfrom]; rfl)
  | wrong inputCode stored hfrom =>
    exact h.keep (.inr rfl) rfl rfl rfl (fun _ hk => .inl hk) (by rw [hfrom]; rfl)
  | right inputCode stored _ hfrom =>
    exact h.keep (.inr rfl) rfl rfl rfl (fun _ hk => .inl hk) (by rw [hfrom]; rfl)
  | count issue hfrom =>
    exact h.keep (.inr rfl) rfl rfl rfl (fun _ hl => incr_reaches (hlast issue hfrom) hl)
      (by rw [hfrom]; rfl)
  | lock issue _ hfrom => exact h.lock hfrom
  | accept expected stored _ hfrom =>
    exact h.keep (.inl rfl) rfl rfl rfl (fun _ hk => .inl hk) (by rw [hfrom]; rfl)
  | clear _ hfrom =>
    exact h.keep (.inr rfl) rfl rfl rfl (fun _ hk => .inl hk) (by rw [hfrom]; rfl)

omit [DecidableEq ι] in
theorem Locked.elapse (h : Locked s) (ms : ℕ) :
    Locked ⟨{ s.shared with clock := s.shared.clock + ms }, s.proc⟩ := by
  refine ⟨?_, ?_, h.reached⟩
  · intro hlock
    obtain ⟨e, he, hle⟩ := lockedOut_iff.mp hlock
    exact h.closed (lockedOut_iff.mpr ⟨e, he, (Nat.le_add_right _ ms).trans hle⟩)
  · intro r hr
    obtain ⟨hpast, hlasts⟩ := h.lasts r hr
    exact ⟨hpast.trans (Nat.le_add_right _ ms), hlasts⟩

omit [DecidableEq ι] in
/-- Within the time to live of a lockout, it is in force and no code is stored. -/
theorem Locked.in_force (h : Locked s) {t : ℕ} (ht : (k, t) ∈ s.shared.lockouts)
    (hle : s.shared.clock ≤ t + LOCKOUT_TTL_S * 1000) :
    s.shared.lockedOut = true ∧ s.shared.hash = none := by
  obtain ⟨-, e, he, hlasts⟩ := h.lasts _ ht
  have hlocked : s.shared.lockedOut = true := lockedOut_iff.mpr ⟨e, he, hle.trans hlasts⟩
  refine ⟨hlocked, ?_⟩
  unfold Shared.hash
  rw [h.closed hlocked]
  rfl

/-! ## Runs -/

/-- What every state of an undisturbed run keeps. -/
structure Sound (s : System ι (Shared ι) Stage) : Prop where
  timed : Timed s.shared
  once : Once s.shared
  tallied : Tallied s
  locked : Locked s

omit [DecidableEq ι] in
theorem sound_fresh (clock : ℕ) : Sound (fresh clock : System ι (Shared ι) Stage) where
  timed := ⟨nofun, nofun⟩
  once := ⟨List.nodup_nil, nofun, nofun, nofun⟩
  tallied := ⟨nofun, nofun, fun _ => Nat.zero_le _, fun _ _ => rfl, nofun⟩
  locked := ⟨fun _ => rfl, nofun, nofun⟩

theorem sound_of_reaches {clock : ℕ} (h : Reaches (rules ι) Undisturbed (fresh clock) s) :
    Sound s := by
  apply h.invariant (sound_fresh clock)
  · intro t i o x p hok ht hstep
    have heffect := step_effect hstep
    exact ⟨ht.timed.effect heffect, ht.once.effect heffect,
      ht.tallied.effect ht.once ht.timed heffect hok, ht.locked.effect heffect hok⟩
  · intro t c x _ ht hc
    cases c with
    | elapse ms =>
      obtain rfl : _ = x := Option.some.inj hc
      refine ⟨ht.timed.elapse ms, ?_, ht.tallied.elapse ht.timed ms, ht.locked.elapse ms⟩
      exact ⟨ht.once.accepted_once, ht.once.accepted_issued, ht.once.stored_issued,
        ht.once.stored_unused⟩

/-- Without a visible hash no move accepts. -/
theorem accepts_nothing (hhash : s.shared.hash = none) (m : Move ι Outcome Change) :
    ((rules ι).after s m).shared.accepted = s.shared.accepted := by
  apply after_cases (R := rules ι)
    (P := fun t : System ι (Shared ι) Stage => t.shared.accepted = s.shared.accepted) m rfl
  · intro i o x p _ hstep
    have heffect := step_effect hstep
    cases heffect with
    | accept expected stored _ _ hstored =>
      rw [hhash] at hstored
      cases hstored
    | _ => rfl
  · intro c x _ hc
    cases c with
    | elapse ms =>
      obtain rfl : _ = x := Option.some.inj hc
      rfl

/-- In an undisturbed run each code is accepted at most once; at most the maximum of wrong
    submissions are compared with a code; once they are all counted a lockout follows; and until its
    time to live has passed every verification is refused and none is accepted. -/
theorem guessing_bounded_when_undisturbed {clock : ℕ}
    (h : Reaches (rules ι) Undisturbed (fresh clock) s) :
    (s.shared.accepted.map Stored.issue).Nodup ∧
    (∀ k, (s.shared.uncounted k).length + (s.shared.counted k).length ≤ MAX_ATTEMPTS) ∧
    (∀ k, (s.shared.counted k).length = MAX_ATTEMPTS →
      (∃ i, s.proc i = .locking k) ∨ ∃ t, (k, t) ∈ s.shared.lockouts) ∧
    (∀ k t, (k, t) ∈ s.shared.lockouts → s.shared.clock ≤ t + LOCKOUT_TTL_S * 1000 →
      (∀ m, ((rules ι).after s m).shared.accepted = s.shared.accepted) ∧
      ∀ i inputCode, s.proc i = .verifying inputCode →
        ((rules ι).after s (.act i .ok)).proc i = .refusing) := by
  have hs := sound_of_reaches h
  refine ⟨hs.once.accepted_once, ?_, ?_, ?_⟩
  · intro k
    have := hs.tallied.bound k
    omega
  · intro k hk
    refine (hs.locked.reached k hk).imp_left ?_
    rintro ⟨i, hi⟩
    refine ⟨i, ?_⟩
    cases hproc : s.proc i with
    | locking issue =>
      rw [hproc] at hi
      rw [Option.some.inj hi]
    | _ =>
      rw [hproc] at hi
      cases hi
  · intro k t ht hle
    obtain ⟨hlocked, hhash⟩ := hs.locked.in_force ht hle
    refine ⟨accepts_nothing hhash, ?_⟩
    intro i inputCode hi
    simp [Rules.after, rules, hi, step, hlocked]

namespace Sample

/-- The first moves of a wrong submission. -/
def guess (i : Fin 6) (commands : ℕ) : List (Move (Fin 6) Outcome Change) :=
  .act i (.verifyOTP "000000") :: List.replicate commands (.act i .ok)

def generate : List (Move (Fin 6) Outcome Change) :=
  [.act 0 .generateOTP, .act 0 .ok, .act 0 .ok, .act 0 (.draw 42 "salt"), .act 0 .ok]

/-- A code is generated and one wrong submission made. -/
def missed : System (Fin 6) (Shared (Fin 6)) Stage :=
  (generate ++ guess 1 4).foldl (rules (Fin 6)).after (fresh 0)

theorem missed_bounded : missed.shared.counted 0 = [1] ∧
    (missed.shared.uncounted 0).length + (missed.shared.counted 0).length ≤ MAX_ATTEMPTS := by
  have hreaches : Reaches (rules (Fin 6)) Undisturbed (fresh 0) missed := by
    refine .of_admits ⟨⟨nofun, nofun, nofun, nofun⟩, ⟨nofun, nofun, nofun, nofun⟩,
      ⟨nofun, nofun, nofun, nofun⟩, ⟨nofun, nofun, nofun, nofun⟩, ⟨nofun, nofun, ?_, nofun⟩,
      ⟨nofun, nofun, nofun, nofun⟩, ⟨nofun, nofun, nofun, nofun⟩, ⟨?_, nofun, nofun, nofun⟩,
      ⟨nofun, nofun, nofun, nofun⟩, ⟨nofun, nofun, nofun, ?_⟩, trivial⟩
    · intro code salt _
      rfl
    · rintro inputCode - stored hstored
      obtain rfl : _ = stored := Option.some.inj hstored
      decide
    · intro issue hissue hcounted
      obtain rfl : 0 = issue := Stage.counting.inj hissue
      exact absurd hcounted (by decide)
  exact ⟨by decide +kernel, (guessing_bounded_when_undisturbed hreaches).2.1 0⟩

/-- Four wrong submissions fetch the hash side by side, then all compare it. -/
def parallelMoves : List (Move (Fin 6) Outcome Change) :=
  generate ++ guess 1 2 ++ guess 2 2 ++ guess 3 2 ++ guess 4 2 ++
    [.act 1 .ok, .act 2 .ok, .act 3 .ok, .act 4 .ok]

def parallel : System (Fin 6) (Shared (Fin 6)) Stage :=
  parallelMoves.foldl (rules (Fin 6)).after (fresh 0)

/-- Four wrong submissions were compared with the one code, and nobody is locked out. -/
theorem parallel_compares_four : Reaches (rules (Fin 6)) (fun _ _ => True) (fresh 0) parallel ∧
    (parallel.shared.uncounted 0).length = 4 ∧ MAX_ATTEMPTS < 4 ∧
    parallel.shared.lockedOut = false :=
  ⟨.of_steps _, by decide +kernel, by decide, by decide +kernel⟩

end Sample

end NeuroWealth.PhoneOtp
