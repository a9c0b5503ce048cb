import NeuroWealth.Agent.WalletOtp

/-!
# Wallet codes: single use, in time, five comparisons

Each attempt since a code was stored has a number of its own, and a submission is compared under
its attempt number.
-/

namespace NeuroWealth.WalletOtp

open Interleaving

variable {ι : Type} {s : System ι Shared Stage} {x y : Shared} {p q : Stage} {i j : ι}
  {e : Stored} {a : ℕ}

/-! ## What a step can do -/

namespace Stage

/-- The attempt number and the code of a submission about to be compared. -/
def reads : Stage → Option (ℕ × Stored)
  | checking _ attempts stored => some (attempts, stored)
  | _ => none

/-- The code that a call has matched and is about to consume. -/
def consumes : Stage → Option Stored
  | consuming stored => some stored
  | _ => none

/-- The expiry of a code about to be stored. -/
def saves : Stage → Option ℕ
  | saving _ expiresAt => some expiresAt
  | _ => none

/-- A stage that holds nothing the other one does not. -/
structure Within (q p : Stage) : Prop where
  ticket : ∀ a ∈ q.ticket, a ∈ p.ticket
  reads : ∀ r ∈ q.reads, r ∈ p.reads
  consumes : ∀ e ∈ q.consumes, e ∈ p.consumes
  saves : ∀ t ∈ q.saves, t ∈ p.saves

/-- A stage that holds nothing. -/
theorem within_of_none (hticket : q.ticket = none) (hreads : q.reads = none)
    (hconsumes : q.consumes = none) (hsaves : q.saves = none) : q.Within p := by
  constructor
  · rw [hticket]
    nofun
  · rw [hreads]
    nofun
  · rw [hconsumes]
    nofun
  · rw [hsaves]
    nofun

theorem done_within (result : Result) : (done result).Within p :=
  within_of_none rfl rfl rfl rfl

end Stage

/-- Everything a step of a call can do to the keys. -/
inductive Effect (x : Shared) (p : Stage) : Shared → Stage → Prop
  | cooldown (c : Option ℕ) (q : Stage) (within : q.Within p) :
      Effect x p { x with cooldown := c } q
  | drop (q : Stage) (within : q.Within p) : Effect x p x.drop q
  | extend (q : Stage) (within : q.Within p) : Effect x p x.extend q
  | draw (code : String) (expiresAt : ℕ) (bound : expiresAt = x.clock + OTP_TTL_S * 1000) :
      Effect x p x (.saving code expiresAt)
  | save (code : String) (expiresAt : ℕ) (result : Result) (from_ : p = .saving code expiresAt) :
      Effect x p (x.save code expiresAt) (.done result)
  | incr (q : Stage) (number : q.ticket = none ∨
        q.ticket = some (x.count + 1) ∧ x.count + 1 ≤ OTP_MAX_ATTEMPTS)
      (reads : q.reads = none) (consumes : q.consumes = none) (saves : q.saves = none) :
      Effect x p x.incr q
  | read (submittedCode : String) (attempts : ℕ) (stored : Stored)
      (from_ : p.ticket = some attempts) (present : x.code = some stored) :
      Effect x p x (.checking submittedCode attempts stored)
  | compare (attempts : ℕ) (stored : Stored) (q : Stage) (from_ : p.reads = some (attempts, stored))
      (in_time : x.clock ≤ stored.expiresAt) (ticket : q.ticket = none) (reads : q.reads = none)
      (consumes : ∀ e ∈ q.consumes, e = stored) (saves : q.saves = none) :
      Effect x p (x.compare stored.issue attempts) q
  | accept (expected stored : Stored) (from_ : p = .consuming expected)
      (present : x.code = some stored) (same : stored.sameText expected) :
      Effect x p (x.accept stored) .clearing
  | clear (result : Result) (from_ : p = .clearing) : Effect x p x.clear (.done result)

/-- A step that leaves the keys alone. -/
theorem Effect.none (within : q.Within p) : Effect x p x q :=
  .cooldown x.cooldown q within

/-- A failed command had its effect or none. -/
theorem Effect.fails {z : Shared} {effect : Bool} (he : Effect x p z (.done .threw))
    (h : some (if effect then z else x, Stage.done .threw) = some (y, q)) : Effect x p y q := by
  obtain ⟨rfl, rfl⟩ : _ = y ∧ Stage.done .threw = q := by simpa using h
  cases effect with
  | true => exact he
  | false => exact .none (Stage.done_within _)

theorem counted_effect (submittedCode : String) :
    Effect x (.counting submittedCode) x.incr (counted submittedCode (x.count + 1)) := by
  unfold counted
  by_cases hone : x.count + 1 = 1
  · rw [if_pos hone]
    refine .incr _ (.inr ⟨?_, ?_⟩) rfl rfl rfl
    · rw [hone]
      rfl
    · rw [hone]
      decide
  · by_cases hmax : x.count + 1 > OTP_MAX_ATTEMPTS
    · rw [if_neg hone, if_pos hmax]
      exact .incr _ (.inl rfl) rfl rfl rfl
    · rw [if_neg hone, if_neg hmax]
      exact .incr _ (.inr ⟨rfl, not_lt.mp hmax⟩) rfl rfl rfl

theorem checked_effect (submittedCode : String) (attempts : ℕ) (stored : Stored) :
    Effect x (.checking submittedCode attempts stored) (checked x submittedCode attempts stored).1
      (checked x submittedCode attempts stored).2 := by
  unfold checked
  by_cases hlate : stored.expiresAt < x.clock
  · rw [if_pos hlate]
    exact .none (Stage.within_of_none rfl rfl rfl rfl)
  · rw [if_neg hlate]
    by_cases hmatch : stored.code = submittedCode
    · simp only [hmatch, if_true]
      refine .compare attempts stored _ rfl (not_lt.mp hlate) rfl rfl ?_ rfl
      intro e he
      exact (Option.some.inj he).symm
    · simp only [hmatch, if_false]
      exact .compare attempts stored _ rfl (not_lt.mp hlate) rfl rfl nofun rfl

/-- The script deletes a stored code of the expected text, or nothing. -/
theorem consumed_cases (x : Shared) (expected : Stored) : x.consumed expected = none ∨
    ∃ stored, x.code = some stored ∧ stored.sameText expected ∧
      x.consumed expected = some stored := by
  cases hcode : x.code with
  | none => simp [Shared.consumed, hcode]
  | some stored =>
    by_cases hsame : stored.sameText expected
    · exact .inr ⟨stored, rfl, hsame, by simp [Shared.consumed, hcode, Option.filter, hsame]⟩
    · exact .inl (by simp [Shared.consumed, hcode, Option.filter, hsame])

/-- Every step has one of the effects. -/
theorem step_effect {o : Outcome} (h : step x p o = some (y, q)) : Effect x p y q := by
  cases p with
  | idle =>
    cases o with
    | issueOtp =>
      obtain ⟨rfl, rfl⟩ : x = y ∧ .acquiring = q := by simpa [step] using h
      exact .none (Stage.within_of_none rfl rfl rfl rfl)
    | verifyAndConsumeOtp submittedCode =>
      obtain ⟨rfl, rfl⟩ : x = y ∧ .counting submittedCode = q := by simpa [step] using h
      exact .none (Stage.within_of_none rfl rfl rfl rfl)
    | _ => cases h
  | acquiring =>
    have hacquire : ∃ c, x.acquire = { x with cooldown := c } := by
      unfold Shared.acquire
      split
      · exact ⟨_, rfl⟩
      · exact ⟨x.cooldown, rfl⟩
    obtain ⟨c, hc⟩ := hacquire
    cases o with
    | ok =>
      obtain ⟨rfl, rfl⟩ : x.acquire = y ∧ _ = q := by simpa [step] using h
      rw [hc]
      apply Effect.cooldown
      split <;> exact Stage.within_of_none rfl rfl rfl rfl
    | fails effect => exact .fails (hc ▸ .cooldown c _ (Stage.done_within _)) h
    | _ => cases h
  | refusing =>
    cases o with
    | ok =>
      obtain ⟨rfl, rfl⟩ : x = y ∧ _ = q := by simpa [step] using h
      exact .none (Stage.done_within _)
    | fails effect =>
      obtain ⟨rfl, rfl⟩ : x = y ∧ Stage.done .threw = q := by simpa [step] using h
      exact .none (Stage.done_within _)
    | _ => cases h
  | drawing =>
    cases o with
    | randomInt n =>
      obtain ⟨rfl, rfl⟩ : x = y ∧ _ = q := by simpa [step] using h
      exact .draw _ _ rfl
    | _ => cases h
  | saving code expiresAt =>
    cases o with
    | ok =>
      obtain ⟨rfl, rfl⟩ : x.save code expiresAt = y ∧ _ = q := by simpa [step] using h
      exact .save code expiresAt _ rfl
    | fails effect => exact .fails (.save code expiresAt _ rfl) h
    | _ => cases h
  | counting submittedCode =>
    cases o with
    | ok =>
      obtain ⟨rfl, rfl⟩ : x.incr = y ∧ counted submittedCode (x.count + 1) = q := by
        simpa [step] using h
      exact counted_effect submittedCode
    | fails effect => exact .fails (.incr _ (.inl rfl) rfl rfl rfl) h
    | _ => cases h
  | expiring submittedCode =>
    cases o with
    | ok =>
      obtain ⟨rfl, rfl⟩ : x.extend = y ∧ _ = q := by simpa [step] using h
      exact .extend _ ⟨fun a ha => ha, nofun, nofun, nofun⟩
    | fails effect => exact .fails (.extend _ (Stage.done_within _)) h
    | _ => cases h
  | reading submittedCode attempts =>
    cases o with
    | ok =>
      obtain ⟨rfl, rfl⟩ : x = y ∧ _ = q := by simpa [step] using h
      cases hcode : x.code with
      | none => exact .none (Stage.done_within _)
      | some stored => exact .read submittedCode attempts stored rfl hcode
    | fails effect =>
      obtain ⟨rfl, rfl⟩ : x = y ∧ Stage.done .threw = q := by simpa [step] using h
      exact .none (Stage.done_within _)
    | _ => cases h
  | checking submittedCode attempts stored =>
    cases o with
    | ok =>
      have h' : checked x submittedCode attempts stored = (y, q) := by simpa [step] using h
      have heffect := checked_effect (x := x) submittedCode attempts stored
      rw [h'] at heffect
      exact heffect
    | _ => cases h
  | dropping =>
    cases o with
    | ok =>
      obtain ⟨rfl, rfl⟩ : x.drop = y ∧ _ = q := by simpa [step] using h
      exact .drop _ (Stage.done_within _)
    | fails effect => exact .fails (.drop _ (Stage.done_within _)) h
    | _ => cases h
  | consuming expected =>
    cases o with
    | ok =>
      have h' : consume x expected = (y, q) := by simpa [step] using h
      unfold consume at h'
      rcases consumed_cases x expected with hnone | ⟨stored, hcode, hsame, hsome⟩
      · simp only [hnone, Prod.mk.injEq] at h'
        obtain ⟨rfl, rfl⟩ := h'
        exact .none (Stage.done_within _)
      · simp only [hsome, Prod.mk.injEq] at h'
        obtain ⟨rfl, rfl⟩ := h'
        exact .accept expected stored rfl hcode hsame
    | fails effect =>
      refine .fails ?_ h
      rcases consumed_cases x expected with hnone | ⟨stored, hcode, hsame, hsome⟩
      · rw [hnone, Option.elim_none]
        exact .none (Stage.done_within _)
      · rw [hsome, Option.elim_some]
        exact .drop _ (Stage.done_within _)
    | _ => cases h
  | clearing =>
    cases o with
    | ok =>
      obtain ⟨rfl, rfl⟩ : x.clear = y ∧ _ = q := by simpa [step] using h
      exact .clear _ rfl
    | fails effect => exact .fails (.clear _ rfl) h
    | _ => cases h
  | done result => cases o <;> cases h

/-- The clock advances, or one key goes; the attempts only after their time. -/
theorem around_cases {c : Change} (h : around x c = some y) :
    (∃ cooldown, y = { x with cooldown := cooldown }) ∨
    (∃ ms, c = .elapse ms ∧ y = { x with clock := x.clock + ms }) ∨ y = x.drop ∨
    ((∃ d, x.attempts.bind Attempts.expires = some d ∧ d < x.clock) ∧ y = x.clear) := by
  cases c with
  | elapse ms => exact .inr (.inl ⟨ms, rfl, (Option.some.inj h).symm⟩)
  | expire key =>
    cases key with
    | code =>
      obtain ⟨-, rfl⟩ : _ ∧ x.drop = y := by simpa [around] using h
      exact .inr (.inr (.inl rfl))
    | attempts =>
      obtain ⟨hexpired, rfl⟩ : (x.attempts.bind Attempts.expires).any (· < x.clock) = true ∧
          x.clear = y := by simpa [around] using h
      refine .inr (.inr (.inr ⟨?_, rfl⟩))
      rw [Option.any_eq_true] at hexpired
      obtain ⟨d, hd, hlt⟩ := hexpired
      exact ⟨d, hd, by simpa using hlt⟩
    | cooldown =>
      obtain ⟨-, rfl⟩ : _ ∧ { x with cooldown := none } = y := by simpa [around] using h
      exact .inl ⟨none, rfl⟩

/-! ## Single use -/

/-- An issue is stored, accepted, or gone: never stored again once accepted. -/
structure Once (x : Shared) : Prop where
  accepted_once : (x.accepted.map fun r => r.1.issue).Nodup
  accepted_issued : ∀ r ∈ x.accepted, r.1.issue < x.issued
  stored_issued : ∀ e ∈ x.code, e.issue < x.issued
  stored_unused : ∀ e ∈ x.code, ∀ r ∈ x.accepted, r.1.issue ≠ e.issue

theorem Once.without_code (h : Once x) : Once x.drop :=
  ⟨h.accepted_once, h.accepted_issued, nofun, nofun⟩

theorem Once.save (h : Once x) (code : String) (expiresAt : ℕ) : Once (x.save code expiresAt) := by
  refine ⟨h.accepted_once, ?_, ?_, ?_⟩
  · intro r hr
    exact (h.accepted_issued r hr).trans (Nat.lt_succ_self _)
  · intro e he
    obtain rfl : _ = e := Option.some.inj he
    exact Nat.lt_succ_self _
  · intro e he r hr
    obtain rfl : _ = e := Option.some.inj he
    exact (h.accepted_issued r hr).ne

theorem Once.accept (h : Once x) (hcode : x.code = some e) : Once (x.accept e) := by
  refine ⟨?_, ?_, nofun, nofun⟩
  · show (e.issue :: x.accepted.map fun r => r.1.issue).Nodup
    rw [List.nodup_cons, List.mem_map]
    refine ⟨?_, h.accepted_once⟩
    rintro ⟨r, hr, heq⟩
    exact h.stored_unused e hcode r hr heq
  · intro r hr
    rcases List.mem_cons.mp hr with rfl | hr
    · exact h.stored_issued e hcode
    · exact h.accepted_issued r hr

theorem Once.effect (h : Once x) (he : Effect x p y q) : Once y := by
  cases he with
  | save code expiresAt _ _ => exact h.save code expiresAt
  | accept expected stored _ hcode _ => exact h.accept hcode
  | drop => exact h.without_code
  | _ => exact ⟨h.accepted_once, h.accepted_issued, h.stored_issued, h.stored_unused⟩

theorem Once.around (h : Once x) {c : Change} (hc : around x c = some y) : Once y := by
  rcases around_cases hc with ⟨_, rfl⟩ | ⟨ms, -, rfl⟩ | rfl | ⟨-, rfl⟩
  · exact ⟨h.accepted_once, h.accepted_issued, h.stored_issued, h.stored_unused⟩
  · exact ⟨h.accepted_once, h.accepted_issued, h.stored_issued, h.stored_unused⟩
  · exact h.without_code
  · exact ⟨h.accepted_once, h.accepted_issued, h.stored_issued, h.stored_unused⟩

section Steps

variable [DecidableEq ι]

/-! ## In time -/

/-- Codes were accepted before they expired, and are about to be. -/
structure InTime (s : System ι Shared Stage) : Prop where
  accepted : ∀ r ∈ s.shared.accepted, r.2 ≤ r.1.expiresAt
  consuming : ∀ i, ∀ e ∈ (s.proc i).consumes, s.shared.clock ≤ e.expiresAt

/-- The clock and the acceptances stay, and the mover holds no code that it did not. -/
theorem InTime.keep (h : InTime s) (hclock : y.clock = s.shared.clock)
    (haccepted : y.accepted = s.shared.accepted)
    (hq : ∀ e ∈ q.consumes, s.shared.clock ≤ e.expiresAt) : InTime (s.put y i q) := by
  refine ⟨?_, ?_⟩
  · rw [System.put_shared, haccepted]
    exact h.accepted
  · rw [System.put_shared, hclock]
    exact System.put_forall (P := fun _ (q : Stage) => ∀ e ∈ q.consumes,
      s.shared.clock ≤ e.expiresAt) hq fun j _ => h.consuming j

theorem InTime.effect (h : InTime s) (he : Effect s.shared (s.proc i) y q) :
    InTime (s.put y i q) := by
  cases he with
  | cooldown c _ hq => exact h.keep rfl rfl fun e he => h.consuming i e (hq.consumes e he)
  | drop _ hq => exact h.keep rfl rfl fun e he => h.consuming i e (hq.consumes e he)
  | extend _ hq => exact h.keep rfl rfl fun e he => h.consuming i e (hq.consumes e he)
  | draw => exact h.keep rfl rfl nofun
  | save => exact h.keep rfl rfl nofun
  | incr _ _ _ hnone => exact h.keep rfl rfl (by rw [hnone]; nofun)
  | read => exact h.keep rfl rfl nofun
  | compare attempts stored _ _ htime _ _ hq =>
    apply h.keep (y := s.shared.compare stored.issue attempts) rfl rfl
    intro e he
    rw [hq e he]
    exact htime
  | accept expected stored hfrom _ hsame =>
    refine ⟨?_, ?_⟩
    · intro r hr
      rcases List.mem_cons.mp hr with rfl | hr
      · have htime := h.consuming i expected (by rw [hfrom]; rfl)
        show s.shared.clock ≤ stored.expiresAt
        rw [hsame.2]
        exact htime
      · exact h.accepted r hr
    · exact System.put_forall (P := fun _ (q : Stage) => ∀ e ∈ q.consumes,
        s.shared.clock ≤ e.expiresAt) nofun fun j _ => h.consuming j
  | clear => exact h.keep rfl rfl nofun

end Steps

theorem InTime.around (h : InTime s) {c : Change} (hok : Undisturbed s (.world c))
    (hc : around s.shared c = some y) : InTime ⟨y, s.proc⟩ := by
  rcases around_cases hc with ⟨_, rfl⟩ | ⟨ms, rfl, rfl⟩ | rfl | ⟨-, rfl⟩
  · exact ⟨h.accepted, h.consuming⟩
  · refine ⟨h.accepted, ?_⟩
    intro i e he
    apply hok i e
    cases hi : s.proc i with
    | consuming stored =>
      rw [hi] at he
      rw [Option.some.inj he]
    | _ =>
      rw [hi] at he
      cases he
  · exact ⟨h.accepted, h.consuming⟩
  · exact ⟨h.accepted, h.consuming⟩

/-! ## Five comparisons -/

/-- What holds while the stored code `e` has not expired: the attempts since it was stored have
    numbers of their own, up to the count. -/
structure Numbered (s : System ι Shared Stage) (e : Stored) : Prop where
  ticket_counted : ∀ i, ∀ a ∈ (s.proc i).ticket, a ≤ s.shared.count
  ticket_unique : ∀ i j, ∀ a ∈ (s.proc i).ticket, a ∈ (s.proc j).ticket → i = j
  ticket_unread : ∀ i, ∀ a ∈ (s.proc i).ticket, ∀ j, ∀ r ∈ (s.proc j).reads,
    r.2.issue = e.issue → r.1 ≠ a
  ticket_unused : ∀ i, ∀ a ∈ (s.proc i).ticket, a ∉ s.shared.compared e.issue
  reads_counted : ∀ i, ∀ r ∈ (s.proc i).reads, r.2.issue = e.issue → r.1 ≤ s.shared.count
  compared_counted : ∀ a ∈ s.shared.compared e.issue, a ≤ s.shared.count

/-- The stored code expires before the attempts do. -/
structure Timed (s : System ι Shared Stage) : Prop where
  saves_bound : ∀ i, ∀ t ∈ (s.proc i).saves, t ≤ s.shared.clock + OTP_TTL_S * 1000
  code_bound : ∀ e ∈ s.shared.code, e.expiresAt ≤ s.shared.clock + OTP_TTL_S * 1000
  outlives : ∀ e ∈ s.shared.code, ∀ d ∈ s.shared.attempts.bind Attempts.expires, e.expiresAt ≤ d

/-- The comparisons of an issue are numbered from one to the maximum, each with a number of its
    own. -/
structure Counted (s : System ι Shared Stage) : Prop where
  ticket_range : ∀ i, ∀ a ∈ (s.proc i).ticket, 1 ≤ a ∧ a ≤ OTP_MAX_ATTEMPTS
  reads_range : ∀ i, ∀ r ∈ (s.proc i).reads, 1 ≤ r.1 ∧ r.1 ≤ OTP_MAX_ATTEMPTS
  reads_issued : ∀ i, ∀ r ∈ (s.proc i).reads, r.2.issue < s.shared.issued
  reads_unique : ∀ i j, ∀ r ∈ (s.proc i).reads, ∀ r' ∈ (s.proc j).reads,
    s.shared.clock ≤ r.2.expiresAt → s.shared.clock ≤ r'.2.expiresAt →
    r.2.issue = r'.2.issue → r.1 = r'.1 → i = j
  reads_unused : ∀ i, ∀ r ∈ (s.proc i).reads, s.shared.clock ≤ r.2.expiresAt →
    r.1 ∉ s.shared.compared r.2.issue
  compared_range : ∀ k, ∀ a ∈ s.shared.compared k, 1 ≤ a ∧ a ≤ OTP_MAX_ATTEMPTS
  compared_nodup : ∀ k, (s.shared.compared k).Nodup
  compared_issued : ∀ k, s.shared.issued ≤ k → s.shared.compared k = []
  numbered : ∀ e ∈ s.shared.code, s.shared.clock ≤ e.expiresAt → Numbered s e

section Timed

variable [DecidableEq ι]

/-- The code and the attempts' expiry stay, or the code goes. -/
theorem Timed.keep (h : Timed s) (hclock : y.clock = s.shared.clock)
    (hcode : y.code = none ∨ y.code = s.shared.code ∧
      ∀ d ∈ y.attempts.bind Attempts.expires, d ∈ s.shared.attempts.bind Attempts.expires ∨
        d = s.shared.clock + OTP_TTL_S * 1000)
    (hq : ∀ t ∈ q.saves, t ≤ s.shared.clock + OTP_TTL_S * 1000) : Timed (s.put y i q) := by
  refine ⟨?_, ?_, ?_⟩
  · rw [System.put_shared, hclock]
    exact System.put_forall (P := fun _ (q : Stage) => ∀ t ∈ q.saves,
      t ≤ s.shared.clock + OTP_TTL_S * 1000) hq fun j _ => h.saves_bound j
  · intro e he
    rw [System.put_shared] at he
    rw [System.put_shared, hclock]
    rcases hcode with hnone | ⟨hsame, -⟩
    · rw [hnone] at he
      cases he
    · rw [hsame] at he
      exact h.code_bound e he
  · intro e he d hd
    rw [System.put_shared] at he hd
    rcases hcode with hnone | ⟨hsame, hexpires⟩
    · rw [hnone] at he
      cases he
    · rw [hsame] at he
      rcases hexpires d hd with hd | rfl
      · exact h.outlives e he d hd
      · exact h.code_bound e he

theorem Timed.effect (h : Timed s) (he : Effect s.shared (s.proc i) y q)
    (hclear : s.proc i = .clearing → s.shared.code = none) : Timed (s.put y i q) := by
  cases he with
  | cooldown c _ hq =>
    exact h.keep rfl (.inr ⟨rfl, fun d hd => .inl hd⟩) fun t ht => h.saves_bound i t (hq.saves t ht)
  | drop _ hq => exact h.keep rfl (.inl rfl) fun t ht => h.saves_bound i t (hq.saves t ht)
  | extend _ hq =>
    refine h.keep rfl (.inr ⟨rfl, ?_⟩) fun t ht => h.saves_bound i t (hq.saves t ht)
    intro d hd
    right
    cases hattempts : s.shared.attempts with
    | none =>
      rw [Shared.extend, hattempts] at hd
      cases hd
    | some attempts =>
      rw [Shared.extend, hattempts] at hd
      exact (Option.some.inj hd).symm
  | draw code expiresAt hbound =>
    apply h.keep rfl (.inr ⟨rfl, fun d hd => .inl hd⟩)
    intro t ht
    rw [← Option.some.inj ht, hbound]
  | save code expiresAt _ hfrom =>
    have hbound := h.saves_bound i expiresAt (by rw [hfrom]; rfl)
    refine ⟨?_, ?_, ?_⟩
    · exact System.put_forall (P := fun _ (q : Stage) => ∀ t ∈ q.saves,
        t ≤ s.shared.clock + OTP_TTL_S * 1000) nofun fun j _ => h.saves_bound j
    · intro e he
      obtain rfl : _ = e := Option.some.inj he
      exact hbound
    · intro e _ d hd
      cases hd
  | incr _ _ _ _ hnone =>
    refine h.keep rfl (.inr ⟨rfl, fun d hd => .inl ?_⟩) (by rw [hnone]; nofun)
    exact hd
  | read => exact h.keep rfl (.inr ⟨rfl, fun d hd => .inl hd⟩) nofun
  | compare _ _ _ _ _ _ _ _ hnone =>
    exact h.keep rfl (.inr ⟨rfl, fun d hd => .inl hd⟩) (by rw [hnone]; nofun)
  | accept => exact h.keep rfl (.inl rfl) nofun
  | clear _ hfrom => exact h.keep rfl (.inl (hclear hfrom)) nofun

end Timed

theorem Timed.around (h : Timed s) {c : Change} (hc : around s.shared c = some y) :
    Timed ⟨y, s.proc⟩ := by
  rcases around_cases hc with ⟨_, rfl⟩ | ⟨ms, -, rfl⟩ | rfl | ⟨-, rfl⟩
  · exact ⟨h.saves_bound, h.code_bound, h.outlives⟩
  · refine ⟨?_, ?_, h.outlives⟩
    · intro i t ht
      exact (h.saves_bound i t ht).trans (Nat.add_le_add_right (Nat.le_add_right _ ms) _)
    · intro e he
      exact (h.code_bound e he).trans (Nat.add_le_add_right (Nat.le_add_right _ ms) _)
  · exact ⟨h.saves_bound, nofun, nofun⟩
  · refine ⟨h.saves_bound, h.code_bound, ?_⟩
    intro e _ d hd
    cases hd

/-! ## The count -/

/-- The clock and the log of comparisons stay; the mover holds nothing new; and if a
    code is still stored and not expired, its count stays. -/
theorem Counted.keep [DecidableEq ι] (h : Counted s) (hclock : y.clock = s.shared.clock)
    (hissued : y.issued = s.shared.issued) (hcompared : y.compared = s.shared.compared)
    (hcode : y.code = none ∨ y.code = s.shared.code ∧ y.count = s.shared.count)
    (hticket : ∀ a ∈ q.ticket, a ∈ (s.proc i).ticket)
    (hreads : ∀ r ∈ q.reads, r ∈ (s.proc i).reads) : Counted (s.put y i q) := by
  have hticket' : ∀ j, ∀ a ∈ ((s.put y i q).proc j).ticket, a ∈ (s.proc j).ticket :=
    System.put_forall (P := fun j (q : Stage) => ∀ a ∈ q.ticket, a ∈ (s.proc j).ticket) hticket
      fun _ _ _ ha => ha
  have hreads' : ∀ j, ∀ r ∈ ((s.put y i q).proc j).reads, r ∈ (s.proc j).reads :=
    System.put_forall (P := fun j (q : Stage) => ∀ r ∈ q.reads, r ∈ (s.proc j).reads) hreads
      fun _ _ _ hr => hr
  refine ⟨?_, ?_, ?_, ?_, ?_, ?_, ?_, ?_, ?_⟩
  · intro j a ha
    exact h.ticket_range j a (hticket' j a ha)
  · intro j r hr
    exact h.reads_range j r (hreads' j r hr)
  · intro j r hr
    rw [System.put_shared, hissued]
    exact h.reads_issued j r (hreads' j r hr)
  · intro j k r hr r' hr' hle hle'
    rw [System.put_shared, hclock] at hle hle'
    exact h.reads_unique j k r (hreads' j r hr) r' (hreads' k r' hr') hle hle'
  · intro j r hr hle
    rw [System.put_shared, hclock] at hle
    rw [System.put_shared, hcompared]
    exact h.reads_unused j r (hreads' j r hr) hle
  · rw [System.put_shared, hcompared]
    exact h.compared_range
  · rw [System.put_shared, hcompared]
    exact h.compared_nodup
  · rw [System.put_shared, hcompared, hissued]
    exact h.compared_issued
  · intro e he hle
    rw [System.put_shared] at he hle
    rcases hcode with hnone | ⟨hsame, hcount⟩
    · rw [hnone] at he
      cases he
    · rw [hsame] at he
      rw [hclock] at hle
      have hn := h.numbered e he hle
      refine ⟨?_, ?_, ?_, ?_, ?_, ?_⟩
      · intro j a ha
        rw [System.put_shared, hcount]
        exact hn.ticket_counted j a (hticket' j a ha)
      · intro j k a ha ha'
        exact hn.ticket_unique j k a (hticket' j a ha) (hticket' k a ha')
      · intro j a ha k r hr
        exact hn.ticket_unread j a (hticket' j a ha) k r (hreads' k r hr)
      · intro j a ha
        rw [System.put_shared, hcompared]
        exact hn.ticket_unused j a (hticket' j a ha)
      · intro j r hr hissue
        rw [System.put_shared, hcount]
        exact hn.reads_counted j r (hreads' j r hr) hissue
      · intro a ha
        rw [System.put_shared, hcompared] at ha
        rw [System.put_shared, hcount]
        exact hn.compared_counted a ha

/-- A code is stored while nobody holds an attempt number. -/
theorem Counted.save [DecidableEq ι] (h : Counted s) (code : String) (expiresAt : ℕ)
    (hnobody : ∀ j, (s.proc j).ticket = none) (hticket : q.ticket = none)
    (hreads : q.reads = none) : Counted (s.put (s.shared.save code expiresAt) i q) := by
  have hnobody' : ∀ j, ∀ a, a ∉ ((s.put (s.shared.save code expiresAt) i q).proc j).ticket := by
    apply System.put_forall (P := fun _ (q : Stage) => ∀ a, a ∉ q.ticket)
    · rw [hticket]
      nofun
    · intro j _
      rw [hnobody j]
      nofun
  have hreads' : ∀ j, ∀ r ∈ ((s.put (s.shared.save code expiresAt) i q).proc j).reads,
      r ∈ (s.proc j).reads := by
    apply System.put_forall (P := fun j (q : Stage) => ∀ r ∈ q.reads, r ∈ (s.proc j).reads)
    · rw [hreads]
      nofun
    · exact fun _ _ _ hr => hr
  refine ⟨?_, ?_, ?_, ?_, ?_, h.compared_range, h.compared_nodup, ?_, ?_⟩
  · intro j a ha
    exact absurd ha (hnobody' j a)
  · intro j r hr
    exact h.reads_range j r (hreads' j r hr)
  · intro j r hr
    exact (h.reads_issued j r (hreads' j r hr)).trans (Nat.lt_succ_self _)
  · intro j k r hr r' hr'
    exact h.reads_unique j k r (hreads' j r hr) r' (hreads' k r' hr')
  · intro j r hr
    exact h.reads_unused j r (hreads' j r hr)
  · intro k hk
    exact h.compared_issued k ((Nat.le_succ _).trans hk)
  · intro e he _
    obtain rfl : _ = e := Option.some.inj he
    have hempty : s.shared.compared s.shared.issued = [] := h.compared_issued _ le_rfl
    refine ⟨?_, ?_, ?_, ?_, ?_, ?_⟩
    · intro j a ha
      exact absurd ha (hnobody' j a)
    · intro j k a ha
      exact absurd ha (hnobody' j a)
    · intro j a ha
      exact absurd ha (hnobody' j a)
    · intro j a ha
      exact absurd ha (hnobody' j a)
    · intro j r hr hissue
      exact absurd hissue (h.reads_issued j r (hreads' j r hr)).ne
    · intro a ha
      have ha' : a ∈ s.shared.compared s.shared.issued := ha
      rw [hempty] at ha'
      cases ha'

/-- An attempt is counted; the caller may get its number. -/
theorem Counted.incr [DecidableEq ι] (h : Counted s)
    (hticket : q.ticket = none ∨
      q.ticket = some (s.shared.count + 1) ∧ s.shared.count + 1 ≤ OTP_MAX_ATTEMPTS)
    (hreads : q.reads = none) : Counted (s.put s.shared.incr i q) := by
  have hticket' : ∀ j, ∀ a ∈ ((s.put s.shared.incr i q).proc j).ticket,
      j = i ∧ a = s.shared.count + 1 ∧ a ≤ OTP_MAX_ATTEMPTS ∨ j ≠ i ∧ a ∈ (s.proc j).ticket := by
    apply System.put_forall (P := fun j (q : Stage) => ∀ a ∈ q.ticket,
      j = i ∧ a = s.shared.count + 1 ∧ a ≤ OTP_MAX_ATTEMPTS ∨ j ≠ i ∧ a ∈ (s.proc j).ticket)
    · intro a ha
      rcases hticket with hnone | ⟨hsome, hmax⟩
      · rw [hnone] at ha
        cases ha
      · rw [hsome] at ha
        obtain rfl : _ = a := Option.some.inj ha
        exact .inl ⟨rfl, rfl, hmax⟩
    · exact fun j hj a ha => .inr ⟨hj, ha⟩
  have hreads' : ∀ j, ∀ r ∈ ((s.put s.shared.incr i q).proc j).reads, r ∈ (s.proc j).reads := by
    apply System.put_forall (P := fun j (q : Stage) => ∀ r ∈ q.reads, r ∈ (s.proc j).reads)
    · rw [hreads]
      nofun
    · exact fun _ _ _ hr => hr
  refine ⟨?_, ?_, ?_, ?_, ?_, h.compared_range, h.compared_nodup, h.compared_issued, ?_⟩
  · intro j a ha
    rcases hticket' j a ha with ⟨-, rfl, hmax⟩ | ⟨-, ha⟩
    · exact ⟨Nat.succ_pos _, hmax⟩
    · exact h.ticket_range j a ha
  · intro j r hr
    exact h.reads_range j r (hreads' j r hr)
  · intro j r hr
    exact h.reads_issued j r (hreads' j r hr)
  · intro j k r hr r' hr'
    exact h.reads_unique j k r (hreads' j r hr) r' (hreads' k r' hr')
  · intro j r hr
    exact h.reads_unused j r (hreads' j r hr)
  · intro e he hle
    have hn := h.numbered e he hle
    have hcount : s.shared.incr.count = s.shared.count + 1 := rfl
    refine ⟨?_, ?_, ?_, ?_, ?_, ?_⟩
    · intro j a ha
      rw [System.put_shared, hcount]
      rcases hticket' j a ha with ⟨-, rfl, -⟩ | ⟨-, ha⟩
      · exact le_rfl
      · exact (hn.ticket_counted j a ha).trans (Nat.le_succ _)
    · intro j k a ha ha'
      rcases hticket' j a ha with ⟨hj, heq, -⟩ | ⟨-, haj⟩
      · rcases hticket' k a ha' with ⟨hk, -, -⟩ | ⟨-, hak⟩
        · rw [hj, hk]
        · have := hn.ticket_counted k a hak
          omega
      · rcases hticket' k a ha' with ⟨-, heq, -⟩ | ⟨-, hak⟩
        · have := hn.ticket_counted j a haj
          omega
        · exact hn.ticket_unique j k a haj hak
    · intro j a ha k r hr hissue
      rcases hticket' j a ha with ⟨-, rfl, -⟩ | ⟨-, ha⟩
      · have := hn.reads_counted k r (hreads' k r hr) hissue
        omega
      · exact hn.ticket_unread j a ha k r (hreads' k r hr) hissue
    · intro j a ha hmem
      rcases hticket' j a ha with ⟨-, rfl, -⟩ | ⟨-, ha⟩
      · have := hn.compared_counted _ hmem
        omega
      · exact hn.ticket_unused j a ha hmem
    · intro j r hr hissue
      rw [System.put_shared, hcount]
      exact (hn.reads_counted j r (hreads' j r hr) hissue).trans (Nat.le_succ _)
    · intro a ha
      rw [System.put_shared, hcount]
      exact (hn.compared_counted a ha).trans (Nat.le_succ _)

/-- A call reads the code: its attempt number is for this code now. -/
theorem Counted.read [DecidableEq ι] (h : Counted s) (hissued : e.issue < s.shared.issued)
    (hcode : s.shared.code = some e) (hi : (s.proc i).ticket = some a) (hticket : q.ticket = none)
    (hreads : q.reads = some (a, e)) : Counted (s.put s.shared i q) := by
  have hticket' : ∀ j, ∀ b ∈ ((s.put s.shared i q).proc j).ticket,
      j ≠ i ∧ b ∈ (s.proc j).ticket := by
    apply System.put_forall (P := fun j (q : Stage) => ∀ b ∈ q.ticket,
      j ≠ i ∧ b ∈ (s.proc j).ticket)
    · rw [hticket]
      nofun
    · exact fun j hj b hb => ⟨hj, hb⟩
  have hreads' : ∀ j, ∀ r ∈ ((s.put s.shared i q).proc j).reads,
      j = i ∧ r = (a, e) ∨ j ≠ i ∧ r ∈ (s.proc j).reads := by
    apply System.put_forall (P := fun j (q : Stage) => ∀ r ∈ q.reads,
      j = i ∧ r = (a, e) ∨ j ≠ i ∧ r ∈ (s.proc j).reads)
    · intro r hr
      rw [hreads] at hr
      exact .inl ⟨rfl, (Option.some.inj hr).symm⟩
    · exact fun j hj r hr => .inr ⟨hj, hr⟩
  refine ⟨?_, ?_, ?_, ?_, ?_, h.compared_range, h.compared_nodup, h.compared_issued, ?_⟩
  · intro j b hb
    exact h.ticket_range j b (hticket' j b hb).2
  · intro j r hr
    rcases hreads' j r hr with ⟨-, rfl⟩ | ⟨-, hr⟩
    · exact h.ticket_range i a hi
    · exact h.reads_range j r hr
  · intro j r hr
    rcases hreads' j r hr with ⟨-, rfl⟩ | ⟨-, hr⟩
    · exact hissued
    · exact h.reads_issued j r hr
  · intro j k r hr r' hr' hle hle' hissue hnumber
    rcases hreads' j r hr with ⟨hj, rfl⟩ | ⟨-, hrj⟩
    · rcases hreads' k r' hr' with ⟨hk, -⟩ | ⟨-, hrk⟩
      · rw [hj, hk]
      · have hn := h.numbered e hcode hle
        exact absurd hnumber.symm (hn.ticket_unread i a hi k r' hrk hissue.symm)
    · rcases hreads' k r' hr' with ⟨-, rfl⟩ | ⟨-, hrk⟩
      · have hn := h.numbered e hcode hle'
        exact absurd hnumber (hn.ticket_unread i a hi j r hrj hissue)
      · exact h.reads_unique j k r hrj r' hrk hle hle' hissue hnumber
  · intro j r hr hle
    rcases hreads' j r hr with ⟨-, rfl⟩ | ⟨-, hr⟩
    · exact (h.numbered e hcode hle).ticket_unused i a hi
    · exact h.reads_unused j r hr hle
  · intro e' he' hle
    obtain rfl : e = e' := Option.some.inj (hcode.symm.trans he')
    have hn := h.numbered e hcode hle
    refine ⟨?_, ?_, ?_, ?_, ?_, hn.compared_counted⟩
    · intro j b hb
      exact hn.ticket_counted j b (hticket' j b hb).2
    · intro j k b hb hb'
      exact hn.ticket_unique j k b (hticket' j b hb).2 (hticket' k b hb').2
    · intro j b hb k r hr hissue
      obtain ⟨hj, hb⟩ := hticket' j b hb
      rcases hreads' k r hr with ⟨-, rfl⟩ | ⟨-, hr⟩
      · rintro rfl
        exact hj (hn.ticket_unique j i a hb hi)
      · exact hn.ticket_unread j b hb k r hr hissue
    · intro j b hb
      exact hn.ticket_unused j b (hticket' j b hb).2
    · intro j r hr hissue
      rcases hreads' j r hr with ⟨-, rfl⟩ | ⟨-, hr⟩
      · exact hn.ticket_counted i a hi
      · exact hn.reads_counted j r hr hissue

/-- A submission is compared under its attempt number, in time. -/
theorem Counted.compare [DecidableEq ι] (h : Counted s) (hi : (s.proc i).reads = some (a, e))
    (hle : s.shared.clock ≤ e.expiresAt) (hticket : q.ticket = none) (hreads : q.reads = none) :
    Counted (s.put (s.shared.compare e.issue a) i q) := by
  set z := s.shared.compare e.issue a with hz
  have hcompared : ∀ k b, b ∈ z.compared k → k = e.issue ∧ b = a ∨ b ∈ s.shared.compared k := by
    intro k b hb
    by_cases hk : k = e.issue
    · subst hk
      rw [hz, Shared.compare] at hb
      simp only [Function.update_self, List.mem_cons] at hb
      exact hb.imp_left fun hb => ⟨rfl, hb⟩
    · rw [hz, Shared.compare] at hb
      simp only [Function.update_of_ne hk] at hb
      exact .inr hb
  have hticket' : ∀ j, ∀ b ∈ ((s.put z i q).proc j).ticket, b ∈ (s.proc j).ticket := by
    apply System.put_forall (P := fun j (q : Stage) => ∀ b ∈ q.ticket, b ∈ (s.proc j).ticket)
    · rw [hticket]
      nofun
    · exact fun _ _ _ hb => hb
  have hreads' : ∀ j, ∀ r ∈ ((s.put z i q).proc j).reads, j ≠ i ∧ r ∈ (s.proc j).reads := by
    apply System.put_forall (P := fun j (q : Stage) => ∀ r ∈ q.reads,
      j ≠ i ∧ r ∈ (s.proc j).reads)
    · rw [hreads]
      nofun
    · exact fun j hj r hr => ⟨hj, hr⟩
  refine ⟨?_, ?_, ?_, ?_, ?_, ?_, ?_, ?_, ?_⟩
  · intro j b hb
    exact h.ticket_range j b (hticket' j b hb)
  · intro j r hr
    exact h.reads_range j r (hreads' j r hr).2
  · intro j r hr
    exact h.reads_issued j r (hreads' j r hr).2
  · intro j k r hr r' hr'
    exact h.reads_unique j k r (hreads' j r hr).2 r' (hreads' k r' hr').2
  · intro j r hr hle' hmem
    obtain ⟨hj, hr⟩ := hreads' j r hr
    rcases hcompared _ _ hmem with ⟨hissue, hnumber⟩ | hmem
    · exact hj (h.reads_unique j i r hr (a, e) hi hle' hle hissue hnumber)
    · exact h.reads_unused j r hr hle' hmem
  · intro k b hb
    rcases hcompared k b hb with ⟨-, rfl⟩ | hb
    · exact h.reads_range i (b, e) hi
    · exact h.compared_range k b hb
  · intro k
    by_cases hk : k = e.issue
    · subst hk
      rw [System.put_shared, hz, Shared.compare]
      simp only [Function.update_self, List.nodup_cons]
      exact ⟨h.reads_unused i (a, e) hi hle, h.compared_nodup _⟩
    · rw [System.put_shared, hz, Shared.compare]
      simp only [Function.update_of_ne hk]
      exact h.compared_nodup k
  · intro k hk
    have hne : k ≠ e.issue := ((h.reads_issued i (a, e) hi).trans_le hk).ne'
    rw [System.put_shared, hz, Shared.compare]
    simp only [Function.update_of_ne hne]
    exact h.compared_issued k hk
  · intro e' he' hle'
    have hn := h.numbered e' he' hle'
    refine ⟨?_, ?_, ?_, ?_, ?_, ?_⟩
    · intro j b hb
      exact hn.ticket_counted j b (hticket' j b hb)
    · intro j k b hb hb'
      exact hn.ticket_unique j k b (hticket' j b hb) (hticket' k b hb')
    · intro j b hb k r hr
      exact hn.ticket_unread j b (hticket' j b hb) k r (hreads' k r hr).2
    · intro j b hb hmem
      rcases hcompared _ _ hmem with ⟨hissue, rfl⟩ | hmem
      · exact hn.ticket_unread j b (hticket' j b hb) i (b, e) hi hissue.symm rfl
      · exact hn.ticket_unused j b (hticket' j b hb) hmem
    · intro j r hr hissue
      exact hn.reads_counted j r (hreads' j r hr).2 hissue
    · intro b hb
      rcases hcompared _ _ hb with ⟨hissue, rfl⟩ | hb
      · exact hn.reads_counted i (b, e) hi hissue.symm
      · exact hn.compared_counted b hb

theorem Counted.effect [DecidableEq ι] (h : Counted s) (ho : Once s.shared)
    (he : Effect s.shared (s.proc i) y q)
    (hsave : ∀ code expiresAt, s.proc i = .saving code expiresAt → ∀ j, (s.proc j).ticket = none)
    (hclear : s.proc i = .clearing → s.shared.code = none) : Counted (s.put y i q) := by
  cases he with
  | cooldown c _ hq => exact h.keep rfl rfl rfl (.inr ⟨rfl, rfl⟩) hq.ticket hq.reads
  | drop _ hq => exact h.keep rfl rfl rfl (.inl rfl) hq.ticket hq.reads
  | extend _ hq =>
    have hcount : s.shared.extend.count = s.shared.count := by
      unfold Shared.extend Shared.count
      cases s.shared.attempts <;> rfl
    exact h.keep rfl rfl rfl (.inr ⟨rfl, hcount⟩) hq.ticket hq.reads
  | draw => exact h.keep rfl rfl rfl (.inr ⟨rfl, rfl⟩) nofun nofun
  | save code expiresAt _ hfrom =>
    exact h.save code expiresAt (hsave code expiresAt hfrom) rfl rfl
  | incr _ hnumber hreads => exact h.incr hnumber hreads
  | read submittedCode attempts stored hfrom hcode =>
    exact h.read (ho.stored_issued stored hcode) hcode hfrom rfl rfl
  | compare attempts stored _ hfrom hle hticket hreads =>
    exact h.compare hfrom hle hticket hreads
  | accept => exact h.keep rfl rfl rfl (.inl rfl) nofun nofun
  | clear _ hfrom => exact h.keep rfl rfl rfl (.inl (hclear hfrom)) nofun nofun

theorem Counted.around (h : Counted s) (ht : Timed s) {c : Change}
    (hc : around s.shared c = some y) : Counted ⟨y, s.proc⟩ := by
  rcases around_cases hc with ⟨_, rfl⟩ | ⟨ms, -, rfl⟩ | rfl | ⟨⟨d, hd, hlt⟩, rfl⟩
  · refine ⟨h.ticket_range, h.reads_range, h.reads_issued, h.reads_unique, h.reads_unused,
      h.compared_range, h.compared_nodup, h.compared_issued, ?_⟩
    intro e he hle
    have hn := h.numbered e he hle
    exact ⟨hn.ticket_counted, hn.ticket_unique, hn.ticket_unread, hn.ticket_unused,
      hn.reads_counted, hn.compared_counted⟩
  · have hback : ∀ t, s.shared.clock + ms ≤ t → s.shared.clock ≤ t :=
      fun t => (Nat.le_add_right _ ms).trans
    refine ⟨h.ticket_range, h.reads_range, h.reads_issued, ?_, ?_, h.compared_range,
      h.compared_nodup, h.compared_issued, ?_⟩
    · intro i j r hr r' hr' hle hle'
      exact h.reads_unique i j r hr r' hr' (hback _ hle) (hback _ hle')
    · intro i r hr hle
      exact h.reads_unused i r hr (hback _ hle)
    · intro e he hle
      have hn := h.numbered e he (hback _ hle)
      exact ⟨hn.ticket_counted, hn.ticket_unique, hn.ticket_unread, hn.ticket_unused,
        hn.reads_counted, hn.compared_counted⟩
  · exact ⟨h.ticket_range, h.reads_range, h.reads_issued, h.reads_unique, h.reads_unused,
      h.compared_range, h.compared_nodup, h.compared_issued, nofun⟩
  · refine ⟨h.ticket_range, h.reads_range, h.reads_issued, h.reads_unique, h.reads_unused,
      h.compared_range, h.compared_nodup, h.compared_issued, ?_⟩
    intro e he hle
    -- the attempts outlive the code
    have houtlives := ht.outlives e he d hd
    exact absurd (hle.trans houtlives) (not_le.mpr hlt)

/-! ## Runs -/

/-- What every state of an undisturbed run keeps. -/
structure Sound (s : System ι Shared Stage) : Prop where
  once : Once s.shared
  inTime : InTime s
  timed : Timed s
  counted : Counted s

theorem sound_fresh (clock : ℕ) : Sound (fresh clock : System ι Shared Stage) where
  once := ⟨List.nodup_nil, nofun, nofun, nofun⟩
  inTime := ⟨nofun, nofun⟩
  timed := ⟨nofun, nofun, nofun⟩
  counted := ⟨nofun, nofun, nofun, nofun, nofun, nofun, fun _ => List.nodup_nil, fun _ _ => rfl,
    nofun⟩

theorem sound_of_reaches [DecidableEq ι] {clock : ℕ}
    (h : Reaches (rules ι) Undisturbed (fresh clock) s) : Sound s := by
  apply h.invariant (sound_fresh clock)
  · intro t i o x p hok ht hstep
    have heffect := step_effect hstep
    exact ⟨ht.once.effect heffect, ht.inTime.effect heffect, ht.timed.effect heffect hok.2,
      ht.counted.effect ht.once heffect hok.1 hok.2⟩
  · intro t c x hok ht hc
    exact ⟨ht.once.around hc, ht.inTime.around hok hc, ht.timed.around hc,
      ht.counted.around ht.timed hc⟩

/-- In an undisturbed run each issued code is accepted at most once, never after it expired, and
    compared against at most the maximum of submissions. -/
theorem codes_guarded_when_undisturbed [DecidableEq ι] {clock : ℕ}
    (h : Reaches (rules ι) Undisturbed (fresh clock) s) :
    (s.shared.accepted.map fun r => r.1.issue).Nodup ∧
    (∀ stored time, (stored, time) ∈ s.shared.accepted → time ≤ stored.expiresAt) ∧
    ∀ issue, (s.shared.compared issue).length ≤ OTP_MAX_ATTEMPTS := by
  have hs := sound_of_reaches h
  refine ⟨hs.once.accepted_once, fun stored time hr => hs.inTime.accepted _ hr, ?_⟩
  intro issue
  have hsubset : s.shared.compared issue ⊆ (List.range' 1 OTP_MAX_ATTEMPTS) := by
    intro a ha
    obtain ⟨hlow, hhigh⟩ := hs.counted.compared_range issue a ha
    rw [List.mem_range'_1]
    omega
  have hlength := (hs.counted.compared_nodup issue).subperm hsubset
  simpa using hlength.length_le

namespace Sample

/-- A code is issued and its owner submits it. -/
def consumed : System ℕ Shared Stage :=
  [.act 0 .issueOtp, .act 0 .ok, .act 0 (.randomInt 42), .act 0 .ok,
    .act 1 (.verifyAndConsumeOtp (codeOf 42)), .act 1 .ok, .act 1 .ok, .act 1 .ok, .act 1 .ok,
    .act 1 .ok, .act 1 .ok].foldl (rules ℕ).after (fresh 0)

theorem consumed_guarded : consumed.proc 1 = .done .verified ∧
    (consumed.shared.compared 0).length ≤ OTP_MAX_ATTEMPTS := by
  have hreaches : Reaches (rules ℕ) Undisturbed (fresh 0) consumed := by
    refine .of_admits ⟨⟨nofun, nofun⟩, ⟨nofun, nofun⟩, ⟨nofun, nofun⟩, ⟨?_, nofun⟩, ⟨nofun, nofun⟩,
      ⟨nofun, nofun⟩, ⟨nofun, nofun⟩, ⟨nofun, nofun⟩, ⟨nofun, nofun⟩, ⟨nofun, nofun⟩,
      ⟨nofun, fun _ => rfl⟩, trivial⟩
    intro code expiresAt _ j
    rcases j with _ | j <;> rfl
  exact ⟨rfl, (codes_guarded_when_undisturbed hreaches).2.2 0⟩

/-- The moves of a whole submission that fails the comparison. -/
def guess (i : ℕ) (submittedCode : String) (commands : ℕ) :
    List (Move ℕ Outcome Change) :=
  .act i (.verifyAndConsumeOtp submittedCode) :: List.replicate commands (.act i .ok)

/-- One submission has counted its attempt when the code is issued anew; five more follow. -/
def overrunMoves : List (Move ℕ Outcome Change) :=
  [.act 0 .issueOtp, .act 0 .ok, .act 0 (.randomInt 111111), .act 0 .ok] ++ guess 1 "" 2 ++
    [.world (.elapse 31000), .world (.expire .cooldown), .act 2 .issueOtp, .act 2 .ok,
      .act 2 (.randomInt 222222), .act 2 .ok, .act 1 .ok, .act 1 .ok] ++
    guess 3 "" 4 ++ guess 4 "" 3 ++ guess 5 "" 3 ++ guess 6 "" 3 ++ guess 7 "" 3

def overrun : System ℕ Shared Stage :=
  overrunMoves.foldl (rules ℕ).after (fresh 0)

/-- Six submissions are compared against the second code. -/
theorem overrun_compares_six : Reaches (rules ℕ) (fun _ _ => True) (fresh 0) overrun ∧
    (overrun.shared.compared 1).length = 6 ∧ OTP_MAX_ATTEMPTS < 6 :=
  ⟨.of_steps _, by decide +kernel, by decide⟩

end Sample

end NeuroWealth.WalletOtp
