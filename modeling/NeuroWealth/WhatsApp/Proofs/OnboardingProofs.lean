import NeuroWealth.WhatsApp.Proofs.WebhookProofs

/-!
# The way back into onboarding

A phone whose code is dead is told to send "hi" for a new one. It gets one as long as its session is
unverified; a session that still waits for the dead code answers nothing but codes.
-/

namespace NeuroWealth.WhatsApp

open Interleaving
open Text (trimmed)

variable {ι φ : Type} [DecidableEq ι] [DecidableEq φ] {x y : Shared φ} {p q : φ}
  {s : ConversationSession} {code body : String} {n : Fin 899999} {m : Message φ} {job : Job φ}
  {newState : UserState}

namespace Shared

variable (x : Shared φ) (p : φ)

/-- The phone has a code that has not expired and has attempts left. -/
def LiveOtp : Prop :=
  ∃ record ∈ x.otpStore p, x.clock ≤ record.expiresAt ∧ record.attempts < MAX_ATTEMPTS
deriving Decidable

/-- The phone is not verified yet and has no live code. -/
def Lost : Prop :=
  ((x.session p).state = .unverified ∨ (x.session p).state = .awaitingOtp) ∧ ¬ x.LiveOtp p

/-- The message "hi" of the phone stores a fresh code, whatever number is drawn for it. -/
def Issues : Prop :=
  ∀ sid n, trimmed sid ≠ "" → ∃ y r z r',
    step x .idle (.receive (some p) "hi" sid) = some (y, r) ∧
      step y r (.logged n) = some (z, r') ∧
      z.otpStore p = some ⟨codeOf n, x.clock + OTP_TTL_MS, 0⟩

/-- Rate limit permitting, every lost phone gets a fresh code. -/
def NoDeadEnd : Prop := ∀ p, x.Lost p → x.withinRateLimit p = true → x.Issues p

/-- No code expires in the time that passes, unless the session that waits for it has timed out by
    the end. -/
def OutlastsCodes (milliseconds : ℕ) : Prop :=
  ∀ p, ∀ session ∈ x.sessions p, session.state = .awaitingOtp →
    x.clock + milliseconds - session.lastMessageTime ≤ SESSION_TIMEOUT_MS →
    ∀ record ∈ x.otpStore p, x.clock + milliseconds ≤ record.expiresAt

/-- A phone that waits for a code has a live one. -/
def AwaitsLive : Prop := (x.session p).state = .awaitingOtp → x.LiveOtp p

end Shared

/-- The message is a wrong code, and the last one its phone may send. -/
def Stage.Exhausts (x : Shared φ) : Stage φ → Prop
  | logging m => (x.session m.phoneHash).state = .awaitingOtp ∧
      (digitsOf m.messageBody).length = 6 ∧ ∃ record ∈ x.otpStore m.phoneHash,
        record.code ≠ trimmed (digitsOf m.messageBody) ∧ MAX_ATTEMPTS ≤ record.attempts + 1
  | _ => False

instance (x : Shared φ) : (r : Stage φ) → Decidable (r.Exhausts x)
  | .logging m => inferInstanceAs (Decidable (_ ∧ _ ∧ ∃ record ∈ x.otpStore m.phoneHash, _))
  | .idle => isFalse id
  | .enqueuing _ => isFalse id
  | .done => isFalse id

/-- No code that a phone waits for dies: it neither expires nor is its last attempt a wrong code. -/
def KeepsCodes (s : System ι (Shared φ) (Stage φ)) : Move ι (Outcome φ) Change → Prop
  | .act i (.logged _) => ¬ (s.proc i).Exhausts s.shared
  | .world (.elapse milliseconds) => s.shared.OutlastsCodes milliseconds
  | _ => True

/-! ## What an operation leaves as it is -/

theorem clock_updateState : (x.updateState p newState).clock = x.clock := by
  unfold Shared.updateState
  split_ifs <;> simp [Shared.setSession, Shared.note]

theorem otpStore_updateState : (x.updateState p newState).otpStore = x.otpStore := by
  unfold Shared.updateState
  split_ifs <;> simp [Shared.setSession, Shared.note]

theorem clock_countMessage : (x.countMessage p).clock = x.clock := by
  unfold Shared.countMessage
  split
  · rfl
  · split_ifs <;> rfl

omit [DecidableEq φ] in
theorem clock_add : (x.add job).clock = x.clock := by
  unfold Shared.add
  split_ifs <;> rfl

theorem clock_process : (x.process job).clock = x.clock := by
  unfold Shared.process
  split_ifs
  · exact clock_getSession
  · exact clock_getSession

theorem clock_dispatch {state : UserState} : (x.dispatch m n state).1.clock = x.clock := by
  cases state with
  | unverified =>
    simp only [Shared.dispatch, Shared.greet]
    split_ifs
    · exact clock_updateState
    · rfl
  | awaitingOtp =>
    simp only [Shared.dispatch, Shared.enterCode]
    split_ifs
    · exact clock_updateState.trans clock_verifyOTP
    · exact clock_verifyOTP
    · rfl
  | awaitingCustodialConsent =>
    simp only [Shared.dispatch, Shared.consent]
    split_ifs
    · rfl
    · exact clock_updateState
    · exact clock_updateState
    · rfl
  | verified =>
    simp only [Shared.dispatch]
    split_ifs
    · rfl
    · exact clock_updateState

/-- No time passes while a request takes a step. -/
theorem clock_step {r r' : Stage φ} {o : Outcome φ} (hstep : step x r o = some (y, r')) :
    y.clock = x.clock := by
  cases r with
  | idle =>
    cases o <;> simp only [step, Option.some.injEq, reduceCtorEq] at hstep
    rename_i sender body sid
    have hy := congrArg Prod.fst hstep
    simp only at hy
    rw [← hy]
    unfold receive
    split
    · rfl
    · split_ifs
      · rfl
      · exact clock_countMessage
      · exact clock_countMessage
  | logging m =>
    cases o <;> simp only [step, Option.some.injEq, reduceCtorEq, Prod.mk.injEq] at hstep
    rw [← hstep.1, Shared.handle, clock_dispatch, clock_getSession]
  | enqueuing job =>
    cases o <;> simp only [step, Option.some.injEq, reduceCtorEq, Prod.mk.injEq] at hstep
    · rw [← hstep.1, clock_add]
    · rw [← hstep.1]
      split_ifs
      · exact clock_add
      · rfl
  | done => cases o <;> simp [step] at hstep

/-! ## Sessions that were just read -/

theorem Shared.Current.updateState (h : x.Current p s) :
    (x.updateState p newState).Current p { s with state := newState } := by
  refine ⟨?_, h.2.trans clock_updateState.symm⟩
  rw [updateState_current h]
  split_ifs <;> simp [Shared.setSession, Shared.note]

omit [DecidableEq φ] in
/-- A phone that waits for no code asks for none. -/
theorem Shared.Current.awaitsLive (h : x.Current p s) (hs : s.state ≠ .awaitingOtp) :
    x.AwaitsLive p := by
  intro hawaiting
  rw [h.session_eq] at hawaiting
  exact absurd hawaiting hs

omit [DecidableEq φ] in
theorem Untouched.awaitsLive (h : Untouched q x y) (hclock : y.clock = x.clock)
    (hx : x.AwaitsLive q) : y.AwaitsLive q := by
  unfold Shared.AwaitsLive Shared.LiveOtp Shared.session
  rw [h.sessions, h.otpStore, hclock]
  exact hx

/-! ## Every step -/

omit [DecidableEq φ] in
theorem Shared.LiveOtp.of_fresh (h : x.otpStore p = some ⟨code, x.clock + OTP_TTL_MS, 0⟩) :
    x.LiveOtp p :=
  ⟨_, h, Nat.le_add_right _ _, Nat.zero_lt_succ _⟩

/-- A wrong code leaves the stored one alive, if it was not the last attempt. -/
theorem liveOtp_verifyOTP (hlive : x.LiveOtp p) (hfails : (x.verifyOTP p code).2 ≠ true)
    (hkept : ∀ record ∈ x.otpStore p, record.code ≠ trimmed code →
      record.attempts + 1 < MAX_ATTEMPTS) : (x.verifyOTP p code).1.LiveOtp p := by
  obtain ⟨record, hrecord, htime, hattempts⟩ := hlive
  have hstored : x.otpStore p = some record := hrecord
  unfold Shared.verifyOTP at hfails ⊢
  simp only [hstored] at hfails ⊢
  rw [if_neg (not_lt.mpr htime), if_neg (not_le.mpr hattempts)] at hfails ⊢
  by_cases hcode : record.code ≠ trimmed code
  · rw [if_pos hcode]
    exact ⟨_, Function.update_self .., htime, hkept record hrecord hcode⟩
  · rw [if_neg hcode] at hfails
    exact absurd rfl hfails

theorem Shared.AwaitsLive.handle (h : x.AwaitsLive m.phoneHash)
    (hkept : ¬ (Stage.logging m).Exhausts x) : (x.handle m n).1.AwaitsLive m.phoneHash := by
  have hcurrent : (x.getSession m.phoneHash).Current m.phoneHash (x.session m.phoneHash) :=
    current_getSession
  unfold Shared.handle
  cases hstate : (x.session m.phoneHash).state with
  | unverified =>
    simp only [Shared.dispatch, Shared.greet]
    split_ifs
    · intro _
      have hstored : ((x.getSession m.phoneHash).generateOTP m.phoneHash n).otpStore m.phoneHash =
          some ⟨Shared.codeOf n, (x.getSession m.phoneHash).clock + OTP_TTL_MS, 0⟩ :=
        Function.update_self ..
      apply Shared.LiveOtp.of_fresh
      rw [otpStore_updateState, clock_updateState]
      exact hstored
    · exact hcurrent.awaitsLive (by simp [hstate])
  | awaitingOtp =>
    have hlive : (x.getSession m.phoneHash).LiveOtp m.phoneHash := by
      unfold Shared.LiveOtp
      rw [otpStore_getSession, clock_getSession]
      exact h hstate
    simp only [Shared.dispatch, Shared.enterCode]
    split_ifs with hlength hsuccess
    · exact hcurrent.verifyOTP.updateState.awaitsLive (by simp)
    · intro _
      refine liveOtp_verifyOTP hlive hsuccess fun record hrecord hcode => ?_
      rw [otpStore_getSession] at hrecord
      by_contra hlast
      exact hkept ⟨hstate, hlength, record, hrecord, hcode, not_lt.mp hlast⟩
    · exact fun _ => hlive
  | awaitingCustodialConsent =>
    have hwaits : (x.getSession m.phoneHash).AwaitsLive m.phoneHash :=
      hcurrent.awaitsLive (by simp [hstate])
    simp only [Shared.dispatch, Shared.consent]
    split_ifs
    · exact hwaits
    · have hcreated : ((x.getSession m.phoneHash).createCustodialWallet m.phoneHash).Current
          m.phoneHash (x.session m.phoneHash) := hcurrent
      have hagreed : (((x.getSession m.phoneHash).createCustodialWallet m.phoneHash).updateState
          m.phoneHash .verified).AwaitsLive m.phoneHash := hcreated.updateState.awaitsLive (by simp)
      exact hagreed
    · have hdeclined : ((x.getSession m.phoneHash).updateState m.phoneHash .unverified).AwaitsLive
          m.phoneHash := hcurrent.updateState.awaitsLive (by simp)
      exact hdeclined
    · exact hwaits
  | verified =>
    simp only [Shared.dispatch]
    split_ifs
    · exact hcurrent.awaitsLive (by simp [hstate])
    · have hreset : ((x.getSession m.phoneHash).updateState m.phoneHash .unverified).AwaitsLive
          m.phoneHash := hcurrent.updateState.awaitsLive (by simp)
      exact hreset

theorem awaitsLive_step {r r' : Stage φ} {o : Outcome φ} (hstep : step x r o = some (y, r'))
    (hkept : ∀ n, o = .logged n → ¬ r.Exhausts x) (h : ∀ p, x.AwaitsLive p) (p : φ) :
    y.AwaitsLive p := by
  by_cases hphone : r.phone = some p
  · cases r with
    | logging m =>
      obtain rfl := Option.some.inj hphone
      cases o <;> simp only [step, Option.some.injEq, reduceCtorEq, Prod.mk.injEq] at hstep
      rw [← hstep.1]
      exact (h m.phoneHash).handle (hkept _ rfl)
    | idle => cases hphone
    | enqueuing job => cases hphone
    | done => cases hphone
  · exact (untouched_step hstep hphone).awaitsLive (clock_step hstep) (h p)

omit [DecidableEq φ] in
theorem awaitsLive_elapse {milliseconds : ℕ} (hkept : x.OutlastsCodes milliseconds)
    (h : x.AwaitsLive p) : Shared.AwaitsLive { x with clock := x.clock + milliseconds } p := by
  intro hawaiting
  have hlive : ¬ Shared.TimedOut { x with clock := x.clock + milliseconds } p := by
    intro htimeout
    rw [session_timedOut htimeout] at hawaiting
    cases hawaiting
  obtain ⟨s, hs, hsession⟩ := session_live hlive
  have hstored : x.sessions p = some s := hs
  have hstate : s.state = .awaitingOtp := by
    rw [hsession] at hawaiting
    exact hawaiting
  have hrecent : x.clock + milliseconds - s.lastMessageTime ≤ SESSION_TIMEOUT_MS := by
    by_contra hlate
    refine hlive fun s' hs' => ?_
    obtain rfl := Option.some.inj (hs.symm.trans hs')
    exact not_le.mp hlate
  have hbefore : (x.session p).state = .awaitingOtp := by
    have hsooner : ¬ x.clock - s.lastMessageTime > SESSION_TIMEOUT_MS := by omega
    unfold Shared.session
    simp only [hstored, if_neg hsooner, hstate]
  obtain ⟨record, hrecord, -, hattempts⟩ := h hbefore
  exact ⟨record, hrecord, hkept p s hstored hstate hrecent record hrecord, hattempts⟩

theorem awaitsLive_process (h : ∀ p, x.AwaitsLive p) (p : φ) : (x.process job).AwaitsLive p := by
  by_cases hsame : p = job.phoneHash
  · subst hsame
    have hcurrent : (x.getSession job.phoneHash).Current job.phoneHash (x.session job.phoneHash) :=
      current_getSession
    have hread : (x.getSession job.phoneHash).AwaitsLive job.phoneHash := by
      intro hawaiting
      rw [hcurrent.session_eq] at hawaiting
      unfold Shared.LiveOtp
      rw [otpStore_getSession, clock_getSession]
      exact h job.phoneHash hawaiting
    unfold Shared.process
    split_ifs
    · exact hread
    · exact hread
  · exact (Untouched.process hsame).awaitsLive clock_process (h p)

theorem awaitsLive_of_reaches {clock : ℕ} {t : System ι (Shared φ) (Stage φ)}
    (h : Reaches (rules ι φ) KeepsCodes (fresh clock) t) : ∀ p, t.shared.AwaitsLive p := by
  apply Reaches.invariant h
  · intro p hawaiting
    cases hawaiting
  · intro t i o x r hok ht hstep
    refine awaitsLive_step hstep ?_ ht
    rintro n rfl
    exact hok
  · intro t c x hok ht haround
    cases c with
    | elapse milliseconds =>
      obtain rfl := Option.some.inj haround
      exact fun p => awaitsLive_elapse hok (ht p)
    | work position =>
      obtain ⟨job, -, rfl⟩ := Option.map_eq_some_iff.mp haround
      exact awaitsLive_process (x := { t.shared with jobs := t.shared.jobs.eraseIdx position }) ht

/-! ## The message "hi" -/

theorem session_countMessage : (x.countMessage p).session q = x.session q := by
  have hsame : Untouched q x (x.countMessage p) := .countMessage
  unfold Shared.session
  rw [hsame.sessions, clock_countMessage]

theorem step_hi {sid : String} (hsid : trimmed sid ≠ "") (hlimit : x.withinRateLimit p = true) :
    step x .idle (.receive (some p) "hi" sid) =
      some (x.countMessage p, .logging ⟨p, trimmed "hi", trimmed sid⟩) := by
  simp only [step, receive, if_neg hsid, if_pos hlimit]

theorem issues_of_unverified (hstate : (x.session p).state = .unverified)
    (hlimit : x.withinRateLimit p = true) : x.Issues p := by
  intro sid n hsid
  refine ⟨_, _, _, _, step_hi hsid hlimit, rfl, ?_⟩
  have hgreeting : normalise (trimmed "hi") ∈ ["hi", "hello", "start", ""] := by decide +kernel
  have hstate' : ((x.countMessage p).session p).state = .unverified := by
    rw [session_countMessage]
    exact hstate
  simp only [Shared.handle, hstate', Shared.dispatch, Shared.greet, if_pos hgreeting]
  rw [otpStore_updateState]
  have hclock : ((x.countMessage p).getSession p).clock = x.clock := by
    rw [clock_getSession, clock_countMessage]
  rw [← hclock]
  exact Function.update_self ..

/-- To a session that waits for a code, "hi" is no code. -/
theorem not_issues_of_awaiting (hstate : (x.session p).state = .awaitingOtp)
    (hdead : ¬ x.LiveOtp p) (hlimit : x.withinRateLimit p = true) : ¬ x.Issues p := by
  intro hissues
  have hsid : trimmed "a" ≠ "" := by decide +kernel
  obtain ⟨y, r, z, r', hreceived, hlogged, hstored⟩ := hissues "a" ⟨0, by decide⟩ hsid
  rw [step_hi hsid hlimit] at hreceived
  obtain ⟨rfl, rfl⟩ := Prod.mk.inj (Option.some.inj hreceived)
  have hstate' : ((x.countMessage p).session p).state = .awaitingOtp := by
    rw [session_countMessage]
    exact hstate
  have hlength : (digitsOf (trimmed "hi")).length ≠ 6 := by decide +kernel
  have hz := (Prod.mk.inj (Option.some.inj hlogged)).1
  simp only [Shared.handle, hstate', Shared.dispatch, Shared.enterCode, if_neg hlength] at hz
  have hsame : Untouched p x (x.countMessage p) := .countMessage
  rw [← hz, otpStore_getSession, hsame.otpStore] at hstored
  exact hdead (.of_fresh hstored)

theorem Shared.Lost.issues_iff (h : x.Lost p) (hlimit : x.withinRateLimit p = true) :
    x.Issues p ↔ (x.session p).state = .unverified := by
  constructor
  · intro hissues
    rcases h.1 with hstate | hstate
    · exact hstate
    · exact absurd hissues (not_issues_of_awaiting hstate h.2 hlimit)
  · intro hstate
    exact issues_of_unverified hstate hlimit

/-- In every run in which no code dies that a phone waits for, no state is a dead end. In any state
    "hi" gets a lost phone a fresh code exactly when its session is unverified. -/
theorem onboarding_without_dead_end :
    (∀ (clock : ℕ) (t : System ι (Shared φ) (Stage φ)),
      Reaches (rules ι φ) KeepsCodes (fresh clock) t → t.shared.NoDeadEnd) ∧
    ∀ (x : Shared φ) (p : φ), x.Lost p → x.withinRateLimit p = true →
      (x.Issues p ↔ (x.session p).state = .unverified) := by
  refine ⟨fun clock t h p hlost hlimit => ?_, fun x p => Shared.Lost.issues_iff⟩
  rcases hlost.1 with hstate | hstate
  · exact issues_of_unverified hstate hlimit
  · exact absurd (awaitsLive_of_reaches h p hstate) hlost.2

namespace Sample

/-- Phone 7 asks for a code and lets it expire. -/
def lapse : List (Move ℕ (Outcome ℕ) Change) :=
  [.act 0 (.receive (some 7) "hi" "a"), .act 0 (.logged (Fin.last 899998)), .world (.elapse 360000)]

def expired : System ℕ (Shared ℕ) (Stage ℕ) := lapse.foldl (rules ℕ ℕ).after start

/-- "hi" brings no new code. -/
theorem expired_dead_end : ¬ ∀ t : System ℕ (Shared ℕ) (Stage ℕ),
    Reaches (rules ℕ ℕ) (fun _ _ => True) (fresh 1000) t → t.shared.NoDeadEnd := by
  intro hclaim
  have hawaiting : (expired.shared.session 7).state = .awaitingOtp := by decide +kernel
  have hdead : ¬ expired.shared.LiveOtp 7 := by decide +kernel
  have hlimit : expired.shared.withinRateLimit 7 = true := by decide +kernel
  have hreached : Reaches (rules ℕ ℕ) (fun _ _ => True) (fresh 1000) expired := .of_steps _
  exact not_issues_of_awaiting hawaiting hdead hlimit
    (hclaim expired hreached 7 ⟨.inr hawaiting, hdead⟩ hlimit)

/-- Phone 7 asks for a code and sends a wrong one; two attempts are left. -/
def slip : List (Move ℕ (Outcome ℕ) Change) :=
  [.world (.elapse 5), .act 0 (.receive (some 7) "hi" "a"), .act 0 (.logged (Fin.last 899998)),
    .act 1 (.receive (some 7) "123456" "b"), .act 1 (.logged (Fin.last 899998))]

def mistaken : System ℕ (Shared ℕ) (Stage ℕ) := slip.foldl (rules ℕ ℕ).after start

theorem mistaken_open : mistaken.shared.NoDeadEnd := by
  have hreached : Reaches (rules ℕ ℕ) KeepsCodes start (slip.foldl (rules ℕ ℕ).after start) := by
    refine .of_admits ⟨nofun, trivial, ?_, trivial, ?_, trivial⟩
    · show ¬ Stage.Exhausts _ _
      decide +kernel
    · show ¬ Stage.Exhausts _ _
      decide +kernel
  exact onboarding_without_dead_end.1 1000 mistaken hreached

end Sample

end NeuroWealth.WhatsApp
