import NeuroWealth.WhatsApp.Webhook

/-!
# Custody of a phone

A wallet stays what it is while no phone agrees to custody twice. An intent is executed only after
the phone's owner entered a live code and agreed; and no phone touches what belongs to another.
-/

namespace NeuroWealth.WhatsApp

open Interleaving
open Text (trimmed)

variable {ι φ : Type} [DecidableEq ι] [DecidableEq φ] {x y z : Shared φ} {p q : φ}
  {session session' : Option ConversationSession} {otp : Option OTPRecord} {trace : List Event}
  {record : OTPRecord} {code body : String} {time : ℕ} {n : Fin 899999} {e : Event}
  {m : Message φ} {job : Job φ} {newState : UserState} {wallet : Option UserWallet}

/-! ## What a phone knows -/

/-- The trace is lawful, a stored code is the outstanding one with its count of wrong attempts, and
    the session has not run ahead of the trace. -/
structure Grounded (session : Option ConversationSession) (otp : Option OTPRecord)
    (trace : List Event) : Prop where
  lawful : Lawful trace
  otp : ∀ record ∈ otp, (∃ generatedAt, outstanding trace = some (record.code, generatedAt) ∧
    record.expiresAt = generatedAt + OTP_TTL_MS) ∧ wrongSince trace = record.attempts
  consent : ∀ s ∈ session, s.state = .awaitingCustodialConsent → PhoneVerified trace
  verified : ∀ s ∈ session, s.state = .verified → Authorised trace

namespace Grounded

theorem empty : Grounded none none [] := ⟨trivial, nofun, nofun, nofun⟩

/-- A session in a state that asks nothing of the trace. -/
theorem anew (h : Grounded session otp trace) (s : ConversationSession)
    (hconsent : s.state ≠ .awaitingCustodialConsent) (hverified : s.state ≠ .verified) :
    Grounded (some s) otp trace := by
  refine ⟨h.lawful, h.otp, ?_, ?_⟩
  · intro s' hs' hstate
    obtain rfl := Option.some.inj hs'
    exact absurd hstate hconsent
  · intro s' hs' hstate
    obtain rfl := Option.some.inj hs'
    exact absurd hstate hverified

/-- A session refreshed in the state it was in. -/
theorem refresh (h : Grounded session otp trace) {s s' : ConversationSession} (hs : session = some s)
    (hstate : s'.state = s.state) : Grounded (some s') otp trace := by
  subst hs
  refine ⟨h.lawful, h.otp, ?_, ?_⟩
  · intro t ht hconsent
    obtain rfl := Option.some.inj ht
    exact h.consent s rfl (hstate ▸ hconsent)
  · intro t ht hverified
    obtain rfl := Option.some.inj ht
    exact h.verified s rfl (hstate ▸ hverified)

/-- A reset asks that the session is unverified. -/
theorem reset (h : Grounded session otp trace) (s : ConversationSession)
    (hstate : s.state = .unverified) : Grounded (some s) otp (.reset :: trace) := by
  refine ⟨h.lawful, h.otp, ?_, ?_⟩
  · intro s' hs' hconsent
    obtain rfl := Option.some.inj hs'
    rw [hstate] at hconsent
    cases hconsent
  · intro s' hs' hverified
    obtain rfl := Option.some.inj hs'
    rw [hstate] at hverified
    cases hverified

theorem delete (h : Grounded session otp trace) : Grounded session none trace :=
  ⟨h.lawful, nofun, h.consent, h.verified⟩

theorem generate (h : Grounded session otp trace) (code : String) (time : ℕ) :
    Grounded session (some ⟨code, time + OTP_TTL_MS, 0⟩) (.generated code time :: trace) := by
  refine ⟨h.lawful, ?_, h.consent, h.verified⟩
  intro record hrecord
  obtain rfl := Option.some.inj hrecord
  exact ⟨⟨time, rfl, rfl⟩, rfl⟩

/-- A wrong code is compared while attempts remain. -/
theorem wrong (h : Grounded session (some record) trace) (hattempts : record.attempts < MAX_ATTEMPTS) :
    Grounded session (some { record with attempts := record.attempts + 1 }) (.wrong :: trace) := by
  obtain ⟨hcode, hcount⟩ := h.otp record rfl
  refine ⟨⟨?_, h.lawful⟩, ?_, h.consent, h.verified⟩
  · rw [hcount]
    exact hattempts
  · intro record' hrecord'
    obtain rfl := Option.some.inj hrecord'
    refine ⟨hcode, ?_⟩
    rw [wrongSince, hcount]

/-- The stored code is live until it expires or is exhausted. -/
theorem live (h : Grounded session (some record) trace) (hattempts : record.attempts < MAX_ATTEMPTS)
    (htime : time ≤ record.expiresAt) : Live trace record.code time := by
  obtain ⟨⟨generatedAt, hcode, hexpires⟩, hcount⟩ := h.otp record rfl
  refine ⟨⟨generatedAt, hcode, ?_⟩, ?_⟩
  · omega
  · omega

/-- The right code is used up. -/
theorem accept (h : Grounded session otp trace) (hlive : Live trace code time) :
    Grounded session none (.accepted code time :: trace) :=
  ⟨h.lawful, nofun, fun _ _ _ => .inl hlive, fun s hs hverified => h.verified s hs hverified⟩

theorem agree (h : Grounded session otp trace) (hverified : PhoneVerified trace)
    (s : ConversationSession) : Grounded (some s) otp (.agreed :: trace) :=
  ⟨h.lawful, h.otp, fun _ _ _ => hverified, fun _ _ _ => .inl hverified⟩

theorem execute (h : Grounded session otp trace) (hauthorised : Authorised trace)
    (hwallet : wallet.isSome) : Grounded session otp (.executed wallet :: trace) :=
  ⟨⟨hwallet, hauthorised, h.lawful⟩, h.otp, h.consent, h.verified⟩

end Grounded

/-! ## Nothing of another phone is touched -/

/-- What belongs to a phone is the same in both states. -/
structure Untouched (q : φ) (x y : Shared φ) : Prop where
  sessions : y.sessions q = x.sessions q
  otpStore : y.otpStore q = x.otpStore q
  userWallets : y.userWallets q = x.userWallets q
  trace : y.trace q = x.trace q

namespace Untouched

omit [DecidableEq φ] in
theorem refl : Untouched q x x := ⟨rfl, rfl, rfl, rfl⟩

omit [DecidableEq φ] in
theorem trans (h : Untouched q x y) (h' : Untouched q y z) : Untouched q x z :=
  ⟨h'.sessions.trans h.sessions, h'.otpStore.trans h.otpStore,
    h'.userWallets.trans h.userWallets, h'.trace.trans h.trace⟩

theorem note (hne : q ≠ p) : Untouched q x (x.note p e) :=
  ⟨rfl, rfl, rfl, Function.update_of_ne hne _ _⟩

theorem setSession (hne : q ≠ p) (s : ConversationSession) : Untouched q x (x.setSession p s) :=
  ⟨Function.update_of_ne hne _ _, rfl, rfl, rfl⟩

theorem getSession (hne : q ≠ p) : Untouched q x (x.getSession p) := by
  unfold Shared.getSession
  split_ifs
  · exact (setSession hne _).trans (note hne)
  · exact setSession hne _

theorem updateState (hne : q ≠ p) : Untouched q x (x.updateState p newState) := by
  unfold Shared.updateState
  have hset := (getSession (x := x) hne).trans
    (setSession hne { x.session p with state := newState })
  split_ifs
  · exact hset.trans (note hne)
  · exact hset

theorem generateOTP (hne : q ≠ p) : Untouched q x (x.generateOTP p n) :=
  ⟨rfl, Function.update_of_ne hne _ _, rfl, Function.update_of_ne hne _ _⟩

theorem deleteOTP (hne : q ≠ p) : Untouched q x (x.deleteOTP p) :=
  ⟨rfl, Function.update_of_ne hne _ _, rfl, rfl⟩

theorem verifyOTP (hne : q ≠ p) : Untouched q x (x.verifyOTP p code).1 := by
  unfold Shared.verifyOTP
  split
  · exact refl
  · split_ifs
    · exact deleteOTP hne
    · exact deleteOTP hne
    · exact ⟨rfl, Function.update_of_ne hne _ _, rfl, Function.update_of_ne hne _ _⟩
    · exact (deleteOTP hne).trans (note hne)

theorem createCustodialWallet (hne : q ≠ p) : Untouched q x (x.createCustodialWallet p) :=
  ⟨rfl, rfl, Function.update_of_ne hne _ _, rfl⟩

theorem countMessage : Untouched q x (x.countMessage p) := by
  unfold Shared.countMessage
  split
  · exact ⟨rfl, rfl, rfl, rfl⟩
  · split_ifs <;> exact ⟨rfl, rfl, rfl, rfl⟩

omit [DecidableEq φ] in
theorem add : Untouched q x (x.add job) := by
  unfold Shared.add
  split_ifs <;> exact ⟨rfl, rfl, rfl, rfl⟩

theorem process (hne : q ≠ job.phoneHash) : Untouched q x (x.process job) := by
  unfold Shared.process
  split_ifs
  · exact (getSession hne).trans (note hne)
  · exact getSession hne

theorem greet (hne : q ≠ p) : Untouched q x (x.greet p body n) := by
  unfold Shared.greet
  split_ifs
  · exact (generateOTP hne).trans (updateState hne)
  · exact refl

theorem enterCode (hne : q ≠ p) : Untouched q x (x.enterCode p body) := by
  unfold Shared.enterCode
  split_ifs
  · exact (verifyOTP hne).trans (updateState hne)
  · exact verifyOTP hne
  · exact refl

theorem consent (hne : q ≠ p) : Untouched q x (x.consent p body) := by
  unfold Shared.consent
  split_ifs
  · exact refl
  · exact ((createCustodialWallet hne).trans (updateState hne)).trans (note hne)
  · exact updateState hne
  · exact refl

theorem dispatch (hne : q ≠ m.phoneHash) (state : UserState) :
    Untouched q x (x.dispatch m n state).1 := by
  cases state with
  | unverified =>
    simp only [Shared.dispatch]
    exact greet hne
  | awaitingOtp =>
    simp only [Shared.dispatch]
    exact enterCode hne
  | awaitingCustodialConsent =>
    simp only [Shared.dispatch]
    exact consent hne
  | verified =>
    simp only [Shared.dispatch]
    have hupdate : Untouched q x (x.updateState m.phoneHash .unverified) := updateState hne
    split_ifs
    · exact refl
    · exact hupdate

theorem handle (hne : q ≠ m.phoneHash) : Untouched q x (x.handle m n).1 :=
  (getSession hne).trans (dispatch hne _)

end Untouched

/-! ## What is grounded stays grounded -/

/-- The phone's session, code and trace agree. -/
def Shared.Sound (x : Shared φ) (p : φ) : Prop :=
  Grounded (x.sessions p) (x.otpStore p) (x.trace p)

/-- The phone's session was just read. -/
def Shared.Current (x : Shared φ) (p : φ) (s : ConversationSession) : Prop :=
  x.sessions p = some s ∧ s.lastMessageTime = x.clock

omit [DecidableEq φ] in
theorem Untouched.sound (h : Untouched q x y) (hsound : x.Sound q) : y.Sound q := by
  unfold Shared.Sound
  rw [h.sessions, h.otpStore, h.trace]
  exact hsound

omit [DecidableEq φ] in
theorem session_timedOut (h : x.TimedOut p) : x.session p = ⟨.unverified, x.clock, 0, x.clock⟩ := by
  unfold Shared.session
  cases hsession : x.sessions p with
  | none => rfl
  | some s => exact if_pos (h s hsession)

omit [DecidableEq φ] in
theorem session_live (h : ¬ x.TimedOut p) :
    ∃ s, x.sessions p = some s ∧ x.session p = { s with lastMessageTime := x.clock } := by
  cases hsession : x.sessions p with
  | none =>
    refine absurd ?_ h
    intro s hs
    rw [hsession] at hs
    cases hs
  | some s =>
    have hlive : ¬ x.clock - s.lastMessageTime > SESSION_TIMEOUT_MS := by
      intro hlate
      refine h ?_
      intro s' hs'
      rw [hsession] at hs'
      obtain rfl := Option.some.inj hs'
      exact hlate
    refine ⟨s, rfl, ?_⟩
    rw [Shared.session, hsession]
    exact if_neg hlive

@[simp]
theorem sessions_getSession : (x.getSession p).sessions p = some (x.session p) := by
  unfold Shared.getSession
  split_ifs <;> simp [Shared.setSession, Shared.note]

@[simp]
theorem otpStore_getSession : (x.getSession p).otpStore = x.otpStore := by
  unfold Shared.getSession
  split_ifs <;> rfl

@[simp]
theorem userWallets_getSession : (x.getSession p).userWallets = x.userWallets := by
  unfold Shared.getSession
  split_ifs <;> rfl

@[simp]
theorem clock_getSession : (x.getSession p).clock = x.clock := by
  unfold Shared.getSession
  split_ifs <;> rfl

omit [DecidableEq φ] in
theorem lastMessageTime_session : (x.session p).lastMessageTime = x.clock := by
  by_cases h : x.TimedOut p
  · rw [session_timedOut h]
  · obtain ⟨s, -, hs⟩ := session_live h
    rw [hs]

theorem Shared.Sound.getSession (h : x.Sound p) : (x.getSession p).Sound p := by
  unfold Shared.getSession
  split_ifs with htimeout
  · rw [session_timedOut htimeout]
    simpa [Shared.Sound, Shared.setSession, Shared.note] using h.reset _ rfl
  · obtain ⟨s, hs, hsession⟩ := session_live htimeout
    have hrefreshed : Grounded (some { s with lastMessageTime := x.clock }) (x.otpStore p)
        (x.trace p) := h.refresh hs rfl
    rw [hsession]
    simpa [Shared.Sound, Shared.setSession] using hrefreshed

theorem current_getSession : (x.getSession p).Current p (x.session p) :=
  ⟨sessions_getSession, by rw [lastMessageTime_session, clock_getSession]⟩

omit [DecidableEq φ] in
theorem Shared.Current.not_timedOut {s : ConversationSession} (h : x.Current p s) :
    ¬ x.TimedOut p := by
  intro htimeout
  have hlate : x.clock - s.lastMessageTime > SESSION_TIMEOUT_MS := htimeout s h.1
  rw [h.2, Nat.sub_self] at hlate
  exact absurd hlate (by decide)

omit [DecidableEq φ] in
theorem Shared.Current.session_eq {s : ConversationSession} (h : x.Current p s) :
    x.session p = s := by
  obtain ⟨s', hs', hsession⟩ := session_live h.not_timedOut
  obtain rfl := Option.some.inj (h.1.symm.trans hs')
  rw [hsession, ← h.2]

/-- A session that was just read is not reset by another read. -/
theorem updateState_current {s : ConversationSession} (h : x.Current p s) :
    x.updateState p newState =
      if newState = .unverified then (x.setSession p { s with state := newState }).note p .reset
      else x.setSession p { s with state := newState } := by
  rw [Shared.updateState, Shared.getSession, if_neg h.not_timedOut, h.session_eq]
  simp [Shared.setSession]

/-- A message in an unverified session. -/
theorem Shared.Sound.greet {s : ConversationSession} (h : x.Sound p) (hcurrent : x.Current p s) :
    (x.greet p body n).Sound p := by
  unfold Shared.greet
  split_ifs
  · have hcurrent' : (x.generateOTP p n).Current p s := hcurrent
    have hgenerated := h.generate (Shared.codeOf n) x.clock
    rw [updateState_current hcurrent']
    simpa [Shared.Sound, Shared.setSession, Shared.generateOTP, Shared.note] using
      hgenerated.anew { s with state := .awaitingOtp } nofun nofun
  · exact h

theorem sessions_verifyOTP : (x.verifyOTP p code).1.sessions = x.sessions := by
  unfold Shared.verifyOTP
  split
  · rfl
  · split_ifs <;> rfl

theorem clock_verifyOTP : (x.verifyOTP p code).1.clock = x.clock := by
  unfold Shared.verifyOTP
  split
  · rfl
  · split_ifs <;> rfl

theorem Shared.Current.verifyOTP {s : ConversationSession} (h : x.Current p s) :
    (x.verifyOTP p code).1.Current p s := by
  unfold Shared.Current
  rw [sessions_verifyOTP, clock_verifyOTP]
  exact h

/-- A verification that succeeds was of a live code. -/
theorem Shared.Sound.verifyOTP (h : x.Sound p) :
    (x.verifyOTP p code).1.Sound p ∧
      ((x.verifyOTP p code).2 = true → PhoneVerified ((x.verifyOTP p code).1.trace p)) := by
  unfold Shared.verifyOTP
  cases hotp : x.otpStore p with
  | none => exact ⟨h, nofun⟩
  | some record =>
    have hground : Grounded (x.sessions p) (some record) (x.trace p) := hotp ▸ h
    have hdeleted : (x.deleteOTP p).Sound p := by
      simpa [Shared.Sound, Shared.deleteOTP] using hground.delete
    simp only
    split_ifs with hexpired hexhausted hwrong
    · exact ⟨hdeleted, nofun⟩
    · exact ⟨hdeleted, nofun⟩
    · refine ⟨?_, nofun⟩
      simpa [Shared.Sound, Shared.note] using hground.wrong (not_le.mp hexhausted)
    · have hlive : Live (x.trace p) record.code x.clock :=
        hground.live (not_le.mp hexhausted) (not_lt.mp hexpired)
      constructor
      · simpa [Shared.Sound, Shared.note, Shared.deleteOTP] using hground.accept hlive
      · intro _
        simp only [Shared.note, Shared.deleteOTP, Function.update_self]
        exact .inl hlive

/-- A message while a code is awaited. -/
theorem Shared.Sound.enterCode {s : ConversationSession} (h : x.Sound p) (hcurrent : x.Current p s) :
    (x.enterCode p body).Sound p := by
  unfold Shared.enterCode
  have hverify : (x.verifyOTP p (digitsOf body)).1.Sound p ∧
      ((x.verifyOTP p (digitsOf body)).2 = true →
        PhoneVerified ((x.verifyOTP p (digitsOf body)).1.trace p)) := h.verifyOTP
  obtain ⟨hsound, hverified⟩ := hverify
  split_ifs with hlength hsuccess
  · have hcurrent' : (x.verifyOTP p (digitsOf body)).1.Current p s := hcurrent.verifyOTP
    rw [updateState_current hcurrent']
    have hconsent : Grounded (some { s with state := .awaitingCustodialConsent })
        ((x.verifyOTP p (digitsOf body)).1.otpStore p)
        ((x.verifyOTP p (digitsOf body)).1.trace p) :=
      ⟨hsound.lawful, hsound.otp, fun _ _ _ => hverified hsuccess, by
        intro s' hs' hstate
        obtain rfl := Option.some.inj hs'
        cases hstate⟩
    simpa [Shared.Sound, Shared.setSession] using hconsent
  · exact hsound
  · exact h

/-- A message while consent is awaited. -/
theorem Shared.Sound.consent {s : ConversationSession} (h : x.Sound p) (hcurrent : x.Current p s)
    (hstate : s.state = .awaitingCustodialConsent) : (x.consent p body).Sound p := by
  unfold Shared.consent
  have hverified : PhoneVerified (x.trace p) := Grounded.consent h s hcurrent.1 hstate
  split_ifs
  · exact h
  · have hcurrent' : (x.createCustodialWallet p).Current p s := hcurrent
    rw [updateState_current hcurrent']
    have hagreed := Grounded.agree h hverified { s with state := .verified }
    simpa [Shared.Sound, Shared.setSession, Shared.createCustodialWallet, Shared.note] using hagreed
  · rw [updateState_current hcurrent]
    have hreset := Grounded.reset h { s with state := .unverified } rfl
    simpa [Shared.Sound, Shared.setSession, Shared.note] using hreset
  · exact h

theorem Shared.Sound.dispatch {s : ConversationSession} (h : x.Sound m.phoneHash)
    (hcurrent : x.Current m.phoneHash s) : (x.dispatch m n s.state).1.Sound m.phoneHash := by
  cases hstate : s.state with
  | unverified =>
    simp only [Shared.dispatch]
    exact h.greet hcurrent
  | awaitingOtp =>
    simp only [Shared.dispatch]
    exact h.enterCode hcurrent
  | awaitingCustodialConsent =>
    simp only [Shared.dispatch]
    exact h.consent hcurrent hstate
  | verified =>
    simp only [Shared.dispatch]
    split_ifs
    · exact h
    · rw [updateState_current hcurrent]
      have hreset := Grounded.reset h { s with state := .unverified } rfl
      simpa [Shared.Sound, Shared.setSession, Shared.note] using hreset

theorem Shared.Sound.handle (h : x.Sound m.phoneHash) : (x.handle m n).1.Sound m.phoneHash :=
  h.getSession.dispatch current_getSession

/-- The worker executes an intent only in a session that an authorisation has verified. -/
theorem Shared.Sound.process (h : x.Sound job.phoneHash) : (x.process job).Sound job.phoneHash := by
  unfold Shared.process
  split_ifs with hcan
  · obtain ⟨hstate, hwallet⟩ : (x.session job.phoneHash).state = .verified ∧
        (x.userWallets job.phoneHash).isSome = true := by
      simpa [Shared.canExecuteIntent] using hcan
    have hsound := h.getSession
    have hauthorised := Grounded.verified hsound _ sessions_getSession hstate
    have hexecuted := Grounded.execute hsound hauthorised hwallet
    simpa [Shared.Sound, Shared.note] using hexecuted
  · exact h.getSession

/-! ## Every step -/

/-- A step of a request touches nothing of the phones that did not send it. -/
theorem untouched_step {r r' : Stage φ} {o : Outcome φ} (hstep : step x r o = some (y, r'))
    (hphone : r.phone ≠ some q) : Untouched q x y := by
  cases r with
  | idle =>
    cases o <;> simp only [step, Option.some.injEq, reduceCtorEq] at hstep
    rename_i sender body sid
    have hy := congrArg Prod.fst hstep
    simp only at hy
    rw [← hy]
    cases sender with
    | none => exact .refl
    | some p =>
      by_cases hsid : trimmed sid = ""
      · simp only [receive, if_pos hsid]
        exact .refl
      · simp only [receive, if_neg hsid]
        exact .countMessage
  | logging m =>
    have hne : q ≠ m.phoneHash := fun hsame => hphone (by rw [hsame]; rfl)
    cases o <;> simp only [step, Option.some.injEq, reduceCtorEq, Prod.mk.injEq] at hstep
    rw [← hstep.1]
    exact .handle hne
  | enqueuing job =>
    cases o <;> simp only [step, Option.some.injEq, reduceCtorEq, Prod.mk.injEq] at hstep
    · rw [← hstep.1]
      exact .add
    · rw [← hstep.1]
      split_ifs
      · exact .add
      · exact .refl
  | done => cases o <;> simp [step] at hstep

/-- A step of a request leaves every phone sound. -/
theorem sound_step {r r' : Stage φ} {o : Outcome φ} (hstep : step x r o = some (y, r'))
    (h : ∀ p, x.Sound p) (p : φ) : y.Sound p := by
  by_cases hphone : r.phone = some p
  · cases r with
    | logging m =>
      obtain rfl := Option.some.inj hphone
      cases o <;> simp only [step, Option.some.injEq, reduceCtorEq, Prod.mk.injEq] at hstep
      rw [← hstep.1]
      exact (h m.phoneHash).handle
    | idle => cases hphone
    | enqueuing job => cases hphone
    | done => cases hphone
  · exact (untouched_step hstep hphone).sound (h p)

theorem sound_around {c : Change} (haround : around x c = some y) (h : ∀ p, x.Sound p) (p : φ) :
    y.Sound p := by
  cases c with
  | elapse milliseconds =>
    obtain rfl := Option.some.inj haround
    exact h p
  | work position =>
    obtain ⟨job, hget, rfl⟩ := Option.map_eq_some_iff.mp haround
    by_cases hsame : p = job.phoneHash
    · subst hsame
      exact Shared.Sound.process (x := { x with jobs := x.jobs.eraseIdx position })
        (h job.phoneHash)
    · exact (Untouched.process (x := { x with jobs := x.jobs.eraseIdx position }) hsame).sound (h p)

theorem sound_of_reaches {clock : ℕ} {s : System ι (Shared φ) (Stage φ)}
    {ok : System ι (Shared φ) (Stage φ) → Move ι (Outcome φ) Change → Prop}
    (h : Reaches (rules ι φ) ok (fresh clock) s) : ∀ p, s.shared.Sound p := by
  apply Reaches.invariant h (fun _ => Grounded.empty)
  · intro t i o x r _ ht hstep
    exact sound_step hstep ht
  · intro t c x _ ht haround
    exact sound_around haround ht

/-- In every run every intent was executed for a phone whose owner had entered a live code and
    agreed since the last reset, and the handling of a message touches nothing of another phone. -/
theorem executed_only_when_authorised {clock : ℕ} {s : System ι (Shared φ) (Stage φ)}
    (h : Reaches (rules ι φ) (fun _ _ => True) (fresh clock) s) :
    (∀ p, Lawful (s.shared.trace p)) ∧
      ∀ i outcome q, (s.proc i).phone ≠ some q →
        Untouched q s.shared ((rules ι φ).after s (.act i outcome)).shared := by
  constructor
  · intro p
    exact (sound_of_reaches h p).lawful
  · intro i outcome q hphone
    rw [Rules.after]
    split
    · rename_i x r hstep
      exact untouched_step hstep hphone
    · exact .refl

/-! ## Wallets -/

@[simp]
theorem userWallets_updateState : (x.updateState p newState).userWallets = x.userWallets := by
  unfold Shared.updateState
  split_ifs <;> simp [Shared.setSession, Shared.note]

theorem userWallets_verifyOTP : (x.verifyOTP p code).1.userWallets = x.userWallets := by
  unfold Shared.verifyOTP
  split
  · rfl
  · split_ifs <;> rfl

/-- Only an agreement to custody writes a wallet. -/
theorem userWallets_dispatch {state : UserState}
    (h : ¬ (state = .awaitingCustodialConsent ∧ Shared.Agrees m.messageBody)) :
    (x.dispatch m n state).1.userWallets = x.userWallets := by
  cases state with
  | unverified =>
    simp only [Shared.dispatch, Shared.greet]
    split_ifs
    · rw [userWallets_updateState]
      rfl
    · rfl
  | awaitingOtp =>
    simp only [Shared.dispatch, Shared.enterCode]
    split_ifs
    · rw [userWallets_updateState, userWallets_verifyOTP]
    · exact userWallets_verifyOTP
    · rfl
  | awaitingCustodialConsent =>
    have hrefused : ¬ Shared.Agrees m.messageBody := fun hagrees => h ⟨rfl, hagrees⟩
    simp only [Shared.dispatch, Shared.consent, if_neg hrefused]
    split_ifs
    · rfl
    · exact userWallets_updateState
    · rfl
  | verified =>
    simp only [Shared.dispatch]
    split_ifs
    · rfl
    · exact userWallets_updateState

theorem userWallets_around {c : Change} (haround : around x c = some y) :
    y.userWallets = x.userWallets := by
  cases c with
  | elapse milliseconds =>
    obtain rfl := Option.some.inj haround
    rfl
  | work position =>
    obtain ⟨job, -, rfl⟩ := Option.map_eq_some_iff.mp haround
    unfold Shared.process
    split_ifs
    · exact userWallets_getSession
    · exact userWallets_getSession

/-- In a run in which no phone with a wallet agrees to custody again, a stored wallet stays. -/
theorem wallet_kept_when_undisturbed {s t : System ι (Shared φ) (Stage φ)}
    (h : Reaches (rules ι φ) Undisturbed s t) {p : φ} {wallet : UserWallet}
    (hwallet : s.shared.userWallets p = some wallet) : t.shared.userWallets p = some wallet := by
  apply Reaches.invariant h hwallet
  · intro u i o x r hok hu hstep
    rw [System.put_shared]
    by_cases hphone : (u.proc i).phone = some p
    · cases hproc : u.proc i with
      | logging m =>
        rw [hproc] at hphone hstep
        obtain rfl := Option.some.inj hphone
        cases o <;>
          simp only [rules, step, Option.some.injEq, reduceCtorEq, Prod.mk.injEq] at hstep
        rw [← hstep.1, Shared.handle, userWallets_dispatch, userWallets_getSession]
        · exact hu
        · rintro ⟨hstate, hagrees⟩
          refine hok ?_
          rw [hproc]
          exact ⟨hstate, hagrees, Option.isSome_of_eq_some hu⟩
      | idle =>
        rw [hproc] at hphone
        cases hphone
      | enqueuing job =>
        rw [hproc] at hphone
        cases hphone
      | done =>
        rw [hproc] at hphone
        cases hphone
    · rw [(untouched_step hstep hphone).userWallets]
      exact hu
  · intro u c x _ hu haround
    rw [userWallets_around haround]
    exact hu

namespace Sample

/-- Phone 7 receives the code 999998, enters it and agrees. -/
def onboarding (i : ℕ) : List (Move ℕ (Outcome ℕ) Change) :=
  [.act i (.receive (some 7) " hi " "a"), .act i (.logged (Fin.last 899998)),
    .act (i + 1) (.receive (some 7) "code 999 998" "b"), .act (i + 1) (.logged (Fin.last 899998)),
    .act (i + 2) (.receive (some 7) "AGREE" "c"), .act (i + 2) (.logged (Fin.last 899998))]

/-- An intent of phone 7 is enqueued and executed. -/
def intent : List (Move ℕ (Outcome ℕ) Change) :=
  [.act 3 (.receive (some 7) "balance" "d"), .act 3 (.logged (Fin.last 899998)), .act 3 .added,
    .world (.work 0)]

def start : System ℕ (Shared ℕ) (Stage ℕ) := fresh 1000

def served : System ℕ (Shared ℕ) (Stage ℕ) :=
  (onboarding 0 ++ intent).foldl (rules ℕ ℕ).after start

/-- The session times out and the phone walks through the onboarding again. -/
def replaced : System ℕ (Shared ℕ) (Stage ℕ) :=
  (onboarding 0 ++ .world (.elapse 900001) :: onboarding 3).foldl (rules ℕ ℕ).after start

theorem intent_authorised : Event.executed (some ⟨0, 1000⟩) ∈ served.shared.trace 7 ∧
    (∀ p, Lawful (served.shared.trace p)) ∧
      ∀ i outcome q, (served.proc i).phone ≠ some q →
        Untouched q served.shared ((rules ℕ ℕ).after served (.act i outcome)).shared :=
  ⟨by decide +kernel, executed_only_when_authorised (.of_steps _)⟩

theorem wallet_kept : served.shared.userWallets 7 = some ⟨0, 1000⟩ := by
  have hboarded : Reaches (rules ℕ ℕ) Undisturbed
      ((onboarding 0).foldl (rules ℕ ℕ).after start) served := by
    rw [served, List.foldl_append]
    exact .of_admits (by decide +kernel)
  exact wallet_kept_when_undisturbed hboarded (by decide +kernel)

/-- The second wallet takes the place of the first. -/
theorem wallet_replaced :
    ((onboarding 0).foldl (rules ℕ ℕ).after start).shared.userWallets 7 = some ⟨0, 1000⟩ ∧
      replaced.shared.userWallets 7 = some ⟨1, 901001⟩ := by
  constructor <;> decide +kernel

end Sample

end NeuroWealth.WhatsApp
