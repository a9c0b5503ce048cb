import NeuroWealth.Agent.LoginNonce

/-!
# Tokens only for the latest nonce of the address

A stored nonce is the one issued last for its address and was consumed by no request, so the request
whose script deletes it is the only one that ever holds it.
-/

namespace NeuroWealth.LoginNonce

open Interleaving

variable {ι : Type} [DecidableEq ι] {s : System ι (Shared ι) Stage} {x : Shared ι} {i j : ι}
  {p : Stage} {address nonce other storedNonce : String} {r r' : VerifyRequest}
  {log : List (Event ι)} {time : ℕ}

/-! ## The challenge message -/

theorem buildChallengeMessage_inj {nonce' : String}
    (h : buildChallengeMessage address nonce = buildChallengeMessage address nonce') :
    nonce = nonce' := by
  unfold buildChallengeMessage at h
  exact (String.append_right_inj _).mp ((String.append_left_inj _).mp h)

/-! ## The log and the keys -/

/-- Every nonce is issued once, for one address; a stored one is the latest of its address and was
    not consumed. -/
structure Clean (x : Shared ι) : Prop where
  drawn : ∀ address nonce time, .issued address nonce time ∈ x.log → nonce ∈ x.drawn
  one_address : ∀ address other nonce time time', .issued address nonce time ∈ x.log →
    .issued other nonce time' ∈ x.log → address = other
  issued : ∀ j address nonce time, .consumed j address nonce time ∈ x.log →
    ∃ issuedAt, .issued address nonce issuedAt ∈ x.log
  stored : ∀ address stored, x.nonces address = some stored →
    (∃ issuedAt, latest address x.log = some (stored.nonce, issuedAt) ∧
      stored.expires = issuedAt + NONCE_TTL_S * 1000) ∧
    ∀ j other time, .consumed j other stored.nonce time ∉ x.log

omit [DecidableEq ι] in
theorem mem_of_latest (h : latest address log = some (nonce, time)) :
    .issued address nonce time ∈ log := by
  induction log with
  | nil => cases h
  | cons e older ih =>
    cases e with
    | issued other nonce' time' =>
      rw [latest] at h
      split_ifs at h with hsame
      · obtain ⟨rfl, rfl⟩ := Prod.mk.inj (Option.some.inj h)
        rw [hsame]
        exact List.mem_cons_self
      · exact List.mem_cons_of_mem _ (ih h)
    | consumed j other nonce' time' => exact List.mem_cons_of_mem _ (ih h)

omit [DecidableEq ι] in
/-- A fresh nonce is stored. -/
theorem Clean.set (h : Clean x) (hdrawn : nonce ∈ x.drawn)
    (hnew : ∀ other time, .issued other nonce time ∉ x.log) : Clean (x.set address nonce) := by
  have hmem : ∀ {e : Event ι}, e ∈ (x.set address nonce).log →
      e = .issued address nonce x.clock ∨ e ∈ x.log := fun he => List.mem_cons.mp he
  have hold : ∀ {e : Event ι}, e ∈ x.log → e ∈ (x.set address nonce).log :=
    fun he => List.mem_cons_of_mem _ he
  refine ⟨?_, ?_, ?_, ?_⟩
  · intro other nonce' time he
    rcases hmem he with heq | he
    · obtain ⟨-, rfl, -⟩ := Event.issued.inj heq
      exact hdrawn
    · exact h.drawn _ _ _ he
  · intro a b nonce' time time' ha hb
    rcases hmem ha with heq | hbefore
    · obtain ⟨rfl, rfl, -⟩ := Event.issued.inj heq
      rcases hmem hb with heq' | hbefore'
      · exact (Event.issued.inj heq').1.symm
      · exact absurd hbefore' (hnew _ _)
    · rcases hmem hb with heq' | hbefore'
      · obtain ⟨rfl, rfl, -⟩ := Event.issued.inj heq'
        exact absurd hbefore (hnew _ _)
      · exact h.one_address _ _ _ _ _ hbefore hbefore'
  · intro j a nonce' time he
    rcases hmem he with heq | he
    · cases heq
    · obtain ⟨issuedAt, hissued⟩ := h.issued _ _ _ _ he
      exact ⟨issuedAt, hold hissued⟩
  · intro a stored hstored
    by_cases hsame : a = address
    · subst hsame
      simp only [Shared.set, Function.update_self] at hstored
      obtain rfl := Option.some.inj hstored
      refine ⟨⟨x.clock, ?_, rfl⟩, ?_⟩
      · simp [Shared.set, latest]
      · intro j other time he
        rcases hmem he with heq | he
        · cases heq
        · obtain ⟨issuedAt, hissued⟩ := h.issued _ _ _ _ he
          exact hnew _ _ hissued
    · simp only [Shared.set, Function.update_of_ne hsame] at hstored
      obtain ⟨⟨issuedAt, hlatest, hexpires⟩, hunconsumed⟩ := h.stored a stored hstored
      refine ⟨⟨issuedAt, ?_, hexpires⟩, ?_⟩
      · rw [Shared.set, latest, if_neg (fun heq => hsame heq.symm)]
        exact hlatest
      · intro j other time he
        rcases hmem he with heq | he
        · cases heq
        · exact hunconsumed _ _ _ he

omit [DecidableEq ι] in
/-- What the script gets is the latest nonce of the address, in time and not consumed before. -/
theorem Clean.get (h : Clean x) (hget : x.get address = some nonce) :
    (∃ issuedAt, latest address x.log = some (nonce, issuedAt) ∧
      x.clock ≤ issuedAt + NONCE_TTL_S * 1000) ∧
    ∀ j other time, .consumed j other nonce time ∉ x.log := by
  obtain ⟨stored, hstored, rfl⟩ := Option.map_eq_some_iff.mp hget
  obtain ⟨hpresent, hlive⟩ := Option.filter_eq_some_iff.mp hstored
  obtain ⟨⟨issuedAt, hlatest, hexpires⟩, hunconsumed⟩ := h.stored address stored hpresent
  refine ⟨⟨issuedAt, hlatest, ?_⟩, hunconsumed⟩
  rw [← hexpires]
  exact of_decide_eq_true hlive

omit [DecidableEq ι] in
/-- The script deletes the nonce it gets. -/
theorem Clean.del (h : Clean x) (hget : x.get address = some nonce) :
    Clean (x.del i address nonce) := by
  have hmem : ∀ {e : Event ι}, e ∈ (x.del i address nonce).log →
      e = .consumed i address nonce x.clock ∨ e ∈ x.log := fun he => List.mem_cons.mp he
  have hold : ∀ {e : Event ι}, e ∈ x.log → e ∈ (x.del i address nonce).log :=
    fun he => List.mem_cons_of_mem _ he
  have hissued : ∀ {a n t}, Event.issued a n t ∈ (x.del i address nonce).log →
      Event.issued a n t ∈ x.log := by
    intro a n t he
    rcases hmem he with heq | he
    · cases heq
    · exact he
  obtain ⟨⟨issuedAt, hlatest, -⟩, -⟩ := h.get hget
  refine ⟨?_, ?_, ?_, ?_⟩
  · intro a n t he
    exact h.drawn _ _ _ (hissued he)
  · intro a b n t t' ha hb
    exact h.one_address _ _ _ _ _ (hissued ha) (hissued hb)
  · intro j a n t he
    rcases hmem he with heq | he
    · obtain ⟨-, rfl, rfl, -⟩ := Event.consumed.inj heq
      exact ⟨issuedAt, hold (mem_of_latest hlatest)⟩
    · obtain ⟨t', ht'⟩ := h.issued _ _ _ _ he
      exact ⟨t', hold ht'⟩
  · intro a stored hstored
    by_cases hsame : a = address
    · subst hsame
      simp [Shared.del] at hstored
    · simp only [Shared.del, Function.update_of_ne hsame] at hstored
      obtain ⟨⟨t, hlast, hexpires⟩, hunconsumed⟩ := h.stored a stored hstored
      refine ⟨⟨t, hlast, hexpires⟩, ?_⟩
      intro j other time he
      rcases hmem he with heq | he
      · obtain ⟨-, rfl, hnonce, -⟩ := Event.consumed.inj heq
        have ha := mem_of_latest hlast
        rw [hnonce] at ha
        exact hsame (h.one_address _ _ _ _ _ ha (mem_of_latest hlatest))
      · exact hunconsumed _ _ _ he

/-! ## Requests -/

namespace Stage

/-- The nonce that a challenge is about to store. -/
def pending : Stage → Option String
  | setting _ nonce => some nonce
  | _ => none

/-- The request that has passed the verification. -/
def passed : Stage → Option VerifyRequest
  | storing r => some r
  | granted r => some r
  | _ => none

end Stage

/-- Pending nonces are fresh and each with one request; requests past the verification are proper. -/
structure Sound (s : System ι (Shared ι) Stage) : Prop where
  clean : Clean s.shared
  pending_drawn : ∀ i, ∀ nonce ∈ (s.proc i).pending, nonce ∈ s.shared.drawn
  pending_new : ∀ i, ∀ nonce ∈ (s.proc i).pending, ∀ address time,
    .issued address nonce time ∉ s.shared.log
  pending_once : ∀ i j, ∀ nonce ∈ (s.proc i).pending, nonce ∈ (s.proc j).pending → i = j
  proper : ∀ i, ∀ r ∈ (s.proc i).passed, Proper s.shared.log i r

omit [DecidableEq ι] in
theorem sound_fresh (clock : ℕ) : Sound (fresh clock : System ι (Shared ι) Stage) :=
  ⟨⟨nofun, nofun, nofun, nofun⟩, nofun, nofun, nofun, nofun⟩

omit [DecidableEq ι] in
theorem Proper.issue (h : Proper log i r) :
    Proper (.issued address nonce time :: log) i r := by
  obtain ⟨⟨newer, older, t, issuedAt, hlog, hlatest, htime⟩, honly, hsigned⟩ := h
  refine ⟨⟨_ :: newer, older, t, issuedAt, by rw [hlog]; rfl, hlatest, htime⟩, ?_, hsigned⟩
  intro j other t' he
  rcases List.mem_cons.mp he with heq | hold
  · cases heq
  · exact honly j other t' hold

omit [DecidableEq ι] in
/-- The consumption of a nonce that was not consumed before. -/
theorem Proper.consume (h : Proper log i r)
    (hnew : ∀ k other t, .consumed k other nonce t ∉ log) :
    Proper (.consumed j address nonce time :: log) i r := by
  obtain ⟨⟨newer, older, t, issuedAt, hlog, hlatest, htime⟩, honly, hsigned⟩ := h
  have hmem : Event.consumed i r.address r.nonce t ∈ log := by
    rw [hlog]
    simp
  refine ⟨⟨_ :: newer, older, t, issuedAt, by rw [hlog]; rfl, hlatest, htime⟩, ?_, hsigned⟩
  intro k other t' he
  rcases List.mem_cons.mp he with heq | hold
  · obtain ⟨-, -, hnonce, -⟩ := Event.consumed.inj heq
    rw [hnonce] at hmem
    exact absurd hmem (hnew _ _ _)
  · exact honly k other t' hold

/-- A request moves on; it holds no nonce that it did not hold. -/
theorem Sound.move (h : Sound s) (hpending : p.pending = none)
    (hpassed : ∀ r ∈ p.passed, r ∈ (s.proc i).passed) : Sound (s.put s.shared i p) := by
  have hpending' : ∀ j, ∀ nonce ∈ ((s.put s.shared i p).proc j).pending,
      nonce ∈ (s.proc j).pending := by
    refine System.put_forall (P := fun j (q : Stage) => ∀ nonce ∈ q.pending,
      nonce ∈ (s.proc j).pending) ?_ (fun _ _ _ hn => hn)
    intro nonce hnonce
    rw [hpending] at hnonce
    cases hnonce
  refine ⟨h.clean, ?_, ?_, ?_, ?_⟩
  · intro j nonce hnonce
    exact h.pending_drawn j nonce (hpending' j nonce hnonce)
  · intro j nonce hnonce
    exact h.pending_new j nonce (hpending' j nonce hnonce)
  · intro j k nonce hj hk
    exact h.pending_once j k nonce (hpending' j nonce hj) (hpending' k nonce hk)
  · refine System.put_forall (P := fun j (q : Stage) => ∀ r ∈ q.passed,
      Proper s.shared.log j r) ?_ (fun j _ r hr => h.proper j r hr)
    intro r hr
    exact h.proper i r (hpassed r hr)

/-- A nonce is drawn. -/
theorem Sound.draw (h : Sound s) (hnew : nonce ∉ s.shared.drawn) :
    Sound (s.put { s.shared with drawn := nonce :: s.shared.drawn } i (.setting address nonce)) := by
  have hother : ∀ j, j ≠ i → ∀ n ∈ (s.proc j).pending, n ≠ nonce := by
    rintro j - n hn rfl
    exact hnew (h.pending_drawn j n hn)
  refine ⟨⟨?_, h.clean.one_address, h.clean.issued, h.clean.stored⟩, ?_, ?_, ?_, ?_⟩
  · intro a n t he
    exact List.mem_cons_of_mem _ (h.clean.drawn a n t he)
  · refine System.put_forall (P := fun j (q : Stage) => ∀ n ∈ q.pending,
      n ∈ nonce :: s.shared.drawn) ?_ ?_
    · intro n hn
      rw [Option.some.inj hn]
      exact List.mem_cons_self
    · intro j _ n hn
      exact List.mem_cons_of_mem _ (h.pending_drawn j n hn)
  · refine System.put_forall (P := fun j (q : Stage) => ∀ n ∈ q.pending, ∀ a t,
      .issued a n t ∉ s.shared.log) ?_ (fun j _ n hn => h.pending_new j n hn)
    intro n hn a t he
    obtain rfl := Option.some.inj hn
    exact hnew (h.clean.drawn a _ t he)
  · intro j k n hj hk
    by_cases hji : j = i <;> by_cases hki : k = i
    · rw [hji, hki]
    · rw [hji, System.put_self] at hj
      rw [System.put_other hki] at hk
      exact absurd (Option.some.inj hj).symm (hother k hki n hk)
    · rw [System.put_other hji] at hj
      rw [hki, System.put_self] at hk
      exact absurd (Option.some.inj hk).symm (hother j hji n hj)
    · rw [System.put_other hji] at hj
      rw [System.put_other hki] at hk
      exact h.pending_once j k n hj hk
  · exact System.put_forall (P := fun j (q : Stage) => ∀ r ∈ q.passed,
      Proper s.shared.log j r) nofun (fun j _ r hr => h.proper j r hr)

/-- The nonce of a challenge is stored. -/
theorem Sound.set (h : Sound s) (hi : s.proc i = .setting address nonce) (hpending : p.pending = none)
    (hpassed : p.passed = none) : Sound (s.put (s.shared.set address nonce) i p) := by
  have hmine : nonce ∈ (s.proc i).pending := by
    rw [hi]
    rfl
  have hpending' : ∀ j, ∀ n ∈ ((s.put (s.shared.set address nonce) i p).proc j).pending,
      n ∈ (s.proc j).pending ∧ j ≠ i := by
    intro j n hn
    by_cases hj : j = i
    · rw [hj, System.put_self, hpending] at hn
      cases hn
    · rw [System.put_other hj] at hn
      exact ⟨hn, hj⟩
  refine ⟨h.clean.set (h.pending_drawn i nonce hmine) (h.pending_new i nonce hmine), ?_, ?_, ?_, ?_⟩
  · intro j n hn
    exact h.pending_drawn j n (hpending' j n hn).1
  · intro j n hn a t he
    obtain ⟨hold, hj⟩ := hpending' j n hn
    rcases List.mem_cons.mp he with heq | hbefore
    · obtain ⟨-, rfl, -⟩ := Event.issued.inj heq
      exact hj (h.pending_once j i _ hold hmine)
    · exact h.pending_new j n hold a t hbefore
  · intro j k n hj hk
    exact h.pending_once j k n (hpending' j n hj).1 (hpending' k n hk).1
  · refine System.put_forall (P := fun j (q : Stage) => ∀ r ∈ q.passed,
      Proper (s.shared.set address nonce).log j r) ?_ ?_
    · intro r hr
      rw [hpassed] at hr
      cases hr
    · intro j _ r hr
      exact (h.proper j r hr).issue

/-- The script deletes a nonce; what the request goes on with, it has verified. -/
theorem Sound.del (h : Sound s) (hget : s.shared.get address = some nonce)
    (hpending : p.pending = none) (hpassed : ∀ r ∈ p.passed, r.address = address ∧ r.nonce = nonce ∧
      r.signature = .of r.address (buildChallengeMessage r.address r.nonce)) :
    Sound (s.put (s.shared.del i address nonce) i p) := by
  obtain ⟨⟨issuedAt, hlatest, htime⟩, hunconsumed⟩ := h.clean.get hget
  have hpending' : ∀ j, ∀ n ∈ ((s.put (s.shared.del i address nonce) i p).proc j).pending,
      n ∈ (s.proc j).pending := by
    refine System.put_forall (P := fun j (q : Stage) => ∀ n ∈ q.pending,
      n ∈ (s.proc j).pending) ?_ (fun _ _ _ hn => hn)
    intro n hn
    rw [hpending] at hn
    cases hn
  refine ⟨h.clean.del hget, ?_, ?_, ?_, ?_⟩
  · intro j n hn
    exact h.pending_drawn j n (hpending' j n hn)
  · intro j n hn a t he
    rcases List.mem_cons.mp he with heq | hold
    · cases heq
    · exact h.pending_new j n (hpending' j n hn) a t hold
  · intro j k n hj hk
    exact h.pending_once j k n (hpending' j n hj) (hpending' k n hk)
  · refine System.put_forall (P := fun j (q : Stage) => ∀ r ∈ q.passed,
      Proper (s.shared.del i address nonce).log j r) ?_ ?_
    · intro r hr
      obtain ⟨rfl, rfl, hsigned⟩ := hpassed r hr
      refine ⟨⟨[], s.shared.log, _, issuedAt, rfl, hlatest, htime⟩, ?_, hsigned⟩
      intro j other t he
      rcases List.mem_cons.mp he with heq | hold
      · obtain ⟨hj, hother, -, -⟩ := Event.consumed.inj heq
        exact ⟨hj, hother⟩
      · exact absurd hold (hunconsumed _ _ _)
    · intro j _ r hr
      exact (h.proper j r hr).consume hunconsumed

/-! ## Runs -/

omit [DecidableEq ι] in
theorem pending_verified : (verified r storedNonce).pending = none := by
  unfold verified
  split_ifs <;> rfl

omit [DecidableEq ι] in
/-- A request passes the verification with the stored nonce and a signature of its own. -/
theorem passed_verified (h : r' ∈ (verified r storedNonce).passed) :
    r' = r ∧ r.nonce = storedNonce ∧
      r.signature = .of r.address (buildChallengeMessage r.address r.nonce) := by
  unfold verified at h
  split_ifs at h with hnonce hsigned
  · cases h
  · exact ⟨(Option.some.inj h).symm, (not_not.mp hnonce).symm, of_decide_eq_true hsigned⟩
  · cases h

theorem sound_step {o : Outcome} {y : Shared ι} (h : Sound s)
    (hstep : step i s.shared (s.proc i) o = some (y, p)) : Sound (s.put y i p) := by
  cases hi : s.proc i with
  | idle =>
    rw [hi] at hstep
    cases o <;> simp only [step, Option.some.injEq, Prod.mk.injEq, reduceCtorEq] at hstep
    · obtain ⟨rfl, rfl⟩ := hstep
      refine h.move ?_ ?_
      · split_ifs <;> rfl
      · split_ifs <;> nofun
    · obtain ⟨rfl, rfl⟩ := hstep
      refine h.move ?_ ?_
      · split
        · split_ifs <;> rfl
        · rfl
      · split
        · split_ifs <;> nofun
        · nofun
  | drawing address =>
    rw [hi] at hstep
    cases o <;> simp only [step, reduceCtorEq] at hstep
    rename_i nonce
    split_ifs at hstep with hdrawn
    obtain ⟨rfl, rfl⟩ := Prod.mk.inj (Option.some.inj hstep)
    exact h.draw hdrawn
  | setting address nonce =>
    rw [hi] at hstep
    cases o <;> simp only [step, Option.some.injEq, Prod.mk.injEq, reduceCtorEq] at hstep
    · obtain ⟨rfl, rfl⟩ := hstep
      exact h.set hi rfl rfl
    · obtain ⟨rfl, rfl⟩ := hstep
      split_ifs
      · exact h.set hi rfl rfl
      · exact h.move rfl nofun
  | consuming r =>
    rw [hi] at hstep
    cases o <;> simp only [step, reduceCtorEq] at hstep
    · cases hget : s.shared.get r.address with
      | none =>
        rw [hget] at hstep
        obtain ⟨rfl, rfl⟩ := Prod.mk.inj (Option.some.inj hstep)
        exact h.move rfl nofun
      | some storedNonce =>
        rw [hget] at hstep
        obtain ⟨rfl, rfl⟩ := Prod.mk.inj (Option.some.inj hstep)
        refine h.del hget pending_verified ?_
        intro r' hr'
        obtain ⟨rfl, hnonce, hsigned⟩ := passed_verified hr'
        exact ⟨rfl, hnonce, hsigned⟩
    · obtain ⟨rfl, rfl⟩ := Prod.mk.inj (Option.some.inj hstep)
      cases hget : s.shared.get r.address with
      | none => exact h.move rfl nofun
      | some storedNonce =>
        simp only
        split_ifs
        · exact h.del hget rfl nofun
        · exact h.move rfl nofun
  | storing r =>
    rw [hi] at hstep
    cases o <;> simp only [step, Option.some.injEq, Prod.mk.injEq, reduceCtorEq] at hstep
    · obtain ⟨rfl, rfl⟩ := hstep
      refine h.move rfl ?_
      intro r' hr'
      rw [hi]
      exact hr'
    · obtain ⟨rfl, rfl⟩ := hstep
      exact h.move rfl nofun
  | done response => cases o <;> simp [hi, step] at hstep
  | granted r => cases o <;> simp [hi, step] at hstep

omit [DecidableEq ι] in
theorem sound_elapse (h : Sound s) (milliseconds : ℕ) :
    Sound ⟨{ s.shared with clock := s.shared.clock + milliseconds }, s.proc⟩ :=
  ⟨⟨h.clean.drawn, h.clean.one_address, h.clean.issued, h.clean.stored⟩, h.pending_drawn,
    h.pending_new, h.pending_once, h.proper⟩

/-- In every run a request that returns tokens is proper; no two of them have one nonce, and none has
    the signature of another address or nonce. -/
theorem tokens_only_for_own_nonce {clock : ℕ} {s : System ι (Shared ι) Stage}
    (h : Reaches (rules ι) (fun _ _ => True) (fresh clock) s) :
    (∀ i r, s.proc i = .granted r → Proper s.shared.log i r) ∧
    (∀ i j r r', s.proc i = .granted r → s.proc j = .granted r' → r.nonce = r'.nonce → i = j) ∧
    ∀ i j r r', s.proc i = .granted r → s.proc j = .granted r' → r.signature = r'.signature →
      r.address = r'.address ∧ r.nonce = r'.nonce := by
  have hsound : Sound s := by
    apply Reaches.invariant h (sound_fresh clock)
    · intro t i o x p _ ht hstep
      exact sound_step ht hstep
    · intro t milliseconds x _ ht hworld
      obtain rfl := Option.some.inj hworld
      exact sound_elapse ht milliseconds
  have hproper : ∀ i r, s.proc i = .granted r → Proper s.shared.log i r := by
    intro i r hi
    apply hsound.proper i r
    rw [hi]
    rfl
  refine ⟨hproper, ?_, ?_⟩
  · intro i j r r' hi hj hnonce
    obtain ⟨newer, older, time, -, hlog, -, -⟩ := (hproper j r' hj).consumed
    have hmem : Event.consumed j r'.address r.nonce time ∈ s.shared.log := by
      rw [hlog, hnonce]
      simp
    exact ((hproper i r hi).only j _ _ hmem).1.symm
  · intro i j r r' hi hj hsignature
    have hsame := (hproper i r hi).signed.symm.trans (hsignature.trans (hproper j r' hj).signed)
    obtain ⟨haddress, hmessage⟩ := Signature.of.inj hsame
    rw [haddress] at hmessage
    exact ⟨haddress, buildChallengeMessage_inj hmessage⟩

namespace Sample

def wallet : String := "GBRPYHIL2CI3FNQ4BXLFMNDLFJUNPU2HY3ZMFSHONUCEOASW7QC7OX2H"

/-- A challenge and a verification of it. -/
def login : List (Move ℕ Outcome ℕ) :=
  [.act 0 (.challenge wallet), .act 0 (.randomBytes "a1"), .act 0 .ok,
    .act 1 (.verify wallet "a1" (some (.of wallet (buildChallengeMessage wallet "a1")))),
    .act 1 .ok, .act 1 .ok]

def loggedIn : System ℕ (Shared ℕ) Stage := login.foldl (rules ℕ).after (fresh 1000)

theorem tokens_for_login :
    (loggedIn.proc 1).passed.map VerifyRequest.nonce = some "a1" ∧
    (∀ i r, loggedIn.proc i = .granted r → Proper loggedIn.shared.log i r) ∧
    (∀ i j r r', loggedIn.proc i = .granted r → loggedIn.proc j = .granted r' →
      r.nonce = r'.nonce → i = j) ∧
    ∀ i j r r', loggedIn.proc i = .granted r → loggedIn.proc j = .granted r' →
      r.signature = r'.signature → r.address = r'.address ∧ r.nonce = r'.nonce :=
  ⟨by decide +kernel, tokens_only_for_own_nonce (.of_steps _)⟩

end Sample

end NeuroWealth.LoginNonce
