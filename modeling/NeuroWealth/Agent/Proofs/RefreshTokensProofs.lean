import NeuroWealth.Agent.RefreshTokens

/-!
# Refresh tokens are single-use while redemptions do not overlap

A stored token that is still in Redis was redeemed by no call but one about to delete it, and a
login has one token: in Redis, or with the call that rotates it.
-/

namespace NeuroWealth.RefreshTokens

open Interleaving

variable {ι : Type} [DecidableEq ι] {s : System ι (Shared ι) (Stage ι)} {i j : ι}
  {p : Stage ι} {token : Token}

/-! ## What a call holds -/

namespace Stage

/-- The storing of a token that the call has redeemed. -/
def redeems : Stage ι → Option (Redeemed ι)
  | deleting redeemed _ => some redeemed
  | issuing redeemed _ => some redeemed
  | storing redeemed _ _ => redeemed
  | done redeemed _ => redeemed
  | _ => none

/-- The logins whose next token depends on the call. -/
def holds (i : ι) : Stage ι → List ι
  | deleting redeemed _ => redeemed.owners
  | issuing redeemed _ => redeemed.owners
  | storing redeemed _ _ => loginsOf i redeemed
  | _ => []

end Stage

/-- What every state of an undisturbed run keeps. -/
structure Sound (s : System ι (Shared ι) (Stage ι)) : Prop where
  redeemed_stored : ∀ i, ∀ r ∈ (s.proc i).redeems, r.storing ≤ s.shared.stored r.token
  redeemed_once : ∀ i j, ∀ r ∈ (s.proc i).redeems, ∀ r' ∈ (s.proc j).redeems,
    r.token = r'.token → r.storing = r'.storing → i = j
  redeemed_present : ∀ i, ∀ r ∈ (s.proc i).redeems, r.storing = s.shared.stored r.token →
    (s.shared.redis r.token).isSome → (s.proc i).Deleting r.token
  one_token : ∀ login t t', Redeemable s.shared login t → Redeemable s.shared login t' → t = t'
  one_holder : ∀ login i j, login ∈ (s.proc i).holds i → login ∈ (s.proc j).holds j → i = j
  held_absent : ∀ login i t, login ∈ (s.proc i).holds i → Redeemable s.shared login t →
    (s.proc i).Deleting t
  signed_in : ∀ login t i, Redeemable s.shared login t ∨ login ∈ (s.proc i).holds i →
    s.proc login ≠ .idle

omit [DecidableEq ι] in
theorem sound_fresh (clock : ℕ) : Sound (fresh clock : System ι (Shared ι) (Stage ι)) where
  redeemed_stored i r hr := by simp [fresh, Stage.redeems] at hr
  redeemed_once i j r hr := by simp [fresh, Stage.redeems] at hr
  redeemed_present i r hr := by simp [fresh, Stage.redeems] at hr
  one_token login t t' h := by simp [fresh, Redeemable] at h
  one_holder login i j h := by simp [fresh, Stage.holds] at h
  held_absent login i t h := by simp [fresh, Stage.holds] at h
  signed_in login t i h := by simp [fresh, Stage.holds, Redeemable] at h

/-! ## Preservation -/

omit [DecidableEq ι] in
/-- A key that leaves Redis takes nothing away. -/
theorem Sound.del (h : Sound s) (token : Token) : Sound ⟨s.shared.del token, s.proc⟩ := by
  have hsome : ∀ t, ((s.shared.del token).redis t).isSome → (s.shared.redis t).isSome := by
    intro t ht
    by_cases htoken : t = token
    · subst htoken
      simp [Shared.del] at ht
    · simpa [Shared.del, htoken] using ht
  have hredeem : ∀ login t, Redeemable (s.shared.del token) login t →
      Redeemable s.shared login t := fun login t ht => ⟨hsome t ht.1, ht.2⟩
  refine ⟨h.redeemed_stored, h.redeemed_once, ?_, ?_, h.one_holder, ?_, ?_⟩
  · intro i r hr hstoring hpresent
    exact h.redeemed_present i r hr hstoring (hsome _ hpresent)
  · intro login t t' ht ht'
    exact h.one_token login t t' (hredeem _ _ ht) (hredeem _ _ ht')
  · intro login i t hheld ht
    exact h.held_absent login i t hheld (hredeem _ _ ht)
  · intro login t i hlogin
    exact h.signed_in login t i (hlogin.imp_left (hredeem _ _))

/-- A call moves on with what it holds, or lets go of it; a call about to delete a key lets go, or
    finds the key gone. -/
theorem Sound.move_on (h : Sound s) (hidle : p ≠ .idle)
    (hredeems : ∀ r ∈ p.redeems, r ∈ (s.proc i).redeems)
    (hholds : ∀ login ∈ p.holds i, login ∈ (s.proc i).holds i)
    (hdeleting : ∀ t, (s.proc i).Deleting t →
      (p.redeems = none ∧ p.holds i = []) ∨ s.shared.redis t = none) :
    Sound (s.put s.shared i p) := by
  have hredeems' : ∀ j, ∀ r ∈ ((s.put s.shared i p).proc j).redeems, r ∈ (s.proc j).redeems :=
    System.put_forall (P := fun j (q : Stage ι) => ∀ r ∈ q.redeems, r ∈ (s.proc j).redeems)
      hredeems fun _ _ _ hr => hr
  have hholds' : ∀ j, ∀ login ∈ ((s.put s.shared i p).proc j).holds j,
      login ∈ (s.proc j).holds j :=
    System.put_forall
      (P := fun j (q : Stage ι) => ∀ login ∈ q.holds j, login ∈ (s.proc j).holds j) hholds
      fun _ _ _ hl => hl
  refine ⟨?_, ?_, ?_, h.one_token, ?_, ?_, ?_⟩
  · intro j r hr
    exact h.redeemed_stored j r (hredeems' j r hr)
  · intro j k r hr r' hr'
    exact h.redeemed_once j k r (hredeems' j r hr) r' (hredeems' k r' hr')
  · intro j r hr hstoring hpresent
    have hold := h.redeemed_present j r (hredeems' j r hr) hstoring hpresent
    by_cases hj : j = i
    · subst hj
      rw [System.put_self] at hr
      rcases hdeleting r.token hold with ⟨hnone, -⟩ | hgone
      · rw [hnone] at hr
        cases hr
      · rw [System.put_shared, hgone] at hpresent
        cases hpresent
    · rw [System.put_other hj]
      exact hold
  · intro login j k hj hk
    exact h.one_holder login j k (hholds' j login hj) (hholds' k login hk)
  · intro login j t hheld ht
    have hold := h.held_absent login j t (hholds' j login hheld) ht
    by_cases hj : j = i
    · subst hj
      rw [System.put_self] at hheld
      rcases hdeleting t hold with ⟨-, hnone⟩ | hgone
      · rw [hnone] at hheld
        cases hheld
      · have hpresent := ht.1
        rw [System.put_shared, hgone] at hpresent
        cases hpresent
    · rw [System.put_other hj]
      exact hold
  · intro login t j hlogin
    have hold := h.signed_in login t j (hlogin.imp_right (hholds' j login))
    by_cases hi : login = i
    · rw [hi, System.put_self]
      exact hidle
    · rw [System.put_other hi]
      exact hold

/-- A call stores the new token of the logins it holds, and lets go of them. -/
theorem Sound.store (h : Sound s) {redeemed : Option (Redeemed ι)} {address : String}
    {pair : AuthTokenPair} (hi : s.proc i = .storing redeemed address pair) (hidle : p ≠ .idle)
    (hredeems : ∀ r ∈ p.redeems, redeemed = some r) (hholds : p.holds i = []) :
    Sound (s.put (s.shared.set pair.refreshToken address (loginsOf i redeemed)) i p) := by
  set new := pair.refreshToken with hnew
  set x := s.shared.set new address (loginsOf i redeemed) with hx
  have hstoring : ∀ t, ¬ (s.proc i).Deleting t := by
    rintro t ⟨r, payload, hr, -⟩
    rw [hi] at hr
    cases hr
  have hheld : ∀ login ∈ loginsOf i redeemed, login ∈ (s.proc i).holds i := by
    intro login hlogin
    rw [hi]
    exact hlogin
  have hredeems' : ∀ j, ∀ r ∈ ((s.put x i p).proc j).redeems, r ∈ (s.proc j).redeems := by
    apply System.put_forall (P := fun j (q : Stage ι) => ∀ r ∈ q.redeems, r ∈ (s.proc j).redeems)
    · intro r hr
      rw [hi]
      exact hredeems r hr
    · exact fun _ _ _ hr => hr
  have hholds' : ∀ j, ∀ login ∈ ((s.put x i p).proc j).holds j,
      j ≠ i ∧ login ∈ (s.proc j).holds j := by
    apply System.put_forall (P := fun j (q : Stage ι) => ∀ login ∈ q.holds j,
      j ≠ i ∧ login ∈ (s.proc j).holds j)
    · intro login hlogin
      rw [hholds] at hlogin
      cases hlogin
    · exact fun j hj login hlogin => ⟨hj, hlogin⟩
  have hredeem : ∀ login t, Redeemable x login t →
      Redeemable s.shared login t ∨ t = new ∧ login ∈ loginsOf i redeemed := by
    rintro login t ⟨hpresent, howner⟩
    by_cases ht : t = new
    · subst ht
      by_cases hold : (s.shared.redis new).isSome
      · rw [hx] at howner
        simp only [Shared.set, Function.update_self, hold, if_true, List.mem_append] at howner
        rcases howner with hl | hl
        · exact .inr ⟨rfl, hl⟩
        · exact .inl ⟨hold, hl⟩
      · rw [hx] at howner
        simp only [Shared.set, Function.update_self, hold] at howner
        exact .inr ⟨rfl, howner⟩
    · rw [hx] at hpresent howner
      simp only [Shared.set, Function.update_of_ne ht] at hpresent howner
      exact .inl ⟨hpresent, howner⟩
  have hstored : ∀ t, s.shared.stored t ≤ x.stored t := by
    intro t
    by_cases ht : t = new
    · simp [hx, Shared.set, ht]
    · simp [hx, Shared.set, ht]
  refine ⟨?_, ?_, ?_, ?_, ?_, ?_, ?_⟩
  · intro j r hr
    exact (h.redeemed_stored j r (hredeems' j r hr)).trans (hstored _)
  · intro j k r hr r' hr'
    exact h.redeemed_once j k r (hredeems' j r hr) r' (hredeems' k r' hr')
  · intro j r hr hlast hpresent
    have hold := h.redeemed_stored j r (hredeems' j r hr)
    rw [System.put_shared, hx] at hlast hpresent
    by_cases ht : r.token = new
    · -- an earlier storing of the token that is stored now
      simp only [Shared.set, ht, Function.update_self] at hlast
      rw [ht] at hold
      omega
    · simp only [Shared.set, Function.update_of_ne ht] at hlast hpresent
      have hdel := h.redeemed_present j r (hredeems' j r hr) hlast hpresent
      by_cases hj : j = i
      · rw [hj] at hdel
        exact absurd hdel (hstoring _)
      · rw [System.put_other hj]
        exact hdel
  · intro login t t' ht ht'
    rcases hredeem login t ht with ht | ⟨rfl, hl⟩
    · rcases hredeem login t' ht' with ht' | ⟨rfl, hl'⟩
      · exact h.one_token login t t' ht ht'
      · exact absurd (h.held_absent login i t (hheld _ hl') ht) (hstoring _)
    · rcases hredeem login t' ht' with ht' | ⟨rfl, hl'⟩
      · exact absurd (h.held_absent login i t' (hheld _ hl) ht') (hstoring _)
      · rfl
  · intro login j k hj hk
    exact h.one_holder login j k (hholds' j login hj).2 (hholds' k login hk).2
  · intro login j t hj ht
    obtain ⟨hne, hj⟩ := hholds' j login hj
    rw [System.put_other hne]
    rcases hredeem login t ht with ht | ⟨rfl, hl⟩
    · exact h.held_absent login j t hj ht
    · exact absurd (h.one_holder login j i hj (hheld _ hl)) hne
  · intro login t j hlogin
    have hold : s.proc login ≠ .idle := by
      rcases hlogin with ht | hj
      · rcases hredeem login t ht with ht | ⟨-, hl⟩
        · exact h.signed_in login t j (.inl ht)
        · exact h.signed_in login t i (.inr (hheld _ hl))
      · exact h.signed_in login t j (.inr (hholds' j login hj).2)
    by_cases hl : login = i
    · rw [hl, System.put_self]
      exact hidle
    · rw [System.put_other hl]
      exact hold

/-- A sign-in starts a login of its own. -/
theorem Sound.sign_in (h : Sound s) (hi : s.proc i = .idle) (address : String)
    (pair : AuthTokenPair) : Sound (s.put s.shared i (.storing none address pair)) := by
  have hfresh : ∀ t j, ¬ (Redeemable s.shared i t ∨ i ∈ (s.proc j).holds j) :=
    fun t j hl => h.signed_in i t j hl hi
  have hredeems : ∀ j, ∀ r ∈ ((s.put s.shared i (.storing none address pair)).proc j).redeems,
      j ≠ i ∧ r ∈ (s.proc j).redeems :=
    System.put_forall (P := fun j (q : Stage ι) => ∀ r ∈ q.redeems, j ≠ i ∧ r ∈ (s.proc j).redeems)
      nofun fun j hj r hr => ⟨hj, hr⟩
  have hholds : ∀ j, ∀ login ∈ ((s.put s.shared i (.storing none address pair)).proc j).holds j,
      j = i ∧ login = i ∨ j ≠ i ∧ login ∈ (s.proc j).holds j := by
    apply System.put_forall (P := fun j (q : Stage ι) => ∀ login ∈ q.holds j,
      j = i ∧ login = i ∨ j ≠ i ∧ login ∈ (s.proc j).holds j)
    · intro login hlogin
      exact .inl ⟨rfl, List.mem_singleton.mp hlogin⟩
    · exact fun j hj login hlogin => .inr ⟨hj, hlogin⟩
  refine ⟨?_, ?_, ?_, h.one_token, ?_, ?_, ?_⟩
  · intro j r hr
    exact h.redeemed_stored j r (hredeems j r hr).2
  · intro j k r hr r' hr'
    exact h.redeemed_once j k r (hredeems j r hr).2 r' (hredeems k r' hr').2
  · intro j r hr hlast hpresent
    obtain ⟨hj, hr⟩ := hredeems j r hr
    rw [System.put_other hj]
    exact h.redeemed_present j r hr hlast hpresent
  · intro login j k hj hk
    rcases hholds j login hj with ⟨rfl, rfl⟩ | ⟨hji, hj'⟩
    · rcases hholds k login hk with ⟨rfl, -⟩ | ⟨-, hk'⟩
      · rfl
      · exact absurd (.inr hk') (hfresh pair.refreshToken k)
    · rcases hholds k login hk with ⟨rfl, rfl⟩ | ⟨-, hk'⟩
      · exact absurd (.inr hj') (hfresh pair.refreshToken j)
      · exact h.one_holder login j k hj' hk'
  · intro login j t hj ht
    rcases hholds j login hj with ⟨rfl, rfl⟩ | ⟨hji, hj⟩
    · exact absurd (.inl ht) (hfresh t login)
    · rw [System.put_other hji]
      exact h.held_absent login j t hj ht
  · intro login t j hlogin
    by_cases hl : login = i
    · rw [hl, System.put_self]
      nofun
    · rw [System.put_other hl]
      rcases hlogin with ht | hj
      · exact h.signed_in login t j (.inl ht)
      · rcases hholds j login hj with ⟨-, heq⟩ | ⟨-, hj⟩
        · exact absurd heq hl
        · exact h.signed_in login t j (.inr hj)

/-- A rotation reads a stored token that no other call is about to delete. -/
theorem Sound.redeem (h : Sound s) {payload : JWTPayload} (hi : s.proc i ≠ .idle)
    (hpresent : (s.shared.redis token).isSome)
    (hother : ∀ j, j ≠ i → ¬ (s.proc j).Deleting token) :
    Sound (s.put s.shared i
      (.deleting ⟨token, s.shared.stored token, s.shared.owners token⟩ payload)) := by
  set r0 : Redeemed ι := ⟨token, s.shared.stored token, s.shared.owners token⟩ with hr0
  have hredeems : ∀ j, ∀ r ∈ ((s.put s.shared i (.deleting r0 payload)).proc j).redeems,
      j = i ∧ r = r0 ∨ j ≠ i ∧ r ∈ (s.proc j).redeems := by
    apply System.put_forall (P := fun j (q : Stage ι) => ∀ r ∈ q.redeems,
      j = i ∧ r = r0 ∨ j ≠ i ∧ r ∈ (s.proc j).redeems)
    · intro r hr
      exact .inl ⟨rfl, (Option.some.inj hr).symm⟩
    · exact fun j hj r hr => .inr ⟨hj, hr⟩
  have hholds : ∀ j, ∀ login ∈ ((s.put s.shared i (.deleting r0 payload)).proc j).holds j,
      j = i ∧ login ∈ s.shared.owners token ∨ j ≠ i ∧ login ∈ (s.proc j).holds j := by
    apply System.put_forall (P := fun j (q : Stage ι) => ∀ login ∈ q.holds j,
      j = i ∧ login ∈ s.shared.owners token ∨ j ≠ i ∧ login ∈ (s.proc j).holds j)
    · exact fun login hlogin => .inl ⟨rfl, hlogin⟩
    · exact fun j hj login hlogin => .inr ⟨hj, hlogin⟩
  have halone : ∀ j, j ≠ i → ∀ r ∈ (s.proc j).redeems, r.token = token →
      r.storing ≠ s.shared.stored token := by
    intro j hj r hr htoken hlast
    subst htoken
    exact hother j hj (h.redeemed_present j r hr hlast hpresent)
  have hunheld : ∀ login ∈ s.shared.owners token, ∀ j, j ≠ i → login ∉ (s.proc j).holds j :=
    fun login hlogin j hj hheld =>
      hother j hj (h.held_absent login j token hheld ⟨hpresent, hlogin⟩)
  refine ⟨?_, ?_, ?_, h.one_token, ?_, ?_, ?_⟩
  · intro j r hr
    rcases hredeems j r hr with ⟨-, rfl⟩ | ⟨-, hr⟩
    · exact le_rfl
    · exact h.redeemed_stored j r hr
  · intro j k r hr r' hr' htoken hstoring
    rcases hredeems j r hr with ⟨rfl, rfl⟩ | ⟨hj, hrj⟩
    · rcases hredeems k r' hr' with ⟨rfl, -⟩ | ⟨hk, hrk⟩
      · rfl
      · exact absurd hstoring.symm (halone k hk r' hrk htoken.symm)
    · rcases hredeems k r' hr' with ⟨rfl, rfl⟩ | ⟨hk, hrk⟩
      · exact absurd hstoring (halone j hj r hrj htoken)
      · exact h.redeemed_once j k r hrj r' hrk htoken hstoring
  · intro j r hr hlast hpresent'
    rcases hredeems j r hr with ⟨rfl, rfl⟩ | ⟨hj, hr⟩
    · rw [System.put_self]
      exact ⟨_, _, rfl, rfl⟩
    · rw [System.put_other hj]
      exact h.redeemed_present j r hr hlast hpresent'
  · intro login j k hj hk
    rcases hholds j login hj with ⟨rfl, howner⟩ | ⟨hji, hj'⟩
    · rcases hholds k login hk with ⟨rfl, -⟩ | ⟨hki, hk'⟩
      · rfl
      · exact absurd hk' (hunheld login howner k hki)
    · rcases hholds k login hk with ⟨rfl, howner⟩ | ⟨hki, hk'⟩
      · exact absurd hj' (hunheld login howner j hji)
      · exact h.one_holder login j k hj' hk'
  · intro login j t hj ht
    rcases hholds j login hj with ⟨rfl, howner⟩ | ⟨hji, hj⟩
    · rw [System.put_self, h.one_token login t token ht ⟨hpresent, howner⟩]
      exact ⟨_, _, rfl, rfl⟩
    · rw [System.put_other hji]
      exact h.held_absent login j t hj ht
  · intro login t j hlogin
    have hold : s.proc login ≠ .idle := by
      rcases hlogin with ht | hj
      · exact h.signed_in login t j (.inl ht)
      · rcases hholds j login hj with ⟨-, hj⟩ | ⟨-, hj⟩
        · exact h.signed_in login token i (.inl ⟨hpresent, hj⟩)
        · exact h.signed_in login t j (.inr hj)
    by_cases hl : login = i
    · rw [hl, System.put_self]
      nofun
    · rw [System.put_other hl]
      exact hold

/-! ## Runs -/

/-- A call that has nothing in hand changes nothing. -/
theorem Sound.let_go (h : Sound s) (hidle : p ≠ .idle) (hredeems : p.redeems = none)
    (hholds : p.holds i = []) : Sound (s.put s.shared i p) := by
  apply h.move_on hidle
  · intro r hr
    rw [hredeems] at hr
    cases hr
  · intro login hlogin
    rw [hholds] at hlogin
    cases hlogin
  · exact fun _ _ => .inl ⟨hredeems, hholds⟩

/-- One step of an undisturbed run. -/
theorem Sound.act (h : Sound s) {outcome : Outcome} {x : Shared ι}
    (hok : Undisturbed s (.act i outcome))
    (hstep : step i s.shared (s.proc i) outcome = some (x, p)) : Sound (s.put x i p) := by
  cases hi : s.proc i with
  | idle =>
    rw [hi] at hstep
    cases outcome with
    | signIn address operator =>
      obtain ⟨rfl, rfl⟩ : s.shared = x ∧ _ = p := by simpa [step] using hstep
      exact h.sign_in hi address _
    | rotate raw =>
      obtain ⟨rfl, rfl⟩ : s.shared = x ∧ rotateRefreshToken s.shared raw = p := by
        simpa [step] using hstep
      unfold rotateRefreshToken
      cases jwtVerify s.shared.clock raw with
      | none => exact h.let_go nofun rfl rfl
      | some payload =>
        by_cases htype : payload.type = .refresh
        · simp only [htype, ne_eq, not_true_eq_false, if_false]
          exact h.let_go nofun rfl rfl
        · simp only [htype, ne_eq, not_false_eq_true, if_true]
          exact h.let_go nofun rfl rfl
    | ok => cases hstep
    | fails effect => cases hstep
  | getting raw payload =>
    rw [hi] at hstep
    cases outcome with
    | ok =>
      obtain ⟨rfl, rfl⟩ : s.shared = x ∧ readStored s.shared raw payload = p := by
        simpa [step] using hstep
      unfold readStored
      cases hget : s.shared.redis raw with
      | none => exact h.let_go nofun rfl rfl
      | some storedAddress =>
        have hpresent : (s.shared.redis raw).isSome := by rw [hget]; rfl
        by_cases haddress : storedAddress = "" ∨ storedAddress ≠ payload.sub
        · simp only [haddress, if_true]
          exact h.let_go nofun rfl rfl
        · simp only [haddress, if_false]
          exact h.redeem (by rw [hi]; nofun) hpresent (hok raw payload hi hpresent)
    | fails effect =>
      obtain ⟨rfl, rfl⟩ : s.shared = x ∧ .threw = p := by simpa [step] using hstep
      exact h.let_go nofun rfl rfl
    | signIn address operator => cases hstep
    | rotate raw => cases hstep
  | deleting redeemed payload =>
    rw [hi] at hstep
    have hdel := h.del redeemed.token
    cases outcome with
    | ok =>
      obtain ⟨rfl, rfl⟩ : s.shared.del redeemed.token = x ∧ _ = p := by simpa [step] using hstep
      apply hdel.move_on (p := .issuing redeemed payload) nofun
      · exact fun r hr => by rw [hi]; exact hr
      · exact fun login hl => by rw [hi]; exact hl
      · rintro t ⟨r, q, hr, rfl⟩
        rw [hi] at hr
        obtain ⟨rfl, -⟩ := Stage.deleting.inj hr
        exact .inr (Function.update_self ..)
    | fails effect =>
      cases effect with
      | true =>
        obtain ⟨rfl, rfl⟩ : s.shared.del redeemed.token = x ∧ .threw = p := by
          simpa [step] using hstep
        exact hdel.let_go nofun rfl rfl
      | false =>
        obtain ⟨rfl, rfl⟩ : s.shared = x ∧ .threw = p := by simpa [step] using hstep
        exact h.let_go nofun rfl rfl
    | signIn address operator => cases hstep
    | rotate raw => cases hstep
  | issuing redeemed payload =>
    rw [hi] at hstep
    cases outcome with
    | ok =>
      obtain ⟨rfl, hp⟩ : s.shared = x ∧ .storing (some redeemed) payload.sub
          (issueTokenPair s.shared.clock payload.sub payload.operator) = p := by
        simpa [step] using hstep
      apply h.move_on (by rw [← hp]; nofun)
      · exact fun r hr => by rw [← hp] at hr; rw [hi]; exact hr
      · exact fun login hl => by rw [← hp] at hl; rw [hi]; exact hl
      · rintro t ⟨r, q, hr, -⟩
        rw [hi] at hr
        cases hr
    | fails effect => cases hstep
    | signIn address operator => cases hstep
    | rotate raw => cases hstep
  | storing redeemed address pair =>
    rw [hi] at hstep
    cases outcome with
    | ok =>
      obtain ⟨rfl, rfl⟩ : _ = x ∧ _ = p := by simpa [step] using hstep
      exact h.store hi nofun (fun r hr => hr) rfl
    | fails effect =>
      cases effect with
      | true =>
        obtain ⟨rfl, rfl⟩ : _ = x ∧ .threw = p := by simpa [step] using hstep
        exact h.store hi nofun nofun rfl
      | false =>
        obtain ⟨rfl, rfl⟩ : s.shared = x ∧ .threw = p := by simpa [step] using hstep
        exact h.let_go nofun rfl rfl
    | signIn address operator => cases hstep
    | rotate raw => cases hstep
  | done redeemed result =>
    rw [hi] at hstep
    cases outcome <;> cases hstep
  | threw =>
    rw [hi] at hstep
    cases outcome <;> cases hstep

/-- While no two calls stand between the `get` and the `del` of one token, each storing of a token
    yields a pair to at most one call, and a login has at most one token to redeem. -/
theorem single_use_when_undisturbed {clock : ℕ}
    (h : Reaches (rules ι) Undisturbed (fresh clock) s) :
    (∀ i j r r' pair pair', s.proc i = .done (some r) (some pair) →
      s.proc j = .done (some r') (some pair') → r.token = r'.token → r.storing = r'.storing →
      i = j) ∧
    (∀ login t t', Redeemable s.shared login t → Redeemable s.shared login t' → t = t') := by
  have hsound : Sound s := by
    apply h.invariant (sound_fresh clock)
    · intro t i outcome x p hok ht hstep
      exact ht.act hok hstep
    · intro t change x _ ht hstep
      cases change with
      | elapse seconds =>
        obtain rfl : _ = x := Option.some.inj hstep
        exact ⟨ht.redeemed_stored, ht.redeemed_once, ht.redeemed_present, ht.one_token,
          ht.one_holder, ht.held_absent, ht.signed_in⟩
      | drop token =>
        obtain rfl : _ = x := Option.some.inj hstep
        exact ht.del token
  refine ⟨?_, hsound.one_token⟩
  intro i j r r' pair pair' hi hj
  apply hsound.redeemed_once i j r ?_ r' ?_
  · rw [hi]
    rfl
  · rw [hj]
    rfl

namespace Sample

/-- The refresh token of a sign-in at second 1000. -/
def first : Token := (issueTokenPair 1000 "GUSER" false).refreshToken

/-- One sign-in and one rotation of its token, a minute later. -/
def rotated : System ℕ (Shared ℕ) (Stage ℕ) :=
  [.act 0 (.signIn "GUSER" false), .act 0 .ok, .world (.elapse 60), .act 1 (.rotate first),
    .act 1 .ok, .act 1 .ok, .act 1 .ok, .act 1 .ok].foldl (rules ℕ).after (fresh 1000)

theorem rotated_once : (rotated.shared.redis first).isNone ∧
    ∀ t t', Redeemable rotated.shared 0 t → Redeemable rotated.shared 0 t' → t = t' := by
  have hreaches : Reaches (rules ℕ) Undisturbed (fresh 1000) rotated := by
    refine .of_admits ⟨trivial, nofun, trivial, trivial, ?_, nofun, nofun, nofun, trivial⟩
    rintro raw payload hget - j hj ⟨r, q, hdel, -⟩
    rcases j with _ | _ | j <;> cases hdel
  exact ⟨by decide, (single_use_when_undisturbed hreaches).2 0⟩

/-- Two rotations of one token, side by side: both have read it before either deletes it. -/
def replayed : System ℕ (Shared ℕ) (Stage ℕ) :=
  [.act 0 (.signIn "GUSER" false), .act 0 .ok, .world (.elapse 60), .act 1 (.rotate first),
    .act 2 (.rotate first), .act 1 .ok, .act 2 .ok, .act 1 .ok, .act 2 .ok, .act 1 .ok,
    .world (.elapse 1), .act 2 .ok, .act 1 .ok, .act 2 .ok].foldl (rules ℕ).after (fresh 1000)

/-- Both get a pair for the one token, and the login has two tokens to redeem. -/
theorem replay_yields_twice :
    Reaches (rules ℕ) (fun _ _ => True) (fresh 1000) replayed ∧
    (∃ r pair pair', replayed.proc 1 = .done (some r) (some pair) ∧
      replayed.proc 2 = .done (some r) (some pair') ∧ r.token = first ∧
      replayed.shared.stored first = 1) ∧
    ∃ t t', Redeemable replayed.shared 0 t ∧ Redeemable replayed.shared 0 t' ∧ t ≠ t' := by
  refine ⟨.of_steps _, ⟨⟨first, 1, [0]⟩, issueTokenPair 1060 "GUSER" false,
    issueTokenPair 1061 "GUSER" false, rfl, rfl, rfl, rfl⟩,
    (issueTokenPair 1060 "GUSER" false).refreshToken,
    (issueTokenPair 1061 "GUSER" false).refreshToken, ?_, ?_, by decide⟩
  · exact ⟨by decide, by decide⟩
  · exact ⟨by decide, by decide⟩

end Sample

end NeuroWealth.RefreshTokens
