import NeuroWealth.Vault.Proofs.AccountsProofs

/-!
# Share locks

A lock is a count beside the shares, which `withdraw` and `withdraw_all` respect. `lock_shares`
accepts a negative count, and `migrate_shares` burns locked shares.
-/

namespace NeuroWealth.Vault

open Transaction MachineInt SharePool

variable {env : Env} {w w0 w' : World} {call : Call} {user : Address} {shares : Int}
  {expiry : Nat}

/-! ## Sound locks -/

/-- Locks are not negative, covered by shares, and positive ones expire and have a signer. -/
structure World.LocksSound (w : World) : Prop where
  nonneg : ∀ u, 0 ≤ w.locks.lockedShares u
  covered : ∀ u, w.locks.lockedShares u ≤ w.book.shares u
  expires : ∀ u, 0 < w.locks.lockedShares u → ∃ expiry, w.locks.lockExpiry u = some expiry
  foreign : ∀ u, 0 < w.locks.lockedShares u → u ≠ w.self

/-- Steps clear of the defects: no negative count is locked and no user migrates under a lock.
    Emergencies override locks by design and are left out, as are negative reports. -/
def Step.RespectsLocks (w : World) : Step → Prop
  | .call _ (.lockShares _ shares _) => 0 ≤ shares
  | .call _ (.migrateShares user) => ¬ 0 < w.locks.lockedShares user
  | .call _ (.emergencyWithdraw user _) => ¬ 0 < w.locks.lockedShares user
  | .call _ (.updateTotalAssets _ newTotal _ _) => 0 ≤ newTotal
  | .call .. => True
  | .ambient chain => w.chain.sequence ≤ chain.sequence

theorem Step.RespectsLocks.reports {step : Step} (h : step.RespectsLocks w) :
    step.ReportsNonNegative := by
  cases step with
  | ambient chain => trivial
  | call env call =>
    cases call
    case updateTotalAssets => exact h
    all_goals trivial

theorem Step.RespectsLocks.forward {step : Step} (h : step.RespectsLocks w) : step.Forward w := by
  cases step with
  | ambient chain => exact h
  | call env call => trivial

/-- A redemption leaves the locked shares. -/
theorem Effect.covered (h : Effect env w w' call) (hsafe : (Step.call env call).RespectsLocks w)
    (hl : w.LocksSound) (hcall : call.redeemer = some user) :
    w.locks.lockedShares user ≤ w'.book.shares user := by
  have hnonneg := hl.nonneg user
  have hcovered := hl.covered user
  cases h with
  | withdraw h hvalue helapsed hunlocked =>
    cases hcall
    have hle := h.terms.1.burned_le
    rw [h.shares.1]
    by_cases hlock : 0 < w.locks.lockedShares user
    · have := hunlocked hlock hcovered
      omega
    · omega
  | withdrawAll h hunlocked =>
    cases hcall
    rw [h.shares.1]
    unfold World.unlockedShares at hunlocked
    split_ifs at hunlocked with hlock
    · omega
    · omega
  | emergencyWithdraw h =>
    cases hcall
    have hle := h.terms.1.burned_le
    have hlock : ¬ 0 < w.locks.lockedShares user := hsafe
    rw [h.shares.1]
    omega
  | migrateShares h =>
    cases hcall
    have hlock : ¬ 0 < w.locks.lockedShares user := hsafe
    rw [h.shares.1]
    omega
  | quiet _ h => rwa [h.book]
  | funds _ h => rwa [h.poolStep.book]
  | assets _ h => rwa [h.book]
  | _ => cases hcall

/-- No redemption and no deposit uncovers a lock. -/
theorem Effect.shares_cover (h : Effect env w w' call)
    (hsafe : (Step.call env call).RespectsLocks w) (hb : w.book.Sound) (hl : w.LocksSound) :
    w.locks.lockedShares user ≤ w'.book.shares user := by
  by_cases hcall : call.redeemer = some user
  · exact h.covered hsafe hl hcall
  · exact (hl.covered user).trans (h.shares_le (fun _ => hb) hcall)

/-- The locks that are left after one user's lock was replaced. -/
theorem World.LocksSound.set (hl : w.LocksSound) {l : Option Nat} (hself : user ≠ w.self)
    (hnonneg : 0 ≤ shares) (hle : shares ≤ w.book.shares user)
    (hexpires : 0 < shares → ∃ expiry, l = some expiry) :
    World.LocksSound { w with locks := w.locks.set user shares l } where
  nonneg u := by
    show 0 ≤ if u = user then shares else w.locks.lockedShares u
    by_cases hu : u = user
    · rwa [if_pos hu]
    · rw [if_neg hu]
      exact hl.nonneg u
  covered u := by
    show (if u = user then shares else w.locks.lockedShares u) ≤ w.book.shares u
    by_cases hu : u = user
    · rw [if_pos hu, hu]
      exact hle
    · rw [if_neg hu]
      exact hl.covered u
  expires u hpos := by
    change 0 < if u = user then shares else w.locks.lockedShares u at hpos
    show ∃ expiry, (if u = user then l else w.locks.lockExpiry u) = some expiry
    by_cases hu : u = user
    · rw [if_pos hu] at hpos ⊢
      exact hexpires hpos
    · rw [if_neg hu] at hpos ⊢
      exact hl.expires u hpos
  foreign u hpos := by
    change 0 < if u = user then shares else w.locks.lockedShares u at hpos
    by_cases hu : u = user
    · rwa [hu]
    · rw [if_neg hu] at hpos
      exact hl.foreign u hpos

theorem World.LocksSound.congr (hl : w.LocksSound) (hself : w'.self = w.self)
    (hlocks : w'.locks = w.locks) (hbook : w'.book = w.book) : w'.LocksSound := by
  refine ⟨?_, ?_, ?_, ?_⟩
  · rw [hlocks]
    exact hl.nonneg
  · rw [hlocks, hbook]
    exact hl.covered
  · rw [hlocks]
    exact hl.expires
  · rw [hlocks, hself]
    exact hl.foreign

/-- Sound locks survive every call that respects them. -/
theorem Effect.locksSound (h : Effect env w w' call)
    (hsafe : (Step.call env call).RespectsLocks w) (hb : w.book.Sound) (hl : w.LocksSound) :
    w'.LocksSound := by
  cases hcall : call.locker with
  | none =>
    have hlocks := (h.lockFrame hcall).locks
    have hself := h.anchored.self
    refine ⟨?_, ?_, ?_, ?_⟩
    · rw [hlocks]
      exact hl.nonneg
    · intro u
      rw [hlocks]
      exact h.shares_cover hsafe hb hl
    · rw [hlocks]
      exact hl.expires
    · rw [hlocks, hself]
      exact hl.foreign
  | some user =>
    cases h with
    | lockShares hself hterms hnone hle h =>
      refine (hl.set hself hsafe hle ?_).congr h.self h.locks h.book
      intro _
      exact ⟨_, rfl⟩
    | @unlockShares user _ _ _ hpos h =>
      have hcovered := hl.covered user
      have hset := hl.set (l := none) (hl.foreign user hpos) le_rfl (hpos.le.trans hcovered)
        fun hlt => absurd hlt (lt_irrefl 0)
      exact hset.congr h.self h.locks h.book
    | quiet _ h => exact hl.congr h.self h.locks h.book
    | funds _ h => exact hl.congr h.poolStep.self h.poolStep.locks h.poolStep.book
    | assets _ h => exact hl.congr h.self h.locks h.book
    | _ => cases hcall

theorem World.Fresh.locksSound (h : w.Fresh) : w.LocksSound := by
  have hnone : ∀ u, ¬ 0 < w.locks.lockedShares u := by
    intro u
    rw [h.locks]
    exact lt_irrefl 0
  refine ⟨?_, ?_, fun u hpos => absurd hpos (hnone u), fun u hpos => absurd hpos (hnone u)⟩
  · intro u
    rw [h.locks]
  · intro u
    rw [h.locks, h.book]

/-! ## Holding a lock -/

/-- Until its expiry, the user's lock is the given one. -/
def World.Holds (w : World) (user : Address) (shares : Int) (expiry : Nat) : Prop :=
  w.chain.sequence < expiry →
    w.locks.lockedShares user = shares ∧ w.locks.lockExpiry user = some expiry

/-- A positive lock withstands every call until it expires. -/
theorem Effect.holds (h : Effect env w w' call) (hpos : 0 < shares)
    (hh : w.Holds user shares expiry) : w'.Holds user shares expiry := by
  intro hbefore
  rw [h.sequence] at hbefore
  obtain ⟨hlocked, hexpiry⟩ := hh hbefore
  cases hcall : call.locker with
  | none =>
    rw [(h.lockFrame hcall).locks]
    exact ⟨hlocked, hexpiry⟩
  | some v =>
    cases h with
    | @lockShares locker _ _ _ _ _ _ hnone _ h =>
      have hother : user ≠ locker := by
        rintro rfl
        omega
      rw [h.locks]
      exact ⟨(if_neg hother).trans hlocked, (if_neg hother).trans hexpiry⟩
    | @unlockShares locker expiry' hexpiry' hle _ h =>
      have hother : user ≠ locker := by
        rintro rfl
        rw [hexpiry] at hexpiry'
        cases hexpiry'
        omega
      rw [h.locks]
      exact ⟨(if_neg hother).trans hlocked, (if_neg hother).trans hexpiry⟩
    | quiet _ h =>
      rw [h.locks]
      exact ⟨hlocked, hexpiry⟩
    | funds _ h =>
      rw [h.poolStep.locks]
      exact ⟨hlocked, hexpiry⟩
    | assets _ h =>
      rw [h.locks]
      exact ⟨hlocked, hexpiry⟩
    | _ => cases hcall

/-! ## Runs -/

theorem locksSound_after (step : Step) (hi : w.Initialized) (hsafe : step.RespectsLocks w)
    (h : w.book.Sound ∧ w.LocksSound) :
    (w.after step).book.Sound ∧ (w.after step).LocksSound := by
  refine ⟨sound_after step hi hsafe.reports h.1, ?_⟩
  refine after_cases (P := World.LocksSound) step hi h.2 ?_ ?_
  · rintro env call w' rfl _ heffect
    exact heffect.locksSound hsafe h.1 (h.2.congr rfl rfl rfl)
  · intro chain _
    exact h.2.congr rfl rfl rfl

theorem holds_after (step : Step) (hi : w.Initialized) (hforward : step.Forward w)
    (hpos : 0 < shares) (h : w.Holds user shares expiry) :
    (w.after step).Holds user shares expiry := by
  refine after_cases (P := fun t => t.Holds user shares expiry) step hi h ?_ ?_
  · intro env call w' _ _ heffect
    exact heffect.holds hpos h
  · rintro chain rfl hbefore
    exact h (lt_of_le_of_lt hforward hbefore)

/-- A run of steps that respect the locks. -/
def LockRun : World → World → Prop := Reaches fun t step => step.RespectsLocks t

theorem LockRun.locksSound {t : World} (h : LockRun w t) (hi : w.Initialized)
    (hb : w.book.Sound) (hl : w.LocksSound) : t.LocksSound ∧ t.Initialized := by
  obtain ⟨hsound, hi'⟩ := Reaches.keeps (P := fun t => t.book.Sound ∧ t.LocksSound) h hi ⟨hb, hl⟩
    fun t step hsafe hi hs => locksSound_after step hi hsafe hs
  exact ⟨hsound.2, hi'⟩

/-- A lock covers its shares at every ledger before its expiry. -/
theorem LockRun.held {t : World} {days ledgers boost : Nat} {u : Unit} (h : LockRun w' t)
    (hi : w.Initialized) (hb : w.book.Sound) (hl : w.LocksSound) (hshares : 0 ≤ shares)
    (hterms : lockTerms days = some (ledgers, boost))
    (hok : (invoke (.lockShares user shares days)).Ok env w u w')
    (hbefore : t.chain.sequence < w.chain.sequence + ledgers) :
    shares ≤ t.locks.lockedShares user ∧ shares ≤ t.book.shares user ∧
      (0 < shares → t.locks.lockExpiry user = some (w.chain.sequence + ledgers)) := by
  have heffect := effect_of_invoke hi hok
  have hi' : w'.Initialized := heffect.anchored.initialized hi
  have hsafe : (Step.call env (.lockShares user shares days)).RespectsLocks w := hshares
  have hb' : w'.book.Sound := heffect.sound hsafe.reports hb
  have hl' : w'.LocksSound := heffect.locksSound hsafe hb (hl.congr rfl rfl rfl)
  obtain ⟨hlt, -⟩ := h.locksSound hi' hb' hl'
  have hcovered := hlt.covered user
  by_cases hpos : 0 < shares
  · obtain ⟨l, b, -, hterms', -, -, hq⟩ := lockShares_ok (ok_invoke.mp hok)
    rw [hterms] at hterms'
    cases hterms'
    have hset : w'.Holds user shares (w.chain.sequence + ledgers) := by
      intro _
      rw [hq.locks]
      exact ⟨if_pos rfl, if_pos rfl⟩
    obtain ⟨hheld, -⟩ := Reaches.keeps (P := fun t => t.Holds user shares _) h hi' hset
      fun t step hsafe hi hh => holds_after step hi hsafe.forward hpos hh
    obtain ⟨hlocked, hexpiry⟩ := hheld hbefore
    exact ⟨hlocked.ge, by omega, fun _ => hexpiry⟩
  · have hnonneg := hlt.nonneg user
    exact ⟨by omega, by omega, fun hp => absurd hp hpos⟩

/-- A positive lock can be released once it has expired. -/
theorem unlock_succeeds (hi : w.Initialized) (hauth : user ∈ env.auths) (hself : user ≠ w.self)
    (hpos : 0 < w.locks.lockedShares user) (hexpiry : w.locks.lockExpiry user = some expiry)
    (hle : expiry ≤ w.chain.sequence) :
    ∃ w', (invoke (.unlockShares user)).Ok env w () w' ∧ w'.locks.lockedShares user = 0 := by
  simp only [ok_invoke, Call.run, unlockShares, Tx.ok_bind, Tx.ok_get, ok_requireInitialized,
    ok_requireAuth, Tx.ok_require, Tx.ok_expect, ok_putLocks, ok_publish, existsAndEq,
    exists_const, and_assoc, true_and]
  exact ⟨expiry, hi, hauth, hself, hpos, hexpiry, hle, if_pos rfl⟩

/-- Along every run that respects them, locks are covered by shares, hold until they expire, and
    can be released from then on. -/
theorem locks_respected (h0 : w0.Opened) (h : LockRun w0 w) :
    (∀ user, 0 ≤ w.locks.lockedShares user ∧ w.locks.lockedShares user ≤ w.book.shares user) ∧
      (∀ env user shares days ledgers boost w' t, 0 ≤ shares →
        lockTerms days = some (ledgers, boost) →
        (invoke (.lockShares user shares days)).Ok env w () w' → LockRun w' t →
        t.chain.sequence < w.chain.sequence + ledgers →
        shares ≤ t.locks.lockedShares user ∧ shares ≤ t.book.shares user ∧
          (0 < shares → t.locks.lockExpiry user = some (w.chain.sequence + ledgers))) ∧
      (∀ user, 0 < w.locks.lockedShares user → ∃ expiry, w.locks.lockExpiry user = some expiry ∧
        ∀ env, user ∈ env.auths → expiry ≤ w.chain.sequence →
          ∃ w', (invoke (.unlockShares user)).Ok env w () w' ∧ w'.locks.lockedShares user = 0) := by
  have hfresh := h0.fresh
  obtain ⟨hl, hi⟩ := h.locksSound hfresh.initialized hfresh.sound hfresh.locksSound
  obtain ⟨hb, -⟩ := sound_of_reaches h0 h fun _ _ hsafe => hsafe.reports
  refine ⟨fun user => ⟨hl.nonneg user, hl.covered user⟩, ?_, ?_⟩
  · intro env user shares days ledgers boost w' t hshares hterms hok hrun hbefore
    exact hrun.held hi hb hl hshares hterms hok hbefore
  · intro user hpos
    obtain ⟨expiry, hexpiry⟩ := hl.expires user hpos
    refine ⟨expiry, hexpiry, fun env hauth hle => ?_⟩
    exact unlock_succeeds hi hauth (hl.foreign user hpos) hpos hexpiry hle

namespace Sample

/-- Alice locks two of her five USDC for 30 days and withdraws one. -/
def locking : List Step :=
  [.call honest (.deposit alice 5000000), .call honest (.lockShares alice 2000000 30),
    .call honest (.withdraw alice 1000000)]

theorem locking_respected :
    (opened.replay locking).locks.lockedShares alice = 2000000 ∧
      (opened.replay locking).locks.lockedShares alice ≤
        (opened.replay locking).book.shares alice :=
  have hrun : LockRun opened (opened.replay locking) :=
    .of_admits ⟨trivial, show (0 : Int) ≤ 2000000 by decide, trivial, trivial⟩
  ⟨by decide +kernel, ((locks_respected opened_opened hrun).1 alice).2⟩

/-- Alice locks a negative count. -/
def negativeLock : List Step := [.call honest (.lockShares alice (-1) 30)]

/-- The target vault takes the migrated USDC. -/
def migrating : Env :=
  { honest with targetDeposit := fun chain _ _ _ => some chain }

/-- Alice locks all her shares and migrates them at once. -/
def migrateLocked : List Step :=
  [.call honest (.deposit alice 5000000), .call honest (.lockShares alice 5000000 30),
    .call honest (.setMigrationTarget bob), .call migrating (.migrateShares alice)]

/-- A lock can be negative, and locked shares can be burned at the ledger of the lock. -/
theorem locks_not_respected :
    opened.Opened ∧
      (Reaches (fun _ _ => True) opened (opened.replay negativeLock) ∧
        (opened.replay negativeLock).locks.lockedShares alice = -1) ∧
      (Reaches (fun _ _ => True) opened (opened.replay migrateLocked) ∧
        (opened.replay migrateLocked).locks.lockedShares alice = 5000000 ∧
        (opened.replay migrateLocked).book.shares alice = 0 ∧
        (opened.replay migrateLocked).chain.sequence = opened.chain.sequence) :=
  ⟨opened_opened, ⟨.of_admits ⟨trivial, trivial⟩, by decide +kernel⟩,
    .of_admits ⟨trivial, trivial, trivial, trivial, trivial⟩, by decide +kernel,
    by decide +kernel, by decide +kernel⟩

end Sample

end NeuroWealth.Vault
