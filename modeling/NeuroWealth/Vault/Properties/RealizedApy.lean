import NeuroWealth.Vault.Proofs.SnapshotsProofs

/-!
# The anchor of the realized APY

`get_user_apy` measures growth from the snapshot of a deposit. No exit clears a snapshot, and a batch
takes none; so the snapshot is that of the deposit that opened the user's position as long as no
batch opens or closes the position of a user who has one.
-/

namespace NeuroWealth.Vault

open Transaction MachineInt SharePool

variable {env : Env} {w w' w0 : World} {step : Step} {steps : List Step} {user : Address}
  {past : List (World × Step)} {snapshot : DepositSnapshot} {apy : Int}

/-! ## Positions -/

/-- The step is a deposit that opens a position of the user, with this snapshot of it. -/
def OpensPosition (user : Address) (snapshot : DepositSnapshot) (w : World) (step : Step) : Prop :=
  w.book.shares user = 0 ∧ ∃ amount, step.Performs w (.deposit user amount) ∧
    snapshot = ⟨(w.after step).book.shares user, amount, w.chain.timestamp⟩

/-- The snapshot is of the deposit that opened the position the user has held shares in since. -/
def HeldSince (past : List (World × Step)) (w : World) (user : Address)
    (snapshot : DepositSnapshot) : Prop :=
  Runs.Since (OpensPosition user snapshot) (fun t => 0 < t.book.shares user) past w

/-- No batch opens or closes the position of a user with a snapshot. -/
def Step.SparesAnchors (w : World) (step : Step) : Prop :=
  ∀ agent entries, step.Performs w (.batchDeposit agent entries) → ∀ user, w.snapshot user ≠ none →
    ((w.after step).book.shares user).sign = (w.book.shares user).sign

/-- The user's snapshot is at least a day old. -/
def World.DayOld (w : World) (user : Address) : Prop :=
  ∃ snapshot, w.snapshot user = some snapshot ∧ 86400 ≤ w.chain.timestamp - snapshot.depositedAt

/-- A snapshot belongs to a user who holds no shares any more, or is the anchor of the position. -/
def Tracked (past : List (World × Step)) (w : World) (user : Address) : Prop :=
  ∀ snapshot, w.snapshot user = some snapshot →
    0 ≤ w.book.shares user ∧ (0 < w.book.shares user → HeldSince past w user snapshot)

/-! ## Steps -/

/-- A step that does not open the user's position with a deposit leaves the snapshot alone. -/
theorem snapshot_after (hi : w.Initialized)
    (h : ∀ amount, step.Performs w (.deposit user amount) → w.book.shares user ≠ 0) :
    (w.after step).snapshot user = w.snapshot user := by
  cases step with
  | ambient chain => rfl
  | call env call =>
    cases hok : (invoke call).succeeds env w with
    | false =>
      have hkept : w.after (.call env call) = w := Tx.commit_of_fails hok
      rw [hkept]
    | true =>
      apply snapshot_of_invoke hi (ok_after hok)
      rintro amount rfl
      exact h amount ⟨env, rfl, hok⟩

/-- A position with a snapshot does not fall below zero, and is not opened without a deposit of the
    user. -/
theorem held_after (hi : w.Initialized) (hspares : step.SparesAnchors w)
    (h : ∀ amount, step.Performs w (.deposit user amount) → w.book.shares user ≠ 0)
    (hsome : w.snapshot user ≠ none) (hnonneg : 0 ≤ w.book.shares user) :
    0 ≤ (w.after step).book.shares user ∧
      (0 < (w.after step).book.shares user → 0 < w.book.shares user) := by
  by_cases hbatch : ∃ agent entries, step.Performs w (.batchDeposit agent entries)
  · obtain ⟨agent, entries, hperforms⟩ := hbatch
    have hsign := hspares agent entries hperforms user hsome
    rcases hnonneg.eq_or_lt with hzero | hpos
    · rw [← hzero, Int.sign_zero, Int.sign_eq_zero_iff_zero] at hsign
      omega
    · rw [Int.sign_eq_one_of_pos hpos, Int.sign_eq_one_iff_pos] at hsign
      omega
  · cases step with
    | ambient chain => exact ⟨hnonneg, id⟩
    | call env call =>
      cases hok : (invoke call).succeeds env w with
      | false =>
        have hkept : w.after (.call env call) = w := Tx.commit_of_fails hok
        rw [hkept]
        exact ⟨hnonneg, id⟩
      | true =>
        have heffect := effect_of_invoke hi (ok_after hok)
        by_cases hmints : call.mints = true
        · cases call
          case deposit payer amount =>
            cases heffect with
            | @deposit _ _ minted t hq hd hminted =>
              have hbook : t.book = w.book := hq.book
              by_cases hu : user = payer
              · subst hu
                have hne := h amount ⟨env, rfl, hok⟩
                have hshares := hd.shares.1
                rw [hbook] at hshares
                omega
              · have hshares := hd.shares.2 user hu
                rw [hbook] at hshares
                omega
            | quiet hcall => cases hcall
            | funds hcall => cases hcall
            | assets hcall => cases hcall
          case batchDeposit agent entries =>
            exact absurd ⟨agent, entries, env, rfl, hok⟩ hbatch
          all_goals cases hmints
        · obtain ⟨hlow, hhigh⟩ :=
            heffect.shares_between (v := user) (Bool.eq_false_of_not_eq_true hmints) hnonneg
          have hsame : w.entered.book.shares user = w.book.shares user := rfl
          omega

theorem tracked_after (hi : w.Initialized) (hspares : step.SparesAnchors w)
    (h : Tracked past w user) : Tracked (past ++ [(w, step)]) (w.after step) user := by
  intro snapshot hsnapshot
  by_cases hopens : w.book.shares user = 0 ∧ ∃ amount, step.Performs w (.deposit user amount)
  · obtain ⟨hzero, amount, env, rfl, hok⟩ := hopens
    have hrun := ok_after hok
    have hheld : 0 < (w.after (.call env (.deposit user amount))).book.shares user := by
      have heffect := effect_of_invoke hi hrun
      cases heffect with
      | @deposit _ _ minted t hq hd hminted =>
        have hbook : t.book = w.book := hq.book
        rw [hd.shares.1, hbook, hzero]
        omega
      | quiet hcall => cases hcall
      | funds hcall => cases hcall
      | assets hcall => cases hcall
    have htaken := snapshot_of_deposit hrun hzero
    rw [hsnapshot, Option.some.injEq] at htaken
    exact ⟨hheld.le, fun _ => .start ⟨hzero, amount, ⟨env, rfl, hok⟩, htaken⟩ hheld⟩
  · have hkept : ∀ amount, step.Performs w (.deposit user amount) → w.book.shares user ≠ 0 :=
      fun amount hperforms hzero => hopens ⟨hzero, amount, hperforms⟩
    rw [snapshot_after hi hkept] at hsnapshot
    obtain ⟨hnonneg, hanchored⟩ := h snapshot hsnapshot
    have hsome : w.snapshot user ≠ none := by
      rw [hsnapshot]
      exact Option.some_ne_none snapshot
    obtain ⟨hlow, hheld⟩ := held_after hi hspares hkept hsome hnonneg
    exact ⟨hlow, fun hpos => (hanchored (hheld hpos)).extend hpos⟩

/-- Along every run that spares the anchors, snapshots are tracked. -/
theorem tracked_of_admits (h0 : w0.Opened) (h : Admits (fun t step => step.SparesAnchors t) w0 steps) :
    (w0.replay steps).Initialized ∧
      ∀ user, Tracked (w0.history steps) (w0.replay steps) user := by
  refine h.invariant (P := fun past t => t.Initialized ∧ ∀ user, Tracked past t user)
    ⟨h0.fresh.initialized, fun user snapshot hsnapshot => ?_⟩ ?_
  · rw [h0.snapshot user] at hsnapshot
    cases hsnapshot
  · rintro past t step hspares ⟨hi, htracked⟩
    exact ⟨(anchored_after step hi).initialized hi, fun user => tracked_after hi hspares (htracked user)⟩

/-! ## The view -/

/-- Without a snapshot of a day ago the view returns zero. -/
theorem getUserApy_zero (hi : w.Initialized) (h : ¬ w.DayOld user) :
    (getUserApy user).Ok env w 0 w := by
  simp only [getUserApy, Tx.ok_bind, Tx.ok_get, ok_requireInitialized, existsAndEq, exists_const,
    and_assoc, true_and]
  refine ⟨hi, ?_⟩
  cases hsnapshot : w.profiles.depositSnapshot user with
  | none => exact Tx.ok_pure.mpr ⟨rfl, rfl⟩
  | some snapshot =>
    have hyoung : w.chain.timestamp - snapshot.depositedAt < 86400 :=
      not_le.mp fun hle => h ⟨snapshot, hsnapshot, hle⟩
    by_cases hempty : snapshot.shares ≤ 0 ∨ snapshot.principal ≤ 0
    · simp only [if_pos hempty, Tx.ok_pure, and_self]
    · simp only [if_neg hempty, if_pos hyoung, Tx.ok_pure, and_self]

/-- With one, the view annualises the growth of the snapshot's shares, whatever the user holds. -/
theorem getUserApy_dayOld (hi : w.Initialized) (hsnapshot : w.snapshot user = some snapshot)
    (hold : 86400 ≤ w.chain.timestamp - snapshot.depositedAt)
    (hpos : 0 < snapshot.shares ∧ 0 < snapshot.principal)
    (hfits : Convertible snapshot.shares w.book.assets w.book.totalShares) :
    (getUserApy user).Ok env w (realizedApy snapshot
      (Pool.assetsFor w.book.totalShares w.book.assets snapshot.shares)
      (w.chain.timestamp - snapshot.depositedAt)) w := by
  have hstored : w.profiles.depositSnapshot user = some snapshot := hsnapshot
  have hsome : ¬ (snapshot.shares ≤ 0 ∨ snapshot.principal ≤ 0) := by omega
  have hvalue : (convertToAssetsInternal snapshot.shares).Ok env w
      (Pool.assetsFor w.book.totalShares w.book.assets snapshot.shares) w :=
    convertToAssetsAt_ok_iff.mpr ⟨⟨rfl, hfits⟩, rfl⟩
  simp only [getUserApy, Tx.ok_bind, Tx.ok_get, ok_requireInitialized, existsAndEq, exists_const,
    and_assoc, true_and]
  refine ⟨hi, ?_⟩
  simp only [hstored, if_neg hsome, if_neg (not_lt.mpr hold)]
  exact Tx.ok_bind.mpr ⟨_, w, hvalue, Tx.ok_pure.mpr ⟨rfl, rfl⟩⟩

/-- What is not zero is computed from the user's snapshot. -/
theorem getUserApy_ok (h : (getUserApy user).Ok env w apy w') (hne : apy ≠ 0) :
    ∃ snapshot, w.snapshot user = some snapshot ∧
      apy = realizedApy snapshot
        (Pool.assetsFor w.book.totalShares w.book.assets snapshot.shares)
        (w.chain.timestamp - snapshot.depositedAt) := by
  simp only [getUserApy, Tx.ok_bind, Tx.ok_get, ok_requireInitialized, existsAndEq, exists_const,
    and_assoc, true_and] at h
  obtain ⟨-, h⟩ := h
  cases hsnapshot : w.profiles.depositSnapshot user with
  | none =>
    rw [hsnapshot] at h
    exact absurd (Tx.ok_pure.mp h).1 hne
  | some snapshot =>
    rw [hsnapshot] at h
    simp only [Tx.ok_ite, Tx.ok_pure, Tx.ok_bind] at h
    rcases h with ⟨-, hzero, -⟩ | ⟨-, ⟨-, hzero, -⟩ | ⟨-, value, t, hvalue, hapy, -⟩⟩
    · exact absurd hzero hne
    · exact absurd hzero hne
    · refine ⟨snapshot, hsnapshot, ?_⟩
      rw [hapy, (ok_convertToAssetsInternal hvalue).1]

/-- In every run in which no batch opens or closes the position of a user with a snapshot, the view
    returns zero for a user without shares whose snapshot is not a day old, and anything else it
    returns for a user with shares is computed from the snapshot of the deposit that opened the
    position. -/
theorem realized_apy_anchored (h0 : w0.Opened)
    (h : Admits (fun t step => step.SparesAnchors t) w0 steps) (env : Env) (user : Address) :
    ((w0.replay steps).book.shares user = 0 → ¬ (w0.replay steps).DayOld user →
      (getUserApy user).Ok env (w0.replay steps) 0 (w0.replay steps)) ∧
    (0 < (w0.replay steps).book.shares user → ∀ apy w',
      (getUserApy user).Ok env (w0.replay steps) apy w' → apy ≠ 0 →
      ∃ snapshot, (w0.replay steps).snapshot user = some snapshot ∧
        apy = realizedApy snapshot
          (Pool.assetsFor (w0.replay steps).book.totalShares (w0.replay steps).book.assets
            snapshot.shares)
          ((w0.replay steps).chain.timestamp - snapshot.depositedAt) ∧
        HeldSince (w0.history steps) (w0.replay steps) user snapshot) := by
  obtain ⟨hi, htracked⟩ := tracked_of_admits h0 h
  refine ⟨fun _ hyoung => getUserApy_zero hi hyoung, fun hpos apy w' hok hne => ?_⟩
  obtain ⟨snapshot, hsnapshot, hapy⟩ := getUserApy_ok hok hne
  exact ⟨snapshot, hsnapshot, hapy, (htracked user snapshot hsnapshot).2 hpos⟩

/-! ## Runs -/

namespace Sample

/-- Alice and bob deposit, ten days pass, and two USDC of yield are reported. -/
def tenDays : List Step :=
  [.call honest (.deposit alice 5000000), .call honest (.deposit bob 7000000),
    .ambient { opened.chain with timestamp := 864000, balances := fun _ _ => 20000000 },
    .call honest (.updateTotalAssets Sample.agent 14000000 false 0)]

/-- What alice's snapshot of five USDC is worth after ten days, with a sixth more in the vault. -/
theorem reported {w : World} (h : w.Initialized ∧ w.snapshot alice = some ⟨5000000, 5000000, 0⟩ ∧
    w.chain.timestamp = 864000 ∧ i128.Fits (5000000 * w.book.assets) ∧
    Pool.assetsFor w.book.totalShares w.book.assets 5000000 = 5833333 ∧
    i128.Fits ((5000000 * w.book.assets).tdiv w.book.totalShares)) :
    (getUserApy alice).Ok honest w 60809 w := by
  obtain ⟨hi, hsnapshot, htime, hproduct, hvalue, hfits⟩ := h
  have hok : (getUserApy alice).Ok honest w _ w :=
    getUserApy_dayOld hi hsnapshot (by rw [htime]; decide) (by decide)
      fun _ _ _ => ⟨hproduct, hfits⟩
  rw [htime, hvalue] at hok
  exact hok

theorem tenDays_anchored :
    ∃ snapshot, (opened.replay tenDays).snapshot alice = some snapshot ∧
      60809 = realizedApy snapshot
        (Pool.assetsFor (opened.replay tenDays).book.totalShares (opened.replay tenDays).book.assets
          snapshot.shares)
        ((opened.replay tenDays).chain.timestamp - snapshot.depositedAt) ∧
      HeldSince (opened.history tenDays) (opened.replay tenDays) alice snapshot := by
  have hspares : Admits (fun t step => step.SparesAnchors t) opened tenDays := by
    refine ⟨?_, ?_, ?_, ?_, trivial⟩
    all_goals
      rintro agent entries ⟨env, hstep, -⟩
      cases hstep
  obtain ⟨-, hanchored⟩ := realized_apy_anchored opened_opened hspares honest alice
  have hreported : (getUserApy alice).Ok honest (opened.replay tenDays) 60809
      (opened.replay tenDays) := reported (by decide +kernel)
  exact hanchored (by decide +kernel) 60809 _ hreported (by decide)

/-- Then alice withdraws everything. -/
def left : List Step := tenDays ++ [.call honest (.withdrawAll alice)]

/-- She has no shares left, and the view goes on to report what her position had earned. -/
theorem left_still_reported :
    opened.Opened ∧ Reaches (fun _ _ => True) opened (opened.replay left) ∧
      (opened.replay left).book.shares alice = 0 ∧
      (getUserApy alice).Ok honest (opened.replay left) 60809 (opened.replay left) := by
  have hreach : Reaches (fun _ _ => True) opened (opened.replay left) :=
    .of_admits ⟨trivial, trivial, trivial, trivial, trivial, trivial⟩
  exact ⟨opened_opened, hreach, by decide +kernel, reported (by decide +kernel)⟩

end Sample

end NeuroWealth.Vault
