import NeuroWealth.ShareMath.Proofs.PlainVaultProofs

/-!
# The model and the contract in lockstep

From an empty vault the model accepts what the contract accepts and their fields stay equal, as
long as no operation takes a branch on which they part.
-/

namespace NeuroWealth.ShareMath

open Transaction Vault MachineInt SharePool VaultModel

variable {env : Env} {w w' : World} {c : Parties} {m m' : VaultModel} {user : Nat}
  {amount minted burned returned : Int} {i : Fin 2}

/-- What holds of both along a run. -/
structure Joint (c : Parties) (m : VaultModel) (w : World) : Prop where
  plain : Plain c w
  agrees : Matches c m w
  sound : m.Sound
  par : m.totalShares ≤ m.totalAssets
  principal_nonneg : 0 ≤ m.totalDeposits
  principal_le : m.totalDeposits ≤ m.totalAssets
  funded : m.totalAssets ≤ w.idle

/-! ## At least par -/

namespace VaultModel

/-- An operation that keeps the rate keeps a share worth at least one unit. -/
theorem RateKept.par (h : RateKept m m') (hpar : m.totalShares ≤ m.totalAssets)
    (hS : 0 < m.totalShares) (hS' : 0 ≤ m'.totalShares) (hA' : 0 ≤ m'.totalAssets) :
    m'.totalShares ≤ m'.totalAssets := by
  by_cases hzero : m'.totalShares = 0
  · omega
  · have hrate := h hS (by omega)
    have hscaled : m.totalShares * m'.totalShares ≤ m.totalAssets * m'.totalShares :=
      mul_le_mul_of_nonneg_right hpar hS'
    have hprod : m'.totalShares * m.totalShares ≤ m'.totalAssets * m.totalShares := by
      calc m'.totalShares * m.totalShares = m.totalShares * m'.totalShares := mul_comm _ _
        _ ≤ m.totalAssets * m'.totalShares := hscaled
        _ ≤ m'.totalAssets * m.totalShares := hrate
    exact le_of_mul_le_mul_right hprod hS

theorem Deposited.par (h : Deposited m m' user amount i minted) (hm : m.Sound)
    (hpar : m.totalShares ≤ m.totalAssets) : m'.totalShares ≤ m'.totalAssets := by
  have hm' := h.sound hm
  by_cases hS : m.totalShares = 0
  · have hminted := sharesFloor_some h.conversion
    rw [hS, Pool.sharesFor_empty] at hminted
    rw [h.after]
    show m.totalShares + minted ≤ m.totalAssets + amount
    omega
  · have hpos := hm.totalShares_nonneg
    exact h.rate.par hpar (by omega) hm'.totalShares_nonneg hm'.assets_nonneg

theorem Withdrawn.par (h : Withdrawn m m' user amount i burned returned) (hm : m.Sound)
    (hpar : m.totalShares ≤ m.totalAssets) : m'.totalShares ≤ m'.totalAssets := by
  have hm' := h.sound hm
  by_cases hS : m.totalShares = 0
  · have hheld : m.userShares i ≤ m.totalShares := hm.toConserved.shares_le i
    have hburned := sharesCeil_some h.conversion
    have hpos := h.positive
    have hcovered := h.covered
    rw [hS] at hburned
    unfold Pool.sharesForUp at hburned
    rw [if_neg hpos.ne', if_pos (.inl rfl)] at hburned
    omega
  · have hpos := hm.totalShares_nonneg
    exact (h.rate hm).par hpar (by omega) hm'.totalShares_nonneg hm'.assets_nonneg

end VaultModel

/-! ## Frames -/

/-- A plain vault stays one while its configuration does. -/
theorem Plain.kept (hp : Plain c w) (hi : w'.Initialized) (hself : w'.self = w.self)
    (hroles : w'.roles = w.roles) (hbreaker : w'.breaker = w.breaker)
    (hlimits : w'.limits.configured = w.limits.configured) (hlocks : w'.locks = w.locks)
    (hholding : w'.holding.minHoldingPeriod = w.holding.minHoldingPeriod)
    (hdeployment : w'.deployment = w.deployment) : Plain c w' where
  initialized := hi
  distinct := hp.distinct
  foreign i := by
    rw [hself]
    exact hp.foreign i
  agent := by
    rw [hroles]
    exact hp.agent
  agent_foreign := by
    rw [hself]
    exact hp.agent_foreign
  live := by
    rw [hbreaker]
    exact hp.live
  marker := by
    rw [hdeployment]
    exact hp.marker
  noUserCap := by
    have hcap : w'.limits.userDepositCap = w.limits.userDepositCap := by
      have := congrArg Limits.userDepositCap hlimits
      exact this
    rw [hcap]
    exact hp.noUserCap
  noLock i := by
    rw [hlocks]
    exact hp.noLock i
  noHoldingPeriod := hholding.trans hp.noHoldingPeriod
  noDepositRate := by
    have hconfig : w'.limits.rateLimitConfig = w.limits.rateLimitConfig := by
      have := congrArg Limits.rateLimitConfig hlimits
      exact this
    rw [hconfig]
    exact hp.noDepositRate
  noWithdrawRate := by
    have hconfig : w'.limits.rateLimitConfig = w.limits.rateLimitConfig := by
      have := congrArg Limits.rateLimitConfig hlimits
      exact this
    rw [hconfig]
    exact hp.noWithdrawRate

theorem tvlCap_kept (hlimits : w'.limits.configured = w.limits.configured) :
    w'.limits.tvlCap = w.limits.tvlCap := by
  have := congrArg Limits.tvlCap hlimits
  exact this

theorem Matches.assets (h : Matches c m w) : w.book.assets = m.totalAssets := by
  unfold Book.assets
  rw [h.totalAssets]
  rfl

/-- Nobody's shares are negative, and those of the users are all there are. -/
theorem Joint.shares_nonneg (h : Joint c m w) (u : Address) : 0 ≤ w.book.shares u := by
  by_cases hu : ∀ i, u ≠ c.users i
  · exact (h.agrees.others u hu).ge
  · push Not at hu
    obtain ⟨i, rfl⟩ := hu
    rw [h.agrees.userShares]
    exact h.sound.shares_nonneg i

theorem Plain.users_ne (hp : Plain c w) {i j : Fin 2} (h : j ≠ i) : c.users j ≠ c.users i := by
  have hdistinct := hp.distinct
  fin_cases i <;> fin_cases j
  · exact absurd rfl h
  · exact hdistinct.symm
  · exact hdistinct
  · exact absurd rfl h

/-! ## Deposits -/

theorem Matches.credited (hm : Matches c m w) (hp : Plain c w)
    (hbook : w'.book = w.book.credited (c.users i) amount minted) (hcap : w'.limits.tvlCap = m.tvlCap) :
    Matches c ⟨m.totalShares + minted, m.totalAssets + amount,
      m.setShares i (m.userShares i + minted), m.totalDeposits + amount, m.tvlCap⟩ w' where
  totalShares := by
    rw [hbook, ← hm.totalShares]
    rfl
  totalAssets := by
    rw [hbook]
    show some (w.book.totalAssets.getD _ + amount) = _
    rw [hm.totalAssets]
    rfl
  userShares j := by
    rw [hbook]
    show (if c.users j = c.users i then w.book.shares _ + minted else w.book.shares _) =
      if j = i then m.userShares i + minted else m.userShares j
    rw [hm.userShares]
    by_cases hj : j = i
    · rw [if_pos hj, if_pos (congrArg c.users hj), hj]
    · rw [if_neg hj, if_neg (hp.users_ne hj)]
  others u hu := by
    rw [hbook]
    show (if u = c.users i then w.book.shares u + minted else w.book.shares u) = 0
    rw [if_neg (hu i)]
    exact hm.others u hu
  totalDeposits := by
    rw [hbook, ← hm.totalDeposits]
    rfl
  tvlCap := hcap

/-- A deposit the contract accepts, the model accepts, with the same outcome. -/
theorem Joint.deposit_ok (hj : Joint c m w) (hslot : slot user = some i)
    (h : (Vault.deposit (c.users i) amount).Ok env w () w') :
    ∃ m', m.deposit user amount = some m' ∧ Joint c m' w' := by
  have hp := hj.plain
  have hm := hj.agrees
  have hwrites := writes_deposit (S := [.holders, .snapshots]) (.head _) (.tail _ (.head _)) h
  obtain ⟨-, h⟩ := hp.deposit_iff.mp h
  obtain ⟨hpos, -, -, -, hcap, token, htoken, hfunds, hcredit⟩ := ok_depositFrom.mp h
  obtain ⟨hcap, -⟩ := ok_requireWithinTvlCap.mp hcap
  obtain ⟨minted, hchecks, hcredit⟩ := credits_of_ok (A := m.totalAssets) (by exact hm.totalAssets) hcredit
  have hpaid : Paid token w (w.paying token (c.users i) w.self amount) (c.users i) w.self amount := by
    have hrun : (transfer token (c.users i) w.self amount).Ok env w () _ :=
      ok_transfer.mpr ⟨hfunds, rfl⟩
    exact transfer_ok hrun
  obtain ⟨hconv, hminted, hshares, hsupply, hdeposits, hassets⟩ := hchecks
  change sharesFloor amount w.book.totalShares _ = _ at hconv
  change i128.Fits (w.book.shares (c.users i) + minted) at hshares
  change i128.Fits (w.book.totalShares + minted) at hsupply
  change i128.Fits (w.book.totalDeposits + amount) at hdeposits
  change i128.Fits (w.book.totalAssets.getD _ + amount) at hassets
  rw [hm.totalShares] at hconv hsupply
  rw [hm.userShares] at hshares
  rw [hm.totalDeposits] at hdeposits
  rw [hm.totalAssets] at hassets
  rw [hm.tvlCap, hm.assets] at hcap
  let m' : VaultModel := ⟨m.totalShares + minted, m.totalAssets + amount,
    m.setShares i (m.userShares i + minted), m.totalDeposits + amount, m.tvlCap⟩
  have hdep : Deposited m m' user amount i minted := by
    refine ⟨hslot, hpos, fun hon => ⟨hdeposits, ?_⟩, hconv, hminted.le, hshares, hsupply, hassets,
      hdeposits, rfl⟩
    have hle := hj.principal_le
    have := (hcap hon).2
    omega
  have hbook := hcredit.book
  have hlimits : w'.limits.configured = w.limits.configured := hwrites .limits (by decide)
  have hidle : w'.idle = w.idle + amount := by
    rw [hcredit.accounting.idle]
    exact hpaid.idle_in htoken (hp.foreign i)
  refine ⟨m', deposit_some.mpr ⟨i, minted, hdep⟩, ?_, ?_, hdep.sound hj.sound,
    hdep.par hj.sound hj.par, ?_, ?_, ?_⟩
  · apply hp.kept _ _ (hwrites .roles (by decide)) (hwrites .breaker (by decide)) hlimits
    · exact hcredit.accounting.locks
    · rw [hcredit.holding]
      rfl
    · exact hcredit.accounting.deployment
    · exact hcredit.accounting.initialized (hpaid.initialized hp.initialized)
    · exact hcredit.accounting.self
  · apply hm.credited hp hbook
    rw [tvlCap_kept hlimits, hm.tvlCap]
  · exact add_nonneg hj.principal_nonneg hpos.le
  · exact Int.add_le_add_right hj.principal_le amount
  · rw [hidle]
    exact Int.add_le_add_right hj.funded amount

/-- A deposit the model accepts, the contract accepts, where the two do not part. -/
theorem Joint.deposit_succeeds (hj : Joint c m w) (h : Deposited m m' user amount i minted)
    (hagree : Agreeable m (.deposit user amount)) (hauth : c.users i ∈ env.auths)
    (hbounds : w.limits.minDeposit ≤ amount ∧ amount ≤ w.limits.maxDeposit)
    (hfunds : ∀ token, w.usdcToken = some token → amount ≤ w.chain.balances token (c.users i)) :
    ∃ w', (Vault.deposit (c.users i) amount).Ok env w () w' := by
  have hp := hj.plain
  have hm := hj.agrees
  have hpos := h.positive
  obtain ⟨hmints, hroom⟩ := hagree hpos
  obtain ⟨token, htoken⟩ := Option.isSome_iff_exists.mp hp.initialized.2.1
  have hminted : minted ≠ 0 := by
    rw [sharesFloor_some h.conversion]
    exact hmints
  have hcredits : Credits (w.paying token (c.users i) w.self amount) (c.users i) amount
      m.totalAssets minted := by
    refine ⟨?_, ?_, ?_, ?_, ?_, ?_⟩
    · show sharesFloor amount w.book.totalShares _ = _
      rw [hm.totalShares]
      exact h.conversion
    · have := h.minted_nonneg
      omega
    · show i128.Fits (w.book.shares (c.users i) + minted)
      rw [hm.userShares]
      exact h.shares_fit
    · show i128.Fits (w.book.totalShares + minted)
      rw [hm.totalShares]
      exact h.supply_fits
    · show i128.Fits (w.book.totalDeposits + amount)
      rw [hm.totalDeposits]
      exact h.deposits_fit
    · show i128.Fits (w.book.totalAssets.getD _ + amount)
      rw [hm.totalAssets]
      exact h.assets_fit
  obtain ⟨w', hcredit⟩ : ∃ w', (creditDeposit (c.users i) amount).Ok env
      (w.paying token (c.users i) w.self amount) () w' := hcredits.succeeds hm.totalAssets
  refine ⟨w', hp.deposit_iff.mpr ⟨hauth, ok_depositFrom.mpr ⟨hpos, hbounds.1, hbounds.2, ?_, ?_,
    token, htoken, ⟨hpos.le, hfunds token htoken⟩, hcredit⟩⟩⟩
  · refine ok_requireWithinDepositCap.mpr ⟨fun hon => ?_, rfl⟩
    have := hp.noUserCap
    omega
  · refine ok_requireWithinTvlCap.mpr ⟨?_, rfl⟩
    rw [hm.tvlCap, hm.assets]
    exact fun hon => ⟨h.assets_fit, hroom hon (h.cap hon).2⟩

/-! ## Withdrawals -/

theorem Matches.debited (hm : Matches c m w) (hp : Plain c w)
    (hbook : w'.book =
      w.book.debited (c.users i) returned burned (w.book.depositsAfterWithdraw returned))
    (hle : returned ≤ m.totalDeposits) (hcap : w'.limits.tvlCap = m.tvlCap) :
    Matches c ⟨m.totalShares - burned, m.totalAssets - returned,
      m.setShares i (m.userShares i - burned), i128.saturatingSub m.totalDeposits returned,
      m.tvlCap⟩ w' where
  totalShares := by
    rw [hbook, ← hm.totalShares]
    rfl
  totalAssets := by
    rw [hbook, ← hm.assets]
    rfl
  userShares j := by
    rw [hbook]
    show (if c.users j = c.users i then w.book.shares _ - burned else w.book.shares _) =
      if j = i then m.userShares i - burned else m.userShares j
    rw [hm.userShares]
    by_cases hj : j = i
    · rw [if_pos hj, if_pos (congrArg c.users hj), hj]
    · rw [if_neg hj, if_neg (hp.users_ne hj)]
  others u hu := by
    rw [hbook]
    show (if u = c.users i then w.book.shares u - burned else w.book.shares u) = 0
    rw [if_neg (hu i)]
    exact hm.others u hu
  totalDeposits := by
    rw [hbook]
    show max (i128.saturatingSub w.book.totalDeposits returned) 0 = _
    rw [hm.totalDeposits]
    apply max_eq_left
    apply saturate_nonneg
    omega
  tvlCap := hcap

/-- A withdrawal the contract accepts, the model accepts, with the same outcome where the two do
    not part. -/
theorem Joint.withdraw_ok (hj : Joint c m w) (hslot : slot user = some i)
    (hagree : Agreeable m (.withdraw user amount))
    (h : (Vault.withdraw (c.users i) amount).Ok env w () w') :
    ∃ m', m.withdraw user amount = some m' ∧ Joint c m' w' := by
  have hp := hj.plain
  have hm := hj.agrees
  have hwrites := writes_withdraw (S := []) h
  obtain ⟨-, hpos, token, ⟨returned, burned⟩, t, htoken, hredeem, hpub⟩ := hp.withdraw_iff.mp h
  have hchecks := redeem_iff.mp ⟨t, hredeem⟩
  obtain ⟨hred, -, -⟩ := redeem_ok (hp.foreign i) htoken hredeem
  have hred : Redeemed w w' (c.users i) returned burned := hred.of_quiet (quiet_publish rfl hpub)
  have hconv := hchecks.conversion
  have hvalue := hchecks.value
  have hcovered := hchecks.covered
  have hshares := hchecks.shares_fit
  have hsupply := hchecks.supply_fits
  have hassets := hchecks.assets_fit
  rw [hm.totalShares, hm.assets] at hconv hvalue
  rw [hm.userShares] at hcovered hshares
  rw [hm.totalShares] at hsupply
  rw [hm.assets] at hassets
  let m' : VaultModel := ⟨m.totalShares - burned, m.totalAssets - returned,
    m.setShares i (m.userShares i - burned), i128.saturatingSub m.totalDeposits returned, m.tvlCap⟩
  have hwd : Withdrawn m m' user amount i burned returned :=
    ⟨hslot, hpos, hconv, hchecks.burned_pos.le, hcovered, hvalue, hshares, hsupply, hassets, rfl⟩
  have hle : returned ≤ m.totalDeposits := by
    rw [hwd.returned_eq, sharesCeil_some hconv]
    apply hagree i hslot hpos
    rw [← sharesCeil_some hconv]
    exact hcovered
  have hkept : 0 ≤ m.totalDeposits - returned := by omega
  have hlimits : w'.limits.configured = w.limits.configured := hwrites .limits (by decide)
  have hbook := hred.book
  obtain ⟨token', s, htoken', hdebit, hpaid⟩ := hred.steps
  have hself := hdebit.accounting.self
  have hidle : w'.idle = w.idle - returned := by
    rw [← hdebit.accounting.idle]
    rw [← hself] at hpaid
    apply hpaid.idle_out
    · rw [hdebit.accounting.usdcToken, htoken']
    · rw [hself]
      exact hp.foreign i
  refine ⟨m', withdraw_some.mpr ⟨i, burned, returned, hwd⟩, ?_, ?_, hwd.sound hj.sound,
    hwd.par hj.sound hj.par, ?_, ?_, ?_⟩
  · apply hp.kept _ _ (hwrites .roles (by decide)) (hwrites .breaker (by decide)) hlimits
    · exact hpaid.locks.trans hdebit.accounting.locks
    · rw [hpaid.holding, hdebit.holding]
    · exact hpaid.deployment.trans hdebit.accounting.deployment
    · exact hpaid.initialized (hdebit.accounting.initialized hp.initialized)
    · exact hpaid.self.trans hself
  · apply hm.debited hp hbook hle
    rw [tvlCap_kept hlimits, hm.tvlCap]
  · exact saturate_nonneg hkept
  · have hsat : i128.saturate (m.totalDeposits - returned) ≤ m.totalDeposits - returned :=
      saturate_le hkept
    have := hj.principal_le
    show i128.saturate (m.totalDeposits - returned) ≤ m.totalAssets - returned
    omega
  · have := hj.funded
    rw [hidle]
    show m.totalAssets - returned ≤ w.idle - returned
    omega

/-- A withdrawal the model accepts, the contract accepts. -/
theorem Joint.withdraw_succeeds (hj : Joint c m w) (h : Withdrawn m m' user amount i burned returned)
    (hauth : c.users i ∈ env.auths) : ∃ w', (Vault.withdraw (c.users i) amount).Ok env w () w' := by
  have hp := hj.plain
  have hm := hj.agrees
  have hpos := h.positive
  have hcovered := h.covered
  have hheld : m.userShares i ≤ m.totalShares := hj.sound.toConserved.shares_le i
  have hS := hj.sound.totalShares_nonneg
  have hpar := hj.par
  have hburned := sharesCeil_some h.conversion
  obtain ⟨token, htoken⟩ := Option.isSome_iff_exists.mp hp.initialized.2.1
  have hsupply : 0 < m.totalShares := by
    by_contra hnone
    have hzero : m.totalShares = 0 := by omega
    rw [hzero] at hburned
    unfold Pool.sharesForUp at hburned
    rw [if_neg hpos.ne', if_pos (.inl rfl)] at hburned
    omega
  have hburned_pos : 0 < burned := by
    rw [hburned]
    exact Pool.sharesForUp_pos hsupply (by omega) hpos
  have hredeem : Redeemable w (c.users i) token amount returned burned := by
    refine ⟨?_, ?_, ?_, ?_, hburned_pos, ?_, ?_, ?_, ?_, ?_, h.returned_nonneg hj.sound, ?_⟩
    · rw [hm.userShares]
      omega
    · rw [hm.totalShares]
      exact hsupply
    · rw [hm.assets]
      omega
    · rw [hm.totalShares, hm.assets]
      exact h.conversion
    · rw [hm.userShares]
      exact hcovered
    · rw [hm.totalShares, hm.assets]
      exact h.value
    · rw [hm.userShares]
      exact h.shares_fit
    · rw [hm.totalShares]
      exact h.supply_fits
    · rw [hm.assets]
      exact h.assets_fit
    · rw [← idle_eq htoken]
      exact (h.returned_le hj.sound).trans hj.funded
  have hrun : ∃ t, (redeem (c.users i) token amount).Ok env w (returned, burned) t :=
    redeem_iff.mpr hredeem
  obtain ⟨t, hrun⟩ := hrun
  exact ⟨_, hp.withdraw_iff.mpr ⟨hauth, hpos, token, (returned, burned), t, htoken, hrun,
    ok_publish.mpr rfl⟩⟩

/-! ## Reports -/

theorem Plain.visible (hp : Plain c w) : w.visible = w.idle := by
  unfold World.visible
  rw [hp.marker]
  simp

/-- Yield whose report the contract accepts, the model accrues, with the same outcome. -/
theorem Joint.report_ok (hj : Joint c m w) (hfits : i128.Fits w.idle)
    (h : (Vault.updateTotalAssets c.agent (w.book.assets + amount) false 0).Ok env w () w') :
    ∃ m', m.accrueYield amount = some m' ∧ Joint c m' w' := by
  have hp := hj.plain
  have hm := hj.agrees
  have hwrites := writes_updateTotalAssets (S := []) h
  have hup := updateTotalAssets_up h
  obtain ⟨hvisible, hquiet, -⟩ := updateTotalAssets_ok h
  rw [hp.visible] at hvisible
  rw [hm.assets] at hup hvisible
  have hA := hj.sound.assets_nonneg
  have hsum : i128.Fits (m.totalAssets + amount) := fits_of_le (by omega) hvisible hfits
  let m' : VaultModel := { m with totalAssets := m.totalAssets + amount }
  have haccrue : m.accrueYield amount = some m' := accrueYield_some.mpr ⟨by omega, hsum, rfl⟩
  have hlimits : w'.limits.configured = w.limits.configured := hwrites .limits nofun
  have hidle : w'.idle = w.idle := hquiet.accounting.idle
  have hbook : w'.book = { w.book with totalAssets := some (w.book.assets + amount) } := hquiet.book
  refine ⟨m', haccrue, ?_, ?_, accrueYield_sound haccrue hj.sound, ?_, hj.principal_nonneg, ?_, ?_⟩
  · apply hp.kept _ hquiet.self (hwrites .roles nofun) (hwrites .breaker nofun) hlimits
    · exact hquiet.locks
    · rw [hquiet.holding]
    · exact hquiet.deployment
    · exact hquiet.initialized hp.initialized
  · constructor
    · rw [hbook]
      exact hm.totalShares
    · rw [hbook, hm.assets]
    · rw [hbook]
      exact hm.userShares
    · rw [hbook]
      exact hm.others
    · rw [hbook]
      exact hm.totalDeposits
    · rw [tvlCap_kept hlimits]
      exact hm.tvlCap
  · have := hj.par
    show m.totalShares ≤ m.totalAssets + amount
    omega
  · have := hj.principal_le
    show m.totalDeposits ≤ m.totalAssets + amount
    omega
  · rw [hidle]
    exact hvisible

/-- Yield the model accrues, the contract lets the agent report once it has arrived. -/
theorem Joint.report_succeeds (hj : Joint c m w) (h : m.accrueYield amount = some m')
    (hagree : Agreeable m (.accrueYield amount)) (hauth : c.agent ∈ env.auths)
    (harrived : w.book.assets + amount ≤ w.idle) :
    ∃ w', (Vault.updateTotalAssets c.agent (w.book.assets + amount) false 0).Ok env w () w' := by
  have hm := hj.agrees
  obtain ⟨hnonneg, hfits, -⟩ := accrueYield_some.mp h
  have hA := hj.sound.assets_nonneg
  have hyield : w.book.assets + amount - w.book.assets = amount := by omega
  have hproducts : ∀ u, i128.Fits (amount * w.book.shares u) := by
    intro u
    by_cases hu : ∀ i, u ≠ c.users i
    · rw [hm.others u hu, mul_zero]
      exact ⟨i128.least_nonpos, i128.greatest_nonneg⟩
    · push Not at hu
      obtain ⟨i, rfl⟩ := hu
      rw [hm.userShares]
      exact hagree hnonneg i
  have hS : 0 ≤ w.book.totalShares := by
    rw [hm.totalShares]
    exact hj.sound.totalShares_nonneg
  have hstored : w.book.totalAssets = some w.book.assets := by
    rw [hm.assets]
    exact hm.totalAssets
  have hrise : i128.Fits (w.book.assets + amount - w.book.assets) := by
    rw [hyield]
    exact fits_of_le hnonneg (by omega) hfits
  rw [← hyield] at hproducts
  obtain ⟨_, w', hrun⟩ := hj.plain.updateTotalAssets_succeeds hstored hauth (by omega) harrived
    hrise hS hj.shares_nonneg hproducts
  exact ⟨w', hrun⟩

/-! ## One turn -/

theorem Joint.ambient {chain : Chain} (hj : Joint c m w)
    (hkept : w.idle ≤ (w.after (.ambient chain)).idle) : Joint c m (w.after (.ambient chain)) where
  plain := ⟨hj.plain.initialized, hj.plain.distinct, hj.plain.foreign, hj.plain.agent,
    hj.plain.agent_foreign, hj.plain.live, hj.plain.marker, hj.plain.noUserCap, hj.plain.noLock,
    hj.plain.noHoldingPeriod, hj.plain.noDepositRate, hj.plain.noWithdrawRate⟩
  agrees := ⟨hj.agrees.totalShares, hj.agrees.totalAssets, hj.agrees.userShares, hj.agrees.others,
    hj.agrees.totalDeposits, hj.agrees.tvlCap⟩
  sound := hj.sound
  par := hj.par
  principal_nonneg := hj.principal_nonneg
  principal_le := hj.principal_le
  funded := hj.funded.trans hkept

theorem Joint.entered (hj : Joint c m w) : Joint c m w.entered where
  plain := ⟨hj.plain.initialized, hj.plain.distinct, hj.plain.foreign, hj.plain.agent,
    hj.plain.agent_foreign, hj.plain.live, hj.plain.marker, hj.plain.noUserCap, hj.plain.noLock,
    hj.plain.noHoldingPeriod, hj.plain.noDepositRate, hj.plain.noWithdrawRate⟩
  agrees := ⟨hj.agrees.totalShares, hj.agrees.totalAssets, hj.agrees.userShares, hj.agrees.others,
    hj.agrees.totalDeposits, hj.agrees.tvlCap⟩
  sound := hj.sound
  par := hj.par
  principal_nonneg := hj.principal_nonneg
  principal_le := hj.principal_le
  funded := hj.funded

/-- What the contract accepts, the model accepts, with the same outcome. -/
theorem Joint.follows {t : Turn} {call : Call} (hj : Joint c m w) (hs : Supports c w t)
    (hagree : Agreeable m t.op) (hcall : c.call w t.op = some call)
    (h : (invoke call).Ok t.env (w.after (.ambient t.chain)) () w') :
    ∃ m', t.op.run m = some m' ∧ Joint c m' w' := by
  have hnext := (hj.ambient hs.kept).entered
  have hrun := ok_invoke.mp h
  obtain ⟨op, env, chain⟩ := t
  cases op with
  | deposit user assets =>
    obtain ⟨i, hslot, rfl⟩ := Option.map_eq_some_iff.mp hcall
    exact hnext.deposit_ok hslot hrun
  | withdraw user assets =>
    obtain ⟨i, hslot, rfl⟩ := Option.map_eq_some_iff.mp hcall
    exact hnext.withdraw_ok hslot hagree hrun
  | accrueYield yieldAmount =>
    cases hcall
    exact hnext.report_ok hs.representable hrun

/-- What the model accepts, the contract accepts. -/
theorem Joint.leads {t : Turn} (hj : Joint c m w) (hs : Supports c w t)
    (hagree : Agreeable m t.op) (h : t.op.run m = some m') :
    ∃ call w', c.call w t.op = some call ∧
      (invoke call).Ok t.env (w.after (.ambient t.chain)) () w' := by
  have hnext := (hj.ambient hs.kept).entered
  obtain ⟨op, env, chain⟩ := t
  cases op with
  | deposit user assets =>
    obtain ⟨i, minted, hdep⟩ := deposit_some.mp h
    obtain ⟨w', hrun⟩ := hnext.deposit_succeeds hdep hagree (hs.signed.1 i)
      (hs.unbounded user assets rfl hdep.positive)
      (fun token => hs.funded user assets i token rfl hdep.positive hdep.slot)
    refine ⟨.deposit (c.users i) assets, w', ?_, ok_invoke.mpr hrun⟩
    show (slot user).map _ = _
    rw [hdep.slot]
    rfl
  | withdraw user assets =>
    obtain ⟨i, burned, returned, hwd⟩ := withdraw_some.mp h
    obtain ⟨w', hrun⟩ := hnext.withdraw_succeeds hwd (hs.signed.1 i)
    refine ⟨.withdraw (c.users i) assets, w', ?_, ok_invoke.mpr hrun⟩
    show (slot user).map _ = _
    rw [hwd.slot]
    rfl
  | accrueYield yieldAmount =>
    obtain ⟨w', hrun⟩ := hnext.report_succeeds h hagree hs.signed.2 (hs.arrived yieldAmount rfl)
    exact ⟨_, w', rfl, ok_invoke.mpr hrun⟩

/-- Both accept or both reject, and go on together. -/
theorem Joint.turn {t : Turn} (hj : Joint c m w) (hs : Supports c w t)
    (hagree : Agreeable m t.op) :
    ((t.op.run m).isSome ↔ c.accepts w t = true) ∧ Joint c (m.after t.op) (c.answer w t) := by
  unfold VaultModel.after Parties.accepts Parties.answer
  by_cases haccepted : ∃ m', t.op.run m = some m'
  · obtain ⟨m', hrun⟩ := haccepted
    obtain ⟨call, w', hcall, hok⟩ := hj.leads hs hagree hrun
    obtain ⟨m'', hrun', hnext⟩ := hj.follows hs hagree hcall hok
    have hsame : (invoke call).commit t.env (w.after (.ambient t.chain)) = w' := Tx.commit_of_ok hok
    rw [hcall, hrun']
    refine ⟨⟨fun _ => Tx.succeeds_of_ok hok, fun _ => rfl⟩, ?_⟩
    show Joint c m'' ((invoke call).commit t.env (w.after (.ambient t.chain)))
    rwa [hsame]
  · have hnone : t.op.run m = none := by
      by_contra hsome
      exact haccepted (Option.ne_none_iff_exists'.mp hsome)
    have hambient := hj.ambient hs.kept
    rw [hnone]
    cases hcall : c.call w t.op with
    | none => exact ⟨⟨nofun, nofun⟩, hambient⟩
    | some call =>
      have hrejected : (invoke call).succeeds t.env (w.after (.ambient t.chain)) = false := by
        by_contra hsucceeds
        have hok := Tx.ok_commit (Bool.eq_true_of_not_eq_false hsucceeds)
        obtain ⟨m', hrun, -⟩ := hj.follows hs hagree hcall hok
        exact haccepted ⟨m', hrun⟩
      refine ⟨⟨nofun, fun haccepts => ?_⟩, ?_⟩
      · have hfalse : false = true := hrejected.symm.trans haccepts
        cases hfalse
      · show Joint c m ((invoke call).commit t.env (w.after (.ambient t.chain)))
        rw [Tx.commit_of_fails hrejected]
        exact hambient

/-! ## Runs -/

/-- A turn with what the model abstracts from, on which the two do not part. -/
def Parties.Granted (c : Parties) (s : VaultModel × World) (t : Turn) : Prop :=
  Supports c s.2 t ∧ Agreeable s.1 t.op

/-- In every run of granted turns from an empty plain vault, the fields of the model stay those of
    the contract, and in every state reached both accept the same granted operations. -/
theorem model_simulates {start : World} {cap : Int} {s : VaultModel × World}
    (hplain : Plain c start) (hempty : Matches c (withTvlCap cap) start) (hidle : 0 ≤ start.idle)
    (h : Runs.Reaches c.after c.Granted (withTvlCap cap, start) s) :
    Matches c s.1 s.2 ∧ ∀ t, c.Granted s t → ((t.op.run s.1).isSome ↔ c.accepts s.2 t = true) := by
  have hjoint : Joint c s.1 s.2 := by
    apply h.invariant (P := fun s => Joint c s.1 s.2)
    · exact ⟨hplain, hempty, sound_withTvlCap, le_rfl, le_rfl, le_rfl, hidle⟩
    · intro s t ht hj
      exact (hj.turn ht.1 ht.2).2
  exact ⟨hjoint.agrees, fun t ht => (hjoint.turn ht.1 ht.2).1⟩

namespace Sample

open Vault.Sample

/-- Alice and Bob. -/
def pair : Parties where
  users i := if i.val = 0 then alice else bob
  agent := Vault.Sample.agent

/-- A new vault with a cap of ten USDC and no limit on the calls of its users. -/
def capped : World :=
  opened.replay [.call honest (.setCaps 0 10000000), .call honest (.setRateLimit .deposit 0 720),
    .call honest (.setRateLimit .withdraw 0 720)]

/-- Six USDC of Alice's. -/
def first : Turn := ⟨.deposit 0 6000000, honest, capped.chain⟩

def funded : VaultModel × World := pair.after (withTvlCap 10000000, capped) first

/-- Three USDC of yield, which the vault holds. -/
def second : Turn := ⟨.accrueYield 3000000, honest, funded.2.chain.setBalance usdc vault 9000000⟩

def grown : VaultModel × World := pair.after funded second

/-- Two USDC of Bob's: within the cap on top of the principal, not on top of the assets. -/
def third : Turn := ⟨.deposit 1 2000000, honest, grown.2.chain⟩

/-- What evaluating the three turns shows. -/
structure Trial : Prop where
  plain : Plain pair capped
  agrees : Matches pair (withTvlCap 10000000) capped
  idle : 0 ≤ capped.idle
  firstTurn : Supports pair capped first ∧ Agreeable (withTvlCap 10000000) first.op
  secondTurn : Supports pair funded.2 second ∧ Agreeable funded.1 second.op
  thirdTurn : Supports pair grown.2 third
  total : grown.1.totalAssets = 9000000
  accepted : (third.op.run grown.1).isSome = true
  rejected : pair.accepts grown.2 third = false

theorem trial : Trial where
  plain := by
    refine ⟨by decide +kernel, by decide, ?_, by decide +kernel, by decide +kernel,
      by decide +kernel, by decide +kernel, by decide +kernel, ?_, by decide +kernel,
      by decide +kernel, by decide +kernel⟩
    · decide +kernel
    · decide +kernel
  agrees := ⟨by decide +kernel, by decide +kernel, by decide +kernel, fun _ _ => rfl,
    by decide +kernel, by decide +kernel⟩
  idle := by decide +kernel
  firstTurn := by
    have htoken : capped.usdcToken = some usdc := by decide +kernel
    refine ⟨⟨le_rfl, by decide +kernel, by decide +kernel, ?_, ?_, nofun⟩, ?_⟩
    · rintro user assets ⟨⟩ -
      decide +kernel
    · rintro user assets i token ⟨⟩ - - h
      obtain rfl : usdc = token := Option.some.inj (htoken.symm.trans h)
      revert i
      decide +kernel
    · show 0 < (6000000 : Int) → _
      decide +kernel
  secondTurn := by
    refine ⟨⟨by decide +kernel, by decide +kernel, by decide +kernel, nofun, nofun, ?_⟩, ?_⟩
    · rintro yieldAmount ⟨⟩
      decide +kernel
    · show 0 ≤ (3000000 : Int) → _
      decide +kernel
  thirdTurn := by
    have htoken : grown.2.usdcToken = some usdc := by decide +kernel
    refine ⟨le_rfl, by decide +kernel, by decide +kernel, ?_, ?_, nofun⟩
    · rintro user assets ⟨⟩ -
      decide +kernel
    · rintro user assets i token ⟨⟩ - - h
      obtain rfl : usdc = token := Option.some.inj (htoken.symm.trans h)
      revert i
      decide +kernel
  total := by decide +kernel
  accepted := by decide +kernel
  rejected := by decide +kernel

/-- Without conditions on the branches taken, a deposit after yield is accepted by the model alone,
    whose cap bounds the principal where the contract's bounds the assets. -/
theorem cap_parts_them :
    ¬ ∀ (c : Parties) (start : World) (cap : Int) (s : VaultModel × World), Plain c start →
      Matches c (withTvlCap cap) start → 0 ≤ start.idle →
      Runs.Reaches c.after (fun s t => Supports c s.2 t) (withTvlCap cap, start) s →
      ∀ t, Supports c s.2 t → ((t.op.run s.1).isSome ↔ c.accepts s.2 t = true) := by
  intro hclaim
  have hreach : Runs.Reaches pair.after (fun s t => Supports pair s.2 t)
      (withTvlCap 10000000, capped) ([first, second].foldl pair.after (withTvlCap 10000000, capped)) :=
    .of_admits ⟨trial.firstTurn.1, trial.secondTurn.1, trivial⟩
  have hsame := hclaim pair capped 10000000 grown trial.plain trial.agrees trial.idle hreach third
    trial.thirdTurn
  have hrejected := trial.rejected
  rw [hsame.mp trial.accepted] at hrejected
  cases hrejected

theorem grown_simulated :
    Matches pair grown.1 grown.2 ∧ grown.1.totalAssets = 9000000 := by
  have hreach : Runs.Reaches pair.after pair.Granted (withTvlCap 10000000, capped)
      ([first, second].foldl pair.after (withTvlCap 10000000, capped)) :=
    .of_admits ⟨trial.firstTurn, trial.secondTurn, trivial⟩
  exact ⟨(model_simulates trial.plain trial.agrees trial.idle hreach).1, trial.total⟩

end Sample

end NeuroWealth.ShareMath
