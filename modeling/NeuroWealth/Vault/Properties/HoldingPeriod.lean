import NeuroWealth.Vault.Proofs.AccountsProofs

/-!
# The minimum holding period

Deposits stamp their ledger. `withdraw` waits for the holding period to pass since the stamp;
`withdraw_all` and `migrate_shares` do not look at it.
-/

namespace NeuroWealth.Vault

open Transaction MachineInt SharePool

variable {env : Env} {w w0 w' t t' : World} {call : Call} {user : Address}
  {amount minted burned : Int}

/-! ## Stamps -/

/-- A user's stamp is kept or renewed, and renewed when the user's shares grow. -/
structure Stamps (w w' : World) (user : Address) : Prop where
  kept : w'.holding.lastDepositLedger user = w.holding.lastDepositLedger user ∨
    w'.holding.lastDepositLedger user = some w.chain.sequence
  grown : w.book.shares user < w'.book.shares user →
    w'.holding.lastDepositLedger user = some w.chain.sequence

theorem Stamps.of_shares_le (hholding : w'.holding.lastDepositLedger = w.holding.lastDepositLedger)
    (hshares : w'.book.shares user ≤ w.book.shares user) : Stamps w w' user where
  kept := .inl (by rw [hholding])
  grown := fun hlt => absurd hlt (not_lt.mpr hshares)

theorem Quiet.stamps (h : Quiet w w') : Stamps w w' user :=
  .of_shares_le (by rw [h.holding]) (by rw [h.book])

theorem Stamps.trans (h1 : Stamps w t user) (h2 : Stamps t w' user)
    (hseq : t.chain.sequence = w.chain.sequence) : Stamps w w' user where
  kept := by
    rcases h2.kept with hkept | hnew
    · rw [hkept]
      exact h1.kept
    · rw [hnew, hseq]
      exact .inr rfl
  grown := by
    intro hlt
    by_cases hfirst : w.book.shares user < t.book.shares user
    · rcases h2.kept with hkept | hnew
      · rw [hkept]
        exact h1.grown hfirst
      · rw [hnew, hseq]
    · have hsecond : t.book.shares user < w'.book.shares user := by omega
      rw [h2.grown hsecond, hseq]

theorem Deposited.stamps {payer depositor : Address}
    (h : Deposited w w' payer depositor amount minted) : Stamps w w' user := by
  have hshares := h.shares
  obtain ⟨token, t, -, hpaid, hcredit⟩ := h.steps
  have hseq : t.chain.sequence = w.chain.sequence := hpaid.lockFrame.sequence
  have hholding : w'.holding.lastDepositLedger user =
      if user = depositor then some w.chain.sequence else w.holding.lastDepositLedger user := by
    rw [hcredit.holding, hseq, hpaid.holding]
    rfl
  by_cases hu : user = depositor
  · rw [if_pos hu] at hholding
    exact ⟨.inr hholding, fun _ => hholding⟩
  · rw [if_neg hu] at hholding
    refine ⟨.inl hholding, fun hlt => ?_⟩
    have hsame := hshares.2 user hu
    omega

theorem BatchRun.stamps {agent : Address} (h : BatchRun agent w w') : Stamps w w' user := by
  induction h with
  | quiet h => exact h.stamps
  | deposited h => exact h.stamps
  | returned _ _ h1 h2 => exact .of_shares_le (by rw [h2.holding, h1.holding]) (by rw [h2.book, h1.book])
  | trans h1 _ ih1 ih2 => exact ih1.trans ih2 h1.lockFrame.sequence

theorem Withdrawal.stamps {redeemer : Address} (h : Withdrawal env w w' redeemer amount burned) :
    Stamps w w' user := by
  have hburned := h.terms.1.burned_pos
  have hshares := h.shares
  obtain ⟨t0, t, hq, hpull, hred⟩ := h.steps
  obtain ⟨token, t1, -, hdebit, hpaid⟩ := hred.steps
  refine .of_shares_le ?_ ?_
  · rw [hpaid.holding, hdebit.holding, hpull.poolStep.holding, hq.holding]
  · by_cases hu : user = redeemer
    · rw [hu, hshares.1]
      omega
    · exact (hshares.2 user hu).le

theorem Migrated.stamps {redeemer target : Address}
    (h : Migrated env w w' redeemer target amount) : Stamps w w' user := by
  have hholder := h.holder
  have hshares := h.shares
  obtain ⟨token, t, -, hpaid, hcalled⟩ := h.steps
  obtain ⟨chain, -, hframe⟩ := hcalled.frame
  refine .of_shares_le ?_ ?_
  · rw [hframe.holding, hpaid.holding]
    rfl
  · by_cases hu : user = redeemer
    · rw [hu, hshares.1]
      omega
    · exact (hshares.2 user hu).le

theorem AssetPayout.stamps {payee token : Address} {owed actual : Int}
    (h : AssetPayout env w w' payee token owed actual) : Stamps w w' user := by
  have hbook := h.book
  obtain ⟨t0, t1, t2, hq, hsource, hrebooked, hpaid⟩ := h.steps
  have hpull : t1.holding = t0.holding := by
    rcases hsource with ⟨-, -, rfl⟩ | ⟨-, hpulled, -⟩
    · rfl
    · exact (Pulled.poolStep (.inr ⟨_, hpulled⟩)).holding
  refine .of_shares_le ?_ ?_
  · rw [hpaid.holding, hrebooked.holding, hpull, hq.holding]
  · rw [hbook]
    exact le_rfl

theorem Effect.stamps (h : Effect env w w' call) : Stamps w w' user := by
  cases h with
  | quiet _ h => exact h.stamps
  | deposit hq h _ => exact hq.stamps.trans h.stamps hq.lockFrame.sequence
  | batchDeposit h => exact h.stamps
  | withdraw h => exact h.stamps
  | withdrawAll h => exact h.stamps
  | emergencyWithdraw h => exact h.stamps
  | migrateShares h => exact h.stamps
  | depositAsset _ _ hq hpaid h =>
    refine .of_shares_le ?_ ?_
    · rw [h.holding, hpaid.holding, hq.holding]
    · rw [h.book]
      exact le_rfl
  | withdrawAsset _ h => exact h.stamps
  | lockShares _ _ _ _ h => exact .of_shares_le (by rw [h.holding]) (by rw [h.book])
  | unlockShares _ _ _ h => exact .of_shares_le (by rw [h.holding]) (by rw [h.book])
  | funds _ h => exact .of_shares_le (by rw [h.poolStep.holding]) (by rw [h.poolStep.book])
  | updateTotalAssets _ h => exact .of_shares_le (by rw [h.holding]) (by rw [h.book])
  | setVenuePool h => exact .of_shares_le (by rw [h.holding]) (by rw [h.book])
  | setMinHoldingPeriod h => exact .of_shares_le (by rw [h.holding]) (by rw [h.book])
  | assets _ h => exact .of_shares_le (by rw [h.holding]) (by rw [h.book])

/-! ## Runs -/

/-- The user's latest deposit was made at the given ledger or later. -/
def World.StampedSince (w : World) (user : Address) (ledger : Nat) : Prop :=
  ledger ≤ w.chain.sequence ∧
    ∃ last, w.holding.lastDepositLedger user = some last ∧ ledger ≤ last

theorem Stamps.since {ledger : Nat} (h : Stamps w w' user)
    (hseq : w'.chain.sequence = w.chain.sequence) (hs : w.StampedSince user ledger) :
    w'.StampedSince user ledger := by
  obtain ⟨hle, last, hlast, hledger⟩ := hs
  refine ⟨hseq ▸ hle, ?_⟩
  rcases h.kept with hkept | hnew
  · exact ⟨last, hkept.trans hlast, hledger⟩
  · exact ⟨w.chain.sequence, hnew, hle⟩

theorem stampedSince_after {ledger : Nat} (step : Step) (hi : w.Initialized)
    (hforward : step.Forward w) (hs : w.StampedSince user ledger) :
    (w.after step).StampedSince user ledger := by
  refine after_cases (P := fun t => t.StampedSince user ledger) step hi hs ?_ ?_
  · intro env call w' _ _ heffect
    exact heffect.stamps.since heffect.sequence hs
  · rintro chain rfl
    exact ⟨hs.1.trans hforward, hs.2⟩

/-- A step that adds to a user's shares stamps the user with its ledger. -/
theorem stampedSince_of_credit (step : Step) (hi : w.Initialized)
    (hcredit : w.book.shares user < (w.after step).book.shares user) :
    (w.after step).StampedSince user w.chain.sequence := by
  refine after_cases (P := fun t => w.book.shares user < t.book.shares user →
    t.StampedSince user w.chain.sequence) step hi ?_ ?_ ?_ hcredit
  · intro hlt
    omega
  · intro env call w' _ _ heffect hlt
    exact ⟨heffect.sequence.ge, w.chain.sequence, heffect.stamps.grown hlt, le_rfl⟩
  · intro chain _ hlt
    exact absurd hlt (lt_irrefl _)

/-- `withdraw` fails inside the holding period. -/
theorem World.StampedSince.not_elapsed {ledger : Nat} (h : w.StampedSince user ledger)
    (hheld : w.chain.sequence < ledger + w.holding.minHoldingPeriod) :
    ¬ w.HoldingElapsed user := by
  obtain ⟨hle, last, hlast, hledger⟩ := h
  intro helapsed
  have := helapsed last hlast (by omega)
  omega

/-- Steps that report no negative total and do not take the ledger back. -/
def Step.Regular (w : World) (step : Step) : Prop := step.ReportsNonNegative ∧ step.Forward w

/-- Inside the holding period since any credit of a user's shares, a successful call other than
    the user's `emergency_withdraw` keeps the shares exactly when it is neither the user's
    `withdraw_all` nor the user's `migrate_shares`. -/
theorem held_shares_kept_iff {step : Step} {u : Unit} (h0 : w0.Opened)
    (hbefore : Reaches (fun w step => step.Regular w) w0 w) (hstep : step.Regular w)
    (hcredit : w.book.shares user < (w.after step).book.shares user)
    (hafter : Reaches (fun w step => step.Regular w) (w.after step) t)
    (hheld : t.chain.sequence < w.chain.sequence + t.holding.minHoldingPeriod)
    (hcall : ∀ amount, call ≠ .emergencyWithdraw user amount)
    (hok : (invoke call).Ok env t u t') :
    t.book.shares user ≤ t'.book.shares user ↔
      call ≠ .withdrawAll user ∧ call ≠ .migrateShares user := by
  have hrun : Reaches (fun w step => step.Regular w) w0 t := (hbefore.step step hstep).trans hafter
  obtain ⟨hsound, hi⟩ := sound_of_reaches h0 hrun fun _ _ hadm => hadm.1
  obtain ⟨-, hiw⟩ := sound_of_reaches h0 hbefore fun _ _ hadm => hadm.1
  have hstamped : t.StampedSince user w.chain.sequence := by
    have hi1 : (w.after step).Initialized := (anchored_after step hiw).initialized hiw
    refine (hafter.keeps (P := fun t => t.StampedSince user w.chain.sequence) hi1
      (stampedSince_of_credit step hiw hcredit) ?_).1
    intro t step hadm hi hs
    exact stampedSince_after step hi hadm.2 hs
  have heffect := effect_of_invoke hi hok
  by_cases hredeemer : call.redeemer = some user
  · cases call
    case withdraw =>
      cases hredeemer
      obtain ⟨paid, burned, -, -, helapsed, -⟩ := withdraw_ok (ok_invoke.mp hok)
      exact absurd helapsed (hstamped.not_elapsed hheld)
    case withdrawAll =>
      cases hredeemer
      obtain ⟨paid, t1, hpaid, hpure⟩ := Tx.ok_bind.mp (ok_invoke.mp hok)
      obtain rfl : t' = t1 := (Tx.ok_pure.mp hpure).2
      obtain ⟨burned, hw, -⟩ := withdrawAll_ok hpaid
      have hburned := hw.terms.1.burned_pos
      have hshares : t'.book.shares user = t.book.shares user - burned := hw.shares.1
      exact ⟨fun hle => by omega, fun hne => absurd rfl hne.1⟩
    case emergencyWithdraw amount =>
      cases hredeemer
      exact absurd rfl (hcall amount)
    case migrateShares =>
      cases hredeemer
      obtain ⟨target, amount, hm⟩ := migrateShares_ok (ok_invoke.mp hok)
      have hholder : 0 < t.book.shares user := hm.holder
      have hshares : t'.book.shares user = 0 := hm.shares.1
      exact ⟨fun hle => by omega, fun hne => absurd rfl hne.2⟩
    all_goals cases hredeemer
  · refine ⟨fun _ => ⟨?_, ?_⟩, fun _ => heffect.shares_le (fun _ => hsound) hredeemer⟩
    · rintro rfl
      exact hredeemer rfl
    · rintro rfl
      exact hredeemer rfl

namespace Sample

/-- A holding period of 100 ledgers, before Alice's deposit. -/
def patient : World := opened.after (.call honest (.setMinHoldingPeriod 100))

def aliceDeposits : Step := .call honest (.deposit alice 5000000)

def committed : World := patient.after aliceDeposits

theorem patient_reached : Reaches (fun w step => step.Regular w) opened patient :=
  .step .refl _ ⟨trivial, trivial⟩

/-- Bob's deposit does not touch the held shares. -/
theorem held_shares_kept :
    committed.book.shares alice ≤
      (committed.after (.call honest (.deposit bob 7000000))).book.shares alice :=
  have hok : (invoke (.deposit bob 7000000)).Ok honest committed ()
      (committed.after (.call honest (.deposit bob 7000000))) := ok_after (by decide +kernel)
  have hstep : aliceDeposits.Regular patient := ⟨trivial, trivial⟩
  have hcall : ∀ amount, Call.deposit bob 7000000 ≠ .emergencyWithdraw alice amount :=
    fun _ => nofun
  (held_shares_kept_iff opened_opened patient_reached hstep (by decide +kernel) .refl
    (by decide +kernel) hcall hok).mpr ⟨nofun, nofun⟩

/-- Alice leaves with all her shares at the ledger of her deposit. -/
theorem held_shares_not_kept :
    opened.Opened ∧ Reaches (fun _ _ => True) opened committed ∧
      patient.book.shares alice = 0 ∧ committed.book.shares alice = 5000000 ∧
      committed.holding.minHoldingPeriod = 100 ∧
      committed.chain.sequence = patient.chain.sequence ∧
      (invoke (.withdrawAll alice)).Ok honest committed ()
        (committed.after (.call honest (.withdrawAll alice))) ∧
      (committed.after (.call honest (.withdrawAll alice))).book.shares alice = 0 :=
  ⟨opened_opened, .step (.step .refl _ trivial) _ trivial, by decide +kernel, by decide +kernel,
    by decide +kernel, by decide +kernel, ok_after (by decide +kernel), by decide +kernel⟩

end Sample

end NeuroWealth.Vault
