import NeuroWealth.Vault.Proofs.HistoriesProofs
import NeuroWealth.Vault.Proofs.HoldersProofs

/-!
# Deposit snapshots

A deposit by a user without shares takes a snapshot of the new position. Nothing else writes or
clears a snapshot.
-/

namespace NeuroWealth.Vault

open Transaction MachineInt SharePool

variable {env : Env} {w w' : World} {call : Call} {step : Step} {user : Address} {amount : Int}

def World.snapshot (w : World) (user : Address) : Option DepositSnapshot :=
  w.profiles.depositSnapshot user

/-! ## Deposits -/

/-- Code that does not write snapshots. -/
theorem snapshot_of_writes {α : Type} {x : Contract α} {a : α} (hx : Keeps (writes [.holders]) x)
    (h : x.Ok env w a w') : w'.profiles.depositSnapshot = w.profiles.depositSnapshot :=
  hx h .snapshots (by decide)

theorem recordFirstDeposit_snapshot {x y : Int} {u : Unit}
    (h : (recordFirstDeposit user x y).Ok env w u w') :
    w'.profiles.depositSnapshot =
      (w.profiles.setSnapshot user ⟨x, y, w.chain.timestamp⟩).depositSnapshot := by
  obtain ⟨_, t, hadd, hrest⟩ := Tx.ok_bind.mp h
  simp only [Tx.ok_bind, Tx.ok_get, existsAndEq, true_and] at hrest
  obtain ⟨_, t', hset, hstrategy⟩ := hrest
  have hindexed : t.profiles.depositSnapshot = w.profiles.depositSnapshot :=
    snapshot_of_writes (writes_addToUserIndex (.head _)) hadd
  have hchain : t.chain = w.chain := (quiet_addToUserIndex hadd).chain
  rw [snapshot_of_writes writes_setDefaultStrategy hstrategy, Tx.ok_modify.mp hset]
  show (t.profiles.setSnapshot user ⟨x, y, t.chain.timestamp⟩).depositSnapshot = _
  unfold Profiles.setSnapshot
  rw [hindexed, hchain]

/-- A user without shares gets a snapshot of the position the deposit opens; others keep theirs. -/
theorem creditDeposit_snapshot {u : Unit} (h : (creditDeposit user amount).Ok env w u w') :
    w'.profiles.depositSnapshot =
      if w.book.shares user = 0 then
        (w.profiles.setSnapshot user
          ⟨w'.book.shares user, amount, w.chain.timestamp⟩).depositSnapshot
      else w.profiles.depositSnapshot := by
  obtain ⟨minted, _, t, rfl, hfirst, hprofiles, hshares⟩ := creditDeposit_records h
  rw [hprofiles, hshares]
  rcases Tx.ok_onlyIf.mp hfirst with ⟨hzero, hfirst⟩ | ⟨hne, rfl⟩
  · have hsnapshot := recordFirstDeposit_snapshot hfirst
    rw [if_pos hzero]
    exact hsnapshot
  · exact (if_neg hne).symm

/-- So much of `deposit`, which leaves the user with shares. -/
theorem deposit_snapshot {u : Unit} (h : (deposit user amount).Ok env w u w') :
    w'.profiles.depositSnapshot =
      if w.book.shares user = 0 then
        (w.profiles.setSnapshot user
          ⟨w'.book.shares user, amount, w.chain.timestamp⟩).depositSnapshot
      else w.profiles.depositSnapshot := by
  obtain ⟨-, token, t, t', htoll, -, htransfer, hcredit⟩ := deposit_parts h
  have hprofiles : t'.profiles.depositSnapshot = w.profiles.depositSnapshot :=
    (snapshot_of_writes writes_transfer htransfer).trans
      (snapshot_of_writes writes_enforceUserRateLimit htoll)
  have hbook : t'.book = w.book :=
    (transfer_ok htransfer).book.trans (quiet_enforceRateLimit htoll).book
  have htime : t'.chain.timestamp = w.chain.timestamp := by
    rw [(transfer_ok htransfer).chain]
    show t.chain.timestamp = _
    rw [(quiet_enforceRateLimit htoll).chain]
  rw [creditDeposit_snapshot hcredit, hbook, htime]
  unfold Profiles.setSnapshot
  rw [hprofiles]

/-! ## Steps -/

theorem World.Opened.snapshot (h : w.Opened) (user : Address) : w.snapshot user = none := by
  obtain ⟨env, blank, deployer, owner, agent, usdcToken, salt, hblank, hok⟩ := h
  obtain ⟨-, rfl⟩ := initializeVault_ok (ok_invoke.mp hok)
  show blank.profiles.depositSnapshot user = none
  rw [hblank.profiles]

/-- A successful deposit by the user, from a state without shares of the user, takes a snapshot. -/
theorem snapshot_of_deposit {u : Unit} (h : (invoke (.deposit user amount)).Ok env w u w')
    (hzero : w.book.shares user = 0) :
    w'.snapshot user = some ⟨w'.book.shares user, amount, w.chain.timestamp⟩ := by
  have hentered : w.entered.book.shares user = 0 := hzero
  unfold World.snapshot
  rw [deposit_snapshot (ok_invoke.mp h), if_pos hentered]
  exact if_pos rfl

/-- Only such a deposit writes the user's snapshot. -/
theorem snapshot_of_invoke {u : Unit} (hi : w.Initialized) (h : (invoke call).Ok env w u w')
    (hcall : ∀ amount, call = .deposit user amount → w.book.shares user ≠ 0) :
    w'.snapshot user = w.snapshot user := by
  unfold World.snapshot
  cases call
  case initializeVault => exact absurd (ok_invoke.mp h) (not_initializeVault_ok (w := w.entered) hi)
  case deposit payer amount =>
    rw [deposit_snapshot (ok_invoke.mp h)]
    by_cases hzero : w.entered.book.shares payer = 0
    · rw [if_pos hzero]
      refine if_neg ?_
      rintro rfl
      exact hcall amount rfl hzero
    · rw [if_neg hzero]
      rfl
  all_goals
    exact congrFun (same_of_invoke (p := .snapshots) (by simp [Call.writes]) h) user

end NeuroWealth.Vault
