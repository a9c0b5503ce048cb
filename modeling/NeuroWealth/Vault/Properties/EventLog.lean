import NeuroWealth.Vault.Proofs.ReplicaProofs

/-!
# The event log

The events a vault publishes are a complete account of its storage, and of who holds what.
-/

namespace NeuroWealth.Vault

open Transaction MachineInt Recording

variable {w : World} {r : Replica} {e : Event} {user : Address} {asset : Symbol}

/-- Whatever is called, with whatever answers of the pools and of the chain, an indexer that starts
    with an empty copy and applies every event ends with the storage. -/
theorem storage_of_log (h : w.Blank) (steps : List Step) :
    (w.replay steps).replica = indexed.rebuild {} (w.log steps) :=
  replica_of_replay h

namespace Sample

theorem blank_blank : blank.Blank := by
  constructor <;> rfl

/-- An initialised vault, a deposit, a refused withdrawal and one that is paid. -/
def firstCalls : List Step :=
  [.call honest (.initializeVault owner owner agent usdc 0), .call honest (.deposit alice 5000000),
    .call honest (.withdraw bob 1000000), .call honest (.withdraw alice 2000000)]

theorem firstCalls_indexed :
    (blank.log firstCalls).length = 6 ∧
      (blank.replay firstCalls).replica = indexed.rebuild {} (blank.log firstCalls) :=
  ⟨by decide +kernel, storage_of_log blank_blank firstCalls⟩

end Sample

/-! ## Who holds what -/

/-- The shares an event mints for a user, or burns. -/
def Event.shareChange : Event → Option (Address × Int)
  | .deposit user _ shares => some (user, shares)
  | .withdraw user _ shares => some (user, -shares)
  | .emergencyWithdrawal user _ shares _ => some (user, -shares)
  | .sharesMigrated user _ _ sharesBurned _ => some (user, -sharesBurned)
  | _ => none

/-- The shares of an asset pool an event mints for a user, or burns. -/
def Event.assetChange : Event → Option (Address × Symbol × Int)
  | .assetDeposit user asset _ shares => some (user, asset, shares)
  | .assetWithdraw user asset _ shares => some (user, asset, -shares)
  | _ => none

def Event.shareFlow (user : Address) (e : Event) : Int :=
  match e.shareChange with
  | some (u, x) => if user = u then x else 0
  | none => 0

def Event.supplyFlow (e : Event) : Int :=
  match e.shareChange with
  | some (_, x) => x
  | none => 0

def Event.assetFlow (user : Address) (asset : Symbol) (e : Event) : Int :=
  match e.assetChange with
  | some (u, s, x) => if user = u ∧ asset = s then x else 0
  | none => 0

/-- Events that mint and burn nothing leave all holdings as they are. -/
theorem holdings_of_other (hshare : e.shareChange = none) (hasset : e.assetChange = none) :
    (r.apply e).shares = r.shares ∧ (r.apply e).totalShares = r.totalShares ∧
      (r.apply e).assetShares = r.assetShares := by
  cases e with
  | deposit => cases hshare
  | withdraw => cases hshare
  | emergencyWithdrawal => cases hshare
  | sharesMigrated => cases hshare
  | assetDeposit => cases hasset
  | assetWithdraw => cases hasset
  | rebalance _ _ status => cases status <;> exact ⟨rfl, rfl, rfl⟩
  | protocolApyUpdated protocol => cases protocol <;> exact ⟨rfl, rfl, rfl⟩
  | supportedAssetsUpdated asset added => cases added <;> exact ⟨rfl, rfl, rfl⟩
  | _ => exact ⟨rfl, rfl, rfl⟩

theorem shares_mint {amount x : Int} {u : Address} :
    (r.mint u amount x).shares user = r.shares user + if user = u then x else 0 := by
  by_cases hu : user = u
  · simp [Replica.mint, hu]
  · simp [Replica.mint, hu]

theorem shares_burn {amount x d : Int} {u : Address} :
    (r.burn u amount x d).shares user = r.shares user + if user = u then -x else 0 := by
  by_cases hu : user = u
  · simp [Replica.burn, hu, Int.sub_eq_add_neg]
  · simp [Replica.burn, hu]

theorem shares_apply : (r.apply e).shares user = r.shares user + e.shareFlow user := by
  cases e with
  | deposit => exact shares_mint
  | withdraw => exact shares_burn
  | emergencyWithdrawal => exact shares_burn
  | sharesMigrated => exact shares_burn
  | assetDeposit => exact (Int.add_zero _).symm
  | assetWithdraw => exact (Int.add_zero _).symm
  | _ => exact (congrFun (holdings_of_other rfl rfl).1 user).trans (Int.add_zero _).symm

theorem totalShares_apply : (r.apply e).totalShares = r.totalShares + e.supplyFlow := by
  cases e with
  | deposit => rfl
  | withdraw => exact Int.sub_eq_add_neg
  | emergencyWithdrawal => exact Int.sub_eq_add_neg
  | sharesMigrated => exact Int.sub_eq_add_neg
  | assetDeposit => exact (Int.add_zero _).symm
  | assetWithdraw => exact (Int.add_zero _).symm
  | _ => exact (holdings_of_other rfl rfl).2.1.trans (Int.add_zero _).symm

theorem assetShares_apply :
    (r.apply e).assetShares user asset = r.assetShares user asset + e.assetFlow user asset := by
  cases e with
  | assetDeposit u s amount x =>
    show r.setAssetShares u s _ user asset = _ + if user = u ∧ asset = s then x else 0
    unfold Replica.setAssetShares
    split_ifs with hkey
    · rw [hkey.1, hkey.2]
    · exact (Int.add_zero _).symm
  | assetWithdraw u s amount x =>
    show r.setAssetShares u s _ user asset = _ + if user = u ∧ asset = s then -x else 0
    unfold Replica.setAssetShares
    split_ifs with hkey
    · rw [hkey.1, hkey.2]
      exact Int.sub_eq_add_neg
    · exact (Int.add_zero _).symm
  | deposit => exact (Int.add_zero _).symm
  | withdraw => exact (Int.add_zero _).symm
  | emergencyWithdrawal => exact (Int.add_zero _).symm
  | sharesMigrated => exact (Int.add_zero _).symm
  | _ =>
    exact (congrFun (congrFun (holdings_of_other rfl rfl).2.2 user) asset).trans
      (Int.add_zero _).symm

/-- Nobody holds a share that the log does not account for: holdings and supply are what it mints
    less what it burns. -/
theorem holdings_of_log (h : w.Blank) (steps : List Step) :
    ((w.replay steps).book.totalShares = ((w.log steps).map Event.supplyFlow).sum) ∧
      (∀ user, (w.replay steps).book.shares user =
        ((w.log steps).map (Event.shareFlow user)).sum) ∧
      ∀ user asset, (w.replay steps).assets.shares user asset =
        ((w.log steps).map (Event.assetFlow user asset)).sum := by
  have hcopy : (w.replay steps).replica = indexed.rebuild {} (w.log steps) := replica_of_replay h
  have hsum : ∀ {f : Replica → Int} {d : Event → Int}, (∀ r e, f (r.apply e) = f r + d e) →
      f {} = 0 → f (w.replay steps).replica = ((w.log steps).map d).sum := by
    intro f d happly hzero
    have hfigure : f (indexed.rebuild {} (w.log steps)) = f {} + ((w.log steps).map d).sum :=
      Replication.figure_of_rebuild happly
    rw [hcopy, hfigure, hzero, Int.zero_add]
  refine ⟨?_, fun user => ?_, fun user asset => ?_⟩
  · exact hsum (f := Replica.totalShares) (fun _ _ => totalShares_apply) rfl
  · exact hsum (f := fun r => r.shares user) (fun _ _ => shares_apply) rfl
  · exact hsum (f := fun r => r.assetShares user asset) (fun _ _ => assetShares_apply) rfl

namespace Sample

theorem firstCalls_accounted :
    (blank.log firstCalls).map Event.supplyFlow = [0, 0, 0, 5000000, 0, -2000000] ∧
      ((blank.replay firstCalls).book.totalShares =
          ((blank.log firstCalls).map Event.supplyFlow).sum ∧
        (∀ user, (blank.replay firstCalls).book.shares user =
          ((blank.log firstCalls).map (Event.shareFlow user)).sum) ∧
        ∀ user asset, (blank.replay firstCalls).assets.shares user asset =
          ((blank.log firstCalls).map (Event.assetFlow user asset)).sum) :=
  ⟨by decide +kernel, holdings_of_log blank_blank firstCalls⟩

end Sample

end NeuroWealth.Vault
