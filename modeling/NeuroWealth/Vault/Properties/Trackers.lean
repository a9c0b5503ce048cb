import NeuroWealth.Vault.Proofs.TrackersProofs
import NeuroWealth.Vault.Proofs.HoldingsProofs

/-!
# Drift of the deployment trackers

After a call that reached a pool the trackers are the live positions, unless the call took one of
the branches without a refresh. There the trackers keep the values from before the call.
-/

namespace NeuroWealth.Vault

open Transaction MachineInt SharePool

variable {env : Env} {w w0 w' : World} {call : Call} {minOut : Int}

/-- Calls on a branch that does not refresh the trackers: withdrawals and harvests while a single
    venue is marked, and a rebalance that leaves it without emptying it. -/
def Call.SkipsRefresh (env : Env) (w : World) : Call → Prop
  | .withdraw .. => w.deployment.currentProtocol.isSingle = true
  | .withdrawAll .. => w.deployment.currentProtocol.isSingle = true
  | .emergencyWithdraw .. => w.deployment.currentProtocol.isSingle = true
  | .withdrawAsset .. => w.deployment.currentProtocol.isSingle = true
  | .harvest .. => w.deployment.currentProtocol.isSingle = true
  | .emergencyHarvest .. => w.deployment.currentProtocol.isSingle = true
  | .rebalance protocol _ minOut => w.LeavesFunds env protocol minOut
  | _ => False

/-- No pool was called, or the trackers were left alone where a refresh is skipped and are the
    live positions where it is not. -/
def Tracks (w w' : World) (skips : Prop) : Prop :=
  w'.legs = w.legs ∨ (skips ∧ w'.deployment.deployed = w.deployment.deployed) ∨
    (¬ skips ∧ w'.Synced)

/-! ## Withdrawals -/

theorem Protocol.not_isSingle_multi {p : Protocol} (h : p = .multi) : ¬ p.isSingle = true := by
  rw [h]
  exact nofun

theorem PulledFor.tracks {needed : Int} (h : PulledFor env w w' needed) :
    Tracks w w' (w.deployment.currentProtocol.isSingle = true) := by
  obtain ⟨-, -, x, hpull⟩ := h
  rcases withdrawAmountFromProtocol_deployed hpull with rfl | ⟨hmulti, hsynced⟩ | hsingle
  · exact .inl rfl
  · exact .inr (.inr ⟨Protocol.not_isSingle_multi hmulti, hsynced⟩)
  · exact .inr (.inl hsingle)

/-- What does not disturb the trackers may come before and after. -/
theorem Tracks.of_undisturbed {t t' : World} {skips : Prop} (h1 : Undisturbed w t)
    (h : Tracks t t' skips) (h2 : Undisturbed t' w') : Tracks w w' skips := by
  rcases h with hlegs | ⟨hskips, hdeployed⟩ | ⟨hrefreshes, hsynced⟩
  · refine .inl ?_
    rw [h2.legs, hlegs, h1.legs]
  · refine .inr (.inl ⟨hskips, ?_⟩)
    rw [h2.deployed, hdeployed, h1.deployed]
  · exact .inr (.inr ⟨hrefreshes, hsynced.of_undisturbed h2⟩)

theorem Accounting.undisturbed (h : Accounting w w') : Undisturbed w w' := by
  refine ⟨fun v => ?_, by rw [h.deployment], h.legs⟩
  unfold World.position
  rw [h.deployment, h.chain, h.self]

theorem Rebooked.undisturbed {b : Book} (h : Rebooked w w' b) : Undisturbed w w' := by
  refine ⟨fun v => ?_, by rw [h.deployment], h.legs⟩
  unfold World.position
  rw [h.deployment, h.chain, h.self]

theorem Paid.undisturbed {token sender recipient : Address} {amount : Int}
    (h : Paid token w w' sender recipient amount) : Undisturbed w w' :=
  ⟨fun _ => h.position, by rw [h.deployment], h.legs⟩

theorem Redeemed.undisturbed {user : Address} {amount burned : Int}
    (h : Redeemed w w' user amount burned) : Undisturbed w w' := by
  obtain ⟨token, t, -, hdebit, hpaid⟩ := h.steps
  exact NeuroWealth.Vault.undisturbed.trans (r := ({} : Env)) hdebit.accounting.undisturbed
    hpaid.undisturbed

theorem Withdrawal.tracks {user : Address} {amount burned : Int}
    (h : Withdrawal env w w' user amount burned) :
    Tracks w w' (w.deployment.currentProtocol.isSingle = true) := by
  obtain ⟨t0, t, hq, hpull, hred⟩ := h.steps
  have hpulled : Tracks t0 t (t0.deployment.currentProtocol.isSingle = true) := by
    rcases hpull with rfl | ⟨needed, hneeded⟩
    · exact .inl rfl
    · exact hneeded.tracks
  rw [hq.deployment] at hpulled
  exact hpulled.of_undisturbed hq.undisturbed hred.undisturbed

theorem AssetPayout.tracks {user token : Address} {owed actual : Int}
    (h : AssetPayout env w w' user token owed actual) :
    Tracks w w' (w.deployment.currentProtocol.isSingle = true) := by
  obtain ⟨t0, t1, t2, hq, hsource, hbook, hpaid⟩ := h.steps
  have hpulled : Tracks t0 t1 (t0.deployment.currentProtocol.isSingle = true) := by
    rcases hsource with ⟨-, -, rfl⟩ | ⟨-, hneeded, -⟩
    · exact .inl rfl
    · exact hneeded.tracks
  rw [hq.deployment] at hpulled
  exact hpulled.of_undisturbed hq.undisturbed
    (undisturbed.trans (r := env) hbook.undisturbed hpaid.undisturbed)

/-! ## Harvests -/

theorem resupply_deployed {p : Protocol} {x : Int} {u : Unit}
    (h : (resupply p x minOut).Ok env w u w') :
    w'.deployment.deployed = w.deployment.deployed := by
  by_cases hp : p.isSingle = true
  · obtain ⟨v, rfl⟩ := Protocol.isSingle_iff.mp hp
    obtain ⟨s, hsupply⟩ := resupply_venue h
    exact supplyToVenue_deployed hsupply
  · rw [resupply_idle hp h]

theorem harvestRoundTrip_tracks {event : Protocol → Int → Event} {u : Unit}
    (he : ∀ p x, (event p x).toTransfer = none)
    (h : (harvestRoundTrip minOut event).Ok env w u w') :
    Tracks w w' (w.deployment.currentProtocol.isSingle = true) := by
  obtain ⟨t, x, t1, t2, hq, hexit, hsupply, hlast⟩ := harvestRoundTrip_steps he h
  have htrip : Tracks t t2 (w.deployment.currentProtocol.isSingle = true) := by
    by_cases hsingle : w.deployment.currentProtocol.isSingle = true
    · refine .inr (.inl ⟨hsingle, ?_⟩)
      rw [resupply_deployed hsupply]
      rcases withdrawFromProtocol_deployed hexit with rfl | ⟨hmulti, -⟩ | ⟨-, hdeployed⟩
      · rfl
      · exact absurd hsingle (Protocol.not_isSingle_multi hmulti)
      · exact hdeployed
    · obtain rfl := resupply_idle hsingle hsupply
      rcases withdrawFromProtocol_deployed hexit with rfl | ⟨-, hsynced⟩ | ⟨hyes, -⟩
      · exact .inl rfl
      · exact .inr (.inr ⟨hsingle, hsynced⟩)
      · exact absurd hyes hsingle
  exact htrip.of_undisturbed hq.undisturbed hlast.undisturbed

/-! ## All calls -/

theorem Deposited.legs {payer user : Address} {amount minted : Int}
    (h : Deposited w w' payer user amount minted) : w'.legs = w.legs := by
  obtain ⟨token, t, -, hpaid, hcredit⟩ := h.steps
  exact hcredit.accounting.legs.trans hpaid.legs

theorem BatchRun.legs {agent : Address} (h : BatchRun agent w w') : w'.legs = w.legs := by
  induction h with
  | quiet h => exact h.legs
  | deposited h => exact h.legs
  | returned _ _ h1 h2 => exact h2.legs.trans h1.legs
  | trans _ _ ih1 ih2 => exact ih2.trans ih1

theorem Migrated.legs {user target : Address} {amount : Int}
    (h : Migrated env w w' user target amount) : w'.legs = w.legs := by
  obtain ⟨token, t, -, hpaid, hcalled⟩ := h.steps
  obtain ⟨chain, -, hq⟩ := hcalled.frame
  exact hq.legs.trans hpaid.legs

/-- What every call does to the trackers. -/
theorem tracks_run {u : Unit} (hi : w.Initialized) (hlegs : w.legs = 0)
    (h : call.run.Ok env w u w') : Tracks w w' (call.SkipsRefresh env w) := by
  have heffect := effect_of_run hi h
  cases heffect with
  | quiet _ hq => exact .inl hq.legs
  | deposit hq hd _ => exact .inl (hd.legs.trans hq.legs)
  | batchDeposit hrun => exact .inl hrun.legs
  | withdraw hwithdrawal => exact hwithdrawal.tracks
  | withdrawAll hwithdrawal => exact hwithdrawal.tracks
  | emergencyWithdraw hwithdrawal => exact hwithdrawal.tracks
  | migrateShares hmigrated => exact .inl hmigrated.legs
  | depositAsset _ _ hq hpaid hbook =>
    exact .inl ((hbook.legs.trans hpaid.legs).trans hq.legs)
  | withdrawAsset _ hpay => exact hpay.tracks
  | lockShares _ _ _ _ hq => exact .inl hq.legs
  | unlockShares _ _ _ hq => exact .inl hq.legs
  | updateTotalAssets _ hq => exact .inl hq.legs
  | setVenuePool hq => exact .inl hq.legs
  | setMinHoldingPeriod hq => exact .inl hq.legs
  | assets _ hbook => exact .inl hbook.legs
  | funds hmoves _ =>
    cases call
    case rebalance => exact .inr (rebalance_tracks hlegs h)
    case rebalanceMulti => exact .inr (.inr ⟨id, synced_rebalanceMulti h⟩)
    case enableMultiProtocol => exact .inl (settled_enableMultiProtocol h).legs
    case harvest =>
      simp only [Call.run, harvest, Tx.ok_bind, ok_requireInitialized, ok_requireNotPaused,
        existsAndEq, exists_const, and_assoc, true_and] at h
      obtain ⟨-, -, _, t0, hagent, htrip⟩ := h
      obtain rfl : t0 = w := unchanged_requireIsAgent hagent
      exact harvestRoundTrip_tracks (fun _ _ => rfl) htrip
    case emergencyHarvest =>
      simp only [Call.run, emergencyHarvest, Tx.ok_bind, ok_requireInitialized, ok_getOwnerInternal,
        ok_requireOwnerArg, existsAndEq, exists_const, and_assoc, true_and] at h
      obtain ⟨-, owner, -, -, -, -, htrip⟩ := h
      exact harvestRoundTrip_tracks (fun _ _ => rfl) htrip
    all_goals cases hmoves

/-- In every reachable state, a successful call that reaches a pool leaves the trackers at the
    live positions if it is not on a branch that skips the refresh. If it is on one, the trackers
    keep the values they had. -/
theorem trackers_refreshed (h0 : w0.Opened) (h : Reaches (fun _ _ => True) w0 w) {u : Unit}
    (hok : (invoke call).Ok env w u w') (hlegs : 0 < w'.legs) :
    (¬ call.SkipsRefresh env w → w'.Synced) ∧
      (call.SkipsRefresh env w → w'.deployment.deployed = w.deployment.deployed) := by
  have hi : w.Initialized := (h.keeps (P := fun _ => True) h0.fresh.initialized trivial
    fun _ _ _ _ _ => trivial).2
  have htracks : Tracks w.entered w' (call.SkipsRefresh env w.entered) :=
    tracks_run hi rfl (ok_invoke.mp hok)
  have hsame : call.SkipsRefresh env w.entered ↔ call.SkipsRefresh env w := by
    cases call <;> exact Iff.rfl
  rw [hsame] at htracks
  rcases htracks with hnone | ⟨hskips, hdeployed⟩ | ⟨hrefreshes, hsynced⟩
  · have hzero : w'.legs = 0 := hnone
    omega
  · exact ⟨fun hnot => absurd hskips hnot, fun _ => hdeployed⟩
  · exact ⟨fun _ => hsynced, fun hskips => absurd hskips hrefreshes⟩

namespace Sample

/-- Alice's five USDC are in the Blend pool. -/
def supplied : List Step :=
  [.call honest (.deposit alice 5000000), .call honest (.setVenuePool .blend owner blendPool),
    .call honest (.rebalance .blend 0 0)]

/-- Bringing them back refreshes the trackers. -/
theorem exit_refreshed :
    0 < ((opened.replay supplied).after (.call honest (.rebalance .none 0 0))).legs ∧
      ((opened.replay supplied).after (.call honest (.rebalance .none 0 0))).Synced := by
  have hreach : Reaches (fun _ _ => True) opened (opened.replay supplied) :=
    .of_admits ⟨trivial, trivial, trivial, trivial⟩
  have hlegs : 0 < ((opened.replay supplied).after (.call honest (.rebalance .none 0 0))).legs := by
    decide +kernel
  refine ⟨hlegs, (trackers_refreshed opened_opened hreach (ok_after (by decide +kernel)) hlegs).1 ?_⟩
  rintro ⟨v, -, -, -, pool, reply, -, hreply, hleft⟩
  obtain rfl := Option.some.inj hreply
  exact absurd hleft (by simp)

/-- Two USDC withdrawn from the pool leave the tracker at five. -/
theorem trackers_drift :
    opened.Opened ∧ Reaches (fun _ _ => True) opened (opened.replay supplied) ∧
      (invoke (.withdraw alice 2000000)).Ok honest (opened.replay supplied) ()
        ((opened.replay supplied).after (.call honest (.withdraw alice 2000000))) ∧
      ((opened.replay supplied).after
        (.call honest (.withdraw alice 2000000))).position .blend = 3000000 ∧
      ((opened.replay supplied).after
        (.call honest (.withdraw alice 2000000))).deployment.deployed .blend = 5000000 :=
  ⟨opened_opened, .of_admits ⟨trivial, trivial, trivial, trivial⟩, ok_after (by decide +kernel),
    by decide +kernel, by decide +kernel⟩

end Sample

end NeuroWealth.Vault
