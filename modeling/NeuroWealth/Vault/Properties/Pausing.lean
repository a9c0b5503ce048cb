import NeuroWealth.Vault.Proofs.RolesProofs
import NeuroWealth.Vault.Properties.PassiveHolders

/-!
# A paused vault

While the vault is paused its funds only leave with a holder: by an emergency withdrawal or a
migration that the holder has signed. Nobody gains shares and no build is installed.
-/

namespace NeuroWealth.Vault

open Transaction MachineInt

variable {env : Env} {w0 w w' : World} {call : Call} {user : Address} {steps : List Step}

/-! ## Blocked calls -/

/-- The calls a pause blocks. -/
def Call.needsLive : Call → Bool
  | .deposit .. => true
  | .batchDeposit .. => true
  | .withdraw .. => true
  | .withdrawAll .. => true
  | .depositAsset .. => true
  | .withdrawAsset .. => true
  | .rebalance .. => true
  | .rebalanceMulti .. => true
  | .harvest .. => true
  | .scheduleUpgrade .. => true
  | .executeUpgrade .. => true
  | _ => false

/-- The calls of users look at the pause flag after the signature. -/
theorem live_of_signed {α : Type} {x : α} {f : Unit → Contract α}
    (h : (requireInitialized >>= fun _ => requireAuth user >>= fun _ =>
      requireNotPaused >>= f).Ok env w x w') : w.breaker.paused = false := by
  obtain ⟨_, t, hinit, hrest⟩ := Tx.ok_bind.mp h
  obtain ⟨_, t', hauth, hrest⟩ := Tx.ok_bind.mp hrest
  obtain ⟨_, t'', hlive, -⟩ := Tx.ok_bind.mp hrest
  obtain rfl := (ok_requireInitialized.mp hinit).2
  obtain rfl := (ok_requireAuth.mp hauth).2
  exact (ok_requireNotPaused.mp hlive).1

/-- Those of the agent look at it first. -/
theorem live_of_agent {α : Type} {x : α} {f : Unit → Contract α}
    (h : (requireInitialized >>= fun _ => requireNotPaused >>= f).Ok env w x w') :
    w.breaker.paused = false := by
  obtain ⟨_, t, hinit, hrest⟩ := Tx.ok_bind.mp h
  obtain ⟨_, t', hlive, -⟩ := Tx.ok_bind.mp hrest
  obtain rfl := (ok_requireInitialized.mp hinit).2
  exact (ok_requireNotPaused.mp hlive).1

theorem live_of_run {u : Unit} (hcall : call.needsLive = true) (h : call.run.Ok env w u w') :
    w.breaker.paused = false := by
  cases call
  case deposit => exact live_of_signed h
  case batchDeposit => exact live_of_signed h
  case withdraw => exact live_of_signed h
  case withdrawAll =>
    obtain ⟨paid, t, hpaid, -⟩ := Tx.ok_bind.mp h
    exact live_of_signed hpaid
  case depositAsset => exact live_of_signed h
  case withdrawAsset => exact live_of_signed h
  case rebalance => exact live_of_agent h
  case rebalanceMulti => exact live_of_agent h
  case harvest => exact live_of_agent h
  case scheduleUpgrade => exact live_of_signed h
  case executeUpgrade => exact live_of_signed h
  all_goals exact absurd hcall Bool.false_ne_true

/-! ## The flag -/

/-- The calls that lift a pause. -/
def Call.liftsPause : Call → Bool
  | .unpause .. => true
  | .resetCircuitBreaker .. => true
  | _ => false

theorem blocked_of_ok {u : Unit} (hpaused : w.breaker.paused = true)
    (h : call.run.Ok env w u w') : call.needsLive = false := by
  by_contra hneeds
  have hlive := live_of_run (Bool.not_eq_false _ ▸ hneeds) h
  rw [hpaused] at hlive
  exact Bool.noConfusion hlive

/-- A paused vault stays paused until the owner lifts the pause. -/
theorem paused_of_run {u : Unit} (hi : w.Initialized) (hpaused : w.breaker.paused = true)
    (hcall : call.liftsPause = false) (h : call.run.Ok env w u w') :
    w'.breaker.paused = true := by
  have hblocked := blocked_of_ok hpaused h
  by_cases hwrites : .breaker ∈ call.writes
  · cases call
    case initializeVault => exact absurd h (not_initializeVault_ok hi)
    case pause =>
      simp only [Call.run, pause, modifyBreaker, Tx.ok_bind, ok_requireInitialized,
        ok_requireOwnerArg, Tx.ok_modify, ok_publish, existsAndEq, exists_const, and_assoc,
        true_and] at h
      rw [h.2.2.2.2]
    case emergencyPause =>
      simp only [Call.run, emergencyPause, modifyBreaker, Tx.ok_bind, Tx.ok_get,
        ok_requireInitialized, ok_requireOwnerArg, hpaused, if_true, Tx.ok_pure, existsAndEq,
        exists_const, and_assoc, true_and] at h
      rw [h.2.2.2.2, hpaused]
    case setMaxConsecutiveFailures =>
      simp only [Call.run, setMaxConsecutiveFailures, modifyBreaker, Tx.ok_bind, Tx.ok_get,
        ok_requireInitialized, ok_requireIsOwner, Tx.ok_require, Tx.ok_modify, ok_publish,
        existsAndEq, exists_const, and_assoc, true_and] at h
      obtain ⟨-, -, -, -, rfl⟩ := h
      exact hpaused
    case rebalance => exact Bool.noConfusion hblocked
    case rebalanceMulti => exact Bool.noConfusion hblocked
    case unpause => exact Bool.noConfusion hcall
    case resetCircuitBreaker => exact Bool.noConfusion hcall
    all_goals simp [Call.writes] at hwrites
  · have hsame : w'.breaker = w.breaker := writes_run call h .breaker hwrites
    rw [hsame, hpaused]

/-! ## One call -/

/-- The user leaves, and has signed that. -/
def Step.ExitOf (user : Address) : Step → Prop
  | .call env (.emergencyWithdraw u _) => u = user ∧ user ∈ env.auths
  | .call env (.migrateShares u) => u = user ∧ user ∈ env.auths
  | _ => False

/-- Whom an exit is paid to: the user, or the migration target for the user. -/
def World.exitRecipient (w : World) : Step → Option Address
  | .call _ (.emergencyWithdraw u _) => some u
  | .call _ (.migrateShares _) => w.migration.target
  | _ => none

/-- What a step of a paused vault does. -/
structure PausedStep (w w' : World) (step : Step) (es : List Event) : Prop where
  anchored : Anchored w w'
  paused : w'.breaker.paused = true
  build : w'.roles.wasmHash = w.roles.wasmHash
  assetShares : w'.assets.shares = w.assets.shares
  shares : ∀ user, w'.book.shares user ≤ w.book.shares user
  holders : ∀ user, ¬ step.ExitOf user → w'.book.shares user = w.book.shares user
  transfers : ∀ tr ∈ es.filterMap Event.toTransfer, tr.sender = w.self ∧
    (∃ user, step.ExitOf user) ∧ w.exitRecipient step = some tr.recipient

theorem build_of_run {u : Unit} (hi : w.Initialized) (hblocked : call.needsLive = false)
    (h : call.run.Ok env w u w') : w'.roles.wasmHash = w.roles.wasmHash := by
  by_cases hwrites : .roles ∈ call.writes
  · have hstep := roleStep_of_run hi hwrites h
    generalize w'.roles = r at hstep ⊢
    cases hstep with
    | executeUpgrade => exact Bool.noConfusion hblocked
    | _ => rfl
  · have hsame : w'.roles = w.roles := writes_run call h .roles hwrites
    rw [hsame]

/-- Only the calls of the asset pools change their shares, and a pause blocks these. -/
theorem assetShares_of_run {u : Unit} (hblocked : call.needsLive = false)
    (heffect : Effect env w w' call) (h : call.run.Ok env w u w') :
    w'.assets.shares = w.assets.shares := by
  by_cases hplain : call.isPlain = true
  · rw [assetsFrame.effect (fun _ _ _ _ _ _ hcalled => hcalled.assets_eq)
      (fun _ hmove => hmove.poolStep.assets) heffect hplain]
  cases call
  case depositAsset => exact Bool.noConfusion hblocked
  case withdrawAsset => exact Bool.noConfusion hblocked
  case setVenuePool => rw [(setVenuePool_ok h).assets]
  case addSupportedAsset =>
    rw [(addSupportedAsset_ok h).2]
    unfold AssetPools.addToIndex
    split_ifs <;> rfl
  case updateAssetLimits =>
    obtain ⟨c, -, hassets⟩ := updateAssetLimits_ok h
    rw [hassets]
    rfl
  case removeSupportedAsset =>
    rw [(removeSupportedAsset_ok h).2.2]
    rfl
  all_goals exact absurd rfl hplain

/-- The shares of the holders and the transfers of a call that a pause lets through. -/
structure PausedCall (w w' : World) (step : Step) : Prop where
  shares : ∀ user, w'.book.shares user ≤ w.book.shares user
  holders : ∀ user, ¬ step.ExitOf user → w'.book.shares user = w.book.shares user
  transfers : ∀ tr ∈ w'.transfers, tr.sender = w.self ∧ (∃ user, step.ExitOf user) ∧
    w.exitRecipient step = some tr.recipient

theorem PausedCall.idle {step : Step} (hbook : w'.book.shares = w.book.shares)
    (htransfers : w'.transfers = []) : PausedCall w w' step where
  shares user := (congrFun hbook user).le
  holders user _ := congrFun hbook user
  transfers := by simp [htransfers]

/-- An exit takes shares from the user alone and makes one payment. -/
theorem PausedCall.exit {step : Step} {recipient : Address} {amount : Int}
    (hexit : step.ExitOf user) (hless : w'.book.shares user ≤ w.book.shares user)
    (hothers : ∀ v, v ≠ user → w'.book.shares v = w.book.shares v)
    (honce : w'.PaidOnce w.self recipient amount)
    (hrecipient : w.exitRecipient step = some recipient) : PausedCall w w' step := by
  refine ⟨fun v => ?_, fun v hv => hothers v ?_, fun tr htr => ?_⟩
  · by_cases heq : v = user
    · rw [heq]
      exact hless
    · exact (hothers v heq).le
  · rintro rfl
    exact hv hexit
  · obtain ⟨token, -, htransfers⟩ := honce
    rw [htransfers, List.mem_singleton] at htr
    rw [htr]
    exact ⟨rfl, ⟨user, hexit⟩, hrecipient⟩

theorem pausedCall_of_effect {u : Unit} (hblocked : call.needsLive = false)
    (hnone : w.transfers = []) (heffect : Effect env w w' call) (h : call.run.Ok env w u w') :
    PausedCall w w' (.call env call) := by
  have hanchored := heffect.anchored
  cases heffect with
  | deposit => exact Bool.noConfusion hblocked
  | batchDeposit => exact Bool.noConfusion hblocked
  | withdraw => exact Bool.noConfusion hblocked
  | withdrawAll => exact Bool.noConfusion hblocked
  | depositAsset => exact Bool.noConfusion hblocked
  | withdrawAsset => exact Bool.noConfusion hblocked
  | @emergencyWithdraw user amount paid burned hw =>
    have hrun : (Call.emergencyWithdraw user amount).run.Ok env w u w' := h
    have hsigned : user ∈ env.auths := redeemer_signs rfl hrun
    have hpos := hw.terms.1.burned_pos
    refine .exit ⟨rfl, hsigned⟩ ?_ hw.shares.2 (hanchored.self ▸ hw.paidOnce hnone) rfl
    rw [hw.shares.1]
    omega
  | @migrateShares user target amount hm =>
    have hrun : (Call.migrateShares user).run.Ok env w u w' := h
    have hsigned : user ∈ env.auths := redeemer_signs rfl hrun
    have hheld := hm.holder
    refine .exit ⟨rfl, hsigned⟩ ?_ hm.shares.2 (hm.paidOnce hnone).1 hm.configured
    rw [hm.shares.1]
    exact hheld.le
  | quiet _ hq => exact .idle (by rw [hq.book]) (hq.transfers.trans hnone)
  | lockShares _ _ _ _ hq => exact .idle (by rw [hq.book]) (hq.transfers.trans hnone)
  | unlockShares _ _ _ hq => exact .idle (by rw [hq.book]) (hq.transfers.trans hnone)
  | funds _ hmove =>
    exact .idle (by rw [hmove.poolStep.book]) (hmove.poolStep.transfers.trans hnone)
  | updateTotalAssets _ hq => exact .idle (by rw [hq.book]) (hq.transfers.trans hnone)
  | setVenuePool hq => exact .idle (by rw [hq.book]) (hq.transfers.trans hnone)
  | setMinHoldingPeriod hq => exact .idle (by rw [hq.book]) (hq.transfers.trans hnone)
  | assets _ hr => exact .idle (by rw [hr.book]) (hr.transfers.trans hnone)

/-! ## Runs -/

def Step.KeepsPause : Step → Prop
  | .call _ call => call.liftsPause = false
  | .ambient _ => True

theorem pausedStep_after (step : Step) (hi : w.Initialized) (hpaused : w.breaker.paused = true)
    (hstep : step.KeepsPause) : PausedStep w (w.after step) step (w.emitted step) := by
  cases step with
  | ambient chain =>
    exact ⟨⟨rfl, rfl, id⟩, hpaused, rfl, rfl, fun _ => le_rfl, fun _ _ => rfl, nofun⟩
  | call env call =>
    show PausedStep w ((invoke call).commit env w) _
      (if (invoke call).succeeds env w = true then ((invoke call).commit env w).events else [])
    by_cases hok : (invoke call).succeeds env w = true
    · rw [if_pos hok]
      have hrun := ok_invoke.mp (Tx.ok_commit hok)
      have heffect := effect_of_run (w := w.entered) hi hrun
      have hblocked := blocked_of_ok (w := w.entered) hpaused hrun
      have hpaused' := paused_of_run (w := w.entered) hi hpaused hstep hrun
      have hbuild := build_of_run (w := w.entered) hi hblocked hrun
      have hassets := assetShares_of_run (w := w.entered) hblocked heffect hrun
      have hcall := pausedCall_of_effect (w := w.entered) hblocked rfl heffect hrun
      exact ⟨anchored_after (.call env call) hi, hpaused', hbuild, hassets, hcall.shares,
        hcall.holders, hcall.transfers⟩
    · rw [if_neg hok, Tx.commit_of_fails (Bool.not_eq_true _ ▸ hok)]
      exact ⟨.refl, hpaused, rfl, rfl, fun _ => le_rfl, fun _ _ => rfl, nofun⟩

/-- What a run of a paused vault does: no new build, no share for anybody, and every payment goes to
    a holder who leaves. -/
structure PausedRun (w w' : World) (steps : List Step) (es : List Event) : Prop where
  anchored : Anchored w w'
  paused : w'.breaker.paused = true
  build : w'.roles.wasmHash = w.roles.wasmHash
  assetShares : w'.assets.shares = w.assets.shares
  shares : ∀ user, w'.book.shares user ≤ w.book.shares user
  holders : ∀ user, (∀ step ∈ steps, ¬ step.ExitOf user) →
    w'.book.shares user = w.book.shares user
  transfers : ∀ tr ∈ es.filterMap Event.toTransfer, tr.sender = w.self ∧
    ∃ before step after, steps = before ++ step :: after ∧ (∃ user, step.ExitOf user) ∧
      (w.replay before).exitRecipient step = some tr.recipient

theorem PausedRun.cons {step : Step} {es es' : List Event} (h : PausedStep w (w.after step) step es)
    (hrun : PausedRun (w.after step) w' steps es') :
    PausedRun w w' (step :: steps) (es ++ es') := by
  refine ⟨h.anchored.trans hrun.anchored, hrun.paused, hrun.build.trans h.build,
    hrun.assetShares.trans h.assetShares, fun user => (hrun.shares user).trans (h.shares user),
    fun user hstays => ?_, fun tr htr => ?_⟩
  · rw [hrun.holders user fun step hstep => hstays step (List.mem_cons_of_mem _ hstep),
      h.holders user (hstays step List.mem_cons_self)]
  · rw [List.filterMap_append, List.mem_append] at htr
    rcases htr with htr | htr
    · obtain ⟨hsender, hexit, hrecipient⟩ := h.transfers tr htr
      exact ⟨hsender, [], step, steps, rfl, hexit, hrecipient⟩
    · obtain ⟨hsender, before, exit, after, hsteps, hexit, hrecipient⟩ := hrun.transfers tr htr
      refine ⟨hsender.trans h.anchored.self, step :: before, exit, after, ?_, hexit, hrecipient⟩
      rw [hsteps, List.cons_append]

theorem pausedRun_of_admits (hi : w.Initialized) (hpaused : w.breaker.paused = true)
    (hrun : Admits (fun _ step => step.KeepsPause) w steps) :
    PausedRun w (w.replay steps) steps (w.log steps) := by
  induction steps generalizing w with
  | nil => exact ⟨.refl, hpaused, rfl, rfl, fun _ => le_rfl, fun _ _ => rfl, nofun⟩
  | cons step steps ih =>
    obtain ⟨hstep, hrest⟩ := hrun
    have hfirst := pausedStep_after step hi hpaused hstep
    exact .cons hfirst (ih (hfirst.anchored.initialized hi) hfirst.paused hrest)

/-- Until the owner lifts the pause, the only payments of a paused vault are those of the exits that
    holders have signed. -/
theorem paused_vault_pays_exits_only (h0 : w0.Opened) (h : Reaches (fun _ _ => True) w0 w)
    (hpaused : w.breaker.paused = true)
    (hrun : Admits (fun _ step => step.KeepsPause) w steps) :
    PausedRun w (w.replay steps) steps (w.log steps) := by
  have hi : w.Initialized :=
    (h.invariant (P := fun _ => True) h0 trivial fun _ _ _ _ _ => trivial).2
  exact pausedRun_of_admits hi hpaused hrun

namespace Sample

/-- Alice and bob deposit, and the owner pauses the vault. -/
def pausing : List Step :=
  [.call honest (.deposit alice 5000000), .call honest (.deposit bob 7000000),
    .call honest (.pause owner)]

/-- Alice tries to withdraw and then leaves by the emergency exit. -/
def leaving : List Step :=
  [.call honest (.withdraw alice 5000000), .call honest (.emergencyWithdraw alice 5000000)]

theorem leaving_paused : ((opened.replay pausing).replay leaving).book.shares alice = 0 ∧
    PausedRun (opened.replay pausing) ((opened.replay pausing).replay leaving) leaving
      ((opened.replay pausing).log leaving) := by
  refine ⟨by decide +kernel, paused_vault_pays_exits_only opened_opened
    (.of_admits ⟨trivial, trivial, trivial, trivial⟩) (by decide +kernel) ⟨rfl, rfl, trivial⟩⟩

end Sample

end NeuroWealth.Vault
