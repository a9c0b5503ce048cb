import NeuroWealth.Vault.Proofs.HistoriesProofs

/-!
# The agent's two keys

The primary key is replaced under a timelock, the standby key at once, and a switch swaps the two.
Every key in use was there from the start, was made the standby by the owner, or waited out its
timelock. Keys stay apart, timelocked and revocable exactly as long as the standby slot is not used
to get around the timelock.
-/

namespace NeuroWealth.Vault

open Transaction MachineInt Timelock

variable {env : Env} {w w' w0 w1 w2 : World} {step : Step} {steps : List Step} {a : Address}

/-! ## Distinct keys -/

/-- The standby key, when set, is not the primary one. -/
def World.DistinctKeys (w : World) : Prop := ∀ s, w.roles.standbyAgent = some s →
  w.roles.agent ≠ some s

/-- An agent update does not promote the address that is the standby agent. -/
def Step.PromotesOther (w : World) (step : Step) : Prop :=
  step.Performs w .confirmAgentUpdate → ∀ s, w.roles.standbyAgent = some s →
    w.roles.pendingAgent ≠ some s

theorem distinctKeys_after (step : Step) (hi : w.Initialized) (hother : step.PromotesOther w)
    (h : w.DistinctKeys) : (w.after step).DistinctKeys := by
  unfold World.DistinctKeys
  rcases roles_after step hi with ⟨hroles, -⟩ | ⟨env, call, rfl, hok, hstep⟩
  · rw [hroles]
    exact h
  · generalize (w.after (.call env call)).roles = r at hstep
    cases hstep with
    | confirmAgentUpdate _ hpending _ =>
      intro s hs hsame
      exact hother ⟨env, rfl, hok⟩ s hs (hpending.trans hsame)
    | updateStandbyAgent _ hagent hne =>
      rintro s hs hsame
      have hprimary := hagent.symm.trans hsame
      exact hne (Option.some.inj (hs.trans hprimary.symm))
    | switchToStandbyAgent _ hagent hstandby =>
      intro s hs hsame
      obtain rfl := Option.some.inj (hs.trans hsame.symm)
      exact h _ hstandby hagent
    | _ => exact h

/-! ## Rejected keys -/

/-- The step makes an address the standby agent, or promotes it. -/
def Step.Reinstates (w : World) (a : Address) (step : Step) : Prop :=
  step.Performs w (.updateStandbyAgent a) ∨
    (step.Performs w .confirmAgentUpdate ∧ w.roles.pendingAgent = some a) ∨
    (step.Performs w .switchToStandbyAgent ∧ w.roles.standbyAgent = some a)

/-- The primary slot goes to an address only by a promotion. -/
theorem primary_after (step : Step) (hi : w.Initialized) (h : ¬ step.Reinstates w a)
    (ha : w.roles.agent ≠ some a) : (w.after step).roles.agent ≠ some a := by
  rcases roles_after step hi with ⟨hroles, -⟩ | ⟨env, call, rfl, hok, hstep⟩
  · rw [hroles]
    exact ha
  · generalize (w.after (.call env call)).roles = r at hstep
    cases hstep with
    | confirmAgentUpdate _ hpending _ =>
      intro hsame
      exact h (.inr (.inl ⟨⟨env, rfl, hok⟩, hpending.trans hsame⟩))
    | switchToStandbyAgent _ _ hstandby =>
      intro hsame
      exact h (.inr (.inr ⟨⟨env, rfl, hok⟩, hstandby.trans hsame⟩))
    | _ => exact ha

/-- An address without a slot stays without one until it is reinstated. -/
theorem accepts_after (step : Step) (hi : w.Initialized) (h : ¬ step.Reinstates w a)
    (ha : ¬ w.Accepts a) : ¬ (w.after step).Accepts a := by
  have hprimary := primary_after step hi h fun hagent => ha (.inl hagent)
  rintro (hagent | hstandby)
  · exact hprimary hagent
  · rcases roles_after step hi with ⟨hroles, -⟩ | ⟨env, call, rfl, hok, hstep⟩
    · rw [hroles] at hstandby
      exact ha (.inr hstandby)
    · generalize (w.after (.call env call)).roles = r at hstep hstandby
      cases hstep with
      | updateStandbyAgent =>
        obtain rfl := Option.some.inj hstandby
        exact h (.inl ⟨env, rfl, hok⟩)
      | switchToStandbyAgent _ hagent _ =>
        obtain rfl := Option.some.inj hstandby
        exact ha (.inl hagent)
      | _ => exact ha (.inr hstandby)

/-- No call authorised by the address alone passes an agent check. -/
def World.Rejects (w : World) (a : Address) : Prop :=
  (∀ env w', env.auths = [a] → ¬ requireIsAgent.Ok env w () w') ∧
    ∀ env newTotal allowDecrease maxDecreaseBps w',
      ¬ (invoke (.updateTotalAssets a newTotal allowDecrease maxDecreaseBps)).Ok env w () w'

theorem not_rejects_of_accepts (env : Env) (hi : w.Initialized) (h : w.Accepts a) :
    ¬ w.Rejects a := by
  intro hrejects
  exact hrejects.1 { env with auths := [a] } w rfl
    (ok_requireIsAgent.mpr ⟨⟨hi, a, h, .head _⟩, rfl⟩)

theorem rejects_of_not_accepts (h : ¬ w.Accepts a) : w.Rejects a := by
  refine ⟨?_, ?_⟩
  · intro env w' hauths hok
    obtain ⟨⟨-, b, hb, hsigned⟩, -⟩ := ok_requireIsAgent.mp hok
    rw [hauths] at hsigned
    obtain rfl := List.mem_singleton.mp hsigned
    exact h hb
  · intro env newTotal allowDecrease bps w' hok
    have hrun : (updateTotalAssets a newTotal allowDecrease bps).Ok env w.entered () w' :=
      ok_invoke.mp hok
    obtain ⟨_, t, hinit, hrest⟩ := Tx.ok_bind.mp hrun
    obtain ⟨_, _, hreporter, -⟩ := Tx.ok_bind.mp hrest
    obtain ⟨-, rfl⟩ := ok_requireInitialized.mp hinit
    obtain ⟨⟨-, haccepts, -⟩, -⟩ := ok_requireReporter.mp hreporter
    exact h haccepts

/-! ## Where a key comes from -/

/-- Time does not go back, and a timelock starts early enough for its expiry to be a ledger. -/
def Step.Timely (w : World) (step : Step) : Prop := step.Forward w ∧ step.StartsInTime w

/-- The address is the initial agent, or was proposed a day before the ledger. -/
def KeyProposed (initial : Address) (past : List (World × Step)) (ledger : ℕ) (a : Address) :
    Prop :=
  a = initial ∨ ∃ e ∈ past, e.2.Performs e.1 (.updateAgent a) ∧ e.1.chain.sequence + 17280 ≤ ledger

/-- Or it was made the standby agent. -/
def KeyGranted (initial : Address) (past : List (World × Step)) (ledger : ℕ) (a : Address) : Prop :=
  KeyProposed initial past ledger a ∨ ∃ e ∈ past, e.2.Performs e.1 (.updateStandbyAgent a)

/-- Every accepted address was granted its slot; the pending one waits from its proposal on. -/
structure KeysAccounted (initial : Address) (past : List (World × Step)) (w : World) : Prop where
  initialized : w.Initialized
  pending : ∀ a, w.roles.pendingAgent = some a → ∃ e ∈ past,
    e.2.Performs e.1 (.updateAgent a) ∧ w.roles.agentTimelockExpiry = e.1.chain.sequence + 17280
  accepted : ∀ a, w.Accepts a → KeyGranted initial past w.chain.sequence a

theorem KeyProposed.later {initial : Address} {past : List (World × Step)} {m n : ℕ}
    (h : KeyProposed initial past m a) (hle : m ≤ n) :
    KeyProposed initial (past ++ [(w, step)]) n a := by
  rcases h with h | ⟨e, he, hperforms, hledger⟩
  · exact .inl h
  · exact .inr ⟨e, List.mem_append_left _ he, hperforms, by omega⟩

theorem KeyGranted.later {initial : Address} {past : List (World × Step)} {m n : ℕ}
    (h : KeyGranted initial past m a) (hle : m ≤ n) :
    KeyGranted initial (past ++ [(w, step)]) n a := by
  rcases h with h | ⟨e, he, hperforms⟩
  · exact .inl (h.later hle)
  · exact .inr ⟨e, List.mem_append_left _ he, hperforms⟩

/-- A step that takes its agent slots from the old ones, with the pending update as it was or
    cleared. -/
theorem KeysAccounted.kept {initial : Address} {past : List (World × Step)}
    (h : KeysAccounted initial past w) (hi : w'.Initialized)
    (hle : w.chain.sequence ≤ w'.chain.sequence)
    (hpending : ∀ a, w'.roles.pendingAgent = some a → w.roles.pendingAgent = some a ∧
      w'.roles.agentTimelockExpiry = w.roles.agentTimelockExpiry)
    (haccepted : ∀ a, w'.Accepts a → w.Accepts a) :
    KeysAccounted initial (past ++ [(w, step)]) w' := by
  refine ⟨hi, ?_, ?_⟩
  · intro a ha
    obtain ⟨hold, hexpiry⟩ := hpending a ha
    obtain ⟨e, he, hperforms, hstart⟩ := h.pending a hold
    exact ⟨e, List.mem_append_left _ he, hperforms, hexpiry.trans hstart⟩
  · intro a ha
    exact (h.accepted a (haccepted a ha)).later hle

theorem KeysAccounted.after {initial : Address} {past : List (World × Step)}
    (h : KeysAccounted initial past w) (step : Step) (htimely : step.Timely w) :
    KeysAccounted initial (past ++ [(w, step)]) (w.after step) := by
  have hi := (anchored_after step h.initialized).initialized h.initialized
  have hle := sequence_le_after step h.initialized htimely.1
  rcases roles_after step h.initialized with ⟨hroles, -⟩ | ⟨env, call, rfl, hok, hstep⟩
  · refine h.kept hi hle ?_ ?_
    · rw [hroles]
      exact fun a ha => ⟨ha, rfl⟩
    · unfold World.Accepts
      rw [hroles]
      exact fun a ha => ha
  · have hlast : (w, Step.call env call) ∈ past ++ [(w, Step.call env call)] :=
      List.mem_append_right _ (.head _)
    have hperforms : (Step.call env call).Performs w call := ⟨env, rfl, hok⟩
    have hstay : (w.after (.call env call)).roles.pendingAgent = w.roles.pendingAgent →
        (w.after (.call env call)).roles.agentTimelockExpiry = w.roles.agentTimelockExpiry →
        ∀ a, (w.after (.call env call)).roles.pendingAgent = some a →
          w.roles.pendingAgent = some a ∧
            (w.after (.call env call)).roles.agentTimelockExpiry = w.roles.agentTimelockExpiry :=
      fun hpending hexpiry a ha => ⟨hpending ▸ ha, hexpiry⟩
    generalize hr : (w.after (.call env call)).roles = r at hstep hstay
    have haccepts : ∀ a, (w.after (.call env call)).Accepts a ↔
        r.agent = some a ∨ r.standbyAgent = some a := by
      unfold World.Accepts
      rw [hr]
      exact fun a => Iff.rfl
    cases hstep with
    | updateAgent =>
      have hexpiry : w.entered.timelockExpiry = _ := timelockExpiry_of_inTime (htimely.2 rfl)
      refine ⟨hi, ?_, fun a ha => (h.accepted a ((haccepts a).mp ha)).later hle⟩
      rw [hr, hexpiry]
      intro a ha
      obtain rfl := Option.some.inj ha
      exact ⟨_, hlast, hperforms, rfl⟩
    | confirmAgentUpdate _ hpending helapsed =>
      refine ⟨hi, ?_, ?_⟩
      · rw [hr]
        intro a ha
        cases ha
      · intro a ha
        rcases (haccepts a).mp ha with ha | ha
        · obtain ⟨e, he, hproposed, hexpiry⟩ := h.pending a (hpending.trans ha)
          have hledger : w.roles.agentTimelockExpiry ≤ w.chain.sequence := helapsed
          exact .inl (.inr ⟨e, List.mem_append_left _ he, hproposed, by omega⟩)
        · exact (h.accepted a (.inr ha)).later hle
    | cancelAgentUpdate =>
      refine h.kept hi hle ?_ fun a ha => (haccepts a).mp ha
      rw [hr]
      intro a ha
      cases ha
    | updateStandbyAgent =>
      refine ⟨hi, ?_, ?_⟩
      · rw [hr]
        intro a ha
        obtain ⟨e, he, hproposed, hexpiry⟩ := h.pending a ha
        exact ⟨e, List.mem_append_left _ he, hproposed, hexpiry⟩
      · intro a ha
        rcases (haccepts a).mp ha with ha | ha
        · exact (h.accepted a (.inl ha)).later hle
        · obtain rfl := Option.some.inj ha
          exact .inr ⟨_, hlast, hperforms⟩
    | switchToStandbyAgent _ hagent hstandby =>
      refine h.kept hi hle ?_ fun a ha => ?_
      · rw [hr]
        exact hstay rfl rfl
      · rcases (haccepts a).mp ha with ha | ha
        · exact .inr (hstandby.trans ha)
        · exact .inl (hagent.trans ha)
    | _ =>
      refine h.kept hi hle ?_ fun a ha => (haccepts a).mp ha
      rw [hr]
      exact hstay rfl rfl

/-! ## Runs -/

/-- Time does not go back, timelocks start in time, and no update promotes the standby agent. -/
def Step.KeepsKeysApart (w : World) (step : Step) : Prop := step.Timely w ∧ step.PromotesOther w

/-- Runs that keep the two keys apart. -/
def KeyRun : World → World → Prop := Reaches fun w step => step.KeepsKeysApart w

/-- Runs of a former primary that is neither set nor promoted again. -/
def RevokedRun (a : Address) : World → World → Prop := Reaches fun w step => ¬ step.Reinstates w a

theorem RevokedRun.primary (h : RevokedRun a w w') (hi : w.Initialized)
    (ha : w.roles.agent ≠ some a) : w'.roles.agent ≠ some a ∧ w'.Initialized :=
  h.keeps (P := fun t => t.roles.agent ≠ some a) hi ha fun _ step hnot hi ha =>
    primary_after step hi hnot ha

theorem RevokedRun.rejects (h : RevokedRun a w w') (hi : w.Initialized) (ha : ¬ w.Accepts a) :
    w'.Rejects a := by
  obtain ⟨hnot, -⟩ := h.keeps (P := fun t => ¬ t.Accepts a) hi ha fun _ step hnot hi ha =>
    accepts_after step hi hnot ha
  exact rejects_of_not_accepts hnot

/-- A switch moves the former primary to the standby slot. -/
theorem switch_ok {former : Address} (hi : w.Initialized) (hkeys : w.DistinctKeys)
    (hok : (invoke .switchToStandbyAgent).Ok env w () w')
    (hformer : w.roles.agent = some former) :
    w'.roles.standbyAgent = some former ∧ w'.roles.agent ≠ some former := by
  have hstep := roleStep_of_invoke hi (.head _) hok
  generalize w'.roles = r at hstep ⊢
  cases hstep with
  | switchToStandbyAgent _ hagent hstandby =>
    obtain rfl := Option.some.inj (hformer.symm.trans hagent)
    refine ⟨rfl, fun hsame => ?_⟩
    obtain rfl := Option.some.inj hsame
    exact hkeys _ hstandby hformer

/-- A replaced standby agent that is not the primary has no slot left. -/
theorem updateStandbyAgent_ok {standby : Address} (hi : w.Initialized)
    (hok : (invoke (.updateStandbyAgent standby)).Ok env w () w') (hne : standby ≠ a)
    (ha : w.roles.agent ≠ some a) : ¬ w'.Accepts a := by
  have hstep := roleStep_of_invoke hi (.head _) hok
  unfold World.Accepts
  generalize w'.roles = r at hstep ⊢
  cases hstep with
  | updateStandbyAgent =>
    rintro (hagent | hstandby)
    · exact ha hagent
    · exact hne (Option.some.inj hstandby)

theorem World.Fresh.keysAccounted {initial : Address} (h : w.Fresh)
    (hinitial : w.roles.agent = some initial) :
    w.DistinctKeys ∧ KeysAccounted initial [] w := by
  obtain ⟨_, _, _, hroles⟩ := h.roles
  refine ⟨?_, h.initialized, ?_, ?_⟩
  · intro s hs
    rw [hroles] at hs
    cases hs
  · intro a ha
    rw [hroles] at ha
    cases ha
  · rintro a (ha | ha)
    · exact .inl (.inl (Option.some.inj (ha.symm.trans hinitial)))
    · rw [hroles] at ha
      cases ha

/-- In every run that keeps the two keys apart they are distinct; a former primary keeps the
    standby slot at most, and is rejected once that is given away; and every accepted key is
    accounted for. -/
theorem agent_keys_accounted {initial : Address} (h0 : w0.Opened)
    (hinitial : w0.roles.agent = some initial)
    (h : Admits (fun w step => step.KeepsKeysApart w) w0 steps) :
    (w0.replay steps).DistinctKeys ∧
      (∀ env former w1, (invoke .switchToStandbyAgent).Ok env (w0.replay steps) () w1 →
        (w0.replay steps).roles.agent = some former →
        (w1.roles.standbyAgent = some former ∧ w1.roles.agent ≠ some former) ∧
        ∀ w2, RevokedRun former w1 w2 → w2.roles.agent ≠ some former ∧
          ∀ env standby w3 w4, standby ≠ former →
            (invoke (.updateStandbyAgent standby)).Ok env w2 () w3 → RevokedRun former w3 w4 →
            w4.Rejects former) ∧
      ∀ a, (w0.replay steps).Accepts a → KeyGranted initial (w0.history steps)
        (w0.replay steps).chain.sequence a := by
  obtain ⟨hdistinct, haccounted⟩ := h0.fresh.keysAccounted hinitial
  have hkeys : (w0.replay steps).DistinctKeys ∧
      KeysAccounted initial (w0.history steps) (w0.replay steps) :=
    h.invariant (P := fun past t => t.DistinctKeys ∧ KeysAccounted initial past t)
      ⟨hdistinct, haccounted⟩ fun _ _ step happart hkeys =>
        ⟨distinctKeys_after step hkeys.2.initialized happart.2 hkeys.1,
          hkeys.2.after step happart.1⟩
  generalize w0.replay steps = w at hkeys ⊢
  obtain ⟨hkeys, haccounted⟩ := hkeys
  refine ⟨hkeys, ?_, haccounted.accepted⟩
  intro env former w1 hswitch hformer
  have hi := haccounted.initialized
  have hi1 := (effect_of_invoke hi hswitch).anchored.initialized hi
  obtain ⟨hstandby, hprimary⟩ := switch_ok hi hkeys hswitch hformer
  refine ⟨⟨hstandby, hprimary⟩, fun w2 hrun => ?_⟩
  obtain ⟨hprimary2, hi2⟩ := hrun.primary hi1 hprimary
  refine ⟨hprimary2, fun env standby w3 w4 hne hset hlater => ?_⟩
  have hi3 := (effect_of_invoke hi2 hset).anchored.initialized hi2
  exact hlater.rejects hi3 (updateStandbyAgent_ok hi2 hset hne hprimary2)

/-! ## When the keys are timelocked and revoked -/

/-- The keys are distinct; a former primary is rejected until it is reinstated; and no other address
    than the initial agent is accepted before a day has passed since its proposal. -/
structure KeysLawful (initial : Address) (past : List (World × Step)) (w : World) : Prop where
  distinct : w.DistinctKeys
  revoked : ∀ before t step later former, past = before ++ (t, step) :: later →
    step.Performs t .switchToStandbyAgent → t.roles.agent = some former →
    (∀ e ∈ later, ¬ e.2.Reinstates e.1 former) → w.Rejects former
  timelocked : ∀ a, w.Accepts a → KeyProposed initial past w.chain.sequence a

/-- The step does not switch to the standby agent or promote it, and names only a standby agent that
    is the initial agent or was proposed a day before. -/
structure Step.KeepsTimelock (initial : Address) (past : List (World × Step)) (w : World)
    (step : Step) : Prop where
  stays : ¬ step.Performs w .switchToStandbyAgent
  promotes : step.PromotesOther w
  names : ∀ a, step.Performs w (.updateStandbyAgent a) →
    KeyProposed initial past w.chain.sequence a

/-- A step that does otherwise breaks the law at once. -/
theorem KeysLawful.keepsTimelock {initial : Address} {past : List (World × Step)}
    (hi : w.Initialized) (h : KeysLawful initial (past ++ [(w, step)]) (w.after step)) :
    step.KeepsTimelock initial past w := by
  have hi' := (anchored_after step hi).initialized hi
  refine ⟨?_, ?_, ?_⟩
  · rintro ⟨env, rfl, hok⟩
    have hstep := roleStep_of_invoke hi (.head _) (ok_after hok)
    generalize hr : (w.after _).roles = r at hstep
    cases hstep with
    | @switchToStandbyAgent former _ _ hagent _ =>
      -- the former primary sits in the standby slot
      have haccepts : (w.after (.call env .switchToStandbyAgent)).Accepts former := by
        right
        rw [hr]
      have hrejects := h.revoked past w _ [] former rfl ⟨env, rfl, hok⟩ hagent
        fun e he => absurd he List.not_mem_nil
      exact not_rejects_of_accepts env hi' haccepts hrejects
  · rintro ⟨env, rfl, hok⟩ s hs hpending
    have hstep := roleStep_of_invoke hi (.head _) (ok_after hok)
    generalize hr : (w.after _).roles = r at hstep
    cases hstep with
    | confirmAgentUpdate _ hpromoted _ =>
      apply h.distinct s
      · rw [hr]
        exact hs
      · rw [hr]
        exact hpromoted.symm.trans hpending
  · rintro a ⟨env, rfl, hok⟩
    have hok' := ok_after hok
    have hstep := roleStep_of_invoke hi (.head _) hok'
    have hsequence : (w.after (.call env (.updateStandbyAgent a))).chain.sequence =
        w.chain.sequence := (effect_of_invoke hi hok').sequence
    generalize hr : (w.after _).roles = r at hstep
    cases hstep with
    | updateStandbyAgent =>
      have haccepts : (w.after (.call env (.updateStandbyAgent a))).Accepts a := by
        right
        rw [hr]
      rcases h.timelocked a haccepts with hinitial | ⟨e, he, hproposed, hledger⟩
      · exact .inl hinitial
      · rw [hsequence] at hledger
        rcases List.mem_append.mp he with hold | hlast
        · exact .inr ⟨e, hold, hproposed, hledger⟩
        · -- this step proposed nothing
          obtain rfl := List.mem_singleton.mp hlast
          obtain ⟨env', hcall, -⟩ := hproposed
          cases hcall

/-- What holds of every prefix of a run whose steps keep the timelock. -/
structure KeysKept (initial : Address) (past : List (World × Step)) (w : World) : Prop where
  accounted : KeysAccounted initial past w
  distinct : w.DistinctKeys
  stays : ∀ e ∈ past, ¬ e.2.Performs e.1 .switchToStandbyAgent
  named : ∀ e ∈ past, ∀ a, e.2.Performs e.1 (.updateStandbyAgent a) →
    KeyProposed initial past w.chain.sequence a

theorem KeysKept.after {initial : Address} {past : List (World × Step)}
    (h : KeysKept initial past w) (step : Step) (htimely : step.Timely w)
    (hstep : step.KeepsTimelock initial past w) :
    KeysKept initial (past ++ [(w, step)]) (w.after step) := by
  have hi := h.accounted.initialized
  have hle := sequence_le_after step hi htimely.1
  refine ⟨h.accounted.after step htimely, distinctKeys_after step hi hstep.promotes h.distinct,
    fun e he => ?_, fun e he a hperforms => ?_⟩
  · rcases List.mem_append.mp he with hold | hlast
    · exact h.stays e hold
    · obtain rfl := List.mem_singleton.mp hlast
      exact hstep.stays
  · rcases List.mem_append.mp he with hold | hlast
    · exact (h.named e hold a hperforms).later hle
    · obtain rfl := List.mem_singleton.mp hlast
      exact (hstep.names a hperforms).later hle

theorem KeysKept.lawful {initial : Address} {past : List (World × Step)}
    (h : KeysKept initial past w) : KeysLawful initial past w := by
  refine ⟨h.distinct, ?_, fun a ha => ?_⟩
  · rintro before t step later former rfl hswitch
    exact absurd hswitch (h.stays (t, step) (by simp))
  · rcases h.accounted.accepted a ha with hproposed | ⟨e, he, hnamed⟩
    · exact hproposed
    · exact h.named e he a hnamed

theorem history_concat (w : World) (steps : List Step) (step : Step) :
    w.history (steps ++ [step]) = w.history steps ++ [(w.replay steps, step)] :=
  Runs.history_concat

theorem replay_concat (w : World) (steps : List Step) (step : Step) :
    w.replay (steps ++ [step]) = (w.replay steps).after step :=
  List.foldl_concat ..

/-- The keys are distinct, revocable and timelocked in every state of a run exactly when no step
    switches to the standby agent, promotes it, or names one that did not wait out the timelock. -/
theorem agent_keys_lawful_iff {initial : Address} (h0 : w0.Opened)
    (hinitial : w0.roles.agent = some initial)
    (h : Admits (fun w step => step.Timely w) w0 steps) :
    (∀ before later, steps = before ++ later →
      KeysLawful initial (w0.history before) (w0.replay before)) ↔
    ∀ before step later, steps = before ++ step :: later →
      step.KeepsTimelock initial (w0.history before) (w0.replay before) := by
  obtain ⟨hdistinct, haccounted⟩ := h0.fresh.keysAccounted hinitial
  constructor
  · rintro hlawful before step later rfl
    have hbefore := (Runs.admits_append.mp h).1
    have hi : (w0.replay before).Initialized :=
      (Admits.invariant (P := KeysAccounted initial) hbefore haccounted
        fun _ _ step htimely hkeys => hkeys.after step htimely).initialized
    have hnext := hlawful (before ++ [step]) later (by simp)
    rw [history_concat, replay_concat] at hnext
    exact hnext.keepsTimelock hi
  · intro hkeeps before later hsteps
    -- the steps of the prefix one by one
    suffices hkept : KeysKept initial (w0.history before) (w0.replay before) from hkept.lawful
    induction before using List.reverseRecOn generalizing later with
    | nil => exact ⟨haccounted, hdistinct, by simp [World.history, Runs.history],
        by simp [World.history, Runs.history]⟩
    | append_singleton before step ih =>
      have hsplit : steps = before ++ step :: later := by simpa using hsteps
      have htimely : step.Timely (w0.replay before) := by
        rw [hsplit] at h
        exact (Runs.admits_append.mp h).2.1
      rw [history_concat, replay_concat]
      exact (ih (step :: later) hsplit).after step htimely (hkeeps before step later hsplit)

namespace Sample

/-- Alice becomes the standby agent and is switched in. -/
def rotating : List Step :=
  [.call honest (.updateStandbyAgent alice), .call honest .switchToStandbyAgent]

/-- Bob is proposed, the proposal is cancelled, and a day later he is named as the standby agent. -/
def namedLate : List Step :=
  [.call honest (.updateAgent bob), .call honest .cancelAgentUpdate,
    .ambient { blank.chain with sequence := 18280 }, .call honest (.updateStandbyAgent bob)]

/-- A step that performs none of the three calls. -/
theorem keepsTimelock_of_other {past : List (World × Step)} {initial : Address}
    (h : ∀ call, step.Performs w call → call ≠ .switchToStandbyAgent ∧ call ≠ .confirmAgentUpdate ∧
      ∀ a, call ≠ .updateStandbyAgent a) : step.KeepsTimelock initial past w :=
  ⟨fun hperforms => (h _ hperforms).1 rfl, fun hperforms => absurd rfl (h _ hperforms).2.1,
    fun a hperforms => absurd rfl ((h _ hperforms).2.2 a)⟩

theorem namedLate_lawful :
    KeysLawful agent (opened.history namedLate) (opened.replay namedLate) := by
  have htimely : Admits (fun w step => step.Timely w) opened namedLate :=
    ⟨⟨trivial, fun _ => by decide +kernel⟩, ⟨trivial, nofun⟩, ⟨by decide +kernel, trivial⟩,
      ⟨trivial, nofun⟩, trivial⟩
  refine (agent_keys_lawful_iff opened_opened rfl htimely).mpr ?_ namedLate []
    (List.append_nil _).symm
  intro before step later hsplit
  simp only [namedLate, List.cons_eq_append_iff, List.cons.injEq, List.nil_eq_append_iff] at hsplit
  obtain ⟨rfl, rfl, -⟩ | ⟨_, rfl, ⟨rfl, rfl, -⟩ | ⟨_, rfl, ⟨rfl, rfl, -⟩ | ⟨_, rfl, ⟨rfl, rfl, -⟩ |
    ⟨_, rfl, hnil⟩⟩⟩⟩ := hsplit
  · exact keepsTimelock_of_other fun _ ⟨_, hcall, _⟩ => by cases hcall; simp
  · exact keepsTimelock_of_other fun _ ⟨_, hcall, _⟩ => by cases hcall; simp
  · exact keepsTimelock_of_other fun _ ⟨_, hcall, _⟩ => by cases hcall
  · refine ⟨not_performs (by simp), fun h => absurd h (not_performs (by simp)), ?_⟩
    rintro _ ⟨_, hcall, -⟩
    cases hcall
    exact .inr ⟨(opened, .call honest (.updateAgent bob)), .head _,
      ⟨honest, rfl, by decide +kernel⟩, by decide +kernel⟩
  · simp at hnil

/-- Alice is made the standby agent, proposed as the primary one and promoted a day later. -/
def promoting : List Step :=
  [.call honest (.updateStandbyAgent alice), .call honest (.updateAgent alice),
    .ambient { blank.chain with sequence := 18280 }, .call honest .confirmAgentUpdate]

/-- Only the given addresses sign. -/
def signedBy (auths : List Address) : Env := { honest with auths := auths }

/-- The two keys can coincide; a former primary still passes both agent checks; and a standby
    agent is accepted at the ledger it is first named at. -/
theorem agent_keys_not_timelocked :
    opened.Opened ∧ ¬ (opened.replay promoting).DistinctKeys ∧
      (opened.roles.agent = some agent ∧ (opened.replay rotating).roles.agent = some alice ∧
        requireIsAgent.Ok (signedBy [agent]) (opened.replay rotating) () (opened.replay rotating) ∧
        ∃ w', (invoke (.updateTotalAssets agent 0 false 0)).Ok (signedBy [agent])
          (opened.replay rotating) () w') ∧
      alice ≠ agent ∧ (opened.replay rotating).chain.sequence = opened.chain.sequence ∧
      requireIsAgent.Ok (signedBy [alice]) (opened.replay rotating) () (opened.replay rotating) := by
  have hreport : (invoke (.updateTotalAssets agent 0 false 0)).succeeds (signedBy [agent])
      (opened.replay rotating) = true := by decide +kernel
  refine ⟨opened_opened, ?_, ⟨rfl, rfl, ?_, _, ok_after hreport⟩, by decide, rfl, ?_⟩
  · intro hkeys
    exact hkeys alice rfl rfl
  · exact ok_requireIsAgent.mpr ⟨⟨by decide +kernel, agent, .inr rfl, .head _⟩, rfl⟩
  · exact ok_requireIsAgent.mpr ⟨⟨by decide +kernel, alice, .inl rfl, .head _⟩, rfl⟩

end Sample

end NeuroWealth.Vault
