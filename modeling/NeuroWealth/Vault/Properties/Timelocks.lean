import NeuroWealth.Vault.Proofs.HistoriesProofs

/-!
# The timelocks

Agent updates, upgrades and ownership transfers take two steps. Each is carried out for the
proposal its history leaves open, and the two timelocked ones not before a day has passed.
-/

namespace NeuroWealth.Vault

open Transaction MachineInt Timelock

variable {w w' w0 : World} {call : Call} {step : Step} {steps : List Step}

/-! ## The three histories -/

def Call.agentAct : Call → Act Address
  | .updateAgent newAgent => .propose newAgent
  | .confirmAgentUpdate => .close
  | .cancelAgentUpdate => .close
  | _ => .idle

def Call.upgradeAct : Call → Act Nat
  | .scheduleUpgrade _ newWasmHash => .propose newWasmHash
  | .executeUpgrade _ => .close
  | .cancelUpgrade _ => .close
  | _ => .idle

/-- A proposed owner, with the owner who proposes. -/
def Call.ownerAct (w : World) : Call → Act (Address × Option Address)
  | .transferOwnership newOwner => .propose (newOwner, w.roles.owner)
  | .acceptOwnership _ => .close
  | .cancelOwnershipTransfer => .close
  | _ => .idle

def Step.agentAct : World → Step → ℕ × Act Address := Step.act fun _ call => call.agentAct

def Step.upgradeAct : World → Step → ℕ × Act Nat := Step.act fun _ call => call.upgradeAct

def Step.ownerAct : World → Step → ℕ × Act (Address × Option Address) := Step.act Call.ownerAct

def World.agentSlot (w : World) : Slot Address :=
  ⟨w.roles.pendingAgent, w.roles.agentTimelockExpiry⟩

def World.upgradeSlot (w : World) : Slot Nat :=
  ⟨w.roles.pendingUpgradeHash, w.roles.upgradeTimelockExpiry⟩

/-! ## One step -/

/-- Calls that leave the roles alone act on no slot. -/
theorem acts_idle (h : .roles ∉ call.writes) :
    call.agentAct = .idle ∧ call.upgradeAct = .idle ∧ call.ownerAct w = .idle := by
  cases call <;> first
    | exact ⟨rfl, rfl, rfl⟩
    | exact absurd (by simp [Call.writes]) h

/-- Both timelocked slots follow their actions. -/
theorem slots_after (step : Step) (hi : w.Initialized) (htime : step.StartsInTime w) :
    (w.after step).agentSlot =
        w.agentSlot.after timelockLedgers w.chain.sequence (step.agentAct w).2 ∧
      (w.after step).upgradeSlot =
        w.upgradeSlot.after timelockLedgers w.chain.sequence (step.upgradeAct w).2 := by
  unfold Step.agentAct Step.upgradeAct
  rcases roles_after step hi with ⟨hroles, hidle⟩ | ⟨env, call, rfl, hok, hstep⟩
  · rw [act_idle fun call h => (acts_idle (w := w) (hidle call h)).1,
      act_idle fun call h => (acts_idle (w := w) (hidle call h)).2.1]
    unfold World.agentSlot World.upgradeSlot
    rw [hroles]
    exact ⟨rfl, rfl⟩
  · rw [act_of_succeeds hok, act_of_succeeds hok]
    unfold World.agentSlot World.upgradeSlot
    generalize (w.after (.call env call)).roles = r at hstep
    cases hstep with
    | updateAgent =>
      have hexpiry : w.entered.timelockExpiry = _ := timelockExpiry_of_inTime (htime rfl)
      rw [hexpiry]
      exact ⟨rfl, rfl⟩
    | scheduleUpgrade =>
      have hexpiry : w.entered.timelockExpiry = _ := timelockExpiry_of_inTime (htime rfl)
      rw [hexpiry]
      exact ⟨rfl, rfl⟩
    | _ => exact ⟨rfl, rfl⟩

/-- The pending owner follows the transfer calls, and only an acceptance replaces the owner. -/
theorem ownership_after (step : Step) (hi : w.Initialized) :
    match (step.ownerAct w).2 with
    | .propose p => (w.after step).roles.pendingOwner = some p.1 ∧ p.2 = w.roles.owner ∧
        (w.after step).roles.owner = w.roles.owner
    | .close => (w.after step).roles.pendingOwner = none ∧
        ((w.after step).roles.owner = w.roles.owner ∨ ∃ newOwner,
          step.Performs w (.acceptOwnership newOwner) ∧
          w.roles.pendingOwner = some newOwner ∧ (w.after step).roles.owner = some newOwner)
    | .idle => (w.after step).roles.pendingOwner = w.roles.pendingOwner ∧
        (w.after step).roles.owner = w.roles.owner := by
  unfold Step.ownerAct
  rcases roles_after step hi with ⟨hroles, hidle⟩ | ⟨env, call, rfl, hok, hstep⟩
  · rw [act_idle fun call h => (acts_idle (hidle call h)).2.2, hroles]
    exact ⟨rfl, rfl⟩
  · rw [act_of_succeeds hok]
    generalize (w.after (.call env call)).roles = r at hstep
    cases hstep with
    | acceptOwnership hsigned hpending =>
      exact ⟨rfl, .inr ⟨_, ⟨env, rfl, hok⟩, hpending, rfl⟩⟩
    | cancelOwnershipTransfer => exact ⟨rfl, .inl rfl⟩
    | transferOwnership => exact ⟨rfl, rfl, rfl⟩
    | _ => exact ⟨rfl, rfl⟩

/-- The version counts executed upgrades. -/
theorem version_after (step : Step) (hi : w.Initialized) :
    (∀ owner, step.Performs w (.executeUpgrade owner) →
        (w.after step).roles.version = w.roles.version + 1) ∧
      ((∀ owner, ¬ step.Performs w (.executeUpgrade owner)) →
        (w.after step).roles.version = w.roles.version) := by
  rcases roles_after step hi with ⟨hroles, hidle⟩ | ⟨env, call, rfl, hok, hstep⟩
  · rw [hroles]
    refine ⟨fun owner h => ?_, fun _ => rfl⟩
    exact absurd (.head _) (hidle _ h)
  · generalize (w.after (.call env call)).roles = r at hstep
    refine ⟨?_, ?_⟩
    · rintro owner ⟨_, hcall, -⟩
      obtain ⟨rfl, rfl⟩ := Step.call.inj hcall
      cases hstep
      rfl
    · intro hno
      cases hstep with
      | executeUpgrade => exact absurd ⟨env, rfl, hok⟩ (hno _)
      | _ => rfl

/-! ## Runs -/

/-- The stored proposals are the open ones, and the pending owner was proposed by the owner. -/
structure ProposalsStored (past : List (World × Step)) (w : World) : Prop where
  initialized : w.Initialized
  agent : w.agentSlot = slotFor timelockLedgers (openProposal Step.agentAct past)
  upgrade : w.upgradeSlot = slotFor timelockLedgers (openProposal Step.upgradeAct past)
  pendingOwner : w.roles.pendingOwner = (openProposal Step.ownerAct past).map fun p => p.value.1
  proposer : ∀ p, openProposal Step.ownerAct past = some p → p.value.2 = w.roles.owner

theorem World.Fresh.proposalsStored (h : w.Fresh) : ProposalsStored [] w := by
  obtain ⟨deployer, owner, agent, hroles⟩ := h.roles
  refine ⟨h.initialized, ?_, ?_, ?_, ?_⟩
  · unfold World.agentSlot
    rw [hroles]
    rfl
  · unfold World.upgradeSlot
    rw [hroles]
    rfl
  · rw [hroles]
    rfl
  · intro p hp
    cases hp

/-- One step. -/
theorem ProposalsStored.after {past : List (World × Step)} (h : ProposalsStored past w)
    (step : Step) (htime : step.StartsInTime w) :
    ProposalsStored (past ++ [(w, step)]) (w.after step) := by
  obtain ⟨hagent, hupgrade⟩ := slots_after step h.initialized htime
  have howner := ownership_after step h.initialized
  have hledger : ∀ {α : Type} {acts : World → Call → Act α},
      (step.act acts w).1 = w.chain.sequence := act_ledger
  refine ⟨(anchored_after step h.initialized).initialized h.initialized, ?_, ?_, ?_, ?_⟩
  · rw [hagent, h.agent, openProposal_concat, slotFor_next, Step.agentAct, hledger]
  · rw [hupgrade, h.upgrade, openProposal_concat, slotFor_next, Step.upgradeAct, hledger]
  · rw [openProposal_concat]
    generalize (step.ownerAct w).2 = act at howner
    cases act with
    | propose p => exact howner.1
    | close => exact howner.1
    | idle => exact howner.1.trans h.pendingOwner
  · rw [openProposal_concat]
    generalize (step.ownerAct w).2 = act at howner
    intro p hp
    cases act with
    | propose q =>
      obtain rfl := Option.some.inj hp
      exact howner.2.1.trans howner.2.2.symm
    | close => cases hp
    | idle => exact (h.proposer p hp).trans howner.2.symm

/-- Along every run. -/
theorem proposalsStored_of_run (h0 : w0.Opened) (h : Admits (fun w step => step.StartsInTime w) w0 steps) :
    ProposalsStored (w0.history steps) (w0.replay steps) :=
  h.invariant h0.fresh.proposalsStored fun _ _ step htime hstored => hstored.after step htime

/-- What one step after a past does to the timelocks: both slots follow their actions, the calls
    that carry a proposal out find one, wait for it and install it, the version counts executed
    upgrades, and only the owner's last proposal becomes the owner. -/
structure TimelocksRespected (past : List (World × Step)) (w : World) (step : Step) (w' : World) :
    Prop where
  confirm : step.Performs w .confirmAgentUpdate →
    ∃ p, openProposal Step.agentAct past = some p ∧ w'.roles.agent = some p.value ∧
      p.made + 17280 ≤ w.chain.sequence
  execute : ∀ owner, step.Performs w (.executeUpgrade owner) →
    ∃ p, openProposal Step.upgradeAct past = some p ∧ w'.roles.wasmHash = some p.value ∧
      p.made + 17280 ≤ w.chain.sequence
  agentSlot : w'.agentSlot = w.agentSlot.after 17280 w.chain.sequence (step.agentAct w).2
  upgradeSlot : w'.upgradeSlot = w.upgradeSlot.after 17280 w.chain.sequence (step.upgradeAct w).2
  upgraded : ∀ owner, step.Performs w (.executeUpgrade owner) →
    w'.roles.version = w.roles.version + 1
  notUpgraded : (∀ owner, ¬ step.Performs w (.executeUpgrade owner)) →
    w'.roles.version = w.roles.version
  owner : w'.roles.owner ≠ w.roles.owner → ∃ newOwner made,
    step.Performs w (.acceptOwnership newOwner) ∧ w'.roles.owner = some newOwner ∧
      openProposal Step.ownerAct past = some ⟨(newOwner, w.roles.owner), made⟩

/-- A filled slot holds an open proposal, and its expiry is a day after that was made. -/
theorem openProposal_of_slot {α : Type} {slot : Slot α} {current : Option (Proposal α)} {value : α}
    {ledger : ℕ} (hslot : slot = slotFor timelockLedgers current) (hvalue : slot.value = some value)
    (helapsed : slot.expiry ≤ ledger) :
    ∃ p, current = some p ∧ p.value = value ∧ p.made + timelockLedgers ≤ ledger := by
  subst hslot
  cases current with
  | none => cases hvalue
  | some p => exact ⟨p, rfl, Option.some.inj hvalue, helapsed⟩

theorem timelocks_respected (h0 : w0.Opened)
    (h : Admits (fun w step => step.StartsInTime w) w0 steps)
    (htime : step.StartsInTime (w0.replay steps)) :
    TimelocksRespected (w0.history steps) (w0.replay steps) step
      ((w0.replay steps).after step) := by
  have hstored := proposalsStored_of_run h0 h
  generalize w0.history steps = past at hstored ⊢
  generalize w0.replay steps = w at hstored htime ⊢
  have hi := hstored.initialized
  obtain ⟨hagent, hupgrade⟩ := slots_after step hi htime
  obtain ⟨hversion, hkept⟩ := version_after step hi
  refine ⟨?_, ?_, hagent, hupgrade, hversion, hkept, ?_⟩
  · rintro ⟨env, rfl, hok⟩
    have hstep := roleStep_of_invoke hi (.head _) (ok_after hok)
    generalize (w.after (.call env .confirmAgentUpdate)).roles = r at hstep ⊢
    cases hstep with
    | confirmAgentUpdate _ hpending helapsed =>
      obtain ⟨p, hp, rfl, hledger⟩ := openProposal_of_slot hstored.agent hpending helapsed
      exact ⟨p, hp, rfl, hledger⟩
  · rintro owner ⟨env, rfl, hok⟩
    have hstep := roleStep_of_invoke hi (.head _) (ok_after hok)
    generalize (w.after (.call env (.executeUpgrade owner))).roles = r at hstep ⊢
    cases hstep with
    | executeUpgrade _ _ hpending helapsed =>
      obtain ⟨p, hp, rfl, hledger⟩ := openProposal_of_slot hstored.upgrade hpending helapsed
      exact ⟨p, hp, rfl, hledger⟩
  · intro hchanged
    have howner := ownership_after step hi
    generalize (step.ownerAct w).2 = act at howner
    cases act with
    | propose p => exact absurd howner.2.2 hchanged
    | idle => exact absurd howner.2 hchanged
    | close =>
      obtain ⟨-, hsame | ⟨newOwner, hperforms, hpending, hnew⟩⟩ := howner
      · exact absurd hsame hchanged
      · rw [hstored.pendingOwner] at hpending
        obtain ⟨p, hp, rfl⟩ := Option.map_eq_some_iff.mp hpending
        refine ⟨p.value.1, p.made, hperforms, hnew, ?_⟩
        rw [hp, ← hstored.proposer p hp]

namespace Sample

/-- An upgrade is scheduled and a day passes. -/
def scheduling : List Step :=
  [.call honest (.scheduleUpgrade owner 7), .ambient { blank.chain with sequence := 18280 }]

theorem scheduled_upgrade_respected :
    (Step.call honest (.executeUpgrade owner)).Performs (opened.replay scheduling)
        (.executeUpgrade owner) ∧
      TimelocksRespected (opened.history scheduling) (opened.replay scheduling)
        (.call honest (.executeUpgrade owner))
        ((opened.replay scheduling).after (.call honest (.executeUpgrade owner))) := by
  refine ⟨⟨honest, rfl, by decide +kernel⟩, timelocks_respected opened_opened ?_ ?_⟩
  · exact ⟨fun _ => by decide +kernel, trivial, trivial⟩
  · intro hstarts
    cases hstarts

end Sample

end NeuroWealth.Vault
