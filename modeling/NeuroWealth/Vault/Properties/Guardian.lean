import NeuroWealth.Vault.Proofs.HistoriesProofs

/-!
# The guardian's signature

An upgrade scheduled under a guardian is meant to need that guardian's signature. It does as long
as the guardian is not replaced while an upgrade is pending.
-/

namespace NeuroWealth.Vault

open Transaction MachineInt Timelock

variable {env : Env} {w w' w0 : World} {step : Step} {steps : List Step}

/-- A scheduled build, with the guardian configured at that moment. -/
def Call.guardedAct (w : World) : Call → Act (Nat × Option Address)
  | .scheduleUpgrade _ newWasmHash => .propose (newWasmHash, w.roles.guardian)
  | .executeUpgrade _ => .close
  | .cancelUpgrade _ => .close
  | _ => .idle

def Step.guardedAct : World → Step → ℕ × Act (Nat × Option Address) := Step.act Call.guardedAct

/-- While an upgrade is pending a configured guardian is neither removed nor replaced. -/
def Step.KeepsGuardian (w : World) (step : Step) : Prop :=
  w.roles.pendingUpgradeHash ≠ none → ∀ g, w.roles.guardian = some g →
    ¬ step.Performs w .removeGuardian ∧ ∀ g', step.Performs w (.setGuardian g') → g' = g

theorem guardedAct_idle {call : Call} (h : .roles ∉ call.writes) : call.guardedAct w = .idle := by
  cases call <;> first
    | rfl
    | exact absurd (by simp [Call.writes]) h

/-- The pending build follows the upgrade calls, and so does the guardian unless it is changed. -/
theorem pendingUpgrade_after (step : Step) (hi : w.Initialized) (hkeeps : step.KeepsGuardian w) :
    match (step.guardedAct w).2 with
    | .propose p => (w.after step).roles.pendingUpgradeHash = some p.1 ∧
        (w.after step).roles.guardian = p.2
    | .close => (w.after step).roles.pendingUpgradeHash = none
    | .idle => (w.after step).roles.pendingUpgradeHash = w.roles.pendingUpgradeHash ∧
        (w.roles.pendingUpgradeHash ≠ none → ∀ g, w.roles.guardian = some g →
          (w.after step).roles.guardian = some g) := by
  unfold Step.guardedAct
  rcases roles_after step hi with ⟨hroles, hidle⟩ | ⟨env, call, rfl, hok, hstep⟩
  · rw [act_idle fun call h => guardedAct_idle (hidle call h), hroles]
    exact ⟨rfl, fun _ _ hg => hg⟩
  · rw [act_of_succeeds hok]
    generalize (w.after (.call env call)).roles = r at hstep
    cases hstep with
    | setGuardian =>
      refine ⟨rfl, fun hpending g hg => ?_⟩
      have hsame := (hkeeps hpending g hg).2 _ ⟨env, rfl, hok⟩
      exact congrArg some hsame
    | removeGuardian =>
      refine ⟨rfl, fun hpending g hg => ?_⟩
      exact absurd ⟨env, rfl, hok⟩ (hkeeps hpending g hg).1
    | scheduleUpgrade => exact ⟨rfl, rfl⟩
    | executeUpgrade => rfl
    | cancelUpgrade => rfl
    | _ => exact ⟨rfl, fun _ _ hg => hg⟩

/-- The stored build is the scheduled one, and its guardian is still configured. -/
structure GuardianStored (past : List (World × Step)) (w : World) : Prop where
  initialized : w.Initialized
  pending : w.roles.pendingUpgradeHash =
    (openProposal Step.guardedAct past).map fun p => p.value.1
  guardian : ∀ p g, openProposal Step.guardedAct past = some p → p.value.2 = some g →
    w.roles.guardian = some g

theorem GuardianStored.after {past : List (World × Step)} (h : GuardianStored past w)
    (step : Step) (hkeeps : step.KeepsGuardian w) :
    GuardianStored (past ++ [(w, step)]) (w.after step) := by
  have hafter := pendingUpgrade_after step h.initialized hkeeps
  refine ⟨(anchored_after step h.initialized).initialized h.initialized, ?_, ?_⟩
  · rw [openProposal_concat]
    generalize (step.guardedAct w).2 = act at hafter
    cases act with
    | propose p => exact hafter.1
    | close => exact hafter
    | idle => exact hafter.1.trans h.pending
  · rw [openProposal_concat]
    generalize (step.guardedAct w).2 = act at hafter
    intro p g hp hg
    cases act with
    | propose q =>
      obtain rfl := Option.some.inj hp
      exact hafter.2.trans hg
    | close => cases hp
    | idle =>
      have hopen : openProposal Step.guardedAct past = some p := hp
      refine hafter.2 ?_ g (h.guardian p g hopen hg)
      rw [h.pending, hopen]
      exact Option.some_ne_none _

/-- An upgrade is executed for the open proposal, with the signature of the guardian it was
    scheduled under. -/
theorem guardian_signs {owner : Address} (h0 : w0.Opened)
    (h : Admits (fun w step => step.KeepsGuardian w) w0 steps)
    (hok : (invoke (.executeUpgrade owner)).Ok env (w0.replay steps) () w') :
    ∃ p, openProposal Step.guardedAct (w0.history steps) = some p ∧
      w'.roles.wasmHash = some p.value.1 ∧ ∀ g, p.value.2 = some g → g ∈ env.auths := by
  have hfresh : GuardianStored [] w0 := by
    obtain ⟨_, _, _, hroles⟩ := h0.fresh.roles
    refine ⟨h0.fresh.initialized, ?_, ?_⟩
    · rw [hroles]
      rfl
    · intro p g hp
      cases hp
  have hstored : GuardianStored (w0.history steps) (w0.replay steps) :=
    h.invariant hfresh fun _ _ step hkeeps hstored => hstored.after step hkeeps
  have hstep := roleStep_of_invoke hstored.initialized (.head _) hok
  generalize w'.roles = r at hstep ⊢
  cases hstep with
  | executeUpgrade _ hguardian hpending _ =>
    have hpending : (w0.replay steps).roles.pendingUpgradeHash = some _ := hpending
    rw [hstored.pending] at hpending
    obtain ⟨p, hp, rfl⟩ := Option.map_eq_some_iff.mp hpending
    exact ⟨p, hp, rfl, fun g hg => hguardian g (hstored.guardian p g hp hg)⟩

namespace Sample

/-- Nobody but the owner signs. -/
def ownerOnly : Env := { honest with auths := [owner] }

/-- Owner and guardian sign. -/
def coSigned : Env := { honest with auths := [owner, alice] }

/-- Alice is the guardian, an upgrade is scheduled and a day passes. -/
def guarded : List Step :=
  [.call ownerOnly (.setGuardian alice), .call ownerOnly (.scheduleUpgrade owner 7),
    .ambient { blank.chain with sequence := 18280 }]

theorem guarded_signed :
    ∃ p, openProposal Step.guardedAct (opened.history guarded) = some p ∧
      ((opened.replay guarded).after (.call coSigned (.executeUpgrade owner))).roles.wasmHash =
        some p.value.1 ∧ ∀ g, p.value.2 = some g → g ∈ coSigned.auths := by
  have hok : (invoke (.executeUpgrade owner)).Ok coSigned (opened.replay guarded) ()
      ((opened.replay guarded).after (.call coSigned (.executeUpgrade owner))) :=
    ok_after (by decide +kernel)
  refine guardian_signs opened_opened ⟨?_, ?_, ?_, trivial⟩ hok
  · intro hpending
    exact absurd (by decide +kernel) hpending
  · intro hpending
    exact absurd (by decide +kernel) hpending
  · rintro - g -
    refine ⟨?_, ?_⟩
    · rintro ⟨_, hstep, -⟩
      cases hstep
    · rintro g' ⟨_, hstep, -⟩
      cases hstep

/-- The owner removes the guardian while the upgrade waits. -/
def unguarded : List Step :=
  [.call ownerOnly (.setGuardian alice), .call ownerOnly (.scheduleUpgrade owner 7),
    .call ownerOnly .removeGuardian, .ambient { blank.chain with sequence := 18280 }]

/-- Then the owner alone installs a build that was scheduled under Alice. -/
theorem guardian_not_needed :
    opened.Opened ∧
      openProposal Step.guardedAct (opened.history unguarded) = some ⟨(7, some alice), 1000⟩ ∧
      (invoke (.executeUpgrade owner)).Ok ownerOnly (opened.replay unguarded) ()
        ((opened.replay unguarded).after (.call ownerOnly (.executeUpgrade owner))) ∧
      ((opened.replay unguarded).after (.call ownerOnly (.executeUpgrade owner))).roles.wasmHash =
        some 7 ∧
      alice ∉ ownerOnly.auths := by
  refine ⟨opened_opened, ?_, ok_after (by decide +kernel), by decide +kernel, by decide⟩
  apply latest_eq_some.mpr
  refine ⟨[(1000, .idle)], [(1000, .idle), (1000, .idle)], by rfl, ?_⟩
  intro act hact
  rcases List.mem_pair.mp hact with rfl | rfl
  · rfl
  · rfl

end Sample

end NeuroWealth.Vault
