import NeuroWealth.Vault.Proofs.ReportingProofs
import NeuroWealth.Vault.Properties.VenueMarker

/-!
# What a report of the total is checked against

`update_total_assets` counts the position of a single marked venue but neither position in
multi-protocol mode, where `get_protocol_balance` counts both.
-/

namespace NeuroWealth.Vault

open Transaction MachineInt

variable {env : Env} {w w' : World} {reporter : Address} {new : Int} {allow : Bool} {bps : Nat}

/-- The idle balance with what the marker says is deployed. -/
def World.markedBacking (w : World) : Int := w.idle + w.protocolBalance w.deployment.currentProtocol

/-- The sums and products of a report are within the type. -/
def World.ReportFits (w : World) (new : Int) : Prop :=
  w.VisibleFits ∧ w.Attributable (i128.saturatingSub new w.book.assets)

/-- Outside multi-protocol mode the contract sees all that backs it. -/
theorem visible_eq_markedBacking (h : w.deployment.currentProtocol ≠ .multi) : w.visible = w.markedBacking := by
  unfold World.visible World.markedBacking
  cases hmark : w.deployment.currentProtocol with
  | none => simp [World.protocolBalance]
  | blend => simp [World.protocolBalance]
  | dex => simp [World.protocolBalance]
  | multi => exact absurd hmark h
  | other => simp [World.protocolBalance]

/-- In multi-protocol mode it sees the idle balance only. -/
theorem visible_multi (h : w.deployment.currentProtocol = .multi) : w.visible = w.idle := by
  unfold World.visible
  rw [h]
  simp

/-- A report of no less than the stored total, signed by an agent key. -/
structure World.MayReport (w : World) (env : Env) (reporter : Address) (new : Int) : Prop where
  initialized : w.Initialized
  accepted : w.Accepts reporter
  signed : reporter ∈ env.auths
  foreign : reporter ≠ w.self
  rises : w.book.assets ≤ new

theorem report_accepted_iff (h : w.MayReport env reporter new) :
    (∃ w', (invoke (.updateTotalAssets reporter new allow bps)).Ok env w () w') ↔
      w.ReportFits new ∧ new ≤ w.visible := by
  constructor
  · rintro ⟨w', hok⟩
    have hrun : (updateTotalAssets reporter new allow bps).Ok env w.entered () w' := ok_invoke.mp hok
    obtain ⟨-, hfits, hle, -⟩ := (ok_updateTotalAssets (w := w.entered) h.initialized h.rises).mp hrun
    exact ⟨hfits, hle⟩
  · rintro ⟨hfits, hle⟩
    refine ⟨w.entered.reported new, ok_invoke.mpr ?_⟩
    apply (ok_updateTotalAssets (w := w.entered) h.initialized h.rises).mpr
    exact ⟨⟨h.accepted, h.signed, h.foreign⟩, hfits, hle, rfl⟩

/-- A report that does not lower the total is accepted exactly when it is backed, if and only if in
    multi-protocol mode the positions make no difference, and what is backed stays within the
    type. -/
theorem report_backed_iff (h : w.MayReport env reporter new) :
    ((∃ w', (invoke (.updateTotalAssets reporter new allow bps)).Ok env w () w') ↔
        new ≤ w.markedBacking) ↔
      (w.deployment.currentProtocol = .multi → w.ReportFits new →
          (new ≤ w.idle ↔ new ≤ w.markedBacking)) ∧
        (new ≤ w.markedBacking → w.ReportFits new) := by
  rw [report_accepted_iff h]
  by_cases hmulti : w.deployment.currentProtocol = .multi
  · rw [visible_multi hmulti]
    tauto
  · rw [visible_eq_markedBacking hmulti]
    tauto

namespace Sample

/-- With everything in Blend the report of it is accepted. -/
theorem report_of_blend :
    ((∃ w', (invoke (.updateTotalAssets agent 5000000 false 0)).Ok tame inBlend () w') ↔
        5000000 ≤ inBlend.markedBacking) ↔
      (inBlend.deployment.currentProtocol = .multi → inBlend.ReportFits 5000000 →
          (5000000 ≤ inBlend.idle ↔ 5000000 ≤ inBlend.markedBacking)) ∧
        (5000000 ≤ inBlend.markedBacking → inBlend.ReportFits 5000000) := by
  apply report_backed_iff
  exact ⟨by decide +kernel, .inl (by decide +kernel), by decide +kernel, by decide +kernel,
    by decide +kernel⟩

/-- With everything in both venues the same report, of what is stored already, is turned down. -/
theorem report_of_both_refused :
    opened.Opened ∧ Reaches (fun _ _ => True) opened (opened.replay spread) ∧
      (opened.replay spread).MayReport tame agent 5000000 ∧
      (opened.replay spread).markedBacking = 5000000 ∧
      ¬ ∃ w', (invoke (.updateTotalAssets agent 5000000 false 0)).Ok tame (opened.replay spread)
        () w' := by
  have hreach : Reaches (fun _ _ => True) opened (opened.replay spread) :=
    .of_admits ⟨trivial, trivial, trivial, trivial, trivial, trivial⟩
  have hmay : (opened.replay spread).MayReport tame agent 5000000 :=
    ⟨by decide +kernel, .inl (by decide +kernel), by decide +kernel, by decide +kernel,
      by decide +kernel⟩
  refine ⟨opened_opened, hreach, hmay, by decide +kernel, ?_⟩
  rw [report_accepted_iff hmay]
  rintro ⟨-, hle⟩
  have hnone : (opened.replay spread).visible = 0 := by decide +kernel
  omega

end Sample

end NeuroWealth.Vault
