import NeuroWealth.Vault.Pools
import NeuroWealth.Vault.Proofs.WithdrawalsProofs

/-!
# Pulls that succeed

Pools that pay in full let a pull succeed and deliver what is missing, as long as the venues the
marker names hold it.
-/

namespace NeuroWealth.Vault

open Transaction MachineInt SharePool

variable {env : Env} {w w' : World} {venue : Venue} {amount needed : Int} {token : Address}

/-! ## Code that never aborts -/

theorem total_publish {e : Event} : Total (publish e) := .modify

theorem total_setCurrentProtocol {p : Protocol} : Total (setCurrentProtocol p) :=
  .bind .get fun _ => .ite (.pure _) (.bind .modify fun _ => total_publish)

theorem total_poolBalance {pool : Address} : Total (poolBalance venue pool) :=
  .bind .get fun _ => .pure _

theorem total_clearMarkerIfEmptied {pool : Address} : Total (clearMarkerIfEmptied venue pool) :=
  .bind total_poolBalance fun _ => .onlyIf total_setCurrentProtocol

/-- A venue's balance can be read as soon as there is a token. -/
theorem getVenueBalance_succeeds (htoken : w.usdcToken = some token) :
    (getVenueBalance venue).Ok env w (w.position venue) w := by
  simp only [getVenueBalance, Tx.ok_bind, Tx.ok_get, existsAndEq, true_and]
  cases hpool : w.deployment.pool venue with
  | none =>
    apply Tx.ok_pure.mpr
    simp only [World.position, hpool, and_self]
  | some pool =>
    simp only [Tx.ok_bind, ok_getUsdcToken, ok_poolBalance]
    exact ⟨token, w, ⟨htoken, rfl⟩, position_eq hpool, rfl⟩

theorem syncDeployedSplit_succeeds (htoken : w.usdcToken = some token) :
    ∃ x w', syncDeployedSplit.Ok env w x w' := by
  apply Tx.exists_ok_bind (getVenueBalance_succeeds htoken)
  apply Tx.exists_ok_bind (getVenueBalance_succeeds htoken)
  apply Tx.exists_ok_bind (Tx.ok_get.mpr ⟨rfl, rfl⟩)
  exact Tx.exists_ok_bind (a := ()) (ok_putDeployment.mpr rfl) Tx.exists_ok_pure

/-! ## Legs -/

/-- The answer of a pool that pays in full. -/
theorem Env.PayingPools.answer {leg : Nat} {pool : Address} {minOut position : Int}
    (h : env.PayingPools) (hpos : 0 < amount) (hle : amount ≤ position) :
    ∃ r, env.pool ⟨leg, .withdraw, venue, pool, amount, minOut, position⟩ = some r ∧
      r.moved = amount :=
  h _ ⟨hpos, hpos.le.trans hle⟩ rfl hle

/-- A pool that pays in full pays what is asked of a sufficient position. -/
theorem Leg.paid {minOut : Int} {reply : PoolReply}
    (h : Leg .withdraw env w w' venue amount minOut reply) (hpaying : env.PayingPools)
    (hpos : 0 < amount) (hle : amount ≤ w.position venue) : reply.moved = amount := by
  obtain ⟨pool, -, hanswer⟩ := h.answered
  obtain ⟨r, hr, hmoved⟩ := hpaying.answer hpos hle
  rw [hanswer] at hr
  cases hr
  exact hmoved

/-- What a delivery changes: the idle balance, and the position of no other venue. -/
structure Delivered (w w' : World) (venue : Venue) (amount : Int) : Prop where
  frame : PoolStep w w'
  idle : w'.idle = w.idle + amount
  elsewhere : ∀ v, v ≠ venue → w'.position v = w.position v

theorem withdrawFromVenue_succeeds (hpaying : env.PayingPools) (htoken : w.usdcToken = some token)
    (hpos : 0 < amount) (hle : amount ≤ w.position venue) :
    ∃ x w', (withdrawFromVenue venue amount 0).Ok env w x w' ∧ Delivered w w' venue amount := by
  have hconfigured : ∃ pool, w.deployment.pool venue = some pool := by
    by_contra hnone
    push Not at hnone
    have hzero : w.position venue = 0 := by
      unfold World.position
      cases hpool : w.deployment.pool venue with
      | none => rfl
      | some pool => exact absurd hpool (hnone pool)
    omega
  obtain ⟨pool, hpool⟩ := hconfigured
  obtain ⟨r, hr, hmoved⟩ := hpaying.answer hpos (position_eq hpool ▸ hle)
  have hcall : ∃ t, (callPool .withdraw venue pool token amount (venue.forwardedMinOut 0)).Ok
      env w () t := by
    simp only [callPool, Tx.ok_bind, Tx.ok_read, Tx.ok_get, Tx.ok_expect, Tx.ok_require,
      Tx.ok_modify, existsAndEq, exists_const, and_assoc, true_and, exists_and_left]
    refine ⟨r, hr, .inl ?_, trivial⟩
    show -r.moved ≤ 0
    omega
  obtain ⟨t, hcall⟩ := hcall
  have hrun : ∃ x w', (withdrawFromVenue venue amount 0).Ok env w x w' := by
    have hmark : Total (Tx.onlyIf (0 < i128.saturatingSub (t.chain.balances token t.self)
        (w.chain.balances token w.self)) (clearMarkerIfEmptied venue pool) : Contract Unit) :=
      .onlyIf total_clearMarkerIfEmptied
    obtain ⟨_, t1, h1⟩ := hmark env t
    apply Tx.exists_ok_bind (ok_getPool.mpr ⟨hpool, rfl⟩)
    apply Tx.exists_ok_bind (ok_getUsdcToken.mpr ⟨htoken, rfl⟩)
    simp only [requestedAmount, if_neg hpos.ne', pure_bind, if_neg (not_le.mpr hpos)]
    apply Tx.exists_ok_bind (ok_vaultBalance.mpr ⟨rfl, rfl⟩)
    apply Tx.exists_ok_bind hcall
    apply Tx.exists_ok_bind (ok_vaultBalance.mpr ⟨rfl, rfl⟩)
    apply Tx.exists_ok_bind (a := ()) (ok_requireMinOut.mpr ⟨by omega, rfl⟩)
    apply Tx.exists_ok_bind h1
    exact Tx.exists_ok_bind (a := ()) (ok_publish.mpr rfl) Tx.exists_ok_pure
  obtain ⟨x, w', hrun⟩ := hrun
  refine ⟨x, w', hrun, ?_⟩
  have hasked : w.asked venue amount = amount := if_neg hpos.ne'
  rcases withdrawFromVenue_ok hrun with ⟨hle0, -⟩ | ⟨-, reply, hleg, -⟩
  · rw [hasked] at hle0
    omega
  · rw [hasked] at hleg
    refine ⟨hleg.frame, ?_, hleg.elsewhere⟩
    rw [hleg.idle, hleg.paid hpaying hpos hle]
    show w.idle - -amount = w.idle + amount
    omega

theorem withdrawShare_succeeds (venue : Venue) (hpaying : env.PayingPools) (htoken : w.usdcToken = some token)
    (hpos : 0 ≤ amount) (hle : amount ≤ w.position venue) :
    ∃ x w', (withdrawShare venue amount 0).Ok env w x w' ∧ Delivered w w' venue amount := by
  unfold withdrawShare
  by_cases hzero : 0 < amount
  · rw [if_pos hzero]
    exact withdrawFromVenue_succeeds hpaying htoken hzero hle
  · rw [if_neg hzero]
    refine ⟨0, w, Tx.ok_pure.mpr ⟨rfl, rfl⟩, poolStep.refl env w, ?_, fun _ _ => rfl⟩
    omega

/-! ## Proportional pulls -/

/-- The split asks each venue for no more than it holds, and both together for the target. -/
theorem proportionalSplit_spec {target blend dex fromBlend : Int} (htarget : target ≤ blend + dex)
    (hfits : i128.Fits target) (hblend : 0 ≤ blend) (hdex : 0 ≤ dex) (hfrom : 0 ≤ fromBlend)
    (hle : fromBlend ≤ target) :
    let legs := proportionalSplit target blend dex fromBlend
    (0 ≤ legs.1 ∧ legs.1 ≤ blend) ∧ (0 ≤ legs.2 ∧ legs.2 ≤ dex) ∧ legs.1 + legs.2 = target := by
  have hleast := i128.least_nonpos
  obtain ⟨hlo, hhi⟩ := hfits
  unfold proportionalSplit Format.saturatingAdd Format.saturate
  by_cases hspill : dex < target - fromBlend
  · simp only [if_pos hspill]
    split_ifs <;> simp only <;> omega
  · simp only [if_neg hspill]
    split_ifs <;> simp only <;> omega

/-- Both venues together deliver what they are asked for. -/
theorem withdrawProportionally_succeeds (hpaying : env.PayingPools)
    (htoken : w.usdcToken = some token) (hpos : 0 < needed)
    (hnonneg : ∀ v, 0 ≤ w.position v) (hle : needed ≤ w.position .blend + w.position .dex)
    (hfits : i128.Fits needed) (hproduct : i128.Fits (needed * w.position .blend)) :
    ∃ x w', (withdrawProportionally needed 0).Ok env w x w' ∧ PoolStep w w' ∧
      w'.idle = w.idle + needed := by
  have hblend := hnonneg .blend
  have hdex := hnonneg .dex
  have hheld : w.position .blend ≤ i128.greatest := by
    have hone : w.position .blend ≤ needed * w.position .blend :=
      le_mul_of_one_le_left hblend (by omega)
    exact hone.trans hproduct.2
  have htotal : needed ≤ i128.saturatingAdd (w.position .blend) (w.position .dex) ∧
      w.position .blend ≤ i128.saturatingAdd (w.position .blend) (w.position .dex) := by
    obtain ⟨-, hhi⟩ := hfits
    have hleast := i128.least_nonpos
    unfold Format.saturatingAdd Format.saturate
    omega
  obtain ⟨hneeded, hshare⟩ := htotal
  have hTpos : 0 < i128.saturatingAdd (w.position .blend) (w.position .dex) := by omega
  have htarget : min needed (i128.saturatingAdd (w.position .blend) (w.position .dex)) = needed :=
    min_eq_left hneeded
  generalize hT : i128.saturatingAdd (w.position .blend) (w.position .dex) = T at *
  have hprod_nonneg : 0 ≤ needed * w.position .blend := mul_nonneg hpos.le hblend
  have hdiv : (needed * w.position .blend).tdiv T = needed * w.position .blend / T :=
    Int.tdiv_eq_ediv_of_nonneg hprod_nonneg
  have hfrom : 0 ≤ needed * w.position .blend / T := Int.ediv_nonneg hprod_nonneg hTpos.le
  have hfrom_le : needed * w.position .blend / T ≤ needed := by
    apply Int.ediv_le_of_le_mul hTpos
    exact mul_le_mul_of_nonneg_left hshare hpos.le
  obtain ⟨⟨hb0, hb⟩, ⟨hd0, hd⟩, hsum⟩ :=
    proportionalSplit_spec hle hfits hblend hdex hfrom hfrom_le
  obtain ⟨x1, t1, h1, hd1⟩ := withdrawShare_succeeds .blend hpaying htoken hb0 hb
  have htoken1 : t1.usdcToken = some token := hd1.frame.usdcToken.trans htoken
  obtain ⟨x2, t2, h2, hd2⟩ := withdrawShare_succeeds .dex hpaying htoken1 hd0
    (by rw [hd1.elsewhere .dex (by decide)]; exact hd)
  obtain ⟨x3, t3, h3⟩ : ∃ x t, syncDeployedSplit.Ok env t2 x t := syncDeployedSplit_succeeds
    (hd2.frame.usdcToken.trans htoken1)
  obtain ⟨_, t4, h4⟩ := total_setCurrentProtocol (p := deriveProtocolSummary x3.1 x3.2) env t3
  obtain ⟨hs3, -, -⟩ := syncDeployedSplit_ok h3
  obtain ⟨hs4, -⟩ := setCurrentProtocol_ok h4
  have hs : Settled t2 t4 := settled.trans (r := env) hs3 hs4
  have hquotient : i128.Fits (needed * w.position .blend / T) :=
    fits_of_le hfrom hfrom_le hfits
  have hrest : i128.Fits (needed - needed * w.position .blend / T) :=
    fits_of_le (by omega) (by omega) hfits
  refine ⟨i128.saturatingAdd x1 x2, t4, ?_, ?_, ?_⟩
  · unfold withdrawProportionally
    rw [if_neg (not_le.mpr hpos)]
    refine Tx.ok_bind.mpr ⟨_, w, getVenueBalance_succeeds htoken, ?_⟩
    refine Tx.ok_bind.mpr ⟨_, w, getVenueBalance_succeeds htoken, ?_⟩
    simp only [hT, htarget, if_neg (not_le.mpr hTpos)]
    refine Tx.ok_bind.mpr ⟨_, w, ok_checkedMul.mpr ⟨⟨rfl, hproduct⟩, rfl⟩, ?_⟩
    refine Tx.ok_bind.mpr ⟨_, w, ok_checkedDiv.mpr ⟨⟨hTpos.ne', rfl, ?_⟩, rfl⟩, ?_⟩
    · rwa [hdiv]
    rw [hdiv]
    refine Tx.ok_bind.mpr ⟨_, w, ok_checkedSub.mpr ⟨⟨rfl, hrest⟩, rfl⟩, ?_⟩
    refine Tx.ok_bind.mpr ⟨x1, t1, h1, Tx.ok_bind.mpr ⟨x2, t2, h2, ?_⟩⟩
    refine Tx.ok_bind.mpr ⟨x3, t3, h3, Tx.ok_bind.mpr ⟨_, t4, h4, ?_⟩⟩
    exact Tx.ok_pure.mpr ⟨rfl, rfl⟩
  · exact poolStep.trans (r := env) (poolStep.trans (r := env) hd1.frame hd2.frame) hs.toPoolStep
  · rw [hs.idle, hd2.idle, hd1.idle]
    omega

end NeuroWealth.Vault
