import NeuroWealth.Vault.Reporting
import NeuroWealth.Vault.Proofs.VenuesProofs

/-!
# What a report of the total does
-/

namespace NeuroWealth.Vault

open Transaction MachineInt

variable {env : Env} {w w' : World}

/-- The USDC `update_total_assets` can see: the idle balance and the position of the venue the
    marker names. -/
def World.visible (w : World) : Int :=
  w.idle + (if w.deployment.currentProtocol = .blend then w.position .blend else 0) +
    (if w.deployment.currentProtocol = .dex then w.position .dex else 0)

@[simp]
theorem ok_requireReporter {a : Address} {u : Unit} :
    (requireReporter a).Ok env w u w' ↔
      (w.roles.agent.isSome ∧ w.Accepts a ∧ a ∈ env.auths ∧ a ≠ w.self) ∧ w' = w := by
  simp only [requireReporter, Tx.ok_bind, ok_getAgentInternal, Tx.ok_get, Tx.ok_require,
    ok_requireAuth, existsAndEq, exists_const, and_assoc, true_and]
  constructor
  · rintro ⟨agent, hagent, ha, hsigned, hself, rfl⟩
    refine ⟨Option.isSome_of_mem hagent, ?_, hsigned, hself, rfl⟩
    rcases ha with rfl | ha
    · exact .inl hagent
    · exact .inr ha
  · rintro ⟨hsome, ha, hsigned, hself, rfl⟩
    obtain ⟨agent, hagent⟩ := Option.isSome_iff_exists.mp hsome
    refine ⟨agent, hagent, ?_, hsigned, hself, rfl⟩
    rcases ha with ha | ha
    · rw [hagent] at ha
      exact .inl (Option.some.inj ha).symm
    · exact .inr ha

theorem ok_addDeployed {venue : Venue} {total x : Int} :
    (addDeployed venue total).Ok env w x w' ↔
      (w.deployment.currentProtocol = venue.protocol → w.deployment.pool venue ≠ none →
          i128.Fits (total + w.position venue)) ∧
        x = total + (if w.deployment.currentProtocol = venue.protocol then w.position venue else 0) ∧
        w' = w := by
  simp only [addDeployed, Tx.ok_bind, Tx.ok_get, existsAndEq, true_and]
  split_ifs with hmark
  · cases hpool : w.deployment.pool venue with
    | none =>
      rw [position_unset hpool, add_zero, Tx.ok_pure]
      simp
    | some pool =>
      simp only [Tx.ok_bind, ok_poolBalance, ok_checkedAdd, existsAndEq, true_and,
        ← position_eq hpool]
      simp only [hmark, ne_eq, not_false_eq_true, reduceCtorEq, forall_const]
      tauto
  · rw [Tx.ok_pure, add_zero]
    simp [hmark]

/-- The sum of the idle balance and the marked position is within the type. -/
def World.VisibleFits (w : World) : Prop :=
  ∀ v : Venue, w.deployment.currentProtocol = v.protocol → w.deployment.pool v ≠ none →
    i128.Fits (w.idle + w.position v)

theorem ok_totalAvailable {token : Address} {x : Int} (htoken : w.usdcToken = some token) :
    totalAvailable.Ok env w x w' ↔ (w.VisibleFits ∧ x = w.visible) ∧ w' = w := by
  simp only [totalAvailable, Tx.ok_bind, ok_getUsdcToken, ok_vaultBalance, ok_addDeployed, htoken,
    Option.some.injEq, existsAndEq, and_assoc, true_and, ← idle_eq htoken]
  unfold World.VisibleFits World.visible
  constructor
  · rintro ⟨hblend, hdex, hx, hw⟩
    refine ⟨fun v hmark hpool => ?_, hx, hw⟩
    cases v with
    | blend => exact hblend hmark hpool
    | dex =>
      have hne : w.deployment.currentProtocol ≠ Venue.blend.protocol := by
        rw [hmark]
        decide
      have hfits := hdex hmark hpool
      rwa [if_neg hne, add_zero] at hfits
  · rintro ⟨hfits, hx, hw⟩
    refine ⟨hfits .blend, fun hmark hpool => ?_, hx, hw⟩
    have hne : w.deployment.currentProtocol ≠ Venue.blend.protocol := by
      rw [hmark]
      decide
    rw [if_neg hne, add_zero]
    exact hfits .dex hmark hpool

theorem totalAvailable_ok {x : Int} (h : totalAvailable.Ok env w x w') :
    x = w.visible ∧ w' = w := by
  obtain ⟨token, t, htoken, -⟩ := Tx.ok_bind.mp h
  obtain ⟨htoken, -⟩ := ok_getUsdcToken.mp htoken
  obtain ⟨⟨-, hx⟩, hw⟩ := (ok_totalAvailable htoken).mp h
  exact ⟨hx, hw⟩

/-! ## Attributions -/

/-- A holder's part of a yield. -/
def Book.yieldOf (b : Book) (y : Int) (user : Address) : Int :=
  (y * b.shares user).tdiv b.totalShares

/-- A holder's part of a yield can be computed within the type. -/
def Book.YieldFits (b : Book) (y : Int) (user : Address) : Prop :=
  b.shares user ≠ 0 → i128.Fits (y * b.shares user) ∧ i128.Fits (b.yieldOf y user)

/-- The same world after some more events. -/
def World.announce (w : World) (es : List Event) : World := { w with events := w.events ++ es }

@[simp]
theorem announce_nil : w.announce [] = w := by
  unfold World.announce
  rw [List.append_nil]

@[simp]
theorem announce_announce {es fs : List Event} :
    (w.announce es).announce fs = w.announce (es ++ fs) := by
  unfold World.announce
  rw [List.append_assoc]

theorem ok_publish_announce {e : Event} {u : Unit} :
    (publish e).Ok env w u w' ↔ w' = w.announce [e] := ok_publish

/-- What one holder is told of a yield. -/
def World.attribution (w : World) (y : Int) (user : Address) : List Event :=
  if w.book.yieldOf y user = 0 then []
  else [.yieldAttributed user w.deployment.currentProtocol (w.book.yieldOf y user)
    w.chain.timestamp]

theorem ok_attributeYield {y : Int} {user : Address} {u : Unit} (hS : w.book.totalShares ≠ 0) :
    (attributeYield y w.book.totalShares w.deployment.currentProtocol w.chain.timestamp user).Ok
        env w u w' ↔
      w.book.YieldFits y user ∧ w' = w.announce (w.attribution y user) := by
  simp only [attributeYield, Tx.ok_bind, ok_readShares, existsAndEq, true_and]
  unfold Book.YieldFits World.attribution Book.yieldOf
  by_cases hzero : w.book.shares user = 0
  · rw [if_pos hzero, hzero, mul_zero, Int.zero_tdiv, if_pos rfl, announce_nil, Tx.ok_pure]
    simp
  · rw [if_neg hzero]
    simp only [Tx.ok_bind, ok_checkedMul, ok_checkedDiv, existsAndEq, and_assoc, true_and,
      Tx.ok_onlyIf, ok_publish_announce]
    by_cases hnone : (y * w.book.shares user).tdiv w.book.totalShares = 0
    · rw [if_pos hnone, announce_nil]
      simp [hzero, hS, hnone, and_assoc]
    · rw [if_neg hnone]
      simp [hzero, hS, hnone, and_assoc]

/-- The holders are told one after the other. -/
theorem ok_attributions {y : Int} {users : List Address} (hS : w.book.totalShares ≠ 0) :
    (Tx.each (attributeYield y w.book.totalShares w.deployment.currentProtocol w.chain.timestamp)
        users).Ok env w () w' ↔
      (∀ user ∈ users, w.book.YieldFits y user) ∧
        w' = w.announce (users.flatMap (w.attribution y)) := by
  induction users generalizing w with
  | nil => simp
  | cons user users ih =>
    have hrest := ih (w := w.announce (w.attribution y user)) hS
    rw [announce_announce] at hrest
    rw [Tx.ok_each_cons, List.forall_mem_cons, List.flatMap_cons, and_assoc]
    constructor
    · rintro ⟨t, hfirst, hothers⟩
      obtain ⟨hfits, rfl⟩ := (ok_attributeYield hS).mp hfirst
      exact ⟨hfits, hrest.mp hothers⟩
    · rintro ⟨hfits, hothers⟩
      exact ⟨_, (ok_attributeYield hS).mpr ⟨hfits, rfl⟩, hrest.mpr hothers⟩

/-- Every holder's part of a yield can be computed within the type. -/
def World.Attributable (w : World) (y : Int) : Prop :=
  0 < y → w.book.totalShares ≠ 0 →
    ∀ user ∈ w.profiles.userSharesIndex, w.book.YieldFits y user

/-- What the holders are told of a yield. -/
def World.attributions (w : World) (y : Int) : List Event :=
  if 0 < y ∧ w.book.totalShares ≠ 0 then w.profiles.userSharesIndex.flatMap (w.attribution y)
  else []

theorem ok_emitYieldAttribution {y : Int} {u : Unit} :
    (emitYieldAttribution y).Ok env w u w' ↔
      w.Attributable y ∧ w' = w.announce (w.attributions y) := by
  simp only [emitYieldAttribution, Tx.ok_bind, Tx.ok_get, existsAndEq, true_and]
  unfold World.Attributable World.attributions
  by_cases hsome : 0 < y ∧ w.book.totalShares ≠ 0
  · rw [if_neg (by omega), if_pos hsome, ok_attributions hsome.2]
    simp [hsome.1, hsome.2]
  · rw [if_pos (by omega), if_neg hsome, announce_nil, Tx.ok_pure]
    constructor
    · rintro ⟨-, rfl⟩
      exact ⟨fun hy hS => absurd ⟨hy, hS⟩ hsome, rfl⟩
    · rintro ⟨-, rfl⟩
      exact ⟨rfl, rfl⟩

/-- The attribution of a report, which skips a yield that is not positive. -/
theorem ok_attribution {y : Int} {u : Unit} :
    (Tx.onlyIf (0 < y) (emitYieldAttribution y) : Contract Unit).Ok env w u w' ↔
      w.Attributable y ∧ w' = w.announce (w.attributions y) := by
  rw [Tx.ok_onlyIf, ok_emitYieldAttribution]
  by_cases hpos : 0 < y
  · simp [hpos]
  · have hnone : w.attributions y = [] := if_neg fun h => hpos h.1
    rw [hnone, announce_nil]
    simp [hpos, World.Attributable]

theorem quiet_attributeYield {y s : Int} {p : Protocol} {n : Nat} {user : Address} :
    Keeps quiet (attributeYield y s p n user) :=
  .bind (.bind .get fun _ => .pure _) fun _ => .ite (.pure _) <| .bind .expect fun _ =>
    .bind .expect fun _ => .onlyIf (quiet_publish rfl)

theorem quiet_emitYieldAttribution {y : Int} : Keeps quiet (emitYieldAttribution y) :=
  .bind .get fun _ => .ite (.pure _) (.each (fun _ => quiet_attributeYield) _)

/-- The stored owner has signed the call. -/
def World.OwnerSigned (w : World) (env : Env) : Prop :=
  ∃ owner, w.roles.owner = some owner ∧ owner ∈ env.auths

/-- A report of less was allowed, signed by the owner, and within the cap. -/
theorem requireDecreaseAllowed_ok {old new : Int} {allow : Bool} {bps : Nat} {u : Unit}
    (h : (requireDecreaseAllowed old new allow bps).Ok env w u w') :
    (allow = true ∧ old - new ≤ (old * (max bps 100 : Nat)).tdiv 10000 ∧ w.OwnerSigned env) ∧
      w' = w := by
  simp only [requireDecreaseAllowed, maxDecrease, Tx.ok_bind, Tx.ok_require, ok_requireIsOwner,
    ok_checkedMul, ok_checkedDiv, ok_checkedSub, existsAndEq, exists_const, and_assoc,
    true_and] at h
  obtain ⟨hallow, -, ⟨owner, howner, hsigned, -⟩, -, -, -, -, hle, rfl⟩ := h
  exact ⟨⟨hallow, hle, owner, howner, hsigned⟩, rfl⟩

/-- An accepted report is covered by what the contract can see and sets the total, nothing else. -/
theorem updateTotalAssets_ok {agent : Address} {new : Int} {allow : Bool} {bps : Nat} {u : Unit}
    (h : (updateTotalAssets agent new allow bps).Ok env w u w') :
    new ≤ w.visible ∧ Quiet { w with book := { w.book with totalAssets := some new } } w' ∧
      (new < w.book.assets → allow = true ∧
        w.book.assets - new ≤ (w.book.assets * (max bps 100 : Nat)).tdiv 10000 ∧
        w.OwnerSigned env) := by
  simp only [updateTotalAssets, ok_requireReporter, Tx.ok_bind, Tx.ok_get, ok_requireInitialized,
    Tx.ok_require, Tx.ok_onlyIf, ok_putBook, existsAndEq, exists_const, and_assoc, true_and] at h
  obtain ⟨-, -, -, -, -, _, t1, hdecrease, x, t2, hvisible, hle, _, t3, hyield, hpub⟩ := h
  have hdrop : (new < w.book.assets → allow = true ∧
      w.book.assets - new ≤ (w.book.assets * (max bps 100 : Nat)).tdiv 10000 ∧
      w.OwnerSigned env) ∧ t1 = w := by
    rcases hdecrease with ⟨-, hdecrease⟩ | ⟨hge, rfl⟩
    · obtain ⟨hallowed, rfl⟩ := requireDecreaseAllowed_ok hdecrease
      exact ⟨fun _ => hallowed, rfl⟩
    · exact ⟨fun hlt => absurd hlt hge, rfl⟩
  obtain ⟨hdrop, rfl⟩ := hdrop
  obtain ⟨rfl, rfl⟩ := totalAvailable_ok hvisible
  have h3 : Quiet { t2 with book := { t2.book with totalAssets := some new } } t3 := by
    rcases hyield with ⟨-, hyield⟩ | ⟨-, rfl⟩
    · exact quiet_emitYieldAttribution hyield
    · exact quiet.refl env _
  exact ⟨hle, quiet.trans (r := env) h3 (quiet_publish rfl hpub), hdrop⟩

/-- The world after a report of `new` that did not lower the total. -/
def World.reported (w : World) (new : Int) : World :=
  World.announce { w with book := { w.book with totalAssets := some new } }
    (w.attributions (i128.saturatingSub new w.book.assets) ++ [.assetsUpdated w.book.assets new])

/-- A report of no less than the stored total is accepted from a reporter exactly when the contract
    sees as much, and its sums and products are within the type. -/
theorem ok_updateTotalAssets {agent : Address} {new : Int} {allow : Bool} {bps : Nat} {u : Unit}
    (hi : w.Initialized) (hge : w.book.assets ≤ new) :
    (updateTotalAssets agent new allow bps).Ok env w u w' ↔
      (w.Accepts agent ∧ agent ∈ env.auths ∧ agent ≠ w.self) ∧
        (w.VisibleFits ∧ w.Attributable (i128.saturatingSub new w.book.assets)) ∧
        new ≤ w.visible ∧ w' = w.reported new := by
  obtain ⟨token, htoken⟩ := Option.isSome_iff_exists.mp hi.2.1
  have hskip : ∀ {x : Contract Unit} {t u t'}, (Tx.onlyIf (new < w.book.assets) x).Ok env t u t' ↔
      t' = t := by
    intro x t u t'
    rw [Tx.ok_onlyIf]
    simp [not_lt.mpr hge]
  simp only [updateTotalAssets, ok_requireReporter, Tx.ok_bind, Tx.ok_get, ok_requireInitialized,
    Tx.ok_require, ok_totalAvailable htoken, hskip, ok_attribution, ok_putBook,
    ok_publish_announce, existsAndEq, exists_const, and_assoc, true_and]
  unfold World.reported
  rw [← announce_announce]
  simp only [hi, hi.1, true_and]
  tauto

end NeuroWealth.Vault
