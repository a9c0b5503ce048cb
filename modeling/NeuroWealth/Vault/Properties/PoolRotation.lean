import NeuroWealth.Vault.Properties.AssetIsolation
import NeuroWealth.Vault.Properties.HarvestRoundTrip

/-!
# Rotating a pool

Every pool call goes to the configured address, so what the vault has in a pool that was replaced
stays there: the next rebalance does not leave the old pool, it only looks at the new one. It leaves
the old pool exactly when the venue points at it again and the rebalance exits the venue.
-/

namespace NeuroWealth.Vault

open Transaction MachineInt SharePool

variable {env : Env} {w w0 w1 w2 w' : World} {call : Call} {venue : Venue} {pool vault : Address}
  {x minOut apy : Int} {protocol marker : Protocol}

/-! ## Parked funds -/

/-- The vault has at least `x` in a pool its venue does not point at. -/
structure World.Parked (w : World) (venue : Venue) (pool vault : Address) (x : Int) : Prop where
  self : w.self = vault
  unconfigured : w.deployment.pool venue ≠ some pool
  position : x ≤ w.chain.positions venue pool vault

theorem World.Parked.of_chain (h : w.Parked venue pool vault x) (hself : w'.self = w.self)
    (hpool : w'.deployment.pool venue ≠ some pool)
    (hchain : w'.chain.positions = w.chain.positions) : w'.Parked venue pool vault x :=
  ⟨hself.trans h.self, hpool, hchain ▸ h.position⟩

/-- Legs go to configured pools: what is in any other pool stays there. -/
theorem FundsMove.elsewhere (hmove : FundsMove env w w')
    (hpool : w.deployment.pool venue ≠ some pool) :
    w'.chain.positions venue pool w.self = w.chain.positions venue pool w.self := by
  induction hmove with
  | settled hs => rw [hs.positions]
  | leg _ hleg => exact hleg.unconfigured venue pool hpool
  | trans h1 _ ih1 ih2 =>
    have hsecond := ih2 (by rwa [h1.poolStep.pool])
    rw [h1.poolStep.self] at hsecond
    exact hsecond.trans (ih1 hpool)

theorem FundsMove.parked (hmove : FundsMove env w w') (h : w.Parked venue pool vault x) :
    w'.Parked venue pool vault x := by
  have hsame := hmove.elsewhere h.unconfigured
  refine ⟨hmove.poolStep.self.trans h.self, ?_, ?_⟩
  · rw [hmove.poolStep.pool]
    exact h.unconfigured
  · rw [← h.self, hsame, h.self]
    exact h.position

theorem Paid.parked {token sender recipient : Address} {amount : Int}
    (hpaid : Paid token w w' sender recipient amount) (h : w.Parked venue pool vault x) :
    w'.Parked venue pool vault x := by
  apply h.of_chain hpaid.self
  · rw [hpaid.deployment]
    exact h.unconfigured
  · exact hpaid.positions

theorem Rebooked.parked {b : Book} (hbook : Rebooked w w' b) (h : w.Parked venue pool vault x) :
    w'.Parked venue pool vault x := by
  apply h.of_chain hbook.self
  · rw [hbook.deployment]
    exact h.unconfigured
  · rw [hbook.chain]

theorem Quiet.parked (hq : Quiet w w') (h : w.Parked venue pool vault x) :
    w'.Parked venue pool vault x := by
  apply h.of_chain hq.self
  · rw [hq.deployment]
    exact h.unconfigured
  · rw [hq.chain]

/-- The migration target lowers no position of the vault in the pool. -/
def Env.TargetSparesPool (env : Env) (venue : Venue) (pool vault : Address) : Prop :=
  ∀ chain target user amount chain', env.targetDeposit chain target user amount = some chain' →
    chain.positions venue pool vault ≤ chain'.positions venue pool vault

theorem parkedFrame (htarget : env.TargetSparesPool venue pool vault) :
    WideFrame env fun w w' => w.Parked venue pool vault x → w'.Parked venue pool vault x where
  trans h1 h2 h := h2 (h1 h)
  quiet hq h := hq.parked h
  moves hmove h := hmove.parked h
  accounting hacc h := by
    apply h.of_chain hacc.self
    · rw [hacc.deployment]
      exact h.unconfigured
    · rw [hacc.chain]
  locks _ _ h := ⟨h.self, h.unconfigured, h.position⟩
  paid hpaid h := hpaid.parked h
  rebooked hbook h := hbook.parked h
  target hcalled h := by
    obtain ⟨chain, hchain, hq⟩ := hcalled.frame
    have hspared := htarget _ _ _ _ _ hchain
    exact hq.parked ⟨h.self, h.unconfigured, h.position.trans hspared⟩

/-! ## Runs -/

/-- The step does not point the venue at the pool, and nothing else lowers the position there. -/
def Step.LeavesPool (venue : Venue) (pool vault : Address) (w : World) : Step → Prop
  | .call env call => (∀ owner, call ≠ .setVenuePool venue owner pool) ∧
      env.TargetSparesPool venue pool vault
  | .ambient chain =>
    w.chain.positions venue pool vault ≤ chain.positions venue pool vault

theorem Effect.parked (heffect : Effect env w w' call)
    (hstep : (Step.call env call).LeavesPool venue pool vault w)
    (h : w.Parked venue pool vault x) : w'.Parked venue pool vault x := by
  refine (parkedFrame hstep.2).effect ?_ heffect h
  rintro v owner p rfl h
  refine ⟨h.self, ?_, h.position⟩
  show (if venue = v then some p else w.deployment.pool venue) ≠ some pool
  split_ifs with hv
  · rintro ⟨rfl⟩
    exact hstep.1 owner (by rw [hv])
  · exact h.unconfigured

/-- One step of a run. -/
theorem parked_after (step : Step) (hi : w.Initialized)
    (hstep : step.LeavesPool venue pool vault w) (h : w.Parked venue pool vault x) :
    (w.after step).Parked venue pool vault x := by
  refine after_cases (P := fun t => t.Parked venue pool vault x) step hi h ?_ ?_
  · rintro env call w' rfl _ heffect
    exact heffect.parked (w := w.entered) hstep ⟨h.self, h.unconfigured, h.position⟩
  · rintro chain rfl
    exact ⟨h.self, h.unconfigured, h.position.trans hstep⟩

/-! ## Rebalances through honest pools -/

/-- A full exit from the protocol takes the venue's position. -/
def Protocol.Exits (marker : Protocol) (venue : Venue) : Prop :=
  marker = venue.protocol ∨ marker = .multi

instance (marker : Protocol) (venue : Venue) : Decidable (marker.Exits venue) :=
  inferInstanceAs (Decidable (_ ∨ _))

/-- The vault's funds are not negative. -/
structure World.Holding (w : World) : Prop where
  idle : 0 ≤ w.idle
  position : ∀ v, 0 ≤ w.position v

/-- Funds changed places within the vault's reach, and the book did not change. -/
structure Reshuffled (w w' : World) : Prop where
  holding : w'.Holding
  backing : w'.backing = w.backing
  book : w'.book = w.book

theorem World.Holding.reshuffled (h : w.Holding) : Reshuffled w w := ⟨h, rfl, rfl⟩

theorem Reshuffled.trans {t : World} (h1 : Reshuffled w t) (h2 : Reshuffled t w') :
    Reshuffled w w' :=
  ⟨h2.holding, h2.backing.trans h1.backing, h2.book.trans h1.book⟩

/-- One venue's position and the idle balance change against each other. -/
theorem reshuffled_of_leg (hidle : 0 ≤ w'.idle) (hposition : 0 ≤ w'.position venue)
    (hsum : w'.idle + w'.position venue = w.idle + w.position venue)
    (hothers : ∀ v, v ≠ venue → w'.position v = w.position v) (hbook : w'.book = w.book)
    (h : w.Holding) : Reshuffled w w' := by
  refine ⟨⟨hidle, fun v => ?_⟩, ?_, hbook⟩
  · by_cases hv : v = venue
    · rw [hv]
      exact hposition
    · rw [hothers v hv]
      exact h.position v
  · unfold World.backing
    cases venue with
    | blend =>
      have hdex := hothers .dex (by decide)
      omega
    | dex =>
      have hblend := hothers .blend (by decide)
      omega

theorem Settled.reshuffled (hs : Settled w w') (h : w.Holding) : Reshuffled w w' := by
  refine ⟨⟨?_, fun v => ?_⟩, ?_, hs.book⟩
  · rw [hs.idle]
    exact h.idle
  · rw [hs.position]
    exact h.position v
  · unfold World.backing
    rw [hs.idle, hs.position, hs.position]

/-- A full withdrawal empties the venue into the balance. -/
theorem withdrawAll_reshuffles (hpools : env.HonestPools) (h : w.Holding)
    (hrun : (withdrawFromVenue venue 0 minOut).Ok env w x w') :
    Reshuffled w w' ∧ w'.position venue = 0 ∧ ∀ v, v ≠ venue → w'.position v = w.position v := by
  have hheld := h.position venue
  have hidle := h.idle
  rcases withdrawAll_of_honest hpools hrun with ⟨hnone, -, rfl⟩ |
    ⟨hpos, -, hmoved, hgone, hothers, hbook⟩
  · exact ⟨h.reshuffled, by omega, fun _ _ => rfl⟩
  · refine ⟨?_, hgone, hothers⟩
    exact reshuffled_of_leg (by omega) hgone.ge (by omega) hothers hbook h

/-- What a full exit from a protocol leaves. -/
structure Exited (marker : Protocol) (w w' : World) : Prop extends Reshuffled w w' where
  left : ∀ v, marker.Exits v → w'.position v = 0
  kept : ∀ v, ¬ marker.Exits v → w'.position v = w.position v

theorem Venue.exits_iff {v : Venue} : venue.protocol.Exits v ↔ v = venue := by
  cases venue <;> cases v <;> decide

theorem Exited.of_settled {t : World} (h : Exited marker w t) (hs : Settled t w') :
    Exited marker w w' where
  toReshuffled := h.toReshuffled.trans (hs.reshuffled h.holding)
  left v hv := hs.position.trans (h.left v hv)
  kept v hv := hs.position.trans (h.kept v hv)

/-- The exit from the marked protocol. -/
theorem withdrawFromProtocol_exited (hpools : env.HonestPools) (h : w.Holding)
    (hmark : w.deployment.currentProtocol = marker)
    (hrun : (withdrawFromProtocol marker minOut).Ok env w x w') : Exited marker w w' := by
  rcases withdrawFromProtocol_cases hrun with ⟨rfl, hinactive⟩ | ⟨v, rfl, -, hexit⟩ |
    ⟨rfl, -, b, d, t1, t2, t3, after, hblend, hdex, hsync, hset⟩
  · -- neither a venue nor both: nothing is withdrawn
    have hnone : ∀ v, ¬ marker.Exits v := by
      rintro v (rfl | rfl)
      · cases v <;> cases hinactive hmark
      · cases hinactive hmark
    exact ⟨h.reshuffled, fun v hv => absurd hv (hnone v), fun _ _ => rfl⟩
  · obtain ⟨hmoved, hgone, hothers⟩ := withdrawAll_reshuffles hpools h hexit
    refine ⟨hmoved, fun u hu => ?_, fun u hu => ?_⟩
    · rw [Venue.exits_iff.mp hu]
      exact hgone
    · exact hothers u fun hsame => hu (Venue.exits_iff.mpr hsame)
  · obtain ⟨hmoved1, hgone1, -⟩ := withdrawAll_reshuffles hpools h hblend
    obtain ⟨hmoved2, hgone2, hothers⟩ := withdrawAll_reshuffles hpools hmoved1.holding hdex
    have hboth : Exited .multi w t2 := by
      refine ⟨hmoved1.trans hmoved2, fun v _ => ?_, fun v hv => absurd (.inr rfl) hv⟩
      cases v with
      | blend => exact (hothers .blend (by decide)).trans hgone1
      | dex => exact hgone2
    apply hboth.of_settled
    exact settled.trans (r := env) (syncDeployedSplit_ok hsync).1 (setCurrentProtocol_ok hset).1

/-- With honest pools an exit is never abandoned. -/
theorem exitProtocol_exited (hpools : env.HonestPools) (h : w.Holding) {a : RebalanceAmounts}
    {r : Option RebalanceAmounts} (hmark : w.deployment.currentProtocol = marker)
    (hrun : (exitProtocol marker minOut a).Ok env w r w') : r ≠ none ∧ Exited marker w w' := by
  obtain ⟨t, x, hexit, hq, hnone, -⟩ := exitProtocol_steps hrun
  have ht := withdrawFromProtocol_exited hpools h hmark hexit
  refine ⟨fun hr => ?_, ht.of_settled hq.settled⟩
  have hleft := (hnone.mp hr).2
  rcases Protocol.cases_marker marker with rfl | ⟨v, rfl⟩ | rfl | ⟨s, rfl⟩
  · cases hleft
  · rw [protocolBalance_venue, ht.left v (.inl rfl)] at hleft
    cases hleft
  · have hzero : t.protocolBalance .multi = i128.saturatingAdd 0 0 := by
      show i128.saturatingAdd (t.position .blend) (t.position .dex) = _
      rw [ht.left .blend (.inr rfl), ht.left .dex (.inr rfl)]
    rw [hzero] at hleft
    exact absurd hleft (by decide)
  · cases hleft

/-- An exit that finds nothing moves nothing. -/
theorem exitProtocol_empty {a : RebalanceAmounts} {r : Option RebalanceAmounts}
    (hempty : ∀ v, marker.Exits v → w.position v = 0)
    (hrun : (exitProtocol marker minOut a).Ok env w r w') : Settled w w' := by
  obtain ⟨t, y, hexit, hq, -, -⟩ := exitProtocol_steps hrun
  apply settled.trans (r := env) _ hq.settled
  rcases withdrawFromProtocol_cases hexit with ⟨rfl, -⟩ | ⟨v, rfl, -, hvenue⟩ | ⟨rfl, -⟩
  · exact settled.refl env _
  · rw [withdrawFromVenue_empty (hempty v (.inl rfl)) hvenue]
    exact settled.refl env _
  · exact withdrawFromProtocol_undeployed (fun v => hempty v (.inr rfl)) hexit

/-- The whole balance goes to the target venue. -/
theorem supplyIdle_reshuffles (hpools : env.HonestPools) (h : w.Holding) {a : RebalanceAmounts}
    {r : Status × RebalanceAmounts} (hrun : (supplyIdle venue minOut a).Ok env w r w') :
    Reshuffled w w' ∧ w'.position venue = w.position venue + w.idle ∧
      ∀ v, v ≠ venue → w'.position v = w.position v := by
  have hheld := h.position venue
  have hidle := h.idle
  simp only [supplyIdle, Tx.ok_bind, ok_getPool, ok_getUsdcToken, ok_vaultBalance, existsAndEq,
    and_assoc, true_and] at hrun
  obtain ⟨pool, -, token, htoken, hrun⟩ := hrun
  rw [← idle_eq htoken] at hrun
  rcases Tx.ok_ite.mp hrun with ⟨hpos, hsome⟩ | ⟨hnone, hrest⟩
  · obtain ⟨s, t, hsupply, hdone⟩ := Tx.ok_bind.mp hsome
    obtain ⟨-, rfl⟩ := Tx.ok_pure.mp hdone
    obtain ⟨-, hspent, hgained, hothers, hbook⟩ := supply_of_honest hpools hpos hheld hsupply
    exact ⟨reshuffled_of_leg (by omega) (by omega) (by omega) hothers hbook h, hgained, hothers⟩
  · have hs : Settled w w' := by
      rcases Tx.ok_ite.mp hrest with ⟨-, hset⟩ | ⟨-, hdone⟩
      · obtain ⟨_, t, hmarked, hdone⟩ := Tx.ok_bind.mp hset
        obtain ⟨-, rfl⟩ := Tx.ok_pure.mp hdone
        exact (setCurrentProtocol_ok hmarked).1
      · obtain ⟨-, rfl⟩ := Tx.ok_pure.mp hdone
        exact settled.refl env _
    refine ⟨hs.reshuffled h, ?_, fun _ _ => hs.position⟩
    rw [hs.position]
    omega

/-- What deploying to a protocol does: its venue gains the balance, the others stay. -/
structure Entered (protocol : Protocol) (w w' : World) : Prop extends Reshuffled w w' where
  kept : ∀ v, v.protocol ≠ protocol → w'.position v = w.position v
  gained : ∀ v, v.protocol = protocol → w'.position v = w.position v + w.idle

theorem rebalanceToVenue_entered (hpools : env.HonestPools) (h : w.Holding) {a : RebalanceAmounts}
    {u : Unit} (hrun : (rebalanceToVenue venue apy minOut a).Ok env w u w') :
    Entered venue.protocol w w' := by
  obtain ⟨r, t, hsupply, hfinish⟩ := Tx.ok_bind.mp hrun
  obtain ⟨hmoved, hgained, hothers⟩ := supplyIdle_reshuffles hpools h hsupply
  have hs := settled_finishRebalance hfinish
  refine ⟨hmoved.trans (hs.reshuffled hmoved.holding), fun v hv => ?_, fun v hv => ?_⟩
  · rw [hs.position]
    exact hothers v fun hsame => hv (by rw [hsame])
  · have hsame : v = venue := Venue.exits_iff.mp (.inl hv.symm)
    rw [hs.position, hsame]
    exact hgained

theorem rebalanceToNone_settled {a : RebalanceAmounts} {u : Unit}
    (hempty : ∀ v, marker.Exits v → w.position v = 0)
    (hrun : (rebalanceToNone marker apy minOut a).Ok env w u w') : Settled w w' := by
  rcases Tx.ok_ite.mp hrun with ⟨-, hactive⟩ | ⟨-, hfinish⟩
  · obtain ⟨r, t, hexit, hrest⟩ := Tx.ok_bind.mp hactive
    have hs := exitProtocol_empty hempty hexit
    cases r with
    | none =>
      obtain ⟨-, rfl⟩ := Tx.ok_pure.mp hrest
      exact hs
    | some a' =>
      obtain ⟨_, t', hset, hfinish⟩ := Tx.ok_bind.mp hrest
      exact settled.trans (r := env) (settled.trans (r := env) hs (setCurrentProtocol_ok hset).1)
        (settled_finishRebalance hfinish)
  · exact settled_finishRebalance hfinish

theorem enterProtocol_entered (hpools : env.HonestPools) (h : w.Holding) {a : RebalanceAmounts}
    {u : Unit} (hp : protocol.isSupported = true)
    (hempty : ∀ v, v.protocol ≠ protocol → marker.Exits v → w.position v = 0)
    (hrun : (enterProtocol protocol marker apy minOut a).Ok env w u w') :
    Entered protocol w w' := by
  rcases Protocol.eq_venue_of_isSupported hp with rfl | ⟨v, rfl⟩
  · have hnot : ∀ v : Venue, v.protocol ≠ .none := fun v => by cases v <;> decide
    have hs : Settled w w' := rebalanceToNone_settled (fun v => hempty v (hnot v)) hrun
    exact ⟨hs.reshuffled h, fun v _ => hs.position, fun v hv => absurd hv (hnot v)⟩
  · cases v with
    | blend => exact rebalanceToVenue_entered hpools h hrun
    | dex => exact rebalanceToVenue_entered hpools h hrun

/-- What a rebalance does to the positions: a venue that is not the target is left if the marker
    says so, and the target loses nothing. -/
structure Rebalanced (protocol : Protocol) (w w' : World) : Prop extends Reshuffled w w' where
  left : ∀ v, v.protocol ≠ protocol → w.deployment.currentProtocol.Exits v → w'.position v = 0
  kept : ∀ v, v.protocol ≠ protocol → ¬ w.deployment.currentProtocol.Exits v →
    w'.position v = w.position v
  target : ∀ v, v.protocol = protocol → w.position v ≤ w'.position v

theorem rebalance_rebalanced (hpools : env.HonestPools) (h : w.Holding) {u : Unit}
    (hrun : (rebalance protocol apy minOut).Ok env w u w') : Rebalanced protocol w w' := by
  obtain ⟨t, -, -, hrate, hp, hcases⟩ := rebalance_parts hrun
  have hq : Quiet w t := quiet_enforceRateLimit hrate
  have hsame := hq.settled.reshuffled h
  have hposition : ∀ v, t.position v = w.position v := fun v => hq.settled.position
  have hmark : t.deployment.currentProtocol = w.deployment.currentProtocol := by
    rw [hq.deployment]
  have hmulti : protocol ≠ .multi := by
    rintro rfl
    cases hp
  rw [hmark] at hcases
  rcases hcases with ⟨hstays, henter⟩ | ⟨hother, -, r, t1, hexit, hrest⟩
  · -- the marker names the target, or nothing: no venue other than the target is left
    have hnone : ∀ v : Venue, v.protocol ≠ protocol → ¬ w.deployment.currentProtocol.Exits v := by
      intro v hv hexits
      rcases hstays with hstays | hstays <;> rw [hstays] at hexits
      · rcases hexits with hvenue | hmulti'
        · exact hv hvenue.symm
        · exact hmulti hmulti'
      · rcases hexits with hvenue | hmulti'
        · cases v <;> cases hvenue
        · cases hmulti'
    have hent := enterProtocol_entered hpools hsame.holding hp
      (fun v hv hexits => absurd hexits (hnone v hv)) henter
    refine ⟨hsame.trans hent.toReshuffled, fun v hv hexits => absurd hexits (hnone v hv),
      fun v hv _ => (hent.kept v hv).trans (hposition v), fun v hv => ?_⟩
    have hidle := hsame.holding.idle
    rw [hent.gained v hv, hposition]
    omega
  · obtain ⟨hsome, hexited⟩ := exitProtocol_exited hpools hsame.holding hmark hexit
    obtain ⟨a, rfl⟩ := Option.ne_none_iff_exists'.mp hsome
    have hent := enterProtocol_entered hpools hexited.holding hp
      (fun v _ hexits => hexited.left v hexits) hrest
    refine ⟨(hsame.trans hexited.toReshuffled).trans hent.toReshuffled, fun v hv hexits => ?_,
      fun v hv hexits => ?_, fun v hv => ?_⟩
    · rw [hent.kept v hv]
      exact hexited.left v hexits
    · rw [hent.kept v hv, hexited.kept v hexits]
      exact hposition v
    · have hidle := hexited.holding.idle
      rw [hent.gained v hv, ← hposition]
      by_cases hexits : w.deployment.currentProtocol.Exits v
      · -- both venues were left: what this one had is part of the balance
        have hbacking := hexited.backing
        have hboth : ∀ v', t1.position v' = 0 := by
          rcases hexits with hvenue | hmulti'
          · exact absurd (hvenue.trans hv) hother
          · exact fun v' => hexited.left v' (.inr hmulti')
        have hblend := hsame.holding.position .blend
        have hdex := hsame.holding.position .dex
        have htidle := hsame.holding.idle
        unfold World.backing at hbacking
        rw [hboth .blend, hboth .dex] at hbacking
        rw [hboth v]
        cases v with
        | blend => omega
        | dex => omega
      · rw [hexited.kept v hexits]
        omega

/-! ## The next rebalance -/

/-- What the vault has in a pool that its venue does not point at. -/
def World.beyond (w : World) (venue : Venue) (pool : Address) : Int :=
  if w.deployment.pool venue = some pool then 0 else w.chain.positions venue pool w.self

/-- The rebalance has left the pool: what the vault had there is in its balance or in the target,
    and what the vault can reach covers the total. -/
structure PoolLeft (venue : Venue) (pool : Address) (protocol : Protocol) (w w' : World) :
    Prop where
  emptied : w'.chain.positions venue pool w.self = 0
  recovered : w'.backing = w.backing + w.beyond venue pool
  targeted : ∀ v, v.protocol ≠ protocol → w'.position v ≤ w.position v
  covered : w'.book.assets ≤ w'.backing

/-- A rebalance to the protocol exits the pool: the venue points at it, the marker says that the
    venue is deployed to, and the target is another one. -/
structure World.Leaves (w : World) (venue : Venue) (pool : Address) (protocol : Protocol) :
    Prop where
  pointed : w.deployment.pool venue = some pool
  deployed : w.deployment.currentProtocol.Exits venue
  elsewhere : venue.protocol ≠ protocol

/-- A rebalance through honest pools leaves a pool that holds something exactly when it exits it and
    the total was covered before. -/
theorem poolLeft_iff (hpools : env.HonestPools) (h : w.Holding) {u : Unit}
    (hrun : (rebalance protocol apy minOut).Ok env w u w')
    (hheld : 0 < w.chain.positions venue pool w.self) :
    PoolLeft venue pool protocol w w' ↔
      w.Leaves venue pool protocol ∧ w.book.assets ≤ w.backing := by
  have hreb := rebalance_rebalanced hpools h hrun
  have hmove := movesFunds_rebalance hrun
  have hprice : w'.book.assets = w.book.assets := by rw [hreb.book]
  constructor
  · intro hleft
    have hpointed : w.deployment.pool venue = some pool := by
      by_contra hpool
      have hsame := hmove.elsewhere hpool
      have hgone := hleft.emptied
      omega
    have hposition : w.position venue = w.chain.positions venue pool w.self := position_eq hpointed
    have hposition' : w'.position venue = w'.chain.positions venue pool w.self := by
      have hpointed' : w'.deployment.pool venue = some pool := by
        rw [hmove.poolStep.pool, hpointed]
      rw [position_eq hpointed', hmove.poolStep.self]
    have hgone := hleft.emptied
    have helsewhere : venue.protocol ≠ protocol := by
      intro hsame
      have hkept := hreb.target venue hsame
      omega
    refine ⟨⟨hpointed, ?_, helsewhere⟩, ?_⟩
    · by_contra hexits
      have hkept := hreb.kept venue helsewhere hexits
      omega
    · rw [← hprice, ← hreb.backing]
      exact hleft.covered
  · rintro ⟨⟨hpointed, hdeployed, helsewhere⟩, hcovered⟩
    have hpointed' : w'.deployment.pool venue = some pool := by
      rw [hmove.poolStep.pool, hpointed]
    refine ⟨?_, ?_, fun v hv => ?_, ?_⟩
    · rw [← hmove.poolStep.self, ← position_eq hpointed']
      exact hreb.left venue helsewhere hdeployed
    · rw [hreb.backing, World.beyond, if_pos hpointed, add_zero]
    · by_cases hexits : w.deployment.currentProtocol.Exits v
      · rw [hreb.left v hv hexits]
        exact h.position v
      · exact (hreb.kept v hv hexits).le
    · rw [hprice, hreb.backing]
      exact hcovered

/-- Nothing is left to exit: a rebalance that does not deploy to the pool keeps it empty. -/
theorem poolLeft_of_empty (hpools : env.HonestPools) (h : w.Holding) {u : Unit}
    (hrun : (rebalance protocol apy minOut).Ok env w u w')
    (hempty : w.chain.positions venue pool w.self = 0)
    (htarget : w.deployment.pool venue = some pool → venue.protocol ≠ protocol) :
    PoolLeft venue pool protocol w w' ↔ w.book.assets ≤ w.backing := by
  have hreb := rebalance_rebalanced hpools h hrun
  have hmove := movesFunds_rebalance hrun
  have hprice : w'.book.assets = w.book.assets := by rw [hreb.book]
  constructor
  · intro hleft
    rw [← hprice, ← hreb.backing]
    exact hleft.covered
  · intro hcovered
    refine ⟨?_, ?_, fun v hv => ?_, ?_⟩
    · by_cases hpool : w.deployment.pool venue = some pool
      · have hpool' : w'.deployment.pool venue = some pool := by
          rw [hmove.poolStep.pool, hpool]
        rw [← hmove.poolStep.self, ← position_eq hpool']
        by_cases hexits : w.deployment.currentProtocol.Exits venue
        · exact hreb.left venue (htarget hpool) hexits
        · rw [hreb.kept venue (htarget hpool) hexits, position_eq hpool]
          exact hempty
      · rw [hmove.elsewhere hpool]
        exact hempty
    · have hbeyond : w.beyond venue pool = 0 := by
        unfold World.beyond
        split_ifs
        · rfl
        · exact hempty
      rw [hreb.backing, hbeyond, add_zero]
    · by_cases hexits : w.deployment.currentProtocol.Exits v
      · rw [hreb.left v hv hexits]
        exact h.position v
      · exact (hreb.kept v hv hexits).le
    · rw [hprice, hreb.backing]
      exact hcovered

/-- In a reachable state the venue was pointed away from a pool in which the vault had a position,
    and it was not pointed back since. -/
def World.RotatedAway (w : World) (venue : Venue) (pool : Address) : Prop :=
  ∃ (w0 t w1 : World) (env : Env) (owner pool' : Address), w0.Opened ∧
    Reaches (fun _ _ => True) w0 t ∧ t.deployment.pool venue = some pool ∧ 0 < t.position venue ∧
    pool' ≠ pool ∧ (invoke (.setVenuePool venue owner pool')).Ok env t () w1 ∧
    Reaches (fun u step => step.LeavesPool venue pool t.self u) w1 w

/-- All that was in the old pool is still there, whatever happened since the rotation. -/
theorem World.RotatedAway.parked (h : w.RotatedAway venue pool) :
    ∃ x, 0 < x ∧ w.Parked venue pool w.self x := by
  obtain ⟨w0, t, w1, env1, owner, pool', h0, ht, hpool, hpos, hne, hrotate, hrun⟩ := h
  have hi : t.Initialized := (stored_of_reaches h0 ht).2
  have hq := setVenuePool_ok (ok_invoke.mp hrotate)
  have hparked : w1.Parked venue pool t.self (t.position venue) := by
    apply hq.parked
    refine ⟨rfl, ?_, (position_eq hpool).le⟩
    show (if venue = venue then some pool' else _) ≠ some pool
    rw [if_pos rfl]
    intro hsame
    exact hne (Option.some.inj hsame)
  have hi1 : w1.Initialized := (effect_of_invoke hi hrotate).anchored.initialized hi
  obtain ⟨hkept, -⟩ := hrun.keeps (P := fun u => u.Parked venue pool t.self (t.position venue))
    hi1 hparked fun u step hstep hi h => parked_after step hi hstep h
  exact ⟨t.position venue, hpos, ⟨rfl, hkept.unconfigured, hkept.self ▸ hkept.position⟩⟩

/-- A rebalance leaves a pool in which the vault has funds exactly when the venue points at it, the
    marker says so, the target is another one, and the total is covered. An empty pool it leaves
    whenever the total is covered. After a rotation that was not undone it never leaves the pool. -/
theorem rotation_exits_iff {u : Unit} (hpools : env.HonestPools) (hheld : w.Holding)
    (hrebalance : (invoke (.rebalance protocol apy minOut)).Ok env w u w') :
    (0 < w.chain.positions venue pool w.self →
      (PoolLeft venue pool protocol w w' ↔
        w.Leaves venue pool protocol ∧ w.book.assets ≤ w.backing)) ∧
    (w.chain.positions venue pool w.self = 0 →
      (w.deployment.pool venue = some pool → venue.protocol ≠ protocol) →
      (PoolLeft venue pool protocol w w' ↔ w.book.assets ≤ w.backing)) ∧
    (w.RotatedAway venue pool → ¬ PoolLeft venue pool protocol w w') := by
  have hentered : w.entered.Holding := ⟨hheld.idle, hheld.position⟩
  have hcall := ok_invoke.mp hrebalance
  have hsame : PoolLeft venue pool protocol w.entered w' ↔ PoolLeft venue pool protocol w w' :=
    ⟨fun h => ⟨h.emptied, h.recovered, h.targeted, h.covered⟩,
      fun h => ⟨h.emptied, h.recovered, h.targeted, h.covered⟩⟩
  have hleaves : w.entered.Leaves venue pool protocol ↔ w.Leaves venue pool protocol :=
    ⟨fun h => ⟨h.pointed, h.deployed, h.elsewhere⟩, fun h => ⟨h.pointed, h.deployed, h.elsewhere⟩⟩
  have hexits : 0 < w.chain.positions venue pool w.self →
      (PoolLeft venue pool protocol w w' ↔
        w.Leaves venue pool protocol ∧ w.book.assets ≤ w.backing) := by
    intro hstill
    have hiff := poolLeft_iff hpools hentered hcall hstill
    rw [hsame, hleaves] at hiff
    exact hiff
  refine ⟨hexits, fun hempty htarget => ?_, fun hrotated hleft => ?_⟩
  · have hiff := poolLeft_of_empty hpools hentered hcall hempty htarget
    rw [hsame] at hiff
    exact hiff
  · obtain ⟨x, hpos, hparked⟩ := hrotated.parked
    have hstill := hpos.trans_le hparked.position
    exact hparked.unconfigured ((hexits hstill).mp hleft).1.pointed

namespace Sample

/-- The pool that replaces the first one. -/
def nextPool : Address := ⟨9⟩

/-- Alice's five USDC are deployed to the Blend pool. -/
def deployed : List Step :=
  [.call honest (.deposit alice 5000000), .call honest (.setVenuePool .blend owner blendPool),
    .call honest (.rebalance .blend 0 0)]

/-- The Blend venue is pointed at another pool. -/
def rotated : List Step := deployed ++ [.call honest (.setVenuePool .blend owner nextPool)]

/-- The Blend venue is pointed back at the first pool. -/
def pointedBack : List Step := rotated ++ [.call honest (.setVenuePool .blend owner blendPool)]

theorem pointedBack_left :
    PoolLeft .blend blendPool .none (opened.replay pointedBack)
      ((opened.replay pointedBack).after (.call tame (.rebalance .none 0 0))) := by
  have hrebalance : (invoke (.rebalance .none 0 0)).Ok tame (opened.replay pointedBack) ()
      ((opened.replay pointedBack).after (.call tame (.rebalance .none 0 0))) :=
    ok_after (by decide +kernel)
  have hheld : (opened.replay pointedBack).Holding :=
    ⟨by decide +kernel, fun v => by cases v <;> decide +kernel⟩
  have hleaves : (opened.replay pointedBack).Leaves .blend blendPool .none :=
    ⟨by decide +kernel, by decide +kernel, by decide⟩
  exact ((rotation_exits_iff tame_honestPools hheld hrebalance).1 (by decide +kernel)).mpr
    ⟨hleaves, by decide +kernel⟩

/-- The completed rebalance leaves five USDC in the old pool and none in reach, though the books
    still count five and the pools honour every withdrawal. -/
theorem rotation_not_exited :
    opened.Opened ∧ Reaches (fun _ _ => True) opened (opened.replay deployed) ∧
      (opened.replay deployed).deployment.pool .blend = some blendPool ∧
      (opened.replay deployed).position .blend = 5000000 ∧
      (invoke (.setVenuePool .blend owner nextPool)).Ok honest (opened.replay deployed) ()
        (opened.replay rotated) ∧
      tame.HonestPools ∧
      (invoke (.rebalance .none 0 0)).Ok tame (opened.replay rotated) ()
        ((opened.replay rotated).after (.call tame (.rebalance .none 0 0))) ∧
      ((opened.replay rotated).after (.call tame (.rebalance .none 0 0))).chain.positions .blend
        blendPool Sample.vault = 5000000 ∧
      ((opened.replay rotated).after (.call tame (.rebalance .none 0 0))).backing = 0 ∧
      ((opened.replay rotated).after (.call tame (.rebalance .none 0 0))).book.assets =
        5000000 :=
  ⟨opened_opened, .of_admits ⟨trivial, trivial, trivial, trivial⟩, by decide +kernel,
    by decide +kernel, ok_after (by decide +kernel), tame_honestPools, ok_after (by decide +kernel),
    by decide +kernel, by decide +kernel, by decide +kernel⟩

end Sample

end NeuroWealth.Vault
