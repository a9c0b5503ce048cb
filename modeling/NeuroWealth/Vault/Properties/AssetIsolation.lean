import NeuroWealth.Vault.Proofs.BookProofs

/-!
# Isolation of the asset pools

An asset call changes no share of the USDC pool, but it moves the total that prices them. The
claims stay as they are exactly when rounding hides the change.
-/

namespace NeuroWealth.Vault

open Transaction MachineInt SharePool

variable {env : Env} {w w0 w' : World} {user : Address} {asset : Symbol} {amount : Int}

/-! ## The total is always stored -/

theorem BatchRun.stored {agent : Address} (h : BatchRun agent w w')
    (hb : w.book.totalAssets.isSome = true) : w'.book.totalAssets.isSome = true := by
  induction h with
  | quiet h => rwa [h.book]
  | deposited h =>
    obtain ⟨token, t, -, -, hcredit⟩ := h.steps
    rw [hcredit.book]
    rfl
  | returned _ _ h1 h2 => rwa [h2.book, h1.book]
  | trans _ _ ih1 ih2 => exact ih2 (ih1 hb)

/-- No call removes the stored total. -/
theorem Effect.stored {call : Call} (h : Effect env w w' call)
    (hb : w.book.totalAssets.isSome = true) : w'.book.totalAssets.isSome = true := by
  cases h with
  | quiet _ h => rwa [h.book]
  | deposit _ h _ =>
    obtain ⟨token, t, -, -, hcredit⟩ := h.steps
    rw [hcredit.book]
    rfl
  | batchDeposit h => exact h.stored hb
  | withdraw h =>
    rw [h.terms.2]
    rfl
  | withdrawAll h =>
    rw [h.terms.2]
    rfl
  | emergencyWithdraw h =>
    rw [h.terms.2]
    rfl
  | migrateShares h =>
    rw [h.book]
    rfl
  | depositAsset _ _ _ _ h =>
    rw [h.book]
    rfl
  | withdrawAsset _ h =>
    rw [h.book]
    rfl
  | lockShares _ _ _ _ h => rwa [h.book]
  | unlockShares _ _ _ h => rwa [h.book]
  | funds _ h => rwa [h.poolStep.book]
  | updateTotalAssets _ h =>
    rw [h.book]
    rfl
  | setVenuePool h => rwa [h.book]
  | setMinHoldingPeriod h => rwa [h.book]
  | assets _ h => rwa [h.book]

theorem stored_of_reaches (h0 : w0.Opened) (h : Reaches (fun _ _ => True) w0 w) :
    w.book.totalAssets = some w.book.assets ∧ w.Initialized := by
  have hfresh : w0.book.totalAssets.isSome = true := by
    rw [h0.fresh.book]
    rfl
  have hstep : ∀ (t : World) (step : Step), True → t.Initialized →
      t.book.totalAssets.isSome = true → (t.after step).book.totalAssets.isSome = true := by
    intro t step _ hi hb
    refine after_cases (P := fun t => t.book.totalAssets.isSome = true) step hi hb ?_ ?_
    · intro env call w' _ _ heffect
      exact heffect.stored hb
    · intro chain _
      exact hb
  obtain ⟨hsome, hi⟩ := h.invariant h0 hfresh hstep
  obtain ⟨A, hA⟩ := Option.isSome_iff_exists.mp hsome
  refine ⟨?_, hi⟩
  unfold Book.assets
  rw [hA]
  rfl

/-! ## Asset calls -/

def Call.isAssetCall : Call → Bool
  | .depositAsset .. => true
  | .withdrawAsset .. => true
  | _ => false

theorem kind_of_isAssetCall {call : Call} (h : call.isAssetCall = true) :
    call.isConfiguration = false ∧ call.movesFunds = false ∧ call.administersAssets = false := by
  cases call
  case depositAsset => exact ⟨rfl, rfl, rfl⟩
  case withdrawAsset => exact ⟨rfl, rfl, rfl⟩
  all_goals exact Bool.noConfusion h

/-- What `withdraw_asset` pays of the owed amount, given the pools' answers. -/
def World.assetPayout (w : World) (env : Env) (token : Address) (owed : Int) : Int :=
  let held := w.chain.balances token w.self
  if w.PullsFor token owed then
    min owed (held + if w.usdcToken = some token then w.delivery env (owed - held) else 0)
  else owed

/-- What an asset call adds to the total of the USDC pool: the amount, short of an overflow, or
    minus the payout, short of going below zero. -/
def World.assetChange (w : World) (env : Env) : Call → Int
  | .depositAsset _ _ amount => i128.saturatingAdd w.book.assets amount - w.book.assets
  | .withdrawAsset _ asset amount =>
    match w.assets.config asset with
    | some config =>
      max (i128.saturatingSub w.book.assets
        (w.assetPayout env config.tokenAddress (w.assetsOwed asset amount))) 0 - w.book.assets
    | none => 0
  | _ => 0

theorem AssetPayout.actual_eq {token : Address} {owed actual : Int} (hlegs : w.legs = 0)
    (h : AssetPayout env w w' user token owed actual) :
    actual = w.assetPayout env token owed := by
  obtain ⟨t0, t1, t2, hq, hsource, -, -⟩ := h.steps
  have hpulls : t0.PullsFor token owed ↔ w.PullsFor token owed := by
    unfold World.PullsFor
    rw [hq.deployment, hq.chain, hq.self]
  unfold World.assetPayout
  rcases hsource with ⟨hno, rfl, -⟩ | ⟨hyes, hpulled, rfl⟩
  · rw [if_neg (hpulls.not.mp hno)]
  · simp only [if_pos (hpulls.mp hyes)]
    congr 1
    by_cases htoken : w.usdcToken = some token
    · have htoken0 : t0.usdcToken = some token := hq.usdcToken.trans htoken
      have htoken1 : t1.usdcToken = some token :=
        (Pulled.poolStep (.inr ⟨_, hpulled⟩)).usdcToken.trans htoken0
      have hdelivery := hpulled.delivery (hq.legs.trans hlegs)
      have hsame : ∀ x, t0.delivery env x = w.delivery env x := fun x => by
        unfold World.delivery World.answer World.proportionalLegs
        simp only [hq.deployment, hq.settled.position]
      rw [if_pos htoken, ← idle_eq htoken1, hdelivery, hsame, idle_eq htoken0, hq.chain, hq.self]
    · have hfunds : FundsMove env t0 t1 := Pulled.fundsMove (.inr ⟨_, hpulled⟩)
      rw [if_neg htoken, add_zero, hfunds.otherTokens (hq.usdcToken ▸ htoken), hq.chain, hq.self]

/-- An asset call revalues the pool behind the book, by the change. -/
theorem pool_of_assetCall {call : Call} (hlegs : w.legs = 0) (h : Effect env w w' call)
    (hcall : call.isAssetCall = true) (hstored : w.book.totalAssets = some w.book.assets) :
    w'.book.pool = w.book.pool.revalue (w.book.assets + w.assetChange env call) := by
  have hkind := kind_of_isAssetCall hcall
  cases h with
  | depositAsset _ _ _ _ h =>
    rw [h.book]
    ext
    · rfl
    · rfl
    · show i128.saturatingAdd (w.book.totalAssets.getD 0) _ = _
      rw [hstored]
      show _ = w.book.assets + (_ - w.book.assets)
      rw [add_sub_cancel]
      rfl
  | withdrawAsset hconfig h =>
    rw [h.book, h.actual_eq hlegs]
    ext
    · rfl
    · rfl
    · show max (i128.saturatingSub (w.book.totalAssets.getD 0) _) 0 = w.book.assets + _
      simp only [World.assetChange, hstored, hconfig]
      show _ = w.book.assets + (_ - w.book.assets)
      rw [add_sub_cancel]
      rfl
  | quiet hquiet => exact absurd hquiet (Bool.eq_false_iff.mp hkind.1)
  | funds hfunds => exact absurd hfunds (Bool.eq_false_iff.mp hkind.2.1)
  | assets hassets => exact absurd hassets (Bool.eq_false_iff.mp hkind.2.2)
  | _ => exact absurd hcall Bool.false_ne_true

/-- In every reachable state, a successful asset call leaves every holder's shares and claim alone
    exactly when everyone's rounding absorbs its change of the total. -/
theorem asset_call_isolated_iff {call : Call} {u : Unit} (h0 : w0.Opened)
    (h : Reaches (fun _ _ => True) w0 w) (hcall : call.isAssetCall = true)
    (hok : (invoke call).Ok env w u w') :
    (∀ v, w'.book.shares v = w.book.shares v ∧ w'.claim v = w.claim v) ↔
      w.book.pool.Absorbs (w.assetChange env call) := by
  obtain ⟨hstored, hi⟩ := stored_of_reaches h0 h
  have hpool : w'.book.pool = w.book.pool.revalue (w.book.assets + w.assetChange env call) :=
    pool_of_assetCall (w := w.entered) rfl (effect_of_invoke hi hok) hcall hstored
  have hshares : ∀ v, w'.book.shares v = w.book.shares v := fun v =>
    congrArg (fun p : Pool Address => p.shares v) hpool
  have hclaims := Pool.claim_revalue_eq_iff (p := w.book.pool)
    (a := w.book.assets + w.assetChange env call)
  rw [← hpool, show w.book.assets + w.assetChange env call - w.book.pool.assets =
    w.assetChange env call from add_sub_cancel_left _ _] at hclaims
  rw [← hclaims]
  exact ⟨fun hall v => (hall v).2, fun hall v => ⟨hshares v, hall v⟩⟩

namespace Sample

def euro : Symbol := ⟨1⟩

def euroToken : Address := ⟨8⟩

def listEuro : List Step := [.call honest (.addSupportedAsset euro euroToken 0 0 0)]

/-- Without USDC shares there is no claim to move. -/
theorem first_asset_deposit_isolated :
    ((opened.replay listEuro).after
        (.call honest (.depositAsset bob euro 3000000))).book.shares alice =
          (opened.replay listEuro).book.shares alice ∧
      ((opened.replay listEuro).after (.call honest (.depositAsset bob euro 3000000))).claim alice =
        (opened.replay listEuro).claim alice :=
  have hok : (invoke (.depositAsset bob euro 3000000)).Ok honest (opened.replay listEuro) ()
      ((opened.replay listEuro).after (.call honest (.depositAsset bob euro 3000000))) :=
    ok_after (by decide +kernel)
  have hreach : Reaches (fun _ _ => True) opened (opened.replay listEuro) :=
    .of_admits ⟨trivial, trivial⟩
  (asset_call_isolated_iff opened_opened hreach rfl hok).mpr
    (fun hsupply => absurd (by decide +kernel) hsupply) alice

/-- Alice holds USDC shares while the euro asset is listed. -/
def heldAndListed : List Step := listEuro ++ [.call honest (.deposit alice 5000000)]

/-- Bob's deposit of another asset lifts Alice's USDC claim from 5 to 8. -/
theorem asset_deposit_not_isolated :
    opened.Opened ∧ Reaches (fun _ _ => True) opened (opened.replay heldAndListed) ∧
      (invoke (.depositAsset bob euro 3000000)).Ok honest (opened.replay heldAndListed) ()
        ((opened.replay heldAndListed).after (.call honest (.depositAsset bob euro 3000000))) ∧
      (opened.replay heldAndListed).claim alice = 5000000 ∧
      ((opened.replay heldAndListed).after
        (.call honest (.depositAsset bob euro 3000000))).claim alice = 8000000 :=
  ⟨opened_opened, .of_admits ⟨trivial, trivial, trivial⟩, ok_after (by decide +kernel),
    by decide +kernel, by decide +kernel⟩

end Sample

end NeuroWealth.Vault
