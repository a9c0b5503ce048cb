import NeuroWealth.Vault.Proofs.AccountsProofs
import NeuroWealth.Vault.Properties.AssetIsolation

/-!
# Migration between two vaults

The migration target is a second instance of the vault. The first one pushes the value of the
user's shares to it, and its `deposit` then pulls the same amount from the user: every migration
that succeeds charges the user's wallet.
-/

namespace NeuroWealth.Vault

open Transaction MachineInt SharePool

variable {env tenv : Env} {w source' : World} {user : Address} {amount : Int}

/-! ## Two instances on one chain -/

/-- The vault after its own `deposit`, called on `chain`. -/
def World.depositOn (target : World) (tenv : Env) (chain : Chain) (user : Address)
    (amount : Int) : Option World :=
  let called := { target with chain := chain }
  if (invoke (.deposit user amount)).succeeds tenv called = true then
    some (called.after (.call tenv (.deposit user amount)))
  else none

/-- An environment in which `target` answers the calls of its address. -/
def Env.calling (env tenv : Env) (target : World) : Env :=
  { env with
    targetDeposit := fun chain address user amount =>
      if address = target.self then (target.depositOn tenv chain user amount).map World.chain
      else none }

/-- A vault and its migration target, on one chain and with the same token. -/
structure VaultPair where
  source : World
  target : World
  token : Address
  sourceToken : source.usdcToken = some token
  targetToken : target.usdcToken = some token
  sharedChain : target.chain = source.chain
  configured : source.migration.target = some target.self
  stored : target.book.totalAssets = some target.book.assets

/-! ## What the target does -/

theorem depositOn_eq_some {target target' : World} {chain : Chain}
    (h : target.depositOn tenv chain user amount = some target') :
    (invoke (.deposit user amount)).Ok tenv { target with chain := chain } () target' := by
  unfold World.depositOn at h
  by_cases hok : (invoke (.deposit user amount)).succeeds tenv { target with chain := chain } = true
  · simp only [if_pos hok, Option.some.injEq] at h
    rw [← h]
    exact ok_after hok
  · simp only [if_neg hok] at h
    cases h

/-- The deposit of a second vault: it pulls the amount from the user and books it. -/
theorem depositOn_spec {target target' : World} {chain : Chain} {token : Address}
    (htoken : target.usdcToken = some token)
    (hstored : target.book.totalAssets = some target.book.assets)
    (h : target.depositOn tenv chain user amount = some target') :
    0 < amount ∧ user ≠ target.self ∧
      target'.chain = chain.move token user target.self amount ∧
      target'.book.assets = target.book.assets + amount ∧ target'.usdcToken = some token ∧
      target'.self = target.self := by
  obtain ⟨t, minted, hq, hdeposited, -⟩ := deposit_ok (ok_invoke.mp (depositOn_eq_some h))
  have hpos := hdeposited.positive
  have hforeign := hdeposited.foreign
  obtain ⟨token', t1, htoken', hpaid, hcredit⟩ := hdeposited.steps
  obtain rfl : token' = token := by
    rw [hq.usdcToken] at htoken'
    exact Option.some.inj (htoken'.symm.trans htoken)
  have hself : t.self = target.self := hq.self
  rw [hself] at hforeign
  refine ⟨hpos, hforeign, ?_, ?_, ?_, ?_⟩
  · rw [hcredit.accounting.chain, hpaid.chain, hq.chain, hself]
    rfl
  · have hstored' : t1.book.totalAssets = some target.book.assets := by
      rw [hpaid.book, hq.book]
      exact hstored
    rw [hcredit.book]
    show t1.book.totalAssets.getD _ + amount = _
    rw [hstored']
    rfl
  · rw [hcredit.accounting.usdcToken, hpaid.usdcToken, htoken']
  · rw [hcredit.accounting.self, hpaid.self, hself]

/-! ## The push and the pull -/

/-- A push to the target and a pull from the user: the target is paid twice. -/
theorem Chain.push_pull (c : Chain) (token : Address) (amount : Int) {source target : Address}
    (hs : source ≠ target) (hus : user ≠ source) (hut : user ≠ target) :
    ((c.move token source target amount).move token user target amount).balances token user =
        c.balances token user - amount ∧
      ((c.move token source target amount).move token user target amount).balances token target =
        c.balances token target + 2 * amount := by
  constructor
  · simp [Chain.move, Chain.setBalance, hus, hut]
  · simp [Chain.move, Chain.setBalance, hut.symm, hs.symm]
    ring

/-- Whenever a migration to another vault of this code succeeds, the shares are burned and their
    value moves between the totals, but the user's wallet pays for it once more. -/
theorem migration_charges_user (p : VaultPair)
    (h : (invoke (.migrateShares user)).Ok (env.calling tenv p.target) p.source () source') :
    0 < p.source.exposure user ∧
      source'.chain.balances p.token user =
        p.source.chain.balances p.token user - p.source.exposure user ∧
      source'.book.shares user = 0 ∧
      ∃ chain target',
        p.target.depositOn tenv chain user (p.source.exposure user) = some target' ∧
          target'.chain.balances = source'.chain.balances ∧
          source'.book.assets + target'.book.assets =
            p.source.book.assets + p.target.book.assets ∧
          target'.idle = p.target.idle + 2 * p.source.exposure user := by
  obtain ⟨address, amount, hmigrated⟩ := migrateShares_ok (ok_invoke.mp h)
  obtain rfl : amount = p.source.exposure user := hmigrated.value
  have hself : user ≠ p.source.self := hmigrated.foreign
  have hshares := hmigrated.shares.1
  have hbook := hmigrated.book
  obtain rfl : p.target.self = address :=
    Option.some.inj (p.configured.symm.trans hmigrated.configured)
  obtain ⟨token, t, htoken, hpaid, hcalled⟩ := hmigrated.steps
  obtain rfl : p.token = token := Option.some.inj (p.sourceToken.symm.trans htoken)
  have hforeign : p.source.self ≠ p.target.self := fun he =>
    hcalled.foreign (he.symm.trans hpaid.self.symm)
  obtain ⟨chain, hchain, hframe⟩ := hcalled.frame
  have hanswer : (p.target.depositOn tenv t.chain user (p.source.exposure user)).map World.chain =
      some chain := by
    simpa [Env.calling] using hchain
  obtain ⟨target', hdeposit, htarget'⟩ := Option.map_eq_some_iff.mp hanswer
  obtain ⟨hpos, huser, hmoved, hassets, htoken', hself'⟩ :=
    depositOn_spec p.targetToken p.stored hdeposit
  have hbalances : source'.chain.balances = target'.chain.balances := by
    rw [hframe.chain, htarget']
  have hpushed : t.chain = p.source.chain.move p.token p.source.self p.target.self
      (p.source.exposure user) := hpaid.chain
  rw [hpushed] at hmoved
  obtain ⟨hwallet, hreceived⟩ := Chain.push_pull p.source.chain p.token
    (p.source.exposure user) hforeign hself huser
  refine ⟨hpos, ?_, hshares, t.chain, target', hdeposit, hbalances.symm, ?_, ?_⟩
  · rw [hbalances, hmoved]
    exact hwallet
  · have hleft : source'.book.assets = p.source.book.assets - p.source.exposure user := by
      rw [hbook]
      rfl
    omega
  · rw [idle_eq htoken', hself', hmoved, hreceived, idle_eq p.targetToken, p.sharedChain]

namespace Sample

/-- Alice has five USDC in the vault, whose owner has named a second one as the target. -/
def departing : World :=
  opened.replay [.call honest (.deposit alice 5000000), .call honest (.setMigrationTarget ⟨9⟩)]

/-- The second vault is fresh. -/
def secondVault : World := { opened with self := ⟨9⟩, chain := departing.chain }

def twoVaults : VaultPair where
  source := departing
  target := secondVault
  token := usdc
  sourceToken := by decide +kernel
  targetToken := by decide +kernel
  sharedChain := rfl
  configured := by decide +kernel
  stored := by decide +kernel

/-- The state of the first vault after Alice's migration. -/
def departed : World :=
  departing.after (.call (honest.calling honest secondVault) (.migrateShares alice))

theorem departed_ok : (invoke (.migrateShares alice)).Ok (honest.calling honest twoVaults.target)
    twoVaults.source () departed :=
  ok_after (by decide +kernel)

theorem departed_charges_alice :
    0 < departing.exposure alice ∧
      departed.chain.balances usdc alice =
        departing.chain.balances usdc alice - departing.exposure alice ∧
      departed.book.shares alice = 0 ∧
      ∃ chain target',
        secondVault.depositOn honest chain alice (departing.exposure alice) = some target' ∧
          target'.chain.balances = departed.chain.balances ∧
          departed.book.assets + target'.book.assets =
            departing.book.assets + secondVault.book.assets ∧
          target'.idle = secondVault.idle + 2 * departing.exposure alice :=
  migration_charges_user twoVaults departed_ok

/-- Alice's migration of five USDC succeeds and takes another five from her wallet. -/
theorem migration_takes_twice :
    (invoke (.migrateShares alice)).Ok (honest.calling honest twoVaults.target)
        twoVaults.source () departed ∧
      twoVaults.source.chain.balances usdc alice = 9995000000 ∧
      departed.chain.balances usdc alice = 9990000000 :=
  ⟨departed_ok, by decide +kernel, by decide +kernel⟩

end Sample

end NeuroWealth.Vault
