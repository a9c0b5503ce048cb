import NeuroWealth.Vault.State

/-!
# Host and callees

Authorisation, the USDC token, the pools and the migration target, as the contract sees them.
-/

namespace NeuroWealth.Vault

open Transaction

/-- `require_auth`: the address has signed the call. The vault's own address never signs, since
    the host refuses re-entry. -/
def requireAuth (a : Address) : Contract Unit := do
  let env ← read
  let w ← get
  Tx.require (a ∈ env.auths ∧ a ≠ w.self) (.host "unauthorized")

/-- `env.ledger().sequence()`. -/
def ledgerSequence : Contract Nat := do
  let w ← get
  pure w.chain.sequence

/-- The stored USDC token, unwrapped. -/
def getUsdcToken : Contract Address := do
  let w ← get
  Tx.expect (.panic "called `Option::unwrap()` on a `None` value") w.usdcToken

/-- The stored owner, unwrapped. -/
def getOwnerInternal : Contract Address := do
  let w ← get
  Tx.expect (.panic "called `Option::unwrap()` on a `None` value") w.roles.owner

/-- The stored agent, unwrapped. -/
def getAgentInternal : Contract Address := do
  let w ← get
  Tx.expect (.panic "called `Option::unwrap()` on a `None` value") w.roles.agent

/-- `update_current_contract_wasm`: traps on a build that was never uploaded. -/
def updateCurrentContractWasm (newWasmHash : Nat) : Contract Unit := do
  let env ← read
  Tx.require (env.uploaded newWasmHash = true) (.host "wasm does not exist")
  modifyRoles fun r => { r with wasmHash := some newWasmHash }

/-! ## The token -/

/-- The vault's own balance of a token. -/
def vaultBalance (token : Address) : Contract Int := do
  let w ← get
  pure (w.chain.balances token w.self)

/-- Moves an exact amount between two holders. -/
def Chain.move (c : Chain) (token sender recipient : Address) (amount : Int) : Chain :=
  let c1 := c.setBalance token sender (c.balances token sender - amount)
  c1.setBalance token recipient (c1.balances token recipient + amount)

/-- `token::Client::transfer`: traps on a negative amount and on a missing balance. -/
def transfer (token sender recipient : Address) (amount : Int) : Contract Unit := do
  let w ← get
  Tx.require (0 ≤ amount ∧ amount ≤ w.chain.balances token sender) (.host "transfer")
  modify fun w => { w with chain := w.chain.move token sender recipient amount }
  publish (.transfer token sender recipient amount)

/-- `token::Client::approve` by the vault. -/
def approve (token spender : Address) (amount : Int) (expirationLedger : Nat) : Contract Unit := do
  let w ← get
  Tx.require (0 ≤ amount ∧ (amount = 0 ∨ w.chain.sequence ≤ expirationLedger)) (.host "approve")
  modify fun w =>
    { w with chain := w.chain.setAllowance token w.self spender ⟨amount, expirationLedger⟩ }
  publish (.approve token spender amount expirationLedger)

/-! ## Pools -/

/-- The chain after a pool took `taken` (a negative amount is a payment) from a vault and reports
    a new position. The pool's own token account is the pool's business. -/
def Chain.settle (c : Chain) (token vault : Address) (venue : Venue) (pool : Address)
    (taken position : Int) : Chain :=
  let allowance := c.allowances token vault pool
  let c1 := c.setBalance token vault (c.balances token vault - taken)
  let c2 := c1.setAllowance token vault pool
    { allowance with amount := allowance.amount - max taken 0 }
  c2.setPosition venue pool vault position

/-- What the vault loses when a pool moves `moved` in the direction of a call. -/
def LegKind.taken : LegKind → Int → Int
  | .supply, moved => moved
  | .withdraw, moved => -moved

/-- One call of a pool. Whatever the pool takes is bounded by its allowance and the balance. -/
def callPool (kind : LegKind) (venue : Venue) (pool token : Address) (amount minOut : Int) :
    Contract Unit := do
  let env ← read
  let w ← get
  let reply ← Tx.expect (.host "pool") (env.pool
    ⟨w.legs, kind, venue, pool, amount, minOut, w.chain.positions venue pool w.self⟩)
  let taken := kind.taken reply.moved
  Tx.require (taken ≤ 0 ∨ taken ≤ w.chain.balances token w.self ∧
    taken ≤ (w.chain.allowances token w.self pool).amount) (.host "transfer_from")
  modify fun w =>
    { w with
      chain := w.chain.settle token w.self venue pool taken reply.position
      legs := w.legs + 1 }

/-- `get_balance` of both pool clients: the vault's position. -/
def poolBalance (venue : Venue) (pool : Address) : Contract Int := do
  let w ← get
  pure (w.chain.positions venue pool w.self)

/-! ## The migration target -/

/-- `deposit` of the migration target. A call back into the vault is refused. -/
def invokeTargetDeposit (target user : Address) (amount : Int) : Contract Unit := do
  let env ← read
  let w ← get
  Tx.require (target ≠ w.self) (.host "re-entry")
  let chain ← Tx.expect (.host "deposit") (env.targetDeposit w.chain target user amount)
  modify fun w =>
    { w with
      chain := { chain with sequence := w.chain.sequence, timestamp := w.chain.timestamp } }

end NeuroWealth.Vault
