import NeuroWealth.Vault.Guards

/-!
# Supplying to and withdrawing from the pools

The Blend and the DEX legs are the same code for two venues, up to the error for a missing pool
and the Blend pool not being told the slippage floor.
-/

namespace NeuroWealth.Vault

open Transaction MachineInt

def Venue.notConfigured : Venue → VaultError
  | .blend => .blendPoolNotConfigured
  | .dex => .dexPoolNotConfigured

/-- The slippage floor a pool is told: only `add_liquidity` and `remove_liquidity` carry it. -/
def Venue.forwardedMinOut : Venue → Int → Int
  | .blend, _ => 0
  | .dex, minOut => minOut

/-- The configured pool of a venue. -/
def getPool (venue : Venue) : Contract Address := do
  let w ← get
  Tx.expect venue.notConfigured (w.deployment.pool venue)

def getApprovalTtlInternal : Contract Nat := do
  let w ← get
  pure ((w.limits.approvalTtl.orElse fun _ => w.limits.blendApprovalTtl).getD 100000)

/-- Supplies `amount` to a venue and returns what the vault's balance fell by. -/
def supplyToVenue (venue : Venue) (amount minOut : Int) : Contract Int :=
  if amount ≤ 0 then pure 0
  else do
    let poolAddress ← getPool venue
    let usdcToken ← getUsdcToken
    let sequence ← ledgerSequence
    let ttl ← getApprovalTtlInternal
    approve usdcToken poolAddress amount (saturatingAddU32 sequence ttl)
    let balanceBefore ← vaultBalance usdcToken
    callPool .supply venue poolAddress usdcToken amount (venue.forwardedMinOut minOut)
    let balanceAfter ← vaultBalance usdcToken
    let supplied := i128.saturatingSub balanceBefore balanceAfter
    requireMinOut supplied minOut
    Tx.onlyIf (0 < supplied) (setCurrentProtocol venue.protocol)
    publish (.supply venue usdcToken supplied (0 < supplied))
    pure supplied

def supplyToBlend : Int → Int → Contract Int := supplyToVenue .blend

def supplyToDex : Int → Int → Contract Int := supplyToVenue .dex

/-- The marker is cleared once a withdrawal empties the position. -/
def clearMarkerIfEmptied (venue : Venue) (pool : Address) : Contract Unit := do
  let remaining ← poolBalance venue pool
  Tx.onlyIf (remaining = 0) (setCurrentProtocol .none)

/-- The amount a withdrawal asks for: zero stands for the whole position. -/
def requestedAmount (venue : Venue) (pool : Address) (amount : Int) : Contract Int :=
  if amount = 0 then poolBalance venue pool else pure amount

/-- Withdraws `amount` (the whole position for zero) from a venue and returns what the vault's
    balance grew by. -/
def withdrawFromVenue (venue : Venue) (amount minOut : Int) : Contract Int := do
  let poolAddress ← getPool venue
  let usdcToken ← getUsdcToken
  let amountToWithdraw ← requestedAmount venue poolAddress amount
  if amountToWithdraw ≤ 0 then pure 0
  else do
    let balanceBefore ← vaultBalance usdcToken
    callPool .withdraw venue poolAddress usdcToken amountToWithdraw (venue.forwardedMinOut minOut)
    let balanceAfter ← vaultBalance usdcToken
    let withdrawn := i128.saturatingSub balanceAfter balanceBefore
    requireMinOut withdrawn minOut
    Tx.onlyIf (0 < withdrawn) (clearMarkerIfEmptied venue poolAddress)
    publish (.poolWithdraw venue usdcToken withdrawn (0 < withdrawn))
    pure withdrawn

def withdrawFromBlend : Int → Int → Contract Int := withdrawFromVenue .blend

def withdrawFromDex : Int → Int → Contract Int := withdrawFromVenue .dex

/-! ## Positions -/

/-- The vault's position in a venue, zero while no pool is configured. -/
def getVenueBalance (venue : Venue) : Contract Int := do
  let w ← get
  match w.deployment.pool venue with
  | some pool => do
    -- the read goes through the token's client
    let _ ← getUsdcToken
    poolBalance venue pool
  | none => pure 0

def getProtocolBalance : Protocol → Contract Int
  | .blend => getVenueBalance .blend
  | .dex => getVenueBalance .dex
  | .multi => do
    let blend ← getVenueBalance .blend
    let dex ← getVenueBalance .dex
    pure (i128.saturatingAdd blend dex)
  | _ => pure 0

def Deployment.setDeployed (d : Deployment) (blend dex : Int) : Deployment :=
  { d with deployed := fun v => match v with | .blend => blend | .dex => dex }

/-- Re-reads both venues and stores the result in the local trackers. -/
def syncDeployedSplit : Contract (Int × Int) := do
  let blend ← getVenueBalance .blend
  let dex ← getVenueBalance .dex
  let w ← get
  putDeployment (w.deployment.setDeployed blend dex)
  pure (blend, dex)

/-- The marker that describes two positions. -/
def deriveProtocolSummary (blend dex : Int) : Protocol :=
  if 0 < blend ∧ 0 < dex then .multi
  else if 0 < blend then .blend
  else if 0 < dex then .dex
  else .none

/-! ## Leaving the active protocol -/

/-- What a proportional withdrawal asks of Blend and of the DEX. -/
def proportionalSplit (target blendBal dexBal fromBlend : Int) : Int × Int :=
  let fromDex := target - fromBlend
  -- never ask a venue for more than it holds; spill the excess over
  let (b1, d1) :=
    if dexBal < fromDex then
      (min blendBal (i128.saturatingAdd fromBlend (fromDex - dexBal)), dexBal)
    else (fromBlend, fromDex)
  if blendBal < b1 then (blendBal, min dexBal (i128.saturatingAdd d1 (b1 - blendBal)))
  else (b1, d1)

/-- One leg of a proportional withdrawal; nothing is asked of a venue with no share in it. -/
def withdrawShare (venue : Venue) (amount minOut : Int) : Contract Int :=
  if 0 < amount then withdrawFromVenue venue amount minOut else pure 0

/-- Pulls `needed` USDC from both venues in proportion to what they hold. -/
def withdrawProportionally (needed minOut : Int) : Contract Int :=
  if needed ≤ 0 then pure 0
  else do
    let blendBal ← getVenueBalance .blend
    let dexBal ← getVenueBalance .dex
    let total := i128.saturatingAdd blendBal dexBal
    if total ≤ 0 then pure 0
    else do
      let target := min needed total
      let product ← checkedMul target blendBal "vault: proportional withdrawal overflow"
      let fromBlend ← checkedDiv product total "attempt to divide with overflow"
      let _ ← checkedSub target fromBlend "vault: proportional withdrawal underflow"
      let legs := proportionalSplit target blendBal dexBal fromBlend
      let blend ← withdrawShare .blend legs.1 minOut
      let dex ← withdrawShare .dex legs.2 minOut
      let after ← syncDeployedSplit
      setCurrentProtocol (deriveProtocolSummary after.1 after.2)
      pure (i128.saturatingAdd blend dex)

/-- Fully exits `protocol` if it is the active one. -/
def withdrawFromProtocol (protocol : Protocol) (minOut : Int) : Contract Int := do
  let w ← get
  if w.deployment.currentProtocol = protocol then
    match protocol with
    | .blend => withdrawFromBlend 0 minOut
    | .dex => withdrawFromDex 0 minOut
    | .multi => do
      let blend ← withdrawFromBlend 0 minOut
      let dex ← withdrawFromDex 0 minOut
      let after ← syncDeployedSplit
      setCurrentProtocol (deriveProtocolSummary after.1 after.2)
      pure (i128.saturatingAdd blend dex)
    | _ => pure 0
  else pure 0

/-- Pulls `amount` from the given protocol. -/
def withdrawAmountFromProtocol (protocol : Protocol) (amount minOut : Int) : Contract Int :=
  match protocol with
  | .multi => withdrawProportionally amount minOut
  | .blend => withdrawFromBlend amount minOut
  | .dex => withdrawFromDex amount minOut
  | _ => pure 0

/-- Protocols a user withdrawal may pull from. -/
def Protocol.isActive : Protocol → Bool
  | .blend => true
  | .dex => true
  | .multi => true
  | _ => false

end NeuroWealth.Vault
