import NeuroWealth.Vault.Guards

/-!
# Depositing

`deposit` and `batch_deposit`, which mint shares of the USDC pool at the current price.
-/

namespace NeuroWealth.Vault

open Transaction MachineInt

def Book.setShares (b : Book) (user : Address) (x : Int) : Book :=
  { b with shares := fun u => if u = user then x else b.shares u }

def Holding.recordDeposit (h : Holding) (user : Address) (ledger : Nat) : Holding :=
  { h with lastDepositLedger := fun u => if u = user then some ledger else h.lastDepositLedger u }

def Profiles.setSnapshot (p : Profiles) (user : Address) (s : DepositSnapshot) : Profiles :=
  { p with depositSnapshot := fun u => if u = user then some s else p.depositSnapshot u }

def Profiles.setStrategy (p : Profiles) (user : Address) (s : Strategy) : Profiles :=
  { p with userStrategy := fun u => if u = user then some s else p.userStrategy u }

def setTotalDeposits (x : Int) : Contract Unit := do
  let w ← get
  putBook { w.book with totalDeposits := x }

def setUserShares (user : Address) (x : Int) : Contract Unit := do
  let w ← get
  putBook (w.book.setShares user x)

def setTotalShares (x : Int) : Contract Unit := do
  let w ← get
  putBook { w.book with totalShares := x }

def setTotalAssets (x : Int) : Contract Unit := do
  let w ← get
  putBook { w.book with totalAssets := some x }

def recordDepositLedger (user : Address) : Contract Unit := do
  let w ← get
  putHolding (w.holding.recordDeposit user w.chain.sequence)

/-- A first-time depositor starts with the balanced strategy. -/
def setDefaultStrategy (user : Address) : Contract Unit := do
  let w ← get
  if w.profiles.userStrategy user = none then do
    modifyProfiles fun p => p.setStrategy user .balanced
    publish (.userStrategyUpdated user .empty .balanced)
  else pure ()

/-- What `deposit` records for a user who held no shares. -/
def recordFirstDeposit (user : Address) (shares principal : Int) : Contract Unit := do
  addToUserIndex user
  let w ← get
  modifyProfiles fun p => p.setSnapshot user ⟨shares, principal, w.chain.timestamp⟩
  setDefaultStrategy user

/-- The accounting of a deposit once the USDC has arrived. -/
def creditDeposit (user : Address) (amount : Int) : Contract Unit := do
  let w ← get
  let newTotal ← checkedAdd w.book.totalDeposits amount "vault: total deposits overflow"
  setTotalDeposits newTotal
  let sharesToMint ← convertToSharesInternal amount
  Tx.require (0 < sharesToMint) .sharesToMintMustBePositive
  let currentShares ← readShares user
  let newUserShares ← checkedAdd currentShares sharesToMint "vault: user shares overflow"
  setUserShares user newUserShares
  Tx.onlyIf (currentShares = 0) (recordFirstDeposit user newUserShares amount)
  let totalShares ← getTotalSharesInternal
  let newTotalShares ← checkedAdd totalShares sharesToMint "vault: total shares overflow"
  setTotalShares newTotalShares
  let totalAssets ← getTotalAssetsInternal
  let newTotalAssets ← checkedAdd totalAssets amount "vault: total assets overflow"
  setTotalAssets newTotalAssets
  recordDepositLedger user
  publish (.deposit user amount sharesToMint)

def deposit (user : Address) (amount : Int) : Contract Unit := do
  requireInitialized
  requireAuth user
  requireNotPaused
  requirePositiveAmount amount
  requireMinimumDeposit amount
  requireMaximumDeposit amount
  requireWithinDepositCap user amount
  requireWithinTvlCap amount
  enforceUserRateLimit user .deposit
  let usdcToken ← getUsdcToken
  let w ← get
  transfer usdcToken user w.self amount
  creditDeposit user amount

/-! ## Batches -/

/-- Whether an entry passes the deposit bounds and the user's cap at this moment. -/
def batchItemValid (item : BatchDepositItem) : Contract Bool := do
  let w ← get
  if 0 < item.amount ∧ w.limits.minDeposit ≤ item.amount ∧ item.amount ≤ w.limits.maxDeposit then
    if 0 < w.limits.userDepositCap then do
      let userShares ← readShares item.user
      let userAssets ← convertToAssetsInternal userShares
      pure (decide (i128.saturatingAdd userAssets item.amount ≤ w.limits.userDepositCap))
    else pure true
  else pure false

/-- Totals of the pre-validation pass. -/
structure BatchTally where
  totalValidAmount : Int := 0
  validCount : Nat := 0
  skipCount : Nat := 0

/-- The pre-validation pass: every entry is judged against the state before the batch. -/
def tallyBatch : List BatchDepositItem → BatchTally → Contract BatchTally
  | [], tally => pure tally
  | item :: rest, tally => do
    let ok ← batchItemValid item
    if ok = true then do
      let total ← checkedAdd tally.totalValidAmount item.amount "batch_deposit: amount overflow"
      tallyBatch rest { tally with totalValidAmount := total, validCount := tally.validCount + 1 }
    else tallyBatch rest { tally with skipCount := tally.skipCount + 1 }

/-- What `batch_deposit` records for a user who held no shares; no snapshot is taken here. -/
def recordFirstBatchDeposit (user : Address) : Contract Unit := do
  addToUserIndex user
  setDefaultStrategy user

/-- The accounting of one entry whose USDC has arrived and that mints `sharesToMint`. -/
def creditBatchItem (item : BatchDepositItem) (sharesToMint : Int) : Contract Unit := do
  let currentShares ← readShares item.user
  let newUserShares ← checkedAdd currentShares sharesToMint "batch_deposit: user shares overflow"
  setUserShares item.user newUserShares
  Tx.onlyIf (currentShares = 0) (recordFirstBatchDeposit item.user)
  let w ← get
  let newTotal ← checkedAdd w.book.totalDeposits item.amount "batch_deposit: deposits overflow"
  setTotalDeposits newTotal
  let totalShares ← getTotalSharesInternal
  let newTotalShares ← checkedAdd totalShares sharesToMint "batch_deposit: shares overflow"
  setTotalShares newTotalShares
  let totalAssets ← getTotalAssetsInternal
  let newTotalAssets ← checkedAdd totalAssets item.amount "batch_deposit: assets overflow"
  setTotalAssets newTotalAssets
  recordDepositLedger item.user
  publish (.deposit item.user item.amount sharesToMint)

/-- One valid entry: pull the USDC, then mint or hand it back if it would mint nothing. -/
def fillBatchItem (agent : Address) (item : BatchDepositItem) : Contract Unit := do
  let usdcToken ← getUsdcToken
  let w ← get
  transfer usdcToken agent w.self item.amount
  let sharesToMint ← convertToSharesInternal item.amount
  if sharesToMint = 0 then transfer usdcToken w.self agent item.amount
  else creditBatchItem item sharesToMint

/-- One entry of the effects pass, judged against the state it finds. -/
def depositBatchItem (agent : Address) (item : BatchDepositItem) : Contract Unit := do
  let ok ← batchItemValid item
  Tx.onlyIf (ok = true) (fillBatchItem agent item)

def batchDeposit (agent : Address) (entries : List BatchDepositItem) : Contract Unit := do
  requireInitialized
  requireAuth agent
  requireNotPaused
  requireIsAgent
  requireBatchSize entries.length
  enforceUserRateLimit agent .batchDeposit
  let _ ← getUsdcToken
  let tally ← tallyBatch entries {}
  Tx.onlyIf (0 < tally.totalValidAmount) (requireWithinTvlCap tally.totalValidAmount)
  Tx.each (depositBatchItem agent) entries
  publish (.batchDeposited agent tally.validCount tally.totalValidAmount tally.skipCount)

end NeuroWealth.Vault
