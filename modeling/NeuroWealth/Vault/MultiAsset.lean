import NeuroWealth.Vault.Withdrawals

/-!
# Per-asset share pools

`deposit_asset` and `withdraw_asset`. Both also move the global totals of the USDC pool.
-/

namespace NeuroWealth.Vault

open Transaction MachineInt

def AssetPools.setTotals (a : AssetPools) (asset : Symbol) (t : AssetTotals) : AssetPools :=
  { a with totals := fun s => if s = asset then t else a.totals s }

def AssetPools.setShares (a : AssetPools) (user : Address) (asset : Symbol) (x : Int) :
    AssetPools :=
  { a with shares := fun u s => if u = user ∧ s = asset then x else a.shares u s }

def setAssetShares (user : Address) (asset : Symbol) (x : Int) : Contract Unit := do
  let w ← get
  putAssets (w.assets.setShares user asset x)

def setAssetTotals (asset : Symbol) (t : AssetTotals) : Contract Unit := do
  let w ← get
  putAssets (w.assets.setTotals asset t)

def readAssetTotals (asset : Symbol) : Contract AssetTotals := do
  let w ← get
  pure (w.assets.totals asset)

def getAssetConfigOr (asset : Symbol) (message : String) : Contract AssetConfig := do
  let w ← get
  Tx.expect (.panic message) (w.assets.config asset)

def convertToAssetSharesInternal (asset : Symbol) (assets : Int) : Contract Int := do
  let totals ← readAssetTotals asset
  convertToSharesAt
    { mul := "vault: asset share conversion overflow", div := "vault: asset conversion div error" }
    totals.shares totals.assets assets

def convertToAssetSharesInternalCeil (asset : Symbol) (assets : Int) : Contract Int := do
  let totals ← readAssetTotals asset
  convertToSharesCeilAt
    { mul := "vault: asset conversion mul overflow"
      sub := "vault: asset conversion sub underflow"
      add := "vault: asset conversion add overflow"
      div := "vault: asset conversion div error" }
    totals.shares totals.assets assets

def convertToAssetAssetsInternal (asset : Symbol) (shares : Int) : Contract Int := do
  let totals ← readAssetTotals asset
  convertToAssetsAt
    { mul := "vault: asset share to asset overflow", div := "vault: asset conversion div error" }
    totals.shares totals.assets shares

/-- The book after an asset deposit: the global totals grow, no USDC-pool share is minted. -/
def Book.addGlobal (b : Book) (amount : Int) : Book :=
  { b with
    totalAssets := some (i128.saturatingAdd (b.totalAssets.getD 0) amount)
    totalDeposits := i128.saturatingAdd b.totalDeposits amount }

/-- The book after an asset withdrawal. -/
def Book.reduceGlobal (b : Book) (amount : Int) : Book :=
  { b with
    totalAssets := some (max (i128.saturatingSub (b.totalAssets.getD 0) amount) 0)
    totalDeposits := b.depositsAfterWithdraw amount }

def addToGlobalTotalsOnDeposit (amount : Int) : Contract Unit := do
  let w ← get
  putBook (w.book.addGlobal amount)

def reduceGlobalTotalsOnWithdraw (amount : Int) : Contract Unit := do
  let w ← get
  putBook (w.book.reduceGlobal amount)

/-- An asset's own limits; a limit of zero is disabled. -/
def requireAssetLimits (config : AssetConfig) (totals : AssetTotals) (amount : Int) :
    Contract Unit := do
  Tx.require (¬ (0 < config.minDeposit ∧ amount < config.minDeposit)) .belowMinimumDeposit
  Tx.require (¬ (0 < config.depositLimit ∧ config.depositLimit < amount)) .maximumDepositExceeded
  if 0 < config.tvlCap then do
    let newAssets ← checkedAdd totals.assets amount "deposit_asset: overflow"
    Tx.require (newAssets ≤ config.tvlCap) .exceedsTvlCap
  else pure ()

def depositAsset (user : Address) (asset : Symbol) (amount : Int) : Contract Unit := do
  requireInitialized
  requireAuth user
  requireNotPaused
  requirePositiveAmount amount
  enforceUserRateLimit user .deposit
  let config ← getAssetConfigOr asset "deposit_asset: asset not supported"
  let totals ← readAssetTotals asset
  requireAssetLimits config totals amount
  let sharesToMint ← convertToAssetSharesInternal asset amount
  Tx.require (0 < sharesToMint) .sharesToMintMustBePositive
  let w ← get
  let currentShares := w.assets.shares user asset
  transfer config.tokenAddress user w.self amount
  let deposits ← checkedAdd totals.deposits amount "deposit_asset: deposits overflow"
  let shares ← checkedAdd totals.shares sharesToMint "deposit_asset: shares overflow"
  let assets ← checkedAdd totals.assets amount "deposit_asset: assets overflow"
  let newShares ← checkedAdd currentShares sharesToMint "deposit_asset: overflow"
  setAssetShares user asset newShares
  setAssetTotals asset ⟨assets, shares, deposits⟩
  addToGlobalTotalsOnDeposit amount
  publish (.assetDeposit user asset amount sharesToMint)

/-- What `withdraw_asset` can pay. Unlike the USDC paths it pulls from single venues only. -/
def availableForAsset (token : Address) (assetsToReturn : Int) : Contract Int := do
  let w ← get
  let protocol := w.deployment.currentProtocol
  if protocol = .blend ∨ protocol = .dex then do
    let balance ← vaultBalance token
    if balance < assetsToReturn then do
      let needed ← checkedSub assetsToReturn balance "withdraw_asset: underflow"
      let _ ← withdrawAmountFromProtocol protocol needed 0
      let available ← vaultBalance token
      pure (min assetsToReturn available)
    else pure assetsToReturn
  else pure assetsToReturn

/-- The accounting of an asset withdrawal, from the balances read before the pull. -/
def settleAssetWithdraw (user : Address) (asset : Symbol) (userShares : Int)
    (totals : AssetTotals) (actualToReturn finalSharesToBurn : Int) : Contract Unit := do
  let newUserShares ← checkedSub userShares finalSharesToBurn
    "withdraw_asset: user shares underflow"
  setAssetShares user asset newUserShares
  let shares ← checkedSub totals.shares finalSharesToBurn "withdraw_asset: total shares underflow"
  let assets ← checkedSub totals.assets actualToReturn "withdraw_asset: total assets underflow"
  let deposits := max (i128.saturatingSub totals.deposits actualToReturn) 0
  setAssetTotals asset ⟨assets, shares, deposits⟩
  reduceGlobalTotalsOnWithdraw actualToReturn

def withdrawAsset (user : Address) (asset : Symbol) (amount : Int) : Contract Unit := do
  requireInitialized
  requireAuth user
  requireNotPaused
  requirePositiveAmount amount
  enforceUserRateLimit user .withdraw
  let config ← getAssetConfigOr asset "withdraw_asset: asset not supported"
  let w ← get
  let userShares := w.assets.shares user asset
  Tx.require (0 < userShares) .insufficientShares
  let totals ← readAssetTotals asset
  Tx.require (0 < totals.shares ∧ 0 < totals.assets) .noAssetsToWithdraw
  let sharesToBurn ← convertToAssetSharesInternalCeil asset amount
  Tx.require (0 < sharesToBurn) .sharesToBurnMustBePositive
  Tx.require (sharesToBurn ≤ userShares) .insufficientSharesForAmount
  let assetsToReturn ← convertToAssetAssetsInternal asset sharesToBurn
  let actualToReturn ← availableForAsset config.tokenAddress assetsToReturn
  Tx.require (0 < actualToReturn) .insufficientLiquidity
  let finalSharesToBurn ← convertToAssetSharesInternalCeil asset actualToReturn
  settleAssetWithdraw user asset userShares totals actualToReturn finalSharesToBurn
  transfer config.tokenAddress w.self user actualToReturn
  publish (.assetWithdraw user asset actualToReturn finalSharesToBurn)

/-! ## Administration -/

def AssetPools.setConfig (a : AssetPools) (asset : Symbol) (c : Option AssetConfig) :
    AssetPools :=
  { a with config := fun s => if s = asset then c else a.config s }

def AssetPools.addToIndex (a : AssetPools) (asset : Symbol) : AssetPools :=
  if asset ∈ a.supported then a else { a with supported := a.supported ++ [asset] }

def AssetPools.removeFromIndex (a : AssetPools) (asset : Symbol) : AssetPools :=
  { a with supported := a.supported.filter (· ≠ asset) }

/-- The bounds `add_supported_asset` and `update_asset_limits` place on an asset's limits. -/
def requireValidAssetLimits (minDeposit depositLimit tvlCap : Int) : Contract Unit := do
  Tx.require (0 ≤ minDeposit) .invalidStrategy
  Tx.require (0 ≤ depositLimit) .invalidStrategy
  Tx.require (0 ≤ tvlCap) .tvlCapCannotBeNegative
  Tx.require (¬ (0 < depositLimit ∧ depositLimit < minDeposit)) .invalidStrategy

def addSupportedAsset (asset : Symbol) (tokenAddress : Address)
    (minDeposit depositLimit tvlCap : Int) : Contract Unit := do
  requireInitialized
  requireIsOwner
  let w ← get
  Tx.require ((w.assets.config asset).isNone) .alreadyInitialized
  requireValidAssetLimits minDeposit depositLimit tvlCap
  let config : AssetConfig := ⟨tokenAddress, minDeposit, depositLimit, tvlCap⟩
  putAssets ((w.assets.setConfig asset (some config)).addToIndex asset)
  let owner ← getOwnerInternal
  publish (.supportedAssetsUpdated asset true owner w.chain.timestamp)

def updateAssetLimits (asset : Symbol) (minDeposit depositLimit tvlCap : Int) :
    Contract Unit := do
  requireInitialized
  requireIsOwner
  requireValidAssetLimits minDeposit depositLimit tvlCap
  let config ← getAssetConfigOr asset "update_asset_limits: asset not supported"
  let w ← get
  putAssets (w.assets.setConfig asset
    (some ⟨config.tokenAddress, minDeposit, depositLimit, tvlCap⟩))

def removeSupportedAsset (asset : Symbol) : Contract Unit := do
  requireInitialized
  requireIsOwner
  let totals ← readAssetTotals asset
  Tx.require (totals.shares = 0 ∧ totals.assets = 0) .noAssetsToWithdraw
  let w ← get
  putAssets (((w.assets.setConfig asset none).setTotals asset {}).removeFromIndex asset)
  let owner ← getOwnerInternal
  publish (.supportedAssetsUpdated asset false owner w.chain.timestamp)

end NeuroWealth.Vault
