import NeuroWealth.Vault.Types

/-!
# Events

What a call publishes. `transfer` and `approve` are the token operations the vault itself
performs, recorded in the order of execution.
-/

namespace NeuroWealth.Vault

inductive Event where
  | transfer (token sender recipient : Address) (amount : Int)
  | approve (token spender : Address) (amount : Int) (expirationLedger : Nat)
  | initialized (owner agent usdcToken : Address) (tvlCap : Int)
  | deposit (user : Address) (amount shares : Int)
  | batchDeposited (agent : Address) (count : Nat) (totalAmount : Int) (skipped : Nat)
  | withdraw (user : Address) (amount shares : Int)
  | emergencyWithdrawal (user : Address) (amount shares : Int) (fromIdle : Bool)
  | flashLoanProtectionTriggered (user : Address)
      (lastDepositLedger currentLedger minHoldingPeriod : Nat)
  | assetDeposit (user : Address) (asset : Symbol) (amount shares : Int)
  | assetWithdraw (user : Address) (asset : Symbol) (amount shares : Int)
  | supportedAssetsUpdated (asset : Symbol) (added : Bool) (owner : Address) (timestamp : Nat)
  | sharesMigrated (user oldVault newVault : Address) (sharesBurned assetsTransferred : Int)
  | migrationTargetUpdated (oldTarget : Option Address) (newTarget owner : Address)
  | migrationPaused (paused : Bool) (owner : Address)
  | sharesLocked (user : Address) (sharesLocked : Int)
      (lockDurationDays boostMultiplier expiryLedger : Nat)
  | sharesUnlocked (user : Address) (sharesUnlocked : Int)
  | rebalance (protocol : Protocol) (expectedApy : Int) (status : Status)
      (amountAttempted amountMoved amountSupplied amountWithdrawn : Int)
  | rebalanceFailed (fromProtocol : Protocol)
  | harvest (protocol : Protocol) (amountHarvested : Int)
  | emergencyHarvest (protocol : Protocol) (amountHarvested : Int)
  | protocolChanged (oldProtocol newProtocol : Protocol)
  | protocolAllocationChanged (oldBlendBps oldDexBps newBlendBps newDexBps : Nat)
      (deployedToBlend deployedToDex : Int)
  | multiProtocolModeChanged (enabled : Bool) (blendBps dexBps : Nat)
  | protocolApyUpdated (protocol : Protocol) (apyBps : Nat)
  | supply (venue : Venue) (asset : Address) (amountActual : Int) (success : Bool)
  | poolWithdraw (venue : Venue) (asset : Address) (amountActual : Int) (success : Bool)
  | poolConfigured (venue : Venue) (oldPool : Option Address) (newPool owner : Address)
  | paused (owner : Address)
  | unpaused (owner : Address)
  | emergencyPaused (owner : Address)
  | circuitBreakerReset (owner : Address)
  | tvlCapUpdated (oldCap newCap : Int) (timestamp : Nat)
  | userDepositCapUpdated (oldCap newCap : Int) (timestamp : Nat)
  | capsUpdated (oldUserCap newUserCap oldTvlCap newTvlCap : Int)
  | limitsUpdated (oldMin newMin oldMax newMax : Int)
  | depositLimitsUpdated (oldMin newMin oldMax newMax : Int)
  | rebalanceCooldownUpdated (oldInterval newInterval : Nat)
  | approvalTtlUpdated (oldTtl newTtl : Nat)
  | maxConsecutiveFailuresUpdated (oldThreshold newThreshold : Nat)
  | rateLimitConfigUpdated (category : RateLimitCategory)
      (oldMaxCalls oldWindowLedgers newMaxCalls newWindowLedgers : Nat) (owner : Address)
  | batchSizeLimitUpdated (oldMaxEntries newMaxEntries : Nat) (owner : Address)
  | mevExtractionSuspected (protocol : Protocol)
      (estimatedLossStroops minOutUsed cumulativeLossStroops : Int) (incidentCount : Nat)
  | userStrategyUpdated (user : Address) (oldStrategy newStrategy : Strategy)
  | agentUpdateProposed (oldAgent newAgent : Address) (effectiveLedger : Nat)
  | agentUpdateConfirmed (oldAgent newAgent : Address)
  | agentUpdated (oldAgent newAgent : Address)
  | agentUpdateCancelled (oldAgent proposedNewAgent : Address)
  | standbyAgentUpdated (oldStandby : Option Address) (newStandby owner : Address)
      (timestamp : Nat)
  | agentKeyRotated (oldPrimary newPrimary newStandby owner : Address) (timestamp : Nat)
  | guardianSet (oldGuardian newGuardian : Option Address) (owner : Address)
  | ownershipTransferInitiated (currentOwner pendingOwner : Address)
  | ownershipTransferred (oldOwner newOwner : Address)
  | ownershipTransferCancelled (owner cancelledPending : Address)
  | assetsUpdated (oldTotal newTotal : Int)
  | yieldAttributed (user : Address) (protocol : Protocol) (amount : Int) (timestamp : Nat)
  | upgradeScheduled (newWasmHash effectiveLedger : Nat)
  | upgraded (oldVersion newVersion : Nat)
  | upgradeCancelled (cancelledWasmHash : Nat)
deriving Repr

end NeuroWealth.Vault
