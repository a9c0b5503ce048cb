import Mathlib

/-!
# The issuer freeze monitor

Polls of the asset issuer's account, one after the other, and the response to a freeze. Every poll
carries what its calls give: the account, the clock, and what becomes of the pause, of the balance
snapshot and of each alert.
-/

namespace NeuroWealth.FreezeMonitor

structure Config where
  usdcIssuerAddress : String
  vaultContractId : String

structure IssuerAccountFlags where
  auth_required : Bool
  auth_revocable : Bool
  auth_clawback_enabled : Bool
deriving DecidableEq

inductive FreezeAlertChannel where
  | email
  | slack
  | sms
  | pagerduty
deriving DecidableEq

structure FreezeEvent where
  detectedAt : String
  issuerAddress : String
  flags : IssuerAccountFlags
  vaultPaused : Bool
  snapshotGenerated : Bool
  alertsSent : Bool
  runbookUrl : String
deriving DecidableEq

structure FreezeAlertPayload where
  severity : String
  title : String
  message : String
  issuerAddress : String
  flags : IssuerAccountFlags
  vaultContractId : String
  runbookUrl : String
  snapshotAvailable : Bool
  detectedAt : String
deriving DecidableEq

/-- The flags of an account as Horizon lists them, each possibly missing. -/
structure AccountFlags where
  auth_required : Option Bool
  auth_revocable : Option Bool
  auth_clawback_enabled : Option Bool

/-- `pauseVault` returns a result or throws. -/
inductive PauseOutcome where
  | result (success : Bool)
  | throws
deriving DecidableEq

/-- What the calls of a poll give. `account` is missing when the lookup fails; `balances` and
    `alert` say whether the call succeeds. -/
structure Poll where
  account : Option AccountFlags
  now : String
  pause : PauseOutcome
  balances : Bool
  alert : FreezeAlertChannel → Bool

/-- What a poll has done: its attempt to pause the vault, the alerts it dispatched, and the event,
    if the response was completed. -/
structure Response where
  attempt : Option PauseOutcome
  dispatched : List (FreezeAlertChannel × FreezeAlertPayload)
  event : Option FreezeEvent
deriving DecidableEq

/-- A poll that has done nothing. -/
def Response.silent : Response := ⟨none, [], none⟩

/-- The fields of a monitor. -/
structure Monitor where
  freezeActive : Bool
  lastCheckedAt : Option String
  lastFlags : Option IssuerAccountFlags

def Monitor.new : Monitor := ⟨false, none, none⟩

def fetchIssuerFlags (poll : Poll) : Option IssuerAccountFlags :=
  poll.account.map fun flags =>
    ⟨flags.auth_required.getD false, flags.auth_revocable.getD false,
      flags.auth_clawback_enabled.getD false⟩

def isFreezeActive (flags : IssuerAccountFlags) : Bool :=
  flags.auth_revocable || flags.auth_clawback_enabled

def RUNBOOK_URL : String :=
  "https://github.com/Shackole/NeuroWealth-Smartcontract/blob/main/docs/" ++
    "ISSUER_FREEZE_CONTINGENCY.md"

def alertPayload (config : Config) (flags : IssuerAccountFlags) (detectedAt : String)
    (success snapshotGenerated : Bool) : FreezeAlertPayload where
  severity := "CRITICAL"
  title := "USDC Issuer Freeze Detected — NeuroWealth Vault Paused"
  message := "The USDC issuer account (" ++ config.usdcIssuerAddress ++
    ") has returned freeze-capable flags (auth_revocable=" ++ toString flags.auth_revocable ++
    ", auth_clawback_enabled=" ++ toString flags.auth_clawback_enabled ++ "). " ++
    "The vault has been " ++ (if success then "PAUSED" else "PAUSE ATTEMPTED (may have failed)") ++
    ". User funds are safe — share balances are unaffected and readable at all times. " ++
    "Follow the runbook to determine next steps."
  issuerAddress := config.usdcIssuerAddress
  flags := flags
  vaultContractId := config.vaultContractId
  runbookUrl := RUNBOOK_URL
  snapshotAvailable := snapshotGenerated
  detectedAt := detectedAt

/-- The response to a confirmed freeze. A failed snapshot is caught; an exception of `pauseVault`
    ends it. -/
def handleFreezeDetected (config : Config) (alertChannels : List FreezeAlertChannel)
    (flags : IssuerAccountFlags) (poll : Poll) : Response :=
  match poll.pause with
  | .throws => ⟨some .throws, [], none⟩
  | .result success =>
    let payload := alertPayload config flags poll.now success poll.balances
    ⟨some (.result success), alertChannels.map fun channel => (channel, payload),
      some ⟨poll.now, config.usdcIssuerAddress, flags, success, poll.balances,
        alertChannels.any poll.alert, RUNBOOK_URL⟩⟩

/-- One poll. -/
def check (config : Config) (alertChannels : List FreezeAlertChannel) (m : Monitor) (poll : Poll) :
    Monitor × Response :=
  match fetchIssuerFlags poll with
  | none => (m, .silent)
  | some flags =>
    let frozen := isFreezeActive flags
    let checked := { m with lastFlags := some flags, lastCheckedAt := some poll.now }
    if frozen && !m.freezeActive then
      ({ checked with freezeActive := true },
        handleFreezeDetected config alertChannels flags poll)
    else if !frozen && m.freezeActive then ({ checked with freezeActive := false }, .silent)
    else (checked, .silent)

/-- What each of some polls has done. -/
def responses (config : Config) (alertChannels : List FreezeAlertChannel) :
    Monitor → List Poll → List Response
  | _, [] => []
  | m, poll :: rest =>
    (check config alertChannels m poll).2 ::
      responses config alertChannels (check config alertChannels m poll).1 rest

/-- The monitor after some polls. -/
def monitor (config : Config) (alertChannels : List FreezeAlertChannel) (polls : List Poll) :
    Monitor :=
  polls.foldl (fun m poll => (check config alertChannels m poll).1) .new

end NeuroWealth.FreezeMonitor
