import NeuroWealth.Foundation.Proofs.SharePoolProofs
import NeuroWealth.Vault.Proofs.AdministrationProofs
import NeuroWealth.Vault.Proofs.VenuesProofs
import NeuroWealth.Vault.Proofs.DepositsProofs
import NeuroWealth.Vault.Proofs.MultiAssetProofs
import NeuroWealth.Vault.Proofs.ExitsProofs
import NeuroWealth.Vault.Proofs.RebalancingProofs
import NeuroWealth.Vault.Proofs.ReportingProofs
import NeuroWealth.Vault.Proofs.EffectsProofs
import NeuroWealth.Vault.Proofs.MachineProofs
import NeuroWealth.Vault.Proofs.BookProofs
import NeuroWealth.Vault.Properties.Totals
import NeuroWealth.Vault.Properties.Dilution
import NeuroWealth.Vault.Properties.AssetIsolation
import NeuroWealth.Vault.Proofs.AccountsProofs
import NeuroWealth.Vault.Properties.HoldingPeriod
import NeuroWealth.Vault.Properties.Locks
import NeuroWealth.Vault.Proofs.GovernanceProofs
import NeuroWealth.Vault.Proofs.RolesProofs
import NeuroWealth.Foundation.Timelock
import NeuroWealth.Vault.Properties.Timelocks
import NeuroWealth.Vault.Properties.AgentKeys
import NeuroWealth.Vault.Properties.Guardian
import NeuroWealth.Foundation.RateWindow
import NeuroWealth.Vault.Proofs.OutcomesProofs
import NeuroWealth.Vault.Properties.Churn
import NeuroWealth.Vault.Properties.CircuitBreaker
import NeuroWealth.Vault.Proofs.BatchesProofs
import NeuroWealth.Vault.Properties.Batch
import NeuroWealth.Vault.Properties.Caps
import NeuroWealth.Vault.Proofs.HoldingsProofs
import NeuroWealth.Vault.Properties.AssetLedger
import NeuroWealth.Vault.Properties.LeastAuthority
import NeuroWealth.Vault.Properties.PoolRotation
import NeuroWealth.Vault.Pools
import NeuroWealth.Vault.Proofs.MarkersProofs
import NeuroWealth.ShareMath.Proofs.VaultModelProofs
import NeuroWealth.ShareMath.Invariants
import NeuroWealth.Vault.Properties.RateLimits
import NeuroWealth.Vault.Proofs.HoldersProofs
import NeuroWealth.Vault.Properties.Holders
import NeuroWealth.Vault.Properties.Principal
import NeuroWealth.Vault.Properties.Allowances
import NeuroWealth.Vault.Proofs.TrackersProofs
import NeuroWealth.Vault.Properties.Trackers
import NeuroWealth.Vault.Proofs.MarkerCallsProofs
import NeuroWealth.Vault.Properties.VenueMarker
import NeuroWealth.Vault.Properties.Solvency
import NeuroWealth.Vault.Proofs.LiquidityProofs
import NeuroWealth.Vault.Properties.Withdrawability
import NeuroWealth.Vault.Properties.Migration
import NeuroWealth.ShareMath.PlainVault
import NeuroWealth.ShareMath.Proofs.PlainVaultProofs
import NeuroWealth.ShareMath.Simulation
import NeuroWealth.Agent.AccountSequence
import NeuroWealth.Agent.Failover
import NeuroWealth.Agent.Proofs.AccountSequenceProofs
import NeuroWealth.Agent.Proofs.FailoverProofs
import NeuroWealth.Agent.RefreshTokens
import NeuroWealth.Agent.Proofs.RefreshTokensProofs
import NeuroWealth.Agent.WalletOtp
import NeuroWealth.Agent.PhoneOtp
import NeuroWealth.Agent.Proofs.WalletOtpProofs
import NeuroWealth.Agent.Proofs.PhoneOtpProofs
import NeuroWealth.Agent.TransactionDedup
import NeuroWealth.Agent.Proofs.TransactionDedupProofs
import NeuroWealth.Agent.TransactionSubmission
import NeuroWealth.Agent.Proofs.TransactionSubmissionProofs
import NeuroWealth.Foundation.Binary64
import NeuroWealth.Agent.RebalanceCall
import NeuroWealth.Agent.RebalanceSubmission
import NeuroWealth.Agent.Proofs.RebalanceSubmissionProofs
import NeuroWealth.Agent.Scheduler
import NeuroWealth.Agent.Proofs.SchedulerProofs
import NeuroWealth.Agent.Proofs.RecoveryProofs
import NeuroWealth.Agent.Proofs.StateBackupProofs
import NeuroWealth.Agent.FreezeMonitor
import NeuroWealth.Agent.Proofs.FreezeMonitorProofs
import NeuroWealth.Agent.CustodialKeypair
import NeuroWealth.Agent.Proofs.CustodialKeypairProofs
import NeuroWealth.WhatsApp.Proofs.WebhookProofs
import NeuroWealth.Agent.LoginNonce
import NeuroWealth.Agent.Proofs.LoginNonceProofs
import NeuroWealth.Bridge.Manager
import NeuroWealth.Bridge.Proofs.ManagerProofs
import NeuroWealth.Agent.EventListener
import NeuroWealth.Agent.Proofs.EventListenerProofs
import NeuroWealth.Agent.Proofs.RpcClientProofs
import NeuroWealth.Bridge.Monitor
import NeuroWealth.Bridge.Proofs.MonitorProofs
import NeuroWealth.VaultClient.EventListener
import NeuroWealth.VaultClient.Proofs.EventListenerProofs
import NeuroWealth.Vault.Properties.Payouts
import NeuroWealth.Vault.Properties.Settlement
import NeuroWealth.Vault.Proofs.MultiRebalanceProofs
import NeuroWealth.Vault.Properties.AssetWithdrawals
import NeuroWealth.Vault.Properties.HarvestRoundTrip
import NeuroWealth.Vault.Properties.ReportBacking
import NeuroWealth.Vault.Properties.BatchSummary
import NeuroWealth.Vault.Properties.MultiRebalance
import NeuroWealth.Vault.Properties.YieldAttribution
import NeuroWealth.Agent.HarvestJob
import NeuroWealth.Agent.IntentParser
import NeuroWealth.Agent.JobQueue
import NeuroWealth.Agent.Proofs.ConfirmationProofs
import NeuroWealth.Agent.Proofs.HarvestJobProofs
import NeuroWealth.Agent.Proofs.IntentParserProofs
import NeuroWealth.Agent.Proofs.JobQueueProofs
import NeuroWealth.Agent.Proofs.RebalanceRecoveryProofs
import NeuroWealth.Agent.Proofs.ReconcileProofs
import NeuroWealth.Agent.Proofs.StrategyAggregatorProofs
import NeuroWealth.Agent.Proofs.YieldComparisonProofs
import NeuroWealth.Vault.Proofs.SnapshotsProofs
import NeuroWealth.Vault.Properties.RealizedApy
import NeuroWealth.VaultClient.AmountCodec
import NeuroWealth.VaultClient.Handlers
import NeuroWealth.VaultClient.Proofs.AmountCodecProofs
import NeuroWealth.VaultClient.Proofs.HandlersProofs
import NeuroWealth.WhatsApp.Intents
import NeuroWealth.WhatsApp.Proofs.IntentsProofs
import NeuroWealth.Agent.Metrics
import NeuroWealth.Agent.Proofs.MetricsProofs
import NeuroWealth.Monitoring.Proofs.VaultMonitorProofs
import NeuroWealth.ShareMath.Conversions
import NeuroWealth.Vault.Properties.ProportionalPulls
import NeuroWealth.WhatsApp.Proofs.OnboardingProofs
import NeuroWealth.Agent.KeyManager
import NeuroWealth.Agent.Proofs.KeyManagerProofs
import NeuroWealth.Agent.Proofs.YieldCheckJobProofs
import NeuroWealth.Foundation.Coalitions
import NeuroWealth.Foundation.Recording
import NeuroWealth.Vault.Proofs.PricesProofs
import NeuroWealth.Vault.Proofs.ReplicaProofs
import NeuroWealth.Vault.Properties.Configuration
import NeuroWealth.Vault.Properties.EventLog
import NeuroWealth.Vault.Properties.PassiveHolders
import NeuroWealth.Vault.Properties.Pausing
import NeuroWealth.Vault.Properties.Previews
import NeuroWealth.Vault.Properties.TimelockRefinement
import NeuroWealth.VaultUi.Notifications
import NeuroWealth.VaultUi.Proofs.NotificationsProofs
import NeuroWealth.Frontend.DepositForm
import NeuroWealth.Frontend.Proofs.DepositFormProofs
