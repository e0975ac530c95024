import HoodSentry.Alert.Watchlists
import HoodSentry.Api.ApiKeyLimit
import HoodSentry.Api.ApiKeyQuota
import HoodSentry.Api.QuoteCache
import HoodSentry.Api.Quotes
import HoodSentry.Api.TokenEntitlement
import HoodSentry.Api.TransactionIntents
import HoodSentry.Chain.Failover
import HoodSentry.Chain.HalfOpen
import HoodSentry.Chain.RateLimits
import HoodSentry.Chain.Reverts
import HoodSentry.Chain.SwapDirections
import HoodSentry.Database.CursorPages
import HoodSentry.Database.Idempotency
import HoodSentry.Discovery.CircularVolume
import HoodSentry.Discovery.CurrentSnapshots
import HoodSentry.Discovery.FeedPages
import HoodSentry.Discovery.StoredItems
import HoodSentry.Indexer.Backfill
import HoodSentry.Indexer.CanonicalFacts
import HoodSentry.Indexer.Checkpoint
import HoodSentry.Indexer.GapScan
import HoodSentry.Indexer.JobKeys
import HoodSentry.Indexer.LinkedChain
import HoodSentry.Indexer.PairCreations
import HoodSentry.Indexer.PoolBackfill
import HoodSentry.Indexer.PrunedFindings
import HoodSentry.Market.BondingCurves
import HoodSentry.Market.Candles
import HoodSentry.Market.MetricLaws
import HoodSentry.Market.PoolState
import HoodSentry.Market.UnusablePrices
import HoodSentry.Model.Decimal
import HoodSentry.Observability.Redaction
import HoodSentry.Portfolio.AccountingIdentity
import HoodSentry.Providers.PublicAddresses
import HoodSentry.Providers.RequestSpacing
import HoodSentry.Queue.CacheLocks
import HoodSentry.Risk.CanonicalEncoding
import HoodSentry.Risk.HolderStatistics
import HoodSentry.Risk.Inheritance
import HoodSentry.Risk.OracleRules
import HoodSentry.Risk.ProxyLayers
import HoodSentry.Risk.RelationshipGraphs
import HoodSentry.Risk.RepeatedExecutions
import HoodSentry.Risk.RuleIsolation
import HoodSentry.Risk.ScoreLaws
import HoodSentry.Risk.Selectors
import HoodSentry.Risk.Signatures
import HoodSentry.Risk.StateVariables
import HoodSentry.Risk.TokenPlaces
import HoodSentry.Risk.WrittenVariables
import HoodSentry.Worker.AlertEvaluation
import HoodSentry.Worker.DeliveryTries
import HoodSentry.Worker.HolderBalances
import HoodSentry.Worker.LiquidityAcceptance
import HoodSentry.Worker.LotBalances
import HoodSentry.Worker.OrphanedRows
import HoodSentry.Worker.PricingReorg
import HoodSentry.Worker.RiskFindings
import HoodSentry.Worker.SourceDisagreements
import HoodSentry.Worker.TokenMetadata
import HoodSentry.Worker.WalletState
