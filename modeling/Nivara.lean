import Nivara.Common.Text
import Nivara.Lib.Keyed
import Nivara.Lib.Reconcile
import Nivara.Portfolio.Catalog
import Nivara.Portfolio.Session
import Nivara.Portfolio.SyncPositions
import Nivara.Portfolio.Reconciliation
import Nivara.Portfolio.SyncOrders
import Nivara.Portfolio.SyncConnection
import Nivara.Lib.Transition
import Nivara.Portfolio.OrderRuns
import Nivara.Portfolio.Idempotence
import Nivara.Portfolio.Summary
import Nivara.Portfolio.AccountRuns
import Nivara.Auth.PasswordVersion
import Nivara.Common.Decimal
import Nivara.CorporateActions.Service
import Nivara.CorporateActions.Interleaving
import Nivara.CorporateActions.Adjustment
import Nivara.Lib.Claim
import Nivara.Lib.SortedSet
import Nivara.Safety.Guardian
import Nivara.Safety.DuplicateOrder
import Nivara.Safety.ValidateAction
import Nivara.Safety.KillSwitch
import Nivara.Brokers.RateLimiter
import Nivara.Lib.Window
import Nivara.Brokers.Admissions
import Nivara.Common.Time
import Nivara.Lib.ExpiringKeys
import Nivara.Scheduling.Calendar
import Nivara.Scheduling.Scheduler
import Nivara.Scheduling.Dispatches
import Nivara.Scheduling.PostClose
import Nivara.Scheduling.SendFailures
import Nivara.Portfolio.SyncEndpoint
import Nivara.Portfolio.SyncLock
import Nivara.Lib.OneTime
import Nivara.Auth.SingleUse
import Nivara.Auth.FailurePoints
import Nivara.Auth.PasswordReset
import Nivara.Auth.Tickets
import Nivara.Auth.ResetTokens
import Nivara.Mobile.Client
import Nivara.Mobile.AuthStore
import Nivara.Portfolio.Instruments
import Nivara.Portfolio.ResolutionRuns
import Nivara.Portfolio.MappingRaces
import Nivara.Portfolio.BadRows
import Nivara.Portfolio.OneInstrument
import Nivara.Intelligence.Staleness
import Nivara.Lib.Blend
import Nivara.Safety.RiskGuardian
import Nivara.Intelligence.Synthesizer
import Nivara.Analysis.Series
import Nivara.Lib.Herfindahl
import Nivara.Intelligence.Positions
import Nivara.Portfolio.HoldingWeights
import Nivara.Analysis.Components
import Nivara.Analysis.HealthScore
import Nivara.Analysis.RiskMeter
import Nivara.Portfolio.SplitPositions
import Nivara.Lib.TwoCopies
import Nivara.Mobile.TokenStorage
import Nivara.Brokers.TokenExpiry
import Nivara.Brokers.TokenEncryption
import Nivara.Brokers.BlobIntegrity
import Nivara.Scheduling.MarketOpen
import Nivara.Common.Bytes
import Nivara.Lib.Aead
import Nivara.Analysis.Fundamental
import Nivara.Analysis.Technical
import Nivara.Intelligence.EngineResults
import Nivara.CorporateActions.BarShape
import Nivara.Intelligence.Benchmark
import Nivara.Safety.OrderHistory
import Nivara.Lib.Views
import Nivara.Analysis.IndicatorCache
import Nivara.CorporateActions.SplitCache
import Nivara.Auth.RateLimit
import Nivara.Common.Literals
import Nivara.Lib.Raises
import Nivara.Common.Json
import Nivara.MarketData.FxFallback
import Nivara.Safety.MacroAlerts
import Nivara.Analysis.Sentiment
import Nivara.MarketData.GNewsBudget
import Nivara.Intelligence.Legs
import Nivara.Intelligence.Symmetry
import Nivara.Intelligence.AiScore
import Nivara.Intelligence.StalenessGate
import Nivara.Lib.Paging
import Nivara.Safety.Pagination
import Nivara.Safety.Dispatch
import Nivara.Portfolio.HealthScoreCache
import Nivara.CorporateActions.Fills
import Nivara.Lib.Regex
import Nivara.Intelligence.Sanitizer
import Nivara.Portfolio.ResolveRaces
import Nivara.Common.Dates
import Nivara.Scheduling.NextClose
import Nivara.MarketData.Edgar
import Nivara.MarketData.BadFacts
import Nivara.MarketData.AnnualGrowth
import Nivara.Brokers.ZerodhaPositions
import Nivara.Lib.NumberText
import Nivara.Common.DecimalText
import Nivara.Safety.OrderIdentity
import Nivara.Safety.Monotonicity
import Nivara.Common.DecimalRounding
import Nivara.Safety.PositionSizer
import Nivara.Analysis.CacheFastPath
import Nivara.Analysis.TechnicalArithmetic
import Nivara.Common.FlatJson
import Nivara.Analysis.TechnicalSignals
import Nivara.Analysis.UnitFree
import Nivara.Analysis.ValueAtRisk
import Nivara.Analysis.ForwardFill
import Nivara.Analysis.Concentration
import Nivara.Analysis.OverallScores
import Nivara.Lib.AsOf
import Nivara.Portfolio.FxRates
import Nivara.Analysis.PortfolioDrawdown
import Nivara.Lib.GroupSums
import Nivara.Intelligence.Diversification
import Nivara.Analysis.MacroScore
import Nivara.MarketData.CompanyFacts
import Nivara.Analysis.DebtHealth
import Nivara.MarketData.FxRefresh
import Nivara.Common.DecimalContext
import Nivara.Intelligence.FxAttribution
import Nivara.Intelligence.AttachedNotes
import Nivara.Intelligence.BenchmarkWindow
import Nivara.Lib.Glob
import Nivara.MarketData.CacheKeys
import Nivara.Analysis.FinBertScores
import Nivara.Lib.UnitOfWork
import Nivara.Portfolio.LostRaces
import Nivara.Intelligence.Redaction
import Nivara.Intelligence.ShadowRun
import Nivara.Brokers.Waiting
import Nivara.Lib.PubSub
import Nivara.Notifications.AlertSocket
import Nivara.Lib.ReadThrough
import Nivara.MarketData.ProviderCache
import Nivara.Notifications.Devices
import Nivara.Analysis.Correlation
import Nivara.Scheduling.CalendarDrift
import Nivara.Intelligence.Recommendations
import Nivara.Intelligence.AiTasks
import Nivara.Portfolio.Credentials
import Nivara.Auth.AccessTokens
import Nivara.Analysis.RiskPanel
