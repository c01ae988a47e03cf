import SmartyTrader.Agents.BooksAddUp
import SmartyTrader.Agents.ControlPlane
import SmartyTrader.Agents.CycleLock
import SmartyTrader.Agents.LedgerRestart
import SmartyTrader.Agents.MarketHours
import SmartyTrader.Agents.OutcomeAccounting
import SmartyTrader.Agents.PaperRestart
import SmartyTrader.Agents.StoredOrders
import SmartyTrader.Agents.SymbolLock
import SmartyTrader.Agents.TimeStops
import SmartyTrader.Analysis.Baselines
import SmartyTrader.Analysis.ContextCards
import SmartyTrader.Analysis.Indicators
import SmartyTrader.Analysis.SummarizerPrompt
import SmartyTrader.Core.BarTiming
import SmartyTrader.Core.BookRuns
import SmartyTrader.Core.ContextRefresh
import SmartyTrader.Core.Drawdown
import SmartyTrader.Core.EventGuard
import SmartyTrader.Core.GateMonotone
import SmartyTrader.Core.LlmCalls
import SmartyTrader.Core.Performance
import SmartyTrader.Core.ReplayGuard
import SmartyTrader.Core.ReplayPricing
import SmartyTrader.Core.Retention
import SmartyTrader.Core.RiskRestart
import SmartyTrader.Core.StoredOverrides
import SmartyTrader.Core.Summarizer
import SmartyTrader.Core.TightenOnly
import SmartyTrader.Core.TradedSet
import SmartyTrader.Core.TruncatedAnswer
import SmartyTrader.Core.WatchlistBounds
import SmartyTrader.Dashboard.Launcher
import SmartyTrader.Data.CcxtProvider
import SmartyTrader.Execution.BookingPaths
import SmartyTrader.Execution.ExitLevels
import SmartyTrader.Execution.LedgerConservation
import SmartyTrader.Execution.MaxPositions
import SmartyTrader.Execution.NeverOversell
import SmartyTrader.Execution.PaperSolvency
import SmartyTrader.Execution.PlannedOrders
import SmartyTrader.Execution.ProtectiveKept
import SmartyTrader.Execution.SaxoAuth
import SmartyTrader.Execution.SaxoReconciliation
import SmartyTrader.Execution.SplitSales
import SmartyTrader.Storage.News
