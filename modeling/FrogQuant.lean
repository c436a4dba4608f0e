import FrogQuant.Lib.Machine
import FrogQuant.Lib.Drain
import FrogQuant.Lib.Threads
import FrogQuant.Lib.Mutex
import FrogQuant.Lib.Fairness
import FrogQuant.Lib.LockOrder
import FrogQuant.Lib.Floating
import FrogQuant.Lib.Rounding
import FrogQuant.Lib.Text
import FrogQuant.Lib.Delimited
import FrogQuant.Lib.Decimal
import FrogQuant.Lib.Binary64
import FrogQuant.Lib.Strtod
import FrogQuant.Lib.Checked
import FrogQuant.Lib.Numeral
import FrogQuant.Lib.Ostream
import FrogQuant.Lib.Significant
import FrogQuant.Lib.FlatJson
import FrogQuant.Lib.QuotedTexts
import FrogQuant.Lib.WrittenJson
import FrogQuant.Lib.JsonTree
import FrogQuant.Lib.MemberText
import FrogQuant.Lib.PrintedNumber
import FrogQuant.Lib.EscapedText
import FrogQuant.Lib.Store
import FrogQuant.Lib.Slots
import FrogQuant.Lib.Recent
import FrogQuant.Lib.Reported
import FrogQuant.Lib.Renumber
import FrogQuant.Core.OrderTypes
import FrogQuant.Logger.AsyncJsonlLogger
import FrogQuant.Logger.LogLines
import FrogQuant.Core.Oms
import FrogQuant.Core.OmsHistory
import FrogQuant.Core.RiskEngine
import FrogQuant.Core.TradingCore
import FrogQuant.Core.Exposure
import FrogQuant.Core.Journal
import FrogQuant.Core.Valuation
import FrogQuant.Core.RejectedOrders
import FrogQuant.Core.AuditTrail
import FrogQuant.Strategy.LongGridStrategy
import FrogQuant.Strategy.OpenLevels
import FrogQuant.Strategy.LifeCycle
import FrogQuant.Strategy.OpenCycles
import FrogQuant.Strategy.FillTracking
import FrogQuant.Strategy.LongOnly
import FrogQuant.Strategy.GridShape
import FrogQuant.Strategy.CycleProfit
import FrogQuant.Strategy.WithoutFills
import FrogQuant.Strategy.TickSpec
import FrogQuant.Strategy.TradableLevels
import FrogQuant.Strategy.FlatMarket
import FrogQuant.Market.BinanceClients
import FrogQuant.Market.RiskGate
import FrogQuant.Execution.BinanceTestnetExecution
import FrogQuant.Market.ExchangeMessages
import FrogQuant.Control.LocalHttpServer
import FrogQuant.App.AppSupport
import FrogQuant.App.ControlApiRouter
import FrogQuant.App.Effects
import FrogQuant.App.ServiceRuns
import FrogQuant.App.ExchangeAgreement
import FrogQuant.App.OrderText
import FrogQuant.App.OrderParameters
import FrogQuant.App.JsonNumber
import FrogQuant.App.NumberCasts
import FrogQuant.App.FieldReaders
import FrogQuant.App.StatedOrders
import FrogQuant.App.Bootstrap
import FrogQuant.App.ConfigText
import FrogQuant.App.ConfigSettings
import FrogQuant.App.ConfigEdits
import FrogQuant.App.LiveTrading
import FrogQuant.App.RefusedRequests
import FrogQuant.App.OrdersList
import FrogQuant.App.GridUpdates
import FrogQuant.App.Settings
import FrogQuant.App.RiskRange
import FrogQuant.App.RuntimeState
import FrogQuant.App.RuntimeSnapshot
import FrogQuant.App.OperatorLimits
import FrogQuant.App.Restarts
import FrogQuant.App.OffSwitch
import FrogQuant.App.Health
import FrogQuant.App.Credentials
import FrogQuant.App.CheckedReaders
import FrogQuant.App.EventFeed
import FrogQuant.App.GridRuns
import FrogQuant.App.FiniteGrid
import FrogQuant.App.Answers
import FrogQuant.App.LogReader
import FrogQuant.App.Process
import FrogQuant.App.ProcessLog
import FrogQuant.App.GridLock
import FrogQuant.App.GridThreads
import FrogQuant.App.Shutdown
import FrogQuant.App.HandlerLocks
import FrogQuant.App.IntentFeed
import FrogQuant.App.Placements
import FrogQuant.App.LogProgress
import FrogQuant.App.MarketThreads
