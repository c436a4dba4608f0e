import FrogQuant.Lib.Floating
import FrogQuant.Lib.Text

/-!
# Orders, risk settings and log events

The data types of `core/order_types.hpp`, `market/market_types.hpp` and
`logger/log_event.hpp`, over any number type.
-/

namespace FrogQuant

inductive OrderSide where
  | buy
  | sell
  deriving DecidableEq

inductive OrderType where
  | market
  | limit
  deriving DecidableEq

/-- `New -> Accepted -> Cancelled` or `New -> Rejected`. -/
inductive OrderStatus where
  | new
  | accepted
  | rejected
  | cancelled
  deriving DecidableEq

inductive RejectReason where
  | none
  | maxSingleOrderNotional
  | maxPositionRatio
  | dailyLossStop
  | priceUnavailable
  deriving DecidableEq

inductive TickSource where
  | webSocket
  | restFallback
  deriving DecidableEq

variable (α : Type)

structure OrderRequest where
  symbol : Text
  side : OrderSide
  type : OrderType
  qty : α
  limitPrice : α
  deriving DecidableEq

structure OrderRecord where
  orderId : ℕ
  symbol : Text
  side : OrderSide
  type : OrderType
  qty : α
  refPrice : α
  status : OrderStatus
  rejectReason : RejectReason
  createTsMs : ℕ
  deriving DecidableEq

structure RiskConfig where
  maxSingleOrderNotionalUsd : α
  maxPositionRatio : α
  dailyLossStopRatio : α
  deriving DecidableEq

structure AccountSnapshot where
  equityUsd : α
  positionNotionalUsd : α
  dayLossUsd : α
  deriving DecidableEq

structure MarketTick where
  symbol : Text
  price : α
  exchangeTs : ℕ
  recvTs : ℕ
  source : TickSource
  deriving DecidableEq

inductive LogLevel where
  | debug
  | info
  | warn
  | error
  deriving DecidableEq

/-- A log event; the texts are what the fixed-size buffers hold before their
terminating NUL. -/
structure LogEvent where
  tsMs : ℕ
  level : LogLevel
  moduleName : Text
  event : Text
  message : Text
  value1 : α
  value2 : α
  deriving DecidableEq

variable {α} [Floating α]

def RiskConfig.default : RiskConfig α := ⟨lit 10, lit 0.80, lit 0.05⟩

def AccountSnapshot.default : AccountSnapshot α := ⟨lit 1000, 0, 0⟩

/-- `make_log`: `strncpy` keeps what fits the buffers. -/
def makeLog (nowMs : ℕ) (level : LogLevel) (moduleName event message : Text)
    (v1 v2 : α) : LogEvent α where
  tsMs := nowMs
  level := level
  moduleName := moduleName.take 23
  event := event.take 23
  message := message.take 159
  value1 := v1
  value2 := v2

end FrogQuant
