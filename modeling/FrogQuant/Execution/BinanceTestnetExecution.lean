import FrogQuant.Core.OrderTypes
import FrogQuant.Lib.MemberText
import FrogQuant.Lib.Ostream

/-!
# Orders to the exchange

`execution/binance_testnet_execution.cpp`: an order becomes the query text of a
signed request, and the request ends in an `ExecResult`, whose body names the
order at the exchange.
-/

namespace FrogQuant

structure ExecConfig where
  apiKey : Text
  secretKey : Text
  baseUrl : Text
  dryRun : Bool
  deriving DecidableEq

structure ExecResult where
  success : Bool
  httpStatus : ℤ
  body : Text
  error : Text
  deriving DecidableEq

structure HttpRequest where
  method : Text
  url : Text
  apiKey : Text
  body : Text
  deriving DecidableEq

/-- What becomes of a request handed to the HTTP library. -/
inductive Transfer where
  | notStarted
  | failed (httpCode : ℤ) (body error : Text)
  | done (httpCode : ℤ) (body : Text)
  deriving DecidableEq

structure OrderQuery where
  symbol : Text
  side : Text
  type : Text
  quantity : Text
  price : Option Text
  clientOrderId : Option Text
  timestamp : Text
  deriving DecidableEq

namespace BinanceTestnetExecution

def sideToStr : OrderSide → Text
  | .buy => "BUY"
  | .sell => "SELL"

def typeToStr : OrderType → Text
  | .limit => "LIMIT"
  | .market => "MARKET"

end BinanceTestnetExecution

def OrderQuery.text (q : OrderQuery) : Text :=
  "symbol=".toList ++ q.symbol ++
    "&side=".toList ++ q.side ++
    "&type=".toList ++ q.type ++
    "&quantity=".toList ++ q.quantity ++
    (match q.price with
      | none => []
      | some price => "&timeInForce=GTC".toList ++ "&price=".toList ++ price) ++
    (match q.clientOrderId with
      | none => []
      | some id => "&newClientOrderId=".toList ++ id) ++
    "&timestamp=".toList ++ q.timestamp ++
    "&recvWindow=5000".toList

namespace BinanceTestnetExecution

/-- `send_signed_request`; `hmac` is the hexadecimal HMAC-SHA256 of a text under
a key, and `transfer` what the HTTP library makes of the request. -/
def sendSignedRequest (cfg : ExecConfig) (hmac : Text → Text → Text) (transfer : Transfer)
    (method path query : Text) : ExecResult × Option HttpRequest :=
  if cfg.apiKey = [] ∨ cfg.secretKey = [] then
    (⟨false, 0, [], "api credentials are empty"⟩, none)
  else
    let body := query ++ "&signature=".toList ++ hmac cfg.secretKey query
    let url := cfg.baseUrl ++ path
    if cfg.dryRun then
      (⟨true, 200, "\x7b\"dryRun\":true,\"url\":\"".toList ++ url ++ "\"\x7d".toList, []⟩, none)
    else
      let request : HttpRequest := ⟨method, url, cfg.apiKey, body⟩
      match transfer with
      | .notStarted => (⟨false, 0, [], "curl init failed"⟩, none)
      | .failed httpCode body error => (⟨false, httpCode, body, error⟩, some request)
      | .done httpCode body =>
          (⟨200 ≤ httpCode ∧ httpCode < 300, httpCode, body, []⟩, some request)

/-- The query of `place_order`; a limit order without a price has none. -/
def orderQuery (nowMs : ℕ) (symbol : Text) (side : OrderSide) (type : OrderType) (qty : Double)
    (price : Option Double) (clientOrderId : Option Text) : Option OrderQuery :=
  let query (price : Option Text) : OrderQuery :=
    { symbol := symbol
      side := sideToStr side
      type := typeToStr type
      quantity := Ostream.showFixed 6 qty
      price := price
      clientOrderId := clientOrderId.filter (· ≠ [])
      timestamp := Decimal.showNat nowMs }
  match type, price with
  | .market, _ => some (query none)
  | .limit, none => none
  | .limit, some price => some (query (some (Ostream.showFixed 2 price)))

end BinanceTestnetExecution

/-- A call of `place_order`: the query it built, the request that went out, and
the result. -/
structure Placement where
  query : Option OrderQuery
  request : Option HttpRequest
  result : ExecResult
  deriving DecidableEq

namespace BinanceTestnetExecution

def placeOrder (cfg : ExecConfig) (hmac : Text → Text → Text) (transfer : Transfer) (nowMs : ℕ)
    (symbol : Text) (side : OrderSide) (type : OrderType) (qty : Double) (price : Option Double)
    (clientOrderId : Option Text) : Placement :=
  match orderQuery nowMs symbol side type qty price clientOrderId with
  | none => ⟨none, none, ⟨false, 0, [], "limit order requires price"⟩⟩
  | some query =>
      let (result, request) :=
        sendSignedRequest cfg hmac transfer "POST" "/fapi/v1/order" query.text
      ⟨some query, request, result⟩

/-! ## The answer -/

/-- What the loop behind the colon skips. -/
def isBlank (c : Char) : Bool := c = ' ' || c = '\n'

def extractJsonValue (json key : Text) : Text := Json.extractText isBlank json key

def parseOrderIdFromJson (body : Text) : Option Text :=
  let id := extractJsonValue body "orderId"
  if id = [] then none else some id

end BinanceTestnetExecution

end FrogQuant
