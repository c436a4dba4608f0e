import FrogQuant.Core.OrderTypes
import FrogQuant.Lib.Strtod

/-!
# What the market clients make of a message

The parsers of `market/binance_ws_client.cpp` and
`market/binance_rest_client.cpp`: they look for a key in the text and read the
value after it with `std::stod`.
-/

namespace FrogQuant

namespace BinanceWsClient

/-- The value after `"key":`, a string or everything up to `,` or `}`; empty
when there is none. -/
def extractJsonValue (json key : Text) : Text :=
  let token := '"' :: (key ++ ['"', ':'])
  match json.find token 0 with
  | none => []
  | some pos =>
      let pos := pos + token.length
      let pos := pos + Text.spanLength Strtod.isSpace json pos
      if json[pos]? = some '"' then
        let pos := pos + 1
        match json.find ['"'] pos with
        | none => []
        | some stop => json.substr pos (stop - pos)
      else
        match json.findFirstOf [',', '}'] pos with
        | none => []
        | some stop => json.substr pos (stop - pos)

def parseTradeJson [NumberFormat] (json : Text) (nowMs : ℕ) : Option (MarketTick Double) :=
  let sym := extractJsonValue json "s"
  let p := extractJsonValue json "p"
  let e := extractJsonValue json "E"
  if sym = [] ∨ p = [] then none
  else do
    let price ← Strtod.stod p
    let exchangeTs ← if e = [] then some 0 else Strtod.stoull e
    return ⟨sym, price, exchangeTs, nowMs, .webSocket⟩

end BinanceWsClient

namespace BinanceRestClient

variable [NumberFormat]

def parsePriceJson (json : Text) : Option Double :=
  let key : Text := "\"price\":\""
  match json.find key 0 with
  | none => none
  | some pos =>
      let pos := pos + key.length
      match json.find ['"'] pos with
      | none => none
      | some stop => if stop ≤ pos then none else Strtod.stod (json.substr pos (stop - pos))

/-- `fetch_last_price`; `body` is what `http_get` returned. -/
def fetchLastPrice (symbol : Text) (body : Option Text) (nowMs : ℕ) :
    Option (MarketTick Double) := do
  let price ← parsePriceJson (← body)
  return ⟨symbol, price, 0, nowMs, .restFallback⟩

end BinanceRestClient

end FrogQuant
