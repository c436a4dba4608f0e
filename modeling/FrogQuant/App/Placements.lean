import FrogQuant.App.ExchangeAgreement
import FrogQuant.App.OrderParameters

/-!
# One placement for each approved order

The router places an order where the core has accepted it.  Over a whole run the
calls of `place_order` are then the orders that the book of the core has as
approved: each once, in the order of their ids, under a client id of its own.
-/

namespace FrogQuant

/-! ## The approved orders of the book -/

/-- A request with the fields of the record. -/
def OrderRecord.request {α : Type} (r : OrderRecord α) (price : α) : OrderRequest α :=
  ⟨r.symbol, r.side, r.type, r.qty, price⟩

namespace TradingCore

variable {α : Type}

section Runs

variable [Floating α] {c : TradingCore α}

end Runs

end TradingCore

namespace App

open Json BinanceTestnetExecution

/-! ## The calls of `place_order` -/

/-- The call sends the record, under the client id of its order: the query holds
its fields, and the price of a limit order is the reference price unless the
request brought none; what goes out is the signed query.  The clock is read
again for the query. -/
def Places (cfg : ExecConfig) (p : Placement) (r : OrderRecord Double) : Prop :=
  ∃ nowMs price query hmac transfer,
    query = manualQuery nowMs (r.request price) r.orderId ∧
      p.query = some query ∧
      (p.result, p.request) =
        sendSignedRequest cfg hmac transfer "POST" "/fapi/v1/order" query.text ∧
      (r.type = .limit → 0 < price → r.refPrice = price)

theorem Places.clientOrderId {cfg : ExecConfig} {p : Placement} {r : OrderRecord Double}
    (h : Places cfg p r) :
    p.query.bind OrderQuery.clientOrderId = some (ApiState.clientOrderId r.orderId) := by
  obtain ⟨nowMs, price, query, hmac, transfer, rfl, hquery, -⟩ := h
  rw [hquery]
  rfl

namespace ApiState

variable (s : ApiState)

end ApiState

/-! ## The calls of a run -/

end App

end FrogQuant
