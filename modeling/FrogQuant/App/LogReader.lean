import FrogQuant.App.AppSupport
import FrogQuant.Core.AuditTrail
import FrogQuant.Lib.RoundedNumbers
import FrogQuant.Logger.LogLines

/-!
# Reading the log file

A reader of the log file takes it line by line and each line as a JSON object.
Of the lines that the core logs it gets the events back, with their numbers as
they are printed, and so the fate of every order.
-/

namespace FrogQuant.App

open Json

/-! ## The reader -/

/-- Written as it is, and one UTF-16 unit a character. -/
def isPlainChar (c : Char) : Bool := 32 ≤ c.toNat ∧ c.toNat < 128

/-- An event that its line gives back: plain texts and finite values. -/
structure ReadableEvent (ev : LogEvent Double) : Prop where
  texts : [ev.moduleName, ev.event, ev.message].all (fun t ↦ t.all isPlainChar) = true
  value1 : ev.value1.isFinite = true
  value2 : ev.value2.isFinite = true

theorem ReadableEvent.plain {ev : LogEvent Double} (h : ReadableEvent ev) {t : Text}
    (ht : t ∈ [ev.moduleName, ev.event, ev.message]) : t.all isPlainChar = true :=
  List.all_eq_true.mp h.texts t ht

/-- The numbers that an operation brings in: prices and quantities that are small
enough for their products to be finite, and ids of 64 bits. -/
def isOrdinaryOp : CoreOp Double → Bool
  | .tick _ tick => tick.price.atMost 511
  | .submit _ req => req.qty.atMost 511 && req.limitPrice.atMost 511
  | .cancel _ orderId => decide (orderId < 2 ^ 64)
  | .updateRisk _ => true

theorem atMost_lastPrice (cfg : RiskConfig Double) {ops : List (CoreOp Double)}
    (h : ∀ op ∈ ops, isOrdinaryOp op = true) :
    (TradingCore.after cfg ops).lastPrice.atMost 511 = true := by
  rw [TradingCore.lastPrice_after]
  induction ops using List.reverseRecOn with
  | nil => decide +kernel
  | append_singleton ops op ih =>
      have hop : isOrdinaryOp op = true := h op (by simp)
      rw [lastTickPrice_concat]
      cases op with
      | tick nowMs tick => exact hop
      | _ => exact ih fun op hmem ↦ h op (by simp [hmem])

theorem readable_decisionLog (nowMs : ℕ) {order : OrderRecord Double} (rr : RejectReason)
    (hid : order.orderId < 2 ^ 64) (hqty : order.qty.atMost 511 = true)
    (hprice : order.refPrice.atMost 511 = true) :
    ReadableEvent (TradingCore.decisionLog nowMs order rr) where
  texts := by cases rr <;> rfl
  value1 := by cases rr <;> exact Double.isFinite_lit_natCast hid
  value2 := by
    cases rr with
    | priceUnavailable => rfl
    | _ => exact Double.isFinite_of_atMost (Double.atMost_mul (by decide) hqty hprice)

theorem atMost_refPrice {c : TradingCore Double} (nowMs : ℕ) {req : OrderRequest Double}
    (hlast : c.lastPrice.atMost 511 = true) (hlimit : req.limitPrice.atMost 511 = true) :
    (c.newOrder nowMs req).refPrice.atMost 511 = true := by
  simp only [TradingCore.newOrder]
  split_ifs
  · exact hlimit
  · exact hlast

theorem readable_logged {c : TradingCore Double} (hfresh : c.oms.get c.nextId = none)
    (hlast : c.lastPrice.atMost 511 = true) {op : CoreOp Double} (hop : isOrdinaryOp op = true) :
    ∀ ev ∈ c.logged op, ReadableEvent ev := by
  rintro ev hev
  cases op with
  | updateRisk cfg => cases hev
  | tick nowMs tick =>
      obtain rfl := Option.some.inj hev
      refine ⟨rfl, Double.isFinite_of_atMost hop, ?_⟩
      simp only [TradingCore.onTick, makeLog]
      split_ifs <;> decide +kernel
  | cancel nowMs orderId =>
      obtain rfl := Option.some.inj hev
      have hid := Double.isFinite_lit_natCast (of_decide_eq_true hop)
      rw [TradingCore.cancelOrder_logged]
      cases (c.oms.cancel orderId).2 <;> exact ⟨rfl, hid, rfl⟩
  | submit nowMs req =>
      obtain rfl := Option.some.inj hev
      rw [isOrdinaryOp, Bool.and_eq_true] at hop
      rw [c.submitManualOrder_logged nowMs req hfresh]
      have hid : c.nextId < 2 ^ 64 := Nat.mod_lt _ (by positivity)
      exact readable_decisionLog nowMs _ hid hop.1 (atMost_refPrice nowMs hlast hop.2)

/-- An event that tells something of an order. -/
def tellsOfOrder (ev : LogEvent Double) : Prop :=
  ev.event = "order_accept".toList ∨ ev.event = "order_reject".toList ∨
    ev.event = "order_cancel".toList ∧ ev.message = "cancelled".toList

/-- The number of the order is printed as it is. -/
def ExactId (ev : LogEvent Double) : Prop :=
  tellsOfOrder ev → ev.value1.mapFinite Ostream.roundSignificant = ev.value1

theorem auditStep_of_not (id : ℕ) (fate : Option (OrderFate Double)) {ev : LogEvent Double}
    (h : ¬ tellsOfOrder ev) : auditStep id fate ev = fate := by
  rw [tellsOfOrder, not_or, not_or] at h
  rw [auditStep, if_neg h.1, if_neg h.2.1, if_neg h.2.2, ite_self]

theorem roundSignificant_natCast {n : ℕ} (h : n < 10 ^ 6) :
    Ostream.roundSignificant (n : ℚ) = n := by
  refine (Ostream.roundSignificant_eq_self_iff _).mpr ⟨n, 0, ?_, ?_⟩
  · rw [Nat.abs_cast]
    exact_mod_cast h
  · rw [zpow_zero, mul_one, Int.cast_natCast]

theorem exactId_of_value1 {ev : LogEvent Double} {n : ℕ} (h : ev.value1 = lit n)
    (hn : n < 10 ^ 6) : ExactId ev := by
  intro _
  rw [h, Double.lit_eq, Double.ofRat_natCast (by omega), Double.mapFinite,
    roundSignificant_natCast hn]

/-- Of a cancellation only the success counts, and then the order is known. -/
theorem exactId_logged {ops : List (CoreOp Double)} {c : TradingCore Double}
    (hc : TradingCore.InStep ops c) {op : CoreOp Double}
    (hn : submitCount (ops ++ [op]) < 10 ^ 6) : ∀ ev ∈ c.logged op, ExactId ev := by
  intro ev hev
  rw [submitCount_concat] at hn
  cases op with
  | updateRisk cfg => cases hev
  | tick nowMs tick =>
      obtain rfl := Option.some.inj hev
      intro htells
      exact absurd htells (by simp only [tellsOfOrder, TradingCore.onTick, makeLog]; decide)
  | submit nowMs req =>
      obtain rfl := Option.some.inj hev
      replace hn : submitCount ops + 1 < 10 ^ 6 := hn
      have hid : c.nextId = submitCount ops + 1 := hc.nextId (by omega)
      rw [c.submitManualOrder_logged nowMs req (hc.fresh (by omega))]
      refine exactId_of_value1 (n := c.nextId) ?_ (hid ▸ hn)
      cases c.verdict req <;> rfl
  | cancel nowMs orderId =>
      obtain rfl := Option.some.inj hev
      rw [TradingCore.cancelOrder_logged]
      cases hok : (c.oms.cancel orderId).2 with
      | false =>
          intro htells
          exact absurd htells (by simp only [tellsOfOrder, TradingCore.cancelLog, makeLog]; decide)
      | true =>
          obtain ⟨r, hr, -⟩ := (Oms.cancel_snd c.oms orderId).mp hok
          have hknown : orderId ≤ submitCount ops :=
            ((hc.present orderId).mp (Option.isSome_of_eq_some hr)).2
          exact exactId_of_value1 rfl (by omega)

section Stopped

open AsyncJsonlLogger

/-- An order that is cancelled and one that is too large. -/
def twoOrders : List (CoreOp Double) :=
  [.tick 1 ⟨"BTCUSDT", .finite 100, 1, 1, .webSocket⟩,
    .submit 2 ⟨"BTCUSDT", .buy, .market, .finite (1 / 20), 0⟩,
    .submit 3 ⟨"BTCUSDT", .buy, .limit, .finite 1, .finite 99⟩, .cancel 4 1, .cancel 5 2]

def lateTick : CoreOp Double := .tick 6 ⟨"BTCUSDT", .finite 101, 2, 2, .webSocket⟩

/-- The events of a run, each accepted by the queue. -/
def pushes (ops : List (CoreOp Double)) (c : TradingCore Double) : List (Thread × Action) :=
  ((coreMachine Double).collect TradingCore.logged c ops).map fun ev ↦
    (.producer 0, .push ev true)

/-- The worker drains five events, and a tick comes too late for the file. -/
def stopping : List (Thread × Action) :=
  (.stopper 0, .exchange) :: List.replicate 14 (.worker, .work 0) ++
    pushes [lateTick] (TradingCore.after .default twoOrders)

end Stopped

end FrogQuant.App
