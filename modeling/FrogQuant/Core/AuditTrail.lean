import FrogQuant.Core.Journal

/-!
# The log as an audit trail

Every operation of the core but a change of the limits logs one event.  From
these events alone, read in order, an auditor knows what became of every order:
the decision, the reason, the notional and the cancellation.
-/

namespace FrogQuant

variable {α : Type}

/-! ## What the core logs -/

namespace TradingCore

variable [Floating α]

/-- The event that an operation logs. -/
def logged (c : TradingCore α) : CoreOp α → Option (LogEvent α)
  | .tick nowMs tick => some (c.onTick nowMs tick).2
  | .submit nowMs req => some (c.submitManualOrder nowMs req).2.2
  | .cancel nowMs id => some (c.cancelOrder nowMs id).2.2
  | .updateRisk _ => none

/-- The event of a decision. -/
def decisionLog (nowMs : ℕ) (order : OrderRecord α) : RejectReason → LogEvent α
  | .none =>
      makeLog nowMs .info "core" "order_accept" "order accepted" (lit order.orderId)
        (order.qty * order.refPrice)
  | .priceUnavailable =>
      makeLog nowMs .warn "core" "order_reject" "price unavailable" (lit order.orderId) 0
  | rr =>
      makeLog nowMs .warn "core" "order_reject" (rrToStr rr) (lit order.orderId)
        (order.qty * order.refPrice)

/-- The event of a cancellation. -/
def cancelLog (nowMs orderId : ℕ) (ok : Bool) : LogEvent α :=
  makeLog nowMs (if ok then .info else .warn) "core" "order_cancel"
    (if ok then "cancelled" else "cancel_failed") (lit orderId) 0

theorem cancelOrder_logged (c : TradingCore α) (nowMs orderId : ℕ) :
    (c.cancelOrder nowMs orderId).2.2 = cancelLog nowMs orderId (c.oms.cancel orderId).2 := rfl

theorem checkPreTrade_ne_priceUnavailable (cfg : RiskConfig α) (order : OrderRecord α)
    (account : AccountSnapshot α) : checkPreTrade cfg order account ≠ .priceUnavailable := by
  simp only [checkPreTrade]
  split_ifs <;> decide

/-- A fresh submission logs its decision. -/
theorem submitManualOrder_logged (c : TradingCore α) (nowMs : ℕ) (req : OrderRequest α)
    (h : c.oms.get c.nextId = none) :
    (c.submitManualOrder nowMs req).2.2 =
      decisionLog nowMs (c.newOrder nowMs req) (c.verdict req) := by
  have hsubmit := Oms.submit_fresh (c.newOrder nowMs req) h
  by_cases hprice : (c.newOrder nowMs req).refPrice ≤ 0
  · rw [c.verdict_of_price nowMs req hprice]
    simp only [submitManualOrder, hprice, if_true]
    rfl
  · rw [c.verdict_of_no_price nowMs req hprice]
    have hne := checkPreTrade_ne_priceUnavailable c.risk (c.newOrder nowMs req) c.account
    simp only [submitManualOrder, hprice, if_false, hsubmit]
    cases hrr : checkPreTrade c.risk (c.newOrder nowMs req) c.account with
    | priceUnavailable => exact absurd hrr hne
    | _ => rfl

end TradingCore

/-! ## The auditor -/

/-- What became of an order, as far as the log tells. -/
structure OrderFate (α : Type) where
  status : OrderStatus
  reason : RejectReason
  notional : α
  deriving DecidableEq

/-- What the message of a rejection means. -/
def reasonOfMessage (message : Text) : RejectReason :=
  if message = "price unavailable".toList then .priceUnavailable
  else
    ([.maxSingleOrderNotional, .maxPositionRatio, .dailyLossStop].find? fun rr ↦
      decide (rrToStr rr = message)).getD .none

/-- One event read by an auditor who follows the order `id`. -/
def auditStep (id : ℕ) (fate : Option (OrderFate Double)) (ev : LogEvent Double) :
    Option (OrderFate Double) :=
  if ev.value1 = lit id then
    if ev.event = "order_accept".toList then some ⟨.accepted, .none, ev.value2⟩
    else if ev.event = "order_reject".toList then
      some ⟨.rejected, reasonOfMessage ev.message, ev.value2⟩
    else if ev.event = "order_cancel".toList ∧ ev.message = "cancelled".toList then
      fate.map fun fate ↦ { fate with status := .cancelled }
    else fate
  else fate

def audit (id : ℕ) (trail : List (LogEvent Double)) : Option (OrderFate Double) :=
  trail.foldl (auditStep id) none

/-- What the log should tell of a record: a rejection for want of a price gives
no notional. -/
def OrderRecord.fate (r : OrderRecord Double) : OrderFate Double where
  status := r.status
  reason := r.rejectReason
  notional := if r.rejectReason = .priceUnavailable then 0 else r.qty * r.refPrice

/-! ## The events of each operation -/

theorem lit_eq_lit_iff {m : ℕ} (hm : m < 2 ^ 53) (n : ℕ) : (lit m : Double) = lit n ↔ n = m := by
  rw [Double.lit_eq, Double.lit_eq, Double.ofRat_natCast_inj hm, eq_comm]

section Steps

variable (id : ℕ) (fate : Option (OrderFate Double)) (nowMs : ℕ)

theorem auditStep_tick (c : TradingCore Double) (tick : MarketTick Double) :
    auditStep id fate (c.onTick nowMs tick).2 = fate := by
  have haccept : ("tick" : Text).take 23 ≠ "order_accept".toList := by decide
  have hreject : ("tick" : Text).take 23 ≠ "order_reject".toList := by decide
  have hcancel : ("tick" : Text).take 23 ≠ "order_cancel".toList := by decide
  simp only [auditStep, TradingCore.onTick, makeLog, haccept, hreject, hcancel, false_and, if_false,
    ite_self]

/-- A decision settles the fate of its own order. -/
theorem auditStep_decision {order : OrderRecord Double} (horder : order.orderId < 2 ^ 53)
    (rr : RejectReason) :
    auditStep id fate (TradingCore.decisionLog nowMs order rr) =
      if id = order.orderId then some (TradingCore.settle order rr).fate else fate := by
  have hid := lit_eq_lit_iff horder id
  have hvalue : (TradingCore.decisionLog nowMs order rr).value1 = lit order.orderId := by
    cases rr <;> rfl
  rw [auditStep, hvalue]
  by_cases h : id = order.orderId
  · rw [if_pos (hid.mpr h), if_pos h]
    cases rr <;> rfl
  · rw [if_neg (mt hid.mp h), if_neg h]

/-- A cancellation counts if it was answered with success. -/
theorem auditStep_cancel {orderId : ℕ} {ok : Bool} (horder : ok = true → orderId < 2 ^ 53) :
    auditStep id fate (TradingCore.cancelLog nowMs orderId ok) =
      if id = orderId ∧ ok = true then fate.map fun fate ↦ { fate with status := .cancelled }
      else fate := by
  have hvalue : (TradingCore.cancelLog (α := Double) nowMs orderId ok).value1 = lit orderId := rfl
  rw [auditStep, hvalue]
  cases ok with
  | false =>
      have hfails : ¬ (id = orderId ∧ false = true) := fun hboth ↦ Bool.false_ne_true hboth.2
      rw [if_neg hfails]
      exact ite_self fate
  | true =>
      have hid := lit_eq_lit_iff (horder rfl) id
      by_cases h : id = orderId
      · rw [if_pos (hid.mpr h)]
        exact (if_pos ⟨h, rfl⟩).symm
      · rw [if_neg (mt hid.mp h), if_neg fun hboth ↦ h hboth.1]

end Steps

namespace TradingCore

/-- A cancellation moves a record as the auditor moves its fate. -/
theorem fate_cancel (c : TradingCore Double) (id orderId : ℕ) :
    ((c.oms.cancel orderId).1.get id).map OrderRecord.fate =
      if id = orderId ∧ (c.oms.cancel orderId).2 = true then
        ((c.oms.get id).map OrderRecord.fate).map fun fate ↦ { fate with status := .cancelled }
      else (c.oms.get id).map OrderRecord.fate := by
  rw [Oms.get_cancel]
  by_cases hid : id = orderId
  · subst hid
    rw [if_pos rfl]
    by_cases hok : (c.oms.cancel id).2 = true
    · obtain ⟨r, hr, hacc⟩ := (Oms.cancel_snd c.oms id).mp hok
      rw [if_pos ⟨rfl, hok⟩, hr]
      simp only [Option.map_some, hacc, if_true, OrderRecord.fate]
    · have hnot : ∀ r, c.oms.get id = some r → r.status ≠ .accepted := fun r hr hacc ↦
        hok ((Oms.cancel_snd c.oms id).mpr ⟨r, hr, hacc⟩)
      rw [if_neg fun hboth ↦ hok hboth.2]
      cases hget : c.oms.get id with
      | none => rfl
      | some r => simp only [Option.map_some, hnot r hget, if_false]
  · rw [if_neg hid, if_neg fun hboth ↦ hid hboth.1]

/-- One operation moves the auditor and the records alike. -/
theorem auditStep_next {ops : List (CoreOp Double)} {c : TradingCore Double} (hc : InStep ops c)
    {op : CoreOp Double} (hn : submitCount (ops ++ [op]) < 2 ^ 53) (id : ℕ) :
    (c.logged op).toList.foldl (auditStep id) ((c.getOrder id).map OrderRecord.fate) =
      (((coreMachine Double).next c op).getOrder id).map OrderRecord.fate := by
  rw [submitCount_concat] at hn
  cases op with
  | tick nowMs tick => exact auditStep_tick id _ nowMs c tick
  | updateRisk cfg => rfl
  | cancel nowMs orderId =>
      have hknown : (c.oms.cancel orderId).2 = true → orderId < 2 ^ 53 := by
        intro hok
        obtain ⟨r, hr, -⟩ := (Oms.cancel_snd c.oms orderId).mp hok
        have hpresent := (hc.present orderId).mp (Option.isSome_of_eq_some hr)
        omega
      exact (auditStep_cancel id _ nowMs hknown).trans (c.fate_cancel id orderId).symm
  | submit nowMs req =>
      replace hn : submitCount ops + 1 < 2 ^ 53 := hn
      have hfresh := hc.fresh (by omega)
      have hid : (c.newOrder nowMs req).orderId = c.nextId := rfl
      have horder : (c.newOrder nowMs req).orderId < 2 ^ 53 := by
        rw [hid, hc.nextId (by omega)]
        exact hn
      change auditStep id _ (c.submitManualOrder nowMs req).2.2 = _
      rw [c.submitManualOrder_logged nowMs req hfresh, auditStep_decision _ _ _ horder, next_submit,
        c.submitManualOrder_fresh nowMs req hfresh, hid]
      simp only [getOrder, Oms.get_insert]
      split_ifs <;> rfl

end TradingCore

end FrogQuant
