import FrogQuant.Core.Journal

/-!
# The price an order is valued at

The core keeps one price for all symbols: the last tick of any instrument.  A
market order is valued at it whatever its own symbol is.
-/

namespace FrogQuant

variable {α : Type}

/-- The price of the last tick of a relevant symbol, if there has been one. -/
def lastPriceWhere (relevant : Text → Bool) (ops : List (CoreOp α)) : Option α :=
  ops.foldl
    (fun p op ↦ match op with
      | .tick _ t => if relevant t.symbol then some t.price else p
      | _ => p) none

theorem lastPriceWhere_concat (relevant : Text → Bool) (ops : List (CoreOp α)) (op : CoreOp α) :
    lastPriceWhere relevant (ops ++ [op]) =
      match op with
      | .tick _ t => if relevant t.symbol then some t.price else lastPriceWhere relevant ops
      | _ => lastPriceWhere relevant ops := by
  simp only [lastPriceWhere, List.foldl_append, List.foldl_cons, List.foldl_nil]

theorem lastPriceWhere_congr {relevant relevant' : Text → Bool} {ops : List (CoreOp α)}
    (h : ∀ nowMs t, CoreOp.tick nowMs t ∈ ops → relevant t.symbol = relevant' t.symbol) :
    lastPriceWhere relevant ops = lastPriceWhere relevant' ops := by
  induction ops using List.reverseRecOn with
  | nil => rfl
  | append_singleton ops op ih =>
      have hprefix := ih fun nowMs t ht ↦ h nowMs t (List.mem_append_left _ ht)
      rw [lastPriceWhere_concat, lastPriceWhere_concat]
      cases op with
      | tick nowMs t => simp only [h nowMs t (by simp), hprefix]
      | submit nowMs req => exact hprefix
      | cancel nowMs id => exact hprefix
      | updateRisk cfg => exact hprefix

theorem lastTickPrice_eq_getD [Zero α] (ops : List (CoreOp α)) :
    lastTickPrice ops = (lastPriceWhere (fun _ ↦ true) ops).getD 0 := by
  induction ops using List.reverseRecOn with
  | nil => rfl
  | append_singleton ops op ih =>
      rw [lastTickPrice_concat, lastPriceWhere_concat]
      cases op with
      | tick nowMs t => rfl
      | submit nowMs req => exact ih
      | cancel nowMs id => exact ih
      | updateRisk cfg => exact ih

namespace TradingCore

variable [Floating α]

/-- A market order submitted after `pre` is valued at the last tick that is
relevant to its symbol: an accepted one carries its price, and with no such tick
the order is rejected for want of a price.  A submission enters an order when
its id is free. -/
def OrderValuedBy (relevant : Text → Text → Bool) (cfg : RiskConfig α)
    (pre : List (CoreOp α)) (nowMs : ℕ) (req : OrderRequest α) (post : List (CoreOp α)) : Prop :=
  req.type = .market → (after cfg pre).getOrder (after cfg pre).nextId = none →
    ∃ r, (after cfg (pre ++ .submit nowMs req :: post)).getOrder (after cfg pre).nextId = some r ∧
      r.symbol = req.symbol ∧
      (r.status = .accepted → lastPriceWhere (relevant r.symbol) pre = some r.refPrice) ∧
      (lastPriceWhere (relevant r.symbol) pre = none →
        r.status = .rejected ∧ r.rejectReason = .priceUnavailable)

def MarketOrdersValuedBy (relevant : Text → Text → Bool) (cfg : RiskConfig α)
    (ops : List (CoreOp α)) : Prop :=
  ∀ pre nowMs req post, ops = pre ++ .submit nowMs req :: post →
    OrderValuedBy relevant cfg pre nowMs req post

def anySymbol : Text → Text → Bool := fun _ _ ↦ true

def ownSymbol : Text → Text → Bool := fun symbol symbol' ↦ decide (symbol' = symbol)

theorem verdict_market_of_no_tick (cfg : RiskConfig α) (pre : List (CoreOp α))
    {req : OrderRequest α} (hmarket : req.type = .market)
    (hnone : lastPriceWhere (fun _ ↦ true) pre = none) :
    (after cfg pre).verdict req = .priceUnavailable := by
  have hprice : ((after cfg pre).newOrder 0 req).refPrice = 0 := by
    simp [newOrder, hmarket, lastPrice_after, lastTickPrice_eq_getD, hnone]
  apply verdict_of_price _ 0 req
  rw [hprice]
  exact Floating.zero_le_zero

theorem marketOrdersValuedBy_anySymbol (cfg : RiskConfig α) (ops : List (CoreOp α)) :
    MarketOrdersValuedBy anySymbol cfg ops := by
  rintro pre nowMs req post rfl hmarket hfresh
  have hnoTick := verdict_market_of_no_tick cfg pre hmarket
  refine ⟨_, getOrder_of_fresh cfg post nowMs req hfresh, ?_, fun hacc ↦ ?_, fun hnone ↦ ?_⟩
  · split_ifs <;> rfl
  · split_ifs at hacc with hcancel
    rw [settle_status_eq_accepted_iff] at hacc
    rw [if_neg hcancel]
    cases hlast : lastPriceWhere (fun _ ↦ true) pre with
    | none => simp [hnoTick hlast] at hacc
    | some p =>
        have hprice : (after cfg pre).lastPrice = p := by
          rw [lastPrice_after, lastTickPrice_eq_getD, hlast, Option.getD_some]
        change lastPriceWhere (fun _ ↦ true) pre = _
        simp [hlast, newOrder, hmarket, hprice]
  · have hv := hnoTick hnone
    simp [hv]

/-- A market order is valued at the last tick before it, of whatever symbol;
so where the ticks before it carry the symbol of the order this is its own
price. -/
theorem market_orders_valued_at_last_tick (cfg : RiskConfig α) (ops : List (CoreOp α)) :
    MarketOrdersValuedBy anySymbol cfg ops ∧
      ∀ pre nowMs req post, ops = pre ++ .submit nowMs req :: post →
        (∀ nowMs' t, .tick nowMs' t ∈ pre → t.symbol = req.symbol) →
          OrderValuedBy ownSymbol cfg pre nowMs req post := by
  have hany := marketOrdersValuedBy_anySymbol cfg ops
  refine ⟨hany, fun pre nowMs req post hops hone hmarket hfresh ↦ ?_⟩
  obtain ⟨r, hr, hsymbol, hacc, hnone⟩ := hany pre nowMs req post hops hmarket hfresh
  have hsame : lastPriceWhere (ownSymbol r.symbol) pre = lastPriceWhere (anySymbol r.symbol) pre :=
    lastPriceWhere_congr fun nowMs' t ht ↦ by
      simp [ownSymbol, anySymbol, hone nowMs' t ht, hsymbol]
  exact ⟨r, hr, hsymbol, by rwa [hsame], by rwa [hsame]⟩

/-- A tick of one instrument prices an order for another. -/
theorem market_order_valued_at_other_symbol :
    ¬ ∀ (cfg : RiskConfig ℚ) (ops : List (CoreOp ℚ)), MarketOrdersValuedBy ownSymbol cfg ops := by
  intro h
  let tick : MarketTick ℚ := ⟨"BTCUSDT", 60000, 1, 1, .webSocket⟩
  let order : OrderRequest ℚ := ⟨"ETHUSDT", .buy, .market, 1 / 10000, 0⟩
  obtain ⟨r, hr, -, -, hnone⟩ :=
    h .default [.tick 1 tick, .submit 2 order] [.tick 1 tick] 2 order [] rfl rfl
      (by decide +kernel)
  have haccepted : (after .default [.tick 1 tick, .submit 2 order]).getOrder 1 =
      some ⟨1, "ETHUSDT", .buy, .market, 1 / 10000, 60000, .accepted, .none, 2⟩ := by
    decide +kernel
  obtain rfl := Option.some.inj (haccepted.symm.trans hr)
  exact absurd (hnone (by decide +kernel)).1 (by decide)

end TradingCore

end FrogQuant
