import FrogQuant.Core.OrderTypes

/-!
# Pre-trade risk checks

`core/risk_engine.cpp`.
-/

namespace FrogQuant

variable {α : Type} [Floating α]

/-- `RiskEngine::check_pre_trade`; `cfg` is the configuration the engine
holds. -/
def checkPreTrade (cfg : RiskConfig α) (order : OrderRecord α) (account : AccountSnapshot α) :
    RejectReason :=
  let notional := fabs (order.qty * order.refPrice)
  if cfg.maxSingleOrderNotionalUsd < notional then .maxSingleOrderNotional
  else
    let maxPositionAllowed := account.equityUsd * cfg.maxPositionRatio
    if maxPositionAllowed < account.positionNotionalUsd + notional then .maxPositionRatio
    else
      let dayLossRatio :=
        if 0 < account.equityUsd then account.dayLossUsd / account.equityUsd else lit 1
      if cfg.dailyLossStopRatio ≤ dayLossRatio then .dailyLossStop else .none

theorem checkPreTrade_eq_none_iff (cfg : RiskConfig α) (order : OrderRecord α)
    (account : AccountSnapshot α) :
    checkPreTrade cfg order account = .none ↔
      ¬ cfg.maxSingleOrderNotionalUsd < fabs (order.qty * order.refPrice) ∧
      ¬ account.equityUsd * cfg.maxPositionRatio <
        account.positionNotionalUsd + fabs (order.qty * order.refPrice) ∧
      ¬ cfg.dailyLossStopRatio ≤
        (if 0 < account.equityUsd then account.dayLossUsd / account.equityUsd else lit 1) := by
  simp only [checkPreTrade]
  split_ifs <;> simp_all

theorem checkPreTrade_congr (cfg : RiskConfig α) {order order' : OrderRecord α}
    (account : AccountSnapshot α) (hqty : order.qty = order'.qty)
    (href : order.refPrice = order'.refPrice) :
    checkPreTrade cfg order account = checkPreTrade cfg order' account := by
  simp only [checkPreTrade, hqty, href]

end FrogQuant
