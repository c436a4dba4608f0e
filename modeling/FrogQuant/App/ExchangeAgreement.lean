import FrogQuant.App.ServiceRuns
import Mathlib.Data.Finset.Basic

/-!
# The order store and the exchange

The exchange is the set of the orders that are live on it.  A call that
succeeds moves it, and a run of the service moves both sides.  They agree when
the live orders are those the store has as `Accepted`.
-/

namespace FrogQuant

/-- A call to the exchange and whether it succeeded. -/
inductive ExchangeCall where
  | place (clientOrderId : Text) (success : Bool)
  | cancel (clientOrderId : Text) (success : Bool)

def ExchangeCall.apply (live : Finset Text) : ExchangeCall → Finset Text
  | .place id true => insert id live
  | .cancel id true => live.erase id
  | _ => live

namespace BinanceTestnetExecution

/-- The exchange takes the orders of a configuration: there are credentials,
and the request is a dry run or is answered with a success code. -/
def TakesOrder (cfg : ExecConfig) (transfer : Transfer) : Prop :=
  cfg.apiKey ≠ [] ∧ cfg.secretKey ≠ [] ∧
    (cfg.dryRun = true ∨
      ∃ httpCode body, transfer = .done httpCode body ∧ 200 ≤ httpCode ∧ httpCode < 300)

theorem sendSignedRequest_success_iff (cfg : ExecConfig) (hmac : Text → Text → Text)
    (transfer : Transfer) (method path query : Text) :
    (sendSignedRequest cfg hmac transfer method path query).1.success = true ↔
      TakesOrder cfg transfer := by
  by_cases hkeys : cfg.apiKey = [] ∨ cfg.secretKey = []
  · have hnot : ¬ TakesOrder cfg transfer := fun h ↦ hkeys.elim h.1 h.2.1
    simp [sendSignedRequest, hkeys, hnot]
  · obtain ⟨hk, hs⟩ := not_or.mp hkeys
    cases hdry : cfg.dryRun with
    | true => simp [sendSignedRequest, TakesOrder, hk, hs, hdry]
    | false => cases transfer <;> simp [sendSignedRequest, TakesOrder, hk, hs, hdry]

end BinanceTestnetExecution

namespace App

open Json

/-- The calls that an answer made to the exchange; no route cancels there. -/
def Reply.calls (reply : Reply) : List ExchangeCall :=
  match reply.placed with
  | some ⟨some query, _, result⟩ => query.clientOrderId.toList.map (.place · result.success)
  | _ => []

structure Trading where
  api : ApiState
  live : Finset Text

def tradingMachine : Machine Trading ApiEvent (Option Reply) where
  step t e :=
    let (api, reply) := apiMachine.step t.api e
    (⟨api, ((reply.map Reply.calls).getD []).foldl ExchangeCall.apply t.live⟩, reply)

abbrev trading (b : Startup) (es : List ApiEvent) : Trading :=
  tradingMachine.run ⟨.start b, ∅⟩ es

namespace Trading

/-- The orders live on the exchange are those the store has as `Accepted`. -/
def Agree (t : Trading) : Prop :=
  ∀ id, ApiState.clientOrderId id ∈ t.live ↔
    ∃ r, t.api.core.getOrder id = some r ∧ r.status = .accepted

/-- A request that keeps the two sides in step: an order that the core accepts
is taken by the exchange, and no accepted order is cancelled. -/
def KeepsStep (t : Trading) : ApiEvent → Prop
  | .tick _ _ => True
  | .request env req =>
      match Route.of req.method req.target with
      | some .postManualOrder =>
          ¬ (t.api.manualRequest req.body).qty ≤ 0 →
            t.api.core.getOrder t.api.core.nextId = none →
              t.api.core.verdict (t.api.manualRequest req.body) = .none →
                BinanceTestnetExecution.TakesOrder t.api.execCfg env.transfer
      | some .postManualCancel =>
          ∀ x, jsonGetNumber req.body "internal_order_id" = some x →
            ∀ r, t.api.core.getOrder (ApiState.cancelId env x) = some r → r.status ≠ .accepted
      | _ => True

variable {t t' : Trading}

theorem agree_congr (hlive : t'.live = t.live)
    (horders : ∀ id, t'.api.core.getOrder id = t.api.core.getOrder id) :
    t'.Agree ↔ t.Agree := by
  simp only [Agree, hlive, horders]

theorem clientOrderId_inj {id id' : ℕ} :
    ApiState.clientOrderId id = ApiState.clientOrderId id' ↔ id = id' := by
  simp [ApiState.clientOrderId, Decimal.showNat_injective.eq_iff]

end Trading

namespace ApiState

variable (s : ApiState) (env : RequestEnv) (body : Text)

theorem answer_placed {route : Option Route} (h : route ≠ some .postManualOrder) :
    (s.answer env body route).2.placed = none := by
  rcases route with _ | route
  · rfl
  cases route with
  | postManualOrder => exact absurd rfl h
  | postCredentialsUpdate =>
      simp only [answer, postCredentialsUpdate]
      split_ifs <;> rfl
  | postGridEnable =>
      simp only [answer, postGridEnable]
      split <;> rfl
  | postGridConfig =>
      simp only [answer, postGridConfig]
      split_ifs <;> rfl
  | postRiskConfig =>
      simp only [answer, postRiskConfig]
      split_ifs <;> rfl
  | postManualCancel =>
      simp only [answer, postManualCancel]
      split
      · rfl
      · split_ifs <;> rfl
  | _ => rfl

theorem routeOp?_oms {route : Option Route} (horder : route ≠ some .postManualOrder)
    (hcancel : route ≠ some .postManualCancel) {op : CoreOp Double}
    (hop : s.routeOp? env body route = some op) :
    ((coreMachine Double).next s.core op).oms = s.core.oms := by
  rcases route with _ | route
  · cases hop
  cases route with
  | postManualOrder => exact absurd rfl horder
  | postManualCancel => exact absurd rfl hcancel
  | postRiskConfig =>
      simp only [routeOp?] at hop
      split_ifs at hop
      obtain rfl := Option.some.inj hop
      rfl
  | _ => cases hop

theorem calls_placeManual (response : Option (ℕ × Text)) (req : OrderRequest Double) (id : ℕ) :
    ∃ success, (success = true ↔ BinanceTestnetExecution.TakesOrder s.execCfg env.transfer) ∧
      Reply.calls ⟨response, some (s.placeManual env req id)⟩ =
        [.place (clientOrderId id) success] := by
  have hquery : ∃ query, BinanceTestnetExecution.orderQuery env.nowMs req.symbol req.side req.type
      req.qty (if req.type = .limit then some req.limitPrice else none)
      (some (clientOrderId id)) = some query ∧ query.clientOrderId = some (clientOrderId id) := by
    cases req.type <;> exact ⟨_, rfl, rfl⟩
  obtain ⟨query, hq, hid⟩ := hquery
  refine ⟨_, BinanceTestnetExecution.sendSignedRequest_success_iff s.execCfg env.hmac env.transfer
    "POST" "/fapi/v1/order" query.text, ?_⟩
  simp only [Reply.calls, placeManual, BinanceTestnetExecution.placeOrder, hq, hid]
  rfl

end ApiState

namespace Trading

variable {t : Trading}

@[simp] theorem next_api (e : ApiEvent) :
    (tradingMachine.next t e).api = apiMachine.next t.api e := rfl

theorem next_live_request (env : RequestEnv) (req : Request) :
    (tradingMachine.next t (.request env req)).live =
      (t.api.answer env req.body (Route.of req.method req.target)).2.calls.foldl
        ExchangeCall.apply t.live := rfl

theorem next_live_of_route (env : RequestEnv) {req : Request}
    (h : Route.of req.method req.target ≠ some .postManualOrder) :
    (tradingMachine.next t (.request env req)).live = t.live := by
  simp [next_live_request, Reply.calls, t.api.answer_placed env req.body h]

theorem next_live_order (env : RequestEnv) {req : Request}
    (hroute : Route.of req.method req.target = some .postManualOrder) (hc : t.api.core.Settled)
    (hqty : ¬ (t.api.manualRequest req.body).qty ≤ 0) :
    ∃ ord, (tradingMachine.next t (.request env req)).api.core.getOrder t.api.core.nextId =
        some ord ∧
      ∀ id, ApiState.clientOrderId id ∈ (tradingMachine.next t (.request env req)).live ↔
        ApiState.clientOrderId id ∈ t.live ∨
          id = t.api.core.nextId ∧ ord.status = .accepted ∧
            BinanceTestnetExecution.TakesOrder t.api.execCfg env.transfer := by
  obtain ⟨ord, hord, hreply⟩ := t.api.postManualOrder_reply env req.body hc hqty
  refine ⟨ord, ?_, fun id ↦ ?_⟩
  · rw [next_api, ApiState.core_next]
    simpa [ApiState.coreOp?, hroute, ApiState.routeOp?, hqty] using hord
  · rw [next_live_request, hroute]
    simp only [ApiState.answer, hreply]
    by_cases hacc : ord.status = .accepted
    · obtain ⟨success, hsuccess, hcalls⟩ := t.api.calls_placeManual env
        (some (200, okBody
            [member "internal_order_id" (Decimal.showNat t.api.core.nextId),
              member "status" (quoted (statusToStr ord.status)),
              member "reject_reason" (quoted (rejectToStr ord.rejectReason))]))
        (t.api.manualRequest req.body) t.api.core.nextId
      rw [if_pos hacc, hcalls]
      cases success <;>
        simp_all [ExchangeCall.apply, clientOrderId_inj, or_comm]
    · simp [hacc, Reply.calls]

theorem Agree.next_of_orders (h : t.Agree) {e : ApiEvent}
    (hlive : (tradingMachine.next t e).live = t.live)
    (horders : ∀ op, t.api.coreOp? e = some op →
      ((coreMachine Double).next t.api.core op).oms = t.api.core.oms) :
    (tradingMachine.next t e).Agree := by
  refine (agree_congr hlive fun id ↦ ?_).mpr h
  rw [next_api, ApiState.core_next]
  cases hop : t.api.coreOp? e with
  | none => rfl
  | some op => exact congrArg (Oms.get · id) (horders op hop)

theorem agree_next_cancel_iff (h : t.Agree) {e : ApiEvent} {nowMs id : ℕ}
    (hlive : (tradingMachine.next t e).live = t.live)
    (hop : t.api.coreOp? e = some (.cancel nowMs id)) :
    (tradingMachine.next t e).Agree ↔
      ∀ r, t.api.core.getOrder id = some r → r.status ≠ .accepted := by
  have hget : ∀ id', (tradingMachine.next t e).api.core.getOrder id' =
      if id' = id then (t.api.core.getOrder id).map fun r ↦
        if r.status = .accepted then { r with status := .cancelled } else r
      else t.api.core.getOrder id' := by
    intro id'
    rw [next_api, ApiState.core_next, hop]
    exact t.api.core.oms.get_cancel id id'
  constructor
  · intro hnext r hr hacc
    obtain ⟨r', hr', hacc'⟩ := (hnext id).mp (hlive ▸ (h id).mpr ⟨r, hr, hacc⟩)
    rw [hget, if_pos rfl, hr, Option.map_some, if_pos hacc] at hr'
    obtain rfl := Option.some.inj hr'
    cases hacc'
  · intro hr
    refine (agree_congr hlive fun id' ↦ ?_).mpr h
    rw [hget]
    split_ifs with hid
    · subst hid
      cases hget : t.api.core.getOrder id' with
      | none => rfl
      | some r => rw [Option.map_some, if_neg (hr r hget)]
    · rfl

theorem agree_next_order_iff (hc : t.api.core.Settled) (h : t.Agree) {env : RequestEnv}
    {req : Request} (hroute : Route.of req.method req.target = some .postManualOrder)
    (hqty : ¬ (t.api.manualRequest req.body).qty ≤ 0) :
    (tradingMachine.next t (.request env req)).Agree ↔
      (t.api.core.getOrder t.api.core.nextId = none →
        t.api.core.verdict (t.api.manualRequest req.body) = .none →
          BinanceTestnetExecution.TakesOrder t.api.execCfg env.transfer) := by
  obtain ⟨ord, hord, hlive⟩ := next_live_order env hroute hc hqty
  have hcore : (tradingMachine.next t (.request env req)).api.core =
      (t.api.core.submitManualOrder env.nowMs (t.api.manualRequest req.body)).1 := by
    simp [ApiState.core_next, ApiState.coreOp?, hroute, ApiState.routeOp?, hqty]
  rw [hcore] at hord
  simp only [Agree, hlive, hcore]
  cases hfresh : t.api.core.getOrder t.api.core.nextId with
  | some r =>
      rw [t.api.core.submitManualOrder_taken _ _ hc hfresh] at hord ⊢
      obtain rfl := Option.some.inj (hfresh.symm.trans hord)
      simp only [reduceCtorEq, false_imp_iff, iff_true]
      refine fun id ↦ Iff.trans (or_iff_left_of_imp ?_) (h id)
      -- the record under the taken id is live already
      rintro ⟨rfl, hacc, -⟩
      exact (h _).mpr ⟨r, hfresh, hacc⟩
  | none =>
      have hdead : ApiState.clientOrderId t.api.core.nextId ∉ t.live := fun hmem ↦ by
        obtain ⟨r, hr, -⟩ := (h _).mp hmem
        exact absurd (hfresh.symm.trans hr) (by simp)
      rw [t.api.core.submitManualOrder_fresh _ _ hfresh] at hord ⊢
      simp only [TradingCore.getOrder, Oms.get_insert, if_true, Option.some.injEq] at hord ⊢
      subst hord
      simp only [TradingCore.settle_status_eq_accepted_iff, true_imp_iff]
      constructor
      · intro hnext hv
        have hmem := (hnext t.api.core.nextId).mpr
          ⟨_, if_pos rfl, (TradingCore.settle_status_eq_accepted_iff _ _).mpr hv⟩
        exact (hmem.resolve_left hdead).2.2
      · intro htakes id
        by_cases hid : id = t.api.core.nextId
        · subst hid
          simp only [hdead, false_or, true_and, if_true, Option.some.injEq, exists_eq_left',
            TradingCore.settle_status_eq_accepted_iff]
          exact and_iff_left_of_imp htakes
        · simp only [hid, if_false, false_and, or_false]
          exact h id

/-- Where the two sides agree, a step keeps them so exactly if it meets the
condition. -/
theorem agree_next_iff (hc : t.api.core.Settled) (h : t.Agree) (e : ApiEvent) :
    (tradingMachine.next t e).Agree ↔ t.KeepsStep e := by
  cases e with
  | tick nowMs tick =>
      refine iff_of_true (h.next_of_orders rfl ?_) trivial
      rintro op hop
      obtain rfl := Option.some.inj hop
      rfl
  | request env req =>
      by_cases horder : Route.of req.method req.target = some .postManualOrder
      · by_cases hqty : (t.api.manualRequest req.body).qty ≤ 0
        · have hlive : (tradingMachine.next t (.request env req)).live = t.live := by
            simp [next_live_request, horder, ApiState.answer, ApiState.postManualOrder, hqty,
              Reply.of, Reply.calls]
          refine iff_of_true (h.next_of_orders hlive fun op hop ↦ ?_) ?_
          · simp [ApiState.coreOp?, horder, ApiState.routeOp?, hqty] at hop
          · simp [KeepsStep, horder, hqty]
        · simp only [KeepsStep, horder, hqty, not_false_eq_true, true_imp_iff]
          exact agree_next_order_iff hc h horder hqty
      · have hlive := next_live_of_route (t := t) env horder
        by_cases hcancel : Route.of req.method req.target = some .postManualCancel
        · have hop : t.api.coreOp? (.request env req) =
              (jsonGetNumber req.body "internal_order_id").map fun x ↦
                .cancel env.nowMs (ApiState.cancelId env x) := by
            simp only [ApiState.coreOp?, hcancel, ApiState.routeOp?]
          simp only [KeepsStep, hcancel]
          cases hx : jsonGetNumber req.body "internal_order_id" with
          | none =>
              refine iff_of_true (h.next_of_orders hlive fun op hop' ↦ ?_) (by simp)
              rw [hop, hx] at hop'
              cases hop'
          | some x =>
              rw [hx] at hop
              simp only [Option.some.injEq, forall_eq']
              exact agree_next_cancel_iff h hlive hop
        · refine iff_of_true (h.next_of_orders hlive fun op hop ↦ ?_) ?_
          · exact t.api.routeOp?_oms env req.body horder hcancel hop
          · simp only [KeepsStep]

theorem agree_start (b : Startup) : Agree ⟨.start b, ∅⟩ := by
  intro id
  simp [ApiState.start, TradingCore.init, TradingCore.getOrder]

end Trading

/-- In every state of a run the store and the exchange agree, exactly if every
order that the core accepts on the way is taken by the exchange and no accepted
order is cancelled. -/
theorem store_agrees_with_exchange_iff (b : Startup) (es : List ApiEvent) :
    (∀ xs, xs <+: es → (trading b xs).Agree) ↔
      tradingMachine.AllSteps Trading.KeepsStep ⟨.start b, ∅⟩ es := by
  rw [tradingMachine.forall_prefix_iff_allSteps (Trading.agree_start b)]
  refine tradingMachine.allSteps_congr (fun t ↦ t.Agree ∧ t.api.core.Settled)
    (fun t e h ↦ Trading.agree_next_iff h.2 h.1 e) (fun t e h hkeeps ↦ ?_) es
    ⟨Trading.agree_start b, TradingCore.settled_init b.riskCfg⟩
  exact ⟨(Trading.agree_next_iff h.2 h.1 e).mpr hkeeps, t.api.settled_next h.2 e⟩

/-- The cancel route leaves the order live on the exchange. -/
theorem cancelled_order_stays_live :
    ¬ (trading liveStartup
      [.request (quietEnv 1) ⟨"POST", "/trade/manual/order",
          "\x7b\"type\":\"LIMIT\",\"qty\":1,\"price\":5\x7d"⟩,
        .request (quietEnv 2) ⟨"POST", "/trade/manual/cancel",
          "\x7b\"internal_order_id\":1\x7d"⟩]).Agree := by
  intro h
  have hlive := h 1
  revert hlive
  decide +kernel

end App

end FrogQuant
