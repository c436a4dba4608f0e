import FrogQuant.App.AppSupport
import FrogQuant.Core.TradingCore
import FrogQuant.Execution.BinanceTestnetExecution

/-!
# The control API

`app/control_api_router.cpp` and the tick handler of `app/runtime_loop.cpp`:
the state of the running service, what each route does to it and answers, and
what a market tick does.  The service is a machine whose events are requests
and ticks.
-/

namespace FrogQuant.App

open Json

/-- The state of the service; the two files are `none` while they cannot be
opened for reading. -/
structure ApiState where
  cfg : AppConfig
  execCfg : ExecConfig
  startMs : ℕ
  tickCount : ℕ
  lastTickMs : ℕ
  strategyEnabled : Bool
  grid : LongGridStrategy Double
  core : TradingCore Double
  riskCfg : RiskConfig Double
  events : List Text
  orders : List ApiOrderItem
  maxEvents : ℕ
  maxOrders : ℕ
  orderTrimBatch : ℕ
  credentialsFile : Option Text
  runtimeStateFile : Option Text

structure Request where
  method : Text
  target : Text
  body : Text

/-- What a request meets outside the service: the clock, which is read once,
the exchange, the files, and the integers that casts without a defined result
give. -/
structure RequestEnv where
  nowMs : ℕ
  hmac : Text → Text → Text
  transfer : Transfer
  credentialsWritable : Bool
  stateWritable : Bool
  undefInt : ℤ
  undefId : ℤ

/-- What `bootstrap` and `load_runtime_state` leave for `main` to start with. -/
structure Startup where
  cfg : AppConfig
  execCfg : ExecConfig
  startMs : ℕ
  strategyEnabled : Bool
  riskCfg : RiskConfig Double
  credentialsFile : Option Text
  runtimeStateFile : Option Text

inductive Route where
  | getHealth
  | getGridRuntime
  | getConfigEffective
  | getCredentialsStatus
  | postCredentialsUpdate
  | postGridEnable
  | postGridConfig
  | getRiskConfig
  | postRiskConfig
  | postManualOrder
  | postManualCancel
  | getOrders
  | getEvents
  deriving DecidableEq

def Route.of (method target : Text) : Option Route :=
  if method = "GET".toList ∧ target = "/health".toList then some getHealth
  else if method = "GET".toList ∧ target = "/strategy/grid/runtime".toList then
    some getGridRuntime
  else if method = "GET".toList ∧ target = "/config/effective".toList then
    some getConfigEffective
  else if method = "GET".toList ∧ target = "/credentials/status".toList then
    some getCredentialsStatus
  else if method = "POST".toList ∧ target = "/credentials/update".toList then
    some postCredentialsUpdate
  else if method = "POST".toList ∧ target = "/strategy/grid/enable".toList then
    some postGridEnable
  else if method = "POST".toList ∧ target = "/strategy/grid/config".toList then
    some postGridConfig
  else if method = "GET".toList ∧ target = "/risk/config".toList then some getRiskConfig
  else if method = "POST".toList ∧ target = "/risk/config".toList then some postRiskConfig
  else if method = "POST".toList ∧ target = "/trade/manual/order".toList then
    some postManualOrder
  else if method = "POST".toList ∧ target = "/trade/manual/cancel".toList then
    some postManualCancel
  else if method = "GET".toList ∧ "/orders".toList.isPrefixOf target then some getOrders
  else if method = "GET".toList ∧ "/events".toList.isPrefixOf target then some getEvents
  else none

/-- The answer to a request, `none` for a route that does not exist, and the
order it placed. -/
structure Reply where
  response : Option (ℕ × Text)
  placed : Option Placement

def Reply.of (status : ℕ) (body : Text) : Reply := ⟨some (status, body), none⟩

/-- The status of an answer; the server answers 404 where there is no route. -/
def Reply.status (reply : Reply) : ℕ :=
  match reply.response with
  | some (status, _) => status
  | none => 404

def Reply.Success (reply : Reply) : Prop := 200 ≤ reply.status ∧ reply.status < 300

instance : DecidablePred Reply.Success := fun reply ↦
  inferInstanceAs (Decidable (200 ≤ reply.status ∧ reply.status < 300))

theorem Reply.success_of_status {reply : Reply} (h : reply.status = 200) : reply.Success := by
  rw [Success, h]
  decide

def errorBody (code error : Text) : Text :=
  object [member "ok" "false", member "code" (quoted code), member "error" (quoted error)]

def okBody (members : List Text) : Text :=
  object (member "ok" "true" :: member "code" (quoted "OK") :: members)

def enableText (enabled : Bool) : Text := "strategy_enable=".toList ++ Ostream.showBool enabled

def intentText (gridId : ℕ) : Text := "strategy_intent grid_id=".toList ++ Decimal.showNat gridId

variable [NumberFormat]

namespace ApiState

/-- The service as `main` sets it up; the caches have least sizes. -/
def start (b : Startup) : ApiState where
  cfg := b.cfg
  execCfg := b.execCfg
  startMs := b.startMs
  tickCount := 0
  lastTickMs := 0
  strategyEnabled := b.strategyEnabled
  grid := .init b.cfg.gridDefault
  core := .init b.riskCfg
  riskCfg := b.riskCfg
  events := []
  orders := []
  maxEvents := max 1 b.cfg.maxEventsCache
  maxOrders := max 100 b.cfg.maxOrdersCache
  orderTrimBatch := max 1 b.cfg.orderTrimBatch
  credentialsFile := b.credentialsFile
  runtimeStateFile := b.runtimeStateFile

def pushEvent (s : ApiState) (e : Text) : ApiState :=
  let events := s.events ++ [e]
  { s with events := if s.maxEvents < events.length then events.tail else events }

/-- `save_runtime_state`; a file that cannot be opened stays as it is. -/
def saveRuntimeState (s : ApiState) (env : RequestEnv) : ApiState :=
  if env.stateWritable then
    { s with runtimeStateFile := some (runtimeStateText s.strategyEnabled s.riskCfg) }
  else s

def pushOrder (s : ApiState) (item : ApiOrderItem) : ApiState :=
  let orders := s.orders ++ [item]
  { s with
    orders :=
      if s.maxOrders < orders.length then orders.drop (min s.orderTrimBatch orders.length)
      else orders }

variable (s : ApiState) (env : RequestEnv) (body : Text)

/-! ## Routes that read -/

/-- A difference of two `uint64_t`. -/
def sub64 (a b : ℕ) : ℕ := (a + 2 ^ 64 - b % 2 ^ 64) % 2 ^ 64

def getHealth : Reply :=
  let now := env.nowMs
  let lastTick := s.lastTickMs
  let hasTick := decide (0 < lastTick)
  let threshold := (s.cfg.healthUnhealthyAfterNoTickSec % 2 ^ 64).toNat * 1000 % 2 ^ 64
  let stale := hasTick && decide (threshold < sub64 now lastTick)
  let healthy := !stale
  .of (if healthy then 200 else 503) <| object
    [member "ok" (Ostream.showBool healthy),
      member "api_version" (quoted "v1.2"),
      member "core" (quoted "running"),
      member "dry_run" (Ostream.showBool s.execCfg.dryRun),
      member "uptime_sec" (Decimal.showNat (sub64 now s.startMs / 1000)),
      member "tick_count" (Decimal.showNat s.tickCount),
      member "last_tick_ms" (Decimal.showNat lastTick),
      member "strategy_enabled" (Ostream.showBool s.strategyEnabled),
      member "stale_tick" (Ostream.showBool stale)]

def getGridRuntime : Reply := .of 200 (runtimeToJson s.grid.runtimeView s.strategyEnabled)

def getConfigEffective : Reply := .of 200 (effectiveConfigJson s.cfg)

def getCredentialsStatus : Reply :=
  let (k, secret) := readCredentialsFile s.credentialsFile ([], [])
  .of 200 <| object
    [member "ok" "true",
      member "api_key_set" (Ostream.showBool (s.execCfg.apiKey ≠ [] ∨ k ≠ [])),
      member "secret_set" (Ostream.showBool (s.execCfg.secretKey ≠ [] ∨ secret ≠ [])),
      member "path" (quoted s.cfg.credentialsPath)]

def getRiskConfig : Reply :=
  .of 200 <| object <| member "ok" "true" ::
    riskMembers (Ostream.stdToString s.riskCfg.maxSingleOrderNotionalUsd)
      (Ostream.stdToString s.riskCfg.maxPositionRatio)
      (Ostream.stdToString s.riskCfg.dailyLossStopRatio)

def orderItemJson (o : ApiOrderItem) : Text :=
  object
    [member "internal_id" (Decimal.showNat o.internalId),
      member "status" (quoted o.status),
      member "reject_reason" (quoted o.rejectReason),
      member "ts_ms" (Decimal.showNat o.tsMs)]

def getOrders : Reply :=
  .of 200 (object [member "ok" "true", member "items" (array (s.orders.map orderItemJson))])

def getEvents : Reply :=
  .of 200 (object [member "ok" "true", member "items" (array (s.events.map quoted))])

/-! ## Routes that write -/

def postCredentialsUpdate : ApiState × Reply :=
  let k := (jsonGetString body "api_key").getD []
  let secret := (jsonGetString body "secret_key").getD []
  if k = [] ∨ secret = [] then
    (s, .of 400 (errorBody "E_BAD_REQUEST" "api_key and secret_key required"))
  else if env.credentialsWritable then
    let s := { s with credentialsFile := some (credentialsText k secret) }
    (s.pushEvent "credentials_updated(restart_required)",
      .of 200 (okBody [member "restart_required" "true"]))
  else (s, .of 500 (errorBody "E_WRITE_FAILED" "cannot write credentials file"))

def postGridEnable : ApiState × Reply :=
  match jsonGetBool body "enabled" with
  | none => (s, .of 400 (errorBody "E_BAD_REQUEST" "enabled(boolean) required"))
  | some en =>
      let s := { s with strategyEnabled := en }
      let s := s.saveRuntimeState env
      (s.pushEvent (enableText en), .of 200 (okBody [member "enabled" (Ostream.showBool en)]))

def postGridConfig : ApiState × Reply :=
  let g := s.grid.runtimeView.config
  let g : LongGridConfig Double :=
    { levels := (jsonGetInt env.undefInt body "levels").getD g.levels
      orderQty := (jsonGetNumber body "order_qty").getD g.orderQty
      takeProfitRatio := (jsonGetNumber body "take_profit_ratio").getD g.takeProfitRatio
      dynamicEnabled := (jsonGetBool body "dynamic_enabled").getD g.dynamicEnabled
      recenterThresholdRatio :=
        (jsonGetNumber body "recenter_threshold_ratio").getD g.recenterThresholdRatio
      bandRatio := (jsonGetNumber body "band_ratio").getD g.bandRatio }
  if g.levels < 2 ∨ 200 < g.levels then
    (s, .of 400 (errorBody "E_CFG_LEVELS_RANGE" "levels must be in [2,200]"))
  else if g.orderQty ≤ 0 ∨ lit 1000 < g.orderQty then
    (s, .of 400 (errorBody "E_CFG_QTY_RANGE" "order_qty must be in (0,1000]"))
  else
    let s := { s with grid := s.grid.updateConfig g }
    (s.pushEvent "grid_config_updated", .of 200 (okBody []))

def requestedRisk : RiskConfig Double where
  maxSingleOrderNotionalUsd :=
    (jsonGetNumber body "max_single_order_notional_usd").getD s.riskCfg.maxSingleOrderNotionalUsd
  maxPositionRatio :=
    (jsonGetNumber body "max_position_ratio").getD s.riskCfg.maxPositionRatio
  dailyLossStopRatio :=
    (jsonGetNumber body "daily_loss_stop_ratio").getD s.riskCfg.dailyLossStopRatio

def riskOutOfRange (next : RiskConfig Double) : Prop :=
  next.maxSingleOrderNotionalUsd ≤ 0 ∨ next.maxPositionRatio ≤ 0 ∨
    lit 1 < next.maxPositionRatio ∨ next.dailyLossStopRatio ≤ 0 ∨
    lit 1 < next.dailyLossStopRatio

instance : DecidablePred riskOutOfRange := fun next ↦
  inferInstanceAs (Decidable (next.maxSingleOrderNotionalUsd ≤ 0 ∨ next.maxPositionRatio ≤ 0 ∨
    lit 1 < next.maxPositionRatio ∨ next.dailyLossStopRatio ≤ 0 ∨
    lit 1 < next.dailyLossStopRatio))

def postRiskConfig : ApiState × Reply :=
  let next := s.requestedRisk body
  if riskOutOfRange next then (s, .of 400 (errorBody "E_RISK_RANGE" "invalid risk ranges"))
  else
    let s := { s with riskCfg := next, core := s.core.updateRiskConfig next }
    let s := s.saveRuntimeState env
    (s.pushEvent "risk_config_updated", .of 200 (okBody []))

def manualRequest : OrderRequest Double where
  symbol := (jsonGetString body "symbol").getD s.cfg.symbol
  side := if (jsonGetString body "side").getD "BUY" = "SELL".toList then .sell else .buy
  type := if (jsonGetString body "type").getD "MARKET" = "LIMIT".toList then .limit else .market
  qty := (jsonGetNumber body "qty").getD 0
  limitPrice := (jsonGetNumber body "price").getD 0

def clientOrderId (id : ℕ) : Text := "qt_".toList ++ Decimal.showNat id

def placeManual (req : OrderRequest Double) (id : ℕ) : Placement :=
  BinanceTestnetExecution.placeOrder s.execCfg env.hmac env.transfer env.nowMs req.symbol req.side
    req.type req.qty (if req.type = .limit then some req.limitPrice else none)
    (some (clientOrderId id))

def orderMissing : ℕ × Text := (500, errorBody "E_INTERNAL" "order missing after submit")

def postManualOrder : ApiState × Reply :=
  let req := s.manualRequest body
  if req.qty ≤ 0 then (s, .of 400 (errorBody "E_BAD_QTY" "qty must be > 0"))
  else
    let (core, id, _) := s.core.submitManualOrder env.nowMs req
    let s := { s with core := core }
    match core.getOrder id with
    | none => (s, ⟨some orderMissing, none⟩)
    | some ord =>
        let s := s.pushOrder ⟨id, statusToStr ord.status, rejectToStr ord.rejectReason, env.nowMs⟩
        let s := s.pushEvent ("manual_order id=".toList ++ Decimal.showNat id)
        (s,
          { response := some (200, okBody
              [member "internal_order_id" (Decimal.showNat id),
                member "status" (quoted (statusToStr ord.status)),
                member "reject_reason" (quoted (rejectToStr ord.rejectReason))])
            placed := if ord.status = .accepted then some (s.placeManual env req id) else none })

def cancelId (env : RequestEnv) (x : Double) : ℕ :=
  (castInt 0 (2 ^ 64 - 1) env.undefId x % 2 ^ 64).toNat

def postManualCancel : ApiState × Reply :=
  match jsonGetNumber body "internal_order_id" with
  | none => (s, .of 400 (errorBody "E_BAD_REQUEST" "internal_order_id required"))
  | some x =>
      let id := cancelId env x
      let (core, ok, _) := s.core.cancelOrder env.nowMs id
      let s := { s with core := core }
      (s.pushEvent ("manual_cancel id=".toList ++ Decimal.showNat id),
        if ok then .of 200 (okBody [member "status" (quoted "Cancelled")])
        else .of 400 (errorBody "E_CANCEL_FAILED" "cancel failed"))

/-! ## Dispatch -/

def answer (route : Option Route) : ApiState × Reply :=
  match route with
  | some .getHealth => (s, s.getHealth env)
  | some .getGridRuntime => (s, s.getGridRuntime)
  | some .getConfigEffective => (s, s.getConfigEffective)
  | some .getCredentialsStatus => (s, s.getCredentialsStatus)
  | some .postCredentialsUpdate => s.postCredentialsUpdate env body
  | some .postGridEnable => s.postGridEnable env body
  | some .postGridConfig => s.postGridConfig env body
  | some .getRiskConfig => (s, s.getRiskConfig)
  | some .postRiskConfig => s.postRiskConfig env body
  | some .postManualOrder => s.postManualOrder env body
  | some .postManualCancel => s.postManualCancel env body
  | some .getOrders => (s, s.getOrders)
  | some .getEvents => (s, s.getEvents)
  | none => (s, ⟨none, none⟩)

def handle (req : Request) : ApiState × Reply :=
  s.answer env req.body (Route.of req.method req.target)

/-- The tick handler of the runtime loop. -/
def handleTick (nowMs : ℕ) (t : MarketTick Double) : ApiState :=
  let s := { s with
    tickCount := s.tickCount + 1
    lastTickMs := nowMs
    core := (s.core.onTick nowMs t).1 }
  if s.strategyEnabled then
    let (grid, intents) := s.grid.onPriceTick t.price
    intents.foldl (fun s it ↦ s.pushEvent (intentText it.gridId)) { s with grid := grid }
  else s

end ApiState

/-! ## The service as a machine -/

inductive ApiEvent where
  | request (env : RequestEnv) (req : Request)
  | tick (nowMs : ℕ) (t : MarketTick Double)

def apiMachine : Machine ApiState ApiEvent (Option Reply) where
  step s e :=
    match e with
    | .request env req =>
        let (s', reply) := s.handle env req
        (s', some reply)
    | .tick nowMs t => (s.handleTick nowMs t, none)

end FrogQuant.App
