import FrogQuant.App.FiniteGrid
import FrogQuant.App.OrdersList

/-!
# Every answer is a JSON object

The service writes its answers by hand.  Where the texts of its configuration
need no escapes and the numbers are finite, a JSON reader reads each of them,
and finds under `ok` whether the status is 200.
-/

namespace FrogQuant.App

open Json

/-! ## Objects that tell whether the request succeeded -/

/-- A text that is read as an object. -/
def IsObject (t : Text) : Prop := ∃ ms, read t = some (.object ms)

/-- A text that is read as an object whose first member is the flag `ok`. -/
def TellsOk (ok : Bool) (t : Text) : Prop :=
  ∃ ms, read t = some (.object (("ok".toList, .bool ok) :: ms))

theorem TellsOk.isObject {ok : Bool} {t : Text} (h : TellsOk ok t) : IsObject t :=
  h.imp' _ fun _ h ↦ h

section Members

variable {N : Type} (leaves : Leaves N) (ms : List (Word × Tree Word N))

theorem exists_evalMembers (h : ∀ m ∈ ms, (m.2.eval leaves).isSome = true) :
    ∃ vs, evalMembers leaves ms = some vs := by
  rw [← Option.isSome_iff_exists]
  have hobject := (isSome_eval_object leaves ms).mpr h
  rwa [Tree.eval, Option.isSome_map] at hobject

theorem isObject_of_members (h : ∀ m ∈ ms, (m.2.eval leaves).isSome = true) :
    IsObject ((Tree.object ms).text leaves) := by
  obtain ⟨vs, hvs⟩ := exists_evalMembers leaves ms h
  exact ⟨vs, by rw [read_text, eval_object, hvs]; rfl⟩

theorem tellsOk_of_members (ok : Bool) (h : ∀ m ∈ ms, (m.2.eval leaves).isSome = true) :
    TellsOk ok ((Tree.object ((⟨"ok", by decide⟩, .bool ok) :: ms)).text leaves) := by
  obtain ⟨vs, hvs⟩ := exists_evalMembers leaves ms h
  refine ⟨vs, ?_⟩
  rw [read_text, eval_object, evalMembers, hvs, eval_bool]
  rfl

end Members

/-! ## The answers -/

/-- The texts of a configuration that the answers quote. -/
structure LiteralTexts (cfg : AppConfig) : Prop where
  symbol : cfg.symbol.all isLiteral = true
  execBaseUrl : cfg.execBaseUrl.all isLiteral = true
  logPath : cfg.logPath.all isLiteral = true
  credentialsPath : cfg.credentialsPath.all isLiteral = true
  runtimeStatePath : cfg.runtimeStatePath.all isLiteral = true

/-- The numbers of a configuration that the answers print, and those of the
first grid. -/
structure FiniteSettings (cfg : AppConfig) : Prop where
  notional : cfg.riskMaxSingleOrderNotionalUsd.isFinite = true
  positionRatio : cfg.riskMaxPositionRatio.isFinite = true
  lossStopRatio : cfg.riskDailyLossStopRatio.isFinite = true
  grid : cfg.gridDefault.Moderate

/-- The answer tells by its flag whether its status is 200. -/
def Reply.Tells (reply : Reply) : Prop :=
  ∃ status body, reply.response = some (status, body) ∧ TellsOk (decide (status = 200)) body

theorem tells_error {status : ℕ} (hstatus : status ≠ 200) {code error : Text}
    (hcode : code.all isLiteral = true) (herror : error.all isLiteral = true) :
    (Reply.of status (errorBody code error)).Tells := by
  refine ⟨status, _, rfl, ?_⟩
  rw [decide_eq_false hstatus]
  exact tellsOk_of_members printedLeaves
    [(⟨"code", by decide⟩, .string ⟨code, hcode⟩), (⟨"error", by decide⟩, .string ⟨error, herror⟩)]
    false (by simp)

theorem tellsOk_okBody (ms : List (Word × Tree Word Printed))
    (h : ∀ m ∈ ms, (m.2.eval printedLeaves).isSome = true) :
    TellsOk true (okBody (memberTexts printedLeaves ms)) :=
  tellsOk_of_members printedLeaves
    ((⟨"code", by decide⟩, .string ⟨"OK", by decide⟩) :: ms) true
    (List.forall_mem_cons.mpr ⟨rfl, h⟩)

namespace ApiState

variable {s : ApiState} (env : RequestEnv) (body : Text)

/-! ## Routes that read -/

theorem tells_getHealth : (s.getHealth env).Tells := by
  obtain ⟨stale, hreply⟩ : ∃ stale, s.getHealth env = .of (if !stale then 200 else 503) (object
      [member "ok" (Ostream.showBool !stale),
        member "api_version" (quoted "v1.2"),
        member "core" (quoted "running"),
        member "dry_run" (Ostream.showBool s.execCfg.dryRun),
        member "uptime_sec" (Decimal.showNat (sub64 env.nowMs s.startMs / 1000)),
        member "tick_count" (Decimal.showNat s.tickCount),
        member "last_tick_ms" (Decimal.showNat s.lastTickMs),
        member "strategy_enabled" (Ostream.showBool s.strategyEnabled),
        member "stale_tick" (Ostream.showBool stale)]) := ⟨_, rfl⟩
  have hstatus : decide ((if !stale then 200 else 503) = 200) = !stale := by cases stale <;> rfl
  rw [hreply]
  refine ⟨_, _, rfl, ?_⟩
  rw [hstatus]
  simp only [showNat_eq_showInt]
  exact tellsOk_of_members printedLeaves
    [(⟨"api_version", by decide⟩, .string ⟨"v1.2", by decide⟩),
      (⟨"core", by decide⟩, .string ⟨"running", by decide⟩),
      (⟨"dry_run", by decide⟩, .bool s.execCfg.dryRun),
      (⟨"uptime_sec", by decide⟩, .number (.int (sub64 env.nowMs s.startMs / 1000 : ℕ))),
      (⟨"tick_count", by decide⟩, .number (.int s.tickCount)),
      (⟨"last_tick_ms", by decide⟩, .number (.int s.lastTickMs)),
      (⟨"strategy_enabled", by decide⟩, .bool s.strategyEnabled),
      (⟨"stale_tick", by decide⟩, .bool stale)] _ (by simp)

theorem isObject_getGridRuntime (h : s.FiniteNumbers) :
    ∃ body, s.getGridRuntime = .of 200 body ∧ IsObject body := by
  refine ⟨_, rfl, ?_⟩
  have htree := (isSome_eval_runtimeTree s.grid.runtimeView s.strategyEnabled).mpr h.grid.allFinite
  rw [← text_runtimeTree]
  exact isObject_of_members _ _ ((isSome_eval_object _ _).mp htree)

theorem isObject_getConfigEffective (htexts : LiteralTexts s.cfg)
    (hnumbers : FiniteSettings s.cfg) :
    ∃ body, s.getConfigEffective = .of 200 body ∧ IsObject body := by
  refine ⟨_, rfl, ?_⟩
  have hgrid := hnumbers.grid
  rw [effectiveConfigJson, ← text_gridConfigTree]
  simp only [showNat_eq_showInt]
  exact isObject_of_members printedLeaves
    [(⟨"engine", by decide⟩, .object
      [(⟨"symbol", by decide⟩, .string ⟨s.cfg.symbol, htexts.symbol⟩),
        (⟨"market_poll_ms", by decide⟩, .number (.int s.cfg.marketPollMs)),
        (⟨"control_port", by decide⟩, .number (.int s.cfg.controlPort))]),
    (⟨"risk", by decide⟩, .object
      [(⟨"max_single_order_notional_usd", by decide⟩,
          .number (.double s.cfg.riskMaxSingleOrderNotionalUsd)),
        (⟨"max_position_ratio", by decide⟩, .number (.double s.cfg.riskMaxPositionRatio)),
        (⟨"daily_loss_stop_ratio", by decide⟩, .number (.double s.cfg.riskDailyLossStopRatio))]),
    (⟨"execution", by decide⟩, .object
      [(⟨"dry_run", by decide⟩, .bool s.cfg.execDryRun),
        (⟨"base_url", by decide⟩, .string ⟨s.cfg.execBaseUrl, htexts.execBaseUrl⟩),
        (⟨"credentials_path", by decide⟩,
          .string ⟨s.cfg.credentialsPath, htexts.credentialsPath⟩)]),
    (⟨"logging", by decide⟩, .object
      [(⟨"path", by decide⟩, .string ⟨s.cfg.logPath, htexts.logPath⟩)]),
    (⟨"runtime", by decide⟩, .object
      [(⟨"health_unhealthy_after_no_tick_sec", by decide⟩,
          .number (.int s.cfg.healthUnhealthyAfterNoTickSec)),
        (⟨"run_seconds", by decide⟩, .number (.int s.cfg.runSeconds)),
        (⟨"strategy_start_enabled", by decide⟩, .bool s.cfg.strategyStartEnabled),
        (⟨"state_path", by decide⟩, .string ⟨s.cfg.runtimeStatePath, htexts.runtimeStatePath⟩),
        (⟨"max_events_cache", by decide⟩, .number (.int s.cfg.maxEventsCache)),
        (⟨"max_orders_cache", by decide⟩, .number (.int s.cfg.maxOrdersCache)),
        (⟨"order_trim_batch", by decide⟩, .number (.int s.cfg.orderTrimBatch))]),
    (⟨"strategy", by decide⟩, gridConfigTree s.cfg.gridDefault)]
    (by simp [gridConfigTree, hnumbers.notional, hnumbers.positionRatio, hnumbers.lossStopRatio,
      hgrid.orderQty, Double.isFinite_of_atMost hgrid.takeProfitRatio,
      hgrid.recenterThresholdRatio, Double.isFinite_of_atMost hgrid.bandRatio])

theorem tells_getCredentialsStatus (htexts : LiteralTexts s.cfg) :
    s.getCredentialsStatus.Tells := by
  rw [getCredentialsStatus]
  refine ⟨_, _, rfl, ?_⟩
  exact tellsOk_of_members printedLeaves
    [(⟨"api_key_set", by decide⟩, .bool _), (⟨"secret_set", by decide⟩, .bool _),
      (⟨"path", by decide⟩, .string ⟨s.cfg.credentialsPath, htexts.credentialsPath⟩)] true (by simp)

theorem tells_getRiskConfig (h : s.FiniteNumbers) : s.getRiskConfig.Tells := by
  obtain ⟨hnotional, hratio, hloss⟩ := h.risk
  rw [getRiskConfig]
  refine ⟨_, _, rfl, ?_⟩
  exact tellsOk_of_members stdLeaves
    [(⟨"max_single_order_notional_usd", by decide⟩,
        .number s.riskCfg.maxSingleOrderNotionalUsd),
      (⟨"max_position_ratio", by decide⟩, .number s.riskCfg.maxPositionRatio),
      (⟨"daily_loss_stop_ratio", by decide⟩, .number s.riskCfg.dailyLossStopRatio)] true
    (by simp [isSome_eval_std, hnotional, hratio, hloss])

theorem tells_getEvents (h : ∀ t ∈ s.events, t.all isLiteral = true) : s.getEvents.Tells := by
  obtain ⟨body, hreply, hread⟩ := read_getEvents h
  exact ⟨200, body, by rw [hreply]; rfl, _, hread⟩

/-- The texts of an item are those of a status and a reason. -/
def Worded (o : ApiOrderItem) : Prop :=
  o.status.all isLiteral = true ∧ o.rejectReason.all isLiteral = true

def itemTree (o : ApiOrderItem) (h : Worded o) : Tree Word Printed :=
  .object
    [(⟨"internal_id", by decide⟩, .number (.int o.internalId)),
      (⟨"status", by decide⟩, .string ⟨o.status, h.1⟩),
      (⟨"reject_reason", by decide⟩, .string ⟨o.rejectReason, h.2⟩),
      (⟨"ts_ms", by decide⟩, .number (.int o.tsMs))]

theorem text_itemTree (o : ApiOrderItem) (h : Worded o) :
    (itemTree o h).text printedLeaves = orderItemJson o := by
  simp only [orderItemJson, showNat_eq_showInt]
  rfl

theorem tells_getOrders (h : ∀ o ∈ s.orders, Worded o) : s.getOrders.Tells := by
  have htexts : itemTexts printedLeaves (s.orders.attach.map fun o ↦ itemTree o.1 (h o.1 o.2)) =
      s.orders.map orderItemJson := by
    rw [itemTexts_map]
    simp only [text_itemTree]
    exact List.attach_map_val
  refine ⟨200, _, rfl, ?_⟩
  rw [← htexts]
  refine tellsOk_of_members printedLeaves [(⟨"items", by decide⟩, .array _)] true ?_
  simp only [List.forall_mem_singleton, isSome_eval_array, List.forall_mem_map]
  rintro ⟨o, ho⟩ -
  simp [itemTree]

/-! ## Routes that write -/

theorem tells_postCredentialsUpdate : (s.postCredentialsUpdate env body).2.Tells := by
  simp only [postCredentialsUpdate]
  split_ifs
  · exact tells_error (by decide) (by decide) (by decide)
  · exact ⟨200, _, rfl, tellsOk_okBody [(⟨"restart_required", by decide⟩, .bool true)]
      (by simp)⟩
  · exact tells_error (by decide) (by decide) (by decide)

theorem tells_postGridEnable : (s.postGridEnable env body).2.Tells := by
  simp only [postGridEnable]
  cases jsonGetBool body "enabled" with
  | none => exact tells_error (by decide) (by decide) (by decide)
  | some en => exact ⟨200, _, rfl, tellsOk_okBody [(⟨"enabled", by decide⟩, .bool en)] (by simp)⟩

theorem tells_postGridConfig : (s.postGridConfig env body).2.Tells := by
  simp only [postGridConfig]
  split_ifs
  · exact tells_error (by decide) (by decide) (by decide)
  · exact tells_error (by decide) (by decide) (by decide)
  · exact ⟨200, _, rfl, tellsOk_okBody [] (by simp)⟩

theorem tells_postRiskConfig : (s.postRiskConfig env body).2.Tells := by
  simp only [postRiskConfig]
  split_ifs
  · exact tells_error (by decide) (by decide) (by decide)
  · exact ⟨200, _, rfl, tellsOk_okBody [] (by simp)⟩

theorem all_isLiteral_statusToStr (st : OrderStatus) : (statusToStr st).all isLiteral = true := by
  cases st <;> decide

theorem all_isLiteral_rejectToStr (rr : RejectReason) : (rejectToStr rr).all isLiteral = true := by
  cases rr <;> decide

theorem tells_postManualOrder : (s.postManualOrder env body).2.Tells := by
  simp only [postManualOrder]
  split_ifs
  · exact tells_error (by decide) (by decide) (by decide)
  · split
    · exact tells_error (show (500 : ℕ) ≠ 200 by decide) (by decide) (by decide)
    · next ord _ =>
        refine ⟨200, _, rfl, ?_⟩
        simp only [showNat_eq_showInt]
        exact tellsOk_okBody
          [(⟨"internal_order_id", by decide⟩,
              .number (.int (s.core.submitManualOrder env.nowMs (s.manualRequest body)).2.1)),
            (⟨"status", by decide⟩, .string ⟨_, all_isLiteral_statusToStr ord.status⟩),
            (⟨"reject_reason", by decide⟩,
              .string ⟨_, all_isLiteral_rejectToStr ord.rejectReason⟩)] (by simp)

theorem tells_postManualCancel : (s.postManualCancel env body).2.Tells := by
  simp only [postManualCancel]
  cases jsonGetNumber body "internal_order_id" with
  | none => exact tells_error (by decide) (by decide) (by decide)
  | some x =>
      simp only
      split_ifs
      · exact ⟨200, _, rfl, tellsOk_okBody
          [(⟨"status", by decide⟩, .string ⟨"Cancelled", by decide⟩)] (by simp)⟩
      · exact tells_error (by decide) (by decide) (by decide)

end ApiState

/-! ## Every answer of a run -/

theorem worded_of_mem_orders (b : Startup) (es : List ApiEvent) :
    ∀ o ∈ (service b es).orders, ApiState.Worded o := by
  intro o ho
  rw [service_orders] at ho
  have hsubmitted := (Recent.recent_suffix _).subset ho
  obtain ⟨ys, zs, hsplit⟩ := List.append_of_mem hsubmitted
  obtain ⟨xs, e, rest, -, -, hitem⟩ := apiMachine.exists_of_collect_eq _ hsplit
  rw [ApiState.submittedItem] at hitem
  split at hitem
  · obtain ⟨ord, -, rfl⟩ := Option.map_eq_some_iff.mp hitem
    exact ⟨ApiState.all_isLiteral_statusToStr _, ApiState.all_isLiteral_rejectToStr _⟩
  · cases hitem

/-- The routes whose answers have no flag. -/
def Route.isPlain : Route → Bool
  | .getGridRuntime | .getConfigEffective => true
  | _ => false

/-- While the prices that come in are moderate, and the ratios of the grid, a
service whose configuration needs no escapes answers every request on a route
with a JSON object, which tells under `ok`, where it has the flag, whether the
status is 200. -/
theorem answers_are_objects (b : Startup) (htexts : LiteralTexts b.cfg)
    (hnumbers : FiniteSettings b.cfg) (hrisk : FiniteRisk b.riskCfg) (es : List ApiEvent)
    (hes : ∀ e ∈ es, ModerateEvent e) (env : RequestEnv) (req : Request) (route : Route)
    (hroute : Route.of req.method req.target = some route) :
    ∃ status body, ((service b es).handle env req).2.response = some (status, body) ∧
      IsObject body ∧ (route.isPlain = false → TellsOk (decide (status = 200)) body) := by
  have hfinite := finiteNumbers_service hnumbers.grid hrisk hes
  have hevents : ∀ t ∈ (service b es).events, t.all isLiteral = true := by
    intro t ht
    rw [service_events] at ht
    exact isLiteral_of_mem_eventTrail b es t ((Recent.recent_suffix _).subset ht)
  have horders := worded_of_mem_orders b es
  have hcfg := service_cfg b es
  rw [ApiState.handle, hroute]
  generalize service b es = s at hfinite hevents horders hcfg ⊢
  rw [← hcfg] at htexts hnumbers
  have hplain : ∀ {reply : Reply}, (∃ body, reply = .of 200 body ∧ IsObject body) →
      ∃ status body, reply.response = some (status, body) ∧ IsObject body := by
    rintro reply ⟨body, rfl, hbody⟩
    exact ⟨200, body, rfl, hbody⟩
  have htold : ∀ {reply : Reply}, reply.Tells → ∃ status body,
      reply.response = some (status, body) ∧ IsObject body ∧
        (route.isPlain = false → TellsOk (decide (status = 200)) body) := by
    rintro reply ⟨status, body, hresponse, htells⟩
    exact ⟨status, body, hresponse, htells.isObject, fun _ ↦ htells⟩
  cases route with
  | getGridRuntime =>
      obtain ⟨status, body, hresponse, hobject⟩ := hplain (ApiState.isObject_getGridRuntime hfinite)
      exact ⟨status, body, hresponse, hobject, fun h ↦ by cases h⟩
  | getConfigEffective =>
      obtain ⟨status, body, hresponse, hobject⟩ :=
        hplain (ApiState.isObject_getConfigEffective htexts hnumbers)
      exact ⟨status, body, hresponse, hobject, fun h ↦ by cases h⟩
  | getHealth => exact htold (ApiState.tells_getHealth env)
  | getCredentialsStatus => exact htold (ApiState.tells_getCredentialsStatus htexts)
  | getRiskConfig => exact htold (ApiState.tells_getRiskConfig hfinite)
  | getOrders => exact htold (ApiState.tells_getOrders horders)
  | getEvents => exact htold (ApiState.tells_getEvents hevents)
  | postCredentialsUpdate => exact htold (ApiState.tells_postCredentialsUpdate env req.body)
  | postGridEnable => exact htold (ApiState.tells_postGridEnable env req.body)
  | postGridConfig => exact htold (ApiState.tells_postGridConfig env req.body)
  | postRiskConfig => exact htold (ApiState.tells_postRiskConfig env req.body)
  | postManualOrder => exact htold (ApiState.tells_postManualOrder env req.body)
  | postManualCancel => exact htold (ApiState.tells_postManualCancel env req.body)

theorem answers_are_objects_tradingMorning :
    ∃ status body,
      ((service liveStartup tradingMorning).handle (quietEnv 4) ⟨"GET", "/health", []⟩).2.response =
        some (status, body) ∧
      IsObject body ∧
        (Route.isPlain .getHealth = false → TellsOk (decide (status = 200)) body) := by
  have htexts : LiteralTexts liveStartup.cfg :=
    ⟨by decide, by decide, by decide, by decide, by decide⟩
  have hevents : ∀ e ∈ tradingMorning, ModerateEvent e := by
    have hprice : (lit 60000 : Double).atMost 300 = true := by decide +kernel
    rw [tradingMorning, List.forall_mem_cons, List.forall_mem_cons, List.forall_mem_singleton]
    refine ⟨fun hroute ↦ ?_, hprice, fun hroute ↦ ?_⟩
    · exact absurd hroute (by decide +kernel)
    · exact absurd hroute (by decide +kernel)
  have hsettings : FiniteSettings liveStartup.cfg :=
    ⟨by decide +kernel, by decide +kernel, by decide +kernel, by decide +kernel, by decide +kernel,
      by decide +kernel, by decide +kernel, by decide +kernel⟩
  have hrisk : FiniteRisk liveStartup.riskCfg := by
    refine ⟨?_, ?_, ?_⟩ <;> decide +kernel
  exact answers_are_objects liveStartup htexts hsettings hrisk tradingMorning hevents (quietEnv 4)
    ⟨"GET", "/health", []⟩ .getHealth (by decide +kernel)

end FrogQuant.App
