import FrogQuant.App.ControlApiRouter

/-!
# What an event does to the service

Every event has one effect, which the checks of its route decide on: nothing,
or a write to some of the parts of the state.  The list of events is left
aside.
-/

namespace FrogQuant.App

open Json

inductive Effect where
  | nothing
  | tick (nowMs : ℕ) (t : MarketTick Double)
  | credentials (text : Text)
  | enable (en written : Bool)
  | gridConfig (g : LongGridConfig Double)
  | risk (next : RiskConfig Double) (written : Bool)
  | order (nowMs : ℕ) (req : OrderRequest Double)
  | cancel (nowMs id : ℕ)

/-- The route that a request with an effect is on. -/
def Effect.route? : Effect → Option Route
  | .credentials _ => some .postCredentialsUpdate
  | .enable _ _ => some .postGridEnable
  | .gridConfig _ => some .postGridConfig
  | .risk _ _ => some .postRiskConfig
  | .order _ _ => some .postManualOrder
  | .cancel _ _ => some .postManualCancel
  | _ => none

namespace ApiState

/-- The same state, up to the list of events: the core, the limits of the
router, the strategy and its switch, the orders and both files. -/
def SameButEvents (s s' : ApiState) : Prop := s' = { s with events := s'.events }

variable (s : ApiState) (env : RequestEnv)

/-- The runtime state is written, where the file can be opened. -/
def saved (written : Bool) : Option Text :=
  if written then some (runtimeStateText s.strategyEnabled s.riskCfg) else s.runtimeStateFile

theorem SameButEvents.trans {s₁ s₂ s₃ : ApiState} (h₁ : s₁.SameButEvents s₂)
    (h₂ : s₂.SameButEvents s₃) : s₁.SameButEvents s₃ := by
  rw [SameButEvents] at *
  rw [h₂, h₁]

/-- What does not read the events is the same. -/
theorem SameButEvents.congr {s₁ s₂ : ApiState} (h : s₁.SameButEvents s₂) {β : Type*}
    (f : ApiState → β) (hf : ∀ s events, f { s with events := events } = f s) : f s₂ = f s₁ := by
  rw [SameButEvents] at h
  rw [h, hf]

theorem sameButEvents_pushEvent (e : Text) : s.SameButEvents (s.pushEvent e) := rfl

theorem saveRuntimeState_eq :
    s.saveRuntimeState env = { s with runtimeStateFile := s.saved env.stateWritable } := by
  rw [saveRuntimeState, saved]
  split_ifs <;> rfl

variable [NumberFormat] (body : Text)

/-- The grid configuration that a body asks for. -/
def requestedGrid : LongGridConfig Double where
  levels := (jsonGetInt env.undefInt body "levels").getD s.grid.cfg.levels
  orderQty := (jsonGetNumber body "order_qty").getD s.grid.cfg.orderQty
  takeProfitRatio := (jsonGetNumber body "take_profit_ratio").getD s.grid.cfg.takeProfitRatio
  dynamicEnabled := (jsonGetBool body "dynamic_enabled").getD s.grid.cfg.dynamicEnabled
  recenterThresholdRatio :=
    (jsonGetNumber body "recenter_threshold_ratio").getD s.grid.cfg.recenterThresholdRatio
  bandRatio := (jsonGetNumber body "band_ratio").getD s.grid.cfg.bandRatio

/-- The two checks of the route. -/
def gridRefused (g : LongGridConfig Double) : Prop :=
  (g.levels < 2 ∨ 200 < g.levels) ∨ g.orderQty ≤ 0 ∨ lit 1000 < g.orderQty

instance : DecidablePred gridRefused := fun g ↦
  inferInstanceAs (Decidable ((g.levels < 2 ∨ 200 < g.levels) ∨ g.orderQty ≤ 0 ∨
    lit 1000 < g.orderQty))

def requestEffect : Option Route → Effect
  | some .postCredentialsUpdate =>
      let k := (jsonGetString body "api_key").getD []
      let secret := (jsonGetString body "secret_key").getD []
      if (k = [] ∨ secret = []) ∨ env.credentialsWritable = false then .nothing
      else .credentials (credentialsText k secret)
  | some .postGridEnable =>
      match jsonGetBool body "enabled" with
      | none => .nothing
      | some en => .enable en env.stateWritable
  | some .postGridConfig =>
      if gridRefused (s.requestedGrid env body) then .nothing
      else .gridConfig (s.requestedGrid env body)
  | some .postRiskConfig =>
      if riskOutOfRange (s.requestedRisk body) then .nothing
      else .risk (s.requestedRisk body) env.stateWritable
  | some .postManualOrder =>
      if (s.manualRequest body).qty ≤ 0 then .nothing
      else .order env.nowMs (s.manualRequest body)
  | some .postManualCancel =>
      match jsonGetNumber body "internal_order_id" with
      | none => .nothing
      | some x => .cancel env.nowMs (cancelId env x)
  | _ => .nothing

def effect : ApiEvent → Effect
  | .tick nowMs t => .tick nowMs t
  | .request env req => s.requestEffect env req.body (Route.of req.method req.target)

/-- A request without effect, or the effect tells its route. -/
theorem requestEffect_cases (route : Option Route) :
    s.requestEffect env body route = .nothing ∨
      (s.requestEffect env body route).route? = route := by
  rcases route with _ | route
  · exact Or.inl rfl
  cases route with
  | postGridEnable | postManualCancel =>
      simp only [requestEffect]
      split
      · exact Or.inl rfl
      · exact Or.inr rfl
  | postCredentialsUpdate | postGridConfig | postRiskConfig | postManualOrder =>
      simp only [requestEffect]
      split_ifs
      · exact Or.inl rfl
      · exact Or.inr rfl
  | _ => exact Or.inl rfl

theorem route_of_effect {route : Option Route} {r : Route}
    (h : (s.requestEffect env body route).route? = some r) : route = some r := by
  rcases s.requestEffect_cases env body route with hnothing | hroute
  · rw [hnothing] at h
    cases h
  · rw [← hroute]
    exact h

/-- The item of the list for an order that is in the store. -/
def orderItem (core : TradingCore Double) (nowMs id : ℕ) : Option ApiOrderItem :=
  (core.getOrder id).map fun ord ↦
    ⟨id, statusToStr ord.status, rejectToStr ord.rejectReason, nowMs⟩

def apply : Effect → ApiState
  | .nothing => s
  | .tick nowMs t =>
      { s with
        tickCount := s.tickCount + 1
        lastTickMs := nowMs
        core := { s.core with lastPrice := t.price }
        grid := if s.strategyEnabled then (s.grid.onPriceTick t.price).1 else s.grid }
  | .credentials text => { s with credentialsFile := some text }
  | .enable en written =>
      { s with
        strategyEnabled := en
        runtimeStateFile := { s with strategyEnabled := en }.saved written }
  | .gridConfig g => { s with grid := s.grid.updateConfig g }
  | .risk next written =>
      { s with
        riskCfg := next
        core := { s.core with risk := next }
        runtimeStateFile := { s with riskCfg := next }.saved written }
  | .order nowMs req =>
      let core := (s.core.submitManualOrder nowMs req).1
      { s with
        core := core
        orders :=
          match orderItem core nowMs s.core.nextId with
          | none => s.orders
          | some item => (s.pushOrder item).orders }
  | .cancel _ id => { s with core := { s.core with oms := (s.core.oms.cancel id).1 } }

theorem handleTick_eq (nowMs : ℕ) (t : MarketTick Double) :
    (s.apply (.tick nowMs t)).SameButEvents (s.handleTick nowMs t) := by
  have hfold : ∀ (intents : List (StrategyOrderIntent Double)) (s' : ApiState),
      s'.SameButEvents (intents.foldl (fun s it ↦ s.pushEvent (intentText it.gridId)) s') := by
    intro intents
    induction intents with
    | nil => exact fun _ ↦ rfl
    | cons it intents ih => exact fun s' ↦ (s'.sameButEvents_pushEvent _).trans (ih _)
  simp only [handleTick, apply]
  split_ifs
  · exact hfold _ _
  · rfl

theorem postGridConfig_of_refused (h : gridRefused (s.requestedGrid env body)) :
    ∃ text, s.postGridConfig env body = (s, .of 400 text) := by
  by_cases hlevels : (s.requestedGrid env body).levels < 2 ∨ 200 < (s.requestedGrid env body).levels
  · exact ⟨_, if_pos hlevels⟩
  · exact ⟨_, (if_neg hlevels).trans (if_pos (h.resolve_left hlevels))⟩

theorem postGridConfig_of_not_refused (h : ¬ gridRefused (s.requestedGrid env body)) :
    s.postGridConfig env body =
      ({ s with grid := s.grid.updateConfig (s.requestedGrid env body) }.pushEvent
        "grid_config_updated", .of 200 (okBody [])) :=
  (if_neg (not_or.mp h).1).trans (if_neg (not_or.mp h).2)

theorem postGridConfig_eq :
    (s.apply (s.requestEffect env body (some .postGridConfig))).SameButEvents
      (s.postGridConfig env body).1 := by
  rw [requestEffect]
  by_cases h : gridRefused (s.requestedGrid env body)
  · obtain ⟨text, hroute⟩ := s.postGridConfig_of_refused env body h
    rw [if_pos h, hroute]
    rfl
  · rw [if_neg h, s.postGridConfig_of_not_refused env body h]
    rfl

theorem postManualOrder_eq (hqty : ¬ (s.manualRequest body).qty ≤ 0) :
    (s.apply (.order env.nowMs (s.manualRequest body))).SameButEvents
      (s.postManualOrder env body).1 := by
  have hid := s.core.submitManualOrder_id env.nowMs (s.manualRequest body)
  simp only [postManualOrder, hqty, if_false, apply, orderItem, hid]
  cases (s.core.submitManualOrder env.nowMs (s.manualRequest body)).1.getOrder s.core.nextId <;> rfl

theorem answer_eq (route : Option Route) :
    (s.apply (s.requestEffect env body route)).SameButEvents (s.answer env body route).1 := by
  rcases route with _ | route
  · rfl
  cases route with
  | postCredentialsUpdate =>
      simp only [answer, postCredentialsUpdate, requestEffect]
      by_cases hkeys : (jsonGetString body "api_key").getD [] = [] ∨
          (jsonGetString body "secret_key").getD [] = []
      · rw [if_pos (Or.inl hkeys), if_pos hkeys]
        rfl
      · cases hwritable : env.credentialsWritable with
        | false => simp only [hkeys, if_false, Bool.false_eq_true, or_true, if_true]; rfl
        | true => simp only [hkeys, if_false, Bool.true_eq_false, or_false, if_true]; rfl
  | postGridEnable =>
      simp only [answer, postGridEnable, requestEffect]
      cases jsonGetBool body "enabled" with
      | none => rfl
      | some en =>
          simp only [saveRuntimeState_eq]
          rfl
  | postGridConfig =>
      exact s.postGridConfig_eq env body
  | postRiskConfig =>
      simp only [answer, postRiskConfig, requestEffect]
      split_ifs
      · rfl
      · simp only [saveRuntimeState_eq]
        rfl
  | postManualOrder =>
      rw [answer, requestEffect]
      split_ifs with hqty
      · simp only [postManualOrder, hqty, if_true]
        rfl
      · exact s.postManualOrder_eq env body hqty
  | postManualCancel =>
      simp only [answer, postManualCancel, requestEffect]
      cases jsonGetNumber body "internal_order_id" <;> rfl
  | _ => rfl

/-- A step is its effect. -/
theorem next_eq (e : ApiEvent) : (s.apply (s.effect e)).SameButEvents (apiMachine.next s e) := by
  cases e with
  | tick nowMs t => exact s.handleTick_eq nowMs t
  | request env req => exact s.answer_eq env req.body _

end ApiState

end FrogQuant.App
