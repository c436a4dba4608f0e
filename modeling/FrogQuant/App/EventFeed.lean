import FrogQuant.App.NumberCasts
import FrogQuant.App.ServiceRuns
import FrogQuant.Lib.PrintedNumber
import FrogQuant.Lib.Recent

/-!
# The feed of events

Every event of the service adds some texts to a list that holds the most recent
ones, which `GET /events` serves.
-/

namespace FrogQuant.App

open Json

namespace ApiState

/-- The texts that an effect adds to the list. -/
def effectTexts (s : ApiState) : Effect → List Text
  | .nothing => []
  | .tick _ t =>
      if s.strategyEnabled then (s.grid.onPriceTick t.price).2.map fun it ↦ intentText it.gridId
      else []
  | .credentials _ => ["credentials_updated(restart_required)"]
  | .enable en _ => [enableText en]
  | .gridConfig _ => ["grid_config_updated"]
  | .risk _ _ => ["risk_config_updated"]
  | .order nowMs req =>
      match orderItem (s.core.submitManualOrder nowMs req).1 nowMs s.core.nextId with
      | none => []
      | some item => ["manual_order id=".toList ++ Decimal.showNat item.internalId]
  | .cancel _ id => ["manual_cancel id=".toList ++ Decimal.showNat id]

def eventTexts (s : ApiState) (e : ApiEvent) : List Text := s.effectTexts (s.effect e)

variable (s : ApiState)

theorem events_pushEvent (t : Text) :
    (s.pushEvent t).events = Recent.push s.maxEvents 1 s.events t := by
  have hone : min 1 (s.events ++ [t]).length = 1 := by simp
  simp only [pushEvent, Recent.push, hone, List.drop_one]

theorem events_handleTick (nowMs : ℕ) (t : MarketTick Double) :
    (s.handleTick nowMs t).events =
      (s.eventTexts (.tick nowMs t)).foldl (Recent.push s.maxEvents 1) s.events := by
  have hfold : ∀ (intents : List (StrategyOrderIntent Double)) (s' : ApiState),
      (intents.foldl (fun s it ↦ s.pushEvent (intentText it.gridId)) s').events =
        (intents.map fun it ↦ intentText it.gridId).foldl (Recent.push s'.maxEvents 1)
          s'.events := by
    intro intents
    induction intents with
    | nil => exact fun s' ↦ rfl
    | cons it intents ih =>
        intro s'
        rw [List.foldl_cons, List.map_cons, List.foldl_cons, ih, events_pushEvent]
        rfl
  simp only [handleTick, eventTexts, effect, effectTexts]
  split_ifs
  · exact hfold _ _
  · rfl

theorem events_answer (env : RequestEnv) (req : Request) :
    (s.answer env req.body (Route.of req.method req.target)).1.events =
      (s.eventTexts (.request env req)).foldl (Recent.push s.maxEvents 1) s.events := by
  rw [eventTexts, effect]
  generalize Route.of req.method req.target = route
  rcases route with _ | route
  · rfl
  cases route with
  | postCredentialsUpdate =>
      simp only [answer, postCredentialsUpdate, requestEffect]
      by_cases hkeys : (jsonGetString req.body "api_key").getD [] = [] ∨
          (jsonGetString req.body "secret_key").getD [] = []
      · simp only [hkeys, if_true, true_or]
        rfl
      · cases hwritable : env.credentialsWritable with
        | false => simp only [hkeys, if_false, Bool.false_eq_true, or_true, if_true]; rfl
        | true =>
            simp only [hkeys, if_false, Bool.true_eq_false, or_false, if_true]
            exact events_pushEvent _ _
  | postGridEnable =>
      simp only [answer, postGridEnable, requestEffect]
      cases jsonGetBool req.body "enabled" with
      | none => rfl
      | some en =>
          simp only [saveRuntimeState_eq]
          exact events_pushEvent _ _
  | postGridConfig =>
      simp only [answer, requestEffect]
      by_cases h : gridRefused (s.requestedGrid env req.body)
      · obtain ⟨text, hroute⟩ := s.postGridConfig_of_refused env req.body h
        rw [if_pos h, hroute]
        rfl
      · rw [if_neg h, s.postGridConfig_of_not_refused env req.body h]
        exact events_pushEvent _ _
  | postRiskConfig =>
      simp only [answer, postRiskConfig, requestEffect]
      by_cases h : riskOutOfRange (s.requestedRisk req.body)
      · simp only [h, if_true]
        rfl
      · simp only [h, if_false, saveRuntimeState_eq]
        exact events_pushEvent _ _
  | postManualOrder =>
      simp only [answer, requestEffect, postManualOrder]
      by_cases hqty : (s.manualRequest req.body).qty ≤ 0
      · simp only [hqty, if_true]
        rfl
      · have hid := s.core.submitManualOrder_id env.nowMs (s.manualRequest req.body)
        simp only [hqty, if_false, hid, effectTexts, orderItem]
        cases (s.core.submitManualOrder env.nowMs (s.manualRequest req.body)).1.getOrder
          s.core.nextId with
        | none => rfl
        | some ord => exact events_pushEvent _ _
  | postManualCancel =>
      simp only [answer, postManualCancel, requestEffect]
      cases jsonGetNumber req.body "internal_order_id" with
      | none => rfl
      | some x => exact events_pushEvent _ _
  | _ => rfl

theorem events_next (e : ApiEvent) :
    (apiMachine.next s e).events =
      (s.eventTexts e).foldl (Recent.push s.maxEvents 1) s.events := by
  cases e with
  | tick nowMs t => exact s.events_handleTick nowMs t
  | request env req => exact s.events_answer env req

end ApiState

/-- All texts that a run has added to the list, in order. -/
def eventTrail (b : Startup) (es : List ApiEvent) : List Text :=
  apiMachine.yields ApiState.eventTexts (.start b) es

theorem eventTrail_concat (b : Startup) (es : List ApiEvent) (e : ApiEvent) :
    eventTrail b (es ++ [e]) = eventTrail b es ++ (service b es).eventTexts e :=
  apiMachine.yields_concat _ _ es e

theorem service_maxEvents (b : Startup) (es : List ApiEvent) :
    (service b es).maxEvents = max 1 b.cfg.maxEventsCache :=
  apiMachine.run_invariant (P := fun s ↦ s.maxEvents = max 1 b.cfg.maxEventsCache)
    (fun s e h ↦ (s.maxEvents_next e).trans h) rfl es

/-- The list is what is kept of all texts. -/
theorem service_events (b : Startup) (es : List ApiEvent) :
    (service b es).events = Recent.recent (max 1 b.cfg.maxEventsCache) 1 (eventTrail b es) := by
  induction es using List.reverseRecOn with
  | nil => rfl
  | append_singleton es e ih =>
      rw [service, Machine.run_concat, ApiState.events_next, service_maxEvents, ih,
        eventTrail_concat, Recent.recent, Recent.recent, List.foldl_append]

/-! ## What is served -/

theorem isLiteral_of_isDigit {c : Char} (h : c.isDigit = true) : isLiteral c = true := by
  have hquote : c ≠ '"' := not_quote_of_isDigit h
  have hslash : c ≠ '\\' := by
    rintro rfl
    cases h
  have hdigit : 48 ≤ c.toNat := by
    simp only [Char.isDigit, Bool.and_eq_true, decide_eq_true_eq] at h
    exact h.1
  rw [isLiteral, decide_eq_true_eq]
  exact ⟨hquote, hslash, le_trans (by decide) hdigit⟩

theorem all_isLiteral_showNat (n : ℕ) : (Decimal.showNat n).all isLiteral = true :=
  List.all_eq_true.mpr fun _ hc ↦ isLiteral_of_isDigit (Decimal.isDigit_of_mem_showNat hc)

theorem ApiState.isLiteral_of_mem_effectTexts (s : ApiState) (effect : Effect) :
    ∀ t ∈ s.effectTexts effect, t.all isLiteral = true := by
  have hnumbered : ∀ (word : Text) (n : ℕ), word.all isLiteral = true →
      (word ++ Decimal.showNat n).all isLiteral = true := by
    intro word n hword
    rw [List.all_append, hword, all_isLiteral_showNat]
    rfl
  intro t ht
  cases effect with
  | nothing => cases ht
  | tick nowMs tick =>
      simp only [effectTexts] at ht
      split_ifs at ht
      · obtain ⟨it, -, rfl⟩ := List.mem_map.mp ht
        exact hnumbered _ _ (by decide)
      · cases ht
  | enable en written =>
      rw [List.mem_singleton.mp ht]
      cases en <;> decide
  | order nowMs req =>
      simp only [effectTexts] at ht
      split at ht
      · cases ht
      · rw [List.mem_singleton.mp ht]
        exact hnumbered _ _ (by decide)
  | cancel nowMs id =>
      rw [List.mem_singleton.mp ht]
      exact hnumbered _ _ (by decide)
  | _ =>
      rw [List.mem_singleton.mp ht]
      decide

theorem isLiteral_of_mem_eventTrail (b : Startup) (es : List ApiEvent) :
    ∀ t ∈ eventTrail b es, t.all isLiteral = true := by
  induction es using List.reverseRecOn with
  | nil => exact fun t ht ↦ absurd ht List.not_mem_nil
  | append_singleton es e ih =>
      rw [eventTrail_concat]
      intro t ht
      rcases List.mem_append.mp ht with hold | hnew
      · exact ih t hold
      · exact (service b es).isLiteral_of_mem_effectTexts _ t hnew

/-- The list of events as it is answered. -/
def eventsTree (texts : List Text) : Tree Text ℚ :=
  .object [("ok".toList, .bool true), ("items".toList, .array (texts.map .string))]

theorem read_getEvents {s : ApiState} (h : ∀ t ∈ s.events, t.all isLiteral = true) :
    ∃ body, s.getEvents = .of 200 body ∧ read body = some (eventsTree s.events) := by
  refine ⟨_, rfl, ?_⟩
  obtain ⟨words, hwords⟩ := exists_words h
  let tree : Tree Word Printed := .object
    [(⟨"ok", by decide⟩, .bool true), (⟨"items", by decide⟩, .array (words.map .string))]
  have htext : tree.text printedLeaves =
      object [member "ok" "true", member "items" (array (s.events.map quoted))] := by
    rw [← hwords, List.map_map]
    simp only [tree, Tree.text, memberTexts, itemTexts_map]
    rfl
  have hitems : evalItems printedLeaves (words.map .string) = some (s.events.map .string) := by
    rw [← hwords, List.map_map]
    exact evalItems_map _ fun w _ ↦ eval_string _ w
  rw [← htext, read_text]
  simp only [tree, eval_object, evalMembers, eval_array, hitems, eval_bool, Option.bind_some,
    Option.map_some]
  rfl

/-- `GET /events` serves the last texts of all that the run has added, as many
as the configuration keeps, as a list of strings. -/
theorem events_served (b : Startup) (es : List ApiEvent) (env : RequestEnv) (req : Request)
    (hroute : Route.of req.method req.target = some .getEvents) :
    ∃ body, ((service b es).handle env req).2 = .of 200 body ∧
      read body = some (eventsTree
        ((eventTrail b es).drop ((eventTrail b es).length - max 1 b.cfg.maxEventsCache))) := by
  have hevents := service_events b es
  rw [Recent.recent_one] at hevents
  rw [← hevents, ApiState.handle, hroute]
  apply read_getEvents
  intro t ht
  rw [hevents] at ht
  exact isLiteral_of_mem_eventTrail b es t (List.mem_of_mem_drop ht)

/-- A service that keeps two texts. -/
def shortFeed : Startup :=
  { liveStartup with cfg := { AppConfig.default with maxEventsCache := 2 } }

/-- The strategy is enabled, asks for a buy, and an order is cancelled that does
not exist. -/
def tradingMorning : List ApiEvent :=
  [.request (quietEnv 1) ⟨"POST", "/strategy/grid/enable", "\x7b\"enabled\":true\x7d"⟩,
    .tick 2 ⟨"BTCUSDT", lit 60000, 1, 1, .webSocket⟩,
    .request (quietEnv 3) ⟨"POST", "/trade/manual/cancel", "\x7b\"internal_order_id\":7\x7d"⟩]

theorem events_served_tradingMorning :
    ∃ body, ((service shortFeed tradingMorning).handle (quietEnv 4) ⟨"GET", "/events", []⟩).2 =
        .of 200 body ∧
      read body = some (eventsTree ["strategy_intent grid_id=5", "manual_cancel id=7"]) := by
  have htrail : eventTrail shortFeed tradingMorning =
      ["strategy_enable=true", "strategy_intent grid_id=5", "manual_cancel id=7"] := by
    decide +kernel
  have hserved := events_served shortFeed tradingMorning (quietEnv 4) ⟨"GET", "/events", []⟩
    (by decide +kernel)
  rw [htrail] at hserved
  exact hserved

end FrogQuant.App
