import FrogQuant.App.GridLock
import FrogQuant.App.GridRuns
import FrogQuant.App.RuntimeState

/-!
# The handlers in parallel

However the steps of the tick handlers and of the requests about the grid
interleave, the threads are answered as by the sequential service, in the order
in which they get the lock.
-/

namespace FrogQuant.App

open LongGridStrategy LockedCode

/-! ## Whole grids -/

/-- There is no grid yet, or there are all the levels of one grid around the
anchor, in any states; it has been built with the configuration shown unless the
anchor is not positive, which only NaN can be. -/
def WholeGrid (v : GridRuntimeView Double) : Prop :=
  (v.levels = [] ∧ v.rebuildCount = 0) ∨
    ∃ cfg, (0 < v.anchorPrice → cfg = v.config) ∧
      v.levels.map (.withState .idle) = gridLevels cfg v.anchorPrice

theorem wholeGrid_rebuild (s : LongGridStrategy Double) (anchorPrice : Double) :
    WholeGrid (s.rebuildGrid anchorPrice).runtimeView := by
  refine Or.inr ⟨s.cfg, fun _ ↦ rfl, (List.map_congr_left fun lv hlv ↦ ?_).trans (List.map_id _)⟩
  rw [id, GridLevel.withState, ← idle_of_mem_gridLevels hlv]

variable {s : LongGridStrategy Double}

theorem wholeGrid_setState (h : WholeGrid s.runtimeView) (id : ℕ) (state : GridLevelState) :
    WholeGrid (s.setState id state).runtimeView := by
  have hkeep : (s.setState id state).levels.map (GridLevel.withState .idle) =
      s.levels.map (GridLevel.withState .idle) :=
    map_writeSlot (f := GridLevel.withState state) (fun _ ↦ rfl) s.levels
  rcases h with ⟨hlevels, hcount⟩ | ⟨cfg, hcfg, hlevels⟩
  · have hnone : s.levels = [] := hlevels
    refine Or.inl ⟨?_, hcount⟩
    simp only [runtimeView, setState, hnone]
    rfl
  · exact Or.inr ⟨cfg, hcfg, hkeep.trans hlevels⟩

theorem wholeGrid_onPriceTick (h : WholeGrid s.runtimeView) (price : Double) :
    WholeGrid (s.onPriceTick price).1.runtimeView := by
  by_cases hprice : price ≤ 0
  · rwa [s.onPriceTick_of_le hprice]
  · have hrecentre : WholeGrid (s.recentre price).runtimeView := by
      simp only [recentre]
      split_ifs
      · exact wholeGrid_rebuild _ price
      · exact wholeGrid_rebuild _ price
      · exact wholeGrid_rebuild _ price
      · exact h
    rcases s.onPriceTick_cases hprice with htick | ⟨lv, -, -, -, htick⟩ <;> rw [htick]
    · exact hrecentre
    · exact wholeGrid_setState hrecentre _ _

theorem wholeGrid_updateConfig (h : WholeGrid s.runtimeView) (cfg : LongGridConfig Double) :
    WholeGrid (s.updateConfig cfg).runtimeView := by
  simp only [updateConfig]
  split_ifs with hanchor
  · exact wholeGrid_rebuild _ _
  · rcases h with hnone | ⟨built, -, hlevels⟩
    · exact Or.inl hnone
    · exact Or.inr ⟨built, fun hpos ↦ absurd hpos hanchor, hlevels⟩

theorem wholeGrid_run (cfg : LongGridConfig Double) (calls : List GridCall) :
    WholeGrid (gridCalls.run (init cfg) calls).runtimeView := by
  refine gridCalls.run_invariant (P := fun s ↦ WholeGrid s.runtimeView) (fun s call h ↦ ?_)
    (Or.inl ⟨rfl, rfl⟩) calls
  cases call with
  | tick price => exact wholeGrid_onPriceTick h price
  | view => exact h
  | config undefInt body =>
      simp only [Machine.next, gridCalls]
      split
      · exact h
      · exact wholeGrid_updateConfig h _

/-! ## The sequential service -/

/-- How the service answers a call. -/
def ApiState.gridAnswer (s : ApiState) : GridCall → GridAnswer
  | .tick price => .intents (s.grid.onPriceTick price).2
  | .view => .view s.grid.runtimeView
  | .config undefInt body =>
      .reply (s.postGridConfig { quietEnv 0 with undefInt := undefInt } body).2

theorem postGridConfig_eq_gridCalls (s : ApiState) (env : RequestEnv) (body : Text) :
    (s.postGridConfig env body).1.grid = gridCalls.next s.grid (.config env.undefInt body) ∧
      GridAnswer.reply (s.postGridConfig env body).2 =
        gridCalls.out s.grid (.config env.undefInt body) := by
  simp only [Machine.next, Machine.out, gridCalls, configRefusal]
  by_cases hlevels : (requestedConfig env.undefInt body s.grid.cfg).levels < 2 ∨
      200 < (requestedConfig env.undefInt body s.grid.cfg).levels
  · have hroute : s.postGridConfig env body =
        (s, .of 400 (errorBody "E_CFG_LEVELS_RANGE" "levels must be in [2,200]")) :=
      if_pos hlevels
    rw [hroute, if_pos hlevels]
    exact ⟨rfl, rfl⟩
  · by_cases hqty : (requestedConfig env.undefInt body s.grid.cfg).orderQty ≤ 0 ∨
        lit 1000 < (requestedConfig env.undefInt body s.grid.cfg).orderQty
    · have hroute : s.postGridConfig env body =
          (s, .of 400 (errorBody "E_CFG_QTY_RANGE" "order_qty must be in (0,1000]")) :=
        (if_neg hlevels).trans (if_pos hqty)
      rw [hroute, if_neg hlevels, if_pos hqty]
      exact ⟨rfl, rfl⟩
    · have hroute : s.postGridConfig env body =
          ({ s with grid := s.grid.updateConfig (requestedConfig env.undefInt body s.grid.cfg)
              }.pushEvent "grid_config_updated", .of 200 (okBody [])) :=
        (if_neg hlevels).trans (if_neg hqty)
      rw [hroute, if_neg hlevels, if_neg hqty]
      exact ⟨rfl, rfl⟩

theorem gridCalls_out (s : ApiState) (call : GridCall) :
    gridCalls.out s.grid call = s.gridAnswer call := by
  cases call with
  | tick price => rfl
  | view => rfl
  | config undefInt body =>
      exact (postGridConfig_eq_gridCalls s { quietEnv 0 with undefInt := undefInt } body).2.symm

def enabling : ApiEvent :=
  .request (quietEnv 0) ⟨"POST", "/strategy/grid/enable", "\x7b\"enabled\":true\x7d"⟩

theorem effect_enabling (s : ApiState) : s.effect enabling = .enable true true := by
  have hroute : Route.of "POST" "/strategy/grid/enable" = some .postGridEnable := by decide +kernel
  have hread : jsonGetBool "\x7b\"enabled\":true\x7d" "enabled" = some true := by
    decide +kernel
  rw [enabling, ApiState.effect, hroute, ApiState.requestEffect, hread]
  rfl

/-- A tick that finds the strategy switched on. -/
theorem grid_tick_of_enabling (s : ApiState) (t : MarketTick Double) :
    (apiMachine.run s [enabling, .tick 0 t]).grid = (s.grid.onPriceTick t.price).1 := by
  have hgrid : (apiMachine.next s enabling).grid = s.grid := by
    rw [ApiState.grid_next, ApiState.gridOp?, effect_enabling]
    rfl
  have henabled : (apiMachine.next s enabling).strategyEnabled = true := by
    rw [ApiState.strategyEnabled_next, effect_enabling]
  have hop : (apiMachine.next s enabling).gridOp? (.tick 0 t) = some (.priceTick t.price) := by
    simp only [ApiState.gridOp?, ApiState.effect, henabled, if_true]
  rw [Machine.run_cons, Machine.run_cons, Machine.run_nil, ApiState.grid_next, hop, hgrid]
  rfl

theorem grid_config_request (s : ApiState) (env : RequestEnv) (body : Text) :
    (apiMachine.next s (.request env ⟨"POST", "/strategy/grid/config", body⟩)).grid =
      gridCalls.next s.grid (.config env.undefInt body) := by
  have hroute : Route.of "POST" "/strategy/grid/config" = some .postGridConfig := by decide +kernel
  have hstep : apiMachine.next s (.request env ⟨"POST", "/strategy/grid/config", body⟩) =
      (s.postGridConfig env body).1 := by
    rw [Machine.next]
    simp only [apiMachine, ApiState.handle, hroute]
    rfl
  rw [hstep]
  exact (postGridConfig_eq_gridCalls s env body).1

/-- Every run of calls is one of the service. -/
theorem exists_service_grid (b : Startup) (calls : List GridCall) :
    ∃ es, (service b es).grid = gridCalls.run (init b.cfg.gridDefault) calls := by
  induction calls using List.reverseRecOn with
  | nil => exact ⟨[], rfl⟩
  | append_singleton calls call ih =>
      obtain ⟨es, hes⟩ := ih
      rw [Machine.run_concat, ← hes]
      cases call with
      | tick price =>
          refine ⟨es ++ [enabling, .tick 0 ⟨"BTCUSDT", price, 0, 0, .webSocket⟩], ?_⟩
          rw [service, Machine.run_append, grid_tick_of_enabling]
          rfl
      | view => exact ⟨es, rfl⟩
      | config undefInt body =>
          refine ⟨es ++ [.request { quietEnv 0 with undefInt := undefInt }
            ⟨"POST", "/strategy/grid/config", body⟩], ?_⟩
          rw [service, Machine.run_concat, grid_config_request]

/-! ## The handlers -/

/-- `main` has built the strategy, and nobody works on the grid. -/
def gridStart (τ : Type) (b : Startup) :
    Callers τ GridCall (GridRuntimeView Double) GridPc GridAnswer :=
  begin τ GridCall GridPc GridAnswer (init b.cfg.gridDefault).runtimeView

/-- In every interleaving of any number of threads, the calls about the grid are
answered as if they ran one after the other, in the order in which they got the
lock; so each answer is one that the sequential service gives, and no view shows
a grid half built. -/
theorem handlers_are_serial {τ : Type} [DecidableEq τ] (b : Startup)
    (es : List (τ × LockAction GridCall)) :
    let calls := gridCode.entered (gridStart τ b) es
    let answers := gridCode.answered (gridStart τ b) es
    let grid := (gridCode.program τ).machine.run (gridStart τ b) es
    answers <+: served gridCalls (init b.cfg.gridDefault) calls ∧
      (grid.shared.owner = none →
        answers = served gridCalls (init b.cfg.gridDefault) calls ∧
        grid.shared.memory =
          (gridCalls.run (init b.cfg.gridDefault) (calls.map Prod.snd)).runtimeView) ∧
      (∀ t u, (grid.locals t).holds = true → (grid.locals u).holds = true → u = t) ∧
      ∀ call answer, (call, answer) ∈ answers →
        (∃ run, answer = (service b run).gridAnswer call.2) ∧
        ∀ view, answer = .view view → WholeGrid view := by
  intro calls answers grid
  have hserves := serves_run gridCode_implements (init b.cfg.gridDefault) es
  have hfirst : answers <+: served gridCalls (init b.cfg.gridDefault) calls :=
    hserves.answers_prefix_served
  refine ⟨hfirst, fun hfree ↦ (hserves.of_free hfree).symm, fun t u ↦ hserves.exclusive,
    fun call answer hanswer ↦ ?_⟩
  obtain ⟨before, -, rfl⟩ := exists_of_mem_served (hfirst.subset hanswer)
  refine ⟨?_, fun view hview ↦ ?_⟩
  · obtain ⟨run, hrun⟩ := exists_service_grid b (before.map Prod.snd)
    exact ⟨run, by rw [← hrun, gridCalls_out]⟩
  · obtain ⟨t, call⟩ := call
    cases call with
    | view =>
        obtain rfl := GridAnswer.view.inj hview
        exact wholeGrid_run _ _
    | tick price => cases hview
    | config undefInt body =>
        simp only [Machine.out, gridCalls] at hview
        split at hview <;> cases hview

/-- In the middle of the first tick the memory holds one level of a grid, and
the request that wants to see it waits. -/
example :
    let first := [(0, LockAction.call (GridCall.tick (lit 100))), (1, .call .view), (0, .acquire)]
    let grid := (gridCode.program ℕ).machine.run (gridStart ℕ liveStartup)
      (first ++ List.replicate 7 (0, .proceed) ++ [(1, .acquire)])
    grid.shared.owner = some 0 ∧ grid.shared.memory.levels.length = 1 := by
  decide +kernel

end FrogQuant.App
