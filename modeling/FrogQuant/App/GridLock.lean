import FrogQuant.App.Effects
import FrogQuant.Lib.Mutex

/-!
# The lock of the grid

Two market threads and the thread of the server work on one grid.  All that
they do to it they do under `grid_mu`: the tick handler in `on_price_tick`, the
server in `GET /strategy/grid/runtime` and `POST /strategy/grid/config`.  Here
that code goes on in small steps, each of which reads or writes one field or one
level, so that half-built grids are in the memory.
-/

namespace FrogQuant.App

open LongGridStrategy

/-- What a thread wants to do to the grid. -/
inductive GridCall where
  | tick (price : Double)
  | view
  | config (undefInt : ℤ) (body : Text)

inductive GridAnswer where
  | intents (intents : List (StrategyOrderIntent Double))
  | view (view : GridRuntimeView Double)
  | reply (reply : Reply)

/-- What `runtime_view` has been called for. -/
inductive ViewUse where
  | serve
  | edit (undefInt : ℤ) (body : Text)

/-- How the code goes on after `rebuild_grid`. -/
inductive AfterRebuild where
  | drift (price : Double)
  | scan (price : Double)
  | updated

inductive GridPc where
  | guard (price : Double)
  | firstAnchor (price : Double)
  | drift (price : Double)
  | scan (price : Double) (i : ℕ) (candidate : Option ℕ)
  | place (candidate : Option ℕ)
  | emit (i : ℕ)
  | setAnchor (anchorPrice : Double) (next : AfterRebuild)
  | countRebuild (next : AfterRebuild)
  | bounds (next : AfterRebuild)
  | clear (lower step : Double) (next : AfterRebuild)
  | pushLevel (lower step : Double) (i : ℕ) (next : AfterRebuild)
  | viewConfig (use : ViewUse)
  | viewAnchor (use : ViewUse) (cfg : LongGridConfig Double)
  | viewCount (use : ViewUse) (cfg : LongGridConfig Double) (anchorPrice : Double)
  | viewLevels (use : ViewUse) (copy : GridRuntimeView Double)
  | edited (g : LongGridConfig Double)
  | sanitizeLevels
  | sanitizeQty
  | sanitizeTakeProfit
  | sanitizeThreshold
  | sanitizeBand
  | rebuildSame
  | updated

def GridPc.after : AfterRebuild → GridPc
  | .drift price => .drift price
  | .scan price => .scan price 0 none
  | .updated => .updated

def requestedConfig (undefInt : ℤ) (body : Text) (cfg : LongGridConfig Double) :
    LongGridConfig Double where
  levels := (jsonGetInt undefInt body "levels").getD cfg.levels
  orderQty := (jsonGetNumber body "order_qty").getD cfg.orderQty
  takeProfitRatio := (jsonGetNumber body "take_profit_ratio").getD cfg.takeProfitRatio
  dynamicEnabled := (jsonGetBool body "dynamic_enabled").getD cfg.dynamicEnabled
  recenterThresholdRatio :=
    (jsonGetNumber body "recenter_threshold_ratio").getD cfg.recenterThresholdRatio
  bandRatio := (jsonGetNumber body "band_ratio").getD cfg.bandRatio

def GridPc.viewed : ViewUse → GridRuntimeView Double → GridPc ⊕ GridAnswer
  | .serve, copy => .inr (.view copy)
  | .edit undefInt body, copy => .inl (.edited (requestedConfig undefInt body copy.config))

/-- The answer of the route to settings out of range. -/
def configRefusal (g : LongGridConfig Double) : Option Reply :=
  if g.levels < 2 ∨ 200 < g.levels then
    some (.of 400 (errorBody "E_CFG_LEVELS_RANGE" "levels must be in [2,200]"))
  else if g.orderQty ≤ 0 ∨ lit 1000 < g.orderQty then
    some (.of 400 (errorBody "E_CFG_QTY_RANGE" "order_qty must be in (0,1000]"))
  else none

/-- The candidate is a pointer into the levels. -/
def closerAt (price : Double) (levels : List (GridLevel Double)) (candidate : Option ℕ) (i : ℕ)
    (lv : GridLevel Double) : Option ℕ :=
  if lv.state ≠ .idle then candidate
  else if price ≤ lv.buyPrice then
    match candidate.bind (levels[·]?) with
    | none => some i
    | some best =>
        if fabs (lv.buyPrice - price) < fabs (best.buyPrice - price) then some i else candidate
  else candidate

def levelAt (cfg : LongGridConfig Double) (lower step : Double) (i : ℕ) : GridLevel Double :=
  let buyPx := lower + step * lit i
  let sellPx := buyPx * (lit 1 + cfg.takeProfitRatio)
  ⟨i + 1, round2 buyPx, round2 sellPx, .idle⟩

/-- One step of the code under the lock.  The memory is that of the strategy,
field by field. -/
def gridStep (s : GridRuntimeView Double) :
    GridPc → GridRuntimeView Double × (GridPc ⊕ GridAnswer)
  -- `on_price_tick`
  | .guard price => (s, if price ≤ 0 then .inr (.intents []) else .inl (.firstAnchor price))
  | .firstAnchor price =>
      (s, .inl (if s.anchorPrice ≤ 0 then .setAnchor price (.drift price) else .drift price))
  | .drift price =>
      let drifted : Bool := s.config.dynamicEnabled ∧
        s.config.recenterThresholdRatio ≤ fabs (price - s.anchorPrice) / s.anchorPrice
      (s, .inl (if drifted then .setAnchor price (.scan price) else .scan price 0 none))
  | .scan price i candidate =>
      match s.levels[i]? with
      | none => (s, .inl (.place candidate))
      | some lv => (s, .inl (.scan price (i + 1) (closerAt price s.levels candidate i lv)))
  | .place none => (s, .inr (.intents []))
  | .place (some i) =>
      ({ s with levels := s.levels.modify i (.withState .buyPlaced) }, .inl (.emit i))
  | .emit i =>
      (s, .inr (.intents (s.levels[i]?.toList.map fun lv ↦
        ⟨.buy, .limit, s.config.orderQty, lv.buyPrice, lv.id⟩)))
  -- `rebuild_grid`
  | .setAnchor anchorPrice next =>
      ({ s with anchorPrice := anchorPrice }, .inl (.countRebuild next))
  | .countRebuild next => ({ s with rebuildCount := s.rebuildCount + 1 }, .inl (.bounds next))
  | .bounds next =>
      let half := s.anchorPrice * (s.config.bandRatio * lit 0.5)
      let lower := s.anchorPrice - half
      let upper := s.anchorPrice + half
      (s, .inl (.clear lower ((upper - lower) / lit (s.config.levels - 1)) next))
  | .clear lower step next => ({ s with levels := [] }, .inl (.pushLevel lower step 0 next))
  | .pushLevel lower step i next =>
      if i < s.config.levels then
        ({ s with levels := s.levels ++ [levelAt s.config lower step i] },
          .inl (.pushLevel lower step (i + 1) next))
      else (s, .inl (.after next))
  -- `runtime_view`
  | .viewConfig use => (s, .inl (.viewAnchor use s.config))
  | .viewAnchor use cfg => (s, .inl (.viewCount use cfg s.anchorPrice))
  | .viewCount use cfg anchorPrice =>
      (s, .inl (.viewLevels use ⟨cfg, anchorPrice, s.rebuildCount, []⟩))
  | .viewLevels use copy =>
      match s.levels[copy.levels.length]? with
      | none => (s, GridPc.viewed use copy)
      | some lv => (s, .inl (.viewLevels use { copy with levels := copy.levels ++ [lv] }))
  -- the rest of `POST /strategy/grid/config`, with `update_config`
  | .edited g =>
      match configRefusal g with
      | some reply => (s, .inr (.reply reply))
      | none => ({ s with config := g }, .inl .sanitizeLevels)
  | .sanitizeLevels =>
      ({ s with config.levels := if s.config.levels < 2 then 2 else s.config.levels },
        .inl .sanitizeQty)
  | .sanitizeQty =>
      ({ s with config.orderQty :=
          if s.config.orderQty ≤ 0 then lit 0.001 else s.config.orderQty },
        .inl .sanitizeTakeProfit)
  | .sanitizeTakeProfit =>
      ({ s with config.takeProfitRatio :=
          if s.config.takeProfitRatio ≤ 0 then lit 0.002 else s.config.takeProfitRatio },
        .inl .sanitizeThreshold)
  | .sanitizeThreshold =>
      ({ s with config.recenterThresholdRatio :=
          if s.config.recenterThresholdRatio ≤ 0 then lit 0.004
          else s.config.recenterThresholdRatio },
        .inl .sanitizeBand)
  | .sanitizeBand =>
      ({ s with config.bandRatio :=
          if s.config.bandRatio ≤ lit 0.002 then lit 0.06 else s.config.bandRatio },
        .inl .rebuildSame)
  | .rebuildSame =>
      (s, .inl (if 0 < s.anchorPrice then .setAnchor s.anchorPrice .updated else .updated))
  | .updated => (s, .inr (.reply (.of 200 (okBody []))))

def gridCode : LockedCode GridCall (GridRuntimeView Double) GridPc GridAnswer where
  start
    | .tick price => .guard price
    | .view => .viewConfig .serve
    | .config undefInt body => .viewConfig (.edit undefInt body)
  step := gridStep

/-! ## One call after the other -/

/-- The grid without threads: each call in one step. -/
def gridCalls : Machine (LongGridStrategy Double) GridCall GridAnswer where
  step s call :=
    match call with
    | .tick price =>
        let (s', intents) := s.onPriceTick price
        (s', .intents intents)
    | .view => (s, .view s.runtimeView)
    | .config undefInt body =>
        let g := requestedConfig undefInt body s.cfg
        match configRefusal g with
        | some reply => (s, .reply reply)
        | none => (s.updateConfig g, .reply (.of 200 (okBody [])))

/-! ## The code, left alone -/

/-- The part of `on_price_tick` behind the rebuilds. -/
def placeBuy (a : LongGridStrategy Double) (price : Double) :
    LongGridStrategy Double × List (StrategyOrderIntent Double) :=
  match pickCandidate price a.levels with
  | none => (a, [])
  | some lv =>
      (a.setState lv.id .buyPlaced, [⟨.buy, .limit, a.cfg.orderQty, lv.buyPrice, lv.id⟩])

section Alone

variable {s s' : GridRuntimeView Double} {r : GridAnswer} {next : AfterRebuild}

theorem ends_pushLevel {lower step : Double} {i m : ℕ} (hm : i + m = s.config.levels.toNat)
    (h : gridCode.Ends
      { s with levels := (List.range s.config.levels.toNat).map (levelAt s.config lower step) }
      (.after next) s' r) :
    gridCode.Ends { s with levels := (List.range i).map (levelAt s.config lower step) }
      (.pushLevel lower step i next) s' r := by
  induction m generalizing i with
  | zero =>
      have hi : ¬ (i : ℤ) < s.config.levels := by omega
      rw [Nat.add_zero] at hm
      rw [← hm] at h
      exact .more (if_neg hi) h
  | succ m ih =>
      have hi : (i : ℤ) < s.config.levels := by omega
      have hrest := ih (i := i + 1) (by omega)
      rw [List.range_succ, List.map_append] at hrest
      exact .more (if_pos hi) hrest

/-- `rebuild_grid` builds the grid of the model. -/
theorem ends_rebuild {a : LongGridStrategy Double} {anchorPrice : Double}
    (h : gridCode.Ends (a.rebuildGrid anchorPrice).runtimeView (.after next) s' r) :
    gridCode.Ends a.runtimeView (.setAnchor anchorPrice next) s' r := by
  refine .more rfl (.more rfl (.more rfl (.more rfl ?_)))
  exact ends_pushLevel (s := (a.rebuildGrid anchorPrice).runtimeView) (i := 0) (Nat.zero_add _) h

/-- Where a walk along a list is at an element, and what is left behind it. -/
theorem of_drop_eq_cons {β : Type} {xs rest : List β} {x : β} {i : ℕ}
    (h : xs.drop i = x :: rest) : xs[i]? = some x ∧ xs.drop (i + 1) = rest := by
  constructor
  · rw [← Nat.add_zero i, ← List.getElem?_drop, h]
    rfl
  · rw [← List.drop_drop, h]
    rfl

/-- Copying the levels one by one copies them all. -/
theorem ends_viewLevels {use : ViewUse} {rest : List (GridLevel Double)} {i : ℕ}
    (hrest : s.levels.drop i = rest) (hi : i ≤ s.levels.length)
    (h : gridCode.Ends s (.viewLevels use s) s' r) :
    gridCode.Ends s (.viewLevels use { s with levels := s.levels.take i }) s' r := by
  induction rest generalizing i with
  | nil =>
      rw [List.take_of_length_le (List.drop_eq_nil_iff.mp hrest)]
      exact h
  | cons lv rest ih =>
      obtain ⟨hlv, hdrop⟩ := of_drop_eq_cons hrest
      obtain ⟨hlt, -⟩ := List.getElem?_eq_some_iff.mp hlv
      have hnext := ih hdrop hlt
      rw [List.take_add_one, hlv] at hnext
      refine .more ?_ hnext
      simp only [gridCode, gridStep, List.length_take, Nat.min_eq_left hi, hlv]
      rfl

/-- The pointer and the level it points to. -/
inductive Points (levels : List (GridLevel Double)) :
    Option ℕ → Option (GridLevel Double) → Prop where
  | nowhere : Points levels none none
  | level {i : ℕ} {lv : GridLevel Double} (h : levels[i]? = some lv) :
      Points levels (some i) (some lv)

theorem Points.closer {price : Double} {levels : List (GridLevel Double)} {candidate : Option ℕ}
    {best : Option (GridLevel Double)} (h : Points levels candidate best) {i : ℕ}
    {lv : GridLevel Double} (hlv : levels[i]? = some lv) :
    Points levels (closerAt price levels candidate i lv) (FrogQuant.closer price best lv) := by
  simp only [closerAt, FrogQuant.closer]
  split_ifs with hidle hprice
  · exact h
  · cases h with
    | nowhere => exact .level hlv
    | level hbest =>
        simp only [Option.bind_some, hbest]
        split_ifs
        · exact .level hlv
        · exact .level hbest
  · exact h

/-- The loop over the levels ends with a pointer to the level that the model
picks. -/
theorem ends_scan {price : Double} {rest : List (GridLevel Double)} {i : ℕ}
    {candidate : Option ℕ} {best : Option (GridLevel Double)}
    (hpoints : Points s.levels candidate best) (hrest : s.levels.drop i = rest)
    (h : ∀ chosen, Points s.levels chosen (rest.foldl (closer price) best) →
      gridCode.Ends s (.place chosen) s' r) :
    gridCode.Ends s (.scan price i candidate) s' r := by
  induction rest generalizing i candidate best with
  | nil =>
      refine .more ?_ (h candidate hpoints)
      simp only [gridCode, gridStep, List.getElem?_eq_none (List.drop_eq_nil_iff.mp hrest)]
  | cons lv rest ih =>
      obtain ⟨hlv, hdrop⟩ := of_drop_eq_cons hrest
      have hstep : gridCode.step s (.scan price i candidate) =
          (s, .inl (.scan price (i + 1) (closerAt price s.levels candidate i lv))) := by
        simp only [gridCode, gridStep, hlv]
      exact .more hstep (ih (hpoints.closer hlv) hdrop h)

variable (a : LongGridStrategy Double)

theorem ends_placeBuy (price : Double) :
    gridCode.Ends a.runtimeView (.scan price 0 none) (placeBuy a price).1.runtimeView
      (.intents (placeBuy a price).2) := by
  rw [placeBuy]
  refine ends_scan .nowhere rfl fun chosen hchosen ↦ ?_
  change Points a.levels chosen (pickCandidate price a.levels) at hchosen
  generalize pickCandidate price a.levels = best at hchosen ⊢
  cases hchosen with
  | nowhere => exact .last rfl
  | @level i lv hlv =>
      have hnodup : (a.levels.map GridLevel.id).Nodup := by
        rw [a.ids]
        exact List.nodup_range'
      have hwrite : (a.setState lv.id .buyPlaced).levels =
          a.levels.modify i (.withState .buyPlaced) := writeSlot_eq_modify hnodup hlv
      have hplace : gridCode.step a.runtimeView (.place (some i)) =
          ((a.setState lv.id .buyPlaced).runtimeView, .inl (.emit i)) := by
        simp only [gridCode, gridStep, runtimeView, hwrite]
        rfl
      have hemit : gridCode.step (a.setState lv.id .buyPlaced).runtimeView (.emit i) =
          ((a.setState lv.id .buyPlaced).runtimeView,
            .inr (.intents [⟨.buy, .limit, a.cfg.orderQty, lv.buyPrice, lv.id⟩])) := by
        simp only [gridCode, gridStep, runtimeView, hwrite, List.getElem?_modify_eq, hlv]
        rfl
      exact .more hplace (.last hemit)

theorem ends_drift {price : Double}
    (h : gridCode.Ends (if a.drifted price then a.rebuildGrid price else a).runtimeView
      (.scan price 0 none) s' r) :
    gridCode.Ends a.runtimeView (.drift price) s' r := by
  have hstep : gridCode.step a.runtimeView (.drift price) =
      (a.runtimeView, .inl (if a.drifted price then .setAnchor price (.scan price)
        else .scan price 0 none)) := rfl
  refine .more hstep ?_
  split_ifs at h ⊢
  · exact ends_rebuild h
  · exact h

/-- Left alone, the code of a tick does what `onPriceTick` does. -/
theorem ends_onPriceTick (price : Double) :
    gridCode.Ends a.runtimeView (.guard price) (a.onPriceTick price).1.runtimeView
      (.intents (a.onPriceTick price).2) := by
  by_cases hprice : price ≤ 0
  · rw [a.onPriceTick_of_le hprice]
    refine .last ?_
    simp only [gridCode, gridStep, hprice, if_true]
  · have htick : a.onPriceTick price = placeBuy (a.recentre price) price := by
      simp only [onPriceTick, hprice, if_false, placeBuy]
      cases pickCandidate price (a.recentre price).levels <;> rfl
    have hpick := ends_placeBuy (a.recentre price) price
    have hguard : gridCode.step a.runtimeView (.guard price) =
        (a.runtimeView, .inl (.firstAnchor price)) := by
      simp only [gridCode, gridStep, hprice, if_false]
    have hfirst : gridCode.step a.runtimeView (.firstAnchor price) =
        (a.runtimeView, .inl (if a.anchorPrice ≤ 0 then .setAnchor price (.drift price)
          else .drift price)) := rfl
    rw [← htick] at hpick
    refine .more hguard (.more hfirst ?_)
    simp only [recentre] at hpick
    by_cases hanchor : a.anchorPrice ≤ 0
    · rw [if_pos hanchor] at hpick ⊢
      exact ends_rebuild (ends_drift _ hpick)
    · rw [if_neg hanchor] at hpick ⊢
      exact ends_drift _ hpick

theorem ends_updateConfig (g : LongGridConfig Double) :
    gridCode.Ends { a.runtimeView with config := g } .sanitizeLevels
      (a.updateConfig g).runtimeView (.reply (.of 200 (okBody []))) := by
  have hstep : gridCode.step { a with cfg := g.sanitize }.runtimeView .rebuildSame =
      ({ a with cfg := g.sanitize }.runtimeView,
        .inl (if 0 < a.anchorPrice then .setAnchor a.anchorPrice .updated else .updated)) := rfl
  refine .more rfl (.more rfl (.more rfl (.more rfl (.more rfl (.more hstep ?_)))))
  simp only [updateConfig]
  split_ifs
  · exact ends_rebuild (.last rfl)
  · exact .last rfl

/-- `runtime_view` copies what is in the memory. -/
theorem ends_view {use : ViewUse} (h : gridCode.Ends s (.viewLevels use s) s' r) :
    gridCode.Ends s (.viewConfig use) s' r :=
  .more rfl (.more rfl (.more rfl (ends_viewLevels (i := 0) rfl (Nat.zero_le _) h)))

theorem step_viewLevels (use : ViewUse) :
    gridCode.step s (.viewLevels use s) = (s, GridPc.viewed use s) := by
  simp only [gridCode, gridStep, List.getElem?_eq_none (le_refl s.levels.length)]

end Alone

/-- Each call, left alone, is one step of the strategy. -/
theorem gridCode_implements : gridCode.Implements gridCalls runtimeView := by
  intro a call
  cases call with
  | tick price => exact ends_onPriceTick a price
  | view => exact ends_view (.last (step_viewLevels _))
  | config undefInt body =>
      refine ends_view (.more (step_viewLevels _) ?_)
      rw [Machine.next, Machine.out]
      simp only [gridCalls]
      cases hrefused : configRefusal (requestedConfig undefInt body a.cfg) with
      | some reply =>
          refine .last ?_
          simp only [gridCode, gridStep, runtimeView, hrefused]
      | none =>
          refine .more ?_ (ends_updateConfig a _)
          simp only [gridCode, gridStep, runtimeView, hrefused]

end FrogQuant.App
