import FrogQuant.Core.OrderTypes
import FrogQuant.Lib.Machine
import FrogQuant.Lib.Slots
import Mathlib.Data.List.Range

/-!
# The long-only dynamic grid

`strategy/long_grid_strategy.cpp`: a grid of price levels around an anchor.  A
tick at or below a level's buy price emits a buy for it, the fill of the buy a
sell at the level's sell price, and the grid is built anew when the price
drifts or the configuration changes.
-/

namespace FrogQuant

inductive GridLevelState where
  | idle
  | buyPlaced
  | buyFilled
  | sellPlaced
  deriving DecidableEq

variable (α : Type)

structure LongGridConfig where
  levels : ℤ
  orderQty : α
  takeProfitRatio : α
  dynamicEnabled : Bool
  recenterThresholdRatio : α
  bandRatio : α
  deriving DecidableEq

structure StrategyOrderIntent where
  side : OrderSide
  type : OrderType
  qty : α
  price : α
  gridId : ℕ
  deriving DecidableEq

structure GridLevel where
  id : ℕ
  buyPrice : α
  sellPrice : α
  state : GridLevelState
  deriving DecidableEq

structure GridRuntimeView where
  config : LongGridConfig α
  anchorPrice : α
  rebuildCount : ℕ
  levels : List (GridLevel α)
  deriving DecidableEq

/-- The strategy; the ids of its levels are `1, 2, ..` in order. -/
structure LongGridStrategy where
  cfg : LongGridConfig α
  levels : List (GridLevel α)
  anchorPrice : α
  rebuildCount : ℕ
  ids : levels.map GridLevel.id = List.range' 1 levels.length

variable {α}

/-- A buy is out for the level: `on_buy_filled` answers it. -/
def GridLevel.isOpen (lv : GridLevel α) : Bool :=
  lv.state = .buyPlaced ∨ lv.state = .buyFilled

def GridLevel.withState (state : GridLevelState) (lv : GridLevel α) : GridLevel α :=
  { lv with state := state }

@[simp] theorem GridLevel.withState_id (state : GridLevelState) (lv : GridLevel α) :
    (lv.withState state).id = lv.id := rfl

@[simp] theorem GridLevel.isOpen_withState (state : GridLevelState) (lv : GridLevel α) :
    (lv.withState state).isOpen = decide (state = .buyPlaced ∨ state = .buyFilled) := rfl

theorem GridLevel.isOpen_of_idle {lv : GridLevel α} (h : lv.state = .idle) :
    lv.isOpen = false := by
  simp [isOpen, h]

abbrev findLevel (id : ℕ) (levels : List (GridLevel α)) : Option (GridLevel α) :=
  findSlot GridLevel.id id levels

variable [Floating α]

def LongGridConfig.default : LongGridConfig α where
  levels := 8
  orderQty := lit 0.001
  takeProfitRatio := lit 0.002
  dynamicEnabled := true
  recenterThresholdRatio := lit 0.004
  bandRatio := lit 0.06

/-- `sanitize_config`: values that make no grid are replaced. -/
def LongGridConfig.sanitize (cfg : LongGridConfig α) : LongGridConfig α where
  levels := if cfg.levels < 2 then 2 else cfg.levels
  orderQty := if cfg.orderQty ≤ 0 then lit 0.001 else cfg.orderQty
  takeProfitRatio := if cfg.takeProfitRatio ≤ 0 then lit 0.002 else cfg.takeProfitRatio
  dynamicEnabled := cfg.dynamicEnabled
  recenterThresholdRatio :=
    if cfg.recenterThresholdRatio ≤ 0 then lit 0.004 else cfg.recenterThresholdRatio
  bandRatio := if cfg.bandRatio ≤ lit 0.002 then lit 0.06 else cfg.bandRatio

theorem LongGridConfig.two_le_levels_sanitize (cfg : LongGridConfig α) :
    2 ≤ cfg.sanitize.levels := by
  change 2 ≤ if cfg.levels < 2 then 2 else cfg.levels
  split_ifs with h
  · exact le_rfl
  · exact not_lt.mp h

def round2 (v : α) : α := Floating.round (v * lit 100) / lit 100

/-- The levels of a new grid, evenly spaced over the band around the anchor. -/
def gridLevels (cfg : LongGridConfig α) (anchorPrice : α) : List (GridLevel α) :=
  let half := anchorPrice * (cfg.bandRatio * lit 0.5)
  let lower := anchorPrice - half
  let upper := anchorPrice + half
  let step := (upper - lower) / lit (cfg.levels - 1)
  (List.range cfg.levels.toNat).map fun i : ℕ ↦
    let buyPx := lower + step * lit i
    let sellPx := buyPx * (lit 1 + cfg.takeProfitRatio)
    ⟨i + 1, round2 buyPx, round2 sellPx, .idle⟩

theorem map_id_gridLevels (cfg : LongGridConfig α) (anchorPrice : α) :
    (gridLevels cfg anchorPrice).map GridLevel.id =
      List.range' 1 (gridLevels cfg anchorPrice).length := by
  simp only [gridLevels, List.map_map, List.length_map, List.length_range]
  rw [List.range'_eq_map_range]
  exact List.map_congr_left fun i _ ↦ Nat.add_comm i 1

theorem idle_of_mem_gridLevels {cfg : LongGridConfig α} {anchorPrice : α} {lv : GridLevel α}
    (h : lv ∈ gridLevels cfg anchorPrice) : lv.state = .idle := by
  obtain ⟨i, -, rfl⟩ := List.mem_map.mp h
  rfl

/-- One round of the loop that picks the level for a buy: an idle level at or
above the price replaces the candidate if it is strictly closer to the price. -/
def closer (price : α) (candidate : Option (GridLevel α)) (lv : GridLevel α) :
    Option (GridLevel α) :=
  if lv.state ≠ .idle then candidate
  else if price ≤ lv.buyPrice then
    match candidate with
    | none => some lv
    | some best =>
        if fabs (lv.buyPrice - price) < fabs (best.buyPrice - price) then some lv else some best
  else candidate

def pickCandidate (price : α) (levels : List (GridLevel α)) : Option (GridLevel α) :=
  levels.foldl (closer price) none

theorem closer_cases (price : α) (candidate : Option (GridLevel α)) (lv : GridLevel α) :
    closer price candidate lv = candidate ∨
      closer price candidate lv = some lv ∧ lv.state = .idle ∧ price ≤ lv.buyPrice := by
  simp only [closer]
  split_ifs with hidle hprice
  · exact Or.inl rfl
  · rw [ne_eq, not_not] at hidle
    cases candidate with
    | none => exact Or.inr ⟨rfl, hidle, hprice⟩
    | some best =>
        simp only
        split_ifs
        · exact Or.inr ⟨rfl, hidle, hprice⟩
        · exact Or.inl rfl
  · exact Or.inl rfl

theorem pickCandidate_spec {price : α} {levels : List (GridLevel α)} {lv : GridLevel α}
    (h : pickCandidate price levels = some lv) :
    lv ∈ levels ∧ lv.state = .idle ∧ price ≤ lv.buyPrice := by
  induction levels using List.reverseRecOn with
  | nil => cases h
  | append_singleton levels next ih =>
      rw [pickCandidate, List.foldl_append, List.foldl_cons, List.foldl_nil] at h
      rcases closer_cases price (pickCandidate price levels) next with hkeep | ⟨htake, hnext⟩
      · obtain ⟨hmem, hlv⟩ := ih (hkeep.symm.trans h)
        exact ⟨List.mem_append_left _ hmem, hlv⟩
      · obtain rfl := Option.some.inj (htake.symm.trans h)
        exact ⟨by simp, hnext⟩

namespace LongGridStrategy

def init (cfg : LongGridConfig α) : LongGridStrategy α where
  cfg := cfg.sanitize
  levels := []
  anchorPrice := 0
  rebuildCount := 0
  ids := rfl

def rebuildGrid (s : LongGridStrategy α) (anchorPrice : α) : LongGridStrategy α where
  cfg := s.cfg
  levels := gridLevels s.cfg anchorPrice
  anchorPrice := anchorPrice
  rebuildCount := s.rebuildCount + 1
  ids := map_id_gridLevels s.cfg anchorPrice

omit [Floating α] in
theorem ids_write {levels : List (GridLevel α)}
    (h : levels.map GridLevel.id = List.range' 1 levels.length) (id : ℕ) (state : GridLevelState) :
    (writeSlot GridLevel.id id (.withState state) levels).map GridLevel.id =
      List.range' 1 (writeSlot GridLevel.id id (.withState state) levels).length := by
  rw [map_writeSlot (GridLevel.withState_id state), length_writeSlot, h]

def setState (s : LongGridStrategy α) (id : ℕ) (state : GridLevelState) : LongGridStrategy α :=
  { s with
    levels := writeSlot GridLevel.id id (.withState state) s.levels
    ids := ids_write s.ids id state }

omit [Floating α] in
@[simp] theorem setState_cfg (s : LongGridStrategy α) (id : ℕ) (state : GridLevelState) :
    (s.setState id state).cfg = s.cfg := rfl

omit [Floating α] in
@[simp] theorem setState_rebuildCount (s : LongGridStrategy α) (id : ℕ)
    (state : GridLevelState) : (s.setState id state).rebuildCount = s.rebuildCount := rfl

def drifted (s : LongGridStrategy α) (price : α) : Bool :=
  s.cfg.dynamicEnabled ∧
    s.cfg.recenterThresholdRatio ≤ fabs (price - s.anchorPrice) / s.anchorPrice

/-- The first part of `on_price_tick`: the first price becomes the anchor, and
a drifted price the new one. -/
def recentre (s : LongGridStrategy α) (price : α) : LongGridStrategy α :=
  let s := if s.anchorPrice ≤ 0 then s.rebuildGrid price else s
  if s.drifted price then s.rebuildGrid price else s

def onPriceTick (s : LongGridStrategy α) (price : α) :
    LongGridStrategy α × List (StrategyOrderIntent α) :=
  if price ≤ 0 then (s, [])
  else
    let s := s.recentre price
    match pickCandidate price s.levels with
    | none => (s, [])
    | some lv =>
        (s.setState lv.id .buyPlaced,
          [⟨.buy, .limit, s.cfg.orderQty, lv.buyPrice, lv.id⟩])

def onBuyFilled (s : LongGridStrategy α) (gridId : ℕ) :
    LongGridStrategy α × Option (StrategyOrderIntent α) :=
  match findLevel gridId s.levels with
  | none => (s, none)
  | some lv =>
      if lv.state ≠ .buyPlaced ∧ lv.state ≠ .buyFilled then (s, none)
      else
        (s.setState gridId .sellPlaced,
          some ⟨.sell, .limit, s.cfg.orderQty, lv.sellPrice, lv.id⟩)

def onSellFilled (s : LongGridStrategy α) (gridId : ℕ) : LongGridStrategy α :=
  match findLevel gridId s.levels with
  | none => s
  | some _ => s.setState gridId .idle

def updateConfig (s : LongGridStrategy α) (cfg : LongGridConfig α) : LongGridStrategy α :=
  let s := { s with cfg := cfg.sanitize }
  if 0 < s.anchorPrice then s.rebuildGrid s.anchorPrice else s

omit [Floating α] in
def runtimeView (s : LongGridStrategy α) : GridRuntimeView α :=
  ⟨s.cfg, s.anchorPrice, s.rebuildCount, s.levels⟩

/-! ## What an operation does to the levels -/

variable (s : LongGridStrategy α)

def Rebuilds (price : α) : Prop :=
  ¬ price ≤ 0 ∧ (s.anchorPrice ≤ 0 ∨ s.drifted price)

instance (price : α) : Decidable (s.Rebuilds price) :=
  inferInstanceAs (Decidable (¬ price ≤ 0 ∧ (s.anchorPrice ≤ 0 ∨ s.drifted price)))

theorem recentre_cases {price : α} (hprice : ¬ price ≤ 0) :
    (s.Rebuilds price ∧ (s.recentre price).cfg = s.cfg ∧
      (s.recentre price).levels = gridLevels s.cfg price ∧
      (s.recentre price).anchorPrice = price ∧
      s.rebuildCount < (s.recentre price).rebuildCount) ∨
    (¬ s.Rebuilds price ∧ s.recentre price = s) := by
  by_cases hanchor : s.anchorPrice ≤ 0
  · left
    simp only [recentre, hanchor, if_true]
    refine ⟨⟨hprice, Or.inl hanchor⟩, ?_⟩
    split_ifs
    · exact ⟨rfl, rfl, rfl, by simp only [rebuildGrid]; omega⟩
    · exact ⟨rfl, rfl, rfl, Nat.lt_succ_self _⟩
  · by_cases hdrift : s.drifted price
    · left
      simp only [recentre, hanchor, if_false, hdrift, if_true]
      exact ⟨⟨hprice, Or.inr hdrift⟩, rfl, rfl, rfl, Nat.lt_succ_self _⟩
    · right
      simp only [recentre, hanchor, if_false, hdrift]
      exact ⟨fun h ↦ h.2.elim hanchor hdrift, rfl⟩

omit [Floating α] in
theorem findLevel_of_mem {lv : GridLevel α} (h : lv ∈ s.levels) :
    findLevel lv.id s.levels = some lv := by
  refine findSlot_of_mem ?_ h
  rw [s.ids]
  exact List.nodup_range'

omit [Floating α] in
theorem findLevel_setState (id id' : ℕ) (state : GridLevelState) :
    findLevel id' (s.setState id state).levels =
      if id' = id then (findLevel id s.levels).map (.withState state)
      else findLevel id' s.levels :=
  findSlot_writeSlot (GridLevel.withState_id state) _

/-- A tick at a usable price recentres the grid and emits at most one buy, for
an idle level of it. -/
theorem onPriceTick_cases {price : α} (hprice : ¬ price ≤ 0) :
    s.onPriceTick price = (s.recentre price, []) ∨
    ∃ lv, findLevel lv.id (s.recentre price).levels = some lv ∧ lv.state = .idle ∧
      price ≤ lv.buyPrice ∧
      s.onPriceTick price =
        ((s.recentre price).setState lv.id .buyPlaced,
          [⟨.buy, .limit, (s.recentre price).cfg.orderQty, lv.buyPrice, lv.id⟩]) := by
  simp only [onPriceTick, hprice, if_false]
  cases hpick : pickCandidate price (s.recentre price).levels with
  | none => exact Or.inl rfl
  | some lv =>
      obtain ⟨hmem, hidle, hle⟩ := pickCandidate_spec hpick
      exact Or.inr ⟨lv, findLevel_of_mem _ hmem, hidle, hle, rfl⟩

@[simp] theorem updateConfig_cfg (cfg : LongGridConfig α) :
    (s.updateConfig cfg).cfg = cfg.sanitize := by
  simp only [updateConfig]
  split_ifs <;> rfl

theorem onPriceTick_of_le {price : α} (hprice : price ≤ 0) : s.onPriceTick price = (s, []) := by
  simp only [onPriceTick, hprice, if_true]

theorem onPriceTick_cfg (price : α) : (s.onPriceTick price).1.cfg = s.cfg := by
  by_cases hprice : price ≤ 0
  · rw [s.onPriceTick_of_le hprice]
  · have hrecentre : (s.recentre price).cfg = s.cfg := by
      rcases s.recentre_cases hprice with ⟨-, hcfg, -⟩ | ⟨-, hsame⟩
      · exact hcfg
      · rw [hsame]
    rcases s.onPriceTick_cases hprice with htick | ⟨lv, -, -, -, htick⟩ <;> rw [htick] <;>
      exact hrecentre

omit [Floating α] in
theorem onBuyFilled_cases (gridId : ℕ) :
    (∃ lv, findLevel gridId s.levels = some lv ∧ lv.isOpen = true ∧
      s.onBuyFilled gridId = (s.setState gridId .sellPlaced,
        some ⟨.sell, .limit, s.cfg.orderQty, lv.sellPrice, gridId⟩)) ∨
    (¬ (∃ lv, findLevel gridId s.levels = some lv ∧ lv.isOpen = true) ∧
      s.onBuyFilled gridId = (s, none)) := by
  simp only [onBuyFilled]
  cases hfind : findLevel gridId s.levels with
  | none => simp
  | some lv =>
      obtain rfl : lv.id = gridId := key_of_findSlot hfind
      by_cases hopen : lv.isOpen = true
      · left
        have hstate : ¬ (lv.state ≠ .buyPlaced ∧ lv.state ≠ .buyFilled) := by
          simp only [GridLevel.isOpen, decide_eq_true_eq] at hopen
          tauto
        exact ⟨lv, rfl, hopen, by simp only [hstate, if_false]⟩
      · right
        have hstate : lv.state ≠ .buyPlaced ∧ lv.state ≠ .buyFilled := by
          simp only [GridLevel.isOpen, decide_eq_true_eq] at hopen
          tauto
        refine ⟨fun ⟨lv', hlv', hopen'⟩ ↦ hopen (Option.some.inj hlv' ▸ hopen'), ?_⟩
        simp only [ne_eq, hstate, not_false_eq_true, and_self, if_true]

omit [Floating α] in
theorem onSellFilled_eq (gridId : ℕ) : s.onSellFilled gridId = s.setState gridId .idle := by
  simp only [onSellFilled]
  cases hfind : findLevel gridId s.levels with
  | none => simp only [setState, writeSlot_of_none hfind]
  | some lv => rfl

end LongGridStrategy

/-! ## The grid as a machine -/

inductive GridOp (α : Type) where
  | priceTick (price : α)
  | buyFilled (gridId : ℕ)
  | sellFilled (gridId : ℕ)
  | updateConfig (cfg : LongGridConfig α)

def gridMachine (α : Type) [Floating α] :
    Machine (LongGridStrategy α) (GridOp α) (List (StrategyOrderIntent α)) where
  step s op :=
    match op with
    | .priceTick price => s.onPriceTick price
    | .buyFilled gridId =>
        let (s', intent) := s.onBuyFilled gridId
        (s', intent.toList)
    | .sellFilled gridId => (s.onSellFilled gridId, [])
    | .updateConfig cfg => (s.updateConfig cfg, [])

end FrogQuant
