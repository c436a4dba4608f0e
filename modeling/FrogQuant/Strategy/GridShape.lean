import FrogQuant.Strategy.LongGridStrategy
import FrogQuant.Lib.Rounding
import Mathlib.Tactic.FieldSimp
import Mathlib.Tactic.Positivity

/-!
# The shape of the grid

Over exact prices, the levels are those of a grid built at the anchor from the
configuration in force, whatever their states, and no step divides by zero.
-/

namespace FrogQuant

theorem round2_rat (v : ℚ) : round2 v = (roundAway (v * 100) : ℚ) / 100 := rfl

theorem round2_mono : Monotone (round2 : ℚ → ℚ) := by
  intro v w hvw
  rw [round2_rat, round2_rat]
  have hround : roundAway (v * 100) ≤ roundAway (w * 100) := roundAway_mono (by linarith)
  have hcast : (roundAway (v * 100) : ℚ) ≤ roundAway (w * 100) := Int.cast_le.mpr hround
  linarith

/-! ## The configuration -/

namespace LongGridConfig

/-- What `sanitize_config` sees to. -/
structure InRange (cfg : LongGridConfig ℚ) : Prop where
  levels : 2 ≤ cfg.levels
  orderQty : 0 < cfg.orderQty
  takeProfitRatio : 0 < cfg.takeProfitRatio
  recenterThresholdRatio : 0 < cfg.recenterThresholdRatio
  bandRatio : 0.002 < cfg.bandRatio

theorem inRange_sanitize (cfg : LongGridConfig ℚ) : cfg.sanitize.InRange := by
  constructor <;> simp only [sanitize, lit_rat] <;> split_ifs with h
  · exact le_rfl
  · exact not_lt.mp h
  · norm_num
  · exact not_le.mp h
  · norm_num
  · exact not_le.mp h
  · norm_num
  · exact not_le.mp h
  · norm_num
  · exact not_le.mp h

/-- The price of a level before it is rounded. -/
def levelPrice (cfg : LongGridConfig ℚ) (anchorPrice : ℚ) (i : ℕ) : ℚ :=
  anchorPrice * (1 - cfg.bandRatio / 2) +
    i * anchorPrice * cfg.bandRatio / (cfg.levels - 1)

variable {cfg : LongGridConfig ℚ} {anchorPrice : ℚ}

theorem levels_sub_one_pos (h : 2 ≤ cfg.levels) : (0 : ℚ) < cfg.levels - 1 := by
  have hlevels : (2 : ℚ) ≤ cfg.levels := by exact_mod_cast h
  linarith

theorem InRange.toNat_levels (h : cfg.InRange) : (cfg.levels.toNat : ℤ) = cfg.levels :=
  Int.toNat_of_nonneg (by have := h.levels; omega)

theorem InRange.bandRatio_pos (h : cfg.InRange) : 0 < cfg.bandRatio := by
  have hband := h.bandRatio
  norm_num at hband
  linarith

theorem levelPrice_zero : cfg.levelPrice anchorPrice 0 = anchorPrice * (1 - cfg.bandRatio / 2) := by
  simp [levelPrice]

theorem levelPrice_last (h : 2 ≤ cfg.levels) :
    cfg.levelPrice anchorPrice (cfg.levels.toNat - 1) = anchorPrice * (1 + cfg.bandRatio / 2) := by
  have hne := (levels_sub_one_pos h).ne'
  have hcast : ((cfg.levels.toNat - 1 : ℕ) : ℚ) = cfg.levels - 1 := by
    rw [Nat.cast_sub (by omega), ← Int.cast_natCast, Int.toNat_of_nonneg (by omega), Nat.cast_one]
  rw [levelPrice, hcast]
  field_simp
  ring

theorem levelPrice_mono (h : cfg.InRange) (hanchor : 0 < anchorPrice) :
    Monotone (cfg.levelPrice anchorPrice) := by
  intro i j hij
  have hcast : (i : ℚ) ≤ j := Nat.cast_le.mpr hij
  have hband := h.bandRatio_pos
  have hlevels := levels_sub_one_pos h.levels
  unfold levelPrice
  gcongr

theorem levelPrice_nonneg (h : cfg.InRange) (hanchor : 0 < anchorPrice) (hband : cfg.bandRatio ≤ 2)
    (i : ℕ) : 0 ≤ cfg.levelPrice anchorPrice i := by
  refine le_trans ?_ (levelPrice_mono h hanchor (Nat.zero_le i))
  rw [levelPrice_zero]
  exact mul_nonneg hanchor.le (by linarith)

end LongGridConfig

open LongGridConfig

theorem gridLevels_eq (cfg : LongGridConfig ℚ) (anchorPrice : ℚ) :
    gridLevels cfg anchorPrice = (List.range cfg.levels.toNat).map fun i : ℕ ↦
      ⟨i + 1, round2 (cfg.levelPrice anchorPrice i),
        round2 (cfg.levelPrice anchorPrice i * (1 + cfg.takeProfitRatio)), .idle⟩ := by
  have hprice : ∀ i : ℕ, anchorPrice - anchorPrice * (cfg.bandRatio * 0.5) +
      (anchorPrice + anchorPrice * (cfg.bandRatio * 0.5) -
        (anchorPrice - anchorPrice * (cfg.bandRatio * 0.5))) / (cfg.levels - 1) * i =
      cfg.levelPrice anchorPrice i := by
    intro i
    unfold levelPrice
    ring
  simp only [gridLevels, lit_rat, hprice]

theorem map_idle_gridLevels {cfg : LongGridConfig ℚ} {anchorPrice : ℚ} :
    (gridLevels cfg anchorPrice).map (.withState .idle) = gridLevels cfg anchorPrice := by
  rw [gridLevels_eq, List.map_map]
  rfl

namespace LongGridStrategy

/-- No positive price has arrived. -/
def Unbuilt (s : LongGridStrategy ℚ) : Prop :=
  s.anchorPrice = 0 ∧ s.rebuildCount = 0 ∧ s.levels = []

/-- The levels are those of a grid built at the anchor; only their states may
have moved. -/
def OnGrid (s : LongGridStrategy ℚ) : Prop :=
  0 < s.anchorPrice ∧ s.levels.map (.withState .idle) = gridLevels s.cfg s.anchorPrice

/-- What can be read off a grid: the number of levels, their ids and prices,
and the order of the prices. -/
structure Built (s : LongGridStrategy ℚ) : Prop where
  anchor_pos : 0 < s.anchorPrice
  length_eq : (s.levels.length : ℤ) = s.cfg.levels
  level : ∀ i lv, s.levels[i]? = some lv → lv.id = i + 1 ∧
    lv.buyPrice = round2 (s.cfg.levelPrice s.anchorPrice i) ∧
    lv.sellPrice =
      round2 (s.cfg.levelPrice s.anchorPrice i * (1 + s.cfg.takeProfitRatio))
  sorted : (s.levels.map GridLevel.buyPrice).Pairwise (· ≤ ·)
  lowest : (s.levels.map GridLevel.buyPrice).head? =
    some (round2 (s.anchorPrice * (1 - s.cfg.bandRatio / 2)))
  highest : (s.levels.map GridLevel.buyPrice).getLast? =
    some (round2 (s.anchorPrice * (1 + s.cfg.bandRatio / 2)))
  profit : s.cfg.bandRatio ≤ 2 → ∀ lv ∈ s.levels, lv.buyPrice ≤ lv.sellPrice

/-- The values that a step divides by, in the order of the source, except the
constant of `round2`: the number of levels less one for each rebuild, and the
anchor where the drift is looked at. -/
def divisors (s : LongGridStrategy ℚ) : GridOp ℚ → List ℚ
  | .priceTick price =>
      if price ≤ 0 then []
      else
        let first := if s.anchorPrice ≤ 0 then [(s.cfg.levels : ℚ) - 1] else []
        let s := if s.anchorPrice ≤ 0 then s.rebuildGrid price else s
        first ++ (if s.cfg.dynamicEnabled then [s.anchorPrice] else []) ++
          (if s.drifted price then [(s.cfg.levels : ℚ) - 1] else [])
  | .updateConfig cfg =>
      if 0 < s.anchorPrice then [(cfg.sanitize.levels : ℚ) - 1] else []
  | .buyFilled _ | .sellFilled _ => []

variable {s : LongGridStrategy ℚ}

/-! ## Reading off a grid -/

theorem OnGrid.map_eq (h : s.OnGrid) {γ : Type} {g : GridLevel ℚ → γ}
    (hg : ∀ lv : GridLevel ℚ, g (lv.withState .idle) = g lv) :
    s.levels.map g = (gridLevels s.cfg s.anchorPrice).map g := by
  rw [← h.2, List.map_map]
  exact List.map_congr_left fun lv _ ↦ (hg lv).symm

theorem OnGrid.buyPrices (h : s.OnGrid) :
    s.levels.map GridLevel.buyPrice = (List.range s.cfg.levels.toNat).map fun i ↦
      round2 (s.cfg.levelPrice s.anchorPrice i) := by
  rw [h.map_eq fun _ ↦ rfl, gridLevels_eq, List.map_map]
  rfl

theorem OnGrid.length_levels (h : s.OnGrid) : s.levels.length = s.cfg.levels.toNat := by
  have hlength := congrArg List.length h.buyPrices
  simpa using hlength

theorem OnGrid.level (h : s.OnGrid) {i : ℕ} {lv : GridLevel ℚ} (hlv : s.levels[i]? = some lv) :
    lv.id = i + 1 ∧ lv.buyPrice = round2 (s.cfg.levelPrice s.anchorPrice i) ∧
      lv.sellPrice =
        round2 (s.cfg.levelPrice s.anchorPrice i * (1 + s.cfg.takeProfitRatio)) := by
  have hi : i < s.cfg.levels.toNat := h.length_levels ▸ (List.getElem?_eq_some_iff.mp hlv).1
  have hget := congrArg (fun levels ↦ levels[i]?) h.2
  simp only [gridLevels_eq, List.getElem?_map, hlv, List.getElem?_range hi, Option.map_some,
    Option.some.injEq, GridLevel.withState, GridLevel.mk.injEq] at hget
  exact ⟨hget.1, hget.2.1, hget.2.2.1⟩

theorem OnGrid.sorted (h : s.OnGrid) (hcfg : s.cfg.InRange) :
    (s.levels.map GridLevel.buyPrice).Pairwise (· ≤ ·) := by
  rw [h.buyPrices, List.pairwise_map]
  refine List.pairwise_lt_range.imp fun hij ↦ ?_
  exact round2_mono (levelPrice_mono hcfg h.1 hij.le)

theorem OnGrid.profit (h : s.OnGrid) (hcfg : s.cfg.InRange) (hband : s.cfg.bandRatio ≤ 2)
    {lv : GridLevel ℚ} (hlv : lv ∈ s.levels) : lv.buyPrice ≤ lv.sellPrice := by
  obtain ⟨i, hi⟩ := List.getElem?_of_mem hlv
  obtain ⟨-, hbuy, hsell⟩ := h.level hi
  have hgain := mul_nonneg (levelPrice_nonneg hcfg h.1 hband i) hcfg.takeProfitRatio.le
  rw [hbuy, hsell]
  apply round2_mono
  linarith

theorem OnGrid.built (h : s.OnGrid) (hcfg : s.cfg.InRange) : s.Built where
  anchor_pos := h.1
  length_eq := by rw [h.length_levels, hcfg.toNat_levels]
  level := fun _ _ hlv ↦ h.level hlv
  sorted := h.sorted hcfg
  lowest := by
    have hpos : 0 < s.cfg.levels.toNat := by have := hcfg.levels; omega
    rw [h.buyPrices, List.head?_map, List.head?_range, if_neg hpos.ne', Option.map_some,
      levelPrice_zero]
  highest := by
    have hpos : 0 < s.cfg.levels.toNat := by have := hcfg.levels; omega
    rw [h.buyPrices, List.getLast?_map, List.getLast?_range, if_neg hpos.ne', Option.map_some,
      levelPrice_last hcfg.levels]
  profit := fun hband _ hlv ↦ h.profit hcfg hband hlv

/-! ## One step -/

theorem onGrid_rebuild {anchorPrice : ℚ} (hanchor : 0 < anchorPrice) {s' : LongGridStrategy ℚ}
    (hlevels : s'.levels = gridLevels s'.cfg anchorPrice) (h : s'.anchorPrice = anchorPrice) :
    s'.OnGrid := by
  refine ⟨h ▸ hanchor, ?_⟩
  rw [hlevels, map_idle_gridLevels, h]

theorem OnGrid.setState (h : s.OnGrid) (id : ℕ) (state : GridLevelState) :
    (s.setState id state).OnGrid := by
  have hkeep : (s.setState id state).levels.map (GridLevel.withState .idle) =
      s.levels.map (GridLevel.withState .idle) :=
    map_writeSlot (f := GridLevel.withState state) (fun _ ↦ rfl) s.levels
  exact ⟨h.1, hkeep.trans h.2⟩

theorem OnGrid.recentre (h : s.anchorPrice = 0 ∨ s.OnGrid) {price : ℚ} (hprice : 0 < price) :
    (s.recentre price).OnGrid := by
  rcases s.recentre_cases (not_le.mpr hprice) with ⟨-, hcfg, hlevels, hanchor, -⟩ | ⟨hno, hsame⟩
  · exact onGrid_rebuild hprice (by rw [hlevels, hcfg]) hanchor
  · rw [hsame]
    refine h.resolve_left fun hzero ↦ hno ⟨not_le.mpr hprice, Or.inl hzero.le⟩

theorem OnGrid.tick (h : s.anchorPrice = 0 ∨ s.OnGrid) {price : ℚ} (hprice : 0 < price) :
    (s.onPriceTick price).1.OnGrid := by
  rcases s.onPriceTick_cases (not_le.mpr hprice) with hnone | ⟨lv, -, -, -, hemit⟩
  · rw [hnone]
    exact OnGrid.recentre h hprice
  · rw [hemit]
    exact (OnGrid.recentre h hprice).setState _ _

theorem OnGrid.next (h : s.OnGrid) (op : GridOp ℚ) : ((gridMachine ℚ).next s op).OnGrid := by
  cases op with
  | priceTick price =>
      simp only [Machine.next, gridMachine]
      rcases le_or_gt price 0 with hprice | hprice
      · rwa [onPriceTick_of_le s hprice]
      · exact OnGrid.tick (Or.inr h) hprice
  | buyFilled gridId =>
      simp only [Machine.next, gridMachine]
      rcases s.onBuyFilled_cases gridId with ⟨lv, -, -, hfill⟩ | ⟨-, hfill⟩
      · rw [hfill]
        exact h.setState _ _
      · rwa [hfill]
  | sellFilled gridId =>
      simp only [Machine.next, gridMachine, onSellFilled_eq]
      exact h.setState _ _
  | updateConfig cfg =>
      simp only [Machine.next, gridMachine, updateConfig, h.1, if_true]
      exact onGrid_rebuild h.1 rfl rfl

def IsTick : GridOp ℚ → Prop
  | .priceTick price => 0 < price
  | _ => False

theorem Unbuilt.next_of_tick (h : s.Unbuilt) {op : GridOp ℚ} (hop : IsTick op) :
    ((gridMachine ℚ).next s op).OnGrid := by
  cases op with
  | priceTick price => exact OnGrid.tick (Or.inl h.1) hop
  | buyFilled gridId => exact hop.elim
  | sellFilled gridId => exact hop.elim
  | updateConfig cfg => exact hop.elim

theorem Unbuilt.next (h : s.Unbuilt) {op : GridOp ℚ} (hop : ¬ IsTick op) :
    ((gridMachine ℚ).next s op).Unbuilt := by
  obtain ⟨hanchor, hcount, hlevels⟩ := h
  have hfind : ∀ id, findLevel id s.levels = none := fun id ↦ by rw [hlevels]; rfl
  cases op with
  | priceTick price =>
      simp only [Machine.next, gridMachine, onPriceTick_of_le s (not_lt.mp hop)]
      exact ⟨hanchor, hcount, hlevels⟩
  | buyFilled gridId =>
      simp only [Machine.next, gridMachine, onBuyFilled, hfind]
      exact ⟨hanchor, hcount, hlevels⟩
  | sellFilled gridId =>
      simp only [Machine.next, gridMachine, onSellFilled, hfind]
      exact ⟨hanchor, hcount, hlevels⟩
  | updateConfig cfg =>
      simp only [Machine.next, gridMachine, updateConfig, hanchor, lt_irrefl, if_false]
      exact ⟨rfl, hcount, hlevels⟩

theorem inRange_next (h : s.cfg.InRange) (op : GridOp ℚ) :
    ((gridMachine ℚ).next s op).cfg.InRange := by
  cases op with
  | priceTick price => exact (s.onPriceTick_cfg price).symm ▸ h
  | buyFilled gridId =>
      simp only [Machine.next, gridMachine]
      rcases s.onBuyFilled_cases gridId with ⟨lv, -, -, hfill⟩ | ⟨-, hfill⟩ <;> rwa [hfill]
  | sellFilled gridId =>
      simp only [Machine.next, gridMachine, onSellFilled_eq]
      exact h
  | updateConfig cfg =>
      simp only [Machine.next, gridMachine, updateConfig_cfg]
      exact inRange_sanitize cfg

theorem divisors_ne_zero (hcfg : s.cfg.InRange) (hanchor : 0 ≤ s.anchorPrice) (op : GridOp ℚ) :
    0 ∉ s.divisors op := by
  have hlevels := (levels_sub_one_pos hcfg.levels).ne
  cases op with
  | priceTick price =>
      rcases le_or_gt price 0 with hprice | hprice
      · simp [divisors, hprice]
      · rcases hanchor.eq_or_lt with hzero | hpos
        · simp [divisors, not_le.mpr hprice, ← hzero, rebuildGrid, hlevels, hprice.ne]
        · simp [divisors, not_le.mpr hprice, not_le.mpr hpos, hlevels, hpos.ne]
  | buyFilled gridId => simp [divisors]
  | sellFilled gridId => simp [divisors]
  | updateConfig cfg =>
      have hlevels' := (levels_sub_one_pos (inRange_sanitize cfg).levels).ne
      simp [divisors, hlevels']

/-! ## Every run -/

/-- The invariant of a run, with the history that decides which side holds. -/
structure Shaped (ops : List (GridOp ℚ)) (s : LongGridStrategy ℚ) : Prop where
  cfg : s.cfg.InRange
  grid : (¬ (∃ op ∈ ops, IsTick op) ∧ s.Unbuilt) ∨ ((∃ op ∈ ops, IsTick op) ∧ s.OnGrid)

theorem Shaped.anchor_nonneg {ops : List (GridOp ℚ)} (h : Shaped ops s) : 0 ≤ s.anchorPrice := by
  rcases h.grid with ⟨-, hzero, -⟩ | ⟨-, hpos, -⟩
  · exact hzero.ge
  · exact hpos.le

theorem Shaped.next {ops : List (GridOp ℚ)} (h : Shaped ops s) (op : GridOp ℚ) :
    Shaped (ops ++ [op]) ((gridMachine ℚ).next s op) := by
  refine ⟨inRange_next h.cfg op, ?_⟩
  have hsome : (∃ o ∈ ops ++ [op], IsTick o) ↔ (∃ o ∈ ops, IsTick o) ∨ IsTick op := by
    simp [or_and_right, exists_or]
  rw [hsome]
  rcases h.grid with ⟨hnone, hgrid⟩ | ⟨hticked, hgrid⟩
  · by_cases hop : IsTick op
    · exact Or.inr ⟨Or.inr hop, hgrid.next_of_tick hop⟩
    · exact Or.inl ⟨fun hor ↦ hor.elim hnone hop, hgrid.next hop⟩
  · exact Or.inr ⟨Or.inl hticked, hgrid.next op⟩

theorem shaped_run (cfg : LongGridConfig ℚ) (ops : List (GridOp ℚ)) :
    Shaped ops ((gridMachine ℚ).run (init cfg) ops) := by
  refine (gridMachine ℚ).run_history (P := Shaped) ?_ (fun _ op h ↦ h.next op) ops
  exact ⟨inRange_sanitize cfg, Or.inl ⟨by simp, rfl, rfl, rfl⟩⟩

/-- The representation invariant of the grid, in every reachable state. -/
theorem grid_representation (cfg : LongGridConfig ℚ) (ops : List (GridOp ℚ)) :
    ((gridMachine ℚ).run (init cfg) ops).cfg.InRange ∧
    ((¬ (∃ op ∈ ops, IsTick op) ∧ ((gridMachine ℚ).run (init cfg) ops).Unbuilt) ∨
      ((∃ op ∈ ops, IsTick op) ∧ ((gridMachine ℚ).run (init cfg) ops).Built)) ∧
    (gridMachine ℚ).AllSteps (fun s op ↦ 0 ∉ s.divisors op) (init cfg) ops := by
  have hshape := shaped_run cfg ops
  refine ⟨hshape.cfg, hshape.grid.imp_right fun h ↦ ⟨h.1, h.2.built hshape.cfg⟩, ?_⟩
  rw [Machine.allSteps_iff_split]
  rintro pre op post rfl
  have hpre := shaped_run cfg pre
  exact divisors_ne_zero hpre.cfg hpre.anchor_nonneg op

end LongGridStrategy

end FrogQuant
