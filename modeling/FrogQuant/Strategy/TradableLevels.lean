import FrogQuant.Strategy.GridShape

/-!
# Levels that trade at a profit

Prices are rounded to cents, whatever the scale of the symbol.  A grid keeps
its levels apart, and its sells above its buys, as far as the cents resolve
its band and its profit.
-/

namespace FrogQuant

/-- Every buy has a positive price and a sell above it, and higher levels buy
at higher prices. -/
structure Tradable (levels : List (GridLevel ℚ)) : Prop where
  positive : ∀ lv ∈ levels, 0 < lv.buyPrice
  profit : ∀ lv ∈ levels, lv.buyPrice < lv.sellPrice
  strict : ∀ lv ∈ levels, ∀ other ∈ levels, lv.id < other.id → lv.buyPrice < other.buyPrice

namespace LongGridConfig

/-- The parameter bounds that the control API documents. -/
structure Documented (cfg : LongGridConfig ℚ) : Prop where
  levels : 2 ≤ cfg.levels ∧ cfg.levels ≤ 200
  takeProfitRatio : 0 < cfg.takeProfitRatio ∧ cfg.takeProfitRatio ≤ 0.2
  bandRatio : 0.002 < cfg.bandRatio ∧ cfg.bandRatio ≤ 1

/-- In cents: the lower end of the band, and the distance of two levels. -/
def lowestCents (cfg : LongGridConfig ℚ) (anchorPrice : ℚ) : ℚ :=
  100 * anchorPrice * (1 - cfg.bandRatio / 2)

def stepCents (cfg : LongGridConfig ℚ) (anchorPrice : ℚ) : ℚ :=
  100 * anchorPrice * cfg.bandRatio / (cfg.levels - 1)

def priceCents (cfg : LongGridConfig ℚ) (anchorPrice : ℚ) (i : ℕ) : ℚ :=
  cfg.lowestCents anchorPrice + i * cfg.stepCents anchorPrice

/-- Cents resolve the grid: the lower end of the band reaches half a cent, the
band spans a half cent for each gap between two levels, and the profit of each
level spans one too. -/
structure CentsResolve (cfg : LongGridConfig ℚ) (anchorPrice : ℚ) : Prop where
  lowest : 1 / 2 ≤ cfg.lowestCents anchorPrice
  gaps : cfg.levels - 1 ≤
    halfMarks (100 * anchorPrice * (1 - cfg.bandRatio / 2))
      (100 * anchorPrice * (1 + cfg.bandRatio / 2))
  profit : ∀ i < cfg.levels.toNat, ∃ k : ℤ, cfg.priceCents anchorPrice i < k + 1 / 2 ∧
    (k : ℚ) + 1 / 2 ≤ cfg.priceCents anchorPrice i * (1 + cfg.takeProfitRatio)

variable {cfg : LongGridConfig ℚ} {anchorPrice : ℚ}

theorem levelPrice_cents (cfg : LongGridConfig ℚ) (anchorPrice : ℚ) (i : ℕ) :
    cfg.levelPrice anchorPrice i * 100 = cfg.priceCents anchorPrice i := by
  unfold levelPrice priceCents lowestCents stepCents
  ring

theorem Documented.levels_sub_one (h : cfg.Documented) :
    ((cfg.levels.toNat - 1 : ℕ) : ℤ) = cfg.levels - 1 := by
  have hlevels := h.levels.1
  omega

theorem Documented.stepCents_nonneg (h : cfg.Documented) (hanchor : 0 < anchorPrice) :
    0 ≤ cfg.stepCents anchorPrice := by
  have hband := h.bandRatio.1
  have hgap := levels_sub_one_pos h.levels.1
  have hpos : 0 ≤ cfg.bandRatio := by norm_num at hband; linarith
  unfold stepCents
  positivity

theorem Documented.lowestCents_nonneg (h : cfg.Documented) (hanchor : 0 < anchorPrice) :
    0 ≤ cfg.lowestCents anchorPrice := by
  have hband := h.bandRatio.2
  exact mul_nonneg (by positivity) (by linarith)

theorem Documented.priceCents_nonneg (h : cfg.Documented) (hanchor : 0 < anchorPrice) (i : ℕ) :
    0 ≤ cfg.priceCents anchorPrice i :=
  add_nonneg (h.lowestCents_nonneg hanchor)
    (mul_nonneg i.cast_nonneg (h.stepCents_nonneg hanchor))

theorem Documented.highestCents (h : cfg.Documented) :
    cfg.priceCents anchorPrice (cfg.levels.toNat - 1) =
      100 * anchorPrice * (1 + cfg.bandRatio / 2) := by
  rw [← levelPrice_cents, levelPrice_last h.levels.1]
  ring

end LongGridConfig

open LongGridConfig

variable {cfg : LongGridConfig ℚ} {anchorPrice : ℚ}

theorem mem_gridLevels_iff {lv : GridLevel ℚ} :
    lv ∈ gridLevels cfg anchorPrice ↔ ∃ i < cfg.levels.toNat,
      lv = ⟨i + 1, roundAway (cfg.priceCents anchorPrice i) / 100,
        roundAway (cfg.priceCents anchorPrice i * (1 + cfg.takeProfitRatio)) / 100, .idle⟩ := by
  have hsell : ∀ i, cfg.levelPrice anchorPrice i * (1 + cfg.takeProfitRatio) * 100 =
      cfg.priceCents anchorPrice i * (1 + cfg.takeProfitRatio) := by
    intro i
    rw [← levelPrice_cents]
    ring
  simp only [gridLevels_eq, List.mem_map, List.mem_range, round2_rat, levelPrice_cents, hsell,
    eq_comm (b := lv)]

theorem cents_lt_cents {m n : ℤ} : (m : ℚ) / 100 < n / 100 ↔ m < n := by
  rw [div_lt_div_iff_of_pos_right (by norm_num), Int.cast_lt]

/-! ## One condition each -/

theorem positive_iff (hcfg : cfg.Documented) (hanchor : 0 < anchorPrice) :
    (∀ lv ∈ gridLevels cfg anchorPrice, 0 < lv.buyPrice) ↔
      1 / 2 ≤ cfg.lowestCents anchorPrice := by
  have hzero : cfg.priceCents anchorPrice 0 = cfg.lowestCents anchorPrice := by simp [priceCents]
  rw [← roundAway_pos_iff]
  constructor
  · intro h
    have hpos : 0 < cfg.levels.toNat := by have := hcfg.levels.1; omega
    have hbuy := h _ (mem_gridLevels_iff.mpr ⟨0, hpos, rfl⟩)
    rw [hzero] at hbuy
    exact_mod_cast (div_pos_iff_of_pos_right (by norm_num)).mp hbuy
  · intro h lv hlv
    obtain ⟨i, -, rfl⟩ := mem_gridLevels_iff.mp hlv
    have hle : cfg.lowestCents anchorPrice ≤ cfg.priceCents anchorPrice i :=
      le_add_of_nonneg_right (mul_nonneg i.cast_nonneg (hcfg.stepCents_nonneg hanchor))
    have hround := h.trans_le (roundAway_mono hle)
    exact div_pos (by exact_mod_cast hround) (by norm_num)

theorem profit_iff (hcfg : cfg.Documented) (hanchor : 0 < anchorPrice) :
    (∀ lv ∈ gridLevels cfg anchorPrice, lv.buyPrice < lv.sellPrice) ↔
      ∀ i < cfg.levels.toNat, ∃ k : ℤ, cfg.priceCents anchorPrice i < k + 1 / 2 ∧
        (k : ℚ) + 1 / 2 ≤ cfg.priceCents anchorPrice i * (1 + cfg.takeProfitRatio) := by
  have hlevel : ∀ i, (∃ k : ℤ, cfg.priceCents anchorPrice i < k + 1 / 2 ∧
      (k : ℚ) + 1 / 2 ≤ cfg.priceCents anchorPrice i * (1 + cfg.takeProfitRatio)) ↔
      roundAway (cfg.priceCents anchorPrice i) <
        roundAway (cfg.priceCents anchorPrice i * (1 + cfg.takeProfitRatio)) := by
    intro i
    have hbuy := hcfg.priceCents_nonneg hanchor i
    have hgain := hcfg.takeProfitRatio.1
    exact (roundAway_lt_iff hbuy (by positivity)).symm
  constructor
  · intro h i hi
    exact (hlevel i).mpr (cents_lt_cents.mp (h _ (mem_gridLevels_iff.mpr ⟨i, hi, rfl⟩)))
  · intro h lv hlv
    obtain ⟨i, hi, rfl⟩ := mem_gridLevels_iff.mp hlv
    exact cents_lt_cents.mpr ((hlevel i).mp (h i hi))

theorem strict_iff (hcfg : cfg.Documented) (hanchor : 0 < anchorPrice) :
    (∀ lv ∈ gridLevels cfg anchorPrice, ∀ other ∈ gridLevels cfg anchorPrice,
      lv.id < other.id → lv.buyPrice < other.buyPrice) ↔
      cfg.levels - 1 ≤ halfMarks (100 * anchorPrice * (1 - cfg.bandRatio / 2))
        (100 * anchorPrice * (1 + cfg.bandRatio / 2)) := by
  have hadjacent := roundAway_strict_iff (hcfg.lowestCents_nonneg hanchor)
    (hcfg.stepCents_nonneg hanchor) (cfg.levels.toNat - 1)
  have hspan : cfg.lowestCents anchorPrice + ((cfg.levels.toNat - 1 : ℕ) : ℚ) *
      cfg.stepCents anchorPrice = 100 * anchorPrice * (1 + cfg.bandRatio / 2) :=
    hcfg.highestCents
  rw [hspan, hcfg.levels_sub_one] at hadjacent
  rw [← lowestCents, ← hadjacent]
  constructor
  · intro h i hi
    have hlt := h _ (mem_gridLevels_iff.mpr ⟨i, by omega, rfl⟩) _
      (mem_gridLevels_iff.mpr ⟨i + 1, by omega, rfl⟩) (Nat.lt_succ_self (i + 1))
    exact cents_lt_cents.mp hlt
  · intro h lv hlv other hother hid
    obtain ⟨i, -, rfl⟩ := mem_gridLevels_iff.mp hlv
    obtain ⟨j, hj, rfl⟩ := mem_gridLevels_iff.mp hother
    apply cents_lt_cents.mpr
    exact lt_of_strict (f := fun i : ℕ ↦ roundAway (cfg.priceCents anchorPrice i)) h
      (Nat.lt_of_succ_lt_succ hid) (by omega)

/-! ## The whole condition -/

namespace LongGridStrategy

/-- A new grid is tradable just where cents resolve it. -/
theorem tradable_iff (s : LongGridStrategy ℚ) (hcfg : s.cfg.Documented) {anchorPrice : ℚ}
    (hanchor : 0 < anchorPrice) :
    Tradable (s.rebuildGrid anchorPrice).levels ↔ s.cfg.CentsResolve anchorPrice := by
  change Tradable (gridLevels s.cfg anchorPrice) ↔ _
  constructor
  · intro h
    exact ⟨(positive_iff hcfg hanchor).mp h.positive, (strict_iff hcfg hanchor).mp h.strict,
      (profit_iff hcfg hanchor).mp h.profit⟩
  · intro h
    exact ⟨(positive_iff hcfg hanchor).mpr h.lowest, (profit_iff hcfg hanchor).mpr h.profit,
      (strict_iff hcfg hanchor).mpr h.gaps⟩

theorem documented_default : (LongGridConfig.default : LongGridConfig ℚ).sanitize.Documented := by
  constructor <;> decide +kernel

/-- The default configuration at 100. -/
theorem tradable_iff_at_hundred :
    Tradable ((init (.default : LongGridConfig ℚ)).rebuildGrid 100).levels ↔
      (init (.default : LongGridConfig ℚ)).cfg.CentsResolve 100 :=
  tradable_iff (init .default) documented_default (by norm_num)

/-- At 8 cents all the levels of the default configuration are one price. -/
theorem cheap_symbol_not_tradable :
    ¬ ∀ (s : LongGridStrategy ℚ) (anchorPrice : ℚ), s.cfg.Documented → 0 < anchorPrice →
      Tradable (s.rebuildGrid anchorPrice).levels := by
  intro h
  have htradable := h (init .default) 0.08 documented_default (by norm_num)
  have hprofit : ¬ ∀ lv ∈ ((init (.default : LongGridConfig ℚ)).rebuildGrid 0.08).levels,
      lv.buyPrice < lv.sellPrice := by decide +kernel
  exact hprofit htradable.profit

end LongGridStrategy

end FrogQuant
