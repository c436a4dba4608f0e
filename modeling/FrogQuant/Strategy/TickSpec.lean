import FrogQuant.Lib.RoundedNumbers
import FrogQuant.Strategy.LongGridStrategy

/-!
# What a tick does

The full effect of `on_price_tick` in every reachable state and at every price,
infinities and NaN among them: the grid it works on, the level it chooses, and
what it leaves alone.
-/

namespace FrogQuant

section Choice

variable {α : Type} [Floating α]

/-- The levels that a price may buy. -/
def Eligible (price : α) (lv : GridLevel α) : Prop := lv.state = .idle ∧ price ≤ lv.buyPrice

instance (price : α) : DecidablePred (Eligible price) := fun lv ↦
  inferInstanceAs (Decidable (lv.state = .idle ∧ price ≤ lv.buyPrice))

/-- The eligible level with the lowest buy price, the first of its price. -/
structure Chosen (price : α) (levels : List (GridLevel α)) (lv : GridLevel α) : Prop where
  mem : lv ∈ levels
  eligible : Eligible price lv
  least : ∀ other ∈ levels, Eligible price other → lv.buyPrice ≤ other.buyPrice
  first : ∀ other ∈ levels, Eligible price other → other.buyPrice = lv.buyPrice → lv.id ≤ other.id

/-! ## The candidate loop -/

theorem closer_of_eligible {price : α} {lv : GridLevel α} (h : Eligible price lv)
    (candidate : Option (GridLevel α)) :
    closer price candidate lv =
      candidate.elim (some lv) fun best ↦
        if fabs (lv.buyPrice - price) < fabs (best.buyPrice - price) then some lv
        else some best := by
  obtain ⟨hidle, hprice⟩ := h
  cases candidate <;> simp [closer, hidle, hprice]

theorem closer_of_not_eligible {price : α} {lv : GridLevel α} (h : ¬ Eligible price lv)
    (candidate : Option (GridLevel α)) : closer price candidate lv = candidate := by
  rcases closer_cases price candidate lv with hkeep | ⟨-, hidle, hprice⟩
  · exact hkeep
  · exact absurd ⟨hidle, hprice⟩ h

/-- Where no eligible level is closer than an earlier one, the loop keeps the
first. -/
theorem pickCandidate_eq_find? {price : α} {levels : List (GridLevel α)}
    (h : levels.Pairwise fun a b ↦ Eligible price a → Eligible price b →
      ¬ fabs (b.buyPrice - price) < fabs (a.buyPrice - price)) :
    pickCandidate price levels = levels.find? fun lv ↦ Eligible price lv := by
  induction levels using List.reverseRecOn with
  | nil => rfl
  | append_singleton levels lv ih =>
      obtain ⟨hlevels, -, hlast⟩ := List.pairwise_append.mp h
      rw [pickCandidate, List.foldl_append, List.foldl_cons, List.foldl_nil, ← pickCandidate,
        ih hlevels, List.find?_append]
      by_cases helig : Eligible price lv
      · rw [closer_of_eligible helig]
        cases hfind : levels.find? fun lv ↦ Eligible price lv with
        | none => simp [helig]
        | some best =>
            have hbest : Eligible price best := by simpa using List.find?_some hfind
            simp [hlast best (List.mem_of_find?_eq_some hfind) lv (by simp) hbest helig]
      · rw [closer_of_not_eligible helig]
        simp [helig]

end Choice

namespace LongGridStrategy

section Ticks

variable {α : Type} [Floating α] (s g : LongGridStrategy α) (price : α)

/-- The conditions under which a tick builds a new grid. -/
def Recentres : Prop :=
  s.anchorPrice = 0 ∨ (s.cfg.dynamicEnabled = true ∧
    s.cfg.recenterThresholdRatio ≤ fabs (price - s.anchorPrice) / s.anchorPrice)

/-- `g` is what a rebuild at the price makes of `s`: the price is its anchor,
and its levels are new ones, all of them idle. -/
structure RebuiltAt : Prop where
  cfg : g.cfg = s.cfg
  anchorPrice : g.anchorPrice = price
  rebuildCount : g.rebuildCount = s.rebuildCount + 1
  levels : g.levels = gridLevels s.cfg price
  ids : g.levels.map GridLevel.id = List.range' 1 s.cfg.levels.toNat
  idle : ∀ lv ∈ g.levels, lv.state = .idle

/-- The grid that a tick works on: rebuilt once, or the old one. -/
structure TicksOn : Prop where
  rebuilt : s.Recentres price → s.RebuiltAt g price
  kept : ¬ s.Recentres price → g = s

/-- The price has not drifted from the anchor, where the grid is dynamic. -/
def Settled : Prop :=
  g.cfg.dynamicEnabled = true →
    fabs (price - g.anchorPrice) / g.anchorPrice < g.cfg.recenterThresholdRatio

/-- From the grid `g` at most one buy is emitted, for the chosen level, which
alone is marked. -/
structure Trades (result : LongGridStrategy α × List (StrategyOrderIntent α)) : Prop where
  buys : (∃ lv ∈ g.levels, Eligible price lv) →
    ∃ lv, Chosen price g.levels lv ∧
      result.2 = [⟨.buy, .limit, g.cfg.orderQty, lv.buyPrice, lv.id⟩] ∧
      result.1.runtimeView =
        { g.runtimeView with
          levels := g.levels.map fun other ↦
            if other.id = lv.id then { other with state := .buyPlaced } else other }
  rests : (¬ ∃ lv ∈ g.levels, Eligible price lv) → result = (g, [])

/-- The whole specification of a tick. -/
structure TickSpec : Prop where
  ignored : price ≤ 0 → s.onPriceTick price = (s, [])
  acts : ¬ price ≤ 0 →
    ∃ g, s.TicksOn g price ∧ g.Settled price ∧ g.Trades price (s.onPriceTick price)

variable {s price}

omit [Floating α] in
theorem pairwise_id (s : LongGridStrategy α) : s.levels.Pairwise fun a b ↦ a.id < b.id := by
  have h := s.ids ▸ List.pairwise_lt_range' (s := 1) (n := s.levels.length)
  exact List.pairwise_map.mp h

omit [Floating α] in
theorem levels_setState (s : LongGridStrategy α) (id : ℕ) (state : GridLevelState) :
    (s.setState id state).levels =
      s.levels.map fun other ↦ if other.id = id then { other with state := state } else other :=
  writeSlot_eq_map (s.ids ▸ List.nodup_range')

theorem onPriceTick_of_pick (hprice : ¬ price ≤ 0) {lv : GridLevel α}
    (h : pickCandidate price (s.recentre price).levels = some lv) :
    s.onPriceTick price = ((s.recentre price).setState lv.id .buyPlaced,
      [⟨.buy, .limit, (s.recentre price).cfg.orderQty, lv.buyPrice, lv.id⟩]) := by
  simp only [onPriceTick, hprice, if_false, h]

theorem onPriceTick_of_pick_none (hprice : ¬ price ≤ 0)
    (h : pickCandidate price (s.recentre price).levels = none) :
    s.onPriceTick price = (s.recentre price, []) := by
  simp only [onPriceTick, hprice, if_false, h]

theorem drifted_iff (s : LongGridStrategy α) (price : α) :
    s.drifted price = true ↔ s.cfg.dynamicEnabled = true ∧
      s.cfg.recenterThresholdRatio ≤ fabs (price - s.anchorPrice) / s.anchorPrice := by
  simp only [drifted, decide_eq_true_eq]

/-- A tick rebuilds only once, where a new grid has not drifted. -/
theorem recentre_of_recentres (hnew : ¬ (s.rebuildGrid price).drifted price = true)
    (hrecentres : s.Recentres price) : s.recentre price = s.rebuildGrid price := by
  simp only [recentre]
  by_cases hle : s.anchorPrice ≤ 0
  · rw [if_pos hle, if_neg hnew]
  · rcases hrecentres with hzero | hdrift
    · rw [hzero] at hle
      exact absurd Floating.zero_le_zero hle
    · rw [if_neg hle, if_pos ((drifted_iff s price).mpr hdrift)]

theorem recentre_of_not_recentres (hanchor : s.anchorPrice = 0 ∨ ¬ s.anchorPrice ≤ 0)
    (hstays : ¬ s.Recentres price) : s.recentre price = s := by
  obtain ⟨hzero, hdrift⟩ := not_or.mp hstays
  simp only [recentre]
  rw [if_neg (hanchor.resolve_left hzero), if_neg fun h ↦ hdrift ((drifted_iff s price).mp h)]

theorem rebuiltAt_rebuildGrid (s : LongGridStrategy α) (price : α) :
    s.RebuiltAt (s.rebuildGrid price) price where
  cfg := rfl
  anchorPrice := rfl
  rebuildCount := rfl
  levels := rfl
  ids := (map_id_gridLevels s.cfg price).trans (by simp [gridLevels])
  idle _ hlv := idle_of_mem_gridLevels hlv

end Ticks

/-! ## Reachable grids of `double` prices -/

/-- The prices of the levels go up, as far as they are numbers. -/
def Ascending (levels : List (GridLevel Double)) : Prop :=
  levels.Pairwise fun a b ↦ ¬ b.buyPrice < a.buyPrice

theorem lt_of_round2_lt {v w : Double} (h : round2 v < round2 w) : v < w := by
  have hcents : (lit 100 : Double) = .finite 100 := by decide +kernel
  rw [round2, round2, hcents] at h
  exact Double.lt_of_mul_lt_mul_right (by decide +kernel)
    (Double.lt_of_round_lt (Double.lt_of_div_lt_div_right (by norm_num) h))

theorem ascending_gridLevels {cfg : LongGridConfig Double} (hlevels : 2 ≤ cfg.levels)
    (hband : ¬ cfg.bandRatio ≤ lit 0.002) {anchorPrice : Double} (hanchor : ¬ anchorPrice < 0) :
    Ascending (gridLevels cfg anchorPrice) := by
  have hcount : ¬ (lit (cfg.levels - 1) : Double) < 0 :=
    Double.not_ofRat_neg (by exact_mod_cast (by omega : 0 ≤ cfg.levels - 1))
  have hband' : ¬ cfg.bandRatio < 0 := fun h ↦ hband (Double.le_of_neg h (by decide +kernel))
  have hhalf : ¬ anchorPrice * (cfg.bandRatio * lit 0.5) < 0 :=
    Double.not_mul_neg hanchor (Double.not_mul_neg hband' (by decide +kernel))
  have hstep := Double.not_div_neg
    (fun h ↦ Double.not_add_lt_sub (x := anchorPrice) hhalf (Double.lt_of_sub_neg h)) hcount
  rw [Ascending, gridLevels, List.pairwise_map]
  refine List.pairwise_lt_range.imp fun {i j} hij hbelow ↦ ?_
  have hindex : (lit (j : ℚ) : Double) < lit (i : ℚ) :=
    Double.lt_of_mul_lt_mul_left hstep (Double.lt_of_add_lt_add_left (lt_of_round2_lt hbelow))
  exact absurd (Double.lt_of_ofRat_lt hindex) (not_lt.mpr (by exact_mod_cast hij.le))

theorem Ascending.setState {s : LongGridStrategy Double} (h : Ascending s.levels) (id : ℕ)
    (state : GridLevelState) : Ascending (s.setState id state).levels := by
  rw [Ascending, levels_setState, List.pairwise_map]
  refine h.imp fun {a b} hab ↦ ?_
  split_ifs <;> exact hab

/-- What the steps of the strategy keep. -/
structure Usable (s : LongGridStrategy Double) : Prop where
  levels : 2 ≤ s.cfg.levels
  threshold : ¬ s.cfg.recenterThresholdRatio ≤ 0
  band : ¬ s.cfg.bandRatio ≤ lit 0.002
  anchor : s.anchorPrice = 0 ∨ ¬ s.anchorPrice ≤ 0
  ascending : Ascending s.levels

theorem not_le_sanitized {x bound : Double} {q : ℚ} (hq : ¬ (lit q : Double) ≤ bound) :
    ¬ (if x ≤ bound then lit q else x) ≤ bound := by
  split_ifs with h
  · exact hq
  · exact h

theorem not_neg_of_not_nonpos {x : Double} (h : ¬ x ≤ 0) : ¬ x < 0 :=
  fun hneg ↦ h (Double.le_of_neg hneg (Floating.zero_le_zero))

theorem usable_init (cfg : LongGridConfig Double) : (init cfg).Usable where
  levels := cfg.two_le_levels_sanitize
  threshold := not_le_sanitized (by decide +kernel)
  band := not_le_sanitized (by decide +kernel)
  anchor := Or.inl rfl
  ascending := List.Pairwise.nil

variable {s : LongGridStrategy Double} {price : Double}

theorem Usable.setState (h : s.Usable) (id : ℕ) (state : GridLevelState) :
    (s.setState id state).Usable :=
  ⟨h.levels, h.threshold, h.band, h.anchor, h.ascending.setState id state⟩

theorem Usable.rebuildGrid (h : s.Usable) (hprice : ¬ price ≤ 0) : (s.rebuildGrid price).Usable :=
  ⟨h.levels, h.threshold, h.band, Or.inr hprice,
    ascending_gridLevels h.levels h.band (not_neg_of_not_nonpos hprice)⟩

theorem Usable.updateConfig (h : s.Usable) (cfg : LongGridConfig Double) :
    (s.updateConfig cfg).Usable := by
  have hnew : ({ s with cfg := cfg.sanitize } : LongGridStrategy Double).Usable :=
    ⟨cfg.two_le_levels_sanitize, not_le_sanitized (by decide +kernel),
      not_le_sanitized (by decide +kernel), h.anchor, h.ascending⟩
  simp only [LongGridStrategy.updateConfig]
  split_ifs with hanchor
  · exact hnew.rebuildGrid (Double.not_le_of_lt hanchor)
  · exact hnew

/-! ## The drift -/

/-- A price has not drifted from itself, and drifts that are no numbers are
not told from small ones. -/
theorem drift_self_lt_iff (hprice : ¬ price ≤ 0) {t : Double} (ht : ¬ t ≤ 0) :
    fabs (price - price) / price < t ↔ price.isFinite = true ∧ t ≠ .nan := by
  cases price with
  | nan => exact iff_of_false (Double.not_nan_lt _) fun h ↦ Bool.false_ne_true h.1
  | inf neg =>
      cases neg
      · exact iff_of_false (Double.not_nan_lt _) fun h ↦ Bool.false_ne_true h.1
      · exact absurd rfl hprice
  | finite q =>
      rw [Double.finite_le_zero, not_le] at hprice
      have hdrift : fabs (.finite q - .finite q : Double) / .finite q = 0 := by
        rw [Double.finite_sub, sub_self, Double.ofRat_zero, Double.zero_def, Double.fabs_finite,
          abs_zero, Double.finite_div _ _ hprice.ne', zero_div, Double.ofRat_zero]
        rfl
      rw [hdrift]
      constructor
      · exact fun h ↦ ⟨rfl, (Double.ne_nan_of_lt h).2⟩
      · exact fun h ↦ (Double.not_le_iff h.2 (by simp [Double.zero_def])).mp ht

theorem not_le_drift_self (hprice : ¬ price ≤ 0) {t : Double} (ht : ¬ t ≤ 0) :
    ¬ t ≤ fabs (price - price) / price := by
  cases price with
  | nan => exact Double.not_le_nan _
  | inf neg =>
      cases neg
      · exact Double.not_le_nan _
      · exact absurd rfl hprice
  | finite q =>
      intro hle
      have hlt := (drift_self_lt_iff hprice ht).mpr ⟨rfl, (Double.ne_nan_of_le hle).1⟩
      exact Double.not_le_of_lt hlt hle

/-- A drift below the threshold is known to be so if there are numbers to
compare. -/
theorem drift_lt_iff {anchor : Double} (hprice : ¬ price ≤ 0) (hanchor : ¬ anchor ≤ 0)
    {t : Double} (hstays : ¬ t ≤ fabs (price - anchor) / anchor) :
    fabs (price - anchor) / anchor < t ↔
      price.isFinite = true ∧ anchor.isFinite = true ∧ t ≠ .nan := by
  constructor
  · intro h
    obtain ⟨hdrift, ht⟩ := Double.ne_nan_of_lt h
    cases anchor with
    | nan => exact absurd (Double.div_nan _) hdrift
    | inf neg =>
        cases neg
        · cases price with
          | finite q => exact absurd rfl hdrift
          | inf neg => cases neg <;> exact absurd rfl hdrift
          | nan => exact absurd rfl hdrift
        · exact absurd rfl hanchor
    | finite a =>
        rw [Double.finite_le_zero, not_le] at hanchor
        cases price with
        | finite q => exact ⟨rfl, rfl, ht⟩
        | nan => exact absurd rfl hdrift
        | inf neg =>
            have hinf : fabs (.inf neg - .finite a : Double) / .finite a = .inf false :=
              Double.inf_div_finite false hanchor
            rw [hinf] at h
            exact absurd h Double.not_inf_lt
  · rintro ⟨hp, ha, ht⟩
    obtain ⟨q, rfl⟩ := (Double.isFinite_iff _).mp hp
    obtain ⟨a, rfl⟩ := (Double.isFinite_iff _).mp ha
    rw [Double.finite_le_zero, not_le] at hanchor
    refine (Double.not_le_iff ht ?_).mp hstays
    rw [Double.finite_sub]
    cases hdiff : ofRat (q - a) with
    | finite d =>
        rw [Double.fabs_finite, Double.finite_div _ _ hanchor.ne']
        exact Double.ofRat_ne_nan
    | inf neg =>
        rw [show fabs (.inf neg : Double) = .inf false from rfl, Double.inf_div_finite _ hanchor]
        simp
    | nan => exact absurd hdiff Double.ofRat_ne_nan

/-! ## The grid of a tick -/

theorem not_drifted_rebuildGrid (h : s.Usable) (hprice : ¬ price ≤ 0) :
    ¬ (s.rebuildGrid price).drifted price = true := by
  rw [drifted_iff]
  exact fun hdrift ↦ not_le_drift_self hprice h.threshold hdrift.2

theorem Usable.recentre (h : s.Usable) (hprice : ¬ price ≤ 0) : (s.recentre price).Usable := by
  by_cases hrecentres : s.Recentres price
  · rw [recentre_of_recentres (not_drifted_rebuildGrid h hprice) hrecentres]
    exact h.rebuildGrid hprice
  · rwa [recentre_of_not_recentres h.anchor hrecentres]

theorem Usable.tick (h : s.Usable) (price : Double) : (s.onPriceTick price).1.Usable := by
  by_cases hprice : price ≤ 0
  · rwa [s.onPriceTick_of_le hprice]
  · have hgrid := h.recentre hprice
    rcases s.onPriceTick_cases hprice with hnone | ⟨lv, -, -, -, hemit⟩
    · rwa [hnone]
    · rw [hemit]
      exact hgrid.setState lv.id .buyPlaced

theorem usable_run (cfg : LongGridConfig Double) (ops : List (GridOp Double)) :
    ((gridMachine Double).run (init cfg) ops).Usable := by
  refine (gridMachine Double).run_invariant (P := Usable) (fun s op h ↦ ?_) (usable_init cfg) ops
  cases op with
  | priceTick price => exact h.tick price
  | updateConfig cfg => exact h.updateConfig cfg
  | buyFilled gridId =>
      simp only [Machine.next, gridMachine]
      rcases s.onBuyFilled_cases gridId with ⟨lv, -, -, hfill⟩ | ⟨-, hfill⟩
      · rw [hfill]
        exact h.setState gridId .sellPlaced
      · rwa [hfill]
  | sellFilled gridId =>
      simp only [Machine.next, gridMachine, onSellFilled_eq]
      exact h.setState gridId .idle

theorem ticksOn_recentre (h : s.Usable) (hprice : ¬ price ≤ 0) :
    s.TicksOn (s.recentre price) price where
  rebuilt hrecentres := by
    rw [recentre_of_recentres (not_drifted_rebuildGrid h hprice) hrecentres]
    exact rebuiltAt_rebuildGrid s price
  kept hstays := recentre_of_not_recentres h.anchor hstays

/-! ## The chosen level -/

/-- An eligible level is not below the price, so the distances are ordered like
the prices. -/
theorem not_closer {a b : GridLevel Double} (hab : ¬ b.buyPrice < a.buyPrice)
    (ha : Eligible price a) (hb : Eligible price b) :
    ¬ fabs (b.buyPrice - price) < fabs (a.buyPrice - price) := by
  have hdistance : ∀ {lv : GridLevel Double}, Eligible price lv → ¬ lv.buyPrice - price < 0 :=
    fun helig h ↦ Double.not_le_of_lt (Double.lt_of_sub_neg h) helig.2
  rw [Double.fabs_of_not_neg (hdistance ha), Double.fabs_of_not_neg (hdistance hb)]
  exact fun h ↦ hab (Double.lt_of_sub_lt_sub_right h)

theorem pick_eq_find? (h : Ascending s.levels) (price : Double) :
    pickCandidate price s.levels = s.levels.find? fun lv ↦ Eligible price lv :=
  pickCandidate_eq_find? (h.imp fun hab ha hb ↦ not_closer hab ha hb)

theorem chosen_of_find? (h : Ascending s.levels) {lv : GridLevel Double}
    (hfind : (s.levels.find? fun lv ↦ Eligible price lv) = some lv) :
    Chosen price s.levels lv := by
  obtain ⟨helig, before, after, hsplit, hbefore⟩ := List.find?_eq_some_iff_append.mp hfind
  have helig : Eligible price lv := by simpa using helig
  have hids := s.pairwise_id
  rw [Ascending, hsplit] at h
  rw [hsplit] at hids ⊢
  have hlater := (List.pairwise_cons.mp (List.pairwise_append.mp h).2.1).1
  have hlaterId := (List.pairwise_cons.mp (List.pairwise_append.mp hids).2.1).1
  have hother : ∀ other ∈ before ++ lv :: after, Eligible price other →
      other = lv ∨ other ∈ after := by
    intro other hmem hother
    rcases List.mem_append.mp hmem with hmem | hmem
    · exact absurd hother (by simpa using hbefore other hmem)
    · exact List.mem_cons.mp hmem
  refine ⟨by simp, helig, fun other hmem hotherElig ↦ ?_, fun other hmem hotherElig _ ↦ ?_⟩
  · have hnumbers := (Double.ne_nan_of_le helig.2).2
    rw [← Double.not_lt_iff (Double.ne_nan_of_le hotherElig.2).2 hnumbers]
    rcases hother other hmem hotherElig with rfl | hmem
    · exact Double.not_lt_self
    · exact hlater other hmem
  · rcases hother other hmem hotherElig with rfl | hmem
    · exact le_rfl
    · exact (hlaterId other hmem).le

theorem trades_onPriceTick (h : s.Usable) (hprice : ¬ price ≤ 0) :
    (s.recentre price).Trades price (s.onPriceTick price) := by
  have hasc := (h.recentre hprice).ascending
  have hpick := pick_eq_find? hasc price
  cases hfind : (s.recentre price).levels.find? fun lv ↦ Eligible price lv with
  | none =>
      rw [hfind] at hpick
      have hnone : ¬ ∃ lv ∈ (s.recentre price).levels, Eligible price lv := by
        simpa using hfind
      exact ⟨fun hsome ↦ absurd hsome hnone, fun _ ↦ onPriceTick_of_pick_none hprice hpick⟩
  | some lv =>
      rw [hfind] at hpick
      have hchosen := chosen_of_find? hasc hfind
      refine ⟨fun _ ↦ ⟨lv, hchosen, ?_⟩, fun hnone ↦ ?_⟩
      · rw [onPriceTick_of_pick hprice hpick, runtimeView, levels_setState]
        exact ⟨rfl, rfl⟩
      · exact absurd ⟨lv, hchosen.mem, hchosen.eligible⟩ hnone

/-! ## The specification -/

/-- Where the grid is dynamic, there are numbers to compare the drift of. -/
def ComparesDrift (s : LongGridStrategy Double) (price : Double) : Prop :=
  s.cfg.dynamicEnabled = true → price.isFinite = true ∧ s.anchorPrice.isFinite = true ∧
    s.cfg.recenterThresholdRatio ≠ .nan

theorem TicksOn.eq_recentre {g : LongGridStrategy Double} (hg : s.TicksOn g price)
    (h : s.Usable) (hprice : ¬ price ≤ 0) :
    g.cfg = (s.recentre price).cfg ∧ g.anchorPrice = (s.recentre price).anchorPrice := by
  have hrecentre := ticksOn_recentre h hprice
  by_cases hrecentres : s.Recentres price
  · have hleft := hg.rebuilt hrecentres
    have hright := hrecentre.rebuilt hrecentres
    exact ⟨hleft.cfg.trans hright.cfg.symm, hleft.anchorPrice.trans hright.anchorPrice.symm⟩
  · rw [hg.kept hrecentres, hrecentre.kept hrecentres]
    exact ⟨rfl, rfl⟩

theorem settled_recentre_iff (h : s.Usable) (hprice : ¬ price ≤ 0) :
    (s.recentre price).Settled price ↔ s.ComparesDrift price := by
  have hticks := ticksOn_recentre h hprice
  by_cases hrecentres : s.Recentres price
  · have hnew := hticks.rebuilt hrecentres
    rw [Settled, ComparesDrift, hnew.cfg, hnew.anchorPrice, drift_self_lt_iff hprice h.threshold]
    refine imp_congr_right fun hdynamic ↦ and_congr_right fun hfinite ↦ ?_
    -- a drift that is reached is one from a number
    have hanchor : s.anchorPrice.isFinite = true := by
      rcases hrecentres with hzero | ⟨-, hdrift⟩
      · rw [hzero]
        rfl
      · obtain ⟨q, rfl⟩ := (Double.isFinite_iff _).mp hfinite
        cases hanchor : s.anchorPrice with
        | finite a => rfl
        | nan =>
            rw [hanchor, Double.div_nan] at hdrift
            exact absurd hdrift (Double.not_le_nan _)
        | inf neg =>
            rw [hanchor] at hdrift
            exact absurd hdrift (Double.not_le_nan _)
    exact (and_iff_right hanchor).symm
  · rw [hticks.kept hrecentres, Settled, ComparesDrift]
    obtain ⟨hzero, hdrift⟩ := not_or.mp hrecentres
    refine imp_congr_right fun hdynamic ↦ ?_
    exact drift_lt_iff hprice (h.anchor.resolve_left hzero) fun hle ↦ hdrift ⟨hdynamic, hle⟩

/-- In every reachable state and at every price, a tick does what its
specification says exactly if it is ignored, or the grid is not dynamic, or the
price, the anchor and the threshold can be compared. -/
theorem tick_spec_iff (cfg : LongGridConfig Double) (ops : List (GridOp Double)) (price : Double) :
    ((gridMachine Double).run (init cfg) ops).TickSpec price ↔
      price ≤ 0 ∨ ((gridMachine Double).run (init cfg) ops).ComparesDrift price := by
  have h := usable_run cfg ops
  generalize (gridMachine Double).run (init cfg) ops = s at h
  by_cases hprice : price ≤ 0
  · exact iff_of_true ⟨fun _ ↦ s.onPriceTick_of_le hprice, fun hnot ↦ absurd hprice hnot⟩
      (Or.inl hprice)
  · rw [or_iff_right hprice, ← settled_recentre_iff h hprice]
    constructor
    · intro hspec
      obtain ⟨g, hg, hsettled, -⟩ := hspec.acts hprice
      obtain ⟨hcfg, hanchor⟩ := hg.eq_recentre h hprice
      rwa [Settled, hcfg, hanchor] at hsettled
    · exact fun hsettled ↦ ⟨fun hle ↦ absurd hle hprice, fun _ ↦
        ⟨_, ticksOn_recentre h hprice, hsettled, trades_onPriceTick h hprice⟩⟩

/-- After a tick at NaN the anchor is NaN: the price moves from 100 to 200, and
the grid stays where it is. -/
theorem nan_anchor_never_recentres :
    ¬ ∀ (cfg : LongGridConfig Double) (ops : List (GridOp Double)) (price : Double),
      ((gridMachine Double).run (init cfg) ops).TickSpec price := by
  intro h
  have hspec := (h .default [.priceTick .nan, .priceTick (lit 100)] (lit 200)).acts
    (by decide +kernel)
  have hanchor : ((gridMachine Double).run (init .default)
      [.priceTick .nan, .priceTick (lit 100)]).anchorPrice = .nan := by decide +kernel
  have hdynamic : ((gridMachine Double).run (init .default)
      [.priceTick .nan, .priceTick (lit 100)]).cfg.dynamicEnabled = true := by decide +kernel
  generalize (gridMachine Double).run (init .default) [.priceTick .nan, .priceTick (lit 100)] = s
    at hspec hanchor hdynamic
  obtain ⟨g, hg, hsettled, -⟩ := hspec
  have hstays : ¬ s.Recentres (lit 200) := by
    rw [Recentres, hanchor, Double.div_nan]
    rintro (hzero | ⟨-, hdrift⟩)
    · cases hzero
    · exact Double.not_le_nan _ hdrift
  have hlt := hg.kept hstays ▸ hsettled
  rw [Settled, hanchor, Double.div_nan] at hlt
  exact Double.not_nan_lt _ (hlt hdynamic)

end LongGridStrategy

end FrogQuant
