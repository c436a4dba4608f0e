import FrogQuant.Lib.Drain
import FrogQuant.Strategy.GridShape
import FrogQuant.Strategy.TickSpec
import Mathlib.Data.List.MinMax

/-!
# A market that does not move

The same price, tick after tick: the first tick may build a new grid, and from
then on each tick takes one eligible level until none is left.  Prices are
exact here.
-/

namespace FrogQuant.LongGridStrategy

/-! ## The chosen level of exact prices -/

/-- The loop picks the first of the eligible levels that are closest. -/
theorem pickCandidate_eq_argmin (price : ℚ) (levels : List (GridLevel ℚ)) :
    pickCandidate price levels =
      (levels.filter fun lv ↦ Eligible price lv).argmin fun lv ↦ |lv.buyPrice - price| := by
  induction levels using List.reverseRecOn with
  | nil => rfl
  | append_singleton levels lv ih =>
      rw [pickCandidate, List.foldl_append, List.foldl_cons, List.foldl_nil, ← pickCandidate,
        List.filter_append]
      by_cases helig : Eligible price lv
      · rw [closer_of_eligible helig, List.filter_singleton, decide_eq_true helig, cond_true,
          List.argmin_concat, ih]
        cases List.argmin (fun lv : GridLevel ℚ ↦ |lv.buyPrice - price|)
          (levels.filter fun lv ↦ Eligible price lv) <;> rfl
      · rw [closer_of_not_eligible helig, ih, List.filter_singleton, decide_eq_false helig]
        simp

theorem id_le_of_idxOf_le {levels : List (GridLevel ℚ)}
    (hids : levels.Pairwise fun a b ↦ a.id < b.id) {a b : GridLevel ℚ} (ha : a ∈ levels)
    (hb : b ∈ levels) (h : levels.idxOf a ≤ levels.idxOf b) : a.id ≤ b.id := by
  have ha' := List.idxOf_lt_length_of_mem ha
  have hb' := List.idxOf_lt_length_of_mem hb
  rcases h.eq_or_lt with heq | hlt
  · rw [(List.idxOf_inj ha).mp heq]
  · have hpair := List.pairwise_iff_getElem.mp hids _ _ ha' hb' hlt
    rw [List.getElem_idxOf, List.getElem_idxOf] at hpair
    exact hpair.le

theorem chosen_of_pick {price : ℚ} {levels : List (GridLevel ℚ)}
    (hids : levels.Pairwise fun a b ↦ a.id < b.id) {lv : GridLevel ℚ}
    (h : pickCandidate price levels = some lv) : Chosen price levels lv := by
  rw [pickCandidate_eq_argmin] at h
  have hmem : ∀ {other}, other ∈ levels.filter (fun lv ↦ Eligible price lv) ↔
      other ∈ levels ∧ Eligible price other := by simp
  obtain ⟨hlv, helig⟩ := hmem.mp (List.argmin_mem h)
  -- an eligible level is not below the price, so its distance orders like its price
  have hdist : ∀ {a b : GridLevel ℚ}, Eligible price a → Eligible price b →
      (|a.buyPrice - price| ≤ |b.buyPrice - price| ↔ a.buyPrice ≤ b.buyPrice) := by
    intro a b ha hb
    rw [abs_of_nonneg (sub_nonneg.mpr ha.2), abs_of_nonneg (sub_nonneg.mpr hb.2),
      sub_le_sub_iff_right]
  refine ⟨hlv, helig, fun other hother hotherElig ↦ ?_, fun other hother hotherElig heq ↦ ?_⟩
  · have hle := List.le_of_mem_argmin (hmem.mpr ⟨hother, hotherElig⟩) h
    exact (hdist helig hotherElig).mp hle
  · have hle := (hdist hotherElig helig).mpr heq.le
    have hidx := List.index_of_argmin h (hmem.mpr ⟨hother, hotherElig⟩) hle
    exact id_le_of_idxOf_le (hids.filter _) (hmem.mpr ⟨hlv, helig⟩)
      (hmem.mpr ⟨hother, hotherElig⟩) hidx

theorem not_eligible_of_pick_none {price : ℚ} {levels : List (GridLevel ℚ)}
    (h : pickCandidate price levels = none) : ∀ lv ∈ levels, ¬ Eligible price lv := by
  rw [pickCandidate_eq_argmin, List.argmin_eq_none, List.filter_eq_nil_iff] at h
  simpa using h

def eligibleLevels (s : LongGridStrategy ℚ) (price : ℚ) : List (GridLevel ℚ) :=
  s.levels.filter fun lv ↦ Eligible price lv

/-- The buy that a tick emits for a level. -/
def buyIntent (cfg : LongGridConfig ℚ) (lv : GridLevel ℚ) : StrategyOrderIntent ℚ :=
  ⟨.buy, .limit, cfg.orderQty, lv.buyPrice, lv.id⟩

variable {s : LongGridStrategy ℚ} {price : ℚ}

theorem mem_eligibleLevels {lv : GridLevel ℚ} :
    lv ∈ s.eligibleLevels price ↔ lv ∈ s.levels ∧ Eligible price lv := by
  simp [eligibleLevels]

theorem nodup_id_eligibleLevels (s : LongGridStrategy ℚ) (price : ℚ) :
    ((s.eligibleLevels price).map GridLevel.id).Nodup := by
  have hids : (s.levels.map GridLevel.id).Nodup := s.ids ▸ List.nodup_range'
  exact hids.sublist (List.filter_sublist.map GridLevel.id)

/-- A level for which the buy is placed is eligible no more, and the others
are what they were. -/
theorem eligibleLevels_setState {lv : GridLevel ℚ} (hlv : lv ∈ s.eligibleLevels price) :
    (s.setState lv.id .buyPlaced).eligibleLevels price = (s.eligibleLevels price).erase lv := by
  have hids := nodup_id_eligibleLevels s price
  have hother : ∀ o ∈ s.levels.filter (fun o ↦ Eligible price o),
      (o != lv) = decide (o.id ≠ lv.id) := by
    intro o ho
    rw [Bool.eq_iff_iff, bne_iff_ne, decide_eq_true_eq]
    exact not_congr ⟨congrArg GridLevel.id, fun h ↦ List.inj_on_of_nodup_map hids ho hlv h⟩
  rw [hids.of_map.erase_eq_filter, eligibleLevels, eligibleLevels, levels_setState,
    List.filter_congr hother, List.filter_filter, List.filter_map]
  have hplaced : ∀ o : GridLevel ℚ, decide (Eligible price
      (if o.id = lv.id then { o with state := .buyPlaced } else o)) =
        (decide (o.id ≠ lv.id) && decide (Eligible price o)) := by
    intro o
    by_cases hid : o.id = lv.id
    · simp [hid, Eligible]
    · rw [if_neg hid, decide_eq_true hid, Bool.true_and]
  have hfilter : s.levels.filter ((fun o ↦ decide (Eligible price o)) ∘ fun o ↦
      if o.id = lv.id then { o with state := .buyPlaced } else o) =
        s.levels.filter fun o ↦ decide (o.id ≠ lv.id) && decide (Eligible price o) :=
    List.filter_congr fun o _ ↦ hplaced o
  rw [hfilter]
  refine (List.map_congr_left fun o ho ↦ ?_).trans (List.map_id _)
  have hid : o.id ≠ lv.id := by simp_all
  exact if_neg hid

/-! ## States in which the grid stays -/

instance (s : LongGridStrategy ℚ) (price : ℚ) : Decidable (s.Recentres price) :=
  inferInstanceAs (Decidable (_ ∨ _))

/-- The grid that a tick works on: the old one, or one new grid at the price. -/
def gridFor (s : LongGridStrategy ℚ) (price : ℚ) : LongGridStrategy ℚ :=
  if s.Recentres price then s.rebuildGrid price else s

/-- A grid just built at the price has not drifted from it. -/
theorem not_drifted_at_anchor (hcfg : s.cfg.InRange) (price : ℚ) :
    ¬ (s.rebuildGrid price).drifted price = true := by
  rw [drifted_iff]
  rintro ⟨-, hdrift⟩
  have hthreshold : 0 < (s.rebuildGrid price).cfg.recenterThresholdRatio :=
    hcfg.recenterThresholdRatio
  rw [show (s.rebuildGrid price).anchorPrice = price from rfl, fabs_rat, sub_self, abs_zero,
    zero_div] at hdrift
  exact absurd hdrift (not_le.mpr hthreshold)

theorem recentre_eq_gridFor (hcfg : s.cfg.InRange) (hanchor : 0 ≤ s.anchorPrice) (price : ℚ) :
    s.recentre price = s.gridFor price := by
  rw [gridFor]
  split_ifs with hrecentres
  · exact recentre_of_recentres (not_drifted_at_anchor hcfg price) hrecentres
  · exact recentre_of_not_recentres (hanchor.eq_or_lt.imp Eq.symm not_le.mpr) hrecentres

/-- A tick at the price builds no new grid; the grid is the one of `start`. -/
structure AtRest (start : LongGridStrategy ℚ) (price : ℚ) (s : LongGridStrategy ℚ) : Prop where
  cfg_eq : s.cfg = start.cfg
  count_eq : s.rebuildCount = start.rebuildCount
  inRange : s.cfg.InRange
  anchor : 0 ≤ s.anchorPrice
  still : ¬ s.Recentres price

theorem AtRest.recentre {start : LongGridStrategy ℚ} (h : AtRest start price s) :
    s.recentre price = s := by
  rw [recentre_eq_gridFor h.inRange h.anchor, gridFor, if_neg h.still]

theorem recentre_cfg (s : LongGridStrategy ℚ) (hprice : 0 < price) :
    (s.recentre price).cfg = s.cfg := by
  rcases s.recentre_cases (not_le.mpr hprice) with ⟨-, hcfg, -⟩ | ⟨-, hsame⟩
  · exact hcfg
  · rw [hsame]

/-- After its possible rebuild a tick finds the grid at rest. -/
theorem atRest_recentre (hcfg : s.cfg.InRange) (hanchor : 0 ≤ s.anchorPrice) (hprice : 0 < price) :
    AtRest (s.recentre price) price (s.recentre price) := by
  refine ⟨rfl, rfl, (recentre_cfg s hprice).symm ▸ hcfg, ?_, ?_⟩
  · rw [recentre_eq_gridFor hcfg hanchor, gridFor]
    split_ifs
    · exact hprice.le
    · exact hanchor
  · rw [recentre_eq_gridFor hcfg hanchor, gridFor]
    split_ifs with hrecentres
    · rintro (hzero | hdrift)
      · exact hprice.ne' hzero
      · exact not_drifted_at_anchor hcfg price ((drifted_iff _ _).mpr hdrift)
    · exact hrecentres

theorem onPriceTick_recentre (hcfg : s.cfg.InRange) (hanchor : 0 ≤ s.anchorPrice)
    (hprice : 0 < price) : (s.recentre price).onPriceTick price = s.onPriceTick price := by
  have hrest := (atRest_recentre hcfg hanchor hprice).recentre
  simp only [onPriceTick, hrest, not_le.mpr hprice, if_false]

/-- At rest, ticks at one price take the eligible levels from the lowest buy
price on. -/
theorem drains_priceTick (start : LongGridStrategy ℚ) (hprice : 0 < price) :
    (gridMachine ℚ).Drains (.priceTick price) (AtRest start price) (·.eligibleLevels price)
      (fun a b ↦ a.buyPrice ≤ b.buyPrice) (fun lv ↦ [buyIntent start.cfg lv]) [] where
  takes := by
    intro s hs hpool
    cases hpick : pickCandidate price (s.recentre price).levels with
    | none =>
        rw [hs.recentre] at hpick
        obtain ⟨lv, hlv⟩ := List.exists_mem_of_ne_nil _ hpool
        obtain ⟨hmem, helig⟩ := mem_eligibleLevels.mp hlv
        exact absurd helig (not_eligible_of_pick_none hpick lv hmem)
    | some lv =>
        have htick := onPriceTick_of_pick (not_le.mpr hprice) hpick
        rw [hs.recentre] at htick hpick
        have hchosen := chosen_of_pick (pairwise_id s) hpick
        have hlv : lv ∈ s.eligibleLevels price :=
          mem_eligibleLevels.mpr ⟨hchosen.mem, hchosen.eligible⟩
        have hnext : (gridMachine ℚ).next s (.priceTick price) = s.setState lv.id .buyPlaced :=
          congrArg Prod.fst htick
        refine ⟨lv, hlv, fun other hother ↦ ?_, ?_, ?_, ?_⟩
        · obtain ⟨hmem, helig⟩ := mem_eligibleLevels.mp hother
          exact hchosen.least other hmem helig
        · rw [buyIntent, ← hs.cfg_eq]
          exact congrArg Prod.snd htick
        · rw [hnext]
          exact eligibleLevels_setState hlv
        · rw [hnext]
          exact ⟨hs.cfg_eq, hs.count_eq, hs.inRange, hs.anchor, hs.still⟩
  rests := by
    intro s hs hpool
    cases hpick : pickCandidate price (s.recentre price).levels with
    | none =>
        have htick := onPriceTick_of_pick_none (not_le.mpr hprice) hpick
        rwa [hs.recentre] at htick
    | some lv =>
        rw [hs.recentre] at hpick
        have hchosen := chosen_of_pick (pairwise_id s) hpick
        have hlv : lv ∈ s.eligibleLevels price :=
          mem_eligibleLevels.mpr ⟨hchosen.mem, hchosen.eligible⟩
        rw [hpool] at hlv
        cases hlv

/-! ## Ticks at one price -/

/-- The state after `k` ticks at the price. -/
def afterFlat (s : LongGridStrategy ℚ) (price : ℚ) (k : ℕ) : LongGridStrategy ℚ :=
  (gridMachine ℚ).run s (List.replicate k (.priceTick price))

def flatOutputs (s : LongGridStrategy ℚ) (price : ℚ) (k : ℕ) :
    List (List (StrategyOrderIntent ℚ)) :=
  (gridMachine ℚ).outputs s (List.replicate k (.priceTick price))

theorem afterFlat_recentre (hcfg : s.cfg.InRange) (hanchor : 0 ≤ s.anchorPrice)
    (hprice : 0 < price) (k : ℕ) :
    s.afterFlat price (k + 1) = (s.recentre price).afterFlat price (k + 1) := by
  have htick := onPriceTick_recentre hcfg hanchor hprice
  simp only [afterFlat, List.replicate_succ, Machine.run_cons]
  congr 1
  exact (congrArg Prod.fst htick).symm

theorem flatOutputs_recentre (hcfg : s.cfg.InRange) (hanchor : 0 ≤ s.anchorPrice)
    (hprice : 0 < price) (k : ℕ) :
    s.flatOutputs price k = (s.recentre price).flatOutputs price k := by
  have htick := onPriceTick_recentre hcfg hanchor hprice
  cases k with
  | zero => rfl
  | succ k =>
      simp only [flatOutputs, List.replicate_succ, Machine.outputs_cons]
      congr 1
      · exact (congrArg Prod.snd htick).symm
      · congr 1
        exact (congrArg Prod.fst htick).symm

/-- What `k` ticks at the price do: `m` levels are eligible on the grid of the
first tick. -/
structure FlatMarket (s : LongGridStrategy ℚ) (price : ℚ) (k m : ℕ) : Prop where
  rebuild_once : (s.recentre price).rebuildCount ≤ s.rebuildCount + 1
  no_rebuild : ∀ j, 0 < j → (s.afterFlat price j).rebuildCount = (s.recentre price).rebuildCount
  buys : ∃ picks : List (GridLevel ℚ), picks.length = min k m ∧
    (∀ lv ∈ picks, lv ∈ (s.recentre price).levels ∧ Eligible price lv) ∧
    (picks.map GridLevel.id).Nodup ∧ picks.Pairwise (fun a b ↦ a.buyPrice ≤ b.buyPrice) ∧
    s.flatOutputs price k = picks.map (fun lv ↦ [buyIntent s.cfg lv]) ++ List.replicate (k - m) []
  rests : ∀ j, 0 < j → m ≤ j → s.afterFlat price (j + 1) = s.afterFlat price j
  rests_first : m = 0 → s.afterFlat price 1 = s.recentre price

/-- A flat market drains the grid and then falls silent, from every reachable
state. -/
theorem flat_market (cfg : LongGridConfig ℚ) (ops : List (GridOp ℚ)) {price : ℚ}
    (hprice : 0 < price) (k : ℕ) :
    ((gridMachine ℚ).run (init cfg) ops).FlatMarket price k
      ((((gridMachine ℚ).run (init cfg) ops).recentre price).eligibleLevels price).length := by
  have hshape := shaped_run cfg ops
  generalize (gridMachine ℚ).run (init cfg) ops = s at hshape
  have hcfg := hshape.cfg
  have hanchor := hshape.anchor_nonneg
  have hrest := atRest_recentre hcfg hanchor hprice
  have hdrains := drains_priceTick (s.recentre price) hprice
  constructor
  case rebuild_once =>
    rw [recentre_eq_gridFor hcfg hanchor, gridFor]
    split_ifs
    · exact le_rfl
    · exact Nat.le_succ _
  case no_rebuild =>
    intro j hj
    obtain ⟨j, rfl⟩ := Nat.exists_eq_add_of_lt hj
    rw [Nat.zero_add, afterFlat_recentre hcfg hanchor hprice]
    exact (hdrains.run hrest _).1.count_eq
  case buys =>
    obtain ⟨picks, hsub, hlen, hsorted, hout⟩ := hdrains.outputs hrest k
    refine ⟨picks, hlen, fun lv hlv ↦ mem_eligibleLevels.mp (hsub.subset hlv), ?_, hsorted, ?_⟩
    · obtain ⟨part, hperm, hpart⟩ := hsub
      rw [← (hperm.map GridLevel.id).nodup_iff]
      exact (nodup_id_eligibleLevels _ price).sublist (hpart.map GridLevel.id)
    · rw [flatOutputs_recentre hcfg hanchor hprice]
      rwa [recentre_cfg s hprice] at hout
  case rests =>
    intro j hj hle
    obtain ⟨j, rfl⟩ := Nat.exists_eq_add_of_lt hj
    rw [Nat.zero_add] at hle ⊢
    rw [afterFlat_recentre hcfg hanchor hprice, afterFlat_recentre hcfg hanchor hprice]
    exact hdrains.run_succ hrest hle
  case rests_first =>
    intro hzero
    rw [afterFlat_recentre hcfg hanchor hprice 0]
    exact hdrains.run_succ hrest (k := 0) hzero.le

theorem flat_market_three_ticks :
    (init (.default : LongGridConfig ℚ)).FlatMarket 60000 3
      (((init (.default : LongGridConfig ℚ)).recentre 60000).eligibleLevels 60000).length :=
  flat_market .default [] (by norm_num) 3

/-- A price below half a cent: no level is eligible, and the first tick still
builds the grid. -/
theorem first_tick_builds_silently :
    ¬ ∀ (cfg : LongGridConfig ℚ) (ops : List (GridOp ℚ)) (price : ℚ), 0 < price → ∀ j,
      ((((gridMachine ℚ).run (init cfg) ops).recentre price).eligibleLevels price).length ≤ j →
        ((gridMachine ℚ).run (init cfg) ops).afterFlat price (j + 1) =
          ((gridMachine ℚ).run (init cfg) ops).afterFlat price j := by
  intro h
  have hsame := h .default [] 0.001 (by norm_num) 0 (by decide +kernel)
  have hcount := congrArg LongGridStrategy.rebuildCount hsame
  exact absurd hcount (by decide +kernel)

end FrogQuant.LongGridStrategy
