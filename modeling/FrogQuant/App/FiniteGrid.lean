import FrogQuant.App.GridRuns
import FrogQuant.App.RuntimeSnapshot
import FrogQuant.App.Settings
import FrogQuant.Lib.RoundedNumbers

/-!
# Moderate numbers in, finite numbers out

While the prices that come in, and the ratios that prices are computed with,
are at most `2 ^ 300`, no computation of the grid overflows; a division by zero
would take a grid of one level, or an anchor of zero.
-/

namespace FrogQuant

/-- The number of levels is an `int`, the ratios of the prices are at most
`2 ^ 300`, and the other numbers finite. -/
structure LongGridConfig.Moderate (cfg : LongGridConfig Double) : Prop where
  levels : cfg.levels < 2 ^ 31
  orderQty : cfg.orderQty.isFinite = true
  takeProfitRatio : cfg.takeProfitRatio.atMost 300 = true
  recenterThresholdRatio : cfg.recenterThresholdRatio.isFinite = true
  bandRatio : cfg.bandRatio.atMost 300 = true

open LongGridConfig

theorem LongGridConfig.Moderate.sanitize {cfg : LongGridConfig Double} (h : cfg.Moderate) :
    cfg.sanitize.Moderate := by
  have hreplaced : ∀ (P : Double → Prop) (x y : Double) (p : Prop) [Decidable p], P x → P y →
      P (if p then x else y) := by
    intro P x y p _ hx hy
    split_ifs
    · exact hx
    · exact hy
  refine ⟨?_, hreplaced (fun x ↦ x.isFinite = true) _ _ _ (by decide +kernel) h.orderQty,
    hreplaced (fun x ↦ x.atMost 300 = true) _ _ _ (by decide +kernel) h.takeProfitRatio,
    hreplaced (fun x ↦ x.isFinite = true) _ _ _ (by decide +kernel) h.recenterThresholdRatio,
    hreplaced (fun x ↦ x.atMost 300 = true) _ _ _ (by decide +kernel) h.bandRatio⟩
  change (if cfg.levels < 2 then 2 else cfg.levels) < 2 ^ 31
  split_ifs
  · decide
  · exact h.levels

theorem isFinite_round2 {x : Double} {k : ℕ} (hk : k ≤ 1016) (hx : x.atMost k = true) :
    (round2 x).isFinite = true := by
  have hhundred : (lit 100 : Double).atMost 7 = true := by decide +kernel
  have hcents : (lit 100 : Double) = .finite 100 := by decide +kernel
  have hscaled := Double.atMost_round (Double.atMost_mul (by omega) hx hhundred)
  rw [round2]
  nth_rewrite 2 [hcents]
  exact Double.isFinite_of_atMost (Double.atMost_div (by omega) hscaled (by norm_num))

/-- The powers of two along the computation of the prices. -/
theorem isFinite_of_mem_gridLevels {cfg : LongGridConfig Double} (hcfg : cfg.Moderate)
    (hlevels : 2 ≤ cfg.levels) {anchorPrice : Double} (hanchor : anchorPrice.atMost 300 = true) :
    ∀ lv ∈ gridLevels cfg anchorPrice,
      lv.buyPrice.isFinite = true ∧ lv.sellPrice.isFinite = true := by
  intro lv hlv
  obtain ⟨i, hi, rfl⟩ := List.mem_map.mp hlv
  have hint := hcfg.levels
  have hfraction : (lit 0.5 : Double).atMost 0 = true := by decide +kernel
  have hhalf := Double.atMost_mul (k := 300) (by decide) hanchor
    (Double.atMost_mul (k := 0) (by decide) hcfg.bandRatio hfraction)
  have hanchor' := Double.atMost_mono (k := 300 + 300) (by decide) hanchor
  have hlower := Double.atMost_sub (by decide) hanchor' hhalf
  have hwidth := Double.atMost_sub (by decide) (Double.atMost_add (by decide) hanchor' hhalf) hlower
  obtain ⟨n, hn⟩ := Int.eq_ofNat_of_zero_le (by omega : 0 ≤ cfg.levels - 1)
  have hcount : (lit (cfg.levels - 1) : Double) = .finite n := by
    rw [show (cfg.levels : ℚ) - 1 = n by exact_mod_cast hn, Double.lit_eq]
    exact Double.ofRat_natCast (by omega)
  have hstep := Double.atMost_div (q := n) (by decide) hwidth (by
    rw [Nat.abs_cast]
    exact_mod_cast (by omega : 1 ≤ n))
  have hindex : (lit (i : ℚ) : Double).atMost 31 = true := by
    apply Double.atMost_ofRat (by decide)
    rw [List.mem_range] at hi
    rw [Nat.abs_cast]
    exact_mod_cast (by omega : i ≤ 2 ^ 31)
  have hoffset := Double.atMost_mul (by decide) hstep hindex
  have hbuy := Double.atMost_add (by decide) (Double.atMost_mono (by decide) hlower) hoffset
  have hone : (lit 1 : Double).atMost 300 = true := by decide +kernel
  have hratio := Double.atMost_add (by decide) hone hcfg.takeProfitRatio
  have hsell := Double.atMost_mul (by decide) hbuy hratio
  rw [← hcount] at hbuy hsell
  exact ⟨isFinite_round2 (by decide) hbuy, isFinite_round2 (by decide) hsell⟩

namespace LongGridStrategy

/-- A grid of finite numbers around a moderate anchor. -/
structure FiniteGrid (s : LongGridStrategy Double) : Prop where
  cfg : s.cfg.Moderate
  levelCount : 2 ≤ s.cfg.levels
  anchorPrice : s.anchorPrice.atMost 300 = true
  levels : ∀ lv ∈ s.levels, lv.buyPrice.isFinite = true ∧ lv.sellPrice.isFinite = true

variable {s : LongGridStrategy Double}

theorem FiniteGrid.allFinite (h : s.FiniteGrid) : App.AllFinite s.runtimeView :=
  ⟨Double.isFinite_of_atMost h.anchorPrice, h.cfg.orderQty,
    Double.isFinite_of_atMost h.cfg.takeProfitRatio, h.cfg.recenterThresholdRatio,
    Double.isFinite_of_atMost h.cfg.bandRatio, h.levels⟩

theorem finiteGrid_init {cfg : LongGridConfig Double} (h : cfg.Moderate) :
    (init cfg).FiniteGrid :=
  ⟨h.sanitize, cfg.two_le_levels_sanitize, Double.atMost_zero,
    fun _ hlv ↦ absurd hlv List.not_mem_nil⟩

theorem FiniteGrid.setState (h : s.FiniteGrid) (id : ℕ) (state : GridLevelState) :
    (s.setState id state).FiniteGrid := by
  refine ⟨h.cfg, h.levelCount, h.anchorPrice, fun lv hlv ↦ ?_⟩
  rcases mem_writeSlot hlv with hold | ⟨lv', hlv', rfl⟩
  · exact h.levels lv hold
  · exact h.levels lv' hlv'

theorem FiniteGrid.tick (h : s.FiniteGrid) {price : Double} (hprice : price.atMost 300 = true) :
    (s.onPriceTick price).1.FiniteGrid := by
  by_cases hle : price ≤ 0
  · rwa [s.onPriceTick_of_le hle]
  · have hgrid : (s.recentre price).FiniteGrid := by
      rcases s.recentre_cases hle with ⟨-, hcfg, hlevels, hanchor, -⟩ | ⟨-, hsame⟩
      · refine ⟨hcfg ▸ h.cfg, hcfg ▸ h.levelCount, ?_, ?_⟩
        · rw [hanchor]
          exact hprice
        · rw [hlevels]
          exact isFinite_of_mem_gridLevels h.cfg h.levelCount hprice
      · rwa [hsame]
    rcases s.onPriceTick_cases hle with hnone | ⟨lv, -, -, -, hemit⟩
    · rwa [hnone]
    · rw [hemit]
      exact hgrid.setState lv.id .buyPlaced

theorem FiniteGrid.updateConfig (h : s.FiniteGrid) {cfg : LongGridConfig Double}
    (hcfg : cfg.Moderate) : (s.updateConfig cfg).FiniteGrid := by
  have hcount := cfg.two_le_levels_sanitize
  rw [LongGridStrategy.updateConfig]
  split_ifs
  · exact ⟨hcfg.sanitize, hcount, h.anchorPrice,
      isFinite_of_mem_gridLevels hcfg.sanitize hcount h.anchorPrice⟩
  · exact ⟨hcfg.sanitize, hcount, h.anchorPrice, h.levels⟩

end LongGridStrategy

namespace App

open LongGridStrategy

def FiniteRisk (r : RiskConfig Double) : Prop :=
  r.maxSingleOrderNotionalUsd.isFinite = true ∧ r.maxPositionRatio.isFinite = true ∧
    r.dailyLossStopRatio.isFinite = true

/-- The price of a tick, and the ratios of the prices that a request brings for
the grid, are at most `2 ^ 300`. -/
def ModerateEvent : ApiEvent → Prop
  | .tick _ t => t.price.atMost 300 = true
  | .request _ req => Route.of req.method req.target = some .postGridConfig →
      ∀ key ∈ [("take_profit_ratio" : Text), "band_ratio"], ∀ x,
        jsonGetNumber req.body key = some x → x.atMost 300 = true

theorem getD_of_forall {P : Double → Prop} {o : Option Double} {x : Double}
    (ho : ∀ y, o = some y → P y) (hx : P x) : P (o.getD x) := by
  cases o with
  | none => exact hx
  | some y => exact ho y rfl

namespace ApiState

/-- The numbers of the grid and the limits of the router are finite. -/
structure FiniteNumbers (s : ApiState) : Prop where
  grid : s.grid.FiniteGrid
  risk : FiniteRisk s.riskCfg

variable {s : ApiState}

theorem isFinite_getD_jsonGetNumber {body key : Text} {x : Double} (hx : x.isFinite = true) :
    ((jsonGetNumber body key).getD x).isFinite = true :=
  getD_of_forall (P := fun y ↦ y.isFinite = true) (fun _ hy ↦ jsonGetNumber_isFinite hy) hx

theorem FiniteNumbers.requestedGrid (h : s.FiniteNumbers) {env : RequestEnv} {req : Request}
    (hevent : ModerateEvent (.request env req))
    (hroute : Route.of req.method req.target = some .postGridConfig)
    (hchecked : ¬ gridRefused (s.requestedGrid env req.body)) :
    (s.requestedGrid env req.body).Moderate where
  levels := by
    have hlevels : ¬ 200 < (s.requestedGrid env req.body).levels :=
      fun hmany ↦ hchecked (Or.inl (Or.inr hmany))
    omega
  orderQty := isFinite_getD_jsonGetNumber h.grid.cfg.orderQty
  takeProfitRatio := getD_of_forall (P := fun y ↦ y.atMost 300 = true)
    (hevent hroute _ (by simp)) h.grid.cfg.takeProfitRatio
  recenterThresholdRatio := isFinite_getD_jsonGetNumber h.grid.cfg.recenterThresholdRatio
  bandRatio := getD_of_forall (P := fun y ↦ y.atMost 300 = true)
    (hevent hroute _ (by simp)) h.grid.cfg.bandRatio

theorem FiniteNumbers.requestedRisk (h : s.FiniteNumbers) (body : Text) :
    FiniteRisk (s.requestedRisk body) :=
  ⟨isFinite_getD_jsonGetNumber h.risk.1, isFinite_getD_jsonGetNumber h.risk.2.1,
    isFinite_getD_jsonGetNumber h.risk.2.2⟩

theorem FiniteNumbers.next (h : s.FiniteNumbers) {e : ApiEvent} (he : ModerateEvent e) :
    (apiMachine.next s e).FiniteNumbers := by
  have hgrid : (apiMachine.next s e).grid = (s.apply (s.effect e)).grid :=
    (s.next_eq e).congr ApiState.grid fun _ _ ↦ rfl
  have hrisk : (apiMachine.next s e).riskCfg = (s.apply (s.effect e)).riskCfg :=
    (s.next_eq e).congr riskCfg fun _ _ ↦ rfl
  refine ⟨hgrid ▸ ?_, hrisk ▸ ?_⟩
  · cases heffect : s.effect e with
    | tick nowMs t =>
        cases e with
        | request env req =>
            have hroute := s.requestEffect_cases env req.body (Route.of req.method req.target)
            rw [effect] at heffect
            rw [heffect] at hroute
            rcases hroute with hnothing | hroute
            · cases hnothing
            · rw [← hroute] at heffect
              cases heffect
        | tick nowMs' t' =>
            obtain ⟨rfl, rfl⟩ := Effect.tick.inj heffect
            simp only [apply]
            split_ifs
            · exact h.grid.tick he
            · exact h.grid
    | gridConfig g =>
        obtain ⟨env, req, rfl, hroute, rfl, hchecked⟩ := exists_request_of_gridConfig heffect
        exact h.grid.updateConfig (h.requestedGrid he hroute hchecked)
    | _ => exact h.grid
  · cases heffect : s.effect e with
    | risk next written =>
        obtain ⟨body, rfl, -⟩ := exists_requestedRisk heffect
        exact h.requestedRisk body
    | _ => exact h.risk

end ApiState

theorem finiteNumbers_service {b : Startup} (hgrid : b.cfg.gridDefault.Moderate)
    (hrisk : FiniteRisk b.riskCfg) {es : List ApiEvent} (hes : ∀ e ∈ es, ModerateEvent e) :
    (service b es).FiniteNumbers :=
  Machine.AllSteps.run_invariant apiMachine (fun _ _ h he ↦ h.next he)
    (apiMachine.allSteps_of_forall_mem hes _) ⟨finiteGrid_init hgrid, hrisk⟩

end App

end FrogQuant
