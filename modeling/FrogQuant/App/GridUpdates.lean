import FrogQuant.App.Effects
import FrogQuant.App.ServiceRuns

/-!
# Updates of the grid configuration

The route checks two of the six fields, and the strategy replaces or lets
through what the route did not check.
-/

namespace FrogQuant

/-- A configuration that the strategy takes as it is. -/
def LongGridConfig.Kept (cfg : LongGridConfig Double) : Prop :=
  2 ≤ cfg.levels ∧ ¬ cfg.orderQty ≤ 0 ∧ ¬ cfg.takeProfitRatio ≤ 0 ∧
    ¬ cfg.recenterThresholdRatio ≤ 0 ∧ ¬ cfg.bandRatio ≤ lit 0.002

theorem LongGridConfig.sanitize_eq_self_iff (cfg : LongGridConfig Double) :
    cfg.sanitize = cfg ↔ cfg.Kept := by
  have hkept : ∀ x bound : Double, ∀ q : ℚ, (¬ (lit q : Double) ≤ bound) →
      ((if x ≤ bound then lit q else x) = x ↔ ¬ x ≤ bound) := by
    intro x bound q hq
    split_ifs with hx
    · refine iff_of_false ?_ (not_not.mpr hx)
      rintro rfl
      exact hq hx
    · exact iff_of_true rfl hx
  obtain
    ⟨levels, orderQty, takeProfitRatio, dynamicEnabled, recenterThresholdRatio, bandRatio⟩ := cfg
  have hlevels : (if levels < 2 then 2 else levels) = levels ↔ 2 ≤ levels := by
    split_ifs <;> omega
  simp only [sanitize, Kept, LongGridConfig.mk.injEq, true_and, hlevels]
  rw [hkept orderQty 0 0.001 (by decide +kernel), hkept takeProfitRatio 0 0.002 (by decide +kernel),
    hkept recenterThresholdRatio 0 0.004 (by decide +kernel),
    hkept bandRatio (lit 0.002) 0.06 (by decide +kernel)]

namespace App

/-- The documented bounds. -/
def GridBounds (g : LongGridConfig Double) : Prop :=
  (2 ≤ g.levels ∧ g.levels ≤ 200) ∧
    (0 < g.orderQty ∧ g.orderQty ≤ lit 1000) ∧
    (0 < g.takeProfitRatio ∧ g.takeProfitRatio ≤ lit 0.2) ∧
    (0 < g.recenterThresholdRatio ∧ g.recenterThresholdRatio ≤ lit 0.2) ∧
    (lit 0.002 < g.bandRatio ∧ g.bandRatio ≤ lit 1)

theorem GridBounds.kept {g : LongGridConfig Double} (h : GridBounds g) : g.Kept := by
  obtain ⟨⟨hlevels, -⟩, ⟨hqty, -⟩, ⟨hprofit, -⟩, ⟨hrecenter, -⟩, ⟨hband, -⟩⟩ := h
  exact ⟨hlevels, Double.not_le_of_lt hqty, Double.not_le_of_lt hprofit,
    Double.not_le_of_lt hrecenter, Double.not_le_of_lt hband⟩

theorem GridBounds.not_refused {g : LongGridConfig Double} (h : GridBounds g) :
    ¬ ApiState.gridRefused g := by
  obtain ⟨⟨hlow, hhigh⟩, ⟨hpos, hle⟩, -⟩ := h
  rintro (hlevels | hqty | hqty)
  · omega
  · exact Double.not_le_of_lt hpos hqty
  · exact Double.not_le_of_lt hqty hle

namespace ApiState

variable (s : ApiState) (env : RequestEnv) (body : Text)

/-- What comes of `POST /strategy/grid/config`. -/
def gridConfigAnswer : ApiState × Reply := s.handle env ⟨"POST", "/strategy/grid/config", body⟩

/-- The update is applied as asked for and within the bounds, or refused and
without effect. -/
structure HonestUpdate : Prop where
  applied : (s.gridConfigAnswer env body).2.status = 200 →
    (s.gridConfigAnswer env body).1.grid.runtimeView.config = s.requestedGrid env body ∧
      GridBounds (s.gridConfigAnswer env body).1.grid.runtimeView.config
  refused : ¬ GridBounds (s.requestedGrid env body) →
    (s.gridConfigAnswer env body).2.status = 400 ∧
      (s.gridConfigAnswer env body).1.grid = s.grid

theorem gridConfigAnswer_eq : s.gridConfigAnswer env body = s.postGridConfig env body := by
  have hroute : Route.of "POST" "/strategy/grid/config" = some .postGridConfig := by decide +kernel
  rw [gridConfigAnswer, handle, hroute]
  rfl

/-- An update is honest exactly if the configuration asked for is within all
bounds or fails one of the two checks of the route. -/
theorem honestUpdate_iff :
    s.HonestUpdate env body ↔
      GridBounds (s.requestedGrid env body) ∨ gridRefused (s.requestedGrid env body) := by
  constructor
  · intro h
    by_contra hnot
    obtain ⟨hbounds, hrefused⟩ := not_or.mp hnot
    have hstatus := (h.refused hbounds).1
    rw [gridConfigAnswer_eq, s.postGridConfig_of_not_refused env body hrefused] at hstatus
    exact absurd (show 200 = 400 from hstatus) (by decide)
  · rintro (hbounds | hrefused)
    · have hsame := (LongGridConfig.sanitize_eq_self_iff _).mpr hbounds.kept
      refine ⟨fun _ ↦ ?_, fun hnot ↦ absurd hbounds hnot⟩
      have hconfig : (s.gridConfigAnswer env body).1.grid.runtimeView.config =
          s.requestedGrid env body := by
        rw [gridConfigAnswer_eq, s.postGridConfig_of_not_refused env body hbounds.not_refused]
        exact (s.grid.updateConfig_cfg _).trans hsame
      rw [hconfig]
      exact ⟨rfl, hbounds⟩
    · obtain ⟨text, hanswer⟩ := s.postGridConfig_of_refused env body hrefused
      rw [← gridConfigAnswer_eq] at hanswer
      constructor
      · intro hstatus
        rw [hanswer] at hstatus
        exact absurd (show 400 = 200 from hstatus) (by decide)
      · intro _
        rw [hanswer]
        exact ⟨rfl, rfl⟩

end ApiState

/-- A band that reaches below zero is acknowledged and applied. -/
theorem wide_band_acknowledged :
    ¬ (service liveStartup []).HonestUpdate (quietEnv 1) "\x7b\"band_ratio\":3\x7d" := by
  intro h
  have hstatus : ((service liveStartup []).gridConfigAnswer (quietEnv 1)
      "\x7b\"band_ratio\":3\x7d").2.status = 200 := by decide +kernel
  have hband : ((service liveStartup []).gridConfigAnswer (quietEnv 1)
      "\x7b\"band_ratio\":3\x7d").1.grid.runtimeView.config.bandRatio = .finite 3 := by
    decide +kernel
  obtain ⟨-, -, -, -, -, -, hle⟩ := h.applied hstatus
  rw [hband] at hle
  exact absurd hle (by decide +kernel)

end App

end FrogQuant
