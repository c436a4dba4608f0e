import FrogQuant.App.Settings

/-!
# Limits within the range of the API

The route of the limits checks their range; the configuration file and the
runtime state file are read unchecked.
-/

namespace FrogQuant.App

/-- The range that the route of the limits enforces. -/
structure RiskInRange (r : RiskConfig Double) : Prop where
  notional : 0 < r.maxSingleOrderNotionalUsd
  position : 0 < r.maxPositionRatio ∧ r.maxPositionRatio ≤ lit 1
  loss : 0 < r.dailyLossStopRatio ∧ r.dailyLossStopRatio ≤ lit 1

namespace ApiState

/-- What a request gives for a limit is finite, so that the check, which no NaN
fails, is enough. -/
theorem pos_of_getD {body key : Text} {old : Double} (hold : 0 < old)
    (h : ¬ (jsonGetNumber body key).getD old ≤ 0) : 0 < (jsonGetNumber body key).getD old := by
  cases hx : jsonGetNumber body key with
  | none => simpa using hold
  | some x =>
      obtain ⟨q, rfl⟩ := x.isFinite_iff.mp (jsonGetNumber_isFinite hx)
      simp only [hx, Option.getD_some, Double.finite_le_zero, not_le] at h
      simpa using h

theorem le_one_of_getD {body key : Text} {old : Double} (hold : old ≤ lit 1)
    (h : ¬ lit 1 < (jsonGetNumber body key).getD old) :
    (jsonGetNumber body key).getD old ≤ lit 1 := by
  cases hx : jsonGetNumber body key with
  | none => simpa using hold
  | some x =>
      obtain ⟨q, rfl⟩ := x.isFinite_iff.mp (jsonGetNumber_isFinite hx)
      rw [hx, Option.getD_some] at h
      exact (Double.not_lt_iff Double.ofRat_ne_nan (by simp)).mp h

theorem riskInRange_requestedRisk {s : ApiState} (h : RiskInRange s.riskCfg) {body : Text}
    (hcheck : ¬ riskOutOfRange (s.requestedRisk body)) : RiskInRange (s.requestedRisk body) := by
  simp only [riskOutOfRange, not_or] at hcheck
  obtain ⟨hnotional, hposition, hposition', hloss, hloss'⟩ := hcheck
  exact ⟨pos_of_getD h.notional hnotional,
    ⟨pos_of_getD h.position.1 hposition, le_one_of_getD h.position.2 hposition'⟩,
    ⟨pos_of_getD h.loss.1 hloss, le_one_of_getD h.loss.2 hloss'⟩⟩

theorem riskInRange_next {s : ApiState} (h : RiskInRange s.riskCfg) (e : ApiEvent) :
    RiskInRange (apiMachine.next s e).riskCfg := by
  rw [riskCfg_next]
  cases heffect : s.effect e with
  | risk next written =>
      obtain ⟨body, rfl, hcheck⟩ := exists_requestedRisk heffect
      exact riskInRange_requestedRisk h hcheck
  | _ => exact h

end ApiState

/-- Every number that the state file, or else the configuration file, gives for
a limit is in range. -/
def Host.LimitsInRange (h : Host) : Prop :=
  (∀ x, (h.stateNumber "max_single_order_notional_usd").or
    (h.yamlNumber "max_single_order_notional_usd") = some x → 0 < x) ∧
  (∀ x, (h.stateNumber "max_position_ratio").or (h.yamlNumber "max_position_ratio") = some x →
    0 < x ∧ x ≤ lit 1) ∧
  (∀ x, (h.stateNumber "daily_loss_stop_ratio").or (h.yamlNumber "daily_loss_stop_ratio") = some x →
    0 < x ∧ x ≤ lit 1)

theorem Host.riskInRange_initial_iff (h : Host) :
    RiskInRange h.initialState.2 ↔ h.LimitsInRange := by
  have hgetD : ∀ (P : Double → Prop) (o o' : Option Double) (y : Double), P y →
      (P (o.getD (o'.getD y)) ↔ ∀ x, o.or o' = some x → P x) := by
    intro P o o' y hy
    cases o <;> cases o' <;> simp [hy]
  rw [initialRisk_eq, riskCfg_eq, LimitsInRange,
    ← hgetD (fun x ↦ 0 < x) _ _ (lit 10) (by decide +kernel),
    ← hgetD (fun x ↦ 0 < x ∧ x ≤ lit 1) _ _ (lit 0.80) (by decide +kernel),
    ← hgetD (fun x ↦ 0 < x ∧ x ≤ lit 1) _ _ (lit 0.05) (by decide +kernel)]
  exact ⟨fun hr ↦ ⟨hr.notional, hr.position, hr.loss⟩, fun hr ↦ ⟨hr.1, hr.2.1, hr.2.2⟩⟩

/-- The limits in force are in range in every state of a run exactly if those
that the files give are. -/
theorem limits_in_range_iff (h : Host) (es : List ApiEvent) :
    (∀ b, h.startup = .ok b → ∀ xs, xs <+: es → RiskInRange (service b xs).core.risk) ↔
      (h.Ready → h.LimitsInRange) := by
  simp only [h.startup_eq_ok_iff]
  constructor
  · intro hall hready
    rw [← h.riskInRange_initial_iff]
    exact hall h.started ⟨hready, rfl⟩ [] List.nil_prefix
  · rintro hcond b ⟨hready, rfl⟩ xs -
    have hstart := h.riskInRange_initial_iff.mpr (hcond hready)
    rw [← riskAgrees]
    exact apiMachine.run_invariant (P := fun s ↦ RiskInRange s.riskCfg)
      (fun s e hs ↦ ApiState.riskInRange_next hs e) hstart xs

/-- A configuration file with the ratio 0.8 written as 80. -/
def percentHost : Host :=
  { bareHost with
    file := fun path ↦
      if path = "config/engine.yaml".toList then some "risk:\n  max_position_ratio: 80\n"
      else none }

theorem percent_ratio_in_force :
    ¬ ∀ b, percentHost.startup = .ok b → ∀ xs, xs <+: [] →
      RiskInRange (service b xs).core.risk := by
  intro h
  have hready : percentHost.Ready := ⟨rfl, Or.inl (by decide +kernel)⟩
  have hrange := h _ ((percentHost.startup_eq_ok_iff _).mpr ⟨hready, rfl⟩) [] List.prefix_rfl
  have hratio : (service percentHost.started []).core.risk.maxPositionRatio = .finite 80 := by
    decide +kernel
  have hle := hrange.position.2
  rw [hratio] at hle
  exact absurd hle (by decide +kernel)

end FrogQuant.App
