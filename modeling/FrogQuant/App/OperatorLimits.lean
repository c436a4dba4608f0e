import FrogQuant.App.RuntimeState

/-!
# Limits edited in the configuration file

A save writes the switch and the limits together, and a start lets the file
override whatever limit it finds.  Saving the switch so also saves the limits
of the configuration file, and a later edit of that file is not seen.
-/

namespace FrogQuant.App

/-! ## Reading back against an edited limit -/

/-- `y` is what reading `x` back gives, where reading does not fail. -/
def RoundsTo (x y : Double) : Prop :=
  match x with
  | .finite q =>
      Strtod.inRange (Ostream.roundSignificant q) = true → y = ofRat (Ostream.roundSignificant q)
  | x => y = x

structure RiskRoundsTo (r r' : RiskConfig Double) : Prop where
  notional : RoundsTo r.maxSingleOrderNotionalUsd r'.maxSingleOrderNotionalUsd
  position : RoundsTo r.maxPositionRatio r'.maxPositionRatio
  loss : RoundsTo r.dailyLossStopRatio r'.dailyLossStopRatio

theorem reread_eq_right_iff (x y : Double) : reread x y = y ↔ RoundsTo x y := by
  cases x with
  | nan => simp [RoundsTo, eq_comm]
  | inf neg => simp [RoundsTo, eq_comm]
  | finite q =>
      rw [reread_finite, RoundsTo]
      split_ifs with hrange
      · simp [hrange, eq_comm]
      · simp [hrange]

theorem rereadRisk_eq_right_iff (r r' : RiskConfig Double) :
    rereadRisk r r' = r' ↔ RiskRoundsTo r r' := by
  rw [rereadRisk_eq_iff, reread_eq_right_iff, reread_eq_right_iff, reread_eq_right_iff]
  exact ⟨fun h ↦ ⟨h.1, h.2.1, h.2.2⟩, fun h ↦ ⟨h.notional, h.position, h.loss⟩⟩

/-! ## Runs without an accepted update of the limits -/

namespace ApiState

/-- A `POST /risk/config` that succeeds. -/
def AcceptsRiskConfig (s : ApiState) (e : ApiEvent) : Prop :=
  match e with
  | .tick _ _ => False
  | .request env req =>
      Route.of req.method req.target = some .postRiskConfig ∧ (s.handle env req).2.Success

variable {s : ApiState} {e : ApiEvent}

theorem acceptsRiskConfig_of_effect {next : RiskConfig Double} {written : Bool}
    (h : s.effect e = .risk next written) : s.AcceptsRiskConfig e := by
  cases e with
  | tick nowMs t => cases h
  | request env req =>
      obtain ⟨hroute, rfl, hrange⟩ := requestEffect_eq_risk h
      refine ⟨hroute, ?_⟩
      simp only [handle, hroute, answer, postRiskConfig, if_neg hrange]
      exact Reply.success_of_status rfl

theorem riskCfg_next_of_not_accepts (h : ¬ s.AcceptsRiskConfig e) :
    (apiMachine.next s e).riskCfg = s.riskCfg := by
  rw [riskCfg_next]
  cases heffect : s.effect e with
  | risk next written => exact absurd (acceptsRiskConfig_of_effect heffect) h
  | _ => rfl

theorem runtimeStateFile_next_of_not_saves (h : ¬ s.Saves e) :
    (apiMachine.next s e).runtimeStateFile = s.runtimeStateFile := by
  rw [runtimeStateFile_next]
  rw [Saves] at h
  cases heffect : s.effect e with
  | enable en written | risk next written =>
      rw [heffect] at h
      have hwritten : written = false := Bool.eq_false_iff.mpr fun htrue ↦ h (congrArg some htrue)
      rw [hwritten]
      rfl
  | _ => rfl

/-- The state file holds the limits `r`, with some position of the switch. -/
def FileHolds (r : RiskConfig Double) (s : ApiState) : Prop :=
  ∃ en, s.runtimeStateFile = some (runtimeStateText en r)

theorem fileHolds_of_saves (h : s.Saves e) : FileHolds (apiMachine.next s e).riskCfg
    (apiMachine.next s e) :=
  ⟨_, fileCurrent_of_saves h⟩

theorem fileHolds_run {r : RiskConfig Double} {es : List ApiEvent} (hr : s.riskCfg = r)
    (hnone : apiMachine.AllSteps (fun s e ↦ ¬ s.AcceptsRiskConfig e) s es)
    (hsaved : ¬ apiMachine.AllSteps (fun s e ↦ ¬ s.Saves e) s es) :
    FileHolds r (apiMachine.run s es) := by
  have hkeep : ∀ s e, ApiState.riskCfg s = r → ¬ s.AcceptsRiskConfig e →
      (apiMachine.next s e).riskCfg = r :=
    fun s e hs he ↦ (riskCfg_next_of_not_accepts he).trans hs
  refine hnone.run_of_exists apiMachine (Q := Saves) hkeep ?_ ?_ hr hsaved
  · intro s e hs he hsaves
    have hholds := fileHolds_of_saves hsaves
    rwa [hkeep s e hs he] at hholds
  · intro s e hs he hholds
    by_cases hsaves : s.Saves e
    · have hholds' := fileHolds_of_saves hsaves
      rwa [hkeep s e hs he] at hholds'
    · rw [FileHolds, runtimeStateFile_next_of_not_saves hsaves]
      exact hholds

theorem runtimeStateFile_run {es : List ApiEvent}
    (hunsaved : apiMachine.AllSteps (fun s e ↦ ¬ s.Saves e) s es) :
    (apiMachine.run s es).runtimeStateFile = s.runtimeStateFile :=
  hunsaved.run_invariant apiMachine (P := fun s' ↦ s'.runtimeStateFile = s.runtimeStateFile)
    (fun _ _ hs he ↦ (runtimeStateFile_next_of_not_saves he).trans hs) rfl

end ApiState

/-! ## A restart with another configuration file -/

/-- From no state file, and without an accepted update of the limits, a restart
takes the limits of the configuration file it finds exactly if no step saved,
or the limits saved agree with them as they are read back. -/
theorem operator_limits_in_force_iff {h h' : Host} {b b' : Startup} (hstart : h.startup = .ok b)
    (hfresh : h.file h.config.runtimeStatePath = none) {es : List ApiEvent}
    (hnone : apiMachine.AllSteps (fun s e ↦ ¬ s.AcceptsRiskConfig e) (.start b) es)
    (hpath : h'.config.runtimeStatePath = h.config.runtimeStatePath)
    (hfile : h'.file h.config.runtimeStatePath = (service b es).runtimeStateFile)
    (hstart' : h'.startup = .ok b') :
    (service b' []).core.risk = h'.riskCfg ↔
      apiMachine.AllSteps (fun s e ↦ ¬ s.Saves e) (.start b) es ∨
        RiskRoundsTo h.riskCfg h'.riskCfg := by
  obtain ⟨-, rfl⟩ := (h.startup_eq_ok_iff b).mp hstart
  obtain ⟨-, rfl⟩ := (h'.startup_eq_ok_iff b').mp hstart'
  have hinit : (service h'.started []).core.risk =
      (loadRuntimeState (service h.started es).runtimeStateFile
        (h'.config.strategyStartEnabled, h'.riskCfg)).2 := by
    rw [← hfile, ← hpath]
    rfl
  rw [hinit]
  by_cases hsaved : apiMachine.AllSteps (fun s e ↦ ¬ s.Saves e) (.start h.started) es
  · have hempty : (service h.started es).runtimeStateFile = none :=
      (ApiState.runtimeStateFile_run hsaved).trans hfresh
    rw [hempty]
    exact iff_of_true rfl (Or.inl hsaved)
  · have hrisk : (ApiState.start h.started).riskCfg = h.riskCfg := by
      change h.initialState.2 = h.riskCfg
      rw [Host.initialState, hfresh]
      rfl
    obtain ⟨en, htext⟩ := ApiState.fileHolds_run hrisk hnone hsaved
    have hfile' : (service h.started es).runtimeStateFile = some (runtimeStateText en h.riskCfg) :=
      htext
    rw [hfile', loadRuntimeState_runtimeStateText, rereadRisk_eq_right_iff, or_iff_right hsaved]

def toggle : List ApiEvent :=
  [.request (quietEnv 1) ⟨"POST", "/strategy/grid/enable", "\x7b\"enabled\":true\x7d"⟩]

/-- The bare host after the switch was turned on, with a ratio written into the
configuration file. -/
def editedHost : Host :=
  { bareHost with
    file := fun path ↦
      if path = "config/engine.yaml".toList then some "risk:\n  max_position_ratio: 0.5\n"
      else if path = "config/runtime_state.json".toList then
        (service bareHost.started toggle).runtimeStateFile
      else none }

theorem toggle_not_accepts :
    apiMachine.AllSteps (fun s e ↦ ¬ s.AcceptsRiskConfig e) (.start bareHost.started) toggle := by
  refine ⟨?_, trivial⟩
  rintro ⟨hroute, -⟩
  exact absurd hroute (by decide +kernel)

theorem operator_limits_in_force_same :
    (service (leftHost toggle).started []).core.risk = (leftHost toggle).riskCfg := by
  have hrestart := leftHost_restartOf toggle
  have hpath : (leftHost toggle).config.runtimeStatePath = bareHost.config.runtimeStatePath := by
    rw [hrestart.config_eq]
  apply (operator_limits_in_force_iff bareHost_startup rfl toggle_not_accepts hpath hrestart.state
    (leftHost_startup toggle)).mpr
  right
  rw [hrestart.riskCfg_eq, ← rereadRisk_eq_right_iff, rereadRisk_eq_iff]
  decide +kernel

/-- Turning the switch freezes the ratio: the edited one is not in force. -/
theorem toggle_freezes_ratio :
    ¬ ∀ (b : Startup) (h' : Host) (b' : Startup), bareHost.startup = .ok b →
      apiMachine.AllSteps (fun s e ↦ ¬ s.AcceptsRiskConfig e) (.start b) toggle →
      h'.config.runtimeStatePath = bareHost.config.runtimeStatePath →
      h'.file bareHost.config.runtimeStatePath = (service b toggle).runtimeStateFile →
      h'.startup = .ok b' → (service b' []).core.risk = h'.riskCfg := by
  intro h
  have hready : editedHost.Ready := ⟨rfl, Or.inl (by decide +kernel)⟩
  have hinforce := h _ editedHost _ bareHost_startup toggle_not_accepts (by decide +kernel)
    (by decide +kernel) ((editedHost.startup_eq_ok_iff _).mpr ⟨hready, rfl⟩)
  have hold : (service editedHost.started []).core.risk.maxPositionRatio = lit 0.8 := by
    decide +kernel
  have hnew : editedHost.riskCfg.maxPositionRatio = lit 0.5 := by decide +kernel
  rw [hinforce, hnew] at hold
  exact absurd hold (by decide +kernel)

end FrogQuant.App
