import FrogQuant.App.Bootstrap
import FrogQuant.App.GridUpdates

/-!
# The copies of the settings

A limit is kept by the configuration, the router and the risk engine, a setting
of the grid by the configuration and the strategy.  What a running service
enforces is not what it reports where only one of the copies is written.
-/

namespace FrogQuant.App

/-! ## What a step does to the settings -/

namespace ApiState

variable (s : ApiState) (e : ApiEvent)

theorem cfg_next : (apiMachine.next s e).cfg = s.cfg := by
  rw [(s.next_eq e).congr cfg fun _ _ ↦ rfl]
  cases s.effect e <;> rfl

theorem riskCfg_next :
    (apiMachine.next s e).riskCfg =
      match s.effect e with
      | .risk next _ => next
      | _ => s.riskCfg := by
  rw [(s.next_eq e).congr riskCfg fun _ _ ↦ rfl]
  cases s.effect e <;> rfl

theorem coreRisk_next :
    (apiMachine.next s e).core.risk =
      match s.effect e with
      | .risk next _ => next
      | _ => s.core.risk := by
  rw [(s.next_eq e).congr (fun s ↦ s.core.risk) fun _ _ ↦ rfl]
  cases s.effect e with
  | order nowMs req => exact (s.core.submitManualOrder_frame nowMs req).1
  | _ => rfl

theorem gridCfg_next :
    (apiMachine.next s e).grid.cfg =
      match s.effect e with
      | .gridConfig g => g.sanitize
      | _ => s.grid.cfg := by
  rw [(s.next_eq e).congr (fun s ↦ s.grid.cfg) fun _ _ ↦ rfl]
  cases s.effect e with
  | gridConfig g => exact s.grid.updateConfig_cfg g
  | tick nowMs t =>
      simp only [apply]
      split_ifs
      · exact s.grid.onPriceTick_cfg t.price
      · rfl
  | _ => rfl

/-- The limits the router reports are those the core enforces. -/
theorem riskAgrees_next (h : s.riskCfg = s.core.risk) :
    (apiMachine.next s e).riskCfg = (apiMachine.next s e).core.risk := by
  rw [riskCfg_next, coreRisk_next]
  cases s.effect e <;> first | rfl | exact h

/-- Limits enter by the route of the limits, after its check. -/
theorem requestEffect_eq_risk {s : ApiState} {env : RequestEnv} {body : Text}
    {route : Option Route} {next : RiskConfig Double} {written : Bool}
    (h : s.requestEffect env body route = .risk next written) :
    route = some .postRiskConfig ∧ next = s.requestedRisk body ∧ ¬ riskOutOfRange next := by
  have hroute : route = some .postRiskConfig := by
    apply s.route_of_effect env body
    rw [h]
    rfl
  subst hroute
  rw [requestEffect] at h
  split_ifs at h with hrange
  cases h
  exact ⟨rfl, rfl, hrange⟩

theorem exists_requestedRisk {s : ApiState} {e : ApiEvent} {next : RiskConfig Double}
    {written : Bool} (h : s.effect e = .risk next written) :
    ∃ body, next = s.requestedRisk body ∧ ¬ riskOutOfRange next := by
  cases e with
  | tick nowMs t => cases h
  | request env req => exact ⟨req.body, (requestEffect_eq_risk h).2⟩

end ApiState

theorem service_cfg (b : Startup) (es : List ApiEvent) : (service b es).cfg = b.cfg :=
  apiMachine.run_invariant (P := fun s ↦ s.cfg = b.cfg) (fun s e h ↦ (s.cfg_next e).trans h) rfl
    es

theorem riskAgrees (b : Startup) (es : List ApiEvent) :
    (service b es).riskCfg = (service b es).core.risk :=
  apiMachine.run_invariant (P := fun s ↦ s.riskCfg = s.core.risk)
    (fun s e h ↦ s.riskAgrees_next e h) rfl es

/-! ## The limits at the start -/

namespace Host

variable (h : Host)

def stateFile : Option Text := h.file h.config.runtimeStatePath

/-- The number that the runtime state file gives for a limit, if it gives
one. -/
def stateNumber (key : Text) : Option Double := h.stateFile.bind fun s ↦ findNum s key

/-- The number that the configuration file gives for a limit, if it gives
one. -/
def yamlNumber (key : Text) : Option Double :=
  (h.yaml.lookup ("risk.".toList ++ key)).bind Strtod.stod

theorem riskCfg_eq :
    h.riskCfg =
      { maxSingleOrderNotionalUsd := (h.yamlNumber "max_single_order_notional_usd").getD (lit 10)
        maxPositionRatio := (h.yamlNumber "max_position_ratio").getD (lit 0.80)
        dailyLossStopRatio := (h.yamlNumber "daily_loss_stop_ratio").getD (lit 0.05) } := by
  rw [riskCfg, config, loadConfig_eq]
  rfl

theorem initialRisk_eq :
    h.initialState.2 =
      { maxSingleOrderNotionalUsd :=
          (h.stateNumber "max_single_order_notional_usd").getD h.riskCfg.maxSingleOrderNotionalUsd
        maxPositionRatio := (h.stateNumber "max_position_ratio").getD h.riskCfg.maxPositionRatio
        dailyLossStopRatio :=
          (h.stateNumber "daily_loss_stop_ratio").getD h.riskCfg.dailyLossStopRatio } := by
  simp only [initialState, stateNumber, stateFile]
  cases h.file h.config.runtimeStatePath <;> rfl

end Host

/-! ## What is reported and what is in force -/

def AppConfig.riskLimits (cfg : AppConfig) : RiskConfig Double where
  maxSingleOrderNotionalUsd := cfg.riskMaxSingleOrderNotionalUsd
  maxPositionRatio := cfg.riskMaxPositionRatio
  dailyLossStopRatio := cfg.riskDailyLossStopRatio

namespace ApiState

/-- The limits and the grid settings that the effective configuration encodes
are those in force; the router reports the limits in force too. -/
structure ReportsInForce (s : ApiState) : Prop where
  limits : s.cfg.riskLimits = s.core.risk
  router : s.riskCfg = s.core.risk
  grid : s.cfg.gridDefault = s.grid.runtimeView.config

/-- An accepted update that leaves a setting other than it was. -/
def ChangesSettings (s : ApiState) (e : ApiEvent) : Prop :=
  match s.effect e with
  | .risk next _ => next ≠ s.core.risk
  | .gridConfig g => g.sanitize ≠ s.grid.runtimeView.config
  | _ => False

theorem reportsInForce_next_iff {s : ApiState} (h : s.ReportsInForce) (e : ApiEvent) :
    (apiMachine.next s e).ReportsInForce ↔ ¬ s.ChangesSettings e := by
  have hsplit : (apiMachine.next s e).ReportsInForce ↔
      s.core.risk = (apiMachine.next s e).core.risk ∧
        s.grid.cfg = (apiMachine.next s e).grid.cfg := by
    constructor
    · rintro ⟨hlimits, -, hgrid⟩
      rw [cfg_next] at hlimits hgrid
      exact ⟨h.limits.symm.trans hlimits, h.grid.symm.trans hgrid⟩
    · rintro ⟨hlimits, hgrid⟩
      refine ⟨?_, s.riskAgrees_next e h.router, ?_⟩
      · rw [cfg_next]
        exact h.limits.trans hlimits
      · rw [cfg_next]
        exact h.grid.trans hgrid
  rw [hsplit, coreRisk_next, gridCfg_next, ChangesSettings]
  cases s.effect e with
  | risk next written => simp [eq_comm]
  | gridConfig g => simp [LongGridStrategy.runtimeView, eq_comm]
  | _ => simp

end ApiState

/-- The state file gives no limit other than the configured one, and the
strategy takes the configured grid as it is. -/
def Host.StartsAsConfigured (h : Host) : Prop :=
  (∀ x, h.stateNumber "max_single_order_notional_usd" = some x →
    x = h.config.riskMaxSingleOrderNotionalUsd) ∧
  (∀ x, h.stateNumber "max_position_ratio" = some x → x = h.config.riskMaxPositionRatio) ∧
  (∀ x, h.stateNumber "daily_loss_stop_ratio" = some x → x = h.config.riskDailyLossStopRatio) ∧
  h.config.gridDefault.Kept

theorem Host.reportsInForce_start_iff (h : Host) :
    (ApiState.start h.started).ReportsInForce ↔ h.StartsAsConfigured := by
  have hgetD : ∀ (o : Option Double) (y : Double), y = o.getD y ↔ ∀ x, o = some x → x = y := by
    intro o y
    cases o <;> simp [eq_comm]
  have hlimits : h.config.riskLimits = h.initialState.2 ↔
      (∀ x, h.stateNumber "max_single_order_notional_usd" = some x →
        x = h.config.riskMaxSingleOrderNotionalUsd) ∧
      (∀ x, h.stateNumber "max_position_ratio" = some x → x = h.config.riskMaxPositionRatio) ∧
      (∀ x, h.stateNumber "daily_loss_stop_ratio" = some x →
        x = h.config.riskDailyLossStopRatio) := by
    rw [initialRisk_eq, AppConfig.riskLimits, RiskConfig.mk.injEq, ← hgetD, ← hgetD, ← hgetD]
    rfl
  have hgrid := h.config.gridDefault.sanitize_eq_self_iff
  rw [StartsAsConfigured, ← hgrid]
  constructor
  · rintro ⟨hrisk, -, hcfg⟩
    obtain ⟨h₁, h₂, h₃⟩ := hlimits.mp hrisk
    exact ⟨h₁, h₂, h₃, hcfg.symm⟩
  · rintro ⟨h₁, h₂, h₃, hcfg⟩
    exact ⟨hlimits.mpr ⟨h₁, h₂, h₃⟩, rfl, hcfg.symm⟩

/-- The effective configuration is the one in force in every state of a run
exactly if the service starts as configured and no update changes anything. -/
theorem effective_config_in_force_iff (h : Host) (es : List ApiEvent) :
    (∀ b, h.startup = .ok b → ∀ xs, xs <+: es → (service b xs).ReportsInForce) ↔
      (h.Ready → h.StartsAsConfigured ∧
        apiMachine.AllSteps (fun s e ↦ ¬ s.ChangesSettings e) (.start h.started) es) := by
  have hrun : ∀ s : ApiState, (∀ xs, xs <+: es → (apiMachine.run s xs).ReportsInForce) ↔
      s.ReportsInForce ∧ apiMachine.AllSteps (fun s e ↦ ¬ s.ChangesSettings e) s es := by
    intro s
    by_cases hs : s.ReportsInForce
    · rw [apiMachine.forall_prefix_iff_allSteps hs]
      simp only [hs, true_and]
      exact apiMachine.allSteps_congr ApiState.ReportsInForce
        (fun s e h ↦ ApiState.reportsInForce_next_iff h e)
        (fun s e h hstep ↦ (ApiState.reportsInForce_next_iff h e).mpr hstep) es hs
    · exact iff_of_false (fun hall ↦ hs (hall [] List.nil_prefix)) (fun hboth ↦ hs hboth.1)
  simp only [h.startup_eq_ok_iff]
  constructor
  · intro hall hready
    rw [← h.reportsInForce_start_iff]
    exact (hrun _).mp (hall h.started ⟨hready, rfl⟩)
  · rintro hcond b ⟨hready, rfl⟩
    apply (hrun _).mpr
    rw [h.reportsInForce_start_iff]
    exact hcond hready

/-- A host without files and environment. -/
def bareHost : Host where
  env := fun _ ↦ none
  file := fun _ ↦ none
  appendable := fun _ ↦ true
  nowMs := 0

theorem bareHost_ready : bareHost.Ready := ⟨rfl, Or.inl (by decide +kernel)⟩

def postRisk (body : String) : ApiEvent := .request (quietEnv 1) ⟨"POST", "/risk/config", body⟩

/-- A limit set by the client is enforced and not reported. -/
theorem client_limit_not_reported :
    ¬ ∀ b, bareHost.startup = .ok b → ∀ xs,
      xs <+: [postRisk "\x7b\"max_position_ratio\":0.5\x7d"] → (service b xs).ReportsInForce := by
  intro h
  have hstart := (bareHost.startup_eq_ok_iff _).mpr ⟨bareHost_ready, rfl⟩
  have hlimits := (h _ hstart _ List.prefix_rfl).limits
  have hreported : (service bareHost.started
      [postRisk "\x7b\"max_position_ratio\":0.5\x7d"]).cfg.riskLimits.maxPositionRatio =
        lit 0.8 := by decide +kernel
  have henforced : (service bareHost.started
      [postRisk "\x7b\"max_position_ratio\":0.5\x7d"]).core.risk.maxPositionRatio =
        .finite 0.5 := by decide +kernel
  rw [hlimits, henforced] at hreported
  exact absurd hreported (by decide +kernel)

end FrogQuant.App
