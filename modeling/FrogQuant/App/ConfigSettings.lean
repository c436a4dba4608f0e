import FrogQuant.App.Bootstrap
import FrogQuant.Lib.Numeral

/-!
# The settings of the configuration

`load_config` as a table: each setting has a name, a kind, and a field of the
configuration.  A setting changes its field exactly if its name is bound to a
text that the conversion of its kind accepts.
-/

namespace FrogQuant.App

inductive SettingKind where
  | text
  | int
  | size
  | double
  | bool
  deriving DecidableEq

inductive SettingValue where
  | text (t : Text)
  | int (n : ℤ)
  | size (n : ℕ)
  | double (x : Double)
  | bool (b : Bool)
  deriving DecidableEq

structure Setting where
  name : Text
  kind : SettingKind
  get : AppConfig → SettingValue

def settings : List Setting :=
  [⟨"engine.symbol", .text, fun cfg ↦ .text cfg.symbol⟩,
    ⟨"engine.market_poll_ms", .int, fun cfg ↦ .int cfg.marketPollMs⟩,
    ⟨"engine.control_port", .int, fun cfg ↦ .int cfg.controlPort⟩,
    ⟨"risk.max_single_order_notional_usd", .double,
      fun cfg ↦ .double cfg.riskMaxSingleOrderNotionalUsd⟩,
    ⟨"risk.max_position_ratio", .double, fun cfg ↦ .double cfg.riskMaxPositionRatio⟩,
    ⟨"risk.daily_loss_stop_ratio", .double, fun cfg ↦ .double cfg.riskDailyLossStopRatio⟩,
    ⟨"execution.dry_run", .bool, fun cfg ↦ .bool cfg.execDryRun⟩,
    ⟨"execution.base_url", .text, fun cfg ↦ .text cfg.execBaseUrl⟩,
    ⟨"logging.path", .text, fun cfg ↦ .text cfg.logPath⟩,
    ⟨"execution.credentials_path", .text, fun cfg ↦ .text cfg.credentialsPath⟩,
    ⟨"runtime.health_unhealthy_after_no_tick_sec", .int,
      fun cfg ↦ .int cfg.healthUnhealthyAfterNoTickSec⟩,
    ⟨"runtime.run_seconds", .int, fun cfg ↦ .int cfg.runSeconds⟩,
    ⟨"runtime.strategy_start_enabled", .bool, fun cfg ↦ .bool cfg.strategyStartEnabled⟩,
    ⟨"runtime.state_path", .text, fun cfg ↦ .text cfg.runtimeStatePath⟩,
    ⟨"runtime.max_events_cache", .size, fun cfg ↦ .size cfg.maxEventsCache⟩,
    ⟨"runtime.max_orders_cache", .size, fun cfg ↦ .size cfg.maxOrdersCache⟩,
    ⟨"runtime.order_trim_batch", .size, fun cfg ↦ .size cfg.orderTrimBatch⟩,
    ⟨"strategy.levels", .int, fun cfg ↦ .int cfg.gridDefault.levels⟩,
    ⟨"strategy.order_qty", .double, fun cfg ↦ .double cfg.gridDefault.orderQty⟩,
    ⟨"strategy.take_profit_ratio", .double, fun cfg ↦ .double cfg.gridDefault.takeProfitRatio⟩,
    ⟨"strategy.dynamic_enabled", .bool, fun cfg ↦ .bool cfg.gridDefault.dynamicEnabled⟩,
    ⟨"strategy.recenter_threshold_ratio", .double,
      fun cfg ↦ .double cfg.gridDefault.recenterThresholdRatio⟩,
    ⟨"strategy.band_ratio", .double, fun cfg ↦ .double cfg.gridDefault.bandRatio⟩]

/-- The conversions of `get_s`, `get_i`, `get_sz`, `get_d` and `get_b`; `none`
where the exception is swallowed. -/
def SettingKind.convert : SettingKind → Text → Option SettingValue
  | text, w => some (.text w)
  | int, w => (Strtod.stoi w).map .int
  | size, w => (Strtod.stoull w).map .size
  | double, w => (Strtod.stod w).map .double
  | bool, w => some (.bool (readsTrue w))

/-! ## The table is the reader -/

namespace SimpleYaml

variable (kv : SimpleYaml) (k : Text)

def read (kind : SettingKind) (old : SettingValue) : SettingValue :=
  ((kv.lookup k).bind kind.convert).getD old

theorem getS_value (old : Text) : .text (kv.getS k old) = kv.read k .text (.text old) := by
  rw [getS, read]
  cases kv.lookup k <;> rfl

theorem getB_value (old : Bool) : .bool (kv.getB k old) = kv.read k .bool (.bool old) := by
  rw [getB, read]
  cases kv.lookup k <;> rfl

theorem getI_value (old : ℤ) : .int (kv.getI k old) = kv.read k .int (.int old) := by
  rw [getI, read]
  cases kv.lookup k with
  | none => rfl
  | some w => cases h : Strtod.stoi w <;> simp [SettingKind.convert, h]

theorem getSz_value (old : ℕ) : .size (kv.getSz k old) = kv.read k .size (.size old) := by
  rw [getSz, read]
  cases kv.lookup k with
  | none => rfl
  | some w => cases h : Strtod.stoull w <;> simp [SettingKind.convert, h]

theorem getD_value (old : Double) : .double (kv.getD k old) = kv.read k .double (.double old) := by
  rw [getD, read]
  cases kv.lookup k with
  | none => rfl
  | some w => cases h : Strtod.stod w <;> simp [SettingKind.convert, h]

end SimpleYaml

/-- Each setting is read by the conversion of its kind from the text bound to
its name. -/
theorem get_loadConfig {st : Setting} (hst : st ∈ settings) (cfg : AppConfig)
    (file : Option Text) :
    st.get (loadConfig cfg file) = (parseSimpleYaml file).read st.name st.kind (st.get cfg) := by
  rw [loadConfig_eq]
  generalize parseSimpleYaml file = kv
  simp only [settings, List.mem_cons, List.not_mem_nil, or_false] at hst
  rcases hst with rfl | rfl | rfl | rfl | rfl | rfl | rfl | rfl | rfl | rfl | rfl | rfl | rfl |
    rfl | rfl | rfl | rfl | rfl | rfl | rfl | rfl | rfl | rfl
  all_goals
    first
    | exact kv.getS_value _ _
    | exact kv.getI_value _ _
    | exact kv.getSz_value _ _
    | exact kv.getD_value _ _
    | exact kv.getB_value _ _

/-- The settings are all there is to a configuration. -/
theorem AppConfig.ext_settings {cfg cfg' : AppConfig}
    (h : ∀ st ∈ settings, st.get cfg = st.get cfg') : cfg = cfg' := by
  simp only [settings, List.forall_mem_cons] at h
  obtain ⟨_, _, _, _, _, _, _, _, _, _, _, _, _, _, _, _, _, ⟨⟩⟩ := cfg
  obtain ⟨_, _, _, _, _, _, _, _, _, _, _, _, _, _, _, _, _, ⟨⟩⟩ := cfg'
  simp_all

/-! ## Malformed numbers -/

/-- The numeral of its kind that a text is as a whole; texts and switches have
none. -/
def SettingKind.numeral : SettingKind → Text → Option SettingValue
  | int, w => (Numeral.int w).map .int
  | size, w => (Numeral.size w).map .size
  | double, w => (Numeral.double w).map .double
  | text, _ => none
  | bool, _ => none

def SettingKind.isNumeric : SettingKind → Bool
  | int | size | double => true
  | text | bool => false

def numericSettings : List Setting := settings.filter fun st ↦ st.kind.isNumeric

/-- The conversions read a whole numeral as what it denotes. -/
theorem SettingKind.convert_of_numeral {kind : SettingKind} {w : Text} {v : SettingValue}
    (h : kind.numeral w = some v) : kind.convert w = some v := by
  cases kind with
  | text => cases h
  | bool => cases h
  | int =>
      obtain ⟨n, hn, rfl⟩ := Option.map_eq_some_iff.mp h
      rw [convert, Numeral.stoi_of_int hn, Option.map_some]
  | size =>
      obtain ⟨n, hn, rfl⟩ := Option.map_eq_some_iff.mp h
      rw [convert, Numeral.stoull_of_size hn, Option.map_some]
  | double =>
      obtain ⟨x, hx, rfl⟩ := Option.map_eq_some_iff.mp h
      rw [convert, Numeral.stod_of_double hx, Option.map_some]

/-- A numeric setting changes to the numeral that the text bound to its name is
as a whole, and stays as it was for every other text. -/
def NumeralsOnly (st : Setting) (cfg : AppConfig) (file : Option Text) : Prop :=
  st.get (loadConfig cfg file) =
    (((parseSimpleYaml file).lookup st.name).bind st.kind.numeral).getD (st.get cfg)

/-- The conversion stands for the whole text: it finds no numeral in range at
the start, the text is a numeral, or what it finds there is the value that the
setting has. -/
def StandsForWhole (kind : SettingKind) (old : SettingValue) (w : Text) : Prop :=
  kind.convert w = none ∨ (kind.numeral w).isSome ∨ kind.convert w = some old

theorem standsForWhole_iff (kind : SettingKind) (old : SettingValue) (w : Text) :
    (kind.convert w).getD old = (kind.numeral w).getD old ↔ StandsForWhole kind old w := by
  rw [StandsForWhole]
  cases hnumeral : kind.numeral w with
  | some v => simp [SettingKind.convert_of_numeral hnumeral]
  | none => cases kind.convert w <;> simp

/-- A malformed number leaves its setting alone exactly if the conversion does
not take a part of it. -/
theorem malformed_number_ignored_iff (file : Option Text) (cfg : AppConfig) {st : Setting}
    (hst : st ∈ numericSettings) :
    NumeralsOnly st cfg file ↔
      ∀ w, (parseSimpleYaml file).lookup st.name = some w →
        StandsForWhole st.kind (st.get cfg) w := by
  rw [NumeralsOnly, get_loadConfig (List.mem_filter.mp hst).1, SimpleYaml.read]
  cases hw : (parseSimpleYaml file).lookup st.name with
  | none => simp
  | some w =>
      simp only [Option.bind_some, Option.some.injEq, forall_eq']
      exact standsForWhole_iff st.kind (st.get cfg) w

def runSeconds : Setting := ⟨"runtime.run_seconds", .int, fun cfg ↦ .int cfg.runSeconds⟩

def runSecondsFile (w : Text) : Option Text := some ("runtime:\n  run_seconds: ".toList ++ w)

theorem mem_numericSettings_runSeconds : runSeconds ∈ numericSettings :=
  List.mem_filter.mpr ⟨List.mem_of_getElem? (i := 11) rfl, rfl⟩

theorem malformed_number_ignored_letters :
    NumeralsOnly runSeconds .default (runSecondsFile "soon") :=
  (malformed_number_ignored_iff (runSecondsFile "soon") .default
    mem_numericSettings_runSeconds).mpr fun w hw ↦ by
      have hsoon : (parseSimpleYaml (runSecondsFile "soon")).lookup runSeconds.name =
          some "soon".toList := by decide +kernel
      obtain rfl := Option.some.inj (hsoon.symm.trans hw)
      exact Or.inl (by decide +kernel)

/-- Ten thousand seconds in the wrong spelling become ten. -/
theorem underscore_read_as_ten :
    ¬ ∀ (file : Option Text) (cfg : AppConfig), ∀ st ∈ numericSettings,
      NumeralsOnly st cfg file := by
  intro h
  have hset := h (runSecondsFile "10_000") .default runSeconds mem_numericSettings_runSeconds
  have hread : runSeconds.get (loadConfig .default (runSecondsFile "10_000")) = .int 10 := by
    decide +kernel
  have hwhole : ((parseSimpleYaml (runSecondsFile "10_000")).lookup runSeconds.name).bind
      runSeconds.kind.numeral = none := by decide +kernel
  rw [NumeralsOnly, hread, hwhole] at hset
  exact absurd hset (by decide +kernel)

end FrogQuant.App
