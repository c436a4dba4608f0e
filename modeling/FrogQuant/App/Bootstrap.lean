import FrogQuant.App.ControlApiRouter
import FrogQuant.Lib.Store

/-!
# Starting the service

`app/bootstrap.cpp`, the readers of `app/app_support.cpp` it uses, and the
start of `app/main.cpp`: settings come from the configuration file, then from
the environment, and the runtime state file overrides the limits and the
switch of the strategy.
-/

namespace FrogQuant.App

open Json

/-! ## The environment -/

/-- What `std::getenv` finds. -/
abbrev Env := Text → Option Text

def envOrEmpty (env : Env) (key : Text) : Text := (env key).getD []

/-- The texts that a boolean setting is read as true from; every other text is
false. -/
def readsTrue (v : Text) : Bool :=
  v = "1".toList || v = "true".toList || v = "TRUE".toList || v = "yes".toList ||
    v = "YES".toList

def envIsTrue (env : Env) (key : Text) (defaultValue : Bool) : Bool :=
  match env key with
  | none => defaultValue
  | some s => readsTrue s

def envOrInt (env : Env) (key : Text) (defaultValue : ℤ) : ℤ :=
  match env key with
  | none => defaultValue
  | some v => (Strtod.stoi v).getD defaultValue

/-! ## The configuration file -/

def trim (t : Text) : Text :=
  ((t.dropWhile Strtod.isSpace).reverse.dropWhile Strtod.isSpace).reverse

/-- The settings of a file by name, `section.key` for those in a section. -/
abbrev SimpleYaml := Store Text Text

structure YamlReader where
  sectionName : Text
  kv : SimpleYaml

/-- A value that opens with a quotation mark loses its first and its last
character. -/
def unquote (val : Text) : Text :=
  if val.head? = some '"' ∨ val.head? = some '\x27' then val.substr 1 (val.length - 2) else val

def YamlReader.readLine (r : YamlReader) (line : Text) : YamlReader :=
  let t := trim line
  if t = [] ∨ t.head? = some '#' then r
  else
    match t.find [':'] 0 with
    | none => r
    | some pos =>
        let key := trim (t.substr 0 pos)
        let val := trim (t.drop (pos + 1))
        if val = [] then { r with sectionName := key }
        else
          let key :=
            if r.sectionName ≠ [] ∧ "  ".toList.isPrefixOf line then
              r.sectionName ++ ['.'] ++ key
            else key
          { r with kv := r.kv.insert key (unquote val) }

def parseSimpleYaml (file : Option Text) : SimpleYaml :=
  match file with
  | none => ∅
  | some t => ((lines t).foldl YamlReader.readLine ⟨[], ∅⟩).kv

namespace SimpleYaml

variable (kv : SimpleYaml) (k : Text)

def getS (out : Text) : Text := (kv.lookup k).getD out

def getI (out : ℤ) : ℤ := ((kv.lookup k).bind Strtod.stoi).getD out

def getSz (out : ℕ) : ℕ := ((kv.lookup k).bind Strtod.stoull).getD out

def getD (out : Double) : Double := ((kv.lookup k).bind Strtod.stod).getD out

def getB (out : Bool) : Bool := ((kv.lookup k).map readsTrue).getD out

def readConfig (cfg : AppConfig) : AppConfig where
  symbol := kv.getS "engine.symbol" cfg.symbol
  marketPollMs := kv.getI "engine.market_poll_ms" cfg.marketPollMs
  controlPort := kv.getI "engine.control_port" cfg.controlPort
  riskMaxSingleOrderNotionalUsd :=
    kv.getD "risk.max_single_order_notional_usd" cfg.riskMaxSingleOrderNotionalUsd
  riskMaxPositionRatio := kv.getD "risk.max_position_ratio" cfg.riskMaxPositionRatio
  riskDailyLossStopRatio := kv.getD "risk.daily_loss_stop_ratio" cfg.riskDailyLossStopRatio
  execDryRun := kv.getB "execution.dry_run" cfg.execDryRun
  execBaseUrl := kv.getS "execution.base_url" cfg.execBaseUrl
  logPath := kv.getS "logging.path" cfg.logPath
  credentialsPath := kv.getS "execution.credentials_path" cfg.credentialsPath
  healthUnhealthyAfterNoTickSec :=
    kv.getI "runtime.health_unhealthy_after_no_tick_sec" cfg.healthUnhealthyAfterNoTickSec
  runSeconds := kv.getI "runtime.run_seconds" cfg.runSeconds
  strategyStartEnabled := kv.getB "runtime.strategy_start_enabled" cfg.strategyStartEnabled
  runtimeStatePath := kv.getS "runtime.state_path" cfg.runtimeStatePath
  maxEventsCache := kv.getSz "runtime.max_events_cache" cfg.maxEventsCache
  maxOrdersCache := kv.getSz "runtime.max_orders_cache" cfg.maxOrdersCache
  orderTrimBatch := kv.getSz "runtime.order_trim_batch" cfg.orderTrimBatch
  gridDefault :=
    { levels := kv.getI "strategy.levels" cfg.gridDefault.levels
      orderQty := kv.getD "strategy.order_qty" cfg.gridDefault.orderQty
      takeProfitRatio := kv.getD "strategy.take_profit_ratio" cfg.gridDefault.takeProfitRatio
      dynamicEnabled := kv.getB "strategy.dynamic_enabled" cfg.gridDefault.dynamicEnabled
      recenterThresholdRatio :=
        kv.getD "strategy.recenter_threshold_ratio" cfg.gridDefault.recenterThresholdRatio
      bandRatio := kv.getD "strategy.band_ratio" cfg.gridDefault.bandRatio }

end SimpleYaml

def loadConfig (cfg : AppConfig) (file : Option Text) : AppConfig :=
  let kv := parseSimpleYaml file
  if kv.entries = [] then cfg else kv.readConfig cfg

/-- A file without settings needs no case of its own. -/
theorem loadConfig_eq (cfg : AppConfig) (file : Option Text) :
    loadConfig cfg file = (parseSimpleYaml file).readConfig cfg := by
  simp only [loadConfig]
  split_ifs with h
  · have hempty : parseSimpleYaml file = ∅ := AList.ext h
    rw [hempty]
    rfl
  · rfl

/-! ## The runtime state file -/

def stateToken (key : Text) : Text := quoted key ++ [':']

def findBool (s key : Text) (out : Bool) : Bool :=
  match s.find (stateToken key) 0 with
  | none => out
  | some p => s.substr (p + (stateToken key).length) 4 = "true".toList

/-- The number that `find_num` assigns, if it assigns one. -/
def findNum (s key : Text) : Option Double := do
  let p ← s.find (stateToken key) 0
  let p := p + (stateToken key).length
  let e ← s.findFirstOf [',', '\x7d'] p
  Strtod.stod (s.substr p (e - p))

/-- `load_runtime_state`; `out` is what the two arguments hold before. -/
def loadRuntimeState (file : Option Text) (out : Bool × RiskConfig Double) :
    Bool × RiskConfig Double :=
  match file with
  | none => out
  | some s =>
      (findBool s "strategy_enabled" out.1,
        { maxSingleOrderNotionalUsd :=
            (findNum s "max_single_order_notional_usd").getD out.2.maxSingleOrderNotionalUsd
          maxPositionRatio := (findNum s "max_position_ratio").getD out.2.maxPositionRatio
          dailyLossStopRatio := (findNum s "daily_loss_stop_ratio").getD out.2.dailyLossStopRatio })

/-! ## Bootstrap -/

/-- What a starting process finds: the environment, the files that can be
opened for reading, the paths that can be opened for appending, and the
clock. -/
structure Host where
  env : Env
  file : Text → Option Text
  appendable : Text → Bool
  nowMs : ℕ

structure BootstrapResult where
  cfg : AppConfig
  riskCfg : RiskConfig Double
  execCfg : ExecConfig

namespace Host

variable (h : Host)

def configPath : Text :=
  if envOrEmpty h.env "FQ_CONFIG_PATH" ≠ [] then envOrEmpty h.env "FQ_CONFIG_PATH"
  else "config/engine.yaml"

/-- The settings of the configuration file. -/
def yaml : SimpleYaml := parseSimpleYaml (h.file h.configPath)

/-- The settings with those of the environment over them. -/
def config : AppConfig :=
  let cfg := loadConfig .default (h.file h.configPath)
  { cfg with
    logPath :=
      if envOrEmpty h.env "FQ_LOG_PATH" ≠ [] then envOrEmpty h.env "FQ_LOG_PATH" else cfg.logPath
    execDryRun := envIsTrue h.env "FQ_EXEC_DRY_RUN" cfg.execDryRun
    runSeconds := envOrInt h.env "FQ_RUN_SECONDS" cfg.runSeconds
    healthUnhealthyAfterNoTickSec :=
      envOrInt h.env "FQ_HEALTH_UNHEALTHY_AFTER_NO_TICK_SEC" cfg.healthUnhealthyAfterNoTickSec }

/-- The two keys: those of the environment, else those of the credentials
file. -/
def credentials : Text × Text :=
  let apiKey := envOrEmpty h.env "BINANCE_TESTNET_API_KEY"
  let secretKey := envOrEmpty h.env "BINANCE_TESTNET_SECRET_KEY"
  if apiKey = [] ∨ secretKey = [] then
    let (k, s) := readCredentialsFile (h.file h.config.credentialsPath) ([], [])
    (if apiKey = [] then k else apiKey, if secretKey = [] then s else secretKey)
  else (apiKey, secretKey)

def riskCfg : RiskConfig Double where
  maxSingleOrderNotionalUsd := h.config.riskMaxSingleOrderNotionalUsd
  maxPositionRatio := h.config.riskMaxPositionRatio
  dailyLossStopRatio := h.config.riskDailyLossStopRatio

def execCfg : ExecConfig where
  apiKey := h.credentials.1
  secretKey := h.credentials.2
  baseUrl := h.config.execBaseUrl
  dryRun := h.config.execDryRun

/-- `bootstrap`, with the text of its error.  The empty file that the probe of
the log path may leave reads as a missing one. -/
def bootstrap : Except Text BootstrapResult :=
  if ¬ h.appendable h.config.logPath then
    .error ("log path not writable: ".toList ++ h.config.logPath)
  else if ¬ h.execCfg.dryRun ∧ (h.execCfg.apiKey = [] ∨ h.execCfg.secretKey = []) then
    .error "FQ_EXEC_DRY_RUN=false but API credentials are missing"
  else .ok { cfg := h.config, riskCfg := h.riskCfg, execCfg := h.execCfg }

/-- What `main` starts the service with. -/
def startup : Except Text Startup := do
  let bs ← h.bootstrap
  let (strategyEnabled, riskCfg) :=
    loadRuntimeState (h.file bs.cfg.runtimeStatePath) (bs.cfg.strategyStartEnabled, bs.riskCfg)
  return {
    cfg := bs.cfg
    execCfg := bs.execCfg
    startMs := h.nowMs
    strategyEnabled := strategyEnabled
    riskCfg := riskCfg
    credentialsFile := h.file bs.cfg.credentialsPath
    runtimeStateFile := h.file bs.cfg.runtimeStatePath }

/-! ## When the service starts, and with what -/

/-- The log can be written, and a service that is not a dry run has both
keys. -/
def Ready : Prop :=
  h.appendable h.config.logPath = true ∧
    (h.config.execDryRun = true ∨ h.credentials.1 ≠ [] ∧ h.credentials.2 ≠ [])

theorem bootstrap_eq_ok_iff (bs : BootstrapResult) :
    h.bootstrap = .ok bs ↔ h.Ready ∧ bs = ⟨h.config, h.riskCfg, h.execCfg⟩ := by
  have hexec : (¬ h.execCfg.dryRun = true ∧ (h.execCfg.apiKey = [] ∨ h.execCfg.secretKey = [])) ↔
      ¬ (h.config.execDryRun = true ∨ h.credentials.1 ≠ [] ∧ h.credentials.2 ≠ []) := by
    simp only [execCfg]
    tauto
  rw [bootstrap, Ready]
  by_cases hlog : h.appendable h.config.logPath = true
  · by_cases hkeys : h.config.execDryRun = true ∨ h.credentials.1 ≠ [] ∧ h.credentials.2 ≠ []
    · rw [if_neg (not_not.mpr hlog), if_neg (fun hmissing ↦ hexec.mp hmissing hkeys),
        Except.ok.injEq]
      simp only [hlog, hkeys, and_self, true_and]
      exact eq_comm
    · rw [if_neg (not_not.mpr hlog), if_pos (hexec.mpr hkeys)]
      simp [hkeys]
  · simp [hlog]

/-- The switch of the strategy and the limits that the runtime state file
leaves. -/
def initialState : Bool × RiskConfig Double :=
  loadRuntimeState (h.file h.config.runtimeStatePath) (h.config.strategyStartEnabled, h.riskCfg)

def started : Startup where
  cfg := h.config
  execCfg := h.execCfg
  startMs := h.nowMs
  strategyEnabled := h.initialState.1
  riskCfg := h.initialState.2
  credentialsFile := h.file h.config.credentialsPath
  runtimeStateFile := h.file h.config.runtimeStatePath

theorem startup_eq_ok_iff (b : Startup) : h.startup = .ok b ↔ h.Ready ∧ b = h.started := by
  rw [startup]
  by_cases hready : h.Ready
  · rw [(h.bootstrap_eq_ok_iff _).mpr ⟨hready, rfl⟩]
    simp only [hready, true_and]
    constructor
    · intro hb
      exact (Except.ok.inj hb).symm
    · rintro rfl
      rfl
  · cases hboot : h.bootstrap with
    | error e => simp [hready, bind, Except.bind]
    | ok bs => exact absurd ((h.bootstrap_eq_ok_iff bs).mp hboot).1 hready

end Host

end FrogQuant.App
