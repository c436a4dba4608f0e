import FrogQuant.Lib.Delimited
import FrogQuant.Lib.FlatJson
import FrogQuant.Lib.Ostream
import FrogQuant.Strategy.LongGridStrategy

/-!
# Readers and texts of the application

`app/app_support.cpp`: the readers that pick a field out of a request body, the
texts of statuses and configurations, and the files of the credentials and the
runtime state.
-/

namespace FrogQuant.App

open Json

structure ApiOrderItem where
  internalId : ℕ
  status : Text
  rejectReason : Text
  tsMs : ℕ
  deriving DecidableEq

structure AppConfig where
  symbol : Text
  marketPollMs : ℤ
  controlPort : ℤ
  riskMaxSingleOrderNotionalUsd : Double
  riskMaxPositionRatio : Double
  riskDailyLossStopRatio : Double
  execDryRun : Bool
  execBaseUrl : Text
  logPath : Text
  credentialsPath : Text
  healthUnhealthyAfterNoTickSec : ℤ
  runSeconds : ℤ
  strategyStartEnabled : Bool
  runtimeStatePath : Text
  maxEventsCache : ℕ
  maxOrdersCache : ℕ
  orderTrimBatch : ℕ
  gridDefault : LongGridConfig Double

def AppConfig.default [NumberFormat] : AppConfig where
  symbol := "BTCUSDT"
  marketPollMs := 1000
  controlPort := 8080
  riskMaxSingleOrderNotionalUsd := lit 10
  riskMaxPositionRatio := lit 0.80
  riskDailyLossStopRatio := lit 0.05
  execDryRun := true
  execBaseUrl := "https://testnet.binancefuture.com"
  logPath := "market_logs.jsonl"
  credentialsPath := "config/credentials.env"
  healthUnhealthyAfterNoTickSec := 15
  runSeconds := 0
  strategyStartEnabled := true
  runtimeStatePath := "config/runtime_state.json"
  maxEventsCache := 200
  maxOrdersCache := 5000
  orderTrimBatch := 1000
  gridDefault := .default

/-! ## Reading a field -/

/-- The first colon after the first occurrence of the key in quotes. -/
def colonPos (body key : Text) : Option ℕ := do
  let p ← body.find (quoted key) 0
  body.find [':'] p

def isBlank (c : Char) : Bool := c = ' ' || c = '\n'

def valuePos (body key : Text) : Option ℕ := do
  let p ← colonPos body key
  return p + 1 + Text.spanLength isBlank body (p + 1)

section Numbers

variable [NumberFormat]

/-- `json_get_number`: the longest stretch of digits, dots and minus signs. -/
def jsonGetNumber (body key : Text) : Option Double := do
  let p ← valuePos body key
  let n := Text.spanLength Strtod.isPlain body p
  if n = 0 then none else Strtod.stod (body.substr p n)

/-- The numeral that a number starts with, blanks before it left out. -/
def numeralAt (t : Text) : Text := (t.dropWhile isBlank).takeWhile Strtod.isPlain

/-- The number reader takes the numeral after the first colon from the key on. -/
theorem jsonGetNumber_of_find {body key front tail : Text} {p : ℕ}
    (hfind : body.find (quoted key) 0 = some p) (hfront : ':' ∉ front)
    (hdrop : body.drop p = front ++ ':' :: tail) :
    jsonGetNumber body key = Strtod.stod (numeralAt tail) := by
  have hle : p ≤ body.length := by
    by_contra hlt
    rw [List.drop_eq_nil_of_le (by omega)] at hdrop
    simp at hdrop
  have hcolon : colonPos body key = some (p + front.length) := by
    rw [colonPos, hfind, Option.bind_eq_bind, Option.bind_some, Text.find, if_pos hle, hdrop,
      Text.indexOf_singleton tail hfront, Option.map_some]
  have htail : body.drop (p + front.length + 1) = tail := by
    rw [Nat.add_assoc, ← List.drop_drop, hdrop, List.drop_length_add_append]
    rfl
  simp only [jsonGetNumber, valuePos, hcolon, Option.bind_eq_bind, Option.bind_some, pure,
    Text.substr_spanLength, Text.drop_spanLength, htail]
  split_ifs with hzero
  · have hnil : numeralAt tail = [] := by
      rw [← List.length_eq_zero_iff, ← hzero, Text.spanLength, Text.drop_spanLength, htail]
      rfl
    rw [hnil]
    rfl
  · rfl

theorem jsonGetNumber_isFinite {body key : Text} {x : Double}
    (h : jsonGetNumber body key = some x) : x.isFinite = true := by
  obtain ⟨p, -, h⟩ := Option.bind_eq_some_iff.mp h
  simp only [Text.substr_spanLength] at h
  split_ifs at h
  exact Strtod.stod_isFinite (fun c hc ↦ List.mem_takeWhile_imp hc) h

def truncate (q : ℚ) : ℤ := if 0 ≤ q then ⌊q⌋ else ⌈q⌉

/-- `static_cast` of a `double` to an integer type: the fraction is dropped,
and a value the type cannot hold is undefined, here `undef`. -/
def castInt (lo hi undef : ℤ) : Double → ℤ
  | .finite q =>
      let n := truncate q
      if lo ≤ n ∧ n ≤ hi then n else undef
  | _ => undef

def jsonGetInt (undef : ℤ) (body key : Text) : Option ℤ :=
  (jsonGetNumber body key).map (castInt (-2 ^ 31) (2 ^ 31 - 1) undef)

end Numbers

def jsonGetBool (body key : Text) : Option Bool := do
  let p ← valuePos body key
  if body.substr p 4 = "true".toList then some true
  else if body.substr p 5 = "false".toList then some false
  else none

def jsonGetString (body key : Text) : Option Text := do
  let p ← colonPos body key
  let p ← body.find ['"'] p
  let e ← body.find ['"'] (p + 1)
  return body.substr (p + 1) (e - (p + 1))

/-! ## Texts -/

def statusToStr : OrderStatus → Text
  | .new => "New"
  | .accepted => "Accepted"
  | .rejected => "Rejected"
  | .cancelled => "Cancelled"

def rejectToStr : RejectReason → Text
  | .none => "None"
  | .maxSingleOrderNotional => "MaxSingleOrderNotional"
  | .maxPositionRatio => "MaxPositionRatio"
  | .dailyLossStop => "DailyLossStop"
  | .priceUnavailable => "PriceUnavailable"

def levelStateCode : GridLevelState → ℕ
  | .idle => 0
  | .buyPlaced => 1
  | .buyFilled => 2
  | .sellPlaced => 3

def gridConfigMembers (cfg : LongGridConfig Double) : List Text :=
  [member "levels" (Ostream.showInt cfg.levels),
    member "order_qty" (Ostream.showGeneral cfg.orderQty),
    member "take_profit_ratio" (Ostream.showGeneral cfg.takeProfitRatio),
    member "dynamic_enabled" (Ostream.showBool cfg.dynamicEnabled),
    member "recenter_threshold_ratio" (Ostream.showGeneral cfg.recenterThresholdRatio),
    member "band_ratio" (Ostream.showGeneral cfg.bandRatio)]

def riskMembers (n p d : Text) : List Text :=
  [member "max_single_order_notional_usd" n,
    member "max_position_ratio" p,
    member "daily_loss_stop_ratio" d]

def effectiveConfigJson (cfg : AppConfig) : Text :=
  object
    [member "engine" (object
      [member "symbol" (quoted cfg.symbol),
        member "market_poll_ms" (Ostream.showInt cfg.marketPollMs),
        member "control_port" (Ostream.showInt cfg.controlPort)]),
    member "risk" (object (riskMembers
      (Ostream.showGeneral cfg.riskMaxSingleOrderNotionalUsd)
      (Ostream.showGeneral cfg.riskMaxPositionRatio)
      (Ostream.showGeneral cfg.riskDailyLossStopRatio))),
    member "execution" (object
      [member "dry_run" (Ostream.showBool cfg.execDryRun),
        member "base_url" (quoted cfg.execBaseUrl),
        member "credentials_path" (quoted cfg.credentialsPath)]),
    member "logging" (object [member "path" (quoted cfg.logPath)]),
    member "runtime" (object
      [member "health_unhealthy_after_no_tick_sec"
          (Ostream.showInt cfg.healthUnhealthyAfterNoTickSec),
        member "run_seconds" (Ostream.showInt cfg.runSeconds),
        member "strategy_start_enabled" (Ostream.showBool cfg.strategyStartEnabled),
        member "state_path" (quoted cfg.runtimeStatePath),
        member "max_events_cache" (Decimal.showNat cfg.maxEventsCache),
        member "max_orders_cache" (Decimal.showNat cfg.maxOrdersCache),
        member "order_trim_batch" (Decimal.showNat cfg.orderTrimBatch)]),
    member "strategy" (object (gridConfigMembers cfg.gridDefault))]

def gridLevelJson (lv : GridLevel Double) : Text :=
  object
    [member "id" (Decimal.showNat lv.id),
      member "buy_price" (Ostream.showGeneral lv.buyPrice),
      member "sell_price" (Ostream.showGeneral lv.sellPrice),
      member "state" (Decimal.showNat (levelStateCode lv.state))]

def runtimeToJson (view : GridRuntimeView Double) (enabled : Bool) : Text :=
  object
    [member "api_version" (quoted "v1.2"),
      member "strategy_enabled" (Ostream.showBool enabled),
      member "anchor_price" (Ostream.showGeneral view.anchorPrice),
      member "rebuild_count" (Decimal.showNat view.rebuildCount),
      member "config" (object (gridConfigMembers view.config)),
      member "levels" (array (view.levels.map gridLevelJson))]

/-! ## Files -/

/-- The lines `std::getline` reads. -/
def lines (t : Text) : List Text :=
  let parts := t.splitOn '\n'
  if parts.getLast? = some [] then parts.dropLast else parts

theorem lines_cons {line : Text} (h : '\n' ∉ line) (rest : Text) :
    lines (line ++ '\n' :: rest) = line :: lines rest := by
  obtain ⟨first, others, hsplit⟩ := List.exists_cons_of_ne_nil (List.splitOn_ne_nil '\n' rest)
  simp only [lines, List.splitOn_append_cons_self_of_not_mem h, hsplit, List.getLast?_cons_cons,
    List.dropLast_cons_cons]
  split_ifs <;> rfl

theorem lines_append {ls : List Text} (h : ∀ line ∈ ls, '\n' ∉ line) (rest : Text) :
    lines (ls.flatMap (· ++ ['\n']) ++ rest) = ls ++ lines rest := by
  induction ls with
  | nil => rfl
  | cons line ls ih =>
      have htail := ih fun l hl ↦ h l (List.mem_cons_of_mem _ hl)
      simpa [← htail] using
        lines_cons (h line List.mem_cons_self) (ls.flatMap (· ++ ['\n']) ++ rest)

/-- Lines that are each ended by a line break are read as they are. -/
theorem lines_terminated {ls : List Text} (h : ∀ line ∈ ls, '\n' ∉ line) :
    lines (ls.flatMap (· ++ ['\n'])) = ls := by
  have hread := lines_append h []
  rwa [List.append_nil, show lines [] = [] from rfl, List.append_nil] at hread

theorem notMem_of_mem_lines {t line : Text} (h : line ∈ lines t) : '\n' ∉ line := by
  simp only [lines] at h
  split_ifs at h
  · exact Text.notMem_of_mem_splitOn (List.dropLast_subset _ h)
  · exact Text.notMem_of_mem_splitOn h

def apiKeyLabel : Text := "BINANCE_TESTNET_API_KEY="

def secretKeyLabel : Text := "BINANCE_TESTNET_SECRET_KEY="

def readCredentialLine (keys : Text × Text) (line : Text) : Text × Text :=
  let (apiKey, secretKey) := keys
  (if apiKeyLabel.isPrefixOf line then line.drop 24 else apiKey,
    if secretKeyLabel.isPrefixOf line then line.drop 27 else secretKey)

/-- `read_credentials_file`; `file` is the content, if it can be opened, and
`keys` what the two output strings hold. -/
def readCredentialsFile (file : Option Text) (keys : Text × Text) : Text × Text :=
  match file with
  | none => keys
  | some t => (lines t).foldl readCredentialLine keys

/-- What `write_credentials_file` writes. -/
def credentialsText (apiKey secretKey : Text) : Text :=
  apiKeyLabel ++ apiKey ++ ['\n'] ++ secretKeyLabel ++ secretKey ++ ['\n']

/-- What `save_runtime_state` writes. -/
def runtimeStateText (strategyEnabled : Bool) (riskCfg : RiskConfig Double) : Text :=
  object
    [member "strategy_enabled" (Ostream.showBool strategyEnabled),
      member "risk" (object (riskMembers
        (Ostream.showGeneral riskCfg.maxSingleOrderNotionalUsd)
        (Ostream.showGeneral riskCfg.maxPositionRatio)
        (Ostream.showGeneral riskCfg.dailyLossStopRatio)))]

end FrogQuant.App
