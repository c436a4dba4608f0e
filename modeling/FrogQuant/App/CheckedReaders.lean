import FrogQuant.App.Bootstrap
import FrogQuant.App.ControlApiRouter
import FrogQuant.Control.LocalHttpServer
import FrogQuant.Lib.Checked

/-!
# Readers that never throw

The readers of a request body and of the runtime state file, written out with
the failures of `std::string` and `std::stod`.  On every text they are the
readers without failures, so that the control API outlives every request.
-/

namespace FrogQuant.App

open Json

/-! ## The readers with their failures -/

section Readers

variable (body key : Text)

/-- What the readers of numbers and booleans begin with. -/
def valuePosChecked : Checked (Option ℕ) :=
  match body.find (quoted key) 0 with
  | none => return none
  | some p =>
      match body.find [':'] p with
      | none => return none
      | some p => return some (← Checked.scan isBlank body (p + 1))

def jsonGetNumberChecked : Checked (Option Double) := do
  match ← valuePosChecked body key with
  | none => return none
  | some p =>
      let stop ← Checked.scan Strtod.isPlain body p
      if stop = p then return none
      else Checked.caught do Checked.stod (← Checked.substr body p (stop - p))

def jsonGetIntChecked (undef : ℤ) : Checked (Option ℤ) := do
  match ← jsonGetNumberChecked body key with
  | none => return none
  | some x => return some (castInt (-2 ^ 31) (2 ^ 31 - 1) undef x)

def jsonGetBoolChecked : Checked (Option Bool) := do
  match ← valuePosChecked body key with
  | none => return none
  | some p =>
      if ← Checked.compare body p 4 "true" then return some true
      else if ← Checked.compare body p 5 "false" then return some false
      else return none

def jsonGetStringChecked : Checked (Option Text) :=
  match body.find (quoted key) 0 with
  | none => return none
  | some p =>
      match body.find [':'] p with
      | none => return none
      | some p =>
          match body.find ['"'] p with
          | none => return none
          | some p =>
              let p := p + 1
              match body.find ['"'] p with
              | none => return none
              | some e => return some (← Checked.substr body p (e - p))

/-- `find_bool` of `load_runtime_state`; `out` is what it may overwrite. -/
def findBoolChecked (out : Bool) : Checked Bool :=
  match body.find (stateToken key) 0 with
  | none => return out
  | some p => Checked.compare body (p + (stateToken key).length) 4 "true"

/-- The number that `find_num` assigns, if it assigns one. -/
def findNumChecked : Checked (Option Double) :=
  match body.find (stateToken key) 0 with
  | none => return none
  | some p =>
      let p := p + (stateToken key).length
      match body.findFirstOf [',', '\x7d'] p with
      | none => return none
      | some e => Checked.caught do Checked.stod (← Checked.substr body p (e - p))

end Readers

def loadRuntimeStateChecked (file : Option Text) (out : Bool × RiskConfig Double) :
    Checked (Bool × RiskConfig Double) :=
  match file with
  | none => return out
  | some s => do
      let enabled ← findBoolChecked s "strategy_enabled" out.1
      let notional ← findNumChecked s "max_single_order_notional_usd"
      let position ← findNumChecked s "max_position_ratio"
      let loss ← findNumChecked s "daily_loss_stop_ratio"
      return (enabled,
        { maxSingleOrderNotionalUsd := notional.getD out.2.maxSingleOrderNotionalUsd
          maxPositionRatio := position.getD out.2.maxPositionRatio
          dailyLossStopRatio := loss.getD out.2.dailyLossStopRatio })

/-! ## They do not fail -/

section Agreement

variable (body key : Text)

theorem valuePosChecked_eq : valuePosChecked body key = .ok (valuePos body key) := by
  rw [valuePosChecked, valuePos, colonPos]
  cases body.find (quoted key) 0 with
  | none => rfl
  | some p =>
      simp only [Option.bind_eq_bind, Option.bind_some]
      cases body.find [':'] p with
      | none => rfl
      | some q => simp only [Checked.scan_eq_ok, Checked.ok_bind]; rfl

/-- The value of a key begins within the text. -/
theorem valuePos_le {p : ℕ} (h : valuePos body key = some p) : p ≤ body.length := by
  obtain ⟨q, hcolon, hp⟩ := Option.bind_eq_some_iff.mp h
  obtain ⟨r, -, hfind⟩ := Option.bind_eq_some_iff.mp hcolon
  obtain rfl := Option.some.inj hp
  have hle : q + 1 ≤ body.length := (Text.le_of_find hfind).2
  have hscan := Checked.scan_le isBlank body (q + 1)
  rwa [max_eq_right hle] at hscan

theorem caught_stod_substr {p : ℕ} (h : p ≤ body.length) (n : ℕ) :
    (Checked.caught do Checked.stod (← Checked.substr body p n)) =
      .ok (Strtod.stod (body.substr p n)) := by
  rw [Checked.substr_eq_ok h]
  exact Checked.caught_stod _

theorem jsonGetNumberChecked_eq :
    jsonGetNumberChecked body key = .ok (jsonGetNumber body key) := by
  rw [jsonGetNumberChecked, jsonGetNumber, valuePosChecked_eq]
  cases hpos : valuePos body key with
  | none => rfl
  | some p =>
      have hread := caught_stod_substr body (valuePos_le body key hpos)
      simp only [Checked.ok_bind, Checked.scan_eq_ok, Option.bind_eq_bind, Option.bind_some,
        Nat.add_sub_cancel_left, Nat.add_eq_left, hread]
      split_ifs <;> rfl

theorem jsonGetIntChecked_eq (undef : ℤ) :
    jsonGetIntChecked body key undef = .ok (jsonGetInt undef body key) := by
  rw [jsonGetIntChecked, jsonGetInt, jsonGetNumberChecked_eq]
  cases jsonGetNumber body key <;> rfl

theorem jsonGetBoolChecked_eq : jsonGetBoolChecked body key = .ok (jsonGetBool body key) := by
  rw [jsonGetBoolChecked, jsonGetBool, valuePosChecked_eq]
  cases hpos : valuePos body key with
  | none => rfl
  | some p =>
      have hp := valuePos_le body key hpos
      simp only [Checked.ok_bind, Checked.compare_eq_ok hp, Option.bind_eq_bind, Option.bind_some,
        decide_eq_true_eq]
      split_ifs <;> rfl

theorem jsonGetStringChecked_eq :
    jsonGetStringChecked body key = .ok (jsonGetString body key) := by
  rw [jsonGetStringChecked, jsonGetString, colonPos]
  cases body.find (quoted key) 0 with
  | none => rfl
  | some p =>
      simp only [Option.bind_eq_bind, Option.bind_some]
      cases body.find [':'] p with
      | none => rfl
      | some p =>
          simp only [Option.bind_some]
          cases hquote : body.find ['"'] p with
          | none => rfl
          | some p =>
              have hp : p + 1 ≤ body.length := (Text.le_of_find hquote).2
              simp only [Option.bind_some]
              cases body.find ['"'] (p + 1) with
              | none => rfl
              | some e => simp only [Checked.substr_eq_ok hp, Checked.ok_bind]; rfl

theorem findBoolChecked_eq (out : Bool) :
    findBoolChecked body key out = .ok (findBool body key out) := by
  rw [findBoolChecked, findBool]
  cases hkey : body.find (stateToken key) 0 with
  | none => rfl
  | some p =>
      have hp := (Text.le_of_find hkey).2
      simp only [Checked.compare_eq_ok hp]

theorem findNumChecked_eq : findNumChecked body key = .ok (findNum body key) := by
  rw [findNumChecked, findNum]
  cases hkey : body.find (stateToken key) 0 with
  | none => rfl
  | some p =>
      have hread := caught_stod_substr body (Text.le_of_find hkey).2
      simp only [Option.bind_eq_bind, Option.bind_some]
      cases body.findFirstOf [',', '\x7d'] (p + (stateToken key).length) with
      | none => rfl
      | some e => exact hread _

end Agreement

theorem loadRuntimeStateChecked_eq (file : Option Text) (out : Bool × RiskConfig Double) :
    loadRuntimeStateChecked file out = .ok (loadRuntimeState file out) := by
  cases file with
  | none => rfl
  | some s =>
      simp only [loadRuntimeStateChecked, findBoolChecked_eq, findNumChecked_eq, Checked.ok_bind]
      rfl

/-! ## The handler -/

inductive Reader where
  | number
  | int
  | bool
  | string
  deriving DecidableEq

/-- A call of a reader; what it returns is left aside. -/
def Reader.call (undef : ℤ) (body key : Text) : Reader → Checked Unit
  | number => do let _ ← jsonGetNumberChecked body key
  | int => do let _ ← jsonGetIntChecked body key undef
  | bool => do let _ ← jsonGetBoolChecked body key
  | string => do let _ ← jsonGetStringChecked body key

/-- The fields that a route reads, in order, before it does anything else. -/
def Route.fields : Route → List (Reader × Text)
  | postCredentialsUpdate => [(.string, "api_key"), (.string, "secret_key")]
  | postGridEnable => [(.bool, "enabled")]
  | postGridConfig =>
      [(.int, "levels"), (.number, "order_qty"), (.number, "take_profit_ratio"),
        (.bool, "dynamic_enabled"), (.number, "recenter_threshold_ratio"),
        (.number, "band_ratio")]
  | postRiskConfig =>
      [(.number, "max_single_order_notional_usd"), (.number, "max_position_ratio"),
        (.number, "daily_loss_stop_ratio")]
  | postManualOrder =>
      [(.string, "symbol"), (.string, "side"), (.string, "type"), (.number, "qty"),
        (.number, "price")]
  | postManualCancel => [(.number, "internal_order_id")]
  | _ => []

/-- The handler, whose readers may fail; it reads nothing else of the body
(`answer_eq_of_agrees`). -/
def ApiState.handleChecked (s : ApiState) (env : RequestEnv) (req : Request) :
    Checked (ApiState × Reply) := do
  let fields := ((Route.of req.method req.target).map Route.fields).getD []
  fields.forM fun field ↦ field.1.call env.undefInt req.body field.2
  return s.handle env req

theorem Reader.call_eq (undef : ℤ) (body key : Text) (r : Reader) :
    r.call undef body key = .ok () := by
  cases r with
  | number => simp only [call, jsonGetNumberChecked_eq, Checked.ok_bind, Checked.pure_eq]
  | int => simp only [call, jsonGetIntChecked_eq, Checked.ok_bind, Checked.pure_eq]
  | bool => simp only [call, jsonGetBoolChecked_eq, Checked.ok_bind, Checked.pure_eq]
  | string => simp only [call, jsonGetStringChecked_eq, Checked.ok_bind, Checked.pure_eq]

theorem Reader.calls_eq (undef : ℤ) (body : Text) (fields : List (Reader × Text)) :
    (fields.forM fun field ↦ field.1.call undef body field.2) = .ok () := by
  induction fields with
  | nil => rfl
  | cons field fields ih =>
      rw [List.forM, Reader.call_eq, Checked.ok_bind, ih]

theorem ApiState.handleChecked_eq (s : ApiState) (env : RequestEnv) (req : Request) :
    s.handleChecked env req = .ok (s.handle env req) := by
  rw [handleChecked, Reader.calls_eq]
  rfl

/-- Two bodies of which a reader makes the same. -/
def Reader.Agrees (undef : ℤ) (body body' key : Text) : Reader → Prop
  | number => jsonGetNumber body key = jsonGetNumber body' key
  | int => jsonGetInt undef body key = jsonGetInt undef body' key
  | bool => jsonGetBool body key = jsonGetBool body' key
  | string => jsonGetString body key = jsonGetString body' key

/-- The handler takes nothing from a body but what these calls return. -/
theorem ApiState.answer_eq_of_agrees (s : ApiState) (env : RequestEnv) {body body' : Text}
    (route : Route)
    (h : ∀ field ∈ route.fields, field.1.Agrees env.undefInt body body' field.2) :
    s.answer env body (some route) = s.answer env body' (some route) := by
  cases route with
  | postCredentialsUpdate =>
      simp only [Route.fields, List.forall_mem_cons, Reader.Agrees] at h
      obtain ⟨hkey, hsecret, -⟩ := h
      simp only [answer, postCredentialsUpdate, hkey, hsecret]
  | postGridEnable =>
      simp only [Route.fields, List.forall_mem_cons, Reader.Agrees] at h
      simp only [answer, postGridEnable, h.1]
  | postGridConfig =>
      simp only [Route.fields, List.forall_mem_cons, Reader.Agrees] at h
      obtain ⟨hlevels, hqty, hprofit, hdynamic, hrecenter, hband, -⟩ := h
      simp only [answer, postGridConfig, hlevels, hqty, hprofit, hdynamic, hrecenter, hband]
  | postRiskConfig =>
      simp only [Route.fields, List.forall_mem_cons, Reader.Agrees] at h
      obtain ⟨hnotional, hposition, hloss, -⟩ := h
      have hnext : s.requestedRisk body = s.requestedRisk body' := by
        rw [requestedRisk, requestedRisk, hnotional, hposition, hloss]
      rw [answer, answer, postRiskConfig, postRiskConfig, hnext]
  | postManualOrder =>
      simp only [Route.fields, List.forall_mem_cons, Reader.Agrees] at h
      obtain ⟨hsymbol, hside, htype, hqty, hprice, -⟩ := h
      have hreq : s.manualRequest body = s.manualRequest body' := by
        rw [manualRequest, manualRequest, hsymbol, hside, htype, hqty, hprice]
      rw [answer, answer, postManualOrder, postManualOrder, hreq]
  | postManualCancel =>
      simp only [Route.fields, List.forall_mem_cons, Reader.Agrees] at h
      simp only [answer, postManualCancel, h.1]
  | _ => rfl

/-- The readers and the loader of the runtime state ask for no position outside
the text, and nothing that they throw leaves them or the handler. -/
theorem readers_never_throw :
    (∀ body key : Text,
      jsonGetNumberChecked body key = .ok (jsonGetNumber body key) ∧
      (∀ undef, jsonGetIntChecked body key undef = .ok (jsonGetInt undef body key)) ∧
      jsonGetBoolChecked body key = .ok (jsonGetBool body key) ∧
      jsonGetStringChecked body key = .ok (jsonGetString body key)) ∧
    (∀ (p : Char → Bool) (body : Text) (pos : ℕ), ∃ stop,
      Checked.scan p body pos = .ok stop ∧ pos ≤ stop ∧ stop ≤ max pos body.length) ∧
    (∀ (s : ApiState) (env : RequestEnv) (req : Request),
      s.handleChecked env req = .ok (s.handle env req)) ∧
    ∀ (file : Option Text) (out : Bool × RiskConfig Double),
      loadRuntimeStateChecked file out = .ok (loadRuntimeState file out) := by
  refine ⟨fun body key ↦ ⟨?_, ?_, ?_, ?_⟩, fun p body pos ↦ ?_, ?_, ?_⟩
  · exact jsonGetNumberChecked_eq body key
  · exact jsonGetIntChecked_eq body key
  · exact jsonGetBoolChecked_eq body key
  · exact jsonGetStringChecked_eq body key
  · exact ⟨_, Checked.scan_eq_ok p body pos, Nat.le_add_right _ _, Checked.scan_le p body pos⟩
  · exact ApiState.handleChecked_eq
  · exact loadRuntimeStateChecked_eq

/-! ## The server -/

/-- The handler as the server calls it. -/
def serveRequest (s : ApiState) (r : RequestEnv × Request) :
    Checked (ApiState × Option (ℕ × Text)) := do
  let (s', reply) ← s.handleChecked r.1 r.2
  return (s', reply.response)

def requestEvent (r : RequestEnv × Request) : ApiEvent := .request r.1 r.2

theorem serveRequest_handles :
    LocalHttpServer.Handles serveRequest apiMachine requestEvent
      (fun reply ↦ reply.bind Reply.response) := by
  intro s r
  rw [serveRequest, ApiState.handleChecked_eq]
  rfl

/-- Whatever the requests are, the control API is there after them, and each has
got its answer. -/
theorem server_outlives_requests (s : ApiState)
    (connections : List (Option (RequestEnv × Request))) :
    (LocalHttpServer.server serveRequest).run (some s) connections =
        some (apiMachine.run s (connections.reduceOption.map requestEvent)) ∧
      ((LocalHttpServer.server serveRequest).outputs (some s) connections).reduceOption.length =
        connections.reduceOption.length := by
  refine ⟨LocalHttpServer.run_eq_some serveRequest_handles s connections, ?_⟩
  rw [LocalHttpServer.outputs_eq serveRequest_handles, List.length_map, Machine.length_outputs,
    List.length_map]

end FrogQuant.App
