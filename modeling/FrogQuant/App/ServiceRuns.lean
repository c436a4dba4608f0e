import FrogQuant.App.Effects
import FrogQuant.Core.Journal

/-!
# Runs of the service

Requests and ticks reach the core as operations of its own machine: the core
of a running service is the core after those operations.
-/

namespace FrogQuant.App

open Json

section Runs

variable [NumberFormat]

abbrev service (b : Startup) (es : List ApiEvent) : ApiState := apiMachine.run (.start b) es

namespace ApiState

/-- The operation of the core that a request on a route leads to. -/
def routeOp? (s : ApiState) (env : RequestEnv) (body : Text) :
    Option Route → Option (CoreOp Double)
  | some .postRiskConfig =>
      if riskOutOfRange (s.requestedRisk body) then none
      else some (.updateRisk (s.requestedRisk body))
  | some .postManualOrder =>
      if (s.manualRequest body).qty ≤ 0 then none
      else some (.submit env.nowMs (s.manualRequest body))
  | some .postManualCancel =>
      (jsonGetNumber body "internal_order_id").map fun x ↦ .cancel env.nowMs (cancelId env x)
  | _ => none

def coreOp? (s : ApiState) : ApiEvent → Option (CoreOp Double)
  | .tick nowMs t => some (.tick nowMs t)
  | .request env req => s.routeOp? env req.body (Route.of req.method req.target)

variable (s : ApiState)

theorem postManualOrder_core (env : RequestEnv) (body : Text) :
    (s.postManualOrder env body).1.core =
      if (s.manualRequest body).qty ≤ 0 then s.core
      else (s.core.submitManualOrder env.nowMs (s.manualRequest body)).1 := by
  simp only [postManualOrder]
  split_ifs
  · rfl
  · split <;> rfl

/-- The effect of an event on the core is that of its operation. -/
theorem apply_effect_core (e : ApiEvent) :
    (s.apply (s.effect e)).core =
      ((s.coreOp? e).map ((coreMachine Double).next s.core)).getD s.core := by
  cases e with
  | tick nowMs t => rfl
  | request env req =>
      rw [effect, coreOp?]
      rcases Route.of req.method req.target with _ | route
      · rfl
      cases route with
      | postGridEnable | postManualCancel =>
          simp only [requestEffect, routeOp?]
          split <;> simp_all [apply]
      | postCredentialsUpdate | postGridConfig | postRiskConfig | postManualOrder =>
          simp only [requestEffect, routeOp?]
          split_ifs <;> rfl
      | _ => rfl

theorem core_next (e : ApiEvent) :
    (apiMachine.next s e).core =
      ((s.coreOp? e).map ((coreMachine Double).next s.core)).getD s.core := by
  rw [← apply_effect_core]
  exact (s.next_eq e).congr core fun _ _ ↦ rfl

theorem settled_next (hc : s.core.Settled) (e : ApiEvent) :
    (apiMachine.next s e).core.Settled := by
  rw [core_next]
  cases s.coreOp? e with
  | none => exact hc
  | some op => exact s.core.settled_next hc op

end ApiState

namespace ApiState

variable (s : ApiState) (env : RequestEnv) (body : Text)

theorem postManualOrder_reply (hc : s.core.Settled) (hqty : ¬ (s.manualRequest body).qty ≤ 0) :
    ∃ ord, (s.core.submitManualOrder env.nowMs (s.manualRequest body)).1.getOrder s.core.nextId =
        some ord ∧
      (s.postManualOrder env body).2 =
        { response := some (200, okBody
            [member "internal_order_id" (Decimal.showNat s.core.nextId),
              member "status" (quoted (statusToStr ord.status)),
              member "reject_reason" (quoted (rejectToStr ord.rejectReason))])
          placed := if ord.status = .accepted
            then some (s.placeManual env (s.manualRequest body) s.core.nextId) else none } := by
  obtain ⟨ord, hord⟩ := s.core.exists_getOrder_submit env.nowMs (s.manualRequest body) hc
  refine ⟨ord, hord, ?_⟩
  have hid := s.core.submitManualOrder_id env.nowMs (s.manualRequest body)
  simp only [postManualOrder, hqty, if_false, hid, hord]
  rfl

theorem postManualOrder_response_ne_orderMissing (hc : s.core.Settled) :
    (s.postManualOrder env body).2.response ≠ some orderMissing := by
  by_cases hqty : (s.manualRequest body).qty ≤ 0
  · simp [postManualOrder, hqty, Reply.of, orderMissing]
  · obtain ⟨ord, -, hreply⟩ := s.postManualOrder_reply env body hc hqty
    simp [hreply, orderMissing]

end ApiState

theorem service_settled (b : Startup) (es : List ApiEvent) : (service b es).core.Settled :=
  apiMachine.run_invariant (fun s e hc ↦ s.settled_next hc e)
    (TradingCore.settled_init b.riskCfg) es

/-- A service with credentials that sends its orders. -/
def liveStartup : Startup where
  cfg := .default
  execCfg := ⟨"key", "secret", "https://testnet.binancefuture.com", false⟩
  startMs := 0
  strategyEnabled := false
  riskCfg := .default
  credentialsFile := none
  runtimeStateFile := none

/-- A time at which every call to the exchange succeeds. -/
def quietEnv (nowMs : ℕ) : RequestEnv where
  nowMs := nowMs
  hmac := fun _ _ ↦ []
  transfer := .done 200 []
  credentialsWritable := true
  stateWritable := true
  undefInt := 0
  undefId := 0

end Runs

/-- The core is the journal of its submissions, and the service never misses the
record of an order it has submitted. -/
theorem core_refines_journal {α : Type} [Floating α] (cfg : RiskConfig α) (ops : List (CoreOp α))
    (hn : submitCount ops < 2 ^ 64) :
    TradingCore.RefinesJournal cfg ops ∧
      ∀ (b : Startup) (es : List ApiEvent) (env : RequestEnv) (body : Text),
        ((service b es).postManualOrder env body).2.response ≠ some ApiState.orderMissing :=
  ⟨TradingCore.refinesJournal_after cfg hn, fun b es env body ↦
    ApiState.postManualOrder_response_ne_orderMissing _ env body (service_settled b es)⟩

theorem core_refines_journal_one_order :
    TradingCore.RefinesJournal (α := ℚ) .default
      [.tick 1 ⟨"BTCUSDT", 60000, 1, 1, .webSocket⟩,
        .submit 2 ⟨"BTCUSDT", .buy, .market, 1 / 10000, 0⟩, .cancel 3 1] :=
  (core_refines_journal .default _ (by decide)).1

end FrogQuant.App
