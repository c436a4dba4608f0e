import FrogQuant.App.Effects
import FrogQuant.App.ServiceRuns

/-!
# Refused requests

A request that only reads, or whose answer is not a success, changes nothing
but the list of events.
-/

namespace FrogQuant.App

def Route.reads : Route → Bool
  | .getHealth | .getGridRuntime | .getConfigEffective | .getCredentialsStatus => true
  | .getRiskConfig | .getOrders | .getEvents => true
  | _ => false

theorem Route.reads_of_get {target : Text} {route : Route}
    (h : Route.of "GET" target = some route) : route.reads = true := by
  have hget : "GET".toList ≠ "POST".toList := by decide
  simp only [Route.of, true_and, hget, false_and, if_false] at h
  split_ifs at h <;> obtain rfl := Option.some.inj h <;> rfl

namespace ApiState

variable (s : ApiState) (env : RequestEnv) (body : Text)

theorem answer_of_reads {route : Route} (h : route.reads = true) :
    (s.answer env body (some route)).1 = s := by
  cases route with
  | postCredentialsUpdate | postGridEnable | postGridConfig | postRiskConfig | postManualOrder
  | postManualCancel => cases h
  | _ => rfl

theorem postManualOrder_refused (hc : s.core.Settled)
    (h : ¬ (s.postManualOrder env body).2.Success) : (s.postManualOrder env body).1 = s := by
  by_cases hqty : (s.manualRequest body).qty ≤ 0
  · simp [postManualOrder, hqty]
  · obtain ⟨ord, -, hreply⟩ := s.postManualOrder_reply env body hc hqty
    rw [hreply] at h
    exact absurd (Reply.success_of_status rfl) h

theorem postManualCancel_refused (h : ¬ (s.postManualCancel env body).2.Success) :
    s.SameButEvents (s.postManualCancel env body).1 := by
  rw [postManualCancel] at h ⊢
  cases hid : jsonGetNumber body "internal_order_id" with
  | none => rfl
  | some x =>
      simp only [hid] at h ⊢
      by_cases hok : (s.core.cancelOrder env.nowMs (cancelId env x)).2.1 = true
      · rw [if_pos hok] at h
        exact absurd (Reply.success_of_status rfl) h
      · have hsame : (s.core.oms.cancel (cancelId env x)).1 = s.core.oms :=
          Oms.cancel_of_snd_eq_false (Bool.eq_false_iff.mpr hok)
        simp only [TradingCore.cancelOrder, hsame]
        rfl

theorem answer_refused (hc : s.core.Settled) (route : Option Route)
    (h : ¬ (s.answer env body route).2.Success) :
    s.SameButEvents (s.answer env body route).1 := by
  have hsuccess : ∀ t, (Reply.of 200 t).Success := fun t ↦ Reply.success_of_status rfl
  rcases route with _ | route
  · rfl
  cases route with
  | postCredentialsUpdate =>
      simp only [answer, postCredentialsUpdate] at h ⊢
      split_ifs at h ⊢
      · rfl
      · exact absurd (hsuccess _) h
      · rfl
  | postGridEnable =>
      simp only [answer, postGridEnable] at h ⊢
      cases hen : jsonGetBool body "enabled" with
      | none => rfl
      | some en =>
          simp only [hen] at h
          exact absurd (hsuccess _) h
  | postGridConfig =>
      simp only [answer, postGridConfig] at h ⊢
      split_ifs at h ⊢
      · rfl
      · rfl
      · exact absurd (hsuccess _) h
  | postRiskConfig =>
      simp only [answer, postRiskConfig] at h ⊢
      split_ifs at h ⊢
      · rfl
      · exact absurd (hsuccess _) h
  | postManualOrder =>
      have hsame := s.postManualOrder_refused env body hc h
      simp only [answer, hsame]
      rfl
  | postManualCancel => exact s.postManualCancel_refused env body h
  | _ => rfl

end ApiState

/-- A request that is refused, or that only reads, changes nothing but the
events. -/
theorem refused_request_changes_nothing (b : Startup) (es : List ApiEvent) (env : RequestEnv)
    (req : Request)
    (h : ¬ ((service b es).handle env req).2.Success ∨ req.method = "GET".toList) :
    (service b es).SameButEvents ((service b es).handle env req).1 := by
  rw [ApiState.handle] at h ⊢
  rcases h with h | hget
  · exact (service b es).answer_refused env req.body (service_settled b es) _ h
  · rw [hget]
    cases hroute : Route.of "GET" req.target with
    | none => rfl
    | some route =>
        have hsame := (service b es).answer_of_reads env req.body (Route.reads_of_get hroute)
        rw [hsame]
        rfl

theorem refused_request_changes_nothing_unknownOrder :
    (service liveStartup []).SameButEvents
      ((service liveStartup []).handle (quietEnv 1)
        ⟨"POST", "/trade/manual/cancel", "\x7b\"internal_order_id\":7\x7d"⟩).1 :=
  refused_request_changes_nothing liveStartup [] (quietEnv 1) _ (Or.inl (by decide +kernel))

end FrogQuant.App
