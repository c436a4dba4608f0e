import FrogQuant.Lib.FlatJson
import FrogQuant.Lib.Machine
import Mathlib.Data.List.ReduceOption

/-!
# The HTTP server

The loop of `control/local_http_server.cpp`.  It takes one connection after
another and hands the requests to a handler; an exception of the handler ends
it, and nothing is answered from then on.
-/

namespace FrogQuant

namespace LocalHttpServer

open Json

variable {σ ρ φ : Type*}

/-- What is sent back; `none` is a handler that did not handle the request. -/
def respond (handled : Option (ℕ × Text)) : ℕ × Text :=
  handled.getD (404, object [member "ok" "false", member "code" (quoted "E_NOT_FOUND"),
    member "error" (quoted "route not found")])

/-- The loop over `handler`, with the state of the handler and `none` once it has
ended; a connection is `none` when no request could be read from it. -/
def server (handler : σ → ρ → Except φ (σ × Option (ℕ × Text))) :
    Machine (Option σ) (Option ρ) (Option (ℕ × Text)) where
  step s connection :=
    match s, connection with
    | none, _ => (none, none)
    | some s, none => (some s, none)
    | some s, some req =>
        match handler s req with
        | .ok (s', handled) => (some s', some (respond handled))
        | .error _ => (none, none)

/-! ## A loop that ended -/

theorem run_none (handler : σ → ρ → Except φ (σ × Option (ℕ × Text)))
    (connections : List (Option ρ)) : (server handler).run none connections = none := by
  induction connections with
  | nil => rfl
  | cons _ _ ih => exact ih

theorem run_of_error {handler : σ → ρ → Except φ (σ × Option (ℕ × Text))} {s : σ} {req : ρ}
    {e : φ} (h : handler s req = .error e) (connections : List (Option ρ)) :
    (server handler).run (some s) (some req :: connections) = none := by
  have hstep : (server handler).next (some s) (some req) = none := by
    simp only [Machine.next, server, h]
  rw [Machine.run_cons, hstep, run_none]

/-! ## A handler that does not throw -/

section NoThrow

variable {ε ο : Type*} {handler : σ → ρ → Except φ (σ × Option (ℕ × Text))}
  {M : Machine σ ε ο} {event : ρ → ε} {handled : ο → Option (ℕ × Text)}

/-- The handler is a step of `M` on every request. -/
def Handles (handler : σ → ρ → Except φ (σ × Option (ℕ × Text))) (M : Machine σ ε ο)
    (event : ρ → ε) (handled : ο → Option (ℕ × Text)) : Prop :=
  ∀ s req, handler s req = .ok (M.next s (event req), handled (M.out s (event req)))

theorem step_request (h : Handles handler M event handled) (s : σ) (req : ρ) :
    (server handler).step (some s) (some req) =
      (some (M.next s (event req)), some (respond (handled (M.out s (event req))))) := by
  simp only [server, h s req]

/-- The loop stays alive, in the state that the requests lead to. -/
theorem run_eq_some (h : Handles handler M event handled) (s : σ)
    (connections : List (Option ρ)) :
    (server handler).run (some s) connections =
      some (M.run s (connections.reduceOption.map event)) := by
  induction connections generalizing s with
  | nil => rfl
  | cons connection connections ih =>
      cases connection with
      | none => exact ih s
      | some req =>
          rw [Machine.run_cons, Machine.next, step_request h, ih]
          rfl

/-- Every request is answered, once and in order. -/
theorem outputs_eq (h : Handles handler M event handled) (s : σ)
    (connections : List (Option ρ)) :
    ((server handler).outputs (some s) connections).reduceOption =
      (M.outputs s (connections.reduceOption.map event)).map fun o ↦ respond (handled o) := by
  induction connections generalizing s with
  | nil => rfl
  | cons connection connections ih =>
      cases connection with
      | none => exact ih s
      | some req =>
          rw [Machine.outputs_cons, Machine.next, Machine.out, step_request h,
            List.reduceOption_cons_of_some, ih]
          rfl

end NoThrow

end LocalHttpServer

end FrogQuant
