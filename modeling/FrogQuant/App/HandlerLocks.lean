import FrogQuant.App.EventFeed
import FrogQuant.Lib.LockOrder

/-!
# The locks of the handlers

The handlers share two locks: `grid_mu` for the strategy and `state_mu` for the
lists of orders and events.  `push_event` takes `state_mu`, also where its caller
holds `grid_mu`; no handler takes `grid_mu` while it holds `state_mu`.
-/

namespace FrogQuant.App

open LockOrder

inductive ServiceLock where
  | gridMu
  | stateMu
  deriving DecidableEq

namespace ServiceLock

def rank : ServiceLock → ℕ
  | gridMu => 0
  | stateMu => 1

theorem rank_lt_two (l : ServiceLock) : l.rank < 2 := by
  cases l <;> decide

end ServiceLock

/-- `push_event` for each of the texts. -/
def pushLocks (texts : List Text) : List (LockOp ServiceLock) :=
  texts.flatMap fun _ ↦ scopedLock .stateMu []

/-- What the handler of an event does to the locks, in a state that decides on
its branches and on the texts that it pushes. -/
def ApiState.locks (s : ApiState) : ApiEvent → List (LockOp ServiceLock)
  | e@(.tick _ _) =>
      if s.strategyEnabled then scopedLock .gridMu (pushLocks (s.eventTexts e)) else []
  | e@(.request _ req) =>
      match Route.of req.method req.target with
      | some .getGridRuntime => scopedLock .gridMu []
      | some .postGridConfig => scopedLock .gridMu (pushLocks (s.eventTexts e))
      -- the order goes into its list before its event does
      | some .postManualOrder =>
          (s.eventTexts e).flatMap fun text ↦ scopedLock .stateMu [] ++ pushLocks [text]
      | some .getOrders | some .getEvents => scopedLock .stateMu []
      | _ => pushLocks (s.eventTexts e)

theorem heldAfter_scoped (held : List ServiceLock) (l : ServiceLock)
    (hrank : ∀ l' ∈ held, l'.rank < l.rank) :
    heldAfter ServiceLock.rank held (scopedLock l []) = some held :=
  heldAfter_scopedLock _ hrank rfl

theorem heldAfter_pushLocks {held : List ServiceLock} (hheld : .stateMu ∉ held)
    (texts : List Text) : heldAfter ServiceLock.rank held (pushLocks texts) = some held := by
  refine heldAfter_flatMap _ (fun _ ↦ heldAfter_scoped held .stateMu fun l hl ↦ ?_) texts
  cases l with
  | gridMu => decide
  | stateMu => exact absurd hl hheld

theorem heldAfter_gridMu (texts : List Text) :
    heldAfter ServiceLock.rank [] (scopedLock .gridMu (pushLocks texts)) = some [] :=
  heldAfter_scopedLock _ (by simp) (heldAfter_pushLocks (by decide) texts)

theorem ApiState.heldAfter_locks (s : ApiState) (e : ApiEvent) :
    heldAfter ServiceLock.rank [] (s.locks e) = some [] := by
  cases e with
  | tick nowMs t =>
      rw [locks]
      split_ifs
      · exact heldAfter_gridMu _
      · rfl
  | request env req =>
      rw [locks]
      split
      · exact heldAfter_gridMu []
      · exact heldAfter_gridMu _
      · refine heldAfter_flatMap _ (fun text ↦ ?_) _
        rw [heldAfter_append, heldAfter_scoped [] .stateMu (by simp), Option.bind_some]
        exact heldAfter_pushLocks (by simp) [text]
      · exact heldAfter_scoped [] .stateMu (by simp)
      · exact heldAfter_scoped [] .stateMu (by simp)
      · exact heldAfter_pushLocks (by simp) _

/-- A call of a handler. -/
def serviceHandler (call : ApiState × ApiEvent) : Handler ServiceLock.rank where
  code := call.1.locks call.2
  ordered := call.1.heldAfter_locks call.2

/-- Whatever events the threads handle and however their steps interleave, no
lock has two owners, a thread can go on unless all handlers have returned, and
all return if each thread gets its turn. -/
theorem handlers_never_deadlock {τ : Type*} [DecidableEq τ] [Fintype τ]
    (es : List (τ × HandlerAction (ApiState × ApiEvent))) :
    let c := (handlers serviceHandler τ).machine.run (idle τ ServiceLock) es
    (∀ l t u, l ∈ (c.locals t).held → l ∈ (c.locals u).held → t = u) ∧
    ((∀ t, (c.locals t).code = []) ∨ ∃ u, CanGo serviceHandler c u) ∧
    ∀ turns, (goMachine serviceHandler τ).Fair (parties serviceHandler) c turns →
      ∃ n, ∀ t, (((goMachine serviceHandler τ).states c turns n).locals t).code = [] := by
  intro c
  have hc : Orderly ServiceLock.rank c := orderly_run es
  refine ⟨fun l t u ht hu ↦ ?_, hc.finished_or_canGo ServiceLock.rank_lt_two, fun turns hfair ↦ ?_⟩
  · exact Option.some.inj (((hc.owner l t).mpr ht).symm.trans ((hc.owner l u).mpr hu))
  · exact hc.exists_finished ServiceLock.rank_lt_two hfair

/-- A market thread handles a tick that asks for a buy, the server `GET /events`,
and the market thread has taken `grid_mu`. -/
def tickAndRequest : List (Bool × HandlerAction (ApiState × ApiEvent)) :=
  let enabled := service shortFeed (tradingMorning.take 1)
  [(false, .start (enabled, .tick 2 ⟨"BTCUSDT", lit 60000, 1, 1, .webSocket⟩)),
    (true, .start (enabled, .request (quietEnv 3) ⟨"GET", "/events", []⟩)), (false, .go)]

theorem handlers_never_deadlock_twoThreads :
    let c := (handlers serviceHandler Bool).machine.run (idle Bool ServiceLock) tickAndRequest
    (c.locals false).held = [.gridMu] ∧ ((c.locals false).code.length = 3) ∧
      ((c.locals true).code.length = 2) ∧
      ∃ n, ∀ t, (((goMachine serviceHandler Bool).states c (fun n ↦ decide (n % 2 = 1)) n).locals
        t).code = [] :=
  ⟨by decide +kernel, by decide +kernel, by decide +kernel,
    (handlers_never_deadlock tickAndRequest).2.2 _ (fair_turns _)⟩

end FrogQuant.App
