import FrogQuant.App.GridLock
import FrogQuant.App.GridRuns
import FrogQuant.Lib.Reported

/-!
# The intents of parallel handlers

The tick handlers push their intents to the list of events while they hold
`grid_mu`, each under `state_mu`, and the server pushes its own events in
between.  A call of a tick handler is here one that has found the strategy
enabled; the code under `grid_mu` up to the first push is one step.
-/

namespace FrogQuant.App

open LongGridStrategy GridLog Reported

/-! ## What is pushed -/

/-- The calls of the grid with the texts that they push before they release the
lock. -/
def gridReports : Machine (LongGridStrategy Double) GridCall (List Text) where
  step s call :=
    (gridCalls.next s call,
      match call with
      | .tick price => (s.onPriceTick price).2.map fun it ↦ intentText it.gridId
      | .view => []
      | .config undefInt body =>
          match configRefusal (requestedConfig undefInt body s.cfg) with
          | some _ => []
          | none => ["grid_config_updated"])

/-- What the server pushes without `grid_mu`. -/
inductive Notice where
  | credentials
  | enable (en : Bool)
  | risk
  | order (id : ℕ)
  | cancel (id : ℕ)

def Notice.text : Notice → Text
  | .credentials => "credentials_updated(restart_required)"
  | .enable en => enableText en
  | .risk => "risk_config_updated"
  | .order id => "manual_order id=".toList ++ Decimal.showNat id
  | .cancel id => "manual_cancel id=".toList ++ Decimal.showNat id

theorem Notice.isIntentText_text (n : Notice) : isIntentText n.text = false := by
  cases n with
  | enable en => cases en <;> rfl
  | _ => rfl

theorem configRefusal_eq_none_iff (g : LongGridConfig Double) :
    configRefusal g = none ↔ ¬ ApiState.gridRefused g := by
  rw [configRefusal, ApiState.gridRefused, not_or]
  split_ifs with hlevels hqty
  · exact ⟨fun h ↦ (by cases h), fun h ↦ absurd hlevels h.1⟩
  · exact ⟨fun h ↦ (by cases h), fun h ↦ absurd hqty h.2⟩
  · exact ⟨fun _ ↦ ⟨hlevels, hqty⟩, fun _ ↦ rfl⟩

/-- What an event pushes is pushed by a call of the grid, or notices. -/
theorem ApiState.eventTexts_cases (s : ApiState) (e : ApiEvent) :
    (∃ call, s.eventTexts e = gridReports.out s.grid call) ∨
      ∃ notices : List Notice, s.eventTexts e = notices.map Notice.text := by
  rw [eventTexts]
  cases heffect : s.effect e with
  | nothing => exact Or.inr ⟨[], rfl⟩
  | credentials text => exact Or.inr ⟨[.credentials], rfl⟩
  | enable en written => exact Or.inr ⟨[.enable en], rfl⟩
  | risk next written => exact Or.inr ⟨[.risk], rfl⟩
  | cancel nowMs id => exact Or.inr ⟨[.cancel id], rfl⟩
  | order nowMs req =>
      simp only [effectTexts]
      split
      · exact Or.inr ⟨[], rfl⟩
      · exact Or.inr ⟨[.order _], rfl⟩
  | tick nowMs t =>
      simp only [effectTexts]
      split_ifs
      · exact Or.inl ⟨.tick t.price, rfl⟩
      · exact Or.inr ⟨[], rfl⟩
  | gridConfig g =>
      obtain ⟨env, req, -, -, rfl, hchecked⟩ := exists_request_of_gridConfig heffect
      refine Or.inl ⟨.config env.undefInt req.body, ?_⟩
      have hnone : configRefusal (requestedConfig env.undefInt req.body s.grid.cfg) = none :=
        (configRefusal_eq_none_iff _).mpr hchecked
      simp only [effectTexts, Machine.out, gridReports, hnone]

/-! ## What the calls do to the grid -/

def gridCallOp? (s : LongGridStrategy Double) : GridCall → Option (GridOp Double)
  | .tick price => some (.priceTick price)
  | .view => none
  | .config undefInt body =>
      match configRefusal (requestedConfig undefInt body s.cfg) with
      | some _ => none
      | none => some (.updateConfig (requestedConfig undefInt body s.cfg))

theorem gridReports_driven : Driven gridReports id gridCallOp? gridReports.out where
  next s call := by
    cases call with
    | tick price => rfl
    | view => rfl
    | config undefInt body =>
        simp only [Machine.next, gridReports, gridCalls, gridCallOp?, id]
        cases configRefusal (requestedConfig undefInt body s.cfg) <;> rfl
  texts s call := by
    cases call with
    | tick price => exact filter_tickTexts s price
    | view => rfl
    | config undefInt body =>
        simp only [Machine.out, gridReports, gridCallOp?, id]
        cases configRefusal (requestedConfig undefInt body s.cfg) <;> rfl
  fills s call op h := by
    cases call with
    | tick price =>
        obtain rfl := Option.some.inj h
        rfl
    | view => cases h
    | config undefInt body =>
        cases hrefused : configRefusal (requestedConfig undefInt body s.cfg) with
        | some reply =>
            simp only [gridCallOp?, hrefused] at h
            cases h
        | none =>
            simp only [gridCallOp?, hrefused] at h
            obtain rfl := Option.some.inj h
            rfl

/-! ## All interleavings -/

/-- `main` has built the strategy, and nothing has been pushed. -/
def deskStart (τ : Type) (b : Startup) : State τ (LongGridStrategy Double) GridCall Text :=
  begin τ GridCall Text (init b.cfg.gridDefault)

/-- However the calls of the grid and the notices of any number of threads
interleave, the grid is that of the calls one after the other, the list keeps
the last of all texts, and the intents of those calls are pushed once each and in
their order, up to those that the owner of the lock is still to push; a buy is
asked for once for each level of each grid. -/
theorem intents_reported_in_order {τ : Type} [DecidableEq τ] (b : Startup)
    (es : List (τ × DeskAction GridCall Notice)) :
    let cap := max 1 b.cfg.maxEventsCache
    let calls := worked gridReports Notice.text cap (deskStart τ b) es
    let texts := pushed gridReports Notice.text cap (deskStart τ b) es
    let desk := (program gridReports Notice.text cap τ).machine.run (deskStart τ b) es
    let log := (init b.cfg.gridDefault).gridLog
      (gridReports.collect gridCallOp? (init b.cfg.gridDefault) calls)
    desk.shared.memory = gridCalls.run (init b.cfg.gridDefault) calls ∧
      desk.shared.kept = Recent.recent cap 1 texts ∧
      texts.filter isIntentText ++ (pending desk).filter isIntentText =
        (intentIds log).map intentText ∧
      (desk.shared.owner = none → pending desk = []) ∧
      (∀ e ∈ log, e.2.side = .buy) ∧
      ∀ gen id, intentCount .buy gen id log ≤ 1 := by
  intro cap calls texts desk log
  have htold : Told gridReports cap isIntentText (init b.cfg.gridDefault) calls texts desk :=
    told_run Notice.isIntentText_text _ es
  have h := gridReports_driven.boughtOnce b.cfg.gridDefault (init b.cfg.gridDefault) calls
  refine ⟨htold.memory, htold.kept, ?_, fun hfree ↦ ?_, h.buys, h.once⟩
  · rw [htold.told]
    exact gridReports_driven.filter_yields (init b.cfg.gridDefault) calls
  · rw [pending, hfree]

end FrogQuant.App
