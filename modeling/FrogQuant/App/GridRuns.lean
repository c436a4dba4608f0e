import FrogQuant.App.EventFeed
import FrogQuant.Strategy.WithoutFills

/-!
# The grid of the running service

The service feeds its strategy with ticks while it is enabled, and with
configurations that pass the checks of their route.  It reports no fills.
-/

namespace FrogQuant.App

open LongGridStrategy GridLog

/-! ## Machines that drive a grid -/

def isIntentText (t : Text) : Bool := "strategy_intent ".toList.isPrefixOf t

theorem isIntentText_intentText (gridId : ℕ) : isIntentText (intentText gridId) = true := rfl

def intentIds (log : GridLog Double) : List ℕ := log.map fun e ↦ e.2.gridId

/-- The texts of a tick's intents are kept, and are those of its log. -/
theorem filter_tickTexts (s : LongGridStrategy Double) (price : Double) :
    ((s.onPriceTick price).2.map fun it ↦ intentText it.gridId).filter isIntentText =
      (intentIds (s.gridLog [.priceTick price])).map intentText := by
  have hkept : ∀ text ∈ (s.onPriceTick price).2.map fun it ↦ intentText it.gridId,
      isIntentText text = true := by
    intro text htext
    obtain ⟨intent, -, rfl⟩ := List.mem_map.mp htext
    exact isIntentText_intentText _
  rw [List.filter_eq_self.mpr hkept]
  simp [gridLog, stamp, intentIds, gridMachine, Machine.out]

section Driven

variable {σ ε ο : Type*} (M : Machine σ ε ο) (grid : σ → LongGridStrategy Double)
  (op? : σ → ε → Option (GridOp Double)) (texts : σ → ε → List Text)

/-- Every step makes at most one operation on the grid, and reports no fill, and
its texts tell the intents of the operation. -/
structure Driven : Prop where
  next : ∀ s e, grid (M.next s e) =
    ((op? s e).map ((gridMachine Double).next (grid s))).getD (grid s)
  texts : ∀ s e, (texts s e).filter isIntentText =
    (intentIds ((grid s).gridLog (op? s e).toList)).map intentText
  fills : ∀ s e op, op? s e = some op → op.isFill = false

variable {M grid op? texts} (h : Driven M grid op? texts)
include h

theorem Driven.run (s : σ) (es : List ε) :
    grid (M.run s es) = (gridMachine Double).run (grid s) (M.collect op? s es) := by
  induction es generalizing s with
  | nil => rfl
  | cons e es ih =>
      rw [Machine.run_cons, ih, Machine.collect, Machine.run_append, h.next s e]
      cases op? s e <;> rfl

theorem Driven.filter_yields (s : σ) (es : List ε) :
    (M.yields texts s es).filter isIntentText =
      (intentIds ((grid s).gridLog (M.collect op? s es))).map intentText := by
  induction es generalizing s with
  | nil => rfl
  | cons e es ih =>
      have hgrid : (gridMachine Double).run (grid s) (op? s e).toList = grid (M.next s e) := by
        rw [h.next s e]
        cases op? s e <;> rfl
      rw [Machine.yields, Machine.collect, List.filter_append, h.texts s e, ih, gridLog_append,
        hgrid, intentIds, intentIds, intentIds, List.map_append, List.map_append]

theorem Driven.boughtOnce (cfg : LongGridConfig Double) (s : σ) (es : List ε) :
    BoughtOnce ((init cfg).gridsBuilt (M.collect op? s es))
      ((init cfg).gridLog (M.collect op? s es))
      ((gridMachine Double).run (init cfg) (M.collect op? s es)) := by
  apply boughtOnce_run
  induction es generalizing s with
  | nil => exact fun op hop ↦ absurd hop List.not_mem_nil
  | cons e es ih =>
      intro op hop
      rcases List.mem_append.mp hop with hhere | hlater
      · exact h.fills s e op (Option.mem_toList.mp hhere)
      · exact ih _ op hlater

end Driven

/-! ## The service -/

namespace ApiState

/-- The operation of the grid that an event leads to. -/
def gridOp? (s : ApiState) (e : ApiEvent) : Option (GridOp Double) :=
  match s.effect e with
  | .tick _ t => if s.strategyEnabled then some (.priceTick t.price) else none
  | .gridConfig g => some (.updateConfig g)
  | _ => none

variable (s : ApiState) (e : ApiEvent)

theorem grid_next :
    (apiMachine.next s e).grid =
      ((s.gridOp? e).map ((gridMachine Double).next s.grid)).getD s.grid := by
  have hsame : (apiMachine.next s e).grid = (s.apply (s.effect e)).grid :=
    (s.next_eq e).congr grid fun _ _ ↦ rfl
  rw [hsame, gridOp?]
  cases s.effect e with
  | tick nowMs t =>
      simp only [apply]
      split_ifs <;> rfl
  | _ => rfl

variable {s e} in
/-- A configuration that reaches the grid is one that a request asks for, and
has passed the checks of its route. -/
theorem exists_request_of_gridConfig {g : LongGridConfig Double}
    (h : s.effect e = .gridConfig g) :
    ∃ env req, e = .request env req ∧ Route.of req.method req.target = some .postGridConfig ∧
      g = s.requestedGrid env req.body ∧ ¬ gridRefused g := by
  cases e with
  | tick nowMs t => cases h
  | request env req =>
      rw [effect] at h
      have hroute := s.route_of_effect env req.body (congrArg Effect.route? h)
      rw [hroute, requestEffect] at h
      split_ifs at h with hrefused
      obtain rfl := Effect.gridConfig.inj h
      exact ⟨env, req, rfl, hroute, rfl, hrefused⟩

theorem isFill_of_gridOp {op : GridOp Double} (h : s.gridOp? e = some op) :
    op.isFill = false := by
  rw [gridOp?] at h
  cases heffect : s.effect e with
  | tick nowMs t =>
      simp only [heffect] at h
      split_ifs at h
      obtain rfl := Option.some.inj h
      rfl
  | gridConfig g =>
      simp only [heffect] at h
      obtain rfl := Option.some.inj h
      rfl
  | _ =>
      simp only [heffect] at h
      cases h

end ApiState

/-- The operations that a run of the service makes on its grid. -/
def gridOps (b : Startup) (es : List ApiEvent) : List (GridOp Double) :=
  apiMachine.collect ApiState.gridOp? (.start b) es

/-- What the strategy of the service has asked for. -/
def intents (b : Startup) (es : List ApiEvent) : GridLog Double :=
  (init b.cfg.gridDefault).gridLog (gridOps b es)

theorem ApiState.filter_eventTexts (s : ApiState) (e : ApiEvent) :
    (s.eventTexts e).filter isIntentText =
      (intentIds (s.grid.gridLog (s.gridOp? e).toList)).map intentText := by
  rw [eventTexts, gridOp?]
  cases s.effect e with
  | tick nowMs t =>
      simp only [effectTexts]
      split_ifs
      · exact filter_tickTexts s.grid t.price
      · rfl
  | enable en written => cases en <;> rfl
  | order nowMs req =>
      simp only [effectTexts]
      split <;> rfl
  | _ => rfl

theorem driven : Driven apiMachine ApiState.grid ApiState.gridOp? ApiState.eventTexts where
  next := ApiState.grid_next
  texts := ApiState.filter_eventTexts
  fills s e _ h := s.isFill_of_gridOp e h

/-- The grids that a run of the service has built: their generations and how
many levels they have. -/
def grids (b : Startup) (es : List ApiEvent) : List (ℕ × ℕ) :=
  (init b.cfg.gridDefault).gridsBuilt (gridOps b es)

/-- The strategy of a running service asks for buys only, each for a level of
one of its grids and for each level of each grid at most once, and so for no
more than its grids have levels; the feed has one text for each of them. -/
theorem bought_once_a_grid (b : Startup) (es : List ApiEvent) :
    (service b es).grid = (gridMachine Double).run (init b.cfg.gridDefault) (gridOps b es) ∧
      (eventTrail b es).filter isIntentText = (intentIds (intents b es)).map intentText ∧
      (∀ e ∈ intents b es, e.2.side = .buy) ∧
      (∀ gen id, intentCount .buy gen id (intents b es) ≤ 1) ∧
      (grids b es).Pairwise (fun g g' ↦ g.1 < g'.1) ∧
      (∀ e ∈ intents b es, ∃ n, (e.1, n) ∈ grids b es ∧ 1 ≤ e.2.gridId ∧ e.2.gridId ≤ n) ∧
      (intents b es).length ≤ ((grids b es).map Prod.snd).sum := by
  have hgrid : (service b es).grid =
      (gridMachine Double).run (init b.cfg.gridDefault) (gridOps b es) :=
    driven.run (.start b) es
  have h := driven.boughtOnce b.cfg.gridDefault (.start b) es
  exact ⟨hgrid, driven.filter_yields (.start b) es, h.buys, h.once, h.gens, h.ids,
    (Nat.le_add_right _ _).trans h.budget⟩

end FrogQuant.App
