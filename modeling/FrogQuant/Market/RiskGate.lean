import FrogQuant.Core.TradingCore
import FrogQuant.Market.BinanceClients
import Mathlib.Tactic.Linarith

/-!
# Market messages and the risk gate

The texts of the market feed run through the parsers into the core, between
orders over ordinary numbers.  Every reject condition is a comparison: a NaN
price fails them all, and an infinite notional, whether the price is infinite
or the product overflows, passes limits that are infinite themselves.
-/

namespace FrogQuant

structure FiniteRequest where
  symbol : Text
  side : OrderSide
  type : OrderType
  qty : ℚ
  limitPrice : ℚ
  qty_pos : 0 < qty

def FiniteRequest.toRequest (req : FiniteRequest) : OrderRequest Double :=
  ⟨req.symbol, req.side, req.type, .finite req.qty, .finite req.limitPrice⟩

/-- What reaches the core: texts of the two market clients, and the calls of
the control API. -/
inductive FeedEvent where
  | wsMessage (nowMs : ℕ) (text : Text)
  | restBody (nowMs : ℕ) (symbol : Text) (body : Text)
  | submit (nowMs : ℕ) (req : FiniteRequest)
  | cancel (nowMs orderId : ℕ)
  | updateRisk (cfg : RiskConfig Double)

def FeedEvent.toCoreOp : FeedEvent → Option (CoreOp Double)
  | wsMessage nowMs text => (BinanceWsClient.parseTradeJson text nowMs).map (.tick nowMs)
  | restBody nowMs symbol body =>
      (BinanceRestClient.fetchLastPrice symbol (some body) nowMs).map (.tick nowMs)
  | submit nowMs req => some (.submit nowMs req.toRequest)
  | cancel nowMs orderId => some (.cancel nowMs orderId)
  | updateRisk cfg => some (.updateRisk cfg)

def feedMachine : Machine (TradingCore Double) FeedEvent (Option CoreAnswer) where
  step c e :=
    match e.toCoreOp with
    | none => (c, none)
    | some op => ((coreMachine Double).next c op, some ((coreMachine Double).out c op))

namespace TradingCore

open Binary64 (Overflows nearest)

variable (c : TradingCore Double)

/-- What the risk gate promises of one step: an order that becomes accepted has
a finite positive price and a finite notional within the limit in force, and
the position stays finite. -/
structure GateHolds (c c' : TradingCore Double) : Prop where
  accepted : ∀ id r, BecomesAccepted c c' id r →
    (∃ p, r.refPrice = .finite p ∧ 0 < p) ∧ (r.qty * r.refPrice).isFinite = true ∧
      ¬ c.risk.maxSingleOrderNotionalUsd < fabs (r.qty * r.refPrice)
  position : c'.account.positionNotionalUsd.isFinite = true

/-- No comparison of these limits stops an infinite notional. -/
def Unlimited (cfg : RiskConfig Double) : Prop :=
  ¬ cfg.maxSingleOrderNotionalUsd < .inf false ∧ ¬ lit 1000 * cfg.maxPositionRatio < .inf false

/-- The price that an order is valued at. -/
def effectivePrice (c : TradingCore Double) (req : FiniteRequest) : Double :=
  if req.type = .limit ∧ 0 < req.limitPrice then .finite req.limitPrice else c.lastPrice

/-- The limits let the order through at this price although the price or its
notional is no finite number, or the position that it makes is none. -/
def LetsThrough (c : TradingCore Double) (req : FiniteRequest) (price : Double) : Prop :=
  ¬ c.risk.dailyLossStopRatio ≤ 0 ∧
    match price with
    | .nan => True
    | .inf neg => neg = false ∧ Unlimited c.risk
    | .finite p => 0 < p ∧
        (Overflows (req.qty * p) ∧ Unlimited c.risk ∨
          ¬ Overflows (req.qty * p) ∧ req.side = .buy ∧
            ¬ c.risk.maxSingleOrderNotionalUsd < .finite (nearest (req.qty * p)) ∧
            ¬ lit 1000 * c.risk.maxPositionRatio < .inf false ∧
            ∃ pos, c.account.positionNotionalUsd = .finite pos ∧
              Overflows (pos + nearest (req.qty * p)))

/-- No order with a free id is let through at a price that breaks the promise. -/
def GateShut (c : TradingCore Double) : FeedEvent → Prop
  | .submit _ req => (c.oms.get c.nextId).isNone → ¬ LetsThrough c req (c.effectivePrice req)
  | _ => True

/-- The state the gate relies on: the account starts with 1000 and no loss, and
nothing changes that. -/
structure Sound (c : TradingCore Double) : Prop where
  settled : c.Settled
  equity : c.account.equityUsd = lit 1000
  dayLoss : c.account.dayLossUsd = 0
  position : ∃ pos, c.account.positionNotionalUsd = .finite pos ∧ 0 ≤ pos

/-! ## The decision on an order over ordinary numbers -/

variable {c : TradingCore Double}

theorem newOrder_refPrice (c : TradingCore Double) (nowMs : ℕ) (req : FiniteRequest) :
    (c.newOrder nowMs req.toRequest).refPrice = c.effectivePrice req := by
  simp only [newOrder, effectivePrice, FiniteRequest.toRequest, Double.zero_lt_finite]

@[simp] theorem newOrder_qty (nowMs : ℕ) (req : FiniteRequest) :
    (c.newOrder nowMs req.toRequest).qty = .finite req.qty := rfl

theorem Sound.verdict_eq_none_iff (h : c.Sound) (req : FiniteRequest) :
    c.verdict req.toRequest = .none ↔
      ¬ c.effectivePrice req ≤ 0 ∧
      ¬ c.risk.maxSingleOrderNotionalUsd < fabs (.finite req.qty * c.effectivePrice req) ∧
      ¬ lit 1000 * c.risk.maxPositionRatio < c.account.positionNotionalUsd +
        fabs (.finite req.qty * c.effectivePrice req) ∧
      ¬ c.risk.dailyLossStopRatio ≤ 0 := by
  have hequity : (0 : Double) < lit 1000 := by decide +kernel
  have hratio : (0 : Double) / lit 1000 = 0 := by decide +kernel
  have hloss : (if 0 < c.account.equityUsd then c.account.dayLossUsd / c.account.equityUsd
      else lit 1) = 0 := by
    rw [h.equity, h.dayLoss, if_pos hequity, hratio]
  rw [c.verdict_eq_none_iff 0, checkPreTrade_eq_none_iff, hloss, h.equity, newOrder_refPrice]
  rfl

/-- An accepted order at this price breaks the promise. -/
def Breaks (c : TradingCore Double) (req : FiniteRequest) : Double → Prop
  | .finite p => Overflows (req.qty * p) ∨ req.side = .buy ∧
      ∃ pos, c.account.positionNotionalUsd = .finite pos ∧ Overflows (pos + nearest (req.qty * p))
  | _ => True

/-- The notional at a positive price. -/
theorem notional_cases (req : FiniteRequest) {p : ℚ} (hp : 0 < p) :
    Overflows (req.qty * p) ∧ (.finite req.qty * .finite p : Double) = .inf false ∨
      ¬ Overflows (req.qty * p) ∧
        (.finite req.qty * .finite p : Double) = .finite (nearest (req.qty * p)) ∧
        0 ≤ nearest (req.qty * p) := by
  rw [Double.finite_mul]
  exact Double.ofRat_cases_of_nonneg (mul_pos req.qty_pos hp).le

/-- The sum of two numbers that are not negative. -/
theorem exposure_cases {pos n : ℚ} (hpos : 0 ≤ pos) (hn : 0 ≤ n) :
    Overflows (pos + n) ∧ (.finite pos + .finite n : Double) = .inf false ∨
      ¬ Overflows (pos + n) ∧
        (.finite pos + .finite n : Double) = .finite (nearest (pos + n)) ∧
        0 ≤ nearest (pos + n) := by
  rw [Double.finite_add]
  exact Double.ofRat_cases_of_nonneg (add_nonneg hpos hn)

theorem Sound.letsThrough_iff (h : c.Sound) (req : FiniteRequest) :
    c.LetsThrough req (c.effectivePrice req) ↔
      c.verdict req.toRequest = .none ∧ c.Breaks req (c.effectivePrice req) := by
  obtain ⟨pos, hpos, hnonneg⟩ := h.position
  rw [h.verdict_eq_none_iff, hpos]
  cases c.effectivePrice req with
  | nan => simp [LetsThrough, Breaks]
  | inf neg =>
      cases neg with
      | true => simp [LetsThrough]
      | false =>
          simp [LetsThrough, Breaks, Unlimited, Double.finite_mul_inf _ false req.qty_pos]
          tauto
  | finite p =>
      by_cases hp : 0 < p
      · rcases notional_cases req hp with ⟨hover, hn⟩ | ⟨hover, hn, hn0⟩
        · simp [LetsThrough, Breaks, Unlimited, hn, hover, hp]
          tauto
        · rcases exposure_cases hnonneg hn0 with ⟨hsum, hs⟩ | ⟨hsum, -⟩
          · simp [LetsThrough, Breaks, hn, hover, hp, hpos, hsum, hs, abs_of_nonneg hn0]
            tauto
          · simp [LetsThrough, Breaks, hn, hover, hp, hpos, hsum]
      · simp [LetsThrough, hp]

/-! ## One submission -/

/-- An order is accepted at a finite price unless that breaks the promise. -/
theorem Sound.price_of_verdict (h : c.Sound) {req : FiniteRequest}
    (hv : c.verdict req.toRequest = .none) (hsafe : ¬ c.Breaks req (c.effectivePrice req)) :
    ∃ p, c.effectivePrice req = .finite p ∧ 0 < p ∧ ¬ Overflows (req.qty * p) := by
  have hpositive := ((h.verdict_eq_none_iff req).mp hv).1
  cases hprice : c.effectivePrice req with
  | finite p =>
      rw [hprice] at hsafe hpositive
      exact ⟨p, rfl, by simpa using hpositive, fun hover ↦ hsafe (Or.inl hover)⟩
  | _ =>
      rw [hprice] at hsafe
      exact absurd trivial hsafe

/-- The notional of an accepted buy is added to the position. -/
theorem position_submit (hc : c.Settled) (nowMs : ℕ) (req : FiniteRequest) :
    ((coreMachine Double).next c (.submit nowMs req.toRequest)).account.positionNotionalUsd =
      if c.oms.get c.nextId = none ∧ c.verdict req.toRequest = .none ∧ req.side = .buy then
        c.account.positionNotionalUsd + .finite req.qty * c.effectivePrice req
      else c.account.positionNotionalUsd := by
  rw [next_submit]
  cases hfresh : c.oms.get c.nextId with
  | some r =>
      rw [c.submitManualOrder_taken nowMs _ hc hfresh]
      simp
  | none =>
      have hside : (c.newOrder nowMs req.toRequest).side = req.side := rfl
      rw [c.submitManualOrder_fresh nowMs _ hfresh]
      simp only [credit, newOrder_refPrice, newOrder_qty, hside, true_and]
      split_ifs <;> rfl

theorem Sound.gateHolds_of_safe (h : c.Sound) {nowMs : ℕ} {req : FiniteRequest}
    (hsafe : c.oms.get c.nextId = none → c.verdict req.toRequest = .none →
      ¬ c.Breaks req (c.effectivePrice req)) :
    GateHolds c ((coreMachine Double).next c (.submit nowMs req.toRequest)) where
  accepted := by
    intro id r hacc
    obtain ⟨nowMs', req', hop, rfl, hfresh, hv, rfl⟩ :=
      (c.becomesAccepted_next_iff h.settled _ _ _).mp hacc
    obtain ⟨rfl, rfl⟩ := CoreOp.submit.inj hop
    obtain ⟨p, hp, hpos, hover⟩ := h.price_of_verdict hv (hsafe hfresh hv)
    obtain ⟨-, hsingle, -⟩ := (h.verdict_eq_none_iff req).mp hv
    rw [settle_qty, settle_refPrice, newOrder_qty, newOrder_refPrice]
    refine ⟨⟨p, hp, hpos⟩, ?_, hsingle⟩
    rw [hp, Double.finite_mul]
    exact Double.isFinite_ofRat_iff.mpr hover
  position := by
    obtain ⟨pos, hpos, -⟩ := h.position
    rw [position_submit h.settled]
    split_ifs with hbuy
    · have hbreaks := hsafe hbuy.1 hbuy.2.1
      obtain ⟨p, hp, -, hover⟩ := h.price_of_verdict hbuy.2.1 hbreaks
      rw [hp] at hbreaks ⊢
      rw [hpos, Double.finite_mul, Double.ofRat_of_not_overflows hover, Double.finite_add]
      exact Double.isFinite_ofRat_iff.mpr fun hsum ↦
        hbreaks (Or.inr ⟨hbuy.2.2, pos, hpos, hsum⟩)
    · rw [hpos]
      rfl

/-- An order that is accepted at a price that breaks the promise breaks it. -/
theorem Sound.not_gateHolds_of_breaks (h : c.Sound) {nowMs : ℕ} {req : FiniteRequest}
    (hfresh : c.oms.get c.nextId = none) (hv : c.verdict req.toRequest = .none)
    (hbreaks : c.Breaks req (c.effectivePrice req)) :
    ¬ GateHolds c ((coreMachine Double).next c (.submit nowMs req.toRequest)) := by
  intro hgate
  have hacc := (c.becomesAccepted_next_iff h.settled (.submit nowMs req.toRequest) _ _).mpr
    ⟨nowMs, _, rfl, rfl, hfresh, hv, rfl⟩
  obtain ⟨⟨p, hp, -⟩, hnotional, -⟩ := hgate.accepted _ _ hacc
  rw [settle_refPrice, newOrder_refPrice] at hp
  rw [settle_qty, settle_refPrice, newOrder_qty, newOrder_refPrice, hp, Double.finite_mul,
    Double.isFinite_ofRat_iff] at hnotional
  rw [hp] at hbreaks
  rcases hbreaks with hover | ⟨hside, pos, hpos, hover⟩
  · exact hnotional hover
  · have hposition := hgate.position
    rw [position_submit h.settled, if_pos ⟨hfresh, hv, hside⟩, hp, hpos, Double.finite_mul,
      Double.ofRat_of_not_overflows hnotional, Double.finite_add,
      Double.isFinite_ofRat_iff] at hposition
    exact hposition hover

theorem Sound.gateShut_submit_iff (h : c.Sound) (nowMs : ℕ) (req : FiniteRequest) :
    c.GateShut (.submit nowMs req) ↔
      GateHolds c ((coreMachine Double).next c (.submit nowMs req.toRequest)) := by
  constructor
  · intro hshut
    apply h.gateHolds_of_safe
    intro hfresh hv hbreaks
    exact hshut (by simp [hfresh]) ((h.letsThrough_iff req).mpr ⟨hv, hbreaks⟩)
  · intro hgate hfresh hthrough
    obtain ⟨hv, hbreaks⟩ := (h.letsThrough_iff req).mp hthrough
    exact h.not_gateHolds_of_breaks (Option.isNone_iff_eq_none.mp hfresh) hv hbreaks hgate

/-- A position that stays finite stays nonnegative: only notionals at positive
prices are added. -/
theorem Sound.position_nonneg (h : c.Sound) {nowMs : ℕ} {req : FiniteRequest}
    (hgate : GateHolds c ((coreMachine Double).next c (.submit nowMs req.toRequest))) :
    ∃ pos, ((coreMachine Double).next c
      (.submit nowMs req.toRequest)).account.positionNotionalUsd = .finite pos ∧ 0 ≤ pos := by
  obtain ⟨pos, hpos, hnonneg⟩ := h.position
  have hfinite := hgate.position
  rw [position_submit h.settled] at hfinite ⊢
  split_ifs at hfinite ⊢ with hbuy
  · have hsafe : ¬ c.Breaks req (c.effectivePrice req) := fun hbreaks ↦
      h.not_gateHolds_of_breaks hbuy.1 hbuy.2.1 hbreaks hgate
    obtain ⟨p, hp, hppos, hover⟩ := h.price_of_verdict hbuy.2.1 hsafe
    have hn := Binary64.nearest_nonneg (mul_pos req.qty_pos hppos).le
    rw [hp, hpos, Double.finite_mul, Double.ofRat_of_not_overflows hover] at hfinite ⊢
    rcases exposure_cases hnonneg hn with ⟨-, hs⟩ | ⟨-, hs⟩
    · rw [hs] at hfinite
      cases hfinite
    · exact ⟨_, hs⟩
  · exact ⟨pos, hpos, hnonneg⟩

/-! ## The gate over whole runs -/

theorem Sound.gateHolds_of_not_submit (h : c.Sound) {op : CoreOp Double}
    (hop : ∀ nowMs req, op ≠ .submit nowMs req) :
    GateHolds c ((coreMachine Double).next c op) where
  accepted := by
    intro id r hacc
    obtain ⟨nowMs, req, hsubmit, -⟩ := (c.becomesAccepted_next_iff h.settled _ _ _).mp hacc
    exact absurd hsubmit (hop nowMs req)
  position := by
    obtain ⟨pos, hpos, -⟩ := h.position
    cases op with
    | submit nowMs req => exact absurd rfl (hop nowMs req)
    | _ =>
        change c.account.positionNotionalUsd.isFinite = true
        rw [hpos]
        rfl

theorem sound_init (cfg : RiskConfig Double) : (init cfg).Sound :=
  ⟨settled_init cfg, rfl, rfl, 0, rfl, le_rfl⟩

/-- What an event does: its operation, if the text holds one. -/
theorem next_feed (c : TradingCore Double) (e : FeedEvent) :
    feedMachine.next c e = (e.toCoreOp.map fun op ↦ (coreMachine Double).next c op).getD c := by
  simp only [Machine.next, feedMachine]
  cases e.toCoreOp <;> rfl

/-- A step meets the condition exactly when it keeps the promise. -/
theorem Sound.gateShut_iff (h : c.Sound) (e : FeedEvent) :
    c.GateShut e ↔ GateHolds c (feedMachine.next c e) := by
  obtain ⟨pos, hpos, -⟩ := h.position
  have hidle : GateHolds c c :=
    ⟨fun id r hacc ↦ absurd hacc.2.1 (hacc.2.2 r hacc.1), by rw [hpos]; rfl⟩
  have htick : ∀ nowMs (tick : Option (MarketTick Double)),
      GateHolds c (((tick.map (CoreOp.tick nowMs)).map fun op ↦
        (coreMachine Double).next c op).getD c) := by
    intro nowMs tick
    cases tick with
    | none => exact hidle
    | some tick => exact h.gateHolds_of_not_submit fun _ _ ↦ by simp
  rw [next_feed]
  cases e with
  | wsMessage nowMs text => exact iff_of_true trivial (htick nowMs _)
  | restBody nowMs symbol body => exact iff_of_true trivial (htick nowMs _)
  | submit nowMs req => exact h.gateShut_submit_iff nowMs req
  | cancel nowMs id =>
      exact iff_of_true trivial (h.gateHolds_of_not_submit fun _ _ ↦ by simp)
  | updateRisk cfg =>
      exact iff_of_true trivial (h.gateHolds_of_not_submit fun _ _ ↦ by simp)

theorem Sound.next (h : c.Sound) (e : FeedEvent) (hgate : GateHolds c (feedMachine.next c e)) :
    (feedMachine.next c e).Sound := by
  have hop : ∀ op : CoreOp Double,
      (∃ pos, ((coreMachine Double).next c op).account.positionNotionalUsd = .finite pos ∧
        0 ≤ pos) →
      ((coreMachine Double).next c op).Sound := by
    intro op hposition
    obtain ⟨hequity, hloss⟩ := c.equity_next h.settled op
    exact ⟨c.settled_next h.settled op, hequity.trans h.equity, hloss.trans h.dayLoss, hposition⟩
  have htick : ∀ nowMs (tick : Option (MarketTick Double)),
      (((tick.map (CoreOp.tick nowMs)).map fun op ↦
        (coreMachine Double).next c op).getD c).Sound := by
    intro nowMs tick
    cases tick with
    | none => exact h
    | some tick => exact hop _ h.position
  rw [next_feed] at hgate ⊢
  cases e with
  | wsMessage nowMs text => exact htick nowMs _
  | restBody nowMs symbol body => exact htick nowMs _
  | submit nowMs req => exact hop _ (h.position_nonneg hgate)
  | cancel nowMs id => exact hop _ h.position
  | updateRisk cfg => exact hop _ h.position

/-- The promise holds all through a run exactly when the limits let no order
through whose price or notional is no finite number or whose position is
none. -/
theorem gate_holds_iff_shut (cfg : RiskConfig Double) (es : List FeedEvent) :
    feedMachine.AllSteps (fun c e ↦ GateHolds c (feedMachine.next c e)) (init cfg) es ↔
      feedMachine.AllSteps GateShut (init cfg) es :=
  (feedMachine.allSteps_congr Sound (fun _ e h ↦ h.gateShut_iff e)
    (fun _ e h hgate ↦ h.next e hgate) es (sound_init cfg)).symm

def nanMessage : Text := "\x7b\"s\":\"BTCUSDT\",\"p\":\"nan\",\"E\":1\x7d"

def nanTrade : List FeedEvent :=
  [.wsMessage 1 nanMessage,
   .submit 2 ⟨"BTCUSDT", .buy, .market, 1000, 0, by decide +kernel⟩]

/-- The order is accepted at that price, whatever the limits. -/
theorem nanTrade_switches_gate_off :
    ¬ ∀ (cfg : RiskConfig Double) (es : List FeedEvent),
      feedMachine.AllSteps (fun c e ↦ GateHolds c (feedMachine.next c e)) (init cfg) es := by
  intro h
  have hgate := (h .default nanTrade).2.1
  obtain ⟨⟨p, hp, -⟩, -⟩ := hgate.accepted 1
    ⟨1, "BTCUSDT", .buy, .market, .finite 1000, .nan, .accepted, .none, 2⟩
    ⟨by decide +kernel, rfl, fun r₀ hr₀ ↦ by
      have hnone :
          (feedMachine.next (init .default) (.wsMessage 1 nanMessage)).oms.get 1 = none := by
        decide +kernel
      rw [hnone] at hr₀
      cases hr₀⟩
  cases hp

end TradingCore

end FrogQuant
