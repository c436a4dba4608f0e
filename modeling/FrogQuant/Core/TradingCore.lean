import FrogQuant.Core.Oms
import FrogQuant.Core.RiskEngine
import FrogQuant.Lib.Machine

/-!
# The trading core

`core/trading_core.cpp`: prices come in as ticks, manual orders pass the risk
check and are kept in the OMS.  The core is a machine whose events are its
four public operations.
-/

namespace FrogQuant

variable {α : Type}

structure TradingCore (α : Type) where
  oms : Oms α
  risk : RiskConfig α
  seq : ℕ
  lastPrice : α
  account : AccountSnapshot α

def rrToStr : RejectReason → Text
  | .none => "None"
  | .maxSingleOrderNotional => "MaxSingleOrderNotional"
  | .maxPositionRatio => "MaxPositionRatio"
  | .dailyLossStop => "DailyLossStop"
  | .priceUnavailable => "PriceUnavailable"

namespace TradingCore

/-! ## Decided records -/

@[simps] def settle (order : OrderRecord α) (rr : RejectReason) : OrderRecord α :=
  { order with
    status := if rr = .none then .accepted else .rejected
    rejectReason := rr }

theorem settle_status_ne_new (order : OrderRecord α) (rr : RejectReason) :
    (settle order rr).status ≠ .new := by
  rw [settle_status]
  split_ifs <;> simp

theorem settle_status_eq_accepted_iff (order : OrderRecord α) (rr : RejectReason) :
    (settle order rr).status = .accepted ↔ rr = .none := by
  rw [settle_status]
  split_ifs with h <;> simp [h]

/-- No record waits for its decision. -/
def Settled (c : TradingCore α) : Prop := ∀ id r, c.oms.get id = some r → r.status ≠ .new

theorem settled_cancel (c : TradingCore α) (id : ℕ) (hc : c.Settled) :
    ({ c with oms := (c.oms.cancel id).1 } : TradingCore α).Settled := by
  intro id' r hr
  simp only [Oms.get_cancel] at hr
  split_ifs at hr
  · obtain ⟨r₀, hr₀, rfl⟩ := Option.map_eq_some_iff.mp hr
    split_ifs
    · simp
    · exact hc id r₀ hr₀
  · exact hc id' r hr

/-! ## The operations -/

variable [Floating α]

def init (cfg : RiskConfig α) : TradingCore α where
  oms := ∅
  risk := cfg
  seq := 0
  lastPrice := 0
  account := .default

/-- `++seq_` on a `uint64_t`. -/
def nextId (c : TradingCore α) : ℕ := (c.seq + 1) % 2 ^ 64

def onTick (c : TradingCore α) (nowMs : ℕ) (tick : MarketTick α) :
    TradingCore α × LogEvent α :=
  ({ c with lastPrice := tick.price },
    makeLog nowMs .debug "core" "tick" "last price updated" tick.price
      (lit (if tick.source = .webSocket then 1 else 2)))

def newOrder (c : TradingCore α) (nowMs : ℕ) (req : OrderRequest α) : OrderRecord α where
  orderId := c.nextId
  symbol := req.symbol
  side := req.side
  type := req.type
  qty := req.qty
  refPrice := if req.type = .limit ∧ 0 < req.limitPrice then req.limitPrice else c.lastPrice
  status := .new
  rejectReason := .none
  createTsMs := nowMs

/-- `submit_manual_order`: the new state, the id returned and the event
logged. -/
def submitManualOrder (c : TradingCore α) (nowMs : ℕ) (req : OrderRequest α) :
    TradingCore α × ℕ × LogEvent α :=
  let id := c.nextId
  let order := c.newOrder nowMs req
  let c := { c with seq := id }
  if order.refPrice ≤ 0 then
    let oms := (c.oms.submit order).1
    let oms := (oms.reject id .priceUnavailable).1
    ({ c with oms := oms }, id,
      makeLog nowMs .warn "core" "order_reject" "price unavailable" (lit id) 0)
  else
    match c.oms.submit order with
    | (_, false) =>
        (c, id, makeLog nowMs .error "core" "order_submit" "duplicate order id" (lit id) 0)
    | (oms, true) =>
        match checkPreTrade c.risk order c.account with
        | .none =>
            let oms := (oms.accept id).1
            let notional := order.qty * order.refPrice
            let account :=
              if order.side = .buy then
                { c.account with
                  positionNotionalUsd := c.account.positionNotionalUsd + notional }
              else c.account
            ({ c with oms := oms, account := account }, id,
              makeLog nowMs .info "core" "order_accept" "order accepted" (lit id) notional)
        | rr =>
            let oms := (oms.reject id rr).1
            ({ c with oms := oms }, id,
              makeLog nowMs .warn "core" "order_reject" (rrToStr rr) (lit id)
                (order.qty * order.refPrice))

def cancelOrder (c : TradingCore α) (nowMs orderId : ℕ) :
    TradingCore α × Bool × LogEvent α :=
  let (oms, ok) := c.oms.cancel orderId
  ({ c with oms := oms }, ok,
    makeLog nowMs (if ok then .info else .warn) "core" "order_cancel"
      (if ok then "cancelled" else "cancel_failed") (lit orderId) 0)

def getOrder (c : TradingCore α) (orderId : ℕ) : Option (OrderRecord α) := c.oms.get orderId

def updateRiskConfig (c : TradingCore α) (cfg : RiskConfig α) : TradingCore α :=
  { c with risk := cfg }

/-! ## What a submission does -/

/-- The decision on a request: the price guard first, then the risk check. -/
def verdict (c : TradingCore α) (req : OrderRequest α) : RejectReason :=
  if (c.newOrder 0 req).refPrice ≤ 0 then .priceUnavailable
  else checkPreTrade c.risk (c.newOrder 0 req) c.account

def credit (account : AccountSnapshot α) (order : OrderRecord α) (rr : RejectReason) :
    AccountSnapshot α :=
  if rr = .none ∧ order.side = .buy then
    { account with positionNotionalUsd := account.positionNotionalUsd + order.qty * order.refPrice }
  else account

variable (c : TradingCore α) (nowMs : ℕ) (req : OrderRequest α)

@[simp] theorem submitManualOrder_id : (c.submitManualOrder nowMs req).2.1 = c.nextId := by
  simp only [submitManualOrder]
  split
  · rfl
  · split
    · rfl
    · split <;> rfl

theorem submitManualOrder_frame :
    (c.submitManualOrder nowMs req).1.risk = c.risk ∧
      (c.submitManualOrder nowMs req).1.lastPrice = c.lastPrice ∧
      (c.submitManualOrder nowMs req).1.seq = c.nextId := by
  simp only [submitManualOrder]
  split
  · exact ⟨rfl, rfl, rfl⟩
  · split
    · exact ⟨rfl, rfl, rfl⟩
    · split <;> exact ⟨rfl, rfl, rfl⟩

theorem verdict_of_price (h : (c.newOrder nowMs req).refPrice ≤ 0) :
    c.verdict req = .priceUnavailable := if_pos h

theorem verdict_of_no_price (h : ¬ (c.newOrder nowMs req).refPrice ≤ 0) :
    c.verdict req = checkPreTrade c.risk (c.newOrder nowMs req) c.account :=
  (if_neg h).trans (checkPreTrade_congr c.risk c.account rfl rfl)

/-- A fresh id: the record is entered as its decision leaves it, and the
account is credited. -/
theorem submitManualOrder_fresh (h : c.oms.get c.nextId = none) :
    (c.submitManualOrder nowMs req).1 =
      { c with
        seq := c.nextId
        oms := c.oms.insert c.nextId (settle (c.newOrder nowMs req) (c.verdict req))
        account := credit c.account (c.newOrder nowMs req) (c.verdict req) } := by
  have hsubmit := Oms.submit_fresh (c.newOrder nowMs req) h
  have hid : (c.newOrder nowMs req).orderId = c.nextId := rfl
  have hreason : (c.newOrder nowMs req).rejectReason = .none := rfl
  have hreject := fun rr ↦ Oms.reject_insert c.oms c.nextId (c.newOrder nowMs req) rr rfl
  by_cases hprice : (c.newOrder nowMs req).refPrice ≤ 0
  · rw [c.verdict_of_price nowMs req hprice]
    simp [submitManualOrder, hprice, hsubmit, hid, hreject, settle, credit]
  · rw [c.verdict_of_no_price nowMs req hprice]
    have haccept := Oms.accept_insert c.oms c.nextId (c.newOrder nowMs req) rfl
    simp only [submitManualOrder, hprice, if_false, hsubmit, hid]
    cases hrr : checkPreTrade c.risk (c.newOrder nowMs req) c.account <;>
      simp [haccept, hreject, settle, credit, hreason]

/-- An id that is taken (after `2 ^ 64` submissions): only the counter
moves. -/
theorem submitManualOrder_taken (hc : c.Settled) {r : OrderRecord α}
    (h : c.oms.get c.nextId = some r) :
    (c.submitManualOrder nowMs req).1 = { c with seq := c.nextId } := by
  have hsubmit := Oms.submit_taken (c.newOrder nowMs req) h
  have hreject := Oms.reject_of_not_new c.nextId .priceUnavailable
    (hc c.nextId)
  simp only [submitManualOrder, hsubmit, hreject]
  split_ifs <;> rfl

theorem verdict_eq_none_iff :
    c.verdict req = .none ↔
      ¬ (c.newOrder nowMs req).refPrice ≤ 0 ∧
        checkPreTrade c.risk (c.newOrder nowMs req) c.account = .none := by
  by_cases hprice : (c.newOrder nowMs req).refPrice ≤ 0
  · simp [c.verdict_of_price nowMs req hprice, hprice]
  · simp [c.verdict_of_no_price nowMs req hprice, hprice]

/-! ## The core as a machine -/

end TradingCore

/-- The public operations of the core; `nowMs` is the clock they read. -/
inductive CoreOp (α : Type) where
  | tick (nowMs : ℕ) (tick : MarketTick α)
  | submit (nowMs : ℕ) (req : OrderRequest α)
  | cancel (nowMs orderId : ℕ)
  | updateRisk (cfg : RiskConfig α)

inductive CoreAnswer where
  | done
  | orderId (id : ℕ)
  | cancelled (ok : Bool)
  deriving DecidableEq

variable [Floating α]

def coreMachine (α : Type) [Floating α] : Machine (TradingCore α) (CoreOp α) CoreAnswer where
  step c op :=
    match op with
    | .tick nowMs tick => ((c.onTick nowMs tick).1, .done)
    | .submit nowMs req =>
        let (c', id, _) := c.submitManualOrder nowMs req
        (c', .orderId id)
    | .cancel nowMs id =>
        let (c', ok, _) := c.cancelOrder nowMs id
        (c', .cancelled ok)
    | .updateRisk cfg => (c.updateRiskConfig cfg, .done)

namespace TradingCore

variable (c : TradingCore α)

abbrev after (cfg : RiskConfig α) (ops : List (CoreOp α)) : TradingCore α :=
  (coreMachine α).run (init cfg) ops

theorem after_concat (cfg : RiskConfig α) (ops : List (CoreOp α)) (op : CoreOp α) :
    after cfg (ops ++ [op]) = (coreMachine α).next (after cfg ops) op :=
  (coreMachine α).run_concat _ _ _

@[simp] theorem next_tick (nowMs : ℕ) (tick : MarketTick α) :
    (coreMachine α).next c (.tick nowMs tick) = { c with lastPrice := tick.price } := rfl

@[simp] theorem next_submit (nowMs : ℕ) (req : OrderRequest α) :
    (coreMachine α).next c (.submit nowMs req) = (c.submitManualOrder nowMs req).1 := rfl

@[simp] theorem next_cancel (nowMs id : ℕ) :
    (coreMachine α).next c (.cancel nowMs id) = { c with oms := (c.oms.cancel id).1 } := rfl

@[simp] theorem next_updateRisk (cfg : RiskConfig α) :
    (coreMachine α).next c (.updateRisk cfg) = { c with risk := cfg } := rfl

@[simp] theorem out_submit (nowMs : ℕ) (req : OrderRequest α) :
    (coreMachine α).out c (.submit nowMs req) = .orderId c.nextId :=
  congrArg CoreAnswer.orderId (c.submitManualOrder_id nowMs req)

@[simp] theorem out_cancel (nowMs id : ℕ) :
    (coreMachine α).out c (.cancel nowMs id) = .cancelled (c.oms.cancel id).2 := rfl

theorem settled_init (cfg : RiskConfig α) : (init cfg).Settled := by
  intro id r h
  simp [init] at h

theorem settled_submit (nowMs : ℕ) (req : OrderRequest α) (hc : c.Settled) :
    (c.submitManualOrder nowMs req).1.Settled := by
  cases h : c.oms.get c.nextId with
  | some r =>
      rw [c.submitManualOrder_taken nowMs req hc h]
      exact hc
  | none =>
      rw [c.submitManualOrder_fresh nowMs req h]
      intro id r hr
      simp only [Oms.get_insert] at hr
      split_ifs at hr
      · obtain rfl := Option.some.inj hr
        exact settle_status_ne_new _ _
      · exact hc id r hr

theorem getOrder_submit_fresh (nowMs : ℕ) (req : OrderRequest α) (h : c.oms.get c.nextId = none) :
    (c.submitManualOrder nowMs req).1.getOrder c.nextId =
      some (settle (c.newOrder nowMs req) (c.verdict req)) := by
  rw [c.submitManualOrder_fresh nowMs req h]
  exact (Oms.get_insert _ _ _ _).trans (if_pos rfl)

theorem exists_getOrder_submit (nowMs : ℕ) (req : OrderRequest α) (hc : c.Settled) :
    ∃ ord, (c.submitManualOrder nowMs req).1.getOrder c.nextId = some ord := by
  cases hfresh : c.oms.get c.nextId with
  | some ord =>
      rw [c.submitManualOrder_taken nowMs req hc hfresh]
      exact ⟨ord, hfresh⟩
  | none => exact ⟨_, c.getOrder_submit_fresh nowMs req hfresh⟩

theorem settled_next (hc : c.Settled) (op : CoreOp α) :
    ((coreMachine α).next c op).Settled := by
  cases op with
  | tick nowMs tick => exact hc
  | submit nowMs req => exact c.settled_submit nowMs req hc
  | cancel nowMs id => exact c.settled_cancel id hc
  | updateRisk cfg => exact hc

/-- Between operations every record has been decided on. -/
theorem settled_after (cfg : RiskConfig α) (ops : List (CoreOp α)) : (after cfg ops).Settled :=
  (coreMachine α).run_invariant (fun c op hc ↦ c.settled_next hc op) (settled_init cfg) ops

/-! ## Acceptance -/

/-- A step takes the order to `Accepted`; `r` is its record then. -/
def BecomesAccepted (c c' : TradingCore α) (id : ℕ) (r : OrderRecord α) : Prop :=
  c'.oms.get id = some r ∧ r.status = .accepted ∧
    ∀ r₀, c.oms.get id = some r₀ → r₀.status ≠ .accepted

/-- An order is accepted by its own submission and in no other way. -/
theorem becomesAccepted_next_iff (hc : c.Settled) (op : CoreOp α) (id : ℕ) (r : OrderRecord α) :
    BecomesAccepted c ((coreMachine α).next c op) id r ↔
      ∃ nowMs req, op = .submit nowMs req ∧ id = c.nextId ∧ c.oms.get id = none ∧
        c.verdict req = .none ∧ r = settle (c.newOrder nowMs req) .none := by
  have hsame : ∀ c' : TradingCore α, c'.oms = c.oms → ¬ BecomesAccepted c c' id r := by
    rintro c' homs ⟨hr, hacc, hbefore⟩
    rw [homs] at hr
    exact hbefore r hr hacc
  constructor
  · intro h
    cases op with
    | tick nowMs tick => exact absurd h (hsame _ rfl)
    | updateRisk cfg => exact absurd h (hsame _ rfl)
    | cancel nowMs id' =>
        obtain ⟨hr, hacc, hbefore⟩ := h
        simp only [next_cancel, Oms.get_cancel] at hr
        split_ifs at hr with hid
        · subst hid
          obtain ⟨r₀, hr₀, rfl⟩ := Option.map_eq_some_iff.mp hr
          rw [if_neg (hbefore r₀ hr₀)] at hacc
          exact absurd hacc (hbefore r₀ hr₀)
        · exact absurd hacc (hbefore r hr)
    | submit nowMs req =>
        cases hfresh : c.oms.get c.nextId with
        | some r₀ =>
            rw [next_submit, c.submitManualOrder_taken nowMs req hc hfresh] at h
            exact absurd h (hsame _ rfl)
        | none =>
            rw [next_submit, c.submitManualOrder_fresh nowMs req hfresh] at h
            obtain ⟨hr, hacc, hbefore⟩ := h
            simp only [Oms.get_insert] at hr
            split_ifs at hr with hid
            · obtain rfl := Option.some.inj hr
              have hv := (settle_status_eq_accepted_iff _ _).mp hacc
              exact ⟨nowMs, req, rfl, hid, hid ▸ hfresh, hv, by rw [hv]⟩
            · exact absurd hacc (hbefore r hr)
  · rintro ⟨nowMs, req, rfl, rfl, hfresh, hv, rfl⟩
    rw [next_submit, c.submitManualOrder_fresh nowMs req hfresh, hv]
    refine ⟨by simp, by simp, fun r₀ hr₀ ↦ ?_⟩
    rw [hfresh] at hr₀
    cases hr₀

theorem becomesAccepted_submit_iff (hc : c.Settled) (nowMs : ℕ) (req : OrderRequest α)
    (r : OrderRecord α) :
    BecomesAccepted c (c.submitManualOrder nowMs req).1 c.nextId r ↔
      c.getOrder c.nextId = none ∧ c.verdict req = .none ∧
        r = settle (c.newOrder nowMs req) .none := by
  rw [← next_submit, c.becomesAccepted_next_iff hc]
  constructor
  · rintro ⟨nowMs, req, hop, -, h⟩
    cases hop
    exact h
  · exact fun h ↦ ⟨_, _, rfl, rfl, h⟩

/-- The account changes only when a buy is accepted, by the notional of that
order. -/
theorem account_next (hc : c.Settled) (op : CoreOp α) :
    ((coreMachine α).next c op).account = c.account ∨
      ∃ id r, BecomesAccepted c ((coreMachine α).next c op) id r ∧ r.side = .buy ∧
        ((coreMachine α).next c op).account =
          { c.account with
            positionNotionalUsd := c.account.positionNotionalUsd + r.qty * r.refPrice } := by
  cases op with
  | tick nowMs tick => exact Or.inl rfl
  | cancel nowMs id => exact Or.inl rfl
  | updateRisk cfg => exact Or.inl rfl
  | submit nowMs req =>
      cases hfresh : c.oms.get c.nextId with
      | some r =>
          left
          rw [next_submit, c.submitManualOrder_taken nowMs req hc hfresh]
      | none =>
          by_cases hbuy : c.verdict req = .none ∧ req.side = .buy
          · right
            refine ⟨c.nextId, settle (c.newOrder nowMs req) .none, ?_, hbuy.2, ?_⟩
            · exact (c.becomesAccepted_next_iff hc _ _ _).mpr
                ⟨nowMs, req, rfl, rfl, hfresh, hbuy.1, rfl⟩
            · rw [next_submit, c.submitManualOrder_fresh nowMs req hfresh]
              exact if_pos hbuy
          · left
            rw [next_submit, c.submitManualOrder_fresh nowMs req hfresh]
            exact if_neg hbuy

theorem equity_next (hc : c.Settled) (op : CoreOp α) :
    ((coreMachine α).next c op).account.equityUsd = c.account.equityUsd ∧
      ((coreMachine α).next c op).account.dayLossUsd = c.account.dayLossUsd := by
  rcases c.account_next hc op with hsame | ⟨_, _, _, _, hmove⟩
  · rw [hsame]
    exact ⟨rfl, rfl⟩
  · rw [hmove]
    exact ⟨rfl, rfl⟩

end TradingCore

end FrogQuant
