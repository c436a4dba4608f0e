import FrogQuant.Core.TradingCore
import Mathlib.Tactic.Linarith
import Mathlib.Tactic.NormNum

/-!
# Exposure over whole runs

What the risk check bounds, in exact arithmetic: the notional of an order when
it is accepted, and the position the account carries.  The position is the sum
of what every buy was accepted for, whether it has been cancelled since or not.
-/

namespace FrogQuant.TradingCore

/-- The router submits no order without a positive quantity. -/
def PositiveQty : CoreOp ℚ → Prop
  | .submit _ req => 0 < req.qty
  | _ => True

instance : DecidablePred PositiveQty
  | .submit _ req => inferInstanceAs (Decidable (0 < req.qty))
  | .tick _ _ => .isTrue trivial
  | .cancel _ _ => .isTrue trivial
  | .updateRisk _ => .isTrue trivial

def configsInForce (cfg : RiskConfig ℚ) (ops : List (CoreOp ℚ)) : List (RiskConfig ℚ) :=
  cfg :: ops.filterMap fun
    | .updateRisk cfg' => some cfg'
    | _ => none

/-- The largest position ratio ever in force, or zero if all are negative. -/
def largestRatio (cfg : RiskConfig ℚ) (ops : List (CoreOp ℚ)) : ℚ :=
  ((configsInForce cfg ops).map RiskConfig.maxPositionRatio).foldl max 0

theorem largestRatio_concat (cfg : RiskConfig ℚ) (ops : List (CoreOp ℚ)) (op : CoreOp ℚ) :
    largestRatio cfg (ops ++ [op]) =
      match op with
      | .updateRisk cfg' => max (largestRatio cfg ops) cfg'.maxPositionRatio
      | _ => largestRatio cfg ops := by
  cases op <;> simp [largestRatio, configsInForce, List.filterMap_append, List.foldl_append]

theorem largestRatio_le_concat (cfg : RiskConfig ℚ) (ops : List (CoreOp ℚ)) (op : CoreOp ℚ) :
    largestRatio cfg ops ≤ largestRatio cfg (ops ++ [op]) := by
  rw [largestRatio_concat]
  cases op <;> simp

variable {c : TradingCore ℚ}

theorem accepted_bounds (hc : c.Settled) {op : CoreOp ℚ} (hqty : PositiveQty op) {id : ℕ}
    {r : OrderRecord ℚ} (h : BecomesAccepted c ((coreMachine ℚ).next c op) id r) :
    0 < r.qty * r.refPrice ∧ |r.qty * r.refPrice| ≤ c.risk.maxSingleOrderNotionalUsd ∧
      c.account.positionNotionalUsd + r.qty * r.refPrice ≤
        c.account.equityUsd * c.risk.maxPositionRatio := by
  obtain ⟨nowMs, req, rfl, -, -, hv, rfl⟩ := (c.becomesAccepted_next_iff hc op id r).mp h
  obtain ⟨hprice, hrisk⟩ := (c.verdict_eq_none_iff nowMs req).mp hv
  obtain ⟨hsingle, hposition, -⟩ := (checkPreTrade_eq_none_iff _ _ _).mp hrisk
  have hpos : 0 < (c.newOrder nowMs req).qty * (c.newOrder nowMs req).refPrice :=
    mul_pos hqty (not_le.mp hprice)
  rw [fabs_rat, not_lt] at hsingle hposition
  rw [abs_of_pos hpos] at hposition
  exact ⟨hpos, hsingle, hposition⟩

structure Capped (cfg : RiskConfig ℚ) (ops : List (CoreOp ℚ)) (c : TradingCore ℚ) : Prop where
  settled : c.Settled
  equity : c.account.equityUsd = 1000
  ratio : c.risk.maxPositionRatio ≤ largestRatio cfg ops
  nonneg : 0 ≤ c.account.positionNotionalUsd
  le : c.account.positionNotionalUsd ≤ c.account.equityUsd * largestRatio cfg ops

theorem capped_init (cfg : RiskConfig ℚ) : Capped cfg [] (init cfg) where
  settled := settled_init cfg
  equity := rfl
  ratio := by simp [largestRatio, configsInForce, init]
  nonneg := le_refl (0 : ℚ)
  le := by
    have hratio : 0 ≤ largestRatio cfg [] := by simp [largestRatio, configsInForce]
    exact mul_nonneg (by norm_num [init, AccountSnapshot.default]) hratio

theorem Capped.next {cfg : RiskConfig ℚ} {ops : List (CoreOp ℚ)} (h : Capped cfg ops c)
    {op : CoreOp ℚ} (hqty : PositiveQty op) :
    Capped cfg (ops ++ [op]) ((coreMachine ℚ).next c op) := by
  have hsettled := c.settled_next h.settled op
  have hgrow := largestRatio_le_concat cfg ops op
  have hequity : (0 : ℚ) ≤ c.account.equityUsd := by
    rw [h.equity]
    norm_num
  have hratio : ((coreMachine ℚ).next c op).risk.maxPositionRatio ≤
      largestRatio cfg (ops ++ [op]) := by
    cases op with
    | updateRisk cfg' => simp [largestRatio_concat]
    | tick nowMs tick => exact h.ratio.trans hgrow
    | cancel nowMs id => exact h.ratio.trans hgrow
    | submit nowMs req =>
        rw [next_submit, (c.submitManualOrder_frame nowMs req).1]
        exact h.ratio.trans hgrow
  rcases c.account_next h.settled op with hsame | ⟨id, r, hacc, -, hmove⟩
  · refine ⟨hsettled, hsame ▸ h.equity, hratio, hsame ▸ h.nonneg, ?_⟩
    rw [hsame]
    exact h.le.trans (mul_le_mul_of_nonneg_left hgrow hequity)
  · obtain ⟨hpos, -, hbound⟩ := accepted_bounds h.settled hqty hacc
    have hnonneg := h.nonneg
    refine ⟨hsettled, by rw [hmove]; exact h.equity, hratio, ?_, ?_⟩
    · rw [hmove]
      exact add_nonneg hnonneg hpos.le
    · rw [hmove]
      exact hbound.trans (mul_le_mul_of_nonneg_left (h.ratio.trans hgrow) hequity)

theorem capped_after (cfg : RiskConfig ℚ) {ops : List (CoreOp ℚ)}
    (hqty : ∀ op ∈ ops, PositiveQty op) : Capped cfg ops (after cfg ops) := by
  induction ops using List.reverseRecOn with
  | nil => exact capped_init cfg
  | append_singleton ops op ih =>
      have hcapped := ih fun op' hop' ↦ hqty op' (List.mem_append_left _ hop')
      rw [after_concat]
      exact hcapped.next (hqty op (by simp))

/-- Every step of every run: an order is accepted within the limits then in
force, and nothing but an accepted buy moves the position, upwards.  Hence the
position stays between zero and the loosest cap there has been. -/
theorem exposure_cap (cfg : RiskConfig ℚ) (ops : List (CoreOp ℚ))
    (hqty : ∀ op ∈ ops, PositiveQty op) :
    (∀ pre op post, ops = pre ++ op :: post →
      let c := after cfg pre
      let c' := (coreMachine ℚ).next c op
      (∀ id r, BecomesAccepted c c' id r →
        |r.qty * r.refPrice| ≤ c.risk.maxSingleOrderNotionalUsd ∧
          (r.side = .buy → c'.account.positionNotionalUsd ≤
            c'.account.equityUsd * c.risk.maxPositionRatio)) ∧
      (c'.account.positionNotionalUsd ≠ c.account.positionNotionalUsd →
        ∃ id r, BecomesAccepted c c' id r ∧ r.side = .buy) ∧
      c.account.positionNotionalUsd ≤ c'.account.positionNotionalUsd) ∧
    0 ≤ (after cfg ops).account.positionNotionalUsd ∧
    (after cfg ops).account.positionNotionalUsd ≤
      (after cfg ops).account.equityUsd * largestRatio cfg ops := by
  have hcapped := capped_after cfg hqty
  refine ⟨?_, hcapped.nonneg, hcapped.le⟩
  intro pre op post hops c c'
  have hc : c.Settled := settled_after cfg pre
  have hop : PositiveQty op := hqty op (by simp [hops])
  have hmove := c.account_next hc op
  refine ⟨fun id r hacc ↦ ?_, fun hne ↦ ?_, ?_⟩
  · obtain ⟨-, hsingle, -⟩ := accepted_bounds hc hop hacc
    refine ⟨hsingle, fun hbuy ↦ ?_⟩
    obtain ⟨nowMs, req, rfl, rfl, hfresh, hv, rfl⟩ :=
      (c.becomesAccepted_next_iff hc op id r).mp hacc
    obtain ⟨-, -, hposition⟩ := accepted_bounds hc hop hacc
    have haccount : c'.account = credit c.account (c.newOrder nowMs req) .none := by
      change ((coreMachine ℚ).next c (.submit nowMs req)).account = _
      rw [next_submit, c.submitManualOrder_fresh nowMs req hfresh, hv]
    rw [haccount, credit, if_pos ⟨rfl, hbuy⟩]
    exact hposition
  · rcases hmove with hsame | ⟨id, r, hacc, hbuy, -⟩
    · exact absurd (congrArg AccountSnapshot.positionNotionalUsd hsame) hne
    · exact ⟨id, r, hacc, hbuy⟩
  · rcases hmove with hsame | ⟨id, r, hacc, -, hmove⟩
    · exact (congrArg AccountSnapshot.positionNotionalUsd hsame).ge
    · obtain ⟨hpos, -, -⟩ := accepted_bounds hc hop hacc
      have heq := congrArg AccountSnapshot.positionNotionalUsd hmove
      change c.account.positionNotionalUsd ≤ ((coreMachine ℚ).next c op).account.positionNotionalUsd
      rw [heq]
      linarith

theorem exposure_cap_one_buy :
    let ops := [.tick 0 ⟨"BTCUSDT", 60000, 0, 0, .restFallback⟩,
      .submit 0 ⟨"BTCUSDT", .buy, .market, 0.0001, 0⟩]
    0 ≤ (after .default ops).account.positionNotionalUsd ∧
      (after .default ops).account.positionNotionalUsd ≤
        (after .default ops).account.equityUsd * largestRatio .default ops :=
  (exposure_cap .default _ (by decide +kernel)).2

/-! ## The position as a sum over orders -/

/-- What an order that stands adds to the long side. -/
def acceptedNotional (r : OrderRecord ℚ) : ℚ :=
  if r.side = .buy ∧ r.status = .accepted then r.qty * r.refPrice else 0

/-- What an order added to the long side when it was accepted. -/
def grantedNotional (r : OrderRecord ℚ) : ℚ :=
  if r.side = .buy ∧ (r.status = .accepted ∨ r.status = .cancelled) then r.qty * r.refPrice
  else 0

theorem credit_position (account : AccountSnapshot ℚ) (order : OrderRecord ℚ)
    (rr : RejectReason) :
    (credit account order rr).positionNotionalUsd =
      account.positionNotionalUsd + grantedNotional (settle order rr) := by
  by_cases hv : rr = .none
  · by_cases hbuy : order.side = .buy <;> simp [credit, grantedNotional, hv, hbuy]
  · simp [credit, grantedNotional, hv]

/-- The account carries exactly the accepted buys. -/
def PositionStands (c : TradingCore ℚ) : Prop :=
  c.account.positionNotionalUsd = Store.total acceptedNotional c.oms

instance : DecidablePred PositionStands := fun _ ↦ inferInstanceAs (Decidable (_ = _))

/-- The position is what has been granted to buys, and a granted order is
worth something. -/
structure Booked (c : TradingCore ℚ) : Prop where
  settled : c.Settled
  position : c.account.positionNotionalUsd = Store.total grantedNotional c.oms
  positive : ∀ id r, c.oms.get id = some r → r.status ≠ .rejected → 0 < r.qty * r.refPrice

theorem booked_cancel (h : Booked c) (id : ℕ) :
    Booked { c with oms := (c.oms.cancel id).1 } where
  settled := c.settled_cancel id h.settled
  position := by
    have htotal : Store.total grantedNotional (c.oms.cancel id).1 =
        Store.total grantedNotional c.oms := by
      apply Store.total_updateIf_of_eq _ _ _ _ _
      intro r hr
      have hacc : r.status = .accepted := of_decide_eq_true hr
      simp [grantedNotional, hacc]
    exact h.position.trans htotal.symm
  positive := by
    intro id' r hr hstatus
    simp only [Oms.get_cancel] at hr
    split_ifs at hr
    · obtain ⟨r₀, hr₀, rfl⟩ := Option.map_eq_some_iff.mp hr
      split_ifs at hstatus ⊢ with hacc
      · exact h.positive id r₀ hr₀ (by simp [hacc])
      · exact h.positive id r₀ hr₀ hstatus
    · exact h.positive id' r hr hstatus

theorem booked_submit (h : Booked c) (nowMs : ℕ) {req : OrderRequest ℚ} (hqty : 0 < req.qty) :
    Booked (c.submitManualOrder nowMs req).1 := by
  have hsettled := c.settled_submit nowMs req h.settled
  cases hfresh : c.oms.get c.nextId with
  | some r =>
      rw [c.submitManualOrder_taken nowMs req h.settled hfresh]
      exact ⟨h.settled, h.position, h.positive⟩
  | none =>
      rw [c.submitManualOrder_fresh nowMs req hfresh] at hsettled ⊢
      refine ⟨hsettled, ?_, fun id r hr hstatus ↦ ?_⟩
      · rw [Store.total_insert_fresh _ _ hfresh, ← h.position, add_comm]
        exact credit_position c.account (c.newOrder nowMs req) (c.verdict req)
      · simp only [Oms.get_insert] at hr
        split_ifs at hr
        · obtain rfl := Option.some.inj hr
          have hv : c.verdict req = .none := by
            by_contra hv
            exact hstatus (by simp [hv])
          exact mul_pos hqty (not_le.mp ((c.verdict_eq_none_iff nowMs req).mp hv).1)
        · exact h.positive id r hr hstatus

theorem booked_after (cfg : RiskConfig ℚ) {ops : List (CoreOp ℚ)}
    (hqty : ∀ op ∈ ops, PositiveQty op) : Booked (after cfg ops) := by
  induction ops using List.reverseRecOn with
  | nil => exact ⟨settled_init cfg, rfl, fun id r hr ↦ by simp [init] at hr⟩
  | append_singleton ops op ih =>
      have hbooked := ih fun op' hop' ↦ hqty op' (List.mem_append_left _ hop')
      have hop := hqty op (by simp)
      rw [after_concat]
      cases op with
      | tick nowMs tick => exact ⟨hbooked.settled, hbooked.position, hbooked.positive⟩
      | updateRisk cfg' => exact ⟨hbooked.settled, hbooked.position, hbooked.positive⟩
      | cancel nowMs id => exact booked_cancel hbooked id
      | submit nowMs req => exact booked_submit hbooked nowMs hop

theorem total_accepted_eq_granted_iff (h : Booked c) :
    Store.total acceptedNotional c.oms = Store.total grantedNotional c.oms ↔
      ∀ id r, c.oms.get id = some r → r.side = .buy → r.status ≠ .cancelled := by
  set cancelledNotional : OrderRecord ℚ → ℚ := fun r ↦
    if r.side = .buy ∧ r.status = .cancelled then r.qty * r.refPrice else 0 with hcancelled
  have hsplit : Store.total grantedNotional c.oms =
      Store.total acceptedNotional c.oms + Store.total cancelledNotional c.oms := by
    rw [← Store.total_add]
    congr 1
    funext r
    simp only [grantedNotional, acceptedNotional, hcancelled]
    cases r.status <;> simp
  have hnonneg : ∀ id r, c.oms.lookup id = some r → 0 ≤ cancelledNotional r := by
    intro id r hr
    simp only [hcancelled]
    split_ifs with hr'
    · exact (h.positive id r hr (by simp [hr'])).le
    · exact le_refl 0
  rw [hsplit, left_eq_add, Store.total_eq_zero_iff hnonneg]
  apply forall₃_congr
  intro id r hr
  simp only [hcancelled, ite_eq_right_iff, and_imp]
  refine forall_congr' fun _ ↦ ⟨fun hzero hstatus ↦ ?_, fun hne hstatus ↦ absurd hstatus hne⟩
  exact (h.positive id r hr (by simp [hstatus])).ne' (hzero hstatus)

/-- The position counts every buy ever accepted.  It counts only those that
still stand in exactly the states where no buy has been cancelled. -/
theorem position_counts_granted (cfg : RiskConfig ℚ) (ops : List (CoreOp ℚ))
    (hqty : ∀ op ∈ ops, PositiveQty op) :
    (after cfg ops).account.positionNotionalUsd =
        Store.total grantedNotional (after cfg ops).oms ∧
      (PositionStands (after cfg ops) ↔
        ∀ id r, (after cfg ops).getOrder id = some r → r.side = .buy → r.status ≠ .cancelled) := by
  have hbooked := booked_after cfg hqty
  refine ⟨hbooked.position, ?_⟩
  rw [PositionStands, hbooked.position, eq_comm]
  exact total_accepted_eq_granted_iff hbooked

def cancelledBuy : List (CoreOp ℚ) :=
  [.tick 0 ⟨"BTCUSDT", 60000, 0, 0, .restFallback⟩,
   .submit 0 ⟨"BTCUSDT", .buy, .market, 0.0001, 0⟩,
   .cancel 0 1]

theorem position_counts_granted_cancelledBuy :
    (after .default cancelledBuy).account.positionNotionalUsd =
      Store.total grantedNotional (after .default cancelledBuy).oms :=
  (position_counts_granted .default cancelledBuy (by decide +kernel)).1

/-- After the cancellation the account still carries the order. -/
theorem cancelledBuy_position_not_standing : ¬ PositionStands (after .default cancelledBuy) := by
  decide +kernel

/-! ## Sells against the cap -/

/-- The submission enters the order as rejected for `rr`. -/
def Rejects {α : Type} [Floating α] (c : TradingCore α) (nowMs : ℕ) (req : OrderRequest α)
    (rr : RejectReason) : Prop :=
  c.getOrder c.nextId = none ∧
    ∃ r, (c.submitManualOrder nowMs req).1.getOrder c.nextId = some r ∧
      r.status = .rejected ∧ r.rejectReason = rr

theorem rejects_iff {α : Type} [Floating α] (c : TradingCore α) (nowMs : ℕ)
    (req : OrderRequest α) {rr : RejectReason} (hrr : rr ≠ .none) :
    Rejects c nowMs req rr ↔ c.getOrder c.nextId = none ∧ c.verdict req = rr := by
  refine and_congr_right fun hfresh ↦ ?_
  rw [c.getOrder_submit_fresh nowMs req hfresh]
  constructor
  · rintro ⟨r, hr, -, hreason⟩
    obtain rfl := Option.some.inj hr
    exact hreason
  · intro hv
    refine ⟨_, rfl, ?_, hv⟩
    rw [settle_status, hv, if_neg hrr]

def notional (c : TradingCore Double) (req : OrderRequest Double) : Double :=
  fabs (req.qty * (c.newOrder 0 req).refPrice)

/-- A sell of no more than the position, at a price and within the limit on a
single order. -/
structure ReducingSell (c : TradingCore Double) (req : OrderRequest Double) : Prop where
  side : req.side = .sell
  price : 0 < (c.newOrder 0 req).refPrice
  position : c.notional req ≤ c.account.positionNotionalUsd
  single : c.notional req ≤ c.risk.maxSingleOrderNotionalUsd

theorem ReducingSell.verdict_eq {c : TradingCore Double} {req : OrderRequest Double}
    (h : ReducingSell c req) :
    c.verdict req = .maxPositionRatio ↔
      c.account.equityUsd * c.risk.maxPositionRatio <
        c.account.positionNotionalUsd + c.notional req := by
  have hsingle : ¬ c.risk.maxSingleOrderNotionalUsd < c.notional req :=
    fun hlt ↦ Double.not_le_of_lt hlt h.single
  rw [c.verdict_of_no_price 0 req (Double.not_le_of_lt h.price), checkPreTrade]
  simp only [notional] at hsingle ⊢
  simp only [show (c.newOrder 0 req).qty = req.qty from rfl, if_neg hsingle]
  split_ifs <;> simp_all

/-- A sell, whatever is decided on it, leaves the account as it is. -/
theorem account_submit_sell {c : TradingCore Double} (hc : c.Settled) (nowMs : ℕ)
    {req : OrderRequest Double} (hsell : req.side = .sell) :
    (c.submitManualOrder nowMs req).1.account = c.account := by
  have hside : (c.newOrder nowMs req).side ≠ .buy := by simp [newOrder, hsell]
  cases hfresh : c.oms.get c.nextId with
  | some r => rw [c.submitManualOrder_taken nowMs req hc hfresh]
  | none =>
      rw [c.submitManualOrder_fresh nowMs req hfresh]
      exact if_neg fun hcredit ↦ hside hcredit.2

/-- The cap leaves a sell through exactly if the position and the notional of
the sell are together within it, although the sell adds nothing to the
position. -/
theorem sell_not_capped_iff (cfg : RiskConfig Double) (ops : List (CoreOp Double)) (nowMs : ℕ)
    (req : OrderRequest Double) (h : ReducingSell (after cfg ops) req) :
    (¬ Rejects (after cfg ops) nowMs req .maxPositionRatio ↔
      (after cfg ops).getOrder (after cfg ops).nextId ≠ none ∨
        ¬ (after cfg ops).account.equityUsd * (after cfg ops).risk.maxPositionRatio <
          (after cfg ops).account.positionNotionalUsd + (after cfg ops).notional req) ∧
      ((after cfg ops).submitManualOrder nowMs req).1.account = (after cfg ops).account := by
  refine ⟨?_, account_submit_sell (settled_after cfg ops) nowMs h.side⟩
  rw [rejects_iff _ _ _ (by simp), h.verdict_eq, not_and_or]

/-- A position of 720 under a cap of 800. -/
def nearCap : List (CoreOp Double) :=
  [.tick 0 ⟨"BTCUSDT", .finite 60000, 0, 0, .restFallback⟩,
   .updateRisk ⟨.finite 1000, .finite 0.8, .finite 0.05⟩,
   .submit 0 ⟨"BTCUSDT", .buy, .market, .finite 0.012, .finite 0⟩]

def sellOf (qty : ℚ) : OrderRequest Double :=
  ⟨"BTCUSDT", .sell, .market, .finite qty, .finite 0⟩

theorem sell_not_capped_small :
    ¬ Rejects (after .default nearCap) 0 (sellOf 0.001) .maxPositionRatio :=
  (sell_not_capped_iff .default nearCap 0 (sellOf 0.001)
    ⟨rfl, by decide +kernel, by decide +kernel, by decide +kernel⟩).1.mpr
    (Or.inr (by decide +kernel))

theorem sell_capped_near_cap :
    ¬ ∀ (cfg : RiskConfig Double) (ops : List (CoreOp Double)) (nowMs : ℕ)
      (req : OrderRequest Double), ReducingSell (after cfg ops) req →
        ¬ Rejects (after cfg ops) nowMs req .maxPositionRatio := by
  intro h
  refine h .default nearCap 0 (sellOf 0.002)
    ⟨rfl, by decide +kernel, by decide +kernel, by decide +kernel⟩ ?_
  rw [rejects_iff _ _ _ (by simp)]
  exact ⟨by decide +kernel, by decide +kernel⟩

end FrogQuant.TradingCore
