import FrogQuant.App.ServiceRuns

/-!
# The order that goes out

The core approves a quantity and a reference price; what goes to the exchange
are texts with six and two decimals.  They denote the approved numbers exactly
when the request needs no more decimals and a limit order brings its own price.
Numbers are kept exact here, as the decimals that they are given as.
-/

namespace FrogQuant.App

attribute [local instance] NumberFormat.exact

/-- The order sent is the order approved: the step has accepted a record, and
the texts of the query denote its quantity and, for a limit order, its
reference price; the notional they stand for is within the limit. -/
def SentAsApproved (before after : TradingCore Double) (p : Placement) : Prop :=
  ∃ query r qty, p.query = some query ∧
    TradingCore.BecomesAccepted before after before.nextId r ∧
    Decimal.read query.quantity = some qty ∧ r.qty = .finite qty ∧
    (r.type = .limit →
      ∃ text price, query.price = some text ∧ Decimal.read text = some price ∧
        r.refPrice = .finite price ∧
        ¬ before.risk.maxSingleOrderNotionalUsd < .finite (qty * price))

namespace ApiState

variable (s : ApiState) (env : RequestEnv) (body : Text)

/-- The numbers of a request survive the trip: its id is free, its quantity has
at most six decimals, and a limit order has a positive price with at most
two. -/
def SendsExactly : Prop :=
  s.core.getOrder s.core.nextId = none ∧
    (∃ x, (s.manualRequest body).qty = .finite x ∧ Decimal.HasDecimals 6 x) ∧
    ((s.manualRequest body).type = .limit →
      ∃ y, (s.manualRequest body).limitPrice = .finite y ∧ 0 < y ∧ Decimal.HasDecimals 2 y)

theorem manualRequest_qty_finite : ∃ x, (s.manualRequest body).qty = .finite x := by
  simp only [manualRequest]
  cases h : jsonGetNumber body "qty" with
  | none => exact ⟨0, rfl⟩
  | some x => exact (Double.isFinite_iff x).mp (jsonGetNumber_isFinite h)

theorem manualRequest_limitPrice_finite : ∃ y, (s.manualRequest body).limitPrice = .finite y := by
  simp only [manualRequest]
  cases h : jsonGetNumber body "price" with
  | none => exact ⟨0, rfl⟩
  | some y => exact (Double.isFinite_iff y).mp (jsonGetNumber_isFinite h)

theorem placeManual_query (req : OrderRequest Double) (id : ℕ) :
    ∃ query, (s.placeManual env req id).query = some query ∧
      query.quantity = Ostream.showFixed 6 req.qty ∧
      (req.type = .limit → query.price = some (Ostream.showFixed 2 req.limitPrice)) := by
  rw [placeManual]
  cases req.type with
  | market => exact ⟨_, rfl, rfl, by simp⟩
  | limit => exact ⟨_, rfl, rfl, fun _ ↦ rfl⟩

theorem placed_postManualOrder (hc : s.core.Settled) {p : Placement}
    (h : (s.postManualOrder env body).2.placed = some p) :
    ¬ (s.manualRequest body).qty ≤ 0 ∧
      p = s.placeManual env (s.manualRequest body) s.core.nextId ∧
      ∃ ord, (s.core.submitManualOrder env.nowMs (s.manualRequest body)).1.getOrder s.core.nextId =
        some ord ∧ ord.status = .accepted := by
  by_cases hqty : (s.manualRequest body).qty ≤ 0
  · simp [postManualOrder, hqty, Reply.of] at h
  · obtain ⟨ord, hord, hreply⟩ := s.postManualOrder_reply env body hc hqty
    simp only [hreply] at h
    split_ifs at h with hacc
    exact ⟨hqty, (Option.some.inj h).symm, ord, hord, hacc⟩

/-! ## The two numbers on their way -/

variable {s} {c : TradingCore Double} {req : OrderRequest Double} {x y : ℚ}

theorem read_quantity_iff :
    Decimal.read (Ostream.showFixed 6 (.finite x)) = some x ↔ Decimal.HasDecimals 6 x := by
  have hread : Decimal.read (Ostream.showFixed 6 (.finite x)) = some (Decimal.roundTo 6 x) :=
    Decimal.read_showFixed 6 (by decide) x
  rw [hread, Option.some.injEq, Decimal.roundTo_eq_self_iff]

/-- The text of the limit price denotes the price the order was approved at
exactly if the request brings a positive one with two decimals: otherwise the
last price stands in for it, which is positive, and the text is not. -/
theorem read_price_iff (hlimit : req.type = .limit) (hy : req.limitPrice = .finite y)
    (hprice : ¬ (c.newOrder 0 req).refPrice ≤ 0) :
    (∃ price, Decimal.read (Ostream.showFixed 2 req.limitPrice) = some price ∧
        (c.newOrder 0 req).refPrice = .finite price) ↔
      0 < y ∧ Decimal.HasDecimals 2 y := by
  have hread : Decimal.read (Ostream.showFixed 2 req.limitPrice) = some (Decimal.roundTo 2 y) := by
    rw [hy]
    exact Decimal.read_showFixed 2 (by decide) y
  simp only [hread, Option.some.injEq, exists_eq_left']
  by_cases hpos : 0 < y
  · have href : (c.newOrder 0 req).refPrice = .finite y := by
      simp [TradingCore.newOrder, hlimit, hy, hpos]
    rw [href, Double.finite.injEq, eq_comm, Decimal.roundTo_eq_self_iff]
    simp [hpos]
  · refine iff_of_false (fun href ↦ hprice ?_) (fun h ↦ hpos h.1)
    rw [href, Double.finite_le_zero]
    exact Decimal.roundTo_nonpos 2 (not_lt.mp hpos)

theorem notional_within (hqty : ¬ req.qty ≤ 0)
    (hpass : ¬ (c.newOrder 0 req).refPrice ≤ 0 ∧
      checkPreTrade c.risk (c.newOrder 0 req) c.account = .none)
    (hx : req.qty = .finite x) (href : (c.newOrder 0 req).refPrice = .finite y) :
    ¬ c.risk.maxSingleOrderNotionalUsd < .finite (x * y) := by
  obtain ⟨hsingle, -⟩ := (checkPreTrade_eq_none_iff _ _ _).mp hpass.2
  have hqty' : (c.newOrder 0 req).qty = .finite x := hx
  rw [hx, Double.finite_le_zero, not_le] at hqty
  have hprice := hpass.1
  rw [href, Double.finite_le_zero, not_le] at hprice
  rwa [hqty', href, Double.finite_mul, Double.ofRat_exact, Double.fabs_finite,
    abs_of_pos (mul_pos hqty hprice)] at hsingle

end ApiState

/-- What is sent is what was approved, exactly for a request whose numbers
survive the trip. -/
theorem order_sent_as_approved_iff (b : Startup) (es : List ApiEvent) (env : RequestEnv)
    (body : Text) (p : Placement)
    (h : ((service b es).postManualOrder env body).2.placed = some p) :
    SentAsApproved (service b es).core ((service b es).postManualOrder env body).1.core p ↔
      (service b es).SendsExactly body := by
  have hc := service_settled b es
  generalize service b es = s at h hc ⊢
  obtain ⟨hqty, rfl, ord, hord, hacc⟩ := s.placed_postManualOrder env body hc h
  obtain ⟨x, hx⟩ := s.manualRequest_qty_finite body
  obtain ⟨y, hy⟩ := s.manualRequest_limitPrice_finite body
  obtain ⟨query, hquery, hquantity, hpriceText⟩ :=
    s.placeManual_query env (s.manualRequest body) s.core.nextId
  have hbecomes := s.core.becomesAccepted_submit_iff hc env.nowMs (s.manualRequest body)
  rw [s.postManualOrder_core, if_neg hqty]
  constructor
  · rintro ⟨query', r, qty, hquery', hbecomes', hread, hrqty, hlim⟩
    obtain rfl := Option.some.inj (hquery.symm.trans hquery')
    obtain ⟨hfresh, hv, rfl⟩ := (hbecomes r).mp hbecomes'
    obtain rfl := Double.finite.inj (hx.symm.trans hrqty)
    refine ⟨hfresh, ⟨x, hx, ?_⟩, fun hlimit ↦ ⟨y, hy, ?_⟩⟩
    · rw [hquantity, hx] at hread
      exact ApiState.read_quantity_iff.mp hread
    · obtain ⟨text, price, htext, hprice, href, -⟩ := hlim hlimit
      obtain rfl := Option.some.inj ((hpriceText hlimit).symm.trans htext)
      have hpass := (s.core.verdict_eq_none_iff 0 _).mp hv
      exact (ApiState.read_price_iff hlimit hy hpass.1).mp ⟨price, hprice, href⟩
  · rintro ⟨hfresh, ⟨x', hx', hdecimals⟩, hlim⟩
    obtain rfl := Double.finite.inj (hx.symm.trans hx')
    have hv : s.core.verdict (s.manualRequest body) = .none := by
      obtain rfl := Option.some.inj ((s.core.getOrder_submit_fresh _ _ hfresh).symm.trans hord)
      exact (TradingCore.settle_status_eq_accepted_iff _ _).mp hacc
    have hpass := (s.core.verdict_eq_none_iff 0 _).mp hv
    refine ⟨query, _, x, hquery, (hbecomes _).mpr ⟨hfresh, hv, rfl⟩, ?_, hx, fun hlimit ↦ ?_⟩
    · rw [hquantity, hx]
      exact ApiState.read_quantity_iff.mpr hdecimals
    · obtain ⟨y', hy', hpos, hdecimals'⟩ := hlim hlimit
      obtain ⟨price, hprice, href⟩ :=
        (ApiState.read_price_iff hlimit hy' hpass.1).mpr ⟨hpos, hdecimals'⟩
      refine ⟨_, price, hpriceText hlimit, hprice, href, ?_⟩
      exact ApiState.notional_within hqty hpass hx href

def limitBody (qty price : Text) : Text :=
  Json.object [Json.member "type" (Json.quoted "LIMIT"), Json.member "qty" qty,
    Json.member "price" price]

def firstOrder (qty price : Text) : ApiState × Reply :=
  (service liveStartup []).postManualOrder (quietEnv 1) (limitBody qty price)

theorem order_sent_as_approved_plain :
    ∃ p, (firstOrder "1.5" "5.25").2.placed = some p ∧
      SentAsApproved (service liveStartup []).core (firstOrder "1.5" "5.25").1.core p := by
  have hplaced : (firstOrder "1.5" "5.25").2.placed.isSome = true := by decide +kernel
  obtain ⟨p, hp⟩ := Option.isSome_iff_exists.mp hplaced
  refine ⟨p, hp, (order_sent_as_approved_iff liveStartup [] (quietEnv 1) _ p hp).mpr ?_⟩
  refine ⟨by decide +kernel, ⟨3 / 2, by decide +kernel, by decide +kernel⟩, fun _ ↦ ?_⟩
  exact ⟨21 / 4, by decide +kernel, by decide +kernel, by decide +kernel⟩

/-- An order of 1.0000009 at 9.999 is approved, and 1.000001 at 10.00 goes out,
which is over the limit of 10. -/
theorem order_sent_rounded_up :
    ¬ ∀ (b : Startup) (es : List ApiEvent) (env : RequestEnv) (body : Text) (p : Placement),
      ((service b es).postManualOrder env body).2.placed = some p →
        SentAsApproved (service b es).core ((service b es).postManualOrder env body).1.core p := by
  intro h
  have hplaced : (firstOrder "1.0000009" "9.999").2.placed.isSome = true := by decide +kernel
  obtain ⟨p, hp⟩ := Option.isSome_iff_exists.mp hplaced
  obtain ⟨query, r, qty, hquery, ⟨hr, -⟩, hread, hqty, -⟩ :=
    h liveStartup [] (quietEnv 1) (limitBody "1.0000009" "9.999") p hp
  have hsent : (((firstOrder "1.0000009" "9.999").2.placed.bind Placement.query).bind fun q ↦
      Decimal.read q.quantity) = some (1000001 / 1000000) := by decide +kernel
  have hkept : ((firstOrder "1.0000009" "9.999").1.core.oms.get 1).map (·.qty) =
      some (.finite (10000009 / 10000000)) := by decide +kernel
  rw [hp, Option.bind_some, hquery, Option.bind_some, hread, Option.some.injEq] at hsent
  have hkept' := (congrArg (Option.map (·.qty)) hr).symm.trans hkept
  rw [Option.map_some, hqty, hsent, Option.some.injEq, Double.finite.injEq] at hkept'
  norm_num at hkept'

end FrogQuant.App
