import FrogQuant.App.ServiceRuns

/-!
# The parameters of an order

The query of a signed order is read as a form: fields between ampersands, each
cut at its first equality sign.
-/

namespace FrogQuant

open Text

def parameter (name : String) (value : Text) : Text × Text := (name.toList, value)

/-- The fields that the query is written from. -/
def OrderQuery.pairs (q : OrderQuery) : List (Text × Text) :=
  [parameter "symbol" q.symbol, parameter "side" q.side, parameter "type" q.type,
      parameter "quantity" q.quantity] ++
    q.price.elim [] (fun price ↦ [parameter "timeInForce" "GTC", parameter "price" price]) ++
    q.clientOrderId.elim [] (fun id ↦ [parameter "newClientOrderId" id]) ++
    [parameter "timestamp" q.timestamp, parameter "recvWindow" "5000"]

theorem field_parameter (name : String) (value : Text) :
    field (parameter name value) = name.toList ++ '=' :: value := rfl

theorem OrderQuery.text_eq (q : OrderQuery) :
    q.text = ['&'].intercalate (q.pairs.map field) := by
  obtain ⟨symbol, side, type, quantity, price, clientOrderId, timestamp⟩ := q
  unfold OrderQuery.text OrderQuery.pairs
  cases price <;> cases clientOrderId <;> simp [field_parameter]

/-! ## What the numbers print as -/

theorem notMem_of_isPlain {t : Text} (h : ∀ c ∈ t, Strtod.isPlain c = true) : '&' ∉ t :=
  fun hmem ↦ absurd (h _ hmem) (by decide)

theorem isPlain_of_isDigit {c : Char} (h : c.isDigit = true) : Strtod.isPlain c = true := by
  simp [Strtod.isPlain, h]

theorem isPlain_of_mem_showFixed {k : ℕ} {q : ℚ} {c : Char} (h : c ∈ Decimal.showFixed k q) :
    Strtod.isPlain c = true := by
  rw [Decimal.showFixed, Decimal.showScaled, List.mem_append, List.mem_append] at h
  rcases h with hsign | hint | hfrac
  · split_ifs at hsign
    · rw [List.mem_singleton.mp hsign]
      decide
    · cases hsign
  · exact isPlain_of_isDigit (Decimal.isDigit_of_mem_showNat hint)
  · split_ifs at hfrac
    · cases hfrac
    · rcases List.mem_cons.mp hfrac with rfl | hdigit
      · decide
      · exact isPlain_of_isDigit (Decimal.isDigit_of_mem_leftpad hdigit)

theorem notMem_showNat (n : ℕ) : '&' ∉ Decimal.showNat n :=
  notMem_of_isPlain fun _ hc ↦ isPlain_of_isDigit (Decimal.isDigit_of_mem_showNat hc)

namespace App

open BinanceTestnetExecution

/-! ## The query of a manual order -/

def parameterNames (type : OrderType) : List Text :=
  (["symbol", "side", "type", "quantity"] ++
    (if type = .limit then ["timeInForce", "price"] else []) ++
    ["newClientOrderId", "timestamp", "recvWindow"]).map String.toList

/-- The parameters are those of the order, each of them once. -/
structure EncodesOrder (ps : List (Text × Text)) (req : OrderRequest Double) (id nowMs : ℕ) :
    Prop where
  names : (ps.map Prod.fst).Perm (parameterNames req.type)
  symbol : parameter "symbol" req.symbol ∈ ps
  side : parameter "side" (sideToStr req.side) ∈ ps
  type : parameter "type" (typeToStr req.type) ∈ ps
  quantity : ∃ t x, parameter "quantity" t ∈ ps ∧ Decimal.read t = some x ∧ req.qty = .finite x
  limit : req.type = .limit → parameter "timeInForce" "GTC" ∈ ps ∧
    ∃ t x, parameter "price" t ∈ ps ∧ Decimal.read t = some x ∧ req.limitPrice = .finite x
  clientOrderId : parameter "newClientOrderId" (ApiState.clientOrderId id) ∈ ps
  timestamp : parameter "timestamp" (Decimal.showNat nowMs) ∈ ps
  recvWindow : parameter "recvWindow" "5000" ∈ ps

def manualQuery (nowMs : ℕ) (req : OrderRequest Double) (id : ℕ) : OrderQuery where
  symbol := req.symbol
  side := sideToStr req.side
  type := typeToStr req.type
  quantity := Ostream.showFixed 6 req.qty
  price := if req.type = .limit then some (Ostream.showFixed 2 req.limitPrice) else none
  clientOrderId := some (ApiState.clientOrderId id)
  timestamp := Decimal.showNat nowMs

theorem placeManual_query_eq (s : ApiState) (env : RequestEnv) (req : OrderRequest Double)
    (id : ℕ) : (s.placeManual env req id).query = some (manualQuery env.nowMs req id) := by
  rw [ApiState.placeManual, placeOrder, manualQuery]
  cases req.type <;> rfl

theorem map_fst_manualQuery (nowMs : ℕ) (req : OrderRequest Double) (id : ℕ) :
    (manualQuery nowMs req id).pairs.map Prod.fst = parameterNames req.type := by
  unfold manualQuery OrderQuery.pairs parameterNames
  cases req.type <;> rfl

theorem separable_manualQuery {nowMs : ℕ} {req : OrderRequest Double} {id : ℕ} {qty price : ℚ}
    (hqty : req.qty = .finite qty) (hprice : req.limitPrice = .finite price)
    (hsymbol : '&' ∉ req.symbol) : ∀ p ∈ (manualQuery nowMs req id).pairs, Separable p := by
  have hplain : ∀ (k : ℕ) (q : ℚ), '&' ∉ Ostream.showFixed k (.finite q) :=
    fun k q ↦ notMem_of_isPlain fun c hc ↦ isPlain_of_mem_showFixed hc
  have hside : '&' ∉ sideToStr req.side := by cases req.side <;> decide
  have htype : '&' ∉ typeToStr req.type := by cases req.type <;> decide
  have hid : '&' ∉ ApiState.clientOrderId id := by
    rw [ApiState.clientOrderId, List.mem_append, not_or]
    exact ⟨by decide, notMem_showNat id⟩
  have hname : ∀ p ∈ (manualQuery nowMs req id).pairs, '&' ∉ p.1 ∧ '=' ∉ p.1 := by
    have hnames : ∀ type, ∀ name ∈ parameterNames type, '&' ∉ name ∧ '=' ∉ name := by
      intro type
      cases type <;> decide
    intro p hp
    apply hnames req.type p.1
    rw [← map_fst_manualQuery nowMs req id]
    exact List.mem_map_of_mem hp
  have hvalue : ∀ p ∈ (manualQuery nowMs req id).pairs, '&' ∉ p.2 := by
    have hgtc : '&' ∉ "GTC".toList := by decide
    have hwindow : '&' ∉ "5000".toList := by decide
    have hlimit : ∀ p ∈ (manualQuery nowMs req id).price.elim []
        (fun price ↦ [parameter "timeInForce" "GTC", parameter "price" price]), '&' ∉ p.2 := by
      rw [manualQuery, hprice]
      split_ifs
      · exact List.forall_mem_cons.mpr ⟨hgtc, List.forall_mem_singleton.mpr (hplain 2 price)⟩
      · exact List.forall_mem_nil _
    rw [OrderQuery.pairs, manualQuery, hqty]
    have hnone : ∀ p ∈ ([] : List (Text × Text)), '&' ∉ p.2 := List.forall_mem_nil _
    simp only [List.forall_mem_append, List.forall_mem_cons, parameter, Option.elim_some]
    exact ⟨⟨⟨⟨hsymbol, hside, htype, hplain 6 qty, hnone⟩, hlimit⟩, hid, hnone⟩,
      notMem_showNat nowMs, hwindow, hnone⟩
  exact fun p hp ↦ ⟨(hname p hp).1, (hname p hp).2, hvalue p hp⟩

theorem parameters_manualQuery {nowMs : ℕ} {req : OrderRequest Double} {id : ℕ} {qty price : ℚ}
    (hqty : req.qty = .finite qty) (hprice : req.limitPrice = .finite price)
    (hsymbol : '&' ∉ req.symbol) :
    parameters (manualQuery nowMs req id).text = (manualQuery nowMs req id).pairs := by
  rw [OrderQuery.text_eq]
  refine parameters_intercalate ?_ (separable_manualQuery hqty hprice hsymbol)
  simp [OrderQuery.pairs]

/-- A query with no more parameters than the order has no ampersand within its
symbol. -/
theorem notMem_symbol_of_names {nowMs : ℕ} {req : OrderRequest Double} {id : ℕ}
    (h : ((parameters (manualQuery nowMs req id).text).map Prod.fst).Perm
      (parameterNames req.type)) : '&' ∉ req.symbol := by
  have hlen := h.length_eq
  rw [List.length_map, length_parameters, OrderQuery.text_eq,
    count_intercalate _ (by simp [OrderQuery.pairs]), ← map_fst_manualQuery nowMs req id,
    List.length_map] at hlen
  have hzero : ((manualQuery nowMs req id).pairs.map fun p ↦ (field p).count '&').sum = 0 := by
    omega
  have hcount := List.sum_eq_zero_iff.mp hzero ((field (parameter "symbol" req.symbol)).count '&')
    (List.mem_map_of_mem (by simp [manualQuery, OrderQuery.pairs]))
  intro hmem
  rw [List.count_eq_zero] at hcount
  exact hcount (by simp [field, parameter, hmem])

/-- The query of a manual order encodes the order exactly if its symbol has no
ampersand. -/
theorem order_query_unambiguous_iff (s : ApiState) (env : RequestEnv) (req : OrderRequest Double)
    (id : ℕ) {qty price : ℚ} (hqty : req.qty = .finite qty) (hqty6 : Decimal.HasDecimals 6 qty)
    (hprice : req.limitPrice = .finite price) (hprice2 : Decimal.HasDecimals 2 price) :
    (∃ query, (s.placeManual env req id).query = some query ∧
      EncodesOrder (parameters query.text) req id env.nowMs) ↔ '&' ∉ req.symbol := by
  rw [placeManual_query_eq]
  simp only [Option.some.injEq, exists_eq_left']
  refine ⟨fun h ↦ notMem_symbol_of_names h.names, fun hsymbol ↦ ?_⟩
  rw [parameters_manualQuery hqty hprice hsymbol]
  have hread : ∀ (k : ℕ) (q : ℚ), 0 < k → Decimal.HasDecimals k q →
      Decimal.read (Ostream.showFixed k (.finite q)) = some q := by
    intro k q hk hq
    have hround := (Decimal.roundTo_eq_self_iff k q).mpr hq
    exact (Decimal.read_showFixed k hk q).trans (congrArg some hround)
  constructor
  case names => rw [map_fst_manualQuery]
  case symbol => simp [manualQuery, OrderQuery.pairs]
  case side => simp [manualQuery, OrderQuery.pairs]
  case type => simp [manualQuery, OrderQuery.pairs]
  case quantity =>
    exact
      ⟨_, qty, by simp [manualQuery, OrderQuery.pairs, hqty], hread 6 qty (by decide) hqty6, hqty⟩
  case limit =>
    intro hlimit
    refine ⟨by simp [manualQuery, OrderQuery.pairs, hlimit], Ostream.showFixed 2 req.limitPrice,
      price, by simp [manualQuery, OrderQuery.pairs, hlimit], ?_, hprice⟩
    rw [hprice]
    exact hread 2 price (by decide) hprice2
  case clientOrderId => simp [manualQuery, OrderQuery.pairs]
  case timestamp => simp [manualQuery, OrderQuery.pairs]
  case recvWindow => simp [manualQuery, OrderQuery.pairs]

/-- An order of 1.5 at 5.25. -/
def limitOrder (symbol : Text) : OrderRequest Double :=
  ⟨symbol, .buy, .limit, .finite 1.5, .finite 5.25⟩

theorem order_query_unambiguous_plain :
    ∃ query,
      ((ApiState.start liveStartup).placeManual (quietEnv 1) (limitOrder "BTCUSDT") 1).query =
        some query ∧ EncodesOrder (parameters query.text) (limitOrder "BTCUSDT") 1 1 :=
  (order_query_unambiguous_iff (ApiState.start liveStartup) (quietEnv 1) (limitOrder "BTCUSDT") 1
    rfl (by decide +kernel) rfl (by decide +kernel)).mpr (by decide)

/-- A symbol that brings a quantity of its own. -/
theorem symbol_overrides_quantity :
    ¬ ∀ (s : ApiState) (env : RequestEnv) (req : OrderRequest Double) (id : ℕ) (qty price : ℚ),
      '"' ∉ req.symbol → req.qty = .finite qty → Decimal.HasDecimals 6 qty →
        req.limitPrice = .finite price → Decimal.HasDecimals 2 price →
          ∃ query, (s.placeManual env req id).query = some query ∧
            EncodesOrder (parameters query.text) req id env.nowMs := by
  intro h
  obtain ⟨query, hquery, hencodes⟩ := h (ApiState.start liveStartup) (quietEnv 1)
    (limitOrder "BTCUSDT&quantity=900") 1 1.5 5.25 (by decide) rfl (by decide +kernel) rfl
    (by decide +kernel)
  rw [placeManual_query_eq] at hquery
  obtain rfl := Option.some.inj hquery
  exact absurd (notMem_symbol_of_names hencodes.names) (by decide)

end App

end FrogQuant
