import FrogQuant.App.Effects
import FrogQuant.App.ServiceRuns
import FrogQuant.Lib.Recent

/-!
# The list of orders

`GET /orders` serves a second copy of the orders: the items of the most recent
submissions, with the status they had then.
-/

namespace FrogQuant.App

namespace ApiState

variable (s : ApiState)

/-- The item that an event adds to the list. -/
def submittedItem (e : ApiEvent) : Option ApiOrderItem :=
  match s.effect e with
  | .order nowMs req =>
      orderItem (s.core.submitManualOrder nowMs req).1 nowMs s.core.nextId
  | _ => none

/-- A manual order that is answered 200. -/
def AnswersOrder : ApiEvent → Prop
  | .request env req =>
      Route.of req.method req.target = some .postManualOrder ∧ (s.handle env req).2.status = 200
  | .tick _ _ => False

theorem requestEffect_ne_order (env : RequestEnv) (body : Text) {route : Option Route}
    (h : route ≠ some .postManualOrder) (nowMs : ℕ) (req : OrderRequest Double) :
    s.requestEffect env body route ≠ .order nowMs req := by
  intro heffect
  apply h
  apply s.route_of_effect env body
  rw [heffect]
  rfl

theorem exists_submittedItem_order (hc : s.core.Settled) {e : ApiEvent} {nowMs : ℕ}
    {req : OrderRequest Double} (h : s.effect e = .order nowMs req) :
    ∃ item, s.submittedItem e = some item := by
  obtain ⟨ord, hord⟩ := s.core.exists_getOrder_submit nowMs req hc
  simp only [submittedItem, h, orderItem, hord]
  exact ⟨_, rfl⟩

theorem answersOrder_iff (hc : s.core.Settled) (e : ApiEvent) :
    s.AnswersOrder e ↔ ∃ item, s.submittedItem e = some item := by
  cases e with
  | tick nowMs t => simp [AnswersOrder, submittedItem, effect]
  | request env req =>
      by_cases hroute : Route.of req.method req.target = some .postManualOrder
      · have heffect : s.effect (.request env req) =
            s.requestEffect env req.body (some .postManualOrder) := by rw [effect, hroute]
        simp only [AnswersOrder, hroute, true_and, handle, answer]
        by_cases hqty : (s.manualRequest req.body).qty ≤ 0
        · apply iff_of_false
          · simp only [postManualOrder, hqty, if_true]
            exact fun h ↦ absurd h (by decide)
          · rintro ⟨item, hitem⟩
            rw [submittedItem, heffect, requestEffect, if_pos hqty] at hitem
            cases hitem
        · obtain ⟨ord, -, hreply⟩ := s.postManualOrder_reply env req.body hc hqty
          have horder :
              s.effect (.request env req) = .order env.nowMs (s.manualRequest req.body) := by
            rw [heffect, requestEffect, if_neg hqty]
          exact iff_of_true (by rw [hreply]; rfl) (s.exists_submittedItem_order hc horder)
      · refine iff_of_false (fun h ↦ hroute h.1) ?_
        rintro ⟨item, hitem⟩
        rw [submittedItem] at hitem
        split at hitem
        · next nowMs r heffect =>
            exact s.requestEffect_ne_order env req.body hroute nowMs r heffect
        · cases hitem

theorem orders_next (e : ApiEvent) :
    (apiMachine.next s e).orders =
      match s.submittedItem e with
      | none => s.orders
      | some item => Recent.push s.maxOrders s.orderTrimBatch s.orders item := by
  rw [(s.next_eq e).congr orders fun _ _ ↦ rfl, submittedItem]
  cases s.effect e with
  | order nowMs req =>
      simp only [apply]
      cases orderItem (s.core.submitManualOrder nowMs req).1 nowMs s.core.nextId <;> rfl
  | _ => rfl

theorem cacheSizes_next (e : ApiEvent) :
    (apiMachine.next s e).maxOrders = s.maxOrders ∧
      (apiMachine.next s e).orderTrimBatch = s.orderTrimBatch := by
  rw [(s.next_eq e).congr maxOrders fun _ _ ↦ rfl, (s.next_eq e).congr orderTrimBatch fun _ _ ↦ rfl]
  cases s.effect e <;> exact ⟨rfl, rfl⟩

end ApiState

/-- The items of all orders that a run submits, in order. -/
def submitted (b : Startup) (es : List ApiEvent) : List ApiOrderItem :=
  apiMachine.collect ApiState.submittedItem (.start b) es

theorem submitted_concat (b : Startup) (es : List ApiEvent) (e : ApiEvent) :
    submitted b (es ++ [e]) = submitted b es ++ ((service b es).submittedItem e).toList :=
  apiMachine.collect_concat _ _ es e

theorem cacheSizes (b : Startup) (es : List ApiEvent) :
    (service b es).maxOrders = max 100 b.cfg.maxOrdersCache ∧
      (service b es).orderTrimBatch = max 1 b.cfg.orderTrimBatch := by
  refine apiMachine.run_invariant (P := fun s ↦ s.maxOrders = max 100 b.cfg.maxOrdersCache ∧
    s.orderTrimBatch = max 1 b.cfg.orderTrimBatch) (fun s e h ↦ ?_) ⟨rfl, rfl⟩ es
  obtain ⟨hmax, hbatch⟩ := s.cacheSizes_next e
  rw [hmax, hbatch]
  exact h

/-- The list is what is kept of all orders submitted. -/
theorem service_orders (b : Startup) (es : List ApiEvent) :
    (service b es).orders =
      Recent.recent (max 100 b.cfg.maxOrdersCache) (max 1 b.cfg.orderTrimBatch)
        (submitted b es) := by
  induction es using List.reverseRecOn with
  | nil => rfl
  | append_singleton es e ih =>
      rw [service, Machine.run_concat, ApiState.orders_next, submitted_concat]
      cases (service b es).submittedItem e with
      | none => simpa using ih
      | some item =>
          obtain ⟨hmax, hbatch⟩ := cacheSizes b es
          rw [Option.toList_some, Recent.recent_concat, ← ih]
          simp only [hmax, hbatch]

/-- After every order answered 200 the list is a non-empty suffix of all orders
submitted so far that holds the order, and is not longer than the cap. -/
def ShowsNewest (b : Startup) (es : List ApiEvent) : Prop :=
  ∀ xs e, xs ++ [e] <+: es → (service b xs).AnswersOrder e →
    (service b (xs ++ [e])).orders ≠ [] ∧
    (service b (xs ++ [e])).orders <:+ submitted b (xs ++ [e]) ∧
    (∃ item ∈ (service b (xs ++ [e])).orders, (service b xs).submittedItem e = some item) ∧
    (service b (xs ++ [e])).orders.length ≤ (service b (xs ++ [e])).maxOrders

theorem orders_show_newest_iff (b : Startup) (es : List ApiEvent) :
    ShowsNewest b es ↔
      max 1 b.cfg.orderTrimBatch ≤ max 100 b.cfg.maxOrdersCache ∨
        (submitted b es).length ≤ max 100 b.cfg.maxOrdersCache := by
  rw [← Recent.newest_mem_recent_iff (le_max_left _ _)]
  constructor
  · rintro h ys x ⟨zs, hzs⟩
    have hcollect : submitted b es = ys ++ x :: zs := by rw [← hzs, List.append_assoc]; rfl
    obtain ⟨xs, e, rest, rfl, rfl, hitem⟩ := apiMachine.exists_of_collect_eq _ hcollect
    have hprefix : xs ++ [e] <+: xs ++ e :: rest := ⟨rest, by simp⟩
    have hanswers := ((service b xs).answersOrder_iff (service_settled b xs) e).mpr ⟨x, hitem⟩
    obtain ⟨-, -, ⟨item, hmem, hitem'⟩, -⟩ := h xs e hprefix hanswers
    obtain rfl : x = item := Option.some.inj (hitem.symm.trans hitem')
    rwa [service_orders, submitted_concat, hitem] at hmem
  · rintro h xs e ⟨rest, rfl⟩ hanswers
    obtain ⟨item, hitem⟩ :=
      ((service b xs).answersOrder_iff (service_settled b xs) e).mp hanswers
    have hsubmitted : submitted b (xs ++ [e]) = submitted b xs ++ [item] := by
      rw [submitted_concat, hitem, Option.toList_some]
    have hprefix : submitted b xs ++ [item] <+: submitted b (xs ++ [e] ++ rest) := by
      rw [← hsubmitted, submitted, submitted, apiMachine.collect_append _ _ (xs ++ [e])]
      exact List.prefix_append _ _
    have hmem := h _ _ hprefix
    rw [service_orders, hsubmitted, (cacheSizes b (xs ++ [e])).1]
    exact ⟨List.ne_nil_of_mem hmem, Recent.recent_suffix _, ⟨item, hmem, hitem⟩,
      Recent.length_recent_le (le_max_left _ _) _⟩

/-- A list of at most 100 orders from which 500 are dropped at once. -/
def smallCacheStartup : Startup :=
  { liveStartup with
    cfg := { AppConfig.default with maxOrdersCache := 100, orderTrimBatch := 500 } }

def oneOrder : ApiEvent :=
  .request (quietEnv 1) ⟨"POST", "/trade/manual/order", "\x7b\"qty\":1\x7d"⟩

theorem exists_submittedItem_oneOrder (b : Startup) (es : List ApiEvent) :
    ∃ item, (service b es).submittedItem oneOrder = some item := by
  have hroute : Route.of "POST" "/trade/manual/order" = some .postManualOrder := by decide +kernel
  have hnumber : jsonGetNumber "\x7b\"qty\":1\x7d" "qty" = some (.finite 1) := by decide +kernel
  have hread : ((service b es).manualRequest "\x7b\"qty\":1\x7d").qty = .finite 1 := by
    change (jsonGetNumber "\x7b\"qty\":1\x7d" "qty").getD 0 = _
    rw [hnumber, Option.getD_some]
  have hqty : ¬ ((service b es).manualRequest "\x7b\"qty\":1\x7d").qty ≤ 0 := by
    rw [hread, Double.finite_le_zero]
    norm_num
  have horder : (service b es).effect oneOrder =
      .order 1 ((service b es).manualRequest "\x7b\"qty\":1\x7d") := by
    change (service b es).requestEffect (quietEnv 1) "\x7b\"qty\":1\x7d"
      (Route.of "POST" "/trade/manual/order") = _
    rw [hroute, ApiState.requestEffect, if_neg hqty]
    rfl
  exact ApiState.exists_submittedItem_order _ (service_settled b es) horder

theorem length_submitted_oneOrders (b : Startup) (n : ℕ) :
    (submitted b (List.replicate n oneOrder)).length = n := by
  induction n with
  | zero => rfl
  | succ n ih =>
      obtain ⟨item, hitem⟩ := exists_submittedItem_oneOrder b (List.replicate n oneOrder)
      rw [List.replicate_succ', submitted_concat, hitem]
      simp [ih]

/-- The order that overflows the list is dropped with all the others. -/
theorem overflow_empties_orders :
    ¬ ShowsNewest smallCacheStartup (List.replicate 101 oneOrder) := by
  intro h
  obtain ⟨item, hitem⟩ :=
    exists_submittedItem_oneOrder smallCacheStartup (List.replicate 100 oneOrder)
  have hanswers := (ApiState.answersOrder_iff _ (service_settled _ _) oneOrder).mpr ⟨item, hitem⟩
  obtain ⟨hne, -⟩ := h (List.replicate 100 oneOrder) oneOrder
    (by rw [← List.replicate_succ']) hanswers
  have hlen := length_submitted_oneOrders smallCacheStartup 100
  have hcap : max 100 smallCacheStartup.cfg.maxOrdersCache = 100 := rfl
  have hbatch : max 1 smallCacheStartup.cfg.orderTrimBatch = 500 := rfl
  rw [service_orders, submitted_concat, hitem, Option.toList_some, hcap, hbatch,
    Recent.recent_concat, Recent.recent_of_length_le hlen.le,
    Recent.push_full hlen (by decide)] at hne
  exact hne rfl

/-! ## The status of the items -/

namespace ApiState

variable {s s' : ApiState}

/-- Every item has the status and the reason of the record in the store. -/
def Truthful (s : ApiState) : Prop :=
  ∀ o ∈ s.orders, ∃ r, s.core.getOrder o.internalId = some r ∧
    o.status = statusToStr r.status ∧ o.rejectReason = rejectToStr r.rejectReason

/-- A cancellation that succeeds on an order of the list. -/
def CancelsListed (s : ApiState) (e : ApiEvent) : Prop :=
  ∃ nowMs id, s.effect e = .cancel nowMs id ∧ (∃ o ∈ s.orders, o.internalId = id) ∧
    ∃ r, s.core.getOrder id = some r ∧ r.status = .accepted

theorem truthful_congr (horders : s'.orders = s.orders)
    (hget : ∀ id, s'.core.getOrder id = s.core.getOrder id) : s'.Truthful ↔ s.Truthful := by
  simp only [Truthful, horders, hget]

theorem truthful_apply_order (hc : s.core.Settled) (h : s.Truthful) (nowMs : ℕ)
    (req : OrderRequest Double) : (s.apply (.order nowMs req)).Truthful := by
  obtain ⟨ord, hord⟩ := s.core.exists_getOrder_submit nowMs req hc
  have hkept : ∀ id r, s.core.getOrder id = some r →
      (s.core.submitManualOrder nowMs req).1.getOrder id = some r := by
    intro id r hr
    have hnext := TradingCore.get_next_of_present hc hr (.submit nowMs req)
    simpa [CoreOp.cancels, TradingCore.getOrder] using hnext
  simp only [apply, orderItem, hord, Option.map_some]
  intro o ho
  have hmem : o ∈ s.orders ++
      [⟨s.core.nextId, statusToStr ord.status, rejectToStr ord.rejectReason, nowMs⟩] :=
    (Recent.push_suffix s.orders _).subset ho
  rcases List.mem_append.mp hmem with hold | hnew
  · obtain ⟨r, hr, hstatus⟩ := h o hold
    exact ⟨r, hkept _ r hr, hstatus⟩
  · obtain rfl := List.mem_singleton.mp hnew
    exact ⟨ord, hord, rfl, rfl⟩

theorem truthful_apply_cancel_iff (h : s.Truthful) (nowMs id : ℕ) :
    (s.apply (.cancel nowMs id)).Truthful ↔
      ¬ ((∃ o ∈ s.orders, o.internalId = id) ∧
        ∃ r, s.core.getOrder id = some r ∧ r.status = .accepted) := by
  have hget : ∀ id', (s.apply (.cancel nowMs id)).core.getOrder id' =
      if id' = id then (s.core.getOrder id).map fun r ↦
        if r.status = .accepted then { r with status := .cancelled } else r
      else s.core.getOrder id' := s.core.oms.get_cancel id
  constructor
  · rintro htrue ⟨⟨o, ho, rfl⟩, r, hr, hacc⟩
    obtain ⟨r₀, hr₀, hstatus₀, -⟩ := h o ho
    obtain rfl : r = r₀ := Option.some.inj (hr.symm.trans hr₀)
    obtain ⟨r₁, hr₁, hstatus₁, -⟩ := htrue o ho
    rw [hget, if_pos rfl, hr, Option.map_some, if_pos hacc] at hr₁
    obtain rfl := Option.some.inj hr₁
    have hne : statusToStr .accepted ≠ statusToStr .cancelled := by decide
    rw [hstatus₀, hacc] at hstatus₁
    exact absurd hstatus₁ hne
  · intro hnot o ho
    obtain ⟨r, hr, hstatus⟩ := h o ho
    refine ⟨r, ?_, hstatus⟩
    rw [hget]
    split_ifs with hid
    · have hacc : r.status ≠ .accepted := fun hacc ↦
        hnot ⟨⟨o, ho, hid⟩, r, hid ▸ hr, hacc⟩
      rw [← hid, hr, Option.map_some, if_neg hacc]
    · exact hr

/-- Where the list is truthful, a step keeps it so exactly if it cancels no
order of the list. -/
theorem truthful_next_iff (hc : s.core.Settled) (h : s.Truthful) (e : ApiEvent) :
    (apiMachine.next s e).Truthful ↔ ¬ s.CancelsListed e := by
  have hnext : (apiMachine.next s e).Truthful ↔ (s.apply (s.effect e)).Truthful :=
    iff_of_eq ((s.next_eq e).congr Truthful fun _ _ ↦ rfl)
  rw [hnext, CancelsListed]
  cases heffect : s.effect e with
  | cancel nowMs id =>
      rw [truthful_apply_cancel_iff h]
      refine not_congr ⟨fun hbad ↦ ⟨nowMs, id, rfl, hbad⟩, ?_⟩
      rintro ⟨nowMs', id', heq, hbad⟩
      cases heq
      exact hbad
  | order nowMs req => exact iff_of_true (truthful_apply_order hc h nowMs req) (by simp)
  | _ => exact iff_of_true ((truthful_congr rfl fun _ ↦ rfl).mpr h) (by simp)

end ApiState

/-- The list tells the status of the store in every state of a run exactly if
no step cancels an order that is on it. -/
theorem orders_list_truthful_iff (b : Startup) (es : List ApiEvent) :
    (∀ xs, xs <+: es → (service b xs).Truthful) ↔
      apiMachine.AllSteps (fun s e ↦ ¬ s.CancelsListed e) (.start b) es := by
  have hstart : (ApiState.start b).Truthful := fun o ho ↦ absurd ho List.not_mem_nil
  rw [apiMachine.forall_prefix_iff_allSteps hstart]
  refine apiMachine.allSteps_congr (fun s ↦ s.core.Settled ∧ s.Truthful)
    (fun s e h ↦ ApiState.truthful_next_iff h.1 h.2 e) (fun s e h hstep ↦ ?_) es
    ⟨TradingCore.settled_init b.riskCfg, hstart⟩
  exact ⟨s.settled_next h.1 e, (ApiState.truthful_next_iff h.1 h.2 e).mpr hstep⟩

/-- A limit order that the limits let through, and its cancellation. -/
def orderThenCancel : List ApiEvent :=
  [.request (quietEnv 1) ⟨"POST", "/trade/manual/order",
      "\x7b\"type\":\"LIMIT\",\"qty\":1,\"price\":5\x7d"⟩,
    .request (quietEnv 2) ⟨"POST", "/trade/manual/cancel", "\x7b\"internal_order_id\":1\x7d"⟩]

theorem cancelled_order_listed_as_accepted :
    ¬ ∀ xs, xs <+: orderThenCancel → (service liveStartup xs).Truthful := by
  intro h
  have horders : (service liveStartup orderThenCancel).orders =
      [⟨1, "Accepted", "None", 1⟩] := by decide +kernel
  have hstatus : ((service liveStartup orderThenCancel).core.getOrder 1).map OrderRecord.status =
      some .cancelled := by decide +kernel
  obtain ⟨r, hr, hitem, -⟩ := h orderThenCancel List.prefix_rfl ⟨1, "Accepted", "None", 1⟩
    (by rw [horders]; exact List.mem_singleton_self _)
  rw [hr, Option.map_some, Option.some.injEq] at hstatus
  rw [hstatus] at hitem
  exact absurd hitem (by decide)

end FrogQuant.App
