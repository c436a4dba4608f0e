import FrogQuant.Core.TradingCore

/-!
# The core as an append-only journal

The OMS of a running core is a journal of the submissions made to it: ids are
dealt out in order, every submission is kept under its id with the decision it
got, and the only later change is the first cancellation of an accepted order.
-/

namespace FrogQuant

variable {α : Type}

namespace CoreOp

def isSubmit : CoreOp α → Bool
  | submit _ _ => true
  | _ => false

def cancels (id : ℕ) : CoreOp α → Bool
  | cancel _ id' => id' = id
  | _ => false

end CoreOp

def CoreAnswer.orderId? : CoreAnswer → Option ℕ
  | orderId id => some id
  | _ => none

def submitCount (ops : List (CoreOp α)) : ℕ := ops.countP CoreOp.isSubmit

/-- The price of the last tick of a run, of whatever symbol; 0 before any. -/
def lastTickPrice [Zero α] (ops : List (CoreOp α)) : α :=
  ops.foldl (fun p op ↦ match op with | .tick _ t => t.price | _ => p) 0

theorem submitCount_concat (ops : List (CoreOp α)) (op : CoreOp α) :
    submitCount (ops ++ [op]) = submitCount ops + if op.isSubmit then 1 else 0 := by
  simp [submitCount, List.countP_append, List.countP_singleton]

theorem lastTickPrice_concat [Zero α] (ops : List (CoreOp α)) (op : CoreOp α) :
    lastTickPrice (ops ++ [op]) =
      match op with
      | .tick _ t => t.price
      | _ => lastTickPrice ops := by
  simp only [lastTickPrice, List.foldl_append, List.foldl_cons, List.foldl_nil]

namespace TradingCore

variable [Floating α]

/-! ## A record after it has been entered -/

section Record

variable {c : TradingCore α} {id : ℕ} {r : OrderRecord α}

/-- One step changes a present record only by cancelling it. -/
theorem get_next_of_present (hc : c.Settled) (h : c.oms.get id = some r) (op : CoreOp α) :
    ((coreMachine α).next c op).oms.get id =
      some
        (if r.status = .accepted ∧ op.cancels id then { r with status := .cancelled } else r) := by
  cases op with
  | tick nowMs tick => simpa [CoreOp.cancels] using h
  | updateRisk cfg => simpa [CoreOp.cancels] using h
  | submit nowMs req =>
      cases hfresh : c.oms.get c.nextId with
      | some r' => simpa [CoreOp.cancels, c.submitManualOrder_taken nowMs req hc hfresh] using h
      | none =>
          have hne : id ≠ c.nextId := by
            rintro rfl
            rw [h] at hfresh
            cases hfresh
          simpa [CoreOp.cancels, c.submitManualOrder_fresh nowMs req hfresh, hne] using h
  | cancel nowMs id' =>
      rw [next_cancel, Oms.get_cancel]
      by_cases hid : id = id'
      · subst hid
        simp only [if_true, h, Option.map_some, CoreOp.cancels, decide_true, and_true]
      · simp [CoreOp.cancels, hid, Ne.symm hid, h]

/-- A run changes a present record only by its first cancellation. -/
theorem get_run_of_present (hc : c.Settled) (h : c.oms.get id = some r) (ops : List (CoreOp α)) :
    ((coreMachine α).run c ops).oms.get id =
      some (if r.status = .accepted ∧ ops.any (CoreOp.cancels id)
        then { r with status := .cancelled } else r) := by
  induction ops generalizing c r with
  | nil => simpa using h
  | cons op ops ih =>
      have hnext := get_next_of_present hc h op
      rw [Machine.run_cons, ih (c.settled_next hc op) hnext]
      by_cases hacc : r.status = .accepted
      · cases hop : op.cancels id <;> simp [hacc, hop]
      · simp [hacc]

end Record

/-! ## The price, the counter and the keys follow the history -/

theorem lastPrice_after (cfg : RiskConfig α) (ops : List (CoreOp α)) :
    (after cfg ops).lastPrice = lastTickPrice ops := by
  induction ops using List.reverseRecOn with
  | nil => rfl
  | append_singleton ops op ih =>
      rw [after_concat, lastTickPrice_concat]
      cases op with
      | tick nowMs tick => rfl
      | updateRisk cfg' => exact ih
      | cancel nowMs id => exact ih
      | submit nowMs req => exact ((after cfg ops).submitManualOrder_frame nowMs req).2.1.trans ih

structure InStep (ops : List (CoreOp α)) (c : TradingCore α) : Prop where
  seq : c.seq = submitCount ops
  present : ∀ id, (c.oms.get id).isSome ↔ 1 ≤ id ∧ id ≤ submitCount ops

omit [Floating α] in
theorem InStep.nextId {ops : List (CoreOp α)} {c : TradingCore α} (h : InStep ops c)
    (hn : submitCount ops + 1 < 2 ^ 64) : c.nextId = submitCount ops + 1 := by
  rw [TradingCore.nextId, h.seq, Nat.mod_eq_of_lt hn]

omit [Floating α] in
theorem InStep.fresh {ops : List (CoreOp α)} {c : TradingCore α} (h : InStep ops c)
    (hn : submitCount ops + 1 < 2 ^ 64) : c.oms.get c.nextId = none := by
  rw [h.nextId hn, ← Option.not_isSome_iff_eq_none, h.present]
  omega

theorem inStep_after (cfg : RiskConfig α) (ops : List (CoreOp α)) (hn : submitCount ops < 2 ^ 64) :
    InStep ops (after cfg ops) := by
  induction ops using List.reverseRecOn with
  | nil =>
      refine ⟨rfl, fun id ↦ ?_⟩
      have hempty : (after cfg []).oms.get id = none := rfl
      rw [hempty]
      simp [submitCount]
      omega
  | append_singleton ops op ih =>
      have hcount := submitCount_concat ops op
      have h := ih (by omega)
      rw [after_concat]
      cases op with
      | tick nowMs tick =>
          simp only [CoreOp.isSubmit, Bool.false_eq_true, if_false, add_zero] at hcount
          exact ⟨hcount ▸ h.seq, hcount ▸ h.present⟩
      | updateRisk cfg' =>
          simp only [CoreOp.isSubmit, Bool.false_eq_true, if_false, add_zero] at hcount
          exact ⟨hcount ▸ h.seq, hcount ▸ h.present⟩
      | cancel nowMs id =>
          simp only [CoreOp.isSubmit, Bool.false_eq_true, if_false, add_zero] at hcount
          refine ⟨hcount ▸ h.seq, fun id' ↦ ?_⟩
          rw [hcount, next_cancel, Oms.get_cancel]
          split_ifs with hid
          · subst hid
            simpa using h.present id'
          · exact h.present id'
      | submit nowMs req =>
          simp only [CoreOp.isSubmit, if_true] at hcount
          have hid := h.nextId (by omega)
          obtain ⟨-, -, hseq⟩ := (after cfg ops).submitManualOrder_frame nowMs req
          refine ⟨by rw [hcount, next_submit, hseq, hid], fun id' ↦ ?_⟩
          rw [next_submit, submitManualOrder_fresh _ nowMs req (h.fresh (by omega)), hcount]
          simp only [Oms.get_insert, hid]
          split_ifs with hid'
          · simp [hid']
          · rw [h.present id']
            omega

/-! ## Decisions and reasons -/

def Explained (c : TradingCore α) : Prop :=
  ∀ id r, c.oms.get id = some r →
    (r.rejectReason = .none ↔ r.status = .accepted ∨ r.status = .cancelled)

theorem explained_after (cfg : RiskConfig α) (ops : List (CoreOp α)) :
    (after cfg ops).Explained := by
  induction ops using List.reverseRecOn with
  | nil =>
      intro id r hr
      simp [init] at hr
  | append_singleton ops op ih =>
      rw [after_concat]
      intro id r hr
      cases op with
      | tick nowMs tick => exact ih id r hr
      | updateRisk cfg' => exact ih id r hr
      | cancel nowMs id' =>
          rw [next_cancel, Oms.get_cancel] at hr
          split_ifs at hr
          · obtain ⟨r₀, hr₀, rfl⟩ := Option.map_eq_some_iff.mp hr
            have hr₀' := ih id' r₀ hr₀
            split_ifs with hacc
            · simpa [hacc] using hr₀'
            · exact hr₀'
          · exact ih id r hr
      | submit nowMs req =>
          cases hfresh : (after cfg ops).oms.get (after cfg ops).nextId with
          | some r' =>
              rw [next_submit,
                submitManualOrder_taken _ nowMs req (settled_after cfg ops) hfresh] at hr
              exact ih id r hr
          | none =>
              rw [next_submit, submitManualOrder_fresh _ nowMs req hfresh] at hr
              simp only [Oms.get_insert] at hr
              split_ifs at hr
              · obtain rfl := Option.some.inj hr
                rw [settle_status_eq_accepted_iff, settle_rejectReason, settle_status]
                split_ifs <;> simp_all
              · exact ih id r hr

/-! ## The journal of a run -/

/-- The decision on the submission made after `pre` was to accept it. -/
def AcceptedAtSubmission (cfg : RiskConfig α) (pre : List (CoreOp α)) (nowMs : ℕ)
    (req : OrderRequest α) : Prop :=
  ∃ r, (after cfg (pre ++ [.submit nowMs req])).getOrder (submitCount pre + 1) = some r ∧
    r.status = .accepted

/-- The core after `ops` is the journal of the submissions in `ops`; the one
made after `pre` is the entry number `submitCount pre + 1`. -/
structure RefinesJournal (cfg : RiskConfig α) (ops : List (CoreOp α)) : Prop where
  /-- Ids are returned in order. -/
  ids : ((coreMachine α).outputs (init cfg) ops).filterMap CoreAnswer.orderId? =
    List.range' 1 (submitCount ops)
  /-- There is a record for every submission and no other. -/
  present : ∀ id, ((after cfg ops).getOrder id).isSome ↔ 1 ≤ id ∧ id ≤ submitCount ops
  /-- A record carries its request and the price of its moment. -/
  entry : ∀ pre nowMs req post, ops = pre ++ .submit nowMs req :: post →
    ∃ r, (after cfg ops).getOrder (submitCount pre + 1) = some r ∧
      r.orderId = submitCount pre + 1 ∧ r.symbol = req.symbol ∧ r.side = req.side ∧
      r.type = req.type ∧ r.qty = req.qty ∧
      r.refPrice = if req.type = .limit ∧ 0 < req.limitPrice then req.limitPrice
        else lastTickPrice pre
  /-- Every record is decided, and gives a reason exactly when rejected. -/
  decided : ∀ id r, (after cfg ops).getOrder id = some r →
    r.status ≠ .new ∧ (r.rejectReason = .none ↔ r.status = .accepted ∨ r.status = .cancelled)
  /-- An order is cancelled by a cancellation after its acceptance. -/
  cancelled : ∀ pre nowMs req post, ops = pre ++ .submit nowMs req :: post →
    ((∃ r, (after cfg ops).getOrder (submitCount pre + 1) = some r ∧ r.status = .cancelled) ↔
      AcceptedAtSubmission cfg pre nowMs req ∧ post.any (CoreOp.cancels (submitCount pre + 1)))
  /-- The first cancellation of an accepted order succeeds and no other. -/
  cancelAnswer : ∀ pre nowMs req mid nowMs' post,
    ops = pre ++ .submit nowMs req :: (mid ++ .cancel nowMs' (submitCount pre + 1) :: post) →
    ((coreMachine α).out (after cfg (pre ++ .submit nowMs req :: mid))
        (.cancel nowMs' (submitCount pre + 1)) = .cancelled true ↔
      AcceptedAtSubmission cfg pre nowMs req ∧ ¬ mid.any (CoreOp.cancels (submitCount pre + 1)))
  /-- The id of a submission is never in use: the store takes the record. -/
  fresh : ∀ pre nowMs req post, ops = pre ++ .submit nowMs req :: post →
    ((after cfg pre).oms.submit ((after cfg pre).newOrder nowMs req)).2 = true

section Split

variable (cfg : RiskConfig α) {pre : List (CoreOp α)} (post : List (CoreOp α)) (nowMs : ℕ)
  (req : OrderRequest α)

theorem getOrder_of_fresh (h : (after cfg pre).oms.get (after cfg pre).nextId = none) :
    (after cfg (pre ++ .submit nowMs req :: post)).getOrder (after cfg pre).nextId =
      some (if (after cfg pre).verdict req = .none ∧
          post.any (CoreOp.cancels (after cfg pre).nextId)
        then { settle ((after cfg pre).newOrder nowMs req) ((after cfg pre).verdict req) with
          status := .cancelled }
        else settle ((after cfg pre).newOrder nowMs req) ((after cfg pre).verdict req)) := by
  have hsettled := settled_submit (after cfg pre) nowMs req (settled_after cfg pre)
  have hentered : ((after cfg pre).submitManualOrder nowMs req).1.oms.get (after cfg pre).nextId =
      some (settle ((after cfg pre).newOrder nowMs req) ((after cfg pre).verdict req)) := by
    rw [submitManualOrder_fresh _ nowMs req h]
    simp
  rw [getOrder, after, Machine.run_append, Machine.run_cons, next_submit,
    get_run_of_present hsettled hentered]
  simp only [settle_status_eq_accepted_iff]

theorem getOrder_split (hn : submitCount pre + 1 < 2 ^ 64) :
    (after cfg (pre ++ .submit nowMs req :: post)).getOrder (submitCount pre + 1) =
      some (if (after cfg pre).verdict req = .none ∧
          post.any (CoreOp.cancels (submitCount pre + 1))
        then { settle ((after cfg pre).newOrder nowMs req) ((after cfg pre).verdict req) with
          status := .cancelled }
        else settle ((after cfg pre).newOrder nowMs req) ((after cfg pre).verdict req)) := by
  have h := inStep_after cfg pre (by omega)
  have hget := getOrder_of_fresh cfg post nowMs req (h.fresh hn)
  rwa [h.nextId hn] at hget

theorem acceptedAtSubmission_iff (hn : submitCount pre + 1 < 2 ^ 64) :
    AcceptedAtSubmission cfg pre nowMs req ↔ (after cfg pre).verdict req = .none := by
  rw [AcceptedAtSubmission, getOrder_split cfg [] nowMs req hn]
  simp

omit [Floating α] in
theorem submitCount_split_lt {ops : List (CoreOp α)} (hn : submitCount ops < 2 ^ 64)
    (hops : ops = pre ++ .submit nowMs req :: post) : submitCount pre + 1 < 2 ^ 64 := by
  have hcount : submitCount ops = submitCount pre + (submitCount post + 1) := by
    rw [hops, submitCount, List.countP_append, List.countP_cons_of_pos rfl]
    rfl
  omega

end Split

theorem ids_of_run (cfg : RiskConfig α) {ops : List (CoreOp α)} (hn : submitCount ops < 2 ^ 64) :
    ((coreMachine α).outputs (init cfg) ops).filterMap CoreAnswer.orderId? =
      List.range' 1 (submitCount ops) := by
  induction ops using List.reverseRecOn with
  | nil => rfl
  | append_singleton ops op ih =>
      have hcount := submitCount_concat ops op
      have h := inStep_after cfg ops (by omega)
      rw [Machine.outputs_append, List.filterMap_append, ih (by omega), hcount]
      cases op with
      | submit nowMs req =>
          have hid := h.nextId (by simp only [CoreOp.isSubmit, if_true] at hcount; omega)
          simp [CoreOp.isSubmit, CoreAnswer.orderId?, hid, List.range'_concat, Nat.add_comm]
      | tick nowMs tick => exact List.append_nil _
      | cancel nowMs id => exact List.append_nil _
      | updateRisk cfg' => exact List.append_nil _

theorem refinesJournal_after (cfg : RiskConfig α) {ops : List (CoreOp α)}
    (hn : submitCount ops < 2 ^ 64) : RefinesJournal cfg ops where
  ids := ids_of_run cfg hn
  present := (inStep_after cfg ops hn).present
  entry := by
    rintro pre nowMs req post rfl
    have hlt := submitCount_split_lt post nowMs req hn rfl
    have h := inStep_after cfg pre (by omega)
    refine ⟨_, getOrder_split cfg post nowMs req hlt, ?_⟩
    rw [← lastPrice_after cfg pre, ← h.nextId hlt]
    split <;> exact ⟨rfl, rfl, rfl, rfl, rfl, rfl⟩
  decided := fun id r hr ↦ ⟨settled_after cfg ops id r hr, explained_after cfg ops id r hr⟩
  cancelled := by
    rintro pre nowMs req post rfl
    have hlt := submitCount_split_lt post nowMs req hn rfl
    rw [acceptedAtSubmission_iff cfg nowMs req hlt, getOrder_split cfg post nowMs req hlt]
    simp only [Option.some.injEq, exists_eq_left']
    split_ifs with hcancel
    · simpa using hcancel
    · refine iff_of_false (fun hstatus ↦ ?_) hcancel
      rw [settle_status] at hstatus
      split_ifs at hstatus
  cancelAnswer := by
    rintro pre nowMs req mid nowMs' post hops
    have hlt := submitCount_split_lt _ nowMs req hn hops
    rw [acceptedAtSubmission_iff cfg nowMs req hlt, out_cancel, CoreAnswer.cancelled.injEq,
      Oms.cancel_snd]
    have hget := getOrder_split cfg mid nowMs req hlt
    rw [getOrder] at hget
    rw [hget]
    simp only [Option.some.injEq, exists_eq_left']
    split_ifs with hcancel
    · refine iff_of_false (by simp) fun hnot ↦ hnot.2 hcancel.2
    · rw [settle_status_eq_accepted_iff]
      exact ⟨fun hv ↦ ⟨hv, fun hmid ↦ hcancel ⟨hv, hmid⟩⟩, And.left⟩
  fresh := by
    rintro pre nowMs req post rfl
    have hlt := submitCount_split_lt post nowMs req hn rfl
    have hfresh := (inStep_after cfg pre (by omega)).fresh hlt
    rw [Oms.submit_fresh _ hfresh]

end TradingCore

end FrogQuant
