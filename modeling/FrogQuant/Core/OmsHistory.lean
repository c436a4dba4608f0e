import FrogQuant.Core.Oms
import FrogQuant.Lib.Machine

/-!
# The life of an order in the store

The OMS under any sequence of submits, accepts, rejects and cancels: what a
call that succeeds changes, that a call that fails changes nothing, and the
path of states an order takes.
-/

namespace FrogQuant

variable {α : Type}

/-- A record as it is submitted. -/
abbrev NewRecord (α : Type) := {r : OrderRecord α // r.status = .new}

inductive OmsOp (α : Type) where
  | submit (order : NewRecord α)
  | accept (orderId : ℕ)
  | reject (orderId : ℕ) (reason : RejectReason)
  | cancel (orderId : ℕ)

inductive OmsAction where
  | submit
  | accept
  | reject
  | cancel
  deriving DecidableEq

/-- The status an order has when the action has succeeded on it. -/
def OmsAction.target : OmsAction → OrderStatus
  | submit => .new
  | accept => .accepted
  | reject => .rejected
  | cancel => .cancelled

theorem OmsAction.target_injective : Function.Injective OmsAction.target := by
  intro a b h
  cases a <;> cases b <;> first | rfl | cases h

namespace OmsOp

def action : OmsOp α → OmsAction
  | submit _ => .submit
  | accept _ => .accept
  | reject _ _ => .reject
  | cancel _ => .cancel

def orderId : OmsOp α → ℕ
  | submit order => order.1.orderId
  | accept id => id
  | reject id _ => id
  | cancel id => id

/-- What a call that succeeds makes of the entry of its own id. -/
inductive Changes : OmsOp α → Option (OrderRecord α) → Option (OrderRecord α) → Prop
  | submit (order : NewRecord α) : Changes (.submit order) none (some order.1)
  | accept (id : ℕ) (r : OrderRecord α) (hr : r.status = .new) :
      Changes (.accept id) (some r) (some { r with status := .accepted })
  | reject (id : ℕ) (reason : RejectReason) (r : OrderRecord α) (hr : r.status = .new) :
      Changes (.reject id reason) (some r)
        (some { r with status := .rejected, rejectReason := reason })
  | cancel (id : ℕ) (r : OrderRecord α) (hr : r.status = .accepted) :
      Changes (.cancel id) (some r) (some { r with status := .cancelled })

end OmsOp

def omsMachine (α : Type) : Machine (Oms α) (OmsOp α) Bool where
  step m op :=
    match op with
    | .submit order => m.submit order.1
    | .accept orderId => m.accept orderId
    | .reject orderId reason => m.reject orderId reason
    | .cancel orderId => m.cancel orderId

namespace Oms

/-! ## One call -/

theorem transition_cases (before : OrderStatus) (move : OrderRecord α → OrderRecord α)
    (m : Oms α) (id : ℕ) :
    (∃ r, m.get id = some r ∧ r.status = before ∧
      transition before move m id = (m.insert id (move r), true)) ∨
    transition before move m id = (m, false) := by
  cases hr : m.get id with
  | none =>
      refine Or.inr (Store.updateIf_of_neg _ fun r hr' ↦ ?_)
      cases hr.symm.trans hr'
  | some r =>
      by_cases hstatus : r.status = before
      · exact Or.inl ⟨r, rfl, hstatus, Store.updateIf_of_pos _ hr (by simp [hstatus])⟩
      · refine Or.inr (Store.updateIf_of_neg _ fun r' hr' ↦ ?_)
        obtain rfl := Option.some.inj (hr.symm.trans hr')
        simpa using hstatus

theorem step_cases (m : Oms α) (op : OmsOp α) :
    (∃ r, (omsMachine α).step m op = (m.insert op.orderId r, true) ∧
      op.Changes (m.get op.orderId) (some r)) ∨
    (omsMachine α).step m op = (m, false) := by
  cases op with
  | submit order =>
      cases hr : m.get order.1.orderId with
      | none =>
          refine Or.inl ⟨order.1, submit_fresh order.1 hr, ?_⟩
          rw [show OmsOp.orderId (.submit order) = order.1.orderId from rfl, hr]
          exact .submit order
      | some r => exact Or.inr (submit_taken order.1 hr)
  | accept id =>
      apply (transition_cases .new _ m id).imp_left
      rintro ⟨r, hr, hstatus, hstep⟩
      refine ⟨_, hstep, ?_⟩
      rw [show OmsOp.orderId (α := α) (.accept id) = id from rfl, hr]
      exact .accept id r hstatus
  | reject id reason =>
      apply (transition_cases .new _ m id).imp_left
      rintro ⟨r, hr, hstatus, hstep⟩
      refine ⟨_, hstep, ?_⟩
      rw [show OmsOp.orderId (α := α) (.reject id reason) = id from rfl, hr]
      exact .reject id reason r hstatus
  | cancel id =>
      apply (transition_cases .accepted _ m id).imp_left
      rintro ⟨r, hr, hstatus, hstep⟩
      refine ⟨_, hstep, ?_⟩
      rw [show OmsOp.orderId (α := α) (.cancel id) = id from rfl, hr]
      exact .cancel id r hstatus

/-- A call either fails and leaves the map as it is, or changes the entry of
its own id as the action says.  A submit of a known id fails. -/
structure Sound (m : Oms α) (op : OmsOp α) : Prop where
  refused : (omsMachine α).out m op = false → (omsMachine α).next m op = m
  entry : (omsMachine α).out m op = true →
    op.Changes (m.get op.orderId) (((omsMachine α).next m op).get op.orderId)
  frame : (omsMachine α).out m op = true →
    ∀ id, id ≠ op.orderId → ((omsMachine α).next m op).get id = m.get id
  kept : ∀ order r, op = .submit order → m.get order.1.orderId = some r →
    (omsMachine α).out m op = false ∧ (omsMachine α).next m op = m

theorem sound_step (m : Oms α) (op : OmsOp α) : m.Sound op := by
  rcases m.step_cases op with ⟨r, hstep, hchange⟩ | hstep
  · have hnext : (omsMachine α).next m op = m.insert op.orderId r := congrArg Prod.fst hstep
    have hout : (omsMachine α).out m op = true := congrArg Prod.snd hstep
    refine ⟨fun hfalse ↦ ?_, fun _ ↦ ?_, fun _ id hid ↦ ?_, ?_⟩
    · cases hout.symm.trans hfalse
    · rwa [hnext, get_insert, if_pos rfl]
    · rw [hnext, get_insert, if_neg hid]
    · rintro order r' rfl hr'
      rw [show OmsOp.orderId (.submit order) = order.1.orderId from rfl, hr'] at hchange
      cases hchange
  · have hnext : (omsMachine α).next m op = m := congrArg Prod.fst hstep
    have hout : (omsMachine α).out m op = false := congrArg Prod.snd hstep
    refine ⟨fun _ ↦ hnext, fun htrue ↦ ?_, fun htrue ↦ ?_, fun _ _ _ _ ↦ ⟨hout, hnext⟩⟩
    · cases hout.symm.trans htrue
    · cases hout.symm.trans htrue

/-! ## The path of an order -/

def statusOf (m : Oms α) (id : ℕ) : Option OrderStatus := (m.get id).map OrderRecord.status

/-- The status an id has after the call, where the call changed it. -/
def statusChange (id : ℕ) (m : Oms α) (op : OmsOp α) : Option (Option OrderStatus) :=
  let after := statusOf ((omsMachine α).next m op) id
  if after = m.statusOf id then none else some after

/-- The statuses an id goes through in a run of a fresh store. -/
def statusHistory (id : ℕ) (ops : List (OmsOp α)) : List (Option OrderStatus) :=
  (omsMachine α).collect (statusChange id) ∅ ops

/-- The calls of a run that succeeded, with their ids. -/
def granted (m : Oms α) (op : OmsOp α) : Option (OmsAction × ℕ) :=
  if (omsMachine α).out m op then some (op.action, op.orderId) else none

def successes (action : OmsAction) (id : ℕ) (ops : List (OmsOp α)) : ℕ :=
  ((omsMachine α).collect granted ∅ ops).count (action, id)

/-- The path of transitions that ends in a status. -/
def pathTo : Option OrderStatus → List (Option OrderStatus)
  | none => []
  | some .new => [some .new]
  | some .accepted => [some .new, some .accepted]
  | some .rejected => [some .new, some .rejected]
  | some .cancelled => [some .new, some .accepted, some .cancelled]

theorem nodup_pathTo (status : Option OrderStatus) : (pathTo status).Nodup := by
  rcases status with _ | status
  · exact List.nodup_nil
  · cases status <;> decide

theorem pathTo_legal (status : Option OrderStatus) :
    pathTo status <+: [some .new, some .accepted, some .cancelled] ∨
      pathTo status <+: [some .new, some .rejected] := by
  rcases status with _ | status
  · exact Or.inl List.nil_prefix
  · cases status <;> decide

theorem pathTo_exclusive (status : Option OrderStatus) :
    (pathTo status).count (some .accepted) + (pathTo status).count (some .rejected) ≤ 1 := by
  rcases status with _ | status
  · exact Nat.zero_le 1
  · cases status <;> decide

theorem pathTo_changes {op : OmsOp α} {before after : Option (OrderRecord α)}
    (h : op.Changes before after) :
    after.map OrderRecord.status = some op.action.target ∧
      after.map OrderRecord.status ≠ before.map OrderRecord.status ∧
      pathTo (after.map OrderRecord.status) =
        pathTo (before.map OrderRecord.status) ++ [after.map OrderRecord.status] := by
  cases h with
  | submit order => simp [order.2, OmsOp.action, OmsAction.target, pathTo]
  | accept id r hr => simp [hr, OmsOp.action, OmsAction.target, pathTo]
  | reject id reason r hr => simp [hr, OmsOp.action, OmsAction.target, pathTo]
  | cancel id r hr => simp [hr, OmsOp.action, OmsAction.target, pathTo]

/-- A status changes exactly where a call on its id succeeds, and to the status
that the action leads to. -/
theorem statusChange_eq (id : ℕ) (m : Oms α) (op : OmsOp α) :
    statusChange id m op =
      (granted m op).bind fun e ↦ if e.2 = id then some (some e.1.target) else none := by
  have hsound := m.sound_step op
  cases hout : (omsMachine α).out m op with
  | false => simp [statusChange, granted, hout, hsound.refused hout]
  | true =>
      obtain ⟨htarget, hne, -⟩ := pathTo_changes (hsound.entry hout)
      by_cases hid : op.orderId = id
      · subst hid
        rw [htarget] at hne
        simp only [statusChange, statusOf, granted, hout, htarget, hne, if_true, if_false,
          Option.bind_some]
      · simp [statusChange, statusOf, granted, hout, hid, hsound.frame hout id (Ne.symm hid)]

theorem pathTo_statusOf_next (id : ℕ) (m : Oms α) (op : OmsOp α) :
    pathTo (statusOf ((omsMachine α).next m op) id) =
      pathTo (m.statusOf id) ++ (statusChange id m op).toList := by
  have hsound := m.sound_step op
  cases hout : (omsMachine α).out m op with
  | false => simp [statusChange, hsound.refused hout]
  | true =>
      by_cases hid : id = op.orderId
      · subst hid
        obtain ⟨-, hne, hpath⟩ := pathTo_changes (hsound.entry hout)
        simp only [statusChange, statusOf, hne, if_false, Option.toList_some]
        exact hpath
      · simp [statusChange, statusOf, hsound.frame hout id hid]

theorem statusHistory_eq (id : ℕ) (ops : List (OmsOp α)) :
    statusHistory id ops = pathTo (statusOf ((omsMachine α).run ∅ ops) id) := by
  refine (omsMachine α).run_history
    (P := fun ops m ↦ statusHistory id ops = pathTo (statusOf m id)) rfl (fun ops op ih ↦ ?_) ops
  rw [pathTo_statusOf_next, ← ih, statusHistory, statusHistory, Machine.collect_concat]

theorem statusHistory_eq_filterMap (id : ℕ) (ops : List (OmsOp α)) :
    statusHistory id ops = ((omsMachine α).collect granted ∅ ops).filterMap fun e ↦
      if e.2 = id then some (some e.1.target) else none := by
  rw [← Machine.collect_bind, statusHistory]
  congr 1
  funext m op
  exact statusChange_eq id m op

theorem successes_eq (action : OmsAction) (id : ℕ) (ops : List (OmsOp α)) :
    successes action id ops = (statusHistory id ops).count (some action.target) := by
  rw [statusHistory_eq_filterMap, successes]
  induction (omsMachine α).collect granted ∅ ops with
  | nil => rfl
  | cons e es ih =>
      obtain ⟨a, id'⟩ := e
      by_cases hid : id' = id
      · subst hid
        by_cases haction : a = action
        · simp [haction, ih]
        · simp [haction, ih, OmsAction.target_injective.ne haction]
      · simp [hid, ih]

/-- The OMS as a state machine, over every sequence of calls. -/
theorem oms_state_machine (ops : List (OmsOp α)) :
    (omsMachine α).AllSteps Sound ∅ ops ∧
    ∀ id,
      (statusHistory id ops <+: [some .new, some .accepted, some .cancelled] ∨
        statusHistory id ops <+: [some .new, some .rejected]) ∧
      successes .accept id ops + successes .reject id ops ≤ 1 ∧
      successes .cancel id ops ≤ 1 := by
  refine ⟨?_, fun id ↦ ?_⟩
  · rw [Machine.allSteps_iff_split]
    exact fun pre op _ _ ↦ sound_step _ op
  · rw [successes_eq, successes_eq, successes_eq, statusHistory_eq]
    exact ⟨pathTo_legal _, pathTo_exclusive _,
      List.nodup_iff_count_le_one.mp (nodup_pathTo _) _⟩

end Oms

end FrogQuant
