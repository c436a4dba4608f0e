import FrogQuant.Core.OrderTypes
import FrogQuant.Lib.Store

/-!
# The order management store

`core/oms.cpp`: order records by id, with the transitions
`New -> Accepted -> Cancelled` and `New -> Rejected`.
-/

namespace FrogQuant

/-- `orders_` of the OMS. -/
abbrev Oms (α : Type) := Store ℕ (OrderRecord α)

namespace Oms

variable {α : Type}

def submit (m : Oms α) (order : OrderRecord α) : Oms α × Bool :=
  m.create order.orderId order

def transition (before : OrderStatus) (move : OrderRecord α → OrderRecord α)
    (m : Oms α) (orderId : ℕ) : Oms α × Bool :=
  m.updateIf orderId (fun r ↦ decide (r.status = before)) move

def accept : Oms α → ℕ → Oms α × Bool :=
  transition .new fun r ↦ { r with status := .accepted }

def reject (m : Oms α) (orderId : ℕ) (reason : RejectReason) : Oms α × Bool :=
  transition .new (fun r ↦ { r with status := .rejected, rejectReason := reason }) m orderId

def cancel : Oms α → ℕ → Oms α × Bool :=
  transition .accepted fun r ↦ { r with status := .cancelled }

def get (m : Oms α) (orderId : ℕ) : Option (OrderRecord α) := m.lookup orderId

@[simp] theorem get_empty (id : ℕ) : get (∅ : Oms α) id = none := rfl

@[simp] theorem get_insert (m : Oms α) (id id' : ℕ) (r : OrderRecord α) :
    get (m.insert id r) id' = if id' = id then some r else m.get id' :=
  m.lookup_insert' id id' r

theorem submit_fresh {m : Oms α} (order : OrderRecord α) (h : m.get order.orderId = none) :
    m.submit order = (m.insert order.orderId order, true) :=
  Store.create_of_lookup_none order h

theorem submit_taken {m : Oms α} (order : OrderRecord α) {r : OrderRecord α}
    (h : m.get order.orderId = some r) :
    m.submit order = (m, false) :=
  Store.create_of_lookup_some order h

theorem accept_insert (m : Oms α) (id : ℕ) (r : OrderRecord α) (hr : r.status = .new) :
    accept (m.insert id r) id = (m.insert id { r with status := .accepted }, true) := by
  rw [accept, transition, Store.updateIf_of_pos _ (AList.lookup_insert m) (by simp [hr]),
    AList.insert_insert]

theorem reject_insert (m : Oms α) (id : ℕ) (r : OrderRecord α) (reason : RejectReason)
    (hr : r.status = .new) :
    reject (m.insert id r) id reason =
      (m.insert id { r with status := .rejected, rejectReason := reason }, true) := by
  rw [reject, transition, Store.updateIf_of_pos _ (AList.lookup_insert m) (by simp [hr]),
    AList.insert_insert]

theorem reject_of_not_new {m : Oms α} (id : ℕ) (reason : RejectReason)
    (h : ∀ r, m.get id = some r → r.status ≠ .new) : m.reject id reason = (m, false) := by
  rw [reject, transition, Store.updateIf_of_neg]
  intro r hr
  simpa using h r hr

theorem cancel_snd (m : Oms α) (id : ℕ) :
    (m.cancel id).2 = true ↔ ∃ r, m.get id = some r ∧ r.status = .accepted := by
  rw [cancel, transition, Store.updateIf_snd, Option.any_eq_true]
  simp [get]

theorem cancel_of_snd_eq_false {m : Oms α} {id : ℕ} (h : (m.cancel id).2 = false) :
    (m.cancel id).1 = m := by
  have hnot : ∀ r, m.get id = some r → decide (r.status = .accepted) = false := by
    intro r hr
    rw [decide_eq_false_iff_not]
    intro hacc
    rw [(cancel_snd m id).mpr ⟨r, hr, hacc⟩] at h
    cases h
  exact congrArg Prod.fst (Store.updateIf_of_neg _ hnot)

theorem get_cancel (m : Oms α) (id id' : ℕ) :
    (m.cancel id).1.get id' =
      if id' = id then (m.get id).map fun r ↦
        if r.status = .accepted then { r with status := .cancelled } else r
      else m.get id' := by
  have h := m.lookup_updateIf id (fun r ↦ decide (r.status = .accepted))
    (fun r ↦ { r with status := .cancelled }) id'
  simp only [decide_eq_true_eq] at h
  exact h

end Oms

end FrogQuant
