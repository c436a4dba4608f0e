import Mathlib.Data.List.Infix
import Mathlib.Data.List.Induction

/-!
# A list of the most recent items

Items are pushed one by one; when there are more than `cap`, the oldest `batch`
are dropped.
-/

namespace FrogQuant.Recent

variable {β : Type*} (cap batch : ℕ)

def push (xs : List β) (x : β) : List β :=
  let ys := xs ++ [x]
  if cap < ys.length then ys.drop (min batch ys.length) else ys

/-- What is kept of the items pushed so far. -/
def recent (items : List β) : List β := items.foldl (push cap batch) []

@[simp] theorem recent_nil : recent cap batch ([] : List β) = [] := rfl

theorem recent_concat (items : List β) (x : β) :
    recent cap batch (items ++ [x]) = push cap batch (recent cap batch items) x := by
  simp [recent, List.foldl_append]

variable {cap batch}

theorem push_of_lt {xs : List β} (h : xs.length < cap) (x : β) :
    push cap batch xs x = xs ++ [x] := by
  have hlen : ¬ cap < (xs ++ [x]).length := by
    rw [List.length_append, List.length_singleton]
    omega
  simp only [push, hlen, if_false]

theorem push_suffix (xs : List β) (x : β) : push cap batch xs x <:+ xs ++ [x] := by
  simp only [push]
  split_ifs
  · exact List.drop_suffix _ _
  · exact List.suffix_rfl

theorem length_push_le {xs : List β} (h : xs.length ≤ cap) (hbatch : 1 ≤ batch) (x : β) :
    (push cap batch xs x).length ≤ cap := by
  simp only [push]
  split_ifs with hlen
  · simp only [List.length_drop, List.length_append, List.length_singleton]
    omega
  · exact not_lt.mp hlen

theorem mem_push {xs : List β} (h : xs.length ≤ cap) (hbatch : batch ≤ cap) (x : β) :
    x ∈ push cap batch xs x := by
  simp only [push]
  split_ifs with hlen
  · have hlast : min batch (xs ++ [x]).length ≤ xs.length := by
      simp only [List.length_append, List.length_singleton] at hlen ⊢
      omega
    rw [List.drop_append_of_le_length hlast]
    exact List.mem_append_right _ (List.mem_singleton_self x)
  · exact List.mem_append_right _ (List.mem_singleton_self x)

/-- A batch as long as the full list takes the new item too. -/
theorem push_full {xs : List β} (h : xs.length = cap) (hbatch : cap < batch) (x : β) :
    push cap batch xs x = [] := by
  have hlen : cap < (xs ++ [x]).length := by simp [h]
  have hall : min batch (xs ++ [x]).length = (xs ++ [x]).length := by
    simp only [List.length_append, List.length_singleton]
    omega
  simp only [push, hlen, if_true, hall, List.drop_length]

theorem recent_suffix (items : List β) : recent cap batch items <:+ items := by
  induction items using List.reverseRecOn with
  | nil => exact List.suffix_rfl
  | append_singleton items x ih =>
      rw [recent_concat]
      obtain ⟨front, hfront⟩ := ih
      apply (push_suffix _ x).trans
      exact ⟨front, by rw [← List.append_assoc, hfront]⟩

theorem length_recent_le (hbatch : 1 ≤ batch) (items : List β) :
    (recent cap batch items).length ≤ cap := by
  induction items using List.reverseRecOn with
  | nil => exact Nat.zero_le _
  | append_singleton items x ih =>
      rw [recent_concat]
      exact length_push_le ih hbatch x

theorem recent_of_length_le {items : List β} (h : items.length ≤ cap) :
    recent cap batch items = items := by
  induction items using List.reverseRecOn with
  | nil => rfl
  | append_singleton items x ih =>
      rw [List.length_append, List.length_singleton] at h
      rw [recent_concat, ih (by omega), push_of_lt h]

/-- Where one item is dropped at a time, the last `cap` items are kept. -/
theorem recent_one (items : List β) :
    recent cap 1 items = items.drop (items.length - cap) := by
  induction items using List.reverseRecOn with
  | nil => simp
  | append_singleton items x ih =>
      rw [recent_concat, ih, push, List.length_append, List.length_drop, List.length_append,
        List.length_singleton]
      split_ifs with hlen
      · have hone : min 1 (items.length - (items.length - cap) + 1) = 1 := by omega
        have hnext : items.length + 1 - cap = items.length - cap + 1 := by omega
        rw [hone, hnext, ← List.drop_append_of_le_length (Nat.sub_le _ _), List.drop_drop]
      · have hall : items.length - cap = 0 := by omega
        have hnext : items.length + 1 - cap = 0 := by omega
        rw [hall, hnext, List.drop_zero, List.drop_zero]

/-- The newest item is always kept, unless a batch that exceeds the cap is
dropped at the first overflow. -/
theorem newest_mem_recent_iff (hbatch : 1 ≤ batch) (items : List β) :
    (∀ ys x, ys ++ [x] <+: items → x ∈ recent cap batch (ys ++ [x])) ↔
      batch ≤ cap ∨ items.length ≤ cap := by
  constructor
  · intro h
    by_contra hnot
    obtain ⟨hbatch', hlen⟩ := not_or.mp hnot
    have hlt : cap < items.length := not_le.mp hlen
    have htake : (items.take cap).length = cap := List.length_take_of_le hlt.le
    have hmem := h (items.take cap) items[cap] (by
      rw [List.take_concat_get' items cap hlt]
      exact List.take_prefix _ _)
    rw [recent_concat, recent_of_length_le htake.le, push_full htake (not_le.mp hbatch')] at hmem
    cases hmem
  · rintro (hle | hlen) ys x hinit
    · rw [recent_concat]
      exact mem_push (length_recent_le hbatch ys) hle x
    · rw [recent_of_length_le (hinit.length_le.trans hlen)]
      exact List.mem_append_right _ (List.mem_singleton_self x)

end FrogQuant.Recent
