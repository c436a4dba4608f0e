import Mathlib.Data.List.Basic
import Mathlib.Data.List.Nodup

/-!
# Tables of slots

A table is a list of slots with keys.  A slot is found by `std::find_if` on
its key and written through the iterator found, which reaches the first slot of
that key only.
-/

namespace FrogQuant

variable {κ β : Type*} [DecidableEq κ] (key : β → κ)

def findSlot (k : κ) (slots : List β) : Option β := slots.find? fun x ↦ key x = k

def writeSlot (k : κ) (f : β → β) : List β → List β
  | [] => []
  | x :: xs => if key x = k then f x :: xs else x :: writeSlot k f xs

variable {key} {k k' : κ} {f : β → β}

theorem findSlot_cons (x : β) (xs : List β) :
    findSlot key k (x :: xs) = if key x = k then some x else findSlot key k xs := by
  by_cases h : key x = k <;> simp [findSlot, h]

theorem key_of_findSlot {xs : List β} {x : β} (h : findSlot key k xs = some x) : key x = k := by
  simpa using List.find?_some h

theorem mem_of_findSlot {xs : List β} {x : β} (h : findSlot key k xs = some x) : x ∈ xs :=
  List.mem_of_find?_eq_some h

theorem findSlot_of_mem {xs : List β} (hkeys : (xs.map key).Nodup) {x : β} (hx : x ∈ xs) :
    findSlot key (key x) xs = some x := by
  induction xs with
  | nil => cases hx
  | cons y ys ih =>
      rw [List.map_cons, List.nodup_cons] at hkeys
      rw [findSlot_cons]
      rcases List.mem_cons.mp hx with rfl | hys
      · simp
      · have hne : key y ≠ key x := fun h ↦ hkeys.1 (h ▸ List.mem_map_of_mem hys)
        rw [if_neg hne, ih hkeys.2 hys]

theorem map_writeSlot {γ : Type*} {g : β → γ} (hf : ∀ x, g (f x) = g x) (xs : List β) :
    (writeSlot key k f xs).map g = xs.map g := by
  induction xs with
  | nil => rfl
  | cons x xs ih =>
      rw [writeSlot]
      split_ifs <;> simp [hf, ih]

theorem length_writeSlot (xs : List β) : (writeSlot key k f xs).length = xs.length := by
  induction xs with
  | nil => rfl
  | cons x xs ih =>
      rw [writeSlot]
      split_ifs <;> simp [ih]

theorem mem_writeSlot {xs : List β} {x : β} (h : x ∈ writeSlot key k f xs) :
    x ∈ xs ∨ ∃ y ∈ xs, x = f y := by
  induction xs with
  | nil => cases h
  | cons y ys ih =>
      rw [writeSlot] at h
      split_ifs at h
      · rcases List.mem_cons.mp h with rfl | hys
        · exact Or.inr ⟨y, List.mem_cons_self, rfl⟩
        · exact Or.inl (List.mem_cons_of_mem y hys)
      · rcases List.mem_cons.mp h with rfl | hys
        · exact Or.inl List.mem_cons_self
        · rcases ih hys with hmem | ⟨z, hz, rfl⟩
          · exact Or.inl (List.mem_cons_of_mem y hmem)
          · exact Or.inr ⟨z, List.mem_cons_of_mem y hz, rfl⟩

theorem findSlot_writeSlot (hf : ∀ x, key (f x) = key x) (xs : List β) :
    findSlot key k' (writeSlot key k f xs) =
      if k' = k then (findSlot key k xs).map f else findSlot key k' xs := by
  induction xs with
  | nil => split_ifs <;> rfl
  | cons x xs ih =>
      rw [writeSlot]
      by_cases hx : key x = k
      · subst hx
        by_cases hk : k' = key x
        · simp [findSlot_cons, hf, hk]
        · simp [findSlot_cons, hf, hk, Ne.symm hk]
      · rw [if_neg hx, findSlot_cons, ih]
        by_cases hk : k' = k
        · subst hk
          simp [findSlot_cons, hx]
        · simp [findSlot_cons, hk]

/-- Where no key is repeated, writing a slot reaches every slot of its key. -/
theorem writeSlot_eq_map {xs : List β} (hkeys : (xs.map key).Nodup) :
    writeSlot key k f xs = xs.map fun x ↦ if key x = k then f x else x := by
  induction xs with
  | nil => rfl
  | cons x xs ih =>
      rw [List.map_cons, List.nodup_cons] at hkeys
      rw [writeSlot, List.map_cons]
      by_cases hx : key x = k
      · have hrest : (xs.map fun y ↦ if key y = k then f y else y) = xs.map id := by
          apply List.map_congr_left
          intro y hy
          have hne : key y ≠ k := fun h ↦ hkeys.1 (hx.trans h.symm ▸ List.mem_map_of_mem hy)
          rw [if_neg hne, id]
        rw [if_pos hx, if_pos hx, hrest, List.map_id]
      · rw [if_neg hx, if_neg hx, ih hkeys.2]

/-- Where no key is repeated, a slot may as well be written through its place. -/
theorem writeSlot_eq_modify {xs : List β} (hkeys : (xs.map key).Nodup) {i : ℕ} {x : β}
    (hx : xs[i]? = some x) : writeSlot key (key x) f xs = xs.modify i f := by
  induction xs generalizing i with
  | nil => cases hx
  | cons y ys ih =>
      rw [List.map_cons, List.nodup_cons] at hkeys
      cases i with
      | zero =>
          obtain rfl := Option.some.inj hx
          rw [writeSlot, if_pos rfl]
          rfl
      | succ i =>
          have hmem : x ∈ ys := List.mem_of_getElem? hx
          have hne : key y ≠ key x := fun h ↦ hkeys.1 (h ▸ List.mem_map_of_mem hmem)
          rw [writeSlot, if_neg hne, ih hkeys.2 hx]
          rfl

/-- Writing a slot moves a count by what that slot gains and loses. -/
theorem countP_writeSlot (p : β → Bool) {xs : List β} {x : β} (h : findSlot key k xs = some x) :
    (writeSlot key k f xs).countP p + (if p x then 1 else 0) =
      xs.countP p + (if p (f x) then 1 else 0) := by
  induction xs with
  | nil => cases h
  | cons y ys ih =>
      rw [findSlot_cons] at h
      rw [writeSlot]
      split_ifs at h with hy
      · obtain rfl := Option.some.inj h
        rw [if_pos hy, List.countP_cons, List.countP_cons]
        omega
      · have hys := ih h
        rw [if_neg hy, List.countP_cons, List.countP_cons]
        omega

theorem writeSlot_of_none {xs : List β} (h : findSlot key k xs = none) :
    writeSlot key k f xs = xs := by
  induction xs with
  | nil => rfl
  | cons y ys ih =>
      rw [findSlot_cons] at h
      split_ifs at h with hy
      rw [writeSlot, if_neg hy, ih h]

end FrogQuant
