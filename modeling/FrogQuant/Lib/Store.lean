import Mathlib.Algebra.Order.BigOperators.Group.List
import Mathlib.Data.List.AList

/-!
# Keyed stores with guarded updates

A store is a finite map.  Records enter under a fresh key only, and change
only where a guard holds of the present record.  Both operations report
whether they did anything.  `total` sums a quantity over the records.
-/

namespace FrogQuant

abbrev Store (κ β : Type*) := AList fun _ : κ ↦ β

namespace Store

variable {κ β M : Type*} [DecidableEq κ]

def create (s : Store κ β) (k : κ) (b : β) : Store κ β × Bool :=
  match s.lookup k with
  | some _ => (s, false)
  | none => (s.insert k b, true)

/-- Change the record under `k` where the guard holds of it. -/
def updateIf (s : Store κ β) (k : κ) (p : β → Bool) (f : β → β) : Store κ β × Bool :=
  match s.lookup k with
  | none => (s, false)
  | some b => if p b then (s.insert k (f b), true) else (s, false)

theorem lookup_insert' (s : Store κ β) (k k' : κ) (b : β) :
    (s.insert k b).lookup k' = if k' = k then some b else s.lookup k' := by
  by_cases h : k' = k
  · subst h
    simp
  · simp [h]

theorem create_of_lookup_none {s : Store κ β} {k : κ} (b : β) (h : s.lookup k = none) :
    s.create k b = (s.insert k b, true) := by
  simp [create, h]

theorem create_of_lookup_some {s : Store κ β} {k : κ} {b' : β} (b : β)
    (h : s.lookup k = some b') : s.create k b = (s, false) := by
  simp [create, h]

theorem updateIf_of_pos {s : Store κ β} {k : κ} {p : β → Bool} (f : β → β) {b : β}
    (h : s.lookup k = some b) (hp : p b = true) :
    s.updateIf k p f = (s.insert k (f b), true) := by
  simp [updateIf, h, hp]

theorem updateIf_of_neg {s : Store κ β} {k : κ} {p : β → Bool} (f : β → β)
    (h : ∀ b, s.lookup k = some b → p b = false) : s.updateIf k p f = (s, false) := by
  cases hk : s.lookup k with
  | none => simp [updateIf, hk]
  | some b => simp [updateIf, hk, h b hk]

theorem updateIf_snd (s : Store κ β) (k : κ) (p : β → Bool) (f : β → β) :
    (s.updateIf k p f).2 = (s.lookup k).any p := by
  cases hk : s.lookup k with
  | none => simp [updateIf, hk]
  | some b => cases hp : p b <;> simp [updateIf, hk, hp]

theorem lookup_updateIf (s : Store κ β) (k : κ) (p : β → Bool) (f : β → β) (k' : κ) :
    (s.updateIf k p f).1.lookup k' =
      if k' = k then (s.lookup k).map fun b ↦ if p b then f b else b else s.lookup k' := by
  cases hk : s.lookup k with
  | none =>
      by_cases h : k' = k
      · subst h
        simp [updateIf, hk]
      · simp [updateIf, hk, h]
  | some b =>
      by_cases h : k' = k
      · subst h
        cases hp : p b <;> simp [updateIf, hk, hp]
      · cases hp : p b <;> simp [updateIf, hk, hp, h]

/-! ## Sums over the records -/

/-- The sum of `f` over all records. -/
def total [AddCommMonoid M] (f : β → M) (s : Store κ β) : M :=
  (s.entries.map fun e ↦ f e.2).sum

omit [DecidableEq κ] in
@[simp] theorem total_empty [AddCommMonoid M] (f : β → M) :
    total f (∅ : Store κ β) = 0 := rfl

omit [DecidableEq κ] in
theorem total_add [AddCommMonoid M] (f g : β → M) (s : Store κ β) :
    total (fun b ↦ f b + g b) s = total f s + total g s :=
  List.sum_map_add

theorem total_insert_fresh [AddCommMonoid M] (f : β → M) {s : Store κ β} {k : κ} (b : β)
    (h : s.lookup k = none) : total f (s.insert k b) = f b + total f s := by
  rw [total, AList.entries_insert_of_notMem (AList.lookup_eq_none.mp h)]
  simp [total]

theorem sum_kerase [AddCommMonoid M] (f : β → M) {k : κ} {b : β} :
    ∀ {l : List (Sigma fun _ : κ ↦ β)}, l.dlookup k = some b →
      f b + ((l.kerase k).map fun e ↦ f e.2).sum = (l.map fun e ↦ f e.2).sum := by
  intro l
  induction l with
  | nil => simp
  | cons e l ih =>
      intro h
      obtain ⟨k', b'⟩ := e
      by_cases hk : k = k'
      · subst hk
        obtain rfl : b' = b := by simpa using h
        simp
      · rw [List.dlookup_cons_ne _ _ hk] at h
        rw [List.kerase_cons_ne hk]
        simp only [List.map_cons, List.sum_cons]
        rw [← ih h, add_left_comm]

theorem total_insert_present [AddCommMonoid M] (f : β → M) {s : Store κ β} {k : κ} {b : β}
    (b' : β) (h : s.lookup k = some b) :
    f b + total f (s.insert k b') = f b' + total f s := by
  have hsum := sum_kerase f (l := s.entries) h
  rw [total, AList.entries_insert, List.map_cons, List.sum_cons, total, ← hsum, add_left_comm]

theorem total_updateIf_of_eq [AddCancelCommMonoid M] (f : β → M) (s : Store κ β) (k : κ)
    (p : β → Bool) (g : β → β) (hg : ∀ b, p b = true → f (g b) = f b) :
    total f (s.updateIf k p g).1 = total f s := by
  cases hk : s.lookup k with
  | none => simp [updateIf, hk]
  | some b =>
      cases hp : p b with
      | false => simp [updateIf, hk, hp]
      | true =>
          have h := total_insert_present f (g b) hk
          rw [hg b hp] at h
          simpa [updateIf, hk, hp] using add_left_cancel h

/-- A sum of nonnegative summands vanishes only where each of them does. -/
theorem total_eq_zero_iff [AddCommMonoid M] [PartialOrder M] [IsOrderedAddMonoid M]
    {f : β → M} {s : Store κ β} (hf : ∀ k b, s.lookup k = some b → 0 ≤ f b) :
    total f s = 0 ↔ ∀ k b, s.lookup k = some b → f b = 0 := by
  have hmem : ∀ {k b}, s.lookup k = some b ↔ (⟨k, b⟩ : Sigma fun _ : κ ↦ β) ∈ s.entries :=
    fun {k b} ↦ by rw [← Option.mem_def, AList.mem_lookup_iff]
  constructor
  · intro h k b hk
    refine List.all_zero_of_le_zero_le_of_sum_eq_zero ?_ h (List.mem_map_of_mem (hmem.mp hk))
    intro x hx
    obtain ⟨e, he, rfl⟩ := List.mem_map.mp hx
    exact hf e.1 e.2 (hmem.mpr he)
  · intro h
    apply List.sum_eq_zero
    intro x hx
    obtain ⟨e, he, rfl⟩ := List.mem_map.mp hx
    exact h e.1 e.2 (hmem.mpr he)

end Store

end FrogQuant
