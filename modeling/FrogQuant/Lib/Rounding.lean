import FrogQuant.Lib.Floating
import Mathlib.Tactic.Linarith

/-!
# Rounding half away from zero

Order facts about `std::round` on exact values: it is monotone, it tells two
values apart where a half lies between them, and it keeps a sequence with even
steps strictly increasing where the span holds enough of those.
-/

namespace FrogQuant

variable {p q : ℚ}

theorem roundAway_of_nonneg (h : 0 ≤ q) : roundAway q = ⌊q + 1 / 2⌋ := if_pos h

theorem roundAway_of_neg (h : q < 0) : roundAway q = -⌊-q + 1 / 2⌋ := if_neg (not_le.mpr h)

theorem roundAway_nonneg (h : 0 ≤ q) : 0 ≤ roundAway q := by
  rw [roundAway_of_nonneg h]
  exact Int.floor_nonneg.mpr (by linarith)

theorem roundAway_nonpos (h : q < 0) : roundAway q ≤ 0 := by
  rw [roundAway_of_neg h, neg_nonpos]
  exact Int.floor_nonneg.mpr (by linarith)

theorem roundAway_mono (hpq : p ≤ q) : roundAway p ≤ roundAway q := by
  rcases lt_or_ge q 0 with hq | hq
  · rw [roundAway_of_neg hq, roundAway_of_neg (hpq.trans_lt hq)]
    exact neg_le_neg (Int.floor_le_floor (by linarith))
  · rcases lt_or_ge p 0 with hp | hp
    · exact (roundAway_nonpos hp).trans (roundAway_nonneg hq)
    · rw [roundAway_of_nonneg hp, roundAway_of_nonneg hq]
      exact Int.floor_le_floor (by linarith)

theorem abs_roundAway_le {n : ℕ} (h : |q| ≤ n) : |(roundAway q : ℚ)| ≤ n := by
  have hbound : ∀ p : ℚ, 0 ≤ p → p ≤ n → |((⌊p + 1 / 2⌋ : ℤ) : ℚ)| ≤ n := by
    intro p hp hpn
    have hnonneg : 0 ≤ ⌊p + 1 / 2⌋ := Int.floor_nonneg.mpr (by linarith)
    have hle : ⌊p + 1 / 2⌋ ≤ n := by
      rw [Int.floor_le_iff]
      push_cast
      linarith
    rw [abs_of_nonneg (by exact_mod_cast hnonneg)]
    exact_mod_cast hle
  rcases lt_or_ge q 0 with hq | hq
  · rw [roundAway_of_neg hq, Int.cast_neg, abs_neg]
    exact hbound (-q) (by linarith) ((neg_le_abs q).trans h)
  · rw [roundAway_of_nonneg hq]
    exact hbound q hq ((le_abs_self q).trans h)

theorem roundAway_add_one (h : 0 ≤ q) : roundAway (q + 1) = roundAway q + 1 := by
  rw [roundAway_of_nonneg h, roundAway_of_nonneg (by linarith), add_right_comm, Int.floor_add_one]

/-- How many of the points `k + 1/2`, where rounding turns to the next
integer, lie above `p` and up to `q`. -/
def halfMarks (p q : ℚ) : ℤ := ⌊q + 1 / 2⌋ - ⌊p + 1 / 2⌋

theorem halfMarks_pos_iff : 1 ≤ halfMarks p q ↔ ∃ k : ℤ, p < k + 1 / 2 ∧ (k : ℚ) + 1 / 2 ≤ q := by
  constructor
  · intro h
    refine ⟨⌊p + 1 / 2⌋, ?_, ?_⟩
    · have hlt := Int.lt_floor_add_one (p + 1 / 2)
      linarith
    · have hle : ⌊p + 1 / 2⌋ + 1 ≤ ⌊q + 1 / 2⌋ := by unfold halfMarks at h; omega
      have hmark := Int.le_floor.mp hle
      push_cast at hmark
      linarith
  · rintro ⟨k, hpk, hkq⟩
    have hp : ⌊p + 1 / 2⌋ < k + 1 := Int.floor_lt.mpr (by push_cast; linarith)
    have hq : k + 1 ≤ ⌊q + 1 / 2⌋ := Int.le_floor.mpr (by push_cast; linarith)
    unfold halfMarks
    omega

theorem halfMarks_eq (hp : 0 ≤ p) (hq : 0 ≤ q) : halfMarks p q = roundAway q - roundAway p := by
  rw [halfMarks, roundAway_of_nonneg hp, roundAway_of_nonneg hq]

/-- Rounding tells two values apart where a mark lies between them. -/
theorem roundAway_lt_iff (hp : 0 ≤ p) (hq : 0 ≤ q) :
    roundAway p < roundAway q ↔ ∃ k : ℤ, p < k + 1 / 2 ∧ (k : ℚ) + 1 / 2 ≤ q := by
  rw [← halfMarks_pos_iff, halfMarks_eq hp hq]
  omega

theorem roundAway_pos_iff : 0 < roundAway q ↔ 1 / 2 ≤ q := by
  rcases lt_or_ge q 0 with hq | hq
  · have hnonpos := roundAway_nonpos hq
    constructor
    · intro h
      omega
    · intro h
      linarith
  · rw [roundAway_of_nonneg hq, Int.floor_pos]
    constructor
    · intro h
      linarith
    · intro h
      linarith

/-! ## Sequences that grow by at most one a step -/

section Steps

variable {f : ℕ → ℤ} {n : ℕ}

theorem le_sub_of_strict (h : ∀ i < n, f i < f (i + 1)) : (n : ℤ) ≤ f n - f 0 := by
  induction n with
  | zero => simp
  | succ n ih =>
      have hlast := h n (Nat.lt_succ_self n)
      have hrest := ih fun i hi ↦ h i (Nat.lt_succ_of_lt hi)
      push_cast
      omega

theorem sub_le_of_step_le_one (hle : ∀ i < n, f (i + 1) ≤ f i + 1) {m : ℕ} (hm : m ≤ n) :
    f n - f m ≤ n - m := by
  induction n, hm using Nat.le_induction with
  | base => simp
  | succ n hmn ih =>
      have hlast := hle n (Nat.lt_succ_self n)
      have hrest := ih fun i hi ↦ hle i (Nat.lt_succ_of_lt hi)
      push_cast
      omega

theorem strict_of_le_sub (hle : ∀ i < n, f (i + 1) ≤ f i + 1) (hn : (n : ℤ) ≤ f n - f 0) :
    ∀ i < n, f i < f (i + 1) := by
  intro i hi
  have hbefore := sub_le_of_step_le_one (fun j hj ↦ hle j (hj.trans hi)) (Nat.zero_le i)
  have hafter := sub_le_of_step_le_one (m := i + 1) hle hi
  push_cast at hbefore hafter
  omega

theorem lt_of_strict (h : ∀ i < n, f i < f (i + 1)) {i j : ℕ} (hij : i < j) (hj : j ≤ n) :
    f i < f j := by
  induction j, hij using Nat.le_induction with
  | base => exact h i hj
  | succ j hij ih => exact (ih (Nat.le_of_succ_le hj)).trans (h j hj)

end Steps

/-- The values of a sequence with even steps stay apart under rounding just if
its whole span holds a mark for each step.  A step below one rounds to at most
one, so then none can be missed. -/
theorem roundAway_strict_iff (hp : 0 ≤ p) (hq : 0 ≤ q) (n : ℕ) :
    (∀ i < n, roundAway (p + i * q) < roundAway (p + (i + 1 : ℕ) * q)) ↔
      (n : ℤ) ≤ halfMarks p (p + n * q) := by
  rw [halfMarks_eq hp (add_nonneg hp (mul_nonneg n.cast_nonneg hq))]
  have hstep : ∀ i : ℕ, p + (i + 1 : ℕ) * q = p + i * q + q := by
    intro i
    push_cast
    ring
  have hnonneg : ∀ i : ℕ, 0 ≤ p + i * q := fun i ↦ add_nonneg hp (mul_nonneg i.cast_nonneg hq)
  have hzero : roundAway (p + (0 : ℕ) * q) = roundAway p := by simp
  constructor
  · intro h
    have hspan := le_sub_of_strict (f := fun i : ℕ ↦ roundAway (p + i * q)) h
    rwa [hzero] at hspan
  · intro h
    rcases lt_or_ge q 1 with hsmall | hlarge
    · refine strict_of_le_sub (f := fun i : ℕ ↦ roundAway (p + i * q)) (fun i _ ↦ ?_)
        (by rwa [hzero])
      rw [hstep, ← roundAway_add_one (hnonneg i)]
      exact roundAway_mono (by linarith)
    · intro i _
      rw [hstep, Int.lt_iff_add_one_le, ← roundAway_add_one (hnonneg i)]
      exact roundAway_mono (by linarith)

end FrogQuant
