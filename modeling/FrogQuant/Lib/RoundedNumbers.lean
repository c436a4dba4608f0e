import FrogQuant.Lib.Rounding

/-!
# Computing with rounded numbers

Rounding is monotone, and so is computing with rounded numbers, up to NaN: if
the results of an operation are ordered strictly, so were the operands.  A NaN
is ordered with nothing, so `¬ y < x` says that `x` is at most `y` or one of
them is NaN.  The powers of two that bound numbers bound the results as they
bound the exact ones.
-/

namespace FrogQuant.Double

variable {p q : ℚ} {c x y : Double}

/-! ## Comparisons -/

theorem not_lt_neg_inf : ¬ x < inf true := by
  cases x <;> simp [LT.lt, lt]

theorem not_inf_lt : ¬ inf false < x := by
  cases x <;> simp [LT.lt, lt]

theorem neg_inf_lt_finite : inf true < finite q := rfl

theorem finite_lt_inf : finite q < inf false := rfl

theorem not_lt_self : ¬ x < x := by
  cases x with
  | finite q => simp
  | inf s => cases s <;> exact Bool.false_ne_true
  | nan => simp

theorem ne_nan_of_le (h : x ≤ y) : x ≠ nan ∧ y ≠ nan := by
  constructor <;> rintro rfl <;> simp at h

theorem ne_nan_of_lt (h : x < y) : x ≠ nan ∧ y ≠ nan := by
  constructor <;> rintro rfl <;> simp at h

theorem not_le_iff (hx : x ≠ nan) (hy : y ≠ nan) : ¬ x ≤ y ↔ y < x := by
  rw [← not_lt_iff hy hx, not_not]

theorem le_of_neg (hx : x < 0) (hy : 0 ≤ y) : x ≤ y := by
  change lt x (finite 0) = true at hx
  change le (finite 0) y = true at hy
  change le x y = true
  cases x <;> cases y <;> grind [lt, le]

theorem fabs_of_not_neg (h : ¬ x < 0) : fabs x = x := by
  cases x with
  | finite q =>
      rw [zero_def, finite_lt_finite, not_lt] at h
      rw [fabs_finite, abs_of_nonneg h]
  | inf s =>
      cases s
      · rfl
      · exact absurd neg_inf_lt_finite h
  | nan => rfl

/-! ## Rounding -/

theorem ofRat_zero : ofRat 0 = 0 := by decide +kernel

theorem lt_of_ofRat_lt (h : ofRat p < ofRat q) : p < q := by
  by_contra hle
  rw [not_lt] at hle
  by_cases hp : Binary64.Overflows p
  · by_cases hneg : p < 0
    · have hq : Binary64.Overflows q := by
        rw [Binary64.Overflows, abs_of_neg hneg] at hp
        exact (hp.trans (neg_le_neg hle)).trans (neg_le_abs q)
      rw [ofRat_of_overflows hq, decide_eq_true (hle.trans_lt hneg)] at h
      exact not_lt_neg_inf h
    · rw [ofRat_of_overflows hp, decide_eq_false hneg] at h
      exact not_inf_lt h
  · by_cases hq : Binary64.Overflows q
    · rw [ofRat_of_overflows hq] at h
      by_cases hneg : q < 0
      · rw [decide_eq_true hneg] at h
        exact not_lt_neg_inf h
      · rw [Binary64.Overflows, abs_of_nonneg (not_lt.mp hneg)] at hq
        exact hp ((hq.trans hle).trans (le_abs_self p))
    · rw [ofRat_of_not_overflows hp, ofRat_of_not_overflows hq, finite_lt_finite] at h
      exact absurd (Binary64.nearest_mono hle) (not_le.mpr h)

theorem not_ofRat_neg (hq : 0 ≤ q) : ¬ ofRat q < 0 := by
  rw [← ofRat_zero]
  exact fun h ↦ absurd (lt_of_ofRat_lt h) (not_lt.mpr hq)

theorem lt_of_round_lt (h : Floating.round x < Floating.round y) : x < y := by
  cases x with
  | nan => exact absurd h (not_nan_lt _)
  | inf s =>
      cases s
      · exact absurd h not_inf_lt
      · cases y with
        | nan => exact absurd h (not_lt_nan _)
        | finite q => exact neg_inf_lt_finite
        | inf t => exact h
  | finite p =>
      cases y with
      | nan => exact absurd h (not_lt_nan _)
      | inf t => exact h
      | finite q =>
          have hround : (roundAway p : ℚ) < roundAway q := (finite_lt_finite _ _).mp h
          rw [finite_lt_finite]
          by_contra hle
          exact absurd (roundAway_mono (not_lt.mp hle)) (not_le.mpr (Int.cast_lt.mp hround))

/-! ## Sums -/

theorem add_swap (x y : Double) : x + y = y + x := by
  cases x <;> cases y <;> try rfl
  case finite.finite p q => rw [finite_add, finite_add, Rat.add_comm]
  case inf.inf s t =>
    change (if s = t then inf s else nan) = if t = s then inf t else nan
    split_ifs <;> simp_all

theorem inf_add_cases (s : Bool) (x : Double) : inf s + x = inf s ∨ inf s + x = nan := by
  cases x with
  | finite q => exact Or.inl rfl
  | nan => exact Or.inr rfl
  | inf t =>
      by_cases h : s = t
      · exact Or.inl (if_pos h)
      · exact Or.inr (if_neg h)

theorem lt_of_add_lt_add_left (h : c + x < c + y) : x < y := by
  cases c with
  | nan => simp at h
  | inf s =>
      rcases inf_add_cases s x with hx | hx <;> rcases inf_add_cases s y with hy | hy <;>
        rw [hx, hy] at h
      · exact absurd h not_lt_self
      all_goals simp at h
  | finite r =>
      cases x with
      | nan => simp at h
      | inf s =>
          cases s
          · exact absurd h not_inf_lt
          · cases y with
            | nan => simp at h
            | finite q => exact neg_inf_lt_finite
            | inf t => exact h
      | finite p =>
          cases y with
          | nan => simp at h
          | finite q =>
              rw [finite_add, finite_add] at h
              simpa using lt_of_ofRat_lt h
          | inf t =>
              cases t
              · exact finite_lt_inf
              · exact absurd h not_lt_neg_inf

theorem lt_of_sub_lt_sub_right (h : x - c < y - c) : x < y := by
  change x + neg c < y + neg c at h
  rw [add_swap x, add_swap y] at h
  exact lt_of_add_lt_add_left h

theorem lt_of_sub_neg (h : x - y < 0) : x < y := by
  cases x with
  | nan => simp at h
  | inf s =>
      cases y with
      | nan => exact absurd h (not_nan_lt _)
      | finite q =>
          cases s
          · exact absurd h not_inf_lt
          · exact neg_inf_lt_finite
      | inf t =>
          cases s <;> cases t
          · exact absurd h (not_nan_lt _)
          · exact absurd h not_inf_lt
          · exact neg_inf_lt_finite (q := 0)
          · exact absurd h (not_nan_lt _)
  | finite p =>
      cases y with
      | nan => exact absurd h (not_nan_lt _)
      | inf t =>
          cases t
          · exact finite_lt_inf
          · exact absurd h not_inf_lt
      | finite q =>
          rw [finite_sub, ← ofRat_zero] at h
          simpa using lt_of_ofRat_lt h

/-- Around a number, the distance up is no less than the distance down. -/
theorem not_add_lt_sub (hy : ¬ y < 0) : ¬ x + y < x - y := by
  intro h
  have hneg : y < neg y := lt_of_add_lt_add_left h
  cases y with
  | nan => simp at hneg
  | inf s =>
      cases s
      · exact not_inf_lt hneg
      · exact hy neg_inf_lt_finite
  | finite q =>
      rw [zero_def, finite_lt_finite] at hy
      have hlt := (finite_lt_finite _ _).mp hneg
      linarith

/-! ## Products and quotients -/

theorem lt_of_mul_lt_mul_left (hc : ¬ c < 0) (h : c * x < c * y) : x < y := by
  cases c with
  | nan => simp at h
  | inf s =>
      cases s
      · change lt (mul (inf false) x) (mul (inf false) y) = true at h
        change lt x y = true
        cases x <;> cases y <;> grind [mul, lt, flips]
      · exact absurd neg_inf_lt_finite hc
  | finite r =>
      rw [zero_def, finite_lt_finite, not_lt] at hc
      cases x with
      | nan => simp at h
      | finite p =>
          cases y with
          | nan => simp at h
          | finite q =>
              rw [finite_mul, finite_mul] at h
              exact (finite_lt_finite p q).mpr
                (lt_of_mul_lt_mul_of_nonneg_left (lt_of_ofRat_lt h) hc)
          | inf t =>
              change lt (ofRat (r * p)) (mul (finite r) (inf t)) = true at h
              change lt (finite p) (inf t) = true
              cases hproduct : ofRat (r * p) <;> grind [mul, lt, flips]
      | inf s =>
          rcases hc.eq_or_lt with rfl | hr
          · exact absurd h (not_nan_lt _)
          rw [finite_mul_inf r s hr] at h
          cases s
          · exact absurd h not_inf_lt
          · cases y with
            | nan => simp at h
            | finite q => exact neg_inf_lt_finite
            | inf t => rwa [finite_mul_inf r t hr] at h

theorem mul_swap (x y : Double) : x * y = y * x := by
  cases x <;> cases y <;> try rfl
  case finite.finite p q => rw [finite_mul, finite_mul, Rat.mul_comm]
  case finite.inf p s =>
    change (if p = 0 then nan else inf (xor (flips (finite p)) s)) =
      if p = 0 then nan else inf (xor s (flips (finite p)))
    rw [Bool.xor_comm]
  case inf.finite s p =>
    change (if p = 0 then nan else inf (xor s (flips (finite p)))) =
      if p = 0 then nan else inf (xor (flips (finite p)) s)
    rw [Bool.xor_comm]
  case inf.inf s t =>
    change inf (xor s t) = inf (xor t s)
    rw [Bool.xor_comm]

theorem lt_of_mul_lt_mul_right (hc : ¬ c < 0) (h : x * c < y * c) : x < y := by
  rw [mul_swap x, mul_swap y] at h
  exact lt_of_mul_lt_mul_left hc h

theorem not_mul_neg (hx : ¬ x < 0) (hy : ¬ y < 0) : ¬ x * y < 0 := by
  intro h
  cases x with
  | nan => simp at h
  | inf s =>
      change lt (mul (inf s) y) (finite 0) = true at h
      change ¬ lt (inf s) (finite 0) = true at hx
      change ¬ lt y (finite 0) = true at hy
      cases y <;> grind [mul, lt, flips]
  | finite p =>
      cases y with
      | nan => simp at h
      | finite q =>
          rw [finite_mul, ← ofRat_zero] at h
          rw [zero_def, finite_lt_finite, not_lt] at hx hy
          exact absurd (lt_of_ofRat_lt h) (not_lt.mpr (mul_nonneg hx hy))
      | inf t =>
          change lt (mul (finite p) (inf t)) (finite 0) = true at h
          change ¬ lt (finite p) (finite 0) = true at hx
          change ¬ lt (inf t) (finite 0) = true at hy
          grind [mul, lt, flips]

theorem not_div_neg (hx : ¬ x < 0) (hy : ¬ y < 0) : ¬ x / y < 0 := by
  intro h
  cases x with
  | nan => simp at h
  | inf s =>
      change lt (div (inf s) y) (finite 0) = true at h
      change ¬ lt (inf s) (finite 0) = true at hx
      change ¬ lt y (finite 0) = true at hy
      cases y <;> grind [div, lt, flips]
  | finite p =>
      cases y with
      | nan => exact absurd h (not_nan_lt _)
      | inf t => exact absurd h not_lt_self
      | finite q =>
          rw [zero_def, finite_lt_finite, not_lt] at hx hy
          by_cases hq : q = 0
          · change lt (div (finite p) (finite q)) (finite 0) = true at h
            grind [div, lt, flips]
          · rw [finite_div p q hq, ← ofRat_zero] at h
            exact absurd (lt_of_ofRat_lt h) (not_lt.mpr (div_nonneg hx hy))

theorem inf_div_finite (s : Bool) (hq : 0 < q) : inf s / finite q = inf s := by
  change inf (xor s (flips (finite q))) = _
  simp [flips, not_lt.mpr hq.le]

theorem lt_of_div_lt_div_right {r : ℚ} (hr : 0 < r) (h : x / finite r < y / finite r) : x < y := by
  cases x with
  | nan => simp at h
  | finite p =>
      rw [finite_div p r hr.ne'] at h
      cases y with
      | nan => simp at h
      | finite q =>
          rw [finite_div q r hr.ne'] at h
          exact (finite_lt_finite p q).mpr
            (lt_of_mul_lt_mul_of_nonneg_left (by simpa [div_eq_inv_mul] using lt_of_ofRat_lt h)
              (inv_pos.mpr hr).le)
      | inf t =>
          change lt (ofRat (p / r)) (div (inf t) (finite r)) = true at h
          change lt (finite p) (inf t) = true
          cases hquotient : ofRat (p / r) <;> grind [div, lt, flips]
  | inf s =>
      rw [inf_div_finite s hr] at h
      cases s
      · exact absurd h not_inf_lt
      · cases y with
        | nan => simp at h
        | finite q => exact neg_inf_lt_finite
        | inf t => rwa [inf_div_finite t hr] at h

/-! ## Magnitudes -/

section Magnitudes

variable {j k : ℕ}

theorem atMost_zero : (0 : Double).atMost k = true :=
  (atMost_iff _ k).mpr ⟨0, rfl, by simp⟩

theorem atMost_mono (hjk : j ≤ k) (hx : x.atMost j = true) : x.atMost k = true := by
  obtain ⟨p, rfl, hp⟩ := (atMost_iff x j).mp hx
  exact (atMost_iff _ k).mpr ⟨p, rfl, hp.trans (pow_le_pow_right₀ (by norm_num) hjk)⟩

theorem atMost_ofRat (hk : k ≤ 1023) (h : |q| ≤ 2 ^ k) : (ofRat q).atMost k = true := by
  rw [ofRat_of_not_overflows (not_le.mpr (h.trans_lt (Binary64.two_pow_lt_overflowBound hk)))]
  exact (atMost_iff _ k).mpr ⟨_, rfl, Binary64.abs_nearest_le h⟩

theorem atMost_add (hk : k < 1023) (hx : x.atMost k = true) (hy : y.atMost k = true) :
    (x + y).atMost (k + 1) = true := by
  obtain ⟨p, rfl, hp⟩ := (atMost_iff x k).mp hx
  obtain ⟨q, rfl, hq⟩ := (atMost_iff y k).mp hy
  apply atMost_ofRat hk
  calc |p + q| ≤ |p| + |q| := abs_add_le p q
    _ ≤ 2 ^ k + 2 ^ k := add_le_add hp hq
    _ = 2 ^ (k + 1) := by ring

theorem atMost_neg (hx : x.atMost k = true) : (neg x).atMost k = true := by
  obtain ⟨p, rfl, hp⟩ := (atMost_iff x k).mp hx
  exact (atMost_iff _ k).mpr ⟨-p, rfl, by rwa [abs_neg]⟩

theorem atMost_sub (hk : k < 1023) (hx : x.atMost k = true) (hy : y.atMost k = true) :
    (x - y).atMost (k + 1) = true :=
  atMost_add hk hx (atMost_neg hy)

theorem atMost_mul (hjk : j + k ≤ 1023) (hx : x.atMost j = true) (hy : y.atMost k = true) :
    (x * y).atMost (j + k) = true := by
  obtain ⟨p, rfl, hp⟩ := (atMost_iff x j).mp hx
  obtain ⟨q, rfl, hq⟩ := (atMost_iff y k).mp hy
  apply atMost_ofRat hjk
  rw [abs_mul, pow_add]
  exact mul_le_mul hp hq (abs_nonneg q) (by positivity)

theorem atMost_div (hk : k ≤ 1023) (hx : x.atMost k = true) (hq : 1 ≤ |q|) :
    (x / finite q).atMost k = true := by
  obtain ⟨p, rfl, hp⟩ := (atMost_iff x k).mp hx
  rw [finite_div p q (abs_pos.mp (one_pos.trans_le hq))]
  apply atMost_ofRat hk
  rw [abs_div]
  exact (div_le_self (abs_nonneg p) hq).trans hp

theorem atMost_round (hx : x.atMost k = true) : (Floating.round x).atMost k = true := by
  obtain ⟨p, rfl, hp⟩ := (atMost_iff x k).mp hx
  have hround := abs_roundAway_le (q := p) (n := 2 ^ k) (by exact_mod_cast hp)
  push_cast at hround
  exact (atMost_iff _ k).mpr ⟨_, rfl, hround⟩

end Magnitudes

end FrogQuant.Double
