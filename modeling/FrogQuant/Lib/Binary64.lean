import FrogQuant.Lib.Decimal
import Mathlib.Data.Int.Log

/-!
# The nearest `double`

Rounding to 53 significant binary digits, ties to even, with the spacing of the
subnormal numbers below `2 ^ (-1022)`.  Rounding is odd and monotone and moves a
number by at most half of the spacing; integers below `2 ^ 53` are kept.
-/

namespace FrogQuant.Binary64

/-- The distance between the values of the type around `q`. -/
def quantum (q : ℚ) : ℚ := 2 ^ (max (Int.log 2 |q|) (-1022) - 52)

def nearest (q : ℚ) : ℚ :=
  (if q < 0 then -1 else 1) * (Decimal.roundHalfEven (|q| / quantum q) * quantum q)

/-- From this magnitude on a number is rounded to an infinity. -/
def overflowBound : ℚ := 2 ^ 1024 - 2 ^ 970

def Overflows (q : ℚ) : Prop := overflowBound ≤ |q|

instance (q : ℚ) : Decidable (Overflows q) := inferInstanceAs (Decidable (_ ≤ _))

theorem two_pow_lt_overflowBound {n : ℕ} (h : n ≤ 1023) : 2 ^ n < overflowBound := by
  have hlast : (2 : ℚ) ^ 1023 < overflowBound := by decide +kernel
  exact (pow_le_pow_right₀ (by norm_num) h).trans_lt hlast

/-! ## Order and distance -/

theorem quantum_pos (q : ℚ) : 0 < quantum q := zpow_pos (by norm_num) _

theorem quantum_neg (q : ℚ) : quantum (-q) = quantum q := by rw [quantum, quantum, abs_neg]

@[simp] theorem nearest_zero : nearest 0 = 0 := by
  have hzero : Decimal.roundHalfEven 0 = 0 := by simpa using Decimal.roundHalfEven_natCast 0
  simp [nearest, hzero]

theorem nearest_of_nonneg {q : ℚ} (hq : 0 ≤ q) :
    nearest q = Decimal.roundHalfEven (q / quantum q) * quantum q := by
  rw [nearest, if_neg (not_lt.mpr hq), one_mul, abs_of_nonneg hq]

theorem nearest_neg (q : ℚ) : nearest (-q) = -nearest q := by
  rcases lt_trichotomy q 0 with hq | rfl | hq
  · simp [nearest, quantum_neg, hq, hq.le]
  · simp
  · simp [nearest, quantum_neg, hq, hq.le]

theorem nearest_nonneg {q : ℚ} (hq : 0 ≤ q) : 0 ≤ nearest q := by
  rw [nearest_of_nonneg hq]
  exact mul_nonneg (Nat.cast_nonneg _) (quantum_pos q).le

/-- A number has at most 53 digits before the last place. -/
theorem div_quantum_lt {q : ℚ} (hq : 0 ≤ q) : q / quantum q < 2 ^ 53 := by
  have hlog := Int.lt_zpow_succ_log_self (b := 2) (by decide) q
  rw [div_lt_iff₀ (quantum_pos q), quantum, abs_of_nonneg hq, ← zpow_natCast,
    ← zpow_add₀ (by norm_num : (2 : ℚ) ≠ 0)]
  push_cast at hlog
  exact hlog.trans_le (zpow_le_zpow_right₀ (by norm_num) (by omega))

theorem le_div_quantum {q : ℚ} (hq : 0 < q) (hnormal : -1022 ≤ Int.log 2 q) :
    2 ^ 52 ≤ q / quantum q := by
  have hlog := Int.zpow_log_le_self (b := 2) (by decide) hq
  rw [le_div_iff₀ (quantum_pos q), quantum, abs_of_pos hq, ← zpow_natCast,
    ← zpow_add₀ (by norm_num : (2 : ℚ) ≠ 0)]
  push_cast at hlog
  exact (zpow_le_zpow_right₀ (by norm_num) (by omega)).trans hlog

/-- Within one spacing the rounding of the scaled numbers is monotone; between
two spacings lies a power of two. -/
theorem nearest_mono_of_pos {p q : ℚ} (hp : 0 < p) (hpq : p ≤ q) : nearest p ≤ nearest q := by
  have hq := hp.trans_le hpq
  have hlog : Int.log 2 p ≤ Int.log 2 q := Int.log_mono_right hp hpq
  rw [nearest_of_nonneg hp.le, nearest_of_nonneg hq.le]
  by_cases hsame : max (Int.log 2 p) (-1022) = max (Int.log 2 q) (-1022)
  · have hquantum : quantum p = quantum q := by
      rw [quantum, quantum, abs_of_pos hp, abs_of_pos hq, hsame]
    have hscaled : p / quantum q ≤ q / quantum q :=
      div_le_div_of_nonneg_right hpq (quantum_pos q).le
    rw [hquantum]
    exact mul_le_mul_of_nonneg_right (Nat.cast_le.mpr (Decimal.roundHalfEven_mono hscaled))
      (quantum_pos q).le
  · have hbelow : Decimal.roundHalfEven (p / quantum p) ≤ 2 ^ 53 :=
      Decimal.roundHalfEven_le (by exact_mod_cast (div_quantum_lt hp.le).le)
    have habove : 2 ^ 52 ≤ Decimal.roundHalfEven (q / quantum q) :=
      Decimal.le_roundHalfEven (by exact_mod_cast le_div_quantum hq (by omega))
    have hspacing : 2 * quantum p ≤ quantum q := by
      rw [quantum, quantum, abs_of_pos hp, abs_of_pos hq, ← zpow_one_add₀ (by norm_num)]
      exact zpow_le_zpow_right₀ (by norm_num) (by omega)
    calc (Decimal.roundHalfEven (p / quantum p) : ℚ) * quantum p
        ≤ 2 ^ 53 * quantum p :=
          mul_le_mul_of_nonneg_right (by exact_mod_cast hbelow) (quantum_pos p).le
      _ = 2 ^ 52 * (2 * quantum p) := by ring
      _ ≤ 2 ^ 52 * quantum q := mul_le_mul_of_nonneg_left hspacing (by positivity)
      _ ≤ Decimal.roundHalfEven (q / quantum q) * quantum q :=
          mul_le_mul_of_nonneg_right (by exact_mod_cast habove) (quantum_pos q).le

theorem nearest_mono {p q : ℚ} (hpq : p ≤ q) : nearest p ≤ nearest q := by
  rcases lt_trichotomy p 0 with hp | rfl | hp
  · rcases lt_or_ge q 0 with hq | hq
    · have hneg := nearest_mono_of_pos (neg_pos.mpr hq) (neg_le_neg hpq)
      rw [nearest_neg, nearest_neg] at hneg
      exact neg_le_neg_iff.mp hneg
    · have hneg := nearest_nonneg (neg_pos.mpr hp).le
      rw [nearest_neg] at hneg
      exact (neg_nonneg.mp hneg).trans (nearest_nonneg hq)
  · rw [nearest_zero]
    exact nearest_nonneg hpq
  · exact nearest_mono_of_pos hp hpq

/-- Rounding moves a number by at most half of the spacing. -/
theorem abs_nearest_sub_le (q : ℚ) : |nearest q - q| ≤ quantum q / 2 := by
  have hquantum := quantum_pos q
  have hround := Decimal.abs_roundHalfEven_sub_le (q := |q| / quantum q)
    (div_nonneg (abs_nonneg q) hquantum.le)
  have hback : |q| / quantum q * quantum q = |q| := div_mul_cancel₀ _ hquantum.ne'
  rw [nearest, Decimal.abs_sign_mul_sub]
  calc |Decimal.roundHalfEven (|q| / quantum q) * quantum q - (|q|)|
      = |(Decimal.roundHalfEven (|q| / quantum q) : ℚ) - |q| / quantum q| * quantum q := by
        rw [← abs_of_pos hquantum, ← abs_mul, abs_of_pos hquantum, sub_mul, hback]
    _ ≤ 1 / 2 * quantum q := mul_le_mul_of_nonneg_right hround hquantum.le
    _ = quantum q / 2 := by ring

/-- Away from zero the spacing is small against the number. -/
theorem abs_nearest_sub_le_of_le {q : ℚ} (h : 1 / 2 ^ 1023 ≤ |q|) :
    |nearest q - q| ≤ |q| / 2 ^ 52 := by
  have hpos : 0 < |q| := (by positivity : (0 : ℚ) < 1 / 2 ^ 1023).trans_le h
  have hunit : (2 : ℚ) ^ max (Int.log 2 |q|) (-1022) ≤ 2 * |q| := by
    rcases le_total (-1022) (Int.log 2 |q|) with hlog | hlog
    · have hlow := Int.zpow_log_le_self (b := 2) (by decide) hpos
      push_cast at hlow
      rw [max_eq_left hlog]
      linarith
    · have hlast : (2 : ℚ) ^ (-1022 : ℤ) = 2 * (1 / 2 ^ 1023) := by decide +kernel
      rw [max_eq_right hlog, hlast]
      exact mul_le_mul_of_nonneg_left h (by norm_num)
  have hsplit : quantum q = 2 ^ max (Int.log 2 |q|) (-1022) / 2 ^ 52 := by
    rw [quantum, zpow_sub₀ (by norm_num)]
    norm_cast
  calc |nearest q - q| ≤ quantum q / 2 := abs_nearest_sub_le q
    _ ≤ 2 * |q| / 2 ^ 52 / 2 := by
        rw [hsplit]
        gcongr
    _ = |q| / 2 ^ 52 := by ring

/-- A multiple of the spacing is kept. -/
theorem nearest_of_int_mul {q : ℚ} {n : ℤ} (hn : q = n * quantum q) : nearest q = q := by
  have hquantum := quantum_pos q
  have habs : |q| / quantum q = n.natAbs := by
    have hmul := congrArg abs hn
    rw [abs_mul, abs_of_pos hquantum] at hmul
    rw [Nat.cast_natAbs, Int.cast_abs, div_eq_iff hquantum.ne', hmul]
  have hback : (n.natAbs : ℚ) * quantum q = |q| := by
    rw [← habs, div_mul_cancel₀ _ hquantum.ne']
  rw [nearest, habs, Decimal.roundHalfEven_natCast, hback]
  exact Decimal.sign_mul_abs q

theorem nearest_two_pow (k : ℕ) : nearest (2 ^ k) = 2 ^ k := by
  have htwo : (2 : ℚ) ≠ 0 := by norm_num
  apply nearest_of_int_mul (n := 2 ^ 52)
  have hlog : Int.log 2 ((2 : ℚ) ^ (k : ℤ)) = k := by
    exact_mod_cast Int.log_zpow (R := ℚ) (b := 2) (by decide) k
  rw [zpow_natCast] at hlog
  rw [quantum, abs_of_pos (by positivity), hlog, max_eq_left (by omega), zpow_sub₀ htwo,
    zpow_natCast]
  push_cast
  rw [mul_div_assoc']
  exact (mul_div_cancel_left₀ _ (by positivity)).symm

/-- Rounding stays within the powers of two. -/
theorem abs_nearest_le {q : ℚ} {k : ℕ} (h : |q| ≤ 2 ^ k) : |nearest q| ≤ 2 ^ k := by
  have hkept : nearest (2 ^ k) = 2 ^ k := nearest_two_pow k
  have hq := abs_le.mp h
  have hlow := nearest_mono hq.1
  rw [nearest_neg, hkept] at hlow
  exact abs_le.mpr ⟨hlow, (nearest_mono hq.2).trans_eq hkept⟩

/-- Below the normal numbers the values are the multiples of one unit. -/
theorem nearest_of_subnormal {q : ℚ} (hq : |q| < 2 ^ (-1022 : ℤ)) {n : ℤ} (hn : q * 2 ^ 1074 = n) :
    nearest q = q := by
  by_cases hzero : q = 0
  · rw [hzero, nearest_zero]
  · have hlog : Int.log 2 |q| < -1022 :=
      (Int.lt_zpow_iff_log_lt (by decide) (abs_pos.mpr hzero)).mp (by exact_mod_cast hq)
    have hquantum : quantum q = (2 ^ 1074)⁻¹ := by
      rw [quantum, max_eq_right hlog.le, ← zpow_natCast, ← zpow_neg]
      rfl
    apply nearest_of_int_mul (n := n)
    rw [hquantum, ← hn, mul_assoc, mul_inv_cancel₀ (pow_ne_zero _ (by norm_num)), mul_one]

/-! ## Integers -/

theorem abs_intCast (n : ℤ) : |(n : ℚ)| = n.natAbs := by
  rw [Nat.cast_natAbs, Int.cast_abs]

theorem quantum_intCast (n : ℤ) : quantum n = 2 ^ ((Nat.log 2 n.natAbs : ℤ) - 52) := by
  rw [quantum, abs_intCast, Int.log_natCast, max_eq_left (by omega)]

/-- The last place of an integer below `2 ^ 53` is at most one. -/
theorem nearest_of_log_le {n : ℤ} (h : Nat.log 2 n.natAbs ≤ 52) : nearest n = n := by
  have htwo : (2 : ℚ) ≠ 0 := by norm_num
  obtain ⟨k, hk⟩ := Nat.exists_eq_add_of_le h
  have hquantum : quantum n = (2 ^ k)⁻¹ := by
    rw [quantum_intCast, ← zpow_natCast, ← zpow_neg]
    congr 1
    omega
  have hscaled : |(n : ℚ)| / quantum n = ((n.natAbs * 2 ^ k : ℕ) : ℚ) := by
    rw [abs_intCast, hquantum, div_inv_eq_mul]
    push_cast
    rfl
  have hpow : (2 : ℚ) ^ k ≠ 0 := pow_ne_zero k htwo
  rw [nearest, hscaled, Decimal.roundHalfEven_natCast, hquantum]
  push_cast
  rw [mul_assoc, mul_inv_cancel₀ hpow, mul_one, ← abs_intCast]
  exact Decimal.sign_mul_abs n

theorem nearest_of_lt {n : ℤ} (h : n.natAbs < 2 ^ 53) : nearest n = n := by
  apply nearest_of_log_le
  by_cases hzero : n.natAbs = 0
  · simp [hzero]
  · exact Nat.lt_succ_iff.mp (Nat.log_lt_of_lt_pow hzero h)

/-- Larger integers stay apart from the smaller ones. -/
theorem le_nearest_of_le {n : ℤ} (h : 2 ^ 53 ≤ n) : 2 ^ 53 ≤ nearest n := by
  have hkept : nearest (2 ^ 53) = 2 ^ 53 := by decide +kernel
  rw [← hkept]
  exact nearest_mono (by exact_mod_cast h)

end FrogQuant.Binary64
