import FrogQuant.Lib.Ostream
import FrogQuant.Lib.Strtod
import Mathlib.Data.List.DropRight

/-!
# Reading back the default format

A stream prints a `double` with six significant digits, and `std::stod` reads
what it printed: the number comes back rounded to six digits.
-/

namespace FrogQuant.Ostream

open Strtod

/-! ## The printed mantissa -/

theorem ne_dot_of_isDigit {c : Char} (h : c.isDigit = true) : c ≠ '.' := by
  rintro rfl
  simp at h

theorem stripZeros_point {ip fp : Text} (hip : ∀ c ∈ ip, c.isDigit = true)
    (hfp : ∀ c ∈ fp, c.isDigit = true) :
    stripZeros (ip ++ '.' :: fp) = plainText false ip (fp.rdropWhile (· = '0')) := by
  have hmem : '.' ∈ ip ++ '.' :: fp := by simp
  have hrev : (ip ++ '.' :: fp).reverse = fp.reverse ++ '.' :: ip.reverse := by simp
  have hkeep : ∀ t : Text, (∀ c ∈ t, c.isDigit = true) → ∀ rest : Text, t ≠ [] →
      (t ++ rest).dropWhile (· = '.') = t ++ rest := by
    intro t ht rest hne
    obtain ⟨c, cs, rfl⟩ := List.exists_cons_of_ne_nil hne
    simp [ne_dot_of_isDigit (ht c List.mem_cons_self)]
  rw [stripZeros, if_pos hmem, hrev, Text.dropWhile_append_stop (by decide), List.rdropWhile,
    plainText]
  have hsub : ∀ c ∈ fp.reverse.dropWhile (· = '0'), c.isDigit = true := fun c hc ↦
    hfp c (List.mem_reverse.mp ((List.dropWhile_suffix _).subset hc))
  by_cases hnil : fp.reverse.dropWhile (· = '0') = []
  · simp only [hnil, List.nil_append, List.reverse_nil, if_true, List.append_nil,
      Bool.false_eq_true, if_false]
    by_cases hip' : ip = []
    · simp [hip']
    · have h :=
        hkeep ip.reverse (fun c hc ↦ hip c (List.mem_reverse.mp hc)) [] (by simpa using hip')
      simp only [List.append_nil] at h
      simp [h]
  · rw [hkeep _ hsub _ hnil]
    simp [hnil]

theorem fixedValue_concat_zero (ip fp : Text) :
    Decimal.fixedValue ip (fp ++ ['0']) = Decimal.fixedValue ip fp := by
  have hdigits : Nat.ofDigitChars 10 (ip ++ (fp ++ ['0'])) 0 =
      10 * Nat.ofDigitChars 10 (ip ++ fp) 0 := by
    rw [← List.append_assoc, Nat.ofDigitChars_append]
    simp [Nat.ofDigitChars]
  rw [Decimal.fixedValue, Decimal.fixedValue, hdigits, List.length_append, List.length_singleton]
  push_cast
  field_simp
  ring

theorem fixedValue_rdropWhile (ip fp : Text) :
    Decimal.fixedValue ip (fp.rdropWhile (· = '0')) = Decimal.fixedValue ip fp := by
  induction fp using List.reverseRecOn with
  | nil => rfl
  | append_singleton fp c ih =>
      rw [List.rdropWhile_concat]
      split_ifs with hc
      · obtain rfl : c = '0' := by simpa using hc
        rw [ih, fixedValue_concat_zero]
      · rfl

/-- What is printed of a scaled number is a plain decimal text of its value. -/
theorem exists_stripZeros_showScaled (k n : ℕ) :
    ∃ fp : Text, (∀ c ∈ fp, c.isDigit = true) ∧
      stripZeros (Decimal.showScaled k n) = plainText false (Decimal.showNat (n / 10 ^ k)) fp ∧
      Decimal.fixedValue (Decimal.showNat (n / 10 ^ k)) fp = (n : ℚ) / 10 ^ k := by
  have hip : ∀ c ∈ Decimal.showNat (n / 10 ^ k), c.isDigit = true :=
    fun c hc ↦ Decimal.isDigit_of_mem_showNat hc
  rcases Nat.eq_zero_or_pos k with rfl | hk
  · refine ⟨[], by simp, ?_, ?_⟩
    · have hdot : '.' ∉ Decimal.showNat n := fun h ↦
        ne_dot_of_isDigit (Decimal.isDigit_of_mem_showNat h) rfl
      simp [Decimal.showScaled, stripZeros, hdot, plainText]
    · simp [Decimal.fixedValue, Decimal.showNat, Nat.ofDigitChars_ten_toDigits]
  · have hfp : ∀ c ∈ List.leftpad k '0' (Decimal.showNat (n % 10 ^ k)), c.isDigit = true :=
      fun c hc ↦ Decimal.isDigit_of_mem_leftpad hc
    refine ⟨(List.leftpad k '0' (Decimal.showNat (n % 10 ^ k))).rdropWhile (· = '0'),
      fun c hc ↦ hfp c ((List.rdropWhile_prefix _ _).subset hc), ?_, ?_⟩
    · rw [Decimal.showScaled, if_neg hk.ne', stripZeros_point hip hfp]
    · rw [fixedValue_rdropWhile, Decimal.fixedValue_showScaled k n hk]

/-! ## Rounding to six significant digits -/

/-- The number nearest to `q` that the default format can print. -/
def roundSignificant (q : ℚ) : ℚ :=
  let e := Int.log 10 |q|
  (if q < 0 then -1 else 1) * (Decimal.roundHalfEven (|q| * 10 ^ (5 - e)) * 10 ^ (e - 5))

/-- A decimal number with at most six significant digits. -/
def HasSixDigits (q : ℚ) : Prop := ∃ m k : ℤ, |m| < 10 ^ 6 ∧ q = m * 10 ^ k

@[simp] theorem roundSignificant_zero : roundSignificant 0 = 0 := by
  have hzero : Decimal.roundHalfEven 0 = 0 := by simpa using Decimal.roundHalfEven_natCast 0
  simp [roundSignificant, hzero]

theorem scaled_bounds {q : ℚ} (hq : 0 < q) :
    10 ^ 5 ≤ q * 10 ^ (5 - Int.log 10 q) ∧ q * 10 ^ (5 - Int.log 10 q) < 10 ^ 6 := by
  have hlow := Int.zpow_log_le_self (b := 10) (by decide) hq
  have hhigh := Int.lt_zpow_succ_log_self (b := 10) (by decide) q
  push_cast at hlow hhigh
  generalize Int.log 10 q = e at hlow hhigh
  have hpos : (0 : ℚ) < 10 ^ (5 - e) := zpow_pos (by norm_num) _
  have h5 : (10 : ℚ) ^ e * 10 ^ (5 - e) = 10 ^ 5 := by
    rw [← zpow_add₀ (by norm_num)]
    norm_num
  have h6 : (10 : ℚ) ^ (e + 1) * 10 ^ (5 - e) = 10 ^ 6 := by
    rw [← zpow_add₀ (by norm_num), show e + 1 + (5 - e) = 6 by ring]
    norm_num
  constructor
  · rw [← h5]
    exact mul_le_mul_of_nonneg_right hlow hpos.le
  · rw [← h6]
    exact mul_lt_mul_of_pos_right hhigh hpos

theorem significant_spec {q : ℚ} (hq : 0 < q) :
    (significant q).2 < 10 ^ 6 ∧
      ((significant q).2 : ℚ) * 10 ^ ((significant q).1 - 5) = roundSignificant q := by
  have hbounds := scaled_bounds hq
  have hle : Decimal.roundHalfEven (q * 10 ^ (5 - Int.log 10 q)) ≤ 10 ^ 6 :=
    Decimal.roundHalfEven_le (by push_cast; exact hbounds.2.le)
  simp only [significant, roundSignificant, abs_of_pos hq, not_lt.mpr hq.le, if_false, one_mul]
  split_ifs with hcarry
  · refine ⟨by norm_num, ?_⟩
    rw [hcarry, show Int.log 10 q + 1 - 5 = 1 + (Int.log 10 q - 5) by ring,
      zpow_add₀ (by norm_num : (10 : ℚ) ≠ 0)]
    norm_num
    ring
  · exact ⟨lt_of_le_of_ne hle hcarry, rfl⟩

theorem roundSignificant_eq_sign_mul (q : ℚ) :
    roundSignificant q = (if q < 0 then -1 else 1) * roundSignificant |q| := by
  simp [roundSignificant, abs_nonneg]

theorem hasSixDigits_roundSignificant (q : ℚ) : HasSixDigits (roundSignificant q) := by
  by_cases hq : q = 0
  · rw [hq, roundSignificant_zero]
    exact ⟨0, 0, by norm_num, by norm_num⟩
  · obtain ⟨hlt, hvalue⟩ := significant_spec (abs_pos.mpr hq)
    rw [roundSignificant_eq_sign_mul, ← hvalue]
    generalize significant |q| = s at hlt
    by_cases hneg : q < 0
    · refine ⟨-s.2, s.1 - 5, ?_, by simp [hneg]⟩
      rw [abs_neg]
      exact_mod_cast hlt
    · refine ⟨s.2, s.1 - 5, ?_, by simp [hneg]⟩
      exact_mod_cast hlt

/-- Rounding moves a number by less than five millionths of it. -/
theorem abs_roundSignificant_sub_le (q : ℚ) : |roundSignificant q - q| ≤ |q| / 200001 := by
  by_cases hq : q = 0
  · simp [hq]
  · have hround := Decimal.abs_roundHalfEven_sub_le_of_le (n := 10 ^ 5)
      (by push_cast; exact (scaled_bounds (abs_pos.mpr hq)).1)
    simp only [roundSignificant]
    generalize Int.log 10 |q| = e at *
    generalize (Decimal.roundHalfEven (|q| * 10 ^ (5 - e)) : ℚ) = n at *
    have hpow : (0 : ℚ) < 10 ^ (e - 5) := zpow_pos (by norm_num) _
    have hback : |q| * 10 ^ (5 - e) * 10 ^ (e - 5) = |q| := by
      rw [mul_assoc, ← zpow_add₀ (by norm_num), show 5 - e + (e - 5) = 0 by ring]
      simp
    rw [Decimal.abs_sign_mul_sub]
    calc |n * 10 ^ (e - 5) - (|q|)|
        = |n - |q| * 10 ^ (5 - e)| * 10 ^ (e - 5) := by
          rw [← abs_of_pos hpow, ← abs_mul, abs_of_pos hpow, sub_mul, hback]
      _ ≤ |q| * 10 ^ (5 - e) / (2 * (10 ^ 5 : ℕ) + 1) * 10 ^ (e - 5) :=
          mul_le_mul_of_nonneg_right hround hpow.le
      _ = |q| * 10 ^ (5 - e) * 10 ^ (e - 5) / 200001 := by push_cast; ring
      _ = |q| / 200001 := by rw [hback]

/-! ## Numbers of six digits -/

/-- Scaled to six digits before the point, such a number is an integer. -/
theorem HasSixDigits.exists_eq {q : ℚ} (h : HasSixDigits q) (hq : 0 < q) :
    ∃ n : ℕ, 10 ^ 5 ≤ n ∧ n < 10 ^ 6 ∧ q = n * 10 ^ (Int.log 10 q - 5) := by
  obtain ⟨m, k, hm, rfl⟩ := h
  have hpow : (0 : ℚ) < 10 ^ k := zpow_pos (by norm_num) _
  have hmpos : (0 : ℚ) < m := pos_of_mul_pos_left hq hpow.le
  have hlog : Int.log 10 ((m : ℚ) * 10 ^ k) < 6 + k := by
    apply (Int.lt_zpow_iff_log_lt (by decide) hq).mp
    have hm' : (m : ℚ) < 10 ^ 6 := by exact_mod_cast (le_abs_self m).trans_lt hm
    push_cast
    rw [zpow_add₀ (by norm_num)]
    exact mul_lt_mul_of_pos_right (by exact_mod_cast hm') hpow
  have hbounds := scaled_bounds hq
  generalize Int.log 10 ((m : ℚ) * 10 ^ k) = e at hlog hbounds
  obtain ⟨j, hj⟩ := Int.eq_ofNat_of_zero_le (by omega : 0 ≤ k + (5 - e))
  have hscaled : (m : ℚ) * 10 ^ k * 10 ^ (5 - e) = (m.natAbs * 10 ^ j : ℕ) := by
    rw [mul_assoc, ← zpow_add₀ (by norm_num), hj]
    simp [Nat.cast_natAbs, abs_of_pos hmpos]
  rw [hscaled] at hbounds
  refine ⟨m.natAbs * 10 ^ j, by exact_mod_cast hbounds.1, by exact_mod_cast hbounds.2, ?_⟩
  rw [← hscaled, mul_assoc, ← zpow_add₀ (by norm_num), show 5 - e + (e - 5) = 0 by ring]
  simp

theorem HasSixDigits.neg {q : ℚ} (h : HasSixDigits q) : HasSixDigits (-q) := by
  obtain ⟨m, k, hm, rfl⟩ := h
  exact ⟨-m, k, by rwa [abs_neg], by push_cast; ring⟩

theorem roundSignificant_neg (q : ℚ) : roundSignificant (-q) = -roundSignificant q := by
  rcases lt_trichotomy q 0 with hq | rfl | hq
  · simp [roundSignificant, hq, hq.le]
  · simp
  · simp [roundSignificant, hq, hq.le]

theorem roundSignificant_of_scaled {q : ℚ} {n : ℕ} {e : ℤ} (hlow : 10 ^ e ≤ q)
    (hhigh : q < 10 ^ (e + 1)) (hnear : |q - n * 10 ^ (e - 5)| < 10 ^ (e - 5) / 2) :
    roundSignificant q = n * 10 ^ (e - 5) := by
  have hq : 0 < q := (zpow_pos (by norm_num) e).trans_le hlow
  have hlog : Int.log 10 q = e := by
    apply le_antisymm
    · exact Int.lt_add_one_iff.mp
        ((Int.lt_zpow_iff_log_lt (by decide) hq).mp (by push_cast; exact hhigh))
    · exact (Int.zpow_le_iff_le_log (by decide) hq).mp (by push_cast; exact hlow)
  have hunit : (0 : ℚ) < 10 ^ (5 - e) := zpow_pos (by norm_num) _
  have hinv : (10 : ℚ) ^ (e - 5) * 10 ^ (5 - e) = 1 := by
    rw [← zpow_add₀ (by norm_num), show e - 5 + (5 - e) = 0 by ring, zpow_zero]
  have hscaled : |q * 10 ^ (5 - e) - n| < 1 / 2 := by
    calc |q * 10 ^ (5 - e) - n| = |(q - n * 10 ^ (e - 5)) * 10 ^ (5 - e)| := by
          rw [sub_mul, mul_assoc, hinv, mul_one]
      _ = |q - n * 10 ^ (e - 5)| * 10 ^ (5 - e) := by rw [abs_mul, abs_of_pos hunit]
      _ < 10 ^ (e - 5) / 2 * 10 ^ (5 - e) := mul_lt_mul_of_pos_right hnear hunit
      _ = 1 / 2 := by rw [div_mul_eq_mul_div, hinv]
  rw [roundSignificant, abs_of_pos hq, if_neg (not_lt.mpr hq.le), one_mul, hlog,
    Decimal.roundHalfEven_of_near (mul_nonneg hq.le hunit.le) hscaled]

/-- Just below a power of ten the last of the six digits is worth a tenth, and
rounding carries back up to the power. -/
theorem roundSignificant_of_near_of_pos {d q : ℚ} (hd : HasSixDigits d) (hpos : 0 < d)
    (hnear : |q - d| * (2 * 10 ^ 6) < d) : roundSignificant q = d := by
  obtain ⟨n, hlow, hhigh, hn⟩ := hd.exists_eq hpos
  generalize Int.log 10 d = e at hn
  have hten : (10 : ℚ) ≠ 0 := by norm_num
  have hunit : (0 : ℚ) < 10 ^ (e - 5) := zpow_pos (by norm_num) _
  have hpow (k : ℕ) : (10 : ℚ) ^ (e - 5 + k) = 10 ^ k * 10 ^ (e - 5) := by
    rw [zpow_add₀ hten, zpow_natCast, mul_comm]
  have h4 : (10 : ℚ) ^ (e - 1) = 10 ^ 4 * 10 ^ (e - 5) := by rw [← hpow]; congr 1; push_cast; ring
  have h5 : (10 : ℚ) ^ e = 10 ^ 5 * 10 ^ (e - 5) := by rw [← hpow]; congr 1; push_cast; ring
  have h6 : (10 : ℚ) ^ (e + 1) = 10 ^ 6 * 10 ^ (e - 5) := by rw [← hpow]; congr 1; push_cast; ring
  have hlow' : (10 : ℚ) ^ 5 ≤ n := by exact_mod_cast hlow
  have hhigh' : (n : ℚ) + 1 ≤ 10 ^ 6 := by exact_mod_cast hhigh
  have hbelow : |q - d| < 10 ^ (e - 5) / 2 := by nlinarith
  have hq := abs_lt.mp hbelow
  by_cases hsame : 10 ^ e ≤ q
  · rw [hn] at hq hbelow ⊢
    exact roundSignificant_of_scaled hsame (by nlinarith) hbelow
  · have hn5 : n = 10 ^ 5 := by
      refine le_antisymm (Nat.lt_succ_iff.mp ?_) hlow
      have hlt : ((n : ℚ) - 1) * 10 ^ (e - 5) < 10 ^ 5 * 10 ^ (e - 5) := by
        rw [← h5]
        linarith
      have hlt' := lt_of_mul_lt_mul_right hlt hunit.le
      exact_mod_cast (by linarith : (n : ℚ) < 10 ^ 5 + 1)
    have hd5 : d = 10 ^ 5 * 10 ^ (e - 5) := by rw [hn, hn5]; norm_num
    have hsmaller : (10 : ℚ) ^ (e - 1 - 5) = 10 ^ (e - 5) / 10 := by
      rw [show e - 1 - 5 = e - 5 - 1 by ring, zpow_sub_one₀ hten, div_eq_mul_inv]
    have hcarry : d = (10 ^ 6 : ℕ) * 10 ^ (e - 1 - 5) := by
      rw [hd5, hsmaller]
      push_cast
      ring
    rw [hcarry]
    refine roundSignificant_of_scaled ?_ ?_ ?_
    · rw [h4]
      linarith
    · rw [sub_add_cancel]
      exact not_le.mp hsame
    · rw [← hcarry, hsmaller]
      linarith

/-- A number of six digits is found again from every number near it. -/
theorem roundSignificant_of_near {d q : ℚ} (hd : HasSixDigits d)
    (hnear : |q - d| * (2 * 10 ^ 6) < |d|) : roundSignificant q = d := by
  rcases lt_trichotomy d 0 with hneg | rfl | hpos
  · have hback := roundSignificant_of_near_of_pos (q := -q) hd.neg (neg_pos.mpr hneg) (by
      rwa [abs_of_neg hneg, ← abs_neg, neg_sub, show d - q = -q - -d by ring] at hnear)
    rw [roundSignificant_neg] at hback
    exact neg_injective hback
  · rw [abs_zero] at hnear
    exact absurd hnear (not_lt.mpr (by positivity))
  · rw [abs_of_pos hpos] at hnear
    exact roundSignificant_of_near_of_pos hd hpos hnear

theorem roundSignificant_eq_self_iff (q : ℚ) : roundSignificant q = q ↔ HasSixDigits q := by
  constructor
  · intro h
    rw [← h]
    exact hasSixDigits_roundSignificant q
  · intro h
    by_cases hzero : q = 0
    · simp [hzero]
    · exact roundSignificant_of_near h (by simpa using hzero)

/-- The stored value of a number of six digits prints as that number. -/
theorem roundSignificant_nearest {d : ℚ} (hd : HasSixDigits d) (hrange : inRange d = true) :
    roundSignificant (Binary64.nearest d) = d := by
  by_cases hzero : d = 0
  · simp [hzero]
  · have hpos : 0 < |d| := abs_pos.mpr hzero
    apply roundSignificant_of_near hd
    calc |Binary64.nearest d - d| * (2 * 10 ^ 6) ≤ |d| / 2 ^ 52 * (2 * 10 ^ 6) := by
          gcongr
          exact abs_nearest_sub_le_of_inRange hrange
      _ < |d| := by linarith

/-- The value that is read back differs from the one printed by at most five
millionths of it. -/
theorem abs_nearest_roundSignificant_sub_le {q : ℚ} (h : inRange (roundSignificant q) = true) :
    |Binary64.nearest (roundSignificant q) - q| ≤ |q| / 200000 := by
  have hround := abs_roundSignificant_sub_le q
  have hstored := abs_nearest_sub_le_of_inRange h
  have hsize : |roundSignificant q| ≤ |q| + |q| / 200001 := by
    calc |roundSignificant q| = |q + (roundSignificant q - q)| := by rw [add_sub_cancel]
      _ ≤ |q| + |roundSignificant q - q| := abs_add_le _ _
      _ ≤ |q| + |q| / 200001 := by gcongr
  calc |Binary64.nearest (roundSignificant q) - q|
      ≤ |Binary64.nearest (roundSignificant q) - roundSignificant q| + |roundSignificant q - q| :=
        abs_sub_le _ _ _
    _ ≤ (|q| + |q| / 200001) / 2 ^ 52 + |q| / 200001 := by linarith
    _ ≤ |q| / 200000 := by linarith [abs_nonneg q]

/-! ## The characters printed -/

theorem mem_of_mem_stripZeros {t : Text} {c : Char} (h : c ∈ stripZeros t) : c ∈ t := by
  rw [stripZeros] at h
  split_ifs at h
  · have hdrop := ((List.dropWhile_suffix _).trans (List.dropWhile_suffix _)).subset
      (List.mem_reverse.mp h)
    exact List.mem_reverse.mp hdrop
  · exact h

theorem mem_showScaled {k n : ℕ} {c : Char} (h : c ∈ Decimal.showScaled k n) :
    c.isDigit = true ∨ c = '.' := by
  rcases List.mem_append.mp h with h | h
  · exact Or.inl (Decimal.isDigit_of_mem_showNat h)
  · split_ifs at h
    · simp at h
    · rcases List.mem_cons.mp h with rfl | h
      · exact Or.inr rfl
      · exact Or.inl (Decimal.isDigit_of_mem_leftpad h)

def exponentText (e : ℤ) : Text :=
  ['e', if e < 0 then '-' else '+'] ++ List.leftpad 2 '0' (Decimal.showNat e.natAbs)

theorem mem_exponentText {e : ℤ} {c : Char} (h : c ∈ exponentText e) :
    c.isDigit = true ∨ c ∈ ['e', '-', '+'] := by
  rcases List.mem_append.mp h with h | h
  · right
    simp only [List.mem_cons, List.not_mem_nil, or_false] at h ⊢
    rcases h with rfl | rfl
    · simp
    · split_ifs <;> simp
  · exact Or.inl (Decimal.isDigit_of_mem_leftpad h)

/-- A mantissa and an exponent or nothing. -/
theorem showGeneral_finite {q : ℚ} (hq : q ≠ 0) :
    ∃ k rest, showGeneral (.finite q) = (if q < 0 then ['-'] else []) ++
        (stripZeros (Decimal.showScaled k (significant |q|).2) ++ rest) ∧
      (rest = [] ∧ (k : ℤ) = 5 - (significant |q|).1 ∨
        rest = exponentText (significant |q|).1 ∧ k = 5) := by
  simp only [showGeneral, showSpecial, if_neg hq]
  generalize significant |q| = s
  by_cases hsci : s.1 < -4 ∨ 6 ≤ s.1
  · refine ⟨5, exponentText s.1, ?_, Or.inr ⟨rfl, rfl⟩⟩
    rw [if_pos hsci, exponentText]
    simp only [List.append_assoc]
  · refine ⟨(5 - s.1).toNat, [], ?_, Or.inl ⟨rfl, Int.toNat_of_nonneg (by omega)⟩⟩
    rw [if_neg hsci, List.append_nil]

/-- The default format prints digits, points, signs and the letters of `e`,
`inf` and `nan`. -/
theorem mem_showGeneral {x : Double} {c : Char} (h : c ∈ showGeneral x) :
    c.isDigit = true ∨ c ∈ ['+', '-', '.', 'e', 'i', 'n', 'f', 'a'] := by
  cases x with
  | nan =>
      obtain h | h | h : c = 'n' ∨ c = 'a' ∨ c = 'n' := by simpa [showGeneral, showSpecial] using h
      all_goals simp [h]
  | inf neg =>
      cases neg
      · obtain h | h | h : c = 'i' ∨ c = 'n' ∨ c = 'f' := by
          simpa [showGeneral, showSpecial] using h
        all_goals simp [h]
      · obtain h | h | h | h : c = '-' ∨ c = 'i' ∨ c = 'n' ∨ c = 'f' := by
          simpa [showGeneral, showSpecial] using h
        all_goals simp [h]
  | finite q =>
      by_cases hq : q = 0
      · obtain rfl : c = '0' := by simpa [showGeneral, showSpecial, hq] using h
        exact Or.inl (by decide)
      · obtain ⟨k, rest, htext, hrest⟩ := showGeneral_finite hq
        rw [htext, List.mem_append, List.mem_append] at h
        rcases h with h | h | h
        · split_ifs at h
          · obtain rfl : c = '-' := by simpa using h
            simp
          · simp at h
        · rcases mem_showScaled (mem_of_mem_stripZeros h) with h | rfl
          · exact Or.inl h
          · simp
        · rcases hrest with ⟨rfl, -⟩ | ⟨rfl, -⟩
          · simp at h
          · rcases mem_exponentText h with h | h
            · exact Or.inl h
            · right
              simp only [List.mem_cons, List.not_mem_nil, or_false] at h ⊢
              tauto

theorem notMem_showGeneral {c : Char} (hdigit : c.isDigit = false)
    (hc : c ∉ ['+', '-', '.', 'e', 'i', 'n', 'f', 'a']) (x : Double) : c ∉ showGeneral x := by
  intro h
  rcases mem_showGeneral h with h | h
  · rw [hdigit] at h
    cases h
  · exact hc h

/-! ## Reading back -/

theorem exponent_exponentText (e : ℤ) : exponent 'e' (exponentText e) = e := by
  have hscan : (List.leftpad 2 '0' (Decimal.showNat e.natAbs)).takeWhile Char.isDigit =
      List.leftpad 2 '0' (Decimal.showNat e.natAbs) :=
    List.takeWhile_eq_self_iff.mpr fun c hc ↦ Decimal.isDigit_of_mem_leftpad hc
  have hmarker : 'e'.toLower = 'e' := by decide
  by_cases hneg : e < 0
  · simp only [exponentText, hneg, if_true, List.cons_append, List.nil_append, exponent, hmarker,
      splitSign, hscan, Decimal.ofDigitChars_leftpad]
    omega
  · have hsign : ('+' : Char) ≠ '-' := by decide
    simp only [exponentText, hneg, if_false, List.cons_append, List.nil_append, exponent, hmarker,
      splitSign, hsign, if_true, Bool.false_eq_true, hscan, Decimal.ofDigitChars_leftpad]
    omega

theorem toLower_of_mem_exponentText {e : ℤ} {c : Char} (hc : c ∈ exponentText e) :
    c.toLower ∉ ['n', 'i', 'x'] := by
  rcases mem_exponentText hc with hdigit | hc
  · have hplain : isPlain c = true := by simp [isPlain, hdigit]
    rw [toLower_of_isPlain hplain]
    intro hmem
    simp only [List.mem_cons, List.not_mem_nil, or_false] at hmem
    rcases hmem with rfl | rfl | rfl <;> exact absurd hplain (by decide)
  · simp only [List.mem_cons, List.not_mem_nil, or_false] at hc
    rcases hc with rfl | rfl | rfl <;> decide

variable [NumberFormat]

/-- A printed mantissa with an exponent, or nothing, behind it. -/
theorem stod_printed (neg : Bool) (k m : ℕ) (rest : Text)
    (hhead : ∀ c ∈ rest.head?, c.isDigit = false ∧ c ≠ '.')
    (hrest : ∀ c ∈ rest, c.toLower ∉ ['n', 'i', 'x']) {v : ℚ}
    (hv : v = (if neg then -1 else 1) * (m / 10 ^ k * 10 ^ exponent 'e' rest)) :
    stod ((if neg then ['-'] else []) ++ (stripZeros (Decimal.showScaled k m) ++ rest)) =
      if inRange v then some (ofRat v) else none := by
  obtain ⟨fp, hfp, htext, hvalue⟩ := exists_stripZeros_showScaled k m
  have hip : ∀ c ∈ Decimal.showNat (m / 10 ^ k), c.isDigit = true :=
    fun c hc ↦ Decimal.isDigit_of_mem_showNat hc
  have h := stod_plainText_append neg rest (Decimal.showNat_ne_nil _) hip hfp hhead hrest
  have hsplit : plainText neg (Decimal.showNat (m / 10 ^ k)) fp ++ rest =
      (if neg then ['-'] else []) ++ (stripZeros (Decimal.showScaled k m) ++ rest) := by
    rw [htext]
    simp [plainText]
  have hval : plainValue neg (Decimal.showNat (m / 10 ^ k)) fp * 10 ^ exponent 'e' rest = v := by
    rw [hv, plainValue, hvalue]
    cases neg <;> simp
  rwa [hsplit, hval] at h

/-- A finite number comes back rounded to six significant digits. -/
theorem stod_showGeneral (q : ℚ) :
    stod (showGeneral (.finite q)) =
      if inRange (roundSignificant q) then some (ofRat (roundSignificant q)) else none := by
  by_cases hq : q = 0
  · have h : stod (plainText false ['0'] []) = _ := stod_plainText (by decide) (by simp) (by simp)
    have hvalue : plainValue false ['0'] [] = 0 := by
      simp [plainValue, Decimal.fixedValue, Nat.ofDigitChars]
    rw [hvalue] at h
    rw [hq, roundSignificant_zero, ← h]
    rfl
  · obtain ⟨k, rest, htext, hrest⟩ := showGeneral_finite hq
    obtain ⟨-, hvalue⟩ := significant_spec (abs_pos.mpr hq)
    generalize significant |q| = s at htext hrest hvalue
    have hround : roundSignificant q = (if q < 0 then -1 else 1) * (s.2 * 10 ^ (s.1 - 5)) := by
      rw [roundSignificant_eq_sign_mul, ← hvalue]
    have hhead : ∀ c ∈ rest.head?, c.isDigit = false ∧ c ≠ '.' := by
      intro c hc
      rcases hrest with ⟨rfl, -⟩ | ⟨rfl, -⟩
      · simp at hc
      · obtain rfl : 'e' = c := by simpa [exponentText] using hc
        decide
    have hletters : ∀ c ∈ rest, c.toLower ∉ ['n', 'i', 'x'] := by
      rcases hrest with ⟨rfl, -⟩ | ⟨rfl, -⟩
      · simp
      · exact fun c hc ↦ toLower_of_mem_exponentText hc
    have hscale : (s.2 : ℚ) * 10 ^ (s.1 - 5) = s.2 / 10 ^ k * 10 ^ exponent 'e' rest := by
      have hten : (10 : ℚ) ≠ 0 := by norm_num
      rcases hrest with ⟨rfl, hk⟩ | ⟨rfl, rfl⟩
      · rw [← zpow_natCast, hk, show s.1 - 5 = -(5 - s.1) by ring, zpow_neg]
        simp [exponent, div_eq_mul_inv]
      · rw [exponent_exponentText, zpow_sub₀ hten, zpow_ofNat]
        ring
    have h := stod_printed (decide (q < 0)) k s.2 rest hhead hletters (v := roundSignificant q)
      (by rw [hround, hscale]; simp only [decide_eq_true_eq])
    simp only [decide_eq_true_eq] at h
    rw [htext, h]

end FrogQuant.Ostream
