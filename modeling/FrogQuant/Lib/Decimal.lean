import Mathlib.Algebra.Order.Floor.Semiring
import Mathlib.Data.Rat.Floor
import Mathlib.Tactic.FieldSimp
import Mathlib.Tactic.Linarith
import Mathlib.Tactic.Ring
import FrogQuant.Lib.Text

/-!
# Decimal numerals

Printing a rational with a fixed number of decimals, as `std::fixed` with
`std::setprecision(k)` does, and the number a plain decimal text denotes.
-/

namespace FrogQuant.Decimal

def fixedValue (ip fp : Text) : ℚ :=
  (Nat.ofDigitChars 10 (ip ++ fp) 0 : ℚ) / 10 ^ fp.length

def readUnsigned (t : Text) : Option ℚ :=
  let ip := t.takeWhile Char.isDigit
  match t.dropWhile Char.isDigit with
  | [] => if ip = [] then none else some (fixedValue ip [])
  | c :: fp =>
      if c = '.' ∧ ip ≠ [] ∧ fp ≠ [] ∧ fp.all Char.isDigit then some (fixedValue ip fp)
      else none

/-- The number a text of the form `-12.34` denotes. -/
def read : Text → Option ℚ
  | [] => none
  | c :: t => if c = '-' then (readUnsigned t).map (- ·) else readUnsigned (c :: t)

/-- Nearest natural number, ties to the even one. -/
def roundHalfEven (q : ℚ) : ℕ :=
  let n := ⌊q⌋₊
  if q - n < 1 / 2 then n
  else if 1 / 2 < q - n then n + 1
  else if n % 2 = 0 then n else n + 1

def showNat (n : ℕ) : Text := Nat.toDigits 10 n

def showScaled (k n : ℕ) : Text :=
  showNat (n / 10 ^ k) ++
    if k = 0 then [] else '.' :: List.leftpad k '0' (showNat (n % 10 ^ k))

/-- `q` with `k` decimals, `std::fixed << std::setprecision(k)`. -/
def showFixed (k : ℕ) (q : ℚ) : Text :=
  (if q < 0 then ['-'] else []) ++ showScaled k (roundHalfEven (|q| * 10 ^ k))

def roundTo (k : ℕ) (q : ℚ) : ℚ :=
  (if q < 0 then -1 else 1) * ((roundHalfEven (|q| * 10 ^ k) : ℚ) / 10 ^ k)

def HasDecimals (k : ℕ) (q : ℚ) : Prop := (q * 10 ^ k).isInt = true

instance (k : ℕ) (q : ℚ) : Decidable (HasDecimals k q) :=
  inferInstanceAs (Decidable (_ = true))

theorem hasDecimals_iff (k : ℕ) (q : ℚ) :
    HasDecimals k q ↔ ∃ n : ℤ, q * 10 ^ k = n := by
  rw [HasDecimals, Rat.isInt, beq_iff_eq]
  constructor
  · intro h
    exact ⟨(q * 10 ^ k).num, (Rat.den_eq_one_iff _).mp h |>.symm⟩
  · rintro ⟨n, hn⟩
    rw [hn]
    rfl

/-! ## Digits -/

theorem showNat_ne_nil (n : ℕ) : showNat n ≠ [] := Nat.toDigits_ne_nil

theorem isDigit_of_mem_showNat {n : ℕ} {c : Char} (h : c ∈ showNat n) : c.isDigit = true :=
  Nat.isDigit_of_mem_toDigits (by decide) (by decide) h

theorem isDigit_of_mem_leftpad {k n : ℕ} {c : Char}
    (hc : c ∈ List.leftpad k '0' (showNat n)) : c.isDigit = true := by
  rcases List.mem_append.mp hc with hc | hc
  · rw [List.eq_of_mem_replicate hc]
    decide
  · exact isDigit_of_mem_showNat hc

theorem showNat_injective : Function.Injective showNat := by
  intro m n h
  have hval := congrArg (fun ds ↦ Nat.ofDigitChars 10 ds 0) h
  simpa [showNat, Nat.ofDigitChars_ten_toDigits] using hval

theorem length_showNat_le {k n : ℕ} (hk : 0 < k) (hn : n < 10 ^ k) : (showNat n).length ≤ k :=
  (Nat.length_toDigits_le_iff (by decide) hk).mpr hn

theorem ofDigitChars_leftpad (k n : ℕ) :
    Nat.ofDigitChars 10 (List.leftpad k '0' (showNat n)) 0 = n := by
  simp [List.leftpad, showNat, Nat.ofDigitChars_append, Nat.ofDigitChars_replicate_zero,
    Nat.ofDigitChars_ten_toDigits]

theorem takeWhile_isDigit {ds : Text} (rest : Text) (hds : ∀ c ∈ ds, c.isDigit = true)
    (hrest : ∀ c ∈ rest.head?, c.isDigit = false) :
    (ds ++ rest).takeWhile Char.isDigit = ds ∧ (ds ++ rest).dropWhile Char.isDigit = rest := by
  have hstop : rest.takeWhile Char.isDigit = [] ∧ rest.dropWhile Char.isDigit = rest := by
    cases rest with
    | nil => exact ⟨rfl, rfl⟩
    | cons c cs =>
        have hc : c.isDigit = false := hrest c rfl
        simp [List.takeWhile, List.dropWhile, hc]
  rw [List.takeWhile_append_of_pos hds, List.dropWhile_append_of_pos hds, hstop.1, hstop.2]
  simp

/-! ## Reading back what was printed -/

theorem fixedValue_showScaled (k n : ℕ) (hk : 0 < k) :
    fixedValue (showNat (n / 10 ^ k)) (List.leftpad k '0' (showNat (n % 10 ^ k))) =
      (n : ℚ) / 10 ^ k := by
  have hlen : (List.leftpad k '0' (showNat (n % 10 ^ k))).length = k := by
    rw [List.length_leftpad]
    exact max_eq_left (length_showNat_le hk (Nat.mod_lt n (by positivity)))
  rw [fixedValue, hlen, Nat.ofDigitChars_append, Nat.ofDigitChars_eq_ofDigitChars_zero, hlen,
    ofDigitChars_leftpad, showNat, Nat.ofDigitChars_ten_toDigits, Nat.div_add_mod]

theorem readUnsigned_showScaled (k n : ℕ) (hk : 0 < k) :
    readUnsigned (showScaled k n) = some ((n : ℚ) / 10 ^ k) := by
  have hdot : ∀ c ∈ ('.' :: List.leftpad k '0' (showNat (n % 10 ^ k))).head?,
      c.isDigit = false := by
    intro c hc
    obtain rfl : '.' = c := by simpa using hc
    decide
  have hscan := takeWhile_isDigit _ (fun c hc ↦ isDigit_of_mem_showNat (n := n / 10 ^ k) hc) hdot
  have hpad : ∀ c ∈ List.leftpad k '0' (showNat (n % 10 ^ k)), c.isDigit = true :=
    fun c hc ↦ isDigit_of_mem_leftpad hc
  have hne : List.leftpad k '0' (showNat (n % 10 ^ k)) ≠ [] := by
    simp [List.leftpad, showNat_ne_nil]
  rw [readUnsigned, showScaled, if_neg hk.ne', hscan.1, hscan.2]
  simp only [showNat_ne_nil, ne_eq, not_false_eq_true, hne, List.all_eq_true.mpr hpad, and_self,
    if_true, fixedValue_showScaled k n hk]

/-- Printed decimals denote the rounded number. -/
theorem read_showFixed (k : ℕ) (hk : 0 < k) (q : ℚ) :
    read (showFixed k q) = some (roundTo k q) := by
  rw [showFixed, roundTo]
  generalize roundHalfEven (|q| * 10 ^ k) = n
  have hunsigned := readUnsigned_showScaled k n hk
  by_cases hq : q < 0
  · simp [hq, read, hunsigned]
  · have hhead : ∃ c cs, showScaled k n = c :: cs ∧ c ≠ '-' := by
      obtain ⟨c, cs, hcs⟩ := List.exists_cons_of_ne_nil (showNat_ne_nil (n / 10 ^ k))
      refine ⟨c, _, by rw [showScaled, hcs]; rfl, ?_⟩
      rintro rfl
      have hc := isDigit_of_mem_showNat (n := n / 10 ^ k) (c := '-') (by simp [hcs])
      simp at hc
    obtain ⟨c, cs, hcs, hc⟩ := hhead
    rw [hcs] at hunsigned ⊢
    simp [hq, read, hc, hunsigned]

/-! ## Rounding to decimals -/

theorem roundHalfEven_natCast (n : ℕ) : roundHalfEven n = n := by
  simp [roundHalfEven]

theorem abs_roundHalfEven_sub_le {q : ℚ} (hq : 0 ≤ q) : |(roundHalfEven q : ℚ) - q| ≤ 1 / 2 := by
  have hlow : (⌊q⌋₊ : ℚ) ≤ q := Nat.floor_le hq
  have hhigh : q < ⌊q⌋₊ + 1 := Nat.lt_floor_add_one q
  simp only [roundHalfEven]
  rw [abs_le]
  split_ifs with hbelow habove heven <;> push_cast <;> constructor <;> linarith

theorem sign_mul_abs (q : ℚ) : (if q < 0 then -1 else 1) * |q| = q := by
  split_ifs with hneg
  · rw [abs_of_neg hneg]
    ring
  · rw [abs_of_nonneg (not_lt.mp hneg), one_mul]

/-- What is rounded without its sign is as far off as with it. -/
theorem abs_sign_mul_sub (q x : ℚ) : |(if q < 0 then -1 else 1) * x - q| = |x - (|q|)| := by
  have hsign : |(if q < 0 then -1 else 1 : ℚ)| = 1 := by split_ifs <;> simp
  have hq := sign_mul_abs q
  calc |(if q < 0 then -1 else 1) * x - q| = |(if q < 0 then -1 else 1) * (x - |q|)| := by
        rw [mul_sub, hq]
    _ = |x - (|q|)| := by rw [abs_mul, hsign, one_mul]

theorem roundHalfEven_of_near {q : ℚ} (hq : 0 ≤ q) {n : ℕ} (h : |q - n| < 1 / 2) :
    roundHalfEven q = n := by
  have hround := abs_le.mp (abs_roundHalfEven_sub_le hq)
  have hnear := abs_lt.mp h
  have hbelow : roundHalfEven q < n + 1 := by
    exact_mod_cast (by linarith : (roundHalfEven q : ℚ) < n + 1)
  have habove : n < roundHalfEven q + 1 := by
    exact_mod_cast (by linarith : (n : ℚ) < roundHalfEven q + 1)
  omega

theorem roundHalfEven_mono {p q : ℚ} (h : p ≤ q) : roundHalfEven p ≤ roundHalfEven q := by
  rcases (Nat.floor_mono h).lt_or_eq with hlt | heq
  · simp only [roundHalfEven]
    split_ifs <;> omega
  · simp only [roundHalfEven, heq]
    generalize ⌊q⌋₊ = n
    split_ifs with hp hq hq hp' hq' heven hq' heven <;> first | omega | linarith

theorem roundHalfEven_le {n : ℕ} {q : ℚ} (h : q ≤ n) : roundHalfEven q ≤ n :=
  (roundHalfEven_mono h).trans_eq (roundHalfEven_natCast n)

theorem le_roundHalfEven {n : ℕ} {q : ℚ} (h : (n : ℚ) ≤ q) : n ≤ roundHalfEven q :=
  (roundHalfEven_natCast n).symm.trans_le (roundHalfEven_mono h)

/-- Close to `n` nothing is lost by half, and further up half is less. -/
theorem abs_roundHalfEven_sub_le_of_le {n : ℕ} {q : ℚ} (h : (n : ℚ) ≤ q) :
    |(roundHalfEven q : ℚ) - q| ≤ q / (2 * n + 1) := by
  have hn : (0 : ℚ) ≤ n := Nat.cast_nonneg n
  have hhalf := abs_le.mp (abs_roundHalfEven_sub_le (hn.trans h))
  have hlow : (n : ℚ) ≤ roundHalfEven q := by exact_mod_cast le_roundHalfEven h
  rw [le_div_iff₀ (by positivity)]
  rcases le_or_gt (roundHalfEven q : ℚ) q with hdown | hup
  · rw [abs_of_nonpos (sub_nonpos.mpr hdown)]
    nlinarith
  · have habove : (n : ℚ) + 1 ≤ roundHalfEven q := by exact_mod_cast h.trans_lt hup
    rw [abs_of_pos (sub_pos.mpr hup)]
    nlinarith

theorem roundTo_nonpos (k : ℕ) {q : ℚ} (hq : q ≤ 0) : roundTo k q ≤ 0 := by
  have hfrac : (0 : ℚ) ≤ (roundHalfEven (|q| * 10 ^ k) : ℚ) / 10 ^ k := by positivity
  rcases hq.lt_or_eq with hlt | rfl
  · rw [roundTo, if_pos hlt]
    linarith
  · have hzero : roundHalfEven (|(0 : ℚ)| * 10 ^ k) = 0 := by
      simpa using roundHalfEven_natCast 0
    rw [roundTo, hzero]
    simp

theorem roundTo_eq_self_iff (k : ℕ) (q : ℚ) : roundTo k q = q ↔ HasDecimals k q := by
  have hpow : (10 : ℚ) ^ k ≠ 0 := by positivity
  rw [hasDecimals_iff]
  constructor
  · intro h
    by_cases hq : q < 0
    · refine ⟨-roundHalfEven (|q| * 10 ^ k), ?_⟩
      rw [roundTo, if_pos hq] at h
      generalize roundHalfEven (|q| * 10 ^ k) = n at h
      rw [← h]
      push_cast
      field_simp
    · refine ⟨roundHalfEven (|q| * 10 ^ k), ?_⟩
      rw [roundTo, if_neg hq] at h
      generalize roundHalfEven (|q| * 10 ^ k) = n at h
      rw [← h]
      push_cast
      field_simp
  · rintro ⟨n, hn⟩
    have habs : |q| * 10 ^ k = (n.natAbs : ℚ) := by
      rw [Nat.cast_natAbs, Int.cast_abs, ← hn, abs_mul,
        abs_of_pos (by positivity : (0 : ℚ) < 10 ^ k)]
    rw [roundTo, habs, roundHalfEven_natCast, ← habs, mul_div_cancel_right₀ _ hpow]
    exact sign_mul_abs q

end FrogQuant.Decimal
