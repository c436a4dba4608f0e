import FrogQuant.Lib.JsonTree
import FrogQuant.Lib.Significant

/-!
# Printed numbers as JSON numbers

What a stream prints of an integer or a finite number is a number of the JSON
grammar; infinities and NaN are not.
-/

namespace FrogQuant.Json

/-! ## Integers -/

theorem head_showNat (n : ℕ) :
    Decimal.showNat n = ['0'] ∨ (Decimal.showNat n).head? ≠ some '0' := by
  induction n using Nat.strongRecOn with
  | ind n ih =>
      by_cases hn : n < 10
      · have hdigit : ∀ m < 10, [Nat.digitChar m] = ['0'] ∨ [Nat.digitChar m].head? ≠ some '0' := by
          decide
        rw [Decimal.showNat, Nat.toDigits_of_lt_base hn]
        exact hdigit n hn
      · right
        have hsplit : Decimal.showNat n =
            Decimal.showNat (n / 10) ++ [Nat.digitChar (n % 10)] :=
          Nat.toDigits_of_base_le (by decide) (by omega)
        obtain ⟨c, cs, hcs⟩ := List.exists_cons_of_ne_nil (Decimal.showNat_ne_nil (n / 10))
        rw [hsplit, hcs]
        rcases ih (n / 10) (by omega) with hzero | hhead
        · have hinj := Decimal.showNat_injective (hzero.trans (Nat.toDigits_zero 10).symm)
          omega
        · simpa [hcs] using hhead

/-- An integer. -/
def intNumber (z : ℤ) : Number where
  neg := decide (z < 0)
  intPart := Decimal.showNat z.natAbs
  fracPart := []
  exponent? := none
  intPart_ne_nil := Decimal.showNat_ne_nil _
  no_leading_zero := head_showNat _
  isDigit_of_mem_int := fun _ hc ↦ Decimal.isDigit_of_mem_showNat hc
  isDigit_of_mem_frac := fun _ hc ↦ by cases hc

theorem text_intNumber (z : ℤ) : (intNumber z).text = Ostream.showInt z := by
  simp [Number.text, Number.mantissaText, Number.exponentText, Strtod.plainText, intNumber,
    Ostream.showInt]

theorem value_intNumber (z : ℤ) : (intNumber z).value = z := by
  have hnat : Decimal.fixedValue (Decimal.showNat z.natAbs) [] = (z.natAbs : ℚ) := by
    simp [Decimal.fixedValue, Decimal.showNat, Nat.ofDigitChars_ten_toDigits]
  simp only [Number.value, Number.mantissa, Number.exponent, intNumber, Strtod.plainValue,
    decide_eq_true_eq, hnat, zpow_zero, mul_one]
  split_ifs with hneg
  · rw [Nat.cast_natAbs, abs_of_neg hneg]
    simp
  · rw [Nat.cast_natAbs, abs_of_nonneg (not_lt.mp hneg)]

theorem readNumber_showInt (z : ℤ) : readNumber (Ostream.showInt z) = some (z : ℚ) := by
  rw [← text_intNumber, readNumber_text, value_intNumber]

theorem showNat_eq_showInt (n : ℕ) : Decimal.showNat n = Ostream.showInt n := by
  simp [Ostream.showInt]

/-! ## The default format -/

theorem marker_eq_printed : 'e' = 'e' ∨ 'e' = 'E' := Or.inl rfl

theorem sign_mem_printed (e : ℤ) : [if e < 0 then '-' else '+'] ∈ [[], ['+'], ['-']] := by
  split_ifs <;> decide

/-- A mantissa as it is printed, and the exponent of scientific notation. -/
def printedNumber (neg : Bool) (ip : ℕ) (fp : Text) (hfp : ∀ c ∈ fp, c.isDigit = true)
    (e? : Option ℤ) : Number where
  neg := neg
  intPart := Decimal.showNat ip
  fracPart := fp
  exponent? := e?.map fun e : ℤ ↦
    { marker := 'e'
      sign := [if e < 0 then '-' else '+']
      digits := List.leftpad 2 '0' (Decimal.showNat e.natAbs)
      marker_eq := marker_eq_printed
      sign_mem := sign_mem_printed e
      digits_ne_nil := by simp [List.leftpad, Decimal.showNat_ne_nil]
      isDigit_of_mem := fun _ hc ↦ Decimal.isDigit_of_mem_leftpad hc }
  intPart_ne_nil := Decimal.showNat_ne_nil _
  no_leading_zero := head_showNat _
  isDigit_of_mem_int := fun _ hc ↦ Decimal.isDigit_of_mem_showNat hc
  isDigit_of_mem_frac := hfp

section Printed

variable {neg : Bool} {ip : ℕ} {fp : Text} (hfp : ∀ c ∈ fp, c.isDigit = true)

theorem text_printedNumber (e? : Option ℤ) :
    (printedNumber neg ip fp hfp e?).text =
      (if neg then ['-'] else []) ++
        (Strtod.plainText false (Decimal.showNat ip) fp ++
          (e?.map Ostream.exponentText).getD []) := by
  cases e? <;> cases neg <;> by_cases hnil : fp = [] <;>
    simp [Number.text, Number.mantissaText, Number.exponentText, printedNumber, Strtod.plainText,
      Ostream.exponentText, hnil]

theorem exponent_printedNumber (e? : Option ℤ) :
    (printedNumber neg ip fp hfp e?).exponent = e?.getD 0 := by
  cases e? with
  | none => rfl
  | some e =>
      simp only [Number.exponent, printedNumber, Option.map_some, Decimal.ofDigitChars_leftpad]
      by_cases hneg : e < 0
      · simp only [hneg, if_true, Option.getD_some]
        omega
      · have hplus : ['+'] ≠ ['-'] := by decide
        simp only [hneg, if_false, hplus, Option.getD_some]
        omega

theorem value_printedNumber (e? : Option ℤ) :
    (printedNumber neg ip fp hfp e?).value =
      (if neg then -1 else 1) * (Decimal.fixedValue (Decimal.showNat ip) fp * 10 ^ e?.getD 0) := by
  rw [Number.value, exponent_printedNumber]
  cases neg <;> simp [Number.mantissa, printedNumber, Strtod.plainValue]

end Printed

/-- A finite number is printed as a number of the grammar, rounded to six
significant digits. -/
theorem exists_number_showGeneral (q : ℚ) :
    ∃ n : Number, n.text = Ostream.showGeneral (.finite q) ∧
      n.value = Ostream.roundSignificant q := by
  by_cases hq : q = 0
  · refine ⟨intNumber 0, ?_, ?_⟩
    · rw [text_intNumber, hq]
      rfl
    · rw [value_intNumber, hq, Ostream.roundSignificant_zero, Int.cast_zero]
  · obtain ⟨k, rest, htext, hrest⟩ := Ostream.showGeneral_finite hq
    obtain ⟨-, hvalue⟩ := Ostream.significant_spec (abs_pos.mpr hq)
    generalize Ostream.significant |q| = s at htext hrest hvalue
    obtain ⟨fp, hfp, hscaled, hfixed⟩ := Ostream.exists_stripZeros_showScaled k s.2
    obtain ⟨e?, hexpText, hexp⟩ : ∃ e? : Option ℤ, (e?.map Ostream.exponentText).getD [] = rest ∧
        (k : ℤ) = 5 - s.1 + e?.getD 0 := by
      rcases hrest with ⟨rfl, hk⟩ | ⟨rfl, rfl⟩
      · exact ⟨none, rfl, by rw [hk, Option.getD_none, add_zero]⟩
      · exact ⟨some s.1, rfl, by simp⟩
    refine ⟨printedNumber (decide (q < 0)) (s.2 / 10 ^ k) fp hfp e?, ?_, ?_⟩
    · rw [text_printedNumber, hexpText, htext, hscaled]
      simp only [decide_eq_true_eq]
    · have hten : (10 : ℚ) ≠ 0 := by norm_num
      have hscale : (s.2 : ℚ) / 10 ^ k * 10 ^ e?.getD 0 = s.2 * 10 ^ (s.1 - 5) := by
        rw [← zpow_natCast, hexp, div_mul_eq_mul_div, mul_div_assoc, ← zpow_sub₀ hten]
        congr 2
        ring
      rw [value_printedNumber, hfixed, hscale, Ostream.roundSignificant_eq_sign_mul, ← hvalue]
      simp only [decide_eq_true_eq]

theorem readNumber_showGeneral (q : ℚ) :
    readNumber (Ostream.showGeneral (.finite q)) = some (Ostream.roundSignificant q) := by
  obtain ⟨n, htext, hvalue⟩ := exists_number_showGeneral q
  rw [← htext, readNumber_text, hvalue]

/-! ## Leaves of a tree -/

theorem readBare_of_readNumber {t : Text} {q : ℚ} (h : readNumber t = some q) :
    readBare t = (readNumber t).map .number := by
  have hnull : t ≠ "null".toList := by
    rintro rfl
    cases h
  have htrue : t ≠ "true".toList := by
    rintro rfl
    cases h
  have hfalse : t ≠ "false".toList := by
    rintro rfl
    cases h
  rw [readBare, if_neg hnull, if_neg htrue, if_neg hfalse]

/-- A number that a stream prints. -/
inductive Printed where
  | int (z : ℤ)
  | double (x : Double)

def Printed.text : Printed → Text
  | int z => Ostream.showInt z
  | double x => Ostream.showGeneral x

/-- The text of an infinity or NaN has the characters of a number and is none. -/
def printedLeaves : Leaves Printed where
  text := Printed.text
  ne_nil := by
    rintro (z | q | neg | _)
    · simp [Printed.text, Ostream.showInt, Decimal.showNat_ne_nil]
    · obtain ⟨n, htext, -⟩ := exists_number_showGeneral q
      rw [Printed.text, ← htext]
      simp [Number.text, Number.mantissaText, Strtod.plainText, n.intPart_ne_nil]
    · cases neg <;> decide
    · decide
  isBare_of_mem := by
    rintro (z | q | neg | _) c hc
    · rw [Printed.text, ← text_intNumber] at hc
      exact isBare_of_mem_text _ hc
    · obtain ⟨n, htext, -⟩ := exists_number_showGeneral q
      rw [Printed.text, ← htext] at hc
      exact isBare_of_mem_text n hc
    · exact List.all_eq_true.mp (by cases neg <;> rfl) c hc
    · exact List.all_eq_true.mp (by rfl) c hc
  readBare_text := by
    rintro (z | q | neg | _)
    · exact readBare_of_readNumber (readNumber_showInt z)
    · exact readBare_of_readNumber (readNumber_showGeneral q)
    · cases neg <;> rfl
    · rfl

@[simp] theorem text_int (z : ℤ) : printedLeaves.text (.int z) = Ostream.showInt z := rfl

@[simp] theorem text_double (x : Double) :
    printedLeaves.text (.double x) = Ostream.showGeneral x := rfl

/-- The number that is read back, where one is. -/
theorem eval_double (x : Double) :
    Tree.eval printedLeaves (.number (.double x)) =
      match x with
      | .finite q => some (.number (Ostream.roundSignificant q))
      | _ => none := by
  rw [Tree.eval, text_double]
  cases x with
  | finite q =>
      rw [readNumber_showGeneral]
      rfl
  | inf neg => cases neg <;> rfl
  | nan => rfl

@[simp] theorem eval_int (z : ℤ) :
    Tree.eval printedLeaves (.number (.int z)) = some (.number (z : ℚ)) := by
  rw [Tree.eval, text_int, readNumber_showInt]
  rfl

@[simp] theorem isSome_eval_double (x : Double) :
    (Tree.eval printedLeaves (.number (.double x))).isSome = x.isFinite := by
  rw [eval_double]
  cases x <;> rfl

/-! ## Fixed decimals as numbers of the grammar -/

theorem exists_number_stdToString (q : ℚ) :
    ∃ n : Number, n.text = Ostream.stdToString (.finite q) ∧ n.value = Decimal.roundTo 6 q := by
  let m := Decimal.roundHalfEven (|q| * 10 ^ 6)
  have hfp : ∀ c ∈ List.leftpad 6 '0' (Decimal.showNat (m % 10 ^ 6)), c.isDigit = true :=
    fun c hc ↦ Decimal.isDigit_of_mem_leftpad hc
  have hne : List.leftpad 6 '0' (Decimal.showNat (m % 10 ^ 6)) ≠ [] := by
    simp [List.leftpad, Decimal.showNat_ne_nil]
  refine ⟨printedNumber (decide (q < 0)) (m / 10 ^ 6) _ hfp none, ?_, ?_⟩
  · rw [text_printedNumber, Strtod.plainText, if_neg hne, Option.map_none, Option.getD_none,
      List.append_nil]
    simp only [decide_eq_true_eq]
    rfl
  · rw [value_printedNumber, Decimal.fixedValue_showScaled 6 m (by decide)]
    simp [Decimal.roundTo, m]

theorem readNumber_stdToString (q : ℚ) :
    readNumber (Ostream.stdToString (.finite q)) = some (Decimal.roundTo 6 q) := by
  obtain ⟨n, htext, hvalue⟩ := exists_number_stdToString q
  rw [← htext, readNumber_text, hvalue]

/-- Numbers as `std::to_string` prints them. -/
def stdLeaves : Leaves Double where
  text := Ostream.stdToString
  ne_nil := by
    rintro (q | neg | _)
    · obtain ⟨n, htext, -⟩ := exists_number_stdToString q
      rw [← htext]
      exact n.text_ne_nil
    · cases neg <;> decide
    · decide
  isBare_of_mem := by
    rintro (q | neg | _) c hc
    · obtain ⟨n, htext, -⟩ := exists_number_stdToString q
      rw [← htext] at hc
      exact isBare_of_mem_text n hc
    · exact List.all_eq_true.mp (by cases neg <;> rfl) c hc
    · exact List.all_eq_true.mp (by rfl) c hc
  readBare_text := by
    rintro (q | neg | _)
    · exact readBare_of_readNumber (readNumber_stdToString q)
    · cases neg <;> rfl
    · rfl

theorem isSome_eval_std {x : Double} (hx : x.isFinite = true) :
    (Tree.eval stdLeaves (.number x)).isSome = true := by
  obtain ⟨q, rfl⟩ := (Double.isFinite_iff x).mp hx
  have hread : readNumber (stdLeaves.text (.finite q)) = some (Decimal.roundTo 6 q) :=
    readNumber_stdToString q
  rw [Tree.eval, hread]
  rfl

end FrogQuant.Json
