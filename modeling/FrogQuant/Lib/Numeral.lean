import FrogQuant.Lib.Strtod

/-!
# Whole numerals

Texts that are a numeral of a type from their first character to their last,
with the number they denote.  The conversions of the C library, which take the
longest prefix, agree on them.
-/

namespace FrogQuant.Numeral

open Strtod

/-- Digits and nothing else. -/
def allDigits (t : Text) : Bool := !t.isEmpty && t.all Char.isDigit

/-- An `int`: digits, possibly with a sign. -/
def int (t : Text) : Option ℤ :=
  let (neg, ds) := splitSign t
  let n : ℤ := Nat.ofDigitChars 10 ds 0
  let v := if neg then -n else n
  if allDigits ds ∧ -2 ^ 31 ≤ v ∧ v < 2 ^ 31 then some v else none

/-- A `size_t`: digits, without a sign. -/
def size (t : Text) : Option ℕ :=
  let n := Nat.ofDigitChars 10 t 0
  if allDigits t ∧ n < 2 ^ 64 then some n else none

/-- Nothing, or an exponent with at least one digit. -/
def exponentPart : Text → Bool
  | [] => true
  | c :: r => c.toLower = 'e' && allDigits (splitSign r).2

/-- A decimal `double`: digits with a point among them or without, possibly with
a sign and an exponent. -/
def double [NumberFormat] (t : Text) : Option Double :=
  let (neg, t) := splitSign t
  let (ip, fp, rest) := splitPoint Char.isDigit t
  let v := Decimal.fixedValue ip fp * 10 ^ exponent 'e' rest
  let v := if neg then -v else v
  if ¬ (ip = [] ∧ fp = []) ∧ exponentPart rest ∧ inRange v then some (ofRat v) else none

theorem allDigits_iff {t : Text} :
    allDigits t = true ↔ t ≠ [] ∧ ∀ c ∈ t, c.isDigit = true := by
  simp [allDigits, List.all_eq_true]

/-! ## The conversions on whole numerals -/

/-- No blank is skipped before a sign or before a character that is no
blank. -/
theorem dropWhile_isSpace_of_splitSign {t : Text}
    (h : ∀ c ∈ (splitSign t).2.head?, isSpace c = false) : t.dropWhile isSpace = t := by
  cases t with
  | nil => rfl
  | cons c t =>
      have hc : isSpace c = false := by
        rw [splitSign] at h
        split_ifs at h with hminus hplus
        · rw [hminus]
          decide
        · rw [hplus]
          decide
        · exact h c rfl
      rw [List.dropWhile_cons, hc, if_neg Bool.false_ne_true]

theorem isSpace_head_of_allDigits {t : Text} (h : allDigits t = true) :
    ∀ c ∈ t.head?, isSpace c = false := fun c hc ↦
  isSpace_of_isDigit ((allDigits_iff.mp h).2 c (List.mem_of_mem_head? hc))

theorem takeWhile_of_allDigits {t : Text} (h : allDigits t = true) :
    t.takeWhile Char.isDigit = t :=
  List.takeWhile_eq_self_iff.mpr (allDigits_iff.mp h).2

theorem stoi_of_int {t : Text} {n : ℤ} (h : int t = some n) : stoi t = some n := by
  simp only [int, Option.ite_none_right_eq_some] at h
  obtain ⟨⟨hdigits, hlo, hhi⟩, hv⟩ := h
  have hdrop := dropWhile_isSpace_of_splitSign (isSpace_head_of_allDigits hdigits)
  have hne := (allDigits_iff.mp hdigits).1
  simp only [stoi, hdrop, takeWhile_of_allDigits hdigits, hne, false_or]
  rw [if_neg (by omega)]
  exact hv

theorem splitSign_of_allDigits {t : Text} (h : allDigits t = true) : splitSign t = (false, t) := by
  obtain ⟨hne, hdigits⟩ := allDigits_iff.mp h
  obtain ⟨c, rest, rfl⟩ := List.exists_cons_of_ne_nil hne
  have hc := hdigits c List.mem_cons_self
  have hsign : c ≠ '-' ∧ c ≠ '+' := by
    constructor <;> rintro rfl <;> simp at hc
  rw [splitSign, if_neg hsign.1, if_neg hsign.2]

theorem stoull_of_size {t : Text} {n : ℕ} (h : size t = some n) : stoull t = some n := by
  simp only [size, Option.ite_none_right_eq_some] at h
  obtain ⟨⟨hdigits, hlt⟩, hv⟩ := h
  have hsign := splitSign_of_allDigits hdigits
  have hdrop : t.dropWhile isSpace = t :=
    dropWhile_isSpace_of_splitSign (by rw [hsign]; exact isSpace_head_of_allDigits hdigits)
  have hne := (allDigits_iff.mp hdigits).1
  simp only [stoull, hdrop, hsign, takeWhile_of_allDigits hdigits, hne, false_or]
  rw [if_neg (by omega)]
  exact hv

/-- A mantissa begins with a digit or with the point. -/
theorem head_of_mantissa {t : Text}
    (h : ¬ ((splitPoint Char.isDigit t).1 = [] ∧ (splitPoint Char.isDigit t).2.1 = [])) :
    ∃ c r, t = c :: r ∧ (c.isDigit = true ∨ c = '.') := by
  cases t with
  | nil => exact absurd ⟨rfl, rfl⟩ h
  | cons c r =>
      refine ⟨c, r, rfl, ?_⟩
      by_contra hc
      rw [not_or] at hc
      apply h
      simp [splitPoint, hc.1, hc.2]

/-- What looks like a hexadecimal numeral has no exponent behind its zero. -/
theorem not_startsWith_hex {t : Text}
    (hmantissa : ¬ ((splitPoint Char.isDigit t).1 = [] ∧ (splitPoint Char.isDigit t).2.1 = []))
    (hrest : exponentPart (splitPoint Char.isDigit t).2.2 = true) : startsWith "0x" t = false := by
  obtain ⟨c, r, rfl, hc⟩ := head_of_mantissa hmantissa
  rw [startsWith, decide_eq_false_iff_not]
  intro hword
  cases r with
  | nil => simp at hword
  | cons d r =>
      obtain ⟨hc0, hdx⟩ : c.toLower = '0' ∧ d.toLower = 'x' := by simpa using hword
      have hcdigit : c.isDigit = true := by
        apply hc.resolve_right
        rintro rfl
        exact absurd hc0 (by decide)
      have hd : d.isDigit = false ∧ d ≠ '.' := by
        constructor
        · rw [Bool.eq_false_iff]
          intro hdigit
          rw [toLower_of_isPlain (by simp [isPlain, hdigit])] at hdx
          subst hdx
          exact absurd hdigit (by decide)
        · rintro rfl
          exact absurd hdx (by decide)
      have hsplit : (splitPoint Char.isDigit (c :: d :: r)).2.2 = d :: r := by
        simp [splitPoint, hcdigit, hd.1, hd.2]
      rw [hsplit, exponentPart, hdx] at hrest
      simp at hrest

theorem stod_of_double [NumberFormat] {t : Text} {x : Double} (h : double t = some x) :
    stod t = some x := by
  simp only [double, Option.ite_none_right_eq_some] at h
  obtain ⟨⟨hmantissa, hexponent, hrange⟩, hv⟩ := h
  obtain ⟨c, r, hbody, hc⟩ := head_of_mantissa hmantissa
  have hplain : isPlain c = true := by
    rcases hc with hc | rfl
    · simp [isPlain, hc]
    · decide
  have hspace : isSpace c = false := by
    rcases hc with hc | rfl
    · exact isSpace_of_isDigit hc
    · decide
  have hdrop : t.dropWhile isSpace = t := by
    apply dropWhile_isSpace_of_splitSign
    rw [hbody]
    rintro _ ⟨⟩
    exact hspace
  have hword : ∀ (l : Char) (word : Text), isPlain l = false →
      startsWith (l :: word) (splitSign t).2 = false := by
    intro l word hl
    rw [startsWith, decide_eq_false_iff_not, hbody]
    intro heq
    have hhead : c.toLower = l := by simpa using congrArg List.head? heq
    rw [toLower_of_isPlain hplain] at hhead
    rw [hhead, hl] at hplain
    cases hplain
  have hnan : startsWith "nan" (splitSign t).2 = false := hword 'n' ['a', 'n'] (by decide)
  have hinf : startsWith "inf" (splitSign t).2 = false := hword 'i' ['n', 'f'] (by decide)
  have hhex := not_startsWith_hex hmantissa hexponent
  simp only [stod, strtod, hdrop, hnan, hinf, hhex, decimal, if_neg hmantissa, Bool.false_eq_true,
    if_false, Option.map_some, hrange, if_true]
  exact hv

end FrogQuant.Numeral
