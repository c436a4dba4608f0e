import FrogQuant.Lib.Floating
import Mathlib.Tactic.NormNum

/-!
# `std::stod` and `std::stoull`

The conversion of the C library in the "C" locale: leading white space, a
sign, then the longest prefix that is a decimal or hexadecimal numeral, an
infinity or a NaN.  `stod` throws when there is no such prefix and when the
numeral is out of the range of a `double`; both are `none` here, since every
caller catches them alike.  A numeral has its exact value; what `stod` returns
of it is the value that the number format stores.
-/

namespace FrogQuant.Strtod

/-- `std::isspace` in the "C" locale. -/
def isSpace (c : Char) : Bool :=
  c = ' ' || c = '\t' || c = '\n' || c = '\x0b' || c = '\x0c' || c = '\r'

def isHexDigit (c : Char) : Bool :=
  c.isDigit || ('a' ≤ c && c ≤ 'f') || ('A' ≤ c && c ≤ 'F')

def hexDigitVal (c : Char) : ℕ :=
  if c.isDigit then c.toNat - '0'.toNat else c.toLower.toNat - 'a'.toNat + 10

def hexVal (ds : Text) : ℕ := ds.foldl (fun n c ↦ 16 * n + hexDigitVal c) 0

def splitSign : Text → Bool × Text
  | [] => (false, [])
  | c :: t => if c = '-' then (true, t) else if c = '+' then (false, t) else (false, c :: t)

def splitPoint (digit : Char → Bool) (t : Text) : Text × Text × Text :=
  let ip := t.takeWhile digit
  match t.dropWhile digit with
  | [] => (ip, [], [])
  | c :: r => if c = '.' then (ip, r.takeWhile digit, r.dropWhile digit) else (ip, [], c :: r)

/-- The exponent after a mantissa; zero unless a marker, an optional sign and
at least one digit stand there. -/
def exponent (marker : Char) : Text → ℤ
  | [] => 0
  | c :: r =>
      if c.toLower = marker then
        let (neg, r) := splitSign r
        let n : ℤ := Nat.ofDigitChars 10 (r.takeWhile Char.isDigit) 0
        if neg then -n else n
      else 0

def decimal (t : Text) : Option ℚ :=
  let (ip, fp, rest) := splitPoint Char.isDigit t
  if ip = [] ∧ fp = [] then none
  else some (Decimal.fixedValue ip fp * 10 ^ exponent 'e' rest)

/-- The numeral after `0x`; without a hexadecimal digit only the `0` counts. -/
def hexadecimal (t : Text) : ℚ :=
  let (ip, fp, rest) := splitPoint isHexDigit t
  if ip = [] ∧ fp = [] then 0
  else (hexVal (ip ++ fp) : ℚ) / 16 ^ fp.length * 2 ^ exponent 'p' rest

def startsWith (word t : Text) : Bool := (t.take word.length).map Char.toLower = word

def strtod (t : Text) : Option Double :=
  let (neg, t) := splitSign (t.dropWhile isSpace)
  if startsWith "nan" t then some .nan
  else if startsWith "inf" t then some (.inf neg)
  else
    let value := if startsWith "0x" t then some (hexadecimal (t.drop 2)) else decimal t
    value.map fun v ↦ .finite (if neg then -v else v)

/-- From this magnitude on a number rounds to a normal one. -/
def normalBound : ℚ := 1 / 2 ^ 1022 - 1 / 2 ^ 1076

/-- Neither overflow nor underflow is reported for the number: it is zero, or
it rounds to a normal number (or is a subnormal one exactly) and to no more
than the greatest. -/
def inRange (v : ℚ) : Bool :=
  decide (v = 0) ||
    ((decide (normalBound ≤ |v|) || (v * 2 ^ 1074).isInt) &&
      decide (|v| < Binary64.overflowBound))

/-- `std::stod`; `none` when it throws. -/
def stod [NumberFormat] (t : Text) : Option Double :=
  match strtod t with
  | some (.finite v) => if inRange v then some (ofRat v) else none
  | r => r

/-- `std::stoull`; a minus sign negates modulo `2 ^ 64`. -/
def stoull (t : Text) : Option ℕ :=
  let (neg, t) := splitSign (t.dropWhile isSpace)
  let digits := t.takeWhile Char.isDigit
  let n := Nat.ofDigitChars 10 digits 0
  if digits = [] ∨ 2 ^ 64 ≤ n then none
  else some (if neg then (2 ^ 64 - n) % 2 ^ 64 else n)

/-- `std::stoi`; `none` when it throws. -/
def stoi (t : Text) : Option ℤ :=
  let (neg, t) := splitSign (t.dropWhile isSpace)
  let digits := t.takeWhile Char.isDigit
  let n : ℤ := Nat.ofDigitChars 10 digits 0
  let v := if neg then -n else n
  if digits = [] ∨ v < -2 ^ 31 ∨ 2 ^ 31 ≤ v then none else some v

/-! ## Plain decimal texts -/

theorem isSpace_of_isDigit {c : Char} (h : c.isDigit = true) : isSpace c = false := by
  rw [Bool.eq_false_iff]
  intro hs
  simp only [isSpace, Bool.or_eq_true, decide_eq_true_eq] at hs
  rcases hs with ((((rfl | rfl) | rfl) | rfl) | rfl) | rfl <;> simp at h

theorem startsWith_false {t : Text} (word : Text) {c : Char} (hc : c ∈ word)
    (ht : ∀ d ∈ t, d.toLower ≠ c) : startsWith word t = false := by
  rw [startsWith, decide_eq_false_iff_not]
  intro h
  rw [← h] at hc
  obtain ⟨d, hd, hdc⟩ := List.mem_map.mp hc
  exact ht d (List.mem_of_mem_take hd) hdc

/-- The characters that a reader of plain decimals lets through. -/
def isPlain (c : Char) : Bool := c.isDigit || c = '.' || c = '-'

theorem toLower_of_isPlain {c : Char} (h : isPlain c = true) : c.toLower = c := by
  have hle : c.val.toNat ≤ 57 := by
    simp only [isPlain, Bool.or_eq_true, decide_eq_true_eq] at h
    rcases h with (h | rfl) | rfl
    · simp only [Char.isDigit, Bool.and_eq_true, decide_eq_true_eq] at h
      exact UInt32.le_iff_toNat_le.mp h.2
    · decide
    · decide
  apply dif_neg
  rintro ⟨hA, -⟩
  have hA' : 65 ≤ c.val.toNat := UInt32.le_iff_toNat_le.mp hA
  omega

theorem splitSign_suffix (t : Text) : (splitSign t).2 <:+ t := by
  cases t with
  | nil => exact List.suffix_rfl
  | cons c t =>
      rw [splitSign]
      split_ifs
      · exact List.suffix_cons c t
      · exact List.suffix_cons c t
      · exact List.suffix_rfl

theorem abs_lt_of_inRange {v : ℚ} (h : inRange v = true) : |v| < Binary64.overflowBound := by
  simp only [inRange, Bool.or_eq_true, Bool.and_eq_true, decide_eq_true_eq] at h
  rcases h with rfl | ⟨-, hbound⟩
  · rw [abs_zero]
    exact (pow_pos (by norm_num) 0).trans (Binary64.two_pow_lt_overflowBound (Nat.zero_le _))
  · exact hbound

/-- A numeral in range is a subnormal number, which is stored as it is, or of
the size of the normal ones. -/
theorem abs_nearest_sub_le_of_inRange {v : ℚ} (h : inRange v = true) :
    |Binary64.nearest v - v| ≤ |v| / 2 ^ 52 := by
  by_cases hnormal : 1 / 2 ^ 1023 ≤ |v|
  · exact Binary64.abs_nearest_sub_le_of_le hnormal
  · have hbound : normalBound ≤ |v| → 1 / 2 ^ 1023 ≤ |v| :=
      (by decide +kernel : (1 : ℚ) / 2 ^ 1023 ≤ normalBound).trans
    have hsame : Binary64.nearest v = v := by
      simp only [inRange, Bool.or_eq_true, Bool.and_eq_true, decide_eq_true_eq] at h
      rcases h with rfl | ⟨hlow | hint, -⟩
      · exact Binary64.nearest_zero
      · exact absurd (hbound hlow) hnormal
      · exact Binary64.nearest_of_subnormal ((not_le.mp hnormal).trans (by decide +kernel))
          (Rat.eq_num_of_isInt hint)
    rw [hsame, sub_self, abs_zero]
    positivity

def plainText (neg : Bool) (ip fp : Text) : Text :=
  (if neg then ['-'] else []) ++ (ip ++ if fp = [] then [] else '.' :: fp)

def plainValue (neg : Bool) (ip fp : Text) : ℚ :=
  if neg then -Decimal.fixedValue ip fp else Decimal.fixedValue ip fp

theorem isPlain_of_mem_plainText (neg : Bool) {ip fp : Text}
    (hip : ∀ c ∈ ip, c.isDigit = true) (hfp : ∀ c ∈ fp, c.isDigit = true) :
    ∀ c ∈ plainText neg ip fp, isPlain c = true := by
  intro c hc
  rcases List.mem_append.mp hc with hc | hc
  · cases neg
    · simp at hc
    · obtain rfl : c = '-' := by simpa using hc
      decide
  · rcases List.mem_append.mp hc with hc | hc
    · simp [isPlain, hip c hc]
    · split_ifs at hc with hnil
      · simp at hc
      · rcases List.mem_cons.mp hc with rfl | hc
        · decide
        · simp [isPlain, hfp c hc]

theorem splitPoint_plain {ip fp rest : Text} (hip : ∀ c ∈ ip, c.isDigit = true)
    (hfp : ∀ c ∈ fp, c.isDigit = true)
    (hrest : ∀ c ∈ rest.head?, c.isDigit = false ∧ c ≠ '.') :
    splitPoint Char.isDigit (ip ++ ((if fp = [] then [] else '.' :: fp) ++ rest)) =
      (ip, fp, rest) := by
  have hstop : ∀ c ∈ rest.head?, c.isDigit = false := fun c hc ↦ (hrest c hc).1
  by_cases hnil : fp = []
  · have hscan := Decimal.takeWhile_isDigit rest hip hstop
    simp only [splitPoint, hnil, if_true, List.nil_append, hscan.1, hscan.2]
    cases rest with
    | nil => rfl
    | cons c rest => simp [(hrest c rfl).2]
  · have hscan := Decimal.takeWhile_isDigit ('.' :: (fp ++ rest)) hip (by
      intro c hc
      obtain rfl : '.' = c := by simpa using hc
      decide)
    have hfrac := Decimal.takeWhile_isDigit rest hfp hstop
    simp [splitPoint, hnil, hscan.1, hscan.2, hfrac.1, hfrac.2]

variable [NumberFormat]

/-- What `stod` returns is the stored value of a numeral in range, or no number
at all. -/
theorem stod_cases {t : Text} {x : Double} (h : stod t = some x) :
    (∃ v, strtod t = some (.finite v) ∧ inRange v = true ∧ x = ofRat v) ∨
      strtod t = some x ∧ x.isFinite = false := by
  simp only [stod] at h
  split at h
  · next v hv =>
      split_ifs at h with hrange
      exact Or.inl ⟨v, hv, hrange, (Option.some.inj h).symm⟩
  · next hother =>
      refine Or.inr ⟨h, ?_⟩
      cases x with
      | finite v => exact absurd h (hother v)
      | inf neg => rfl
      | nan => rfl

theorem stod_isFinite {t : Text} (ht : ∀ c ∈ t, isPlain c = true) {x : Double}
    (hx : stod t = some x) : x.isFinite = true := by
  have hplain : ∀ c ∈ (splitSign (t.dropWhile isSpace)).2, isPlain c = true := fun c hc ↦
    ht c ((List.dropWhile_suffix isSpace).subset ((splitSign_suffix _).subset hc))
  have hletter : ∀ l : Char, isPlain l = false →
      ∀ d ∈ (splitSign (t.dropWhile isSpace)).2, d.toLower ≠ l := by
    intro l hl d hd hdl
    rw [toLower_of_isPlain (hplain d hd)] at hdl
    simp [← hdl, hplain d hd] at hl
  have hnan := startsWith_false "nan" (c := 'n') (by decide) (hletter 'n' (by decide))
  have hinf := startsWith_false "inf" (c := 'i') (by decide) (hletter 'i' (by decide))
  rcases stod_cases hx with ⟨v, -, hrange, rfl⟩ | ⟨hstrtod, -⟩
  · exact isFinite_ofRat (abs_lt_of_inRange hrange)
  · simp only [strtod, hnan, hinf, Bool.false_eq_true, if_false, Option.map_eq_some_iff] at hstrtod
    obtain ⟨v, -, rfl⟩ := hstrtod
    rfl

/-- A plain decimal text with an exponent, or nothing, behind it. -/
theorem stod_plainText_append (neg : Bool) {ip fp : Text} (rest : Text) (hne : ip ≠ [])
    (hip : ∀ c ∈ ip, c.isDigit = true) (hfp : ∀ c ∈ fp, c.isDigit = true)
    (hhead : ∀ c ∈ rest.head?, c.isDigit = false ∧ c ≠ '.')
    (hrest : ∀ c ∈ rest, c.toLower ∉ ['n', 'i', 'x']) :
    stod (plainText neg ip fp ++ rest) =
      if inRange (plainValue neg ip fp * 10 ^ exponent 'e' rest)
        then some (ofRat (plainValue neg ip fp * 10 ^ exponent 'e' rest)) else none := by
  obtain ⟨d, ds, rfl⟩ := List.exists_cons_of_ne_nil hne
  have hd : d.isDigit = true := hip d List.mem_cons_self
  have hdspace := isSpace_of_isDigit hd
  have hdsign : d ≠ '-' ∧ d ≠ '+' := by
    constructor <;> rintro rfl <;> simp at hd
  set body : Text := (d :: ds) ++ ((if fp = [] then [] else '.' :: fp) ++ rest) with hbody
  have hsign : splitSign ((plainText neg (d :: ds) fp ++ rest).dropWhile isSpace) =
      (neg, body) := by
    cases neg
    · simp [plainText, hbody, hdspace, splitSign, hdsign]
    · simp [plainText, hbody, isSpace, splitSign]
  have hletter : ∀ l ∈ ['n', 'i', 'x'], ∀ c ∈ body, c.toLower ≠ l := by
    intro l hl c hc hcl
    have hplain : isPlain l = false := by
      simp only [List.mem_cons, List.not_mem_nil, or_false] at hl
      rcases hl with rfl | rfl | rfl <;> decide
    rw [hbody, ← List.append_assoc, List.mem_append] at hc
    rcases hc with hc | hc
    · have hc' := isPlain_of_mem_plainText neg hip hfp c (List.mem_append_right _ hc)
      rw [toLower_of_isPlain hc'] at hcl
      simp [← hcl, hc'] at hplain
    · exact hrest c hc (hcl ▸ hl)
  have hnan := startsWith_false "nan" (c := 'n') (by decide) (hletter 'n' (by decide))
  have hinf := startsWith_false "inf" (c := 'i') (by decide) (hletter 'i' (by decide))
  have hhex := startsWith_false "0x" (c := 'x') (by decide) (hletter 'x' (by decide))
  have hdec : decimal body =
      some (Decimal.fixedValue (d :: ds) fp * 10 ^ exponent 'e' rest) := by
    rw [decimal, hbody, splitPoint_plain hip hfp hhead]
    simp
  have hvalue : plainValue neg (d :: ds) fp * 10 ^ exponent 'e' rest =
      if neg then -(Decimal.fixedValue (d :: ds) fp * 10 ^ exponent 'e' rest)
        else Decimal.fixedValue (d :: ds) fp * 10 ^ exponent 'e' rest := by
    cases neg <;> simp [plainValue]
  simp only [stod, strtod, hsign, hnan, hinf, hhex, hdec, hvalue, Bool.false_eq_true, if_false,
    Option.map_some]

theorem stod_plainText {neg : Bool} {ip fp : Text} (hne : ip ≠ [])
    (hip : ∀ c ∈ ip, c.isDigit = true) (hfp : ∀ c ∈ fp, c.isDigit = true) :
    stod (plainText neg ip fp) =
      if inRange (plainValue neg ip fp) then some (ofRat (plainValue neg ip fp)) else none := by
  have h := stod_plainText_append neg [] hne hip hfp (by simp) (by simp)
  simpa [exponent] using h

end FrogQuant.Strtod
