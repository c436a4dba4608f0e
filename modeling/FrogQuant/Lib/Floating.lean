import FrogQuant.Lib.Binary64
import Mathlib.Algebra.Order.Floor.Ring

/-!
# Number types a program computes with

`Floating` collects the operations of `double` that programs use, so that one
program text runs over two number types: the exact rationals, and `Double`,
which adds the infinities and NaN with the IEEE comparisons.  What `Double`
stores of an exact result is left to the number format: `binary64` rounds it to
the nearest value and overflows, `exact` keeps it, for results about prices
that are taken as exact decimals.
-/

namespace FrogQuant

/-- The operations of `double`: the field operations and comparisons, `fabs`,
`std::round`, and literals. -/
class Floating (α : Type) extends Zero α, Add α, Sub α, Mul α, Div α, LT α, LE α where
  fabs : α → α
  round : α → α
  lit : ℚ → α
  decLT : DecidableLT α
  decLE : DecidableLE α
  zero_le_zero : (0 : α) ≤ 0

attribute [reducible, instance] Floating.decLT Floating.decLE

export Floating (fabs lit)

def roundAway (q : ℚ) : ℤ :=
  if 0 ≤ q then ⌊q + 1 / 2⌋ else -⌊-q + 1 / 2⌋

instance : Floating ℚ where
  fabs q := |q|
  round q := roundAway q
  lit q := q
  decLT := inferInstance
  decLE := inferInstance
  zero_le_zero := le_rfl

@[simp] theorem fabs_rat (q : ℚ) : fabs q = |q| := rfl

@[simp] theorem lit_rat (q : ℚ) : (lit q : ℚ) = q := rfl

/-! ## Values with infinities and NaN -/

/-- A `double`: a number, an infinity (`inf true` is the negative one), or
NaN.  The two zeros are not told apart. -/
inductive Double where
  | finite (q : ℚ)
  | inf (neg : Bool)
  | nan
  deriving DecidableEq

namespace Double

def neg : Double → Double
  | finite q => finite (-q)
  | inf s => inf !s
  | nan => nan

def flips : Double → Bool
  | finite q => decide (q < 0)
  | inf s => s
  | nan => false

/-- Ordered comparison; false whenever a NaN takes part. -/
def lt : Double → Double → Bool
  | finite p, finite q => decide (p < q)
  | finite _, inf s => !s
  | inf s, finite _ => s
  | inf s, inf t => s && !t
  | nan, _ => false
  | _, nan => false

def le : Double → Double → Bool
  | finite p, finite q => decide (p ≤ q)
  | finite _, inf s => !s
  | inf s, finite _ => s
  | inf s, inf t => s || !t
  | nan, _ => false
  | _, nan => false

def mapFinite (f : ℚ → ℚ) : Double → Double
  | finite q => finite (f q)
  | inf s => inf s
  | nan => nan

def abs : Double → Double
  | finite q => finite |q|
  | inf _ => inf false
  | nan => nan

def isFinite : Double → Bool
  | finite _ => true
  | _ => false

/-- A number of at most `2 ^ k`. -/
def atMost (k : ℕ) : Double → Bool
  | finite q => decide (|q| ≤ 2 ^ k)
  | _ => false

end Double

/-- How an exact number is stored; one below the overflow bound stays a
number. -/
class NumberFormat where
  ofRat : ℚ → Double
  isFinite_ofRat {q : ℚ} : |q| < Binary64.overflowBound → (ofRat q).isFinite = true

export NumberFormat (ofRat isFinite_ofRat)

/-- Rounding to nearest, ties to even, with overflow to the infinities. -/
instance NumberFormat.binary64 : NumberFormat where
  ofRat q :=
    if |q| < Binary64.overflowBound then .finite (Binary64.nearest q) else .inf (decide (q < 0))
  isFinite_ofRat h := by
    rw [if_pos h]
    rfl

/-- Every number is stored as it is. -/
@[reducible] def NumberFormat.exact : NumberFormat where
  ofRat := .finite
  isFinite_ofRat _ := rfl

namespace Double

/-! ## Arithmetic -/

section Arithmetic

variable [NumberFormat]

def add : Double → Double → Double
  | finite p, finite q => ofRat (p + q)
  | finite _, inf s => inf s
  | inf s, finite _ => inf s
  | inf s, inf t => if s = t then inf s else nan
  | nan, _ => nan
  | _, nan => nan

def mul : Double → Double → Double
  | finite p, finite q => ofRat (p * q)
  | finite p, inf s => if p = 0 then nan else inf (xor (flips (finite p)) s)
  | inf s, finite q => if q = 0 then nan else inf (xor s (flips (finite q)))
  | inf s, inf t => inf (xor s t)
  | nan, _ => nan
  | _, nan => nan

def div : Double → Double → Double
  | finite p, finite q =>
      if q ≠ 0 then ofRat (p / q) else if p = 0 then nan else inf (flips (finite p))
  | finite _, inf _ => finite 0
  | inf s, finite q => inf (xor s (flips (finite q)))
  | inf _, inf _ => nan
  | nan, _ => nan
  | _, nan => nan

/-- `std::round` of a finite value is exact. -/
instance : Floating Double where
  zero := finite 0
  add := add
  sub x y := add x (neg y)
  mul := mul
  div := div
  lt x y := lt x y = true
  le x y := le x y = true
  fabs := abs
  round := mapFinite fun q ↦ roundAway q
  lit := ofRat
  decLT := fun _ _ ↦ inferInstanceAs (Decidable (_ = true))
  decLE := fun _ _ ↦ inferInstanceAs (Decidable (_ = true))
  zero_le_zero := rfl

variable (p q : ℚ) (x : Double)

theorem zero_def : (0 : Double) = finite 0 := rfl

@[simp] theorem lit_eq : (lit q : Double) = ofRat q := rfl

@[simp] theorem finite_add : finite p + finite q = ofRat (p + q) := rfl

@[simp] theorem finite_sub : finite p - finite q = ofRat (p - q) := by
  change ofRat (p + -q) = _
  rw [sub_eq_add_neg]

@[simp] theorem finite_mul : finite p * finite q = ofRat (p * q) := rfl

@[simp] theorem finite_div (hq : q ≠ 0) : finite p / finite q = ofRat (p / q) := by
  change div (finite p) (finite q) = _
  simp [div, hq]

@[simp] theorem fabs_finite : fabs (finite q) = finite |q| := rfl

@[simp] theorem fabs_nan : fabs nan = nan := rfl

@[simp] theorem finite_lt_finite : finite p < finite q ↔ p < q := by
  change decide (p < q) = true ↔ _
  simp

@[simp] theorem finite_le_finite : finite p ≤ finite q ↔ p ≤ q := by
  change decide (p ≤ q) = true ↔ _
  simp

@[simp] theorem finite_le_zero : finite p ≤ 0 ↔ p ≤ 0 := finite_le_finite p 0

@[simp] theorem zero_lt_finite : 0 < finite q ↔ 0 < q := finite_lt_finite 0 q

@[simp] theorem nan_add : nan + x = nan := by cases x <;> rfl

@[simp] theorem add_nan : x + nan = nan := by cases x <;> rfl

@[simp] theorem nan_sub : nan - x = nan := nan_add (neg x)

@[simp] theorem div_nan : x / nan = nan := by cases x <;> rfl

@[simp] theorem nan_div : nan / x = nan := by cases x <;> rfl

@[simp] theorem round_nan : Floating.round nan = nan := rfl

@[simp] theorem nan_mul : nan * x = nan := by cases x <;> rfl

@[simp] theorem mul_nan : x * nan = nan := by cases x <;> rfl

@[simp] theorem not_lt_nan : ¬ x < nan := by cases x <;> exact Bool.false_ne_true

@[simp] theorem not_nan_lt : ¬ nan < x := by cases x <;> exact Bool.false_ne_true

@[simp] theorem not_nan_le : ¬ nan ≤ x := by cases x <;> exact Bool.false_ne_true

@[simp] theorem not_le_nan : ¬ x ≤ nan := by cases x <;> exact Bool.false_ne_true

theorem not_le_of_lt {x y : Double} (h : x < y) : ¬ y ≤ x := by
  change ¬ le y x = true
  change lt x y = true at h
  cases x <;> cases y <;> simp_all [lt, le]

theorem not_lt_iff {x y : Double} (hx : x ≠ nan) (hy : y ≠ nan) : ¬ x < y ↔ y ≤ x := by
  change ¬ lt x y = true ↔ le y x = true
  cases x <;> cases y <;> simp_all [lt, le]
  case inf.inf s t => cases s <;> cases t <;> simp

theorem finite_mul_inf (s : Bool) (hp : 0 < p) : finite p * inf s = inf s := by
  change mul (finite p) (inf s) = _
  simp [mul, flips, hp.ne', not_lt.mpr hp.le]

@[simp] theorem inf_le_zero (s : Bool) : inf s ≤ 0 ↔ s = true := Iff.rfl

end Arithmetic

variable (q : ℚ) (x : Double)

@[simp] theorem isFinite_finite : (finite q).isFinite = true := rfl

theorem isFinite_iff : x.isFinite = true ↔ ∃ q, x = finite q := by
  cases x <;> simp [isFinite]

theorem atMost_iff (k : ℕ) : x.atMost k = true ↔ ∃ q, x = finite q ∧ |q| ≤ 2 ^ k := by
  cases x <;> simp [atMost]

theorem isFinite_of_atMost {k : ℕ} {x : Double} (h : x.atMost k = true) : x.isFinite = true := by
  obtain ⟨q, rfl, -⟩ := (atMost_iff x k).mp h
  rfl

section Bounds

variable [NumberFormat] {q}

theorem isFinite_ofRat_of_le {k : ℕ} (hk : k ≤ 1023) (h : |q| ≤ 2 ^ k) :
    (ofRat q).isFinite = true :=
  isFinite_ofRat (h.trans_lt (Binary64.two_pow_lt_overflowBound hk))

/-- The number of an order is a number in the log. -/
theorem isFinite_lit_natCast {n : ℕ} (h : n < 2 ^ 64) : (lit (n : ℚ) : Double).isFinite = true := by
  refine isFinite_ofRat_of_le (k := 64) (by decide) ?_
  rw [Nat.abs_cast]
  exact_mod_cast h.le

end Bounds

/-! ## The two formats -/

@[simp] theorem ofRat_exact : NumberFormat.exact.ofRat q = finite q := rfl

variable {q}

theorem ofRat_of_not_overflows (h : ¬ Binary64.Overflows q) :
    ofRat q = finite (Binary64.nearest q) :=
  if_pos (not_le.mp h)

theorem ofRat_of_overflows (h : Binary64.Overflows q) : ofRat q = inf (decide (q < 0)) :=
  if_neg (not_lt.mpr h)

theorem ofRat_cases_of_nonneg (hq : 0 ≤ q) :
    Binary64.Overflows q ∧ ofRat q = inf false ∨
      ¬ Binary64.Overflows q ∧ ofRat q = finite (Binary64.nearest q) ∧ 0 ≤ Binary64.nearest q := by
  by_cases hover : Binary64.Overflows q
  · left
    rw [ofRat_of_overflows hover, decide_eq_false (not_lt.mpr hq)]
    exact ⟨hover, rfl⟩
  · right
    exact ⟨hover, ofRat_of_not_overflows hover, Binary64.nearest_nonneg hq⟩

theorem isFinite_ofRat_iff : (ofRat q).isFinite = true ↔ ¬ Binary64.Overflows q := by
  constructor
  · intro h hover
    rw [ofRat_of_overflows hover] at h
    cases h
  · exact fun h ↦ isFinite_ofRat (not_le.mp h)

theorem ofRat_natCast {n : ℕ} (h : n < 2 ^ 53) : ofRat n = finite n := by
  have hnearest : Binary64.nearest ((n : ℤ) : ℚ) = (n : ℤ) :=
    Binary64.nearest_of_lt (by simpa using h)
  rw [Int.cast_natCast] at hnearest
  have hn : (n : ℚ) < 2 ^ 53 := by exact_mod_cast h
  rw [ofRat_of_not_overflows, hnearest]
  rw [Binary64.Overflows, not_le, Nat.abs_cast]
  exact hn.trans (Binary64.two_pow_lt_overflowBound (by decide))

/-- Below `2 ^ 53` a natural number shares its `double` with no other. -/
theorem ofRat_natCast_inj {m n : ℕ} (hm : m < 2 ^ 53) : ofRat m = ofRat n ↔ m = n := by
  refine ⟨fun h ↦ ?_, fun h ↦ h ▸ rfl⟩
  rw [ofRat_natCast hm] at h
  rcases lt_or_ge n (2 ^ 53) with hn | hn
  · rw [ofRat_natCast hn, finite.injEq, Nat.cast_inj] at h
    exact h
  · exfalso
    by_cases hover : Binary64.Overflows n
    · rw [ofRat_of_overflows hover] at h
      cases h
    · have hlow := Binary64.le_nearest_of_le (n := n) (by exact_mod_cast hn)
      rw [ofRat_of_not_overflows hover, finite.injEq] at h
      rw [Int.cast_natCast, ← h] at hlow
      exact absurd hm (not_lt.mpr (by exact_mod_cast hlow))

theorem ofRat_ne_nan : ofRat q ≠ nan := by
  by_cases h : Binary64.Overflows q
  · rw [ofRat_of_overflows h]
    simp
  · rw [ofRat_of_not_overflows h]
    simp

end Double

end FrogQuant
