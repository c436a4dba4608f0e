import FrogQuant.Lib.Decimal
import FrogQuant.Lib.Floating
import Mathlib.Data.Int.Log

/-!
# Numbers as output streams print them

`operator<<` for integers, and for `double` with `std::fixed` and without it;
`std::to_string` prints a `double` with six fixed decimals.
-/

namespace FrogQuant.Ostream

def showInt (n : ℤ) : Text :=
  (if n < 0 then ['-'] else []) ++ Decimal.showNat n.natAbs

def showBool (b : Bool) : Text := if b then "true" else "false"

def showSpecial (finite : ℚ → Text) : Double → Text
  | .finite q => finite q
  | .inf neg => if neg then "-inf" else "inf"
  | .nan => "nan"

/-- `std::fixed << std::setprecision(k)`. -/
def showFixed (k : ℕ) : Double → Text := showSpecial (Decimal.showFixed k)

def stdToString : Double → Text := showFixed 6

def stripZeros (t : Text) : Text :=
  if '.' ∈ t then
    ((t.reverse.dropWhile (· = '0')).dropWhile (· = '.')).reverse
  else t

/-- The exponent and the six significant digits of a positive number; rounding
up may carry into the next power of ten. -/
def significant (q : ℚ) : ℤ × ℕ :=
  let e := Int.log 10 q
  let m := Decimal.roundHalfEven (q * 10 ^ (5 - e))
  if m = 10 ^ 6 then (e + 1, 10 ^ 5) else (e, m)

/-- The default format of a stream: six significant digits, in scientific
notation when the exponent is below -4 or above 5. -/
def showGeneral : Double → Text :=
  showSpecial fun q ↦
    if q = 0 then "0"
    else
      let (e, m) := significant |q|
      (if q < 0 then ['-'] else []) ++
        if e < -4 ∨ 6 ≤ e then
          stripZeros (Decimal.showScaled 5 m) ++ ['e', if e < 0 then '-' else '+'] ++
            List.leftpad 2 '0' (Decimal.showNat e.natAbs)
        else stripZeros (Decimal.showScaled (5 - e).toNat m)

end FrogQuant.Ostream
