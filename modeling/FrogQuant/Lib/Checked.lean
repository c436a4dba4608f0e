import FrogQuant.Lib.Strtod

/-!
# Texts read position by position

The operations of `std::string` that can fail, with their failures: indexing,
comparing and taking a substring ask for a position in the text, and a
conversion throws.  A scanning loop is an index that moves up to the end.
-/

namespace FrogQuant

/-- A position that is not in the text is kept apart from a conversion that
throws, so that no `catch` hides it. -/
inductive Fault where
  | position (pos : ℕ)
  | conversion
  deriving DecidableEq

abbrev Checked (α : Type) := Except Fault α

namespace Checked

/-- `body[pos]` -/
def get (body : Text) (pos : ℕ) : Checked Char :=
  match body[pos]? with
  | some c => .ok c
  | none => .error (.position pos)

/-- `body.substr(pos, n)`; a position at the end is allowed. -/
def substr (body : Text) (pos n : ℕ) : Checked Text :=
  if pos ≤ body.length then .ok (body.substr pos n) else .error (.position pos)

/-- `body.compare(pos, n, word) == 0` -/
def compare (body : Text) (pos n : ℕ) (word : Text) : Checked Bool := do
  return (← substr body pos n) = word

def stod [NumberFormat] (t : Text) : Checked Double :=
  match Strtod.stod t with
  | some x => .ok x
  | none => .error .conversion

/-- `try { … } catch (...)` around a conversion. -/
def caught {α : Type} : Checked α → Checked (Option α)
  | .ok a => .ok (some a)
  | .error .conversion => .ok none
  | .error (.position pos) => .error (.position pos)

/-- `while (pos < body.size() && p(body[pos])) ++pos;` -/
def scan (p : Char → Bool) (body : Text) (pos : ℕ) : Checked ℕ :=
  if pos < body.length then do
    if p (← get body pos) then scan p body (pos + 1) else return pos
  else return pos
termination_by body.length - pos

/-! ## Where nothing fails -/

@[simp] theorem ok_bind {α β : Type} (a : α) (f : α → Checked β) :
    ((.ok a : Checked α) >>= f) = f a := rfl

@[simp] theorem pure_eq {α : Type} (a : α) : (pure a : Checked α) = .ok a := rfl

theorem get_eq_ok {body : Text} {pos : ℕ} {c : Char} (h : body[pos]? = some c) :
    get body pos = .ok c := by
  rw [get, h]

theorem substr_eq_ok {body : Text} {pos : ℕ} (h : pos ≤ body.length) (n : ℕ) :
    substr body pos n = .ok (body.substr pos n) :=
  if_pos h

theorem compare_eq_ok {body : Text} {pos : ℕ} (h : pos ≤ body.length) (n : ℕ) (word : Text) :
    compare body pos n word = .ok (decide (body.substr pos n = word)) := by
  rw [compare, substr_eq_ok h]
  rfl

theorem caught_stod [NumberFormat] (t : Text) : caught (stod t) = .ok (Strtod.stod t) := by
  rw [stod]
  cases Strtod.stod t <;> rfl

/-- The loop moves to the end of the stretch and reads nothing behind the
text. -/
theorem scan_eq_ok (p : Char → Bool) (body : Text) (pos : ℕ) :
    scan p body pos = .ok (pos + Text.spanLength p body pos) := by
  fun_induction scan p body pos with
  | case1 pos hlt ih =>
      have hget := get_eq_ok (List.getElem?_eq_getElem hlt)
      have hspan : Text.spanLength p body pos =
          if p body[pos] then Text.spanLength p body (pos + 1) + 1 else 0 := by
        rw [Text.spanLength, List.drop_eq_getElem_cons hlt, List.takeWhile_cons]
        split_ifs <;> rfl
      rw [hget, hspan]
      change (if p body[pos] then scan p body (pos + 1) else .ok pos) = _
      rw [ih]
      split_ifs
      · rw [Nat.add_assoc, Nat.add_comm 1]
      · rfl
  | case2 pos hge =>
      rw [Text.spanLength, List.drop_eq_nil_of_le (not_lt.mp hge)]
      rfl

theorem scan_le (p : Char → Bool) (body : Text) (pos : ℕ) :
    pos + Text.spanLength p body pos ≤ max pos body.length := by
  have hlength := (List.takeWhile_sublist (l := body.drop pos) p).length_le
  rw [List.length_drop] at hlength
  rw [Text.spanLength]
  omega

end Checked

end FrogQuant
