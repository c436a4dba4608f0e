import FrogQuant.Lib.Text
import Mathlib.Algebra.GroupWithZero.Nat

/-!
# Texts with separators

Lines and fields are the pieces between separators; a pair is cut at the first
separator of its own.
-/

namespace FrogQuant.Text

variable {c : Char}

theorem notMem_of_mem_splitOn {t seg : Text} (h : seg ∈ t.splitOn c) : c ∉ seg := by
  induction t generalizing seg with
  | nil => simp_all
  | cons d t ih =>
      rw [List.splitOn_cons_eq_if_modifyHead] at h
      split_ifs at h with hd
      · rcases List.mem_cons.mp h with rfl | h
        · exact List.not_mem_nil
        · exact ih h
      · obtain ⟨first, others, hsplit⟩ := List.exists_cons_of_ne_nil (List.splitOn_ne_nil c t)
        rw [hsplit, List.modifyHead_cons] at h
        rcases List.mem_cons.mp h with rfl | h
        · have hfirst : c ∉ first := ih (hsplit ▸ List.mem_cons_self)
          have hne : c ≠ d := fun heq ↦ hd (by simp [heq])
          exact List.not_mem_cons_of_ne_of_not_mem hne hfirst
        · exact ih (hsplit ▸ List.mem_cons_of_mem _ h)

theorem length_splitOn (c : Char) (t : Text) : (t.splitOn c).length = t.count c + 1 := by
  induction t with
  | nil => rfl
  | cons d t ih =>
      rw [List.splitOn_cons_eq_if_modifyHead, List.count_cons]
      split_ifs with hd
      · rw [List.length_cons, ih]
      · rw [List.length_modifyHead, ih]

/-- What stands before the first `c` and what stands behind it. -/
def cut (c : Char) (t : Text) : Text × Text :=
  (t.takeWhile (· ≠ c), (t.dropWhile (· ≠ c)).drop 1)

theorem takeWhile_ne {t : Text} (h : c ∉ t) : t.takeWhile (· ≠ c) = t :=
  List.takeWhile_eq_self_iff.mpr fun d hd ↦ by
    simpa using fun heq : d = c ↦ h (heq ▸ hd)

theorem dropWhile_ne {t : Text} (h : c ∉ t) : t.dropWhile (· ≠ c) = [] :=
  List.dropWhile_eq_nil_iff.mpr fun d hd ↦ by
    simpa using fun heq : d = c ↦ h (heq ▸ hd)

theorem cut_append {front : Text} (h : c ∉ front) (rest : Text) :
    cut c (front ++ c :: rest) = (front, rest) := by
  have hstop : decide (c ≠ c) = false := by simp
  rw [cut, takeWhile_append_stop hstop, dropWhile_append_stop hstop, takeWhile_ne h,
    dropWhile_ne h]
  rfl

/-! ## Queries -/

/-- A parameter of a query. -/
def field (p : Text × Text) : Text := p.1 ++ '=' :: p.2

/-- The parameters of a query: the fields between the ampersands, each cut at
its first equality sign. -/
def parameters (t : Text) : List (Text × Text) := (t.splitOn '&').map (cut '=')

theorem cut_field {p : Text × Text} (h : '=' ∉ p.1) : cut '=' (field p) = p := cut_append h p.2

theorem length_parameters (t : Text) : (parameters t).length = t.count '&' + 1 := by
  rw [parameters, List.length_map, length_splitOn]

/-- Separators do not occur where they would be read as such. -/
def Separable (p : Text × Text) : Prop := '&' ∉ p.1 ∧ '=' ∉ p.1 ∧ '&' ∉ p.2

theorem parameters_intercalate {ps : List (Text × Text)} (hne : ps ≠ [])
    (h : ∀ p ∈ ps, Separable p) : parameters (['&'].intercalate (ps.map field)) = ps := by
  have hfields : ∀ t ∈ ps.map field, '&' ∉ t := by
    intro t ht
    obtain ⟨p, hp, rfl⟩ := List.mem_map.mp ht
    obtain ⟨hname, -, hvalue⟩ := h p hp
    simp [field, hname, hvalue]
  rw [parameters, List.splitOn_intercalate '&' hfields (by simpa using hne), List.map_map]
  refine (List.map_congr_left fun p hp ↦ ?_).trans (List.map_id ps)
  exact cut_field (h p hp).2.1

/-- However the values are chosen, a query has one parameter more than it has
ampersands between and within its fields. -/
theorem count_intercalate (ps : List (Text × Text)) (hne : ps ≠ []) :
    (['&'].intercalate (ps.map field)).count '&' + 1 =
      ps.length + (ps.map fun p ↦ (field p).count '&').sum := by
  induction ps with
  | nil => exact absurd rfl hne
  | cons p ps ih =>
      cases ps with
      | nil => simp [Nat.add_comm]
      | cons p' ps =>
          have hrest := ih (by simp)
          simp only [List.map_cons, List.intercalate_cons_cons, List.count_append,
            List.length_cons, List.sum_cons] at hrest ⊢
          simp only [List.count_singleton_self]
          omega

end FrogQuant.Text
