import Mathlib.Data.Finset.Insert
import Mathlib.Data.Nat.Count

/-!
# Renumbering what stays

Items are numbered from 1.  When some are left out, the others move up: `rank`
is the order-preserving numbering of those that stay.
-/

namespace FrogQuant.Renumber

/-- How many of the numbers from 1 to `n` are not in `R`. -/
def rank (R : Finset ℕ) (n : ℕ) : ℕ := Nat.count (fun k ↦ k + 1 ∉ R) n

variable {R : Finset ℕ} {n m : ℕ}

@[simp] theorem rank_zero : rank R 0 = 0 := Nat.count_zero _

theorem rank_succ_of_notMem (h : n + 1 ∉ R) : rank R (n + 1) = rank R n + 1 := by
  rw [rank, Nat.count_succ, if_pos h]
  rfl

theorem rank_succ_of_mem (h : n + 1 ∈ R) : rank R (n + 1) = rank R n := by
  rw [rank, Nat.count_succ, if_neg (not_not.mpr h)]
  rfl

theorem rank_mono (h : n ≤ m) : rank R n ≤ rank R m := Nat.count_monotone _ h

theorem rank_le (R : Finset ℕ) (n : ℕ) : rank R n ≤ n := Nat.count_le _

/-- An item that stays comes after everything before it. -/
theorem rank_lt_rank (h : n < m) (hm : m ∉ R) : rank R n < rank R m := by
  obtain ⟨k, rfl⟩ := Nat.exists_eq_succ_of_ne_zero (Nat.ne_zero_of_lt h)
  rw [Nat.succ_eq_add_one, rank_succ_of_notMem hm]
  exact Nat.lt_succ_of_le (rank_mono (Nat.le_of_lt_succ h))

theorem rank_inj (hn : n ∉ R) (hm : m ∉ R) : rank R n = rank R m ↔ n = m := by
  constructor
  · intro heq
    rcases lt_trichotomy n m with hlt | hnm | hlt
    · exact absurd heq (rank_lt_rank hlt hm).ne
    · exact hnm
    · exact absurd heq (rank_lt_rank hlt hn).ne'
  · exact congrArg (rank R)

/-- Every number up to the last is the new number of an item that stays. -/
theorem exists_rank_eq {k : ℕ} (hpos : 1 ≤ k) (hk : k ≤ rank R n) :
    ∃ m, m ∉ R ∧ 1 ≤ m ∧ m ≤ n ∧ rank R m = k := by
  induction n with
  | zero =>
      rw [rank_zero] at hk
      omega
  | succ n ih =>
      by_cases hmem : n + 1 ∈ R
      · rw [rank_succ_of_mem hmem] at hk
        obtain ⟨m, hm, hone, hle, hrank⟩ := ih hk
        exact ⟨m, hm, hone, hle.trans n.le_succ, hrank⟩
      · by_cases hlast : k = rank R (n + 1)
        · exact ⟨n + 1, hmem, Nat.le_add_left 1 n, le_rfl, hlast.symm⟩
        · rw [rank_succ_of_notMem hmem] at hk hlast
          obtain ⟨m, hm, hone, hle, hrank⟩ := ih (by omega)
          exact ⟨m, hm, hone, hle.trans n.le_succ, hrank⟩

end FrogQuant.Renumber
