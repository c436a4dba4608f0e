import FrogQuant.Lib.Machine
import Mathlib.Order.WellFounded

/-!
# Endless runs and fair scheduling

An endless run takes one event after the other for ever.  It is fair to a party
if the party takes a step again and again, unless it is again and again unable
to.  A goal is reached in every fair run if there is always one party whose next
step brings the goal nearer, while the steps of the others leave the distance or
shorten it.
-/

namespace FrogQuant.Machine

variable {σ ε ο τ : Type*} (M : Machine σ ε ο)

/-- The states of the run that takes `events` from `s` on. -/
def states (s : σ) (events : ℕ → ε) : ℕ → σ
  | 0 => s
  | n + 1 => M.next (states s events n) (events n)

theorem states_eq_run (s : σ) (events : ℕ → ε) (n : ℕ) :
    M.states s events n = M.run s ((List.range n).map events) := by
  induction n with
  | zero => rfl
  | succ n ih => rw [states, ih, List.range_succ, List.map_append, List.map_singleton, run_concat]

theorem states_invariant {I : σ → Prop} (hkeep : ∀ s e, I s → I (M.next s e)) {s : σ} (hs : I s)
    (events : ℕ → ε) (n : ℕ) : I (M.states s events n) := by
  rw [states_eq_run]
  exact M.run_invariant hkeep hs _

/-- What the steps of the parties are, and when they can take one. -/
structure Parties (τ σ ε : Type*) where
  enabled : τ → σ → Prop
  takes : τ → σ → ε → Prop

/-- One of the parties alone. -/
def Parties.only (P : Parties τ σ ε) (t : τ) : Parties Unit σ ε where
  enabled _ := P.enabled t
  takes _ := P.takes t

def Fair (P : Parties τ σ ε) (s : σ) (events : ℕ → ε) : Prop :=
  ∀ t n, ∃ m, n ≤ m ∧
    (¬ P.enabled t (M.states s events m) ∨ P.takes t (M.states s events m) (events m))

/-- A run that comes to rest where no party can take a step is fair. -/
theorem fair_of_rest (P : Parties τ σ ε) {s : σ} {events : ℕ → ε} {n : ℕ}
    (hrest : ∀ m, n ≤ m → M.next (M.states s events n) (events m) = M.states s events n)
    (hidle : ∀ t, ¬ P.enabled t (M.states s events n)) : M.Fair P s events := by
  have hstays : ∀ m, n ≤ m → M.states s events m = M.states s events n := by
    intro m hm
    induction m, hm using Nat.le_induction with
    | base => rfl
    | succ m hm ih => rw [states, ih, hrest m hm]
  intro t k
  refine ⟨max k n, le_max_left k n, Or.inl ?_⟩
  rw [hstays _ (le_max_right k n)]
  exact hidle t

/-- The distance to the goal, and the party on which it depends in a state. -/
structure Approach (P : Parties τ σ ε) (I goal : σ → Prop) {α : Type*} [Preorder α]
    (distance : σ → α) (helpful : σ → τ) : Prop where
  keep : ∀ s e, I s → I (M.next s e)
  ready : ∀ s, I s → ¬ goal s → P.enabled (helpful s) s
  step : ∀ s e, I s → ¬ goal s → distance (M.next s e) < distance s ∨
    (distance (M.next s e) = distance s ∧ helpful (M.next s e) = helpful s ∧
      ¬ P.takes (helpful s) s e)

variable {M} {P : Parties τ σ ε} {I goal : σ → Prop} {α : Type*} [Preorder α]
  {distance : σ → α} {helpful : σ → τ} (h : M.Approach P I goal distance helpful)
include h

/-- Up to any later state the goal has come nearer, or it still depends on the
same party at the same distance. -/
theorem Approach.nearer_or_same {s : σ} (hs : I s) {events : ℕ → ε}
    (hnever : ∀ n, ¬ goal (M.states s events n)) (n k : ℕ) :
    (∃ m, distance (M.states s events m) < distance (M.states s events n)) ∨
      (distance (M.states s events (n + k)) = distance (M.states s events n) ∧
        helpful (M.states s events (n + k)) = helpful (M.states s events n)) := by
  induction k with
  | zero => exact Or.inr ⟨rfl, rfl⟩
  | succ k ih =>
      rcases ih with hnear | ⟨hdistance, hhelpful⟩
      · exact Or.inl hnear
      · have hI := M.states_invariant h.keep hs events (n + k)
        rcases h.step _ (events (n + k)) hI (hnever (n + k)) with hless | ⟨hkeep, hsame, -⟩
        · exact Or.inl ⟨n + k + 1, hdistance ▸ hless⟩
        · exact Or.inr ⟨hkeep.trans hdistance, hsame.trans hhelpful⟩

theorem Approach.exists_nearer {s : σ} (hs : I s) {events : ℕ → ε} (hfair : M.Fair P s events)
    (hnever : ∀ n, ¬ goal (M.states s events n)) (n : ℕ) :
    ∃ m, distance (M.states s events m) < distance (M.states s events n) := by
  obtain ⟨m, hnm, hturn⟩ := hfair (helpful (M.states s events n)) n
  obtain ⟨k, rfl⟩ := Nat.exists_eq_add_of_le hnm
  rcases h.nearer_or_same hs hnever n k with hnear | ⟨hdistance, hhelpful⟩
  · exact hnear
  · have hI := M.states_invariant h.keep hs events (n + k)
    have hready := h.ready _ hI (hnever (n + k))
    rw [hhelpful] at hready
    have htakes := hturn.resolve_left (not_not.mpr hready)
    rcases h.step _ (events (n + k)) hI (hnever (n + k)) with hless | ⟨-, -, hnot⟩
    · exact ⟨n + k + 1, hdistance ▸ hless⟩
    · rw [hhelpful] at hnot
      exact absurd htakes hnot

/-- Every fair run reaches the goal. -/
theorem Approach.reaches [WellFoundedLT α] {s : σ} (hs : I s) {events : ℕ → ε}
    (hfair : M.Fair P s events) : ∃ n, goal (M.states s events n) := by
  by_contra hnever
  have hnever : ∀ n, ¬ goal (M.states s events n) := fun n hn ↦ hnever ⟨n, hn⟩
  have hall : ∀ a, ∀ n, distance (M.states s events n) ≠ a := by
    intro a
    induction a using WellFoundedLT.induction with
    | ind a ih =>
        rintro n rfl
        obtain ⟨m, hm⟩ := h.exists_nearer hs hfair hnever n
        exact ih _ hm m rfl
  exact hall _ 0 rfl

end FrogQuant.Machine
