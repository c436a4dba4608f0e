import FrogQuant.Lib.Machine
import Mathlib.Logic.Function.Basic

/-!
# Threads over shared memory

A program says what an atomic step of one thread does to the shared memory and
to the thread's own state.  Its machine takes the steps of all threads in any
order; a step that is not enabled changes nothing.  An invariant is a condition
on the memory and one on each thread, which the steps of the other threads must
not disturb.
-/

namespace FrogQuant

/-- `none` where the thread cannot take the step. -/
structure Program (τ σ ℓ α ο : Type*) where
  step : τ → α → σ → ℓ → Option (σ × ℓ × ο)

structure Threads (τ σ ℓ : Type*) where
  shared : σ
  locals : τ → ℓ

namespace Program

variable {τ σ ℓ α ο : Type*} [DecidableEq τ] (P : Program τ σ ℓ α ο)

def machine : Machine (Threads τ σ ℓ) (τ × α) (Option ο) where
  step c e :=
    match P.step e.1 e.2 c.shared (c.locals e.1) with
    | none => (c, none)
    | some (s, l, o) => (⟨s, Function.update c.locals e.1 l⟩, some o)

theorem step_cases (c : Threads τ σ ℓ) (t : τ) (a : α) :
    (P.machine.step c (t, a) = (c, none)) ∨
    ∃ s l o, P.step t a c.shared (c.locals t) = some (s, l, o) ∧
      P.machine.step c (t, a) = (⟨s, Function.update c.locals t l⟩, some o) := by
  cases h : P.step t a c.shared (c.locals t) with
  | none => simp [machine, h]
  | some r =>
      obtain ⟨s, l, o⟩ := r
      exact Or.inr ⟨s, l, o, rfl, by simp [machine, h]⟩

/-- `I` holds of the memory and `J` of every thread. -/
structure Holds (I : σ → Prop) (J : τ → σ → ℓ → Prop) (c : Threads τ σ ℓ) : Prop where
  shared : I c.shared
  locals : ∀ t, J t c.shared (c.locals t)

/-- A step keeps an invariant if the thread that takes it does so for itself
and does not disturb the others. -/
theorem holds_next {I : σ → Prop} {J : τ → σ → ℓ → Prop} {c : Threads τ σ ℓ}
    (h : Holds I J c) (t : τ) (a : α)
    (hstep : ∀ s l o, P.step t a c.shared (c.locals t) = some (s, l, o) →
      I s ∧ J t s l ∧ ∀ u, u ≠ t → J u s (c.locals u)) :
    Holds I J (P.machine.next c (t, a)) := by
  rw [Machine.next]
  rcases P.step_cases c t a with hnone | ⟨s, l, o, henabled, hnext⟩
  · rwa [hnone]
  · rw [hnext]
    obtain ⟨hshared, hown, hothers⟩ := hstep s l o henabled
    refine ⟨hshared, fun u ↦ ?_⟩
    by_cases hu : u = t
    · subst hu
      simpa using hown
    · simpa [hu] using hothers u hu

end Program

end FrogQuant
