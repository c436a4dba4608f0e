import Mathlib.Data.List.Induction

/-!
# Deterministic machines and their runs

A machine takes one event at a time and answers it.  Runs are lists of
events, in the order they happen.  The rules below turn a fact about one step
into a fact about every run: invariants, invariants that also read the
history, and runs all of whose steps meet a condition.
-/

namespace FrogQuant

/-- A deterministic labelled transition system with one answer a step. -/
structure Machine (σ ε ο : Type*) where
  step : σ → ε → σ × ο

namespace Machine

variable {σ ε ο : Type*} (M : Machine σ ε ο)

def next (s : σ) (e : ε) : σ := (M.step s e).1

def out (s : σ) (e : ε) : ο := (M.step s e).2

def run (s : σ) (es : List ε) : σ := es.foldl M.next s

def outputs (s : σ) : List ε → List ο
  | [] => []
  | e :: es => M.out s e :: outputs (M.next s e) es

@[simp] theorem run_nil (s : σ) : M.run s [] = s := rfl

@[simp] theorem run_cons (s : σ) (e : ε) (es : List ε) :
    M.run s (e :: es) = M.run (M.next s e) es := rfl

@[simp] theorem run_append (s : σ) (xs ys : List ε) :
    M.run s (xs ++ ys) = M.run (M.run s xs) ys := by
  simp [run, List.foldl_append]

theorem run_concat (s : σ) (es : List ε) (e : ε) :
    M.run s (es ++ [e]) = M.next (M.run s es) e := by
  simp

@[simp] theorem outputs_nil (s : σ) : M.outputs s [] = [] := rfl

@[simp] theorem outputs_cons (s : σ) (e : ε) (es : List ε) :
    M.outputs s (e :: es) = M.out s e :: M.outputs (M.next s e) es := rfl

@[simp] theorem outputs_append (s : σ) (xs ys : List ε) :
    M.outputs s (xs ++ ys) = M.outputs s xs ++ M.outputs (M.run s xs) ys := by
  induction xs generalizing s with
  | nil => rfl
  | cons e xs ih => simp [ih]

@[simp] theorem length_outputs (s : σ) (es : List ε) : (M.outputs s es).length = es.length := by
  induction es generalizing s with
  | nil => rfl
  | cons e es ih => simp [ih]

/-! ## What the steps of a run yield -/

/-- The yields of the steps of a run, in order; a step may yield nothing. -/
def collect {β : Type*} (f : σ → ε → Option β) : σ → List ε → List β
  | _, [] => []
  | s, e :: es => (f s e).toList ++ collect f (M.next s e) es

section Collect

variable {β : Type*} (f : σ → ε → Option β)

theorem collect_append (s : σ) (xs ys : List ε) :
    M.collect f s (xs ++ ys) = M.collect f s xs ++ M.collect f (M.run s xs) ys := by
  induction xs generalizing s with
  | nil => rfl
  | cons e xs ih => simp [collect, ih]

theorem collect_concat (s : σ) (es : List ε) (e : ε) :
    M.collect f s (es ++ [e]) = M.collect f s es ++ (f (M.run s es) e).toList := by
  simp [collect_append, collect]

theorem collect_bind {γ : Type*} (g : β → Option γ) (s : σ) (es : List ε) :
    M.collect (fun s e ↦ (f s e).bind g) s es = (M.collect f s es).filterMap g := by
  induction es generalizing s with
  | nil => rfl
  | cons e es ih =>
      rw [collect, collect, List.filterMap_append, ih]
      cases hf : f s e with
      | none => rfl
      | some y => cases hg : g y <;> simp [hg]

/-- Every item yielded comes from a step, and the items before it from the
steps before that one. -/
theorem exists_of_collect_eq {s : σ} {es : List ε} {ys zs : List β} {y : β}
    (h : M.collect f s es = ys ++ y :: zs) :
    ∃ xs e rest, es = xs ++ e :: rest ∧ M.collect f s xs = ys ∧ f (M.run s xs) e = some y := by
  induction es generalizing s ys with
  | nil => simp [collect] at h
  | cons e es ih =>
      rw [collect] at h
      cases hf : f s e with
      | none =>
          rw [hf] at h
          obtain ⟨xs, e', rest, rfl, hxs, he'⟩ := ih h
          exact ⟨e :: xs, e', rest, rfl, by simpa [collect, hf] using hxs, he'⟩
      | some y' =>
          rw [hf, Option.toList_some, List.singleton_append] at h
          cases ys with
          | nil =>
              obtain ⟨rfl, -⟩ := List.cons.inj h
              exact ⟨[], e, es, rfl, rfl, hf⟩
          | cons y₀ ys =>
              obtain ⟨rfl, htail⟩ := List.cons.inj h
              obtain ⟨xs, e', rest, rfl, hxs, he'⟩ := ih htail
              exact ⟨e :: xs, e', rest, rfl, by simp [collect, hf, hxs], he'⟩

end Collect

/-- The yields of the steps of a run, in order, where a step may yield many. -/
def yields {β : Type*} (f : σ → ε → List β) : σ → List ε → List β
  | _, [] => []
  | s, e :: es => f s e ++ yields f (M.next s e) es

theorem yields_append {β : Type*} (f : σ → ε → List β) (s : σ) (xs ys : List ε) :
    M.yields f s (xs ++ ys) = M.yields f s xs ++ M.yields f (M.run s xs) ys := by
  induction xs generalizing s with
  | nil => rfl
  | cons e xs ih => simp [yields, ih]

theorem yields_concat {β : Type*} (f : σ → ε → List β) (s : σ) (es : List ε) (e : ε) :
    M.yields f s (es ++ [e]) = M.yields f s es ++ f (M.run s es) e := by
  simp [yields_append, yields]

/-! ## Invariants -/

/-- What every step keeps holds after every run. -/
theorem run_invariant {P : σ → Prop} (hstep : ∀ s e, P s → P (M.next s e))
    {s : σ} (hs : P s) (es : List ε) : P (M.run s es) := by
  induction es generalizing s with
  | nil => exact hs
  | cons e es ih => exact ih (hstep s e hs)

/-- An invariant that may read the events taken so far.  The induction is on
the last event, so a step sees the whole history before it. -/
theorem run_history {P : List ε → σ → Prop} {s₀ : σ} (h₀ : P [] s₀)
    (hstep : ∀ es e, P es (M.run s₀ es) → P (es ++ [e]) (M.next (M.run s₀ es) e))
    (es : List ε) : P es (M.run s₀ es) := by
  induction es using List.reverseRecOn with
  | nil => exact h₀
  | append_singleton es e ih =>
      rw [run_concat]
      exact hstep es e ih

/-! ## Runs whose every step meets a condition -/

/-- Every step of the run meets `Q` in the state just before it. -/
def AllSteps (Q : σ → ε → Prop) : σ → List ε → Prop
  | _, [] => True
  | s, e :: es => Q s e ∧ AllSteps Q (M.next s e) es

@[simp] theorem allSteps_nil (Q : σ → ε → Prop) (s : σ) : M.AllSteps Q s [] := trivial

@[simp] theorem allSteps_cons (Q : σ → ε → Prop) (s : σ) (e : ε) (es : List ε) :
    M.AllSteps Q s (e :: es) ↔ Q s e ∧ M.AllSteps Q (M.next s e) es := Iff.rfl

@[simp] theorem allSteps_append (Q : σ → ε → Prop) (s : σ) (xs ys : List ε) :
    M.AllSteps Q s (xs ++ ys) ↔ M.AllSteps Q s xs ∧ M.AllSteps Q (M.run s xs) ys := by
  induction xs generalizing s with
  | nil => simp
  | cons e xs ih => simp [ih, and_assoc]

theorem allSteps_concat (Q : σ → ε → Prop) (s : σ) (es : List ε) (e : ε) :
    M.AllSteps Q s (es ++ [e]) ↔ M.AllSteps Q s es ∧ Q (M.run s es) e := by
  simp

theorem allSteps_and {Q R : σ → ε → Prop} {s : σ} {es : List ε} :
    M.AllSteps (fun s e ↦ Q s e ∧ R s e) s es ↔ M.AllSteps Q s es ∧ M.AllSteps R s es := by
  induction es generalizing s with
  | nil => simp
  | cons e es ih =>
      rw [allSteps_cons, allSteps_cons, allSteps_cons, ih]
      exact and_and_and_comm

instance allStepsDecidable (Q : σ → ε → Prop) [∀ s e, Decidable (Q s e)] :
    ∀ s es, Decidable (M.AllSteps Q s es)
  | _, [] => .isTrue trivial
  | s, e :: es =>
      have := allStepsDecidable Q (M.next s e) es
      inferInstanceAs (Decidable (Q s e ∧ M.AllSteps Q (M.next s e) es))

theorem allSteps_iff_split (Q : σ → ε → Prop) (s : σ) (es : List ε) :
    M.AllSteps Q s es ↔ ∀ pre e post, es = pre ++ e :: post → Q (M.run s pre) e := by
  constructor
  · rintro h pre e post rfl
    exact ((M.allSteps_append Q s pre (e :: post)).mp h).2.1
  · intro h
    induction es generalizing s with
    | nil => trivial
    | cons e es ih =>
        refine ⟨h [] e es rfl, ih (M.next s e) ?_⟩
        rintro pre e' post rfl
        exact h (e :: pre) e' post rfl

/-- What every step that meets `Q` keeps holds after every run whose steps
all meet `Q`. -/
theorem AllSteps.run_invariant {Q : σ → ε → Prop} {P : σ → Prop}
    (hstep : ∀ s e, P s → Q s e → P (M.next s e)) {s : σ} {es : List ε}
    (h : M.AllSteps Q s es) (hs : P s) : P (M.run s es) := by
  induction es generalizing s with
  | nil => exact hs
  | cons e es ih => exact ih h.2 (hstep s e hs h.1)

theorem AllSteps.imp_of_invariant {Q R : σ → ε → Prop} (P : σ → Prop)
    (hstep : ∀ s e, P s → Q s e → P (M.next s e) ∧ R s e) {s : σ} {es : List ε}
    (hs : P s) (h : M.AllSteps Q s es) : M.AllSteps R s es := by
  induction es generalizing s with
  | nil => trivial
  | cons e es ih =>
      obtain ⟨hnext, hR⟩ := hstep s e hs h.1
      exact ⟨hR, ih hnext h.2⟩

theorem allSteps_of_forall_mem {Q : ε → Prop} {es : List ε} (h : ∀ e ∈ es, Q e) (s : σ) :
    M.AllSteps (fun _ e ↦ Q e) s es := by
  induction es generalizing s with
  | nil => trivial
  | cons e es ih =>
      obtain ⟨he, hes⟩ := List.forall_mem_cons.mp h
      exact ⟨he, ih hes (M.next s e)⟩

/-- What a step that meets `Q` brings about, and every later step keeps, holds
after a run with such a step. -/
theorem AllSteps.run_of_exists {Q R : σ → ε → Prop} {I P : σ → Prop}
    (hinv : ∀ s e, I s → R s e → I (M.next s e))
    (hbegin : ∀ s e, I s → R s e → Q s e → P (M.next s e))
    (hkeep : ∀ s e, I s → R s e → P s → P (M.next s e)) {s : σ} {es : List ε}
    (h : M.AllSteps R s es) (hs : I s) (hsome : ¬ M.AllSteps (fun s e ↦ ¬ Q s e) s es) :
    P (M.run s es) := by
  induction es generalizing s with
  | nil => exact absurd trivial hsome
  | cons e es ih =>
      have hnext : I (M.next s e) := hinv s e hs h.1
      by_cases hQ : Q s e
      · have hboth : I (M.run (M.next s e) es) ∧ P (M.run (M.next s e) es) :=
          AllSteps.run_invariant M (P := fun s ↦ I s ∧ P s)
            (fun s e hP hR ↦ ⟨hinv s e hP.1 hR, hkeep s e hP.1 hR hP.2⟩) h.2
            ⟨hnext, hbegin s e hs h.1 hQ⟩
        exact hboth.2
      · exact ih h.2 hnext fun hrest ↦ hsome ⟨hQ, hrest⟩

/-- Two conditions on the steps that agree wherever the invariant holds, which
steps that meet them keep, agree on runs. -/
theorem allSteps_congr {Q R : σ → ε → Prop} (P : σ → Prop)
    (hiff : ∀ s e, P s → (Q s e ↔ R s e)) (hnext : ∀ s e, P s → R s e → P (M.next s e))
    {s : σ} (es : List ε) (hs : P s) : M.AllSteps Q s es ↔ M.AllSteps R s es := by
  constructor
  · refine AllSteps.imp_of_invariant M P (fun s e hP hQ ↦ ?_) hs
    have hR := (hiff s e hP).mp hQ
    exact ⟨hnext s e hP hR, hR⟩
  · exact AllSteps.imp_of_invariant M P
      (fun s e hP hR ↦ ⟨hnext s e hP hR, (hiff s e hP).mpr hR⟩) hs

/-- A property of every state of a run, as a condition on its steps. -/
theorem forall_prefix_iff_allSteps {P : σ → Prop} {s : σ} (hs : P s) (es : List ε) :
    (∀ xs, xs <+: es → P (M.run s xs)) ↔ M.AllSteps (fun s e ↦ P (M.next s e)) s es := by
  induction es generalizing s with
  | nil => simpa using hs
  | cons e es ih =>
      constructor
      · intro h
        have hnext : P (M.next s e) := h [e] (by simp)
        refine ⟨hnext, (ih hnext).mp fun xs hxs ↦ ?_⟩
        exact h (e :: xs) (List.cons_prefix_cons.mpr ⟨rfl, hxs⟩)
      · rintro ⟨hnext, hrest⟩ xs hxs
        rcases List.prefix_cons_iff.mp hxs with rfl | ⟨ys, rfl, hys⟩
        · exact hs
        · exact (ih hnext).mpr hrest ys hys

theorem AllSteps.run_history {Q : σ → ε → Prop} {P : List ε → σ → Prop} {s₀ : σ}
    (h₀ : P [] s₀)
    (hstep : ∀ es e, P es (M.run s₀ es) → Q (M.run s₀ es) e →
      P (es ++ [e]) (M.next (M.run s₀ es) e))
    {es : List ε} (h : M.AllSteps Q s₀ es) : P es (M.run s₀ es) := by
  induction es using List.reverseRecOn with
  | nil => exact h₀
  | append_singleton es e ih =>
      rw [run_concat]
      have hsplit := (M.allSteps_concat Q s₀ es e).mp h
      exact hstep es e (ih hsplit.1) hsplit.2

end Machine

end FrogQuant
