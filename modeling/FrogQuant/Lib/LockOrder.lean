import FrogQuant.Lib.Fairness
import FrogQuant.Lib.Threads
import Mathlib.Algebra.BigOperators.Group.Finset.Basic
import Mathlib.Data.Fintype.Basic
import Mathlib.Algebra.Order.BigOperators.Group.Finset

/-!
# Locks taken in order

Threads run pieces of code of which only the locks matter.  If every piece takes
a lock only while the locks that it holds have lower ranks, releases the lock
taken last, and ends with none, then the threads never wait for each other in a
circle: some thread can go on as long as one has not finished, and all finish if
each gets its turn.
-/

namespace FrogQuant

inductive LockOp (κ : Type*) where
  | lock (l : κ)
  | unlock (l : κ)

/-- A lock held while `body` runs. -/
def scopedLock {κ : Type*} (l : κ) (body : List (LockOp κ)) : List (LockOp κ) :=
  .lock l :: (body ++ [.unlock l])

namespace LockOrder

variable {τ κ γ : Type*} [DecidableEq κ] (rank : κ → ℕ)

/-- The locks held after the code, the last one first; `none` if the code does
not keep the order. -/
def heldAfter : List κ → List (LockOp κ) → Option (List κ)
  | held, [] => some held
  | held, .lock l :: code =>
      if ∀ l' ∈ held, rank l' < rank l then heldAfter (l :: held) code else none
  | [], .unlock _ :: _ => none
  | l' :: held, .unlock l :: code => if l' = l then heldAfter held code else none

theorem heldAfter_append (held : List κ) (code code' : List (LockOp κ)) :
    heldAfter rank held (code ++ code') =
      (heldAfter rank held code).bind fun held' ↦ heldAfter rank held' code' := by
  induction code generalizing held with
  | nil => rfl
  | cons op code ih =>
      cases op with
      | lock l =>
          rw [List.cons_append, heldAfter, heldAfter]
          split_ifs
          · exact ih _
          · rfl
      | unlock l =>
          cases held with
          | nil => rfl
          | cons l' held =>
              rw [List.cons_append, heldAfter, heldAfter]
              split_ifs
              · exact ih _
              · rfl

theorem heldAfter_scopedLock {held : List κ} {l : κ} {body : List (LockOp κ)}
    (hrank : ∀ l' ∈ held, rank l' < rank l)
    (hbody : heldAfter rank (l :: held) body = some (l :: held)) :
    heldAfter rank held (scopedLock l body) = some held := by
  rw [scopedLock, heldAfter, if_pos hrank, heldAfter_append, hbody, Option.bind_some, heldAfter,
    if_pos rfl, heldAfter]

theorem heldAfter_flatMap {β : Type*} {held : List κ} {f : β → List (LockOp κ)}
    (hf : ∀ x, heldAfter rank held (f x) = some held) (xs : List β) :
    heldAfter rank held (xs.flatMap f) = some held := by
  induction xs with
  | nil => rfl
  | cons x xs ih => rw [List.flatMap_cons, heldAfter_append, hf, Option.bind_some, ih]

/-- Code that keeps the order. -/
structure Handler where
  code : List (LockOp κ)
  ordered : heldAfter rank [] code = some []

/-! ## The threads -/

structure LockThread (κ : Type*) where
  held : List κ
  code : List (LockOp κ)

inductive HandlerAction (γ : Type*) where
  | start (call : γ)
  | go

variable {rank} [DecidableEq τ] (handler : γ → Handler rank)

/-- A thread that has finished may start the next handler. -/
def handlers (τ : Type*) [DecidableEq τ] :
    Program τ (κ → Option τ) (LockThread κ) (HandlerAction γ) Unit where
  step t a owner thread :=
    match a, thread.code with
    | .start call, [] => some (owner, ⟨[], (handler call).code⟩, ())
    | .go, .lock l :: code =>
        match owner l with
        | none => some (Function.update owner l (some t), ⟨l :: thread.held, code⟩, ())
        | some _ => none
    | .go, .unlock l :: code =>
        some (Function.update owner l none, ⟨thread.held.tail, code⟩, ())
    | _, _ => none

abbrev State (τ κ : Type*) := Threads τ (κ → Option τ) (LockThread κ)

def idle (τ κ : Type*) : State τ κ := ⟨fun _ ↦ none, fun _ ↦ ⟨[], []⟩⟩

/-- The thread can go on with its code. -/
def CanGo (c : State τ κ) (t : τ) : Prop :=
  ((handlers handler τ).step t .go c.shared (c.locals t)).isSome = true

variable (rank) in
/-- The owners are the threads that hold the locks, and all code keeps the
order. -/
structure Orderly (c : State τ κ) : Prop where
  owner : ∀ l t, c.shared l = some t ↔ l ∈ (c.locals t).held
  falling : ∀ t, (c.locals t).held.Pairwise fun l l' ↦ rank l' < rank l
  ordered : ∀ t, heldAfter rank (c.locals t).held (c.locals t).code = some []

variable {handler} {c : State τ κ}

theorem Orderly.of_update (h : Orderly rank c) {t : τ} {owner : κ → Option τ}
    {thread : LockThread κ}
    (hown : ∀ l, owner l = some t ↔ l ∈ thread.held)
    (hothers : ∀ l u, u ≠ t → (owner l = some u ↔ c.shared l = some u))
    (hfalling : thread.held.Pairwise fun l l' ↦ rank l' < rank l)
    (hordered : heldAfter rank thread.held thread.code = some []) :
    Orderly rank ⟨owner, Function.update c.locals t thread⟩ := by
  refine ⟨fun l u ↦ ?_, fun u ↦ ?_, fun u ↦ ?_⟩ <;> simp only <;> by_cases hu : u = t
  · rw [hu, Function.update_self]
    exact hown l
  · rw [Function.update_of_ne hu, hothers l u hu]
    exact h.owner l u
  · rwa [hu, Function.update_self]
  · rw [Function.update_of_ne hu]
    exact h.falling u
  · rwa [hu, Function.update_self]
  · rw [Function.update_of_ne hu]
    exact h.ordered u

variable (handler) in
/-- All that a step can do. -/
inductive Steps (t : τ) (owner : κ → Option τ) :
    LockThread κ → (κ → Option τ) → LockThread κ → Prop where
  | start (held : List κ) (call : γ) : Steps t owner ⟨held, []⟩ owner ⟨[], (handler call).code⟩
  | lock (held : List κ) (l : κ) (code : List (LockOp κ)) (hfree : owner l = none) :
      Steps t owner ⟨held, .lock l :: code⟩ (Function.update owner l (some t)) ⟨l :: held, code⟩
  | unlock (held : List κ) (l : κ) (code : List (LockOp κ)) :
      Steps t owner ⟨held, .unlock l :: code⟩ (Function.update owner l none) ⟨held.tail, code⟩

theorem steps_of_step {t : τ} {a : HandlerAction γ} {owner owner' : κ → Option τ}
    {thread thread' : LockThread κ} {o : Unit}
    (h : (handlers handler τ).step t a owner thread = some (owner', thread', o)) :
    Steps handler t owner thread owner' thread' := by
  obtain ⟨held, code⟩ := thread
  cases a with
  | start call =>
      cases code with
      | nil =>
          cases h
          exact .start held call
      | cons op code => cases h
  | go =>
      cases code with
      | nil => cases h
      | cons op code =>
          cases op with
          | lock l =>
              cases howner : owner l with
              | none =>
                  simp only [handlers, howner] at h
                  cases h
                  exact .lock held l code howner
              | some u =>
                  simp only [handlers, howner] at h
                  cases h
          | unlock l =>
              cases h
              exact .unlock held l code

omit [DecidableEq τ] in
theorem idle_orderly : Orderly rank (idle τ κ) where
  owner := fun l t ↦ by simp [idle]
  falling := fun t ↦ List.Pairwise.nil
  ordered := fun t ↦ rfl

theorem Orderly.lock (h : Orderly rank c) {t : τ} {held : List κ} {l : κ}
    {code : List (LockOp κ)} (ht : c.locals t = ⟨held, .lock l :: code⟩)
    (hfree : c.shared l = none) :
    Orderly rank ⟨Function.update c.shared l (some t),
      Function.update c.locals t ⟨l :: held, code⟩⟩ := by
  have hordered := h.ordered t
  have hfalling := h.falling t
  rw [ht, heldAfter] at hordered
  rw [ht] at hfalling
  split_ifs at hordered with hrank
  refine h.of_update (fun l' ↦ ?_) (fun l' u hu ↦ ?_) (List.pairwise_cons.mpr ⟨hrank, hfalling⟩)
    hordered
  · by_cases hl : l' = l
    · simp [hl]
    · rw [Function.update_of_ne hl, h.owner l' t, ht]
      simp [hl]
  · by_cases hl : l' = l
    · subst hl
      simp [hfree, Ne.symm hu]
    · rw [Function.update_of_ne hl]

theorem Orderly.unlock (h : Orderly rank c) {t : τ} {held : List κ} {l : κ}
    {code : List (LockOp κ)} (ht : c.locals t = ⟨held, .unlock l :: code⟩) :
    Orderly rank ⟨Function.update c.shared l none,
      Function.update c.locals t ⟨held.tail, code⟩⟩ := by
  have hordered := h.ordered t
  have hfalling := h.falling t
  have hheld := fun l' ↦ h.owner l' t
  simp only [ht] at hordered hfalling hheld
  cases held with
  | nil => cases hordered
  | cons first held =>
      rw [heldAfter] at hordered
      split_ifs at hordered with hfirst
      subst hfirst
      obtain ⟨hbelow, hrest⟩ := List.pairwise_cons.mp hfalling
      have howned : c.shared first = some t := (hheld first).mpr List.mem_cons_self
      refine h.of_update (fun l' ↦ ?_) (fun l' u hu ↦ ?_) hrest hordered
      · by_cases hl : l' = first
        · subst hl
          simpa using fun hmem ↦ (hbelow l' hmem).false
        · rw [Function.update_of_ne hl, hheld l']
          simp [hl]
      · by_cases hl : l' = first
        · subst hl
          simp [howned, Ne.symm hu]
        · rw [Function.update_of_ne hl]

theorem Orderly.next (h : Orderly rank c) (e : τ × HandlerAction γ) :
    Orderly rank ((handlers handler τ).machine.next c e) := by
  obtain ⟨t, a⟩ := e
  rw [Machine.next]
  rcases (handlers handler τ).step_cases c t a with hnone | ⟨owner, thread, o, hstep, hnext⟩
  · rwa [hnone]
  · rw [hnext]
    have hsteps := steps_of_step hstep
    generalize ht : c.locals t = thread₀ at hsteps
    cases hsteps with
    | start held call =>
        have hheld : held = [] := by
          have hordered := h.ordered t
          rw [ht] at hordered
          exact Option.some.inj hordered
        refine h.of_update (fun l ↦ ?_) (fun l u hu ↦ Iff.rfl) List.Pairwise.nil
          (handler call).ordered
        rw [h.owner l t, ht, hheld]
    | lock held l code hfree => exact h.lock ht hfree
    | unlock held l code => exact h.unlock ht

/-- Whatever the threads have done, the owners of the locks hold them and take
them in order. -/
theorem orderly_run (es : List (τ × HandlerAction γ)) :
    Orderly rank ((handlers handler τ).machine.run (idle τ κ) es) :=
  (handlers handler τ).machine.run_invariant (P := Orderly rank) (fun _ e h ↦ h.next e)
    idle_orderly es

/-! ## No circle -/

theorem canGo_of_unlock {t : τ} {l : κ} {code : List (LockOp κ)}
    (hcode : (c.locals t).code = .unlock l :: code) : CanGo handler c t := by
  rw [CanGo]
  simp only [handlers, hcode, Option.isSome_some]

theorem canGo_of_lock {t : τ} {l : κ} {code : List (LockOp κ)}
    (hcode : (c.locals t).code = .lock l :: code) (hfree : c.shared l = none) :
    CanGo handler c t := by
  rw [CanGo]
  simp only [handlers, hcode, hfree, Option.isSome_some]

omit [DecidableEq τ] in
/-- A thread that waits for a lock holds locks of lower ranks only. -/
theorem Orderly.rank_lt (h : Orderly rank c) {t : τ} {l : κ} {code : List (LockOp κ)}
    (hcode : (c.locals t).code = .lock l :: code) {l' : κ} (hheld : l' ∈ (c.locals t).held) :
    rank l' < rank l := by
  have hordered := h.ordered t
  rw [hcode, heldAfter] at hordered
  split_ifs at hordered with hrank
  exact hrank l' hheld

/-- The owner of a lock goes on, or waits for a lock of a higher rank, and so
on up to the highest. -/
theorem Orderly.exists_canGo_of_owner (h : Orderly rank c) {top : ℕ} (htop : ∀ l, rank l < top)
    (l : κ) (t : τ) (howner : c.shared l = some t) : ∃ u, CanGo handler c u := by
  induction hn : top - rank l using Nat.strong_induction_on generalizing l t with
  | _ n ih =>
      have hheld := (h.owner l t).mp howner
      cases hcode : (c.locals t).code with
      | nil =>
          have hordered := h.ordered t
          rw [hcode, heldAfter, Option.some.injEq] at hordered
          rw [hordered] at hheld
          cases hheld
      | cons op code =>
          cases op with
          | unlock l' => exact ⟨t, canGo_of_unlock hcode⟩
          | lock l' =>
              cases howner' : c.shared l' with
              | none => exact ⟨t, canGo_of_lock hcode howner'⟩
              | some u =>
                  have hrank := h.rank_lt hcode hheld
                  have hl' := htop l'
                  exact ih _ (by omega) l' u howner' rfl

/-- All threads have finished, or one can go on. -/
theorem Orderly.finished_or_canGo (h : Orderly rank c) {top : ℕ} (htop : ∀ l, rank l < top) :
    (∀ t, (c.locals t).code = []) ∨ ∃ u, CanGo handler c u := by
  by_cases hall : ∀ t, (c.locals t).code = []
  · exact Or.inl hall
  · obtain ⟨t, ht⟩ := not_forall.mp hall
    cases hcode : (c.locals t).code with
    | nil => exact absurd hcode ht
    | cons op code =>
        cases op with
        | unlock l => exact Or.inr ⟨t, canGo_of_unlock hcode⟩
        | lock l =>
            cases howner : c.shared l with
            | none => exact Or.inr ⟨t, canGo_of_lock hcode howner⟩
            | some u => exact Or.inr (h.exists_canGo_of_owner htop l u howner)

/-! ## All threads finish -/

/-- The threads, once no new handler is started. -/
def goMachine (handler : γ → Handler rank) (τ : Type*) [DecidableEq τ] :
    Machine (State τ κ) τ (Option Unit) where
  step c t := (handlers handler τ).machine.step c (t, .go)

def parties (handler : γ → Handler rank) : Machine.Parties τ (State τ κ) τ where
  enabled t c := CanGo handler c t
  takes t _ u := u = t

theorem goMachine_next (c : State τ κ) (t : τ) :
    (goMachine handler τ).next c t = (handlers handler τ).machine.next c (t, .go) := rfl

/-- Two threads that take turns are treated fairly. -/
theorem fair_turns {handler : γ → Handler rank} (c : State Bool κ) :
    (goMachine handler Bool).Fair (parties handler) c fun n ↦ decide (n % 2 = 1) := by
  intro t n
  cases t with
  | false => exact ⟨2 * n, by omega, Or.inr (decide_eq_false (by omega))⟩
  | true => exact ⟨2 * n + 1, by omega, Or.inr (decide_eq_true (by omega))⟩

theorem next_of_not_canGo {t : τ} (ht : ¬ CanGo handler c t) :
    (goMachine handler τ).next c t = c := by
  have hnone : (handlers handler τ).step t .go c.shared (c.locals t) = none := by
    rwa [CanGo, Option.isSome_iff_ne_none, not_not] at ht
  rw [goMachine_next]
  simp only [Machine.next, Program.machine, hnone]

variable [Fintype τ]

/-- What is left to do. -/
def remaining (c : State τ κ) : ℕ := ∑ t, (c.locals t).code.length

omit [DecidableEq κ] in
theorem remaining_update (c : State τ κ) (owner : κ → Option τ) (t : τ) (thread : LockThread κ) :
    remaining ⟨owner, Function.update c.locals t thread⟩ + (c.locals t).code.length =
      remaining c + thread.code.length := by
  have hothers : ∀ u ∈ Finset.univ.erase t,
      (Function.update c.locals t thread u).code.length = (c.locals u).code.length := by
    intro u hu
    rw [Function.update_of_ne (Finset.ne_of_mem_erase hu)]
  rw [remaining, remaining, ← Finset.add_sum_erase _ _ (Finset.mem_univ t),
    ← Finset.add_sum_erase Finset.univ (fun u ↦ (c.locals u).code.length) (Finset.mem_univ t),
    Finset.sum_congr rfl hothers]
  simp only [Function.update_self]
  omega

theorem remaining_go {t : τ} (ht : CanGo handler c t) :
    remaining ((handlers handler τ).machine.next c (t, .go)) + 1 = remaining c := by
  obtain ⟨⟨owner, thread, o⟩, hstep⟩ := Option.isSome_iff_exists.mp ht
  have hnext : (handlers handler τ).machine.next c (t, .go) =
      ⟨owner, Function.update c.locals t thread⟩ := by
    simp only [Machine.next, Program.machine, hstep]
  have hsum := remaining_update c owner t thread
  rw [hnext]
  have hlength : thread.code.length + 1 = (c.locals t).code.length := by
    simp only [handlers] at hstep
    split at hstep
    case h_1 a hgo hcode => cases hgo
    case h_2 l code hcode =>
      split at hstep
      · cases hstep
        rw [hcode, List.length_cons]
      · cases hstep
    case h_3 l code hcode =>
      cases hstep
      rw [hcode, List.length_cons]
    case h_4 => cases hstep
  omega

/-- A thread that can go on, if there is one. -/
noncomputable def someCanGo [Nonempty τ] (handler : γ → Handler rank) (c : State τ κ) : τ :=
  Classical.epsilon (CanGo handler c)

theorem approach [Nonempty τ] {top : ℕ} (htop : ∀ l, rank l < top) :
    (goMachine handler τ).Approach (parties handler) (Orderly rank)
      (fun c ↦ ∀ t, (c.locals t).code = []) remaining (someCanGo handler) where
  keep c t h := h.next (t, .go)
  ready c h hgoal := Classical.epsilon_spec ((h.finished_or_canGo htop).resolve_left hgoal)
  step c t h hgoal := by
    by_cases ht : CanGo handler c t
    · have hless := remaining_go ht
      exact Or.inl (by rw [goMachine_next]; omega)
    · rw [next_of_not_canGo ht]
      refine Or.inr ⟨rfl, rfl, ?_⟩
      rintro rfl
      exact ht (Classical.epsilon_spec ((h.finished_or_canGo htop).resolve_left hgoal))

/-- If every thread gets its turn, all finish. -/
theorem Orderly.exists_finished (h : Orderly rank c) {top : ℕ} (htop : ∀ l, rank l < top)
    {turns : ℕ → τ} (hfair : (goMachine handler τ).Fair (parties handler) c turns) :
    ∃ n, ∀ t, (((goMachine handler τ).states c turns n).locals t).code = [] :=
  have : Nonempty τ := ⟨turns 0⟩
  (approach htop).reaches h hfair

end LockOrder

end FrogQuant
