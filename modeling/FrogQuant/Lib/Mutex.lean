import FrogQuant.Lib.Threads

/-!
# Code under a lock

Threads call pieces of code that go on step by step while their thread holds
one lock.  If every piece, left alone, does what a machine does in one step,
then in every interleaving the threads are answered as by that machine, which
takes the calls in the order in which they get the lock.
-/

namespace FrogQuant

/-- A step gives the memory after it and what the thread knows then, or its
result if it was the last one. -/
structure LockedCode (κ σ ℓ ρ : Type*) where
  start : κ → ℓ
  step : σ → ℓ → σ × (ℓ ⊕ ρ)

inductive LockPc (κ ℓ ρ : Type*) where
  | idle
  | waiting (call : κ)
  | inside (call : κ) (l : ℓ)
  | leaving (call : κ) (result : ρ)

def LockPc.holds {κ ℓ ρ : Type*} : LockPc κ ℓ ρ → Bool
  | inside _ _ | leaving _ _ => true
  | idle | waiting _ => false

inductive LockAction (κ : Type*) where
  | call (call : κ)
  | acquire
  | proceed
  | release
  deriving DecidableEq

inductive LockNote (τ κ ρ : Type*) where
  | entered (thread : τ) (call : κ)
  | returned (thread : τ) (call : κ) (result : ρ)
  | quiet

namespace LockNote

variable {τ κ ρ : Type*}

def entered? : LockNote τ κ ρ → Option (τ × κ)
  | entered t k => some (t, k)
  | _ => none

def returned? : LockNote τ κ ρ → Option ((τ × κ) × ρ)
  | returned t k r => some ((t, k), r)
  | _ => none

end LockNote

/-- What a lock guards, and who holds it. -/
structure Guarded (τ σ : Type*) where
  owner : Option τ
  memory : σ

namespace LockedCode

variable {τ κ σ ℓ ρ : Type*} (C : LockedCode κ σ ℓ ρ)

/-- Left alone, the code ends with this memory and this result. -/
inductive Ends : σ → ℓ → σ → ρ → Prop where
  | last {s s' : σ} {l : ℓ} {r : ρ} (h : C.step s l = (s', .inr r)) : Ends s l s' r
  | more {s s₁ s' : σ} {l l₁ : ℓ} {r : ρ} (h : C.step s l = (s₁, .inl l₁))
      (hrest : Ends s₁ l₁ s' r) : Ends s l s' r

variable {C}

theorem Ends.of_more {s s₁ s' : σ} {l l₁ : ℓ} {r : ρ} (h : C.Ends s l s' r)
    (hstep : C.step s l = (s₁, .inl l₁)) : C.Ends s₁ l₁ s' r := by
  cases h with
  | last hlast => cases hlast.symm.trans hstep
  | more hmore hrest =>
      cases hmore.symm.trans hstep
      exact hrest

theorem Ends.of_last {s s₁ s' : σ} {l : ℓ} {r r₁ : ρ} (h : C.Ends s l s' r)
    (hstep : C.step s l = (s₁, .inr r₁)) : s₁ = s' ∧ r₁ = r := by
  cases h with
  | last hlast =>
      cases hlast.symm.trans hstep
      exact ⟨rfl, rfl⟩
  | more hmore _ => cases hmore.symm.trans hstep

/-! ## The threads -/

variable (C) [DecidableEq τ]

def program (τ : Type*) [DecidableEq τ] :
    Program τ (Guarded τ σ) (LockPc κ ℓ ρ) (LockAction κ) (LockNote τ κ ρ) where
  step t a s pc :=
    match a, pc with
    | .call k, .idle => some (s, .waiting k, .quiet)
    | .acquire, .waiting k =>
        match s.owner with
        | none => some ({ s with owner := some t }, .inside k (C.start k), .entered t k)
        | some _ => none
    | .proceed, .inside k l =>
        match C.step s.memory l with
        | (memory, .inl l) => some ({ s with memory := memory }, .inside k l, .quiet)
        | (memory, .inr r) => some ({ s with memory := memory }, .leaving k r, .quiet)
    | .release, .leaving k r => some ({ s with owner := none }, .idle, .returned t k r)
    | _, _ => none

/-- All that a step can do. -/
inductive Steps (t : τ) (s : Guarded τ σ) :
    LockPc κ ℓ ρ → Guarded τ σ → LockPc κ ℓ ρ → LockNote τ κ ρ → Prop where
  | call (k : κ) : Steps t s .idle s (.waiting k) .quiet
  | acquire (k : κ) (hfree : s.owner = none) :
      Steps t s (.waiting k) { s with owner := some t } (.inside k (C.start k)) (.entered t k)
  | more (k : κ) {l l₁ : ℓ} {memory : σ} (h : C.step s.memory l = (memory, .inl l₁)) :
      Steps t s (.inside k l) { s with memory := memory } (.inside k l₁) .quiet
  | last (k : κ) {l : ℓ} {memory : σ} {r : ρ} (h : C.step s.memory l = (memory, .inr r)) :
      Steps t s (.inside k l) { s with memory := memory } (.leaving k r) .quiet
  | release (k : κ) (r : ρ) :
      Steps t s (.leaving k r) { s with owner := none } .idle (.returned t k r)

theorem steps_of_step {t : τ} {a : LockAction κ} {s s' : Guarded τ σ} {pc pc' : LockPc κ ℓ ρ}
    {o : LockNote τ κ ρ} (h : (C.program τ).step t a s pc = some (s', pc', o)) :
    C.Steps t s pc s' pc' o := by
  simp only [program] at h
  split at h
  case h_1 k =>
    cases h
    exact .call k
  case h_2 k =>
    split at h
    case h_1 hfree =>
      cases h
      exact .acquire k hfree
    case h_2 => cases h
  case h_3 k l =>
    split at h
    case h_1 memory l₁ hstep =>
      cases h
      exact .more k hstep
    case h_2 memory r hstep =>
      cases h
      exact .last k hstep
  case h_4 k r =>
    cases h
    exact .release k r
  case h_5 => cases h

abbrev Callers (τ κ σ ℓ ρ : Type*) := Threads τ (Guarded τ σ) (LockPc κ ℓ ρ)

/-- No thread has called yet. -/
def begin (τ κ ℓ ρ : Type*) {σ : Type*} (memory : σ) : Callers τ κ σ ℓ ρ where
  shared := ⟨none, memory⟩
  locals := fun _ ↦ .idle

/-- The calls that got the lock, in the order in which they got it. -/
def entered (c : Callers τ κ σ ℓ ρ) (es : List (τ × LockAction κ)) : List (τ × κ) :=
  (C.program τ).machine.collect
    (fun c e ↦ ((C.program τ).machine.out c e).bind LockNote.entered?) c es

/-- The calls that have returned, with their results. -/
def answered (c : Callers τ κ σ ℓ ρ) (es : List (τ × LockAction κ)) : List ((τ × κ) × ρ) :=
  (C.program τ).machine.collect
    (fun c e ↦ ((C.program τ).machine.out c e).bind LockNote.returned?) c es

/-! ## The threads against a machine -/

variable {A : Type*} (M : Machine A κ ρ) (view : A → σ)

/-- Started where the memory shows a state of the machine, each call ends where
it shows the next one, with the answer of the machine. -/
def Implements : Prop :=
  ∀ a k, C.Ends (view a) (C.start k) (view (M.next a k)) (M.out a k)

/-- The machine takes the calls one after the other. -/
def served (a₀ : A) (calls : List (τ × κ)) : List ((τ × κ) × ρ) :=
  calls.zip (M.outputs a₀ (calls.map Prod.snd))

omit [DecidableEq τ] in
theorem served_concat (a₀ : A) (calls : List (τ × κ)) (t : τ) (k : κ) :
    served M a₀ (calls ++ [(t, k)]) =
      served M a₀ calls ++ [((t, k), M.out (M.run a₀ (calls.map Prod.snd)) k)] := by
  rw [served, List.map_append, Machine.outputs_append, List.zip_append (by simp)]
  rfl

/-- What is left of the call of a thread that holds the lock. -/
def Leaves (pc : LockPc κ ℓ ρ) (k : κ) (memory memory' : σ) (r : ρ) : Prop :=
  (∃ l, pc = .inside k l ∧ C.Ends memory l memory' r) ∨ (pc = .leaving k r ∧ memory = memory')

/-- The calls that got the lock and those that returned, against the machine:
one call may be on its way. -/
inductive Serves (a₀ : A) :
    List (τ × κ) → List ((τ × κ) × ρ) → Callers τ κ σ ℓ ρ → Prop where
  | free {calls : List (τ × κ)} {c : Callers τ κ σ ℓ ρ} (howner : c.shared.owner = none)
      (hout : ∀ u, (c.locals u).holds = false)
      (hmemory : c.shared.memory = view (M.run a₀ (calls.map Prod.snd))) :
      Serves a₀ calls (served M a₀ calls) c
  | held {calls : List (τ × κ)} {c : Callers τ κ σ ℓ ρ} {t : τ} {k : κ}
      (howner : c.shared.owner = some t) (hout : ∀ u, u ≠ t → (c.locals u).holds = false)
      (hrest : C.Leaves (c.locals t) k c.shared.memory
        (view (M.next (M.run a₀ (calls.map Prod.snd)) k))
        (M.out (M.run a₀ (calls.map Prod.snd)) k)) :
      Serves a₀ (calls ++ [(t, k)]) (served M a₀ calls) c

variable {C M view} {a₀ : A} {calls : List (τ × κ)} {answers : List ((τ × κ) × ρ)}
  {c : Callers τ κ σ ℓ ρ}

omit [DecidableEq τ] in
/-- A thread that holds the lock is the owner, and the rest of its call is what
the machine does. -/
theorem Serves.of_holds (h : Serves C M view a₀ calls answers c) {t : τ}
    (ht : (c.locals t).holds = true) :
    ∃ before k, calls = before ++ [(t, k)] ∧ answers = served M a₀ before ∧
      c.shared.owner = some t ∧ (∀ u, u ≠ t → (c.locals u).holds = false) ∧
      C.Leaves (c.locals t) k c.shared.memory
        (view (M.next (M.run a₀ (before.map Prod.snd)) k))
        (M.out (M.run a₀ (before.map Prod.snd)) k) := by
  cases h with
  | free howner hout hmemory => exact absurd ht (by simp [hout t])
  | @held before _ u k howner hout hrest =>
      by_cases htu : t = u
      · subst htu
        exact ⟨before, k, rfl, rfl, howner, hout, hrest⟩
      · exact absurd ht (by simp [hout t htu])

theorem holds_update {t : τ} {pc : LockPc κ ℓ ρ} (u : τ) (hself : u = t → pc.holds = false)
    (hother : u ≠ t → (c.locals u).holds = false) :
    (Function.update c.locals t pc u).holds = false := by
  by_cases hu : u = t
  · rw [hu, Function.update_self]
    exact hself hu
  · rw [Function.update_of_ne hu]
    exact hother hu

omit [DecidableEq τ] in
theorem Leaves.inside {pc : LockPc κ ℓ ρ} {k k' : κ} {l : ℓ} {memory memory' : σ} {r : ρ}
    (h : C.Leaves pc k memory memory' r) (hpc : pc = .inside k' l) :
    k' = k ∧ C.Ends memory l memory' r := by
  rcases h with ⟨l', hl', hends⟩ | ⟨hl', -⟩
  · cases hpc.symm.trans hl'
    exact ⟨rfl, hends⟩
  · cases hpc.symm.trans hl'

omit [DecidableEq τ] in
theorem Leaves.leaving {pc : LockPc κ ℓ ρ} {k k' : κ} {memory memory' : σ} {r r' : ρ}
    (h : C.Leaves pc k memory memory' r) (hpc : pc = .leaving k' r') :
    k' = k ∧ r' = r ∧ memory = memory' := by
  rcases h with ⟨l', hl', -⟩ | ⟨hl', hmemory⟩
  · cases hpc.symm.trans hl'
  · cases hpc.symm.trans hl'
    exact ⟨rfl, rfl, hmemory⟩

omit [DecidableEq τ] in
theorem Leaves.holds {pc : LockPc κ ℓ ρ} {k : κ} {memory memory' : σ} {r : ρ}
    (h : C.Leaves pc k memory memory' r) : pc.holds = true := by
  rcases h with ⟨l, rfl, -⟩ | ⟨rfl, -⟩ <;> rfl

/-- One step of a thread: it takes the lock for the next call of the machine, it
goes on with its call, or it returns the machine's answer. -/
theorem Serves.next (himpl : C.Implements M view) (h : Serves C M view a₀ calls answers c) {t : τ}
    {s : Guarded τ σ} {pc : LockPc κ ℓ ρ} {o : LockNote τ κ ρ}
    (hstep : C.Steps t c.shared (c.locals t) s pc o) :
    Serves C M view a₀ (calls ++ o.entered?.toList) (answers ++ o.returned?.toList)
      ⟨s, Function.update c.locals t pc⟩ := by
  generalize hpc : c.locals t = pc₀ at hstep
  cases hstep with
  | call k =>
      simp only [LockNote.entered?, LockNote.returned?, Option.toList_none, List.append_nil]
      cases h with
      | free howner hout hmemory =>
          exact .free howner (fun u ↦ holds_update u (fun _ ↦ rfl) fun _ ↦ hout u) hmemory
      | @held before _ v k' howner hout hrest =>
          have hvt : v ≠ t := by
            rintro rfl
            have hidle := hrest.holds
            rw [hpc] at hidle
            cases hidle
          refine .held howner (fun u hu ↦ holds_update u (fun _ ↦ rfl) fun _ ↦ hout u hu) ?_
          simpa [Function.update_of_ne hvt] using hrest
  | acquire k hfree =>
      simp only [LockNote.entered?, LockNote.returned?, Option.toList_some, Option.toList_none,
        List.append_nil]
      cases h with
      | held howner => cases hfree.symm.trans howner
      | free howner hout hmemory =>
          have hends := himpl (M.run a₀ (calls.map Prod.snd)) k
          rw [← hmemory] at hends
          exact .held rfl (fun u hu ↦ holds_update u (fun h ↦ absurd h hu) fun _ ↦ hout u)
            (Or.inl ⟨C.start k, Function.update_self .., hends⟩)
  | more k hmore =>
      simp only [LockNote.entered?, LockNote.returned?, Option.toList_none, List.append_nil]
      obtain ⟨before, k', rfl, rfl, howner, hout, hrest⟩ := h.of_holds (t := t) (by rw [hpc]; rfl)
      obtain ⟨rfl, hends⟩ := hrest.inside hpc
      exact .held howner (fun u hu ↦ holds_update u (fun h ↦ absurd h hu) fun _ ↦ hout u hu)
        (Or.inl ⟨_, Function.update_self .., hends.of_more hmore⟩)
  | last k hlast =>
      simp only [LockNote.entered?, LockNote.returned?, Option.toList_none, List.append_nil]
      obtain ⟨before, k', rfl, rfl, howner, hout, hrest⟩ := h.of_holds (t := t) (by rw [hpc]; rfl)
      obtain ⟨rfl, hends⟩ := hrest.inside hpc
      obtain ⟨hmemory, rfl⟩ := hends.of_last hlast
      exact .held howner (fun u hu ↦ holds_update u (fun h ↦ absurd h hu) fun _ ↦ hout u hu)
        (Or.inr ⟨Function.update_self .., hmemory⟩)
  | release k r =>
      simp only [LockNote.entered?, LockNote.returned?, Option.toList_some, Option.toList_none,
        List.append_nil]
      obtain ⟨before, k', rfl, rfl, howner, hout, hrest⟩ := h.of_holds (t := t) (by rw [hpc]; rfl)
      obtain ⟨rfl, rfl, hmemory⟩ := hrest.leaving hpc
      rw [← served_concat]
      refine .free rfl (fun u ↦ holds_update u (fun _ ↦ rfl) fun hu ↦ hout u hu) ?_
      rw [List.map_append, Machine.run_append]
      exact hmemory

theorem serves_run (himpl : C.Implements M view) (a₀ : A) (es : List (τ × LockAction κ)) :
    Serves C M view a₀ (C.entered (begin τ κ ℓ ρ (view a₀)) es)
      (C.answered (begin τ κ ℓ ρ (view a₀)) es)
      ((C.program τ).machine.run (begin τ κ ℓ ρ (view a₀)) es) := by
  induction es using List.reverseRecOn with
  | nil => exact .free rfl (fun _ ↦ rfl) rfl
  | append_singleton es e ih =>
      obtain ⟨t, a⟩ := e
      rw [entered, answered, Machine.collect_concat, Machine.collect_concat, Machine.run_concat]
      generalize (C.program τ).machine.run (begin τ κ ℓ ρ (view a₀)) es = c at ih ⊢
      rcases (C.program τ).step_cases c t a with hnone | ⟨s, pc, o, henabled, hnext⟩
      · rw [Machine.next, Machine.out, hnone, Option.bind_none, Option.bind_none,
          Option.toList_none, Option.toList_none, List.append_nil, List.append_nil]
        exact ih
      · rw [Machine.next, Machine.out, hnext]
        exact ih.next himpl (C.steps_of_step henabled)

omit [DecidableEq τ] in
/-- The results so far are those that the machine gives first. -/
theorem Serves.answers_prefix_served (h : Serves C M view a₀ calls answers c) :
    answers <+: served M a₀ calls := by
  cases h with
  | free => exact List.prefix_rfl
  | held =>
      rw [served_concat]
      exact List.prefix_append _ _

omit [DecidableEq τ] in
/-- While nobody holds the lock, the memory is the machine's and every call that
got the lock has returned. -/
theorem Serves.of_free (h : Serves C M view a₀ calls answers c) (hfree : c.shared.owner = none) :
    c.shared.memory = view (M.run a₀ (calls.map Prod.snd)) ∧ answers = served M a₀ calls := by
  cases h with
  | free howner hout hmemory => exact ⟨hmemory, rfl⟩
  | held howner => cases hfree.symm.trans howner

omit [DecidableEq τ] in
/-- No two threads are in the code at a time. -/
theorem Serves.exclusive (h : Serves C M view a₀ calls answers c) {t u : τ}
    (ht : (c.locals t).holds = true) (hu : (c.locals u).holds = true) : u = t := by
  obtain ⟨-, -, -, -, -, hout, -⟩ := h.of_holds ht
  by_contra hne
  exact absurd hu (by simp [hout u hne])

omit [DecidableEq τ] in
/-- A result is the machine's answer after the calls before it. -/
theorem exists_of_mem_served {call : τ × κ} {r : ρ} (h : (call, r) ∈ served M a₀ calls) :
    ∃ before, before <+: calls ∧ r = M.out (M.run a₀ (before.map Prod.snd)) call.2 := by
  induction calls using List.reverseRecOn with
  | nil => cases h
  | append_singleton calls last ih =>
      obtain ⟨t, k⟩ := last
      rw [served_concat] at h
      rcases List.mem_append.mp h with hearlier | hlast
      · obtain ⟨before, hbefore, hr⟩ := ih hearlier
        exact ⟨before, hbefore.trans (List.prefix_append _ _), hr⟩
      · obtain ⟨rfl, rfl⟩ := Prod.mk.inj (List.mem_singleton.mp hlast)
        exact ⟨calls, List.prefix_append _ _, rfl⟩

end LockedCode

end FrogQuant
