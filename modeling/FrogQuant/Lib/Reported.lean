import FrogQuant.Lib.Recent
import FrogQuant.Lib.Threads

/-!
# Reports from under a lock

Threads work on a machine under a lock, and push what it gives item by item to a
list that all threads push to, before they release the lock.  Then the machine's
items are in the list in the order of its steps, each once, whatever the others
push in between.
-/

namespace FrogQuant

/-- The memory that the lock guards, and the list of the last items, which has
its own lock. -/
structure Desk (τ σ ι : Type*) where
  owner : Option τ
  memory : σ
  kept : List ι

inductive DeskPc (ε ι : Type*) where
  | idle
  | waiting (op : ε)
  | inside (op : ε)
  | pushing (items : List ι)

/-- A `note` is pushed by a thread that does not hold the lock. -/
inductive DeskAction (ε γ : Type*) where
  | call (op : ε)
  | acquire
  | work
  | push
  | release
  | note (g : γ)

inductive DeskOut (ε ι : Type*) where
  | quiet
  | worked (op : ε)
  | pushed (item : ι)

namespace DeskPc

variable {ε ι : Type*}

def holds : DeskPc ε ι → Bool
  | inside _ | pushing _ => true
  | idle | waiting _ => false

/-- What is still to be pushed. -/
def items : DeskPc ε ι → List ι
  | pushing items => items
  | _ => []

end DeskPc

namespace DeskOut

variable {ε ι : Type*}

def worked? : DeskOut ε ι → Option ε
  | worked op => some op
  | _ => none

def pushed? : DeskOut ε ι → Option ι
  | pushed item => some item
  | _ => none

end DeskOut

namespace Reported

variable {τ σ ε ι γ : Type*} [DecidableEq τ] (M : Machine σ ε (List ι)) (note : γ → ι) (cap : ℕ)

def program (τ : Type*) [DecidableEq τ] :
    Program τ (Desk τ σ ι) (DeskPc ε ι) (DeskAction ε γ) (DeskOut ε ι) where
  step t a s pc :=
    match a, pc with
    | .call op, .idle => some (s, .waiting op, .quiet)
    | .acquire, .waiting op =>
        match s.owner with
        | none => some ({ s with owner := some t }, .inside op, .quiet)
        | some _ => none
    | .work, .inside op =>
        some ({ s with memory := M.next s.memory op }, .pushing (M.out s.memory op), .worked op)
    | .push, .pushing (item :: items) =>
        some ({ s with kept := Recent.push cap 1 s.kept item }, .pushing items, .pushed item)
    | .release, .pushing [] => some ({ s with owner := none }, .idle, .quiet)
    | .note g, .idle =>
        some ({ s with kept := Recent.push cap 1 s.kept (note g) }, .idle, .pushed (note g))
    | _, _ => none

/-- All that a step can do. -/
inductive Steps (t : τ) (s : Desk τ σ ι) :
    DeskPc ε ι → Desk τ σ ι → DeskPc ε ι → DeskOut ε ι → Prop where
  | call (op : ε) : Steps t s .idle s (.waiting op) .quiet
  | acquire (op : ε) (hfree : s.owner = none) :
      Steps t s (.waiting op) { s with owner := some t } (.inside op) .quiet
  | work (op : ε) :
      Steps t s (.inside op) { s with memory := M.next s.memory op }
        (.pushing (M.out s.memory op)) (.worked op)
  | push (item : ι) (items : List ι) :
      Steps t s (.pushing (item :: items))
        { s with kept := Recent.push cap 1 s.kept item } (.pushing items) (.pushed item)
  | release : Steps t s (.pushing []) { s with owner := none } .idle .quiet
  | note (g : γ) :
      Steps t s .idle { s with kept := Recent.push cap 1 s.kept (note g) } .idle (.pushed (note g))

theorem steps_of_step {t : τ} {a : DeskAction ε γ} {s s' : Desk τ σ ι} {pc pc' : DeskPc ε ι}
    {o : DeskOut ε ι} (h : (program M note cap τ).step t a s pc = some (s', pc', o)) :
    Steps M note cap t s pc s' pc' o := by
  simp only [program] at h
  split at h
  case h_1 op =>
    cases h
    exact .call op
  case h_2 op =>
    split at h
    case h_1 hfree =>
      cases h
      exact .acquire op hfree
    case h_2 => cases h
  case h_3 op =>
    cases h
    exact .work op
  case h_4 item items =>
    cases h
    exact .push item items
  case h_5 =>
    cases h
    exact .release
  case h_6 g =>
    cases h
    exact .note g
  case h_7 => cases h

abbrev State (τ σ ε ι : Type*) := Threads τ (Desk τ σ ι) (DeskPc ε ι)

def begin (τ ε ι : Type*) {σ : Type*} (memory : σ) : State τ σ ε ι where
  shared := ⟨none, memory, []⟩
  locals := fun _ ↦ .idle

/-- The machine's steps, in the order in which they were done. -/
def worked (c : State τ σ ε ι) (es : List (τ × DeskAction ε γ)) : List ε :=
  (program M note cap τ).machine.collect
    (fun c e ↦ ((program M note cap τ).machine.out c e).bind DeskOut.worked?) c es

/-- All items that went into the list, in order. -/
def pushed (c : State τ σ ε ι) (es : List (τ × DeskAction ε γ)) : List ι :=
  (program M note cap τ).machine.collect
    (fun c e ↦ ((program M note cap τ).machine.out c e).bind DeskOut.pushed?) c es

/-- What the owner of the lock is still to push. -/
def pending (c : State τ σ ε ι) : List ι :=
  match c.shared.owner with
  | none => []
  | some t => (c.locals t).items

/-- The machine has taken `ops` and the list `items`, of which its own are those
that it gave, up to those that are still to be pushed. -/
structure Told (own : ι → Bool) (s₀ : σ) (ops : List ε) (items : List ι) (c : State τ σ ε ι) :
    Prop where
  memory : c.shared.memory = M.run s₀ ops
  kept : c.shared.kept = Recent.recent cap 1 items
  holds : ∀ t, (c.locals t).holds = true ↔ c.shared.owner = some t
  told : items.filter own ++ (pending c).filter own = (M.yields M.out s₀ ops).filter own

variable {M note cap} {own : ι → Bool} {s₀ : σ} {ops : List ε} {items : List ι}
  {c : State τ σ ε ι}

theorem holds_update {t : τ} {pc : DeskPc ε ι} {owner : Option τ}
    (hself : pc.holds = true ↔ owner = some t)
    (hothers : ∀ u, u ≠ t → ((c.locals u).holds = true ↔ owner = some u)) (u : τ) :
    (Function.update c.locals t pc u).holds = true ↔ owner = some u := by
  by_cases hu : u = t
  · rw [hu, Function.update_self]
    exact hself
  · rw [Function.update_of_ne hu]
    exact hothers u hu

theorem pending_update_of_ne (s : Desk τ σ ι) {t : τ} {pc : DeskPc ε ι}
    (howner : s.owner = c.shared.owner) (ht : c.shared.owner ≠ some t) :
    pending ⟨s, Function.update c.locals t pc⟩ = pending c := by
  simp only [pending, howner]
  cases ho : c.shared.owner with
  | none => rfl
  | some u =>
      have hut : u ≠ t := fun h ↦ ht (by rw [ho, h])
      simp only [Function.update_of_ne hut]

theorem pending_update_self (s : Desk τ σ ι) {t : τ} {pc : DeskPc ε ι}
    (howner : s.owner = some t) :
    pending ⟨s, Function.update c.locals t pc⟩ = pc.items := by
  simp only [pending, howner, Function.update_self]

omit [DecidableEq τ] in
theorem pending_of_owner {t : τ} (h : c.shared.owner = some t) :
    pending c = (c.locals t).items := by
  simp only [pending, h]

/-- One step: it adds to the machine's steps or to the list, or to neither. -/
theorem Told.next (h : Told M cap own s₀ ops items c) (hnote : ∀ g, own (note g) = false) {t : τ}
    {s : Desk τ σ ι} {pc : DeskPc ε ι} {o : DeskOut ε ι}
    (hstep : Steps M note cap t c.shared (c.locals t) s pc o) :
    Told M cap own s₀ (ops ++ o.worked?.toList) (items ++ o.pushed?.toList)
      ⟨s, Function.update c.locals t pc⟩ := by
  have hself := h.holds t
  have htold := h.told
  generalize hpc : c.locals t = pc₀ at hstep hself
  have hothers : ∀ u, u ≠ t → ((c.locals u).holds = true ↔ c.shared.owner = some u) :=
    fun u _ ↦ h.holds u
  cases hstep with
  | call op =>
      have hnot : c.shared.owner ≠ some t := fun ho ↦ by cases hself.mpr ho
      simp only [DeskOut.worked?, DeskOut.pushed?, Option.toList_none, List.append_nil]
      refine ⟨h.memory, h.kept, holds_update hself hothers, ?_⟩
      rwa [pending_update_of_ne c.shared rfl hnot]
  | acquire op hfree =>
      simp only [DeskOut.worked?, DeskOut.pushed?, Option.toList_none, List.append_nil]
      refine ⟨h.memory, h.kept, holds_update (by simp [DeskPc.holds]) fun u hu ↦ ?_, ?_⟩
      · simpa [hfree, Ne.symm hu] using h.holds u
      · rw [pending_update_self { c.shared with owner := some t } rfl]
        simpa [pending, hfree, DeskPc.items] using htold
  | work op =>
      have howner := hself.mp rfl
      simp only [DeskOut.worked?, DeskOut.pushed?, Option.toList_some, Option.toList_none,
        List.append_nil]
      refine ⟨?_, h.kept, holds_update hself hothers, ?_⟩
      · rw [Machine.run_concat, ← h.memory]
      · rw [pending_of_owner howner, hpc] at htold
        rw [pending_update_self ⟨c.shared.owner, M.next c.shared.memory op, c.shared.kept⟩ howner,
          Machine.yields_concat, List.filter_append, ← htold, ← h.memory]
        simp [DeskPc.items]
  | push item rest =>
      have howner := hself.mp rfl
      simp only [DeskOut.worked?, DeskOut.pushed?, Option.toList_some, Option.toList_none,
        List.append_nil]
      refine ⟨h.memory, ?_, holds_update hself hothers, ?_⟩
      · rw [Recent.recent_concat, ← h.kept]
      · rw [pending_of_owner howner, hpc] at htold
        rw [pending_update_self
            ⟨c.shared.owner, c.shared.memory, Recent.push cap 1 c.shared.kept item⟩ howner,
          ← htold, DeskPc.items, DeskPc.items, List.filter_append, List.append_assoc,
          ← List.filter_append, List.singleton_append]
  | release =>
      have howner := hself.mp rfl
      simp only [DeskOut.worked?, DeskOut.pushed?, Option.toList_none, List.append_nil]
      refine ⟨h.memory, h.kept, holds_update (by simp [DeskPc.holds]) fun u hu ↦ ?_, ?_⟩
      · simpa [howner, Ne.symm hu] using h.holds u
      · rwa [pending_of_owner howner, hpc] at htold
  | note g =>
      have hnot : c.shared.owner ≠ some t := fun ho ↦ by cases hself.mpr ho
      simp only [DeskOut.worked?, DeskOut.pushed?, Option.toList_some, Option.toList_none,
        List.append_nil]
      refine ⟨h.memory, ?_, holds_update hself hothers, ?_⟩
      · rw [Recent.recent_concat, ← h.kept]
      · rw [pending_update_of_ne
            ⟨c.shared.owner, c.shared.memory, Recent.push cap 1 c.shared.kept (note g)⟩ rfl hnot,
          List.filter_append, List.filter_singleton, hnote g]
        simpa using htold

theorem told_run (hnote : ∀ g, own (note g) = false) (s₀ : σ) (es : List (τ × DeskAction ε γ)) :
    Told M cap own s₀ (worked M note cap (begin τ ε ι s₀) es)
      (pushed M note cap (begin τ ε ι s₀) es)
      ((program M note cap τ).machine.run (begin τ ε ι s₀) es) := by
  induction es using List.reverseRecOn with
  | nil => exact ⟨rfl, rfl, fun t ↦ by simp [begin, DeskPc.holds], rfl⟩
  | append_singleton es e ih =>
      obtain ⟨t, a⟩ := e
      rw [worked, pushed, Machine.collect_concat, Machine.collect_concat, Machine.run_concat]
      generalize (program M note cap τ).machine.run (begin τ ε ι s₀) es = c at ih ⊢
      rcases (program M note cap τ).step_cases c t a with hnone | ⟨s, pc, o, henabled, hnext⟩
      · rw [Machine.next, Machine.out, hnone, Option.bind_none, Option.bind_none,
          Option.toList_none, Option.toList_none, List.append_nil, List.append_nil]
        exact ih
      · rw [Machine.next, Machine.out, hnext]
        exact ih.next hnote (steps_of_step M note cap henabled)

end Reported

end FrogQuant
