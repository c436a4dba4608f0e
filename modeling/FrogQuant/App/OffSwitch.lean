import FrogQuant.App.ControlApiRouter
import FrogQuant.Strategy.LifeCycle
import FrogQuant.Lib.Threads

/-!
# The off switch

The two market threads run the tick handler while the API thread handles
requests that switch the strategy.  The handler looks at the flag before it
takes the lock of the grid, so a tick may act after the answer to a request
that switched the strategy off.
-/

namespace FrogQuant.App

variable {α : Type}

inductive LoopThread where
  | market (source : TickSource)
  | api
  deriving DecidableEq

/-- Where a thread stands: in the tick handler, or in the handler of
`POST /strategy/grid/enable`. -/
inductive LoopPc (α : Type) where
  | idle
  | loaded (price : α)
  | locked (price : α)
  | pushing (intents : List (StrategyOrderIntent α))
  | stored (enabled : Bool)
  | saved (enabled : Bool)
  | pushed (enabled : Bool)

/-- A tick past its look at the flag. -/
def LoopPc.inTick : LoopPc α → Bool
  | loaded _ | locked _ | pushing _ => true
  | _ => false

/-- The flag that the request in progress has stored. -/
def LoopPc.request : LoopPc α → Option Bool
  | stored enabled | saved enabled | pushed enabled => some enabled
  | _ => none

/-- The atomic steps of the two handlers. -/
inductive LoopAction (α : Type) where
  | load (price : α)
  | acquire
  | onPriceTick
  | pushIntent
  | release
  | store (enabled : Bool)
  | save
  | pushEnable
  | answer

/-- What the threads share.  `savedFlag` is the flag in the runtime state file;
`off` records that a request has been answered that switched the strategy off,
and none has stored the flag as on since. -/
structure LoopMemory (α : Type) where
  enabled : Bool
  mutex : Option TickSource
  grid : LongGridStrategy α
  savedFlag : Option Bool
  off : Bool

theorem enableText_ne_intentText (enabled : Bool) (gridId : ℕ) :
    enableText enabled ≠ intentText gridId := by
  intro h
  have hchar : (some 'e' : Option Char) = some 'i' := congrArg (fun text : Text ↦ text[9]?) h
  simp at hchar

section Handlers

variable [Floating α]

/-- The tick handler from its look at the flag on; a step gives the events it
pushes. -/
def tickStep (source : TickSource) (a : LoopAction α) (s : LoopMemory α) (pc : LoopPc α) :
    Option (LoopMemory α × LoopPc α × List Text) :=
  match a, pc with
  | .load price, .idle => some (s, if s.enabled then .loaded price else .idle, [])
  | .acquire, .loaded price =>
      if s.mutex = none then some ({ s with mutex := some source }, .locked price, []) else none
  | .onPriceTick, .locked price =>
      let (grid, intents) := s.grid.onPriceTick price
      some ({ s with grid := grid }, .pushing intents, [])
  | .pushIntent, .pushing (intent :: intents) =>
      some (s, .pushing intents, [intentText intent.gridId])
  | .release, .pushing [] => some ({ s with mutex := none }, .idle, [])
  | _, _ => none

omit [Floating α] in
/-- `POST /strategy/grid/enable` with a flag in its body. -/
def enableStep (a : LoopAction α) (s : LoopMemory α) (pc : LoopPc α) :
    Option (LoopMemory α × LoopPc α × List Text) :=
  match a, pc with
  | .store enabled, .idle =>
      some ({ s with enabled := enabled, off := s.off && !enabled }, .stored enabled, [])
  | .save, .stored enabled => some ({ s with savedFlag := some s.enabled }, .saved enabled, [])
  | .pushEnable, .saved enabled => some (s, .pushed enabled, [enableText enabled])
  | .answer, .pushed enabled => some ({ s with off := s.off || !enabled }, .idle, [])
  | _, _ => none

def loopProgram (α : Type) [Floating α] :
    Program LoopThread (LoopMemory α) (LoopPc α) (LoopAction α) (List Text) where
  step t a s pc :=
    match t with
    | .market source => tickStep source a s pc
    | .api => enableStep a s pc

end Handlers

abbrev Loop (α : Type) := Threads LoopThread (LoopMemory α) (LoopPc α)

namespace Loop

/-- Every thread is idle, nothing has been answered yet. -/
def start (enabled : Bool) (grid : LongGridStrategy α) : Loop α where
  shared := ⟨enabled, none, grid, none, false⟩
  locals := fun _ ↦ .idle

variable [Floating α]

/-- While the strategy is switched off, no intent is pushed and no level
changes its state. -/
def OffIsFinal (c : Loop α) (e : LoopThread × LoopAction α) : Prop :=
  c.shared.off = true →
    (∀ gridId, (loopProgram α).machine.out c e ≠ some [intentText gridId]) ∧
    ∀ id, ((loopProgram α).machine.next c e).shared.grid.stateAt id = c.shared.grid.stateAt id

omit [Floating α] in
/-- No request that switched the strategy off is answered while a market thread
is in a tick that saw the strategy on. -/
def AnswersQuiet (c : Loop α) (e : LoopThread × LoopAction α) : Prop :=
  e = (.api, .answer) → c.locals .api = .pushed false →
    ∀ source, (c.locals (.market source)).inTick = false

/-! ## What a step can do -/

variable {a : LoopAction α} {s s' : LoopMemory α} {pc pc' : LoopPc α} {o : List Text}

/-- A market thread leaves the flag alone, and before a tick it only looks at
it. -/
theorem tickStep_spec {source : TickSource} (h : tickStep source a s pc = some (s', pc', o)) :
    s'.enabled = s.enabled ∧ s'.off = s.off ∧
      (pc.inTick = false → s' = s ∧ o = [] ∧ (s.enabled = false → pc'.inTick = false)) := by
  unfold tickStep at h
  split at h
  · cases h
    exact ⟨rfl, rfl, fun _ ↦ ⟨rfl, rfl, fun hoff ↦ by simp [hoff, LoopPc.inTick]⟩⟩
  · split_ifs at h
    cases h
    exact ⟨rfl, rfl, nofun⟩
  · cases h
    exact ⟨rfl, rfl, nofun⟩
  · cases h
    exact ⟨rfl, rfl, nofun⟩
  · cases h
    exact ⟨rfl, rfl, nofun⟩
  · cases h

omit [Floating α] in
/-- The request handler leaves the grid alone.  It stores the flag, keeps it
for the rest of the request, and answers. -/
theorem enableStep_spec (h : enableStep a s pc = some (s', pc', o)) :
    s'.grid = s.grid ∧ (∀ gridId, o ≠ [intentText gridId]) ∧
      ((∃ en, pc'.request = some en ∧ s'.enabled = en ∧ s'.off = (s.off && !en)) ∨
        (∃ en, pc.request = some en ∧ pc'.request = some en ∧ s'.enabled = s.enabled ∧
          s'.off = s.off) ∨
        ∃ en, a = .answer ∧ pc = .pushed en ∧ pc'.request = none ∧ s'.enabled = s.enabled ∧
          s'.off = (s.off || !en)) := by
  unfold enableStep at h
  split at h
  case h_1 enabled =>
    cases h
    exact ⟨rfl, by simp, Or.inl ⟨enabled, rfl, rfl, rfl⟩⟩
  case h_2 enabled =>
    cases h
    exact ⟨rfl, by simp, Or.inr (Or.inl ⟨enabled, rfl, rfl, rfl, rfl⟩)⟩
  case h_3 enabled =>
    cases h
    refine ⟨rfl, fun gridId heq ↦ ?_, Or.inr (Or.inl ⟨enabled, rfl, rfl, rfl, rfl⟩)⟩
    exact enableText_ne_intentText enabled gridId (List.singleton_inj.mp heq)
  case h_4 enabled =>
    cases h
    exact ⟨rfl, by simp, Or.inr (Or.inr ⟨enabled, rfl, rfl, rfl, rfl, rfl⟩)⟩
  case h_5 => cases h

/-! ## No tick outlives the switch -/

omit [Floating α] in
def FlagOff (s : LoopMemory α) : Prop := s.off = true → s.enabled = false

omit [Floating α] in
/-- A market thread is in no tick while the strategy is off, and the flag is
that of the request in progress. -/
def Settled (t : LoopThread) (s : LoopMemory α) (pc : LoopPc α) : Prop :=
  match t with
  | .market _ => s.off = true → pc.inTick = false
  | .api => ∀ en, pc.request = some en → s.enabled = en

omit [Floating α] in
theorem Settled.of_eq {t : LoopThread} (h : Settled t s pc) (henabled : s'.enabled = s.enabled)
    (hoff : s'.off = s.off) : Settled t s' pc := by
  cases t with
  | market source => exact fun hs' ↦ h (hoff ▸ hs')
  | api => exact fun en hen ↦ henabled.trans (h en hen)

theorem holds_next {c : Loop α} (h : Program.Holds FlagOff Settled c)
    {e : LoopThread × LoopAction α} (hquiet : c.AnswersQuiet e) :
    Program.Holds FlagOff Settled ((loopProgram α).machine.next c e) := by
  obtain ⟨t, a⟩ := e
  refine (loopProgram α).holds_next h t a fun s' pc' o hstep ↦ ?_
  cases t with
  | market source =>
      obtain ⟨henabled, hoff, hbefore⟩ := tickStep_spec hstep
      refine ⟨fun hs' ↦ henabled.trans (h.shared (hoff ▸ hs')), fun hs' ↦ ?_,
        fun u _ ↦ (h.locals u).of_eq henabled hoff⟩
      have hcoff : c.shared.off = true := hoff ▸ hs'
      exact (hbefore (h.locals (.market source) hcoff)).2.2 (h.shared hcoff)
  | api =>
      obtain ⟨-, -, hcase⟩ := enableStep_spec hstep
      rcases hcase with ⟨en, hreq, henabled, hoff⟩ | ⟨en, hreq, hreq', henabled, hoff⟩ |
        ⟨en, rfl, hpc, hreq', henabled, hoff⟩
      · -- the flag is stored: `off` stays only if it is stored as off
        refine ⟨fun hs' ↦ ?_, fun en' hen' ↦ ?_, fun u hu ↦ ?_⟩
        · rw [hoff] at hs'
          simpa [henabled] using (Bool.and_eq_true_iff.mp hs').2
        · rw [henabled]
          exact Option.some.inj (hreq.symm.trans hen')
        · cases u with
          | market source =>
              intro hs'
              rw [hoff] at hs'
              exact h.locals (.market source) (Bool.and_eq_true_iff.mp hs').1
          | api => exact absurd rfl hu
      · refine ⟨fun hs' ↦ henabled.trans (h.shared (hoff ▸ hs')), fun en' hen' ↦ ?_,
          fun u _ ↦ (h.locals u).of_eq henabled hoff⟩
        rw [henabled, ← Option.some.inj (hreq'.symm.trans hen')]
        exact h.locals .api en hreq
      · -- the answer: the flag is what the request stored, and no tick is in progress
        have hflag : c.shared.enabled = en := h.locals .api en (by rw [hpc]; rfl)
        have hnew : s'.off = true → c.shared.off = true ∨ en = false := by
          intro hs'
          simpa [hoff] using hs'
        refine ⟨fun hs' ↦ ?_, fun en' hen' ↦ ?_, fun u hu ↦ ?_⟩
        · rw [henabled]
          rcases hnew hs' with hold | rfl
          · exact h.shared hold
          · exact hflag
        · cases hreq'.symm.trans hen'
        · cases u with
          | market source =>
              intro hs'
              rcases hnew hs' with hold | rfl
              · exact h.locals (.market source) hold
              · exact hquiet rfl hpc source
          | api => exact absurd rfl hu

theorem offIsFinal_of_holds {c : Loop α} (h : Program.Holds FlagOff Settled c)
    (e : LoopThread × LoopAction α) : c.OffIsFinal e := by
  intro hoff
  obtain ⟨t, a⟩ := e
  rw [Machine.out, Machine.next]
  rcases (loopProgram α).step_cases c t a with hnone | ⟨s', pc', o, hstep, hnext⟩
  · rw [hnone]
    exact ⟨fun _ ↦ (Option.some_ne_none _).symm, fun _ ↦ rfl⟩
  · rw [hnext]
    cases t with
    | market source =>
        obtain ⟨-, -, hbefore⟩ := tickStep_spec hstep
        obtain ⟨rfl, rfl, -⟩ := hbefore (h.locals (.market source) hoff)
        exact ⟨by simp, fun _ ↦ rfl⟩
    | api =>
        obtain ⟨hgrid, hout, -⟩ := enableStep_spec hstep
        exact ⟨fun gridId heq ↦ hout gridId (Option.some.inj heq), fun id ↦ by rw [hgrid]⟩

/-- In every interleaving in which no request that switches the strategy off is
answered during a tick that saw it on, the answer is final. -/
theorem off_switch_final (enabled : Bool) (grid : LongGridStrategy α)
    (es : List (LoopThread × LoopAction α))
    (hquiet : (loopProgram α).machine.AllSteps AnswersQuiet (start enabled grid) es) :
    (loopProgram α).machine.AllSteps OffIsFinal (start enabled grid) es := by
  refine Machine.AllSteps.imp_of_invariant _ (Program.Holds FlagOff Settled)
    (fun c e h hq ↦ ⟨holds_next h hq, offIsFinal_of_holds h e⟩) ⟨nofun, fun t ↦ ?_⟩ hquiet
  cases t with
  | market source => exact nofun
  | api => exact nofun

/-- A tick that is over before the switch, and one that comes after it. -/
theorem off_switch_final_between_ticks :
    (loopProgram ℚ).machine.AllSteps OffIsFinal (start true (.init .default))
      [(.market .webSocket, .load 100), (.market .webSocket, .acquire),
        (.market .webSocket, .onPriceTick), (.market .webSocket, .pushIntent),
        (.market .webSocket, .release), (.api, .store false), (.api, .save), (.api, .pushEnable),
        (.api, .answer), (.market .restFallback, .load 99)] := by
  apply off_switch_final
  refine ⟨nofun, nofun, nofun, nofun, nofun, nofun, nofun, nofun, fun _ _ source ↦ ?_, nofun,
    trivial⟩
  cases source <;> decide +kernel

/-- The switch and its answer between the look at the flag and the lock: the
tick then buys. -/
theorem tick_acts_after_off :
    ¬ ∀ (enabled : Bool) (grid : LongGridStrategy ℚ) (es : List (LoopThread × LoopAction ℚ)),
      (loopProgram ℚ).machine.AllSteps OffIsFinal (start enabled grid) es := by
  intro h
  have hfinal := h true (.init .default)
    [(.market .webSocket, .load 100), (.api, .store false), (.api, .save), (.api, .pushEnable),
      (.api, .answer), (.market .webSocket, .acquire), (.market .webSocket, .onPriceTick),
      (.market .webSocket, .pushIntent)]
  obtain ⟨-, hstate⟩ := hfinal.2.2.2.2.2.2.1 (by decide +kernel)
  exact absurd (hstate 5) (by decide +kernel)

end Loop

end FrogQuant.App
