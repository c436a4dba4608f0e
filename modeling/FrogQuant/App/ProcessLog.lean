import FrogQuant.App.LogReader
import FrogQuant.App.Process

/-!
# What the log of a whole process tells

The market threads log their ticks between the events of the orders, in any
order.  A reader of the file that the process leaves gets the fate of every
order all the same, unless the queue has refused an event of an order.
-/

namespace FrogQuant.App

/-- An event of the API thread that the queue has refused. -/
def Note.lost? : Note → Option (LogEvent Double)
  | dropped .api ev => some ev
  | _ => none

namespace Process

variable {cfg : RiskConfig Double} {ops : List (CoreOp Double)} {taken : List (LogEvent Double)}
  {c c' : Process} {w : Worker}

/-- An event that tells nothing of an order may stand anywhere. -/
theorem audit_insert (id : ℕ) (xs ys : List (LogEvent Double)) {ev : LogEvent Double}
    (h : ¬ tellsOfOrder ev) : audit id (xs ++ [ev] ++ ys) = audit id (xs ++ ys) := by
  rw [audit, audit, List.foldl_append, List.foldl_append, List.foldl_append, List.foldl_cons,
    List.foldl_nil, auditStep_of_not id _ h]

theorem not_tellsOfOrder_of_isTick {core : TradingCore Double} {op : CoreOp Double}
    (hop : isTick op = true) {ev : LogEvent Double} (hev : core.logged op = some ev) :
    ¬ tellsOfOrder ev := by
  cases op with
  | tick nowMs tick =>
      obtain rfl := Option.some.inj hev
      simp only [tellsOfOrder, TradingCore.onTick, makeLog]
      decide
  | _ => cases hop

theorem getOrder_of_isTick (core : TradingCore Double) {op : CoreOp Double} (hop : isTick op = true)
    (id : ℕ) : ((coreMachine Double).next core op).getOrder id = core.getOrder id := by
  cases op with
  | tick nowMs tick => rfl
  | _ => cases hop

theorem worker_moveTo (c : Process) (w : Worker) (pc : WorkerPc) (u : Worker) {β : Type}
    (f : WorkerPc → β) : f ((c.moveTo w pc).worker u) = if u = w then f pc else f (c.worker u) := by
  rw [moveTo]
  by_cases hu : u = w
  · subst hu
    simp
  · simp [hu]

/-- What the queue has taken, and the event that the API thread still holds, tell
the fate of every order. -/
structure Told (cfg : RiskConfig Double) (ops : List (CoreOp Double))
    (taken : List (LogEvent Double)) (c : Process) : Prop where
  core : c.core = TradingCore.after cfg ops
  ticks : ∀ w op, w ≠ .api → (c.worker w).call? = some op → isTick op = true
  market : ∀ w ev, w ≠ .api → (c.worker w).event? = some ev → ¬ tellsOfOrder ev
  held : ∀ w ev, (c.worker w).event? = some ev → ReadableEvent ev ∧ ExactId ev
  logged : ∀ ev ∈ taken, ReadableEvent ev ∧ ExactId ev
  fate : ∀ id, audit id (taken ++ (c.worker .api).event?.toList) =
    (c.core.getOrder id).map OrderRecord.fate

theorem told_start (cfg : RiskConfig Double) (file : Text) : Told cfg [] [] (start cfg file) where
  core := rfl
  ticks := fun w op _ hcall ↦ by cases w <;> cases hcall
  market := fun w ev _ hev ↦ by cases w <;> cases hev
  held := fun w ev hev ↦ by cases w <;> cases hev
  logged := fun ev hev ↦ absurd hev List.not_mem_nil
  fate := fun _ ↦ rfl

theorem Told.move (h : Told cfg ops taken c) {pc : WorkerPc}
    (hpc : pc.event? = (c.worker w).event?)
    (hop : ∀ op, pc.call? = some op → w ≠ .api → isTick op = true) :
    Told cfg ops taken (c.moveTo w pc) := by
  have hevent : ∀ u, ((c.moveTo w pc).worker u).event? = (c.worker u).event? := by
    intro u
    rw [worker_moveTo c w pc u WorkerPc.event?]
    split_ifs with hu
    · rw [hu, hpc]
    · rfl
  refine ⟨h.core, fun u op hu hcall ↦ ?_, fun u ev hu hev ↦ ?_, fun u ev hev ↦ ?_, h.logged, ?_⟩
  · rw [worker_moveTo c w pc u WorkerPc.call?] at hcall
    split_ifs at hcall with huw
    · exact hop op hcall (huw ▸ hu)
    · exact h.ticks u op hu hcall
  · exact h.market u ev hu (hevent u ▸ hev)
  · exact h.held u ev (hevent u ▸ hev)
  · intro id
    rw [hevent]
    exact h.fate id

theorem Told.operate (h : Told cfg ops taken c) {op : CoreOp Double}
    (hcall : c.worker w = .calling op) {pc : WorkerPc} (hpc : pc.event? = c.core.logged op)
    (hnot : pc.call? = none) (hordinary : ∀ op' ∈ ops ++ [op], isOrdinaryOp op' = true)
    (hn : submitCount (ops ++ [op]) < 10 ^ 6) :
    Told cfg (ops ++ [op]) taken
      ({ c with core := (coreMachine Double).next c.core op }.moveTo w pc) := by
  have hcount := submitCount_concat ops op
  have hstep : TradingCore.InStep ops c.core := by
    rw [h.core]
    exact TradingCore.inStep_after cfg ops (by omega)
  have hfresh := hstep.fresh (by omega)
  have hlast : c.core.lastPrice.atMost 511 = true := by
    rw [h.core]
    exact atMost_lastPrice cfg fun op' hop' ↦ hordinary op' (by simp [hop'])
  have hnew : ∀ ev, pc.event? = some ev → ReadableEvent ev ∧ ExactId ev := by
    intro ev hev
    rw [hpc] at hev
    exact
      ⟨readable_logged hfresh hlast (hordinary op (by simp)) ev hev, exactId_logged hstep hn ev hev⟩
  have hcalled : (c.worker w).call? = some op := by rw [hcall]; rfl
  refine ⟨?_, fun u op' hu hcall' ↦ ?_, fun u ev hu hev ↦ ?_, fun u ev hev ↦ ?_, h.logged,
    fun id ↦ ?_⟩
  · rw [TradingCore.after_concat, ← h.core]
    rfl
  · rw [worker_moveTo _ w pc u WorkerPc.call?, hnot] at hcall'
    split_ifs at hcall'
    exact h.ticks u op' hu hcall'
  · rw [worker_moveTo _ w pc u WorkerPc.event?] at hev
    split_ifs at hev with huw
    · subst huw
      exact not_tellsOfOrder_of_isTick (h.ticks u op hu hcalled) (hpc.symm.trans hev)
    · exact h.market u ev hu hev
  · rw [worker_moveTo _ w pc u WorkerPc.event?] at hev
    split_ifs at hev
    · exact hnew ev hev
    · exact h.held u ev hev
  · have hfate := h.fate id
    rw [worker_moveTo _ w pc .api WorkerPc.event?]
    split_ifs with hapi
    · have hnone : (c.worker .api).event? = none := by rw [hapi, hcall]; rfl
      have hnext := TradingCore.auditStep_next hstep (hn.trans (by decide)) id
      rw [hnone, Option.toList_none, List.append_nil] at hfate
      rw [hpc, audit, List.foldl_append]
      rw [← hfate] at hnext
      exact hnext
    · have htick := h.ticks w op (fun heq ↦ hapi heq.symm) hcalled
      exact hfate.trans (congrArg _ (getOrder_of_isTick c.core htick id).symm)

theorem event?_afterCall (w : Worker) : (afterCall w).event? = none := by cases w <;> rfl

theorem call?_afterCall (w : Worker) : (afterCall w).call? = none := by cases w <;> rfl

/-- A worker is rid of its event. -/
theorem Told.settle (h : Told cfg ops taken c) (w : Worker) (log : AsyncJsonlLogger.Memory)
    {taken' : List (LogEvent Double)} (hlogged : ∀ ev ∈ taken', ReadableEvent ev ∧ ExactId ev)
    (hfate : ∀ id, audit id (taken' ++ (if .api = w then none else (c.worker .api).event?).toList) =
      (c.core.getOrder id).map OrderRecord.fate) :
    Told cfg ops taken' ({ c with log := log }.moveTo w (afterCall w)) := by
  have hevent : ∀ u, (({ c with log := log }.moveTo w (afterCall w)).worker u).event? =
      if u = w then none else (c.worker u).event? := fun u ↦ by
    rw [worker_moveTo _ w _ u WorkerPc.event?, event?_afterCall]
  refine ⟨h.core, fun u op hu hcall ↦ ?_, fun u ev hu hev ↦ ?_, fun u ev hev ↦ ?_, hlogged,
    fun id ↦ ?_⟩
  · rw [worker_moveTo _ w _ u WorkerPc.call?, call?_afterCall] at hcall
    split_ifs at hcall
    exact h.ticks u op hu hcall
  · rw [hevent] at hev
    split_ifs at hev
    exact h.market u ev hu hev
  · rw [hevent] at hev
    split_ifs at hev
    exact h.held u ev hev
  · rw [hevent]
    exact hfate id

theorem Told.accept (h : Told cfg ops taken c) {ev : LogEvent Double}
    (hev : (c.worker w).event? = some ev) (log : AsyncJsonlLogger.Memory) :
    Told cfg ops (taken ++ [ev]) ({ c with log := log }.moveTo w (afterCall w)) := by
  refine h.settle w log (fun ev' hev' ↦ ?_) fun id ↦ ?_
  · rcases List.mem_append.mp hev' with hold | hnew
    · exact h.logged ev' hold
    · obtain rfl := List.mem_singleton.mp hnew
      exact h.held w ev' hev
  · rw [← h.fate id]
    split_ifs with hw
    · rw [hw, hev, Option.toList_none, List.append_nil, Option.toList_some]
    · exact audit_insert id taken _ (h.market w ev (fun heq ↦ hw heq.symm) hev)

theorem Told.drop (h : Told cfg ops taken c) (hw : w ≠ .api) (log : AsyncJsonlLogger.Memory) :
    Told cfg ops taken ({ c with log := log }.moveTo w (afterCall w)) := by
  refine h.settle w log h.logged fun id ↦ ?_
  rw [if_neg fun heq ↦ hw heq.symm]
  exact h.fate id

theorem Told.frame (h : Told cfg ops taken c) (hworker : c'.worker = c.worker)
    (hcore : c'.core = c.core) : Told cfg ops taken c' := by
  refine ⟨hcore.trans h.core, ?_, ?_, ?_, h.logged, ?_⟩
  · rw [hworker]
    exact h.ticks
  · rw [hworker]
    exact h.market
  · rw [hworker]
    exact h.held
  · rw [hworker, hcore]
    exact h.fate

/-- One step, of which nothing is lost. -/
theorem told_worker (h : Told cfg ops taken c) {note : Option Note}
    (heffect : WorkerEffect c w c' note) (hlost : note.bind Note.lost? = none)
    (hordinary : ∀ op ∈ ops ++ (note.bind Note.op?).toList, isOrdinaryOp op = true)
    (hn : submitCount (ops ++ (note.bind Note.op?).toList) < 10 ^ 6) :
    Told cfg (ops ++ (note.bind Note.op?).toList)
      (taken ++ (note.bind Note.accepted?).toList) c' := by
  cases heffect with
  | move pc hpc hop =>
      simp only [Option.bind_none, Option.toList_none, List.append_nil]
      exact h.move hpc hop
  | @operate op hcall pc hpc hnot =>
      have htold := h.operate hcall hpc hnot hordinary hn
      simpa [Note.op?, Note.accepted?, Note.return?] using htold
  | @accept ev hev =>
      have htold := h.accept (w := w) (by rw [hev]; rfl) { c.log with queue := c.log.queue ++ [ev] }
      simpa [Note.op?, Note.accepted?, Note.return?, AsyncJsonlLogger.Return.event?] using htold
  | @drop ev hev =>
      have hw : w ≠ .api := by
        rintro rfl
        cases hlost
      have htold := h.drop hw { c.log with dropped := c.log.dropped + 1 }
      simpa [Note.op?, Note.accepted?, Note.return?, AsyncJsonlLogger.Return.event?] using htold

theorem told_next (h : Told cfg ops taken c) (hagrees : MainAgrees c) (e : ProcessEvent)
    (hlost : (processMachine.out c e).bind Note.lost? = none)
    (hordinary :
      ∀ op ∈ ops ++ ((processMachine.out c e).bind Note.op?).toList, isOrdinaryOp op = true)
    (hn : submitCount (ops ++ ((processMachine.out c e).bind Note.op?).toList) < 10 ^ 6) :
    Told cfg (ops ++ ((processMachine.out c e).bind Note.op?).toList)
      (taken ++ ((processMachine.out c e).bind Note.accepted?).toList)
      (processMachine.next c e) := by
  cases e with
  | main =>
      change Told cfg (ops ++ []) (taken ++ []) (c.mainStep.getD c)
      rw [List.append_nil, List.append_nil]
      cases hstep : c.mainStep with
      | none => exact h
      | some c' =>
          have heffect := mainStep_effect hagrees hstep
          exact h.frame heffect.worker heffect.core
  | logger spilled =>
      change Told cfg (ops ++ []) (taken ++ []) ((c.loggerStep spilled).getD c)
      rw [List.append_nil, List.append_nil]
      cases hstep : c.loggerStep spilled with
      | none => exact h
      | some c' =>
          obtain ⟨_, -, rfl⟩ := Option.map_eq_some_iff.mp hstep
          exact h.frame rfl rfl
  | worker w a =>
      change Told cfg (ops ++ (((c.workerStep w a).getD (c, none)).2.bind Note.op?).toList)
        (taken ++ (((c.workerStep w a).getD (c, none)).2.bind Note.accepted?).toList)
        ((c.workerStep w a).getD (c, none)).1
      change (((c.workerStep w a).getD (c, none)).2.bind Note.lost?) = none at hlost
      change ∀ op ∈ ops ++ (((c.workerStep w a).getD (c, none)).2.bind Note.op?).toList,
        isOrdinaryOp op = true at hordinary
      change submitCount (ops ++ (((c.workerStep w a).getD (c, none)).2.bind Note.op?).toList) <
        10 ^ 6 at hn
      cases hstep : c.workerStep w a with
      | none =>
          change Told cfg (ops ++ []) (taken ++ []) c
          rwa [List.append_nil, List.append_nil]
      | some r =>
          rw [hstep] at hlost hordinary hn
          exact told_worker h (workerStep_effect hstep).2 hlost hordinary hn

/-! ## Runs -/

/-- The operations that the threads make on the core, in order. -/
abbrev operations (cfg : RiskConfig Double) (file : Text) (es : List ProcessEvent) :
    List (CoreOp Double) :=
  noted Note.op? cfg file es

/-- The events of orders that the queue has refused. -/
abbrev lost (cfg : RiskConfig Double) (file : Text) (es : List ProcessEvent) :
    List (LogEvent Double) :=
  noted Note.lost? cfg file es

theorem told_run (cfg : RiskConfig Double) (file : Text) (es : List ProcessEvent)
    (hlost : lost cfg file es = [])
    (hordinary : ∀ op ∈ operations cfg file es, isOrdinaryOp op = true)
    (hn : submitCount (operations cfg file es) < 10 ^ 6) :
    Told cfg (operations cfg file es) (accepted cfg file es) (after cfg file es) := by
  induction es using List.reverseRecOn with
  | nil => exact told_start cfg file
  | append_singleton es e ih =>
      rw [lost, noted_concat, List.append_eq_nil_iff, Option.toList_eq_nil_iff] at hlost
      rw [operations, noted_concat] at hordinary hn ⊢
      rw [accepted, noted_concat]
      have hcount : submitCount (operations cfg file es) < 10 ^ 6 := by
        rw [submitCount, List.countP_append] at hn
        exact (Nat.le_add_right _ _).trans_lt hn
      have htold := ih hlost.1 (fun op hop ↦ hordinary op (List.mem_append_left _ hop)) hcount
      have hnext : after cfg file (es ++ [e]) = processMachine.next (after cfg file es) e :=
        processMachine.run_concat _ _ _
      rw [hnext]
      exact told_next htold (sound_run cfg file es).agrees e hlost.2 hordinary hn

/-- An order before the tick, and one at the price of the tick. -/
def firstOrder : CoreOp Double := .submit 3 ⟨"BTCUSDT", .buy, .limit, .finite 1, .finite 99⟩

end Process

end FrogQuant.App
