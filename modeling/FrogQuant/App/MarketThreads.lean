import FrogQuant.App.Shutdown

/-!
# The market threads go on

The WebSocket thread connects again after every error, and the REST thread polls
again after every answer or failure.  Whatever becomes of their calls, neither
ends before its flag has been taken back, and until then each asks for data again
and again.
-/

namespace FrogQuant.App.Process

/-! ## The loop of a market thread -/

/-- The moves of a market thread that finds its flag as `flag`. -/
inductive MarketMove (w : Worker) (flag : Bool) : WorkerPc → WorkerPc → Prop where
  | test : MarketMove w flag .testing
      (if flag then if w = .ws then .connecting else .waiting else .done)
  | connect : MarketMove w flag .connecting .testingInner
  | connectFails : MarketMove w flag .connecting .leaving
  | testInner : MarketMove w flag .testingInner (if flag then .waiting else .leaving)
  | readFails : MarketMove w flag .waiting .leaving
  | skip : MarketMove w flag .waiting .testingInner
  | call (op) : MarketMove w flag .waiting (.calling op)
  | log (op ev) : MarketMove w flag (.calling op) (.logging ev)
  | quiet (op) : MarketMove w flag (.calling op) (afterCall w)
  | callFails (op) : MarketMove w flag (.calling op) .leaving
  | push (ev) : MarketMove w flag (.logging ev) (afterCall w)
  | refuse (ev) : MarketMove w flag (.logging ev) (.refused ev)
  | count (ev) : MarketMove w flag (.refused ev) (afterCall w)
  | again : MarketMove w flag .leaving .testing

variable {c c' : Process} {w : Worker} {pc pc' : WorkerPc}

theorem marketMove_of_step {a : WorkerAction} {note : Option Note} (hw : w ≠ .api)
    (hopen : c.worker w ≠ .opening) (h : c.workerStep w a = some (c', note)) :
    MarketMove w (c.flag w) (c.worker w) (c'.worker w) := by
  unfold workerStep at h
  split at h
  case h_1 hpc => exact absurd hpc hopen
  case h_2 hpc => exact absurd hpc hopen
  case h_3 hpc =>
    cases h
    rw [worker_moveTo_self, hpc]
    exact .test
  case h_4 hpc =>
    cases h
    rw [worker_moveTo_self, hpc]
    exact .connect
  case h_5 hpc =>
    cases h
    rw [worker_moveTo_self, hpc]
    exact .connectFails
  case h_6 hpc =>
    cases h
    rw [worker_moveTo_self, hpc]
    exact .testInner
  case h_7 hpc =>
    cases h
    rw [worker_moveTo_self, hpc]
    exact .readFails
  case h_8 text recvMs nowMs hpc =>
    split_ifs at h
    split at h <;> cases h <;> rw [worker_moveTo_self, hpc]
    · exact .skip
    · exact .call _
  case h_9 symbol body recvMs nowMs hpc =>
    split_ifs at h
    split at h <;> cases h <;> rw [worker_moveTo_self, hpc]
    · exact .readFails
    · exact .call _
  case h_10 op hpc =>
    split_ifs at h with hapi
    exact absurd hapi hw
  case h_11 op hpc =>
    cases h
    rw [worker_moveTo_self, hpc]
    split
    · exact .quiet op
    · exact .log op _
  case h_12 op hpc =>
    split at h <;> cases h
    · rw [worker_moveTo_self, hpc]
      exact .callFails op
    · exact absurd rfl hw
  case h_13 ev hpc =>
    cases h
    rw [worker_moveTo_self, hpc]
    exact .push ev
  case h_14 ev hpc =>
    cases h
    rw [worker_moveTo_self, hpc]
    exact .refuse ev
  case h_15 ev hpc =>
    cases h
    rw [worker_moveTo_self, hpc]
    exact .count ev
  case h_16 hpc =>
    cases h
    rw [worker_moveTo_self, hpc]
    exact .again
  case h_17 hpc =>
    split_ifs at h with hapi
    exact absurd hapi hw
  case h_18 => cases h

/-- A thread ends only where it finds its flag taken back. -/
theorem MarketMove.ends {flag : Bool} (h : MarketMove w flag pc pc') (hw : w ≠ .api) :
    pc' ≠ .opening ∧ (pc'.isDone = true → flag = false) := by
  have hafter : afterCall w ≠ .opening ∧ (afterCall w).isDone = false := by
    cases w <;> exact ⟨by simp [afterCall], rfl⟩
  cases h with
  | test =>
      cases flag with
      | true =>
          rw [if_pos rfl]
          split_ifs <;> exact ⟨by simp, by simp [WorkerPc.isDone]⟩
      | false => exact ⟨by simp, fun _ ↦ rfl⟩
  | testInner => split_ifs <;> exact ⟨by simp, by simp [WorkerPc.isDone]⟩
  | quiet | push | count =>
      refine ⟨hafter.1, fun hdone ↦ ?_⟩
      rw [hafter.2] at hdone
      cases hdone
  | _ => exact ⟨by simp, by simp [WorkerPc.isDone]⟩

/-! ## In the process -/

/-- An event is a move of the thread, or it leaves the thread where it is. -/
theorem market_cases {file : Text} {taken : List (LogEvent Double)} (h : Sound file taken c)
    (hw : w ≠ .api) (hopen : c.worker w ≠ .opening) (e : ProcessEvent) :
    MarketMove w (c.flag w) (c.worker w) ((processMachine.next c e).worker w) ∨
      (processMachine.next c e).worker w = c.worker w ∧ ¬ parties.takes (.worker w) c e := by
  cases e with
  | main =>
      refine Or.inr ⟨?_, fun htakes ↦ by cases htakes.1⟩
      change (c.mainStep.getD c).worker w = c.worker w
      cases hstep : c.mainStep with
      | none => rfl
      | some c' => exact congrFun (mainStep_effect h.agrees hstep).worker w
  | logger spilled =>
      refine Or.inr ⟨?_, fun htakes ↦ by cases htakes.1⟩
      change ((c.loggerStep spilled).getD c).worker w = c.worker w
      cases hstep : c.loggerStep spilled with
      | none => rfl
      | some c' =>
          obtain ⟨r, -, rfl⟩ := Option.map_eq_some_iff.mp hstep
          rfl
  | worker u a =>
      change MarketMove w (c.flag w) (c.worker w) (((c.workerStep u a).getD (c, none)).1.worker w) ∨
        ((c.workerStep u a).getD (c, none)).1.worker w = c.worker w ∧ _
      cases hstep : c.workerStep u a with
      | none =>
          refine Or.inr ⟨rfl, fun htakes ↦ ?_⟩
          have hisStep : (c.workerStep u a).isSome = true := htakes.2
          rw [hstep] at hisStep
          cases hisStep
      | some r =>
          obtain ⟨c', note⟩ := r
          by_cases hu : u = w
          · subst hu
            exact Or.inl (marketMove_of_step hw hopen hstep)
          · obtain ⟨-, hothers, -⟩ := (workerStep_effect hstep).2.keeps
            refine Or.inr ⟨hothers w (Ne.symm hu), fun htakes ↦ hu ?_⟩
            cases htakes.1
            rfl

/-- The thread is in its loop, and ends only for its flag. -/
structure OnDuty (w : Worker) (c : Process) : Prop where
  sound : ∃ file taken, Sound file taken c
  opened : c.worker w ≠ .opening
  ends : (c.worker w).isDone = true → c.flag w = false

/-- A flag that has been taken back stays so. -/
theorem flag_next {file : Text} {taken : List (LogEvent Double)} (h : Sound file taken c)
    (e : ProcessEvent) (hflag : c.flag w = false) : (processMachine.next c e).flag w = false := by
  have hrank := rank_le_next c e
  rw [h.agrees.flags, decide_eq_false_iff_not] at hflag
  rw [(sound_next h e).agrees.flags, decide_eq_false_iff_not]
  omega

theorem OnDuty.next (h : OnDuty w c) (hw : w ≠ .api) (e : ProcessEvent) :
    OnDuty w (processMachine.next c e) := by
  obtain ⟨⟨file, taken, hsound⟩, hopen, hends⟩ := h
  have hsound' : ∃ file taken, Sound file taken (processMachine.next c e) :=
    ⟨file, _, sound_next hsound e⟩
  rcases market_cases hsound hw hopen e with hmove | ⟨hsame, -⟩
  · obtain ⟨hopen', hends'⟩ := hmove.ends hw
    exact ⟨hsound', hopen', fun hdone ↦ flag_next hsound e (hends' hdone)⟩
  · refine ⟨hsound', hsame ▸ hopen, fun hdone ↦ flag_next hsound e (hends ?_)⟩
    rwa [hsame] at hdone

end FrogQuant.App.Process
