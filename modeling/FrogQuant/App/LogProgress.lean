import FrogQuant.App.Shutdown
import Mathlib.Order.Lattice.Nat

/-!
# What the queue has taken reaches the file

The writer takes at most 256 events before it flushes, so that an event is in
the file after finitely many of its steps, however fast the threads log, and
whether or not the service is ever stopped.  After `logger.stop()` the writer
flushes once, behind a queue that nobody fills any more.
-/

namespace FrogQuant

namespace AsyncJsonlLogger

/-! ## How much is still to be written -/

/-- The events that the queue has taken and the worker has not written. -/
def pending (s : Memory) (pc : Pc) : List (LogEvent Double) := pc.hand ++ s.queue

/-- Once `k` more events are written, the stream begins with `target`. -/
def Covers (target : Text) (s : Memory) (pc : Pc) (k : ℕ) : Prop :=
  target <+: s.stream ++ ((pending s pc).take k).flatMap logLine

noncomputable def toWrite (target : Text) (s : Memory) (pc : Pc) : ℕ :=
  sInf {k | Covers target s pc k}

variable {target : Text} {s s' : Memory} {pc pc' : Pc} {spilled k : ℕ}

theorem covers_toWrite (h : ∃ k, Covers target s pc k) :
    Covers target s pc (toWrite target s pc) :=
  Nat.sInf_mem h

theorem toWrite_le (h : Covers target s pc k) : toWrite target s pc ≤ k := Nat.sInf_le h

theorem flatMap_logLine_prefix {xs ys : List (LogEvent Double)} (h : xs <+: ys) :
    xs.flatMap logLine <+: ys.flatMap logLine := by
  obtain ⟨zs, rfl⟩ := h
  rw [List.flatMap_append]
  exact List.prefix_append _ _

/-- A step of the worker writes the event that it holds, if it holds one. -/
theorem runStep_pending (h : runStep spilled s pc = some (s', pc')) :
    s'.stream = s.stream ++ pc.hand.flatMap logLine ∧
      pending s pc = pc.hand ++ pending s' pc' := by
  cases pc with
  | testing =>
      cases h
      constructor
      · simp [Pc.hand]
      · split_ifs <;> rfl
  | popping processed =>
      simp only [runStep] at h
      split_ifs at h
      · cases hqueue : s.queue <;> rw [hqueue] at h <;> cases h <;>
          simp [pending, Pc.hand, hqueue, Memory.stream]
      · cases h
        simp [pending, Pc.hand]
  | writing processed ev =>
      cases h
      exact ⟨by simp [Pc.hand], rfl⟩
  | resting processed =>
      cases h
      split_ifs <;> simp [pending, Pc.hand, Memory.flush, Memory.stream]
  | draining =>
      simp only [runStep] at h
      cases hqueue : s.queue <;> rw [hqueue] at h <;> cases h <;>
        simp [pending, Pc.hand, hqueue, Memory.stream]
  | drainWriting ev =>
      cases h
      exact ⟨by simp [Pc.hand], rfl⟩
  | opening | flushing =>
      cases h
      simp [pending, Pc.hand, Memory.flush, Memory.stream]
  | _ => cases h

theorem Covers.run (h : Covers target s pc k) (hstep : runStep spilled s pc = some (s', pc')) :
    Covers target s' pc' (k - pc.hand.length) := by
  obtain ⟨hstream, hpending⟩ := runStep_pending hstep
  rw [Covers, hpending, List.take_append, List.flatMap_append] at h
  rw [Covers, hstream, List.append_assoc]
  refine h.trans ((List.prefix_append_right_inj _).mpr ?_)
  rcases le_total pc.hand.length k with hle | hle
  · rw [List.take_of_length_le hle]
  · rw [Nat.sub_eq_zero_of_le hle, List.take_zero, List.flatMap_nil, List.append_nil,
      List.append_nil]
    exact flatMap_logLine_prefix (List.take_prefix _ _)

theorem Covers.push (h : Covers target s pc k) (hstream : s'.stream = s.stream)
    {more : List (LogEvent Double)} (hqueue : s'.queue = s.queue ++ more) :
    Covers target s' pc k := by
  have hpending : pending s' pc = pending s pc ++ more := by
    rw [pending, pending, hqueue, List.append_assoc]
  rw [Covers, hstream, hpending, List.take_append, List.flatMap_append, ← List.append_assoc]
  exact h.trans (List.prefix_append _ _)

/-! ## How far the worker is from its next write, and from its next flush -/

/-- Nothing has been written since the last flush. -/
def Pc.fresh : Pc → Bool
  | .opening | .testing | .popping 0 | .writing 0 _ | .resting 0 => true
  | _ => false

theorem buffer_eq_nil_of_fresh (h : pc.fresh = true → s.buffer = [])
    (hstep : runStep spilled s pc = some (s', pc')) (hfresh : pc'.fresh = true) :
    s'.buffer = [] := by
  cases pc with
  | opening =>
      cases hstep
      exact h rfl
  | testing =>
      cases hstep
      exact h rfl
  | popping processed =>
      simp only [runStep] at hstep
      have hzero : processed = 0 := by
        cases processed with
        | zero => rfl
        | succ p =>
            split_ifs at hstep
            · cases hqueue : s.queue <;> rw [hqueue] at hstep <;> cases hstep <;> cases hfresh
            · cases hstep
              cases hfresh
      subst hzero
      have hbuffer := h rfl
      rw [if_pos (by decide)] at hstep
      cases hqueue : s.queue <;> rw [hqueue] at hstep <;> cases hstep <;> exact hbuffer
  | writing processed ev =>
      cases hstep
      cases hfresh
  | resting processed =>
      cases hstep
      split_ifs with hzero
      · subst hzero
        exact h rfl
      · rfl
  | draining =>
      simp only [runStep] at hstep
      cases hqueue : s.queue <;> rw [hqueue] at hstep <;> cases hstep <;> cases hfresh
  | drainWriting | flushing =>
      cases hstep
      cases hfresh
  | _ => cases hstep

/-- A bound on the steps up to the next write, for a queue that is not empty. -/
def writeLeft : Pc → ℕ
  | .popping processed => if processed < 256 then 2 else 5
  | .opening | .resting _ => 4
  | .testing => 3
  | .draining => 2
  | _ => 1

/-- A bound on the steps up to the next flush. -/
def flushLeft (queue : List (LogEvent Double)) : Pc → ℕ
  | .popping processed => if processed < 256 then 2 * (256 - processed) + 2 else 2
  | .writing processed _ => 2 * (255 - processed) + 3
  | .drainWriting _ => 2 * queue.length + 3
  | .draining => 2 * queue.length + 2
  | .resting _ | .flushing => 1
  | _ => 0

theorem writeLeft_lt (hhand : pc.hand = []) (hqueue : s.queue ≠ [])
    (hdrained : pc.drained = true → s.queue = [])
    (hstep : runStep spilled s pc = some (s', pc')) : writeLeft pc' < writeLeft pc := by
  cases pc with
  | opening =>
      cases hstep
      decide
  | testing =>
      cases hstep
      split_ifs <;> decide
  | popping processed =>
      simp only [runStep] at hstep
      split_ifs at hstep with hbatch
      · obtain ⟨ev, queue, hcons⟩ := List.exists_cons_of_ne_nil hqueue
        rw [hcons] at hstep
        cases hstep
        simp [writeLeft, hbatch]
      · cases hstep
        simp [writeLeft, hbatch]
  | resting processed =>
      cases hstep
      exact Nat.lt_succ_self 3
  | draining =>
      obtain ⟨ev, queue, hcons⟩ := List.exists_cons_of_ne_nil hqueue
      simp only [runStep, hcons] at hstep
      cases hstep
      exact Nat.lt_succ_self 1
  | flushing => exact absurd (hdrained rfl) hqueue
  | writing | drainWriting => cases hhand
  | _ => cases hstep

theorem flushLeft_lt (hfresh : pc.fresh = false) (hstep : runStep spilled s pc = some (s', pc')) :
    flushLeft s'.queue pc' < flushLeft s.queue pc := by
  cases pc with
  | opening | testing => cases hfresh
  | popping processed =>
      simp only [runStep] at hstep
      split_ifs at hstep with hbatch
      · cases hqueue : s.queue <;> rw [hqueue] at hstep <;> cases hstep <;>
          simp only [flushLeft, hbatch, if_true] <;> omega
      · cases hstep
        simp [flushLeft, hbatch]
  | writing processed ev =>
      cases hstep
      simp only [flushLeft]
      split_ifs <;> omega
  | resting processed =>
      cases hstep
      exact Nat.zero_lt_one
  | draining =>
      simp only [runStep] at hstep
      cases hqueue : s.queue <;> rw [hqueue] at hstep <;> cases hstep
      · simp [flushLeft]
      · simp only [flushLeft, List.length_cons]
        omega
  | drainWriting ev =>
      cases hstep
      simp [flushLeft, Memory.write]
  | flushing =>
      cases hstep
      exact Nat.zero_lt_one
  | _ => cases hstep

/-- How many events are to be written before `target` is, and how many steps the
worker is from the next write, or from the next flush. -/
noncomputable def durableIn (target : Text) (s : Memory) (pc : Pc) : ℕ ×ₗ ℕ :=
  toLex (toWrite target s pc,
    if toWrite target s pc = 0 then flushLeft s.queue pc else writeLeft pc)

theorem durableIn_lt (hcovers : ∃ k, Covers target s pc k)
    (hbuffer : pc.fresh = true → s.buffer = []) (hdrained : pc.drained = true → s.queue = [])
    (hnot : ¬ target <+: s.file) (hstep : runStep spilled s pc = some (s', pc')) :
    durableIn target s' pc' < durableIn target s pc := by
  have hcov := covers_toWrite hcovers
  have hle := toWrite_le (hcov.run hstep)
  rw [durableIn, durableIn, Prod.Lex.toLex_lt_toLex]
  rcases (hle.trans (Nat.sub_le _ _)).lt_or_eq with hlt | heq
  · exact Or.inl hlt
  refine Or.inr ⟨heq, ?_⟩
  simp only [heq]
  split_ifs with hzero
  · refine flushLeft_lt (Bool.eq_false_iff.mpr fun hfresh ↦ hnot ?_) hstep
    rw [hzero, Covers, List.take_zero, List.flatMap_nil, List.append_nil, Memory.stream,
      hbuffer hfresh, List.append_nil] at hcov
    exact hcov
  · have hhand : pc.hand = [] := by
      rw [← List.length_eq_zero_iff]
      omega
    refine writeLeft_lt hhand (fun hqueue ↦ hzero ?_) hdrained hstep
    have hpending : pending s pc = [] := by rw [pending, hhand, hqueue]; rfl
    refine Nat.le_zero.mp (toWrite_le ?_)
    rw [Covers, hpending, List.take_nil] at hcov
    rwa [Covers, List.take_zero]

/-- The file only grows. -/
theorem file_prefix_runStep (hstep : runStep spilled s pc = some (s', pc')) :
    s.file <+: s'.file := by
  cases pc with
  | popping processed =>
      simp only [runStep] at hstep
      split_ifs at hstep
      · cases hqueue : s.queue <;> rw [hqueue] at hstep <;> cases hstep <;> exact List.prefix_refl _
      · cases hstep
        exact List.prefix_refl _
  | resting processed =>
      cases hstep
      split_ifs
      · exact List.prefix_refl _
      · exact List.prefix_append _ _
  | draining =>
      simp only [runStep] at hstep
      cases hqueue : s.queue <;> rw [hqueue] at hstep <;> cases hstep <;> exact List.prefix_refl _
  | writing | drainWriting | flushing =>
      cases hstep
      exact List.prefix_append _ _
  | opening | testing =>
      cases hstep
      exact List.prefix_refl _
  | _ => cases hstep

end AsyncJsonlLogger

namespace App.Process

open AsyncJsonlLogger (Covers covers_toWrite toWrite_le durableIn durableIn_lt toWrite pending)

variable {file target : Text} {taken : List (LogEvent Double)} {c c' : Process}

/-! ## The other threads -/

/-- The writer stands where it stood, and may have more to write. -/
structure LeavesWriter (c c' : Process) : Prop where
  logger : c'.logger = c.logger
  file : c'.log.file = c.log.file
  buffer : c'.log.buffer = c.log.buffer
  queue : ∃ more, c'.log.queue = c.log.queue ++ more ∧ (c.logger.leftLoop = true → more = [])

theorem LeavesWriter.of_log (hlogger : c'.logger = c.logger)
    (hlog : c'.log = { c.log with running := c'.log.running, dropped := c'.log.dropped }) :
    LeavesWriter c c' where
  logger := hlogger
  file := by rw [hlog]
  buffer := by rw [hlog]
  queue := ⟨[], by rw [hlog, List.append_nil], fun _ ↦ rfl⟩

theorem WorkerEffect.leavesWriter (h : Sound file taken c) {w : Worker}
    (hw : (c.worker w).isDone = false) {note : Option Note} (heffect : WorkerEffect c w c' note) :
    LeavesWriter c c' := by
  cases heffect with
  | move pc => exact .of_log rfl rfl
  | operate _ pc => exact .of_log rfl rfl
  | drop _ => exact .of_log rfl rfl
  | @accept ev _ =>
      refine ⟨rfl, rfl, rfl, [ev], rfl, fun hleft ↦ ?_⟩
      -- a worker that is not done finds the log open
      rw [h.loop_open hw] at hleft
      cases hleft

/-- An event is a step of the writer, or it leaves the writer alone. -/
theorem writer_cases (h : Sound file taken c) (e : ProcessEvent) :
    (∃ spilled, c.loggerStep spilled = some (processMachine.next c e)) ∨
      LeavesWriter c (processMachine.next c e) ∧ ¬ parties.takes .logger c e := by
  cases e with
  | main =>
      refine Or.inr ⟨?_, fun htakes ↦ by cases htakes.1⟩
      change LeavesWriter c (c.mainStep.getD c)
      cases hstep : c.mainStep with
      | none => exact .of_log rfl rfl
      | some c' =>
          obtain ⟨-, hlogger, hlog⟩ := mainStep_spec hstep
          refine .of_log hlogger ?_
          rw [Option.getD_some, hlog]
  | worker w a =>
      refine Or.inr ⟨?_, fun htakes ↦ by cases htakes.1⟩
      change LeavesWriter c ((c.workerStep w a).getD (c, none)).1
      cases hstep : c.workerStep w a with
      | none => exact .of_log rfl rfl
      | some r =>
          obtain ⟨hw, heffect⟩ := workerStep_effect hstep
          exact heffect.leavesWriter h hw
  | logger spilled =>
      change (∃ spilled', c.loggerStep spilled' = some ((c.loggerStep spilled).getD c)) ∨
        LeavesWriter c ((c.loggerStep spilled).getD c) ∧ _
      cases hstep : c.loggerStep spilled with
      | none =>
          refine Or.inr ⟨.of_log rfl rfl, fun htakes ↦ ?_⟩
          have hisStep : (c.loggerStep spilled).isSome = true := htakes.2
          rw [hstep] at hisStep
          cases hisStep
      | some c' => exact Or.inl ⟨spilled, hstep⟩

theorem LeavesWriter.flushLeft_eq (h : LeavesWriter c c') :
    AsyncJsonlLogger.flushLeft c'.log.queue c.logger =
      AsyncJsonlLogger.flushLeft c.log.queue c.logger := by
  obtain ⟨more, hqueue, hleft⟩ := h.queue
  cases hpc : c.logger with
  | draining | drainWriting =>
      rw [hpc] at hleft
      rw [hqueue, hleft rfl, List.append_nil]
  | _ => rfl

theorem LeavesWriter.covers (h : LeavesWriter c c') {k : ℕ} (hk : Covers target c.log c.logger k) :
    Covers target c'.log c'.logger k := by
  obtain ⟨more, hqueue, -⟩ := h.queue
  rw [h.logger]
  refine hk.push ?_ hqueue
  rw [AsyncJsonlLogger.Memory.stream, AsyncJsonlLogger.Memory.stream, h.file, h.buffer]

theorem LeavesWriter.durableIn_le (h : LeavesWriter c c')
    (hcovers : ∃ k, Covers target c.log c.logger k) :
    durableIn target c'.log c'.logger < durableIn target c.log c.logger ∨
      durableIn target c'.log c'.logger = durableIn target c.log c.logger := by
  have hle := toWrite_le (h.covers (covers_toWrite hcovers))
  rcases hle.lt_or_eq with hlt | heq
  · left
    rw [durableIn, durableIn, Prod.Lex.toLex_lt_toLex]
    exact Or.inl hlt
  · right
    rw [durableIn, durableIn, heq, h.logger, h.flushLeft_eq]

/-! ## Until `target` is in the file -/

/-- `target` has been taken, and is in the file, the stream or the queue. -/
structure Logging (target : Text) (c : Process) : Prop where
  sound : ∃ file taken, Sound file taken c
  writer : WriterAlive c
  fresh : c.logger.fresh = true → c.log.buffer = []
  covers : ∃ k, Covers target c.log c.logger k

theorem Logging.next (h : Logging target c) (e : ProcessEvent) :
    Logging target (processMachine.next c e) := by
  obtain ⟨⟨file, taken, hsound⟩, hwriter, hfresh, k, hk⟩ := h
  have hsound' : ∃ file taken, Sound file taken (processMachine.next c e) :=
    ⟨file, _, sound_next hsound e⟩
  rcases writer_cases hsound e with ⟨spilled, hstep⟩ | ⟨hleaves, -⟩
  · obtain ⟨⟨log, pc⟩, hrun, hc'⟩ := Option.map_eq_some_iff.mp hstep
    refine ⟨hsound', hwriter.next e, ?_, k - c.logger.hand.length, ?_⟩
    · rw [← hc']
      exact AsyncJsonlLogger.buffer_eq_nil_of_fresh hfresh hrun
    · rw [← hc']
      exact hk.run hrun
  · refine ⟨hsound', hwriter.next e, ?_, k, hleaves.covers hk⟩
    rw [hleaves.logger, hleaves.buffer]
    exact hfresh

theorem Logging.ready (h : Logging target c) (hnot : ¬ target <+: c.log.file) :
    (parties.only .logger).enabled () c := by
  obtain ⟨⟨file, taken, hsound⟩, hwriter, -, k, hk⟩ := h
  have hpc : c.logger ≠ .finished := by
    intro hfinished
    have hqueue := hsound.drained (by rw [hfinished]; rfl)
    have hbuffer := hsound.log.flushed hfinished
    have hpending : pending c.log c.logger = [] := by
      rw [pending, hqueue, hfinished]
      rfl
    refine hnot ?_
    rwa [Covers, hpending, List.take_nil, List.flatMap_nil, List.append_nil,
      AsyncJsonlLogger.Memory.stream, hbuffer, List.append_nil] at hk
  change (Option.map _ (AsyncJsonlLogger.runStep 0 c.log c.logger)).isSome = true
  rw [Option.isSome_map]
  exact isSome_runStep hwriter.inRun hpc

theorem durable_approach (target : Text) :
    processMachine.Approach (parties.only .logger) (Logging target) (fun c ↦ target <+: c.log.file)
      (fun c ↦ durableIn target c.log c.logger) (fun _ ↦ ()) where
  keep _ e h := h.next e
  ready _ h hnot := h.ready hnot
  step c e h hnot := by
    obtain ⟨file, taken, hsound⟩ := h.sound
    rcases writer_cases hsound e with ⟨spilled, hstep⟩ | ⟨hleaves, htakes⟩
    · obtain ⟨⟨log, pc⟩, hrun, hc'⟩ := Option.map_eq_some_iff.mp hstep
      left
      rw [← hc']
      exact durableIn_lt h.covers h.fresh hsound.drained hnot hrun
    · rcases hleaves.durableIn_le h.covers with hlt | heq
      · exact Or.inl hlt
      · exact Or.inr ⟨heq, rfl, htakes⟩

/-! ## Runs -/

theorem fresh_run (cfg : RiskConfig Double) (file : Text) (es : List ProcessEvent) :
    Logging [] (after cfg file es) := by
  refine processMachine.run_invariant (fun _ e h ↦ h.next e) ?_ es
  exact ⟨⟨file, [], sound_start cfg file⟩, ⟨rfl, nofun⟩, fun _ ↦ rfl, 0, List.nil_prefix⟩

theorem logging_run (cfg : RiskConfig Double) (file : Text) (es : List ProcessEvent) :
    Logging (file ++ (accepted cfg file es).flatMap logLine) (after cfg file es) := by
  have hsound := sound_run cfg file es
  obtain ⟨-, hwriter, hfresh, -⟩ := fresh_run cfg file es
  refine ⟨⟨file, _, hsound⟩, hwriter, hfresh,
    (pending (after cfg file es).log (after cfg file es).logger).length, ?_⟩
  obtain ⟨written, hstream, htaken, -⟩ := hsound.log.delivered
  rw [Covers, List.take_length, hstream, htaken, pending, List.append_assoc written,
    List.flatMap_append, List.append_assoc file]

theorem file_prefix_next (h : Sound file taken c) (e : ProcessEvent) :
    c.log.file <+: (processMachine.next c e).log.file := by
  rcases writer_cases h e with ⟨spilled, hstep⟩ | ⟨hleaves, -⟩
  · obtain ⟨⟨log, pc⟩, hrun, hc'⟩ := Option.map_eq_some_iff.mp hstep
    rw [← hc']
    exact AsyncJsonlLogger.file_prefix_runStep hrun
  · rw [hleaves.file]

/-- Whatever the queue has taken up to some moment of any interleaving is at last
in the file, and stays there, in every endless run in which the writer takes a
step again and again: however many more events are logged, and whether or not
`main` ever stops the service. -/
theorem taken_events_reach_file (cfg : RiskConfig Double) (file : Text) (es : List ProcessEvent)
    (events : ℕ → ProcessEvent)
    (hfair : processMachine.Fair (parties.only .logger) (after cfg file es) events) :
    ∃ n, ∀ m, n ≤ m → file ++ (accepted cfg file es).flatMap logLine <+:
      (after cfg file (es ++ (List.range m).map events)).log.file := by
  obtain ⟨n, hn⟩ := (durable_approach _).reaches (logging_run cfg file es) hfair
  refine ⟨n, fun m hm ↦ ?_⟩
  rw [after, Machine.run_append, ← Machine.states_eq_run]
  induction m, hm using Nat.le_induction with
  | base => exact hn
  | succ m hm ih =>
      have hsound := sound_run cfg file (es ++ (List.range m).map events)
      rw [after, Machine.run_append, ← Machine.states_eq_run] at hsound
      exact ih.trans (file_prefix_next hsound (events m))

/-- The writer takes every step there is. -/
theorem fair_writer (c : Process) :
    processMachine.Fair (parties.only .logger) c fun _ ↦ .logger 0 := by
  intro t n
  refine ⟨n, le_refl n, ?_⟩
  by_cases henabled : parties.enabled .logger (processMachine.states c (fun _ ↦ .logger 0) n)
  · exact Or.inr ⟨rfl, henabled⟩
  · exact Or.inl henabled

/-- A tick has been logged, and the service runs on. -/
def tickLogged : List ProcessEvent := firstTick.append [.worker .ws (.push true)]

theorem taken_events_reach_file_tickLogged :
    ∃ n, ∀ m, n ≤ m → [] ++ (accepted .default [] tickLogged).flatMap logLine <+:
      (after .default [] (tickLogged ++ (List.range m).map fun _ ↦ .logger 0)).log.file :=
  taken_events_reach_file .default [] tickLogged (fun _ ↦ .logger 0) (fair_writer _)

end App.Process

end FrogQuant
