import FrogQuant.App.Process
import FrogQuant.Lib.Fairness
import Mathlib.Data.Prod.Lex

/-!
# The shutdown comes to its end

Once `main` has left `run_until_stop`, it takes the flags back one after another
and waits for one thread at a time.  A thread that finds its flag taken back has
few steps left, and the writer of the log two for each event in the queue; so
`main` returns, as long as every thread gets its turn and no call blocks for
ever.
-/

namespace FrogQuant.App.Process

/-- All that take steps. -/
inductive Party where
  | main
  | worker (w : Worker)
  | logger

def party : ProcessEvent → Party
  | .main => .main
  | .worker w _ => .worker w
  | .logger _ => .logger

/-- The event is a step, and not refused. -/
def isStep (c : Process) : ProcessEvent → Bool
  | .main => c.mainStep.isSome
  | .worker w a => (c.workerStep w a).isSome
  | .logger spilled => (c.loggerStep spilled).isSome

/-- A worker that is not done can take a step: what it waits for (a connection,
a message, a response, a request, or that they fail) comes. -/
def parties : Machine.Parties Party Process ProcessEvent where
  enabled
    | .main, c => c.mainStep.isSome = true
    | .worker w, c => (c.worker w).isDone = false
    | .logger, c => (c.loggerStep 0).isSome = true
  takes p c e := party e = p ∧ c.isStep e = true

/-! ## How many steps a thread has left -/

/-- A bound on the steps of a worker whose flag has been taken back. -/
@[simp] def stepsLeft : WorkerPc → ℕ
  | .waiting => 7
  | .calling _ => 6
  | .logging _ => 5
  | .refused _ => 4
  | .connecting => 4
  | .testingInner => 3
  | .leaving => 2
  | .opening => 2
  | .testing => 1
  | .done => 0

theorem stepsLeft_eq_zero {pc : WorkerPc} : stepsLeft pc = 0 ↔ pc.isDone = true := by
  cases pc <;> simp [WorkerPc.isDone]

/-- A bound on the steps of the writer once no event is put into the queue and
the logger has been stopped. -/
def writerLeft (queue : List (LogEvent Double)) : AsyncJsonlLogger.Pc → ℕ
  | .writing _ _ => 2 * queue.length + 6
  | .popping _ => 2 * queue.length + 5
  | .resting _ => 2 * queue.length + 4
  | .opening => 2 * queue.length + 4
  | .testing => 2 * queue.length + 3
  | .drainWriting _ => 2 * queue.length + 3
  | .draining => 2 * queue.length + 2
  | .flushing => 1
  | .finished => 0
  | _ => 1

variable {c c' : Process} {w : Worker}

@[simp] theorem worker_moveTo_self (pc : WorkerPc) : (c.moveTo w pc).worker w = pc :=
  Function.update_self ..

theorem stepsLeft_afterCall : stepsLeft (afterCall w) ≤ 3 := by cases w <;> decide

/-- Each step of a worker whose flag has been taken back is one step less. -/
theorem stepsLeft_lt {a : WorkerAction} {note : Option Note} (hflag : c.flag w = false)
    (h : c.workerStep w a = some (c', note)) :
    stepsLeft (c'.worker w) < stepsLeft (c.worker w) := by
  have hafter := stepsLeft_afterCall (w := w)
  unfold workerStep at h
  split at h
  case h_3 hpc =>
    cases h
    simp [hpc, hflag]
  case h_6 hpc =>
    cases h
    rw [worker_moveTo_self, hpc, hflag]
    decide
  case h_8 text recvMs nowMs hpc =>
    split_ifs at h
    split at h <;> cases h <;> rw [worker_moveTo_self, hpc]
    · decide
    · exact Nat.lt_succ_self 6
  case h_9 symbol body recvMs nowMs hpc =>
    split_ifs at h
    split at h <;> cases h <;> rw [worker_moveTo_self, hpc]
    · decide
    · exact Nat.lt_succ_self 6
  case h_10 op hpc =>
    split_ifs at h
    split at h <;> cases h <;> rw [worker_moveTo_self, hpc]
    · decide
    · exact Nat.lt_succ_self 6
  case h_11 op hpc =>
    cases h
    rw [worker_moveTo_self, hpc]
    split
    · exact hafter.trans_lt (by simp)
    · exact Nat.lt_succ_self 5
  case h_12 op hpc =>
    split at h <;> cases h <;> simp [hpc]
  case h_13 ev hpc =>
    cases h
    rw [worker_moveTo_self, hpc]
    exact hafter.trans_lt (by simp)
  case h_14 ev hpc =>
    cases h
    rw [worker_moveTo_self, hpc]
    exact Nat.lt_succ_self 4
  case h_15 ev hpc =>
    cases h
    rw [worker_moveTo_self, hpc]
    exact hafter.trans_lt (by simp)
  case h_17 hpc =>
    split_ifs at h
    cases h
    rw [worker_moveTo_self, hpc]
    decide
  case h_18 => cases h
  all_goals
    rename_i hpc
    cases h
    rw [worker_moveTo_self, hpc]
    decide

/-- Each step of a writer that has been stopped is one step less. -/
theorem writerLeft_lt {spilled : ℕ} {s s' : AsyncJsonlLogger.Memory} {pc pc' : AsyncJsonlLogger.Pc}
    (hstopped : s.running = false) (h : AsyncJsonlLogger.runStep spilled s pc = some (s', pc')) :
    writerLeft s'.queue pc' < writerLeft s.queue pc := by
  cases pc with
  | opening =>
      cases h
      simp [writerLeft]
  | testing =>
      cases h
      simp [writerLeft, hstopped]
  | popping processed =>
      simp only [AsyncJsonlLogger.runStep] at h
      split_ifs at h
      · cases hqueue : s.queue with
        | nil =>
            rw [hqueue] at h
            cases h
            simp [writerLeft, hqueue]
        | cons ev queue =>
            rw [hqueue] at h
            cases h
            simp only [writerLeft, List.length_cons]
            omega
      · cases h
        simp [writerLeft]
  | writing processed ev =>
      cases h
      simp [writerLeft, AsyncJsonlLogger.Memory.write]
  | resting processed =>
      cases h
      split_ifs <;> simp [writerLeft, AsyncJsonlLogger.Memory.flush]
  | draining =>
      simp only [AsyncJsonlLogger.runStep] at h
      cases hqueue : s.queue with
      | nil =>
          rw [hqueue] at h
          cases h
          simp [writerLeft]
      | cons ev queue =>
          rw [hqueue] at h
          cases h
          simp only [writerLeft, List.length_cons]
          omega
  | drainWriting ev =>
      cases h
      simp [writerLeft, AsyncJsonlLogger.Memory.write]
  | flushing =>
      cases h
      simp [writerLeft]
  | _ => cases h

/-! ## The writer goes on until it is done -/

/-- A position in the loop of the writer. -/
def inRun : AsyncJsonlLogger.Pc → Bool
  | .idle | .refused _ | .stopping | .joining => false
  | _ => true

structure WriterAlive (c : Process) : Prop where
  inRun : inRun c.logger = true
  done : c.logger = .finished → c.log.workerDone = true

theorem writerLeft_eq_zero {queue : List (LogEvent Double)} {pc : AsyncJsonlLogger.Pc}
    (hrun : inRun pc = true) (h : writerLeft queue pc = 0) : pc = .finished := by
  cases pc with
  | finished => rfl
  | idle | refused | stopping | joining => cases hrun
  | _ => simp [writerLeft] at h

theorem isSome_runStep {s : AsyncJsonlLogger.Memory} {pc : AsyncJsonlLogger.Pc}
    (h : inRun pc = true) (hpc : pc ≠ .finished) :
    (AsyncJsonlLogger.runStep 0 s pc).isSome = true := by
  cases pc with
  | popping processed =>
      simp only [AsyncJsonlLogger.runStep]
      split_ifs
      · cases s.queue <;> rfl
      · rfl
  | draining =>
      simp only [AsyncJsonlLogger.runStep]
      cases s.queue <;> rfl
  | finished => exact absurd rfl hpc
  | idle | refused | stopping | joining => cases h
  | _ => rfl

theorem runStep_inRun {spilled : ℕ} {s s' : AsyncJsonlLogger.Memory}
    {pc pc' : AsyncJsonlLogger.Pc} (h : AsyncJsonlLogger.runStep spilled s pc = some (s', pc')) :
    inRun pc' = true ∧ (pc' = .finished → s'.workerDone = true) := by
  cases pc with
  | testing =>
      cases h
      split_ifs <;> exact ⟨rfl, by simp⟩
  | popping processed =>
      simp only [AsyncJsonlLogger.runStep] at h
      split_ifs at h
      · cases hqueue : s.queue <;> rw [hqueue] at h <;> cases h <;> exact ⟨rfl, by simp⟩
      · cases h
        exact ⟨rfl, by simp⟩
  | draining =>
      simp only [AsyncJsonlLogger.runStep] at h
      cases hqueue : s.queue <;> rw [hqueue] at h <;> cases h <;> exact ⟨rfl, by simp⟩
  | flushing =>
      cases h
      exact ⟨rfl, fun _ ↦ rfl⟩
  | opening | writing | resting | drainWriting =>
      cases h
      exact ⟨rfl, by simp⟩
  | _ => cases h

/-! ## What a step does to the distance -/

/-- What a step of a party does, as far as `main` waits for it. -/
inductive Moves (c c' : Process) : Party → Prop where
  | main (hrank : c.main.rank < c'.main.rank) : Moves c c' .main
  | worker {w : Worker} (hbusy : (c.worker w).isDone = false) (hmain : c'.main = c.main)
      (hothers : ∀ u, u ≠ w → c'.worker u = c.worker u)
      (hless : c.flag w = false → stepsLeft (c'.worker w) < stepsLeft (c.worker w)) :
      Moves c c' (.worker w)
  | logger (hmain : c'.main = c.main) (hworkers : c'.worker = c.worker)
      (hless : c.log.running = false →
        writerLeft c'.log.queue c'.logger < writerLeft c.log.queue c.logger) :
      Moves c c' .logger

theorem mainStep_spec (h : c.mainStep = some c') :
    c.main.rank < c'.main.rank ∧ c'.logger = c.logger ∧
      c'.log = { c.log with running := c'.log.running } := by
  unfold mainStep at h
  cases hmain : c.main <;> rw [hmain] at h
  case running =>
    cases h
    exact ⟨Nat.zero_lt_one, rfl, rfl⟩
  case returned => cases h
  all_goals
    simp only at h
    split_ifs at h <;> cases h <;> exact ⟨by simp [MainPc.rank], rfl, rfl⟩

theorem WorkerEffect.keeps {note : Option Note} (h : WorkerEffect c w c' note) :
    c'.main = c.main ∧ (∀ u, u ≠ w → c'.worker u = c.worker u) ∧ c'.logger = c.logger ∧
      c'.log.workerDone = c.log.workerDone := by
  cases h with
  | move pc => exact ⟨rfl, fun u hu ↦ Function.update_of_ne hu .., rfl, rfl⟩
  | operate _ pc => exact ⟨rfl, fun u hu ↦ Function.update_of_ne hu .., rfl, rfl⟩
  | accept _ => exact ⟨rfl, fun u hu ↦ Function.update_of_ne hu .., rfl, rfl⟩
  | drop _ => exact ⟨rfl, fun u hu ↦ Function.update_of_ne hu .., rfl, rfl⟩

/-- A refused event changes nothing, and a step is one of its party. -/
theorem moves_next (c : Process) (e : ProcessEvent) :
    (c.isStep e = false ∧ processMachine.next c e = c) ∨
      Moves c (processMachine.next c e) (party e) := by
  cases e with
  | main =>
      change (c.mainStep.isSome = false ∧ c.mainStep.getD c = c) ∨ Moves c (c.mainStep.getD c) .main
      cases hstep : c.mainStep with
      | none => exact Or.inl ⟨rfl, rfl⟩
      | some c' => exact Or.inr (.main (mainStep_spec hstep).1)
  | worker w a =>
      change ((c.workerStep w a).isSome = false ∧ ((c.workerStep w a).getD (c, none)).1 = c) ∨
        Moves c ((c.workerStep w a).getD (c, none)).1 (.worker w)
      cases hstep : c.workerStep w a with
      | none => exact Or.inl ⟨rfl, rfl⟩
      | some r =>
          obtain ⟨c', note⟩ := r
          obtain ⟨hbusy, heffect⟩ := workerStep_effect hstep
          obtain ⟨hmain, hothers, -, -⟩ := heffect.keeps
          exact Or.inr (.worker hbusy hmain hothers fun hflag ↦ stepsLeft_lt hflag hstep)
  | logger spilled =>
      change ((c.loggerStep spilled).isSome = false ∧ (c.loggerStep spilled).getD c = c) ∨
        Moves c ((c.loggerStep spilled).getD c) .logger
      cases hstep : c.loggerStep spilled with
      | none => exact Or.inl ⟨rfl, rfl⟩
      | some c' =>
          obtain ⟨⟨log, pc⟩, hrun, rfl⟩ := Option.map_eq_some_iff.mp hstep
          exact Or.inr (.logger rfl rfl fun hstopped ↦ writerLeft_lt hstopped hrun)

theorem WriterAlive.of_eq (h : WriterAlive c) (hlogger : c'.logger = c.logger)
    (hdone : c'.log.workerDone = c.log.workerDone) : WriterAlive c' :=
  ⟨hlogger ▸ h.inRun, fun hpc ↦ hdone.trans (h.done (hlogger ▸ hpc))⟩

theorem WriterAlive.next (h : WriterAlive c) (e : ProcessEvent) :
    WriterAlive (processMachine.next c e) := by
  cases e with
  | main =>
      change WriterAlive (c.mainStep.getD c)
      cases hstep : c.mainStep with
      | none => exact h
      | some c' =>
          obtain ⟨-, hlogger, hlog⟩ := mainStep_spec hstep
          refine h.of_eq hlogger ?_
          rw [Option.getD_some, hlog]
  | worker w a =>
      change WriterAlive ((c.workerStep w a).getD (c, none)).1
      cases hstep : c.workerStep w a with
      | none => exact h
      | some r =>
          obtain ⟨c', note⟩ := r
          obtain ⟨-, -, hlogger, hdone⟩ := (workerStep_effect hstep).2.keeps
          exact h.of_eq hlogger hdone
  | logger spilled =>
      change WriterAlive ((c.loggerStep spilled).getD c)
      cases hstep : c.loggerStep spilled with
      | none => exact h
      | some c' =>
          obtain ⟨⟨log, pc⟩, hrun, rfl⟩ := Option.map_eq_some_iff.mp hstep
          obtain ⟨hin, hdone⟩ := runStep_inRun hrun
          exact ⟨hin, hdone⟩

/-! ## Whom `main` waits for -/

def waitsFor : MainPc → Option Party
  | .joinWs => some (.worker .ws)
  | .joinRest => some (.worker .rest)
  | .joinApi => some (.worker .api)
  | .joinLogger => some .logger
  | _ => none

def left (c : Process) : Party → ℕ
  | .main => 0
  | .worker w => stepsLeft (c.worker w)
  | .logger => writerLeft c.log.queue c.logger

/-- How far `main` is from its end, and within one wait from the end of that. -/
def distance (c : Process) : ℕ ×ₗ ℕ :=
  toLex (9 - c.main.rank, ((waitsFor c.main).map c.left).getD 0)

/-- Who has to move next. -/
def helpful (c : Process) : Party :=
  match waitsFor c.main with
  | none => .main
  | some p => if c.left p = 0 then .main else p

theorem rank_le_next (c : Process) (e : ProcessEvent) :
    c.main.rank ≤ (processMachine.next c e).main.rank := by
  rcases moves_next c e with ⟨-, hsame⟩ | hmoves
  · rw [hsame]
  · generalize party e = p at hmoves
    cases hmoves with
    | main hrank => exact hrank.le
    | worker _ hmain => exact hmain ▸ le_refl _
    | logger hmain => exact hmain ▸ le_refl _

/-- The shutdown has begun. -/
structure Stopping (c : Process) : Prop where
  agrees : ∃ file taken, Sound file taken c
  begun : c.main ≠ .running
  writer : WriterAlive c

theorem Stopping.next (h : Stopping c) (e : ProcessEvent) : Stopping (processMachine.next c e) where
  agrees := by
    obtain ⟨file, taken, hsound⟩ := h.agrees
    exact ⟨file, _, sound_next hsound e⟩
  begun := by
    have hpos : 0 < c.main.rank := by
      have hbegun := h.begun
      cases hmain : c.main <;> rw [hmain] at hbegun <;> simp [MainPc.rank] at hbegun ⊢
    have hmono := rank_le_next c e
    intro hrunning
    rw [hrunning, MainPc.rank] at hmono
    omega
  writer := h.writer.next e

theorem rank_of_waitsFor {pc : MainPc} (h : waitsFor pc = some (.worker w)) :
    pc.rank = joinRank w := by
  cases pc <;> cases h <;> rfl

theorem eq_joinLogger_of_waitsFor {pc : MainPc} (h : waitsFor pc = some .logger) :
    pc = .joinLogger := by
  cases pc <;> cases h
  rfl

theorem isSome_mainStep_of_waitsFor (h : waitsFor c.main = some (.worker w))
    (hdone : (c.worker w).isDone = true) : c.mainStep.isSome = true := by
  unfold mainStep
  cases hmain : c.main <;> rw [hmain] at h <;> cases h <;> simp [hdone]

theorem helpful_cases (c : Process) : helpful c = .main ∨ waitsFor c.main = some (helpful c) := by
  rw [helpful]
  cases hwait : waitsFor c.main with
  | none => exact Or.inl rfl
  | some p =>
      simp only
      split_ifs
      · exact Or.inl rfl
      · exact Or.inr rfl

/-- The party that has to move next can. -/
theorem Stopping.ready (h : Stopping c) (hmain : c.main ≠ .returned) :
    parties.enabled (helpful c) c := by
  rw [helpful]
  cases hwait : waitsFor c.main with
  | none =>
      have hbegun := h.begun
      change c.mainStep.isSome = true
      unfold mainStep
      cases hpc : c.main <;> rw [hpc] at hwait hbegun hmain <;>
        simp [waitsFor] at hwait hbegun hmain ⊢
  | some p =>
      simp only
      split_ifs with hleft
      · cases p with
        | main => cases hpc : c.main <;> rw [hpc] at hwait <;> cases hwait
        | worker w =>
            exact isSome_mainStep_of_waitsFor hwait (stepsLeft_eq_zero.mp hleft)
        | logger =>
            have hfinished : c.logger = .finished := writerLeft_eq_zero h.writer.inRun hleft
            change c.mainStep.isSome = true
            unfold mainStep
            rw [eq_joinLogger_of_waitsFor hwait]
            simp [h.writer.done hfinished]
      · cases p with
        | main => exact absurd rfl hleft
        | worker w =>
            have hbusy : ¬ (c.worker w).isDone = true := fun hdone ↦
              hleft (stepsLeft_eq_zero.mpr hdone)
            exact Bool.eq_false_iff.mpr hbusy
        | logger =>
            have hpc : c.logger ≠ .finished := fun hfinished ↦ hleft (by rw [left, hfinished]; rfl)
            change ((AsyncJsonlLogger.runStep 0 c.log c.logger).map _).isSome = true
            rw [Option.isSome_map]
            exact isSome_runStep h.writer.inRun hpc

theorem same_of_left (hmain : c'.main = c.main)
    (hleft : ∀ p, waitsFor c.main = some p → c'.left p = c.left p) :
    distance c' = distance c ∧ helpful c' = helpful c := by
  cases hwait : waitsFor c.main with
  | none =>
      constructor
      · rw [distance, distance, hmain, hwait]
        rfl
      · rw [helpful, helpful, hmain, hwait]
  | some p =>
      constructor
      · rw [distance, distance, hmain, hwait, Option.map_some, Option.map_some, hleft p hwait]
      · rw [helpful, helpful, hmain, hwait]
        simp only [hleft p hwait]

theorem distance_lt_of_left {p : Party} (hmain : c'.main = c.main)
    (hwait : waitsFor c.main = some p) (hleft : c'.left p < c.left p) :
    distance c' < distance c := by
  rw [distance, distance, hmain, hwait, Prod.Lex.toLex_lt_toLex]
  exact Or.inr ⟨rfl, hleft⟩

theorem rank_le (pc : MainPc) : pc.rank ≤ 9 := by cases pc <;> decide

/-- A step brings the end nearer, or it is not one of the party that has to move
next, and changes nothing for it. -/
theorem Stopping.step (h : Stopping c) (e : ProcessEvent) :
    distance (processMachine.next c e) < distance c ∨
      (distance (processMachine.next c e) = distance c ∧
        helpful (processMachine.next c e) = helpful c ∧ ¬ parties.takes (helpful c) c e) := by
  obtain ⟨file, taken, hsound⟩ := h.agrees
  have hagrees := hsound.agrees
  rcases moves_next c e with ⟨hno, hsame⟩ | hmoves
  · rw [hsame]
    refine Or.inr ⟨rfl, rfl, fun htakes ↦ ?_⟩
    rw [htakes.2] at hno
    cases hno
  · generalize hparty : party e = p at hmoves
    generalize processMachine.next c e = c' at hmoves ⊢
    have hother : p ≠ .main → ¬ waitsFor c.main = some p → ¬ parties.takes (helpful c) c e := by
      rintro hne hwait ⟨htakes, -⟩
      rw [hparty] at htakes
      rcases helpful_cases c with hself | hwaited
      · exact hne (htakes.trans hself)
      · exact hwait (htakes ▸ hwaited)
    cases hmoves with
    | main hrank =>
        left
        rw [distance, distance, Prod.Lex.toLex_lt_toLex]
        have hle := rank_le c'.main
        exact Or.inl (by simp only; omega)
    | @worker w hbusy hmain hothers hless =>
        by_cases hwait : waitsFor c.main = some (.worker w)
        · have hflag : c.flag w = false := by
            rw [hagrees.flags, rank_of_waitsFor hwait, decide_eq_false_iff_not]
            cases w <;> decide
          exact Or.inl (distance_lt_of_left hmain hwait (hless hflag))
        · obtain ⟨hdistance, hhelpful⟩ := same_of_left hmain fun q hq ↦ by
            cases q with
            | main => rfl
            | worker u =>
                have hne : u ≠ w := fun heq ↦ hwait (heq ▸ hq)
                rw [left, left, hothers u hne]
            | logger =>
                have hjoined : joinRank w < c.main.rank := by
                  rw [eq_joinLogger_of_waitsFor hq]
                  cases w <;> decide
                rw [hagrees.joined w hjoined] at hbusy
                cases hbusy
          exact Or.inr ⟨hdistance, hhelpful, hother nofun hwait⟩
    | logger hmain hworkers hless =>
        by_cases hwait : waitsFor c.main = some .logger
        · have hstopped : c.log.running = false := by
            rw [hagrees.logFlag, eq_joinLogger_of_waitsFor hwait]
            rfl
          exact Or.inl (distance_lt_of_left hmain hwait (hless hstopped))
        · obtain ⟨hdistance, hhelpful⟩ := same_of_left hmain fun q hq ↦ by
            cases q with
            | main => rfl
            | worker u => rw [left, left, hworkers]
            | logger => exact absurd hq hwait
          exact Or.inr ⟨hdistance, hhelpful, hother nofun hwait⟩

theorem approach : processMachine.Approach parties Stopping (fun c ↦ c.main = .returned)
    distance helpful where
  keep _ e h := h.next e
  ready _ h hgoal := h.ready hgoal
  step _ e h _ := h.step e

theorem writerAlive_run (cfg : RiskConfig Double) (file : Text) (es : List ProcessEvent) :
    WriterAlive (after cfg file es) :=
  processMachine.run_invariant (fun _ e h ↦ h.next e) ⟨rfl, nofun⟩ es

/-- Once `main` has left `run_until_stop`, it returns in every fair run, and
leaves a file with every event that the queue has taken. -/
theorem shutdown_completes (cfg : RiskConfig Double) (file : Text) (es : List ProcessEvent)
    (hbegun : (after cfg file es).main ≠ .running) (events : ℕ → ProcessEvent)
    (hfair : processMachine.Fair parties (after cfg file es) events) :
    ∃ n, (after cfg file (es ++ (List.range n).map events)).main = .returned ∧
      (after cfg file (es ++ (List.range n).map events)).log.file =
        file ++ (accepted cfg file (es ++ (List.range n).map events)).flatMap logLine := by
  have hstopping : Stopping (after cfg file es) :=
    ⟨⟨file, _, sound_run cfg file es⟩, hbegun, writerAlive_run cfg file es⟩
  obtain ⟨n, hn⟩ := approach.reaches hstopping hfair
  rw [Machine.states_eq_run, after, ← Machine.run_append] at hn
  exact ⟨n, hn, file_of_returned cfg file _ hn⟩

/-- A tick and a request that cancels an unknown order, and the end of
`run_until_stop` before either has been logged. -/
def stopCalled : List ProcessEvent :=
  firstTick.append [.worker .api .proceed, .worker .api .proceed,
    .worker .api (.request (some (.cancel 3 7))), .worker .api .proceed, .main]

/-- Both are logged, all threads run to their end, and nothing happens any
more. -/
def ending (n : ℕ) : ProcessEvent :=
  (ProcessEvent.worker .api (.push true) :: .worker .ws (.push true) :: shutdown 2)[n]?.getD .main

/-- Nothing is left to be done. -/
theorem over_after_ending :
    let c := after .default [] (stopCalled ++ (List.range 25).map ending)
    c.mainStep.isSome = false ∧ (c.worker .ws).isDone = true ∧ (c.worker .rest).isDone = true ∧
      (c.worker .api).isDone = true ∧ (c.loggerStep 0).isSome = false := by
  decide +kernel

theorem fair_ending : processMachine.Fair parties (after .default [] stopCalled) ending := by
  obtain ⟨hmain, hws, hrest, hapi, hlogger⟩ := over_after_ending
  rw [after, Machine.run_append, ← Machine.states_eq_run] at hmain hws hrest hapi hlogger
  apply processMachine.fair_of_rest parties (n := 25)
  · intro m hm
    generalize processMachine.states _ ending 25 = c at *
    have hnone := Option.not_isSome_iff_eq_none.mp (Bool.eq_false_iff.mp hmain)
    have hevent : ending m = .main := by
      rw [ending, List.getElem?_eq_none hm]
      rfl
    rw [hevent]
    exact congrArg (fun step ↦ Option.getD step _) hnone
  · intro t henabled
    generalize processMachine.states _ ending 25 = c at *
    cases t with
    | main => exact Bool.eq_false_iff.mp hmain henabled
    | logger => exact Bool.eq_false_iff.mp hlogger henabled
    | worker w =>
        cases w with
        | ws => exact Bool.eq_false_iff.mp henabled hws
        | rest => exact Bool.eq_false_iff.mp henabled hrest
        | api => exact Bool.eq_false_iff.mp henabled hapi

theorem shutdown_completes_shortRun :
    ∃ n, (after .default [] (stopCalled ++ (List.range n).map ending)).main = .returned ∧
      (after .default [] (stopCalled ++ (List.range n).map ending)).log.file =
        [] ++ (accepted .default [] (stopCalled ++ (List.range n).map ending)).flatMap logLine :=
  shutdown_completes .default [] stopCalled (by decide +kernel) ending fair_ending

end FrogQuant.App.Process
