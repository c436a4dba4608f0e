import FrogQuant.Core.OrderTypes
import FrogQuant.Lib.FlatJson
import FrogQuant.Lib.Ostream
import FrogQuant.Lib.Threads

/-!
# The asynchronous logger

`logger/async_jsonl_logger.cpp`: producers put events into a queue, a worker
writes them to the log file, and the call of `stop` that finds the logger
running waits for the worker.  The queue is a linearizable FIFO, so that pushing
and popping are single steps; it may refuse an event at any time.
-/

namespace FrogQuant

open Json

def levelToStr : LogLevel → Text
  | .debug => "DEBUG"
  | .info => "INFO"
  | .warn => "WARN"
  | .error => "ERROR"

def escapeJson (t : Text) : Text :=
  t.flatMap fun c ↦
    if c = '"' then ['\\', '"']
    else if c = '\\' then ['\\', '\\']
    else if c = '\n' then ['\\', 'n']
    else [c]

/-- The line that the worker writes for an event. -/
def logLine (ev : LogEvent Double) : Text :=
  object
    [member "ts_ms" (Decimal.showNat ev.tsMs),
      member "level" (quoted (levelToStr ev.level)),
      member "module" (quoted (escapeJson ev.moduleName)),
      member "event" (quoted (escapeJson ev.event)),
      member "message" (quoted (escapeJson ev.message)),
      member "value1" (Ostream.showGeneral ev.value1),
      member "value2" (Ostream.showGeneral ev.value2)] ++ ['\n']

namespace AsyncJsonlLogger

inductive Thread where
  | producer (n : ℕ)
  | stopper (n : ℕ)
  | worker
  deriving DecidableEq

/-- Where a thread stands: between calls, in `try_log` after the queue refused
the event, in `stop`, or in `run`. -/
inductive Pc where
  | idle
  | refused (ev : LogEvent Double)
  | stopping
  | joining
  | opening
  | testing
  | popping (processed : ℕ)
  | writing (processed : ℕ) (ev : LogEvent Double)
  | resting (processed : ℕ)
  | draining
  | drainWriting (ev : LogEvent Double)
  | flushing
  | finished
  deriving DecidableEq

/-- What the threads share.  The stream keeps some of what is written in
`buffer` until it is flushed. -/
structure Memory where
  queue : List (LogEvent Double)
  running : Bool
  dropped : UInt64
  file : Text
  buffer : Text
  workerDone : Bool

namespace Memory

variable (s : Memory)

/-- All that has been written to the stream. -/
def stream : Text := s.file ++ s.buffer

/-- Writing may also move some of the buffer to the file. -/
def write (ev : LogEvent Double) (spilled : ℕ) : Memory :=
  let buffer := s.buffer ++ logLine ev
  { s with file := s.file ++ buffer.take spilled, buffer := buffer.drop spilled }

def flush : Memory := { s with file := s.file ++ s.buffer, buffer := [] }

@[simp] theorem stream_write (ev : LogEvent Double) (spilled : ℕ) :
    (s.write ev spilled).stream = s.stream ++ logLine ev := by
  simp [stream, write]

@[simp] theorem stream_flush : s.flush.stream = s.stream := by
  simp [stream, flush]

end Memory

inductive Action where
  | push (ev : LogEvent Double) (ok : Bool)
  | countDropped
  | callStop
  | exchange
  | join
  | work (spilled : ℕ)

/-- What a call returns; `stop` tells whether it has joined the worker. -/
inductive Return where
  | tryLog (ev : LogEvent Double) (ok : Bool)
  | stop (joined : Bool)
  deriving DecidableEq

/-- `try_log` returns with its last access to what the threads share. -/
def tryLogStep (a : Action) (s : Memory) (pc : Pc) : Option (Memory × Pc × Option Return) :=
  match a, pc with
  | .push ev true, .idle =>
      some ({ s with queue := s.queue ++ [ev] }, .idle, some (.tryLog ev true))
  | .push ev false, .idle => some (s, .refused ev, none)
  | .countDropped, .refused ev =>
      some ({ s with dropped := s.dropped + 1 }, .idle, some (.tryLog ev false))
  | _, _ => none

def stopStep (a : Action) (s : Memory) (pc : Pc) : Option (Memory × Pc × Option Return) :=
  match a, pc with
  | .callStop, .idle => some (s, .stopping, none)
  | .exchange, .stopping =>
      if s.running then some ({ s with running := false }, .joining, none)
      else some (s, .idle, some (.stop false))
  | .join, .joining => if s.workerDone then some (s, .idle, some (.stop true)) else none
  | _, _ => none

/-- The steps of `run`; the file opens. -/
def runStep (spilled : ℕ) (s : Memory) : Pc → Option (Memory × Pc)
  | .opening => some (s, .testing)
  | .testing => some (s, if s.running then .popping 0 else .draining)
  | .popping processed =>
      if processed < 256 then
        match s.queue with
        | ev :: queue => some ({ s with queue := queue }, .writing processed ev)
        | [] => some (s, .resting processed)
      else some (s, .resting processed)
  | .writing processed ev => some (s.write ev spilled, .popping (processed + 1))
  | .resting processed => some (if processed = 0 then s else s.flush, .testing)
  | .draining =>
      match s.queue with
      | ev :: queue => some ({ s with queue := queue }, .drainWriting ev)
      | [] => some (s, .flushing)
  | .drainWriting ev => some (s.write ev spilled, .draining)
  | .flushing => some ({ s.flush with workerDone := true }, .finished)
  | _ => none

def loggerProgram : Program Thread Memory Pc Action (Option Return) where
  step t a s pc :=
    match t, a with
    | .producer _, a => tryLogStep a s pc
    | .stopper _, a => stopStep a s pc
    | .worker, .work spilled => (runStep spilled s pc).map fun (s, pc) ↦ (s, pc, none)
    | .worker, _ => none

abbrev Logger := Threads Thread Memory Pc

/-- The logger after `start`, with what the log file held before. -/
def started (file : Text) : Logger where
  shared := ⟨[], true, 0, file, [], false⟩
  locals
    | .worker => .opening
    | _ => .idle

abbrev after (file : Text) (es : List (Thread × Action)) : Logger :=
  loggerProgram.machine.run (started file) es

/-! ## What the calls of `try_log` return -/

def Return.event? (ok : Bool) : Return → Option (LogEvent Double)
  | .tryLog ev ok' => if ok' = ok then some ev else none
  | .stop _ => none

/-- The event of a call of `try_log` that returns `ok` with this step. -/
def logged? (ok : Bool) (c : Logger) (e : Thread × Action) : Option (LogEvent Double) :=
  (loggerProgram.machine.out c e).join.bind (Return.event? ok)

/-- The events that the queue has taken, in order. -/
def enqueued (file : Text) (es : List (Thread × Action)) : List (LogEvent Double) :=
  loggerProgram.machine.collect (logged? true) (started file) es

/-- The events of the calls that have returned false. -/
def refusals (file : Text) (es : List (Thread × Action)) : List (LogEvent Double) :=
  loggerProgram.machine.collect (logged? false) (started file) es

/-! ## What a step can do -/

/-- What a step of any thread does to the memory and to where the worker
stands. -/
inductive Effect (s : Memory) (pc : Pc) : Memory → Pc → Option Return → Prop where
  | accept (ev) : Effect s pc { s with queue := s.queue ++ [ev] } pc (some (.tryLog ev true))
  | refuse (ev) : Effect s pc { s with dropped := s.dropped + 1 } pc (some (.tryLog ev false))
  | stop : Effect s pc { s with running := false } pc none
  | work {spilled s' pc'} (h : runStep spilled s pc = some (s', pc')) : Effect s pc s' pc' none
  | other (o) (h : ∀ ok, o.bind (Return.event? ok) = none) : Effect s pc s pc o

section Steps

variable {a : Action} {s s' : Memory} {pc pc' : Pc} {o : Option Return}

theorem tryLogStep_effect (h : tryLogStep a s pc = some (s', pc', o)) (wpc : Pc) :
    Effect s wpc s' wpc o := by
  unfold tryLogStep at h
  split at h <;> cases h
  · exact .accept _
  · exact .other none fun _ ↦ rfl
  · exact .refuse _

theorem stopStep_effect (h : stopStep a s pc = some (s', pc', o)) (wpc : Pc) :
    Effect s wpc s' wpc o := by
  unfold stopStep at h
  split at h
  · cases h
    exact .other none fun _ ↦ rfl
  · split_ifs at h <;> cases h
    · exact .stop
    · exact .other (some (.stop false)) fun _ ↦ rfl
  · split_ifs at h
    cases h
    exact .other (some (.stop true)) fun _ ↦ rfl
  · cases h

theorem effect_next (c : Logger) (e : Thread × Action) :
    Effect c.shared (c.locals .worker) (loggerProgram.machine.next c e).shared
      ((loggerProgram.machine.next c e).locals .worker) (loggerProgram.machine.out c e).join := by
  obtain ⟨t, a⟩ := e
  rw [Machine.next, Machine.out]
  rcases loggerProgram.step_cases c t a with hnone | ⟨s', pc', o, hstep, hnext⟩
  · rw [hnone]
    exact .other none fun _ ↦ rfl
  · rw [hnext]
    simp only [loggerProgram] at hstep
    split at hstep
    · simpa using tryLogStep_effect hstep (c.locals .worker)
    · simpa using stopStep_effect hstep (c.locals .worker)
    · obtain ⟨⟨s₁, pc₁⟩, hrun, heq⟩ := Option.map_eq_some_iff.mp hstep
      cases heq
      simpa using Effect.work hrun
    · cases hstep

end Steps

/-! ## Where the events are -/

/-- The event that the worker has taken and not yet written. -/
def Pc.hand : Pc → List (LogEvent Double)
  | .writing _ ev | .drainWriting ev => [ev]
  | _ => []

/-- The worker has found the logger stopped. -/
def Pc.leftLoop : Pc → Bool
  | .draining | .drainWriting _ | .flushing | .finished => true
  | _ => false

/-- After that, it has found the queue empty. -/
def Pc.drained : Pc → Bool
  | .flushing | .finished => true
  | _ => false

/-- Of the events taken by the queue, some are written, the worker may hold the
next, and the others are queued; `snap` is written once the queue is drained. -/
def Delivered (file : Text) (snap taken : List (LogEvent Double)) (s : Memory) (pc : Pc) : Prop :=
  ∃ written, s.stream = file ++ written.flatMap logLine ∧
    taken = written ++ pc.hand ++ s.queue ∧ (pc.drained = true → snap <+: written)

structure Invariant (file : Text) (snap taken : List (LogEvent Double)) (s : Memory) (pc : Pc) :
    Prop where
  delivered : Delivered file snap taken s pc
  stopped : pc.leftLoop = true → s.running = false
  done : s.workerDone = true → pc = .finished
  flushed : pc = .finished → s.buffer = []

variable {file : Text} {snap taken : List (LogEvent Double)} {s s' : Memory} {pc pc' : Pc}

/-- Nothing is written, and nothing taken out of turn. -/
theorem Delivered.move (h : Delivered file snap taken s pc) (hstream : s'.stream = s.stream)
    (hrest : pc'.hand ++ s'.queue = pc.hand ++ s.queue)
    (hdrained : pc'.drained = true → pc.drained = true ∨ pc.hand ++ s.queue = [] ∧ snap <+: taken) :
    Delivered file snap taken s' pc' := by
  obtain ⟨written, hwritten, htaken, hsnap⟩ := h
  rw [List.append_assoc] at htaken
  refine ⟨written, hstream.trans hwritten, by rw [List.append_assoc, hrest, htaken], fun hpc' ↦ ?_⟩
  rcases hdrained hpc' with hpc | ⟨hempty, hle⟩
  · exact hsnap hpc
  · rwa [htaken, hempty, List.append_nil] at hle

/-- The worker writes the event that it holds. -/
theorem Delivered.write {ev : LogEvent Double} {spilled : ℕ} (h : Delivered file snap taken s pc)
    (hhand : pc.hand = [ev]) (hhand' : pc'.hand = []) (hdrained : pc'.drained = false) :
    Delivered file snap taken (s.write ev spilled) pc' := by
  obtain ⟨written, hwritten, htaken, -⟩ := h
  refine ⟨written ++ [ev], ?_, ?_, by simp [hdrained]⟩
  · simp [hwritten]
  · simp [htaken, hhand, hhand', Memory.write]

theorem Delivered.run {spilled : ℕ} (h : Delivered file snap taken s pc) (hsnap : snap <+: taken)
    (hstep : runStep spilled s pc = some (s', pc')) : Delivered file snap taken s' pc' := by
  cases pc with
  | opening =>
      cases hstep
      exact h.move rfl rfl nofun
  | testing =>
      cases hstep
      cases s.running
      · exact h.move rfl rfl nofun
      · exact h.move rfl rfl nofun
  | popping processed =>
      simp only [runStep] at hstep
      split_ifs at hstep
      · cases hqueue : s.queue with
        | nil =>
            rw [hqueue] at hstep
            cases hstep
            exact h.move rfl rfl nofun
        | cons ev queue =>
            rw [hqueue] at hstep
            cases hstep
            exact h.move rfl hqueue.symm nofun
      · cases hstep
        exact h.move rfl rfl nofun
  | writing processed ev =>
      cases hstep
      exact h.write rfl rfl rfl
  | resting processed =>
      cases hstep
      refine h.move ?_ ?_ nofun
      · split_ifs
        · rfl
        · exact s.stream_flush
      · split_ifs <;> rfl
  | draining =>
      simp only [runStep] at hstep
      cases hqueue : s.queue with
      | nil =>
          rw [hqueue] at hstep
          cases hstep
          exact h.move rfl rfl fun _ ↦ Or.inr ⟨hqueue, hsnap⟩
      | cons ev queue =>
          rw [hqueue] at hstep
          cases hstep
          exact h.move rfl hqueue.symm nofun
  | drainWriting ev =>
      cases hstep
      exact h.write rfl rfl rfl
  | flushing =>
      cases hstep
      exact h.move s.stream_flush rfl fun _ ↦ Or.inl rfl
  | _ => cases hstep

/-- While the worker is in its loop, nothing need have been written yet. -/
theorem Invariant.withSnap (h : Invariant file snap taken s pc) (hloop : pc.leftLoop = false)
    (snap' : List (LogEvent Double)) : Invariant file snap' taken s pc := by
  obtain ⟨⟨written, hwritten, htaken, -⟩, hstopped, hdone, hflushed⟩ := h
  refine ⟨⟨written, hwritten, htaken, fun hdrained ↦ ?_⟩, hstopped, hdone, hflushed⟩
  cases pc <;> cases hloop <;> cases hdrained

theorem Invariant.file_eq (h : Invariant file snap taken s .finished) :
    ∃ written, s.file = file ++ written.flatMap logLine ∧ snap <+: written ∧ written <+: taken := by
  obtain ⟨⟨written, hwritten, htaken, hsnap⟩, -, -, hflushed⟩ := h
  rw [Memory.stream, hflushed rfl, List.append_nil] at hwritten
  rw [List.append_assoc] at htaken
  exact ⟨written, hwritten, hsnap rfl, htaken ▸ List.prefix_append _ _⟩

theorem runStep_spec {spilled : ℕ} (hstep : runStep spilled s pc = some (s', pc')) :
    s'.running = s.running ∧ s'.dropped = s.dropped ∧
      (pc'.leftLoop = true → pc.leftLoop = true ∨ s.running = false) ∧
      (s'.workerDone = true → s.workerDone = true ∨ pc' = .finished) ∧
      (pc' = .finished → s'.buffer = []) ∧ pc ≠ .finished := by
  cases pc with
  | testing =>
      cases hstep
      cases hrunning : s.running <;> simp [Pc.leftLoop]
  | popping processed =>
      simp only [runStep] at hstep
      split_ifs at hstep
      · cases hqueue : s.queue <;> rw [hqueue] at hstep <;> cases hstep <;> simp [Pc.leftLoop]
      · cases hstep
        simp [Pc.leftLoop]
  | resting processed =>
      cases hstep
      split_ifs <;> simp [Pc.leftLoop, Memory.flush]
  | draining =>
      simp only [runStep] at hstep
      cases hqueue : s.queue <;> rw [hqueue] at hstep <;> cases hstep <;> simp [Pc.leftLoop]
  | opening | writing | drainWriting | flushing =>
      cases hstep
      simp [Pc.leftLoop, Memory.write, Memory.flush]
  | _ => cases hstep

theorem Invariant.next {o : Option Return} (h : Invariant file snap taken s pc)
    (hsnap : snap <+: taken) (heffect : Effect s pc s' pc' o) :
    Invariant file snap (taken ++ (o.bind (Return.event? true)).toList) s' pc' := by
  obtain ⟨hdelivered, hstopped, hdone, hflushed⟩ := h
  cases heffect with
  | accept ev =>
      obtain ⟨written, hwritten, htaken, hwhole⟩ := hdelivered
      refine ⟨⟨written, hwritten, ?_, hwhole⟩, hstopped, hdone, hflushed⟩
      simp [htaken, Return.event?]
  | refuse ev =>
      rw [show taken ++ ((some (Return.tryLog ev false)).bind (Return.event? true)).toList = taken
        from List.append_nil taken]
      exact ⟨hdelivered, hstopped, hdone, hflushed⟩
  | stop =>
      rw [Option.bind_none, Option.toList_none, List.append_nil]
      exact ⟨hdelivered, fun _ ↦ rfl, hdone, hflushed⟩
  | work hstep =>
      rw [Option.bind_none, Option.toList_none, List.append_nil]
      obtain ⟨hrunning, -, hleft, hworkerDone, hbuffer, hpc⟩ := runStep_spec hstep
      refine ⟨hdelivered.run hsnap hstep, fun hpc' ↦ hrunning.trans ?_, fun hs' ↦ ?_, hbuffer⟩
      · exact (hleft hpc').elim hstopped id
      · exact (hworkerDone hs').resolve_left fun hs ↦ hpc (hdone hs)
  | other o h =>
      rw [h, Option.toList_none, List.append_nil]
      exact ⟨hdelivered, hstopped, hdone, hflushed⟩

/-! ## Runs -/

theorem invariant_start (file : Text) :
    Invariant file [] [] (started file).shared ((started file).locals .worker) where
  delivered := ⟨[], rfl, rfl, nofun⟩
  stopped := nofun
  done := nofun
  flushed := nofun

theorem invariant_run {c : Logger} (es : List (Thread × Action))
    (h : Invariant file snap taken c.shared (c.locals .worker)) (hsnap : snap <+: taken) :
    Invariant file snap (taken ++ loggerProgram.machine.collect (logged? true) c es)
      (loggerProgram.machine.run c es).shared
      ((loggerProgram.machine.run c es).locals .worker) := by
  induction es generalizing c taken with
  | nil => simpa [Machine.collect] using h
  | cons e es ih =>
      rw [Machine.collect, ← List.append_assoc]
      exact ih (h.next hsnap (effect_next c e)) (hsnap.trans (List.prefix_append _ _))

theorem invariant_after (file : Text) (es : List (Thread × Action)) :
    Invariant file [] (enqueued file es) (after file es).shared ((after file es).locals .worker) :=
  invariant_run es (invariant_start file) List.nil_prefix

theorem Effect.dropped_eq {o : Option Return} (h : Effect s pc s' pc' o) :
    s'.dropped = s.dropped + UInt64.ofNat (o.bind (Return.event? false)).toList.length := by
  cases h with
  | refuse ev => rfl
  | work hstep =>
      rw [(runStep_spec hstep).2.1]
      exact (UInt64.add_zero _).symm
  | other o h =>
      rw [h]
      exact (UInt64.add_zero _).symm
  | _ => exact (UInt64.add_zero _).symm

/-- The counter of 64 bits counts the calls that return false. -/
theorem dropped_after (file : Text) (es : List (Thread × Action)) :
    (after file es).shared.dropped = UInt64.ofNat (refusals file es).length := by
  refine loggerProgram.machine.run_history
    (P := fun es c ↦ c.shared.dropped = UInt64.ofNat (refusals file es).length) rfl
    (fun es e ih ↦ ?_) es
  rw [(effect_next (after file es) e).dropped_eq, ih]
  simp only [refusals, Machine.collect_concat, List.length_append, UInt64.ofNat_add]
  rfl

theorem Effect.finished {o : Option Return} (h : Effect s .finished s' pc' o) :
    pc' = .finished := by
  cases h with
  | work hstep => cases hstep
  | _ => rfl

theorem finished_run {c : Logger} (h : c.locals .worker = .finished) (es : List (Thread × Action)) :
    (loggerProgram.machine.run c es).locals .worker = .finished :=
  loggerProgram.machine.run_invariant (P := fun c ↦ c.locals .worker = .finished)
    (fun c e h ↦ (h ▸ effect_next c e).finished) h es

/-! ## The call that joins -/

theorem Effect.running_eq_false {o : Option Return} (h : Effect s pc s' pc' o)
    (hrunning : s.running = false) : s'.running = false := by
  cases h with
  | stop => rfl
  | work hstep => rwa [(runStep_spec hstep).1]
  | _ => exact hrunning

theorem stopStep_ne_joining {a : Action} {o : Option Return}
    (h : stopStep a s pc = some (s', pc', o)) (hrunning : s.running = false) : pc' ≠ .joining := by
  unfold stopStep at h
  split at h
  · cases h
    nofun
  · rw [hrunning] at h
    cases h
    nofun
  · split_ifs at h
    cases h
    nofun
  · cases h

theorem locals_stopper_next {c : Logger} {k : ℕ} (e : Thread × Action) :
    (loggerProgram.machine.next c e).locals (.stopper k) = c.locals (.stopper k) ∨
      ∃ s' o, stopStep e.2 c.shared (c.locals (.stopper k)) =
        some (s', (loggerProgram.machine.next c e).locals (.stopper k), o) := by
  obtain ⟨t, a⟩ := e
  rw [Machine.next]
  rcases loggerProgram.step_cases c t a with hnone | ⟨s', pc', o, hstep, hnext⟩
  · exact Or.inl (by rw [hnone])
  · rw [hnext]
    by_cases ht : t = .stopper k
    · subst ht
      refine Or.inr ⟨s', o, ?_⟩
      simp only [Function.update_self]
      exact hstep
    · exact Or.inl (Function.update_of_ne (Ne.symm ht) _ _)

/-- Whoever calls `stop` once the logger is stopped does not join. -/
theorem not_joining_run {c : Logger} {k : ℕ} (hrunning : c.shared.running = false)
    (hpc : c.locals (.stopper k) ≠ .joining) (es : List (Thread × Action)) :
    (loggerProgram.machine.run c es).locals (.stopper k) ≠ .joining := by
  refine (loggerProgram.machine.run_invariant
    (P := fun c ↦ c.shared.running = false ∧ c.locals (.stopper k) ≠ .joining)
    (fun c e h ↦ ⟨(effect_next c e).running_eq_false h.1, ?_⟩) ⟨hrunning, hpc⟩ es).2
  rcases locals_stopper_next (c := c) (k := k) e with hsame | ⟨s', o, hstep⟩
  · rw [hsame]
    exact h.2
  · exact stopStep_ne_joining hstep h.1

/-- A call of `stop` joins after the worker is done. -/
theorem workerDone_of_joined {c : Logger} {k : ℕ}
    (h : loggerProgram.machine.out c (.stopper k, .join) = some (some (.stop true))) :
    c.locals (.stopper k) = .joining ∧ c.shared.workerDone = true := by
  rw [Machine.out] at h
  rcases loggerProgram.step_cases c (.stopper k) .join with hnone | ⟨s', pc', o, hstep, hnext⟩
  · rw [hnone] at h
    cases h
  · simp only [loggerProgram, stopStep] at hstep
    split at hstep
    · cases ‹Action.join = _›
    · cases ‹Action.join = _›
    · rename_i hjoining
      split_ifs at hstep with hdone
      exact ⟨hjoining, hdone⟩
    · cases hstep

/-- The logger runs until the call of `stop` that joins. -/
theorem running_of_joining {c : Logger} {k : ℕ} (hcall : c.locals (.stopper k) = .idle)
    {es : List (Thread × Action)}
    (hjoining : (loggerProgram.machine.run c es).locals (.stopper k) = .joining) :
    c.shared.running = true := by
  by_contra hstopped
  rw [Bool.not_eq_true] at hstopped
  apply not_joining_run (k := k) hstopped _ es hjoining
  rw [hcall]
  nofun

/-- Once the call of `stop` that joins the worker has returned, the worker has
written a first part of the events that the queue has taken, in their order and
each once; all that were accepted before that call are in it.  The counter
counts the calls of `try_log` that have returned false. -/
theorem logger_loses_nothing (file : Text) (pre mid post : List (Thread × Action)) (k : ℕ)
    (hcall : (after file pre).locals (.stopper k) = .idle)
    (hjoined : loggerProgram.machine.out (after file (pre ++ (.stopper k, .callStop) :: mid))
      (.stopper k, .join) = some (some (.stop true))) :
    let es := pre ++ (.stopper k, .callStop) :: mid ++ (.stopper k, .join) :: post
    (∃ written, (after file es).shared.file = file ++ written.flatMap logLine ∧
      enqueued file pre <+: written ∧ written <+: enqueued file es) ∧
    (after file es).shared.dropped = UInt64.ofNat (refusals file es).length := by
  intro es
  refine ⟨?_, dropped_after file es⟩
  obtain ⟨hjoining, hdone⟩ := workerDone_of_joined hjoined
  -- the worker is in its loop when `stop` is called, and finished when it returns
  have hrunning : (after file pre).shared.running = true := by
    rw [after, Machine.run_append] at hjoining
    exact running_of_joining hcall hjoining
  have hbefore := invariant_after file pre
  have hloop : ((after file pre).locals .worker).leftLoop = false := by
    by_contra hleft
    rw [Bool.not_eq_false] at hleft
    cases hrunning.symm.trans (hbefore.stopped hleft)
  have hfinished : (after file es).locals .worker = .finished := by
    rw [after, Machine.run_append]
    exact finished_run ((invariant_after file _).done hdone) _
  have hend := invariant_run ((.stopper k, .callStop) :: mid ++ (.stopper k, .join) :: post)
    (hbefore.withSnap hloop (enqueued file pre)) List.prefix_rfl
  rw [← Machine.run_append, enqueued, ← Machine.collect_append, ← List.append_assoc] at hend
  change Invariant file (enqueued file pre) (enqueued file es) (after file es).shared
    ((after file es).locals .worker) at hend
  rw [hfinished] at hend
  exact hend.file_eq

def testEvent : LogEvent Double := ⟨1, .info, "test", "log", "hello", .finite 42, .finite 0⟩

def beforeStop : List (Thread × Action) :=
  [(.producer 0, .push testEvent true), (.worker, .work 0)]

def drain : List (Thread × Action) :=
  [(.stopper 0, .exchange), (.worker, .work 0), (.worker, .work 0),
    (.producer 1, .push testEvent true), (.worker, .work 20), (.worker, .work 0),
    (.worker, .work 0), (.worker, .work 0), (.worker, .work 0)]

/-- One event is accepted before the call of `stop`, and one while the worker
drains the queue. -/
theorem logger_loses_nothing_two_events :
    let es := beforeStop ++ (.stopper 0, .callStop) :: drain ++ [(.stopper 0, .join)]
    (∃ written, (after [] es).shared.file = [] ++ written.flatMap logLine ∧
      enqueued [] beforeStop <+: written ∧ written <+: enqueued [] es) ∧
    (after [] es).shared.dropped = UInt64.ofNat (refusals [] es).length :=
  logger_loses_nothing [] beforeStop drain [] 0 rfl (by decide +kernel)

end AsyncJsonlLogger

end FrogQuant
