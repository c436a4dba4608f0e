import FrogQuant.Core.AuditTrail
import FrogQuant.Logger.LogLines
import FrogQuant.Market.BinanceClients

/-!
# The process from start to shutdown

`app/main.cpp` and the threads it starts: the WebSocket client and the REST
poller of `market/market_data_service.cpp`, the HTTP server of
`control/local_http_server.cpp` and the writer of the log.  The threads take
their steps in any order.  `main` stops them one after another, and each call of
`stop` takes its flag back and joins its thread.
-/

namespace FrogQuant.App

/-- The threads that call the core. -/
inductive Worker where
  | ws
  | rest
  | api
  deriving DecidableEq

/-- Where `main` stands: in `run_until_stop`, in `service.stop()` with the
`stop` of the WebSocket client inside it, in `control.stop()`, in
`logger.stop()`, or behind them. -/
inductive MainPc where
  | running
  | stopService
  | stopWs
  | joinWs
  | joinRest
  | stopApi
  | joinApi
  | stopLogger
  | joinLogger
  | returned
  deriving DecidableEq

/-- How far `main` has come. -/
def MainPc.rank : MainPc → ℕ
  | running => 0
  | stopService => 1
  | stopWs => 2
  | joinWs => 3
  | joinRest => 4
  | stopApi => 5
  | joinApi => 6
  | stopLogger => 7
  | joinLogger => 8
  | returned => 9

/-- Where a worker stands in its loop: at the test of its flag, connecting or
opening its port, at the test of the inner loop, waiting for input, in the
handler before its operation on the core, in `try_log` with the event of the
operation, or on the way back to the test. -/
inductive WorkerPc where
  | opening
  | testing
  | connecting
  | testingInner
  | waiting
  | calling (op : CoreOp Double)
  | logging (ev : LogEvent Double)
  | refused (ev : LogEvent Double)
  | leaving
  | done

def WorkerPc.isDone : WorkerPc → Bool
  | done => true
  | _ => false

/-- The operation that the handler is about to make. -/
def WorkerPc.call? : WorkerPc → Option (CoreOp Double)
  | calling op => some op
  | _ => none

/-- The event of an operation that `try_log` has not settled. -/
def WorkerPc.event? : WorkerPc → Option (LogEvent Double)
  | logging ev | refused ev => some ev
  | _ => none

/-- What a worker meets: nothing of note, a failed call, a message, the body of
a response, a request that may operate on the core, and what the queue makes of
a push. -/
inductive WorkerAction where
  | proceed
  | fail
  | message (text : Text) (recvMs nowMs : ℕ)
  | price (symbol : Text) (body : Option Text) (recvMs nowMs : ℕ)
  | request (op : Option (CoreOp Double))
  | push (ok : Bool)

structure Process where
  main : MainPc
  worker : Worker → WorkerPc
  logger : AsyncJsonlLogger.Pc
  serviceRunning : Bool
  wsRunning : Bool
  apiRunning : Bool
  core : TradingCore Double
  log : AsyncJsonlLogger.Memory

/-- What a step does to the core or to the log. -/
inductive Note where
  | operated (w : Worker) (op : CoreOp Double)
  | accepted (ev : LogEvent Double)
  | dropped (w : Worker) (ev : LogEvent Double)

/-- What `try_log` returns with the step. -/
def Note.return? : Note → Option AsyncJsonlLogger.Return
  | operated _ _ => none
  | accepted ev => some (.tryLog ev true)
  | dropped _ ev => some (.tryLog ev false)

def Note.accepted? (note : Note) : Option (LogEvent Double) :=
  note.return?.bind (AsyncJsonlLogger.Return.event? true)

def Note.op? : Note → Option (CoreOp Double)
  | operated _ op => some op
  | _ => none

inductive ProcessEvent where
  | main
  | worker (w : Worker) (a : WorkerAction)
  | logger (spilled : ℕ)

namespace Process

/-- The process once `main` has started all threads. -/
def start (cfg : RiskConfig Double) (file : Text) : Process where
  main := .running
  worker
    | .ws => .testing
    | .rest => .testing
    | .api => .opening
  logger := .opening
  serviceRunning := true
  wsRunning := true
  apiRunning := true
  core := .init cfg
  log := ⟨[], true, 0, file, [], false⟩

variable (c : Process)

/-- The flag that the loop of a worker tests. -/
def flag : Worker → Bool
  | .ws => c.wsRunning
  | .rest => c.serviceRunning
  | .api => c.apiRunning

/-- The next step of `main`; `none` while it waits for a thread. -/
def mainStep : Option Process :=
  match c.main with
  | .running => some { c with main := .stopService }
  | .stopService =>
      some (if c.serviceRunning then { c with serviceRunning := false, main := .stopWs }
        else { c with main := .stopApi })
  | .stopWs =>
      some (if c.wsRunning then { c with wsRunning := false, main := .joinWs }
        else { c with main := .joinRest })
  | .joinWs => if (c.worker .ws).isDone then some { c with main := .joinRest } else none
  | .joinRest => if (c.worker .rest).isDone then some { c with main := .stopApi } else none
  | .stopApi =>
      some (if c.apiRunning then { c with apiRunning := false, main := .joinApi }
        else { c with main := .stopLogger })
  | .joinApi => if (c.worker .api).isDone then some { c with main := .stopLogger } else none
  | .stopLogger =>
      some
        (if c.log.running then
          { c with log := { c.log with running := false }, main := .joinLogger }
        else { c with main := .returned })
  | .joinLogger => if c.log.workerDone then some { c with main := .returned } else none
  | .returned => none

def moveTo (w : Worker) (pc : WorkerPc) : Process :=
  { c with worker := Function.update c.worker w pc }

/-- Where the handler returns to. -/
def afterCall : Worker → WorkerPc
  | .ws => .testingInner
  | .rest | .api => .leaving

/-- One step of a worker.  A message, a price or a request leads to a call of
the handler; of what the handler does only its operation on the core is kept,
with the `try_log` at its end. -/
def workerStep (w : Worker) (a : WorkerAction) : Option (Process × Option Note) :=
  match c.worker w, a with
  | .opening, .proceed => some (c.moveTo w .testing, none)
  | .opening, .fail => some (c.moveTo w .done, none)
  | .testing, .proceed =>
      some
        (c.moveTo w (if c.flag w then if w = .ws then .connecting else .waiting else .done), none)
  | .connecting, .proceed => some (c.moveTo w .testingInner, none)
  | .connecting, .fail => some (c.moveTo w .leaving, none)
  | .testingInner, .proceed => some (c.moveTo w (if c.flag w then .waiting else .leaving), none)
  | .waiting, .fail => some (c.moveTo w .leaving, none)
  | .waiting, .message text recvMs nowMs =>
      if w = .ws then
        match BinanceWsClient.parseTradeJson text recvMs with
        | none => some (c.moveTo w .testingInner, none)
        | some tick => some (c.moveTo w (.calling (.tick nowMs tick)), none)
      else none
  | .waiting, .price symbol body recvMs nowMs =>
      if w = .rest then
        match BinanceRestClient.fetchLastPrice symbol body recvMs with
        | none => some (c.moveTo w .leaving, none)
        | some tick => some (c.moveTo w (.calling (.tick nowMs tick)), none)
      else none
  | .waiting, .request op =>
      if w = .api then
        match op with
        | none => some (c.moveTo w .leaving, none)
        | some op => some (c.moveTo w (.calling op), none)
      else none
  | .calling op, .proceed =>
      let c' := { c with core := (coreMachine Double).next c.core op }
      some (c'.moveTo w
        (match c.core.logged op with
          | none => afterCall w
          | some ev => .logging ev), some (.operated w op))
  | .calling _, .fail =>
      match w with
      | .ws => some (c.moveTo w .leaving, none)
      | .rest => none
      | .api => some (c.moveTo w .done, none)
  | .logging ev, .push true =>
      let c' := { c with log := { c.log with queue := c.log.queue ++ [ev] } }
      some (c'.moveTo w (afterCall w), some (.accepted ev))
  | .logging ev, .push false => some (c.moveTo w (.refused ev), none)
  | .refused ev, .proceed =>
      let c' := { c with log := { c.log with dropped := c.log.dropped + 1 } }
      some (c'.moveTo w (afterCall w), some (.dropped w ev))
  | .leaving, .proceed => some (c.moveTo w .testing, none)
  | .leaving, .fail => if w = .api then some (c.moveTo w .done, none) else none
  | _, _ => none

/-- One step of the writer of the log. -/
def loggerStep (spilled : ℕ) : Option Process :=
  (AsyncJsonlLogger.runStep spilled c.log c.logger).map fun (log, logger) ↦
    { c with log := log, logger := logger }

end Process

/-- A step that cannot be taken changes nothing. -/
def processMachine : Machine Process ProcessEvent (Option Note) where
  step c e :=
    match e with
    | .main => (c.mainStep.getD c, none)
    | .worker w a => (c.workerStep w a).getD (c, none)
    | .logger spilled => ((c.loggerStep spilled).getD c, none)

namespace Process

/-! ## What a step can do -/

/-- The only operation that a market thread makes. -/
def isTick : CoreOp Double → Bool
  | .tick _ _ => true
  | _ => false

/-- What a step of a worker does. -/
inductive WorkerEffect (c : Process) (w : Worker) : Process → Option Note → Prop
  | move (pc) (hpc : pc.event? = (c.worker w).event?)
      (hop : ∀ op, pc.call? = some op → w ≠ .api → isTick op = true) :
      WorkerEffect c w (c.moveTo w pc) none
  | operate {op} (h : c.worker w = .calling op) (pc) (hpc : pc.event? = c.core.logged op)
      (hop : pc.call? = none) :
      WorkerEffect c w ({ c with core := (coreMachine Double).next c.core op }.moveTo w pc)
        (some (.operated w op))
  | accept {ev} (h : c.worker w = .logging ev) :
      WorkerEffect c w ({ c with log := { c.log with queue := c.log.queue ++ [ev] } }.moveTo w
        (afterCall w)) (some (.accepted ev))
  | drop {ev} (h : c.worker w = .refused ev) :
      WorkerEffect c w ({ c with log := { c.log with dropped := c.log.dropped + 1 } }.moveTo w
        (afterCall w)) (some (.dropped w ev))

/-- Two positions without a call. -/
theorem moves {c : Process} {w : Worker} {pc : WorkerPc} (hold : (c.worker w).event? = none)
    (hnew : pc.event? = none) (hop : pc.call? = none) :
    WorkerEffect c w (c.moveTo w pc) none :=
  .move pc (hnew.trans hold.symm) fun op heq ↦ by rw [hop] at heq; cases heq

theorem workerStep_effect {c c' : Process} {w : Worker} {a : WorkerAction} {note : Option Note}
    (h : c.workerStep w a = some (c', note)) :
    (c.worker w).isDone = false ∧ WorkerEffect c w c' note := by
  unfold workerStep at h
  split at h
  case h_3 hpc =>
    rw [hpc]
    cases h
    exact ⟨rfl, moves (by rw [hpc]; rfl) (by split_ifs <;> rfl) (by split_ifs <;> rfl)⟩
  case h_6 hpc =>
    rw [hpc]
    cases h
    exact ⟨rfl, moves (by rw [hpc]; rfl) (by split_ifs <;> rfl) (by split_ifs <;> rfl)⟩
  case h_8 text recvMs nowMs hpc =>
    rw [hpc]
    split_ifs at h
    split at h <;> cases h
    · exact ⟨rfl, moves (by rw [hpc]; rfl) rfl rfl⟩
    · refine ⟨rfl, .move _ (by rw [hpc]; rfl) fun op heq _ ↦ ?_⟩
      cases heq
      rfl
  case h_9 symbol body recvMs nowMs hpc =>
    rw [hpc]
    split_ifs at h
    split at h <;> cases h
    · exact ⟨rfl, moves (by rw [hpc]; rfl) rfl rfl⟩
    · refine ⟨rfl, .move _ (by rw [hpc]; rfl) fun op heq _ ↦ ?_⟩
      cases heq
      rfl
  case h_10 op hpc =>
    rw [hpc]
    split_ifs at h with hw
    split at h <;> cases h
    · exact ⟨rfl, moves (by rw [hpc]; rfl) rfl rfl⟩
    · exact ⟨rfl, .move _ (by rw [hpc]; rfl) fun op heq hne ↦ absurd hw hne⟩
  case h_11 op hpc =>
    rw [hpc]
    cases h
    refine ⟨rfl, .operate hpc _ ?_ ?_⟩
    · cases c.core.logged op with
      | none => cases w <;> rfl
      | some ev => rfl
    · cases c.core.logged op with
      | none => cases w <;> rfl
      | some ev => rfl
  case h_12 op hpc =>
    rw [hpc]
    split at h <;> cases h <;> exact ⟨rfl, moves (by rw [hpc]; rfl) rfl rfl⟩
  case h_13 ev hpc =>
    rw [hpc]
    cases h
    exact ⟨rfl, .accept hpc⟩
  case h_14 ev hpc =>
    rw [hpc]
    cases h
    exact ⟨rfl, .move _ (by rw [hpc]; rfl) nofun⟩
  case h_15 ev hpc =>
    rw [hpc]
    cases h
    exact ⟨rfl, .drop hpc⟩
  case h_17 hpc =>
    rw [hpc]
    split_ifs at h
    cases h
    exact ⟨rfl, moves (by rw [hpc]; rfl) rfl rfl⟩
  case h_18 => cases h
  all_goals
    rename_i hpc
    rw [hpc]
    cases h
    exact ⟨rfl, moves (by rw [hpc]; rfl) rfl rfl⟩

/-! ## Where `main` stands -/

/-- The last position of `main` at which the flag of a worker is set. -/
def stopRank : Worker → ℕ
  | .ws => 2
  | .rest => 1
  | .api => 5

/-- Where `main` waits for a worker. -/
def joinRank : Worker → ℕ
  | .ws => 3
  | .rest => 4
  | .api => 6

/-- The flags are those that `main` has not taken back, and the threads that it
has joined are done. -/
structure MainAgrees (c : Process) : Prop where
  flags : ∀ w, c.flag w = decide (c.main.rank ≤ stopRank w)
  logFlag : c.log.running = decide (c.main.rank ≤ 7)
  joined : ∀ w, joinRank w < c.main.rank → (c.worker w).isDone = true
  logJoined : 8 < c.main.rank → c.log.workerDone = true

variable {c c' : Process}

/-- `main` leaves the workers, the core and the queue alone. -/
structure MainEffect (c c' : Process) : Prop where
  agrees : MainAgrees c'
  worker : c'.worker = c.worker
  core : c'.core = c.core
  queue : c'.log.queue = c.log.queue
  logger : c'.logger = c.logger
  log : AsyncJsonlLogger.Effect c.log c.logger c'.log c'.logger none

theorem joined_succ (h : MainAgrees c) {rank : ℕ} (hrank : rank = c.main.rank + 1)
    (hdone : ∀ w, joinRank w = c.main.rank → (c.worker w).isDone = true) (w : Worker)
    (hw : joinRank w < rank) : (c.worker w).isDone = true := by
  by_cases hlt : joinRank w < c.main.rank
  · exact h.joined w hlt
  · exact hdone w (by omega)

/-- `main` goes one step on, to `pc`, with the flags that are left. -/
theorem mainEffect_succ (h : MainAgrees c) {pc : MainPc} (hpc : pc.rank = c.main.rank + 1)
    {serviceRunning wsRunning apiRunning : Bool} (hrest : serviceRunning = decide (pc.rank ≤ 1))
    (hws : wsRunning = decide (pc.rank ≤ 2)) (hapi : apiRunning = decide (pc.rank ≤ 5))
    (hlog : c.log.running = decide (pc.rank ≤ 7))
    (hdone : ∀ w, joinRank w = c.main.rank → (c.worker w).isDone = true)
    (hlogDone : c.main.rank = 8 → c.log.workerDone = true) :
    MainEffect c { c with
      main := pc
      serviceRunning := serviceRunning
      wsRunning := wsRunning
      apiRunning := apiRunning } where
  agrees := by
    refine ⟨fun w ↦ ?_, hlog, joined_succ h hpc hdone, fun hrank ↦ ?_⟩
    · cases w with
      | ws => exact hws
      | rest => exact hrest
      | api => exact hapi
    · by_cases hlt : 8 < c.main.rank
      · exact h.logJoined hlt
      · exact hlogDone (by simp only at hrank; omega)
  worker := rfl
  core := rfl
  queue := rfl
  logger := rfl
  log := .other none fun _ ↦ rfl

/-- `main` waits for no worker at this position. -/
theorem no_join {rank : ℕ} (h : rank ≠ 3 ∧ rank ≠ 4 ∧ rank ≠ 6) (w : Worker)
    (hw : joinRank w = rank) : (c.worker w).isDone = true := by
  cases w with
  | ws => exact absurd hw.symm h.1
  | rest => exact absurd hw.symm h.2.1
  | api => exact absurd hw.symm h.2.2

theorem mainStep_effect (h : MainAgrees c) (hstep : c.mainStep = some c') : MainEffect c c' := by
  have hws := h.flags .ws
  have hrest := h.flags .rest
  have hapi := h.flags .api
  have hlog := h.logFlag
  simp only [flag, stopRank] at hws hrest hapi
  have hsucc := @mainEffect_succ c h
  have hjoined := @joined_succ c h
  unfold mainStep at hstep
  cases hmain : c.main with
  | running =>
      rw [hmain] at hstep hws hrest hapi hlog hsucc
      cases hstep
      exact hsucc rfl hrest hws hapi hlog (no_join (by decide)) nofun
  | stopService =>
      rw [hmain] at hstep hws hrest hapi hlog hsucc
      rw [hrest] at hstep
      cases hstep
      exact hsucc rfl rfl hws hapi hlog (no_join (by decide)) nofun
  | stopWs =>
      rw [hmain] at hstep hws hrest hapi hlog hsucc
      rw [hws] at hstep
      cases hstep
      exact hsucc rfl hrest rfl hapi hlog (no_join (by decide)) nofun
  | joinWs =>
      rw [hmain] at hstep hws hrest hapi hlog hsucc
      simp only at hstep
      split_ifs at hstep with hdone
      cases hstep
      refine hsucc rfl hrest hws hapi hlog (fun w hw ↦ ?_) nofun
      cases w with
      | ws => exact hdone
      | rest | api => exact absurd hw (by decide)
  | joinRest =>
      rw [hmain] at hstep hws hrest hapi hlog hsucc
      simp only at hstep
      split_ifs at hstep with hdone
      cases hstep
      refine hsucc rfl hrest hws hapi hlog (fun w hw ↦ ?_) nofun
      cases w with
      | rest => exact hdone
      | ws | api => exact absurd hw (by decide)
  | stopApi =>
      rw [hmain] at hstep hws hrest hapi hlog hsucc
      rw [hapi] at hstep
      cases hstep
      exact hsucc rfl hrest hws rfl hlog (no_join (by decide)) nofun
  | joinApi =>
      rw [hmain] at hstep hws hrest hapi hlog hsucc
      simp only at hstep
      split_ifs at hstep with hdone
      cases hstep
      refine hsucc rfl hrest hws hapi hlog (fun w hw ↦ ?_) nofun
      cases w with
      | api => exact hdone
      | ws | rest => exact absurd hw (by decide)
  | stopLogger =>
      rw [hmain] at hstep hws hrest hapi hlog hjoined
      rw [hlog] at hstep
      cases hstep
      refine
        ⟨⟨fun w ↦ ?_, rfl, hjoined rfl (no_join (by decide)), nofun⟩, rfl, rfl, rfl, rfl, .stop⟩
      cases w with
      | ws => exact hws
      | rest => exact hrest
      | api => exact hapi
  | joinLogger =>
      rw [hmain] at hstep hws hrest hapi hlog hsucc
      simp only at hstep
      split_ifs at hstep with hdone
      cases hstep
      exact hsucc rfl hrest hws hapi hlog (no_join (by decide)) fun _ ↦ hdone
  | returned =>
      rw [hmain] at hstep
      cases hstep

/-! ## Every step -/

/-- The writer of the log has written or holds what the queue has taken; and
when it has found the queue empty, no worker is left to fill it. -/
structure Sound (file : Text) (taken : List (LogEvent Double)) (c : Process) : Prop where
  agrees : MainAgrees c
  log : AsyncJsonlLogger.Invariant file [] taken c.log c.logger
  drained : c.logger.drained = true → c.log.queue = []

variable {file : Text} {taken : List (LogEvent Double)}

theorem sound_start (cfg : RiskConfig Double) (file : Text) : Sound file [] (start cfg file) where
  agrees := by
    refine ⟨fun w ↦ ?_, rfl, nofun, nofun⟩
    cases w <;> rfl
  log := AsyncJsonlLogger.invariant_start file
  drained := nofun

theorem isDone_moveTo (h : (c.worker w).isDone = false) {u : Worker}
    (hu : (c.worker u).isDone = true) (pc : WorkerPc) :
    ((c.moveTo w pc).worker u).isDone = true := by
  have hne : u ≠ w := by
    rintro rfl
    rw [h] at hu
    cases hu
  rw [moveTo]
  simpa only [Function.update_of_ne hne] using hu

/-- While a worker is in its loop, the log is open and its writer in the loop. -/
theorem Sound.loop_open (h : Sound file taken c) {w : Worker} (hw : (c.worker w).isDone = false) :
    c.logger.leftLoop = false := by
  have hrank : c.main.rank ≤ joinRank w := by
    by_contra hlt
    rw [h.agrees.joined w (not_le.mp hlt)] at hw
    cases hw
  have hjoin : joinRank w ≤ 7 := by cases w <;> decide
  have hrunning : c.log.running = true := by
    rw [h.agrees.logFlag, decide_eq_true_eq]
    omega
  cases hleft : c.logger.leftLoop with
  | false => rfl
  | true =>
      rw [h.log.stopped hleft] at hrunning
      cases hrunning

theorem Sound.queue_open (h : Sound file taken c) {w : Worker} (hw : (c.worker w).isDone = false) :
    c.logger.drained = false := by
  have hopen := h.loop_open hw
  cases hpc : c.logger <;> rw [hpc] at hopen <;> first | rfl | cases hopen

/-- A worker moves on; what it does to the log is an effect on the log. -/
theorem Sound.move (h : Sound file taken c) (hw : (c.worker w).isDone = false)
    {log : AsyncJsonlLogger.Memory} {ret : Option AsyncJsonlLogger.Return}
    (heffect : AsyncJsonlLogger.Effect c.log c.logger log c.logger ret)
    (hrunning : log.running = c.log.running) (hdone : log.workerDone = c.log.workerDone)
    (core : TradingCore Double) (pc : WorkerPc) :
    Sound file (taken ++ (ret.bind (AsyncJsonlLogger.Return.event? true)).toList)
      ({ c with log := log, core := core }.moveTo w pc) where
  agrees := by
    refine ⟨fun u ↦ ?_, hrunning.trans h.agrees.logFlag,
      fun u hu ↦ isDone_moveTo hw (h.agrees.joined u hu) pc,
      fun hrank ↦ hdone.trans (h.agrees.logJoined hrank)⟩
    cases u
    · exact h.agrees.flags .ws
    · exact h.agrees.flags .rest
    · exact h.agrees.flags .api
  log := h.log.next List.nil_prefix heffect
  drained := fun hdrained ↦ by
    have hopen := h.queue_open hw
    change c.logger.drained = true at hdrained
    rw [hopen] at hdrained
    cases hdrained

theorem Sound.worker (h : Sound file taken c) (hw : (c.worker w).isDone = false)
    {note : Option Note} (heffect : WorkerEffect c w c' note) :
    Sound file (taken ++ (note.bind Note.accepted?).toList) c' := by
  cases heffect with
  | move pc => exact h.move hw (.other none fun _ ↦ rfl) rfl rfl c.core pc
  | operate _ pc => exact h.move hw (.other none fun _ ↦ rfl) rfl rfl _ pc
  | accept _ => exact h.move hw (.accept _) rfl rfl c.core _
  | @drop ev _ => exact h.move hw (.refuse ev) rfl rfl c.core _

theorem Sound.main (h : Sound file taken c) (heffect : MainEffect c c') : Sound file taken c' := by
  have hlog := h.log.next List.nil_prefix heffect.log
  rw [Option.bind_none, Option.toList_none, List.append_nil] at hlog
  refine ⟨heffect.agrees, hlog, fun hdrained ↦ ?_⟩
  rw [heffect.queue]
  exact h.drained (heffect.logger ▸ hdrained)

theorem queue_eq_nil_of_drained {spilled : ℕ} {log log' : AsyncJsonlLogger.Memory}
    {pc pc' : AsyncJsonlLogger.Pc}
    (hstep : AsyncJsonlLogger.runStep spilled log pc = some (log', pc'))
    (h : pc.drained = true → log.queue = []) (hdrained : pc'.drained = true) : log'.queue = [] := by
  cases pc with
  | draining =>
      simp only [AsyncJsonlLogger.runStep] at hstep
      cases hqueue : log.queue <;> rw [hqueue] at hstep <;> cases hstep
      · exact hqueue
      · cases hdrained
  | flushing =>
      cases hstep
      exact h rfl
  | testing =>
      cases hstep
      split_ifs at hdrained <;> cases hdrained
  | popping processed =>
      simp only [AsyncJsonlLogger.runStep] at hstep
      split_ifs at hstep
      · cases hqueue : log.queue <;> rw [hqueue] at hstep <;> cases hstep <;> cases hdrained
      · cases hstep
        cases hdrained
  | opening | writing | drainWriting | resting =>
      cases hstep
      cases hdrained
  | _ => cases hstep

theorem Sound.logger (h : Sound file taken c) {spilled : ℕ}
    (hstep : c.loggerStep spilled = some c') : Sound file taken c' := by
  obtain ⟨⟨log, pc⟩, hrun, rfl⟩ := Option.map_eq_some_iff.mp hstep
  have hspec := AsyncJsonlLogger.runStep_spec hrun
  have hlog := h.log.next List.nil_prefix (.work hrun)
  rw [Option.bind_none, Option.toList_none, List.append_nil] at hlog
  refine ⟨⟨fun w ↦ ?_, hspec.1.trans h.agrees.logFlag, h.agrees.joined, fun hrank ↦ ?_⟩, hlog,
    queue_eq_nil_of_drained hrun h.drained⟩
  · cases w
    · exact h.agrees.flags .ws
    · exact h.agrees.flags .rest
    · exact h.agrees.flags .api
  · -- a writer that is done takes no step
    have hfinished := h.log.done (h.agrees.logJoined hrank)
    exact absurd hfinished hspec.2.2.2.2.2

theorem sound_next (h : Sound file taken c) (e : ProcessEvent) :
    Sound file (taken ++ ((processMachine.out c e).bind Note.accepted?).toList)
      (processMachine.next c e) := by
  cases e with
  | main =>
      change Sound file (taken ++ []) (c.mainStep.getD c)
      rw [List.append_nil]
      cases hstep : c.mainStep with
      | none => exact h
      | some c' => exact h.main (mainStep_effect h.agrees hstep)
  | logger spilled =>
      change Sound file (taken ++ []) ((c.loggerStep spilled).getD c)
      rw [List.append_nil]
      cases hstep : c.loggerStep spilled with
      | none => exact h
      | some c' => exact h.logger hstep
  | worker w a =>
      change Sound file
        (taken ++ (((c.workerStep w a).getD (c, none)).2.bind Note.accepted?).toList)
        ((c.workerStep w a).getD (c, none)).1
      cases hstep : c.workerStep w a with
      | none =>
          change Sound file (taken ++ []) c
          rwa [List.append_nil]
      | some r =>
          obtain ⟨hw, heffect⟩ := workerStep_effect hstep
          exact h.worker hw heffect

/-! ## Runs -/

abbrev after (cfg : RiskConfig Double) (file : Text) (es : List ProcessEvent) : Process :=
  processMachine.run (start cfg file) es

/-- What is noted of the steps of a run, in order. -/
def noted {β : Type} (f : Note → Option β) (cfg : RiskConfig Double) (file : Text)
    (es : List ProcessEvent) : List β :=
  processMachine.collect (fun c e ↦ (processMachine.out c e).bind f) (start cfg file) es

theorem noted_concat {β : Type} (f : Note → Option β) (cfg : RiskConfig Double) (file : Text)
    (es : List ProcessEvent) (e : ProcessEvent) :
    noted f cfg file (es ++ [e]) =
      noted f cfg file es ++ ((processMachine.out (after cfg file es) e).bind f).toList :=
  processMachine.collect_concat _ _ _ _

/-- The events that the queue has taken. -/
abbrev accepted (cfg : RiskConfig Double) (file : Text) (es : List ProcessEvent) :
    List (LogEvent Double) :=
  noted Note.accepted? cfg file es

theorem sound_run (cfg : RiskConfig Double) (file : Text) (es : List ProcessEvent) :
    Sound file (accepted cfg file es) (after cfg file es) := by
  refine processMachine.run_history (P := fun es c ↦ Sound file (accepted cfg file es) c)
    (sound_start cfg file) (fun es e ih ↦ ?_) es
  rw [accepted, noted_concat]
  exact sound_next ih e

/-- Only a worker that `main` has not joined operates on the core. -/
theorem rank_le_of_operated (h : Sound file taken c) {e : ProcessEvent} {w : Worker}
    {op : CoreOp Double} (hout : processMachine.out c e = some (.operated w op)) :
    c.main.rank ≤ joinRank w := by
  cases e with
  | main => cases hout
  | logger spilled => cases hout
  | worker w' a =>
      change ((c.workerStep w' a).getD (c, none)).2 = _ at hout
      cases hstep : c.workerStep w' a with
      | none =>
          rw [hstep] at hout
          cases hout
      | some r =>
          obtain ⟨c', note⟩ := r
          rw [hstep, Option.getD_some] at hout
          obtain ⟨hw, heffect⟩ := workerStep_effect hstep
          simp only at hout
          rw [hout] at heffect
          cases heffect
          by_contra hlt
          rw [h.agrees.joined w (not_le.mp hlt)] at hw
          cases hw

theorem file_of_returned (cfg : RiskConfig Double) (file : Text) (es : List ProcessEvent)
    (h : (after cfg file es).main = .returned) :
    (after cfg file es).log.file = file ++ (accepted cfg file es).flatMap logLine := by
  have hsound := sound_run cfg file es
  have hfinished : (after cfg file es).logger = .finished := by
    apply hsound.log.done
    apply hsound.agrees.logJoined
    rw [h]
    decide
  obtain ⟨written, hwritten, htaken, -⟩ := hsound.log.delivered
  have hqueue := hsound.drained (by rw [hfinished]; rfl)
  have hbuffer := hsound.log.flushed hfinished
  have hhand : AsyncJsonlLogger.Pc.finished.hand = [] := rfl
  rw [AsyncJsonlLogger.Memory.stream, hbuffer, List.append_nil] at hwritten
  rw [hfinished, hqueue, hhand, List.append_nil, List.append_nil] at htaken
  rwa [htaken]

/-- Once `main` is behind `logger.stop()`, the file holds every event that the
queue has ever taken, in order; and no tick has reached the core after
`service.stop()`, and no request after `control.stop()`. -/
theorem shutdown_loses_nothing (cfg : RiskConfig Double) (file : Text) (es : List ProcessEvent)
    (h : (after cfg file es).main = .returned) :
    (after cfg file es).log.file = file ++ (accepted cfg file es).flatMap logLine ∧
    ∀ pre e post, es = pre ++ e :: post → ∀ w op,
      processMachine.out (after cfg file pre) e = some (.operated w op) →
        (after cfg file pre).main.rank ≤ joinRank w :=
  ⟨file_of_returned cfg file es h, fun pre _ _ _ _ _ hout ↦
    rank_le_of_operated (sound_run cfg file pre) hout⟩

/-- All threads run to their end once the API thread is back in its loop and
the WebSocket thread at its inner test. -/
def shutdown (logged : ℕ) : List ProcessEvent :=
  [.main, .main, .main, .worker .ws .proceed, .worker .ws .proceed, .worker .ws .proceed, .main,
    .worker .rest .proceed, .main, .main, .worker .api .proceed, .worker .api .proceed, .main,
    .main].append ((List.replicate (2 * logged + 4) (.logger 0)).append [.main])

def firstTick : List ProcessEvent :=
  [.worker .ws .proceed, .worker .ws .proceed, .worker .ws .proceed,
    .worker .ws (.message "\x7b\"s\":\"BTCUSDT\",\"p\":\"100\"\x7d" 1 2), .worker .ws .proceed]

/-- A tick and a request that cancels an unknown order, and the shutdown. -/
def shortRun : List ProcessEvent :=
  firstTick.append ([.worker .api .proceed, .worker .api .proceed,
    .worker .api (.request (some (.cancel 3 7))), .worker .api .proceed, .main,
    .worker .api (.push true), .worker .ws (.push true)].append (shutdown 2))

theorem shutdown_loses_nothing_shortRun :
    (after .default [] shortRun).log.file = [] ++ (accepted .default [] shortRun).flatMap logLine ∧
    ∀ pre e post, shortRun = pre ++ e :: post → ∀ w op,
      processMachine.out (after .default [] pre) e = some (.operated w op) →
        (after .default [] pre).main.rank ≤ joinRank w :=
  shutdown_loses_nothing .default [] shortRun (by decide +kernel)

end Process

end FrogQuant.App
