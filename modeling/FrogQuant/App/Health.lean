import FrogQuant.App.Settings
import FrogQuant.Lib.Threads

/-!
# The health check

`GET /health` compares the clock with the time of the last tick.  The two are
read one after the other, while tick handlers store what they have read of the
clock; a tick time of zero stands for no tick.
-/

namespace FrogQuant.App

open Json

/-! ## The answer of the check -/

namespace ApiState

theorem sub64_of_le {a b : ℕ} (hba : b ≤ a) (ha : a < 2 ^ 64) : sub64 a b = a - b := by
  rw [sub64, Nat.mod_eq_of_lt (hba.trans_lt ha)]
  omega

/-- `static_cast<uint64_t>(sec) * 1000ULL`. -/
def thresholdMs (sec : ℤ) : ℕ := (sec % 2 ^ 64).toNat * 1000 % 2 ^ 64

theorem thresholdMs_le {sec : ℤ} (h : 0 ≤ sec) : (thresholdMs sec : ℤ) ≤ sec * 1000 := by
  have hmod : sec % 2 ^ 64 ≤ sec := by omega
  have hle : thresholdMs sec ≤ (sec % 2 ^ 64).toNat * 1000 := Nat.mod_le _ _
  omega

theorem thresholdMs_eq {sec : ℤ} (h : 0 ≤ sec) (hsec : sec < 2 ^ 31) :
    (thresholdMs sec : ℤ) = sec * 1000 := by
  have hmod : sec % 2 ^ 64 = sec := Int.emod_eq_of_lt h (hsec.trans (by norm_num))
  have hlt : sec.toNat * 1000 < 2 ^ 64 := by omega
  rw [thresholdMs, hmod, Nat.mod_eq_of_lt hlt]
  omega

variable (s : ApiState) (env : RequestEnv)

def staleTick (nowMs : ℕ) : Bool :=
  decide (0 < s.lastTickMs) &&
    decide (thresholdMs s.cfg.healthUnhealthyAfterNoTickSec < sub64 nowMs s.lastTickMs)

/-- What `GET /health` answers when it has found the last tick stale, or not. -/
def healthReply (stale : Bool) : Reply :=
  .of (if stale then 503 else 200) <| object
    [member "ok" (Ostream.showBool !stale),
      member "api_version" (quoted "v1.2"),
      member "core" (quoted "running"),
      member "dry_run" (Ostream.showBool s.execCfg.dryRun),
      member "uptime_sec" (Decimal.showNat (sub64 env.nowMs s.startMs / 1000)),
      member "tick_count" (Decimal.showNat s.tickCount),
      member "last_tick_ms" (Decimal.showNat s.lastTickMs),
      member "strategy_enabled" (Ostream.showBool s.strategyEnabled),
      member "stale_tick" (Ostream.showBool stale)]

theorem getHealth_eq : s.getHealth env = s.healthReply env (s.staleTick env.nowMs) := by
  rw [getHealth, healthReply, staleTick, thresholdMs]
  cases decide (0 < s.lastTickMs) &&
      decide ((s.cfg.healthUnhealthyAfterNoTickSec % 2 ^ 64).toNat * 1000 % 2 ^ 64 <
        sub64 env.nowMs s.lastTickMs) <;> rfl

@[simp] theorem healthReply_status (stale : Bool) :
    (s.healthReply env stale).status = if stale then 503 else 200 := rfl

theorem healthReply_inj {stale stale' : Bool}
    (h : s.healthReply env stale = s.healthReply env stale') : stale = stale' := by
  have hstatus := congrArg Reply.status h
  rw [healthReply_status, healthReply_status] at hstatus
  cases stale <;> cases stale' <;> simp at hstatus ⊢

variable {s} {nowMs : ℕ} (hN : 0 ≤ s.cfg.healthUnhealthyAfterNoTickSec)
  (hle : s.lastTickMs ≤ nowMs) (hnow : nowMs < 2 ^ 64)
include hN hle hnow

/-- A tick no older than the threshold is not stale. -/
theorem staleTick_eq_false (hint : s.cfg.healthUnhealthyAfterNoTickSec < 2 ^ 31)
    (hfresh : (nowMs : ℤ) ≤ s.lastTickMs + s.cfg.healthUnhealthyAfterNoTickSec * 1000) :
    s.staleTick nowMs = false := by
  have hthreshold := thresholdMs_eq hN hint
  have hnot : ¬ thresholdMs s.cfg.healthUnhealthyAfterNoTickSec < sub64 nowMs s.lastTickMs := by
    rw [sub64_of_le hle hnow]
    omega
  simp [staleTick, hnot]

/-- A tick older than the threshold is stale, if it was not read off at zero. -/
theorem staleTick_eq_true (hpos : 0 < s.lastTickMs)
    (hover : s.cfg.healthUnhealthyAfterNoTickSec * 1000 < (nowMs : ℤ) - s.lastTickMs) :
    s.staleTick nowMs = true := by
  have hthreshold := thresholdMs_le hN
  have hlt : thresholdMs s.cfg.healthUnhealthyAfterNoTickSec < sub64 nowMs s.lastTickMs := by
    rw [sub64_of_le hle hnow]
    omega
  simp [staleTick, hpos, hlt]

end ApiState

/-! ## Outages -/

namespace ApiState

variable (s : ApiState)

theorem requestEffect_ne_tick (env : RequestEnv) (body : Text) (route : Option Route) (nowMs : ℕ)
    (t : MarketTick Double) : s.requestEffect env body route ≠ .tick nowMs t := by
  intro htick
  have hroute : route = none := by
    rcases s.requestEffect_cases env body route with hnothing | hroute
    · cases hnothing.symm.trans htick
    · rw [← hroute, htick]
      rfl
  subst hroute
  cases htick

/-- The tick time is that of the last tick. -/
theorem lastTickMs_next (e : ApiEvent) :
    (apiMachine.next s e).lastTickMs =
      match e with
      | .tick nowMs _ => nowMs
      | .request _ _ => s.lastTickMs := by
  rw [(s.next_eq e).congr lastTickMs fun _ _ ↦ rfl]
  cases e with
  | tick nowMs t => rfl
  | request env req =>
      rw [effect]
      cases heffect : s.requestEffect env req.body (Route.of req.method req.target) with
      | tick nowMs t => exact absurd heffect (s.requestEffect_ne_tick _ _ _ _ _)
      | _ => rfl

end ApiState

def ApiEvent.clockMs : ApiEvent → ℕ
  | .request env _ => env.nowMs
  | .tick nowMs _ => nowMs

def ApiEvent.tickMs? : ApiEvent → Option ℕ
  | .request _ _ => none
  | .tick nowMs _ => some nowMs

theorem ApiEvent.clockMs_of_tickMs? {e : ApiEvent} {ms : ℕ} (h : e.tickMs? = some ms) :
    e.clockMs = ms := by
  cases e with
  | request env req => cases h
  | tick nowMs t => exact Option.some.inj h

/-- When the last tick arrived, if one has. -/
def lastTickAt (es : List ApiEvent) : Option ℕ := (es.filterMap ApiEvent.tickMs?).getLast?

theorem service_lastTickMs (b : Startup) (es : List ApiEvent) :
    (service b es).lastTickMs = (lastTickAt es).getD 0 := by
  refine apiMachine.run_history (P := fun es s ↦ s.lastTickMs = (lastTickAt es).getD 0) rfl
    (fun es e ih ↦ ?_) es
  rw [ApiState.lastTickMs_next, lastTickAt, List.filterMap_append]
  cases e with
  | tick nowMs t => simp [ApiEvent.tickMs?]
  | request env req =>
      rw [List.filterMap_cons_none rfl, List.filterMap_nil, List.append_nil]
      exact ih

/-- The start-up time and the times of all events are read off one clock of
64 bits, which never goes back. -/
structure UnderOneClock (b : Startup) (es : List ApiEvent) : Prop where
  nondecreasing : (b.startMs :: es.map ApiEvent.clockMs).Pairwise (· ≤ ·)
  fits : ∀ e ∈ es, e.clockMs < 2 ^ 64

/-- More time than the threshold has passed since the last tick, or since the
start if no tick has arrived. -/
def Overdue (b : Startup) (es : List ApiEvent) (nowMs : ℕ) : Prop :=
  b.cfg.healthUnhealthyAfterNoTickSec * 1000 < (nowMs : ℤ) - (lastTickAt es).getD b.startMs

instance (b : Startup) (es : List ApiEvent) (nowMs : ℕ) : Decidable (Overdue b es nowMs) :=
  inferInstanceAs (Decidable (_ < _))

def healthRequest (env : RequestEnv) (body : Text) : ApiEvent :=
  .request env ⟨"GET", "/health", body⟩

theorem out_healthRequest (s : ApiState) (env : RequestEnv) (body : Text) :
    apiMachine.out s (healthRequest env body) = some (s.getHealth env) := rfl

/-- Earlier ticks were not read off later. -/
theorem lastTickAt_le {b : Startup} {es post : List ApiEvent} {e : ApiEvent} {ms : ℕ}
    (h : UnderOneClock b (es ++ e :: post)) (hms : lastTickAt es = some ms) : ms ≤ e.clockMs := by
  obtain ⟨tick, htick, hclock⟩ := List.mem_filterMap.mp (List.mem_of_getLast? hms)
  have hpairs := (List.pairwise_cons.mp h.nondecreasing).2
  rw [List.map_append, List.pairwise_append] at hpairs
  rw [← ApiEvent.clockMs_of_tickMs? hclock]
  exact hpairs.2.2 _ (List.mem_map_of_mem htick) _ (List.mem_cons_self ..)

/-- Every check that is overdue answers 503. -/
def ReportsOutages (b : Startup) (es : List ApiEvent) : Prop :=
  ∀ pre env body post, es = pre ++ healthRequest env body :: post → Overdue b pre env.nowMs →
    apiMachine.out (service b pre) (healthRequest env body) =
      some ((service b pre).healthReply env true)

/-- A tick has arrived before each check that is overdue. -/
def TickBeforeOutages (b : Startup) (es : List ApiEvent) : Prop :=
  ∀ pre env body post, es = pre ++ healthRequest env body :: post → Overdue b pre env.nowMs →
    ∃ ms, lastTickAt pre = some ms ∧ 0 < ms

theorem lastTickMs_pos_iff (b : Startup) (es : List ApiEvent) :
    0 < (service b es).lastTickMs ↔ ∃ ms, lastTickAt es = some ms ∧ 0 < ms := by
  rw [service_lastTickMs]
  cases lastTickAt es with
  | none => simp
  | some ms => simp

/-- An overdue check finds the last tick stale, if there is one. -/
theorem staleTick_iff_of_overdue {b : Startup} {pre post : List ApiEvent} {env : RequestEnv}
    {body : Text} (hN : 0 ≤ b.cfg.healthUnhealthyAfterNoTickSec)
    (hclock : UnderOneClock b (pre ++ healthRequest env body :: post))
    (hover : Overdue b pre env.nowMs) :
    (service b pre).staleTick env.nowMs = true ↔ ∃ ms, lastTickAt pre = some ms ∧ 0 < ms := by
  rw [← lastTickMs_pos_iff b]
  constructor
  · intro hstale
    simpa using (Bool.and_eq_true_iff.mp hstale).1
  · intro hpos
    obtain ⟨ms, hms, -⟩ := (lastTickMs_pos_iff b pre).mp hpos
    have hlast : (service b pre).lastTickMs = ms := by
      rw [service_lastTickMs, hms, Option.getD_some]
    rw [Overdue, hms, Option.getD_some] at hover
    apply ApiState.staleTick_eq_true
    · rwa [service_cfg]
    · rw [hlast]
      exact lastTickAt_le hclock hms
    · exact hclock.fits (healthRequest env body) (by simp)
    · exact hpos
    · rwa [service_cfg, hlast]

theorem outage_reported_iff (b : Startup) (es : List ApiEvent)
    (hN : 0 ≤ b.cfg.healthUnhealthyAfterNoTickSec) (hclock : UnderOneClock b es) :
    ReportsOutages b es ↔ TickBeforeOutages b es := by
  refine forall_congr' fun pre ↦ forall_congr' fun env ↦ forall_congr' fun body ↦
    forall_congr' fun post ↦ forall_congr' fun hes ↦ forall_congr' fun hover ↦ ?_
  subst hes
  rw [out_healthRequest, ApiState.getHealth_eq, ← staleTick_iff_of_overdue hN hclock hover]
  constructor
  · intro hreply
    exact ApiState.healthReply_inj _ _ (Option.some.inj hreply)
  · intro hstale
    rw [hstale]

def btcTick (ms : ℕ) : MarketTick Double := ⟨"BTCUSDT", lit 60000, ms, ms, .webSocket⟩

/-- A tick, and a check 20 s later. -/
theorem outage_reported_iff_feed_stops :
    ReportsOutages liveStartup [.tick 1000 (btcTick 1000), healthRequest (quietEnv 21000) []] := by
  refine (outage_reported_iff liveStartup _ (by decide)
    ⟨by decide +kernel, by simp [healthRequest, ApiEvent.clockMs, quietEnv]⟩).mpr ?_
  intro pre env body post hes _
  rcases pre with _ | ⟨first, pre⟩
  · cases (List.cons.inj hes).1
  · obtain ⟨rfl, hrest⟩ := List.cons.inj hes
    obtain ⟨rfl, -, -⟩ := List.singleton_eq_append_iff.mp hrest |>.resolve_right (by simp)
    exact ⟨1000, rfl, by decide⟩

/-- Without a tick the check answers 200 for good. -/
theorem missing_feed_not_reported :
    ¬ ∀ (b : Startup) (es : List ApiEvent), 0 ≤ b.cfg.healthUnhealthyAfterNoTickSec →
      UnderOneClock b es → ReportsOutages b es := by
  intro h
  have hreply := h liveStartup [healthRequest (quietEnv 20000) []] (by decide)
    ⟨by decide +kernel, by simp [healthRequest, ApiEvent.clockMs, quietEnv]⟩ [] (quietEnv 20000)
    [] [] rfl (by decide)
  have hstatus : (200 : ℕ) = 503 := congrArg (fun r ↦ (r.map Reply.status).getD 0) hreply
  exact absurd hstatus (by decide)

/-! ## Interleavings -/

inductive HealthThread where
  | tick (source : TickSource)
  | api
  | clock
  deriving DecidableEq

/-- Where a thread stands: it has read the clock for a tick, or for a check. -/
inductive HealthPc where
  | idle
  | tickRead (ms : ℕ)
  | checkRead (ms : ℕ)
  deriving DecidableEq

inductive HealthAction where
  | readClock
  | storeTick
  | loadTick (env : RequestEnv)
  | advance (ms : ℕ)

structure HealthMemory where
  clockMs : ℕ
  service : ApiState

/-- The atomic steps of the tick handlers and of `GET /health`, which gives its
reply; the clock of 64 bits goes forward. -/
def healthProgram : Program HealthThread HealthMemory HealthPc HealthAction (Option Reply) where
  step t a s pc :=
    match t, a, pc with
    | .tick _, .readClock, .idle =>
        some ({ s with service := { s.service with tickCount := s.service.tickCount + 1 } },
          .tickRead s.clockMs, none)
    | .tick _, .storeTick, .tickRead ms =>
        some ({ s with service := { s.service with lastTickMs := ms } }, .idle, none)
    | .api, .readClock, .idle => some (s, .checkRead s.clockMs, none)
    | .api, .loadTick env, .checkRead ms =>
        some (s, .idle, some (s.service.getHealth { env with nowMs := ms }))
    | .clock, .advance ms, pc =>
        if s.clockMs + ms < 2 ^ 64 then some ({ s with clockMs := s.clockMs + ms }, pc, none)
        else none
    | _, _, _ => none

abbrev HealthCheck := Threads HealthThread HealthMemory HealthPc

namespace HealthCheck

def start (b : Startup) : HealthCheck where
  shared := ⟨b.startMs, .start b⟩
  locals := fun _ ↦ .idle

/-- When a check loads the tick time, it finds a tick that is no older than the
threshold fresh, and the age it computes is the difference of the two times. -/
def NoFalseAlarm (c : HealthCheck) (e : HealthThread × HealthAction) : Prop :=
  ∀ env ms, e = (.api, .loadTick env) → c.locals .api = .checkRead ms →
    ((c.shared.clockMs : ℤ) ≤ c.shared.service.lastTickMs +
        c.shared.service.cfg.healthUnhealthyAfterNoTickSec * 1000 →
      healthProgram.machine.out c e =
        some (some (c.shared.service.healthReply { env with nowMs := ms } false))) ∧
    (ApiState.sub64 ms c.shared.service.lastTickMs : ℤ) = ms - c.shared.service.lastTickMs

/-- No tick handler stores a later time than the one that a check in progress
has read. -/
def StoresNoLaterTick (c : HealthCheck) (e : HealthThread × HealthAction) : Prop :=
  ∀ source tickMs ms, e = (.tick source, .storeTick) →
    c.locals (.tick source) = .tickRead tickMs → c.locals .api = .checkRead ms → tickMs ≤ ms

/-! ## No time is ahead of the clock -/

structure ClockBounds (cfg : AppConfig) (s : HealthMemory) : Prop where
  cfg_eq : s.service.cfg = cfg
  lastTick_le : s.service.lastTickMs ≤ s.clockMs
  fits : s.clockMs < 2 ^ 64

/-- What a thread has read of the clock is not ahead of it, and the last tick
not ahead of what a check has read. -/
def ReadBounds : HealthThread → HealthMemory → HealthPc → Prop
  | .api, s, .checkRead ms => s.service.lastTickMs ≤ ms ∧ ms ≤ s.clockMs
  | _, _, .checkRead _ => False
  | _, s, .tickRead ms => ms ≤ s.clockMs
  | _, _, .idle => True

theorem ReadBounds.mono {t : HealthThread} {s s' : HealthMemory} {pc : HealthPc}
    (h : ReadBounds t s pc) (hclock : s.clockMs ≤ s'.clockMs)
    (htick : ∀ ms, t = .api → pc = .checkRead ms → s.service.lastTickMs ≤ ms →
      s'.service.lastTickMs ≤ ms) : ReadBounds t s' pc := by
  cases pc with
  | idle => cases t <;> trivial
  | tickRead ms =>
      have hms : ms ≤ s.clockMs := by cases t <;> exact h
      cases t <;> exact hms.trans hclock
  | checkRead ms =>
      cases t with
      | api => exact ⟨htick ms rfl rfl h.1, h.2.trans hclock⟩
      | _ => exact h

theorem ReadBounds.forward {t : HealthThread} {s s' : HealthMemory} {pc : HealthPc}
    (h : ReadBounds t s pc) (hclock : s.clockMs ≤ s'.clockMs)
    (htick : s'.service.lastTickMs = s.service.lastTickMs) : ReadBounds t s' pc :=
  h.mono hclock fun _ _ _ hle ↦ htick.trans_le hle

variable {cfg : AppConfig} {c : HealthCheck}

theorem holds_next (h : Program.Holds (ClockBounds cfg) ReadBounds c)
    (e : HealthThread × HealthAction) (hlater : c.StoresNoLaterTick e) :
    Program.Holds (ClockBounds cfg) ReadBounds (healthProgram.machine.next c e) := by
  obtain ⟨t, a⟩ := e
  obtain ⟨⟨hcfg, hlast, hfits⟩, hlocals⟩ := h
  refine healthProgram.holds_next ⟨⟨hcfg, hlast, hfits⟩, hlocals⟩ t a fun s' pc' o hstep ↦ ?_
  have hpc := hlocals t
  simp only [healthProgram] at hstep
  split at hstep
  case h_1 source hidle =>
    cases hstep
    exact ⟨⟨hcfg, hlast, hfits⟩, le_refl c.shared.clockMs,
      fun u _ ↦ (hlocals u).forward le_rfl rfl⟩
  case h_2 source tickMs htick =>
    -- the stored time is not ahead of the clock, nor of what a check has read
    cases hstep
    rw [htick] at hpc
    exact ⟨⟨hcfg, hpc, hfits⟩, trivial, fun u _ ↦ (hlocals u).mono le_rfl fun ms hapi hcheck _ ↦
      hlater source tickMs ms rfl htick (hapi ▸ hcheck)⟩
  case h_3 hidle =>
    cases hstep
    exact ⟨⟨hcfg, hlast, hfits⟩, ⟨hlast, le_refl c.shared.clockMs⟩,
      fun u _ ↦ (hlocals u).forward le_rfl rfl⟩
  case h_4 env ms hcheck =>
    cases hstep
    exact ⟨⟨hcfg, hlast, hfits⟩, trivial, fun u _ ↦ hlocals u⟩
  case h_5 ms =>
    split_ifs at hstep with hlt
    cases hstep
    have hforward : c.shared.clockMs ≤ c.shared.clockMs + ms := Nat.le_add_right _ _
    exact ⟨⟨hcfg, hlast.trans hforward, hlt⟩, hpc.forward hforward rfl,
      fun u _ ↦ (hlocals u).forward hforward rfl⟩
  case h_6 => cases hstep

theorem noFalseAlarm_of_holds (hN : 0 ≤ cfg.healthUnhealthyAfterNoTickSec)
    (hint : cfg.healthUnhealthyAfterNoTickSec < 2 ^ 31)
    (h : Program.Holds (ClockBounds cfg) ReadBounds c) (e : HealthThread × HealthAction) :
    c.NoFalseAlarm e := by
  rintro env ms rfl hcheck
  obtain ⟨⟨hcfg, -, hfits⟩, hlocals⟩ := h
  have hread := hlocals .api
  rw [hcheck] at hread
  obtain ⟨hle, hclock⟩ : c.shared.service.lastTickMs ≤ ms ∧ ms ≤ c.shared.clockMs := hread
  have hms : ms < 2 ^ 64 := hclock.trans_lt hfits
  refine ⟨fun hfresh ↦ ?_, ?_⟩
  · have hstale : c.shared.service.staleTick ms = false := by
      apply ApiState.staleTick_eq_false
      · rwa [hcfg]
      · exact hle
      · exact hms
      · rwa [hcfg]
      · exact le_trans (Int.ofNat_le.mpr hclock) hfresh
    simp only [Machine.out, Program.machine, healthProgram, hcheck, ApiState.getHealth_eq, hstale]
  · rw [ApiState.sub64_of_le hle hms, Nat.cast_sub hle]

/-- In every interleaving in which no tick handler stores, while a check is in
progress, a later time than the check has read, the check raises no false
alarm. -/
theorem health_no_false_alarm (b : Startup) (hN : 0 ≤ b.cfg.healthUnhealthyAfterNoTickSec)
    (hint : b.cfg.healthUnhealthyAfterNoTickSec < 2 ^ 31) (hstart : b.startMs < 2 ^ 64)
    (es : List (HealthThread × HealthAction))
    (hlater : healthProgram.machine.AllSteps StoresNoLaterTick (start b) es) :
    healthProgram.machine.AllSteps NoFalseAlarm (start b) es := by
  refine Machine.AllSteps.imp_of_invariant _ (Program.Holds (ClockBounds b.cfg) ReadBounds)
    (fun c e h hstores ↦ ⟨holds_next h e hstores, noFalseAlarm_of_holds hN hint h e⟩)
    ⟨⟨rfl, Nat.zero_le _, hstart⟩, fun t ↦ ?_⟩ hlater
  cases t <;> trivial

/-- A tick that is read and stored before the check begins. -/
theorem health_no_false_alarm_tick_before_check :
    healthProgram.machine.AllSteps NoFalseAlarm (start liveStartup)
      [(.clock, .advance 1000), (.tick .webSocket, .readClock), (.tick .webSocket, .storeTick),
        (.api, .readClock), (.clock, .advance 1), (.api, .loadTick (quietEnv 0))] := by
  apply health_no_false_alarm
  · decide
  · decide
  · decide
  · exact ⟨nofun, nofun, nofun, nofun, nofun, nofun, trivial⟩

/-- A tick one millisecond later, stored between the two steps of the check. -/
theorem fresh_tick_raises_alarm :
    ¬ ∀ (b : Startup) (es : List (HealthThread × HealthAction)),
      0 ≤ b.cfg.healthUnhealthyAfterNoTickSec → b.cfg.healthUnhealthyAfterNoTickSec < 2 ^ 31 →
        b.startMs < 2 ^ 64 → healthProgram.machine.AllSteps NoFalseAlarm (start b) es := by
  intro h
  have hall := h liveStartup
    [(.api, .readClock), (.clock, .advance 1), (.tick .webSocket, .readClock),
      (.tick .webSocket, .storeTick), (.api, .loadTick (quietEnv 0))]
    (by decide) (by decide) (by decide)
  have hreply := (hall.2.2.2.2.1 (quietEnv 0) 0 rfl (by decide +kernel)).1 (by decide +kernel)
  have hstatus : (503 : ℕ) = 200 :=
    congrArg (fun o ↦ ((o.getD none).map Reply.status).getD 0) hreply
  exact absurd hstatus (by decide)

end HealthCheck

end FrogQuant.App
