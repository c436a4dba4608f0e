import FrogQuant.App.OperatorLimits

/-!
# Many restarts

Each start reads the limits back from the text that the service before it left,
and each save prints them again, with six digits.  The limits in force do not
drift: after one round of printing and reading, a further one changes nothing.
-/

namespace FrogQuant.App

/-! ## Printing and reading again and again -/

/-- The printed limit is in the range of `std::stod`. -/
def PrintsInRange (x : Double) : Prop :=
  ∀ q, x = .finite q → Strtod.inRange (Ostream.roundSignificant q) = true

/-- `y` is `x` up to five millionths of it. -/
def NearlySame (x y : Double) : Prop :=
  match x with
  | .finite q => ∃ p, y = .finite p ∧ |p - q| ≤ |q| / 200000
  | x => y = x

theorem printsInRange_ofRat {r : ℚ}
    (h : Strtod.inRange (Ostream.roundSignificant (Binary64.nearest r)) = true) :
    PrintsInRange (ofRat r) := by
  intro q hq
  by_cases hover : Binary64.Overflows r
  · rw [Double.ofRat_of_overflows hover] at hq
    cases hq
  · rw [Double.ofRat_of_not_overflows hover] at hq
    rwa [← Double.finite.inj hq]

theorem reread_reread {x out : Double} (h : PrintsInRange x) :
    reread (reread x out) out = reread x out := by
  cases x with
  | nan => simp
  | inf neg => simp
  | finite q =>
      rw [reread_finite, if_pos (h q rfl)]
      exact reread_ofRat (Ostream.hasSixDigits_roundSignificant q) (h q rfl) out

theorem reread_of_not_inRange {x : Double} (h : ¬ PrintsInRange x) (out : Double) :
    reread x out = out := by
  simp only [PrintsInRange, not_forall] at h
  obtain ⟨q, rfl, hrange⟩ := h
  rw [reread_finite, if_neg hrange]

/-- The third round changes nothing; the first may give the configured limit
and the second print that. -/
theorem reread_third (x out : Double) :
    reread (reread (reread x out) out) out = reread (reread x out) out := by
  by_cases hx : PrintsInRange x
  · rw [reread_reread hx, reread_reread hx]
  · rw [reread_of_not_inRange hx]
    by_cases hout : PrintsInRange out
    · exact reread_reread hout
    · rw [reread_of_not_inRange hout, reread_of_not_inRange hout]

theorem nearlySame_reread {x : Double} (h : PrintsInRange x) (out : Double) :
    NearlySame x (reread x out) := by
  cases x with
  | nan => exact reread_nan out
  | inf neg => exact reread_inf neg out
  | finite q =>
      have hrange := h q rfl
      rw [reread_finite, if_pos hrange,
        Double.ofRat_of_not_overflows (not_le.mpr (Strtod.abs_lt_of_inRange hrange))]
      exact ⟨_, rfl, Ostream.abs_nearest_roundSignificant_sub_le hrange⟩

structure RiskPrintsInRange (r : RiskConfig Double) : Prop where
  notional : PrintsInRange r.maxSingleOrderNotionalUsd
  position : PrintsInRange r.maxPositionRatio
  loss : PrintsInRange r.dailyLossStopRatio

structure RiskNearlySame (r r' : RiskConfig Double) : Prop where
  notional : NearlySame r.maxSingleOrderNotionalUsd r'.maxSingleOrderNotionalUsd
  position : NearlySame r.maxPositionRatio r'.maxPositionRatio
  loss : NearlySame r.dailyLossStopRatio r'.dailyLossStopRatio

theorem rereadRisk_third (r out : RiskConfig Double) :
    rereadRisk (rereadRisk (rereadRisk r out) out) out = rereadRisk (rereadRisk r out) out := by
  rw [rereadRisk_eq_iff]
  exact ⟨reread_third _ _, reread_third _ _, reread_third _ _⟩

theorem rereadRisk_rereadRisk {r out : RiskConfig Double} (h : RiskPrintsInRange r) :
    rereadRisk (rereadRisk r out) out = rereadRisk r out := by
  rw [rereadRisk_eq_iff]
  exact ⟨reread_reread h.notional, reread_reread h.position, reread_reread h.loss⟩

theorem nearlySame_rereadRisk {r : RiskConfig Double} (h : RiskPrintsInRange r)
    (out : RiskConfig Double) : RiskNearlySame r (rereadRisk r out) :=
  ⟨nearlySame_reread h.notional _, nearlySame_reread h.position _, nearlySame_reread h.loss _⟩

/-! ## Sessions -/

/-- Every write of the state file succeeds, and no update of the limits is
accepted. -/
structure Host.KeepsLimits (h : Host) (es : List ApiEvent) : Prop where
  writable : ∀ e ∈ es, e.StateWritable
  none : apiMachine.AllSteps (fun s e ↦ ¬ s.AcceptsRiskConfig e) (.start h.started) es

/-- The service has been started again, once or more often, since it stopped on
`h` after `es`, and is on `h'` after `es'`. -/
inductive Restarted (h : Host) (es : List ApiEvent) : Host → List ApiEvent → Prop where
  | once {h' : Host} {es' : List ApiEvent} (hrestart : h'.RestartOf h (service h.started es))
      (hready : h'.Ready) (hkeeps : h'.KeepsLimits es') : Restarted h es h' es'
  | again {h' h'' : Host} {es' es'' : List ApiEvent} (hbefore : Restarted h es h' es')
      (hrestart : h''.RestartOf h' (service h'.started es')) (hready : h''.Ready)
      (hkeeps : h''.KeepsLimits es'') : Restarted h es h'' es''

/-- The limits in the state file and those in force, after a run that ended
with the limits `r` in force and in the file. -/
inductive Rounds (r out : RiskConfig Double) : RiskConfig Double → RiskConfig Double → Prop where
  | read : Rounds r out r (rereadRisk r out)
  | saved : Rounds r out (rereadRisk r out) (rereadRisk r out)
  | readAgain : Rounds r out (rereadRisk r out) (rereadRisk (rereadRisk r out) out)
  | savedAgain :
      Rounds r out (rereadRisk (rereadRisk r out) out) (rereadRisk (rereadRisk r out) out)

variable {r out inFile inForce : RiskConfig Double}

theorem Rounds.save (h : Rounds r out inFile inForce) : Rounds r out inForce inForce := by
  cases h with
  | read => exact .saved
  | saved => exact .saved
  | readAgain => exact .savedAgain
  | savedAgain => exact .savedAgain

theorem Rounds.restart (h : Rounds r out inFile inForce) :
    Rounds r out inFile (rereadRisk inFile out) := by
  cases h with
  | read => exact .read
  | saved => exact .readAgain
  | readAgain => exact .readAgain
  | savedAgain =>
      rw [rereadRisk_third]
      exact .savedAgain

theorem Rounds.inForce_eq (h : Rounds r out inFile inForce) :
    inForce = rereadRisk r out ∨ inForce = rereadRisk (rereadRisk r out) out := by
  cases h with
  | read => exact Or.inl rfl
  | saved => exact Or.inl rfl
  | readAgain => exact Or.inr rfl
  | savedAgain => exact Or.inr rfl

/-- The file holds the switch in force, and its limits and those in force are
from the rounds of `r`. -/
def ApiState.InRounds (r out : RiskConfig Double) (s : ApiState) : Prop :=
  ∃ inFile, s.runtimeStateFile = some (runtimeStateText s.strategyEnabled inFile) ∧
    Rounds r out inFile s.riskCfg

theorem ApiState.inRounds_next {s : ApiState} {e : ApiEvent} (h : s.InRounds r out)
    (hwritable : e.StateWritable) (hnone : ¬ s.AcceptsRiskConfig e) :
    (apiMachine.next s e).InRounds r out := by
  obtain ⟨inFile, hfile, hrounds⟩ := h
  rcases saves_or_same hwritable with hsaves | ⟨hswitch, hrisk, hsame⟩
  · refine ⟨(apiMachine.next s e).riskCfg, fileCurrent_of_saves hsaves, ?_⟩
    rw [riskCfg_next_of_not_accepts hnone]
    exact hrounds.save
  · refine ⟨inFile, ?_, ?_⟩
    · rw [hsame, hswitch, hfile]
    · rwa [hrisk]

theorem Host.KeepsLimits.inRounds {h : Host} {es : List ApiEvent} (hkeeps : h.KeepsLimits es)
    (hstart : (ApiState.start h.started).InRounds r out) : (service h.started es).InRounds r out :=
  Machine.AllSteps.run_invariant apiMachine (P := ApiState.InRounds r out)
    (fun _ _ hs he ↦ ApiState.inRounds_next hs he.1 he.2)
    ((apiMachine.allSteps_and).mpr
      ⟨apiMachine.allSteps_of_forall_mem hkeeps.writable _, hkeeps.none⟩)
    hstart

/-- What a start finds in the state file. -/
theorem Host.RestartOf.start_eq {h h' : Host} {s : ApiState} (hrestart : h'.RestartOf h s)
    {en : Bool} (hfile : s.runtimeStateFile = some (runtimeStateText en inFile)) :
    (ApiState.start h'.started).strategyEnabled = en ∧
      (ApiState.start h'.started).riskCfg = rereadRisk inFile h.riskCfg ∧
      (ApiState.start h'.started).runtimeStateFile = some (runtimeStateText en inFile) := by
  have hstate : h'.file h'.config.runtimeStatePath = some (runtimeStateText en inFile) := by
    rw [hrestart.config_eq, hrestart.state, hfile]
  have hinit : h'.initialState = (en, rereadRisk inFile h.riskCfg) := by
    rw [initialState, hstate, loadRuntimeState_runtimeStateText, hrestart.riskCfg_eq]
  exact ⟨congrArg Prod.fst hinit, congrArg Prod.snd hinit, hstate⟩

theorem Host.RestartOf.inRounds {h h' : Host} {s : ApiState} (hrestart : h'.RestartOf h s)
    (hs : s.InRounds r h.riskCfg) : (ApiState.start h'.started).InRounds r h.riskCfg := by
  obtain ⟨inFile, hfile, hrounds⟩ := hs
  obtain ⟨hswitch, hrisk, hstate⟩ := hrestart.start_eq hfile
  exact ⟨inFile, hswitch ▸ hstate, hrisk ▸ hrounds.restart⟩

theorem Restarted.inRounds {h h' : Host} {es es' : List ApiEvent} (hlater : Restarted h es h' es')
    (hcurrent : (service h.started es).FileCurrent) :
    h'.riskCfg = h.riskCfg ∧
      (service h'.started es').InRounds (service h.started es).riskCfg h.riskCfg := by
  induction hlater with
  | once hrestart hready hkeeps =>
      obtain ⟨hswitch, hrisk, hstate⟩ := hrestart.start_eq hcurrent
      exact ⟨hrestart.riskCfg_eq,
        hkeeps.inRounds ⟨_, hswitch ▸ hstate, hrisk ▸ .read⟩⟩
  | again hbefore hrestart hready hkeeps ih =>
      obtain ⟨hcfg, hrounds⟩ := ih
      rw [← hcfg] at hrounds
      have hstart := hrestart.inRounds hrounds
      rw [hcfg] at hstart
      exact ⟨hrestart.riskCfg_eq.trans hcfg, hkeeps.inRounds hstart⟩

/-- After a run that saved, at any moment after any number of restarts, the
limits in force are those of the run printed and read once or twice, and further
rounds change nothing; once is all where the printed limits can be read, and
then they are those of the run up to five millionths.  The next start finds the
switch as it is. -/
theorem limits_settle {h : Host} {b : Startup} (hstart : h.startup = .ok b) {es : List ApiEvent}
    (hwritable : ∀ e ∈ es, e.StateWritable)
    (hsaved : ¬ apiMachine.AllSteps (fun s e ↦ ¬ s.Saves e) (.start b) es) {h' : Host}
    {es' : List ApiEvent} (hlater : Restarted h es h' es') :
    let r := (service b es).core.risk
    let once := rereadRisk r h.riskCfg
    let twice := rereadRisk once h.riskCfg
    let limits := (service h'.started es').core.risk
    ((limits = once ∨ limits = twice) ∧ rereadRisk twice h.riskCfg = twice) ∧
      (RiskPrintsInRange r → limits = once ∧ RiskNearlySame r limits) ∧
      ∀ next : Host, next.RestartOf h' (service h'.started es') →
        (service next.started []).strategyEnabled = (service h'.started es').strategyEnabled := by
  intro r once twice limits
  obtain ⟨-, rfl⟩ := (h.startup_eq_ok_iff b).mp hstart
  have hcurrent : (service h.started es).FileCurrent := ApiState.fileCurrent_run hwritable hsaved
  obtain ⟨-, inFile, hfile, hrounds⟩ := hlater.inRounds hcurrent
  rw [riskAgrees, riskAgrees] at hrounds
  have hlimits : limits = once ∨ limits = twice := hrounds.inForce_eq
  refine ⟨⟨hlimits, rereadRisk_third _ _⟩, fun hrange ↦ ?_, fun next hnext ↦ ?_⟩
  · have htwice : twice = once := rereadRisk_rereadRisk hrange
    have honce : limits = once := hlimits.elim id fun h ↦ h.trans htwice
    exact ⟨honce, honce ▸ nearlySame_rereadRisk hrange _⟩
  · exact (hnext.start_eq hfile).1

/-- The bare host after a ratio of seven digits, a restart, the switch and one
more stop. -/
def twiceLeft : Host :=
  { bareHost with
    file := fun path ↦
      if path = "config/runtime_state.json".toList then
        (service (leftHost (setRatio "0.1234567")).started toggle).runtimeStateFile
      else none }

theorem keepsLimits_toggle (h : Host) : h.KeepsLimits toggle where
  writable e he := by
    obtain rfl := List.mem_singleton.mp he
    rfl
  none := ⟨fun haccepts ↦ absurd haccepts.1 (by decide +kernel), trivial⟩

theorem restarted_twiceLeft : Restarted bareHost (setRatio "0.1234567") twiceLeft [] := by
  have hleft := leftHost_restartOf (setRatio "0.1234567")
  have hready := ((leftHost (setRatio "0.1234567")).startup_eq_ok_iff _).mp (leftHost_startup _)
  have hrestart : twiceLeft.RestartOf (leftHost (setRatio "0.1234567"))
      (service (leftHost (setRatio "0.1234567")).started toggle) :=
    ⟨rfl, by decide +kernel, by decide +kernel⟩
  exact .again (.once hleft hready.1 (keepsLimits_toggle _)) hrestart
    ⟨rfl, Or.inl (by decide +kernel)⟩ ⟨fun e he ↦ absurd he List.not_mem_nil, trivial⟩

theorem limits_settle_sevenDigits :
    (service twiceLeft.started []).core.risk.maxPositionRatio = lit 0.123457 := by
  have hwritable : ∀ e ∈ setRatio "0.1234567", e.StateWritable := by
    intro e he
    obtain rfl := List.mem_singleton.mp he
    rfl
  have hsaved : ¬ apiMachine.AllSteps (fun s e ↦ ¬ s.Saves e) (.start bareHost.started)
      (setRatio "0.1234567") := by
    intro hnone
    exact hnone.1 (by decide +kernel)
  have hrisk : (service bareHost.started (setRatio "0.1234567")).core.risk =
      ⟨lit 10, lit 0.1234567, lit 0.05⟩ := by decide +kernel
  have hsettled := (limits_settle bareHost_startup hwritable hsaved restarted_twiceLeft).2.1
  rw [hrisk] at hsettled
  have hrange : RiskPrintsInRange ⟨lit 10, lit 0.1234567, lit 0.05⟩ :=
    ⟨printsInRange_ofRat (by decide +kernel), printsInRange_ofRat (by decide +kernel),
      printsInRange_ofRat (by decide +kernel)⟩
  rw [(hsettled hrange).1]
  decide +kernel

end FrogQuant.App
