import FrogQuant.App.Settings
import FrogQuant.Lib.Significant

/-!
# The runtime state over a restart

`save_runtime_state` prints the switch of the strategy and the three limits,
with six significant digits each; the next start reads them back and lets them
override the configuration file.
-/

namespace FrogQuant.App

open Json

/-! ## Reading the file back -/

theorem findNum_of_followsKey {s key v rest : Text} {c : Char}
    (hc : c ∈ [',', '\x7d']) (hv : ∀ d ∈ [',', '\x7d'], d ∉ v)
    (h : FollowsKey key s (v ++ c :: rest)) : findNum s key = Strtod.stod v := by
  obtain ⟨n, hn, hdrop⟩ := h
  have hstop := Text.findFirstOf_append hdrop (fun d hd hmem ↦ hv d hmem hd) hc
  simp only [findNum, stateToken, Text.find_zero, hn, Option.bind_eq_bind, Option.bind_some,
    hstop, hdrop, Text.substr, Nat.add_sub_cancel_left, List.take_left]

theorem findBool_of_followsKey {s key rest : Text} {b : Bool}
    (h : FollowsKey key s (Ostream.showBool b ++ rest)) (out : Bool) : findBool s key out = b := by
  obtain ⟨n, hn, hdrop⟩ := h
  simp only [findBool, stateToken, Text.find_zero, hn, Text.substr, hdrop]
  cases b <;> rfl

/-- The file, key by key. -/
theorem runtimeStateText_eq (en : Bool) (r : RiskConfig Double) :
    runtimeStateText en r =
      ['\x7b'] ++ (quoted "strategy_enabled" ++ ':' :: (Ostream.showBool en ++ [','] ++
        (quoted "risk" ++ ':' :: (['\x7b'] ++
        (quoted "max_single_order_notional_usd" ++ ':' ::
          (Ostream.showGeneral r.maxSingleOrderNotionalUsd ++ [','] ++
        (quoted "max_position_ratio" ++ ':' ::
          (Ostream.showGeneral r.maxPositionRatio ++ [','] ++
        (quoted "daily_loss_stop_ratio" ++ ':' ::
          (Ostream.showGeneral r.dailyLossStopRatio ++ ['\x7d', '\x7d'])))))))))) := by
  simp only [runtimeStateText, object, riskMembers, member, List.intercalate_cons_cons,
    List.intercalate_singleton, List.append_assoc, List.cons_append, List.nil_append]

section

variable (x : Double)

theorem quote_notMem_limit : '"' ∉ Ostream.showGeneral x ++ [','] := by
  have hnumber := Ostream.notMem_showGeneral (c := '"') (by decide) (by decide) x
  simp [hnumber]

theorem stop_notMem_limit : ∀ d ∈ [',', '\x7d'], d ∉ Ostream.showGeneral x := by
  intro d hd
  simp only [List.mem_cons, List.not_mem_nil, or_false] at hd
  rcases hd with rfl | rfl
  · exact Ostream.notMem_showGeneral (by decide) (by decide) x
  · exact Ostream.notMem_showGeneral (by decide) (by decide) x

end

/-- The limits of the file are found behind the switch and the name of the
risk section. -/
theorem followsKey_limits {key tail : Text} {en : Bool} {r : RiskConfig Double}
    (hquote : '"' ∉ key) (hcolon : ':' ∉ key) (hswitch : key ≠ "strategy_enabled".toList)
    (hrisk : key ≠ "risk".toList)
    (h : FollowsKey key
      (quoted "max_single_order_notional_usd" ++ ':' ::
        (Ostream.showGeneral r.maxSingleOrderNotionalUsd ++ [','] ++
      (quoted "max_position_ratio" ++ ':' ::
        (Ostream.showGeneral r.maxPositionRatio ++ [','] ++
      (quoted "daily_loss_stop_ratio" ++ ':' ::
        (Ostream.showGeneral r.dailyLossStopRatio ++ ['\x7d', '\x7d'])))))) tail) :
    FollowsKey key (runtimeStateText en r) tail := by
  have hbrace : '"' ∉ ['\x7b'] := by decide
  have hbool : '"' ∉ Ostream.showBool en ++ [','] := by cases en <;> decide
  rw [runtimeStateText_eq]
  apply FollowsKey.pass hbrace
  apply FollowsKey.pass_key hquote hcolon (by decide) hswitch
  apply FollowsKey.pass hbool
  apply FollowsKey.pass_key hquote hcolon (by decide) hrisk
  exact h.pass hbrace

theorem findBool_runtimeStateText (en : Bool) (r : RiskConfig Double) (out : Bool) :
    findBool (runtimeStateText en r) "strategy_enabled" out = en := by
  apply findBool_of_followsKey
  rw [runtimeStateText_eq, List.append_assoc (Ostream.showBool en)]
  exact (followsKey_self _ _).pass (by decide)

section

variable (en : Bool) (r : RiskConfig Double)

theorem findNum_notional :
    findNum (runtimeStateText en r) "max_single_order_notional_usd" =
      Strtod.stod (Ostream.showGeneral r.maxSingleOrderNotionalUsd) := by
  apply findNum_of_followsKey (c := ',') (by decide) (stop_notMem_limit _)
  apply followsKey_limits (by decide) (by decide) (by decide) (by decide)
  rw [List.append_assoc (Ostream.showGeneral r.maxSingleOrderNotionalUsd)]
  exact followsKey_self _ _

theorem findNum_positionRatio :
    findNum (runtimeStateText en r) "max_position_ratio" =
      Strtod.stod (Ostream.showGeneral r.maxPositionRatio) := by
  apply findNum_of_followsKey (c := ',') (by decide) (stop_notMem_limit _)
  apply followsKey_limits (by decide) (by decide) (by decide) (by decide)
  apply FollowsKey.pass_key (by decide) (by decide) (by decide) (by decide)
  apply FollowsKey.pass (quote_notMem_limit _)
  rw [List.append_assoc (Ostream.showGeneral r.maxPositionRatio)]
  exact followsKey_self _ _

theorem findNum_lossStopRatio :
    findNum (runtimeStateText en r) "daily_loss_stop_ratio" =
      Strtod.stod (Ostream.showGeneral r.dailyLossStopRatio) := by
  apply findNum_of_followsKey (c := '\x7d') (by decide) (stop_notMem_limit _)
  apply followsKey_limits (by decide) (by decide) (by decide) (by decide)
  apply FollowsKey.pass_key (by decide) (by decide) (by decide) (by decide)
  apply FollowsKey.pass (quote_notMem_limit _)
  apply FollowsKey.pass_key (by decide) (by decide) (by decide) (by decide)
  apply FollowsKey.pass (quote_notMem_limit _)
  exact followsKey_self _ _

end

/-- A limit as it is read back; `out` is kept where reading fails. -/
def reread (x out : Double) : Double := (Strtod.stod (Ostream.showGeneral x)).getD out

def rereadRisk (r out : RiskConfig Double) : RiskConfig Double where
  maxSingleOrderNotionalUsd := reread r.maxSingleOrderNotionalUsd out.maxSingleOrderNotionalUsd
  maxPositionRatio := reread r.maxPositionRatio out.maxPositionRatio
  dailyLossStopRatio := reread r.dailyLossStopRatio out.dailyLossStopRatio

theorem loadRuntimeState_runtimeStateText (en : Bool) (r : RiskConfig Double)
    (out : Bool × RiskConfig Double) :
    loadRuntimeState (some (runtimeStateText en r)) out = (en, rereadRisk r out.2) := by
  simp only [loadRuntimeState, findBool_runtimeStateText, findNum_notional, findNum_positionRatio,
    findNum_lossStopRatio]
  rfl

/-! ## Which limits come back -/

@[simp] theorem reread_nan (out : Double) : reread .nan out = .nan := by
  have h : Strtod.stod (Ostream.showGeneral .nan) = some .nan := by decide +kernel
  rw [reread, h, Option.getD_some]

@[simp] theorem reread_inf (neg : Bool) (out : Double) : reread (.inf neg) out = .inf neg := by
  have h : Strtod.stod (Ostream.showGeneral (.inf neg)) = some (.inf neg) := by
    cases neg <;> decide +kernel
  rw [reread, h, Option.getD_some]

theorem reread_finite (q : ℚ) (out : Double) :
    reread (.finite q) out =
      if Strtod.inRange (Ostream.roundSignificant q) then ofRat (Ostream.roundSignificant q)
      else out := by
  rw [reread, Ostream.stod_showGeneral]
  split_ifs <;> rfl

/-- A value that is no number, or the one stored of a decimal number of at most
six significant digits that `std::stod` reads. -/
def PrintsExactly (x : Double) : Prop :=
  x.isFinite = true → ∃ d, Ostream.HasSixDigits d ∧ Strtod.inRange d = true ∧ x = ofRat d

/-- Reading the rounded value fails, since it is too small or too large, and
the configured value takes its place. -/
def FallsBack (x out : Double) : Prop :=
  ∃ q, x = .finite q ∧ Strtod.inRange (Ostream.roundSignificant q) = false ∧ out = x

/-- The six digits printed are those of the number that was stored. -/
theorem reread_ofRat {d : ℚ} (hd : Ostream.HasSixDigits d) (hrange : Strtod.inRange d = true)
    (out : Double) : reread (ofRat d) out = ofRat d := by
  have hstored := Double.ofRat_of_not_overflows (not_le.mpr (Strtod.abs_lt_of_inRange hrange))
  rw [hstored, reread_finite, Ostream.roundSignificant_nearest hd hrange, if_pos hrange, hstored]

theorem reread_eq_self_iff (x out : Double) :
    reread x out = x ↔ PrintsExactly x ∨ FallsBack x out := by
  constructor
  · intro h
    cases x with
    | nan => exact Or.inl fun hfinite ↦ nomatch hfinite
    | inf neg => exact Or.inl fun hfinite ↦ nomatch hfinite
    | finite q =>
        rw [reread_finite] at h
        cases hrange : Strtod.inRange (Ostream.roundSignificant q) with
        | true =>
            rw [if_pos hrange] at h
            exact Or.inl fun _ ↦ ⟨_, Ostream.hasSixDigits_roundSignificant q, hrange, h.symm⟩
        | false =>
            rw [if_neg (Bool.eq_false_iff.mp hrange)] at h
            exact Or.inr ⟨q, rfl, hrange, h⟩
  · rintro (hexact | ⟨q, rfl, hrange, rfl⟩)
    · cases x with
      | nan => exact reread_nan out
      | inf neg => exact reread_inf neg out
      | finite q =>
          obtain ⟨d, hd, hrange, hq⟩ := hexact rfl
          rw [hq]
          exact reread_ofRat hd hrange out
    · rw [reread_finite, if_neg (Bool.eq_false_iff.mp hrange)]

theorem forall_reread_eq_self_iff (x : Double) : (∀ out, reread x out = x) ↔ PrintsExactly x := by
  simp only [reread_eq_self_iff]
  constructor
  · intro h
    by_contra hnot
    obtain ⟨q, rfl, -, hnan⟩ := (h .nan).resolve_left hnot
    cases hnan
  · exact fun h out ↦ Or.inl h

structure RiskPrintsExactly (r : RiskConfig Double) : Prop where
  notional : PrintsExactly r.maxSingleOrderNotionalUsd
  position : PrintsExactly r.maxPositionRatio
  loss : PrintsExactly r.dailyLossStopRatio

/-- Each limit prints exactly or is the configured one that reading falls back
to. -/
structure RiskSurvives (r out : RiskConfig Double) : Prop where
  notional : PrintsExactly r.maxSingleOrderNotionalUsd ∨
    FallsBack r.maxSingleOrderNotionalUsd out.maxSingleOrderNotionalUsd
  position : PrintsExactly r.maxPositionRatio ∨ FallsBack r.maxPositionRatio out.maxPositionRatio
  loss : PrintsExactly r.dailyLossStopRatio ∨
    FallsBack r.dailyLossStopRatio out.dailyLossStopRatio

theorem rereadRisk_eq_iff (r out next : RiskConfig Double) :
    rereadRisk r out = next ↔
      reread r.maxSingleOrderNotionalUsd out.maxSingleOrderNotionalUsd =
          next.maxSingleOrderNotionalUsd ∧
        reread r.maxPositionRatio out.maxPositionRatio = next.maxPositionRatio ∧
        reread r.dailyLossStopRatio out.dailyLossStopRatio = next.dailyLossStopRatio := by
  obtain ⟨n, p, d⟩ := next
  simp only [rereadRisk, RiskConfig.mk.injEq]

theorem rereadRisk_eq_self_iff (r out : RiskConfig Double) :
    rereadRisk r out = r ↔ RiskSurvives r out := by
  rw [rereadRisk_eq_iff, reread_eq_self_iff, reread_eq_self_iff, reread_eq_self_iff]
  exact ⟨fun h ↦ ⟨h.1, h.2.1, h.2.2⟩, fun h ↦ ⟨h.notional, h.position, h.loss⟩⟩

/-- Loading gives back what was saved, whatever it starts from, exactly for
limits that print exactly. -/
theorem forall_loadRuntimeState_eq_iff (r : RiskConfig Double) (en : Bool) :
    (∀ out, loadRuntimeState (some (runtimeStateText en r)) out = (en, r)) ↔
      RiskPrintsExactly r := by
  simp only [loadRuntimeState_runtimeStateText, Prod.mk.injEq, true_and, rereadRisk_eq_iff]
  constructor
  · intro h
    refine ⟨(forall_reread_eq_self_iff _).mp fun x ↦ ?_,
      (forall_reread_eq_self_iff _).mp fun x ↦ ?_, (forall_reread_eq_self_iff _).mp fun x ↦ ?_⟩
    · exact (h (en, { r with maxSingleOrderNotionalUsd := x })).1
    · exact (h (en, { r with maxPositionRatio := x })).2.1
    · exact (h (en, { r with dailyLossStopRatio := x })).2.2
  · intro h out
    exact ⟨(forall_reread_eq_self_iff _).mpr h.notional _,
      (forall_reread_eq_self_iff _).mpr h.position _, (forall_reread_eq_self_iff _).mpr h.loss _⟩

/-! ## What is saved -/

/-- A request that finds the state file writable; ticks write no file. -/
def ApiEvent.StateWritable : ApiEvent → Prop
  | .tick _ _ => True
  | .request env _ => env.stateWritable = true

/-- For an effect that is saved, whether the file is written. -/
def Effect.written? : Effect → Option Bool
  | .enable _ written | .risk _ written => some written
  | _ => none

namespace ApiState

theorem written_requestEffect (s : ApiState) (env : RequestEnv) (body : Text)
    (route : Option Route) :
    ∀ written ∈ (s.requestEffect env body route).written?, written = env.stateWritable := by
  rcases route with _ | route
  · simp [requestEffect, Effect.written?]
  cases route with
  | postGridEnable | postManualCancel =>
      simp only [requestEffect]
      split <;> simp [Effect.written?]
  | postCredentialsUpdate | postGridConfig | postRiskConfig | postManualOrder =>
      simp only [requestEffect]
      split_ifs <;> simp [Effect.written?]
  | _ => simp [requestEffect, Effect.written?]

variable (s : ApiState) (e : ApiEvent)

theorem strategyEnabled_next :
    (apiMachine.next s e).strategyEnabled =
      match s.effect e with
      | .enable en _ => en
      | _ => s.strategyEnabled := by
  rw [(s.next_eq e).congr strategyEnabled fun _ _ ↦ rfl]
  cases s.effect e <;> rfl

theorem runtimeStateFile_next :
    (apiMachine.next s e).runtimeStateFile =
      match s.effect e with
      | .enable en written => { s with strategyEnabled := en }.saved written
      | .risk next written => { s with riskCfg := next }.saved written
      | _ => s.runtimeStateFile := by
  rw [(s.next_eq e).congr runtimeStateFile fun _ _ ↦ rfl]
  cases s.effect e <;> rfl

/-- The step writes the state file. -/
def Saves (s : ApiState) (e : ApiEvent) : Prop := (s.effect e).written? = some true

instance (s : ApiState) (e : ApiEvent) : Decidable (s.Saves e) :=
  inferInstanceAs (Decidable ((s.effect e).written? = some true))

/-- The state file holds the switch and the limits in force. -/
def FileCurrent (s : ApiState) : Prop :=
  s.runtimeStateFile = some (runtimeStateText s.strategyEnabled s.riskCfg)

variable {s e}

theorem fileCurrent_of_saves (h : s.Saves e) : (apiMachine.next s e).FileCurrent := by
  rw [FileCurrent, runtimeStateFile_next, strategyEnabled_next, riskCfg_next]
  rw [Saves] at h
  cases heffect : s.effect e with
  | enable en written | risk next written =>
      rw [heffect] at h
      obtain rfl := Option.some.inj h
      rfl
  | _ =>
      rw [heffect] at h
      cases h

/-- Where the file can be written, a step saves or leaves the switch and the
limits. -/
theorem saves_or_same (h : e.StateWritable) :
    s.Saves e ∨ (apiMachine.next s e).strategyEnabled = s.strategyEnabled ∧
      (apiMachine.next s e).riskCfg = s.riskCfg ∧
      (apiMachine.next s e).runtimeStateFile = s.runtimeStateFile := by
  have hwritten : ∀ written ∈ (s.effect e).written?, written = true := by
    intro written hmem
    cases e with
    | tick nowMs t => cases hmem
    | request env req => exact (s.written_requestEffect env _ _ written hmem).trans h
  rw [runtimeStateFile_next, strategyEnabled_next, riskCfg_next, Saves]
  cases heffect : s.effect e with
  | enable en written | risk next written =>
      rw [heffect] at hwritten
      left
      exact congrArg some (hwritten written rfl)
  | _ => exact Or.inr ⟨rfl, rfl, rfl⟩

theorem fileCurrent_next (hs : s.FileCurrent) (h : e.StateWritable) :
    (apiMachine.next s e).FileCurrent := by
  rcases saves_or_same h with hsaves | ⟨hswitch, hrisk, hfile⟩
  · exact fileCurrent_of_saves hsaves
  · rw [FileCurrent, hswitch, hrisk, hfile]
    exact hs

/-- Once a step has saved, the file stays current. -/
theorem fileCurrent_run {es : List ApiEvent} (hwritable : ∀ e ∈ es, e.StateWritable)
    (hsaved : ¬ apiMachine.AllSteps (fun s e ↦ ¬ s.Saves e) s es) :
    (apiMachine.run s es).FileCurrent :=
  (apiMachine.allSteps_of_forall_mem hwritable s).run_of_exists apiMachine (I := fun _ ↦ True)
    (fun _ _ _ _ ↦ trivial) (fun _ _ _ _ hsaves ↦ fileCurrent_of_saves hsaves)
    (fun _ _ _ he hs ↦ fileCurrent_next hs he) trivial hsaved

end ApiState

/-! ## Stopping the service and starting it again -/

/-- A host on which the service stopped in state `s`: it finds the environment
and the configuration file of its start, and the state file it left. -/
structure Host.RestartOf (h' h : Host) (s : ApiState) : Prop where
  env : h'.env = h.env
  yaml : h'.file h.configPath = h.file h.configPath
  state : h'.file h.config.runtimeStatePath = s.runtimeStateFile

theorem Host.RestartOf.config_eq {h h' : Host} {s : ApiState} (hrestart : h'.RestartOf h s) :
    h'.config = h.config := by
  have hpath : h'.configPath = h.configPath := by rw [configPath, configPath, hrestart.env]
  rw [config, config, hpath, hrestart.yaml, hrestart.env]

theorem Host.RestartOf.riskCfg_eq {h h' : Host} {s : ApiState} (hrestart : h'.RestartOf h s) :
    h'.riskCfg = h.riskCfg := by
  rw [riskCfg, riskCfg, hrestart.config_eq]

/-- A restart from a current file gives the switch, and the limits as they are
read back. -/
theorem Host.RestartOf.initialState_eq {h h' : Host} {s : ApiState} (hrestart : h'.RestartOf h s)
    (hcurrent : s.FileCurrent) :
    h'.initialState = (s.strategyEnabled, rereadRisk s.riskCfg h.riskCfg) := by
  rw [initialState, hrestart.config_eq, hrestart.state, hcurrent, loadRuntimeState_runtimeStateText,
    hrestart.riskCfg_eq]

/-- After a run that saved, a restart brings back the switch and the limits in
force exactly if the limits survive printing; and of what a request asks for,
loading gives back what was saved exactly if it prints exactly. -/
theorem runtime_state_restored_iff {h : Host} {b : Startup} {es : List ApiEvent}
    (hwritable : ∀ e ∈ es, e.StateWritable) :
    (¬ apiMachine.AllSteps (fun s e ↦ ¬ s.Saves e) (.start b) es →
      ∀ h' b', Host.RestartOf h' h (service b es) → h'.startup = .ok b' →
        ((service b' []).strategyEnabled = (service b es).strategyEnabled ∧
            (service b' []).core.risk = (service b es).core.risk ↔
          RiskSurvives (service b es).core.risk h.riskCfg)) ∧
      ∀ body en,
        ((∀ out, loadRuntimeState
            (some (runtimeStateText en ((service b es).requestedRisk body))) out =
              (en, (service b es).requestedRisk body)) ↔
          RiskPrintsExactly ((service b es).requestedRisk body)) := by
  constructor
  · intro hsaved h' b' hrestart hstart'
    have hcurrent : (service b es).FileCurrent :=
      ApiState.fileCurrent_run hwritable hsaved
    obtain ⟨-, rfl⟩ := (h'.startup_eq_ok_iff b').mp hstart'
    have hinit := hrestart.initialState_eq hcurrent
    have hswitch : (service h'.started []).strategyEnabled = (service b es).strategyEnabled :=
      congrArg Prod.fst hinit
    have hrisk : (service h'.started []).core.risk = rereadRisk (service b es).riskCfg h.riskCfg :=
      congrArg Prod.snd hinit
    rw [hrisk, ← riskAgrees, rereadRisk_eq_self_iff]
    exact and_iff_right hswitch
  · intro body en
    exact forall_loadRuntimeState_eq_iff _ en

/-- The bare host with the state file that a run on it left. -/
def leftHost (es : List ApiEvent) : Host :=
  { bareHost with
    file := fun path ↦
      if path = "config/runtime_state.json".toList then
        (service bareHost.started es).runtimeStateFile
      else none }

theorem leftHost_restartOf (es : List ApiEvent) :
    (leftHost es).RestartOf bareHost (service bareHost.started es) := by
  have hyaml : bareHost.configPath ≠ "config/runtime_state.json".toList := by decide +kernel
  have hstate : bareHost.config.runtimeStatePath = "config/runtime_state.json".toList := by
    decide +kernel
  refine ⟨rfl, ?_, ?_⟩
  · simp only [leftHost, if_neg hyaml]
    rfl
  · simp only [leftHost, if_pos hstate]

theorem leftHost_startup (es : List ApiEvent) :
    (leftHost es).startup = .ok (leftHost es).started := by
  have hdry : bareHost.config.execDryRun = true := by decide +kernel
  rw [← (leftHost_restartOf es).config_eq] at hdry
  exact ((leftHost es).startup_eq_ok_iff _).mpr ⟨⟨rfl, Or.inl hdry⟩, rfl⟩

theorem bareHost_startup : bareHost.startup = .ok bareHost.started :=
  (bareHost.startup_eq_ok_iff _).mpr ⟨bareHost_ready, rfl⟩

def setRatio (ratio : String) : List ApiEvent :=
  [postRisk ("\x7b\"max_position_ratio\":" ++ ratio ++ "\x7d")]

theorem runtime_state_restored_half :
    (service (leftHost (setRatio "0.5")).started []).strategyEnabled =
        (service bareHost.started (setRatio "0.5")).strategyEnabled ∧
      (service (leftHost (setRatio "0.5")).started []).core.risk =
        (service bareHost.started (setRatio "0.5")).core.risk := by
  have hwritable : ∀ e ∈ setRatio "0.5", e.StateWritable := by
    intro e he
    obtain rfl := List.mem_singleton.mp he
    rfl
  have hsaved : ¬ apiMachine.AllSteps (fun s e ↦ ¬ s.Saves e) (.start bareHost.started)
      (setRatio "0.5") := by
    intro hnone
    exact hnone.1 (by decide +kernel)
  have hrisk : (service bareHost.started (setRatio "0.5")).core.risk =
      ⟨lit 10, lit 0.5, lit 0.05⟩ := by decide +kernel
  apply ((runtime_state_restored_iff hwritable).1 hsaved _ _
    (leftHost_restartOf _) (leftHost_startup _)).mpr
  rw [hrisk]
  refine ⟨Or.inl fun _ ↦ ⟨10, ?_, by decide +kernel, rfl⟩,
    Or.inl fun _ ↦ ⟨0.5, ?_, by decide +kernel, rfl⟩,
    Or.inl fun _ ↦ ⟨0.05, ?_, by decide +kernel, rfl⟩⟩
  · exact ⟨10, 0, by norm_num, by norm_num⟩
  · exact ⟨5, -1, by norm_num, by norm_num⟩
  · exact ⟨5, -2, by norm_num, by norm_num⟩

/-- A limit of seven digits comes back rounded. -/
theorem seven_digits_lost :
    ¬ ∀ b h' b', bareHost.startup = .ok b →
      Host.RestartOf h' bareHost (service b (setRatio "0.1234567")) → h'.startup = .ok b' →
      (service b' []).core.risk = (service b (setRatio "0.1234567")).core.risk := by
  intro h
  have hback := h _ _ _ bareHost_startup (leftHost_restartOf (setRatio "0.1234567"))
    (leftHost_startup _)
  have hrounded :
      (service (leftHost (setRatio "0.1234567")).started []).core.risk.maxPositionRatio =
        lit 0.123457 := by decide +kernel
  have hset : (service bareHost.started (setRatio "0.1234567")).core.risk.maxPositionRatio =
      lit 0.1234567 := by decide +kernel
  rw [hback, hset] at hrounded
  exact absurd hrounded (by decide +kernel)

end FrogQuant.App
