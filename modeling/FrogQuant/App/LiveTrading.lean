import FrogQuant.App.Bootstrap

/-!
# Switching live trading on

The boolean reader takes every text but five for false, so that a misspelt
`dry_run` starts the service live.
-/

namespace FrogQuant.App

/-- The explicit spellings of false, in any letter case. -/
def spelledFalse (v : Text) : Bool := v.map Char.toLower ∈ ["false".toList, "0".toList, "no".toList]

namespace Host

variable (h : Host)

/-- The text that decides on the dry run: that of the environment, else that
of the configuration file. -/
def dryRunSetting : Option Text :=
  (h.env "FQ_EXEC_DRY_RUN").or (h.yaml.lookup "execution.dry_run".toList)

theorem config_execDryRun : h.config.execDryRun = (h.dryRunSetting.map readsTrue).getD true := by
  rw [config, loadConfig_eq, dryRunSetting]
  cases henv : h.env "FQ_EXEC_DRY_RUN" with
  | some v => simp only [envIsTrue, henv, Option.some_or, Option.map_some, Option.getD_some]
  | none =>
      simp only [envIsTrue, henv, Option.none_or]
      rfl

theorem config_execDryRun_eq_false_iff :
    h.config.execDryRun = false ↔ ∃ v, h.dryRunSetting = some v ∧ readsTrue v = false := by
  rw [config_execDryRun]
  cases h.dryRunSetting <;> simp

/-- Live trading is on only where it was asked for, and only with both keys; a
setting that is absent or spells nothing leaves the dry run on. -/
structure LiveOnlyOnRequest : Prop where
  live : ∀ bs, h.bootstrap = .ok bs → bs.execCfg.dryRun = false →
    (∃ v, h.dryRunSetting = some v ∧ spelledFalse v = true) ∧
      bs.execCfg.apiKey ≠ [] ∧ bs.execCfg.secretKey ≠ []
  otherwise : ∀ bs, h.bootstrap = .ok bs →
    (∀ v, h.dryRunSetting = some v → spelledFalse v = false) → bs.execCfg.dryRun = true

/-- The service starts live only on request, up to the texts that are neither
read as true nor spell false. -/
theorem liveOnlyOnRequest_iff :
    h.LiveOnlyOnRequest ↔
      (∀ v, h.dryRunSetting = some v → readsTrue v = true ∨ spelledFalse v = true) ∨
        h.appendable h.config.logPath = false ∨ h.credentials.1 = [] ∨ h.credentials.2 = [] := by
  constructor
  · intro hlive
    by_contra hnot
    simp only [not_or, not_forall] at hnot
    obtain ⟨⟨v, hv, hread, hspell⟩, hlog, hkey, hsecret⟩ := hnot
    have hdry : h.config.execDryRun = false :=
      h.config_execDryRun_eq_false_iff.mpr ⟨v, hv, by simpa using hread⟩
    have hready : h.Ready := ⟨by simpa using hlog, Or.inr ⟨hkey, hsecret⟩⟩
    obtain ⟨⟨v', hv', hspell'⟩, -⟩ :=
      hlive.live _ ((h.bootstrap_eq_ok_iff _).mpr ⟨hready, rfl⟩) hdry
    rw [hv] at hv'
    obtain rfl := Option.some.inj hv'
    exact hspell hspell'
  · intro hcond
    have hstart : ∀ bs, h.bootstrap = .ok bs → bs.execCfg.dryRun = false →
        (∃ v, h.dryRunSetting = some v ∧ spelledFalse v = true) ∧
          bs.execCfg.apiKey ≠ [] ∧ bs.execCfg.secretKey ≠ [] := by
      intro bs hbs hdry
      obtain ⟨⟨hlog, hkeys⟩, rfl⟩ := (h.bootstrap_eq_ok_iff bs).mp hbs
      have hdry' : h.config.execDryRun = false := hdry
      obtain ⟨v, hv, hread⟩ := h.config_execDryRun_eq_false_iff.mp hdry'
      have hkeys' : h.credentials.1 ≠ [] ∧ h.credentials.2 ≠ [] := by simpa [hdry'] using hkeys
      refine ⟨⟨v, hv, ?_⟩, hkeys'⟩
      rcases hcond with hspelled | hno | hno | hno
      · simpa [hread] using hspelled v hv
      · rw [hlog] at hno
        cases hno
      · exact absurd hno hkeys'.1
      · exact absurd hno hkeys'.2
    refine ⟨hstart, fun bs hbs hspell ↦ ?_⟩
    by_contra hdry
    obtain ⟨⟨v, hv, hfalse⟩, -⟩ := hstart bs hbs (by simpa using hdry)
    rw [hspell v hv] at hfalse
    cases hfalse

end Host

/-- Credentials in the environment and a configuration file that says
`dry_run: True`. -/
def capitalTrueHost : Host where
  env := fun key ↦
    if key = "BINANCE_TESTNET_API_KEY".toList then some "key"
    else if key = "BINANCE_TESTNET_SECRET_KEY".toList then some "secret"
    else none
  file := fun path ↦
    if path = "config/engine.yaml".toList then some "execution:\n  dry_run: True\n" else none
  appendable := fun _ ↦ true
  nowMs := 0

/-- A capital letter in `True` switches live trading on. -/
theorem capitalTrue_starts_live : ¬ capitalTrueHost.LiveOnlyOnRequest := by
  intro h
  have hlog : capitalTrueHost.appendable capitalTrueHost.config.logPath = true := rfl
  have hkeys : capitalTrueHost.credentials = ("key".toList, "secret".toList) := by decide +kernel
  have hsetting : capitalTrueHost.dryRunSetting = some "True".toList := by decide +kernel
  have hdry : capitalTrueHost.config.execDryRun = false := by decide +kernel
  have hready : capitalTrueHost.Ready := ⟨hlog, Or.inr (by simp [hkeys])⟩
  obtain ⟨⟨v, hv, hspell⟩, -⟩ :=
    h.live _ ((capitalTrueHost.bootstrap_eq_ok_iff _).mpr ⟨hready, rfl⟩) hdry
  rw [hsetting] at hv
  obtain rfl := Option.some.inj hv
  exact absurd hspell (by decide)

end FrogQuant.App
