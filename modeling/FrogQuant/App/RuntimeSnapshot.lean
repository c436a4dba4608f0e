import FrogQuant.App.AppSupport
import FrogQuant.Lib.PrintedNumber
import FrogQuant.Strategy.OpenLevels

/-!
# The runtime snapshot

What a client reads out of the text of `runtime_to_json`.  The prices of a grid
are multiples of a cent, and a stream prints six significant digits of them.
The prices of the last part are exact decimals, so that a cent is one.
-/

namespace FrogQuant

/-! ## The prices of a grid -/

section Prices

variable {α : Type}

def GridLevel.prices (lv : GridLevel α) : α × α := (lv.buyPrice, lv.sellPrice)

variable [Floating α]

/-- Both prices have passed `round2`. -/
def GridLevel.Rounded (lv : GridLevel α) : Prop :=
  (∃ v, lv.buyPrice = round2 v) ∧ ∃ v, lv.sellPrice = round2 v

theorem rounded_of_mem_gridLevels {cfg : LongGridConfig α} {anchorPrice : α} {lv : GridLevel α}
    (h : lv ∈ gridLevels cfg anchorPrice) : lv.Rounded := by
  obtain ⟨i, -, rfl⟩ := List.mem_map.mp h
  exact ⟨⟨_, rfl⟩, ⟨_, rfl⟩⟩

namespace LongGridStrategy

def Rounded (s : LongGridStrategy α) : Prop := ∀ lv ∈ s.levels, lv.Rounded

theorem Rounded.setState {s : LongGridStrategy α} (h : s.Rounded) (id : ℕ)
    (state : GridLevelState) : (s.setState id state).Rounded := by
  intro lv hlv
  have hprices :
      (s.setState id state).levels.map GridLevel.prices = s.levels.map GridLevel.prices :=
    map_writeSlot (f := .withState state) (fun _ ↦ rfl) s.levels
  obtain ⟨lv', hlv', heq⟩ := List.mem_map.mp (hprices ▸ List.mem_map_of_mem hlv)
  obtain ⟨hbuy, hsell⟩ := Prod.mk.inj heq
  obtain ⟨hbuy', hsell'⟩ := h lv' hlv'
  exact ⟨hbuy ▸ hbuy', hsell ▸ hsell'⟩

theorem Rounded.recentre {s : LongGridStrategy α} (h : s.Rounded) {price : α}
    (hprice : ¬ price ≤ 0) : (s.recentre price).Rounded := by
  rcases s.recentre_cases hprice with ⟨-, -, hlevels, -⟩ | ⟨-, hsame⟩
  · intro lv hlv
    exact rounded_of_mem_gridLevels (hlevels ▸ hlv)
  · rwa [hsame]

theorem rounded_next {s : LongGridStrategy α} (h : s.Rounded) (op : GridOp α) :
    ((gridMachine α).next s op).Rounded := by
  cases op with
  | priceTick price =>
      simp only [Machine.next, gridMachine]
      by_cases hprice : price ≤ 0
      · rwa [onPriceTick_of_le s hprice]
      · rcases s.onPriceTick_cases hprice with hnone | ⟨lv, -, -, -, hemit⟩
        · rw [hnone]
          exact h.recentre hprice
        · rw [hemit]
          exact (h.recentre hprice).setState _ _
  | buyFilled gridId =>
      simp only [Machine.next, gridMachine]
      rcases s.onBuyFilled_cases gridId with ⟨lv, -, -, hfill⟩ | ⟨-, hfill⟩
      · rw [hfill]
        exact h.setState _ _
      · rwa [hfill]
  | sellFilled gridId =>
      simp only [Machine.next, gridMachine, onSellFilled_eq]
      exact h.setState _ _
  | updateConfig cfg =>
      simp only [Machine.next, gridMachine, updateConfig]
      split_ifs
      · intro lv hlv
        exact rounded_of_mem_gridLevels hlv
      · exact h

theorem rounded_run (cfg : LongGridConfig α) (ops : List (GridOp α)) :
    ((gridMachine α).run (.init cfg) ops).Rounded :=
  (gridMachine α).run_invariant (P := Rounded) (fun _ op h ↦ rounded_next h op)
    (fun _ hlv ↦ by cases hlv) ops

end LongGridStrategy

end Prices

namespace App

open Json

/-! ## A client -/

/-- A level as a client reads it. -/
structure LevelSnapshot where
  id : ℕ
  buyPrice : Double
  sellPrice : Double
  state : ℕ
  deriving DecidableEq

structure RuntimeSnapshot where
  strategyEnabled : Bool
  rebuildCount : ℕ
  levels : List LevelSnapshot
  deriving DecidableEq

def decodeLevel (v : Tree Text ℚ) : Option LevelSnapshot := do
  let id ← (v.get? "id").bind Tree.nat?
  let buyPrice ← (v.get? "buy_price").bind Tree.number?
  let sellPrice ← (v.get? "sell_price").bind Tree.number?
  let state ← (v.get? "state").bind Tree.nat?
  return ⟨id, .finite buyPrice, .finite sellPrice, state⟩

def decodeRuntime (t : Text) : Option RuntimeSnapshot := do
  let v ← read t
  let strategyEnabled ← (v.get? "strategy_enabled").bind Tree.bool?
  let rebuildCount ← (v.get? "rebuild_count").bind Tree.nat?
  let levels ← (v.get? "levels").bind Tree.items?
  let levels ← levels.mapM decodeLevel
  return ⟨strategyEnabled, rebuildCount, levels⟩

/-- What the state holds of a level. -/
def levelSnapshot (lv : GridLevel Double) : LevelSnapshot :=
  ⟨lv.id, lv.buyPrice, lv.sellPrice, levelStateCode lv.state⟩

def runtimeSnapshot (view : GridRuntimeView Double) (enabled : Bool) : RuntimeSnapshot :=
  ⟨enabled, view.rebuildCount, view.levels.map levelSnapshot⟩

/-! ## The text as a tree -/

def levelTree (lv : GridLevel Double) : Tree Word Printed :=
  .object
    [(⟨"id", by decide⟩, .number (.int lv.id)),
      (⟨"buy_price", by decide⟩, .number (.double lv.buyPrice)),
      (⟨"sell_price", by decide⟩, .number (.double lv.sellPrice)),
      (⟨"state", by decide⟩, .number (.int (levelStateCode lv.state)))]

def gridConfigTree (cfg : LongGridConfig Double) : Tree Word Printed :=
  .object
    [(⟨"levels", by decide⟩, .number (.int cfg.levels)),
      (⟨"order_qty", by decide⟩, .number (.double cfg.orderQty)),
      (⟨"take_profit_ratio", by decide⟩, .number (.double cfg.takeProfitRatio)),
      (⟨"dynamic_enabled", by decide⟩, .bool cfg.dynamicEnabled),
      (⟨"recenter_threshold_ratio", by decide⟩, .number (.double cfg.recenterThresholdRatio)),
      (⟨"band_ratio", by decide⟩, .number (.double cfg.bandRatio))]

def runtimeTree (view : GridRuntimeView Double) (enabled : Bool) : Tree Word Printed :=
  .object
    [(⟨"api_version", by decide⟩, .string ⟨"v1.2", by decide⟩),
      (⟨"strategy_enabled", by decide⟩, .bool enabled),
      (⟨"anchor_price", by decide⟩, .number (.double view.anchorPrice)),
      (⟨"rebuild_count", by decide⟩, .number (.int view.rebuildCount)),
      (⟨"config", by decide⟩, gridConfigTree view.config),
      (⟨"levels", by decide⟩, .array (view.levels.map levelTree))]

theorem text_levelTree (lv : GridLevel Double) :
    (levelTree lv).text printedLeaves = gridLevelJson lv := by
  simp [levelTree, gridLevelJson, Tree.text, memberTexts, showNat_eq_showInt]

theorem itemTexts_levelTree (levels : List (GridLevel Double)) :
    itemTexts printedLeaves (levels.map levelTree) = levels.map gridLevelJson := by
  induction levels with
  | nil => rfl
  | cons lv levels ih => rw [List.map_cons, List.map_cons, itemTexts, text_levelTree, ih]

theorem text_gridConfigTree (cfg : LongGridConfig Double) :
    (gridConfigTree cfg).text printedLeaves = object (gridConfigMembers cfg) := by
  cases hdynamic : cfg.dynamicEnabled <;>
    simp only [gridConfigTree, gridConfigMembers, Ostream.showBool, hdynamic] <;> rfl

theorem text_runtimeTree (view : GridRuntimeView Double) (enabled : Bool) :
    (runtimeTree view enabled).text printedLeaves = runtimeToJson view enabled := by
  rw [runtimeToJson, ← text_gridConfigTree, ← itemTexts_levelTree, showNat_eq_showInt]
  cases enabled <;> rfl

/-! ## What is read back -/

/-- Every number of the text is finite. -/
structure AllFinite (view : GridRuntimeView Double) : Prop where
  anchorPrice : view.anchorPrice.isFinite = true
  orderQty : view.config.orderQty.isFinite = true
  takeProfitRatio : view.config.takeProfitRatio.isFinite = true
  recenterThresholdRatio : view.config.recenterThresholdRatio.isFinite = true
  bandRatio : view.config.bandRatio.isFinite = true
  levels : ∀ lv ∈ view.levels, lv.buyPrice.isFinite = true ∧ lv.sellPrice.isFinite = true

theorem isSome_eval_runtimeTree (view : GridRuntimeView Double) (enabled : Bool) :
    ((runtimeTree view enabled).eval printedLeaves).isSome = true ↔ AllFinite view := by
  have hlevel : ∀ lv, ((levelTree lv).eval printedLeaves).isSome = true ↔
      lv.buyPrice.isFinite = true ∧ lv.sellPrice.isFinite = true := by
    intro lv
    simp [levelTree]
  simp only [runtimeTree, gridConfigTree, isSome_eval_object, List.forall_mem_cons,
    List.not_mem_nil, false_imp_iff, implies_true, isSome_eval_string, isSome_eval_bool,
    isSome_eval_double, eval_int, Option.isSome_some, isSome_eval_array, List.forall_mem_map,
    hlevel, true_and, and_true]
  constructor
  · rintro ⟨hanchor, ⟨hqty, hprofit, hrecenter, hband⟩, hlevels⟩
    exact ⟨hanchor, hqty, hprofit, hrecenter, hband, hlevels⟩
  · rintro ⟨hanchor, hqty, hprofit, hrecenter, hband, hlevels⟩
    exact ⟨hanchor, ⟨hqty, hprofit, hrecenter, hband⟩, hlevels⟩

/-- A level with its prices as they are printed. -/
def printedLevel (lv : GridLevel Double) : LevelSnapshot :=
  ⟨lv.id, lv.buyPrice.mapFinite Ostream.roundSignificant,
    lv.sellPrice.mapFinite Ostream.roundSignificant, levelStateCode lv.state⟩

/-- The members of a level, as they are read. -/
def levelMembers (id state : ℕ) (buyPrice sellPrice : ℚ) : List (Text × Tree Text ℚ) :=
  [("id", .number id), ("buy_price", .number buyPrice), ("sell_price", .number sellPrice),
    ("state", .number state)]

theorem decodeLevel_object (id state : ℕ) (buyPrice sellPrice : ℚ) :
    decodeLevel (.object (levelMembers id state buyPrice sellPrice)) =
      some ⟨id, .finite buyPrice, .finite sellPrice, state⟩ := by
  have hkeys : ((levelMembers id state buyPrice sellPrice).map fun m ↦ meaning m.1).Nodup := by
    change [meaning "id", meaning "buy_price", meaning "sell_price", meaning "state"].Nodup
    decide +kernel
  have hid := Tree.get?_of_getElem? (i := 0) hkeys rfl
  have hbuy := Tree.get?_of_getElem? (i := 1) hkeys rfl
  have hsell := Tree.get?_of_getElem? (i := 2) hkeys rfl
  have hstate := Tree.get?_of_getElem? (i := 3) hkeys rfl
  simp only [decodeLevel, hid, hbuy, hsell, hstate, Option.bind_some, Tree.nat?_natCast,
    Tree.number?, Option.bind_eq_bind, Option.pure_def]

theorem exists_eval_levelTree {lv : GridLevel Double} (hbuy : lv.buyPrice.isFinite = true)
    (hsell : lv.sellPrice.isFinite = true) :
    ∃ v, (levelTree lv).eval printedLeaves = some v ∧ decodeLevel v = some (printedLevel lv) := by
  obtain ⟨id, buyPrice, sellPrice, state⟩ := lv
  obtain ⟨b, rfl⟩ := (Double.isFinite_iff _).mp hbuy
  obtain ⟨s, rfl⟩ := (Double.isFinite_iff _).mp hsell
  refine ⟨_, ?_, decodeLevel_object id (levelStateCode state) (Ostream.roundSignificant b)
    (Ostream.roundSignificant s)⟩
  simp [levelTree, levelMembers, eval_object, evalMembers, eval_double]

theorem exists_evalItems_levelTree {levels : List (GridLevel Double)}
    (h : ∀ lv ∈ levels, lv.buyPrice.isFinite = true ∧ lv.sellPrice.isFinite = true) :
    ∃ items, evalItems printedLeaves (levels.map levelTree) = some items ∧
      items.mapM decodeLevel = some (levels.map printedLevel) := by
  induction levels with
  | nil => exact ⟨[], rfl, rfl⟩
  | cons lv levels ih =>
      obtain ⟨⟨hbuy, hsell⟩, hlevels⟩ := List.forall_mem_cons.mp h
      obtain ⟨v, hv, hlevel⟩ := exists_eval_levelTree hbuy hsell
      obtain ⟨items, hitems, hrest⟩ := ih hlevels
      refine ⟨v :: items, ?_, ?_⟩
      · rw [List.map_cons, evalItems, hv, Option.bind_some, hitems, Option.map_some]
      · simp [List.mapM_cons, hlevel, hrest]

def runtimeMembers (enabled : Bool) (anchorPrice : ℚ) (rebuildCount : ℕ) (config : Tree Text ℚ)
    (levels : List (Tree Text ℚ)) : List (Text × Tree Text ℚ) :=
  [("api_version", .string "v1.2"), ("strategy_enabled", .bool enabled),
    ("anchor_price", .number anchorPrice), ("rebuild_count", .number rebuildCount),
    ("config", config), ("levels", .array levels)]

theorem decodeRuntime_of_read {t : Text} {enabled : Bool} {anchorPrice : ℚ} {rebuildCount : ℕ}
    {config : Tree Text ℚ} {items : List (Tree Text ℚ)} {levels : List LevelSnapshot}
    (hread : read t = some (.object (runtimeMembers enabled anchorPrice rebuildCount config items)))
    (hlevels : items.mapM decodeLevel = some levels) :
    decodeRuntime t = some ⟨enabled, rebuildCount, levels⟩ := by
  have hkeys : ((runtimeMembers enabled anchorPrice rebuildCount config items).map
      fun m ↦ meaning m.1).Nodup := by
    change [meaning "api_version", meaning "strategy_enabled", meaning "anchor_price",
      meaning "rebuild_count", meaning "config", meaning "levels"].Nodup
    decide +kernel
  have henabled := Tree.get?_of_getElem? (i := 1) hkeys rfl
  have hcount := Tree.get?_of_getElem? (i := 3) hkeys rfl
  have hitems := Tree.get?_of_getElem? (i := 5) hkeys rfl
  simp only [decodeRuntime, hread, henabled, hcount, hitems, hlevels, Option.bind_some,
    Tree.bool?, Tree.nat?_natCast, Tree.items?, Option.bind_eq_bind, Option.pure_def]

/-- A text of finite numbers is read with the prices as they are printed. -/
theorem decodeRuntime_of_allFinite {view : GridRuntimeView Double} (h : AllFinite view)
    (enabled : Bool) :
    decodeRuntime (runtimeToJson view enabled) =
      some ⟨enabled, view.rebuildCount, view.levels.map printedLevel⟩ := by
  obtain ⟨items, hitems, hlevels⟩ := exists_evalItems_levelTree h.levels
  obtain ⟨a, ha⟩ := (Double.isFinite_iff _).mp h.anchorPrice
  have hconfig : ((gridConfigTree view.config).eval printedLeaves).isSome = true := by
    simp [gridConfigTree, h.orderQty, h.takeProfitRatio, h.recenterThresholdRatio, h.bandRatio]
  obtain ⟨config, hconfig⟩ := Option.isSome_iff_exists.mp hconfig
  have hread : read (runtimeToJson view enabled) = some (.object
      (runtimeMembers enabled (Ostream.roundSignificant a) view.rebuildCount config items)) := by
    rw [← text_runtimeTree, read_text]
    simp [runtimeTree, runtimeMembers, eval_object, eval_array, eval_bool, eval_string,
      evalMembers, eval_double, hitems, ha, hconfig]
  exact decodeRuntime_of_read hread hlevels

theorem decodeRuntime_of_not_allFinite {view : GridRuntimeView Double} (h : ¬ AllFinite view)
    (enabled : Bool) : decodeRuntime (runtimeToJson view enabled) = none := by
  have hread : read (runtimeToJson view enabled) = none := by
    rw [← text_runtimeTree, read_text, ← Option.not_isSome_iff_eq_none, isSome_eval_runtimeTree]
    exact h
  rw [decodeRuntime, hread]
  rfl

/-! ## When the snapshot is the state -/

/-- A number that six significant digits hold. -/
def SixDigits : Double → Prop
  | .finite q => Ostream.HasSixDigits q
  | _ => False

/-- Numbers that a text can hold, and prices that six digits hold. -/
structure Printable (view : GridRuntimeView Double) : Prop where
  finite : AllFinite view
  prices : ∀ lv ∈ view.levels, SixDigits lv.buyPrice ∧ SixDigits lv.sellPrice

theorem sixDigits_iff {x : Double} (h : x.isFinite = true) :
    SixDigits x ↔ x.mapFinite Ostream.roundSignificant = x := by
  obtain ⟨q, rfl⟩ := (Double.isFinite_iff x).mp h
  rw [SixDigits, Double.mapFinite, Double.finite.injEq, Ostream.roundSignificant_eq_self_iff]

theorem printedLevel_eq_iff (lv : GridLevel Double) :
    printedLevel lv = levelSnapshot lv ↔
      lv.buyPrice.mapFinite Ostream.roundSignificant = lv.buyPrice ∧
        lv.sellPrice.mapFinite Ostream.roundSignificant = lv.sellPrice := by
  simp [printedLevel, levelSnapshot]

theorem decodeRuntime_eq_iff (view : GridRuntimeView Double) (enabled : Bool) :
    decodeRuntime (runtimeToJson view enabled) = some (runtimeSnapshot view enabled) ↔
      Printable view := by
  by_cases hfinite : AllFinite view
  · have hlevels : view.levels.map printedLevel = view.levels.map levelSnapshot ↔
        ∀ lv ∈ view.levels, SixDigits lv.buyPrice ∧ SixDigits lv.sellPrice := by
      rw [List.map_inj_left]
      refine forall₂_congr fun lv hlv ↦ ?_
      obtain ⟨hbuy, hsell⟩ := hfinite.levels lv hlv
      rw [printedLevel_eq_iff, sixDigits_iff hbuy, sixDigits_iff hsell]
    rw [decodeRuntime_of_allFinite hfinite, runtimeSnapshot, Option.some_inj,
      RuntimeSnapshot.mk.injEq, hlevels]
    exact ⟨fun h ↦ ⟨hfinite, h.2.2⟩, fun h ↦ ⟨rfl, rfl, h.prices⟩⟩
  · rw [decodeRuntime_of_not_allFinite hfinite]
    constructor
    · intro h
      cases h
    · intro h
      exact absurd h.finite hfinite

/-! ## Grids in cents -/

attribute [local instance] NumberFormat.exact

/-- A multiple of 0.01. -/
def InCents : Double → Prop
  | .finite q => ∃ c : ℤ, q = c / 100
  | _ => False

theorem inCents_round2 {v : Double} (h : (round2 v).isFinite = true) : InCents (round2 v) := by
  cases v with
  | finite q =>
      have hne : (100 : ℚ) ≠ 0 := by norm_num
      have hround : round2 (.finite q : Double) = .finite (roundAway (q * 100) / 100) :=
        Double.finite_div _ _ hne
      rw [hround]
      exact ⟨_, rfl⟩
  | inf neg => cases neg <;> cases h
  | nan => cases h

/-- The text decodes to the grid, whose prices are in cents. -/
def Decodes (s : LongGridStrategy Double) (enabled : Bool) : Prop :=
  decodeRuntime (runtimeToJson s.runtimeView enabled) =
      some (runtimeSnapshot s.runtimeView enabled) ∧
    ∀ lv ∈ s.levels, InCents lv.buyPrice ∧ InCents lv.sellPrice

theorem inCents_run (cfg : LongGridConfig Double) (ops : List (GridOp Double))
    (hfinite : AllFinite ((gridMachine Double).run (.init cfg) ops).runtimeView) :
    ∀ lv ∈ ((gridMachine Double).run (.init cfg) ops).levels,
      InCents lv.buyPrice ∧ InCents lv.sellPrice := by
  intro lv hlv
  obtain ⟨⟨v, hbuy⟩, w, hsell⟩ := LongGridStrategy.rounded_run cfg ops lv hlv
  obtain ⟨hbuy', hsell'⟩ := hfinite.levels lv hlv
  rw [hbuy] at hbuy' ⊢
  rw [hsell] at hsell' ⊢
  exact ⟨inCents_round2 hbuy', inCents_round2 hsell'⟩

/-- Below 10000 six digits hold every price in cents. -/
theorem sixDigits_of_inCents {x : Double} (h : InCents x) (hlow : fabs x < .finite 10000) :
    SixDigits x := by
  cases x with
  | finite q =>
      obtain ⟨c, rfl⟩ := h
      have hcents : (0 : ℚ) < 100 := by norm_num
      rw [Double.fabs_finite, Double.finite_lt_finite, abs_div, abs_of_pos hcents,
        div_lt_iff₀ hcents] at hlow
      refine ⟨c, -2, ?_, ?_⟩
      · have hcast : ((|c| : ℤ) : ℚ) < (10 ^ 6 : ℤ) := by
          push_cast
          linarith
        exact_mod_cast hcast
      · rw [div_eq_mul_inv]
        norm_num
  | inf neg => cases h
  | nan => cases h

theorem printable_run_of_lt (cfg : LongGridConfig Double) (ops : List (GridOp Double))
    (hfinite : AllFinite ((gridMachine Double).run (.init cfg) ops).runtimeView)
    (hlow : ∀ lv ∈ ((gridMachine Double).run (.init cfg) ops).levels,
      fabs lv.buyPrice < .finite 10000 ∧ fabs lv.sellPrice < .finite 10000) :
    Printable ((gridMachine Double).run (.init cfg) ops).runtimeView where
  finite := hfinite
  prices := by
    intro lv hlv
    obtain ⟨hbuy, hsell⟩ := inCents_run cfg ops hfinite lv hlv
    obtain ⟨hbuy', hsell'⟩ := hlow lv hlv
    exact ⟨sixDigits_of_inCents hbuy hbuy', sixDigits_of_inCents hsell hsell'⟩

/-- In every run the snapshot decodes to the grid just where each number is
finite and each price has at most six significant digits. -/
theorem snapshot_decodes_iff (cfg : LongGridConfig Double) (ops : List (GridOp Double))
    (enabled : Bool) :
    Decodes ((gridMachine Double).run (.init cfg) ops) enabled ↔
      Printable ((gridMachine Double).run (.init cfg) ops).runtimeView := by
  rw [Decodes, decodeRuntime_eq_iff, and_iff_left_iff_imp]
  intro h
  exact inCents_run cfg ops h.finite

/-- With the default configuration a tick at 60000 makes a level at 58714.29,
and the text says 58714.3. -/
theorem six_digits_lose_a_cent :
    let s := (gridMachine Double).run (.init .default) [.priceTick (.finite 60000)]
    let decoded := (decodeRuntime (runtimeToJson s.runtimeView true)).bind fun r ↦ r.levels[1]?
    s.levels[1]?.map GridLevel.buyPrice = some (.finite 58714.29) ∧
      decoded.map LevelSnapshot.buyPrice = some (.finite 58714.3) ∧ ¬ Decodes s true := by
  exact ⟨by decide +kernel, by decide +kernel, fun h ↦ absurd h.1 (by decide +kernel)⟩

end App

end FrogQuant
