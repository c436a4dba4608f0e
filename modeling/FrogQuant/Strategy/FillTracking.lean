import FrogQuant.Strategy.OpenLevels

/-!
# Buys in flight across grid generations

The strategy talks to a venue that fills its buys later, in any order.  A buy
is in flight from its intent to its fill; the strategy knows of it only through
the open level of its grid id, which a rebuild or a stray sell fill forgets.
-/

namespace FrogQuant

variable {α : Type}

structure PlacedBuy (α : Type) where
  gridId : ℕ
  sellPrice : α
  deriving DecidableEq

/-- The strategy, its buys in flight, and the grid ids of the sells it has
returned. -/
structure Venue (α : Type) where
  strategy : LongGridStrategy α
  inFlight : List (PlacedBuy α)
  sells : List ℕ

/-- What happens to the strategy at a venue; `fillBuy k` fills the `k`-th of
the buys in flight. -/
inductive VenueEvent (α : Type) where
  | priceTick (price : α)
  | fillBuy (k : ℕ)
  | fillSell (gridId : ℕ)
  | updateConfig (cfg : LongGridConfig α)

variable [Floating α]

open LongGridStrategy

def placedBuys (s : LongGridStrategy α) (intents : List (StrategyOrderIntent α)) :
    List (PlacedBuy α) :=
  intents.filterMap fun intent ↦
    (findLevel intent.gridId s.levels).map fun lv ↦ ⟨intent.gridId, lv.sellPrice⟩

def venueMachine (α : Type) [Floating α] :
    Machine (Venue α) (VenueEvent α) (Option (StrategyOrderIntent α)) where
  step v e :=
    match e with
    | .priceTick price =>
        let (s, intents) := v.strategy.onPriceTick price
        ({ v with strategy := s, inFlight := v.inFlight ++ placedBuys s intents }, none)
    | .fillBuy k =>
        match v.inFlight[k]? with
        | none => (v, none)
        | some buy =>
            let (s, answer) := v.strategy.onBuyFilled buy.gridId
            ({ strategy := s
               inFlight := v.inFlight.eraseIdx k
               sells := v.sells ++ (answer.map StrategyOrderIntent.gridId).toList }, answer)
    | .fillSell gridId => ({ v with strategy := v.strategy.onSellFilled gridId }, none)
    | .updateConfig cfg => ({ v with strategy := v.strategy.updateConfig cfg }, none)

namespace Venue

def start (cfg : LongGridConfig α) : Venue α := ⟨init cfg, [], []⟩

omit [Floating α] in
/-- Only buys in flight are filled, and only sells that were returned. -/
def Legal (v : Venue α) : VenueEvent α → Prop
  | .fillBuy k => k < v.inFlight.length
  | .fillSell gridId => gridId ∈ v.sells
  | _ => True

/-- The fill of a buy is answered by the sell it was paired with. -/
def Answered (v : Venue α) : VenueEvent α → Prop
  | .fillBuy k => ∀ buy, v.inFlight[k]? = some buy →
      ∃ intent, (venueMachine α).out v (.fillBuy k) = some intent ∧
        intent.side = .sell ∧ intent.price = buy.sellPrice
  | _ => True

/-- The step makes the strategy forget a buy in flight: it builds a new grid
over an open level, or takes an open level for a sold one. -/
def Drops (v : Venue α) : VenueEvent α → Prop
  | .priceTick price => v.strategy.Rebuilds price ∧ v.strategy.HasOpen
  | .fillBuy _ => False
  | .fillSell gridId => ∃ lv, findLevel gridId v.strategy.levels = some lv ∧ lv.isOpen = true
  | .updateConfig _ => 0 < v.strategy.anchorPrice ∧ v.strategy.HasOpen

def KeepsBuys (v : Venue α) (e : VenueEvent α) : Prop := ¬ v.Drops e

/-! ## No step drops a buy: every fill is answered -/

omit [Floating α] in
/-- Every buy in flight has an open level of its own that holds its sell
price. -/
structure Tracked (s : LongGridStrategy α) (inFlight : List (PlacedBuy α)) : Prop where
  level : ∀ buy ∈ inFlight, ∃ lv, findLevel buy.gridId s.levels = some lv ∧
    lv.isOpen = true ∧ lv.sellPrice = buy.sellPrice
  nodup : (inFlight.map PlacedBuy.gridId).Nodup

variable {s : LongGridStrategy α} {inFlight : List (PlacedBuy α)}

omit [Floating α] in
theorem Tracked.eq_nil (h : Tracked s inFlight) (hopen : ¬ s.HasOpen) : inFlight = [] := by
  rw [List.eq_nil_iff_forall_not_mem]
  intro buy hbuy
  obtain ⟨lv, hlv, hlvOpen, -⟩ := h.level buy hbuy
  exact hopen ⟨lv, mem_of_findSlot hlv, hlvOpen⟩

omit [Floating α] in
theorem tracked_nil (s : LongGridStrategy α) : Tracked s [] :=
  ⟨fun _ h ↦ absurd h List.not_mem_nil, List.nodup_nil⟩

omit [Floating α] in
theorem Tracked.setState (h : Tracked s inFlight) {id : ℕ}
    (hid : ∀ buy ∈ inFlight, buy.gridId ≠ id) (state : GridLevelState) :
    Tracked (s.setState id state) inFlight := by
  refine ⟨fun buy hbuy ↦ ?_, h.nodup⟩
  rw [findLevel_setState, if_neg (hid buy hbuy)]
  exact h.level buy hbuy

omit [Floating α] in
theorem Tracked.place (h : Tracked s inFlight) {lv : GridLevel α}
    (hlv : findLevel lv.id s.levels = some lv) (hidle : lv.state = .idle) :
    Tracked (s.setState lv.id .buyPlaced) (inFlight ++ [⟨lv.id, lv.sellPrice⟩]) := by
  have hfree : ∀ buy ∈ inFlight, buy.gridId ≠ lv.id := by
    intro buy hbuy heq
    obtain ⟨lv', hlv', hopen, -⟩ := h.level buy hbuy
    rw [heq, hlv] at hlv'
    obtain rfl := Option.some.inj hlv'
    exact absurd hopen (by simp [GridLevel.isOpen_of_idle hidle])
  refine ⟨fun buy hbuy ↦ ?_, ?_⟩
  · rcases List.mem_append.mp hbuy with hold | hnew
    · exact (h.setState hfree .buyPlaced).level buy hold
    · obtain rfl := List.mem_singleton.mp hnew
      rw [findLevel_setState, if_pos rfl, hlv]
      exact ⟨_, rfl, by simp, rfl⟩
  · rw [List.map_append, List.map_singleton, ← List.concat_eq_append]
    refine List.Nodup.concat (fun hmem ↦ ?_) h.nodup
    obtain ⟨buy, hbuy, heq⟩ := List.mem_map.mp hmem
    exact hfree buy hbuy heq

omit [Floating α] in
theorem Tracked.fill (h : Tracked s inFlight) {k : ℕ} {buy : PlacedBuy α}
    (hk : inFlight[k]? = some buy) (state : GridLevelState) :
    Tracked (s.setState buy.gridId state) (inFlight.eraseIdx k) := by
  have hrest : Tracked s (inFlight.eraseIdx k) :=
    ⟨fun buy' hbuy' ↦ h.level buy' (List.mem_of_mem_eraseIdx hbuy'),
      h.nodup.sublist ((List.eraseIdx_sublist inFlight k).map _)⟩
  refine hrest.setState (fun buy' hbuy' heq ↦ ?_) state
  obtain ⟨i, hi, hget⟩ := List.mem_eraseIdx_iff_getElem?.mp hbuy'
  have hlt : i < inFlight.length := (List.getElem?_eq_some_iff.mp hget).1
  apply hi
  apply (List.getElem?_inj (by simpa using hlt) h.nodup).mp
  rw [List.getElem?_map, List.getElem?_map, hget, hk, Option.map_some, Option.map_some, heq]

theorem Tracked.recentre (h : Tracked s inFlight) {price : α} (hprice : ¬ price ≤ 0)
    (hdrop : ¬ (s.Rebuilds price ∧ s.HasOpen)) : Tracked (s.recentre price) inFlight := by
  rcases s.recentre_cases hprice with ⟨hrebuild, -⟩ | ⟨-, hsame⟩
  · rw [h.eq_nil fun hopen ↦ hdrop ⟨hrebuild, hopen⟩]
    exact tracked_nil _
  · rwa [hsame]

omit [Floating α] in
theorem placedBuys_singleton {lv : GridLevel α} (hlv : findLevel lv.id s.levels = some lv)
    (qty : α) :
    placedBuys (s.setState lv.id .buyPlaced) [⟨.buy, .limit, qty, lv.buyPrice, lv.id⟩] =
      [⟨lv.id, lv.sellPrice⟩] := by
  simp [placedBuys, findLevel_setState, hlv, GridLevel.withState]

/-- A step that drops nothing keeps track of every buy in flight, and answers
the fill it may make. -/
theorem tracked_next {v : Venue α} (h : Tracked v.strategy v.inFlight) {e : VenueEvent α}
    (hdrop : v.KeepsBuys e) :
    Tracked ((venueMachine α).next v e).strategy ((venueMachine α).next v e).inFlight ∧
      v.Answered e := by
  cases e with
  | priceTick price =>
      refine ⟨?_, trivial⟩
      change Tracked (v.strategy.onPriceTick price).1
        (v.inFlight ++ placedBuys (v.strategy.onPriceTick price).1 (v.strategy.onPriceTick price).2)
      by_cases hprice : price ≤ 0
      · rw [onPriceTick_of_le _ hprice]
        simpa [placedBuys] using h
      · have hgrid := h.recentre hprice hdrop
        rcases v.strategy.onPriceTick_cases hprice with hnone | ⟨lv, hlv, hidle, -, hemit⟩
        · rw [hnone]
          simpa [placedBuys] using hgrid
        · rw [hemit, placedBuys_singleton hlv]
          exact hgrid.place hlv hidle
  | fillSell gridId =>
      refine ⟨?_, trivial⟩
      change Tracked (v.strategy.onSellFilled gridId) v.inFlight
      rw [onSellFilled_eq]
      refine h.setState (fun buy hbuy heq ↦ hdrop ?_) .idle
      obtain ⟨lv, hlv, hopen, -⟩ := h.level buy hbuy
      exact ⟨lv, heq ▸ hlv, hopen⟩
  | updateConfig cfg =>
      refine ⟨?_, trivial⟩
      change Tracked (v.strategy.updateConfig cfg) v.inFlight
      by_cases hanchor : 0 < v.strategy.anchorPrice
      · rw [h.eq_nil fun hopen ↦ hdrop ⟨hanchor, hopen⟩]
        exact tracked_nil _
      · simp only [updateConfig, hanchor, if_false]
        exact ⟨h.level, h.nodup⟩
  | fillBuy k =>
      cases hk : v.inFlight[k]? with
      | none =>
          have hsame : (venueMachine α).next v (.fillBuy k) = v := by
            simp only [Machine.next, venueMachine, hk]
          rw [hsame]
          exact ⟨h, fun buy hbuy ↦ by simp [hk] at hbuy⟩
      | some buy =>
          obtain ⟨lv, hlv, hopen, hsell⟩ := h.level buy (List.mem_of_getElem? hk)
          rcases v.strategy.onBuyFilled_cases buy.gridId with ⟨lv', hlv', -, hfill⟩ | ⟨hno, -⟩
          · obtain rfl := Option.some.inj (hlv.symm.trans hlv')
            refine ⟨?_, fun buy' hbuy' ↦ ?_⟩
            · simp only [Machine.next, venueMachine, hk, hfill]
              exact h.fill hk .sellPlaced
            · obtain rfl := Option.some.inj (hk.symm.trans hbuy')
              refine ⟨⟨.sell, .limit, v.strategy.cfg.orderQty, lv.sellPrice, buy.gridId⟩, ?_, rfl,
                hsell⟩
              simp only [Machine.out, venueMachine, hk, hfill]
          · exact absurd ⟨lv, hlv, hopen⟩ hno

/-! ## Every fill is answered: no step dropped a buy -/

/-- A step forgets some number `d` of open levels, and then as many more buys
in flight are left without a level.  A fill that is answered takes one of
each. -/
theorem gap_next {v : Venue α} {e : VenueEvent α} (hans : v.Answered e) :
    ∃ d, (v.Drops e → 1 ≤ d) ∧
      v.inFlight.length + ((venueMachine α).next v e).strategy.openCount + d =
        ((venueMachine α).next v e).inFlight.length + v.strategy.openCount := by
  have hhasOpen : v.strategy.HasOpen → 1 ≤ v.strategy.openCount := fun h ↦
    Nat.one_le_iff_ne_zero.mpr fun h0 ↦ (openCount_eq_zero_iff.mp h0) h
  cases e with
  | priceTick price =>
      simp only [Machine.next, venueMachine]
      by_cases hprice : price ≤ 0
      · refine ⟨0, fun hdrop ↦ absurd hprice hdrop.1.1, ?_⟩
        simp [onPriceTick_of_le _ hprice, placedBuys]
      · have hgrid : ∃ d, (v.Drops (.priceTick price) → 1 ≤ d) ∧
            (v.strategy.recentre price).openCount + d = v.strategy.openCount := by
          rcases v.strategy.recentre_cases hprice with ⟨-, -, hlevels, -⟩ | ⟨hno, hsame⟩
          · have hzero := openCount_of_gridLevels hlevels
            exact ⟨_, fun hdrop ↦ hhasOpen hdrop.2, by rw [hzero, zero_add]⟩
          · exact ⟨0, fun hdrop ↦ absurd hdrop.1 hno, by rw [hsame, add_zero]⟩
        obtain ⟨d, hd, hcount⟩ := hgrid
        refine ⟨d, hd, ?_⟩
        rcases v.strategy.onPriceTick_cases hprice with hnone | ⟨lv, hlv, hidle, -, hemit⟩
        · simp only [hnone, placedBuys, List.filterMap_nil, List.append_nil]
          omega
        · simp only [hemit, placedBuys_singleton hlv, List.length_append, List.length_singleton,
            openCount_place hlv hidle]
          omega
  | updateConfig cfg =>
      simp only [Machine.next, venueMachine, updateConfig]
      split_ifs with hanchor
      · refine ⟨v.strategy.openCount, fun hdrop ↦ hhasOpen hdrop.2, ?_⟩
        rw [openCount_of_gridLevels rfl, add_zero]
      · exact ⟨0, fun hdrop ↦ absurd hdrop.1 hanchor, rfl⟩
  | fillSell gridId =>
      simp only [Machine.next, venueMachine, onSellFilled_eq, Drops]
      cases hfind : findLevel gridId v.strategy.levels with
      | none =>
          refine ⟨0, ?_, by rw [setState_of_none hfind, add_zero]⟩
          rintro ⟨lv, hlv, -⟩
          cases hlv
      | some lv =>
          obtain rfl : lv.id = gridId := key_of_findSlot hfind
          have hclose := openCount_close hfind (Or.inl rfl)
          refine ⟨if lv.isOpen then 1 else 0, ?_, by omega⟩
          rintro ⟨lv', hlv', hopen⟩
          obtain rfl := Option.some.inj hlv'
          rw [if_pos hopen]
  | fillBuy k =>
      refine ⟨0, False.elim, ?_⟩
      cases hk : v.inFlight[k]? with
      | none => simp only [Machine.next, venueMachine, hk, add_zero]
      | some buy =>
          have hlt : k < v.inFlight.length := (List.getElem?_eq_some_iff.mp hk).1
          obtain ⟨intent, hout, -⟩ := hans buy hk
          simp only [Machine.out, venueMachine, hk] at hout
          rcases v.strategy.onBuyFilled_cases buy.gridId with ⟨lv, hlv, hopen, hfill⟩ | ⟨-, hfill⟩
          · have hid : lv.id = buy.gridId := key_of_findSlot hlv
            have hclose := openCount_close (hid ▸ hlv) (Or.inr rfl)
            rw [if_pos hopen, hid] at hclose
            simp only [Machine.next, venueMachine, hk, hfill, List.length_eraseIdx_of_lt hlt]
            omega
          · simp [hfill] at hout

theorem gap_run {v : Venue α} {es : List (VenueEvent α)}
    (hans : (venueMachine α).AllSteps Answered v es) :
    v.inFlight.length + ((venueMachine α).run v es).strategy.openCount ≤
      ((venueMachine α).run v es).inFlight.length + v.strategy.openCount := by
  induction es generalizing v with
  | nil => exact le_rfl
  | cons e es ih =>
      obtain ⟨d, -, hstep⟩ := gap_next hans.1
      have hrest := ih hans.2
      rw [Machine.run_cons]
      omega

/-- In every run that drops no buy in flight, every fill is answered by the
sell it was paired with; and a run in which every buy is filled in the end
answers them all only if it drops none. -/
theorem fills_answered_iff_none_dropped (cfg : LongGridConfig α) (es : List (VenueEvent α)) :
    ((venueMachine α).AllSteps KeepsBuys (start cfg) es →
      (venueMachine α).AllSteps Answered (start cfg) es) ∧
    (((venueMachine α).run (start cfg) es).inFlight = [] →
      ((venueMachine α).AllSteps Answered (start cfg) es ↔
        (venueMachine α).AllSteps KeepsBuys (start cfg) es)) := by
  have hanswered : (venueMachine α).AllSteps KeepsBuys (start cfg) es →
      (venueMachine α).AllSteps Answered (start cfg) es :=
    Machine.AllSteps.imp_of_invariant _ (fun v ↦ Tracked v.strategy v.inFlight)
      (fun _ _ hv hkeep ↦ tracked_next hv hkeep) (tracked_nil _)
  refine ⟨hanswered, fun hfilled ↦ ⟨fun hans ↦ ?_, hanswered⟩⟩
  rw [Machine.allSteps_iff_split]
  rintro pre e post rfl hdrop
  rw [Machine.allSteps_append, Machine.allSteps_cons] at hans
  obtain ⟨hpre, hstep, hpost⟩ := hans
  obtain ⟨d, hd, hgap⟩ := gap_next hstep
  have hbefore := gap_run hpre
  have hafter := gap_run hpost
  rw [Machine.run_append, Machine.run_cons] at hfilled
  have hd' := hd hdrop
  have hstart : (start cfg).strategy.openCount = 0 := rfl
  have hstart' : (start cfg).inFlight.length = 0 := rfl
  rw [hfilled, List.length_nil] at hafter
  omega

/-- A configuration update between a buy and its fill: the fill gets no
sell. -/
theorem updateConfig_loses_takeProfit :
    ¬ ∀ (cfg : LongGridConfig ℚ) (es : List (VenueEvent ℚ)),
      (venueMachine ℚ).AllSteps Legal (start cfg) es →
      ((venueMachine ℚ).run (start cfg) es).inFlight = [] →
      (venueMachine ℚ).AllSteps Answered (start cfg) es := by
  intro h
  have hrun := h .default [.priceTick 100, .updateConfig .default, .fillBuy 0]
    ⟨trivial, trivial, by unfold Legal; decide +kernel, trivial⟩ (by decide +kernel)
  obtain ⟨intent, hout, -⟩ := hrun.2.2.1 ⟨5, 100.63⟩ (by decide +kernel)
  have hnone : (venueMachine ℚ).outputs (start .default)
      [.priceTick 100, .updateConfig .default, .fillBuy 0] = [none, none, none] := by
    decide +kernel
  simp [hout] at hnone

end Venue

end FrogQuant
