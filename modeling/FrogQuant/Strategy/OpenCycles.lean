import FrogQuant.Strategy.LifeCycle

/-!
# Open cycles

A cycle runs from a buy intent to the fill of its sell.  As long as no level
with an order is lost in a new grid, each open cycle has a level of its own,
and the grid bounds their number.
-/

namespace FrogQuant

variable {α : Type}

/-- The strategy and its orders: the grid ids of the buys and of the sells that
are not filled yet, the number of buy intents emitted and of sells filled. -/
structure OrderDesk (α : Type) where
  strategy : LongGridStrategy α
  openBuys : List ℕ
  openSells : List ℕ
  buysEmitted : ℕ
  sellsFilled : ℕ

inductive DeskEvent (α : Type) where
  | priceTick (price : α)
  | buyFilled (gridId : ℕ)
  | sellFilled (gridId : ℕ)

open LongGridStrategy

def deskMachine (α : Type) [Floating α] :
    Machine (OrderDesk α) (DeskEvent α) (List (StrategyOrderIntent α)) where
  step d e :=
    match e with
    | .priceTick price =>
        let (s, intents) := d.strategy.onPriceTick price
        ({ d with
            strategy := s
            openBuys := d.openBuys ++ intents.map StrategyOrderIntent.gridId
            buysEmitted := d.buysEmitted + intents.length }, intents)
    | .buyFilled gridId =>
        let (s, answer) := d.strategy.onBuyFilled gridId
        ({ d with
            strategy := s
            openBuys := d.openBuys.erase gridId
            openSells := d.openSells ++ answer.toList.map StrategyOrderIntent.gridId },
          answer.toList)
    | .sellFilled gridId =>
        ({ d with
            strategy := d.strategy.onSellFilled gridId
            openSells := d.openSells.erase gridId
            sellsFilled := d.sellsFilled + 1 }, [])

namespace OrderDesk

def openCycles (d : OrderDesk α) : ℕ := d.buysEmitted - d.sellsFilled

/-- Fills arrive for open orders only. -/
def Legal (d : OrderDesk α) : DeskEvent α → Prop
  | .priceTick _ => True
  | .buyFilled gridId => gridId ∈ d.openBuys
  | .sellFilled gridId => gridId ∈ d.openSells

instance (d : OrderDesk α) : DecidablePred d.Legal
  | .priceTick _ => inferInstanceAs (Decidable True)
  | .buyFilled gridId => inferInstanceAs (Decidable (gridId ∈ d.openBuys))
  | .sellFilled gridId => inferInstanceAs (Decidable (gridId ∈ d.openSells))

def start [Floating α] (cfg : LongGridConfig α) : OrderDesk α := ⟨init cfg, [], [], 0, 0⟩

/-! ## Orders and their levels -/

/-- Every open order has a level of its own. -/
structure Backed (s : LongGridStrategy α) (buys sells : List ℕ) : Prop where
  placed : ∀ id ∈ buys, s.openAt id = true
  sold : ∀ id ∈ sells, s.stateAt id = some .sellPlaced
  nodupBuys : buys.Nodup
  nodupSells : sells.Nodup

variable {s : LongGridStrategy α} {buys sells : List ℕ}

theorem backed_nil (s : LongGridStrategy α) : Backed s [] [] :=
  ⟨by simp, by simp, List.nodup_nil, List.nodup_nil⟩

theorem openAt_of_stateAt {id : ℕ}
    (h : s.stateAt id = some .idle ∨ s.stateAt id = some .sellPlaced) : s.openAt id = false := by
  rw [← Bool.not_eq_true, openAt_iff]
  rcases h with h | h <;> simp [h]

theorem Backed.mem_ids (h : Backed s buys sells) {id : ℕ} (hid : id ∈ buys ++ sells) :
    id ∈ s.levels.map GridLevel.id := by
  have hstate : ∃ state, s.stateAt id = some state := by
    rcases List.mem_append.mp hid with hbuy | hsell
    · rcases (openAt_iff s id).mp (h.placed id hbuy) with hstate | hstate
      · exact ⟨_, hstate⟩
      · exact ⟨_, hstate⟩
    · exact ⟨_, h.sold id hsell⟩
  obtain ⟨state, hstate⟩ := hstate
  obtain ⟨lv, hlv, -⟩ := Option.map_eq_some_iff.mp hstate
  exact List.mem_map.mpr ⟨lv, mem_of_findSlot hlv, key_of_findSlot hlv⟩

theorem Backed.nodup (h : Backed s buys sells) : (buys ++ sells).Nodup := by
  rw [List.nodup_append]
  refine ⟨h.nodupBuys, h.nodupSells, ?_⟩
  rintro id hbuy _ hsell rfl
  have hopen := h.placed id hbuy
  rw [openAt_of_stateAt (Or.inr (h.sold id hsell))] at hopen
  cases hopen

theorem Backed.length_le (h : Backed s buys sells) :
    buys.length + sells.length ≤ s.levels.length := by
  have hsub : buys ++ sells ⊆ s.levels.map GridLevel.id := fun _ hid ↦ h.mem_ids hid
  simpa using (List.subperm_of_subset h.nodup hsub).length_le

theorem Backed.eq_nil (h : Backed s buys sells) (hidle : ∀ lv ∈ s.levels, lv.state = .idle) :
    buys = [] ∧ sells = [] := by
  constructor
  · rw [List.eq_nil_iff_forall_not_mem]
    intro id hid
    rcases (openAt_iff s id).mp (h.placed id hid) with hopen | hopen <;>
      cases eq_idle_of_stateAt hidle hopen
  · rw [List.eq_nil_iff_forall_not_mem]
    intro id hid
    cases eq_idle_of_stateAt hidle (h.sold id hid)

/-! ## One step -/

variable {lv : GridLevel α}

/-- A state is written for a level that no order in the lists stands at. -/
theorem Backed.setState (h : Backed s buys sells) (hlv : findLevel lv.id s.levels = some lv)
    (hid : lv.id ∉ buys ++ sells) (state : GridLevelState) :
    Backed (s.setState lv.id state) buys sells := by
  have hne : ∀ id ∈ buys ++ sells, id ≠ lv.id := fun id hmem heq ↦ hid (heq ▸ hmem)
  refine ⟨fun id hbuy ↦ ?_, fun id hsell ↦ ?_, h.nodupBuys, h.nodupSells⟩
  · rw [openAt_setState hlv, if_neg (hne id (List.mem_append_left _ hbuy))]
    exact h.placed id hbuy
  · rw [stateAt_setState hlv, if_neg (hne id (List.mem_append_right _ hsell))]
    exact h.sold id hsell

theorem Backed.place (h : Backed s buys sells) (hlv : findLevel lv.id s.levels = some lv)
    (hidle : lv.state = .idle) : Backed (s.setState lv.id .buyPlaced) (buys ++ [lv.id]) sells := by
  have hstate : s.stateAt lv.id = some .idle := by rw [stateAt_eq hlv, hidle]
  have hbuy : lv.id ∉ buys := by
    intro hmem
    have hopen := h.placed _ hmem
    rw [openAt_of_stateAt (Or.inl hstate)] at hopen
    cases hopen
  have hsell : lv.id ∉ sells := by
    intro hmem
    cases (h.sold _ hmem).symm.trans hstate
  have hrest := h.setState hlv (by simp [hbuy, hsell]) .buyPlaced
  refine ⟨fun id hid ↦ ?_, hrest.sold, ?_, h.nodupSells⟩
  · rcases List.mem_append.mp hid with hold | hnew
    · exact hrest.placed id hold
    · obtain rfl := List.mem_singleton.mp hnew
      simp [openAt_setState hlv]
  · rw [← List.concat_eq_append]
    exact List.Nodup.concat hbuy h.nodupBuys

theorem Backed.fillBuy (h : Backed s buys sells) (hlv : findLevel lv.id s.levels = some lv)
    (hopen : lv.isOpen = true) :
    Backed (s.setState lv.id .sellPlaced) (buys.erase lv.id) (sells ++ [lv.id]) := by
  have hsell : lv.id ∉ sells := by
    intro hmem
    have hclosed := openAt_of_stateAt (Or.inr (h.sold _ hmem))
    rw [openAt_eq hlv, hopen] at hclosed
    cases hclosed
  have hbuys : Backed s (buys.erase lv.id) sells :=
    ⟨fun id hid ↦ h.placed id (List.mem_of_mem_erase hid), h.sold, h.nodupBuys.erase _,
      h.nodupSells⟩
  have hrest := hbuys.setState hlv (by simp [hsell, h.nodupBuys.not_mem_erase]) .sellPlaced
  refine ⟨hrest.placed, fun id hid ↦ ?_, hrest.nodupBuys, ?_⟩
  · rcases List.mem_append.mp hid with hold | hnew
    · exact hrest.sold id hold
    · obtain rfl := List.mem_singleton.mp hnew
      simp [stateAt_setState hlv]
  · rw [← List.concat_eq_append]
    exact List.Nodup.concat hsell h.nodupSells

theorem Backed.fillSell (h : Backed s buys sells) (hlv : findLevel lv.id s.levels = some lv)
    (hsold : lv.id ∈ sells) : Backed (s.setState lv.id .idle) buys (sells.erase lv.id) := by
  have hbuy : lv.id ∉ buys := by
    intro hmem
    exact (List.nodup_append.mp h.nodup).2.2 _ hmem _ hsold rfl
  have hsells : Backed s buys (sells.erase lv.id) :=
    ⟨h.placed, fun id hid ↦ h.sold id (List.mem_of_mem_erase hid), h.nodupBuys,
      h.nodupSells.erase _⟩
  exact hsells.setState hlv (by simp [hbuy, h.nodupSells.not_mem_erase]) .idle

variable [Floating α]

/-- A new grid is built over idle levels only. -/
def RebuildsIdle (d : OrderDesk α) : DeskEvent α → Prop
  | .priceTick price => d.strategy.Rebuilds price → ∀ lv ∈ d.strategy.levels, lv.state = .idle
  | _ => True

instance (d : OrderDesk α) : DecidablePred d.RebuildsIdle
  | .priceTick price => inferInstanceAs
      (Decidable (d.strategy.Rebuilds price → ∀ lv ∈ d.strategy.levels, lv.state = .idle))
  | .buyFilled _ => inferInstanceAs (Decidable True)
  | .sellFilled _ => inferInstanceAs (Decidable True)

omit [Floating α] in
/-- The open orders have levels, and make up the open cycles. -/
structure Accounted (d : OrderDesk α) : Prop where
  backed : Backed d.strategy d.openBuys d.openSells
  cycles : d.buysEmitted = d.sellsFilled + d.openBuys.length + d.openSells.length

omit [Floating α] in
theorem Accounted.openCycles_le {d : OrderDesk α} (h : d.Accounted) :
    d.openCycles ≤ d.strategy.levels.length := by
  have hlength := h.backed.length_le
  have hcycles := h.cycles
  unfold openCycles
  omega

theorem Backed.recentre (h : Backed s buys sells) {price : α} (hprice : ¬ price ≤ 0)
    (hrebuild : s.Rebuilds price → ∀ lv ∈ s.levels, lv.state = .idle) :
    Backed (s.recentre price) buys sells := by
  rcases s.recentre_cases hprice with ⟨hnew, -⟩ | ⟨-, hsame⟩
  · obtain ⟨rfl, rfl⟩ := h.eq_nil (hrebuild hnew)
    exact backed_nil _
  · rwa [hsame]

theorem accounted_next {d : OrderDesk α} (h : d.Accounted) {e : DeskEvent α} (hlegal : d.Legal e)
    (hrebuild : d.RebuildsIdle e) : ((deskMachine α).next d e).Accounted := by
  have hcycles := h.cycles
  cases e with
  | priceTick price =>
      simp only [Machine.next, deskMachine]
      by_cases hprice : price ≤ 0
      · rw [onPriceTick_of_le _ hprice]
        exact ⟨by simpa using h.backed, by simpa using hcycles⟩
      · have hgrid := h.backed.recentre hprice hrebuild
        rcases d.strategy.onPriceTick_cases hprice with hnone | ⟨lv, hlv, hidle, -, hemit⟩
        · rw [hnone]
          exact ⟨by simpa using hgrid, by simpa using hcycles⟩
        · rw [hemit]
          refine ⟨hgrid.place hlv hidle, ?_⟩
          simp only [List.map_singleton, List.length_append, List.length_singleton]
          omega
  | buyFilled gridId =>
      simp only [Machine.next, deskMachine]
      have hopen := h.backed.placed gridId hlegal
      have hlength := List.length_erase_of_mem hlegal
      have hpos := List.length_pos_of_mem hlegal
      rcases d.strategy.onBuyFilled_cases gridId with ⟨lv, hlv, hlvOpen, hfill⟩ | ⟨hno, -⟩
      · obtain rfl : lv.id = gridId := key_of_findSlot hlv
        rw [hfill]
        refine ⟨h.backed.fillBuy hlv hlvOpen, ?_⟩
        simp only [Option.toList_some, List.map_singleton, List.length_append,
          List.length_singleton, hlength]
        omega
      · exact absurd ((Option.any_eq_true _ _).mp hopen) hno
  | sellFilled gridId =>
      simp only [Machine.next, deskMachine]
      have hlength := List.length_erase_of_mem hlegal
      have hpos := List.length_pos_of_mem hlegal
      obtain ⟨lv, hlv, -⟩ := Option.map_eq_some_iff.mp (h.backed.sold gridId hlegal)
      obtain rfl : lv.id = gridId := key_of_findSlot hlv
      rw [onSellFilled_eq]
      refine ⟨h.backed.fillSell hlv hlegal, ?_⟩
      simp only [hlength]
      omega

theorem accounted_run {cfg : LongGridConfig α} {es : List (DeskEvent α)}
    (hlegal : (deskMachine α).AllSteps Legal (start cfg) es)
    (hrebuild : (deskMachine α).AllSteps RebuildsIdle (start cfg) es) :
    ((deskMachine α).run (start cfg) es).Accounted := by
  have hboth : (deskMachine α).AllSteps (fun d e ↦ d.Legal e ∧ d.RebuildsIdle e) (start cfg) es :=
    (Machine.allSteps_and _).mpr ⟨hlegal, hrebuild⟩
  exact Machine.AllSteps.run_invariant (P := Accounted) _
    (fun _ _ h hstep ↦ accounted_next h hstep.1 hstep.2) hboth ⟨backed_nil _, rfl⟩

/-- In every run whose fills arrive for open orders, and whose new grids are
built over idle levels, the open cycles never outnumber the levels. -/
theorem open_cycles_bounded (cfg : LongGridConfig α) (es : List (DeskEvent α))
    (hlegal : (deskMachine α).AllSteps Legal (start cfg) es)
    (hrebuild : (deskMachine α).AllSteps RebuildsIdle (start cfg) es) :
    ∀ pre, pre <+: es → ((deskMachine α).run (start cfg) pre).openCycles ≤
      ((deskMachine α).run (start cfg) pre).strategy.levels.length := by
  rintro pre ⟨post, rfl⟩
  rw [Machine.allSteps_append] at hlegal hrebuild
  exact (accounted_run hlegal.1 hrebuild.1).openCycles_le

/-- A buy, its sell, and a drifted price over the idle grid. -/
theorem open_cycles_bounded_one_cycle :
    ((deskMachine ℚ).run (start .default)
        [.priceTick 100, .buyFilled 5, .sellFilled 5, .priceTick 102]).openCycles ≤
      ((deskMachine ℚ).run (start .default)
        [.priceTick 100, .buyFilled 5, .sellFilled 5, .priceTick 102]).strategy.levels.length :=
  open_cycles_bounded .default [.priceTick 100, .buyFilled 5, .sellFilled 5, .priceTick 102]
    (by decide +kernel) (by decide +kernel) _ List.prefix_rfl

def twoLevels : LongGridConfig ℚ := { LongGridConfig.default with levels := 2 }

/-- A price that swings around the anchor leaves a buy open in each of three
grids of two levels. -/
theorem recentring_forgets_open_cycles :
    ¬ ∀ (cfg : LongGridConfig ℚ) (es : List (DeskEvent ℚ)),
      (deskMachine ℚ).AllSteps Legal (start cfg) es →
      ((deskMachine ℚ).run (start cfg) es).openCycles ≤
        ((deskMachine ℚ).run (start cfg) es).strategy.levels.length := by
  intro h
  have hrun := h twoLevels [.priceTick 100, .priceTick 101, .priceTick 100] (by decide +kernel)
  have hcount : ¬ ((deskMachine ℚ).run (start twoLevels)
      [.priceTick 100, .priceTick 101, .priceTick 100]).openCycles ≤
      ((deskMachine ℚ).run (start twoLevels)
        [.priceTick 100, .priceTick 101, .priceTick 100]).strategy.levels.length := by
    decide +kernel
  exact hcount hrun

end OrderDesk

end FrogQuant
