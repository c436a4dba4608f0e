import FrogQuant.Strategy.LongGridStrategy

/-!
# Open levels

A level is open while a buy is out for it.  The operations of the strategy
open levels one at a time, close them one at a time, or close all of them by
building a new grid.
-/

namespace FrogQuant

variable {α : Type}

namespace LongGridStrategy

def HasOpen (s : LongGridStrategy α) : Prop := ∃ lv ∈ s.levels, lv.isOpen = true

instance (s : LongGridStrategy α) : Decidable s.HasOpen :=
  inferInstanceAs (Decidable (∃ lv ∈ s.levels, lv.isOpen = true))

def openAt (s : LongGridStrategy α) (id : ℕ) : Bool :=
  (findLevel id s.levels).any GridLevel.isOpen

def openCount (s : LongGridStrategy α) : ℕ := s.levels.countP GridLevel.isOpen

variable {s : LongGridStrategy α} {lv : GridLevel α}

theorem openAt_eq (h : findLevel lv.id s.levels = some lv) : s.openAt lv.id = lv.isOpen := by
  rw [openAt, h, Option.any_some]

theorem hasOpen_of_openAt {id : ℕ} (h : s.openAt id = true) : s.HasOpen := by
  obtain ⟨lv, hlv, hopen⟩ := (Option.any_eq_true _ _).mp h
  exact ⟨lv, mem_of_findSlot hlv, hopen⟩

theorem openCount_eq_zero_iff : s.openCount = 0 ↔ ¬ s.HasOpen := by
  rw [openCount, List.countP_eq_zero, HasOpen]
  push Not
  rfl

theorem setState_of_none {id : ℕ} (h : findLevel id s.levels = none) (state : GridLevelState) :
    s.setState id state = s := by
  simp only [setState, writeSlot_of_none h]

/-! ## Writing a state -/

theorem openAt_setState (h : findLevel lv.id s.levels = some lv) (state : GridLevelState)
    (id : ℕ) :
    (s.setState lv.id state).openAt id =
      if id = lv.id then decide (state = .buyPlaced ∨ state = .buyFilled) else s.openAt id := by
  rw [openAt, findLevel_setState]
  split_ifs
  · rw [h, Option.map_some, Option.any_some, GridLevel.isOpen_withState]
  · rfl

theorem openCount_setState (h : findLevel lv.id s.levels = some lv) (state : GridLevelState) :
    (s.setState lv.id state).openCount + (if lv.isOpen then 1 else 0) =
      s.openCount + (if (lv.withState state).isOpen then 1 else 0) :=
  countP_writeSlot GridLevel.isOpen h

theorem openCount_place (h : findLevel lv.id s.levels = some lv) (hidle : lv.state = .idle) :
    (s.setState lv.id .buyPlaced).openCount = s.openCount + 1 := by
  have hcount := openCount_setState h .buyPlaced
  simpa [GridLevel.isOpen_of_idle hidle] using hcount

theorem openCount_close (h : findLevel lv.id s.levels = some lv) {state : GridLevelState}
    (hstate : state = .idle ∨ state = .sellPlaced) :
    (s.setState lv.id state).openCount + (if lv.isOpen then 1 else 0) = s.openCount := by
  rw [openCount_setState h state]
  rcases hstate with rfl | rfl <;> simp

/-! ## A new grid -/

variable [Floating α]

theorem openCount_of_gridLevels {cfg : LongGridConfig α} {price : α}
    (h : s.levels = gridLevels cfg price) : s.openCount = 0 := by
  rw [openCount, h, List.countP_eq_zero]
  intro lv hlv
  simp [GridLevel.isOpen_of_idle (idle_of_mem_gridLevels hlv)]

/-- What an operation does once it has settled which grid it works on. -/
inductive Effect (s : LongGridStrategy α) :
    LongGridStrategy α → List (StrategyOrderIntent α) → Prop
  | quiet : Effect s s []
  | buy {lv : GridLevel α} (hlv : findLevel lv.id s.levels = some lv) (hidle : lv.state = .idle) :
      Effect s (s.setState lv.id .buyPlaced)
        [⟨.buy, .limit, s.cfg.orderQty, lv.buyPrice, lv.id⟩]
  | sell {lv : GridLevel α} (hlv : findLevel lv.id s.levels = some lv) (hopen : lv.isOpen = true) :
      Effect s (s.setState lv.id .sellPlaced)
        [⟨.sell, .limit, s.cfg.orderQty, lv.sellPrice, lv.id⟩]
  | free {lv : GridLevel α} (hlv : findLevel lv.id s.levels = some lv) :
      Effect s (s.setState lv.id .idle) []

/-- Every operation works on the old strategy or on one with no open level,
provided that an anchor stands wherever a level is open: a configuration
without a new grid then finds none. -/
theorem effect_next (s : LongGridStrategy α) (hanchor : s.HasOpen → 0 < s.anchorPrice)
    (op : GridOp α) :
    ∃ s₁, (s₁ = s ∨ s₁.openCount = 0) ∧
      Effect s₁ ((gridMachine α).next s op) ((gridMachine α).out s op) := by
  cases op with
  | priceTick price =>
      simp only [Machine.next, Machine.out, gridMachine]
      by_cases hprice : price ≤ 0
      · rw [onPriceTick_of_le s hprice]
        exact ⟨s, Or.inl rfl, .quiet⟩
      · refine ⟨s.recentre price, ?_, ?_⟩
        · rcases s.recentre_cases hprice with ⟨-, -, hlevels, -⟩ | ⟨-, hsame⟩
          · exact Or.inr (openCount_of_gridLevels hlevels)
          · exact Or.inl hsame
        · rcases s.onPriceTick_cases hprice with hnone | ⟨lv, hlv, hidle, -, hemit⟩
          · rw [hnone]
            exact .quiet
          · rw [hemit]
            exact .buy hlv hidle
  | buyFilled gridId =>
      simp only [Machine.next, Machine.out, gridMachine]
      refine ⟨s, Or.inl rfl, ?_⟩
      rcases s.onBuyFilled_cases gridId with ⟨lv, hlv, hopen, hfill⟩ | ⟨-, hfill⟩
      · obtain rfl : lv.id = gridId := key_of_findSlot hlv
        rw [hfill]
        exact .sell hlv hopen
      · rw [hfill]
        exact .quiet
  | sellFilled gridId =>
      simp only [Machine.next, Machine.out, gridMachine]
      refine ⟨s, Or.inl rfl, ?_⟩
      rw [onSellFilled_eq]
      cases hfind : findLevel gridId s.levels with
      | none =>
          rw [setState_of_none hfind]
          exact .quiet
      | some lv =>
          obtain rfl : lv.id = gridId := key_of_findSlot hfind
          exact .free hfind
  | updateConfig cfg =>
      simp only [Machine.next, Machine.out, gridMachine, updateConfig]
      refine ⟨_, Or.inr ?_, .quiet⟩
      split_ifs with hpos
      · exact openCount_of_gridLevels rfl
      · exact openCount_eq_zero_iff.mpr fun hopen ↦ hpos (hanchor hopen)

end LongGridStrategy

end FrogQuant
