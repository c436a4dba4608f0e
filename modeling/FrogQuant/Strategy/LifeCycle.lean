import FrogQuant.Strategy.OpenLevels

/-!
# The life cycle of a level

Within one generation of the grid a level is bought, sold and idle again, in
this order.  The callback for a filled sell does not look at the state of its
level, so it also frees a level whose buy is still open.
-/

namespace FrogQuant

variable {α : Type}

namespace LongGridStrategy

def stateAt (s : LongGridStrategy α) (id : ℕ) : Option GridLevelState :=
  (findLevel id s.levels).map GridLevel.state

variable {s : LongGridStrategy α} {lv : GridLevel α}

theorem stateAt_eq (h : findLevel lv.id s.levels = some lv) : s.stateAt lv.id = some lv.state := by
  rw [stateAt, h, Option.map_some]

theorem stateAt_setState (h : findLevel lv.id s.levels = some lv) (state : GridLevelState)
    (id : ℕ) :
    (s.setState lv.id state).stateAt id = if id = lv.id then some state else s.stateAt id := by
  rw [stateAt, findLevel_setState]
  split_ifs
  · rw [h]
    rfl
  · rfl

theorem openAt_iff (s : LongGridStrategy α) (id : ℕ) :
    s.openAt id = true ↔ s.stateAt id = some .buyPlaced ∨ s.stateAt id = some .buyFilled := by
  rw [openAt, stateAt]
  cases findLevel id s.levels <;> simp [GridLevel.isOpen]

theorem eq_idle_of_stateAt (hidle : ∀ lv ∈ s.levels, lv.state = .idle) {id : ℕ}
    {state : GridLevelState} (h : s.stateAt id = some state) : state = .idle := by
  obtain ⟨lv, hlv, rfl⟩ := Option.map_eq_some_iff.mp h
  exact hidle lv (mem_of_findSlot hlv)

variable [Floating α]

end LongGridStrategy

end FrogQuant
