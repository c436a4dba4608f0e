import FrogQuant.Strategy.LifeCycle
import FrogQuant.Strategy.LongOnly

/-!
# A grid that no fill is reported to

A level that has been bought then stays so until the grid is built anew, so
that no grid buys a level twice, and nothing is ever sold.
-/

namespace FrogQuant

variable {α : Type}

def GridOp.isFill : GridOp α → Bool
  | .buyFilled _ => true
  | .sellFilled _ => true
  | _ => false

open GridLog

namespace LongGridStrategy

def idleCount (s : LongGridStrategy α) : ℕ :=
  s.levels.countP fun lv ↦ lv.state = .idle

theorem idleCount_place {s : LongGridStrategy α} {lv : GridLevel α}
    (hlv : findLevel lv.id s.levels = some lv) (hidle : lv.state = .idle) :
    (s.setState lv.id .buyPlaced).idleCount + 1 = s.idleCount := by
  have hcount : (s.setState lv.id .buyPlaced).idleCount + (if lv.state = .idle then 1 else 0) =
      s.idleCount + (if (lv.withState .buyPlaced).state = .idle then 1 else 0) := by
    simpa [idleCount, setState] using
      countP_writeSlot (fun lv : GridLevel α ↦ decide (lv.state = .idle)) hlv
  simpa [hidle, GridLevel.withState] using hcount

variable [Floating α]

/-- The levels of a strategy as another one has them, or a grid built since. -/
inductive Regrid (s : LongGridStrategy α) : LongGridStrategy α → Prop
  | kept {s₁ : LongGridStrategy α} (hlevels : s₁.levels = s.levels)
      (hcount : s₁.rebuildCount = s.rebuildCount) : Regrid s s₁
  | built {s₁ : LongGridStrategy α} {price : α} (hlevels : s₁.levels = gridLevels s₁.cfg price)
      (hcount : s.rebuildCount < s₁.rebuildCount) : Regrid s s₁

/-- What is left to do on the grid that an operation has settled on. -/
inductive Buys (s : LongGridStrategy α) :
    LongGridStrategy α → List (StrategyOrderIntent α) → Prop
  | quiet : Buys s s []
  | buy {lv : GridLevel α} (hlv : findLevel lv.id s.levels = some lv) (hidle : lv.state = .idle) :
      Buys s (s.setState lv.id .buyPlaced)
        [⟨.buy, .limit, s.cfg.orderQty, lv.buyPrice, lv.id⟩]

omit [Floating α] in
theorem Buys.rebuildCount_eq {s s' : LongGridStrategy α} {intents : List (StrategyOrderIntent α)}
    (h : Buys s s' intents) : s'.rebuildCount = s.rebuildCount := by
  cases h <;> rfl

omit [Floating α] in
theorem Buys.length_eq {s s' : LongGridStrategy α} {intents : List (StrategyOrderIntent α)}
    (h : Buys s s' intents) : s'.levels.length = s.levels.length := by
  cases h with
  | quiet => rfl
  | buy hlv hidle => exact length_writeSlot _

theorem buys_next (s : LongGridStrategy α) {op : GridOp α} (hop : op.isFill = false) :
    ∃ s₁, s.Regrid s₁ ∧ Buys s₁ ((gridMachine α).next s op) ((gridMachine α).out s op) := by
  cases op with
  | buyFilled gridId => cases hop
  | sellFilled gridId => cases hop
  | priceTick price =>
      simp only [Machine.next, Machine.out, gridMachine]
      by_cases hprice : price ≤ 0
      · rw [onPriceTick_of_le s hprice]
        exact ⟨s, .kept rfl rfl, .quiet⟩
      · refine ⟨s.recentre price, ?_, ?_⟩
        · rcases s.recentre_cases hprice with ⟨-, hcfg, hlevels, -, hcount⟩ | ⟨-, hsame⟩
          · exact .built (hcfg ▸ hlevels) hcount
          · rw [hsame]
            exact .kept rfl rfl
        · rcases s.onPriceTick_cases hprice with hnone | ⟨lv, hlv, hidle, -, hemit⟩
          · rw [hnone]
            exact .quiet
          · rw [hemit]
            exact .buy hlv hidle
  | updateConfig cfg =>
      refine ⟨s.updateConfig cfg, ?_, .quiet⟩
      rw [updateConfig]
      split_ifs
      · exact .built rfl (Nat.lt_succ_self _)
      · exact .kept rfl rfl

/-! ## The grids of a run -/

/-- The grid that a step to `s'` has built: its generation and how many levels
it has. -/
def newGrid (s s' : LongGridStrategy α) : Option (ℕ × ℕ) :=
  if s.rebuildCount < s'.rebuildCount then some (s'.rebuildCount, s'.levels.length) else none

/-- The grids that a run builds, in order. -/
def gridsBuilt (s : LongGridStrategy α) (ops : List (GridOp α)) : List (ℕ × ℕ) :=
  (gridMachine α).collect (fun s op ↦ s.newGrid ((gridMachine α).next s op)) s ops

theorem gridsBuilt_concat (s : LongGridStrategy α) (ops : List (GridOp α)) (op : GridOp α) :
    s.gridsBuilt (ops ++ [op]) = s.gridsBuilt ops ++
      (((gridMachine α).run s ops).newGrid
        ((gridMachine α).next ((gridMachine α).run s ops) op)).toList :=
  Machine.collect_concat _ _ _ _ _

/-! ## Bought once -/

/-- The log holds buys only, each for a level of one of the grids built, at most
one for each level of each grid; the levels of the grid in force that have not
been bought are idle. -/
structure BoughtOnce (built : List (ℕ × ℕ)) (log : GridLog α) (s : LongGridStrategy α) : Prop where
  buys : ∀ e ∈ log, e.2.side = .buy
  past : ∀ e ∈ log, e.1 ≤ s.rebuildCount
  once : ∀ gen id, intentCount .buy gen id log ≤ 1
  idle : ∀ id, s.stateAt id = some .idle → intentCount .buy s.rebuildCount id log = 0
  ids : ∀ e ∈ log, ∃ n, (e.1, n) ∈ built ∧ 1 ≤ e.2.gridId ∧ e.2.gridId ≤ n
  gens : built.Pairwise fun a b ↦ a.1 < b.1
  pastGrids : ∀ g ∈ built, g.1 ≤ s.rebuildCount
  inForce : s.levels ≠ [] → (s.rebuildCount, s.levels.length) ∈ built
  budget : log.length + s.idleCount ≤ (built.map Prod.snd).sum

variable {built : List (ℕ × ℕ)} {log : GridLog α} {s s₁ s' : LongGridStrategy α}

theorem boughtOnce_init (cfg : LongGridConfig α) : BoughtOnce [] [] (init cfg) where
  buys := fun e he ↦ absurd he List.not_mem_nil
  past := fun e he ↦ absurd he List.not_mem_nil
  once := fun gen id ↦ Nat.zero_le 1
  idle := fun id _ ↦ rfl
  ids := fun e he ↦ absurd he List.not_mem_nil
  gens := List.Pairwise.nil
  pastGrids := fun g hg ↦ absurd hg List.not_mem_nil
  inForce := fun h ↦ absurd rfl h
  budget := by simp [idleCount, init]

omit [Floating α] in
theorem intentCount_of_past (side : OrderSide) {gen : ℕ} (hpast : ∀ e ∈ log, e.1 < gen) (id : ℕ) :
    intentCount side gen id log = 0 := by
  rw [intentCount, List.countP_eq_zero]
  intro e he hmatch
  have hgen : e.1 = gen := (of_decide_eq_true hmatch).1
  exact absurd (hpast e he) (by omega)

theorem BoughtOnce.regrid (h : BoughtOnce built log s) (hgrid : s.Regrid s₁) :
    BoughtOnce (built ++ (s.newGrid s₁).toList) log s₁ := by
  cases hgrid with
  | kept hlevels hcount =>
      have hnone : s.newGrid s₁ = none := if_neg (by omega)
      rw [hnone, Option.toList_none, List.append_nil]
      refine ⟨h.buys, hcount ▸ h.past, h.once, fun id hidle ↦ ?_, h.ids, h.gens,
        hcount ▸ h.pastGrids, ?_, ?_⟩
      · rw [hcount]
        apply h.idle id
        rwa [stateAt, hlevels] at hidle
      · rw [hlevels, hcount]
        exact h.inForce
      · rw [idleCount, hlevels]
        exact h.budget
  | built hlevels hcount =>
      have hsome : s.newGrid s₁ = some (s₁.rebuildCount, s₁.levels.length) := if_pos hcount
      rw [hsome, Option.toList_some]
      refine ⟨h.buys, fun e he ↦ (h.past e he).trans hcount.le, h.once, fun id _ ↦ ?_,
        fun e he ↦ ?_, ?_, fun g hg ↦ ?_, fun _ ↦ by simp, ?_⟩
      · exact intentCount_of_past .buy (fun e he ↦ (h.past e he).trans_lt hcount) id
      · obtain ⟨n, hn, hid⟩ := h.ids e he
        exact ⟨n, List.mem_append_left _ hn, hid⟩
      · rw [List.pairwise_append]
        refine ⟨h.gens, List.pairwise_singleton _ _, fun g hg g' hg' ↦ ?_⟩
        rw [List.mem_singleton.mp hg']
        exact (h.pastGrids g hg).trans_lt hcount
      · rcases List.mem_append.mp hg with hold | hnew
        · exact (h.pastGrids g hold).trans hcount.le
        · rw [List.mem_singleton.mp hnew]
      · have hidle : s₁.idleCount ≤ s₁.levels.length := List.countP_le_length
        have hbudget := h.budget
        rw [List.map_append, List.sum_append, List.map_singleton, List.sum_singleton]
        omega

omit [Floating α] in
theorem BoughtOnce.buy (h : BoughtOnce built log s) {lv : GridLevel α}
    (hlv : findLevel lv.id s.levels = some lv) (hidle : lv.state = .idle)
    {intent : StrategyOrderIntent α} (hside : intent.side = .buy) (hid : intent.gridId = lv.id) :
    BoughtOnce built (log ++ [(s.rebuildCount, intent)]) (s.setState lv.id .buyPlaced) := by
  have hmatch : ∀ gen id, Matches .buy gen id (s.rebuildCount, intent) ↔
      s.rebuildCount = gen ∧ lv.id = id := fun gen id ↦ by
    rw [Matches, hside, hid]
    exact and_congr_right fun _ ↦ and_iff_right rfl
  have hnone : intentCount .buy s.rebuildCount lv.id log = 0 :=
    h.idle lv.id ((stateAt_eq hlv).trans (congrArg some hidle))
  have hmem := mem_of_findSlot hlv
  have hlength : (s.setState lv.id .buyPlaced).levels.length = s.levels.length :=
    length_writeSlot _
  have hforce : (s.rebuildCount, s.levels.length) ∈ built := h.inForce (List.ne_nil_of_mem hmem)
  refine ⟨fun e he ↦ ?_, fun e he ↦ ?_, fun gen id ↦ ?_, fun id hstate ↦ ?_, fun e he ↦ ?_, h.gens,
    h.pastGrids, fun _ ↦ ?_, ?_⟩
  · rcases List.mem_append.mp he with hold | hnew
    · exact h.buys e hold
    · rw [List.mem_singleton.mp hnew]
      exact hside
  · rcases List.mem_append.mp he with hold | hnew
    · exact h.past e hold
    · rw [List.mem_singleton.mp hnew]
      exact le_rfl
  · rw [intentCount_concat]
    split_ifs with hthis
    · obtain ⟨rfl, rfl⟩ := (hmatch gen id).mp hthis
      rw [hnone]
    · exact h.once gen id
  · rw [stateAt_setState hlv] at hstate
    split_ifs at hstate with hother
    · cases hstate
    · rw [setState_rebuildCount, intentCount_concat, h.idle id hstate,
        if_neg fun hthis ↦ hother ((hmatch _ _).mp hthis).2.symm]
  · rcases List.mem_append.mp he with hold | hnew
    · exact h.ids e hold
    · have hlevel := s.ids ▸ List.mem_map_of_mem (f := GridLevel.id) hmem
      rw [List.mem_singleton.mp hnew, hid]
      obtain ⟨hlow, hhigh⟩ := List.mem_range'_1.mp hlevel
      exact ⟨_, hforce, hlow, by omega⟩
  · rw [hlength, setState_rebuildCount]
    exact hforce
  · have hplace := idleCount_place hlv hidle
    have hbudget := h.budget
    rw [List.length_append, List.length_singleton]
    omega

omit [Floating α] in
theorem BoughtOnce.buys_of {intents : List (StrategyOrderIntent α)} (h : BoughtOnce built log s)
    (hbuys : Buys s s' intents) :
    BoughtOnce built (log ++ intents.map fun intent ↦ (s'.rebuildCount, intent)) s' := by
  cases hbuys with
  | quiet => rwa [List.map_nil, List.append_nil]
  | buy hlv hidle => exact h.buy hlv hidle rfl rfl

/-- The operations of a grid whose fills nobody reports buy every level of
every grid at most once and sell nothing. -/
theorem boughtOnce_run (cfg : LongGridConfig α) {ops : List (GridOp α)}
    (hops : ∀ op ∈ ops, op.isFill = false) :
    BoughtOnce ((init cfg).gridsBuilt ops) ((init cfg).gridLog ops)
      ((gridMachine α).run (init cfg) ops) := by
  induction ops using List.reverseRecOn with
  | nil => exact boughtOnce_init cfg
  | append_singleton ops op ih =>
      have h := ih fun op' hop' ↦ hops op' (List.mem_append_left _ hop')
      have hop : op.isFill = false := hops op (by simp)
      obtain ⟨s₁, hgrid, hbuys⟩ := buys_next ((gridMachine α).run (init cfg) ops) hop
      have hsame : ((gridMachine α).run (init cfg) ops).newGrid s₁ =
          ((gridMachine α).run (init cfg) ops).newGrid
            ((gridMachine α).next ((gridMachine α).run (init cfg) ops) op) := by
        rw [newGrid, newGrid, hbuys.rebuildCount_eq, hbuys.length_eq]
      rw [gridsBuilt_concat, ← hsame, gridLog_append, Machine.run_concat, gridLog, gridLog,
        List.append_nil]
      exact (h.regrid hgrid).buys_of hbuys

end LongGridStrategy

end FrogQuant
