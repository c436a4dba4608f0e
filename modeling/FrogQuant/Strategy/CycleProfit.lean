import FrogQuant.Strategy.GridShape
import FrogQuant.Strategy.LongOnly

/-!
# The grid never sells at a loss

A book of the intents: the cash that they move, and the buys that wait for
their sell, at their cost.  Cash and cost together are the profit realized so
far.  No operation lets it fall, whatever the prices, the configurations and
the fills.
-/

namespace FrogQuant

/-! ## The book -/

/-- `waiting` holds the buys that no sell has answered, and `uncovered` counts
the sells that found none. -/
structure Book where
  cash : ℚ
  waiting : GridLog ℚ
  uncovered : ℕ

namespace Book

def empty : Book := ⟨0, [], 0⟩

def value (e : ℕ × StrategyOrderIntent ℚ) : ℚ := e.2.qty * e.2.price

/-- A sell answers the first waiting buy of its generation and id. -/
def enter (b : Book) (e : ℕ × StrategyOrderIntent ℚ) : Book :=
  match e.2.side with
  | .buy => { b with cash := b.cash - value e, waiting := b.waiting ++ [e] }
  | .sell =>
      { cash := b.cash + value e
        waiting := b.waiting.eraseP fun e' ↦ GridLog.Matches .buy e.1 e.2.gridId e'
        uncovered := b.uncovered +
          if b.waiting.any fun e' ↦ GridLog.Matches .buy e.1 e.2.gridId e' then 0 else 1 }

def ofLog (log : GridLog ℚ) : Book := log.foldl enter empty

/-- The profit realized: the cash, and what is waiting at its cost. -/
def realized (b : Book) : ℚ := b.cash + (b.waiting.map value).sum

theorem ofLog_append (xs ys : GridLog ℚ) : ofLog (xs ++ ys) = ys.foldl enter (ofLog xs) :=
  List.foldl_append

theorem realized_enter_buy (b : Book) {e : ℕ × StrategyOrderIntent ℚ} (he : e.2.side = .buy) :
    (b.enter e).realized = b.realized := by
  simp only [enter, he, realized, List.map_append, List.map_singleton, List.sum_append,
    List.sum_singleton]
  ring

/-- A sell realizes what it brings above the cost of its buy. -/
theorem realized_enter_sell (b : Book) {e e' : ℕ × StrategyOrderIntent ℚ} (he : e.2.side = .sell)
    {pre post : GridLog ℚ} (hwaiting : b.waiting = pre ++ e' :: post)
    (hpre : ∀ x ∈ pre, ¬ GridLog.Matches .buy e.1 e.2.gridId x)
    (hmatch : GridLog.Matches .buy e.1 e.2.gridId e') :
    (b.enter e).realized = b.realized + (value e - value e') := by
  have herase : (b.waiting.eraseP fun e' ↦ GridLog.Matches .buy e.1 e.2.gridId e') =
      pre ++ post := by
    rw [hwaiting, List.eraseP_append_right _ fun x hx ↦ by simpa using hpre x hx,
      List.eraseP_cons_of_pos (by simpa using hmatch)]
  simp only [enter, he, realized, herase]
  rw [hwaiting]
  simp only [List.map_append, List.map_cons, List.sum_append, List.sum_cons]
  ring

end Book

/-! ## What the levels know of the waiting buys -/

namespace LongGridStrategy

open GridLog

/-- Every open level has a buy waiting, and the buys that wait in the present
generation were made at the price of their level and at the quantity in
force. -/
structure Kept (b : Book) (s : LongGridStrategy ℚ) : Prop where
  past : ∀ e ∈ b.waiting, e.1 ≤ s.rebuildCount
  present : ∀ e ∈ b.waiting, e.1 = s.rebuildCount →
    ∃ lv, findLevel e.2.gridId s.levels = some lv ∧ e.2.price = lv.buyPrice ∧
      e.2.qty = s.cfg.orderQty
  waits : ∀ id lv, findLevel id s.levels = some lv → lv.isOpen = true →
    0 < lv.buyPrice ∧ ∃ e ∈ b.waiting, Matches .buy s.rebuildCount id e
  covered : b.uncovered = 0

variable {b : Book} {s : LongGridStrategy ℚ} {lv : GridLevel ℚ}

/-- A new grid leaves the buys of the old one waiting for ever. -/
theorem Kept.fresh (h : Kept b s) {s' : LongGridStrategy ℚ}
    (hcount : s.rebuildCount < s'.rebuildCount) (hidle : ∀ lv ∈ s'.levels, lv.state = .idle) :
    Kept b s' where
  past := fun e he ↦ (h.past e he).trans hcount.le
  present := fun e he hgen ↦ absurd (h.past e he) (by omega)
  waits := fun id lv hlv hopen ↦ by
    rw [GridLevel.isOpen_of_idle (hidle lv (mem_of_findSlot hlv))] at hopen
    cases hopen
  covered := h.covered

/-- No level changes its prices. -/
theorem Kept.setState (h : Kept b s) (hlv : findLevel lv.id s.levels = some lv)
    (state : GridLevelState) (hopen : (lv.withState state).isOpen = true →
      0 < lv.buyPrice ∧ ∃ e ∈ b.waiting, Matches .buy s.rebuildCount lv.id e) :
    Kept b (s.setState lv.id state) where
  past := h.past
  present := fun e he hgen ↦ by
    obtain ⟨lv', hlv', hprice, hqty⟩ := h.present e he hgen
    rw [findLevel_setState]
    split_ifs with hid
    · rw [hid, hlv] at hlv'
      obtain rfl := Option.some.inj hlv'
      exact ⟨lv.withState state, by rw [hlv]; rfl, hprice, hqty⟩
    · exact ⟨lv', hlv', hprice, hqty⟩
  waits := fun id lv' hlv' hopen' ↦ by
    rw [findLevel_setState] at hlv'
    split_ifs at hlv' with hid
    · rw [hlv] at hlv'
      obtain rfl := Option.some.inj hlv'
      exact hid ▸ hopen hopen'
    · exact h.waits id lv' hlv' hopen'
  covered := h.covered

theorem Kept.enter_buy (h : Kept b s) (hlv : findLevel lv.id s.levels = some lv)
    (type : OrderType) :
    Kept (b.enter (s.rebuildCount, ⟨.buy, type, s.cfg.orderQty, lv.buyPrice, lv.id⟩)) s where
  past := fun e he ↦ by
    rcases List.mem_append.mp he with hold | hnew
    · exact h.past e hold
    · rw [List.mem_singleton.mp hnew]
  present := fun e he hgen ↦ by
    rcases List.mem_append.mp he with hold | hnew
    · exact h.present e hold hgen
    · rw [List.mem_singleton.mp hnew]
      exact ⟨lv, hlv, rfl, rfl⟩
  waits := fun id lv' hlv' hopen ↦ by
    obtain ⟨hpos, e, he, hmatch⟩ := h.waits id lv' hlv' hopen
    exact ⟨hpos, e, List.mem_append_left _ he, hmatch⟩
  covered := h.covered

/-- A sell leaves the buys of the other levels waiting. -/
theorem Kept.enter_sell (h : Kept b s) {intent : StrategyOrderIntent ℚ}
    (hside : intent.side = .sell) (hclosed : s.openAt intent.gridId = false)
    (hsome : ∃ e ∈ b.waiting, Matches .buy s.rebuildCount intent.gridId e) :
    Kept (b.enter (s.rebuildCount, intent)) s := by
  obtain ⟨e', he', hmatch'⟩ := hsome
  have hany : (b.waiting.any fun e ↦ Matches .buy s.rebuildCount intent.gridId e) = true :=
    List.any_eq_true.mpr ⟨e', he', decide_eq_true hmatch'⟩
  have hsub : ∀ e ∈ (b.enter (s.rebuildCount, intent)).waiting, e ∈ b.waiting := by
    intro e he
    simp only [Book.enter, hside] at he
    exact List.mem_of_mem_eraseP he
  refine ⟨fun e he ↦ h.past e (hsub e he), fun e he ↦ h.present e (hsub e he),
    fun id lv hlv hopen ↦ ?_, ?_⟩
  · obtain ⟨hpos, e, he, hmatch⟩ := h.waits id lv hlv hopen
    have hid : id ≠ intent.gridId := by
      rintro rfl
      rw [openAt, hlv, Option.any_some, hopen] at hclosed
      cases hclosed
    refine ⟨hpos, e, ?_, hmatch⟩
    simp only [Book.enter, hside]
    refine (List.mem_eraseP_of_neg ?_).mpr he
    rw [decide_eq_true_eq]
    exact fun hboth ↦ hid (hmatch.2.2.symm.trans hboth.2.2)
  · simp only [Book.enter, hside, hany, if_true]
    exact h.covered

/-! ## One operation -/

/-- Whatever the band, a level that buys at a positive price sells no lower. -/
theorem OnGrid.profit_of_pos (h : s.OnGrid) (hcfg : s.cfg.InRange) (hlv : lv ∈ s.levels)
    (hpos : 0 < lv.buyPrice) : lv.buyPrice ≤ lv.sellPrice := by
  obtain ⟨i, hi⟩ := List.getElem?_of_mem hlv
  obtain ⟨-, hbuy, hsell⟩ := h.level hi
  have hlevel : 0 ≤ s.cfg.levelPrice s.anchorPrice i := by
    by_contra hneg
    have hround := round2_mono (not_le.mp hneg).le
    have hzero : round2 (0 : ℚ) = 0 := by norm_num [round2_rat, roundAway]
    rw [← hbuy, hzero] at hround
    exact absurd hpos hround.not_gt
  have hgain := mul_nonneg hlevel hcfg.takeProfitRatio.le
  rw [hbuy, hsell]
  apply round2_mono
  linarith

/-- The sell of an open level brings at least what its buy has cost. -/
theorem Kept.realized_sell (h : Kept b s) (hs : s.OnGrid) (hcfg : s.cfg.InRange)
    (hlv : findLevel lv.id s.levels = some lv) (hopen : lv.isOpen = true) (type : OrderType) :
    b.realized ≤
      (b.enter (s.rebuildCount, ⟨.sell, type, s.cfg.orderQty, lv.sellPrice, lv.id⟩)).realized := by
  obtain ⟨hpos, e, he, hmatch⟩ := h.waits lv.id lv hlv hopen
  obtain ⟨e', pre, post, hpre, hmatch', hsplit, -⟩ :=
    List.exists_of_eraseP (p := fun e ↦ decide (Matches .buy s.rebuildCount lv.id e)) he
      (decide_eq_true hmatch)
  rw [decide_eq_true_eq] at hmatch'
  rw [b.realized_enter_sell rfl hsplit (fun x hx ↦ by simpa using hpre x hx) hmatch']
  have hmem : e' ∈ b.waiting := by
    rw [hsplit]
    exact List.mem_append_right pre List.mem_cons_self
  obtain ⟨lv', hlv', hprice, hqty⟩ := h.present e' hmem hmatch'.1
  rw [hmatch'.2.2, hlv] at hlv'
  obtain rfl := Option.some.inj hlv'
  have hgain := hs.profit_of_pos hcfg (mem_of_findSlot hlv) hpos
  have hvalue := mul_le_mul_of_nonneg_left hgain hcfg.orderQty.le
  simp only [Book.value, hprice, hqty]
  linarith

/-- The book after an operation. -/
def booked (b : Book) (s : LongGridStrategy ℚ) (op : GridOp ℚ) : Book :=
  (s.stamp op).foldl Book.enter b

/-- An operation keeps the levels in step with the book, and loses nothing. -/
structure Booked (b : Book) (s : LongGridStrategy ℚ) (op : GridOp ℚ) : Prop where
  kept : Kept (booked b s op) ((gridMachine ℚ).next s op)
  gain : b.realized ≤ (booked b s op).realized

theorem booked_tick (h : Kept b s) (price : ℚ) : Booked b s (.priceTick price) := by
  by_cases hprice : price ≤ 0
  · have hnext : (gridMachine ℚ).next s (.priceTick price) = s := by
      simp only [Machine.next, gridMachine, onPriceTick_of_le s hprice]
    have hbook : booked b s (.priceTick price) = b := by
      simp only [booked, stamp, Machine.out, gridMachine, onPriceTick_of_le s hprice, List.map_nil,
        List.foldl_nil]
    exact ⟨by rwa [hnext, hbook], by rw [hbook]⟩
  · have hgrid : Kept b (s.recentre price) := by
      rcases s.recentre_cases hprice with ⟨-, -, hlevels, -, hcount⟩ | ⟨-, hsame⟩
      · refine h.fresh hcount fun lv hlv ↦ ?_
        rw [hlevels] at hlv
        exact idle_of_mem_gridLevels hlv
      · rwa [hsame]
    rcases s.onPriceTick_cases hprice with hnone | ⟨lv, hlv, -, hle, hemit⟩
    · have hbook : booked b s (.priceTick price) = b := by
        simp only [booked, stamp, Machine.out, gridMachine, hnone, List.map_nil, List.foldl_nil]
      refine ⟨?_, by rw [hbook]⟩
      rw [hbook]
      simpa only [Machine.next, gridMachine, hnone] using hgrid
    · have hbook : booked b s (.priceTick price) =
          b.enter ((s.recentre price).rebuildCount,
            ⟨.buy, .limit, (s.recentre price).cfg.orderQty, lv.buyPrice, lv.id⟩) := by
        simp only [booked, stamp, Machine.out, Machine.next, gridMachine, hemit, List.map_singleton,
          List.foldl_cons, List.foldl_nil, setState_rebuildCount]
      have hbuy := hgrid.enter_buy hlv .limit
      refine ⟨?_, ?_⟩
      · rw [hbook]
        simp only [Machine.next, gridMachine, hemit]
        exact hbuy.setState hlv .buyPlaced fun _ ↦ ⟨(not_le.mp hprice).trans_le hle, _,
          List.mem_append_right _ (List.mem_singleton.mpr rfl), rfl, rfl, rfl⟩
      · rw [hbook, Book.realized_enter_buy b rfl]

theorem booked_buyFilled (h : Kept b s) (hs : s.Unbuilt ∨ s.OnGrid) (hcfg : s.cfg.InRange)
    (gridId : ℕ) : Booked b s (.buyFilled gridId) := by
  rcases s.onBuyFilled_cases gridId with ⟨lv, hlv, hopen, hfill⟩ | ⟨-, hfill⟩
  · obtain rfl : lv.id = gridId := key_of_findSlot hlv
    have hgrid : s.OnGrid := by
      rcases hs with ⟨-, -, hnil⟩ | hgrid
      · rw [hnil] at hlv
        cases hlv
      · exact hgrid
    have hbook : booked b s (.buyFilled lv.id) =
        b.enter (s.rebuildCount, ⟨.sell, .limit, s.cfg.orderQty, lv.sellPrice, lv.id⟩) := by
      simp only [booked, stamp, Machine.out, Machine.next, gridMachine, hfill, Option.toList_some,
        List.map_singleton, List.foldl_cons, List.foldl_nil, setState_rebuildCount]
    obtain ⟨-, hsome⟩ := h.waits lv.id lv hlv hopen
    have hclosed : (s.setState lv.id .sellPlaced).openAt lv.id = false := by
      rw [openAt_setState hlv, if_pos rfl]
      rfl
    have hsold : Kept b (s.setState lv.id .sellPlaced) := h.setState hlv .sellPlaced (by simp)
    refine ⟨?_, ?_⟩
    · rw [hbook]
      simp only [Machine.next, gridMachine, hfill]
      exact hsold.enter_sell rfl hclosed hsome
    · rw [hbook]
      exact h.realized_sell hgrid hcfg hlv hopen .limit
  · have hnext : (gridMachine ℚ).next s (.buyFilled gridId) = s := by
      simp only [Machine.next, gridMachine, hfill]
    have hbook : booked b s (.buyFilled gridId) = b := by
      simp only [booked, stamp, Machine.out, gridMachine, hfill, Option.toList_none, List.map_nil,
        List.foldl_nil]
    exact ⟨by rwa [hnext, hbook], by rw [hbook]⟩

theorem booked_sellFilled (h : Kept b s) (gridId : ℕ) : Booked b s (.sellFilled gridId) := by
  refine ⟨?_, le_rfl⟩
  change Kept b (s.onSellFilled gridId)
  rw [onSellFilled_eq]
  cases hfind : findLevel gridId s.levels with
  | none => rwa [setState_of_none hfind]
  | some lv =>
      obtain rfl : lv.id = gridId := key_of_findSlot hfind
      exact h.setState hfind .idle (by simp)

theorem booked_updateConfig (h : Kept b s) (hs : s.Unbuilt ∨ s.OnGrid)
    (cfg : LongGridConfig ℚ) : Booked b s (.updateConfig cfg) := by
  refine ⟨?_, le_rfl⟩
  change Kept b (s.updateConfig cfg)
  rcases hs with ⟨hzero, -, hnil⟩ | hgrid
  · -- there is no level yet, and so no buy of this generation
    have hnone : ∀ id lv, findLevel id s.levels ≠ some lv := by
      intro id lv hlv
      rw [hnil] at hlv
      cases hlv
    simp only [updateConfig, hzero, lt_irrefl, if_false]
    refine ⟨h.past, fun e he hgen ↦ ?_, fun id lv hlv ↦ absurd hlv (hnone id lv), h.covered⟩
    obtain ⟨lv, hlv, -⟩ := h.present e he hgen
    exact absurd hlv (hnone _ lv)
  · simp only [updateConfig, hgrid.1, if_true]
    exact h.fresh (Nat.lt_succ_self _) fun lv hlv ↦ idle_of_mem_gridLevels hlv

/-! ## Runs -/

theorem booked_next {ops : List (GridOp ℚ)} (hs : Shaped ops s) (h : Kept b s) (op : GridOp ℚ) :
    Booked b s op := by
  have hgrid : s.Unbuilt ∨ s.OnGrid := hs.grid.imp And.right And.right
  cases op with
  | priceTick price => exact booked_tick h price
  | buyFilled gridId => exact booked_buyFilled h hgrid hs.cfg gridId
  | sellFilled gridId => exact booked_sellFilled h gridId
  | updateConfig cfg => exact booked_updateConfig h hgrid cfg

theorem ofLog_concat (cfg : LongGridConfig ℚ) (ops : List (GridOp ℚ)) (op : GridOp ℚ) :
    Book.ofLog ((init cfg).gridLog (ops ++ [op])) =
      booked (Book.ofLog ((init cfg).gridLog ops)) ((gridMachine ℚ).run (init cfg) ops) op := by
  rw [gridLog_append, Book.ofLog_append, gridLog, gridLog, List.append_nil]
  rfl

theorem kept_run (cfg : LongGridConfig ℚ) (ops : List (GridOp ℚ)) :
    Kept (Book.ofLog ((init cfg).gridLog ops)) ((gridMachine ℚ).run (init cfg) ops) := by
  induction ops using List.reverseRecOn with
  | nil =>
      exact ⟨fun e he ↦ absurd he List.not_mem_nil, fun e he ↦ absurd he List.not_mem_nil,
        fun id lv hlv ↦ absurd hlv nofun, rfl⟩
  | append_singleton ops op ih =>
      rw [ofLog_concat, Machine.run_concat]
      exact (booked_next (shaped_run cfg ops) ih op).kept

/-- The realized profit never falls, and no sell goes without a buy: not with
any prices, configurations or fills. -/
theorem realized_profit_never_falls (cfg : LongGridConfig ℚ) (ops more : List (GridOp ℚ)) :
    (Book.ofLog ((init cfg).gridLog ops)).realized ≤
      (Book.ofLog ((init cfg).gridLog (ops ++ more))).realized ∧
    (Book.ofLog ((init cfg).gridLog ops)).uncovered = 0 := by
  refine ⟨?_, (kept_run cfg ops).covered⟩
  induction more using List.reverseRecOn with
  | nil => rw [List.append_nil]
  | append_singleton more op ih =>
      have hstep := booked_next (shaped_run cfg (ops ++ more)) (kept_run cfg (ops ++ more)) op
      rw [← List.append_assoc, ofLog_concat]
      exact ih.trans hstep.gain

/-- A level that buys at 100.43 sells at 100.63. -/
example : (Book.ofLog ((init .default).gridLog [.priceTick 100, .buyFilled 5])).realized =
    0.001 * (100.63 - 100.43) := by
  decide +kernel

end LongGridStrategy

end FrogQuant
