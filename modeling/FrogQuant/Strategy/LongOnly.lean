import FrogQuant.Strategy.OpenLevels
import Mathlib.Tactic.Linarith

/-!
# Nothing is sold that was not bought

Every intent is logged with the generation of the grid it was returned in.
The open levels account for the buys of the current generation that no sell
has answered yet, under whatever callbacks the strategy receives.
-/

namespace FrogQuant

variable {α : Type}

/-- Intents, each with the number of rebuilds before it. -/
abbrev GridLog (α : Type) := List (ℕ × StrategyOrderIntent α)

namespace GridLog

def Matches (side : OrderSide) (gen id : ℕ) (e : ℕ × StrategyOrderIntent α) : Prop :=
  e.1 = gen ∧ e.2.side = side ∧ e.2.gridId = id

instance (side : OrderSide) (gen id : ℕ) :
    DecidablePred (Matches (α := α) side gen id) := fun e ↦
  inferInstanceAs (Decidable (e.1 = gen ∧ e.2.side = side ∧ e.2.gridId = id))

def intentCount (side : OrderSide) (gen id : ℕ) (log : GridLog α) : ℕ :=
  log.countP fun e ↦ Matches side gen id e

def latestBuyQty (gen id : ℕ) (log : GridLog α) : Option α :=
  log.foldl (fun qty e ↦ if Matches .buy gen id e then some e.2.qty else qty) none

/-- Every sell carries the quantity of the latest buy of its id in its
generation. -/
def Paired (log : GridLog α) : Prop :=
  ∀ pre gen intent post, log = pre ++ (gen, intent) :: post → intent.side = .sell →
    latestBuyQty gen intent.gridId pre = some intent.qty

variable (log : GridLog α) (e : ℕ × StrategyOrderIntent α)

theorem intentCount_concat (side : OrderSide) (gen id : ℕ) :
    intentCount side gen id (log ++ [e]) =
      intentCount side gen id log + if Matches side gen id e then 1 else 0 := by
  simp [intentCount, List.countP_append, List.countP_singleton]

theorem latestBuyQty_concat (gen id : ℕ) :
    latestBuyQty gen id (log ++ [e]) =
      if Matches .buy gen id e then some e.2.qty else latestBuyQty gen id log := by
  simp only [latestBuyQty, List.foldl_append, List.foldl_cons, List.foldl_nil]

variable {log} {e}

theorem Paired.concat (h : Paired log)
    (he : e.2.side = .sell → latestBuyQty e.1 e.2.gridId log = some e.2.qty) :
    Paired (log ++ [e]) := by
  intro pre gen intent post hsplit hsell
  rcases List.eq_nil_or_concat post with rfl | ⟨post', last, rfl⟩
  · obtain ⟨rfl, hlast⟩ := List.append_inj' hsplit rfl
    obtain rfl := List.singleton_inj.mp hlast
    exact he hsell
  · rw [List.concat_eq_append, ← List.cons_append, ← List.append_assoc] at hsplit
    exact h pre gen intent post' (List.append_inj' hsplit rfl).1 hsell

end GridLog

open GridLog

namespace LongGridStrategy

variable [Floating α]

/-- The intents of one operation, stamped with the generation after it: a tick
rebuilds before it emits. -/
def stamp (s : LongGridStrategy α) (op : GridOp α) : GridLog α :=
  ((gridMachine α).out s op).map fun intent ↦ (((gridMachine α).next s op).rebuildCount, intent)

def gridLog (s : LongGridStrategy α) : List (GridOp α) → GridLog α
  | [] => []
  | op :: ops => s.stamp op ++ gridLog ((gridMachine α).next s op) ops

theorem gridLog_append (s : LongGridStrategy α) (xs ys : List (GridOp α)) :
    s.gridLog (xs ++ ys) = s.gridLog xs ++ ((gridMachine α).run s xs).gridLog ys := by
  induction xs generalizing s with
  | nil => rfl
  | cons op xs ih => simp [gridLog, ih]

/-! ## Counting by generation and id -/

omit [Floating α] in
/-- The open levels cover the buys that no sell has answered, at the quantity
in force. -/
structure Balanced (log : GridLog α) (s : LongGridStrategy α) : Prop where
  covered : ∀ gen id, intentCount .sell gen id log +
    (if gen = s.rebuildCount ∧ s.openAt id then 1 else 0) ≤ intentCount .buy gen id log
  latest : ∀ id, s.openAt id = true →
    latestBuyQty s.rebuildCount id log = some s.cfg.orderQty
  paired : Paired log

omit [Floating α] in
theorem Balanced.of_closed {log : GridLog α} {s s₁ : LongGridStrategy α} (h : Balanced log s)
    (hclosed : s₁.openCount = 0) : Balanced log s₁ := by
  have hnone : ∀ id, ¬ s₁.openAt id = true := fun id hopen ↦
    openCount_eq_zero_iff.mp hclosed (hasOpen_of_openAt hopen)
  refine ⟨fun gen id ↦ ?_, fun id hopen ↦ absurd hopen (hnone id), h.paired⟩
  rw [if_neg fun hboth ↦ hnone id hboth.2, add_zero]
  exact (Nat.le_add_right _ _).trans (h.covered gen id)

omit [Floating α] in
theorem Balanced.effect {log : GridLog α} {s s' : LongGridStrategy α}
    {intents : List (StrategyOrderIntent α)} (h : Balanced log s) (heffect : Effect s s' intents) :
    Balanced (log ++ intents.map fun intent ↦ (s'.rebuildCount, intent)) s' := by
  cases heffect with
  | quiet => simpa using h
  | @free lv hlv =>
      rw [List.map_nil, List.append_nil]
      refine ⟨fun gen id ↦ ?_, fun id hopen ↦ ?_, h.paired⟩
      · refine le_trans ?_ (h.covered gen id)
        rw [openAt_setState hlv, setState_rebuildCount]
        by_cases hid : id = lv.id <;> simp [hid]
      · rw [openAt_setState hlv] at hopen
        split_ifs at hopen with hid
        · simp at hopen
        · exact h.latest id hopen
  | @buy lv hlv hidle =>
      rw [List.map_singleton, setState_rebuildCount]
      have hclosed : s.openAt lv.id = false :=
        (openAt_eq hlv).trans (GridLevel.isOpen_of_idle hidle)
      refine ⟨fun gen id ↦ ?_, fun id hopen ↦ ?_, h.paired.concat fun hsell ↦ by cases hsell⟩
      · have hcover := h.covered gen id
        rw [intentCount_concat, intentCount_concat, openAt_setState hlv, setState_rebuildCount]
        by_cases hid : id = lv.id
        · subst hid
          by_cases hgen : gen = s.rebuildCount
          · subst hgen
            simpa [Matches, hclosed] using hcover
          · simpa [Matches, hgen, Ne.symm hgen] using hcover
        · simpa [Matches, hid, Ne.symm hid] using hcover
      · rw [latestBuyQty_concat, setState_rebuildCount, setState_cfg]
        by_cases hid : id = lv.id
        · simp [Matches, hid]
        · rw [openAt_setState hlv, if_neg hid] at hopen
          rw [if_neg fun hmatch ↦ hid hmatch.2.2.symm]
          exact h.latest id hopen
  | @sell lv hlv hopen =>
      rw [List.map_singleton, setState_rebuildCount]
      have hlvOpen : s.openAt lv.id = true := (openAt_eq hlv).trans hopen
      refine ⟨fun gen id ↦ ?_, fun id hopen' ↦ ?_,
        h.paired.concat fun _ ↦ h.latest lv.id hlvOpen⟩
      · have hcover := h.covered gen id
        rw [intentCount_concat, intentCount_concat, openAt_setState hlv, setState_rebuildCount]
        by_cases hid : id = lv.id
        · subst hid
          by_cases hgen : gen = s.rebuildCount
          · subst hgen
            simpa [Matches, hlvOpen] using hcover
          · simpa [Matches, hgen, Ne.symm hgen] using hcover
        · simpa [Matches, hid, Ne.symm hid] using hcover
      · rw [openAt_setState hlv] at hopen'
        split_ifs at hopen' with hid
        · simp at hopen'
        · rw [latestBuyQty_concat, setState_cfg, if_neg fun hmatch ↦ by cases hmatch.2.1]
          exact h.latest id hopen'

theorem balanced_init (cfg : LongGridConfig α) : Balanced [] (init cfg) where
  covered := fun gen id ↦ by simp [intentCount, openAt, init, findSlot]
  latest := fun id hopen ↦ by simp [openAt, init, findSlot] at hopen
  paired := fun pre gen intent post hsplit ↦ by simp at hsplit

/-- An anchor stands wherever a level is open, all through the run. -/
def Anchored (cfg : LongGridConfig α) : Prop :=
  ∀ ops, ((gridMachine α).run (init cfg) ops).HasOpen →
    0 < ((gridMachine α).run (init cfg) ops).anchorPrice

theorem balanced_run {cfg : LongGridConfig α} (hanchored : Anchored cfg) (ops : List (GridOp α)) :
    Balanced ((init cfg).gridLog ops) ((gridMachine α).run (init cfg) ops) := by
  induction ops using List.reverseRecOn with
  | nil => exact balanced_init cfg
  | append_singleton ops op ih =>
      obtain ⟨s₁, hs₁, heffect⟩ := effect_next _ (hanchored ops) op
      have hbalanced : Balanced ((init cfg).gridLog ops) s₁ := by
        rcases hs₁ with rfl | hclosed
        · exact ih
        · exact ih.of_closed hclosed
      rw [gridLog_append, Machine.run_concat, gridLog, gridLog, List.append_nil]
      exact hbalanced.effect heffect

/-! ## Where an anchor stands -/

/-- A price that passes the guard of a tick is positive, or its grid can emit
no buy. -/
def GridSound (α : Type) [Floating α] : Prop :=
  ∀ (cfg : LongGridConfig α) (price : α), ¬ price ≤ 0 →
    0 < price ∨ ∀ lv ∈ gridLevels cfg price, ∀ p, ¬ p ≤ lv.buyPrice

theorem gridSound_double : GridSound Double := by
  intro cfg price hprice
  cases price with
  | finite q => exact Or.inl ((Double.zero_lt_finite q).mpr (by simpa using hprice))
  | inf s =>
      cases s with
      | false => exact Or.inl rfl
      | true => exact absurd rfl hprice
  | nan =>
      apply Or.inr
      intro lv hlv p
      obtain ⟨i, -, rfl⟩ := List.mem_map.mp hlv
      simp [round2]

def Rooted (s : LongGridStrategy α) : Prop :=
  0 < s.anchorPrice ∨ ∀ lv ∈ s.levels, lv.isOpen = false ∧ ∀ p, ¬ p ≤ lv.buyPrice

theorem Rooted.anchor_pos {s : LongGridStrategy α} (h : s.Rooted) (hopen : s.HasOpen) :
    0 < s.anchorPrice := by
  obtain ⟨lv, hlv, hlvOpen⟩ := hopen
  apply h.resolve_right
  intro hdead
  rw [(hdead lv hlv).1] at hlvOpen
  cases hlvOpen

theorem rooted_next (hgrid : GridSound α) {s : LongGridStrategy α} (h : s.Rooted)
    (op : GridOp α) : ((gridMachine α).next s op).Rooted := by
  cases op with
  | priceTick price =>
      simp only [Machine.next, gridMachine]
      by_cases hprice : price ≤ 0
      · rwa [onPriceTick_of_le s hprice]
      · have hroot : (s.recentre price).Rooted := by
          rcases s.recentre_cases hprice with ⟨-, -, hlevels, hanchor, -⟩ | ⟨-, hsame⟩
          · rw [Rooted, hanchor, hlevels]
            exact (hgrid s.cfg price hprice).imp_right fun hdead lv hlv ↦
              ⟨GridLevel.isOpen_of_idle (idle_of_mem_gridLevels hlv), hdead lv hlv⟩
          · rwa [hsame]
        rcases s.onPriceTick_cases hprice with hnone | ⟨lv, hlv, -, hle, hemit⟩
        · rwa [hnone]
        · rw [hemit]
          exact Or.inl (hroot.resolve_right fun hdead ↦ (hdead lv (mem_of_findSlot hlv)).2 _ hle)
  | buyFilled gridId =>
      simp only [Machine.next, gridMachine]
      rcases s.onBuyFilled_cases gridId with ⟨lv, hlv, hopen, hfill⟩ | ⟨-, hfill⟩
      · rw [hfill]
        exact Or.inl (h.anchor_pos ⟨lv, mem_of_findSlot hlv, hopen⟩)
      · rwa [hfill]
  | sellFilled gridId =>
      simp only [Machine.next, gridMachine, onSellFilled_eq]
      apply h.imp_right
      intro hdead lv hlv
      rcases mem_writeSlot hlv with hold | ⟨lv', hlv', rfl⟩
      · exact hdead lv hold
      · exact ⟨rfl, (hdead lv' hlv').2⟩
  | updateConfig cfg =>
      simp only [Machine.next, gridMachine, updateConfig]
      split_ifs with hpos
      · exact Or.inl hpos
      · exact Or.inr (h.resolve_left hpos)

theorem anchored (hgrid : GridSound α) (cfg : LongGridConfig α) : Anchored cfg := by
  intro ops hopen
  refine Rooted.anchor_pos ?_ hopen
  refine (gridMachine α).run_invariant (P := Rooted) (fun s op hs ↦ rooted_next hgrid hs op) ?_ ops
  exact Or.inr fun lv hlv ↦ absurd hlv List.not_mem_nil

/-! ## Quantities -/

omit [Floating α] in
theorem Effect.cfg_eq {s s' : LongGridStrategy α} {intents : List (StrategyOrderIntent α)}
    (h : Effect s s' intents) : s'.cfg = s.cfg := by
  cases h <;> rfl

def totalQty (side : OrderSide) (log : GridLog ℚ) : ℚ :=
  ((log.filter fun e ↦ e.2.side = side).map fun e ↦ e.2.qty).sum

theorem totalQty_concat (side : OrderSide) (log : GridLog ℚ) (e : ℕ × StrategyOrderIntent ℚ) :
    totalQty side (log ++ [e]) =
      totalQty side log + if e.2.side = side then e.2.qty else 0 := by
  by_cases h : e.2.side = side <;> simp [totalQty, List.filter_append, h]

/-- What the open levels may still sell is covered by what was bought. -/
def Covers (log : GridLog ℚ) (s : LongGridStrategy ℚ) : Prop :=
  totalQty .sell log + s.openCount * s.cfg.orderQty ≤ totalQty .buy log

theorem Covers.effect {log : GridLog ℚ} {s s' : LongGridStrategy ℚ}
    {intents : List (StrategyOrderIntent ℚ)} (h : Covers log s) (hqty : 0 < s.cfg.orderQty)
    (heffect : Effect s s' intents) :
    Covers (log ++ intents.map fun intent ↦ (s'.rebuildCount, intent)) s' := by
  unfold Covers at h ⊢
  cases heffect with
  | quiet => simpa using h
  | @free lv hlv =>
      have hcount : (s.setState lv.id .idle).openCount ≤ s.openCount := by
        have := openCount_close hlv (Or.inl rfl)
        omega
      rw [List.map_nil, List.append_nil, setState_cfg]
      have hmono := mul_le_mul_of_nonneg_right (Nat.cast_le (α := ℚ).mpr hcount) hqty.le
      linarith
  | @buy lv hlv hidle =>
      rw [List.map_singleton, totalQty_concat, totalQty_concat, openCount_place hlv hidle,
        setState_cfg, if_pos rfl, if_neg (by simp)]
      push_cast
      linarith
  | @sell lv hlv hopen =>
      have hcount : (s.setState lv.id .sellPlaced).openCount + 1 = s.openCount := by
        simpa [hopen] using openCount_close hlv (Or.inr rfl)
      rw [List.map_singleton, totalQty_concat, totalQty_concat, setState_cfg, if_pos rfl,
        if_neg (by simp)]
      rw [← hcount] at h
      push_cast at h
      linarith

/-- In each generation and for each id, sells never outnumber buys, and a sell
carries the quantity of the buy it answers. -/
theorem sells_answer_buys (hgrid : GridSound α) (cfg : LongGridConfig α) (ops : List (GridOp α)) :
    (∀ gen id, intentCount .sell gen id ((init cfg).gridLog ops) ≤
      intentCount .buy gen id ((init cfg).gridLog ops)) ∧
    Paired ((init cfg).gridLog ops) := by
  have h := balanced_run (anchored hgrid cfg) ops
  exact ⟨fun gen id ↦ (Nat.le_add_right _ _).trans (h.covered gen id), h.paired⟩

/-- Prices and configurations with infinities or NaN make no difference. -/
theorem sells_answer_buys_double (cfg : LongGridConfig Double) (ops : List (GridOp Double)) :
    (∀ gen id, intentCount .sell gen id ((init cfg).gridLog ops) ≤
      intentCount .buy gen id ((init cfg).gridLog ops)) ∧
    Paired ((init cfg).gridLog ops) :=
  sells_answer_buys gridSound_double cfg ops

end LongGridStrategy

end FrogQuant
