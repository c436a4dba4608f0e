import FrogQuant.Core.Journal
import FrogQuant.Lib.Renumber

/-!
# Rejected orders are inert

A run is compared with the run without some of its rejected submissions: the
ids after a removed one move up, and nothing else in the core tells the two
apart.
-/

namespace FrogQuant

open Renumber

variable {α : Type}

/-! ## The run without the removed submissions -/

/-- The run without the submissions whose number is in `R` and without the
cancellations that name them; the other cancellations name the new ids.  `n`
submissions have gone before. -/
def erase (R : Finset ℕ) : ℕ → List (CoreOp α) → List (CoreOp α)
  | _, [] => []
  | n, .submit nowMs req :: ops =>
      if n + 1 ∈ R then erase R (n + 1) ops else .submit nowMs req :: erase R (n + 1) ops
  | n, .cancel nowMs id :: ops =>
      if id ∈ R then erase R n ops else .cancel nowMs (rank R id) :: erase R n ops
  | n, .tick nowMs tick :: ops => .tick nowMs tick :: erase R n ops
  | n, .updateRisk cfg :: ops => .updateRisk cfg :: erase R n ops

/-- A record under its new id. -/
def renumbered (R : Finset ℕ) (r : OrderRecord α) : OrderRecord α :=
  { r with orderId := rank R r.orderId }

section Erase

variable (R : Finset ℕ) (n : ℕ)

@[simp] theorem erase_nil : erase R n ([] : List (CoreOp α)) = [] := rfl

@[simp] theorem submitCount_submit_cons (nowMs : ℕ) (req : OrderRequest α)
    (ops : List (CoreOp α)) : submitCount (.submit nowMs req :: ops) = submitCount ops + 1 :=
  List.countP_cons_of_pos rfl

@[simp] theorem submitCount_cancel_cons (nowMs id : ℕ) (ops : List (CoreOp α)) :
    submitCount (.cancel nowMs id :: ops) = submitCount ops :=
  List.countP_cons_of_neg Bool.false_ne_true

theorem erase_append (xs ys : List (CoreOp α)) :
    erase R n (xs ++ ys) = erase R n xs ++ erase R (n + submitCount xs) ys := by
  induction xs generalizing n with
  | nil => rfl
  | cons op xs ih =>
      cases op with
      | tick nowMs tick => exact congrArg _ (ih n)
      | updateRisk cfg => exact congrArg _ (ih n)
      | cancel nowMs id =>
          simp only [List.cons_append, erase, submitCount_cancel_cons]
          split_ifs
          · exact ih n
          · exact congrArg _ (ih n)
      | submit nowMs req =>
          have hcount : n + (submitCount xs + 1) = n + 1 + submitCount xs := by omega
          simp only [List.cons_append, erase, submitCount_submit_cons, hcount]
          split_ifs
          · exact ih (n + 1)
          · exact congrArg _ (ih (n + 1))

/-- The submissions that stay are numbered by their ranks. -/
theorem submitCount_erase (ops : List (CoreOp α)) :
    rank R n + submitCount (erase R n ops) = rank R (n + submitCount ops) := by
  induction ops generalizing n with
  | nil => rfl
  | cons op ops ih =>
      cases op with
      | tick nowMs tick => exact ih n
      | updateRisk cfg => exact ih n
      | cancel nowMs id =>
          simp only [erase, submitCount_cancel_cons]
          split_ifs
          · exact ih n
          · rw [submitCount_cancel_cons]
            exact ih n
      | submit nowMs req =>
          have hcount : n + (submitCount ops + 1) = n + 1 + submitCount ops := by omega
          simp only [erase, submitCount_submit_cons, hcount, ← ih (n + 1)]
          split_ifs with hmem
          · rw [rank_succ_of_mem hmem]
          · rw [rank_succ_of_notMem hmem, submitCount_submit_cons]
            omega

section Split

variable {R} (pre post : List (CoreOp α)) (nowMs : ℕ)

theorem erase_submit (req : OrderRequest α) (h : submitCount pre + 1 ∉ R) :
    erase R 0 (pre ++ .submit nowMs req :: post) =
      erase R 0 pre ++ .submit nowMs req :: erase R (submitCount pre + 1) post := by
  rw [erase_append, Nat.zero_add, erase, if_neg h]

theorem erase_cancel {id : ℕ} (h : id ∉ R) :
    erase R 0 (pre ++ .cancel nowMs id :: post) =
      erase R 0 pre ++ .cancel nowMs (rank R id) :: erase R (submitCount pre) post := by
  rw [erase_append, Nat.zero_add, erase, if_neg h]

end Split

end Erase

theorem submitCount_erase_zero (R : Finset ℕ) (ops : List (CoreOp α)) :
    submitCount (erase R 0 ops) = rank R (submitCount ops) := by
  have h := submitCount_erase R 0 ops
  rwa [rank_zero, Nat.zero_add, Nat.zero_add] at h

namespace TradingCore

/-! ## Cores that differ by rejected orders -/

/-- `c'` is `c` without the orders in `R`, the others under their new ids. -/
structure SameUpTo (R : Finset ℕ) (c c' : TradingCore α) : Prop where
  account : c'.account = c.account
  lastPrice : c'.lastPrice = c.lastPrice
  risk : c'.risk = c.risk
  orders : ∀ id ∉ R, c'.oms.get (rank R id) = (c.oms.get id).map (renumbered R)

section Step

variable {R : Finset ℕ} {c c' : TradingCore α} (h : SameUpTo R c c') {id : ℕ}
include h

theorem SameUpTo.cancel_kept (hid : id ∉ R) :
    SameUpTo R { c with oms := (c.oms.cancel id).1 }
      { c' with oms := (c'.oms.cancel (rank R id)).1 } where
  account := h.account
  lastPrice := h.lastPrice
  risk := h.risk
  orders := by
    intro id' hid'
    simp only [Oms.get_cancel, rank_inj hid' hid]
    split_ifs
    · rw [h.orders id hid, Option.map_map, Option.map_map]
      congr 1
      funext r
      by_cases hacc : r.status = .accepted <;> simp [renumbered, hacc]
    · exact h.orders id' hid'

theorem SameUpTo.cancel_removed (hid : id ∈ R) :
    SameUpTo R { c with oms := (c.oms.cancel id).1 } c' where
  account := h.account
  lastPrice := h.lastPrice
  risk := h.risk
  orders := by
    intro id' hid'
    have hne : id' ≠ id := fun heq ↦ hid' (heq ▸ hid)
    rw [Oms.get_cancel, if_neg hne]
    exact h.orders id' hid'

theorem SameUpTo.cancel_snd (hid : id ∉ R) :
    (c'.oms.cancel (rank R id)).2 = (c.oms.cancel id).2 := by
  rw [Bool.eq_iff_iff, Oms.cancel_snd, Oms.cancel_snd, h.orders id hid]
  simp [renumbered]

variable [Floating α] (nowMs : ℕ) (req : OrderRequest α)

theorem SameUpTo.refPrice_eq :
    (c'.newOrder nowMs req).refPrice = (c.newOrder nowMs req).refPrice := by
  simp only [newOrder, h.lastPrice]

theorem SameUpTo.verdict_eq : c'.verdict req = c.verdict req := by
  have hprice := h.refPrice_eq 0 req
  have hcheck : checkPreTrade c.risk (c'.newOrder 0 req) c.account =
      checkPreTrade c.risk (c.newOrder 0 req) c.account :=
    checkPreTrade_congr c.risk c.account rfl hprice
  simp only [verdict, hprice, h.risk, h.account, hcheck]

/-- A removed submission leaves its record and moves the counter. -/
theorem SameUpTo.submit_removed (hid : c.nextId ∈ R) (hfresh : c.oms.get c.nextId = none)
    (hverdict : c.verdict req ≠ .none) : SameUpTo R (c.submitManualOrder nowMs req).1 c' := by
  rw [c.submitManualOrder_fresh nowMs req hfresh]
  refine ⟨?_, h.lastPrice, h.risk, ?_⟩
  · rw [credit, if_neg fun hcredit ↦ hverdict hcredit.1]
    exact h.account
  · intro id' hid'
    have hne : id' ≠ c.nextId := fun heq ↦ hid' (heq ▸ hid)
    simp only [Oms.get_insert, if_neg hne]
    exact h.orders id' hid'

theorem SameUpTo.settle_eq (hnext : c'.nextId = rank R c.nextId) :
    settle (c'.newOrder nowMs req) (c'.verdict req) =
      renumbered R (settle (c.newOrder nowMs req) (c.verdict req)) := by
  simp only [h.verdict_eq req, settle, renumbered, newOrder, hnext, h.lastPrice]

theorem SameUpTo.submit_kept (hid : c.nextId ∉ R) (hnext : c'.nextId = rank R c.nextId)
    (hfresh : c.oms.get c.nextId = none) (hfresh' : c'.oms.get c'.nextId = none) :
    SameUpTo R (c.submitManualOrder nowMs req).1 (c'.submitManualOrder nowMs req).1 := by
  rw [c.submitManualOrder_fresh nowMs req hfresh, c'.submitManualOrder_fresh nowMs req hfresh']
  refine ⟨?_, h.lastPrice, h.risk, ?_⟩
  · simp only [credit, h.verdict_eq req, h.account, h.refPrice_eq nowMs req]
    rfl
  · intro id' hid'
    simp only [Oms.get_insert, hnext, rank_inj hid' hid]
    split_ifs
    · rw [Option.map_some, ← h.settle_eq nowMs req hnext]
    · exact h.orders id' hid'

end Step

/-! ## The two runs -/

variable [Floating α] (cfg : RiskConfig α) (R : Finset ℕ)

/-- The submissions of the run whose number is in `R` are rejected when they
are made. -/
def Refused (ops : List (CoreOp α)) : Prop :=
  ∀ pre nowMs req post, ops = pre ++ .submit nowMs req :: post → submitCount pre + 1 ∈ R →
    (after cfg pre).verdict req ≠ .none

variable {cfg R}

theorem Refused.of_append {xs ys : List (CoreOp α)} (h : Refused cfg R (xs ++ ys)) :
    Refused cfg R xs := by
  rintro pre nowMs req post rfl
  exact h pre nowMs req (post ++ ys) (by simp)

variable (cfg) in
/-- The next submission that stays is numbered by its rank, and that id is
free. -/
theorem nextId_erase {ops : List (CoreOp α)} (hn : submitCount ops + 1 < 2 ^ 64)
    (hid : submitCount ops + 1 ∉ R) :
    (after cfg (erase R 0 ops)).nextId = rank R (submitCount ops + 1) ∧
      (after cfg (erase R 0 ops)).oms.get (after cfg (erase R 0 ops)).nextId = none := by
  have hle := rank_le R (submitCount ops)
  have hcount := submitCount_erase_zero R ops
  have hlt : submitCount (erase R 0 ops) + 1 < 2 ^ 64 := by omega
  have hstep := inStep_after cfg (erase R 0 ops) (by omega)
  constructor
  · rw [hstep.nextId hlt, hcount, rank_succ_of_notMem hid]
  · exact hstep.fresh hlt

/-- Step by step, both runs stay the same up to the removed orders. -/
theorem sameUpTo_after {ops : List (CoreOp α)} (hn : submitCount ops < 2 ^ 64)
    (hrefused : Refused cfg R ops) : SameUpTo R (after cfg ops) (after cfg (erase R 0 ops)) := by
  induction ops using List.reverseRecOn with
  | nil => exact ⟨rfl, rfl, rfl, fun _ _ ↦ rfl⟩
  | append_singleton ops op ih =>
      have hcount := submitCount_concat ops op
      have h := ih (by omega) hrefused.of_append
      rw [erase_append, Nat.zero_add, after_concat]
      cases op with
      | tick nowMs tick =>
          rw [erase, erase_nil, after_concat]
          exact ⟨h.account, rfl, h.risk, h.orders⟩
      | updateRisk cfg' =>
          rw [erase, erase_nil, after_concat]
          exact ⟨h.account, h.lastPrice, rfl, h.orders⟩
      | cancel nowMs id =>
          rw [erase, erase_nil]
          split_ifs with hid
          · rw [List.append_nil]
            exact h.cancel_removed hid
          · rw [after_concat]
            exact h.cancel_kept hid
      | submit nowMs req =>
          simp only [CoreOp.isSubmit, if_true] at hcount
          have hstep := inStep_after cfg ops (by omega)
          have hlt : submitCount ops + 1 < 2 ^ 64 := by omega
          have hnext := hstep.nextId hlt
          rw [erase, erase_nil]
          split_ifs with hid
          · rw [List.append_nil]
            exact h.submit_removed nowMs req (hnext ▸ hid) (hstep.fresh hlt)
              (hrefused ops nowMs req [] rfl hid)
          · obtain ⟨hnext', hfresh'⟩ := nextId_erase cfg hlt hid
            rw [← hnext] at hnext' hid
            rw [after_concat]
            exact h.submit_kept nowMs req hid hnext' (hstep.fresh hlt) hfresh'

/-! ## Inertness -/

variable (cfg R) in
/-- Every order in `R` is rejected in the end. -/
def EndsRejected (ops : List (CoreOp α)) : Prop :=
  ∀ id ∈ R, ∃ r, (after cfg ops).getOrder id = some r ∧ r.status = .rejected

theorem EndsRejected.refused {ops : List (CoreOp α)} (h : EndsRejected cfg R ops)
    (hn : submitCount ops < 2 ^ 64) : Refused cfg R ops := by
  rintro pre nowMs req post rfl hid hverdict
  have hlt := submitCount_split_lt post nowMs req hn rfl
  obtain ⟨r, hr, hstatus⟩ := h _ hid
  rw [getOrder_split cfg post nowMs req hlt] at hr
  obtain rfl := Option.some.inj hr
  split_ifs at hstatus with hcancel
  rw [settle_status, if_pos hverdict] at hstatus
  cases hstatus

variable (cfg R) in
/-- What the run without the removed orders has in common with the whole run. -/
structure Inert (ops : List (CoreOp α)) : Prop where
  /-- A submission that stays leaves the same record, under its new id. -/
  submits : ∀ pre nowMs req post, ops = pre ++ .submit nowMs req :: post →
    submitCount pre + 1 ∉ R →
    erase R 0 ops = erase R 0 pre ++ .submit nowMs req :: erase R (submitCount pre + 1) post ∧
      (coreMachine α).out (after cfg (erase R 0 pre)) (.submit nowMs req) =
        .orderId (rank R (submitCount pre + 1)) ∧
      ∃ r, (after cfg (pre ++ [.submit nowMs req])).getOrder (submitCount pre + 1) = some r ∧
        (after cfg (erase R 0 pre ++ [.submit nowMs req])).getOrder
          (rank R (submitCount pre + 1)) = some (renumbered R r)
  /-- A cancellation that stays has the same result. -/
  cancels : ∀ pre nowMs id post, ops = pre ++ .cancel nowMs id :: post → id ∉ R →
    erase R 0 ops = erase R 0 pre ++ .cancel nowMs (rank R id) :: erase R (submitCount pre) post ∧
      (coreMachine α).out (after cfg (erase R 0 pre)) (.cancel nowMs (rank R id)) =
        (coreMachine α).out (after cfg pre) (.cancel nowMs id)
  account : (after cfg (erase R 0 ops)).account = (after cfg ops).account
  lastPrice : (after cfg (erase R 0 ops)).lastPrice = (after cfg ops).lastPrice
  /-- The stores correspond under the new ids. -/
  orders : ∀ id ∉ R, (after cfg (erase R 0 ops)).getOrder (rank R id) =
    ((after cfg ops).getOrder id).map (renumbered R)
  onto : ∀ id', ((after cfg (erase R 0 ops)).getOrder id').isSome → ∃ id ∉ R, rank R id = id'
  increasing : ∀ id id', id < id' → id' ∉ R → rank R id < rank R id'

/-- The record of a submission that stays, in both runs. -/
theorem getOrder_submit_erase {pre : List (CoreOp α)} {nowMs : ℕ} {req : OrderRequest α}
    (hn : submitCount pre + 1 < 2 ^ 64) (hrefused : Refused cfg R (pre ++ [.submit nowMs req]))
    (hid : submitCount pre + 1 ∉ R) :
    ∃ r, (after cfg (pre ++ [.submit nowMs req])).getOrder (submitCount pre + 1) = some r ∧
      (after cfg (erase R 0 pre ++ [.submit nowMs req])).getOrder (rank R (submitCount pre + 1)) =
        some (renumbered R r) := by
  have hcount := submitCount_concat pre (.submit nowMs req)
  simp only [CoreOp.isSubmit, if_true] at hcount
  have hrecord := getOrder_split cfg [] nowMs req hn
  have horder := (sameUpTo_after (by omega) hrefused).orders _ hid
  rw [erase_submit pre [] nowMs req hid, erase_nil] at horder
  refine ⟨_, hrecord, ?_⟩
  rw [getOrder, horder]
  exact congrArg (Option.map (renumbered R)) hrecord

/-- Rejected orders, for whatever reason, leave nothing behind that a later
decision sees. -/
theorem rejected_orders_inert {ops : List (CoreOp α)} (hn : submitCount ops < 2 ^ 64)
    (hrejected : EndsRejected cfg R ops) : Inert cfg R ops := by
  have hrefused := hrejected.refused hn
  have hsame := sameUpTo_after hn hrefused
  refine ⟨?_, ?_, hsame.account, hsame.lastPrice, hsame.orders, ?_, fun _ _ ↦ rank_lt_rank⟩
  · rintro pre nowMs req post rfl hid
    have hlt := submitCount_split_lt post nowMs req hn rfl
    refine ⟨erase_submit pre post nowMs req hid, ?_, ?_⟩
    · rw [out_submit, (nextId_erase cfg hlt hid).1]
    · rw [List.append_cons] at hrefused
      exact getOrder_submit_erase hlt hrefused.of_append hid
  · rintro pre nowMs id post rfl hid
    have hcount : submitCount (pre ++ .cancel nowMs id :: post) = submitCount pre +
        submitCount (.cancel nowMs id :: post) := List.countP_append
    have hsame' := sameUpTo_after (by omega) hrefused.of_append
    refine ⟨erase_cancel pre post nowMs hid, ?_⟩
    rw [out_cancel, out_cancel, hsame'.cancel_snd hid]
  · intro id' hsome
    have hle := rank_le R (submitCount ops)
    have hcount := submitCount_erase_zero R ops
    obtain ⟨hone, hlast⟩ := ((inStep_after cfg (erase R 0 ops) (by omega)).present id').mp hsome
    obtain ⟨id, hid, -, -, hrank⟩ := exists_rank_eq hone (hcount ▸ hlast)
    exact ⟨id, hid, hrank⟩

def smallBuy : CoreOp ℚ := .submit 0 ⟨"BTCUSDT", .buy, .market, 0.0001, 0⟩

def firstTick : CoreOp ℚ := .tick 0 ⟨"BTCUSDT", 60000, 0, 0, .restFallback⟩

/-- The record of a small buy that came before every tick. -/
def earlyRecord : OrderRecord ℚ :=
  ⟨1, "BTCUSDT", .buy, .market, 0.0001, 0, .rejected, .priceUnavailable, 0⟩

theorem rejected_orders_inert_earlyBuy :
    Inert (.default : RiskConfig ℚ) {1} [smallBuy, firstTick, smallBuy, .cancel 0 2] := by
  apply rejected_orders_inert (by decide)
  intro id hid
  obtain rfl := Finset.mem_singleton.mp hid
  exact ⟨earlyRecord, by decide +kernel, rfl⟩

/-! ## When the ids wrap around -/

/-- After `n` small buys and no tick. -/
structure Unpriced (n : ℕ) (c : TradingCore ℚ) : Prop where
  seq : c.seq = n % 2 ^ 64
  risk : c.risk = .default
  lastPrice : c.lastPrice = 0
  account : c.account = .default

theorem unpriced_after (n : ℕ) : Unpriced n (after .default (List.replicate n smallBuy)) := by
  induction n with
  | zero => exact ⟨rfl, rfl, rfl, rfl⟩
  | succ n ih =>
      rw [List.replicate_succ', after_concat]
      generalize after .default (List.replicate n smallBuy) = c at ih
      have hprice : (c.newOrder 0 ⟨"BTCUSDT", .buy, .market, 0.0001, 0⟩).refPrice ≤ 0 :=
        ih.lastPrice.le
      obtain ⟨hrisk, hlast, hseq⟩ :=
        c.submitManualOrder_frame 0 ⟨"BTCUSDT", .buy, .market, 0.0001, 0⟩
      rw [smallBuy, next_submit]
      refine ⟨?_, hrisk.trans ih.risk, hlast.trans ih.lastPrice, ?_⟩
      · rw [hseq, nextId, ih.seq]
        omega
      · simp only [submitManualOrder, if_pos hprice]
        exact ih.account

theorem getOrder_first (ops : List (CoreOp ℚ)) :
    (after .default (smallBuy :: ops)).getOrder 1 = some earlyRecord := by
  have hsettled : ((coreMachine ℚ).next (init .default) smallBuy).Settled :=
    settled_after .default [smallBuy]
  have hentered : ((coreMachine ℚ).next (init .default) smallBuy).oms.get 1 = some earlyRecord := by
    decide +kernel
  exact get_run_of_present hsettled hentered ops

/-- The buy after the tick is accepted where its id is free, and not even
recorded where it is taken. -/
theorem position_after_tick {n : ℕ} {c : TradingCore ℚ} (hc : c.Settled) (h : Unpriced n c) :
    ((coreMachine ℚ).run c [firstTick, smallBuy]).account.positionNotionalUsd =
      if c.oms.get c.nextId = none then 6 else 0 := by
  set priced : TradingCore ℚ := { c with lastPrice := 60000 } with hpriced
  have hrun : (coreMachine ℚ).run c [firstTick, smallBuy] =
      (priced.submitManualOrder 0 ⟨"BTCUSDT", .buy, .market, 0.0001, 0⟩).1 := rfl
  rw [hrun]
  split_ifs with hfresh
  · have hverdict : priced.verdict ⟨"BTCUSDT", .buy, .market, 0.0001, 0⟩ = .none := by
      rw [priced.verdict_eq_none_iff 0, checkPreTrade_eq_none_iff]
      simp only [hpriced, newOrder, h.risk, h.account]
      norm_num [RiskConfig.default, AccountSnapshot.default]
    rw [priced.submitManualOrder_fresh 0 _ hfresh, hverdict]
    simp only [credit, hpriced, newOrder, h.account]
    norm_num [AccountSnapshot.default]
  · obtain ⟨r, hr⟩ := Option.ne_none_iff_exists'.mp hfresh
    rw [priced.submitManualOrder_taken 0 _ hc hr]
    simp only [hpriced, h.account]
    rfl

theorem erase_replicate {n : ℕ} (hn : 1 ≤ n) (k : ℕ) :
    erase {1} n (List.replicate k smallBuy ++ [firstTick, smallBuy]) =
      List.replicate k smallBuy ++ [firstTick, smallBuy] := by
  induction k generalizing n with
  | zero =>
      have hstays : n + 1 ∉ ({1} : Finset ℕ) := by
        rw [Finset.mem_singleton]
        omega
      simp only [List.replicate_zero, List.nil_append, firstTick, smallBuy, erase, if_neg hstays]
  | succ k ih =>
      have hstays : n + 1 ∉ ({1} : Finset ℕ) := by
        rw [Finset.mem_singleton]
        omega
      rw [List.replicate_succ, List.cons_append]
      exact (if_neg hstays).trans (congrArg _ (ih (by omega)))

/-- The id after `2 ^ 64` submissions is that of the first. -/
theorem taken_after_wrap {k : ℕ} (hk : k + 1 = 2 ^ 64) :
    (after .default (List.replicate (k + 1) smallBuy)).oms.get
      (after .default (List.replicate (k + 1) smallBuy)).nextId = some earlyRecord := by
  have hnext : (after .default (List.replicate (k + 1) smallBuy)).nextId = 1 := by
    rw [nextId, (unpriced_after (k + 1)).seq]
    omega
  rw [hnext]
  exact getOrder_first _

theorem free_before_wrap {k : ℕ} (hk : k + 1 = 2 ^ 64) :
    (after .default (List.replicate k smallBuy)).oms.get
      (after .default (List.replicate k smallBuy)).nextId = none := by
  have hcount : submitCount (List.replicate k smallBuy) = k := by
    rw [submitCount, List.countP_replicate]
    rfl
  have hnext : (after .default (List.replicate k smallBuy)).nextId = 0 := by
    rw [nextId, (unpriced_after k).seq]
    omega
  rw [hnext, ← Option.not_isSome_iff_eq_none, (inStep_after .default _ (by omega)).present]
  omega

/-- After `2 ^ 64` submissions the ids start again: the next buy is taken for a
duplicate of the first, and is accepted once the first is left out. -/
theorem wrapped_id_not_inert :
    ¬ ∀ (cfg : RiskConfig ℚ) (R : Finset ℕ) (ops : List (CoreOp ℚ)),
      EndsRejected cfg R ops → Inert cfg R ops := by
  intro h
  obtain ⟨k, hk⟩ : ∃ k, k + 1 = 2 ^ 64 := ⟨2 ^ 64 - 1, by norm_num⟩
  have hrejected : EndsRejected .default {1}
      (List.replicate (k + 1) smallBuy ++ [firstTick, smallBuy]) := by
    intro id hid
    obtain rfl := Finset.mem_singleton.mp hid
    exact ⟨earlyRecord, getOrder_first _, rfl⟩
  have herased : erase {1} 0 (List.replicate (k + 1) smallBuy ++ [firstTick, smallBuy]) =
      List.replicate k smallBuy ++ [firstTick, smallBuy] := by
    rw [← erase_replicate le_rfl k]
    rfl
  have hposition := congrArg AccountSnapshot.positionNotionalUsd (h _ _ _ hrejected).account
  rw [herased, after, Machine.run_append,
    position_after_tick (settled_after _ _) (unpriced_after k), if_pos (free_before_wrap hk),
    after, Machine.run_append, position_after_tick (settled_after _ _) (unpriced_after (k + 1)),
    taken_after_wrap hk, if_neg (Option.some_ne_none earlyRecord)] at hposition
  norm_num at hposition

end TradingCore

end FrogQuant
