import FrogQuant.Lib.Machine
import Mathlib.Data.List.Perm.Subperm

/-!
# Events that drain a pool

An event that is repeated takes one thing out of a finite pool each time, a
least one, and changes nothing once the pool is empty.
-/

namespace FrogQuant.Machine

variable {σ ε ο β : Type*} [DecidableEq β]

/-- In the states of `I` the event takes a thing that is least by `r` out of
the pool and is answered by `answer`; an empty pool it answers by `idle`. -/
structure Drains (M : Machine σ ε ο) (e : ε) (I : σ → Prop) (pool : σ → List β)
    (r : β → β → Prop) (answer : β → ο) (idle : ο) : Prop where
  takes : ∀ s, I s → pool s ≠ [] → ∃ b ∈ pool s, (∀ b' ∈ pool s, r b b') ∧
    M.out s e = answer b ∧ pool (M.next s e) = (pool s).erase b ∧ I (M.next s e)
  rests : ∀ s, I s → pool s = [] → M.step s e = (s, idle)

variable {M : Machine σ ε ο} {e : ε} {I : σ → Prop} {pool : σ → List β} {r : β → β → Prop}
  {answer : β → ο} {idle : ο} (h : M.Drains e I pool r answer idle)
include h

theorem Drains.next_of_nil {s : σ} (hs : I s) (hnil : pool s = []) : M.next s e = s :=
  congrArg Prod.fst (h.rests s hs hnil)

theorem Drains.out_of_nil {s : σ} (hs : I s) (hnil : pool s = []) : M.out s e = idle :=
  congrArg Prod.snd (h.rests s hs hnil)

/-- The first events take the pool in its order, one thing each; the others
are answered by `idle`. -/
theorem Drains.outputs {s : σ} (hs : I s) (k : ℕ) :
    ∃ picks : List β, picks.Subperm (pool s) ∧ picks.length = min k (pool s).length ∧
      picks.Pairwise r ∧ M.outputs s (List.replicate k e) =
        picks.map answer ++ List.replicate (k - (pool s).length) idle := by
  induction k generalizing s with
  | zero => exact ⟨[], List.nil_subperm, by simp, List.Pairwise.nil, by simp⟩
  | succ k ih =>
      rw [List.replicate_succ, outputs_cons]
      by_cases hnil : pool s = []
      · obtain ⟨picks, hsub, hlen, hsorted, hout⟩ := ih hs
        have hpicks : picks = [] := by simpa [hnil] using hlen
        rw [h.next_of_nil hs hnil, h.out_of_nil hs hnil, hout, hpicks]
        exact ⟨[], List.nil_subperm, by simp [hnil], List.Pairwise.nil, by simp [hnil]; rfl⟩
      · obtain ⟨b, hb, hleast, hanswer, hpool, hnext⟩ := h.takes s hs hnil
        obtain ⟨picks, hsub, hlen, hsorted, hout⟩ := ih hnext
        have hpos : 0 < (pool s).length := List.length_pos_of_mem hb
        rw [hpool] at hsub
        rw [hpool, List.length_erase_of_mem hb] at hlen hout
        refine ⟨b :: picks, ?_, ?_, ?_, ?_⟩
        · exact ((List.subperm_cons b).mpr hsub).trans (List.perm_cons_erase hb).symm.subperm
        · rw [List.length_cons, hlen]
          omega
        · refine List.pairwise_cons.mpr ⟨fun b' hb' ↦ ?_, hsorted⟩
          exact hleast b' (List.mem_of_mem_erase (hsub.subset hb'))
        · rw [hanswer, hout, List.map_cons, List.cons_append]
          congr 3
          omega

theorem Drains.run {s : σ} (hs : I s) (k : ℕ) :
    I (M.run s (List.replicate k e)) ∧
      (pool (M.run s (List.replicate k e))).length = (pool s).length - k := by
  induction k with
  | zero => exact ⟨hs, rfl⟩
  | succ k ih =>
      obtain ⟨hinv, hlen⟩ := ih
      rw [List.replicate_succ', run_concat]
      by_cases hnil : pool (M.run s (List.replicate k e)) = []
      · rw [h.next_of_nil hinv hnil]
        rw [hnil, List.length_nil] at hlen ⊢
        exact ⟨hinv, by omega⟩
      · obtain ⟨b, hb, -, -, hpool, hnext⟩ := h.takes _ hinv hnil
        refine ⟨hnext, ?_⟩
        rw [hpool, List.length_erase_of_mem hb, hlen]
        omega

/-- Once the pool is empty, the state stays. -/
theorem Drains.run_succ {s : σ} (hs : I s) {k : ℕ} (hk : (pool s).length ≤ k) :
    M.run s (List.replicate (k + 1) e) = M.run s (List.replicate k e) := by
  obtain ⟨hinv, hlen⟩ := h.run hs k
  rw [List.replicate_succ', run_concat]
  exact h.next_of_nil hinv (List.length_eq_zero_iff.mp (by omega))

end FrogQuant.Machine
