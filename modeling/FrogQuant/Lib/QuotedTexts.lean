import FrogQuant.Lib.Delimited
import FrogQuant.Lib.FlatJson

/-!
# Texts set apart by quotes

A scan looks for a key in quotes, then for a colon.  Where it arrives is told
by the texts that the quotes set apart.
-/

namespace FrogQuant.Json

def quotes (ss : List Text) : Text := ss.flatMap ('"' :: ·)

@[simp] theorem quotes_nil : quotes [] = [] := rfl

@[simp] theorem quotes_cons (s : Text) (ss : List Text) :
    quotes (s :: ss) = '"' :: (s ++ quotes ss) := rfl

/-- The first text, if a quote closes it. -/
def closed : List Text → Option Text
  | s :: _ :: _ => some s
  | _ => none

/-- The texts from the first closed one on that is the key. -/
def fromKey (key : Text) : List Text → Option (List Text)
  | [] => none
  | s :: ss => if s = key ∧ ss ≠ [] then some (s :: ss) else fromKey key ss

/-- What stands between the first colon and the next quote, and the texts
behind it. -/
def behindColon : List Text → Option (Text × List Text)
  | [] => none
  | s :: ss => if ':' ∈ s then some ((Text.cut ':' s).2, ss) else behindColon ss

/-- Where a scan for a key and for a colon arrives. -/
def scan (key : Text) (ss : List Text) : Option (Text × List Text) :=
  (fromKey key ss).bind behindColon

theorem behindColon_skip {s : Text} (h : ':' ∉ s) (ss : List Text) :
    behindColon (s :: ss) = behindColon ss := if_neg h

theorem behindColon_stop {s : Text} (h : ':' ∈ s) (ss : List Text) :
    behindColon (s :: ss) = some ((Text.cut ':' s).2, ss) := if_pos h

theorem fromKey_skip {key s : Text} (h : s ≠ key) (ss : List Text) :
    fromKey key (s :: ss) = fromKey key ss := if_neg fun hs ↦ h hs.1

theorem fromKey_last (key s : Text) : fromKey key [s] = none := by simp [fromKey]

theorem fromKey_self (key s : Text) (ss : List Text) :
    fromKey key (key :: s :: ss) = some (key :: s :: ss) := by simp [fromKey]

theorem fromKey_eq_cons {key : Text} {ss found : List Text} (h : fromKey key ss = some found) :
    ∃ rest, found = key :: rest := by
  induction ss with
  | nil => cases h
  | cons s ss ih =>
      rw [fromKey] at h
      split_ifs at h with hs
      · exact ⟨ss, by rw [← Option.some.inj h, hs.1]⟩
      · exact ih h

theorem exists_fromKey_append {key : Text} (front : List Text) {ss : List Text}
    (h : ∃ found, fromKey key ss = some found) :
    ∃ found, fromKey key (front ++ ss) = some found := by
  induction front with
  | nil => exact h
  | cons s front ih =>
      rw [List.cons_append, fromKey]
      split_ifs
      · exact ⟨_, rfl⟩
      · exact ih

/-! ## The two searches -/

section Search

variable {key : Text} {ss : List Text}

theorem indexOf_quoted_last {s : Text} (hs : '"' ∉ s) :
    Text.indexOf (quoted key) ('"' :: s) = none := by
  have hnot : ¬ quoted key <+: '"' :: s := by
    intro hprefix
    have hclose : (key ++ ['"']) <+: s := (List.cons_prefix_cons.mp hprefix).2
    exact hs (hclose.subset (List.mem_append_right key List.mem_cons_self))
  have hpass : Text.indexOf ('"' :: (key ++ ['"'])) (s ++ []) = _ :=
    Text.indexOf_append_of_notMem [] hs
  rw [List.append_nil] at hpass
  rw [Text.indexOf_cons_skip hnot, quoted, hpass]
  rfl

/-- The key in quotes is found at the first closed text that is the key. -/
theorem indexOf_quotes (hkey : '"' ∉ key) (hss : ∀ s ∈ ss, '"' ∉ s) :
    (Text.indexOf (quoted key) (quotes ss)).map (fun n ↦ (quotes ss).drop n) =
      (fromKey key ss).map quotes := by
  induction ss with
  | nil => rfl
  | cons s ss ih =>
      have hs : '"' ∉ s := hss s List.mem_cons_self
      have htail := ih fun u hu ↦ hss u (List.mem_cons_of_mem s hu)
      cases ss with
      | nil =>
          rw [quotes_cons, quotes_nil, List.append_nil, indexOf_quoted_last hs, fromKey_last]
          rfl
      | cons u ss =>
          by_cases heq : s = key
          · subst heq
            have hself := Text.indexOf_delimited_self '"' s (u ++ quotes ss)
            rw [fromKey_self, quotes_cons, quotes_cons, quoted, hself]
            rfl
          · have hpass := Text.passes_delimited (u ++ quotes ss) hkey hs (Ne.symm heq)
            rw [fromKey_skip heq, ← htail]
            exact hpass.map_drop

theorem indexOf_colon :
    (Text.indexOf [':'] (quotes ss)).map (fun n ↦ (quotes ss).drop (n + 1)) =
      (behindColon ss).map fun p ↦ p.1 ++ quotes p.2 := by
  induction ss with
  | nil => rfl
  | cons s ss ih =>
      by_cases hcolon : ':' ∈ s
      · obtain ⟨front, rest, rfl, hfront⟩ := List.eq_append_cons_of_mem hcolon
        have hopen : ':' ∉ '"' :: front := by simp [hfront]
        have hsplit : quotes ((front ++ ':' :: rest) :: ss) =
            ('"' :: front) ++ ':' :: (rest ++ quotes ss) := by simp
        rw [behindColon_stop hcolon, Text.cut_append hfront, hsplit,
          Text.indexOf_singleton _ hopen]
        simp
      · have hopen : ':' ∉ '"' :: s := by simp [hcolon]
        have hpass : Text.indexOf [':'] (('"' :: s) ++ quotes ss) = _ :=
          Text.indexOf_append_of_notMem (quotes ss) hopen
        rw [behindColon_skip hcolon, ← ih, quotes_cons, ← List.cons_append, hpass, Option.map_map]
        congr 1
        funext n
        rw [Function.comp_apply, Nat.add_right_comm, Nat.add_comm]
        exact List.drop_length_add_append (n + 1)

theorem fromKey_suffix {found : List Text} (h : fromKey key ss = some found) : found <:+ ss := by
  induction ss with
  | nil => cases h
  | cons s ss ih =>
      rw [fromKey] at h
      split_ifs at h
      · exact Option.some.inj h ▸ List.suffix_rfl
      · exact (ih h).trans (List.suffix_cons s ss)

theorem behindColon_spec {p : Text × List Text} (h : behindColon ss = some p) :
    (∃ s ∈ ss, p.1 <:+ s) ∧ p.2 <:+ ss := by
  induction ss with
  | nil => cases h
  | cons s ss ih =>
      by_cases hcolon : ':' ∈ s
      · rw [behindColon_stop hcolon] at h
        obtain rfl := Option.some.inj h
        have hcut : (Text.cut ':' s).2 <:+ s :=
          (List.drop_suffix 1 _).trans (List.dropWhile_suffix _)
        exact ⟨⟨s, List.mem_cons_self, hcut⟩, List.suffix_cons s ss⟩
      · rw [behindColon_skip hcolon] at h
        obtain ⟨⟨u, hu, hbare⟩, hrest⟩ := ih h
        exact ⟨⟨u, List.mem_cons_of_mem s hu, hbare⟩, hrest.trans (List.suffix_cons s ss)⟩

/-- Behind the place where a scan arrives there are texts without quotes
again. -/
theorem quote_notMem_of_scan (hss : ∀ s ∈ ss, '"' ∉ s) {p : Text × List Text}
    (h : scan key ss = some p) : '"' ∉ p.1 ∧ ∀ s ∈ p.2, '"' ∉ s := by
  obtain ⟨found, hfound, hcolon⟩ := Option.bind_eq_some_iff.mp h
  have hsub := (fromKey_suffix hfound).subset
  obtain ⟨⟨u, hu, hbare⟩, hrest⟩ := behindColon_spec hcolon
  exact ⟨fun hmem ↦ hss u (hsub hu) (hbare.subset hmem),
    fun s hs ↦ hss s (hsub (hrest.subset hs))⟩

end Search

/-! ## Cutting at the quotes -/

theorem quotes_append (ss us : List Text) : quotes (ss ++ us) = quotes ss ++ quotes us :=
  List.flatMap_append

theorem quotes_eq_intercalate {ss : List Text} (h : ss ≠ []) :
    quotes ss = '"' :: List.intercalate ['"'] ss := by
  induction ss with
  | nil => exact absurd rfl h
  | cons s ss ih =>
      cases ss with
      | nil => simp
      | cons u ss =>
          rw [quotes_cons, ih (List.cons_ne_nil u ss), List.intercalate_cons_cons,
            List.append_assoc]
          rfl

theorem quotes_splitOn (t : Text) : quotes (t.splitOn '"') = '"' :: t := by
  rw [quotes_eq_intercalate (List.splitOn_ne_nil '"' t), List.intercalate_splitOn]

end FrogQuant.Json
