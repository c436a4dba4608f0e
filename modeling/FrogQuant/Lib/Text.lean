import Mathlib.Data.List.Basic
import Mathlib.Data.List.TakeWhile

/-!
# Texts and substring search

Texts are lists of characters.  `find`, `findFirstOf` and `substr` follow the
members of `std::string` of those names; the lemmas tell where the first
occurrence of a token stands in a text built from pieces.
-/

namespace FrogQuant

abbrev Text := List Char

instance : Coe String Text := ⟨String.toList⟩

namespace Text

/-- Offset of the first occurrence of `tok`. -/
def indexOf (tok : Text) : Text → Option ℕ
  | [] => if tok = [] then some 0 else none
  | c :: cs => if tok.isPrefixOf (c :: cs) then some 0 else (indexOf tok cs).map (· + 1)

/-- `body.find(tok, pos)`. -/
def find (body tok : Text) (pos : ℕ) : Option ℕ :=
  if pos ≤ body.length then (indexOf tok (body.drop pos)).map (pos + ·) else none

/-- `body.find_first_of(chars, pos)`. -/
def findFirstOf (body chars : Text) (pos : ℕ) : Option ℕ :=
  ((body.drop pos).findIdx? (· ∈ chars)).map (pos + ·)

/-- `body.substr(pos, n)` for a position within the text. -/
def substr (body : Text) (pos n : ℕ) : Text := (body.drop pos).take n

/-- Number of characters of `body` from `pos` on that `p` holds of without a
break: how far a scanning loop moves. -/
def spanLength (p : Char → Bool) (body : Text) (pos : ℕ) : ℕ :=
  ((body.drop pos).takeWhile p).length

theorem takeWhile_append_stop {p : Char → Bool} {c : Char} (hc : p c = false) (t rest : Text) :
    (t ++ c :: rest).takeWhile p = t.takeWhile p := by
  induction t with
  | nil => simp [hc]
  | cons d t ih => cases hd : p d <;> simp [hd, ih]

theorem dropWhile_append_stop {p : Char → Bool} {c : Char} (hc : p c = false) (t rest : Text) :
    (t ++ c :: rest).dropWhile p = t.dropWhile p ++ c :: rest := by
  induction t with
  | nil => simp [hc]
  | cons d t ih => cases hd : p d <;> simp [hd, ih]

/-! ## The first occurrence of a token -/

theorem indexOf_of_prefix (tok rest : Text) :
    indexOf tok (tok ++ rest) = some 0 := by
  cases htok : tok with
  | nil => cases rest <;> simp [indexOf]
  | cons c cs => simp [indexOf]

theorem indexOf_append_of_notMem {c : Char} {tok pre : Text} (rest : Text)
    (hpre : c ∉ pre) :
    indexOf (c :: tok) (pre ++ rest) = (indexOf (c :: tok) rest).map (· + pre.length) := by
  induction pre with
  | nil => simp
  | cons d pre ih =>
      have hcd : c ≠ d := fun h ↦ hpre (h ▸ List.mem_cons_self)
      have htail := ih fun h ↦ hpre (List.mem_cons_of_mem d h)
      simp only [List.cons_append, indexOf, List.isPrefixOf]
      rw [htail]
      simp only [beq_eq_false_iff_ne.mpr hcd, Bool.false_and, Bool.false_eq_true, if_false,
        Option.map_map, List.length_cons]
      congr 1

/-- No occurrence of the token begins in `pre`, when `t` follows. -/
def Passes (tok pre t : Text) : Prop :=
  indexOf tok (pre ++ t) = (indexOf tok t).map (· + pre.length)

theorem passes_of_notMem {c : Char} (tok : Text) {pre : Text} (t : Text) (hpre : c ∉ pre) :
    Passes (c :: tok) pre t :=
  indexOf_append_of_notMem t hpre

theorem indexOf_cons_skip {tok : Text} {c : Char} {cs : Text}
    (h : ¬ tok <+: c :: cs) : indexOf tok (c :: cs) = (indexOf tok cs).map (· + 1) := by
  have hb : tok.isPrefixOf (c :: cs) = false :=
    Bool.eq_false_iff.mpr fun hp ↦ h (List.isPrefixOf_iff_prefix.mp hp)
  simp [indexOf, hb]

theorem passes_of_not_prefixed {tok : Text} {c : Char} {t : Text} (h : ¬ tok <+: c :: t) :
    Passes tok [c] t :=
  indexOf_cons_skip h

theorem Passes.append {tok pre mid t : Text} (h : Passes tok pre (mid ++ t))
    (hmid : Passes tok mid t) : Passes tok (pre ++ mid) t := by
  rw [Passes, List.append_assoc, h, hmid, Option.map_map]
  congr 1
  funext n
  simp
  omega

/-- What stands from the occurrence on. -/
theorem Passes.map_drop {tok pre t : Text} (h : Passes tok pre t) :
    (indexOf tok (pre ++ t)).map (fun n ↦ (pre ++ t).drop n) =
      (indexOf tok t).map fun n ↦ t.drop n := by
  rw [h, Option.map_map]
  congr 1
  funext n
  rw [Function.comp_apply, Nat.add_comm n, List.drop_length_add_append]

theorem indexOf_append {c : Char} {tok pre rest : Text} {n : ℕ} (hpre : c ∉ pre)
    (h : indexOf (c :: tok) rest = some n) :
    indexOf (c :: tok) (pre ++ rest) = some (pre.length + n) := by
  rw [indexOf_append_of_notMem rest hpre, h]
  simp [Nat.add_comm]

theorem indexOf_singleton {c : Char} {pre : Text} (rest : Text) (hpre : c ∉ pre) :
    indexOf [c] (pre ++ c :: rest) = some pre.length := by
  have hhead : indexOf [c] (c :: rest) = some 0 := indexOf_of_prefix [c] rest
  simpa using indexOf_append hpre hhead

theorem indexOf_of_notMem {c : Char} (tok : Text) {t : Text} (h : c ∉ t) :
    indexOf (c :: tok) t = none := by
  have hpass : indexOf (c :: tok) (t ++ []) = _ := indexOf_append_of_notMem [] h
  rw [List.append_nil] at hpass
  rw [hpass]
  rfl

/-- Between two delimiters stands exactly one delimiter-free text. -/
theorem prefix_delimited_iff {q : Char} {key seg : Text} (rest : Text)
    (hkey : q ∉ key) (hseg : q ∉ seg) :
    (key ++ [q]) <+: (seg ++ q :: rest) ↔ key = seg := by
  constructor
  · rintro ⟨tail, htail⟩
    have hsplit : key ++ q :: tail = seg ++ q :: rest := by simpa using htail
    have htake := congrArg (List.takeWhile (· ≠ q)) hsplit
    have hpass : ∀ xs : Text, q ∉ xs → ∀ ys, (xs ++ q :: ys).takeWhile (· ≠ q) = xs := by
      intro xs hxs ys
      rw [List.takeWhile_append_of_pos fun x hx ↦ by
        simpa using fun h : x = q ↦ hxs (h ▸ hx)]
      simp
    rwa [hpass key hkey, hpass seg hseg] at htake
  · rintro rfl
    exact ⟨rest, by simp⟩

/-- A delimited token is not found in a delimited segment other than its own
key, and the search goes on from the closing delimiter. -/
theorem passes_delimited {q : Char} {key seg : Text} (rest : Text) (hkey : q ∉ key)
    (hseg : q ∉ seg) (hne : key ≠ seg) : Passes (q :: (key ++ [q])) (q :: seg) (q :: rest) := by
  have hnot : ¬ (q :: (key ++ [q])) <+: q :: (seg ++ q :: rest) := by
    intro h
    exact hne ((prefix_delimited_iff rest hkey hseg).mp (List.cons_prefix_cons.mp h).2)
  exact (passes_of_not_prefixed hnot).append (passes_of_notMem _ _ hseg)

theorem indexOf_delimited_self (q : Char) (key rest : Text) :
    indexOf (q :: (key ++ [q])) (q :: (key ++ q :: rest)) = some 0 := by
  have h := indexOf_of_prefix (q :: (key ++ [q])) rest
  simpa using h

theorem prefix_drop_of_indexOf {tok t : Text} {n : ℕ} (h : indexOf tok t = some n) :
    tok <+: t.drop n := by
  induction t generalizing n with
  | nil =>
      rw [indexOf] at h
      split_ifs at h with htok
      rw [htok]
      exact List.nil_prefix
  | cons c cs ih =>
      rw [indexOf] at h
      split_ifs at h with hprefix
      · obtain rfl := Option.some.inj h
        exact List.isPrefixOf_iff_prefix.mp hprefix
      · obtain ⟨m, hm, rfl⟩ := Option.map_eq_some_iff.mp h
        exact ih hm

theorem add_length_le_of_indexOf {tok t : Text} {n : ℕ} (h : indexOf tok t = some n) :
    n + tok.length ≤ t.length := by
  induction t generalizing n with
  | nil =>
      rw [indexOf] at h
      split_ifs at h with htok
      obtain rfl := Option.some.inj h
      simp [htok]
  | cons c cs ih =>
      rw [indexOf] at h
      split_ifs at h with hprefix
      · obtain rfl := Option.some.inj h
        rw [Nat.zero_add]
        exact (List.isPrefixOf_iff_prefix.mp hprefix).length_le
      · obtain ⟨m, hm, rfl⟩ := Option.map_eq_some_iff.mp h
        have htail := ih hm
        rw [List.length_cons]
        omega

theorem exists_indexOf (tok pre rest : Text) :
    ∃ n, indexOf tok (pre ++ (tok ++ rest)) = some n := by
  induction pre with
  | nil => exact ⟨0, indexOf_of_prefix tok rest⟩
  | cons c pre ih =>
      obtain ⟨n, hn⟩ := ih
      rw [List.cons_append, indexOf, hn]
      split_ifs
      · exact ⟨0, rfl⟩
      · exact ⟨n + 1, rfl⟩

/-! ## Searching from a position -/

theorem find_zero (body tok : Text) : find body tok 0 = indexOf tok body := by
  simp [find]

/-- What stands from the place on that a search finds. -/
theorem map_drop_find {tok : Text} (htok : tok ≠ []) (body : Text) (pos : ℕ) :
    (find body tok pos).map (fun n ↦ body.drop n) =
      (indexOf tok (body.drop pos)).map fun n ↦ (body.drop pos).drop n := by
  rw [find]
  split_ifs with hpos
  · rw [Option.map_map]
    congr 1
    funext n
    rw [Function.comp_apply, List.drop_drop]
  · rw [List.drop_eq_nil_of_le (by omega), indexOf, if_neg htok]
    rfl

/-- The stretch from a position up to the token found behind it. -/
theorem map_substr_find {tok : Text} (htok : tok ≠ []) (body : Text) (pos : ℕ) :
    (find body tok pos).map (fun e ↦ substr body pos (e - pos)) =
      (indexOf tok (body.drop pos)).map fun n ↦ (body.drop pos).take n := by
  rw [find]
  split_ifs with hpos
  · rw [Option.map_map]
    congr 1
    funext n
    rw [Function.comp_apply, substr, Nat.add_sub_cancel_left]
  · rw [List.drop_eq_nil_of_le (by omega), indexOf, if_neg htok]
    rfl

/-- A search from a position ends within the text. -/
theorem le_of_find {body tok : Text} {pos n : ℕ} (h : find body tok pos = some n) :
    pos ≤ n ∧ n + tok.length ≤ body.length := by
  rw [find] at h
  split_ifs at h with hpos
  obtain ⟨m, hm, rfl⟩ := Option.map_eq_some_iff.mp h
  have hlength := add_length_le_of_indexOf hm
  rw [List.length_drop] at hlength
  omega

theorem find_singleton {body t rest : Text} {c : Char} {pos : ℕ}
    (hdrop : body.drop pos = t ++ c :: rest) (ht : c ∉ t) :
    find body [c] pos = some (pos + t.length) := by
  have hpos : pos ≤ body.length := by
    by_contra hlt
    rw [List.drop_eq_nil_of_le (by omega)] at hdrop
    simp at hdrop
  rw [find, if_pos hpos, hdrop, indexOf_singleton rest ht, Option.map_some]

/-- The first of the characters that end a stretch ends it. -/
theorem findFirstOf_append {body chars t rest : Text} {c : Char} {pos : ℕ}
    (hdrop : body.drop pos = t ++ c :: rest) (ht : ∀ d ∈ t, d ∉ chars) (hc : c ∈ chars) :
    findFirstOf body chars pos = some (pos + t.length) := by
  have hpass : t.findIdx? (· ∈ chars) = none := by
    rw [List.findIdx?_eq_none_iff]
    intro d hd
    exact decide_eq_false (ht d hd)
  rw [findFirstOf, hdrop, List.findIdx?_append, hpass, List.findIdx?_cons,
    if_pos (decide_eq_true hc)]
  simp

theorem spanLength_eq_zero {p : Char → Bool} {body : Text} {pos : ℕ}
    (h : ∀ c ∈ (body.drop pos).head?, p c = false) : spanLength p body pos = 0 := by
  rw [spanLength]
  cases hdrop : body.drop pos with
  | nil => rfl
  | cons c t => simp [h c (by simp [hdrop])]

theorem substr_spanLength (p : Char → Bool) (body : Text) (pos : ℕ) :
    substr body pos (spanLength p body pos) = (body.drop pos).takeWhile p :=
  (List.prefix_iff_eq_take.mp (List.takeWhile_prefix p)).symm

theorem drop_spanLength (p : Char → Bool) (body : Text) (pos : ℕ) :
    body.drop (pos + spanLength p body pos) = (body.drop pos).dropWhile p := by
  have hsplit : (body.drop pos).takeWhile p ++ (body.drop pos).dropWhile p = body.drop pos :=
    List.takeWhile_append_dropWhile
  rw [← List.drop_drop, spanLength]
  nth_rewrite 2 [← hsplit]
  exact List.drop_append_length

end Text

end FrogQuant
