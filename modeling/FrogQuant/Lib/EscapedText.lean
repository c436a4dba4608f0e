import FrogQuant.Lib.PrintedNumber

/-!
# Objects with escaped strings

An escaper writes some characters as themselves and others as a backslash and a
letter.  A reader takes the text back exactly where no control character is
written as itself.  Objects of such strings, of numbers and of literals are read
member by member.
-/

namespace FrogQuant.Json

/-! ## Escaped strings -/

/-- Each character stands for itself or is escaped by one letter, quotes and
backslashes always. -/
def Escapes (esc : Char → Text) : Prop :=
  ∀ c, (esc c = [c] ∧ c ≠ '"' ∧ c ≠ '\\') ∨
    ∃ e u, esc c = ['\\', e] ∧ escapeUnit e = some u ∧ utf16 c = [u]

/-- Escaped, or no control character. -/
def isKept (esc : Char → Text) (c : Char) : Bool := esc c ≠ [c] || 32 ≤ c.toNat

theorem meaning_escape {e : Char} {u : ℕ} (h : escapeUnit e = some u) (t : Text) :
    meaning ('\\' :: e :: t) = (meaning t).map (u :: ·) := by
  have he : e ≠ 'u' := by
    rintro rfl
    cases h
  rw [meaning.eq_def]
  simp only [if_true]
  split
  · rename_i heq
    exact absurd (List.cons.inj heq).1 he
  · rename_i heq
    obtain ⟨rfl, rfl⟩ := List.cons.inj heq
    rw [h]
    cases meaning t <;> rfl
  · rename_i heq
    cases heq

theorem meaning_cons {c : Char} (hquote : c ≠ '"') (hslash : c ≠ '\\') (t : Text) :
    meaning (c :: t) = if c.toNat < 32 then none else (meaning t).map (utf16 c ++ ·) := by
  rw [meaning.eq_def]
  simp only [hslash, hquote, if_false, false_or]

section Escaper

variable {esc : Char → Text} (hesc : Escapes esc)

include hesc

theorem readRaw_flatMap (t rest : Text) :
    readRaw (t.flatMap esc ++ '"' :: rest) = some (t.flatMap esc, rest) := by
  induction t with
  | nil =>
      rw [List.flatMap_nil, List.nil_append, readRaw.eq_def]
      rfl
  | cons c t ih =>
      rw [List.flatMap_cons, List.append_assoc]
      rcases hesc c with ⟨hself, hquote, hslash⟩ | ⟨e, u, hescape, -, -⟩
      · rw [hself, List.singleton_append, readRaw.eq_def]
        simp only [hquote, hslash, if_false, ih, Option.map_some, List.singleton_append]
      · have hslash : '\\' ≠ '"' := by decide
        rw [hescape, List.cons_append, List.singleton_append, readRaw.eq_def]
        simp only [hslash, if_false, if_true, ih, Option.map_some, List.cons_append,
          List.nil_append]

/-- An escaped text means the text, unless a control character is written as
itself. -/
theorem meaning_flatMap (t : Text) :
    meaning (t.flatMap esc) = if t.all (isKept esc) then some (t.flatMap utf16) else none := by
  induction t with
  | nil => simp [meaning]
  | cons c t ih =>
      rw [List.flatMap_cons, List.flatMap_cons, List.all_cons]
      rcases hesc c with ⟨hself, hquote, hslash⟩ | ⟨e, u, hescape, hunit, hutf⟩
      · rw [hself, List.singleton_append, meaning_cons hquote hslash, ih]
        by_cases hcontrol : c.toNat < 32
        · have hkept : isKept esc c = false := by simp [isKept, hself, hcontrol]
          rw [hkept, if_pos hcontrol]
          rfl
        · have hkept : isKept esc c = true := by simp [isKept, not_lt.mp hcontrol]
          rw [hkept, if_neg hcontrol, Bool.true_and]
          split_ifs <;> rfl
      · have hkept : isKept esc c = true := by simp [isKept, hescape]
        rw [hescape, List.cons_append, List.singleton_append, meaning_escape hunit, ih, hutf, hkept,
          Bool.true_and]
        split_ifs <;> rfl

end Escaper

/-! ## Objects of leaves -/

/-- What a leaf is read as, whatever follows it. -/
def ReadsAs (t : Text) (v? : Option (Tree Text ℚ)) : Prop :=
  ∀ (n : ℕ) (rest : Text), Stops rest →
    readValue (n + 1) (t ++ rest) = v?.map fun v ↦ (v, rest)

theorem readsAs_number (x : Printed) :
    ReadsAs (printedLeaves.text x) (Tree.eval printedLeaves (.number x)) := by
  intro n rest hrest
  have hsize : (Tree.number x : Tree Word Printed).size ≤ n + 1 := by
    rw [Tree.size]
    omega
  exact readValue_text printedLeaves (.number x) hsize hrest

theorem readsAs_word (s : Word) : ReadsAs (quoted s.text) (some (.string s.text)) := by
  intro n rest hrest
  have hsize : (Tree.string s : Tree Word Printed).size ≤ n + 1 := by
    rw [Tree.size]
    omega
  exact readValue_text printedLeaves (.string s) hsize hrest

theorem readsAs_escaped {esc : Char → Text} (hesc : Escapes esc) (t : Text) :
    ReadsAs (quoted (t.flatMap esc))
      ((meaning (t.flatMap esc)).map fun _ ↦ .string (t.flatMap esc)) := by
  intro n rest _
  have hopen : isSpace '"' = false := by decide
  rw [quoted, readValue, List.cons_append, skip_cons hopen, List.append_assoc,
    List.singleton_append]
  simp only [if_true, readString, readRaw_flatMap hesc, Option.filter_some]
  cases meaning (t.flatMap esc) <;> rfl

/-- A value without parts as it is written, and what it is read as. -/
structure Leaf where
  text : Text
  value? : Option (Tree Text ℚ)
  readsAs : ReadsAs text value?

namespace Leaf

def int (z : ℤ) : Leaf where
  text := printedLeaves.text (.int z)
  value? := Tree.eval printedLeaves (.number (.int z))
  readsAs := readsAs_number (.int z)

def double (x : Double) : Leaf where
  text := printedLeaves.text (.double x)
  value? := Tree.eval printedLeaves (.number (.double x))
  readsAs := readsAs_number (.double x)

def word (s : Word) : Leaf where
  text := quoted s.text
  value? := some (.string s.text)
  readsAs := readsAs_word s

def escaped {esc : Char → Text} (hesc : Escapes esc) (t : Text) : Leaf where
  text := quoted (t.flatMap esc)
  value? := (meaning (t.flatMap esc)).map fun _ ↦ .string (t.flatMap esc)
  readsAs := readsAs_escaped hesc t

variable {esc : Char → Text} (hesc : Escapes esc)

theorem value?_int (z : ℤ) : (int z).value? = some (.number z) := eval_int z

theorem value?_word (s : Word) : (word s).value? = some (.string s.text) := rfl

theorem value?_double (q : ℚ) :
    (double (.finite q)).value? = some (.number (Ostream.roundSignificant q)) :=
  eval_double (.finite q)

theorem value?_escaped {t : Text} (h : t.all (isKept esc) = true) :
    (escaped hesc t).value? = some (.string (t.flatMap esc)) := by
  change (meaning (t.flatMap esc)).map _ = _
  rw [meaning_flatMap hesc, if_pos h, Option.map_some]

theorem value?_escaped_eq_none {t : Text} (h : ¬ t.all (isKept esc) = true) :
    (escaped hesc t).value? = none := by
  change (meaning (t.flatMap esc)).map _ = _
  rw [meaning_flatMap hesc, if_neg h, Option.map_none]

end Leaf

def leafText (m : Word × Leaf) : Text := member m.1.text m.2.text

/-- The members with their values, if all are values. -/
def leafValues : List (Word × Leaf) → Option (List (Text × Tree Text ℚ))
  | [] => some []
  | m :: ms => m.2.value?.bind fun v ↦ (leafValues ms).map ((m.1.text, v) :: ·)

theorem leafValues_cons {l : Leaf} {v : Tree Text ℚ} (h : l.value? = some v) (k : Word)
    (ms : List (Word × Leaf)) :
    leafValues ((k, l) :: ms) = (leafValues ms).map ((k.text, v) :: ·) := by
  rw [leafValues, h, Option.bind_some]

theorem leafValues_of_none {m : Word × Leaf} {ms : List (Word × Leaf)} (hm : m ∈ ms)
    (h : m.2.value? = none) : leafValues ms = none := by
  induction ms with
  | nil => cases hm
  | cons m' ms ih =>
      rw [leafValues]
      rcases List.mem_cons.mp hm with rfl | hm
      · rw [h, Option.bind_none]
      · rw [ih hm]
        cases m'.2.value? <;> rfl

theorem readMembers_leaves (ms : List (Word × Leaf)) (hne : ms ≠ []) {n : ℕ} (hn : ms.length < n)
    (rest : Text) :
    readMembers n (List.intercalate [','] (ms.map leafText) ++ '\x7d' :: rest) =
      (leafValues ms).map fun vs ↦ (vs, rest) := by
  induction ms generalizing n with
  | nil => exact absurd rfl hne
  | cons m ms ih =>
      rw [List.length_cons] at hn
      obtain ⟨n, rfl⟩ : ∃ k, n = k + 2 := ⟨n - 2, by omega⟩
      rw [List.map_cons, intercalate_cons_append, leafValues]
      by_cases hnil : ms = []
      · subst hnil
        have hvalue := m.2.readsAs n ('\x7d' :: rest) (stops_cons (by decide) rest)
        rw [List.map_nil, if_pos rfl, leafText, readMembers_member m.1 (by decide) hvalue]
        cases m.2.value? with
        | none => rfl
        | some v => simp [leafValues]
      · have hvalue := m.2.readsAs n
          (',' :: (List.intercalate [','] (ms.map leafText) ++ '\x7d' :: rest))
          (stops_cons (by decide) _)
        have htail := ih hnil (n := n + 1) (by omega)
        rw [if_neg (mt List.map_eq_nil_iff.mp hnil), leafText,
          readMembers_member m.1 (by decide) hvalue]
        cases m.2.value? with
        | none => rfl
        | some v => simp [htail, Function.comp_def]

theorem head_leaves (ms : List (Word × Leaf)) (hne : ms ≠ []) (rest : Text) :
    (skip (List.intercalate [','] (ms.map leafText) ++ rest)).head? ≠ some '\x7d' := by
  obtain ⟨m, ms, rfl⟩ := List.exists_cons_of_ne_nil hne
  have hspace : isSpace '"' = false := by decide
  rw [List.map_cons, intercalate_cons_append, leafText, member, quoted]
  simp only [List.cons_append]
  rw [skip_cons hspace]
  simp

theorem length_le_leaves (ms : List (Word × Leaf)) :
    ms.length ≤ (List.intercalate [','] (ms.map leafText)).length := by
  induction ms with
  | nil => exact Nat.zero_le _
  | cons m ms ih =>
      have hlength := length_intercalate_cons (leafText m) (ms.map leafText)
      have hone : 1 ≤ (leafText m).length := by simp [leafText, member, quoted]
      rw [List.map_cons, List.length_cons]
      split_ifs at hlength with hnil
      · have hzero : ms.length = 0 := List.length_eq_zero_iff.mpr (List.map_eq_nil_iff.mp hnil)
        omega
      · omega

/-- An object of leaves with white space behind it is read if all its members
are. -/
theorem read_leaves (ms : List (Word × Leaf)) (hne : ms ≠ []) {space : Text}
    (hspace : space.all isSpace = true) :
    read (object (ms.map leafText) ++ space) = (leafValues ms).map .object := by
  have hfuel : ms.length < (object (ms.map leafText) ++ space).length := by
    have hlength := length_le_leaves ms
    simp only [object, List.length_append, List.length_cons]
    omega
  have hskip : skip space = [] :=
    List.dropWhile_eq_nil_iff.mpr fun c hc ↦ List.all_eq_true.mp hspace c hc
  rw [read, readValue_object (head_leaves ms hne _) (readMembers_leaves ms hne hfuel space)]
  cases leafValues ms with
  | none => rfl
  | some vs => simp [hskip]

/-! ## One line -/

theorem newline_notMem_word (s : Word) : '\n' ∉ s.text := by
  intro h
  exact absurd (s.isLiteral_of_mem h).2.2 (by decide)

theorem newline_notMem_printed (x : Printed) : '\n' ∉ printedLeaves.text x := by
  intro h
  exact absurd (printedLeaves.isBare_of_mem x _ h) (by decide)

theorem newline_notMem_quoted {t : Text} (h : '\n' ∉ t) : '\n' ∉ quoted t := by
  simp [quoted, h]

/-- An object whose leaves have no newline stands on one line. -/
theorem newline_notMem_leaves {ms : List (Word × Leaf)} (h : ∀ m ∈ ms, '\n' ∉ m.2.text) :
    '\n' ∉ object (ms.map leafText) := by
  have hmembers : '\n' ∉ List.intercalate [','] (ms.map leafText) := by
    induction ms with
    | nil => exact List.not_mem_nil
    | cons m ms ih =>
        have htail := ih fun m' hm' ↦ h m' (List.mem_cons_of_mem m hm')
        have hhead : '\n' ∉ leafText m := by
          simp [leafText, member, quoted, newline_notMem_word, h m List.mem_cons_self]
        have hsplit := intercalate_cons_append (leafText m) (ms.map leafText) []
        rw [List.append_nil] at hsplit
        rw [List.map_cons, hsplit]
        split_ifs
        · simpa using hhead
        · simp [hhead, htail]
  simp [object, hmembers]

end FrogQuant.Json
