import FrogQuant.Lib.QuotedTexts

/-!
# Flat objects as they are written

Between the tokens of an object white space may stand, and a string may be
written with escapes.  For objects without escapes it is told where a scan for
a key arrives.
-/

namespace FrogQuant.Json

/-- White space of the JSON grammar. -/
def isSpace (c : Char) : Bool := c = ' ' || c = '\n' || c = '\r' || c = '\t'

/-! ## Strings -/

def hexValue (c : Char) : Option ℕ :=
  if c.isDigit then some (c.toNat - '0'.toNat)
  else if 'a' ≤ c ∧ c ≤ 'f' then some (c.toNat - 'a'.toNat + 10)
  else if 'A' ≤ c ∧ c ≤ 'F' then some (c.toNat - 'A'.toNat + 10)
  else none

def hexUnit (a b c d : Char) : Option ℕ := do
  let a ← hexValue a
  let b ← hexValue b
  let c ← hexValue c
  let d ← hexValue d
  return ((a * 16 + b) * 16 + c) * 16 + d

def escapeUnit : Char → Option ℕ
  | '"' => some '"'.toNat
  | '\\' => some '\\'.toNat
  | '/' => some '/'.toNat
  | 'b' => some 8
  | 'f' => some 12
  | 'n' => some 10
  | 'r' => some 13
  | 't' => some 9
  | _ => none

/-- A character in UTF-16. -/
def utf16 (c : Char) : List ℕ :=
  if c.toNat < 0x10000 then [c.toNat]
  else [0xD800 + (c.toNat - 0x10000) / 0x400, 0xDC00 + (c.toNat - 0x10000) % 0x400]

/-- What a string means that is written so between its quotes, in UTF-16; no
string is written with a bare quote or control character. -/
def meaning : Text → Option (List ℕ)
  | [] => some []
  | c :: t =>
      if c = '\\' then
        match t with
        | 'u' :: h₁ :: h₂ :: h₃ :: h₄ :: t => do
            let u ← hexUnit h₁ h₂ h₃ h₄
            let us ← meaning t
            return u :: us
        | e :: t => do
            let u ← escapeUnit e
            let us ← meaning t
            return u :: us
        | [] => none
      else if c = '"' ∨ c.toNat < 32 then none
      else (meaning t).map (utf16 c ++ ·)

/-! ## Objects -/

def FlatValue.isWritten : FlatValue → Bool
  | string t => (meaning t).isSome
  | _ => true

/-- A member, with the white space around its key and its value. -/
structure Member where
  key : Text
  value : FlatValue
  beforeKey : Text
  beforeColon : Text
  afterColon : Text
  afterValue : Text

namespace Member

/-- The punctuation between key and value. -/
def colon (m : Member) : Text := m.beforeColon ++ ':' :: m.afterColon

def text (m : Member) : Text :=
  m.beforeKey ++ quoted m.key ++ m.colon ++ m.value.text ++ m.afterValue

structure Spaced (m : Member) : Prop where
  beforeKey : m.beforeKey.all isSpace = true
  beforeColon : m.beforeColon.all isSpace = true
  afterColon : m.afterColon.all isSpace = true
  afterValue : m.afterValue.all isSpace = true

end Member

/-- A flat object; the white space before and behind it, and `inside` it when it
has no members. -/
structure WrittenObject where
  members : List Member
  before : Text
  inside : Text
  behind : Text
  spaced : ∀ m ∈ members, m.Spaced
  space : (before ++ inside ++ behind).all isSpace = true
  isSome_keys : ∀ m ∈ members, (meaning m.key).isSome = true
  isWritten_values : ∀ m ∈ members, m.value.isWritten = true
  keys_nodup : (members.map fun m ↦ meaning m.key).Nodup

namespace WrittenObject

def text (o : WrittenObject) : Text :=
  let inner :=
    match o.members with
    | [] => o.inside
    | ms => List.intercalate [','] (ms.map Member.text)
  o.before ++ '\x7b' :: (inner ++ '\x7d' :: o.behind)

/-- A key as it is written, with its value. -/
def Binds (o : WrittenObject) (key : Text) (v : FlatValue) : Prop :=
  ∃ m ∈ o.members, m.key = key ∧ m.value = v

/-- An object without white space. -/
def compact (ms : List (Text × FlatValue)) (hkeys : ∀ m ∈ ms, (meaning m.1).isSome = true)
    (hvalues : ∀ m ∈ ms, m.2.isWritten = true) (hnodup : (ms.map fun m ↦ meaning m.1).Nodup) :
    WrittenObject where
  members := ms.map fun m ↦ ⟨m.1, m.2, [], [], [], []⟩
  before := []
  inside := []
  behind := []
  spaced := by
    intro m hm
    obtain ⟨p, -, rfl⟩ := List.mem_map.mp hm
    exact ⟨rfl, rfl, rfl, rfl⟩
  space := rfl
  isSome_keys := by
    intro m hm
    obtain ⟨p, hp, rfl⟩ := List.mem_map.mp hm
    exact hkeys p hp
  isWritten_values := by
    intro m hm
    obtain ⟨p, hp, rfl⟩ := List.mem_map.mp hm
    exact hvalues p hp
  keys_nodup := by
    rw [List.map_map]
    exact hnodup

/-- Keys and strings without quotes and backslashes. -/
def Plain (o : WrittenObject) : Prop :=
  ∀ m ∈ o.members, Verbatim m.key ∧ ∀ t, m.value = .string t → Verbatim t

end WrittenObject

/-! ## The texts that the quotes set apart -/

theorem notMem_of_all_isSpace {c : Char} (hc : isSpace c = false) {t : Text}
    (h : t.all isSpace = true) : c ∉ t := by
  intro hmem
  have hspace := List.all_eq_true.mp h c hmem
  rw [hc] at hspace
  cases hspace

/-- What stands behind the last quote of an object that `back` follows. -/
def follow (back : Text) : List Member → Text
  | [] => '\x7d' :: back
  | m :: _ => ',' :: m.beforeKey

section Texts

variable (back : Text)

/-- What closes a member that `ms` follow. -/
def closing (m : Member) (ms : List Member) : Text := m.afterValue ++ follow back ms

/-- The texts from the quote on that closes the key. -/
def valueTexts (m : Member) (ms : List Member) : List Text :=
  match m.value with
  | .string t => m.colon :: (t.splitOn '"' ++ [closing back m ms])
  | v => [m.colon ++ (v.text ++ closing back m ms)]

/-- The texts between the quotes, from the first key on. -/
def texts : List Member → List Text
  | [] => []
  | m :: ms => m.key.splitOn '"' ++ (valueTexts back m ms ++ texts ms)

variable {m : Member} (ms : List Member)

theorem valueTexts_bare (hv : ∀ t, m.value ≠ .string t) :
    valueTexts back m ms = [m.colon ++ (m.value.text ++ closing back m ms)] := by
  rw [valueTexts]
  cases h : m.value with
  | string t => exact absurd h (hv t)
  | number n => rfl
  | bool b => rfl
  | null => rfl

theorem quotes_valueTexts (m : Member) :
    quotes (valueTexts back m ms) = '"' :: (m.colon ++ (m.value.text ++ closing back m ms)) := by
  by_cases hv : ∃ t, m.value = .string t
  · obtain ⟨t, ht⟩ := hv
    simp [valueTexts, ht, quotes_append, quotes_splitOn, FlatValue.text, quoted]
  · rw [valueTexts_bare back ms fun t h ↦ hv ⟨t, h⟩]
    simp

theorem intercalate_text (m : Member) :
    List.intercalate [','] ((m :: ms).map Member.text) ++ '\x7d' :: back =
      m.beforeKey ++ quotes (texts back (m :: ms)) := by
  induction ms generalizing m with
  | nil =>
      simp [texts, quotes_append, quotes_splitOn, quotes_valueTexts, Member.text, quoted, closing,
        follow]
  | cons m' ms ih =>
      have htail := ih m'
      simp only [List.map_cons] at htail ⊢
      rw [List.intercalate_cons_cons, List.append_assoc, List.append_assoc, htail]
      simp [texts, quotes_append, quotes_splitOn, quotes_valueTexts, Member.text, quoted, closing,
        follow]

theorem quote_notMem_value {v : FlatValue} (hv : ∀ t, v ≠ .string t) : '"' ∉ v.text := by
  cases v with
  | string t => exact absurd rfl (hv t)
  | number n => exact quote_notMem_number n
  | bool b => cases b <;> decide
  | null => decide

theorem notMem_colon {c : Char} (hc : isSpace c = false) (hne : c ≠ ':') (hm : m.Spaced) :
    c ∉ m.colon := by
  have hbefore := notMem_of_all_isSpace hc hm.beforeColon
  have hafter := notMem_of_all_isSpace hc hm.afterColon
  simp [Member.colon, hbefore, hafter, hne]

theorem notMem_closing {c : Char} (hc : isSpace c = false) (hcomma : c ≠ ',') (hbrace : c ≠ '\x7d')
    (hback : back.all isSpace = true) (hm : m.Spaced) (hms : ∀ m ∈ ms, m.Spaced) :
    c ∉ closing back m ms := by
  have hafter := notMem_of_all_isSpace hc hm.afterValue
  cases ms with
  | nil =>
      have hend := notMem_of_all_isSpace hc hback
      simp [closing, follow, hafter, hend, hbrace]
  | cons m' ms =>
      have hnext := notMem_of_all_isSpace hc (hms m' List.mem_cons_self).beforeKey
      simp [closing, follow, hafter, hnext, hcomma]

theorem quote_notMem_texts (hback : back.all isSpace = true) (hms : ∀ m ∈ ms, m.Spaced) :
    ∀ s ∈ texts back ms, '"' ∉ s := by
  induction ms with
  | nil => simp [texts]
  | cons m ms ih =>
      have hm := hms m List.mem_cons_self
      have hrest := ih fun m' hm' ↦ hms m' (List.mem_cons_of_mem m hm')
      have hcolon : '"' ∉ m.colon := notMem_colon (by decide) (by decide) hm
      have hclose : '"' ∉ closing back m ms :=
        notMem_closing back ms (by decide) (by decide) (by decide) hback hm fun m' hm' ↦
          hms m' (List.mem_cons_of_mem m hm')
      have hvalue : ∀ s ∈ valueTexts back m ms, '"' ∉ s := by
        by_cases hv : ∃ t, m.value = .string t
        · obtain ⟨t, ht⟩ := hv
          intro s hs
          simp only [valueTexts, ht, List.mem_cons, List.mem_append, List.not_mem_nil, or_false]
            at hs
          rcases hs with rfl | hs | rfl
          · exact hcolon
          · exact Text.notMem_of_mem_splitOn hs
          · exact hclose
        · have hbare := quote_notMem_value fun t h ↦ hv ⟨t, h⟩
          rw [valueTexts_bare back ms fun t h ↦ hv ⟨t, h⟩]
          simp [hcolon, hbare, hclose]
      intro s hs
      rcases List.mem_append.mp hs with hs | hs
      · exact Text.notMem_of_mem_splitOn hs
      · rcases List.mem_append.mp hs with hs | hs
        · exact hvalue s hs
        · exact hrest s hs

end Texts

namespace WrittenObject

variable (o : WrittenObject)

theorem before_isSpace : o.before.all isSpace = true := by
  have h := o.space
  simp only [List.all_append, Bool.and_eq_true] at h
  exact h.1.1

theorem inside_isSpace : o.inside.all isSpace = true := by
  have h := o.space
  simp only [List.all_append, Bool.and_eq_true] at h
  exact h.1.2

theorem behind_isSpace : o.behind.all isSpace = true := by
  have h := o.space
  simp only [List.all_append, Bool.and_eq_true] at h
  exact h.2

/-- The text of an object, cut at its quotes. -/
theorem text_eq_quotes :
    ∃ front, '"' ∉ front ∧ o.text = front ++ quotes (texts o.behind o.members) := by
  have hbefore : '"' ∉ o.before := notMem_of_all_isSpace (by decide) o.before_isSpace
  cases hms : o.members with
  | nil =>
      have hinside : '"' ∉ o.inside := notMem_of_all_isSpace (by decide) o.inside_isSpace
      have hbehind : '"' ∉ o.behind := notMem_of_all_isSpace (by decide) o.behind_isSpace
      refine ⟨o.text, ?_, by simp [texts]⟩
      simp [text, hms, hbefore, hinside, hbehind]
  | cons m ms =>
      have hm := o.spaced m (hms ▸ List.mem_cons_self)
      have hkey : '"' ∉ m.beforeKey := notMem_of_all_isSpace (by decide) hm.beforeKey
      refine ⟨o.before ++ '\x7b' :: m.beforeKey, by simp [hbefore, hkey], ?_⟩
      rw [text, hms]
      simp only [intercalate_text, List.cons_append, List.append_assoc]

theorem quote_notMem_texts : ∀ s ∈ texts o.behind o.members, '"' ∉ s :=
  Json.quote_notMem_texts o.behind o.members o.behind_isSpace o.spaced

end WrittenObject

/-! ## Where a scan arrives in an object without escapes -/

section Site

variable (back : Text)

/-- The member whose colon a scan for a key without a colon arrives at, and the
members behind it.  A string that is the key is taken for it, and so is the
punctuation between a string and the next key. -/
def site (key : Text) : List Member → Option (Member × List Member)
  | [] => none
  | m :: ms =>
      if m.key = key then some (m, ms)
      else
        match m.value with
        | .string t => if t = key ∨ closing back m ms = key then ms.next? else site key ms
        | _ => site key ms

/-- What stands between the first colon of a member and the next quote. -/
def bareText (m : Member) (ms : List Member) : Text :=
  if ':' ∈ m.key then (Text.cut ':' m.key).2
  else
    match m.value with
    | .string _ => m.afterColon
    | v => m.afterColon ++ (v.text ++ closing back m ms)

/-- The text in quotes behind the first colon of a member. -/
def nextText (m : Member) (ms : List Member) : Option Text :=
  if ':' ∈ m.key then
    match m.value with
    | .string _ => some m.colon
    | v => ms.head?.map fun _ ↦ m.colon ++ (v.text ++ closing back m ms)
  else
    match m.value with
    | .string t => some t
    | _ => ms.head?.map Member.key

variable {key : Text} {m : Member} (ms : List Member)

theorem site_self (m : Member) : site back m.key (m :: ms) = some (m, ms) := if_pos rfl

theorem site_bare (hne : m.key ≠ key) (hv : ∀ t, m.value ≠ .string t) :
    site back key (m :: ms) = site back key ms := by
  rw [site, if_neg hne]
  cases h : m.value with
  | string t => exact absurd h (hv t)
  | number n => rfl
  | bool b => rfl
  | null => rfl

theorem bareText_bare (hcolon : ':' ∉ m.key) (hv : ∀ t, m.value ≠ .string t) :
    bareText back m ms = m.afterColon ++ (m.value.text ++ closing back m ms) := by
  rw [bareText, if_neg hcolon]
  cases h : m.value with
  | string t => exact absurd h (hv t)
  | number n => rfl
  | bool b => rfl
  | null => rfl

theorem nextText_bare (hcolon : ':' ∉ m.key) (hv : ∀ t, m.value ≠ .string t) :
    nextText back m ms = ms.head?.map Member.key := by
  rw [nextText, if_neg hcolon]
  cases h : m.value with
  | string t => exact absurd h (hv t)
  | number n => rfl
  | bool b => rfl
  | null => rfl

theorem nextText_bare_of_colon (hcolon : ':' ∈ m.key) (hv : ∀ t, m.value ≠ .string t) :
    nextText back m ms =
      ms.head?.map fun _ ↦ m.colon ++ (m.value.text ++ closing back m ms) := by
  rw [nextText, if_pos hcolon]
  cases h : m.value with
  | string t => exact absurd h (hv t)
  | number n => rfl
  | bool b => rfl
  | null => rfl

/-! ### A member without escapes -/

theorem valueTexts_string {t : Text} (ht : m.value = .string t) (hplain : '"' ∉ t) :
    valueTexts back m ms = [m.colon, t, closing back m ms] := by
  rw [valueTexts, ht]
  simp only [List.splitOn_eq_singleton hplain, List.singleton_append]

theorem texts_cons (hplain : '"' ∉ m.key) :
    texts back (m :: ms) = m.key :: (valueTexts back m ms ++ texts back ms) := by
  rw [texts, List.splitOn_eq_singleton hplain, List.singleton_append]

theorem cut_colon (hm : m.Spaced) (rest : Text) :
    (Text.cut ':' (m.colon ++ rest)).2 = m.afterColon ++ rest := by
  have hbefore : ':' ∉ m.beforeColon := notMem_of_all_isSpace (by decide) hm.beforeColon
  have hsplit : m.colon ++ rest = m.beforeColon ++ ':' :: (m.afterColon ++ rest) := by
    simp [Member.colon]
  rw [hsplit, Text.cut_append hbefore]

theorem colon_mem_colon (m : Member) (rest : Text) : ':' ∈ m.colon ++ rest := by
  simp [Member.colon]

theorem closed_cons_texts (s : Text) {ms : List Member} (hms : ∀ m ∈ ms, Verbatim m.key) :
    closed (s :: texts back ms) = ms.head?.map fun _ ↦ s := by
  cases ms with
  | nil => rfl
  | cons m ms =>
      rw [texts_cons back ms (hms m List.mem_cons_self).1]
      rfl

theorem valueTexts_ne_nil (m : Member) : valueTexts back m ms ≠ [] := by
  rw [valueTexts]
  cases m.value <;> exact List.cons_ne_nil _ _

theorem closed_texts {ms : List Member} (hms : ∀ m ∈ ms, Verbatim m.key) :
    closed (texts back ms) = ms.head?.map Member.key := by
  cases ms with
  | nil => rfl
  | cons m ms =>
      obtain ⟨s, ss, hvalue⟩ := List.exists_cons_of_ne_nil (valueTexts_ne_nil back ms m)
      rw [texts_cons back ms (hms m List.mem_cons_self).1, hvalue]
      rfl

/-- What a scan arrives at that starts at a member. -/
theorem behindColon_texts (hm : m.Spaced) (hkey : Verbatim m.key)
    (hstring : ∀ t, m.value = .string t → Verbatim t) {ms : List Member}
    (hms : ∀ m ∈ ms, Verbatim m.key) :
    (behindColon (texts back (m :: ms))).map (fun p ↦ (p.1, closed p.2)) =
      some (bareText back m ms, nextText back m ms) := by
  have hcut := fun rest ↦ cut_colon hm rest
  have hown := fun rest ↦ colon_mem_colon m rest
  rw [texts_cons back ms hkey.1]
  by_cases hv : ∃ t, m.value = .string t
  · obtain ⟨t, ht⟩ := hv
    have hcut' := hcut []
    have hown' := hown []
    rw [List.append_nil] at hcut' hown'
    rw [valueTexts_string back ms ht (hstring t ht).1]
    by_cases hcolon : ':' ∈ m.key
    · rw [behindColon_stop hcolon]
      simp [bareText, nextText, hcolon, ht, closed]
    · rw [behindColon_skip hcolon, List.cons_append, behindColon_stop hown', hcut']
      simp [bareText, nextText, hcolon, ht, closed]
  · have hbare : ∀ t, m.value ≠ .string t := fun t h ↦ hv ⟨t, h⟩
    rw [valueTexts_bare back ms hbare, List.singleton_append]
    by_cases hcolon : ':' ∈ m.key
    · rw [behindColon_stop hcolon, nextText_bare_of_colon back ms hcolon hbare, bareText,
        if_pos hcolon, Option.map_some, closed_cons_texts back _ hms]
    · rw [behindColon_skip hcolon, behindColon_stop (hown _), hcut, Option.map_some,
        bareText_bare back ms hcolon hbare, nextText_bare back ms hcolon hbare,
        closed_texts back hms]

/-! ### The scan -/

theorem ne_of_colon_mem {s : Text} (hkey : ':' ∉ key) (hs : ':' ∈ s) : s ≠ key := by
  rintro rfl
  exact hkey hs

/-- A key without a colon is not found in the punctuation around a bare
value. -/
theorem scan_bare (hcolon : ':' ∉ key) (hv : ∀ t, m.value ≠ .string t) :
    scan key (valueTexts back m ms ++ texts back ms) = scan key (texts back ms) := by
  rw [valueTexts_bare back ms hv, scan, List.singleton_append,
    fromKey_skip (ne_of_colon_mem hcolon (colon_mem_colon m _)), scan]

theorem scan_string (hcolon : ':' ∉ key) {t : Text} (ht : m.value = .string t) (hplain : '"' ∉ t)
    {ms : List Member} (hms : ∀ m ∈ ms, Verbatim m.key) :
    scan key (valueTexts back m ms ++ texts back ms) =
      if t = key ∨ closing back m ms = key then behindColon (closing back m ms :: texts back ms)
      else scan key (texts back ms) := by
  have hgap : m.colon ≠ key := by
    have hmem := colon_mem_colon m []
    rw [List.append_nil] at hmem
    exact ne_of_colon_mem hcolon hmem
  have hskip : scan key (valueTexts back m ms ++ texts back ms) =
      scan key (t :: closing back m ms :: texts back ms) := by
    rw [scan, valueTexts_string back ms ht hplain, List.cons_append, fromKey_skip hgap]
    rfl
  rw [hskip]
  by_cases heq : t = key
  · subst heq
    rw [if_pos (Or.inl rfl), scan, fromKey_self, Option.bind_some, behindColon_skip hcolon]
  · rw [scan, fromKey_skip heq]
    by_cases hclose : closing back m ms = key
    · rw [if_pos (Or.inr hclose), ← hclose]
      cases ms with
      | nil =>
          have hlast : ':' ∉ closing back m [] := hclose ▸ hcolon
          rw [texts, fromKey_last, behindColon_skip hlast]
          rfl
      | cons m' ms =>
          rw [texts_cons back ms (hms m' List.mem_cons_self).1, fromKey_self, Option.bind_some]
    · rw [if_neg (not_or.mpr ⟨heq, hclose⟩), fromKey_skip hclose, scan]

theorem behindColon_closing (hback : back.all isSpace = true) (hm : m.Spaced)
    (hms : ∀ m ∈ ms, m.Spaced) :
    behindColon (closing back m ms :: texts back ms) =
      ms.next?.bind fun p ↦ behindColon (texts back (p.1 :: p.2)) := by
  have hclose : ':' ∉ closing back m ms :=
    notMem_closing back ms (by decide) (by decide) (by decide) hback hm hms
  rw [behindColon_skip hclose]
  cases ms <;> rfl

theorem fromKey_texts (hkey : '"' ∉ m.key) :
    fromKey m.key (texts back (m :: ms)) = some (texts back (m :: ms)) := by
  obtain ⟨s, ss, hvalue⟩ := List.exists_cons_of_ne_nil (valueTexts_ne_nil back ms m)
  rw [texts_cons back ms hkey, hvalue]
  exact fromKey_self m.key s _

/-- A scan for a key without a colon goes on from the member it arrives at. -/
theorem scan_texts (hcolon : ':' ∉ key) (hback : back.all isSpace = true)
    (hms : ∀ m ∈ ms, m.Spaced)
    (hplain : ∀ m ∈ ms, Verbatim m.key ∧ ∀ t, m.value = .string t → Verbatim t) :
    scan key (texts back ms) =
      (site back key ms).bind fun p ↦ behindColon (texts back (p.1 :: p.2)) := by
  induction ms with
  | nil => rfl
  | cons m ms ih =>
      obtain ⟨hkey, hstring⟩ := hplain m List.mem_cons_self
      have hspaced : ∀ m' ∈ ms, m'.Spaced := fun m' hm' ↦ hms m' (List.mem_cons_of_mem m hm')
      have hrest := ih hspaced fun m' hm' ↦ hplain m' (List.mem_cons_of_mem m hm')
      by_cases heq : m.key = key
      · subst heq
        rw [scan, fromKey_texts back ms hkey.1, site_self]
        rfl
      · have hskip : scan key (texts back (m :: ms)) =
            scan key (valueTexts back m ms ++ texts back ms) := by
          rw [scan, texts_cons back ms hkey.1, fromKey_skip heq, scan]
        rw [hskip]
        by_cases hv : ∃ t, m.value = .string t
        · obtain ⟨t, ht⟩ := hv
          have hkeys : ∀ m' ∈ ms, Verbatim m'.key := fun m' hm' ↦
            (hplain m' (List.mem_cons_of_mem m hm')).1
          rw [scan_string back hcolon ht (hstring t ht).1 hkeys, site, if_neg heq, ht]
          simp only
          split_ifs
          · exact behindColon_closing back ms hback (hms m List.mem_cons_self) hspaced
          · exact hrest
        · have hbare : ∀ t, m.value ≠ .string t := fun t h ↦ hv ⟨t, h⟩
          rw [scan_bare back ms hcolon hbare, site_bare back ms heq hbare, hrest]

end Site

section Found

variable {back key : Text} {m : Member} {ms : List Member}

variable (back) in
theorem exists_fromKey_texts (hmem : m ∈ ms) (hkey : '"' ∉ m.key) :
    ∃ found, fromKey m.key (texts back ms) = some found := by
  obtain ⟨pre, post, rfl⟩ := List.append_of_mem hmem
  clear hmem
  induction pre with
  | nil => exact ⟨_, fromKey_texts back post hkey⟩
  | cons m' pre ih =>
      rw [List.cons_append, texts, ← List.append_assoc]
      exact exists_fromKey_append _ ih

variable (back) in
/-- A key that the object has is found. -/
theorem exists_site (hmem : m ∈ ms) : ∃ p, site back m.key ms = some p := by
  induction ms with
  | nil => cases hmem
  | cons m₀ ms ih =>
      rw [site]
      split_ifs with hkey
      · exact ⟨_, rfl⟩
      · have hrest : m ∈ ms := (List.mem_cons.mp hmem).resolve_left fun h ↦ hkey (h ▸ rfl)
        obtain ⟨m₁, ms', rfl⟩ := List.exists_cons_of_ne_nil (List.ne_nil_of_mem hrest)
        split
        · split_ifs
          · exact ⟨_, rfl⟩
          · exact ih hrest
        · exact ih hrest

theorem mem_of_site {p : Member × List Member} (h : site back key ms = some p) :
    p.1 ∈ ms ∧ ∀ m ∈ p.2, m ∈ ms := by
  induction ms with
  | nil => cases h
  | cons m ms ih =>
      have hlater : (p.1 ∈ ms ∧ ∀ m ∈ p.2, m ∈ ms) →
          p.1 ∈ m :: ms ∧ ∀ m' ∈ p.2, m' ∈ m :: ms := fun h ↦
        ⟨List.mem_cons_of_mem m h.1, fun m' hm' ↦ List.mem_cons_of_mem m (h.2 m' hm')⟩
      rw [site] at h
      split_ifs at h with hkey
      · obtain rfl := Option.some.inj h
        exact ⟨List.mem_cons_self, fun m' hm' ↦ List.mem_cons_of_mem m hm'⟩
      · split at h
        · split_ifs at h
          · cases ms with
            | nil => cases h
            | cons m₁ ms =>
                obtain rfl := Option.some.inj h
                exact hlater ⟨List.mem_cons_self, fun m' hm' ↦ List.mem_cons_of_mem m₁ hm'⟩
          · exact hlater (ih h)
        · exact hlater (ih h)

end Found

end FrogQuant.Json
