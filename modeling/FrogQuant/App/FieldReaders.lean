import FrogQuant.App.JsonNumber
import FrogQuant.Lib.WrittenJson

/-!
# One field for another

The readers look for a key in quotes, then for a colon, then for a value, and do
not check that the three belong together.
-/

namespace FrogQuant.App

open Json

/-! ## What the readers read -/

/-- What stands behind the colon that a key leads to. -/
def afterKey (body key : Text) : Option Text :=
  (colonPos body key).map fun p ↦ body.drop (p + 1)

/-- The literal that a text starts with, blanks before it left out. -/
def literalAt (t : Text) : Option Bool :=
  if (t.dropWhile isBlank).take 4 = "true".toList then some true
  else if (t.dropWhile isBlank).take 5 = "false".toList then some false
  else none

def upToQuote (t : Text) : Option Text := (Text.indexOf ['"'] t).map fun n ↦ t.take n

/-- The first string in a text. -/
def stringIn (t : Text) : Option Text :=
  (Text.indexOf ['"'] t).bind fun n ↦ upToQuote (t.drop (n + 1))

section Readers

variable (body key : Text)

theorem jsonGetNumber_eq :
    jsonGetNumber body key = (afterKey body key).bind fun t ↦ Strtod.stod (numeralAt t) := by
  cases hcolon : colonPos body key with
  | none => simp [jsonGetNumber, valuePos, afterKey, hcolon]
  | some p =>
      simp only [jsonGetNumber, valuePos, afterKey, hcolon, Option.bind_eq_bind, Option.bind_some,
        Option.map_some, pure, Text.substr_spanLength, Text.drop_spanLength]
      split_ifs with hzero
      · have hnil : numeralAt (body.drop (p + 1)) = [] := by
          rw [← List.length_eq_zero_iff, ← hzero, Text.spanLength, Text.drop_spanLength]
          rfl
        rw [hnil]
        rfl
      · rfl

theorem jsonGetBool_eq : jsonGetBool body key = (afterKey body key).bind literalAt := by
  cases hcolon : colonPos body key with
  | none => simp [jsonGetBool, valuePos, afterKey, hcolon]
  | some p =>
      simp only [jsonGetBool, valuePos, afterKey, hcolon, Option.bind_eq_bind, Option.bind_some,
        Option.map_some, pure, Text.substr, Text.drop_spanLength, literalAt]

theorem drop_colonPos {p : ℕ} (h : colonPos body key = some p) :
    body.drop p = ':' :: body.drop (p + 1) := by
  obtain ⟨start, -, hfind⟩ := Option.bind_eq_some_iff.mp h
  have hmap := Text.map_drop_find (by decide : [':'] ≠ []) body start
  rw [hfind, Option.map_some] at hmap
  obtain ⟨n, hn, hdrop⟩ := Option.map_eq_some_iff.mp hmap.symm
  obtain ⟨rest, hrest⟩ := Text.prefix_drop_of_indexOf hn
  have hsplit : body.drop p = ':' :: rest := hdrop.symm.trans hrest.symm
  rw [← List.drop_drop, hsplit]
  rfl

theorem jsonGetString_eq : jsonGetString body key = (afterKey body key).bind stringIn := by
  cases hcolon : colonPos body key with
  | none => simp [jsonGetString, afterKey, hcolon]
  | some p =>
      have hclose : ∀ q, ((body.find ['"'] q).bind fun e ↦ some (body.substr q (e - q))) =
          upToQuote (body.drop q) := by
        intro q
        rw [upToQuote, ← Text.map_substr_find (by decide)]
        cases body.find ['"'] q <;> rfl
      have hopen := Text.map_drop_find (by decide : ['"'] ≠ []) body p
      have hskip : Text.indexOf ['"'] (':' :: body.drop (p + 1)) = _ :=
        Text.indexOf_cons_skip (by simp)
      rw [drop_colonPos body key hcolon, hskip, Option.map_map] at hopen
      have hnext := congrArg (Option.bind · fun t ↦ upToQuote (t.drop 1)) hopen
      simp only [Option.bind_map, Function.comp_def, List.drop_drop, List.drop_succ_cons] at hnext
      simp only [jsonGetString, afterKey, hcolon, Option.bind_eq_bind, Option.bind_some,
        Option.map_some, pure, hclose, stringIn, hnext, List.drop_drop]
      rfl

end Readers

/-! ## The readers between quotes -/

theorem prefix_append_quote_iff {w : Text} (hw : '"' ∉ w) (t rest : Text) :
    w <+: t ++ '"' :: rest ↔ w <+: t := by
  refine ⟨fun h ↦ ?_, fun h ↦ h.trans (List.prefix_append t _)⟩
  rcases Nat.le_total w.length t.length with hle | hle
  · exact List.prefix_of_prefix_length_le h (List.prefix_append t _) hle
  · obtain ⟨v, rfl⟩ := List.prefix_of_prefix_length_le (List.prefix_append t _) h hle
    have hv : v <+: '"' :: rest := (List.prefix_append_right_inj t).mp h
    cases v with
    | nil => simp
    | cons c v =>
        obtain rfl : c = '"' := (List.cons_prefix_cons.mp hv).1
        exact absurd (List.mem_append_right t List.mem_cons_self) hw

theorem take_append_quote_iff {w : Text} (hw : '"' ∉ w) (t rest : Text) :
    (t ++ '"' :: rest).take w.length = w ↔ t.take w.length = w := by
  have h := prefix_append_quote_iff hw t rest
  rwa [List.prefix_iff_eq_take, List.prefix_iff_eq_take, eq_comm, eq_comm (a := w)] at h

theorem literalAt_append_quote (t rest : Text) : literalAt (t ++ '"' :: rest) = literalAt t := by
  have htrue := take_append_quote_iff (w := "true".toList) (by decide) (t.dropWhile isBlank) rest
  have hfalse := take_append_quote_iff (w := "false".toList) (by decide) (t.dropWhile isBlank) rest
  rw [literalAt, Text.dropWhile_append_stop (by decide)]
  exact if_congr htrue rfl (if_congr hfalse rfl rfl)

theorem stringIn_quotes {bare : Text} (hbare : '"' ∉ bare) {ss : List Text}
    (hss : ∀ s ∈ ss, '"' ∉ s) : stringIn (bare ++ quotes ss) = closed ss := by
  cases ss with
  | nil => rw [stringIn, quotes_nil, List.append_nil, Text.indexOf_of_notMem _ hbare]; rfl
  | cons s ss =>
      have hs : '"' ∉ s := hss s List.mem_cons_self
      have hdrop : (bare ++ '"' :: (s ++ quotes ss)).drop (bare.length + 1) = s ++ quotes ss :=
        List.drop_length_add_append 1
      rw [stringIn, quotes_cons, Text.indexOf_singleton _ hbare, Option.bind_some, hdrop, upToQuote]
      cases ss with
      | nil => rw [quotes_nil, List.append_nil, Text.indexOf_of_notMem _ hs]; rfl
      | cons u ss =>
          rw [quotes_cons, Text.indexOf_singleton _ hs, Option.map_some, List.take_left]
          rfl

section Quotes

variable {key front : Text} {ss : List Text}

theorem afterKey_quotes (hkey : '"' ∉ key) (hfront : '"' ∉ front) (hss : ∀ s ∈ ss, '"' ∉ s) :
    afterKey (front ++ quotes ss) key = (scan key ss).map fun p ↦ p.1 ++ quotes p.2 := by
  have hquoted := Text.map_drop_find (by simp [quoted] : quoted key ≠ []) (front ++ quotes ss) 0
  have hpass : Text.indexOf (quoted key) (front ++ quotes ss) = _ :=
    Text.indexOf_append_of_notMem (quotes ss) hfront
  have hfound : ((front ++ quotes ss).find (quoted key) 0).map
      (fun n ↦ (front ++ quotes ss).drop n) = (fromKey key ss).map quotes := by
    rw [hquoted, List.drop_zero, hpass, Option.map_map, ← indexOf_quotes hkey hss]
    congr 1
    funext n
    rw [Function.comp_apply, Nat.add_comm]
    exact List.drop_length_add_append n
  have hcolon : ∀ p, ((front ++ quotes ss).find [':'] p).map
      (fun n ↦ (front ++ quotes ss).drop (n + 1)) =
        (Text.indexOf [':'] ((front ++ quotes ss).drop p)).map
          fun n ↦ ((front ++ quotes ss).drop p).drop (n + 1) := by
    intro p
    have hmap := Text.map_drop_find (by decide : [':'] ≠ []) (front ++ quotes ss) p
    have hnext := congrArg (Option.map (List.drop 1)) hmap
    simpa only [Option.map_map, Function.comp_def, List.drop_drop, Nat.add_assoc] using hnext
  have hread := congrArg (Option.bind · fun t ↦ (Text.indexOf [':'] t).map fun n ↦ t.drop (n + 1))
    hfound
  simp only [Option.bind_map, Function.comp_def, indexOf_colon, ← hcolon] at hread
  rw [afterKey, colonPos, scan, Option.map_bind, Option.bind_eq_bind, Option.map_bind]
  exact hread

end Quotes

/-! ## The readers on a flat object -/

/-- What a scan arrives at: the bare text behind the colon, and the text in
quotes behind it. -/
def reading (o : WrittenObject) (key : Text) : Option (Text × Option Text) :=
  (scan key (texts o.behind o.members)).map fun p ↦ (p.1, closed p.2)

section Object

variable (o : WrittenObject) {key : Text}

theorem bind_afterKey_text {α : Type} (hkey : '"' ∉ key) {f : Text → Option α}
    {g : Text × Option Text → Option α}
    (h : ∀ p : Text × List Text, '"' ∉ p.1 → (∀ s ∈ p.2, '"' ∉ s) →
      f (p.1 ++ quotes p.2) = g (p.1, closed p.2)) :
    (afterKey o.text key).bind f = (reading o key).bind g := by
  obtain ⟨front, hfront, htext⟩ := o.text_eq_quotes
  rw [htext, afterKey_quotes hkey hfront o.quote_notMem_texts, reading]
  cases hscan : scan key (texts o.behind o.members) with
  | none => rfl
  | some p =>
      obtain ⟨hbare, hrest⟩ := quote_notMem_of_scan o.quote_notMem_texts hscan
      exact h p hbare hrest

theorem jsonGetString_text (hkey : '"' ∉ key) :
    jsonGetString o.text key = (reading o key).bind Prod.snd := by
  rw [jsonGetString_eq]
  apply bind_afterKey_text o hkey
  intro p hbare hrest
  exact stringIn_quotes hbare hrest

theorem jsonGetBool_text (hkey : '"' ∉ key) :
    jsonGetBool o.text key = (reading o key).bind fun p ↦ literalAt p.1 := by
  rw [jsonGetBool_eq]
  apply bind_afterKey_text o hkey
  rintro ⟨bare, ss⟩ - -
  cases ss with
  | nil => rw [quotes_nil, List.append_nil]
  | cons s ss => exact literalAt_append_quote bare _

theorem jsonGetNumber_reading (hkey : '"' ∉ key) :
    jsonGetNumber o.text key = (reading o key).bind fun p ↦ Strtod.stod (numeralAt p.1) := by
  rw [jsonGetNumber_eq]
  apply bind_afterKey_text o hkey
  rintro ⟨bare, ss⟩ - -
  cases ss with
  | nil => rw [quotes_nil, List.append_nil]
  | cons s ss => exact congrArg Strtod.stod (numeralAt_append_quote bare _)

/-- For a key without a colon, where the scan arrives is told by a member. -/
theorem reading_of_site (ho : o.Plain) (hcolon : ':' ∉ key) :
    reading o key = (site o.behind key o.members).map fun p ↦
      (bareText o.behind p.1 p.2, nextText o.behind p.1 p.2) := by
  rw [reading, scan_texts o.behind o.members hcolon o.behind_isSpace o.spaced ho]
  cases hsite : site o.behind key o.members with
  | none => rfl
  | some p =>
      obtain ⟨hmem, hrest⟩ := mem_of_site hsite
      obtain ⟨hkey, hstring⟩ := ho p.1 hmem
      exact behindColon_texts o.behind (o.spaced p.1 hmem) hkey hstring
        fun m hm ↦ (ho m (hrest m hm)).1

/-- A key with a colon in it is read from that colon on. -/
theorem reading_of_colon (hcolon : ':' ∈ key) :
    reading o key = (fromKey key (texts o.behind o.members)).map fun found ↦
      ((Text.cut ':' key).2, closed found.tail) := by
  rw [reading, scan]
  cases hfound : fromKey key (texts o.behind o.members) with
  | none => rfl
  | some found =>
      obtain ⟨rest, rfl⟩ := fromKey_eq_cons hfound
      rw [Option.bind_some, behindColon_stop hcolon]
      rfl

theorem exists_reading (ho : o.Plain) {v : FlatValue} (hbinds : o.Binds key v) :
    ∃ p, reading o key = some p := by
  obtain ⟨m, hmem, rfl, -⟩ := hbinds
  by_cases hcolon : ':' ∈ m.key
  · obtain ⟨found, hfound⟩ := exists_fromKey_texts o.behind hmem (ho m hmem).1.1
    rw [reading_of_colon o hcolon, hfound]
    exact ⟨_, rfl⟩
  · obtain ⟨p, hp⟩ := exists_site o.behind hmem
    rw [reading_of_site o ho hcolon, hp]
    exact ⟨_, rfl⟩

end Object

/-! ## Which field answers -/

/-- The readers answer for a key with what it is bound to. -/
structure Answers (o : WrittenObject) (key : Text) : Prop where
  string : ∀ t, jsonGetString o.text key = some t ↔ o.Binds key (.string t)
  bool : ∀ b, jsonGetBool o.text key = some b ↔ o.Binds key (.bool b)
  number : jsonGetNumber o.text key ≠ none → ∃ n, o.Binds key (.number n)

/-- What a scan arrives at fits what the key is bound to. -/
structure Fits (o : WrittenObject) (key bare : Text) (next : Option Text) : Prop where
  string : ∀ t, next = some t ↔ o.Binds key (.string t)
  bool : ∀ b, literalAt bare = some b ↔ o.Binds key (.bool b)
  number : Strtod.stod (numeralAt bare) ≠ none → ∃ n, o.Binds key (.number n)

/-- A member that is read right once the scan has arrived at it: a string, or
the last member, with blanks only in front of a boolean. -/
def ReadRight (m : Member) (ms : List Member) : Prop :=
  (∃ t, m.value = .string t) ∨
    ms = [] ∧ ((∃ b, m.value = .bool b) → m.afterColon.all isBlank = true)

/-- The scan for the key arrives at its own member, which is read right; or
else what it arrives at happens to fit. -/
def Unmistaken (o : WrittenObject) (key : Text) : Prop :=
  if ':' ∈ key then
    ∀ found, fromKey key (texts o.behind o.members) = some found →
      Fits o key (Text.cut ':' key).2 (closed found.tail)
  else
    ∀ m ms, site o.behind key o.members = some (m, ms) →
      if m.key = key then ReadRight m ms
      else Fits o key (bareText o.behind m ms) (nextText o.behind m ms)

section Space

variable {ws : Text} (rest : Text)

theorem ne_of_isSpace {c d : Char} (hc : isSpace c = true) (hd : isSpace d = false) : c ≠ d := by
  rintro rfl
  rw [hc] at hd
  cases hd

theorem isPlain_of_isSpace {c : Char} (hc : isSpace c = true) : Strtod.isPlain c = false := by
  simp only [isSpace, Bool.or_eq_true, decide_eq_true_eq] at hc
  rcases hc with ((rfl | rfl) | rfl) | rfl <;> decide

/-- A reader that passes over blanks and stops at other white space. -/
theorem reader_space {β : Type} {read : Text → β} {stop : β}
    (hpass : ∀ c t, isBlank c = true → read (c :: t) = read t)
    (hstop : ∀ c t, isSpace c = true → isBlank c = false → read (c :: t) = stop)
    (hws : ws.all isSpace = true) :
    read (ws ++ rest) = if ws.all isBlank then read rest else stop := by
  induction ws with
  | nil => rfl
  | cons c ws ih =>
      rw [List.all_cons, Bool.and_eq_true] at hws
      obtain ⟨hc, hws⟩ := hws
      rw [List.cons_append, List.all_cons]
      cases hblank : isBlank c with
      | true => rw [hpass c _ hblank, ih hws, Bool.true_and]
      | false =>
          rw [hstop c _ hc hblank, Bool.false_and]
          rfl

theorem literalAt_space (hws : ws.all isSpace = true) :
    literalAt (ws ++ rest) = if ws.all isBlank then literalAt rest else none := by
  refine reader_space rest ?_ ?_ hws
  · intro c t hblank
    rw [literalAt, literalAt, List.dropWhile_cons_of_pos hblank]
  · intro c t hc hblank
    have htrue : c ≠ 't' := ne_of_isSpace hc (by decide)
    have hfalse : c ≠ 'f' := ne_of_isSpace hc (by decide)
    rw [literalAt, List.dropWhile_cons_of_neg (by simp [hblank])]
    simp [htrue, hfalse]

theorem numeralAt_space (hws : ws.all isSpace = true) :
    numeralAt (ws ++ rest) = if ws.all isBlank then numeralAt rest else [] := by
  refine reader_space rest ?_ ?_ hws
  · intro c t hblank
    rw [numeralAt, numeralAt, List.dropWhile_cons_of_pos hblank]
  · intro c t hc hblank
    rw [numeralAt, List.dropWhile_cons_of_neg (by simp [hblank]),
      List.takeWhile_cons_of_neg (by simp [isPlain_of_isSpace hc])]

end Space

section Fits

variable {o : WrittenObject} {key : Text}

theorem unmistaken_of_own {m : Member} {ms : List Member} (hcolon : ':' ∉ m.key)
    (hsite : site o.behind m.key o.members = some (m, ms)) (h : ReadRight m ms) :
    Unmistaken o m.key := by
  rw [Unmistaken, if_neg hcolon]
  intro m' ms' hsite'
  obtain ⟨rfl, rfl⟩ := Prod.mk.inj (Option.some.inj (hsite.symm.trans hsite'))
  rw [if_pos rfl]
  exact h

theorem binds_iff {m : Member} (hmem : m ∈ o.members) (v : FlatValue) :
    o.Binds m.key v ↔ m.value = v := by
  constructor
  · rintro ⟨m', hmem', hkey, rfl⟩
    rw [List.inj_on_of_nodup_map o.keys_nodup hmem hmem' (congrArg meaning hkey.symm)]
  · exact fun h ↦ ⟨m, hmem, rfl, h⟩

theorem literalAt_number (n : Number) (rest : Text) : literalAt (n.text ++ rest) = none := by
  obtain ⟨c, cs, hcs⟩ := List.exists_cons_of_ne_nil (mantissaText_ne_nil n)
  have hplain : Strtod.isPlain c = true := isPlain_of_mem_mantissaText n c (by simp [hcs])
  have hsplit : n.text ++ rest = c :: (cs ++ (n.exponentText ++ rest)) := by
    simp [Number.text, hcs]
  have htrue : c ≠ 't' := by
    rintro rfl
    exact absurd hplain (by decide)
  have hfalse : c ≠ 'f' := by
    rintro rfl
    exact absurd hplain (by decide)
  rw [hsplit, literalAt, List.dropWhile_cons_of_neg (by simp [isBlank_of_isPlain hplain])]
  simp [htrue, hfalse]

theorem literalAt_bool (b : Bool) (rest : Text) :
    literalAt ((FlatValue.bool b).text ++ rest) = some b := by
  cases b <;> rfl

theorem literalAt_null (rest : Text) : literalAt (FlatValue.null.text ++ rest) = none := rfl

/-- No numeral is read at a boolean or at null. -/
theorem exists_number_of_numeralAt {v : FlatValue} (hv : ∀ t, v ≠ .string t) {rest : Text}
    (h : numeralAt (v.text ++ rest) ≠ []) : ∃ n, v = .number n := by
  cases v with
  | string t => exact absurd rfl (hv t)
  | number n => exact ⟨n, rfl⟩
  | bool b => cases b <;> exact absurd rfl h
  | null => exact absurd rfl h

section Own

variable {m : Member} {ms : List Member} (hcolon : ':' ∉ m.key) (hmem : m ∈ o.members)
include hcolon hmem

theorem fits_own_string {t : Text} (ht : m.value = .string t) :
    Fits o m.key (bareText o.behind m ms) (nextText o.behind m ms) := by
  have hspace := (o.spaced m hmem).afterColon
  have hliteral : literalAt m.afterColon = none := by
    have h := literalAt_space [] hspace
    rw [List.append_nil] at h
    rw [h]
    exact ite_self none
  have hnumeral : numeralAt m.afterColon = [] := by
    have h := numeralAt_space [] hspace
    rw [List.append_nil] at h
    rw [h]
    exact ite_self []
  have hbound := fun v ↦ binds_iff hmem v
  simp only [bareText, nextText, if_neg hcolon, ht]
  exact ⟨by simp [hbound, ht], by simp [hbound, ht, hliteral],
    fun h ↦ absurd (by rw [hnumeral]; rfl) h⟩

/-- A bare value that another member follows is taken for the key of that
member. -/
theorem fits_own_bare_iff (hbare : ∀ t, m.value ≠ .string t) :
    Fits o m.key (bareText o.behind m ms) (nextText o.behind m ms) ↔
      ms = [] ∧ ((∃ b, m.value = .bool b) → m.afterColon.all isBlank = true) := by
  have hbound := fun v ↦ binds_iff hmem v
  have hspace := (o.spaced m hmem).afterColon
  rw [bareText_bare o.behind ms hcolon hbare, nextText_bare o.behind ms hcolon hbare]
  constructor
  · rintro ⟨hstring, hbool, -⟩
    cases ms with
    | cons m' ms => exact absurd ((hbound _).mp ((hstring m'.key).mp rfl)) (hbare m'.key)
    | nil =>
        refine ⟨rfl, ?_⟩
        rintro ⟨b, hb⟩
        have hread := (hbool b).mpr ((hbound _).mpr hb)
        rw [literalAt_space _ hspace] at hread
        by_contra hblank
        rw [if_neg hblank] at hread
        cases hread
  · rintro ⟨rfl, hblank⟩
    refine ⟨fun t ↦ by simp [hbound, hbare], fun b ↦ ?_, fun hnumber ↦ ?_⟩
    · rw [hbound, literalAt_space _ hspace]
      cases hvalue : m.value with
      | string t => exact absurd hvalue (hbare t)
      | number n => simp [FlatValue.text, literalAt_number]
      | bool b => simp [literalAt_bool, hblank ⟨b, hvalue⟩]
      | null => simp [literalAt_null]
    · have hnumeral : numeralAt (m.value.text ++ closing o.behind m []) ≠ [] := by
        intro hnil
        rw [numeralAt_space _ hspace, hnil, ite_self] at hnumber
        exact hnumber rfl
      obtain ⟨n, hn⟩ := exists_number_of_numeralAt hbare hnumeral
      exact ⟨n, (hbound _).mpr hn⟩

theorem fits_own_iff :
    Fits o m.key (bareText o.behind m ms) (nextText o.behind m ms) ↔ ReadRight m ms := by
  by_cases hv : ∃ t, m.value = .string t
  · obtain ⟨t, ht⟩ := hv
    exact iff_of_true (fits_own_string hcolon hmem ht) (Or.inl ⟨t, ht⟩)
  · have hbare : ∀ t, m.value ≠ .string t := fun t h ↦ hv ⟨t, h⟩
    rw [ReadRight, or_iff_right hv]
    exact fits_own_bare_iff hcolon hmem hbare

end Own

theorem answers_iff_fits (hkey : '"' ∉ key) {p : Text × Option Text}
    (h : reading o key = some p) : Answers o key ↔ Fits o key p.1 p.2 := by
  have hs := jsonGetString_text o hkey
  have hb := jsonGetBool_text o hkey
  have hn := jsonGetNumber_reading o hkey
  rw [h, Option.bind_some] at hs hb hn
  constructor
  · rintro ⟨hstring, hbool, hnumber⟩
    exact ⟨hs ▸ hstring, hb ▸ hbool, hn ▸ hnumber⟩
  · rintro ⟨hstring, hbool, hnumber⟩
    exact ⟨hs ▸ hstring, hb ▸ hbool, hn ▸ hnumber⟩

/-- A key that no scan finds is not bound, and nothing is read. -/
theorem answers_of_reading_none (ho : o.Plain) (hkey : '"' ∉ key) (h : reading o key = none) :
    Answers o key := by
  have hs := jsonGetString_text o hkey
  have hb := jsonGetBool_text o hkey
  have hn := jsonGetNumber_reading o hkey
  rw [h, Option.bind_none] at hs hb hn
  have hbinds : ∀ v, ¬ o.Binds key v := fun v hv ↦ by
    obtain ⟨p, hp⟩ := exists_reading o ho hv
    rw [h] at hp
    cases hp
  exact ⟨by simp [hs, hbinds], by simp [hb, hbinds], fun hread ↦ absurd hn hread⟩

end Fits

/-- The readers of strings, booleans and numbers answer for a key with what it
is bound to exactly when the scan for it is not mistaken. -/
theorem one_field_answers_iff (o : WrittenObject) (ho : o.Plain) {key : Text} (hkey : '"' ∉ key) :
    Answers o key ↔ Unmistaken o key := by
  rw [Unmistaken]
  split_ifs with hcolon
  · have hread := reading_of_colon o hcolon
    cases hfound : fromKey key (texts o.behind o.members) with
    | none =>
        rw [hfound] at hread
        exact iff_of_true (answers_of_reading_none ho hkey hread) fun found h ↦ by cases h
    | some found =>
        rw [hfound] at hread
        rw [answers_iff_fits hkey hread]
        exact ⟨fun h found' h' ↦ Option.some.inj h' ▸ h, fun h ↦ h found rfl⟩
  · have hread := reading_of_site o ho hcolon
    cases hsite : site o.behind key o.members with
    | none =>
        rw [hsite] at hread
        exact iff_of_true (answers_of_reading_none ho hkey hread) fun m ms h ↦ by cases h
    | some p =>
        obtain ⟨m, ms⟩ := p
        rw [hsite] at hread
        rw [answers_iff_fits hkey hread]
        have hcase : Fits o key (bareText o.behind m ms) (nextText o.behind m ms) ↔
            if m.key = key then ReadRight m ms
            else Fits o key (bareText o.behind m ms) (nextText o.behind m ms) := by
          split_ifs with hk
          · subst hk
            exact fits_own_iff hcolon (mem_of_site hsite).1
          · rfl
        refine hcase.trans ⟨fun h m' ms' h' ↦ ?_, fun h ↦ h m ms rfl⟩
        obtain ⟨rfl, rfl⟩ := Prod.mk.inj (Option.some.inj h')
        exact h

/-- `{"api_key":null,"secret_key":"s"}`. -/
def nullApiKey : WrittenObject :=
  .compact [("api_key", .null), ("secret_key", .string "s")] (by decide +kernel) (by decide)
    (by decide +kernel)

theorem nullApiKey_plain : nullApiKey.Plain := by
  intro m hm
  obtain ⟨p, hp, rfl⟩ := List.mem_map.mp hm
  simp only [List.mem_cons, List.not_mem_nil, or_false] at hp
  rcases hp with rfl | rfl
  · exact ⟨⟨by decide, by decide⟩, fun t ht ↦ by cases ht⟩
  · refine ⟨⟨by decide, by decide⟩, fun t ht ↦ ?_⟩
    obtain rfl := FlatValue.string.inj ht
    exact ⟨by decide, by decide⟩

theorem nullApiKey_answers_secret_key : Answers nullApiKey "secret_key" := by
  let m : Member := ⟨"secret_key", .string "s", [], [], [], []⟩
  have hsite : site nullApiKey.behind m.key nullApiKey.members = some (m, []) :=
    (site_bare _ _ (by decide) fun t h ↦ by cases h).trans (site_self _ _ m)
  have hcolon : ':' ∉ m.key := by decide
  apply (one_field_answers_iff nullApiKey nullApiKey_plain (by decide)).mpr
  exact unmistaken_of_own hcolon hsite (Or.inl ⟨"s", rfl⟩)

/-- A key that is bound to null is answered with the key after it. -/
theorem null_answered_with_next_key :
    ¬ ∀ (o : WrittenObject) (key : Text), o.Plain → Verbatim key → Answers o key := by
  intro h
  have hanswers := h nullApiKey "api_key" nullApiKey_plain ⟨by decide, by decide⟩
  have hread : jsonGetString nullApiKey.text "api_key" = some "secret_key".toList := by decide
  have hmem : (⟨"api_key", .null, [], [], [], []⟩ : Member) ∈ nullApiKey.members :=
    List.mem_cons_self
  cases (binds_iff hmem _).mp ((hanswers.string "secret_key").mp hread)

end FrogQuant.App
