import FrogQuant.App.AppSupport

/-!
# Numbers from client to server

The client sends flat compact objects.  The number reader finds the right
member, but it scans digits, points and minus signs only, so that it stops in
front of an exponent.
-/

namespace FrogQuant.App

open Json

/-! ## What the reader scans -/

theorem mantissaText_ne_nil (n : Number) : n.mantissaText ≠ [] := by
  obtain ⟨c, cs, hcs⟩ := List.exists_cons_of_ne_nil n.intPart_ne_nil
  simp [Number.mantissaText, Strtod.plainText, hcs]

theorem isPlain_of_mem_mantissaText (n : Number) :
    ∀ c ∈ n.mantissaText, Strtod.isPlain c = true :=
  Strtod.isPlain_of_mem_plainText n.neg n.isDigit_of_mem_int n.isDigit_of_mem_frac

theorem isBlank_of_isPlain {c : Char} (h : Strtod.isPlain c = true) : isBlank c = false := by
  rw [Bool.eq_false_iff]
  intro hblank
  simp only [isBlank, Bool.or_eq_true, decide_eq_true_eq] at hblank
  rcases hblank with rfl | rfl <;> exact absurd h (by decide)

theorem not_isPlain_after (n : Number) (post : List (Text × FlatValue)) :
    ∀ c ∈ (n.exponentText ++ (behind post ++ ['\x7d'])).head?, Strtod.isPlain c = false := by
  intro c hc
  rw [Number.exponentText] at hc
  cases hexp : n.exponent? with
  | some e =>
      rw [hexp] at hc
      obtain rfl : e.marker = c := by simpa using hc
      rcases e.marker_eq with h | h <;> rw [h] <;> decide
  | none =>
      rw [hexp] at hc
      cases post with
      | nil =>
          obtain rfl : '\x7d' = c := by simpa [behind] using hc
          decide
      | cons m post =>
          obtain rfl : ',' = c := by simpa [behind] using hc
          decide

theorem numeralAt_append_quote (t rest : Text) : numeralAt (t ++ '"' :: rest) = numeralAt t := by
  rw [numeralAt, Text.dropWhile_append_stop (by decide), Text.takeWhile_append_stop (by decide),
    numeralAt]

def valueNumeral : FlatValue → Text
  | .number n => n.mantissaText
  | _ => []

theorem numeralAt_value (v : FlatValue) (post : List (Text × FlatValue)) :
    numeralAt (v.text ++ (behind post ++ ['\x7d'])) = valueNumeral v := by
  cases v with
  | string t => rfl
  | bool b => cases b <;> rfl
  | null => rfl
  | number n =>
      obtain ⟨c, cs, hcs⟩ := List.exists_cons_of_ne_nil (mantissaText_ne_nil n)
      have hblank : isBlank c = false :=
        isBlank_of_isPlain (isPlain_of_mem_mantissaText n c (by simp [hcs]))
      have hstart : (n.text ++ (behind post ++ ['\x7d'])).dropWhile isBlank =
          n.mantissaText ++ (n.exponentText ++ (behind post ++ ['\x7d'])) := by
        simp [Number.text, hcs, hblank]
      have hstop : (n.exponentText ++ (behind post ++ ['\x7d'])).takeWhile Strtod.isPlain = [] := by
        have hhead := not_isPlain_after n post
        cases hrest : n.exponentText ++ (behind post ++ ['\x7d']) with
        | nil => rfl
        | cons d ds => simp [hhead d (by simp [hrest])]
      rw [numeralAt, FlatValue.text, hstart,
        List.takeWhile_append_of_pos (isPlain_of_mem_mantissaText n), hstop, List.append_nil,
        valueNumeral]

/-! ## Where the reader starts -/

def afterColon (key : Text) : Text := (key.dropWhile (· ≠ ':')).tail

theorem afterColon_append {pre : Text} (post : Text) (h : ':' ∉ pre) :
    afterColon (pre ++ ':' :: post) = post := by
  have hpre : ∀ c ∈ pre, decide (c ≠ ':') = true := by
    intro c hc
    simpa using fun heq : c = ':' ↦ h (heq ▸ hc)
  rw [afterColon, List.dropWhile_append_of_pos hpre]
  rfl

/-- The numeral that the reader takes from a member it lands on: it starts at
the first colon, be it one in the key. -/
def memberNumeral (m : Text × FlatValue) : Text :=
  if ':' ∈ m.1 then numeralAt (afterColon m.1) else valueNumeral m.2

section Reader

variable [NumberFormat] {body key : Text} {m : Text × FlatValue}

theorem jsonGetNumber_of_landsAt (h : LandsAt key body m ['\x7d']) :
    jsonGetNumber body key = Strtod.stod (memberNumeral m) := by
  obtain ⟨n, front, post, hn, hfront, hdrop⟩ := h
  have hfind : body.find (quoted key) 0 = some n := (Text.find_zero _ _).trans hn
  rw [memberNumeral]
  split_ifs with hcolon
  · obtain ⟨pre, after, hkey, hpre⟩ := List.eq_append_cons_of_mem hcolon
    have hsplit : body.drop n = (front ++ pre) ++
        ':' :: (after ++ '"' :: ':' :: (m.2.text ++ (behind post ++ ['\x7d']))) := by
      simp [hdrop, memberRest, hkey]
    rw [jsonGetNumber_of_find hfind (by simp [hfront, hpre]) hsplit, numeralAt_append_quote, hkey,
      afterColon_append after hpre]
  · have hsplit : body.drop n = (front ++ (m.1 ++ ['"'])) ++
        ':' :: (m.2.text ++ (behind post ++ ['\x7d'])) := by
      simp [hdrop, memberRest]
    rw [jsonGetNumber_of_find hfind (by simp [hfront, hcolon]) hsplit, numeralAt_value]

theorem jsonGetNumber_of_colon (hkey : quoted key <:+: body) (hcolon : ':' ∈ key) :
    jsonGetNumber body key = Strtod.stod (numeralAt (afterColon key)) := by
  obtain ⟨pre, post, rfl⟩ := hkey
  obtain ⟨n, hn⟩ := Text.exists_indexOf (quoted key) pre post
  rw [← List.append_assoc] at hn
  obtain ⟨rest, hrest⟩ := Text.prefix_drop_of_indexOf hn
  obtain ⟨before, after, hkey, hbefore⟩ := List.eq_append_cons_of_mem hcolon
  have hsplit : (pre ++ quoted key ++ post).drop n =
      ('"' :: before) ++ ':' :: (after ++ '"' :: rest) := by
    rw [← hrest, quoted, hkey]
    simp
  rw [jsonGetNumber_of_find ((Text.find_zero _ _).trans hn) (by simp [hbefore]) hsplit,
    numeralAt_append_quote, hkey, afterColon_append after hbefore]

end Reader

/-- The number reader on a flat object: it lands on a member and takes the
numeral there. -/
theorem jsonGetNumber_text [NumberFormat] (o : FlatObject) {key : Text} {v : FlatValue}
    (hmem : (key, v) ∈ o.members) (hstrings : o.StringsNotKeys) :
    ∃ m, landing key o.members = some m ∧
      jsonGetNumber o.text key = Strtod.stod (memberNumeral m) := by
  by_cases hcolon : ':' ∈ key
  · have hcomma : key ≠ [','] := by
      rintro rfl
      exact absurd hcolon (by decide)
    refine ⟨(key, v), landing_of_mem o.keys_nodup hmem hcomma, ?_⟩
    rw [jsonGetNumber_of_colon (o.quoted_infix hmem) hcolon, memberNumeral, if_pos hcolon]
  · obtain ⟨m, hm⟩ := exists_landing hmem
    exact ⟨m, hm, jsonGetNumber_of_landsAt (o.landsAt hmem hstrings hcolon hm)⟩

/-! ## Mantissa and value -/

theorem value_eq_mantissa_iff (n : Number) :
    n.value = n.mantissa ↔ n.exponent = 0 ∨ n.mantissa = 0 := by
  rw [Number.value]
  constructor
  · intro h
    by_contra hne
    rw [not_or] at hne
    have hpow : (10 : ℚ) ^ n.exponent = 1 := by
      have hcancel : n.mantissa * 10 ^ n.exponent = n.mantissa * 1 := by rw [h, mul_one]
      exact mul_left_cancel₀ hne.2 hcancel
    exact hne.1 ((zpow_eq_one_iff_right₀ (by norm_num) (by norm_num)).mp hpow)
  · rintro (h | h) <;> simp [h]

/-- A key that no punctuation between quotes can be taken for. -/
def Readable (key : Text) : Prop := ':' ∉ key ∧ key ≠ [',']

instance : DecidablePred Readable := fun key ↦
  inferInstanceAs (Decidable (':' ∉ key ∧ key ≠ [',']))

/-! ## The value that the reader gives

From here on numbers are kept exact. -/

attribute [local instance] NumberFormat.exact

/-- The value of a literal survives the reader: its exponent does not matter,
and its mantissa is in the range of a `double`.  For the other keys the numeral
is taken from another place and has to have the same value. -/
def Survives (o : FlatObject) (key : Text) (n : Number) : Prop :=
  if Readable key then (n.exponent = 0 ∨ n.mantissa = 0) ∧ Strtod.inRange n.mantissa = true
  else ∃ m, landing key o.members = some m ∧
    Strtod.stod (memberNumeral m) = some (.finite n.value)

theorem stod_mantissaText_iff (n : Number) :
    Strtod.stod n.mantissaText = some (.finite n.value) ↔
      (n.exponent = 0 ∨ n.mantissa = 0) ∧ Strtod.inRange n.mantissa = true := by
  rw [Number.mantissaText,
    Strtod.stod_plainText n.intPart_ne_nil n.isDigit_of_mem_int n.isDigit_of_mem_frac,
    ← value_eq_mantissa_iff]
  simp only [Double.ofRat_exact]
  change (if Strtod.inRange n.mantissa then some (Double.finite n.mantissa) else none) = _ ↔ _
  split_ifs with hrange
  · simp [hrange, eq_comm]
  · simp [hrange]

/-- The number reader gives the value of a literal exactly when it survives. -/
theorem jsonGetNumber_eq_value_iff (o : FlatObject) (key : Text) (n : Number)
    (hmem : (key, .number n) ∈ o.members) (hstrings : o.StringsNotKeys) :
    jsonGetNumber o.text key = some (.finite n.value) ↔ Survives o key n := by
  obtain ⟨m, hm, hread⟩ := jsonGetNumber_text o hmem hstrings
  rw [hread, Survives]
  split_ifs with hkey
  · rw [landing_of_mem o.keys_nodup hmem hkey.2, Option.some.injEq] at hm
    rw [← hm, memberNumeral, if_neg hkey.1, valueNumeral, stod_mantissaText_iff]
  · simp [hm]

theorem verbatim_qty : Verbatim "qty" := ⟨by decide, by decide⟩

def qtyOnly (n : Number) : FlatObject where
  members := [("qty", .number n)]
  keys_nodup := List.nodup_singleton _
  verbatim_keys := by
    intro m hm
    obtain rfl := List.mem_singleton.mp hm
    exact verbatim_qty
  verbatim_strings := by
    intro m hm t ht
    obtain rfl := List.mem_singleton.mp hm
    cases ht

theorem qtyOnly_stringsNotKeys (n : Number) : (qtyOnly n).StringsNotKeys := by
  intro m hm t ht
  obtain rfl := List.mem_singleton.mp hm
  cases ht

/-- `0.001`. -/
def plainQty : Number where
  neg := false
  intPart := "0"
  fracPart := "001"
  exponent? := none
  intPart_ne_nil := by decide
  no_leading_zero := by decide
  isDigit_of_mem_int := List.all_eq_true.mp rfl
  isDigit_of_mem_frac := List.all_eq_true.mp rfl

/-- `1e-05`. -/
def exponentQty : Number where
  neg := false
  intPart := "1"
  fracPart := []
  exponent? := some
    { marker := 'e'
      sign := ['-']
      digits := "05"
      marker_eq := Or.inl rfl
      sign_mem := by decide
      digits_ne_nil := by decide
      isDigit_of_mem := List.all_eq_true.mp rfl }
  intPart_ne_nil := by decide
  no_leading_zero := by decide
  isDigit_of_mem_int := List.all_eq_true.mp rfl
  isDigit_of_mem_frac := List.all_eq_true.mp rfl

theorem jsonGetNumber_plainQty :
    jsonGetNumber (qtyOnly plainQty).text "qty" = some (.finite plainQty.value) :=
  (jsonGetNumber_eq_value_iff (qtyOnly plainQty) "qty" plainQty List.mem_cons_self
    (qtyOnly_stringsNotKeys plainQty)).mpr
      ((if_pos (by decide)).mpr ⟨Or.inl rfl, by decide +kernel⟩)

/-- A quantity of `1e-05` is read as 1. -/
theorem exponentQty_read_as_one :
    ¬ ∀ (o : FlatObject) (key : Text) (n : Number), (key, .number n) ∈ o.members →
      o.StringsNotKeys → jsonGetNumber o.text key = some (.finite n.value) := by
  intro h
  have hread := h (qtyOnly exponentQty) "qty" exponentQty List.mem_cons_self
    (qtyOnly_stringsNotKeys exponentQty)
  have hone : jsonGetNumber (qtyOnly exponentQty).text "qty" = some (.finite 1) := by
    decide +kernel
  have hvalue : exponentQty.value = 1 / 100000 := by decide +kernel
  rw [hone, hvalue, Option.some.injEq, Double.finite.injEq] at hread
  norm_num at hread

end FrogQuant.App
