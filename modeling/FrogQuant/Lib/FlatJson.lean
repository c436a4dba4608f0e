import FrogQuant.Lib.Strtod

/-!
# Compact JSON texts

How objects and arrays are written without white space, and flat objects, whose
values are strings, numbers and literals.  Keys and strings are those that are
written as they are.  The main fact says where a search for a key in quotes
ends up.
-/

namespace FrogQuant.Json

def quoted (t : Text) : Text := '"' :: (t ++ ['"'])

def member (key value : Text) : Text := quoted key ++ (':' :: value)

def object (members : List Text) : Text :=
  '\x7b' :: (List.intercalate [','] members ++ ['\x7d'])

def array (items : List Text) : Text :=
  '[' :: (List.intercalate [','] items ++ [']'])

/-! ## Numbers -/

structure Exponent where
  marker : Char
  sign : Text
  digits : Text
  marker_eq : marker = 'e' ∨ marker = 'E'
  sign_mem : sign ∈ [[], ['+'], ['-']]
  digits_ne_nil : digits ≠ []
  isDigit_of_mem : ∀ c ∈ digits, c.isDigit = true

/-- A number of the JSON grammar; `fracPart` is empty when there is no
point. -/
structure Number where
  neg : Bool
  intPart : Text
  fracPart : Text
  exponent? : Option Exponent
  intPart_ne_nil : intPart ≠ []
  no_leading_zero : intPart = ['0'] ∨ intPart.head? ≠ some '0'
  isDigit_of_mem_int : ∀ c ∈ intPart, c.isDigit = true
  isDigit_of_mem_frac : ∀ c ∈ fracPart, c.isDigit = true

namespace Number

def exponentText (n : Number) : Text :=
  match n.exponent? with
  | none => []
  | some e => e.marker :: (e.sign ++ e.digits)

def exponent (n : Number) : ℤ :=
  match n.exponent? with
  | none => 0
  | some e =>
      let k : ℤ := Nat.ofDigitChars 10 e.digits 0
      if e.sign = ['-'] then -k else k

def mantissaText (n : Number) : Text := Strtod.plainText n.neg n.intPart n.fracPart

def mantissa (n : Number) : ℚ := Strtod.plainValue n.neg n.intPart n.fracPart

def text (n : Number) : Text := n.mantissaText ++ n.exponentText

def value (n : Number) : ℚ := n.mantissa * 10 ^ n.exponent

end Number

/-! ## Flat objects -/

inductive FlatValue where
  | string (t : Text)
  | number (n : Number)
  | bool (b : Bool)
  | null

def FlatValue.text : FlatValue → Text
  | string t => quoted t
  | number n => n.text
  | bool b => if b then "true" else "false"
  | null => "null"

/-- A string that is written as it is. -/
def Verbatim (t : Text) : Prop := '"' ∉ t ∧ '\\' ∉ t

structure FlatObject where
  members : List (Text × FlatValue)
  keys_nodup : (members.map Prod.fst).Nodup
  verbatim_keys : ∀ m ∈ members, Verbatim m.1
  verbatim_strings : ∀ m ∈ members, ∀ t, m.2 = .string t → Verbatim t

def memberText (m : Text × FlatValue) : Text := member m.1 m.2.text

def FlatObject.text (o : FlatObject) : Text := object (o.members.map memberText)

def FlatObject.StringsNotKeys (o : FlatObject) : Prop :=
  ∀ m ∈ o.members, ∀ t, m.2 = .string t → t ∉ o.members.map Prod.fst

/-! ## Where a key is found -/

def memberRest (m : Text × FlatValue) : Text := m.1 ++ '"' :: ':' :: m.2.text

def behind (ms : List (Text × FlatValue)) : Text :=
  (ms.map fun m ↦ ',' :: memberText m).flatten

@[simp] theorem behind_nil : behind [] = [] := rfl

@[simp] theorem behind_cons (m : Text × FlatValue) (ms : List (Text × FlatValue)) :
    behind (m :: ms) = ',' :: (memberText m ++ behind ms) := by
  simp [behind]

theorem memberText_eq (m : Text × FlatValue) : memberText m = '"' :: memberRest m := by
  simp [memberText, member, quoted, memberRest]

/-- The member that the search for a key in quotes ends up at.  The comma
between a string and the key after it is taken for the key `,`. -/
def landing (key : Text) : List (Text × FlatValue) → Option (Text × FlatValue)
  | [] => none
  | m :: ms =>
      if m.1 = key then some m
      else
        match m.2 with
        | .string _ => if key = [','] then ms.head? else landing key ms
        | _ => landing key ms

theorem intercalate_memberText (m : Text × FlatValue) (ms : List (Text × FlatValue)) :
    List.intercalate [','] ((m :: ms).map memberText) = memberText m ++ behind ms := by
  induction ms generalizing m with
  | nil => simp
  | cons m' ms ih =>
      have htail := ih m'
      simp only [List.map_cons] at htail ⊢
      rw [List.intercalate_cons_cons, htail]
      simp

theorem not_quote_of_isDigit {c : Char} (h : c.isDigit = true) : c ≠ '"' := by
  rintro rfl
  simp at h

theorem quote_notMem_number (n : Number) : '"' ∉ n.text := by
  rw [Number.text, List.mem_append, not_or]
  constructor
  · intro h
    have hplain := Strtod.isPlain_of_mem_plainText n.neg n.isDigit_of_mem_int n.isDigit_of_mem_frac
      '"' h
    exact absurd hplain (by decide)
  · rw [Number.exponentText]
    cases hexp : n.exponent? with
    | none => exact List.not_mem_nil
    | some e =>
        have hmarker : '"' ≠ e.marker := by
          rintro h
          rcases e.marker_eq with he | he <;> simp [he] at h
        have hsign : '"' ∉ e.sign := by
          have hmem := e.sign_mem
          intro h
          simp only [List.mem_cons, List.not_mem_nil, or_false] at hmem
          rcases hmem with he | he | he <;> simp [he] at h
        have hdigits : '"' ∉ e.digits := fun h ↦
          not_quote_of_isDigit (e.isDigit_of_mem _ h) rfl
        simp [hmarker, hsign, hdigits]

/-- A member with a bare value is passed over: the text between its key and
the next one holds a colon. -/
theorem passes_quoted_bare {key : Text} (hquote : '"' ∉ key) (hcolon : ':' ∉ key)
    {m : Text × FlatValue} (hm : Verbatim m.1) (hne : key ≠ m.1) (hbare : '"' ∉ m.2.text)
    (rest : Text) : Text.Passes (quoted key) (memberText m ++ [',']) ('"' :: rest) := by
  have hgap : '"' ∉ ':' :: (m.2.text ++ [',']) := by simp [hbare]
  have hgapNe : key ≠ ':' :: (m.2.text ++ [',']) := by
    rintro rfl
    exact hcolon List.mem_cons_self
  have hkey := Text.passes_delimited (':' :: (m.2.text ++ [',']) ++ ('"' :: rest)) hquote hm.1 hne
  have hvalue := Text.passes_delimited rest hquote hgap hgapNe
  simpa [memberText, member, quoted] using hkey.append hvalue

def openString (k t : Text) : Text := quoted k ++ ':' :: '"' :: t

theorem memberText_string (k t : Text) : memberText (k, .string t) = openString k t ++ ['"'] := by
  simp [memberText, member, quoted, openString, FlatValue.text]

theorem passes_quoted_openString {key k t : Text} (hquote : '"' ∉ key) (hcolon : ':' ∉ key)
    (hk : Verbatim k) (hkne : key ≠ k) (ht : Verbatim t) (htne : key ≠ t) (rest : Text) :
    Text.Passes (quoted key) (openString k t) ('"' :: rest) := by
  have hgap : '"' ∉ [':'] := by decide
  have hgapNe : key ≠ [':'] := by
    rintro rfl
    exact hcolon List.mem_cons_self
  have hkey := Text.passes_delimited (':' :: '"' :: (t ++ '"' :: rest)) hquote hk.1 hkne
  have hbetween := Text.passes_delimited (t ++ '"' :: rest) hquote hgap hgapNe
  have hvalue := Text.passes_delimited rest hquote ht.1 htne
  simpa [openString, quoted] using hkey.append (hbetween.append hvalue)

/-- In the text a key in quotes is found, and from there on stand some
punctuation without a colon and the member that the search lands on. -/
def LandsAt (key t : Text) (m : Text × FlatValue) (tail : Text) : Prop :=
  ∃ n front post, Text.indexOf (quoted key) t = some n ∧ ':' ∉ front ∧
    t.drop n = front ++ (memberRest m ++ (behind post ++ tail))

theorem LandsAt.append {key t tail : Text} {m : Text × FlatValue} {pre : Text}
    (h : LandsAt key t m tail) (hpre : Text.Passes (quoted key) pre t) :
    LandsAt key (pre ++ t) m tail := by
  obtain ⟨n, front, post, hn, hfront, hdrop⟩ := h
  rw [Text.Passes, hn, Option.map_some] at hpre
  refine ⟨n + pre.length, front, post, hpre, hfront, ?_⟩
  rw [Nat.add_comm, List.drop_length_add_append, hdrop]

theorem landsAt_self (m : Text × FlatValue) (ms : List (Text × FlatValue)) (tail : Text) :
    LandsAt m.1 (memberText m ++ (behind ms ++ tail)) m tail := by
  have hself := Text.indexOf_delimited_self '"' m.1 (':' :: (m.2.text ++ (behind ms ++ tail)))
  refine ⟨0, ['"'], ms, ?_, by decide, by simp [memberText_eq]⟩
  simpa [memberText_eq, memberRest, quoted] using hself

section Members

variable {key k t : Text} {m m₁ : Text × FlatValue} {rest tail : Text}

theorem LandsAt.pass_bare (hquote : '"' ∉ key) (hcolon : ':' ∉ key) {m₀ : Text × FlatValue}
    (hm₀ : Verbatim m₀.1) (hne : key ≠ m₀.1) (hbare : '"' ∉ m₀.2.text)
    (h : LandsAt key (memberText m₁ ++ rest) m tail) :
    LandsAt key (memberText m₀ ++ (',' :: (memberText m₁ ++ rest))) m tail := by
  have hpass := passes_quoted_bare hquote hcolon hm₀ hne hbare (memberRest m₁ ++ rest)
  simp only [memberText_eq m₁] at h
  simpa [memberText_eq m₁] using h.append hpass

theorem LandsAt.pass_string (hquote : '"' ∉ key) (hcolon : ':' ∉ key) (hcomma : key ≠ [','])
    (hk : Verbatim k) (hkne : key ≠ k) (ht : Verbatim t) (htne : key ≠ t)
    (h : LandsAt key (memberText m₁ ++ rest) m tail) :
    LandsAt key (memberText (k, .string t) ++ (',' :: (memberText m₁ ++ rest))) m tail := by
  have hgap := Text.passes_delimited (memberRest m₁ ++ rest) hquote
    (by decide : '"' ∉ [',']) hcomma
  have hpass := passes_quoted_openString hquote hcolon hk hkne ht htne
    (',' :: (memberText m₁ ++ rest))
  simp only [memberText_eq m₁] at h hpass
  have hskip : LandsAt key (['"', ','] ++ '"' :: (memberRest m₁ ++ rest)) m tail := h.append hgap
  simpa [memberText_string, memberText_eq m₁] using hskip.append hpass

/-- The punctuation between a string and the next key is taken for the key
`,`. -/
theorem landsAt_comma (hk : Verbatim k) (hkne : [','] ≠ k) (ht : Verbatim t) (htne : [','] ≠ t)
    (ms : List (Text × FlatValue)) :
    LandsAt [','] (memberText (k, .string t) ++ (',' :: (memberText m₁ ++ (behind ms ++ tail)))) m₁
      tail := by
  have hself := Text.indexOf_delimited_self '"' [','] (memberRest m₁ ++ (behind ms ++ tail))
  have hpass := passes_quoted_openString (by decide) (by decide) hk hkne ht htne
    (',' :: (memberText m₁ ++ (behind ms ++ tail)))
  have hgap : LandsAt [','] ('"' :: ',' :: (memberText m₁ ++ (behind ms ++ tail))) m₁ tail := by
    refine ⟨0, ['"', ',', '"'], ms, ?_, by decide, by simp [memberText_eq]⟩
    simpa [memberText_eq, quoted] using hself
  simpa [memberText_string] using hgap.append hpass

end Members

/-- A text between quotes is a key, a string, or the punctuation between them;
a key without a colon is found at its member or at the comma it is taken
for. -/
theorem landsAt_of_landing {key : Text} (hquote : '"' ∉ key) (hcolon : ':' ∉ key)
    {m₀ m : Text × FlatValue} {ms : List (Text × FlatValue)}
    (hkeys : ∀ m ∈ m₀ :: ms, Verbatim m.1)
    (hstrings : ∀ m ∈ m₀ :: ms, ∀ t, m.2 = .string t → Verbatim t ∧ key ≠ t)
    (h : landing key (m₀ :: ms) = some m) (tail : Text) :
    LandsAt key (memberText m₀ ++ (behind ms ++ tail)) m tail := by
  induction ms generalizing m₀ with
  | nil =>
      by_cases hkey : m₀.1 = key
      · rw [landing, if_pos hkey] at h
        obtain rfl := Option.some.inj h
        exact hkey ▸ landsAt_self m₀ [] tail
      · simp only [landing, if_neg hkey, List.head?_nil, ite_self] at h
        split at h <;> cases h
  | cons m₁ ms ih =>
      by_cases hkey : m₀.1 = key
      · rw [landing, if_pos hkey] at h
        obtain rfl := Option.some.inj h
        exact hkey ▸ landsAt_self m₀ (m₁ :: ms) tail
      · have hm₀ := hkeys m₀ List.mem_cons_self
        have hne : key ≠ m₀.1 := Ne.symm hkey
        have htail : landing key (m₁ :: ms) = some m →
            LandsAt key (memberText m₁ ++ (behind ms ++ tail)) m tail :=
          ih (fun m hm ↦ hkeys m (List.mem_cons_of_mem m₀ hm))
            (fun m hm ↦ hstrings m (List.mem_cons_of_mem m₀ hm))
        rw [landing, if_neg hkey] at h
        simp only [behind_cons, List.cons_append, List.append_assoc]
        cases hv : m₀.2 with
        | number n =>
            rw [hv] at h
            exact (htail h).pass_bare hquote hcolon hm₀ hne (hv ▸ quote_notMem_number n)
        | bool b =>
            rw [hv] at h
            exact (htail h).pass_bare hquote hcolon hm₀ hne (by rw [hv]; cases b <;> decide)
        | null =>
            rw [hv] at h
            exact (htail h).pass_bare hquote hcolon hm₀ hne (by rw [hv]; decide)
        | string t =>
            obtain ⟨k, v⟩ := m₀
            obtain rfl : v = .string t := hv
            obtain ⟨ht, htne⟩ := hstrings (k, .string t) List.mem_cons_self t rfl
            split_ifs at h with hcomma
            · subst hcomma
              obtain rfl := Option.some.inj h
              exact landsAt_comma hm₀ hne ht htne ms
            · exact (htail h).pass_string hquote hcolon hcomma hm₀ hne ht htne

theorem landing_of_mem {key : Text} {v : FlatValue} {ms : List (Text × FlatValue)}
    (hnodup : (ms.map Prod.fst).Nodup) (hmem : (key, v) ∈ ms) (hcomma : key ≠ [',']) :
    landing key ms = some (key, v) := by
  induction ms with
  | nil => cases hmem
  | cons m ms ih =>
      obtain ⟨hfresh, hnodup⟩ := List.nodup_cons.mp hnodup
      rw [landing]
      rcases List.mem_cons.mp hmem with rfl | hmem
      · rw [if_pos rfl]
      · have hne : m.1 ≠ key := fun heq ↦ hfresh (heq ▸ List.mem_map_of_mem hmem)
        rw [if_neg hne, if_neg hcomma, ih hnodup hmem]
        split <;> rfl

theorem exists_landing {key : Text} {v : FlatValue} {ms : List (Text × FlatValue)}
    (hmem : (key, v) ∈ ms) : ∃ m, landing key ms = some m := by
  induction ms with
  | nil => cases hmem
  | cons m ms ih =>
      rw [landing]
      rcases List.mem_cons.mp hmem with rfl | hmem
      · exact ⟨_, if_pos rfl⟩
      · obtain ⟨m₁, ms', rfl⟩ := List.exists_cons_of_ne_nil (List.ne_nil_of_mem hmem)
        split_ifs
        · exact ⟨m, rfl⟩
        · split
          · exact ⟨m₁, rfl⟩
          · exact ih hmem
        · split
          · exact ih hmem
          · exact ih hmem

namespace FlatObject

variable (o : FlatObject) {key : Text} {v : FlatValue} {m : Text × FlatValue}

theorem text_cons {m : Text × FlatValue} {ms : List (Text × FlatValue)} (h : o.members = m :: ms) :
    o.text = ['\x7b'] ++ (memberText m ++ (behind ms ++ ['\x7d'])) := by
  rw [text, object, h, intercalate_memberText]
  simp

theorem quoted_infix (hmem : (key, v) ∈ o.members) : quoted key <:+: o.text := by
  have hmember : quoted key <:+: memberText (key, v) := (List.prefix_append _ _).isInfix
  apply hmember.trans
  obtain ⟨m₀, ms, hmembers⟩ := List.exists_cons_of_ne_nil (List.ne_nil_of_mem hmem)
  rw [o.text_cons hmembers]
  rcases List.mem_cons.mp (hmembers ▸ hmem) with rfl | hmem
  · exact ⟨['\x7b'], behind ms ++ ['\x7d'], by simp⟩
  · have hcomma : (',' :: memberText (key, v)) <:+: behind ms :=
      List.infix_of_mem_flatten (List.mem_map_of_mem hmem)
    apply (List.suffix_cons ',' _).isInfix.trans
    apply hcomma.trans
    exact ⟨['\x7b'] ++ memberText m₀, ['\x7d'], by simp⟩

theorem landsAt (hmem : (key, v) ∈ o.members) (hstrings : o.StringsNotKeys) (hcolon : ':' ∉ key)
    (h : landing key o.members = some m) : LandsAt key o.text m ['\x7d'] := by
  obtain ⟨m₀, ms, hmembers⟩ := List.exists_cons_of_ne_nil (List.ne_nil_of_mem hmem)
  have hquote : '"' ∉ key := (o.verbatim_keys _ hmem).1
  have hbrace : '"' ∉ ['\x7b'] := by decide
  rw [o.text_cons hmembers]
  refine LandsAt.append ?_ (Text.passes_of_notMem _ _ hbrace)
  refine landsAt_of_landing hquote hcolon (fun m hm ↦ o.verbatim_keys m (hmembers ▸ hm))
    (fun m hm t ht ↦ ⟨o.verbatim_strings m (hmembers ▸ hm) t ht, ?_⟩) (hmembers ▸ h) _
  rintro rfl
  exact hstrings m (hmembers ▸ hm) _ ht (List.mem_map_of_mem hmem)

end FlatObject

/-! ## Where a key and its colon are found -/

/-- In the text the key in quotes, its colon directly behind it, is found, and
`tail` follows. -/
def FollowsKey (key t tail : Text) : Prop :=
  ∃ n, Text.indexOf (quoted key ++ [':']) t = some n ∧
    t.drop (n + (quoted key ++ [':']).length) = tail

theorem followsKey_self (key tail : Text) : FollowsKey key (quoted key ++ (':' :: tail)) tail := by
  have hsplit : quoted key ++ (':' :: tail) = (quoted key ++ [':']) ++ tail := by simp
  refine ⟨0, ?_, ?_⟩
  · rw [hsplit]
    exact Text.indexOf_of_prefix _ tail
  · rw [hsplit, Nat.zero_add]
    exact List.drop_left

section FollowsKey

variable {key k t tail : Text}

theorem FollowsKey.append {pre : Text} (h : FollowsKey key t tail)
    (hpre : Text.Passes (quoted key ++ [':']) pre t) : FollowsKey key (pre ++ t) tail := by
  obtain ⟨n, hn, hdrop⟩ := h
  rw [Text.Passes, hn, Option.map_some] at hpre
  refine ⟨n + pre.length, hpre, ?_⟩
  rw [Nat.add_right_comm, Nat.add_comm, List.drop_length_add_append]
  exact hdrop

theorem FollowsKey.pass {pre : Text} (hpre : '"' ∉ pre) (h : FollowsKey key t tail) :
    FollowsKey key (pre ++ t) tail :=
  h.append (Text.passes_of_notMem _ t hpre)

/-- A text in quotes is passed over: its opening quote is not that of the key,
unless a colon is missing, and the key does not begin with what follows. -/
theorem passes_key_quoted {d : Char} (hquote : '"' ∉ key) (hk : '"' ∉ k)
    (hopen : key = k → d ≠ ':') (hclose : (key ++ ['"']).head? ≠ some d) (rest : Text) :
    Text.Passes (quoted key ++ [':']) (quoted k) (d :: rest) := by
  have hfirst : ¬ (quoted key ++ [':']) <+: '"' :: (k ++ '"' :: d :: rest) := by
    intro hprefix
    have htoken : (key ++ '"' :: [':']) <+: (k ++ '"' :: d :: rest) := by
      simpa [quoted] using (List.cons_prefix_cons.mp hprefix).2
    have hkey : (key ++ ['"']) <+: (k ++ '"' :: d :: rest) :=
      List.IsPrefix.trans ⟨[':'], by simp⟩ htoken
    obtain rfl := (Text.prefix_delimited_iff _ hquote hk).mp hkey
    have hcolon := (List.prefix_append_right_inj key).mp htoken
    exact hopen rfl (List.cons_prefix_cons.mp (List.cons_prefix_cons.mp hcolon).2).1.symm
  have hsecond : ¬ (quoted key ++ [':']) <+: '"' :: d :: rest := by
    intro hprefix
    have hkey : (key ++ ['"'] ++ [':']) <+: d :: rest := (List.cons_prefix_cons.mp hprefix).2
    obtain ⟨e, t, het⟩ := List.exists_cons_of_ne_nil
      (List.append_ne_nil_of_right_ne_nil key (List.cons_ne_nil '"' []))
    rw [het] at hkey hclose
    exact hclose (congrArg some (List.cons_prefix_cons.mp hkey).1)
  have hbody := Text.passes_of_notMem (key ++ ['"'] ++ [':']) ('"' :: d :: rest) hk
  have hbehind := hbody.append (Text.passes_of_not_prefixed hsecond)
  refine (Text.passes_of_not_prefixed ?_).append hbehind
  simpa using hfirst

/-- Another key is passed over: neither of its quotes opens the key searched
for. -/
theorem FollowsKey.pass_key (hquote : '"' ∉ key) (hcolon : ':' ∉ key) (hk : '"' ∉ k)
    (hne : key ≠ k) (h : FollowsKey key t tail) :
    FollowsKey key (quoted k ++ (':' :: t)) tail := by
  have hclose : (key ++ ['"']).head? ≠ some ':' := by
    intro hhead
    have hmem := List.mem_of_mem_head? hhead
    simp [hcolon] at hmem
  have hvalue : '"' ∉ [':'] := by decide
  apply FollowsKey.append (h.pass hvalue)
  exact passes_key_quoted hquote hk (fun heq ↦ absurd heq hne) hclose t

end FollowsKey

end FrogQuant.Json
