import FrogQuant.Lib.WrittenJson

/-!
# Reading JSON texts

Trees of JSON values, how they are written without white space, and a reader
for JSON texts.  What is written is read as the tree with its numbers
evaluated.
-/

namespace FrogQuant.Json

/-- JSON values with strings from `S` and numbers from `N`. -/
inductive Tree (S N : Type) where
  | null
  | bool (b : Bool)
  | number (x : N)
  | string (s : S)
  | array (items : List (Tree S N))
  | object (members : List (S × Tree S N))

/-! ## Reading -/

def skip (t : Text) : Text := t.dropWhile isSpace

/-- A string as it is written, up to the quote that closes it. -/
def readRaw : Text → Option (Text × Text)
  | [] => none
  | c :: t =>
      if c = '"' then some ([], t)
      else if c = '\\' then
        match t with
        | [] => none
        | d :: t => (readRaw t).map fun p ↦ (c :: d :: p.1, p.2)
      else (readRaw t).map fun p ↦ (c :: p.1, p.2)

def readString (t : Text) : Option (Text × Text) :=
  (readRaw t).filter fun p ↦ (meaning p.1).isSome

/-- The exponent of a number, from its marker on. -/
def readExponent : Text → Option ℤ
  | [] => some 0
  | c :: t =>
      if c = 'e' ∨ c = 'E' then
        let (neg, ds) := Strtod.splitSign t
        if ds ≠ [] ∧ ds.all Char.isDigit then
          some ((if neg then -1 else 1) * (Nat.ofDigitChars 10 ds 0 : ℤ))
        else none
      else none

/-- A number behind its sign. -/
def readMagnitude (t : Text) : Option ℚ :=
  let ip := t.takeWhile Char.isDigit
  let t := t.dropWhile Char.isDigit
  if ip = [] ∨ ip ≠ ['0'] ∧ ip.head? = some '0' then none
  else if t.head? = some '.' then
    let fp := t.tail.takeWhile Char.isDigit
    if fp = [] then none
    else
      (readExponent (t.tail.dropWhile Char.isDigit)).map fun e ↦ Decimal.fixedValue ip fp * 10 ^ e
  else (readExponent t).map fun e ↦ Decimal.fixedValue ip [] * 10 ^ e

def readNumber (t : Text) : Option ℚ :=
  if t.head? = some '-' then (readMagnitude t.tail).map (- ·) else readMagnitude t

/-- The characters of numbers and literals. -/
def isBare (c : Char) : Bool := c.isAlphanum || c = '+' || c = '-' || c = '.'

def readBare (t : Text) : Option (Tree Text ℚ) :=
  if t = "null".toList then some .null
  else if t = "true".toList then some (.bool true)
  else if t = "false".toList then some (.bool false)
  else (readNumber t).map .number

mutual

/-- A value and the text behind it; the nesting is bounded by the fuel. -/
def readValue : ℕ → Text → Option (Tree Text ℚ × Text)
  | 0, _ => none
  | n + 1, t =>
      match skip t with
      | [] => none
      | c :: t =>
          if c = '"' then (readString t).map fun p ↦ (.string p.1, p.2)
          else if c = '[' then
            if (skip t).head? = some ']' then some (.array [], (skip t).tail)
            else (readItems n t).map fun p ↦ (.array p.1, p.2)
          else if c = '\x7b' then
            if (skip t).head? = some '\x7d' then some (.object [], (skip t).tail)
            else (readMembers n t).map fun p ↦ (.object p.1, p.2)
          else
            (readBare ((c :: t).takeWhile isBare)).map fun v ↦ (v, (c :: t).dropWhile isBare)

def readItems : ℕ → Text → Option (List (Tree Text ℚ) × Text)
  | 0, _ => none
  | n + 1, t => do
      let (v, t) ← readValue n t
      match skip t with
      | [] => none
      | c :: t =>
          if c = ',' then (readItems n t).map fun p ↦ (v :: p.1, p.2)
          else if c = ']' then some ([v], t)
          else none

def readMembers : ℕ → Text → Option (List (Text × Tree Text ℚ) × Text)
  | 0, _ => none
  | n + 1, t => do
      let t := skip t
      if t.head? = some '"' then
        let (k, t) ← readString t.tail
        let t := skip t
        if t.head? = some ':' then
          let (v, t) ← readValue n t.tail
          match skip t with
          | [] => none
          | c :: t =>
              if c = ',' then (readMembers n t).map fun p ↦ ((k, v) :: p.1, p.2)
              else if c = '\x7d' then some ([(k, v)], t)
              else none
        else none
      else none

end

/-- A JSON text: one value, with white space around it. -/
def read (t : Text) : Option (Tree Text ℚ) := do
  let (v, rest) ← readValue (t.length + 1) t
  if skip rest = [] then some v else none

/-! ## Looking into a value -/

namespace Tree

/-- The value of a key, however the key is written. -/
def get? (key : Text) : Tree Text ℚ → Option (Tree Text ℚ)
  | .object members => (members.find? fun m ↦ meaning m.1 = meaning key).map Prod.snd
  | _ => none

def bool? : Tree Text ℚ → Option Bool
  | .bool b => some b
  | _ => none

def number? : Tree Text ℚ → Option ℚ
  | .number q => some q
  | _ => none

def nat? : Tree Text ℚ → Option ℕ
  | .number q => if q.den = 1 ∧ 0 ≤ q then some q.num.toNat else none
  | _ => none

def items? : Tree Text ℚ → Option (List (Tree Text ℚ))
  | .array items => some items
  | _ => none

/-- Where the keys mean different things, each has its own value. -/
theorem get?_of_getElem? {members : List (Text × Tree Text ℚ)}
    (hkeys : (members.map fun m ↦ meaning m.1).Nodup) {i : ℕ} {key : Text} {v : Tree Text ℚ}
    (h : members[i]? = some (key, v)) : get? key (.object members) = some v := by
  induction members generalizing i with
  | nil => cases h
  | cons m members ih =>
      obtain ⟨hfresh, hrest⟩ := List.nodup_cons.mp hkeys
      cases i with
      | zero =>
          obtain rfl : m = (key, v) := by simpa using h
          simp [get?]
      | succ i =>
          have hmem : (key, v) ∈ members := List.mem_of_getElem? h
          have hne : meaning m.1 ≠ meaning key := fun heq ↦
            hfresh (List.mem_map.mpr ⟨(key, v), hmem, heq.symm⟩)
          simpa [get?, hne] using ih hrest h

@[simp] theorem nat?_natCast (n : ℕ) : nat? (.number n) = some n := by
  simp [nat?]

end Tree

/-! ## Numbers of the grammar -/

theorem readExponent_text (n : Number) : readExponent n.exponentText = some n.exponent := by
  rw [Number.exponentText, Number.exponent]
  cases n.exponent? with
  | none => rfl
  | some e =>
      obtain ⟨d, ds, hds⟩ := List.exists_cons_of_ne_nil e.digits_ne_nil
      have hdigit : d.isDigit = true := e.isDigit_of_mem d (by simp [hds])
      have hall : e.digits.all Char.isDigit = true := List.all_eq_true.mpr e.isDigit_of_mem
      have hplus : d ≠ '+' := by
        rintro rfl
        simp at hdigit
      have hminus : d ≠ '-' := by
        rintro rfl
        simp at hdigit
      have hsign : Strtod.splitSign (e.sign ++ e.digits) = (decide (e.sign = ['-']), e.digits) := by
        have hmem := e.sign_mem
        simp only [List.mem_cons, List.not_mem_nil, or_false] at hmem
        rcases hmem with h | h | h <;> simp [h, hds, Strtod.splitSign, hplus, hminus]
      simp only [readExponent, if_pos e.marker_eq, hsign]
      rw [if_pos ⟨e.digits_ne_nil, hall⟩]
      simp only [decide_eq_true_eq]
      split_ifs <;> simp

theorem readMagnitude_text {ip fp rest : Text} (hne : ip ≠ [])
    (hzero : ip = ['0'] ∨ ip.head? ≠ some '0') (hip : ∀ c ∈ ip, c.isDigit = true)
    (hfp : ∀ c ∈ fp, c.isDigit = true) (hrest : ∀ c ∈ rest.head?, c.isDigit = false ∧ c ≠ '.') :
    readMagnitude (Strtod.plainText false ip fp ++ rest) =
      (readExponent rest).map fun e ↦ Decimal.fixedValue ip fp * 10 ^ e := by
  have hgood : ¬ (ip = [] ∨ ip ≠ ['0'] ∧ ip.head? = some '0') := by
    rintro (h | ⟨h, h'⟩)
    · exact hne h
    · exact hzero.elim h (· h')
  by_cases hnil : fp = []
  · subst hnil
    obtain ⟨htake, hdrop⟩ := Decimal.takeWhile_isDigit rest hip fun c hc ↦ (hrest c hc).1
    have hdot : rest.head? ≠ some '.' := fun h ↦ (hrest '.' (by simp [h])).2 rfl
    simp [readMagnitude, Strtod.plainText, htake, hdrop, hgood, hdot]
  · obtain ⟨htake, hdrop⟩ := Decimal.takeWhile_isDigit ('.' :: (fp ++ rest)) hip fun c hc ↦ by
      obtain rfl : '.' = c := by simpa using hc
      decide
    obtain ⟨htake', hdrop'⟩ := Decimal.takeWhile_isDigit rest hfp fun c hc ↦ (hrest c hc).1
    simp [readMagnitude, Strtod.plainText, hnil, htake, hdrop, hgood, htake', hdrop']

theorem head_exponentText (n : Number) :
    ∀ c ∈ n.exponentText.head?, c.isDigit = false ∧ c ≠ '.' := by
  intro c hc
  rw [Number.exponentText] at hc
  cases hexp : n.exponent? with
  | none => simp [hexp] at hc
  | some e =>
      rw [hexp] at hc
      obtain rfl : e.marker = c := by simpa using hc
      rcases e.marker_eq with h | h <;> rw [h] <;> decide

/-- A number of the grammar is read as its value. -/
theorem readNumber_text (n : Number) : readNumber n.text = some n.value := by
  have hread := readMagnitude_text n.intPart_ne_nil n.no_leading_zero n.isDigit_of_mem_int
    n.isDigit_of_mem_frac (head_exponentText n)
  rw [readExponent_text, Option.map_some] at hread
  obtain ⟨d, ds, hds⟩ := List.exists_cons_of_ne_nil n.intPart_ne_nil
  have hminus : d ≠ '-' := by
    rintro rfl
    have hdigit := n.isDigit_of_mem_int '-' (by simp [hds])
    simp at hdigit
  rw [Number.text, Number.mantissaText, Number.value, Number.mantissa, Strtod.plainValue]
  cases n.neg with
  | false =>
      have hhead : (Strtod.plainText false n.intPart n.fracPart ++ n.exponentText).head? ≠
          some '-' := by
        simp [Strtod.plainText, hds, hminus]
      rw [readNumber, if_neg hhead, hread]
      rfl
  | true =>
      have hhead : (Strtod.plainText true n.intPart n.fracPart ++ n.exponentText).head? =
          some '-' := rfl
      have htail : (Strtod.plainText true n.intPart n.fracPart ++ n.exponentText).tail =
          Strtod.plainText false n.intPart n.fracPart ++ n.exponentText := rfl
      rw [readNumber, if_pos hhead, htail, hread]
      simp

theorem isBare_of_isDigit {c : Char} (h : c.isDigit = true) : isBare c = true := by
  simp [isBare, Char.isAlphanum, h]

theorem isBare_of_mem_text (n : Number) {c : Char} (hc : c ∈ n.text) : isBare c = true := by
  rcases List.mem_append.mp hc with hc | hc
  · have hplain := Strtod.isPlain_of_mem_plainText n.neg n.isDigit_of_mem_int n.isDigit_of_mem_frac
      c hc
    simp only [Strtod.isPlain, Bool.or_eq_true, decide_eq_true_eq] at hplain
    rcases hplain with (h | rfl) | rfl
    · exact isBare_of_isDigit h
    · decide
    · decide
  · rw [Number.exponentText] at hc
    cases hexp : n.exponent? with
    | none => simp [hexp] at hc
    | some e =>
        simp only [hexp, List.mem_cons, List.mem_append] at hc
        rcases hc with rfl | hc | hc
        · rcases e.marker_eq with h | h <;> rw [h] <;> decide
        · have hmem := e.sign_mem
          simp only [List.mem_cons, List.not_mem_nil, or_false] at hmem
          rcases hmem with h | h | h
          · simp [h] at hc
          · obtain rfl : c = '+' := by simpa [h] using hc
            decide
          · obtain rfl : c = '-' := by simpa [h] using hc
            decide
        · exact isBare_of_isDigit (e.isDigit_of_mem c hc)

theorem Number.text_ne_nil (n : Number) : n.text ≠ [] := by
  simp [Number.text, Number.mantissaText, Strtod.plainText, n.intPart_ne_nil]

/-! ## Writing -/

/-- The characters that stand for themselves in a string. -/
def isLiteral (c : Char) : Bool := c ≠ '"' ∧ c ≠ '\\' ∧ 32 ≤ c.toNat

/-- A string that is written as it is. -/
structure Word where
  text : Text
  literal : text.all isLiteral = true

theorem Word.isLiteral_of_mem (s : Word) {c : Char} (h : c ∈ s.text) :
    c ≠ '"' ∧ c ≠ '\\' ∧ 32 ≤ c.toNat := by
  have hc := List.all_eq_true.mp s.literal c h
  rwa [isLiteral, decide_eq_true_eq] at hc

theorem exists_words {ts : List Text} (h : ∀ t ∈ ts, t.all isLiteral = true) :
    ∃ ws : List Word, ws.map Word.text = ts := by
  induction ts with
  | nil => exact ⟨[], rfl⟩
  | cons t ts ih =>
      obtain ⟨ht, hts⟩ := List.forall_mem_cons.mp h
      obtain ⟨ws, hws⟩ := ih hts
      exact ⟨⟨t, ht⟩ :: ws, by rw [List.map_cons, hws]⟩

/-- How the numbers of a tree are written; not all texts need to be numbers of
the grammar. -/
structure Leaves (N : Type) where
  text : N → Text
  ne_nil : ∀ x, text x ≠ []
  isBare_of_mem : ∀ x, ∀ c ∈ text x, isBare c = true
  readBare_text : ∀ x, readBare (text x) = (readNumber (text x)).map .number

variable {N : Type} (leaves : Leaves N)

mutual

/-- A tree as it is written without white space. -/
def Tree.text : Tree Word N → Text
  | .null => "null"
  | .bool b => if b then "true" else "false"
  | .number x => leaves.text x
  | .string s => quoted s.text
  | .array items => Json.array (itemTexts items)
  | .object members => Json.object (memberTexts members)

def itemTexts : List (Tree Word N) → List Text
  | [] => []
  | v :: vs => v.text :: itemTexts vs

def memberTexts : List (Word × Tree Word N) → List Text
  | [] => []
  | (k, v) :: ms => member k.text v.text :: memberTexts ms

end

mutual

/-- The tree with its numbers evaluated, if all are numbers of the grammar. -/
def Tree.eval : Tree Word N → Option (Tree Text ℚ)
  | .null => some .null
  | .bool b => some (.bool b)
  | .number x => (readNumber (leaves.text x)).map .number
  | .string s => some (.string s.text)
  | .array items => (evalItems items).map .array
  | .object members => (evalMembers members).map .object

def evalItems : List (Tree Word N) → Option (List (Tree Text ℚ))
  | [] => some []
  | v :: vs => v.eval.bind fun v ↦ (evalItems vs).map (v :: ·)

def evalMembers : List (Word × Tree Word N) → Option (List (Text × Tree Text ℚ))
  | [] => some []
  | (k, v) :: ms => v.eval.bind fun v ↦ (evalMembers ms).map ((k.text, v) :: ·)

end

theorem eval_bool (b : Bool) : Tree.eval leaves (.bool b) = some (.bool b) := by
  rw [Tree.eval]

theorem eval_string (s : Word) : Tree.eval leaves (.string s) = some (.string s.text) := by
  rw [Tree.eval]

theorem eval_array (items : List (Tree Word N)) :
    Tree.eval leaves (.array items) = (evalItems leaves items).map .array := by
  rw [Tree.eval]

theorem eval_object (members : List (Word × Tree Word N)) :
    Tree.eval leaves (.object members) = (evalMembers leaves members).map .object := by
  rw [Tree.eval]

theorem itemTexts_map {β : Type} (f : β → Tree Word N) (xs : List β) :
    itemTexts leaves (xs.map f) = xs.map fun x ↦ (f x).text leaves := by
  induction xs with
  | nil => rfl
  | cons x xs ih => rw [List.map_cons, List.map_cons, itemTexts, ih]

theorem evalItems_map {β : Type} {f : β → Tree Word N} {g : β → Tree Text ℚ} {xs : List β}
    (h : ∀ x ∈ xs, (f x).eval leaves = some (g x)) :
    evalItems leaves (xs.map f) = some (xs.map g) := by
  induction xs with
  | nil => rfl
  | cons x xs ih =>
      obtain ⟨hx, hxs⟩ := List.forall_mem_cons.mp h
      rw [List.map_cons, List.map_cons, evalItems, hx, ih hxs]
      rfl

@[simp] theorem isSome_eval_bool (b : Bool) : (Tree.eval leaves (.bool b)).isSome = true := rfl

@[simp] theorem isSome_eval_string (s : Word) : (Tree.eval leaves (.string s)).isSome = true := rfl

@[simp] theorem isSome_eval_array (items : List (Tree Word N)) :
    (Tree.eval leaves (.array items)).isSome = true ↔
      ∀ v ∈ items, (v.eval leaves).isSome = true := by
  rw [Tree.eval, Option.isSome_map]
  induction items with
  | nil => simp [evalItems]
  | cons v items ih =>
      rw [evalItems, List.forall_mem_cons, ← ih]
      cases v.eval leaves <;> simp

@[simp] theorem isSome_eval_object (members : List (Word × Tree Word N)) :
    (Tree.eval leaves (.object members)).isSome = true ↔
      ∀ m ∈ members, (m.2.eval leaves).isSome = true := by
  rw [Tree.eval, Option.isSome_map]
  induction members with
  | nil => simp [evalMembers]
  | cons m members ih =>
      rw [evalMembers, List.forall_mem_cons, ← ih]
      cases m.2.eval leaves <;> simp

mutual

def Tree.size : Tree Word N → ℕ
  | .null | .bool _ | .number _ | .string _ => 1
  | .array items => sizeItems items + 1
  | .object members => sizeMembers members + 1

def sizeItems : List (Tree Word N) → ℕ
  | [] => 0
  | v :: vs => v.size + sizeItems vs + 1

def sizeMembers : List (Word × Tree Word N) → ℕ
  | [] => 0
  | (_, v) :: ms => v.size + sizeMembers ms + 1

end

/-! ## Reading what is written -/

theorem readRaw_word (s : Word) (rest : Text) :
    readRaw (s.text ++ '"' :: rest) = some (s.text, rest) := by
  have hs := fun c hc ↦ s.isLiteral_of_mem (c := c) hc
  generalize s.text = t at hs ⊢
  induction t with
  | nil =>
      rw [List.nil_append, readRaw.eq_def]
      rfl
  | cons c t ih =>
      obtain ⟨hquote, hslash, -⟩ := hs c List.mem_cons_self
      have htail := ih fun d hd ↦ hs d (List.mem_cons_of_mem c hd)
      rw [List.cons_append, readRaw.eq_def]
      simp only [hquote, hslash, if_false, htail, Option.map_some]

theorem isSome_meaning_word (s : Word) : (meaning s.text).isSome = true := by
  have hs := fun c hc ↦ s.isLiteral_of_mem (c := c) hc
  generalize s.text = t at hs ⊢
  induction t with
  | nil => simp [meaning]
  | cons c t ih =>
      obtain ⟨hquote, hslash, hcontrol⟩ := hs c List.mem_cons_self
      have htail := ih fun d hd ↦ hs d (List.mem_cons_of_mem c hd)
      rw [meaning.eq_def]
      simp only [hquote, hslash, if_false, not_lt.mpr hcontrol, or_self, Option.isSome_map, htail]

theorem readString_word (s : Word) (rest : Text) :
    readString (s.text ++ '"' :: rest) = some (s.text, rest) := by
  rw [readString, readRaw_word, Option.filter_some, if_pos (isSome_meaning_word s)]

theorem skip_cons {c : Char} (h : isSpace c = false) (t : Text) : skip (c :: t) = c :: t :=
  List.dropWhile_cons_of_neg (by simp [h])

def Stops (rest : Text) : Prop := ∀ c ∈ rest.head?, isBare c = false

theorem stops_cons {c : Char} (h : isBare c = false) (rest : Text) : Stops (c :: rest) := by
  intro d hd
  obtain rfl : c = d := by simpa using hd
  exact h

theorem not_special_of_isBare {c : Char} (h : isBare c = true) :
    isSpace c = false ∧ c ≠ '"' ∧ c ≠ '[' ∧ c ≠ '\x7b' := by
  refine ⟨?_, ?_, ?_, ?_⟩
  · rw [Bool.eq_false_iff]
    intro hspace
    simp only [isSpace, Bool.or_eq_true, decide_eq_true_eq] at hspace
    rcases hspace with ((rfl | rfl) | rfl) | rfl <;> exact absurd h (by decide)
  all_goals
    rintro rfl
    exact absurd h (by decide)

/-- A number or a literal is read up to the first other character. -/
theorem readValue_bare {t rest : Text} (hne : t ≠ []) (ht : ∀ c ∈ t, isBare c = true)
    (hrest : Stops rest) (n : ℕ) :
    readValue (n + 1) (t ++ rest) = (readBare t).map fun v ↦ (v, rest) := by
  obtain ⟨c, cs, rfl⟩ := List.exists_cons_of_ne_nil hne
  obtain ⟨hspace, hquote, hbracket, hbrace⟩ := not_special_of_isBare (ht c List.mem_cons_self)
  have htail : rest.takeWhile isBare = [] ∧ rest.dropWhile isBare = rest := by
    cases rest with
    | nil => exact ⟨rfl, rfl⟩
    | cons d ds =>
        have hd : isBare d = false := hrest d rfl
        simp [hd]
  have htake : (c :: (cs ++ rest)).takeWhile isBare = c :: cs := by
    rw [← List.cons_append, List.takeWhile_append_of_pos ht, htail.1, List.append_nil]
  have hdrop : (c :: (cs ++ rest)).dropWhile isBare = rest := by
    rw [← List.cons_append, List.dropWhile_append_of_pos ht, htail.2]
  rw [readValue, List.cons_append, skip_cons hspace]
  simp only [hquote, hbracket, hbrace, if_false, htake, hdrop]

/-- A member is read before its value is, and what stands behind the value says
whether others follow. -/
theorem readMembers_member {n : ℕ} (k : Word) {t rest : Text} {c : Char}
    {v? : Option (Tree Text ℚ)} (hc : isSpace c = false)
    (hvalue : readValue n (t ++ c :: rest) = v?.map fun v ↦ (v, c :: rest)) :
    readMembers (n + 1) (member k.text t ++ c :: rest) =
      v?.bind fun v ↦
        if c = ',' then (readMembers n rest).map fun p ↦ ((k.text, v) :: p.1, p.2)
        else if c = '\x7d' then some ([(k.text, v)], rest)
        else none := by
  have hquote : isSpace '"' = false := by decide
  have hcolon : isSpace ':' = false := by decide
  rw [member, quoted, readMembers]
  simp only [List.cons_append, List.append_assoc, List.nil_append]
  rw [skip_cons hquote]
  simp only [List.head?_cons, if_true, List.tail_cons, readString_word, Option.bind_eq_bind,
    Option.bind_some, skip_cons hcolon, hvalue]
  cases v? with
  | none => rfl
  | some v => simp only [Option.map_some, Option.bind_some, skip_cons hc]

theorem intercalate_cons_append (t : Text) (ts : List Text) (rest : Text) :
    List.intercalate [','] (t :: ts) ++ rest =
      t ++ (if ts = [] then rest else ',' :: (List.intercalate [','] ts ++ rest)) := by
  cases ts with
  | nil => simp
  | cons u us => simp [List.intercalate_cons_cons]

/-- Behind its opening brace an object with members does not close. -/
theorem readValue_object {n : ℕ} {texts : List Text} {rest : Text}
    {ms? : Option (List (Text × Tree Text ℚ))}
    (hopen : (skip (List.intercalate [','] texts ++ '\x7d' :: rest)).head? ≠ some '\x7d')
    (hms : readMembers n (List.intercalate [','] texts ++ '\x7d' :: rest) =
      ms?.map fun ms ↦ (ms, rest)) :
    readValue (n + 1) (object texts ++ rest) = ms?.map fun ms ↦ (.object ms, rest) := by
  have hbrace : isSpace '\x7b' = false := by decide
  have hquote : '\x7b' ≠ '"' := by decide
  have hbracket : '\x7b' ≠ '[' := by decide
  rw [Json.object, readValue, List.cons_append, skip_cons hbrace, List.append_assoc,
    List.singleton_append]
  simp only [hquote, hbracket, if_false, if_true]
  rw [if_neg hopen, hms, Option.map_map]
  rfl

/-- A value starts with a character that is neither white space nor closes an
array. -/
theorem exists_head_text (v : Tree Word N) :
    ∃ c cs, v.text leaves = c :: cs ∧ isSpace c = false ∧ c ≠ ']' := by
  cases v with
  | null => exact ⟨'n', _, rfl, by decide, by decide⟩
  | bool b =>
      cases b
      · exact ⟨'f', _, rfl, by decide, by decide⟩
      · exact ⟨'t', _, rfl, by decide, by decide⟩
  | number x =>
      obtain ⟨c, cs, hcs⟩ := List.exists_cons_of_ne_nil (leaves.ne_nil x)
      have hc := leaves.isBare_of_mem x c (by simp [hcs])
      refine ⟨c, cs, hcs, (not_special_of_isBare hc).1, ?_⟩
      rintro rfl
      exact absurd hc (by decide)
  | string s => exact ⟨'"', _, rfl, by decide, by decide⟩
  | array items => exact ⟨'[', _, rfl, by decide, by decide⟩
  | object members => exact ⟨'\x7b', _, rfl, by decide, by decide⟩

theorem head_itemTexts (v : Tree Word N) (vs : List (Tree Word N)) (rest : Text) :
    (skip (List.intercalate [','] (itemTexts leaves (v :: vs)) ++ rest)).head? ≠ some ']' := by
  obtain ⟨c, cs, hcs, hc, hclose⟩ := exists_head_text leaves v
  rw [itemTexts, intercalate_cons_append, hcs, List.cons_append, skip_cons hc]
  simpa using hclose

theorem head_memberTexts (k : Word) (v : Tree Word N) (ms : List (Word × Tree Word N))
    (rest : Text) :
    (skip (List.intercalate [','] (memberTexts leaves ((k, v) :: ms)) ++ rest)).head? ≠
      some '\x7d' := by
  have hspace : isSpace '"' = false := by decide
  rw [memberTexts, intercalate_cons_append, member, quoted]
  simp only [List.cons_append]
  rw [skip_cons hspace]
  simp

theorem itemTexts_eq_nil_iff (vs : List (Tree Word N)) : itemTexts leaves vs = [] ↔ vs = [] := by
  cases vs <;> simp [itemTexts]

theorem memberTexts_eq_nil_iff (ms : List (Word × Tree Word N)) :
    memberTexts leaves ms = [] ↔ ms = [] := by
  cases ms <;> simp [memberTexts]

mutual

/-- What is written of a tree is read as the tree. -/
theorem readValue_text (v : Tree Word N) {n : ℕ} (hn : v.size ≤ n) {rest : Text}
    (hrest : Stops rest) :
    readValue n (v.text leaves ++ rest) = (v.eval leaves).map fun v ↦ (v, rest) := by
  obtain ⟨n, rfl⟩ : ∃ m, n = m + 1 := Nat.exists_eq_succ_of_ne_zero (by
    cases v <;> simp only [Tree.size] at hn <;> omega)
  cases v with
  | null =>
      exact readValue_bare (by decide : "null".toList ≠ []) (List.all_eq_true.mp rfl) hrest n
  | bool b =>
      cases b
      · exact readValue_bare (by decide : "false".toList ≠ []) (List.all_eq_true.mp rfl) hrest n
      · exact readValue_bare (by decide : "true".toList ≠ []) (List.all_eq_true.mp rfl) hrest n
  | number x =>
      rw [Tree.text, Tree.eval,
        readValue_bare (leaves.ne_nil x) (leaves.isBare_of_mem x) hrest, leaves.readBare_text]
  | string s =>
      have hopen : isSpace '"' = false := by decide
      rw [Tree.text, Tree.eval, quoted, readValue, List.cons_append, skip_cons hopen,
        List.append_assoc, List.singleton_append]
      simp [readString_word]
  | array items =>
      have hopen : isSpace '[' = false := by decide
      have hquote : '[' ≠ '"' := by decide
      rw [Tree.size] at hn
      rw [Tree.text, Tree.eval, Json.array, readValue, List.cons_append, skip_cons hopen,
        List.append_assoc, List.singleton_append]
      simp only [hquote, if_false, if_true]
      by_cases hnil : items = []
      · subst hnil
        rfl
      · obtain ⟨v, vs, rfl⟩ := List.exists_cons_of_ne_nil hnil
        rw [if_neg (head_itemTexts leaves v vs _), readItems_texts (v :: vs) (by omega) hnil]
        simp [Function.comp_def]
  | object members =>
      rw [Tree.size] at hn
      rw [Tree.text, Tree.eval]
      by_cases hnil : members = []
      · subst hnil
        rfl
      · obtain ⟨⟨k, v⟩, ms, rfl⟩ := List.exists_cons_of_ne_nil hnil
        rw [readValue_object (head_memberTexts leaves k v ms _)
          (readMembers_texts ((k, v) :: ms) (by omega) hnil rest), Option.map_map]
        rfl

theorem readItems_texts (vs : List (Tree Word N)) {n : ℕ} (hn : sizeItems vs ≤ n) (hne : vs ≠ [])
    (rest : Text) :
    readItems n (List.intercalate [','] (itemTexts leaves vs) ++ ']' :: rest) =
      (evalItems leaves vs).map fun vs ↦ (vs, rest) := by
  cases vs with
  | nil => exact absurd rfl hne
  | cons v vs =>
      rw [sizeItems] at hn
      obtain ⟨n, rfl⟩ : ∃ m, n = m + 1 := Nat.exists_eq_succ_of_ne_zero (by omega)
      rw [itemTexts, intercalate_cons_append, evalItems]
      by_cases hnil : vs = []
      · subst hnil
        have hclose : isSpace ']' = false := by decide
        rw [if_pos ((itemTexts_eq_nil_iff leaves []).mpr rfl), readItems,
          readValue_text v (by omega) (stops_cons (by decide) rest)]
        cases v.eval leaves with
        | none => rfl
        | some x => simp [skip_cons hclose, evalItems]
      · have hcomma : isSpace ',' = false := by decide
        rw [if_neg (mt (itemTexts_eq_nil_iff leaves vs).mp hnil), readItems,
          readValue_text v (by omega) (stops_cons (by decide) _)]
        cases v.eval leaves with
        | none => rfl
        | some x =>
            have hrest := readItems_texts vs (n := n) (by omega) hnil rest
            simp [skip_cons hcomma, hrest, Function.comp_def]

theorem readMembers_texts (ms : List (Word × Tree Word N)) {n : ℕ} (hn : sizeMembers ms ≤ n)
    (hne : ms ≠ []) (rest : Text) :
    readMembers n (List.intercalate [','] (memberTexts leaves ms) ++ '\x7d' :: rest) =
      (evalMembers leaves ms).map fun ms ↦ (ms, rest) := by
  cases ms with
  | nil => exact absurd rfl hne
  | cons m ms =>
      obtain ⟨k, v⟩ := m
      rw [sizeMembers] at hn
      obtain ⟨n, rfl⟩ : ∃ m, n = m + 1 := Nat.exists_eq_succ_of_ne_zero (by omega)
      rw [memberTexts, intercalate_cons_append, evalMembers]
      by_cases hnil : ms = []
      · subst hnil
        have hvalue := readValue_text v (n := n) (by omega)
          (stops_cons (by decide : isBare '\x7d' = false) rest)
        rw [if_pos ((memberTexts_eq_nil_iff leaves []).mpr rfl),
          readMembers_member k (by decide) hvalue]
        cases v.eval leaves with
        | none => rfl
        | some x => simp [evalMembers]
      · have hvalue := readValue_text v (n := n) (by omega)
          (stops_cons (by decide : isBare ',' = false)
            (List.intercalate [','] (memberTexts leaves ms) ++ '\x7d' :: rest))
        rw [if_neg (mt (memberTexts_eq_nil_iff leaves ms).mp hnil),
          readMembers_member k (by decide) hvalue]
        cases v.eval leaves with
        | none => rfl
        | some x =>
            have hrest := readMembers_texts ms (n := n) (by omega) hnil rest
            simp [hrest, Function.comp_def]

end

theorem length_intercalate_cons (t : Text) (ts : List Text) :
    (List.intercalate [','] (t :: ts)).length + 1 =
      t.length + 1 + if ts = [] then 0 else (List.intercalate [','] ts).length + 1 := by
  cases ts with
  | nil => simp
  | cons u us =>
      rw [List.intercalate_cons_cons, if_neg (List.cons_ne_nil u us)]
      simp
      omega

mutual

/-- A text is long enough for the fuel that its tree takes. -/
theorem size_le_length (v : Tree Word N) : v.size ≤ (v.text leaves).length := by
  cases v with
  | null => exact (by decide : 1 ≤ "null".toList.length)
  | bool b =>
      cases b
      · exact (by decide : 1 ≤ "false".toList.length)
      · exact (by decide : 1 ≤ "true".toList.length)
  | number x =>
      rw [Tree.size, Tree.text]
      exact List.length_pos_iff.mpr (leaves.ne_nil x)
  | string s => simp [Tree.size, Tree.text, quoted]
  | array items =>
      have hitems := sizeItems_le_length items
      simp only [Tree.size, Tree.text, Json.array, List.length_cons, List.length_append,
        List.length_nil]
      omega
  | object members =>
      have hmembers := sizeMembers_le_length members
      simp only [Tree.size, Tree.text, Json.object, List.length_cons, List.length_append,
        List.length_nil]
      omega

theorem sizeItems_le_length (vs : List (Tree Word N)) :
    sizeItems vs ≤ (List.intercalate [','] (itemTexts leaves vs)).length + 1 := by
  cases vs with
  | nil => simp [sizeItems]
  | cons v vs =>
      have hvalue := size_le_length v
      have hrest := sizeItems_le_length vs
      rw [sizeItems, itemTexts, length_intercalate_cons]
      by_cases hnil : vs = []
      · subst hnil
        simp only [sizeItems]
        omega
      · rw [if_neg (mt (itemTexts_eq_nil_iff leaves vs).mp hnil)]
        omega

theorem sizeMembers_le_length (ms : List (Word × Tree Word N)) :
    sizeMembers ms ≤ (List.intercalate [','] (memberTexts leaves ms)).length + 1 := by
  cases ms with
  | nil => simp [sizeMembers]
  | cons m ms =>
      obtain ⟨k, v⟩ := m
      have hvalue := size_le_length v
      have hrest := sizeMembers_le_length ms
      have hlength : (v.text leaves).length ≤ (member k.text (v.text leaves)).length := by
        simp only [member, List.length_append, List.length_cons]
        omega
      rw [sizeMembers, memberTexts, length_intercalate_cons]
      by_cases hnil : ms = []
      · subst hnil
        simp only [sizeMembers]
        omega
      · rw [if_neg (mt (memberTexts_eq_nil_iff leaves ms).mp hnil)]
        omega

end

/-- Reading undoes writing, up to what the numbers are written as. -/
theorem read_text (v : Tree Word N) : read (v.text leaves) = v.eval leaves := by
  have hfuel := size_le_length leaves v
  have hstops : Stops [] := fun c hc ↦ by cases hc
  have hread := readValue_text leaves v (Nat.le_succ_of_le hfuel) hstops
  rw [List.append_nil] at hread
  rw [read, hread]
  cases v.eval leaves <;> rfl

end FrogQuant.Json
