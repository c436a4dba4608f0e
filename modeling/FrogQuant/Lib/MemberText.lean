import FrogQuant.Lib.JsonTree

/-!
# The text of a member

A reader that looks for a key with its colon in a flat object and takes what
stands behind it, a string in quotes or everything up to the next comma or
brace.  It finds the member of that key and no other.
-/

namespace FrogQuant.Json

/-- A value as it is written, a string without its quotes. -/
def FlatValue.bareText : FlatValue → Text
  | string t => t
  | v => v.text

def FlatObject.Holds (o : FlatObject) (key : Text) (v : FlatValue) : Prop := (key, v) ∈ o.members

/-- The text that the object holds under the key; nothing when the key is absent. -/
def FlatObject.textOf (o : FlatObject) (key : Text) : Text :=
  ((o.members.lookup key).map FlatValue.bareText).getD []

/-- What stands behind the first `"key":`, where `blank` characters are
skipped. -/
def extractText (blank : Char → Bool) (json key : Text) : Text :=
  let token := '"' :: (key ++ ['"', ':'])
  match json.find token 0 with
  | none => []
  | some pos =>
      let pos := pos + token.length
      let pos := pos + Text.spanLength blank json pos
      if json[pos]? = some '"' then
        let pos := pos + 1
        match json.find ['"'] pos with
        | none => []
        | some stop => json.substr pos (stop - pos)
      else
        match json.findFirstOf [',', '}'] pos with
        | none => []
        | some stop => json.substr pos (stop - pos)

/-! ## Members by their key -/

theorem lookup_of_mem {key : Text} {v : FlatValue} {ms : List (Text × FlatValue)}
    (hnodup : (ms.map Prod.fst).Nodup) (hmem : (key, v) ∈ ms) : ms.lookup key = some v := by
  obtain ⟨pre, post, rfl⟩ := List.append_of_mem hmem
  refine List.lookup_eq_some_iff.mpr ⟨pre, post, rfl, fun m hm ↦ ?_⟩
  rw [List.map_append, List.nodup_append] at hnodup
  exact bne_iff_ne.mpr
    (hnodup.2.2 m.1 (List.mem_map_of_mem hm) key (by simp)).symm

theorem mem_of_lookup {key : Text} {v : FlatValue} {ms : List (Text × FlatValue)}
    (h : ms.lookup key = some v) : (key, v) ∈ ms := by
  obtain ⟨pre, post, rfl, -⟩ := List.lookup_eq_some_iff.mp h
  simp

theorem FlatObject.textOf_of_holds (o : FlatObject) {key : Text} {v : FlatValue}
    (h : o.Holds key v) : o.textOf key = v.bareText := by
  rw [textOf, lookup_of_mem o.keys_nodup h]
  rfl

/-- What is not empty is the text of a member. -/
theorem FlatObject.textOf_eq_iff (o : FlatObject) {key t : Text} (ht : t ≠ []) :
    o.textOf key = t ↔ ∃ v, o.Holds key v ∧ v.bareText = t := by
  constructor
  · intro h
    cases hlookup : o.members.lookup key with
    | none =>
        rw [textOf, hlookup] at h
        exact absurd h.symm ht
    | some v =>
        rw [textOf, hlookup] at h
        exact ⟨v, mem_of_lookup hlookup, h⟩
  · rintro ⟨v, hmem, hv⟩
    rw [o.textOf_of_holds hmem, hv]

/-! ## Bare values -/

theorem isBare_of_mem_value {v : FlatValue} (hv : ∀ t, v ≠ .string t) {c : Char}
    (hc : c ∈ v.text) : isBare c = true := by
  cases v with
  | string t => exact absurd rfl (hv t)
  | number n => exact isBare_of_mem_text n hc
  | bool b =>
      cases b
      · exact List.all_eq_true.mp (by decide : ("false" : Text).all isBare = true) c hc
      · exact List.all_eq_true.mp (by decide : ("true" : Text).all isBare = true) c hc
  | null => exact List.all_eq_true.mp (by decide : ("null" : Text).all isBare = true) c hc

theorem value_ne_nil (v : FlatValue) : v.text ≠ [] := by
  cases v with
  | string t => exact List.cons_ne_nil _ _
  | number n => exact n.text_ne_nil
  | bool b => cases b <;> decide
  | null => decide

theorem bareText_of_not_string {v : FlatValue} (hv : ∀ t, v ≠ .string t) : v.bareText = v.text := by
  cases v with
  | string t => exact absurd rfl (hv t)
  | number n => rfl
  | bool b => rfl
  | null => rfl

theorem isSpace_of_isBare {c : Char} (h : isBare c = true) : Strtod.isSpace c = false := by
  rw [Bool.eq_false_iff]
  intro hspace
  simp only [Strtod.isSpace, Bool.or_eq_true, decide_eq_true_eq] at hspace
  rcases hspace with ((((rfl | rfl) | rfl) | rfl) | rfl) | rfl <;> exact absurd h (by decide)

/-- No value begins with white space. -/
theorem isSpace_head_value (v : FlatValue) {c : Char} {cs : Text} (h : v.text = c :: cs) :
    Strtod.isSpace c = false := by
  by_cases hv : ∃ t, v = .string t
  · obtain ⟨t, rfl⟩ := hv
    obtain rfl : '"' = c := (List.cons.inj h).1
    decide
  · exact isSpace_of_isBare (isBare_of_mem_value (not_exists.mp hv) (h ▸ List.mem_cons_self))

/-! ## Finding the member -/

section Search

variable {key : Text} (hne : key ≠ []) (halnum : ∀ c ∈ key, c.isAlphanum = true)

include halnum in
theorem notMem_key {c : Char} (hc : c.isAlphanum = false) : c ∉ key := by
  intro hmem
  rw [halnum c hmem] at hc
  cases hc

include hne halnum in
theorem head_key_ne {c : Char} (hc : c.isAlphanum = false) : (key ++ ['"']).head? ≠ some c := by
  obtain ⟨d, ds, rfl⟩ := List.exists_cons_of_ne_nil hne
  have hcd := notMem_key halnum hc
  intro heq
  obtain rfl : d = c := by simpa using heq
  exact hcd List.mem_cons_self

include hne halnum in
/-- A member of another key is passed over, whatever its value. -/
theorem passes_member {m : Text × FlatValue} (hm : Verbatim m.1)
    (hstring : ∀ t, m.2 = .string t → Verbatim t) (hkey : key ≠ m.1) {d : Char}
    (hd : d ∈ [',', '}']) (rest : Text) :
    Text.Passes (quoted key ++ [':']) (memberText m ++ [d]) rest := by
  have hquote : '"' ∉ key := notMem_key halnum (by decide)
  have hopen : ∀ {c : Char}, key = m.1 → c ≠ ':' := fun heq ↦ absurd heq hkey
  have hd' : d ≠ '"' ∧ d ≠ ':' ∧ d.isAlphanum = false := by
    rcases List.mem_pair.mp hd with rfl | rfl <;> decide
  have hname := fun t ↦ passes_key_quoted hquote hm.1 hopen
    (head_key_ne hne halnum (by decide : ':'.isAlphanum = false)) t
  have hpass : ∀ {pre : Text} (t : Text), '"' ∉ pre → Text.Passes (quoted key ++ [':']) pre t :=
    fun t hpre ↦ Text.passes_of_notMem _ t hpre
  obtain ⟨k, v⟩ := m
  by_cases hv : ∃ t, v = .string t
  · obtain ⟨t, rfl⟩ := hv
    have hcolon : '"' ∉ [':'] := by decide
    have hend : '"' ∉ [d] := by simpa using hd'.1.symm
    have hvalue := passes_key_quoted hquote (hstring t rfl).1 (fun _ ↦ hd'.2.1)
      (head_key_ne hne halnum hd'.2.2) rest
    have htail := (hpass _ hcolon).append (hvalue.append (hpass rest hend))
    simpa [memberText, member, FlatValue.text] using (hname _).append htail
  · have hbare := fun c ↦ isBare_of_mem_value (not_exists.mp hv) (c := c)
    have hend : '"' ∉ ':' :: (v.text ++ [d]) := by
      have hvalue : '"' ∉ v.text := fun hmem ↦ absurd (hbare _ hmem) (by decide)
      simp [hvalue, hd'.1.symm]
    simpa [memberText, member] using (hname _).append (hpass rest hend)

theorem exists_behind (ms : List (Text × FlatValue)) :
    ∃ d rest, d ∈ [',', '}'] ∧ behind ms ++ ['}'] = d :: rest := by
  cases ms with
  | nil => exact ⟨'}', [], by simp, rfl⟩
  | cons m ms => exact ⟨',', memberText m ++ (behind ms ++ ['}']), by simp, by simp⟩

theorem followsKey_head {m : Text × FlatValue} {ms : List (Text × FlatValue)} {v : FlatValue}
    (hkey : key = m.1) (h : (m :: ms).lookup key = some v) :
    ∃ d rest, d ∈ [',', '}'] ∧
      FollowsKey key (memberText m ++ (behind ms ++ ['}'])) (v.text ++ d :: rest) := by
  subst hkey
  obtain rfl := Option.some.inj (List.lookup_cons_self.symm.trans h)
  obtain ⟨d, rest, hd, hbehind⟩ := exists_behind ms
  refine ⟨d, rest, hd, ?_⟩
  rw [hbehind]
  simpa [memberText, member] using followsKey_self m.1 (m.2.text ++ d :: rest)

theorem lookup_tail {m : Text × FlatValue} {ms : List (Text × FlatValue)} (hkey : key ≠ m.1) :
    (m :: ms).lookup key = ms.lookup key := by
  rw [List.lookup_cons, beq_false_of_ne hkey]

section Members

variable {m₀ : Text × FlatValue} {ms : List (Text × FlatValue)}
  (hkeys : ∀ m ∈ m₀ :: ms, Verbatim m.1)
  (hstrings : ∀ m ∈ m₀ :: ms, ∀ t, m.2 = .string t → Verbatim t)

include hne halnum hkeys hstrings

/-- The search ends at the member that has the key. -/
theorem followsKey_of_lookup {v : FlatValue} (h : (m₀ :: ms).lookup key = some v) :
    ∃ d rest, d ∈ [',', '}'] ∧
      FollowsKey key (memberText m₀ ++ (behind ms ++ ['}'])) (v.text ++ d :: rest) := by
  induction ms generalizing m₀ with
  | nil =>
      by_cases hkey : key = m₀.1
      · exact followsKey_head hkey h
      · rw [lookup_tail hkey] at h
        cases h
  | cons m₁ ms ih =>
      by_cases hkey : key = m₀.1
      · exact followsKey_head hkey h
      · rw [lookup_tail hkey] at h
        have hpass := passes_member hne halnum (hkeys m₀ List.mem_cons_self)
          (hstrings m₀ List.mem_cons_self) hkey (by simp : ',' ∈ [',', '}'])
          (memberText m₁ ++ (behind ms ++ ['}']))
        obtain ⟨d, rest, hd, hfollows⟩ := ih (fun m hm ↦ hkeys m (List.mem_cons_of_mem m₀ hm))
          (fun m hm ↦ hstrings m (List.mem_cons_of_mem m₀ hm)) h
        exact ⟨d, rest, hd, by simpa using hfollows.append hpass⟩

/-- A key that no member has is not found. -/
theorem indexOf_key_of_lookup (h : (m₀ :: ms).lookup key = none) :
    Text.indexOf (quoted key ++ [':']) (memberText m₀ ++ (behind ms ++ ['}'])) = none := by
  have habsent := List.lookup_eq_none_iff.mp h
  clear h
  induction ms generalizing m₀ with
  | nil =>
      have hpass := passes_member hne halnum (hkeys m₀ List.mem_cons_self)
        (hstrings m₀ List.mem_cons_self) (bne_iff_ne.mp (habsent m₀ List.mem_cons_self))
        (by simp : '}' ∈ [',', '}']) []
      simpa [Text.Passes, Text.indexOf] using hpass
  | cons m₁ ms ih =>
      have hpass := passes_member hne halnum (hkeys m₀ List.mem_cons_self)
        (hstrings m₀ List.mem_cons_self) (bne_iff_ne.mp (habsent m₀ List.mem_cons_self))
        (by simp : ',' ∈ [',', '}']) (memberText m₁ ++ (behind ms ++ ['}']))
      have htail := ih (fun m hm ↦ hkeys m (List.mem_cons_of_mem m₀ hm))
        (fun m hm ↦ hstrings m (List.mem_cons_of_mem m₀ hm))
        (fun m hm ↦ habsent m (List.mem_cons_of_mem m₀ hm))
      rw [Text.Passes, htail] at hpass
      simpa using hpass

end Members

/-! ## Reading the value -/

variable {blank : Char → Bool} (hblank : ∀ c, blank c = true → Strtod.isSpace c = true)

theorem extractText_absent {json : Text} (h : Text.indexOf (quoted key ++ [':']) json = none) :
    extractText blank json key = [] := by
  have htoken : '"' :: (key ++ ['"', ':']) = quoted key ++ [':'] := by simp [quoted]
  simp only [extractText, htoken, Text.find_zero, h]

include hblank in
/-- Behind the key stands the value and something that ends it. -/
theorem extractText_of_followsKey {json rest : Text} {v : FlatValue} {d : Char}
    (hd : d ∈ [',', '}']) (hstring : ∀ t, v = .string t → Verbatim t)
    (h : FollowsKey key json (v.text ++ d :: rest)) : extractText blank json key = v.bareText := by
  have htoken : '"' :: (key ++ ['"', ':']) = quoted key ++ [':'] := by simp [quoted]
  obtain ⟨n, hn, hdrop⟩ := h
  set pos := n + (quoted key ++ [':']).length with hpos
  obtain ⟨c, cs, hc⟩ := List.exists_cons_of_ne_nil (value_ne_nil v)
  have hspan : Text.spanLength blank json pos = 0 := by
    apply Text.spanLength_eq_zero
    intro e he
    obtain rfl : c = e := by simpa [hdrop, hc] using he
    exact Bool.eq_false_iff.mpr fun hspace ↦
      absurd (hblank c hspace) (by simp [isSpace_head_value v hc])
  have hhead : json[pos]? = some c := by
    rw [← List.head?_drop, hdrop, hc]
    rfl
  simp only [extractText, htoken, Text.find_zero, hn, ← hpos, hspan, Nat.add_zero, hhead]
  by_cases hv : ∃ t, v = .string t
  · obtain ⟨t, rfl⟩ := hv
    obtain ⟨rfl, rfl⟩ : '"' = c ∧ t ++ ['"'] = cs := by simpa [FlatValue.text, quoted] using hc
    have hbehind : json.drop (pos + 1) = t ++ '"' :: d :: rest := by
      rw [← List.drop_drop, hdrop]
      simp [FlatValue.text, quoted]
    simp only [if_true, Text.find_singleton hbehind (hstring t rfl).1]
    simp [Text.substr, hbehind, FlatValue.bareText]
  · have hbare := fun e ↦ isBare_of_mem_value (not_exists.mp hv) (c := e)
    have hquote : some c ≠ some '"' := by
      rintro ⟨⟩
      exact absurd (hbare '"' (hc ▸ List.mem_cons_self)) (by decide)
    have hstop : ∀ e ∈ v.text, e ∉ [',', '}'] := by
      intro e he hmem
      rcases List.mem_pair.mp hmem with rfl | rfl <;> exact absurd (hbare _ he) (by decide)
    simp only [if_neg hquote, Text.findFirstOf_append hdrop hstop hd]
    rw [bareText_of_not_string (not_exists.mp hv)]
    simp [Text.substr, hdrop]

include hne halnum hblank in
/-- A reader that skips white space finds exactly what the object holds. -/
theorem extractText_eq (o : FlatObject) : extractText blank o.text key = o.textOf key := by
  have hbrace : '"' ∉ ['\x7b'] := by decide
  cases hmembers : o.members with
  | nil =>
      have hempty : o.text = ['\x7b', '\x7d'] := by simp [FlatObject.text, object, hmembers]
      have hquote : '"' ∉ ['\x7b', '\x7d'] := by decide
      rw [extractText_absent (hempty ▸ Text.indexOf_of_notMem _ hquote), FlatObject.textOf,
        hmembers]
      rfl
  | cons m₀ ms =>
      have hkeys : ∀ m ∈ m₀ :: ms, Verbatim m.1 := fun m hm ↦ o.verbatim_keys m (hmembers ▸ hm)
      have hstrings : ∀ m ∈ m₀ :: ms, ∀ t, m.2 = .string t → Verbatim t :=
        fun m hm ↦ o.verbatim_strings m (hmembers ▸ hm)
      rw [o.text_cons hmembers, FlatObject.textOf, hmembers]
      cases hlookup : (m₀ :: ms).lookup key with
      | none =>
          have habsent := indexOf_key_of_lookup hne halnum hkeys hstrings hlookup
          have hpass := Text.passes_of_notMem (key ++ ['"'] ++ [':'])
            (memberText m₀ ++ (behind ms ++ ['\x7d'])) hbrace
          rw [Text.Passes] at hpass
          exact extractText_absent (hpass.trans (congrArg (Option.map _) habsent))
      | some v =>
          obtain ⟨d, rest, hd, hfollows⟩ := followsKey_of_lookup hne halnum hkeys hstrings hlookup
          exact extractText_of_followsKey hblank hd (hstrings _ (mem_of_lookup hlookup))
            (hfollows.pass hbrace)

end Search

end FrogQuant.Json
