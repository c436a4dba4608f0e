import FrogQuant.App.Bootstrap
import Mathlib.Data.List.DropRight

/-!
# Configuration texts

A configuration is a list of items, one to a line.  What `parse_simple_yaml`
reads from a line with a key depends on the text behind the first colon: a
blank one makes the line a section header.
-/

namespace FrogQuant.App

open Strtod (isSpace)

/-! ## Trimming -/

theorem trim_eq_rdropWhile (t : Text) : trim t = (t.dropWhile isSpace).rdropWhile isSpace := rfl

/-- Neither end of the text is blank. -/
structure Trimmed (t : Text) : Prop where
  first : ∀ c ∈ t.head?, isSpace c = false
  last : ∀ c ∈ t.getLast?, isSpace c = false

theorem dropWhile_isSpace {t : Text} (h : ∀ c ∈ t.head?, isSpace c = false) :
    t.dropWhile isSpace = t := by
  cases t with
  | nil => rfl
  | cons c t => rw [List.dropWhile_cons, h c rfl, if_neg Bool.false_ne_true]

theorem rdropWhile_isSpace {t : Text} (h : ∀ c ∈ t.getLast?, isSpace c = false) :
    t.rdropWhile isSpace = t := by
  refine List.rdropWhile_eq_self_iff.mpr fun hne ↦ ?_
  rw [h _ (List.getLast?_eq_some_getLast hne)]
  exact Bool.false_ne_true

theorem Trimmed.trim_eq {t : Text} (h : Trimmed t) : trim t = t := by
  rw [trim_eq_rdropWhile, dropWhile_isSpace h.first, rdropWhile_isSpace h.last]

theorem trim_blank_append {ws : Text} (h : ∀ c ∈ ws, isSpace c = true) (t : Text) :
    trim (ws ++ t) = trim t := by
  rw [trim_eq_rdropWhile, List.dropWhile_append_of_pos h, trim_eq_rdropWhile]

theorem trim_of_blank {ws : Text} (h : ∀ c ∈ ws, isSpace c = true) : trim ws = [] := by
  rw [← List.append_nil ws, trim_blank_append h]
  rfl

theorem rdropWhile_cons {c : Char} (hc : isSpace c = false) (t : Text) :
    (c :: t).rdropWhile isSpace = c :: t.rdropWhile isSpace := by
  have hstop : isSpace c = false := hc
  rw [List.rdropWhile, List.reverse_cons, Text.dropWhile_append_stop hstop, List.reverse_append]
  rfl

theorem trim_cons {c : Char} (hc : isSpace c = false) (t : Text) :
    trim (c :: t) = c :: t.rdropWhile isSpace := by
  rw [trim_eq_rdropWhile, List.dropWhile_cons, hc, if_neg Bool.false_ne_true, rdropWhile_cons hc]

theorem rdropWhile_append {front : Text} (c : Char) (hc : isSpace c = false) (t : Text) :
    (front ++ c :: t).rdropWhile isSpace = front ++ c :: t.rdropWhile isSpace := by
  have hstop : isSpace c = false := hc
  rw [List.rdropWhile, List.reverse_append, List.reverse_cons, List.append_assoc,
    List.singleton_append, Text.dropWhile_append_stop hstop, List.reverse_append,
    List.reverse_cons, List.reverse_reverse, List.append_assoc]
  rfl

/-- The two ends of a text are trimmed in either order. -/
theorem dropWhile_rdropWhile (t : Text) :
    (t.rdropWhile isSpace).dropWhile isSpace = (t.dropWhile isSpace).rdropWhile isSpace := by
  by_cases hblank : ∀ c ∈ t, isSpace c = true
  · rw [List.rdropWhile_eq_nil_iff.mpr hblank, List.dropWhile_eq_nil_iff.mpr hblank]
    rfl
  · obtain ⟨ws, c, rest, rfl, hws, hc⟩ : ∃ ws c rest, t = ws ++ c :: rest ∧
        (∀ d ∈ ws, isSpace d = true) ∧ isSpace c = false := by
      refine ⟨t.takeWhile isSpace, ?_⟩
      have hne : t.dropWhile isSpace ≠ [] := by simpa using hblank
      obtain ⟨c, rest, hdrop⟩ := List.exists_cons_of_ne_nil hne
      refine ⟨c, rest, ?_, fun d hd ↦ List.mem_takeWhile_imp hd, ?_⟩
      · rw [← hdrop, List.takeWhile_append_dropWhile]
      · have hhead := List.head?_dropWhile_not isSpace t
        simpa [hdrop] using hhead
    rw [rdropWhile_append c hc, List.dropWhile_append_of_pos hws, List.dropWhile_append_of_pos hws,
      List.dropWhile_cons, List.dropWhile_cons, hc, if_neg Bool.false_ne_true,
      if_neg Bool.false_ne_true, rdropWhile_cons hc]

theorem trim_rdropWhile (t : Text) : trim (t.rdropWhile isSpace) = trim t := by
  rw [trim_eq_rdropWhile, dropWhile_rdropWhile, List.rdropWhile_idempotent, trim_eq_rdropWhile]

/-! ## Lines -/

/-- A name of a section or of a setting. -/
structure YamlName where
  text : Text
  nonempty : text ≠ []
  plain : ∀ c ∈ text, isSpace c = false ∧ c ≠ ':'
  not_comment : text.head? ≠ some '#'

namespace YamlName

variable (name : YamlName)

theorem trimmed : Trimmed name.text where
  first c hc := (name.plain c (List.mem_of_mem_head? hc)).1
  last c hc := (name.plain c (List.mem_of_mem_getLast? hc)).1

theorem notMem_colon : ':' ∉ name.text := fun h ↦ (name.plain ':' h).2 rfl

theorem notMem_newline : '\n' ∉ name.text := fun h ↦ absurd (name.plain '\n' h).1 (by decide)

/-- The trimmed line of a name with a text behind its colon. -/
theorem trim_line (t : Text) :
    trim (name.text ++ ':' :: t) = name.text ++ ':' :: t.rdropWhile isSpace := by
  obtain ⟨c, rest, htext⟩ := List.exists_cons_of_ne_nil name.nonempty
  have hc : isSpace c = false := (name.plain c (by simp [htext])).1
  rw [htext, List.cons_append, trim_cons hc, rdropWhile_append ':' (by decide), List.cons_append]

end YamlName

/-- The name under which a setting is kept. -/
def settingName (sectionName : Text) (indented : Bool) (key : Text) : Text :=
  if indented = true ∧ sectionName ≠ [] then sectionName ++ '.' :: key else key

def indentation (indented : Bool) : Text := if indented then "  " else []

namespace YamlReader

variable (r : YamlReader)

theorem readLine_of_blank {line : Text} (h : ∀ c ∈ line, isSpace c = true) :
    r.readLine line = r := by
  rw [readLine, trim_of_blank h]
  exact if_pos (Or.inl rfl)

theorem readLine_of_comment {indent : Text} (h : ∀ c ∈ indent, isSpace c = true) (text : Text) :
    r.readLine (indent ++ '#' :: text) = r := by
  rw [readLine, trim_blank_append h, trim_cons (by decide)]
  exact if_pos (Or.inr rfl)

/-- A line with a name and a colon: what stands behind the colon decides what
the line is. -/
theorem readLine_name (indented : Bool) (name : YamlName) (t : Text) :
    r.readLine (indentation indented ++ name.text ++ ':' :: t) =
      if trim t = [] then { r with sectionName := name.text }
      else
        { r with
          kv :=
            r.kv.insert (settingName r.sectionName indented name.text) (unquote (trim t)) } := by
  obtain ⟨c, rest, htext⟩ := List.exists_cons_of_ne_nil name.nonempty
  have hblank : ∀ d ∈ indentation indented, isSpace d = true :=
    List.all_eq_true.mp (by cases indented <;> rfl)
  have htrim : trim (indentation indented ++ name.text ++ ':' :: t) =
      name.text ++ ':' :: t.rdropWhile isSpace := by
    rw [List.append_assoc, trim_blank_append hblank, name.trim_line]
  have hhead : (name.text ++ ':' :: t.rdropWhile isSpace).head? ≠ some '#' := by
    have hname := name.not_comment
    simpa [htext] using hname
  have hfind : Text.find (name.text ++ ':' :: t.rdropWhile isSpace) [':'] 0 =
      some name.text.length := by
    rw [Text.find_zero, Text.indexOf_singleton _ name.notMem_colon]
  have hkey : trim (Text.substr (name.text ++ ':' :: t.rdropWhile isSpace) 0 name.text.length) =
      name.text := by
    rw [Text.substr, List.drop_zero, List.take_left, name.trimmed.trim_eq]
  have hval : (name.text ++ ':' :: t.rdropWhile isSpace).drop (name.text.length + 1) =
      t.rdropWhile isSpace := by
    rw [List.drop_length_add_append]
    rfl
  have hindent : "  ".toList.isPrefixOf (indentation indented ++ name.text ++ ':' :: t) =
      indented := by
    cases indented with
    | true => rfl
    | false =>
        have hc : c ≠ ' ' := by
          rintro rfl
          exact absurd (name.plain ' ' (by simp [htext])).1 (by decide)
        have hhead : (' ' == c) = false := beq_eq_false_iff_ne.mpr hc.symm
        simp [indentation, htext, List.isPrefixOf, hhead]
  have hne : ¬ (name.text ++ ':' :: t.rdropWhile isSpace = [] ∨
      (name.text ++ ':' :: t.rdropWhile isSpace).head? = some '#') := by
    simpa [name.nonempty] using hhead
  rw [readLine]
  simp only [htrim, if_neg hne, hfind, hkey, hval, trim_rdropWhile, hindent]
  rw [settingName]
  split_ifs <;> simp_all

end YamlReader

/-! ## Documents -/

def isQuote (c : Char) : Bool := c = '"' || c = '\x27'

/-- The value of a setting as a document writes it: a bare text, or any text
between two equal quotation marks. -/
inductive YamlValue where
  | bare (text : Text) (nonempty : text ≠ []) (trimmed : Trimmed text) (oneLine : '\n' ∉ text)
      (unquoted : ∀ c ∈ text.head?, isQuote c = false)
  | quotedBy (q : Char) (mark : isQuote q = true) (text : Text) (oneLine : '\n' ∉ text)

namespace YamlValue

def text : YamlValue → Text
  | bare text .. => text
  | quotedBy _ _ text _ => text

def written : YamlValue → Text
  | bare text .. => text
  | quotedBy q _ text _ => q :: (text ++ [q])

variable (v : YamlValue)

theorem written_ne_nil : v.written ≠ [] := by
  cases v with
  | bare text nonempty => exact nonempty
  | quotedBy q mark text oneLine => exact List.cons_ne_nil _ _

theorem trimmed_written : Trimmed v.written := by
  cases v with
  | bare text nonempty trimmed => exact trimmed
  | quotedBy q mark text oneLine =>
      have hq : isSpace q = false := by
        simp only [isQuote, Bool.or_eq_true, decide_eq_true_eq] at mark
        rcases mark with rfl | rfl <;> decide
      constructor
      · simp [written, hq]
      · simp [written, hq, List.getLast?_cons]

theorem unquote_written : unquote v.written = v.text := by
  cases v with
  | bare text nonempty trimmed oneLine unquoted =>
      apply if_neg
      rintro (hq | hq) <;> exact absurd (unquoted _ hq) (by decide)
  | quotedBy q mark text oneLine =>
      have hmark : (q :: (text ++ [q])).head? = some '"' ∨
          (q :: (text ++ [q])).head? = some '\x27' := by
        simpa [isQuote] using mark
      rw [written, unquote, if_pos hmark]
      simp [Text.substr, YamlValue.text]

theorem notMem_newline_written : '\n' ∉ v.written := by
  cases v with
  | bare text nonempty trimmed oneLine => exact oneLine
  | quotedBy q mark text oneLine =>
      have hq : '\n' ≠ q := by
        rintro rfl
        exact absurd mark (by decide)
      simp [written, oneLine, hq]

end YamlValue

/-- Blanks that stay on their line. -/
def BlankLine (ws : Text) : Prop := (∀ c ∈ ws, isSpace c = true) ∧ '\n' ∉ ws

/-- The items of a document, one to a line. -/
inductive YamlItem where
  | blank (ws : Text) (hws : BlankLine ws)
  | comment (indent text : Text) (hindent : BlankLine indent) (oneLine : '\n' ∉ text)
  | header (name : YamlName)
  | entry (indented : Bool) (key : YamlName) (value : YamlValue)

def YamlItem.line : YamlItem → Text
  | blank ws _ => ws
  | comment indent text _ _ => indent ++ '#' :: text
  | header name => name.text ++ [':']
  | entry indented key value => indentation indented ++ key.text ++ ": ".toList ++ value.written

def render (doc : List YamlItem) : Text := (doc.map YamlItem.line).flatMap (· ++ ['\n'])

/-- What a document binds, in its order: a header opens a section for the
indented entries below it. -/
def bindings : Text → List YamlItem → List (Text × Text)
  | _, [] => []
  | _, .header name :: doc => bindings name.text doc
  | sectionName, .entry indented key value :: doc =>
      (settingName sectionName indented key.text, value.text) :: bindings sectionName doc
  | sectionName, .blank _ _ :: doc => bindings sectionName doc
  | sectionName, .comment _ _ _ _ :: doc => bindings sectionName doc

/-- The section that is open behind a document. -/
def sectionAfter : Text → List YamlItem → Text
  | sectionName, [] => sectionName
  | _, .header name :: doc => sectionAfter name.text doc
  | sectionName, .entry _ _ _ :: doc => sectionAfter sectionName doc
  | sectionName, .blank _ _ :: doc => sectionAfter sectionName doc
  | sectionName, .comment _ _ _ _ :: doc => sectionAfter sectionName doc

/-- The value that a list of bindings leaves for a name: the last one. -/
def lastValue (bs : List (Text × Text)) (name : Text) : Option Text :=
  ((bs.filter fun b ↦ b.1 = name).getLast?).map Prod.snd

def SimpleYaml.bindAll (kv : SimpleYaml) (bs : List (Text × Text)) : SimpleYaml :=
  bs.foldl (fun kv b ↦ kv.insert b.1 b.2) kv

theorem lastValue_concat (bs : List (Text × Text)) (b : Text × Text) (name : Text) :
    lastValue (bs ++ [b]) name = if name = b.1 then some b.2 else lastValue bs name := by
  rw [lastValue, List.filter_append]
  split_ifs with h
  · simp [h]
  · simp [Ne.symm h, lastValue]

theorem lastValue_append (xs ys : List (Text × Text)) (name : Text) :
    lastValue (xs ++ ys) name = (lastValue ys name).or (lastValue xs name) := by
  induction ys using List.reverseRecOn with
  | nil => simp [lastValue]
  | append_singleton ys b ih =>
      rw [← List.append_assoc, lastValue_concat, lastValue_concat, ih]
      split_ifs <;> rfl

theorem lastValue_eq_none_iff {bs : List (Text × Text)} {name : Text} :
    lastValue bs name = none ↔ ∀ b ∈ bs, b.1 ≠ name := by
  simp [lastValue]

theorem mem_of_lastValue {bs : List (Text × Text)} {name value : Text}
    (h : lastValue bs name = some value) : (name, value) ∈ bs := by
  obtain ⟨b, hb, rfl⟩ := Option.map_eq_some_iff.mp h
  obtain ⟨hmem, hname⟩ := List.mem_filter.mp (List.mem_of_getLast? hb)
  rwa [← of_decide_eq_true hname]

theorem SimpleYaml.bindAll_append (kv : SimpleYaml) (xs ys : List (Text × Text)) :
    kv.bindAll (xs ++ ys) = (kv.bindAll xs).bindAll ys := List.foldl_append

theorem SimpleYaml.lookup_bindAll (kv : SimpleYaml) (bs : List (Text × Text)) (name : Text) :
    (kv.bindAll bs).lookup name = (lastValue bs name).or (kv.lookup name) := by
  induction bs using List.reverseRecOn with
  | nil => rfl
  | append_singleton bs b ih =>
      rw [bindAll, List.foldl_append, List.foldl_cons, List.foldl_nil, Store.lookup_insert',
        lastValue_concat, ← bindAll, ih]
      split_ifs <;> rfl

theorem YamlItem.notMem_newline_line (item : YamlItem) : '\n' ∉ item.line := by
  cases item with
  | blank ws hws => exact hws.2
  | comment indent text hindent oneLine => simp [line, hindent.2, oneLine]
  | header name => simp [line, name.notMem_newline]
  | entry indented key value =>
      have hindent : '\n' ∉ indentation indented := by cases indented <;> decide
      simp [line, hindent, key.notMem_newline, value.notMem_newline_written]

/-- An entry line binds its name to its value. -/
theorem YamlReader.readLine_entry (r : YamlReader) (indented : Bool) (key : YamlName)
    (value : YamlValue) :
    r.readLine (YamlItem.entry indented key value).line =
      { r with kv := r.kv.insert (settingName r.sectionName indented key.text) value.text } := by
  have hline : (YamlItem.entry indented key value).line =
      indentation indented ++ key.text ++ ':' :: ([' '] ++ value.written) := by
    simp [YamlItem.line]
  have htrim : trim ([' '] ++ value.written) = value.written := by
    rw [trim_blank_append (List.all_eq_true.mp rfl), value.trimmed_written.trim_eq]
  rw [hline, r.readLine_name, htrim, if_neg value.written_ne_nil, value.unquote_written]

/-- The reader that has gone through a document holds its bindings. -/
theorem YamlReader.foldl_readLine (doc : List YamlItem) (r : YamlReader) :
    (doc.map YamlItem.line).foldl YamlReader.readLine r =
      ⟨sectionAfter r.sectionName doc, r.kv.bindAll (bindings r.sectionName doc)⟩ := by
  induction doc generalizing r with
  | nil => rfl
  | cons item doc ih =>
      rw [List.map_cons, List.foldl_cons, ih]
      cases item with
      | blank ws hws => rw [YamlItem.line, r.readLine_of_blank hws.1, bindings, sectionAfter]
      | comment indent text hindent oneLine =>
          rw [YamlItem.line, r.readLine_of_comment hindent.1, bindings, sectionAfter]
      | header name =>
          have hread := r.readLine_name false name []
          rw [if_pos (trim_of_blank (by simp))] at hread
          rw [YamlItem.line,
            show name.text ++ [':'] = indentation false ++ name.text ++ [':'] from rfl, hread,
            bindings, sectionAfter]
      | entry indented key value =>
          rw [r.readLine_entry, bindings, sectionAfter]
          rfl

/-- The settings read from a rendered document are its bindings, the last one
of a name winning. -/
theorem parseSimpleYaml_render (doc : List YamlItem) (name : Text) :
    (parseSimpleYaml (some (render doc))).lookup name = lastValue (bindings [] doc) name := by
  have hlines : lines (render doc) = doc.map YamlItem.line := by
    refine lines_terminated fun line hline ↦ ?_
    obtain ⟨item, -, rfl⟩ := List.mem_map.mp hline
    exact item.notMem_newline_line
  rw [parseSimpleYaml, hlines, YamlReader.foldl_readLine, SimpleYaml.lookup_bindAll]
  exact Option.or_none

end FrogQuant.App
