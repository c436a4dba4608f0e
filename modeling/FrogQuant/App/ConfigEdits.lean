import FrogQuant.App.ConfigSettings
import FrogQuant.App.ConfigText
import Mathlib.Data.Bool.AllAny

/-!
# Editing one setting

A document of two levels with another text behind one of its keys.  A blank
text makes the line a header, and the entries below it move to a section of
that name.
-/

namespace FrogQuant.App

open Strtod (isSpace)

/-! ## Documents of two levels -/

/-- Entries are indented and stand in sections. -/
def TwoLevel : Text → List YamlItem → Prop
  | _, [] => True
  | _, .header name :: doc => TwoLevel name.text doc
  | sectionName, .entry indented _ _ :: doc =>
      sectionName ≠ [] ∧ indented = true ∧ TwoLevel sectionName doc
  | sectionName, .blank _ _ :: doc => TwoLevel sectionName doc
  | sectionName, .comment _ _ _ _ :: doc => TwoLevel sectionName doc

/-- The entries of a document, each with its section, its key and its value. -/
def entriesOf : Text → List YamlItem → List ((Text × Text) × Text)
  | _, [] => []
  | _, .header name :: doc => entriesOf name.text doc
  | sectionName, .entry _ key value :: doc =>
      ((sectionName, key.text), value.text) :: entriesOf sectionName doc
  | sectionName, .blank _ _ :: doc => entriesOf sectionName doc
  | sectionName, .comment _ _ _ _ :: doc => entriesOf sectionName doc

/-- The entries down to the next header. -/
def followers : List YamlItem → List (Text × Text)
  | [] => []
  | .header _ :: _ => []
  | .entry _ key value :: doc => (key.text, value.text) :: followers doc
  | .blank _ _ :: doc => followers doc
  | .comment _ _ _ _ :: doc => followers doc

/-- The document from the next header on. -/
def laterSections : List YamlItem → List YamlItem
  | [] => []
  | .header name :: doc => .header name :: doc
  | .entry _ _ _ :: doc => laterSections doc
  | .blank _ _ :: doc => laterSections doc
  | .comment _ _ _ _ :: doc => laterSections doc

def qualified (sectionName key : Text) : Text := sectionName ++ '.' :: key

def boundAs (e : (Text × Text) × Text) : Text × Text := (qualified e.1.1 e.1.2, e.2)

section Documents

variable {sectionName : Text} {doc : List YamlItem}

theorem bindings_of_twoLevel (h : TwoLevel sectionName doc) :
    bindings sectionName doc = (entriesOf sectionName doc).map boundAs := by
  induction doc generalizing sectionName with
  | nil => rfl
  | cons item doc ih =>
      cases item with
      | blank ws hws => exact ih h
      | comment indent text hindent oneLine => exact ih h
      | header name => exact ih h
      | entry indented key value =>
          obtain ⟨hsection, rfl, hdoc⟩ := h
          rw [bindings, entriesOf, List.map_cons, ih hdoc, settingName, if_pos ⟨rfl, hsection⟩]
          rfl

theorem twoLevel_append {xs ys : List YamlItem} :
    TwoLevel sectionName (xs ++ ys) ↔
      TwoLevel sectionName xs ∧ TwoLevel (sectionAfter sectionName xs) ys := by
  induction xs generalizing sectionName with
  | nil => simp [TwoLevel, sectionAfter]
  | cons item xs ih => cases item <;> simp [TwoLevel, sectionAfter, ih, and_assoc]

theorem entriesOf_append (sectionName : Text) (xs ys : List YamlItem) :
    entriesOf sectionName (xs ++ ys) =
      entriesOf sectionName xs ++ entriesOf (sectionAfter sectionName xs) ys := by
  induction xs generalizing sectionName with
  | nil => rfl
  | cons item xs ih => cases item <;> simp [entriesOf, sectionAfter, ih]

/-- Only the entries down to the next header depend on the section that is
open. -/
theorem entriesOf_eq (sectionName : Text) (doc : List YamlItem) :
    entriesOf sectionName doc =
      (followers doc).map (fun f ↦ ((sectionName, f.1), f.2)) ++
        entriesOf [] (laterSections doc) := by
  induction doc with
  | nil => rfl
  | cons item doc ih =>
      cases item with
      | blank ws hws => exact ih
      | comment indent text hindent oneLine => exact ih
      | header name => rfl
      | entry indented key value => exact congrArg _ ih

theorem TwoLevel.change_section (h : TwoLevel sectionName doc) {other : Text}
    (hother : other ≠ []) : TwoLevel other doc := by
  induction doc with
  | nil => trivial
  | cons item doc ih =>
      cases item with
      | blank ws hws => exact ih h
      | comment indent text hindent oneLine => exact ih h
      | header name => exact h
      | entry indented key value => exact ⟨hother, h.2.1, ih h.2.2⟩

end Documents

/-! ## The edited document -/

/-- The document with another text behind the key of one of its entries. -/
def editedText (pre : List YamlItem) (key : YamlName) (text : Text) (post : List YamlItem) : Text :=
  (pre.map YamlItem.line ++
    (indentation true ++ key.text ++ ": ".toList ++ text) :: post.map YamlItem.line).flatMap
      (· ++ ['\n'])

theorem lines_editedText {pre post : List YamlItem} {key : YamlName} {text : Text}
    (htext : '\n' ∉ text) :
    lines (editedText pre key text post) = pre.map YamlItem.line ++
      (indentation true ++ key.text ++ ": ".toList ++ text) :: post.map YamlItem.line := by
  refine lines_terminated fun line hline ↦ ?_
  have hitems : ∀ doc : List YamlItem, ∀ line ∈ doc.map YamlItem.line, '\n' ∉ line := by
    intro doc line hline
    obtain ⟨item, -, rfl⟩ := List.mem_map.mp hline
    exact item.notMem_newline_line
  rcases List.mem_append.mp hline with hpre | hrest
  · exact hitems pre line hpre
  · rcases List.mem_cons.mp hrest with rfl | hpost
    · simp [indentation, key.notMem_newline, htext]
    · exact hitems post line hpost

/-- What the edited document binds. -/
def editedBindings (pre : List YamlItem) (key : YamlName) (text : Text) (post : List YamlItem) :
    List (Text × Text) :=
  bindings [] pre ++
    if trim text = [] then bindings key.text post
    else (settingName (sectionAfter [] pre) true key.text, unquote (trim text)) ::
      bindings (sectionAfter [] pre) post

theorem parseSimpleYaml_editedText {pre post : List YamlItem} {key : YamlName} {text : Text}
    (htext : '\n' ∉ text) (name : Text) :
    (parseSimpleYaml (some (editedText pre key text post))).lookup name =
      lastValue (editedBindings pre key text post) name := by
  have hline : indentation true ++ key.text ++ ": ".toList ++ text =
      indentation true ++ key.text ++ ':' :: ([' '] ++ text) := by simp
  have htrim : trim ([' '] ++ text) = trim text :=
    trim_blank_append (List.all_eq_true.mp rfl) text
  rw [parseSimpleYaml, lines_editedText htext, List.foldl_append, List.foldl_cons,
    YamlReader.foldl_readLine, hline, YamlReader.readLine_name, htrim, editedBindings]
  split_ifs
  · rw [YamlReader.foldl_readLine, ← SimpleYaml.bindAll_append, SimpleYaml.lookup_bindAll]
    exact Option.or_none
  · rw [YamlReader.foldl_readLine, ← List.singleton_append, ← List.append_assoc]
    refine Eq.trans ?_ ((SimpleYaml.lookup_bindAll ∅ _ name).trans Option.or_none)
    rw [SimpleYaml.bindAll_append, SimpleYaml.bindAll_append]
    rfl

/-! ## What an edit changes -/

def Setting.value (st : Setting) (cfg : AppConfig) (bound : Option Text) : SettingValue :=
  (bound.bind st.kind.convert).getD (st.get cfg)

/-- No setting of another name has changed. -/
def ChangesAtMost (name : Text) (cfg cfg' : AppConfig) : Prop :=
  ∀ st ∈ settings, st.name ≠ name → st.get cfg' = st.get cfg

theorem changesAtMost_iff {name : Text} {cfg : AppConfig} {file file' : Option Text}
    {bs bs' : List (Text × Text)}
    (h : ∀ n, (parseSimpleYaml file).lookup n = lastValue bs n)
    (h' : ∀ n, (parseSimpleYaml file').lookup n = lastValue bs' n) :
    ChangesAtMost name (loadConfig cfg file) (loadConfig cfg file') ↔
      ∀ st ∈ settings, st.name ≠ name →
        st.value cfg (lastValue bs' st.name) = st.value cfg (lastValue bs st.name) := by
  refine forall₃_congr fun st hst _ ↦ ?_
  rw [get_loadConfig hst, get_loadConfig hst, SimpleYaml.read, SimpleYaml.read, h, h']
  rfl

/-- An entry of the section has no effect: it leaves the setting it names as it
is by default, and, moved to a section that is called like the edited key, the
setting it names there as it is without it. -/
structure Ineffective (cfg : AppConfig) (pre post : List YamlItem) (sectionName key : Text)
    (f : Text × Text) : Prop where
  own : ∀ st ∈ settings, st.name = qualified sectionName f.1 → st.value cfg (some f.2) = st.get cfg
  moved : ∀ st ∈ settings, st.name = qualified key f.1 →
    lastValue (bindings [] (laterSections post)) st.name = none →
      st.value cfg (some f.2) = st.value cfg (lastValue (bindings [] pre) st.name)

theorem count_dot_name : ∀ name ∈ settings.map Setting.name, name.count '.' = 1 := by
  decide +kernel

/-- The name of a setting is of one section and one key. -/
theorem qualified_unique {st : Setting} (hst : st ∈ settings) {s k s' k' : Text}
    (h : qualified s k = st.name) (h' : qualified s' k' = st.name) : (s, k) = (s', k') := by
  have hcount := count_dot_name st.name (List.mem_map_of_mem hst)
  have hdot : ∀ {s k : Text}, qualified s k = st.name → Text.cut '.' st.name = (s, k) := by
    intro s k hname
    rw [← hname, qualified, List.count_append, List.count_cons_self] at hcount
    have hzero : '.' ∉ s := List.count_eq_zero.mp (by omega)
    rw [← hname, qualified, Text.cut_append hzero]
  rw [← hdot h, ← hdot h']

section Entries

variable {st : Setting} (hst : st ∈ settings) {es : List ((Text × Text) × Text)} {s k : Text}
include hst

theorem lastValue_entries_eq_none_iff (hname : qualified s k = st.name) :
    lastValue (es.map boundAs) st.name = none ↔ (s, k) ∉ es.map Prod.fst := by
  rw [lastValue_eq_none_iff]
  constructor
  · intro h hmem
    obtain ⟨e, he, heq⟩ := List.mem_map.mp hmem
    apply h (boundAs e) (List.mem_map_of_mem he)
    rw [boundAs, heq, hname]
  · intro h b hb hbname
    obtain ⟨e, he, rfl⟩ := List.mem_map.mp hb
    exact h (List.mem_map.mpr ⟨e, he, qualified_unique hst hbname hname⟩)

theorem lastValue_entries_of_mem (hdistinct : (es.map Prod.fst).Nodup) {w : Text}
    (hmem : ((s, k), w) ∈ es) (hname : qualified s k = st.name) :
    lastValue (es.map boundAs) st.name = some w := by
  cases hlast : lastValue (es.map boundAs) st.name with
  | none =>
      rw [lastValue_entries_eq_none_iff hst hname] at hlast
      exact absurd (List.mem_map_of_mem hmem) hlast
  | some v =>
      obtain ⟨e, he, hbound⟩ := List.mem_map.mp (mem_of_lastValue hlast)
      have hkey : e.1 = (s, k) := qualified_unique hst (congrArg Prod.fst hbound) hname
      have heq := List.inj_on_of_nodup_map hdistinct he hmem hkey
      have hvalue : e.2 = v := congrArg Prod.snd hbound
      rw [← hvalue, heq]

end Entries

/-! ## The entries below a blanked one -/

/-- The entries of a document around the edited one: those before it, in its
section below it, and in later sections. -/
structure EditSite (pre : List YamlItem) (key : YamlName) (value : YamlValue)
    (post : List YamlItem) : Prop where
  twoLevel : TwoLevel [] (pre ++ .entry true key value :: post)
  distinct : ((entriesOf [] (pre ++ .entry true key value :: post)).map Prod.fst).Nodup

namespace EditSite

/-- The entries below the edited one, in a section of the given name. -/
def below (post : List YamlItem) (sectionName : Text) : List ((Text × Text) × Text) :=
  (followers post).map (fun f ↦ ((sectionName, f.1), f.2)) ++ entriesOf [] (laterSections post)

variable {pre post : List YamlItem} {key : YamlName} {value : YamlValue}
  (h : EditSite pre key value post)
include h

theorem section_ne_nil : sectionAfter [] pre ≠ [] := (twoLevel_append.mp h.twoLevel).2.1

theorem twoLevel_post : TwoLevel (sectionAfter [] pre) post := (twoLevel_append.mp h.twoLevel).2.2.2

theorem bindings_pre : bindings [] pre = (entriesOf [] pre).map boundAs :=
  bindings_of_twoLevel (twoLevel_append.mp h.twoLevel).1

theorem bindings_post {s : Text} (hs : s ≠ []) :
    bindings s post = (below post s).map boundAs := by
  rw [bindings_of_twoLevel (h.twoLevel_post.change_section hs), entriesOf_eq, below]

theorem bindings_later :
    bindings [] (laterSections post) = (entriesOf [] (laterSections post)).map boundAs := by
  apply bindings_of_twoLevel
  have hpost := h.twoLevel_post
  clear h
  induction post with
  | nil => trivial
  | cons item post ih =>
      cases item with
      | blank ws hws => exact ih hpost
      | comment indent text hindent oneLine => exact ih hpost
      | header name => exact hpost
      | entry indented key value => exact ih hpost.2.2

omit h in
theorem entries_eq : entriesOf [] (pre ++ .entry true key value :: post) =
    entriesOf [] pre ++ ((sectionAfter [] pre, key.text), value.text) ::
      below post (sectionAfter [] pre) := by
  rw [entriesOf_append, entriesOf, entriesOf_eq (sectionAfter [] pre) post, below]

theorem bindings_doc : bindings [] (pre ++ .entry true key value :: post) =
    (entriesOf [] pre ++ ((sectionAfter [] pre, key.text), value.text) ::
      below post (sectionAfter [] pre)).map boundAs := by
  rw [bindings_of_twoLevel h.twoLevel, entries_eq]

/-! What a setting is bound to, before and after the entry has become a header. -/

theorem nodup_entries : ((entriesOf [] pre ++ ((sectionAfter [] pre, key.text), value.text) ::
    below post (sectionAfter [] pre)).map Prod.fst).Nodup := entries_eq ▸ h.distinct

theorem nodup_keys_followers : ((followers post).map Prod.fst).Nodup := by
  have hnodup := h.nodup_entries
  rw [List.map_append, List.map_cons, below, List.map_append, List.map_map] at hnodup
  have hbelow := hnodup.of_append_right.of_cons.of_append_left
  refine List.Nodup.of_map (fun k ↦ (sectionAfter [] pre, k)) ?_
  rwa [List.map_map]

variable {st : Setting} (hst : st ∈ settings) {f : Text × Text}

omit h in
theorem lastValue_below (s : Text) (name : Text) :
    lastValue ((below post s).map boundAs) name =
      (lastValue ((entriesOf [] (laterSections post)).map boundAs) name).or
        (lastValue (((followers post).map fun f ↦ ((s, f.1), f.2)).map boundAs) name) := by
  rw [below, List.map_append, lastValue_append]

omit h in
include hst in
theorem lastValue_followers_of_ne {s t : Text} (hst' : s ≠ t) {k : Text}
    (hname : qualified s k = st.name) :
    lastValue (((followers post).map fun f ↦ ((t, f.1), f.2)).map boundAs) st.name = none := by
  rw [lastValue_entries_eq_none_iff hst hname, List.map_map]
  intro hmem
  obtain ⟨f, -, heq⟩ := List.mem_map.mp hmem
  exact hst' (congrArg Prod.fst heq).symm

include hst in
theorem lastValue_followers_of_mem (s : Text) (hf : f ∈ followers post)
    (hname : qualified s f.1 = st.name) :
    lastValue (((followers post).map fun f ↦ ((s, f.1), f.2)).map boundAs) st.name = some f.2 := by
  refine lastValue_entries_of_mem hst ?_ (List.mem_map_of_mem hf) hname
  have hinj : Function.Injective fun k : Text ↦ (s, k) := fun a b hab ↦ congrArg Prod.snd hab
  have hnodup := h.nodup_keys_followers.map hinj
  rwa [List.map_map] at hnodup ⊢

/-- Nothing but the entry itself binds the setting of an entry below. -/
theorem own_unbound (hf : f ∈ followers post)
    (hname : qualified (sectionAfter [] pre) f.1 = st.name) (hst : st ∈ settings) :
    lastValue ((entriesOf [] pre).map boundAs) st.name = none ∧
      lastValue ((entriesOf [] (laterSections post)).map boundAs) st.name = none := by
  have hnodup := h.nodup_entries
  have hmem : (sectionAfter [] pre, f.1) ∈
      ((followers post).map fun f ↦ ((sectionAfter [] pre, f.1), f.2)).map Prod.fst := by
    rw [List.map_map]
    exact List.mem_map_of_mem hf
  rw [List.map_append, List.map_cons, below, List.map_append, List.nodup_append'] at hnodup
  obtain ⟨-, hbelow, hdisjoint⟩ := hnodup
  constructor
  · rw [lastValue_entries_eq_none_iff hst hname]
    exact fun hpre ↦ hdisjoint hpre (List.mem_cons_of_mem _ (List.mem_append_left _ hmem))
  · rw [lastValue_entries_eq_none_iff hst hname]
    exact (List.nodup_append'.mp hbelow.of_cons).2.2 hmem

theorem key_ne_of_follower (hf : f ∈ followers post) : f.1 ≠ key.text := by
  intro heq
  have hmem : (sectionAfter [] pre, key.text) ∈
      (below post (sectionAfter [] pre)).map Prod.fst := by
    rw [below, List.map_append, List.map_map, ← heq]
    exact List.mem_append_left _ (List.mem_map_of_mem hf)
  have hnodup := h.nodup_entries
  rw [List.map_append, List.map_cons] at hnodup
  exact (List.nodup_cons.mp hnodup.of_append_right).1 hmem

/-- The values of the entries below, in a section of the given name. -/
abbrev followersIn (post : List YamlItem) (s : Text) : List (Text × Text) :=
  ((followers post).map fun f ↦ ((s, f.1), f.2)).map boundAs

omit h in
theorem exists_follower {s name w : Text} (hlast : lastValue (followersIn post s) name = some w) :
    ∃ f ∈ followers post, qualified s f.1 = name ∧ f.2 = w := by
  obtain ⟨e, he, hbound⟩ := List.mem_map.mp (mem_of_lastValue hlast)
  obtain ⟨f, hf, rfl⟩ := List.mem_map.mp he
  exact ⟨f, hf, congrArg Prod.fst hbound, congrArg Prod.snd hbound⟩

theorem lastValue_doc {name : Text} (hname : name ≠ qualified (sectionAfter [] pre) key.text) :
    lastValue (bindings [] (pre ++ .entry true key value :: post)) name =
      ((lastValue (bindings [] (laterSections post)) name).or
        (lastValue (followersIn post (sectionAfter [] pre)) name)).or
          (lastValue (bindings [] pre) name) := by
  have hentry : lastValue [boundAs ((sectionAfter [] pre, key.text), value.text)] name = none := by
    rw [lastValue_eq_none_iff]
    rintro b hb rfl
    rw [List.mem_singleton.mp hb] at hname
    exact hname rfl
  rw [h.bindings_doc, List.map_append, List.map_cons, lastValue_append, ← List.singleton_append,
    lastValue_append, hentry, Option.or_none, lastValue_below, ← h.bindings_later, ← h.bindings_pre]

theorem lastValue_edited {text : Text} (hblank : trim text = []) (name : Text) :
    lastValue (editedBindings pre key text post) name =
      ((lastValue (bindings [] (laterSections post)) name).or
        (lastValue (followersIn post key.text) name)).or (lastValue (bindings [] pre) name) := by
  rw [editedBindings, if_pos hblank, h.bindings_post key.nonempty, lastValue_append,
    lastValue_below, ← h.bindings_later]

theorem lastValue_edited_of_text {text : Text} (htext : trim text ≠ []) {name : Text}
    (hname : name ≠ qualified (sectionAfter [] pre) key.text) :
    lastValue (editedBindings pre key text post) name =
      ((lastValue (bindings [] (laterSections post)) name).or
        (lastValue (followersIn post (sectionAfter [] pre)) name)).or
          (lastValue (bindings [] pre) name) := by
  have hentry : lastValue [(settingName (sectionAfter [] pre) true key.text, unquote (trim text))]
      name = none := by
    rw [lastValue_eq_none_iff, settingName, if_pos ⟨rfl, h.section_ne_nil⟩]
    rintro b hb rfl
    rw [List.mem_singleton.mp hb] at hname
    exact hname rfl
  rw [editedBindings, if_neg htext, h.bindings_post h.section_ne_nil, lastValue_append,
    ← List.singleton_append, lastValue_append, hentry, Option.or_none, lastValue_below,
    ← h.bindings_later]

/-- The edit of a text that is blank, in a section of another name than the
key: the other settings stay exactly if the entries below have no effect. -/
theorem blank_edit_iff (cfg : AppConfig) {text : Text} (hblank : trim text = [])
    (hkey : sectionAfter [] pre ≠ key.text) :
    (∀ st ∈ settings, st.name ≠ qualified (sectionAfter [] pre) key.text →
      st.value cfg (lastValue (editedBindings pre key text post) st.name) =
        st.value cfg (lastValue (bindings [] (pre ++ .entry true key value :: post)) st.name)) ↔
      ∀ f ∈ followers post, Ineffective cfg pre post (sectionAfter [] pre) key.text f := by
  constructor
  · intro hsame f hf
    constructor
    · intro st hst hname
      have hne : st.name ≠ qualified (sectionAfter [] pre) key.text := fun heq ↦
        h.key_ne_of_follower hf (congrArg Prod.snd (qualified_unique hst hname.symm heq.symm))
      obtain ⟨hpre, hlater⟩ := h.own_unbound hf hname.symm hst
      have hvalue := hsame st hst hne
      rw [h.lastValue_doc hne, h.lastValue_edited hblank, h.bindings_pre, h.bindings_later, hpre,
        hlater, followersIn, followersIn, h.lastValue_followers_of_mem hst _ hf hname.symm,
        lastValue_followers_of_ne hst hkey hname.symm] at hvalue
      exact hvalue.symm
    · intro st hst hname hlater
      have hne : st.name ≠ qualified (sectionAfter [] pre) key.text := fun heq ↦
        hkey (congrArg Prod.fst (qualified_unique hst heq.symm hname.symm))
      have hvalue := hsame st hst hne
      rw [h.lastValue_doc hne, h.lastValue_edited hblank, hlater, followersIn, followersIn,
        h.lastValue_followers_of_mem hst _ hf hname.symm,
        lastValue_followers_of_ne hst hkey.symm hname.symm] at hvalue
      exact hvalue
  · intro hidle st hst hne
    rw [h.lastValue_doc hne, h.lastValue_edited hblank]
    cases hlater : lastValue (bindings [] (laterSections post)) st.name with
    | some w => rfl
    | none =>
        simp only [Option.none_or]
        cases hown : lastValue (followersIn post (sectionAfter [] pre)) st.name with
        | some w =>
            obtain ⟨f, hf, hname, rfl⟩ := exists_follower hown
            obtain ⟨hpre, -⟩ := h.own_unbound hf hname hst
            rw [Option.some_or, followersIn, lastValue_followers_of_ne hst hkey hname,
              h.bindings_pre, hpre]
            exact ((hidle f hf).own st hst hname.symm).symm
        | none =>
            rw [Option.none_or]
            cases hmoved : lastValue (followersIn post key.text) st.name with
            | none => rw [Option.none_or]
            | some w =>
                obtain ⟨f, hf, hname, rfl⟩ := exists_follower hmoved
                rw [Option.some_or]
                exact (hidle f hf).moved st hst hname.symm hlater

end EditSite

/-- Another text behind one key changes no other setting, exactly if the text
is not blank, the key is called like its section, or the entries below it have
no effect. -/
theorem edit_one_setting_iff (cfg : AppConfig) {pre post : List YamlItem} {key : YamlName}
    {value : YamlValue} (h : EditSite pre key value post) {text : Text} (htext : '\n' ∉ text) :
    ChangesAtMost (qualified (sectionAfter [] pre) key.text)
        (loadConfig cfg (some (render (pre ++ .entry true key value :: post))))
        (loadConfig cfg (some (editedText pre key text post))) ↔
      trim text ≠ [] ∨ sectionAfter [] pre = key.text ∨
        ∀ f ∈ followers post, Ineffective cfg pre post (sectionAfter [] pre) key.text f := by
  rw [changesAtMost_iff (parseSimpleYaml_render _) (parseSimpleYaml_editedText htext)]
  by_cases hblank : trim text = []
  · by_cases hkey : sectionAfter [] pre = key.text
    · refine iff_of_true (fun st hst hne ↦ ?_) (Or.inr (Or.inl hkey))
      rw [h.lastValue_doc hne, h.lastValue_edited hblank, hkey]
    · rw [h.blank_edit_iff cfg hblank hkey]
      simp [hblank, hkey]
  · refine iff_of_true (fun st hst hne ↦ ?_) (Or.inl hblank)
    rw [h.lastValue_doc hne, h.lastValue_edited_of_text hblank hne]

def riskHeader : YamlItem := .header
  { text := "risk"
    nonempty := by decide
    plain := List.all_iff_forall_prop.mp (by decide)
    not_comment := by decide }

def orderLimitKey : YamlName where
  text := "max_single_order_notional_usd"
  nonempty := by decide
  plain := List.all_iff_forall_prop.mp (by decide)
  not_comment := by decide

def positionRatioKey : YamlName where
  text := "max_position_ratio"
  nonempty := by decide
  plain := List.all_iff_forall_prop.mp (by decide)
  not_comment := by decide

def bareHalf : YamlValue :=
  .bare "0.5" (by decide) ⟨by simp [isSpace], by simp [isSpace]⟩ (by decide) (by simp [isQuote])

/-- The limit on an order, above the one on the position. -/
theorem editSite_orderLimit :
    EditSite [riskHeader] orderLimitKey bareHalf [.entry true positionRatioKey bareHalf] where
  twoLevel := ⟨by decide, rfl, by decide, rfl, trivial⟩
  distinct := by decide

theorem edit_one_setting_twenty :
    ChangesAtMost (qualified (sectionAfter [] [riskHeader]) orderLimitKey.text)
      (loadConfig .default (some (render ([riskHeader] ++
        .entry true orderLimitKey bareHalf :: [.entry true positionRatioKey bareHalf]))))
      (loadConfig .default (some (editedText [riskHeader] orderLimitKey "20"
        [.entry true positionRatioKey bareHalf]))) :=
  (edit_one_setting_iff .default editSite_orderLimit (by decide)).mpr (Or.inl (by decide))

/-- With the limit on an order blanked, the position ratio below it goes back
to its default. -/
theorem blank_limit_drops_ratio :
    ¬ ∀ (cfg : AppConfig) (pre post : List YamlItem) (key : YamlName) (value : YamlValue)
      (text : Text), EditSite pre key value post → '\n' ∉ text →
        ChangesAtMost (qualified (sectionAfter [] pre) key.text)
          (loadConfig cfg (some (render (pre ++ .entry true key value :: post))))
          (loadConfig cfg (some (editedText pre key text post))) := by
  intro h
  have hratio := h .default [riskHeader] [.entry true positionRatioKey bareHalf] orderLimitKey
    bareHalf [] editSite_orderLimit List.not_mem_nil
    ⟨"risk.max_position_ratio", .double, fun cfg ↦ .double cfg.riskMaxPositionRatio⟩
    (List.mem_of_getElem? (i := 4) rfl) (by decide)
  exact absurd hratio (by decide +kernel)

end FrogQuant.App
