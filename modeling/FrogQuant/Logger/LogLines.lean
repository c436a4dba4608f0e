import FrogQuant.Lib.EscapedText
import FrogQuant.Logger.AsyncJsonlLogger

/-!
# The lines of the log

A line is one JSON object, and its strings give the texts of the event back,
unless one of them holds a control character other than the newline.
-/

namespace FrogQuant

open Json

/-! ## The escaper -/

def escapeChar (c : Char) : Text :=
  if c = '"' then ['\\', '"']
  else if c = '\\' then ['\\', '\\']
  else if c = '\n' then ['\\', 'n']
  else [c]

theorem escapeJson_eq (t : Text) : escapeJson t = t.flatMap escapeChar := rfl

theorem escapes_escapeChar : Escapes escapeChar := by
  intro c
  rw [escapeChar]
  split_ifs with hquote hslash hnewline
  · exact Or.inr ⟨'"', 34, rfl, rfl, hquote ▸ rfl⟩
  · exact Or.inr ⟨'\\', 92, rfl, rfl, hslash ▸ rfl⟩
  · exact Or.inr ⟨'n', 10, rfl, rfl, hnewline ▸ rfl⟩
  · exact Or.inl ⟨rfl, hquote, hslash⟩

theorem isKept_escapeChar (c : Char) :
    isKept escapeChar c = true ↔ c = '\n' ∨ 32 ≤ c.toNat := by
  rw [isKept, Bool.or_eq_true, decide_eq_true_eq, decide_eq_true_eq, escapeChar]
  split_ifs with hquote hslash hnewline
  · simp [hquote]
  · simp [hslash]
  · simp [hnewline]
  · simp [hnewline]

theorem newline_notMem_escapeChar (c : Char) : '\n' ∉ escapeChar c := by
  rw [escapeChar]
  split_ifs with hquote hslash hnewline
  · decide
  · decide
  · decide
  · simpa using Ne.symm hnewline

theorem newline_notMem_escapeJson (t : Text) : '\n' ∉ escapeJson t := by
  rw [escapeJson_eq, List.mem_flatMap]
  rintro ⟨c, -, hc⟩
  exact newline_notMem_escapeChar c hc

theorem meaning_escapeJson (t : Text) :
    meaning (escapeJson t) = if t.all (isKept escapeChar) then some (t.flatMap utf16) else none :=
  meaning_flatMap escapes_escapeChar t

/-! ## The line as an object -/

def levelWord (level : LogLevel) : Word := ⟨levelToStr level, by cases level <;> rfl⟩

def logLeaves (ev : LogEvent Double) : List (Word × Leaf) :=
  [(⟨"ts_ms", rfl⟩, .int ev.tsMs), (⟨"level", rfl⟩, .word (levelWord ev.level)),
    (⟨"module", rfl⟩, .escaped escapes_escapeChar ev.moduleName),
    (⟨"event", rfl⟩, .escaped escapes_escapeChar ev.event),
    (⟨"message", rfl⟩, .escaped escapes_escapeChar ev.message),
    (⟨"value1", rfl⟩, .double ev.value1), (⟨"value2", rfl⟩, .double ev.value2)]

theorem logLine_eq (ev : LogEvent Double) :
    logLine ev = object ((logLeaves ev).map leafText) ++ ['\n'] := by
  rw [logLine, showNat_eq_showInt]
  rfl

theorem read_logLine (ev : LogEvent Double) :
    read (logLine ev) = (leafValues (logLeaves ev)).map .object := by
  rw [logLine_eq]
  exact read_leaves (logLeaves ev) (List.cons_ne_nil _ _) (by decide)

/-- The members of a line, as they are read. -/
def logMembers (ev : LogEvent Double) (v1 v2 : ℚ) : List (Text × Tree Text ℚ) :=
  [("ts_ms", .number ev.tsMs), ("level", .string (levelToStr ev.level)),
    ("module", .string (escapeJson ev.moduleName)), ("event", .string (escapeJson ev.event)),
    ("message", .string (escapeJson ev.message)), ("value1", .number v1), ("value2", .number v2)]

/-- The three texts of an event are kept. -/
def Clean (ev : LogEvent Double) : Prop :=
  ∀ t ∈ [ev.moduleName, ev.event, ev.message], t.all (isKept escapeChar) = true

theorem read_logLine_of_clean {ev : LogEvent Double} (h : Clean ev) {v1 v2 : ℚ}
    (h₁ : ev.value1 = .finite v1) (h₂ : ev.value2 = .finite v2) :
    read (logLine ev) = some (.object
      (logMembers ev (Ostream.roundSignificant v1) (Ostream.roundSignificant v2))) := by
  have hmodule := Leaf.value?_escaped escapes_escapeChar (h ev.moduleName (by simp))
  have hevent := Leaf.value?_escaped escapes_escapeChar (h ev.event (by simp))
  have hmessage := Leaf.value?_escaped escapes_escapeChar (h ev.message (by simp))
  rw [read_logLine, logLeaves, h₁, h₂, leafValues_cons (Leaf.value?_int _),
    leafValues_cons (Leaf.value?_word _), leafValues_cons hmodule, leafValues_cons hevent,
    leafValues_cons hmessage, leafValues_cons (Leaf.value?_double v1),
    leafValues_cons (Leaf.value?_double v2)]
  rfl

theorem read_logLine_of_not_clean {ev : LogEvent Double} (h : ¬ Clean ev) :
    read (logLine ev) = none := by
  have hnone : ∀ {k : Word} {t : Text}, ¬ t.all (isKept escapeChar) = true →
      (k, Leaf.escaped escapes_escapeChar t) ∈ logLeaves ev → read (logLine ev) = none := by
    intro k t ht hmem
    have hvalue := Leaf.value?_escaped_eq_none escapes_escapeChar ht
    rw [read_logLine, leafValues_of_none hmem hvalue, Option.map_none]
  simp only [Clean, List.forall_mem_cons, not_and_or] at h
  rcases h with h | h | h | h
  · exact hnone h (List.mem_of_getElem? (i := 2) rfl)
  · exact hnone h (List.mem_of_getElem? (i := 3) rfl)
  · exact hnone h (List.mem_of_getElem? (i := 4) rfl)
  · exact absurd (fun _ ht ↦ absurd ht List.not_mem_nil) h

theorem newline_notMem_object (ev : LogEvent Double) :
    '\n' ∉ object ((logLeaves ev).map leafText) := by
  apply newline_notMem_leaves
  intro m hm
  simp only [logLeaves, List.mem_cons, List.not_mem_nil, or_false] at hm
  rcases hm with rfl | rfl | rfl | rfl | rfl | rfl | rfl
  · exact newline_notMem_printed (.int ev.tsMs)
  · exact newline_notMem_quoted (newline_notMem_word _)
  · exact newline_notMem_quoted (newline_notMem_escapeJson _)
  · exact newline_notMem_quoted (newline_notMem_escapeJson _)
  · exact newline_notMem_quoted (newline_notMem_escapeJson _)
  · exact newline_notMem_printed (.double ev.value1)
  · exact newline_notMem_printed (.double ev.value2)

/-! ## What a line gives back -/

/-- What the string of a key means, in UTF-16. -/
def decoded (key : Text) (members : List (Text × Tree Text ℚ)) : Option (List ℕ) :=
  match Tree.get? key (.object members) with
  | some (.string raw) => meaning raw
  | _ => none

structure GivesBack (ev : LogEvent Double) : Prop where
  one_line : ∃ body, logLine ev = body ++ ['\n'] ∧ '\n' ∉ body
  read_back : ∃ members, read (logLine ev) = some (.object members) ∧
    decoded "module" members = some (ev.moduleName.flatMap utf16) ∧
    decoded "event" members = some (ev.event.flatMap utf16) ∧
    decoded "message" members = some (ev.message.flatMap utf16)

theorem decoded_of_getElem? {members : List (Text × Tree Text ℚ)}
    (hkeys : (members.map fun m ↦ meaning m.1).Nodup) {i : ℕ} {key t : Text}
    (h : members[i]? = some (key, .string (escapeJson t)))
    (ht : t.all (isKept escapeChar) = true) : decoded key members = some (t.flatMap utf16) := by
  rw [decoded, Tree.get?_of_getElem? hkeys h]
  exact (meaning_escapeJson t).trans (if_pos ht)

theorem givesBack_of_clean {ev : LogEvent Double} (h : Clean ev)
    (h₁ : ev.value1.isFinite = true) (h₂ : ev.value2.isFinite = true) : GivesBack ev := by
  obtain ⟨v1, hv1⟩ := (Double.isFinite_iff _).mp h₁
  obtain ⟨v2, hv2⟩ := (Double.isFinite_iff _).mp h₂
  refine ⟨⟨_, logLine_eq ev, newline_notMem_object ev⟩,
    ⟨_, read_logLine_of_clean h hv1 hv2, ?_⟩⟩
  have hkeys : ((logMembers ev (Ostream.roundSignificant v1) (Ostream.roundSignificant v2)).map
      fun m ↦ meaning m.1).Nodup := by
    change [meaning "ts_ms", meaning "level", meaning "module", meaning "event",
      meaning "message", meaning "value1", meaning "value2"].Nodup
    decide +kernel
  refine ⟨?_, ?_, ?_⟩
  · exact decoded_of_getElem? (i := 2) hkeys rfl (h ev.moduleName (by simp))
  · exact decoded_of_getElem? (i := 3) hkeys rfl (h ev.event (by simp))
  · exact decoded_of_getElem? (i := 4) hkeys rfl (h ev.message (by simp))

theorem clean_iff (ev : LogEvent Double) :
    Clean ev ↔ ∀ c ∈ ev.moduleName ++ ev.event ++ ev.message, c = '\n' ∨ 32 ≤ c.toNat := by
  simp only [Clean, List.forall_mem_cons, List.all_eq_true, isKept_escapeChar,
    List.forall_mem_append, List.not_mem_nil, false_imp_iff, implies_true, and_true, and_assoc]

/-- A line gives its event back exactly when no text of the event holds a
control character other than the newline. -/
theorem logLine_gives_back_iff (ev : LogEvent Double) (h₁ : ev.value1.isFinite = true)
    (h₂ : ev.value2.isFinite = true) :
    GivesBack ev ↔
      ∀ c ∈ ev.moduleName ++ ev.event ++ ev.message, c = '\n' ∨ 32 ≤ c.toNat := by
  rw [← clean_iff]
  constructor
  · rintro ⟨-, members, hread, -⟩
    by_contra hclean
    rw [read_logLine_of_not_clean hclean] at hread
    cases hread
  · intro hclean
    exact givesBack_of_clean hclean h₁ h₂

/-- A quote, a backslash and a newline in the message. -/
def quoteEvent : LogEvent Double :=
  ⟨1, .info, "test", "log", "say \"a\\b\"\n", .finite 42, .finite 0⟩

theorem logLine_gives_back_quoteEvent : GivesBack quoteEvent := by
  refine (logLine_gives_back_iff quoteEvent rfl rfl).mpr fun c hc ↦ ?_
  have hclean : (quoteEvent.moduleName ++ quoteEvent.event ++ quoteEvent.message).all
      (fun c ↦ decide (c = '\n' ∨ 32 ≤ c.toNat)) = true := by decide
  exact of_decide_eq_true (List.all_eq_true.mp hclean c hc)

/-- A tab in the message. -/
def tabEvent : LogEvent Double := ⟨1, .info, "test", "log", "a\tb", .finite 42, .finite 0⟩

/-- The line of an event with a tab is no JSON text. -/
theorem tab_not_given_back :
    ¬ ∀ ev : LogEvent Double, ev.value1.isFinite = true → ev.value2.isFinite = true →
      (∀ c ∈ ev.moduleName ++ ev.event ++ ev.message, c.toNat ≠ 0 ∧ c.toNat < 128) →
      GivesBack ev := by
  intro h
  have hascii : (tabEvent.moduleName ++ tabEvent.event ++ tabEvent.message).all
      (fun c ↦ decide (c.toNat ≠ 0 ∧ c.toNat < 128)) = true := by decide
  obtain ⟨-, members, hread, -⟩ :=
    h tabEvent rfl rfl fun c hc ↦ of_decide_eq_true (List.all_eq_true.mp hascii c hc)
  have hnone : read (logLine tabEvent) = none := by decide +kernel
  rw [hnone] at hread
  cases hread

end FrogQuant
