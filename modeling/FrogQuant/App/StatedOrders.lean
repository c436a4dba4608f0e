import FrogQuant.App.FieldReaders
import FrogQuant.App.ServiceRuns

/-!
# What a manual order says

The route of manual orders takes the side and the type by comparison with one
text each and falls back to a market buy, whatever else the body says.
-/

namespace FrogQuant.App

open Json

/-! ## What a body says -/

/-- The field of that name, in whatever way it is written. -/
def Field (o : WrittenObject) (key : Text) (v : FlatValue) : Prop :=
  ∃ m ∈ o.members, meaning m.key = meaning key ∧ m.value = v

def Says (o : WrittenObject) (key word : Text) : Prop :=
  ∃ t, Field o key (.string t) ∧ meaning t = meaning word

/-- The field is absent or says one of the words. -/
def SaysOneOf (o : WrittenObject) (key : Text) (words : List Text) : Prop :=
  ∀ v, Field o key v → ∃ t, v = .string t ∧ ∃ w ∈ words, meaning t = meaning w

def WellStated (o : WrittenObject) : Prop :=
  SaysOneOf o "side" ["BUY".toList, "SELL".toList] ∧
    SaysOneOf o "type" ["MARKET".toList, "LIMIT".toList]

/-- The first text in quotes that is the key is the name of a member. -/
def NameFirst (o : WrittenObject) (key : Text) : Prop :=
  ∃ m ms, m ∈ o.members ∧ m.key = key ∧
    fromKey key (texts o.behind o.members) = some (texts o.behind (m :: ms))

/-- The text in quotes behind the first colon behind the first text in quotes
that is the key. -/
def shown (o : WrittenObject) (key : Text) : Option Text := (reading o key).bind Prod.snd

/-- A field that is named first is written as the word when it says the word.
Otherwise another field is looked at, and there the word has to stand exactly
when the field says it. -/
def Legible (o : WrittenObject) (key word : Text) : Prop :=
  (NameFirst o key ∧ (Says o key word → o.Binds key (.string word))) ∨
    (¬ NameFirst o key ∧ (shown o key = some word ↔ Says o key word))

def Matches (o : WrittenObject) (r : OrderRecord Double) : Prop :=
  (r.side = .sell ↔ Says o "side" "SELL") ∧ (r.type = .limit ↔ Says o "type" "LIMIT")

section Legible

variable {o : WrittenObject} {key word t : Text}

theorem meaning_append_quote {word : Text} (hword : Verbatim word) (rest : Text) :
    meaning (word ++ '"' :: rest) = none := by
  induction word with
  | nil =>
      rw [List.nil_append, meaning.eq_def]
      exact (if_neg (by decide)).trans (if_pos (Or.inl rfl))
  | cons c word ih =>
      have hc : c ≠ '\\' := fun h ↦ hword.2 (h ▸ List.mem_cons_self)
      have htail := ih ⟨fun h ↦ hword.1 (List.mem_cons_of_mem c h),
        fun h ↦ hword.2 (List.mem_cons_of_mem c h)⟩
      rw [List.cons_append, meaning.eq_def]
      apply (if_neg hc).trans
      rw [htail]
      exact ite_self none

/-- The first piece of a string that is no escaped quote is the string. -/
theorem eq_of_head_splitOn (hword : Verbatim word) (ht : (meaning t).isSome = true)
    (h : (t.splitOn '"').head? = some word) : t = word := by
  obtain ⟨ss, hss⟩ := List.head?_eq_some_iff.mp h
  have hjoin : List.intercalate ['"'] (word :: ss) = t := by
    rw [← hss, List.intercalate_splitOn]
  cases ss with
  | nil => simpa using hjoin.symm
  | cons u ss =>
      rw [List.intercalate_cons_cons, List.append_assoc] at hjoin
      rw [← hjoin] at ht
      simp only [List.singleton_append] at ht
      rw [meaning_append_quote hword] at ht
      cases ht

theorem shown_of_name {m : Member} {ms : List Member} (hkey : '"' ∉ m.key) (hcolon : ':' ∉ m.key)
    (hfound : fromKey m.key (texts o.behind o.members) = some (texts o.behind (m :: ms)))
    (ht : m.value = .string t) : shown o m.key = (t.splitOn '"').head? := by
  obtain ⟨u, us, hus⟩ := List.exists_cons_of_ne_nil (List.splitOn_ne_nil '"' t)
  have hown := colon_mem_colon m []
  rw [List.append_nil] at hown
  rw [shown, reading, scan, hfound, Option.bind_some, texts_cons _ _ hkey, behindColon_skip hcolon,
    valueTexts, ht]
  simp only [List.cons_append]
  rw [behindColon_stop hown, hus]
  cases us <;> rfl

theorem field_iff {m : Member} (hmem : m ∈ o.members) (v : FlatValue) :
    Field o m.key v ↔ m.value = v := by
  constructor
  · rintro ⟨m', hmem', hkey, rfl⟩
    rw [List.inj_on_of_nodup_map o.keys_nodup hmem hmem' hkey.symm]
  · exact fun h ↦ ⟨m, hmem, rfl, h⟩

/-- Where the field says one of its words, it is read right exactly when it is
legible. -/
theorem shown_iff_says_iff (hkey : '"' ∉ key) (hcolon : ':' ∉ key) (hword : Verbatim word)
    {words : List Text} (hstated : SaysOneOf o key words) :
    (shown o key = some word ↔ Says o key word) ↔ Legible o key word := by
  rw [Legible]
  by_cases hname : NameFirst o key
  · simp only [hname, true_and, not_true_eq_false, false_and, or_false]
    obtain ⟨m, ms, hmem, rfl, hfound⟩ := hname
    obtain ⟨t, ht, -⟩ := hstated m.value ((field_iff hmem _).mpr rfl)
    have hshown := shown_of_name hkey hcolon hfound ht
    have hwritten : (meaning t).isSome = true := by
      have h := o.isWritten_values m hmem
      rwa [ht] at h
    have hbinds : o.Binds m.key (.string word) ↔ t = word := by
      rw [binds_iff hmem, ht, FlatValue.string.injEq]
    have hsays : t = word → Says o m.key word := by
      rintro rfl
      exact ⟨t, (field_iff hmem _).mpr ht, rfl⟩
    rw [hshown, hbinds]
    constructor
    · exact fun h hsaid ↦ eq_of_head_splitOn hword hwritten (h.mpr hsaid)
    · refine fun h ↦ ⟨fun hhead ↦ hsays (eq_of_head_splitOn hword hwritten hhead), fun hsaid ↦ ?_⟩
      obtain rfl := h hsaid
      rw [List.splitOn_eq_singleton hword.1]
      rfl
  · simp [hname]

end Legible

namespace ApiState

variable (s : ApiState) (env : RequestEnv) (o : WrittenObject)

/-- A manual order is what the body says, or it is refused. -/
structure TakenAtItsWord : Prop where
  accepted : (s.postManualOrder env o.text).2.status = 200 →
    WellStated o ∧ ∃ r, (s.postManualOrder env o.text).1.core.getOrder s.core.nextId = some r ∧
      Matches o r
  refused : ¬ WellStated o →
    (s.postManualOrder env o.text).2.status = 400 ∧
      (s.postManualOrder env o.text).1.core = s.core ∧
      (s.postManualOrder env o.text).2.placed = none

/-- Side and type are stated in their own words and are legible; a record that
has the id already (after `2 ^ 64` submissions) happens to match. -/
def PlainlyStated : Prop :=
  WellStated o ∧
    match s.core.getOrder s.core.nextId with
    | none => Legible o "side" "SELL" ∧ Legible o "type" "LIMIT"
    | some r => Matches o r

/-! ## What becomes of the order -/

theorem getD_eq_iff {x : Option Text} {d w : Text} (hne : d ≠ w) : x.getD d = w ↔ x = some w :=
  Option.getD_eq_iff.trans (or_iff_left fun h ↦ hne h.2)

theorem manualRequest_side_iff :
    (s.manualRequest o.text).side = .sell ↔ shown o "side" = some "SELL".toList := by
  have hread : jsonGetString o.text "side" = shown o "side" := jsonGetString_text o (by decide)
  rw [← hread, ← getD_eq_iff (by decide : "BUY".toList ≠ "SELL".toList)]
  exact Ne.ite_eq_left_iff (by decide)

theorem manualRequest_type_iff :
    (s.manualRequest o.text).type = .limit ↔ shown o "type" = some "LIMIT".toList := by
  have hread : jsonGetString o.text "type" = shown o "type" := jsonGetString_text o (by decide)
  rw [← hread, ← getD_eq_iff (by decide : "MARKET".toList ≠ "LIMIT".toList)]
  exact Ne.ite_eq_left_iff (by decide)

theorem postManualOrder_of_refused {body : Text} (hqty : (s.manualRequest body).qty ≤ 0) :
    s.postManualOrder env body = (s, .of 400 (errorBody "E_BAD_QTY" "qty must be > 0")) :=
  if_pos hqty

/-- The record of a submitted order says what has been read, unless the id has
been taken. -/
theorem matches_submitted_iff (hc : s.core.Settled) (hstated : WellStated o)
    {r : OrderRecord Double}
    (hr : (s.core.submitManualOrder env.nowMs (s.manualRequest o.text)).1.getOrder s.core.nextId =
      some r) :
    Matches o r ↔
      match s.core.getOrder s.core.nextId with
      | none => Legible o "side" "SELL" ∧ Legible o "type" "LIMIT"
      | some r => Matches o r := by
  cases hid : s.core.getOrder s.core.nextId with
  | none =>
      rw [s.core.getOrder_submit_fresh env.nowMs _ hid] at hr
      obtain rfl := Option.some.inj hr
      have hside : _ ↔ Legible o "side" "SELL" :=
        shown_iff_says_iff (by decide) (by decide) ⟨by decide, by decide⟩ hstated.1
      have htype : _ ↔ Legible o "type" "LIMIT" :=
        shown_iff_says_iff (by decide) (by decide) ⟨by decide, by decide⟩ hstated.2
      rw [← hside, ← htype, ← s.manualRequest_side_iff, ← s.manualRequest_type_iff]
      rfl
  | some r' =>
      rw [s.core.submitManualOrder_taken env.nowMs _ hc hid] at hr
      obtain rfl := Option.some.inj (hid.symm.trans hr)
      rfl

end ApiState

/-- In every reachable state a manual order is taken at its word exactly when
its quantity is refused or its side and type are stated plainly. -/
theorem taken_at_its_word_iff (b : Startup) (es : List ApiEvent) (env : RequestEnv)
    (o : WrittenObject) :
    (service b es).TakenAtItsWord env o ↔
      ((service b es).manualRequest o.text).qty ≤ 0 ∨ (service b es).PlainlyStated o := by
  have hc := service_settled b es
  generalize service b es = s at hc ⊢
  by_cases hqty : (s.manualRequest o.text).qty ≤ 0
  · have hreply := s.postManualOrder_of_refused env hqty
    refine iff_of_true ⟨fun h ↦ ?_, fun _ ↦ ?_⟩ (Or.inl hqty)
    · rw [hreply] at h
      exact absurd h (by decide : (400 : ℕ) ≠ 200)
    · rw [hreply]
      exact ⟨rfl, rfl, rfl⟩
  · obtain ⟨ord, hord, hreply⟩ := s.postManualOrder_reply env o.text hc hqty
    have hstatus : (s.postManualOrder env o.text).2.status = 200 := by rw [hreply]; rfl
    have hcore := s.postManualOrder_core env o.text
    rw [if_neg hqty] at hcore
    have hmatches := fun hstated ↦ s.matches_submitted_iff env o hc hstated hord
    rw [or_iff_right hqty]
    constructor
    · rintro ⟨haccepted, -⟩
      obtain ⟨hstated, r, hr, hr'⟩ := haccepted hstatus
      rw [hcore, hord] at hr
      obtain rfl := Option.some.inj hr
      exact ⟨hstated, (hmatches hstated).mp hr'⟩
    · rintro ⟨hstated, hrecord⟩
      refine ⟨fun _ ↦ ⟨hstated, ord, ?_, (hmatches hstated).mpr hrecord⟩, fun h ↦ absurd hstated h⟩
      rw [hcore, hord]

/-- `0.0001`. -/
def smallQty : Number :=
  { plainQty with
    fracPart := "0001"
    isDigit_of_mem_frac := List.all_eq_true.mp rfl }

/-- `{"side":"sell","qty":0.0001}`. -/
def lowerCaseSell : WrittenObject :=
  .compact [("side", .string "sell"), ("qty", .number smallQty)] (by decide +kernel) (by decide)
    (by decide +kernel)

/-- A sell in lower case is entered as a buy. -/
theorem lower_case_sell_bought :
    ¬ ∀ (b : Startup) (es : List ApiEvent) (env : RequestEnv) (o : WrittenObject),
      (service b es).TakenAtItsWord env o := by
  intro h
  let s := service liveStartup [.tick 1 ⟨"BTCUSDT", lit 60000, 1, 1, .webSocket⟩]
  have htaken : s.TakenAtItsWord (quietEnv 2) lowerCaseSell := h _ _ _ _
  have hstatus : (s.postManualOrder (quietEnv 2) lowerCaseSell.text).2.status = 200 := by
    decide +kernel
  obtain ⟨⟨hside, -⟩, -⟩ := htaken.accepted hstatus
  obtain ⟨t, ht, w, hw, hmeaning⟩ := hside (.string "sell") ⟨_, List.mem_cons_self, rfl, rfl⟩
  obtain rfl := FlatValue.string.inj ht
  simp only [List.mem_cons, List.not_mem_nil, or_false] at hw
  rcases hw with rfl | rfl <;> exact absurd hmeaning (by decide)

end FrogQuant.App
