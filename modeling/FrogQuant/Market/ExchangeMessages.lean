import FrogQuant.Execution.BinanceTestnetExecution
import FrogQuant.Lib.Numeral
import FrogQuant.Lib.PrintedNumber
import FrogQuant.Market.BinanceClients

/-!
# Flat messages of the exchange

The two copies of `extract_json_value` skip different white space and agree on
compact flat objects: each returns what the object holds under the key.
-/

namespace FrogQuant

open Json

section Extractors

variable (o : FlatObject) {key : Text}

theorem BinanceWsClient.extractJsonValue_eq (hne : key ≠ [])
    (halnum : ∀ c ∈ key, c.isAlphanum = true) : extractJsonValue o.text key = o.textOf key :=
  extractText_eq hne halnum (fun _ hc ↦ hc) o

theorem BinanceTestnetExecution.isSpace_of_isBlank (c : Char) (h : isBlank c = true) :
    Strtod.isSpace c = true := by
  simp only [isBlank, Bool.or_eq_true, decide_eq_true_eq] at h
  rcases h with rfl | rfl <;> decide

theorem BinanceTestnetExecution.extractJsonValue_eq (hne : key ≠ [])
    (halnum : ∀ c ∈ key, c.isAlphanum = true) : extractJsonValue o.text key = o.textOf key :=
  extractText_eq hne halnum isSpace_of_isBlank o

end Extractors

/-- The three fields that the parser of a trade asks for. -/
theorem BinanceWsClient.parseTradeJson_of_holds [NumberFormat] {o : FlatObject} {s : Text}
    {p e : FlatValue} {price : Double} {ts : ℕ} (nowMs : ℕ) (hs : o.Holds "s" (.string s))
    (hne : s ≠ []) (hp : o.Holds "p" p) (hprice : Numeral.double p.bareText = some price)
    (he : o.Holds "E" e) (hts : Numeral.size e.bareText = some ts) :
    parseTradeJson o.text nowMs = some ⟨s, price, ts, nowMs, .webSocket⟩ := by
  have hsym : extractJsonValue o.text "s" = s := by
    rw [extractJsonValue_eq o (by decide) (List.all_eq_true.mp (by decide)), o.textOf_of_holds hs]
    rfl
  have hpText : extractJsonValue o.text "p" = p.bareText := by
    rw [extractJsonValue_eq o (by decide) (List.all_eq_true.mp (by decide)), o.textOf_of_holds hp]
  have heText : extractJsonValue o.text "E" = e.bareText := by
    rw [extractJsonValue_eq o (by decide) (List.all_eq_true.mp (by decide)), o.textOf_of_holds he]
  have hpNe : p.bareText ≠ [] := by
    intro hnil
    rw [hnil] at hprice
    cases hprice
  have heNe : e.bareText ≠ [] := by
    intro hnil
    rw [hnil] at hts
    cases hts
  simp only [parseTradeJson, hsym, hpText, heText, hne, hpNe, heNe, or_self, if_false,
    Numeral.stod_of_double hprice, Numeral.stoull_of_size hts, Option.bind_eq_bind,
    Option.bind_some, Option.pure_def]

/-- An order identifier is found exactly when the message holds one. -/
theorem BinanceTestnetExecution.parseOrderIdFromJson_iff (o : FlatObject) (id : Text) :
    parseOrderIdFromJson o.text = some id ↔
      id ≠ [] ∧ ∃ v, o.Holds "orderId" v ∧ v.bareText = id := by
  have hid : extractJsonValue o.text "orderId" = o.textOf "orderId" :=
    extractJsonValue_eq o (by decide) (List.all_eq_true.mp (by decide))
  rw [parseOrderIdFromJson, hid, Option.ite_none_left_eq_some]
  constructor
  · rintro ⟨hne, hsome⟩
    obtain rfl := Option.some.inj hsome
    exact ⟨hne, (o.textOf_eq_iff hne).mp rfl⟩
  · rintro ⟨hne, hmem⟩
    have htext := (o.textOf_eq_iff hne).mpr hmem
    exact ⟨htext ▸ hne, congrArg some htext⟩

/-- Both extractors return what the object holds, and so the parsers built on
them read the fields of a message wherever they stand. -/
theorem extractors_exact [NumberFormat] (o : FlatObject) :
    (∀ key : Text, key ≠ [] → (∀ c ∈ key, c.isAlphanum = true) →
      BinanceWsClient.extractJsonValue o.text key = o.textOf key ∧
        BinanceTestnetExecution.extractJsonValue o.text key = o.textOf key) ∧
    (∀ (s : Text) (p e : FlatValue) (price : Double) (ts nowMs : ℕ), s ≠ [] →
      o.Holds "s" (.string s) →
      o.Holds "p" p → Numeral.double p.bareText = some price →
      o.Holds "E" e → Numeral.size e.bareText = some ts →
      BinanceWsClient.parseTradeJson o.text nowMs = some ⟨s, price, ts, nowMs, .webSocket⟩) ∧
    ∀ id : Text, BinanceTestnetExecution.parseOrderIdFromJson o.text = some id ↔
      id ≠ [] ∧ ∃ v, o.Holds "orderId" v ∧ v.bareText = id := by
  refine ⟨fun key hne halnum ↦ ⟨?_, ?_⟩, ?_, ?_⟩
  · exact BinanceWsClient.extractJsonValue_eq o hne halnum
  · exact BinanceTestnetExecution.extractJsonValue_eq o hne halnum
  · intro s p e price ts nowMs hne hs hp hprice he hts
    exact BinanceWsClient.parseTradeJson_of_holds nowMs hs hne hp hprice he hts
  · exact BinanceTestnetExecution.parseOrderIdFromJson_iff o

/-- `{"E":1710000000123,"s":"BTCUSDT","p":"68120.12"}`. -/
def tradeMessage : FlatObject where
  members :=
    [("E", .number (intNumber 1710000000123)), ("s", .string "BTCUSDT"), ("p", .string "68120.12")]
  keys_nodup := by decide
  verbatim_keys := by
    intro m hm
    simp only [List.mem_cons, List.not_mem_nil, or_false] at hm
    rcases hm with rfl | rfl | rfl <;> exact ⟨by decide, by decide⟩
  verbatim_strings := by
    intro m hm t ht
    simp only [List.mem_cons, List.not_mem_nil, or_false] at hm
    rcases hm with rfl | rfl | rfl <;> cases ht <;> exact ⟨by decide, by decide⟩

theorem extractors_exact_tradeMessage :
    BinanceWsClient.parseTradeJson tradeMessage.text 5 =
      some ⟨"BTCUSDT", ofRat 68120.12, 1710000000123, 5, .webSocket⟩ := by
  refine (extractors_exact tradeMessage).2.1 "BTCUSDT" (.string "68120.12")
    (.number (intNumber 1710000000123)) (ofRat 68120.12) 1710000000123 5 (by decide) ?_ ?_
    (by decide +kernel) ?_ (by decide +kernel)
  · simp [FlatObject.Holds, tradeMessage]
  · simp [FlatObject.Holds, tradeMessage]
  · simp [FlatObject.Holds, tradeMessage]

end FrogQuant
