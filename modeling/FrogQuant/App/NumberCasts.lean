import FrogQuant.App.ServiceRuns
import FrogQuant.Lib.JsonTree

/-!
# From numbers to integers

Two routes convert a number of the body to an integer: the grid configuration
its `levels`, and the manual cancel its `internal_order_id`.  The conversion
comes before any check, or without one.  What the client has sent is the number
that the JSON text holds under the key; what is converted is the `double` of
the numeral that the reader finds.
-/

namespace FrogQuant.App

open Json

/-! ## The number sent and the numeral found -/

/-- The number that a body holds under a key, as the JSON grammar has it. -/
def numberSent (body key : Text) : Option ℚ :=
  ((read body).bind (Tree.get? key)).bind Tree.number?

/-- The number of the digits, points and minus signs that stand behind the first
colon after the key. -/
def numeralFound (body key : Text) : Option ℚ := do
  let p ← valuePos body key
  match Strtod.strtod (body.substr p (Text.spanLength Strtod.isPlain body p)) with
  | some (.finite q) => some q
  | _ => none

/-- An integer of a type that holds those from `lo` to `hi`. -/
def IsIntIn (lo hi : ℤ) (q : ℚ) : Prop := ∃ n : ℤ, (n : ℚ) = q ∧ lo ≤ n ∧ n ≤ hi

theorem stod_of_plain {t : Text} (ht : ∀ c ∈ t, Strtod.isPlain c = true) :
    Strtod.stod t =
      ((match Strtod.strtod t with
        | some (.finite q) => some q
        | _ => none).filter Strtod.inRange).map ofRat := by
  cases hread : Strtod.strtod t with
  | none => simp [Strtod.stod, hread]
  | some x =>
      cases x with
      | finite q =>
          simp only [Strtod.stod, hread, Option.filter_some]
          split_ifs <;> rfl
      | inf neg =>
          have hstod : Strtod.stod t = some (.inf neg) := by simp [Strtod.stod, hread]
          cases Strtod.stod_isFinite ht hstod
      | nan =>
          have hstod : Strtod.stod t = some .nan := by simp [Strtod.stod, hread]
          cases Strtod.stod_isFinite ht hstod

/-- The numeral is read unless `std::stod` reports it out of range. -/
theorem jsonGetNumber_eq_filter (body key : Text) :
    jsonGetNumber body key = ((numeralFound body key).filter Strtod.inRange).map ofRat := by
  rw [jsonGetNumber, numeralFound]
  cases hpos : valuePos body key with
  | none => rfl
  | some p =>
      have hplain : ∀ c ∈ body.substr p (Text.spanLength Strtod.isPlain body p),
          Strtod.isPlain c = true := by
        intro c hc
        rw [Text.substr_spanLength] at hc
        exact List.mem_takeWhile_imp hc
      simp only [Option.bind_eq_bind, Option.bind_some]
      rw [← stod_of_plain hplain]
      split_ifs with hzero
      · rw [hzero]
        rfl
      · rfl

/-- What is read is the nearest `double` of the numeral. -/
theorem jsonGetNumber_eq_some_iff (body key : Text) (x : Double) :
    jsonGetNumber body key = some x ↔ ∃ q, numeralFound body key = some q ∧
      Strtod.inRange q = true ∧ x = .finite (Binary64.nearest q) := by
  have hstored : ∀ q, Strtod.inRange q = true → ofRat q = .finite (Binary64.nearest q) :=
    fun q hrange ↦ Double.ofRat_of_not_overflows (not_le.mpr (Strtod.abs_lt_of_inRange hrange))
  rw [jsonGetNumber_eq_filter, Option.map_eq_some_iff]
  constructor
  · rintro ⟨q, hq, rfl⟩
    obtain ⟨hfound, hrange⟩ := Option.filter_eq_some_iff.mp hq
    exact ⟨q, hfound, hrange, hstored q hrange⟩
  · rintro ⟨q, hfound, hrange, rfl⟩
    exact ⟨q, Option.filter_eq_some_iff.mpr ⟨hfound, hrange⟩, hstored q hrange⟩

/-! ## The two conversions -/

/-- A conversion as it should be: what is cast is representable, `Taken` is what
the handler makes of exactly the number sent, and a number that is no integer of
the type is answered 400. -/
structure Converts (lo hi : ℤ) (body key : Text) (Taken : ℚ → Prop) (status : ℕ) : Prop where
  representable : ∀ q, jsonGetNumber body key = some (.finite q) →
    lo ≤ truncate q ∧ truncate q ≤ hi
  taken : ∀ x, jsonGetNumber body key = some x → ∃ q, numberSent body key = some q ∧ Taken q
  refused : ∀ q, numberSent body key = some q → ¬ IsIntIn lo hi q → status = 400

/-- Where the numeral found can be read at all, the number sent is an integer of
the type, and the integer part of the numeral's `double` is that number. -/
def SendsInt (lo hi : ℤ) (body key : Text) : Prop :=
  ∀ q, numeralFound body key = some q → Strtod.inRange q = true →
    ∃ n : ℤ, numberSent body key = some (n : ℚ) ∧ lo ≤ n ∧ n ≤ hi ∧
      truncate (Binary64.nearest q) = n

theorem castInt_of_mem {lo hi undef : ℤ} {q : ℚ} (h : lo ≤ truncate q ∧ truncate q ≤ hi) :
    castInt lo hi undef (.finite q) = truncate q :=
  if_pos h

/-- If the handler takes the integer part of what is read, the first two parts
of a conversion come to the condition on what is sent. -/
theorem sendsInt_iff {lo hi : ℤ} {body key : Text} {Taken : ℚ → Prop}
    (htaken : ∀ x, jsonGetNumber body key = some (.finite x) → lo ≤ truncate x ∧ truncate x ≤ hi →
      ∀ q, Taken q ↔ (truncate x : ℚ) = q) :
    ((∀ q, jsonGetNumber body key = some (.finite q) → lo ≤ truncate q ∧ truncate q ≤ hi) ∧
      ∀ x, jsonGetNumber body key = some x → ∃ q, numberSent body key = some q ∧ Taken q) ↔
      SendsInt lo hi body key := by
  constructor
  · rintro ⟨hrepresentable, hsent⟩ q hfound hrange
    have hread := (jsonGetNumber_eq_some_iff body key _).mpr ⟨q, hfound, hrange, rfl⟩
    have hmem := hrepresentable _ hread
    obtain ⟨q', hq', htakes⟩ := hsent _ hread
    have hvalue := (htaken _ hread hmem q').mp htakes
    exact ⟨_, hvalue ▸ hq', hmem.1, hmem.2, rfl⟩
  · intro h
    have hint : ∀ x, jsonGetNumber body key = some x → ∃ (y : ℚ) (n : ℤ), x = .finite y ∧
        numberSent body key = some (n : ℚ) ∧ lo ≤ n ∧ n ≤ hi ∧ truncate y = n := by
      intro x hread
      obtain ⟨q, hfound, hrange, rfl⟩ := (jsonGetNumber_eq_some_iff body key x).mp hread
      obtain ⟨n, hsent, hlo, hhi, htruncate⟩ := h q hfound hrange
      exact ⟨_, n, rfl, hsent, hlo, hhi, htruncate⟩
    constructor
    · intro q hread
      obtain ⟨y, n, hy, -, hlo, hhi, htruncate⟩ := hint _ hread
      rw [Double.finite.inj hy, htruncate]
      exact ⟨hlo, hhi⟩
    · intro x hread
      obtain ⟨y, n, rfl, hsent, hlo, hhi, htruncate⟩ := hint x hread
      refine ⟨n, hsent, (htaken y hread ?_ n).mpr (by rw [htruncate])⟩
      rw [htruncate]
      exact ⟨hlo, hhi⟩

namespace ApiState

variable (s : ApiState) (env : RequestEnv) (body : Text)

/-- The check of the levels sees the number. -/
def LevelsSeen (q : ℚ) : Prop := ((s.requestedGrid env body).levels : ℚ) = q

/-- An order cancelled, and the event recorded. -/
def afterCancel (nowMs id : ℕ) : ApiState :=
  { s with core := (s.core.cancelOrder nowMs id).1 }.pushEvent
    ("manual_cancel id=".toList ++ Decimal.showNat id)

/-- The number is the id that the cancel is executed with and that the event
names; `s'` is the state after it. -/
def CancelNamed (s' : ApiState) (q : ℚ) : Prop :=
  ∃ id : ℕ, (id : ℚ) = q ∧ s' = s.afterCancel env.nowMs id

def ConvertsInRange (req : Request) : Prop :=
  match Route.of req.method req.target with
  | some .postGridConfig =>
      Converts (-2 ^ 31) (2 ^ 31 - 1) req.body "levels" (s.LevelsSeen env req.body)
        (s.handle env req).2.status
  | some .postManualCancel =>
      Converts 0 (2 ^ 64 - 1) req.body "internal_order_id" (s.CancelNamed env (s.handle env req).1)
        (s.handle env req).2.status
  | _ => True

/-- The integer that is read is the one sent; and where a configuration sends
something else that is not read, it is refused for what else it holds. -/
def SendsInRange (req : Request) : Prop :=
  match Route.of req.method req.target with
  | some .postGridConfig =>
      SendsInt (-2 ^ 31) (2 ^ 31 - 1) req.body "levels" ∧
        ∀ q, numberSent req.body "levels" = some q → ¬ IsIntIn (-2 ^ 31) (2 ^ 31 - 1) q →
          gridRefused (s.requestedGrid env req.body)
  | some .postManualCancel => SendsInt 0 (2 ^ 64 - 1) req.body "internal_order_id"
  | _ => True

theorem levels_of_read {q : ℚ} (h : jsonGetNumber body "levels" = some (.finite q)) :
    (s.requestedGrid env body).levels =
      castInt (-2 ^ 31) (2 ^ 31 - 1) env.undefInt (.finite q) := by
  simp only [requestedGrid, jsonGetInt, h, Option.map_some, Option.getD_some]

theorem status_postGridConfig :
    (s.postGridConfig env body).2.status = 400 ↔ gridRefused (s.requestedGrid env body) := by
  constructor
  · intro hstatus
    by_contra h
    rw [s.postGridConfig_of_not_refused env body h] at hstatus
    cases hstatus
  · intro h
    obtain ⟨text, hroute⟩ := s.postGridConfig_of_refused env body h
    rw [hroute]
    rfl

theorem converts_levels_iff :
    Converts (-2 ^ 31) (2 ^ 31 - 1) body "levels" (s.LevelsSeen env body)
        (s.postGridConfig env body).2.status ↔
      SendsInt (-2 ^ 31) (2 ^ 31 - 1) body "levels" ∧
        ∀ q, numberSent body "levels" = some q → ¬ IsIntIn (-2 ^ 31) (2 ^ 31 - 1) q →
          gridRefused (s.requestedGrid env body) := by
  have hseen : ∀ x, jsonGetNumber body "levels" = some (.finite x) →
      -2 ^ 31 ≤ truncate x ∧ truncate x ≤ 2 ^ 31 - 1 →
      ∀ q, s.LevelsSeen env body q ↔ (truncate x : ℚ) = q := by
    intro x hread hmem q
    rw [LevelsSeen, s.levels_of_read env body hread, castInt_of_mem hmem]
  rw [← sendsInt_iff hseen, ← status_postGridConfig]
  exact ⟨fun h ↦ ⟨⟨h.representable, h.taken⟩, h.refused⟩, fun h ↦ ⟨h.1.1, h.1.2, h.2⟩⟩

theorem getLast?_pushEvent (h : 1 ≤ s.maxEvents) (e : Text) :
    (s.pushEvent e).events.getLast? = some e := by
  simp only [pushEvent]
  split_ifs with hfull
  · have hne : s.events ≠ [] := by
      intro hnil
      rw [hnil] at hfull
      simp at hfull
      omega
    obtain ⟨e₀, rest, hevents⟩ := List.exists_cons_of_ne_nil hne
    simp [hevents]
  · simp

/-- The event tells the id apart from all others. -/
theorem afterCancel_injective (h : 1 ≤ s.maxEvents) {nowMs id id' : ℕ}
    (hsame : s.afterCancel nowMs id = s.afterCancel nowMs id') : id = id' := by
  have hlast : ∀ id, (s.afterCancel nowMs id).events.getLast? =
      some ("manual_cancel id=".toList ++ Decimal.showNat id) :=
    fun id ↦ getLast?_pushEvent _ h _
  have htexts := hlast id
  rw [hsame, hlast id', Option.some.injEq, List.append_cancel_left_eq] at htexts
  exact (Decimal.showNat_injective htexts).symm

theorem cancelNamed_iff (hmax : 1 ≤ s.maxEvents) {x : Double}
    (hread : jsonGetNumber body "internal_order_id" = some x) (q : ℚ) :
    s.CancelNamed env (s.postManualCancel env body).1 q ↔ (cancelId env x : ℚ) = q := by
  have hstate : (s.postManualCancel env body).1 = s.afterCancel env.nowMs (cancelId env x) := by
    simp only [postManualCancel, hread, afterCancel]
  rw [hstate]
  constructor
  · rintro ⟨id, hid, hsame⟩
    rw [s.afterCancel_injective hmax hsame, hid]
  · intro h
    exact ⟨_, h, rfl⟩

/-- A cast that is defined takes the integer part. -/
theorem cancelId_of_mem {q : ℚ} (h : 0 ≤ truncate q ∧ truncate q ≤ 2 ^ 64 - 1) :
    (cancelId env (.finite q) : ℚ) = truncate q := by
  have hcast : ((cancelId env (.finite q) : ℕ) : ℤ) = truncate q := by
    rw [cancelId, castInt_of_mem h]
    omega
  rw [← hcast]
  rfl

/-- What cannot be read is answered 400. -/
theorem converts_cancel_iff (hmax : 1 ≤ s.maxEvents) :
    Converts 0 (2 ^ 64 - 1) body "internal_order_id"
        (s.CancelNamed env (s.postManualCancel env body).1)
        (s.postManualCancel env body).2.status ↔
      SendsInt 0 (2 ^ 64 - 1) body "internal_order_id" := by
  have hnamed : ∀ x, jsonGetNumber body "internal_order_id" = some (.finite x) →
      0 ≤ truncate x ∧ truncate x ≤ 2 ^ 64 - 1 →
      ∀ q, s.CancelNamed env (s.postManualCancel env body).1 q ↔ (truncate x : ℚ) = q := by
    intro x hread hmem q
    rw [s.cancelNamed_iff env body hmax hread, cancelId_of_mem env hmem]
  rw [← sendsInt_iff hnamed]
  refine ⟨fun h ↦ ⟨h.representable, h.taken⟩, fun h ↦ ⟨h.1, h.2, fun q hq hnot ↦ ?_⟩⟩
  cases hread : jsonGetNumber body "internal_order_id" with
  | none =>
      simp only [postManualCancel, hread]
      rfl
  | some x =>
      obtain ⟨q', hfound, hrange, rfl⟩ := (jsonGetNumber_eq_some_iff _ _ x).mp hread
      obtain ⟨n, hsent, hlo, hhi, -⟩ := (sendsInt_iff hnamed).mp h q' hfound hrange
      obtain rfl := Option.some.inj (hq.symm.trans hsent)
      exact absurd ⟨n, rfl, hlo, hhi⟩ hnot

theorem maxEvents_next (e : ApiEvent) : (apiMachine.next s e).maxEvents = s.maxEvents := by
  rw [(s.next_eq e).congr maxEvents fun _ _ ↦ rfl]
  cases s.effect e <;> rfl

end ApiState

theorem one_le_maxEvents (b : Startup) (es : List ApiEvent) : 1 ≤ (service b es).maxEvents :=
  apiMachine.run_invariant (P := fun s ↦ 1 ≤ s.maxEvents)
    (fun s e h ↦ (s.maxEvents_next e).symm ▸ h) (Nat.le_max_left 1 b.cfg.maxEventsCache) es

/-- The conversions of a request are in range exactly when the integer that is
read is the one sent. -/
theorem converts_in_range_iff (b : Startup) (es : List ApiEvent) (env : RequestEnv)
    (req : Request) :
    (service b es).ConvertsInRange env req ↔ (service b es).SendsInRange env req := by
  rw [ApiState.ConvertsInRange, ApiState.SendsInRange, ApiState.handle]
  cases Route.of req.method req.target with
  | none => rfl
  | some route =>
      cases route with
      | postGridConfig => exact (service b es).converts_levels_iff env req.body
      | postManualCancel =>
          exact (service b es).converts_cancel_iff env req.body (one_le_maxEvents b es)
      | _ => rfl

/-- `{"internal_order_id":1.5}`. -/
def halfCancel : Request :=
  ⟨"POST", "/trade/manual/cancel", "\x7b\"internal_order_id\":1.5\x7d"⟩

/-- An id of 1.5 is taken for 1. -/
theorem half_taken_for_one :
    ¬ ∀ (b : Startup) (es : List ApiEvent) (env : RequestEnv) (req : Request),
      (service b es).ConvertsInRange env req := by
  intro h
  have hconverts := h liveStartup [] (quietEnv 1) halfCancel
  have hroute : Route.of halfCancel.method halfCancel.target = some .postManualCancel := by
    decide +kernel
  simp only [ApiState.ConvertsInRange, hroute] at hconverts
  have hread : jsonGetNumber halfCancel.body "internal_order_id" = some (.finite (3 / 2)) := by
    decide +kernel
  have hsent : numberSent halfCancel.body "internal_order_id" = some (3 / 2) := by
    decide +kernel
  obtain ⟨q, hq, id, hid, -⟩ := hconverts.taken _ hread
  obtain rfl := Option.some.inj (hsent.symm.trans hq)
  have hdouble : ((2 * id : ℕ) : ℚ) = (3 : ℕ) := by
    push_cast
    rw [hid]
    norm_num
  have hodd : 2 * id = 3 := Nat.cast_injective hdouble
  omega

end FrogQuant.App
