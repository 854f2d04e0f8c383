import MeshExchange.Json.Record
import MeshExchange.Proofs.Json.Records

/-!
# The data of the library in texts

What is written for a phase, an address or a record is read again as what it was, whatever its values are.
The members of a record may come in any order and among others. Settings take what is missing from the
defaults; confirmations and requests are whole or refused.

**Method.** The layout of each record is listed here once more, with the bounds of its integers, and the
schema is shown to follow it field by field: how a field is decoded inverts how it is encoded, and
setting it changes nothing else. The rest holds of every schema that follows a layout.

**Results.**
* `Confirmation.entries`, `Request.entries`, `Settings.entries`, `LogSettings.entries`: the layouts;
* `DataKind.round_trip`: all data are read back from what is written for them;
* `DataKind.overlay_or_demand`: partial settings replace the defaults, partial confirmations and requests
  are refused;
* `DataKind.reprint?_reprint?`: what has been printed is printed again as it is.
-/

namespace MeshExchange

section Codecs

/-- Values of a field are encoded as what its type admits, and decoded from it. -/
structure FieldType.Codes {β : Type} (t : FieldType) (decode : Json → Option β) (encode : β → Json) :
    Prop where
  admits_iff : ∀ j, t.Admits j ↔ ∃ x, encode x = j
  decode_iff : ∀ j x, decode j = some x ↔ encode x = j

namespace Json

theorem toNatBelow?_eq_some_iff {limit n : Nat} {j : Json} :
    j.toNatBelow? limit = some n ↔ n < limit ∧ ofNat n = j := by
  cases j with
  | integer m =>
      simp only [toNatBelow?, Option.ite_none_right_eq_some, Option.some.injEq, ofNat, integer.injEq]
      omega
  | _ => simp [toNatBelow?, ofNat]

theorem toInt64?_eq_some_iff {j : Json} {x : Int64} : j.toInt64? = some x ↔ integer x.toInt = j := by
  cases j with
  | integer n =>
      simp only [toInt64?, Int64.toInt_minValue, Int64.toInt_maxValue, Option.ite_none_right_eq_some,
        Option.some.injEq, integer.injEq]
      constructor
      · rintro ⟨⟨hlow, hhigh⟩, rfl⟩
        exact Int64.toInt_ofInt_of_le hlow (by omega)
      · rintro rfl
        have hlow := x.le_toInt
        have hhigh := x.toInt_lt
        exact ⟨by omega, Int64.ofInt_toInt x⟩
  | _ => simp [toInt64?]

end Json

namespace FieldType

/-- Words are encoded as the numbers below a limit. -/
theorem codes_below {β : Type} {t : FieldType} {limit : Nat} {ofNat : Nat → β} {toNat : β → Nat}
    (ht : ∀ j, t.Admits j ↔ ∃ n, n < limit ∧ j = Json.ofNat n) (hlt : ∀ w, toNat w < limit)
    (hto : ∀ n < limit, toNat (ofNat n) = n) (hof : ∀ w, ofNat (toNat w) = w) :
    t.Codes (fun j => (j.toNatBelow? limit).map ofNat) fun w => .ofNat (toNat w) where
  admits_iff j := by
    rw [ht]
    constructor
    · rintro ⟨n, hn, rfl⟩
      exact ⟨ofNat n, by rw [hto n hn]⟩
    · rintro ⟨w, rfl⟩
      exact ⟨toNat w, hlt w, rfl⟩
  decode_iff j w := by
    simp only [Option.map_eq_some_iff, Json.toNatBelow?_eq_some_iff]
    constructor
    · rintro ⟨n, ⟨hn, rfl⟩, rfl⟩
      rw [hto n hn]
    · exact fun hj => ⟨toNat w, ⟨hlt w, hj⟩, hof w⟩

theorem codes_byte : byte.Codes Json.toWord8? fun w => .ofNat w.toNat :=
  codes_below (fun _ => Iff.rfl) UInt8.toNat_lt (fun _ => UInt8.toNat_ofNat_of_lt')
    fun _ => UInt8.ofNat_toNat

theorem codes_word : word.Codes Json.toWord16? fun w => .ofNat w.toNat :=
  codes_below (fun _ => Iff.rfl) UInt16.toNat_lt (fun _ => UInt16.toNat_ofNat_of_lt')
    fun _ => UInt16.ofNat_toNat

theorem codes_address : word.Codes Address.ofJson? Address.toJson where
  admits_iff j := by
    rw [codes_word.admits_iff]
    exact ⟨fun ⟨w, hw⟩ => ⟨⟨w⟩, hw⟩, fun ⟨a, ha⟩ => ⟨a.value, ha⟩⟩
  decode_iff j a := by
    simp only [Address.ofJson?, Option.map_eq_some_iff, codes_word.decode_iff]
    exact ⟨fun ⟨w, hw, ha⟩ => ha ▸ hw, fun ha => ⟨a.value, ha, rfl⟩⟩

theorem codes_long : long.Codes Json.toInt64? fun x => .integer x.toInt where
  admits_iff j := by
    constructor
    · rintro ⟨n, hlow, hhigh, rfl⟩
      exact ⟨Int64.ofInt n, by rw [Int64.toInt_ofInt_of_le hlow hhigh]⟩
    · rintro ⟨x, rfl⟩
      exact ⟨x.toInt, x.le_toInt, x.toInt_lt, rfl⟩
  decode_iff _ _ := Json.toInt64?_eq_some_iff

theorem codes_truth : truth.Codes Json.toBool? .bool where
  admits_iff j := by simp [Admits, eq_comm]
  decode_iff j b := by cases j <;> simp [Json.toBool?, eq_comm]

theorem codes_text : text.Codes Json.toText? fun t => .text (some t) where
  admits_iff j := by simp [Admits, eq_comm]
  decode_iff j t := by cases j <;> simp [Json.toText?, eq_comm]

theorem mapM_toWord8?_eq_some_iff {items : List Json} {bs : List UInt8} :
    items.mapM Json.toWord8? = some bs ↔ (bs.map fun b => .ofNat b.toNat) = items := by
  induction items generalizing bs with
  | nil => cases bs <;> simp
  | cons item items ih =>
      cases bs <;> simp [List.mapM_cons, Option.bind_eq_some_iff, codes_byte.decode_iff, ih]

theorem codes_bytes : bytes.Codes Json.toBytes? .ofBytes where
  admits_iff j := by
    constructor
    · rintro ⟨ns, hns, rfl⟩
      refine ⟨ns.map UInt8.ofNat, ?_⟩
      rw [Json.ofBytes, List.map_map]
      refine congrArg Json.array (List.map_congr_left fun n hn => ?_)
      rw [Function.comp_apply, UInt8.toNat_ofNat_of_lt' (hns n hn)]
      rfl
    · rintro ⟨bs, rfl⟩
      refine ⟨bs.map UInt8.toNat, List.forall_mem_map.2 fun b _ => b.toNat_lt, ?_⟩
      rw [List.map_map]
      rfl
  decode_iff j bs := by
    cases j with
    | array items => simp [Json.toBytes?, Json.ofBytes, mapM_toWord8?_eq_some_iff]
    | _ => simp [Json.toBytes?, Json.ofBytes]

end FieldType

/-- A field that sets one part of a record to what it decodes is what the entry of this part says. -/
theorem Schema.Implements.of_codes {α β : Type} {es : List (Schema.Entry α)} {t : FieldType}
    {decode : Json → Option β} {encode : β → Json} (hcodes : t.Codes decode encode) {name : String}
    {part : α → β} {set : α → β → α} (hpart : ∀ a x, part (set a x) = x)
    (hframe : ∀ a x, ∀ e ∈ es, e.name ≠ name → e.value (set a x) = e.value a) :
    Schema.Implements es ⟨name, fun j a => (decode j).map (set a), fun a => encode (part a)⟩
      ⟨name, t, fun a => encode (part a)⟩ where
  name := rfl
  get := rfl
  admits_value a := (hcodes.admits_iff _).2 ⟨_, rfl⟩
  isSome_put j a := by
    rw [Option.isSome_map, Option.isSome_iff_exists, hcodes.admits_iff]
    simp only [hcodes.decode_iff]
  value_put hput := by
    obtain ⟨x, hx, rfl⟩ := Option.map_eq_some_iff.1 hput
    exact (congrArg encode (hpart _ x)).trans ((hcodes.decode_iff _ _).1 hx)
  frame_put hput e he hname := by
    obtain ⟨x, hx, rfl⟩ := Option.map_eq_some_iff.1 hput
    exact hframe _ x e he hname

end Codecs
section Layouts

/-- The entries of a confirmation. -/
def Confirmation.entries : List (Schema.Entry Confirmation) :=
  [⟨"hop_count", .byte, fun c => .integer c.hops.toNat⟩,
   ⟨"timeslot_length", .byte, fun c => .integer c.slot.toNat⟩,
   ⟨"hop_count_response", .byte, fun c => .integer c.responseHops.toNat⟩]

/-- The entries of a request. -/
def Request.entries : List (Schema.Entry Request) :=
  [⟨"address", .word, fun r => .integer r.address.value.toNat⟩,
   ⟨"peripheral", .byte, fun r => .integer r.peripheral.toNat⟩,
   ⟨"command", .byte, fun r => .integer r.command.toNat⟩,
   ⟨"hw_profile", .word, fun r => .integer r.profile.toNat⟩,
   ⟨"data", .bytes, fun r => .array (r.data.map fun b => .integer b.toNat)⟩]

/-- The entries of settings. -/
def Settings.entries : List (Schema.Entry Settings) :=
  [⟨"time_to_wait_for_confirmation_ms", .long, fun s => .integer s.confirmationWait.toInt⟩,
   ⟨"base_time_to_wait_for_response_ms", .long, fun s => .integer s.responseBase.toInt⟩,
   ⟨"state_change_timeout_ms", .long, fun s => .integer s.stateChangeTimeout.toInt⟩,
   ⟨"join_grace_period_ms", .long, fun s => .integer s.joinGracePeriod.toInt⟩,
   ⟨"send_wait_timeout_ms", .long, fun s => .integer s.sendWaitTimeout.toInt⟩]

/-- The entries of settings of the log. -/
def LogSettings.entries : List (Schema.Entry LogSettings) :=
  [⟨"service_name", .text, fun s => .text (some s.serviceName)⟩,
   ⟨"log_level", .text, fun s => .text (some s.level)⟩,
   ⟨"console_output", .truth, fun s => .bool s.console⟩,
   ⟨"json_logs", .truth, fun s => .bool s.json⟩]

theorem Confirmation.schema_follows : schema.Follows entries where
  fields :=
    .cons (.of_codes FieldType.codes_byte (fun _ _ => rfl) (by simp [entries])) <|
    .cons (.of_codes FieldType.codes_byte (fun _ _ => rfl) (by simp [entries])) <|
    .cons (.of_codes FieldType.codes_byte (fun _ _ => rfl) (by simp [entries])) .nil
  nodup := by decide
  ext {a b} h := by
    cases a
    cases b
    simpa [entries, UInt8.toNat_inj] using h

theorem Request.schema_follows : schema.Follows entries where
  fields :=
    .cons (.of_codes FieldType.codes_address (fun _ _ => rfl) (by simp [entries])) <|
    .cons (.of_codes FieldType.codes_byte (fun _ _ => rfl) (by simp [entries])) <|
    .cons (.of_codes FieldType.codes_byte (fun _ _ => rfl) (by simp [entries])) <|
    .cons (.of_codes FieldType.codes_word (fun _ _ => rfl) (by simp [entries])) <|
    .cons (.of_codes FieldType.codes_bytes (fun _ _ => rfl) (by simp [entries])) .nil
  nodup := by decide
  ext {a b} h := by
    have hbytes : Function.Injective fun w : UInt8 => Json.integer w.toNat :=
      fun v w hvw => by simpa [UInt8.toNat_inj] using hvw
    obtain ⟨⟨_⟩, _, _, _, _⟩ := a
    obtain ⟨⟨_⟩, _, _, _, _⟩ := b
    simpa [entries, UInt8.toNat_inj, UInt16.toNat_inj, hbytes.list_map.eq_iff] using h

theorem Settings.schema_follows : schema.Follows entries where
  fields :=
    .cons (.of_codes FieldType.codes_long (fun _ _ => rfl) (by simp [entries])) <|
    .cons (.of_codes FieldType.codes_long (fun _ _ => rfl) (by simp [entries])) <|
    .cons (.of_codes FieldType.codes_long (fun _ _ => rfl) (by simp [entries])) <|
    .cons (.of_codes FieldType.codes_long (fun _ _ => rfl) (by simp [entries])) <|
    .cons (.of_codes FieldType.codes_long (fun _ _ => rfl) (by simp [entries])) .nil
  nodup := by decide
  ext {a b} h := by
    cases a
    cases b
    simpa [entries, Int64.toInt_inj] using h

theorem LogSettings.schema_follows : schema.Follows entries where
  fields :=
    .cons (.of_codes FieldType.codes_text (fun _ _ => rfl) (by simp [entries])) <|
    .cons (.of_codes FieldType.codes_text (fun _ _ => rfl) (by simp [entries])) <|
    .cons (.of_codes FieldType.codes_truth (fun _ _ => rfl) (by simp [entries])) <|
    .cons (.of_codes FieldType.codes_truth (fun _ _ => rfl) (by simp [entries])) .nil
  nodup := by decide
  ext {a b} h := by
    cases a
    cases b
    simpa [entries] using h

end Layouts

section Texts

theorem Phase.ofJson?_toJson (p : Phase) : ofJson? p.toJson = some p := by
  cases p <;> rfl

theorem Address.ofJson?_toJson (a : Address) : ofJson? a.toJson = some a :=
  (FieldType.codes_address.decode_iff _ _).2 rfl

/-- **All data are read back** from what is written for them, and records from an array of their values and
from an object with their members in any order and among others; but no record is read from an object with
a name that is no text. -/
theorem DataKind.round_trip :
    (∀ p : Phase, (Json.parse p.toJson.write).bind Phase.ofJson? = some p) ∧
      (∀ a : Address, (Json.parse a.toJson.write).bind Address.ofJson? = some a) ∧
      Confirmation.schema.RoundTrips Confirmation.entries ∧
      Request.schema.RoundTrips Request.entries ∧
      Settings.schema.RoundTrips Settings.entries ∧
      LogSettings.schema.RoundTrips LogSettings.entries := by
  refine ⟨fun p => ?_, fun a => ?_, Confirmation.schema_follows.roundTrips,
    Request.schema_follows.roundTrips, Settings.schema_follows.roundTrips,
    LogSettings.schema_follows.roundTrips⟩
  · rw [Json.parse_write, Option.bind_some, Phase.ofJson?_toJson]
  · rw [Json.parse_write, Option.bind_some, Address.ofJson?_toJson]

/-- A confirmation is read among other members, with its own in another order. -/
theorem DataKind.round_trip_among_others :
    Confirmation.schema.ofText? (Json.write (.object
      [(some "x", .array []), (some "hop_count_response", .integer 1), (some "x", .integer 0),
        (some "hop_count", .integer 1), (some "timeslot_length", .integer 8)])) = some ⟨1, 8, 1⟩ := by
  refine DataKind.round_trip.2.2.1.members _ _ _ (Json.document_write (.refl _)) (by simp) ?_
  exact @List.perm_append_comm _ [(some "hop_count_response", Json.integer 1)] _

/-- A member whose name is half of a pair is no member like others: the confirmation beside it is
not read. -/
theorem Confirmation.not_read_beside_half :
    ∃ text : List Char,
      text = ("\x7b\"\\ud800\":null,\"hop_count\":1," ++
        "\"timeslot_length\":8,\"hop_count_response\":1\x7d").toList ∧
      Json.Document text
        (.object ((none, .null) :: entries.map fun e => (some e.name, e.value ⟨1, 8, 1⟩))) ∧
      schema.ofText? text ≠ some ⟨1, 8, 1⟩ := by
  refine ⟨_, rfl, ?_, by decide +kernel⟩
  have htext : ("\x7b\"\\ud800\":null,\"hop_count\":1," ++
      "\"timeslot_length\":8,\"hop_count_response\":1\x7d").toList =
      (Json.object ((none, .null) :: entries.map fun e => (some e.name, e.value ⟨1, 8, 1⟩))).write := by
    decide +kernel
  rw [htext]
  exact Json.document_write (.refl _)

/-- **What is given of settings replaces the defaults**, and nothing else of them; a confirmation or a
request is read if all of it is given, and only then. -/
theorem DataKind.overlay_or_demand :
    Settings.schema.Overlays Settings.entries {} ∧
      LogSettings.schema.Overlays LogSettings.entries {} ∧
      Confirmation.schema.Demands Confirmation.entries ∧
      Request.schema.Demands Request.entries :=
  ⟨Settings.schema_follows.overlays rfl, LogSettings.schema_follows.overlays rfl,
    Confirmation.schema_follows.demands rfl, Request.schema_follows.demands rfl⟩

/-- One time among other members: the others are the defaults. -/
theorem DataKind.overlay_or_demand_one_time :
    Settings.schema.ofText? (Json.write (.object
      [(some "x", .null), (some "join_grace_period_ms", .integer 5), (some "x", .integer 0)])) =
      some { joinGracePeriod := 5 } := by
  have hfit : Schema.Fits Settings.entries
      [(some "x", .null), (some "join_grace_period_ms", .integer 5), (some "x", .integer 0)] := by
    have hlong : ∀ e ∈ Settings.entries, e.type = .long := by simp [Settings.entries]
    have hother : ∀ e ∈ Settings.entries, e.name ≠ "x" := by simp [Settings.entries]
    refine ⟨by simp, by decide, fun e he j hj => ?_⟩
    obtain ⟨-, rfl⟩ : e.name = "join_grace_period_ms" ∧ j = .integer 5 := by
      simpa [hother e he] using hj
    rw [hlong e he]
    exact ⟨5, by decide, by decide, rfl⟩
  obtain ⟨s, hread, hvalue⟩ :=
    DataKind.overlay_or_demand.1.members _ _ (Json.document_write (.refl _)) hfit
  rw [hread, Option.some.injEq]
  refine Settings.schema_follows.ext fun e he => (hvalue e he).trans ?_
  simp only [Settings.entries, List.mem_cons, List.not_mem_nil, or_false] at he
  rcases he with rfl | rfl | rfl | rfl | rfl <;> rfl

/-- An object whose only name is half of a pair gives no setting, and yet the defaults are not read
from it. -/
theorem Settings.defaults_not_read_beside_half :
    ∃ text : List Char,
      text = "\x7b\"\\ud800\":null\x7d".toList ∧
      Json.Document text (.object [(none, .null)]) ∧ schema.ofText? text ≠ some {} := by
  refine ⟨_, rfl, ?_, by decide +kernel⟩
  have htext : "\x7b\"\\ud800\":null\x7d".toList = (Json.object [(none, .null)]).write := by
    decide +kernel
  rw [htext]
  exact Json.document_write (.refl _)

theorem DataKind.normal?_normal? {kind : DataKind} {i j : Json} (h : kind.normal? i = some j) :
    kind.normal? j = some j := by
  cases kind <;> obtain ⟨a, -, rfl⟩ := Option.map_eq_some_iff.1 h
  · rw [normal?, a.ofJson?_toJson, Option.map_some]
  · rw [normal?, a.ofJson?_toJson, Option.map_some]
  · rw [normal?, Confirmation.schema_follows.read_write, Option.map_some]
  · rw [normal?, Request.schema_follows.read_write, Option.map_some]
  · rw [normal?, Settings.schema_follows.read_write, Option.map_some]
  · rw [normal?, LogSettings.schema_follows.read_write, Option.map_some]

/-- **What has been printed** as data of a kind is read as data of this kind, and printed as it is. -/
theorem DataKind.reprint?_reprint? {kind : DataKind} {text text' : String}
    (h : kind.reprint? text = some text') : kind.reprint? text' = some text' := by
  obtain ⟨j, hj, rfl⟩ := Option.map_eq_some_iff.1 h
  obtain ⟨i, -, hnormal⟩ := Option.bind_eq_some_iff.1 hj
  rw [reprint?, String.toList_ofList, Json.parse_write, Option.bind_some, normal?_normal? hnormal,
    Option.map_some]

end Texts

end MeshExchange
