import MeshExchange.Proofs.Budget.AirTime
import MeshExchange.Proofs.Settings.Validity

/-!
# Budgets in bounded numbers

Budgets are computed in numbers of 64 bits and in spans of time, which count whole seconds in 64 bits and
nanoseconds beyond them. A product or a sum that does not fit has no result. With the confirmations that
frames can hold and the times that can be set, every product and every sum fits.

**Method.** A checked operation gives the exact result if that fits, so a budget in bounded numbers is
the budget as soon as all that is computed on the way is bounded. A way through the mesh is bounded by
the bytes of a confirmation, a base by the 64 bits of a setting.

**Results.**
* `Bounded.add?`, `Bounded.mul?`: checked sums and products;
* `Span`, `Span.add?`, `Span.sub`: spans of time, their checked sum and what is left of one;
* `Bounded.routing?` and the budgets after it: the budgets in bounded numbers;
* `Bounded.Fits`, `Bounded.fits_of_validate`: none of them overflows, and each is the budget;
* `Budget.closed_of_validate`: when lingers end, in closed form and without an overflow.
-/

namespace MeshExchange

namespace Bounded

section Checked

variable {a b : UInt64}

/-- A sum in 64 bits, if it fits. -/
def add? (a b : UInt64) : Option UInt64 :=
  if a.toNat + b.toNat < UInt64.size then some (a + b) else none

/-- A product in 64 bits, if it fits. -/
def mul? (a b : UInt64) : Option UInt64 :=
  if a.toNat * b.toNat < UInt64.size then some (a * b) else none

theorem exists_add? (h : a.toNat + b.toNat < UInt64.size) :
    ∃ c, add? a b = some c ∧ c.toNat = a.toNat + b.toNat :=
  ⟨a + b, if_pos h, (UInt64.toNat_add a b).trans (Nat.mod_eq_of_lt h)⟩

theorem exists_mul? (h : a.toNat * b.toNat < UInt64.size) :
    ∃ c, mul? a b = some c ∧ c.toNat = a.toNat * b.toNat :=
  ⟨a * b, if_pos h, (UInt64.toNat_mul a b).trans (Nat.mod_eq_of_lt h)⟩

end Checked

end Bounded

/-- A span of time: whole seconds in 64 bits, and the nanoseconds beyond them. -/
structure Span where
  seconds : UInt64
  nanos : UInt32
  nanos_lt : nanos.toNat < 1000000000

namespace Span

section Length

/-- A span in nanoseconds. -/
def length (a : Span) : Nat := a.seconds.toNat * 1000000000 + a.nanos.toNat

theorem length_eq (a : Span) : a.length = a.seconds.toNat * 1000000000 + a.nanos.toNat := rfl

/-- Spans are shorter than this. -/
def limit : Nat := 18446744073709551616 * 1000000000

theorem limit_eq : limit = 18446744073709551616 * 1000000000 := rfl

def zero : Span := ⟨0, 0, by decide⟩

@[simp] theorem length_zero : zero.length = 0 := rfl

/-- The nanoseconds of less than a second fit into 32 bits. -/
theorem toNat_nanos_ofMillis (ms : UInt64) :
    ((ms % 1000).toUInt32 * 1000000).toNat = ms.toNat % 1000 * 1000000 := by
  have h : ms.toNat % 1000 < 1000 := Nat.mod_lt _ (by decide)
  simp only [UInt32.toNat_mul, UInt64.toNat_toUInt32, UInt64.toNat_mod, UInt64.reduceToNat,
    UInt32.toNat_ofNat]
  omega

/-- A number of milliseconds. -/
def ofMillis (ms : UInt64) : Span where
  seconds := ms / 1000
  nanos := (ms % 1000).toUInt32 * 1000000
  nanos_lt := by
    have h : ms.toNat % 1000 < 1000 := Nat.mod_lt _ (by decide)
    rw [toNat_nanos_ofMillis]
    omega

theorem length_ofMillis (ms : UInt64) : (ofMillis ms).length = Duration.millis ms.toNat := by
  have hs : (ms / 1000).toNat = ms.toNat / 1000 := UInt64.toNat_div ms 1000
  change (ms / 1000).toNat * 1000000000 + ((ms % 1000).toUInt32 * 1000000).toNat =
    ms.toNat * 1000000
  rw [hs, toNat_nanos_ofMillis]
  omega

end Length

section Checked

variable {a b : Span}

/-- The nanoseconds of two spans together fit into 32 bits. -/
theorem toNat_nanos_add (a b : Span) :
    (a.nanos + b.nanos).toNat = a.nanos.toNat + b.nanos.toNat := by
  have ha := a.nanos_lt
  have hb := b.nanos_lt
  rw [UInt32.toNat_add]
  omega

/-- A full second of nanoseconds is taken off. -/
theorem toNat_nanos_sub_second {nanos : UInt32} (h : ¬ nanos.toNat < 1000000000) :
    (nanos - 1000000000).toNat = nanos.toNat - 1000000000 :=
  UInt32.toNat_sub_of_le nanos 1000000000 (UInt32.le_iff_toNat_le.2 (Nat.not_lt.1 h))

/-- The sum of two spans, if it fits. A full second of nanoseconds is carried over. -/
def add? (a b : Span) : Option Span :=
  (Bounded.add? a.seconds b.seconds).bind fun seconds =>
    if h : (a.nanos + b.nanos).toNat < 1000000000 then some ⟨seconds, a.nanos + b.nanos, h⟩
    else
      (Bounded.add? seconds 1).map fun seconds =>
        ⟨seconds, a.nanos + b.nanos - 1000000000, by
          have ha := a.nanos_lt
          have hb := b.nanos_lt
          rw [toNat_nanos_sub_second h, toNat_nanos_add]
          omega⟩

/-- **A sum that is short enough fits**, and is exact. -/
theorem exists_add? (h : a.length + b.length < limit) :
    ∃ c, a.add? b = some c ∧ c.length = a.length + b.length := by
  have hsum := toNat_nanos_add a b
  rw [length_eq, length_eq, limit_eq] at h
  have hsize : UInt64.size = 18446744073709551616 := rfl
  obtain ⟨seconds, hs, hn⟩ := Bounded.exists_add? (a := a.seconds) (b := b.seconds) (by omega)
  by_cases hc : (a.nanos + b.nanos).toNat < 1000000000
  · refine ⟨⟨seconds, a.nanos + b.nanos, hc⟩, ?_, ?_⟩
    · rw [add?, hs, Option.bind_some, dif_pos hc]
    · simp only [length_eq]
      omega
  · have hone : (1 : UInt64).toNat = 1 := rfl
    obtain ⟨carried, hs', hn'⟩ := Bounded.exists_add? (a := seconds) (b := 1) (by omega)
    refine ⟨_, by rw [add?, hs, Option.bind_some, dif_neg hc, hs', Option.map_some], ?_⟩
    simp only [length_eq, toNat_nanos_sub_second hc]
    omega

/-- A second of nanoseconds is borrowed for what they do not suffice for. -/
theorem toNat_nanos_borrow (a b : Span) :
    (a.nanos + 1000000000 - b.nanos).toNat = a.nanos.toNat + 1000000000 - b.nanos.toNat := by
  have ha := a.nanos_lt
  have hb := b.nanos_lt
  have hsecond : (1000000000 : UInt32).toNat = 1000000000 := rfl
  have hsum : (a.nanos + 1000000000).toNat = a.nanos.toNat + 1000000000 := by
    rw [UInt32.toNat_add, hsecond]
    omega
  have hle : b.nanos ≤ a.nanos + 1000000000 := UInt32.le_iff_toNat_le.2 (by omega)
  rw [UInt32.toNat_sub_of_le _ _ hle, hsum]

/-- What is left of a span after another one, nothing if that is longer. A second is borrowed where the
nanoseconds do not suffice. -/
def sub (a b : Span) : Span :=
  if h : b.nanos ≤ a.nanos then
    if a.seconds < b.seconds then zero
    else
      ⟨a.seconds - b.seconds, a.nanos - b.nanos, by
        have ha := a.nanos_lt
        rw [UInt32.toNat_sub_of_le _ _ h]
        omega⟩
  else if a.seconds ≤ b.seconds then zero
  else
    ⟨a.seconds - b.seconds - 1, a.nanos + 1000000000 - b.nanos, by
      have hlt := UInt32.lt_iff_toNat_lt.1 (UInt32.not_le.1 h)
      have hb := b.nanos_lt
      rw [toNat_nanos_borrow]
      omega⟩

theorem length_sub (a b : Span) : (a.sub b).length = a.length - b.length := by
  have ha := a.nanos_lt
  have hb := b.nanos_lt
  unfold sub
  split
  next h =>
    have hn := UInt32.toNat_sub_of_le _ _ h
    have hle := UInt32.le_iff_toNat_le.1 h
    split
    next hs =>
      have hs' := UInt64.lt_iff_toNat_lt.1 hs
      rw [length_eq a, length_eq b, length_zero]
      omega
    next hs =>
      have hs' := UInt64.le_iff_toNat_le.1 (UInt64.not_lt.1 hs)
      have hd := UInt64.toNat_sub_of_le _ _ (UInt64.not_lt.1 hs)
      simp only [length_eq]
      omega
  next h =>
    have hlt := UInt32.lt_iff_toNat_lt.1 (UInt32.not_le.1 h)
    split
    next hs =>
      have hs' := UInt64.le_iff_toNat_le.1 hs
      rw [length_eq a, length_eq b, length_zero]
      omega
    next hs =>
      have hs' := UInt64.lt_iff_toNat_lt.1 (UInt64.not_le.1 hs)
      have hd := UInt64.toNat_sub_of_le _ _ (UInt64.le_of_lt (UInt64.not_le.1 hs))
      have hone : (1 : UInt64) ≤ a.seconds - b.seconds :=
        UInt64.le_iff_toNat_le.2 (by rw [hd]; exact Nat.sub_pos_of_lt hs')
      have hd' := UInt64.toNat_sub_of_le _ _ hone
      have hone' : (1 : UInt64).toNat = 1 := rfl
      simp only [length_eq, toNat_nanos_borrow, hd', hd]
      omega

end Checked

end Span

namespace Bounded

section Budgets

/-- The time over a number of hops, one slot for each hop and one more. -/
def routing? (hops : UInt8) (slot : UInt64) : Option Span := do
  let legs ← add? hops.toUInt64 1
  let units ← mul? legs slot
  let ms ← mul? units 10
  return .ofMillis ms

/-- The time a confirmed request takes through the mesh. -/
def requestRouting? (c : Confirmation) : Option Span := routing? c.hops c.slot.toUInt64

/-- The time slot of a response, by its length in bytes. -/
def slotOfLength (length : Nat) : UInt64 := if length < 19 then 8 else if length < 41 then 9 else 10

/-- How long to wait for a response. -/
def response? (base : Span) (confirmed : Option Confirmation) : Option Span := do
  let routing ← confirmed.elim (some .zero) requestRouting?
  let waited ← base.add? routing
  waited.add? (.ofMillis 100)

/-- How long the mesh is busy with an exchange. -/
def exchangeTotal? (confirmed : Option Confirmation) (length : Nat) : Option Span :=
  match confirmed with
  | some c => do
      let request ← requestRouting? c
      let response ← routing? c.responseHops (slotOfLength length)
      request.add? response
  | none => do
      let ms ← mul? (slotOfLength length) 10
      return .ofMillis ms

/-- What is left of the linger after a confirmation. -/
def afterConfirmation? (c : Confirmation) (received now : Span) : Option Span := do
  let total ← requestRouting? c
  return total.sub (now.sub received)

/-- What is left of the linger after a response. -/
def afterResponse? (confirmed : Option Confirmation) (length : Nat) (received now : Span) :
    Option Span := do
  let total ← exchangeTotal? confirmed length
  return total.sub (now.sub received)

end Budgets

section Fitting

/-- A bounded result that fits and is a given duration. -/
def Gives (result : Option Span) (d : Duration) : Prop := ∃ a, result = some a ∧ a.length = d

variable {c : Confirmation} {length : Nat} {confirmed : Option Confirmation}

/-- **A sum of spans fits** if it is short enough. -/
theorem gives_add {a b : Span} {d d' : Duration} (ha : a.length = d) (hb : b.length = d')
    (h : d + d' < Span.limit) : Gives (a.add? b) (d + d') := by
  subst ha hb
  exact Span.exists_add? h

theorem Gives.bind {result : Option Span} {next : Span → Option Span} {d d' : Duration}
    (h : Gives result d) (hnext : ∀ a, a.length = d → Gives (next a) d') :
    Gives (result >>= next) d' := by
  obtain ⟨a, rfl, ha⟩ := h
  exact hnext a ha

/-- Milliseconds of a way through the mesh, at most. -/
def legsLimit : Nat := 256 * 255 * 10

/-- **A way through the mesh fits**, as long as a byte can tell its slot. -/
theorem gives_routing (hops : UInt8) (slot : UInt64) (hs : slot.toNat ≤ 255) :
    Gives (routing? hops slot) (Budget.routing hops slot.toNat) := by
  have hh : hops.toUInt64.toNat ≤ 255 := by
    rw [UInt8.toNat_toUInt64]
    exact Nat.le_of_lt_succ hops.toNat_lt
  have hone : (1 : UInt64).toNat = 1 := rfl
  have hten : (10 : UInt64).toNat = 10 := rfl
  have hsize : UInt64.size = 18446744073709551616 := rfl
  obtain ⟨legs, hlegs, hl⟩ := exists_add? (a := hops.toUInt64) (b := 1) (by omega)
  have hunits : legs.toNat * slot.toNat ≤ 256 * 255 := Nat.mul_le_mul (by omega) hs
  obtain ⟨units, hunits?, hu⟩ := exists_mul? (a := legs) (b := slot) (by omega)
  obtain ⟨ms, hms, hm⟩ := exists_mul? (a := units) (b := 10) (by rw [hten]; omega)
  refine ⟨.ofMillis ms, ?_, ?_⟩
  · simp [routing?, hlegs, hunits?, hms]
  · rw [Span.length_ofMillis, hm, hu, hl, UInt8.toNat_toUInt64]
    rfl

theorem routing_le (hops : UInt8) {slot : Nat} (hs : slot ≤ 255) :
    Budget.routing hops slot ≤ Duration.millis legsLimit := by
  have hh : hops.toNat + 1 ≤ 256 := hops.toNat_lt
  exact Confirmation.millis_mono (Nat.mul_le_mul_right 10 (Nat.mul_le_mul hh hs))

theorem slot_le (c : Confirmation) : c.slot.toNat ≤ 255 := Nat.le_of_lt_succ c.slot.toNat_lt

theorem toNat_slotOfLength (length : Nat) :
    (slotOfLength length).toNat = Budget.slotOfLength length := by
  unfold slotOfLength Budget.slotOfLength Budget.shortLimit Budget.mediumLimit
  split
  · rfl
  · split <;> rfl

theorem slotOfLength_le (length : Nat) : Budget.slotOfLength length ≤ 255 := by
  unfold Budget.slotOfLength
  split
  · decide
  · split <;> decide

theorem gives_requestRouting (c : Confirmation) :
    Gives (requestRouting? c) (Budget.requestRouting c) := by
  have h := gives_routing c.hops c.slot.toUInt64 (by
    rw [UInt8.toNat_toUInt64]
    exact slot_le c)
  rw [UInt8.toNat_toUInt64] at h
  exact h

theorem gives_responseRouting (c : Confirmation) (length : Nat) :
    Gives (routing? c.responseHops (slotOfLength length)) (Budget.responseRouting c length) := by
  have h := gives_routing c.responseHops (slotOfLength length) (by
    rw [toNat_slotOfLength]
    exact slotOfLength_le length)
  rw [toNat_slotOfLength] at h
  exact h

/-- Milliseconds of a base that can be set, at most: what 63 bits count. -/
def baseLimit : Nat := 9223372036854775808

/-- **The wait for a response fits**, with any base that can be set. -/
theorem gives_response {base : Span} {timing : Timing} (hb : base.length = timing.responseBase)
    (hle : timing.responseBase ≤ Duration.millis baseLimit) (confirmed : Option Confirmation) :
    Gives (response? base confirmed) (Budget.response timing confirmed) := by
  have hrouting : Gives (confirmed.elim (some .zero) requestRouting?)
      (confirmed.elim 0 Budget.requestRouting) := by
    cases confirmed with
    | none => exact ⟨.zero, rfl, rfl⟩
    | some c => exact gives_requestRouting c
  have hway : confirmed.elim 0 Budget.requestRouting ≤ Duration.millis legsLimit := by
    cases confirmed with
    | none => exact Nat.zero_le _
    | some c => exact routing_le c.hops (slot_le c)
  have hlimit : Duration.millis baseLimit + Duration.millis legsLimit + Duration.millis 100 <
      Span.limit := by decide
  have hwaited := Nat.add_le_add hle hway
  have htotal := Nat.add_le_add hwaited (Nat.le_refl (Duration.millis 100))
  refine hrouting.bind fun a ha => ?_
  refine (gives_add hb ha (Nat.lt_of_le_of_lt (Nat.le_add_right _ _)
    (Nat.lt_of_le_of_lt htotal hlimit))).bind fun waited hw => ?_
  exact gives_add hw (Span.length_ofMillis 100) (Nat.lt_of_le_of_lt htotal hlimit)

theorem gives_exchangeTotal (confirmed : Option Confirmation) (length : Nat) :
    Gives (exchangeTotal? confirmed length) (Budget.exchangeTotal confirmed length) := by
  cases confirmed with
  | none =>
      have hslot := slotOfLength_le length
      rw [← toNat_slotOfLength] at hslot
      have hten : (10 : UInt64).toNat = 10 := rfl
      have hsize : UInt64.size = 18446744073709551616 := rfl
      obtain ⟨ms, hms, hm⟩ := exists_mul? (a := slotOfLength length) (b := 10)
        (by rw [hten]; omega)
      refine ⟨.ofMillis ms, by simp [exchangeTotal?, hms], ?_⟩
      rw [Span.length_ofMillis, hm, toNat_slotOfLength]
      rfl
  | some c =>
      have hlimit : Duration.millis legsLimit + Duration.millis legsLimit < Span.limit := by decide
      have hways := Nat.add_le_add (routing_le c.hops (slot_le c))
        (routing_le c.responseHops (slotOfLength_le length))
      refine (gives_requestRouting c).bind fun request hr => ?_
      refine (gives_responseRouting c length).bind fun response hr' => ?_
      exact gives_add hr hr' (Nat.lt_of_le_of_lt hways hlimit)

theorem gives_afterConfirmation (c : Confirmation) (received now : Span) :
    Gives (afterConfirmation? c received now)
      (Budget.afterConfirmation c received.length now.length) := by
  refine (gives_requestRouting c).bind fun total ht => ⟨_, rfl, ?_⟩
  rw [Span.length_sub, Span.length_sub, ht]
  rfl

theorem gives_afterResponse (confirmed : Option Confirmation) (length : Nat)
    (received now : Span) :
    Gives (afterResponse? confirmed length received now)
      (Budget.afterResponse confirmed length received.length now.length) := by
  refine (gives_exchangeTotal confirmed length).bind fun total ht => ⟨_, rfl, ?_⟩
  rw [Span.length_sub, Span.length_sub, ht]
  rfl

/-- A time that was set and is not negative has the same number of milliseconds without its sign. -/
theorem toNat_toUInt64 {ms : Int64} (h : 0 ≤ ms.toInt) : ms.toUInt64.toNat = ms.toInt.toNat := by
  have hsigned : ms.toInt = ms.toBitVec.toInt := rfl
  have hbits : ms.toUInt64.toNat = ms.toBitVec.toNat := rfl
  have hcond := BitVec.toInt_eq_toNat_cond ms.toBitVec
  rw [hsigned] at h ⊢
  rw [hbits]
  omega

/-- No budget overflows with given settings, and each is the one that an unbounded computation gives. -/
structure Fits (settings : Settings) : Prop where
  timing : Timing.ofSettings settings = .ok settings.timing
  base : (Span.ofMillis settings.responseBase.toUInt64).length = settings.timing.responseBase
  requestRouting : ∀ c, Gives (requestRouting? c) (Budget.requestRouting c)
  responseRouting : ∀ (c : Confirmation) length,
    Gives (routing? c.responseHops (slotOfLength length)) (Budget.responseRouting c length)
  response : ∀ confirmed,
    Gives (response? (.ofMillis settings.responseBase.toUInt64) confirmed)
      (Budget.response settings.timing confirmed)
  afterConfirmation : ∀ c (received now : Span),
    Gives (afterConfirmation? c received now)
      (Budget.afterConfirmation c received.length now.length)
  afterResponse : ∀ confirmed length (received now : Span),
    Gives (afterResponse? confirmed length received now)
      (Budget.afterResponse confirmed length received.length now.length)

/-- **No budget overflows** with valid settings. -/
theorem fits_of_validate {settings : Settings} (h : settings.validate = .ok ()) :
    Fits settings := by
  have hs := Settings.validate_eq_ok_iff.1 h
  have hbase : (Span.ofMillis settings.responseBase.toUInt64).length =
      settings.timing.responseBase := by
    rw [Span.length_ofMillis, toNat_toUInt64 hs.responseBase]
    rfl
  have hle : settings.timing.responseBase ≤ Duration.millis baseLimit := by
    have hlt := settings.responseBase.toInt_lt
    exact Confirmation.millis_mono (by simp only [baseLimit]; omega)
  exact ⟨hs.ofSettings_eq, hbase, gives_requestRouting, gives_responseRouting,
    gives_response hbase hle, gives_afterConfirmation, gives_afterResponse⟩

end Fitting

end Bounded

namespace Budget

section Closed

/-- When lingers end, how that depends on what was received and when, and that no budget overflows. -/
structure Closed (settings : Settings) : Prop where
  afterConfirmation : ∀ c : Confirmation,
    EndsAfter c.airTime fun received now => now + Budget.afterConfirmation c received now
  afterResponse : ∀ confirmed length,
    EndsAfter (Confirmation.exchangeAirTime length confirmed) fun received now =>
      now + Budget.afterResponse confirmed length received now
  afterConfirmation_mono : ∀ c c' : Confirmation, c.AtMost c' → ∀ received now : Instant,
    now + Budget.afterConfirmation c received now ≤ now + Budget.afterConfirmation c' received now
  /-- A confirmation that was consumed counts as more than none. -/
  afterResponse_mono : ∀ confirmed confirmed' length length',
    Confirmation.IsUpTo confirmed confirmed' → length ≤ length' → ∀ received now : Instant,
      now + Budget.afterResponse confirmed length received now ≤
        now + Budget.afterResponse confirmed' length' received now
  fits : Bounded.Fits settings

/-- **The ends of lingers in closed form**, and budgets that fit into bounded numbers, with all settings
that are valid. -/
theorem closed_of_validate {settings : Settings} (h : settings.validate = .ok ()) :
    Closed settings where
  afterConfirmation := endsAfter_afterConfirmation
  afterResponse := endsAfter_afterResponse
  afterConfirmation_mono c c' hc :=
    (endsAfter_afterConfirmation c).le (endsAfter_afterConfirmation c')
      (Confirmation.airTime_mono hc)
  afterResponse_mono confirmed confirmed' length length' hc hl :=
    (endsAfter_afterResponse confirmed length).le (endsAfter_afterResponse confirmed' length')
      (Confirmation.exchangeAirTime_mono hc hl)
  fits := Bounded.fits_of_validate h

/-- The longest base that can be set, and the longest way that a confirmation can tell. -/
theorem closed_of_validate_of_longest :
    ∃ settings : Settings, settings.responseBase = Int64.maxValue ∧
      settings.validate = .ok () ∧ Closed settings ∧
      (Bounded.response? (.ofMillis settings.responseBase.toUInt64) (some ⟨255, 255, 255⟩)).map
        Span.length = some (Duration.millis (9223372036854775807 + 256 * 255 * 10 + 100)) :=
  ⟨{ responseBase := Int64.maxValue }, rfl, by decide, closed_of_validate (by decide),
    by decide +kernel⟩

end Closed

end Budget
end MeshExchange
