import MeshExchange.Proofs.Mesh.Wire

/-!
# What frames carry

Requests are written by one party and read by another, and so are confirmations and responses. Whatever
one of them writes the other reads as it was meant, and whatever is read writes the same bytes again.

**Method.** Reading is turned into an equation: a request is read from its own bytes and from no others,
and an incoming frame from the bytes of its header followed by what comes after it. The theorems about
frames then are theorems about these rows of bytes.

**Results.**
* `Frame.IsRequest`: the frames that requests are written as;
* `Request.ofFrame_eq_ok_iff`, `Request.toFrame_eq_ok_iff`: reading and writing as equations;
* `Request.toFrame_bijective`: requests that may be sent and their frames are in bijection;
* `Incoming.Reads`, `Incoming.decode_eq_ok_iff`: the frames that hold a confirmation or a response;
* `Incoming.decode_faithful`: nothing is lost, and the two kinds are never taken for one another.
-/

namespace MeshExchange

namespace Frame

/-- The address in the first two bytes of a frame. -/
def address? : Frame → Option Address
  | a₀ :: a₁ :: _ => some ⟨Word.ofBytes a₀ a₁⟩
  | _ => none

/-- A frame that a request may be written as. -/
structure IsRequest (b : Frame) : Prop where
  header : 6 ≤ b.length
  data : b.length ≤ 62
  target : ∀ a, b.address? = some a → a.isReserved = false

end Frame

namespace Request

variable {r r' : Request} {b : Frame} {fault : Fault}

section Bytes

@[simp] theorem length_bytes (r : Request) : r.bytes.length = 6 + r.data.length := by
  simp [bytes, Word.bytes]
  omega

@[simp] theorem address?_bytes (r : Request) : Frame.address? r.bytes = some r.address := by
  simp [bytes, Word.bytes, Frame.address?]

/-- Whoever has the header of a request has a request. -/
theorem exists_bytes (h : 6 ≤ b.length) : ∃ r : Request, b = r.bytes := by
  match b, h with
  | a₀ :: a₁ :: peripheral :: command :: p₀ :: p₁ :: data, _ =>
      exact ⟨⟨⟨Word.ofBytes a₀ a₁⟩, peripheral, command, Word.ofBytes p₀ p₁, data⟩,
        by simp [bytes, Word.bytes]⟩

theorem isRequest_bytes (r : Request) :
    Frame.IsRequest r.bytes ↔ r.address.isReserved = false ∧ r.data.length ≤ 56 := by
  constructor
  · rintro ⟨-, hdata, htarget⟩
    rw [length_bytes] at hdata
    exact ⟨htarget _ (address?_bytes r), by omega⟩
  · rintro ⟨htarget, hdata⟩
    refine ⟨by simp, by simp only [length_bytes]; omega, fun a ha => ?_⟩
    rw [address?_bytes] at ha
    cases ha
    exact htarget

end Bytes

section Reading

/-- A request is read from its own bytes and from no others. -/
theorem ofFrame_eq_ok_iff : ofFrame b = .ok r ↔ b = r.bytes := by
  constructor
  · intro h
    unfold ofFrame at h
    split at h
    · cases h
      simp [bytes, Word.bytes]
    · cases h
  · rintro rfl
    exact ofFrame_bytes r

/-- Only frames without a whole header hold no request. -/
theorem exists_ofFrame_eq_error_iff : (∃ fault, ofFrame b = .error fault) ↔ b.length < 6 := by
  constructor
  · rintro ⟨fault, h⟩
    refine Nat.lt_of_not_le fun hlong => ?_
    obtain ⟨r, rfl⟩ := exists_bytes hlong
    rw [ofFrame_bytes] at h
    cases h
  · intro hshort
    cases h : ofFrame b with
    | error fault => exact ⟨fault, rfl⟩
    | ok r =>
        rw [ofFrame_eq_ok_iff.1 h, length_bytes] at hshort
        omega

end Reading

section Writing

theorem toFrame_of_reserved (h : r.address.isReserved = true) :
    r.toFrame = .error (.frame (.reservedTarget r.address)) := by
  rw [toFrame, if_pos h]

theorem toFrame_of_long (h : r.address.isReserved = false) (hd : maxData < r.data.length) :
    r.toFrame = .error (.frame (.dataTooLong r.data.length maxData)) := by
  rw [toFrame, if_neg (by simp [h]), if_pos hd]

/-- The requests that may be sent, and what they are written as. -/
theorem toFrame_eq_ok_iff :
    r.toFrame = .ok b ↔ (r.address.isReserved = false ∧ r.data.length ≤ 56) ∧ b = r.bytes := by
  constructor
  · intro h
    refine ⟨?_, eq_bytes_of_toFrame h⟩
    cases ha : r.address.isReserved with
    | true =>
        rw [toFrame_of_reserved ha] at h
        cases h
    | false =>
        refine ⟨rfl, Nat.le_of_not_lt fun hd => ?_⟩
        rw [toFrame_of_long ha hd] at h
        cases h
  · rintro ⟨⟨ha, hd⟩, rfl⟩
    have hmax : ¬ maxData < r.data.length := Nat.not_lt.2 hd
    rw [toFrame, if_neg (by simp [ha]), if_neg hmax]

/-- A reserved target is what is reported, whatever else is wrong with a request. -/
theorem toFrame_eq_reservedTarget_iff :
    r.toFrame = .error (.frame (.reservedTarget r.address)) ↔ r.address.isReserved = true := by
  refine ⟨fun h => ?_, toFrame_of_reserved⟩
  cases ha : r.address.isReserved with
  | true => rfl
  | false =>
      by_cases hd : maxData < r.data.length
      · rw [toFrame_of_long ha hd] at h
        cases h
      · rw [toFrame_eq_ok_iff.2 ⟨⟨ha, Nat.le_of_not_lt hd⟩, rfl⟩] at h
        cases h

/-- The frames that requests are written as. -/
theorem exists_toFrame_eq_ok_iff : (∃ r : Request, r.toFrame = .ok b) ↔ b.IsRequest := by
  constructor
  · rintro ⟨r, h⟩
    obtain ⟨hr, rfl⟩ := toFrame_eq_ok_iff.1 h
    exact (isRequest_bytes r).2 hr
  · intro h
    obtain ⟨r, rfl⟩ := exists_bytes h.header
    exact ⟨r, toFrame_eq_ok_iff.2 ⟨(isRequest_bytes r).1 h, rfl⟩⟩

end Writing

/-- **Requests that may be sent and their frames are in bijection**: such a request is read from its
frame again, and a frame that a request is written as is written again by the request that is read from
it. No other frame is. -/
theorem toFrame_bijective :
    (∀ r : Request,
      ((∃ b, r.toFrame = .ok b) ↔ r.address.isReserved = false ∧ r.data.length ≤ 56) ∧
      (r.toFrame = .error (.frame (.reservedTarget r.address)) ↔ r.address.isReserved = true) ∧
      ∀ b, r.toFrame = .ok b → ofFrame b = .ok r) ∧
    (∀ b : Frame,
      ((∃ fault, ofFrame b = .error fault) ↔ b.length < 6) ∧
      (b.IsRequest ↔ ∃ r, ofFrame b = .ok r ∧ r.toFrame = .ok b) ∧
      (6 ≤ b.length ∧ ¬ b.IsRequest ↔
        ∃ r fault, ofFrame b = .ok r ∧ r.toFrame = .error fault) ∧
      (b.IsRequest ↔ ∃ r : Request, r.toFrame = .ok b)) ∧
    ∀ (r r' : Request) (b : Frame), r.toFrame = .ok b → r'.toFrame = .ok b → r = r' := by
  refine ⟨fun r => ⟨?_, toFrame_eq_reservedTarget_iff, fun b => ofFrame_of_toFrame⟩,
    fun b => ⟨exists_ofFrame_eq_error_iff, ?_, ?_, exists_toFrame_eq_ok_iff.symm⟩,
    fun r r' b h h' => ?_⟩
  · simp only [toFrame_eq_ok_iff, exists_and_left, exists_eq, and_true]
  · rw [← exists_toFrame_eq_ok_iff]
    constructor
    · rintro ⟨r, h⟩
      exact ⟨r, ofFrame_of_toFrame h, h⟩
    · rintro ⟨r, -, h⟩
      exact ⟨r, h⟩
  · constructor
    · rintro ⟨hlong, hno⟩
      obtain ⟨r, rfl⟩ := exists_bytes hlong
      refine ⟨r, ?_⟩
      cases h : r.toFrame with
      | error fault => exact ⟨fault, ofFrame_bytes r, rfl⟩
      | ok b => exact absurd ((isRequest_bytes r).2 (toFrame_eq_ok_iff.1 h).1) hno
    · rintro ⟨r, fault, hr, h⟩
      obtain rfl := ofFrame_eq_ok_iff.1 hr
      refine ⟨by simp, fun hb => ?_⟩
      rw [toFrame_eq_ok_iff.2 ⟨(isRequest_bytes r).1 hb, rfl⟩] at h
      cases h
  · exact Except.ok.inj ((ofFrame_of_toFrame h).symm.trans (ofFrame_of_toFrame h'))

/-- With as much data as it may have, a request to the highest node is read from its frame again. -/
example : (Request.ofFrame (Request.bytes ⟨.nodeMax, 6, 1, 0xABCD, .replicate 56 7⟩)).toOption.map
    Request.toFrame = some (.ok (Request.bytes ⟨.nodeMax, 6, 1, 0xABCD, .replicate 56 7⟩)) := by
  decide +kernel

end Request

namespace Incoming

variable {b : Frame} {i : Incoming} {h : Header}

section Bytes

@[simp] theorem code_headerBytes_append (h : Header) (rest : Frame) :
    (headerBytes h ++ rest)[6]? = some h.responseCode := rfl

theorem exists_headerBytes (hb : 8 ≤ b.length) : ∃ h data, b = headerBytes h ++ data := by
  match b, hb with
  | a₀ :: a₁ :: peripheral :: command :: p₀ :: p₁ :: code :: value :: data, _ =>
      exact ⟨⟨⟨Word.ofBytes a₀ a₁⟩, peripheral, command, Word.ofBytes p₀ p₁, code, value⟩, data,
        by simp [headerBytes, Word.bytes]⟩

/-- A frame that is too short has no header. -/
theorem header?_of_length_lt (hb : b.length < 8) : header? b = none := by
  have hvalue : b[deviceValueStart]? = none :=
    List.getElem?_eq_none (Nat.le_of_lt_succ hb)
  unfold header?
  split
  · simp only [hvalue, Option.bind_eq_bind, Option.bind_none, Option.bind_fun_none]
  · rfl

end Bytes

section Reading

/-- What a frame holds. A confirmation may be followed by bytes that nobody reads. -/
inductive Reads : Frame → Incoming → Prop
  | confirmation {h : Header} {c : Confirmation} {rest : Frame}
      (hc : h.responseCode = confirmationCode) :
      Reads (headerBytes h ++ [c.hops, c.slot, c.responseHops] ++ rest) (.confirmation h c)
  | response {h : Header} {data : Frame} (hc : h.responseCode ≠ confirmationCode) :
      Reads (headerBytes h ++ data) (.response h data (headerBytes h ++ data).length)

theorem decode_eq_ok_iff : decode b = .ok i ↔ Reads b i := by
  constructor
  · intro hi
    by_cases hb : 8 ≤ b.length
    · obtain ⟨h, data, rfl⟩ := exists_headerBytes hb
      simp only [decode, header?_headerBytes_append, drop_headerBytes_append] at hi
      split at hi
      · next hcode =>
          split at hi
          · next hops slot responseHops rest =>
              cases hi
              exact @Reads.confirmation h ⟨hops, slot, responseHops⟩ rest hcode
          · cases hi
      · next hcode =>
          cases hi
          exact .response hcode
    · rw [decode, header?_of_length_lt (Nat.lt_of_not_le hb)] at hi
      cases hi
  · intro hr
    cases hr with
    | @confirmation h c rest hc =>
        rw [List.append_assoc]
        exact decode_confirmation hc c rest
    | @response h data hc =>
        rw [List.length_append, length_headerBytes]
        exact decode_headerBytes_append hc data

/-- The frames that can be read: a whole header is there, and all that a confirmation needs. -/
theorem exists_decode_eq_ok_iff :
    (∃ i, decode b = .ok i) ↔ 8 ≤ b.length ∧ (b[6]? ≠ some confirmationCode ∨ 11 ≤ b.length) := by
  simp only [decode_eq_ok_iff]
  constructor
  · rintro ⟨i, hi⟩
    cases hi with
    | confirmation hc =>
        simp only [List.length_append, length_headerBytes, List.length_cons, List.length_nil]
        exact ⟨by omega, .inr (by omega)⟩
    | response hc => simp [hc]
  · rintro ⟨hheader, hdata⟩
    obtain ⟨h, data, rfl⟩ := exists_headerBytes hheader
    by_cases hc : h.responseCode = confirmationCode
    · have hlong : 3 ≤ data.length := by
        have hwhole : 11 ≤ 8 + data.length := by
          simpa [hc] using hdata
        omega
      match data, hlong with
      | hops :: slot :: responseHops :: rest, _ =>
          exact ⟨_, @Reads.confirmation h ⟨hops, slot, responseHops⟩ rest hc⟩
    · exact ⟨_, .response hc⟩

theorem Reads.confirmation_eq {c : Confirmation} (hr : Reads b (.confirmation h c)) :
    b[6]? = some confirmationCode ∧
      headerBytes h ++ [c.hops, c.slot, c.responseHops] = b.take 11 := by
  cases hr with
  | confirmation hc =>
      refine ⟨by simp [hc], ?_⟩
      rw [List.take_left' (by simp)]

theorem Reads.response_eq {data : Frame} {length : Nat} (hr : Reads b (.response h data length)) :
    b[6]? ≠ some confirmationCode ∧ headerBytes h ++ data = b ∧ length = b.length := by
  cases hr with
  | response hc => exact ⟨by simpa using hc, rfl, rfl⟩

end Reading

/-- **Nothing that a frame carries is lost**, and a confirmation and a response are told apart: every
frame with a whole header is read, up to confirmations that are cut off; what was read is written as the
same bytes; and what was written for a request is read as it was meant. -/
theorem decode_faithful :
    (∀ b : Frame,
      ((∃ i, decode b = .ok i) ↔ 8 ≤ b.length ∧ (b[6]? ≠ some 0xFF ∨ 11 ≤ b.length)) ∧
      (∀ h c, decode b = .ok (.confirmation h c) →
        b[6]? = some 0xFF ∧ headerBytes h ++ [c.hops, c.slot, c.responseHops] = b.take 11) ∧
      ∀ h data length, decode b = .ok (.response h data length) →
        b[6]? ≠ some 0xFF ∧ headerBytes h ++ data = b ∧ length = b.length) ∧
    ∀ r : Request,
      (∀ c, ∃ h, decode (confirmationFrame r c) = .ok (.confirmation h c) ∧ h.address = r.address ∧
        h.peripheral = r.peripheral ∧ h.command = r.command ∧ h.profile = r.profile) ∧
      (∀ value data, ∃ h,
        decode (responseFrame r value data) = .ok (.response h data (8 + data.length)) ∧
        h.address = r.address ∧ h.peripheral = r.peripheral ∧ h.profile = r.profile ∧
        h.command = r.command ||| 0x80 ∧ h.responseCode = 0 ∧ h.deviceValue = value) ∧
      (∀ c h data length, decode (confirmationFrame r c) ≠ .ok (.response h data length)) ∧
      ∀ value data h c, decode (responseFrame r value data) ≠ .ok (.confirmation h c) := by
  refine ⟨fun b => ⟨exists_decode_eq_ok_iff, fun h c hi => ?_, fun h data length hi => ?_⟩,
    fun r => ⟨fun c => ?_, fun value data => ?_, fun c h data length => ?_,
      fun value data h c => ?_⟩⟩
  · exact (decode_eq_ok_iff.1 hi).confirmation_eq
  · exact (decode_eq_ok_iff.1 hi).response_eq
  · exact ⟨_, decode_confirmationFrame r c, rfl, rfl, rfl, rfl⟩
  · exact ⟨_, decode_responseFrame r value data, rfl, rfl, rfl, rfl, rfl, rfl⟩
  · simp [decode_confirmationFrame]
  · simp [decode_responseFrame]

end Incoming
end MeshExchange
