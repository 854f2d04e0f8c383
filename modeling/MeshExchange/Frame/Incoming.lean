import MeshExchange.Frame.Outgoing

/-!
# Incoming frames

An incoming frame begins like a request frame; a response code and a value of the device follow, then
data. The response code `0xFF` marks a confirmation, whose first three data bytes say how far request
and response travel. Any other code marks a response.

**Results.**
* `Incoming.decode`: the confirmation or response that a frame holds;
* `confirmationFrame`, `responseFrame`: the frames that confirm and answer a request.
-/

namespace MeshExchange

/-- What both kinds of incoming frames begin with. -/
structure Header where
  address : Address
  peripheral : UInt8
  command : UInt8
  profile : UInt16
  responseCode : UInt8
  deviceValue : UInt8
  deriving DecidableEq, Repr

/-- A frame from the coordinator. -/
inductive Incoming
  | confirmation (header : Header) (confirmation : Confirmation)
  /-- The length is that of the whole frame in bytes. -/
  | response (header : Header) (data : List UInt8) (length : Nat)
  deriving DecidableEq, Repr

namespace Incoming

section Layout

/-- Where the response code stands. -/
def responseCodeStart : Nat := 6

/-- Where the value of the device stands. -/
def deviceValueStart : Nat := 7

/-- Bytes before the data of an incoming frame. -/
def headerLength : Nat := 8

/-- The response code of a confirmation. -/
def confirmationCode : UInt8 := 0xFF

/-- The bit that tells the command of a response from that of its request. -/
def responseBit : UInt8 := 0x80

end Layout

section Reading

/-- The header of an incoming frame. -/
def header : Incoming → Header
  | .confirmation h _ => h
  | .response h _ _ => h

/-- The header that a frame begins with; none if the frame is too short. -/
def header? (frame : Frame) : Option Header :=
  match frame with
  | a₀ :: a₁ :: peripheral :: command :: p₀ :: p₁ :: _ => do
      let code ← frame[responseCodeStart]?
      let value ← frame[deviceValueStart]?
      return ⟨⟨Word.ofBytes a₀ a₁⟩, peripheral, command, Word.ofBytes p₀ p₁, code, value⟩
  | _ => none

/-- The confirmation or response that a frame holds. -/
def decode (frame : Frame) : Except Fault Incoming :=
  match header? frame with
  | none => .error (.frame (.replyTooShort frame.length headerLength))
  | some header =>
      let data := frame.drop headerLength
      if header.responseCode = confirmationCode then
        match data with
        | hops :: slot :: responseHops :: _ => .ok (.confirmation header ⟨hops, slot, responseHops⟩)
        | _ => .error (.frame (.confirmationTooShort data.length))
      else .ok (.response header data frame.length)

end Reading

section Writing

/-- The bytes of a header. -/
def headerBytes (h : Header) : Frame :=
  Word.bytes h.address.value ++ [h.peripheral, h.command] ++ Word.bytes h.profile
    ++ [h.responseCode, h.deviceValue]

/-- The length of a whole response frame with the given data. -/
def responseLength (data : List UInt8) : Nat := headerLength + data.length

/-- The frame that confirms a request. -/
def confirmationFrame (r : Request) (c : Confirmation) : Frame :=
  headerBytes ⟨r.address, r.peripheral, r.command, r.profile, confirmationCode, 0⟩
    ++ [c.hops, c.slot, c.responseHops]

/-- The frame that answers a request. -/
def responseFrame (r : Request) (value : UInt8) (data : List UInt8) : Frame :=
  headerBytes ⟨r.address, r.peripheral, r.command ||| responseBit, r.profile, 0, value⟩ ++ data

end Writing

end Incoming
end MeshExchange
