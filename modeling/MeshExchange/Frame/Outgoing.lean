import MeshExchange.Fault
import MeshExchange.Frame.Word
import MeshExchange.Request

/-!
# Request frames

A request frame holds the address (two bytes, low byte first), the peripheral, the command, the
hardware profile (two bytes, low byte first) and up to 56 bytes of data.

**Results.**
* `Request.toFrame`: the frame of a request; a reserved target is refused before long data;
* `Request.ofFrame`: the request of a frame, which needs the six bytes of the header.
-/

namespace MeshExchange
namespace Request

/-- Bytes before the data of a request frame. -/
def headerLength : Nat := 6

/-- The bytes of a request, whatever its target and its data. -/
def bytes (r : Request) : Frame :=
  Word.bytes r.address.value ++ [r.peripheral, r.command] ++ Word.bytes r.profile ++ r.data

/-- The frame of a request that may be sent. -/
def toFrame (r : Request) : Except Fault Frame :=
  if r.address.isReserved then .error (.frame (.reservedTarget r.address))
  else if maxData < r.data.length then .error (.frame (.dataTooLong r.data.length maxData))
  else .ok r.bytes

/-- The request that a frame was written from. -/
def ofFrame : Frame → Except Fault Request
  | a₀ :: a₁ :: peripheral :: command :: p₀ :: p₁ :: data =>
      .ok ⟨⟨Word.ofBytes a₀ a₁⟩, peripheral, command, Word.ofBytes p₀ p₁, data⟩
  | frame => .error (.frame (.requestTooShort frame.length))

end Request
end MeshExchange
