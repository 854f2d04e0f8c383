import MeshExchange.Request
import MeshExchange.Settings.Basic

/-!
# Budgets of the phases

How long the channel may or must stay in a phase. A frame that travels the mesh takes one time slot
for each hop and one more; the slot of a response depends on its length. What a linger still lasts is
its total less the time since the frame that began it arrived.

**Results.**
* `Budget.slotOfLength`: the time slot of a response, by its length;
* `Budget.routing`, `Budget.requestRouting`: the time on the way through the mesh;
* `Budget.confirmation`, `Budget.response`: the waits for a frame;
* `Budget.afterConfirmation`, `Budget.afterResponse`: the lingers.
-/

namespace MeshExchange
namespace Budget

section Units

/-- Milliseconds in one unit of a time slot. -/
def slotUnit : Nat := 10

/-- Milliseconds added to every wait for a response. -/
def guardMargin : Nat := 100

/-- Responses shorter than this, in bytes, take the shortest slot. -/
def shortLimit : Nat := 19

/-- Responses shorter than this, in bytes, take at most the middle slot. -/
def mediumLimit : Nat := 41

end Units

section Routing

/-- The time slot of a response, in units, by its length in bytes. -/
def slotOfLength (length : Nat) : Nat :=
  if length < shortLimit then 8 else if length < mediumLimit then 9 else 10

/-- The time over a number of hops, one slot for each hop and one more. -/
def routing (hops : UInt8) (slot : Nat) : Duration :=
  Duration.millis ((hops.toNat + 1) * slot * slotUnit)

/-- The time a confirmed request takes through the mesh. -/
def requestRouting (c : Confirmation) : Duration := routing c.hops c.slot.toNat

/-- The time a response takes through the mesh after a confirmed request. -/
def responseRouting (c : Confirmation) (length : Nat) : Duration :=
  routing c.responseHops (slotOfLength length)

end Routing

section Waits

/-- How long to wait for a confirmation. -/
def confirmation (timing : Timing) (expected : Bool) : Duration :=
  if expected then timing.confirmationWait else 0

/-- How long to wait for a response: the base, the way of a confirmed request, and a margin. -/
def response (timing : Timing) (confirmed : Option Confirmation) : Duration :=
  timing.responseBase + confirmed.elim 0 requestRouting + Duration.millis guardMargin

end Waits

section Lingers

/-- How long the mesh is busy with a confirmed request. -/
def requestTotal (c : Confirmation) : Duration := requestRouting c

/-- How long the mesh is busy with an exchange whose response has the given length. -/
def exchangeTotal (confirmed : Option Confirmation) (length : Nat) : Duration :=
  match confirmed with
  | some c => requestRouting c + responseRouting c length
  | none => Duration.millis (slotOfLength length * slotUnit)

/-- What is left of the linger after a confirmation. -/
def afterConfirmation (c : Confirmation) (received now : Instant) : Duration :=
  requestTotal c - Instant.since now received

/-- What is left of the linger after a response. -/
def afterResponse (confirmed : Option Confirmation) (length : Nat) (received now : Instant) :
    Duration :=
  exchangeTotal confirmed length - Instant.since now received

end Lingers

end Budget
end MeshExchange
