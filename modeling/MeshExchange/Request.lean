import MeshExchange.Address

/-!
# Requests and confirmations

A request names a target, a command of one of its peripherals and some data. A confirmation is the
coordinator's word that a request was routed into the mesh; it says how far the request and its
response travel, from which the time both take is known.

**Results.**
* `Request.isBroadcast`, `Request.isForCoordinator`: the classes of requests that get no response, and
  no confirmation;
* `Confirmation.announcesResponse`: whether a response travels back.
-/

namespace MeshExchange

/-- A request to a peripheral of a device. -/
structure Request where
  address : Address
  peripheral : UInt8
  command : UInt8
  profile : UInt16 := 0
  data : List UInt8 := []
  deriving DecidableEq, Repr

namespace Request

/-- The most data a request carries, in bytes. -/
def maxData : Nat := 56

/-- A broadcast is not answered by any node. -/
def isBroadcast (r : Request) : Bool := r.address.isBroadcast

/-- A request to the coordinator is not confirmed. -/
def isForCoordinator (r : Request) : Bool := r.address.isCoordinatorLocal

end Request

/-- How far a request travels, and its response after it. -/
structure Confirmation where
  /-- Hops of the request. -/
  hops : UInt8
  /-- Time slot of one hop of the request, in slot units. -/
  slot : UInt8
  /-- Hops of the response, zero if none follows. -/
  responseHops : UInt8
  deriving DecidableEq, Repr

namespace Confirmation

/-- Whether a response travels back. -/
def announcesResponse (c : Confirmation) : Bool := c.responseHops != 0

end Confirmation
end MeshExchange
