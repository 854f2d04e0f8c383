import MeshExchange.Frame.Incoming
import MeshExchange.Time

/-!
# The link that frames leave on

Frames leave on a link that records them, on one that is down, or on a simulated mesh. The mesh
confirms a request after a delay and answers it after another one; it confirms nothing that the
coordinator answers itself, and a broadcast is not answered. The frames it sends back are deliveries,
each with the instant at which it is due.

**Results.**
* `Behaviour.deliveries`: what the mesh sends back for a request;
* `Link.transmit`: what becomes of a frame on a link, with the deliveries it causes.
-/

namespace MeshExchange

/-- How the simulated mesh answers requests. -/
structure Behaviour where
  confirmation : Confirmation := ⟨1, 8, 1⟩
  /-- From the request to the confirmation. -/
  confirmationDelay : Duration := Duration.millis 20
  /-- From the confirmation to the response, or from a request that is not confirmed. -/
  responseDelay : Duration := Duration.millis 60
  responseData : List UInt8 := [0x00, 0x01]
  dropConfirmation : Bool := false
  dropResponse : Bool := false
  deriving DecidableEq, Repr

/-- A frame on its way from the mesh. -/
structure Delivery where
  due : Instant
  frame : Frame
  deriving DecidableEq, Repr

namespace Behaviour

section Answers

/-- The response to a request, if it is not lost. -/
def responses (b : Behaviour) (r : Request) (due : Instant) : List Delivery :=
  if b.dropResponse then [] else [⟨due, Incoming.responseFrame r 0 b.responseData⟩]

/-- What the mesh sends back for a request that leaves now. -/
def deliveries (b : Behaviour) (r : Request) (now : Instant) : List Delivery :=
  if r.isForCoordinator then b.responses r (now + b.responseDelay)
  else if b.dropConfirmation then []
  else
    let confirmedAt := now + b.confirmationDelay
    ⟨confirmedAt, Incoming.confirmationFrame r b.confirmation⟩ ::
      if r.isBroadcast then [] else b.responses r (confirmedAt + b.responseDelay)

end Answers

end Behaviour

/-- What frames leave on. -/
inductive Link
  /-- Takes every frame and answers none. -/
  | recording
  /-- Takes no frame. -/
  | down
  /-- A simulated mesh, whose deliveries may have lost their taker. -/
  | mesh (behaviour : Behaviour) (hasTaker : Bool)
  deriving DecidableEq, Repr

namespace Link

/-- Whether frames handed to the link reach it, even if what follows fails. -/
def takesFrames : Link → Bool
  | .recording | .mesh _ _ => true
  | .down => false

/-- A frame is handed to the link. -/
def transmit (l : Link) (frame : Frame) (now : Instant) : Except Fault (List Delivery) :=
  match l with
  | .recording => .ok []
  | .down => .error (.send .transportDown)
  | .mesh behaviour hasTaker => do
      let request ← Request.ofFrame frame
      let deliveries := behaviour.deliveries request now
      if hasTaker || deliveries.isEmpty then return deliveries else throw (.send .pumpStopped)

/-- Changes how a mesh answers later requests. -/
def withBehaviour : Link → Behaviour → Link
  | .mesh _ hasTaker, behaviour => .mesh behaviour hasTaker
  | l, _ => l

end Link
end MeshExchange
