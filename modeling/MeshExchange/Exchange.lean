import MeshExchange.Request
import MeshExchange.Fault

/-!
# The exchange in progress

What is known of the one exchange on the channel, and the rules of which phase allows which operation.

**Results.**
* `Exchange.ofRequest`: the exchange at its beginning;
* `Exchange.confirm`, `Exchange.respond`: the exchange after a frame arrived;
* `Exchange.isConsistent`: a confirmation is on record exactly where the phase says that one came;
* `Phase.allowsRequest`, `Phase.allowsEvent`, `Phase.allowsReset`: who may act in which phase.
-/

namespace MeshExchange

/-- What is on record of an exchange. -/
structure Exchange where
  request : Option Request := none
  /-- False only for requests to the coordinator. -/
  expectsConfirmation : Bool := false
  /-- False only for broadcasts. -/
  awaitsResponse : Bool := false
  confirmation : Option Confirmation := none
  confirmedAt : Option Instant := none
  /-- Length of the response frame in bytes. -/
  responseLength : Nat := 0
  respondedAt : Option Instant := none
  deriving DecidableEq, Repr

namespace Exchange

section Record

/-- The exchange of a request that is about to leave. -/
def ofRequest (r : Request) : Exchange where
  request := some r
  expectsConfirmation := !r.isForCoordinator
  awaitsResponse := !r.isBroadcast

/-- The exchange once a confirmation was received. -/
def confirm (e : Exchange) (receivedAt : Instant) (c : Confirmation) : Exchange :=
  { e with confirmation := some c, confirmedAt := some receivedAt }

/-- The exchange once a response was received. -/
def respond (e : Exchange) (receivedAt : Instant) (length : Nat) : Exchange :=
  { e with responseLength := length, respondedAt := some receivedAt }

end Record

/-- Whether a confirmation is on record exactly if the phase implies that one came. -/
def isConsistent (e : Exchange) : Phase → Bool
  | .freeForSend | .waitingForConfirmation | .waitingForConfirmationTimedOut =>
      e.confirmation.isNone
  | .waitingAfterConfirmation => e.confirmation.isSome
  | .waitingForResponse | .waitingForResponseTimedOut | .waitingAfterResponse =>
      e.confirmation.isSome == e.expectsConfirmation

end Exchange

namespace Phase

/-- A new request needs a free channel. -/
def allowsRequest (p : Phase) : Except Fault Unit :=
  if p = .freeForSend then .ok () else .error (.contractViolation .newRequest p)

/-- An event needs the phase that waits for it. In the timed-out phase it came too late; in any
other phase nobody asked for it. -/
def allowsEvent (actual : Phase) (operation : Operation) (expected timedOut : Phase) :
    Except Fault Unit :=
  if actual = expected then .ok ()
  else if actual = timedOut then .error (.stateTimeout actual)
  else .error (.contractViolation operation actual)

/-- A reset needs a timed-out phase. -/
def allowsReset (p : Phase) : Except Fault Unit :=
  if p.isTimedOut then .ok () else .error (.contractViolation .resetAfterError p)

end Phase
end MeshExchange
