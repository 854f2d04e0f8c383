import MeshExchange.Budget
import MeshExchange.Exchange

/-!
# The tracker of the channel

The phase of the channel, the exchange on it, and the instant at which the phase ends by itself. Four
operations and the passing of the deadline move it.

* A request opens an exchange: the wait for a confirmation, or for a response if the coordinator
  itself is asked.
* A confirmation leads to the wait for a response, or for a broadcast to a linger.
* A response leads to a linger.
* The deadline ends a wait in its timed-out phase and a linger in the free phase.
* A reset leads from a timed-out phase to the free phase.

An operation that is refused leaves the tracker as it is.

**Results.**
* `Tracker.newRequest`, `Tracker.confirmationReceived`, `Tracker.responseReceived`,
  `Tracker.resetAfterError`: the operations;
* `Tracker.expire`: the passing of the deadline, with the notification it causes;
* `Tracker.handle`: an operation given as a command.
-/

namespace MeshExchange

/-- What a listener is told. -/
inductive Notification
  | freeForSend
  | confirmationTimedOut
  | responseTimedOut
  deriving DecidableEq, Repr

/-- An operation with its arguments. -/
inductive Command
  | newRequest (request : Request)
  | confirmationReceived (receivedAt : Instant) (confirmation : Confirmation)
  | responseReceived (receivedAt : Instant) (length : Nat)
  | resetAfterError
  deriving DecidableEq, Repr

namespace Command

/-- The operation that a command asks for. -/
def operation : Command → Operation
  | .newRequest _ => .newRequest
  | .confirmationReceived _ _ => .confirmationReceived
  | .responseReceived _ _ => .responseReceived
  | .resetAfterError => .resetAfterError

/-- What the listener is told once the command is accepted. -/
def notification? : Command → Option Notification
  | .resetAfterError => some .freeForSend
  | _ => none

end Command

/-- The phase of the channel, the exchange on it, and when the phase ends by itself. -/
structure Tracker where
  phase : Phase := .freeForSend
  exchange : Exchange := {}
  /-- None in the free phase and the timed-out ones, which wait for a command. -/
  deadline : Option Instant := none
  deriving DecidableEq, Repr

namespace Tracker

section Deadline

/-- A free channel. -/
def initial : Tracker := {}

/-- How long the phase still lasts, if it ends by itself. -/
def remaining (t : Tracker) (now : Instant) : Option Duration :=
  t.deadline.map fun d => Instant.since d now

/-- Whether the deadline has come. -/
def isDue (t : Tracker) (now : Instant) : Bool := t.deadline.any (· ≤ now)

end Deadline

section Operations

/-- A request is about to leave. -/
def newRequest (t : Tracker) (r : Request) (timing : Timing) (now : Instant) :
    Except Fault Tracker := do
  t.phase.allowsRequest
  let exchange := Exchange.ofRequest r
  if exchange.expectsConfirmation then
    return ⟨.waitingForConfirmation, exchange, some (now + Budget.confirmation timing true)⟩
  else
    return ⟨.waitingForResponse, exchange, some (now + Budget.response timing none)⟩

/-- A confirmation was received. -/
def confirmationReceived (t : Tracker) (receivedAt : Instant) (c : Confirmation) (timing : Timing)
    (now : Instant) : Except Fault Tracker := do
  t.phase.allowsEvent .confirmationReceived .waitingForConfirmation .waitingForConfirmationTimedOut
  let exchange := t.exchange.confirm receivedAt c
  if exchange.awaitsResponse then
    return ⟨.waitingForResponse, exchange, some (now + Budget.response timing (some c))⟩
  else
    return ⟨.waitingAfterConfirmation, exchange,
      some (now + Budget.afterConfirmation c receivedAt now)⟩

/-- A response was received. -/
def responseReceived (t : Tracker) (receivedAt : Instant) (length : Nat) (now : Instant) :
    Except Fault Tracker := do
  t.phase.allowsEvent .responseReceived .waitingForResponse .waitingForResponseTimedOut
  let exchange := t.exchange.respond receivedAt length
  return ⟨.waitingAfterResponse, exchange,
    some (now + Budget.afterResponse exchange.confirmation length receivedAt now)⟩

/-- The channel is freed after a wait that ended in vain. -/
def resetAfterError (t : Tracker) : Except Fault Tracker := do
  t.phase.allowsReset
  return initial

/-- An operation given as a command. -/
def handle (t : Tracker) (timing : Timing) (now : Instant) : Command → Except Fault Tracker
  | .newRequest r => t.newRequest r timing now
  | .confirmationReceived receivedAt c => t.confirmationReceived receivedAt c timing now
  | .responseReceived receivedAt length => t.responseReceived receivedAt length now
  | .resetAfterError => t.resetAfterError

end Operations

section Expiry

/-- The phase ends by itself, if it has a deadline. -/
def expire (t : Tracker) : Option (Tracker × Notification) :=
  match t.deadline, t.phase with
  | none, _ => none
  | some _, .waitingForConfirmation =>
      some ({ t with phase := .waitingForConfirmationTimedOut, deadline := none },
        .confirmationTimedOut)
  | some _, .waitingForResponse =>
      some ({ t with phase := .waitingForResponseTimedOut, deadline := none }, .responseTimedOut)
  | some _, .waitingAfterConfirmation | some _, .waitingAfterResponse =>
      some (initial, .freeForSend)
  | some _, .freeForSend | some _, .waitingForConfirmationTimedOut
  | some _, .waitingForResponseTimedOut => none

end Expiry

end Tracker
end MeshExchange
