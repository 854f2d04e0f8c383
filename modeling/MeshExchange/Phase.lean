/-!
# Phases of an exchange

The shared channel is in exactly one phase at any time. A request, its confirmation and its response
move it forward; a wait that is not met in time ends in a timed-out phase, which only a reset leaves;
after the last frame of an exchange the channel lingers until the mesh has drained.

**Results.**
* `Phase.isTimedOut`, `Phase.expectsEvent`, `Phase.isLinger`: the three kinds of phases beside the
  free one;
* `Phase.banner`: the name of a phase in messages;
* `Phase.label`, `Phase.ofLabel?`: the name of a phase in data, and the phase of a name.
-/

namespace MeshExchange

/-- What the channel is waiting for. -/
inductive Phase
  | freeForSend
  | waitingForConfirmation
  | waitingForConfirmationTimedOut
  | waitingAfterConfirmation
  | waitingForResponse
  | waitingForResponseTimedOut
  | waitingAfterResponse
  deriving DecidableEq, Repr

namespace Phase

section Kinds

/-- The phase before the first request. -/
def initial : Phase := .freeForSend

instance : Inhabited Phase := ⟨initial⟩

/-- Phases left only by a reset. -/
def isTimedOut : Phase → Bool
  | .waitingForConfirmationTimedOut | .waitingForResponseTimedOut => true
  | _ => false

/-- Phases that expect a frame within a budget. -/
def expectsEvent : Phase → Bool
  | .waitingForConfirmation | .waitingForResponse => true
  | _ => false

/-- Phases that end by themselves once the mesh has drained. -/
def isLinger : Phase → Bool
  | .waitingAfterConfirmation | .waitingAfterResponse => true
  | _ => false

end Kinds

section Names

/-- The phase as messages name it. -/
def banner : Phase → String
  | .freeForSend => "FREE_FOR_SEND"
  | .waitingForConfirmation => "WAITING_FOR_CONFIRMATION"
  | .waitingForConfirmationTimedOut => "WAITING_FOR_CONFIRMATION_TIMED_OUT"
  | .waitingAfterConfirmation => "WAITING_AFTER_CONFIRMATION"
  | .waitingForResponse => "WAITING_FOR_RESPONSE"
  | .waitingForResponseTimedOut => "WAITING_FOR_RESPONSE_TIMED_OUT"
  | .waitingAfterResponse => "WAITING_AFTER_RESPONSE"

/-- The phase as data names it. -/
def label : Phase → String
  | .freeForSend => "FreeForSend"
  | .waitingForConfirmation => "WaitingForConfirmation"
  | .waitingForConfirmationTimedOut => "WaitingForConfirmationTimedOut"
  | .waitingAfterConfirmation => "WaitingAfterConfirmation"
  | .waitingForResponse => "WaitingForResponse"
  | .waitingForResponseTimedOut => "WaitingForResponseTimedOut"
  | .waitingAfterResponse => "WaitingAfterResponse"

/-- All phases. -/
def all : List Phase :=
  [.freeForSend, .waitingForConfirmation, .waitingForConfirmationTimedOut,
   .waitingAfterConfirmation, .waitingForResponse, .waitingForResponseTimedOut,
   .waitingAfterResponse]

/-- The phase that data names so. -/
def ofLabel? (name : String) : Option Phase := all.find? fun p => p.label == name

end Names

end Phase
end MeshExchange
