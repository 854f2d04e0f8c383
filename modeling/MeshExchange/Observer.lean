import MeshExchange.Machine.Basic

/-!
# Observers

The listeners that a session registers. They keep a log, change their own registration, fail, count or
pass notifications on; some do nothing that can be seen.

**Results.**
* `Observer.react`: what the callback of an observer does;
* `Observer.line?`: the line that an observer logs;
* `Tally.ofNotifications`: how often each notification came.
-/

namespace MeshExchange

/-- What an observer does with a notification. -/
inductive ObserverKind
  | logging
  /-- Logs, and removes itself. -/
  | retiring
  /-- Logs, and registers a logging successor. -/
  | succeeding
  /-- Logs, and fails. -/
  | failing
  | silent
  | recording
  /-- Passes notifications on to a receiver. -/
  | forwarding
  deriving DecidableEq, Repr

/-- A listener of a session. -/
structure Observer where
  kind : ObserverKind
  name : String
  /-- Tells observers of one kind and name apart. -/
  serial : Nat
  deriving DecidableEq, Repr

namespace Notification

/-- The notification as log lines name it. -/
def logName : Notification → String
  | .freeForSend => "free_for_send"
  | .confirmationTimedOut => "confirmation_timed_out"
  | .responseTimedOut => "response_timed_out"

/-- The notification as data names it. -/
def label : Notification → String
  | .freeForSend => "FreeForSend"
  | .confirmationTimedOut => "ConfirmationTimedOut"
  | .responseTimedOut => "ResponseTimedOut"

end Notification

namespace Observer

/-- Whether the observer writes to the log of the session. -/
def logs (o : Observer) : Bool :=
  match o.kind with
  | .logging | .retiring | .succeeding | .failing => true
  | .silent | .recording | .forwarding => false

/-- The line an observer logs. -/
def line? (o : Observer) (n : Notification) : Option String :=
  if o.logs then some (o.name ++ ":" ++ n.logName) else none

/-- The observer that a succeeding one leaves in its place. -/
def successor (o : Observer) : Observer := ⟨.logging, o.name ++ "'", o.serial⟩

/-- What the callback of an observer does. -/
def react : Callback Observer := fun o _ =>
  match o.kind with
  | .retiring => { swaps := [none] }
  | .succeeding => { swaps := [some o.successor] }
  | .failing => { returns := false }
  | .logging | .silent | .recording | .forwarding => {}

end Observer

/-- How often each notification came. -/
structure Tally where
  freeForSend : Nat
  confirmationTimeouts : Nat
  responseTimeouts : Nat
  deriving DecidableEq, Repr

namespace Tally

/-- The counts of a list of notifications. -/
def ofNotifications (ns : List Notification) : Tally :=
  ⟨ns.count .freeForSend, ns.count .confirmationTimedOut, ns.count .responseTimedOut⟩

/-- Notifications of any kind. -/
def total (t : Tally) : Nat := t.freeForSend + t.confirmationTimeouts + t.responseTimeouts

end Tally
end MeshExchange
