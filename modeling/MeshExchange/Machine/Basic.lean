import MeshExchange.Machine.Mailbox
import MeshExchange.Settings.Basic

/-!
# The machine that guards the channel

A machine is created, started once and destroyed for good. While it runs, a single worker owns the
tracker: it alone moves the phase, publishes it, answers commands and notifies the listener. A
listener that fails takes the worker with it.

**Input.** A type of listeners, and what their callbacks do.

**Results.**
* `Machine.create`: a machine with valid settings;
* `Machine.start`, `Machine.destroy`: the life of a machine;
* `Machine.register`, `Machine.setTime`: what may be changed at any time;
* `Machine.watch`: what a caller learns that waits for a phase.
-/

namespace MeshExchange

/-- The answer to a command: the phase it led to, or why it was refused. -/
abbrev Reply := Except Fault Phase

/-- What a callback does besides taking notice. -/
structure Reaction (L : Type) where
  /-- The registrations it makes, in order; none removes the listener. -/
  swaps : List (Option L) := []
  /-- Whether it returns to the worker. -/
  returns : Bool := true
  deriving DecidableEq, Repr

/-- What each listener does when it is notified. -/
abbrev Callback (L : Type) := L → Notification → Reaction L

/-- Where a machine stands in its life. A status stands for the flags and handles of `Controls`. -/
inductive Status
  | created
  | running
  /-- Started and not destroyed, but a listener has ended the worker. -/
  | failed
  /-- Destroyed; the worker has not noticed yet. -/
  | stopping
  | destroyed
  deriving DecidableEq, Repr

namespace Status

/-- Whether calls are let in. -/
def isOpen : Status → Bool
  | .running | .failed => true
  | _ => false

/-- Whether the worker is gone, and with it all hope for a reply or another phase. -/
def isClosed : Status → Bool
  | .failed | .destroyed => true
  | _ => false

end Status

/-- A machine with listeners of type `L`. -/
structure Machine (L : Type) where
  settings : Settings := {}
  timing : Timing := {}
  status : Status := .created
  listener : Option L := none
  tracker : Tracker := {}
  /-- The phase as the worker last published it. -/
  phase : Phase := .freeForSend
  mailbox : Mailbox := {}
  /-- Answers that their callers have not fetched yet. -/
  replies : List (Ticket × Reply) := []
  deriving DecidableEq, Repr

namespace Machine

variable {L : Type}

section Life

/-- A machine with the given settings, which must be valid. -/
def create (s : Settings) : Except Fault (Machine L) := do
  s.validate
  let timing ← Timing.ofSettings s
  return { settings := s, timing }

/-- Starts the worker, which needs an executor to run on. Without one the start may be tried again. -/
def start (m : Machine L) (hasExecutor : Bool) : Except Fault (Machine L) :=
  match m.status with
  | .created => if hasExecutor then .ok { m with status := .running } else .error .notRunning
  | _ => .error .alreadyStarted

/-- The worker is gone; what was not handled never will be. -/
def close (m : Machine L) (status : Status) : Machine L :=
  { m with status, mailbox := m.mailbox.close }

/-- Ends the machine for good. A running worker is told to stop. -/
def destroy (m : Machine L) : Machine L :=
  match m.status with
  | .running => { m with status := .stopping }
  | .created | .failed => m.close .destroyed
  | .stopping | .destroyed => m

end Life

section Handle

/-- Replaces the listener; none removes it. -/
def register (m : Machine L) (listener : Option L) : Machine L := { m with listener }

/-- Sets how long a confirmation may take, or the base of the wait for a response. It counts from the next
wait on. -/
def setTime (m : Machine L) (f : Timing.Field) (ms : Int64) : Except Fault (Machine L) :=
  (m.timing.withTime f ms).map fun timing => { m with timing }

end Handle

section Watching

/-- How a wait for a phase ends. -/
inductive Watch
  | reached
  | closed
  deriving DecidableEq, Repr

/-- What a caller that waits for a phase learns now; none if it has to wait on. -/
def watch (m : Machine L) (target : Phase) : Option Watch :=
  if m.phase = target then some .reached
  else if m.status.isClosed then some .closed
  else none

end Watching

end Machine
end MeshExchange
