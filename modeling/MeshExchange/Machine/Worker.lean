import MeshExchange.Machine.Basic

/-!
# The worker

The worker repeats one pass: it stops if it was told to; else it lets the phase end if the deadline
has come; else it handles the command in the slot. So a deadline that is due wins over a command, and
a shutdown over both.

A change of the phase is published first. Then the caller gets its reply, and last the listener is
notified. The listener that counts is the one in place when its callback begins; what the callback
registers counts from the next notification on.

**Results.**
* `Machine.turn`: one pass at a given instant, or none if the worker has nothing to do;
* `Turn`: what the worker did in it.
-/

namespace MeshExchange

/-- What the worker did in one pass. -/
inductive Deed
  | stopped
  /-- The phase ended by itself. -/
  | expired (notification : Notification)
  | handled (ticket : Ticket) (command : Command) (reply : Reply)
  deriving DecidableEq, Repr

/-- One pass of the worker: its deed, and who was notified of what. -/
structure Turn (L : Type) where
  deed : Deed
  notified : Option (L × Notification) := none
  deriving DecidableEq, Repr

namespace Machine

variable {L : Type}

section Notifying

/-- Calls the listener back. One that fails ends the worker. -/
def notify (callback : Callback L) (n : Notification) (m : Machine L) : Machine L :=
  match m.listener with
  | none => m
  | some l =>
      let reaction := callback l n
      let m := { m with listener := reaction.swaps.getLast?.getD m.listener }
      if reaction.returns then m else m.close .failed

/-- Who hears of a notification. -/
def audience (m : Machine L) (n : Notification) : Option (L × Notification) :=
  m.listener.map fun l => (l, n)

end Notifying

section Passes

/-- The worker has followed the order to stop. -/
def stop (m : Machine L) : Turn L × Machine L := (⟨.stopped, none⟩, m.close .destroyed)

/-- The phase has ended by itself. -/
def expireTo (callback : Callback L) (m : Machine L) (t : Tracker) (n : Notification) :
    Turn L × Machine L :=
  (⟨.expired n, m.audience n⟩,
    { m with tracker := t, phase := t.phase }.notify callback n)

/-- A command is handled: it moves the tracker or is refused, and is answered either way. -/
def handleCommand (callback : Callback L) (now : Instant) (m : Machine L) (ticket : Ticket)
    (c : Command) : Turn L × Machine L :=
  match m.tracker.handle m.timing now c with
  | .ok t =>
      let reply : Reply := .ok t.phase
      let m := { m with tracker := t, phase := t.phase, replies := m.replies ++ [(ticket, reply)] }
      match c.notification? with
      | none => (⟨.handled ticket c reply, none⟩, m)
      | some n => (⟨.handled ticket c reply, m.audience n⟩, m.notify callback n)
  | .error fault =>
      let reply : Reply := .error fault
      (⟨.handled ticket c reply, none⟩, { m with replies := m.replies ++ [(ticket, reply)] })

/-- The tracker after its deadline, if that has come. -/
def dueExpiry (now : Instant) (m : Machine L) : Option (Tracker × Notification) :=
  if m.tracker.isDue now then m.tracker.expire else none

/-- One pass of the worker, if it has anything to do. -/
def turn (callback : Callback L) (now : Instant) (m : Machine L) : Option (Turn L × Machine L) :=
  match m.status with
  | .stopping => some m.stop
  | .running =>
      match m.dueExpiry now with
      | some (t, n) => some (m.expireTo callback t n)
      | none =>
          m.mailbox.take?.map fun (ticket, c, mailbox) =>
            { m with mailbox }.handleCommand callback now ticket c
  | _ => none

end Passes

end Machine
end MeshExchange
