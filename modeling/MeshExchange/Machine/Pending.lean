import MeshExchange.Machine.Basic

/-!
# Calls in flight

A caller submits a command and waits for the reply, but not longer than the guard time. A reply that
is there counts even if the time is up. A caller that gives up leaves the queue; if its command is in
the slot already, the worker still handles it.

**Results.**
* `Machine.submit`: the command is on its way, if the machine runs;
* `Machine.pursue`: one step of the caller towards its reply.
-/

namespace MeshExchange

/-- A command on its way, and when its caller gives up. -/
structure Pending where
  ticket : Ticket
  command : Command
  giveUp : Instant
  deriving DecidableEq, Repr

namespace Machine

variable {L : Type}

section Submitting

/-- Submits a command to the worker of a running machine. -/
def submit (m : Machine L) (c : Command) (now : Instant) : Except Fault (Pending × Machine L) :=
  if m.status = .running then
    .ok (⟨m.mailbox.nextTicket, c, now + m.settings.stateChangeLimit⟩,
      { m with mailbox := m.mailbox.submit c })
  else .error .notRunning

end Submitting

section Pursuing

/-- The reply to a ticket, if the worker gave it. -/
def reply? (m : Machine L) (t : Ticket) : Option Reply := m.replies.lookup t

/-- The reply to a ticket has been fetched. -/
def fetched (m : Machine L) (t : Ticket) : Machine L :=
  { m with replies := m.replies.filter (·.1 != t) }

/-- The caller gives up. -/
def abandon (m : Machine L) (t : Ticket) : Machine L :=
  { m with mailbox := m.mailbox.withdraw t }

/-- One step of a caller: it hands its command in, or learns its reply, or gives up; none if it has
to wait on. -/
def pursue (m : Machine L) (p : Pending) (now : Instant) : Option (Option Reply × Machine L) :=
  match m.mailbox.handIn? p.ticket with
  | some mailbox => some (none, { m with mailbox })
  | none =>
      match m.reply? p.ticket with
      | some reply => some (some reply, m.fetched p.ticket)
      | none =>
          if m.status.isClosed then some (some (.error .notRunning), m)
          else if p.giveUp ≤ now then
            some (some (.error (.stateChangeTimeout m.settings.stateChangeLimit)),
              m.abandon p.ticket)
          else none

end Pursuing

end Machine
end MeshExchange
