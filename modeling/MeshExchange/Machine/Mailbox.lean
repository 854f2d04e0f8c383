import MeshExchange.Tracker.Basic

/-!
# The mailbox of the worker

Commands reach the worker through a single slot, first come first served. A caller that finds the
slot taken queues; once the slot is emptied it is granted to the first in the queue, who hands the
command in when it runs next. Nobody overtakes the queue.

**Results.**
* `Mailbox.submit`: a new command takes the slot or joins the queue;
* `Mailbox.handIn`: the caller whose turn it is fills the slot;
* `Mailbox.take?`: the worker empties the slot;
* `Mailbox.withdraw`: a caller gives up; a command already in the slot stays there;
* `Mailbox.close`: nothing is taken any more.
-/

namespace MeshExchange

/-- Tells the commands of a run apart. -/
abbrev Ticket := Nat

/-- The slot between the callers and the worker. -/
inductive Slot
  | empty
  /-- Kept free for a caller until it hands its command in. -/
  | granted (ticket : Ticket) (command : Command)
  | full (ticket : Ticket) (command : Command)
  deriving DecidableEq, Repr

/-- The slot, the callers that wait for it in order, and the next ticket. -/
structure Mailbox where
  slot : Slot := .empty
  queue : List (Ticket × Command) := []
  nextTicket : Ticket := 0
  deriving DecidableEq, Repr

namespace Mailbox

section Callers

/-- A command comes in under the next ticket. -/
def submit (b : Mailbox) (c : Command) : Mailbox :=
  match b.slot with
  | .empty => { b with slot := .full b.nextTicket c, nextTicket := b.nextTicket + 1 }
  | _ => { b with queue := b.queue ++ [(b.nextTicket, c)], nextTicket := b.nextTicket + 1 }

/-- The slot with the ticket's command in it, if the slot was granted to it. -/
def handIn? (b : Mailbox) (t : Ticket) : Option Mailbox :=
  match b.slot with
  | .granted t' c => if t' = t then some { b with slot := .full t c } else none
  | _ => none

/-- The empty slot is granted to the first in the queue. -/
def grantNext (b : Mailbox) : Mailbox :=
  match b.queue with
  | [] => { b with slot := .empty }
  | (t, c) :: rest => { b with slot := .granted t c, queue := rest }

/-- A caller gives up its place. A command in the slot can no longer be called back. -/
def withdraw (b : Mailbox) (t : Ticket) : Mailbox :=
  match b.slot with
  | .granted t' _ => if t' = t then b.grantNext else { b with queue := b.queue.filter (·.1 != t) }
  | _ => { b with queue := b.queue.filter (·.1 != t) }

end Callers

section Worker

/-- The command in the slot, and the mailbox without it. -/
def take? (b : Mailbox) : Option (Ticket × Command × Mailbox) :=
  match b.slot with
  | .full t c => some (t, c, b.grantNext)
  | _ => none

/-- The worker is gone: slot and queue lose what they held. -/
def close (b : Mailbox) : Mailbox := { b with slot := .empty, queue := [] }

end Worker

end Mailbox
end MeshExchange
