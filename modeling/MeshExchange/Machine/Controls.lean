import MeshExchange.Machine.Basic

/-!
# What starts and ends a machine

How a start, a destroy or an operation is answered is decided in several places: a flag that a start was
made, a flag that operations are let in, the receiving halves of the channels, which wait for a worker to
hold them, the handle of the worker's task, and the order to stop. Each is read and written on its own. A
start swaps the first flag before it looks at anything else, and sets it back if there is no executor; a
destroy sets the flag and takes the halves and the handle away.

**Results.**
* `Controls.start`, `Controls.destroy`: what a start and a destroy make of the controls;
* `Controls.pass`: what a pass of the worker makes of its task;
* `Controls.isClosed`: whether the receiving halves of the channels are gone.
-/

namespace MeshExchange

/-- What has become of the task of the worker. -/
inductive Task
  | unspawned
  | alive
  | ended
  deriving DecidableEq, Repr

/-- Where a machine keeps what starts and ends it. -/
structure Controls where
  /-- A start was made and not taken back, or the machine was destroyed. -/
  started : Bool := false
  /-- Operations are let in. -/
  running : Bool := false
  /-- The receiving halves of the channels still wait for a worker. -/
  hasParts : Bool := true
  /-- The handle of the worker's task is there to be taken. -/
  hasHandle : Bool := false
  /-- The worker is told to stop. -/
  shutdown : Bool := false
  task : Task := .unspawned
  deriving DecidableEq, Repr

namespace Controls

section Life

/-- Starts the worker, which needs an executor to run on and its halves of the channels. -/
def start (c : Controls) (hasExecutor : Bool) : Except Fault Unit × Controls :=
  let wasStarted := c.started
  let c := { c with started := true }
  if wasStarted then (.error .alreadyStarted, c)
  else if !hasExecutor then (.error .notRunning, { c with started := false })
  else
    let hadParts := c.hasParts
    let c := { c with hasParts := false }
    if !hadParts then (.error .alreadyStarted, c)
    else (.ok (), { c with hasHandle := true, task := .alive, running := true })

/-- Ends the machine for good, and tells whether the handle of a worker was taken to be joined. -/
def destroy (c : Controls) : Bool × Controls :=
  let c := { c with started := true, hasParts := false }
  if c.hasHandle then (true, { c with hasHandle := false, running := false, shutdown := true })
  else (false, c)

/-- A pass of the worker. It ends if it was told to stop, or if a callback does not return. -/
def pass (c : Controls) (returns : Bool) : Controls :=
  if c.shutdown || !returns then { c with task := .ended } else c

end Life

/-- Whether the receiving halves of the channels are gone: neither wait for a worker nor are held by one. -/
def isClosed (c : Controls) : Bool := !c.hasParts && c.task != .alive

end Controls
end MeshExchange
