import MeshExchange.Link
import MeshExchange.Machine.Pending
import MeshExchange.Observer

/-!
# Calls and their answers

What can be asked of a machine, of the channel in front of it, of its observers and of its link, and
how far a caller has got with it.

**Results.**
* `Call`, `Answer`: the questions and the answers;
* `Incoming.command`: the command that an incoming frame amounts to;
* `Stage`: what a caller is waiting for;
* `Stage.timer?`: when a waiting caller goes on in any case.
-/

namespace MeshExchange

/-- What a caller asks for. Instants that are left out are the one at which the call begins. -/
inductive Call
  | start (hasExecutor : Bool)
  | destroy
  | sleep (time : Duration)
  | register (kind : ObserverKind) (name : String)
  | unregister
  | setTime (field : Timing.Field) (ms : Int64)
  | newRequest (request : Request)
  | confirmation (confirmation : Confirmation) (receivedAt : Option Instant)
  | response (length : Nat) (receivedAt : Option Instant)
  | reset
  /-- Wait for a free channel. -/
  | waitFree (limit : Duration)
  /-- Wait for a phase. -/
  | waitPhase (target : Phase) (limit : Duration)
  /-- Announce a request on a free channel and send its frame. -/
  | send (request : Request)
  /-- Take in a frame from the coordinator. -/
  | receive (frame : Frame) (receivedAt : Option Instant)
  | setBehaviour (behaviour : Behaviour)
  /-- Look at the machine. -/
  | inspect
  /-- How often a recording observer was notified. -/
  | counts (name : String)
  /-- What a forwarding observer has passed on since the last time. -/
  | drain (name : String)
  /-- The frames that left. -/
  | sent
  deriving DecidableEq, Repr

/-- The command that an incoming frame amounts to. -/
def Incoming.command (receivedAt : Instant) : Incoming → Command
  | .confirmation _ c => .confirmationReceived receivedAt c
  | .response _ _ length => .responseReceived receivedAt length

/-- What can be seen of a machine. -/
structure View where
  phase : Phase
  timing : Timing
  settings : Settings
  deriving DecidableEq, Repr

/-- How a call ends. -/
inductive Answer
  | done
  | entered (phase : Phase)
  | refused (fault : Fault)
  /-- A wait for a phase; none if it lasted too long. -/
  | watched (outcome : Option Machine.Watch)
  | viewed (view : View)
  | counted (tally : Tally)
  | drained (notifications : List Notification)
  | listed (frames : List Frame)
  deriving DecidableEq, Repr

namespace Answer

/-- The answer to a command. A reset is answered without the phase it led to. -/
def ofReply (c : Command) : Reply → Answer
  | .ok phase => if c = .resetAfterError then .done else .entered phase
  | .error fault => .refused fault

end Answer

/-- A request that is being sent, its frame, and when its sender stops trying. -/
structure Sending where
  request : Request
  frame : Frame
  deadline : Instant
  deriving DecidableEq, Repr

/-- How far a caller has got. -/
inductive Stage
  /-- The call has not begun. -/
  | planned (due : Instant) (call : Call)
  | sleeping (due : Instant)
  /-- Waits for the reply to a command. -/
  | commanding (pending : Pending)
  | waitingFree (limit : Duration) (giveUp : Instant)
  | waitingPhase (target : Phase) (giveUp : Instant)
  /-- Waits for the worker to stop. -/
  | joining (giveUp : Instant)
  /-- A sender waits for a free channel. -/
  | seeking (sending : Sending) (limit : Duration) (giveUp : Instant)
  /-- A sender saw a free channel. -/
  | announcing (sending : Sending)
  /-- A sender waits for the reply to its announcement. -/
  | announced (sending : Sending) (pending : Pending)
  /-- A sender's announcement was accepted. -/
  | transmitting (sending : Sending) (phase : Phase)
  | finished (instant : Instant) (answer : Answer)
  deriving DecidableEq, Repr

namespace Stage

/-- When a waiting caller goes on, whatever happens. -/
def timer? : Stage → Option Instant
  | .planned due _ | .sleeping due => some due
  | .commanding pending | .announced _ pending => some pending.giveUp
  | .waitingFree _ giveUp | .waitingPhase _ giveUp | .joining giveUp | .seeking _ _ giveUp =>
      some giveUp
  | .announcing _ | .transmitting _ _ | .finished _ _ => none

/-- The answer of a caller that is through, and when it got it. -/
def answer? : Stage → Option (Answer × Instant)
  | .finished instant answer => some (answer, instant)
  | _ => none

end Stage
end MeshExchange
