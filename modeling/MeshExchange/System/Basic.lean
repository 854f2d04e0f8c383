import MeshExchange.Machine.Worker
import MeshExchange.System.Call

/-!
# A machine, its callers and its link on one clock

Callers, the worker and the pump, which takes in what the mesh sends back, act one at a time on a
machine; time passes between their actions. A system is the state of all of them together with a
journal of what happened when. Any order of actions is a run of a system.

**Results.**
* `System.step`: what one action makes of a system, if it can happen;
* `System.steps`: the same for a list of actions.
-/

namespace MeshExchange

/-- How far the pump has got with a delivery. -/
inductive Pump
  | idle
  | sleeping (delivery : Delivery)
  /-- Waits for the reply to the command of a delivery. -/
  | handing (delivery : Delivery) (pending : Pending)
  deriving DecidableEq, Repr

/-- What the journal of a system says. -/
inductive Entry
  | worked (turn : Turn Observer)
  /-- A frame was handed to the link. -/
  | transmitted (frame : Frame) (outcome : Except Fault Unit)
  /-- The pump has taken in a delivery. -/
  | handedOver (delivery : Delivery) (outcome : Reply)
  /-- The receiver of an observer was emptied. -/
  | drained (observer : Observer)
  deriving DecidableEq, Repr

/-- Whom an entry says to have been notified, and of what. -/
def Entry.notified? : Entry → Option (Observer × Notification)
  | .worked turn => turn.notified
  | _ => none

/-- A machine with all that acts on it. -/
structure System where
  now : Instant := 0
  machine : Machine Observer := {}
  link : Link := .recording
  /-- How long a sender waits for a free channel. -/
  sendWait : Duration := Duration.millis 10000
  /-- What the mesh sends back and the pump has not taken yet. -/
  deliveries : List Delivery := []
  pump : Pump := .idle
  callers : List Stage := []
  /-- The observer that the system was set up with, if any. -/
  resident : Option Observer := none
  /-- All observers that were ever registered. -/
  observers : List Observer := []
  journal : List (Instant × Entry) := []
  deriving DecidableEq, Repr

namespace System

section Journal

/-- Notes in the journal what happens now. -/
def record (s : System) (e : Entry) : System := { s with journal := s.journal ++ [(s.now, e)] }

/-- The frames that reached the link. -/
def sentFrames (s : System) : List Frame :=
  if s.link.takesFrames then
    s.journal.filterMap fun
      | (_, .transmitted frame _) => some frame
      | _ => none
  else []

/-- All notifications of an observer. -/
def notifications (s : System) (o : Observer) : List Notification :=
  s.journal.filterMap fun (_, e) =>
    e.notified?.bind fun (o', n) => if o' = o then some n else none

/-- The notifications that wait at the receiver of an observer. -/
def waitingNotifications (s : System) (o : Observer) : List Notification :=
  s.journal.foldl
    (fun waiting (_, e) =>
      match e with
      | .drained o' => if o' = o then [] else waiting
      | e =>
          match e.notified? with
          | some (o', n) => if o' = o then waiting ++ [n] else waiting
          | none => waiting)
    []

/-- The observer of a kind and a name: the resident one, whose name no other takes over, or else the
latest. -/
def observer? (s : System) (kind : ObserverKind) (name : String) : Option Observer :=
  (s.resident.toList ++ s.observers.reverse).find? fun o => o.kind = kind ∧ o.name = name

end Journal

section Calls

/-- A call that ends at once. -/
def finish (s : System) (a : Answer) : Stage × System := (.finished s.now a, s)

/-- A call that changes the machine, or is refused. -/
def change (s : System) : Except Fault (Machine Observer) → Stage × System
  | .ok machine => { s with machine }.finish .done
  | .error fault => s.finish (.refused fault)

/-- A command is submitted. -/
def command (s : System) (c : Command) : Stage × System :=
  match s.machine.submit c s.now with
  | .ok (pending, machine) => (.commanding pending, { s with machine })
  | .error fault => s.finish (.refused fault)

/-- A sender begins to wait for a free channel, for what is left of its time. -/
def seek (s : System) (sending : Sending) : Stage × System :=
  if s.machine.status.isOpen then
    let limit := Instant.since sending.deadline s.now
    (.seeking sending limit (s.now + limit), s)
  else s.finish (.refused .notRunning)

/-- What an observed machine shows. -/
def view (s : System) : View := ⟨s.machine.phase, s.machine.timing, s.machine.settings⟩

/-- An observer is registered. -/
def observe (s : System) (kind : ObserverKind) (name : String) : System :=
  let o : Observer := ⟨kind, name, s.observers.length⟩
  { s with machine := s.machine.register (some o), observers := s.observers ++ [o] }

/-- A call begins. -/
def begin (s : System) : Call → Stage × System
  | .start hasExecutor => s.change (s.machine.start hasExecutor)
  | .destroy =>
      let s' := { s with machine := s.machine.destroy }
      if s.machine.status = .running then
        (.joining (s.now + s.machine.settings.joinGrace), s')
      else s'.finish .done
  | .sleep time => (.sleeping (s.now + time), s)
  | .register kind name => (s.observe kind name).finish .done
  | .unregister => { s with machine := s.machine.register none }.finish .done
  | .setTime f ms => s.change (s.machine.setTime f ms)
  | .newRequest r => s.command (.newRequest r)
  | .confirmation c receivedAt => s.command (.confirmationReceived (receivedAt.getD s.now) c)
  | .response length receivedAt => s.command (.responseReceived (receivedAt.getD s.now) length)
  | .reset => s.command .resetAfterError
  | .waitFree limit =>
      if s.machine.status.isOpen then (.waitingFree limit (s.now + limit), s)
      else s.finish (.refused .notRunning)
  | .waitPhase target limit => (.waitingPhase target (s.now + limit), s)
  | .send r =>
      match r.toFrame with
      | .ok frame => s.seek ⟨r, frame, s.now + s.sendWait⟩
      | .error fault => s.finish (.refused fault)
  | .receive frame receivedAt =>
      match Incoming.decode frame with
      | .ok incoming => s.command (incoming.command (receivedAt.getD s.now))
      | .error fault => s.finish (.refused fault)
  | .setBehaviour behaviour => { s with link := s.link.withBehaviour behaviour }.finish .done
  | .inspect => s.finish (.viewed s.view)
  | .counts name =>
      let heard := (s.observer? .recording name).elim [] s.notifications
      s.finish (.counted (Tally.ofNotifications heard))
  | .drain name =>
      match s.observer? .forwarding name with
      | some o => (s.record (.drained o)).finish (.drained (s.waitingNotifications o))
      | none => s.finish (.drained [])
  | .sent => s.finish (.listed s.sentFrames)

end Calls

section Callers

/-- The frame of an accepted request is handed to the link. -/
def transmit (s : System) (sending : Sending) (phase : Phase) : Stage × System :=
  match s.link.transmit sending.frame s.now with
  | .ok deliveries =>
      let s := s.record (.transmitted sending.frame (.ok ()))
      { s with deliveries := s.deliveries ++ deliveries }.finish (.entered phase)
  | .error fault =>
      (s.record (.transmitted sending.frame (.error fault))).finish (.refused fault)

/-- A sender learns what became of its announcement. One that lost the channel to another tries again
while it has time. -/
def afterAnnouncement (s : System) (sending : Sending) : Reply → Stage × System
  | .ok phase => (.transmitting sending phase, s)
  | .error fault =>
      if fault.isContractViolation ∧ s.now < sending.deadline then s.seek sending
      else s.finish (.refused fault)

/-- One step of a caller; none if it has to wait. -/
def advance (s : System) : Stage → Option (Stage × System)
  | .planned due call => if due ≤ s.now then some (s.begin call) else none
  | .sleeping due => if due ≤ s.now then some (s.finish .done) else none
  | .commanding pending =>
      (s.machine.pursue pending s.now).map fun
        | (none, machine) => (.commanding pending, { s with machine })
        | (some reply, machine) => { s with machine }.finish (.ofReply pending.command reply)
  | .waitingFree limit giveUp =>
      match s.machine.watch .freeForSend with
      | some .reached => some (s.finish .done)
      | some .closed => some (s.finish (.refused .notRunning))
      | none =>
          if giveUp ≤ s.now then some (s.finish (.refused (.stateChangeTimeout limit))) else none
  | .waitingPhase target giveUp =>
      match s.machine.watch target with
      | some outcome => some (s.finish (.watched outcome))
      | none => if giveUp ≤ s.now then some (s.finish (.watched none)) else none
  | .joining giveUp =>
      if s.machine.status = .destroyed ∨ giveUp ≤ s.now then some (s.finish .done) else none
  | .seeking sending limit giveUp =>
      match s.machine.watch .freeForSend with
      | some .reached => some (.announcing sending, s)
      | some .closed => some (s.finish (.refused .notRunning))
      | none =>
          if giveUp ≤ s.now then some (s.finish (.refused (.stateChangeTimeout limit))) else none
  | .announcing sending =>
      match s.machine.submit (.newRequest sending.request) s.now with
      | .ok (pending, machine) => some (.announced sending pending, { s with machine })
      | .error fault => some (s.finish (.refused fault))
  | .announced sending pending =>
      (s.machine.pursue pending s.now).map fun
        | (none, machine) => (.announced sending pending, { s with machine })
        | (some reply, machine) => { s with machine }.afterAnnouncement sending reply
  | .transmitting sending phase => some (s.transmit sending phase)
  | .finished _ _ => none

/-- The caller at an index takes one step. -/
def resume (s : System) (i : Nat) : Option System :=
  (s.callers[i]?).bind fun stage =>
    (s.advance stage).map fun (stage, s) => { s with callers := s.callers.set i stage }

end Callers

section Worker

/-- The worker makes one pass. -/
def work (s : System) : Option System :=
  (s.machine.turn Observer.react s.now).map fun (turn, machine) =>
    { s with machine }.record (.worked turn)

end Worker

section Pump

/-- A delivery has been taken in. -/
def handOver (s : System) (d : Delivery) (outcome : Reply) : System :=
  { s.record (.handedOver d outcome) with pump := .idle }

/-- The pump takes one step; none if it has to wait. -/
def deliver (s : System) : Option System :=
  match s.pump with
  | .idle =>
      match s.deliveries with
      | [] => none
      | d :: deliveries => some { s with pump := .sleeping d, deliveries }
  | .sleeping d =>
      if d.due ≤ s.now then
        match Incoming.decode d.frame with
        | .error fault => some (s.handOver d (.error fault))
        | .ok incoming =>
            match s.machine.submit (incoming.command d.due) s.now with
            | .ok (pending, machine) => some { s with machine, pump := .handing d pending }
            | .error fault => some (s.handOver d (.error fault))
      else none
  | .handing d pending =>
      (s.machine.pursue pending s.now).map fun
        | (none, machine) => { s with machine }
        | (some reply, machine) => { s with machine }.handOver d reply

/-- When the pump goes on, if it waits for a delivery. -/
def pumpTimer? (s : System) : Option Instant :=
  match s.pump with
  | .sleeping d => some d.due
  | .handing _ pending => some pending.giveUp
  | .idle => none

end Pump

end System

/-- What can happen to a system. -/
inductive Action
  /-- A caller comes with a call that begins at an instant. -/
  | call (due : Instant) (call : Call)
  | resume (caller : Nat)
  | work
  | deliver
  /-- Time passes up to an instant. -/
  | elapse (instant : Instant)
  deriving DecidableEq, Repr

namespace System

section Steps

/-- What an action makes of a system, if it can happen. -/
def step (s : System) : Action → Option System
  | .call due call => some { s with callers := s.callers ++ [.planned due call] }
  | .resume i => s.resume i
  | .work => s.work
  | .deliver => s.deliver
  | .elapse t => if s.now ≤ t then some { s with now := t } else none

/-- What a list of actions makes of a system. -/
def steps (s : System) (as : List Action) : Option System := as.foldlM step s

end Steps

end System
end MeshExchange
