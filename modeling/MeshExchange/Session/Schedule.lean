import MeshExchange.System.Basic

/-!
# The schedule of a session

A session fixes the order of what happens. Time stands still while anything can happen; then it jumps
to the next timer. At one instant the callers go first, in order, each until it has to wait. Then the
worker and the pump take turns until both wait, and only then do the callers go on. So no caller sees
a phase that ends within the instant because the pump already has the next frame.

**Results.**
* `System.drive`: an action repeated until it cannot happen;
* `System.runBackground`: the worker and the pump until both wait;
* `System.round`: one round at an instant;
* `System.settle`: rounds and jumps until all callers are through and nothing can happen any more.
-/

namespace MeshExchange
namespace System

section Rounds

/-- An action again and again, as long as it can happen, but at most so many times. -/
def drive (a : Action) : Nat → System → System
  | 0, s => s
  | n + 1, s =>
      match s.step a with
      | some s => drive a n s
      | none => s

/-- More steps than a caller takes before it has to wait. -/
def callerSteps : Nat := 8

/-- More passes than the worker makes before it needs a caller. -/
def workerPasses : Nat := 4

/-- More steps than the pump takes before it needs the worker. -/
def pumpSteps (s : System) : Nat := 3 * (s.deliveries.length + 2)

/-- Each caller in order until it has to wait. -/
def runCallers (s : System) : System :=
  (List.range s.callers.length).foldl (fun s i => drive (.resume i) callerSteps s) s

/-- Whether the worker or the pump can do anything at this instant. -/
def isBackgroundAble (s : System) : Bool := (s.step .work).isSome || (s.step .deliver).isSome

/-- The worker and the pump in turn, each until it has to wait; so many turns at most. -/
def runBackground : Nat → System → System
  | 0, s => s
  | n + 1, s =>
      if s.isBackgroundAble then
        let s := drive .work workerPasses s
        runBackground n (drive .deliver s.pumpSteps s)
      else s

/-- More turns than the worker and the pump take before they need a caller. A delivery takes at most
two, one for the command before it and one for its own. -/
def backgroundTurns (s : System) : Nat := 2 * s.deliveries.length + 8

/-- One round: the callers, then the worker and the pump. -/
def round (s : System) : System :=
  let s := s.runCallers
  runBackground s.backgroundTurns s

/-- Whether anything can happen at this instant. -/
def isAble (s : System) : Bool :=
  (List.range s.callers.length).any (fun i => (s.step (.resume i)).isSome) || s.isBackgroundAble

end Rounds

section Clock

/-- When the worker acts by itself. -/
def workerTimer? (s : System) : Option Instant :=
  if s.machine.status = .running then s.machine.tracker.deadline else none

/-- All instants at which somebody goes on. -/
def timers (s : System) : List Instant :=
  s.callers.filterMap Stage.timer? ++ s.workerTimer?.toList ++ s.pumpTimer?.toList

/-- The earliest instant ahead at which somebody goes on. -/
def nextTimer? (s : System) : Option Instant := (s.timers.filter (s.now < ·)).min?

/-- Whether all callers are through. -/
def isThrough (s : System) : Bool := s.callers.all fun c => c.answer?.isSome

/-- Rounds while anything can happen, and jumps while a caller waits; so many of both at most. -/
def settleWithin : Nat → System → System
  | 0, s => s
  | n + 1, s =>
      if s.isAble then settleWithin n s.round
      else if s.isThrough then s
      else
        match s.nextTimer? with
        | some t => settleWithin n { s with now := t }
        | none => s

/-- More rounds and jumps than the callers and deliveries of a system need. A sender that lost the
channel tries again only after another request was accepted. -/
def rounds (s : System) : Nat :=
  let actors := s.callers.length + s.deliveries.length + 4
  64 * actors * actors

/-- Lets everything happen until all callers are through. -/
def settle (s : System) : System := settleWithin s.rounds s

end Clock

end System
end MeshExchange
