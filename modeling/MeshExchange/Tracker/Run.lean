import MeshExchange.Tracker.Basic

/-!
# Runs of a tracker

A tracker by itself, without a worker: commands and expiries come in any order and at any instants, and
the times that budgets are computed from may change between them.

**Results.**
* `TrackerRun.step`: what comes of one step;
* `TrackerRun.trace`: the outcomes of a list of steps, each with the tracker after it.
-/

namespace MeshExchange

/-- What happens to a tracker. -/
inductive TrackerStep
  | setTiming (timing : Timing)
  | command (command : Command) (now : Instant)
  /-- The deadline passes, whatever the time. -/
  | expire
  deriving DecidableEq, Repr

/-- What comes of a step. -/
inductive TrackerOutcome
  /-- The phase changed, and a listener is to be notified. -/
  | moved (phase : Phase) (notification : Option Notification)
  | refused (fault : Fault)
  /-- There was no deadline to pass, or only the times were set. -/
  | unchanged
  deriving DecidableEq, Repr

/-- A tracker and the times that its budgets are computed from. -/
structure TrackerRun where
  timing : Timing := {}
  tracker : Tracker := {}
  deriving DecidableEq, Repr

namespace TrackerRun

/-- What comes of one step, and the run after it. A refused command changes nothing. -/
def step (r : TrackerRun) : TrackerStep → TrackerOutcome × TrackerRun
  | .setTiming timing => (.unchanged, { r with timing })
  | .command c now =>
      match r.tracker.handle r.timing now c with
      | .ok tracker => (.moved tracker.phase c.notification?, { r with tracker })
      | .error fault => (.refused fault, r)
  | .expire =>
      match r.tracker.expire with
      | some (tracker, n) => (.moved tracker.phase (some n), { r with tracker })
      | none => (.unchanged, r)

/-- The outcomes of a list of steps, each with the run after it. -/
def trace (r : TrackerRun) : List TrackerStep → List (TrackerOutcome × TrackerRun)
  | [] => []
  | s :: rest =>
      let (outcome, r') := r.step s
      (outcome, r') :: trace r' rest

/-- The run after a list of steps. -/
def after (r : TrackerRun) (steps : List TrackerStep) : TrackerRun :=
  steps.foldl (fun r s => (r.step s).2) r

end TrackerRun
end MeshExchange
