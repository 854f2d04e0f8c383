import MeshExchange.Fault

/-!
# Settings

Five times in milliseconds govern a machine. They are signed, so that a negative time is refused
instead of taken for a long one.

**Results.**
* `Settings.validate`: the first negative time, in the order of the fields, is the fault;
* `Settings.stateChangeLimit`, `Settings.joinGrace`, `Settings.sendWait`: the guards, in which a
  negative time counts as zero;
* `Timing.ofSettings`: the two times that budgets are computed from;
* `Timing.checkedMillis`: a time in milliseconds, refused if it is negative;
* `Timing.withTime`: the two times with one of them replaced.
-/

namespace MeshExchange

/-- Times in milliseconds. -/
structure Settings where
  /-- How long a confirmation may take. -/
  confirmationWait : Int64 := 500
  /-- How long a response may take, routing not counted. -/
  responseBase : Int64 := 500
  /-- How long a call may wait for the worker. -/
  stateChangeTimeout : Int64 := 1000
  /-- How long a shutdown waits for the worker. -/
  joinGracePeriod : Int64 := 2000
  /-- How long a sender waits for a free channel. -/
  sendWaitTimeout : Int64 := 10000
  deriving DecidableEq, Repr

/-- The times that the budgets of the phases are computed from. -/
structure Timing where
  confirmationWait : Duration := Duration.millis 500
  responseBase : Duration := Duration.millis 500
  deriving DecidableEq, Repr

namespace Timing

/-- One of the two times. -/
inductive Field
  | confirmationWait
  | responseBase
  deriving DecidableEq, Repr

/-- What faults call a time. -/
def Field.name : Field → String
  | .confirmationWait => "time_to_wait_for_confirmation"
  | .responseBase => "base_time_to_wait_for_response"

/-- Replaces one of the times. -/
def set (t : Timing) (f : Field) (time : Duration) : Timing :=
  match f with
  | .confirmationWait => { t with confirmationWait := time }
  | .responseBase => { t with responseBase := time }

section Checks

/-- A time of that many milliseconds; a negative one counts as zero. -/
def clampedMillis (ms : Int64) : Duration := Duration.millis ms.toInt.toNat

/-- Refuses a negative time, under the name of the setting. -/
def checkNonNegative (name : String) (ms : Int64) : Except Fault Unit :=
  if ms.toInt < 0 then .error (.invalidArgument (.negative name ms.toInt)) else .ok ()

/-- A time of that many milliseconds, which must not be negative. -/
def checkedMillis (name : String) (ms : Int64) : Except Fault Duration := do
  checkNonNegative name ms
  return clampedMillis ms

/-- Replaces one of the times by so many milliseconds, which must not be negative. -/
def withTime (t : Timing) (f : Field) (ms : Int64) : Except Fault Timing := do
  let time ← checkedMillis f.name ms
  return t.set f time

end Checks

/-- The times that the settings give. -/
def ofSettings (s : Settings) : Except Fault Timing := do
  let confirmationWait ← checkedMillis Field.confirmationWait.name s.confirmationWait
  let responseBase ← checkedMillis Field.responseBase.name s.responseBase
  return { confirmationWait, responseBase }

end Timing

namespace Settings

/-- Refuses the first negative time. -/
def validate (s : Settings) : Except Fault Unit := do
  Timing.checkNonNegative Timing.Field.confirmationWait.name s.confirmationWait
  Timing.checkNonNegative Timing.Field.responseBase.name s.responseBase
  Timing.checkNonNegative "state_change_timeout" s.stateChangeTimeout
  Timing.checkNonNegative "join_grace_period" s.joinGracePeriod
  Timing.checkNonNegative "send_wait_timeout" s.sendWaitTimeout

/-- How long a call into the machine may wait for the worker. -/
def stateChangeLimit (s : Settings) : Duration := Timing.clampedMillis s.stateChangeTimeout

/-- How long a shutdown waits for the worker to stop. -/
def joinGrace (s : Settings) : Duration := Timing.clampedMillis s.joinGracePeriod

/-- How long a sender waits for a free channel. -/
def sendWait (s : Settings) : Duration := Timing.clampedMillis s.sendWaitTimeout

end Settings
end MeshExchange
