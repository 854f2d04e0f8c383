import MeshExchange.Proofs.Tracker.Coherence
import MeshExchange.System.Call

/-!
# Scripts on a bare tracker

What comes of a list of calls that are made one after the other, if there were only a tracker and a
clock: no worker, no mailbox and nobody who waits. A sleep sets the clock forward, and before a command
is handled the deadline passes if it has come. This is what a machine is measured by.

**Input.** The instant at which a script begins, the times in force, and the calls.

**Results.**
* `Standing.lapse`, `Standing.obey`: what the clock and a command make of a tracker and of what was
  told;
* `Ledger.play`: what a call makes of a ledger;
* `Standing.lapse_lapse`: a deadline that has passed makes no difference later on.
-/

namespace MeshExchange

/-- A tracker, and all that a listener was told. -/
structure Standing where
  tracker : Tracker := .initial
  notifications : List Notification := []
  deriving DecidableEq, Repr

namespace Standing

section Moves

/-- The deadline passes, if it has come by an instant. -/
def lapse (t : Instant) (x : Standing) : Standing :=
  match if x.tracker.isDue t then x.tracker.expire else none with
  | some (tracker, n) => ⟨tracker, x.notifications ++ [n]⟩
  | none => x

/-- A command is handled at an instant, and answered. -/
def obey (timing : Timing) (t : Instant) (c : Command) (x : Standing) : Standing × Reply :=
  match x.tracker.handle timing t c with
  | .ok tracker => (⟨tracker, x.notifications ++ c.notification?.toList⟩, .ok tracker.phase)
  | .error fault => (x, .error fault)

end Moves

section Lapsing

variable {x : Standing} {t t' : Instant}

theorem lapse_eq_self (h : (if x.tracker.isDue t then x.tracker.expire else none) = none) :
    x.lapse t = x := by
  rw [lapse, h]

theorem lapse_of_expire {tracker : Tracker} {n : Notification}
    (h : (if x.tracker.isDue t then x.tracker.expire else none) = some (tracker, n)) :
    x.lapse t = ⟨tracker, x.notifications ++ [n]⟩ := by
  rw [lapse, h]

theorem lapse_of_deadline_eq_none (h : x.tracker.deadline = none) : x.lapse t = x :=
  lapse_eq_self (by simp [Tracker.isDue, h])

/-- A deadline that has passed makes no difference later on. -/
theorem lapse_lapse (h : t ≤ t') : (x.lapse t).lapse t' = x.lapse t' := by
  cases he : if x.tracker.isDue t then x.tracker.expire else none with
  | none => rw [lapse_eq_self he]
  | some y =>
      obtain ⟨tracker, n⟩ := y
      obtain ⟨hdue, he'⟩ := (Option.ite_none_right_eq_some).1 he
      have hd : tracker.deadline = none := (Tracker.expire_eq_some_iff.1 he').deadline_eq_none
      have hdue' : (if x.tracker.isDue t' then x.tracker.expire else none) =
          some (tracker, n) := by
        rw [if_pos (Tracker.isDue_mono h hdue), he']
      rw [lapse_of_expire he, lapse_of_expire hdue']
      exact lapse_of_deadline_eq_none hd

end Lapsing

end Standing

/-- A script, played on a bare tracker. -/
structure Ledger where
  now : Instant
  timing : Timing
  standing : Standing := {}
  /-- The answers so far, each with the instant at which it came. -/
  answers : List (Answer × Instant) := []
  deriving DecidableEq, Repr

namespace Ledger

section Calls

def answer (l : Ledger) (a : Answer) : Ledger := { l with answers := l.answers ++ [(a, l.now)] }

def pass (l : Ledger) (time : Duration) : Ledger := { l with now := l.now + time }.answer .done

/-- The times are set, or not. -/
def setTiming (l : Ledger) : Except Fault Timing → Ledger
  | .ok timing => { l with timing }.answer .done
  | .error fault => l.answer (.refused fault)

/-- A command is handled. If the deadline has come, it passes before. -/
def obey (l : Ledger) (c : Command) : Ledger :=
  let (standing, reply) := (l.standing.lapse l.now).obey l.timing l.now c
  { l with standing }.answer (.ofReply c reply)

/-- What a call makes of a ledger, if a script may contain it. -/
def play (l : Ledger) : Call → Ledger
  | .sleep time => l.pass time
  | .setTime f ms => l.setTiming (l.timing.withTime f ms)
  | .newRequest r => l.obey (.newRequest r)
  | .confirmation c receivedAt => l.obey (.confirmationReceived (receivedAt.getD l.now) c)
  | .response length receivedAt => l.obey (.responseReceived (receivedAt.getD l.now) length)
  | .reset => l.obey .resetAfterError
  | _ => l

/-- A script, played from the beginning. -/
def plays (l : Ledger) (script : List Call) : Ledger := script.foldl play l

end Calls

end Ledger

/-- The calls of which scripts consist. -/
def Call.isScripted : Call → Bool
  | .sleep _ | .setTime _ _ | .newRequest _ | .confirmation _ _ | .response _ _ | .reset => true
  | _ => false

end MeshExchange
