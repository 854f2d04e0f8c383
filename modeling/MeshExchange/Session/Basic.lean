import MeshExchange.Session.Schedule

/-!
# Sessions

A session sets up a machine in front of a link and takes steps one after the other. A step makes one
call, or several that run side by side. After each step the session reports the answers and what else
could be seen since the step before.

**Results.**
* `Setup.assemble`: the system of a session, if the settings are valid;
* `Session.run`: the report of each step.
-/

namespace MeshExchange

/-- What a session begins with. -/
structure Setup where
  settings : Settings := {}
  link : Link := .recording
  /-- How long a sender waits for a free channel, if not as long as the settings say. -/
  sendWait : Option Duration := none
  /-- The name of a resident recording observer, with which the machine is started from the
  beginning. -/
  harness : Option String := none
  deriving DecidableEq, Repr

/-- The system of a session before its first step. -/
def Setup.assemble (setup : Setup) : Except Fault System := do
  let machine ← Machine.create setup.settings
  let s : System :=
    { machine, link := setup.link, sendWait := setup.sendWait.getD setup.settings.sendWait }
  match setup.harness with
  | none => return s
  | some name =>
      let s := s.observe .recording name
      let machine ← s.machine.start true
      return { s with machine, resident := s.machine.listener }

/-- Calls with the time from the beginning of the step to theirs. -/
abbrev Step := List (Duration × Call)

/-- What a session reports of a step. -/
structure Report where
  /-- The answers in the order of the calls, each with the instant at which it came. -/
  answers : List (Answer × Instant)
  now : Instant
  phase : Phase
  /-- What observers have logged. -/
  lines : List String
  /-- What became of the deliveries that were taken in. -/
  outcomes : List Reply
  deriving DecidableEq, Repr

namespace Session

section Reports

/-- The lines that observers logged according to a journal. -/
def lines (journal : List (Instant × Entry)) : List String :=
  journal.filterMap fun (_, e) => e.notified?.bind fun (o, n) => o.line? n

/-- The outcomes of deliveries according to a journal. -/
def outcomes (journal : List (Instant × Entry)) : List Reply :=
  journal.filterMap fun
    | (_, .handedOver _ outcome) => some outcome
    | _ => none

/-- The report of a step that began when the journal had a given length. -/
def report (s : System) (journalLength : Nat) : Report :=
  let news := s.journal.drop journalLength
  { answers := s.callers.filterMap Stage.answer?
    now := s.now
    phase := s.machine.phase
    lines := lines news
    outcomes := outcomes news }

end Reports

section Runs

/-- A system to which the calls of a step come. -/
def arrange (s : System) (step : Step) : System :=
  { s with callers := step.map fun (after, call) => .planned (s.now + after) call }

/-- The system after a step. -/
def take (s : System) (step : Step) : System := (arrange s step).settle

/-- The reports of a list of steps. -/
def run (s : System) : List Step → List Report
  | [] => []
  | step :: rest =>
      let s' := take s step
      report s' s.journal.length :: run s' rest

end Runs

end Session
end MeshExchange
