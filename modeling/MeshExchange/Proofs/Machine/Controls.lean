import MeshExchange.Machine.Controls
import MeshExchange.Machine.Pending
import MeshExchange.Proofs.Machine.Passes

/-!
# The status of a machine and its controls

The status of a machine stands for its controls: each status for one combination of the flags, the halves
of the channels, the handle and the task, and no other combination comes up. What a machine answers by its
status is what its controls say.

**Method.** A simulation. `Controls.Stands` relates controls to a status; starts, destroys and passes of
the worker keep it, each taken on either side as it is defined there.

**Results.**
* `Controls.Stands`: the controls of each status;
* `Controls.Stands.start_of_created`, `Controls.Stands.start_of_ne_created`, `Controls.Stands.destroy`,
  `Controls.Stands.pass`: what keeps it;
* `Controls.Governs`, `Controls.Stands.governs`: a machine does what its controls say.
-/

namespace MeshExchange
namespace Controls

variable {L : Type} {c : Controls} {status : Status} {m m' : Machine L}

/-- The controls that a status stands for. -/
inductive Stands : Controls → Status → Prop
  | created : Stands {} .created
  | running : Stands
      { started := true, running := true, hasParts := false, hasHandle := true, task := .alive } .running
  | failed : Stands
      { started := true, running := true, hasParts := false, hasHandle := true, task := .ended } .failed
  | stopping : Stands
      { started := true, hasParts := false, shutdown := true, task := .alive } .stopping
  /-- There may never have been a worker. -/
  | destroyed {shutdown : Bool} {task : Task} (h : task ≠ .alive) : Stands
      { started := true, hasParts := false, shutdown, task } .destroyed

section Keeping

/-- A start works if it finds an executor, and else leaves no trace. -/
theorem Stands.start_of_created (h : c.Stands .created) :
    (c.start true).1 = .ok () ∧ (c.start true).2.Stands .running ∧
      c.start false = (.error .notRunning, c) := by
  cases h
  exact ⟨rfl, .running, rfl⟩

/-- Any other start fails, and finds the flag set: the halves of the channels are never asked for. -/
theorem Stands.start_of_ne_created (h : c.Stands status) (hs : status ≠ .created)
    (hasExecutor : Bool) : c.start hasExecutor = (.error .alreadyStarted, c) := by
  cases h with
  | created => exact absurd rfl hs
  | _ => rfl

theorem Stands.destroy (h : c.Stands m.status) : c.destroy.2.Stands m.destroy.status := by
  generalize hs : m.status = status at h
  cases h with
  | created =>
      rw [Machine.destroy, hs]
      exact .destroyed (by decide)
  | failed =>
      rw [Machine.destroy, hs]
      exact .destroyed (by decide)
  | running =>
      rw [Machine.destroy, hs]
      exact .stopping
  | stopping =>
      rw [Machine.destroy, hs, hs]
      exact .stopping
  | destroyed ht =>
      rw [Machine.destroy, hs, hs]
      exact .destroyed ht

/-- **A pass** ends the task of the worker where it ends the worker. -/
theorem Stands.pass {callback : Callback L} {now : Instant} {turn : Turn L} (h : c.Stands m.status)
    (hw : m.Works callback now turn m') : (c.pass (turn.returns callback)).Stands m'.status := by
  rcases hw.status_eq with ⟨hs, hs'⟩ | ⟨hs, hs'⟩
  · rw [hs] at h
    rw [hs']
    cases h
    exact .destroyed (by decide)
  · rw [hs] at h
    rw [hs']
    cases h
    cases turn.returns callback with
    | true => exact .running
    | false => exact .failed

end Keeping

section Governing

/-- A machine does what its controls say. -/
structure Governs (c : Controls) (m : Machine L) : Prop where
  /-- A start is answered as they answer it. -/
  start : ∀ hasExecutor, (m.start hasExecutor).map (fun _ => ()) = (c.start hasExecutor).1
  /-- A command comes in if operations are let in and somebody holds the halves of the channels. -/
  submit : ∀ command now, (∃ p m', m.submit command now = .ok (p, m')) ↔
    c.running = true ∧ c.isClosed = false
  /-- A wait for a free channel begins if operations are let in. -/
  isOpen : m.status.isOpen = c.running
  /-- Waits end if the halves of the channels are gone. -/
  isClosed : m.status.isClosed = c.isClosed
  /-- Whoever destroys the machine waits if it takes the handle of a task that is alive. -/
  joins : m.status = .running ↔ c.destroy.1 = true ∧ c.task = .alive

/-- **The status of a machine says what its controls say.** -/
theorem Stands.governs (h : c.Stands m.status) : c.Governs m := by
  constructor
  · intro hasExecutor
    generalize hs : m.status = status at h
    cases h <;> cases hasExecutor <;> simp only [Machine.start, hs] <;> rfl
  · intro command now
    have hrunning : m.status = .running ↔ c.running = true ∧ c.isClosed = false := by
      generalize m.status = status at h
      cases h <;> simp_all [Controls.isClosed]
    rw [← hrunning, Machine.submit]
    split
    · next hs => exact iff_of_true ⟨_, _, rfl⟩ hs
    · next hs => exact iff_of_false (by simp) hs
  · generalize m.status = status at h
    cases h <;> rfl
  · generalize m.status = status at h
    cases h <;> simp_all [Controls.isClosed, Status.isClosed]
  · generalize m.status = status at h
    cases h <;> simp_all [Controls.destroy]

end Governing

end Controls
end MeshExchange
