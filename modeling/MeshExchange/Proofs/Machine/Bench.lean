import MeshExchange.Proofs.Machine.Passes

/-!
# A worker by itself

A worker without its callers: what reaches it one thing at a time, and what it does about each. A command
that is refused is seen by nobody but its caller, so a worker that never got it does the same.

**Input.** Any list of stimuli: the clock, the life of the machine, its registration and its times, and
the passes of the worker, each with a command in the slot or without.

**Results.**
* `Bench.meet`, `Bench.trace`: what the worker makes of one stimulus, and of a list of them;
* `Machine.Works.exists_bare`: a pass depends on nothing of the callers but the command in the slot;
* `Bench.meet_of_isRefusal`: a refused command leaves the bench as it was;
* `Bench.trace_erase`, `Bench.after_erase`, `Bench.isPunctual_erase`: the stimuli without the refused
  commands have the same effects at the same instants.
-/

namespace MeshExchange

namespace Deed

/-- Whether a deed is the refusal of a command. -/
def isRefusal : Deed → Bool
  | .handled _ _ (.error _) => true
  | _ => false

/-- What a deed found in the slot. -/
def slot : Deed → Slot
  | .handled ticket c _ => .full ticket c
  | .stopped | .expired _ => .empty

end Deed

/-- What reaches a worker, one thing at a time. -/
inductive Stimulus (L : Type)
  | elapse (now : Instant)
  | start
  | destroy
  | register (listener : Option L)
  | setTime (field : Timing.Field) (ms : Int64)
  /-- A pass with nothing in the slot. -/
  | wake
  /-- A pass with a command in the slot. -/
  | command (ticket : Ticket) (command : Command)
  deriving DecidableEq, Repr

/-- The stimulus that a deed answers. -/
def Deed.stimulus {L : Type} : Deed → Stimulus L
  | .handled ticket c _ => .command ticket c
  | .stopped | .expired _ => .wake

/-- A worker with its clock. The mailbox and the replies of its machine play no part. -/
structure Bench (L : Type) where
  now : Instant
  machine : Machine L
  deriving DecidableEq, Repr

namespace Machine

variable {L : Type}

/-- The machine without anything of its callers. -/
def bare (m : Machine L) : Machine L := { m with mailbox := {}, replies := [] }

section Frame

variable {callback : Callback L} {now : Instant} {m m' : Machine L} {turn : Turn L}

theorem announce_bare (callback : Callback L) (n? : Option Notification) (m : Machine L) :
    (m.announce callback n?).bare = (m.bare.announce callback n?).bare := by
  cases n? with
  | none => rfl
  | some n =>
      cases hl : m.listener with
      | none => simp [announce, notify, hl, bare]
      | some l =>
          cases hr : (callback l n).returns with
          | true => simp [announce, notify, hl, hr, bare]
          | false => simp [announce, notify, hl, hr, bare, close]

/-- The callers play no part in a notification. -/
theorem announce_bare_congr (callback : Callback L) (n? : Option Notification)
    {m₁ m₂ : Machine L} (h : m₁.bare = m₂.bare) :
    (m₁.announce callback n?).bare = (m₂.announce callback n?).bare := by
  rw [announce_bare, h, ← announce_bare]

/-- A pass depends on nothing of the callers but the command in the slot. -/
theorem Works.exists_bare (h : Works callback now m turn m') :
    ∃ m₁, Works callback now { m.bare with mailbox := { slot := turn.deed.slot } } turn m₁ ∧
      m₁.bare = m'.bare := by
  cases h with
  | stops hs => exact ⟨_, .stops hs, rfl⟩
  | lapses hs hd ht => exact ⟨_, .lapses hs hd ht, announce_bare_congr callback _ rfl⟩
  | accepts hs hd hb ht => exact ⟨_, .accepts hs hd rfl ht, announce_bare_congr callback _ rfl⟩
  | refuses hs hd hb hf => exact ⟨_, .refuses hs hd rfl hf, rfl⟩

/-- A refused command is told to its caller and to nobody else. -/
theorem Works.of_isRefusal (h : Works callback now m turn m')
    (hr : turn.deed.isRefusal = true) :
    m'.bare = m.bare ∧ turn.notified = none := by
  cases h with
  | refuses => exact ⟨rfl, rfl⟩
  | stops => cases hr
  | lapses => cases hr
  | accepts => cases hr

end Frame
end Machine

namespace Bench

variable {L : Type}

section Meeting

/-- The bench with another machine, if there is one. -/
def change (x : Bench L) (r : Except Fault (Machine L)) : Bench L :=
  match r with
  | .ok machine => { x with machine }
  | .error _ => x

/-- One pass over a slot. The callers' side of the machine stays as it is. -/
def pass (callback : Callback L) (slot : Slot) (x : Bench L) : Option (Turn L) × Bench L :=
  match { x.machine with mailbox := { slot } }.turn callback x.now with
  | some (turn, m) =>
      (some turn,
        { x with machine := { m with mailbox := x.machine.mailbox, replies := x.machine.replies } })
  | none => (none, x)

/-- What a worker makes of a stimulus: its pass, if it makes one, and the bench after it. -/
def meet (callback : Callback L) (x : Bench L) : Stimulus L → Option (Turn L) × Bench L
  | .elapse now => (none, { x with now })
  | .start => (none, x.change (x.machine.start true))
  | .destroy => (none, { x with machine := x.machine.destroy })
  | .register listener => (none, { x with machine := x.machine.register listener })
  | .setTime f ms => (none, x.change (x.machine.setTime f ms))
  | .wake => x.pass callback .empty
  | .command ticket c => x.pass callback (.full ticket c)

/-- What a worker makes of a list of stimuli: each pass with the bench after it. -/
def trace (callback : Callback L) (x : Bench L) :
    List (Stimulus L) → List (Option (Turn L) × Bench L)
  | [] => []
  | a :: rest => x.meet callback a :: trace callback (x.meet callback a).2 rest

/-- The bench after a list of stimuli. -/
def after (callback : Callback L) (x : Bench L) (stimuli : List (Stimulus L)) : Bench L :=
  stimuli.foldl (fun x a => (x.meet callback a).2) x

/-- The passes of a trace, each with its instant. -/
def passes (told : List (Option (Turn L) × Bench L)) : List (Instant × Turn L) :=
  told.filterMap fun (turn?, x) => turn?.map fun turn => (x.now, turn)

/-- Whether a worker has refused a command. -/
def isRefusal (told : Option (Turn L) × Bench L) : Bool := told.1.any (·.deed.isRefusal)

/-- The stimuli without the commands that are refused. -/
def erase (callback : Callback L) (x : Bench L) : List (Stimulus L) → List (Stimulus L)
  | [] => []
  | a :: rest =>
      let told := x.meet callback a
      let rest' := erase callback told.2 rest
      if isRefusal told then rest' else a :: rest'

end Meeting

section Clock

/-- Whether the clock waits at the deadline of a worker that runs. -/
def isOnTime (x y : Bench L) : Bool :=
  x.machine.status != .running || x.machine.tracker.deadline.all fun d => y.now ≤ max x.now d

/-- Whether it waits at every deadline. -/
def isPunctual (callback : Callback L) (x : Bench L) : List (Stimulus L) → Bool
  | [] => true
  | a :: rest =>
      let y := (x.meet callback a).2
      x.isOnTime y && isPunctual callback y rest

/-- What a worker makes of a stimulus, if there is one. -/
def meet? (callback : Callback L) (x : Bench L) :
    Option (Stimulus L) → Option (Turn L) × Bench L
  | none => (none, x)
  | some a => x.meet callback a

theorem isOnTime_of_now {x y : Bench L} (h : y.now = x.now) : x.isOnTime y = true := by
  have hall : (x.machine.tracker.deadline.all fun d => y.now ≤ max x.now d) = true := by
    cases x.machine.tracker.deadline with
    | none => rfl
    | some d => exact decide_eq_true (h ▸ Nat.le_max_left x.now d)
  rw [isOnTime, hall, Bool.or_true]

/-- A stimulus, if there is one, and the stimuli after it. -/
theorem meet?_append {callback : Callback L} {x y : Bench L} {a? : Option (Stimulus L)}
    {turn? : Option (Turn L)} (h : x.meet? callback a? = (turn?, y)) (rest : List (Stimulus L)) :
    x.after callback (a?.toList ++ rest) = y.after callback rest ∧
      passes (x.trace callback (a?.toList ++ rest)) =
        (turn?.map fun turn => (y.now, turn)).toList ++ passes (y.trace callback rest) ∧
      x.isPunctual callback (a?.toList ++ rest) =
        (x.isOnTime y && y.isPunctual callback rest) := by
  cases a? with
  | none =>
      obtain ⟨rfl, rfl⟩ := Prod.mk.inj h
      exact ⟨rfl, rfl, by rw [isOnTime_of_now rfl]; rfl⟩
  | some a =>
      have hm : x.meet callback a = (turn?, y) := h
      refine ⟨?_, ?_, ?_⟩
      · simp [after, hm]
      · cases turn? <;> simp [trace, passes, hm]
      · simp [isPunctual, hm]

end Clock

section Erasure

variable {callback : Callback L} {x : Bench L} {slot : Slot} {turn : Turn L}

theorem pass_of_works {m : Machine L}
    (h : Machine.Works callback x.now { x.machine with mailbox := { slot } } turn m) :
    x.pass callback slot =
      (some turn,
        { x with
          machine := { m with mailbox := x.machine.mailbox, replies := x.machine.replies } }) := by
  rw [pass, Machine.turn_eq_some_iff.2 h]

theorem exists_works_of_pass (h : (x.pass callback slot).1 = some turn) :
    ∃ m, Machine.Works callback x.now { x.machine with mailbox := { slot } } turn m := by
  unfold pass at h
  split at h
  · next turn' m hm =>
      cases h
      exact ⟨m, Machine.turn_eq_some_iff.1 hm⟩
  · cases h

theorem pass_of_isRefusal (h : isRefusal (x.pass callback slot) = true) :
    (x.pass callback slot).2 = x := by
  obtain ⟨turn, hturn, hr⟩ := (Option.any_eq_true _ _).1 h
  obtain ⟨m, hw⟩ := exists_works_of_pass hturn
  rw [pass_of_works hw]
  cases hw with
  | refuses => rfl
  | stops => cases hr
  | lapses => cases hr
  | accepts => cases hr

/-- **A refused command leaves the bench as it was.** -/
theorem meet_of_isRefusal {a : Stimulus L} (h : isRefusal (x.meet callback a) = true) :
    (x.meet callback a).2 = x := by
  cases a with
  | wake => exact pass_of_isRefusal h
  | command ticket c => exact pass_of_isRefusal h
  | _ => cases h

/-- Without the refused commands, a worker does what it did besides refusing them. -/
theorem trace_erase (callback : Callback L) (x : Bench L) (stimuli : List (Stimulus L)) :
    x.trace callback (x.erase callback stimuli) =
      (x.trace callback stimuli).filter fun told => !isRefusal told := by
  induction stimuli generalizing x with
  | nil => rfl
  | cons a rest ih =>
      by_cases hr : isRefusal (x.meet callback a) = true
      · have hx := meet_of_isRefusal hr
        simp only [erase, trace, hr, if_true, List.filter_cons, Bool.not_true, Bool.false_eq_true,
          if_false]
        rw [hx, ih]
      · simp only [erase, trace, hr, if_false, List.filter_cons, Bool.not_false, if_true,
          Bool.false_eq_true, ih]

/-- Without the refused commands, the bench ends up the same. -/
theorem after_erase (callback : Callback L) (x : Bench L) (stimuli : List (Stimulus L)) :
    x.after callback (x.erase callback stimuli) = x.after callback stimuli := by
  induction stimuli generalizing x with
  | nil => rfl
  | cons a rest ih =>
      by_cases hr : isRefusal (x.meet callback a) = true
      · have hx := meet_of_isRefusal hr
        simp only [erase, hr, if_true]
        rw [hx, ih]
        exact (congrArg (after callback · rest) hx).symm
      · simp only [erase, hr, if_false, Bool.false_eq_true]
        exact ih _

/-- Without the refused commands, the clock waits at the same deadlines. -/
theorem isPunctual_erase (callback : Callback L) (x : Bench L) (stimuli : List (Stimulus L)) :
    x.isPunctual callback (x.erase callback stimuli) = x.isPunctual callback stimuli := by
  induction stimuli generalizing x with
  | nil => rfl
  | cons a rest ih =>
      by_cases hr : isRefusal (x.meet callback a) = true
      · have hx := meet_of_isRefusal hr
        simp only [erase, isPunctual, hr, if_true, hx, ih, isOnTime_of_now rfl, Bool.true_and]
      · simp only [erase, isPunctual, hr, if_false, Bool.false_eq_true, ih]

end Erasure
end Bench
end MeshExchange
