import MeshExchange.Proofs.Machine.Bench
import MeshExchange.Proofs.System.Sparing
import MeshExchange.Session.Basic

/-!
# Who hears of a worker

A worker notifies whoever is registered, and a callback is code of its own: it may register somebody
else, or nobody, while it is called, and it may fail to return. What the worker does is the same with any
listener as without, up to the first callback that does not return, which is the end of the worker.

**Input.** Any list of stimuli of a worker, each with what the callbacks of all listeners do when it comes.
So a callback may depend on everything that happened before it is called.

**Method.** A pass with a listener is compared to the same pass without one. They differ in the
registration and, if the callback fails, in the life of the machine. A run is compared in this way to the
run of a worker that nobody listens to, and two runs through it to each other.

The worker of a system is such a worker in every run (`System.follows_of_steps`).

**Results.**
* `Bench.occupant`: the listener in place after a list of cues, as the registrations tell it;
* `Machine.Works.exists_withoutListener`: a pass with a listener, and the same one without;
* `Bench.runs_withoutListener`: a run of a worker, and the same one without listeners;
* `Bench.Attended`, `Bench.attended_of_cues`: who hears of a run, and what the run owes to them;
* `System.reset_refused_of_failing`: a callback that fails does make a difference.
-/

namespace MeshExchange

/-- A stimulus, with what the callbacks of all listeners do when it comes. -/
abbrev Cue (L : Type) := Callback L × Stimulus L

/-- Whether a stimulus is a registration. -/
def Stimulus.isRegistration {L : Type} : Stimulus L → Bool
  | .register _ => true
  | _ => false

/-- The stimuli of a list of cues without the registrations. -/
def Cue.plain {L : Type} (cues : List (Cue L)) : List (Stimulus L) :=
  (cues.map Prod.snd).filter (!·.isRegistration)

namespace Turn

variable {L : Type}

/-- What the callback of whoever is notified in a pass registers, in order. -/
def swaps (callback : Callback L) (turn : Turn L) : List (Option L) :=
  turn.notified.elim [] fun (l, n) => (callback l n).swaps

/-- The pass with nobody to hear of it. -/
def unheard (turn : Turn L) : Turn L := ⟨turn.deed, none⟩

end Turn

namespace Machine

variable {L : Type}

/-- The machine without its listener. -/
def withoutListener (m : Machine L) : Machine L := m.register none

section Hearing

variable {callback : Callback L} {now : Instant} {m m' : Machine L} {turn : Turn L}

theorem audience_withoutListener (n? : Option Notification) (m : Machine L) :
    n?.bind m.withoutListener.audience = none := by
  cases n? <;> rfl

/-- The registrations of the callback that is called take the place of the listener one by one. -/
theorem listener_announce (callback : Callback L) (n? : Option Notification) (m : Machine L) (d : Deed) :
    (m.announce callback n?).listener =
      (Turn.swaps callback ⟨d, n?.bind m.audience⟩).getLast?.getD m.listener := by
  cases n? with
  | none => rfl
  | some n =>
      cases hl : m.listener with
      | none => simp [announce, notify, audience, Turn.swaps, hl]
      | some l =>
          cases hr : (callback l n).returns <;>
            simp [announce, notify, audience, Turn.swaps, close, hl, hr]

/-- But for the registration, the callback that is called changes nothing, or it ends the worker. -/
theorem withoutListener_announce (callback callback' : Callback L) (n? : Option Notification)
    (m : Machine L) (d : Deed) :
    (m.announce callback n?).withoutListener =
      if Turn.returns callback ⟨d, n?.bind m.audience⟩ then m.withoutListener.announce callback' n?
      else (m.withoutListener.announce callback' n?).close .failed := by
  cases n? with
  | none => rfl
  | some n =>
      cases hl : m.listener with
      | none => simp [announce, notify, audience, Turn.returns, withoutListener, register, hl]
      | some l =>
          cases hr : (callback l n).returns <;>
            simp [announce, notify, audience, Turn.returns, close, withoutListener, register, hl, hr]

theorem Works.listener_eq (h : Works callback now m turn m') :
    m'.listener = (turn.swaps callback).getLast?.getD m.listener := by
  cases h with
  | stops => rfl
  | refuses => rfl
  | lapses => exact listener_announce callback _ _ _
  | accepts => exact listener_announce callback _ _ _

/-- **A pass with a listener, and the same one without.** -/
theorem Works.exists_withoutListener (h : Works callback now m turn m') (callback' : Callback L) :
    ∃ m₁, Works callback' now m.withoutListener turn.unheard m₁ ∧
      m'.withoutListener = if turn.returns callback then m₁ else m₁.close .failed := by
  cases h with
  | stops hs => exact ⟨_, .stops hs, rfl⟩
  | refuses hs hd hb hf => exact ⟨_, .refuses hs hd hb hf, rfl⟩
  | lapses hs hd ht => exact ⟨_, .lapses hs hd ht, withoutListener_announce callback callback' _ _ _⟩
  | @accepts ticket c mailbox t hs hd hb ht =>
      have hw : Works callback' now m.withoutListener _ _ := .accepts hs hd hb ht
      rw [audience_withoutListener] at hw
      exact ⟨_, hw, withoutListener_announce callback callback' _ (m.accepted ticket mailbox t) _⟩

/-- Whether there is a pass to make does not depend on who listens. -/
theorem turn_register_eq_none (h : m.turn callback now = none) (callback' : Callback L)
    (listener : Option L) : (m.register listener).turn callback' now = none := by
  cases hx : (m.register listener).turn callback' now with
  | none => rfl
  | some told =>
      obtain ⟨turn', m'⟩ := told
      obtain ⟨turn, m₁, hw⟩ : ∃ turn m₁, Works callback now m turn m₁ := by
        cases turn_eq_some_iff.1 hx with
        | stops hs => exact ⟨_, _, .stops hs⟩
        | lapses hs hd ht => exact ⟨_, _, .lapses hs hd ht⟩
        | accepts hs hd hb ht => exact ⟨_, _, .accepts hs hd hb ht⟩
        | refuses hs hd hb hf => exact ⟨_, _, .refuses hs hd hb hf⟩
      cases h.symm.trans (turn_eq_some_iff.2 hw)

end Hearing

section Registering

theorem start_register (m : Machine L) (listener : Option L) (hasExecutor : Bool) :
    (m.register listener).start hasExecutor = (m.start hasExecutor).map (·.register listener) := by
  unfold start register
  cases m.status <;> cases hasExecutor <;> rfl

theorem destroy_register (m : Machine L) (listener : Option L) :
    (m.register listener).destroy = m.destroy.register listener := by
  cases hs : m.status <;> simp [destroy, register, hs, close]

theorem setTime_register (m : Machine L) (listener : Option L) (f : Timing.Field) (ms : Int64) :
    (m.register listener).setTime f ms = (m.setTime f ms).map (·.register listener) := by
  cases h : m.timing.withTime f ms <;> simp [setTime, h, register, Except.map]

end Registering
end Machine

namespace Bench

variable {L : Type}

/-- The bench with another listener, or none. -/
def register (x : Bench L) (listener : Option L) : Bench L :=
  { x with machine := x.machine.register listener }

/-- The bench without its listener. -/
def withoutListener (x : Bench L) : Bench L := x.register none

/-- The bench after a callback has failed. -/
def fail (x : Bench L) : Bench L := { x with machine := { x.machine with status := .failed } }

section Cues

/-- What a worker makes of a cue. -/
def meetCue (x : Bench L) (cue : Cue L) : Option (Turn L) × Bench L := x.meet cue.1 cue.2

/-- The bench after a list of cues. -/
def afterCues (x : Bench L) (cues : List (Cue L)) : Bench L :=
  cues.foldl (fun x cue => (x.meetCue cue).2) x

/-- What a worker makes of each cue of a list, with the bench after it. -/
def traceCues (x : Bench L) : List (Cue L) → List (Option (Turn L) × Bench L)
  | [] => []
  | cue :: rest => x.meetCue cue :: traceCues (x.meetCue cue).2 rest

/-- Each pass: when it was, its deed with the reply in it, and the tracker and the published phase
after it. -/
def deeds (told : List (Option (Turn L) × Bench L)) : List (Instant × Deed × Tracker × Phase) :=
  told.filterMap fun (turn?, x) =>
    turn?.map fun turn => (x.now, turn.deed, x.machine.tracker, x.machine.phase)

/-- Whether every callback that is called returns. -/
def endures (x : Bench L) : List (Cue L) → Bool
  | [] => true
  | cue :: rest => (x.meetCue cue).1.all (·.returns cue.1) && endures (x.meetCue cue).2 rest

/-- What a cue registers: from outside, or by the callback that is called. -/
def swaps (x : Bench L) (cue : Cue L) : List (Option L) :=
  match cue.2 with
  | .register listener => [listener]
  | _ => (x.meetCue cue).1.elim [] (·.swaps cue.1)

/-- What a list of cues registers, in order. -/
def registrations (x : Bench L) : List (Cue L) → List (Option L)
  | [] => []
  | cue :: rest => x.swaps cue ++ registrations (x.meetCue cue).2 rest

/-- The listener after a list of cues, as the registrations tell it: the one registered last. -/
def occupant (x : Bench L) (cues : List (Cue L)) : Option L :=
  (x.registrations cues).getLast?.getD x.machine.listener

end Cues

section Slot

variable {callback : Callback L} {slot : Slot} {x y : Bench L} {cue : Cue L} {turn? : Option (Turn L)}
  {turn : Turn L}

theorem pass_cases (callback : Callback L) (slot : Slot) (x : Bench L) :
    (x.pass callback slot = (none, x) ∧
        { x.machine with mailbox := { slot } }.turn callback x.now = none) ∨
      ∃ turn m, Machine.Works callback x.now { x.machine with mailbox := { slot } } turn m ∧
        x.pass callback slot =
          (some turn,
            { x with
              machine := { m with mailbox := x.machine.mailbox, replies := x.machine.replies } }) := by
  cases h : { x.machine with mailbox := { slot } }.turn callback x.now with
  | none => exact .inl ⟨by rw [pass, h], rfl⟩
  | some told =>
      have hw := Machine.turn_eq_some_iff.1 h
      exact .inr ⟨told.1, told.2, hw, pass_of_works hw⟩

/-- A notification goes to whoever is registered when the pass begins. -/
theorem notified_of_pass (h : x.pass callback slot = (some turn, y)) :
    turn.notified = turn.deed.notification?.bind x.machine.audience := by
  rcases pass_cases callback slot x with ⟨hn, -⟩ | ⟨turn', m, hw, hp⟩
  · cases hn.symm.trans h
  · cases hp.symm.trans h
    exact hw.notified_eq

theorem listener_of_pass (h : x.pass callback slot = (turn?, y)) :
    y.machine.listener = (turn?.elim [] (·.swaps callback)).getLast?.getD x.machine.listener := by
  rcases pass_cases callback slot x with ⟨hn, -⟩ | ⟨turn', m, hw, hp⟩
  · cases hn.symm.trans h
    rfl
  · cases hp.symm.trans h
    exact hw.listener_eq

theorem change_register (x : Bench L) {listener : Option L} {r r' : Except Fault (Machine L)}
    (h : r' = r.map (·.register listener)) :
    (x.register listener).change r' = (x.change r).register listener := by
  subst h
  cases r <;> rfl

/-- A stimulus is a registration, or a pass, or it commutes with registrations. -/
theorem meet_cases (a : Stimulus L) :
    (∃ listener, a = .register listener) ∨
      (a.isRegistration = false ∧ ∃ slot, ∀ (callback : Callback L) (x : Bench L),
        x.meet callback a = x.pass callback slot) ∨
      (a.isRegistration = false ∧ ∃ f : Bench L → Bench L,
        (∀ (callback : Callback L) (x : Bench L), x.meet callback a = (none, f x)) ∧
          ∀ x listener, f (x.register listener) = (f x).register listener) := by
  cases a with
  | register listener => exact .inl ⟨listener, rfl⟩
  | wake => exact .inr (.inl ⟨rfl, .empty, fun _ _ => rfl⟩)
  | command ticket c => exact .inr (.inl ⟨rfl, .full ticket c, fun _ _ => rfl⟩)
  | elapse now => exact .inr (.inr ⟨rfl, _, fun _ _ => rfl, fun _ _ => rfl⟩)
  | start =>
      refine .inr (.inr ⟨rfl, _, fun _ _ => rfl, fun x listener => ?_⟩)
      exact change_register _ (Machine.start_register x.machine listener true)
  | destroy =>
      refine .inr (.inr ⟨rfl, _, fun _ _ => rfl, fun x listener => ?_⟩)
      exact congrArg (Bench.mk x.now) (Machine.destroy_register x.machine listener)
  | setTime f ms =>
      refine .inr (.inr ⟨rfl, _, fun _ _ => rfl, fun x listener => ?_⟩)
      exact change_register _ (Machine.setTime_register x.machine listener f ms)

/-- A cue that is no registration from outside registers what its callback does. -/
theorem swaps_eq {x : Bench L} {cue : Cue L} (h : cue.2.isRegistration = false) :
    x.swaps cue = (x.meetCue cue).1.elim [] (·.swaps cue.1) := by
  obtain ⟨callback, a⟩ := cue
  cases a with
  | register => cases h
  | _ => rfl

/-- What a cue registers takes the place of the listener one by one. -/
theorem listener_meetCue (x : Bench L) (cue : Cue L) :
    (x.meetCue cue).2.machine.listener = (x.swaps cue).getLast?.getD x.machine.listener := by
  obtain ⟨callback, a⟩ := cue
  rcases meet_cases a with ⟨listener, rfl⟩ | ⟨ha, slot, hpass⟩ | ⟨ha, f, hmeet, hf⟩
  · rfl
  · rw [swaps_eq ha]
    exact listener_of_pass (hpass callback x).symm
  · rw [swaps_eq ha, meetCue, hmeet]
    exact congrArg (·.machine.listener) (hf x x.machine.listener)

/-- **The listener in place** is the one registered last. -/
theorem listener_afterCues (x : Bench L) (cues : List (Cue L)) :
    (x.afterCues cues).machine.listener = x.occupant cues := by
  induction cues generalizing x with
  | nil => rfl
  | cons cue rest ih =>
      have hx : (x.afterCues (cue :: rest)).machine.listener =
          (x.meetCue cue).2.occupant rest := ih _
      rw [hx, occupant, listener_meetCue, occupant, registrations, List.getLast?_append]
      cases ((x.meetCue cue).2.registrations rest).getLast? <;> rfl

end Slot

section Inert

variable {callback : Callback L} {slot : Slot} {x y : Bench L} {cue : Cue L} {turn? : Option (Turn L)}
  {turn : Turn L} {cues cues' : List (Cue L)}

/-- Callbacks that do nothing. -/
def inert : Callback L := fun _ _ => {}

theorem pass_withoutListener (callback : Callback L) (slot : Slot) (x : Bench L) :
    ∃ y, x.withoutListener.pass inert slot = ((x.pass callback slot).1.map Turn.unheard, y) ∧
      (x.pass callback slot).2.withoutListener =
        if (x.pass callback slot).1.all (·.returns callback) then y else y.fail := by
  rcases pass_cases callback slot x with ⟨hp, hn⟩ | ⟨turn, m, hw, hp⟩
  · have hn' :
        { x.withoutListener.machine with mailbox := { slot } }.turn inert x.withoutListener.now =
          none :=
      Machine.turn_register_eq_none hn inert none
    rw [hp, pass, hn']
    exact ⟨_, rfl, rfl⟩
  · obtain ⟨m₁, hw₁, hm⟩ := hw.exists_withoutListener inert
    have hp₁ : x.withoutListener.pass inert slot = _ := pass_of_works hw₁
    rw [hp, hp₁]
    refine ⟨_, rfl, ?_⟩
    -- The callers' side of the machine is put back, so that only the worker's matters.
    refine (congrArg (fun m₂ : Machine L => Bench.mk x.now
      { m₂ with mailbox := x.machine.mailbox, replies := x.machine.replies }) hm).trans ?_
    cases hr : turn.returns callback with
    | true =>
        simp only [Option.all_some, hr, if_true]
        rfl
    | false =>
        simp only [Option.all_some, hr, if_false, Bool.false_eq_true]
        rfl

theorem exists_meetCue_withoutListener (x : Bench L) (h : cue.2.isRegistration = false) :
    ∃ y, x.withoutListener.meet inert cue.2 = ((x.meetCue cue).1.map Turn.unheard, y) ∧
      (x.meetCue cue).2.withoutListener =
        if (x.meetCue cue).1.all (·.returns cue.1) then y else y.fail := by
  obtain ⟨callback, a⟩ := cue
  rcases meet_cases a with ⟨listener, rfl⟩ | ⟨ha, slot, hpass⟩ | ⟨ha, f, hmeet, hf⟩
  · cases h
  · rw [meetCue, hpass, hpass]
    exact pass_withoutListener callback slot x
  · rw [meetCue, hmeet, hmeet]
    exact ⟨_, rfl, (hf x none).symm⟩

theorem deeds_cons (told : Option (Turn L) × Bench L) (rest : List (Option (Turn L) × Bench L)) :
    deeds (told :: rest) = deeds [told] ++ deeds rest :=
  List.filterMap_append (l := [told])

theorem deeds_unheard {told : Option (Turn L) × Bench L} (hnow : told.2.now = y.now)
    (htracker : told.2.machine.tracker = y.machine.tracker)
    (hphase : told.2.machine.phase = y.machine.phase) :
    deeds [told] = deeds [(told.1.map Turn.unheard, y)] := by
  obtain ⟨_ | turn, z⟩ := told
  · rfl
  · simp only at hnow htracker hphase
    simp [deeds, Turn.unheard, hnow, htracker, hphase]

/-- **A cue with a listener, and the same one without.** The pass is the same in any case, and so is the
bench after it unless the callback has failed. -/
theorem meetCue_withoutListener (x : Bench L) (cue : Cue L) (h : cue.2.isRegistration = false) :
    deeds [x.meetCue cue] = deeds [x.withoutListener.meet inert cue.2] ∧
      ((x.meetCue cue).1.all (·.returns cue.1) = true →
        (x.meetCue cue).2.withoutListener = (x.withoutListener.meet inert cue.2).2) ∧
      ((x.meetCue cue).1.all (·.returns cue.1) = false →
        (x.meetCue cue).2.machine.status.isClosed = true) := by
  obtain ⟨y, hmeet, hy⟩ := exists_meetCue_withoutListener x h
  have hnow := congrArg Bench.now hy
  have htracker := congrArg (·.machine.tracker) hy
  have hphase := congrArg (·.machine.phase) hy
  have hstatus := congrArg (·.machine.status) hy
  rw [hmeet]
  cases hr : (x.meetCue cue).1.all (·.returns cue.1) with
  | true =>
      rw [hr, if_pos rfl] at hnow htracker hphase hy
      exact ⟨deeds_unheard hnow htracker hphase, fun _ => hy, fun hr => by cases hr⟩
  | false =>
      simp only [hr, Bool.false_eq_true, if_false] at hnow htracker hphase hstatus
      exact ⟨deeds_unheard hnow htracker hphase, (fun hr => by cases hr),
        fun _ => congrArg Status.isClosed hstatus⟩

/-- The worker is gone, and makes nothing of what comes. -/
theorem meetCue_of_isClosed (h : x.machine.status.isClosed = true) (cue : Cue L) :
    (x.meetCue cue).1 = none ∧ (x.meetCue cue).2.machine.status.isClosed = true ∧
      (x.meetCue cue).2.machine.tracker = x.machine.tracker ∧
      (x.meetCue cue).2.machine.phase = x.machine.phase := by
  obtain ⟨callback, a⟩ := cue
  have hpass (slot : Slot) : x.pass callback slot = (none, x) := by
    rcases pass_cases callback slot x with ⟨hp, -⟩ | ⟨turn, m, hw, -⟩
    · exact hp
    · rcases hw.stops_or_runs with ⟨hs, -⟩ | ⟨hs, -⟩
      · cases (congrArg Status.isClosed hs).symm.trans h
      · cases (congrArg Status.isClosed hs).symm.trans h
  cases a with
  | wake => simp [meetCue, meet, hpass, h]
  | command ticket c => simp [meetCue, meet, hpass, h]
  | elapse now => exact ⟨rfl, h, rfl, rfl⟩
  | register listener => exact ⟨rfl, h, rfl, rfl⟩
  | start =>
      have hs : x.machine.start true = .error .alreadyStarted := by
        cases hs : x.machine.status <;> simp_all [Machine.start, Status.isClosed]
      simp [meetCue, meet, hs, change, h]
  | destroy =>
      cases hs : x.machine.status <;>
        simp_all [meetCue, meet, Machine.destroy, Machine.close, Status.isClosed]
  | setTime f ms =>
      cases hs : x.machine.setTime f ms with
      | error fault => simp [meetCue, meet, hs, change, h]
      | ok m =>
          obtain ⟨timing, rfl⟩ := Machine.exists_timing_of_setTime hs
          simp [meetCue, meet, hs, change, h]

/-- The worker is gone for good. -/
theorem afterCues_of_isClosed (h : x.machine.status.isClosed = true) (cues : List (Cue L)) :
    deeds (x.traceCues cues) = [] ∧ (x.afterCues cues).machine.tracker = x.machine.tracker ∧
      (x.afterCues cues).machine.phase = x.machine.phase := by
  induction cues generalizing x with
  | nil => exact ⟨rfl, rfl, rfl⟩
  | cons cue rest ih =>
      obtain ⟨hnone, hclosed, htracker, hphase⟩ := meetCue_of_isClosed h cue
      obtain ⟨hd, ht, hp⟩ := ih hclosed
      refine ⟨?_, ht.trans htracker, hp.trans hphase⟩
      simpa [traceCues, deeds, hnone] using hd

/-- The run of a worker, and the same one without listeners: they agree up to the first callback that
does not return. -/
theorem runs_withoutListener (x : Bench L) (cues : List (Cue L)) :
    deeds (x.traceCues cues) <+: deeds (x.withoutListener.trace inert (Cue.plain cues)) ∧
      (x.endures cues = true →
        deeds (x.traceCues cues) = deeds (x.withoutListener.trace inert (Cue.plain cues)) ∧
          (x.afterCues cues).withoutListener = x.withoutListener.after inert (Cue.plain cues)) := by
  induction cues generalizing x with
  | nil => exact ⟨List.prefix_rfl, fun _ => ⟨rfl, rfl⟩⟩
  | cons cue rest ih =>
      obtain ⟨callback, a⟩ := cue
      cases ha : a.isRegistration with
      | true =>
          cases a with
          | register listener =>
              have hplain : Cue.plain ((callback, .register listener) :: rest) =
                  Cue.plain rest := rfl
              rw [hplain]
              exact ih (x.register listener)
          | _ => cases ha
      | false =>
          obtain ⟨hpass, hreturns, hfails⟩ := meetCue_withoutListener x (callback, a) ha
          have hplain : Cue.plain ((callback, a) :: rest) = a :: Cue.plain rest := by
            simp [Cue.plain, ha]
          have hdeeds : deeds (x.traceCues ((callback, a) :: rest)) =
              deeds [x.withoutListener.meet inert a] ++
                deeds ((x.meetCue (callback, a)).2.traceCues rest) :=
            (deeds_cons _ _).trans (congrArg (· ++ _) hpass)
          have hdeeds' : deeds (x.withoutListener.trace inert (a :: Cue.plain rest)) =
              deeds [x.withoutListener.meet inert a] ++
                deeds ((x.withoutListener.meet inert a).2.trace inert (Cue.plain rest)) :=
            deeds_cons _ _
          rw [hplain, hdeeds, hdeeds']
          cases hr : (x.meetCue (callback, a)).1.all (·.returns callback) with
          | true =>
              obtain ⟨hdone, hsame⟩ := ih (x.meetCue (callback, a)).2
              rw [hreturns hr] at hdone hsame
              refine ⟨(List.prefix_append_right_inj _).2 hdone, fun he => ?_⟩
              obtain ⟨hrest, hafter⟩ := hsame (Bool.and_eq_true_iff.1 he).2
              exact ⟨congrArg _ hrest, hafter⟩
          | false =>
              rw [(afterCues_of_isClosed (hfails hr) rest).1, List.append_nil]
              refine ⟨List.prefix_append _ _, fun he => ?_⟩
              cases hr.symm.trans (Bool.and_eq_true_iff.1 he).1

/-- Who hears of a run, and what the run owes to them. -/
structure Attended (x : Bench L) (cues : List (Cue L)) : Prop where
  /-- The listener in place at any time is the one registered last, from outside or in a callback. -/
  listener : ∀ before after, cues = before ++ after →
    (x.afterCues before).machine.listener = x.occupant before
  /-- What a pass has to tell is told once, to the listener in place when the pass begins. -/
  notified : ∀ before cue after turn, cues = before ++ cue :: after →
    ((x.afterCues before).meetCue cue).1 = some turn →
      turn.notified = turn.deed.notification?.bind fun n => (x.occupant before).map (·, n)
  /-- Other registrations, other listeners and other callbacks, all of which return, make no difference:
  the run does the same as far as its own callbacks return, and the pass of the first that does not
  included. -/
  unaffected : ∀ (y : Bench L) (cues' : List (Cue L)), y.withoutListener = x.withoutListener →
    Cue.plain cues' = Cue.plain cues → y.endures cues' = true →
      deeds (x.traceCues cues) <+: deeds (y.traceCues cues') ∧
        (x.endures cues = true → deeds (x.traceCues cues) = deeds (y.traceCues cues') ∧
          (x.afterCues cues).withoutListener = (y.afterCues cues').withoutListener)
  /-- After a callback that does not return, there is no pass any more. -/
  ended : ∀ before cue after, cues = before ++ cue :: after →
    ((x.afterCues before).meetCue cue).1.all (·.returns cue.1) = false →
      let y := ((x.afterCues before).meetCue cue).2
      y.machine.status.isClosed = true ∧ deeds (y.traceCues after) = [] ∧
        (x.afterCues cues).machine.tracker = y.machine.tracker ∧
        (x.afterCues cues).machine.phase = y.machine.phase

theorem afterCues_append (x : Bench L) (cues cues' : List (Cue L)) :
    x.afterCues (cues ++ cues') = (x.afterCues cues).afterCues cues' :=
  List.foldl_append

theorem notified_of_meetCue (h : (x.meetCue cue).1 = some turn) :
    turn.notified = turn.deed.notification?.bind x.machine.audience := by
  obtain ⟨callback, a⟩ := cue
  rcases meet_cases a with ⟨listener, rfl⟩ | ⟨-, slot, hpass⟩ | ⟨-, f, hmeet, -⟩
  · cases h
  · rw [meetCue, hpass] at h
    exact notified_of_pass (Prod.ext h rfl)
  · rw [meetCue, hmeet] at h
    cases h

/-- **Listeners hear of everything once, and make no difference** unless they fail. -/
theorem attended_of_cues (x : Bench L) (cues : List (Cue L)) : x.Attended cues where
  listener before after _ := listener_afterCues x before
  notified before cue after turn _ hturn := by
    rw [notified_of_meetCue hturn, ← listener_afterCues]
    rfl
  unaffected y cues' hwithout hplain hy := by
    obtain ⟨hdone, hsame⟩ := runs_withoutListener x cues
    obtain ⟨hdeeds, hafter⟩ := (runs_withoutListener y cues').2 hy
    rw [hwithout, hplain] at hdeeds hafter
    rw [hdeeds, hafter]
    exact ⟨hdone, hsame⟩
  ended before cue after hcues hfails := by
    have ha : cue.2.isRegistration = false := by
      obtain ⟨callback, a⟩ := cue
      cases a with
      | register => cases hfails
      | _ => rfl
    have hclosed := (meetCue_withoutListener (x.afterCues before) cue ha).2.2 hfails
    rw [hcues, afterCues_append]
    exact ⟨hclosed, afterCues_of_isClosed hclosed after⟩

/-- A listener that is told of a timeout and leaves its place to another, and that one to a third, before
it is through. -/
example :
    let callback : Callback Nat := fun l _ => { swaps := [some (l + 1), some (l + 2)] }
    let cues := [.start, .register (some 0), .command 0 (.newRequest ⟨.node 1, 0, 0, 0, []⟩),
      .elapse (Duration.millis 500), .wake, .command 1 .resetAfterError, .destroy, .wake].map
        fun a => ((callback, a) : Cue Nat)
    (traceCues ⟨0, {}⟩ cues).filterMap (·.1.bind (·.notified)) =
      [(0, .confirmationTimedOut), (2, .freeForSend)] := by
  decide +kernel

end Inert
end Bench

namespace System

section Failing

/-- With an observer in place, a request runs into its timeout and its caller asks for a reset. -/
def resetAfterTimeout (kind : ObserverKind) : List Action :=
  [.call 0 (.start true), .resume 0, .call 0 (.register kind "o"), .resume 1,
    .call 0 (.newRequest ⟨.node 1, 6, 1, 0, []⟩), .resume 2, .work, .resume 2,
    .elapse (Duration.millis 500), .work, .call 0 .reset, .resume 3]

/-- **An observer that fails makes a difference**: it is told of the timeout like any other, but then the
reset is refused, which is else accepted. -/
theorem reset_refused_of_failing :
    ∃ s₀ s s' : System, Setup.assemble {} = .ok s₀ ∧
      s₀.steps (resetAfterTimeout .failing) = some s ∧
      s₀.steps (resetAfterTimeout .silent ++ [.work, .resume 3]) = some s' ∧
      s.callers[3]? = some (.finished s.now (.refused .notRunning)) ∧
      s'.callers[3]? = some (.finished s.now .done) ∧
      s.machine.phase = .waitingForConfirmationTimedOut ∧ s'.machine.phase = .freeForSend := by
  obtain ⟨s₀, h₀, hrun⟩ : ∃ s₀, Setup.assemble {} = .ok s₀ ∧
      ((s₀.steps (resetAfterTimeout .failing)).any fun s =>
        s.callers[3]? = some (.finished s.now (.refused .notRunning)) ∧
        s.machine.phase = .waitingForConfirmationTimedOut ∧
        (s₀.steps (resetAfterTimeout .silent ++ [.work, .resume 3])).any fun s' =>
          s'.callers[3]? = some (.finished s.now .done) ∧ s'.machine.phase = .freeForSend) = true :=
    ⟨_, rfl, by decide +kernel⟩
  obtain ⟨s, hs, hrun⟩ := (Option.any_eq_true _ _).1 hrun
  obtain ⟨hrefused, hphase, hrun⟩ := of_decide_eq_true hrun
  obtain ⟨s', hs', hrun⟩ := (Option.any_eq_true _ _).1 hrun
  obtain ⟨hdone, hphase'⟩ := of_decide_eq_true hrun
  exact ⟨s₀, s, s', h₀, hs, hs', hrefused, hdone, hphase, hphase'⟩

end Failing
end System
end MeshExchange
