import MeshExchange.Proofs.Machine.Prompt
import MeshExchange.Proofs.Settings.Validity
import MeshExchange.Proofs.System.Lifecycle
import MeshExchange.Proofs.System.Linger
import MeshExchange.Proofs.System.Refusals

/-!
# The times are latched

The times that the budgets are computed from may be set while an exchange is on its way. The deadline of
a phase is computed once, when the command that leads to it is handled, and stays what it is whatever is
set afterwards. So two runs that agree on the times whenever they are looked at agree on everything else.

The worker's own passes need not be agreed upon: on a clock that waits for the worker they follow from the
commands.

**Input.** Any run of a system from its beginning, with setters called at any moment.

**Results.**
* `Tracker.Latches`, `Tracker.Moves.latches`: the deadline that a command sets;
* `System.resume_of_setTime`, `System.timing_of_step`: what setters do, and nobody else;
* `System.IsTimely`, `System.orderly_of_steps`: a clock that waits for the worker;
* `System.Latches`, `System.latches_of_steps`: what that comes to in a run, and in two runs compared.
-/

namespace MeshExchange

namespace Tracker

section Deadlines

/-- The deadline of a phase that a command leads to: a wait for a frame takes the times in force, and a
linger is told by the frames of the exchange. -/
inductive Latches (timing : Timing) (now : Instant) (confirmed : Option Confirmation) :
    Command → Phase → Instant → Prop
  | confirmation {r : Request} :
      Latches timing now confirmed (.newRequest r) .waitingForConfirmation
        (now + timing.confirmationWait)
  | response {r : Request} :
      Latches timing now confirmed (.newRequest r) .waitingForResponse
        (now + (timing.responseBase + Duration.millis 100))
  | confirmedResponse {receivedAt : Instant} {c : Confirmation} :
      Latches timing now confirmed (.confirmationReceived receivedAt c) .waitingForResponse
        (now + (timing.responseBase + c.airTime + Duration.millis 100))
  | afterConfirmation {receivedAt : Instant} {c : Confirmation} :
      Latches timing now confirmed (.confirmationReceived receivedAt c) .waitingAfterConfirmation
        (max now (min receivedAt now + c.airTime))
  | afterResponse {receivedAt : Instant} {length : Nat} :
      Latches timing now confirmed (.responseReceived receivedAt length) .waitingAfterResponse
        (max now (min receivedAt now + Confirmation.exchangeAirTime length confirmed))

variable {timing : Timing} {now d : Instant} {t t' : Tracker} {c : Command}

/-- **A deadline is computed when its command is handled.** -/
theorem Moves.latches (ht : t.Coherent) (h : t.Moves timing now c t')
    (hd : t'.deadline = some d) :
    Latches timing now (t.recorded.bind (·.2)) c t'.phase d := by
  cases h with
  | asked =>
      cases hd
      exact .response
  | announced =>
      cases hd
      exact .confirmation
  | confirmed =>
      cases hd
      exact .confirmedResponse
  | spread =>
      cases hd
      rw [Budget.add_afterConfirmation]
      exact .afterConfirmation
  | @answered e d? receivedAt length =>
      have hm : Moves timing now ⟨.waitingForResponse, e, d?⟩
          (.responseReceived receivedAt length) _ := .answered
      obtain ⟨q, confirmed, hrec, -, hd'⟩ := hm.linger_of_response ht
      obtain rfl := Option.some.inj (hd.symm.trans hd')
      rw [hrec]
      exact .afterResponse
  | freed => cases hd

end Deadlines

end Tracker

namespace System

variable {s₀ s s' x y : System} {a : Action} {as : List Action}

section Setting

theorem checkedMillis_of_neg {name : String} {ms : Int64} (h : ms.toInt < 0) :
    Timing.checkedMillis name ms = .error (.invalidArgument (.negative name ms.toInt)) := by
  rw [Timing.checkedMillis, Timing.checkNonNegative, if_pos h]
  rfl

theorem checkedMillis_of_nonneg {name : String} {ms : Int64} (h : 0 ≤ ms.toInt) :
    Timing.checkedMillis name ms = .ok (Duration.millis ms.toInt.toNat) := by
  rw [Timing.checkedMillis, Settings.checkNonNegative_eq_ok_iff.2 h]
  rfl

variable {i : Nat} {due : Instant} {call : Call} {f : Timing.Field} {ms : Int64}

theorem begin_setTime (s : System) (f : Timing.Field) (ms : Int64) :
    s.begin (.setTime f ms) =
      s.change ((Timing.checkedMillis f.name ms).map fun time =>
        s.machine.timed (s.machine.timing.set f time)) := by
  rw [begin, Machine.setTime, Timing.withTime]
  cases Timing.checkedMillis f.name ms <;> rfl

/-- **A setter** is refused a negative time, and else sets its own. -/
theorem resume_of_setTime (hi : s.callers[i]? = some (.planned due (.setTime f ms)))
    (hdue : due ≤ s.now) :
    (ms.toInt < 0 → s.step (.resume i) =
      some (s.answered i (.refused (.invalidArgument (.negative f.name ms.toInt))))) ∧
    (0 ≤ ms.toInt → s.step (.resume i) =
      some { s.answered i .done with
        machine := s.machine.timed (s.machine.timing.set f (Duration.millis ms.toInt.toNat)) }) := by
  have hbegin := begin_setTime s f ms
  refine ⟨fun h => ?_, fun h => ?_⟩
  · rw [checkedMillis_of_neg h] at hbegin
    exact resume_of_finish hi hdue hbegin
  · rw [checkedMillis_of_nonneg h] at hbegin
    rw [resume_planned hi hdue, hbegin]
    rfl

theorem exists_setTime_of_isAside {k : Nat} {b : Stimulus Observer} (hb : call.stimulus? k = some b)
    (ha : b.isAside = true) : ∃ f ms, call = .setTime f ms := by
  cases call <;> simp only [Call.stimulus?] at hb
  case start hasExecutor => cases hasExecutor <;> cases hb; cases ha
  case destroy => cases hb; cases ha
  case register => cases hb; cases ha
  case unregister => cases hb; cases ha
  case setTime f ms => exact ⟨f, ms, rfl⟩
  all_goals cases hb

/-- What is aside for the worker is the clock, or a call that sets a time. -/
theorem action_of_isAside {b : Stimulus Observer} (hb : s.stimulus? a = some b)
    (ha : b.isAside = true) :
    (∃ t, a = .elapse t) ∨
      ∃ i due f ms, a = .resume i ∧ s.callers[i]? = some (.planned due (.setTime f ms)) := by
  cases a with
  | elapse t => exact .inl ⟨t, rfl⟩
  | work =>
      obtain ⟨⟨⟨deed, heard⟩, m⟩, -, rfl⟩ := Option.map_eq_some_iff.1 hb
      cases deed <;> cases ha
  | call => cases hb
  | deliver => cases hb
  | resume i =>
      simp only [stimulus?] at hb
      split at hb
      next due call hi =>
        obtain ⟨f, ms, rfl⟩ := exists_setTime_of_isAside hb ha
        exact .inr ⟨i, due, f, ms, rfl, hi⟩
      next => cases hb

theorem due_of_resume (hi : s.callers[i]? = some (.planned due call))
    (h : s.step (.resume i) = some s') : due ≤ s.now := by
  by_contra hdue
  simp [step, resume, hi, advance, hdue] at h

/-- **Nobody but a setter** changes the times. -/
theorem timing_of_step (h : s.step a = some s') (hne : s'.machine.timing ≠ s.machine.timing) :
    ∃ i due f ms, a = .resume i ∧ s.callers[i]? = some (.planned due (.setTime f ms)) ∧
      0 ≤ ms.toInt ∧
        s'.machine.timing = s.machine.timing.set f (Duration.millis ms.toInt.toNat) := by
  obtain ⟨turn?, hmeet, -⟩ := meet?_bench h
  have hafter := congrArg (·.2.machine.timing) hmeet
  cases hs : s.stimulus? a with
  | none =>
      rw [hs] at hafter
      exact absurd hafter.symm hne
  | some b =>
      rw [hs] at hafter
      cases hb : b.isAside with
      | false =>
          have hkept := Bench.timing_meet Observer.react s.bench hb
          exact absurd (hafter.symm.trans hkept) hne
      | true =>
          rcases action_of_isAside hs hb with ⟨t, rfl⟩ | ⟨i, due, f, ms, rfl, hi⟩
          · obtain rfl := Option.some.inj hs
            exact absurd hafter.symm hne
          · obtain ⟨hneg, hpos⟩ := resume_of_setTime hi (due_of_resume hi h)
            rcases Int.lt_or_le ms.toInt 0 with hms | hms
            · obtain rfl := Option.some.inj (h.symm.trans (hneg hms))
              exact absurd rfl hne
            · obtain rfl := Option.some.inj (h.symm.trans (hpos hms))
              exact ⟨i, due, f, ms, rfl, hi, hms, rfl⟩

end Setting

section Clock

/-- The clock waits for the worker: it does not run past a deadline, and while the worker has something to
do by itself, time does not pass, the machine is not started or destroyed and gets no other listener, and
the run does not end. -/
structure IsTimely (s : System) (as : List Action) : Prop where
  punctual : s.isPunctual as = true
  prompt : s.bench.isPrompt Observer.react (s.stimuli as) = true

theorem isDue_bench_of_running (hs : s.machine.status = .running) :
    s.bench.isDue = s.machine.tracker.isDue s.now := by
  simp [Bench.isDue, Bench.isDueAt, bench, Machine.bare, hs]

/-- A pass comes in its turn: what is due is done before a command is handled. -/
theorem admits_of_works {turn : Turn Observer} {m : Machine Observer}
    (hc : s.machine.tracker.Coherent) (hw : s.machine.Works Observer.react s.now turn m) :
    s.bench.Admits turn.deed.stimulus := by
  have hnone (hd : s.machine.dueExpiry s.now = none) : s.machine.tracker.isDue s.now = false := by
    have hlt := (Machine.dueExpiry_eq_none_iff hc).1 hd
    refine Bool.eq_false_iff.2 fun hdue => ?_
    obtain ⟨d, hd, hle⟩ := Tracker.isDue_eq_true_iff.1 hdue
    exact Nat.not_lt.2 hle (hlt d hd)
  cases hw with
  | stops hs =>
      change s.bench.isDue = true
      simp [Bench.isDue, Bench.isDueAt, bench, Machine.bare, hs]
  | lapses hs hd => exact (isDue_bench_of_running hs).trans hd
  | accepts hs hd => exact (isDue_bench_of_running hs).trans (hnone hd)
  | refuses hs hd => exact (isDue_bench_of_running hs).trans (hnone hd)

/-- **So does every action** on a clock that waits for the worker. -/
theorem admits_of_step {b : Stimulus Observer} (hc : s.machine.tracker.Coherent)
    (h : s.step a = some s') (hb : s.stimulus? a = some b) (ht : s.isOnTime s' = true)
    (hp : (b.mayComeFirst s.now || !s.bench.isDue) = true) : s.bench.Admits b := by
  cases a with
  | call => cases hb
  | deliver => cases hb
  | work =>
      obtain ⟨turn, hw⟩ := worksTo_of_work h
      simp only [stimulus?, Machine.turn_eq_some_iff.2 hw.machine, Option.map_some] at hb
      cases hb
      exact admits_of_works hc hw.machine
  | elapse t =>
      cases hb
      simp only [step] at h
      split at h
      · next hle =>
          cases h
          refine ⟨hle, fun hlt => ?_, (isOnTime_bench _ _).trans ht⟩
          have hlate : ¬ t ≤ s.now := Nat.not_le.2 hlt
          simpa [Stimulus.mayComeFirst, hlate] using hp
      · cases h
  | resume i =>
      cases b with
      | setTime => trivial
      | start | destroy | register =>
          have hdue : s.bench.isDue = false := by simpa [Stimulus.mayComeFirst] using hp
          exact hdue
      | elapse | wake | command =>
          simp only [stimulus?] at hb
          split at hb
          · next call hi => cases call <;> simp [Call.stimulus?] at hb
          · cases hb

theorem coherent_of_step (hc : s.machine.tracker.Coherent) (h : s.step a = some s') :
    s'.machine.tracker.Coherent := by
  rcases passes_of_step h with ⟨ha, -⟩ | ⟨turn, -, hw⟩
  · rw [(step_spares ha h).machine.tracker]
    exact hc
  · exact hw.machine.coherent hc

/-- **On a clock that waits for the worker** everything comes in its turn. -/
theorem orderly_of_steps (hc : s.machine.tracker.Coherent) (has : s.steps as = some s')
    (ht : s.IsTimely as) : s.bench.Orderly Observer.react (s.stimuli as) := by
  obtain ⟨hpunctual, hprompt⟩ := ht
  induction as generalizing s with
  | nil =>
      have hdue : s.bench.isDue = false := by simpa [stimuli, gather, Bench.isPrompt] using hprompt
      exact hdue
  | cons a as ih =>
      obtain ⟨s₁, h₁, has⟩ := steps_cons_iff.1 has
      obtain ⟨turn?, hmeet, -⟩ := meet?_bench h₁
      have hstimuli : s.stimuli (a :: as) = (s.stimulus? a).toList ++ s₁.stimuli as :=
        gather_cons h₁
      simp only [isPunctual, h₁, Bool.and_eq_true] at hpunctual
      rw [hstimuli] at hprompt ⊢
      have hc₁ := coherent_of_step hc h₁
      cases hs : s.stimulus? a with
      | none =>
          rw [hs] at hmeet hprompt
          have hbench : s.bench = s₁.bench := congrArg Prod.snd hmeet
          rw [hbench] at hprompt ⊢
          exact ih hc₁ has hpunctual.2 hprompt
      | some b =>
          rw [hs] at hmeet hprompt
          have hbench : (s.bench.meet Observer.react b).2 = s₁.bench := congrArg Prod.snd hmeet
          simp only [Option.toList_some, List.cons_append, List.nil_append, Bench.isPrompt,
            Bool.and_eq_true] at hprompt
          rw [hbench] at hprompt
          refine ⟨admits_of_step hc h₁ hs hpunctual.1 hprompt.1, ?_⟩
          rw [hbench]
          exact ih hc₁ has hpunctual.2 hprompt.2

end Clock

section Runs

/-- The pass that led to the phase: it accepted a command, and from then on the tracker has not moved. -/
inductive Entered (s₀ : System) (as : List Action) (s : System) : System → Command → Prop
  | intro {before after : List Action} {x y : System} {ticket : Ticket} {c : Command}
      {heard : Option (Observer × Notification)} (has : as = before ++ .work :: after)
      (hbefore : s₀.steps before = some x) (hwork : x.step .work = some y)
      (hturn : x.WorksTo ⟨.handled ticket c (.ok s.machine.phase), heard⟩ y)
      (hafter : y.steps after = some s)
      (hkept : ∀ mid rest z, after = mid ++ rest → y.steps mid = some z →
        z.machine.tracker = s.machine.tracker) : Entered s₀ as s x c

theorem Entered.concat {c : Command} (h : Entered s₀ as s x c) (hs : s.step a = some s')
    (ht : s'.machine.tracker = s.machine.tracker) (hp : s'.machine.phase = s.machine.phase) :
    Entered s₀ (as ++ [a]) s' x c := by
  obtain ⟨rfl, hbefore, hwork, hturn, hafter, hkept⟩ := h
  have hafter' := steps_concat_iff.2 ⟨_, hafter, hs⟩
  refine .intro (by simp) hbefore hwork (hp ▸ hturn) hafter' fun mid rest z hcut hz => ?_
  rcases rest.eq_nil_or_concat with rfl | ⟨rest, b, rfl⟩
  · rw [List.append_nil] at hcut
    subst hcut
    obtain rfl := Option.some.inj (hz.symm.trans hafter')
    rfl
  · rw [List.concat_eq_append, ← List.append_assoc] at hcut
    rw [ht]
    exact hkept mid rest z (List.append_inj_left' hcut rfl) hz

/-- A deadline that was computed when the command that led to the phase was handled, from the times in
force at that moment. -/
def Latched (s₀ : System) (as : List Action) (s : System) (d : Instant) : Prop :=
  ∃ x c, Entered s₀ as s x c ∧
    Tracker.Latches x.machine.timing x.now ((Pass.openExchange (passes x.journal)).bind (·.2)) c
      s.machine.phase d

theorem Latched.concat {d : Instant} (h : Latched s₀ as s d) (hs : s.step a = some s')
    (ht : s'.machine.tracker = s.machine.tracker) (hp : s'.machine.phase = s.machine.phase) :
    Latched s₀ (as ++ [a]) s' d := by
  obtain ⟨x, c, he, hl⟩ := h
  exact ⟨x, c, he.concat hs ht hp, hp ▸ hl⟩

/-- Two runs of which the worker shows the same: passes, phases, deadlines and replies, each at the same
instant, and whom they were told to. -/
structure Resembles (t₀ : System) (bs : List Action) (t s₀ : System) (as : List Action)
    (s : System) : Prop where
  shown : t₀.bench.shown Observer.react (t₀.stimuli bs) =
    s₀.bench.shown Observer.react (s₀.stimuli as)
  alike : t.bench.Alike s.bench
  passes : ∃ h, System.passes t.journal = System.passes t₀.journal ++ h ∧
    System.passes s.journal = System.passes s₀.journal ++ h

/-- What the times that are set come to in a run. -/
structure Latches (s₀ : System) (as : List Action) (s : System) : Prop where
  /-- Every deadline was computed when its phase was entered, and has not moved since. -/
  latched : ∀ d, s.machine.tracker.deadline = some d → Latched s₀ as s d
  /-- A negative time is refused, and everything else stays as it is. -/
  refused : ∀ i due f ms, s.callers[i]? = some (.planned due (.setTime f ms)) → due ≤ s.now →
    ms.toInt < 0 →
      s.step (.resume i) =
        some (s.answered i (.refused (.invalidArgument (.negative f.name ms.toInt))))
  /-- Any other is set, and nothing besides. -/
  obeyed : ∀ i due f ms, s.callers[i]? = some (.planned due (.setTime f ms)) → due ≤ s.now →
    0 ≤ ms.toInt →
      s.step (.resume i) =
        some { s.answered i .done with
          machine := s.machine.timed (s.machine.timing.set f (Duration.millis ms.toInt.toNat)) }
  /-- Nobody but a setter changes the times. -/
  only : ∀ a s', s.step a = some s' → s'.machine.timing ≠ s.machine.timing →
    ∃ i due f ms, a = .resume i ∧ s.callers[i]? = some (.planned due (.setTime f ms)) ∧
      0 ≤ ms.toInt ∧
        s'.machine.timing = s.machine.timing.set f (Duration.millis ms.toInt.toNat)
  /-- In another run with the same commands and passes at the same instants, in which the times are the
  same whenever a request or a confirmation is accepted, the replies, phases, deadlines and notifications
  are the same. -/
  alike : ∀ (t₀ : System) bs t, t₀.steps bs = some t → t₀.bench.Alike s₀.bench →
    Stimulus.common t₀.now (t₀.stimuli bs) = Stimulus.common s₀.now (s₀.stimuli as) →
    t₀.bench.timings Observer.react (t₀.stimuli bs) =
      s₀.bench.timings Observer.react (s₀.stimuli as) →
    Resembles t₀ bs t s₀ as s
  /-- It is enough that the commands are the same at the same instants, with the starts, the destroys and
  the registrations: on clocks that wait for the worker, the passes in which it stops or lets a phase end
  then come at the same instants as well. -/
  timely : ∀ (t₀ : System) bs t, t₀.steps bs = some t → t₀.bench.Alike s₀.bench → t₀.now = s₀.now →
    t.now = s.now → t₀.IsTimely bs → s₀.IsTimely as →
    Stimulus.outer t₀.now (t₀.stimuli bs) = Stimulus.outer s₀.now (s₀.stimuli as) →
    t₀.bench.timings Observer.react (t₀.stimuli bs) =
      s₀.bench.timings Observer.react (s₀.stimuli as) →
    Stimulus.common t₀.now (t₀.stimuli bs) = Stimulus.common s₀.now (s₀.stimuli as) ∧
      Resembles t₀ bs t s₀ as s

variable {setup : Setup}

/-- The passes so far tell the exchange on record. -/
theorem openExchange_of_steps (h₀ : setup.assemble = .ok s₀) (has : s₀.steps as = some s) :
    Pass.openExchange (passes s.journal) = s.machine.tracker.recorded := by
  obtain ⟨htracker, -, hjournal⟩ := assemble_eq h₀
  obtain ⟨h, he, hh⟩ := evolves_of_steps False as has False.elim
  rw [hh, hjournal, he.recorded_eq, htracker]
  rfl

/-- One step: the tracker does not move, or a command sets a deadline, or there is none. -/
theorem latched_of_step (h₀ : setup.assemble = .ok s₀) (has : s₀.steps as = some x)
    (h : x.step a = some y)
    (ih : ∀ d, x.machine.tracker.deadline = some d → Latched s₀ as x d) {d : Instant}
    (hd : y.machine.tracker.deadline = some d) : Latched s₀ (as ++ [a]) y d := by
  have hx := (Reachable.of_assemble h₀).steps has
  have hphase := (hx.step h).sound.phase
  have still (ht : y.machine.tracker = x.machine.tracker) : Latched s₀ (as ++ [a]) y d :=
    (ih d (ht ▸ hd)).concat h ht (by rw [hx.sound.phase, hphase, ht])
  rcases passes_of_step h with ⟨ha, -⟩ | ⟨turn, rfl, hw⟩
  · exact still (step_spares ha h).machine.tracker
  cases hm : turn.deed.isMove with
  | false => exact still (hw.machine.tracker_eq hm)
  | true =>
      obtain ⟨-, ⟨n, -, -, hl⟩ | ⟨ticket, c, rfl, -, hmoves⟩⟩ := hw.machine.move_cases hm
      · rw [hl.deadline_eq_none] at hd
        cases hd
      · have hl := hmoves.latches hx.sound.coherent hd
        rw [← hphase] at hw hl
        rw [← openExchange_of_steps h₀ has] at hl
        refine ⟨x, c, .intro rfl has h hw rfl fun mid rest z hcut hz => ?_, hl⟩
        obtain ⟨rfl, rfl⟩ := List.append_eq_nil_iff.1 hcut.symm
        cases hz
        rfl

theorem latched_of_steps (h₀ : setup.assemble = .ok s₀) (has : s₀.steps as = some s) :
    ∀ d, s.machine.tracker.deadline = some d → Latched s₀ as s d := by
  refine steps_induct (P := fun as s => ∀ d, s.machine.tracker.deadline = some d →
    Latched s₀ as s d) ?_ ?_ has
  · intro d hd
    rw [(assemble_eq h₀).1] at hd
    cases hd
  · intro as x a y hx hy ih d hd
    exact latched_of_step h₀ hx hy ih hd

/-- **Two runs** with the same commands and passes, in which the times are the same whenever they are looked
at. -/
theorem resembles_of_common_eq {t₀ t : System} {bs : List Action} (has : s₀.steps as = some s)
    (hbs : t₀.steps bs = some t) (hbench : t₀.bench.Alike s₀.bench)
    (hcommon : Stimulus.common t₀.now (t₀.stimuli bs) = Stimulus.common s₀.now (s₀.stimuli as))
    (htimings : t₀.bench.timings Observer.react (t₀.stimuli bs) =
      s₀.bench.timings Observer.react (s₀.stimuli as)) : Resembles t₀ bs t s₀ as s := by
  obtain ⟨hafter, hpasses, -⟩ := follows_of_steps has
  obtain ⟨hafter', hpasses', -⟩ := follows_of_steps hbs
  obtain ⟨hshown, halike⟩ := Bench.alike_of_timings_eq hbench hcommon htimings
  refine ⟨hshown, hafter' ▸ hafter ▸ halike, _, hpasses', ?_⟩
  rw [hpasses, ← Bench.passes_shown, ← Bench.passes_shown, hshown]

/-- **Their passes follow from the commands** on clocks that wait for the worker. -/
theorem common_eq_of_isTimely {t₀ t : System} {bs : List Action}
    (hc : s₀.machine.tracker.Coherent) (has : s₀.steps as = some s) (hbs : t₀.steps bs = some t)
    (hbench : t₀.bench.Alike s₀.bench) (hnow : t₀.now = s₀.now) (hend : t.now = s.now)
    (ht' : t₀.IsTimely bs) (ht : s₀.IsTimely as)
    (houter : Stimulus.outer t₀.now (t₀.stimuli bs) = Stimulus.outer s₀.now (s₀.stimuli as))
    (htimings : t₀.bench.timings Observer.react (t₀.stimuli bs) =
      s₀.bench.timings Observer.react (s₀.stimuli as)) :
    Stimulus.common t₀.now (t₀.stimuli bs) = Stimulus.common s₀.now (s₀.stimuli as) := by
  obtain ⟨hafter, -⟩ := follows_of_steps has
  obtain ⟨hafter', -⟩ := follows_of_steps hbs
  have hc' : t₀.machine.tracker.Coherent := Bench.Alike.tracker_eq hbench ▸ hc
  refine Bench.Compares.common_eq ⟨orderly_of_steps hc' hbs ht', orderly_of_steps hc has ht, hbench,
    hnow, ?_, houter, htimings⟩
  rw [hafter, hafter']
  exact hend

/-- **The times are latched**, in every run. -/
theorem latches_of_steps (h₀ : setup.assemble = .ok s₀) (has : s₀.steps as = some s) :
    s₀.Latches as s where
  latched := latched_of_steps h₀ has
  refused i due f ms hi hdue hms := (resume_of_setTime hi hdue).1 hms
  obeyed i due f ms hi hdue hms := (resume_of_setTime hi hdue).2 hms
  only a s' h hne := timing_of_step h hne
  alike t₀ bs t hbs hbench hcommon htimings :=
    resembles_of_common_eq has hbs hbench hcommon htimings
  timely t₀ bs t hbs hbench hnow hend ht' ht houter htimings := by
    have hc : s₀.machine.tracker.Coherent := (Reachable.of_assemble h₀).sound.coherent
    have hcommon := common_eq_of_isTimely hc has hbs hbench hnow hend ht' ht houter htimings
    exact ⟨hcommon, resembles_of_common_eq has hbs hbench hcommon htimings⟩

/-- While a request waits for its confirmation, the wait is set to another time and back, and a negative
base is refused. The deadlines are those of the run without all this. -/
theorem latches_of_steps_of_resetting :
    ∃ (s₀ s t : System) (as bs : List Action), Setup.assemble {} = .ok s₀ ∧
      s₀.steps as = some s ∧ s₀.steps bs = some t ∧ (as.length = 15 ∧ bs.length = 9) ∧
      s.machine.tracker.deadline = some (Duration.millis 645) ∧ s₀.Latches as s ∧
      t.bench.Alike s.bench := by
  obtain ⟨s₀, h₀, hrun⟩ : ∃ s₀, Setup.assemble {} = .ok s₀ ∧
      let as := [.call 0 (.start true), .resume 0, .call 0 (.newRequest ⟨.node 1, 0, 0, 0, []⟩),
        .resume 1, .work, .call 0 (.setTime .confirmationWait 7), .resume 2, .elapse (Duration.millis 5),
        .call 0 (.setTime .confirmationWait 500), .resume 3, .call 0 (.setTime .responseBase (-1)),
        .resume 4, .call 0 (.confirmation ⟨1, 2, 0⟩ none), .resume 5, .work]
      let bs := [.call 0 (.start true), .resume 0, .call 0 (.newRequest ⟨.node 1, 0, 0, 0, []⟩),
        .resume 1, .work, .elapse (Duration.millis 5), .call 0 (.confirmation ⟨1, 2, 0⟩ none),
        .resume 2, .work]
      ((s₀.steps as).any fun s => ((s₀.steps bs).any fun t => t.now = s.now) ∧
        s.machine.tracker.deadline = some (Duration.millis 645) ∧
        (s₀.isPunctual bs ∧ s₀.bench.isPrompt Observer.react (s₀.stimuli bs)) ∧
        (s₀.isPunctual as ∧ s₀.bench.isPrompt Observer.react (s₀.stimuli as)) ∧
        Stimulus.outer s₀.now (s₀.stimuli bs) = Stimulus.outer s₀.now (s₀.stimuli as) ∧
        s₀.bench.timings Observer.react (s₀.stimuli bs) =
          s₀.bench.timings Observer.react (s₀.stimuli as)) = true :=
    ⟨_, rfl, by decide +kernel⟩
  obtain ⟨s, has, hrun⟩ := (Option.any_eq_true _ _).1 hrun
  obtain ⟨hany, hdeadline, hprompt', hprompt, houter, htimings⟩ := of_decide_eq_true hrun
  obtain ⟨t, hbs, hend⟩ := (Option.any_eq_true _ _).1 hany
  have hl := latches_of_steps h₀ has
  have htimely := hl.timely s₀ _ t hbs rfl rfl (of_decide_eq_true hend)
    ⟨hprompt'.1, hprompt'.2⟩ ⟨hprompt.1, hprompt.2⟩ houter htimings
  exact ⟨s₀, s, t, _, _, h₀, has, hbs, ⟨rfl, rfl⟩, hdeadline, hl, htimely.2.alike⟩

end Runs
end System
end MeshExchange
