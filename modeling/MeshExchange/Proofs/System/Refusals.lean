import MeshExchange.Proofs.Machine.Bench
import MeshExchange.Proofs.System.Parties
import MeshExchange.Proofs.System.Runs

/-!
# Refused commands are invisible

A run of a system, seen from the bench of its worker: the stimuli that reached it, and what it made of
them. With the refused commands taken out of the stimuli, the worker gives the other replies, changes the
phase, notifies the listener and lets the deadlines pass as before, each at the same instant.

**Input.** Any run of a system, with any callers and in any order.

**Method.** Whatever callers and the pump do to the mailbox and the replies never reaches the bench, which
so follows the run action by action. There a refusal leaves everything as it was.

**Results.**
* `System.bench`, `System.stimuli`: a system and its run as the worker has them;
* `System.meet?_bench`: an action, as the worker has it;
* `System.Erases`, `System.erases_of_steps`: what a run shows without its refused commands.
-/

namespace MeshExchange

/-- What a call is to the worker, if it reaches it without a command. -/
def Call.stimulus? (observers : Nat) : Call → Option (Stimulus Observer)
  | .start hasExecutor => if hasExecutor then some .start else none
  | .destroy => some .destroy
  | .register kind name => some (.register (some ⟨kind, name, observers⟩))
  | .unregister => some (.register none)
  | .setTime f ms => some (.setTime f ms)
  | _ => none

namespace Machine

variable {L : Type} {m m' : Machine L}

section Bare

theorem start_bare (m : Machine L) (hasExecutor : Bool) :
    m.bare.start hasExecutor = (m.start hasExecutor).map bare := by
  cases hs : m.status <;> cases hasExecutor <;> simp [start, bare, hs, Except.map]

theorem destroy_bare (m : Machine L) : m.bare.destroy = m.destroy.bare := by
  cases hs : m.status <;> simp [destroy, bare, close, Mailbox.close, hs]

theorem setTime_bare (m : Machine L) (f : Timing.Field) (ms : Int64) :
    m.bare.setTime f ms = (m.setTime f ms).map bare := by
  cases h : m.timing.withTime f ms <;> simp [setTime, h, bare, Except.map]

theorem bare_of_submit {c : Command} {now : Instant} {p : Pending}
    (h : m.submit c now = .ok (p, m')) : m'.bare = m.bare := by
  unfold submit at h
  split at h <;> cases h
  rfl

theorem bare_of_pursue {p : Pending} {now : Instant} {reply : Option Reply}
    (h : m.pursue p now = some (reply, m')) : m'.bare = m.bare := by
  unfold pursue at h
  split at h
  · cases h
    rfl
  · split at h
    · cases h
      rfl
    · split at h
      · cases h
        rfl
      · split at h <;> cases h
        rfl

end Bare
end Machine

namespace System

/-- What a system is to its worker. -/
def bench (s : System) : Bench Observer := ⟨s.now, s.machine.bare⟩

/-- What an action is to the worker. -/
def stimulus? (s : System) : Action → Option (Stimulus Observer)
  | .elapse t => some (.elapse t)
  | .work => (s.machine.turn Observer.react s.now).map fun (turn, _) => turn.deed.stimulus
  | .resume i =>
      match s.callers[i]? with
      | some (.planned _ call) => call.stimulus? s.observers.length
      | _ => none
  | .call _ _ | .deliver => none

/-- What a run is to the worker. -/
def stimuli (s : System) (as : List Action) : List (Stimulus Observer) :=
  s.gather (fun s a _ => (s.stimulus? a).toList) as

section Actions

variable {s s₁ s' : System} {stage stage' : Stage} {as : List Action}

/-- Only the machine changes, and of that nothing that is the worker's. -/
theorem bench_of_bare {m : Machine Observer} (h : m.bare = s.machine.bare) :
    bench { s with machine := m } = s.bench := by
  rw [bench, bench]
  exact congrArg (Bench.mk s.now) h

theorem bench_of_command {c : Command} (h : s.command c = (stage, s₁)) : s₁.bench = s.bench := by
  rcases command_cases h with ⟨p, m, hm, -, rfl⟩ | ⟨-, rfl⟩
  · exact bench_of_bare (Machine.bare_of_submit hm)
  · rfl

theorem bench_of_seek {sending : Sending} (h : s.seek sending = (stage, s₁)) :
    s₁.bench = s.bench := by
  rw [(seek_cases h).1]

theorem bench_of_change {r : Except Fault (Machine Observer)} (h : s.change r = (stage, s₁)) :
    s.bench.change (r.map Machine.bare) = s₁.bench := by
  cases r <;> cases h <;> rfl

/-- A call begins, as the worker has it. -/
theorem meet?_begin {call : Call} (h : s.begin call = (stage, s₁)) :
    s.bench.meet? Observer.react (call.stimulus? s.observers.length) = (none, s₁.bench) := by
  cases call with
  | start hasExecutor =>
      have hb := bench_of_change h
      rw [← Machine.start_bare] at hb
      cases hasExecutor with
      | true => exact congrArg (Prod.mk none) hb
      | false =>
          refine congrArg (Prod.mk none) (Eq.trans ?_ hb)
          cases hs : s.machine.status <;> simp [Machine.start, bench, Machine.bare, hs, Bench.change]
  | setTime f ms =>
      have hb := bench_of_change h
      rw [← Machine.setTime_bare] at hb
      exact congrArg (Prod.mk none) hb
  | destroy =>
      refine congrArg (Prod.mk none) ?_
      simp only [begin] at h
      split at h <;> cases h <;> exact congrArg (Bench.mk s.now) (Machine.destroy_bare s.machine)
  | register kind name => cases h; rfl
  | unregister => cases h; rfl
  | newRequest r => exact congrArg (Prod.mk none) (bench_of_command h).symm
  | confirmation c receivedAt => exact congrArg (Prod.mk none) (bench_of_command h).symm
  | response length receivedAt => exact congrArg (Prod.mk none) (bench_of_command h).symm
  | reset => exact congrArg (Prod.mk none) (bench_of_command h).symm
  | receive frame receivedAt =>
      simp only [begin] at h
      split at h
      · exact congrArg (Prod.mk none) (bench_of_command h).symm
      · cases h
        rfl
  | send r =>
      simp only [begin] at h
      split at h
      · exact congrArg (Prod.mk none) (bench_of_seek h).symm
      · cases h
        rfl
  | drain name =>
      simp only [begin] at h
      split at h <;> cases h <;> rfl
  | waitFree limit =>
      simp only [begin] at h
      split at h <;> cases h <;> rfl
  | _ => cases h; rfl

/-- A caller that waits goes on, which is nothing to the worker. -/
theorem bench_of_advance (h : s.advance stage = some (stage', s₁))
    (hs : ∀ due call, stage ≠ .planned due call) : s₁.bench = s.bench := by
  cases goesOn_of_advance hs h with
  | stays => rfl
  | submits hm => exact bench_of_bare (Machine.bare_of_submit hm)
  | pursues hm => exact bench_of_bare (Machine.bare_of_pursue hm)
  | transmits => rfl

theorem meet?_resume {i : Nat} (h : s.resume i = some s₁) :
    s.bench.meet? Observer.react (s.stimulus? (.resume i)) = (none, s₁.bench) := by
  obtain ⟨stage, hi, h⟩ := Option.bind_eq_some_iff.1 h
  obtain ⟨⟨stage', s₂⟩, h₂, rfl⟩ := Option.map_eq_some_iff.1 h
  simp only [stimulus?, hi]
  split
  · next due call hstage =>
      cases hstage
      simp only [advance] at h₂
      split at h₂
      · have hb := meet?_begin (Option.some.inj h₂)
        exact hb
      · cases h₂
  · next hne =>
      refine congrArg (Prod.mk none) (bench_of_advance h₂ fun due call hstage => ?_).symm
      exact hne due call (congrArg some hstage)

theorem bench_of_deliver (h : s.deliver = some s₁) : s₁.bench = s.bench := by
  unfold deliver at h
  split at h
  · split at h <;> cases h
    rfl
  · split at h
    · split at h
      · cases h
        rfl
      · split at h
        · next p m hm =>
            cases h
            exact bench_of_bare (Machine.bare_of_submit hm)
        · cases h
          rfl
    · cases h
  · obtain ⟨⟨reply, m⟩, hp, hm⟩ := Option.map_eq_some_iff.1 h
    cases reply <;> cases hm <;> exact bench_of_bare (Machine.bare_of_pursue hp)

/-- A pass, as the worker has it. -/
theorem meet?_work {turn : Turn Observer} (hw : s.WorksTo turn s₁) :
    s.bench.meet? Observer.react (s.stimulus? .work) = (some turn, s₁.bench) := by
  obtain ⟨m, hm, hbare⟩ := hw.machine.exists_bare
  have hturn := Machine.turn_eq_some_iff.2 hw.machine
  have hpass := Bench.pass_of_works (x := s.bench) hm
  have hmeet : s.bench.meet? Observer.react (s.stimulus? .work) =
      s.bench.pass Observer.react turn.deed.slot := by
    simp only [stimulus?, hturn, Option.map_some, Bench.meet?]
    cases turn.deed <;> rfl
  rw [hmeet, hpass]
  refine congrArg (Prod.mk (some turn)) ?_
  rw [bench, bench, hw.now, ← hbare]
  rfl

/-- **An action, as the worker has it.** -/
theorem meet?_bench {a : Action} (h : s.step a = some s₁) :
    ∃ turn?, s.bench.meet? Observer.react (s.stimulus? a) = (turn?, s₁.bench) ∧
      passes s₁.journal = passes s.journal ++ (turn?.map fun turn => (s₁.now, turn)).toList := by
  by_cases ha : a = .work
  · subst ha
    obtain ⟨turn, hw⟩ := worksTo_of_work h
    refine ⟨some turn, meet?_work hw, ?_⟩
    rw [hw.passes, hw.now]
    rfl
  · refine ⟨none, ?_, ((step_spares ha h).passes).trans (List.append_nil _).symm⟩
    cases a with
    | work => exact absurd rfl ha
    | resume i => exact meet?_resume h
    | deliver => exact congrArg (Prod.mk none) (bench_of_deliver h).symm
    | call due call => cases h; rfl
    | elapse t =>
        simp only [step] at h
        split at h <;> cases h
        rfl

end Actions

section Runs

variable {s s₁ s' : System} {as : List Action}

theorem isOnTime_bench (s s₁ : System) : s.bench.isOnTime s₁.bench = s.isOnTime s₁ := by
  by_cases hs : s.machine.status = .running <;>
    simp [Bench.isOnTime, isOnTime, workerTimer?, bench, Machine.bare, hs]

/-- **A run, as the worker has it.** -/
theorem follows_of_steps (h : s.steps as = some s') :
    s.bench.after Observer.react (s.stimuli as) = s'.bench ∧
      passes s'.journal =
        passes s.journal ++ Bench.passes (s.bench.trace Observer.react (s.stimuli as)) ∧
      s.bench.isPunctual Observer.react (s.stimuli as) = s.isPunctual as := by
  induction as generalizing s with
  | nil =>
      cases h
      exact ⟨rfl, (List.append_nil _).symm, rfl⟩
  | cons a as ih =>
      obtain ⟨s₁, h₁, h⟩ := steps_cons_iff.1 h
      obtain ⟨hafter, hpasses, hpunctual⟩ := ih h
      obtain ⟨turn?, hmeet, hj⟩ := meet?_bench h₁
      obtain ⟨ha, hp, ht⟩ := Bench.meet?_append hmeet (s₁.stimuli as)
      have hstimuli : s.stimuli (a :: as) = (s.stimulus? a).toList ++ s₁.stimuli as :=
        gather_cons h₁
      rw [hstimuli]
      refine ⟨ha.trans hafter, ?_, ?_⟩
      · rw [hpasses, hj, hp, List.append_assoc]
        rfl
      · rw [ht, hpunctual, isOnTime_bench, isPunctual, h₁]

/-- What a run shows without its refused commands. -/
structure Erases (s : System) (as : List Action) (s' : System) : Prop where
  /-- A refusal leaves the clock, the tracker, the published phase, the registration, the times and
  the life of the machine as they were, and no listener hears of it. -/
  spares : ∀ before after x y turn, as = before ++ .work :: after → s.steps before = some x →
    x.work = some y → x.WorksTo turn y → turn.deed.isRefusal = true →
      y.bench = x.bench ∧ turn.notified = none
  /-- The stimuli tell of all passes of the run. -/
  follows : s.bench.after Observer.react (s.stimuli as) = s'.bench ∧
    passes s'.journal =
      passes s.journal ++ Bench.passes (s.bench.trace Observer.react (s.stimuli as))
  /-- Without the refused commands, every other stimulus has the same effect. -/
  erases : s.bench.trace Observer.react (s.bench.erase Observer.react (s.stimuli as)) =
    (s.bench.trace Observer.react (s.stimuli as)).filter fun told => !Bench.isRefusal told
  after : s.bench.after Observer.react (s.bench.erase Observer.react (s.stimuli as)) = s'.bench
  /-- The clock waits at the same deadlines. -/
  punctual : s.bench.isPunctual Observer.react (s.bench.erase Observer.react (s.stimuli as)) =
    s.isPunctual as

/-- **Refused commands are invisible.** -/
theorem erases_of_steps (h : s.steps as = some s') : s.Erases as s' := by
  obtain ⟨hafter, hpasses, hpunctual⟩ := follows_of_steps h
  refine ⟨?_, ⟨hafter, hpasses⟩, Bench.trace_erase _ _ _, ?_, ?_⟩
  · intro before after x y turn _ _ _ hw hr
    obtain ⟨hbare, hn⟩ := hw.machine.of_isRefusal hr
    rw [bench, bench, hw.now, hbare]
    exact ⟨rfl, hn⟩
  · rw [Bench.after_erase, hafter]
  · rw [Bench.isPunctual_erase, hpunctual]

/-- A second request and a reset are refused while the first request waits for its confirmation, whose
deadline passes all the same. -/
theorem erases_of_steps_of_timeout :
    ∃ (s s' : System) (as : List Action), s.steps as = some s' ∧
      (s.stimuli as).length = 6 ∧
      s.bench.erase Observer.react (s.stimuli as) =
        [.start, .command 0 (.newRequest ⟨.node 1, 0, 0, 0, []⟩), .elapse s'.now, .wake] ∧
      s'.machine.phase = .waitingForConfirmationTimedOut ∧ s.Erases as s' := by
  obtain ⟨s, -, hrun⟩ : ∃ s, Setup.assemble {} = .ok s ∧
      let as := [.call 0 (.start true), .resume 0,
        .call 0 (.newRequest ⟨.node 1, 0, 0, 0, []⟩), .resume 1, .work, .resume 1,
        .call 0 (.newRequest ⟨.node 2, 0, 0, 0, []⟩), .call 0 .reset, .resume 2, .resume 3, .work,
        .resume 3, .work, .elapse (Budget.confirmation s.machine.timing true), .work]
      ((s.steps as).any fun s' =>
        (s.stimuli as).length = 6 ∧
        s.bench.erase Observer.react (s.stimuli as) =
          [.start, .command 0 (.newRequest ⟨.node 1, 0, 0, 0, []⟩), .elapse s'.now, .wake] ∧
        s'.machine.phase = .waitingForConfirmationTimedOut) = true :=
    ⟨_, rfl, by decide +kernel⟩
  obtain ⟨s', hs', hrun⟩ := (Option.any_eq_true _ _).1 hrun
  obtain ⟨hlength, herase, hphase⟩ := of_decide_eq_true hrun
  exact ⟨s, s', _, hs', hlength, herase, hphase, erases_of_steps hs'⟩

end Runs
end System
end MeshExchange
