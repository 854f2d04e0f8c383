import MeshExchange.Proofs.Machine.Controls
import MeshExchange.Proofs.System.Replies

/-!
# The life of a machine

A machine is started once and destroyed for good. Starts, destroys and operations come in any order; a
start without an executor to run on leaves everything as it is, so it may be tried again.

**Method.** What calls have come to is gathered along the run as a history. The status of the machine
tells which starts and destroys are in the history, and the next call is answered by the status. The
controls are followed along the same run, each call and each pass taking its own steps on them; the status
stands for them all the way.

**Results.**
* `System.Keeps`, `System.begun_of_step`: only a start, a destroy and a pass of the worker change the
  status, and nothing changes the settings;
* `System.begun`: the history of the calls that began in a run;
* `System.Lives`, `System.lives_of_steps`: the status tells the history;
* `System.controls`, `System.stands_of_steps`: the status stands for the controls;
* `System.lifecycle_of_steps`: how starts and operations are answered after any history.
-/

namespace MeshExchange

/-- The calls that need a running machine: commands, the wait for a free channel, and the sending of a
request that can be written. -/
inductive Call.NeedsWorker (now : Instant) : Call → Prop
  | command {call : Call} {c : Command} (h : call.command? now = some c) : NeedsWorker now call
  | waitFree (limit : Duration) : NeedsWorker now (.waitFree limit)
  | send {r : Request} {frame : Frame} (h : r.toFrame = .ok frame) : NeedsWorker now (.send r)

namespace Machine

variable {L : Type} {m : Machine L}

section Over

/-- The machine was destroyed; its worker may not have noticed yet. -/
def IsOver (m : Machine L) : Prop := m.status = .stopping ∨ m.status = .destroyed

theorem isOver_destroy (m : Machine L) : m.destroy.IsOver := by
  unfold destroy
  split
  · exact .inl rfl
  · exact .inr rfl
  · exact .inr rfl
  · next hs => exact .inl hs
  · next hs => exact .inr hs

@[simp] theorem settings_destroy (m : Machine L) : m.destroy.settings = m.settings := by
  unfold destroy
  split <;> rfl

end Over

end Machine

namespace Controls

/-- What a call makes of the controls when it begins. -/
def begin (c : Controls) : Call → Controls
  | .start hasExecutor => (c.start hasExecutor).2
  | .destroy => c.destroy.2
  | _ => c

/-- What several calls make of them. -/
def begins (c : Controls) (calls : List (Call × Stage)) : Controls :=
  calls.foldl (fun c x => c.begin x.1) c

end Controls

namespace System

variable {s s' s₀ s₁ x y : System} {a : Action} {as : List Action} {i : Nat} {due : Instant}
  {call : Call} {stage stage' : Stage}

section Keeping

/-- The machine is settled and stands where it stood. -/
structure Keeps (s s' : System) : Prop where
  status : s'.machine.status = s.machine.status
  settings : s'.machine.settings = s.machine.settings

theorem Keeps.refl (s : System) : s.Keeps s := ⟨rfl, rfl⟩

theorem change_keeps {r : Except Fault (Machine Observer)}
    (hr : ∀ m, r = .ok m → m.status = s.machine.status ∧ m.settings = s.machine.settings)
    (h : s.change r = (stage, s')) : s.Keeps s' := by
  cases r with
  | ok m =>
      cases h
      exact ⟨(hr m rfl).1, (hr m rfl).2⟩
  | error fault =>
      cases h
      exact .refl s

theorem command_keeps {c : Command} (h : s.command c = (stage, s')) : s.Keeps s' := by
  rcases command_cases h with ⟨p, m, hm, -, rfl⟩ | ⟨-, rfl⟩
  · obtain ⟨-, -, rfl⟩ := Machine.submit_eq_ok hm
    exact ⟨rfl, rfl⟩
  · exact .refl s'

theorem pursue_keeps {p : Pending} {reply : Option Reply} {m : Machine Observer}
    (h : s.machine.pursue p s.now = some (reply, m)) : s.Keeps { s with machine := m } := by
  cases Machine.pursues_of_pursue h <;> exact ⟨rfl, rfl⟩

/-- The calls that neither start nor destroy a machine leave it where it stands. -/
theorem begin_keeps (hs : ∀ hasExecutor, call ≠ .start hasExecutor) (hd : call ≠ .destroy)
    (h : s.begin call = (stage, s')) : s.Keeps s' := by
  cases call with
  | start hasExecutor => exact absurd rfl (hs hasExecutor)
  | destroy => exact absurd rfl hd
  | setTime f ms =>
      refine change_keeps (fun m hm => ?_) h
      obtain ⟨timing, rfl⟩ := Machine.exists_timing_of_setTime hm
      exact ⟨rfl, rfl⟩
  | newRequest r => exact command_keeps h
  | confirmation c receivedAt => exact command_keeps h
  | response length receivedAt => exact command_keeps h
  | reset => exact command_keeps h
  | receive frame receivedAt =>
      simp only [begin] at h
      split at h
      · exact command_keeps h
      · cases h
        exact .refl s
  | send r =>
      simp only [begin] at h
      split at h
      · obtain ⟨rfl, -⟩ := seek_cases h
        exact .refl s'
      · cases h
        exact .refl s
  | waitFree limit =>
      simp only [begin] at h
      split at h <;> cases h <;> exact .refl s
  | drain name =>
      simp only [begin] at h
      split at h <;> cases h <;> exact ⟨rfl, rfl⟩
  | register | unregister | setBehaviour | sleep | waitPhase | inspect | counts | sent =>
      cases h
      exact ⟨rfl, rfl⟩

theorem advance_keeps (hp : ∀ due call, stage ≠ .planned due call)
    (h : s.advance stage = some (stage', s')) : s.Keeps s' := by
  cases goesOn_of_advance hp h with
  | stays => exact .refl s
  | submits hm =>
      obtain ⟨-, -, rfl⟩ := Machine.submit_eq_ok hm
      exact ⟨rfl, rfl⟩
  | pursues hm => exact pursue_keeps hm
  | transmits => exact ⟨rfl, rfl⟩

theorem deliver_keeps (h : s.deliver = some s') : s.Keeps s' := by
  cases pumps_of_deliver h with
  | plain _ _ hm => exact ⟨by rw [hm], by rw [hm]⟩
  | submits _ hm =>
      obtain ⟨-, -, rfl⟩ := Machine.submit_eq_ok hm
      exact ⟨rfl, rfl⟩
  | handsIn _ hm => exact ⟨(pursue_keeps hm).status, (pursue_keeps hm).settings⟩
  | learns _ hm => exact ⟨(pursue_keeps hm).status, (pursue_keeps hm).settings⟩

end Keeping

section Beginning

/-- A call that begins at an action, and what it has come to with that. -/
def begun (s : System) (a : Action) (s' : System) : List (Call × Stage) :=
  match a with
  | .resume i =>
      match s.callers[i]?, s'.callers[i]? with
      | some (.planned _ call), some stage => [(call, stage)]
      | _, _ => []
  | _ => []

/-- The caller is through, and nothing else has changed. -/
def answered (s : System) (i : Nat) (answer : Answer) : System :=
  { s with callers := s.callers.set i (.finished s.now answer) }

theorem resume_planned (hi : s.callers[i]? = some (.planned due call)) (hdue : due ≤ s.now) :
    s.step (.resume i) =
      some { (s.begin call).2 with
        callers := (s.begin call).2.callers.set i (s.begin call).1 } := by
  simp [step, resume, hi, advance, hdue]

/-- A call that ends where it begins. -/
theorem resume_of_finish {answer : Answer} (hi : s.callers[i]? = some (.planned due call))
    (hdue : due ≤ s.now) (hb : s.begin call = s.finish answer) :
    s.step (.resume i) = some (s.answered i answer) := by
  rw [resume_planned hi hdue, hb]
  rfl

/-- **Nothing that needs the worker begins** unless the machine is open. -/
theorem begin_of_needsWorker (hc : call.NeedsWorker s.now)
    (hs : s.machine.status.isOpen = false) : s.begin call = s.finish (.refused .notRunning) := by
  cases hc with
  | @command _ c hc =>
      have hr : s.machine.status ≠ .running := by
        intro hr
        rw [hr] at hs
        cases hs
      rw [begin_of_command? hc, System.command, Machine.submit, if_neg hr]
  | waitFree limit => simp [begin, hs]
  | send hf => simp [begin, hf, seek, hs]

/-- What starts and destroys make of the status of a machine. -/
inductive Turns (s : System) : Call → Stage → System → Prop
  | started (hs : s.machine.status = .created) :
      Turns s (.start true) (.finished s.now .done)
        { s with machine := { s.machine with status := .running } }
  | unhosted (hs : s.machine.status = .created) :
      Turns s (.start false) (.finished s.now (.refused .notRunning)) s
  | repeated {hasExecutor : Bool} (hs : s.machine.status ≠ .created) :
      Turns s (.start hasExecutor) (.finished s.now (.refused .alreadyStarted)) s
  | destroyed {stage : Stage} {s' : System} (hm : s'.machine = s.machine.destroy) :
      Turns s .destroy stage s'
  | other {call : Call} {stage : Stage} {s' : System}
      (hs : ∀ hasExecutor, call ≠ .start hasExecutor) (hd : call ≠ .destroy) (hk : s.Keeps s') :
      Turns s call stage s'

theorem turns_of_begin (h : s.begin call = (stage, s')) : s.Turns call stage s' := by
  by_cases hstart : ∃ hasExecutor, call = .start hasExecutor
  · obtain ⟨hasExecutor, rfl⟩ := hstart
    by_cases hs : s.machine.status = .created
    · cases hasExecutor with
      | true =>
          simp only [begin, Machine.start, hs] at h
          cases h
          exact .started hs
      | false =>
          simp only [begin, Machine.start, hs] at h
          cases h
          exact .unhosted hs
    · have hstart : s.machine.start hasExecutor = .error .alreadyStarted := by
        unfold Machine.start
        split
        · next hc => exact absurd hc hs
        · rfl
      simp only [begin, hstart] at h
      cases h
      exact .repeated hs
  · by_cases hd : call = .destroy
    · subst hd
      simp only [begin] at h
      split at h <;> cases h <;> exact .destroyed rfl
    · have hs : ∀ hasExecutor, call ≠ .start hasExecutor := fun b hb => hstart ⟨b, hb⟩
      exact .other hs hd (begin_keeps hs hd h)

theorem Turns.settings_eq (h : s.Turns call stage s') :
    s'.machine.settings = s.machine.settings := by
  cases h with
  | started => rfl
  | unhosted => rfl
  | repeated => rfl
  | destroyed hm => rw [hm, Machine.settings_destroy]
  | other _ _ hk => exact hk.settings

/-- A step in which a call begins, or none does. -/
theorem begun_of_step (h : s.step a = some s') :
    (∃ i due call stage s₁, a = .resume i ∧ s.callers[i]? = some (.planned due call) ∧
        s.Turns call stage s₁ ∧ s'.machine = s₁.machine ∧ s.begun a s' = [(call, stage)]) ∨
      s.begun a s' = [] ∧ (a = .work ∨ s.Keeps s') := by
  cases a with
  | call due call =>
      cases h
      exact .inr ⟨rfl, .inr ⟨rfl, rfl⟩⟩
  | work => exact .inr ⟨rfl, .inl rfl⟩
  | deliver => exact .inr ⟨rfl, .inr (deliver_keeps h)⟩
  | elapse t =>
      simp only [step] at h
      split at h <;> cases h
      exact .inr ⟨rfl, .inr ⟨rfl, rfl⟩⟩
  | resume i =>
      obtain ⟨stage, hi, h⟩ := Option.bind_eq_some_iff.1 h
      obtain ⟨⟨stage', s₁⟩, hadv, rfl⟩ := Option.map_eq_some_iff.1 h
      have hlt : i < s₁.callers.length := by
        rw [(advances_of_advance hadv).callers]
        exact (List.getElem?_eq_some_iff.1 hi).1
      by_cases hp : ∃ due call, stage = .planned due call
      · obtain ⟨due, call, rfl⟩ := hp
        simp only [advance] at hadv
        split at hadv
        · refine .inl ⟨i, due, call, stage', s₁, rfl, hi, turns_of_begin (Option.some.inj hadv), rfl, ?_⟩
          simp [begun, hi, hlt]
        · cases hadv
      · have hp' : ∀ due call, stage ≠ .planned due call := fun due call he => hp ⟨due, call, he⟩
        have hk := advance_keeps hp' hadv
        refine .inr ⟨?_, .inr ⟨hk.status, hk.settings⟩⟩
        simp only [begun, hi]
        cases stage with
        | planned due call => exact absurd rfl (hp' due call)
        | _ => rfl

/-- **A machine keeps its settings.** -/
theorem settings_of_step (h : s.step a = some s') :
    s'.machine.settings = s.machine.settings := by
  rcases begun_of_step h with ⟨i, due, call, stage, s₁, -, -, hturn, hm, -⟩ | ⟨-, rfl | hk⟩
  · rw [hm, hturn.settings_eq]
  · obtain ⟨turn, hw⟩ := worksTo_of_work h
    exact hw.machine.settings_eq
  · exact hk.settings

end Beginning

section Living

/-- A start that worked. -/
def starts : Call × Stage → Bool
  | (.start _, .finished _ .done) => true
  | _ => false

/-- A destroy, whatever came of it. -/
def ends : Call × Stage → Bool
  | (.destroy, _) => true
  | _ => false

/-- A worker begins to run at an action. -/
def spawns (s : System) (_ : Action) (s' : System) : List Instant :=
  if s.machine.status ≠ .running ∧ s'.machine.status = .running then [s.now] else []

/-- The status of a machine tells what calls have come to. -/
structure Lives (h : List (Call × Stage)) (status : Status) : Prop where
  once : h.countP starts ≤ 1
  created : status = .created ↔ h.any starts = false ∧ h.any ends = false
  ended : status = .stopping ∨ status = .destroyed ↔ h.any ends = true

variable {h : List (Call × Stage)} {status status' : Status}

theorem starts_eq_false (hs : ∀ hasExecutor, call ≠ .start hasExecutor) :
    starts (call, stage) = false := by
  unfold starts
  split
  · next heq =>
      cases heq
      exact absurd rfl (hs _)
  · rfl

theorem ends_eq_false (hd : call ≠ .destroy) : ends (call, stage) = false := by
  unfold ends
  split
  · next heq =>
      cases heq
      exact absurd rfl hd
  · rfl

/-- The machine is open after a start that worked, until it is destroyed. -/
theorem Lives.isOpen_eq_false_iff (hl : Lives h status) :
    status.isOpen = false ↔ h.any starts = false ∨ h.any ends = true := by
  have hcreated := hl.created
  have hended := hl.ended
  cases status <;> cases hs : h.any starts <;> cases he : h.any ends <;>
    simp [hs, he, Status.isOpen] at hcreated hended ⊢

/-- A call that neither starts nor ends the machine adds nothing to tell. -/
theorem Lives.concat (hl : Lives h status) (hs : starts (call, stage) = false)
    (he : ends (call, stage) = false) : Lives (h ++ [(call, stage)]) status := by
  refine ⟨?_, ?_, ?_⟩
  · simpa [List.countP_append, hs] using hl.once
  · simpa [hs, he] using hl.created
  · simpa [he] using hl.ended

theorem Lives.start (hl : Lives h .created) {t : Instant} {hasExecutor : Bool} :
    Lives (h ++ [(.start hasExecutor, .finished t .done)]) .running := by
  obtain ⟨hs, he⟩ := hl.created.1 rfl
  have hcount : h.countP starts = 0 := by
    rw [List.countP_eq_zero]
    simpa using hs
  refine ⟨?_, ?_, ?_⟩
  · simp [List.countP_append, hcount, starts]
  · simp [starts]
  · simpa [ends] using he

theorem Lives.destroy (hl : Lives h status) (hs : status' = .stopping ∨ status' = .destroyed) :
    Lives (h ++ [(.destroy, stage)]) status' := by
  refine ⟨?_, ?_, ?_⟩
  · simpa [List.countP_append, starts] using hl.once
  · rcases hs with rfl | rfl <;> simp [ends]
  · simpa [ends] using hs

/-- A pass of the worker neither starts nor destroys the machine. -/
theorem Lives.work {turn : Turn Observer} (hl : Lives h s.machine.status)
    (hw : s.WorksTo turn s') : Lives h s'.machine.status := by
  have hcreated := hl.created
  have hended := hl.ended
  rcases hw.machine.stops_or_runs with ⟨hs, -, hm⟩ | ⟨hs, hs' | hs'⟩
  · have hs' : s'.machine.status = .destroyed := by
      rw [hm]
      rfl
    exact ⟨hl.once, by simpa [hs, hs'] using hcreated, by simpa [hs, hs'] using hended⟩
  · exact ⟨hl.once, by simpa [hs, hs'] using hcreated, by simpa [hs, hs'] using hended⟩
  · exact ⟨hl.once, by simpa [hs, hs'] using hcreated, by simpa [hs, hs'] using hended⟩

/-- One step: a worker is spawned where a start works, and nowhere else. -/
theorem Lives.of_step (hl : Lives h s.machine.status) (hs : s.step a = some s') :
    Lives (h ++ s.begun a s') s'.machine.status ∧
      (s.spawns a s').length = (s.begun a s').countP starts := by
  rcases begun_of_step hs with ⟨i, due, call, stage, s₁, rfl, hi, hturn, hm, hb⟩ | ⟨hb, hrest⟩
  · rw [hb, hm]
    cases hturn with
    | started hst =>
        rw [hst] at hl
        exact ⟨hl.start, by simp [spawns, hst, hm, starts]⟩
    | unhosted hst => exact ⟨hl.concat rfl rfl, by simp [spawns, hm, starts]⟩
    | repeated hst => exact ⟨hl.concat rfl rfl, by simp [spawns, hm, starts]⟩
    | destroyed hd =>
        have hover : s₁.machine.IsOver := hd ▸ Machine.isOver_destroy s.machine
        refine ⟨hl.destroy hover, ?_⟩
        rcases hover with hst | hst <;> simp [spawns, hst, hm, starts]
    | other hns hd hk =>
        rw [hk.status]
        exact ⟨hl.concat (starts_eq_false hns) (ends_eq_false hd),
          by simp [spawns, hm, hk.status, starts_eq_false hns]⟩
  · rw [hb, List.append_nil]
    rcases hrest with rfl | hk
    · obtain ⟨turn, hw⟩ := worksTo_of_work hs
      refine ⟨hl.work hw, ?_⟩
      rcases hw.machine.stops_or_runs with ⟨-, -, hm⟩ | ⟨hst, -⟩
      · simp [spawns, hm, Machine.close]
      · simp [spawns, hst]
    · rw [hk.status]
      exact ⟨hl, by simp [spawns, hk.status]⟩

end Living

section Controlling

variable {c : Controls}

/-- What an action makes of the controls: the call that begins at it, or a pass of the worker. -/
def controlsAfter (c : Controls) (s : System) (a : Action) (s' : System) : Controls :=
  match a with
  | .work =>
      (s.machine.turn Observer.react s.now).elim c fun (turn, _) =>
        c.pass (turn.returns Observer.react)
  | a => c.begins (s.begun a s')

/-- The controls after a run. -/
def controls (c : Controls) (s : System) : List Action → Controls
  | [] => c
  | a :: as => (s.step a).elim c fun s' => controls (controlsAfter c s a s') s' as

theorem controls_concat (hx : s.steps as = some x) (ha : x.step a = some y) :
    controls c s (as ++ [a]) = controlsAfter (controls c s as) x a y := by
  induction as generalizing s c with
  | nil =>
      cases hx
      simp [controls, ha]
  | cons b as ih =>
      obtain ⟨s', hs', hx'⟩ := steps_cons_iff.1 hx
      simp only [List.cons_append, controls, hs', Option.elim]
      exact ih hx'

/-- A call that begins takes the status and the controls the same way. -/
theorem stands_of_turns (h : c.Stands s.machine.status) (ht : s.Turns call stage s') :
    (c.begin call).Stands s'.machine.status := by
  cases ht with
  | started hs =>
      rw [hs] at h
      exact h.start_of_created.2.1
  | unhosted hs =>
      have hc : c.begin (.start false) = c := by
        rw [hs] at h
        rw [Controls.begin, h.start_of_created.2.2]
      rwa [hc]
  | @repeated hasExecutor hs =>
      rw [Controls.begin, h.start_of_ne_created hs hasExecutor]
      exact h
  | destroyed hm =>
      rw [hm]
      exact h.destroy
  | other hs hd hk =>
      have hc : c.begin call = c := by
        unfold Controls.begin
        split
        · exact absurd rfl (hs _)
        · exact absurd rfl hd
        · rfl
      rw [hc, hk.status]
      exact h

/-- **So does every step.** -/
theorem stands_of_step (h : c.Stands s.machine.status) (hs : s.step a = some s') :
    (controlsAfter c s a s').Stands s'.machine.status := by
  by_cases ha : a = .work
  · subst ha
    obtain ⟨turn, hw⟩ := worksTo_of_work hs
    simp only [controlsAfter, Machine.turn_eq_some_iff.2 hw.machine, Option.elim]
    exact h.pass hw.machine
  · have hcontrols : controlsAfter c s a s' = c.begins (s.begun a s') := by
      unfold controlsAfter
      split
      · exact absurd rfl ha
      · rfl
    rw [hcontrols]
    rcases begun_of_step hs with ⟨i, due, call, stage, s₁, -, -, hturn, hm, hb⟩ | ⟨hb, hrest⟩
    · rw [hb, hm]
      exact stands_of_turns h hturn
    · rw [hb, (hrest.resolve_left ha).status]
      exact h

end Controlling

section Runs

variable {setup : Setup}

/-- The start that a session has made before its first step: a resident observer comes with a machine
that runs. -/
def opening (setup : Setup) : List (Call × Stage) :=
  setup.harness.elim [] fun _ => [(.start true, .finished 0 .done)]

/-- The calls that began from the assembly of a system on, and what they had come to at once. -/
def history (setup : Setup) (s₀ : System) (as : List Action) : List (Call × Stage) :=
  opening setup ++ s₀.gather begun as

theorem lives_of_assemble (h : setup.assemble = .ok s) : Lives (opening setup) s.machine.status := by
  unfold Setup.assemble at h
  cases hm : (Machine.create setup.settings : Except Fault (Machine Observer)) with
  | error fault => rw [hm] at h; cases h
  | ok m =>
      obtain ⟨timing, -, rfl⟩ := Machine.exists_timing_of_create hm
      rw [hm] at h
      cases hn : setup.harness with
      | none =>
          rw [hn] at h
          cases h
          exact ⟨by simp [opening, hn], by simp [opening, hn], by simp [opening, hn]⟩
      | some name =>
          rw [hn] at h
          cases h
          exact ⟨by simp [opening, hn, starts], by simp [opening, hn, starts],
            by simp [opening, hn, ends]⟩

/-- **The status tells the history**, and workers are spawned by starts that work. -/
theorem lives_of_steps (hs₀ : setup.assemble = .ok s₀) (has : s₀.steps as = some s) :
    Lives (history setup s₀ as) s.machine.status ∧
      (opening setup).length + (s₀.gather spawns as).length =
        (history setup s₀ as).countP starts := by
  refine steps_induct (P := fun as s => Lives (history setup s₀ as) s.machine.status ∧
    (opening setup).length + (s₀.gather spawns as).length = (history setup s₀ as).countP starts)
    ⟨?_, ?_⟩ (fun as x a y hx ha ih => ?_) has
  · rw [history, gather, List.append_nil]
    exact lives_of_assemble hs₀
  · rw [history, gather, gather, List.append_nil, opening]
    cases setup.harness <;> rfl
  · obtain ⟨hlives, hcount⟩ := ih
    obtain ⟨hlives', hcount'⟩ := hlives.of_step ha
    rw [history, gather_concat hx ha, gather_concat hx ha, ← List.append_assoc]
    refine ⟨hlives', ?_⟩
    rw [List.length_append, List.countP_append, ← hcount', ← Nat.add_assoc, hcount]
    rfl

theorem stands_of_assemble (h : setup.assemble = .ok s) :
    (Controls.begins {} (opening setup)).Stands s.machine.status := by
  unfold Setup.assemble at h
  cases hm : (Machine.create setup.settings : Except Fault (Machine Observer)) with
  | error fault => rw [hm] at h; cases h
  | ok m =>
      obtain ⟨timing, -, rfl⟩ := Machine.exists_timing_of_create hm
      rw [hm] at h
      cases hn : setup.harness with
      | none =>
          rw [hn] at h
          cases h
          rw [opening, hn]
          exact .created
      | some name =>
          rw [hn] at h
          cases h
          rw [opening, hn]
          exact .running

/-- **The status stands for the controls** after any run. -/
theorem stands_of_steps (hs₀ : setup.assemble = .ok s₀) (has : s₀.steps as = some s) :
    (controls (.begins {} (opening setup)) s₀ as).Stands s.machine.status := by
  refine steps_induct
    (P := fun as s => (controls (.begins {} (opening setup)) s₀ as).Stands s.machine.status)
    (stands_of_assemble hs₀) (fun as x a y hx ha ih => ?_) has
  rw [controls_concat hx ha]
  exact stands_of_step ih ha

/-- As long as no request was accepted, the channel is as at the beginning. -/
theorem tracker_eq_initial (hs : s.Reachable)
    (h : ∀ x ∈ passes s.journal, ∀ k r p, x.2.deed ≠ .handled k (.newRequest r) (.ok p)) :
    s.machine.tracker = .initial := by
  refine hs.induct (P := fun s => (∀ x ∈ passes s.journal, ∀ k r p,
    x.2.deed ≠ .handled k (.newRequest r) (.ok p)) → s.machine.tracker = .initial)
    (fun setup s hs _ => (assemble_eq hs).1) (fun s a s' _ ih hstep h => ?_) h
  rcases passes_of_step hstep with ⟨ha, hp⟩ | ⟨turn, -, hw⟩
  · rw [(step_spares ha hstep).machine.tracker]
    exact ih (hp ▸ h)
  · rw [hw.passes] at h
    have hbefore := ih fun x hx => h x (List.mem_append_left _ hx)
    have hlast := h (s.now, turn) (by simp)
    cases hm : turn.deed.isMove with
    | false => rw [hw.machine.tracker_eq hm, hbefore]
    | true =>
        obtain ⟨-, ⟨n, -, -, hlapses⟩ | ⟨k, c, hturn, -, hmoves⟩⟩ := hw.machine.move_cases hm
        · rw [hbefore] at hlapses
          cases hlapses
        · rw [hbefore] at hmoves
          cases c with
          | newRequest r => exact absurd (by rw [hturn]) (hlast k r _)
          | _ => cases hmoves.refusal?_eq_none

/-- How a start is answered after other calls. -/
theorem Lives.exists_answer {hasExecutor : Bool} (hl : Lives h s.machine.status)
    (hi : s.callers[i]? = some (.planned due (.start hasExecutor))) (hdue : due ≤ s.now) :
    ∃ s', s.step (.resume i) = some s' ∧
      (s'.callers[i]? = some (.finished s.now .done) ↔
        hasExecutor = true ∧ h.any starts = false ∧ h.any ends = false) ∧
      (hasExecutor = false ∧ h.any starts = false ∧ h.any ends = false →
        s' = s.answered i (.refused .notRunning)) ∧
      (h.any starts = true ∨ h.any ends = true →
        s' = s.answered i (.refused .alreadyStarted)) := by
  have hlt : i < s.callers.length := (List.getElem?_eq_some_iff.1 hi).1
  have hcaller (stage : Stage) : (s.callers.set i stage)[i]? = some stage :=
    List.getElem?_set_self hlt
  refine ⟨_, resume_planned hi hdue, ?_⟩
  cases hb : s.begin (.start hasExecutor) with
  | mk stage s₁ =>
      cases turns_of_begin hb with
      | started hs =>
          obtain ⟨hs, he⟩ := hl.created.1 hs
          simp [hcaller, hs, he]
      | unhosted hs =>
          obtain ⟨hs, he⟩ := hl.created.1 hs
          simp [hcaller, hs, he, answered]
      | repeated hs =>
          have hsome : ¬ (h.any starts = false ∧ h.any ends = false) :=
            fun hno => hs (hl.created.2 hno)
          refine ⟨⟨fun heq => ?_, fun hno => absurd hno.2 hsome⟩,
            fun hno => absurd hno.2 hsome, fun _ => rfl⟩
          rw [hcaller] at heq
          cases heq
      | other hno => exact absurd rfl (hno hasExecutor)

/-- How calls are answered after others, and what the machine has come to. -/
structure Disciplined (h : List (Call × Stage)) (s : System) : Prop where
  /-- One start works at most. -/
  once : h.countP starts ≤ 1
  /-- A start works on an executor, if none has worked before and the machine was not destroyed. -/
  answers : ∀ i due hasExecutor, s.callers[i]? = some (.planned due (.start hasExecutor)) →
    due ≤ s.now → ∃ s', s.step (.resume i) = some s' ∧
      (s'.callers[i]? = some (.finished s.now .done) ↔
        hasExecutor = true ∧ h.any starts = false ∧ h.any ends = false) ∧
      (hasExecutor = false ∧ h.any starts = false ∧ h.any ends = false →
        s' = s.answered i (.refused .notRunning)) ∧
      (h.any starts = true ∨ h.any ends = true → s' = s.answered i (.refused .alreadyStarted))
  /-- Without a start that worked, or once the machine was destroyed, nothing that needs the worker
  begins. -/
  idle : h.any starts = false ∨ h.any ends = true → ∀ i due call,
    s.callers[i]? = some (.planned due call) → due ≤ s.now → call.NeedsWorker s.now →
      s.step (.resume i) = some (s.answered i (.refused .notRunning))
  /-- The channel is free until a request is accepted. -/
  free : (∀ x ∈ passes s.journal, ∀ k r p, x.2.deed ≠ .handled k (.newRequest r) (.ok p)) →
    s.machine.phase = .freeForSend

/-- **The discipline of a machine's life**, after any calls that began in any order; workers are spawned by
starts that work, so there is one at most; and what the machine answers is what its flags, the halves of
its channels and the handle of its worker say after the same run. -/
theorem lifecycle_of_steps (hs₀ : setup.assemble = .ok s₀) (has : s₀.steps as = some s) :
    Disciplined (history setup s₀ as) s ∧
      (opening setup).length + (s₀.gather spawns as).length =
        (history setup s₀ as).countP starts ∧
      (controls (.begins {} (opening setup)) s₀ as).Governs s.machine := by
  obtain ⟨hlives, hcount⟩ := lives_of_steps hs₀ has
  have hreachable : s.Reachable := ⟨setup, s₀, as, hs₀, has⟩
  refine ⟨⟨hlives.once, fun i due hasExecutor hi hdue => ?_, fun hidle i due call hi hdue hc => ?_,
    fun hno => ?_⟩, hcount, (stands_of_steps hs₀ has).governs⟩
  · exact hlives.exists_answer hi hdue
  · exact resume_of_finish hi hdue (begin_of_needsWorker hc (hlives.isOpen_eq_false_iff.2 hidle))
  · rw [hreachable.sound.phase, tracker_eq_initial hreachable hno]
    rfl

/-- A start without an executor is tried again; once the machine was destroyed no start works. -/
theorem lifecycle_of_steps_of_retry :
    ∃ s₀ s : System, ∃ as : List Action, Setup.assemble {} = .ok s₀ ∧ s₀.steps as = some s ∧
      history {} s₀ as =
        [(.start false, .finished 0 (.refused .notRunning)),
          (.reset, .finished 0 (.refused .notRunning)), (.start true, .finished 0 .done),
          (.start true, .finished 0 (.refused .alreadyStarted)),
          (.destroy, .joining (Duration.millis 2000))] ∧
      s.callers[5]? = some (.planned 0 (.start true)) ∧
      Disciplined (history {} s₀ as) s ∧
      (opening {}).length + (s₀.gather spawns as).length = (history {} s₀ as).countP starts ∧
      (controls (.begins {} (opening {})) s₀ as).Governs s.machine := by
  obtain ⟨s₀, as, hs₀, hrun⟩ : ∃ s₀ as, Setup.assemble {} = .ok s₀ ∧
      ((s₀.steps as).any fun s =>
        history {} s₀ as =
          [(.start false, .finished 0 (.refused .notRunning)),
            (.reset, .finished 0 (.refused .notRunning)), (.start true, .finished 0 .done),
            (.start true, .finished 0 (.refused .alreadyStarted)),
            (.destroy, .joining (Duration.millis 2000))] ∧
        s.callers[5]? = some (.planned 0 (.start true))) = true :=
    ⟨_, [.call 0 (.start false), .call 0 .reset, .call 0 (.start true), .call 0 (.start true),
        .call 0 .destroy, .call 0 (.start true), .resume 0, .resume 1, .resume 2, .resume 3,
        .resume 4, .work], rfl, by decide +kernel⟩
  obtain ⟨s, hs, hrun⟩ := (Option.any_eq_true _ _).1 hrun
  obtain ⟨hhistory, hcaller⟩ := of_decide_eq_true hrun
  exact ⟨s₀, s, as, hs₀, hs, hhistory, hcaller, lifecycle_of_steps hs₀ hs⟩

end Runs

end System
end MeshExchange
