import MeshExchange.Proofs.System.Aftermath

/-!
# Destroyed for good

A machine is destroyed while calls are under way: some wait for the slot, some for a reply, some for a
free channel, and a deadline may be due at the very instant. From then on the machine is silent. The calls
end with what had become of them, and so does every call that comes later.

**Method.** How far a caller has got since the machine was destroyed is followed step by step, in any run.
On a virtual clock the steps that are left are used up before time passes, and then nobody waits any more.

**Results.**
* `System.Trails`, `System.trails_of_steps`: how far a call in flight has got;
* `System.Settled`, `System.settled_of_unfolds`: the calls in flight end before time passes;
* `System.Final`, `System.final_of_isOver`: what holds of a destroyed machine;
* `System.final_of_destroy`: the same, from the call that destroys it;
* `System.ends_otherwise_of_destroy`: calls that end neither with the reply to their command nor with the
  news that the machine does not run.
-/

namespace MeshExchange

/-- Whether a call is under way. -/
def Stage.isInFlight : Stage → Bool
  | .planned _ _ | .sleeping _ | .finished _ _ => false
  | _ => true

namespace System

variable {s s' x y : System} {a : Action} {as : List Action} {i k : Nat} {t due : Instant}
  {start stage stage' : Stage} {d : Delivery} {p : Pending}

section Following

/-- What every step of a destroyed system keeps, a run keeps. -/
theorem kept_of_isOver {P : System → Prop} (hs : s.Reachable) (ho : s.machine.IsOver)
    (hP : ∀ x a y, x.Reachable → s.Silent x → P x → x.step a = some y → P y) (h : P s)
    (has : s.steps as = some x) : P x := by
  have hall : x.Reachable ∧ s.Silent x ∧ P x :=
    kept_of_steps (P := fun x => x.Reachable ∧ s.Silent x ∧ P x)
      (fun x a y hx ha => ⟨hx.1.step ha, hx.2.1.of_step ha, hP x a y hx.1 hx.2.1 hx.2.2 ha⟩)
      ⟨hs, .refl ho, h⟩ has
  exact hall.2.2

/-- How far a call has got that was in flight when the machine was destroyed. -/
inductive Trails (s x : System) : Stage → Stage → Prop
  | stays {stage : Stage} : Trails s x stage stage
  | sees {sending : Sending} {limit : Duration} {giveUp : Instant}
      (hp : s.machine.phase = .freeForSend) :
      Trails s x (.seeking sending limit giveUp) (.announcing sending)
  | accepted {sending : Sending} {p : Pending} {phase : Phase}
      (h : s.HasHandled p.ticket p.command (.ok phase)) :
      Trails s x (.announced sending p) (.transmitting sending phase)
  | ends {stage : Stage} {t : Instant} {answer : Answer} (h : s.Concludes x.journal t stage answer)
      (hs : s.now ≤ t) (hx : t ≤ x.now) : Trails s x stage (.finished t answer)

theorem Trails.mono (hf : s.Trails x start stage) (hj : x.journal <+: y.journal)
    (hn : x.now ≤ y.now) : s.Trails y start stage := by
  cases hf with
  | stays => exact .stays
  | sees hp => exact .sees hp
  | accepted h => exact .accepted h
  | ends h hs hx => exact .ends (h.mono hj) hs (Nat.le_trans hx hn)

/-- One step of the caller. -/
theorem Trails.of_departs (hf : s.Trails x start stage) (hstart : start.isInFlight = true)
    (hx : s.Silent x) (hd : x.Departs y.journal stage stage') (hj : x.journal <+: y.journal)
    (hn : y.now = x.now) : s.Trails y start stage' := by
  have hle := Nat.le_of_eq hn.symm
  cases hd with
  | begins => cases hf; cases hstart
  | wakes => cases hf; cases hstart
  | handsIn => exact hf.mono hj hle
  | sees hp =>
      cases hf
      exact .sees (hx.phase ▸ hp)
  | accepted h =>
      cases hf
      exact .accepted (hx.hasHandled_iff.1 h)
  | ends h =>
      have h' := h.of_silent hx
      cases hf with
      | stays => exact .ends h' hx.now hle
      | sees hp =>
          cases h'
          exact .ends (.sought hp) hx.now hle
      | accepted hh =>
          cases h' with
          | transmitting hmem => exact .ends (.accepted hh hmem) hx.now hle
      | ends => cases h'

/-- One step, whoever takes it. -/
theorem Trails.of_step (hf : s.Trails x start stage) (hstart : start.isInFlight = true)
    (hx : s.Silent x) (ht : x.Ticketed) (hi : x.callers[i]? = some stage)
    (ha : x.step a = some y) :
    ∃ stage', y.callers[i]? = some stage' ∧ s.Trails y start stage' := by
  have hj := journal_prefix_of_step ha
  rcases caller_of_step hi ha with hi' | ⟨-, stage', x', hadv, rfl, hi'⟩
  · exact ⟨stage, hi', hf.mono hj ((Silent.refl hx.isOver).of_step ha).now⟩
  · obtain ⟨hd, hn, -⟩ := departs_of_advance ht hx.isOver hi hadv
    exact ⟨stage', hi', hf.of_departs hstart hx hd hj hn⟩

/-- **How far a call has got** after any run since the machine was destroyed. -/
theorem trails_of_steps (hs : s.Reachable) (ho : s.machine.IsOver)
    (hi : s.callers[i]? = some start) (hstart : start.isInFlight = true)
    (has : s.steps as = some x) :
    ∃ stage, x.callers[i]? = some stage ∧ s.Trails x start stage := by
  refine kept_of_isOver (P := fun x => ∃ stage, x.callers[i]? = some stage ∧ s.Trails x start stage)
    hs ho (fun x a y hr hx h ha => ?_) ⟨start, hi, .stays⟩ has
  obtain ⟨stage, hi, hf⟩ := h
  exact hf.of_step hstart hx hr.ticketed hi ha

theorem Advances.pump (h : s.Advances stage stage' s') : s'.pump = s.pump := by
  cases h with
  | plain hs hs' hq => exact hq.pump
  | _ => rfl

/-- Only its own steps change how far the pump has got. -/
theorem pump_of_step (ha : a ≠ .deliver) (h : x.step a = some y) : y.pump = x.pump := by
  cases a with
  | call due call =>
      cases h
      rfl
  | resume i =>
      obtain ⟨stage, stage', x', -, hadv, rfl⟩ := exists_advances_of_resume h
      exact hadv.pump
  | work =>
      obtain ⟨⟨turn, m⟩, -, rfl⟩ := Option.map_eq_some_iff.1 h
      rfl
  | deliver => exact absurd rfl ha
  | elapse t =>
      simp only [step] at h
      split at h <;> cases h
      rfl

/-- A delivery that the pump was handing in when the machine was destroyed still is, or was handed over. -/
def Hands (s x : System) (d : Delivery) (p : Pending) : Prop :=
  x.pump = .handing d p ∨ ∃ t reply, s.now ≤ t ∧ t ≤ x.now ∧
    (t, .handedOver d reply) ∈ x.journal ∧ s.Gets p t reply

theorem Hands.of_step (hp : s.Hands x d p) (hx : s.Silent x) (ht : x.Ticketed)
    (ha : x.step a = some y) : s.Hands y d p := by
  rcases hp with hp | ⟨t, reply, hs, hle, hmem, hgets⟩
  · by_cases hd : a = .deliver
    · subst hd
      obtain ⟨hn, -, -, hpump⟩ := deliver_of_isOver ht hx.isOver ha
      rcases hpump d p hp with hp' | ⟨reply, hmem, hgets⟩
      · exact .inl hp'
      · exact .inr ⟨x.now, reply, hx.now, Nat.le_of_eq hn.symm, hmem, hgets.of_silent hx⟩
    · exact .inl ((pump_of_step hd ha).trans hp)
  · exact .inr ⟨t, reply, hs, Nat.le_trans hle ((Silent.refl hx.isOver).of_step ha).now,
      (journal_prefix_of_step ha).subset hmem, hgets⟩

theorem hands_of_steps (hs : s.Reachable) (ho : s.machine.IsOver) (hp : s.pump = .handing d p)
    (has : s.steps as = some x) : s.Hands x d p :=
  kept_of_isOver (P := fun x => s.Hands x d p) hs ho
    (fun _ _ _ hr hx h ha => h.of_step hx hr.ticketed ha) (.inl hp) has

end Following

section Settling

/-- A destroyed machine whose worker has stopped keeps nobody waiting. -/
theorem isSome_pursue {m : Machine Observer} (hm : m.status = .destroyed) :
    (m.pursue p t).isSome = true :=
  Machine.isSome_pursue_of_isClosed (by rw [hm]; rfl)

theorem isSome_await {target : Phase} {giveUp : Instant} (hx : x.machine.status = .destroyed) :
    (x.await target giveUp).isSome = true := by
  have hc : x.machine.status.isClosed = true := by rw [hx]; rfl
  unfold await Machine.watch
  by_cases hp : x.machine.phase = target
  · rw [if_pos hp]
    rfl
  · rw [if_neg hp, if_pos hc]
    rfl

theorem isSome_advance (hx : x.machine.status = .destroyed) (hs : stage.isInFlight = true) :
    (x.advance stage).isSome = true := by
  cases stage with
  | planned | sleeping | finished => cases hs
  | commanding p | announced sending p =>
      simp only [advance, Option.isSome_map]
      exact isSome_pursue hx
  | waitingFree limit giveUp => rw [advance_waitingFree_eq, Option.isSome_map, isSome_await hx]
  | waitingPhase target giveUp => rw [advance_waitingPhase_eq, Option.isSome_map, isSome_await hx]
  | seeking sending limit giveUp => rw [advance_seeking_eq, Option.isSome_map, isSome_await hx]
  | joining giveUp => simp [advance, hx]
  | announcing sending =>
      simp only [advance]
      split <;> rfl
  | transmitting => rfl

/-- Where nobody can act, the worker has stopped, no call is in flight, and the pump waits for no reply. -/
theorem of_isAble_eq_false (ho : x.machine.IsOver) (hable : x.isAble = false) :
    (∀ (i : Nat) (stage : Stage), x.callers[i]? = some stage → stage.isInFlight = false) ∧
      ∀ d p, x.pump ≠ .handing d p := by
  obtain ⟨hcallers, hwork, hdeliver⟩ : (List.range x.callers.length).any
      (fun i => (x.step (.resume i)).isSome) = false ∧ (x.step .work).isSome = false ∧
        (x.step .deliver).isSome = false := by
    simpa only [isAble, isBackgroundAble, Bool.or_eq_false_iff] using hable
  have hx : x.machine.status = .destroyed := by
    rcases ho with ho | ho
    · simp [step, work, Machine.turn, ho] at hwork
    · exact ho
  refine ⟨fun i stage hi => ?_, fun d p hp => ?_⟩
  · cases hs : stage.isInFlight with
    | false => rfl
    | true =>
        have hadv := isSome_advance hx hs
        have hlt := (List.getElem?_eq_some_iff.1 hi).1
        have hno := List.any_eq_false.1 hcallers i (List.mem_range.2 hlt)
        simp [step, resume, hi, hadv] at hno
  · simp only [step, deliver, hp, Option.isSome_map] at hdeliver
    rw [isSome_pursue hx] at hdeliver
    cases hdeliver

/-- The calls that were in flight ended at the instant at which the machine was destroyed. -/
structure Settled (s x : System) : Prop where
  callers : ∀ (i : Nat) (stage : Stage), s.callers[i]? = some stage → stage.isInFlight = true →
    ∃ answer, x.callers[i]? = some (.finished s.now answer) ∧
      s.Concludes x.journal s.now stage answer
  pump : ∀ d p, s.pump = .handing d p →
    ∃ reply, (s.now, .handedOver d reply) ∈ x.journal ∧ s.Gets p s.now reply

theorem Settled.of_steps (h : s.Settled x) (has : x.steps as = some y)
    (hj : x.journal <+: y.journal) : s.Settled y := by
  refine ⟨fun i stage hi hs => ?_, fun d p hp => ?_⟩
  · obtain ⟨answer, hx, hc⟩ := h.callers i stage hi hs
    exact ⟨answer, finished_of_steps hx has, hc.mono hj⟩
  · obtain ⟨reply, hmem, hgets⟩ := h.pump d p hp
    exact ⟨reply, hj.subset hmem, hgets⟩

theorem settled_of_quiet (hs : s.Reachable) (ho : s.machine.IsOver) (has : s.steps as = some x)
    (hn : x.now = s.now) (hable : x.isAble = false) : s.Settled x := by
  have hx : s.Silent x := (Silent.refl ho).of_steps has
  obtain ⟨hcallers, hpump⟩ := of_isAble_eq_false hx.isOver hable
  refine ⟨fun i start hi hstart => ?_, fun d p hp => ?_⟩
  · obtain ⟨stage, hi', hf⟩ := trails_of_steps hs ho hi hstart has
    have hstage := hcallers i stage hi'
    cases hf with
    | stays =>
        rw [hstart] at hstage
        cases hstage
    | sees | accepted => cases hstage
    | ends h hs hle =>
        obtain rfl := Nat.le_antisymm (hn ▸ hle) hs
        exact ⟨_, hi', h⟩
  · rcases hands_of_steps hs ho hp has with hp' | ⟨t, reply, hs, hle, hmem, hgets⟩
    · exact absurd hp' (hpump d p)
    · obtain rfl := Nat.le_antisymm (hn ▸ hle) hs
      exact ⟨reply, hmem, hgets⟩

theorem exists_steps_of_unfolds (h : s.Unfolds k x) : ∃ as, s.steps as = some x := by
  induction h with
  | refl => exact ⟨[], rfl⟩
  | act _ _ hs ih =>
      obtain ⟨as, has⟩ := ih
      exact ⟨_, steps_concat_iff.2 ⟨_, has, hs⟩⟩
  | elapse _ _ ht _ ih =>
      obtain ⟨as, has⟩ := ih
      exact ⟨_, steps_concat_iff.2 ⟨_, has, step_elapse ht⟩⟩

theorem decreases_of_isOver : Decreases fun n x => x.Reachable ∧ x.machine.IsOver ∧ x.remains = n where
  act := by
    rintro n x y a ⟨hr, ho, rfl⟩ ha h
    obtain ⟨hn, hlt⟩ := remains_lt hr.ticketed ho ha h
    exact ⟨hn, _, hlt, hr.step h, ((Silent.refl ho).of_step h).isOver, rfl⟩
  elapse := by
    rintro n x t ⟨hr, ho, rfl⟩ - ht -
    exact ⟨hr.step (step_elapse ht), ho, rfl⟩

/-- **The calls in flight end before time passes.** -/
theorem settled_of_unfolds (hs : s.Reachable) (ho : s.machine.IsOver) (h : s.Unfolds k x) :
    x.now = s.now ∨ s.Settled x := by
  induction h with
  | refl => exact .inl rfl
  | @act k x y a h ha hstep ih =>
      obtain ⟨as, has⟩ := exists_steps_of_unfolds h
      have hx : s.Silent x := (Silent.refl ho).of_steps has
      rcases ih with hn | hset
      · have hlt := remains_lt (hs.steps has).ticketed hx.isOver ha hstep
        exact .inl (hlt.1.trans hn)
      · exact .inr (hset.of_steps (steps_singleton_iff.2 hstep) (journal_prefix_of_step hstep))
  | @elapse k x t h hable ht hu ih =>
      -- the clock waits for everybody who can act, so whoever was in flight is through before it goes on
      obtain ⟨as, has⟩ := exists_steps_of_unfolds h
      have hset : s.Settled x := ih.elim (fun hn => settled_of_quiet hs ho has hn hable) id
      exact .inr ⟨hset.callers, hset.pump⟩

end Settling

section Finality

/-- What holds of a machine that was destroyed. -/
structure Final (s : System) : Prop where
  /-- No command is handled any more, nobody is notified, and the phase stays what it is. -/
  silent : ∀ as x, s.steps as = some x →
    x.machine.tracker = s.machine.tracker ∧ x.machine.phase = s.machine.phase ∧
      (∀ o, x.notifications o = s.notifications o) ∧
      ∀ k c reply, x.HasHandled k c reply ↔ s.HasHandled k c reply
  /-- A call in flight ends with its reply, or finds the machine destroyed or its time up. -/
  concludes : ∀ as x (i : Nat) (stage : Stage) t answer, s.steps as = some x → s.callers[i]? = some stage →
    stage.isInFlight = true → x.callers[i]? = some (.finished t answer) →
      s.now ≤ t ∧ s.Concludes x.journal t stage answer
  /-- A delivery that is being handed in has the same ends. -/
  hands : ∀ as x d p, s.steps as = some x → s.pump = .handing d p → s.Hands x d p
  /-- None stays pending: on a virtual clock all of them end before time passes, -/
  settles : ∀ k x, s.Unfolds k x → x.isAble = false → s.Settled x
  /-- after so many steps at most, -/
  bounded : ∀ k x, s.Unfolds k x → k ≤ s.remains
  /-- and every instant to come is reached. -/
  exists_unfolds : ∀ t, s.now ≤ t → ∃ k x, s.Unfolds k x ∧ x.isAble = false ∧ x.now = t
  /-- A later call that needs the worker is refused at once. -/
  refuses : ∀ as x i due call, s.steps as = some x → x.callers[i]? = some (.planned due call) →
    due ≤ x.now → call.NeedsWorker x.now →
      x.step (.resume i) = some (x.answered i (.refused .notRunning))
  /-- To destroy the machine again changes nothing. -/
  again : ∀ as x i due, s.steps as = some x → x.callers[i]? = some (.planned due .destroy) →
    due ≤ x.now → x.step (.resume i) = some (x.answered i .done)

theorem begin_destroy_of_isOver (ho : x.machine.IsOver) : x.begin .destroy = x.finish .done := by
  simp only [begin, if_neg ho.ne_running, ho.destroy]

/-- **Whatever state a machine was destroyed in**, it is final. -/
theorem final_of_isOver (hs : s.Reachable) (ho : s.machine.IsOver) : s.Final := by
  have hsilent {as : List Action} {x : System} (has : s.steps as = some x) : s.Silent x :=
    (Silent.refl ho).of_steps has
  constructor
  · intro as x has
    have hx := hsilent has
    exact ⟨hx.tracker, hx.phase, hx.notifications, fun _ _ _ => hx.hasHandled_iff⟩
  · intro as x i start t answer has hi hstart hx
    obtain ⟨stage, hx', hf⟩ := trails_of_steps hs ho hi hstart has
    rw [hx] at hx'
    cases hx'
    cases hf with
    | stays => cases hstart
    | ends h hle _ => exact ⟨hle, h⟩
  · exact fun as x d p has hp => hands_of_steps hs ho hp has
  · intro k x h hable
    rcases settled_of_unfolds hs ho h with hn | hset
    · obtain ⟨as, has⟩ := exists_steps_of_unfolds h
      exact settled_of_quiet hs ho has hn hable
    · exact hset
  · intro k x h
    obtain ⟨n, hle, -⟩ := decreases_of_isOver.of_unfolds ⟨hs, ho, rfl⟩ h
    exact Nat.le_trans (Nat.le_add_right k n) hle
  · exact fun t ht => decreases_of_isOver.exists_unfolds ⟨hs, ho, rfl⟩ ht
  · intro as x i due call has hi hdue hc
    exact resume_of_finish hi hdue (begin_of_needsWorker hc (hsilent has).isOver.isOpen_eq_false)
  · intro as x i due has hi hdue
    exact resume_of_finish hi hdue (begin_destroy_of_isOver (hsilent has).isOver)

/-- **Destroy is final and silent**, whatever is under way and whatever is due when it is called. -/
theorem final_of_destroy (hs : s.Reachable) (hi : s.callers[i]? = some (.planned due .destroy))
    (hdue : due ≤ s.now) :
    ∃ s' stage, s.step (.resume i) = some s' ∧
      s' = { s with machine := s.machine.destroy, callers := s.callers.set i stage } ∧
      s'.Final := by
  obtain ⟨stage, hb⟩ : ∃ stage,
      s.begin .destroy = (stage, { s with machine := s.machine.destroy }) := by
    simp only [begin]
    split
    · exact ⟨_, rfl⟩
    · exact ⟨_, rfl⟩
  have hstep := resume_planned hi hdue
  rw [hb] at hstep
  exact ⟨_, stage, hstep, rfl,
    final_of_isOver (hs.step hstep) (Machine.isOver_destroy s.machine)⟩

/-- A machine is destroyed at the very instant of a deadline. One caller has not fetched its reply yet,
one waits for a free channel, one lies in the slot and one in the queue. -/
theorem final_of_destroy_at_deadline :
    ∃ s s' x : System, ∃ stage, s.Reachable ∧
      s.callers[5]? = some (.planned s.now .destroy) ∧ s.now ≤ s.now ∧
      s.machine.tracker.isDue s.now = true ∧
      s'.steps [.work, .resume 1, .resume 2, .resume 3, .resume 4, .resume 5] = some x ∧
      x.callers.drop 1 =
        [.finished s.now (.entered .waitingForConfirmation),
          .finished s.now (.refused .notRunning), .finished s.now (.refused .notRunning),
          .finished s.now (.refused .notRunning), .finished s.now .done] ∧
      s.step (.resume 5) = some s' ∧
      s' = { s with machine := s.machine.destroy, callers := s.callers.set 5 stage } ∧
      s'.Final := by
  obtain ⟨s₀, hs₀, hrun⟩ : ∃ s₀, Setup.assemble {} = .ok s₀ ∧
      ((s₀.steps [.call 0 (.start true), .resume 0, .call 0 (.newRequest ⟨.node 1, 0, 0, 0, []⟩),
        .resume 1, .work, .call 0 (.waitFree (Duration.millis 5000)), .resume 2,
        .call 0 (.confirmation ⟨1, 8, 1⟩ none), .resume 3, .call 0 .reset, .resume 4,
        .elapse (Duration.millis 500), .call (Duration.millis 500) .destroy]).any fun s =>
          s.callers[5]? = some (.planned s.now .destroy) ∧
          s.machine.tracker.isDue s.now = true ∧
          ((s.step (.resume 5)).bind fun s' =>
            s'.steps [.work, .resume 1, .resume 2, .resume 3, .resume 4, .resume 5]).any fun x =>
              x.callers.drop 1 =
                [.finished s.now (.entered .waitingForConfirmation),
                  .finished s.now (.refused .notRunning), .finished s.now (.refused .notRunning),
                  .finished s.now (.refused .notRunning), .finished s.now .done]) = true :=
    ⟨_, rfl, by decide +kernel⟩
  obtain ⟨s, hs, hrun⟩ := (Option.any_eq_true _ _).1 hrun
  obtain ⟨hi, hdue, hrun⟩ := of_decide_eq_true hrun
  obtain ⟨x, hx, hrun⟩ := (Option.any_eq_true _ _).1 hrun
  obtain ⟨s', h, hx⟩ := Option.bind_eq_some_iff.1 hx
  obtain ⟨s₁, stage, hstep, hs₁, hfinal⟩ :=
    final_of_destroy ⟨{}, s₀, _, hs₀, hs⟩ hi (Nat.le_refl s.now)
  obtain rfl := Option.some.inj (h.symm.trans hstep)
  exact ⟨s, s', x, stage, ⟨{}, s₀, _, hs₀, hs⟩, hi, Nat.le_refl _, hdue, hx, of_decide_eq_true hrun,
    h, hs₁, hfinal⟩

/-- A caller waits for a channel that becomes free, and at that instant the machine is destroyed. -/
def waitsUntilFree : List Action :=
  [.call 0 (.start true), .resume 0, .call 0 (.newRequest ⟨.coordinator, 0, 0, 0, []⟩), .resume 1,
    .work, .resume 1, .call 0 (.response 8 none), .resume 2, .work, .resume 2,
    .call 0 (.waitFree (Duration.millis 5000)), .resume 3, .elapse (Duration.millis 200), .work,
    .call 0 .destroy]

/-- Two senders announce a request on the same free channel, and the machine is destroyed a while later. -/
def losesChannel : List Action :=
  [.call 0 (.start true), .resume 0, .call 0 (.send ⟨.node 1, 0, 0, 0, []⟩),
    .call 0 (.send ⟨.node 2, 0, 0, 0, []⟩), .resume 1, .resume 2, .resume 1, .resume 2, .resume 1,
    .resume 2, .work, .resume 1, .resume 1, .resume 2, .work, .resume 2, .elapse (Duration.millis 100),
    .call 0 .destroy]

/-- The announcement of a sender is accepted, and at that instant the machine is destroyed. -/
def winsChannel : List Action :=
  [.call 0 (.start true), .resume 0, .call 0 (.send ⟨.node 1, 0, 0, 0, []⟩), .resume 1, .resume 1,
    .resume 1, .work, .call 0 .destroy]

/-- **Not every call in flight ends** with the reply to its command, or else with the news that the machine
does not run. A caller still finds the channel free for which it was waiting; a sender whose announcement
was refused is back at waiting, and does not end with that refusal; and one whose announcement was accepted
ends as its frame does. -/
theorem ends_otherwise_of_destroy :
    ∃ s₀ : System, Setup.assemble { link := .down } = .ok s₀ ∧
      (∃ s x, s₀.steps waitsUntilFree = some s ∧
        s.callers.drop 3 = [.waitingFree (Duration.millis 5000) (Duration.millis 5000),
          .planned 0 .destroy] ∧
        s.steps [.resume 4, .resume 3] = some x ∧
        x.callers[3]? = some (.finished s.now .done)) ∧
      (∃ s x sending limit giveUp, s₀.steps losesChannel = some s ∧
        s.callers.drop 2 = [.seeking sending limit giveUp, .planned 0 .destroy] ∧
        s.HasHandled 1 (.newRequest sending.request)
          (.error (.contractViolation .newRequest .waitingForConfirmation)) ∧
        s.steps [.resume 3, .work, .resume 2] = some x ∧
        x.callers[2]? = some (.finished s.now (.refused .notRunning))) ∧
      ∃ s x sending p, s₀.steps winsChannel = some s ∧
        s.callers.drop 1 = [.announced sending p, .planned 0 .destroy] ∧
        s.HasHandled p.ticket p.command (.ok .waitingForConfirmation) ∧
        s.steps [.resume 2, .resume 1, .resume 1] = some x ∧
        x.callers[1]? = some (.finished s.now (.refused (.send .transportDown))) := by
  let first : Request := ⟨.node 1, 0, 0, 0, []⟩
  let second : Request := ⟨.node 2, 0, 0, 0, []⟩
  let limit : Duration := Duration.millis 10000
  let p : Pending := ⟨0, .newRequest first, Duration.millis 1000⟩
  obtain ⟨s₀, h₀, hwaits, hloses, hwins⟩ : ∃ s₀, Setup.assemble { link := .down } = .ok s₀ ∧
      ((s₀.steps waitsUntilFree).any fun s =>
        s.callers.drop 3 = [.waitingFree (Duration.millis 5000) (Duration.millis 5000),
          .planned 0 .destroy] ∧
        (s.steps [.resume 4, .resume 3]).any fun x =>
          x.callers[3]? = some (.finished s.now .done)) = true ∧
      ((s₀.steps losesChannel).any fun s =>
        s.callers.drop 2 = [.seeking ⟨second, second.bytes, limit⟩ limit limit, .planned 0 .destroy] ∧
        (∃ pass ∈ passes s.journal, pass.2.deed = .handled 1 (.newRequest second)
          (.error (.contractViolation .newRequest .waitingForConfirmation))) ∧
        (s.steps [.resume 3, .work, .resume 2]).any fun x =>
          x.callers[2]? = some (.finished s.now (.refused .notRunning))) = true ∧
      ((s₀.steps winsChannel).any fun s =>
        s.callers.drop 1 = [.announced ⟨first, first.bytes, limit⟩ p, .planned 0 .destroy] ∧
        (∃ pass ∈ passes s.journal,
          pass.2.deed = .handled p.ticket p.command (.ok .waitingForConfirmation)) ∧
        (s.steps [.resume 2, .resume 1, .resume 1]).any fun x =>
          x.callers[1]? = some (.finished s.now (.refused (.send .transportDown)))) = true :=
    ⟨_, rfl, by decide +kernel, by decide +kernel, by decide +kernel⟩
  refine ⟨s₀, h₀, ?waits, ?loses, ?wins⟩
  case waits =>
    obtain ⟨s, hs, hrun⟩ := (Option.any_eq_true _ _).1 hwaits
    obtain ⟨hcallers, hrun⟩ := of_decide_eq_true hrun
    obtain ⟨x, hx, hend⟩ := (Option.any_eq_true _ _).1 hrun
    exact ⟨s, x, hs, hcallers, hx, of_decide_eq_true hend⟩
  case loses =>
    obtain ⟨s, hs, hrun⟩ := (Option.any_eq_true _ _).1 hloses
    obtain ⟨hcallers, hhandled, hrun⟩ := of_decide_eq_true hrun
    obtain ⟨x, hx, hend⟩ := (Option.any_eq_true _ _).1 hrun
    exact ⟨s, x, _, _, _, hs, hcallers, hhandled, hx, of_decide_eq_true hend⟩
  case wins =>
    obtain ⟨s, hs, hrun⟩ := (Option.any_eq_true _ _).1 hwins
    obtain ⟨hcallers, hhandled, hrun⟩ := of_decide_eq_true hrun
    obtain ⟨x, hx, hend⟩ := (Option.any_eq_true _ _).1 hrun
    exact ⟨s, x, _, _, hs, hcallers, hhandled, hx, of_decide_eq_true hend⟩

end Finality

end System
end MeshExchange
