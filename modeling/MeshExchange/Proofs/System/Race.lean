import Mathlib.Logic.ExistsUnique
import MeshExchange.Proofs.System.History

/-!
# The race between an event and the deadline

An event and the deadline of the wait it belongs to may come at one instant, with any other commands
between them in the queue. The worker looks at the deadline before it empties the slot, so the instant
at which it handles the event decides: before the deadline the event is accepted, from the deadline on
the wait is lost.

**Input.** A system that a run leads to, while it waits for a frame, and any run from there on.

**Method.** Up to the first move of the tracker every command is refused, and the first move either
accepts an event or is the passing of the deadline. What comes after a lost wait is cut once more at
its first move, which can only be a reset.

**Results.**
* `Wait.Ends`: the ways in which a wait ends;
* `Wait.Ends.unique`: no wait ends in two ways;
* `System.Evolves.exists_ends`: every wait ends in one of them, or goes on;
* `System.settles_of_steps`: the race, in every run.
-/

namespace MeshExchange

/-- The two waits for a frame. -/
inductive Wait
  | confirmation
  | response
  deriving DecidableEq, Repr

namespace Pass

/-- Whether a pass tells of a notification. -/
def issues (n : Notification) (x : Pass) : Bool :=
  x.2.deed == .expired n || x.2.notified.any (·.2 == n)

/-- A pass in which a command is accepted and leads to a phase. -/
def AcceptsInto (p : Phase) (x : Pass) : Prop := ∃ ticket c, x.2.deed = .handled ticket c (.ok p)

theorem Refuses.issues_eq_false {p : Phase} {d? : Option Instant} {x : Pass} {n : Notification}
    (hx : x.Refuses p d?) : x.issues n = false := by
  obtain hx | ⟨ticket, c, fault, hx, -⟩ := hx <;> simp [issues, hx]

theorem countP_issues_of_refuses {p : Phase} {d? : Option Instant} {h : List Pass}
    {n : Notification} (hh : ∀ x ∈ h, x.Refuses p d?) : h.countP (issues n) = 0 := by
  refine List.countP_eq_zero.2 fun x hx => ?_
  simp [(hh x hx).issues_eq_false]

end Pass

namespace Wait

section Kinds

/-- The phase of a wait. -/
def phase : Wait → Phase
  | .confirmation => .waitingForConfirmation
  | .response => .waitingForResponse

/-- The phase that a lost wait leads to. -/
def timedOut : Wait → Phase
  | .confirmation => .waitingForConfirmationTimedOut
  | .response => .waitingForResponseTimedOut

/-- What a listener is told of a lost wait. -/
def loss : Wait → Notification
  | .confirmation => .confirmationTimedOut
  | .response => .responseTimedOut

/-- The events that a wait is for. -/
inductive Awaits : Wait → Command → Prop
  | confirmation {receivedAt : Instant} {c : Confirmation} :
      Awaits .confirmation (.confirmationReceived receivedAt c)
  | response {receivedAt : Instant} {length : Nat} :
      Awaits .response (.responseReceived receivedAt length)

end Kinds

section Endings

/-- How a wait stands. -/
inductive Ending
  | undecided
  | answered
  | lost
  deriving DecidableEq, Repr

/-- The wait is over: nobody is told of its loss, unless it is begun anew before. -/
def Over (w : Wait) (h : List Pass) : Prop :=
  ∀ before x after, h = before ++ x :: after → Pass.issues w.loss x = true →
    ∃ y ∈ before, Pass.AcceptsInto w.phase y

/-- A wait was lost: everything is refused, up to the reset. -/
inductive Rests (w : Wait) : List Pass → Prop
  | still {h : List Pass} (hq : ∀ x ∈ h, Pass.Refuses w.timedOut none x) : Rests w h
  | freed {calm more : List Pass} {n : Instant} {ticket : Ticket}
      {heard : Option (Observer × Notification)} (hq : ∀ x ∈ calm, Pass.Refuses w.timedOut none x) :
      Rests w (calm ++ (n, ⟨.handled ticket .resetAfterError (.ok .freeForSend), heard⟩) :: more)

/-- How a wait with a deadline goes on in the passes that follow. -/
inductive Ends (w : Wait) (d : Instant) : List Pass → Ending → Prop
  | undecided {h : List Pass} (hq : ∀ x ∈ h, Pass.Refuses w.phase (some d) x) :
      Ends w d h .undecided
  /-- An event is handled before the deadline. -/
  | answered {quiet rest : List Pass} {n : Instant} {ticket : Ticket} {c : Command} {p : Phase}
      (hq : ∀ x ∈ quiet, Pass.Refuses w.phase (some d) x) (hc : w.Awaits c) (hn : n < d)
      (hr : w.Over rest) :
      Ends w d (quiet ++ (n, ⟨.handled ticket c (.ok p), none⟩) :: rest) .answered
  /-- The deadline passes. -/
  | lost {quiet rest : List Pass} {n : Instant} {heard : Option (Observer × Notification)}
      (hq : ∀ x ∈ quiet, Pass.Refuses w.phase (some d) x) (hn : d ≤ n)
      (hh : ∀ y ∈ heard, y.2 = w.loss) (hs : w.Rests rest) (hr : w.Over rest) :
      Ends w d (quiet ++ (n, ⟨.expired w.loss, heard⟩) :: rest) .lost

/-- How the race between the events and the deadline of a wait is decided in the passes that follow. -/
structure Settles (w : Wait) (d : Instant) (h : List Pass) : Prop where
  /-- An event that is handled at the deadline or later is answered with the timeout, of which there
  was exactly one notification before; unless another command was accepted before it. -/
  late : ∀ before n ticket c reply heard after,
    h = before ++ (n, ⟨.handled ticket c reply, heard⟩) :: after → w.Awaits c → d ≤ n →
    (∀ y ∈ before, ∀ p, ¬ Pass.AcceptsInto p y) →
    before.countP (Pass.issues w.loss) = 1 ∧ reply = .error (.stateTimeout w.timedOut)
  /-- An event that is accepted in the wait was handled before the deadline, and the wait is over. -/
  inTime : ∀ before n ticket c p heard after,
    h = before ++ (n, ⟨.handled ticket c (.ok p), heard⟩) :: after → w.Awaits c →
    (∀ y ∈ before, y.2.deed.isMove = false) → n < d ∧ w.Over after
  ends : ∃! e, w.Ends d h e

end Endings

section Lists

variable {w : Wait} {d : Instant} {h : List Pass} {e e' : Ending}

theorem refusal?_timedOut {c : Command} (hc : w.Awaits c) :
    w.timedOut.refusal? c = some (.stateTimeout w.timedOut) := by
  cases hc <;> rfl

theorem Ends.refuses (he : w.Ends d h .undecided) :
    ∀ x ∈ h, Pass.Refuses w.phase (some d) x := by
  cases he with
  | undecided hq => exact hq

/-- The first move of the tracker in a wait tells how the wait ends. -/
theorem Ends.find?_isMove (he : w.Ends d h e) :
    (e = .undecided ∧ h.find? (·.2.deed.isMove) = none) ∨
      (e = .answered ∧ ∃ n ticket c p heard,
        h.find? (·.2.deed.isMove) = some (n, ⟨.handled ticket c (.ok p), heard⟩)) ∨
      (e = .lost ∧ ∃ n heard,
        h.find? (·.2.deed.isMove) = some (n, ⟨.expired w.loss, heard⟩)) := by
  have hnone {quiet : List Pass} (hq : ∀ x ∈ quiet, x.Refuses w.phase (some d)) :
      quiet.find? (·.2.deed.isMove) = none :=
    List.find?_eq_none.2 fun x hx => by simp [(hq x hx).isMove_eq_false]
  cases he with
  | undecided hq => exact .inl ⟨rfl, hnone hq⟩
  | @answered quiet rest n ticket c p hq =>
      refine .inr (.inl ⟨rfl, n, ticket, c, p, none, ?_⟩)
      rw [List.find?_append, hnone hq]
      rfl
  | @lost quiet rest n heard hq =>
      refine .inr (.inr ⟨rfl, n, heard, ?_⟩)
      rw [List.find?_append, hnone hq]
      rfl

/-- No wait ends in two ways. -/
theorem Ends.unique (he : w.Ends d h e) (he' : w.Ends d h e') : e = e' := by
  rcases he.find?_isMove with ⟨rfl, hf⟩ | ⟨rfl, n, ticket, c, p, heard, hf⟩ | ⟨rfl, n, heard, hf⟩ <;>
    rcases he'.find?_isMove with ⟨rfl, hf'⟩ | ⟨rfl, n', ticket', c', p', heard', hf'⟩ |
      ⟨rfl, n', heard', hf'⟩ <;>
    first
    | rfl
    | simp [hf] at hf'

/-- A lost wait refuses everything up to the reset. -/
theorem Rests.refuses_of_append {mid after : List Pass} {x : Pass}
    (hr : w.Rests (mid ++ x :: after)) (hm : ∀ y ∈ mid, ∀ p, ¬ Pass.AcceptsInto p y)
    (hx : ∀ ticket reply, x.2.deed ≠ .handled ticket .resetAfterError reply) :
    (∀ y ∈ mid, Pass.Refuses w.timedOut none y) ∧ Pass.Refuses w.timedOut none x := by
  generalize hk : mid ++ x :: after = k at hr
  cases hr with
  | still hq =>
      subst hk
      exact ⟨fun y hy => hq y (by simp [hy]), hq x (by simp)⟩
  | @freed calm more n ticket heard hq =>
      rcases Pass.cut_cases hk.symm with ⟨mid', rfl⟩ | ⟨-, rfl, -⟩ | ⟨mid', rfl, -⟩
      · exact ⟨fun y hy => hq y (by simp [hy]), hq x (by simp)⟩
      · exact absurd rfl (hx ticket (.ok .freeForSend))
      · exact absurd ⟨ticket, _, rfl⟩
          (hm (n, ⟨.handled ticket .resetAfterError (.ok .freeForSend), heard⟩) (by simp) _)

theorem Ends.late (he : w.Ends d h e) {before after : List Pass} {n : Instant} {ticket : Ticket}
    {c : Command} {reply : Reply} {heard : Option (Observer × Notification)}
    (hh : h = before ++ (n, ⟨.handled ticket c reply, heard⟩) :: after) (hc : w.Awaits c)
    (hn : d ≤ n) (hb : ∀ y ∈ before, ∀ p, ¬ Pass.AcceptsInto p y) :
    before.countP (Pass.issues w.loss) = 1 ∧ reply = .error (.stateTimeout w.timedOut) := by
  have hquiet : ¬ Pass.Refuses w.phase (some d) (n, ⟨.handled ticket c reply, heard⟩) := by
    rintro (hx | ⟨ticket', c', fault, hx, -, hd⟩)
    · cases hx
    · exact absurd (hd d rfl) (Nat.not_lt.2 hn)
  cases he with
  | undecided hq => exact absurd (hq _ (by simp [hh])) hquiet
  | @answered quiet rest n' ticket' c' p hq _ hlt _ =>
      rcases Pass.cut_cases hh with ⟨mid, rfl⟩ | ⟨-, hx, -⟩ | ⟨mid, rfl, -⟩
      · exact absurd (hq _ (by simp)) hquiet
      · obtain ⟨rfl, -⟩ := Prod.mk.inj hx
        exact absurd hlt (Nat.not_lt.2 hn)
      · exact absurd ⟨ticket', c', rfl⟩ (hb (n', ⟨.handled ticket' c' (.ok p), none⟩) (by simp) p)
  | @lost quiet rest n' heard' hq _ _ hs _ =>
      rcases Pass.cut_cases hh with ⟨mid, rfl⟩ | ⟨-, hx, -⟩ | ⟨mid, rfl, rfl⟩
      · exact absurd (hq _ (by simp)) hquiet
      · cases hx
      · have hm : ∀ y ∈ mid, ∀ p, ¬ Pass.AcceptsInto p y := fun y hy => hb y (by simp [hy])
        obtain ⟨hmid, hx⟩ := hs.refuses_of_append hm (by cases hc <;> simp)
        refine ⟨?_, ?_⟩
        · rw [List.countP_append, List.countP_cons, Pass.countP_issues_of_refuses hq,
            Pass.countP_issues_of_refuses hmid]
          simp [Pass.issues]
        · obtain hx | ⟨ticket', c', fault, hx, hf, -⟩ := hx
          · cases hx
          · cases hx
            rw [refusal?_timedOut hc] at hf
            cases hf
            rfl

theorem Ends.inTime (he : w.Ends d h e) {before after : List Pass} {n : Instant} {ticket : Ticket}
    {c : Command} {p : Phase} {heard : Option (Observer × Notification)}
    (hh : h = before ++ (n, ⟨.handled ticket c (.ok p), heard⟩) :: after)
    (hb : ∀ y ∈ before, y.2.deed.isMove = false) : n < d ∧ w.Over after := by
  have hquiet : ¬ Pass.Refuses w.phase (some d) (n, ⟨.handled ticket c (.ok p), heard⟩) := by
    intro hx
    have := hx.isMove_eq_false
    cases this
  cases he with
  | undecided hq => exact absurd (hq _ (by simp [hh])) hquiet
  | @answered quiet rest n' ticket' c' p' hq _ hlt hr =>
      rcases Pass.cut_cases hh with ⟨mid, rfl⟩ | ⟨-, hx, rfl⟩ | ⟨mid, rfl, -⟩
      · exact absurd (hq _ (by simp)) hquiet
      · obtain ⟨rfl, -⟩ := Prod.mk.inj hx
        exact ⟨hlt, hr⟩
      · have := hb (n', ⟨.handled ticket' c' (.ok p'), none⟩) (by simp)
        cases this
  | @lost quiet rest n' heard' hq _ _ _ _ =>
      rcases Pass.cut_cases hh with ⟨mid, rfl⟩ | ⟨-, hx, -⟩ | ⟨mid, rfl, -⟩
      · exact absurd (hq _ (by simp)) hquiet
      · cases hx
      · have := hb (n', ⟨.expired w.loss, heard'⟩) (by simp)
        cases this

theorem Ends.settles (he : w.Ends d h e) : w.Settles d h where
  late _ _ _ _ _ _ _ hh hc hn hb := he.late hh hc hn hb
  inTime _ _ _ _ _ _ _ hh _ hb := he.inTime hh hb
  ends := ⟨e, he, fun _ he' => he'.unique he⟩

end Lists

section Moves

variable {w : Wait} {t t' : Tracker} {n : Notification}

theorem eq_loss_of_lapses (hw : t.phase = w.phase) (h : t.Lapses n t') :
    n = w.loss ∧ t'.phase = w.timedOut := by
  cases w <;> cases h <;> simp_all [phase, loss, timedOut, Phase.isLinger]

theorem phase_eq_of_loss (h : t.Lapses w.loss t') : t.phase = w.phase := by
  have hn := h.notice?_eq
  cases w <;> cases hp : t.phase <;> rw [hp] at hn <;> cases hn <;> rfl

theorem phase_ne_of_lapses (h : t.Lapses n t') : t'.phase ≠ w.phase := by
  cases h <;> cases w <;> simp [phase, Tracker.initial]

/-- A wait accepts nothing but its events, of which no listener is told. -/
theorem awaits_of_moves {timing : Timing} {now : Instant} {c : Command} (hw : t.phase = w.phase)
    (h : t.Moves timing now c t') :
    w.Awaits c ∧ c.notification? = none ∧ t'.phase ≠ w.phase := by
  cases w with
  | confirmation =>
      cases h with
      | confirmed | spread => exact ⟨.confirmation, rfl, by simp [phase]⟩
      | freed hp => simp [phase] at hw; simp [hw, Phase.isTimedOut] at hp
      | _ => cases hw
  | response =>
      cases h with
      | answered => exact ⟨.response, rfl, by simp [phase]⟩
      | freed hp => simp [phase] at hw; simp [hw, Phase.isTimedOut] at hp
      | _ => cases hw

theorem eq_reset_of_moves {timing : Timing} {now : Instant} {c : Command}
    (hw : t.phase = w.timedOut) (h : t.Moves timing now c t') :
    c = .resetAfterError ∧ t'.phase = .freeForSend := by
  cases h with
  | freed => exact ⟨rfl, rfl⟩
  | _ => cases w <;> cases hw

theorem timedOut_ne_phase (w : Wait) : w.timedOut ≠ w.phase := by
  cases w <;> simp [timedOut, phase]

theorem expectsEvent_phase (w : Wait) : w.phase.expectsEvent = true := by
  cases w <;> rfl

theorem notice?_phase (w : Wait) : w.phase.notice? = some w.loss := by
  cases w <;> rfl

end Moves
end Wait

namespace System

section Waiting

variable {onTime : Prop} {s s' : System} {w : Wait} {h : List Pass}

theorem WorksTo.acceptsInto {turn : Turn Observer} (hw : s.WorksTo turn s')
    (hne : s.machine.tracker.phase ≠ w.phase) (heq : s'.machine.tracker.phase = w.phase) :
    Pass.AcceptsInto w.phase (s.now, turn) := by
  cases hm : turn.deed.isMove with
  | false =>
      rw [hw.machine.tracker_eq hm] at heq
      exact absurd heq hne
  | true =>
      obtain ⟨-, ⟨n, -, -, ht⟩ | ⟨ticket, c, rfl, -, -⟩⟩ := hw.machine.move_cases hm
      · exact absurd heq (Wait.phase_ne_of_lapses ht)
      · exact ⟨ticket, c, by rw [heq]⟩

theorem Evolves.exists_acceptsInto (he : Evolves onTime s h s')
    (hne : s.machine.tracker.phase ≠ w.phase) (heq : s'.machine.tracker.phase = w.phase) :
    ∃ y ∈ h, Pass.AcceptsInto w.phase y := by
  induction he with
  | refl => exact absurd heq hne
  | spare hs _ _ ih => exact ih (hs.machine.tracker ▸ hne) heq
  | @pass s s₁ s' turn h hw he ih =>
      by_cases hp : s₁.machine.tracker.phase = w.phase
      · exact ⟨_, List.mem_cons_self, hw.acceptsInto hne hp⟩
      · obtain ⟨y, hy, hya⟩ := ih hp heq
        exact ⟨y, List.mem_cons_of_mem _ hy, hya⟩

theorem WorksTo.notification?_of_issues {turn : Turn Observer} {n : Notification}
    (hw : s.WorksTo turn s') (hi : Pass.issues n (s.now, turn) = true) :
    turn.deed.notification? = some n := by
  rcases (Bool.or_eq_true _ _).mp hi with hd | hd
  · rw [show turn.deed = .expired n from eq_of_beq hd]
    rfl
  · obtain ⟨y, hy, hn⟩ := (Option.any_eq_true _ _).1 hd
    rw [hw.machine.notified_eq] at hy
    obtain ⟨n', hn', hy⟩ := Option.bind_eq_some_iff.1 hy
    rw [hn', ← Machine.snd_of_mem_audience _ _ hy, eq_of_beq hn]

theorem WorksTo.phase_eq_of_issues {turn : Turn Observer} (hw : s.WorksTo turn s')
    (hi : Pass.issues w.loss (s.now, turn) = true) : s.machine.tracker.phase = w.phase := by
  have hn := hw.notification?_of_issues hi
  obtain ⟨-, ⟨n, rfl, -, ht⟩ | ⟨ticket, c, rfl, -, ht⟩⟩ :=
    hw.machine.move_cases (Deed.isMove_of_notification? hn)
  · cases hn
    exact Wait.phase_eq_of_loss ht
  · have hf := (ht.eq_initial hn).1
    cases w <;> cases hf

/-- A wait that is not begun is over. -/
theorem Evolves.over (he : Evolves onTime s h s') (hne : s.machine.tracker.phase ≠ w.phase) :
    w.Over h := by
  rintro before x after rfl hi
  obtain ⟨s₁, he₁, he₂⟩ := he.split
  obtain ⟨s₂, s₃, he₃, hx, hw, -⟩ := he₂.of_cons
  obtain ⟨n, turn⟩ := x
  obtain rfl : n = s₂.now := hx
  have hrun : Evolves onTime s before s₂ := by
    simpa using he₁.trans he₃
  exact hrun.exists_acceptsInto hne (hw.phase_eq_of_issues hi)

/-- After a lost wait everything is refused up to the reset. -/
theorem Evolves.rests (he : Evolves onTime s h s') (hs : Sound s)
    (hw : s.machine.tracker.phase = w.timedOut) (hd : s.machine.tracker.deadline = none) :
    w.Rests h := by
  rcases he.still_or_move hs with hr | ⟨h₁, s₁, turn, s₂, h₂, rfl, hr, hw₁, hm, -⟩
  · have hq := hr.refuses
    rw [hw, hd] at hq
    exact .still hq
  · have hq := hr.refuses
    rw [hw, hd] at hq
    obtain ⟨-, ⟨n, -, hdue, -⟩ | ⟨ticket, c, rfl, -, ht⟩⟩ := hw₁.machine.move_cases hm
    · obtain ⟨d, hd₁, -⟩ := Tracker.isDue_eq_true_iff.1 hdue
      rw [hr.tracker, hd] at hd₁
      cases hd₁
    · obtain ⟨rfl, hp⟩ := Wait.eq_reset_of_moves (by rw [hr.tracker, hw]) ht
      rw [hp]
      exact .freed hq

/-- **The end of a wait.** -/
theorem Evolves.exists_ends {d : Instant} (he : Evolves onTime s h s') (hs : Sound s)
    (hw : s.machine.tracker.phase = w.phase) (hd : s.machine.tracker.deadline = some d) :
    ∃ e, w.Ends d h e := by
  rcases he.still_or_move hs with hr | ⟨h₁, s₁, turn, s₂, h₂, rfl, hr, hw₁, hm, he₂⟩
  · have hq := hr.refuses
    rw [hw, hd] at hq
    exact ⟨_, .undecided hq⟩
  · have hq := hr.refuses
    have hs₁ := hr.run.sound hs
    have hp : s₁.machine.tracker.phase = w.phase := by
      rw [hr.tracker, hw]
    have hd₁ : s₁.machine.tracker.deadline = some d := by
      rw [hr.tracker, hd]
    rw [hw, hd] at hq
    obtain ⟨-, ⟨n, rfl, hdue, ht⟩ | ⟨ticket, c, rfl, hx, ht⟩⟩ := hw₁.machine.move_cases hm
    · obtain ⟨rfl, hp₂⟩ := Wait.eq_loss_of_lapses hp ht
      obtain ⟨d', hd', hle⟩ := Tracker.isDue_eq_true_iff.1 hdue
      rw [hd₁] at hd'
      cases hd'
      refine ⟨_, .lost hq hle ?_ ?_ ?_⟩
      · exact fun y hy => Machine.snd_of_mem_audience _ _ hy
      · exact he₂.rests (hs₁.of_worksTo hw₁) hp₂ ht.deadline_eq_none
      · exact he₂.over (hp₂ ▸ w.timedOut_ne_phase)
    · obtain ⟨hc, hn, hne⟩ := Wait.awaits_of_moves hp ht
      have hlt := (Machine.dueExpiry_eq_none_iff hs₁.coherent).1 hx d hd₁
      rw [hn]
      exact ⟨_, .answered hq hc hlt (he₂.over hne)⟩

theorem Evolves.lasts {d : Instant} (he : Evolves onTime s h s') (hs : Sound s)
    (hw : s.machine.tracker.phase = w.phase) (hd : s.machine.tracker.deadline = some d)
    (hq : w.Ends d h .undecided) : s'.Lasts w.phase w.loss d := by
  rcases he.still_or_move hs with hr | ⟨h₁, s₁, turn, s₂, h₂, rfl, -, -, hm, -⟩
  · exact (he.sound hs).lasts (hr.tracker ▸ hw) (hr.tracker ▸ hd) w.notice?_phase
  · have hx := (hq.refuses (s₁.now, turn) (by simp)).isMove_eq_false
    rw [hm] at hx
    cases hx

/-- **The race between the events and the deadline of a wait**, in every run. -/
theorem settles_of_steps {w : Wait} {as : List Action} (hs : s.Reachable)
    (hw : s.machine.phase = w.phase) (has : s.steps as = some s') :
    ∃ d h, s.machine.tracker.deadline = some d ∧
      passes s'.journal = passes s.journal ++ h ∧ w.Settles d h ∧
      (w.Ends d h .undecided → s'.Lasts w.phase w.loss d) := by
  have hsound := hs.sound
  have hp : s.machine.tracker.phase = w.phase := by
    rw [← hsound.phase, hw]
  obtain ⟨d, hd⟩ := hsound.coherent.exists_deadline (.inl (hp ▸ w.expectsEvent_phase))
  obtain ⟨h, he, hh⟩ := evolves_of_steps False as has fun hf => hf.elim
  obtain ⟨e, hends⟩ := he.exists_ends hsound hp hd
  exact ⟨d, h, hd, hh, hends.settles, he.lasts hsound hp hd⟩

/-- A confirmation that is handled at the very deadline. -/
theorem settles_of_steps_at_deadline :
    ∃ s s' : System, s.Reachable ∧ s.machine.phase = Wait.confirmation.phase ∧
      s.steps [.call 0 (.confirmation ⟨0, 0, 0⟩ none), .elapse (Duration.millis 500), .resume 2,
        .work, .work] = some s' ∧
      ∃ d h, s.machine.tracker.deadline = some d ∧
        passes s'.journal = passes s.journal ++ h ∧ Wait.confirmation.Settles d h ∧
        (Wait.confirmation.Ends d h .undecided → s'.Lasts Wait.confirmation.phase Wait.confirmation.loss d) := by
  obtain ⟨s₀, hs₀, hrun⟩ : ∃ s₀, Setup.assemble {} = .ok s₀ ∧
      ((s₀.steps [.call 0 (.start true), .call 0 (.newRequest ⟨.node 1, 0, 0, 0, []⟩), .resume 0,
        .resume 1, .work]).any fun s => s.machine.phase = Wait.confirmation.phase ∧
          (s.steps [.call 0 (.confirmation ⟨0, 0, 0⟩ none), .elapse (Duration.millis 500),
            .resume 2, .work, .work]).isSome) = true := ⟨_, rfl, by decide +kernel⟩
  obtain ⟨s, hs, hrun⟩ := (Option.any_eq_true _ _).1 hrun
  obtain ⟨hw, hrun⟩ := of_decide_eq_true hrun
  obtain ⟨s', hs'⟩ := Option.isSome_iff_exists.1 hrun
  have hr : s.Reachable := ⟨{}, s₀, _, hs₀, hs⟩
  exact ⟨s, s', hr, hw, hs', settles_of_steps hr hw hs'⟩

end Waiting

end System
end MeshExchange
