import MeshExchange.Proofs.System.Runs

/-!
# Transitions of the worker

Each pass of the worker leads from one published phase to the next. There are few kinds of them: a pass
that changes nothing, a command that is accepted, and a deadline that ends a phase. Between two requests
that are accepted, one of them has freed the channel.

**Results.**
* `Transition`, `System.transitions`: the passes of a run, with the phases before and after them;
* `Phase.Leads`, `System.leads_of_worksTo`: the kinds of passes;
* `Phase.Runs`, `System.runs_of_steps`: the transitions of a run follow one another;
* `Phase.Runs.countP_frees`: as often as the channel was opened it was freed, but for the last time.
-/

namespace MeshExchange

/-- A pass of the worker between the phases that were published before it and after it. -/
structure Transition where
  before : Phase
  /-- The listener in place when the pass begins. -/
  listener : Option Observer
  turn : Turn Observer
  after : Phase

namespace Transition

/-- Whether a request is accepted. -/
def opens (x : Transition) : Bool :=
  match x.turn.deed with
  | .handled _ (.newRequest _) (.ok _) => true
  | _ => false

/-- Whether a reset is accepted. -/
def resets (x : Transition) : Bool :=
  match x.turn.deed with
  | .handled _ .resetAfterError (.ok _) => true
  | _ => false

/-- Whether a linger ends. -/
def drains (x : Transition) : Bool :=
  match x.turn.deed with
  | .expired _ => x.before.isLinger
  | _ => false

/-- Whether the channel becomes free. -/
def frees (x : Transition) : Bool := x.before ≠ .freeForSend ∧ x.after = .freeForSend

end Transition

namespace Phase

/-- What a pass can make of the published phase. -/
inductive Leads : Phase → Deed → Phase → Prop
  | rests {p : Phase} {d : Deed} (hd : d.isMove = false) : Leads p d p
  | opens {k : Ticket} {r : Request} {p : Phase} (hp : p.expectsEvent = true) :
      Leads .freeForSend (.handled k (.newRequest r) (.ok p)) p
  | confirmed {k : Ticket} {receivedAt : Instant} {c : Confirmation} {p : Phase}
      (hp : p = .waitingForResponse ∨ p = .waitingAfterConfirmation) :
      Leads .waitingForConfirmation (.handled k (.confirmationReceived receivedAt c) (.ok p)) p
  | answered {k : Ticket} {receivedAt : Instant} {length : Nat} :
      Leads .waitingForResponse
        (.handled k (.responseReceived receivedAt length) (.ok .waitingAfterResponse))
        .waitingAfterResponse
  | resets {k : Ticket} {p : Phase} (hp : p.isTimedOut = true) :
      Leads p (.handled k .resetAfterError (.ok .freeForSend)) .freeForSend
  | unconfirmed : Leads .waitingForConfirmation (.expired .confirmationTimedOut)
      .waitingForConfirmationTimedOut
  | unanswered : Leads .waitingForResponse (.expired .responseTimedOut) .waitingForResponseTimedOut
  | drains {p : Phase} (hp : p.isLinger = true) : Leads p (.expired .freeForSend) .freeForSend

/-- Transitions of a run, each from the phase that the one before it led to; whoever is the listener hears
of them. -/
inductive Runs : Phase → List Transition → Phase → Prop
  | nil (p : Phase) : Runs p [] p
  | cons {x : Transition} {xs : List Transition} {p : Phase} (hx : x.before.Leads x.turn.deed x.after)
      (hn : x.turn.notified = x.turn.deed.notification?.bind fun n => x.listener.map fun o => (o, n))
      (h : Runs x.after xs p) : Runs x.before (x :: xs) p

section Freeing

variable {p p' : Phase} {x y : Transition} {xs ys l₁ l₂ l₃ : List Transition}

theorem Runs.append {q : Phase} (h : Runs p xs q) (h' : Runs q ys p') : Runs p (xs ++ ys) p' := by
  induction h with
  | nil => exact h'
  | cons hx hn _ ih => exact .cons hx hn (ih h')

theorem Runs.of_append (h : Runs p (xs ++ ys) p') : ∃ q, Runs p xs q ∧ Runs q ys p' := by
  induction xs generalizing p with
  | nil => exact ⟨p, .nil p, h⟩
  | cons x xs ih =>
      cases h with
      | cons hx hn h =>
          obtain ⟨q, hq, hq'⟩ := ih h
          exact ⟨q, .cons hx hn hq, hq'⟩

/-- How many requests are open in a phase. -/
def openCount (p : Phase) : Nat := if p = .freeForSend then 0 else 1

theorem Leads.count (h : x.before.Leads x.turn.deed x.after) :
    x.opens.toNat + x.before.openCount = x.frees.toNat + x.after.openCount := by
  obtain ⟨before, listener, ⟨deed, heard⟩, after⟩ := x
  dsimp only at h
  cases h with
  | rests hd =>
      cases deed with
      | stopped => simp [Transition.opens, Transition.frees]
      | expired => cases hd
      | handled k c reply =>
          cases reply with
          | ok => cases hd
          | error fault => cases c <;> simp [Transition.opens, Transition.frees]
  | opens hp => cases after <;> simp_all [Transition.opens, Transition.frees, openCount, expectsEvent]
  | confirmed hp => rcases hp with rfl | rfl <;> rfl
  | resets hp => cases before <;> simp_all [Transition.opens, Transition.frees, openCount, isTimedOut]
  | drains hp => cases before <;> simp_all [Transition.opens, Transition.frees, openCount, isLinger]
  | _ => rfl

/-- As often as the channel is opened it is freed, up to what is open before and after. -/
theorem Runs.countP_frees (h : Runs p xs p') :
    xs.countP Transition.opens + p.openCount = xs.countP Transition.frees + p'.openCount := by
  induction h with
  | nil => rfl
  | @cons x xs p' hx _ _ ih =>
      have hcount := hx.count
      rw [List.countP_cons, List.countP_cons]
      cases ho : x.opens <;> cases hf : x.frees <;> simp_all <;> omega

theorem Leads.of_opens (h : x.before.Leads x.turn.deed x.after) (ho : x.opens = true) :
    x.before.openCount = 0 ∧ x.after.openCount = 1 := by
  obtain ⟨before, listener, ⟨deed, heard⟩, after⟩ := x
  dsimp only at h
  cases h with
  | opens hp => cases after <;> simp_all [openCount, expectsEvent]
  | rests hd =>
      unfold Transition.opens at ho
      split at ho
      · next hdeed =>
          dsimp only at hdeed
          rw [hdeed] at hd
          cases hd
      · cases ho
  | _ => cases ho

theorem Leads.notification?_of_frees (h : x.before.Leads x.turn.deed x.after)
    (hf : x.frees = true) : x.turn.deed.notification? = some .freeForSend := by
  obtain ⟨before, listener, ⟨deed, heard⟩, after⟩ := x
  dsimp only at h
  obtain ⟨hne, hafter⟩ := of_decide_eq_true hf
  dsimp only at hne hafter
  subst hafter
  cases h with
  | rests => exact absurd rfl hne
  | opens => exact absurd rfl hne
  | confirmed hp => rcases hp with hp | hp <;> cases hp
  | resets => rfl
  | drains => rfl

/-- **Between two accepted requests** the channel was freed once more often than it was opened. -/
theorem Runs.countP_between (h : Runs p (l₁ ++ x :: l₂ ++ y :: l₃) p') (hx : x.opens = true)
    (hy : y.opens = true) : l₂.countP Transition.frees = l₂.countP Transition.opens + 1 := by
  obtain ⟨q, hq, hq'⟩ := h.of_append
  obtain ⟨q₁, -, hq⟩ := hq.of_append
  cases hq with
  | cons hlx _ hq =>
      cases hq' with
      | cons hly =>
          have hcount := hq.countP_frees
          rw [(hlx.of_opens hx).2, (hly.of_opens hy).1] at hcount
          omega

/-- The listener is told when the channel becomes free. -/
theorem Runs.notified_eq (h : Runs p xs p') (hx : x ∈ xs) (hf : x.frees = true) :
    x.turn.notified = x.listener.map fun o => (o, .freeForSend) := by
  induction h with
  | nil => cases hx
  | @cons y ys p' hy hn _ ih =>
      rcases List.mem_cons.1 hx with rfl | hx
      · rw [hn, hy.notification?_of_frees hf]
        rfl
      · exact ih hx

end Freeing

end Phase

namespace System

section Transitions

variable {s s' : System} {a : Action} {as : List Action} {turn : Turn Observer}

/-- The pass that is made at an action, with the phases before it and after it. -/
def transitions (s : System) (_ : Action) (s' : System) : List Transition :=
  ((passes s'.journal).drop (passes s.journal).length).map fun x =>
    ⟨s.machine.phase, s.machine.listener, x.2, s'.machine.phase⟩

theorem transitions_of_worksTo (hw : s.WorksTo turn s') :
    s.transitions a s' = [⟨s.machine.phase, s.machine.listener, turn, s'.machine.phase⟩] := by
  simp [transitions, hw.passes]

theorem transitions_of_spares (hs : s.Spares s') : s.transitions a s' = [] := by
  simp [transitions, hs.passes]

/-- **The kinds of passes**, by the phases published before and after them. -/
theorem leads_of_worksTo (hs : s.Sound) (hw : s.WorksTo turn s') :
    s.machine.phase.Leads turn.deed s'.machine.phase := by
  have hp := hs.phase
  have hp' := (hs.of_worksTo hw).phase
  have hwork := hw.machine
  generalize s'.machine = m' at hp' hwork
  cases hwork with
  | stops => exact .rests rfl
  | refuses => exact .rests rfl
  | @lapses t n hr hd ht =>
      rw [hp, hp', Machine.announce_tracker]
      generalize s.machine.tracker = t₀ at ht
      cases ht with
      | unconfirmed => exact .unconfirmed
      | unanswered => exact .unanswered
      | drained hl => exact .drains hl
  | @accepts k c mailbox t hr hd hb ht =>
      rw [hp, hp', Machine.announce_tracker]
      dsimp only [Machine.accepted]
      generalize s.machine.tracker = t₀ at ht
      cases ht with
      | asked => exact .opens rfl
      | announced => exact .opens rfl
      | confirmed => exact .confirmed (.inl rfl)
      | spread => exact .confirmed (.inr rfl)
      | answered => exact .answered
      | freed hl => exact .resets hl

/-- **The transitions of a run** follow one another. -/
theorem runs_of_steps (hs : s.Reachable) (has : s.steps as = some s') :
    s.machine.phase.Runs (s.gather transitions as) s'.machine.phase := by
  refine steps_induct (P := fun as s' => s.machine.phase.Runs (s.gather transitions as) s'.machine.phase)
    (.nil _) ?_ has
  intro as x a y hx hstep ih
  rw [gather_concat hx hstep]
  rcases passes_of_step hstep with ⟨ha, -⟩ | ⟨turn, rfl, hw⟩
  · have hspare := step_spares ha hstep
    rw [transitions_of_spares hspare, List.append_nil, hspare.machine.phase]
    exact ih
  · rw [transitions_of_worksTo hw]
    have hlast := Phase.Runs.cons
      (x := ⟨x.machine.phase, x.machine.listener, turn, y.machine.phase⟩)
      (leads_of_worksTo (hs.steps hx).sound hw) hw.machine.notified_eq (.nil _)
    exact ih.append hlast

end Transitions

end System
end MeshExchange
