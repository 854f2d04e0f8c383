import MeshExchange.Tracker.Run

/-!
# How a tracker moves

The operations of a tracker as relations, so that whatever holds of its moves is proved by one case
for each of them and without opening the operations again. A command either moves the tracker along
`Tracker.Moves` or meets the refusal of the phase; the passing of the deadline moves it along
`Tracker.Lapses` or does nothing.

**Results.**
* `Tracker.handle_eq_ok_iff`: the commands that are accepted, and the tracker after them;
* `Tracker.handle_eq_error_iff`: the commands that are refused, and the fault they are answered with,
  which is a matter of the phase alone;
* `Tracker.expire_eq_some_iff`: the passing of the deadline;
* `TrackerRun.step_cases`: what one step makes of a run.
-/

namespace MeshExchange

namespace Phase

/-- The fault that answers a command in a phase; none if the phase allows the command. -/
def refusal? (p : Phase) : Command → Option Fault
  | .newRequest _ =>
      if p = .freeForSend then none else some (.contractViolation .newRequest p)
  | .confirmationReceived _ _ =>
      if p = .waitingForConfirmation then none
      else if p = .waitingForConfirmationTimedOut then some (.stateTimeout p)
      else some (.contractViolation .confirmationReceived p)
  | .responseReceived _ _ =>
      if p = .waitingForResponse then none
      else if p = .waitingForResponseTimedOut then some (.stateTimeout p)
      else some (.contractViolation .responseReceived p)
  | .resetAfterError =>
      if p.isTimedOut then none else some (.contractViolation .resetAfterError p)

section Refusals

variable {p : Phase}

@[simp] theorem refusal?_newRequest_eq_none {r : Request} :
    p.refusal? (.newRequest r) = none ↔ p = .freeForSend := by
  cases p <;> simp [refusal?]

@[simp] theorem refusal?_confirmationReceived_eq_none
    {receivedAt : Instant} {c : Confirmation} :
    p.refusal? (.confirmationReceived receivedAt c) = none ↔ p = .waitingForConfirmation := by
  cases p <;> simp [refusal?]

@[simp] theorem refusal?_responseReceived_eq_none {receivedAt : Instant} {length : Nat} :
    p.refusal? (.responseReceived receivedAt length) = none ↔ p = .waitingForResponse := by
  cases p <;> simp [refusal?]

@[simp] theorem refusal?_resetAfterError_eq_none :
    p.refusal? .resetAfterError = none ↔ p.isTimedOut = true := by
  cases p <;> simp [refusal?, isTimedOut]

theorem eq_of_refusal? {c : Command} {fault : Fault} (h : p.refusal? c = some fault) :
    fault = .contractViolation c.operation p ∨ fault = .stateTimeout p := by
  cases c <;> cases p <;> simp_all [refusal?, isTimedOut, Command.operation]

end Refusals

/-- What a listener is told when a phase ends by itself; none if it does not. -/
def notice? : Phase → Option Notification
  | .waitingForConfirmation => some .confirmationTimedOut
  | .waitingForResponse => some .responseTimedOut
  | .waitingAfterConfirmation | .waitingAfterResponse => some .freeForSend
  | .freeForSend | .waitingForConfirmationTimedOut | .waitingForResponseTimedOut => none

end Phase

namespace Tracker

section Relations

/-- How a command that is accepted moves a tracker. -/
inductive Moves (timing : Timing) (now : Instant) : Tracker → Command → Tracker → Prop
  /-- A request to the coordinator, which confirms nothing. -/
  | asked {e : Exchange} {d : Option Instant} {r : Request} (hr : r.isForCoordinator = true) :
      Moves timing now ⟨.freeForSend, e, d⟩ (.newRequest r)
        ⟨.waitingForResponse, .ofRequest r, some (now + Budget.response timing none)⟩
  /-- A request into the mesh. -/
  | announced {e : Exchange} {d : Option Instant} {r : Request}
      (hr : r.isForCoordinator = false) :
      Moves timing now ⟨.freeForSend, e, d⟩ (.newRequest r)
        ⟨.waitingForConfirmation, .ofRequest r, some (now + Budget.confirmation timing true)⟩
  /-- The confirmation of a request that is answered. -/
  | confirmed {e : Exchange} {d : Option Instant} {receivedAt : Instant} {c : Confirmation}
      (he : e.awaitsResponse = true) :
      Moves timing now ⟨.waitingForConfirmation, e, d⟩ (.confirmationReceived receivedAt c)
        ⟨.waitingForResponse, e.confirm receivedAt c,
          some (now + Budget.response timing (some c))⟩
  /-- The confirmation of a broadcast. -/
  | spread {e : Exchange} {d : Option Instant} {receivedAt : Instant} {c : Confirmation}
      (he : e.awaitsResponse = false) :
      Moves timing now ⟨.waitingForConfirmation, e, d⟩ (.confirmationReceived receivedAt c)
        ⟨.waitingAfterConfirmation, e.confirm receivedAt c,
          some (now + Budget.afterConfirmation c receivedAt now)⟩
  | answered {e : Exchange} {d : Option Instant} {receivedAt : Instant} {length : Nat} :
      Moves timing now ⟨.waitingForResponse, e, d⟩ (.responseReceived receivedAt length)
        ⟨.waitingAfterResponse, e.respond receivedAt length,
          some (now + Budget.afterResponse e.confirmation length receivedAt now)⟩
  | freed {p : Phase} {e : Exchange} {d : Option Instant} (hp : p.isTimedOut = true) :
      Moves timing now ⟨p, e, d⟩ .resetAfterError initial

/-- How the passing of its deadline moves a tracker, and what a listener is told. -/
inductive Lapses : Tracker → Notification → Tracker → Prop
  | unconfirmed {e : Exchange} {d : Instant} :
      Lapses ⟨.waitingForConfirmation, e, some d⟩ .confirmationTimedOut
        ⟨.waitingForConfirmationTimedOut, e, none⟩
  | unanswered {e : Exchange} {d : Instant} :
      Lapses ⟨.waitingForResponse, e, some d⟩ .responseTimedOut
        ⟨.waitingForResponseTimedOut, e, none⟩
  | drained {p : Phase} {e : Exchange} {d : Instant} (hp : p.isLinger = true) :
      Lapses ⟨p, e, some d⟩ .freeForSend initial

end Relations

section Commands

variable {timing : Timing} {now : Instant} {t t' : Tracker} {c : Command} {fault : Fault}

/-- A command is refused for its phase, whatever else the tracker holds. -/
theorem handle_of_refusal (h : t.phase.refusal? c = some fault) :
    t.handle timing now c = .error fault := by
  cases c with
  | newRequest r =>
      simp only [Phase.refusal?] at h
      split at h
      · cases h
      · cases h
        simp [handle, newRequest, Phase.allowsRequest, *, bind, Except.bind]
  | confirmationReceived receivedAt c =>
      simp only [Phase.refusal?] at h
      split at h
      · cases h
      · split at h <;> cases h <;>
          simp [handle, confirmationReceived, Phase.allowsEvent, *, bind, Except.bind]
  | responseReceived receivedAt length =>
      simp only [Phase.refusal?] at h
      split at h
      · cases h
      · split at h <;> cases h <;>
          simp [handle, responseReceived, Phase.allowsEvent, *, bind, Except.bind]
  | resetAfterError =>
      simp only [Phase.refusal?] at h
      split at h
      · cases h
      · cases h
        simp [handle, resetAfterError, Phase.allowsReset, *, bind, Except.bind]

/-- A command that the phase allows moves the tracker. -/
theorem exists_moves_of_refusal_eq_none (timing : Timing) (now : Instant)
    (h : t.phase.refusal? c = none) :
    ∃ t', Moves timing now t c t' ∧ t.handle timing now c = .ok t' := by
  obtain ⟨p, e, d⟩ := t
  cases c with
  | newRequest r =>
      have hp : p = .freeForSend := by
        simpa using h
      subst hp
      cases hr : r.isForCoordinator with
      | true =>
          refine ⟨_, .asked hr, ?_⟩
          simp only [handle, newRequest, Exchange.ofRequest, hr]
          rfl
      | false =>
          refine ⟨_, .announced hr, ?_⟩
          simp only [handle, newRequest, Exchange.ofRequest, hr]
          rfl
  | confirmationReceived receivedAt c =>
      have hp : p = .waitingForConfirmation := by
        simpa using h
      subst hp
      cases he : e.awaitsResponse with
      | true =>
          refine ⟨_, .confirmed he, ?_⟩
          simp only [handle, confirmationReceived, Exchange.confirm, he]
          rfl
      | false =>
          refine ⟨_, .spread he, ?_⟩
          simp only [handle, confirmationReceived, Exchange.confirm, he]
          rfl
  | responseReceived receivedAt length =>
      have hp : p = .waitingForResponse := by
        simpa using h
      subst hp
      exact ⟨_, .answered, rfl⟩
  | resetAfterError =>
      have hp : p.isTimedOut = true := by
        simpa using h
      refine ⟨_, .freed hp, ?_⟩
      simp only [handle, resetAfterError, Phase.allowsReset, hp]
      rfl

/-- **The refused commands.** -/
theorem handle_eq_error_iff :
    t.handle timing now c = .error fault ↔ t.phase.refusal? c = some fault := by
  constructor
  · intro h
    cases hr : t.phase.refusal? c with
    | none =>
        obtain ⟨t', -, ht'⟩ := exists_moves_of_refusal_eq_none timing now hr
        rw [h] at ht'
        cases ht'
    | some fault' =>
        rw [handle_of_refusal hr] at h
        cases h
        rfl
  · exact handle_of_refusal

theorem Moves.refusal?_eq_none (h : Moves timing now t c t') : t.phase.refusal? c = none := by
  cases h <;> simp [*]

theorem Moves.isLinger_eq_false (h : Moves timing now t c t') : t.phase.isLinger = false := by
  cases h with
  | @freed p e d hp => cases p <;> first | rfl | cases hp
  | _ => rfl

theorem Moves.unique {t₁ t₂ : Tracker} (h₁ : Moves timing now t c t₁)
    (h₂ : Moves timing now t c t₂) : t₁ = t₂ := by
  cases h₁ <;> cases h₂ <;> simp_all

/-- Whatever a listener is told of when a command is accepted, the channel is free. -/
theorem Moves.eq_initial {n : Notification} (h : Moves timing now t c t')
    (hn : c.notification? = some n) : n = .freeForSend ∧ t' = initial := by
  cases h with
  | freed =>
      cases hn
      exact ⟨rfl, rfl⟩
  | _ => cases hn

/-- **The accepted commands.** -/
theorem handle_eq_ok_iff : t.handle timing now c = .ok t' ↔ Moves timing now t c t' := by
  constructor
  · intro h
    cases hr : t.phase.refusal? c with
    | none =>
        obtain ⟨t₁, hm, ht₁⟩ := exists_moves_of_refusal_eq_none timing now hr
        rw [h] at ht₁
        cases ht₁
        exact hm
    | some fault =>
        rw [handle_of_refusal hr] at h
        cases h
  · intro h
    obtain ⟨t₁, hm, ht₁⟩ := exists_moves_of_refusal_eq_none timing now h.refusal?_eq_none
    rw [h.unique hm]
    exact ht₁

end Commands

section Deadline

variable {t t' : Tracker} {n : Notification}

/-- **The passing of the deadline.** -/
theorem expire_eq_some_iff : t.expire = some (t', n) ↔ Lapses t n t' := by
  constructor
  · intro h
    obtain ⟨p, e, d⟩ := t
    cases d with
    | none => cases h
    | some d =>
        cases p with
        | freeForSend => cases h
        | waitingForConfirmation =>
            cases h
            exact .unconfirmed
        | waitingForConfirmationTimedOut => cases h
        | waitingAfterConfirmation =>
            cases h
            exact .drained rfl
        | waitingForResponse =>
            cases h
            exact .unanswered
        | waitingForResponseTimedOut => cases h
        | waitingAfterResponse =>
            cases h
            exact .drained rfl
  · intro h
    cases h with
    | unconfirmed => rfl
    | unanswered => rfl
    | @drained p e d hp =>
        cases p <;> first | rfl | cases hp

theorem Lapses.deadline_eq_none (h : Lapses t n t') : t'.deadline = none := by
  cases h <;> rfl

theorem Lapses.eq_initial (h : Lapses t .freeForSend t') : t' = initial := by
  cases h with
  | drained => rfl

theorem Lapses.notice?_eq (h : Lapses t n t') : t.phase.notice? = some n := by
  cases h with
  | unconfirmed => rfl
  | unanswered => rfl
  | @drained p e d hp => cases p <;> first | rfl | cases hp

end Deadline

end Tracker

namespace TrackerRun

/-- **One step of a run** is a command that is accepted, or the passing of the deadline, or moves
nothing. -/
theorem step_cases (r : TrackerRun) (s : TrackerStep) :
    (∃ c now t, s = .command c now ∧ Tracker.Moves r.timing now r.tracker c t ∧
        r.step s = (.moved t.phase c.notification?, { r with tracker := t })) ∨
      (∃ n t, s = .expire ∧ Tracker.Lapses r.tracker n t ∧
        r.step s = (.moved t.phase (some n), { r with tracker := t })) ∨
      ((r.step s).2.tracker = r.tracker ∧ ∀ p n, (r.step s).1 ≠ .moved p n) := by
  cases s with
  | setTiming timing => exact .inr (.inr ⟨rfl, fun p n => by simp [step]⟩)
  | command c now =>
      cases h : r.tracker.handle r.timing now c with
      | ok t =>
          exact .inl ⟨c, now, t, rfl, Tracker.handle_eq_ok_iff.1 h, by simp [step, h]⟩
      | error fault =>
          exact .inr (.inr ⟨by simp [step, h], fun p n => by simp [step, h]⟩)
  | expire =>
      cases h : r.tracker.expire with
      | some x =>
          obtain ⟨t, n⟩ := x
          exact .inr (.inl ⟨n, t, rfl, Tracker.expire_eq_some_iff.1 h, by simp [step, h]⟩)
      | none =>
          exact .inr (.inr ⟨by simp [step, h], fun p n => by simp [step, h]⟩)

end TrackerRun
end MeshExchange
