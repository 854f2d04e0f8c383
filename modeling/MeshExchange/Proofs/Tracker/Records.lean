import MeshExchange.Proofs.Tracker.Coherence

/-!
# What is on record in each phase

The fields of a tracker one by one: which of them the phase determines, and which class of requests it
admits. A free channel determines all of them, so that no exchange leaves a trace in a later one.

**Input.** Any list of steps of a tracker that starts on a free channel: commands with any arguments at
any instants, which need not be in order, expiries at any time, and any change of the times in between.

**Results.**
* `Phase.Serves`: the requests that an exchange in a phase can be about;
* `Tracker.WellFormed`: the fields of a tracker as its phase has them;
* `TrackerRun.wellFormed_of_steps`: every run keeps them so, and a deadline never passes in vain;
* `TrackerRun.trace_append`: the trace of a run, cut anywhere;
* `TrackerRun.trace_eq_of_freeForSend`: two runs that have freed the channel go on alike.
-/

namespace MeshExchange

/-- The requests that an exchange in a phase can be about. -/
def Phase.Serves : Phase → Request → Prop
  | .freeForSend, _ => False
  | .waitingForConfirmation, r | .waitingForConfirmationTimedOut, r => r.isForCoordinator = false
  | .waitingAfterConfirmation, r => r.isBroadcast = true
  | .waitingForResponse, r | .waitingForResponseTimedOut, r | .waitingAfterResponse, r =>
      r.isBroadcast = false

/-- The coordinator is one node, so what is addressed to it is no broadcast. -/
theorem Request.isBroadcast_of_isForCoordinator {r : Request} (h : r.isForCoordinator = true) :
    r.isBroadcast = false := by
  cases hb : r.isBroadcast with
  | false => rfl
  | true =>
      rw [isForCoordinator_of_isBroadcast hb] at h
      cases h

namespace Exchange

/-- The exchange of a request, as far as the request determines it. -/
structure IsFor (e : Exchange) (r : Request) : Prop where
  request : e.request = some r
  expectsConfirmation : e.expectsConfirmation = !r.isForCoordinator
  awaitsResponse : e.awaitsResponse = !r.isBroadcast

variable {e : Exchange} {r : Request} {receivedAt : Instant}

theorem isFor_ofRequest (r : Request) : (ofRequest r).IsFor r := ⟨rfl, rfl, rfl⟩

theorem IsFor.confirm (h : e.IsFor r) (receivedAt : Instant) (c : Confirmation) :
    (e.confirm receivedAt c).IsFor r :=
  ⟨h.request, h.expectsConfirmation, h.awaitsResponse⟩

theorem IsFor.respond (h : e.IsFor r) (receivedAt : Instant) (length : Nat) :
    (e.respond receivedAt length).IsFor r :=
  ⟨h.request, h.expectsConfirmation, h.awaitsResponse⟩

/-- What is on record while the response is awaited. -/
structure Unanswered (e : Exchange) (r : Request) : Prop extends e.IsFor r where
  isBroadcast : r.isBroadcast = false
  confirmation : e.confirmation.isSome = e.expectsConfirmation
  confirmedAt : e.confirmation.isSome = e.confirmedAt.isSome
  respondedAt : e.respondedAt = none
  responseLength : e.responseLength = 0

theorem Awaits.unanswered (h : e.Awaits r) : e.Unanswered r := by
  cases h with
  | asked hr =>
      exact ⟨isFor_ofRequest r, Request.isBroadcast_of_isForCoordinator hr,
        by simp [ofRequest, hr], rfl, rfl, rfl⟩
  | confirmed hr hb =>
      exact ⟨(isFor_ofRequest r).confirm _ _, hb, by simp [ofRequest, confirm, hr], rfl, rfl, rfl⟩

end Exchange

namespace Tracker

/-- The fields of a tracker as its phase has them. -/
structure WellFormed (t : Tracker) : Prop where
  /-- A phase that expects an event, or lingers, ends by itself; no other does. -/
  deadline : t.deadline.isSome = true ↔ t.phase.expectsEvent = true ∨ t.phase.isLinger = true
  consistent : t.exchange.isConsistent t.phase = true
  active : t.phase ≠ .freeForSend → ∃ r, t.exchange.IsFor r ∧ t.phase.Serves r
  confirmedAt : t.exchange.confirmation.isSome = t.exchange.confirmedAt.isSome
  respondedAt : t.exchange.respondedAt.isSome = true ↔ t.phase = .waitingAfterResponse
  responseLength : t.phase ≠ .waitingAfterResponse → t.exchange.responseLength = 0

theorem Coherent.wellFormed {t : Tracker} (ht : t.Coherent) : t.WellFormed := by
  cases ht with
  | free => exact ⟨by decide, rfl, fun h => absurd rfl h, rfl, by decide, fun _ => rfl⟩
  | confirming hr =>
      exact ⟨by simp [Phase.expectsEvent], rfl, fun _ => ⟨_, Exchange.isFor_ofRequest _, hr⟩, rfl,
        by simp [Exchange.ofRequest], fun _ => rfl⟩
  | unconfirmed hr =>
      exact ⟨by simp [Phase.expectsEvent, Phase.isLinger], rfl,
        fun _ => ⟨_, Exchange.isFor_ofRequest _, hr⟩, rfl, by simp [Exchange.ofRequest],
        fun _ => rfl⟩
  | spread hb =>
      exact ⟨by simp [Phase.isLinger], rfl,
        fun _ => ⟨_, (Exchange.isFor_ofRequest _).confirm _ _, hb⟩, rfl,
        by simp [Exchange.ofRequest, Exchange.confirm], fun _ => rfl⟩
  | responding he =>
      have hu := he.unanswered
      exact ⟨by simp [Phase.expectsEvent], by simp [Exchange.isConsistent, hu.confirmation],
        fun _ => ⟨_, hu.toIsFor, hu.isBroadcast⟩, hu.confirmedAt, by simp [hu.respondedAt],
        fun _ => hu.responseLength⟩
  | unanswered he =>
      have hu := he.unanswered
      exact ⟨by simp [Phase.expectsEvent, Phase.isLinger],
        by simp [Exchange.isConsistent, hu.confirmation],
        fun _ => ⟨_, hu.toIsFor, hu.isBroadcast⟩, hu.confirmedAt, by simp [hu.respondedAt],
        fun _ => hu.responseLength⟩
  | answered he =>
      have hu := he.unanswered
      exact ⟨by simp [Phase.isLinger],
        by simp [Exchange.isConsistent, Exchange.respond, hu.confirmation],
        fun _ => ⟨_, hu.toIsFor.respond _ _, hu.isBroadcast⟩, hu.confirmedAt,
        by simp [Exchange.respond], fun h => absurd rfl h⟩

/-- The passing of a deadline is lost only on a tracker that has none. -/
theorem WellFormed.deadline_eq_none {t : Tracker} (ht : t.WellFormed) (hx : t.expire = none) :
    t.deadline = none := by
  obtain ⟨p, e, d⟩ := t
  cases d with
  | none => rfl
  | some d =>
      have hp : p.expectsEvent = true ∨ p.isLinger = true := ht.deadline.1 rfl
      cases p with
      | waitingForConfirmation => cases hx
      | waitingForResponse => cases hx
      | waitingAfterConfirmation => cases hx
      | waitingAfterResponse => cases hx
      | _ => simp [Phase.expectsEvent, Phase.isLinger] at hp

end Tracker

namespace TrackerRun

/-- **The representation invariant.** Whatever happens to a tracker, its fields are as its phase has
them, and the passing of a deadline is lost only where there is none. -/
theorem wellFormed_of_steps (timing : Timing) (steps : List TrackerStep) :
    let t := ((⟨timing, .initial⟩ : TrackerRun).after steps).tracker
    t.WellFormed ∧ (t.expire = none → t.deadline = none) := by
  have ht := (after_coherent (r := ⟨timing, .initial⟩) .free steps).wellFormed
  exact ⟨ht, ht.deadline_eq_none⟩

section Traces

@[simp] theorem length_trace (r : TrackerRun) (steps : List TrackerStep) :
    (r.trace steps).length = steps.length := by
  induction steps generalizing r with
  | nil => rfl
  | cons s steps ih => exact congrArg (· + 1) (ih (r.step s).2)

/-- The trace of a run, cut anywhere. -/
theorem trace_append (r : TrackerRun) (steps rest : List TrackerStep) :
    r.trace (steps ++ rest) = r.trace steps ++ (r.after steps).trace rest := by
  induction steps generalizing r with
  | nil => rfl
  | cons s steps ih => exact congrArg (r.step s :: ·) (ih (r.step s).2)

/-- What a run goes on with, once its first steps are done. -/
theorem drop_trace_append (r : TrackerRun) (steps rest : List TrackerStep) :
    (r.trace (steps ++ rest)).drop steps.length = (r.after steps).trace rest := by
  rw [trace_append, List.drop_left' (length_trace r steps)]

end Traces

/-- **No leak between exchanges.** A run that has freed the channel has left nothing behind, and two
such runs go on alike: with the same times and the same steps they have the same outcomes,
notifications and trackers. -/
theorem trace_eq_of_freeForSend {timing₁ timing₂ : Timing} {steps₁ steps₂ : List TrackerStep}
    (h₁ : ((⟨timing₁, .initial⟩ : TrackerRun).after steps₁).tracker.phase = .freeForSend)
    (h₂ : ((⟨timing₂, .initial⟩ : TrackerRun).after steps₂).tracker.phase = .freeForSend) :
    ((⟨timing₁, .initial⟩ : TrackerRun).after steps₁).tracker = .initial ∧
      ((⟨timing₂, .initial⟩ : TrackerRun).after steps₂).tracker = .initial ∧
      ∀ timing rest,
        ((⟨timing₁, .initial⟩ : TrackerRun).trace (steps₁ ++ .setTiming timing :: rest)).drop
            steps₁.length =
          ((⟨timing₂, .initial⟩ : TrackerRun).trace (steps₂ ++ .setTiming timing :: rest)).drop
            steps₂.length := by
  have hi₁ := (after_coherent (r := ⟨timing₁, .initial⟩) .free steps₁).eq_initial h₁
  have hi₂ := (after_coherent (r := ⟨timing₂, .initial⟩) .free steps₂).eq_initial h₂
  refine ⟨hi₁, hi₂, fun timing rest => ?_⟩
  -- The times are set first, so that what is left of the runs before them is the tracker alone.
  rw [drop_trace_append, drop_trace_append]
  simp only [trace, step, hi₁, hi₂]

/-- One run whose exchange was answered while two commands were refused, and one whose exchange went
unconfirmed. -/
theorem trace_eq_of_freeForSend_of_reset :
    let r : Request := { address := .node 3, peripheral := 6, command := 1 }
    let answered : List TrackerStep :=
      [.command (.newRequest r) 5, .command .resetAfterError 6,
        .command (.confirmationReceived 7 ⟨2, 4, 3⟩) 7, .command (.newRequest r) 8,
        .command (.responseReceived 9 12) 9, .expire]
    let unconfirmed : List TrackerStep :=
      [.command (.newRequest r) 5, .expire, .command .resetAfterError 3]
    ((⟨{}, .initial⟩ : TrackerRun).after answered).tracker.phase = .freeForSend ∧
      ((⟨{}, .initial⟩ : TrackerRun).after unconfirmed).tracker.phase = .freeForSend ∧
      ((⟨{}, .initial⟩ : TrackerRun).trace
          (answered ++ [.setTiming {}, .command (.newRequest r) 40])).drop 6 =
        ((⟨{}, .initial⟩ : TrackerRun).trace
          (unconfirmed ++ [.setTiming {}, .command (.newRequest r) 40])).drop 3 := by
  intro r answered unconfirmed
  have ha : ((⟨{}, .initial⟩ : TrackerRun).after answered).tracker.phase = .freeForSend := by
    decide
  have hu : ((⟨{}, .initial⟩ : TrackerRun).after unconfirmed).tracker.phase = .freeForSend := by
    decide
  exact ⟨ha, hu, (trace_eq_of_freeForSend ha hu).2.2 {} _⟩

end TrackerRun
end MeshExchange
