import Mathlib.Data.Finset.Dedup
import Mathlib.Data.Finset.Order
import MeshExchange.Proofs.Mesh.Wire
import MeshExchange.Proofs.Script.Ledger
import MeshExchange.Proofs.System.Linger

/-!
# The course of an exchange

What becomes of a request that is sent on the simulated mesh: which phases the channel goes through, from
which instant on, and what the frames that come back are answered. All of it follows from the settings,
the behaviour of the mesh and the request.

**Method.** A bare tracker takes in each frame when it is due, after a deadline that has come by then.
The course says in advance what comes of it; the two are compared branch by branch.

**Results.**
* `Behaviour.course`: the phases and the answers, with their instants;
* `Standing.feed`: frames that are taken in one after the other;
* `Behaviour.takes`: a bare tracker goes through the course, at every instant;
* `Behaviour.feed_deliveries_snd`: what the frames are answered, all of them.
-/

namespace MeshExchange

/-- The phases of an exchange, each with the instant from which it lasts, and the answers to the frames
that come back, each with its instant. -/
structure Course where
  phases : List (Instant × Phase)
  outcomes : List (Instant × Reply)
  deriving DecidableEq, Repr

namespace Course

/-- The phase at an instant. Before the exchange the channel is free. -/
def phaseAt (c : Course) (n : Instant) : Phase :=
  ((c.phases.filter (·.1 ≤ n)).getLast?.map (·.2)).getD .freeForSend

/-- The answers up to an instant. -/
def outcomesBy (c : Course) (n : Instant) : List Reply := (c.outcomes.filter (·.1 ≤ n)).map (·.2)

end Course

/-- The phase that an accepted request leads to. -/
def Request.opening (r : Request) : Phase :=
  if r.isForCoordinator then .waitingForResponse else .waitingForConfirmation

namespace Behaviour

/-- **The course of an exchange** whose request is sent at an instant. -/
def course (b : Behaviour) (timing : Timing) (r : Request) (sentAt : Instant) : Course :=
  let margin := Duration.millis 100
  let length := 8 + b.responseData.length
  if r.isForCoordinator then
    let answeredAt := sentAt + b.responseDelay
    let limit := timing.responseBase + margin
    if b.dropResponse = false ∧ b.responseDelay < limit then
      { phases := [(sentAt, .waitingForResponse), (answeredAt, .waitingAfterResponse),
          (answeredAt + Confirmation.exchangeAirTime length none, .freeForSend)]
        outcomes := [(answeredAt, .ok .waitingAfterResponse)] }
    else
      { phases := [(sentAt, .waitingForResponse), (sentAt + limit, .waitingForResponseTimedOut)]
        outcomes :=
          if b.dropResponse then []
          else [(answeredAt, .error (.stateTimeout .waitingForResponseTimedOut))] }
  else
    let confirmedAt := sentAt + b.confirmationDelay
    let answeredAt := confirmedAt + b.responseDelay
    if b.dropConfirmation ∨ timing.confirmationWait ≤ b.confirmationDelay then
      { phases := [(sentAt, .waitingForConfirmation),
          (sentAt + timing.confirmationWait, .waitingForConfirmationTimedOut)]
        outcomes :=
          if b.dropConfirmation then []
          else (confirmedAt, .error (.stateTimeout .waitingForConfirmationTimedOut)) ::
            if r.isBroadcast ∨ b.dropResponse then []
            else [(answeredAt, .error
              (.contractViolation .responseReceived .waitingForConfirmationTimedOut))] }
    else if r.isBroadcast then
      { phases := [(sentAt, .waitingForConfirmation), (confirmedAt, .waitingAfterConfirmation),
          (confirmedAt + b.confirmation.airTime, .freeForSend)]
        outcomes := [(confirmedAt, .ok .waitingAfterConfirmation)] }
    else
      let limit := timing.responseBase + b.confirmation.airTime + margin
      if b.dropResponse = false ∧ b.responseDelay < limit then
        { phases := [(sentAt, .waitingForConfirmation), (confirmedAt, .waitingForResponse),
            (answeredAt, .waitingAfterResponse),
            (answeredAt + Confirmation.exchangeAirTime length (some b.confirmation), .freeForSend)]
          outcomes := [(confirmedAt, .ok .waitingForResponse),
            (answeredAt, .ok .waitingAfterResponse)] }
      else
        { phases := [(sentAt, .waitingForConfirmation), (confirmedAt, .waitingForResponse),
            (confirmedAt + limit, .waitingForResponseTimedOut)]
          outcomes := (confirmedAt, .ok .waitingForResponse) ::
            if b.dropResponse then []
            else [(answeredAt, .error (.stateTimeout .waitingForResponseTimedOut))] }

end Behaviour

namespace Standing

variable {timing : Timing} {x : Standing} {e : Exchange} {d t n : Instant} {ns : List Notification}

section Feeding

/-- A delivery is taken in when it is due; a deadline that has come by then passes before. -/
def receive (timing : Timing) (x : Standing) (d : Delivery) : Standing × Reply :=
  match d.command with
  | .ok c => (x.lapse d.due).obey timing d.due c
  | .error fault => (x, .error fault)

/-- Deliveries that are taken in one after the other. -/
def feed (timing : Timing) (x : Standing) : List Delivery → Standing × List Reply
  | [] => (x, [])
  | d :: ds =>
      let (x, reply) := x.receive timing d
      let (x, replies) := feed timing x ds
      (x, reply :: replies)

@[simp] theorem feed_nil : feed timing x [] = (x, []) := rfl

theorem feed_cons {d : Delivery} {ds : List Delivery} :
    feed timing x (d :: ds) =
      ((feed timing (x.receive timing d).1 ds).1,
        (x.receive timing d).2 :: (feed timing (x.receive timing d).1 ds).2) := rfl

theorem feed_append {ds ds' : List Delivery} :
    feed timing x (ds ++ ds') =
      ((feed timing (feed timing x ds).1 ds').1,
        (feed timing x ds).2 ++ (feed timing (feed timing x ds).1 ds').2) := by
  induction ds generalizing x with
  | nil => rfl
  | cons d ds ih =>
      rw [List.cons_append, feed_cons, feed_cons, ih]
      rfl

end Feeding

section Lapsing

theorem lapse_of_lt {p : Phase} (h : n < d) :
    lapse n ⟨⟨p, e, some d⟩, ns⟩ = ⟨⟨p, e, some d⟩, ns⟩ :=
  lapse_eq_self (by simp [Tracker.isDue, Nat.not_le.2 h])

theorem lapse_waitingForConfirmation (h : d ≤ n) :
    lapse n ⟨⟨.waitingForConfirmation, e, some d⟩, ns⟩ =
      ⟨⟨.waitingForConfirmationTimedOut, e, none⟩, ns ++ [.confirmationTimedOut]⟩ := by
  simp [lapse, Tracker.isDue, Tracker.expire, h]

theorem lapse_waitingForResponse (h : d ≤ n) :
    lapse n ⟨⟨.waitingForResponse, e, some d⟩, ns⟩ =
      ⟨⟨.waitingForResponseTimedOut, e, none⟩, ns ++ [.responseTimedOut]⟩ := by
  simp [lapse, Tracker.isDue, Tracker.expire, h]

theorem lapse_linger {p : Phase} (hp : p.isLinger = true) (h : d ≤ n) :
    lapse n ⟨⟨p, e, some d⟩, ns⟩ = ⟨.initial, ns ++ [.freeForSend]⟩ := by
  cases p <;> simp_all [lapse, Tracker.isDue, Tracker.expire, Phase.isLinger]

@[simp] theorem lapse_of_none {p : Phase} :
    lapse n ⟨⟨p, e, none⟩, ns⟩ = ⟨⟨p, e, none⟩, ns⟩ :=
  lapse_of_deadline_eq_none rfl

/-- The phase of a tracker that waits for a confirmation. -/
theorem phase_lapse_waitingForConfirmation :
    (lapse n ⟨⟨.waitingForConfirmation, e, some d⟩, ns⟩).tracker.phase =
      if d ≤ n then .waitingForConfirmationTimedOut else .waitingForConfirmation := by
  split
  · next h => rw [lapse_waitingForConfirmation h]
  · next h => rw [lapse_of_lt (Nat.lt_of_not_le h)]

theorem phase_lapse_waitingForResponse :
    (lapse n ⟨⟨.waitingForResponse, e, some d⟩, ns⟩).tracker.phase =
      if d ≤ n then .waitingForResponseTimedOut else .waitingForResponse := by
  split
  · next h => rw [lapse_waitingForResponse h]
  · next h => rw [lapse_of_lt (Nat.lt_of_not_le h)]

theorem phase_lapse_linger {p : Phase} (hp : p.isLinger = true) :
    (lapse n ⟨⟨p, e, some d⟩, ns⟩).tracker.phase = if d ≤ n then .freeForSend else p := by
  split
  · next h =>
      rw [lapse_linger hp h]
      rfl
  · next h => rw [lapse_of_lt (Nat.lt_of_not_le h)]

end Lapsing

section Receiving

variable {r : Request} {c : Confirmation} {value : UInt8} {data : List UInt8}

/-- A confirmation in time leads on to the wait for a response, or for a broadcast to a linger. -/
theorem receive_confirmation (h : t < d) :
    receive timing ⟨⟨.waitingForConfirmation, e, some d⟩, ns⟩
        ⟨t, Incoming.confirmationFrame r c⟩ =
      if e.awaitsResponse then
        (⟨⟨.waitingForResponse, e.confirm t c, some (t + Budget.response timing (some c))⟩, ns⟩,
          .ok .waitingForResponse)
      else
        (⟨⟨.waitingAfterConfirmation, e.confirm t c, some (t + Budget.requestTotal c)⟩, ns⟩,
          .ok .waitingAfterConfirmation) := by
  rw [receive, Behaviour.command_confirmation]
  dsimp only
  rw [lapse_of_lt h]
  cases hr : e.awaitsResponse <;>
    simp [obey, Tracker.handle, Tracker.confirmationReceived, Phase.allowsEvent, bind, Except.bind,
      pure, Except.pure, Exchange.confirm, hr, Command.notification?, Budget.afterConfirmation,
      Instant.since]

/-- One that comes when the wait is over is refused. -/
theorem receive_confirmation_late (h : d ≤ t) :
    receive timing ⟨⟨.waitingForConfirmation, e, some d⟩, ns⟩
        ⟨t, Incoming.confirmationFrame r c⟩ =
      (⟨⟨.waitingForConfirmationTimedOut, e, none⟩, ns ++ [.confirmationTimedOut]⟩,
        .error (.stateTimeout .waitingForConfirmationTimedOut)) := by
  rw [receive, Behaviour.command_confirmation]
  dsimp only
  rw [lapse_waitingForConfirmation h]
  simp [obey, Tracker.handle, Tracker.confirmationReceived, Phase.allowsEvent, bind, Except.bind]

/-- A response is no answer to a request that was not confirmed. -/
theorem receive_response_unconfirmed :
    receive timing ⟨⟨.waitingForConfirmationTimedOut, e, none⟩, ns⟩
        ⟨t, Incoming.responseFrame r value data⟩ =
      (⟨⟨.waitingForConfirmationTimedOut, e, none⟩, ns⟩,
        .error (.contractViolation .responseReceived .waitingForConfirmationTimedOut)) := by
  simp [receive, obey, Tracker.handle, Tracker.responseReceived, Phase.allowsEvent, bind,
    Except.bind]

/-- A response in time leads to a linger. -/
theorem receive_response (h : t < d) :
    receive timing ⟨⟨.waitingForResponse, e, some d⟩, ns⟩
        ⟨t, Incoming.responseFrame r value data⟩ =
      (⟨⟨.waitingAfterResponse, e.respond t (Incoming.responseLength data),
          some (t + Budget.exchangeTotal e.confirmation (Incoming.responseLength data))⟩, ns⟩,
        .ok .waitingAfterResponse) := by
  rw [receive, Behaviour.command_response]
  dsimp only
  rw [lapse_of_lt h]
  simp [obey, Tracker.handle, Tracker.responseReceived, Phase.allowsEvent, bind, Except.bind, pure,
    Except.pure, Exchange.respond, Command.notification?, Budget.afterResponse, Instant.since]

/-- One that comes when the wait is over is refused. -/
theorem receive_response_late (h : d ≤ t) :
    receive timing ⟨⟨.waitingForResponse, e, some d⟩, ns⟩
        ⟨t, Incoming.responseFrame r value data⟩ =
      (⟨⟨.waitingForResponseTimedOut, e, none⟩, ns ++ [.responseTimedOut]⟩,
        .error (.stateTimeout .waitingForResponseTimedOut)) := by
  rw [receive, Behaviour.command_response]
  dsimp only
  rw [lapse_waitingForResponse h]
  simp [obey, Tracker.handle, Tracker.responseReceived, Phase.allowsEvent, bind, Except.bind]

end Receiving

section Opening

variable {r : Request}

/-- The tracker of a free channel on which a request was announced. -/
def opened (timing : Timing) (r : Request) (t : Instant) : Standing :=
  ⟨⟨r.opening, .ofRequest r, some (t +
    if r.isForCoordinator then Budget.response timing none else timing.confirmationWait)⟩, []⟩

theorem obey_newRequest :
    obey timing t (.newRequest r) ⟨.initial, ns⟩ =
      (⟨(opened timing r t).tracker, ns⟩, .ok r.opening) := by
  cases hr : r.isForCoordinator <;>
    simp [obey, Tracker.handle, Tracker.newRequest, Phase.allowsRequest, bind, Except.bind, pure,
      Except.pure, opened, Request.opening, Exchange.ofRequest, hr, Command.notification?,
      Tracker.initial, Budget.confirmation]

end Opening

end Standing

namespace Behaviour

variable {b : Behaviour} {r : Request} {timing : Timing} {e : Exchange} {a d n t : Instant}
  {ns : List Notification}

/-- A response that comes in time ends the wait. -/
theorem feed_responses_of_lt (ha : a < d) (hb : b.dropResponse = false) :
    let total := Confirmation.exchangeAirTime (8 + b.responseData.length) e.confirmation
    let y := Standing.feed timing ⟨⟨.waitingForResponse, e, some d⟩, ns⟩
        ((b.responses r a).filter (·.due ≤ n))
    (y.1.lapse n).tracker.phase =
        (if a + total ≤ n then Phase.freeForSend
          else if a ≤ n then .waitingAfterResponse else .waitingForResponse) ∧
      y.2 = if a ≤ n then [.ok .waitingAfterResponse] else [] := by
  intro total
  have htotal : Budget.exchangeTotal e.confirmation (Incoming.responseLength b.responseData) =
      total := by
    cases hc : e.confirmation <;> simp only [total, hc] <;> rfl
  rw [responses, if_neg (by simp [hb])]
  by_cases hn : a ≤ n
  · simp [hn, Standing.feed_cons, Standing.receive_response ha, htotal,
      Standing.phase_lapse_linger (p := .waitingAfterResponse) rfl]
  · have hfree : ¬ a + total ≤ n := fun hfree => hn (Nat.le_of_add_right_le hfree)
    have hd : n < d := Nat.lt_trans (Nat.lt_of_not_le hn) ha
    simp [hn, hfree, Standing.lapse_of_lt hd]

/-- One that is lost or comes too late does not. -/
theorem feed_responses_of_le (h : b.dropResponse = true ∨ d ≤ a) :
    let y := Standing.feed timing ⟨⟨.waitingForResponse, e, some d⟩, ns⟩
        ((b.responses r a).filter (·.due ≤ n))
    (y.1.lapse n).tracker.phase =
        (if d ≤ n then Phase.waitingForResponseTimedOut else .waitingForResponse) ∧
      y.2 = if b.dropResponse = false ∧ a ≤ n then
        [.error (.stateTimeout .waitingForResponseTimedOut)] else [] := by
  cases hb : b.dropResponse with
  | true => simp [responses, hb, Standing.phase_lapse_waitingForResponse]
  | false =>
      have ha : d ≤ a := by simpa [hb] using h
      by_cases hn : a ≤ n
      · simp [responses, hb, hn, Standing.feed_cons, Standing.receive_response_late ha,
          Nat.le_trans ha hn]
      · simp [responses, hb, hn, Standing.phase_lapse_waitingForResponse]

/-- A bare tracker goes through a course. -/
def Takes (b : Behaviour) (timing : Timing) (r : Request) (t n : Instant) : Prop :=
  let y := Standing.feed timing (Standing.opened timing r t) ((b.deliveries r t).filter (·.due ≤ n))
  (y.1.lapse n).tracker.phase = (b.course timing r t).phaseAt n ∧
    y.2 = (b.course timing r t).outcomesBy n

theorem dropped_or_late {l : Duration} (h : ¬(b.dropResponse = false ∧ b.responseDelay < l)) :
    b.dropResponse = true ∨ t + l ≤ t + b.responseDelay := by
  cases hb : b.dropResponse with
  | true => exact .inl rfl
  | false => exact .inr (Nat.add_le_add_left (Nat.le_of_not_lt fun hlt => h ⟨hb, hlt⟩) t)

theorem takes_coordinator (hr : r.isForCoordinator = true) (h : t ≤ n) : b.Takes timing r t n := by
  have hlimit : t + Budget.response timing none =
      t + (timing.responseBase + Duration.millis 100) := by
    simp [Budget.response, Budget.guardMargin]
  simp only [Takes, Standing.opened, Request.opening, course, deliveries, if_pos hr, hlimit]
  by_cases hin : b.dropResponse = false ∧ b.responseDelay < timing.responseBase + Duration.millis 100
  · have ha := Nat.add_lt_add_left hin.2 t
    have hnone : (Exchange.ofRequest r).confirmation = none := rfl
    rw [(feed_responses_of_lt ha hin.1).1, (feed_responses_of_lt ha hin.1).2, hnone, if_pos hin]
    by_cases hfree : t + b.responseDelay +
        Confirmation.exchangeAirTime (8 + b.responseData.length) none ≤ n
    · have hn := Nat.le_of_add_right_le hfree
      simp [Course.phaseAt, Course.outcomesBy, h, hn, hfree]
    · by_cases hn : t + b.responseDelay ≤ n <;>
        simp [Course.phaseAt, Course.outcomesBy, h, hn, hfree]
  · have ha := dropped_or_late (t := t) hin
    rw [(feed_responses_of_le ha).1, (feed_responses_of_le ha).2, if_neg hin]
    by_cases hd : t + (timing.responseBase + Duration.millis 100) ≤ n <;>
      cases hb : b.dropResponse <;>
        simp [Course.phaseAt, Course.outcomesBy, h, hd, List.filter_cons, apply_ite]

theorem feed_responses_unconfirmed :
    Standing.feed timing ⟨⟨.waitingForConfirmationTimedOut, e, none⟩, ns⟩
        ((b.responses r a).filter (·.due ≤ n)) =
      (⟨⟨.waitingForConfirmationTimedOut, e, none⟩, ns⟩,
        if b.dropResponse = false ∧ a ≤ n then
          [.error (.contractViolation .responseReceived .waitingForConfirmationTimedOut)]
        else []) := by
  cases hb : b.dropResponse with
  | true => simp [responses, hb]
  | false =>
      by_cases hn : a ≤ n <;>
        simp [responses, hb, hn, Standing.feed_cons, Standing.receive_response_unconfirmed]

section Confirmed

variable (hr : r.isForCoordinator = false)
include hr

theorem opened_eq : Standing.opened timing r t =
    ⟨⟨.waitingForConfirmation, .ofRequest r, some (t + timing.confirmationWait)⟩, []⟩ := by
  simp [Standing.opened, Request.opening, hr]

/-- Before the confirmation is due, nothing comes back. -/
theorem filter_deliveries_of_lt (h : n < t + b.confirmationDelay) :
    (b.deliveries r t).filter (·.due ≤ n) = [] := by
  have hlater : ∀ d ∈ b.responses r (t + b.confirmationDelay + b.responseDelay), n < d.due := by
    intro d hd
    unfold responses at hd
    split at hd
    · cases hd
    · rw [List.mem_singleton.1 hd]
      exact Nat.lt_add_right _ h
  rw [List.filter_eq_nil_iff]
  intro d hd
  simp only [deliveries, hr, Bool.false_eq_true, if_false] at hd
  split at hd
  · cases hd
  · rcases List.mem_cons.1 hd with rfl | hd
    · simp [Nat.not_le.2 h]
    · split at hd
      · cases hd
      · simp [Nat.not_le.2 (hlater d hd)]


/-- Until the confirmation is due, the course is that of a request that is not confirmed. -/
theorem takes_before (h : t ≤ n) (hn : n < t + b.confirmationDelay) : b.Takes timing r t n := by
  have hlater (d : Duration) : ¬ t + b.confirmationDelay + d ≤ n :=
    fun hle => Nat.not_le.2 hn (Nat.le_of_add_right_le hle)
  have hnow : ¬ t + b.confirmationDelay ≤ n := hlater 0
  rw [Takes, opened_eq hr, filter_deliveries_of_lt hr hn]
  simp only [Standing.feed_nil, Standing.phase_lapse_waitingForConfirmation, course, hr,
    Bool.false_eq_true, if_false, Nat.add_assoc] at hlater hnow ⊢
  by_cases hlate : b.dropConfirmation = true ∨ timing.confirmationWait ≤ b.confirmationDelay
  · rw [if_pos hlate]
    by_cases hd : t + timing.confirmationWait ≤ n <;>
      cases b.dropConfirmation <;> cases r.isBroadcast <;> cases b.dropResponse <;>
        simp [Course.phaseAt, Course.outcomesBy, h, hd, hnow, hlater]
  · rw [if_neg hlate]
    obtain ⟨-, hlt⟩ := not_or.1 hlate
    have hd : ¬ t + timing.confirmationWait ≤ n := fun hd =>
      hlt (Nat.le_of_add_le_add_left (Nat.le_trans hd (Nat.le_of_lt hn)))
    rw [if_neg hd]
    cases r.isBroadcast with
    | true => simp [Course.phaseAt, Course.outcomesBy, h, hnow, hlater]
    | false =>
        simp only [Bool.false_eq_true, if_false]
        split
        · simp [Course.phaseAt, Course.outcomesBy, h, hnow, hlater]
        · cases b.dropResponse <;> simp [Course.phaseAt, Course.outcomesBy, h, hnow, hlater]

section After

variable (hn : t + b.confirmationDelay ≤ n)
include hn

theorem takes_unconfirmed (h : t ≤ n)
    (hlate : b.dropConfirmation = true ∨ timing.confirmationWait ≤ b.confirmationDelay) :
    b.Takes timing r t n := by
  simp only [Takes, opened_eq hr, course, hr, Bool.false_eq_true, if_false, if_pos hlate]
  cases hc : b.dropConfirmation with
  | true =>
      by_cases hd : t + timing.confirmationWait ≤ n <;>
        simp [deliveries, hr, hc, Standing.phase_lapse_waitingForConfirmation, Course.phaseAt,
          Course.outcomesBy, h, hd]
  | false =>
      have hle : t + timing.confirmationWait ≤ t + b.confirmationDelay :=
        Nat.add_le_add_left (by simpa [hc] using hlate) t
      have hd := Nat.le_trans hle hn
      cases hb : r.isBroadcast with
      | true =>
          simp [deliveries, hr, hc, hb, hn, Standing.feed_cons,
            Standing.receive_confirmation_late hle, Course.phaseAt, Course.outcomesBy, h, hd]
      | false =>
          cases hdr : b.dropResponse <;>
            simp [deliveries, hr, hc, hb, hn, hdr, Standing.feed_cons,
              Standing.receive_confirmation_late hle, feed_responses_unconfirmed, Course.phaseAt,
              Course.outcomesBy, h, hd, List.filter_cons, apply_ite]

variable (hc : b.dropConfirmation = false) (hlt : b.confirmationDelay < timing.confirmationWait)
include hc hlt

theorem takes_broadcast (h : t ≤ n) (hb : r.isBroadcast = true) : b.Takes timing r t n := by
  have hawaits : (Exchange.ofRequest r).awaitsResponse = false := by
    simp [Exchange.ofRequest, hb]
  have hds : (b.deliveries r t).filter (·.due ≤ n) =
      [⟨t + b.confirmationDelay, Incoming.confirmationFrame r b.confirmation⟩] := by
    simp [deliveries, hr, hc, hb, hn]
  rw [Takes, opened_eq hr, hds, Standing.feed_cons,
    Standing.receive_confirmation (Nat.add_lt_add_left hlt t), hawaits, if_neg Bool.false_ne_true]
  simp only [Standing.feed_nil, Standing.phase_lapse_linger (p := .waitingAfterConfirmation) rfl]
  have htotal : Budget.requestTotal b.confirmation = b.confirmation.airTime := rfl
  by_cases hfree : t + b.confirmationDelay + b.confirmation.airTime ≤ n <;>
    simp [course, hr, hc, hb, Nat.not_le.2 hlt, Course.phaseAt, Course.outcomesBy, h, hn, htotal,
      hfree]

theorem takes_unicast (h : t ≤ n) (hb : r.isBroadcast = false) : b.Takes timing r t n := by
  have hawaits : (Exchange.ofRequest r).awaitsResponse = true := by
    simp [Exchange.ofRequest, hb]
  have hds : (b.deliveries r t).filter (·.due ≤ n) =
      ⟨t + b.confirmationDelay, Incoming.confirmationFrame r b.confirmation⟩ ::
        (b.responses r (t + b.confirmationDelay + b.responseDelay)).filter (·.due ≤ n) := by
    simp [deliveries, hr, hc, hb, hn]
  have hlimit : Budget.response timing (some b.confirmation) =
      timing.responseBase + b.confirmation.airTime + Duration.millis 100 := rfl
  rw [Takes, opened_eq hr, hds, Standing.feed_cons,
    Standing.receive_confirmation (Nat.add_lt_add_left hlt t), hawaits, if_pos rfl, hlimit]
  simp only [course, hr, hc, hb, Bool.false_eq_true, if_false, false_or, Nat.not_le.2 hlt]
  by_cases hin : b.dropResponse = false ∧
      b.responseDelay < timing.responseBase + b.confirmation.airTime + Duration.millis 100
  · have ha := Nat.add_lt_add_left hin.2 (t + b.confirmationDelay)
    have hsome : ((Exchange.ofRequest r).confirm (t + b.confirmationDelay)
        b.confirmation).confirmation = some b.confirmation := rfl
    rw [(feed_responses_of_lt ha hin.1).1, (feed_responses_of_lt ha hin.1).2, hsome, if_pos hin]
    by_cases hfree : t + b.confirmationDelay + b.responseDelay +
        Confirmation.exchangeAirTime (8 + b.responseData.length) (some b.confirmation) ≤ n
    · have hanswered := Nat.le_of_add_right_le hfree
      simp [Course.phaseAt, Course.outcomesBy, h, hn, hanswered, hfree]
    · by_cases hanswered : t + b.confirmationDelay + b.responseDelay ≤ n <;>
        simp [Course.phaseAt, Course.outcomesBy, h, hn, hanswered, hfree]
  · have ha := dropped_or_late (t := t + b.confirmationDelay) hin
    rw [(feed_responses_of_le ha).1, (feed_responses_of_le ha).2, if_neg hin]
    by_cases hd : t + b.confirmationDelay +
        (timing.responseBase + b.confirmation.airTime + Duration.millis 100) ≤ n <;>
      cases hdr : b.dropResponse <;>
        simp [Course.phaseAt, Course.outcomesBy, h, hn, hd, List.filter_cons, apply_ite]

end After
end Confirmed

/-- **A bare tracker goes through the course** of an exchange. -/
theorem takes (h : t ≤ n) : b.Takes timing r t n := by
  cases hr : r.isForCoordinator with
  | true => exact takes_coordinator hr h
  | false =>
      rcases Nat.lt_or_ge n (t + b.confirmationDelay) with hn | hn
      · exact takes_before hr h hn
      · by_cases hlate : b.dropConfirmation = true ∨ timing.confirmationWait ≤ b.confirmationDelay
        · exact takes_unconfirmed hr hn h hlate
        · obtain ⟨hc, hlt⟩ := not_or.1 hlate
          rw [Bool.not_eq_true] at hc
          rw [Nat.not_le] at hlt
          cases hb : r.isBroadcast with
          | true => exact takes_broadcast hr hn hc hlt h hb
          | false => exact takes_unicast hr hn hc hlt h hb


/-- All the answers in the end. -/
theorem feed_deliveries_snd :
    (Standing.feed timing (Standing.opened timing r t) (b.deliveries r t)).2 =
      (b.course timing r t).outcomes.map (·.2) := by
  -- An instant by which everything is over.
  obtain ⟨n, hn⟩ := ((b.deliveries r t).map Delivery.due ++
    (b.course timing r t).outcomes.map Prod.fst).toFinset.exists_le
  simp only [List.mem_toFinset, List.mem_append, List.mem_map] at hn
  have hds : (b.deliveries r t).filter (·.due ≤ t + n) = b.deliveries r t :=
    List.filter_eq_self.2 fun d hd =>
      decide_eq_true (Nat.le_add_left_of_le (hn _ (.inl ⟨d, hd, rfl⟩)))
  have hos : (b.course timing r t).outcomes.filter (·.1 ≤ t + n) =
      (b.course timing r t).outcomes :=
    List.filter_eq_self.2 fun x hx =>
      decide_eq_true (Nat.le_add_left_of_le (hn _ (.inr ⟨x, hx, rfl⟩)))
  have h : b.Takes timing r t (t + n) := takes (Nat.le_add_right t n)
  rw [Takes, Course.outcomesBy, hds, hos] at h
  exact h.2

end Behaviour
end MeshExchange
