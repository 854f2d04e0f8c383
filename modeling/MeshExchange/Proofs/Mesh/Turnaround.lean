import MeshExchange.Proofs.Mesh.Course

/-!
# How long an exchange occupies the channel

A mesh that loses nothing and answers in time. Its frames then come while the channel waits for them, and
the exchange ends where the linger after the last of them does.

**Results.**
* `Behaviour.occupancy`: from the request to the free channel;
* `Behaviour.IsLossless`, `Behaviour.InTime`: the meshes and requests that are spoken of;
* `Behaviour.Proceeds`: a tracker on its way through such an exchange;
* `Behaviour.proceeds_of_inTime`: the tracker of every such request is.
-/

namespace MeshExchange
namespace Behaviour

/-- How long an exchange occupies the channel whose frames come in time. -/
def occupancy (b : Behaviour) (r : Request) : Duration :=
  let length := 8 + b.responseData.length
  if r.isForCoordinator then b.responseDelay + Confirmation.exchangeAirTime length none
  else if r.isBroadcast then b.confirmationDelay + b.confirmation.airTime
  else
    b.confirmationDelay + b.responseDelay +
      Confirmation.exchangeAirTime length (some b.confirmation)

/-- The mesh loses no frame. -/
structure IsLossless (b : Behaviour) : Prop where
  confirmation : b.dropConfirmation = false
  response : b.dropResponse = false

/-- A request is confirmed and answered before the channel stops waiting. -/
structure InTime (b : Behaviour) (timing : Timing) (r : Request) : Prop where
  confirmation : r.isForCoordinator = false → b.confirmationDelay < timing.confirmationWait
  ofCoordinator : r.isForCoordinator = true →
    b.responseDelay < timing.responseBase + Duration.millis 100
  response : r.isForCoordinator = false → r.isBroadcast = false →
    b.responseDelay < timing.responseBase + b.confirmation.airTime + Duration.millis 100

/-- The trackers on their way through an exchange that ends at an instant: with the deliveries to come,
and the instant at which the tracker moves next. -/
inductive Proceeds (timing : Timing) (endsAt : Instant) :
    Tracker → List Delivery → Instant → Prop
  | lingers {t : Tracker} (hp : t.phase.isLinger = true) (hd : t.deadline = some endsAt) :
      Proceeds timing endsAt t [] endsAt
  | awaits {t t' : Tracker} {deadline next : Instant} {d : Delivery} {ds : List Delivery}
      {c : Command} (hp : t.phase.expectsEvent = true) (hd : t.deadline = some deadline)
      (hlt : d.due < deadline) (hc : d.command = .ok c) (hn : c.notification? = none)
      (ht : t.Moves timing d.due c t') (hle : d.due ≤ next)
      (h : Proceeds timing endsAt t' ds next) : Proceeds timing endsAt t (d :: ds) d.due

section Proceeding

variable {b : Behaviour} {timing : Timing} {r : Request} {t : Tracker} {endsAt next now a : Instant}
  {ds : List Delivery}

namespace Proceeds

theorem next_le (h : Proceeds timing endsAt t ds next) : next ≤ endsAt := by
  induction h with
  | lingers => exact Nat.le_refl _
  | awaits _ _ _ _ _ _ hle _ ih => exact Nat.le_trans hle ih

theorem phase_ne (h : Proceeds timing endsAt t ds next) : t.phase ≠ .freeForSend := by
  intro hfree
  cases h with
  | lingers hp =>
      rw [hfree] at hp
      cases hp
  | awaits hp =>
      rw [hfree] at hp
      cases hp

/-- The next move is at the deadline, or with the next delivery. -/
theorem timer (h : Proceeds timing endsAt t ds next) :
    t.deadline = some next ∨ ∃ d ∈ ds.head?, d.due = next := by
  cases h with
  | lingers _ hd => exact .inl hd
  | awaits => exact .inr ⟨_, rfl, rfl⟩

/-- Where neither has come, the next move lies ahead. -/
theorem lt_next (h : Proceeds timing endsAt t ds next) (hdue : t.isDue now = false)
    (hds : ∀ d ∈ ds.head?, now < d.due) : now < next := by
  rcases h.timer with hd | ⟨d, hd, rfl⟩
  · simpa [Tracker.isDue, hd] using hdue
  · exact hds d hd

/-- Up to its next move the deadline of such a tracker lies ahead, unless it lingers. -/
theorem not_isDue (h : Proceeds timing endsAt t ds next) (hds : ds ≠ []) (hn : now ≤ next) :
    t.isDue now = false := by
  cases h with
  | lingers => exact absurd rfl hds
  | awaits _ hd hlt => simp [Tracker.isDue, hd, Nat.lt_of_le_of_lt hn hlt]

end Proceeds

/-- A response in time is followed by the linger after it. -/
theorem proceeds_of_response {e : Exchange} {deadline : Instant} (hb : b.IsLossless)
    (hlt : a < deadline)
    (hend : endsAt =
      a + Confirmation.exchangeAirTime (8 + b.responseData.length) e.confirmation) :
    Proceeds timing endsAt ⟨.waitingForResponse, e, some deadline⟩ (b.responses r a) a := by
  rw [responses, if_neg (by simp [hb.response])]
  have hle : a ≤ endsAt := hend ▸ Nat.le_add_right _ _
  refine .awaits rfl rfl hlt (command_response r a 0 b.responseData) rfl .answered hle ?_
  refine .lingers rfl (congrArg some ?_)
  rw [Budget.add_afterResponse, Nat.min_self, hend]
  exact Nat.max_eq_right (Nat.le_add_right _ _)

/-- **The tracker of a request that is answered in time** is on its way. -/
theorem proceeds_of_inTime (hb : b.IsLossless) (hr : b.InTime timing r) (a : Instant) :
    ∃ next, a ≤ next ∧ Proceeds timing (a + b.occupancy r) (Standing.opened timing r a).tracker
      (b.deliveries r a) next := by
  cases hc : r.isForCoordinator with
  | true =>
      refine ⟨a + b.responseDelay, Nat.le_add_right _ _, ?_⟩
      have hlimit : Budget.response timing none = timing.responseBase + Duration.millis 100 := rfl
      have hlt : a + b.responseDelay < a + Budget.response timing none := by
        rw [hlimit]
        exact Nat.add_lt_add_left (hr.ofCoordinator hc) a
      simp only [Standing.opened, Request.opening, deliveries, occupancy, hc, if_true]
      exact proceeds_of_response hb hlt (Nat.add_assoc _ _ _).symm
  | false =>
      refine ⟨a + b.confirmationDelay, Nat.le_add_right _ _, ?_⟩
      have hlt := Nat.add_lt_add_left (hr.confirmation hc) a
      have hcommand := command_confirmation r (a + b.confirmationDelay) b.confirmation
      cases hbc : r.isBroadcast with
      | true =>
          have he : (Exchange.ofRequest r).awaitsResponse = false := by
            simp [Exchange.ofRequest, hbc]
          simp only [Standing.opened, Request.opening, deliveries, occupancy, hc, hbc,
            hb.confirmation, if_true, if_false, Bool.false_eq_true]
          refine .awaits rfl rfl hlt hcommand rfl (.spread he) ?_ (.lingers rfl (congrArg some ?_))
          · exact Nat.add_le_add_left (Nat.le_add_right _ _) a
          · rw [Budget.add_afterConfirmation, Nat.min_self, ← Nat.add_assoc]
            exact Nat.max_eq_right (Nat.le_add_right _ _)
      | false =>
          have he : (Exchange.ofRequest r).awaitsResponse = true := by
            simp [Exchange.ofRequest, hbc]
          have hresponse : a + b.confirmationDelay + b.responseDelay <
              a + b.confirmationDelay + Budget.response timing (some b.confirmation) :=
            Nat.add_lt_add_left (hr.response hc hbc) _
          simp only [Standing.opened, Request.opening, deliveries, occupancy, hc, hbc,
            hb.confirmation, if_false, Bool.false_eq_true]
          refine .awaits rfl rfl hlt hcommand rfl (.confirmed he) (Nat.le_add_right _ _)
            (proceeds_of_response hb hresponse ?_)
          simp only [Nat.add_assoc]
          rfl

/-- A request that was just announced is not given up yet. -/
theorem not_isDue_opened (hr : b.InTime timing r) (a : Instant) :
    (Standing.opened timing r a).tracker.isDue a = false := by
  suffices h : 0 < if r.isForCoordinator then Budget.response timing none
      else timing.confirmationWait by
    simpa [Standing.opened, Tracker.isDue, Nat.pos_iff_ne_zero] using h
  cases hc : r.isForCoordinator with
  | true => exact Nat.lt_of_le_of_lt (Nat.zero_le _) (hr.ofCoordinator hc)
  | false => exact Nat.lt_of_le_of_lt (Nat.zero_le _) (hr.confirmation hc)

end Proceeding
end Behaviour
end MeshExchange
