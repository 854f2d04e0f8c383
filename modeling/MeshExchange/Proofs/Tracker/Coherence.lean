import MeshExchange.Proofs.Tracker.Moves

/-!
# The shape of a tracker

Which exchange and which deadline go with which phase. A tracker that starts on a free channel keeps
this shape whatever happens to it, so the phase and the flags that the exchange got at its beginning
never disagree.

**Results.**
* `Tracker.Coherent`: the trackers of that shape, one case for each phase;
* `Tracker.Moves.coherent`, `Tracker.Lapses.coherent`: every move keeps the shape;
* `Tracker.Coherent.exists_lapses`: a deadline never passes in vain;
* `TrackerRun.after_coherent`: so does every run.
-/

namespace MeshExchange

/-- A broadcast travels the mesh. -/
theorem Request.isForCoordinator_of_isBroadcast {r : Request} (h : r.isBroadcast = true) :
    r.isForCoordinator = false := by
  have ha : r.address = .broadcast := by
    simpa [Request.isBroadcast, Address.isBroadcast] using h
  rw [Request.isForCoordinator, ha]
  decide

namespace Exchange

/-- The exchanges of a request that may wait for its response: the coordinator was asked itself, or it
has confirmed a request that is answered. -/
inductive Awaits (r : Request) : Exchange → Prop
  | asked (hr : r.isForCoordinator = true) : Awaits r (.ofRequest r)
  | confirmed {receivedAt : Instant} {c : Confirmation} (hr : r.isForCoordinator = false)
      (hb : r.isBroadcast = false) : Awaits r ((ofRequest r).confirm receivedAt c)

theorem Awaits.request_eq {r : Request} {e : Exchange} (h : Awaits r e) : e.request = some r := by
  cases h <;> rfl

end Exchange

namespace Tracker

/-- The trackers whose phase, exchange and deadline belong together. -/
inductive Coherent : Tracker → Prop
  | free : Coherent initial
  | confirming {r : Request} {d : Instant} (hr : r.isForCoordinator = false) :
      Coherent ⟨.waitingForConfirmation, .ofRequest r, some d⟩
  | unconfirmed {r : Request} (hr : r.isForCoordinator = false) :
      Coherent ⟨.waitingForConfirmationTimedOut, .ofRequest r, none⟩
  | spread {r : Request} {receivedAt : Instant} {c : Confirmation} {d : Instant}
      (hb : r.isBroadcast = true) :
      Coherent ⟨.waitingAfterConfirmation, (Exchange.ofRequest r).confirm receivedAt c, some d⟩
  | responding {r : Request} {e : Exchange} {d : Instant} (he : e.Awaits r) :
      Coherent ⟨.waitingForResponse, e, some d⟩
  | unanswered {r : Request} {e : Exchange} (he : e.Awaits r) :
      Coherent ⟨.waitingForResponseTimedOut, e, none⟩
  | answered {r : Request} {e : Exchange} {receivedAt : Instant} {length : Nat} {d : Instant}
      (he : e.Awaits r) : Coherent ⟨.waitingAfterResponse, e.respond receivedAt length, some d⟩

section Steps

variable {timing : Timing} {now : Instant} {t t' : Tracker} {c : Command} {n : Notification}

theorem Moves.coherent (h : Moves timing now t c t') (ht : Coherent t) : Coherent t' := by
  cases h with
  | asked hr => exact .responding (.asked hr)
  | announced hr => exact .confirming hr
  | confirmed he =>
      cases ht with
      | @confirming r _ hr =>
          have hb : r.isBroadcast = false := by
            simpa [Exchange.ofRequest] using he
          exact .responding (.confirmed hr hb)
  | spread he =>
      cases ht with
      | @confirming r _ hr =>
          have hb : r.isBroadcast = true := by
            simpa [Exchange.ofRequest] using he
          exact .spread hb
  | answered =>
      cases ht with
      | responding he => exact .answered he
  | freed => exact .free

theorem Lapses.coherent (h : Lapses t n t') (ht : Coherent t) : Coherent t' := by
  cases h with
  | unconfirmed =>
      cases ht with
      | confirming hr => exact .unconfirmed hr
  | unanswered =>
      cases ht with
      | responding he => exact .unanswered he
  | drained => exact .free

end Steps

section Deadline

variable {t : Tracker}

theorem isDue_eq_true_iff {now : Instant} :
    t.isDue now = true ↔ ∃ d, t.deadline = some d ∧ d ≤ now := by
  cases hd : t.deadline <;> simp [isDue, hd]

theorem isDue_of_deadline {now d : Instant} (hd : t.deadline = some d) (hle : d ≤ now) :
    t.isDue now = true :=
  isDue_eq_true_iff.2 ⟨d, hd, hle⟩

theorem isDue_mono {now later : Instant} (hle : now ≤ later) (h : t.isDue now = true) :
    t.isDue later = true := by
  obtain ⟨d, hd, hdue⟩ := isDue_eq_true_iff.1 h
  exact isDue_of_deadline hd (Nat.le_trans hdue hle)

/-- A deadline never passes in vain. -/
theorem Coherent.exists_lapses (ht : Coherent t) {d : Instant} (hd : t.deadline = some d) :
    ∃ t' n, Lapses t n t' := by
  cases ht with
  | free => cases hd
  | confirming => exact ⟨_, _, .unconfirmed⟩
  | unconfirmed => cases hd
  | spread => exact ⟨_, _, .drained rfl⟩
  | responding => exact ⟨_, _, .unanswered⟩
  | unanswered => cases hd
  | answered => exact ⟨_, _, .drained rfl⟩

/-- The phases that end by themselves have a deadline. -/
theorem Coherent.exists_deadline (ht : Coherent t)
    (hp : t.phase.expectsEvent = true ∨ t.phase.isLinger = true) :
    ∃ d, t.deadline = some d := by
  cases ht with
  | confirming => exact ⟨_, rfl⟩
  | spread => exact ⟨_, rfl⟩
  | responding => exact ⟨_, rfl⟩
  | answered => exact ⟨_, rfl⟩
  | _ => simp [initial, Phase.expectsEvent, Phase.isLinger] at hp

/-- A free channel holds nothing of the exchanges before. -/
theorem Coherent.eq_initial (ht : Coherent t) (hp : t.phase = .freeForSend) : t = initial := by
  cases ht with
  | free => rfl
  | _ => cases hp

end Deadline

end Tracker

namespace TrackerRun

theorem step_coherent {r : TrackerRun} (hr : r.tracker.Coherent) (s : TrackerStep) :
    (r.step s).2.tracker.Coherent := by
  rcases r.step_cases s with ⟨c, now, t, -, ht, hs⟩ | ⟨n, t, -, ht, hs⟩ | ⟨ht, -⟩
  · rw [hs]
    exact ht.coherent hr
  · rw [hs]
    exact ht.coherent hr
  · rw [ht]
    exact hr

/-- Every run keeps the shape of its tracker. -/
theorem after_coherent {r : TrackerRun} (hr : r.tracker.Coherent) (steps : List TrackerStep) :
    (r.after steps).tracker.Coherent := by
  induction steps generalizing r with
  | nil => exact hr
  | cons s rest ih => exact ih (step_coherent hr s)

end TrackerRun
end MeshExchange
