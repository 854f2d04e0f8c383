import MeshExchange.Proofs.Tracker.Coherence

/-!
# The grammar of exchanges

The steps that take effect on a tracker, one after the other, spell exchanges: each begins with a
request on a free channel and ends with the channel free again, and what stands between is a matter of
the class of the request and of the frames that came in time.

**Input.** Any list of steps of a tracker that starts on a free channel: commands with any arguments at
any instants, expiries at any time, and any change of the times in between.

**Method.** What is still missing of the exchange in progress, `Completes`, depends on the phase and on
the flag that says whether a response is awaited. Each effect is the first letter of what was missing
before it. Conversely every letter of a word can be performed when its turn comes.

**Results.**
* `TrackerRun.effects`: the steps of a list that take effect, each with the phase it led to;
* `IsExchange`, `IsTranscript`: the words of one exchange and of exchanges one after the other;
* `TrackerRun.exists_effects_iff_prefix`: the effects of runs are exactly the prefixes of
  transcripts.
-/

namespace MeshExchange

/-- A step that took effect, and the phase it led to. -/
structure Effect where
  step : TrackerStep
  phase : Phase
  deriving DecidableEq, Repr

namespace Effect

abbrev request (r : Request) (now : Instant) (p : Phase) : Effect :=
  ⟨.command (.newRequest r) now, p⟩

abbrev confirmation (receivedAt : Instant) (c : Confirmation) (now : Instant) (p : Phase) :
    Effect :=
  ⟨.command (.confirmationReceived receivedAt c) now, p⟩

abbrev response (receivedAt : Instant) (length : Nat) (now : Instant) (p : Phase) : Effect :=
  ⟨.command (.responseReceived receivedAt length) now, p⟩

abbrev reset (now : Instant) (p : Phase) : Effect := ⟨.command .resetAfterError now, p⟩

abbrev expiry (p : Phase) : Effect := ⟨.expire, p⟩

end Effect

section Words

/-- The words from the wait for a response on. -/
inductive IsTail : List Effect → Prop
  | answered (receivedAt : Instant) (length : Nat) (now : Instant) :
      IsTail [.response receivedAt length now .waitingAfterResponse, .expiry .freeForSend]
  | unanswered (now : Instant) :
      IsTail [.expiry .waitingForResponseTimedOut, .reset now .freeForSend]

/-- The words of one exchange, by the class of its request. -/
inductive IsExchange (r : Request) : List Effect → Prop
  | asked (now : Instant) {tail : List Effect} (hr : r.isForCoordinator = true)
      (htail : IsTail tail) :
      IsExchange r (.request r now .waitingForResponse :: tail)
  | spread (now receivedAt : Instant) (c : Confirmation) (now' : Instant)
      (hb : r.isBroadcast = true) :
      IsExchange r
        [.request r now .waitingForConfirmation,
          .confirmation receivedAt c now' .waitingAfterConfirmation, .expiry .freeForSend]
  | confirmed (now receivedAt : Instant) (c : Confirmation) (now' : Instant) {tail : List Effect}
      (hr : r.isForCoordinator = false) (hb : r.isBroadcast = false) (htail : IsTail tail) :
      IsExchange r
        (.request r now .waitingForConfirmation ::
          .confirmation receivedAt c now' .waitingForResponse :: tail)
  | unconfirmed (now now' : Instant) (hr : r.isForCoordinator = false) :
      IsExchange r
        [.request r now .waitingForConfirmation, .expiry .waitingForConfirmationTimedOut,
          .reset now' .freeForSend]

/-- Exchanges one after the other. -/
inductive IsTranscript : List Effect → Prop
  | nil : IsTranscript []
  | cons {r : Request} {x w : List Effect} (hx : IsExchange r x) (hw : IsTranscript w) :
      IsTranscript (x ++ w)

/-- What is missing of an exchange in a phase. The flag says whether a response is awaited after the
confirmation. -/
inductive Completes : Phase → Bool → List Effect → Prop
  | free {b : Bool} : Completes .freeForSend b []
  | drained {p : Phase} {b : Bool} (hp : p.isLinger = true) :
      Completes p b [.expiry .freeForSend]
  | freed {p : Phase} {b : Bool} (now : Instant) (hp : p.isTimedOut = true) :
      Completes p b [.reset now .freeForSend]
  | responding {b : Bool} {tail : List Effect} (htail : IsTail tail) :
      Completes .waitingForResponse b tail
  | spread (receivedAt : Instant) (c : Confirmation) (now : Instant) :
      Completes .waitingForConfirmation false
        [.confirmation receivedAt c now .waitingAfterConfirmation, .expiry .freeForSend]
  | confirmed (receivedAt : Instant) (c : Confirmation) (now : Instant) {tail : List Effect}
      (htail : IsTail tail) :
      Completes .waitingForConfirmation true
        (.confirmation receivedAt c now .waitingForResponse :: tail)
  | unconfirmed {b : Bool} (now : Instant) :
      Completes .waitingForConfirmation b
        [.expiry .waitingForConfirmationTimedOut, .reset now .freeForSend]

theorem exists_completes (p : Phase) (b : Bool) : ∃ u, Completes p b u := by
  cases p with
  | freeForSend => exact ⟨_, .free⟩
  | waitingForConfirmation => exact ⟨_, .unconfirmed 0⟩
  | waitingForConfirmationTimedOut => exact ⟨_, .freed 0 rfl⟩
  | waitingAfterConfirmation => exact ⟨_, .drained rfl⟩
  | waitingForResponse => exact ⟨_, .responding (.unanswered 0)⟩
  | waitingForResponseTimedOut => exact ⟨_, .freed 0 rfl⟩
  | waitingAfterResponse => exact ⟨_, .drained rfl⟩

theorem Completes.eq_nil {b : Bool} {u : List Effect} (h : Completes .freeForSend b u) :
    u = [] := by
  cases h with
  | free => rfl
  | drained hp => cases hp
  | freed _ hp => cases hp

theorem Completes.of_timedOut {p : Phase} {b : Bool} {u : List Effect} (h : Completes p b u)
    (hp : p.isTimedOut = true) : ∃ now, u = [.reset now .freeForSend] := by
  cases h with
  | freed now => exact ⟨now, rfl⟩
  | drained hl => cases p <;> simp [Phase.isTimedOut, Phase.isLinger] at hp hl
  | _ => cases hp

theorem Completes.of_linger {p : Phase} {b : Bool} {u : List Effect} (h : Completes p b u)
    (hp : p.isLinger = true) : u = [.expiry .freeForSend] := by
  cases h with
  | drained => rfl
  | freed _ ht => cases p <;> simp [Phase.isTimedOut, Phase.isLinger] at hp ht
  | _ => cases hp

theorem Completes.isTail {b : Bool} {u : List Effect} (h : Completes .waitingForResponse b u) :
    IsTail u := by
  cases h with
  | responding htail => exact htail
  | drained hp => cases hp
  | freed _ hp => cases hp

/-- A request into the mesh begins an exchange with whatever completes the wait for its
confirmation. -/
theorem Completes.isExchange {r : Request} {u : List Effect} (now : Instant)
    (hr : r.isForCoordinator = false)
    (h : Completes .waitingForConfirmation (Exchange.ofRequest r).awaitsResponse u) :
    IsExchange r (.request r now .waitingForConfirmation :: u) := by
  generalize hb : (Exchange.ofRequest r).awaitsResponse = b at h
  have hb' : r.isBroadcast = !b := by
    simp [← hb, Exchange.ofRequest]
  cases h with
  | spread receivedAt c now' => exact .spread now receivedAt c now' hb'
  | confirmed receivedAt c now' htail =>
      exact .confirmed now receivedAt c now' hr hb' htail
  | unconfirmed now' => exact .unconfirmed now now' hr
  | drained hp => cases hp
  | freed _ hp => cases hp

end Words

namespace TrackerRun

section Effects

/-- The steps of a list that take effect, each with the phase it led to. -/
def effects (r : TrackerRun) (steps : List TrackerStep) : List Effect :=
  (steps.zip (r.trace steps)).filterMap fun
    | (s, .moved phase _, _) => some ⟨s, phase⟩
    | _ => none

theorem effects_cons_of_moved {r r' : TrackerRun} {s : TrackerStep} {p : Phase}
    {n : Option Notification} (h : r.step s = (.moved p n, r')) (rest : List TrackerStep) :
    r.effects (s :: rest) = ⟨s, p⟩ :: r'.effects rest := by
  simp [effects, trace, h]

theorem effects_cons_of_not_moved {r : TrackerRun} {s : TrackerStep}
    (h : ∀ p n, (r.step s).1 ≠ .moved p n) (rest : List TrackerStep) :
    r.effects (s :: rest) = (r.step s).2.effects rest := by
  cases hs : r.step s with
  | mk outcome r' =>
      rw [hs] at h
      cases outcome with
      | moved p n => exact absurd rfl (h p n)
      | refused fault => simp [effects, trace, hs]
      | unchanged => simp [effects, trace, hs]

end Effects

section Soundness

/-- What may follow on a tracker: what is missing of its exchange, and a transcript. -/
def Continues (t : Tracker) (v : List Effect) : Prop :=
  ∃ u w, Completes t.phase t.exchange.awaitsResponse u ∧ IsTranscript w ∧ v = u ++ w

theorem exists_continues (t : Tracker) : ∃ v, Continues t v := by
  obtain ⟨u, hu⟩ := exists_completes t.phase t.exchange.awaitsResponse
  exact ⟨u ++ [], u, [], hu, .nil, rfl⟩

theorem Continues.isTranscript {t : Tracker} {v : List Effect} (hp : t.phase = .freeForSend)
    (h : Continues t v) : IsTranscript v := by
  obtain ⟨u, w, hu, hw, rfl⟩ := h
  rw [hp] at hu
  rw [hu.eq_nil]
  exact hw

/-- An accepted command is the first letter of what was missing before it. -/
theorem Continues.cons_of_moves {timing : Timing} {now : Instant} {t t' : Tracker} {c : Command}
    {v : List Effect} (h : Tracker.Moves timing now t c t') (hv : Continues t' v) :
    Continues t (⟨.command c now, t'.phase⟩ :: v) := by
  obtain ⟨u, w, hu, hw, rfl⟩ := hv
  cases h with
  | asked hr => exact ⟨[], _, .free, .cons (.asked now hr hu.isTail) hw, rfl⟩
  | announced hr => exact ⟨[], _, .free, .cons (hu.isExchange now hr) hw, rfl⟩
  | @confirmed e d receivedAt c he =>
      refine ⟨_ :: u, w, ?_, hw, rfl⟩
      rw [he]
      exact .confirmed receivedAt c now hu.isTail
  | @spread e d receivedAt c he =>
      refine ⟨_ :: u, w, ?_, hw, rfl⟩
      rw [he, hu.of_linger rfl]
      exact .spread receivedAt c now
  | @answered e d receivedAt length =>
      refine ⟨_ :: u, w, ?_, hw, rfl⟩
      rw [hu.of_linger rfl]
      exact .responding (.answered receivedAt length now)
  | freed hp =>
      rw [hu.eq_nil]
      exact ⟨_, w, .freed now hp, hw, rfl⟩

theorem Continues.cons_of_lapses {t t' : Tracker} {n : Notification} {v : List Effect}
    (h : Tracker.Lapses t n t') (hv : Continues t' v) :
    Continues t (⟨.expire, t'.phase⟩ :: v) := by
  obtain ⟨u, w, hu, hw, rfl⟩ := hv
  cases h with
  | unconfirmed =>
      obtain ⟨now, rfl⟩ := hu.of_timedOut rfl
      exact ⟨_, w, .unconfirmed now, hw, rfl⟩
  | unanswered =>
      obtain ⟨now, rfl⟩ := hu.of_timedOut rfl
      exact ⟨_, w, .responding (.unanswered now), hw, rfl⟩
  | drained hp =>
      rw [hu.eq_nil]
      exact ⟨_, w, .drained hp, hw, rfl⟩

/-- The effects of a run begin what may follow on its tracker. -/
theorem exists_effects_prefix (steps : List TrackerStep) (r : TrackerRun) :
    ∃ v, Continues r.tracker v ∧ r.effects steps <+: v := by
  induction steps generalizing r with
  | nil =>
      obtain ⟨v, hv⟩ := exists_continues r.tracker
      exact ⟨v, hv, List.nil_prefix⟩
  | cons s rest ih =>
      rcases r.step_cases s with ⟨c, now, t, rfl, ht, hs⟩ | ⟨n, t, rfl, ht, hs⟩ | ⟨ht, hs⟩
      · obtain ⟨v, hv, hpre⟩ := ih { r with tracker := t }
        refine ⟨_, hv.cons_of_moves ht, ?_⟩
        rw [effects_cons_of_moved hs]
        exact List.prefix_cons_inj _ |>.2 hpre
      · obtain ⟨v, hv, hpre⟩ := ih { r with tracker := t }
        refine ⟨_, hv.cons_of_lapses ht, ?_⟩
        rw [effects_cons_of_moved hs]
        exact List.prefix_cons_inj _ |>.2 hpre
      · obtain ⟨v, hv, hpre⟩ := ih (r.step s).2
        rw [ht] at hv
        rw [effects_cons_of_not_moved hs]
        exact ⟨v, hv, hpre⟩

end Soundness

section Completeness

/-- A word whose letters a run performs one after the other. -/
inductive Performs : TrackerRun → List Effect → TrackerRun → Prop
  | nil (r : TrackerRun) : Performs r [] r
  | cons {r r' r'' : TrackerRun} {e : Effect} {n : Option Notification} {w : List Effect}
      (he : r.step e.step = (.moved e.phase n, r')) (hw : Performs r' w r'') :
      Performs r (e :: w) r''

/-- The letters that are performed are the effects of their own steps. -/
theorem Performs.effects_eq {r r' : TrackerRun} {w : List Effect} (h : Performs r w r') :
    r.effects (w.map Effect.step) = w := by
  induction h with
  | nil => rfl
  | cons he _ ih => rw [List.map_cons, effects_cons_of_moved he, ih]

theorem Performs.append {r r' r'' : TrackerRun} {u w : List Effect} (hu : Performs r u r')
    (hw : Performs r' w r'') : Performs r (u ++ w) r'' := by
  induction hu with
  | nil => exact hw
  | cons he _ ih => exact .cons he (ih hw)

theorem Performs.exists_of_isPrefix {r r' : TrackerRun} {u w : List Effect} (hu : u <+: w)
    (hw : Performs r w r') : ∃ r'', Performs r u r'' := by
  induction hw generalizing u with
  | nil r =>
      rw [List.prefix_nil.1 hu]
      exact ⟨r, .nil r⟩
  | @cons r r₁ r₂ e n w he hw ih =>
      cases u with
      | nil => exact ⟨r, .nil r⟩
      | cons e' u =>
          obtain ⟨rfl, hu'⟩ := List.cons_prefix_cons.1 hu
          obtain ⟨r'', hr⟩ := ih hu'
          exact ⟨r'', .cons he hr⟩

theorem Performs.cons_of_moves {timing : Timing} {now : Instant} {c : Command} {t t' : Tracker}
    {p : Phase} {w : List Effect} {r : TrackerRun} (h : Tracker.Moves timing now t c t')
    (hp : t'.phase = p) (hw : Performs ⟨timing, t'⟩ w r) :
    Performs ⟨timing, t⟩ (⟨.command c now, p⟩ :: w) r := by
  subst hp
  have hs : step ⟨timing, t⟩ (.command c now) = (.moved t'.phase c.notification?, ⟨timing, t'⟩) := by
    simp [step, Tracker.handle_eq_ok_iff.2 h]
  exact .cons hs hw

theorem Performs.cons_of_lapses {timing : Timing} {n : Notification} {t t' : Tracker}
    {p : Phase} {w : List Effect} {r : TrackerRun} (h : Tracker.Lapses t n t')
    (hp : t'.phase = p) (hw : Performs ⟨timing, t'⟩ w r) :
    Performs ⟨timing, t⟩ (⟨.expire, p⟩ :: w) r := by
  subst hp
  have hs : step ⟨timing, t⟩ .expire = (.moved t'.phase (some n), ⟨timing, t'⟩) := by
    simp [step, Tracker.expire_eq_some_iff.2 h]
  exact .cons hs hw

theorem performs_reset (timing : Timing) (now : Instant) {p : Phase} (e : Exchange)
    (d : Option Instant) (hp : p.isTimedOut = true) :
    Performs ⟨timing, ⟨p, e, d⟩⟩ [.reset now .freeForSend] ⟨timing, .initial⟩ :=
  .cons_of_moves (.freed hp) rfl (.nil _)

theorem performs_drain (timing : Timing) {p : Phase} (e : Exchange) (d : Instant)
    (hp : p.isLinger = true) :
    Performs ⟨timing, ⟨p, e, some d⟩⟩ [.expiry .freeForSend] ⟨timing, .initial⟩ :=
  .cons_of_lapses (.drained hp) rfl (.nil _)

theorem performs_tail {tail : List Effect} (h : IsTail tail) (timing : Timing) (e : Exchange)
    (d : Instant) :
    Performs ⟨timing, ⟨.waitingForResponse, e, some d⟩⟩ tail ⟨timing, .initial⟩ := by
  cases h with
  | answered => exact .cons_of_moves .answered rfl (performs_drain timing _ _ rfl)
  | unanswered => exact .cons_of_lapses .unanswered rfl (performs_reset timing _ _ _ rfl)

/-- Every exchange can be performed on a free channel, which it leaves free. -/
theorem performs_exchange {r : Request} {x : List Effect} (h : IsExchange r x) (timing : Timing) :
    Performs ⟨timing, .initial⟩ x ⟨timing, .initial⟩ := by
  cases h with
  | asked now hr htail =>
      exact .cons_of_moves (.asked hr) rfl (performs_tail htail timing _ _)
  | spread now receivedAt c now' hb =>
      have he : (Exchange.ofRequest r).awaitsResponse = false := by
        simp [Exchange.ofRequest, hb]
      have hr := Request.isForCoordinator_of_isBroadcast hb
      exact .cons_of_moves (.announced hr) rfl
        (.cons_of_moves (.spread he) rfl (performs_drain timing _ _ rfl))
  | confirmed now receivedAt c now' hr hb htail =>
      have he : (Exchange.ofRequest r).awaitsResponse = true := by
        simp [Exchange.ofRequest, hb]
      exact .cons_of_moves (.announced hr) rfl
        (.cons_of_moves (.confirmed he) rfl (performs_tail htail timing _ _))
  | unconfirmed now now' hr =>
      exact .cons_of_moves (.announced hr) rfl
        (.cons_of_lapses .unconfirmed rfl (performs_reset timing _ _ _ rfl))

theorem performs_transcript {w : List Effect} (h : IsTranscript w) (timing : Timing) :
    Performs ⟨timing, .initial⟩ w ⟨timing, .initial⟩ := by
  induction h with
  | nil => exact .nil _
  | cons hx _ ih => exact (performs_exchange hx timing).append ih

end Completeness

/-- **The grammar of exchanges.** What takes effect on a tracker that starts on a free channel is a
prefix of exchanges one after the other, and every such prefix is what takes effect in some run. -/
theorem exists_effects_iff_prefix (timing : Timing) (w : List Effect) :
    (∃ steps, (⟨timing, .initial⟩ : TrackerRun).effects steps = w) ↔
      ∃ v, IsTranscript v ∧ w <+: v := by
  constructor
  · rintro ⟨steps, rfl⟩
    obtain ⟨v, hv, hpre⟩ := exists_effects_prefix steps ⟨timing, .initial⟩
    exact ⟨v, hv.isTranscript rfl, hpre⟩
  · rintro ⟨v, hv, hpre⟩
    obtain ⟨r, hr⟩ := (performs_transcript hv timing).exists_of_isPrefix hpre
    exact ⟨w.map Effect.step, hr.effects_eq⟩

end TrackerRun
end MeshExchange
