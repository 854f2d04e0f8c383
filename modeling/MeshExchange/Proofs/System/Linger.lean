import MeshExchange.Proofs.Budget.AirTime
import MeshExchange.Proofs.System.History

/-!
# How long the channel lingers

After the last frame of an exchange the mesh is busy for a while, which the frames of the exchange tell.
The channel is freed when that time is over, counted from the instant at which the frame was received;
at once if it was handled too late, and counted from its handling if it claims to come from the future.
Nothing that happens in between moves that instant.

**Input.** A run from the beginning, and a pass in it that accepts the last frame of an exchange.

**Method.** The passes before tell which exchange is open and whether it was confirmed, and the tracker
has the same on record. So the pass sets the deadline that the frames tell. Until the tracker moves
again the deadline stays, every command is refused, and the only move there is is the passing of the
deadline.

**Results.**
* `Pass.openExchange`: the exchange on the channel, told by the passes so far;
* `System.Evolves.recorded_eq`: it is the one on record;
* `System.Evolves.lingers`: a linger lasts up to its deadline;
* `System.lingers_of_steps`: the instant at which the channel is freed, in every run.
-/

namespace MeshExchange

namespace Pass

section OpenExchange

/-- What a pass makes of the exchange on the channel and its confirmation. -/
def exchangeAfter (x? : Option (Request × Option Confirmation)) (x : Pass) :
    Option (Request × Option Confirmation) :=
  match x.2.deed with
  | .handled _ (.newRequest r) (.ok _) => some (r, none)
  | .handled _ (.confirmationReceived _ c) (.ok _) => x?.map fun (r, _) => (r, some c)
  | .handled _ .resetAfterError (.ok _) | .expired .freeForSend => none
  | _ => x?

/-- The exchange that is open after a list of passes, and its confirmation if it had one. -/
def openExchange (h : List Pass) : Option (Request × Option Confirmation) :=
  h.foldl exchangeAfter none

end OpenExchange

end Pass

namespace Tracker

/-- The exchange on record, and its confirmation. -/
def recorded (t : Tracker) : Option (Request × Option Confirmation) :=
  t.exchange.request.map fun r => (r, t.exchange.confirmation)

theorem Moves.recorded_eq {timing : Timing} {now : Instant} {t t' : Tracker} {c : Command}
    (h : t.Moves timing now c t') {ticket : Ticket} {p : Phase}
    {heard : Option (Observer × Notification)} :
    t'.recorded = Pass.exchangeAfter t.recorded (now, ⟨.handled ticket c (.ok p), heard⟩) := by
  cases h with
  | asked => rfl
  | announced => rfl
  | confirmed => simp [recorded, Pass.exchangeAfter, Exchange.confirm, Function.comp_def]
  | spread => simp [recorded, Pass.exchangeAfter, Exchange.confirm, Function.comp_def]
  | answered => rfl
  | freed => rfl

theorem Lapses.recorded_eq {now : Instant} {t t' : Tracker} {n : Notification}
    (h : t.Lapses n t') {heard : Option (Observer × Notification)} :
    t'.recorded = Pass.exchangeAfter t.recorded (now, ⟨.expired n, heard⟩) := by
  cases h <;> rfl

section Deadlines

variable {timing : Timing} {now r : Instant} {t t' : Tracker}

theorem Moves.linger_of_confirmation {c : Confirmation} (ht : t.Coherent)
    (h : t.Moves timing now (.confirmationReceived r c) t') :
    ∃ q, t.recorded = some (q, none) ∧
      (q.isBroadcast = true → t'.phase = .waitingAfterConfirmation ∧
        t'.deadline = some (max now (min r now + c.airTime))) := by
  cases h with
  | confirmed he =>
      cases ht with
      | @confirming q _ _ =>
          refine ⟨q, rfl, fun hb => ?_⟩
          rw [Exchange.ofRequest, hb] at he
          cases he
  | spread he =>
      cases ht with
      | @confirming q _ _ =>
          refine ⟨q, rfl, fun _ => ⟨rfl, ?_⟩⟩
          rw [Budget.add_afterConfirmation]

theorem Moves.linger_of_response {length : Nat} (ht : t.Coherent)
    (h : t.Moves timing now (.responseReceived r length) t') :
    ∃ q confirmed, t.recorded = some (q, confirmed) ∧ t'.phase = .waitingAfterResponse ∧
      t'.deadline = some (max now (min r now + Confirmation.exchangeAirTime length confirmed)) := by
  cases h with
  | @answered e =>
      cases ht with
      | @responding q _ _ he =>
          refine ⟨q, e.confirmation, ?_, rfl, ?_⟩
          · rw [recorded, he.request_eq]
            rfl
          · rw [Budget.add_afterResponse]

end Deadlines

end Tracker

namespace System

section Record

variable {onTime : Prop} {s s' : System}

theorem WorksTo.recorded_eq {turn : Turn Observer} (hw : s.WorksTo turn s') :
    s'.machine.tracker.recorded =
      Pass.exchangeAfter s.machine.tracker.recorded (s.now, turn) := by
  cases hm : turn.deed.isMove with
  | false =>
      rw [hw.machine.tracker_eq hm]
      obtain ⟨deed, heard⟩ := turn
      cases deed with
      | stopped => rfl
      | expired => cases hm
      | handled ticket c reply =>
          cases reply with
          | error => cases c <;> rfl
          | ok => cases hm
  | true =>
      obtain ⟨-, ⟨n, rfl, -, ht⟩ | ⟨ticket, c, rfl, -, ht⟩⟩ := hw.machine.move_cases hm
      · exact ht.recorded_eq
      · exact ht.recorded_eq

/-- The passes of a run tell the exchange on record. -/
theorem Evolves.recorded_eq {h : List Pass} (he : Evolves onTime s h s') :
    s'.machine.tracker.recorded =
      h.foldl Pass.exchangeAfter s.machine.tracker.recorded := by
  induction he with
  | refl => rfl
  | spare hs _ _ ih =>
      rw [ih, Tracker.recorded, Tracker.recorded, hs.machine.tracker]
  | pass hw _ ih =>
      rw [ih, hw.recorded_eq]
      rfl

end Record

section Lingering

variable {onTime : Prop} {s s' : System} {p : Phase} {d : Instant} {h : List Pass}

/-- A linger up to an instant, in the passes that follow, of which a run ends in a system. -/
inductive Lingers (onTime : Prop) (p : Phase) (d : Instant) (s' : System) : List Pass → Prop
  /-- It goes on: everything was refused so far. -/
  | still {h : List Pass} (hq : ∀ x ∈ h, Pass.Refuses p (some d) x)
      (hl : s'.Lasts p .freeForSend d)
      (ht : onTime → s'.machine.status = .running → s'.now ≤ d) : Lingers onTime p d s' h
  /-- The channel was freed in the first pass from that instant on, and on time at that instant. -/
  | freed {quiet rest : List Pass} {n : Instant} {heard : Option (Observer × Notification)}
      {s₁ : System} (hq : ∀ x ∈ quiet, Pass.Refuses p (some d) x) (hn : d ≤ n)
      (ht : onTime → n = d) (hp : s₁.machine.phase = .freeForSend) (hs : s₁.now = n)
      (he : Evolves onTime s₁ rest s') :
      Lingers onTime p d s' (quiet ++ (n, ⟨.expired .freeForSend, heard⟩) :: rest)

/-- **A linger lasts up to its deadline**, whatever happens in it. -/
theorem Evolves.lingers (he : Evolves onTime s h s') (hs : Sound s)
    (hp : s.machine.tracker.phase = p) (hl : p.isLinger = true)
    (hd : s.machine.tracker.deadline = some d) (hn : s.now ≤ d)
    (hc : s.machine.status ≠ .created) : Lingers onTime p d s' h := by
  have hk : p.notice? = some .freeForSend := by
    cases p <;> first | rfl | cases hl
  rcases he.still_or_move hs with hr | ⟨h₁, s₁, turn, s₂, h₂, rfl, hr, hw, hm, he₂⟩
  · have hq := hr.refuses
    rw [hp, hd] at hq
    have hlast := (he.sound hs).lasts (hr.tracker ▸ hp) (hr.tracker ▸ hd) hk
    exact .still hq hlast fun ho hrun => hr.now_le ho hd hc hn hrun
  · have hq := hr.refuses
    have hs₁ := hr.run.sound hs
    have hp₁ : s₁.machine.tracker.phase = p := by
      rw [hr.tracker, hp]
    rw [hp, hd] at hq
    obtain ⟨hrun, ⟨n, rfl, hdue, ht⟩ | ⟨ticket, c, rfl, -, ht⟩⟩ := hw.machine.move_cases hm
    · have hn' := ht.notice?_eq
      rw [hp₁, hk] at hn'
      cases hn'
      obtain ⟨d', hd', hle⟩ := Tracker.isDue_eq_true_iff.1 hdue
      rw [hr.tracker, hd] at hd'
      cases hd'
      have hlate : onTime → s₁.now = d := fun ho =>
        Nat.le_antisymm (hr.now_le ho hd hc hn hrun) hle
      have hfree : s₂.machine.phase = .freeForSend := by
        rw [(hs₁.of_worksTo hw).phase, ht.eq_initial]
        rfl
      exact .freed hq hle hlate hfree hw.now he₂
    · have hl₁ := ht.isLinger_eq_false
      rw [hp₁, hl] at hl₁
      cases hl₁

/-- A pass that the journal of a run tells of, with the system in which it is made: the passes before it
tell the exchange on record there. -/
theorem exists_worksTo_of_passes {setup : Setup} {as : List Action} {before after : List Pass}
    {n : Instant} {turn : Turn Observer} (hs : setup.assemble = .ok s) (has : s.steps as = some s')
    (hj : passes s'.journal = before ++ (n, turn) :: after) :
    ∃ s₁ s₂, s₁.now = n ∧ Sound s₁ ∧ s₁.WorksTo turn s₂ ∧
      Evolves (s.isPunctual as = true) s₂ after s' ∧
      Pass.openExchange before = s₁.machine.tracker.recorded := by
  obtain ⟨h, he, hh⟩ := evolves_of_steps (s.isPunctual as = true) as has id
  rw [(assemble_eq hs).2.2] at hh
  obtain rfl : h = before ++ (n, turn) :: after := by
    rw [← hj, hh]
    rfl
  obtain ⟨s₀, he₀, he'⟩ := he.split
  obtain ⟨s₁, s₂, he₁, rfl, hw, he₂⟩ := he'.of_cons
  have hbefore : Evolves (s.isPunctual as = true) s before s₁ := by
    simpa using he₀.trans he₁
  refine ⟨s₁, s₂, rfl, hbefore.sound (sound_of_assemble hs), hw, he₂, ?_⟩
  rw [hbefore.recorded_eq, (assemble_eq hs).1]
  rfl

/-- **The end of a linger**, in every run from the beginning: the instant at which the channel is freed
after the confirmation of a broadcast, and after a response. -/
theorem lingers_of_steps {setup : Setup} {as : List Action} {before after : List Pass}
    {n : Instant} {turn : Turn Observer} (hs : setup.assemble = .ok s) (has : s.steps as = some s')
    (hj : passes s'.journal = before ++ (n, turn) :: after) :
    (∀ ticket r c p heard,
      turn = ⟨.handled ticket (.confirmationReceived r c) (.ok p), heard⟩ →
      ∃ q, Pass.openExchange before = some (q, none) ∧
        (q.isBroadcast = true → p = .waitingAfterConfirmation ∧
          Lingers (s.isPunctual as = true) p (max n (min r n + c.airTime)) s' after)) ∧
    (∀ ticket r length p heard,
      turn = ⟨.handled ticket (.responseReceived r length) (.ok p), heard⟩ →
      ∃ q confirmed, Pass.openExchange before = some (q, confirmed) ∧
        p = .waitingAfterResponse ∧
          Lingers (s.isPunctual as = true) p
            (max n (min r n + Confirmation.exchangeAirTime length confirmed)) s' after) := by
  obtain ⟨s₁, s₂, rfl, hs₁, hw, he, hrec⟩ := exists_worksTo_of_passes hs has hj
  have hs₂ := hs₁.of_worksTo hw
  refine ⟨?_, ?_⟩
  · rintro ticket r c p heard rfl
    obtain ⟨rfl, ht⟩ := hw.machine.moves_of_accepted
    obtain ⟨q, hq, hl⟩ := ht.linger_of_confirmation hs₁.coherent
    refine ⟨q, by rw [hrec, hq], fun hb => ?_⟩
    obtain ⟨hp, hd⟩ := hl hb
    refine ⟨hp, he.lingers hs₂ rfl (by rw [hp]; rfl) hd ?_ hw.machine.status_ne_created⟩
    rw [hw.now]
    exact Nat.le_max_left _ _
  · rintro ticket r length p heard rfl
    obtain ⟨rfl, ht⟩ := hw.machine.moves_of_accepted
    obtain ⟨q, confirmed, hq, hp, hd⟩ := ht.linger_of_response hs₁.coherent
    refine ⟨q, confirmed, by rw [hrec, hq], hp, ?_⟩
    refine he.lingers hs₂ rfl (by rw [hp]; rfl) hd ?_ hw.machine.status_ne_created
    rw [hw.now]
    exact Nat.le_max_left _ _

/-- A broadcast that is confirmed late, another request in the linger, and the end of it on time. -/
theorem lingers_of_steps_of_broadcast :
    ∃ s s' : System, Setup.assemble {} = .ok s ∧
      s.steps [.call 0 (.start true), .resume 0, .call 0 (.newRequest ⟨.broadcast, 0, 0, 0, []⟩),
        .resume 1, .work, .elapse (Duration.millis 10), .call 0 (.confirmation ⟨1, 2, 0⟩ (some 0)),
        .resume 2, .work, .elapse (Duration.millis 20),
        .call 0 (.newRequest ⟨.broadcast, 0, 0, 0, []⟩), .resume 3, .work,
        .elapse (Duration.millis 40), .work] = some s' ∧
      ∃ before n ticket p heard after,
        passes s'.journal = before ++
          (n, ⟨.handled ticket (.confirmationReceived 0 ⟨1, 2, 0⟩) (.ok p), heard⟩) :: after ∧
        ∃ q, Pass.openExchange before = some (q, none) ∧
          (q.isBroadcast = true → p = .waitingAfterConfirmation ∧ ∃ onTime,
            Lingers onTime p (max n (min 0 n + Confirmation.airTime ⟨1, 2, 0⟩)) s' after) := by
  obtain ⟨s, hs, hrun⟩ : ∃ s, Setup.assemble {} = .ok s ∧
      ((s.steps [.call 0 (.start true), .resume 0,
        .call 0 (.newRequest ⟨.broadcast, 0, 0, 0, []⟩), .resume 1, .work,
        .elapse (Duration.millis 10), .call 0 (.confirmation ⟨1, 2, 0⟩ (some 0)), .resume 2, .work,
        .elapse (Duration.millis 20), .call 0 (.newRequest ⟨.broadcast, 0, 0, 0, []⟩), .resume 3,
        .work, .elapse (Duration.millis 40), .work]).any fun s' =>
          passes s'.journal =
            [(0, ⟨.handled 0 (.newRequest ⟨.broadcast, 0, 0, 0, []⟩)
              (.ok .waitingForConfirmation), none⟩)] ++
            (Duration.millis 10, ⟨.handled 1 (.confirmationReceived 0 ⟨1, 2, 0⟩)
              (.ok .waitingAfterConfirmation), none⟩) ::
            [(Duration.millis 20, ⟨.handled 2 (.newRequest ⟨.broadcast, 0, 0, 0, []⟩)
              (.error (.contractViolation .newRequest .waitingAfterConfirmation)), none⟩),
            (Duration.millis 40, ⟨.expired .freeForSend, none⟩)]) = true :=
    ⟨_, rfl, by decide +kernel⟩
  obtain ⟨s', has, hj⟩ := (Option.any_eq_true _ _).1 hrun
  have hj := of_decide_eq_true hj
  obtain ⟨q, hq, hl⟩ := (lingers_of_steps hs has hj).1 _ _ _ _ _ rfl
  exact ⟨s, s', hs, has, _, _, _, _, _, _, hj, q, hq, fun hb => ⟨(hl hb).1, _, (hl hb).2⟩⟩

end Lingering

end System
end MeshExchange
