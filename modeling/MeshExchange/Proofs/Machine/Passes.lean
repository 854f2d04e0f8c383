import MeshExchange.Machine.Worker
import MeshExchange.Proofs.Tracker.Coherence

/-!
# Passes of the worker

One pass of the worker as a relation, with a case for each thing the worker can do: it follows the
order to stop, lets the phase end, or handles the command in the slot, which is accepted or refused.

**Results.**
* `Machine.turn_eq_some_iff`: the passes the worker makes, and the machine after them;
* `Machine.dueExpiry_eq_none_iff`: a command is handled only before the deadline;
* `Machine.Works.tracker_eq`: a pass that is no move leaves the tracker alone;
* `Machine.Works.coherent`, `Machine.Works.phase_eq`: what every pass keeps.
-/

namespace MeshExchange

/-- Whether a deed moved the tracker. -/
def Deed.isMove : Deed → Bool
  | .expired _ | .handled _ _ (.ok _) => true
  | .stopped | .handled _ _ (.error _) => false

/-- What a listener is told after a deed. -/
def Deed.notification? : Deed → Option Notification
  | .expired n => some n
  | .handled _ c (.ok _) => c.notification?
  | .stopped | .handled _ _ (.error _) => none

theorem Deed.isMove_of_notification? {d : Deed} {n : Notification}
    (h : d.notification? = some n) : d.isMove = true := by
  cases d with
  | stopped => cases h
  | expired => rfl
  | handled ticket c reply =>
      cases reply with
      | error => cases h
      | ok => rfl

/-- Whether the callback of whoever is notified in a pass returns. -/
def Turn.returns {L : Type} (callback : Callback L) (turn : Turn L) : Bool :=
  turn.notified.all fun (l, n) => (callback l n).returns

namespace Machine

variable {L : Type}

theorem exists_timing_of_create {settings : Settings} {m : Machine L}
    (h : create settings = .ok m) :
    ∃ timing, Timing.ofSettings settings = .ok timing ∧ m = { settings, timing } := by
  unfold create at h
  cases hv : settings.validate with
  | error fault => rw [hv] at h; cases h
  | ok u =>
      cases ht : Timing.ofSettings settings with
      | error fault => rw [hv, ht] at h; cases h
      | ok timing =>
          rw [hv, ht] at h
          cases h
          exact ⟨timing, rfl, rfl⟩

section Notifying

variable (callback : Callback L) (n : Notification) (n? : Option Notification) (m : Machine L)

/-- A notification changes nothing but the registration, and ends the worker at most. -/
theorem notify_cases : ∃ listener,
    m.notify callback n = { m with listener } ∨
      m.notify callback n = { m with listener }.close .failed := by
  unfold notify
  split
  · exact ⟨_, .inl rfl⟩
  · dsimp only
    split
    · exact ⟨_, .inl rfl⟩
    · exact ⟨_, .inr rfl⟩

/-- Notifies the listener, if there is anything to tell. -/
def announce : Machine L := n?.elim m fun n => m.notify callback n

theorem announce_cases : ∃ listener,
    m.announce callback n? = { m with listener } ∨
      m.announce callback n? = { m with listener }.close .failed := by
  cases n? with
  | none => exact ⟨_, .inl rfl⟩
  | some n => exact notify_cases callback n m

theorem snd_of_mem_audience {y : L × Notification} (hy : y ∈ m.audience n) : y.2 = n := by
  obtain ⟨l, -, rfl⟩ := Option.map_eq_some_iff.1 hy
  rfl

@[simp] theorem announce_tracker : (m.announce callback n?).tracker = m.tracker := by
  obtain ⟨listener, h | h⟩ := announce_cases callback n? m
  · rw [h]
  · rw [h]
    rfl

@[simp] theorem announce_phase : (m.announce callback n?).phase = m.phase := by
  obtain ⟨listener, h | h⟩ := announce_cases callback n? m
  · rw [h]
  · rw [h]
    rfl

@[simp] theorem announce_settings : (m.announce callback n?).settings = m.settings := by
  obtain ⟨listener, h | h⟩ := announce_cases callback n? m
  · rw [h]
  · rw [h]
    rfl

theorem announce_status :
    (m.announce callback n?).status = m.status ∨ (m.announce callback n?).status = .failed := by
  obtain ⟨listener, h | h⟩ := announce_cases callback n? m
  · rw [h]
    exact .inl rfl
  · rw [h]
    exact .inr rfl

/-- The worker ends with a callback that does not return, and with no other. -/
theorem announce_status_eq (d : Deed) :
    (m.announce callback n?).status =
      if Turn.returns callback ⟨d, n?.bind m.audience⟩ then m.status else .failed := by
  cases n? with
  | none => rfl
  | some n =>
      cases hl : m.listener with
      | none => simp [announce, notify, audience, Turn.returns, hl]
      | some l =>
          cases hr : (callback l n).returns <;>
            simp [announce, notify, audience, Turn.returns, close, hl, hr]

end Notifying

/-- The machine after its worker has accepted a command, before the listener is notified. -/
def accepted (m : Machine L) (ticket : Ticket) (mailbox : Mailbox) (t : Tracker) : Machine L :=
  { m with
    mailbox, tracker := t, phase := t.phase
    replies := m.replies ++ [(ticket, .ok t.phase)] }

/-- The machine after its worker has refused a command. -/
def refused (m : Machine L) (ticket : Ticket) (mailbox : Mailbox) (fault : Fault) : Machine L :=
  { m with mailbox, replies := m.replies ++ [(ticket, .error fault)] }

/-- What the worker does in one pass. -/
inductive Works (callback : Callback L) (now : Instant) (m : Machine L) : Turn L → Machine L → Prop
  | stops (hs : m.status = .stopping) : Works callback now m ⟨.stopped, none⟩ (m.close .destroyed)
  | lapses {t : Tracker} {n : Notification} (hs : m.status = .running)
      (hd : m.tracker.isDue now = true) (ht : m.tracker.Lapses n t) :
      Works callback now m ⟨.expired n, m.audience n⟩
        ({ m with tracker := t, phase := t.phase }.announce callback (some n))
  | accepts {ticket : Ticket} {c : Command} {mailbox : Mailbox} {t : Tracker}
      (hs : m.status = .running) (hd : m.dueExpiry now = none)
      (hb : m.mailbox.take? = some (ticket, c, mailbox))
      (ht : m.tracker.Moves m.timing now c t) :
      Works callback now m
        ⟨.handled ticket c (.ok t.phase), c.notification?.bind m.audience⟩
        ((m.accepted ticket mailbox t).announce callback c.notification?)
  | refuses {ticket : Ticket} {c : Command} {mailbox : Mailbox} {fault : Fault}
      (hs : m.status = .running) (hd : m.dueExpiry now = none)
      (hb : m.mailbox.take? = some (ticket, c, mailbox))
      (hf : m.tracker.phase.refusal? c = some fault) :
      Works callback now m ⟨.handled ticket c (.error fault), none⟩
        (m.refused ticket mailbox fault)

section Passes

variable {callback : Callback L} {now : Instant} {m m' : Machine L} {turn : Turn L}
  {ticket : Ticket} {c : Command} {mailbox : Mailbox}

theorem turn_of_running (hs : m.status = .running) :
    m.turn callback now =
      match m.dueExpiry now with
      | some (t, n) => some (m.expireTo callback t n)
      | none =>
          m.mailbox.take?.map fun (ticket, c, mailbox) =>
            { m with mailbox }.handleCommand callback now ticket c := by
  unfold Machine.turn
  split
  · next h =>
      rw [hs] at h
      cases h
  · rfl
  · next h => exact absurd hs h

theorem handleCommand_of_moves {t : Tracker} (ht : m.tracker.Moves m.timing now c t) :
    { m with mailbox }.handleCommand callback now ticket c =
      (⟨.handled ticket c (.ok t.phase), c.notification?.bind m.audience⟩,
        (m.accepted ticket mailbox t).announce callback c.notification?) := by
  have hh : m.tracker.handle m.timing now c = .ok t := Tracker.handle_eq_ok_iff.2 ht
  cases hn : c.notification? with
  | none =>
      simp only [handleCommand, hh, hn]
      rfl
  | some n =>
      simp only [handleCommand, hh, hn]
      rfl

theorem handleCommand_of_refusal {fault : Fault}
    (hf : m.tracker.phase.refusal? c = some fault) :
    { m with mailbox }.handleCommand callback now ticket c =
      (⟨.handled ticket c (.error fault), none⟩, m.refused ticket mailbox fault) := by
  have hh : m.tracker.handle m.timing now c = .error fault := Tracker.handle_eq_error_iff.2 hf
  simp only [handleCommand, hh]
  rfl

theorem dueExpiry_eq_some_iff {t : Tracker} {n : Notification} :
    m.dueExpiry now = some (t, n) ↔ m.tracker.isDue now = true ∧ m.tracker.Lapses n t := by
  unfold dueExpiry
  split
  · next h => simp [h, Tracker.expire_eq_some_iff]
  · next h => simp [h]

/-- A command is handled only before the deadline. -/
theorem dueExpiry_eq_none_iff (hm : m.tracker.Coherent) :
    m.dueExpiry now = none ↔ ∀ d, m.tracker.deadline = some d → now < d := by
  constructor
  · intro h d hd
    by_cases hdue : d ≤ now
    · obtain ⟨t, n, ht⟩ := hm.exists_lapses hd
      have hx := dueExpiry_eq_some_iff.2 ⟨Tracker.isDue_of_deadline hd hdue, ht⟩
      rw [h] at hx
      cases hx
    · exact Nat.lt_of_not_le hdue
  · intro h
    cases hx : m.dueExpiry now with
    | none => rfl
    | some x =>
        obtain ⟨d, hd, hle⟩ := Tracker.isDue_eq_true_iff.1 (dueExpiry_eq_some_iff.1 hx).1
        exact absurd (h d hd) (Nat.not_lt.2 hle)

/-- **The passes of the worker.** -/
theorem turn_eq_some_iff :
    m.turn callback now = some (turn, m') ↔ Works callback now m turn m' := by
  constructor
  · intro h
    cases hs : m.status with
    | stopping =>
        simp only [Machine.turn, hs] at h
        cases h
        exact .stops hs
    | running =>
        rw [turn_of_running hs] at h
        split at h
        · next t n hx =>
            cases h
            obtain ⟨hd, ht⟩ := dueExpiry_eq_some_iff.1 hx
            exact .lapses hs hd ht
        · next hx =>
            obtain ⟨⟨ticket, c, mailbox⟩, hb, hm⟩ := Option.map_eq_some_iff.1 h
            dsimp only at hm
            cases hf : m.tracker.phase.refusal? c with
            | some fault =>
                rw [handleCommand_of_refusal hf] at hm
                cases hm
                exact .refuses hs hx hb hf
            | none =>
                obtain ⟨t, ht, -⟩ :=
                  Tracker.exists_moves_of_refusal_eq_none m.timing now hf
                rw [handleCommand_of_moves ht] at hm
                cases hm
                exact .accepts hs hx hb ht
    | _ => simp [Machine.turn, hs] at h
  · intro h
    cases h with
    | stops hs =>
        simp only [Machine.turn, hs]
        rfl
    | lapses hs hd ht =>
        rw [turn_of_running hs, dueExpiry_eq_some_iff.2 ⟨hd, ht⟩]
        rfl
    | accepts hs hd hb ht =>
        rw [turn_of_running hs, hd, hb]
        exact congrArg some (handleCommand_of_moves ht)
    | refuses hs hd hb hf =>
        rw [turn_of_running hs, hd, hb]
        exact congrArg some (handleCommand_of_refusal hf)

/-- Whoever is told of anything is the listener before the pass. -/
theorem Works.notified_eq (h : Works callback now m turn m') :
    turn.notified = turn.deed.notification?.bind m.audience := by
  cases h <;> rfl

/-- **A move of the tracker** is the passing of its deadline, or a command that is accepted before. -/
theorem Works.move_cases (h : Works callback now m turn m') (hm : turn.deed.isMove = true) :
    m.status = .running ∧
      ((∃ n, turn = ⟨.expired n, m.audience n⟩ ∧ m.tracker.isDue now = true ∧
          m.tracker.Lapses n m'.tracker) ∨
        ∃ ticket c, turn =
            ⟨.handled ticket c (.ok m'.tracker.phase), c.notification?.bind m.audience⟩ ∧
          m.dueExpiry now = none ∧ m.tracker.Moves m.timing now c m'.tracker) := by
  cases h with
  | stops => cases hm
  | refuses => cases hm
  | @lapses t n hs hd ht =>
      refine ⟨hs, .inl ⟨n, rfl, hd, ?_⟩⟩
      rw [announce_tracker]
      exact ht
  | @accepts ticket c mailbox t hs hd hb ht =>
      refine ⟨hs, .inr ⟨ticket, c, ?_, hd, ?_⟩⟩
      · rw [announce_tracker]
        rfl
      · rw [announce_tracker]
        exact ht

theorem Works.moves_of_accepted {p : Phase} {heard : Option (L × Notification)}
    (h : Works callback now m ⟨.handled ticket c (.ok p), heard⟩ m') :
    p = m'.tracker.phase ∧ m.tracker.Moves m.timing now c m'.tracker := by
  obtain ⟨-, ⟨n, hx, -, -⟩ | ⟨ticket', c', hx, -, ht⟩⟩ := h.move_cases rfl
  · cases hx
  · cases hx
    exact ⟨rfl, ht⟩

/-- A command that is refused changes neither the tracker nor what was published. -/
theorem Works.of_refused {fault : Fault} {heard : Option (L × Notification)}
    (h : Works callback now m ⟨.handled ticket c (.error fault), heard⟩ m') :
    m.tracker.phase.refusal? c = some fault ∧ m'.tracker = m.tracker ∧ m'.phase = m.phase := by
  cases h with
  | refuses hs hd hb hf => exact ⟨hf, rfl, rfl⟩

/-- A pass that is no move leaves the tracker alone. -/
theorem Works.tracker_eq (h : Works callback now m turn m') (hm : turn.deed.isMove = false) :
    m'.tracker = m.tracker := by
  cases h with
  | stops => rfl
  | refuses => rfl
  | lapses => cases hm
  | accepts => cases hm

theorem Works.coherent (h : Works callback now m turn m') (hm : m.tracker.Coherent) :
    m'.tracker.Coherent := by
  cases h with
  | stops => exact hm
  | refuses => exact hm
  | lapses _ _ ht =>
      rw [announce_tracker]
      exact ht.coherent hm
  | accepts _ _ _ ht =>
      rw [announce_tracker]
      exact ht.coherent hm

/-- The phase of the tracker is the published one, before a pass and after it. -/
theorem Works.phase_eq (h : Works callback now m turn m') (hm : m.phase = m.tracker.phase) :
    m'.phase = m'.tracker.phase := by
  cases h with
  | stops => exact hm
  | refuses => exact hm
  | lapses => simp
  | accepts => simp [accepted]

/-- After a pass the machine runs as before, or its worker has stopped, or a listener has ended it. -/
theorem Works.status_cases (h : Works callback now m turn m') :
    m'.status = .running ∨ m'.status = .destroyed ∨
      (m'.status = .failed ∧ m'.tracker.deadline = none) := by
  cases h with
  | stops => exact .inr (.inl rfl)
  | refuses hs => exact .inl hs
  | lapses hs _ ht =>
      obtain h | h := announce_status callback _ _
      · exact .inl (h.trans hs)
      · refine .inr (.inr ⟨h, ?_⟩)
        rw [announce_tracker]
        exact ht.deadline_eq_none
  | @accepts ticket c mailbox t hs _ _ ht =>
      cases hn : c.notification? with
      | none => exact .inl hs
      | some n =>
          obtain h | h := announce_status callback (some n) (m.accepted ticket mailbox t)
          · exact .inl (h.trans hs)
          · refine .inr (.inr ⟨h, ?_⟩)
            rw [announce_tracker]
            rw [accepted, (ht.eq_initial hn).2]
            rfl

theorem Works.status_ne_created (h : Works callback now m turn m') : m'.status ≠ .created := by
  rcases h.status_cases with hs | hs | ⟨hs, -⟩ <;> simp [hs]

theorem Works.status_eq_running (h : Works callback now m turn m')
    (hr : m'.status = .running) : m.status = .running := by
  cases h with
  | stops => cases hr
  | lapses hs => exact hs
  | accepts hs => exact hs
  | refuses hs => exact hs

/-- The worker stops as it was told to, or it runs and goes on unless a listener ends it. -/
theorem Works.stops_or_runs (h : Works callback now m turn m') :
    (m.status = .stopping ∧ turn = ⟨.stopped, none⟩ ∧ m' = m.close .destroyed) ∨
      (m.status = .running ∧ (m'.status = .running ∨ m'.status = .failed)) := by
  cases h with
  | stops hs => exact .inl ⟨hs, rfl, rfl⟩
  | refuses hs => exact .inr ⟨hs, .inl hs⟩
  | lapses hs =>
      refine .inr ⟨hs, ?_⟩
      obtain h | h := announce_status callback _ _
      · exact .inl (h.trans hs)
      · exact .inr h
  | accepts hs =>
      refine .inr ⟨hs, ?_⟩
      obtain h | h := announce_status callback _ _
      · exact .inl (h.trans hs)
      · exact .inr h

/-- The same, and what becomes of the worker that goes on: it ends with a callback that does not return. -/
theorem Works.status_eq (h : Works callback now m turn m') :
    (m.status = .stopping ∧ m'.status = .destroyed) ∨
      (m.status = .running ∧ m'.status = if turn.returns callback then .running else .failed) := by
  cases h with
  | stops hs => exact .inl ⟨hs, rfl⟩
  | refuses hs => exact .inr ⟨hs, hs⟩
  | @lapses t n hs =>
      refine .inr ⟨hs, ?_⟩
      rw [announce_status_eq callback _ _ (.expired n)]
      exact hs ▸ rfl
  | @accepts ticket c mailbox t hs =>
      refine .inr ⟨hs, ?_⟩
      rw [announce_status_eq callback _ _ (.handled ticket c (.ok t.phase))]
      exact hs ▸ rfl

theorem Works.settings_eq (h : Works callback now m turn m') : m'.settings = m.settings := by
  cases h with
  | stops => rfl
  | refuses => rfl
  | lapses => simp
  | accepts => simp [accepted]

end Passes

end Machine
end MeshExchange
