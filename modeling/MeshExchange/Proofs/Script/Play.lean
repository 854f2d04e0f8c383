import MeshExchange.Proofs.Machine.Passes
import MeshExchange.Proofs.Script.Ledger
import MeshExchange.Proofs.System.Sparing
import MeshExchange.Session.Schedule

/-!
# Scripts on a machine

A script is played by a caller that makes its calls one after the other and waits for each answer. In
between anybody acts who can, in any order; the clock stands still while anybody can, and then jumps to
the next timer.

**Results.**
* `System.Plays`, `System.Played`: one thing that happens while a script is played, and a run of them;
* `System.Attended`: the machines that a script is played on;
* `System.core`: what matters of them;
* `System.Attended.work_cases`: what the worker does to it;
* `System.issue_sleep`, `System.issue_timing`, `System.issue_command`: what a call does to it when it
  is made.
-/

namespace MeshExchange

namespace Observer

/-- An observer that leaves the machine alone. -/
def IsSteady (o : Observer) : Prop := ∀ n, o.react n = {}

/-- An observer whose callback returns to the worker. -/
def Returns (o : Observer) : Prop := ∀ n, (o.react n).returns = true

theorem returns_of_mem_swaps {o o' : Observer} {n : Notification}
    (h : some o' ∈ (o.react n).swaps) : o'.Returns := by
  unfold react at h
  split at h
  · simp at h
  · simp only [List.mem_singleton, Option.some.injEq] at h
    subst h
    exact fun _ => rfl
  all_goals simp at h

end Observer

namespace Mailbox

variable {b b' : Mailbox} {ticket : Ticket} {c : Command}

theorem submit_of_slot_eq_empty (h : b.slot = .empty) :
    b.submit c = { b with slot := .full b.nextTicket c, nextTicket := b.nextTicket + 1 } := by
  rw [submit, h]

/-- Nobody waits for the slot: once it is emptied it stays empty. -/
theorem take?_eq_some (hq : b.queue = []) (h : b.take? = some (ticket, c, b')) :
    b.slot = .full ticket c ∧ b' = { b with slot := .empty } := by
  unfold take? at h
  split at h
  · next hs =>
      cases h
      refine ⟨hs, ?_⟩
      rw [grantNext, hq]
  · cases h

end Mailbox

namespace Machine

/-- A caller that has handed its command in finds its reply, whatever else is going on. -/
theorem pursue_of_reply? {m : Machine Observer} {p : Pending} {now : Instant} {reply : Reply}
    (hb : m.mailbox.handIn? p.ticket = none) (hr : m.reply? p.ticket = some reply) :
    m.pursue p now = some (some reply, m.fetched p.ticket) := by
  rw [pursue, hb, hr]

/-- It waits while there is none. -/
theorem pursue_eq_none {m : Machine Observer} {p : Pending} {now : Instant}
    (hb : m.mailbox.handIn? p.ticket = none) (hr : m.reply? p.ticket = none)
    (hrun : m.status = .running) (hg : now < p.giveUp) : m.pursue p now = none := by
  simp [pursue, hb, hr, hrun, Status.isClosed, Nat.not_le.2 hg]

theorem pursue_of_full {m : Machine Observer} {p : Pending} {now : Instant} {ticket : Ticket}
    {c : Command} (hs : m.mailbox.slot = .full ticket c) (hr : m.replies = [])
    (hrun : m.status = .running) (hg : now < p.giveUp) : m.pursue p now = none :=
  pursue_eq_none (by simp [Mailbox.handIn?, hs]) (by simp [reply?, hr]) hrun hg

theorem pursue_of_reply {m : Machine Observer} {p : Pending} {now : Instant} {reply : Reply}
    (hs : m.mailbox.slot = .empty) (hr : m.replies = [(p.ticket, reply)]) :
    m.pursue p now = some (some reply, { m with replies := [] }) := by
  have hreply : m.reply? p.ticket = some reply := by simp [reply?, hr]
  rw [pursue_of_reply? (by simp [Mailbox.handIn?, hs]) hreply]
  simp [fetched, hr]

/-- A listener that returns may change the registration, and nothing else; a steady one keeps it. -/
theorem exists_announce_eq {m : Machine Observer} (hl : ∀ o, m.listener = some o → o.Returns)
    (n? : Option Notification) : ∃ listener, m.announce Observer.react n? = { m with listener } ∧
      (∀ o, listener = some o → o.Returns) ∧
      ∀ o, o.IsSteady → m.listener = some o → listener = some o := by
  cases n? with
  | none => exact ⟨m.listener, rfl, hl, fun _ _ h => h⟩
  | some n =>
      simp only [announce, Option.elim_some, notify]
      split
      · exact ⟨m.listener, rfl, hl, fun _ _ h => h⟩
      · next o h =>
          rw [if_pos (hl o h n)]
          refine ⟨_, rfl, ?_, ?_⟩
          · cases hs : (o.react n).swaps.getLast? with
            | none => exact hl
            | some l? =>
                rintro o' rfl
                exact Observer.returns_of_mem_swaps (List.mem_of_getLast? hs)
          · intro o' ho h'
            rw [h] at h'
            cases h'
            rw [ho n]
            exact h

end Machine

namespace System

section Playing

/-- What happens while a script is played: a system and the calls that are left. -/
inductive Plays : System × List Call → System × List Call → Prop
  /-- The caller is through with its calls so far and makes the next one. -/
  | issue {s s' : System} {c : Call} {rest : List Call} (ht : s.isThrough = true)
      (h : s.steps [.call s.now c, .resume s.callers.length] = some s') :
      Plays (s, c :: rest) (s', rest)
  | act {s s' : System} {a : Action} {rest : List Call}
      (ha : a = .work ∨ a = .deliver ∨ ∃ i, a = .resume i) (h : s.step a = some s') :
      Plays (s, rest) (s', rest)
  /-- Nobody can act, and the clock jumps. -/
  | elapse {s s' : System} {t : Instant} {rest : List Call} (ha : s.isAble = false)
      (ht : s.isThrough = false) (hn : s.nextTimer? = some t) (h : s.step (.elapse t) = some s') :
      Plays (s, rest) (s', rest)

/-- So many things that happen one after the other. -/
inductive Played : Nat → System × List Call → System × List Call → Prop
  | refl (x : System × List Call) : Played 0 x x
  | tail {k : Nat} {x y z : System × List Call} (h : Played k x y) (hs : Plays y z) :
      Played (k + 1) x z

/-- The same as a function: an action, or without one the next call. -/
def play? (x : System × List Call) : Option Action → Option (System × List Call)
  | none =>
      match x.2 with
      | [] => none
      | c :: rest =>
          if x.1.isThrough then
            (x.1.steps [.call x.1.now c, .resume x.1.callers.length]).map fun s => (s, rest)
          else none
  | some (.call _ _) => none
  | some (.elapse t) =>
      if x.1.isAble = false ∧ x.1.isThrough = false ∧ x.1.nextTimer? = some t then
        (x.1.step (.elapse t)).map fun s => (s, x.2)
      else none
  | some a => (x.1.step a).map fun s => (s, x.2)

/-- What the worker had to tell, whether anybody heard it or not. -/
def issued (s : System) : List Notification :=
  (passes s.journal).filterMap fun x => x.2.deed.notification?

/-- A machine that runs with a listener that returns, and that nobody but the caller of a script
uses. -/
structure Attended (o : Observer) (s : System) : Prop where
  running : s.machine.status = .running
  returns : ∀ o, s.machine.listener = some o → o.Returns
  heard : o.IsSteady → s.machine.listener = some o ∧ s.notifications o = s.issued
  phase : s.machine.phase = s.machine.tracker.phase
  guard : 0 < s.machine.settings.stateChangeLimit
  queue : s.machine.mailbox.queue = []
  deliveries : s.deliveries = []
  pump : s.pump = .idle

/-- What matters of such a system. -/
structure Core where
  now : Instant
  timing : Timing
  slot : Slot
  replies : List (Ticket × Reply)
  callers : List Stage
  standing : Standing
  deriving DecidableEq, Repr

/-- The tracker and all that there was to tell. -/
def standing (s : System) : Standing := ⟨s.machine.tracker, s.issued⟩

def core (s : System) : Core :=
  ⟨s.now, s.machine.timing, s.machine.mailbox.slot, s.machine.replies, s.callers, s.standing⟩

end Playing

section Computing

variable {x y : System × List Call}

theorem plays_of_play? {a? : Option Action} (h : play? x a? = some y) : Plays x y := by
  obtain ⟨s, script⟩ := x
  cases a? with
  | none =>
      cases script with
      | nil => cases h
      | cons c rest =>
          simp only [play?] at h
          split at h
          · next ht =>
              obtain ⟨s', hs', rfl⟩ := Option.map_eq_some_iff.1 h
              exact .issue ht hs'
          · cases h
  | some a =>
      cases a with
      | call due c => cases h
      | elapse t =>
          simp only [play?] at h
          split at h
          · next hc =>
              obtain ⟨s', hs', rfl⟩ := Option.map_eq_some_iff.1 h
              exact .elapse hc.1 hc.2.1 hc.2.2 hs'
          · cases h
      | resume i =>
          obtain ⟨s', hs', rfl⟩ := Option.map_eq_some_iff.1 h
          exact .act (.inr (.inr ⟨i, rfl⟩)) hs'
      | work =>
          obtain ⟨s', hs', rfl⟩ := Option.map_eq_some_iff.1 h
          exact .act (.inl rfl) hs'
      | deliver =>
          obtain ⟨s', hs', rfl⟩ := Option.map_eq_some_iff.1 h
          exact .act (.inr (.inl rfl)) hs'

theorem Played.head {k : Nat} {z : System × List Call} (hs : Plays x y) (h : Played k y z) :
    Played (k + 1) x z := by
  induction h with
  | refl y => exact .tail (.refl x) hs
  | tail _ hs' ih => exact .tail (ih hs) hs'

theorem played_of_foldlM {as : List (Option Action)} (h : as.foldlM play? x = some y) :
    Played as.length x y := by
  induction as generalizing x with
  | nil =>
      cases h
      exact .refl _
  | cons a as ih =>
      obtain ⟨z, hz, h⟩ : ∃ z, play? x a = some z ∧ as.foldlM play? z = some y :=
        Option.bind_eq_some_iff.1 h
      exact .head (plays_of_play? hz) (ih h)

end Computing

section Working

variable {o : Observer} {s s' : System}

theorem issued_record (m : Machine Observer) (turn : Turn Observer) :
    ({ s with machine := m }.record (.worked turn)).issued =
      s.issued ++ turn.deed.notification?.toList := by
  simp only [issued, record, passes_append, passes_worked, List.filterMap_append]
  cases hd : turn.deed.notification? <;> simp [hd]

/-- Whatever comes of a pass is told to the observer that is registered. -/
theorem notifications_record {m : Machine Observer} {turn : Turn Observer}
    (hw : s.machine.Works Observer.react s.now turn m) (hl : s.machine.listener = some o) :
    ({ s with machine := m }.record (.worked turn)).notifications o =
      s.notifications o ++ turn.deed.notification?.toList := by
  have hn := hw.notified_eq
  cases hd : turn.deed.notification? with
  | none =>
      rw [hd] at hn
      simp [notifications, record, Entry.notified?, hn]
  | some n =>
      rw [hd] at hn
      simp [notifications, record, Entry.notified?, hn, Machine.audience, hl]

/-- Callers and the clock leave the machine attended. -/
theorem Attended.update (ha : s.Attended o) (now : Instant) (timing : Timing) (slot : Slot)
    (nextTicket : Ticket) (replies : List (Ticket × Reply)) (callers : List Stage) :
    Attended o { s with
      now, callers
      machine := { s.machine with
        timing, replies
        mailbox := { s.machine.mailbox with slot, nextTicket } } } :=
  ⟨ha.running, ha.returns, ha.heard, ha.phase, ha.guard, ha.queue, ha.deliveries, ha.pump⟩

theorem Attended.deliver_eq_none (ha : s.Attended o) : s.deliver = none := by
  rw [deliver, ha.pump, ha.deliveries]

/-- **What the worker does** to an attended machine: the deadline passes, or the command in the slot is
handled. -/
theorem Attended.work_cases (ha : s.Attended o) (h : s.work = some s') :
    s'.Attended o ∧
      ((s'.core = { s.core with standing := s.standing.lapse s.now } ∧
          s.machine.tracker.isDue s.now = true ∧ s'.machine.tracker.deadline = none) ∨
        ∃ ticket c, s.machine.mailbox.slot = .full ticket c ∧
          s.standing.lapse s.now = s.standing ∧
          s'.core =
            { s.core with
              slot := .empty
              replies := s.machine.replies ++
                [(ticket, (s.standing.obey s.machine.timing s.now c).2)]
              standing := (s.standing.obey s.machine.timing s.now c).1 }) := by
  obtain ⟨⟨turn, m⟩, hm, rfl⟩ := Option.map_eq_some_iff.1 h
  have hw := Machine.turn_eq_some_iff.1 hm
  have hi := issued_record (s := s) m turn
  have hheard (ho : o.IsSteady) :
      ({ s with machine := m }.record (.worked turn)).notifications o =
        ({ s with machine := m }.record (.worked turn)).issued := by
    rw [hi, notifications_record hw (ha.heard ho).1, (ha.heard ho).2]
  dsimp only at hi hheard ⊢
  rw [core, standing, hi]
  cases hw with
  | stops hs =>
      rw [ha.running] at hs
      cases hs
  | @lapses t n hs hd ht =>
      obtain ⟨listener, hm, hr, hsteady⟩ := Machine.exists_announce_eq
        (m := { s.machine with tracker := t, phase := t.phase }) ha.returns (some n)
      rw [hm] at hheard ⊢
      refine ⟨⟨ha.running, hr, fun ho => ⟨hsteady o ho (ha.heard ho).1, hheard ho⟩, rfl, ha.guard,
        ha.queue, ha.deliveries, ha.pump⟩, .inl ⟨?_, hd, ht.deadline_eq_none⟩⟩
      have hx : s.standing.lapse s.now = ⟨t, s.issued ++ [n]⟩ :=
        Standing.lapse_of_expire (by simp [standing, hd, Tracker.expire_eq_some_iff.2 ht])
      rw [hx]
      rfl
  | @accepts ticket c mailbox t hs hd hb ht =>
      obtain ⟨hslot, rfl⟩ := Mailbox.take?_eq_some ha.queue hb
      obtain ⟨listener, hm, hr, hsteady⟩ := Machine.exists_announce_eq
        (m := s.machine.accepted ticket _ t) ha.returns c.notification?
      rw [hm] at hheard ⊢
      refine ⟨⟨ha.running, hr, fun ho => ⟨hsteady o ho (ha.heard ho).1, hheard ho⟩, rfl, ha.guard,
        ha.queue, ha.deliveries, ha.pump⟩,
        .inr ⟨ticket, c, hslot, Standing.lapse_eq_self hd, ?_⟩⟩
      have hx : s.standing.obey s.machine.timing s.now c =
          (⟨t, s.issued ++ c.notification?.toList⟩, .ok t.phase) := by
        simp [Standing.obey, standing, Tracker.handle_eq_ok_iff.2 ht]
      rw [hx]
      rfl
  | @refuses ticket c mailbox fault hs hd hb hf =>
      obtain ⟨hslot, rfl⟩ := Mailbox.take?_eq_some ha.queue hb
      refine ⟨⟨ha.running, ha.returns, fun ho => ⟨(ha.heard ho).1, hheard ho⟩, ha.phase, ha.guard,
        ha.queue, ha.deliveries, ha.pump⟩,
        .inr ⟨ticket, c, hslot, Standing.lapse_eq_self hd, ?_⟩⟩
      have hx : s.standing.obey s.machine.timing s.now c = (s.standing, .error fault) := by
        simp [Standing.obey, standing, Tracker.handle_of_refusal hf]
      rw [hx]
      simp [core, standing, record, Machine.refused, Deed.notification?]

end Working

section Issuing

variable {s : System}

/-- The next call of a caller begins at once. -/
theorem steps_issue {c : Call} {s' : System} {stage : Stage}
    (h : { s with callers := s.callers ++ [Stage.planned s.now c] }.begin c = (stage, s'))
    (hc : s'.callers = s.callers ++ [.planned s.now c]) :
    s.steps [.call s.now c, .resume s.callers.length] =
      some { s' with callers := s.callers ++ [stage] } := by
  simp [steps, step, resume, advance, h, hc]

theorem issue_sleep (s : System) (time : Duration) :
    s.steps [.call s.now (.sleep time), .resume s.callers.length] =
      some { s with callers := s.callers ++ [.sleeping (s.now + time)] } := by
  have h : { s with callers := s.callers ++ [Stage.planned s.now (.sleep time)] }.begin
      (.sleep time) = (.sleeping (s.now + time), _) := rfl
  rw [steps_issue h rfl]

theorem issue_timing {c : Call} {timing : Timing}
    (h : ∀ s' : System, s'.machine = s.machine →
      s'.begin c = s'.change (.ok { s'.machine with timing })) :
    s.steps [.call s.now c, .resume s.callers.length] =
      some { s with
        machine := { s.machine with timing }
        callers := s.callers ++ [.finished s.now .done] } := by
  have hb := h { s with callers := s.callers ++ [Stage.planned s.now c] } rfl
  rw [steps_issue hb rfl]

theorem issue_refused {c : Call} {fault : Fault}
    (h : ∀ s' : System, s'.machine = s.machine → s'.begin c = s'.finish (.refused fault)) :
    s.steps [.call s.now c, .resume s.callers.length] =
      some { s with callers := s.callers ++ [.finished s.now (.refused fault)] } := by
  have hb := h { s with callers := s.callers ++ [Stage.planned s.now c] } rfl
  rw [steps_issue hb rfl]

theorem issue_command {c : Call} {command : Command} (hs : s.machine.status = .running)
    (h : ∀ s' : System, s'.now = s.now → s'.begin c = s'.command command) :
    s.steps [.call s.now c, .resume s.callers.length] =
      some { s with
        machine := { s.machine with mailbox := s.machine.mailbox.submit command }
        callers := s.callers ++ [.commanding
          ⟨s.machine.mailbox.nextTicket, command, s.now + s.machine.settings.stateChangeLimit⟩] } := by
  have hb := h { s with callers := s.callers ++ [Stage.planned s.now c] } rfl
  rw [System.command, Machine.submit, if_pos hs] at hb
  rw [steps_issue hb rfl]

end Issuing

end System
end MeshExchange
