import MeshExchange.System.Basic

/-!
# What everybody but the worker leaves alone

Callers, the pump and the clock act on a system between the passes of its worker. None of them moves the
tracker, publishes a phase or makes a pass, none sets the clock back, and only a start makes a machine
run.

**Results.**
* `Machine.Spares`, `System.Spares`: the frame of whatever is no pass of the worker;
* `System.passes`: the passes that a journal tells of;
* `System.GoesOn`, `System.goesOn_of_advance`: what a caller does after its call has begun;
* `System.step_spares`: every action but a pass keeps the frame.
-/

namespace MeshExchange

/-- A pass of the worker, with the instant at which it was made. -/
abbrev Pass := Instant × Turn Observer

namespace Machine

variable {L : Type}

/-- What everybody but the worker leaves alone. -/
structure Spares (m m' : Machine L) : Prop where
  tracker : m'.tracker = m.tracker
  phase : m'.phase = m.phase
  status : m'.status = m.status ∨ (m.status = .created ∧ m'.status = .running) ∨
    m'.status = .stopping ∨ m'.status = .destroyed

section Handling

variable {m m' : Machine L}

theorem start_eq_ok {hasExecutor : Bool} (h : m.start hasExecutor = .ok m') :
    m.status = .created ∧ m' = { m with status := .running } := by
  unfold start at h
  split at h
  · next hs =>
      split at h
      · cases h
        exact ⟨hs, rfl⟩
      · cases h
  · cases h

theorem exists_timing_of_setTime {f : Timing.Field} {ms : Int64} (h : m.setTime f ms = .ok m') :
    ∃ timing, m' = { m with timing } := by
  unfold setTime at h
  cases hw : m.timing.withTime f ms with
  | error fault => rw [hw] at h; cases h
  | ok timing =>
      rw [hw] at h
      cases h
      exact ⟨timing, rfl⟩

end Handling

namespace Spares

variable {m m' m'' : Machine L}

theorem refl (m : Machine L) : Spares m m := ⟨rfl, rfl, .inl rfl⟩

theorem trans (h : Spares m m') (h' : Spares m' m'') : Spares m m'' where
  tracker := h'.tracker.trans h.tracker
  phase := h'.phase.trans h.phase
  status := by
    rcases h.status with hs | ⟨hs, hs₁⟩ | hs | hs <;>
      rcases h'.status with hs' | ⟨hs', hs₂⟩ | hs' | hs' <;> simp_all

theorem of_start {hasExecutor : Bool} (h : m.start hasExecutor = .ok m') : Spares m m' := by
  obtain ⟨hs, rfl⟩ := start_eq_ok h
  exact ⟨rfl, rfl, .inr (.inl ⟨hs, rfl⟩)⟩

theorem of_destroy (m : Machine L) : Spares m m.destroy := by
  unfold destroy
  split
  · exact ⟨rfl, rfl, .inr (.inr (.inl rfl))⟩
  · exact ⟨rfl, rfl, .inr (.inr (.inr rfl))⟩
  · exact ⟨rfl, rfl, .inr (.inr (.inr rfl))⟩
  · exact .refl m
  · exact .refl m

theorem of_setTime {f : Timing.Field} {ms : Int64} (h : m.setTime f ms = .ok m') : Spares m m' := by
  obtain ⟨timing, rfl⟩ := exists_timing_of_setTime h
  exact ⟨rfl, rfl, .inl rfl⟩

theorem of_submit {c : Command} {now : Instant} {p : Pending}
    (h : m.submit c now = .ok (p, m')) : Spares m m' := by
  unfold submit at h
  split at h
  · cases h
    exact ⟨rfl, rfl, .inl rfl⟩
  · cases h

theorem of_pursue {p : Pending} {now : Instant} {reply : Option Reply}
    (h : m.pursue p now = some (reply, m')) : Spares m m' := by
  unfold pursue at h
  split at h
  · cases h
    exact ⟨rfl, rfl, .inl rfl⟩
  · split at h
    · cases h
      exact ⟨rfl, rfl, .inl rfl⟩
    · split at h
      · cases h
        exact .refl m
      · split at h
        · cases h
          exact ⟨rfl, rfl, .inl rfl⟩
        · cases h

end Spares
end Machine

namespace System

section Passes

/-- The passes that a journal tells of. -/
def passes (journal : List (Instant × Entry)) : List Pass :=
  journal.filterMap fun
    | (n, .worked turn) => some (n, turn)
    | _ => none

@[simp] theorem passes_append (j j' : List (Instant × Entry)) :
    passes (j ++ j') = passes j ++ passes j' := by
  simp [passes]

@[simp] theorem passes_worked (n : Instant) (turn : Turn Observer) :
    passes [(n, .worked turn)] = [(n, turn)] := rfl

@[simp] theorem passes_transmitted (n : Instant) (f : Frame) (o : Except Fault Unit) :
    passes [(n, .transmitted f o)] = [] := rfl

@[simp] theorem passes_handedOver (n : Instant) (d : Delivery) (o : Reply) :
    passes [(n, .handedOver d o)] = [] := rfl

@[simp] theorem passes_drained (n : Instant) (o : Observer) :
    passes [(n, .drained o)] = [] := rfl

end Passes

/-- What happens to a system besides its worker. -/
structure Spares (s s' : System) : Prop where
  machine : s.machine.Spares s'.machine
  passes : System.passes s'.journal = System.passes s.journal
  now : s.now ≤ s'.now

section Sparing

variable {s s' : System}

theorem Spares.refl (s : System) : Spares s s := ⟨.refl _, rfl, Nat.le_refl _⟩

/-- Only the machine changes, and its worker does nothing. -/
theorem Spares.of_machine {m : Machine Observer} (h : s.machine.Spares m) :
    Spares s { s with machine := m } := ⟨h, rfl, Nat.le_refl _⟩

theorem change_spares {r : Except Fault (Machine Observer)} {stage : Stage}
    (hr : ∀ m, r = .ok m → s.machine.Spares m) (h : s.change r = (stage, s')) :
    Spares s s' := by
  cases r with
  | ok m =>
      cases h
      exact .of_machine (hr m rfl)
  | error fault =>
      cases h
      exact .refl s

theorem command_spares {c : Command} {stage : Stage} (h : s.command c = (stage, s')) :
    Spares s s' := by
  unfold command at h
  split at h
  · next pending m hm =>
      cases h
      exact .of_machine (.of_submit hm)
  · cases h
    exact .refl s

theorem seek_spares {sending : Sending} {stage : Stage} (h : s.seek sending = (stage, s')) :
    Spares s s' := by
  unfold seek at h
  split at h <;> cases h <;> exact .refl s

theorem begin_spares {call : Call} {stage : Stage} (h : s.begin call = (stage, s')) :
    Spares s s' := by
  cases call with
  | start hasExecutor => exact change_spares (fun m hm => .of_start hm) h
  | setTime f ms => exact change_spares (fun m hm => .of_setTime hm) h
  | destroy =>
      simp only [begin] at h
      split at h <;> cases h <;> exact .of_machine (.of_destroy _)
  | newRequest r => exact command_spares h
  | confirmation c receivedAt => exact command_spares h
  | response length receivedAt => exact command_spares h
  | reset => exact command_spares h
  | send r =>
      simp only [begin] at h
      split at h
      · exact seek_spares h
      · cases h
        exact .refl s
  | receive frame receivedAt =>
      simp only [begin] at h
      split at h
      · exact command_spares h
      · cases h
        exact .refl s
  | register kind name =>
      cases h
      exact ⟨⟨rfl, rfl, .inl rfl⟩, rfl, Nat.le_refl _⟩
  | unregister =>
      cases h
      exact .of_machine ⟨rfl, rfl, .inl rfl⟩
  | setBehaviour behaviour =>
      cases h
      exact ⟨.refl _, rfl, Nat.le_refl _⟩
  | waitFree limit =>
      simp only [begin] at h
      split at h <;> cases h <;> exact .refl s
  | drain name =>
      simp only [begin] at h
      split at h
      · cases h
        exact ⟨.refl _, by simp [record], Nat.le_refl _⟩
      · cases h
        exact .refl s
  | sleep time => cases h; exact .refl s
  | waitPhase target limit => cases h; exact .refl s
  | inspect => cases h; exact .refl s
  | counts name => cases h; exact .refl s
  | sent => cases h; exact .refl s

theorem Spares.trans {s'' : System} (h : Spares s s') (h' : Spares s' s'') : Spares s s'' where
  machine := h.machine.trans h'.machine
  passes := h'.passes.trans h.passes
  now := Nat.le_trans h.now h'.now

/-- What a caller does to a system after its call has begun: nothing, or something about its command, or it
hands a frame to the link. -/
inductive GoesOn (s : System) : System → Prop
  | stays : GoesOn s s
  | submits {c : Command} {p : Pending} {m : Machine Observer}
      (h : s.machine.submit c s.now = .ok (p, m)) : GoesOn s { s with machine := m }
  | pursues {p : Pending} {reply : Option Reply} {m : Machine Observer}
      (h : s.machine.pursue p s.now = some (reply, m)) : GoesOn s { s with machine := m }
  | transmits (frame : Frame) (outcome : Except Fault Unit) (deliveries : List Delivery) :
      GoesOn s { s.record (.transmitted frame outcome) with deliveries }

theorem snd_seek (s : System) (sending : Sending) : (s.seek sending).2 = s := by
  unfold seek
  split <;> rfl

theorem snd_afterAnnouncement (s : System) (sending : Sending) (reply : Reply) :
    (s.afterAnnouncement sending reply).2 = s := by
  unfold afterAnnouncement
  split
  · rfl
  · split
    · exact snd_seek s sending
    · rfl

theorem goesOn_of_advance {stage stage' : Stage} (hp : ∀ due call, stage ≠ .planned due call)
    (h : s.advance stage = some (stage', s')) : s.GoesOn s' := by
  cases stage with
  | planned due call => exact absurd rfl (hp due call)
  | commanding p =>
      obtain ⟨⟨reply, m⟩, hm, h⟩ := Option.map_eq_some_iff.1 h
      cases reply <;> cases h <;> exact .pursues hm
  | announcing sending =>
      simp only [advance] at h
      split at h
      · next p m hm =>
          cases h
          exact .submits hm
      · cases h
        exact .stays
  | announced sending p =>
      obtain ⟨⟨reply, m⟩, hm, h⟩ := Option.map_eq_some_iff.1 h
      cases reply with
      | none =>
          cases h
          exact .pursues hm
      | some reply =>
          obtain rfl : { s with machine := m } = s' :=
            (snd_afterAnnouncement _ sending reply).symm.trans (congrArg Prod.snd h)
          exact .pursues hm
  | transmitting sending phase =>
      have h' := Option.some.inj h
      unfold transmit at h'
      split at h' <;> cases h'
      · exact .transmits _ _ _
      · exact .transmits _ _ s.deliveries
  | waitingFree limit giveUp | seeking sending limit giveUp =>
      simp only [advance] at h
      split at h
      · cases h
        exact .stays
      · cases h
        exact .stays
      · split at h <;> cases h
        exact .stays
  | waitingPhase target giveUp =>
      simp only [advance] at h
      split at h
      · cases h
        exact .stays
      · split at h <;> cases h
        exact .stays
  | sleeping due | joining giveUp =>
      simp only [advance] at h
      split at h <;> cases h
      exact .stays
  | finished instant answer => cases h

theorem GoesOn.spares (h : s.GoesOn s') : Spares s s' := by
  cases h with
  | stays => exact .refl s
  | submits hm => exact .of_machine (.of_submit hm)
  | pursues hm => exact .of_machine (.of_pursue hm)
  | transmits frame outcome deliveries => exact ⟨.refl _, by simp [record], Nat.le_refl _⟩

theorem advance_spares {stage stage' : Stage} (h : s.advance stage = some (stage', s')) :
    Spares s s' := by
  cases stage with
  | planned due call =>
      simp only [advance] at h
      split at h
      · exact begin_spares (Option.some.inj h)
      · cases h
  | _ => exact (goesOn_of_advance (by simp) h).spares

theorem resume_spares {i : Nat} (h : s.resume i = some s') : Spares s s' := by
  obtain ⟨stage, -, h⟩ := Option.bind_eq_some_iff.1 h
  obtain ⟨⟨stage', s₁⟩, h₁, h⟩ := Option.map_eq_some_iff.1 h
  have hs := advance_spares h₁
  subst h
  exact ⟨hs.machine, hs.passes, hs.now⟩

theorem deliver_spares (h : s.deliver = some s') : Spares s s' := by
  unfold deliver at h
  split at h
  · split at h <;> cases h
    exact ⟨.refl _, rfl, Nat.le_refl _⟩
  · split at h
    · split at h
      · cases h
        exact ⟨.refl _, by simp [handOver, record], Nat.le_refl _⟩
      · split at h
        · next pending m hm =>
            cases h
            exact ⟨.of_submit hm, rfl, Nat.le_refl _⟩
        · cases h
          exact ⟨.refl _, by simp [handOver, record], Nat.le_refl _⟩
    · cases h
  · obtain ⟨⟨reply, m⟩, hp, hm⟩ := Option.map_eq_some_iff.1 h
    have hs : s.machine.Spares m := .of_pursue hp
    cases reply <;> cases hm
    · exact .of_machine hs
    · exact ⟨hs, by simp [handOver, record], Nat.le_refl _⟩

/-- **What happens besides the worker** moves nothing. -/
theorem step_spares {a : Action} (ha : a ≠ .work) (h : s.step a = some s') : Spares s s' := by
  cases a with
  | call due call => cases h; exact ⟨.refl _, rfl, Nat.le_refl _⟩
  | resume i => exact resume_spares h
  | work => exact absurd rfl ha
  | deliver => exact deliver_spares h
  | elapse t =>
      simp only [step] at h
      split at h
      · next ht =>
          cases h
          exact ⟨.refl _, rfl, ht⟩
      · cases h

end Sparing

end System
end MeshExchange
