import Mathlib.Algebra.GroupWithZero.Nat
import MeshExchange.Proofs.Mesh.Wire
import MeshExchange.Proofs.System.Accounting
import MeshExchange.Proofs.System.Clock
import MeshExchange.Proofs.System.Lifecycle

/-!
# What is left to do once a machine was destroyed

The worker of a destroyed machine makes one more pass at most, in which it stops. Callers and the pump may
be in the middle of something: they fetch a reply that was given before, find the worker gone, or run into
their time limit.

**Method.** Every step of a caller of a destroyed machine either ends its call, with an answer that the
machine had settled when it was destroyed, or brings it closer to the end; so does every step of the pump
and of the worker. `System.remains` counts what is left.

**Results.**
* `System.Silent`, `System.Silent.of_step`: what a destroyed machine keeps;
* `System.Concludes`: how the calls in flight end;
* `System.Departs`, `System.departs_of_advance`: the steps of a caller;
* `System.deliver_of_isOver`: the steps of the pump;
* `System.remains_lt`: every step leaves less to do.
-/

namespace MeshExchange

/-- The answer to a wait for a free channel. -/
def Answer.ofWatch (limit : Duration) : Option Machine.Watch → Answer
  | some .reached => .done
  | some .closed => .refused .notRunning
  | none => .refused (.stateChangeTimeout limit)

namespace Machine

variable {L : Type} {m m' : Machine L}

section Over

theorem IsOver.isOpen_eq_false (h : m.IsOver) : m.status.isOpen = false := by
  rcases h with h | h <;> rw [h] <;> rfl

theorem IsOver.ne_running (h : m.IsOver) : m.status ≠ .running := by
  rcases h with h | h <;> simp [h]

/-- Nothing comes in. -/
theorem IsOver.submit (h : m.IsOver) (c : Command) (now : Instant) :
    m.submit c now = .error .notRunning :=
  if_neg h.ne_running

/-- Nothing is destroyed twice. -/
theorem IsOver.destroy (h : m.IsOver) : m.destroy = m := by
  rcases h with h | h <;> simp [Machine.destroy, h]

theorem IsOver.of_spares (h : m.IsOver) (hs : m.Spares m') : m'.IsOver := by
  rcases hs.status with hs | ⟨hs, -⟩ | hs | hs
  · exact h.imp hs.trans hs.trans
  · rcases h with h | h <;> rw [h] at hs <;> cases hs
  · exact .inl hs
  · exact .inr hs

/-- The worker stops, and that is all it does. -/
theorem IsOver.works {callback : Callback L} {now : Instant} {turn : Turn L} (h : m.IsOver)
    (hw : Works callback now m turn m') :
    m.status = .stopping ∧ turn = ⟨.stopped, none⟩ ∧ m' = m.close .destroyed := by
  rcases hw.stops_or_runs with hstop | ⟨hr, -⟩
  · exact hstop
  · exact absurd hr h.ne_running

end Over

end Machine

section Left

/-- How many steps a caller has left, with those of the pump for what the mesh sends back to it. -/
def Stage.stepsLeft : Stage → Nat
  | .finished _ _ => 0
  | .planned _ _ | .seeking _ _ _ => 2
  -- the mesh sends two frames back at most, and the pump takes two steps for each
  | .transmitting _ _ => 5
  | .announced _ _ => 6
  | _ => 1

/-- A command is still to be handed in. -/
def Slot.stepsLeft : Slot → Nat
  | .granted _ _ => 1
  | _ => 0

/-- The worker is still to stop, and a command to be handed in. -/
def Machine.stepsLeft {L : Type} (m : Machine L) : Nat :=
  (if m.status = .stopping then 1 else 0) + m.mailbox.slot.stepsLeft

/-- A delivery is still to be handed over. -/
def Pump.stepsLeft : Pump → Nat
  | .idle => 0
  | _ => 1

theorem Mailbox.stepsLeft_withdraw_le (b : Mailbox) (k : Ticket) :
    (b.withdraw k).slot.stepsLeft ≤ b.slot.stepsLeft := by
  unfold withdraw
  split
  · next hs =>
      split
      · rw [hs]
        unfold grantNext
        split
        · exact Nat.zero_le _
        · exact Nat.le_refl _
      · exact Nat.le_refl _
  · exact Nat.le_refl _

theorem Mailbox.stepsLeft_handIn?_lt {b b' : Mailbox} {k : Ticket} (h : b.handIn? k = some b') :
    b'.slot.stepsLeft < b.slot.stepsLeft := by
  unfold handIn? at h
  split at h
  · next hs =>
      split at h <;> cases h
      rw [hs]
      exact Nat.zero_lt_one
  · cases h

end Left

namespace System

variable {s x y : System} {a : Action} {as : List Action} {i : Nat} {t : Instant}
  {stage stage' : Stage} {answer : Answer}

section Inert

/-- What a destroyed system keeps: there are no passes but those in which the worker stops. -/
structure Silent (s x : System) : Prop where
  isOver : x.machine.IsOver
  tracker : x.machine.tracker = s.machine.tracker
  phase : x.machine.phase = s.machine.phase
  settings : x.machine.settings = s.machine.settings
  now : s.now ≤ x.now
  journal : s.journal <+: x.journal
  passes : ∃ h, System.passes x.journal = System.passes s.journal ++ h ∧
    ∀ pass ∈ h, pass.2 = ⟨.stopped, none⟩

theorem Silent.refl (h : s.machine.IsOver) : s.Silent s :=
  ⟨h, rfl, rfl, rfl, Nat.le_refl _, List.prefix_refl _, [], by simp, by simp⟩

theorem journal_prefix_of_step (h : x.step a = some y) : x.journal <+: y.journal := by
  obtain ⟨l, hl, -⟩ := journal_of_step (o := ⟨.recording, "", 0⟩) h
  exact ⟨l, hl.symm⟩

/-- **Nothing is heard of a destroyed machine** but that its worker stops. -/
theorem Silent.of_step (h : s.Silent x) (hs : x.step a = some y) : s.Silent y := by
  have hset := (settings_of_step hs).trans h.settings
  have hjournal := h.journal.trans (journal_prefix_of_step hs)
  obtain ⟨l, hl, hall⟩ := h.passes
  rcases passes_of_step hs with ⟨ha, hp⟩ | ⟨turn, rfl, hw⟩
  · have hspares := step_spares ha hs
    exact ⟨h.isOver.of_spares hspares.machine, hspares.machine.tracker.trans h.tracker,
      hspares.machine.phase.trans h.phase, hset, Nat.le_trans h.now hspares.now, hjournal,
      l, hp.trans hl, hall⟩
  · obtain ⟨-, rfl, hm⟩ := h.isOver.works hw.machine
    refine ⟨.inr (by rw [hm]; rfl), ?_, ?_, hset, Nat.le_trans h.now (Nat.le_of_eq hw.now.symm),
      hjournal, l ++ [(x.now, ⟨.stopped, none⟩)], ?_, ?_⟩
    · rw [hm]
      exact h.tracker
    · rw [hm]
      exact h.phase
    · rw [hw.passes, hl, List.append_assoc]
    · simpa [or_imp, forall_and] using hall

theorem Silent.of_steps (h : s.Silent x) (hs : x.steps as = some y) : s.Silent y :=
  kept_of_steps (P := s.Silent) (fun _ _ _ h hs => h.of_step hs) h hs

/-- No command is handled. -/
theorem Silent.hasHandled_iff (h : s.Silent x) {k : Ticket} {c : Command} {reply : Reply} :
    x.HasHandled k c reply ↔ s.HasHandled k c reply := by
  obtain ⟨l, hl, hall⟩ := h.passes
  unfold HasHandled
  rw [hl]
  constructor
  · rintro ⟨pass, hpass, hd⟩
    rcases List.mem_append.1 hpass with hpass | hpass
    · exact ⟨pass, hpass, hd⟩
    · rw [hall pass hpass] at hd
      cases hd
  · rintro ⟨pass, hpass, hd⟩
    exact ⟨pass, List.mem_append_left _ hpass, hd⟩

/-- Nobody is notified. -/
theorem Silent.notifications (h : s.Silent x) (o : Observer) :
    x.notifications o = s.notifications o := by
  obtain ⟨l, hl, hall⟩ := h.passes
  rw [notifications_eq, notifications_eq, hl, List.filterMap_append, List.append_right_eq_self,
    List.filterMap_eq_nil_iff]
  intro pass hpass
  rw [hall pass hpass]
  rfl

end Inert

section Concluding

/-- What becomes of a command on its way: its reply, if the worker had given it when the machine was
destroyed, and otherwise the news that the worker is gone, or that the time is up. -/
inductive Gets (s : System) (p : Pending) (t : Instant) : Reply → Prop
  | told {reply : Reply} (h : s.HasHandled p.ticket p.command reply) : Gets s p t reply
  | lost (h : ∀ c reply, ¬ s.HasHandled p.ticket c reply) : Gets s p t (.error .notRunning)
  | late (h : ∀ c reply, ¬ s.HasHandled p.ticket c reply) (ht : p.giveUp ≤ t) :
      Gets s p t (.error (.stateChangeTimeout s.machine.settings.stateChangeLimit))

/-- How a wait for a phase ends, when none is published any more. It may have been reached before. -/
inductive Ends (s : System) (target : Phase) (giveUp t : Instant) : Option Machine.Watch → Prop
  | reached (h : s.machine.phase = target) : Ends s target giveUp t (some .reached)
  | closed (h : s.machine.phase ≠ target) : Ends s target giveUp t (some .closed)
  | late (h : s.machine.phase ≠ target) (ht : giveUp ≤ t) : Ends s target giveUp t none

/-- How calls end that were in flight when the machine was destroyed. -/
inductive Concludes (s : System) (journal : List (Instant × Entry)) (t : Instant) :
    Stage → Answer → Prop
  | commanding {p : Pending} {reply : Reply} (h : s.Gets p t reply) :
      Concludes s journal t (.commanding p) (.ofReply p.command reply)
  | waitingFree {limit : Duration} {giveUp : Instant} {outcome : Option Machine.Watch}
      (h : s.Ends .freeForSend giveUp t outcome) :
      Concludes s journal t (.waitingFree limit giveUp) (.ofWatch limit outcome)
  | waitingPhase {target : Phase} {giveUp : Instant} {outcome : Option Machine.Watch}
      (h : s.Ends target giveUp t outcome) :
      Concludes s journal t (.waitingPhase target giveUp) (.watched outcome)
  | joining {giveUp : Instant} : Concludes s journal t (.joining giveUp) .done
  /-- The channel is not free. -/
  | seeking {sending : Sending} {limit : Duration} {giveUp : Instant}
      {outcome : Option Machine.Watch} (h : s.Ends .freeForSend giveUp t outcome)
      (hs : s.machine.phase ≠ .freeForSend) :
      Concludes s journal t (.seeking sending limit giveUp) (.ofWatch limit outcome)
  /-- The channel is free, but nothing can be announced any more. -/
  | sought {sending : Sending} {limit : Duration} {giveUp : Instant}
      (hs : s.machine.phase = .freeForSend) :
      Concludes s journal t (.seeking sending limit giveUp) (.refused .notRunning)
  | announcing {sending : Sending} :
      Concludes s journal t (.announcing sending) (.refused .notRunning)
  | declined {sending : Sending} {p : Pending} {fault : Fault} (h : s.Gets p t (.error fault))
      (hf : fault.isContractViolation = true → sending.deadline ≤ t) :
      Concludes s journal t (.announced sending p) (.refused fault)
  /-- A sender that lost the channel tries again, and finds the machine destroyed. -/
  | retried {sending : Sending} {p : Pending} {fault : Fault} (h : s.Gets p t (.error fault))
      (hf : fault.isContractViolation = true) (ht : t < sending.deadline) :
      Concludes s journal t (.announced sending p) (.refused .notRunning)
  | accepted {sending : Sending} {p : Pending} {phase : Phase} {outcome : Except Fault Unit}
      (h : s.HasHandled p.ticket p.command (.ok phase))
      (hj : (t, .transmitted sending.frame outcome) ∈ journal) :
      Concludes s journal t (.announced sending p) (.ofTransmission phase outcome)
  | transmitting {sending : Sending} {phase : Phase} {outcome : Except Fault Unit}
      (hj : (t, .transmitted sending.frame outcome) ∈ journal) :
      Concludes s journal t (.transmitting sending phase) (.ofTransmission phase outcome)

variable {journal journal' : List (Instant × Entry)} {p : Pending} {reply : Reply} {target : Phase}
  {giveUp : Instant} {outcome : Option Machine.Watch}

theorem Gets.of_silent (h : x.Gets p t reply) (hs : s.Silent x) : s.Gets p t reply := by
  cases h with
  | told h => exact .told (hs.hasHandled_iff.1 h)
  | lost h => exact .lost fun c reply hh => h c reply (hs.hasHandled_iff.2 hh)
  | late h ht =>
      rw [hs.settings]
      exact .late (fun c reply hh => h c reply (hs.hasHandled_iff.2 hh)) ht

theorem Ends.of_silent (h : x.Ends target giveUp t outcome) (hs : s.Silent x) :
    s.Ends target giveUp t outcome := by
  cases h with
  | reached h => exact .reached (hs.phase ▸ h)
  | closed h => exact .closed (hs.phase ▸ h)
  | late h ht => exact .late (hs.phase ▸ h) ht

/-- What a call comes to was settled when the machine was destroyed. -/
theorem Concludes.of_silent (h : x.Concludes journal t stage answer) (hs : s.Silent x) :
    s.Concludes journal t stage answer := by
  cases h with
  | commanding h => exact .commanding (h.of_silent hs)
  | waitingFree h => exact .waitingFree (h.of_silent hs)
  | waitingPhase h => exact .waitingPhase (h.of_silent hs)
  | joining => exact .joining
  | seeking h hp => exact .seeking (h.of_silent hs) (hs.phase ▸ hp)
  | sought hp => exact .sought (hs.phase ▸ hp)
  | announcing => exact .announcing
  | declined h hf => exact .declined (h.of_silent hs) hf
  | retried h hf ht => exact .retried (h.of_silent hs) hf ht
  | accepted h hj => exact .accepted (hs.hasHandled_iff.1 h) hj
  | transmitting hj => exact .transmitting hj

theorem Concludes.mono (h : s.Concludes journal t stage answer) (hj : journal <+: journal') :
    s.Concludes journal' t stage answer := by
  cases h with
  | accepted h hmem => exact .accepted h (hj.subset hmem)
  | transmitting hmem => exact .transmitting (hj.subset hmem)
  | commanding h => exact .commanding h
  | waitingFree h => exact .waitingFree h
  | waitingPhase h => exact .waitingPhase h
  | joining => exact .joining
  | seeking h hp => exact .seeking h hp
  | sought hp => exact .sought hp
  | announcing => exact .announcing
  | declined h hf => exact .declined h hf
  | retried h hf ht => exact .retried h hf ht

end Concluding

section Departing

/-- What is left to do besides the calls. -/
def backlog (s : System) : Nat :=
  s.machine.stepsLeft + s.pump.stepsLeft + 2 * s.deliveries.length

/-- The steps of a caller once the machine was destroyed, and the journal after them. -/
inductive Departs (x : System) (journal : List (Instant × Entry)) : Stage → Stage → Prop
  | begins {due : Instant} {call : Call} {stage : Stage} : Departs x journal (.planned due call) stage
  | wakes {due : Instant} : Departs x journal (.sleeping due) (.finished x.now .done)
  | handsIn {stage : Stage} : Departs x journal stage stage
  | sees {sending : Sending} {limit : Duration} {giveUp : Instant}
      (hp : x.machine.phase = .freeForSend) :
      Departs x journal (.seeking sending limit giveUp) (.announcing sending)
  | accepted {sending : Sending} {p : Pending} {phase : Phase}
      (h : x.HasHandled p.ticket p.command (.ok phase)) :
      Departs x journal (.announced sending p) (.transmitting sending phase)
  | ends {stage : Stage} {answer : Answer} (h : x.Concludes journal x.now stage answer) :
      Departs x journal stage (.finished x.now answer)

theorem command_of_isOver (ho : x.machine.IsOver) (c : Command) :
    x.command c = x.finish (.refused .notRunning) := by
  rw [System.command, ho.submit]

/-- No call that begins is a long one. -/
theorem begin_of_isOver {call : Call} (ho : x.machine.IsOver) (h : x.begin call = (stage, y)) :
    stage.stepsLeft ≤ 1 ∧ y.now = x.now ∧ y.backlog = x.backlog := by
  have hfinish {answer : Answer} (h : x.finish answer = (stage, y)) :
      stage.stepsLeft ≤ 1 ∧ y.now = x.now ∧ y.backlog = x.backlog := by
    cases h
    exact ⟨Nat.zero_le _, rfl, rfl⟩
  have hchange {r : Except Fault (Machine Observer)} (hr : ∀ m, r = .ok m →
      m.status = x.machine.status ∧ m.mailbox = x.machine.mailbox) (h : x.change r = (stage, y)) :
      stage.stepsLeft ≤ 1 ∧ y.now = x.now ∧ y.backlog = x.backlog := by
    cases r with
    | error fault => exact hfinish h
    | ok m =>
        obtain ⟨hs, hb⟩ := hr m rfl
        cases h
        exact ⟨Nat.zero_le _, rfl, by simp only [backlog, Machine.stepsLeft, hs, hb]⟩
  cases call with
  | newRequest | confirmation | response | reset =>
      exact hfinish ((command_of_isOver ho _).symm.trans h)
  | start hasExecutor =>
      refine hchange (fun m hm => ?_) h
      obtain ⟨hs, -⟩ := Machine.start_eq_ok hm
      rcases ho with ho | ho <;> rw [ho] at hs <;> cases hs
  | destroy =>
      simp only [begin, if_neg ho.ne_running, ho.destroy] at h
      exact hfinish h
  | setTime f ms =>
      refine hchange (fun m hm => ?_) h
      obtain ⟨timing, rfl⟩ := Machine.exists_timing_of_setTime hm
      exact ⟨rfl, rfl⟩
  | waitFree limit =>
      simp only [begin, ho.isOpen_eq_false] at h
      exact hfinish h
  | send r =>
      simp only [begin, seek, ho.isOpen_eq_false] at h
      split at h <;> exact hfinish h
  | receive frame receivedAt =>
      simp only [begin, command_of_isOver ho] at h
      split at h <;> exact hfinish h
  | drain name =>
      simp only [begin] at h
      split at h <;> cases h <;> exact ⟨Nat.zero_le _, rfl, rfl⟩
  | register | unregister | setBehaviour | sleep | waitPhase | inspect | counts | sent =>
      cases h
      exact ⟨by simp [Stage.stepsLeft], rfl, rfl⟩

theorem gets_of_pursue {b : Party} {p : Pending} {reply : Reply} {m : Machine Observer}
    (hx : x.Ticketed) (hb : x.pending? b = some p)
    (h : x.machine.pursue p x.now = some (some reply, m)) :
    x.Gets p x.now reply ∧ { x with machine := m }.backlog ≤ x.backlog := by
  have hnew (hr : ∀ reply, (p.ticket, reply) ∉ x.machine.replies) :
      ∀ c reply, ¬ x.HasHandled p.ticket c reply := fun c reply hh =>
    hr reply (hx.told b p c reply hb hh).2
  generalize hreply : some reply = reply? at h
  cases Machine.pursues_of_pursue h with
  | handsIn => cases hreply
  | learns hr =>
      cases hreply
      obtain ⟨c, hh⟩ := hx.replies _ _ hr
      obtain ⟨rfl, -⟩ := hx.told b p c reply hb hh
      exact ⟨.told hh, Nat.le_refl _⟩
  | lost hr hc =>
      cases hreply
      exact ⟨.lost (hnew hr), Nat.le_refl _⟩
  | givesUp hr hn =>
      cases hreply
      refine ⟨.late (hnew hr) hn, ?_⟩
      have hle := Mailbox.stepsLeft_withdraw_le x.machine.mailbox p.ticket
      exact Nat.add_le_add_right (Nat.add_le_add_right (Nat.add_le_add_left hle _) _) _

theorem backlog_of_handIn {p : Pending} {m : Machine Observer}
    (h : x.machine.pursue p x.now = some (none, m)) :
    { x with machine := m }.backlog < x.backlog := by
  generalize hreply : (none : Option Reply) = reply? at h
  cases Machine.pursues_of_pursue h with
  | handsIn hb =>
      have hlt := Mailbox.stepsLeft_handIn?_lt hb
      exact Nat.add_lt_add_right (Nat.add_lt_add_right (Nat.add_lt_add_left hlt _) _) _
  | _ => cases hreply

/-- What a wait for a phase comes to now; none if it goes on. -/
def await (s : System) (target : Phase) (giveUp : Instant) : Option (Option Machine.Watch) :=
  match s.machine.watch target with
  | some outcome => some (some outcome)
  | none => if giveUp ≤ s.now then some none else none

theorem ends_of_await {target : Phase} {giveUp : Instant} {outcome : Option Machine.Watch}
    (h : x.await target giveUp = some outcome) : x.Ends target giveUp x.now outcome := by
  unfold await Machine.watch at h
  by_cases hp : x.machine.phase = target
  · rw [if_pos hp] at h
    cases h
    exact .reached hp
  · rw [if_neg hp] at h
    split at h
    · next hw =>
        split at hw <;> cases hw
        cases h
        exact .closed hp
    · split at h
      · next ht =>
          cases h
          exact .late hp ht
      · cases h

theorem advance_waitingFree_eq (limit : Duration) (giveUp : Instant) :
    x.advance (.waitingFree limit giveUp) =
      (x.await .freeForSend giveUp).map fun outcome => x.finish (.ofWatch limit outcome) := by
  simp only [advance, await]
  cases x.machine.watch .freeForSend with
  | some outcome => cases outcome <;> rfl
  | none => dsimp only; split <;> rfl

theorem advance_waitingPhase_eq (target : Phase) (giveUp : Instant) :
    x.advance (.waitingPhase target giveUp) =
      (x.await target giveUp).map fun outcome => x.finish (.watched outcome) := by
  simp only [advance, await]
  cases x.machine.watch target with
  | some outcome => rfl
  | none => dsimp only; split <;> rfl

theorem advance_seeking_eq (sending : Sending) (limit : Duration) (giveUp : Instant) :
    x.advance (.seeking sending limit giveUp) =
      (x.await .freeForSend giveUp).map fun outcome =>
        if outcome = some .reached then (.announcing sending, x)
        else x.finish (.ofWatch limit outcome) := by
  simp only [advance, await]
  cases x.machine.watch .freeForSend with
  | some outcome => cases outcome <;> rfl
  | none => dsimp only; split <;> rfl

/-- The mesh sends two frames back at most. -/
theorem length_le_of_transmit {link : Link} {frame : Frame} {now : Instant} {ds : List Delivery}
    (h : link.transmit frame now = .ok ds) : ds.length ≤ 2 := by
  cases link with
  | recording =>
      cases h
      exact Nat.zero_le _
  | down => cases h
  | mesh b hasTaker =>
      simp only [Link.transmit] at h
      cases hr : Request.ofFrame frame with
      | error fault => rw [hr] at h; cases h
      | ok r =>
          rw [hr] at h
          simp only [bind, Except.bind] at h
          split at h <;> cases h
          exact Behaviour.length_deliveries_le ..

/-- A sender learns what became of its announcement. -/
theorem departs_of_announced {sending : Sending} {p : Pending} (hx : x.Ticketed)
    (ho : x.machine.IsOver) (hi : x.callers[i]? = some (.announced sending p))
    (h : x.advance (.announced sending p) = some (stage', y)) :
    x.Departs y.journal (.announced sending p) stage' ∧ y.now = x.now ∧
      stage'.stepsLeft + y.backlog < (Stage.announced sending p).stepsLeft + x.backlog := by
  have hpending := pending?_caller hi
  obtain ⟨⟨reply?, m⟩, hp, hm⟩ := Option.map_eq_some_iff.1 h
  cases reply? with
  | none =>
      cases hm
      exact ⟨.handsIn, rfl, Nat.add_lt_add_left (backlog_of_handIn hp) _⟩
  | some reply =>
      obtain ⟨hgets, hle⟩ := gets_of_pursue hx hpending hp
      cases reply with
      | ok phase =>
          cases hm
          exact ⟨.accepted (hasHandled_of_pursue hx hpending hp), rfl,
            Nat.add_lt_add_of_lt_of_le (Nat.lt_succ_self 5) hle⟩
      | error fault =>
          have hlt : 0 + { x with machine := m }.backlog < 6 + x.backlog :=
            Nat.add_lt_add_of_lt_of_le (Nat.succ_pos 5) hle
          dsimp only [afterAnnouncement] at hm
          split at hm
          · next hf =>
              have hover : m.IsOver := ho.of_spares (.of_pursue hp)
              simp only [seek, hover.isOpen_eq_false] at hm
              cases hm
              exact ⟨.ends (.retried hgets hf.1 hf.2), rfl, hlt⟩
          · next hf =>
              cases hm
              refine ⟨.ends (.declined hgets fun hc => ?_), rfl, hlt⟩
              exact Nat.le_of_not_lt fun ht => hf ⟨hc, ht⟩

/-- The frame of an accepted request is handed to the link, and what the mesh sends back is left to the
pump. -/
theorem departs_of_transmit {sending : Sending} {phase : Phase}
    (h : x.transmit sending phase = (stage', y)) :
    x.Departs y.journal (.transmitting sending phase) stage' ∧ y.now = x.now ∧
      stage'.stepsLeft + y.backlog < (Stage.transmitting sending phase).stepsLeft + x.backlog := by
  have hnote (outcome : Except Fault Unit) : (x.now, .transmitted sending.frame outcome) ∈
      (x.record (.transmitted sending.frame outcome)).journal := by
    simp [record]
  unfold transmit at h
  split at h
  · next ds hd =>
      cases h
      have hlen := length_le_of_transmit hd
      refine ⟨.ends (.transmitting (hnote (.ok ()))), rfl, ?_⟩
      simp only [backlog, record, Stage.stepsLeft, List.length_append]
      omega
  · next fault hf =>
      cases h
      exact ⟨.ends (.transmitting (hnote (.error fault))), rfl,
        Nat.add_lt_add_right (Nat.succ_pos 4) _⟩

/-- A sender waits for a free channel. It may still see one, but cannot announce anything. -/
theorem departs_of_seeking {sending : Sending} {limit : Duration} {giveUp : Instant}
    (h : x.advance (.seeking sending limit giveUp) = some (stage', y)) :
    x.Departs y.journal (.seeking sending limit giveUp) stage' ∧ y.now = x.now ∧
      stage'.stepsLeft + y.backlog <
        (Stage.seeking sending limit giveUp).stepsLeft + x.backlog := by
  rw [advance_seeking_eq] at h
  obtain ⟨outcome, hw, h⟩ := Option.map_eq_some_iff.1 h
  have hends := ends_of_await hw
  by_cases hr : outcome = some .reached
  · subst hr
    cases hends with
    | reached hp =>
        cases h
        exact ⟨.sees hp, rfl, Nat.add_lt_add_right Nat.one_lt_two _⟩
  · rw [if_neg hr] at h
    cases h
    have hp : x.machine.phase ≠ .freeForSend := by
      cases hends with
      | reached => exact absurd rfl hr
      | closed hp | late hp => exact hp
    exact ⟨.ends (.seeking hends hp), rfl, Nat.add_lt_add_right Nat.zero_lt_two _⟩

/-- **Once the machine was destroyed**, a caller ends its call or comes closer to the end. -/
theorem departs_of_advance (hx : x.Ticketed) (ho : x.machine.IsOver)
    (hi : x.callers[i]? = some stage) (h : x.advance stage = some (stage', y)) :
    x.Departs y.journal stage stage' ∧ y.now = x.now ∧
      stage'.stepsLeft + y.backlog < stage.stepsLeft + x.backlog := by
  cases stage with
  | planned due call =>
      simp only [advance] at h
      split at h
      · obtain ⟨hs, hnow, hy⟩ := begin_of_isOver ho (Option.some.inj h)
        rw [hy]
        exact ⟨.begins, hnow, Nat.add_lt_add_right (Nat.lt_succ_of_le hs) _⟩
      · cases h
  | sleeping due =>
      simp only [advance] at h
      split at h <;> cases h
      exact ⟨.wakes, rfl, Nat.add_lt_add_right Nat.zero_lt_one _⟩
  | commanding p =>
      obtain ⟨⟨reply, m⟩, hp, hm⟩ := Option.map_eq_some_iff.1 h
      cases reply with
      | none =>
          cases hm
          exact ⟨.handsIn, rfl, Nat.add_lt_add_left (backlog_of_handIn hp) _⟩
      | some reply =>
          cases hm
          obtain ⟨hgets, hle⟩ := gets_of_pursue hx (pending?_caller hi) hp
          exact ⟨.ends (.commanding hgets), rfl, Nat.add_lt_add_of_lt_of_le Nat.zero_lt_one hle⟩
  | waitingFree limit giveUp =>
      rw [advance_waitingFree_eq] at h
      obtain ⟨outcome, hw, h⟩ := Option.map_eq_some_iff.1 h
      cases h
      exact ⟨.ends (.waitingFree (ends_of_await hw)), rfl, Nat.add_lt_add_right Nat.zero_lt_one _⟩
  | waitingPhase target giveUp =>
      rw [advance_waitingPhase_eq] at h
      obtain ⟨outcome, hw, h⟩ := Option.map_eq_some_iff.1 h
      cases h
      exact ⟨.ends (.waitingPhase (ends_of_await hw)), rfl, Nat.add_lt_add_right Nat.zero_lt_one _⟩
  | joining giveUp =>
      simp only [advance] at h
      split at h <;> cases h
      exact ⟨.ends .joining, rfl, Nat.add_lt_add_right Nat.zero_lt_one _⟩
  | seeking sending limit giveUp => exact departs_of_seeking h
  | announcing sending =>
      simp only [advance, ho.submit] at h
      cases h
      exact ⟨.ends .announcing, rfl, Nat.add_lt_add_right Nat.zero_lt_one _⟩
  | announced sending p => exact departs_of_announced hx ho hi h
  | transmitting sending phase => exact departs_of_transmit (Option.some.inj h)
  | finished t answer => cases h

/-- **So does the pump**: what it hands over was settled when the machine was destroyed. -/
theorem deliver_of_isOver (hx : x.Ticketed) (ho : x.machine.IsOver) (h : x.deliver = some y) :
    y.now = x.now ∧ y.callers = x.callers ∧ y.backlog < x.backlog ∧
      ∀ d p, x.pump = .handing d p → y.pump = .handing d p ∨
        ∃ reply, (x.now, .handedOver d reply) ∈ y.journal ∧ x.Gets p x.now reply := by
  unfold deliver at h
  split at h
  · next hp =>
      split at h <;> cases h
      next d ds hd =>
        refine ⟨rfl, rfl, ?_, by simp [hp]⟩
        simp only [backlog, hp, hd, Pump.stepsLeft, List.length_cons]
        omega
  · next d hp =>
      have hover {reply : Reply} : (x.handOver d reply).backlog < x.backlog := by
        simp only [backlog, handOver, record, hp, Pump.stepsLeft]
        omega
      split at h
      · simp only [ho.submit] at h
        split at h <;> cases h <;> exact ⟨rfl, rfl, hover, by simp [hp]⟩
      · cases h
  · next d p hp =>
      obtain ⟨⟨reply, m⟩, hpursue, hm⟩ := Option.map_eq_some_iff.1 h
      cases reply with
      | none =>
          cases hm
          exact ⟨rfl, rfl, backlog_of_handIn hpursue, fun d p hd => .inl hd⟩
      | some reply =>
          cases hm
          have hpending : x.pending? .pump = some p := by
            simp [pending?, hp, Pump.pending?]
          obtain ⟨hgets, hle⟩ := gets_of_pursue hx hpending hpursue
          refine ⟨rfl, rfl, ?_, fun d' p' hd => .inr ?_⟩
          · simp only [backlog, handOver, record, hp, Pump.stepsLeft] at hle ⊢
            omega
          · obtain ⟨rfl, rfl⟩ : d = d' ∧ p = p' := by simpa [hp] using hd
            exact ⟨reply, by simp [handOver, record], hgets⟩

end Departing

section Remaining

/-- How many steps are left at most. -/
def remains (s : System) : Nat := (s.callers.map Stage.stepsLeft).sum + s.backlog

theorem sum_stepsLeft_set {stages : List Stage} (hi : stages[i]? = some stage) (stage' : Stage) :
    ((stages.set i stage').map Stage.stepsLeft).sum + stage.stepsLeft =
      (stages.map Stage.stepsLeft).sum + stage'.stepsLeft := by
  induction stages generalizing i with
  | nil => cases hi
  | cons first rest ih =>
      cases i with
      | zero =>
          cases hi
          simp only [List.set_cons_zero, List.map_cons, List.sum_cons]
          omega
      | succ i =>
          have hrest := ih (i := i) hi
          simp only [List.set_cons_succ, List.map_cons, List.sum_cons]
          omega

/-- **Every step leaves less to do**, once the machine was destroyed. -/
theorem remains_lt (hx : x.Ticketed) (ho : x.machine.IsOver)
    (ha : a = .work ∨ a = .deliver ∨ ∃ i, a = .resume i) (h : x.step a = some y) :
    y.now = x.now ∧ y.remains < x.remains := by
  rcases ha with rfl | rfl | ⟨i, rfl⟩
  · obtain ⟨⟨turn, m⟩, hturn, rfl⟩ := Option.map_eq_some_iff.1 h
    obtain ⟨hs, -, rfl⟩ := ho.works (Machine.turn_eq_some_iff.1 hturn)
    refine ⟨rfl, Nat.add_lt_add_left ?_ _⟩
    have hclosed : (x.machine.close .destroyed).stepsLeft = 0 := rfl
    have hopen : 0 < x.machine.stepsLeft := by
      simp only [Machine.stepsLeft, if_pos hs]
      omega
    simp only [backlog, record, hclosed]
    omega
  · obtain ⟨hnow, hc, hlt, -⟩ := deliver_of_isOver hx ho h
    refine ⟨hnow, ?_⟩
    rw [remains, hc]
    exact Nat.add_lt_add_left hlt _
  · obtain ⟨stage, stage', y, hi, hadv, rfl⟩ := exists_advance_of_resume h
    obtain ⟨-, hnow, hlt⟩ := departs_of_advance hx ho hi hadv
    refine ⟨hnow, ?_⟩
    have hsum := sum_stepsLeft_set hi stage'
    rw [← (advances_of_advance hadv).callers] at hsum
    change ((y.callers.set i stage').map Stage.stepsLeft).sum + y.backlog < x.remains
    rw [remains, ← (advances_of_advance hadv).callers]
    omega

end Remaining

end System
end MeshExchange
