import MeshExchange.Proofs.System.Aftermath
import MeshExchange.Proofs.System.Audience
import MeshExchange.Proofs.System.Waiting

/-!
# While time stands still

A budget may be zero, so a phase may be due to end at the very instant at which it begins. Time does not
go on while the worker is busy; so the worker must come to rest at every instant, whatever lies in its
mailbox and whatever its budgets are.

**Input.** A system that a run leads to, whose worker runs, with any commands in its mailbox; and any run
from there on in which the clock stands still, no command comes in, and the worker is not told to stop.

**Method.** A pass in which a phase ends by itself takes the deadline away, and only a command that is
accepted sets another one. So the expiries of a run are paid for by accepted commands, but for the first,
and the commands are those in the mailbox. For the way to rest, `Machine.load` falls with every pass and
with every command that is handed in.

**Results.**
* `System.Evolves.countP_isExpiry_le`: the balance of expiries and accepted commands, in any run;
* `System.serves_of_steps`: the way of the commands in a run in which none comes in;
* `System.Reachable.exists_expires`: a deadline does not pass in vain;
* `System.Reachable.exists_drains`: the worker comes to rest;
* `System.subsides_of_steps`: all of it, wherever such a run has led.
-/

namespace MeshExchange

namespace Deed

/-- Whether the phase has ended by itself. -/
def isExpiry : Deed → Bool
  | .expired _ => true
  | _ => false

/-- Whether a command was accepted. -/
def isAcceptance : Deed → Bool
  | .handled _ _ (.ok _) => true
  | _ => false

end Deed

namespace Pass

/-- The commands that were handled, in order. -/
def commands (h : List Pass) : List (Ticket × Command) := h.filterMap (·.2.deed.slot.held?)

@[simp] theorem commands_append (h h' : List Pass) :
    commands (h ++ h') = commands h ++ commands h' := by
  simp [commands]

theorem commands_singleton (n : Instant) (turn : Turn Observer) :
    commands [(n, turn)] = turn.deed.slot.held?.toList := by
  cases hd : turn.deed.slot.held? <;> simp [commands, hd]

theorem countP_isAcceptance_le (h : List Pass) :
    h.countP (·.2.deed.isAcceptance) ≤ (commands h).length := by
  rw [commands, List.length_filterMap_eq_countP]
  refine List.countP_mono_left fun x _ hx => ?_
  obtain ⟨n, deed, heard⟩ := x
  cases deed with
  | handled => rfl
  | _ => cases hx

end Pass

namespace Tracker

variable {t t' : Tracker} {n : Notification}

theorem Lapses.phase_ne (h : Lapses t n t') : t'.phase ≠ t.phase := by
  cases h with
  | unconfirmed => simp
  | unanswered => simp
  | @drained p e d hp =>
      intro heq
      obtain rfl : Phase.freeForSend = p := heq
      cases hp

end Tracker

namespace Machine

variable {L : Type} {callback : Callback L} {now : Instant} {m m' : Machine L} {turn : Turn L}

section Deadlines

/-- An expiry uses up a deadline, and an accepted command sets one at most. -/
theorem Works.deadline_balance (h : Works callback now m turn m') :
    turn.deed.isExpiry.toNat + m'.tracker.deadline.isSome.toNat ≤
      turn.deed.isAcceptance.toNat + m.tracker.deadline.isSome.toNat := by
  cases h with
  | stops => exact Nat.le_refl _
  | refuses => exact Nat.le_refl _
  | lapses hs hd ht =>
      obtain ⟨d, hd, -⟩ := Tracker.isDue_eq_true_iff.1 hd
      rw [announce_tracker, ht.deadline_eq_none, hd]
      exact Nat.le_refl _
  | accepts => exact Nat.le_trans (Nat.add_le_add_left (Bool.toNat_le _) _) (Nat.le_add_right _ _)

theorem Works.deadline_eq_none (h : Works callback now m turn m')
    (hx : turn.deed.isExpiry = true) : m'.tracker.deadline = none := by
  cases h with
  | lapses _ _ ht =>
      rw [announce_tracker]
      exact ht.deadline_eq_none
  | _ => cases hx

end Deadlines

section Ending

/-- The worker fails only with a callback that does not return. -/
theorem Works.returns_eq_false (h : Works callback now m turn m') (hs : m'.status = .failed) :
    turn.returns callback = false := by
  rcases h.status_eq with ⟨-, hs'⟩ | ⟨-, hs'⟩
  · rw [hs] at hs'
    cases hs'
  · cases hr : turn.returns callback with
    | false => rfl
    | true =>
        rw [hr, hs] at hs'
        cases hs'

end Ending

section Commands

/-- What a worker that goes on does about the commands: the first of them, or none. -/
theorem Works.contents_eq (h : Works callback now m turn m') (hs : m'.status = .running) :
    turn.deed.slot.held?.toList ++ m'.mailbox.contents = m.mailbox.contents := by
  cases h with
  | stops => cases hs
  | lapses =>
      rw [mailbox_announce_of_running hs]
      rfl
  | accepts _ _ hb =>
      rw [mailbox_announce_of_running hs]
      exact (Mailbox.contents_of_take? hb).1.symm
  | refuses _ _ hb => exact (Mailbox.contents_of_take? hb).1.symm

/-- A worker that ends drops what is left. -/
theorem Works.contents_sublist (h : Works callback now m turn m') :
    (turn.deed.slot.held?.toList ++ m'.mailbox.contents).Sublist m.mailbox.contents := by
  rcases h.mail_cases.1 with ⟨hno, hb, -⟩ | ⟨k, c, reply, mailbox, hdeed, htake, hb, -⟩
  · have hnone : turn.deed.slot.held? = none := by
      cases hd : turn.deed with
      | handled ticket c reply => exact absurd hd (hno ticket c reply)
      | _ => rfl
    rw [hnone]
    exact (Mailbox.contents_sublist_of_closed hb).1
  · rw [hdeed, (Mailbox.contents_of_take? htake).1]
    exact (Mailbox.contents_sublist_of_closed hb).1.cons_cons _

end Commands

section Load

/-- How much a worker has to do before it rests: a command may set a deadline, and the next one may have
to be handed in. -/
def load (m : Machine L) : Nat :=
  3 * m.mailbox.contents.length + m.tracker.deadline.isSome.toNat + m.mailbox.slot.stepsLeft

theorem load_lt_of_handIn? {ticket : Ticket} {b : Mailbox} (h : m.mailbox.handIn? ticket = some b) :
    { m with mailbox := b }.load < m.load := by
  have hlt := Mailbox.stepsLeft_handIn?_lt h
  simp only [load, (Mailbox.handIn?_eq_some h).1]
  omega

theorem load_lt_of_take? {ticket : Ticket} {c : Command} {b : Mailbox}
    (h : m.mailbox.take? = some (ticket, c, b)) (hb : m'.mailbox = b) : m'.load < m.load := by
  have hle := Bool.toNat_le m'.tracker.deadline.isSome
  have hslot : b.slot.stepsLeft ≤ 1 := by
    cases b.slot <;> simp [Slot.stepsLeft]
  simp only [load, hb, (Mailbox.contents_of_take? h).1, List.length_cons]
  omega

/-- **Every pass of a worker that goes on leaves less to do.** -/
theorem Works.load_lt (h : Works callback now m turn m') (hs : m'.status = .running) :
    m'.load < m.load := by
  cases h with
  | stops => cases hs
  | lapses _ hd ht =>
      obtain ⟨d, hd, -⟩ := Tracker.isDue_eq_true_iff.1 hd
      simp [load, mailbox_announce_of_running hs, ht.deadline_eq_none, hd]
  | accepts _ _ hb => exact load_lt_of_take? hb (mailbox_announce_of_running hs)
  | refuses _ _ hb => exact load_lt_of_take? hb rfl

end Load

end Machine

namespace System

variable {onTime : Prop} {s s' s₁ x y : System} {a : Action} {as : List Action} {h : List Pass}
  {turn : Turn Observer}

section Expiries

/-- **The expiries of a run** are paid for by accepted commands, but for one that was due before. -/
theorem Evolves.countP_isExpiry_le (he : Evolves onTime s h s') :
    h.countP (·.2.deed.isExpiry) + s'.machine.tracker.deadline.isSome.toNat ≤
      h.countP (·.2.deed.isAcceptance) + s.machine.tracker.deadline.isSome.toNat := by
  induction he with
  | refl => exact Nat.le_refl _
  | spare hs _ _ ih =>
      rw [← hs.machine.tracker]
      exact ih
  | @pass s s₁ s' turn h hw _ ih =>
      have hpass := hw.machine.deadline_balance
      rw [List.countP_cons, List.countP_cons]
      cases hx : turn.deed.isExpiry <;> cases ha : turn.deed.isAcceptance <;>
        simp only [hx, ha, Bool.toNat_true, Bool.toNat_false, if_true, Bool.false_eq_true, if_false]
          at hpass ⊢ <;>
        omega

/-- Between two expiries a command was accepted. -/
theorem Evolves.exists_isAcceptance {before between after : List Pass} {p q : Pass}
    (he : Evolves onTime s (before ++ p :: between ++ q :: after) s')
    (hp : p.2.deed.isExpiry = true) (hq : q.2.deed.isExpiry = true) :
    ∃ z ∈ between, z.2.deed.isAcceptance = true := by
  rw [List.append_assoc, List.cons_append] at he
  obtain ⟨s₁, -, he⟩ := he.split
  obtain ⟨s₂, s₃, -, -, hw, he⟩ := he.of_cons
  rw [← List.singleton_append, ← List.append_assoc] at he
  obtain ⟨s₄, he, -⟩ := he.split
  -- the first expiry leaves no deadline, so the second one has to be paid for
  have hle := he.countP_isExpiry_le
  have hq' : q.2.deed.isAcceptance = false := by
    cases hd : q.2.deed with
    | expired => rfl
    | _ => simp [hd, Deed.isExpiry] at hq
  rw [hw.machine.deadline_eq_none hp, List.countP_append, List.countP_append,
    List.countP_singleton, List.countP_singleton, if_pos hq, if_neg (by simp [hq'])] at hle
  have hpos : 0 < between.countP (·.2.deed.isAcceptance) := by
    simp only [Option.isSome_none, Bool.toNat_false] at hle
    omega
  exact List.countP_pos_iff.1 hpos

/-- The pass in which a phase ends by itself. -/
structure Expires (s s' : System) : Prop where
  step : s.step .work = some s'
  /-- The tracker lets its deadline pass, and the listener is notified of it. -/
  tracker : ∃ n, s.machine.tracker.expire = some (s'.machine.tracker, n) ∧
    passes s'.journal = passes s.journal ++ [(s.now, ⟨.expired n, s.machine.audience n⟩)]
  phase : s'.machine.phase ≠ s.machine.phase
  deadline : s'.machine.tracker.deadline = none

/-- **A deadline does not pass in vain**: when it is due, the next pass ends the phase. -/
theorem Reachable.exists_expires (hs : s.Reachable) (hr : s.machine.status = .running)
    (hd : s.machine.tracker.isDue s.now = true) : ∃ s', s.Expires s' := by
  obtain ⟨d, hsome, -⟩ := Tracker.isDue_eq_true_iff.1 hd
  obtain ⟨t, n, ht⟩ := hs.sound.coherent.exists_lapses hsome
  obtain ⟨s', hstep, hm, hw⟩ := exists_work_of_works (.lapses hr hd ht)
  have htracker : s'.machine.tracker = t := by
    rw [hm, Machine.announce_tracker]
  refine ⟨s', hstep, ⟨n, ?_, hw.passes⟩, ?_, ?_⟩
  · rw [htracker]
    exact Tracker.expire_eq_some_iff.2 ht
  · rw [(hs.step (a := .work) hstep).sound.phase, hs.sound.phase, htracker]
    exact ht.phase_ne
  · rw [htracker]
    exact ht.deadline_eq_none

end Expiries

section Serving

/-- From one system to another the clock stands still, no command comes in, and the worker is not told to
stop. -/
structure Still (s s' : System) : Prop where
  now : s'.now = s.now
  nextTicket : s'.machine.mailbox.nextTicket = s.machine.mailbox.nextTicket
  isOpen : s'.machine.status.isOpen = true

theorem ne_created_of_steps (hs : s.machine.status ≠ .created) (has : s.steps as = some s') :
    s'.machine.status ≠ .created := by
  refine kept_of_steps (P := fun x => x.machine.status ≠ .created) (fun x a y hx ha => ?_) hs has
  rcases passes_of_step ha with ⟨hne, -⟩ | ⟨turn, rfl, hw⟩
  · rcases (step_spares hne ha).machine.status with hst | ⟨hst, -⟩ | hst | hst
    · rw [hst]
      exact hx
    · exact absurd hst hx
    · simp [hst]
    · simp [hst]
  · exact hw.machine.status_ne_created

/-- Besides its worker, nothing ends a machine that was started but the order to stop. -/
theorem status_eq_of_spares (hs : x.Spares y) (hc : x.machine.status ≠ .created)
    (ho : y.machine.status.isOpen = true) : y.machine.status = x.machine.status := by
  rcases hs.machine.status with hst | ⟨hst, -⟩ | hst | hst
  · exact hst
  · exact absurd hst hc
  all_goals
    rw [hst] at ho
    cases ho

/-- A worker that was not told to stop was not told before. -/
theorem isOpen_of_step (hc : x.machine.status ≠ .created) (ha : x.step a = some y)
    (ho : y.machine.status.isOpen = true) : x.machine.status.isOpen = true := by
  rcases passes_of_step ha with ⟨hne, -⟩ | ⟨turn, rfl, hw⟩
  · exact status_eq_of_spares (step_spares hne ha) hc ho ▸ ho
  · rcases hw.machine.stops_or_runs with ⟨-, -, hm⟩ | ⟨hr, -⟩
    · rw [hm] at ho
      cases ho
    · rw [hr]
      rfl

theorem Still.of_step (hr : s.machine.status = .running) (hx : s.steps as = some x)
    (ha : x.step a = some y) (h : s.Still y) : s.Still x where
  now := by
    have hle := now_le_of_step ha
    rw [h.now] at hle
    exact Nat.le_antisymm hle (now_le_of_steps hx)
  nextTicket := by
    have hle := (onward_of_step ha).given
    rw [h.nextTicket] at hle
    exact Nat.le_antisymm hle (nextTicket_le_of_steps hx)
  isOpen := isOpen_of_step (ne_created_of_steps (by simp [hr]) hx) ha h.isOpen

/-- The worker is gone with the last of some passes, and the commands that were left with it: the pass
notified an observer whose callback does not return. -/
structure FailsIn (s : System) (h : List Pass) : Prop where
  status : s.machine.status = .failed
  contents : s.machine.mailbox.contents = []
  last : ∃ before x, h = before ++ [x] ∧ x.2.returns Observer.react = false

theorem FailsIn.append_left (hf : s.FailsIn h) (before : List Pass) : s.FailsIn (before ++ h) := by
  obtain ⟨mid, x, rfl, hx⟩ := hf.last
  exact ⟨hf.status, hf.contents, before ++ mid, x, (List.append_assoc _ _ _).symm, hx⟩

theorem failsIn_of_worksTo (hw : s.WorksTo turn s') (hs : s'.machine.status = .failed)
    (before : List Pass) : s'.FailsIn (before ++ [(s.now, turn)]) where
  status := hs
  contents := hw.machine.mail_cases.2 (by rw [hs]; rfl)
  last := ⟨before, _, rfl, hw.machine.returns_eq_false hs⟩

/-- The way of the commands in a run in which none comes in. -/
structure Serves (s : System) (h : List Pass) (s' : System) : Prop where
  /-- They are handled first come, first served. -/
  commands : (Pass.commands h ++ s'.machine.mailbox.contents).Sublist s.machine.mailbox.contents
  /-- Besides, the worker lets phases end, and does not stop. -/
  length : h.length = h.countP (·.2.deed.isExpiry) + (Pass.commands h).length
  pending : ∀ x p, s'.pending? x = some p → s.pending? x = some p
  /-- While the worker runs, no command is lost but those that their callers take back. -/
  kept : s'.machine.status = .running → ∀ k c, (k, c) ∈ s.machine.mailbox.contents →
    (k, c) ∈ Pass.commands h ++ s'.machine.mailbox.contents ∨
      ∃ x p, s.pending? x = some p ∧ p.ticket = k ∧ p.giveUp ≤ s.now
  ended : s'.machine.status = .running ∨ s'.FailsIn h

theorem Serves.refl (hr : s.machine.status = .running) : s.Serves [] s where
  commands := .refl _
  length := rfl
  pending := fun _ _ hx => hx
  kept := fun _ _ _ hk => .inl hk
  ended := .inl hr

/-- A step that is no pass of the worker, and with which no command comes in, takes a command away only
from a caller that gives up. -/
theorem contents_of_deals (hd : x.Deals y)
    (hn : y.machine.mailbox.nextTicket = x.machine.mailbox.nextTicket) :
    y.machine.mailbox.contents.Sublist x.machine.mailbox.contents ∧
      (∀ b p, y.pending? b = some p → x.pending? b = some p) ∧
      (x.machine.status = .running → ∀ k c, (k, c) ∈ x.machine.mailbox.contents →
        (k, c) ∈ y.machine.mailbox.contents ∨
          ∃ b p, x.pending? b = some p ∧ p.ticket = k ∧ p.giveUp ≤ x.now) := by
  cases hd with
  | rests hq hp =>
      refine ⟨(Mailbox.contents_sublist_of_closed hq.mailbox).1, fun b p hb => hp ▸ hb,
        fun hr k c hk => .inl ?_⟩
      rw [hq.kept hr]
      exact hk
  | submits hx hm hp =>
      obtain ⟨-, -, hm⟩ := Machine.submit_eq_ok hm
      rw [hm, Mailbox.nextTicket_submit] at hn
      exact absurd hn (Nat.succ_ne_self _)
  | handsIn hx hm hp =>
      generalize hm' : y.machine = m' at hm
      cases Machine.pursues_of_pursue hm with
      | handsIn hb =>
          have hcontents := (Mailbox.handIn?_eq_some hb).1
          exact ⟨by rw [hcontents], fun b p hb => hp ▸ hb, fun _ k c hk => .inl (hcontents ▸ hk)⟩
  | @learns b p reply hx hm hp =>
      have hpending (b' : Party) (q : Pending) (hy : y.pending? b' = some q) :
          x.pending? b' = some q := by
        rw [hp] at hy
        by_cases hb : b' = b
        · subst hb
          simp at hy
        · rwa [Function.update_of_ne hb] at hy
      generalize hm' : y.machine = m' at hm
      cases Machine.pursues_of_pursue hm with
      | learns => exact ⟨.refl _, hpending, fun _ _ _ hk => .inl hk⟩
      | lost => exact ⟨.refl _, hpending, fun _ _ _ hk => .inl hk⟩
      | givesUp _ hle =>
          refine ⟨Mailbox.contents_withdraw_sublist _ _, hpending, fun _ k c hk => ?_⟩
          by_cases hkp : k = p.ticket
          · exact .inr ⟨b, p, hx, hkp.symm, hle⟩
          · exact .inl (Mailbox.mem_contents_withdraw hk hkp)

theorem Serves.of_deals (hx : s.Serves h x) (hn : x.now = s.now) (hd : x.Deals y)
    (hnext : y.machine.mailbox.nextTicket = x.machine.mailbox.nextTicket)
    (hst : y.machine.status = x.machine.status) : s.Serves h y := by
  obtain ⟨hsub, hpending, hkept⟩ := contents_of_deals hd hnext
  refine ⟨?_, hx.length, fun b p hb => hx.pending b p (hpending b p hb), fun hr k c hk => ?_, ?_⟩
  · exact (hsub.append_left _).trans hx.commands
  · rw [hst] at hr
    rcases hx.kept hr k c hk with hk | hgone
    · rcases List.mem_append.1 hk with hk | hk
      · exact .inl (List.mem_append_left _ hk)
      · rcases hkept hr k c hk with hk | ⟨b, p, hb, hp, hle⟩
        · exact .inl (List.mem_append_right _ hk)
        · exact .inr ⟨b, p, hx.pending b p hb, hp, hn ▸ hle⟩
    · exact .inr hgone
  · refine hx.ended.imp hst.trans fun hf => ⟨hst.trans hf.status, ?_, hf.last⟩
    exact List.sublist_nil.1 (hf.contents ▸ hsub)

theorem Serves.of_worksTo (hx : s.Serves h x) (hw : x.WorksTo turn y)
    (hp : y.pending? = x.pending?) (ho : y.machine.status.isOpen = true) :
    s.Serves (h ++ [(x.now, turn)]) y := by
  have hruns : x.machine.status = .running ∧
      (y.machine.status = .running ∨ y.machine.status = .failed) := by
    rcases hw.machine.stops_or_runs with ⟨-, -, hm⟩ | hruns
    · rw [hm] at ho
      cases ho
    · exact hruns
  refine ⟨?_, ?_, fun b p hb => hx.pending b p (hp ▸ hb), fun hr k c hk => ?_, ?_⟩
  · rw [Pass.commands_append, Pass.commands_singleton, List.append_assoc]
    exact (hw.machine.contents_sublist.append_left _).trans hx.commands
  · rw [Pass.commands_append, Pass.commands_singleton, List.countP_append, List.length_append,
      List.length_append, hx.length]
    have hmachine := hw.machine
    generalize y.machine = m at hmachine
    cases hmachine with
    | stops hs => simp [hruns.1] at hs
    | lapses => simp [Deed.isExpiry, Deed.slot, Slot.held?]; omega
    | accepts => simp [Deed.isExpiry, Deed.slot, Slot.held?]; omega
    | refuses => simp [Deed.isExpiry, Deed.slot, Slot.held?]; omega
  · rw [Pass.commands_append, Pass.commands_singleton, List.append_assoc, hw.machine.contents_eq hr]
    exact hx.kept hruns.1 k c hk
  · exact hruns.2.imp_right fun hf => failsIn_of_worksTo hw hf h

/-- **The way of the commands** in every run in which none comes in. -/
theorem serves_of_steps (hr : s.machine.status = .running) (has : s.steps as = some s')
    (hstill : s.Still s') : ∃ h, passes s'.journal = passes s.journal ++ h ∧ s.Serves h s' := by
  refine steps_induct (P := fun _ x => s.Still x →
    ∃ h, passes x.journal = passes s.journal ++ h ∧ s.Serves h x) ?_ ?_ has hstill
  · exact fun _ => ⟨[], (List.append_nil _).symm, .refl hr⟩
  · intro as x a y hx ha ih hy
    -- neither the clock nor the tickets go back, so nothing has moved up to the last step
    have hstill := hy.of_step hr hx ha
    obtain ⟨h, hj, hserves⟩ := ih hstill
    rcases passes_of_step ha with ⟨hne, hp⟩ | ⟨turn, rfl, hw⟩
    · have hst := status_eq_of_spares (step_spares hne ha) (ne_created_of_steps (by simp [hr]) hx)
        hy.isOpen
      exact ⟨h, hp.trans hj, hserves.of_deals hstill.now (deals_of_step hne ha)
        (hy.nextTicket.trans hstill.nextTicket.symm) hst⟩
    · refine ⟨h ++ [(x.now, turn)], ?_, hserves.of_worksTo hw (pending?_of_work ha) hy.isOpen⟩
      rw [hw.passes, hj, List.append_assoc]

end Serving

section Draining

/-- The worker waits for the clock or for another command: it has handled all there were, and no deadline
has come. -/
structure Waits (s : System) : Prop where
  running : s.machine.status = .running
  blocked : s.step .work = none
  contents : s.machine.mailbox.contents = []
  deadline : ∀ d, s.machine.tracker.deadline = some d → s.now < d

/-- A worker without a pass to make waits, unless somebody is about to hand a command in. -/
theorem Reachable.waits (hs : s.Reachable) (hr : s.machine.status = .running)
    (hblocked : s.step .work = none) (hslot : ∀ k c, s.machine.mailbox.slot ≠ .granted k c) :
    s.Waits where
  running := hr
  blocked := hblocked
  contents := by
    refine hs.served.orderly.contents_eq_nil ?_
    cases hb : s.machine.mailbox.slot with
    | empty => rfl
    | granted k c => exact absurd hb (hslot k c)
    | full k c =>
        have hturn : (s.machine.turn Observer.react s.now).isSome = true :=
          Machine.isSome_turn_of_full hr hb
        obtain ⟨⟨turn, m⟩, hm⟩ := Option.isSome_iff_exists.1 hturn
        simp [System.step, work, hm] at hblocked
  deadline := by
    intro d hd
    by_contra hle
    obtain ⟨s', hs'⟩ := hs.exists_expires hr (Tracker.isDue_of_deadline hd (Nat.le_of_not_lt hle))
    exact absurd (hblocked.symm.trans hs'.step) (by simp)

/-- The loop of the worker at one instant: its passes, and in between the command for which the slot was
kept free is handed in. -/
inductive Drains : System → List Pass → System → Prop
  | refl (s : System) : Drains s [] s
  | pass {s s₁ s' : System} {turn : Turn Observer} {h : List Pass} (hs : s.step .work = some s₁)
      (hw : s.WorksTo turn s₁) (hd : Drains s₁ h s') : Drains s ((s.now, turn) :: h) s'
  | handIn {s s₁ s' : System} {a : Action} {k : Ticket} {b : Mailbox} {h : List Pass}
      (ha : a ≠ .work) (hs : s.step a = some s₁) (hb : s.machine.mailbox.handIn? k = some b)
      (hm : s₁.machine = { s.machine with mailbox := b }) (hd : Drains s₁ h s') : Drains s h s'

theorem Drains.exists_steps (hd : s.Drains h s') :
    ∃ as, s.steps as = some s' ∧ passes s'.journal = passes s.journal ++ h := by
  induction hd with
  | refl s => exact ⟨[], rfl, (List.append_nil _).symm⟩
  | pass hs hw _ ih =>
      obtain ⟨as, has, hj⟩ := ih
      refine ⟨.work :: as, steps_cons_iff.2 ⟨_, hs, has⟩, ?_⟩
      rw [hj, hw.passes, List.append_assoc]
      rfl
  | handIn ha hs _ _ _ ih =>
      obtain ⟨as, has, hj⟩ := ih
      exact ⟨_ :: as, steps_cons_iff.2 ⟨_, hs, has⟩, hj.trans (by rw [(step_spares ha hs).passes])⟩

/-- The loop handles the commands in their order, and loses none while the worker runs. -/
theorem Drains.commands_append (hd : s.Drains h s') (hr : s'.machine.status = .running) :
    s.machine.status = .running ∧
      Pass.commands h ++ s'.machine.mailbox.contents = s.machine.mailbox.contents := by
  induction hd with
  | refl s => exact ⟨hr, rfl⟩
  | @pass s s₁ s' turn h hs hw _ ih =>
      obtain ⟨hr₁, hcommands⟩ := ih hr
      refine ⟨hw.machine.status_eq_running hr₁, ?_⟩
      rw [← hw.machine.contents_eq hr₁, ← hcommands, ← List.append_assoc,
        ← Pass.commands_singleton s.now, ← Pass.commands_append, List.singleton_append]
  | handIn _ _ hb hm _ ih =>
      obtain ⟨hr₁, hcommands⟩ := ih hr
      rw [hm] at hr₁ hcommands
      exact ⟨hr₁, hcommands.trans (Mailbox.handIn?_eq_some hb).1⟩

/-- What a party does for its command while there is no reply. -/
theorem exists_step_of_pursue {b : Party} {p : Pending} {m : Machine Observer}
    (hb : s.pending? b = some p) (hm : s.machine.pursue p s.now = some (none, m)) :
    ∃ a s₁, a ≠ .work ∧ s.step a = some s₁ ∧ s₁.machine = m ∧ s₁.now = s.now := by
  cases b with
  | caller i =>
      obtain ⟨stage, hi, hstage⟩ := Option.bind_eq_some_iff.1 hb
      cases stage with
      | commanding q =>
          cases hstage
          exact ⟨.resume i, { s with machine := m, callers := s.callers.set i (.commanding p) },
            by simp, by simp [step, resume, hi, advance, hm], rfl, rfl⟩
      | announced sending q =>
          cases hstage
          exact ⟨.resume i,
            { s with machine := m, callers := s.callers.set i (.announced sending p) },
            by simp, by simp [step, resume, hi, advance, hm], rfl, rfl⟩
      | _ => cases hstage
  | pump =>
      change s.pump.pending? = some p at hb
      unfold Pump.pending? at hb
      split at hb
      · next d q hpump =>
          cases hb
          exact ⟨.deliver, { s with machine := m }, by simp, by simp [step, deliver, hpump, hm],
            rfl, rfl⟩
      · cases hb

/-- Whoever the slot is kept free for can hand its command in. -/
theorem Served.exists_handIn (hs : s.Served) {k : Ticket} {c : Command}
    (hslot : s.machine.mailbox.slot = .granted k c) :
    ∃ a s₁ b, a ≠ .work ∧ s.step a = some s₁ ∧ s.machine.mailbox.handIn? k = some b ∧
      s₁.machine = { s.machine with mailbox := b } ∧ s₁.now = s.now := by
  obtain ⟨x, p, hx, rfl⟩ := hs.queued k c (by simp [Mailbox.queued, hslot])
  obtain ⟨b, hb⟩ : ∃ b, s.machine.mailbox.handIn? p.ticket = some b := by
    simp [Mailbox.handIn?, hslot]
  obtain ⟨a, s₁, ha, hstep, hm, hn⟩ := exists_step_of_pursue hx
    (show s.machine.pursue p s.now = some (none, { s.machine with mailbox := b }) by
      simp [Machine.pursue, hb])
  exact ⟨a, s₁, b, ha, hstep, hb, hm, hn⟩

theorem Still.trans (h : s.Still x) (h' : x.Still y) : s.Still y where
  now := h'.now.trans h.now
  nextTicket := h'.nextTicket.trans h.nextTicket
  isOpen := h'.isOpen

theorem still_of_worksTo (hr : s.machine.status = .running) (hw : s.WorksTo turn s') :
    s.Still s' where
  now := hw.now
  nextTicket := hw.machine.nextTicket_eq
  isOpen := by
    rcases hw.machine.stops_or_runs with ⟨hs, -⟩ | ⟨-, hs | hs⟩
    · simp [hr] at hs
    all_goals
      rw [hs]
      rfl

theorem still_of_handIn {k : Ticket} {b : Mailbox} (hr : s.machine.status = .running)
    (hb : s.machine.mailbox.handIn? k = some b)
    (hm : s'.machine = { s.machine with mailbox := b }) (hn : s'.now = s.now) : s.Still s' where
  now := hn
  nextTicket := by
    rw [hm]
    exact (Mailbox.handIn?_eq_some hb).2
  isOpen := by
    rw [hm]
    simp [hr, Status.isOpen]

/-- **The worker comes to rest**, or a callback that does not return ends it. -/
theorem Reachable.exists_drains (hs : s.Reachable) (hr : s.machine.status = .running) :
    ∃ h s', s.Drains h s' ∧ s.Still s' ∧ (s'.Waits ∨ s'.FailsIn h) := by
  -- the measure is the load: every pass and every command that is handed in lowers it
  induction hn : s.machine.load using Nat.strong_induction_on generalizing s with
  | _ n ih =>
    subst hn
    cases hw : s.step .work with
    | some s₁ =>
        obtain ⟨turn, hworks⟩ := worksTo_of_work hw
        have hstill := still_of_worksTo hr hworks
        rcases hworks.machine.stops_or_runs with ⟨hst, -⟩ | ⟨-, hr₁ | hf₁⟩
        · simp [hr] at hst
        · obtain ⟨h, s', hd, hstill', hends⟩ :=
            ih _ (hworks.machine.load_lt hr₁) (hs.step hw) hr₁ rfl
          exact ⟨_, s', .pass hw hworks hd, hstill.trans hstill',
            hends.imp_right fun hf => hf.append_left [_]⟩
        · exact ⟨_, s₁, .pass hw hworks (.refl _), hstill,
            .inr (failsIn_of_worksTo hworks hf₁ [])⟩
    | none =>
        by_cases hslot : ∃ k c, s.machine.mailbox.slot = .granted k c
        · obtain ⟨k, c, hslot⟩ := hslot
          obtain ⟨a, s₁, b, ha, hstep, hb, hm, hnow⟩ := hs.served.exists_handIn hslot
          have hlt : s₁.machine.load < s.machine.load := hm ▸ Machine.load_lt_of_handIn? hb
          obtain ⟨h, s', hd, hstill', hends⟩ :=
            ih _ hlt (hs.step hstep) (by rw [hm]; exact hr) rfl
          exact ⟨h, s', .handIn ha hstep hb hm hd, (still_of_handIn hr hb hm hnow).trans hstill',
            hends⟩
        · exact ⟨[], s, .refl s, ⟨rfl, rfl, by simp [hr, Status.isOpen]⟩,
            .inl (hs.waits hr hw fun k c hk => hslot ⟨k, c, hk⟩)⟩

end Draining

section Subsiding

/-- What has become of a system while the clock stood still and no command came in, and what is yet to
come. -/
structure Subsides (s : System) (h : List Pass) (s' : System) : Prop where
  serves : s.Serves h s'
  expiries : h.countP (·.2.deed.isExpiry) ≤ s.machine.mailbox.contents.length + 1
  length : h.length ≤ 2 * s.machine.mailbox.contents.length + 1
  /-- Between two expiries a command was accepted, as ever since the beginning. -/
  apart : ∀ before between after p q, passes s'.journal = before ++ p :: between ++ q :: after →
    p.2.deed.isExpiry = true → q.2.deed.isExpiry = true →
    ∃ z ∈ between, z.2.deed.isAcceptance = true
  expires : s'.machine.status = .running → s'.machine.tracker.isDue s'.now = true →
    ∃ x, s'.Expires x
  /-- Where the worker has no pass to make, it waits, unless somebody is about to hand a command in. -/
  waits : s'.machine.status = .running → s'.step .work = none →
    (∀ k c, s'.machine.mailbox.slot ≠ .granted k c) → s'.Waits
  /-- Left to itself, the worker handles all commands that are left, and waits. -/
  drains : s'.machine.status = .running → ∃ h' x, s'.Drains h' x ∧ s'.Still x ∧
    (h ++ h').countP (·.2.deed.isExpiry) ≤ s.machine.mailbox.contents.length + 1 ∧
    (x.Waits ∧ Pass.commands h' = s'.machine.mailbox.contents ∨ x.FailsIn h')

theorem Serves.commands_length_le (hs : s.Serves h s') :
    (Pass.commands h).length ≤ s.machine.mailbox.contents.length := by
  have hle := hs.commands.length_le
  rw [List.length_append] at hle
  omega

theorem Reachable.exists_isAcceptance (hs : s.Reachable) {before between after : List Pass}
    {p q : Pass} (hj : passes s.journal = before ++ p :: between ++ q :: after)
    (hp : p.2.deed.isExpiry = true) (hq : q.2.deed.isExpiry = true) :
    ∃ z ∈ between, z.2.deed.isAcceptance = true := by
  obtain ⟨setup, s₀, as, hs₀, has⟩ := hs
  obtain ⟨timing, status, listener, sendWait, resident, observers, -, -, rfl⟩ :=
    exists_of_assemble hs₀
  obtain ⟨h, he, hh⟩ := evolves_of_steps False as has nofun
  rw [hh] at hj
  obtain rfl : h = before ++ p :: between ++ q :: after := hj
  exact he.exists_isAcceptance hp hq

/-- One expiry is free, and every other is paid for by a command. -/
theorem countP_isExpiry_le_of_steps (hr : s.machine.status = .running) (has : s.steps as = some s')
    (hstill : s.Still s') : ∃ h, passes s'.journal = passes s.journal ++ h ∧ s.Serves h s' ∧
      h.countP (·.2.deed.isExpiry) ≤ s.machine.mailbox.contents.length + 1 := by
  obtain ⟨h, hj, hserves⟩ := serves_of_steps hr has hstill
  refine ⟨h, hj, hserves, ?_⟩
  obtain ⟨h', he, hj'⟩ := evolves_of_steps False as has nofun
  obtain rfl : h' = h := List.append_cancel_left (hj'.symm.trans hj)
  calc h'.countP (·.2.deed.isExpiry)
      ≤ h'.countP (·.2.deed.isExpiry) + s'.machine.tracker.deadline.isSome.toNat :=
        Nat.le_add_right _ _
    _ ≤ h'.countP (·.2.deed.isAcceptance) + s.machine.tracker.deadline.isSome.toNat :=
        he.countP_isExpiry_le
    _ ≤ s.machine.mailbox.contents.length + 1 :=
        Nat.add_le_add ((Pass.countP_isAcceptance_le h').trans hserves.commands_length_le)
          (Bool.toNat_le _)

/-- **While time stands still, the worker comes to rest**: it lets phases end once more than there are
commands at most, handles the commands in order, and waits, unless a callback that does not return ends
it. -/
theorem subsides_of_steps (hs : s.Reachable) (hr : s.machine.status = .running)
    (has : s.steps as = some s') (hstill : s.Still s') :
    ∃ h, passes s'.journal = passes s.journal ++ h ∧ s.Subsides h s' := by
  have hs' := hs.steps has
  obtain ⟨h, hj, hserves, hle⟩ := countP_isExpiry_le_of_steps hr has hstill
  refine ⟨h, hj, hserves, hle, ?_, fun _ _ _ _ _ => hs'.exists_isAcceptance, hs'.exists_expires,
    hs'.waits, fun hr' => ?_⟩
  · have hlength := hserves.length
    have hcommands := hserves.commands_length_le
    omega
  · obtain ⟨h', x, hd, hx, hends⟩ := hs'.exists_drains hr'
    obtain ⟨as', has', hj'⟩ := hd.exists_steps
    obtain ⟨g, hg, -, hle'⟩ := countP_isExpiry_le_of_steps hr (steps_append_iff.2 ⟨s', has, has'⟩)
      (hstill.trans hx)
    obtain rfl : g = h ++ h' := by
      rw [hj', hj, List.append_assoc] at hg
      exact (List.append_cancel_left hg).symm
    refine ⟨h', x, hd, hx, hle', hends.imp_left fun hw => ⟨hw, ?_⟩⟩
    have hcommands := (hd.commands_append hw.running).2
    rwa [hw.contents, List.append_nil] at hcommands

/-- A linger and a wait that last no time: two expiries at one instant, with one command between them. -/
theorem subsides_of_steps_zero :
    ∃ s s' : System, s.Reachable ∧ s.machine.status = .running ∧
      s.machine.mailbox.contents.length = 1 ∧ s.steps [.work, .work, .work] = some s' ∧ s.Still s' ∧
      (passes s'.journal).countP (·.2.deed.isExpiry) =
        (passes s.journal).countP (·.2.deed.isExpiry) + 2 ∧
      ∃ h, passes s'.journal = passes s.journal ++ h ∧ s.Subsides h s' := by
  obtain ⟨s₀, hs₀, hrun⟩ : ∃ s₀, Setup.assemble {} = .ok s₀ ∧
      ((s₀.steps [.call 0 (.start true), .resume 0,
        .call 0 (.newRequest ⟨.broadcast, 0, 0, 0, []⟩), .resume 1, .work,
        .call 0 (.confirmation ⟨0, 0, 0⟩ none), .resume 2, .work,
        .call 0 (.setTime .confirmationWait 0), .resume 3,
        .call 0 (.newRequest ⟨.node 1, 0, 0, 0, []⟩), .resume 4]).any fun s =>
          s.machine.status = .running ∧ s.machine.mailbox.contents.length = 1 ∧
          (s.steps [.work, .work, .work]).any fun s' =>
            (s'.now = s.now ∧ s'.machine.mailbox.nextTicket = s.machine.mailbox.nextTicket ∧
              s'.machine.status.isOpen) ∧
            (passes s'.journal).countP (·.2.deed.isExpiry) =
              (passes s.journal).countP (·.2.deed.isExpiry) + 2) = true :=
    ⟨_, rfl, by decide +kernel⟩
  obtain ⟨s, hs, hrun⟩ := (Option.any_eq_true _ _).1 hrun
  obtain ⟨hr, hk, hrun⟩ := of_decide_eq_true hrun
  obtain ⟨s', hs', hrun⟩ := (Option.any_eq_true _ _).1 hrun
  obtain ⟨⟨hn, ht, ho⟩, hcount⟩ := of_decide_eq_true hrun
  have hreach : s.Reachable := ⟨{}, s₀, _, hs₀, hs⟩
  exact ⟨s, s', hreach, hr, hk, hs', ⟨hn, ht, ho⟩, hcount,
    subsides_of_steps hreach hr hs' ⟨hn, ht, ho⟩⟩

/-- A callback that does not return leaves a command behind: the reset before it is handled, and with that
the worker ends. -/
theorem exists_never_hasHandled :
    ∃ s s' : System, s.Reachable ∧ s.machine.status = .running ∧
      s.machine.mailbox.contents = [(1, .resetAfterError), (2, .newRequest ⟨.node 2, 6, 1, 0, []⟩)] ∧
      s.step .work = some s' ∧ s.Still s' ∧ s'.machine.phase = .freeForSend ∧
      s'.step .work = none ∧ s'.machine.mailbox.contents = [] ∧
      ∀ as x, s'.steps as = some x → ∀ c reply, ¬ x.HasHandled 2 c reply := by
  obtain ⟨s₀, hs₀, hrun⟩ : ∃ s₀, Setup.assemble {} = .ok s₀ ∧
      ((s₀.steps [.call 0 (.start true), .resume 0, .call 0 (.newRequest ⟨.node 1, 6, 1, 0, []⟩),
        .resume 1, .work, .resume 1, .elapse (Duration.millis 500), .work,
        .call 0 (.register .failing "o"), .resume 2, .call 0 .reset,
        .call 0 (.newRequest ⟨.node 2, 6, 1, 0, []⟩), .resume 3, .resume 4]).any fun s =>
          s.machine.status = .running ∧
          s.machine.mailbox.contents =
            [(1, .resetAfterError), (2, .newRequest ⟨.node 2, 6, 1, 0, []⟩)] ∧
          (s.step .work).any fun s' =>
            (s'.now = s.now ∧ s'.machine.mailbox.nextTicket = s.machine.mailbox.nextTicket ∧
              s'.machine.status.isOpen) ∧
            s'.machine.phase = .freeForSend ∧ s'.step .work = none ∧
            s'.machine.mailbox.contents = [] ∧ 2 < s'.machine.mailbox.nextTicket ∧
            2 ∉ Pass.tickets (passes s'.journal)) = true := ⟨_, rfl, by decide +kernel⟩
  obtain ⟨s, hs, hrun⟩ := (Option.any_eq_true _ _).1 hrun
  obtain ⟨hr, hcontents, hrun⟩ := of_decide_eq_true hrun
  obtain ⟨s', hs', hrun⟩ := (Option.any_eq_true _ _).1 hrun
  obtain ⟨⟨hn, ht, ho⟩, hphase, hblocked, hempty, hgiven, hnew⟩ := of_decide_eq_true hrun
  have hgone : Gone 2 s' := ⟨hgiven, fun c hc => by simp [hempty] at hc⟩
  exact ⟨s, s', ⟨{}, s₀, _, hs₀, hs⟩, hr, hcontents, hs', ⟨hn, ht, ho⟩, hphase, hblocked, hempty,
    fun as x hx c reply hh => hnew (mem_tickets_iff.2 ⟨c, reply, hgone.hasHandled_of_steps hx hh⟩)⟩

end Subsiding

end System
end MeshExchange
