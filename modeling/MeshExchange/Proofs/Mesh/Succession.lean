import MeshExchange.Proofs.Mesh.Exchange
import MeshExchange.Proofs.Mesh.Progress
import MeshExchange.Proofs.System.CallSequence
import MeshExchange.Proofs.System.Tickets

/-!
# Requests are serialised

A list of requests is sent on a machine that was just started in front of the simulated mesh, each as
soon as the one before was sent. The mesh loses nothing and answers in time, and the senders have time
to wait. Then no request is refused, no frame gets lost, and each leaves at the instant at which the
exchange before it is over.

**Method.** `Plan.Reaches` says which progress was made with the list. As for a single exchange, each
party makes progress or has to wait for another one. Where all have to wait, nothing is due on the channel,
and only the clock goes on.

**Results.**
* `Plan.Reaches`: how far the calls have got;
* `Plan.Reaches.furthers_of_work`, `Plan.Reaches.deliver_cases`, `Plan.Reaches.resume_cases`: what each
  party does;
* `Plan.Reaches.rests`: nobody waits in vain;
* `Plan.decreases_reaches`: every step keeps the relation and uses up some of what is left;
* `Plan.Shows`, `Plan.Completes`, `Plan.serialised_of_unfolds`: what is seen of the requests, in every run.
-/

namespace MeshExchange

/-- Nobody is kept out of the slot, so nobody has to hand in a command later. -/
theorem Mailbox.handIn?_of_claim {b : Mailbox} {a : Option (Ticket × Command)}
    (h : b.slot = .ofClaim a) (ticket : Ticket) : b.handIn? ticket = none := by
  cases a <;> simp [handIn?, h, Slot.ofClaim]

namespace System

variable {s : System} {i : Nat} {stage : Stage}

section Departures

/-- The frames that left according to a journal, each with its instant and what the link made of it. -/
def departures (journal : List (Instant × Entry)) :
    List (Instant × Frame × Except Fault Unit) :=
  journal.filterMap fun
    | (n, .transmitted frame outcome) => some (n, frame, outcome)
    | _ => none

theorem departures_record_of_ne {entry : Entry}
    (he : ∀ frame outcome, entry ≠ .transmitted frame outcome) :
    departures (s.record entry).journal = departures s.journal := by
  cases entry with
  | transmitted frame outcome => exact absurd rfl (he frame outcome)
  | _ => simp [departures, record]

theorem sentFrames_eq (h : s.link.takesFrames = true) :
    s.sentFrames = (departures s.journal).map (·.2.1) := by
  rw [sentFrames, if_pos h, departures, List.map_filterMap]
  congr 1
  funext ⟨n, entry⟩
  cases entry <;> rfl

theorem departures_record_transmitted (s : System) (frame : Frame) (outcome : Except Fault Unit) :
    departures (s.record (.transmitted frame outcome)).journal =
      departures s.journal ++ [(s.now, frame, outcome)] := by
  simp [departures, record]

end Departures

/-- The commands of the pump and of a caller are told apart by their tickets. -/
theorem Reachable.ticket_ne {d : Delivery} {q q' : Pending} (hs : s.Reachable)
    (hp : s.pump = .handing d q) (hi : s.callers[i]? = some stage)
    (hq : stage.pending? = some q') : q.ticket ≠ q'.ticket := by
  intro heq
  have hpump : s.pending? .pump = some q := by
    simp [pending?, hp, Pump.pending?]
  have hcaller : s.pending? (.caller i) = some q' := by
    simp [pending?, hi, hq]
  cases hs.ticketed.distinct _ _ _ _ hpump hcaller heq

end System

/-- The calls have got as far as the progress says. That the system is reachable tells the tickets apart. -/
structure Plan.Reaches (p : Plan) (o : Observer) (requests : List Request) (c : CallSequence)
    (x : Progress) : Prop where
  attached : c.system.Attached p.behaviour o
  reachable : c.system.Reachable
  wait : c.system.sendWait = p.wait
  departures : System.departures c.system.journal = p.departures x.sent
  meshCore : c.system.meshCore = x.meshCore p
  calls : c.calls = x.later.map .send
  requests : x.requests = requests
  valid : x.Valid p

/-- A step after which the calls have got further than before, and less is left to be done. -/
def Plan.Furthers (p : Plan) (o : Observer) (requests : List Request) (calls : List Call) (s' : System)
    (x : Progress) : Prop :=
  ∃ y, p.Reaches o requests ⟨calls, s'⟩ y ∧ y.now = x.now ∧ y.left < x.left

namespace Plan.Reaches

open MeshExchange.System

variable {p : Plan} {o : Observer} {requests : List Request} {calls : List Call} {s s' : System}
  {x y : Progress} {a : Action} {i : Nat}

section Bringing

theorem running (ht : p.Reaches o requests ⟨calls, s⟩ x) : s.machine.status = .running :=
  ht.attached.attended.running

theorem guard (ht : p.Reaches o requests ⟨calls, s⟩ x) :
    0 < s.machine.settings.stateChangeLimit :=
  ht.attached.attended.guard

theorem core (ht : p.Reaches o requests ⟨calls, s⟩ x) : s.core = (x.meshCore p).core :=
  congrArg MeshCore.core ht.meshCore

theorem callers (ht : p.Reaches o requests ⟨calls, s⟩ x) :
    s.callers = finished (p.answers x.sent) ++ x.sender.stage?.toList :=
  congrArg Core.callers ht.core

theorem callers_of_stage {stage : Stage} (ht : p.Reaches o requests ⟨calls, s⟩ x)
    (hb : x.sender.stage? = some stage) : s.callers = finished (p.answers x.sent) ++ [stage] := by
  rw [ht.callers, hb]
  rfl

theorem slot (ht : p.Reaches o requests ⟨calls, s⟩ x) :
    s.machine.mailbox.slot = .ofClaim (x.pump.claim.or x.sender.claim) :=
  congrArg Core.slot ht.core

theorem replies (ht : p.Reaches o requests ⟨calls, s⟩ x) :
    s.machine.replies = x.pump.replies ++ x.sender.replies :=
  congrArg Core.replies ht.core

theorem pump (ht : p.Reaches o requests ⟨calls, s⟩ x) : s.pump = x.pump.state :=
  congrArg MeshCore.pump ht.meshCore

theorem waiting (ht : p.Reaches o requests ⟨calls, s⟩ x) : s.deliveries = x.pump.waiting :=
  congrArg MeshCore.waiting ht.meshCore

theorem now (ht : p.Reaches o requests ⟨calls, s⟩ x) : s.now = x.now :=
  congrArg Core.now ht.core

/-- The request that is being sent is one of the list. -/
theorem serves (ht : p.Reaches o requests ⟨calls, s⟩ x) (hs : ∀ r ∈ requests, p.Serves r) :
    ∀ r, x.sender.request? = some r → p.Serves r := by
  intro r hr
  refine hs r ?_
  rw [← ht.requests]
  simp [Progress.requests, hr]

/-- A step of anybody, besides the sending of a frame. -/
theorem furthers (ht : p.Reaches o requests ⟨calls, s⟩ x) (hx : x.Advances p y)
    (h : s.step a = some s') (ha : s'.Attached p.behaviour o) (hw : s'.sendWait = s.sendWait)
    (hd : System.departures s'.journal = System.departures s.journal)
    (hp : s'.meshCore = y.meshCore p) : p.Furthers o requests calls s' x := by
  refine ⟨y, ⟨ha, ht.reachable.step h, hw.trans ht.wait, ?_, hp, ?_, ?_, hx.valid⟩, hx.now, hx.left⟩
  · rw [hd, hx.sent]
    exact ht.departures
  · rw [hx.later]
    exact ht.calls
  · rw [← ht.requests, Progress.requests, Progress.requests, hx.sent, hx.request, hx.later]

end Bringing

section Worker

theorem furthers_of_work (ht : p.Reaches o requests ⟨calls, s⟩ x) (hs : ∀ r ∈ requests, p.Serves r)
    (h : s.work = some s') : p.Furthers o requests calls s' x := by
  obtain ⟨-, ha, hcases⟩ := ht.attached.work_cases h
  obtain ⟨hw, hd⟩ : s'.sendWait = s.sendWait ∧
      System.departures s'.journal = System.departures s.journal := by
    obtain ⟨⟨turn, m⟩, -, rfl⟩ := Option.map_eq_some_iff.1 h
    exact ⟨rfl, departures_record_of_ne (s := { s with machine := m }) (by simp)⟩
  obtain ⟨hnow, htiming, hslot', hreplies, -, hstanding⟩ := Core.mk.inj ht.core
  rcases hcases with ⟨hp, hdue, -⟩ | ⟨ticket, c, hslot, -, hp⟩
  · have hdue' : x.standing.tracker.isDue x.now = true := by
      rw [← hnow, ← hstanding]
      exact hdue
    refine ht.furthers (a := .work) (ht.valid.lapse (ht.serves hs) hdue') h ha hw hd ?_
    rw [hp, hstanding, hnow, ht.meshCore]
    rfl
  · obtain ⟨y, hy, hmesh⟩ := ht.valid.handle (hslot'.symm.trans hslot)
    refine ht.furthers (a := .work) hy h ha hw hd ?_
    rw [hp, hmesh, hstanding, hnow, htiming, hreplies, ht.meshCore]

end Worker

section Replies

/-- The pump and the sender do not find each other's replies. -/
theorem ne_of_mem_replies (ht : p.Reaches o requests ⟨calls, s⟩ x) {stage : Stage} {q : Pending}
    (hs : x.sender.stage? = some stage) (hq : stage.pending? = some q) :
    ∀ z ∈ x.pump.replies, z.1 ≠ q.ticket := by
  intro z hz
  obtain ⟨d, q', hp, hticket⟩ := PumpProgress.exists_state_of_mem_replies hz
  have hi : s.callers[(p.answers x.sent).length]? = some stage := by
    rw [ht.callers, hs]
    exact getElem?_last stage
  rw [← hticket]
  exact ht.reachable.ticket_ne (ht.pump.trans hp) hi hq

/-- What the pump has to fetch makes no difference to the sender. -/
theorem replies_of_pending (ht : p.Reaches o requests ⟨calls, s⟩ x) {stage : Stage} {q : Pending}
    (hs : x.sender.stage? = some stage) (hq : stage.pending? = some q) :
    s.machine.reply? q.ticket = x.sender.replies.lookup q.ticket ∧
      x.pump.replies.filter (·.1 != q.ticket) = x.pump.replies := by
  have hne := ht.ne_of_mem_replies hs hq
  have hnone : x.pump.replies.lookup q.ticket = none :=
    List.lookup_eq_none_iff.2 fun z hz => bne_iff_ne.2 (hne z hz).symm
  refine ⟨?_, List.filter_eq_self.2 fun z hz => bne_iff_ne.2 (hne z hz)⟩
  rw [Machine.reply?, ht.replies, List.lookup_append, hnone, Option.none_or]

end Replies

section Pumping

variable {d : Delivery} {ds : List Delivery} {ticket : Ticket} {command : Command} {giveUp : Instant}
  {phase : Phase}

theorem exists_take (ht : p.Reaches o requests ⟨calls, s⟩ x) (hh : x.pump = .idle (d :: ds)) :
    ∃ s', s.deliver = some s' ∧ p.Furthers o requests calls s' x := by
  have hpump : s.pump = .idle := by
    rw [ht.pump, hh]
    rfl
  have hwaiting : s.deliveries = d :: ds := by
    rw [ht.waiting, hh]
    rfl
  have hstep := deliver_idle hpump hwaiting
  refine ⟨_, hstep, ht.furthers (a := .deliver) (ht.valid.take hh) hstep
    (ht.attached.update _ _ _ _ _ _ _) rfl rfl ?_⟩
  rw [meshCore_pump s, ht.meshCore]
  simp [Progress.meshCore, Progress.slot, Progress.replies, hh, PumpProgress.state,
    PumpProgress.waiting, PumpProgress.claim, PumpProgress.replies]

theorem exists_hand (ht : p.Reaches o requests ⟨calls, s⟩ x) (hh : x.pump = .sleeping d ds)
    (hd : d.due ≤ s.now) : ∃ s', s.deliver = some s' ∧ p.Furthers o requests calls s' x := by
  have hpump : s.pump = .sleeping d := by
    rw [ht.pump, hh]
    rfl
  have hg : x.now < s.now + s.machine.settings.stateChangeLimit := by
    rw [ht.now]
    exact Nat.lt_add_of_pos_right ht.guard
  obtain ⟨c, hc, hempty, hx⟩ := ht.valid.hand hh (ht.now ▸ hd) hg s.machine.mailbox.nextTicket
  have hstep := deliver_sleeping_command hpump hd hc ht.running
    (ht.slot.trans hempty)
  refine ⟨_, hstep, ht.furthers (a := .deliver) hx hstep (ht.attached.update _ _ _ _ _ _ _) rfl rfl ?_⟩
  rw [meshCore_mailbox s, ht.meshCore, ht.callers]
  simp [Progress.meshCore, Progress.slot, Progress.replies, hh, PumpProgress.state,
    PumpProgress.waiting, PumpProgress.claim, PumpProgress.replies, Slot.ofClaim]

/-- While its command is in the slot the pump waits for the reply. -/
theorem deliver_eq_none_of_handed (ht : p.Reaches o requests ⟨calls, s⟩ x)
    (hh : x.pump = .handed d ds ticket command giveUp) :
    s.deliver = none ∧ s.machine.mailbox.slot = .full ticket command := by
  have hpump : s.pump = .handing d ⟨ticket, command, giveUp⟩ := by
    rw [ht.pump, hh]
    rfl
  have hsender := ht.valid.sender
  have hfits := ht.valid.pump
  rw [hh] at hsender hfits
  have hr : s.machine.reply? ticket = none := by
    rw [Machine.reply?, ht.replies, hh, SenderProgress.replies_of_waits hsender.waits_of_cons]
    rfl
  have hg : s.now < giveUp := by
    rw [ht.now]
    cases hfits with
    | handed _ _ hg => exact hg
  have hb := Mailbox.handIn?_of_claim ht.slot ticket
  refine ⟨deliver_handing_eq_none hpump
    (Machine.pursue_eq_none hb hr ht.running hg), ?_⟩
  rw [ht.slot, hh]
  rfl

theorem exists_fetch (ht : p.Reaches o requests ⟨calls, s⟩ x)
    (hh : x.pump = .answered d ds ticket command giveUp phase) :
    ∃ s', s.deliver = some s' ∧ p.Furthers o requests calls s' x := by
  have hpump : s.pump = .handing d ⟨ticket, command, giveUp⟩ := by
    rw [ht.pump, hh]
    rfl
  have hreplies : s.machine.replies = (ticket, .ok phase) :: x.sender.replies := by
    rw [ht.replies, hh]
    rfl
  have hr : s.machine.reply? ticket = some (.ok phase) := by
    rw [Machine.reply?, hreplies, List.lookup_cons_self]
  -- The reply that a sender waits for stays where it is.
  have hrest : s.machine.replies.filter (·.1 != ticket) = x.sender.replies := by
    rw [hreplies, List.filter_cons_of_neg (by simp), List.filter_eq_self]
    intro z hz
    obtain ⟨stage, q, hstage, hq, hticket⟩ := SenderProgress.exists_pending_of_mem_replies hz
    have hne := ht.ne_of_mem_replies hstage hq (ticket, .ok phase) (by simp [hh, PumpProgress.replies])
    rw [hticket] at hne
    exact bne_iff_ne.2 hne.symm
  have hstep := deliver_handing_of_pursue hpump
    (Machine.pursue_of_reply? (Mailbox.handIn?_of_claim ht.slot ticket) hr)
  refine ⟨_, hstep, ht.furthers (a := .deliver) (ht.valid.fetch hh) hstep
    ((ht.attached.note (by simp)).update _ _ _ _ _ _ _) rfl ?_ ?_⟩
  · exact departures_record_of_ne (s := { s with machine := s.machine.fetched ticket }) (by simp)
  · rw [meshCore_handOver, Machine.fetched, hrest, meshCore_replies s, ht.meshCore, ht.callers]
    simp [Progress.meshCore, Progress.slot, Progress.replies, hh, PumpProgress.state,
      PumpProgress.waiting, PumpProgress.claim, PumpProgress.replies]

/-- **What the pump does**: a step that makes progress, unless there is nothing to take in, or it is
too early, or it is the worker's turn. -/
theorem deliver_cases (ht : p.Reaches o requests ⟨calls, s⟩ x) :
    (∃ s', s.deliver = some s' ∧ p.Furthers o requests calls s' x) ∨
      s.deliver = none ∧
        ((∃ ticket c, s.machine.mailbox.slot = .full ticket c) ∨ x.pump = .idle [] ∨
          ∃ d ds, x.pump = .sleeping d ds ∧ x.now < d.due) := by
  have hpump := ht.pump
  have hwaiting := ht.waiting
  cases hh : x.pump with
  | idle ds =>
      cases ds with
      | nil =>
          rw [hh] at hpump hwaiting
          have hnone : s.deliver = none := by
            rw [deliver, hpump, hwaiting]
            rfl
          exact .inr ⟨hnone, .inr (.inl rfl)⟩
      | cons d ds => exact .inl (ht.exists_take hh)
  | sleeping d ds =>
      rcases Nat.lt_or_ge s.now d.due with hlt | hdue
      · rw [hh] at hpump
        have hnone : s.deliver = none := by
          rw [deliver, hpump]
          exact if_neg (Nat.not_le.2 hlt)
        exact .inr ⟨hnone, .inr (.inr ⟨d, ds, rfl, ht.now ▸ hlt⟩)⟩
      · exact .inl (ht.exists_hand hh hdue)
  | handed d ds ticket command giveUp =>
      obtain ⟨hnone, hslot⟩ := ht.deliver_eq_none_of_handed hh
      exact .inr ⟨hnone, .inl ⟨ticket, command, hslot⟩⟩
  | answered d ds ticket command giveUp phase => exact .inl (ht.exists_fetch hh)

end Pumping

section Sending

variable {r : Request} {due deadline giveUp : Instant} {limit : Duration} {ticket : Ticket}

/-- A step of the sender, besides the sending of a frame. -/
theorem furthers_of_advance {stage stage' : Stage} {s₁ : System}
    (ht : p.Reaches o requests ⟨calls, s⟩ x) (hb : x.sender.stage? = some stage)
    (hadv : s.advance stage = some (stage', s₁)) (hx : x.Advances p y)
    (hc : s₁.callers = s.callers)
    (ha : Attached p.behaviour o { s₁ with callers := finished (p.answers x.sent) ++ [stage'] })
    (hw : s₁.sendWait = s.sendWait) (hj : s₁.journal = s.journal)
    (hp : System.meshCore { s₁ with callers := finished (p.answers x.sent) ++ [stage'] } =
      y.meshCore p) :
    ∃ s', s.resume (p.answers x.sent).length = some s' ∧ p.Furthers o requests calls s' x := by
  have hstep := resume_of_last (ht.callers_of_stage hb) hadv hc
  exact ⟨_, hstep, ht.furthers (a := .resume _) hx hstep ha hw (congrArg System.departures hj) hp⟩

theorem exists_seek (ht : p.Reaches o requests ⟨calls, s⟩ x) (hs : p.Serves r)
    (hb : x.sender = .planned r due) :
    ∃ s', s.resume (p.answers x.sent).length = some s' ∧ p.Furthers o requests calls s' x := by
  have hsender := ht.valid.sender
  rw [hb] at hsender
  have hlimit : Instant.since (s.now + s.sendWait) s.now = p.wait := by
    rw [ht.wait]
    exact Nat.add_sub_cancel_left s.now p.wait
  have hadv := advance_send ht.running hs.frame (ht.now ▸ hsender.due_le)
  rw [hlimit] at hadv
  refine ht.furthers_of_advance (congrArg SenderProgress.stage? hb) hadv
    (ht.valid.seek hs hb (s.now + s.sendWait) p.wait) rfl (ht.attached.update _ _ _ _ _ _ _) rfl rfl ?_
  rw [meshCore_callers s, ht.meshCore, ht.now]
  simp [Progress.meshCore, Progress.slot, Progress.replies, hb, SenderProgress.claim,
    SenderProgress.replies, SenderProgress.stage?]

theorem phase_eq (ht : p.Reaches o requests ⟨calls, s⟩ x) :
    s.machine.phase = x.standing.tracker.phase :=
  ht.attached.attended.phase.trans (congrArg (·.standing.tracker.phase) ht.core)

theorem exists_announce (ht : p.Reaches o requests ⟨calls, s⟩ x)
    (hb : x.sender = .seeking r deadline limit giveUp)
    (hfree : x.standing.tracker.phase = .freeForSend) :
    ∃ s', s.resume (p.answers x.sent).length = some s' ∧ p.Furthers o requests calls s' x := by
  refine ht.furthers_of_advance (congrArg SenderProgress.stage? hb)
    (advance_seeking (ht.phase_eq.trans hfree)) (ht.valid.announce hb hfree) rfl
    (ht.attached.update _ _ _ _ _ _ _) rfl rfl ?_
  rw [meshCore_callers s, ht.meshCore]
  simp [Progress.meshCore, Progress.slot, Progress.replies, hb, SenderProgress.claim,
    SenderProgress.replies, SenderProgress.stage?]

/-- On a busy channel the sender waits. -/
theorem resume_eq_none_of_seeking (ht : p.Reaches o requests ⟨calls, s⟩ x)
    (hb : x.sender = .seeking r deadline limit giveUp)
    (hbusy : x.standing.tracker.phase ≠ .freeForSend) :
    s.resume (p.answers x.sent).length = none := by
  have hsender := ht.valid.sender
  rw [hb] at hsender
  have hphase : s.machine.phase ≠ .freeForSend := ht.phase_eq ▸ hbusy
  have hg : s.now < giveUp := ht.now ▸ hsender.lt_giveUp
  refine resume_of_last_eq_none (ht.callers_of_stage (congrArg SenderProgress.stage? hb)) ?_
  simp [advance, Machine.watch, hphase, ht.running, Status.isClosed, Nat.not_le.2 hg]

theorem exists_submit (ht : p.Reaches o requests ⟨calls, s⟩ x)
    (hb : x.sender = .announcing r deadline) :
    ∃ s', s.resume (p.answers x.sent).length = some s' ∧ p.Furthers o requests calls s' x := by
  have hg : x.now < s.now + s.machine.settings.stateChangeLimit := by
    rw [ht.now]
    exact Nat.lt_add_of_pos_right ht.guard
  obtain ⟨hclaim, hx⟩ := ht.valid.submit hb hg s.machine.mailbox.nextTicket
  have hempty : s.machine.mailbox.slot = .empty := by
    rw [ht.slot, hclaim, hb]
    rfl
  refine ht.furthers_of_advance (congrArg SenderProgress.stage? hb)
    (advance_announcing ht.running hempty) hx rfl
    (ht.attached.update _ _ _ _ _ _ _) rfl rfl ?_
  rw [meshCore_mailbox s, ht.meshCore, ht.pump]
  simp [Progress.meshCore, Progress.slot, Progress.replies, hb, hclaim, SenderProgress.claim,
    SenderProgress.replies, Slot.ofClaim, SenderProgress.stage?]

/-- While its announcement is in the slot the sender waits for the reply. -/
theorem resume_eq_none_of_submitted (ht : p.Reaches o requests ⟨calls, s⟩ x)
    (hb : x.sender = .submitted r deadline ticket giveUp) :
    s.resume (p.answers x.sent).length = none ∧
      s.machine.mailbox.slot = .full ticket (.newRequest r) := by
  have hstage := congrArg SenderProgress.stage? hb
  have hsender := ht.valid.sender
  rw [hb] at hsender
  obtain ⟨hahead, hg⟩ := hsender.of_submitted
  obtain ⟨hr, -⟩ := ht.replies_of_pending hstage rfl
  rw [hb] at hr
  have hbox := Mailbox.handIn?_of_claim ht.slot ticket
  refine ⟨resume_of_last_eq_none (ht.callers_of_stage hstage) (advance_announced_eq_none
    (Machine.pursue_eq_none hbox hr ht.running (ht.now ▸ hg))), ?_⟩
  rw [ht.slot, PumpProgress.claim_of_ahead hahead, hb]
  rfl

theorem exists_learn (ht : p.Reaches o requests ⟨calls, s⟩ x)
    (hb : x.sender = .accepted r deadline ticket giveUp) :
    ∃ s', s.resume (p.answers x.sent).length = some s' ∧ p.Furthers o requests calls s' x := by
  have hstage := congrArg SenderProgress.stage? hb
  obtain ⟨hr, hrest⟩ := ht.replies_of_pending hstage rfl
  rw [hb, SenderProgress.replies, List.lookup_cons_self] at hr
  have hkept : s.machine.replies.filter (·.1 != ticket) = x.pump.replies := by
    rw [ht.replies, List.filter_append, hrest, hb]
    simp [SenderProgress.replies]
  have hbox := Mailbox.handIn?_of_claim ht.slot ticket
  refine ht.furthers_of_advance hstage
    (advance_announced_of_pursue (Machine.pursue_of_reply? hbox hr)) (ht.valid.learn hb) rfl
    (ht.attached.update _ _ _ _ _ _ _) rfl rfl ?_
  rw [Machine.fetched, hkept, meshCore_replies s, ht.meshCore]
  simp [Progress.meshCore, Progress.slot, Progress.replies, hb, SenderProgress.claim,
    SenderProgress.replies, SenderProgress.stage?]

/-- The sender hands its frame to the link. -/
theorem exists_transmit (ht : p.Reaches o requests ⟨calls, s⟩ x) (hl : p.behaviour.IsLossless)
    (hs : p.Serves r) (hb : x.sender = .transmitting r deadline) :
    ∃ s', s.resume (p.answers x.sent).length = some s' ∧ p.Furthers o requests calls s' x := by
  obtain ⟨hnow, hvalid, hlt⟩ := ht.valid.transmit hl hs hb
  have hstep := resume_of_last (ht.callers_of_stage (congrArg SenderProgress.stage? hb))
    (advance_transmitting ht.attached.link hs.frame) rfl
  refine ⟨_, hstep, x.transmit p r, ⟨(ht.attached.note (by simp)).update _ _ _ _ _ _ _,
    ht.reachable.step (a := .resume _) hstep, ht.wait, ?_, ?_, ht.calls, ?_, hvalid⟩, rfl, hlt⟩
  · have hd := departures_record_transmitted s r.bytes (.ok ())
    rw [ht.departures, ht.now, hnow, ← Plan.departures_concat] at hd
    exact hd
  · rw [meshCore_transmitted s, ht.meshCore, ht.waiting, ht.now, hnow]
    simp [Progress.meshCore, Progress.transmit, Progress.slot, Progress.replies, hb, hnow,
      SenderProgress.claim, SenderProgress.replies, SenderProgress.stage?, Plan.departures_concat,
      Plan.answers_concat, finished_append]
  · rw [← ht.requests]
    simp [Progress.requests, Progress.transmit, hb, SenderProgress.request?]

/-- **What the sender does**: a step that makes progress, unless it is through, or the channel is
busy, or it is the worker's turn. -/
theorem resume_cases (ht : p.Reaches o requests ⟨calls, s⟩ x) (hl : p.behaviour.IsLossless)
    (hs : ∀ r ∈ requests, p.Serves r) :
    (∃ s', s.resume (p.answers x.sent).length = some s' ∧ p.Furthers o requests calls s' x) ∨
      s.resume (p.answers x.sent).length = none ∧
        ((∃ ticket c, s.machine.mailbox.slot = .full ticket c) ∨ x.sender = .through ∨
          (∃ r deadline limit giveUp, x.sender = .seeking r deadline limit giveUp) ∧
            x.standing.tracker.phase ≠ .freeForSend) := by
  have hserves := ht.serves hs
  cases hb : x.sender with
  | through =>
      have hnone : s.resume (p.answers x.sent).length = none := by
        simp [resume, ht.callers, hb, SenderProgress.stage?, finished]
      exact .inr ⟨hnone, .inr (.inl rfl)⟩
  | planned r due => exact .inl (ht.exists_seek (hserves r (congrArg SenderProgress.request? hb)) hb)
  | seeking r deadline limit giveUp =>
      by_cases hfree : x.standing.tracker.phase = .freeForSend
      · exact .inl (ht.exists_announce hb hfree)
      · exact .inr ⟨ht.resume_eq_none_of_seeking hb hfree, .inr (.inr ⟨⟨_, _, _, _, rfl⟩, hfree⟩)⟩
  | announcing r deadline => exact .inl (ht.exists_submit hb)
  | submitted r deadline ticket giveUp =>
      obtain ⟨hnone, hslot⟩ := ht.resume_eq_none_of_submitted hb
      exact .inr ⟨hnone, .inl ⟨_, _, hslot⟩⟩
  | accepted r deadline ticket giveUp => exact .inl (ht.exists_learn hb)
  | transmitting r deadline =>
      exact .inl (ht.exists_transmit hl (hserves r (congrArg SenderProgress.request? hb)) hb)

end Sending

section Resting

/-- The next call is made when the sender is through with the last one. -/
theorem isThrough_iff (ht : p.Reaches o requests ⟨calls, s⟩ x) :
    s.isThrough = true ↔ x.sender = .through := by
  have hcallers := ht.callers
  cases hb : x.sender with
  | through =>
      rw [hb] at hcallers
      exact iff_of_true (isThrough_of_finished (hcallers.trans (List.append_nil _))) rfl
  | _ =>
      rw [hb] at hcallers
      rw [isThrough_of_last hcallers]
      exact iff_of_false (by simp [Stage.answer?]) (by simp)

/-- **Nobody waits in vain**: where nobody can act, the sender is through or waits for a busy channel, and
nothing is due. -/
theorem rests (ht : p.Reaches o requests ⟨calls, s⟩ x) (hl : p.behaviour.IsLossless)
    (hs : ∀ r ∈ requests, p.Serves r) (hable : CallSequence.isAble ⟨calls, s⟩ = false) : x.Rests := by
  obtain ⟨hquiet, hcall⟩ := Bool.or_eq_false_iff.1 hable
  have hwork : s.work = none := work_eq_none hquiet
  have hslot : ¬ ∃ ticket c, s.machine.mailbox.slot = .full ticket c := by
    rintro ⟨ticket, c, hslot⟩
    obtain ⟨s', hs'⟩ := ht.attached.attended.exists_work hslot
    rw [work_bare, hwork] at hs'
    cases hs'
  refine ⟨?_, ?_, ?_⟩
  · rcases ht.resume_cases hl hs with ⟨s', hs', -⟩ | ⟨-, hfull | hb | hbusy⟩
    · rw [isAble_of_resume hs'] at hquiet
      cases hquiet
    · exact absurd hfull hslot
    · rw [ht.isThrough_iff.2 hb, Bool.and_true, Bool.not_eq_false', List.isEmpty_iff] at hcall
      exact .inl ⟨hb, List.map_eq_nil_iff.1 (ht.calls.symm.trans hcall)⟩
    · exact .inr hbusy
  · have hstanding : s.standing = x.standing := congrArg Core.standing ht.core
    have hidle : s.bare.work = none := by
      rw [work_bare, hwork]
      rfl
    have hlapse : x.standing.lapse x.now = x.standing := by
      rw [← ht.now, ← hstanding]
      exact ht.attached.attended.lapse_of_idle hidle
    refine Bool.eq_false_iff.2 fun hdue => ?_
    have hlt := (ht.valid.lapse (ht.serves hs) hdue).left
    rw [hlapse] at hlt
    exact Nat.lt_irrefl _ hlt
  · rcases ht.deliver_cases with ⟨s', hs', -⟩ | ⟨-, hfull | hpumping⟩
    · rw [isAble_of_deliver hs'] at hquiet
      cases hquiet
    · exact absurd hfull hslot
    · exact hpumping

/-- The clock leaves the calls where they are. -/
theorem elapse (ht : p.Reaches o requests ⟨calls, s⟩ x) (hr : x.Rests) {t : Instant}
    (hn : s.now ≤ t) (hu : ∀ u ∈ s.timers, s.now < u → t ≤ u) :
    p.Reaches o requests ⟨calls, { s with now := t }⟩ { x with now := t } := by
  refine ⟨ht.attached.update _ _ _ _ _ _ _, ht.reachable.step (System.step_elapse hn), ht.wait,
    ht.departures, ?_, ht.calls, ht.requests, ?_⟩
  · have hmesh : System.meshCore { s with now := t } =
        { s.meshCore with core := { s.meshCore.core with now := t } } := rfl
    rw [hmesh, ht.meshCore]
    rfl
  · refine hr.elapse ht.valid (ht.now ▸ hn) fun u hu' hlt => hu u ?_ (ht.now ▸ hlt)
    rcases hu' with hu' | ⟨d, hd, rfl⟩
    · have hdeadline : s.machine.tracker.deadline = some u :=
        (congrArg (·.standing.tracker.deadline) ht.core).trans hu'
      simp [timers, workerTimer?, ht.running, hdeadline]
    · have hpump := ht.pump
      rcases hr.pump with hh | ⟨d', ds, hh, -⟩ <;> rw [hh] at hd hpump <;> cases hd
      have hsleeping : s.pump = .sleeping d := hpump
      simp [timers, pumpTimer?, hsleeping]

/-- The sender makes its next call. -/
theorem furthers_of_call {call : Call} (ht : p.Reaches o requests ⟨call :: calls, s⟩ x)
    (hthrough : s.isThrough = true) (h : s.step (.call s.now call) = some s') :
    p.Furthers o requests calls s' x := by
  have hb := ht.isThrough_iff.1 hthrough
  obtain ⟨r, later, hlater, rfl, rfl⟩ := List.map_eq_cons_iff.1 ht.calls.symm
  obtain ⟨hvalid, hlt⟩ := ht.valid.plan hb hlater
  have hreachable := ht.reachable.step h
  cases h
  refine ⟨x.plan r later, ⟨ht.attached.update _ _ _ _ _ _ _, hreachable, ht.wait, ht.departures, ?_,
    rfl, ?_, hvalid⟩, rfl, hlt⟩
  · rw [meshCore_callers s, ht.meshCore, ht.callers, ht.now]
    simp [Progress.meshCore, Progress.plan, Progress.slot, Progress.replies, hb,
      SenderProgress.claim, SenderProgress.replies, SenderProgress.stage?]
  · rw [← ht.requests]
    simp [Progress.requests, Progress.plan, hb, hlater, SenderProgress.request?]

end Resting

end Plan.Reaches

namespace Plan

variable {p : Plan} {o : Observer} {requests : List Request} {c : CallSequence} {x : Progress}

/-- Whatever happens makes progress. -/
theorem decreases_reaches (hl : p.behaviour.IsLossless) (hs : ∀ r ∈ requests, p.Serves r) :
    CallSequence.Decreases fun n c => ∃ x, p.Reaches o requests c x ∧ x.left = n where
  act := by
    rintro n calls s s' a ⟨x, ht, rfl⟩ hact h
    suffices hf : p.Furthers o requests calls s' x by
      obtain ⟨y, hy, hnow, hlt⟩ := hf
      exact ⟨hy.now.trans (hnow.trans ht.now.symm), y.left, hlt, y, hy, rfl⟩
    rcases hact with rfl | rfl | ⟨i, rfl⟩
    · exact ht.furthers_of_work hs h
    · rcases ht.deliver_cases with ⟨s₁, hs₁, hf⟩ | ⟨hnone, -⟩
      · cases hs₁.symm.trans h
        exact hf
      · cases hnone.symm.trans h
    · obtain rfl := System.eq_length_of_resume ht.callers h
      rcases ht.resume_cases hl hs with ⟨s₁, hs₁, hf⟩ | ⟨hnone, -⟩
      · cases hs₁.symm.trans h
        exact hf
      · cases hnone.symm.trans h
  call := by
    rintro n call calls s s' ⟨x, ht, rfl⟩ hthrough h
    obtain ⟨y, hy, -, hlt⟩ := ht.furthers_of_call hthrough h
    exact ⟨y.left, hlt, y, hy, rfl⟩
  elapse := by
    rintro n calls s t ⟨x, ht, rfl⟩ hable hn hu
    exact ⟨{ x with now := t }, ht.elapse (ht.rests hl hs hable) hn hu, rfl⟩

/-- What is seen of calls that have sent a list of requests and got all the answers. -/
structure Completes (p : Plan) (o : Observer) (requests : List Request) (c : CallSequence) : Prop where
  calls : c.calls = []
  /-- Every send is accepted, and answered when its frame leaves. -/
  callers : c.system.callers = finished (p.answers requests)
  sentFrames : c.system.sentFrames.map .ok = requests.map Request.toFrame
  /-- Each frame leaves when the exchanges before it are over. -/
  departures : System.departures c.system.journal = p.departures requests
  taken : (System.handovers c.system.journal).map (·.1) = p.deliveries requests
  phase : c.system.machine.phase = .freeForSend
  /-- The channel was freed once for each request, and no time was ever up. -/
  tally : Tally.ofNotifications (c.system.notifications o) = ⟨requests.length, 0, 0⟩

/-- What is seen of calls that send a list of requests. -/
structure Shows (p : Plan) (o : Observer) (requests : List Request) (c : CallSequence) : Prop where
  departures : System.departures c.system.journal <+: p.departures requests
  answers : c.system.callers.filterMap Stage.answer? <+: p.answers requests
  /-- The pump takes in what the mesh sends back, in order. -/
  taken : (System.handovers c.system.journal).map (·.1) <+: p.deliveries requests
  accepted : ∀ y ∈ System.handovers c.system.journal, ∃ phase, y.2 = .ok phase
  heard : ∃ k ≤ requests.length, c.system.notifications o = List.replicate k .freeForSend
  /-- Once the last exchange is over and nobody can act, everything has happened. -/
  completes : c.isAble = false → p.freeAt requests ≤ c.system.now → p.Completes o requests c

namespace Reaches

theorem notifications_eq (ht : p.Reaches o requests c x) (ho : o.IsSteady) :
    c.system.notifications o = x.standing.notifications :=
  (ht.attached.attended.heard ho).2.trans (congrArg (·.core.standing.notifications) ht.meshCore)

theorem handovers_eq (ht : p.Reaches o requests c x) :
    System.handovers c.system.journal = x.taken :=
  congrArg System.MeshCore.taken ht.meshCore

theorem completes (ht : p.Reaches o requests c x) (ho : o.IsSteady)
    (hl : p.behaviour.IsLossless) (hs : ∀ r ∈ requests, p.Serves r) (hable : c.isAble = false)
    (hn : p.freeAt requests ≤ c.system.now) : p.Completes o requests c := by
  have hnotifications := ht.notifications_eq ho
  have htaken := ht.handovers_eq
  obtain ⟨calls, s⟩ := c
  obtain ⟨hsender, hlater, hvacant, hpumping⟩ :=
    (ht.rests hl hs hable).eq_vacant ht.valid (ht.requests ▸ ht.now ▸ hn)
  obtain rfl : x.sent = requests := by
    rw [← ht.requests, Progress.requests, hsender, hlater]
    simp [SenderProgress.request?]
  have hcallers := ht.callers
  have hbrought := ht.valid.brought
  rw [hsender] at hcallers
  rw [hpumping] at hbrought
  refine ⟨?_, hcallers.trans (List.append_nil _), ?_, ht.departures, ?_, ?_, ?_⟩
  · rw [ht.calls, hlater]
    rfl
  · have htakes : s.link.takesFrames = true := by
      rw [show s.link = _ from ht.attached.link]
      rfl
    rw [System.sentFrames_eq htakes, ht.departures, map_departures, List.map_map]
    exact List.map_congr_left fun r hr => (hs r hr).frame.symm
  · rw [htaken, hbrought]
    simp [PumpProgress.handled, PumpProgress.ahead]
  · rw [ht.phase_eq, hvacant]
    rfl
  · rw [hnotifications, hvacant]
    simp [Tally.ofNotifications, vacant, List.count_replicate]

theorem shows (ht : p.Reaches o requests c x) (ho : o.IsSteady)
    (hl : p.behaviour.IsLossless) (hs : ∀ r ∈ requests, p.Serves r) : p.Shows o requests c := by
  have hrequests : requests = x.sent ++ (x.sender.request?.toList ++ x.later) := by
    rw [← ht.requests, Progress.requests, List.append_assoc]
  refine ⟨?_, ?_, ?_, ?_, ?_, ht.completes ho hl hs⟩
  · rw [ht.departures, hrequests]
    exact departures_prefix
  · have hanswers : c.system.callers.filterMap Stage.answer? = p.answers x.sent := by
      rw [ht.callers, List.filterMap_append, filterMap_answer?_finished]
      cases x.sender <;> exact List.append_nil _
    rw [hanswers, hrequests]
    exact answers_prefix
  · refine List.IsPrefix.trans ?_ (hrequests ▸ deliveries_prefix)
    rw [ht.handovers_eq, ht.valid.brought, List.append_assoc]
    exact List.prefix_append _ _
  · rw [ht.handovers_eq]
    exact ht.valid.accepted
  · obtain ⟨k, hk, hheard⟩ := ht.valid.sender.heard
    refine ⟨k, ?_, (ht.notifications_eq ho).trans hheard⟩
    rw [hrequests, List.length_append]
    exact Nat.le_add_right_of_le hk

end Reaches

theorem serves_of_inTime {r : Request} {frame : Frame} (hf : r.toFrame = .ok frame)
    (htime : p.behaviour.InTime p.timing r) (hwait : p.behaviour.occupancy r < p.wait) :
    p.Serves r :=
  ⟨Request.eq_bytes_of_toFrame hf ▸ hf, htime, hwait⟩

/-- A machine that was just started, at the instant of the first call. -/
theorem reaches_of_fresh {setup : Setup} {s : System}
    (hs₀ : setup.assemble = .ok s) (hfresh : s.Fresh setup.settings o) (ho : o.Returns)
    (hguard : 1 ≤ setup.settings.stateChangeTimeout.toInt)
    (hlink : s.link = .mesh p.behaviour true) (hwait : s.sendWait = p.wait)
    (htiming : Timing.ofSettings setup.settings = .ok p.timing) (hn : s.now ≤ p.start) :
    p.Reaches o requests ⟨requests.map .send, { s with now := p.start }⟩
      ⟨p.start, [], .through, requests, {}, .idle [], []⟩ := by
  obtain ⟨timing, ht, hcore⟩ := hfresh.exists_core
  cases htiming.symm.trans ht
  refine ⟨(hfresh.attach ho hguard hlink).update _ _ _ _ _ _ _,
    (System.Reachable.of_assemble hs₀).step (System.step_elapse hn), hwait, ?_, ?_, rfl, rfl, ?_⟩
  · rw [hfresh.journal]
    rfl
  · have hmesh : System.meshCore { s with now := p.start } =
        { s.meshCore with core := { s.core with now := p.start } } := rfl
    rw [hmesh, hcore, System.meshCore, hfresh.pump, hfresh.deliveries, hfresh.journal]
    rfl
  · refine ⟨.through (.free ?_) fun _ => ?_, .idle, rfl, fun y hy => absurd hy List.not_mem_nil⟩
    · exact Nat.le_of_eq freeAt_nil
    · exact Nat.le_of_eq freeAt_nil.symm

/-- **Requests that are sent one after the other are serialised without gap or loss**, in every run on a
machine that was just started: on a mesh that loses nothing and answers in time, with senders that wait
for longer than any of the exchanges lasts. -/
theorem serialised_of_unfolds {setup : Setup} {b : Behaviour} {name : String}
    {requests : List Request} {t : Instant} (hsettings : setup.settings.IsNonNegative)
    (hguard : 1 ≤ setup.settings.stateChangeTimeout.toInt) (hlink : setup.link = .mesh b true)
    (hharness : setup.harness = some name) (hlossless : b.IsLossless)
    (hframe : ∀ r ∈ requests, ∃ frame, r.toFrame = .ok frame)
    (htime : ∀ r ∈ requests, b.InTime setup.settings.timing r)
    (hwait : ∀ r ∈ requests, b.occupancy r < setup.sendWait.getD setup.settings.sendWait) :
    ∃ s₀ s₁, setup.assemble = .ok s₀ ∧ s₀.step (.elapse t) = some s₁ ∧
      ∀ k c, CallSequence.Unfolds ⟨requests.map .send, s₁⟩ k c → k ≤ 18 * requests.length ∧
        Shows ⟨b, setup.settings.timing, t, setup.sendWait.getD setup.settings.sendWait⟩
          ⟨.recording, name, 0⟩ requests c ∧
        ∀ n, c.system.now ≤ n → ∃ k' c', c.Unfolds k' c' ∧ c'.isAble = false ∧
          c'.system.now = n := by
  obtain ⟨s₀, hs₀, hfresh, hnow, hlink₀, hwait₀⟩ := System.exists_fresh hharness hsettings
  have hn : s₀.now ≤ t := hnow ▸ Nat.zero_le t
  refine ⟨s₀, { s₀ with now := t }, hs₀, if_pos hn, fun k c h => ?_⟩
  let p : Plan := ⟨b, setup.settings.timing, t, setup.sendWait.getD setup.settings.sendWait⟩
  have hserves : ∀ r ∈ requests, p.Serves r := fun r hr =>
    serves_of_inTime (hframe r hr).choose_spec (htime r hr) (hwait r hr)
  have hw := decreases_reaches (p := p) (o := ⟨.recording, name, 0⟩) hlossless hserves
  have hreaches : p.Reaches ⟨.recording, name, 0⟩ requests ⟨requests.map .send, { s₀ with now := t }⟩
      ⟨t, [], .through, requests, {}, .idle [], []⟩ :=
    reaches_of_fresh hs₀ hfresh (fun _ => rfl) hguard (hlink₀.trans hlink) hwait₀
      hsettings.ofSettings_eq hn
  obtain ⟨n', hle, x, hx, rfl⟩ := hw.of_unfolds ⟨_, hreaches, rfl⟩ h
  refine ⟨?_, hx.shows (fun _ => rfl) hlossless hserves, fun n hn => ?_⟩
  · have hle' : k + x.left ≤ 18 * requests.length := hle
    omega
  · exact hw.exists_unfolds ⟨x, hx, rfl⟩ hn

/-- A request to a node and one to all of them. The second one has to wait for the first. -/
theorem serialised_of_unfolds_of_pair :
    let requests : List Request := [⟨.node 1, 0, 0, 0, []⟩, ⟨.broadcast, 0, 0, 0, [1]⟩]
    ∃ (setup : Setup) (s₀ s₁ : System) (k : Nat) (c : CallSequence),
      setup.settings.IsNonNegative ∧ 1 ≤ setup.settings.stateChangeTimeout.toInt ∧
      setup.link = .mesh {} true ∧ setup.harness = some "resident" ∧ Behaviour.IsLossless {} ∧
      (∀ r ∈ requests, ∃ frame, r.toFrame = .ok frame) ∧
      (∀ r ∈ requests, Behaviour.InTime {} setup.settings.timing r) ∧
      (∀ r ∈ requests,
        Behaviour.occupancy {} r < setup.sendWait.getD setup.settings.sendWait) ∧
      setup.assemble = .ok s₀ ∧ s₀.step (.elapse (Duration.millis 5)) = some s₁ ∧
      CallSequence.Unfolds ⟨requests.map .send, s₁⟩ k c ∧ c.system.now = Duration.millis 1000 ∧
      c.calls = [] ∧
      (System.departures c.system.journal).map (·.1) = [Duration.millis 5, Duration.millis 405] ∧
      c.system.sentFrames.map .ok = requests.map Request.toFrame ∧
      Tally.ofNotifications (c.system.notifications ⟨.recording, "resident", 0⟩) = ⟨2, 0, 0⟩ := by
  intro requests
  let setup : Setup := { link := .mesh {} true, harness := some "resident" }
  have hsettings : setup.settings.IsNonNegative := by
    constructor <;> decide
  have hlossless : Behaviour.IsLossless {} := by
    constructor <;> rfl
  have hframe : ∀ r ∈ requests, ∃ frame, r.toFrame = .ok frame := by
    simp only [requests, List.forall_mem_cons]
    exact ⟨⟨_, rfl⟩, ⟨_, rfl⟩, fun r hr => nomatch hr⟩
  have htime : ∀ r ∈ requests, Behaviour.InTime {} setup.settings.timing r := by
    simp only [requests, List.forall_mem_cons]
    refine ⟨⟨?_, ?_, ?_⟩, ⟨?_, ?_, ?_⟩, fun r hr => nomatch hr⟩ <;> decide
  have hwait : ∀ r ∈ requests,
      Behaviour.occupancy {} r < setup.sendWait.getD setup.settings.sendWait := by
    decide
  obtain ⟨s₀, s₁, hs₀, hs₁, hrun⟩ := serialised_of_unfolds (t := Duration.millis 5) hsettings
    (by decide) rfl rfl hlossless hframe htime hwait
  have hnow : s₁.now ≤ Duration.millis 1000 := by
    obtain ⟨-, h⟩ := Option.ite_none_right_eq_some.1 hs₁
    cases h
    exact show Duration.millis 5 ≤ Duration.millis 1000 by decide
  obtain ⟨k, c, h, hable, hn⟩ := (hrun 0 _ .refl).2.2 _ hnow
  obtain ⟨-, hshows, -⟩ := hrun k c h
  have hc := hshows.completes hable (by rw [hn]; decide)
  refine ⟨setup, s₀, s₁, k, c, hsettings, by decide, rfl, rfl, hlossless, hframe, htime, hwait, hs₀,
    hs₁, h, hn, hc.calls, ?_, hc.sentFrames, hc.tally⟩
  rw [hc.departures]
  decide

end Plan
end MeshExchange
