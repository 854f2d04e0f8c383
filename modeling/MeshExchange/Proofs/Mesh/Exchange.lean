import MeshExchange.Proofs.Mesh.MeshRequest
import MeshExchange.Proofs.Settings.Validity
import MeshExchange.Proofs.System.Clock
import MeshExchange.Proofs.System.Runs

/-!
# One exchange on the mesh

A request is sent on a machine that was just started in front of the simulated mesh, and the system is
left to itself. The settings, the behaviour of the mesh and the request tell exactly what comes of it,
whatever the order of what happens at one instant.

**Method.** Each party makes progress, or it has to wait for another one: the worker, the sender
and the pump have one lemma each, which says both. Where all of them have to wait, only the clock goes
on.

**Results.**
* `System.Furthers`: a step that makes progress;
* `System.Attached.furthers_of_work`, `System.Attached.resume_cases`, `System.Attached.deliver_cases`:
  what each party does;
* `System.Attached.rests`: nobody waits in vain;
* `System.decreases_runs`: every step keeps the relation and uses up some of what is left;
* `System.shows_of_unfolds`: the course of an exchange, in every run.
-/

namespace MeshExchange
namespace System

variable {s s' s₁ : System} {b : Behaviour} {o : Observer} {e : MeshRequest} {i : Nat}

section Cores

theorem issued_record_of_ne {entry : Entry} (he : ∀ turn, entry ≠ .worked turn) :
    (s.record entry).issued = s.issued := by
  cases entry with
  | worked turn => exact absurd rfl (he turn)
  | _ => simp [issued, record]

theorem meshCore_callers (s : System) (callers : List Stage) :
    meshCore { s with callers } = { s.meshCore with core := { s.meshCore.core with callers } } := rfl

theorem meshCore_mailbox (s : System) (mailbox : Mailbox) (callers : List Stage) (pump : Pump) :
    meshCore { s with machine := { s.machine with mailbox }, callers, pump } =
      { s.meshCore with pump, core := { s.meshCore.core with slot := mailbox.slot, callers } } := rfl

theorem meshCore_pump (s : System) (pump : Pump) (deliveries : List Delivery) :
    meshCore { s with pump, deliveries } = { s.meshCore with pump, waiting := deliveries } := rfl

theorem meshCore_replies (s : System) (replies : List (Ticket × Reply)) (callers : List Stage) :
    meshCore { s with machine := { s.machine with replies }, callers } =
      { s.meshCore with core := { s.meshCore.core with replies, callers } } := rfl

theorem meshCore_transmitted (s : System) (frame : Frame) (outcome : Except Fault Unit)
    (deliveries : List Delivery) (callers : List Stage) :
    meshCore { s.record (.transmitted frame outcome) with deliveries, callers } =
      { s.meshCore with
        waiting := deliveries
        transmitted := s.meshCore.transmitted ++ [(frame, outcome)]
        core := { s.meshCore.core with callers } } := by
  have hi : (s.record (.transmitted frame outcome)).issued = s.issued :=
    issued_record_of_ne (by simp)
  have hd : core { s.record (.transmitted frame outcome) with deliveries, callers } =
      { s.core with callers, standing := ⟨s.machine.tracker,
        (s.record (.transmitted frame outcome)).issued⟩ } := rfl
  simp only [meshCore, hd, hi]
  simp [record, handovers, transmissions, standing, core]

theorem meshCore_handOver (s : System) (d : Delivery) (reply : Reply) :
    meshCore (s.handOver d reply) =
      { s.meshCore with pump := .idle, taken := s.meshCore.taken ++ [(d, reply)] } := by
  have hi : (s.record (.handedOver d reply)).issued = s.issued := issued_record_of_ne (by simp)
  have hd : (s.handOver d reply).core =
      { s.core with standing := ⟨s.machine.tracker, (s.record (.handedOver d reply)).issued⟩ } := rfl
  simp only [meshCore, hd, hi]
  simp [handOver, record, handovers, transmissions, standing, core]

/-- A system without what the mesh sends back. -/
def bare (s : System) : System := { s with deliveries := [], pump := .idle }

/-- A machine on a mesh, with a listener that returns. -/
structure Attached (b : Behaviour) (o : Observer) (s : System) : Prop where
  attended : s.bare.Attended o
  link : s.link = .mesh b true

/-- The callers, the pump and the clock leave the machine attached. -/
theorem Attached.update (ha : s.Attached b o) (now : Instant) (slot : Slot) (nextTicket : Ticket)
    (replies : List (Ticket × Reply)) (callers : List Stage) (deliveries : List Delivery)
    (pump : Pump) :
    Attached b o { s with
      now, callers, deliveries, pump
      machine := { s.machine with
        replies
        mailbox := { s.machine.mailbox with slot, nextTicket } } } :=
  ⟨ha.attended.update now s.machine.timing slot nextTicket replies callers, ha.link⟩

theorem notifications_record_of_ne {entry : Entry} (he : ∀ turn, entry ≠ .worked turn) :
    (s.record entry).notifications o = s.notifications o := by
  cases entry with
  | worked turn => exact absurd rfl (he turn)
  | _ => simp [notifications, record, Entry.notified?]

/-- What is noted besides the passes of the worker leaves the machine attached. -/
theorem Attached.note (ha : s.Attached b o) {entry : Entry} (he : ∀ turn, entry ≠ .worked turn) :
    (s.record entry).Attached b o := by
  obtain ⟨ha, hlink⟩ := ha
  have hi := issued_record_of_ne (s := s.bare) he
  refine ⟨⟨ha.running, ha.returns, fun ho => ⟨(ha.heard ho).1, ?_⟩, ha.phase, ha.guard, ha.queue,
    rfl, rfl⟩, hlink⟩
  show (s.bare.record entry).notifications o = (s.bare.record entry).issued
  rw [notifications_record_of_ne he, hi, (ha.heard ho).2]

end Cores

section Acting

/-- The worker has nothing to do with what the mesh sends back. -/
theorem work_bare (s : System) : s.bare.work = s.work.map bare := by
  rw [work, work, Option.map_map]
  rfl

/-- **What the worker does** to an attached machine. -/
theorem Attached.work_cases (ha : s.Attached b o) (h : s.work = some s') :
    s'.now = s.now ∧ s'.Attached b o ∧
      ((s'.meshCore = { s.meshCore with
            core := { s.meshCore.core with standing := s.standing.lapse s.now } } ∧
          s.machine.tracker.isDue s.now = true ∧ s'.machine.tracker.deadline = none) ∨
        ∃ ticket c, s.machine.mailbox.slot = .full ticket c ∧
          s.standing.lapse s.now = s.standing ∧
          s'.meshCore = { s.meshCore with core := { s.meshCore.core with
            slot := .empty
            replies := s.machine.replies ++
              [(ticket, (s.standing.obey s.machine.timing s.now c).2)]
            standing := (s.standing.obey s.machine.timing s.now c).1 } }) := by
  have hbare : s.bare.work = some s'.bare := by
    rw [work_bare, h]
    rfl
  have hframe : s'.now = s.now ∧ s'.link = s.link ∧
      s'.meshCore = { s.meshCore with core := s'.core } := by
    obtain ⟨⟨turn, m⟩, hm, rfl⟩ := Option.map_eq_some_iff.1 h
    refine ⟨rfl, rfl, ?_⟩
    simp [meshCore, record, handovers, transmissions, core]
  obtain ⟨hnow, hlink, hmesh⟩ := hframe
  obtain ⟨ha', hcases⟩ := ha.attended.work_cases hbare
  refine ⟨hnow, ⟨ha', hlink.trans ha.link⟩, ?_⟩
  rw [hmesh]
  rcases hcases with ⟨hd, hdue, hdead⟩ | ⟨ticket, c, hslot, hlapse, hd⟩
  · have hd' : s'.core = _ := hd
    exact .inl ⟨by rw [hd']; rfl, hdue, hdead⟩
  · have hd' : s'.core = _ := hd
    exact .inr ⟨ticket, c, hslot, hlapse, by rw [hd']; rfl⟩

end Acting

/-- A step after which the request has got further, and less is left to be done. -/
structure Furthers (e : MeshRequest) (o : Observer) (s s' : System) : Prop where
  now : s'.now = s.now
  attached : s'.Attached e.behaviour o
  reaches : e.Reaches s'.meshCore
  left : s'.meshCore.left < s.meshCore.left

section Worker

theorem Attached.furthers_of_work (ha : s.Attached e.behaviour o) (hr : e.Reaches s.meshCore)
    (h : s.work = some s') : Furthers e o s s' := by
  obtain ⟨hnow, ha', ⟨hp, hdue, hdead⟩ | ⟨ticket, c, hslot, hlapse, hp⟩⟩ := ha.work_cases h
  · refine ⟨hnow, ha', hp ▸ hr.lapse, ?_⟩
    have hbefore : s.meshCore.core.standing.tasks = 1 := by
      obtain ⟨d, hd, -⟩ := Tracker.isDue_eq_true_iff.1 hdue
      simp [Standing.tasks, meshCore, core, standing, hd]
    have hafter : s'.meshCore.core.standing.tasks = 0 := by
      simp [Standing.tasks, meshCore, core, standing, hdead]
    rw [hp] at hafter ⊢
    simp only [MeshCore.left, hbefore] at hafter ⊢
    omega
  · suffices h : e.Reaches s'.meshCore ∧ s'.meshCore.left < s.meshCore.left from ⟨hnow, ha', h.1, h.2⟩
    rw [hp]
    generalize hk : s.meshCore = p at hr
    have hd : s.core = p.core := congrArg MeshCore.core hk
    cases hr with
    | submitted hg =>
        obtain ⟨hnow, htiming, hslot', hreplies, -, hstanding⟩ := Core.mk.inj hd
        rw [hslot] at hslot'
        cases hslot'
        rw [hstanding, htiming, hnow, hreplies, Standing.obey_newRequest]
        refine ⟨.accepted ⟨Nat.le_refl _, by simp, rfl, rfl⟩, ?_⟩
        have := Standing.tasks_le_one ⟨(Standing.opened e.timing e.request e.sentAt).tracker, []⟩
        simp [MeshRequest.opening, MeshCore.left, Stage.tasks, Pump.tasks]
        omega
    | @handed x d ds taken ticket' c' giveUp ht hds hc hg =>
        obtain ⟨hnow, htiming, hslot', hreplies, -, hstanding⟩ := Core.mk.inj hd
        rw [hslot] at hslot'
        cases hslot'
        rw [hstanding, hnow] at hlapse
        rw [hstanding, htiming, hnow, hreplies]
        refine ⟨.answered (ht.concat_obey rfl hc hlapse) hds, ?_⟩
        have := Standing.tasks_le_one (x.obey e.timing d.due c).1
        simp [MeshRequest.returning, MeshCore.left, Stage.tasks, Pump.tasks]
        omega
    | _ =>
        have hslot' := congrArg Core.slot hd
        rw [core, hslot] at hslot'
        cases hslot'

end Worker

section Sender

variable {stage stage' : Stage}

/-- The only caller takes a step. -/
theorem resume_single (hc : s.callers = [stage]) (ha : s.advance stage = some (stage', s₁))
    (hc₁ : s₁.callers = s.callers) : s.resume 0 = some { s₁ with callers := [stage'] } :=
  resume_of_last (show s.callers = finished [] ++ [stage] from hc) ha hc₁

theorem advance_send {due : Instant} {r : Request} {frame : Frame}
    (hs : s.machine.status = .running) (hf : r.toFrame = .ok frame) (hn : due ≤ s.now) :
    s.advance (.planned due (.send r)) =
      some (.seeking ⟨r, frame, s.now + s.sendWait⟩
        (Instant.since (s.now + s.sendWait) s.now)
        (s.now + Instant.since (s.now + s.sendWait) s.now), s) := by
  simp [advance, hn, begin, hf, seek, hs, Status.isOpen]

theorem advance_seeking {sending : Sending} {limit : Duration} {giveUp : Instant}
    (hp : s.machine.phase = .freeForSend) :
    s.advance (.seeking sending limit giveUp) = some (.announcing sending, s) := by
  simp [advance, Machine.watch, hp]

theorem advance_announcing {sending : Sending} (hs : s.machine.status = .running)
    (hb : s.machine.mailbox.slot = .empty) :
    s.advance (.announcing sending) =
      some (.announced sending ⟨s.machine.mailbox.nextTicket, .newRequest sending.request,
          s.now + s.machine.settings.stateChangeLimit⟩,
        { s with machine := { s.machine with mailbox := { s.machine.mailbox with
            slot := .full s.machine.mailbox.nextTicket (.newRequest sending.request)
            nextTicket := s.machine.mailbox.nextTicket + 1 } } }) := by
  simp [advance, Machine.submit, hs, Mailbox.submit_of_slot_eq_empty hb]

theorem advance_announced_of_pursue {sending : Sending} {p : Pending} {phase : Phase}
    {m : Machine Observer} (h : s.machine.pursue p s.now = some (some (.ok phase), m)) :
    s.advance (.announced sending p) =
      some (.transmitting sending phase, { s with machine := m }) := by
  rw [advance, h]
  rfl

theorem advance_announced_eq_none {sending : Sending} {p : Pending}
    (h : s.machine.pursue p s.now = none) : s.advance (.announced sending p) = none := by
  rw [advance, h]
  rfl

theorem advance_transmitting {r : Request} {frame : Frame} {deadline : Instant} {phase : Phase}
    (hl : s.link = .mesh b true) (hf : r.toFrame = .ok frame) :
    s.advance (.transmitting ⟨r, frame, deadline⟩ phase) =
      some (.finished s.now (.entered phase),
        { s.record (.transmitted frame (.ok ())) with
          deliveries := s.deliveries ++ b.deliveries r s.now }) := by
  have ht : s.link.transmit frame s.now = .ok (b.deliveries r s.now) := by
    simp [hl, Link.transmit, Request.ofFrame_of_toFrame hf, bind, Except.bind, pure, Except.pure]
  rw [advance, transmit, ht]
  rfl

/-- **What the sender does**: a step that makes progress, unless it is too early, or it is the
worker's turn, or it is through. -/
theorem Attached.resume_cases (ha : s.Attached e.behaviour o)
    (hf : e.request.toFrame = .ok e.frame) (hr : e.Reaches s.meshCore) :
    (∃ s', s.resume 0 = some s' ∧ Furthers e o s s') ∨
      s.resume 0 = none ∧
        (e.Rests s.now s.meshCore ∨ (∃ ticket c, s.machine.mailbox.slot = .full ticket c) ∨
          s.callers = [.finished e.sentAt (.entered e.request.opening)]) := by
  have hrun : s.machine.status = .running := ha.attended.running
  generalize hk : s.meshCore = p at hr
  have hd : s.core = p.core := congrArg MeshCore.core hk
  cases hr with
  | @planned now hn =>
      obtain ⟨rfl, -, -, -, hcallers, -⟩ := Core.mk.inj hd
      rcases Nat.lt_or_ge s.now e.sentAt with hlt | hdue
      · have hnone : s.advance (.planned e.sentAt (.send e.request)) = none :=
          if_neg (Nat.not_le.2 hlt)
        exact .inr ⟨by simp [resume, hcallers, hnone], .inl (.planned hlt)⟩
      · have hnow : s.now = e.sentAt := Nat.le_antisymm hn hdue
        refine .inl ⟨_, resume_single hcallers (advance_send hrun hf hdue) rfl, rfl,
          ha.update _ _ _ _ _ _ _, ?_, ?_⟩
        · rw [meshCore_callers s, hk, hnow]
          exact .seeking
        · rw [meshCore_callers s, hk, hnow]
          simp [MeshRequest.opening, MeshCore.left, Stage.tasks]
  | seeking =>
      obtain ⟨-, -, -, -, hcallers, hstanding⟩ := Core.mk.inj hd
      have hphase : s.machine.phase = .freeForSend :=
        (show s.machine.phase = s.machine.tracker.phase from ha.attended.phase).trans
          (congrArg (·.tracker.phase) hstanding)
      refine .inl ⟨_, resume_single hcallers (advance_seeking hphase) rfl, rfl,
        ha.update _ _ _ _ _ _ _, ?_, ?_⟩
      · rw [meshCore_callers s, hk]
        exact .announcing
      · rw [meshCore_callers s, hk]
        simp [MeshRequest.opening, MeshCore.left, Stage.tasks]
  | announcing =>
      obtain ⟨hnow, -, hslot, -, hcallers, -⟩ := Core.mk.inj hd
      have hpump : s.pump = .idle := congrArg MeshCore.pump hk
      have hg : e.sentAt < s.now + s.machine.settings.stateChangeLimit := by
        rw [hnow]
        exact Nat.lt_add_of_pos_right ha.attended.guard
      refine .inl ⟨_, resume_single hcallers (advance_announcing hrun hslot) rfl, rfl,
        ha.update _ _ _ _ _ _ _, ?_, ?_⟩
      · rw [meshCore_mailbox s, hk, hpump]
        exact .submitted hg
      · rw [meshCore_mailbox s, hk, hpump]
        simp [MeshRequest.opening, MeshCore.left, Stage.tasks, Pump.tasks]
  | @submitted deadline ticket giveUp hg =>
      obtain ⟨hnow, -, hslot, hreplies, hcallers, -⟩ := Core.mk.inj hd
      have hnone : s.machine.pursue ⟨ticket, .newRequest e.request, giveUp⟩ s.now = none :=
        Machine.pursue_of_full hslot hreplies hrun (by rw [hnow]; exact hg)
      exact .inr ⟨by simp [resume, hcallers, advance, hnone], .inr (.inl ⟨_, _, hslot⟩)⟩
  | @accepted deadline ticket giveUp x ht =>
      obtain ⟨-, -, hslot, hreplies, hcallers, -⟩ := Core.mk.inj hd
      have hpursue : s.machine.pursue ⟨ticket, .newRequest e.request, giveUp⟩ s.now = _ :=
        Machine.pursue_of_reply hslot hreplies
      refine .inl ⟨_, resume_single hcallers (advance_announced_of_pursue hpursue) rfl, rfl,
        ha.update _ _ _ _ _ _ _, ?_, ?_⟩
      · rw [meshCore_replies s, hk]
        exact .transmitting ht
      · rw [meshCore_replies s, hk]
        simp [MeshRequest.opening, MeshCore.left, Stage.tasks]
  | transmitting ht =>
      obtain ⟨hnow, -, -, -, hcallers, -⟩ := Core.mk.inj hd
      have hds : s.deliveries = [] := congrArg MeshCore.waiting hk
      have hlength := e.behaviour.length_deliveries_le e.request e.sentAt
      refine .inl ⟨_, resume_single hcallers (advance_transmitting ha.link hf) rfl, rfl,
        (ha.note (by simp)).update _ _ _ _ _ _ _, ?_, ?_⟩
      · rw [meshCore_transmitted s, hk, hds, hnow]
        exact .idle ht rfl (e.behaviour.le_due e.request e.sentAt)
      · rw [meshCore_transmitted s, hk, hds, hnow]
        simp [MeshRequest.opening, MeshCore.left, Stage.tasks, Pump.tasks]
        omega
  | idle | sleeping | handed | answered =>
      obtain ⟨-, -, -, -, hcallers, -⟩ := Core.mk.inj hd
      exact .inr ⟨by simp [resume, hcallers, advance], .inr (.inr hcallers)⟩

end Sender

section Pumping

variable {d : Delivery} {ds : List Delivery}

theorem deliver_idle (hp : s.pump = .idle) (hds : s.deliveries = d :: ds) :
    s.deliver = some { s with pump := .sleeping d, deliveries := ds } := by
  rw [deliver, hp, hds]

theorem deliver_sleeping (hp : s.pump = .sleeping d) (hd : d.due ≤ s.now) :
    s.deliver =
      match d.command with
      | .error fault => some (s.handOver d (.error fault))
      | .ok c =>
          match s.machine.submit c s.now with
          | .ok (p, machine) => some { s with machine, pump := .handing d p }
          | .error fault => some (s.handOver d (.error fault)) := by
  rw [deliver, hp, Delivery.command]
  dsimp only
  rw [if_pos hd]
  cases Incoming.decode d.frame <;> rfl

theorem deliver_sleeping_fault {fault : Fault} (hp : s.pump = .sleeping d) (hd : d.due ≤ s.now)
    (hc : d.command = .error fault) : s.deliver = some (s.handOver d (.error fault)) := by
  rw [deliver_sleeping hp hd, hc]

theorem deliver_sleeping_command {c : Command} (hp : s.pump = .sleeping d) (hd : d.due ≤ s.now)
    (hc : d.command = .ok c) (hs : s.machine.status = .running)
    (hb : s.machine.mailbox.slot = .empty) :
    s.deliver = some { s with
      machine := { s.machine with mailbox := { s.machine.mailbox with
        slot := .full s.machine.mailbox.nextTicket c
        nextTicket := s.machine.mailbox.nextTicket + 1 } }
      pump := .handing d ⟨s.machine.mailbox.nextTicket, c,
        s.now + s.machine.settings.stateChangeLimit⟩ } := by
  rw [deliver_sleeping hp hd, hc]
  simp [Machine.submit, hs, Mailbox.submit_of_slot_eq_empty hb]

theorem deliver_handing_of_pursue {p : Pending} {reply : Reply} {m : Machine Observer}
    (hp : s.pump = .handing d p) (h : s.machine.pursue p s.now = some (some reply, m)) :
    s.deliver = some ({ s with machine := m }.handOver d reply) := by
  rw [deliver, hp]
  dsimp only
  rw [h]
  rfl

theorem deliver_handing_eq_none {p : Pending} (hp : s.pump = .handing d p)
    (h : s.machine.pursue p s.now = none) : s.deliver = none := by
  rw [deliver, hp]
  dsimp only
  rw [h]
  rfl

/-- **What the pump does**: a step that makes progress, unless there is nothing to take in, or it
is too early, or it is the worker's turn. -/
theorem Attached.deliver_cases (ha : s.Attached e.behaviour o) (hr : e.Reaches s.meshCore) :
    (∃ s', s.deliver = some s' ∧ Furthers e o s s') ∨
      s.deliver = none ∧
        (e.Rests s.now s.meshCore ∨ (∃ ticket c, s.machine.mailbox.slot = .full ticket c) ∨
          ∃ stage, s.callers = [stage] ∧ stage.answer? = none) := by
  have hrun : s.machine.status = .running := ha.attended.running
  generalize hk : s.meshCore = p at hr
  have hd : s.core = p.core := congrArg MeshCore.core hk
  have hpump : s.pump = p.pump := congrArg MeshCore.pump hk
  have hds' : s.deliveries = p.waiting := congrArg MeshCore.waiting hk
  cases hr with
  | @idle now x ds taken ht hds hlater =>
      obtain ⟨rfl, -, -, -, hcallers, -⟩ := Core.mk.inj hd
      cases ds with
      | nil =>
          have hnone : s.deliver = none := by
            rw [deliver, hpump, hds']
            rfl
          exact .inr ⟨hnone, .inl (.idle ht (by simpa using hds))⟩
      | cons d ds =>
          refine .inl ⟨_, deliver_idle hpump hds', rfl, ha.update _ _ _ _ _ _ _, ?_, ?_⟩
          · rw [meshCore_pump s, hk]
            exact .sleeping ht hds (hlater d (by simp))
          · rw [meshCore_pump s, hk]
            simp [MeshRequest.returning, MeshCore.left, Pump.tasks]
            omega
  | @sleeping now x d ds taken ht hds hd' =>
      obtain ⟨rfl, -, hslot, -, hcallers, -⟩ := Core.mk.inj hd
      rcases Nat.lt_or_ge s.now d.due with hlt | hdue
      · have hnone : s.deliver = none := by
          rw [deliver, hpump]
          exact if_neg (Nat.not_le.2 hlt)
        exact .inr ⟨hnone, .inl (.sleeping ht hds hlt)⟩
      · have hnow : d.due = s.now := Nat.le_antisymm hdue hd'
        cases hc : d.command with
        | error fault =>
            refine .inl ⟨_, deliver_sleeping_fault hpump hdue hc, rfl,
              (ha.note (by simp)).update _ _ _ _ _ _ _, ?_, ?_⟩
            · rw [meshCore_handOver s, hk]
              refine .idle (ht.concat_fault hnow hc) (by simp [hds, MeshRequest.returning]) ?_
              rw [← hnow]
              exact e.le_due_of_mem hds
            · rw [meshCore_handOver s, hk]
              simp [MeshRequest.returning, MeshCore.left, Pump.tasks]
        | ok c =>
            have hg : d.due < s.now + s.machine.settings.stateChangeLimit := by
              rw [hnow]
              exact Nat.lt_add_of_pos_right ha.attended.guard
            have hhanded : e.Reaches (e.returning d.due (.full s.machine.mailbox.nextTicket c) [] x
                (.handing d ⟨s.machine.mailbox.nextTicket, c,
                  s.now + s.machine.settings.stateChangeLimit⟩) ds taken) :=
              .handed (hnow ▸ ht) hds hc hg
            rw [hnow] at hhanded
            refine .inl ⟨_, deliver_sleeping_command hpump hdue hc hrun hslot, rfl,
              ha.update _ _ _ _ _ _ _, ?_, ?_⟩
            · rw [meshCore_mailbox s, hk, hcallers]
              exact hhanded
            · rw [meshCore_mailbox s, hk]
              simp [MeshRequest.returning, MeshCore.left, Pump.tasks, Stage.tasks, hcallers]
  | @handed x d ds taken ticket c giveUp ht hds hc hg =>
      obtain ⟨hnow, -, hslot, hreplies, -, -⟩ := Core.mk.inj hd
      have hnone := deliver_handing_eq_none hpump
        (Machine.pursue_of_full hslot hreplies hrun (by rw [hnow]; exact hg))
      exact .inr ⟨hnone, .inr (.inl ⟨_, _, hslot⟩)⟩
  | @answered x d ds taken ticket c giveUp reply ht hds =>
      obtain ⟨hnow, -, hslot, hreplies, hcallers, -⟩ := Core.mk.inj hd
      refine .inl ⟨_, deliver_handing_of_pursue hpump (Machine.pursue_of_reply hslot hreplies), rfl,
        (ha.note (by simp)).update _ _ _ _ _ _ _, ?_, ?_⟩
      · rw [meshCore_handOver, meshCore_replies s, hk, hcallers]
        exact .idle ht (by simp [hds, MeshRequest.returning]) (e.le_due_of_mem hds)
      · rw [meshCore_handOver, meshCore_replies s, hk, hcallers]
        simp [MeshRequest.returning, MeshCore.left, Pump.tasks, Stage.tasks]
  | planned | seeking | announcing | submitted | accepted | transmitting =>
      obtain ⟨-, -, -, -, hcallers, -⟩ := Core.mk.inj hd
      have hnone : s.deliver = none := by
        rw [deliver, hpump, hds']
        rfl
      exact .inr ⟨hnone, .inr (.inr ⟨_, hcallers, rfl⟩)⟩

end Pumping

section Resting

theorem exists_callers_of_reaches (hr : e.Reaches s.meshCore) : ∃ stage, s.callers = [stage] := by
  generalize hk : s.meshCore = p at hr
  cases hr with
  | _ => exact ⟨_, congrArg (·.core.callers) hk⟩

theorem isAble_of_deliver (h : s.deliver = some s') : s.isAble = true := by
  simp [isAble, isBackgroundAble, step, h]

theorem work_eq_none (hable : s.isAble = false) : s.work = none := by
  cases hw : s.work with
  | none => rfl
  | some s' =>
      rw [isAble_of_work hw] at hable
      cases hable

/-- **Nobody waits in vain**: where nobody can act, the request is not planned for now, the sender is
through, and the next delivery is not due. -/
theorem Attached.rests (ha : s.Attached e.behaviour o) (hf : e.request.toFrame = .ok e.frame)
    (hr : e.Reaches s.meshCore) (hable : s.isAble = false) : e.Rests s.now s.meshCore := by
  have hslot : ¬ ∃ ticket c, s.machine.mailbox.slot = .full ticket c := by
    rintro ⟨ticket, c, hslot⟩
    obtain ⟨s', hs'⟩ := ha.attended.exists_work hslot
    rw [work_bare, work_eq_none hable] at hs'
    cases hs'
  rcases ha.resume_cases hf hr with ⟨s', hs', -⟩ | ⟨-, hrest | hfull | hfinished⟩
  · rw [isAble_of_resume hs'] at hable
    cases hable
  · exact hrest
  · exact absurd hfull hslot
  · rcases ha.deliver_cases hr with ⟨s', hs', -⟩ | ⟨-, hrest | hfull | ⟨stage, hstage, hanswer⟩⟩
    · rw [isAble_of_deliver hs'] at hable
      cases hable
    · exact hrest
    · exact absurd hfull hslot
    · rw [hfinished] at hstage
      cases hstage
      cases hanswer

/-- The clock leaves the request where it is. -/
theorem Attached.reaches_of_elapse (ha : s.Attached e.behaviour o) (hr : e.Rests s.now s.meshCore)
    {t : Instant} (ht : s.now ≤ t) (hu : ∀ u ∈ s.timers, s.now < u → t ≤ u) :
    { s with now := t }.Attached e.behaviour o ∧ e.Reaches { s with now := t }.meshCore ∧
      { s with now := t }.meshCore.left = s.meshCore.left := by
  refine ⟨ha.update _ _ _ _ _ _ _, ?_, rfl⟩
  have hmesh : { s with now := t }.meshCore =
      { s.meshCore with core := { s.meshCore.core with now := t } } := rfl
  rw [hmesh]
  generalize hk : s.meshCore = p at hr
  cases hr with
  | planned hn =>
      have hmem : e.sentAt ∈ s.timers := by
        have hcallers : s.callers = [.planned e.sentAt (.send e.request)] :=
          congrArg (·.core.callers) hk
        simp [timers, hcallers, Stage.timer?]
      exact .planned (hu _ hmem hn)
  | idle hx hds =>
      exact .idle (hx.elapse ht) (hds.trans (List.append_nil _).symm) fun d hd =>
        absurd hd List.not_mem_nil
  | @sleeping x d ds taken hx hds hd =>
      have hmem : d.due ∈ s.timers := by
        have hpump : s.pump = .sleeping d := congrArg MeshCore.pump hk
        simp [timers, pumpTimer?, hpump]
      exact .sleeping (hx.elapse ht) hds (hu _ hmem hd)

/-- A system on which a request is sent, with so much left to be done. -/
def Runs (e : MeshRequest) (o : Observer) (n : Nat) (s : System) : Prop :=
  s.Attached e.behaviour o ∧ e.Reaches s.meshCore ∧ s.meshCore.left = n

theorem decreases_runs (hf : e.request.toFrame = .ok e.frame) : Decreases (Runs e o) where
  act := by
    rintro n s s' a ⟨ha, hr, rfl⟩ hact h
    suffices hs : Furthers e o s s' from ⟨hs.now, _, hs.left, hs.attached, hs.reaches, rfl⟩
    rcases hact with rfl | rfl | ⟨i, rfl⟩
    · exact ha.furthers_of_work hr h
    · rcases ha.deliver_cases hr with ⟨s₁, hs₁, hs⟩ | ⟨hnone, -⟩
      · cases hs₁.symm.trans h
        exact hs
      · cases hnone.symm.trans h
    · obtain ⟨stage, hc⟩ := exists_callers_of_reaches hr
      have hc' : s.callers = finished [] ++ (some stage).toList := hc
      obtain rfl : i = 0 := eq_length_of_resume hc' h
      rcases ha.resume_cases hf hr with ⟨s₁, hs₁, hs⟩ | ⟨hnone, -⟩
      · cases hs₁.symm.trans h
        exact hs
      · cases hnone.symm.trans h
  elapse := by
    rintro n s t ⟨ha, hr, rfl⟩ hable ht hu
    exact ha.reaches_of_elapse (ha.rests hf hr hable) ht hu

end Resting

end System

namespace MeshRequest

/-- What is seen of a system on which a request is sent. -/
structure Shows (e : MeshRequest) (s : System) : Prop where
  /-- The pump takes in what the mesh sends back, in order. -/
  taken : (System.handovers s.journal).map (·.1) <+: e.deliveries
  /-- What the coordinator is asked itself is not confirmed. -/
  unconfirmed : e.request.isForCoordinator = true →
    ∀ d ∈ (System.handovers s.journal).map (·.1),
      d = ⟨e.sentAt + e.behaviour.responseDelay,
        Incoming.responseFrame e.request 0 e.behaviour.responseData⟩
  outcomes : Session.outcomes s.journal <+: e.course.outcomes.map (·.2)
  transmitted : System.transmissions s.journal <+: [(e.frame, .ok ())]
  /-- Where nobody can act before the call begins, nothing has happened. -/
  before : s.isAble = false → s.now < e.sentAt →
    s.machine.phase = .freeForSend ∧ Session.outcomes s.journal = [] ∧
      System.transmissions s.journal = []
  /-- Where nobody can act from then on, the sender is through, and the course tells the phase and the
  outcomes. -/
  since : s.isAble = false → e.sentAt ≤ s.now →
    s.callers = [.finished e.sentAt (.entered e.request.opening)] ∧
      System.transmissions s.journal = [(e.frame, .ok ())] ∧
      s.machine.phase = e.course.phaseAt s.now ∧
      Session.outcomes s.journal = e.course.outcomesBy s.now

end MeshRequest

namespace System

variable {s s' : System} {o : Observer} {e : MeshRequest}

theorem map_handovers (journal : List (Instant × Entry)) :
    (handovers journal).map (·.2) = Session.outcomes journal := by
  rw [handovers, Session.outcomes, List.map_filterMap]
  congr 1
  funext ⟨n, entry⟩
  cases entry <;> rfl

theorem Attached.shows (ha : s.Attached e.behaviour o) (hf : e.request.toFrame = .ok e.frame)
    (hr : e.Reaches s.meshCore) : e.Shows s := by
  obtain ⟨htaken, houtcomes, htransmitted⟩ := hr.prefix_course
  have hphase : s.machine.phase = s.standing.tracker.phase := ha.attended.phase
  rw [meshCore, map_handovers] at houtcomes
  refine ⟨htaken, fun hc d hd => ?_, houtcomes, htransmitted, ?_, ?_⟩
  · exact e.behaviour.eq_of_mem_deliveries e.request e.sentAt hc (htaken.mem hd)
  · intro hable hnow
    rcases (ha.rests hf hr hable).begun with ⟨-, hstanding, htaken, htransmitted⟩ | ⟨hsent, -⟩
    · have hphase' := hphase.trans (congrArg (·.tracker.phase) hstanding)
      refine ⟨hphase', ?_, htransmitted⟩
      rw [← map_handovers, show handovers s.journal = [] from htaken]
      rfl
    · exact absurd hsent (Nat.not_le.2 hnow)
  · intro hable hsent
    rcases (ha.rests hf hr hable).begun with ⟨hnow, -⟩ | ⟨-, hcallers, htransmitted, hcourse⟩
    · exact absurd hsent (Nat.not_le.2 hnow)
    · have hidle : s.bare.work = none := by
        rw [work_bare, work_eq_none hable]
        rfl
      obtain ⟨hp, houtcomes⟩ := hcourse (ha.attended.lapse_of_idle hidle)
      rw [meshCore, map_handovers] at houtcomes
      exact ⟨hcallers, htransmitted, hphase.trans hp, houtcomes⟩

end System

namespace System

/-- A machine that is set up with a listener, with the link and the send wait of the setup. -/
theorem exists_fresh {setup : Setup} {name : String} (hharness : setup.harness = some name)
    (hsettings : setup.settings.IsNonNegative) :
    ∃ s, setup.assemble = .ok s ∧ s.Fresh setup.settings ⟨.recording, name, 0⟩ ∧ s.now = 0 ∧
      s.link = setup.link ∧ s.sendWait = setup.sendWait.getD setup.settings.sendWait := by
  have hm := hsettings.create_eq (L := Observer)
  unfold Setup.assemble
  rw [hm, hharness]
  exact ⟨_, rfl, ⟨⟨_, hm, rfl⟩, rfl, rfl, rfl, rfl⟩, rfl, rfl, rfl⟩

theorem Fresh.attach {s : System} {o : Observer} {b : Behaviour} {settings : Settings}
    (hs : s.Fresh settings o) (ho : o.Returns) (hguard : 1 ≤ settings.stateChangeTimeout.toInt)
    (hlink : s.link = .mesh b true) : s.Attached b o := by
  have hbare : s.bare = s := by
    rw [bare, ← hs.deliveries, ← hs.pump]
  exact ⟨hbare.symm ▸ hs.attended ho hguard, hlink⟩

theorem Fresh.runs {s : System} {o : Observer} {e : MeshRequest} {settings : Settings}
    (hs : s.Fresh settings o) (ho : o.Returns)
    (hguard : 1 ≤ settings.stateChangeTimeout.toInt) (hlink : s.link = .mesh e.behaviour true)
    (htiming : Timing.ofSettings settings = .ok e.timing) (hn : s.now ≤ e.sentAt) :
    Runs e o 17 { s with callers := s.callers ++ [.planned e.sentAt (.send e.request)] } := by
  have ha := hs.attach ho hguard hlink
  obtain ⟨timing, ht, hcore⟩ := hs.exists_core
  cases htiming.symm.trans ht
  have hmesh : meshCore { s with callers := s.callers ++ [.planned e.sentAt (.send e.request)] } =
      e.opening s.now .empty [] (.planned e.sentAt (.send e.request)) {} := by
    rw [meshCore_callers s, meshCore, hcore, hs.callers, hs.deliveries, hs.pump, hs.journal]
    rfl
  refine ⟨ha.update _ _ _ _ _ _ _, ?_, ?_⟩
  · rw [hmesh]
    exact .planned hn
  · rw [hmesh]
    rfl

/-- **The exact course of one exchange on the mesh**, in every run: a request that is sent on a machine
that was just started. -/
theorem shows_of_unfolds {setup : Setup} {b : Behaviour} {name : String} {r : Request}
    {frame : Frame} {t : Instant} (hsettings : setup.settings.IsNonNegative)
    (hguard : 1 ≤ setup.settings.stateChangeTimeout.toInt) (hlink : setup.link = .mesh b true)
    (hharness : setup.harness = some name) (hframe : r.toFrame = .ok frame) :
    ∃ s₀ s₁, setup.assemble = .ok s₀ ∧ s₀.step (.call t (.send r)) = some s₁ ∧
      ∀ k s', s₁.Unfolds k s' → k ≤ 17 ∧
        MeshRequest.Shows ⟨b, setup.settings.timing, r, frame, t⟩ s' ∧
        ∀ n, s'.now ≤ n → ∃ k' s'', s'.Unfolds k' s'' ∧ s''.isAble = false ∧ s''.now = n := by
  obtain ⟨s₀, hs₀, hfresh, hnow, hlink₀, -⟩ := exists_fresh hharness hsettings
  refine ⟨s₀, _, hs₀, rfl, fun k s' h => ?_⟩
  let e : MeshRequest := ⟨b, setup.settings.timing, r, frame, t⟩
  have hw : Decreases (Runs e ⟨.recording, name, 0⟩) := decreases_runs hframe
  have hruns := hfresh.runs (e := e) (fun _ => rfl) hguard (hlink₀.trans hlink)
    hsettings.ofSettings_eq (hnow.symm ▸ Nat.zero_le t)
  obtain ⟨n', hle, ha, hr, rfl⟩ := hw.of_unfolds hruns h
  exact ⟨by omega, ha.shows hframe hr, fun n hn => hw.exists_unfolds ⟨ha, hr, rfl⟩ hn⟩

/-- A request to a node that is answered in time, looked at while the channel lingers. -/
theorem shows_of_unfolds_of_answer :
    ∃ (setup : Setup) (frame : Frame) (s₀ s₁ s' : System) (k : Nat),
      setup.settings.IsNonNegative ∧ 1 ≤ setup.settings.stateChangeTimeout.toInt ∧
      setup.link = .mesh {} true ∧ setup.harness = some "resident" ∧
      Request.toFrame ⟨.node 1, 0, 0, 0, []⟩ = .ok frame ∧ setup.assemble = .ok s₀ ∧
      s₀.step (.call (Duration.millis 5) (.send ⟨.node 1, 0, 0, 0, []⟩)) = some s₁ ∧
      s₁.Unfolds k s' ∧ k ≤ 17 ∧ s'.now = Duration.millis 100 ∧
      MeshRequest.Shows ⟨{}, setup.settings.timing, ⟨.node 1, 0, 0, 0, []⟩, frame, Duration.millis 5⟩ s' ∧
      s'.machine.phase = .waitingAfterResponse ∧
      Session.outcomes s'.journal = [.ok .waitingForResponse, .ok .waitingAfterResponse] := by
  let setup : Setup := { link := .mesh {} true, harness := some "resident" }
  have hsettings : setup.settings.IsNonNegative := by
    constructor <;> decide
  obtain ⟨s₀, s₁, hs₀, hs₁, hrun⟩ := shows_of_unfolds (t := Duration.millis 5) hsettings (by decide)
    rfl rfl (show Request.toFrame ⟨.node 1, 0, 0, 0, []⟩ = .ok _ from rfl)
  have hnow : s₁.now ≤ Duration.millis 100 := by
    obtain ⟨_, _, _, _, _, _, -, -, rfl⟩ := exists_of_assemble hs₀
    cases hs₁
    exact Nat.zero_le _
  obtain ⟨k, s', h, hable, hn⟩ := (hrun 0 s₁ .refl).2.2 _ hnow
  obtain ⟨hk, hshows, -⟩ := hrun k s' h
  obtain ⟨-, -, hphase, houtcomes⟩ := hshows.since hable (by rw [hn]; decide)
  rw [hn] at hphase houtcomes
  refine ⟨setup, _, s₀, s₁, s', k, hsettings, by decide, rfl, rfl, rfl, hs₀, hs₁, h, hk, hn, hshows,
    ?_, ?_⟩
  · rw [hphase]
    decide
  · rw [houtcomes]
    decide

end System
end MeshExchange
