import MeshExchange.Proofs.System.Lifecycle

/-!
# Stray frames

A confirmation or a response may come late, when its exchange was given up and another one is on its way.
Nothing in the channel compares the address in a frame with the one of the request: a frame is judged by the
phase in which the worker handles it, and by nothing else.

**Input.** A caller that takes in a frame, and any run from then on.

**Results.**
* `Incoming.awaited`: the one phase in which a frame is accepted;
* `System.Judged`, `System.judged_of_worksTo`: what the worker makes of a frame;
* `System.Takes`, `System.judges_of_receive`: what becomes of a frame that is taken in, in every run;
* `System.consumed_of_stranger`: a late confirmation is taken for that of the next exchange.
-/

namespace MeshExchange

namespace Incoming

section Kinds

/-- The phase in which a frame is awaited. -/
def awaited : Incoming → Phase
  | .confirmation _ _ => .waitingForConfirmation
  | .response _ _ _ => .waitingForResponse

/-- The frame under another header. -/
def withHeader (h : Header) : Incoming → Incoming
  | .confirmation _ c => .confirmation h c
  | .response _ data length => .response h data length

variable {incoming : Incoming} {receivedAt : Instant}

@[simp] theorem command_withHeader (h : Header) :
    (incoming.withHeader h).command receivedAt = incoming.command receivedAt := by
  cases incoming <;> rfl

theorem refusal?_command_eq_none {p : Phase} :
    p.refusal? (incoming.command receivedAt) = none ↔ p = incoming.awaited := by
  cases incoming with
  | confirmation => exact Phase.refusal?_confirmationReceived_eq_none
  | response => exact Phase.refusal?_responseReceived_eq_none

/-- The answer to a frame tells the phase it led to. -/
theorem ofReply_command (reply : Reply) :
    Answer.ofReply (incoming.command receivedAt) reply =
      match reply with
      | .ok phase => .entered phase
      | .error fault => .refused fault := by
  cases incoming <;> cases reply <;> rfl

end Kinds

end Incoming

namespace System

variable {s s₁ s' x y : System} {a : Action} {as : List Action} {i : Nat} {due : Instant}
  {frame : Frame} {receivedAt : Option Instant} {incoming : Incoming} {p : Pending}

section Judging

/-- What the worker makes of a frame: it accepts it in the phase it is awaited in, before the deadline, and
in any other phase it refuses it and leaves the phase, the exchange and the deadline as they are. -/
inductive Judged (awaited : Phase) (c : Command) (x : System) : Reply → System → Prop
  | consumed {y : System} (hp : x.machine.phase = awaited)
      (hd : ∀ d, x.machine.tracker.deadline = some d → x.now < d)
      (ht : x.machine.tracker.Moves x.machine.timing x.now c y.machine.tracker) :
      Judged awaited c x (.ok y.machine.phase) y
  | stray {y : System} {fault : Fault} (hp : x.machine.phase ≠ awaited)
      (hf : fault = .contractViolation c.operation x.machine.phase ∨
        fault = .stateTimeout x.machine.phase)
      (ht : y.machine.tracker = x.machine.tracker) (hp' : y.machine.phase = x.machine.phase) :
      Judged awaited c x (.error fault) y

/-- Neither the mailbox nor the callers play a part in it. -/
theorem Judged.congr {awaited : Phase} {c : Command} {reply : Reply} {x' y' : System}
    (h : Judged awaited c x reply y) (hnow : x'.now = x.now)
    (htiming : x'.machine.timing = x.machine.timing)
    (ht : x'.machine.tracker = x.machine.tracker) (hp : x'.machine.phase = x.machine.phase)
    (ht' : y'.machine.tracker = y.machine.tracker) (hp' : y'.machine.phase = y.machine.phase) :
    Judged awaited c x' reply y' := by
  cases h with
  | consumed hphase hd hm =>
      rw [← hp']
      refine .consumed (hp.trans hphase) (fun d hx => ?_) ?_
      · rw [hnow]
        exact hd d (ht ▸ hx)
      · rw [hnow, htiming, ht, ht']
        exact hm
  | stray hphase hf hkept hkept' =>
      rw [← hp] at hphase hf
      exact .stray hphase hf (by rw [ht, ht', hkept]) (by rw [hp, hp', hkept'])

/-- **A frame is judged by the phase** in which it is handled. -/
theorem judged_of_worksTo {at' : Instant} {k : Ticket} {reply : Reply}
    {heard : Option (Observer × Notification)} (hs : x.Sound)
    (hw : x.WorksTo ⟨.handled k (incoming.command at') reply, heard⟩ y) :
    Judged incoming.awaited (incoming.command at') x reply y := by
  cases reply with
  | ok phase =>
      obtain ⟨-, ⟨n, hx, -, -⟩ | ⟨k', c', hx, hd, ht⟩⟩ := hw.machine.move_cases rfl
      · cases hx
      cases hx
      rw [← hw.machine.phase_eq hs.phase]
      refine .consumed ?_ ((Machine.dueExpiry_eq_none_iff hs.coherent).1 hd) ht
      rw [hs.phase]
      exact Incoming.refusal?_command_eq_none.1 ht.refusal?_eq_none
  | error fault =>
      obtain ⟨hf, ht, hp⟩ := hw.machine.of_refused
      rw [← hs.phase] at hf
      refine .stray (fun hp' => ?_) (Phase.eq_of_refusal? hf) ht hp
      rw [Incoming.refusal?_command_eq_none.2 hp'] at hf
      cases hf

/-- What becomes of a frame that a caller has taken in. -/
structure Judges (s : System) (i : Nat) (p : Pending) (awaited : Phase) (as : List Action)
    (s' : System) : Prop where
  /-- The worker handles it once at most. -/
  once : (Pass.tickets (passes s'.journal)).count p.ticket ≤ 1
  /-- It judges it by the phase. -/
  judged : ∀ before after x y c reply heard, as = before ++ .work :: after →
    s.steps before = some x → x.step .work = some y →
    x.WorksTo ⟨.handled p.ticket c reply, heard⟩ y → c = p.command ∧ Judged awaited c x reply y
  /-- Its caller does nothing to the phase, the exchange and the deadline. -/
  idle : ∀ y, s'.step (.resume i) = some y →
    y.machine.tracker = s'.machine.tracker ∧ y.machine.phase = s'.machine.phase
  /-- It ends with an error, unless the frame was accepted. -/
  answer : ∀ t answer, s'.callers[i]? = some (.finished t answer) →
    (∃ fault, answer = .refused fault) ∨
      ∃ x y, answer = .entered y.machine.phase ∧
        s.HandledAmid as p.ticket p.command (.ok y.machine.phase) x y ∧
        Judged awaited p.command x (.ok y.machine.phase) y
  /-- It does end, when its time is up at the latest. -/
  ends : s'.callers[i]? = some (.commanding p) → p.giveUp ≤ s'.now →
    ∃ bs y t answer, (bs = [.resume i] ∨ bs = [.resume i, .resume i]) ∧ s'.steps bs = some y ∧
      y.callers[i]? = some (.finished t answer)

theorem resume_commanding {reply? : Option Reply} {m : Machine Observer}
    (hi : s.callers[i]? = some (.commanding p))
    (hp : s.machine.pursue p s.now = some (reply?, m)) :
    s.step (.resume i) = some { s with
      machine := m
      callers := s.callers.set i (reply?.elim (.commanding p) fun reply =>
        .finished s.now (.ofReply p.command reply)) } := by
  cases reply? <;> simp [step, resume, hi, advance, hp, finish]

/-- A caller whose time is up ends its call, after it has handed its command in at most. -/
theorem ends_of_giveUp (hi : s.callers[i]? = some (.commanding p)) (hn : p.giveUp ≤ s.now) :
    ∃ bs y t answer, (bs = [.resume i] ∨ bs = [.resume i, .resume i]) ∧ s.steps bs = some y ∧
      y.callers[i]? = some (.finished t answer) := by
  have hlt : i < s.callers.length := (List.getElem?_eq_some_iff.1 hi).1
  rcases s.machine.pursue_of_giveUp hn with ⟨mailbox, hb, hp⟩ | ⟨reply, m, hp⟩
  · have h₁ := resume_commanding hi hp
    have hi₁ : (s.callers.set i (.commanding p))[i]? = some (.commanding p) :=
      List.getElem?_set_self hlt
    rcases Machine.pursue_of_giveUp (m := { s.machine with mailbox }) hn with
      ⟨mailbox', hb', -⟩ | ⟨reply, m, hp₁⟩
    · exact absurd (hb'.symm.trans (Mailbox.handIn?_of_handIn? hb)) (by simp)
    · have h₂ := resume_commanding (s := { s with
        machine := { s.machine with mailbox }, callers := s.callers.set i (.commanding p) }) hi₁ hp₁
      exact ⟨_, _, _, _, .inr rfl, steps_cons_iff.2 ⟨_, h₁, steps_singleton_iff.2 h₂⟩,
        List.getElem?_set_self (by simpa using hlt)⟩
  · exact ⟨_, _, _, _, .inl rfl, steps_singleton_iff.2 (resume_commanding hi hp),
      List.getElem?_set_self hlt⟩

end Judging

section Receiving

variable {k : Ticket} {c : Command} {reply : Reply} {at' : Instant} {heard : Option (Observer × Notification)}

/-- A command in the slot is handled in the next pass, if no deadline comes before. -/
theorem exists_work_of_full (hs : s.Sound) (hrun : s.machine.status = .running)
    (hslot : s.machine.mailbox.slot = .full k c)
    (hd : ∀ d, s.machine.tracker.deadline = some d → s.now < d) :
    ∃ reply heard y, s.step .work = some y ∧ s.WorksTo ⟨.handled k c reply, heard⟩ y := by
  have hdue := (Machine.dueExpiry_eq_none_iff hs.coherent).2 hd
  have htake : s.machine.mailbox.take? = some (k, c, s.machine.mailbox.grantNext) := by
    simp [Mailbox.take?, hslot]
  cases hf : s.machine.tracker.phase.refusal? c with
  | some fault =>
      obtain ⟨y, hy, -, hw⟩ := exists_work_of_works (.refuses hrun hdue htake hf)
      exact ⟨_, _, y, hy, hw⟩
  | none =>
      obtain ⟨t, ht, -⟩ := Tracker.exists_moves_of_refusal_eq_none s.machine.timing s.now hf
      obtain ⟨y, hy, -, hw⟩ := exists_work_of_works (.accepts hrun hdue htake ht)
      exact ⟨_, _, y, hy, hw⟩

/-- Its caller then learns the reply. -/
theorem resume_of_handled (hx : x.Reachable) (hi : x.callers[i]? = some (.commanding p))
    (hslot : x.machine.mailbox.slot = .full p.ticket c) (hqueue : x.machine.mailbox.queue = [])
    (hwork : x.step .work = some y) (hw : x.WorksTo ⟨.handled p.ticket c reply, heard⟩ y) :
    y.step (.resume i) = some { y with
      machine := y.machine.fetched p.ticket
      callers := y.callers.set i (.finished x.now (.ofReply p.command reply)) } := by
  have hiy : y.callers[i]? = some (.commanding p) := by
    rcases caller_of_step hi hwork with h | ⟨h, -⟩
    · exact h
    · cases h
  obtain ⟨⟨hno, -⟩ | ⟨k, c', reply', mailbox, hdeed, htake, hmailbox, hreplies⟩, -⟩ :=
    hw.machine.mail_cases
  · exact absurd rfl (hno _ _ _)
  cases hdeed
  have hempty : y.machine.mailbox.slot = .empty := by
    have hb : mailbox.slot = .empty := by
      simp only [Mailbox.take?, hslot, Option.some.injEq, Prod.mk.injEq, true_and] at htake
      rw [← htake]
      simp [Mailbox.grantNext, hqueue]
    rcases hmailbox with h | h
    · rw [h, hb]
    · rw [h]
      rfl
  -- the ticket lay in the slot, so there was no reply to it before
  have hfresh (reply' : Reply) : (p.ticket, reply') ∉ x.machine.replies := by
    intro hr
    obtain ⟨c', hh⟩ := hx.ticketed.replies _ _ hr
    have hmem : (p.ticket, c) ∈ x.machine.mailbox.contents := by
      simp [Mailbox.contents, hslot, Slot.held?]
    exact hx.ticketed.not_hasHandled hmem hh
  have hp : y.machine.pursue p y.now = some (some reply, y.machine.fetched p.ticket) := by
    refine Machine.pursue_of_mem_replies hempty (by simp [hreplies]) fun reply' hr => ?_
    rw [hreplies, List.mem_append] at hr
    rcases hr with hr | hr
    · exact absurd hr (hfresh reply')
    · exact (Prod.mk.inj (List.mem_singleton.1 hr)).2
  rw [resume_commanding hiy hp, hw.now]
  rfl

/-- How a call takes in a frame. -/
structure Takes (s : System) (i : Nat) (due : Instant) (receivedAt : Option Instant)
    (incoming : Incoming) (s₁ : System) (p : Pending) : Prop where
  resume : s.step (.resume i) = some s₁
  commanding : s₁.callers[i]? = some (.commanding p)
  command : p.command = incoming.command (receivedAt.getD s.now)
  kept : s₁.machine.tracker = s.machine.tracker ∧ s₁.machine.phase = s.machine.phase
  /-- With another header in the frame it does the same. -/
  blind : ∀ frame h, Incoming.decode frame = .ok (incoming.withHeader h) →
    step { s with callers := s.callers.set i (.planned due (.receive frame receivedAt)) }
      (.resume i) = some s₁
  /-- If nobody else has a command on its way, the frame is judged by the phase at once. -/
  alone : s.machine.mailbox.slot = .empty → s.machine.mailbox.queue = [] →
    (∀ d, s.machine.tracker.deadline = some d → s.now < d) →
      ∃ reply s', s₁.steps [.work, .resume i] = some s' ∧
        s'.callers[i]? = some (.finished s.now (.ofReply p.command reply)) ∧
        Judged incoming.awaited p.command s reply s'
  /-- In every run it is judged by the phase in which it is handled. -/
  judges : ∀ as s', s₁.steps as = some s' → s₁.Judges i p incoming.awaited as s'

theorem HandledAmid.exists_worksTo (h : s.HandledAmid as k c reply x y) :
    ∃ before after heard, as = before ++ .work :: after ∧ s.steps before = some x ∧
      x.WorksTo ⟨.handled k c reply, heard⟩ y := by
  obtain ⟨before, after, heard, rfl, hx, hy, hj⟩ := h
  obtain ⟨turn, hw⟩ := worksTo_of_work hy
  have hturn := List.append_cancel_left (hw.passes.symm.trans hj)
  simp only [List.cons.injEq, Prod.mk.injEq, true_and, and_true] at hturn
  exact ⟨before, after, heard, rfl, hx, hturn ▸ hw⟩

/-- A frame that was taken in is judged in every run. -/
theorem judges_of_steps (hs : s.Reachable) (hi : s.callers[i]? = some (.commanding p))
    (hc : p.command = incoming.command at')
    (hmem : (p.ticket, p.command) ∈ s.machine.mailbox.contents) (has : s.steps as = some s') :
    s.Judges i p incoming.awaited as s' := by
  have haccounts := accounts_of_commanding hs hi hmem has
  refine ⟨haccounts.once, ?_, ?_, ?_, fun hi' hn => ends_of_giveUp hi' hn⟩
  · rintro before after x y c reply heard rfl hx hy hw
    obtain ⟨x', hx', hrest⟩ := steps_append_iff.1 has
    obtain rfl := Option.some.inj (hx.symm.trans hx')
    obtain ⟨y', hy', hafter⟩ := steps_cons_iff.1 hrest
    obtain rfl := Option.some.inj (hy.symm.trans hy')
    have hh : y.HasHandled p.ticket c reply := (hasHandled_of_worksTo hw).2 (.inr rfl)
    obtain rfl := haccounts.own c reply (hh.of_steps hafter)
    rw [hc] at hw ⊢
    exact ⟨rfl, judged_of_worksTo (hs.steps hx).sound hw⟩
  · intro y hy
    have hspares := (step_spares (by simp) hy).machine
    exact ⟨hspares.tracker, hspares.phase⟩
  · intro t answer ht
    obtain ⟨reply, rfl, htells⟩ := haccounts.answer t answer ht
    cases reply with
    | error fault =>
        rw [hc, Incoming.ofReply_command]
        exact .inl ⟨fault, rfl⟩
    | ok phase =>
        cases htells with
        | @accepted x y hamid =>
            obtain ⟨before, after, heard, -, hx, hw⟩ := hamid.exists_worksTo
            refine .inr ⟨x, y, ?_, hamid, ?_⟩
            · rw [hc, Incoming.ofReply_command]
            · rw [hc] at hw ⊢
              exact judged_of_worksTo (hs.steps hx).sound hw

/-- The command of a frame is submitted. -/
theorem resume_receive (hrun : s.machine.status = .running)
    (hi : s.callers[i]? = some (.planned due (.receive frame receivedAt))) (hdue : due ≤ s.now)
    (hd : Incoming.decode frame = .ok incoming) :
    s.step (.resume i) = some { s with
      machine := { s.machine with
        mailbox := s.machine.mailbox.submit (incoming.command (receivedAt.getD s.now)) }
      callers := s.callers.set i (.commanding
        ⟨s.machine.mailbox.nextTicket, incoming.command (receivedAt.getD s.now),
          s.now + s.machine.settings.stateChangeLimit⟩) } := by
  have hcommand : (Call.receive frame receivedAt).command? s.now =
      some (incoming.command (receivedAt.getD s.now)) := by
    simp only [Call.command?, hd]
    rfl
  rw [resume_planned hi hdue, begin_of_command? hcommand]
  simp [command, Machine.submit, hrun]

/-- **Frames are judged by the phase**, whatever address they carry. -/
theorem judges_of_receive (hs : s.Reachable) (hrun : s.machine.status = .running)
    (hi : s.callers[i]? = some (.planned due (.receive frame receivedAt))) (hdue : due ≤ s.now)
    (hd : Incoming.decode frame = .ok incoming) :
    ∃ s₁ p, s.Takes i due receivedAt incoming s₁ p := by
  have hlt : i < s.callers.length := (List.getElem?_eq_some_iff.1 hi).1
  have hresume := resume_receive hrun hi hdue hd
  have hcommanding := List.getElem?_set_self (a := Stage.commanding
    ⟨s.machine.mailbox.nextTicket, incoming.command (receivedAt.getD s.now),
      s.now + s.machine.settings.stateChangeLimit⟩) hlt
  refine ⟨_, _, hresume, hcommanding, rfl, ⟨rfl, rfl⟩, ?_, ?_, ?_⟩
  · intro frame h hd'
    have hi' : (s.callers.set i (.planned due (.receive frame receivedAt)))[i]? = some _ :=
      List.getElem?_set_self hlt
    rw [resume_receive (s := { s with
      callers := s.callers.set i (.planned due (.receive frame receivedAt)) }) hrun hi' hdue hd']
    simp [List.set_set]
  · intro hslot hqueue hdeadline
    have hs₁ := hs.step hresume
    have hfull : (s.machine.mailbox.submit (incoming.command (receivedAt.getD s.now))).slot =
        .full s.machine.mailbox.nextTicket (incoming.command (receivedAt.getD s.now)) := by
      simp [Mailbox.submit, hslot]
    have hqueue' : (s.machine.mailbox.submit
        (incoming.command (receivedAt.getD s.now))).queue = [] := by
      simp [Mailbox.submit, hslot, hqueue]
    obtain ⟨reply, heard, y, hwork, hw⟩ := exists_work_of_full hs₁.sound hrun hfull hdeadline
    have hlearn := resume_of_handled hs₁ hcommanding hfull hqueue' hwork hw
    have hlty : i < y.callers.length := by
      rcases caller_of_step hcommanding hwork with h | ⟨h, -⟩
      · exact (List.getElem?_eq_some_iff.1 h).1
      · cases h
    refine ⟨reply, _, steps_cons_iff.2 ⟨y, hwork, steps_singleton_iff.2 hlearn⟩,
      List.getElem?_set_self hlty, ?_⟩
    exact (judged_of_worksTo hs₁.sound hw).congr rfl rfl rfl rfl rfl rfl
  · intro as s' has
    exact judges_of_steps (hs.step hresume) hcommanding rfl
      (Mailbox.contents_submit_perm.symm.subset List.mem_cons_self) has

/-- Two requests, of which the first was given up and reset. -/
def secondExchange : List Action :=
  [.call 0 (.start true), .resume 0, .call 0 (.newRequest ⟨.node 1, 0, 0, 0, []⟩), .resume 1, .work,
    .resume 1, .elapse (Duration.millis 500), .work, .call 0 .reset, .resume 2, .work, .resume 2,
    .call 0 (.newRequest ⟨.node 2, 0, 0, 0, []⟩), .resume 3, .work, .resume 3]

/-- A response of the first exchange that comes while the second waits for its confirmation. -/
theorem judges_of_receive_of_response :
    ∃ (s s₁ s' : System) (p : Pending) (incoming : Incoming) (fault : Fault), s.Reachable ∧
      s.machine.status = .running ∧
      s.machine.tracker.exchange.request = some ⟨.node 2, 0, 0, 0, []⟩ ∧
      s.callers[4]? = some (.planned 0 (.receive [1, 0, 0, 0x80, 0xFF, 0xFF, 0, 0, 7] none)) ∧
      Incoming.decode [1, 0, 0, 0x80, 0xFF, 0xFF, 0, 0, 7] = .ok incoming ∧
      incoming.header.address ≠ .node 2 ∧ s.Takes 4 0 none incoming s₁ p ∧
      s₁.steps [.work, .resume 4] = some s' ∧
      s'.callers[4]? = some (.finished s.now (.refused fault)) ∧
      s'.machine.tracker = s.machine.tracker ∧ s'.machine.phase = s.machine.phase := by
  obtain ⟨s₀, h₀, hrun⟩ : ∃ s₀, Setup.assemble {} = .ok s₀ ∧
      ((s₀.steps (secondExchange ++
        [.call 0 (.receive [1, 0, 0, 0x80, 0xFF, 0xFF, 0, 0, 7] none)])).any fun s =>
          s.machine.status = .running ∧
          s.machine.tracker.exchange.request = some ⟨.node 2, 0, 0, 0, []⟩ ∧
          s.callers[4]? = some (.planned 0 (.receive [1, 0, 0, 0x80, 0xFF, 0xFF, 0, 0, 7] none)) ∧
          s.machine.mailbox.slot = .empty ∧ s.machine.mailbox.queue = [] ∧
          s.machine.phase = .waitingForConfirmation ∧
          s.machine.tracker.deadline.all (fun d => s.now < d)) = true :=
    ⟨_, rfl, by decide +kernel⟩
  obtain ⟨s, hs, hrun⟩ := (Option.any_eq_true _ _).1 hrun
  obtain ⟨hstatus, hrequest, hi, hslot, hqueue, hphase, hdeadline⟩ := of_decide_eq_true hrun
  have hreach : s.Reachable := ⟨{}, s₀, _, h₀, hs⟩
  obtain ⟨s₁, p, ht⟩ := judges_of_receive hreach hstatus hi (Nat.zero_le _) rfl
  obtain ⟨reply, s', hs', hanswer, hj⟩ := ht.alone hslot hqueue fun d hd => by
    simpa [hd] using hdeadline
  rw [ht.command, Incoming.ofReply_command] at hanswer
  cases hj with
  | consumed hp => exact absurd (hphase.symm.trans hp) (by decide)
  | stray hp hf hkept hkept' =>
      exact ⟨s, s₁, s', p, _, _, hreach, hstatus, hrequest, hi, rfl, by decide, ht, hs', hanswer,
        hkept, hkept'⟩

/-- **A confirmation that comes late** is taken for that of the next exchange, although it is another
node's. -/
theorem consumed_of_stranger :
    ∃ (s₀ s s' : System) (header : Header) (r : Request), Setup.assemble {} = .ok s₀ ∧
      s₀.steps (secondExchange ++
        [.call 0 (.receive [1, 0, 0, 0, 0xFF, 0xFF, 0xFF, 0, 1, 8, 1] none)]) = some s ∧
      s.machine.status = .running ∧ s.machine.tracker.exchange.request = some r ∧
      (passes s.journal).map (·.2.deed) =
        [.handled 0 (.newRequest ⟨.node 1, 0, 0, 0, []⟩) (.ok .waitingForConfirmation),
          .expired .confirmationTimedOut, .handled 1 .resetAfterError (.ok .freeForSend),
          .handled 2 (.newRequest r) (.ok .waitingForConfirmation)] ∧
      Incoming.decode [1, 0, 0, 0, 0xFF, 0xFF, 0xFF, 0, 1, 8, 1] =
        .ok (.confirmation header ⟨1, 8, 1⟩) ∧
      header.address ≠ r.address ∧
      s.steps [.resume 4, .work, .resume 4] = some s' ∧
      s'.callers[4]? = some (.finished s.now (.entered .waitingForResponse)) ∧
      s'.machine.phase ≠ s.machine.phase ∧
      s'.machine.tracker.exchange ≠ s.machine.tracker.exchange ∧
      s'.machine.tracker.deadline ≠ s.machine.tracker.deadline := by
  obtain ⟨s₀, h₀, hrun⟩ : ∃ s₀, Setup.assemble {} = .ok s₀ ∧
      ((s₀.steps (secondExchange ++
        [.call 0 (.receive [1, 0, 0, 0, 0xFF, 0xFF, 0xFF, 0, 1, 8, 1] none)])).any fun s =>
          s.machine.status = .running ∧
          s.machine.tracker.exchange.request = some ⟨.node 2, 0, 0, 0, []⟩ ∧
          (passes s.journal).map (·.2.deed) =
            [.handled 0 (.newRequest ⟨.node 1, 0, 0, 0, []⟩) (.ok .waitingForConfirmation),
              .expired .confirmationTimedOut, .handled 1 .resetAfterError (.ok .freeForSend),
              .handled 2 (.newRequest ⟨.node 2, 0, 0, 0, []⟩) (.ok .waitingForConfirmation)] ∧
          (s.steps [.resume 4, .work, .resume 4]).any fun s' =>
            s'.callers[4]? = some (.finished s.now (.entered .waitingForResponse)) ∧
            s'.machine.phase ≠ s.machine.phase ∧
            s'.machine.tracker.exchange ≠ s.machine.tracker.exchange ∧
            s'.machine.tracker.deadline ≠ s.machine.tracker.deadline) = true :=
    ⟨_, rfl, by decide +kernel⟩
  obtain ⟨s, hs, hrun⟩ := (Option.any_eq_true _ _).1 hrun
  obtain ⟨hstatus, hrequest, hpasses, hrun⟩ := of_decide_eq_true hrun
  obtain ⟨s', hs', hrun⟩ := (Option.any_eq_true _ _).1 hrun
  have hafter := of_decide_eq_true hrun
  exact ⟨s₀, s, s', _, _, h₀, hs, hstatus, hrequest, hpasses, rfl, by decide, hs', hafter⟩

end Receiving

end System
end MeshExchange
