import MeshExchange.Proofs.System.Tickets

/-!
# What a reply tells

A caller that submitted a command may wait for the slot, lie in the queue, be overtaken by a deadline or
by others, give up, or lose the worker. Whatever happens to it, the answer it ends with is true of its own
command.

**Method.** The ticket of the command leads from the step in which it was submitted to the pass in which
it was handled, and from there to the reply that its caller fetches. A caller that ends without such a
reply finds its command gone or, if it gave up, perhaps still in the slot.

**Results.**
* `System.exists_advance_of_steps`: the step in which a caller gets on;
* `System.Tells`: what an answer tells about the command behind it;
* `System.tells_of_learns`: whoever learns a reply learns the truth;
* `System.accounts_of_command`: the same for every call that asks for a command, in every run.
-/

namespace MeshExchange

/-- The command that a call asks for, if it begins at an instant. -/
def Call.command? (now : Instant) : Call → Option Command
  | .newRequest r => some (.newRequest r)
  | .confirmation c receivedAt => some (.confirmationReceived (receivedAt.getD now) c)
  | .response length receivedAt => some (.responseReceived (receivedAt.getD now) length)
  | .reset => some .resetAfterError
  | .receive frame receivedAt =>
      (Incoming.decode frame).toOption.map fun incoming => incoming.command (receivedAt.getD now)
  | _ => none

namespace System

section Callers

variable {s s' s₁ : System} {a : Action} {as : List Action} {i : Nat} {stage stage' : Stage}

theorem Advances.callers (h : s.Advances stage stage' s₁) : s₁.callers = s.callers := by
  cases h with
  | plain hs hs' hq => exact hq.callers
  | _ => rfl

/-- Only its own steps change how far a caller has got. -/
theorem caller_of_step (hi : s.callers[i]? = some stage) (h : s.step a = some s') :
    s'.callers[i]? = some stage ∨
      (a = .resume i ∧ ∃ stage' s₁, s.advance stage = some (stage', s₁) ∧
        s' = { s₁ with callers := s₁.callers.set i stage' } ∧ s'.callers[i]? = some stage') := by
  have hlt : i < s.callers.length := (List.getElem?_eq_some_iff.1 hi).1
  cases a with
  | call due call =>
      cases h
      refine .inl ?_
      rw [List.getElem?_append_left hlt, hi]
  | resume j =>
      obtain ⟨stage₀, hj, h⟩ := Option.bind_eq_some_iff.1 h
      obtain ⟨⟨stage', s₁⟩, ha, rfl⟩ := Option.map_eq_some_iff.1 h
      have hc := (advances_of_advance ha).callers
      by_cases hij : j = i
      · subst hij
        rw [hi] at hj
        cases hj
        refine .inr ⟨rfl, stage', s₁, ha, rfl, ?_⟩
        rw [List.getElem?_set_self (hc ▸ hlt)]
      · refine .inl ?_
        rw [List.getElem?_set_ne hij, hc, hi]
  | work =>
      obtain ⟨⟨turn, m⟩, -, rfl⟩ := Option.map_eq_some_iff.1 h
      exact .inl hi
  | deliver =>
      refine .inl ?_
      cases pumps_of_deliver h with
      | plain _ _ _ hc => rw [hc, hi]
      | _ => exact hi
  | elapse t =>
      simp only [step] at h
      split at h <;> cases h
      exact .inl hi

/-- A caller that is through stays so. -/
theorem finished_of_steps {t : Instant} {answer : Answer}
    (hi : s.callers[i]? = some (.finished t answer)) (h : s.steps as = some s') :
    s'.callers[i]? = some (.finished t answer) := by
  refine kept_of_steps (P := fun s => s.callers[i]? = some (.finished t answer))
    (fun s a s' hi h => ?_) hi h
  rcases caller_of_step hi h with hi' | ⟨-, stage', s₁, ha, -⟩
  · exact hi'
  · cases ha

/-- The step in which a caller first gets on, in a run at whose end it has. -/
theorem exists_advance_of_steps (hi : s.callers[i]? = some stage) (has : s.steps as = some s')
    (hne : s'.callers[i]? ≠ some stage) :
    ∃ before after x y stage' s₁, as = before ++ .resume i :: after ∧ s.steps before = some x ∧
      x.callers[i]? = some stage ∧ x.step (.resume i) = some y ∧ y.steps after = some s' ∧
      x.advance stage = some (stage', s₁) ∧ y = { s₁ with callers := s₁.callers.set i stage' } ∧
      y.callers[i]? = some stage' ∧ stage' ≠ stage := by
  induction as generalizing s with
  | nil =>
      cases has
      exact absurd hi hne
  | cons a as ih =>
      obtain ⟨s₁, h₁, hrest⟩ := steps_cons_iff.1 has
      by_cases hi₁ : s₁.callers[i]? = some stage
      · obtain ⟨before, after, x, y, stage', s₂, rfl, hb, h⟩ := ih hi₁ hrest
        exact ⟨a :: before, after, x, y, stage', s₂, rfl, steps_cons_iff.2 ⟨s₁, h₁, hb⟩, h⟩
      · rcases caller_of_step hi h₁ with hi' | ⟨rfl, stage', s₂, hadv, hs₁, hi'⟩
        · exact absurd hi' hi₁
        · refine ⟨[], as, s, s₁, stage', s₂, rfl, rfl, hi, h₁, hrest, hadv, hs₁, hi', ?_⟩
          rintro rfl
          exact hi₁ hi'

end Callers

section Telling

/-- A command was handled in a run, in the pass that led from one system to another. -/
def HandledAmid (s : System) (as : List Action) (k : Ticket) (c : Command) (reply : Reply)
    (x y : System) : Prop :=
  ∃ before after heard, as = before ++ .work :: after ∧ s.steps before = some x ∧
    x.step .work = some y ∧
    passes y.journal = passes x.journal ++ [(x.now, ⟨.handled k c reply, heard⟩)]

/-- What an answer tells about a command that was submitted under a ticket before a run. -/
inductive Tells (s : System) (as : List Action) (k : Ticket) (c : Command) : Reply → Prop
  /-- The command moved the tracker to a phase, which was published. -/
  | accepted {x y : System} (h : s.HandledAmid as k c (.ok y.machine.phase) x y)
      (ht : x.machine.tracker.handle x.machine.timing x.now c = .ok y.machine.tracker)
      (hp : y.machine.tracker.phase = y.machine.phase) : Tells s as k c (.ok y.machine.phase)
  /-- The worker refused the command for the phase of the tracker, and changed neither. -/
  | refused {x y : System} {fault : Fault} (h : s.HandledAmid as k c (.error fault) x y)
      (hf : fault = .contractViolation c.operation x.machine.tracker.phase ∨
        fault = .stateTimeout x.machine.tracker.phase)
      (ht : y.machine.tracker = x.machine.tracker) (hp : y.machine.phase = x.machine.phase) :
      Tells s as k c (.error fault)
  /-- The command was not handled and never will be. -/
  | lost (h : ∀ as' s', s.steps (as ++ as') = some s' → k ∉ Pass.tickets (passes s'.journal)) :
      Tells s as k c (.error .notRunning)
  /-- The command had not been handled when its caller gave up. It may be later, if it lay in the slot. -/
  | unheard {before after : List Action} {x : System} (has : as = before ++ after)
      (hx : s.steps before = some x) (hn : k ∉ Pass.tickets (passes x.journal))
      (hb : x.machine.mailbox.slot = .full k c ∨ x.Gone k) :
      Tells s as k c (.error (.stateChangeTimeout x.machine.settings.stateChangeLimit))

variable {s x y : System} {as as' : List Action} {a : Action} {k : Ticket} {c : Command}
  {reply : Reply} {b : Party} {p : Pending}

theorem HandledAmid.append (h : s.HandledAmid as k c reply x y) :
    s.HandledAmid (as ++ as') k c reply x y := by
  obtain ⟨before, after, heard, rfl, hb, hw, hj⟩ := h
  exact ⟨before, after ++ as', heard, by simp, hb, hw, hj⟩

/-- What an answer tells stays true. -/
theorem Tells.append (h : s.Tells as k c reply) : s.Tells (as ++ as') k c reply := by
  cases h with
  | accepted h ht hp => exact .accepted h.append ht hp
  | refused h hf ht hp => exact .refused h.append hf ht hp
  | lost h =>
      refine .lost fun as'' s' hs => h (as' ++ as'') s' ?_
      rw [← List.append_assoc]
      exact hs
  | @unheard before after _ has hx hn hb =>
      have has' : as ++ as' = before ++ (after ++ as') := by
        rw [has, List.append_assoc]
      exact .unheard has' hx hn hb

/-- A reply that was fetched is the one that the worker gave. -/
theorem hasHandled_of_pursue {m : Machine Observer} {phase : Phase} (ht : x.Ticketed)
    (hx : x.pending? b = some p) (hp : x.machine.pursue p x.now = some (some (.ok phase), m)) :
    x.HasHandled p.ticket p.command (.ok phase) := by
  generalize hreply : some (Except.ok phase : Reply) = reply? at hp
  cases Machine.pursues_of_pursue hp with
  | learns hr =>
      cases hreply
      obtain ⟨c, hh⟩ := ht.replies _ _ hr
      rw [← (ht.told b p c _ hx hh).1]
      exact hh
  | _ => cases hreply

/-- A command that the journal says was handled, in the run in which it was. -/
theorem tells_of_hasHandled (hs : s.Reachable) (hnew : ¬ s.HasHandled k c reply) (has : s.steps as = some x)
    (hh : x.HasHandled k c reply) : s.Tells as k c reply := by
  obtain ⟨⟨now, turn⟩, hx, hd⟩ := hh
  have hnew' : (now, turn) ∉ passes s.journal := fun hx' => hnew ⟨_, hx', hd⟩
  obtain ⟨before, after, y, z, rfl, hb, hw, -, rfl, hworks⟩ := exists_work_of_passes has hx hnew'
  obtain ⟨deed, heard⟩ := turn
  cases hd
  have hamid : s.HandledAmid (before ++ .work :: after) k c reply y z :=
    ⟨before, after, heard, rfl, hb, hw, hworks.passes⟩
  cases reply with
  | ok phase =>
      obtain ⟨rfl, ht⟩ := hworks.machine.moves_of_accepted
      have hphase : z.machine.phase = z.machine.tracker.phase :=
        hworks.machine.phase_eq (hs.steps hb).sound.phase
      rw [← hphase] at hamid ⊢
      exact .accepted hamid (Tracker.handle_eq_ok_iff.2 ht) hphase.symm
  | error fault =>
      obtain ⟨hf, ht, hp⟩ := hworks.machine.of_refused
      exact .refused hamid (Phase.eq_of_refusal? hf) ht hp

/-- **Whoever learns a reply learns the truth.** -/
theorem tells_of_learns (hs : s.Reachable) (hnew : ∀ c reply, ¬ s.HasHandled p.ticket c reply)
    (has : s.steps as = some x) (hx : x.pending? b = some p) (ha : x.step a = some y)
    (hne : a ≠ .work) (hp : x.machine.pursue p x.now = some (some reply, y.machine)) :
    s.Tells (as ++ [a]) p.ticket p.command reply := by
  have ht := (hs.steps has).ticketed
  have hty := ht.of_step ha
  have hj : passes y.journal = passes x.journal := (step_spares hne ha).passes
  have hrun : s.steps (as ++ [a]) = some y := steps_concat_iff.2 ⟨x, has, ha⟩
  -- without a reply to fetch, the command was not handled so far
  have hnone (hr : ∀ reply, (p.ticket, reply) ∉ x.machine.replies) :
      p.ticket ∉ Pass.tickets (passes y.journal) := by
    rw [hj, mem_tickets_iff]
    rintro ⟨c, reply, hh⟩
    exact hr reply (ht.told b p c reply hx hh).2
  have hgiven := ht.pending b p hx
  generalize hm : y.machine = m at hp
  cases Machine.pursues_of_pursue hp with
  | learns hr =>
      obtain ⟨c, hh⟩ := ht.replies _ _ hr
      obtain ⟨rfl, -⟩ := ht.told b p c reply hx hh
      exact (tells_of_hasHandled hs (hnew _ _) has hh).append
  | lost hr hc =>
      have hgone : Gone p.ticket y := by
        refine ⟨by rw [hm]; exact hgiven, fun c => ?_⟩
        rw [hm, ht.closed hc]
        exact List.not_mem_nil
      refine .lost fun as' s' hs' hk => ?_
      obtain ⟨y', hy', hs'⟩ := steps_append_iff.1 hs'
      obtain rfl := Option.some.inj (hrun.symm.trans hy')
      obtain ⟨c, reply, hh⟩ := mem_tickets_iff.1 hk
      exact hnone hr (mem_tickets_iff.2 ⟨c, reply, hgone.hasHandled_of_steps hs' hh⟩)
  | givesUp hr hn =>
      have hnodup : x.machine.mailbox.tickets.Nodup := (List.nodup_append.1 ht.nodup).1
      have hlast : y.machine.mailbox.slot = .full p.ticket p.command ∨ y.Gone p.ticket := by
        rw [hm]
        rcases Mailbox.withdraw_cases p.ticket hnodup with ⟨c, hc⟩ | hc
        · have hmem : (p.ticket, c) ∈ x.machine.mailbox.contents := by
            refine (Mailbox.contents_withdraw_sublist x.machine.mailbox p.ticket).subset ?_
            simp [Mailbox.contents, hc, Slot.held?]
          rw [← ht.own b p c hx hmem]
          exact .inl hc
        · refine .inr ⟨?_, ?_⟩ <;> rw [hm]
          · exact Mailbox.nextTicket_withdraw (b := x.machine.mailbox) ▸ hgiven
          · exact hc
      have hset : y.machine.settings = x.machine.settings := by
        rw [hm]
        rfl
      rw [← hset]
      exact .unheard (List.append_nil _).symm hrun (hnone hr) hlast

end Telling

section Answers

variable {s s' s₁ : System} {as : List Action} {i : Nat} {k : Ticket} {c : Command} {call : Call}
  {p : Pending} {t due : Instant} {answer : Answer}

theorem begin_of_command? (h : call.command? s.now = some c) : s.begin call = s.command c := by
  cases call with
  | newRequest | confirmation | response | reset =>
      cases h
      rfl
  | receive frame receivedAt =>
      simp only [Call.command?] at h
      cases hd : Incoming.decode frame with
      | ok incoming =>
          rw [hd] at h
          cases h
          simp only [begin, hd]
      | error fault =>
          rw [hd] at h
          cases h
  | _ => cases h

/-- What holds of a command at the end of a run since it was submitted by a caller. -/
structure Accounts (s : System) (i : Nat) (k : Ticket) (c : Command) (as : List Action)
    (s' : System) : Prop where
  /-- Under the ticket of the command, nothing was handled twice. -/
  once : (Pass.tickets (passes s'.journal)).count k ≤ 1
  own : ∀ c' reply, s'.HasHandled k c' reply → c' = c
  answer : ∀ t answer, s'.callers[i]? = some (.finished t answer) →
    ∃ reply, answer = .ofReply c reply ∧ s.Tells as k c reply

theorem accounts_of_commanding (hs : s.Reachable) (hi : s.callers[i]? = some (.commanding p))
    (hmem : (p.ticket, p.command) ∈ s.machine.mailbox.contents) (has : s.steps as = some s') :
    s.Accounts i p.ticket p.command as s' := by
  have ht := hs.ticketed
  have hx {s : System} (hi : s.callers[i]? = some (.commanding p)) :
      s.pending? (.caller i) = some p := pending?_caller hi
  have hnew : ∀ c reply, ¬ s.HasHandled p.ticket c reply := fun _ _ => ht.not_hasHandled hmem
  have hbears : Bears p.ticket p.command s :=
    ⟨ht.pending _ p (hx hi), fun c' hc' => ht.own _ p c' (hx hi) hc',
      fun c' reply hh => absurd hh (hnew c' reply)⟩
  refine ⟨(hs.steps has).ticketed.count_le_one _, (hbears.of_steps has).handled,
    fun t answer ha => ?_⟩
  obtain ⟨before, after, x, y, stage', s₁, rfl, hb, hi', hstep, hafter, hadv, rfl, hy, hne⟩ :=
    exists_advance_of_steps hi has (by simp [ha])
  obtain ⟨⟨reply, m⟩, hp, hm⟩ := Option.map_eq_some_iff.1 hadv
  cases reply with
  | none =>
      cases hm
      exact absurd rfl hne
  | some reply =>
      cases hm
      have ha' := finished_of_steps hy hafter
      rw [ha] at ha'
      cases ha'
      refine ⟨reply, rfl, ?_⟩
      have htells := tells_of_learns hs hnew hb (hx hi') hstep (by simp) hp
      have htells' : s.Tells ((before ++ [.resume i]) ++ after) p.ticket p.command reply :=
        htells.append
      simpa using htells'

/-- **Replies agree with effects**: a call that asks for a command is refused at once by a machine that
does not run, or it submits the command and then ends with an answer that is true of it. -/
theorem accounts_of_command (hs : s.Reachable) (hi : s.callers[i]? = some (.planned due call))
    (hc : call.command? s.now = some c) (h₁ : s.step (.resume i) = some s₁) :
    (s₁.callers[i]? = some (.finished s.now (.refused .notRunning)) ∧ s₁.machine = s.machine) ∨
      ∃ k giveUp, s₁.callers[i]? = some (.commanding ⟨k, c, giveUp⟩) ∧
        (k, c) ∈ s₁.machine.mailbox.contents ∧ k ∉ Pass.tickets (passes s₁.journal) ∧
        ∀ as s', s₁.steps as = some s' → s₁.Accounts i k c as s' := by
  obtain ⟨stage, hi', hresume⟩ := Option.bind_eq_some_iff.1 h₁
  rw [hi] at hi'
  cases hi'
  obtain ⟨⟨stage', s₂⟩, hadv, rfl⟩ := Option.map_eq_some_iff.1 hresume
  have hlt : i < s.callers.length := (List.getElem?_eq_some_iff.1 hi).1
  have hbegin : s.command c = (stage', s₂) := by
    simp only [advance] at hadv
    split at hadv
    · rw [← begin_of_command? hc]
      exact Option.some.inj hadv
    · cases hadv
  rcases command_cases hbegin with ⟨p, m, hm, rfl, rfl⟩ | ⟨rfl, rfl⟩
  · obtain ⟨-, rfl, rfl⟩ := Machine.submit_eq_ok hm
    have hcaller := List.getElem?_set_self (a := Stage.commanding ⟨s.machine.mailbox.nextTicket, c,
      s.now + s.machine.settings.stateChangeLimit⟩) hlt
    have hmem : (s.machine.mailbox.nextTicket, c) ∈ (s.machine.mailbox.submit c).contents :=
      Mailbox.contents_submit_perm.symm.subset List.mem_cons_self
    have hfresh : s.machine.mailbox.nextTicket ∉ Pass.tickets (passes s.journal) := fun hk =>
      Nat.lt_irrefl _ (hs.ticketed.fresh _ (List.mem_append_right _ hk))
    exact .inr ⟨_, _, hcaller, hmem, hfresh, fun as s' has =>
      accounts_of_commanding (hs.step h₁) hcaller hmem has⟩
  · exact .inl ⟨List.getElem?_set_self hlt, rfl⟩

/-- Of two callers that announce a request, the second finds the slot taken, and then the channel. -/
theorem accounts_of_command_in_queue :
    ∃ s s₁ s' : System, s.Reachable ∧
      s.callers[2]? = some (.planned 0 (.newRequest ⟨.node 2, 0, 0, 0, []⟩)) ∧
      s.step (.resume 2) = some s₁ ∧
      s₁.steps [.work, .resume 2, .work, .resume 2] = some s' ∧
      s'.callers[2]? = some (.finished 0
        (.refused (.contractViolation .newRequest .waitingForConfirmation))) ∧
      ((s₁.callers[2]? = some (.finished s.now (.refused .notRunning)) ∧ s₁.machine = s.machine) ∨
        ∃ k giveUp, s₁.callers[2]? =
            some (.commanding ⟨k, .newRequest ⟨.node 2, 0, 0, 0, []⟩, giveUp⟩) ∧
          (k, .newRequest ⟨.node 2, 0, 0, 0, []⟩) ∈ s₁.machine.mailbox.contents ∧
          k ∉ Pass.tickets (passes s₁.journal) ∧
          ∀ as s', s₁.steps as = some s' →
            s₁.Accounts 2 k (.newRequest ⟨.node 2, 0, 0, 0, []⟩) as s') := by
  obtain ⟨s₀, hs₀, hrun⟩ : ∃ s₀, Setup.assemble {} = .ok s₀ ∧
      ((s₀.steps [.call 0 (.start true), .resume 0, .call 0 (.newRequest ⟨.node 1, 0, 0, 0, []⟩),
        .call 0 (.newRequest ⟨.node 2, 0, 0, 0, []⟩), .resume 1]).any fun s =>
          s.callers[2]? = some (.planned 0 (.newRequest ⟨.node 2, 0, 0, 0, []⟩)) ∧
          (s.step (.resume 2)).any fun s₁ =>
            (s₁.steps [.work, .resume 2, .work, .resume 2]).any fun s' =>
              s'.callers[2]? = some (.finished 0
                (.refused (.contractViolation .newRequest .waitingForConfirmation)))) = true :=
    ⟨_, rfl, by decide +kernel⟩
  obtain ⟨s, hs, hrun⟩ := (Option.any_eq_true _ _).1 hrun
  obtain ⟨hi, hrun⟩ := of_decide_eq_true hrun
  obtain ⟨s₁, h₁, hrun⟩ := (Option.any_eq_true _ _).1 hrun
  obtain ⟨s', hs', hrun⟩ := (Option.any_eq_true _ _).1 hrun
  have hr : s.Reachable := ⟨{}, s₀, _, hs₀, hs⟩
  exact ⟨s, s₁, s', hr, hi, h₁, hs', of_decide_eq_true hrun, accounts_of_command hr hi rfl h₁⟩

/-- A command whose caller has given up may be handled all the same. -/
example : ∃ s₀, Setup.assemble {} = .ok s₀ ∧
    ((s₀.steps [.call 0 (.start true), .resume 0, .call 0 (.newRequest ⟨.node 1, 0, 0, 0, []⟩),
      .resume 1, .elapse s₀.machine.settings.stateChangeLimit, .resume 1, .work]).any fun s =>
        s.callers[1]? = some (.finished s.now
          (.refused (.stateChangeTimeout s₀.machine.settings.stateChangeLimit))) ∧
        s.machine.phase = .waitingForConfirmation) = true :=
  ⟨_, rfl, by decide +kernel⟩

end Answers

end System
end MeshExchange
