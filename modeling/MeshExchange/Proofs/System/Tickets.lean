import Mathlib.Data.List.Nodup
import Mathlib.Data.List.Pairwise
import Mathlib.Data.List.Perm.Subperm
import MeshExchange.Proofs.System.Parties
import MeshExchange.Proofs.System.Runs

/-!
# Tickets

Every command that is submitted gets a ticket of its own, under which it lies in the mailbox, is handled
at most once, and is answered. Nobody else fetches the reply that a party waits for.

**Method.** `System.Ticketed` ties the mailbox, the replies, the journal and the parties together. A step
of a party either submits a command under the next ticket or leaves less in the mailbox than before; the
worker moves one ticket from the mailbox to the journal.

**Results.**
* `System.HasHandled`: the commands that the journal says were handled, with their replies;
* `System.Ticketed`, `System.Reachable.ticketed`: what holds of tickets in every run;
* `System.Onward`, `System.onward_of_step`: nothing comes in under a ticket that was given out;
* `System.Gone.hasHandled_of_steps`: what has left the mailbox is not handled any more.
-/

namespace MeshExchange

namespace Pass

/-- The ticket of the command that was handled in a pass. -/
def ticket? (x : Pass) : Option Ticket :=
  match x.2.deed with
  | .handled ticket _ _ => some ticket
  | _ => none

/-- The tickets of the commands that were handled. -/
def tickets (h : List Pass) : List Ticket := h.filterMap ticket?

@[simp] theorem tickets_append (h h' : List Pass) : tickets (h ++ h') = tickets h ++ tickets h' := by
  simp [tickets]

end Pass

namespace System

/-- The journal says that a command was handled under a ticket, and how it was answered. -/
def HasHandled (s : System) (k : Ticket) (c : Command) (reply : Reply) : Prop :=
  ∃ x ∈ passes s.journal, x.2.deed = .handled k c reply

section Handled

variable {s s' : System} {k : Ticket} {c c' : Command} {reply reply' : Reply}

theorem mem_tickets_iff :
    k ∈ Pass.tickets (passes s.journal) ↔ ∃ c reply, s.HasHandled k c reply := by
  simp only [Pass.tickets, List.mem_filterMap]
  constructor
  · rintro ⟨x, hx, hk⟩
    unfold Pass.ticket? at hk
    split at hk
    · next ticket c reply hd =>
        cases hk
        exact ⟨c, reply, x, hx, hd⟩
    · cases hk
  · rintro ⟨c, reply, x, hx, hd⟩
    exact ⟨x, hx, by rw [Pass.ticket?, hd]⟩

theorem hasHandled_congr (h : passes s'.journal = passes s.journal) :
    s'.HasHandled k c reply ↔ s.HasHandled k c reply := by
  rw [HasHandled, HasHandled, h]

theorem hasHandled_of_worksTo {turn : Turn Observer} (hw : s.WorksTo turn s') :
    s'.HasHandled k c reply ↔ s.HasHandled k c reply ∨ turn.deed = .handled k c reply := by
  unfold HasHandled
  rw [hw.passes]
  constructor
  · rintro ⟨x, hx, hd⟩
    rcases List.mem_append.1 hx with hx | hx
    · exact .inl ⟨x, hx, hd⟩
    · obtain rfl := List.mem_singleton.1 hx
      exact .inr hd
  · rintro (⟨x, hx, hd⟩ | hd)
    · exact ⟨x, List.mem_append_left _ hx, hd⟩
    · exact ⟨(s.now, turn), by simp, hd⟩

theorem HasHandled.of_step {a : Action} (h : s.HasHandled k c reply) (hs : s.step a = some s') :
    s'.HasHandled k c reply := by
  rcases passes_of_step hs with ⟨-, hp⟩ | ⟨turn, -, hw⟩
  · exact (hasHandled_congr hp).2 h
  · exact (hasHandled_of_worksTo hw).2 (.inl h)

theorem HasHandled.of_steps {as : List Action} (h : s.HasHandled k c reply)
    (hs : s.steps as = some s') : s'.HasHandled k c reply :=
  kept_of_steps (P := fun s => s.HasHandled k c reply) (fun _ _ _ h hs => h.of_step hs) h hs

end Handled

/-- What holds of tickets in every run. -/
structure Ticketed (s : System) : Prop where
  nodup : (s.machine.mailbox.tickets ++ Pass.tickets (passes s.journal)).Nodup
  fresh : ∀ k ∈ s.machine.mailbox.tickets ++ Pass.tickets (passes s.journal),
    k < s.machine.mailbox.nextTicket
  pending : ∀ x p, s.pending? x = some p → p.ticket < s.machine.mailbox.nextTicket
  distinct : ∀ x y p q, s.pending? x = some p → s.pending? y = some q → p.ticket = q.ticket → x = y
  /-- Under the ticket of a party there is no command but its own. -/
  own : ∀ x p c, s.pending? x = some p → (p.ticket, c) ∈ s.machine.mailbox.contents →
    c = p.command
  /-- A party that still waits finds the reply once its command was handled. -/
  told : ∀ x p c reply, s.pending? x = some p → s.HasHandled p.ticket c reply →
    c = p.command ∧ (p.ticket, reply) ∈ s.machine.replies
  replies : ∀ k reply, (k, reply) ∈ s.machine.replies → ∃ c, s.HasHandled k c reply
  closed : s.machine.status.isClosed = true → s.machine.mailbox.contents = []

namespace Ticketed

variable {s s' : System}

/-- What lies in the mailbox was not handled yet. -/
theorem not_hasHandled {k : Ticket} {c c' : Command} {reply : Reply} (h : s.Ticketed)
    (hk : (k, c) ∈ s.machine.mailbox.contents) : ¬ s.HasHandled k c' reply := fun hh =>
  (List.nodup_append.1 h.nodup).2.2 k (List.mem_map_of_mem hk) k (mem_tickets_iff.2 ⟨_, _, hh⟩) rfl

/-- Less lies in the mailbox than before, fewer parties wait, and those still find their replies. -/
theorem mono (h : s.Ticketed)
    (hb : s'.machine.mailbox.contents.Sublist s.machine.mailbox.contents)
    (hn : s'.machine.mailbox.nextTicket = s.machine.mailbox.nextTicket)
    (hj : Pass.tickets (passes s'.journal) = Pass.tickets (passes s.journal))
    (hd : ∀ {k c reply}, s'.HasHandled k c reply ↔ s.HasHandled k c reply)
    (hp : ∀ x p, s'.pending? x = some p → s.pending? x = some p)
    (hr : ∀ x ∈ s'.machine.replies, x ∈ s.machine.replies)
    (hr' : ∀ x p reply, s'.pending? x = some p → (p.ticket, reply) ∈ s.machine.replies →
      (p.ticket, reply) ∈ s'.machine.replies)
    (hc : s'.machine.status.isClosed = true → s'.machine.mailbox.contents = []) :
    s'.Ticketed := by
  have ht : (s'.machine.mailbox.tickets ++ Pass.tickets (passes s'.journal)).Sublist
      (s.machine.mailbox.tickets ++ Pass.tickets (passes s.journal)) := by
    rw [hj]
    exact (hb.map _).append_right _
  constructor
  · exact h.nodup.sublist ht
  · intro k hk
    rw [hn]
    exact h.fresh k (ht.subset hk)
  · intro x p hx
    rw [hn]
    exact h.pending x p (hp x p hx)
  · intro x y p q hx hy
    exact h.distinct x y p q (hp x p hx) (hp y q hy)
  · intro x p c hx hm
    exact h.own x p c (hp x p hx) (hb.subset hm)
  · intro x p c reply hx hh
    obtain ⟨rfl, hm⟩ := h.told x p c reply (hp x p hx) (hd.1 hh)
    exact ⟨rfl, hr' x p reply hx hm⟩
  · intro k reply hm
    obtain ⟨c, hh⟩ := h.replies k reply (hr _ hm)
    exact ⟨c, hd.2 hh⟩
  · exact hc

/-- Where one party has learnt what became of its command, the others wait for other tickets. -/
theorem others_of_learns (h : s.Ticketed) {x y : Party} {p q : Pending}
    (hx : s.pending? x = some p) (hp : s'.pending? = Function.update s.pending? x none)
    (hy : s'.pending? y = some q) : s.pending? y = some q ∧ q.ticket ≠ p.ticket := by
  rw [hp] at hy
  by_cases hyx : y = x
  · subst hyx
    rw [Function.update_self] at hy
    cases hy
  · rw [Function.update_of_ne hyx] at hy
    exact ⟨hy, fun ht => hyx (h.distinct y x q p hy hx ht)⟩

theorem of_submits (h : s.Ticketed) {x : Party} {c : Command} {p : Pending}
    (hm : s.machine.submit c s.now = .ok (p, s'.machine))
    (hp : s'.pending? = Function.update s.pending? x (some p))
    (hj : passes s'.journal = passes s.journal) : s'.Ticketed := by
  obtain ⟨hs, rfl, hmachine⟩ := Machine.submit_eq_ok hm
  have hn : s'.machine.mailbox.nextTicket = s.machine.mailbox.nextTicket + 1 := by
    rw [hmachine]
    exact Mailbox.nextTicket_submit
  have hb : s'.machine.mailbox.contents.Perm
      ((s.machine.mailbox.nextTicket, c) :: s.machine.mailbox.contents) := by
    rw [hmachine]
    exact Mailbox.contents_submit_perm
  have hr : s'.machine.replies = s.machine.replies := by
    rw [hmachine]
  have ht : (s'.machine.mailbox.tickets ++ Pass.tickets (passes s'.journal)).Perm
      (s.machine.mailbox.nextTicket ::
        (s.machine.mailbox.tickets ++ Pass.tickets (passes s.journal))) := by
    rw [hj]
    exact (hb.map _).append_right _
  have hd {k c reply} : s'.HasHandled k c reply ↔ s.HasHandled k c reply := hasHandled_congr hj
  -- whoever waits in `s'` waited in `s`, or has just submitted the new command
  have hwho {y : Party} {q : Pending} (hy : s'.pending? y = some q) :
      (y = x ∧ q = ⟨s.machine.mailbox.nextTicket, c, s.now + s.machine.settings.stateChangeLimit⟩) ∨
        (y ≠ x ∧ s.pending? y = some q ∧ q.ticket < s.machine.mailbox.nextTicket) := by
    rw [hp] at hy
    by_cases hyx : y = x
    · subst hyx
      rw [Function.update_self] at hy
      exact .inl ⟨rfl, (Option.some.inj hy).symm⟩
    · rw [Function.update_of_ne hyx] at hy
      exact .inr ⟨hyx, hy, h.pending y q hy⟩
  have hnew {c reply} : ¬ s.HasHandled s.machine.mailbox.nextTicket c reply := by
    intro hh
    have hk := h.fresh _ (List.mem_append_right _ (mem_tickets_iff.2 ⟨c, reply, hh⟩))
    exact Nat.lt_irrefl _ hk
  constructor
  · rw [ht.nodup_iff, List.nodup_cons]
    refine ⟨fun hk => ?_, h.nodup⟩
    exact Nat.lt_irrefl _ (h.fresh _ hk)
  · intro k hk
    rw [hn]
    rcases List.mem_cons.1 (ht.subset hk) with rfl | hk
    · exact Nat.lt_succ_self _
    · exact Nat.lt_succ_of_lt (h.fresh k hk)
  · intro y q hy
    rw [hn]
    rcases hwho hy with ⟨-, rfl⟩ | ⟨-, -, hlt⟩
    · exact Nat.lt_succ_self _
    · exact Nat.lt_succ_of_lt hlt
  · intro y z q r hy hz hqr
    rcases hwho hy with ⟨rfl, rfl⟩ | ⟨-, hy, hlt⟩ <;> rcases hwho hz with ⟨rfl, rfl⟩ | ⟨-, hz, hlt'⟩
    · rfl
    · rw [← hqr] at hlt'
      exact absurd hlt' (Nat.lt_irrefl _)
    · rw [hqr] at hlt
      exact absurd hlt (Nat.lt_irrefl _)
    · exact h.distinct y z q r hy hz hqr
  · intro y q c' hy hq
    rcases hwho hy with ⟨-, rfl⟩ | ⟨-, hy, hlt⟩
    · rcases List.mem_cons.1 (hb.subset hq) with hq | hq
      · cases hq
        rfl
      · have hk := h.fresh _ (List.mem_append_left _ (List.mem_map_of_mem hq))
        exact absurd hk (Nat.lt_irrefl _)
    · rcases List.mem_cons.1 (hb.subset hq) with hq | hq
      · have hk : q.ticket = s.machine.mailbox.nextTicket := congrArg Prod.fst hq
        rw [hk] at hlt
        exact absurd hlt (Nat.lt_irrefl _)
      · exact h.own y q c' hy hq
  · intro y q c' reply hy hh
    rcases hwho hy with ⟨-, rfl⟩ | ⟨-, hy, -⟩
    · exact absurd (hd.1 hh) hnew
    · rw [hr]
      exact h.told y q c' reply hy (hd.1 hh)
  · intro k reply hk
    rw [hr] at hk
    obtain ⟨c', hh⟩ := h.replies k reply hk
    exact ⟨c', hd.2 hh⟩
  · intro hc
    rw [hmachine] at hc
    simp [hs, Status.isClosed] at hc

theorem of_deals (h : s.Ticketed) (hdeal : s.Deals s') (hj : passes s'.journal = passes s.journal) :
    s'.Ticketed := by
  have htickets : Pass.tickets (passes s'.journal) = Pass.tickets (passes s.journal) := by
    rw [hj]
  have hd {k c reply} : s'.HasHandled k c reply ↔ s.HasHandled k c reply := hasHandled_congr hj
  cases hdeal with
  | rests hq hp =>
      have hb := Mailbox.contents_sublist_of_closed hq.mailbox
      refine h.mono hb.1 hb.2 htickets hd (fun x p hx => hp ▸ hx) (fun x hx => hq.replies ▸ hx)
        (fun x p reply _ hx => hq.replies ▸ hx) fun hc => ?_
      rcases hq.dropped hc with hc' | hc'
      · have hnil := hb.1
        rw [h.closed hc'] at hnil
        exact List.sublist_nil.1 hnil
      · exact hc'
  | submits hx hm hp => exact h.of_submits hm hp hj
  | handsIn hx hm hp =>
      generalize hm' : s'.machine = m' at hm
      cases Machine.pursues_of_pursue hm with
      | handsIn hb =>
          obtain ⟨hb, hn⟩ := Mailbox.handIn?_eq_some hb
          refine h.mono ?_ ?_ htickets hd (fun x p hx => hp ▸ hx) ?_ ?_ ?_ <;> rw [hm']
          · rw [hb]
          · exact hn
          · exact fun x hx => hx
          · exact fun x p reply _ hx => hx
          · intro hc
            rw [hb]
            exact h.closed hc
  | @learns x p reply hx hm hp =>
      have hp' : ∀ y q, s'.pending? y = some q → s.pending? y = some q := fun y q hy =>
        (h.others_of_learns hx hp hy).1
      generalize hm' : s'.machine = m' at hm
      cases Machine.pursues_of_pursue hm with
      | learns hreply =>
          refine h.mono ?_ ?_ htickets hd hp' ?_ ?_ ?_ <;> rw [hm']
          · exact .refl _
          · rfl
          · exact fun y hy => (List.mem_filter.1 hy).1
          · intro y q reply' hy hq
            refine List.mem_filter.2 ⟨hq, ?_⟩
            simpa using (h.others_of_learns hx hp hy).2
          · exact h.closed
      | lost =>
          refine h.mono ?_ ?_ htickets hd hp' ?_ ?_ ?_ <;> rw [hm']
          · exact fun y hy => hy
          · exact fun y q reply' _ hq => hq
          · exact h.closed
      | givesUp =>
          refine h.mono ?_ ?_ htickets hd hp' ?_ ?_ ?_ <;> rw [hm']
          · exact Mailbox.contents_withdraw_sublist _ _
          · exact Mailbox.nextTicket_withdraw
          · exact fun y hy => hy
          · exact fun y q reply' _ hq => hq
          · intro hc
            have hnil := Mailbox.contents_withdraw_sublist s.machine.mailbox p.ticket
            rw [h.closed hc] at hnil
            exact List.sublist_nil.1 hnil

/-- The worker moves one command at most from the mailbox to the journal. -/
theorem of_worksTo (h : s.Ticketed) {turn : Turn Observer} (hw : s.WorksTo turn s')
    (hp : s'.pending? = s.pending?) : s'.Ticketed := by
  obtain ⟨hcases, hclosed⟩ := hw.machine.mail_cases
  rcases hcases with ⟨hno, hb, hr⟩ | ⟨k, c, reply, mailbox, hdeed, htake, hb, hr⟩
  · have hticket : Pass.ticket? (s.now, turn) = none := by
      unfold Pass.ticket?
      split
      · next hdeed => exact absurd hdeed (hno _ _ _)
      · rfl
    obtain ⟨hsub, hnext⟩ := Mailbox.contents_sublist_of_closed hb
    refine h.mono hsub hnext ?_ ?_ (fun x p hx => hp ▸ hx) (fun x hx => hr ▸ hx)
      (fun x p reply _ hx => hr ▸ hx) hclosed
    · rw [hw.passes, Pass.tickets_append]
      simp [Pass.tickets, hticket]
    · intro k c reply
      rw [hasHandled_of_worksTo hw]
      simp [hno]
  · have hcontents := (Mailbox.contents_of_take? htake).1
    have hsub := (Mailbox.contents_sublist_of_closed hb).1
    have hnext := hw.machine.nextTicket_eq
    have hjournal : Pass.tickets (passes s'.journal) = Pass.tickets (passes s.journal) ++ [k] := by
      rw [hw.passes, Pass.tickets_append]
      simp [Pass.tickets, Pass.ticket?, hdeed]
    have hd {k' c' reply'} : s'.HasHandled k' c' reply' ↔
        s.HasHandled k' c' reply' ∨ (k = k' ∧ c = c' ∧ reply = reply') := by
      rw [hasHandled_of_worksTo hw, hdeed]
      simp
    have ht : (s'.machine.mailbox.tickets ++ Pass.tickets (passes s'.journal)).Subperm
        (s.machine.mailbox.tickets ++ Pass.tickets (passes s.journal)) := by
      rw [hjournal, Mailbox.tickets, Mailbox.tickets, hcontents, ← List.append_assoc]
      refine ((List.perm_append_singleton _ _).subperm_right).2 ?_
      exact (((hsub.map _).append_right _).cons_cons k).subperm
    -- the ticket that was handled had been neither handled nor answered before
    have hfirst {c' reply'} : ¬ s.HasHandled k c' reply' :=
      h.not_hasHandled (hcontents ▸ List.mem_cons_self)
    constructor
    · obtain ⟨l, hl, hs⟩ := ht
      exact hl.nodup_iff.1 (h.nodup.sublist hs)
    · intro k' hk
      rw [hnext]
      exact h.fresh k' (ht.subset hk)
    · intro x p hx
      rw [hnext]
      exact h.pending x p (hp ▸ hx)
    · intro x y p q hx hy
      exact h.distinct x y p q (hp ▸ hx) (hp ▸ hy)
    · intro x p c' hx hm
      refine h.own x p c' (hp ▸ hx) ?_
      rw [hcontents]
      exact List.mem_cons_of_mem _ (hsub.subset hm)
    · intro x p c' reply' hx hh
      rw [hr]
      rcases hd.1 hh with hh | ⟨rfl, rfl, rfl⟩
      · obtain ⟨rfl, hm⟩ := h.told x p c' reply' (hp ▸ hx) hh
        exact ⟨rfl, List.mem_append_left _ hm⟩
      · refine ⟨h.own x p c (hp ▸ hx) ?_, by simp⟩
        rw [hcontents]
        exact List.mem_cons_self
    · intro k' reply' hm
      rw [hr] at hm
      rcases List.mem_append.1 hm with hm | hm
      · obtain ⟨c', hh⟩ := h.replies k' reply' hm
        exact ⟨c', hd.2 (.inl hh)⟩
      · cases List.mem_singleton.1 hm
        exact ⟨c, hd.2 (.inr ⟨rfl, rfl, rfl⟩)⟩
    · exact hclosed

end Ticketed

section Runs

variable {s s' : System} {a : Action} {as : List Action}

theorem pending?_of_work (h : s.work = some s') : s'.pending? = s.pending? := by
  obtain ⟨⟨turn, m⟩, -, rfl⟩ := Option.map_eq_some_iff.1 h
  funext x
  cases x <;> rfl

theorem Ticketed.of_step (h : s.Ticketed) (hs : s.step a = some s') : s'.Ticketed := by
  by_cases ha : a = .work
  · subst ha
    obtain ⟨turn, hw⟩ := worksTo_of_work hs
    exact h.of_worksTo hw (pending?_of_work hs)
  · exact h.of_deals (deals_of_step ha hs) (step_spares ha hs).passes

theorem ticketed_of_assemble {setup : Setup} (h : setup.assemble = .ok s) : s.Ticketed := by
  obtain ⟨timing, status, listener, sendWait, resident, observers, -, hs, rfl⟩ :=
    exists_of_assemble h
  constructor
  · simp [Mailbox.tickets, Mailbox.contents, Slot.held?, passes, Pass.tickets]
  · simp [Mailbox.tickets, Mailbox.contents, Slot.held?, passes, Pass.tickets]
  · intro x p hx
    cases x <;> simp [pending?, Pump.pending?] at hx
  · intro x y p q hx
    cases x <;> simp [pending?, Pump.pending?] at hx
  · intro x p c hx
    cases x <;> simp [pending?, Pump.pending?] at hx
  · intro x p c reply hx
    cases x <;> simp [pending?, Pump.pending?] at hx
  · simp
  · intro _
    rfl

theorem Reachable.ticketed (h : s.Reachable) : s.Ticketed :=
  h.induct (fun _ _ => ticketed_of_assemble) fun _ _ _ _ h hs => h.of_step hs

/-- What is handled under a ticket is handled once. -/
theorem Ticketed.count_le_one (h : s.Ticketed) (k : Ticket) :
    (Pass.tickets (passes s.journal)).count k ≤ 1 :=
  List.nodup_iff_count_le_one.1 (List.nodup_append.1 h.nodup).2.1 k

/-- What is handled under a ticket has one reply. -/
theorem Ticketed.reply_unique {k : Ticket} {c c' : Command} {reply reply' : Reply} (hs : s.Ticketed)
    (h : s.HasHandled k c reply) (h' : s.HasHandled k c' reply') : reply = reply' := by
  have hnodup := (List.nodup_append.1 hs.nodup).2.1
  obtain ⟨x, hx, hd⟩ := h
  obtain ⟨y, hy, hd'⟩ := h'
  have hk : Pass.ticket? x = some k := by simp [Pass.ticket?, hd]
  have hk' : Pass.ticket? y = some k := by simp [Pass.ticket?, hd']
  obtain rfl : x = y := by
    by_contra hne
    have hsymm : Std.Symm fun x y : Pass =>
        ∀ k, x.ticket? = some k → ∀ k', y.ticket? = some k' → k ≠ k' :=
      ⟨fun _ _ h k hk k' hk' => (h k' hk' k hk).symm⟩
    exact (List.pairwise_filterMap.1 hnodup).forall hx hy hne k hk k hk' rfl
  exact (Deed.handled.inj (hd.symm.trans hd')).2.2

/-- What a step makes of tickets that were given out before it. -/
structure Onward (s s' : System) : Prop where
  given : s.machine.mailbox.nextTicket ≤ s'.machine.mailbox.nextTicket
  /-- Nothing comes in under a ticket that was given out before. -/
  contents : ∀ k c, k < s.machine.mailbox.nextTicket → (k, c) ∈ s'.machine.mailbox.contents →
    (k, c) ∈ s.machine.mailbox.contents
  /-- Nothing is handled but what lay in the mailbox. -/
  handled : ∀ k c reply, s'.HasHandled k c reply → s.HasHandled k c reply ∨
    (k, c) ∈ s.machine.mailbox.contents

theorem onward_of_sublist
    (hb : s'.machine.mailbox.contents.Sublist s.machine.mailbox.contents)
    (hn : s'.machine.mailbox.nextTicket = s.machine.mailbox.nextTicket)
    (hj : passes s'.journal = passes s.journal) : s.Onward s' where
  given := Nat.le_of_eq hn.symm
  contents := fun _ _ _ hk => hb.subset hk
  handled := fun _ _ _ hh => .inl ((hasHandled_congr hj).1 hh)

theorem onward_of_deals (hd : s.Deals s') (hj : passes s'.journal = passes s.journal) :
    s.Onward s' := by
  cases hd with
  | rests hq hp =>
      obtain ⟨hsub, hnext⟩ := Mailbox.contents_sublist_of_closed hq.mailbox
      exact onward_of_sublist hsub hnext hj
  | @submits x c p hx hm hp =>
      obtain ⟨-, -, hm⟩ := Machine.submit_eq_ok hm
      refine ⟨by simp [hm], fun k c' hk hmem => ?_, fun _ _ _ hh => .inl ((hasHandled_congr hj).1 hh)⟩
      rw [hm] at hmem
      rcases List.mem_cons.1 (Mailbox.contents_submit_perm.subset hmem) with heq | hmem
      · cases heq
        exact absurd hk (Nat.lt_irrefl _)
      · exact hmem
  | handsIn hx hm hp =>
      generalize hm' : s'.machine = m' at hm
      cases Machine.pursues_of_pursue hm with
      | handsIn hb =>
          obtain ⟨hb, hn⟩ := Mailbox.handIn?_eq_some hb
          exact onward_of_sublist (by rw [hm', hb]) (by rw [hm', hn]) hj
  | learns hx hm hp =>
      generalize hm' : s'.machine = m' at hm
      cases Machine.pursues_of_pursue hm with
      | learns => exact onward_of_sublist (by rw [hm']; exact .refl _) (by rw [hm']; rfl) hj
      | lost => exact onward_of_sublist (by rw [hm']) (by rw [hm']) hj
      | givesUp =>
          refine onward_of_sublist ?_ ?_ hj <;> rw [hm']
          · exact Mailbox.contents_withdraw_sublist _ _
          · exact Mailbox.nextTicket_withdraw

theorem onward_of_worksTo {turn : Turn Observer} (hw : s.WorksTo turn s') : s.Onward s' := by
  obtain ⟨hcases, -⟩ := hw.machine.mail_cases
  have hgiven := Nat.le_of_eq hw.machine.nextTicket_eq.symm
  rcases hcases with ⟨hno, hb, -⟩ | ⟨k, c, reply, mailbox, hdeed, htake, hb, -⟩
  · have hsub := (Mailbox.contents_sublist_of_closed hb).1
    refine ⟨hgiven, fun _ _ _ hk => hsub.subset hk, fun k c reply hh => .inl ?_⟩
    simpa [hno] using (hasHandled_of_worksTo hw).1 hh
  · have hsub := (Mailbox.contents_sublist_of_closed hb).1
    have hcontents := (Mailbox.contents_of_take? htake).1
    refine ⟨hgiven, fun k' c' _ hk => ?_, fun k' c' reply' hh => ?_⟩
    · rw [hcontents]
      exact List.mem_cons_of_mem _ (hsub.subset hk)
    · rcases (hasHandled_of_worksTo hw).1 hh with hh | hh
      · exact .inl hh
      · rw [hdeed] at hh
        cases hh
        rw [hcontents]
        exact .inr List.mem_cons_self

theorem onward_of_step (h : s.step a = some s') : s.Onward s' := by
  by_cases ha : a = .work
  · subst ha
    obtain ⟨turn, hw⟩ := worksTo_of_work h
    exact onward_of_worksTo hw
  · exact onward_of_deals (deals_of_step ha h) (step_spares ha h).passes

/-- Tickets are given out one after the other. -/
theorem nextTicket_le_of_steps (h : s.steps as = some s') :
    s.machine.mailbox.nextTicket ≤ s'.machine.mailbox.nextTicket :=
  kept_of_steps (P := fun x => s.machine.mailbox.nextTicket ≤ x.machine.mailbox.nextTicket)
    (fun _ _ _ hx hs => Nat.le_trans hx (onward_of_step hs).given) (Nat.le_refl _) h

/-- No command but `c` is or was on its way under a ticket. -/
structure Bears (k : Ticket) (c : Command) (s : System) : Prop where
  given : k < s.machine.mailbox.nextTicket
  contents : ∀ c', (k, c') ∈ s.machine.mailbox.contents → c' = c
  handled : ∀ c' reply, s.HasHandled k c' reply → c' = c

theorem Bears.of_steps {k : Ticket} {c : Command} (h : Bears k c s) (hs : s.steps as = some s') :
    Bears k c s' := by
  refine kept_of_steps (P := Bears k c) (fun s a s' h hs => ?_) h hs
  have ho := onward_of_step hs
  refine ⟨Nat.lt_of_lt_of_le h.given ho.given, fun c' hk => ?_, fun c' reply hh => ?_⟩
  · exact h.contents c' (ho.contents k c' h.given hk)
  · rcases ho.handled k c' reply hh with hh | hk
    · exact h.handled c' reply hh
    · exact h.contents c' hk

/-- A ticket that was given out and under which nothing lies in the mailbox. -/
structure Gone (k : Ticket) (s : System) : Prop where
  given : k < s.machine.mailbox.nextTicket
  absent : ∀ c, (k, c) ∉ s.machine.mailbox.contents

theorem Gone.of_step {k : Ticket} (h : Gone k s) (hs : s.step a = some s') : Gone k s' := by
  have ho := onward_of_step hs
  exact ⟨Nat.lt_of_lt_of_le h.given ho.given, fun c hk => h.absent c (ho.contents k c h.given hk)⟩

/-- What has left the mailbox is not handled any more. -/
theorem Gone.hasHandled_of_steps {k : Ticket} {c : Command} {reply : Reply} (h : Gone k s)
    (hs : s.steps as = some s') (hh : s'.HasHandled k c reply) : s.HasHandled k c reply := by
  induction as generalizing s with
  | nil =>
      cases hs
      exact hh
  | cons a as ih =>
      obtain ⟨s₁, h₁, hs⟩ := steps_cons_iff.1 hs
      rcases (onward_of_step h₁).handled k c reply (ih (h.of_step h₁) hs) with hh' | hk
      · exact hh'
      · exact absurd hk (h.absent c)

end Runs

end System
end MeshExchange
