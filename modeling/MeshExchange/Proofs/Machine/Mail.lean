import MeshExchange.Machine.Pending
import MeshExchange.Proofs.Machine.Passes

/-!
# The way of a command

A command comes in under a ticket, waits in the queue or in the slot, and is taken out by the worker,
which puts the reply under the same ticket. Its caller hands it in when its turn has come, fetches the
reply, or gives up.

**Results.**
* `Mailbox.contents`: the commands that are still to be handled, each with its ticket;
* `Mailbox.queued`: those of them that are still to be handed in;
* `Machine.Pursues`, `Machine.pursues_of_pursue`: what a caller does about its command, and what it
  learns;
* `Machine.Works.mail_cases`: what the worker does about the commands.
-/

namespace MeshExchange

/-- The command in a slot, or the one that the slot is kept free for. -/
def Slot.held? : Slot → Option (Ticket × Command)
  | .empty => none
  | .granted ticket c | .full ticket c => some (ticket, c)

namespace Mailbox

variable {b b' : Mailbox} {ticket : Ticket} {c : Command}

/-- The commands that were not handled yet. -/
def contents (b : Mailbox) : List (Ticket × Command) := b.slot.held?.toList ++ b.queue

def tickets (b : Mailbox) : List Ticket := b.contents.map (·.1)

@[simp] theorem contents_close : b.close.contents = [] := rfl

@[simp] theorem nextTicket_close : b.close.nextTicket = b.nextTicket := rfl

@[simp] theorem nextTicket_submit : (b.submit c).nextTicket = b.nextTicket + 1 := by
  unfold submit
  split <;> rfl

@[simp] theorem nextTicket_grantNext : b.grantNext.nextTicket = b.nextTicket := by
  unfold grantNext
  split <;> rfl

@[simp] theorem nextTicket_withdraw : (b.withdraw ticket).nextTicket = b.nextTicket := by
  unfold withdraw
  split
  · split
    · exact nextTicket_grantNext
    · rfl
  · rfl

/-- A mailbox that is left alone or closed takes nothing in. -/
theorem contents_sublist_of_closed (h : b' = b ∨ b' = b.close) :
    b'.contents.Sublist b.contents ∧ b'.nextTicket = b.nextTicket := by
  rcases h with rfl | rfl
  · exact ⟨.refl _, rfl⟩
  · exact ⟨List.nil_sublist _, rfl⟩

theorem contents_submit_perm : (b.submit c).contents.Perm ((b.nextTicket, c) :: b.contents) := by
  unfold submit
  split
  · next h => simp [contents, h, Slot.held?]
  · simp only [contents, ← List.append_assoc]
    exact List.perm_append_singleton _ _

theorem contents_grantNext : b.grantNext.contents = b.queue := by
  unfold grantNext contents
  split
  · next h => simp [h, Slot.held?]
  · next h => simp [h, Slot.held?]

theorem handIn?_eq_some (h : b.handIn? ticket = some b') :
    b'.contents = b.contents ∧ b'.nextTicket = b.nextTicket := by
  unfold handIn? at h
  split at h
  · next t c hs =>
      split at h
      · next ht =>
          cases h
          cases ht
          exact ⟨by simp [contents, hs, Slot.held?], rfl⟩
      · cases h
  · cases h

theorem contents_withdraw_sublist (b : Mailbox) (ticket : Ticket) :
    (b.withdraw ticket).contents.Sublist b.contents := by
  unfold withdraw
  split
  · split
    · rw [contents_grantNext]
      exact List.sublist_append_right _ _
    · exact List.Sublist.append_left List.filter_sublist _
  · exact List.Sublist.append_left List.filter_sublist _

/-- Only a command that lies in the slot stays when its caller gives up. -/
theorem withdraw_cases (ticket : Ticket) (hb : b.tickets.Nodup) :
    (∃ c, (b.withdraw ticket).slot = .full ticket c) ∨
      ∀ c, (ticket, c) ∉ (b.withdraw ticket).contents := by
  have hqueue {slot : Slot} (hs : ∀ c, slot.held? ≠ some (ticket, c)) (c : Command) :
      (ticket, c) ∉ contents ⟨slot, b.queue.filter (·.1 != ticket), b.nextTicket⟩ := by
    simp only [contents, List.mem_append, Option.mem_toList, List.mem_filter]
    rintro (h | ⟨-, h⟩)
    · exact hs c h
    · simp at h
  unfold withdraw
  split
  · next t c hs =>
      split
      · next ht =>
          subst ht
          refine .inr fun c' hm => ?_
          rw [contents_grantNext] at hm
          simp only [tickets, contents, hs, Slot.held?, Option.toList_some, List.singleton_append,
            List.map_cons, List.nodup_cons] at hb
          exact hb.1 (List.mem_map_of_mem hm)
      · next ht =>
          refine .inr (hqueue ?_)
          rw [hs]
          simpa [Slot.held?] using ht
  · next hs =>
      generalize b.slot = slot at hs
      cases slot with
      | empty => exact .inr (hqueue (by simp [Slot.held?]))
      | granted t c => exact absurd rfl (hs t c)
      | full t c =>
          by_cases ht : t = ticket
          · subst ht
            exact .inl ⟨c, rfl⟩
          · exact .inr (hqueue (by simpa [Slot.held?] using ht))

theorem contents_of_take? (h : b.take? = some (ticket, c, b')) :
    b.contents = (ticket, c) :: b'.contents ∧ b'.nextTicket = b.nextTicket := by
  unfold take? at h
  split at h
  · next t c hs =>
      cases h
      refine ⟨?_, nextTicket_grantNext⟩
      rw [contents_grantNext, contents, hs]
      rfl
  · cases h

/-- A command is handed in once. -/
theorem handIn?_of_handIn? (h : b.handIn? ticket = some b') : b'.handIn? ticket = none := by
  unfold handIn? at h
  split at h
  · split at h <;> cases h
    rfl
  · cases h

section Queueing

/-- The commands that are still to be handed in. -/
def queued (b : Mailbox) : List (Ticket × Command) :=
  match b.slot with
  | .granted k c => (k, c) :: b.queue
  | _ => b.queue

theorem queued_grantNext : b.grantNext.queued = b.queue := by
  unfold grantNext
  split
  · next h => simp [queued, h]
  · next h => simp [queued, h]

theorem queued_sublist : b.queued.Sublist b.contents := by
  unfold queued contents
  split
  · next h => simp [h, Slot.held?]
  · exact List.sublist_append_right _ _

/-- A command that is handed in is not queued any more. -/
theorem queued_of_handIn? (h : b.handIn? ticket = some b') :
    ∃ c, b.queued = (ticket, c) :: b'.queued := by
  unfold handIn? at h
  split at h
  · next t c hs =>
      split at h
      · next hk =>
          cases h
          cases hk
          exact ⟨c, by simp [queued, hs]⟩
      · cases h
  · cases h

theorem queued_of_take? (h : b.take? = some (ticket, c, b')) : b'.queued = b.queued := by
  unfold take? at h
  split at h
  · next k c hs =>
      cases h
      rw [queued_grantNext]
      simp [queued, hs]
  · cases h

theorem mem_queued_of_submit {x : Ticket × Command} (h : x ∈ (b.submit c).queued) :
    x ∈ b.queued ∨ x.1 = b.nextTicket := by
  unfold submit at h
  split at h
  · next hs =>
      refine .inl ?_
      simpa [queued, hs] using h
  · have hqueued : (queued { b with
        queue := b.queue ++ [(b.nextTicket, c)], nextTicket := b.nextTicket + 1 }) =
          b.queued ++ [(b.nextTicket, c)] := by
      unfold queued
      cases b.slot <;> rfl
    rw [hqueued] at h
    rcases List.mem_append.1 h with h | h
    · exact .inl h
    · rw [List.mem_singleton.1 h]
      exact .inr rfl

theorem queued_withdraw_subset (b : Mailbox) (ticket : Ticket) :
    (b.withdraw ticket).queued ⊆ b.queued := by
  intro x hx
  unfold withdraw at hx
  split at hx
  · next t c hs =>
      have hb : b.queued = (t, c) :: b.queue := by simp [queued, hs]
      split at hx
      · rw [queued_grantNext] at hx
        rw [hb]
        exact List.mem_cons_of_mem _ hx
      · have hw : (queued { b with queue := b.queue.filter (·.1 != ticket) }) =
            (t, c) :: b.queue.filter (·.1 != ticket) := by simp [queued, hs]
        rw [hw] at hx
        rw [hb]
        exact (List.filter_sublist.cons_cons (t, c)).subset hx
  · next hs =>
      have hplain (l : List (Ticket × Command)) : (queued { b with queue := l }) = l := by
        unfold queued
        generalize b.slot = slot at hs
        cases slot with
        | granted t c => exact absurd rfl (hs t c)
        | _ => rfl
      have hb : b.queued = b.queue := hplain b.queue
      rw [hplain] at hx
      rw [hb]
      exact List.filter_sublist.subset hx

theorem queued_of_closed (h : b' = b ∨ b' = b.close) : b'.queued ⊆ b.queued := by
  rcases h with rfl | rfl
  · exact fun _ h => h
  · exact nofun

end Queueing

end Mailbox

namespace Machine

variable {L : Type} {m m' : Machine L} {p : Pending} {now : Instant} {reply : Option Reply}

section Callers

theorem submit_eq_ok {c : Command} (h : m.submit c now = .ok (p, m')) :
    m.status = .running ∧ p = ⟨m.mailbox.nextTicket, c, now + m.settings.stateChangeLimit⟩ ∧
      m' = { m with mailbox := m.mailbox.submit c } := by
  unfold submit at h
  split at h
  · next hs =>
      cases h
      exact ⟨hs, rfl, rfl⟩
  · cases h

theorem submit_eq_error {c : Command} {fault : Fault} (h : m.submit c now = .error fault) :
    m.status ≠ .running ∧ fault = .notRunning := by
  unfold submit at h
  split at h
  · cases h
  · next hs =>
      cases h
      exact ⟨hs, rfl⟩

theorem mem_of_reply?_eq_some {ticket : Ticket} {reply : Reply}
    (h : m.reply? ticket = some reply) : (ticket, reply) ∈ m.replies := by
  obtain ⟨l₁, l₂, hl, -⟩ := List.lookup_eq_some_iff.1 h
  simp [hl]

theorem not_mem_of_reply?_eq_none {ticket : Ticket} (h : m.reply? ticket = none) (reply : Reply) :
    (ticket, reply) ∉ m.replies := by
  intro hr
  have hne := List.lookup_eq_none_iff.1 h _ hr
  simp at hne

/-- What a caller does about a command that is on its way, and what it learns. -/
inductive Pursues (m : Machine L) (p : Pending) (now : Instant) :
    Option Reply → Machine L → Prop
  | handsIn {mailbox : Mailbox} (h : m.mailbox.handIn? p.ticket = some mailbox) :
      Pursues m p now none { m with mailbox }
  | learns {reply : Reply} (h : (p.ticket, reply) ∈ m.replies) :
      Pursues m p now (some reply) (m.fetched p.ticket)
  | lost (h : ∀ reply, (p.ticket, reply) ∉ m.replies) (hc : m.status.isClosed = true) :
      Pursues m p now (some (.error .notRunning)) m
  | givesUp (h : ∀ reply, (p.ticket, reply) ∉ m.replies) (hn : p.giveUp ≤ now) :
      Pursues m p now (some (.error (.stateChangeTimeout m.settings.stateChangeLimit)))
        (m.abandon p.ticket)

theorem pursues_of_pursue (h : m.pursue p now = some (reply, m')) :
    m.Pursues p now reply m' := by
  unfold pursue at h
  split at h
  · next mailbox hb =>
      cases h
      exact .handsIn hb
  · split at h
    · next r hr =>
        cases h
        exact .learns (mem_of_reply?_eq_some hr)
    · next hr =>
        split at h
        · next hc =>
            cases h
            exact .lost (not_mem_of_reply?_eq_none hr) hc
        · split at h
          · next hn =>
              cases h
              exact .givesUp (not_mem_of_reply?_eq_none hr) hn
          · cases h

/-- A caller learns the only reply there is for it. -/
theorem pursue_of_mem_replies {reply : Reply} (hs : m.mailbox.slot = .empty)
    (hr : (p.ticket, reply) ∈ m.replies)
    (hu : ∀ reply', (p.ticket, reply') ∈ m.replies → reply' = reply) :
    m.pursue p now = some (some reply, m.fetched p.ticket) := by
  have hb : m.mailbox.handIn? p.ticket = none := by
    simp [Mailbox.handIn?, hs]
  cases h : m.reply? p.ticket with
  | none => exact absurd hr (not_mem_of_reply?_eq_none h reply)
  | some reply' =>
      obtain rfl := hu reply' (mem_of_reply?_eq_some h)
      simp only [pursue, hb, h]

/-- When its time is up, a caller hands its command in or learns something. -/
theorem pursue_of_giveUp (h : p.giveUp ≤ now) :
    (∃ mailbox, m.mailbox.handIn? p.ticket = some mailbox ∧
        m.pursue p now = some (none, { m with mailbox })) ∨
      ∃ reply m', m.pursue p now = some (some reply, m') := by
  unfold pursue
  cases hb : m.mailbox.handIn? p.ticket with
  | some mailbox => exact .inl ⟨mailbox, rfl, rfl⟩
  | none =>
      refine .inr ?_
      cases m.reply? p.ticket with
      | some reply => exact ⟨_, _, rfl⟩
      | none =>
          dsimp only
          split <;> exact ⟨_, _, rfl⟩

/-- Where the worker is gone, nobody waits on. -/
theorem isSome_pursue_of_isClosed (hc : m.status.isClosed = true) :
    (m.pursue p now).isSome = true := by
  unfold pursue
  split
  · rfl
  · split
    · rfl
    · rw [if_pos hc]
      rfl

end Callers

section Worker

variable {callback : Callback L} {turn : Turn L}

theorem announce_mailbox (n? : Option Notification) :
    (m.announce callback n?).mailbox = m.mailbox ∨
      (m.announce callback n?).mailbox = m.mailbox.close := by
  obtain ⟨listener, h | h⟩ := announce_cases callback n? m
  · rw [h]
    exact .inl rfl
  · rw [h]
    exact .inr rfl

@[simp] theorem announce_replies (n? : Option Notification) :
    (m.announce callback n?).replies = m.replies := by
  obtain ⟨listener, h | h⟩ := announce_cases callback n? m
  · rw [h]
  · rw [h]
    rfl

theorem contents_announce_of_closed (n? : Option Notification) (hs : m.status = .running)
    (hc : (m.announce callback n?).status.isClosed = true) :
    (m.announce callback n?).mailbox.contents = [] := by
  obtain ⟨listener, h | h⟩ := announce_cases callback n? m
  · rw [h] at hc
    simp [hs, Status.isClosed] at hc
  · rw [h]
    rfl

/-- What the worker does about the commands: it handles the one in the slot, or none; and where it ends
with the pass, all of them are dropped. -/
theorem Works.mail_cases (h : Works callback now m turn m') :
    (((∀ ticket c reply, turn.deed ≠ .handled ticket c reply) ∧
        (m'.mailbox = m.mailbox ∨ m'.mailbox = m.mailbox.close) ∧ m'.replies = m.replies) ∨
      ∃ ticket c reply mailbox, turn.deed = .handled ticket c reply ∧
        m.mailbox.take? = some (ticket, c, mailbox) ∧
        (m'.mailbox = mailbox ∨ m'.mailbox = mailbox.close) ∧
        m'.replies = m.replies ++ [(ticket, reply)]) ∧
      (m'.status.isClosed = true → m'.mailbox.contents = []) := by
  cases h with
  | stops => exact ⟨.inl ⟨by simp, .inr rfl, rfl⟩, fun _ => rfl⟩
  | lapses hs =>
      refine ⟨.inl ⟨by simp, announce_mailbox _, announce_replies _⟩, fun hc => ?_⟩
      exact contents_announce_of_closed _ hs hc
  | accepts hs hd hb ht =>
      refine ⟨.inr ⟨_, _, _, _, rfl, hb, announce_mailbox _, announce_replies _⟩, fun hc => ?_⟩
      exact contents_announce_of_closed _ hs hc
  | refuses hs hd hb hf =>
      refine ⟨.inr ⟨_, _, _, _, rfl, hb, .inl rfl, rfl⟩, fun hc => ?_⟩
      simp [refused, hs, Status.isClosed] at hc

theorem Works.nextTicket_eq (h : Works callback now m turn m') :
    m'.mailbox.nextTicket = m.mailbox.nextTicket := by
  rcases h.mail_cases.1 with ⟨-, hb, -⟩ | ⟨k, c, reply, mailbox, -, htake, hb, -⟩
  · exact (Mailbox.contents_sublist_of_closed hb).2
  · exact (Mailbox.contents_sublist_of_closed hb).2.trans (Mailbox.contents_of_take? htake).2

end Worker

end Machine
end MeshExchange
