import MeshExchange.Proofs.Mesh.Exchange
import MeshExchange.Proofs.System.Tickets

/-!
# Nobody waits while the clock goes on

A party that waits for a reply waits for somebody who can act at this very instant: for the worker, for
the party that the slot was granted to, or for nobody, since its reply is there or the worker is gone.

**Method.** `System.Served` says where the command of a waiting party is. It holds at the beginning, and
every step keeps it: a slot is empty only if nobody queues for it, and whoever is in the queue still
waits.

**Results.**
* `Mailbox.IsOrderly`: nobody queues for an empty slot;
* `System.Served`, `System.Reachable.served`: where the commands of waiting parties are, in every run;
* `System.Reachable.pending?_eq_none`: where nobody can act, nobody waits for a reply.
-/

namespace MeshExchange

namespace Mailbox

variable {b b' : Mailbox} {ticket k : Ticket} {c c' : Command}

/-- Nobody queues for an empty slot. -/
def IsOrderly (b : Mailbox) : Prop := b.slot = .empty → b.queue = []

theorem isOrderly_close (b : Mailbox) : b.close.IsOrderly := fun _ => rfl

theorem isOrderly_grantNext (b : Mailbox) : b.grantNext.IsOrderly := by
  unfold grantNext
  split
  · next hq => exact fun _ => hq
  · exact nofun

theorem isOrderly_submit (b : Mailbox) (c : Command) : (b.submit c).IsOrderly := by
  unfold submit
  split
  · exact nofun
  · next hs => exact fun hempty => absurd hempty hs

theorem isOrderly_of_handIn? (h : b.handIn? ticket = some b') : b'.IsOrderly := by
  unfold handIn? at h
  split at h
  · split at h <;> cases h
    exact nofun
  · cases h

theorem isOrderly_of_take? (h : b.take? = some (ticket, c, b')) : b'.IsOrderly := by
  unfold take? at h
  split at h <;> cases h
  exact isOrderly_grantNext b

theorem IsOrderly.withdraw (h : b.IsOrderly) (ticket : Ticket) : (b.withdraw ticket).IsOrderly := by
  have hfilter : IsOrderly { b with queue := b.queue.filter (·.1 != ticket) } := by
    intro hs
    have hq : b.queue = [] := h hs
    simp [hq]
  unfold Mailbox.withdraw
  split
  · split
    · exact isOrderly_grantNext b
    · exact hfilter
  · exact hfilter

theorem IsOrderly.contents_eq_nil (h : b.IsOrderly) (hs : b.slot = .empty) : b.contents = [] := by
  simp [contents, hs, Slot.held?, h hs]

/-- Only its own command goes with a caller that gives up. -/
theorem mem_contents_withdraw (h : (k, c) ∈ b.contents) (hk : k ≠ ticket) :
    (k, c) ∈ (b.withdraw ticket).contents := by
  have hfilter : (k, c) ∈ contents { b with queue := b.queue.filter (·.1 != ticket) } := by
    simpa [contents, hk] using h
  unfold Mailbox.withdraw
  split
  · next t c' hs =>
      split
      · next ht =>
          rw [contents_grantNext]
          rw [contents, hs] at h
          rcases List.mem_cons.1 h with h | h
          · exact absurd ((congrArg Prod.fst h).trans ht) hk
          · exact h
      · exact hfilter
  · exact hfilter

/-- Who gives up is not in the queue any more. -/
theorem not_mem_queued_withdraw (hb : b.tickets.Nodup) :
    (ticket, c) ∉ (b.withdraw ticket).queued := by
  intro h
  rcases withdraw_cases ticket hb with ⟨c', hs⟩ | hno
  · have hnodup : (b.withdraw ticket).tickets.Nodup :=
      hb.sublist ((contents_withdraw_sublist b ticket).map _)
    rw [tickets, contents, hs, Slot.held?, Option.toList_some, List.singleton_append, List.map_cons,
      List.nodup_cons] at hnodup
    have hq : (b.withdraw ticket).queued = (b.withdraw ticket).queue := by
      rw [queued, hs]
    have hk : ticket ∈ (b.withdraw ticket).queue.map (·.1) := List.mem_map.2 ⟨_, hq ▸ h, rfl⟩
    exact hnodup.1 hk
  · exact hno c (queued_sublist.subset h)

end Mailbox

namespace Machine

variable {L : Type} {m m' : Machine L} {callback : Callback L} {now : Instant} {turn : Turn L}
  {p : Pending}

/-- A listener whose callback returns leaves the commands alone. -/
theorem mailbox_announce_of_running {n? : Option Notification}
    (hs : (m.announce callback n?).status = .running) :
    (m.announce callback n?).mailbox = m.mailbox := by
  obtain ⟨listener, h | h⟩ := announce_cases callback n? m
  · rw [h]
  · rw [h] at hs
    cases hs

/-- A worker that goes on after a pass leaves the commands alone, or has answered the one in the slot. -/
theorem Works.mail_of_running (h : Works callback now m turn m') (hs : m'.status = .running) :
    m.status = .running ∧ ((m'.mailbox = m.mailbox ∧ m'.replies = m.replies) ∨
      ∃ ticket c reply, m.mailbox.take? = some (ticket, c, m'.mailbox) ∧
        m'.replies = m.replies ++ [(ticket, reply)]) := by
  cases h with
  | stops => cases hs
  | lapses hr => exact ⟨hr, .inl ⟨mailbox_announce_of_running hs, announce_replies _⟩⟩
  | accepts hr _ hb =>
      exact ⟨hr, .inr ⟨_, _, _, by rw [mailbox_announce_of_running hs]; exact hb,
        announce_replies _⟩⟩
  | refuses hr _ hb => exact ⟨hr, .inr ⟨_, _, _, hb, rfl⟩⟩

theorem isSome_turn_of_full {ticket : Ticket} {c : Command} (hs : m.status = .running)
    (hslot : m.mailbox.slot = .full ticket c) : (m.turn callback now).isSome = true := by
  have hb : m.mailbox.take? = some (ticket, c, m.mailbox.grantNext) := by
    rw [Mailbox.take?, hslot]
  rw [turn_of_running hs]
  split
  · rfl
  · rw [hb]
    rfl

theorem isSome_pursue_of_reply {reply : Reply} (h : (p.ticket, reply) ∈ m.replies) :
    (m.pursue p now).isSome = true := by
  unfold pursue
  split
  · rfl
  · split
    · rfl
    · next hno => exact absurd h (not_mem_of_reply?_eq_none hno reply)

theorem isSome_pursue_of_granted {c : Command} (h : m.mailbox.slot = .granted p.ticket c) :
    (m.pursue p now).isSome = true := by
  simp [pursue, Mailbox.handIn?, h]

end Machine

namespace System

variable {s s' : System} {a : Action} {x : Party} {p : Pending}

/-- Where the commands of waiting parties are. -/
structure Served (s : System) : Prop where
  orderly : s.machine.mailbox.IsOrderly
  /-- Whoever is in the queue still waits. -/
  queued : ∀ k c, (k, c) ∈ s.machine.mailbox.queued → ∃ x p, s.pending? x = some p ∧ p.ticket = k
  started : ∀ x p, s.pending? x = some p → s.machine.status ≠ .created
  /-- While the worker is there, a command lies in the mailbox or was answered. -/
  kept : s.machine.status = .running → ∀ x p, s.pending? x = some p →
    (∃ c, (p.ticket, c) ∈ s.machine.mailbox.contents) ∨
      ∃ reply, (p.ticket, reply) ∈ s.machine.replies

section Keeping

theorem Served.of_rests (h : s.Served) (hq : s.machine.Quiet s'.machine)
    (hspares : s.machine.Spares s'.machine) (hp : s'.pending? = s.pending?) : s'.Served where
  orderly := by
    rcases hq.mailbox with hb | hb <;> rw [hb]
    · exact h.orderly
    · exact Mailbox.isOrderly_close _
  queued := fun k c hk => hp ▸ h.queued k c (Mailbox.queued_of_closed hq.mailbox hk)
  started := by
    intro x p hx hcreated
    have hstarted := h.started x p (hp ▸ hx)
    rcases hspares.status with hs | ⟨-, hs⟩ | hs | hs
    · exact hstarted (hs ▸ hcreated)
    all_goals
      rw [hs] at hcreated
      cases hcreated
  kept := by
    intro hrun x p hx
    rw [hp] at hx
    have hstarted := h.started x p hx
    have hs : s.machine.status = .running := by
      rcases hspares.status with hs | ⟨hs, -⟩ | hs | hs
      · exact hs ▸ hrun
      · exact absurd hs hstarted
      all_goals
        rw [hs] at hrun
        cases hrun
    rw [hq.kept hs, hq.replies]
    exact h.kept hs x p hx

theorem Served.of_submits (h : s.Served) {c : Command}
    (hm : s.machine.submit c s.now = .ok (p, s'.machine)) (hx : s.pending? x = none)
    (hp : s'.pending? = Function.update s.pending? x (some p)) : s'.Served := by
  obtain ⟨hs, rfl, hmachine⟩ := Machine.submit_eq_ok hm
  have hperm := Mailbox.contents_submit_perm (b := s.machine.mailbox) (c := c)
  -- all others wait as before
  have hother {y : Party} {q : Pending} (hy : s.pending? y = some q) : s'.pending? y = some q := by
    rw [hp, Function.update_of_ne, hy]
    rintro rfl
    rw [hx] at hy
    cases hy
  constructor
  · rw [hmachine]
    exact Mailbox.isOrderly_submit _ _
  · intro k c' hk
    rw [hmachine] at hk
    rcases Mailbox.mem_queued_of_submit hk with hk | rfl
    · obtain ⟨y, q, hy, rfl⟩ := h.queued k c' hk
      exact ⟨y, q, hother hy, rfl⟩
    · exact ⟨x, _, by rw [hp, Function.update_self], rfl⟩
  · intro y q _
    rw [hmachine]
    simp [hs]
  · intro _ y q hy
    rw [hmachine]
    by_cases hyx : y = x
    · subst hyx
      rw [hp, Function.update_self] at hy
      cases hy
      exact .inl ⟨c, hperm.symm.subset List.mem_cons_self⟩
    · rw [hp, Function.update_of_ne hyx] at hy
      rcases h.kept hs y q hy with ⟨c', hc⟩ | hreply
      · exact .inl ⟨c', hperm.symm.subset (List.mem_cons_of_mem _ hc)⟩
      · exact .inr hreply

theorem Served.of_handsIn (h : s.Served)
    (hm : s.machine.pursue p s.now = some (none, s'.machine))
    (hp : s'.pending? = s.pending?) : s'.Served := by
  generalize hm' : s'.machine = m' at hm
  cases Machine.pursues_of_pursue hm with
  | handsIn hb =>
      obtain ⟨c, hqueued⟩ := Mailbox.queued_of_handIn? hb
      constructor <;> rw [hm']
      · exact Mailbox.isOrderly_of_handIn? hb
      · intro k c' hk
        rw [hp]
        exact h.queued k c' (hqueued ▸ List.mem_cons_of_mem _ hk)
      · rw [hp]
        exact h.started
      · rw [hp, (Mailbox.handIn?_eq_some hb).1]
        exact h.kept

/-- A party that learns what became of its command leaves the others to theirs. -/
theorem Served.of_learns (h : s.Served) (ht : s.Ticketed) {reply : Reply}
    (hx : s.pending? x = some p) (hm : s.machine.pursue p s.now = some (some reply, s'.machine))
    (hp : s'.pending? = Function.update s.pending? x none) : s'.Served := by
  have hwho {y : Party} {q : Pending} (hy : s'.pending? y = some q) :
      s.pending? y = some q ∧ q.ticket ≠ p.ticket := ht.others_of_learns hx hp hy
  -- who is in the queue of `s` under another ticket waits in `s'` too
  have hqueued {k : Ticket} {c : Command} (hk : (k, c) ∈ s.machine.mailbox.queued)
      (hne : k ≠ p.ticket) : ∃ y q, s'.pending? y = some q ∧ q.ticket = k := by
    obtain ⟨y, q, hy, rfl⟩ := h.queued k c hk
    refine ⟨y, q, ?_, rfl⟩
    rw [hp, Function.update_of_ne, hy]
    rintro rfl
    rw [hx] at hy
    cases hy
    exact hne rfl
  generalize hm' : s'.machine = m' at hm
  cases Machine.pursues_of_pursue hm with
  | learns hreply =>
      obtain ⟨c, hhandled⟩ := ht.replies _ _ hreply
      constructor <;> rw [hm']
      · exact h.orderly
      · intro k c' hk
        refine hqueued hk ?_
        rintro rfl
        exact ht.not_hasHandled (Mailbox.queued_sublist.subset hk) hhandled
      · exact fun y q hy => h.started y q (hwho hy).1
      · intro hs y q hy
        obtain ⟨hy, hne⟩ := hwho hy
        rcases h.kept hs y q hy with hc | ⟨reply', hr⟩
        · exact .inl hc
        · exact .inr ⟨reply', List.mem_filter.2 ⟨hr, by simpa using hne⟩⟩
  | lost _ hclosed =>
      constructor <;> rw [hm']
      · exact h.orderly
      · intro k c' hk
        have hk := Mailbox.queued_sublist.subset hk
        rw [ht.closed hclosed] at hk
        cases hk
      · exact fun y q hy => h.started y q (hwho hy).1
      · intro hs
        rw [hs] at hclosed
        cases hclosed
  | givesUp =>
      constructor <;> rw [hm']
      · exact h.orderly.withdraw _
      · intro k c' hk
        refine hqueued (Mailbox.queued_withdraw_subset _ _ hk) ?_
        rintro rfl
        exact Mailbox.not_mem_queued_withdraw (List.nodup_append.1 ht.nodup).1 hk
      · exact fun y q hy => h.started y q (hwho hy).1
      · intro hs y q hy
        obtain ⟨hy, hne⟩ := hwho hy
        rcases h.kept hs y q hy with ⟨c, hc⟩ | hreply
        · exact .inl ⟨c, Mailbox.mem_contents_withdraw hc hne⟩
        · exact .inr hreply

/-- The worker answers what it takes out. -/
theorem Served.of_worksTo (h : s.Served) {turn : Turn Observer} (hw : s.WorksTo turn s')
    (hp : s'.pending? = s.pending?) : s'.Served := by
  obtain ⟨hcases, -⟩ := hw.machine.mail_cases
  constructor
  · rcases hcases with ⟨-, hb | hb, -⟩ | ⟨k, c, reply, mailbox, -, htake, hb | hb, -⟩ <;> rw [hb]
    · exact h.orderly
    · exact Mailbox.isOrderly_close _
    · exact Mailbox.isOrderly_of_take? htake
    · exact Mailbox.isOrderly_close _
  · intro k c hk
    rw [hp]
    rcases hcases with ⟨-, hb, -⟩ | ⟨k', c', reply, mailbox, -, htake, hb, -⟩
    · exact h.queued k c (Mailbox.queued_of_closed hb hk)
    · refine h.queued k c ?_
      rw [← Mailbox.queued_of_take? htake]
      exact Mailbox.queued_of_closed hb hk
  · intro x p _ hcreated
    exact hw.machine.status_ne_created hcreated
  · intro hrun x p hx
    obtain ⟨hs, ⟨hb, hr⟩ | ⟨k, c, reply, htake, hr⟩⟩ := hw.machine.mail_of_running hrun
    · rw [hb, hr]
      exact h.kept hs x p (hp ▸ hx)
    · rw [hr]
      rcases h.kept hs x p (hp ▸ hx) with ⟨c', hc⟩ | ⟨reply', hr'⟩
      · rw [(Mailbox.contents_of_take? htake).1] at hc
        rcases List.mem_cons.1 hc with hc | hc
        · have hk : p.ticket = k := congrArg Prod.fst hc
          exact .inr ⟨reply, by simp [hk]⟩
        · exact .inl ⟨c', hc⟩
      · exact .inr ⟨reply', List.mem_append_left _ hr'⟩

theorem Served.of_step (h : s.Served) (ht : s.Ticketed) (hs : s.step a = some s') : s'.Served := by
  by_cases ha : a = .work
  · subst ha
    obtain ⟨turn, hw⟩ := worksTo_of_work hs
    exact h.of_worksTo hw (pending?_of_work hs)
  · cases deals_of_step ha hs with
    | rests hq hp => exact h.of_rests hq (step_spares ha hs).machine hp
    | submits hx hm hp => exact h.of_submits hm hx hp
    | handsIn _ hm hp => exact h.of_handsIn hm hp
    | learns hx hm hp => exact h.of_learns ht hx hm hp

theorem served_of_assemble {setup : Setup} (h : setup.assemble = .ok s) : s.Served := by
  obtain ⟨timing, status, listener, sendWait, resident, observers, -, hs, rfl⟩ :=
    exists_of_assemble h
  constructor
  · exact fun _ => rfl
  · simp [Mailbox.queued]
  · intro x p hx
    cases x <;> simp [pending?, Pump.pending?] at hx
  · intro _ x p hx
    cases x <;> simp [pending?, Pump.pending?] at hx

theorem Reachable.served (h : s.Reachable) : s.Served :=
  h.induct (fun _ _ => served_of_assemble) fun _ _ _ hs h hstep => h.of_step hs.ticketed hstep

end Keeping

section Resting

/-- A party that can go on keeps the clock from going on. -/
theorem isAble_of_pursue (hx : s.pending? x = some p)
    (h : (s.machine.pursue p s.now).isSome = true) : s.isAble = true := by
  obtain ⟨⟨reply, m⟩, hm⟩ := Option.isSome_iff_exists.1 h
  cases x with
  | caller i =>
      obtain ⟨stage, hi, hstage⟩ := Option.bind_eq_some_iff.1 hx
      have hadv : (s.advance stage).isSome = true := by
        cases stage with
        | commanding q | announced sending q =>
            cases hstage
            simp [advance, hm]
        | _ => cases hstage
      obtain ⟨⟨stage', s₁⟩, hadv⟩ := Option.isSome_iff_exists.1 hadv
      have hresume : s.resume i = some { s₁ with callers := s₁.callers.set i stage' } := by
        simp [resume, hi, hadv]
      exact isAble_of_resume hresume
  | pump =>
      have hd : (s.deliver).isSome = true := by
        change s.pump.pending? = some p at hx
        unfold Pump.pending? at hx
        split at hx
        · next d q hpump =>
            cases hx
            simp [deliver, hpump, hm]
        · cases hx
      obtain ⟨s', hs'⟩ := Option.isSome_iff_exists.1 hd
      exact isAble_of_deliver hs'

theorem isAble_of_turn (h : (s.machine.turn Observer.react s.now).isSome = true) :
    s.isAble = true := by
  obtain ⟨⟨turn, m⟩, hm⟩ := Option.isSome_iff_exists.1 h
  have hwork : s.work = some ({ s with machine := m }.record (.worked turn)) := by
    simp [work, hm]
  exact isAble_of_work hwork

/-- While a party waits for a reply, somebody can act. -/
theorem Served.isAble (h : s.Served) (hx : s.pending? x = some p) : s.isAble = true := by
  cases hs : s.machine.status with
  | created => exact absurd hs (h.started x p hx)
  | stopping =>
      refine isAble_of_turn ?_
      simp [Machine.turn, hs]
  | failed | destroyed =>
      refine isAble_of_pursue hx (Machine.isSome_pursue_of_isClosed ?_)
      rw [hs]
      rfl
  | running =>
      cases hslot : s.machine.mailbox.slot with
      | full k c => exact isAble_of_turn (Machine.isSome_turn_of_full hs hslot)
      | granted k c =>
          obtain ⟨y, q, hy, rfl⟩ := h.queued k c (by simp [Mailbox.queued, hslot])
          exact isAble_of_pursue hy (Machine.isSome_pursue_of_granted hslot)
      | empty =>
          rcases h.kept hs x p hx with ⟨c, hc⟩ | ⟨reply, hreply⟩
          · rw [h.orderly.contents_eq_nil hslot] at hc
            cases hc
          · exact isAble_of_pursue hx (Machine.isSome_pursue_of_reply hreply)

/-- **Where nobody can act, nobody waits for a reply.** -/
theorem Reachable.pending?_eq_none (hs : s.Reachable) (hable : s.isAble = false) (x : Party) :
    s.pending? x = none := by
  cases hx : s.pending? x with
  | none => rfl
  | some p => exact absurd (hs.served.isAble hx) (by simp [hable])

end Resting

end System
end MeshExchange
