import MeshExchange.Proofs.System.Parties
import MeshExchange.Proofs.System.Transitions

/-!
# How often a listener is told

The listener that is in place from the start on hears of every loss and of every return to the free
phase. What it heard is accounted for by what the worker did: each accepted request is followed by one
return to the free phase, which is the end of a linger or a reset, and each reset by one loss before it.

**Method.** The balance between the transitions of the worker and the notifications is kept by each kind of
transition.

**Results.**
* `Balance`, `Balance.transition`: the balance, and that a transition keeps it;
* `System.balance_of_steps`: the balance after every run;
* `System.received_append_waiting`: what a receiver was handed, and what still waits for it.
-/

namespace MeshExchange

namespace Phase

/-- What was told of an exchange that is still open. -/
def told : Phase → List Notification
  | .waitingForConfirmationTimedOut => [.confirmationTimedOut]
  | .waitingForResponseTimedOut => [.responseTimedOut]
  | _ => []

end Phase

/-- What can be told of one exchange from its beginning to its end. -/
def Notification.rounds : List (List Notification) :=
  [[.freeForSend], [.confirmationTimedOut, .freeForSend], [.responseTimedOut, .freeForSend]]

/-- The return to the free phase ends a round. -/
theorem Phase.told_concat_mem_rounds (p : Phase) :
    p.told ++ [.freeForSend] ∈ Notification.rounds := by
  cases p <;> decide

/-- What was told accounts for what was done. -/
structure Balance (xs : List Transition) (ns : List Notification) (p : Phase) : Prop where
  freed : ns.count .freeForSend = xs.countP Transition.resets + xs.countP Transition.drains
  opened : xs.countP Transition.opens = ns.count .freeForSend + if p = .freeForSend then 0 else 1
  timedOut : ns.count .confirmationTimedOut + ns.count .responseTimedOut =
    xs.countP Transition.resets + if p.isTimedOut then 1 else 0
  word : ∃ rounds : List (List Notification), (∀ r ∈ rounds, r ∈ Notification.rounds) ∧
    ns = rounds.flatten ++ p.told

namespace Balance

variable {xs : List Transition} {ns : List Notification} {p p' : Phase} {listener : Option Observer}
  {turn : Turn Observer}

theorem empty : Balance [] [] .freeForSend := ⟨rfl, rfl, rfl, [], by simp, rfl⟩

theorem word_concat {rounds : List (List Notification)} {r : List Notification}
    (hr : ∀ r ∈ rounds, r ∈ Notification.rounds) (h : r ∈ Notification.rounds)
    (hns : ns = rounds.flatten ++ r) :
    ∃ rounds : List (List Notification), (∀ r ∈ rounds, r ∈ Notification.rounds) ∧
      ns = rounds.flatten := by
  refine ⟨rounds ++ [r], fun r' hr' => ?_, by simpa using hns⟩
  rcases List.mem_append.1 hr' with hr' | hr'
  · exact hr r' hr'
  · rw [List.mem_singleton.1 hr']
    exact h

/-- A transition keeps the balance if what is told at it accounts for it, and goes on with a round or ends
it. -/
theorem concat {x : Transition} {l : List Notification} (h : Balance xs ns p)
    (hfreed : l.count .freeForSend = x.resets.toNat + x.drains.toNat)
    (hopened : x.opens.toNat + p.openCount = l.count .freeForSend + p'.openCount)
    (htimedOut : l.count .confirmationTimedOut + l.count .responseTimedOut + p.isTimedOut.toNat =
      x.resets.toNat + p'.isTimedOut.toNat)
    (hword : p.told ++ l = p'.told ∨ p.told ++ l ∈ Notification.rounds ∧ p'.told = []) :
    Balance (xs ++ [x]) (ns ++ l) p' := by
  have hcount (f : Transition → Bool) : (xs ++ [x]).countP f = xs.countP f + (f x).toNat := by
    cases hf : f x <;> simp [hf]
  have hflag (b : Bool) : (if b = true then 1 else 0) = b.toNat := by
    cases b <;> rfl
  constructor
  · rw [List.count_append, hcount, hcount, h.freed, hfreed]
    omega
  · have hold := h.opened
    simp only [Phase.openCount] at hopened
    rw [List.count_append, hcount]
    omega
  · have hold := h.timedOut
    rw [hflag] at hold ⊢
    rw [List.count_append, List.count_append, hcount]
    omega
  · obtain ⟨rounds, hr, hns⟩ := h.word
    have hns' : ns ++ l = rounds.flatten ++ (p.told ++ l) := by
      rw [hns, List.append_assoc]
    rcases hword with hgoes | ⟨hend, hp'⟩
    · exact ⟨rounds, hr, hgoes ▸ hns'⟩
    · rw [hp']
      simpa using word_concat hr hend hns'

/-- A pass keeps the balance. -/
theorem transition (h : Balance xs ns p) (hp : p.Leads turn.deed p') :
    Balance (xs ++ [⟨p, listener, turn, p'⟩]) (ns ++ turn.deed.notification?.toList) p' := by
  obtain ⟨deed, heard⟩ := turn
  dsimp only at hp ⊢
  cases hp with
  | rests hd =>
      cases deed with
      | stopped => exact h.concat rfl rfl rfl (.inl (List.append_nil _))
      | expired => cases hd
      | handled k c reply =>
          cases reply with
          | ok => cases hd
          | error fault => cases c <;> exact h.concat rfl rfl rfl (.inl (List.append_nil _))
  | opens hp => cases p' <;> cases hp <;> exact h.concat rfl rfl rfl (.inl rfl)
  | confirmed hp => rcases hp with rfl | rfl <;> exact h.concat rfl rfl rfl (.inl rfl)
  | answered => exact h.concat rfl rfl rfl (.inl rfl)
  | unconfirmed | unanswered => exact h.concat rfl rfl rfl (.inl rfl)
  | resets hp | drains hp =>
      have hend := p.told_concat_mem_rounds
      cases p <;> cases hp <;> exact h.concat rfl rfl rfl (.inr ⟨hend, rfl⟩)

/-- What was told is the beginning of a list of rounds. -/
theorem exists_prefix (h : Balance xs ns p) :
    ∃ rounds : List (List Notification), (∀ r ∈ rounds, r ∈ Notification.rounds) ∧
      ns <+: rounds.flatten := by
  have hprefix (r : List Notification) (hr : r ∈ Notification.rounds) (hp : p.told <+: r) :
      ∃ rounds : List (List Notification), (∀ r ∈ rounds, r ∈ Notification.rounds) ∧
        ns <+: rounds.flatten := by
    obtain ⟨rounds, hrounds, hns⟩ := h.word
    obtain ⟨rounds', hrounds', hns'⟩ := word_concat hrounds hr rfl
    refine ⟨rounds', hrounds', ?_⟩
    rw [hns, ← hns']
    exact List.prefix_append_right_inj _ |>.2 hp
  cases p with
  | waitingForConfirmationTimedOut =>
      exact hprefix [.confirmationTimedOut, .freeForSend] (by decide) ⟨[.freeForSend], rfl⟩
  | waitingForResponseTimedOut =>
      exact hprefix [.responseTimedOut, .freeForSend] (by decide) ⟨[.freeForSend], rfl⟩
  | _ => exact hprefix [.freeForSend] (by decide) (List.nil_prefix)

end Balance

namespace System

section Hearing

variable {s s' s₀ : System} {a : Action} {as : List Action} {o : Observer} {turn : Turn Observer}

/-- Whether an observer is the listener of the machine, once that has been started. -/
def isHeardBy (s : System) (o : Observer) : Bool :=
  s.machine.status = .created || s.machine.listener = some o

/-- Whether an observer is the listener from the start of the machine to the end of a run. -/
def isHeardThroughout (s : System) (o : Observer) : List Action → Bool
  | [] => s.isHeardBy o
  | a :: as =>
      s.isHeardBy o && (s.step a).all fun s' => s'.isHeardThroughout o as

theorem isHeardThroughout_append {as' : List Action} (has : s.steps as = some s')
    (h : s.isHeardThroughout o (as ++ as') = true) :
    s.isHeardThroughout o as = true ∧ s'.isHeardThroughout o as' = true := by
  induction as generalizing s with
  | nil =>
      cases has
      refine ⟨?_, h⟩
      cases as' with
      | nil => exact h
      | cons a as' => exact (Bool.and_eq_true_iff.1 h).1
  | cons a as ih =>
      obtain ⟨s₁, h₁, has⟩ := steps_cons_iff.1 has
      obtain ⟨hl, hrest⟩ := Bool.and_eq_true_iff.1 h
      rw [h₁] at hrest
      obtain ⟨hb, ha⟩ := ih has hrest
      refine ⟨?_, ha⟩
      rw [isHeardThroughout, h₁, hl]
      exact hb

theorem listener_of_isHeardThroughout (h : s.isHeardThroughout o as = true)
    (hs : s.machine.status ≠ .created) : s.machine.listener = some o := by
  have hl : s.isHeardBy o = true := by
    cases as with
    | nil => exact h
    | cons a as => exact (Bool.and_eq_true_iff.1 h).1
  simpa [isHeardBy, hs] using hl

theorem notifications_eq : s.notifications o = (passes s.journal).filterMap fun x =>
    x.2.notified.bind fun (o', n) => if o' = o then some n else none := by
  unfold notifications passes
  rw [List.filterMap_filterMap]
  congr 1
  funext ⟨now, e⟩
  cases e <;> rfl

theorem notifications_of_worksTo (hw : s.WorksTo turn s') (hl : s.machine.listener = some o) :
    s'.notifications o = s.notifications o ++ turn.deed.notification?.toList := by
  rw [notifications_eq, notifications_eq, hw.passes, List.filterMap_append]
  congr 1
  cases hn : turn.deed.notification? with
  | none => simp [hw.machine.notified_eq, hn]
  | some n => simp [hw.machine.notified_eq, hn, Machine.audience, hl]

/-- **The balance** between what the worker did and what its listener was told. -/
theorem exists_balance {setup : Setup} (h₀ : setup.assemble = .ok s₀) (has : s₀.steps as = some s)
    (ho : s₀.isHeardThroughout o as = true) :
    Balance (s₀.gather transitions as) (s.notifications o) s.machine.phase := by
  have hr₀ := Reachable.of_assemble h₀
  revert ho
  refine steps_induct (P := fun as s => s₀.isHeardThroughout o as = true →
    Balance (s₀.gather transitions as) (s.notifications o) s.machine.phase) ?_ ?_ has
  · intro _
    obtain ⟨-, hp, hj⟩ := assemble_eq h₀
    rw [hp, notifications_eq, hj]
    exact .empty
  · intro as x a y hx hstep ih ho
    obtain ⟨has, hlast⟩ := isHeardThroughout_append hx ho
    have hb := ih has
    rw [gather_concat hx hstep]
    rcases passes_of_step hstep with ⟨ha, -⟩ | ⟨turn, rfl, hw⟩
    · have hs := step_spares ha hstep
      rw [transitions_of_spares hs, List.append_nil, hs.machine.phase, notifications_eq, hs.passes,
        ← notifications_eq]
      exact hb
    · have hne : x.machine.status ≠ .created := by
        have hwork := hw.machine
        generalize y.machine = m at hwork
        cases hwork with
        | stops hs => simp [hs]
        | lapses hs | accepts hs | refuses hs => simp [hs]
      rw [transitions_of_worksTo hw, notifications_of_worksTo hw (listener_of_isHeardThroughout hlast hne)]
      exact hb.transition (leads_of_worksTo (hr₀.steps hx).sound hw)

end Hearing

section Receiving

variable {s s' s₀ : System} {a : Action} {as : List Action} {o : Observer}

/-- What the receiver of an observer is handed at an action. -/
def received (o : Observer) (s : System) (a : Action) (s' : System) : List Notification :=
  match a with
  | .resume i =>
      match s.callers[i]?, s'.callers[i]? with
      | some (.planned _ (.drain name)), some (.finished _ (.drained ns)) =>
          if s.observer? .forwarding name = some o then ns else []
      | _, _ => []
  | _ => []

/-- What waits at the receiver of an observer after one more entry. -/
def hear (o : Observer) (waiting : List Notification) : Entry → List Notification
  | .drained o' => if o' = o then [] else waiting
  | .worked turn =>
      match turn.notified with
      | some (o', n) => if o' = o then waiting ++ [n] else waiting
      | none => waiting
  | _ => waiting

theorem waitingNotifications_eq :
    s.waitingNotifications o = s.journal.foldl (fun waiting x => hear o waiting x.2) [] := by
  unfold waitingNotifications
  congr 1
  funext waiting ⟨now, e⟩
  cases e <;> rfl

/-- The notifications that a part of a journal tells of. -/
def heard (o : Observer) (l : List (Instant × Entry)) : List Notification :=
  l.filterMap fun (_, e) => e.notified?.bind fun (o', n) => if o' = o then some n else none

theorem hear_eq {e : Entry} (he : ∀ o', e ≠ .drained o') (waiting : List Notification)
    (now : Instant) : hear o waiting e = waiting ++ heard o [(now, e)] := by
  cases e with
  | drained o' => exact absurd rfl (he o')
  | worked turn =>
      simp only [hear, heard, Entry.notified?]
      cases hn : turn.notified with
      | none => simp [hn]
      | some x =>
          by_cases ho : x.1 = o
          · simp [hn, ho]
          · simp [hn, ho]
  | _ => simp [hear, heard, Entry.notified?]

/-- As long as the receiver is not emptied, it keeps what the observer is told. -/
theorem foldl_hear {l : List (Instant × Entry)} (hl : ∀ x ∈ l, ∀ o', x.2 ≠ .drained o')
    (waiting : List Notification) :
    l.foldl (fun waiting x => hear o waiting x.2) waiting = waiting ++ heard o l := by
  induction l generalizing waiting with
  | nil => simp [heard]
  | cons x l ih =>
      have hx := hear_eq (o := o) (hl x List.mem_cons_self) waiting x.1
      have hlast : heard o (x :: l) = heard o [x] ++ heard o l := List.filterMap_append (l := [x])
      rw [List.foldl_cons, hx, ih fun y hy => hl y (List.mem_cons_of_mem _ hy), hlast,
        List.append_assoc]

/-- What an action adds to the journal: what a receiver was handed, or nothing of the kind. -/
theorem journal_of_step (h : s.step a = some s') :
    ∃ l, s'.journal = s.journal ++ l ∧
      ((received o s a s' = [] ∧ ∀ x ∈ l, ∀ o', x.2 ≠ .drained o') ∨
        ∃ o', l = [(s.now, .drained o')] ∧
          received o s a s' = if o' = o then s.waitingNotifications o else []) := by
  cases a with
  | call due call =>
      cases h
      exact ⟨[], by simp, .inl ⟨rfl, by simp⟩⟩
  | elapse t =>
      simp only [step] at h
      split at h <;> cases h
      exact ⟨[], by simp, .inl ⟨rfl, by simp⟩⟩
  | work =>
      obtain ⟨⟨turn, m⟩, -, rfl⟩ := Option.map_eq_some_iff.1 h
      exact ⟨[(s.now, .worked turn)], rfl, .inl ⟨rfl, by simp⟩⟩
  | deliver =>
      cases pumps_of_deliver h with
      | plain _ _ _ _ hj =>
          obtain ⟨l, hl, hall⟩ := hj
          refine ⟨l, hl, .inl ⟨rfl, fun x hx o' hd => ?_⟩⟩
          obtain ⟨d, outcome, hx⟩ := hall x hx
          rw [hd] at hx
          cases hx
      | submits => exact ⟨[], by simp, .inl ⟨rfl, by simp⟩⟩
      | handsIn => exact ⟨[], by simp, .inl ⟨rfl, by simp⟩⟩
      | learns => exact ⟨[_], rfl, .inl ⟨rfl, by simp⟩⟩
  | resume i =>
      obtain ⟨stage, hi, hresume⟩ := Option.bind_eq_some_iff.1 h
      obtain ⟨⟨stage', s₁⟩, hadv, rfl⟩ := Option.map_eq_some_iff.1 hresume
      have hlt : i < s.callers.length := (List.getElem?_eq_some_iff.1 hi).1
      by_cases hd : ∃ due name o', stage = .planned due (.drain name) ∧
          s.observer? .forwarding name = some o'
      · obtain ⟨due, name, o', rfl, ho'⟩ := hd
        obtain ⟨-, rfl, rfl⟩ : due ≤ s.now ∧
            .finished s.now (.drained (s.waitingNotifications o')) = stage' ∧
              s.record (.drained o') = s₁ := by
          simpa [advance, begin, ho', finish, record] using hadv
        refine ⟨_, rfl, .inr ⟨o', rfl, ?_⟩⟩
        have hi' : (s.callers.set i (.finished s.now (.drained (s.waitingNotifications o'))))[i]? =
            some (.finished s.now (.drained (s.waitingNotifications o'))) :=
          List.getElem?_set_self hlt
        simp only [received, hi, record, hi', ho', Option.some.injEq]
        split
        · next ho => rw [ho]
        · rfl
      · have hnone : received o s (.resume i) { s₁ with callers := s₁.callers.set i stage' } = [] := by
          simp only [received, hi]
          split
          · next hstage _ =>
              cases hstage
              split
              · next ho => exact absurd ⟨_, _, _, rfl, ho⟩ hd
              · rfl
          · rfl
        have hadv' := advances_of_advance hadv
        cases hadv' with
        | plain _ _ hq => exact ⟨[], by simp [hq.journal], .inl ⟨hnone, by simp⟩⟩
        | drains ho => exact absurd ⟨_, _, _, rfl, ho⟩ hd
        | transmits => exact ⟨[_], rfl, .inl ⟨hnone, by simp⟩⟩
        | _ => exact ⟨[], by simp, .inl ⟨hnone, by simp⟩⟩

/-- **What a receiver was handed, and what still waits for it**, is what its observer was told. -/
theorem received_append_waiting (hj : s₀.journal = []) (has : s₀.steps as = some s) :
    s₀.gather (received o) as ++ s.waitingNotifications o = s.notifications o := by
  refine steps_induct (P := fun as s =>
    s₀.gather (received o) as ++ s.waitingNotifications o = s.notifications o) ?_ ?_ has
  · rw [waitingNotifications_eq, notifications, hj]
    rfl
  · intro as x a y hx hstep ih
    obtain ⟨l, hl, ⟨hnone, hall⟩ | ⟨o', rfl, hdrained⟩⟩ := journal_of_step (o := o) hstep
    · have hy : y.notifications o = x.notifications o ++ heard o l := by
        rw [notifications, hl, List.filterMap_append]
        rfl
      rw [gather_concat_of_eq_nil hx hstep hnone, hy, ← ih, waitingNotifications_eq, hl,
        List.foldl_append, foldl_hear hall, ← waitingNotifications_eq, List.append_assoc]
    · have hy : y.notifications o = x.notifications o := by
        rw [notifications, hl, List.filterMap_append]
        simp [Entry.notified?, notifications]
      rw [gather_concat hx hstep, hdrained, hy, ← ih, waitingNotifications_eq (s := y), hl,
        List.foldl_append, ← waitingNotifications_eq]
      by_cases ho : o' = o
      · simp [hear, ho]
      · simp [hear, ho]

end Receiving

section Accounts

variable {setup : Setup} {s s₀ : System} {as : List Action} {o : Observer}

/-- **Notification accounting**: a listener that is in place from the start on has been told, after every
run, what accounts for the accepted requests, the resets and the ends of lingers; and its receiver is
handed just that. -/
theorem balance_of_steps (h₀ : setup.assemble = .ok s₀) (has : s₀.steps as = some s)
    (ho : s₀.isHeardThroughout o as = true) :
    Balance (s₀.gather transitions as) (s.notifications o) s.machine.phase ∧
      (∃ rounds : List (List Notification), (∀ r ∈ rounds, r ∈ Notification.rounds) ∧
        s.notifications o <+: rounds.flatten) ∧
      s₀.gather (received o) as ++ s.waitingNotifications o = s.notifications o := by
  have hb := exists_balance h₀ has ho
  exact ⟨hb, hb.exists_prefix, received_append_waiting (assemble_eq h₀).2.2 has⟩

/-- A response is lost, the channel is freed, and the receiver is emptied in between. -/
theorem balance_of_steps_of_loss :
    ∃ s₀ s : System, ∃ o : Observer, ∃ as : List Action, Setup.assemble {} = .ok s₀ ∧
      s₀.steps as = some s ∧ s₀.isHeardThroughout o as = true ∧
      s₀.gather (received o) as = [.responseTimedOut] ∧ s.waitingNotifications o = [.freeForSend] ∧
      Balance (s₀.gather transitions as) (s.notifications o) s.machine.phase ∧
      (∃ rounds : List (List Notification), (∀ r ∈ rounds, r ∈ Notification.rounds) ∧
        s.notifications o <+: rounds.flatten) ∧
      s₀.gather (received o) as ++ s.waitingNotifications o = s.notifications o := by
  obtain ⟨s₀, as, hs₀, hrun⟩ : ∃ s₀ as, Setup.assemble {} = .ok s₀ ∧
      ((s₀.steps as).any fun s => s₀.isHeardThroughout ⟨.forwarding, "o", 0⟩ as = true ∧
        s₀.gather (received ⟨.forwarding, "o", 0⟩) as = [.responseTimedOut] ∧
        s.waitingNotifications ⟨.forwarding, "o", 0⟩ = [.freeForSend]) = true :=
    ⟨_, [.call 0 (.register .forwarding "o"), .call 0 (.start true), .resume 0, .resume 1,
      .call 0 (.newRequest ⟨.coordinator, 0, 0, 0, []⟩), .resume 2, .work,
      .elapse (Duration.millis 100000), .work, .call 0 (.drain "o"), .resume 3, .call 0 .reset,
      .resume 4, .work, .resume 2, .resume 4], rfl, by decide +kernel⟩
  obtain ⟨s, hs, hrun⟩ := (Option.any_eq_true _ _).1 hrun
  obtain ⟨ho, hgot, hwait⟩ := of_decide_eq_true hrun
  exact ⟨s₀, s, ⟨.forwarding, "o", 0⟩, as, hs₀, hs, ho, hgot, hwait, balance_of_steps hs₀ hs ho⟩

end Accounts

end System
end MeshExchange
