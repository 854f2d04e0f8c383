import MeshExchange.Proofs.System.Rivals

/-!
# A sender does not try for ever

A sender that loses the channel tries again, without a pause and without counting. Even while time stands
still it comes to an end all the same: each time it loses, a rival has won, and between two losses it takes
few steps.

**Input.** A sender that begins its call, and any run from then on, finite or infinite.

**Method.** `Stage.effort` counts the steps that a sender takes up to its next loss at most. In an infinite
run with few rivals it so takes few steps; and where it takes none any more it has come to its end, since
nothing it waits for lasts for ever.

**Results.**
* `System.mem_queued_of_step`: a command is handed in once;
* `System.count_resume_le`: the steps of a sender;
* `System.Endless`, `System.exists_finished`: in an infinite run it ends its call;
* `System.Contends`, `System.contends_of_send`: all of it, for every sender in every run.
-/

namespace MeshExchange

/-- How many steps a sender takes up to its next loss at most. -/
def Stage.effort (b : Mailbox) : Stage → Nat
  | .seeking _ _ _ => 5
  | .announcing _ => 4
  -- the command is to be handed in, or the reply to be fetched
  | .announced _ p => if b.queued.any fun x => x.1 = p.ticket then 3 else 2
  | .transmitting _ _ => 1
  | _ => 0

namespace System

section Handing

variable {x y : System} {a : Action} {k : Ticket} {c : Command}

/-- **Nothing is queued again** that was handed in. -/
theorem mem_queued_of_step (h : x.step a = some y) (hk : k < x.machine.mailbox.nextTicket)
    (hy : (k, c) ∈ y.machine.mailbox.queued) : (k, c) ∈ x.machine.mailbox.queued := by
  by_cases ha : a = .work
  · subst ha
    obtain ⟨turn, hw⟩ := worksTo_of_work h
    obtain ⟨⟨-, hb, -⟩ | ⟨k', c', reply, mailbox, -, htake, hb, -⟩, -⟩ := hw.machine.mail_cases
    · exact Mailbox.queued_of_closed hb hy
    · rw [← Mailbox.queued_of_take? htake]
      exact Mailbox.queued_of_closed hb hy
  · cases deals_of_step ha h with
    | rests hq => exact Mailbox.queued_of_closed hq.mailbox hy
    | submits _ hm =>
        obtain ⟨-, -, hm⟩ := Machine.submit_eq_ok hm
        rw [hm] at hy
        rcases Mailbox.mem_queued_of_submit hy with hy | hy
        · exact hy
        · exact absurd hy (Nat.ne_of_lt hk)
    | handsIn _ hp =>
        generalize hm : y.machine = m at hp hy
        cases Machine.pursues_of_pursue hp with
        | handsIn hb =>
            obtain ⟨c', hc⟩ := Mailbox.queued_of_handIn? hb
            rw [hc]
            exact List.mem_cons_of_mem _ hy
    | learns _ hp =>
        generalize hm : y.machine = m at hp hy
        cases Machine.pursues_of_pursue hp with
        | learns => exact hy
        | lost => exact hy
        | givesUp => exact Mailbox.queued_withdraw_subset _ _ hy

/-- What is handed in is not among the commands that are still to be handed in. -/
theorem Ticketed.any_queued_of_handIn? {b : Mailbox} (hx : x.Ticketed)
    (h : x.machine.mailbox.handIn? k = some b) : (b.queued.any fun z => z.1 = k) = false := by
  obtain ⟨c, hc⟩ := Mailbox.queued_of_handIn? h
  have hnodup : (x.machine.mailbox.queued.map (·.1)).Nodup :=
    (List.nodup_append.1 hx.nodup).1.sublist (Mailbox.queued_sublist.map _)
  rw [hc, List.map_cons, List.nodup_cons] at hnodup
  simp only [List.any_eq_false, decide_eq_true_eq]
  exact fun z hz hk => hnodup.1 (List.mem_map.2 ⟨z, hz, hk⟩)

end Handing

section Effort

open Stage (effort)

variable {s x y : System} {as : List Action} {a : Action} {i : Nat} {deadline : Instant}
  {stage stage' : Stage}

/-- The effort of a sender does not grow while others act. -/
theorem effort_le_of_step (hx : x.Ticketed) (hi : x.callers[i]? = some stage)
    (ha : x.step a = some y) : stage.effort y.machine.mailbox ≤ stage.effort x.machine.mailbox := by
  cases stage with
  | announced sending p =>
      have hk := hx.pending _ p (pending?_caller hi)
      have hmono : (y.machine.mailbox.queued.any fun z => z.1 = p.ticket) = true →
          (x.machine.mailbox.queued.any fun z => z.1 = p.ticket) = true := by
        simp only [List.any_eq_true, decide_eq_true_eq]
        rintro ⟨⟨k, c⟩, hz, rfl⟩
        exact ⟨_, mem_queued_of_step ha hk hz, rfl⟩
      simp only [effort]
      split
      · next h => simp [hmono h]
      · split <;> simp
  | _ => exact Nat.le_refl _

theorem resume_cases (hi : x.callers[i]? = some stage) (ha : x.step (.resume i) = some y) :
    ∃ stage' s₁, x.advance stage = some (stage', s₁) ∧
      y = { s₁ with callers := s₁.callers.set i stage' } ∧ y.callers[i]? = some stage' := by
  obtain ⟨stage₀, hi₀, h⟩ := Option.bind_eq_some_iff.1 ha
  obtain rfl := Option.some.inj (hi.symm.trans hi₀)
  obtain ⟨⟨stage', s₁⟩, hadv, rfl⟩ := Option.map_eq_some_iff.1 h
  have hlt : i < s₁.callers.length := by
    rw [(advances_of_advance hadv).callers]
    exact (List.getElem?_eq_some_iff.1 hi).1
  exact ⟨stage', s₁, hadv, rfl, List.getElem?_set_self hlt⟩

/-- **A step of a sender** takes one off, unless it has lost the channel. -/
theorem effort_of_resume (hx : x.Ticketed) (hv : TriesAgain s i deadline as x stage)
    (hi : x.callers[i]? = some stage) (ha : x.step (.resume i) = some y) :
    ∃ stage', y.callers[i]? = some stage' ∧
      stage'.effort y.machine.mailbox + 1 ≤
        stage.effort x.machine.mailbox + 4 * (x.retries i (.resume i) y).length := by
  obtain ⟨stage', s₁, hadv, rfl, hi'⟩ := resume_cases hi ha
  refine ⟨stage', hi', ?_⟩
  cases hv with
  | seeking =>
      refine Nat.le_add_right_of_le ?_
      cases loops_of_seeking hadv with
      | sees => simp [effort]
      | ends => simp [effort]
  | announcing =>
      refine Nat.le_add_right_of_le ?_
      cases loops_of_announcing hadv with
      | submits =>
          simp only [effort]
          split <;> simp
      | ends => simp [effort]
  | @announced sending p =>
      have htwo : 2 ≤ effort x.machine.mailbox (.announced sending p) := by
        simp only [effort]
        split <;> simp
      cases loops_of_announced hadv with
      | @handsIn _ _ mailbox hb =>
          obtain ⟨c, hc⟩ := Mailbox.queued_of_handIn? hb
          simp [effort, hc, hx.any_queued_of_handIn? hb]
      | @retries _ _ fault m limit giveUp =>
          have hone : (x.retries i (.resume i) { x with
              machine := m, callers := x.callers.set i (.seeking sending limit giveUp) }).length =
                1 := by
            simp [System.retries, hi, hi']
          rw [hone]
          exact Nat.add_le_add_right htwo 4
      | wins => exact Nat.le_add_right_of_le htwo
      | ends => exact Nat.le_add_right_of_le (Nat.le_of_succ_le htwo)
  | through ht =>
      obtain ⟨⟨sending, phase, rfl⟩, t, answer, rfl⟩ := finishes_of_isThroughLoop ht hadv
      exact Nat.le_add_right_of_le (Nat.le_refl _)

/-- **The steps of a sender**, up to any moment: five, and four more each time it has lost. -/
theorem count_resume_le (hs : s.Reachable) (hi : s.callers[i]? = some stage)
    (hb : TriesAgain s i deadline [] s stage) (he : stage.effort s.machine.mailbox ≤ 5)
    (has : s.steps as = some x) :
    as.count (.resume i) ≤ 5 + 4 * (s.gather (retries i) as).length := by
  suffices h : ∃ stage', x.callers[i]? = some stage' ∧
      as.count (.resume i) + stage'.effort x.machine.mailbox ≤
        5 + 4 * (s.gather (retries i) as).length by
    obtain ⟨stage', -, h⟩ := h
    exact Nat.le_trans (Nat.le_add_right _ _) h
  refine steps_induct (P := fun as x => ∃ stage', x.callers[i]? = some stage' ∧
    as.count (.resume i) + stage'.effort x.machine.mailbox ≤
      5 + 4 * (s.gather (retries i) as).length) ?_ ?_ has
  · exact ⟨stage, hi, by simpa [gather] using he⟩
  · rintro as x a y hx ha ⟨stage₁, hi₁, hle⟩
    obtain ⟨stage₂, hi₂, htries, -⟩ := exists_triesAgain hs hi hb hx
    obtain rfl := Option.some.inj (hi₁.symm.trans hi₂)
    have htickets := (hs.steps hx).ticketed
    rw [gather_concat hx ha, List.length_append, List.count_append]
    by_cases hown : a = .resume i
    · subst hown
      obtain ⟨stage', hi', heffort⟩ := effort_of_resume htickets htries hi₁ ha
      refine ⟨stage', hi', ?_⟩
      rw [List.count_singleton_self]
      omega
    · rcases caller_of_step hi₁ ha with hi' | ⟨h, -⟩
      · refine ⟨stage₁, hi', ?_⟩
        have heffort := effort_le_of_step htickets hi₁ ha
        have hcount : [a].count (.resume i) = 0 := by simp [hown]
        rw [hcount]
        omega
      · exact absurd h hown

end Effort

section Ending

/-- A run that goes on for ever. -/
structure Endless (s : System) (acts : Nat → Action) (run : Nat → System) : Prop where
  start : run 0 = s
  step : ∀ n, (run n).step (acts n) = some (run (n + 1))
  /-- Time does not stand still. -/
  clock : ∀ t, ∃ n, t ≤ (run n).now

/-- A caller that can go on from some time on does so. -/
def IsFair (i : Nat) (acts : Nat → Action) (run : Nat → System) : Prop :=
  ∀ n, (∀ m, n ≤ m → ((run m).step (.resume i)).isSome = true) → ∃ m, n ≤ m ∧ acts m = .resume i

/-- When a sender goes on at the latest. -/
def wakesAt : Stage → Instant
  | .seeking _ _ giveUp => giveUp
  | .announced _ p => p.giveUp
  | _ => 0

variable {s x : System} {acts : Nat → Action} {run : Nat → System} {i n : Nat}
  {deadline : Instant} {stage : Stage}

/-- The beginning of an endless run. -/
theorem Endless.steps (h : Endless s acts run) (n : Nat) :
    s.steps ((List.range n).map acts) = some (run n) := by
  induction n with
  | zero => exact congrArg some h.start.symm
  | succ n ih =>
      rw [List.range_succ, List.map_append]
      exact steps_concat_iff.2 ⟨run n, ih, h.step n⟩

theorem Endless.now_le (h : Endless s acts run) {m : Nat} (hn : n ≤ m) :
    (run n).now ≤ (run m).now := by
  induction hn with
  | refl => exact Nat.le_refl _
  | step _ ih => exact Nat.le_trans ih (now_le_of_step (h.step _))

/-- A sender waits for nothing that lasts for ever. -/
theorem isSome_resume {as : List Action} (hv : TriesAgain s i deadline as x stage)
    (hi : x.callers[i]? = some stage) (hf : ∀ t answer, stage ≠ .finished t answer)
    (hn : wakesAt stage ≤ x.now) : (x.step (.resume i)).isSome = true := by
  have hadv : (x.advance stage).isSome = true := by
    cases hv with
    | @seeking sending limit giveUp =>
        have hn : giveUp ≤ x.now := hn
        simp only [advance]
        split
        · rfl
        · rfl
        · rw [if_pos hn]
          rfl
    | announcing =>
        simp only [advance]
        split <;> rfl
    | announced =>
        simp only [advance, Option.isSome_map]
        rcases Machine.pursue_of_giveUp hn with ⟨mailbox, -, hp⟩ | ⟨reply, m, hp⟩
        · rw [hp]
          rfl
        · rw [hp]
          rfl
    | through ht =>
        cases stage with
        | transmitting => rfl
        | finished t answer => exact absurd rfl (hf t answer)
        | _ => cases ht
  simpa [step, resume, hi] using hadv

/-- What happens at most so many times does not happen any more from some time on. -/
theorem exists_forall_ne {a : Action} {bound : Nat}
    (h : ∀ n, ((List.range n).map acts).count a ≤ bound) : ∃ n, ∀ m, n ≤ m → acts m ≠ a := by
  by_contra hnot
  have hagain (n : Nat) : ∃ m, n ≤ m ∧ acts m = a := by
    by_contra hnone
    exact hnot ⟨n, fun m hm ha => hnone ⟨m, hm, ha⟩⟩
  have hmany (b : Nat) : ∃ n, b ≤ ((List.range n).map acts).count a := by
    induction b with
    | zero => exact ⟨0, Nat.zero_le _⟩
    | succ b ih =>
        obtain ⟨n, hn⟩ := ih
        obtain ⟨m, hm, ha⟩ := hagain n
        refine ⟨m + 1, ?_⟩
        have hle := ((List.range_sublist.2 hm).map acts).count_le a
        rw [List.range_succ, List.map_append, List.count_append, List.map_singleton, ha,
          List.count_singleton_self]
        omega
  obtain ⟨n, hn⟩ := hmany (bound + 1)
  exact absurd (h n) (Nat.not_le.2 hn)

/-- Few rivals in an endless run are few in each beginning of it. -/
theorem Endless.exists_length_le (hrun : Endless s acts run)
    (hrivals : ∃ n, ∀ m, n ≤ m → (run m).rivals i (acts m) (run (m + 1)) = []) :
    ∃ bound, ∀ n, (s.gather (rivals i) ((List.range n).map acts)).length ≤ bound := by
  obtain ⟨n₀, hn₀⟩ := hrivals
  have hsucc (n : Nat) : s.gather (rivals i) ((List.range (n + 1)).map acts) =
      s.gather (rivals i) ((List.range n).map acts) ++
        (run n).rivals i (acts n) (run (n + 1)) := by
    rw [List.range_succ, List.map_append]
    exact gather_concat (hrun.steps n) (hrun.step n)
  have hmono {m n : Nat} (hn : m ≤ n) : (s.gather (rivals i) ((List.range m).map acts)).length ≤
      (s.gather (rivals i) ((List.range n).map acts)).length := by
    induction hn with
    | refl => exact Nat.le_refl _
    | step _ ih =>
        rw [hsucc, List.length_append]
        exact Nat.le_add_right_of_le ih
  refine ⟨(s.gather (rivals i) ((List.range n₀).map acts)).length, fun n => ?_⟩
  rcases Nat.le_total n n₀ with hn | hn
  · exact hmono hn
  · induction hn with
    | refl => exact Nat.le_refl _
    | step hn ih =>
        rw [hsucc, hn₀ _ hn, List.append_nil]
        exact ih

/-- **A sender ends its call** if it has few rivals, and time passes and it can go on. -/
theorem exists_finished (hs : s.Reachable) (hi : s.callers[i]? = some stage)
    (hb : TriesAgain s i deadline [] s stage) (he : stage.effort s.machine.mailbox ≤ 5)
    (hrun : Endless s acts run) (hfair : IsFair i acts run)
    (hrivals : ∃ n, ∀ m, n ≤ m → (run m).rivals i (acts m) (run (m + 1)) = []) :
    ∃ n t answer, (run n).callers[i]? = some (.finished t answer) := by
  by_contra hnever
  obtain ⟨bound, hbound⟩ := hrun.exists_length_le hrivals
  -- few rivals, few retries, few steps
  have hcount (n : Nat) : ((List.range n).map acts).count (.resume i) ≤ 5 + 4 * bound := by
    obtain ⟨_, -, htries, -⟩ := exists_triesAgain hs hi hb (hrun.steps n)
    have hsteps := count_resume_le hs hi hb he (hrun.steps n)
    have hretries := Nat.le_trans htries.retries_le (hbound n)
    omega
  obtain ⟨n₀, hn₀⟩ := exists_forall_ne hcount
  -- so from some time on it stays where it is
  obtain ⟨stage₀, hi₀, -⟩ := exists_triesAgain hs hi hb (hrun.steps n₀)
  have hstays (m : Nat) (hm : n₀ ≤ m) : (run m).callers[i]? = some stage₀ := by
    induction hm with
    | refl => exact hi₀
    | step hm ih =>
        rcases caller_of_step ih (hrun.step _) with h | ⟨h, -⟩
        · exact h
        · exact absurd h (hn₀ _ hm)
  -- but there it can go on as soon as its time is up
  obtain ⟨n₁, hn₁⟩ := hrun.clock (wakesAt stage₀)
  obtain ⟨m, hm, hact⟩ := hfair (max n₀ n₁) fun m hm => by
    have hm₀ := hstays m (Nat.le_trans (Nat.le_max_left _ _) hm)
    have hm₁ := hrun.now_le (Nat.le_trans (Nat.le_max_right _ _) hm)
    obtain ⟨stage₁, hi₁, htries, -⟩ := exists_triesAgain hs hi hb (hrun.steps m)
    obtain rfl := Option.some.inj (hm₀.symm.trans hi₁)
    refine isSome_resume htries hi₁ ?_ (Nat.le_trans hn₁ hm₁)
    rintro t answer rfl
    exact hnever ⟨m, t, answer, hi₁⟩
  exact hn₀ m (Nat.le_trans (Nat.le_max_left _ _) hm) hact

end Ending

section Contending

variable {s s₁ s' : System} {as : List Action} {i : Nat} {due deadline : Instant} {r : Request}
  {stage : Stage}

/-- What holds of a sender at any moment since it began its call. -/
structure Contends (s : System) (i : Nat) (deadline : Instant) (as : List Action) (s' : System) :
    Prop where
  /-- If its request is refused for the phase, the request of a rival was accepted since it saw the channel
  free for the last time. -/
  paid : ∀ sending p fault m, s'.callers[i]? = some (.announced sending p) →
    s'.machine.pursue p s'.now = some (some (.error fault), m) → fault.isContractViolation = true →
    ∃ l₁ l₂ u v, Sighting s i as s' (some p.ticket) l₁ l₂ u v ∧ v.gather (rivals i) l₂ ≠ []
  /-- None of its own requests is a rival's. -/
  others : ∀ k ∈ s.gather (rivals i) as, k ∉ s.gather (announces i) as
  /-- It has tried again as often as it had rivals at most. -/
  tries : (s.gather (retries i) as).length ≤ (s.gather (rivals i) as).length
  /-- It does not try again after its deadline. -/
  inTime : ∀ t ∈ s.gather (retries i) as, t < deadline
  /-- It has not taken many steps, even if no time has passed. -/
  steps : as.count (.resume i) ≤ 5 + 4 * (s.gather (rivals i) as).length

theorem contends_of_steps (hs : s.Reachable) (hi : s.callers[i]? = some stage)
    (hb : TriesAgain s i deadline [] s stage) (he : stage.effort s.machine.mailbox ≤ 5)
    (has : s.steps as = some s') : s.Contends i deadline as s' := by
  obtain ⟨stage', hi', htries, hprompt⟩ := exists_triesAgain hs hi hb has
  refine ⟨?_, ?_, htries.retries_le, hprompt, ?_⟩
  · intro sending p fault m hi'' hp hf
    obtain rfl := Option.some.inj (hi'.symm.trans hi'')
    cases htries with
    | announced _ hc h => exact ⟨_, _, _, _, h, h.paid hs has hi' hc hf hp⟩
    | through ht => cases ht
  · intro k hk hown
    exact (owns_of_steps hs hi hb has k hown).distinct hk
  · have hsteps := count_resume_le hs hi hb he has
    have hretries := htries.retries_le
    omega

/-- A sender begins to wait for the channel, or its call ends at once. -/
theorem exists_triesAgain_of_send (hi : s.callers[i]? = some (.planned due (.send r)))
    (h₁ : s.step (.resume i) = some s₁) :
    ∃ stage, s₁.callers[i]? = some stage ∧ TriesAgain s₁ i (s.now + s.sendWait) [] s₁ stage ∧
      stage.effort s₁.machine.mailbox ≤ 5 := by
  obtain ⟨stage, s₂, hadv, -, hi₁⟩ := resume_cases hi h₁
  refine ⟨stage, hi₁, ?_⟩
  simp only [advance] at hadv
  split at hadv
  · have hbegin := Option.some.inj hadv
    simp only [begin] at hbegin
    split at hbegin
    · obtain ⟨-, ⟨limit, giveUp, rfl⟩ | rfl⟩ := seek_cases hbegin
      · exact ⟨.seeking rfl (Nat.le_refl _), Nat.le_refl _⟩
      · exact ⟨.through rfl (Nat.le_refl _), Nat.zero_le _⟩
    · cases hbegin
      exact ⟨.through rfl (Nat.le_refl _), Nat.zero_le _⟩
  · cases hadv

/-- **A sender loses the channel to rivals only**, and does not try for ever. -/
theorem contends_of_send (hs : s.Reachable) (hi : s.callers[i]? = some (.planned due (.send r)))
    (h₁ : s.step (.resume i) = some s₁) :
    (∀ as s', s₁.steps as = some s' → s₁.Contends i (s.now + s.sendWait) as s') ∧
      ∀ acts run, Endless s₁ acts run → IsFair i acts run →
        (∃ n, ∀ m, n ≤ m → (run m).rivals i (acts m) (run (m + 1)) = []) →
        ∃ n t answer, (run n).callers[i]? = some (.finished t answer) := by
  have hs₁ := hs.step h₁
  obtain ⟨stage, hi₁, hb, he⟩ := exists_triesAgain_of_send hi h₁
  exact ⟨fun _ _ has => contends_of_steps hs₁ hi₁ hb he has,
    fun _ _ hrun hfair hrivals => exists_finished hs₁ hi₁ hb he hrun hfair hrivals⟩

/-- Of two senders that see the channel free, the first to announce its request gets it, and the other
tries again. -/
theorem contends_of_send_of_two :
    ∃ (s s₁ s' : System) (as : List Action), s.Reachable ∧
      s.callers[1]? = some (.planned 0 (.send ⟨.node 1, 0, 0, 0, []⟩)) ∧
      s.step (.resume 1) = some s₁ ∧ s₁.steps as = some s' ∧
      s₁.gather (rivals 1) as = [0] ∧ s₁.gather (announces 1) as = [1] ∧
      s₁.gather (retries 1) as = [0] ∧ s₁.Contends 1 (s.now + s.sendWait) as s' := by
  obtain ⟨s₀, h₀, hrun⟩ : ∃ s₀, Setup.assemble {} = .ok s₀ ∧
      let as : List Action := [.resume 1, .resume 1, .work, .resume 1, .work, .resume 1]
      ((s₀.steps [.call 0 (.start true), .call 0 (.send ⟨.node 1, 0, 0, 0, []⟩),
        .call 0 (.send ⟨.node 2, 0, 0, 0, []⟩), .resume 0, .resume 2, .resume 2, .resume 2]).any
          fun s => s.callers[1]? = some (.planned 0 (.send ⟨.node 1, 0, 0, 0, []⟩)) ∧
            (s.step (.resume 1)).any fun s₁ => (s₁.steps as).isSome ∧
              s₁.gather (rivals 1) as = [0] ∧ s₁.gather (announces 1) as = [1] ∧
              s₁.gather (retries 1) as = [0]) = true :=
    ⟨_, rfl, by decide +kernel⟩
  obtain ⟨s, hs, hrun⟩ := (Option.any_eq_true _ _).1 hrun
  obtain ⟨hi, hrun⟩ := of_decide_eq_true hrun
  obtain ⟨s₁, h₁, hrun⟩ := (Option.any_eq_true _ _).1 hrun
  obtain ⟨has, hrivals, hannounces, hretries⟩ := of_decide_eq_true hrun
  obtain ⟨s', has⟩ := Option.isSome_iff_exists.1 has
  have hreach : s.Reachable := ⟨{}, s₀, _, h₀, hs⟩
  exact ⟨s, s₁, s', _, hreach, hi, h₁, has, hrivals, hannounces, hretries,
    (contends_of_send hreach hi h₁).1 _ s' has⟩

end Contending

end System
end MeshExchange
