import MeshExchange.Proofs.Script.Play
import MeshExchange.Session.Basic

/-!
# A machine plays a script like a bare tracker

The worker, the slot in front of it, the replies behind it and the clock that stands still while anybody
can act: all of that makes no difference to a caller who waits for each answer. It is answered what a
bare tracker would answer, at the same instant, and whenever the worker is idle the phase and all that
there was to tell are those of the bare tracker.

**Input.** A machine that was just started with a listener whose callback returns, and a script.

**Method.** `Ledger.Meets` says how far the machine has got with the last call, in one case for each
stage of the caller. The machine and the ledger may differ by a deadline that has come and that only
one of them has looked at; `Standing.lapse` makes them equal. Every step keeps the relation and uses up
some of `Core.left`.

**Results.**
* `Ledger.Meets`: the relation;
* `System.Attended.meets_of_plays`: every step keeps it and uses up some of what is left;
* `System.Attended.exists_plays`: nothing gets stuck before the script is through;
* `System.follows_of_played`: the refinement, for every run.
-/

namespace MeshExchange

/-- The callers that are through, with their answers. -/
def finished (answers : List (Answer × Instant)) : List Stage :=
  answers.map fun (a, t) => .finished t a

section Finished

variable {answers : List (Answer × Instant)} {stage : Stage}

theorem finished_append (a : Answer) (t : Instant) :
    finished (answers ++ [(a, t)]) = finished answers ++ [.finished t a] := by
  simp [finished]

theorem set_last (last : Stage) :
    (finished answers ++ [last]).set answers.length stage = finished answers ++ [stage] := by
  have h : (finished answers).length = answers.length := by
    simp [finished]
  rw [← h]
  simp

theorem getElem?_last (last : Stage) :
    (finished answers ++ [last])[answers.length]? = some last := by
  rw [List.getElem?_append_right (by simp [finished])]
  simp [finished]

@[simp] theorem filterMap_answer?_finished : (finished answers).filterMap Stage.answer? = answers := by
  simp [finished, List.filterMap_map, Function.comp_def, Stage.answer?]

theorem isSome_answer?_of_mem_finished (h : stage ∈ finished answers) :
    stage.answer?.isSome = true := by
  obtain ⟨⟨a, t⟩, -, rfl⟩ := List.mem_map.1 h
  rfl

theorem advance_finished (s : System) (h : stage ∈ finished answers) : s.advance stage = none := by
  obtain ⟨⟨a, t⟩, -, rfl⟩ := List.mem_map.1 h
  rfl

/-- Only the last caller is not through. -/
theorem eq_last_of_getElem? {last : Stage} {i : Nat}
    (h : (finished answers ++ [last])[i]? = some stage) (hs : stage.answer?.isSome = false) :
    i = answers.length ∧ stage = last := by
  rcases Nat.lt_or_ge i (finished answers).length with hi | hi
  · rw [List.getElem?_append_left hi] at h
    rw [isSome_answer?_of_mem_finished (List.mem_of_getElem? h)] at hs
    cases hs
  · rw [List.getElem?_append_right hi, List.getElem?_singleton] at h
    split at h
    · next h₀ =>
        cases h
        simp only [finished, List.length_map] at hi h₀
        exact ⟨by omega, rfl⟩
    · cases h

end Finished

namespace Ledger

/-- How far a machine has got with the last call of a script. -/
inductive Meets : Ledger → System.Core → Prop
  | through {l : Ledger} {x : Standing} (hx : x.lapse l.now = l.standing.lapse l.now) :
      Meets l ⟨l.now, l.timing, .empty, [], finished l.answers, x⟩
  | sleeping {l : Ledger} {time : Duration} {now : Instant} {x : Standing}
      (hn : now ≤ l.now + time) (hx : x.lapse now = l.standing.lapse now) :
      Meets (l.pass time)
        ⟨now, l.timing, .empty, [], finished l.answers ++ [.sleeping (l.now + time)], x⟩
  /-- The command is in the slot. -/
  | submitted {l : Ledger} {c : Command} {ticket : Ticket} {giveUp : Instant} {x : Standing}
      (hg : l.now < giveUp) (hx : x.lapse l.now = l.standing.lapse l.now) :
      Meets (l.obey c)
        ⟨l.now, l.timing, .full ticket c, [],
          finished l.answers ++ [.commanding ⟨ticket, c, giveUp⟩], x⟩
  /-- The command was handled. -/
  | replied {l : Ledger} {c : Command} {ticket : Ticket} {giveUp : Instant} {x : Standing}
      (hx : x.lapse l.now = (l.obey c).standing.lapse l.now) :
      Meets (l.obey c)
        ⟨l.now, l.timing, .empty, [(ticket, ((l.standing.lapse l.now).obey l.timing l.now c).2)],
          finished l.answers ++ [.commanding ⟨ticket, c, giveUp⟩], x⟩

/-- A deadline that has come may pass at any time. -/
theorem Meets.lapse {l : Ledger} {d : System.Core} (hm : l.Meets d) :
    l.Meets { d with standing := d.standing.lapse d.now } := by
  cases hm with
  | through hx => exact .through ((Standing.lapse_lapse (Nat.le_refl _)).trans hx)
  | sleeping hn hx => exact .sleeping hn ((Standing.lapse_lapse (Nat.le_refl _)).trans hx)
  | submitted hg hx => exact .submitted hg ((Standing.lapse_lapse (Nat.le_refl _)).trans hx)
  | replied hx => exact .replied ((Standing.lapse_lapse (Nat.le_refl _)).trans hx)

/-- Where no command is in the slot, the machine has come as far as the ledger. -/
theorem Meets.lapse_eq {l : Ledger} {d : System.Core} (hm : l.Meets d)
    (hs : ∀ ticket c, d.slot ≠ .full ticket c) :
    d.standing.lapse d.now = l.standing.lapse d.now := by
  cases hm with
  | through hx => exact hx
  | sleeping hn hx => exact hx
  | submitted hg hx => exact absurd rfl (hs _ _)
  | replied hx => exact hx

theorem Meets.answers_prefix {l : Ledger} {d : System.Core} (hm : l.Meets d) :
    d.callers.filterMap Stage.answer? <+: l.answers := by
  cases hm with
  | through hx =>
      simp
  | _ =>
      rw [List.filterMap_append, filterMap_answer?_finished, List.filterMap_cons_none rfl,
        List.filterMap_nil, List.append_nil]
      exact List.prefix_append _ _

end Ledger

section Left

/-- How often a deadline still makes something happen. -/
def Standing.left (now : Instant) (x : Standing) : Nat :=
  match x.tracker.deadline with
  | some d => if d ≤ now then 1 else 2
  | none => 0

/-- How often a caller and the worker still act for a call, the deadline that it may set included. -/
def Stage.left (now : Instant) (slot : Slot) : Stage → Nat
  | .sleeping due => if due ≤ now then 1 else 2
  | .commanding _ => if slot = .empty then 1 else 4
  | _ => 0

/-- How often the callers and the worker still act for the calls that were made. -/
def stagesLeft (now : Instant) (slot : Slot) : List Stage → Nat
  | [] => 0
  | stage :: stages => stage.left now slot + stagesLeft now slot stages

/-- How much can still happen before the next call. -/
def System.Core.left (d : System.Core) : Nat :=
  stagesLeft d.now d.slot d.callers + d.standing.left d.now

theorem stagesLeft_finished_append (now : Instant) (slot : Slot)
    (answers : List (Answer × Instant)) (stages : List Stage) :
    stagesLeft now slot (finished answers ++ stages) = stagesLeft now slot stages := by
  induction answers with
  | nil => rfl
  | cons y ys ih =>
      rw [finished, List.map_cons, List.cons_append, ← finished, stagesLeft, ih]
      exact Nat.zero_add _

@[simp] theorem System.Core.left_finished (now : Instant) (timing : Timing) (slot : Slot)
    (replies : List (Ticket × Reply)) (answers : List (Answer × Instant)) (x : Standing) :
    System.Core.left ⟨now, timing, slot, replies, finished answers, x⟩ = x.left now := by
  have h := stagesLeft_finished_append now slot answers []
  rw [List.append_nil] at h
  rw [System.Core.left, h]
  exact Nat.zero_add _

@[simp] theorem System.Core.left_last (now : Instant) (timing : Timing) (slot : Slot)
    (replies : List (Ticket × Reply)) (answers : List (Answer × Instant)) (stage : Stage)
    (x : Standing) :
    System.Core.left ⟨now, timing, slot, replies, finished answers ++ [stage], x⟩ =
      stage.left now slot + x.left now := by
  rw [System.Core.left, stagesLeft_finished_append]
  rfl

theorem Standing.left_le_two (now : Instant) (x : Standing) : x.left now ≤ 2 := by
  unfold left
  split
  · split <;> omega
  · omega

theorem Standing.left_anti {now t : Instant} (h : now ≤ t) (x : Standing) :
    x.left t ≤ x.left now := by
  unfold left
  split
  · next d hd =>
      by_cases hdue : d ≤ now
      · rw [if_pos (Nat.le_trans hdue h)]
        split <;> omega
      · rw [if_neg hdue]
        split <;> omega
  · exact Nat.le_refl _

theorem Standing.left_of_deadline {now t : Instant} {x : Standing}
    (hd : x.tracker.deadline = some t) (h : now < t) : x.left now = x.left t + 1 := by
  simp [left, hd, Nat.not_le.2 h]

end Left

namespace System

section Acting

variable {o : Observer} {s s' : System} {l : Ledger}

/-- What the worker does keeps the relation, and leaves less to happen. -/
theorem Attended.meets_of_work (ha : s.Attended o) (hm : l.Meets s.core)
    (h : s.work = some s') :
    s'.Attended o ∧ l.Meets s'.core ∧ s'.core.left < s.core.left := by
  obtain ⟨ha', ⟨hd, hdue, hdead⟩ | ⟨ticket, c, hslot, hlapse, hd⟩⟩ := ha.work_cases h
  · refine ⟨ha', hd ▸ hm.lapse, ?_⟩
    have hbefore : s.standing.left s.now = 1 := by
      obtain ⟨d, hd, hle⟩ := Tracker.isDue_eq_true_iff.1 hdue
      simp [Standing.left, standing, hd, hle]
    have hafter : (s.standing.lapse s.now).left s.now = 0 := by
      have hs : s'.standing = s.standing.lapse s.now := congrArg Core.standing hd
      rw [← hs]
      simp [Standing.left, standing, hdead]
    rw [hd]
    simp only [Core.left, core, hbefore, hafter]
    omega
  · refine ⟨ha', ?_⟩
    rw [hd]
    generalize hk : s.core = d at hm
    cases hm with
    | @submitted l c' ticket' giveUp x hg hx =>
        obtain ⟨hnow, htiming, hslot', hreplies, -, hstanding⟩ := Core.mk.inj hk
        rw [hslot] at hslot'
        cases hslot'
        rw [hstanding, hnow, hx] at hlapse
        rw [hstanding, hnow, htiming, hreplies, ← hlapse]
        refine ⟨.replied rfl, ?_⟩
        have := Standing.left_le_two l.now ((l.standing.lapse l.now).obey l.timing l.now c).1
        simp [Stage.left]
        omega
    | _ =>
        have hslot' := congrArg Core.slot hk
        rw [core, hslot] at hslot'
        cases hslot'

theorem exists_advance_of_resume {i : Nat} (h : s.resume i = some s') :
    ∃ stage stage' s₁, s.callers[i]? = some stage ∧ s.advance stage = some (stage', s₁) ∧
      s' = { s₁ with callers := s₁.callers.set i stage' } := by
  obtain ⟨stage, hi, h⟩ := Option.bind_eq_some_iff.1 h
  obtain ⟨⟨stage', s₁⟩, ha, rfl⟩ := Option.map_eq_some_iff.1 h
  exact ⟨stage, stage', s₁, hi, ha, rfl⟩

/-- Only the last caller may act. -/
theorem eq_length_of_resume {answers : List (Answer × Instant)} {last? : Option Stage} {i : Nat}
    (hc : s.callers = finished answers ++ last?.toList) (h : s.resume i = some s') :
    i = answers.length := by
  obtain ⟨stage, stage', s₁, hi, ha, -⟩ := exists_advance_of_resume h
  rw [hc] at hi
  cases last? with
  | none =>
      rw [Option.toList_none, List.append_nil] at hi
      rw [advance_finished s (List.mem_of_getElem? hi)] at ha
      cases ha
  | some last =>
      refine (eq_last_of_getElem? hi ?_).1
      cases stage with
      | finished t a => cases ha
      | _ => rfl

theorem advance_of_resume {answers : List (Answer × Instant)} {last : Stage} {i : Nat}
    (hc : s.callers = finished answers ++ [last]) (h : s.resume i = some s') :
    ∃ stage' s₁, s.advance last = some (stage', s₁) ∧
      s' = { s₁ with callers := s₁.callers.set answers.length stage' } := by
  have hc' : s.callers = finished answers ++ (some last).toList := hc
  obtain rfl := eq_length_of_resume hc' h
  obtain ⟨stage, stage', s₁, hi, ha, rfl⟩ := exists_advance_of_resume h
  rw [hc, getElem?_last] at hi
  cases hi
  exact ⟨stage', s₁, ha, rfl⟩

/-- The last caller takes a step. -/
theorem resume_of_last {answers : List (Answer × Instant)} {last stage : Stage} {s₁ : System}
    (hc : s.callers = finished answers ++ [last]) (ha : s.advance last = some (stage, s₁))
    (hc₁ : s₁.callers = s.callers) :
    s.resume answers.length = some { s₁ with callers := finished answers ++ [stage] } := by
  rw [resume, hc, getElem?_last, Option.bind_some, ha, Option.map_some]
  dsimp only
  rw [hc₁, hc, set_last]

theorem resume_of_last_eq_none {answers : List (Answer × Instant)} {last : Stage}
    (hc : s.callers = finished answers ++ [last]) (ha : s.advance last = none) :
    s.resume answers.length = none := by
  rw [resume, hc, getElem?_last, Option.bind_some, ha, Option.map_none]

theorem advance_commanding_of_reply {p : Pending} {reply : Reply}
    (hs : s.machine.mailbox.slot = .empty) (hr : s.machine.replies = [(p.ticket, reply)]) :
    s.advance (.commanding p) =
      some (System.finish { s with machine := { s.machine with replies := [] } }
        (.ofReply p.command reply)) := by
  rw [advance, Machine.pursue_of_reply hs hr]
  rfl

theorem core_callers (callers : List Stage) :
    core { s with callers } = { s.core with callers } := rfl

theorem core_replies (replies : List (Ticket × Reply)) :
    core { s with machine := { s.machine with replies } } = { s.core with replies } := rfl

theorem core_now (now : Instant) : core { s with now } = { s.core with now } := rfl

theorem core_timing (timing : Timing) (callers : List Stage) :
    core { s with machine := { s.machine with timing }, callers } =
      { s.core with timing, callers } := rfl

theorem core_mailbox (mailbox : Mailbox) (callers : List Stage) :
    core { s with machine := { s.machine with mailbox }, callers } =
      { s.core with slot := mailbox.slot, callers } := rfl

/-- What a caller does keeps the relation, and leaves less to happen. -/
theorem Attended.meets_of_resume (ha : s.Attended o) (hm : l.Meets s.core) {i : Nat}
    (h : s.resume i = some s') :
    s'.Attended o ∧ l.Meets s'.core ∧ s'.core.left < s.core.left := by
  generalize hk : s.core = d at hm
  cases hm with
  | through hx =>
      obtain ⟨-, -, -, -, hcallers, -⟩ := Core.mk.inj hk
      obtain ⟨stage, stage', s₁, hi, hadv, -⟩ := exists_advance_of_resume h
      rw [hcallers] at hi
      rw [advance_finished s (List.mem_of_getElem? hi)] at hadv
      cases hadv
  | @sleeping l time now x hn hx =>
      obtain ⟨hnow, htiming, hslot, hreplies, hcallers, hstanding⟩ := Core.mk.inj hk
      obtain ⟨stage', s₁, hadv, rfl⟩ := advance_of_resume hcallers h
      simp only [advance] at hadv
      split at hadv
      · next hdue =>
          cases hadv
          rw [hnow] at hdue
          obtain rfl : now = l.now + time := Nat.le_antisymm hn hdue
          refine ⟨ha.update _ _ _ _ _ _, ?_⟩
          rw [core_callers, hk, hcallers, set_last, hnow, ← finished_append]
          refine ⟨.through hx, ?_⟩
          simp [Stage.left]
      · cases hadv
  | @submitted l c ticket giveUp x hg hx =>
      obtain ⟨hnow, -, hslot, hreplies, hcallers, -⟩ := Core.mk.inj hk
      obtain ⟨stage', s₁, hadv, -⟩ := advance_of_resume hcallers h
      rw [advance, Machine.pursue_of_full hslot hreplies ha.running (hnow ▸ hg)] at hadv
      cases hadv
  | @replied l c ticket giveUp x hx =>
      obtain ⟨hnow, -, hslot, hreplies, hcallers, -⟩ := Core.mk.inj hk
      obtain ⟨stage', s₁, hadv, rfl⟩ := advance_of_resume hcallers h
      rw [advance_commanding_of_reply hslot hreplies] at hadv
      cases hadv
      refine ⟨ha.update _ _ _ _ _ _, ?_⟩
      rw [core_callers, core_replies, hk, hcallers, set_last, hnow, ← finished_append]
      refine ⟨.through hx, ?_⟩
      simp [Stage.left]

end Acting

section Issuing

variable {o : Observer} {s s' : System} {l : Ledger}

theorem isThrough_of_finished {answers : List (Answer × Instant)}
    (hc : s.callers = finished answers) : s.isThrough = true := by
  rw [isThrough, hc]
  exact List.all_eq_true.2 fun _ h => isSome_answer?_of_mem_finished h

theorem isThrough_of_last {answers : List (Answer × Instant)} {last : Stage}
    (hc : s.callers = finished answers ++ [last]) : s.isThrough = last.answer?.isSome := by
  rw [isThrough, hc, List.all_append, List.all_eq_true.2 fun _ h =>
    isSome_answer?_of_mem_finished h]
  simp

theorem exists_core_of_isThrough (hm : l.Meets s.core) (ht : s.isThrough = true) :
    ∃ x, s.core = ⟨l.now, l.timing, .empty, [], finished l.answers, x⟩ ∧
      x.lapse l.now = l.standing.lapse l.now := by
  generalize hk : s.core = d at hm
  cases hm with
  | @through l x hx => exact ⟨x, rfl, hx⟩
  | _ =>
      rw [isThrough_of_last (congrArg Core.callers hk)] at ht
      cases ht

/-- The three kinds of calls in a script. -/
theorem call_cases {c : Call} (hc : c.isScripted = true) (hnow : s.now = l.now)
    (htiming : s.machine.timing = l.timing) :
    (∃ time, c = .sleep time) ∨
      (∃ r, l.play c = l.setTiming r ∧ ∀ s' : System, s'.machine = s.machine →
        s'.begin c = s'.change (r.map fun timing => { s'.machine with timing })) ∨
      ∃ command, l.play c = l.obey command ∧
        ∀ s' : System, s'.now = s.now → s'.begin c = s'.command command := by
  cases c with
  | sleep time => exact .inl ⟨time, rfl⟩
  | setTime f ms =>
      refine .inr (.inl ⟨_, rfl, fun s' hs' => ?_⟩)
      rw [← htiming, ← hs']
      rfl
  | newRequest r => exact .inr (.inr ⟨_, rfl, fun _ _ => rfl⟩)
  | confirmation c receivedAt =>
      refine .inr (.inr ⟨_, rfl, fun s' hs' => ?_⟩)
      rw [← hnow, ← hs']
      rfl
  | response length receivedAt =>
      refine .inr (.inr ⟨_, rfl, fun s' hs' => ?_⟩)
      rw [← hnow, ← hs']
      rfl
  | reset => exact .inr (.inr ⟨_, rfl, fun _ _ => rfl⟩)
  | _ => cases hc

/-- What the next call makes of the machine, which has caught up with the ledger. -/
theorem Attended.exists_issue (ha : s.Attended o) (hm : l.Meets s.core) {c : Call}
    (hc : c.isScripted = true) (ht : s.isThrough = true) :
    ∃ s', s.steps [.call s.now c, .resume s.callers.length] = some s' ∧ s'.Attended o ∧
      (l.play c).Meets s'.core ∧ s'.core.left < s.core.left + 5 := by
  obtain ⟨x, hk, hx⟩ := exists_core_of_isThrough hm ht
  obtain ⟨hnow, htiming, hslot, -, hcallers, -⟩ := Core.mk.inj hk
  have hguard := ha.guard
  rcases call_cases hc hnow htiming with ⟨time, rfl⟩ | ⟨r, hplay, hb⟩ | ⟨command, hplay, hb⟩
  · refine ⟨_, issue_sleep s time, ha.update _ _ _ _ _ _, ?_⟩
    rw [core_callers, hk, hnow, hcallers]
    refine ⟨.sleeping (Nat.le_add_right _ _) hx, ?_⟩
    simp [Stage.left]
    split <;> omega
  · rw [hplay]
    cases r with
    | ok timing =>
        refine ⟨_, issue_timing hb, ha.update _ _ _ _ _ _, ?_⟩
        rw [core_timing, hk, hcallers, hnow, ← finished_append]
        refine ⟨.through hx, ?_⟩
        simp
    | error fault =>
        refine ⟨_, issue_refused hb, ha.update _ _ _ _ _ _, ?_⟩
        rw [core_callers, hk, hcallers, hnow, ← finished_append]
        refine ⟨.through hx, ?_⟩
        simp
  · refine ⟨_, issue_command ha.running hb, ?_⟩
    rw [Mailbox.submit_of_slot_eq_empty hslot, hplay]
    refine ⟨ha.update _ _ _ _ _ _, ?_⟩
    rw [core_mailbox, hk, hcallers, hnow]
    refine ⟨.submitted (Nat.lt_add_of_pos_right hguard) hx, ?_⟩
    simp [Stage.left]
    omega

end Issuing

section Waiting

variable {o : Observer} {s s' : System} {l : Ledger}

theorem isAble_of_resume {i : Nat} (h : s.resume i = some s') : s.isAble = true := by
  obtain ⟨stage, -, -, hi, -, -⟩ := exists_advance_of_resume h
  obtain ⟨hlt, -⟩ := List.getElem?_eq_some_iff.1 hi
  have hany : (List.range s.callers.length).any
      (fun i => (s.step (.resume i)).isSome) = true :=
    List.any_eq_true.2 ⟨i, List.mem_range.2 hlt, by simp [step, h]⟩
  rw [isAble, hany]
  rfl

theorem isAble_of_work (h : s.work = some s') : s.isAble = true := by
  simp [isAble, isBackgroundAble, step, h]

theorem exists_step_of_isAble (h : s.isAble = true) :
    ∃ a, (a = .work ∨ a = .deliver ∨ ∃ i, a = .resume i) ∧ ∃ s', s.step a = some s' := by
  rw [isAble, isBackgroundAble, Bool.or_eq_true, Bool.or_eq_true, List.any_eq_true] at h
  rcases h with ⟨i, -, hi⟩ | hw | hd
  · exact ⟨_, .inr (.inr ⟨i, rfl⟩), Option.isSome_iff_exists.1 hi⟩
  · exact ⟨_, .inl rfl, Option.isSome_iff_exists.1 hw⟩
  · exact ⟨_, .inr (.inl rfl), Option.isSome_iff_exists.1 hd⟩

theorem Attended.exists_work {ticket : Ticket} {c : Command} (ha : s.Attended o)
    (hslot : s.machine.mailbox.slot = .full ticket c) : ∃ s', s.work = some s' := by
  have hb : s.machine.mailbox.take? = some (ticket, c, s.machine.mailbox.grantNext) := by
    rw [Mailbox.take?, hslot]
  refine Option.isSome_iff_exists.1 ?_
  rw [work, Machine.turn_of_running ha.running, hb]
  split <;> rfl

theorem Attended.sleeps (ha : s.Attended o) (hm : l.Meets s.core) (hable : s.isAble = false)
    (ht : s.isThrough = false) :
    ∃ (l₀ : Ledger) (time : Duration) (x : Standing), l = l₀.pass time ∧ s.now < l₀.now + time ∧
      s.core = ⟨s.now, l₀.timing, .empty, [],
        finished l₀.answers ++ [.sleeping (l₀.now + time)], x⟩ ∧
      x.lapse s.now = l₀.standing.lapse s.now := by
  generalize hk : s.core = d at hm
  cases hm with
  | through hx =>
      rw [isThrough_of_finished (congrArg Core.callers hk)] at ht
      cases ht
  | @sleeping l time now x hn hx =>
      obtain ⟨rfl, -, -, -, hcallers, -⟩ := Core.mk.inj hk
      refine ⟨l, time, x, rfl, ?_, rfl, hx⟩
      by_cases hdue : l.now + time ≤ s.now
      · have hadv : s.advance (.sleeping (l.now + time)) = some (s.finish .done) := if_pos hdue
        have hs' := resume_of_last hcallers hadv rfl
        rw [isAble_of_resume hs'] at hable
        cases hable
      · exact Nat.lt_of_not_le hdue
  | submitted hg hx =>
      obtain ⟨-, -, hslot, -, -, -⟩ := Core.mk.inj hk
      obtain ⟨s', hs'⟩ := ha.exists_work hslot
      rw [isAble_of_work hs'] at hable
      cases hable
  | @replied l c ticket giveUp x hx =>
      obtain ⟨-, -, hslot, hreplies, hcallers, -⟩ := Core.mk.inj hk
      have hs' := resume_of_last hcallers (advance_commanding_of_reply hslot hreplies) rfl
      rw [isAble_of_resume hs'] at hable
      cases hable

theorem Attended.mem_timers {answers : List (Answer × Instant)} {due t : Instant}
    (ha : s.Attended o) (hc : s.callers = finished answers ++ [.sleeping due]) :
    t ∈ s.timers ↔ t = due ∨ s.machine.tracker.deadline = some t := by
  have hcallers : s.callers.filterMap Stage.timer? = [due] := by
    rw [hc, List.filterMap_append]
    simp [finished, List.filterMap_map, Function.comp_def, Stage.timer?]
  simp [timers, hcallers, workerTimer?, ha.running, pumpTimer?, ha.pump]

theorem nextTimer?_eq_some_iff {t : Instant} :
    s.nextTimer? = some t ↔ (t ∈ s.timers ∧ s.now < t) ∧ ∀ u ∈ s.timers, s.now < u → t ≤ u := by
  rw [nextTimer?, List.min?_eq_some_iff]
  simp

/-- A jump of the clock keeps the relation, and leaves less to happen. -/
theorem Attended.meets_of_elapse (ha : s.Attended o) (hm : l.Meets s.core) {t : Instant}
    (hable : s.isAble = false) (ht : s.isThrough = false) (hn : s.nextTimer? = some t) :
    { s with now := t }.Attended o ∧ l.Meets { s with now := t }.core ∧
      { s with now := t }.core.left < s.core.left := by
  obtain ⟨l₀, time, x, rfl, hlt, hk, hx⟩ := ha.sleeps hm hable ht
  obtain ⟨-, -, -, -, hcallers, hstanding⟩ := Core.mk.inj hk
  obtain ⟨⟨hmem, hlt'⟩, hmin⟩ := nextTimer?_eq_some_iff.1 hn
  have hle : t ≤ l₀.now + time := hmin _ ((ha.mem_timers hcallers).2 (.inl rfl)) hlt
  refine ⟨ha.update _ _ _ _ _ _, ?_⟩
  rw [core_now, hk]
  refine ⟨.sleeping hle ?_, ?_⟩
  · rw [← Standing.lapse_lapse (Nat.le_of_lt hlt'), hx, Standing.lapse_lapse (Nat.le_of_lt hlt')]
  · have hdrop := Standing.left_anti (Nat.le_of_lt hlt') x
    simp only [Core.left_last, Stage.left, if_neg (Nat.not_le.2 hlt)]
    by_cases hdue : l₀.now + time ≤ t
    · rw [if_pos hdue]
      omega
    · rw [if_neg hdue]
      rcases (ha.mem_timers hcallers).1 hmem with rfl | hd
      · exact absurd (Nat.le_refl _) hdue
      · rw [← hstanding, Standing.left_of_deadline hd hlt']
        omega

/-- **Nothing gets stuck** before the script is through. -/
theorem Attended.exists_plays (ha : s.Attended o) (hm : l.Meets s.core) {rest : List Call}
    (hrest : ∀ c ∈ rest, c.isScripted = true) (h : rest ≠ [] ∨ s.isThrough = false) :
    ∃ y, Plays (s, rest) y := by
  cases ht : s.isThrough with
  | true =>
      cases rest with
      | nil => simp [ht] at h
      | cons c rest =>
          obtain ⟨s', hs', -⟩ := ha.exists_issue hm (hrest c (by simp)) ht
          exact ⟨(s', rest), .issue ht hs'⟩
  | false =>
      cases hable : s.isAble with
      | true =>
          obtain ⟨a, hact, s', hs'⟩ := exists_step_of_isAble hable
          exact ⟨(s', rest), .act hact hs'⟩
      | false =>
          obtain ⟨l₀, time, x, rfl, hlt, hk, -⟩ := ha.sleeps hm hable ht
          obtain ⟨-, -, -, -, hcallers, -⟩ := Core.mk.inj hk
          have hmem : l₀.now + time ∈ s.timers.filter (s.now < ·) := by
            simp [(ha.mem_timers hcallers).2 (.inl rfl), hlt]
          obtain ⟨t, hn⟩ := Option.isSome_iff_exists.1 (List.isSome_min?_of_mem hmem)
          have hle := Nat.le_of_lt (nextTimer?_eq_some_iff.1 hn).1.2
          exact ⟨({ s with now := t }, rest), .elapse hable ht hn (if_pos hle)⟩

end Waiting

section Runs

variable {o : Observer} {s s' : System} {l : Ledger} {script rest : List Call}

/-- **One step** keeps the relation, and uses up some of what is left. -/
theorem Attended.meets_of_plays (ha : s.Attended o) (hm : l.Meets s.core)
    (hscript : ∀ c ∈ script, c.isScripted = true) (h : Plays (s, script) (s', rest)) :
    ∃ made, script = made ++ rest ∧ s'.Attended o ∧ (l.plays made).Meets s'.core ∧
      s'.core.left + 5 * rest.length < s.core.left + 5 * script.length := by
  cases h with
  | @issue _ _ c _ ht h =>
      obtain ⟨s₁, hs₁, ha', hm', hlt⟩ := ha.exists_issue hm (hscript c (by simp)) ht
      rw [h] at hs₁
      cases hs₁
      refine ⟨[c], rfl, ha', hm', ?_⟩
      rw [List.length_cons]
      omega
  | act hact h =>
      rcases hact with rfl | rfl | ⟨i, rfl⟩
      · obtain ⟨ha', hm', hlt⟩ := ha.meets_of_work hm h
        exact ⟨[], rfl, ha', hm', Nat.add_lt_add_right hlt _⟩
      · rw [step, ha.deliver_eq_none] at h
        cases h
      · obtain ⟨ha', hm', hlt⟩ := ha.meets_of_resume hm h
        exact ⟨[], rfl, ha', hm', Nat.add_lt_add_right hlt _⟩
  | elapse hable ht hn h =>
      rw [step, if_pos (Nat.le_of_lt (nextTimer?_eq_some_iff.1 hn).1.2)] at h
      cases h
      obtain ⟨ha', hm', hlt⟩ := ha.meets_of_elapse hm hable ht hn
      exact ⟨[], rfl, ha', hm', Nat.add_lt_add_right hlt _⟩

/-- A whole run keeps it, and cannot be longer than what is left. -/
theorem Attended.meets_of_played {k : Nat} (ha : s.Attended o) (hm : l.Meets s.core)
    (hscript : ∀ c ∈ script, c.isScripted = true) (h : Played k (s, script) (s', rest)) :
    ∃ made, script = made ++ rest ∧ s'.Attended o ∧ (l.plays made).Meets s'.core ∧
      k + s'.core.left + 5 * rest.length ≤ s.core.left + 5 * script.length := by
  generalize hx : (s, script) = x, hy : (s', rest) = y at h
  induction h generalizing s' rest with
  | refl x =>
      rw [← hx] at hy
      cases hy
      exact ⟨[], rfl, ha, hm, by omega⟩
  | @tail k x y z h hs ih =>
      subst hy
      obtain ⟨s₁, rest₁⟩ := y
      obtain ⟨made, rfl, ha₁, hm₁, hle⟩ := ih hx rfl
      obtain ⟨made', rfl, ha', hm', hlt⟩ :=
        ha₁.meets_of_plays hm₁ (fun c hc => hscript c (by simp [hc])) hs
      refine ⟨made ++ made', by simp, ha', ?_, by omega⟩
      rw [Ledger.plays, List.foldl_append]
      exact hm'

/-- An idle worker has let the deadline pass, if it has come. -/
theorem Attended.lapse_of_idle (ha : s.Attended o) (hw : s.work = none) :
    s.standing.lapse s.now = s.standing := by
  refine Standing.lapse_eq_self ?_
  rw [work, Machine.turn_of_running ha.running, Option.map_eq_none_iff] at hw
  split at hw
  · cases hw
  · next hx => exact hx

/-- Where the worker is idle, the machine has come as far as the ledger. -/
theorem Attended.standing_of_idle (ha : s.Attended o) (hm : l.Meets s.core)
    (hw : s.work = none) : s.standing = l.standing.lapse s.now := by
  have hslot : ∀ ticket c, s.core.slot ≠ .full ticket c := by
    intro ticket c hslot
    obtain ⟨s', hs'⟩ := ha.exists_work hslot
    rw [hw] at hs'
    cases hs'
  rw [← ha.lapse_of_idle hw]
  exact hm.lapse_eq hslot

/-- What a machine shows while a script is played is what a ledger says. -/
structure Follows (o : Observer) (l : Ledger) (s : System) : Prop where
  answers : s.callers.filterMap Stage.answer? <+: l.answers
  through : s.isThrough = true →
    s.callers.filterMap Stage.answer? = l.answers ∧ s.now = l.now
  idle : s.work = none →
    s.machine.phase = (l.standing.lapse s.now).tracker.phase ∧
      s.issued = (l.standing.lapse s.now).notifications
  /-- A listener that leaves its registration alone hears all that there is to tell. -/
  heard : o.IsSteady → s.notifications o = s.issued

theorem Attended.follows (ha : s.Attended o) (hm : l.Meets s.core) : s.Follows o l where
  answers := hm.answers_prefix
  through := by
    intro ht
    obtain ⟨x, hk, -⟩ := exists_core_of_isThrough hm ht
    obtain ⟨hnow, -, -, -, hcallers, -⟩ := Core.mk.inj hk
    rw [hcallers]
    exact ⟨filterMap_answer?_finished, hnow⟩
  idle := by
    intro hw
    rw [← ha.standing_of_idle hm hw]
    exact ⟨ha.phase, rfl⟩
  heard := fun ho => (ha.heard ho).2

/-- A machine that was just started with a listener. -/
structure Fresh (settings : Settings) (o : Observer) (s : System) : Prop where
  machine : ∃ m, Machine.create settings = .ok m ∧
    (m.register (some o)).start true = .ok s.machine
  callers : s.callers = []
  deliveries : s.deliveries = []
  pump : s.pump = .idle
  journal : s.journal = []

theorem Fresh.exists_machine {settings : Settings} (hs : s.Fresh settings o) :
    ∃ timing, Timing.ofSettings settings = .ok timing ∧
      s.machine = { settings, timing, status := .running, listener := some o } := by
  obtain ⟨m, hm, hstart⟩ := hs.machine
  obtain ⟨timing, htiming, rfl⟩ := Machine.exists_timing_of_create hm
  exact ⟨timing, htiming, (Except.ok.inj hstart).symm⟩

theorem Fresh.issued_eq {settings : Settings} (hs : s.Fresh settings o) : s.issued = [] := by
  rw [issued, hs.journal]
  rfl

theorem Fresh.exists_core {settings : Settings} (hs : s.Fresh settings o) :
    ∃ timing, Timing.ofSettings settings = .ok timing ∧
      s.core = ⟨s.now, timing, .empty, [], [], {}⟩ := by
  obtain ⟨timing, htiming, hmachine⟩ := hs.exists_machine
  refine ⟨timing, htiming, ?_⟩
  rw [core, standing, hs.issued_eq, hmachine, hs.callers]
  rfl

theorem Fresh.attended {settings : Settings} (hs : s.Fresh settings o) (ho : o.Returns)
    (hguard : 1 ≤ settings.stateChangeTimeout.toInt) : s.Attended o := by
  obtain ⟨timing, -, hmachine⟩ := hs.exists_machine
  have hlimit : 0 < settings.stateChangeLimit := by
    have hnat : 0 < settings.stateChangeTimeout.toInt.toNat := by
      omega
    exact Nat.mul_pos hnat (by decide)
  refine ⟨?_, ?_, ?_, ?_, ?_, ?_, hs.deliveries, hs.pump⟩
  · rw [hmachine]
  · rw [hmachine]
    intro o' ho'
    rw [← Option.some.inj ho']
    exact ho
  · intro _
    rw [hmachine, hs.issued_eq, notifications, hs.journal]
    exact ⟨rfl, rfl⟩
  · rw [hmachine]
  · rw [hmachine]
    exact hlimit
  · rw [hmachine]

theorem Fresh.meets {settings : Settings} (hs : s.Fresh settings o) (ho : o.Returns)
    (hguard : 1 ≤ settings.stateChangeTimeout.toInt) :
    ∃ timing, Timing.ofSettings settings = .ok timing ∧ s.Attended o ∧
      s.core.left = 0 ∧ Ledger.Meets ⟨s.now, timing, {}, []⟩ s.core := by
  obtain ⟨timing, htiming, hcore⟩ := hs.exists_core
  refine ⟨timing, htiming, hs.attended ho hguard, ?_, ?_⟩
  · rw [hcore]
    rfl
  · rw [hcore]
    exact .through rfl

/-- **A machine plays a script like a bare tracker**: in every run, whatever the order of what happens
at one instant, and no run gets stuck or goes on for ever. -/
theorem follows_of_played {settings : Settings} {k : Nat} (hs : s.Fresh settings o)
    (ho : o.Returns) (hguard : 1 ≤ settings.stateChangeTimeout.toInt)
    (hscript : ∀ c ∈ script, c.isScripted = true) (h : Played k (s, script) (s', rest)) :
    ∃ timing made, Timing.ofSettings settings = .ok timing ∧ script = made ++ rest ∧
      s'.Follows o (Ledger.plays ⟨s.now, timing, {}, []⟩ made) ∧ k ≤ 5 * script.length ∧
      (rest ≠ [] ∨ s'.isThrough = false → ∃ y, Plays (s', rest) y) := by
  obtain ⟨timing, htiming, ha, hleft, hm⟩ := hs.meets ho hguard
  obtain ⟨made, rfl, ha', hm', hle⟩ := ha.meets_of_played hm hscript h
  refine ⟨timing, made, htiming, rfl, ha'.follows hm', by omega, fun hrest => ?_⟩
  exact ha'.exists_plays hm' (fun c hc => hscript c (by simp [hc])) hrest

/-- A request and a sleep up to the deadline of its confirmation; the sleeper is quicker than the
worker. -/
theorem follows_of_played_sleep :
    ∃ (s s' : System) (o : Observer), Setup.assemble { harness := some "resident" } = .ok s ∧
      s.Fresh {} o ∧ o.Returns ∧
      Played 7 (s, [.newRequest ⟨.node 1, 0, 0, 0, []⟩, .sleep (Duration.millis 500)]) (s', []) ∧
      ∃ timing made, Timing.ofSettings {} = .ok timing ∧
        [.newRequest ⟨.node 1, 0, 0, 0, []⟩, .sleep (Duration.millis 500)] = made ++ [] ∧
        s'.Follows o (Ledger.plays ⟨s.now, timing, {}, []⟩ made) := by
  obtain ⟨s, hs, hf, hrun⟩ : ∃ s, Setup.assemble { harness := some "resident" } = .ok s ∧
      s.Fresh {} ⟨.recording, "resident", 0⟩ ∧
      (([none, some .work, some (.resume 0), none, some (.elapse (Duration.millis 500)),
        some (.resume 1), some .work].foldlM play?
          (s, [.newRequest ⟨.node 1, 0, 0, 0, []⟩, .sleep (Duration.millis 500)])).any
        fun y => y.2 = []) = true :=
    ⟨_, rfl, ⟨⟨_, rfl, rfl⟩, rfl, rfl, rfl, rfl⟩, by decide +kernel⟩
  obtain ⟨⟨s', rest⟩, hrun, hrest⟩ := (Option.any_eq_true _ _).1 hrun
  obtain rfl : rest = [] := of_decide_eq_true hrest
  have ho : Observer.Returns ⟨.recording, "resident", 0⟩ := fun n => rfl
  have hp := played_of_foldlM hrun
  obtain ⟨timing, made, htiming, hmade, hfollows, -⟩ :=
    follows_of_played hf ho (by decide) (by decide) hp
  exact ⟨s, s', _, hs, hf, ho, hp, timing, made, htiming, hmade, hfollows⟩

end Runs

end System
end MeshExchange
