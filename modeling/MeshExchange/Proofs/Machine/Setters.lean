import MeshExchange.Proofs.Machine.Bench

/-!
# The times of a worker

The times that budgets are computed from may be set at any moment. A worker looks at them when it accepts
a request or a confirmation, and at no other moment: two workers that have the same times in force then
do the same, whatever else their times were set to and when.

**Input.** Two lists of stimuli with the same commands and passes at the same instants. Times may be set
in one of them and not in the other, and the clock may move in other steps.

**Method.** A pass of a worker does not depend on its times, but for the deadline of a phase that a request
or a confirmation led to. So the workers are compared with their times left aside, from one pass to the
next.

**Results.**
* `Machine.Works.timed`, `Machine.Works.exists_timed`: a pass under other times;
* `Stimulus.common`: the stimuli that matter, each with its instant;
* `Bench.shown`, `Bench.timings`: what a worker shows at them, and the times it looked at;
* `Bench.meet_timed`, `Bench.meet_of_isAside`: a stimulus under other times, and one that does not matter;
* `Bench.alike_of_timings_eq`: the times that were looked at decide what is shown.
-/

namespace MeshExchange

/-- Whether a command is answered with a phase whose budget depends on the times. -/
def Command.isTimed : Command → Bool
  | .newRequest _ | .confirmationReceived _ _ => true
  | .responseReceived _ _ | .resetAfterError => false

/-- Whether a request or a confirmation was accepted. -/
def Deed.isTimed : Deed → Bool
  | .handled _ c (.ok _) => c.isTimed
  | _ => false

namespace Stimulus

variable {L : Type}

/-- Whether a stimulus only moves the clock or sets a time. -/
def isAside : Stimulus L → Bool
  | .elapse _ | .setTime _ _ => true
  | _ => false

/-- The instant after a stimulus. -/
def clock (now : Instant) : Stimulus L → Instant
  | .elapse t => t
  | _ => now

/-- The stimuli that do more than that, each with its instant. -/
def common (now : Instant) : List (Stimulus L) → List (Instant × Stimulus L)
  | [] => []
  | a :: rest => (if a.isAside then [] else [(now, a)]) ++ common (a.clock now) rest

end Stimulus

namespace Tracker

variable {timing timing' : Timing} {now : Instant} {t t₁ t₂ : Tracker} {c : Command}

/-- Only requests and confirmations look at the times. -/
theorem Moves.of_isTimed_eq_false (h : Moves timing now t c t₁) (hc : c.isTimed = false) :
    Moves timing' now t c t₁ := by
  cases h with
  | asked => cases hc
  | announced => cases hc
  | confirmed => cases hc
  | spread => cases hc
  | answered => exact .answered
  | freed hp => exact .freed hp

/-- The times do not decide which phase a command leads to. -/
theorem Moves.phase_eq (h₁ : Moves timing now t c t₁) (h₂ : Moves timing' now t c t₂) :
    t₁.phase = t₂.phase := by
  cases h₁ with
  | asked hr => cases h₂ with
    | asked => rfl
    | announced hr' => exact absurd (hr.symm.trans hr') (by simp)
  | announced hr => cases h₂ with
    | asked hr' => exact absurd (hr.symm.trans hr') (by simp)
    | announced => rfl
  | confirmed he => cases h₂ with
    | confirmed => rfl
    | spread he' => exact absurd (he.symm.trans he') (by simp)
  | spread he => cases h₂ with
    | confirmed he' => exact absurd (he.symm.trans he') (by simp)
    | spread => rfl
  | answered => cases h₂; rfl
  | freed => cases h₂; rfl

end Tracker

namespace Machine

variable {L : Type}

/-- The machine under other times. -/
def timed (m : Machine L) (timing : Timing) : Machine L := { m with timing }

section Timed

variable {callback : Callback L} {now : Instant} {m m' : Machine L} {turn : Turn L}

theorem announce_timed (callback : Callback L) (n? : Option Notification) (m : Machine L)
    (timing : Timing) :
    (m.timed timing).announce callback n? = (m.announce callback n?).timed timing := by
  cases n? with
  | none => rfl
  | some n =>
      cases hl : m.listener with
      | none => simp [announce, notify, hl, timed]
      | some l =>
          cases hr : (callback l n).returns with
          | true => simp [announce, notify, hl, hr, timed]
          | false => simp [announce, notify, hl, hr, timed, close]

/-- A pass that does not look at the times, or finds them the same. -/
theorem Works.timed {timing : Timing} (h : Works callback now m turn m')
    (ht : turn.deed.isTimed = true → timing = m.timing) :
    Works callback now (m.timed timing) turn (m'.timed timing) := by
  cases h with
  | stops hs => exact .stops hs
  | lapses hs hd hl =>
      rw [← announce_timed]
      exact .lapses hs hd hl
  | @accepts ticket c mailbox t hs hd hb hm =>
      have hm' : m.tracker.Moves timing now c t := by
        cases hc : c.isTimed with
        | true => exact ht hc ▸ hm
        | false => exact hm.of_isTimed_eq_false hc
      rw [← announce_timed]
      exact .accepts hs hd hb hm'
  | refuses hs hd hb hf => exact .refuses hs hd hb hf

/-- Under other times the worker makes the same pass. -/
theorem Works.exists_timed (h : Works callback now m turn m') (timing : Timing) :
    ∃ m₁, Works callback now (m.timed timing) turn m₁ := by
  cases h with
  | stops hs => exact ⟨_, .stops hs⟩
  | lapses hs hd hl => exact ⟨_, .lapses hs hd hl⟩
  | @accepts ticket c mailbox t hs hd hb hm =>
      obtain ⟨t₁, hm₁, -⟩ := Tracker.exists_moves_of_refusal_eq_none timing now
        hm.refusal?_eq_none
      have hw : Works callback now (m.timed timing)
          ⟨.handled ticket c (.ok t₁.phase), c.notification?.bind m.audience⟩ _ :=
        .accepts hs hd hb hm₁
      exact ⟨_, hm.phase_eq hm₁ ▸ hw⟩
  | refuses hs hd hb hf => exact ⟨_, .refuses hs hd hb hf⟩

theorem start_timed (m : Machine L) (hasExecutor : Bool) (timing : Timing) :
    (m.timed timing).start hasExecutor = (m.start hasExecutor).map (·.timed timing) := by
  unfold start timed
  cases m.status <;> cases hasExecutor <;> rfl

theorem destroy_timed (m : Machine L) (timing : Timing) :
    (m.timed timing).destroy = m.destroy.timed timing := by
  cases hs : m.status <;> simp [destroy, timed, hs, close]

end Timed
end Machine

namespace Bench

variable {L : Type}

/-- The bench at another instant and under other times. -/
def aside (x : Bench L) (now : Instant) (timing : Timing) : Bench L := ⟨now, x.machine.timed timing⟩

/-- The bench under other times. -/
def timed (x : Bench L) (timing : Timing) : Bench L := x.aside x.now timing

/-- The bench with its times left aside. -/
def untimed (x : Bench L) : Bench L := x.timed {}

/-- What a worker shows at the stimuli that matter: each pass, and the bench after it. -/
def shown (callback : Callback L) (x : Bench L) :
    List (Stimulus L) → List (Option (Turn L) × Bench L)
  | [] => []
  | a :: rest =>
      let (turn?, y) := x.meet callback a
      (if a.isAside then [] else [(turn?, y.untimed)]) ++ shown callback y rest

/-- The times in force whenever a request or a confirmation is accepted. -/
def timings (callback : Callback L) (x : Bench L) : List (Stimulus L) → List Timing
  | [] => []
  | a :: rest =>
      let (turn?, y) := x.meet callback a
      (if turn?.any (·.deed.isTimed) then [x.machine.timing] else []) ++ timings callback y rest

/-- Two benches that differ in nothing but their clocks and their times. -/
def Alike (x y : Bench L) : Prop := x.machine.timed {} = y.machine.timed {}

section Timed

variable {callback : Callback L} {x y : Bench L} {slot : Slot} {a : Stimulus L} {turn : Turn L}
  {now : Instant} {timing : Timing}

@[simp] theorem timed_self (x : Bench L) : x.timed x.machine.timing = x := rfl

@[simp] theorem now_aside (x : Bench L) (now : Instant) (timing : Timing) :
    (x.aside now timing).now = now := rfl

theorem Alike.timed_eq (h : Alike x y) : y.aside x.now timing = x.timed timing :=
  congrArg (fun m => Bench.mk x.now (m.timed timing)) (Eq.symm h)

theorem fst_pass_timed_of_some (timing : Timing) (h : (x.pass callback slot).1 = some turn) :
    ((x.timed timing).pass callback slot).1 = some turn := by
  obtain ⟨m, hw⟩ := exists_works_of_pass h
  obtain ⟨m₁, hw₁⟩ := hw.exists_timed timing
  exact congrArg Prod.fst (pass_of_works (x := x.timed timing) hw₁)

theorem fst_pass_timed (timing : Timing) :
    ((x.timed timing).pass callback slot).1 = (x.pass callback slot).1 :=
  Option.ext fun _ =>
    ⟨fst_pass_timed_of_some (x := x.timed timing) x.machine.timing, fst_pass_timed_of_some timing⟩

/-- Without a pass the bench stays as it is. -/
theorem pass_eq_of_none (h : (x.pass callback slot).1 = none) : x.pass callback slot = (none, x) := by
  unfold pass at h ⊢
  split
  · next heq =>
      rw [heq] at h
      cases h
  · rfl

theorem pass_timed
    (ht : ∀ turn, (x.pass callback slot).1 = some turn → turn.deed.isTimed = true →
      timing = x.machine.timing) :
    (x.timed timing).pass callback slot =
      ((x.pass callback slot).1, (x.pass callback slot).2.timed timing) := by
  cases h : (x.pass callback slot).1 with
  | none =>
      rw [pass_eq_of_none ((fst_pass_timed timing).trans h), pass_eq_of_none h]
  | some turn =>
      obtain ⟨m, hw⟩ := exists_works_of_pass h
      rw [pass_of_works (x := x.timed timing) (hw.timed (ht turn h)), pass_of_works hw]
      rfl

theorem change_timed {r : Except Fault (Machine L)} (timing : Timing) :
    (x.timed timing).change (r.map (·.timed timing)) = (x.change r).timed timing := by
  cases r <;> rfl

/-- Under other times the worker makes the same pass. -/
theorem fst_meet_timed (callback : Callback L) (x : Bench L) (timing : Timing)
    (a : Stimulus L) : ((x.timed timing).meet callback a).1 = (x.meet callback a).1 := by
  cases a with
  | wake => exact fst_pass_timed timing
  | command ticket c => exact fst_pass_timed timing
  | _ => rfl

/-- **A stimulus under other times**, if the worker does not look at them or finds them the same. -/
theorem meet_timed (timing : Timing) (ha : a.isAside = false)
    (ht : ∀ turn, (x.meet callback a).1 = some turn → turn.deed.isTimed = true →
      timing = x.machine.timing) :
    (x.timed timing).meet callback a =
      ((x.meet callback a).1, (x.meet callback a).2.timed timing) := by
  cases a with
  | start =>
      refine congrArg (Prod.mk none) ?_
      change (x.timed timing).change ((x.machine.timed timing).start true) =
        (x.change (x.machine.start true)).timed timing
      rw [Machine.start_timed]
      exact change_timed timing
  | destroy =>
      refine congrArg (Prod.mk none) ?_
      exact congrArg (Bench.mk x.now) (Machine.destroy_timed x.machine timing)
  | register => rfl
  | wake => exact pass_timed ht
  | command ticket c => exact pass_timed ht
  | elapse => cases ha
  | setTime => cases ha

/-- Only a stimulus that sets a time changes the times. -/
theorem timing_meet (callback : Callback L) (x : Bench L) (ha : a.isAside = false) :
    (x.meet callback a).2.machine.timing = x.machine.timing := by
  have h : (x.timed x.machine.timing).meet callback a = _ :=
    meet_timed x.machine.timing ha fun _ _ _ => rfl
  rw [timed_self] at h
  exact congrArg (·.2.machine.timing) h

/-- **A stimulus that does not matter** changes nothing but the clock and the times. -/
theorem meet_of_isAside (callback : Callback L) (x : Bench L) (ha : a.isAside = true) :
    ∃ timing, x.meet callback a = (none, x.aside (a.clock x.now) timing) := by
  cases a with
  | elapse t => exact ⟨x.machine.timing, rfl⟩
  | setTime f ms =>
      simp only [meet, Machine.setTime]
      cases x.machine.timing.withTime f ms with
      | ok timing => exact ⟨timing, rfl⟩
      | error fault => exact ⟨x.machine.timing, rfl⟩
  | _ => cases ha

/-- Any other stimulus leaves the clock. -/
theorem now_meet (callback : Callback L) (x : Bench L) (ha : a.isAside = false) :
    (x.meet callback a).2.now = a.clock x.now := by
  have hpass (slot : Slot) : (x.pass callback slot).2.now = x.now := by
    unfold pass
    split <;> rfl
  cases a with
  | start =>
      change (x.change (x.machine.start true)).now = x.now
      unfold change
      split <;> rfl
  | wake => exact hpass _
  | command ticket c => exact hpass _
  | destroy => rfl
  | register => rfl
  | _ => cases ha

end Timed

section Runs

open Stimulus (common)

variable {callback : Callback L} {x y : Bench L} {a : Stimulus L} {t : Instant}
  {as bs : List (Stimulus L)} {rest : List (Instant × Stimulus L)}

/-- One list of stimuli shows of a bench what another shows of another bench, and looks at the same
times. -/
structure Shows (callback : Callback L) (x : Bench L) (as : List (Stimulus L)) (y : Bench L)
    (bs : List (Stimulus L)) : Prop where
  shown : x.shown callback as = y.shown callback bs
  timings : x.timings callback as = y.timings callback bs
  after : x.after callback as = y.after callback bs

theorem Shows.refl (callback : Callback L) (x : Bench L) (as : List (Stimulus L)) :
    Shows callback x as x as := ⟨rfl, rfl, rfl⟩

theorem Shows.trans {z : Bench L} {cs : List (Stimulus L)} (h : Shows callback x as y bs)
    (h' : Shows callback y bs z cs) : Shows callback x as z cs :=
  ⟨h.shown.trans h'.shown, h.timings.trans h'.timings, h.after.trans h'.after⟩

/-- What does not matter may be left out, but for what it makes of the bench. -/
theorem shows_of_meet (ha : a.isAside = true) (hmeet : x.meet callback a = (none, y))
    (as : List (Stimulus L)) : Shows callback x (a :: as) y as where
  shown := by simp [shown, hmeet, ha]
  timings := by simp [timings, hmeet]
  after := by simp [after, hmeet]

/-- It makes another clock and other times of it. -/
theorem shows_of_isAside (callback : Callback L) (x : Bench L) (ha : a.isAside = true)
    (as : List (Stimulus L)) :
    ∃ timing, Shows callback x (a :: as) (x.aside (a.clock x.now) timing) as := by
  obtain ⟨timing, hmeet⟩ := meet_of_isAside callback x ha
  exact ⟨timing, shows_of_meet ha hmeet as⟩

/-- What is shown tells of every pass. -/
theorem passes_shown (callback : Callback L) (x : Bench L) (as : List (Stimulus L)) :
    passes (x.shown callback as) = passes (x.trace callback as) := by
  induction as generalizing x with
  | nil => rfl
  | cons a as ih =>
      cases ha : a.isAside with
      | true =>
          obtain ⟨timing, hmeet⟩ := meet_of_isAside callback x ha
          have h := ih (x := x.aside (a.clock x.now) timing)
          simp only [shown, trace, hmeet, ha, if_true, List.nil_append]
          rw [h]
          rfl
      | false =>
          have h := ih (x := (x.meet callback a).2)
          simp only [shown, trace, ha, Bool.false_eq_true, if_false, List.cons_append,
            List.nil_append, passes, List.filterMap_cons] at h ⊢
          rw [h]
          rfl

/-- Up to the end, if nothing matters. -/
theorem exists_aside_of_common_nil (callback : Callback L) (h : common y.now bs = []) :
    ∃ now timing, Shows callback y bs (y.aside now timing) [] := by
  induction bs generalizing y with
  | nil => exact ⟨y.now, y.machine.timing, .refl callback y []⟩
  | cons b bs ih =>
      cases hb : b.isAside with
      | true =>
          obtain ⟨timing, hskip⟩ := shows_of_isAside callback y hb bs
          obtain ⟨now', timing', hs⟩ := ih (y := y.aside (b.clock y.now) timing)
            (by simpa [common, hb] using h)
          exact ⟨now', timing', hskip.trans hs⟩
      | false => simp [common, hb] at h

/-- Up to the first stimulus that matters. -/
theorem exists_aside_of_common_cons (callback : Callback L) (h : common y.now bs = (t, a) :: rest) :
    ∃ timing bs', Shows callback y bs (y.aside t timing) (a :: bs') ∧
      common (a.clock t) bs' = rest := by
  induction bs generalizing y with
  | nil => cases h
  | cons b bs ih =>
      cases hb : b.isAside with
      | true =>
          obtain ⟨timing, hskip⟩ := shows_of_isAside callback y hb bs
          obtain ⟨timing', bs', hs, hrest⟩ := ih (y := y.aside (b.clock y.now) timing)
            (by simpa [common, hb] using h)
          exact ⟨timing', bs', hskip.trans hs, hrest⟩
      | false =>
          simp only [common, hb, Bool.false_eq_true, if_false, List.cons_append, List.nil_append,
            List.cons.injEq, Prod.mk.injEq] at h
          obtain ⟨⟨rfl, rfl⟩, hrest⟩ := h
          exact ⟨y.machine.timing, bs, .refl callback y (b :: bs), hrest⟩

/-- The times that are looked at first, and those that are looked at later. -/
theorem timings_cons_eq {timing : Timing}
    (h : x.timings callback (a :: as) = (x.timed timing).timings callback (a :: bs)) :
    (∀ turn, (x.meet callback a).1 = some turn → turn.deed.isTimed = true →
        timing = x.machine.timing) ∧
      (x.meet callback a).2.timings callback as =
        ((x.timed timing).meet callback a).2.timings callback bs := by
  simp only [timings, fst_meet_timed] at h
  cases hany : (x.meet callback a).1.any (·.deed.isTimed) with
  | true =>
      simp only [hany, if_true, List.cons_append, List.nil_append, List.cons.injEq] at h
      exact ⟨fun _ _ _ => h.1.symm, h.2⟩
  | false =>
      simp only [hany, Bool.false_eq_true, if_false, List.nil_append] at h
      refine ⟨fun turn hturn htimed => ?_, h⟩
      rw [hturn, Option.any_some, htimed] at hany
      cases hany

/-- **The times that were looked at decide what is shown.** -/
theorem alike_of_timings_eq (hxy : Alike x y) (h : common x.now as = common y.now bs)
    (ht : x.timings callback as = y.timings callback bs) :
    x.shown callback as = y.shown callback bs ∧
      Alike (x.after callback as) (y.after callback bs) := by
  induction as generalizing x y bs with
  | nil =>
      obtain ⟨now, timing, hs⟩ := exists_aside_of_common_nil callback h.symm
      rw [hs.shown, hs.after]
      exact ⟨rfl, hxy⟩
  | cons a as ih =>
      cases ha : a.isAside with
      | true =>
          obtain ⟨timing, hskip⟩ := shows_of_isAside callback x ha as
          rw [hskip.shown, hskip.after]
          rw [hskip.timings] at ht
          refine ih hxy ?_ ht
          rw [← h]
          simp [common, ha, aside]
      | false =>
          have hcommon : common y.now bs = (x.now, a) :: common (a.clock x.now) as := by
            rw [← h]
            simp [common, ha]
          obtain ⟨timing, bs', hs, hbs'⟩ :=
            exists_aside_of_common_cons callback hcommon
          rw [hxy.timed_eq] at hs
          rw [hs.timings] at ht
          obtain ⟨heads, tails⟩ := timings_cons_eq ht
          have hmeet := meet_timed timing ha heads
          have hnow := now_meet callback x ha
          have hxy' : Alike (x.meet callback a).2 ((x.timed timing).meet callback a).2 := by
            rw [hmeet]
            rfl
          have hrest : common (x.meet callback a).2.now as =
              common ((x.timed timing).meet callback a).2.now bs' := by
            rw [hmeet]
            exact (congrArg (common · as) hnow).trans
              (hbs'.symm.trans (congrArg (common · bs') hnow.symm))
          obtain ⟨hshown, hafter⟩ := ih hxy' hrest tails
          rw [hs.shown, hs.after]
          simp only [shown, after, List.foldl_cons, ha, hmeet, Bool.false_eq_true, if_false]
          rw [hmeet] at hshown hafter
          exact ⟨congrArg _ hshown, hafter⟩

end Runs

end Bench
end MeshExchange
