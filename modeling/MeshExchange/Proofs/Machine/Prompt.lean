import MeshExchange.Proofs.Machine.Setters

/-!
# The passes that a worker makes by itself

A worker stops when it was told to, and lets a phase end when the deadline has come. Nobody else decides
when: if the clock waits for the worker, these passes fall on instants that everything else determines.
So two workers to which the same comes from outside at the same instants make the same passes at the same
instants.

**Input.** Two lists of stimuli in which the same commands are handled at the same instants, and the
machine is started and destroyed and gets its listeners at the same instants. Times may be set in one of
them and not in the other, and the clock may move in other steps, as long as it waits for the worker.

**Method.** The stimuli of both lists are compared one by one, those left aside that only move the clock
or set a time. A pass of the worker's own comes next in one list if something is due before anything else
comes, and that depends on nothing but the machine and the instants. A command never comes first, for
what is due is done before a command is handled.

**Results.**
* `Bench.isDue`, `Bench.isPrompt`: what the worker does by itself, and a clock that waits for it;
* `Stimulus.outer`: what comes from outside;
* `Bench.Orderly`, `Bench.Orderly.exists_first`: up to the first stimulus that matters;
* `Bench.Compares`, `Bench.Compares.exists_rest`: two lists of stimuli, and what comes after the first;
* `Bench.Compares.common_eq`: the passes of the worker's own follow from everything else.
-/

namespace MeshExchange

namespace Stimulus

variable {L : Type}

/-- Whether a stimulus is a pass of the worker's own. -/
def isWake : Stimulus L → Bool
  | .wake => true
  | _ => false

theorem clock_of_isAside_eq_false {a : Stimulus L} {now : Instant} (ha : a.isAside = false) :
    a.clock now = now := by
  cases a with
  | elapse => cases ha
  | _ => rfl

/-- What comes from outside, each with its instant: commands, starts, destroys and registrations. -/
def outer (now : Instant) (stimuli : List (Stimulus L)) : List (Instant × Stimulus L) :=
  (common now stimuli).filter fun x => !x.2.isWake

/-- Whether a stimulus may come although the worker has something to do. A command may come, but it is not
handled before that is done. -/
def mayComeFirst (now : Instant) : Stimulus L → Bool
  | .elapse t => t ≤ now
  | .setTime _ _ | .wake | .command _ _ => true
  | .start | .destroy | .register _ => false

end Stimulus

namespace Bench

variable {L : Type}

section Due

/-- Whether at an instant the worker has something to do by itself: to stop, or to let a phase end. -/
def isDueAt (x : Bench L) (t : Instant) : Bool :=
  match x.machine.status with
  | .stopping => true
  | .running => x.machine.tracker.isDue t
  | _ => false

/-- Whether it has now. -/
def isDue (x : Bench L) : Bool := x.isDueAt x.now

/-- Whether time passes, the machine is started or destroyed or gets another listener, and the stimuli
end, only while the worker has nothing to do by itself. -/
def isPrompt (callback : Callback L) (x : Bench L) : List (Stimulus L) → Bool
  | [] => !x.isDue
  | a :: rest => (a.mayComeFirst x.now || !x.isDue) && isPrompt callback (x.meet callback a).2 rest

/-- Whether a stimulus comes in its turn. -/
def Admits (x : Bench L) : Stimulus L → Prop
  | .elapse t => x.now ≤ t ∧ (x.now < t → x.isDue = false) ∧ x.isOnTime ⟨t, x.machine⟩ = true
  | .setTime _ _ => True
  | .wake => x.isDue = true
  | .start | .destroy | .register _ | .command _ _ => x.isDue = false

/-- All stimuli come in their turn, and at the end the worker has nothing left to do. -/
def Orderly (callback : Callback L) (x : Bench L) : List (Stimulus L) → Prop
  | [] => x.isDue = false
  | a :: rest => x.Admits a ∧ Orderly callback (x.meet callback a).2 rest

variable {x y : Bench L} {t u : Instant}

theorem isDueAt_mono (h : t ≤ u) (hd : x.isDueAt t = true) : x.isDueAt u = true := by
  unfold isDueAt at hd ⊢
  split
  · rfl
  · next hs =>
      rw [hs] at hd
      exact Tracker.isDue_mono h hd
  · next hs hr =>
      split at hd
      · next hs' => exact absurd hs' hs
      · next hr' => exact absurd hr' hr
      · cases hd

theorem Alike.tracker_eq (h : Alike x y) : x.machine.tracker = y.machine.tracker := by
  have hm : (x.machine.timed {}).tracker = (y.machine.timed {}).tracker :=
    congrArg (fun m : Machine L => m.tracker) h
  exact hm

theorem Alike.isDueAt_eq (h : Alike x y) : x.isDueAt = y.isDueAt := by
  have hm : (x.timed {}).isDueAt = (y.timed {}).isDueAt :=
    congrArg (fun m t => isDueAt (Bench.mk x.now m) t) h
  exact hm

theorem Alike.symm (h : Alike x y) : Alike y x := Eq.symm h

/-- On time, the clock does not pass an instant at which something is due. -/
theorem le_of_isOnTime {v : Instant} (hn : x.isDue = false) (ht : x.isOnTime ⟨v, x.machine⟩ = true)
    (hu : x.isDueAt u = true) : v ≤ max x.now u := by
  unfold isDueAt at hu
  split at hu
  · next hs =>
      rw [isDue, isDueAt, hs] at hn
      cases hn
  · next hs =>
      obtain ⟨d, hd, hle⟩ := Tracker.isDue_eq_true_iff.1 hu
      have hv : v ≤ max x.now d := by simpa [isOnTime, hs, hd] using ht
      exact Nat.le_trans hv (Nat.max_le.2 ⟨Nat.le_max_left _ _, Nat.le_trans hle (Nat.le_max_right _ _)⟩)
  · cases hu

end Due

section First

open Stimulus (common outer)

variable {callback : Callback L} {x y : Bench L} {a : Stimulus L} {t : Instant}
  {as bs : List (Stimulus L)} {rest : List (Instant × Stimulus L)}

/-- What is left aside moves the clock forward, but not past an instant at which something is due. -/
theorem Orderly.of_isAside (h : x.Orderly callback (a :: as)) (ha : a.isAside = true) :
    ∃ timing, Shows callback x (a :: as) (x.aside (a.clock x.now) timing) as ∧
      (x.aside (a.clock x.now) timing).Orderly callback as ∧ x.now ≤ a.clock x.now ∧
      ∀ u, x.now ≤ u → x.isDueAt u = true → a.clock x.now ≤ u := by
  obtain ⟨timing, hmeet⟩ := meet_of_isAside callback x ha
  obtain ⟨hadmits, horderly⟩ := h
  rw [hmeet] at horderly
  refine ⟨timing, shows_of_meet ha hmeet as, horderly, ?_⟩
  cases a with
  | elapse v =>
      obtain ⟨hle, hdue, htime⟩ := hadmits
      refine ⟨hle, fun u hu hd => ?_⟩
      rcases Nat.lt_or_ge x.now v with hlt | hge
      · have hv := le_of_isOnTime (hdue hlt) htime hd
        exact Nat.le_trans hv (Nat.max_le.2 ⟨hu, Nat.le_refl u⟩)
      · exact Nat.le_trans hge hu
  | setTime => exact ⟨Nat.le_refl _, fun _ hu _ => hu⟩
  | _ => cases ha

/-- The end is reached, if nothing matters. -/
theorem Orderly.of_common_nil (h : x.Orderly callback as) (hc : common x.now as = []) :
    x.now ≤ (x.after callback as).now ∧ x.isDueAt (x.after callback as).now = false := by
  induction as generalizing x with
  | nil => exact ⟨Nat.le_refl _, h⟩
  | cons a as ih =>
      cases ha : a.isAside with
      | false => simp [common, ha] at hc
      | true =>
          obtain ⟨timing, hskip, horderly, hle, -⟩ := h.of_isAside ha
          obtain ⟨hnow, hdue⟩ := ih horderly (by simpa [common, ha] using hc)
          rw [hskip.after]
          exact ⟨Nat.le_trans hle hnow, hdue⟩

/-- **Up to the first stimulus that matters**: the clock does not pass an instant at which something is
due. -/
theorem Orderly.exists_first (h : x.Orderly callback as) (hc : common x.now as = (t, a) :: rest) :
    ∃ timing as', Shows callback x as (x.aside t timing) (a :: as') ∧
      common (a.clock t) as' = rest ∧ a.isAside = false ∧
      (x.aside t timing).Orderly callback (a :: as') ∧ x.now ≤ t ∧
      ∀ u, x.now ≤ u → x.isDueAt u = true → t ≤ u := by
  induction as generalizing x with
  | nil => cases hc
  | cons b as ih =>
      cases hb : b.isAside with
      | true =>
          obtain ⟨timing, hskip, horderly, hle, hbound⟩ := h.of_isAside hb
          obtain ⟨timing', as', hs, hrest, ha, horderly', hle', hbound'⟩ :=
            ih horderly (by simpa [common, hb] using hc)
          exact ⟨timing', as', hskip.trans hs, hrest, ha, horderly', Nat.le_trans hle hle',
            fun u hu hd => hbound' u (hbound u hu hd) hd⟩
      | false =>
          simp only [common, hb, Bool.false_eq_true, if_false, List.cons_append, List.nil_append,
            List.cons.injEq, Prod.mk.injEq] at hc
          obtain ⟨⟨rfl, rfl⟩, hrest⟩ := hc
          exact ⟨x.machine.timing, as, .refl callback x (b :: as), hrest, hb, h, Nat.le_refl _,
            fun _ hu _ => hu⟩

theorem Orderly.now_le_after (h : x.Orderly callback as) : x.now ≤ (x.after callback as).now := by
  induction as generalizing x with
  | nil => exact Nat.le_refl _
  | cons a as ih =>
      cases ha : a.isAside with
      | true =>
          obtain ⟨timing, hskip, horderly, hle, -⟩ := h.of_isAside ha
          rw [hskip.after]
          exact Nat.le_trans hle (ih horderly)
      | false =>
          have hnow : (x.meet callback a).2.now = x.now :=
            (now_meet callback x ha).trans (Stimulus.clock_of_isAside_eq_false ha)
          rw [after, List.foldl_cons]
          exact hnow ▸ ih h.2

/-- Nothing comes before the clock. -/
theorem Orderly.le_of_mem_common (h : x.Orderly callback as) (hc : (t, a) ∈ common x.now as) :
    x.now ≤ t := by
  induction as generalizing x with
  | nil => cases hc
  | cons b as ih =>
      cases hb : b.isAside with
      | true =>
          obtain ⟨timing, -, horderly, hle, -⟩ := h.of_isAside hb
          exact Nat.le_trans hle (ih horderly (by simpa [common, hb] using hc))
      | false =>
          have hnow : (x.meet callback b).2.now = x.now :=
            (now_meet callback x hb).trans (Stimulus.clock_of_isAside_eq_false hb)
          simp only [common, hb, Bool.false_eq_true, if_false, List.cons_append, List.nil_append,
            Stimulus.clock_of_isAside_eq_false hb] at hc
          rcases List.mem_cons.1 hc with hc | hc
          · exact Nat.le_of_eq (Prod.mk.inj hc).1.symm
          · exact hnow ▸ ih h.2 (hnow.symm ▸ hc)

end First

section Comparing

open Stimulus (common outer)

variable {callback : Callback L} {x y : Bench L} {t : Instant} {as bs : List (Stimulus L)}
  {rest : List (Instant × Stimulus L)}

/-- A stimulus that comes in its turn is a pass of the worker's own if something is due, and only then. -/
theorem Admits.isWake_eq {a : Stimulus L} (h : x.Admits a) (ha : a.isAside = false) :
    a.isWake = x.isDue := by
  cases a with
  | elapse | setTime => cases ha
  | wake => exact (Eq.symm h)
  | _ => exact (Eq.symm h)

/-- Two benches to which the same comes from outside, each in its turn, until the same instant, and under
the same times whenever they are looked at. -/
structure Compares (callback : Callback L) (x : Bench L) (as : List (Stimulus L)) (y : Bench L)
    (bs : List (Stimulus L)) : Prop where
  left : x.Orderly callback as
  right : y.Orderly callback bs
  alike : Alike x y
  now : x.now = y.now
  ends : (x.after callback as).now = (y.after callback bs).now
  outside : outer x.now as = outer y.now bs
  timings : x.timings callback as = y.timings callback bs

theorem Compares.symm (h : Compares callback x as y bs) : Compares callback y bs x as where
  left := h.right
  right := h.left
  alike := h.alike.symm
  now := h.now.symm
  ends := h.ends.symm
  outside := h.outside.symm
  timings := h.timings.symm

/-- **A pass of the worker's own comes first in one list if it comes first in the other.** -/
theorem Compares.exists_wake (h : Compares callback x as y bs)
    (hc : common x.now as = (t, .wake) :: rest) :
    ∃ rest', common y.now bs = (t, .wake) :: rest' := by
  obtain ⟨timing, as', hs, hrest, -, hfirst, hle, hbound⟩ := h.left.exists_first hc
  have hdue : y.isDueAt t = true := h.alike.isDueAt_eq ▸ hfirst.1
  have hlater : t ≤ (x.after callback as).now := hs.after ▸ hfirst.now_le_after
  cases hc' : common y.now bs with
  | nil =>
      -- at the end nothing is due, but what was due before still is
      have hnone := (h.right.of_common_nil hc').2
      rw [isDueAt_mono (h.ends ▸ hlater) hdue] at hnone
      cases hnone
  | cons head rest' =>
      obtain ⟨t', b⟩ := head
      obtain ⟨timing', bs', -, -, hb, hfirst', hle', hbound'⟩ := h.right.exists_first hc'
      have hwake : b.isWake = y.isDueAt t' := hfirst'.1.isWake_eq hb
      have ht' : t' ≤ t := hbound' t (h.now ▸ hle) hdue
      cases hbw : b.isWake with
      | true =>
          cases b with
          | wake =>
              have hdue' : x.isDueAt t' = true := h.alike.isDueAt_eq ▸ (hbw ▸ hwake).symm
              have ht : t ≤ t' := hbound t' (h.now ▸ hle') hdue'
              obtain rfl := Nat.le_antisymm ht' ht
              exact ⟨rest', rfl⟩
          | _ => cases hbw
      | false =>
          -- what comes from outside before the pass comes before it in the first list as well
          have hmem : (t', b) ∈ outer x.now as := by
            rw [h.outside, outer, hc']
            simp [hbw]
          rw [outer, hc, List.filter_cons_of_neg (by simp [Stimulus.isWake])] at hmem
          have hmem' : (t', b) ∈ common (x.aside t timing).now (.wake :: as') :=
            List.mem_cons_of_mem _ (hrest ▸ (List.mem_filter.1 hmem).1)
          have hge : t ≤ t' := hfirst.le_of_mem_common hmem'
          obtain rfl := Nat.le_antisymm ht' hge
          rw [hbw, hdue] at hwake
          cases hwake

/-- Where no pass of the worker's own comes first, something from outside does, or nothing. -/
theorem head?_outer {now : Instant} (h : ∀ t rest, common now as ≠ (t, .wake) :: rest) :
    (outer now as).head? = (common now as).head? := by
  unfold outer
  cases hc : common now as with
  | nil => rfl
  | cons head rest =>
      obtain ⟨t, a⟩ := head
      have ha : a.isWake = false := by
        cases a with
        | wake => exact absurd hc (h t rest)
        | _ => rfl
      rw [List.filter_cons_of_pos (by simp [ha])]
      rfl

/-- The same comes first in both lists, or nothing. -/
theorem Compares.head?_common_eq (h : Compares callback x as y bs) :
    (common x.now as).head? = (common y.now bs).head? := by
  by_cases hfirst : ∃ t rest, common x.now as = (t, .wake) :: rest
  · obtain ⟨t, rest, hc⟩ := hfirst
    obtain ⟨rest', hc'⟩ := h.exists_wake hc
    rw [hc, hc', List.head?_cons, List.head?_cons]
  by_cases hfirst' : ∃ t rest, common y.now bs = (t, .wake) :: rest
  · obtain ⟨t, rest, hc⟩ := hfirst'
    obtain ⟨rest', hc'⟩ := h.symm.exists_wake hc
    rw [hc, hc', List.head?_cons, List.head?_cons]
  rw [← head?_outer fun t rest hc => hfirst ⟨t, rest, hc⟩,
    ← head?_outer fun t rest hc => hfirst' ⟨t, rest, hc⟩, h.outside]

/-- After it they still compare. -/
theorem Compares.exists_rest {a : Stimulus L} {rest' : List (Instant × Stimulus L)}
    (h : Compares callback x as y bs) (hc : common x.now as = (t, a) :: rest)
    (hc' : common y.now bs = (t, a) :: rest') :
    ∃ x' as' y' bs', Compares callback x' as' y' bs' ∧ common x'.now as' = rest ∧
      common y'.now bs' = rest' := by
  obtain ⟨timing, as', hs, has, ha, hfirst, -⟩ := h.left.exists_first hc
  obtain ⟨timing', bs', hs', hbs, -, hfirst', -⟩ := h.right.exists_first hc'
  -- the second bench is the first one under other times
  have hy : y.aside t timing' = (x.aside t timing).timed timing' :=
    Alike.timed_eq (x := x.aside t timing) h.alike
  have htimings := h.timings
  rw [hs.timings, hs'.timings, hy] at htimings
  obtain ⟨heads, tails⟩ := timings_cons_eq htimings
  have hmeet := meet_timed timing' ha heads
  rw [Stimulus.clock_of_isAside_eq_false ha] at has hbs
  have hnow (z : Bench L) : (z.meet callback a).2.now = z.now :=
    (now_meet callback z ha).trans (Stimulus.clock_of_isAside_eq_false ha)
  have hx' : ((x.aside t timing).meet callback a).2.now = t := hnow _
  have hy' : ((y.aside t timing').meet callback a).2.now = t := hnow _
  refine ⟨_, as', _, bs', ⟨hfirst.2, hfirst'.2, ?_, hx'.trans hy'.symm, ?_, ?_, ?_⟩, ?_, ?_⟩
  · rw [hy, hmeet]
    rfl
  · have hends := h.ends
    rw [hs.after, hs'.after] at hends
    exact hends
  · have houter := h.outside
    rw [outer, outer, hc, hc'] at houter
    rw [hx', hy', outer, outer, has, hbs]
    cases hw : a.isWake with
    | true => simpa [hw] using houter
    | false => simpa [hw] using houter
  · rw [hy]
    exact tails
  · rw [hx']
    exact has
  · rw [hy']
    exact hbs

/-- **The passes of the worker's own follow from everything else**: they are the same at the same instants,
if the same comes from outside and the times are the same whenever they are looked at. -/
theorem Compares.common_eq (h : Compares callback x as y bs) :
    common x.now as = common y.now bs := by
  generalize hc : common x.now as = stimuli
  induction stimuli generalizing x y as bs with
  | nil =>
      have hhead := h.head?_common_eq
      rw [hc] at hhead
      exact (List.head?_eq_none_iff.1 hhead.symm).symm
  | cons first rest ih =>
      have hhead := h.head?_common_eq
      rw [hc] at hhead
      obtain ⟨rest', hc'⟩ := List.head?_eq_some_iff.1 hhead.symm
      obtain ⟨x', as', y', bs', h', hrest, hrest'⟩ := h.exists_rest hc hc'
      rw [hc', ← hrest', ih h' hrest]

end Comparing
end Bench
end MeshExchange
