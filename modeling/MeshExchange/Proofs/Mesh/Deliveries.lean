import MeshExchange.Proofs.Mesh.Wire
import MeshExchange.Proofs.System.Waiting

/-!
# When deliveries come in

The pump takes the deliveries in the order in which they were scheduled and sleeps until the one at hand
is due. So each comes in once and in that order, and none before it is due; but one that is due earlier
than another scheduled before it waits for that one. Replies, deadlines, resets and lost frames make no
difference to this.

**Input.** A run from the beginning, on a clock that goes on only while nobody can act and not past an
instant at which somebody goes on.

**Method.** What was scheduled is what the pump has handed in, what it sleeps on, and what it has not taken
yet, in this order. The next one never comes late, because the pump keeps a timer for it, and no reply
that it waits for outlasts the instant.

**Results.**
* `Delivery.arrivals`: when deliveries come in, if none overtakes another;
* `System.Conveys`, `System.conveys_of_step`: what a step does about the deliveries;
* `System.Conveyed`: what a run has done about them;
* `System.comesIn_of_steps`: which deliveries have come in, and when;
* `System.exists_overdue`: one that has not, though it was due.
-/

namespace MeshExchange

namespace Delivery

/-- The greatest of an instant and those at which deliveries are due. -/
def latest (t : Instant) (ds : List Delivery) : Instant := ds.foldl (fun t d => max t d.due) t

/-- When deliveries come in after an instant, if none overtakes another: as soon as they are due, and all
before them. -/
def arrivals : Instant → List Delivery → List (Instant × Delivery)
  | _, [] => []
  | t, d :: ds => (max t d.due, d) :: arrivals (max t d.due) ds

variable {t u : Instant} {d : Delivery} {ds ds' : List Delivery} {z : Instant × Delivery}
  {earlier later : List (Instant × Delivery)}

@[simp] theorem latest_cons : latest t (d :: ds) = latest (max t d.due) ds := rfl

@[simp] theorem latest_concat : latest t (ds ++ [d]) = max (latest t ds) d.due := by
  simp [latest]

theorem latest_le_iff : latest t ds ≤ u ↔ t ≤ u ∧ ∀ d ∈ ds, d.due ≤ u := by
  induction ds generalizing t with
  | nil => simp [latest]
  | cons d ds ih =>
      rw [latest_cons, ih, Nat.max_le]
      simp [and_assoc]

theorem max_latest_eq_iff : max (latest 0 ds) d.due = d.due ↔ ∀ d' ∈ ds, d'.due ≤ d.due := by
  rw [max_eq_right_iff, latest_le_iff]
  simp only [Nat.zero_le, true_and]

theorem arrivals_append : arrivals t (ds ++ ds') = arrivals t ds ++ arrivals (latest t ds) ds' := by
  induction ds generalizing t with
  | nil => rfl
  | cons d ds ih => simp [arrivals, ih]

@[simp] theorem map_snd_arrivals (t : Instant) (ds : List Delivery) :
    (arrivals t ds).map (·.2) = ds := by
  induction ds generalizing t with
  | nil => rfl
  | cons d ds ih => simp [arrivals, ih]

@[simp] theorem length_arrivals (t : Instant) (ds : List Delivery) :
    (arrivals t ds).length = ds.length := by
  rw [← List.length_map (·.2), map_snd_arrivals]

/-- Nothing comes in before it is due. -/
theorem le_of_mem_arrivals (h : z ∈ arrivals t ds) : t ≤ z.1 ∧ z.2.due ≤ z.1 := by
  induction ds generalizing t with
  | nil => cases h
  | cons d ds ih =>
      rcases List.mem_cons.1 h with rfl | h
      · exact ⟨Nat.le_max_left _ _, Nat.le_max_right _ _⟩
      · exact ⟨Nat.le_trans (Nat.le_max_left _ _) (ih h).1, (ih h).2⟩

theorem max_le_of_mem_arrivals (h : z ∈ arrivals t (d :: ds)) : max t d.due ≤ z.1 := by
  rcases List.mem_cons.1 h with rfl | h
  · exact Nat.le_refl _
  · exact (le_of_mem_arrivals h).1

/-- By the last instant at which any of them is due, all have come in. -/
theorem le_latest_of_mem_arrivals (h : z ∈ arrivals t ds) : z.1 ≤ latest t ds := by
  induction ds generalizing t with
  | nil => cases h
  | cons d ds ih =>
      rcases List.mem_cons.1 h with rfl | h
      · exact (latest_le_iff.1 (Nat.le_refl _)).1
      · exact ih h

/-- **A delivery comes in when it is due** just if none before it is due later. -/
theorem eq_due_iff (h : arrivals 0 ds = earlier ++ z :: later) :
    z.1 = z.2.due ↔ ∀ y ∈ earlier, y.2.due ≤ z.2.due := by
  have hds : ds = earlier.map (·.2) ++ z.2 :: later.map (·.2) := by
    rw [← map_snd_arrivals 0 ds, h]
    simp
  have hlength : (arrivals 0 (earlier.map (·.2))).length = earlier.length := by
    simp
  rw [hds, arrivals_append, arrivals] at h
  have hz := (List.cons.inj (List.append_inj h hlength).2).1
  have ht : max (latest 0 (earlier.map (·.2))) z.2.due = z.1 := congrArg Prod.fst hz
  rw [← ht, max_latest_eq_iff, List.forall_mem_map]

/-- **All come in when they are due** just if they are due in their order. -/
theorem forall_eq_due_iff :
    (∀ z ∈ arrivals 0 ds, z.1 = z.2.due) ↔ ds.Pairwise fun d d' => d.due ≤ d'.due := by
  induction ds using List.reverseRecOn with
  | nil => simp [arrivals]
  | append_singleton ds d ih =>
      rw [arrivals_append, List.forall_mem_append, ih, List.pairwise_append]
      simp only [arrivals, List.forall_mem_singleton, max_latest_eq_iff, List.pairwise_singleton,
        true_and]

end Delivery

/-- The delivery that the pump sleeps on. -/
def Pump.sleeper? : Pump → Option Delivery
  | .sleeping d => some d
  | _ => none

/-- The delivery that the pump has handed in and waits to hear of. -/
def Pump.handed? : Pump → Option Delivery
  | .handing d _ => some d
  | _ => none

/-- What a link sends back for a frame is not due before the frame leaves. -/
theorem Link.le_due_of_transmit {l : Link} {frame : Frame} {now : Instant} {ds : List Delivery}
    (h : l.transmit frame now = .ok ds) : ∀ d ∈ ds, now ≤ d.due := by
  cases l with
  | recording =>
      cases h
      simp
  | down => cases h
  | mesh b hasTaker =>
      cases hr : Request.ofFrame frame with
      | error fault => simp [transmit, hr, bind, Except.bind] at h
      | ok r =>
          simp only [transmit, hr, bind, Except.bind] at h
          split at h <;> cases h
          exact b.le_due r now

namespace System

section Clock

/-- The clock goes on only while nobody can act, and not past an instant at which somebody goes on. -/
def keepsTime (s : System) : Action → Bool
  | .elapse t => !s.isAble && s.timers.all fun u => u ≤ s.now || t ≤ u
  | _ => true

/-- The same all along a run. -/
def isClocked (s : System) : List Action → Bool
  | [] => true
  | a :: as =>
      match s.step a with
      | some s' => s.keepsTime a && s'.isClocked as
      | none => true

variable {s x y : System} {as : List Action} {a : Action}

theorem isClocked_concat (has : s.steps as = some x) (ha : x.step a = some y) :
    s.isClocked (as ++ [a]) = (s.isClocked as && x.keepsTime a) := by
  induction as generalizing s with
  | nil =>
      cases has
      simp [isClocked, ha]
  | cons b as ih =>
      obtain ⟨s₁, h₁, has⟩ := steps_cons_iff.1 has
      simp [isClocked, h₁, ih has, Bool.and_assoc]

end Clock

section Conveying

/-- What the link schedules for the frame of a caller. -/
def scheduledFor (s : System) : Stage → List Delivery
  | .transmitting sending _ => (s.link.transmit sending.frame s.now).toOption.getD []
  | _ => []

/-- What is scheduled at an action. -/
def schedules (s : System) (a : Action) (_ : System) : List Delivery :=
  match a with
  | .resume i => s.callers[i]?.elim [] s.scheduledFor
  | _ => []

/-- What the pump hands in at an action, and when. -/
def delivers (s : System) (a : Action) (_ : System) : List (Instant × Delivery) :=
  match a with
  | .deliver => s.pump.sleeper?.toList.map fun d => (s.now, d)
  | _ => []

/-- What the pump has heard of according to a journal, and when. -/
def takings (journal : List (Instant × Entry)) : List (Instant × Delivery) :=
  journal.filterMap fun
    | (t, .handedOver d _) => some (t, d)
    | _ => none

/-- What the pump has handed in, whether it has heard of it or not, and when. -/
def handedIn (s : System) : List (Instant × Delivery) :=
  takings s.journal ++ s.pump.handed?.toList.map fun d => (s.now, d)

/-- What was scheduled and not handed in yet. -/
def undelivered (s : System) : List Delivery := s.pump.sleeper?.toList ++ s.deliveries

variable {s s' s₁ : System} {stage stage' : Stage} {a : Action} {d : Delivery}

theorem le_due_of_mem_scheduledFor (h : d ∈ s.scheduledFor stage) : s.now ≤ d.due := by
  unfold scheduledFor at h
  split at h
  · next sending phase =>
      cases ht : s.link.transmit sending.frame s.now with
      | error fault =>
          rw [ht] at h
          cases h
      | ok ds =>
          rw [ht] at h
          exact Link.le_due_of_transmit ht d h
  · cases h

theorem le_due_of_mem_schedules (h : d ∈ s.schedules a s') : s.now ≤ d.due := by
  unfold schedules at h
  split at h
  · next i =>
      cases hi : s.callers[i]? with
      | none =>
          rw [hi] at h
          cases h
      | some stage =>
          rw [hi] at h
          exact le_due_of_mem_scheduledFor h
  · cases h

theorem delivers_of_ne (ha : a ≠ .deliver) : s.delivers a s' = [] := by
  unfold delivers
  split
  · exact absurd rfl ha
  · rfl

/-- Nothing happens to the deliveries but that some are scheduled. -/
structure Enqueues (s : System) (ds : List Delivery) (s' : System) : Prop where
  now : s'.now = s.now
  pump : s'.pump = s.pump
  deliveries : s'.deliveries = s.deliveries ++ ds
  takings : takings s'.journal = takings s.journal

theorem Enqueues.of_machine (s : System) (m : Machine Observer) :
    Enqueues s [] { s with machine := m } := ⟨rfl, rfl, (List.append_nil _).symm, rfl⟩

theorem Enqueues.of_quiet (h : s.Quiet s') : s.Enqueues [] s' :=
  ⟨h.now, h.pump, by rw [h.deliveries, List.append_nil], by rw [h.journal]⟩

/-- Callers have to do with the deliveries only where they hand a frame to the link. -/
theorem Advances.enqueues (h : s.Advances stage stage' s₁)
    (hs : ∀ sending phase, stage ≠ .transmitting sending phase) : s.Enqueues [] s₁ := by
  cases h with
  | plain _ _ hq => exact .of_quiet hq
  | drains => exact ⟨rfl, rfl, (List.append_nil _).symm, by simp [record, takings]⟩
  | transmits => exact absurd rfl (hs _ _)
  | _ => exact .of_machine s _

theorem enqueues_of_advance (h : s.advance stage = some (stage', s₁)) :
    s.Enqueues (s.scheduledFor stage) s₁ := by
  by_cases hs : ∃ sending phase, stage = .transmitting sending phase
  · obtain ⟨sending, phase, rfl⟩ := hs
    have h' := Option.some.inj h
    unfold transmit at h'
    split at h'
    · next ds hd =>
        cases h'
        refine ⟨rfl, rfl, ?_, by simp [record, takings]⟩
        simp [scheduledFor, hd, record, Except.toOption]
    · next fault hf =>
        cases h'
        refine ⟨rfl, rfl, ?_, by simp [record, takings]⟩
        simp [scheduledFor, hf, record, Except.toOption]
  · have hne : ∀ sending phase, stage ≠ .transmitting sending phase := by
      simpa using hs
    have hnone : s.scheduledFor stage = [] := by
      unfold scheduledFor
      split
      · exact absurd rfl (hne _ _)
      · rfl
    rw [hnone]
    exact (advances_of_advance h).enqueues hne

/-- What a step does about the deliveries. -/
inductive Conveys (s : System) : Action → System → Prop
  /-- What is scheduled goes to the end. -/
  | rests {a : Action} {s' : System} (ha : a ≠ .deliver)
      (h : s.Enqueues (s.schedules a s') s') : Conveys s a s'
  | elapses (t : Instant) (ht : s.now ≤ t) : Conveys s (.elapse t) { s with now := t }
  /-- The pump takes the first one and begins to sleep. -/
  | takes {d : Delivery} {ds : List Delivery} (hp : s.pump = .idle) (hd : s.deliveries = d :: ds) :
      Conveys s .deliver { s with pump := .sleeping d, deliveries := ds }
  /-- It wakes and hands the delivery in; unless it is turned away, it waits to hear of it. -/
  | hands {d : Delivery} {s' : System} (hp : s.pump = .sleeping d) (hdue : d.due ≤ s.now)
      (hn : s'.now = s.now) (hd : s'.deliveries = s.deliveries) (hs : s'.pump.sleeper? = none)
      (hh : s'.handedIn = s.handedIn ++ [(s.now, d)]) : Conveys s .deliver s'
  /-- It gets on with a delivery that it has handed in, or hears of it. -/
  | hears {s' : System} (hp : s.pump.sleeper? = none) (hn : s'.now = s.now)
      (hd : s'.deliveries = s.deliveries) (hs : s'.pump.sleeper? = none)
      (hh : s'.handedIn = s.handedIn) : Conveys s .deliver s'

theorem handedIn_of_handed? (h : s.pump.handed? = none) : s.handedIn = takings s.journal := by
  simp [handedIn, h]

theorem handedIn_handOver (s : System) (d : Delivery) (reply : Reply) :
    (s.handOver d reply).handedIn = takings s.journal ++ [(s.now, d)] := by
  simp [handedIn, handOver, record, takings, Pump.handed?]

theorem conveys_of_deliver (h : s.deliver = some s') : s.Conveys .deliver s' := by
  unfold deliver at h
  split at h
  · next hp =>
      split at h
      · cases h
      · next d ds hd =>
          cases h
          exact .takes hp hd
  · next d hp =>
      have hhanded : s.handedIn = takings s.journal :=
        handedIn_of_handed? (by rw [hp]; rfl)
      split at h
      · next hdue =>
          split at h
          · cases h
            exact .hands hp hdue rfl rfl rfl (by rw [hhanded, handedIn_handOver])
          · split at h
            · cases h
              exact .hands hp hdue rfl rfl rfl (by rw [hhanded]; rfl)
            · cases h
              exact .hands hp hdue rfl rfl rfl (by rw [hhanded, handedIn_handOver])
      · cases h
  · next d p hp =>
      obtain ⟨⟨reply, m⟩, -, hm⟩ := Option.map_eq_some_iff.1 h
      have hsleeper : s.pump.sleeper? = none := by
        rw [hp]
        rfl
      have hhanded : s.handedIn = takings s.journal ++ [(s.now, d)] := by
        rw [handedIn, hp]
        rfl
      cases reply with
      | none =>
          cases hm
          exact .hears hsleeper rfl rfl hsleeper rfl
      | some reply =>
          cases hm
          exact .hears hsleeper rfl rfl rfl (by rw [hhanded, handedIn_handOver])

/-- **What a step does about the deliveries.** -/
theorem conveys_of_step (h : s.step a = some s') : s.Conveys a s' := by
  cases a with
  | call due call =>
      cases h
      exact .rests nofun ⟨rfl, rfl, (List.append_nil _).symm, rfl⟩
  | resume i =>
      obtain ⟨stage, stage', s₁, hi, hadv, rfl⟩ := exists_advance_of_resume h
      have he := enqueues_of_advance hadv
      refine .rests nofun ⟨he.now, he.pump, ?_, he.takings⟩
      rw [schedules, hi]
      exact he.deliveries
  | work =>
      obtain ⟨⟨turn, m⟩, -, rfl⟩ := Option.map_eq_some_iff.1 h
      exact .rests nofun ⟨rfl, rfl, (List.append_nil _).symm, by simp [record, takings]⟩
  | deliver => exact conveys_of_deliver h
  | elapse t =>
      simp only [step] at h
      split at h
      · next ht =>
          cases h
          exact .elapses t ht
      · cases h

end Conveying

section Running

open Delivery (arrivals latest)

variable {s x y : System} {as : List Action} {a : Action} {scheduled : List Delivery}
  {handed : List (Instant × Delivery)}

/-- How far the pump has got with what was scheduled. -/
structure Conveyed (scheduled : List Delivery) (handed : List (Instant × Delivery)) (x : System) :
    Prop where
  /-- First come, first served. -/
  queue : scheduled = handed.map (·.2) ++ x.undelivered
  arrivals : handed = arrivals 0 (handed.map (·.2))
  past : latest 0 (handed.map (·.2)) ≤ x.now
  /-- The next one is not late. -/
  next : ∀ d ds, x.undelivered = d :: ds → x.now ≤ max (latest 0 (handed.map (·.2))) d.due
  handedIn : x.handedIn = handed

/-- Where nobody can act, the pump has heard of all that it has handed in, and sleeps on what is next. -/
theorem Reachable.sleeps (hs : x.Reachable) (hable : x.isAble = false) :
    x.pump.handed? = none ∧
      ∀ d ds, x.undelivered = d :: ds → x.now < d.due ∧ x.pumpTimer? = some d.due := by
  have hdeliver : x.deliver = none := by
    cases hd : x.deliver with
    | none => rfl
    | some y =>
        rw [isAble_of_deliver hd] at hable
        cases hable
  cases hp : x.pump with
  | idle =>
      refine ⟨rfl, fun d ds hu => ?_⟩
      have hds : x.deliveries = d :: ds := by
        simpa [undelivered, hp, Pump.sleeper?] using hu
      rw [deliver_idle hp hds] at hdeliver
      cases hdeliver
  | sleeping d =>
      refine ⟨rfl, fun d' ds hu => ?_⟩
      have hd : d = d' ∧ x.deliveries = ds := by
        simpa [undelivered, hp, Pump.sleeper?] using hu
      obtain ⟨rfl, -⟩ := hd
      refine ⟨Nat.lt_of_not_le fun hdue => ?_, by rw [pumpTimer?, hp]⟩
      rw [deliver_sleeping hp hdue] at hdeliver
      split at hdeliver
      · cases hdeliver
      · split at hdeliver <;> cases hdeliver
  | handing d p =>
      have hpending : x.pending? .pump = some p := by
        rw [pending?, hp]
        rfl
      rw [hs.pending?_eq_none hable] at hpending
      cases hpending

namespace Conveyed

theorem of_assemble {setup : Setup} (h : setup.assemble = .ok s) : Conveyed [] [] s := by
  obtain ⟨timing, status, listener, sendWait, resident, observers, -, -, rfl⟩ :=
    exists_of_assemble h
  exact ⟨rfl, rfl, Nat.le_refl _, nofun, rfl⟩

/-- The clock goes on, but not past the instant at which the next delivery is due. -/
theorem elapse {t : Instant} (h : Conveyed scheduled handed x) (hs : x.Reachable)
    (ht : x.now ≤ t) (hc : x.keepsTime (.elapse t) = true) :
    Conveyed scheduled handed { x with now := t } := by
  obtain ⟨hable, htimers⟩ : x.isAble = false ∧ ∀ u ∈ x.timers, u ≤ x.now ∨ t ≤ u := by
    simpa [keepsTime] using hc
  obtain ⟨hhanded, hsleeps⟩ := hs.sleeps hable
  have hin : System.handedIn { x with now := t } = x.handedIn := by
    simp [System.handedIn, hhanded]
  refine ⟨h.queue, h.arrivals, Nat.le_trans h.past ht, fun d ds hu => ?_, hin.trans h.handedIn⟩
  obtain ⟨hlt, htimer⟩ := hsleeps d ds hu
  have hmem : d.due ∈ x.timers := by
    simp [timers, htimer]
  have hle : t ≤ d.due := (htimers _ hmem).resolve_left (Nat.not_le.2 hlt)
  exact Nat.le_trans hle (Nat.le_max_right _ _)

/-- The pump wakes: neither too early, since the delivery is due, nor too late. -/
theorem hands {d : Delivery} {ds : List Delivery} (h : Conveyed scheduled handed x)
    (hu : x.undelivered = d :: ds) (hdue : d.due ≤ x.now) (hu' : y.undelivered = ds)
    (hn : y.now = x.now) (hh : y.handedIn = x.handedIn ++ [(x.now, d)]) :
    Conveyed scheduled (handed ++ [(x.now, d)]) y := by
  have hnow : max (latest 0 (handed.map (·.2))) d.due = x.now :=
    Nat.le_antisymm (Nat.max_le.2 ⟨h.past, hdue⟩) (h.next d ds hu)
  have hlatest : latest 0 ((handed ++ [(x.now, d)]).map (·.2)) = x.now := by
    simpa using hnow
  constructor
  · rw [h.queue, hu, hu']
    simp
  · rw [List.map_append, Delivery.arrivals_append, ← h.arrivals, List.map_singleton,
      Delivery.arrivals, Delivery.arrivals, hnow]
  · exact Nat.le_of_eq (hlatest.trans hn.symm)
  · intro d' ds' _
    rw [hlatest, hn]
    exact Nat.le_max_left _ _
  · rw [hh, h.handedIn]

/-- **One step.** -/
theorem of_step (h : Conveyed scheduled handed x) (hs : x.Reachable) (hc : x.keepsTime a = true)
    (ha : x.step a = some y) :
    Conveyed (scheduled ++ x.schedules a y) (handed ++ x.delivers a y) y := by
  cases conveys_of_step ha with
  | rests hne he =>
      obtain ⟨hn, hp, hd, ht⟩ := he
      have hnone : x.delivers a y = [] := delivers_of_ne hne
      have hu : y.undelivered = x.undelivered ++ x.schedules a y := by
        rw [undelivered, undelivered, hp, hd, List.append_assoc]
      rw [hnone, List.append_nil]
      refine ⟨?_, h.arrivals, hn ▸ h.past, fun d ds hds => ?_, ?_⟩
      · rw [hu, h.queue, List.append_assoc]
      · rw [hn]
        cases hx : x.undelivered with
        | cons d' ds' =>
            rw [hu, hx] at hds
            obtain ⟨rfl, -⟩ := List.cons.inj hds
            exact h.next d' ds' hx
        | nil =>
            rw [hu, hx, List.nil_append] at hds
            have hdue := le_due_of_mem_schedules (hds ▸ List.mem_cons_self)
            exact Nat.le_trans hdue (Nat.le_max_right _ _)
      · rw [System.handedIn, ht, hp, hn]
        exact h.handedIn
  | elapses t ht => simpa only [schedules, delivers, List.append_nil] using h.elapse hs ht hc
  | @takes d ds hp hd =>
      have hu : undelivered { x with pump := .sleeping d, deliveries := ds } = x.undelivered := by
        simp [undelivered, hp, hd, Pump.sleeper?]
      have hin : System.handedIn { x with pump := .sleeping d, deliveries := ds } = x.handedIn := by
        simp [System.handedIn, hp, Pump.handed?]
      simp only [schedules, delivers, hp, Pump.sleeper?, Option.toList_none, List.map_nil,
        List.append_nil]
      exact ⟨hu ▸ h.queue, h.arrivals, h.past, fun d' ds' hds => h.next d' ds' (hu ▸ hds),
        hin.trans h.handedIn⟩
  | @hands d _ hp hdue hn hd hs hh =>
      have hu : x.undelivered = d :: x.deliveries := by
        simp [undelivered, hp, Pump.sleeper?]
      have hu' : y.undelivered = x.deliveries := by
        simp [undelivered, hs, hd]
      simp only [schedules, delivers, hp, Pump.sleeper?, Option.toList_some, List.map_singleton,
        List.append_nil]
      exact h.hands hu hdue hu' hn hh
  | hears hp hn hd hs hh =>
      have hu : y.undelivered = x.undelivered := by
        simp [undelivered, hs, hd, hp]
      simp only [schedules, delivers, hp, Option.toList_none, List.map_nil, List.append_nil]
      refine ⟨hu ▸ h.queue, h.arrivals, hn ▸ h.past, fun d ds hds => ?_, hh.trans h.handedIn⟩
      rw [hn]
      exact h.next d ds (hu ▸ hds)

end Conveyed

/-- **A whole run.** -/
theorem conveyed_of_steps {setup : Setup} (h : setup.assemble = .ok s) (has : s.steps as = some x)
    (hc : s.isClocked as = true) : Conveyed (s.gather schedules as) (s.gather delivers as) x := by
  refine steps_induct (P := fun as x => s.isClocked as = true →
    Conveyed (s.gather schedules as) (s.gather delivers as) x) (fun _ => .of_assemble h) ?_ has hc
  intro as x a y hx ha ih hc
  rw [isClocked_concat hx ha, Bool.and_eq_true] at hc
  rw [gather_concat hx ha, gather_concat hx ha]
  exact (ih hc.1).of_step ((Reachable.of_assemble h).steps hx) hc.2 ha

/-- Which deliveries have come in, and when. -/
structure ComesIn (scheduled : List Delivery) (handed : List (Instant × Delivery)) (x : System) :
    Prop where
  /-- Those that were scheduled first, in this order, and the others are not late. -/
  order : ∃ later, arrivals 0 scheduled = handed ++ later ∧
    ∀ z ∈ later, x.now ≤ z.1 ∧ (x.isAble = false → x.now < z.1)
  past : ∀ z ∈ handed, z.1 ≤ x.now
  /-- Each when it is due, unless one before it is due later. -/
  due : ∀ earlier z later, handed = earlier ++ z :: later →
    z.2.due ≤ z.1 ∧ (z.1 = z.2.due ↔ ∀ y ∈ earlier, y.2.due ≤ z.2.due)
  /-- So all of them when they are due just if they were scheduled in that order. -/
  onTime : (∀ z ∈ handed, z.1 = z.2.due) ↔
    (handed.map (·.2)).Pairwise fun d d' => d.due ≤ d'.due
  /-- The machine has dealt with it at the same instant. -/
  heard : x.isAble = false → takings x.journal = handed

/-- **Deliveries come in in the order in which they were scheduled**, each once, as soon as it and all
before it are due. -/
theorem comesIn_of_steps {setup : Setup} (h : setup.assemble = .ok s) (has : s.steps as = some x)
    (hc : s.isClocked as = true) : ComesIn (s.gather schedules as) (s.gather delivers as) x := by
  have hx := conveyed_of_steps h has hc
  have hs := (Reachable.of_assemble h).steps has
  constructor
  · refine ⟨arrivals (latest 0 ((s.gather delivers as).map (·.2))) x.undelivered, ?_, fun z hz => ?_⟩
    · rw [hx.queue, Delivery.arrivals_append, ← hx.arrivals]
    · cases hu : x.undelivered with
      | nil =>
          rw [hu] at hz
          cases hz
      | cons d ds =>
          rw [hu] at hz
          have hle := Delivery.max_le_of_mem_arrivals hz
          refine ⟨Nat.le_trans (hx.next d ds hu) hle, fun hable => ?_⟩
          obtain ⟨-, hsleeps⟩ := hs.sleeps hable
          exact Nat.lt_of_lt_of_le (hsleeps d ds hu).1 (Nat.max_le.1 hle).2
  · intro z hz
    rw [hx.arrivals] at hz
    exact Nat.le_trans (Delivery.le_latest_of_mem_arrivals hz) hx.past
  · intro earlier z later hz
    have harrivals := hx.arrivals.symm.trans hz
    have hmem : z ∈ arrivals 0 ((s.gather delivers as).map (·.2)) := by
      rw [harrivals]
      simp
    exact ⟨(Delivery.le_of_mem_arrivals hmem).2, Delivery.eq_due_iff harrivals⟩
  · rw [← Delivery.forall_eq_due_iff, ← hx.arrivals]
  · intro hable
    rw [← handedIn_of_handed? (hs.sleeps hable).1, hx.handedIn]

end Running

section Overtaking

/-- A caller comes at an instant and sends a request to the coordinator, up to its transmission. -/
def asking (i : Nat) (t : Instant) : List Action :=
  [.call t (.send ⟨.coordinator, 6, 1, 0xffff, []⟩), .resume i, .resume i, .resume i, .work, .resume i,
    .resume i]

/-- The response comes in when it is due. -/
theorem comesIn_of_steps_response :
    ∃ (s x : System) (as : List Action),
      Setup.assemble { link := .mesh {} true, harness := some "o" } = .ok s ∧
      s.steps as = some x ∧ s.isClocked as = true ∧
      (s.gather delivers as).map (·.1) = [Duration.millis 60] ∧
      ComesIn (s.gather schedules as) (s.gather delivers as) x := by
  obtain ⟨s, as, hs, rfl, hrun⟩ : ∃ s as,
      Setup.assemble { link := .mesh {} true, harness := some "o" } = .ok s ∧
      as = asking 0 0 ++ [.deliver, .elapse (Duration.millis 60), .deliver, .work, .deliver] ∧
      ((s.steps as).any fun _ => s.isClocked as ∧
        (s.gather delivers as).map (·.1) = [Duration.millis 60]) = true :=
    ⟨_, _, rfl, rfl, by decide +kernel⟩
  obtain ⟨x, hx, hrun⟩ := (Option.any_eq_true _ _).1 hrun
  obtain ⟨hclock, htimes⟩ := of_decide_eq_true hrun
  exact ⟨s, x, _, hs, hx, hclock, htimes, comesIn_of_steps hs hx hclock⟩

/-- A request is given up before its response, and the next one is answered sooner. -/
def overtaking : List Action :=
  asking 0 0 ++
    [.deliver, .elapse (Duration.millis 600), .work, .call (Duration.millis 600) .reset, .resume 1,
      .work, .resume 1,
      .call (Duration.millis 600) (.setBehaviour { responseDelay := Duration.millis 10 }),
      .resume 2] ++
    asking 3 (Duration.millis 600) ++ [.elapse (Duration.millis 611)]

/-- **A delivery may be overdue**: the pump still sleeps on the one before it. -/
theorem exists_overdue :
    ∃ (s x : System) (d : Delivery),
      Setup.assemble
        { link := .mesh { responseDelay := Duration.millis 5000 } true, harness := some "o" } =
          .ok s ∧
      s.steps overtaking = some x ∧ s.isClocked overtaking = true ∧
      x.machine.status = .running ∧ d ∈ s.gather schedules overtaking ∧ d.due < x.now ∧
      s.gather delivers overtaking = [] := by
  obtain ⟨s, hs, hrun⟩ : ∃ s, Setup.assemble
        { link := .mesh { responseDelay := Duration.millis 5000 } true, harness := some "o" } =
          .ok s ∧
      ((s.steps overtaking).any fun x => s.isClocked overtaking ∧ x.machine.status = .running ∧
        ((s.gather schedules overtaking).any fun d => d.due < x.now) ∧
        s.gather delivers overtaking = []) = true :=
    ⟨_, rfl, by decide +kernel⟩
  obtain ⟨x, hx, hrun⟩ := (Option.any_eq_true _ _).1 hrun
  obtain ⟨hclock, hstatus, hany, hnone⟩ := of_decide_eq_true hrun
  obtain ⟨d, hd, hdue⟩ := List.any_eq_true.1 hany
  exact ⟨s, x, d, hs, hx, hclock, hstatus, hd, of_decide_eq_true hdue, hnone⟩

end Overtaking

end System
end MeshExchange
