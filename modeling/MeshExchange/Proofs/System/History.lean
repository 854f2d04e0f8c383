import MeshExchange.Proofs.Machine.Passes
import MeshExchange.Proofs.System.Sparing
import MeshExchange.Session.Basic

/-!
# What the worker does in a run

A run of a system, seen from its worker: the list of passes made in it, each with its instant. The
callers, the pump and the clock come in between in any order; a run on time is one whose clock waits
for the worker at the deadline instead of running ahead.

**Method.** `System.Evolves` strings together what spares the tracker and the passes of the worker, so
that a run can be cut before any of its passes. The first pass that moves the tracker is what every
later theorem looks for: up to it the phase, its deadline and the exchange stay what they were, and
every command is refused.

**Results.**
* `System.evolves_of_steps`: a run as the list of the passes made in it;
* `System.Evolves.split`, `System.Evolves.of_cons`: the run up to a pass, the pass, and what follows;
* `System.Sound`, `System.Evolves.sound`, `System.Reachable.sound`: what holds in every run;
* `System.Rests`, `System.Evolves.still_or_move`: the run up to the first move;
* `System.Rests.now_le`: on time, the clock does not pass the deadline.
-/

namespace MeshExchange

namespace Pass

/-- A pass in which a command was refused in a phase, before its deadline if it has one, or in which the
worker stopped. -/
def Refuses (p : Phase) (d? : Option Instant) (x : Pass) : Prop :=
  x.2 = ⟨.stopped, none⟩ ∨
    ∃ ticket c fault, x.2 = ⟨.handled ticket c (.error fault), none⟩ ∧
      p.refusal? c = some fault ∧ ∀ d, d? = some d → x.1 < d

section Refusing

variable {now : Instant} {turn : Turn Observer} {m m' : Machine Observer}

theorem Refuses.isMove_eq_false {p : Phase} {d? : Option Instant} {x : Pass}
    (hx : x.Refuses p d?) : x.2.deed.isMove = false := by
  obtain hx | ⟨ticket, c, fault, hx, -⟩ := hx <;> rw [hx] <;> rfl

theorem refuses_of_works (hw : m.Works Observer.react now turn m') (hc : m.tracker.Coherent)
    (hm : turn.deed.isMove = false) :
    Refuses m.tracker.phase m.tracker.deadline (now, turn) := by
  cases hw with
  | stops => exact .inl rfl
  | lapses => cases hm
  | accepts => cases hm
  | refuses _ hd _ hf =>
      exact .inr ⟨_, _, _, rfl, hf, (Machine.dueExpiry_eq_none_iff hc).1 hd⟩

/-- Where a pass stands that is found in a run with another pass singled out: before it, on it, or
after it. -/
theorem cut_cases {quiet rest before after : List Pass} {x y : Pass}
    (h : quiet ++ x :: rest = before ++ y :: after) :
    (∃ mid, quiet = before ++ y :: mid) ∨ (quiet = before ∧ x = y ∧ rest = after) ∨
      ∃ mid, before = quiet ++ x :: mid ∧ rest = mid ++ y :: after := by
  rcases List.append_eq_append_iff.1 h with ⟨mid, hb, hx⟩ | ⟨mid, hq, hy⟩
  · cases mid with
    | nil =>
        obtain ⟨rfl, rfl⟩ := List.cons_eq_cons.1 hx
        exact .inr (.inl ⟨by simpa using hb.symm, rfl, rfl⟩)
    | cons z mid =>
        obtain ⟨rfl, hr⟩ := List.cons_eq_cons.1 hx
        exact .inr (.inr ⟨mid, hb, hr⟩)
  · cases mid with
    | nil =>
        obtain ⟨rfl, rfl⟩ := List.cons_eq_cons.1 hy
        exact .inr (.inl ⟨by simpa using hq, rfl, rfl⟩)
    | cons z mid =>
        obtain ⟨rfl, -⟩ := List.cons_eq_cons.1 hy
        exact .inl ⟨mid, hq⟩

end Refusing

end Pass

namespace System

section Clock

/-- The clock does not run past a deadline that the worker waits for. -/
def isOnTime (s s' : System) : Bool :=
  s.workerTimer?.all fun d => s'.now ≤ max s.now d

/-- No step of a run lets the clock run past a deadline that the worker waits for. -/
def isPunctual (s : System) : List Action → Bool
  | [] => true
  | a :: as =>
      match s.step a with
      | some s' => s.isOnTime s' && s'.isPunctual as
      | none => true

end Clock

section Runs

/-- The worker makes a pass. -/
structure WorksTo (s : System) (turn : Turn Observer) (s' : System) : Prop where
  machine : s.machine.Works Observer.react s.now turn s'.machine
  passes : System.passes s'.journal = System.passes s.journal ++ [(s.now, turn)]
  now : s'.now = s.now

/-- A run, by the passes made in it. If it is on time, the clock waits for the worker. -/
inductive Evolves (onTime : Prop) : System → List Pass → System → Prop
  | refl (s : System) : Evolves onTime s [] s
  | spare {s s₁ s' : System} {h : List Pass} (hs : s.Spares s₁)
      (ht : onTime → s.isOnTime s₁ = true) (he : Evolves onTime s₁ h s') :
      Evolves onTime s h s'
  | pass {s s₁ s' : System} {turn : Turn Observer} {h : List Pass} (hw : s.WorksTo turn s₁)
      (he : Evolves onTime s₁ h s') : Evolves onTime s ((s.now, turn) :: h) s'

variable {onTime : Prop} {s s' : System}

theorem worksTo_of_work (h : s.work = some s') : ∃ turn, s.WorksTo turn s' := by
  obtain ⟨⟨turn, m⟩, hm, rfl⟩ := Option.map_eq_some_iff.1 h
  exact ⟨turn, Machine.turn_eq_some_iff.1 hm, by simp [record], rfl⟩

theorem exists_work_of_works {turn : Turn Observer} {m : Machine Observer}
    (h : s.machine.Works Observer.react s.now turn m) :
    ∃ s', s.work = some s' ∧ s'.machine = m ∧ s.WorksTo turn s' := by
  refine ⟨{ s with machine := m }.record (.worked turn), ?_, rfl, h, by simp [record], rfl⟩
  simp [work, Machine.turn_eq_some_iff.2 h]

/-- A run as the list of the passes made in it. -/
theorem evolves_of_steps (onTime : Prop) (as : List Action) (hs : s.steps as = some s')
    (ht : onTime → s.isPunctual as = true) :
    ∃ h, Evolves onTime s h s' ∧ passes s'.journal = passes s.journal ++ h := by
  induction as generalizing s with
  | nil =>
      cases hs
      exact ⟨[], .refl _, by simp⟩
  | cons a as ih =>
      obtain ⟨s₁, ha, hs⟩ : ∃ s₁, s.step a = some s₁ ∧ s₁.steps as = some s' :=
        Option.bind_eq_some_iff.1 hs
      have hp : onTime → s.isOnTime s₁ = true ∧ s₁.isPunctual as = true := by
        intro ho
        simpa [isPunctual, ha] using ht ho
      obtain ⟨h, he, hj⟩ := ih hs fun ho => (hp ho).2
      by_cases hw : a = .work
      · subst hw
        obtain ⟨turn, hturn⟩ := worksTo_of_work ha
        refine ⟨(s.now, turn) :: h, .pass hturn he, ?_⟩
        rw [hj, hturn.passes]
        simp
      · have hspare := step_spares hw ha
        refine ⟨h, .spare hspare (fun ho => (hp ho).1) he, ?_⟩
        rw [hj, hspare.passes]

theorem Evolves.trans {s₁ : System} {h h' : List Pass} (he : Evolves onTime s h s₁)
    (he' : Evolves onTime s₁ h' s') : Evolves onTime s (h ++ h') s' := by
  induction he with
  | refl => exact he'
  | spare hs ht _ ih => exact .spare hs ht (ih he')
  | pass hw _ ih => exact .pass hw (ih he')

/-- A run can be cut between any two passes. -/
theorem Evolves.split {h h' : List Pass} (he : Evolves onTime s (h ++ h') s') :
    ∃ s₁, Evolves onTime s h s₁ ∧ Evolves onTime s₁ h' s' := by
  generalize hk : h ++ h' = k at he
  induction he generalizing h with
  | refl s =>
      obtain ⟨rfl, rfl⟩ := List.append_eq_nil_iff.1 hk
      exact ⟨s, .refl s, .refl s⟩
  | spare hs ht _ ih =>
      obtain ⟨s₂, he₁, he₂⟩ := ih hk
      exact ⟨s₂, .spare hs ht he₁, he₂⟩
  | @pass s s₁ s' turn k hw he ih =>
      cases h with
      | nil =>
          subst hk
          exact ⟨s, .refl s, .pass hw he⟩
      | cons x h =>
          obtain ⟨rfl, hk'⟩ := List.cons_eq_cons.1 hk
          obtain ⟨s₂, he₁, he₂⟩ := ih hk'
          exact ⟨s₂, .pass hw he₁, he₂⟩

/-- The first pass of a run, and the runs before and after it. -/
theorem Evolves.of_cons {x : Pass} {h : List Pass} (he : Evolves onTime s (x :: h) s') :
    ∃ s₁ s₂, Evolves onTime s [] s₁ ∧ x.1 = s₁.now ∧ s₁.WorksTo x.2 s₂ ∧
      Evolves onTime s₂ h s' := by
  generalize hk : x :: h = k at he
  induction he with
  | refl s => cases hk
  | spare hs ht _ ih =>
      obtain ⟨s₁, s₂, he₁, hx, hw, he₂⟩ := ih hk
      exact ⟨s₁, s₂, .spare hs ht he₁, hx, hw, he₂⟩
  | @pass s s₁ s' turn k hw he _ =>
      cases hk
      exact ⟨s, s₁, .refl s, rfl, hw, he⟩

end Runs

section Soundness

/-- What holds of a system in every run. -/
structure Sound (s : System) : Prop where
  coherent : s.machine.tracker.Coherent
  phase : s.machine.phase = s.machine.tracker.phase
  /-- Before the start nothing happens on the channel. -/
  created : s.machine.status = .created → s.machine.tracker = .initial
  /-- A listener ends the worker in no phase that ends by itself. -/
  failed : s.machine.status = .failed → s.machine.tracker.deadline = none

variable {onTime : Prop} {s s' : System}

theorem Sound.of_spares (h : Sound s) (hs : s.Spares s') : Sound s' where
  coherent := by
    rw [hs.machine.tracker]
    exact h.coherent
  phase := by
    rw [hs.machine.tracker, hs.machine.phase]
    exact h.phase
  created := by
    intro hc
    rw [hs.machine.tracker]
    rcases hs.machine.status with hst | ⟨-, hst⟩ | hst | hst
    · exact h.created (hst ▸ hc)
    all_goals
      rw [hst] at hc
      cases hc
  failed := by
    intro hf
    rw [hs.machine.tracker]
    rcases hs.machine.status with hst | ⟨-, hst⟩ | hst | hst
    · exact h.failed (hst ▸ hf)
    all_goals
      rw [hst] at hf
      cases hf

theorem Sound.of_worksTo {turn : Turn Observer} (h : Sound s) (hw : s.WorksTo turn s') :
    Sound s' where
  coherent := hw.machine.coherent h.coherent
  phase := hw.machine.phase_eq h.phase
  created := fun hc => absurd hc hw.machine.status_ne_created
  failed := by
    intro hf
    rcases hw.machine.status_cases with hst | hst | ⟨-, hp⟩
    · rw [hst] at hf
      cases hf
    · rw [hst] at hf
      cases hf
    · exact hp

theorem Evolves.sound {h : List Pass} (he : Evolves onTime s h s') (hs : Sound s) : Sound s' := by
  induction he with
  | refl => exact hs
  | spare hsp _ _ ih => exact ih (hs.of_spares hsp)
  | pass hw _ ih => exact ih (hs.of_worksTo hw)

/-- The systems that runs lead to. -/
def Reachable (s : System) : Prop :=
  ∃ (setup : Setup) (s₀ : System) (as : List Action),
    setup.assemble = .ok s₀ ∧ s₀.steps as = some s

theorem assemble_eq {setup : Setup} (h : setup.assemble = .ok s) :
    s.machine.tracker = .initial ∧ s.machine.phase = .freeForSend ∧ s.journal = [] := by
  unfold Setup.assemble at h
  cases hm : (Machine.create setup.settings : Except Fault (Machine Observer)) with
  | error fault => rw [hm] at h; cases h
  | ok m =>
      obtain ⟨timing, -, rfl⟩ := Machine.exists_timing_of_create hm
      rw [hm] at h
      cases hn : setup.harness with
      | none =>
          rw [hn] at h
          cases h
          exact ⟨rfl, rfl, rfl⟩
      | some name =>
          rw [hn] at h
          cases h
          exact ⟨rfl, rfl, rfl⟩

theorem sound_of_assemble {setup : Setup} (h : setup.assemble = .ok s) : Sound s := by
  obtain ⟨ht, hp, -⟩ := assemble_eq h
  refine ⟨?_, ?_, fun _ => ht, fun _ => ?_⟩
  · rw [ht]
    exact .free
  · rw [ht]
    exact hp
  · rw [ht]
    rfl

theorem Reachable.sound (h : Reachable s) : Sound s := by
  obtain ⟨setup, s₀, as, hs₀, hs⟩ := h
  obtain ⟨p, he, -⟩ := evolves_of_steps False as hs fun h => h.elim
  exact he.sound (sound_of_assemble hs₀)

end Soundness

section Resting

variable {onTime : Prop} {s s' : System} {h : List Pass}

/-- A run in which the tracker does not move. -/
structure Rests (onTime : Prop) (s : System) (h : List Pass) (s' : System) : Prop where
  run : Evolves onTime s h s'
  tracker : s'.machine.tracker = s.machine.tracker
  refuses : ∀ x ∈ h, Pass.Refuses s.machine.tracker.phase s.machine.tracker.deadline x

theorem Rests.spare {s₁ : System} (hsp : s.Spares s₁) (ht : onTime → s.isOnTime s₁ = true)
    (hr : Rests onTime s₁ h s') : Rests onTime s h s' where
  run := .spare hsp ht hr.run
  tracker := hr.tracker.trans hsp.machine.tracker
  refuses := by
    rw [← hsp.machine.tracker]
    exact hr.refuses

theorem Rests.pass {s₁ : System} {turn : Turn Observer} (hs : Sound s) (hw : s.WorksTo turn s₁)
    (hm : turn.deed.isMove = false) (hr : Rests onTime s₁ h s') :
    Rests onTime s ((s.now, turn) :: h) s' := by
  have ht : s₁.machine.tracker = s.machine.tracker := hw.machine.tracker_eq hm
  refine ⟨.pass hw hr.run, hr.tracker.trans ht, ?_⟩
  intro x hx
  rcases List.mem_cons.1 hx with rfl | hx
  · exact Pass.refuses_of_works hw.machine hs.coherent hm
  · rw [← ht]
    exact hr.refuses x hx

/-- **The run up to the first move** of the tracker. -/
theorem Evolves.still_or_move (he : Evolves onTime s h s') (hs : Sound s) :
    Rests onTime s h s' ∨
      ∃ h₁ s₁ turn s₂ h₂, h = h₁ ++ (s₁.now, turn) :: h₂ ∧ Rests onTime s h₁ s₁ ∧
        s₁.WorksTo turn s₂ ∧ turn.deed.isMove = true ∧ Evolves onTime s₂ h₂ s' := by
  induction he with
  | refl s => exact .inl ⟨.refl s, rfl, by simp⟩
  | @spare s s₁ s' h hsp ht he ih =>
      rcases ih (hs.of_spares hsp) with hr | ⟨h₁, s₂, turn, s₃, h₂, rfl, hr, hw, hm, he₂⟩
      · exact .inl (hr.spare hsp ht)
      · exact .inr ⟨h₁, s₂, turn, s₃, h₂, rfl, hr.spare hsp ht, hw, hm, he₂⟩
  | @pass s s₁ s' turn h hw he ih =>
      cases hm : turn.deed.isMove with
      | true => exact .inr ⟨[], s, turn, s₁, h, rfl, ⟨.refl s, rfl, by simp⟩, hw, hm, he⟩
      | false =>
          rcases ih (hs.of_worksTo hw) with hr | ⟨h₁, s₂, turn', s₃, h₂, rfl, hr, hw', hm', he₂⟩
          · exact .inl (hr.pass hs hw hm)
          · exact .inr ⟨_ :: h₁, s₂, turn', s₃, h₂, rfl, hr.pass hs hw hm, hw', hm', he₂⟩

/-- A phase lasts until the machine is destroyed, or else up to its deadline, where the next pass ends
it. -/
structure Lasts (p : Phase) (n : Notification) (d : Instant) (s : System) : Prop where
  phase : s.machine.phase = p
  deadline : s.machine.tracker.deadline = some d
  status : s.machine.status = .running ∨ s.machine.status = .stopping ∨
    s.machine.status = .destroyed
  lapses : s.machine.status = .running → d ≤ s.now →
    ∃ s' heard, s.work = some s' ∧
      passes s'.journal = passes s.journal ++ [(s.now, ⟨.expired n, heard⟩)]

theorem Sound.lasts {p : Phase} {n : Notification} {d : Instant} (hs : Sound s)
    (hp : s.machine.tracker.phase = p) (hd : s.machine.tracker.deadline = some d)
    (hn : p.notice? = some n) : s.Lasts p n d where
  phase := by
    rw [hs.phase, hp]
  deadline := hd
  status := by
    cases hst : s.machine.status with
    | created =>
        rw [hs.created hst] at hd
        cases hd
    | failed =>
        rw [hs.failed hst] at hd
        cases hd
    | running => exact .inl rfl
    | stopping => exact .inr (.inl rfl)
    | destroyed => exact .inr (.inr rfl)
  lapses := by
    intro hr hle
    obtain ⟨t, n', ht⟩ := hs.coherent.exists_lapses hd
    have hn' := ht.notice?_eq
    rw [hp, hn] at hn'
    cases hn'
    obtain ⟨s', hs', -, hw'⟩ :=
      exists_work_of_works (.lapses hr (Tracker.isDue_of_deadline hd hle) ht)
    exact ⟨s', _, hs', hw'.passes⟩

/-- A machine that has been started and runs has been running all the time. -/
theorem Evolves.running (he : Evolves onTime s h s') (hc : s.machine.status ≠ .created)
    (hr : s'.machine.status = .running) : s.machine.status = .running := by
  induction he with
  | refl => exact hr
  | spare hsp _ _ ih =>
      rcases hsp.machine.status with hst | ⟨hst, -⟩ | hst | hst
      · rw [← hst]
        exact ih (hst ▸ hc) hr
      · exact absurd hst hc
      all_goals
        have hr' := ih (by simp [hst]) hr
        rw [hst] at hr'
        cases hr'
  | pass hw _ ih => exact hw.machine.status_eq_running (ih hw.machine.status_ne_created hr)

/-- **On time**, the clock does not pass the deadline while the worker runs. -/
theorem Rests.now_le {d : Instant} (hr : Rests onTime s h s') (ho : onTime)
    (hd : s.machine.tracker.deadline = some d) (hc : s.machine.status ≠ .created)
    (hle : s.now ≤ d) (hrun : s'.machine.status = .running) : s'.now ≤ d := by
  obtain ⟨he, -, hq⟩ := hr
  induction he with
  | refl => exact hle
  | @spare s s₁ s' h hsp ht he ih =>
      have hs : s.machine.status = .running := Evolves.running (.spare hsp ht he) hc hrun
      have hc₁ : s₁.machine.status ≠ .created := by
        rcases hsp.machine.status with hst | ⟨hst, -⟩ | hst | hst <;> simp_all
      have hn : s₁.now ≤ max s.now d := by
        simpa [isOnTime, workerTimer?, hs, hd] using ht ho
      rw [← hsp.machine.tracker] at hd hq
      exact ih hd hc₁ (Nat.le_trans hn (Nat.max_le.2 ⟨hle, Nat.le_refl d⟩)) hrun hq
  | @pass s s₁ s' turn h hw he ih =>
      rw [List.forall_mem_cons] at hq
      have ht : s₁.machine.tracker = s.machine.tracker :=
        hw.machine.tracker_eq hq.1.isMove_eq_false
      rw [← ht] at hd hq
      exact ih hd hw.machine.status_ne_created (hw.now ▸ hle) hrun hq.2

end Resting

end System
end MeshExchange
