import Mathlib.Data.List.Induction
import MeshExchange.Proofs.System.History

/-!
# Runs as lists of actions

A run is cut at any of its actions, and what is noted at each of them is gathered along it.

**Results.**
* `System.steps_cons_iff`, `System.steps_append_iff`: a run, cut after its first action or anywhere;
* `System.kept_of_steps`: what every step keeps, a run keeps;
* `System.gather`: what is noted at the actions of a run, in order;
* `System.exists_work_of_passes`: a pass that the journal tells of, as an action of the run.
-/

namespace MeshExchange
namespace System

variable {s s' s₁ : System} {a : Action} {as as' : List Action}

section Cutting

theorem step_elapse {t : Instant} (ht : s.now ≤ t) :
    s.step (.elapse t) = some { s with now := t } :=
  if_pos ht

theorem steps_cons_iff :
    s.steps (a :: as) = some s' ↔ ∃ s₁, s.step a = some s₁ ∧ s₁.steps as = some s' :=
  Option.bind_eq_some_iff

theorem steps_append_iff :
    s.steps (as ++ as') = some s' ↔ ∃ s₁, s.steps as = some s₁ ∧ s₁.steps as' = some s' := by
  rw [steps, List.foldlM_append]
  exact Option.bind_eq_some_iff

theorem steps_singleton_iff : s.steps [a] = some s' ↔ s.step a = some s' := by
  rw [steps_cons_iff]
  constructor
  · rintro ⟨s₁, h, h'⟩
    cases h'
    exact h
  · intro h
    exact ⟨s', h, rfl⟩

theorem steps_concat_iff :
    s.steps (as ++ [a]) = some s' ↔ ∃ s₁, s.steps as = some s₁ ∧ s₁.step a = some s' := by
  simp only [steps_append_iff, steps_singleton_iff]

/-- What every step keeps, a run keeps. -/
theorem kept_of_steps {P : System → Prop} (hP : ∀ s a s', P s → s.step a = some s' → P s')
    (hs : P s) (h : s.steps as = some s') : P s' := by
  induction as generalizing s with
  | nil =>
      cases h
      exact hs
  | cons a as ih =>
      obtain ⟨s₁, h₁, h⟩ := steps_cons_iff.1 h
      exact ih (hP _ _ _ hs h₁) h

theorem now_le_of_step (h : s.step a = some s') : s.now ≤ s'.now := by
  by_cases ha : a = .work
  · subst ha
    obtain ⟨turn, hw⟩ := worksTo_of_work h
    exact Nat.le_of_eq hw.now.symm
  · exact (step_spares ha h).now

theorem now_le_of_steps (h : s.steps as = some s') : s.now ≤ s'.now :=
  kept_of_steps (P := fun x => s.now ≤ x.now) (fun _ _ _ hx hs => Nat.le_trans hx (now_le_of_step hs))
    (Nat.le_refl _) h

/-- A run is grown from its beginning, action by action. -/
theorem steps_induct {P : List Action → System → Prop} (h₀ : P [] s)
    (hP : ∀ as x a y, s.steps as = some x → x.step a = some y → P as x → P (as ++ [a]) y)
    (h : s.steps as = some s') : P as s' := by
  induction as using List.reverseRecOn generalizing s' with
  | nil =>
      cases h
      exact h₀
  | append_singleton as a ih =>
      obtain ⟨x, hx, ha⟩ := steps_concat_iff.1 h
      exact hP as x a s' hx ha (ih hx)

theorem Reachable.steps (hs : s.Reachable) (h : s.steps as = some s') : s'.Reachable := by
  obtain ⟨setup, s₀, as₀, hs₀, has₀⟩ := hs
  exact ⟨setup, s₀, as₀ ++ as, hs₀, steps_append_iff.2 ⟨s, has₀, h⟩⟩

theorem Reachable.step (hs : s.Reachable) (h : s.step a = some s') : s'.Reachable :=
  hs.steps (steps_singleton_iff.2 h)

theorem Reachable.of_assemble {setup : Setup} (h : setup.assemble = .ok s) : s.Reachable :=
  ⟨setup, s, [], h, rfl⟩

/-- What holds of a system at the beginning and is kept by every step holds in every run. -/
theorem Reachable.induct {P : System → Prop} (hs : s.Reachable)
    (h₀ : ∀ setup s, Setup.assemble setup = .ok s → P s)
    (hP : ∀ s a s', s.Reachable → P s → s.step a = some s' → P s') : P s := by
  obtain ⟨setup, s₀, as, hs₀, has⟩ := hs
  have hboth : s.Reachable ∧ P s :=
    kept_of_steps (P := fun s => s.Reachable ∧ P s)
      (fun s a s' hs h => ⟨hs.1.step h, hP s a s' hs.1 hs.2 h⟩) ⟨.of_assemble hs₀, h₀ _ _ hs₀⟩ has
  exact hboth.2

/-- Everything that a system has besides its machine, its link and its observers is empty at the
beginning. -/
theorem exists_of_assemble {setup : Setup} (h : setup.assemble = .ok s) :
    ∃ timing status listener sendWait resident observers,
      Timing.ofSettings setup.settings = .ok timing ∧ (status = .created ∨ status = .running) ∧
      s = { machine := { settings := setup.settings, timing, status, listener }, link := setup.link
            sendWait, resident, observers } := by
  unfold Setup.assemble at h
  cases hm : (Machine.create setup.settings : Except Fault (Machine Observer)) with
  | error fault => rw [hm] at h; cases h
  | ok m =>
      obtain ⟨timing, ht, rfl⟩ := Machine.exists_timing_of_create hm
      rw [hm] at h
      cases hn : setup.harness with
      | none =>
          rw [hn] at h
          cases h
          exact ⟨timing, _, _, _, _, _, ht, .inl rfl, rfl⟩
      | some name =>
          rw [hn] at h
          cases h
          exact ⟨timing, _, _, _, _, _, ht, .inr rfl, rfl⟩

end Cutting

section Gathering

variable {α : Type} {f : System → Action → System → List α}

/-- What is noted at the actions of a run, in order. -/
def gather (f : System → Action → System → List α) (s : System) : List Action → List α
  | [] => []
  | a :: as =>
      match s.step a with
      | some s₁ => f s a s₁ ++ s₁.gather f as
      | none => []

theorem gather_cons (h : s.step a = some s₁) :
    s.gather f (a :: as) = f s a s₁ ++ s₁.gather f as := by
  rw [gather, h]

theorem gather_append (h : s.steps as = some s₁) :
    s.gather f (as ++ as') = s.gather f as ++ s₁.gather f as' := by
  induction as generalizing s with
  | nil =>
      cases h
      rfl
  | cons a as ih =>
      obtain ⟨s₂, h₂, h⟩ := steps_cons_iff.1 h
      rw [List.cons_append, gather_cons h₂, gather_cons h₂, ih h, List.append_assoc]

theorem gather_singleton (h : s.step a = some s₁) : s.gather f [a] = f s a s₁ := by
  rw [gather_cons h]
  exact List.append_nil _

theorem gather_concat (h : s.steps as = some s₁) (h' : s₁.step a = some s') :
    s.gather f (as ++ [a]) = s.gather f as ++ f s₁ a s' := by
  rw [gather_append h, gather_singleton h']

theorem gather_concat_of_eq_nil (h : s.steps as = some s₁) (h' : s₁.step a = some s')
    (hf : f s₁ a s' = []) : s.gather f (as ++ [a]) = s.gather f as := by
  rw [gather_concat h h', hf, List.append_nil]

theorem gather_filterMap {β : Type} (g : α → Option β)
    (s : System) (as : List Action) :
    s.gather (fun s a s' => (f s a s').filterMap g) as = (s.gather f as).filterMap g := by
  induction as generalizing s with
  | nil => rfl
  | cons a as ih =>
      cases h : s.step a with
      | none => simp [gather, h]
      | some s₁ => rw [gather_cons h, gather_cons h, List.filterMap_append, ih]

theorem gather_subset {g : System → Action → System → List α}
    (hfg : ∀ s a s', f s a s' ⊆ g s a s') (s : System) (as : List Action) :
    s.gather f as ⊆ s.gather g as := by
  induction as generalizing s with
  | nil => exact fun _ h => h
  | cons a as ih =>
      cases h : s.step a with
      | none => simp [gather, h]
      | some s₁ =>
          rw [gather_cons h, gather_cons h]
          exact List.append_subset.2 ⟨List.subset_append_of_subset_left _ (hfg s a s₁),
            List.subset_append_of_subset_right _ (ih s₁)⟩

end Gathering

section Passes

/-- A step that makes no pass tells of none, and a pass tells of itself. -/
theorem passes_of_step (h : s.step a = some s') :
    (a ≠ .work ∧ passes s'.journal = passes s.journal) ∨
      ∃ turn, a = .work ∧ s.WorksTo turn s' := by
  by_cases ha : a = .work
  · subst ha
    obtain ⟨turn, hw⟩ := worksTo_of_work h
    exact .inr ⟨turn, rfl, hw⟩
  · exact .inl ⟨ha, (step_spares ha h).passes⟩

/-- A pass that the journal tells of was made in the run, unless it had been made before. -/
theorem exists_work_of_passes {x : Pass} (h : s.steps as = some s')
    (hx : x ∈ passes s'.journal) (hn : x ∉ passes s.journal) :
    ∃ before after y z, as = before ++ .work :: after ∧ s.steps before = some y ∧
      y.step .work = some z ∧ z.steps after = some s' ∧ x.1 = y.now ∧ y.WorksTo x.2 z := by
  induction as generalizing s with
  | nil =>
      cases h
      exact absurd hx hn
  | cons a as ih =>
      obtain ⟨s₁, h₁, has⟩ := steps_cons_iff.1 h
      by_cases hx₁ : x ∈ passes s₁.journal
      · rcases passes_of_step h₁ with ⟨-, hp⟩ | ⟨turn, rfl, hw⟩
        · rw [hp] at hx₁
          exact absurd hx₁ hn
        · rw [hw.passes, List.mem_append, List.mem_singleton] at hx₁
          rcases hx₁ with hx₁ | rfl
          · exact absurd hx₁ hn
          · exact ⟨[], as, s, s₁, rfl, rfl, h₁, has, rfl, hw⟩
      · obtain ⟨before, after, y, z, rfl, hb, hw, ha, hnow, hworks⟩ := ih has hx₁
        exact ⟨a :: before, after, y, z, rfl, steps_cons_iff.2 ⟨s₁, h₁, hb⟩, hw, ha, hnow, hworks⟩

end Passes

end System
end MeshExchange
