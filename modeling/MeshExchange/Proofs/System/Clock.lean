import MeshExchange.Proofs.System.CallSequence

/-!
# Systems on a virtual clock

A system that is left to itself: whoever can act does so, in any order, and the clock stands still
while anybody can. When nobody can it goes on, but not past an instant at which somebody goes on.

**Input.** A property of systems that every action and the clock keep, with a number that every action
lowers and the clock does not raise.

**Results.**
* `System.Unfolds`: what becomes of such a system, and after how many actions;
* `System.Decreases.of_unfolds`: the property is kept, and there are no more actions than the number says;
* `System.Decreases.exists_unfolds`: every instant to come is reached, with nobody able to act.
-/

namespace MeshExchange
namespace System

/-- What becomes of a system that is left to itself, and after how many actions. -/
inductive Unfolds (s : System) : Nat → System → Prop
  | refl : Unfolds s 0 s
  | act {k : Nat} {s₁ s' : System} {a : Action} (h : Unfolds s k s₁)
      (ha : a = .work ∨ a = .deliver ∨ ∃ i, a = .resume i) (hs : s₁.step a = some s') :
      Unfolds s (k + 1) s'
  /-- Nobody can act, and the clock does not pass a timer. -/
  | elapse {k : Nat} {s₁ : System} {t : Instant} (h : Unfolds s k s₁) (hable : s₁.isAble = false)
      (ht : s₁.now ≤ t) (hu : ∀ u ∈ s₁.timers, s₁.now < u → t ≤ u) :
      Unfolds s k { s₁ with now := t }

/-- Every action keeps a property of systems and uses up some of what is left; the clock keeps it too. -/
structure Decreases (P : Nat → System → Prop) : Prop where
  act : ∀ {n s s' a}, P n s → (a = .work ∨ a = .deliver ∨ ∃ i, a = .resume i) →
    s.step a = some s' → s'.now = s.now ∧ ∃ n' < n, P n' s'
  elapse : ∀ {n s t}, P n s → s.isAble = false → s.now ≤ t →
    (∀ u ∈ s.timers, s.now < u → t ≤ u) → P n { s with now := t }

variable {P : Nat → System → Prop} {s s' : System} {k n : Nat} {t : Instant}

/-- What becomes of a system is what becomes of it if its caller makes no calls. -/
theorem Unfolds.callSequence (h : s.Unfolds k s') : CallSequence.Unfolds ⟨[], s⟩ k ⟨[], s'⟩ := by
  induction h with
  | refl => exact .refl
  | act _ ha hs ih => exact .act ih ha hs
  | elapse _ hable ht hu ih => exact .elapse ih (by simpa [CallSequence.isAble] using hable) ht hu

theorem unfolds_of_callSequence {c c' : CallSequence} (hc : c.calls = []) (h : c.Unfolds k c') :
    c'.calls = [] ∧ c.system.Unfolds k c'.system := by
  induction h with
  | refl => exact ⟨hc, .refl⟩
  | act _ ha hs ih => exact ⟨ih.1, .act ih.2 ha hs⟩
  | call _ _ _ ih => cases ih.1
  | @elapse k calls s t _ hable ht hu ih =>
      have hquiet : s.isAble = false := (Bool.or_eq_false_iff.1 hable).1
      exact ⟨ih.1, .elapse ih.2 hquiet ht hu⟩

namespace Decreases

variable (hw : Decreases P)
include hw

theorem callSequence : CallSequence.Decreases fun n c => c.calls = [] ∧ P n c.system where
  act := by
    rintro n calls s s' a ⟨rfl, hs⟩ ha h
    obtain ⟨hnow, n', hlt, hs'⟩ := hw.act hs ha h
    exact ⟨hnow, n', hlt, rfl, hs'⟩
  call := by
    rintro n call calls s s' ⟨hc, -⟩
    cases hc
  elapse := by
    rintro n calls s t ⟨rfl, hs⟩ hable ht hu
    exact ⟨rfl, hw.elapse hs (Bool.or_eq_false_iff.1 hable).1 ht hu⟩

/-- A whole run keeps the property, and is not longer than the number says. -/
theorem of_unfolds (hs : P n s) (h : s.Unfolds k s') : ∃ n', k + n' ≤ n ∧ P n' s' := by
  obtain ⟨n', hle, -, hs'⟩ := hw.callSequence.of_unfolds ⟨rfl, hs⟩ h.callSequence
  exact ⟨n', hle, hs'⟩

/-- **Nothing gets stuck and nobody acts for ever**: every instant to come is reached, with nobody able
to act any more. -/
theorem exists_unfolds (hs : P n s) (ht : s.now ≤ t) :
    ∃ k s', s.Unfolds k s' ∧ s'.isAble = false ∧ s'.now = t := by
  obtain ⟨k, c', h, hable, hnow⟩ := hw.callSequence.exists_unfolds (c := ⟨[], s⟩) ⟨rfl, hs⟩ ht
  exact ⟨k, c'.system, (unfolds_of_callSequence rfl h).2, (Bool.or_eq_false_iff.1 hable).1, hnow⟩

end Decreases

end System
end MeshExchange
