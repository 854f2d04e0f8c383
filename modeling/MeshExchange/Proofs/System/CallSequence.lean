import Mathlib.Data.List.Basic
import Mathlib.Data.Nat.Init
import MeshExchange.Proofs.Script.Refinement

/-!
# Calls one after the other on a virtual clock

A caller makes its calls one after the other, each as soon as it is through with the one before, on a
system that is otherwise left to itself: whoever can act does so, in any order, and the clock stands
still while anybody can. When nobody can it goes on, but not past an instant at which somebody goes on.

**Input.** A property of call sequences that every action, every call and the clock keep, with a number that
every action and every call lowers and the clock does not raise.

**Method.** While somebody can act the number falls. The clock leaves it, but there are fewer timers
ahead after it has come to one.

**Results.**
* `CallSequence.Unfolds`: what becomes of a call sequence, and after how many actions and calls;
* `CallSequence.Decreases.of_unfolds`: the property is kept, and there are no more of them than the number
  says;
* `CallSequence.Decreases.exists_unfolds`: every instant to come is reached, with nobody able to act.
-/

namespace MeshExchange

namespace System

variable {s : System}

/-- How many timers are still ahead. -/
def timersAhead (s : System) : Nat := (s.timers.filter (s.now < ·)).length

/-- The clock has come to a timer, so fewer are ahead. -/
theorem timersAhead_lt {u : Instant} (hu : u ∈ s.timers) (hn : s.now < u) :
    { s with now := u }.timersAhead < s.timersAhead := by
  have hsub : (s.timers.filter (u < ·)).Sublist (s.timers.filter (s.now < ·)) :=
    List.monotone_filter_right s.timers fun v hv => by
      simp only [decide_eq_true_eq] at hv ⊢
      exact Nat.lt_trans hn hv
  refine Nat.lt_of_le_of_ne hsub.length_le fun heq => ?_
  have hmem : u ∈ s.timers.filter (s.now < ·) := by
    simp [hu, hn]
  rw [← hsub.eq_of_length heq] at hmem
  simp at hmem

end System

/-- A system, and the calls that its caller has not made yet. -/
structure CallSequence where
  calls : List Call
  system : System

namespace CallSequence

/-- Whether anybody can act: somebody at the system, or the caller, which makes its next call. -/
def isAble (c : CallSequence) : Bool :=
  c.system.isAble || (!c.calls.isEmpty && c.system.isThrough)

/-- What becomes of a call sequence, and after how many actions and calls. -/
inductive Unfolds (c : CallSequence) : Nat → CallSequence → Prop
  | refl : Unfolds c 0 c
  | act {k : Nat} {calls : List Call} {s s' : System} {a : Action}
      (h : Unfolds c k ⟨calls, s⟩) (ha : a = .work ∨ a = .deliver ∨ ∃ i, a = .resume i)
      (hs : s.step a = some s') : Unfolds c (k + 1) ⟨calls, s'⟩
  /-- The caller is through with its calls so far and makes the next one. -/
  | call {k : Nat} {call : Call} {calls : List Call} {s s' : System}
      (h : Unfolds c k ⟨call :: calls, s⟩) (ht : s.isThrough = true)
      (hs : s.step (.call s.now call) = some s') : Unfolds c (k + 1) ⟨calls, s'⟩
  /-- Nobody can act, and the clock does not pass a timer. -/
  | elapse {k : Nat} {calls : List Call} {s : System} {t : Instant}
      (h : Unfolds c k ⟨calls, s⟩) (hable : isAble ⟨calls, s⟩ = false) (ht : s.now ≤ t)
      (hu : ∀ u ∈ s.timers, s.now < u → t ≤ u) : Unfolds c k ⟨calls, { s with now := t }⟩

/-- Every action and every call keeps a property of call sequences and uses up some of what is left; the
clock keeps it too. -/
structure Decreases (P : Nat → CallSequence → Prop) : Prop where
  act : ∀ {n calls s s' a}, P n ⟨calls, s⟩ → (a = .work ∨ a = .deliver ∨ ∃ i, a = .resume i) →
    s.step a = some s' → s'.now = s.now ∧ ∃ n' < n, P n' ⟨calls, s'⟩
  call : ∀ {n call calls s s'}, P n ⟨call :: calls, s⟩ → s.isThrough = true →
    s.step (.call s.now call) = some s' → ∃ n' < n, P n' ⟨calls, s'⟩
  elapse : ∀ {n calls s t}, P n ⟨calls, s⟩ → isAble ⟨calls, s⟩ = false → s.now ≤ t →
    (∀ u ∈ s.timers, s.now < u → t ≤ u) → P n ⟨calls, { s with now := t }⟩

variable {P : Nat → CallSequence → Prop} {c c₁ c' : CallSequence} {k l n : Nat} {t : Instant}

theorem Unfolds.trans (h : c.Unfolds k c₁) (h' : c₁.Unfolds l c') : c.Unfolds (k + l) c' := by
  induction h' with
  | refl => exact h
  | act _ ha hs ih => exact .act ih ha hs
  | call _ ht hs ih => exact .call ih ht hs
  | elapse _ hable ht hu ih => exact .elapse ih hable ht hu

namespace Decreases

variable (hw : Decreases P)
include hw

/-- Whoever can act uses up some of what is left. -/
theorem exists_step (hc : P n c) (hable : c.isAble = true) :
    ∃ c', c.Unfolds 1 c' ∧ c'.system.now = c.system.now ∧ ∃ n' < n, P n' c' := by
  obtain ⟨calls, s⟩ := c
  cases hs : s.isAble with
  | true =>
      obtain ⟨a, ha, s', hs'⟩ := System.exists_step_of_isAble hs
      obtain ⟨hnow, hp⟩ := hw.act hc ha hs'
      exact ⟨⟨calls, s'⟩, .act .refl ha hs', hnow, hp⟩
  | false =>
      simp only [isAble, hs, Bool.false_or, Bool.and_eq_true] at hable
      cases calls with
      | nil => simp at hable
      | cons call calls => exact ⟨⟨calls, _⟩, .call .refl hable.2 rfl, rfl, hw.call hc hable.2 rfl⟩

/-- A whole run keeps the property, and is not longer than the number says. -/
theorem of_unfolds (hc : P n c) (h : c.Unfolds k c') : ∃ n', k + n' ≤ n ∧ P n' c' := by
  induction h with
  | refl => exact ⟨n, by omega, hc⟩
  | act _ ha hstep ih =>
      obtain ⟨n₁, hle, hc₁⟩ := ih
      obtain ⟨-, n', hlt, hc'⟩ := hw.act hc₁ ha hstep
      exact ⟨n', by omega, hc'⟩
  | call _ ht hstep ih =>
      obtain ⟨n₁, hle, hc₁⟩ := ih
      obtain ⟨n', hlt, hc'⟩ := hw.call hc₁ ht hstep
      exact ⟨n', by omega, hc'⟩
  | elapse _ hable ht hu ih =>
      obtain ⟨n₁, hle, hc₁⟩ := ih
      exact ⟨n₁, hle, hw.elapse hc₁ hable ht hu⟩

/-- An instant is reached at which nobody can act, be it the present one. -/
theorem exists_quiet (hc : P n c) :
    ∃ k c' n', c.Unfolds k c' ∧ P n' c' ∧ c'.isAble = false ∧
      c'.system.now = c.system.now := by
  induction n using Nat.strong_induction_on generalizing c with
  | _ n ih =>
      cases hable : c.isAble with
      | false => exact ⟨0, c, n, .refl, hc, hable, rfl⟩
      | true =>
          obtain ⟨c₁, h₁, hnow, n₁, hlt, hp⟩ := hw.exists_step hc hable
          obtain ⟨k, c', n', h, hp', hquiet, hnow'⟩ := ih n₁ hlt hp
          exact ⟨1 + k, c', n', h₁.trans h, hp', hquiet, hnow'.trans hnow⟩

/-- **Nothing gets stuck and nobody acts for ever**: every instant to come is reached, with nobody able
to act any more. -/
theorem exists_unfolds (hc : P n c) (ht : c.system.now ≤ t) :
    ∃ k c', c.Unfolds k c' ∧ c'.isAble = false ∧ c'.system.now = t := by
  -- An action lowers the number. The clock leaves it, but there are fewer timers ahead.
  induction n using Nat.strong_induction_on generalizing c with
  | _ n ihn =>
    induction hm : c.system.timersAhead using Nat.strong_induction_on generalizing c with
    | _ m ihm =>
      subst hm
      cases hable : c.isAble with
      | true =>
          obtain ⟨c₁, h₁, hnow, n₁, hlt, hp⟩ := hw.exists_step hc hable
          obtain ⟨k, c', h, hquiet⟩ := ihn n₁ hlt hp (hnow ▸ ht)
          exact ⟨1 + k, c', h₁.trans h, hquiet⟩
      | false =>
          obtain ⟨calls, s⟩ := c
          by_cases hfree : ∀ u ∈ s.timers, s.now < u → t ≤ u
          · obtain ⟨k, c', -, h, -, hquiet, hnow⟩ :=
              hw.exists_quiet (hw.elapse hc hable ht hfree)
            exact ⟨0 + k, c', (Unfolds.elapse .refl hable ht hfree).trans h, hquiet, hnow⟩
          · simp only [not_forall, Nat.not_le] at hfree
            obtain ⟨v, hv, hnv, hvt⟩ := hfree
            have hahead : v ∈ s.timers.filter (s.now < ·) := by
              simp [hv, hnv]
            obtain ⟨u, hu⟩ := Option.isSome_iff_exists.1 (List.isSome_min?_of_mem hahead)
            obtain ⟨⟨hmem, hlt⟩, hmin⟩ := System.nextTimer?_eq_some_iff.1 hu
            have hle := Nat.le_of_lt hlt
            have hut : u ≤ t := Nat.le_trans (hmin v hv hnv) (Nat.le_of_lt hvt)
            obtain ⟨k, c', h, hquiet⟩ := ihm _ (System.timersAhead_lt hmem hlt)
              (hw.elapse hc hable hle hmin) hut rfl
            exact ⟨0 + k, c', (Unfolds.elapse .refl hable hle hmin).trans h, hquiet⟩

end Decreases

end CallSequence
end MeshExchange
