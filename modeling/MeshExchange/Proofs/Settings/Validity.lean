import MeshExchange.Machine.Basic

/-!
# Valid settings

Settings are valid if none of their times is negative. Then a machine can be created with them, and the
times that its budgets are computed from are the ones that were set.

**Results.**
* `Settings.IsNonNegative`, `Settings.validate_eq_ok_iff`: the valid settings;
* `Settings.IsNonNegative.ofSettings_eq`, `Settings.IsNonNegative.create_eq`: what comes of them.
-/

namespace MeshExchange
namespace Settings

/-- No time is negative. -/
structure IsNonNegative (s : Settings) : Prop where
  confirmationWait : 0 ≤ s.confirmationWait.toInt
  responseBase : 0 ≤ s.responseBase.toInt
  stateChangeTimeout : 0 ≤ s.stateChangeTimeout.toInt
  joinGracePeriod : 0 ≤ s.joinGracePeriod.toInt
  sendWaitTimeout : 0 ≤ s.sendWaitTimeout.toInt

/-- The times that budgets are computed from. -/
def timing (s : Settings) : Timing :=
  ⟨Timing.clampedMillis s.confirmationWait, Timing.clampedMillis s.responseBase⟩

theorem checkNonNegative_eq_ok_iff {name : String} {ms : Int64} :
    Timing.checkNonNegative name ms = .ok () ↔ 0 ≤ ms.toInt := by
  unfold Timing.checkNonNegative
  split
  next h => exact ⟨fun h' => (nomatch h'), fun h' => absurd h (Int.not_lt.2 h')⟩
  next h => exact ⟨fun _ => Int.not_lt.1 h, fun _ => rfl⟩

variable {settings : Settings} {L : Type}

/-- One check after the other: the first succeeds, and so do the rest. -/
theorem check_bind_eq_ok_iff {x : Except Fault Unit} {rest : Except Fault Unit} :
    (x >>= fun _ => rest) = .ok () ↔ x = .ok () ∧ rest = .ok () := by
  cases x with
  | ok _ => exact ⟨fun h => ⟨rfl, h⟩, And.right⟩
  | error _ => exact ⟨fun h => (nomatch h), fun h => (nomatch h.1)⟩

/-- **The valid settings** are those without a negative time. -/
theorem validate_eq_ok_iff : settings.validate = .ok () ↔ settings.IsNonNegative := by
  unfold validate
  simp only [check_bind_eq_ok_iff, checkNonNegative_eq_ok_iff]
  exact ⟨fun ⟨h₁, h₂, h₃, h₄, h₅⟩ => ⟨h₁, h₂, h₃, h₄, h₅⟩,
    fun ⟨h₁, h₂, h₃, h₄, h₅⟩ => ⟨h₁, h₂, h₃, h₄, h₅⟩⟩

theorem IsNonNegative.ofSettings_eq (h : settings.IsNonNegative) :
    Timing.ofSettings settings = .ok settings.timing := by
  simp [Timing.ofSettings, Timing.checkedMillis, checkNonNegative_eq_ok_iff.2 h.confirmationWait,
    checkNonNegative_eq_ok_iff.2 h.responseBase, bind, Except.bind, pure, Except.pure, timing]

theorem IsNonNegative.create_eq (h : settings.IsNonNegative) :
    (Machine.create settings : Except Fault (Machine L)) =
      .ok { settings, timing := settings.timing } := by
  simp [Machine.create, validate_eq_ok_iff.2 h, h.ofSettings_eq, bind, Except.bind, pure,
    Except.pure]

end Settings
end MeshExchange
