import MeshExchange.Settings.Basic
import MeshExchange.Text.Blank

/-!
# Settings from the environment

Each setting has an environment variable of its own. Its value counts if, blanks at either end left
aside, it is a decimal number that fits into eight bytes, with at most one sign; else the default holds.

**Results.**
* `Settings.number?`: the number that the value of a variable denotes;
* `Settings.ofEnvironment`: the settings that an environment gives.
-/

namespace MeshExchange

/-- The values of the environment variables that are set. -/
abbrev Environment := String → Option String

namespace Settings

section Variables

/-- The number that the value of a variable denotes. -/
def number? (value : String) : Option Int64 :=
  (Decimal.signed? (Blank.trim value.toList)).bind fun n =>
    if Int64.minValue.toInt ≤ n ∧ n ≤ Int64.maxValue.toInt then some (Int64.ofInt n) else none

/-- The number a variable is set to, or else the default. -/
def numberOf (env : Environment) (name : String) (default : Int64) : Int64 :=
  ((env name).bind number?).getD default

end Variables

/-- The settings that an environment gives. -/
def ofEnvironment (env : Environment) : Settings :=
  let default : Settings := {}
  { confirmationWait := numberOf env "DPA_CONFIRMATION_TIMEOUT_MS" default.confirmationWait
    responseBase := numberOf env "DPA_RESPONSE_BASE_TIMEOUT_MS" default.responseBase
    stateChangeTimeout := numberOf env "DPA_STATE_CHANGE_TIMEOUT_MS" default.stateChangeTimeout
    joinGracePeriod := numberOf env "DPA_JOIN_GRACE_PERIOD_MS" default.joinGracePeriod
    sendWaitTimeout := numberOf env "DPA_SEND_WAIT_TIMEOUT_MS" default.sendWaitTimeout }

end Settings
end MeshExchange
