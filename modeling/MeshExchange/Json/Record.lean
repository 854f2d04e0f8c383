import MeshExchange.Json.Reader
import MeshExchange.Json.Schema
import MeshExchange.Logging.Basic
import MeshExchange.Phase
import MeshExchange.Request
import MeshExchange.Settings.Basic

/-!
# The data of the library in JSON

A phase is its name, as a string or as the only key of an object with the value null. An address is a
number. Confirmations and requests need all their fields; settings take those that are missing from the
defaults.

**Results.**
* `Phase.ofJson?`, `Address.ofJson?` and the schemas of the records, with the values they are written
  as;
* `DataKind.reprint?`: a text read as data of a kind and printed again.
-/

namespace MeshExchange

namespace Phase

/-- A phase as a value. -/
def toJson (p : Phase) : Json := .text (some p.label)

/-- The phase that a value names. -/
def ofJson? : Json → Option Phase
  | .text (some name) => ofLabel? name
  | .object [(some name, .null)] => ofLabel? name
  | _ => none

end Phase

namespace Address

/-- An address as a value. -/
def toJson (a : Address) : Json := .ofNat a.value.toNat

/-- The address that a value gives. -/
def ofJson? (j : Json) : Option Address := j.toWord16?.map Address.mk

end Address

namespace Confirmation

/-- Confirmations in JSON. -/
def schema : Schema Confirmation where
  fields :=
    [⟨"hop_count", fun j c => j.toWord8?.map fun hops => { c with hops },
        fun c => .ofNat c.hops.toNat⟩,
     ⟨"timeslot_length", fun j c => j.toWord8?.map fun slot => { c with slot },
        fun c => .ofNat c.slot.toNat⟩,
     ⟨"hop_count_response", fun j c => j.toWord8?.map fun responseHops => { c with responseHops },
        fun c => .ofNat c.responseHops.toNat⟩]
  base := ⟨0, 0, 0⟩
  isComplete := true

end Confirmation

namespace Request

/-- Requests in JSON. -/
def schema : Schema Request where
  fields :=
    [⟨"address", fun j r => (Address.ofJson? j).map fun address => { r with address },
        fun r => r.address.toJson⟩,
     ⟨"peripheral", fun j r => j.toWord8?.map fun peripheral => { r with peripheral },
        fun r => .ofNat r.peripheral.toNat⟩,
     ⟨"command", fun j r => j.toWord8?.map fun command => { r with command },
        fun r => .ofNat r.command.toNat⟩,
     ⟨"hw_profile", fun j r => j.toWord16?.map fun profile => { r with profile },
        fun r => .ofNat r.profile.toNat⟩,
     ⟨"data", fun j r => j.toBytes?.map fun data => { r with data }, fun r => .ofBytes r.data⟩]
  base := ⟨⟨0⟩, 0, 0, 0, []⟩
  isComplete := true

end Request

namespace Settings

/-- Settings in JSON. -/
def schema : Schema Settings where
  fields :=
    [⟨"time_to_wait_for_confirmation_ms",
        fun j s => j.toInt64?.map fun confirmationWait => { s with confirmationWait },
        fun s => .integer s.confirmationWait.toInt⟩,
     ⟨"base_time_to_wait_for_response_ms",
        fun j s => j.toInt64?.map fun responseBase => { s with responseBase },
        fun s => .integer s.responseBase.toInt⟩,
     ⟨"state_change_timeout_ms",
        fun j s => j.toInt64?.map fun stateChangeTimeout => { s with stateChangeTimeout },
        fun s => .integer s.stateChangeTimeout.toInt⟩,
     ⟨"join_grace_period_ms",
        fun j s => j.toInt64?.map fun joinGracePeriod => { s with joinGracePeriod },
        fun s => .integer s.joinGracePeriod.toInt⟩,
     ⟨"send_wait_timeout_ms",
        fun j s => j.toInt64?.map fun sendWaitTimeout => { s with sendWaitTimeout },
        fun s => .integer s.sendWaitTimeout.toInt⟩]
  base := {}
  isComplete := false

end Settings

namespace LogSettings

/-- Settings of the log in JSON. -/
def schema : Schema LogSettings where
  fields :=
    [⟨"service_name", fun j s => j.toText?.map fun serviceName => { s with serviceName },
        fun s => .text (some s.serviceName)⟩,
     ⟨"log_level", fun j s => j.toText?.map fun level => { s with level },
        fun s => .text (some s.level)⟩,
     ⟨"console_output", fun j s => j.toBool?.map fun console => { s with console },
        fun s => .bool s.console⟩,
     ⟨"json_logs", fun j s => j.toBool?.map fun json => { s with json }, fun s => .bool s.json⟩]
  base := {}
  isComplete := false

end LogSettings

/-- The kinds of data. -/
inductive DataKind
  | phase
  | address
  | confirmation
  | request
  | settings
  | logSettings
  deriving DecidableEq, Repr

namespace DataKind

/-- A value as data of a kind, printed again. -/
def normal? (kind : DataKind) (j : Json) : Option Json :=
  match kind with
  | .phase => (Phase.ofJson? j).map Phase.toJson
  | .address => (Address.ofJson? j).map Address.toJson
  | .confirmation => (Confirmation.schema.read j).map Confirmation.schema.write
  | .request => (Request.schema.read j).map Request.schema.write
  | .settings => (Settings.schema.read j).map Settings.schema.write
  | .logSettings => (LogSettings.schema.read j).map LogSettings.schema.write

/-- A text read as data of a kind, and the text of that data. -/
def reprint? (kind : DataKind) (text : String) : Option String :=
  ((Json.parse text.toList).bind kind.normal?).map fun j => String.ofList j.write

end DataKind
end MeshExchange
