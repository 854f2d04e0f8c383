import MeshExchange.Settings.Environment

/-!
# Settings of the log

What is logged, under which name, whether it goes to the console, and in which form.

**Results.**
* `LogSettings.ofEnvironment`: the settings that environment variables give;
* `LogSettings.forComponent`: the same under the name of a component;
* `LogSettings.withLevel`, `LogSettings.withJson`, `LogSettings.withConsole`: settings with one of them
  replaced;
* `LogSettings.flag`: a truth value in words.
-/

namespace MeshExchange

/-- Settings of the log. -/
structure LogSettings where
  serviceName : String := "dpa-protocol"
  /-- A level, or a filter in words. -/
  level : String := "info"
  console : Bool := true
  /-- Whether records are written as JSON. -/
  json : Bool := false
  deriving DecidableEq, Repr

namespace LogSettings

section Flags

/-- The lower-case form of a Latin letter; every other character as it is. -/
def lower (c : Char) : Char :=
  if 'A' ≤ c ∧ c ≤ 'Z' then Char.ofNat (c.toNat + ('a'.toNat - 'A'.toNat)) else c

/-- A truth value in words, or else the default. -/
def flag (value : String) (default : Bool) : Bool :=
  let word := String.ofList ((Blank.trim value.toList).map lower)
  if word ∈ ["true", "1", "yes", "on"] then true
  else if word ∈ ["false", "0", "no", "off"] then false
  else default

end Flags

section Environments

/-- Whether the environment is that of a container. -/
def isContainer (env : Environment) : Bool :=
  (env "KUBERNETES_SERVICE_HOST").isSome || (env "DOCKER_CONTAINER").isSome

/-- The settings that an environment gives. -/
def ofEnvironment (env : Environment) : LogSettings where
  serviceName := (env "OTEL_SERVICE_NAME").getD "dpa-protocol"
  level := ((env "DPA_LOG_LEVEL").or (env "RUST_LOG")).getD "info"
  console := ((env "DPA_CONSOLE_OUTPUT").map (flag · true)).getD true
  json := ((env "DPA_JSON_LOGS").map (flag · false)).getD (isContainer env)

/-- The settings that an environment gives to one component. -/
def forComponent (env : Environment) (component : String) : LogSettings :=
  let s := ofEnvironment env
  { s with serviceName := s.serviceName ++ "-" ++ component }

end Environments

section Overrides

/-- Replaces the level, or the filter in words. -/
def withLevel (s : LogSettings) (level : String) : LogSettings := { s with level }

/-- Chooses whether records are written as JSON. -/
def withJson (s : LogSettings) (json : Bool) : LogSettings := { s with json }

/-- Chooses whether records go to the console. -/
def withConsole (s : LogSettings) (console : Bool) : LogSettings := { s with console }

end Overrides

end LogSettings
end MeshExchange
