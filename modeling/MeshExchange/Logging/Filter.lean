import MeshExchange.Logging.Basic

/-!
# Log filters

A filter is a list of items between commas. An item is a level for everything, a target, which is
logged at the finest level, or a target with its level behind an equals sign; with nothing behind that
sign the level is the finest one. Targets are names of modules. Empty items do not count, and a filter
without items lets errors pass.

**Results.**
* `Filter.parse`: the items of a filter, if all its levels are levels and all its targets are names;
* `Filter.maxLevel`: the most verbose level of a filter;
* `Filter.build`: the filter that counts, from the environment or else from the settings.
-/

namespace MeshExchange

/-- How much is logged, from nothing to everything. -/
inductive Level
  | off
  | error
  | warn
  | info
  | debug
  | trace
  deriving DecidableEq, Repr

namespace Level

section Names

/-- The name of a level. -/
def name : Level → String
  | .off => "off"
  | .error => "error"
  | .warn => "warn"
  | .info => "info"
  | .debug => "debug"
  | .trace => "trace"

/-- The number of a level: more verbose levels have higher ones. -/
def verbosity : Level → Nat
  | .off => 0
  | .error => 1
  | .warn => 2
  | .info => 3
  | .debug => 4
  | .trace => 5

/-- All levels. -/
def all : List Level := [.off, .error, .warn, .info, .debug, .trace]

/-- The level of a name in any case, or of a number. -/
def ofWord? (word : List Char) : Option Level :=
  all.find? fun l =>
    word.map LogSettings.lower = l.name.toList ∨ word = Decimal.ofNat l.verbosity

end Names

/-- The more verbose of two levels. -/
def max (a b : Level) : Level := if a.verbosity ≤ b.verbosity then b else a

end Level

/-- An item of a filter: a level, for one target or for everything. -/
structure Directive where
  target : Option String
  level : Level
  deriving DecidableEq, Repr

/-- Why the log cannot be set up. -/
inductive LogFault
  /-- A filter with a level that is none, or a target that is no name. -/
  | badFilter
  /-- The log is set up already. -/
  | alreadySet
  deriving DecidableEq, Repr

/-- The text of a fault of the log. -/
def LogFault.message : LogFault → String
  | .badFilter =>
      "Invalid log filter: error parsing level filter: expected one of \"off\", \"error\", "
        ++ "\"warn\", \"info\", \"debug\", \"trace\", or a number 0-5"
  | .alreadySet =>
      "Logging already initialized: a global default trace dispatcher has already been set"

/-- The items of a filter. -/
abbrev Filter := List Directive

namespace Filter

section Reading

/-- The parts of a text between separators. -/
def splitOn (separator : Char) : List Char → List (List Char)
  | [] => [[]]
  | c :: cs =>
      if c = separator then [] :: splitOn separator cs
      else
        match splitOn separator cs with
        | [] => [[c]]
        | part :: parts => (c :: part) :: parts

/-- The level behind the equals sign of an item. -/
def levelBehind (word : List Char) : Option Level :=
  if word.isEmpty then some .trace else Level.ofWord? word

/-- Whether a character may stand in a name: a letter, a digit, or what joins the parts of a name. Beyond
ASCII every character counts as a letter. -/
def isNameChar (c : Char) : Bool :=
  c.isAlphanum || c == '_' || c == ':' || c == '-' || 0x80 ≤ c.toNat

/-- The name of a target. -/
def readTarget (word : List Char) : Option String :=
  if !word.isEmpty && word.all isNameChar then some (String.ofList word) else none

/-- An item of a filter. -/
def readItem (item : List Char) : Option Directive :=
  match item.dropWhile (· != '=') with
  | _ :: word =>
      (readTarget (item.takeWhile (· != '='))).bind fun target =>
        (levelBehind word).map fun level => ⟨some target, level⟩
  | [] =>
      match Level.ofWord? item with
      | some level => some ⟨none, level⟩
      | none => (readTarget item).map fun target => ⟨some target, .trace⟩

/-- A filter in words. -/
def parse (words : String) : Except LogFault Filter :=
  match ((splitOn ',' words.toList).filter (!·.isEmpty)).mapM readItem with
  | some filter => .ok filter
  | none => .error .badFilter

/-- The most verbose level of a filter. -/
def maxLevel (f : Filter) : Level :=
  if f.isEmpty then .error else (f.map Directive.level).foldl Level.max .off

end Reading

section Choice

/-- The filter of the environment if it names a valid one, or else that of the settings. -/
def build (env : Environment) (s : LogSettings) : Except LogFault Filter :=
  match (env "RUST_LOG").map parse with
  | some (.ok filter) => .ok filter
  | _ => parse s.level

/-- Sets the log up where it is set up already. -/
def setUpAgain (env : Environment) (s : LogSettings) : Except LogFault Unit := do
  let _ ← build env s
  throw .alreadySet

end Choice

end Filter
end MeshExchange
